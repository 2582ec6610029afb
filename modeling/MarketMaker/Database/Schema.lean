import MarketMaker.Database.Definition
import MarketMaker.Database.Record
import MarketMaker.Database.Tree

/-!
# Schemas

The tree at the first page of a database has a row for each thing in it: its type, its name, the table it
belongs to, the page at the top of its tree, and its definition. The rows are taken one by one, and each
must make sense with those before it: a definition must be of the type and name that its row says, an
index must belong to a table that is known. An index without a definition is one that its table brings
along.
-/

namespace MarketMaker.Database

/-- A table or a view. -/
inductive Relation where
  /-- A table, with the page at the top of its tree. -/
  | table (name : String) (top : Nat) (columns : Columns)
  | view (name : String) (sources : List String)
  | virtual (name driver : String)
deriving DecidableEq

/-- The name of a table or a view. -/
def Relation.name : Relation → String
  | table name .. | view name .. | virtual name .. => name

/-- An index of a table. -/
structure Index where
  name : String
  owner : String
  columns : List String
  /-- Whether the values of the columns are distinct in all rows. -/
  isDistinct : Bool
  /-- The page at the top of its tree, once that is known. -/
  top : Option Nat
deriving DecidableEq

/-- What a database holds. -/
structure Schema where
  relations : List Relation
  indexes : List Index
  /-- What a trigger uses when rows are deleted from a table, under the name of that table. -/
  uses : List (String × List String)
deriving DecidableEq

namespace Schema

/-- The table or the view of a name. -/
def relation? (s : Schema) (name : String) : Option Relation :=
  s.relations.find? (sameName name ·.name)

/-- What is used when rows are deleted from a table. -/
def usesOf (s : Schema) (name : String) : List String :=
  s.uses.flatMap fun use => if sameName name use.1 then use.2 else []

/-- Whether there is an index of a name. -/
def hasIndex (s : Schema) (name : String) : Bool :=
  s.indexes.any (sameName name ·.name)

/-- The indexes of a table. -/
def indexesOf (s : Schema) (name : String) : List Index :=
  s.indexes.filter (sameName name ·.owner)

/-- The indexes that a table brings along. Where the rows are kept by their key, the tree of its index is
that of the table. -/
def ownIndexesOf : Relation → List Index
  | .table name top columns => columns.indexed.mapIdx fun i indexed => {
    name := "sqlite_autoindex_" ++ name ++ "_" ++ toString (i + 1)
    owner := name
    columns := indexed.2
    isDistinct := true
    top := if columns.isKeyed && indexed.1 then some top else none }
  | .view .. | .virtual .. => []

/-- Adds a table or a view, and the indexes that it brings along. -/
def addRelation? (s : Schema) (r : Relation) : Option Schema :=
  if (s.relation? r.name).isSome || s.hasIndex r.name then none
  else some { s with
    relations := s.relations ++ [r]
    indexes := s.indexes ++ ownIndexesOf r }

/-- Tells of an index where its tree is. -/
def placeIndex? (s : Schema) (name : String) (top : Nat) : Option Schema :=
  let place := fun (i : Index) => if sameName name i.name then { i with top := some top } else i
  if s.hasIndex name && 2 ≤ top then some { s with indexes := s.indexes.map place } else none

/-- Adds what a definition defines, if that is what a type, a name and a table say. -/
def define? (s : Schema) (d : Definition) (type name table : String) (top : Nat) : Option Schema :=
  let isAbout := fun type' name' table' =>
    sameName type type' && sameName name name' && sameName table table'
  match d with
  | .table n columns =>
    if isAbout "table" n n && top ≠ 1 then s.addRelation? (.table n top columns) else none
  | .view n sources =>
    if isAbout "view" n n && top ≠ 1 then s.addRelation? (.view n sources) else none
  | .virtual n driver =>
    if isAbout "table" n n && top ≠ 1 then s.addRelation? (.virtual n driver) else none
  | .index n t names isDistinct =>
    match s.relation? t with
    | some (.table t _ columns) =>
      if isAbout "index" n t && !s.hasIndex n && names.all (isAmong · columns.names)
      then some { s with indexes := s.indexes ++ [⟨n, t, names, isDistinct, some top⟩] }
      else none
    | _ => none
  | .trigger n t isForDeletion sources =>
    if isAbout "trigger" n t && (s.relation? t).isSome then
      some (if isForDeletion then { s with uses := s.uses ++ [(t, sources)] } else s)
    else none

/-- Reads the number of a page. -/
def top? (pages : Nat) (text : String) : Option Nat :=
  let digits := text.toList
  if digits.isEmpty || !digits.all Char.isDigit then none
  else
    let n := Nat.ofDigitChars 10 digits 0
    if n ≤ pages then some n else none

/-- Whether a text begins like a definition. -/
def isDefinition (text : String) : Bool :=
  "CR".toList.isPrefixOf text.toUpper.toList

/-- Takes a row. -/
def take? (pages : Nat) (s : Schema) (row : List (Option String)) : Option Schema := do
  let name := (row[1]?.join).getD ""
  let top ← row[3]?.join
  let text := (row[4]?.join).getD ""
  if isDefinition text then
    let type ← row[0]?.join
    let table ← row[2]?.join
    s.define? (← Definition.ofString? text) type name table (← top? pages top)
  else if text = "" then s.placeIndex? name (← top? pages top)
  else none

/-- A database without anything in it. -/
def empty : Schema := ⟨[], [], []⟩

/-- Reads the schema of a database. -/
def ofFile? (f : File) : Option Schema := do
  let rows ← (← f.rows? .table 1).mapM (Record.ofBytes? 5)
  rows.foldlM (fun s row => s.take? f.pages (row.map (Value.string? f.encoding))) empty

end Schema

end MarketMaker.Database
