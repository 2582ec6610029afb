import MarketMaker.Database.Column

/-!
# Definitions

What a database holds is told in definitions of tables, views, indexes and triggers. Of a table its
columns matter, and the indexes it brings along for values that must be distinct; of a view, what it is
taken from; of an index, the columns; of a trigger, what it uses. What is computed in a definition is
passed over.
-/

namespace MarketMaker.Database

/-- The columns of a table. -/
structure Columns where
  names : List String
  /-- The columns that must have a value, which has to be given. -/
  required : List String
  /-- The columns whose values cannot be given. -/
  computed : List String
  /-- Whether the rows are kept by their key, like the entries of an index. -/
  isKeyed : Bool
  /-- Whether the keys are counted up. -/
  isCounted : Bool
  /-- The columns of each index that the table brings along, and whether it is that of the key. -/
  indexed : List (Bool × List String)
deriving DecidableEq

/-- What a definition defines, under a name. -/
inductive Definition where
  | table (name : String) (columns : Columns)
  /-- A view of tables and views, in their order. -/
  | view (name : String) (sources : List String)
  /-- An index on columns of a table, as far as they are columns and nothing computed, and whether it keeps
  their values distinct in all rows. -/
  | index (name owner : String) (columns : List String) (isDistinct : Bool)
  /-- A table whose rows are kept by a driver of its own. -/
  | virtual (name driver : String)
  /-- A trigger on a table: whether it is for the deletion of rows, and the tables that it uses. -/
  | trigger (name owner : String) (isForDeletion : Bool) (sources : List String)
deriving DecidableEq

/-! ## Columns of a table -/

namespace Columns

/-- The types of a table in which every column has a type. -/
def strictTypes : List String :=
  ["ANY", "BLOB", "INT", "INTEGER", "REAL", "TEXT"]

/-- Whether a column is of a type that a table knows in which every column has one. -/
def isStrict (c : Column) : Bool :=
  match c.type with
  | [type] => isAmong type strictTypes
  | _ => false

/-- The keys that columns are: the key of whole numbers that stand for the numbers of rows needs no
index. -/
def ofColumn (isKeyed : Bool) (c : Column) : List (Bool × List String) :=
  c.traits.filterMap fun
    | .key isDescending _ =>
      if c.isWhole && !isDescending && !isKeyed then none else some (true, [c.name])
    | .distinct => some (false, [c.name])
    | _ => none

/-- The columns of a rule that need an index. -/
def ofRule? (isKeyed : Bool) (columns : List Column) : Rule → Option (Bool × List String)
  | .key names =>
    if names.length = 1 && !isKeyed &&
        columns.any (fun c => c.isWhole && isAmong c.name names) then none
    else some (true, names)
  | .distinct names => some (false, names)
  | .reference _ | .other => none

/-- Leaves out what is about the same columns as something before. -/
def withoutRepeats : List (Bool × List String) → List (Bool × List String)
  | [] => []
  | (isKey, names) :: rest =>
    let isSame := fun (other : Bool × List String) => other.2 = names
    (isKey || rest.any fun other => isSame other && other.1, names) ::
      withoutRepeats (rest.filter (!isSame ·))
termination_by keys => keys.length
decreasing_by
  exact Nat.lt_succ_of_le (List.length_filter_le _ _)

/-- The columns of a table, if they make sense together: names differ, there is one key at most, rules are
about columns that are there, and what is counted up is the number of the row. -/
def of? (columns : List Column) (rules : List Rule) (isKeyed isTyped : Bool) : Option Columns :=
  let names := columns.map (·.name)
  let keys := columns.flatMap fun c => c.keys.map (c, ·)
  let keyRules := (rules.map Rule.keyColumns).filter (!·.isEmpty)
  let counted := keys.filter (·.2.2)
  let indexed := columns.flatMap (ofColumn isKeyed) ++ rules.filterMap (ofRule? isKeyed columns)
  if names.isEmpty || (names.map String.toLower).eraseDups.length ≠ names.length then none
  else if 1 < keys.length + keyRules.length then none
  else if isKeyed && keys.length + keyRules.length = 0 then none
  else if !(rules.flatMap Rule.columns).all (isAmong · names) then none
  else if counted.any fun (c, isDescending, _) => !c.isWhole || isDescending || isKeyed then none
  else if columns.all Column.isComputed then none
  else if columns.any fun c => c.isComputed &&
    (c.traits.contains .preset || !c.keys.isEmpty || keyRules.any (isAmong c.name)) then none
  else if isTyped && !columns.all isStrict then none
  else some {
    names
    required := (columns.filter fun c =>
      c.traits.contains .required && !c.traits.contains .preset).map (·.name)
    computed := (columns.filter Column.isComputed).map (·.name)
    isKeyed
    isCounted := !counted.isEmpty
    indexed := withoutRepeats (indexed.map fun key => (key.1, key.2.map String.toLower)) }

end Columns

namespace Definition

open Phrase

/-! ## Tables -/

/-- Whether a piece of a table is a rule. -/
def isRule (piece : List Token) : Bool :=
  piece.head?.any fun t => Rule.beginnings.any t.isWord

/-- Reads what stands behind the columns: whether rows are kept by their key, and whether every column has
a type. -/
def ending? : List Token → Option (Bool × Bool)
  | [] => some (false, false)
  | t :: ts =>
    if t = .mark ';' then some (false, false)
    else if t = .mark ',' then ending? ts
    else if t.isWord "STRICT" then (ending? ts).map fun (isKeyed, _) => (isKeyed, true)
    else match ts with
      | u :: ts =>
        if t.isWord "WITHOUT" && u.isWord "ROWID" then
          (ending? ts).map fun (_, isTyped) => (true, isTyped)
        else none
      | [] => none

/-- Reads a table behind the words that begin it. -/
def table? (ts : List Token) : Option Definition := do
  let (name, ts) ← name? (pass ["IF", "NOT", "EXISTS"] ts)
  let (pieces, ts) ← brackets? ts
  let (isKeyed, isTyped) ← ending? ts
  let columns ← (pieces.takeWhile (!isRule ·)).mapM Column.ofTokens?
  let rules ← (pieces.dropWhile (!isRule ·)).mapM fun piece => Rule.readAll? piece.length piece
  return .table name (← Columns.of? columns rules.flatten isKeyed isTyped)

/-- Reads a table with a driver behind the words that begin it. -/
def virtual? (ts : List Token) : Option Definition := do
  let (name, ts) ← name? (pass ["IF", "NOT", "EXISTS"] ts)
  let (driver, _) ← name? (← pass? ["USING"] ts)
  return .virtual name driver

/-! ## Views, indexes, triggers -/

/-- The words before the name of what is read or written. -/
def sourceWords : List String := ["FROM", "JOIN", "INTO", "UPDATE"]

/-- What a query or a change uses. -/
def sourcesOf : List Token → List String
  | t :: u :: ts =>
    let rest := sourcesOf (u :: ts)
    if sourceWords.any t.isWord then
      let source := match ts with
        | .mark '.' :: v :: _ => v
        | _ => u
      source.name?.elim rest (· :: rest)
    else rest
  | _ => []

/-- Reads a view behind the words that begin it. -/
def view? (ts : List Token) : Option Definition := do
  let (name, ts) ← name? (pass ["IF", "NOT", "EXISTS"] ts)
  let query ← pass? ["AS"] (passBrackets ts)
  if ["SELECT", "VALUES", "WITH"].any fun w => query.head?.any (·.isWord w) then
    return .view name (sourcesOf query)
  else none

/-- Reads an index behind the words that begin it. -/
def index? (isUnique : Bool) (ts : List Token) : Option Definition := do
  let (name, ts) ← name? (pass ["IF", "NOT", "EXISTS"] ts)
  let (owner, ts) ← name? (← pass? ["ON"] ts)
  let (pieces, ts) ← brackets? ts
  return .index name owner (pieces.filterMap Rule.columnOf?) (isUnique && !hasWord "WHERE" 0 ts)

/-- Reads a trigger behind the words that begin it. -/
def trigger? (ts : List Token) : Option Definition := do
  let (name, ts) ← name? (pass ["IF", "NOT", "EXISTS"] ts)
  let event := ts.takeWhile (!·.isWord "ON")
  let (owner, ts) ← name? (← pass? ["ON"] (ts.dropWhile (!·.isWord "ON")))
  if hasWord "BEGIN" 0 ts && hasWord "END" 0 ts then
    return .trigger name owner (hasWord "DELETE" 0 event) (sourcesOf ts)
  else none

/-- Reads a definition. -/
def ofString? (text : String) : Option Definition := do
  let ts ← pass? ["CREATE"] (← Token.ofString? text)
  let ts := passAny [["TEMP"], ["TEMPORARY"]] ts
  (pass? ["TABLE"] ts).bind table? <|>
    (pass? ["VIRTUAL", "TABLE"] ts).bind virtual? <|>
    (pass? ["VIEW"] ts).bind view? <|>
    (pass? ["INDEX"] ts).bind (index? false) <|>
    (pass? ["UNIQUE", "INDEX"] ts).bind (index? true) <|>
    (pass? ["TRIGGER"] ts).bind trigger?

end Definition

end MarketMaker.Database
