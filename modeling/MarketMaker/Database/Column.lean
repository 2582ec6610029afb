import MarketMaker.Database.Phrase

/-!
# Columns

A column has a name, a type, which may be of several words or none, and traits. What is said about several
columns together is a rule. Of both, it matters which columns are keys or distinct, which must have a
value, and which are computed.
-/

namespace MarketMaker.Database

/-- What is said about a column. -/
inductive Trait where
  /-- The column is the key, in descending order or not, and its values are counted up or not. -/
  | key (isDescending isCounted : Bool)
  | distinct
  | required
  /-- There is a value where none is given. -/
  | preset
  | computed
  | other
deriving DecidableEq

/-- A column. -/
structure Column where
  name : String
  type : List String
  traits : List Trait
deriving DecidableEq

/-- What is said about columns together. -/
inductive Rule where
  | key (columns : List String)
  | distinct (columns : List String)
  /-- The columns refer to those of another table. -/
  | reference (columns : List String)
  | other
deriving DecidableEq

/-! ## Traits -/

namespace Trait

open Phrase

/-- What can be said about a value that breaks a trait. -/
def conflicts : List (List String) :=
  ["ROLLBACK", "ABORT", "FAIL", "IGNORE", "REPLACE"].map (["ON", "CONFLICT", ·])

/-- What can be said about a row that another row refers to. -/
def reactions : List (List String) :=
  ["DELETE", "INSERT", "UPDATE"].flatMap fun event =>
    [["SET", "NULL"], ["SET", "DEFAULT"], ["CASCADE"], ["RESTRICT"], ["NO", "ACTION"]].map
      (["ON", event] ++ ·)

/-- Passes over a preset value. -/
def passPreset? (ts : List Token) : Option (List Token) :=
  passComputed? ts <|>
    match ts with
    | .mark '+' :: .number _ :: ts | .mark '-' :: .number _ :: ts => some ts
    | .number _ :: ts => some ts
    | t :: ts => if t.isWord "NULL" then some ts else t.name?.map fun _ => ts
    | [] => none

/-- Passes over a reference to another table. -/
def passReference? (ts : List Token) : Option (List Token) := do
  let ts := passBrackets (← passName? ts)
  return (List.replicate 3 reactions).foldl (fun ts reactions => passAny reactions ts) ts

/-- Reads a trait. -/
def read? (ts : List Token) : Option (Trait × List Token) :=
  (do return (other, ← passName? (← pass? ["CONSTRAINT"] ts))) <|>
  (do return (preset, ← passPreset? (← pass? ["DEFAULT"] ts))) <|>
  (do return (other, passAny conflicts (← pass? ["NULL"] ts))) <|>
  (do return (required, passAny conflicts (← pass? ["NOT", "NULL"] ts))) <|>
  (do
    let ts ← pass? ["PRIMARY", "KEY"] ts
    let rest := passAny conflicts (passAny [["ASC"], ["DESC"]] ts)
    return (key (pass? ["DESC"] ts).isSome (pass? ["AUTOINCREMENT"] rest).isSome,
      pass ["AUTOINCREMENT"] rest)) <|>
  (do return (distinct, passAny conflicts (← pass? ["UNIQUE"] ts))) <|>
  (do return (other, ← passComputed? (← pass? ["CHECK"] ts))) <|>
  (do return (other, ← passReference? (← pass? ["REFERENCES"] ts))) <|>
  (do
    let ts ← pass? ["DEFERRABLE"] (pass ["NOT"] ts)
    return (other, passAny [["INITIALLY", "DEFERRED"], ["INITIALLY", "IMMEDIATE"]] ts)) <|>
  (do return (other, ← passName? (← pass? ["COLLATE"] ts))) <|>
  (do
    let ts ← passComputed? (← pass? ["AS"] (pass ["GENERATED", "ALWAYS"] ts))
    return (computed, passAny [["STORED"], ["VIRTUAL"]] ts))

/-- Reads traits, at most `fuel` of them, up to the end. -/
def readAll? : Nat → List Token → Option (List Trait)
  | _, [] => some []
  | 0, _ :: _ => none
  | fuel + 1, ts => do
    let (trait, rest) ← read? ts
    return trait :: (← readAll? fuel rest)

end Trait

/-! ## Columns -/

namespace Column

/-- A word of a type. -/
def typeWord? (t : Token) : Option String :=
  if t.isWord "GENERATED" then none else t.name?

/-- Passes over a number with or without a sign. -/
def isSigned : List Token → Bool
  | [.number _] | [.mark '+', .number _] | [.mark '-', .number _] => true
  | _ => false

/-- Passes over the size in a type, one number or two in brackets, if it is there. -/
def passSize? (ts : List Token) : Option (List Token) :=
  match ts with
  | .mark '(' :: _ => do
    let (pieces, rest) ← Phrase.brackets? ts
    if pieces.length ≤ 2 ∧ pieces.all isSigned then return rest else none
  | _ => some ts

/-- Reads a column. -/
def ofTokens? (ts : List Token) : Option Column := do
  let (name, ts) ← Phrase.name? ts
  let type := (ts.takeWhile fun t => (typeWord? t).isSome).filterMap typeWord?
  let rest := ts.drop type.length
  let rest ← if type.isEmpty then some rest else passSize? rest
  return ⟨name, type, ← Trait.readAll? rest.length rest⟩

/-- Whether a column is of whole numbers, so that as a key it can stand for the number of a row. -/
def isWhole (c : Column) : Bool :=
  c.type.map String.toUpper = ["INTEGER"]

/-- Whether a column is computed. -/
def isComputed (c : Column) : Bool :=
  c.traits.contains .computed

/-- The keys among the traits: whether each is in descending order, and whether it is counted up. -/
def keys (c : Column) : List (Bool × Bool) :=
  c.traits.filterMap fun
    | .key isDescending isCounted => some (isDescending, isCounted)
    | _ => none

end Column

/-! ## Rules -/

namespace Rule

open Phrase

/-- The words with which rules begin. -/
def beginnings : List String :=
  ["CONSTRAINT", "PRIMARY", "UNIQUE", "CHECK", "FOREIGN"]

/-- The column in a piece of a list, which may say how it is ordered. -/
def columnOf? (piece : List Token) : Option String := do
  let (name, ts) ← name? piece
  let ts := ((pass? ["COLLATE"] ts).bind passName?).getD ts
  if (passAny [["ASC"], ["DESC"]] ts).isEmpty then return name else none

/-- Reads a list of columns. -/
def columns? (ts : List Token) : Option (List String × List Token) := do
  let (pieces, rest) ← brackets? ts
  return (← pieces.mapM columnOf?, passAny Trait.conflicts rest)

/-- Reads a rule. -/
def read? (ts : List Token) : Option (Rule × List Token) :=
  (do return (other, ← passName? (← pass? ["CONSTRAINT"] ts))) <|>
  (do
    let (columns, rest) ← columns? (← pass? ["PRIMARY", "KEY"] ts)
    return (key columns, rest)) <|>
  (do
    let (columns, rest) ← columns? (← pass? ["UNIQUE"] ts)
    return (distinct columns, rest)) <|>
  (do return (other, passAny Trait.conflicts (← passComputed? (← pass? ["CHECK"] ts)))) <|>
  (do
    let (columns, rest) ← columns? (← pass? ["FOREIGN", "KEY"] ts)
    return (reference columns, ← Trait.passReference? (← pass? ["REFERENCES"] rest)))

/-- Reads rules, at most `fuel` of them, up to the end. -/
def readAll? : Nat → List Token → Option (List Rule)
  | _, [] => some []
  | 0, _ :: _ => none
  | fuel + 1, ts => do
    let (rule, rest) ← read? ts
    return rule :: (← readAll? fuel rest)

/-- The columns that a rule is about. -/
def columns : Rule → List String
  | key columns | distinct columns | reference columns => columns
  | other => []

/-- The columns of a rule that tells the key. -/
def keyColumns : Rule → List String
  | key columns => columns
  | _ => []

end Rule

end MarketMaker.Database
