import MarketMaker.Json.Number

/-!
# Reading records

A record is read from an object by the names of its members, or from an array by their places.
`slots?` brings both to the same form: for each name, the document that stands under it, if any. A
known name must not occur twice, unknown names are passed over with whatever they hold, and every
name must be readable. An array may be shorter than the record, not longer. Each slot then says for
itself whether it may be left out.
-/

namespace MarketMaker.Json

/-- What stands under a name: at most one document. -/
def member? (members : List (String × Json)) (name : String) : Option (Option Json) :=
  match members.filter (fun m => m.1 = name) with
  | [] => some none
  | [m] => some (some m.2)
  | _ => none

/-- The members of an object, if all their names are readable. -/
def named? (members : List (Option String × Json)) : Option (List (String × Json)) :=
  members.mapM fun (name, value) => name.map (·, value)

/-- What stands under each name of a record. -/
def slots? (names : List String) : Json → Option (List (Option Json))
  | .object members => (named? members).bind fun members => names.mapM (member? members)
  | .array items =>
    if items.length ≤ names.length then
      some (items.map some ++ List.replicate (names.length - items.length) none)
    else none
  | _ => none

/-! ## Slots -/

variable {α : Type}

/-- A slot that must be filled. -/
def required (read : Json → Option α) : Option Json → Option α
  | none => none
  | some j => read j

/-- A slot that may be left out, with what it then stands for. -/
def withDefault (absent : α) (read : Json → Option α) : Option Json → Option α
  | none => some absent
  | some j => read j

/-- A slot that may be left out or `null`. -/
def optional (read : Json → Option α) : Option Json → Option (Option α)
  | none => some none
  | some .null => some none
  | some j => (read j).map some

/-! ## What fills them -/

/-- Any number, as a double. -/
def asFloat? : Json → Option Float
  | .number n => float? n
  | _ => none

/-- A whole number in the range of an unsigned word. -/
def asWord? : Json → Option UInt64
  | .number n => word? n
  | _ => none

/-- A whole number in the range of a signed word. -/
def asSigned? : Json → Option Int64
  | .number n => signed? n
  | _ => none

/-- A readable string. -/
def asText? : Json → Option String
  | .string s => s
  | _ => none

/-- An array, each item read alike. -/
def asList? (read : Json → Option α) : Json → Option (List α)
  | .array items => items.mapM read
  | _ => none

/-- One of several words, each standing for a value: the word itself, or an object with the word as
its only name and `null` under it. -/
def asChoice? (choices : List (String × α)) (j : Json) : Option α :=
  let word? := match j with
    | .string s => s
    | .object [(name, .null)] => name
    | _ => none
  word?.bind fun word => (choices.find? (·.1 = word)).map (·.2)

/-! ## Documents that are read as a whole

A record that is told apart by one of its members is read in full before that member is looked for.
Then even what is passed over must be readable, and must not nest too deep. -/

/-- The deepest level at which an array or object may stand, the outermost one counting one. -/
def depthLimit : Nat := 127

/-- Whether everything in a document has a value, with no array or object deeper than `room`
levels. -/
def isReadable : (room : Nat) → Json → Bool
  | _, .null => true
  | _, .bool _ => true
  | _, .number n => (float? n).isSome
  | _, .string s => s.isSome
  | 0, .array _ => false
  | 0, .object _ => false
  | room + 1, .array items => items.all (isReadable room)
  | room + 1, .object members => members.all fun m => m.1.isSome && isReadable room m.2

end MarketMaker.Json
