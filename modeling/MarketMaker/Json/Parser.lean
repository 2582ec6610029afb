import MarketMaker.Json.Token

/-!
# Reading JSON documents

The reader takes tokens one at a time. What it has read is a stack of the arrays and objects that
are open (`Frame`), and what may come next is its `Expectation`. Nothing recurses on the document,
so documents may nest to any depth. A document ends the text: after it the reader waits for the end.
-/

namespace MarketMaker.Json

/-- An array or object that is open, with what it holds so far, the newest first. -/
inductive Frame where
  | array (items : List Json)
  | object (members : List (Option String × Json))
  /-- An object whose newest member has its name but not yet its value. -/
  | member (members : List (Option String × Json)) (name : Option String)

/-- What the reader waits for. -/
inductive Expectation where
  | value
  /-- An item of the array just opened, or its end. -/
  | itemOrEnd
  /-- A member of the object just opened, or its end. -/
  | nameOrEnd
  | name
  | colon (name : Option String)
  /-- What may follow a value that has just ended. -/
  | after (value : Json)

/-- The state of the reader. -/
structure Reader where
  expects : Expectation
  frames : List Frame

namespace Reader

/-- Nothing read yet. -/
def start : Reader := ⟨.value, []⟩

/-- Reads the first token of a value. -/
def value? (frames : List Frame) : Token → Option Reader
  | .null => some ⟨.after .null, frames⟩
  | .bool b => some ⟨.after (.bool b), frames⟩
  | .number n => some ⟨.after (.number n), frames⟩
  | .string s => some ⟨.after (.string s), frames⟩
  | .openArray => some ⟨.itemOrEnd, .array [] :: frames⟩
  | .openObject => some ⟨.nameOrEnd, .object [] :: frames⟩
  | _ => none

/-- Reads one token. -/
def step? (r : Reader) (t : Token) : Option Reader :=
  match r.expects, r.frames, t with
  | .value, frames, t => value? frames t
  | .itemOrEnd, .array [] :: frames, .closeArray => some ⟨.after (.array []), frames⟩
  | .itemOrEnd, frames, t => value? frames t
  | .nameOrEnd, .object [] :: frames, .closeObject => some ⟨.after (.object []), frames⟩
  | .nameOrEnd, frames, .string s => some ⟨.colon s, frames⟩
  | .name, frames, .string s => some ⟨.colon s, frames⟩
  | .colon name, .object members :: frames, .colon =>
    some ⟨.value, .member members name :: frames⟩
  | .after v, .array items :: frames, .comma => some ⟨.value, .array (v :: items) :: frames⟩
  | .after v, .array items :: frames, .closeArray =>
    some ⟨.after (.array (v :: items).reverse), frames⟩
  | .after v, .member members name :: frames, .comma =>
    some ⟨.name, .object ((name, v) :: members) :: frames⟩
  | .after v, .member members name :: frames, .closeObject =>
    some ⟨.after (.object ((name, v) :: members).reverse), frames⟩
  | _, _, _ => none

/-- The document, if the reader has read exactly one. -/
def finish? (r : Reader) : Option Json :=
  match r.expects, r.frames with
  | .after v, [] => some v
  | _, _ => none

end Reader

/-- The document that tokens spell. -/
def ofTokens? (tokens : List Token) : Option Json :=
  (tokens.foldlM Reader.step? Reader.start).bind Reader.finish?

/-- The document of a text. -/
def ofChars? (cs : List Char) : Option Json :=
  (Token.scan? [] cs).bind ofTokens?

/-- The document of a text. -/
def parse? (s : String) : Option Json :=
  ofChars? s.toList

end MarketMaker.Json
