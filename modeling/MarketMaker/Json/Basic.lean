import MarketMaker.Decimal.Numeral

/-!
# JSON documents

A document is kept as it is written as far as reading may depend on it: numbers are numerals and not
yet values, members of an object stand in their order with repeated names, and a string whose
escapes name no character is kept apart (`none`), since a document that holds one is well formed
though the string cannot be read.
-/

namespace MarketMaker

/-- A JSON document. -/
inductive Json where
  | null
  | bool (value : Bool)
  | number (numeral : Numeral)
  | string (value : Option String)
  | array (items : List Json)
  | object (members : List (Option String × Json))
deriving Inhabited

namespace Json

/-- A string document. -/
def text (s : String) : Json := .string (some s)

/-- An object from its members. -/
def record (members : List (String × Json)) : Json :=
  .object (members.map fun m => (some m.1, m.2))

/-- A document that writes an unsigned word. -/
def ofWord (n : UInt64) : Json := .number (.ofNat n.toNat)

/-- A document that writes a signed word. -/
def ofSigned (n : Int64) : Json := .number (.ofInt n.toInt)

/-- A document that writes a natural number. -/
def ofNat (n : Nat) : Json := .number (.ofNat n)

end Json

end MarketMaker
