import MarketMaker.Json.Token
import MarketMaker.Decimal.Shortest

/-!
# Writing JSON documents

A document is written as its tokens, without blanks (`compact`) or over lines indented by two
spaces (`indented`). Strings escape the quote, the backslash and the control characters, and nothing
else. Numbers are written with the fewest digits; what is no number is written as `null`.
-/

namespace MarketMaker.Json

/-! ## Numbers -/

/-- Numbers from `0.00001` up to sixteen digits before the point are written out, with `.0` when
whole, all others with an exponent; of two equally near numbers the even one is written. -/
def numberLayout : Layout where
  positional lead := decide (-5 ≤ lead ∧ lead ≤ 15)
  wholePoint := true
  tie := .even

/-- A document that writes a double; only finite ones have a numeral. -/
def ofFloat (x : Float) : Json :=
  if x.isFinite then .number (numberLayout.shortest x) else .null

/-! ## Strings -/

/-- A character inside a string. -/
def escape (c : Char) : List Char :=
  if c = '"' then ['\\', '"']
  else if c = '\\' then ['\\', '\\']
  else if c = '\x08' then ['\\', 'b']
  else if c = '\x0c' then ['\\', 'f']
  else if c = '\n' then ['\\', 'n']
  else if c = '\r' then ['\\', 'r']
  else if c = '\t' then ['\\', 't']
  else if c.toNat < 0x20 then
    ['\\', 'u', '0', '0', Text.hexDigit (c.toNat / 16), Text.hexDigit (c.toNat % 16)]
  else [c]

/-- A string with its quotes. A string that names no characters is written empty. -/
def quote (s : Option String) : List Char :=
  '"' :: (s.getD "").toList.flatMap escape ++ ['"']

/-! ## Tokens -/

/-- The text of a token. -/
def Token.text : Token → List Char
  | .openArray => ['[']
  | .closeArray => [']']
  | .openObject => ['\x7b']
  | .closeObject => ['\x7d']
  | .comma => [',']
  | .colon => [':']
  | .null => "null".toList
  | .bool true => "true".toList
  | .bool false => "false".toList
  | .number n => n.text
  | .string s => quote s

mutual

/-- The tokens of a document, in front of `rest`. -/
def tokens (rest : List Token) : Json → List Token
  | .null => .null :: rest
  | .bool b => .bool b :: rest
  | .number n => .number n :: rest
  | .string s => .string s :: rest
  | .array [] => .openArray :: .closeArray :: rest
  | .array (item :: items) => .openArray :: tokens (itemTokens (.closeArray :: rest) items) item
  | .object [] => .openObject :: .closeObject :: rest
  | .object ((name, value) :: members) =>
    .openObject :: .string name :: .colon ::
      tokens (memberTokens (.closeObject :: rest) members) value

/-- The tokens of the items after the first, each behind its comma. -/
def itemTokens (rest : List Token) : List Json → List Token
  | [] => rest
  | item :: items => .comma :: tokens (itemTokens rest items) item

/-- The tokens of the members after the first, each behind its comma. -/
def memberTokens (rest : List Token) : List (Option String × Json) → List Token
  | [] => rest
  | (name, value) :: members =>
    .comma :: .string name :: .colon :: tokens (memberTokens rest members) value

end

/-- The characters of tokens, one after the other. -/
def charsOf (tokens : List Token) : List Char :=
  tokens.flatMap Token.text

/-- The text of a document, without blanks. -/
def compact (j : Json) : String :=
  String.ofList (charsOf (tokens [] j))

/-! ## Indented -/

/-- A line break and the blanks before a line at some depth. -/
def newline (depth : Nat) : List Char :=
  '\n' :: List.replicate (2 * depth) ' '

mutual

/-- The characters of a document whose first line starts at some depth, in front of `rest`. -/
def indentedChars (depth : Nat) (rest : List Char) : Json → List Char
  | .array (item :: items) =>
    '[' :: newline (depth + 1) ++ indentedChars (depth + 1)
      (indentedItems depth (newline depth ++ ']' :: rest) items) item
  | .object ((name, value) :: members) =>
    '\x7b' :: newline (depth + 1) ++ quote name ++ ':' :: ' ' :: indentedChars (depth + 1)
      (indentedMembers depth (newline depth ++ '\x7d' :: rest) members) value
  | j => charsOf (tokens [] j) ++ rest

/-- The characters of the items after the first. -/
def indentedItems (depth : Nat) (rest : List Char) : List Json → List Char
  | [] => rest
  | item :: items =>
    ',' :: newline (depth + 1) ++ indentedChars (depth + 1) (indentedItems depth rest items) item

/-- The characters of the members after the first. -/
def indentedMembers (depth : Nat) (rest : List Char) : List (Option String × Json) → List Char
  | [] => rest
  | (name, value) :: members =>
    ',' :: newline (depth + 1) ++ quote name ++ ':' :: ' ' ::
      indentedChars (depth + 1) (indentedMembers depth rest members) value

end

/-- The text of a document over lines, each level indented by two spaces. -/
def indented (j : Json) : String :=
  String.ofList (indentedChars 0 [] j)

end MarketMaker.Json
