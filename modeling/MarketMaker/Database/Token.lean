/-!
# Words of definitions

The text of a definition is cut into words, names in quotation marks, strings, numbers and marks. Blanks
and comments only part them. A quotation mark within quotation marks is written twice.
-/

namespace MarketMaker.Database

/-- A piece of the text of a definition. -/
inductive Token where
  /-- A word without quotation marks: a name, or one of the language. -/
  | word (text : String)
  /-- A name in quotation marks. -/
  | name (text : String)
  | string (text : String)
  | number (text : String)
  | mark (c : Char)
deriving DecidableEq

namespace Token

/-- Blanks. -/
def isBlank (c : Char) : Bool :=
  [' ', '\t', '\n', '\x0c', '\r'].contains c

/-- The characters of words. -/
def isWordChar (c : Char) : Bool :=
  c.isAlphanum || c = '_' || c = '$' || 0x80 ≤ c.toNat

/-- The marks. -/
def marks : List Char :=
  "()+,-./;<=>|&~%*!?:@#".toList

/-- What ends a name that begins with a quotation mark or a square bracket. -/
def closing? (c : Char) : Option Char :=
  if c = '"' || c = '\x60' then some c else if c = '[' then some ']' else none

/-- Reads up to a quotation mark that is not written twice, and says what follows it. -/
def quoted? (closing : Char) : List Char → Option (List Char × List Char)
  | [] => none
  | c :: cs =>
    if c = closing then
      match cs with
      | d :: ds =>
        if d = closing ∧ closing ≠ ']' then
          (quoted? closing ds).map fun (text, rest) => (closing :: text, rest)
        else some ([], cs)
      | [] => some ([], [])
    else (quoted? closing cs).map fun (text, rest) => (c :: text, rest)

/-- What follows a comment between a slash with a star and a star with a slash. -/
def behindComment : List Char → List Char
  | [] => []
  | '*' :: '/' :: rest => rest
  | _ :: rest => behindComment rest

/-- Cuts a text into tokens, at most `fuel` of them and of the blanks and comments between. -/
def cut? : Nat → List Char → Option (List Token)
  | _, [] => some []
  | 0, _ :: _ => none
  | fuel + 1, c :: cs =>
    if isBlank c then cut? fuel cs
    else if c = '-' && cs.head? = some '-' then cut? fuel (cs.dropWhile (· ≠ '\n'))
    else if c = '/' && cs.head? = some '*' then cut? fuel (behindComment (cs.drop 1))
    else if c.isDigit then do
      let more := fun d => isWordChar d || d = '.'
      return .number (String.ofList (c :: cs.takeWhile more)) :: (← cut? fuel (cs.dropWhile more))
    else if isWordChar c then do
      return .word (String.ofList (c :: cs.takeWhile isWordChar)) ::
        (← cut? fuel (cs.dropWhile isWordChar))
    else if c = '\'' then do
      let (text, rest) ← quoted? c cs
      return .string (String.ofList text) :: (← cut? fuel rest)
    else match closing? c with
      | some closing => do
        let (text, rest) ← quoted? closing cs
        return .name (String.ofList text) :: (← cut? fuel rest)
      | none => if marks.contains c then return .mark c :: (← cut? fuel cs) else none

/-- The tokens of a text. -/
def ofString? (text : String) : Option (List Token) :=
  cut? text.length text.toList

/-- Whether a token is a word, in small or large letters. -/
def isWord (t : Token) (text : String) : Bool :=
  match t with
  | word w => w.toUpper = text
  | _ => false

/-- The words that are no names unless in quotation marks. -/
def reserved : List String :=
  ["ADD", "ALL", "ALTER", "AND", "AS", "AUTOINCREMENT", "BETWEEN", "CASE", "CHECK", "COLLATE",
    "COMMIT", "CONSTRAINT", "CREATE", "DEFAULT", "DEFERRABLE", "DELETE", "DISTINCT", "DROP", "ELSE",
    "ESCAPE", "EXISTS", "FOREIGN", "FROM", "GROUP", "HAVING", "IN", "INDEX", "INSERT", "INTERSECT",
    "INTO", "IS", "ISNULL", "JOIN", "LIMIT", "NOT", "NOTHING", "NOTNULL", "NULL", "ON", "OR", "ORDER",
    "PRIMARY", "REFERENCES", "RETURNING", "SELECT", "SET", "TABLE", "THEN", "TO", "TRANSACTION",
    "UNION", "UNIQUE", "UPDATE", "USING", "VALUES", "WHEN", "WHERE"]

/-- The name that a token is. -/
def name? : Token → Option String
  | word w => if reserved.contains w.toUpper then none else some w
  | name text | string text => some text
  | _ => none

end Token

end MarketMaker.Database
