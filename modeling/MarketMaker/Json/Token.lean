import MarketMaker.Json.Basic
import MarketMaker.Text.Hexadecimal

/-!
# JSON tokens

A JSON text is a row of tokens with blanks between them. Strings are read in two stages: their pieces
first (`StringPiece`), each a character or the sixteen bits of a numeric escape, then the characters
that the pieces stand for. The first stage refuses a text that is not well formed; the second finds
the strings that are well formed but name no characters, those with half of a surrogate pair.
-/

namespace MarketMaker.Json

/-- A token. -/
inductive Token where
  | openArray
  | closeArray
  | openObject
  | closeObject
  | comma
  | colon
  | null
  | bool (value : Bool)
  | number (numeral : Numeral)
  | string (value : Option String)
deriving DecidableEq

/-- A piece of a string: a character, or sixteen bits from a numeric escape. -/
inductive StringPiece where
  | char (c : Char)
  | code (n : Nat)
deriving DecidableEq

namespace StringPiece

/-- The value of four hexadecimal digits. -/
def code? (a b c d : Char) : Option Nat := do
  return (((← Text.hexValue? a) * 16 + (← Text.hexValue? b)) * 16 + (← Text.hexValue? c)) * 16 +
    (← Text.hexValue? d)

/-- The character of a short escape. -/
def shortEscape? : Char → Option Char
  | '"' => some '"'
  | '\\' => some '\\'
  | '/' => some '/'
  | 'b' => some '\x08'
  | 'f' => some '\x0c'
  | 'n' => some '\n'
  | 'r' => some '\r'
  | 't' => some '\t'
  | _ => none

/-- Reads the pieces of a string up to its closing quote, behind the pieces read so far. A control
character must be escaped. -/
def scan? (read : List StringPiece) : List Char → Option (List StringPiece × List Char)
  | [] => none
  | '"' :: cs => some (read.reverse, cs)
  | '\\' :: 'u' :: a :: b :: c :: d :: cs =>
    (code? a b c d).bind fun n => scan? (.code n :: read) cs
  | '\\' :: e :: cs => (shortEscape? e).bind fun c => scan? (.char c :: read) cs
  | c :: cs => if c.toNat < 0x20 ∨ c = '\\' then none else scan? (.char c :: read) cs

/-- Whether sixteen bits are the first half of a surrogate pair. -/
def isHigh (n : Nat) : Bool := 0xD800 ≤ n && n < 0xDC00

/-- Whether sixteen bits are the second half of a surrogate pair. -/
def isLow (n : Nat) : Bool := 0xDC00 ≤ n && n < 0xE000

/-- The character of a surrogate pair. -/
def pair (high low : Nat) : Char :=
  Char.ofNat (0x10000 + (high - 0xD800) * 0x400 + (low - 0xDC00))

/-- The characters that pieces stand for, behind those found so far. -/
def characters? (found : List Char) : List StringPiece → Option (List Char)
  | [] => some found.reverse
  | .char c :: ps => characters? (c :: found) ps
  | .code high :: .code low :: ps =>
    if isHigh high && isLow low then characters? (pair high low :: found) ps
    else if isHigh high || isLow high then none
    else characters? (Char.ofNat high :: found) (.code low :: ps)
  | .code n :: ps =>
    if isHigh n || isLow n then none else characters? (Char.ofNat n :: found) ps

/-- Scanning a string uses up at least its closing quote. -/
theorem length_of_scan? {read pieces : List StringPiece} {cs rest : List Char}
    (h : scan? read cs = some (pieces, rest)) : rest.length < cs.length := by
  fun_induction scan? read cs with
  | case1 => simp at h
  | case2 read cs =>
    simp only [Option.some.injEq, Prod.mk.injEq] at h
    simp [← h.2]
  | case3 read a b c d cs ih =>
    obtain ⟨n, _, h⟩ := Option.bind_eq_some_iff.1 h
    have := ih n h
    simp only [List.length_cons]
    omega
  | case4 read e cs _ ih =>
    obtain ⟨c, _, h⟩ := Option.bind_eq_some_iff.1 h
    have := ih c h
    simp only [List.length_cons]
    omega
  | case5 => simp at h
  | case6 read c cs _ _ _ _ ih =>
    have := ih h
    simp only [List.length_cons]
    omega

end StringPiece

namespace Token

/-- Reads a string token after its opening quote. -/
def string? (cs : List Char) : Option (Token × List Char) :=
  (StringPiece.scan? [] cs).map fun (pieces, rest) =>
    (.string ((StringPiece.characters? [] pieces).map String.ofList), rest)

/-- Takes a word off the front of a text. -/
def afterWord? (word : List Char) (cs : List Char) : Option (List Char) :=
  if cs.take word.length = word then some (cs.drop word.length) else none

/-- The tokens of a single character. -/
def mark? : Char → Option Token
  | '[' => some .openArray
  | ']' => some .closeArray
  | '\x7b' => some .openObject
  | '\x7d' => some .closeObject
  | ',' => some .comma
  | ':' => some .colon
  | _ => none

/-- The tokens that are words, by their first letter: the other letters, and the token. -/
def word? : Char → Option (List Char × Token)
  | 'n' => some ("ull".toList, .null)
  | 't' => some ("rue".toList, .bool true)
  | 'f' => some ("alse".toList, .bool false)
  | _ => none

/-- Reads the token at the front of a text that starts with no blank. -/
def next? : List Char → Option (Token × List Char)
  | [] => none
  | c :: cs =>
    match mark? c, word? c with
    | some t, _ => some (t, cs)
    | none, some (word, t) => (afterWord? word cs).map fun rest => (t, rest)
    | none, none =>
      if c = '"' then string? cs
      else (Numeral.scan? (c :: cs)).map fun (n, rest) => (.number n, rest)

/-- The blanks that may stand between tokens. -/
def isSpace (c : Char) : Bool :=
  c == ' ' || c == '\t' || c == '\n' || c == '\r'

theorem length_of_string? {cs rest : List Char} {t : Token} (h : string? cs = some (t, rest)) :
    rest.length < cs.length := by
  obtain ⟨⟨pieces, rest'⟩, hp, hr⟩ := Option.map_eq_some_iff.1 h
  simp only [Prod.mk.injEq] at hr
  obtain ⟨-, rfl⟩ := hr
  exact StringPiece.length_of_scan? hp

theorem length_of_afterWord? {word cs rest : List Char} (h : afterWord? word cs = some rest) :
    rest.length ≤ cs.length := by
  unfold afterWord? at h
  split at h
  · simp only [Option.some.injEq] at h
    simp [← h]
  · simp at h

/-- Reading a token uses up at least one character. -/
theorem length_of_next? {cs rest : List Char} {t : Token} (h : next? cs = some (t, rest)) :
    rest.length < cs.length := by
  unfold next? at h
  split at h
  · simp at h
  next c cs =>
    simp only [List.length_cons]
    split at h
    · simp only [Option.some.injEq, Prod.mk.injEq] at h
      simp [← h.2]
    · obtain ⟨rest', hw, hr⟩ := Option.map_eq_some_iff.1 h
      simp only [Prod.mk.injEq] at hr
      obtain ⟨-, rfl⟩ := hr
      exact Nat.lt_succ_of_le (length_of_afterWord? hw)
    · split at h
      · exact Nat.lt_succ_of_lt (length_of_string? h)
      · obtain ⟨⟨n, rest'⟩, hn, hr⟩ := Option.map_eq_some_iff.1 h
        simp only [Prod.mk.injEq] at hr
        obtain ⟨-, rfl⟩ := hr
        exact Numeral.length_of_scan? hn

/-- All tokens of a text, behind those read so far. -/
def scan? (read : List Token) (cs : List Char) : Option (List Token) :=
  match cs with
  | [] => some read.reverse
  | c :: cs' =>
    if isSpace c then scan? read cs'
    else match next : next? (c :: cs') with
      | none => none
      | some (t, rest) =>
        have := length_of_next? next
        scan? (t :: read) rest
termination_by cs.length
decreasing_by
  · exact Nat.lt_succ_self cs'.length
  · assumption

end Token

end MarketMaker.Json
