import MarketMaker.Proofs.Decimal.Strict
import MarketMaker.Proofs.Json.Text

/-!
# Tokens read back

A text spells tokens if their texts stand in it one behind the other, with any blanks before, between and
behind them (`Token.Spells`). Such a text is read as these tokens, as long as no number stands right
before another (`Token.scan?_spells`): of two numbers without a blank between them the first would go on.
-/

namespace MarketMaker.Json

namespace Token

/-- A token that has a text: numbers of the strict grammar, and strings that name characters. -/
def IsWritten : Token → Prop
  | .number n => n.IsStrict
  | .string s => s.isSome
  | _ => True

/-- Whether a token is a number. -/
def isNumber : Token → Bool
  | .number _ => true
  | _ => false

variable {t : Token} {ts : List Token} {cs rest : List Char}

/-! ## One token -/

theorem afterWord?_append (word rest : List Char) : afterWord? word (word ++ rest) = some rest := by
  rw [afterWord?, List.take_left, if_pos rfl, List.drop_left]

/-- A numeral begins with a minus sign or a digit. -/
theorem text_numeral_eq {n : Numeral} (h : n.IsStrict) :
    ∃ c cs, n.text = c :: cs ∧ (c = '-' ∨ c.isDigit) := by
  obtain ⟨negative, whole, fraction, exponent⟩ := n
  obtain ⟨c, cs, rfl⟩ := List.exists_cons_of_ne_nil h.nonempty
  cases negative with
  | true => exact ⟨'-', _, rfl, .inl rfl⟩
  | false => exact ⟨c, _, rfl, .inr (h.whole c List.mem_cons_self)⟩

/-- Neither a mark nor a word nor a string begins like a number. -/
theorem no_token_of_number {c : Char} (h : c = '-' ∨ c.isDigit) :
    mark? c = none ∧ word? c = none ∧ c ≠ '"' ∧ isSpace c = false := by
  rcases h with rfl | digit
  · decide
  have other : ∀ {d : Char}, d.isDigit = false → c ≠ d := by
    rintro d no rfl
    exact absurd digit (by simp [no])
  refine ⟨?_, ?_, other rfl, ?_⟩
  · simp [mark?, other]
  · simp [word?, other]
  · simp [isSpace, other]

/-- A token is read from its text, up to where a number would go on. -/
theorem next?_text (written : t.IsWritten) (stop : t.isNumber → Numeral.Ends rest) :
    next? (t.text ++ rest) = some (t, rest) := by
  cases t with
  | openArray | closeArray | openObject | closeObject | comma | colon => rfl
  | null => exact congrArg (Option.map _) (afterWord?_append "ull".toList rest)
  | bool b =>
    cases b with
    | true => exact congrArg (Option.map _) (afterWord?_append "rue".toList rest)
    | false => exact congrArg (Option.map _) (afterWord?_append "alse".toList rest)
  | number n =>
    have scanned := written.scan?_text (stop rfl)
    obtain ⟨c, cs, text, start⟩ := text_numeral_eq written
    obtain ⟨mark, word, quote, -⟩ := no_token_of_number start
    change next? (n.text ++ rest) = _
    rw [text] at scanned ⊢
    rw [List.cons_append] at scanned ⊢
    rw [next?, mark, word]
    simp only
    rw [if_neg quote, scanned]
    rfl
  | string s =>
    obtain ⟨s, rfl⟩ := Option.isSome_iff_exists.1 written
    change string? (s.toList.flatMap escape ++ ['"'] ++ rest) = _
    rw [List.append_assoc]
    exact string?_quote s rest

/-- No text of a token begins with a blank, and only numbers begin with what a number goes on with. -/
theorem text_eq_cons (written : t.IsWritten) :
    ∃ c cs, t.text = c :: cs ∧ isSpace c = false ∧
      (t.isNumber = false → c.isDigit = false ∧ c ≠ '.' ∧ c ≠ 'e' ∧ c ≠ 'E') := by
  cases t with
  | openArray | closeArray | openObject | closeObject | comma | colon | null | string s =>
    exact ⟨_, _, rfl, rfl, fun _ => by decide⟩
  | bool b => cases b <;> exact ⟨_, _, rfl, rfl, fun _ => by decide⟩
  | number n =>
    obtain ⟨c, cs, text, start⟩ := text_numeral_eq written
    exact ⟨c, cs, text, (no_token_of_number start).2.2.2, fun other => absurd other (by simp [isNumber])⟩

/-! ## All tokens -/

/-- A text spells tokens, with any blanks between them. -/
inductive Spells : List Token → List Char → Prop where
  | done {blanks : List Char} (blank : ∀ c ∈ blanks, isSpace c) : Spells [] blanks
  | token {blanks : List Char} {t : Token} {ts : List Token} {cs : List Char}
      (blank : ∀ c ∈ blanks, isSpace c) (rest : Spells ts cs) :
      Spells (t :: ts) (blanks ++ (t.text ++ cs))

/-- Tokens spell themselves without blanks. -/
theorem spells_charsOf (ts : List Token) : Spells ts (charsOf ts) := by
  induction ts with
  | nil => exact .done (List.forall_mem_nil _)
  | cons t ts ih => exact .token (List.forall_mem_nil _) ih

/-- No number stands right before another. -/
def Apart (ts : List Token) : Prop :=
  ts.IsChain fun t u => ¬(t.isNumber ∧ u.isNumber)

/-- Tokens that may stand right behind any other. -/
def Follows (ts : List Token) : Prop :=
  Apart ts ∧ ∀ t ∈ ts.head?, t.isNumber = false

theorem Follows.cons (h : Follows ts) (t : Token) : Apart (t :: ts) :=
  List.isChain_cons.2 ⟨fun u head both => Bool.eq_false_iff.1 (h.2 u head) both.2, h.1⟩

theorem Apart.cons (h : Apart ts) (t : Token) (other : t.isNumber = false) : Follows (t :: ts) := by
  refine ⟨List.isChain_cons.2 ⟨fun u _ both => Bool.eq_false_iff.1 other both.1, h⟩, fun u head => ?_⟩
  obtain rfl := Option.some.inj head
  exact other

theorem scan?_blanks {blanks : List Char} (blank : ∀ c ∈ blanks, isSpace c) (read : List Token)
    (cs : List Char) : scan? read (blanks ++ cs) = scan? read cs := by
  induction blanks with
  | nil => rfl
  | cons c blanks ih =>
    obtain ⟨first, others⟩ := List.forall_mem_cons.1 blank
    rw [List.cons_append, scan?, if_pos first, ih others]

theorem scan?_of_next? {c : Char} (printed : isSpace c = false)
    (next : next? (c :: cs) = some (t, rest)) (read : List Token) :
    scan? read (c :: cs) = scan? (t :: read) rest := by
  rw [scan?, if_neg (by simp [printed])]
  split
  next none => exact absurd (none.symm.trans next) (by simp)
  next t' rest' found =>
    obtain ⟨rfl, rfl⟩ := Prod.mk.inj (Option.some.inj (found.symm.trans next))
    rfl

theorem not_digit_of_isSpace {c : Char} (blank : isSpace c) :
    c.isDigit = false ∧ c ≠ '.' ∧ c ≠ 'e' ∧ c ≠ 'E' := by
  simp only [isSpace, Bool.or_eq_true, beq_iff_eq] at blank
  rcases blank with ((rfl | rfl) | rfl) | rfl <;> decide

/-- What spells tokens of which the first is no number does not go on with a number. -/
theorem Spells.ends (h : Spells ts cs) (written : ∀ t ∈ ts, t.IsWritten)
    (other : ∀ t ∈ ts.head?, t.isNumber = false) : Numeral.Ends cs := by
  cases h with
  | done blank => exact fun c head => not_digit_of_isSpace (blank c (List.mem_of_head? head))
  | @token blanks t ts cs blank rest =>
    cases blanks with
    | cons b bs =>
      intro c head
      obtain rfl := Option.some.inj head
      exact not_digit_of_isSpace (blank _ List.mem_cons_self)
    | nil =>
      obtain ⟨c, cs', text, -, start⟩ := text_eq_cons (written t List.mem_cons_self)
      intro d head
      rw [List.nil_append, text] at head
      obtain rfl := Option.some.inj head
      exact start (other t rfl)

/-- **A text is read as the tokens that it spells.** -/
theorem scan?_spells (h : Spells ts cs) (written : ∀ t ∈ ts, t.IsWritten) (apart : Apart ts)
    (read : List Token) : scan? read cs = some (read.reverse ++ ts) := by
  induction h generalizing read with
  | @done blanks blank =>
    rw [← List.append_nil blanks, scan?_blanks blank, scan?, List.append_nil]
  | @token blanks t ts cs blank rest ih =>
    obtain ⟨first, others⟩ := List.forall_mem_cons.1 written
    have next : next? (t.text ++ cs) = some (t, cs) := by
      refine next?_text first fun number => rest.ends others fun u head => ?_
      have pair := (List.isChain_cons.1 apart).1 u head
      exact Bool.eq_false_iff.2 fun another => pair ⟨number, another⟩
    obtain ⟨c, cs', text, printed, -⟩ := text_eq_cons first
    rw [scan?_blanks blank]
    rw [text, List.cons_append] at next ⊢
    rw [scan?_of_next? printed next, ih others apart.tail, List.reverse_cons, List.append_assoc]
    rfl

end Token

end MarketMaker.Json
