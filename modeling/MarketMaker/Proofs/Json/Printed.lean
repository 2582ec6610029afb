import MarketMaker.Proofs.Json.Document

/-!
# Characters of documents

A document that is written without blanks has no control character in its text, whatever its strings hold,
so it stays on one line (`Json.printed_compact`). The text of an object stands between its braces
(`Json.exists_compact_object`).
-/

namespace MarketMaker.Json

/-- Whether a character is no control character of ASCII. -/
def isPrinted (c : Char) : Bool := 0x20 ≤ c.toNat

theorem isPrinted_of_isDigit {c : Char} (digit : c.isDigit) : isPrinted c := by
  have least := (Bool.and_eq_true_iff.1 digit).1
  have bound : 48 ≤ c.toNat := UInt32.le_iff_toNat_le.1 (of_decide_eq_true least)
  exact decide_eq_true (by omega)

theorem isPrinted_hexDigit (n : Fin 16) : isPrinted (Text.hexDigit n) := by
  decide +revert

theorem printed_escape (c : Char) : (escape c).all isPrinted := by
  unfold escape
  split_ifs with _ _ _ _ _ _ _ control
  any_goals decide
  · have high := isPrinted_hexDigit ⟨c.toNat / 16, by omega⟩
    have low := isPrinted_hexDigit ⟨c.toNat % 16, Nat.mod_lt _ (by decide)⟩
    simp only [List.all_cons, List.all_nil, high, low]
    decide
  · simpa [isPrinted] using control

theorem printed_quote (s : Option String) : (quote s).all isPrinted := by
  have inner : ((s.getD "").toList.flatMap escape).all isPrinted := by
    rw [List.all_flatMap]
    exact List.all_eq_true.2 fun c _ => printed_escape c
  have mark : isPrinted '"' := by decide
  rw [quote, List.cons_append, List.all_cons, List.all_append, inner, List.all_cons, mark]
  rfl

theorem printed_numeral {n : Numeral} (strict : n.IsStrict) : n.text.all isPrinted := by
  have row : ∀ {digits : List Char}, (∀ c ∈ digits, c.isDigit) → digits.all isPrinted :=
    fun digits => List.all_eq_true.2 fun c member => isPrinted_of_isDigit (digits c member)
  have whole := row strict.whole
  have fraction := row strict.fraction
  have sign : (if n.negative then ['-'] else []).all isPrinted := by
    split <;> decide
  have point : (if n.fraction.isEmpty then [] else '.' :: n.fraction).all isPrinted := by
    split
    · rfl
    · rw [List.all_cons, fraction]
      decide
  have power : (n.exponent.elim [] Numeral.Exponent.text).all isPrinted := by
    cases here : n.exponent with
    | none => rfl
    | some e =>
      have digits := row (strict.exponent e here).2
      rw [Option.elim_some, Numeral.Exponent.text, List.all_cons, List.all_cons, digits]
      split <;> decide
  rw [Numeral.text, List.all_append, List.all_append, List.all_append, sign, whole, point, power]
  rfl

theorem Token.printed_text {t : Token} (written : t.IsWritten) : t.text.all isPrinted := by
  cases t with
  | number n => exact printed_numeral written
  | string s => exact printed_quote s
  | bool b => cases b <;> decide
  | _ => decide

/-- **No control character stands in the text of a document.** -/
theorem printed_compact {j : Json} (written : j.IsWritten) : j.compact.toList.all isPrinted := by
  have all : Token.AllWritten (tokens [] j) := allWritten_tokens (List.forall_mem_nil _) written
  rw [compact, String.toList_ofList, charsOf, List.all_flatMap]
  exact List.all_eq_true.2 fun t member => Token.printed_text (all t member)

mutual

theorem suffix_tokens (rest : List Token) : ∀ j : Json, rest <:+ tokens rest j
  | .null => List.suffix_cons ..
  | .bool _ => List.suffix_cons ..
  | .number _ => List.suffix_cons ..
  | .string _ => List.suffix_cons ..
  | .array [] => (List.suffix_cons .closeArray rest).trans (List.suffix_cons ..)
  | .array (item :: items) => by
    have others := (List.suffix_cons .closeArray rest).trans (suffix_itemTokens _ items)
    exact (others.trans (suffix_tokens _ item)).trans (List.suffix_cons ..)
  | .object [] => (List.suffix_cons .closeObject rest).trans (List.suffix_cons ..)
  | .object ((_, value) :: members) => by
    have others := (List.suffix_cons .closeObject rest).trans (suffix_memberTokens _ members)
    exact (others.trans (suffix_tokens _ value)).trans (List.suffix_append [_, _, _] _)

theorem suffix_itemTokens (rest : List Token) : ∀ items : List Json, rest <:+ itemTokens rest items
  | [] => List.suffix_rfl
  | item :: items =>
    ((suffix_itemTokens rest items).trans (suffix_tokens _ item)).trans (List.suffix_cons ..)

theorem suffix_memberTokens (rest : List Token) :
    ∀ members : List (Option String × Json), rest <:+ memberTokens rest members
  | [] => List.suffix_rfl
  | (_, value) :: members =>
    ((suffix_memberTokens rest members).trans (suffix_tokens _ value)).trans
      (List.suffix_append [_, _, _] _)

end

/-- An object's tokens stand between its braces. -/
theorem exists_tokens_object (members : List (Option String × Json)) :
    ∃ inner, tokens [] (.object members) = .openObject :: (inner ++ [.closeObject]) := by
  cases members with
  | nil => exact ⟨[], rfl⟩
  | cons m members =>
    obtain ⟨name, value⟩ := m
    have ending := (suffix_memberTokens [.closeObject] members).trans (suffix_tokens _ value)
    obtain ⟨inner, eq⟩ := ending
    exact ⟨.string name :: .colon :: inner, by rw [tokens, ← eq]; rfl⟩

/-- **An object's text stands between its braces.** -/
theorem exists_compact_object (members : List (Option String × Json)) :
    ∃ inner, (object members).compact.toList = '\x7b' :: (inner ++ ['\x7d']) := by
  obtain ⟨inner, eq⟩ := exists_tokens_object members
  refine ⟨charsOf inner, ?_⟩
  rw [compact, String.toList_ofList, eq, charsOf, List.flatMap_cons, List.flatMap_append]
  rfl

end MarketMaker.Json
