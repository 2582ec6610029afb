import MarketMaker.Proofs.Decimal.Strict

/-!
# Spellings of plain numbers

Which texts spell a number, and which number, said by a grammar and not by a reader. A number has many
spellings: with a plus sign or without, with leading zeros, with an exponent, and for what is no finite
number a word in letters of any case. The readers take exactly these texts, and as the number spelled
(`Plain.float?_eq_some_iff`, `Plain.word64?_eq_some_iff`, `Plain.signed64?_eq_some_iff`).
-/

namespace MarketMaker

namespace Numeral

/-! ## The grammar of numerals -/

/-- At least one digit, and nothing but digits. -/
def IsRow (cs : List Char) : Prop :=
  cs ≠ [] ∧ ∀ c ∈ cs, c.isDigit

/-- The spellings of a sign. -/
inductive SignText : Bool → List Char → Prop where
  | none : SignText false []
  | plus : SignText false ['+']
  | minus : SignText true ['-']

/-- The spellings of the digits behind the point. The point may stand in front of none. -/
inductive FractionText : List Char → List Char → Prop where
  | none : FractionText [] []
  | point {digits : List Char} (row : ∀ c ∈ digits, c.isDigit) : FractionText digits ('.' :: digits)

/-- The spellings of an exponent. -/
inductive ExponentText : Option Exponent → List Char → Prop where
  | none : ExponentText none []
  | marked {mark : Char} {negative : Bool} {sign digits : List Char} (letter : mark = 'e' ∨ mark = 'E')
      (signed : SignText negative sign) (row : IsRow digits) :
      ExponentText (some ⟨negative, digits⟩) (mark :: (sign ++ digits))

/-- The spellings of a numeral in the loose grammar. There is a digit on some side of the point. -/
inductive LooseText : Numeral → List Char → Prop where
  | mk {negative : Bool} {sign whole fraction point power : List Char} {exponent : Option Exponent}
      (signed : SignText negative sign) (digits : ∀ c ∈ whole, c.isDigit)
      (pointed : FractionText fraction point) (some : whole ≠ [] ∨ fraction ≠ [])
      (powered : ExponentText exponent power) :
      LooseText ⟨negative, whole, fraction, exponent⟩ (sign ++ (whole ++ (point ++ power)))

variable {cs rest sign digits fraction point power : List Char} {negative : Bool}
  {exponent : Option Exponent} {n : Numeral}

/-! ## What the readers of the parts take -/

/-- A sign is taken off the front. -/
theorem exists_signText (h : Numeral.sign cs = (negative, rest)) :
    ∃ sign, SignText negative sign ∧ cs = sign ++ rest := by
  unfold Numeral.sign at h
  split at h
  all_goals obtain ⟨rfl, rfl⟩ := Prod.mk.inj h
  · exact ⟨_, .minus, rfl⟩
  · exact ⟨_, .plus, rfl⟩
  · exact ⟨_, .none, rfl⟩

/-- The sign is taken, if what follows has none of its own. -/
theorem SignText.sign_append (h : SignText negative sign)
    (unsigned : ∀ c ∈ rest.head?, c ≠ '-' ∧ c ≠ '+') :
    Numeral.sign (sign ++ rest) = (negative, rest) := by
  cases h with
  | minus => rfl
  | plus => rfl
  | none =>
    rw [List.nil_append]
    unfold Numeral.sign
    split
    next => exact absurd rfl (unsigned '-' rfl).1
    next => exact absurd rfl (unsigned '+' rfl).2
    next => rfl

theorem eq_append_of_digitRun (h : digitRun cs = (digits, rest)) :
    (∀ c ∈ digits, c.isDigit) ∧ cs = digits ++ rest := by
  obtain ⟨rfl, rfl⟩ := Prod.mk.inj h
  exact ⟨fun _ member => List.mem_takeWhile_imp member, List.takeWhile_append_dropWhile.symm⟩

theorem isRow_of_someDigits? (h : someDigits? cs = some (digits, rest)) :
    IsRow digits ∧ cs = digits ++ rest := by
  unfold someDigits? at h
  split at h
  next => exact absurd h (by simp)
  next other =>
    have same := Option.some.inj h
    obtain ⟨row, whole⟩ := eq_append_of_digitRun same
    exact ⟨⟨fun none => other rest (none ▸ same), row⟩, whole⟩

theorem exists_fractionText (h : looseFraction cs = (fraction, rest)) :
    ∃ point, FractionText fraction point ∧ cs = point ++ rest := by
  unfold looseFraction at h
  split at h
  next cs =>
    obtain ⟨row, whole⟩ := eq_append_of_digitRun h
    exact ⟨_, .point row, congrArg ('.' :: ·) whole⟩
  next =>
    obtain ⟨rfl, rfl⟩ := Prod.mk.inj h
    exact ⟨_, .none, rfl⟩

theorem exponentText_of_exponentPart? (h : exponentPart? cs = some (exponent, [])) :
    ExponentText exponent cs := by
  have marked {mark : Char} {cs : List Char} (letter : mark = 'e' ∨ mark = 'E')
      (h : ((someDigits? (Numeral.sign cs).2).map fun read =>
        (some (⟨(Numeral.sign cs).1, read.1⟩ : Exponent), read.2)) = some (exponent, [])) :
      ExponentText exponent (mark :: cs) := by
    rcases taken : Numeral.sign cs with ⟨negative, unsigned⟩
    rw [taken] at h
    obtain ⟨⟨digits, rest⟩, read, same⟩ := Option.map_eq_some_iff.1 h
    obtain ⟨rfl, rfl⟩ := Prod.mk.inj same
    obtain ⟨row, rfl⟩ := isRow_of_someDigits? read
    obtain ⟨sign, signed, rfl⟩ := exists_signText taken
    rw [List.append_nil]
    exact .marked letter signed row
  unfold exponentPart? at h
  split at h
  · exact marked (.inl rfl) h
  · exact marked (.inr rfl) h
  · obtain ⟨rfl, rfl⟩ := Prod.mk.inj (Option.some.inj h)
    exact .none

/-! ## What the parts are taken for -/

theorem isDigit_ne {c : Char} (digit : c.isDigit) : c ≠ '-' ∧ c ≠ '+' := by
  constructor
  · rintro rfl
    exact absurd digit (by decide)
  · rintro rfl
    exact absurd digit (by decide)

theorem IsRow.unsigned (h : IsRow digits) : ∀ c ∈ digits.head?, c ≠ '-' ∧ c ≠ '+' := by
  intro c head
  have digit := h.2 c (List.mem_of_head? head)
  exact isDigit_ne digit

theorem ExponentText.exponentPart?_eq (h : ExponentText exponent power) :
    exponentPart? power = some (exponent, []) := by
  cases h with
  | none => rfl
  | @marked mark negative sign digits letter signed row =>
    have unsigned := signed.sign_append row.unsigned
    have read : someDigits? (digits ++ []) = some (digits, []) :=
      someDigits?_append row.1 row.2 (by simp)
    rw [List.append_nil] at read
    rcases letter with rfl | rfl <;>
    · rw [exponentPart?, unsigned]
      simp only [read, Option.map_some]

theorem ExponentText.head? (h : ExponentText exponent power) :
    ∀ c ∈ power.head?, c.isDigit = false ∧ c ≠ '.' := by
  cases h with
  | none => simp
  | marked letter =>
    intro c head
    obtain rfl := Option.some.inj head
    rcases letter with rfl | rfl <;> decide

theorem FractionText.looseFraction_append (h : FractionText fraction point)
    (stop : ∀ c ∈ rest.head?, c.isDigit = false ∧ c ≠ '.') :
    looseFraction (point ++ rest) = (fraction, rest) := by
  cases h with
  | none =>
    rw [List.nil_append]
    unfold looseFraction
    split
    next => exact absurd rfl (stop '.' rfl).2
    next => rfl
  | point row =>
    exact digitRun_append row (takeWhile_of_head? fun c head => (stop c head).1)

theorem FractionText.head?_append (h : FractionText fraction point)
    (stop : ∀ c ∈ rest.head?, c.isDigit = false) : ∀ c ∈ (point ++ rest).head?, c.isDigit = false := by
  cases h with
  | none => exact stop
  | point =>
    intro c head
    obtain rfl := Option.some.inj head
    decide

/-- Behind its sign a numeral starts with a digit or a point. -/
theorem head?_digits_point (all : ∀ c ∈ digits, c.isDigit) (pointed : FractionText fraction point)
    (some : digits ≠ [] ∨ fraction ≠ []) (rest : List Char) :
    ∃ c cs, digits ++ (point ++ rest) = c :: cs ∧ (c.isDigit ∨ c = '.') := by
  cases digits with
  | cons c cs => exact ⟨c, _, rfl, .inl (all c List.mem_cons_self)⟩
  | nil =>
    cases pointed with
    | none => exact absurd rfl (some.resolve_left (· rfl))
    | point => exact ⟨'.', _, rfl, .inr rfl⟩

theorem sign_append_body (signed : SignText negative sign) (all : ∀ c ∈ digits, c.isDigit)
    (pointed : FractionText fraction point) (some : digits ≠ [] ∨ fraction ≠ [])
    (rest : List Char) :
    Numeral.sign (sign ++ (digits ++ (point ++ rest))) = (negative, digits ++ (point ++ rest)) := by
  obtain ⟨c, cs, body, start⟩ := head?_digits_point all pointed some rest
  apply signed.sign_append
  rw [body]
  intro d head
  obtain rfl := Option.some.inj head
  rcases start with digit | rfl
  · exact isDigit_ne digit
  · decide

/-- **The loose grammar is read exactly**: its texts and no others, each as the numeral spelled. -/
theorem ofLooseText?_eq_some_iff : ofLooseText? cs = some n ↔ LooseText n cs := by
  constructor
  · intro read
    unfold ofLooseText? at read
    rcases taken : Numeral.sign cs with ⟨negative, unsigned⟩
    rcases run : digitRun unsigned with ⟨whole, behind⟩
    rcases left : looseFraction behind with ⟨fraction, rest⟩
    simp only [taken, run, left] at read
    split at read
    next => exact absurd read (by simp)
    next some =>
      split at read
      next exponent powered =>
        obtain rfl := Option.some.inj read
        obtain ⟨sign, signed, rfl⟩ := exists_signText taken
        obtain ⟨row, rfl⟩ := eq_append_of_digitRun run
        obtain ⟨point, pointed, rfl⟩ := exists_fractionText left
        refine .mk signed row pointed ?_ (exponentText_of_exponentPart? powered)
        simpa [or_iff_not_imp_left] using some
      next => exact absurd read (by simp)
  · rintro ⟨signed, digits, pointed, some, powered⟩
    rename_i negative sign whole fraction point power exponent
    have afterWhole := takeWhile_of_head?
      (pointed.head?_append fun c head => (powered.head? c head).1)
    have there : (whole.isEmpty && fraction.isEmpty) = false := by
      simpa [or_iff_not_imp_left] using some
    unfold ofLooseText?
    rw [sign_append_body signed digits pointed some]
    simp only [digitRun_append digits afterWhole, pointed.looseFraction_append powered.head?, there,
      powered.exponentPart?_eq, Bool.false_eq_true, if_false]

end Numeral

namespace Word

theorem ofNat?_eq_some_iff {m : ℕ} {n : UInt64} : ofNat? m = some n ↔ m = n.toNat := by
  unfold ofNat?
  constructor
  · intro read
    split at read
    next fits =>
      obtain rfl := Option.some.inj read
      exact (UInt64.toNat_ofNat_of_lt' fits).symm
    next => exact absurd read (by simp)
  · rintro rfl
    rw [if_pos n.toNat_lt, Nat.toUInt64_eq, UInt64.ofNat_toNat]

theorem ofInt?_eq_some_iff {m : ℤ} {n : Int64} : ofInt? m = some n ↔ m = n.toInt := by
  unfold ofInt?
  constructor
  · intro read
    split at read
    next fits =>
      obtain rfl := Option.some.inj read
      exact (Int64.toInt_ofInt_of_le fits.1 (Int.lt_of_le_sub_one fits.2)).symm
    next => exact absurd read (by simp)
  · rintro rfl
    rw [if_pos ⟨n.le_toInt, n.toInt_le⟩, Int64.ofInt_toInt]

end Word

namespace Plain

open Numeral

/-! ## The grammars of plain numbers -/

/-- The spellings of a double: a numeral, or a word for what is no finite number, in letters of any
case and with a sign or without. -/
inductive FloatText : Float → List Char → Prop where
  | number {n : Numeral} {cs : List Char} (spelled : LooseText n cs) : FloatText n.toFloat cs
  | infinity {negative : Bool} {sign word : List Char} (signed : SignText negative sign)
      (either : word.map Char.toLower ∈ ["inf".toList, "infinity".toList]) :
      FloatText (Numeral.signed negative (1.0 / 0.0)) (sign ++ word)
  | notANumber {negative : Bool} {sign word : List Char} (signed : SignText negative sign)
      (same : word.map Char.toLower = "nan".toList) :
      FloatText (Numeral.signed negative (0.0 / 0.0)) (sign ++ word)

/-- The spellings of an unsigned word: digits behind a plus sign or none. -/
def WordText (n : UInt64) (cs : List Char) : Prop :=
  ∃ sign digits, SignText false sign ∧ IsRow digits ∧ cs = sign ++ digits ∧
    natural digits = n.toNat

/-- The spellings of a signed word: digits behind a sign or none. -/
def SignedText (n : Int64) (cs : List Char) : Prop :=
  ∃ negative sign digits, SignText negative sign ∧ IsRow digits ∧ cs = sign ++ digits ∧
    (if negative then -(natural digits : ℤ) else natural digits) = n.toInt

variable {s : String} {x : Float} {cs : List Char}

/-! ## Doubles -/

/-- No word is two words. -/
theorem word?_eq_some_iff : word? cs = some x ↔
    cs ∈ ["inf".toList, "infinity".toList] ∧ x = 1.0 / 0.0 ∨ cs = "nan".toList ∧ x = 0.0 / 0.0 := by
  have distinct : "nan".toList ∉ ["inf".toList, "infinity".toList] := by decide
  have infinite : (cs = "inf".toList ∨ cs = "infinity".toList) ↔
      cs ∈ ["inf".toList, "infinity".toList] := by simp
  unfold word?
  simp only [infinite]
  split
  next word =>
    have other : cs ≠ "nan".toList := fun same => distinct (same ▸ word)
    simp only [word, other, true_and, false_and, or_false, Option.some.injEq, eq_comm (a := x)]
  next no =>
    split
    next word =>
      subst word
      simp only [no, true_and, false_and, false_or, Option.some.injEq, eq_comm (a := x)]
    next other => simp only [no, other, false_and, or_self, reduceCtorEq]

/-- A word is told from a numeral, and from a sign, by how it begins. -/
theorem word?_of_start {c : Char} (start : c.isDigit ∨ c = '.' ∨ c = '-' ∨ c = '+') (cs : List Char) :
    word? ((c :: cs).map Char.toLower) = none := by
  rcases start with digit | rfl | rfl | rfl
  · exact word?_of_isDigit digit cs
  all_goals simp [word?]

theorem sign_append_word {negative : Bool} {sign word : List Char} (signed : SignText negative sign)
    (read : word? (word.map Char.toLower) = some x) :
    Numeral.sign (sign ++ word) = (negative, word) := by
  apply signed.sign_append
  intro c head
  obtain ⟨cs, rfl⟩ : ∃ cs, word = c :: cs := List.head?_eq_some_iff.1 head
  constructor
  · rintro rfl
    exact absurd read (by rw [word?_of_start (by decide)]; simp)
  · rintro rfl
    exact absurd read (by rw [word?_of_start (by decide)]; simp)

/-- **Doubles are read exactly** from their spellings. -/
theorem float?_eq_some_iff : float? s = some x ↔ FloatText x s.toList := by
  unfold float?
  generalize s.toList = cs
  constructor
  · intro read
    rcases taken : Numeral.sign cs with ⟨negative, word⟩
    simp only [taken] at read
    split at read
    next y spelled =>
      obtain rfl := Option.some.inj read
      obtain ⟨sign, signed, rfl⟩ := exists_signText taken
      rcases word?_eq_some_iff.1 spelled with ⟨either, rfl⟩ | ⟨same, rfl⟩
      · exact .infinity signed either
      · exact .notANumber signed same
    next =>
      obtain ⟨n, spelled, rfl⟩ := Option.map_eq_some_iff.1 read
      exact .number (ofLooseText?_eq_some_iff.1 spelled)
  · rintro (⟨spelled⟩ | ⟨signed, either⟩ | ⟨signed, same⟩)
    · have read := ofLooseText?_eq_some_iff.2 spelled
      obtain ⟨signed, digits, pointed, some, powered⟩ := spelled
      rename_i point power exponent
      obtain ⟨c, cs, body, start⟩ := head?_digits_point digits pointed some power
      have unsigned := sign_append_body signed digits pointed some power
      rw [body] at unsigned read
      simp only [unsigned, body, word?_of_start (start.imp_right .inl) cs]
      rw [read]
      rfl
    · have read := word?_eq_some_iff.2 (.inl ⟨either, rfl⟩)
      simp only [sign_append_word signed read, read]
    · have read := word?_eq_some_iff.2 (.inr ⟨same, rfl⟩)
      simp only [sign_append_word signed read, read]

/-! ## Words -/

theorem natural?_eq_some_iff {n : ℕ} : natural? cs = some n ↔ IsRow cs ∧ natural cs = n := by
  have fails : (cs.isEmpty || !cs.all Char.isDigit) = true ↔ ¬IsRow cs := by
    simp [IsRow, or_iff_not_imp_left]
  unfold natural?
  split
  next no => simp only [fails.1 no, false_and, reduceCtorEq]
  next digits => simp only [not_not.1 (mt fails.2 digits), true_and, Option.some.injEq]

/-- **Unsigned words are read exactly** from their spellings. -/
theorem word64?_eq_some_iff {n : UInt64} : word64? s = some n ↔ WordText n s.toList := by
  have spelled (digits : List Char) :
      (natural? digits).bind Word.ofNat? = some n ↔ IsRow digits ∧ natural digits = n.toNat := by
    simp [Option.bind_eq_some_iff, natural?_eq_some_iff, Word.ofNat?_eq_some_iff, and_assoc]
  unfold word64?
  generalize s.toList = cs
  constructor
  · intro read
    split at read
    next digits =>
      obtain ⟨row, value⟩ := (spelled digits).1 read
      exact ⟨_, digits, .plus, row, rfl, value⟩
    next =>
      obtain ⟨row, value⟩ := (spelled cs).1 read
      exact ⟨_, cs, .none, row, rfl, value⟩
  · rintro ⟨sign, digits, signed, row, rfl, value⟩
    cases signed with
    | plus => exact (spelled digits).2 ⟨row, value⟩
    | none =>
      rw [List.nil_append]
      split
      next => exact absurd rfl (row.unsigned '+' rfl).2
      next => exact (spelled digits).2 ⟨row, value⟩

/-- **Signed words are read exactly** from their spellings. -/
theorem signed64?_eq_some_iff {n : Int64} : signed64? s = some n ↔ SignedText n s.toList := by
  unfold signed64?
  generalize s.toList = cs
  constructor
  · intro read
    rcases taken : Numeral.sign cs with ⟨negative, digits⟩
    simp only [taken] at read
    obtain ⟨m, natural, value⟩ := Option.bind_eq_some_iff.1 read
    obtain ⟨row, rfl⟩ := natural?_eq_some_iff.1 natural
    obtain ⟨sign, signed, rfl⟩ := exists_signText taken
    exact ⟨negative, sign, digits, signed, row, rfl, Word.ofInt?_eq_some_iff.1 value⟩
  · rintro ⟨negative, sign, digits, signed, row, rfl, value⟩
    rw [signed.sign_append row.unsigned]
    simp only [natural?_eq_some_iff.2 ⟨row, rfl⟩, Option.bind_some]
    exact Word.ofInt?_eq_some_iff.2 value

end Plain

end MarketMaker
