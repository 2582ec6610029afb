import MarketMaker.Json.Record
import MarketMaker.Proofs.Json.Document

/-!
# Records read back

What is written of a word or a string reads back as it (`Json.asWord?_ofWord` and so on). Of a double that
holds only if its digits bring the reader to the same double again (`Json.ReadsBack`), which not all
digits do; a double that is infinite or no number is written as `null`, which no double is read from. Of a
record whose names are distinct, each slot holds what is written under its name (`Json.slots?_record`).
-/

namespace MarketMaker.Json

/-! ## Numbers -/

theorem word?_ofNat {n : UInt64} : word? (.ofNat n.toNat) = some n := by
  change Word.ofNat? (Numeral.natural (Numeral.digitsOf n.toNat)) = some n
  rw [Numeral.natural_digitsOf, Word.ofNat?, if_pos n.toNat_lt]
  exact congrArg some UInt64.ofNat_toNat

theorem signed?_ofInt {n : Int64} : signed? (.ofInt n.toInt) = some n := by
  have back : Word.ofInt? n.toInt = some n := by
    rw [Word.ofInt?, if_pos ⟨n.le_toInt, n.toInt_le⟩, Int64.ofInt_toInt]
  have digits : Numeral.natural (Numeral.ofInt n.toInt).whole = n.toInt.natAbs :=
    Numeral.natural_digitsOf _
  have whole : isWhole (.ofInt n.toInt) = true := rfl
  unfold signed?
  simp only [digits, whole, Bool.not_true, Bool.false_eq_true, if_false]
  rcases lt_or_ge n.toInt 0 with negative | nonneg
  · have sign : (Numeral.ofInt n.toInt).negative = true := decide_eq_true negative
    have value : -(n.toInt.natAbs : ℤ) = n.toInt := by omega
    rw [sign, if_neg (by simp), if_neg (by omega), value, back]
  · have sign : (Numeral.ofInt n.toInt).negative = false := decide_eq_false nonneg.not_gt
    have value : (n.toInt.natAbs : ℤ) = n.toInt := by omega
    rw [sign, if_pos (by simp), value, back]

@[simp] theorem asWord?_ofWord (n : UInt64) : (ofWord n).asWord? = some n := word?_ofNat

@[simp] theorem asSigned?_ofSigned (n : Int64) : (ofSigned n).asSigned? = some n := signed?_ofInt

@[simp] theorem asText?_text (s : String) : (text s).asText? = some s := rfl

/-! ## Documents that have texts -/

@[simp] theorem isWritten_ofWord (n : UInt64) : (ofWord n).IsWritten := .number (Numeral.isStrict_ofNat _)

@[simp] theorem isWritten_ofSigned (n : Int64) : (ofSigned n).IsWritten :=
  .number (Numeral.isStrict_ofInt _)

@[simp] theorem isWritten_ofFloat (x : Float) : (ofFloat x).IsWritten := by
  unfold ofFloat
  split
  · exact .number (numberLayout.isStrict_shortest x)
  · exact .null

/-! ## Doubles -/

/-- The number reader makes of the text of a double the same double. -/
def ReadsBack (x : Float) : Prop :=
  (parse? (ofFloat x).compact).bind asFloat? = some x

theorem readsBack_iff {x : Float} : ReadsBack x ↔ (ofFloat x).asFloat? = some x := by
  rw [ReadsBack, parse?_compact (isWritten_ofFloat x), Option.bind_some]

theorem ReadsBack.asFloat? {x : Float} (h : ReadsBack x) : (ofFloat x).asFloat? = some x :=
  readsBack_iff.1 h

/-- A double that is infinite or no number has no text to be read from. -/
theorem asFloat?_of_not_isFinite {x : Float} (h : x.isFinite = false) :
    (ofFloat x).asFloat? = none := by
  simp [ofFloat, h, Json.asFloat?]

/-- Only finite doubles read back. -/
theorem ReadsBack.isFinite {x : Float} (h : ReadsBack x) : x.isFinite = true := by
  by_contra infinite
  have none := asFloat?_of_not_isFinite (Bool.not_eq_true _ ▸ infinite)
  rw [h.asFloat?] at none
  exact Option.some_ne_none x none

/-- What is read from the text of a document is what the document says. -/
theorem bind_parse?_compact {α : Type} {j : Json} (written : j.IsWritten) (read : Json → Option α) :
    (parse? j.compact).bind read = read j := by
  rw [parse?_compact written, Option.bind_some]

/-! ## Slots -/

theorem named?_record (members : List (String × Json)) :
    named? (members.map fun m => (some m.1, m.2)) = some members := by
  have each := List.mapM_pure (m := Option) (l := members) (f := id)
  rw [List.map_id] at each
  rw [named?, List.mapM_map]
  exact each

/-- Under one of distinct names stands at most one document. -/
theorem member?_of_nodup {members : List (String × Json)} (distinct : (members.map Prod.fst).Nodup)
    (name : String) : member? members name = some (members.lookup name) := by
  induction members with
  | nil => rfl
  | cons m members ih =>
    obtain ⟨first, others⟩ := List.nodup_cons.1 distinct
    have rest := ih others
    by_cases here : m.1 = name
    · subst here
      have none : members.filter (fun m' => m'.1 = m.1) = [] := by
        refine List.filter_eq_nil_iff.2 fun m' member same => first ?_
        exact List.mem_map.2 ⟨m', member, of_decide_eq_true same⟩
      simp [member?, List.lookup, none]
    · have other : (name == m.1) = false := beq_eq_false_iff_ne.2 (Ne.symm here)
      simpa [member?, List.lookup, here, other] using rest

theorem slots?_record_eq (members : List (String × Json)) (names : List String) :
    slots? names (record members) = names.mapM (member? members) := by
  change (named? _).bind _ = _
  rw [named?_record, Option.bind_some]

/-- What is written of a record with distinct names stands under each of its names. -/
theorem slots?_record {members : List (String × Json)} (distinct : (members.map Prod.fst).Nodup)
    (names : List String) :
    slots? names (record members) = some (names.map (members.lookup ·)) := by
  rw [slots?_record_eq, funext (member?_of_nodup distinct)]
  exact List.mapM_pure

theorem optional_some {α : Type} (read : Json → Option α) {j : Json} (h : j ≠ .null) :
    optional read (some j) = (read j).map some := by
  cases j <;> first | rfl | exact absurd rfl h

theorem optional_asWord? (n : Option UInt64) : optional asWord? (n.map ofWord) = some n := by
  cases n with
  | none => rfl
  | some n => rw [Option.map_some, optional_some _ (by simp [ofWord]), asWord?_ofWord, Option.map_some]

/-- A double that may be left out is left out if it is infinite or no number. -/
theorem optional_asFloat? {x : Option Float} (h : ∀ y ∈ x, y.isFinite = true → ReadsBack y) :
    optional Json.asFloat? (x.map ofFloat) = some (x.filter Float.isFinite) := by
  cases x with
  | none => rfl
  | some x =>
    cases finite : x.isFinite with
    | true =>
      rw [Option.map_some, optional_some _ (by simp [ofFloat, finite]), (h x rfl finite).asFloat?]
      simp [Option.filter, finite]
    | false => simp [ofFloat, optional, Option.filter, finite]

end MarketMaker.Json
