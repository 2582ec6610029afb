import MarketMaker.Performance.Metrics
import MarketMaker.Proofs.Double.Monotone

/-!
# The worst decline

The worst decline of a cumulative profit is found in one scan, which keeps the highest profit so far
and the worst decline below it. It is the largest of all falls (`Falls`), from zero or from any value
to the same or a later one: the highest value falls furthest, also after rounding
(`maxDrawdown_worst`).
-/

namespace MarketMaker

open Double

namespace Performance

/-! ## Falls -/

/-- A fall of a profit that starts flat: from zero, or from a value, to that value or a later one. -/
def Falls (cs : List Float) (d : Float) : Prop :=
  ∃ (j : Nat) (c p : Float), cs[j]? = some c ∧ p ∈ 0.0 :: cs.take (j + 1) ∧ d = p - c

variable {cs more : List Float} {c d peak worst : Float}

theorem not_falls_nil : ¬Falls [] d := by
  rintro ⟨j, c, p, there, _⟩
  simp at there

theorem Falls.append (h : Falls cs d) (more : List Float) : Falls (cs ++ more) d := by
  obtain ⟨j, c, p, there, before, fall⟩ := h
  obtain ⟨within, _⟩ := List.getElem?_eq_some_iff.1 there
  refine ⟨j, c, p, ?_, ?_, fall⟩
  · rwa [List.getElem?_append_left within]
  · rwa [List.take_append_of_le_length within]

/-- With one value more come the falls to that value. -/
theorem falls_concat :
    Falls (cs ++ [c]) d ↔ Falls cs d ∨ ∃ p ∈ 0.0 :: (cs ++ [c]), d = p - c := by
  constructor
  · rintro ⟨j, x, p, there, before, fall⟩
    by_cases within : j < cs.length
    · rw [List.getElem?_append_left within] at there
      rw [List.take_append_of_le_length within] at before
      exact .inl ⟨j, x, p, there, before, fall⟩
    · -- The value is the last one, and all others are before it.
      obtain ⟨bound, last⟩ := List.getElem?_eq_some_iff.1 there
      rw [List.length_append, List.length_singleton] at bound
      obtain rfl : j = cs.length := by omega
      rw [List.getElem_concat_length rfl] at last
      rw [List.take_of_length_le (by simp)] at before
      exact .inr ⟨p, before, last ▸ fall⟩
  · rintro (earlier | ⟨p, before, fall⟩)
    · exact earlier.append [c]
    · refine ⟨cs.length, c, p, by simp, ?_, fall⟩
      rwa [List.take_of_length_le (by simp)]

/-! ## The scan -/

/-- What a scan keeps of the values it has seen: the highest, and the furthest fall. -/
structure Scanned (cs : List Float) (peak worst : Float) : Prop where
  reached : peak ∈ 0.0 :: cs
  highest : ∀ p ∈ 0.0 :: cs, p ≤ peak
  fallen : worst = 0.0 ∨ (0.0 < worst ∧ Falls cs worst)
  furthest : ∀ d, Falls cs d → d ≤ worst

theorem scanned_nil : Scanned [] 0.0 0.0 where
  reached := List.mem_cons_self
  highest := by
    intro p member
    rw [List.mem_singleton.1 member]
    decide +kernel
  fallen := .inl rfl
  furthest _ fall := absurd fall not_falls_nil

theorem Scanned.zero_le (h : Scanned cs peak worst) : 0.0 ≤ worst := by
  rcases h.fallen with zero | ⟨positive, _⟩
  · rw [zero]
    decide +kernel
  · exact le_of_less positive

theorem Scanned.isNaN (h : Scanned cs peak worst) : worst.isNaN = false :=
  (numbers_of_le h.zero_le).2

theorem isFinite_of_mem_flat (finite : ∀ x ∈ cs, x.isFinite = true) {p : Float}
    (member : p ∈ 0.0 :: cs) : p.isFinite = true := by
  rcases List.mem_cons.1 member with rfl | later
  · decide +kernel
  · exact finite p later

/-- The decline from the peak to the next value: zero where the value is a new peak, else a fall. -/
theorem Scanned.decline (h : Scanned cs peak worst) (finite : ∀ x ∈ cs, x.isFinite = true)
    (hc : c.isFinite = true) :
    larger peak c ∈ 0.0 :: (cs ++ [c]) ∧ (larger peak c - c = 0.0 ∨
      (0.0 < larger peak c - c ∧ Falls (cs ++ [c]) (larger peak c - c))) := by
  rcases larger_cases peak (isNaN_of_isFinite hc) with ⟨below, old⟩ | ⟨_, new⟩
  · have member : peak ∈ 0.0 :: (cs ++ [c]) := List.mem_append_left [c] h.reached
    have positive := difference_pos (isFinite_of_mem_flat finite h.reached) hc below
    rw [old]
    exact ⟨member, .inr ⟨positive, falls_concat.2 (.inr ⟨peak, member, rfl⟩)⟩⟩
  · rw [new]
    exact ⟨by simp, .inl (difference_self hc)⟩

/-- One value more. -/
theorem Scanned.concat (h : Scanned cs peak worst) (finite : ∀ x ∈ cs, x.isFinite = true)
    (hc : c.isFinite = true) :
    Scanned (cs ++ [c]) (larger peak c) (larger worst (larger peak c - c)) := by
  have numberc := isNaN_of_isFinite hc
  have numberPeak := isNaN_of_isFinite (isFinite_of_mem_flat finite h.reached)
  have all : ∀ x ∈ cs ++ [c], x.isFinite = true :=
    List.forall_mem_append.2 ⟨finite, List.forall_mem_singleton.2 hc⟩
  have highest : ∀ p ∈ 0.0 :: (cs ++ [c]), p ≤ larger peak c := by
    intro p member
    rw [← List.cons_append] at member
    rcases List.mem_append.1 member with old | new
    · exact le_trans (h.highest p old) (picks_larger.left peak c numberPeak numberc)
    · rw [List.mem_singleton.1 new]
      exact picks_larger.right peak c numberPeak numberc
  obtain ⟨member, fall⟩ := h.decline finite hc
  have finiteTop := isFinite_of_mem_flat all member
  have numberFall := isNaN_difference finiteTop hc
  refine ⟨member, highest, ?_, ?_⟩
  · rcases picks_larger.one worst _ numberFall with kept | replaced
    · rw [kept]
      exact h.fallen.imp_right fun ⟨positive, earlier⟩ => ⟨positive, earlier.append [c]⟩
    · rwa [replaced]
  · intro d further
    rcases falls_concat.1 further with earlier | ⟨p, before, rfl⟩
    · exact le_trans (h.furthest d earlier) (picks_larger.left worst _ h.isNaN numberFall)
    · -- Rounding is monotone, so no earlier value falls further than the highest.
      have least := difference_le_difference (isFinite_of_mem_flat all before) finiteTop hc hc
        (highest p before) (le_self numberc)
      exact le_trans least (picks_larger.right worst _ h.isNaN numberFall)

/-- What is found is found of all values, those before the scan and those in it. -/
theorem Scanned.drawdownFrom (h : Scanned cs peak worst) (finite : ∀ x ∈ cs, x.isFinite = true)
    (finite' : ∀ x ∈ more, x.isFinite = true) :
    ∃ top, Scanned (cs ++ more) top (drawdownFrom peak worst more) := by
  induction more generalizing cs peak worst with
  | nil =>
    rw [List.append_nil]
    exact ⟨peak, h⟩
  | cons x xs ih =>
    obtain ⟨hx, rest⟩ := List.forall_mem_cons.1 finite'
    have seen : ∀ y ∈ cs ++ [x], y.isFinite = true :=
      List.forall_mem_append.2 ⟨finite, List.forall_mem_singleton.2 hx⟩
    have found := ih (h.concat finite hx) seen rest
    rwa [List.append_assoc, List.singleton_append] at found

theorem exists_scanned {history : List PnlPoint}
    (finite : ∀ p ∈ history, p.cumulative.isFinite = true) :
    ∃ top, Scanned (history.map PnlPoint.cumulative) top (maxDrawdown history) :=
  scanned_nil.drawdownFrom (fun _ member => absurd member List.not_mem_nil)
    (List.forall_mem_map.2 finite)

/-- A fall to a value that is no lower is none. -/
theorem fall_nonpos_iff (finite : ∀ x ∈ cs, x.isFinite = true) {j : Nat} {p : Float}
    (there : cs[j]? = some c) (before : p ∈ 0.0 :: cs.take (j + 1)) : p - c ≤ 0.0 ↔ p ≤ c := by
  have reached : p ∈ 0.0 :: cs := List.cons_subset_cons _ (List.take_subset _ _) before
  exact difference_nonpos_iff (isFinite_of_mem_flat finite reached)
    (finite c (List.mem_of_getElem? there))

/-- Nothing falls exactly where no value is below zero or below an earlier value. -/
theorem Scanned.eq_zero_iff (h : Scanned cs peak worst) (finite : ∀ x ∈ cs, x.isFinite = true) :
    worst = 0.0 ↔
      ∀ (j : Nat) (c : Float), cs[j]? = some c → ∀ p ∈ 0.0 :: cs.take (j + 1), p ≤ c := by
  constructor
  · intro zero j c there p before
    have fall := h.furthest _ ⟨j, c, p, there, before, rfl⟩
    rw [zero] at fall
    exact (fall_nonpos_iff finite there before).1 fall
  · intro level
    rcases h.fallen with zero | ⟨positive, j, c, p, there, before, rfl⟩
    · exact zero
    · have none := (fall_nonpos_iff finite there before).2 (level j c there p before)
      exact absurd positive (not_lt_of_le none)

/-- **The worst decline is the worst over all pairs.** Of a history of finite profits, which starts
flat, it is zero or one of the falls, and no fall goes further. So it is never negative, it is zero
exactly where no value is below zero or below an earlier value, and it does not shrink when the
history goes on. -/
theorem maxDrawdown_worst {history : List PnlPoint}
    (finite : ∀ p ∈ history, p.cumulative.isFinite = true) :
    let cs := history.map PnlPoint.cumulative
    (maxDrawdown history = 0.0 ∨ Falls cs (maxDrawdown history)) ∧
    (∀ d, Falls cs d → d ≤ maxDrawdown history) ∧
    0.0 ≤ maxDrawdown history ∧
    (maxDrawdown history = 0.0 ↔
      ∀ (j : Nat) (c : Float), cs[j]? = some c → ∀ p ∈ 0.0 :: cs.take (j + 1), p ≤ c) ∧
    ∀ more : List PnlPoint, (∀ p ∈ more, p.cumulative.isFinite = true) →
      maxDrawdown history ≤ maxDrawdown (history ++ more) := by
  intro cs
  obtain ⟨top, scanned⟩ := exists_scanned finite
  refine ⟨scanned.fallen.imp_right And.right, scanned.furthest, scanned.zero_le,
    scanned.eq_zero_iff (List.forall_mem_map.2 finite), ?_⟩
  intro more finite'
  obtain ⟨_, longer⟩ := exists_scanned (List.forall_mem_append.2 ⟨finite, finite'⟩)
  rw [List.map_append] at longer
  rcases scanned.fallen with zero | ⟨_, fall⟩
  · rw [zero]
    exact longer.zero_le
  · exact longer.furthest _ (fall.append _)

end Performance

/-- A rise to fifty, a fall by seventy and a rise again. -/
def Sample.swinging : List PnlPoint :=
  [⟨1, 50.0⟩, ⟨2, -20.0⟩, ⟨3, 30.0⟩]

namespace Performance

/-- The fall by seventy is the worst, and going on does not undo it. -/
theorem maxDrawdown_worst_sample :
    (∀ p ∈ Sample.swinging, p.cumulative.isFinite = true) ∧ maxDrawdown Sample.swinging = 70.0 ∧
      Falls (Sample.swinging.map PnlPoint.cumulative) (maxDrawdown Sample.swinging) ∧
      maxDrawdown Sample.swinging ≤ maxDrawdown (Sample.swinging ++ [⟨4, 60.0⟩]) := by
  have finite : ∀ p ∈ Sample.swinging, p.cumulative.isFinite = true := by decide +kernel
  have worst : maxDrawdown Sample.swinging = 70.0 := by decide +kernel
  obtain ⟨attained, _, _, _, grows⟩ := maxDrawdown_worst finite
  have some : maxDrawdown Sample.swinging ≠ 0.0 := by
    rw [worst]
    decide +kernel
  exact ⟨finite, worst, attained.resolve_left some, grows [⟨4, 60.0⟩] (by decide +kernel)⟩

end Performance

end MarketMaker
