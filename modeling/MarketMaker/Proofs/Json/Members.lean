import Mathlib.Data.List.Forall2
import MarketMaker.Proofs.Json.Record

/-!
# Members of objects

What stands under a name of an object: one document (`Json.Gives`), none (`Json.Omits`) or more than one
(`Json.Repeats`). Only the first two have a slot, whatever the order of the members and whatever other
names there are, and a slot holds whatever document stands under its name.
-/

namespace MarketMaker

namespace Json

variable {α : Type} {members : List (String × Json)} {name : String}

/-- One document stands under a name, and it says something. -/
def Gives (members : List (String × Json)) (name : String) (means : Json → Prop) : Prop :=
  ∃ j, members.filter (·.1 = name) = [(name, j)] ∧ means j

/-- Nothing stands under a name. -/
def Omits (members : List (String × Json)) (name : String) : Prop :=
  members.filter (·.1 = name) = []

/-- More than one document stands under a name. -/
def Repeats (members : List (String × Json)) (name : String) : Prop :=
  2 ≤ (members.filter (·.1 = name)).length

/-- One document stands under a name, and it says a value, or the value is the default and nothing stands
there. -/
def GivesOr (members : List (String × Json)) (name : String) (means : Json → α → Prop)
    (standard value : α) : Prop :=
  Gives members name (means · value) ∨ Omits members name ∧ value = standard

theorem Gives.member? {means : Json → Prop} (h : Gives members name means) :
    ∃ j, Json.member? members name = some (some j) ∧ (name, j) ∈ members ∧ means j := by
  obtain ⟨j, only, means⟩ := h
  have member : (name, j) ∈ members.filter (·.1 = name) := only ▸ List.mem_singleton_self _
  exact ⟨j, by rw [Json.member?, only], (List.mem_filter.1 member).1, means⟩

theorem Omits.member? (h : Omits members name) : Json.member? members name = some none := by
  rw [Json.member?, h]

theorem Repeats.member? (h : Repeats members name) : Json.member? members name = none := by
  unfold Json.member?
  unfold Repeats at h
  split <;> simp_all

/-- Whoever finds what stands under a name finds every document that does. -/
theorem member?_of_mem {j : Json} {slot : Option Json} (member : (name, j) ∈ members)
    (h : Json.member? members name = some slot) : slot = some j := by
  have there : (name, j) ∈ members.filter (·.1 = name) :=
    List.mem_filter.2 ⟨member, decide_eq_true rfl⟩
  unfold Json.member? at h
  split at h
  next none => simp [none] at there
  next m only =>
    rw [only, List.mem_singleton] at there
    rw [← Option.some.inj h, ← there]
  next => exact absurd h (by simp)

theorem not_repeats_of_member? {slot : Option Json} (h : Json.member? members name = some slot) :
    ¬Repeats members name := fun repeats =>
  absurd (repeats.member?.symm.trans h) (Option.some_ne_none _).symm

theorem not_omits_of_member? {j : Json} (h : Json.member? members name = some (some j)) :
    ¬Omits members name := fun omitted =>
  absurd (Option.some.inj (omitted.member?.symm.trans h)) (Option.some_ne_none _).symm

/-- If all items are read, each is. -/
theorem forall₂_of_mapM {β : Type} {read : β → Option α} {items : List β} {as : List α}
    (h : items.mapM read = some as) : List.Forall₂ (fun j a => read j = some a) items as := by
  induction items generalizing as with
  | nil =>
    obtain rfl := Option.some.inj h
    exact .nil
  | cons first items ih =>
    simp only [List.mapM_cons, Option.bind_eq_bind, Option.bind_eq_some_iff] at h
    obtain ⟨a, read, as, rest, same⟩ := h
    obtain rfl := Option.some.inj same
    exact .cons read (ih rest)

theorem exists_of_mapM {β : Type} {read : β → Option α} {items : List β} {as : List α}
    (h : items.mapM read = some as) : ∀ j ∈ items, ∃ a, read j = some a := by
  have all := forall₂_of_mapM h
  clear h
  induction all with
  | nil => exact fun j member => absurd member List.not_mem_nil
  | cons first _ ih => exact List.forall_mem_cons.2 ⟨⟨_, first⟩, ih⟩

/-- If all slots are found, none of the names is repeated. -/
theorem not_repeats_of_slots? {names : List String} {slots : List (Option Json)}
    (h : slots? names (record members) = some slots) : ∀ name ∈ names, ¬Repeats members name := by
  intro name member
  obtain ⟨slot, found⟩ := exists_of_mapM (slots?_record_eq members names ▸ h) name member
  exact not_repeats_of_member? found

theorem GivesOr.slot {means : Json → α → Prop} {standard value : α}
    (h : GivesOr members name means standard value) (read : Json → Option α)
    (reads : ∀ j, (name, j) ∈ members → means j value → read j = some value) :
    ∃ slot, Json.member? members name = some slot ∧ withDefault standard read slot = some value := by
  rcases h with given | ⟨omitted, rfl⟩
  · obtain ⟨j, slot, member, means⟩ := given.member?
    exact ⟨some j, slot, reads j member means⟩
  · exact ⟨none, omitted.member?, rfl⟩

theorem exists_of_required {read : Json → Option α} {slot : Option Json} {a : α}
    (h : required read slot = some a) : ∃ j, slot = some j := by
  cases slot with
  | none => exact absurd h (by simp [required])
  | some j => exact ⟨j, rfl⟩

theorem asWord?_of_eq {j : Json} {n : UInt64} (h : j = .ofWord n) : j.asWord? = some n :=
  h ▸ asWord?_ofWord n

theorem asSigned?_of_eq {j : Json} {n : Int64} (h : j = .ofSigned n) : j.asSigned? = some n :=
  h ▸ asSigned?_ofSigned n

theorem asList?_array {read : Json → Option α} {items : List Json} {as : List α}
    (reads : List.Forall₂ (fun j a => read j = some a) items as) :
    asList? read (.array items) = some as := by
  change items.mapM read = _
  induction reads with
  | nil => rfl
  | cons first _ ih =>
    rw [List.mapM_cons, first, ih]
    rfl

end Json

end MarketMaker
