/-!
# Tables

A table keeps one value per text key, in increasing order of the keys. The order of texts is that of
their characters, which is also the order of their UTF-8 bytes. The order is part of the type, so a
table is the same value whatever the order its keys came in. Each operation has one lemma that says
what it does to `find?`.
-/

namespace MarketMaker

/-- Values under distinct keys, in increasing order of the keys. -/
structure Table (α : Type) where
  entries : List (String × α)
  sorted : entries.Pairwise fun a b => a.1 < b.1

namespace Table

variable {α β : Type}

/-- A table without entries. -/
def empty : Table α := ⟨[], .nil⟩

instance : Inhabited (Table α) := ⟨empty⟩

/-! ## Lists of entries -/

/-- The value under a key. -/
def findIn (key : String) (entries : List (String × α)) : Option α :=
  (entries.find? fun e => e.1 = key).map (·.2)

/-- Puts a value under a key, in place of one that is there already. -/
def putIn (key : String) (value : α) : List (String × α) → List (String × α)
  | [] => [(key, value)]
  | e :: es =>
    if e.1 = key then (key, value) :: es
    else if e.1 < key then e :: putIn key value es
    else (key, value) :: e :: es

theorem mem_putIn {key : String} {value : α} {e : String × α} :
    ∀ {es : List (String × α)}, e ∈ putIn key value es → e = (key, value) ∨ e ∈ es
  | [], h => by simpa [putIn] using h
  | d :: ds, h => by
    rw [putIn] at h
    split at h
    · rcases List.mem_cons.1 h with h | h
      · exact .inl h
      · exact .inr (List.mem_cons_of_mem _ h)
    · split at h
      · rcases List.mem_cons.1 h with h | h
        · exact .inr (h ▸ List.mem_cons_self)
        · rcases mem_putIn h with h | h
          · exact .inl h
          · exact .inr (List.mem_cons_of_mem _ h)
      · rcases List.mem_cons.1 h with h | h
        · exact .inl h
        · exact .inr h

theorem lt_of_not {a b : String} (hne : a ≠ b) (hlt : ¬a < b) : b < a := by
  have hle : b ≤ a := String.not_lt.1 hlt
  by_cases h : b < a
  · exact h
  · exact absurd (String.le_antisymm (String.not_lt.1 h) hle) hne

theorem sorted_putIn {key : String} {value : α} :
    ∀ {es : List (String × α)}, es.Pairwise (fun a b => a.1 < b.1) →
      (putIn key value es).Pairwise fun a b => a.1 < b.1
  | [], _ => List.pairwise_singleton _ _
  | d :: ds, h => by
    obtain ⟨hd, hds⟩ := List.pairwise_cons.1 h
    rw [putIn]
    split
    next heq =>
      refine List.pairwise_cons.2 ⟨fun b hb => ?_, hds⟩
      exact heq ▸ hd b hb
    next hne =>
      split
      next hlt =>
        refine List.pairwise_cons.2 ⟨fun b hb => ?_, sorted_putIn hds⟩
        rcases mem_putIn hb with rfl | hb
        · exact hlt
        · exact hd b hb
      next hlt =>
        have hk : key < d.1 := lt_of_not hne hlt
        refine List.pairwise_cons.2 ⟨fun b hb => ?_, h⟩
        rcases List.mem_cons.1 hb with rfl | hb
        · exact hk
        · exact String.lt_trans hk (hd b hb)

/-! ## Operations -/

/-- The value under a key. -/
def find? (t : Table α) (key : String) : Option α :=
  findIn key t.entries

/-- Whether a key is present. -/
def contains (t : Table α) (key : String) : Bool :=
  (t.find? key).isSome

/-- Puts a value under a key, in place of one that is there already. -/
def insert (t : Table α) (key : String) (value : α) : Table α :=
  ⟨putIn key value t.entries, sorted_putIn t.sorted⟩

/-- Keeps the entries that pass a test. -/
def filter (t : Table α) (p : String → α → Bool) : Table α :=
  ⟨t.entries.filter fun e => p e.1 e.2, t.sorted.filter _⟩

/-- Removes a key. -/
def erase (t : Table α) (key : String) : Table α :=
  t.filter fun k _ => k ≠ key

/-- Changes every value, knowing its key. -/
def map (f : String → α → β) (t : Table α) : Table β :=
  ⟨t.entries.map fun e => (e.1, f e.1 e.2), by
    simpa [List.pairwise_map] using t.sorted⟩

/-- The keys, in increasing order. -/
def keys (t : Table α) : List String :=
  t.entries.map (·.1)

/-- The number of keys. -/
def size (t : Table α) : Nat :=
  t.entries.length

/-- The table of a list of entries, the last value under a key winning. -/
def ofList (entries : List (String × α)) : Table α :=
  entries.foldl (fun t e => t.insert e.1 e.2) empty

/-! ## What each operation does to `find?` -/

theorem find?_empty (key : String) : (empty : Table α).find? key = none := rfl

theorem findIn_putIn_self (key : String) (value : α) :
    ∀ es : List (String × α), findIn key (putIn key value es) = some value
  | [] => by simp [putIn, findIn]
  | d :: ds => by
    rw [putIn]
    split
    · simp [findIn]
    next hne =>
      split
      · have ih := findIn_putIn_self key value ds
        simpa [findIn, hne] using ih
      · simp [findIn]

theorem findIn_putIn_of_ne {key other : String} (value : α) (h : other ≠ key) :
    ∀ es : List (String × α), findIn other (putIn key value es) = findIn other es
  | [] => by simp [putIn, findIn, h.symm]
  | d :: ds => by
    rw [putIn]
    split
    next heq => simp [findIn, heq, h.symm]
    · split
      · have ih := findIn_putIn_of_ne value h ds
        by_cases hd : d.1 = other
        · simp [findIn, hd]
        · simpa [findIn, hd] using ih
      · simp [findIn, h.symm]

theorem find?_insert (t : Table α) (key other : String) (value : α) :
    (t.insert key value).find? other = if other = key then some value else t.find? other := by
  split
  next h => exact h ▸ findIn_putIn_self key value t.entries
  next h => exact findIn_putIn_of_ne value h t.entries

theorem find?_map (f : String → α → β) (t : Table α) (key : String) :
    (t.map f).find? key = (t.find? key).map (f key) := by
  obtain ⟨es, _⟩ := t
  simp only [find?, map, findIn]
  induction es with
  | nil => rfl
  | cons e es ih =>
    rename_i h
    by_cases he : e.1 = key
    · simp [he]
    · simpa [he] using ih (List.pairwise_cons.1 h).2

/-! ## Keys -/

theorem mem_keys (t : Table α) (key : String) : key ∈ t.keys ↔ (t.find? key).isSome := by
  rw [keys, find?, findIn, Option.isSome_map, List.find?_isSome, List.mem_map]
  simp

/-! ## Tables are what they find -/

theorem find?_eq_some_iff (t : Table α) (key : String) (value : α) :
    t.find? key = some value ↔ (key, value) ∈ t.entries := by
  obtain ⟨es, sorted⟩ := t
  change findIn key es = some value ↔ (key, value) ∈ es
  induction es with
  | nil => simp [findIn]
  | cons e es ih =>
    obtain ⟨least, rest⟩ := List.pairwise_cons.1 sorted
    by_cases he : e.1 = key
    · -- The key of the first entry is smaller than those behind it.
      have absent : (key, value) ∉ es := fun member =>
        absurd (least _ member) (he ▸ String.lt_irrefl key)
      rw [List.mem_cons, or_iff_left absent, ← he]
      simp [findIn, Prod.ext_iff, eq_comm]
    · have other : (key, value) ≠ e := fun same => he (same ▸ rfl)
      rw [List.mem_cons, or_iff_right other, ← ih rest]
      simp [findIn, he]

/-- Tables that find the same under every key are the same. -/
theorem ext_find? {t u : Table α} (h : ∀ key, t.find? key = u.find? key) : t = u := by
  obtain ⟨es, sorted⟩ := t
  obtain ⟨fs, sorted'⟩ := u
  have nodup : ∀ {es : List (String × α)}, es.Pairwise (fun a b => a.1 < b.1) → es.Nodup := by
    refine List.Pairwise.imp ?_
    rintro a _ less rfl
    exact String.lt_irrefl _ less
  have members : ∀ e, e ∈ es ↔ e ∈ fs := fun e => by
    have left := find?_eq_some_iff ⟨es, sorted⟩ e.1 e.2
    have right := find?_eq_some_iff ⟨fs, sorted'⟩ e.1 e.2
    exact left.symm.trans (h e.1 ▸ right)
  have perm := (List.perm_ext_iff_of_nodup (nodup sorted) (nodup sorted')).2 members
  have same : es = fs := List.Perm.eq_of_pairwise
    (fun a b _ _ less more => absurd (String.lt_trans less more) (String.lt_irrefl _))
    sorted sorted' perm
  subst same
  rfl

/-- Putting a value in the place of one that is changed to the same makes no difference to the
changed table. -/
theorem map_insert_of_find? {f : String → α → β} {t : Table α} {key : String} {old value : α}
    (h : t.find? key = some old) (same : f key value = f key old) :
    (t.insert key value).map f = t.map f := by
  apply ext_find?
  intro other
  rw [find?_map, find?_map, find?_insert]
  split
  next here => rw [here, h, Option.map_some, Option.map_some, same]
  next => rfl

theorem map_insert (f : String → α → β) (t : Table α) (key : String) (value : α) :
    (t.insert key value).map f = (t.map f).insert key (f key value) := by
  apply ext_find?
  intro other
  rw [find?_map, find?_insert, find?_insert, find?_map]
  split
  next here => rw [here, Option.map_some]
  next => rfl

theorem map_map {γ : Type} (f : String → α → β) (g : String → β → γ) (t : Table α) :
    (t.map f).map g = t.map fun key value => g key (f key value) := by
  apply ext_find?
  intro key
  rw [find?_map, find?_map, find?_map, Option.map_map]
  rfl

theorem contains_map (f : String → α → β) (t : Table α) (key : String) :
    (t.map f).contains key = t.contains key := by
  rw [contains, contains, find?_map, Option.isSome_map]

/-! ## Tables are their lists of entries -/

theorem putIn_of_lt {key : String} {value : α} {es : List (String × α)} (less : ∀ e ∈ es, e.1 < key) :
    putIn key value es = es ++ [(key, value)] := by
  induction es with
  | nil => rfl
  | cons e es ih =>
    obtain ⟨first, rest⟩ := List.forall_mem_cons.1 less
    have other : e.1 ≠ key := fun same => String.lt_irrefl key (same ▸ first)
    rw [putIn, if_neg other, if_pos first, ih rest, List.cons_append]

/-- Entries in order of their keys make the table of which they are the entries. -/
theorem entries_ofList {es : List (String × α)} (sorted : es.Pairwise fun a b => a.1 < b.1) :
    (ofList es).entries = es := by
  suffices adds : ∀ t : Table α, (∀ a ∈ t.entries, ∀ b ∈ es, a.1 < b.1) →
      (es.foldl (fun t e => t.insert e.1 e.2) t).entries = t.entries ++ es from
    adds empty (fun _ member => absurd member List.not_mem_nil)
  induction es with
  | nil => exact fun t _ => (List.append_nil _).symm
  | cons e es ih =>
    intro t less
    obtain ⟨least, rest⟩ := List.pairwise_cons.1 sorted
    have added : (t.insert e.1 e.2).entries = t.entries ++ [e] :=
      putIn_of_lt fun a member => less a member e List.mem_cons_self
    rw [List.foldl_cons, ih rest, added, List.append_assoc, List.singleton_append]
    intro a member b later
    rw [added] at member
    rcases List.mem_append.1 member with old | new
    · exact less a old b (List.mem_cons_of_mem _ later)
    · exact List.mem_singleton.1 new ▸ least b later

theorem ofList_entries (t : Table α) : ofList t.entries = t := by
  obtain ⟨es, sorted⟩ := t
  have same := entries_ofList sorted
  generalize ofList es = u at same
  obtain ⟨fs, sorted'⟩ := u
  subst same
  rfl

end Table

end MarketMaker
