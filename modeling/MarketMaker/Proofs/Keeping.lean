import Mathlib.Logic.Function.Basic
import MarketMaker.Cache.Memory
import MarketMaker.Cache.Rows
import MarketMaker.Proofs.Telling

/-!
# Stores that keep what they are told

A store in memory and a store of rows both keep fields under a key until their time has come, and
refuse none whose end can be told (`Keeper`). A run takes its time: `Aging` is a store every request to
which comes at a time of its own, so that what is shown of a run beside it holds however time passes. It
also notes what went wrong when it was told of something.
-/

namespace MarketMaker.Cache

/-- A store that keeps fields until their time has come, at times `τ`. -/
class Keeper (σ : Type) (τ : outParam Type) [Store σ] where
  /-- The store at another time. -/
  atTime : σ → τ → σ
  /-- The fields that are kept under a key, though their time may have come. -/
  kept : σ → String → Option Fields
  /-- Whether the time of what is kept under a key has come. -/
  isOver : σ → String → Bool
  /-- Whether the times of the next year can be told. -/
  HasYear : τ → Prop
  ping_eq : ∀ c : σ, Store.ping c = (true, c)
  kept_atTime : ∀ c now, kept (atTime c now) = kept c
  set_eq : ∀ c now key fields seconds, HasYear now → seconds ≤ longestExpiry →
    ∃ c', Store.set (atTime c now) key fields (.ofSeconds seconds) = (.ok (), c') ∧
      kept c' = Function.update (kept c) key (some fields)
  get_eq : ∀ c key, isOver c key = false → (Store.get c key).1 = .ok (kept c key)

/-- What is found in a map once something is put under a key. -/
theorem map_getElem?_insert {α β : Type} (f : α → β) (map : Std.TreeMap String α) (key other : String)
    (value : α) :
    (map.insert key value)[other]?.map f =
      Function.update (fun key => map[key]?.map f) key (some (f value)) other := by
  rw [Std.TreeMap.getElem?_insert, Function.update_apply]
  simp only [Std.compare_eq_iff_eq, eq_comm (a := key)]
  split
  · rfl
  · rfl

/-! ## In memory -/

namespace Memory

/-- A year is left of the seconds of a signed word. -/
def HasYear (now : Duration) : Prop :=
  now.seconds + longestExpiry.toNat ≤ Int64.maxValue.toInt

theorem seconds_add_ofSeconds (now : Duration) (seconds : UInt64) :
    (now + .ofSeconds seconds).seconds = now.seconds + seconds.toNat := by
  change (now.nanoseconds + (seconds.toNat * 1000000000 + 0)) / 1000000000 = _
  rw [Nat.add_zero, Nat.add_mul_div_right _ _ (by decide)]
  rfl

theorem isTime_of_hasYear {now : Duration} {seconds : UInt64} (year : HasYear now)
    (expiry : seconds ≤ longestExpiry) : isTime (now + .ofSeconds seconds) = true := by
  have least := Int64.toInt_minValue
  have short := UInt64.le_iff_toNat_le.1 expiry
  unfold HasYear at year
  rw [isTime, seconds_add_ofSeconds, Word.ofInt?, if_pos ⟨by omega, by omega⟩]
  rfl

end Memory

instance : Keeper Memory Duration where
  atTime m now := { m with now }
  kept m key := m.entries[key]?.map Entry.fields
  isOver m key := m.entries[key]?.any fun e => e.expires.nanoseconds ≤ m.now.nanoseconds
  HasYear := Memory.HasYear
  ping_eq _ := rfl
  kept_atTime _ _ := rfl
  set_eq m now key fields seconds year expiry := by
    refine ⟨_, if_pos (Memory.isTime_of_hasYear year expiry), ?_⟩
    funext other
    rw [map_getElem?_insert]
  get_eq m key live := by
    change Except.ok (m.get key).1 = _
    unfold Memory.get
    cases entry : m.entries[key]? with
    | none => rfl
    | some e =>
      rw [entry] at live
      have early : ¬e.expires.nanoseconds ≤ m.now.nanoseconds := by simpa using live
      simp only
      rw [if_neg early]
      rfl

/-! ## In rows -/

namespace Rows

/-- A year is left of the milliseconds of a signed word. -/
def HasYear (now : Int) : Prop :=
  Int64.minValue.toInt ≤ now ∧ now + 1000 * longestExpiry.toNat ≤ Int64.maxValue.toInt

theorem milliseconds_ofSeconds (seconds : UInt64) :
    (Duration.ofSeconds seconds).milliseconds = 1000 * seconds.toNat := by
  change (seconds.toNat * 1000000000 + 0) / 1000000 = _
  omega

theorem isTime_of_hasYear {now : Int} {seconds : UInt64} (year : HasYear now)
    (expiry : seconds ≤ longestExpiry) :
    (isTime (Duration.ofSeconds seconds).milliseconds &&
      isTime (now + (Duration.ofSeconds seconds).milliseconds)) = true := by
  have least := Int64.toInt_minValue
  have short := UInt64.le_iff_toNat_le.1 expiry
  have year' : longestExpiry.toNat = 31536000 := rfl
  obtain ⟨low, high⟩ := year
  have most := Int64.toInt_maxValue
  rw [milliseconds_ofSeconds, isTime, isTime, Word.ofInt?, Word.ofInt?,
    if_pos ⟨by omega, by omega⟩, if_pos ⟨by omega, by omega⟩]
  rfl

end Rows

instance : Keeper Rows Int where
  atTime r now := { r with now }
  kept r key := r.rows[key]?.map Row.fields
  isOver r key := r.rows[key]?.any fun row => !r.isLive row
  HasYear := Rows.HasYear
  ping_eq _ := rfl
  kept_atTime _ _ := rfl
  set_eq r now key fields seconds year expiry := by
    refine ⟨_, if_pos (Rows.isTime_of_hasYear year expiry), ?_⟩
    funext other
    rw [map_getElem?_insert]
  get_eq r key live := by
    change Except.ok (r.get key) = _
    unfold Rows.get
    cases row : r.rows[key]? with
    | none => rfl
    | some kept =>
      rw [row] at live
      have live : r.isLive kept = true := by simpa using live
      simp only
      rw [if_pos live]
      rfl

/-! ## In the course of time -/

/-- A store, the times at which requests to it come, and the faults of what it was told. -/
structure Aging (σ τ : Type) where
  store : σ
  times : Nat → τ
  faults : List CacheFault

namespace Aging

variable {σ τ : Type} [Store σ] [Keeper σ τ]

/-- A store that nothing was asked of yet. -/
def new (store : σ) (times : Nat → τ) : Aging σ τ := ⟨store, times, []⟩

/-- The store at the time of the next request. -/
def present (c : Aging σ τ) : σ := Keeper.atTime c.store (c.times 0)

/-- What becomes of the store by a request. -/
def next (c : Aging σ τ) (store : σ) : Aging σ τ :=
  { c with store, times := fun n => c.times (n + 1) }

/-- The fault of an answer, if there is one. -/
def faultsOf : Except CacheFault Unit → List CacheFault
  | .ok _ => []
  | .error fault => [fault]

instance : Store (Aging σ τ) where
  ping c :=
    let (answer, store) := Store.ping c.present
    (answer, c.next store)
  set c key fields expiry :=
    let (answer, store) := Store.set c.present key fields expiry
    (answer, { c.next store with faults := c.faults ++ faultsOf answer })
  get c key :=
    let (answer, store) := Store.get c.present key
    (answer, c.next store)

/-- What is kept under a key, though its time may have come. -/
def kept (c : Aging σ τ) : String → Option Fields := Keeper.kept c.store

/-- Nothing was refused so far, and nothing will be for as long as the times of the next year can be
told. -/
structure Accepts (c : Aging σ τ) : Prop where
  faults : c.faults = []
  years : ∀ n, Keeper.HasYear σ (c.times n)

variable {c : Aging σ τ}

theorem ping_fst (c : Aging σ τ) : (Store.ping c).1 = true :=
  congrArg Prod.fst (Keeper.ping_eq c.present)

theorem ping_snd (c : Aging σ τ) : (Store.ping c).2 = c.next c.present :=
  congrArg c.next (congrArg Prod.snd (Keeper.ping_eq c.present))

theorem kept_present (c : Aging σ τ) : Keeper.kept c.present = c.kept :=
  Keeper.kept_atTime ..

theorem Accepts.next (h : c.Accepts) (store : σ) : (c.next store).Accepts :=
  ⟨h.faults, fun n => h.years (n + 1)⟩

theorem set_eq (h : c.Accepts) (key : String) (fields : Fields) {seconds : UInt64}
    (short : seconds ≤ longestExpiry) :
    (Store.set c key fields (.ofSeconds seconds)).2.Accepts ∧
      (Store.set c key fields (.ofSeconds seconds)).2.kept =
        Function.update c.kept key (some fields) := by
  obtain ⟨store, set, kept⟩ :=
    Keeper.set_eq c.store (c.times 0) key fields seconds (h.years 0) short
  have told : (Store.set c key fields (.ofSeconds seconds)).2 =
      { c.next store with faults := c.faults ++ [] } := by
    change { c.next (Store.set c.present key fields (.ofSeconds seconds)).2 with
      faults := c.faults ++ faultsOf (Store.set c.present key fields (.ofSeconds seconds)).1 } = _
    rw [present, set]
    rfl
  rw [told]
  exact ⟨⟨by simp [h.faults], (h.next store).years⟩, kept⟩

theorem get_fst (c : Aging σ τ) {key : String} (live : Keeper.isOver c.present key = false) :
    (Store.get c key).1 = .ok (c.kept key) := by
  rw [← kept_present]
  exact Keeper.get_eq c.present key live

end Aging

/-! ## Notes -/

/-- What is under each key once notes were kept one after the other. -/
def written (contents : String → Option Fields) (notes : List Note) : String → Option Fields :=
  notes.foldl (fun contents n => Function.update contents n.key (some n.fields)) contents

/-- A store that is told of notes keeps every one of them. -/
theorem Aging.tell_eq {σ τ : Type} [Store σ] [Keeper σ τ] {c : Aging σ τ} (h : c.Accepts)
    {notes : List Note} (short : ∀ n ∈ notes, n.seconds ≤ longestExpiry) :
    (tell c notes).Accepts ∧ (tell c notes).kept = written c.kept notes := by
  induction notes generalizing c with
  | nil => exact ⟨h, rfl⟩
  | cons n notes ih =>
    obtain ⟨accepts, kept⟩ := set_eq h n.key n.fields (short n List.mem_cons_self)
    obtain ⟨accepts', kept'⟩ := ih accepts fun m member => short m (List.mem_cons_of_mem _ member)
    rw [kept] at kept'
    exact ⟨accepts', kept'⟩

end MarketMaker.Cache
