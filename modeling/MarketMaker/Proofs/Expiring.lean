import Mathlib.Data.Finset.Card
import Mathlib.Data.List.Induction
import Mathlib.Tactic.SplitIfs
import MarketMaker.Proofs.Keeping

/-!
# What a store answers in the course of time

A store is asked to keep fields under a key, to give them back or to purge, each at a time of its own. On
a clock that does not run backwards, a store with slots that keeps what it accepts until its time, and
drops nothing before, answers every get with what is due (`Timer.serve_course`): the fields of the last set
of the key that was accepted, until their time has come by that clock. Where nothing that is to last runs
out before the last request, that can be told from the answers alone (`Timer.sound_course`). A store in
memory and a store of rows are such stores, each with a clock of its own; one drops what it finds expired,
the other what it is told to purge.
-/

namespace MarketMaker.Cache

/-! ## Requests -/

/-- What is asked of a store. -/
inductive Instruction where
  | set (key : String) (fields : Fields) (expiry : Duration)
  | get (key : String)
  /-- To remove what has expired, which only a store of rows can be asked. -/
  | purge

/-- A request, and when it comes: by the clock of a store in memory, which tells how long the machine has
been up, and by that of a store of rows, which tells the nanoseconds of the date. -/
structure Asked where
  request : Instruction
  uptime : Duration
  instant : Int

/-- The date in whole milliseconds. -/
def Asked.date (a : Asked) : Int :=
  a.instant / 1000000

/-- For how long something is to be kept, if that is asked. -/
def Asked.expiry? (a : Asked) : Option Duration :=
  match a.request with
  | .set _ _ expiry => some expiry
  | _ => none

/-- A request and the answer to it. -/
inductive Exchange where
  | set (key : String) (fields : Fields) (expiry : Duration) (answer : Except Error Unit)
  | get (key : String) (answer : Except Error (Option Fields))
  | purge (removed : Nat)

/-! ## What was said -/

namespace Exchange

/-- Whether a store was asked to purge. -/
def isPurge : Exchange → Bool
  | purge _ => true
  | _ => false

/-- The fields that were kept under a key by a set that succeeded, and for how long. -/
def kept? (key : String) : Exchange → Option (Fields × Duration)
  | set here fields expiry (.ok _) => if here = key then some (fields, expiry) else none
  | _ => none

/-- The keys that are held: a set that succeeds adds its key, and a get that finds nothing drops it. -/
def hold (held : Finset String) : Exchange → Finset String
  | set key _ _ (.ok _) => insert key held
  | get key (.ok none) => held.erase key
  | _ => held

end Exchange

/-- The fields that the last successful set of a key kept, and for how long. -/
def lastKept? (said : List Exchange) (key : String) : Option (Fields × Duration) :=
  (said.filterMap (Exchange.kept? key)).getLast?

/-- The fields that can be read under a key: those of the last successful set of it, unless they were to
be kept for no time at all. -/
def readable (said : List Exchange) (key : String) : Option Fields :=
  (lastKept? said key).bind fun (fields, expiry) => if expiry = .zero then none else some fields

/-- The keys that were set with success and not dropped since by a get that found nothing. -/
def held (said : List Exchange) : Finset String :=
  said.foldl Exchange.hold ∅

theorem held_append (said : List Exchange) (e : Exchange) : held (said ++ [e]) = e.hold (held said) :=
  List.foldl_concat ..

theorem lastKept?_append (said : List Exchange) (e : Exchange) (key : String) :
    lastKept? (said ++ [e]) key = (e.kept? key).or (lastKept? said key) := by
  unfold lastKept?
  cases kept : e.kept? key with
  | none => simp [kept]
  | some _ => simp [kept]

theorem lastKept?_append_of_none {said more : List Exchange}
    (none : ∀ e ∈ more, ∀ key, e.kept? key = none) : lastKept? (said ++ more) = lastKept? said := by
  funext key
  have nothing : more.filterMap (Exchange.kept? key) = [] :=
    List.filterMap_eq_nil_iff.2 fun e member => none e member key
  rw [lastKept?, List.filterMap_append, nothing, List.append_nil, lastKept?]

theorem readable_of_lastKept? {said said' : List Exchange} (same : lastKept? said = lastKept? said') :
    readable said = readable said' := by
  funext key
  rw [readable, readable, same]

/-- Answers that are right: a get gives the fields that can be read, and a set is refused only for its
time, which changes nothing that can be read. -/
structure Sound (said : List Exchange) : Prop where
  found : ∀ before key answer rest, said = before ++ .get key answer :: rest →
    answer = .ok (readable before key)
  refused : ∀ before key fields expiry fault rest,
    said = before ++ .set key fields expiry (.error fault) :: rest →
      fault = .cache (.expiryOutOfRange key expiry) ∧
        readable (before ++ [.set key fields expiry (.error fault)]) = readable before

/-! ## Courses -/

/-- A store, and what was said to it and by it so far. -/
structure Course (σ : Type) where
  store : σ
  said : List Exchange

section
variable {σ : Type} (exchange : σ → Asked → Option Exchange × σ)

/-- One request more. -/
def Course.next (c : Course σ) (a : Asked) : Course σ :=
  ⟨(exchange c.store a).2, c.said ++ (exchange c.store a).1.toList⟩

/-- What becomes of a store by requests. -/
def course (start : σ) (history : List Asked) : Course σ :=
  history.foldl (Course.next exchange) ⟨start, []⟩

theorem course_append (start : σ) (past : List Asked) (a : Asked) :
    course exchange start (past ++ [a]) = (course exchange start past).next exchange a := by
  rw [course, List.foldl_append]
  rfl

/-- Whatever was said was said at some request. -/
theorem exists_of_said {start : σ} {history : List Asked} {before rest : List Exchange} {e : Exchange}
    (said : (course exchange start history).said = before ++ e :: rest) :
    ∃ past a later, history = past ++ a :: later ∧ (course exchange start past).said = before ∧
      (exchange (course exchange start past).store a).1 = some e := by
  induction history using List.reverseRecOn generalizing rest with
  | nil => exact absurd said (by simp [course])
  | append_singleton past a ih =>
    rw [course_append] at said
    change (course exchange start past).said ++ _ = _ at said
    cases answer : (exchange (course exchange start past).store a).1 with
    | none =>
      rw [answer, Option.toList_none, List.append_nil] at said
      obtain ⟨past', a', later, split, here⟩ := ih said
      exact ⟨past', a', later ++ [a], by rw [split]; simp, here⟩
    | some e' =>
      rw [answer, Option.toList_some] at said
      rcases List.eq_nil_or_concat rest with rfl | ⟨rest', last, rfl⟩
      · obtain ⟨same, same'⟩ := List.append_inj' said rfl
        obtain rfl := List.head_eq_of_cons_eq same'
        exact ⟨past, a, [], rfl, same, answer⟩
      · rw [List.concat_eq_append, ← List.cons_append, ← List.append_assoc] at said
        obtain ⟨same, _⟩ := List.append_inj' said rfl
        obtain ⟨past', a', later, split, here⟩ := ih same
        exact ⟨past', a', later ++ [a], by rw [split]; simp, here⟩

end

/-! ## Stores with slots -/

/-- What is kept under each key, and the time at which it expires. -/
abbrev Slots := String → Option (Fields × Int)

/-- How a store counts time. -/
structure Timer where
  /-- The time of a request. -/
  now : Asked → Int
  /-- How long a span of time is. -/
  span : Duration → Int
  /-- Whether something can be kept for a span of time. -/
  accepts : Asked → Duration → Bool

/-- A set that was accepted. -/
structure Acceptance where
  asked : Asked
  fields : Fields
  expiry : Duration

namespace Timer

variable {t : Timer} {past history : List Asked} {said : List Exchange} {slots slots' : Slots}
  {a b b' : Asked} {k : Acceptance} {key : String}

/-! ### What is due -/

/-- The acceptance of a request, if it is one to set a key. -/
def accepted? (t : Timer) (key : String) (a : Asked) : Option Acceptance :=
  match a.request with
  | .set here fields expiry =>
    if here = key ∧ t.accepts a expiry = true then some ⟨a, fields, expiry⟩ else none
  | _ => none

/-- The last set of a key that was accepted. -/
def lastAccepted? (t : Timer) (past : List Asked) (key : String) : Option Acceptance :=
  (past.filterMap (t.accepted? key)).getLast?

/-- At a request, the time of what was accepted has not come yet. -/
def IsLive (t : Timer) (k : Acceptance) (b : Asked) : Prop :=
  t.now b < t.now k.asked + t.span k.expiry

instance : Decidable (t.IsLive k b) :=
  inferInstanceAs (Decidable (_ < _))

/-- The fields that are due under a key at a request: those last accepted, until their time has come. -/
def due (t : Timer) (past : List Asked) (b : Asked) (key : String) : Option Fields :=
  (t.lastAccepted? past key).bind fun k => if t.IsLive k b then some k.fields else none

/-- The clock does not run backwards from request to request. -/
def Forward (t : Timer) (history : List Asked) : Prop :=
  history.Pairwise fun a b => t.now a ≤ t.now b

theorem Forward.now_le (forward : t.Forward (past ++ [b])) : ∀ a ∈ past, t.now a ≤ t.now b :=
  fun a member => (List.pairwise_append.1 forward).2.2 a member b List.mem_cons_self

theorem Forward.init (forward : t.Forward (past ++ [b])) : t.Forward past :=
  (List.pairwise_append.1 forward).1

theorem lastAccepted?_append (past : List Asked) (b : Asked) (key : String) :
    t.lastAccepted? (past ++ [b]) key = (t.accepted? key b).or (t.lastAccepted? past key) := by
  unfold lastAccepted?
  cases accepted : t.accepted? key b with
  | none => simp [accepted]
  | some _ => simp [accepted]

/-- What was accepted was asked for. -/
theorem asked_of_accepted? (accepted : t.accepted? key a = some k) :
    k.asked = a ∧ a.request = .set key k.fields k.expiry ∧ t.accepts a k.expiry = true := by
  unfold accepted? at accepted
  split at accepted
  case h_1 here fields expiry request =>
    split_ifs at accepted with asked
    obtain rfl := Option.some.inj accepted
    exact ⟨rfl, asked.1 ▸ request, asked.2⟩
  case h_2 => exact absurd accepted (Option.some_ne_none _).symm

theorem accepted?_of_set {fields : Fields} {expiry : Duration}
    (request : a.request = .set key fields expiry) (accepted : t.accepts a expiry = true)
    (other : String) :
    t.accepted? other a = if key = other then some ⟨a, fields, expiry⟩ else none := by
  simp only [accepted?, request, accepted, and_true]

theorem asked_of_lastAccepted? (last : t.lastAccepted? past key = some k) :
    k.asked ∈ past ∧ k.expiry ∈ k.asked.expiry? ∧ t.accepts k.asked k.expiry = true := by
  obtain ⟨a, member, accepted⟩ := List.mem_filterMap.1 (List.mem_of_getLast? last)
  obtain ⟨rfl, request, accepts⟩ := asked_of_accepted? accepted
  exact ⟨member, by rw [Asked.expiry?, request]; rfl, accepts⟩

/-- What is not due any more does not become due as time goes by. -/
theorem due_eq_none_of_le (gone : t.due past b key = none) (later : t.now b ≤ t.now b') :
    t.due past b' key = none := by
  unfold due at gone ⊢
  cases last : t.lastAccepted? past key with
  | none => rfl
  | some k =>
    rw [last, Option.bind_some, ite_eq_right_iff] at gone
    have ended : ¬ t.IsLive k b' := by
      intro live
      exact absurd (gone (later.trans_lt live)) (Option.some_ne_none _)
    rw [Option.bind_some, if_neg ended]

/-! ### What is kept -/

/-- What is read from a slot at the time of a request. -/
def read (t : Timer) (a : Asked) (slot : Option (Fields × Int)) : Option Fields :=
  slot.bind fun (fields, expires) => if t.now a < expires then some fields else none

/-- Slots are emptied only if nothing could be read from them. -/
def Drops (t : Timer) (a : Asked) (slots slots' : Slots) : Prop :=
  ∀ key, slots' key = slots key ∨ (slots' key = none ∧ t.read a (slots key) = none)

/-- What a store with slots may answer to a request, and what becomes of the slots. -/
inductive Serves (t : Timer) (a : Asked) (slots : Slots) : Option Exchange → Slots → Prop where
  | kept {key : String} {fields : Fields} {expiry : Duration}
      (request : a.request = .set key fields expiry) (accepted : t.accepts a expiry = true) :
      Serves t a slots (some (.set key fields expiry (.ok ())))
        (Function.update slots key (some (fields, t.now a + t.span expiry)))
  | refused {key : String} {fields : Fields} {expiry : Duration}
      (request : a.request = .set key fields expiry) (refused : t.accepts a expiry = false) :
      Serves t a slots
        (some (.set key fields expiry (.error (.cache (.expiryOutOfRange key expiry))))) slots
  | found {key : String} {slots' : Slots} (request : a.request = .get key)
      (drops : t.Drops a slots slots') :
      Serves t a slots (some (.get key (.ok (t.read a (slots key))))) slots'
  | purged {answer : Option Exchange} {slots' : Slots} (request : a.request = .purge)
      (drops : t.Drops a slots slots') (purges : ∀ e ∈ answer, e.isPurge = true) :
      Serves t a slots answer slots'

/-- What the slots hold after some requests: a full one has what was last accepted for it, and under an
empty one nothing is due any more. -/
structure Holds (t : Timer) (past : List Asked) (slots : Slots) : Prop where
  full : ∀ key fields expires, slots key = some (fields, expires) →
    ∃ k, t.lastAccepted? past key = some k ∧ k.fields = fields ∧
      expires = t.now k.asked + t.span k.expiry
  empty : ∀ key, slots key = none → ∀ b, (∀ a ∈ past, t.now a ≤ t.now b) → t.due past b key = none

/-- What is read is what is due. -/
theorem Holds.read_eq (holds : t.Holds past slots) (later : ∀ a ∈ past, t.now a ≤ t.now b)
    (key : String) : t.read b (slots key) = t.due past b key := by
  cases slot : slots key with
  | none => exact (holds.empty key slot b later).symm
  | some content =>
    obtain ⟨k, last, same, expires⟩ := holds.full key _ _ slot
    rw [due, last, Option.bind_some, same]
    simp only [IsLive, ← expires]
    rfl

/-- Slots may be emptied from which nothing is to be read any more. -/
theorem Holds.drop (holds : t.Holds past slots) (forward : t.Forward (past ++ [b]))
    (drops : t.Drops b slots slots') (none : ∀ key, t.accepted? key b = none) :
    t.Holds (past ++ [b]) slots' := by
  have last (key : String) : t.lastAccepted? (past ++ [b]) key = t.lastAccepted? past key := by
    rw [lastAccepted?_append, none, Option.none_or]
  constructor
  case full =>
    intro key fields expires slot
    have full : slots key = some (fields, expires) := by
      rcases drops key with same | ⟨empty, _⟩
      · rw [← same, slot]
      · exact absurd (slot.symm.trans empty) (Option.some_ne_none _)
    rw [last]
    exact holds.full key _ _ full
  case empty =>
    intro key slot b' later
    obtain ⟨later, now⟩ := List.forall_mem_append.1 later
    have due : t.due (past ++ [b]) b' key = t.due past b' key := by rw [due, due, last]
    rw [due]
    rcases drops key with same | ⟨_, gone⟩
    · exact holds.empty key (same.symm.trans slot) b' later
    · rw [holds.read_eq forward.now_le] at gone
      exact due_eq_none_of_le gone (now b List.mem_cons_self)

theorem Holds.keep (holds : t.Holds past slots) {fields : Fields} {expiry : Duration}
    (request : b.request = .set key fields expiry) (accepted : t.accepts b expiry = true) :
    t.Holds (past ++ [b])
      (Function.update slots key (some (fields, t.now b + t.span expiry))) := by
  have last (other : String) : t.lastAccepted? (past ++ [b]) other =
      if other = key then some ⟨b, fields, expiry⟩ else t.lastAccepted? past other := by
    rw [lastAccepted?_append, accepted?_of_set request accepted]
    simp only [eq_comm (a := key)]
    split_ifs <;> rfl
  constructor
  case full =>
    intro other fields' expires slot
    rw [Function.update_apply] at slot
    rw [last]
    split_ifs at slot ⊢
    case pos =>
      obtain ⟨rfl, rfl⟩ := Prod.mk.inj (Option.some.inj slot)
      exact ⟨_, rfl, rfl, rfl⟩
    case neg => exact holds.full other _ _ slot
  case empty =>
    intro other slot b' later
    rw [Function.update_apply] at slot
    split_ifs at slot with here
    rw [due, last, if_neg here]
    exact holds.empty other slot b' fun a member => later a (List.mem_append_left _ member)

/-- The right answer to a request, unless it is one to purge. -/
def answer? (t : Timer) (past : List Asked) (b : Asked) : Option Exchange :=
  match b.request with
  | .set key fields expiry =>
    some (.set key fields expiry
      (if t.accepts b expiry then .ok () else .error (.cache (.expiryOutOfRange key expiry))))
  | .get key => some (.get key (.ok (t.due past b key)))
  | .purge => none

/-- What the slots hold is kept by every request, and what is answered is right. -/
theorem Holds.serve (holds : t.Holds past slots) (forward : t.Forward (past ++ [b]))
    {answer : Option Exchange} (serves : t.Serves b slots answer slots') :
    t.Holds (past ++ [b]) slots' ∧
      answer.toList.filter (!·.isPurge) = (t.answer? past b).toList := by
  cases serves with
  | kept request accepted =>
    refine ⟨holds.keep request accepted, ?_⟩
    rw [answer?, request]
    simp [accepted, Exchange.isPurge]
  | refused request refused =>
    refine ⟨holds.drop forward (fun _ => .inl rfl) fun key => ?_, ?_⟩
    · simp [accepted?, request, refused]
    · rw [answer?, request]
      simp [refused, Exchange.isPurge]
  | found request drops =>
    refine ⟨holds.drop forward drops fun key => by simp only [accepted?, request], ?_⟩
    rw [answer?, request, holds.read_eq forward.now_le]
    simp [Exchange.isPurge]
  | purged request drops purges =>
    refine ⟨holds.drop forward drops fun key => by simp only [accepted?, request], ?_⟩
    rw [answer?, request]
    simpa using fun e member => purges e member

/-- What is said to be kept is what was accepted. -/
theorem Serves.kept?_eq {answer : Option Exchange} (serves : t.Serves b slots answer slots')
    (key : String) :
    answer.bind (Exchange.kept? key) = (t.accepted? key b).map fun k => (k.fields, k.expiry) := by
  cases serves with
  | kept request accepted =>
    rw [accepted?_of_set request accepted, Option.bind_some, Exchange.kept?]
    split_ifs <;> rfl
  | refused request refused => simp [accepted?, request, refused, Exchange.kept?]
  | found request drops => simp [accepted?, request, Exchange.kept?]
  | purged request drops purges =>
    rw [accepted?, request, Option.map_none, Option.bind_eq_none_iff]
    intro e member
    cases e with
    | purge => rfl
    | set | get => exact absurd (purges _ member) (by simp [Exchange.isPurge])

/-! ### In a course -/

/-- Whatever was accepted has not expired at any later request, but what was to be kept for no time at
all has. -/
def Parts (t : Timer) (history : List Asked) : Prop :=
  history.Pairwise fun a b => ∀ expiry ∈ a.expiry?, t.accepts a expiry = true →
    (t.now b < t.now a + t.span expiry ↔ expiry ≠ .zero)

section
variable {σ : Type} {exchange : σ → Asked → Option Exchange × σ} {contents : σ → Slots} {start : σ}
  (serves : ∀ c a, t.Serves a (contents c) (exchange c a).1 (contents (exchange c a).2))
include serves

/-- What was said to be kept last is what was accepted last. -/
theorem lastKept?_course (history : List Asked) (key : String) :
    lastKept? (course exchange start history).said key =
      (t.lastAccepted? history key).map fun k => (k.fields, k.expiry) := by
  induction history using List.reverseRecOn with
  | nil => rfl
  | append_singleton past b ih =>
    have said := (serves (course exchange start past).store b).kept?_eq key
    rw [course_append, Course.next, lastAccepted?_append]
    generalize (exchange (course exchange start past).store b).1 = answer at said
    cases answer with
    | none =>
      rw [Option.bind_none, eq_comm, Option.map_eq_none_iff] at said
      rw [said, Option.none_or, Option.toList_none, List.append_nil, ih]
    | some e =>
      rw [Option.bind_some] at said
      rw [Option.toList_some, lastKept?_append, said, ih]
      cases t.accepted? key b <;> rfl

/-- What is due can be told from the answers where nothing that is to last runs out. -/
theorem due_eq_readable (parts : t.Parts (past ++ [b])) (key : String) :
    t.due past b key = readable (course exchange start past).said key := by
  rw [readable, lastKept?_course serves, due]
  cases last : t.lastAccepted? past key with
  | none => rfl
  | some k =>
    obtain ⟨member, asked, accepted⟩ := asked_of_lastAccepted? last
    have live : t.IsLive k b ↔ k.expiry ≠ .zero :=
      (List.pairwise_append.1 parts).2.2 _ member b List.mem_cons_self _ asked accepted
    rw [Option.bind_some, Option.map_some, Option.bind_some, ← ite_not]
    simp only [live, ne_eq, not_not]

variable (empty : ∀ key, contents start key = none)
include empty

/-- A store that serves requests by its slots holds what it accepted. -/
theorem holds_course (forward : t.Forward history) :
    t.Holds history (contents (course exchange start history).store) := by
  induction history using List.reverseRecOn with
  | nil =>
    refine ⟨fun key _ _ slot => ?_, fun _ _ _ _ => rfl⟩
    exact absurd ((empty key).symm.trans slot) (Option.some_ne_none _).symm
  | append_singleton past b ih =>
    rw [course_append]
    exact ((ih forward.init).serve forward (serves _ b)).1

/-- **A store that serves requests by its slots answers right**: a set by whether it is accepted, a get by
what is due. -/
theorem serve_course (forward : t.Forward (past ++ [b])) :
    (exchange (course exchange start past).store b).1.toList.filter (!·.isPurge) =
      (t.answer? past b).toList :=
  ((holds_course serves empty forward.init).serve forward (serves _ b)).2

/-- What such a store answers can then be told from what was said before. -/
theorem sound_course (forward : t.Forward history) (parts : t.Parts history) :
    Sound (course exchange start history).said := by
  constructor
  case found =>
    intro before key answer rest said
    obtain ⟨past, a, later, rfl, rfl, given⟩ := exists_of_said exchange said
    have sub : (past ++ [a]).Sublist (past ++ a :: later) := by simp
    have forward : t.Forward (past ++ [a]) := List.Pairwise.sublist sub forward
    have served := serves (course exchange start past).store a
    rw [given] at served
    generalize contents (exchange (course exchange start past).store a).2 = slots' at served
    cases served with
    | found request drops =>
      rw [(holds_course serves empty forward.init).read_eq forward.now_le,
        due_eq_readable serves (List.Pairwise.sublist sub parts)]
    | purged request drops purges => exact absurd (purges _ rfl) (by simp [Exchange.isPurge])
  case refused =>
    intro before key fields expiry fault rest said
    obtain ⟨past, a, later, rfl, rfl, given⟩ := exists_of_said exchange said
    have served := serves (course exchange start past).store a
    rw [given] at served
    generalize contents (exchange (course exchange start past).store a).2 = slots' at served
    refine ⟨?_, readable_of_lastKept? (lastKept?_append_of_none (by simp [Exchange.kept?]))⟩
    cases served with
    | refused request refused => rfl
    | purged request drops purges => exact absurd (purges _ rfl) (by simp [Exchange.isPurge])

end

end Timer

/-! ## In memory -/

namespace Memory

/-- The clock of a store in memory counts nanoseconds. -/
def timer : Timer where
  now a := a.uptime.nanoseconds
  span expiry := expiry.nanoseconds
  accepts a expiry := isTime (a.uptime + expiry)

/-- What a store in memory answers to a request. It is not asked to purge. -/
def exchange (m : Memory) (a : Asked) : Option Exchange × Memory :=
  let m := { m with now := a.uptime }
  match a.request with
  | .set key fields expiry =>
    let (answer, m) := m.set key fields expiry
    (some (.set key fields expiry (answer.mapError .cache)), m)
  | .get key =>
    let (answer, m) := m.get key
    (some (.get key (.ok answer)), m)
  | .purge => (none, m)

/-- The entries of a store as slots. -/
def slots (m : Memory) : Slots := fun key =>
  m.entries[key]?.map fun e => (e.fields, (e.expires.nanoseconds : Int))

theorem slots_empty (uptime : Duration) (key : String) : slots (.empty uptime) key = none := rfl

variable {m : Memory} {a : Asked} {key other : String}

theorem get_fst (m : Memory) (a : Asked) (key : String) :
    (get { m with now := a.uptime } key).1 = timer.read a (m.slots key) := by
  unfold get slots
  cases m.entries[key]? with
  | none => rfl
  | some e =>
    change (if e.expires.nanoseconds ≤ a.uptime.nanoseconds then _ else _ : _ × Memory).1 =
      if (a.uptime.nanoseconds : Int) < e.expires.nanoseconds then some e.fields else none
    split_ifs <;> first | rfl | omega

/-- Reading drops the entry that is read if nothing is found, and leaves all others as they are. -/
theorem getElem?_get (m : Memory) (key other : String) :
    (m.get key).2.entries[other]? =
      if other = key ∧ (m.get key).1 = none then none else m.entries[other]? := by
  unfold get
  cases entry : m.entries[key]? with
  | none =>
    split_ifs with dropped
    · rw [dropped.1, entry]
    · rfl
  | some e =>
    by_cases ended : e.expires.nanoseconds ≤ m.now.nanoseconds
    · simp [ended, Std.TreeMap.getElem?_erase, eq_comm (a := other)]
    · simp [ended]

theorem mem_get (m : Memory) (key other : String) :
    other ∈ (m.get key).2.entries ↔ ¬(other = key ∧ (m.get key).1 = none) ∧ other ∈ m.entries := by
  rw [Std.TreeMap.mem_iff_isSome_getElem?, Std.TreeMap.mem_iff_isSome_getElem?, getElem?_get]
  split_ifs with dropped
  · simp [dropped]
  · rw [and_iff_right dropped]

theorem drops_get (m : Memory) (a : Asked) (key : String) :
    timer.Drops a m.slots (get { m with now := a.uptime } key).2.slots := by
  intro other
  unfold slots
  rw [getElem?_get, get_fst]
  split_ifs with dropped
  · obtain ⟨rfl, ended⟩ := dropped
    exact .inr ⟨rfl, ended⟩
  · exact .inl rfl

theorem serves (m : Memory) (a : Asked) :
    timer.Serves a m.slots (m.exchange a).1 (m.exchange a).2.slots := by
  unfold exchange
  cases request : a.request with
  | set key fields expiry =>
    simp only [set]
    split
    case isTrue accepted =>
      have slots : slots ⟨a.uptime, m.entries.insert key ⟨fields, a.uptime + expiry⟩⟩ =
          Function.update m.slots key (some (fields, timer.now a + timer.span expiry)) :=
        funext fun other => map_getElem?_insert ..
      rw [slots]
      exact .kept request accepted
    case isFalse refused => exact .refused request (Bool.not_eq_true _ ▸ refused)
  | get key =>
    simp only [get_fst]
    exact .found request (drops_get m a key)
  | purge => exact .purged request (fun _ => .inl rfl) (by simp)

/-- The store is not asked to purge. -/
theorem filter_exchange (m : Memory) (a : Asked) :
    (m.exchange a).1.toList.filter (!·.isPurge) = (m.exchange a).1.toList := by
  unfold exchange
  cases a.request <;> rfl

/-- The store holds the keys that can be told to be held. -/
theorem mem_iff_held (start : Duration) (history : List Asked) (key : String) :
    key ∈ (course exchange (empty start) history).store.entries ↔
      key ∈ held (course exchange (empty start) history).said := by
  induction history using List.reverseRecOn with
  | nil => simp [course, empty, held]
  | append_singleton past a ih =>
    rw [course_append]
    generalize course exchange (empty start) past = c at ih ⊢
    unfold Course.next exchange
    cases request : a.request with
    | set here fields expiry =>
      simp only [set]
      split
      · change _ ↔ key ∈ held (c.said ++ [_])
        rw [held_append, Std.TreeMap.mem_insert, ih, Std.compare_eq_iff_eq, eq_comm]
        exact Finset.mem_insert.symm
      · change _ ↔ key ∈ held (c.said ++ [_])
        rw [held_append, ih]
        rfl
    | get here =>
      change key ∈ (get _ here).2.entries ↔ key ∈ held (c.said ++ [_])
      rw [held_append, mem_get, ih]
      cases (get { c.store with now := a.uptime } here).1 with
      | none => simp [Exchange.hold]
      | some _ => simp [Exchange.hold]
    | purge => simpa using ih

/-- As many entries are there as keys can be told to be held. -/
theorem size_course (start : Duration) (history : List Asked) :
    (course exchange (empty start) history).store.size =
      (held (course exchange (empty start) history).said).card := by
  have keys : held (course exchange (empty start) history).said =
      (course exchange (empty start) history).store.entries.keys.toFinset := by
    ext key
    rw [← mem_iff_held, List.mem_toFinset, Std.TreeMap.mem_keys]
  rw [keys, List.toFinset_card_of_nodup Std.TreeMap.nodup_keys, Std.TreeMap.length_keys, size]

end Memory

/-! ## In rows -/

/-- A map is as large as a list of its keys, each once, is long. -/
theorem map_size_eq_length {α : Type} {map : Std.TreeMap String α} {keys : List String}
    (nodup : keys.Nodup) (same : ∀ key, key ∈ map ↔ key ∈ keys) : map.size = keys.length := by
  rw [← Std.TreeMap.length_keys]
  refine List.Perm.length_eq ((List.perm_ext_iff_of_nodup Std.TreeMap.nodup_keys nodup).2 fun key => ?_)
  rw [Std.TreeMap.mem_keys, same]

/-- As many values are left in a map as its keys have values that pass. -/
theorem map_size_filter {α : Type} (map : Std.TreeMap String α) (p : String → α → Bool) :
    (map.filter p).size = (map.keys.filter fun key => map[key]?.any (p key)).length := by
  refine map_size_eq_length (Std.TreeMap.nodup_keys.filter _) fun key => ?_
  rw [List.mem_filter, Std.TreeMap.mem_keys, Std.TreeMap.mem_iff_isSome_getElem?,
    Std.TreeMap.mem_iff_isSome_getElem?, Std.TreeMap.getElem?_filter']
  cases map[key]? with
  | none => simp
  | some value => simp [Option.isSome_filter]

namespace Rows

/-- The clock of a store of rows counts milliseconds. -/
def timer : Timer where
  now a := a.date
  span expiry := expiry.milliseconds
  accepts a expiry := isTime expiry.milliseconds && isTime (a.date + expiry.milliseconds)

/-- What a store of rows answers to a request. -/
def exchange (r : Rows) (a : Asked) : Option Exchange × Rows :=
  let r := { r with now := a.date }
  match a.request with
  | .set key fields expiry =>
    let (answer, r) := r.set key fields expiry
    (some (.set key fields expiry (answer.mapError .cache)), r)
  | .get key => (some (.get key (.ok (r.get key))), r)
  | .purge =>
    let (removed, r) := r.purge
    (some (.purge removed), r)

/-- The rows of a store as slots. -/
def slots (r : Rows) : Slots := fun key =>
  r.rows[key]?.map fun row => (row.fields, row.expires)

theorem slots_empty (date : Int) (key : String) : slots (.empty date) key = none := rfl

theorem get_eq_bind (r : Rows) (key : String) :
    r.get key = r.rows[key]?.bind fun row => if r.now < row.expires then some row.fields else none := by
  unfold get isLive
  cases r.rows[key]? with
  | none => rfl
  | some row => simp

theorem get_eq_read (r : Rows) (a : Asked) (key : String) :
    get { r with now := a.date } key = timer.read a (r.slots key) := by
  rw [get_eq_bind, slots, Timer.read, Option.bind_map]
  rfl

/-- A purge removes the rows that are not read any more, and no others. -/
theorem drops_purge (r : Rows) (a : Asked) :
    timer.Drops a r.slots (purge { r with now := a.date }).2.slots := by
  intro key
  change (r.rows.filter _)[key]?.map _ = _ ∨ (r.rows.filter _)[key]?.map _ = none ∧ _
  rw [Std.TreeMap.getElem?_filter']
  unfold slots
  cases r.rows[key]? with
  | none => exact .inl rfl
  | some row =>
    by_cases live : a.date < row.expires
    · simp [isLive, live, Option.filter]
    · simp [isLive, live, Option.filter, Timer.read, timer]

theorem serves (r : Rows) (a : Asked) :
    timer.Serves a r.slots (r.exchange a).1 (r.exchange a).2.slots := by
  unfold exchange
  cases request : a.request with
  | set key fields expiry =>
    simp only [set]
    split
    case isTrue accepted =>
      have slots : slots ⟨a.date, r.rows.insert key ⟨fields, a.date + expiry.milliseconds⟩⟩ =
          Function.update r.slots key (some (fields, timer.now a + timer.span expiry)) :=
        funext fun other => map_getElem?_insert ..
      rw [slots]
      exact .kept request accepted
    case isFalse refused => exact .refused request (Bool.not_eq_true _ ▸ refused)
  | get key =>
    simp only [get_eq_read]
    exact .found request fun _ => .inl rfl
  | purge => exact .purged request (drops_purge r a) (by simp [Exchange.isPurge])

/-- A purge counts the rows that are not read any more. -/
theorem purge_fst (r : Rows) :
    r.purge.1 = (r.rows.keys.filter fun key => (r.get key).isNone).length := by
  have live : (fun key => r.rows[key]?.any fun row => r.isLive row) =
      fun key => !(r.get key).isNone := by
    funext key
    rw [get_eq_bind]
    cases r.rows[key]? with
    | none => rfl
    | some row => by_cases live : r.now < row.expires <;> simp [isLive, live]
  have all := List.length_eq_length_filter_add (l := r.rows.keys) fun key => (r.get key).isNone
  rw [purge, map_size_filter, live, ← Std.TreeMap.length_keys]
  omega

/-- A purge changes nothing that is read at its time or later. -/
theorem get_purge (r : Rows) {later : Int} (forward : r.now ≤ later) (key : String) :
    get { r.purge.2 with now := later } key = get { r with now := later } key := by
  rw [get_eq_bind, get_eq_bind, purge, Std.TreeMap.getElem?_filter']
  cases r.rows[key]? with
  | none => rfl
  | some row =>
    by_cases live : r.now < row.expires
    · simp [isLive, live, Option.filter]
    · have ended : ¬later < row.expires := fun early => live (forward.trans_lt early)
      simp [isLive, live, ended, Option.filter]

end Rows

end MarketMaker.Cache
