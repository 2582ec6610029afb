import MarketMaker.Proofs.TextRows

/-!
# Stores that are interchangeable

A store in memory and a store of rows are asked the same, each on its own clock, which does not run
backwards. They answer alike exactly if whatever is asked for has run out by both clocks or by neither
(`Cache.alike_iff`). That need not be so: a store of rows counts whole milliseconds of the date, and what
is to be kept for less than one is over for it at once (`Cache.differ_within_millisecond`); if the date is
set back, even what was over is there again (`Cache.differ_when_set_back`). It is so where whatever is to
be kept for some time is kept beyond the last request, with a millisecond to spare, or refused by both
(`Cache.interchangeable`); then what they answer can be told from what was said alone. They differ in what
becomes of fields that are kept for no time at all: one drops them when they are asked for, the other when
it is told to purge, and neither shows in any answer.
-/

namespace MarketMaker.Cache

/-! ## Histories -/

/-- Neither clock runs backwards from request to request. -/
def Onward (history : List Asked) : Prop :=
  history.Pairwise fun a b => a.uptime.nanoseconds ≤ b.uptime.nanoseconds ∧ a.instant ≤ b.instant

/-- Whatever is to be kept is accepted by both stores or refused by both. -/
def AcceptedAlike (history : List Asked) : Prop :=
  ∀ a ∈ history, ∀ expiry ∈ a.expiry?,
    Memory.timer.accepts a expiry = Rows.timer.accepts a expiry

/-- Whatever is asked for, if it was ever accepted, has run out by both clocks or by neither. -/
def ExpiresAlike (history : List Asked) : Prop :=
  ∀ past b later, history = past ++ b :: later → ∀ key, b.request = .get key →
    ∀ k, Memory.timer.lastAccepted? past key = some k →
      (b.uptime.nanoseconds < k.asked.uptime.nanoseconds + k.expiry.nanoseconds ↔
        b.date < k.asked.date + k.expiry.milliseconds)

/-- How a span of time for which something is to be kept stands to the requests behind. -/
inductive Asked.Stands (a : Asked) (later : List Asked) (expiry : Duration) : Prop where
  /-- It is over from the start. -/
  | ended (zero : expiry = .zero)
      (uptime : Memory.isTime a.uptime = true) (date : Rows.isTime a.date = true)
  /-- It ends at a time that both stores can tell, behind all requests; by the date a millisecond behind
  them, even when it is cut to whole milliseconds. -/
  | lasting (some : expiry ≠ .zero)
      (memory : Memory.timer.accepts a expiry = true) (rows : Rows.timer.accepts a expiry = true)
      (uptime : ∀ b ∈ later,
        b.uptime.nanoseconds < a.uptime.nanoseconds + expiry.nanoseconds)
      (instant : ∀ b ∈ later, b.instant + 1000000 ≤ a.instant + 1000000 * expiry.milliseconds)
  /-- It ends at a time that neither store can tell. -/
  | refused (memory : Memory.timer.accepts a expiry = false)
      (rows : Rows.timer.accepts a expiry = false)

/-- Neither clock runs backwards, and whatever is to be kept is over from the start, lasts beyond the last
request or is refused by both stores. -/
inductive Settled : List Asked → Prop where
  | nil : Settled []
  | cons {a : Asked} {later : List Asked}
      (onward : ∀ b ∈ later, a.uptime.nanoseconds ≤ b.uptime.nanoseconds ∧ a.instant ≤ b.instant)
      (stands : ∀ expiry ∈ a.expiry?, a.Stands later expiry)
      (rest : Settled later) : Settled (a :: later)

theorem date_le_date {a b : Asked} (onward : a.instant ≤ b.instant) : a.date ≤ b.date :=
  Int.ediv_le_ediv (by decide) onward

namespace Onward

variable {history : List Asked}

theorem memory (onward : Onward history) : Memory.timer.Forward history :=
  List.Pairwise.imp (fun h => Int.ofNat_le.2 h.1) onward

theorem rows (onward : Onward history) : Rows.timer.Forward history :=
  List.Pairwise.imp (fun h => date_le_date h.2) onward

end Onward

namespace Settled

variable {history : List Asked}

theorem onward (settled : Settled history) : Onward history := by
  induction settled with
  | nil => exact .nil
  | cons onward _ _ ih => exact .cons onward ih

theorem memory (settled : Settled history) : Memory.timer.Parts history := by
  induction settled with
  | nil => exact .nil
  | @cons a later onward stands rest ih =>
    refine .cons (fun b member expiry asked accepted => ?_) ih
    change (b.uptime.nanoseconds : Int) < a.uptime.nanoseconds + expiry.nanoseconds ↔ _
    cases stands expiry asked with
    | ended zero =>
      obtain ⟨forward, _⟩ := onward b member
      subst zero
      simpa [Duration.zero] using forward
    | lasting some _ _ uptime =>
      exact iff_of_true (by exact_mod_cast uptime b member) some
    | refused memory => exact absurd accepted (by simp [memory])

/-- What has a millisecond to spare by the date is not over in whole milliseconds of it. -/
theorem date_lt_of_instant {a b : Asked} {span : Nat}
    (instant : b.instant + 1000000 ≤ a.instant + 1000000 * span) : b.date < a.date + span := by
  unfold Asked.date
  omega

theorem rows (settled : Settled history) : Rows.timer.Parts history := by
  induction settled with
  | nil => exact .nil
  | @cons a later onward stands rest ih =>
    refine .cons (fun b member expiry asked accepted => ?_) ih
    change b.date < a.date + expiry.milliseconds ↔ _
    cases stands expiry asked with
    | ended zero =>
      have forward := date_le_date (onward b member).2
      subst zero
      simpa [Duration.zero, Duration.milliseconds] using forward
    | lasting some _ _ _ instant =>
      exact iff_of_true (date_lt_of_instant (instant b member)) some
    | refused _ rows => exact absurd accepted (by simp [rows])

theorem acceptedAlike (settled : Settled history) : AcceptedAlike history := by
  induction settled with
  | nil => exact fun a member => absurd member List.not_mem_nil
  | @cons a later onward stands rest ih =>
    refine List.forall_mem_cons.2 ⟨fun expiry asked => ?_, ih⟩
    cases stands expiry asked with
    | ended zero uptime date =>
      have memory : Memory.timer.accepts a expiry = true := by rw [zero]; exact uptime
      have rows : Rows.timer.accepts a expiry = true := by
        rw [zero]
        change (Rows.isTime 0 && Rows.isTime (a.date + 0)) = true
        rw [Int.add_zero, date]
        rfl
      rw [memory, rows]
    | lasting _ memory rows => rw [memory, rows]
    | refused memory rows => rw [memory, rows]

theorem expiresAlike (settled : Settled history) : ExpiresAlike history := by
  rintro past b later rfl key request k last
  obtain ⟨member, asked, accepted⟩ := Timer.asked_of_lastAccepted? last
  have accepted' := accepted
  rw [settled.acceptedAlike _ (List.mem_append_left _ member) _ asked] at accepted'
  have memory := (List.pairwise_append.1 settled.memory).2.2 _ member b List.mem_cons_self _ asked
    accepted
  have rows := (List.pairwise_append.1 settled.rows).2.2 _ member b List.mem_cons_self _ asked
    accepted'
  exact Int.ofNat_lt.symm.trans (memory.trans rows.symm)

end Settled

/-! ## When the answers are the same -/

/-- Every set and every get has the same answer in memory as in rows. -/
def Alike (uptime : Duration) (date : Int) (history : List Asked) : Prop :=
  (course Memory.exchange (.empty uptime) history).said =
    (course Rows.exchange (.empty date) history).said.filter (!·.isPurge)

theorem forall_split_append {α : Type} {P : List α → α → Prop} {past : List α} {b : α} :
    (∀ before c later, past ++ [b] = before ++ c :: later → P before c) ↔
      (∀ before c later, past = before ++ c :: later → P before c) ∧ P past b := by
  constructor
  · exact fun all => ⟨fun before c later split => all before c (later ++ [b]) (by simp [split]),
      all past b [] rfl⟩
  · rintro ⟨all, last⟩ before c later split
    rcases List.eq_nil_or_concat later with rfl | ⟨later, b', rfl⟩
    · obtain ⟨rfl, same⟩ := List.append_inj' split rfl
      exact List.head_eq_of_cons_eq same ▸ last
    · rw [List.concat_eq_append, ← List.cons_append, ← List.append_assoc] at split
      exact all before c later (List.append_inj' split rfl).1

/-- The answers are the same if the right answers are, request by request. -/
theorem alike_iff_answers {uptime : Duration} {date : Int} {history : List Asked}
    (onward : Onward history) :
    Alike uptime date history ↔ ∀ past b later, history = past ++ b :: later →
      Memory.timer.answer? past b = Rows.timer.answer? past b := by
  induction history using List.reverseRecOn with
  | nil => simp [Alike, course]
  | append_singleton past b ih =>
    have memory := Timer.serve_course Memory.serves (Memory.slots_empty uptime) onward.memory
    have rows := Timer.serve_course Rows.serves (Rows.slots_empty date) onward.rows
    have size : (Memory.timer.answer? past b).toList.length =
        (Rows.timer.answer? past b).toList.length := by
      unfold Timer.answer?
      cases b.request <;> rfl
    rw [Memory.filter_exchange] at memory
    rw [forall_split_append, ← ih (List.pairwise_append.1 onward).1, Alike, Alike, course_append,
      course_append, Course.next, Course.next, List.filter_append, memory, rows]
    constructor
    · intro same
      obtain ⟨before, last⟩ := List.append_inj' same size
      exact ⟨before, by simpa using congrArg List.head? last⟩
    · rintro ⟨before, last⟩
      rw [before, last]

theorem lastAccepted?_congr {t t' : Timer} {past : List Asked}
    (accepts : ∀ a ∈ past, ∀ expiry ∈ a.expiry?, t.accepts a expiry = t'.accepts a expiry)
    (key : String) : t.lastAccepted? past key = t'.lastAccepted? past key := by
  unfold Timer.lastAccepted?
  congr 1
  refine List.filterMap_congr fun a member => ?_
  unfold Timer.accepted?
  cases request : a.request with
  | set here fields expiry =>
    simp only [accepts a member expiry (by rw [Asked.expiry?, request]; rfl)]
  | get => rfl
  | purge => rfl

/-- The right answers of two stores that accept the same differ only where something has run out for one
of them. -/
theorem answer?_eq_iff {t t' : Timer} {past : List Asked} {b : Asked}
    (accepts : ∀ a ∈ past ++ [b], ∀ expiry ∈ a.expiry?, t.accepts a expiry = t'.accepts a expiry) :
    t.answer? past b = t'.answer? past b ↔ ∀ key, b.request = .get key →
      ∀ k, t.lastAccepted? past key = some k → (t.IsLive k b ↔ t'.IsLive k b) := by
  obtain ⟨before, here⟩ := List.forall_mem_append.1 accepts
  unfold Timer.answer?
  cases request : b.request with
  | set key fields expiry =>
    simp [here b List.mem_cons_self expiry (by rw [Asked.expiry?, request]; rfl)]
  | purge => simp
  | get key =>
    have due : t.due past b key = t'.due past b key ↔
        ∀ k, t.lastAccepted? past key = some k → (t.IsLive k b ↔ t'.IsLive k b) := by
      unfold Timer.due
      rw [← lastAccepted?_congr before]
      cases t.lastAccepted? past key with
      | none => simp
      | some k => by_cases live : t.IsLive k b <;> by_cases live' : t'.IsLive k b <;> simp [live, live']
    simp [due]

/-- **When stores answer alike.** If the clocks do not run backwards and both stores accept the same, they
give the same answers just if whatever is asked for has run out by both clocks or by neither. -/
theorem alike_iff {uptime : Duration} {date : Int} {history : List Asked} (onward : Onward history)
    (accepted : AcceptedAlike history) : Alike uptime date history ↔ ExpiresAlike history := by
  rw [alike_iff_answers onward, ExpiresAlike]
  refine forall_congr' fun past => forall_congr' fun b => forall_congr' fun later =>
    forall_congr' fun split => ?_
  have accepts : ∀ a ∈ past ++ [b], ∀ expiry ∈ a.expiry?,
      Memory.timer.accepts a expiry = Rows.timer.accepts a expiry := by
    have sub : (past ++ [b]).Sublist history := by simp [split]
    exact fun a member => accepted a (sub.subset member)
  rw [answer?_eq_iff accepts]
  refine forall_congr' fun key => forall_congr' fun request => forall_congr' fun k =>
    forall_congr' fun last => ?_
  exact iff_congr Int.ofNat_lt Iff.rfl

/-! ## Stores in place of each other -/

/-- What two stores, and one whose rows hold texts, have in common once they were asked the same. -/
structure Interchangeable (uptime : Duration) (date : Int) (history : List Asked) : Prop where
  alike : Alike uptime date history
  /-- Rows that hold texts answer as rows that hold fields do. -/
  texts : (course TextRows.exchange (.empty date) history).said =
    (course Rows.exchange (.empty date) history).said
  memory : Sound (course Memory.exchange (.empty uptime) history).said
  rows : Sound (course Rows.exchange (.empty date) history).said
  /-- A purge counts the rows under whose keys nothing is read, and changes nothing that is read
  then or later. -/
  purged : ∀ past a later, history = past ++ a :: later → a.request = .purge →
    let r : Rows := { (course Rows.exchange (.empty date) past).store with now := a.date }
    (r.exchange a).1 = some (.purge (r.rows.keys.filter fun key => (r.get key).isNone).length) ∧
      ∀ now, a.date ≤ now → ∀ key,
        Rows.get { (r.exchange a).2 with now } key = Rows.get { r with now } key
  /-- As many entries are in memory as keys were set with success and not dropped since by a get that
  found nothing. -/
  size : (course Memory.exchange (.empty uptime) history).store.size =
    (held (course Memory.exchange (.empty uptime) history).said).card

/-- **Stores are interchangeable.** A new store in memory and a new store of rows are asked to keep any
fields under any keys, by clocks that do not run backwards. If both accept the same, they give the same
answers just if whatever is asked for has run out by both clocks or by neither. If all is to be kept for
no time at all, for a time that has not passed when the last request comes, by the date with a millisecond
to spare, and whose end both can tell, or for one whose end neither can tell, then both answer every set
and every get alike, and so do rows that hold the fields as texts. A get gives the fields of the last set
of its key that succeeded, if they were to be kept for some time, and nothing otherwise; a set that is
refused is refused for its time and changes nothing that can be read. A purge counts the rows that are not
read any more, and changes nothing that is read. In memory there are as many entries as keys that were set
with success and not dropped since by a get that found them expired. -/
theorem interchangeable (uptime : Duration) (date : Int) (history : List Asked) :
    (Onward history → AcceptedAlike history →
      (Alike uptime date history ↔ ExpiresAlike history)) ∧
    (Settled history → Interchangeable uptime date history) := by
  refine ⟨alike_iff, fun settled => ?_⟩
  constructor
  case alike => exact (alike_iff settled.onward settled.acceptedAlike).2 settled.expiresAlike
  case texts => exact TextRows.course_said date history
  case memory =>
    exact Timer.sound_course Memory.serves (Memory.slots_empty uptime) settled.onward.memory
      settled.memory
  case rows =>
    exact Timer.sound_course Rows.serves (Rows.slots_empty date) settled.onward.rows settled.rows
  case purged =>
    intro past a later _ request r
    rw [← Rows.purge_fst]
    unfold Rows.exchange
    rw [request]
    exact ⟨rfl, fun now forward key => r.get_purge forward key⟩
  case size => exact Memory.size_course uptime history

end MarketMaker.Cache

namespace MarketMaker

namespace Sample

/-- The fields under a key at first. -/
def firstFields : Cache.Fields := .ofList [("bid", "99.5")]

/-- The fields that are put in their place. -/
def nextFields : Cache.Fields := .ofList [("ask", "\"1\\"), ("bid", "99")]

/-- The longest duration of the clocks that are set by seconds of a word. -/
def ages : Duration := .ofParts 18446744073709551615 999999999

/-- Fields are kept, replaced, kept for no time at all and asked for, kept again for too long, and purged. -/
def requests : List Cache.Asked :=
  [⟨.set "a" firstFields (.ofParts 60 0), .ofParts 10 0, 5000000000⟩,
    ⟨.set "a" nextFields (.ofParts 3600 0), .ofParts 11 0, 6000000000⟩,
    ⟨.set "b" firstFields .zero, .ofParts 12 0, 7000000000⟩,
    ⟨.get "b", .ofParts 12 0, 7000000000⟩,
    ⟨.set "a" firstFields ages, .ofParts 13 0, 8000000000⟩,
    ⟨.purge, .ofParts 14 0, 9000000000⟩,
    ⟨.get "a", .ofParts 15 0, 10000000000⟩]

/-- Fields are to be kept for almost a millisecond, and are asked for when a tenth of it has passed. -/
def briefRequests : List Cache.Asked :=
  [⟨.set "a" firstFields ⟨999999⟩, .ofParts 10 0, 5000000000⟩,
    ⟨.get "a", .ofParts 10 100000, 5000100000⟩]

/-- Fields are to be kept for no time at all, and are asked for when the date has been set back. -/
def backwardRequests : List Cache.Asked :=
  [⟨.set "a" firstFields .zero, .ofParts 10 0, 5000000000⟩,
    ⟨.get "a", .ofParts 10 100000, 4999000000⟩]

end Sample

/-- What is kept for less than a millisecond is still to be read in memory when the rows have lost it: its
time has come by neither clock, both stores accept it, and they answer differently. -/
theorem Cache.differ_within_millisecond :
    Onward Sample.briefRequests ∧ AcceptedAlike Sample.briefRequests ∧
    (∃ a b, Sample.briefRequests = [a, b] ∧ ∀ expiry ∈ a.expiry?, expiry ≠ .zero ∧
      Memory.timer.accepts a expiry = true ∧ Rows.timer.accepts a expiry = true ∧
      b.uptime.nanoseconds < a.uptime.nanoseconds + expiry.nanoseconds ∧
      b.instant < a.instant + expiry.nanoseconds) ∧
    (course Memory.exchange (.empty (.ofParts 10 0)) Sample.briefRequests).said =
      [.set "a" Sample.firstFields ⟨999999⟩ (.ok ()), .get "a" (.ok (some Sample.firstFields))] ∧
    (course Rows.exchange (.empty 5000) Sample.briefRequests).said =
      [.set "a" Sample.firstFields ⟨999999⟩ (.ok ()), .get "a" (.ok none)] ∧
    ¬ Alike (.ofParts 10 0) 5000 Sample.briefRequests := by
  have memory : (course Memory.exchange (.empty (.ofParts 10 0)) Sample.briefRequests).said =
      [.set "a" Sample.firstFields ⟨999999⟩ (.ok ()),
        .get "a" (.ok (some Sample.firstFields))] := by
    rfl
  have rows : (course Rows.exchange (.empty 5000) Sample.briefRequests).said =
      [.set "a" Sample.firstFields ⟨999999⟩ (.ok ()), .get "a" (.ok none)] := by
    rfl
  refine ⟨by unfold Onward; decide, ?_, ⟨_, _, rfl, ?_⟩, memory, rows, ?_⟩
  · rintro a member expiry asked
    simp only [Sample.briefRequests, List.mem_cons, List.not_mem_nil, or_false] at member
    obtain rfl | rfl := member
    · obtain rfl := Option.some.inj asked
      decide
    · exact absurd asked (by simp [Asked.expiry?])
  · rintro _ ⟨⟩
    decide
  · rw [Alike, memory, rows]
    simp [Exchange.isPurge]

/-- What was kept for no time at all is to be read from the rows once the date has been set back. -/
theorem Cache.differ_when_set_back :
    (∀ a ∈ Sample.backwardRequests, ∀ expiry ∈ a.expiry?, expiry = .zero) ∧
    (course Memory.exchange (.empty (.ofParts 10 0)) Sample.backwardRequests).said =
      [.set "a" Sample.firstFields .zero (.ok ()), .get "a" (.ok none)] ∧
    (course Rows.exchange (.empty 5000) Sample.backwardRequests).said =
      [.set "a" Sample.firstFields .zero (.ok ()), .get "a" (.ok (some Sample.firstFields))] := by
  refine ⟨?_, rfl, rfl⟩
  simp only [Sample.backwardRequests, List.mem_cons, List.not_mem_nil, or_false]
  rintro _ (rfl | rfl) _ ⟨⟩
  rfl

/-- Fields are replaced, kept for no time at all, refused and purged, and both stores answer the same. -/
theorem Cache.interchangeable_sample :
    (Onward Sample.requests ∧ AcceptedAlike Sample.requests ∧
      (Alike (.ofParts 10 0) 5000 Sample.requests ↔ ExpiresAlike Sample.requests)) ∧
    Settled Sample.requests ∧ Interchangeable (.ofParts 10 0) 5000 Sample.requests := by
  have settled : Settled Sample.requests := by
    refine .cons (by decide) ?_ (.cons (by decide) ?_ (.cons (by decide) ?_ (.cons (by decide) ?_
      (.cons (by decide) ?_ (.cons (by decide) ?_ (.cons (by decide) ?_ .nil))))))
    · rintro _ ⟨⟩
      exact .lasting (by decide) (by decide) (by decide) (by decide) (by decide)
    · rintro _ ⟨⟩
      exact .lasting (by decide) (by decide) (by decide) (by decide) (by decide)
    · rintro _ ⟨⟩
      exact .ended rfl (by decide) (by decide)
    · rintro _ ⟨⟩
    · rintro _ ⟨⟩
      exact .refused (by decide) (by decide)
    · rintro _ ⟨⟩
    · rintro _ ⟨⟩
  obtain ⟨criterion, answers⟩ := interchangeable (.ofParts 10 0) 5000 Sample.requests
  have onward := settled.onward
  have accepted := settled.acceptedAlike
  exact ⟨⟨onward, accepted, criterion onward accepted⟩, settled, answers settled⟩

end MarketMaker
