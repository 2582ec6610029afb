import MarketMaker.Proofs.Cached
import MarketMaker.Proofs.Decimal.Spelling

/-!
# Reading cached ticks

A tick is read from its fields if each of its parts has a field, and the text there is a spelling of
the part. Else the first part of which this does not hold is the fault, whatever stands under the names
of the later ones (`Cache.told_tickOfFields`). Other fields do not matter, and what was read in one
spelling is written in another that reads the same (`Cache.ticks_read_exactly`).
-/

namespace MarketMaker.Cache

open Plain (FloatText WordText SignedText)

/-! ## The parts of a tick -/

/-- A part of what is cached: the name of its field, and the texts that spell it. -/
structure Part where
  name : String
  spelled : List Char → Prop

/-- The parts of a tick, in the order in which they are looked at. -/
def tickParts : List Part :=
  [⟨"bid", fun cs => ∃ x, FloatText x cs⟩, ⟨"ask", fun cs => ∃ x, FloatText x cs⟩,
    ⟨"bid_size", fun cs => ∃ n, WordText n cs⟩, ⟨"ask_size", fun cs => ∃ n, WordText n cs⟩,
    ⟨"timestamp", fun cs => ∃ n, SignedText n cs⟩]

/-- A part is there, and spelled as it has to be. -/
def Part.ReadableIn (p : Part) (fields : Fields) : Prop :=
  ∃ text, fields.find? p.name = some text ∧ p.spelled text.toList

/-- The fault of a part that is not readable, by its name: there is no field, or it is malformed. -/
def Part.faultIn (p : Part) (fields : Fields) : CacheFault :=
  match fields.find? p.name with
  | none => .missing p.name
  | some _ => .malformed p.name

/-- The fault of the first of some parts that is not readable. -/
inductive FirstUnreadable (fields : Fields) : CacheFault → List Part → Prop where
  | here {p : Part} (unreadable : ¬p.ReadableIn fields) (rest : List Part) :
      FirstUnreadable fields (p.faultIn fields) (p :: rest)
  | later {p : Part} {rest : List Part} {fault : CacheFault} (readable : p.ReadableIn fields)
      (first : FirstUnreadable fields fault rest) : FirstUnreadable fields fault (p :: rest)

variable {α β : Type} {fields fields' : Fields} {parts : List Part} {fault fault' : CacheFault}

namespace FirstUnreadable

theorem exists_unreadable (h : FirstUnreadable fields fault parts) :
    ∃ p ∈ parts, ¬p.ReadableIn fields := by
  induction h with
  | here unreadable rest => exact ⟨_, List.mem_cons_self, unreadable⟩
  | later _ _ ih =>
    obtain ⟨p, member, unreadable⟩ := ih
    exact ⟨p, List.mem_cons_of_mem _ member, unreadable⟩

theorem unique (h : FirstUnreadable fields fault parts) (h' : FirstUnreadable fields fault' parts) :
    fault = fault' := by
  induction h with
  | here unreadable rest =>
    cases h' with
    | here => rfl
    | later readable => exact absurd readable unreadable
  | later readable _ ih =>
    cases h' with
    | here unreadable => exact absurd readable unreadable
    | later _ first => exact ih first

end FirstUnreadable

/-! ## Reading parts one after the other -/

/-- What reading some parts comes to: a value where all are readable, and else the fault of the first
that is not. -/
def Told (fields : Fields) (parts : List Part) : Except CacheFault α → Prop
  | .ok _ => ∀ p ∈ parts, p.ReadableIn fields
  | .error fault => FirstUnreadable fields fault parts

/-- A field is missing, malformed or read. -/
theorem field_cases (fields : Fields) (read : String → Option α) (name : String) :
    (fields.find? name = none ∧ field fields read name = .error (.missing name)) ∨
    (∃ text, fields.find? name = some text ∧ read text = none ∧
      field fields read name = .error (.malformed name)) ∨
    ∃ text value, fields.find? name = some text ∧ read text = some value ∧
      field fields read name = .ok value := by
  unfold field
  cases fields.find? name with
  | none => exact .inl ⟨rfl, rfl⟩
  | some text =>
    cases taken : read text with
    | none => exact .inr (.inl ⟨text, rfl, taken, by simp only [taken]⟩)
    | some value => exact .inr (.inr ⟨text, value, rfl, taken, by simp only [taken]⟩)

namespace Told

variable {result : Except CacheFault α}

/-- A part in front of others, read by a reader that takes its spellings. -/
theorem bind {p : Part} {read : String → Option α} {rest : α → Except CacheFault β}
    (reads : ∀ text, p.spelled text.toList ↔ ∃ value, read text = some value)
    (h : ∀ value, Told fields parts (rest value)) :
    Told fields (p :: parts) (field fields read p.name >>= rest) := by
  rcases field_cases fields read p.name with
    ⟨absent, first⟩ | ⟨text, there, misread, first⟩ | ⟨text, value, there, taken, first⟩
  · have unreadable : ¬p.ReadableIn fields := by
      rintro ⟨text, there, _⟩
      exact absurd (absent.symm.trans there) (by simp)
    have fault : p.faultIn fields = .missing p.name := by simp only [Part.faultIn, absent]
    rw [first]
    exact fault ▸ FirstUnreadable.here unreadable parts
  · have unreadable : ¬p.ReadableIn fields := by
      rintro ⟨text', there', spelled⟩
      obtain rfl := Option.some.inj (there.symm.trans there')
      obtain ⟨value, taken⟩ := (reads text).1 spelled
      exact absurd (misread.symm.trans taken) (by simp)
    have fault : p.faultIn fields = .malformed p.name := by simp only [Part.faultIn, there]
    rw [first]
    exact fault ▸ FirstUnreadable.here unreadable parts
  · have readable : p.ReadableIn fields := ⟨text, there, (reads text).2 ⟨value, taken⟩⟩
    have behind := h value
    rw [first]
    change Told fields (p :: parts) (rest value)
    cases made : rest value with
    | ok result =>
      rw [made] at behind
      exact List.forall_mem_cons.2 ⟨readable, behind⟩
    | error fault =>
      rw [made] at behind
      exact .later readable behind

theorem exists_ok_iff (h : Told fields parts result) :
    (∃ value, result = .ok value) ↔ ∀ p ∈ parts, p.ReadableIn fields := by
  cases result with
  | ok value => exact iff_of_true ⟨value, rfl⟩ h
  | error fault =>
    obtain ⟨p, member, unreadable⟩ := FirstUnreadable.exists_unreadable h
    exact iff_of_false (by simp) fun all => unreadable (all p member)

theorem error_iff (h : Told fields parts result) :
    result = .error fault ↔ FirstUnreadable fields fault parts := by
  cases result with
  | ok value =>
    refine iff_of_false (by simp) fun first => ?_
    obtain ⟨p, member, unreadable⟩ := first.exists_unreadable
    exact unreadable (h p member)
  | error own =>
    constructor
    · intro same
      obtain rfl := Except.error.inj same
      exact h
    · intro first
      rw [FirstUnreadable.unique h first]

end Told

/-- A tick is told by its parts. -/
theorem told_tickOfFields (symbol : String) (fields : Fields) :
    Told fields tickParts (tickOfFields symbol fields) := by
  unfold tickOfFields tickParts
  refine .bind (fun text => ?_) fun bid => .bind (fun text => ?_) fun ask =>
    .bind (fun text => ?_) fun bidSize => .bind (fun text => ?_) fun askSize =>
    .bind (fun text => ?_) fun timestamp => ?_
  · simp only [Plain.float?_eq_some_iff]
  · simp only [Plain.float?_eq_some_iff]
  · simp only [Plain.word64?_eq_some_iff]
  · simp only [Plain.word64?_eq_some_iff]
  · simp only [Plain.signed64?_eq_some_iff]
  · exact List.forall_mem_nil _

/-! ## What is read -/

/-- A tick whose parts the fields spell. It carries no trade. -/
structure Spell (fields : Fields) (t : Tick) : Prop where
  bid : ∃ text, fields.find? "bid" = some text ∧ FloatText t.bid text.toList
  ask : ∃ text, fields.find? "ask" = some text ∧ FloatText t.ask text.toList
  bidSize : ∃ text, fields.find? "bid_size" = some text ∧ WordText t.bidSize text.toList
  askSize : ∃ text, fields.find? "ask_size" = some text ∧ WordText t.askSize text.toList
  timestamp : ∃ text, fields.find? "timestamp" = some text ∧ SignedText t.timestamp text.toList
  quoteOnly : t.quoteOnly = t

theorem exists_of_bind {read : String → Option α} {name : String} {rest : α → Except CacheFault β}
    {made : β} (h : field fields read name >>= rest = .ok made) :
    ∃ text value, fields.find? name = some text ∧ read text = some value ∧ rest value = .ok made := by
  rcases field_cases fields read name with ⟨_, first⟩ | ⟨_, _, _, first⟩ | ⟨text, value, there, taken, first⟩
  · rw [first] at h
    exact absurd h (by simp [Bind.bind, Except.bind])
  · rw [first] at h
    exact absurd h (by simp [Bind.bind, Except.bind])
  · rw [first] at h
    exact ⟨text, value, there, taken, h⟩

/-- A tick is read from fields that spell it, and from no others. -/
theorem tickOfFields_eq_ok_iff {symbol : String} {t : Tick} :
    tickOfFields symbol fields = .ok t ↔ t.symbol = symbol ∧ Spell fields t := by
  unfold tickOfFields
  constructor
  · intro h
    obtain ⟨bidText, bid, bidThere, bidRead, h⟩ := exists_of_bind h
    obtain ⟨askText, ask, askThere, askRead, h⟩ := exists_of_bind h
    obtain ⟨bidSizeText, bidSize, bidSizeThere, bidSizeRead, h⟩ := exists_of_bind h
    obtain ⟨askSizeText, askSize, askSizeThere, askSizeRead, h⟩ := exists_of_bind h
    obtain ⟨timeText, timestamp, timeThere, timeRead, h⟩ := exists_of_bind h
    obtain rfl := Except.ok.inj h
    exact ⟨rfl, ⟨bidText, bidThere, Plain.float?_eq_some_iff.1 bidRead⟩,
      ⟨askText, askThere, Plain.float?_eq_some_iff.1 askRead⟩,
      ⟨bidSizeText, bidSizeThere, Plain.word64?_eq_some_iff.1 bidSizeRead⟩,
      ⟨askSizeText, askSizeThere, Plain.word64?_eq_some_iff.1 askSizeRead⟩,
      ⟨timeText, timeThere, Plain.signed64?_eq_some_iff.1 timeRead⟩, rfl⟩
  · rintro ⟨rfl, spell⟩
    obtain ⟨bidText, bidThere, bid⟩ := spell.bid
    obtain ⟨askText, askThere, ask⟩ := spell.ask
    obtain ⟨bidSizeText, bidSizeThere, bidSize⟩ := spell.bidSize
    obtain ⟨askSizeText, askSizeThere, askSize⟩ := spell.askSize
    obtain ⟨timeText, timeThere, timestamp⟩ := spell.timestamp
    rw [field_of_find? bidThere (Plain.float?_eq_some_iff.2 bid),
      field_of_find? askThere (Plain.float?_eq_some_iff.2 ask),
      field_of_find? bidSizeThere (Plain.word64?_eq_some_iff.2 bidSize),
      field_of_find? askSizeThere (Plain.word64?_eq_some_iff.2 askSize),
      field_of_find? timeThere (Plain.signed64?_eq_some_iff.2 timestamp)]
    exact congrArg Except.ok spell.quoteOnly

/-- Only the fields of the parts matter. -/
theorem tickOfFields_congr {symbol : String}
    (same : ∀ p ∈ tickParts, fields'.find? p.name = fields.find? p.name) :
    tickOfFields symbol fields' = tickOfFields symbol fields := by
  simp only [tickParts, List.forall_mem_cons] at same
  obtain ⟨bid, ask, bidSize, askSize, timestamp, -⟩ := same
  unfold tickOfFields field
  rw [bid, ask, bidSize, askSize, timestamp]

/-- **Cached ticks are read exactly.** There is a tick just where each of its parts has a field with a
spelling of the part, and then it is the tick that is spelled. Else the fault is that of the first part
that is not readable, missing or malformed, whatever stands under the names of the others. Other fields
never matter. A tick that was read, whatever its spelling, is read again from the fields that are
written of it, unless a price is no number. -/
theorem ticks_read_exactly (symbol : String) (fields : Fields) :
    ((∃ t, tickOfFields symbol fields = .ok t) ↔ ∀ p ∈ tickParts, p.ReadableIn fields) ∧
      (∀ t, tickOfFields symbol fields = .ok t ↔ t.symbol = symbol ∧ Spell fields t) ∧
      (∀ fault, tickOfFields symbol fields = .error fault ↔
        FirstUnreadable fields fault tickParts) ∧
      (∀ fields' : Fields, (∀ p ∈ tickParts, fields'.find? p.name = fields.find? p.name) →
        tickOfFields symbol fields' = tickOfFields symbol fields) ∧
      ∀ t, tickOfFields symbol fields = .ok t → t.bid.isNaN = false → t.ask.isNaN = false →
        tickOfFields symbol (tickFields t) = .ok t := by
  have told := told_tickOfFields symbol fields
  refine ⟨told.exists_ok_iff, fun t => tickOfFields_eq_ok_iff, fun fault => told.error_iff,
    fun fields' => tickOfFields_congr, fun t read numberBid numberAsk => ?_⟩
  obtain ⟨rfl, spell⟩ := tickOfFields_eq_ok_iff.1 read
  have back := tickOfFields_of_number numberBid numberAsk
  rwa [spell.quoteOnly] at back

end MarketMaker.Cache

namespace MarketMaker

namespace Sample

/-- Fields that spell a tick in unusual ways, and one that is no part of it. -/
def unusual : Cache.Fields :=
  .ofList [("bid", "+0100.50e0"), ("ask", "iNFinity"), ("bid_size", "+007"),
    ("ask_size", "18446744073709551615"), ("timestamp", "-9223372036854775808"), ("note", "")]

/-- The tick that they spell. -/
def unusualTick : Tick where
  symbol := "A"
  bid := 100.5
  ask := 1.0 / 0.0
  bidSize := 7
  askSize := 18446744073709551615
  timestamp := -9223372036854775808

/-- Fields of which the second and the third part are not readable. -/
def faulty : Cache.Fields :=
  (unusual.insert "ask" "1_0").erase "bid_size"

end Sample

open Sample in
/-- Unusual spellings are read, and read again as they are written; of two faults the first is told. -/
theorem Cache.ticks_read_exactly_sample :
    tickOfFields "A" unusual = .ok unusualTick ∧ unusualTick.bid.isNaN = false ∧
      unusualTick.ask.isNaN = false ∧ (∀ p ∈ tickParts, p.ReadableIn unusual) ∧
      tickOfFields "A" (tickFields unusualTick) = .ok unusualTick ∧
      tickOfFields "A" faulty = .error (.malformed "ask") ∧
      FirstUnreadable faulty (.malformed "ask") tickParts := by
  have read : tickOfFields "A" unusual = .ok unusualTick := by decide +kernel
  have bid : unusualTick.bid.isNaN = false := by decide +kernel
  have ask : unusualTick.ask.isNaN = false := by decide +kernel
  have refused : tickOfFields "A" faulty = .error (.malformed "ask") := by decide +kernel
  obtain ⟨readable, -, -, -, again⟩ := ticks_read_exactly "A" unusual
  obtain ⟨-, -, first, -⟩ := ticks_read_exactly "A" faulty
  exact ⟨read, bid, ask, readable.1 ⟨_, read⟩, again _ read bid ask, refused, (first _).1 refused⟩

end MarketMaker
