import MarketMaker.Feed.JsonLines
import MarketMaker.Proofs.Padding
import MarketMaker.Proofs.Text.Lines

/-!
# What a feed holds

The ticks of a feed are those of its lines, in their order, and its counts say how many lines hold a tick,
how many hold something else, and how many ticks are earlier than one before them
(`Feed.ofBytes_exact`). The lines are read in one loop, whose state is `Load.after` the texts of the lines
so far: one line more is one text more (`Load.take_after`), and so for all lines (`Load.foldlM_after`).
A late tick is counted against a latest timestamp that is kept from tick to tick, which is the latest of
all ticks so far.
-/

namespace MarketMaker.Feed

/-! ## Texts of lines -/

/-- The text of a line without the blanks at its ends, if its bytes are a text. -/
def textOf? (line : List UInt8) : Option (List Char) :=
  (Text.decode? line).map Text.trim

/-- The tick that a text is, if it is one. -/
def tickOf? (text : List Char) : Option Tick :=
  (Json.ofChars? text).bind Tick.ofJson?

/-- How many texts are not empty. -/
def filledCount (texts : List (List Char)) : ℕ :=
  texts.countP (!·.isEmpty)

/-- How many texts are neither empty nor a tick. -/
def malformedCount (texts : List (List Char)) : ℕ :=
  texts.countP fun text => !text.isEmpty && (tickOf? text).isNone

@[simp] theorem tickOf?_nil : tickOf? [] = none := by
  rw [tickOf?, Json.ofChars?, Json.Token.scan?]
  rfl

theorem ofChars_eq (cs : List Char) :
    Line.ofChars cs =
      if (Text.trim cs).isEmpty then .blank else (tickOf? (Text.trim cs)).elim .malformed .tick := by
  have read : (Json.ofChars? (Text.trim cs)).bind Tick.ofJson? = tickOf? (Text.trim cs) := rfl
  simp only [Line.ofChars, read]
  cases tickOf? (Text.trim cs) <;> rfl

/-- Each text that is not empty is a tick or malformed, and not both. -/
theorem length_filterMap_add_malformedCount (texts : List (List Char)) :
    (texts.filterMap tickOf?).length + malformedCount texts = filledCount texts := by
  induction texts with
  | nil => rfl
  | cons text texts ih =>
    rw [filledCount, malformedCount, List.countP_cons, List.countP_cons, ← filledCount,
      ← malformedCount, ← ih, List.filterMap_cons]
    cases text with
    | nil => simp
    | cons c cs =>
      cases tickOf? (c :: cs) with
      | none => simp only [Option.isNone_none, List.isEmpty_cons]; simp; omega
      | some t => simp; omega

/-! ## Late ticks -/

/-- Whether the tick at a place is earlier than the latest of the ticks before it. -/
def isLate (ticks : List Tick) (i : ℕ) : Bool :=
  ((ticks.take i).map Tick.timestamp).max?.any fun latest => ticks[i]?.any (·.timestamp < latest)

/-- How many ticks are earlier than the latest of the ticks before them. -/
def lateCount (ticks : List Tick) : ℕ :=
  (List.range ticks.length).countP (isLate ticks)

theorem max?_concat (stamps : List Int64) (stamp : Int64) :
    (stamps ++ [stamp]).max? = some (stamps.max?.elim stamp (max · stamp)) := by
  cases stamps with
  | nil => rfl
  | cons first others =>
    change some (List.foldl max first (others ++ [stamp])) = _
    rw [List.foldl_append]
    rfl

theorem max_le_iff {a b c : Int64} : max a b ≤ c ↔ a ≤ c ∧ b ≤ c := by
  change (if a ≤ b then b else a) ≤ c ↔ _
  simp only [Int64.le_iff_toInt_le]
  split <;> omega

/-- A timestamp is not below the latest of some timestamps if it is below none of them. -/
theorem any_max?_eq_false_iff {stamps : List Int64} {stamp : Int64} :
    stamps.max?.any (stamp < ·) = false ↔ ∀ earlier ∈ stamps, earlier ≤ stamp := by
  induction stamps using List.reverseRecOn with
  | nil => simp
  | append_singleton stamps last ih =>
    rw [max?_concat, List.forall_mem_append, ← ih, List.forall_mem_singleton]
    cases stamps.max? with
    | none => simp [Int64.not_lt]
    | some latest => simp [Int64.not_lt, max_le_iff]

theorem lateCount_concat (ticks : List Tick) (t : Tick) :
    lateCount (ticks ++ [t]) = lateCount ticks +
      if (ticks.map Tick.timestamp).max?.any (t.timestamp < ·) then 1 else 0 := by
  have before : ∀ i ∈ List.range ticks.length, isLate (ticks ++ [t]) i = isLate ticks i := by
    intro i member
    have inside := List.mem_range.1 member
    rw [isLate, isLate, List.take_append_of_le_length inside.le, List.getElem?_append_left inside]
  have last : isLate (ticks ++ [t]) ticks.length =
      (ticks.map Tick.timestamp).max?.any (t.timestamp < ·) := by
    rw [isLate, List.take_left, List.getElem?_concat_length]
    rfl
  rw [lateCount, List.length_append, List.length_singleton, List.range_succ, List.countP_append,
    List.countP_congr fun i member => by rw [before i member], List.countP_singleton, last, lateCount]

/-- None is late just if the timestamps never go back. -/
theorem lateCount_eq_zero_iff {ticks : List Tick} :
    lateCount ticks = 0 ↔ (ticks.map Tick.timestamp).Pairwise (· ≤ ·) := by
  induction ticks using List.reverseRecOn with
  | nil => simp [lateCount]
  | append_singleton ticks t ih =>
    rw [lateCount_concat, Nat.add_eq_zero_iff, ih, List.map_append, List.pairwise_append,
      List.map_singleton]
    have last : (ticks.map Tick.timestamp).max?.any (t.timestamp < ·) = false ↔
        ∀ earlier ∈ ticks.map Tick.timestamp, earlier ≤ t.timestamp := any_max?_eq_false_iff
    simp [last]

/-! ## Bytes -/

/-- What texts hold is counted. -/
def countTexts (texts : List (List Char)) : LoadCount where
  loaded := .ofNat (texts.filterMap tickOf?).length
  skipped := .ofNat (malformedCount texts)
  outOfOrder := .ofNat (lateCount (texts.filterMap tickOf?))

theorem mapM_textOf? (lines : List (List UInt8)) :
    (lines.map textOf?).mapM id = (lines.mapM Text.decode?).map (·.map Text.trim) := by
  induction lines with
  | nil => rfl
  | cons line lines ih =>
    rw [List.map_cons, List.mapM_cons, List.mapM_cons, ih, textOf?]
    cases Text.decode? line with
    | none => rfl
    | some cs => cases lines.mapM Text.decode? <;> rfl

namespace Load

/-- What is loaded once lines with some texts are read. -/
def after (texts : List (List Char)) : Load where
  ticks := (texts.filterMap tickOf?).toArray
  count := countTexts texts
  latest := ((texts.filterMap tickOf?).map Tick.timestamp).max?

theorem after_blank (texts : List (List Char)) : after (texts ++ [[]]) = after texts := by
  have malformed : malformedCount (texts ++ [[]]) = malformedCount texts := by
    simp [malformedCount]
  have ticks : (texts ++ [[]]).filterMap tickOf? = texts.filterMap tickOf? := by simp
  rw [after, after, countTexts, countTexts, ticks, malformed]

theorem after_malformed {text : List Char} (filled : text ≠ []) (noTick : tickOf? text = none)
    (texts : List (List Char)) : after (texts ++ [text]) = (after texts).skip := by
  have malformed : malformedCount (texts ++ [text]) = malformedCount texts + 1 := by
    simp [malformedCount, filled, noTick]
  have ticks : (texts ++ [text]).filterMap tickOf? = texts.filterMap tickOf? := by simp [noTick]
  rw [after, countTexts, ticks, malformed, UInt64.ofNat_add]
  rfl

/-- A tick is late against the latest timestamp of the ticks so far. -/
theorem after_tick {text : List Char} {t : Tick} (isTick : tickOf? text = some t)
    (texts : List (List Char)) : after (texts ++ [text]) = (after texts).add t := by
  have malformed : malformedCount (texts ++ [text]) = malformedCount texts := by
    simp [malformedCount, isTick]
  have ticks : (texts ++ [text]).filterMap tickOf? = texts.filterMap tickOf? ++ [t] := by
    simp [isTick]
  have latest := max?_concat ((texts.filterMap tickOf?).map Tick.timestamp) t.timestamp
  have late := lateCount_concat (texts.filterMap tickOf?) t
  rw [after, countTexts, ticks, malformed, late, List.map_append, List.map_singleton, latest,
    List.length_append, UInt64.ofNat_add, add, after, countTexts]
  congr 1
  · exact List.append_toArray _ _ |>.symm
  · split <;> simp_all [UInt64.ofNat_add]

/-- One line more is one text more. -/
theorem take_after (cs : List Char) (texts : List (List Char)) :
    (after texts).take (.ofChars cs) = after (texts ++ [Text.trim cs]) := by
  rw [ofChars_eq]
  by_cases blank : Text.trim cs = []
  · rw [blank, after_blank]
    rfl
  · rw [if_neg (mt List.isEmpty_iff.1 blank)]
    cases isTick : tickOf? (Text.trim cs) with
    | none =>
      rw [after_malformed blank isTick]
      rfl
    | some t =>
      rw [after_tick isTick]
      rfl

/-- The loop goes on with what is loaded so far, and stops at a line that is no text. -/
theorem foldlM_after (texts : List (List Char)) (lines : List (List UInt8)) :
    lines.foldlM addLine (after texts) = ((lines.map textOf?).mapM id).elim
      (.error (.file .notText)) fun more => .ok (after (texts ++ more)) := by
  induction lines generalizing texts with
  | nil => rw [List.map_nil, List.mapM_nil, List.foldlM_nil]; simp [pure, Except.pure]
  | cons line lines ih =>
    rw [List.foldlM_cons, List.map_cons, List.mapM_cons]
    cases isText : Text.decode? line with
    | none =>
      rw [addLine, textOf?, isText]
      rfl
    | some cs =>
      rw [addLine, textOf?, isText]
      change lines.foldlM addLine ((after texts).take (.ofChars cs)) = _
      rw [take_after, ih]
      cases (lines.map textOf?).mapM id with
      | none => rfl
      | some more => simp

end Load

/-- What bytes hold, by the texts of their lines. -/
theorem ofBytes_eq (bytes : ByteArray) :
    ofBytes bytes = (((Text.linesOf bytes.toList).map textOf?).mapM id).elim
      (.error (.file .notText)) fun texts => .ok (texts.filterMap tickOf?, countTexts texts) := by
  have loop := Load.foldlM_after [] (Text.linesOf bytes.toList)
  rw [ofBytes]
  change Except.map _ ((Text.linesOf bytes.toList).foldlM Load.addLine (Load.after [])) = _
  rw [loop]
  cases ((Text.linesOf bytes.toList).map textOf?).mapM id <;> rfl

theorem mapM_eq_none {α : Type} {items : List (Option α)} (missing : none ∈ items) :
    items.mapM id = none := by
  induction items with
  | nil => exact absurd missing List.not_mem_nil
  | cons item items ih =>
    rw [List.mapM_cons]
    rcases List.mem_cons.1 missing with rfl | later
    · rfl
    · rw [ih later]
      exact Option.bind_fun_none _

theorem mapM_eq_some {α : Type} {items : List (Option α)} (all : ∀ item ∈ items, item ≠ none) :
    items.mapM id = some (items.filterMap id) := by
  induction items with
  | nil => rfl
  | cons item items ih =>
    obtain ⟨here, others⟩ := List.forall_mem_cons.1 all
    obtain ⟨a, rfl⟩ := Option.ne_none_iff_exists'.1 here
    rw [List.mapM_cons, ih others]
    rfl

/-- Texts that are no ticks, put in anywhere, leave the ticks as they are and no line unread. -/
theorem mapM_of_padded {items items' : List (Option (List Char))}
    (padded : Padded (fun item => ∃ text ∈ item, tickOf? text = none) items items') :
    (items'.mapM id).map (·.filterMap tickOf?) = (items.mapM id).map (·.filterMap tickOf?) := by
  induction padded with
  | nil => rfl
  | @keep item items items' _ ih =>
    rw [List.mapM_cons, List.mapM_cons]
    cases item with
    | none => rfl
    | some text =>
      cases first : items.mapM id <;> cases second : items'.mapM id <;>
        simp_all [List.filterMap_cons]
  | @insert item items items' idle _ ih =>
    obtain ⟨text, rfl, noTick⟩ := idle
    rw [List.mapM_cons, ← ih]
    cases items'.mapM id <;> simp [noTick]

/-- Counts tell of texts and their ticks: how many ticks there are, how many texts are not empty, and how
many ticks are late. The words are exact unless there are more texts than a word can count. -/
structure LoadCount.Tells (c : LoadCount) (texts : List (List Char)) (ticks : List Tick) : Prop where
  loaded : c.loaded = .ofNat ticks.length
  filled : c.loaded + c.skipped = .ofNat (filledCount texts)
  late : c.outOfOrder = .ofNat (lateCount ticks)
  exact : filledCount texts < UInt64.size → c.loaded.toNat = ticks.length ∧
    c.loaded.toNat + c.skipped.toNat = filledCount texts ∧ c.outOfOrder.toNat = lateCount ticks ∧
      (c.isOrdered = true ↔ (ticks.map Tick.timestamp).Pairwise (· ≤ ·))

theorem countTexts_tells (texts : List (List Char)) :
    (countTexts texts).Tells texts (texts.filterMap tickOf?) where
  loaded := rfl
  filled := by
    rw [← length_filterMap_add_malformedCount, UInt64.ofNat_add]
    rfl
  late := rfl
  exact := by
    intro bound
    have sum := length_filterMap_add_malformedCount texts
    have few : lateCount (texts.filterMap tickOf?) ≤ (texts.filterMap tickOf?).length := by
      have within := List.countP_le_length (p := isLate (texts.filterMap tickOf?))
        (l := List.range (texts.filterMap tickOf?).length)
      rwa [List.length_range] at within
    have loaded : (countTexts texts).loaded.toNat = (texts.filterMap tickOf?).length :=
      UInt64.toNat_ofNat_of_lt' (by omega)
    have skipped : (countTexts texts).skipped.toNat = malformedCount texts :=
      UInt64.toNat_ofNat_of_lt' (by omega)
    have late : (countTexts texts).outOfOrder.toNat = lateCount (texts.filterMap tickOf?) :=
      UInt64.toNat_ofNat_of_lt' (by omega)
    refine ⟨loaded, by rw [loaded, skipped, sum], late, ?_⟩
    rw [← lateCount_eq_zero_iff, ← late, LoadCount.isOrdered, decide_eq_true_iff, ← UInt64.toNat_inj]
    rfl

/-- Ticks and counts without the count of the texts that are no ticks. -/
def leaveSkipped (loaded : List Tick × LoadCount) : List Tick × LoadCount :=
  (loaded.1, { loaded.2 with skipped := 0 })

/-- **Loading is exact.** Bytes of which some line is no text are refused. From all others the ticks are
those of the texts of the lines, in their order, and the counts tell of these. Lines that are blank or hold
no tick, put in anywhere, change the count of these lines alone. -/
theorem ofBytes_exact (bytes : ByteArray) :
    ((∃ line ∈ Text.linesOf bytes.toList, Text.decode? line = none) →
      ofBytes bytes = .error (.file .notText)) ∧
    ((∀ line ∈ Text.linesOf bytes.toList, Text.decode? line ≠ none) →
      ∃ ticks c, ofBytes bytes = .ok (ticks, c) ∧
        ticks = ((Text.linesOf bytes.toList).filterMap textOf?).filterMap tickOf? ∧
        c.Tells ((Text.linesOf bytes.toList).filterMap textOf?) ticks) ∧
    ∀ bytes' : ByteArray,
      Padded (fun text? => ∃ text ∈ text?, tickOf? text = none)
        ((Text.linesOf bytes.toList).map textOf?) ((Text.linesOf bytes'.toList).map textOf?) →
      (ofBytes bytes').map leaveSkipped = (ofBytes bytes).map leaveSkipped := by
  refine ⟨?_, ?_, ?_⟩
  · rintro ⟨line, member, noText⟩
    have missing : none ∈ (Text.linesOf bytes.toList).map textOf? :=
      List.mem_map.2 ⟨line, member, by rw [textOf?, noText]; rfl⟩
    rw [ofBytes_eq, mapM_eq_none missing]
    rfl
  · intro all
    have every : ∀ text? ∈ (Text.linesOf bytes.toList).map textOf?, text? ≠ none := by
      refine List.forall_mem_map.2 fun line member noText => all line member ?_
      exact Option.map_eq_none_iff.1 noText
    rw [ofBytes_eq, mapM_eq_some every, List.filterMap_map]
    exact ⟨_, _, rfl, rfl, countTexts_tells _⟩
  · intro bytes' padded
    have same := mapM_of_padded padded
    rw [ofBytes_eq, ofBytes_eq]
    cases first : ((Text.linesOf bytes.toList).map textOf?).mapM id <;>
      cases second : ((Text.linesOf bytes'.toList).map textOf?).mapM id <;>
      simp only [first, second, Option.map_none, Option.map_some, Option.some.injEq,
        reduceCtorEq] at same
    · rfl
    · simp only [Option.elim_some, Except.map, leaveSkipped, countTexts, same]

namespace Sample

/-- The text of a tick with some timestamp. -/
def stamped (stamp : String) : String :=
  "\x7b\"symbol\":\"A\",\"bid\":1.0,\"ask\":2.0,\"bid_size\":1,\"ask_size\":1,\"timestamp\":" ++
    stamp ++ "\x7d"

/-- The tick. -/
def readTick (stamp : Int64) : Tick := ⟨"A", 1.0, 2.0, 1, 1, stamp, none, none⟩

/-- Two ticks, the second earlier than the first. -/
def tidyFeed : ByteArray :=
  (stamped "10" ++ "\n" ++ stamped "5").toUTF8

/-- The same ticks with a blank line and a line that is no tick between them. -/
def paddedFeed : ByteArray :=
  (stamped "10" ++ "\r\n\u3000\nnone\n " ++ stamped "5").toUTF8

/-- A line that is a text and one that is none. -/
def brokenFeed : ByteArray := ⟨#[65, 10, 255]⟩

end Sample

/-- Two ticks of which the second is late are loaded, with one line skipped; without the lines that are no
ticks they are the same, and a line that is no text is refused. -/
theorem ofBytes_exact_sample :
    ofBytes Sample.brokenFeed = .error (.file .notText) ∧
    (∃ c, ofBytes Sample.paddedFeed = .ok ([Sample.readTick 10, Sample.readTick 5], c) ∧
      c.loaded.toNat = 2 ∧ c.loaded.toNat + c.skipped.toNat = 3 ∧ c.outOfOrder.toNat = 1 ∧
        c.isOrdered = false) ∧
    (ofBytes Sample.paddedFeed).map leaveSkipped = (ofBytes Sample.tidyFeed).map leaveSkipped := by
  have broken : ∃ line ∈ Text.linesOf Sample.brokenFeed.toList, Text.decode? line = none := by
    decide +kernel
  have tidy : (Text.linesOf Sample.tidyFeed.toList).map textOf? =
      [some (Sample.stamped "10").toList, some (Sample.stamped "5").toList] := by
    decide +kernel
  have filled : (Text.linesOf Sample.paddedFeed.toList).map textOf? =
      [some (Sample.stamped "10").toList, some [], some "none".toList,
        some (Sample.stamped "5").toList] := by
    decide +kernel
  have first : tickOf? (Sample.stamped "10").toList = some (Sample.readTick 10) := by decide +kernel
  have second : tickOf? (Sample.stamped "5").toList = some (Sample.readTick 5) := by decide +kernel
  have junk : tickOf? "none".toList = none := by decide +kernel
  have padded : Padded (fun text? => ∃ text ∈ text?, tickOf? text = none)
      ((Text.linesOf Sample.tidyFeed.toList).map textOf?)
      ((Text.linesOf Sample.paddedFeed.toList).map textOf?) := by
    rw [tidy, filled]
    exact .keep _ (.insert _ ⟨_, rfl, tickOf?_nil⟩ (.insert _ ⟨_, rfl, junk⟩ (.keep _ .nil)))
  have texts : ∀ line ∈ Text.linesOf Sample.paddedFeed.toList, Text.decode? line ≠ none := by
    intro line member noText
    have unread := List.mem_map_of_mem (f := textOf?) member
    rw [textOf?, noText, filled] at unread
    simp at unread
  obtain ⟨ticks, c, loaded, values, tells⟩ := (ofBytes_exact Sample.paddedFeed).2.1 texts
  have read : (Text.linesOf Sample.paddedFeed.toList).filterMap textOf? =
      [(Sample.stamped "10").toList, [], "none".toList, (Sample.stamped "5").toList] := by
    rw [← Function.id_comp textOf?, ← List.filterMap_map, filled]
    rfl
  rw [read] at values tells
  simp only [List.filterMap_cons, List.filterMap_nil, tickOf?_nil, first, second, junk] at values
  subst values
  obtain ⟨number, lines, late, ordered⟩ := tells.exact (by decide +kernel)
  refine ⟨(ofBytes_exact Sample.brokenFeed).1 broken, ⟨c, loaded, number, lines, late, ?_⟩,
    (ofBytes_exact Sample.tidyFeed).2.2 _ padded⟩
  exact Bool.eq_false_iff.2 fun never => absurd (ordered.1 never) (by decide +kernel)

end MarketMaker.Feed
