import MarketMaker.Proofs.Json.Printed
import MarketMaker.Proofs.Loading
import MarketMaker.Proofs.Records

/-!
# Ticks on lines read back

A text lists ticks if each of its lines shows one tick or none, with any blanks around it
(`Feed.Lists`). Such a text is loaded as exactly these ticks (`Feed.lines_read_back`): what is written of a
tick stays on one line, since no symbol brings a line feed into it, and begins and ends with braces, so
nothing of it is lost with the blanks.
-/

namespace MarketMaker

open Json (ReadsBack)

/-- The digits of each of a tick's prices bring the reader to that price. -/
def Tick.PricesReadBack (t : Tick) : Prop :=
  ReadsBack t.bid ∧ ReadsBack t.ask ∧ ∀ p ∈ t.tradePrice, ReadsBack p

namespace Feed

/-- Blanks that stay on one line. -/
def Blanks (cs : List Char) : Prop :=
  ∀ c ∈ cs, Text.isBlank c ∧ c ≠ '\n'

/-- A line shows nothing, or a tick with blanks before and behind it. -/
inductive Shows : Option Tick → List Char → Prop where
  | nothing {blanks : List Char} (blank : Blanks blanks) : Shows none blanks
  | tick {before behind : List Char} (t : Tick) (first : Blanks before) (last : Blanks behind) :
      Shows (some t) (before ++ t.toJson.compact.toList ++ behind)

/-- A line ends with a line feed, or with a carriage return and a line feed. -/
def IsEnding (cs : List Char) : Prop :=
  cs = ['\n'] ∨ cs = ['\r', '\n']

/-- A text lists the ticks that its lines show. The last line has no ending: in a text that ends with one,
it is the empty line behind that. -/
inductive Lists : List Tick → List Char → Prop where
  | last {shown : Option Tick} {line : List Char} (shows : Shows shown line) : Lists shown.toList line
  | line {shown : Option Tick} {line ending rest : List Char} {ts : List Tick}
      (shows : Shows shown line) (ends : IsEnding ending) (others : Lists ts rest) :
      Lists (shown.toList ++ ts) (line ++ (ending ++ rest))

/-! ## One line -/

theorem Blanks.isBlank {cs : List Char} (h : Blanks cs) : ∀ c ∈ cs, Text.isBlank c :=
  fun c member => (h c member).1

theorem Blanks.append {cs ds : List Char} (first : Blanks cs) (last : Blanks ds) :
    Blanks (cs ++ ds) :=
  List.forall_mem_append.2 ⟨first, last⟩

theorem Blanks.not_mem {cs : List Char} (h : Blanks cs) : '\n' ∉ cs :=
  fun member => (h _ member).2 rfl

/-- Blanks behind a line show nothing more. -/
theorem Shows.append {shown : Option Tick} {line blanks : List Char} (shows : Shows shown line)
    (blank : Blanks blanks) : Shows shown (line ++ blanks) := by
  cases shows with
  | nothing first => exact .nothing (first.append blank)
  | tick t first last =>
    rw [List.append_assoc]
    exact .tick t first (last.append blank)

/-- What is written of a tick is one line. -/
theorem not_mem_compact (t : Tick) : '\n' ∉ t.toJson.compact.toList := by
  intro member
  have printed := List.all_eq_true.1 (Json.printed_compact t.isWritten_toJson) _ member
  exact absurd printed (by decide)

/-- What is written of a tick begins and ends with a brace. -/
theorem trim_compact (t : Tick) : Text.trim t.toJson.compact.toList = t.toJson.compact.toList := by
  obtain ⟨inner, text⟩ := Json.exists_compact_object (t.members.map fun m => (some m.1, m.2))
  change t.toJson.compact.toList = _ at text
  rw [text]
  refine Text.trim_eq_self ?_ ?_
  · intro c head
    obtain rfl := Option.some.inj head
    decide
  · intro c last
    rw [← List.cons_append, List.getLast?_concat] at last
    obtain rfl := Option.some.inj last
    decide

theorem Shows.not_mem {shown : Option Tick} {line : List Char} (shows : Shows shown line) :
    '\n' ∉ line := by
  cases shows with
  | nothing blank => exact blank.not_mem
  | tick t first last =>
    simp only [List.mem_append, not_or]
    exact ⟨⟨first.not_mem, not_mem_compact t⟩, last.not_mem⟩

theorem Shows.trim_eq {shown : Option Tick} {line : List Char} (shows : Shows shown line) :
    Text.trim line = shown.elim [] fun t => t.toJson.compact.toList := by
  cases shows with
  | nothing blank => exact Text.trim_of_all_blank blank.isBlank
  | tick t first last =>
    rw [Text.trim_append_right _ last.isBlank, Text.trim_append_left first.isBlank, trim_compact]
    rfl

theorem tickOf?_compact {t : Tick} (back : t.PricesReadBack) :
    tickOf? t.toJson.compact.toList = some t :=
  Tick.read_eq_self back.1 back.2.1 back.2.2

/-! ## All lines -/

/-- Texts are ticks or empty. -/
def Clean (texts : List (List Char)) (ts : List Tick) : Prop :=
  texts.filterMap tickOf? = ts ∧ malformedCount texts = 0

theorem Clean.cons {texts : List (List Char)} {ts : List Tick} (clean : Clean texts ts)
    {shown : Option Tick} (back : ∀ t ∈ shown, t.PricesReadBack) :
    Clean ((shown.elim [] fun t => t.toJson.compact.toList) :: texts) (shown.toList ++ ts) := by
  obtain ⟨ticks, none⟩ := clean
  unfold Clean malformedCount at *
  rw [List.filterMap_cons, List.countP_cons, ticks, none]
  cases shown with
  | none => simp
  | some t => simp [tickOf?_compact (back t rfl)]

theorem Lists.clean {ts : List Tick} {cs : List Char} (lists : Lists ts cs)
    (back : ∀ t ∈ ts, t.PricesReadBack) : Clean ((cs.splitOn '\n').map Text.trim) ts := by
  induction lists with
  | @last shown line shows =>
    have nothing : Clean [] [] := ⟨rfl, rfl⟩
    have one := nothing.cons fun t member => back t (Option.mem_toList.2 member)
    rw [List.append_nil] at one
    rw [List.splitOn_eq_singleton shows.not_mem, List.map_singleton, shows.trim_eq]
    exact one
  | @line shown line ending rest ts shows ends others ih =>
    obtain ⟨first, behind⟩ := List.forall_mem_append.1 back
    obtain ⟨whole, same, shows⟩ : ∃ whole, line ++ (ending ++ rest) = whole ++ '\n' :: rest ∧
        Shows shown whole := by
      rcases ends with rfl | rfl
      · exact ⟨line, rfl, shows⟩
      · have returned : Blanks ['\r'] := List.forall_mem_singleton.2 (by decide)
        exact ⟨line ++ ['\r'], by rw [List.append_assoc]; rfl, shows.append returned⟩
    rw [same, List.splitOn_append_cons_self_of_not_mem shows.not_mem, List.map_cons, shows.trim_eq]
    exact (ih behind).cons fun t member => first t (Option.mem_toList.2 member)

/-- A text is loaded by the pieces between its line feeds. -/
theorem ofBytes_toUTF8 (text : String) :
    ofBytes text.toUTF8 =
      .ok (((text.toList.splitOn '\n').map Text.trim).filterMap tickOf?,
        countTexts ((text.toList.splitOn '\n').map Text.trim)) := by
  obtain ⟨lines, read, same⟩ := Text.exists_mapM_decode?_linesOf text.toList
  rw [← Text.bytes_eq, Text.bytes] at read
  rw [ofBytes_eq, mapM_textOf?, read, Option.map_some, same, Option.elim_some]

/-- **Ticks on lines read back.** A text that lists ticks, line by line with blanks and blank lines
anywhere, is loaded as these ticks in their order if the digits of their prices bring the reader to these
prices. The counts say as many, and that no line was skipped. -/
theorem lines_read_back {ts : List Tick} {text : String} (lists : Lists ts text.toList)
    (back : ∀ t ∈ ts, t.PricesReadBack) :
    ∃ c, ofBytes text.toUTF8 = .ok (ts, c) ∧ c.loaded = .ofNat ts.length ∧ c.skipped = 0 ∧
      (ts.length < UInt64.size → c.loaded.toNat = ts.length) := by
  obtain ⟨ticks, none⟩ := lists.clean back
  refine ⟨countTexts ((text.toList.splitOn '\n').map Text.trim), ?_, ?_, ?_, ?_⟩
  · rw [ofBytes_toUTF8, ticks]
  · rw [countTexts, ticks]
  · rw [countTexts, none]
    rfl
  · intro few
    rw [countTexts, ticks]
    exact UInt64.toNat_ofNat_of_lt' few

end Feed

namespace Sample

/-- A tick of a symbol, whatever characters that is made of. -/
def named (symbol : String) : Tick := ⟨symbol, 0.25, 0.25, 1, 2, -3, none, some 7⟩

theorem pricesReadBack_named (symbol : String) : (named symbol).PricesReadBack := by
  have price : ReadsBack 0.25 := Json.readsBack_iff.2 (by decide +kernel)
  exact ⟨price, price, fun p none => absurd none (by simp [named])⟩

/-- Characters that are escaped. -/
def escaped : Tick := named "\"\\\n\x01é😀"

/-- Blanks and line separators. -/
def blank : Tick := named " \u2028\r\n\u3000"

/-- Two ticks with blanks around them and a blank line between them, and no ending behind the last. -/
def listing : String :=
  .ofList (['\t'] ++ escaped.toJson.compact.toList ++ [' ', '\r', '\n', '\u2003', '\n'] ++
    blank.toJson.compact.toList)

end Sample

/-- Two ticks with all kinds of characters in their symbols are read back from their lines. -/
theorem Feed.lines_read_back_sample :
    ∃ c, ofBytes Sample.listing.toUTF8 = .ok ([Sample.escaped, Sample.blank], c) ∧
      c.loaded.toNat = 2 ∧ c.skipped = 0 := by
  have lists : Lists [Sample.escaped, Sample.blank] Sample.listing.toList := by
    have first : Shows (some Sample.escaped)
        (['\t'] ++ Sample.escaped.toJson.compact.toList ++ [' ']) :=
      .tick _ (List.forall_mem_singleton.2 (by decide)) (List.forall_mem_singleton.2 (by decide))
    have second : Shows none ['\u2003'] := .nothing (List.forall_mem_singleton.2 (by decide))
    have third : Shows (some Sample.blank) ([] ++ Sample.blank.toJson.compact.toList ++ []) :=
      .tick _ (List.forall_mem_nil _) (List.forall_mem_nil _)
    have all := Lists.line first (.inr rfl) (.line second (.inl rfl) (.last third))
    rw [Sample.listing, String.toList_ofList]
    simpa using all
  have back : ∀ t ∈ [Sample.escaped, Sample.blank], t.PricesReadBack := by
    simp [Sample.escaped, Sample.blank, Sample.pricesReadBack_named]
  obtain ⟨c, loaded, -, skipped, number⟩ := lines_read_back lists back
  exact ⟨c, loaded, number (by decide), skipped⟩

end MarketMaker
