import MarketMaker.Json.Parser
import MarketMaker.Proofs.Json.Token

/-!
# Documents read back

The reader makes of a document's tokens the document again (`Json.ofTokens?_tokens`), so a text that
spells these tokens, with whatever blanks between them, is read as the document (`Json.ofChars?_spells`).
Among these texts is the one that is written (`Json.parse?_compact`).
-/

namespace MarketMaker.Json

/-- A document that has a text: numbers of the strict grammar, and strings and names that name
characters. -/
inductive IsWritten : Json → Prop where
  | null : IsWritten .null
  | bool (b : Bool) : IsWritten (.bool b)
  | number {n : Numeral} (strict : n.IsStrict) : IsWritten (.number n)
  | text (s : String) : IsWritten (.text s)
  | array {items : List Json} (all : ∀ j ∈ items, IsWritten j) : IsWritten (.array items)
  | object {members : List (Option String × Json)} (names : ∀ m ∈ members, m.1.isSome)
      (values : ∀ m ∈ members, IsWritten m.2) : IsWritten (.object members)

@[simp] theorem isWritten_null : null.IsWritten := .null

@[simp] theorem isWritten_bool (b : Bool) : (bool b).IsWritten := .bool b

@[simp] theorem isWritten_number {n : Numeral} : (number n).IsWritten ↔ n.IsStrict :=
  ⟨fun | .number strict => strict, .number⟩

@[simp] theorem isWritten_text (s : String) : (text s).IsWritten := .text s

@[simp] theorem isWritten_array {items : List Json} :
    (array items).IsWritten ↔ ∀ j ∈ items, j.IsWritten :=
  ⟨fun | .array all => all, .array⟩

@[simp] theorem isWritten_record {members : List (String × Json)} :
    (record members).IsWritten ↔ ∀ m ∈ members, m.2.IsWritten := by
  constructor
  · rintro (_ | _ | _ | _ | _ | ⟨-, values⟩) m member
    exact values _ (List.mem_map_of_mem member)
  · intro all
    exact .object (List.forall_mem_map.2 fun m _ => rfl) (List.forall_mem_map.2 all)

/-! ## The tokens of a document -/

/-- All tokens have texts. -/
def Token.AllWritten (ts : List Token) : Prop :=
  ∀ t ∈ ts, t.IsWritten

theorem Token.AllWritten.cons {ts : List Token} (behind : AllWritten ts) (t : Token)
    (written : t.IsWritten) : AllWritten (t :: ts) :=
  List.forall_mem_cons.2 ⟨written, behind⟩

mutual

/-- The tokens of a document that has a text have texts. -/
theorem allWritten_tokens {rest : List Token} (behind : Token.AllWritten rest) :
    ∀ {j : Json}, j.IsWritten → Token.AllWritten (tokens rest j)
  | .null, _ => behind.cons .null trivial
  | .bool b, _ => behind.cons (.bool b) trivial
  | .number n, .number strict => behind.cons (.number n) strict
  | .string _, .text s => behind.cons (.string (some s)) rfl
  | .array [], _ => (behind.cons .closeArray trivial).cons .openArray trivial
  | .array (_ :: _), .array all => by
    obtain ⟨first, others⟩ := List.forall_mem_cons.1 all
    have closed := behind.cons .closeArray trivial
    have items := allWritten_itemTokens closed others
    exact (allWritten_tokens items first).cons .openArray trivial
  | .object [], _ => (behind.cons .closeObject trivial).cons .openObject trivial
  | .object ((name, _) :: _), .object names values => by
    obtain ⟨named, names⟩ := List.forall_mem_cons.1 names
    obtain ⟨first, others⟩ := List.forall_mem_cons.1 values
    have closed := behind.cons .closeObject trivial
    have members := allWritten_memberTokens closed names others
    have value := (allWritten_tokens members first).cons .colon trivial
    exact (value.cons (.string name) named).cons .openObject trivial

theorem allWritten_itemTokens {rest : List Token} (behind : Token.AllWritten rest) :
    ∀ {items : List Json}, (∀ j ∈ items, j.IsWritten) → Token.AllWritten (itemTokens rest items)
  | [], _ => behind
  | _ :: _, all => by
    obtain ⟨first, others⟩ := List.forall_mem_cons.1 all
    have items := allWritten_itemTokens behind others
    exact (allWritten_tokens items first).cons .comma trivial

theorem allWritten_memberTokens {rest : List Token} (behind : Token.AllWritten rest) :
    ∀ {members : List (Option String × Json)}, (∀ m ∈ members, m.1.isSome) →
      (∀ m ∈ members, m.2.IsWritten) → Token.AllWritten (memberTokens rest members)
  | [], _, _ => behind
  | (name, _) :: _, names, values => by
    obtain ⟨named, names⟩ := List.forall_mem_cons.1 names
    obtain ⟨first, others⟩ := List.forall_mem_cons.1 values
    have members := allWritten_memberTokens behind names others
    have value := (allWritten_tokens members first).cons .colon trivial
    exact (value.cons (.string name) named).cons .comma trivial

end

mutual

/-- No number stands right behind another, since a mark stands between any two values. -/
theorem apart_tokens {rest : List Token} (behind : Token.Follows rest) :
    ∀ j : Json, Token.Apart (tokens rest j)
  | .null => behind.cons .null
  | .bool b => behind.cons (.bool b)
  | .number n => behind.cons (.number n)
  | .string s => behind.cons (.string s)
  | .array [] => ((behind.cons .closeArray).cons .openArray rfl).1
  | .array (item :: items) => by
    have closed := behind.1.cons .closeArray rfl
    have first := apart_tokens (follows_itemTokens closed items) item
    exact (first.cons .openArray rfl).1
  | .object [] => ((behind.cons .closeObject).cons .openObject rfl).1
  | .object ((name, value) :: members) => by
    have closed := behind.1.cons .closeObject rfl
    have first := apart_tokens (follows_memberTokens closed members) value
    have named := ((first.cons .colon rfl).1.cons (.string name) rfl).1
    exact (named.cons .openObject rfl).1

theorem follows_itemTokens {rest : List Token} (behind : Token.Follows rest) :
    ∀ items : List Json, Token.Follows (itemTokens rest items)
  | [] => behind
  | item :: items => by
    have first := apart_tokens (follows_itemTokens behind items) item
    exact first.cons .comma rfl

theorem follows_memberTokens {rest : List Token} (behind : Token.Follows rest) :
    ∀ members : List (Option String × Json), Token.Follows (memberTokens rest members)
  | [] => behind
  | (name, value) :: members => by
    have first := apart_tokens (follows_memberTokens behind members) value
    have named := ((first.cons .colon rfl).1.cons (.string name) rfl).1
    exact named.cons .comma rfl

end

/-! ## Reading tokens -/

namespace Reader

theorem step?_itemOrEnd (frames : List Frame) {t : Token} (more : t ≠ .closeArray) :
    step? ⟨.itemOrEnd, frames⟩ t = step? ⟨.value, frames⟩ t := by
  unfold step?
  split <;> simp_all

end Reader

/-- A value begins with something else than the end of an array. -/
theorem tokens_eq_cons (rest : List Token) (j : Json) :
    ∃ t ts, tokens rest j = t :: ts ∧ t ≠ .closeArray := by
  unfold tokens
  split <;> exact ⟨_, _, rfl, by simp⟩

theorem foldlM_tokens_itemOrEnd (rest : List Token) (j : Json) (frames : List Frame) :
    (tokens rest j).foldlM Reader.step? ⟨.itemOrEnd, frames⟩ =
      (tokens rest j).foldlM Reader.step? ⟨.value, frames⟩ := by
  obtain ⟨t, ts, first, more⟩ := tokens_eq_cons rest j
  rw [first, List.foldlM_cons, List.foldlM_cons, Reader.step?_itemOrEnd frames more]

mutual

/-- Reading the tokens of a value comes to the value. -/
theorem foldlM_tokens (rest : List Token) (frames : List Frame) : ∀ j : Json,
    (tokens rest j).foldlM Reader.step? ⟨.value, frames⟩ =
      rest.foldlM Reader.step? ⟨.after j, frames⟩
  | .null => rfl
  | .bool _ => rfl
  | .number _ => rfl
  | .string _ => rfl
  | .array [] => rfl
  | .array (item :: items) => by
    change (tokens _ item).foldlM Reader.step? ⟨.itemOrEnd, .array [] :: frames⟩ = _
    rw [foldlM_tokens_itemOrEnd, foldlM_tokens _ _ item, foldlM_itemTokens rest frames items item []]
    rfl
  | .object [] => rfl
  | .object ((name, value) :: members) => by
    change (tokens _ value).foldlM Reader.step? ⟨.value, .member [] name :: frames⟩ = _
    rw [foldlM_tokens _ _ value, foldlM_memberTokens rest frames members name value []]
    rfl

theorem foldlM_itemTokens (rest : List Token) (frames : List Frame) :
    ∀ (items : List Json) (v : Json) (done : List Json),
      (itemTokens (.closeArray :: rest) items).foldlM Reader.step? ⟨.after v, .array done :: frames⟩ =
        rest.foldlM Reader.step? ⟨.after (.array (done.reverse ++ v :: items)), frames⟩
  | [], v, done => by
    rw [← List.reverse_cons]
    rfl
  | item :: items, v, done => by
    change (tokens _ item).foldlM Reader.step? ⟨.value, .array (v :: done) :: frames⟩ = _
    rw [foldlM_tokens _ _ item, foldlM_itemTokens rest frames items item (v :: done),
      List.reverse_cons, List.append_assoc]
    rfl

theorem foldlM_memberTokens (rest : List Token) (frames : List Frame) :
    ∀ (members : List (Option String × Json)) (name : Option String) (v : Json)
      (done : List (Option String × Json)),
      (memberTokens (.closeObject :: rest) members).foldlM Reader.step?
          ⟨.after v, .member done name :: frames⟩ =
        rest.foldlM Reader.step? ⟨.after (.object (done.reverse ++ (name, v) :: members)), frames⟩
  | [], name, v, done => by
    rw [← List.reverse_cons]
    rfl
  | (name', value) :: members, name, v, done => by
    change (tokens _ value).foldlM Reader.step? ⟨.value, .member ((name, v) :: done) name' :: frames⟩ = _
    rw [foldlM_tokens _ _ value, foldlM_memberTokens rest frames members name' value ((name, v) :: done),
      List.reverse_cons, List.append_assoc]
    rfl

end

/-! ## Reading texts -/

/-- The reader makes of the tokens of a document the document. -/
theorem ofTokens?_tokens (j : Json) : ofTokens? (tokens [] j) = some j := by
  unfold ofTokens? Reader.start
  rw [foldlM_tokens [] [] j]
  rfl

/-- **A document is read back** from every text that spells its tokens. -/
theorem ofChars?_spells {j : Json} (written : j.IsWritten) {cs : List Char}
    (spells : Token.Spells (tokens [] j) cs) : ofChars? cs = some j := by
  have nothing : Token.Follows [] := ⟨.nil, by simp⟩
  have all : Token.AllWritten [] := by simp [Token.AllWritten]
  have scanned := Token.scan?_spells spells (allWritten_tokens all written) (apart_tokens nothing j) []
  rw [ofChars?, scanned]
  exact ofTokens?_tokens j

/-- A document is read back from the text that is written of it. -/
theorem parse?_compact {j : Json} (written : j.IsWritten) : parse? j.compact = some j := by
  rw [parse?, compact, String.toList_ofList]
  exact ofChars?_spells written (Token.spells_charsOf _)

end MarketMaker.Json
