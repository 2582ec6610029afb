import Mathlib.Data.List.DropRight
import MarketMaker.Text.Blank
import MarketMaker.Text.Lines

/-!
# Lines of a text

A text is cut into lines by its bytes. Since no character but the line feed has the byte of a line feed in
it, its lines are the pieces between line feeds of its characters, but for the carriage returns at their
ends. These are blank, so without the blanks at their ends both are the same
(`exists_mapM_decode?_linesOf`).
-/

namespace MarketMaker.Text

/-! ## Blanks at the ends -/

theorem trim_eq_rdropWhile (cs : List Char) :
    trim cs = (cs.dropWhile isBlank).rdropWhile isBlank := rfl

theorem trim_of_all_blank {cs : List Char} (blank : ∀ c ∈ cs, isBlank c) : trim cs = [] := by
  rw [trim, List.dropWhile_eq_nil_iff.2 blank]
  rfl

theorem trim_append_left {blanks : List Char} (blank : ∀ c ∈ blanks, isBlank c) (cs : List Char) :
    trim (blanks ++ cs) = trim cs := by
  rw [trim, List.dropWhile_append_of_pos blank, trim]

theorem trim_append_right (cs : List Char) {blanks : List Char} (blank : ∀ c ∈ blanks, isBlank c) :
    trim (cs ++ blanks) = trim cs := by
  rw [trim, trim, List.dropWhile_append]
  split
  next none =>
    rw [List.isEmpty_iff.1 none, List.dropWhile_eq_nil_iff.2 blank]
  next =>
    have back : ∀ c ∈ blanks.reverse, isBlank c := fun c member => blank c (List.mem_reverse.1 member)
    rw [List.reverse_append, List.dropWhile_append_of_pos back]

/-- A text that begins and ends with characters that are not blank is left as it is. -/
theorem trim_eq_self {cs : List Char} (first : ∀ c ∈ cs.head?, isBlank c = false)
    (last : ∀ c ∈ cs.getLast?, isBlank c = false) : trim cs = cs := by
  have front : cs.dropWhile isBlank = cs := by
    refine List.dropWhile_eq_self_iff.2 fun some => ?_
    simp [first cs[0] (by simp [List.head?_eq_getElem?, some])]
  rw [trim_eq_rdropWhile, front]
  refine List.rdropWhile_eq_self_iff.2 fun some => ?_
  simp [last _ (List.getLast?_eq_some_getLast some)]

/-! ## Bytes of characters -/

theorem toList_eq (bytes : ByteArray) : bytes.toList = bytes.data.toList := by
  have loop : ∀ i read, ByteArray.toList.loop bytes i read =
      read.reverse ++ bytes.data.toList.drop i := by
    intro i read
    fun_induction ByteArray.toList.loop bytes i read with
    | case1 i read inside ih =>
      have here : i < bytes.data.toList.length := by simpa using inside
      have byte : bytes.get! i = bytes.data.toList[i] := by simp [ByteArray.get!, inside]
      rw [ih, List.drop_eq_getElem_cons here, byte, List.reverse_cons, List.append_assoc]
      rfl
    | case2 i read beyond =>
      rw [List.drop_eq_nil_of_le (by simpa using beyond), List.append_nil]
  rw [ByteArray.toList, loop]
  rfl

/-- The bytes of characters. -/
def encode (cs : List Char) : List UInt8 :=
  cs.flatMap String.utf8EncodeChar

theorem bytes_eq (text : String) : bytes text = encode text.toList := by
  have whole : text.toByteArray = text.toList.utf8Encode := by
    rw [← String.toByteArray_ofList, String.ofList_toList]
  rw [bytes, String.toUTF8_eq_toByteArray, whole, toList_eq, List.utf8Encode,
    List.toList_data_toByteArray]
  rfl

theorem decode?_encode (cs : List Char) : decode? (encode cs) = some cs := by
  have text : (⟨(encode cs).toArray⟩ : ByteArray) = (String.ofList cs).toUTF8 := by
    apply ByteArray.ext
    rw [← Array.toList_inj, ← toList_eq (String.ofList cs).toUTF8, ← bytes, bytes_eq,
      String.toList_ofList]
  have valid : String.fromUTF8? (String.ofList cs).toUTF8 = some (String.ofList cs) := by
    simp only [String.fromUTF8?, String.toUTF8_eq_toByteArray, dif_pos (String.ofList cs).isValidUTF8]
    rfl
  rw [decode?, string?, text, valid, Option.map_some, String.toList_ofList]

/-- A character with a byte below 128 has no other byte. -/
theorem utf8EncodeChar_of_mem {c : Char} {b : UInt8} (small : b.toNat < 128)
    (member : b ∈ String.utf8EncodeChar c) : c.toNat = b.toNat ∧ String.utf8EncodeChar c = [b] := by
  have low : c.val.toNat ≤ 127 := by
    by_contra high
    rw [String.utf8EncodeChar] at member
    simp only [high, if_false] at member
    split at member
    · simp only [List.mem_cons, List.not_mem_nil, or_false] at member
      rcases member with rfl | rfl <;> simp at small <;> omega
    · split at member
      · simp only [List.mem_cons, List.not_mem_nil, or_false] at member
        rcases member with rfl | rfl | rfl <;> simp at small <;> omega
      · simp only [List.mem_cons, List.not_mem_nil, or_false] at member
        rcases member with rfl | rfl | rfl | rfl <;> simp at small <;> omega
  rw [String.utf8EncodeChar] at member ⊢
  simp only [low, if_true, List.mem_singleton] at member ⊢
  subst member
  refine ⟨?_, rfl⟩
  rw [UInt8.toNat_ofNat_of_lt' (Nat.lt_of_le_of_lt low (by decide))]
  rfl

theorem lineFeed_mem_utf8EncodeChar {c : Char} :
    lineFeed ∈ String.utf8EncodeChar c ↔ c = '\n' := by
  constructor
  · intro member
    exact Char.toNat_inj.1 (utf8EncodeChar_of_mem (by decide) member).1
  · rintro rfl
    decide

/-! ## Lines -/

/-- What is before a separator goes on with the first piece. -/
theorem splitOn_append {α : Type} [BEq α] [LawfulBEq α] {a : α} {xs : List α} (free : a ∉ xs)
    (ys : List α) : (xs ++ ys).splitOn a = (ys.splitOn a).modifyHead (xs ++ ·) := by
  induction xs with
  | nil => exact (congrFun List.modifyHead_id _).symm
  | cons x xs ih =>
    obtain ⟨other, rest⟩ := not_or.1 (mt List.mem_cons.2 free)
    rw [List.cons_append, List.splitOn_cons_eq_if_modifyHead, if_neg (by simpa using Ne.symm other),
      ih rest, List.modifyHead_modifyHead]
    rfl

/-- The lines of the bytes are the bytes of the pieces. -/
theorem splitOn_encode (cs : List Char) :
    (encode cs).splitOn lineFeed = (cs.splitOn '\n').map encode := by
  induction cs with
  | nil => rfl
  | cons c cs ih =>
    change (String.utf8EncodeChar c ++ encode cs).splitOn lineFeed = _
    rw [List.splitOn_cons_eq_if_modifyHead]
    split
    next feed =>
      obtain rfl := eq_of_beq feed
      have byte : String.utf8EncodeChar '\n' = [lineFeed] := by decide
      rw [byte, List.singleton_append, List.splitOn_cons_eq_if_modifyHead, if_pos (beq_self_eq_true _),
        ih]
      rfl
    next other =>
      have free : lineFeed ∉ String.utf8EncodeChar c := fun member =>
        other (beq_iff_eq.2 (lineFeed_mem_utf8EncodeChar.1 member))
      rw [splitOn_append free, ih]
      cases cs.splitOn '\n' with
      | nil => rfl
      | cons piece pieces => rfl

/-- A carriage return that is taken off the end of a line was a blank at its end. -/
theorem exists_dropReturn_encode (cs : List Char) :
    ∃ ds, dropReturn (encode cs) = encode ds ∧ trim ds = trim cs := by
  unfold dropReturn
  split
  next last =>
    cases cs using List.reverseRecOn with
    | nil => exact absurd last (by simp [encode])
    | append_singleton ds c =>
      have joined : encode (ds ++ [c]) = encode ds ++ String.utf8EncodeChar c := by
        simp [encode]
      have some := String.utf8EncodeChar_ne_nil (c := c)
      rw [joined, List.getLast?_append_of_ne_nil _ some] at last
      obtain ⟨value, byte⟩ := utf8EncodeChar_of_mem (by decide) (List.mem_of_getLast? last)
      obtain rfl : c = '\r' := Char.toNat_inj.1 value
      refine ⟨ds, ?_, (trim_append_right ds (List.forall_mem_singleton.2 (by decide))).symm⟩
      rw [joined, byte, List.dropLast_concat]
  next => exact ⟨cs, rfl, rfl⟩

/-- Lines without their carriage returns read as what was written of them, but for blanks at their ends. -/
theorem exists_mapM_decode?_dropReturn (pieces : List (List Char)) :
    ∃ lines, ((pieces.map encode).map dropReturn).mapM decode? = some lines ∧
      lines.map trim = pieces.map trim := by
  induction pieces with
  | nil => exact ⟨[], rfl, rfl⟩
  | cons p ps ih =>
    obtain ⟨line, bytes, same⟩ := exists_dropReturn_encode p
    obtain ⟨lines, read, alike⟩ := ih
    refine ⟨line :: lines, ?_, by rw [List.map_cons, same, alike, List.map_cons]⟩
    rw [List.map_cons, List.map_cons, List.mapM_cons, bytes, decode?_encode, read]
    rfl

/-- **The lines of a text are the pieces between its line feeds**, but for blanks at their ends. -/
theorem exists_mapM_decode?_linesOf (cs : List Char) :
    ∃ lines, (linesOf (encode cs)).mapM decode? = some lines ∧
      lines.map trim = (cs.splitOn '\n').map trim := by
  obtain ⟨lines, read, alike⟩ := exists_mapM_decode?_dropReturn (cs.splitOn '\n').dropLast
  have some := List.splitOn_ne_nil '\n' cs
  have last := List.getLast?_eq_some_getLast some
  refine ⟨lines ++ [(cs.splitOn '\n').getLast some], ?_, ?_⟩
  · rw [linesOf, splitOn_encode, ← List.map_dropLast, List.getLast?_map, last, List.mapM_append, read]
    simp [decode?_encode]
  · rw [List.map_append, alike, ← List.map_append, List.dropLast_concat_getLast]

end MarketMaker.Text
