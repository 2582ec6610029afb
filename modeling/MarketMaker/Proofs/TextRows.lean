import MarketMaker.Cache.RowFile
import MarketMaker.Proofs.Expiring
import MarketMaker.Proofs.Json.Record

/-!
# Rows that hold texts

A database holds the fields of a row as one text, an object that is written when they are kept and read
when they are given back. It answers every request as the store of rows does that holds the fields
themselves (`TextRows.course_said`): any fields are read back from their text, whatever their names and
values are.
-/

namespace MarketMaker.Cache

/-- A text of fields, and the millisecond at which they expire. -/
structure TextRow where
  fields : String
  expires : Int

/-- A store of rows that hold texts, at some time in milliseconds. -/
structure TextRows where
  now : Int
  rows : Std.TreeMap String TextRow

namespace TextRows

/-- A store without rows. -/
def empty (now : Int) : TextRows := ⟨now, ∅⟩

/-- The text of fields. -/
def write (fields : Fields) : String :=
  (Json.record (fields.entries.map fun f => (f.1, .text f.2))).compact

/-- Reads fields from their text. -/
def read? (text : String) : Option Fields :=
  (Json.parse? text).bind Row.fieldsOfJson?

/-- Keeps fields under a key. -/
def set (x : TextRows) (key : String) (fields : Fields) (expiry : Duration) :
    Except CacheFault Unit × TextRows :=
  let expires := x.now + expiry.milliseconds
  if Rows.isTime expiry.milliseconds && Rows.isTime expires then
    (.ok (), { x with rows := x.rows.insert key ⟨write fields, expires⟩ })
  else (.error (.expiryOutOfRange key expiry), x)

/-- The fields under a key. A text that is none of fields is a fault, unless it has expired. -/
def get (x : TextRows) (key : String) : Except Error (Option Fields) :=
  match x.rows[key]? with
  | none => .ok none
  | some row =>
    if x.now < row.expires then
      match read? row.fields with
      | none => .error .json
      | some fields => .ok (some fields)
    else .ok none

/-- Removes the expired rows, and counts them. -/
def purge (x : TextRows) : Nat × TextRows :=
  let live := x.rows.filter fun _ row => x.now < row.expires
  (x.rows.size - live.size, { x with rows := live })

/-- What the store answers to a request. -/
def exchange (x : TextRows) (a : Asked) : Option Exchange × TextRows :=
  let x := { x with now := a.date }
  match a.request with
  | .set key fields expiry =>
    let (answer, x) := x.set key fields expiry
    (some (.set key fields expiry (answer.mapError .cache)), x)
  | .get key => (some (.get key (x.get key)), x)
  | .purge =>
    let (removed, x) := x.purge
    (some (.purge removed), x)

/-! ## Fields read back -/

theorem fieldsOfJson?_record (fields : Fields) :
    Row.fieldsOfJson? (.record (fields.entries.map fun f => (f.1, .text f.2))) = some fields := by
  have texts : (fields.entries.map fun f => (f.1, Json.text f.2)).mapM (m := Option)
      (fun m => do return (m.1, ← m.2.asText?)) = some fields.entries := by
    rw [List.mapM_map]
    exact (List.mapM_pure (m := Option) (f := id)).trans (by rw [List.map_id]; rfl)
  change (Json.named? _).bind _ = _
  rw [Json.named?_record, Option.bind_some, texts]
  exact congrArg some (Table.ofList_entries fields)

theorem read?_write (fields : Fields) : read? (write fields) = some fields := by
  have written : (Json.record (fields.entries.map fun f => (f.1, .text f.2))).IsWritten :=
    Json.isWritten_record.2 (List.forall_mem_map.2 fun f _ => .text f.2)
  rw [read?, write, Json.bind_parse?_compact written, fieldsOfJson?_record]

/-! ## The same answers -/

/-- The row that holds the text of the fields of another. -/
def encode (row : Row) : TextRow := ⟨write row.fields, row.expires⟩

/-- The rows hold the texts of the fields that other rows hold. -/
structure Encodes (x : TextRows) (r : Rows) : Prop where
  now : x.now = r.now
  rows : ∀ key : String, x.rows[key]? = r.rows[key]?.map encode

namespace Encodes

variable {x : TextRows} {r : Rows}

theorem size_eq (h : x.Encodes r) : x.rows.size = r.rows.size := by
  rw [← Std.TreeMap.length_keys (t := r.rows)]
  refine map_size_eq_length Std.TreeMap.nodup_keys fun key => ?_
  rw [Std.TreeMap.mem_keys, Std.TreeMap.mem_iff_isSome_getElem?, Std.TreeMap.mem_iff_isSome_getElem?,
    h.rows, Option.isSome_map]

theorem set (h : x.Encodes r) (key : String) (fields : Fields) (expiry : Duration) :
    (x.set key fields expiry).1 = (r.set key fields expiry).1 ∧
      (x.set key fields expiry).2.Encodes (r.set key fields expiry).2 := by
  unfold TextRows.set Rows.set
  rw [h.now]
  simp only
  split
  · refine ⟨rfl, rfl, fun other => ?_⟩
    change (x.rows.insert ..)[other]? = (r.rows.insert ..)[other]?.map encode
    rw [map_getElem?_insert, Std.TreeMap.getElem?_insert, Function.update_apply, ← h.rows]
    simp only [Std.compare_eq_iff_eq, eq_comm (a := key)]
    rfl
  · exact ⟨rfl, h⟩

theorem get (h : x.Encodes r) (key : String) : x.get key = .ok (r.get key) := by
  unfold TextRows.get
  rw [Rows.get_eq_bind, h.rows, h.now]
  cases r.rows[key]? with
  | none => rfl
  | some row =>
    simp only [Option.map_some, Option.bind_some, encode, read?_write]
    split
    · rfl
    · rfl

theorem purge (h : x.Encodes r) : x.purge.1 = r.purge.1 ∧ x.purge.2.Encodes r.purge.2 := by
  have live : x.purge.2.Encodes r.purge.2 := by
    refine ⟨h.now, fun key => ?_⟩
    change (x.rows.filter _)[key]? = (r.rows.filter _)[key]?.map encode
    rw [Std.TreeMap.getElem?_filter', Std.TreeMap.getElem?_filter', h.rows, h.now, Option.filter_map]
    rfl
  refine ⟨?_, live⟩
  change x.rows.size - x.purge.2.rows.size = r.rows.size - r.purge.2.rows.size
  rw [h.size_eq, live.size_eq]

theorem exchange (h : x.Encodes r) (a : Asked) :
    (x.exchange a).1 = (r.exchange a).1 ∧ (x.exchange a).2.Encodes (r.exchange a).2 := by
  have present : Encodes { x with now := a.date } { r with now := a.date } := ⟨rfl, h.rows⟩
  unfold TextRows.exchange Rows.exchange
  cases a.request with
  | set key fields expiry =>
    obtain ⟨answer, encodes⟩ := present.set key fields expiry
    exact ⟨by simp only [answer], encodes⟩
  | get key => exact ⟨by simp only [present.get key], present⟩
  | purge =>
    obtain ⟨removed, encodes⟩ := present.purge
    exact ⟨by simp only [removed], encodes⟩

end Encodes

/-- Rows of texts and rows of fields say the same. -/
theorem course_said (start : Int) (history : List Asked) :
    (course exchange (empty start) history).said =
      (course Rows.exchange (.empty start) history).said := by
  suffices same : (course exchange (empty start) history).said =
      (course Rows.exchange (.empty start) history).said ∧
      (course exchange (empty start) history).store.Encodes
        (course Rows.exchange (.empty start) history).store from same.1
  induction history using List.reverseRecOn with
  | nil => exact ⟨rfl, rfl, fun key => rfl⟩
  | append_singleton past a ih =>
    obtain ⟨said, encodes⟩ := ih
    obtain ⟨answer, encodes⟩ := encodes.exchange a
    rw [course_append, course_append]
    exact ⟨by rw [Course.next, Course.next, said, answer], encodes⟩

end TextRows

end MarketMaker.Cache
