import MarketMaker.Cache.Store
import Std.Data.TreeMap

/-!
# A store of rows

A row per key, as a database keeps them. An expired row is not read any more, but stays until it is
overwritten or all expired rows are purged. Times are counted in milliseconds of a signed word, and an
expiry beyond that is refused.
-/

namespace MarketMaker.Cache

/-- Fields and the millisecond at which they expire. -/
structure Row where
  fields : Fields
  expires : Int

/-- A store of rows, at some time in milliseconds. -/
structure Rows where
  now : Int
  rows : Std.TreeMap String Row

namespace Rows

/-- A store without rows. -/
def empty (now : Int) : Rows := ⟨now, ∅⟩

/-- Whether a time in milliseconds can be told. -/
def isTime (t : Int) : Bool :=
  (Word.ofInt? t).isSome

/-- Whether a row can still be read. -/
def isLive (r : Rows) (row : Row) : Bool :=
  r.now < row.expires

/-- Keeps fields under a key. -/
def set (r : Rows) (key : String) (fields : Fields) (expiry : Duration) :
    Except CacheFault Unit × Rows :=
  let expires := r.now + expiry.milliseconds
  if isTime expiry.milliseconds && isTime expires then
    (.ok (), { r with rows := r.rows.insert key ⟨fields, expires⟩ })
  else (.error (.expiryOutOfRange key expiry), r)

/-- The fields under a key. -/
def get (r : Rows) (key : String) : Option Fields :=
  match r.rows[key]? with
  | none => none
  | some row => if r.isLive row then some row.fields else none

/-- Removes the expired rows, and counts them. -/
def purge (r : Rows) : Nat × Rows :=
  let live := r.rows.filter fun _ row => r.isLive row
  (r.rows.size - live.size, { r with rows := live })

end Rows

instance : Store Rows where
  ping r := (true, r)
  set := Rows.set
  get r key := (.ok (r.get key), r)

end MarketMaker.Cache
