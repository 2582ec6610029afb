import MarketMaker.Cache.Store
import Std.Data.TreeMap

/-!
# A store in memory

Each entry knows when it expires. An expired entry stays until it is read: reading it removes it, and
finds nothing. Times are counted in seconds of a signed word, and an expiry beyond that is refused.
-/

namespace MarketMaker.Cache

/-- Fields and the time at which they expire. -/
structure Entry where
  fields : Fields
  expires : Duration

/-- A store in memory, at some time. -/
structure Memory where
  now : Duration
  entries : Std.TreeMap String Entry

namespace Memory

/-- A store without entries. -/
def empty (now : Duration) : Memory := ⟨now, ∅⟩

/-- The number of entries, expired ones included until they are read. -/
def size (m : Memory) : Nat := m.entries.size

/-- Whether a time can be told. -/
def isTime (t : Duration) : Bool :=
  (Word.ofInt? t.seconds).isSome

/-- Keeps fields under a key. -/
def set (m : Memory) (key : String) (fields : Fields) (expiry : Duration) :
    Except CacheFault Unit × Memory :=
  let expires := m.now + expiry
  if isTime expires then (.ok (), { m with entries := m.entries.insert key ⟨fields, expires⟩ })
  else (.error (.expiryOutOfRange key expiry), m)

/-- The fields under a key. -/
def get (m : Memory) (key : String) : Option Fields × Memory :=
  match m.entries[key]? with
  | none => (none, m)
  | some entry =>
    if entry.expires.nanoseconds ≤ m.now.nanoseconds then
      (none, { m with entries := m.entries.erase key })
    else (some entry.fields, m)

end Memory

instance : Store Memory where
  ping m := (true, m)
  set := Memory.set
  get m key := let (fields, m) := m.get key; (.ok fields, m)

end MarketMaker.Cache
