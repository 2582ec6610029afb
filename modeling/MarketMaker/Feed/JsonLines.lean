import MarketMaker.Error
import MarketMaker.Market.Json
import MarketMaker.Text.Blank
import MarketMaker.Text.Lines

/-!
# Ticks from JSON lines

One tick a line. Blank lines are passed over; lines that hold no tick are counted and passed over;
ticks stay in the order of their lines. A tick that is earlier than one before it is counted too. Only
a line that is no text at all makes the whole feed unreadable.
-/

namespace MarketMaker.Feed

/-- What a feed of lines held. -/
structure LoadCount where
  loaded : UInt64
  skipped : UInt64
  outOfOrder : UInt64
deriving DecidableEq

namespace LoadCount

/-- Whether no tick was earlier than one before it. -/
def isOrdered (c : LoadCount) : Bool :=
  c.outOfOrder = 0

/-- The counts as an object. -/
def toJson (c : LoadCount) : Json :=
  .record [("loaded", .ofWord c.loaded), ("skipped", .ofWord c.skipped),
    ("out_of_order", .ofWord c.outOfOrder)]

end LoadCount

/-- What a line holds. -/
inductive Line where
  | blank
  | malformed
  | tick (tick : Tick)

/-- Reads a line. -/
def Line.ofChars (cs : List Char) : Line :=
  let cs := Text.trim cs
  if cs.isEmpty then .blank
  else match (Json.ofChars? cs).bind Tick.ofJson? with
    | some t => .tick t
    | none => .malformed

/-- What is loaded so far. -/
structure Load where
  ticks : Array Tick
  count : LoadCount
  /-- The latest timestamp of a tick. -/
  latest : Option Int64

namespace Load

/-- Nothing is loaded. -/
def empty : Load := ⟨#[], ⟨0, 0, 0⟩, none⟩

/-- Takes a tick, and counts it as late if one before it has a later timestamp. -/
def add (l : Load) (t : Tick) : Load where
  ticks := l.ticks.push t
  count := { l.count with
    loaded := l.count.loaded + 1
    outOfOrder :=
      if l.latest.any (t.timestamp < ·) then l.count.outOfOrder + 1 else l.count.outOfOrder }
  latest := some (l.latest.elim t.timestamp (max · t.timestamp))

/-- Counts a line that holds no tick. -/
def skip (l : Load) : Load :=
  { l with count := { l.count with skipped := l.count.skipped + 1 } }

/-- Takes what a line holds. -/
def take (l : Load) : Line → Load
  | .blank => l
  | .malformed => l.skip
  | .tick t => l.add t

/-- Takes a line in bytes, if it is a text. -/
def addLine (l : Load) (line : List UInt8) : Except Error Load :=
  match Text.decode? line with
  | none => .error (.file .notText)
  | some cs => .ok (l.take (.ofChars cs))

end Load

/-- The ticks in the bytes of a file, and what its lines held. -/
def ofBytes (bytes : ByteArray) : Except Error (List Tick × LoadCount) :=
  ((Text.linesOf bytes.toList).foldlM Load.addLine .empty).map fun l => (l.ticks.toList, l.count)

end MarketMaker.Feed
