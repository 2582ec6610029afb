import MarketMaker.Database.File

/-!
# Trees of pages

The rows of a table, and the entries of an index, lie in the leaves of a tree of pages, in their order.
A page above the leaves has a cell for each page below but the last; in an index such a cell holds an
entry as well. A page tells its kind, the number of its cells, and where each cell is.

What a cell holds begins in its page. If it is too long for that, the rest lies in further pages, each of
which names the next.
-/

namespace MarketMaker.Database

/-- The kinds of trees. -/
inductive Kind where
  | table
  | index
deriving DecidableEq

/-- A page of a tree. -/
structure Page where
  /-- Where the page begins. -/
  start : Nat
  /-- Where what the page tells of itself begins. -/
  head : Nat
  isLeaf : Bool
  /-- Where each cell is. -/
  cells : List Nat
  /-- The last page below. -/
  last : Nat

namespace File

/-- The deepest tree. -/
def deepest : Nat := 20

/-- The byte that tells the kind of a page. -/
def kindByte : Kind → Bool → UInt8
  | .table, true => 13
  | .table, false => 5
  | .index, true => 10
  | .index, false => 2

/-- Reads a page of a tree of some kind. The first page has the beginning of the file in front of it. -/
def page? (f : File) (kind : Kind) (n : Nat) : Option Page := do
  let start ← f.pageStart? n
  let head := if n = 1 then start + 100 else start
  let first := byteAt f.bytes head
  let isLeaf := first = kindByte kind true
  let count := numberAt f.bytes (head + 3) 2
  let cellsAt := if isLeaf then head + 8 else head + 12
  if (isLeaf || first = kindByte kind false) && count ≤ (f.pageSize - 8) / 6 then
    some {
      start, head, isLeaf
      cells := (List.range count).map fun i =>
        start + numberAt f.bytes (cellsAt + 2 * i) 2 % f.pageSize
      last := numberAt f.bytes (head + 8) 4 }
  else none

/-! ## Room for cells -/

/-- The bytes of a page that no cell takes, from a chain of at most `fuel` gaps between cells: each names
the next one and tells its own size. Gaps must be in their order, and the last one must end in the page. -/
def gaps? (f : File) (start : Nat) : Nat → Nat → Option Nat
  | 0, _ => none
  | fuel + 1, gap =>
    let next := numberAt f.bytes (start + gap) 2
    let size := numberAt f.bytes (start + gap + 2) 2
    if f.usable - 4 < gap then none
    else if gap + size + 3 < next then (f.gaps? start fuel next).map (size + ·)
    else if next ≠ 0 ∨ f.usable < gap + size then none
    else some size

/-- Whether a page, if it is a leaf, tells of its gaps in a way that makes sense, so that a cell can be
put into it. -/
def hasSoundGaps (f : File) (page : Page) : Bool :=
  let first := numberAt f.bytes (page.head + 1) 2
  let contentStart := match numberAt f.bytes (page.head + 5) 2 with
    | 0 => 65536
    | n => n
  let gaps? := if first = 0 then some 0
    else if first < contentStart then none
    else f.gaps? page.start f.pageSize first
  !page.isLeaf || gaps?.any fun gaps =>
    let free := (byteAt f.bytes (page.head + 7)).toNat + contentStart + gaps
    page.head - page.start + 8 + 2 * page.cells.length ≤ free && free ≤ f.usable

/-- Whether a cell can be put into the tree at a page. -/
def takesCells (f : File) (kind : Kind) (top : Nat) : Bool :=
  (f.page? kind top).any f.hasSoundGaps

/-! ## What a cell holds -/

/-- How many of some bytes begin in the page of their cell. -/
def localCount (f : File) (kind : Kind) (count : Nat) : Nat :=
  let most := match kind with
    | .table => f.usable - 35
    | .index => (f.usable - 12) * 64 / 255 - 23
  let least := (f.usable - 12) * 32 / 255 - 23
  let fitting := least + (count - least) % (f.usable - 4)
  if count ≤ most then count else if fitting ≤ most then fitting else least

/-- The bytes that lie in further pages, at most `fuel` of them. -/
def further? (f : File) : Nat → Nat → Nat → Option (List UInt8)
  | _, _, 0 => some []
  | 0, _, _ + 1 => none
  | fuel + 1, page, count + 1 => do
    let start ← f.pageStart? page
    let here := min (count + 1) (f.usable - 4)
    let rest ← f.further? fuel (numberAt f.bytes start 4) (count + 1 - here)
    return bytesAt f.bytes (start + 4) here ++ rest

/-- What a cell holds behind the number of its bytes, which is read already. -/
def content? (f : File) (kind : Kind) (page : Page) (count start : Nat) : Option (List UInt8) := do
  let here := f.localCount kind count
  if start + here > page.start + f.pageSize then none
  else
    let rest ← f.further? f.pages (numberAt f.bytes (start + here) 4) (count - here)
    return bytesAt f.bytes start here ++ rest

/-- The most bytes of a number of varying length. -/
def longestVarint : Nat := 9

/-- Reads a number of varying length in a file, and says where it ends. -/
def varintAt? (f : File) (start : Nat) : Option (Nat × Nat) := do
  let (n, rest) ← varint? (bytesAt f.bytes start longestVarint)
  return (n, start + longestVarint - rest.length)

/-- What a cell holds. In front of the bytes there are their number and, in a table, the number of the
row. -/
def cell? (f : File) (kind : Kind) (page : Page) (start : Nat) : Option (List UInt8) := do
  let (count, start) ← f.varintAt? start
  match kind with
  | .index => f.content? kind page count start
  | .table => do
    let (_, start) ← f.varintAt? start
    f.content? kind page count start

/-! ## Walking a tree -/

/-- What the cells hold of the tree at a page, which is at most `depth` pages deep. Below the top a page
must have cells. -/
def cells? (f : File) (kind : Kind) : Nat → Nat → Option (List (List UInt8))
  | 0, _ => none
  | depth + 1, n => do
    let page ← f.page? kind n
    if page.cells.isEmpty && depth + 1 < deepest then none
    else if page.isLeaf then page.cells.mapM (f.cell? kind page)
    else
      let below ← page.cells.mapM fun start => do
        let rows ← f.cells? kind depth (numberAt f.bytes start 4)
        match kind with
        | .table => return rows
        | .index => return rows ++ [← f.cell? kind page (start + 4)]
      return below.flatten ++ (← f.cells? kind depth page.last)

/-- What the cells of a tree hold, from the page at its top. Only the tree at the first page may have a
top without cells above other pages. -/
def rows? (f : File) (kind : Kind) (top : Nat) : Option (List (List UInt8)) := do
  let page ← f.page? kind top
  if page.cells.isEmpty && !page.isLeaf && top ≠ 1 then none
  else f.cells? kind deepest top

end File

end MarketMaker.Database
