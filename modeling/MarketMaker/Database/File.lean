import MarketMaker.Database.Number

/-!
# Database files

A database is a row of pages of one size, numbered from one. The first hundred bytes of the first page
say how large a page is, how much of each is in use, how many pages there are, and what may be done with
the file. Bytes beyond the end of the file are zeros.
-/

namespace MarketMaker.Database

/-- How texts are kept. -/
inductive Encoding where
  | utf8
  /-- In units of two bytes, of which the lower comes first. -/
  | lowFirst
  /-- In units of two bytes, of which the higher comes first. -/
  | highFirst
deriving DecidableEq

/-- A database file. -/
structure File where
  bytes : ByteArray
  pageSize : Nat
  /-- The bytes of a page that are in use, from its beginning. -/
  usable : Nat
  /-- The number of pages. -/
  pages : Nat
  encoding : Encoding
  /-- The page that lists free pages, and the number of free pages. -/
  free : Nat × Nat
  /-- Whether changes are kept in a log beside the file first. -/
  isLogged : Bool
  /-- Whether the file may be read only. -/
  isReadOnly : Bool

/-- A byte of a file. -/
def byteAt (bytes : ByteArray) (i : Nat) : UInt8 :=
  if h : i < bytes.size then bytes[i] else 0

/-- Bytes of a file. -/
def bytesAt (bytes : ByteArray) (start count : Nat) : List UInt8 :=
  (List.range count).map fun i => byteAt bytes (start + i)

/-- A number in a file. -/
def numberAt (bytes : ByteArray) (start count : Nat) : Nat :=
  number (bytesAt bytes start count)

namespace File

/-- How a file begins. -/
def magic : List UInt8 :=
  "SQLite format 3".toUTF8.toList ++ [0]

/-- The sizes that a page may have. -/
def pageSizes : List Nat :=
  [512, 1024, 2048, 4096, 8192, 16384, 32768, 65536]

/-- The fewest bytes of a page that may be in use. -/
def leastUsable : Nat := 480

/-- What goes into a page of rows at most, of which a fixed share is told in the first page. -/
def shares : List Nat := [64, 32, 32]

/-- The newest layout of definitions that is known. -/
def newestLayout : Nat := 4

/-- The encoding of a number. -/
def encodingOf (n : Nat) : Encoding :=
  match n % 4 with
  | 2 => .lowFirst
  | 3 => .highFirst
  | _ => .utf8

/-- Reads the beginning of a file. -/
def ofBytes? (bytes : ByteArray) : Option File :=
  let at1 := fun i => (byteAt bytes i).toNat
  let at4 := fun i => numberAt bytes i 4
  let pageSize := 256 * at1 16 + 65536 * at1 17
  let usable := pageSize - at1 20
  let present := (bytes.size + pageSize - 1) / pageSize
  -- The number of pages is only told by a writer that also tells of the latest change.
  let pages := if at4 28 ≠ 0 ∧ at4 24 = at4 92 then at4 28 else present
  if bytesAt bytes 0 16 = magic ∧ bytesAt bytes 21 3 = shares.map Nat.toUInt8 ∧ at1 19 ≤ 2 ∧
      pageSize ∈ pageSizes ∧ leastUsable ≤ usable ∧ pages ≤ present ∧
      at1 47 ≤ newestLayout then
    some {
      bytes, pageSize, usable, pages
      encoding := encodingOf (at4 56)
      free := (at4 32, at4 36)
      isLogged := at1 19 = 2
      isReadOnly := 2 < at1 18 }
  else none

/-- Where a page begins, if there is one of that number. -/
def pageStart? (f : File) (page : Nat) : Option Nat :=
  if 1 ≤ page ∧ page ≤ f.pages then some ((page - 1) * f.pageSize) else none

end File

end MarketMaker.Database
