import MarketMaker.Cache.DatabaseRows
import MarketMaker.Cache.Location

/-!
# Opening a file of rows

What there is in a file decides what comes of opening it. An empty file becomes a file of rows, and so
does a database without a table of rows. From others the rows that have expired are removed. Both take a
file that may be written, and removing is tried even when nothing has expired, so a file that may only be
read is refused in any case: for the fault of writing to it if it has rows, and as no file of rows at all
if it has none.
-/

namespace MarketMaker.Cache

/-- What there is in a file. -/
inductive Content where
  | nothing
  | rows (file : RowFile)
  | database (file : Database.File)
  | other

namespace Content

/-- The most bytes of an empty file. -/
def largestEmpty : Nat := 1

/-- Tells what there is in a file. -/
def ofBytes (now : Int) (bytes : ByteArray) : Content :=
  if bytes.size ≤ largestEmpty then nothing
  else match RowFile.ofBytes? now bytes with
    | some file => rows file
    | none => (Database.File.ofBytes? bytes).elim other database

/-- Whether there is nothing. -/
def isNothing : Content → Bool
  | nothing => true
  | _ => false

/-- Whether changes are kept in a log beside the file first. -/
def isLogged : Content → Bool
  | rows file => file.isLogged
  | database file => file.isLogged
  | nothing | other => false

end Content

/-- Why a store is not opened. -/
inductive OpenFault where
  | unreadable
  | refused (fault : CacheFault)
deriving DecidableEq

/-- A store that is opened. -/
structure Opened where
  rows : Rows
  /-- Whether a table was made or rows were removed, which has to be kept. -/
  isChanged : Bool
  /-- Whether rows can be kept. If not, the file stays as it is. -/
  takesRows : Bool

namespace Opened

/-- A new store, if one may be made. -/
def fresh (now : Int) (mayWrite : Bool) : Except OpenFault Opened :=
  if mayWrite then .ok ⟨.empty now, true, true⟩ else .error .unreadable

/-- Opens a file of rows. -/
def ofRowFile (mayWrite : Bool) (file : RowFile) : Except OpenFault Opened :=
  if mayWrite then
    let (removed, rows) := file.rows.purge
    .ok ⟨rows, removed ≠ 0, true⟩
  else .error (.refused .readOnly)

/-- Whether room can be found for a table that is to be made: in the first page, and in a free page if
any is said to be. -/
def hasRoom (f : Database.File) : Bool :=
  f.takesCells .table 1 && (f.free.2 = 0 || f.free.2 < f.pages && 2 ≤ f.free.1 && f.free.1 ≤ f.pages)

/-- Opens a database. -/
def ofDatabase (now : Int) (mayWrite : Bool) (f : Database.File) : Except OpenFault Opened :=
  let mayWrite := mayWrite && !f.isReadOnly
  match Database.Schema.ofFile? f with
  | none => .error .unreadable
  | some s =>
    match s.relation? DatabaseRows.tableName with
    | some r =>
      match DatabaseRows.purge f s now mayWrite r with
      | .error fault => .error (.refused fault)
      | .ok purged => .ok ⟨purged.rows, purged.removed ≠ 0, purged.takesRows⟩
    | none =>
      if s.hasIndex DatabaseRows.tableName then .error .unreadable
      else fresh now (mayWrite && hasRoom f)

/-- Opens what there is in a file. -/
def ofContent (now : Int) (mayWrite : Bool) : Content → Except OpenFault Opened
  | .nothing => fresh now mayWrite
  | .rows file => ofRowFile mayWrite file
  | .database file => ofDatabase now mayWrite file
  | .other => .error .unreadable

end Opened

end MarketMaker.Cache
