import MarketMaker.Cache.Opening
import MarketMaker.CommandLine.Surroundings

/-!
# The file of rows

How a file of rows is found, opened and written. The path to it is first made straight: each name on the
way is looked up once it is reached, and a name that leads nowhere is no fault as long as it is gone back
from, but a name behind a file is. A straight path must leave room for the names of the files beside.

Beside the file there may be a journal, in which a program that writes keeps what was there before; a
log, in which it keeps its changes; and a file that says that the file is in use. What an earlier program
left of the first two is cleared away, since nothing in it can be of use to a file of rows.
-/

namespace MarketMaker.CommandLine

open Cache

/-- A file of rows that is open. -/
structure RowStore where
  path : Path
  /-- Whether the file asks for a log. -/
  isLogged : Bool
  /-- Whether changes are kept in a log first. -/
  usesLog : Bool
  /-- Whether rows can be kept. If not, the file stays as it is. -/
  takesRows : Bool

namespace RowStore

/-- The ending of a journal. -/
def journalEnding : String := "-journal"

/-- The ending of a log. -/
def logEnding : String := "-wal"

/-- The ending of the file that says that a file is in use. -/
def lockEnding : String := ".lock"

/-- The most bytes in a path. -/
def longestPath : Nat := 512

variable {m : Type → Type} [Monad m] [Surroundings m]

/-! ## The path -/

/-- Goes on from a place by one piece. -/
@[specialize] def goOn (place : Place) (piece : Name) : ExceptT OpenFault m Place :=
  match Path.turnOf piece with
  | .stay => return place
  | .up => return place.dropLast
  | .down name => do
    let next := Path.ofPlace (place ++ [name])
    if longestPath ≤ next.bytes.length then throw .unreadable
    match ← Surroundings.find next with
    | .ok place => return place
    | .error .notFound => return place ++ [name]
    | .error _ => throw .unreadable

/-- The straight path from the root. -/
@[specialize] def straighten (path : Path) : ExceptT OpenFault m Path := do
  let start ← if path.isRooted then pure [] else Surroundings.here
  let straight := Path.ofPlace (← path.pieces.foldlM goOn start)
  let length := straight.bytes.length
  if 2 ≤ length ∧ length + journalEnding.length ≤ longestPath then return straight
  else throw .unreadable

/-! ## The files beside -/

/-- The bytes of a file beside; none if it cannot be read. -/
@[specialize] def beside (path : Path) (ending : String) : ExceptT OpenFault m ByteArray :=
  return (← Surroundings.read (path.withEnding ending)).toOption.getD .empty

/-- Whether a file beside tells that the file is in use, by this program or by another. -/
@[specialize] def isMarked (o : Opening) (path : Path) : ExceptT OpenFault m Bool := do
  if o.guard ≠ .lockFile then return false
  else if o.locksBeside then return true
  else return (← Surroundings.find (path.withEnding lockEnding)).isOk

/-- Clears away what an earlier program left beside a file, and says whether there is a log. What is
beside an empty file is of no use. Beside another one, a journal whose first byte is zero was finished;
any other has to be undone, for which the file must be open for writing. Where a file beside tells that
the file is in use, so is the journal. -/
@[specialize] def clearBeside (o : Opening) (path : Path) (isEmpty : Bool) :
    ExceptT OpenFault m Bool := do
  let journal ← if ← isMarked o path then pure .empty else beside path journalEnding
  let log ← beside path logEnding
  if isEmpty then
    if journal.size ≠ 0 && (o.mayWrite || !o.locksFile) then
      Surroundings.remove (path.withEnding journalEnding)
    if log.size ≠ 0 then Surroundings.remove (path.withEnding logEnding)
    return false
  else
    if journal.data[0]?.any (· ≠ 0) then
      if !o.mayWrite then throw .unreadable
      Surroundings.remove (path.withEnding journalEnding)
    if log.size = 0 then return false
    if !o.locksFile then throw .unreadable
    if o.mayWrite then Surroundings.remove (path.withEnding logEnding)
    return true

/-- Makes the log that a file asks for. It stays behind if the file may not be written. -/
@[specialize] def makeLog (o : Opening) (path : Path) : ExceptT OpenFault m Unit := do
  let log := path.withEnding logEnding
  if !o.locksFile then throw .unreadable
  if !(← Surroundings.write log .empty) then throw .unreadable
  if o.mayWrite then Surroundings.remove log

/-- Finds out whether changes are kept in a log. Nothing beside a file counts if it never changes. -/
@[specialize] def settleLog (o : Opening) (path : Path) (content : Content) :
    ExceptT OpenFault m Bool := do
  if o.isFrozen then return false
  let isThere ← clearBeside o path content.isNothing
  if content.isLogged && !isThere then makeLog o path
  return isThere || content.isLogged

/-! ## Opening and writing -/

/-- Reads a file, after making it if there is none and one may be made. -/
@[specialize] def readOrMake (o : Opening) (path : Path) : ExceptT OpenFault m ByteArray := do
  match ← Surroundings.read path with
  | .ok bytes => return bytes
  | .error .notFound =>
    if o.access ≠ .create then throw .unreadable
    if ← Surroundings.write path .empty then return .empty else throw .unreadable
  | .error _ => throw .unreadable

/-- Writes rows, and says whether that was possible. Unless there is a log, a journal lies beside the
file in the meantime. -/
@[specialize] def write (s : RowStore) (rows : Rows) : m Bool := do
  let bytes := RowFile.bytes ⟨rows, s.isLogged⟩
  if s.usesLog then Surroundings.write s.path bytes
  else
    let journal := s.path.withEnding journalEnding
    if ← Surroundings.write journal .empty then
      let written ← Surroundings.write s.path bytes
      Surroundings.remove journal
      return written
    else return false

/-- Keeps rows for the next program, if they can be kept. Whether that was possible makes no
difference. -/
@[specialize] def keep (s : RowStore) (rows : Rows) : m Unit := do
  if s.takesRows then
    let _ ← s.write rows

/-- Writes the rows that are found or made on opening. They have to be there afterwards, which a device
does not grant. -/
@[specialize] def writeFirst (s : RowStore) (rows : Rows) : ExceptT OpenFault m Unit := do
  let written ← s.write rows
  let found ← Surroundings.read s.path
  if !written || !found.toOption.any (0 < ·.size) then throw .unreadable

/-- Opens the file at a path. -/
@[specialize] def openAt (path : Path) (o : Opening) : ExceptT OpenFault m (RowStore × Rows) := do
  let path ← straighten path
  if let some model := o.model then
    if !(← Surroundings.find model).isOk then throw .unreadable
  let bytes ← readOrMake o path
  if o.locksBeside then
    match ← Surroundings.find (path.withEnding lockEnding) with
    | .error .notFound => pure ()
    | _ => throw .unreadable
  let now := (← Surroundings.today).milliseconds
  let content := Content.ofBytes now bytes
  let usesLog ← settleLog o path content
  let opened ← MonadExcept.ofExcept (Opened.ofContent now o.mayWrite content)
  let store : RowStore := ⟨path, content.isLogged, usesLog, opened.takesRows⟩
  if opened.isChanged && opened.takesRows then writeFirst store opened.rows
  return (store, opened.rows)

end RowStore

end MarketMaker.CommandLine
