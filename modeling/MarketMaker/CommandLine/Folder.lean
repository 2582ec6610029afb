import MarketMaker.CommandLine.Surroundings
import MarketMaker.Path

/-!
# Folders

A folder of files in memory, in which time stands still. Beside its own files there may be anything
around it: directories, links and devices, which keep nothing of what is written, and directories whose
files are made up by the machine and not written by anybody.

A path is followed piece by piece, and each piece is looked for in a directory; a link there leads on to
its place. So `x/../y` leads nowhere unless there is a directory `x`, and nothing lies behind a file,
not even the file itself. There is a directory wherever something lies below it. A file can only be
written into a directory that is there, and only where the machine does not make up the files itself.
-/

namespace MarketMaker.CommandLine

/-- Devices, by what becomes of bytes that are written. -/
inductive Device where
  /-- The bytes are shown. -/
  | output
  /-- The bytes are lost, and there are none to read. -/
  | nothing
  /-- The bytes are lost, and there is no end of bytes to read. -/
  | endless
  /-- No byte is taken. -/
  | closed
deriving DecidableEq

/-- What can be at a place. -/
inductive Node where
  | file (bytes : ByteArray)
  | directory
  | device (device : Device)
  | link (place : Place)

/-- What there is at its places, what was written to the standard output as if it were a file, and the
time at which all is looked at. -/
structure Folder where
  nodes : List (Place × Node)
  /-- The place of the folder itself. -/
  home : Place
  /-- The directories below which the files are made up. -/
  madeUp : List Place
  shown : ByteArray
  now : UtcTime

namespace Folder

/-- Nothing but a directory. -/
def empty (now : UtcTime) : Folder where
  nodes := [([], .directory)]
  home := []
  madeUp := []
  shown := .empty
  now := now

/-- Whether what is at a place is made up. -/
def isMadeUp (f : Folder) (place : Place) : Bool :=
  f.madeUp.any (·.isPrefixOf place)

/-! ## Paths -/

/-- What is at a place. -/
def node? (f : Folder) (place : Place) : Option Node :=
  match f.nodes.lookup place with
  | some node => some node
  | none => if f.nodes.any fun node => place.isPrefixOf node.1 then some .directory else none

/-- The place to which a link at a place leads, or else the place itself. -/
def behindLink (f : Folder) (place : Place) : Place :=
  match f.node? place with
  | some (.link place) => place
  | _ => place

/-- The most bytes in a name. -/
def longestName : Nat := 255

/-- The most bytes in a path. -/
def longestPath : Nat := 4095

/-- Follows one piece of a path from a place. -/
def follow (f : Folder) (place : Place) (piece : Name) : Except FileFault Place :=
  match f.node? place with
  | none => .error .notFound
  | some .directory =>
    match Path.turnOf piece with
    | .stay => .ok place
    | .up => .ok place.dropLast
    | .down name =>
      if name.length ≤ longestName then .ok (f.behindLink (place ++ [name]))
      else .error .nameTooLong
  | some _ => .error .notDirectory

/-- The place to which a path leads, whether or not there is anything. -/
def placeAt (f : Folder) (p : Path) : Except FileFault Place :=
  if p.bytes = [] then .error .notFound
  else if p.bytes.length > longestPath then .error .nameTooLong
  else p.pieces.foldlM f.follow (if p.isRooted then [] else f.home)

/-! ## Files -/

/-- The place to which a path leads, if there is anything. -/
def find (f : Folder) (p : Path) : Except FileFault Place := do
  let place ← f.placeAt p
  if (f.node? place).isSome then return place else throw .notFound

/-- The bytes of a file. -/
def read (f : Folder) (p : Path) : Except FileFault ByteArray := do
  match f.node? (← f.placeAt p) with
  | some (.file bytes) => return bytes
  | some (.device .nothing) => return .empty
  | some (.device _) | some (.link _) | none => throw .notFound
  | some .directory => throw .isDirectory

/-- The folder without what is at a place. -/
def clear (f : Folder) (place : Place) : Folder :=
  { f with nodes := f.nodes.filter fun node => node.1 ≠ place }

/-- The folder with a file at a place. -/
def put (f : Folder) (place : Place) (bytes : ByteArray) : Folder :=
  { f with nodes := (place, .file bytes) :: (f.clear place).nodes }

/-- The folder with a file written, if it can be. -/
def write? (f : Folder) (p : Path) (bytes : ByteArray) : Option Folder := do
  let place ← (f.placeAt p).toOption
  match f.node? place with
  | some (.device .output) => some { f with shown := f.shown ++ bytes }
  | some (.device .nothing) | some (.device .endless) => some f
  | some (.file _) | none => if f.isMadeUp place then none else some (f.put place bytes)
  | some (.device .closed) | some (.link _) | some .directory => none

/-- The folder without a file. -/
def remove (f : Folder) (p : Path) : Folder :=
  match f.placeAt p with
  | .error _ => f
  | .ok place =>
    match f.node? place with
    | some (.file _) => f.clear place
    | _ => f

/-- The folder with files in it, under their names. -/
def putAll (f : Folder) (files : List (String × ByteArray)) : Folder :=
  files.foldl (fun f file => f.put (f.home ++ (Path.ofString file.1).pieces) file.2) f

end Folder

instance : Surroundings (StateM Folder) where
  now := return .zero
  time work := return (work (), .zero)
  here := return (← get).home
  find path := do return (← get).find path
  read path := do return (← get).read path
  write path bytes := do
    match (← get).write? path bytes with
    | none => return false
    | some f => set f; return true
  remove path := modify fun f => f.remove path
  today := return (← get).now

end MarketMaker.CommandLine
