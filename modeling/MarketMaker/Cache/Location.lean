import MarketMaker.Path
import MarketMaker.Text.Percent

/-!
# Where rows are kept

Rows are kept in a file, or in memory for as long as the program runs. A word says where: `:memory:`, a
path, or an address, which begins with `file:` and may say in options behind a question mark how the
place is opened. Options that are not known say nothing, and of some options only the first value
counts.

An address names a file of this machine, so a machine named in it can only be `localhost`. Its marks
are looked for before escapes are read: an escaped mark is a character like any other. What escapes
stand for is bytes, so names and values need not be texts.
-/

namespace MarketMaker.Cache

/-- What a file of rows may be opened for. -/
inductive Access where
  /-- Reading rows that are there. -/
  | read
  /-- Reading and writing rows that are there. -/
  | write
  /-- Reading and writing rows, in a new file if there is none. -/
  | create
deriving DecidableEq

/-- Whether a file that may be opened for one thing may be opened for another. -/
def Access.permits : Access → Access → Bool
  | .create, _ => true
  | .write, asked => asked ≠ .create
  | .read, asked => asked = .read

/-- How others are kept from a file of rows. -/
inductive Guard where
  /-- By locks on the file itself, each for as long as it is needed. -/
  | shared
  /-- By locks on the file itself that are never given back. -/
  | exclusive
  /-- By another file beside it. -/
  | lockFile
  /-- Not at all. -/
  | none
deriving DecidableEq

/-- How a file of rows is opened. -/
structure Opening where
  access : Access := .create
  guard : Guard := .shared
  /-- Whether no lock is taken, whatever the guard. -/
  isUnlocked : Bool := false
  /-- Whether the file is said never to change. -/
  isFrozen : Bool := false
  /-- What a new file takes its permissions from. -/
  model : Option Path := Option.none
deriving DecidableEq

namespace Opening

/-- Whether rows may be written. -/
def mayWrite (o : Opening) : Bool :=
  o.access ≠ .read && !o.isFrozen

/-- Whether locks are taken on the file itself. Only then can several programs follow a log. -/
def locksFile (o : Opening) : Bool :=
  !o.isUnlocked && (o.guard = .shared || o.guard = .exclusive)

/-- Whether a file beside tells others that the file is in use. -/
def locksBeside (o : Opening) : Bool :=
  !o.isUnlocked && !o.isFrozen && o.guard = .lockFile

end Opening

/-- Where rows are kept. -/
inductive Location where
  | memory
  | file (path : Path) (opening : Opening)
deriving DecidableEq

/-! ## Addresses -/

/-- How a place is opened. -/
inductive Mode where
  | memory
  | file (access : Access)
deriving DecidableEq

namespace Mode

/-- The mode of a name. -/
def ofName? (name : String) : Option Mode :=
  if name = "ro" then some (.file .read)
  else if name = "rw" then some (.file .write)
  else if name = "rwc" then some (.file .create)
  else if name = "memory" then some .memory
  else none

/-- Opens a place in another way, if that asks for no more of a file than before. -/
def narrow? : Mode → Mode → Option Mode
  | .file held, .file asked => if held.permits asked then some (.file asked) else none
  | _, asked => some asked

end Mode

/-- What keeps rows. -/
inductive Driver where
  | memory
  | file (guard : Guard)
deriving DecidableEq

/-- The driver of a name. -/
def Driver.ofName? (name : String) : Option Driver :=
  if name = "unix" then some (.file .shared)
  else if name = "unix-excl" then some (.file .exclusive)
  else if name = "unix-dotfile" then some (.file .lockFile)
  else if name = "unix-none" then some (.file .none)
  else if name = "memdb" then some .memory
  else none

/-- An address: a path, and options in their order. -/
structure Address where
  path : List UInt8
  options : List (List UInt8 × List UInt8)
deriving DecidableEq

namespace Address

/-- How an address begins. -/
def scheme : String := "file:"

/-- What follows the name of the machine, if that is this machine. -/
def behindMachine? : List Char → Option (List Char)
  | '/' :: '/' :: rest =>
    let machine := String.ofList (rest.takeWhile (· ≠ '/'))
    if machine = "" || machine = "localhost" then some (rest.dropWhile (· ≠ '/')) else none
  | cs => some cs

/-- The two parts of characters around the first mark. -/
def around (mark : Char) (cs : List Char) : List Char × List Char :=
  (cs.takeWhile (· ≠ mark), (cs.dropWhile (· ≠ mark)).drop 1)

/-- An option: its name and its value. -/
def optionOf (cs : List Char) : List UInt8 × List UInt8 :=
  let (name, value) := around '=' cs
  (Text.unescape name, Text.unescape value)

/-- Reads what follows the beginning of an address. -/
def ofChars? (cs : List Char) : Option Address := do
  let (cs, _) := around '#' (← behindMachine? cs)
  let (path, options) := around '?' cs
  return ⟨Text.unescape path, ((options.splitOn '&').map optionOf).filter fun o => o.1 ≠ []⟩

/-- The values of an option. -/
def values (a : Address) (name : String) : List (List UInt8) :=
  a.options.filterMap fun o => if o.1 = Text.bytes name then some o.2 else none

/-- The values of an option, if they are texts. -/
def texts? (a : Address) (name : String) : Option (List String) :=
  (a.values name).mapM Text.string?

/-- How the place is opened: each mode asked for goes on from the one before. -/
def mode? (a : Address) : Option Mode := do
  (← a.texts? "mode").foldlM (fun mode name => (Mode.ofName? name).bind mode.narrow?)
    (.file .create)

/-- Whether the store may be shared or not, if that is asked for, can be told. -/
def isShareable (a : Address) : Bool :=
  (a.texts? "cache").any fun names => names.all ["shared", "private"].contains

/-- The driver: the last one that is asked for. -/
def driver? (a : Address) : Option Driver :=
  match (a.values "vfs").getLast? with
  | none => some (.file .shared)
  | some name => (Text.string? name).bind Driver.ofName?

/-- The number of digits. -/
def numberOf (base : Nat) (digits : List Char) : Nat :=
  digits.foldl (fun n c => base * n + (Text.hexValue? c).getD 0) 0

/-- The number in front of characters of which the first is a digit: a decimal one, or a hexadecimal
one behind `0x`. -/
def leadingNumber (cs : List Char) : Nat :=
  let decimal := numberOf 10 (cs.takeWhile Char.isDigit)
  match cs with
  | '0' :: x :: digits =>
    let digits := digits.takeWhile fun c => (Text.hexValue? c).isSome
    if x.toLower = 'x' && !digits.isEmpty then numberOf 16 digits else decimal
  | _ => decimal

/-- Whether the value of a switch turns it on: a word, or a number of 31 bits whose lowest byte is not
zero. -/
def isOn (value : List UInt8) : Bool :=
  let cs := Text.byteChars value
  if cs.head?.any Char.isDigit then
    let n := leadingNumber cs
    n < 2147483648 && n % 256 != 0
  else ["on", "yes", "true"].contains (String.ofList cs).toLower

/-- Whether a switch is on. -/
def switch (a : Address) (name : String) : Bool :=
  (a.values name).head?.any isOn

end Address

/-! ## Locations -/

namespace Location

/-- The word for a place in memory. -/
def memoryName : String := ":memory:"

/-- The most bytes in the path of a driver that keeps rows in memory. -/
def longestMemoryPath : Nat := 1016

/-- A place in memory. It starts without rows, so it is of no use for reading alone. -/
def inMemory? (mayWrite : Bool) : Option Location :=
  if mayWrite then some .memory else none

/-- The place at an address. -/
def ofAddress? (a : Address) : Option Location := do
  let mode ← a.mode?
  let driver ← a.driver?
  if !a.isShareable then none
  else match mode with
    | .memory => some .memory
    | .file access =>
      let isFrozen := a.switch "immutable"
      if a.path = [] || a.path = Text.bytes memoryName then inMemory? (access ≠ .read)
      else match driver with
        | .memory =>
          inMemory? (access ≠ .read && !isFrozen && a.path.length ≤ longestMemoryPath)
        | .file guard =>
          let isUnlocked := a.switch "nolock"
          let model := (a.values "modeof").head?.map Path.ofBytes
          some (.file (Path.ofBytes a.path) { access, guard, isUnlocked, isFrozen, model })

/-- The place that a word says, if there can be one. -/
def ofWord? (word : String) : Option Location :=
  if word = memoryName then some .memory
  else if Address.scheme.toList.isPrefixOf word.toList then
    (Address.ofChars? (word.toList.drop Address.scheme.length)).bind ofAddress?
  else some (.file (Path.ofString word) {})

end Location

end MarketMaker.Cache
