import MarketMaker.CommandLine.Options
import MarketMaker.CommandLine.RowStore
import MarketMaker.Feed.JsonLines
import MarketMaker.Feed.RandomWalk
import MarketMaker.Random.Draw
import MarketMaker.Session
import MarketMaker.Settings.Coverage
import MarketMaker.Settings.Json

/-!
# The program

Settings are read, then ticks; a cache is opened if one is asked for; the ticks are run, and the
report is written. Whatever fails first ends the program with one line about it. A list for which there
can be no room is no failure the program is ready for: it breaks off, with a status of its own.
-/

namespace MarketMaker.CommandLine

/-- What ends the program before its report is written. -/
inductive Failure where
  | settings (path : String)
  | ticks (path : String)
  | noTicks
  | cache (path : String)
  | error (error : Error)
  | budget (seconds : Float)
  | report (path : String)
  /-- A list was asked for that is longer than any can be. -/
  | noRoom
deriving DecidableEq

/-- The failure in words. -/
def Failure.message : Failure → String
  | settings path => "failed to read config " ++ path
  | ticks path => "failed to load ticks from " ++ path
  | noTicks => "tick feed is empty"
  | cache path => "failed to open cache " ++ path
  | error e => e.message
  | budget seconds => "invalid --budget-secs " ++ Plain.ofFloat seconds
  | report path => "failed to write report " ++ path
  | noRoom => "capacity overflow"

/-- The failure that ends the program when a session cannot be started. -/
def Failure.ofHalt : Halt → Failure
  | .refused fault => .error (.settings fault)
  | .noRoom => .noRoom

/-! ## What files hold -/

/-- The settings in a file. -/
def settingsIn (path : String) (found : Except FileFault ByteArray) : Except Failure Settings :=
  match found.toOption.bind String.fromUTF8? with
  | none => .error (.settings path)
  | some text => (Settings.parse text).mapError fun _ => .settings path

/-- The ticks in a file. -/
def ticksIn (path : String) (found : Except FileFault ByteArray) : Except Failure (List Tick) :=
  match found.mapError Error.file >>= Feed.ofBytes with
  | .error _ => .error (.ticks path)
  | .ok (ticks, _) => .ok ticks

/-! ## What options ask for -/

namespace Options

/-- The synthetic feed. -/
def walkSettings (o : Options) : Feed.WalkSettings :=
  let standard : Feed.WalkSettings := {}
  { standard with
    seed := o.seed.getD standard.seed
    rounds := o.synthetic.getD standard.rounds }

/-- The synthetic ticks. -/
def syntheticTicks (o : Options) : Except Failure (List Tick) :=
  (o.walkSettings.ticks Random.KeyStream).mapError fun fault => .error (.settings fault)

/-- The time budget, if there is one. -/
def timeBudget (o : Options) : Except Failure (Option Duration) :=
  match o.budget with
  | none => .ok none
  | some seconds =>
    match Duration.ofFloat? seconds with
    | none => .error (.budget seconds)
    | some d => .ok (some d)

end Options

/-! ## Running -/

section Running

variable {m : Type → Type} [Monad m] [Surroundings m]

/-- The settings that are asked for. -/
@[specialize] def readSettings (o : Options) : ExceptT Failure m Settings :=
  match o.config with
  | none => return {}
  | some path => do MonadExcept.ofExcept (settingsIn path (← Surroundings.read (.ofString path)))

/-- The ticks that are asked for. -/
@[specialize] def readTicks (o : Options) : ExceptT Failure m (List Tick) :=
  match o.ticks with
  | none => MonadExcept.ofExcept o.syntheticTicks
  | some path => do MonadExcept.ofExcept (ticksIn path (← Surroundings.read (.ofString path)))

/-- The failure of a store that a word of the command line said. -/
def storeFailure (word : String) : Cache.OpenFault → Failure
  | .unreadable => .cache word
  | .refused fault => .error (.cache fault)

/-- Opens the rows at the place that a word says, in a file unless they are only kept in memory. -/
@[specialize] def openRows (word : String) : ExceptT Failure m (Option RowStore × Cache.Rows) := do
  match Cache.Location.ofWord? word with
  | none => throw (.cache word)
  | some .memory => return (none, .empty (← Surroundings.today).milliseconds)
  | some (.file path opening) =>
    let opened ← ExceptT.lift (RowStore.openAt path opening).run
    let (store, rows) ← MonadExcept.ofExcept (opened.mapError (storeFailure word))
    return (some store, rows)

/-- Runs ticks with a cache. -/
@[specialize] def replay {σ : Type} [Cache.Store σ] (o : Options) (settings : Settings)
    (ticks : List Tick) (cache : σ) : ExceptT Failure m (Session σ) := do
  let session ← MonadExcept.ofExcept ((Session.start settings cache).mapError .ofHalt)
  let budget ← MonadExcept.ofExcept o.timeBudget
  session.runBy ticks budget

/-- Writes the report: what goes to the standard output. -/
@[specialize] def writeReport (o : Options) (r : Replay) : ExceptT Failure m String := do
  let text := (r.report (← Surroundings.today)).text
  match o.report with
  | none => return text ++ "\n"
  | some path =>
    if ← Surroundings.write (.ofString path) text.toUTF8 then return "" else throw (.report path)

/-- Runs the ticks that are asked for, and writes the report. What the cache was told is kept. -/
@[specialize] def execute (o : Options) : ExceptT Failure m String := do
  let settings ← readSettings o
  let ticks ← readTicks o
  if ticks.isEmpty then throw .noTicks
  let settings := settings.covering ticks
  match o.cache with
  | none => writeReport o (← replay o settings ticks Cache.Absent.mk).replay
  | some word =>
    let (store, rows) ← openRows word
    let session ← replay o settings ticks rows
    if let some store := store then
      if session.replay.ticksProcessed ≠ 0 then store.keep session.cache
    writeReport o session.replay

/-- How the program ends. -/
structure Outcome where
  status : UInt32
  output : String
  complaint : String

/-- Runs the program with the words of its command line. -/
@[specialize] def run (words : List String) : m Outcome :=
  match Request.ofWords words with
  | .error fault => return ⟨2, "", "error: " ++ fault.message⟩
  | .ok .help => return ⟨0, helpText, ""⟩
  | .ok (.replay options) => do
    match ← (execute options).run with
    | .error .noRoom => return ⟨101, "", Failure.noRoom.message⟩
    | .error failure => return ⟨1, "", "Error: " ++ failure.message⟩
    | .ok output => return ⟨0, output, ""⟩

end Running

end MarketMaker.CommandLine
