import MarketMaker.Decimal.Plain

/-!
# Options

What the words of a command line ask for. An option has a long name, and some have a letter too; its
value follows in the next word, or in the same word behind `=`, or right behind the letter. Each
option is given at most once, and there is nothing but options. Words are read from left to right, and
the first that asks for help or is at fault decides.
-/

namespace MarketMaker.CommandLine

/-- The options. -/
inductive Switch where
  | config
  | ticks
  | synthetic
  | seed
  | budget
  | cache
  | report
  | logLevel
deriving DecidableEq, Repr

namespace Switch

/-- All options, in the order in which help lists them. -/
def all : List Switch :=
  [config, ticks, synthetic, seed, budget, cache, report, logLevel]

/-- The long name. -/
def name : Switch → String
  | config => "config"
  | ticks => "ticks"
  | synthetic => "synthetic"
  | seed => "seed"
  | budget => "budget-secs"
  | cache => "sqlite-cache"
  | report => "report"
  | logLevel => "log-level"

/-- The letter. -/
def letter? : Switch → Option Char
  | config => some 'c'
  | ticks => some 't'
  | report => some 'r'
  | logLevel => some 'l'
  | _ => none

/-- What help calls the option's value. -/
def valueName : Switch → String
  | synthetic => "N"
  | budget => "BUDGET_SECS"
  | cache => "SQLITE_CACHE"
  | logLevel => "LOG_LEVEL"
  | s => s.name.toUpper

/-- What the option is for. -/
def purpose : Switch → String
  | config => "JSON configuration file"
  | ticks => "JSON-lines tick file"
  | synthetic => "Generate N synthetic ticks per symbol"
  | seed => "Seed for the synthetic feed [default: 42]"
  | budget => "Stop after this many wall-clock seconds"
  | cache => "Cache ticks and trades in a SQLite file"
  | report => "Write the JSON report here instead of stdout"
  | logLevel => "Log filter, overridden by RUST_LOG [default: info]"

end Switch

/-- A command line that cannot be followed. -/
inductive UsageFault where
  /-- A word that is no option, or gives a value to one that takes none. -/
  | unexpected (word : String)
  | missingValue (option : Switch)
  | malformed (option : Switch) (value : String)
  | repeated (option : Switch)
  /-- A file of ticks and synthetic ticks are both asked for. -/
  | twoFeeds
deriving DecidableEq, Repr

/-- The fault in words. -/
def UsageFault.message : UsageFault → String
  | unexpected word => "unexpected argument '" ++ word ++ "'"
  | missingValue option => "a value is required for '--" ++ option.name ++ "'"
  | malformed option value => "invalid value '" ++ value ++ "' for '--" ++ option.name ++ "'"
  | repeated option => "'--" ++ option.name ++ "' cannot be used multiple times"
  | twoFeeds => "'--ticks' cannot be used with '--synthetic'"

/-- The values of the options that are given. -/
structure Options where
  config : Option String := none
  ticks : Option String := none
  /-- The number of synthetic ticks for each symbol. -/
  synthetic : Option UInt64 := none
  seed : Option UInt64 := none
  /-- The time budget in seconds. -/
  budget : Option Float := none
  cache : Option String := none
  report : Option String := none
  logLevel : Option String := none
deriving DecidableEq

/-! ## Values -/

/-- A path is not empty. -/
def path? (value : String) : Option String :=
  if value.isEmpty then none else some value

/-- Gives an option its value, unless it has one already. -/
def once {α : Type} (option : Switch) (value : String) (read : String → Option α) :
    Option α → Except UsageFault (Option α)
  | some _ => .error (.repeated option)
  | none =>
    match read value with
    | none => .error (.malformed option value)
    | some a => .ok (some a)

namespace Options

/-- Gives one option its value. -/
def give (o : Options) (option : Switch) (value : String) : Except UsageFault Options :=
  match option with
  | .config => (once .config value path? o.config).map fun config => { o with config }
  | .ticks => (once .ticks value path? o.ticks).map fun ticks => { o with ticks }
  | .synthetic =>
    (once .synthetic value Plain.word64? o.synthetic).map fun synthetic => { o with synthetic }
  | .seed => (once .seed value Plain.word64? o.seed).map fun seed => { o with seed }
  | .budget => (once .budget value Plain.float? o.budget).map fun budget => { o with budget }
  | .cache => (once .cache value path? o.cache).map fun cache => { o with cache }
  | .report => (once .report value path? o.report).map fun report => { o with report }
  | .logLevel => (once .logLevel value some o.logLevel).map fun logLevel => { o with logLevel }

/-- All is said: there must not be two feeds. -/
def settle (o : Options) : Except UsageFault Options :=
  if o.ticks.isSome && o.synthetic.isSome then .error .twoFeeds else .ok o

end Options

/-! ## Words -/

/-- What a word is where an option may stand. -/
inductive Word where
  | help
  /-- The word after which no option may stand. -/
  | endOfOptions
  /-- An option, and its value if that is in the same word. -/
  | option (option : Switch) (value : Option String)
  /-- No option. -/
  | other
deriving DecidableEq, Repr

namespace Word

/-- Splits a long option from its value. -/
def attached (cs : List Char) : List Char × Option String :=
  match cs.dropWhile (· != '=') with
  | _ :: value => (cs.takeWhile (· != '='), some (String.ofList value))
  | [] => (cs, none)

/-- A word after its two hyphens. -/
def ofLong (cs : List Char) : Word :=
  let (name, value) := attached cs
  if name = "help".toList then (if value.isNone then help else other)
  else match Switch.all.find? (fun s => s.name.toList = name) with
    | some s => option s value
    | none => other

/-- What follows a letter: nothing, or a value, perhaps behind `=`. -/
def behindLetter : List Char → Option String
  | [] => none
  | '=' :: cs => some (String.ofList cs)
  | cs => some (String.ofList cs)

/-- A word after its hyphen: a letter, and what follows it. -/
def ofShort (letter : Char) (cs : List Char) : Word :=
  if letter = 'h' then help
  else match Switch.all.find? (fun s => s.letter? = some letter) with
    | some s => option s (behindLetter cs)
    | none => other

/-- What a word is. -/
def ofString (word : String) : Word :=
  match word.toList with
  | ['-', '-'] => endOfOptions
  | '-' :: '-' :: cs => ofLong cs
  | '-' :: letter :: cs => ofShort letter cs
  | _ => other

/-- Whether a word may be the value of the option before it: it starts with no hyphen, or is one. -/
def isValue (word : String) : Bool :=
  match word.toList with
  | '-' :: _ :: _ => false
  | _ => true

end Word

/-- What a command line asks for. -/
inductive Request where
  | help
  | replay (options : Options)

/-- Nothing may stand after the end of options. -/
def settleAfterEnd (o : Options) : List String → Except UsageFault Request
  | [] => o.settle.map .replay
  | word :: _ => .error (.unexpected word)

/-- Reads words, with the values that are given already. -/
def readWords (o : Options) : List String → Except UsageFault Request
  | [] => o.settle.map .replay
  | word :: words =>
    match Word.ofString word with
    | .help => .ok .help
    | .endOfOptions => settleAfterEnd o words
    | .other => .error (.unexpected word)
    | .option s (some value) =>
      match o.give s value with
      | .error fault => .error fault
      | .ok o => readWords o words
    | .option s none =>
      match words with
      | [] => .error (.missingValue s)
      | value :: words =>
        if Word.isValue value then
          match o.give s value with
          | .error fault => .error fault
          | .ok o => readWords o words
        else .error (.missingValue s)

/-- Reads a command line. -/
def Request.ofWords (words : List String) : Except UsageFault Request :=
  readWords {} words

/-! ## Help -/

/-- The name of the program. -/
def programName : String := "mmsim-runner"

/-- The width of the names in help. -/
def nameWidth : Nat := 31

/-- A line of help: a letter if there is one, a long name, and a purpose. -/
def helpLine (letter? : Option Char) (name purpose : String) : String :=
  let letter := letter?.elim "    " fun c => "-" ++ c.toString ++ ", "
  let name := String.ofList (("--" ++ name).toList.rightpad nameWidth ' ')
  "  " ++ letter ++ name ++ purpose ++ "\n"

/-- The line of an option. -/
def optionLine (s : Switch) : String :=
  helpLine s.letter? (s.name ++ " <" ++ s.valueName ++ ">") s.purpose

/-- What is said when help is asked for. -/
def helpText : String :=
  "Tick-driven market-making backtest\n\nUsage: " ++ programName ++ " [OPTIONS]\n\nOptions:\n" ++
    String.join (Switch.all.map optionLine) ++ helpLine (some 'h') "help" "Print help"

end MarketMaker.CommandLine
