import MarketMaker.Clock
import MarketMaker.Error
import MarketMaker.Path
import MarketMaker.Report.UtcTime

/-!
# Surroundings

All that the program needs from outside itself: files by their paths, a clock, and the time of day. The
program is written once over any monad that has them; `MarketMaker.CommandLine.Folder` keeps the files
in memory and lets time stand still, and the program's entry point has the real ones.
-/

namespace MarketMaker.CommandLine

/-- What the program needs from outside. -/
class Surroundings (m : Type → Type) extends Clock m where
  /-- The place where one stands. -/
  here : m Place
  /-- The place to which a path leads, if there is anything. -/
  find : Path → m (Except FileFault Place)
  /-- The bytes of a file. -/
  read : Path → m (Except FileFault ByteArray)
  /-- Writes a file in place of any that is there, and says whether that was possible. -/
  write : Path → ByteArray → m Bool
  /-- Removes a file, if there is one. -/
  remove : Path → m Unit
  /-- The time of day. -/
  today : m UtcTime

/-- What may fail for reasons of its own has the same surroundings. -/
instance {ε : Type} {m : Type → Type} [Monad m] [Surroundings m] : Surroundings (ExceptT ε m) where
  here := ExceptT.lift Surroundings.here
  find path := ExceptT.lift (Surroundings.find path)
  read path := ExceptT.lift (Surroundings.read path)
  write path bytes := ExceptT.lift (Surroundings.write path bytes)
  remove path := ExceptT.lift (Surroundings.remove path)
  today := ExceptT.lift Surroundings.today

end MarketMaker.CommandLine
