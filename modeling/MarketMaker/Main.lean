import MarketMaker.CommandLine.Program
import Std.Time.DateTime.Timestamp

/-!
# Entry point

The program with the real files and clocks around it.
-/

namespace MarketMaker.CommandLine

/-- Tells apart what can be wrong with a path. -/
def faultOf : IO.Error → FileFault
  | .noFileOrDirectory .. => .notFound
  | e => .stated e.toString

/-- Does something with the file at a path. A path that is no text leads nowhere. -/
def withFile {α : Type} (path : Path) (act : String → IO α) : IO (Except FileFault α) :=
  match Text.string? path.bytes with
  | none => return .error .notFound
  | some name => do
    try return .ok (← act name)
    catch e => return .error (faultOf e)

/-- The place of a path from the root. -/
def placeOf (path : String) : Place :=
  (Path.ofString path).pieces.filter (· ≠ [])

instance : Clock IO where
  now := return ⟨← IO.monoNanosNow⟩
  -- To be put into a reference, the result has to be there before the clock is read again.
  time work := do
    let before ← IO.monoNanosNow
    let result ← IO.mkRef (work ())
    let after ← IO.monoNanosNow
    return (← result.get, ⟨after - before⟩)

instance : Surroundings IO where
  here := return placeOf (← IO.currentDir).toString
  -- The file is looked at first, since only that tells why nothing is there.
  find path := withFile path fun name => do
    let _ ← ((← IO.currentDir) / name).metadata
    return placeOf (← IO.FS.realPath name).toString
  read path := withFile path fun name => IO.FS.readBinFile name
  write path bytes := do
    let written ← withFile path fun name =>
      IO.FS.withFile name .write fun file => do file.write bytes; file.flush
    return written.isOk
  remove path := discard (withFile path fun name => IO.FS.removeFile name)
  today := do
    let now ← Std.Time.Timestamp.now
    return .ofNanoseconds now.toNanosecondsSinceUnixEpoch.val

end MarketMaker.CommandLine

/-- Runs the program. -/
def main (words : List String) : IO UInt32 := do
  let outcome ← MarketMaker.CommandLine.run words
  IO.print outcome.output
  unless outcome.complaint.isEmpty do IO.eprintln outcome.complaint
  return outcome.status
