import MarketMaker.Text.Bytes

/-!
# Lines of bytes

A text file is a row of bytes. Its lines end at line feeds, which belong to no line; a carriage
return just before a line feed belongs to the line's end as well. Bytes become characters line by
line, so one line that is no valid UTF-8 is known as such whatever the others hold.
-/

namespace MarketMaker.Text

/-- The line feed. -/
def lineFeed : UInt8 := 10

/-- The carriage return. -/
def carriageReturn : UInt8 := 13

/-- Takes one carriage return off the end of a line. -/
def dropReturn (line : List UInt8) : List UInt8 :=
  if line.getLast? = some carriageReturn then line.dropLast else line

/-- The pieces between line feeds, each but the last without the carriage return before its line
feed. Bytes after the last line feed form a last line, which may be empty. -/
def linesOf (bytes : List UInt8) : List (List UInt8) :=
  let pieces := bytes.splitOn lineFeed
  pieces.dropLast.map dropReturn ++ (pieces.getLast?.toList)

end MarketMaker.Text
