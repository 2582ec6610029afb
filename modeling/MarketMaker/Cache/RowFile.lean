import MarketMaker.Cache.Rows
import MarketMaker.Json.Parser
import MarketMaker.Json.Printer
import MarketMaker.Json.Record
import MarketMaker.Text.Lines

/-!
# Files of rows

How a store of rows is kept from run to run: a first line that says what the file is, then a line for
each row, an object with its key, the millisecond at which it expires, and its fields. The first line
begins with a byte that no text has, so a file of rows is never taken for a file of ticks or settings.
-/

namespace MarketMaker.Cache

namespace Row

/-- The names of the members, in their order. -/
def names : List String := ["key", "expires", "fields"]

/-- A row under its key, as an object. -/
def toJson (key : String) (row : Row) : Json :=
  .record (names.zip [.text key, .number (.ofInt row.expires),
    .record (row.fields.entries.map fun f => (f.1, .text f.2))])

/-- Reads fields. -/
def fieldsOfJson? : Json → Option Fields
  | .object members => do
    let named ← Json.named? members
    let fields ← named.mapM fun m => do return (m.1, ← m.2.asText?)
    return .ofList fields
  | _ => none

/-- Reads a row and its key. -/
def ofJson? (j : Json) : Option (String × Row) := do
  match ← j.slots? names with
  | [key, expires, fields] =>
    let key ← Json.required Json.asText? key
    let expires ← Json.required Json.asSigned? expires
    let fields ← Json.required fieldsOfJson? fields
    return (key, ⟨fields, expires.toInt⟩)
  | _ => none

end Row

/-- What a file of rows holds. -/
structure RowFile where
  rows : Rows
  /-- Whether changes are kept in a log beside the file first. -/
  isLogged : Bool

namespace RowFile

/-- The first line. -/
def header (isLogged : Bool) : List UInt8 :=
  0xFF :: Text.bytes (if isLogged then "market maker rows, logged" else "market maker rows")

/-- The lines of rows, as one text. -/
def text (r : Rows) : String :=
  r.rows.foldl (fun text key row => text ++ (row.toJson key).compact ++ "\n") ""

/-- The bytes of a file. -/
def bytes (f : RowFile) : ByteArray :=
  ⟨(header f.isLogged ++ [Text.lineFeed]).toArray⟩ ++ (text f.rows).toUTF8

/-- Reads the rows of lines. -/
def rowsOfLines? (now : Int) (lines : List (List Char)) : Option Rows := do
  let rows ← lines.mapM fun cs => (Json.ofChars? cs).bind Row.ofJson?
  return ⟨now, .ofList rows⟩

/-- Reads a file. -/
def ofBytes? (now : Int) (bytes : ByteArray) : Option RowFile := do
  -- The first byte tells most other files apart before they are cut into lines.
  if (bytes.data[0]?) ≠ some 0xFF then none
  else match Text.linesOf bytes.toList with
    | first :: lines => do
      let isLogged := first = header true
      if isLogged || first = header false then
        let rows ← rowsOfLines? now ((← lines.mapM Text.decode?).filter (!·.isEmpty))
        return ⟨rows, isLogged⟩
      else none
    | [] => none

end RowFile

end MarketMaker.Cache
