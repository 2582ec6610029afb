import MarketMaker.Cache.RowFile
import MarketMaker.Database.Schema

/-!
# Rows in databases

Another program may have kept rows in a database, in a table named `kv` with a column for the key, one
for the fields and one for the millisecond at which they expire. Rows that cannot be understood are left
behind. What is in the way of removing expired rows from the table is told before anything is removed.
-/

namespace MarketMaker.Cache.DatabaseRows

open Database

/-- The name of the table. -/
def tableName : String := "kv"

/-- The name of the column for keys. -/
def keyColumn : String := "key"

/-- The name of the column for fields. -/
def fieldsColumn : String := "fields"

/-- The name of the column for the milliseconds at which rows expire. -/
def expiryColumn : String := "expires_at"

/-- The value in a column, if there is one. -/
def valueIn? (columns : List String) (column : String) (values : List Value) : Option Value :=
  (columns.findIdx? (sameName column)).bind (values[·]?)

/-- Whether a value is a number, and not above a time. -/
def isUpTo (now : Int) : Value → Bool
  | .integer n => n ≤ now
  | .real x => x ≤ Float.ofInt now
  | _ => false

/-- Whether the row of values has expired. -/
def isExpired (now : Int) (columns : List String) (values : List Value) : Bool :=
  (valueIn? columns expiryColumn values).any (isUpTo now)

/-- The row of values, if it can be understood. -/
def rowOf? (encoding : Encoding) (columns : List String) (values : List Value) :
    Option (String × Row) := do
  let key ← (← valueIn? columns keyColumn values).string? encoding
  let fields ← (← valueIn? columns fieldsColumn values).string? encoding
  match ← valueIn? columns expiryColumn values with
  | .integer expires => return (key, ⟨← Row.fieldsOfJson? (← Json.parse? fields), expires⟩)
  | _ => none

/-- What is in the way of changing a view. -/
def viewFault (s : Schema) (name : String) (sources : List String) : CacheFault :=
  match sources.find? fun source => sameName source name || (s.relation? source).isNone with
  | none => .view name
  | some source => if sameName source name then .circularView name else .unknownTable source

/-- The drivers of tables that are known. -/
def drivers : List String :=
  ["dbstat", "fts3", "fts4", "fts5", "rtree"]

/-- What is in the way of deleting rows from a table or a view, whatever is in it. -/
def deletionFault? (s : Schema) : Relation → Option CacheFault
  | .view name sources => some (viewFault s name sources)
  | .virtual name driver =>
    some (if isAmong driver drivers then .driverFault name else .unknownDriver driver)
  | .table name _ columns =>
    if !isAmong expiryColumn columns.names then some .noExpiry
    else ((s.usesOf name).find? fun use => (s.relation? use).isNone).map .unknownTable

/-- Whether an index is in order, if expired rows are found by it. -/
def isUsable (f : File) (i : Index) : Bool :=
  !i.columns.head?.any (sameName expiryColumn) || i.top.any fun top => (f.page? .index top).isSome

/-- The rows of a table that have not expired, and how many have. Only the values up to the time at which
a row expires must make sense. -/
def liveRows? (f : File) (now : Int) (top : Nat) (columns : Columns) : Option (Nat × Rows) := do
  let records ← f.rows? (if columns.isKeyed then .index else .table) top
  let wanted := columns.names.findIdx (sameName expiryColumn) + 1
  let expired ← records.mapM fun record =>
    (Record.ofBytes? wanted record).map (isExpired now columns.names)
  let live := (records.zip expired).filterMap fun (record, isExpired) =>
    if isExpired then none
    else (Record.ofBytes? columns.names.length record).bind (rowOf? f.encoding columns.names)
  return (expired.count true, ⟨now, .ofList live⟩)

/-- Whether a table and its indexes can be changed. -/
def takesCells (f : File) (s : Schema) (name : String) (top : Nat) (columns : Columns) : Bool :=
  f.takesCells (if columns.isKeyed then .index else .table) top &&
    (s.indexesOf name).all fun i => i.top.any (f.takesCells .index)

/-- Whether rows have a place in a table: it has the columns and needs no others, and the keys are
distinct. -/
def takesRows (s : Schema) (name : String) (columns : Columns) : Bool :=
  let used := [keyColumn, fieldsColumn, expiryColumn]
  used.all (fun column => isAmong column columns.names && !isAmong column columns.computed) &&
    columns.required.all (isAmong · used) && !columns.isCounted &&
    (s.indexesOf name).any fun i =>
      i.isDistinct && i.columns.length = 1 && i.columns.all (sameName keyColumn)

/-- What the expired rows are removed from. -/
structure Purged where
  /-- How many rows had expired. -/
  removed : Nat
  rows : Rows
  /-- Whether rows can be kept. -/
  takesRows : Bool

/-- Removes the expired rows from a table. -/
def purge (f : File) (s : Schema) (now : Int) (mayWrite : Bool) (r : Relation) :
    Except CacheFault Purged :=
  match deletionFault? s r, r with
  | some fault, _ => .error fault
  | none, .table name top columns =>
    if !mayWrite then .error .readOnly
    else if !(s.indexesOf name).all (isUsable f) then .error .damaged
    else match liveRows? f now top columns with
      | none => .error .damaged
      | some (removed, rows) =>
        let takesCells := takesCells f s name top columns
        if removed = 0 || takesCells then
          .ok ⟨removed, rows, takesCells && takesRows s name columns⟩
        else .error .damaged
  | none, _ => .error .damaged

end MarketMaker.Cache.DatabaseRows
