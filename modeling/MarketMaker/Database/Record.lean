import MarketMaker.Database.File
import MarketMaker.Text.Bytes

/-!
# Records

A record is a row of values. In front of them stand the length of that part and a number for each value,
which tells its type and its length.
-/

namespace MarketMaker.Database

/-- A value. -/
inductive Value where
  | null
  | integer (n : Int)
  | real (x : Float)
  | text (bytes : List UInt8)
  | blob (bytes : List UInt8)
deriving DecidableEq

namespace Value

/-- The number of bytes of a value. -/
def sizeOfType (type : Nat) : Nat :=
  if type < 12 then [0, 1, 2, 3, 4, 6, 8, 8].getD type 0 else (type - 12) / 2

/-- The value of a type in its bytes. -/
def ofBytes (type : Nat) (bytes : List UInt8) : Value :=
  if type = 0 then .null
  else if type < 7 then .integer (signedNumber bytes)
  else if type = 7 then .real (Float.ofBits (number bytes).toUInt64)
  else if type = 8 then .integer 0
  else if type = 9 then .integer 1
  else if type < 12 then .null
  else if type % 2 = 0 then .blob bytes
  else .text bytes

/-- Units of two bytes. -/
def units (highFirst : Bool) : List UInt8 → List Nat
  | a :: b :: rest =>
    (if highFirst then number [a, b] else number [b, a]) :: units highFirst rest
  | _ => []

/-- The character of a unit by itself; of none, the replacement character. -/
def charOfUnit (u : Nat) : Char :=
  if u.isValidChar then Char.ofNat u else Char.ofNat 0xFFFD

/-- The characters of units, of which two may stand for one character. -/
def charsOfUnits : List Nat → List Char
  | [] => []
  | [u] => [charOfUnit u]
  | u :: v :: rest =>
    if 0xD800 ≤ u ∧ u < 0xDC00 ∧ 0xDC00 ≤ v ∧ v < 0xE000 then
      Char.ofNat (0x10000 + 0x400 * (u - 0xD800) + (v - 0xDC00)) :: charsOfUnits rest
    else charOfUnit u :: charsOfUnits (v :: rest)

/-- The characters of a text. -/
def chars? (encoding : Encoding) (bytes : List UInt8) : Option (List Char) :=
  match encoding with
  | .utf8 => Text.decode? bytes
  | .lowFirst => some (charsOfUnits (units false bytes))
  | .highFirst => some (charsOfUnits (units true bytes))

/-- A value as a text, which ends at a character of value zero. -/
def string? (encoding : Encoding) : Value → Option String
  | text bytes | blob bytes =>
    (chars? encoding bytes).map fun cs => String.ofList (cs.takeWhile (·.toNat ≠ 0))
  | integer n => some (toString n)
  | _ => none

end Value

namespace Record

/-- Reads numbers of varying length up to the end of their bytes, of which there are at most `fuel`. -/
def types? : Nat → List UInt8 → Option (List Nat)
  | _, [] => some []
  | 0, _ :: _ => none
  | fuel + 1, bytes => do
    let (type, rest) ← varint? bytes
    return type :: (← types? fuel rest)

/-- Reads values of some types. If they are all values of a record, they must fill their bytes. -/
def values? (areAll : Bool) : List Nat → List UInt8 → Option (List Value)
  | [], bytes => if areAll && !bytes.isEmpty then none else some []
  | type :: types, bytes => do
    let size := Value.sizeOfType type
    if bytes.length < size then none
    else return .ofBytes type (bytes.take size) :: (← values? areAll types (bytes.drop size))

/-- Reads a record, of which no more than the first `count` values are wanted. A record without bytes, or
without a length, has no values. -/
def ofBytes? (count : Nat) (bytes : List UInt8) : Option (List Value) :=
  if bytes.head?.all (· = 0) then some []
  else do
    let (size, rest) ← varint? bytes
    let used := bytes.length - rest.length
    if size < used ∨ bytes.length < size then none
    else
      let types ← types? bytes.length (rest.take (size - used))
      values? (types.length ≤ count) (types.take count) (bytes.drop size)

end Record

end MarketMaker.Database
