/-!
# Numbers in bytes

Numbers of a fixed length have their highest byte first. A number of varying length takes seven bits of
each byte, the highest first, and the high bit of a byte says that another follows; a ninth byte is the
last one and gives all its eight bits.
-/

namespace MarketMaker.Database

/-- The number in bytes. -/
def number (bytes : List UInt8) : Nat :=
  bytes.foldl (fun n b => 256 * n + b.toNat) 0

/-- The number in bytes of which the highest bit is worth its negative. -/
def signedNumber (bytes : List UInt8) : Int :=
  if bytes.head?.any (128 ≤ ·) then (number bytes : Int) - (Nat.pow 256 bytes.length : Nat)
  else number bytes

/-- Reads on in a number of varying length, of which `n` is known and at most `more` bytes follow
before the ninth. -/
def varintFrom (n : Nat) : Nat → List UInt8 → Option (Nat × List UInt8)
  | _, [] => none
  | 0, b :: rest => some (256 * n + b.toNat, rest)
  | more + 1, b :: rest =>
    if b < 128 then some (128 * n + b.toNat, rest)
    else varintFrom (128 * n + (b.toNat - 128)) more rest

/-- Reads a number of varying length, and says what follows it. -/
def varint? (bytes : List UInt8) : Option (Nat × List UInt8) :=
  varintFrom 0 8 bytes

end MarketMaker.Database
