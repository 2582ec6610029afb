import MarketMaker.Text.Hexadecimal

/-!
# Escapes behind a percent sign

In an address a percent sign and two hexadecimal digits stand for a byte. A percent sign without two
digits stands for itself, and a byte of value zero ends the text.
-/

namespace MarketMaker.Text

/-- The byte of two hexadecimal digits. -/
def escapedByte? (high low : Char) : Option UInt8 := do
  return (16 * (← hexValue? high) + (← hexValue? low)).toUInt8

/-- The bytes that characters stand for. -/
def unescape : List Char → List UInt8
  | [] => []
  | '%' :: high :: low :: rest =>
    match escapedByte? high low with
    | none => String.utf8EncodeChar '%' ++ unescape (high :: low :: rest)
    | some b => if b = 0 then [] else b :: unescape rest
  | c :: rest => String.utf8EncodeChar c ++ unescape rest

end MarketMaker.Text
