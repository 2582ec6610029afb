/-!
# Texts as bytes

A text is kept as its UTF-8 bytes. Names of files and values in addresses are bytes that need not be a
text.
-/

namespace MarketMaker.Text

/-- The bytes of a text. -/
def bytes (text : String) : List UInt8 :=
  text.toUTF8.toList

/-- The text of bytes, if they are valid UTF-8. -/
def string? (bytes : List UInt8) : Option String :=
  String.fromUTF8? ⟨bytes.toArray⟩

/-- The characters of bytes, if they are valid UTF-8. -/
def decode? (bytes : List UInt8) : Option (List Char) :=
  (string? bytes).map String.toList

/-- Each byte as the character of its number. -/
def byteChars (bytes : List UInt8) : List Char :=
  bytes.map Char.ofUInt8

end MarketMaker.Text
