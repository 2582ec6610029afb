/-!
# Blank characters

The characters with the Unicode property `White_Space`, and what remains of a text without those at
its ends. Zero-width characters such as U+200B and U+FEFF are not blank.
-/

namespace MarketMaker.Text

/-- The property `White_Space`: twenty-five characters. -/
def isBlank (c : Char) : Bool :=
  let n := c.toNat
  (9 ≤ n && n ≤ 13) || n == 0x20 || n == 0x85 || n == 0xA0 || n == 0x1680 ||
    (0x2000 ≤ n && n ≤ 0x200A) || n == 0x2028 || n == 0x2029 || n == 0x202F || n == 0x205F ||
    n == 0x3000

/-- A text without the blank characters at its two ends. -/
def trim (cs : List Char) : List Char :=
  ((cs.dropWhile isBlank).reverse.dropWhile isBlank).reverse

/-- Whether a text holds blank characters only. -/
def isAllBlank (s : String) : Bool :=
  s.toList.all isBlank

end MarketMaker.Text
