/-! # Texts as bytes

The UTF-8 encoding of a text as a list of byte values.
-/

namespace Bookkeeping.Text

/-- The UTF-8 encoding of a character. -/
def charBytes (c : Char) : List Nat :=
  let n := c.toNat
  if n < 0x80 then [n]
  else if n < 0x800 then [0xc0 + n / 0x40, 0x80 + n % 0x40]
  else if n < 0x10000 then [0xe0 + n / 0x1000, 0x80 + n / 0x40 % 0x40, 0x80 + n % 0x40]
  else [0xf0 + n / 0x40000, 0x80 + n / 0x1000 % 0x40, 0x80 + n / 0x40 % 0x40, 0x80 + n % 0x40]

/-- The UTF-8 encoding of a text. -/
def bytes (s : String) : List Nat := s.toList.flatMap charBytes

end Bookkeeping.Text
