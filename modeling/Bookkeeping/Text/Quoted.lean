import Bookkeeping.Text.Printable
import Bookkeeping.Text.Hex

/-! # Quoted texts

A quoted text stands between single quotes, or between double quotes if it holds a single quote
and no double one. Backslash, the quote itself and every character that is not printable are
escaped.
-/

namespace Bookkeeping.Text

/-- The quote that a text is put between. -/
def quoteOf (cs : List Char) : Char :=
  if cs.contains '\x27' && !cs.contains '\x22' then '\x22' else '\x27'

/-- A character as it stands between two quotes `q`. -/
def escape (q c : Char) : List Char :=
  if c == q || c == '\x5c' then ['\x5c', c]
  else if c == '\n' then ['\x5c', 'n']
  else if c == '\r' then ['\x5c', 'r']
  else if c == '\t' then ['\x5c', 't']
  else if isPrintable c then [c]
  else if c.toNat < 0x100 then '\x5c' :: 'x' :: hex 2 c.toNat
  else if c.toNat < 0x10000 then '\x5c' :: 'u' :: hex 4 c.toNat
  else '\x5c' :: 'U' :: hex 8 c.toNat

/-- A text between quotes. -/
def quoted (s : String) : String :=
  let q := quoteOf s.toList
  String.ofList (q :: s.toList.flatMap (escape q) ++ [q])

end Bookkeeping.Text
