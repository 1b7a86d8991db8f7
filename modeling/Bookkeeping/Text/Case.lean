/-! # Letter case

Case is folded as far as it can produce an ASCII letter, which decides every comparison with an
ASCII word: besides the ASCII letters, a few characters of other blocks have one in their lower or
upper form.
-/

namespace Bookkeeping.Text

/-- The lower-case form of a character. -/
def lowerChar (c : Char) : List Char :=
  if c == '\u212a' then ['k']
  else if c == '\u0130' then ['i', '\u0307']
  else [c.toLower]

/-- The upper-case form of a character. -/
def upperChar (c : Char) : List Char :=
  match c.toNat with
  | 0x131 => ['I']
  | 0x17f => ['S']
  | 0xdf => ['S', 'S']
  | 0xfb00 => ['F', 'F']
  | 0xfb01 => ['F', 'I']
  | 0xfb02 => ['F', 'L']
  | 0xfb03 => ['F', 'F', 'I']
  | 0xfb04 => ['F', 'F', 'L']
  | 0xfb05 => ['S', 'T']
  | 0xfb06 => ['S', 'T']
  | _ => [c.toUpper]

/-- A text in lower case. -/
def lower (s : String) : String := String.ofList (s.toList.flatMap lowerChar)

/-- A text in upper case. -/
def upper (s : String) : String := String.ofList (s.toList.flatMap upperChar)

/-- Whether two texts agree up to the case of ASCII letters. -/
def sameIgnoringCase (a b : String) : Bool :=
  a.toList.map Char.toLower == b.toList.map Char.toLower

end Bookkeeping.Text
