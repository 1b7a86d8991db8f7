import Bookkeeping.Value

/-! # Reading JSON

The reader keeps the difference between integers, which are exact, and numbers with a point or an
exponent, which are doubles. A key that is repeated keeps its first place and its last value. The
names `NaN`, `Infinity` and `-Infinity` are numbers too.
-/

namespace Bookkeeping.Json

/-- White space between the tokens. -/
def isSpace (c : Char) : Bool := c == ' ' || c == '\t' || c == '\n' || c == '\r'

/-- The characters after leading white space. -/
def skipSpace (cs : List Char) : List Char := cs.dropWhile isSpace

/-- The unit of an escape of four hexadecimal digits. -/
def unit? (cs : List Char) : Option (Nat × List Char) :=
  if cs.length < 4 then none
  else (Text.hexNumber? (cs.take 4)).map fun n => (n, cs.drop 4)

/-- The character that stands for a unit which is half of a pair without the other half. It is one
of the last private ones. -/
def loneHalf (unit : Nat) : Char := Char.ofNat (0x100000 + unit)

/-- Whether a character stands for half of a pair. -/
def isLoneHalf (c : Char) : Bool := 0x10d800 ≤ c.toNat && c.toNat < 0x10e000

/-- The character of an escape by units, with the second half of a pair if there is one. -/
def unitChar? (cs : List Char) : Option (Char × List Char) := do
  let (high, rest) ← unit? cs
  if 0xd800 ≤ high && high < 0xdc00 then
    match rest with
    | '\x5c' :: 'u' :: more =>
      match unit? more with
      | some (low, more) =>
        if 0xdc00 ≤ low && low < 0xe000 then
          some (Char.ofNat (0x10000 + (high - 0xd800) * 0x400 + (low - 0xdc00)), more)
        else some (loneHalf high, rest)
      | none => some (loneHalf high, rest)
    | _ => some (loneHalf high, rest)
  else if 0xdc00 ≤ high && high < 0xe000 then some (loneHalf high, rest)
  else some (Char.ofNat high, rest)

/-- The characters of a text after its opening quote, in reverse. The fuel is the number of
characters. -/
def text? : Nat → List Char → List Char → Option (String × List Char)
  | 0, _, _ => none
  | fuel + 1, acc, cs =>
    match cs with
    | [] => none
    | '\x22' :: rest => some (String.ofList acc.reverse, rest)
    | '\x5c' :: 'u' :: rest => do
      let (c, rest) ← unitChar? rest
      text? fuel (c :: acc) rest
    | '\x5c' :: e :: rest =>
      let plain? : Option Char := match e with
        | '\x22' => some '\x22'
        | '\x5c' => some '\x5c'
        | '/' => some '/'
        | 'b' => some '\x08'
        | 'f' => some '\x0c'
        | 'n' => some '\n'
        | 'r' => some '\r'
        | 't' => some '\t'
        | _ => none
      match plain? with
      | some c => text? fuel (c :: acc) rest
      | none => none
    | c :: rest => if c.toNat < 32 then none else text? fuel (c :: acc) rest

/-- The longest number at the head of the characters. -/
def number? (cs : List Char) : Option (Value × List Char) :=
  let (negative, cs) := match cs with
    | '-' :: rest => (true, rest)
    | _ => (false, cs)
  let (whole, rest) := match cs with
    | '0' :: rest => ([0], rest)
    | _ => Number.takeDigits cs
  if whole.isEmpty then none
  else
    let (fraction, afterFraction) := match rest with
      | '.' :: more =>
        let (ds, after) := Number.takeDigits more
        if ds.isEmpty then ([], rest) else (ds, after)
      | _ => ([], rest)
    let (exponent, afterExponent) := match afterFraction with
      | e :: more =>
        if e == 'e' || e == 'E' then
          let (minus, digits) := Number.takeSign more
          let (ds, after) := Number.takeDigits digits
          if ds.isEmpty then (none, afterFraction)
          else (some (if minus then -(Text.ofDigits ds : Int) else Text.ofDigits ds), after)
        else (none, afterFraction)
      | [] => (none, afterFraction)
    if fraction.isEmpty && exponent.isNone then
      if 4300 < whole.length then none
      else
        let n : Int := Text.ofDigits whole
        some (.int (if negative then -n else n), rest)
    else
      let numeral : Number.Numeral :=
        ⟨negative, whole ++ fraction, exponent.getD 0 - fraction.length⟩
      some (.float numeral.toFloat, afterExponent)

/-- What follows a word at the head of the characters. -/
def word? (word : String) (cs : List Char) : Option (List Char) :=
  if word.toList.isPrefixOf cs then some (cs.drop word.length) else none

/-- A value that is a word or a number. -/
def scalar? (cs : List Char) : Option (Value × List Char) :=
  let words : List (String × Value) :=
    [("null", .null), ("true", .bool true), ("false", .bool false), ("NaN", .float Number.nan),
      ("Infinity", .float Number.infinity), ("-Infinity", .float (-Number.infinity))]
  match words.findSome? fun (w, v) => (word? w cs).map fun rest => (v, rest) with
  | some r => some r
  | none => number? cs

mutual

/-- The value at the head of the characters. The fuel bounds the number of steps. -/
def value? : Nat → List Char → Option (Value × List Char)
  | 0, _ => none
  | fuel + 1, cs =>
    match cs with
    | '\x22' :: rest => (text? (rest.length + 1) [] rest).map fun (s, rest) => (.text s, rest)
    | '[' :: rest =>
      match skipSpace rest with
      | ']' :: rest => some (.list [], rest)
      | rest => (elements? fuel [] rest).map fun (vs, rest) => (.list vs, rest)
    | '\x7b' :: rest =>
      match skipSpace rest with
      | '\x7d' :: rest => some (.dict [], rest)
      | rest => (fields? fuel [] rest).map fun (fs, rest) => (.dict fs, rest)
    | cs => scalar? cs

/-- The elements of a list after its opening bracket; those already read are in reverse. -/
def elements? : Nat → List Value → List Char → Option (List Value × List Char)
  | 0, _, _ => none
  | fuel + 1, acc, cs => do
    let (v, rest) ← value? fuel (skipSpace cs)
    match skipSpace rest with
    | ',' :: rest => elements? fuel (v :: acc) rest
    | ']' :: rest => some ((v :: acc).reverse, rest)
    | _ => none

/-- The fields of a dictionary after its opening bracket, with those already read. -/
def fields? : Nat → List (String × Value) → List Char → Option (List (String × Value) × List Char)
  | 0, _, _ => none
  | fuel + 1, acc, cs =>
    match skipSpace cs with
    | '\x22' :: rest => do
      let (key, rest) ← text? (rest.length + 1) [] rest
      match skipSpace rest with
      | ':' :: rest =>
        let (v, rest) ← value? fuel (skipSpace rest)
        let acc := Value.setField key v acc
        match skipSpace rest with
        | ',' :: rest => fields? fuel acc rest
        | '\x7d' :: rest => some (acc, rest)
        | _ => none
      | _ => none
    | _ => none

end

/-- The value that a whole text spells. -/
def read (s : String) : Option Value :=
  let cs := skipSpace s.toList
  match value? (2 * cs.length + 2) cs with
  | some (v, rest) => if (skipSpace rest).isEmpty then some v else none
  | none => none

/-! ## Depth -/

/-- The largest number of brackets that are open at once, where `open_` brackets are open already
and a text may be. -/
def depthFrom (inText : Bool) (open_ : Nat) : List Char → Nat
  | [] => open_
  | '\x5c' :: c :: rest =>
    if inText then depthFrom inText open_ rest else max open_ (depthFrom inText open_ (c :: rest))
  | c :: rest =>
    if c == '\x22' then depthFrom (!inText) open_ rest
    else if inText then depthFrom inText open_ rest
    else if c == '[' || c == '\x7b' then depthFrom inText (open_ + 1) rest
    else if c == ']' || c == '\x7d' then max open_ (depthFrom inText (open_ - 1) rest)
    else depthFrom inText open_ rest

/-- How deeply the values of a text are nested. -/
def depth (s : String) : Nat := depthFrom false 0 s.toList

end Bookkeeping.Json
