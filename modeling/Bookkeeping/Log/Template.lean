import Bookkeeping.Failure
import Bookkeeping.Number.FloatText
import Bookkeeping.Number.Rounded

/-! # Templates

The text of an event may hold conversions, which are filled with the arguments of the event in their
order, or by name from a single dictionary. A conversion is a percent sign, an optional name in
parentheses, flags, a width, a precision and a letter.
-/

namespace Bookkeeping.Log

open Number

/-- A conversion but for its letter. -/
structure Conversion where
  left : Bool := false
  plus : Bool := false
  blank : Bool := false
  alternate : Bool := false
  zero : Bool := false
  width : Nat := 0
  precision : Option Nat := none

/-- Where a conversion with a name finds its value. -/
inductive Names where
  /-- Values have no names. -/
  | missing
  /-- Values are the elements of a list, which no name finds. -/
  | positions
  | fields (fs : List (String × Value))

/-- What is left to fill a template with. -/
structure Supply where
  names : Names
  /-- The values that are still to be used, in their order. -/
  waiting : List Value

/-- The outcome of filling a part of a template. -/
abbrev Filled (α : Type) : Type := Except Failure α

/-- The next value in order. -/
def Supply.next (s : Supply) : Filled (Value × Supply) :=
  match s.waiting with
  | v :: vs => .ok (v, { s with waiting := vs })
  | [] => .error (.misuse .wrongType)

/-- A supply after the value of a name was found: that value alone is to be used next. -/
def Supply.byName (s : Supply) (name : String) : Filled Supply :=
  match s.names with
  | .fields fs =>
    match fs.lookup name with
    | some v => .ok { s with waiting := [v] }
    | none => .error (.misuse .noKey)
  | _ => .error (.misuse .wrongType)

/-- Whether a template may end here: values in order must all be used. -/
def Supply.finished (s : Supply) : Bool :=
  match s.names with
  | .missing => s.waiting.isEmpty
  | _ => true

/-- The supply of an event's arguments, none without arguments. A single dictionary that is not
empty serves by name. -/
def Supply.ofArguments? : List Value → Option Supply
  | [] => none
  | [.dict (f :: fs)] => some ⟨.fields (f :: fs), [.dict (f :: fs)]⟩
  | vs => some ⟨.missing, vs⟩

/-- The supply of a value that stands for the arguments, none if it counts as false. A text or a
list is one argument, and a list that holds a single dictionary serves by the names of that. -/
def Supply.ofValue? (v : Value) : Filled (Option Supply) :=
  if !v.truthy then .ok none
  else match v with
  | .list [.dict (f :: fs)] => .ok (some ⟨.fields (f :: fs), [.dict (f :: fs)]⟩)
  | .list vs => .ok (some ⟨.positions, [.list vs]⟩)
  | .dict [_] => .error (.misuse .noKey)
  | .dict fs => .ok (some ⟨.fields fs, [.dict fs]⟩)
  | .text s => .ok (some ⟨.missing, [.text s]⟩)
  | .kind k => .ok (some ⟨.missing, [.kind k]⟩)
  | _ => .error (.misuse .wrongType)

/-! ## Reading a conversion -/

/-- The name after an opening parenthesis, with inner parentheses balanced. -/
def readName : Nat → List Char → List Char → Option (String × List Char)
  | _, _, [] => none
  | 0, acc, ')' :: rest => some (String.ofList acc.reverse, rest)
  | depth + 1, acc, ')' :: rest => readName depth (')' :: acc) rest
  | depth, acc, '(' :: rest => readName (depth + 1) ('(' :: acc) rest
  | depth, acc, c :: rest => readName depth (c :: acc) rest

/-- The flags at the head of a list. -/
def readFlags (c : Conversion) : List Char → Conversion × List Char
  | '-' :: rest => readFlags { c with left := true } rest
  | '+' :: rest => readFlags { c with plus := true } rest
  | ' ' :: rest => readFlags { c with blank := true } rest
  | '#' :: rest => readFlags { c with alternate := true } rest
  | '0' :: rest => readFlags { c with zero := true } rest
  | cs => (c, cs)

/-- The count that a conversion may give of something: its name and the number of its bits. -/
structure Limit where
  name : String
  bits : Nat

/-- A count is below the limit's bound. -/
def Limit.bound (limit : Limit) : Nat := 1 <<< limit.bits

/-- The limit of widths. -/
def widths : Limit := ⟨"width", 63⟩

/-- The limit of precisions. -/
def precisions : Limit := ⟨"precision", 31⟩

/-- A count given in digits or, by a star, as the next value. -/
def readCount (limit : Limit) (supply : Supply) (cs : List Char) :
    Filled (Option Int × Supply × List Char) :=
  match cs with
  | '*' :: rest => do
    let (v, supply) ← supply.next
    match v with
    | .int n =>
      if -(limit.bound : Int) ≤ n && n < limit.bound then .ok (some n, supply, rest)
      else .error (.misuse .overflow)
    | .bool b => .ok (some (if b then 1 else 0), supply, rest)
    | _ => .error (.misuse .wrongType)
  | cs =>
    let (ds, rest) := takeDigits cs
    if ds.isEmpty then .ok (none, supply, rest)
    else
      let n := Text.ofDigits ds
      if n < limit.bound then .ok (some n, supply, rest)
      else .error (.badValue (limit.name ++ " too big"))

/-- Flags, width, precision and a length letter, which has no effect. -/
def readOptions (c : Conversion) (supply : Supply) (cs : List Char) :
    Filled (Conversion × Supply × List Char) := do
  let (c, cs) := readFlags c cs
  let (width, supply, cs) ← readCount widths supply cs
  let w := width.getD 0
  let c := { c with width := w.natAbs, left := c.left || w < 0 }
  let (c, supply, cs) ← match cs with
    | '.' :: rest => do
      let (p, supply, rest) ← readCount precisions supply rest
      .ok ({ c with precision := some (p.getD 0).toNat }, supply, rest)
    | cs => .ok (c, supply, cs)
  let cs := match cs with
    | l :: rest => if l == 'h' || l == 'l' || l == 'L' then rest else l :: rest
    | [] => []
  .ok (c, supply, cs)

/-! ## Converting a value -/

/-- The widest field that memory holds. -/
def widest : Nat := 0x100000000

/-- A text in its field. -/
def Conversion.field (c : Conversion) (s : String) : String :=
  let fill := "".pushn ' ' (c.width - s.length)
  if c.left then s ++ fill else fill ++ s

/-- A number with its sign and the mark of its base in its field; zeros go between these and the
digits. -/
def Conversion.number (c : Conversion) (negative : Bool) (mark body : String) : String :=
  let sign :=
    (if negative then "-" else if c.plus then "+" else if c.blank then " " else "") ++ mark
  if c.zero && !c.left then sign ++ "".pushn '0' (c.width - sign.length - body.length) ++ body
  else c.field (sign ++ body)

/-- A text cut to the precision. -/
def Conversion.cut (c : Conversion) (s : String) : String :=
  match c.precision with
  | some p => String.ofList (s.toList.take p)
  | none => s

/-- A quoted text in ASCII. -/
def asciiOnly (s : String) : String :=
  String.ofList (s.toList.flatMap fun ch =>
    let n := ch.toNat
    if n < 128 then [ch]
    else if n < 0x100 then '\x5c' :: 'x' :: Text.hex 2 n
    else if n < 0x10000 then '\x5c' :: 'u' :: Text.hex 4 n
    else '\x5c' :: 'U' :: Text.hex 8 n)

/-- A value as an integer, fractions cut off. -/
def integerOf (v : Value) : Filled Int :=
  match v with
  | .bool b => .ok (if b then 1 else 0)
  | .int n => .ok n
  | .float x =>
    if isNaN x then .error (.badValue "cannot convert float NaN to integer")
    else if isFinite x then .ok (truncate x) else .error (.misuse .overflow)
  | .decimal (.finite negative coefficient exponent) =>
    let n : Int := if exponent < 0 then (coefficient / Nat.pow 10 exponent.natAbs : Nat)
      else (coefficient * Nat.pow 10 exponent.natAbs : Nat)
    .ok (if negative then -n else n)
  | .decimal (.infinite _) => .error (.misuse .overflow)
  | .decimal (.nan _ _ _) => .error (.badValue "cannot convert NaN to integer")
  | _ => .error (.misuse .wrongType)

/-- A value that is an integer. -/
def exactInteger (v : Value) : Filled Int :=
  match v with
  | .bool b => .ok (if b then 1 else 0)
  | .int n => .ok n
  | _ => .error (.misuse .wrongType)

/-- A value as a double. -/
def floatOf (v : Value) : Filled Float :=
  match v with
  | .bool b => .ok (if b then 1 else 0)
  | .int n => if isFinite (ofInt n) then .ok (ofInt n) else .error (.misuse .overflow)
  | .float x => .ok x
  | .decimal d =>
    match d.toFloat? with
    | some x => .ok x
    | none => .error (.badValue "cannot convert signaling NaN to float")
  | _ => .error (.misuse .wrongType)

/-- The largest precision of an integer. -/
def integerPrecision : Nat := 2147483644

/-- The most decimal digits of an integer that are written. -/
def integerDigits : Nat := 4300

/-- What is said about an integer that has too many digits. -/
def tooManyDigits : Failure :=
  .badValue ("Exceeds the limit (" ++ toString integerDigits
    ++ " digits) for integer string conversion; "
    ++ "use sys.set_int_max_str_digits() to increase the limit")

/-- An integer in a base, at least as many digits as the precision asks for. -/
def Conversion.integer (c : Conversion) (base : Nat) (mark : String) (upper : Bool) (n : Int) :
    Filled String :=
  if integerPrecision < c.precision.getD 0 then .error (.misuse .overflow)
  else if base == 10 && Nat.pow 10 integerDigits ≤ n.natAbs then .error tooManyDigits
  else
    let digits := Nat.toDigits base n.natAbs
    let digits := if upper then digits.map Char.toUpper else digits
    let body := String.ofList (List.replicate (c.precision.getD 0 - digits.length) '0' ++ digits)
    .ok (c.number (n < 0) (if c.alternate then mark else "") body)

/-- Digits with a point after the first and an exponent. -/
def exponentForm (ds : List Char) (top : Int) (point : Bool) : String :=
  match ds with
  | [] => ""
  | [d] => String.ofList [d] ++ (if point then "." else "") ++ "e" ++ exponentText top
  | d :: rest => String.ofList (d :: '.' :: rest) ++ "e" ++ exponentText top

/-- A decimal text without zeros and a point at its end. -/
def dropEnd (s : List Char) : List Char :=
  if s.contains '.' then
    let kept := (s.reverse.dropWhile (· == '0')).reverse
    if kept.getLast? == some '.' then kept.dropLast else kept
  else s

/-- No double has more digits than this after its point, nor after its first digit; all that are
written beyond are zeros. -/
def exactPlaces : Nat := 1100

/-- A double with a fixed number of digits after the point. -/
def fixedPlaces (places : Nat) (x : Float) : String :=
  (fixedText (min places exactPlaces) x).pushn '0' (places - exactPlaces)

/-- The magnitude of a double by one of the letters e, f and g. -/
def magnitudeText (letter : Char) (c : Conversion) (x : Float) : String :=
  if isNaN x then "nan"
  else if !isFinite x then "inf"
  else
    let p := c.precision.getD 6
    let fixed (places : Nat) : String :=
      fixedPlaces places x ++ (if c.alternate && places == 0 then "." else "")
    if letter == 'f' then fixed p
    else if letter == 'e' then
      let exact := min p exactPlaces
      let (n, top) := leadingDigits exact x
      exponentForm (digitsOf (exact + 1) n ++ List.replicate (p - exact) '0') top c.alternate
    else
      let p := if p == 0 then 1 else if c.alternate then p else min p exactPlaces
      let (n, top) := leadingDigits (p - 1) x
      if top < -4 || (p : Int) ≤ top then
        let ds := digitsOf p n
        let ds := if c.alternate then ds else (ds.reverse.dropWhile (· == '0')).reverse
        exponentForm (if ds.isEmpty then ['0'] else ds) top c.alternate
      else
        let text := fixed ((p : Int) - 1 - top).toNat
        if c.alternate then text else String.ofList (dropEnd text.toList)

/-- A double by one of the letters e, f and g of either case. -/
def Conversion.float (c : Conversion) (letter : Char) (x : Float) : String :=
  let body := magnitudeText letter.toLower c x
  let body := if letter.isUpper then String.ofList (body.toList.map Char.toUpper) else body
  c.number (Binary.isNegative x && !isNaN x) "" body

/-- A character given by its code point or as a text of its own. -/
def characterOf (v : Value) : Filled String :=
  match v with
  | .text s => if s.length == 1 then .ok s else .error (.misuse .wrongType)
  | v => do
    let n ← exactInteger v
    if 0 ≤ n && n < 0x110000 then .ok (String.ofList [Char.ofNat n.toNat])
    else .error (.misuse .overflow)

/-- A value converted by a letter, none if there is no such letter. -/
def Conversion.convert? (c : Conversion) (letter : Char) (v : Value) : Option (Filled String) :=
  match letter with
  | 's' => some (.ok (c.field (c.cut v.display)))
  | 'r' => some (.ok (c.field (c.cut v.literal)))
  | 'a' => some (.ok (c.field (c.cut (asciiOnly v.literal))))
  | 'c' => some ((characterOf v).map c.field)
  | 'd' => some ((integerOf v).bind (c.integer 10 "" false))
  | 'i' => some ((integerOf v).bind (c.integer 10 "" false))
  | 'u' => some ((integerOf v).bind (c.integer 10 "" false))
  | 'x' => some ((exactInteger v).bind (c.integer 16 "0x" false))
  | 'X' => some ((exactInteger v).bind (c.integer 16 "0X" true))
  | 'o' => some ((exactInteger v).bind (c.integer 8 "0o" false))
  | l =>
    if ['e', 'f', 'g'].contains l.toLower then some ((floatOf v).map (c.float l)) else none

/-- What is said about a letter that converts nothing. -/
def unknownLetter (letter : Char) (index : Nat) : Failure :=
  .badValue ("unsupported format character '"
    ++ (if 31 ≤ letter.toNat && letter.toNat < 127 then String.ofList [letter] else "?")
    ++ "' (0x" ++ String.ofList (Nat.toDigits 16 letter.toNat) ++ ") at index " ++ toString index)

/-! ## Filling a template -/

/-- The text of one conversion after its percent sign, what is left to fill with, and the rest of
the template. The size is that of the whole template. -/
def fillOne (size : Nat) (supply : Supply) (cs : List Char) :
    Filled (String × Supply × List Char) := do
  let (supply, cs) ← match cs with
    | '(' :: rest =>
      match supply.names with
      | .missing => .error (.misuse .wrongType)
      | _ =>
        match readName 0 [] rest with
        | some (name, rest) => (supply.byName name).map fun supply => (supply, rest)
        | none => .error (.badValue "incomplete format key")
    | cs => .ok (supply, cs)
  let (c, supply, cs) ← readOptions {} supply cs
  match cs with
  | [] => .error (.badValue "incomplete format")
  | letter :: rest => do
    let (v, supply) ← supply.next
    let tooWide := widest < c.width
    match (if tooWide then { c with width := 0 } else c).convert? letter v with
    | some text => do
      let s ← text
      if tooWide then .error (.misuse .outOfMemory) else .ok (s, supply, rest)
    | none => .error (unknownLetter letter (size - rest.length - 1))

/-- A template filled with a supply, which must be used up if it is in order. The fuel is the number
of characters. -/
def fillAll (size : Nat) : Nat → Supply → List Char → Filled (List Char)
  | _, supply, [] => if supply.finished then .ok [] else .error (.misuse .wrongType)
  | 0, _, _ => .ok []
  | fuel + 1, supply, '%' :: '%' :: rest => do
    let tail ← fillAll size fuel supply rest
    .ok ('%' :: tail)
  | fuel + 1, supply, '%' :: rest => do
    let (s, supply, rest) ← fillOne size supply rest
    let tail ← fillAll size fuel supply rest
    .ok (s.toList ++ tail)
  | fuel + 1, supply, c :: rest => do
    let tail ← fillAll size fuel supply rest
    .ok (c :: tail)

/-- A template with a supply put in. Without a supply the template stays as it is. -/
def fill (template : String) : Option Supply → Filled String
  | none => .ok template
  | some supply =>
    (fillAll template.length template.length supply template.toList).map String.ofList

end Bookkeeping.Log
