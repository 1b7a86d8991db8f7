import Bookkeeping.Text.Blank
import Bookkeeping.Calendar.Stamp
import Bookkeeping.Record.Flaw

/-! # Reading the parts of a record

Each reader takes a value of any kind to what a field of a record holds. The readers are lenient: a
number may come as text and an integer as a double without a fraction, as long as nothing is lost.
-/

namespace Bookkeeping.Part

open Number Calendar

/-! ## Integers -/

/-- An integer text without a plus in front, which must not be followed by a minus. -/
def dropPlus? (cs : List Char) : Option (List Char) :=
  match cs with
  | '+' :: '-' :: _ => none
  | '+' :: rest => some rest
  | cs => some cs

/-- An integer text without its leading zeros and the low lines among them, if it starts with a
digit or a minus. The zero before a point stays, and so does the last character if there are only
such. -/
def dropLeadingZeros? (cs : List Char) : Option (List Char) :=
  match cs with
  | '0' :: rest =>
    let isLeading (c : Char) : Bool := c == '0' || c == '_'
    let last := ((rest.takeWhile isLeading).getLast?).getD '0'
    match rest.dropWhile isLeading with
    | [] => some [last]
    | c :: more =>
      if c.isDigit || c == '-' then some (c :: more)
      else if c == '.' then some (last :: c :: more)
      else none
  | c :: rest => if c.isDigit || c == '-' then some (c :: rest) else none
  | [] => none

/-- An integer text without a fraction that consists of zeros, at least one. -/
def dropZeroFraction (cs : List Char) : List Char :=
  match cs.dropWhile (· != '.') with
  | _ :: fraction =>
    if !fraction.isEmpty && fraction.all (· == '0') then cs.takeWhile (· != '.') else cs
  | [] => cs

/-- A text without the low lines inside it; none if one stands at an end or next to another. -/
def dropLowLines? (cs : List Char) : Option (List Char) :=
  let together := (cs.zip cs.tail).any fun (a, b) => a == '_' && b == '_'
  if cs.head? == some '_' || cs.getLast? == some '_' || together then none
  else some (cs.filter (· != '_'))

/-- The sign and the digits of an integer text. Low lines may stand between digits. -/
def signedDigits? (s : String) : Option (Bool × List Char) := do
  let cs ← dropPlus? (Text.cutEnds Text.isWhite s.toList)
  let cs ← dropLeadingZeros? cs
  let (negative, cs) := match dropZeroFraction cs with
    | '-' :: rest => (true, rest)
    | cs => (false, cs)
  let digits ← dropLowLines? cs
  if digits.isEmpty || !digits.all Char.isDigit then none
  else some (negative, digits)

/-- The longest run of digits that is read as an integer. -/
def maxDigits : Nat := 4300

/-- The integer of a text. -/
def intOfText (v : Value) (s : String) : Reading Int :=
  match signedDigits? s with
  | none => .fail .intText v
  | some (negative, digits) =>
    if maxDigits < digits.length then .fail .intTooLong v
    else
      let n : Int := Text.ofDigits (takeDigits digits).1
      .ok (if negative then -n else n)

/-- Whether a double lies within the range of 64-bit integers. -/
def fitsWord (x : Float) : Bool := Float.neg (ofInt 0x8000000000000000) < x && x < ofInt 0x8000000000000000

/-- The integer of a double without a fraction. -/
def intOfFloat (v : Value) (x : Float) : Reading Int :=
  if !isFinite x then .fail .notFinite v
  else if !isIntegral x then .fail .intFraction v
  else if fitsWord x then .ok (truncate x)
  else .fail .intTooLong v

/-- The integer of a decimal without a fraction. -/
def intOfDecimal (v : Value) (d : Decimal) : Reading Int :=
  match d with
  | .finite negative coefficient exponent =>
    let sign : Int := if negative then -1 else 1
    if 0 ≤ exponent then .ok (sign * (coefficient * Nat.pow 10 exponent.natAbs : Nat))
    else if coefficient == 0 then .ok 0
    else if coefficient.log2 < exponent.natAbs then .fail .intFraction v
    else if coefficient % Nat.pow 10 exponent.natAbs == 0 then
      .ok (sign * (coefficient / Nat.pow 10 exponent.natAbs : Nat))
    else .fail .intFraction v
  | _ => .fail .notFinite v

/-- An integer. -/
def int (v : Value) : Reading Int :=
  match v with
  | .int n => .ok n
  | .bool b => .ok (if b then 1 else 0)
  | .float x => intOfFloat v x
  | .decimal d => intOfDecimal v d
  | .text s => intOfText v s
  | .kind k => intOfText v k.text
  | _ => .fail .intType v

/-! ## Doubles -/

/-- The infinite or undefined number that a text names. -/
def namedFloat? (cs : List Char) : Option Float :=
  let (negative, rest) := takeSign cs
  let word := Text.lower (String.ofList rest)
  if !rest.all (fun c => c.toNat < 128) then none
  else if word == "inf" || word == "infinity" then some (if negative then -infinity else infinity)
  else if word == "nan" then some nan
  else none

/-- The double that a whole text spells. -/
def plainFloat? (cs : List Char) : Option Float :=
  match numeral? cs with
  | some n => some n.toFloat
  | none => namedFloat? cs

/-- The double that a text spells, either between white space or with low lines inside. -/
def floatOfText? (s : String) : Option Float :=
  match plainFloat? (Text.cutEnds Text.isWhite s.toList) with
  | some x => some x
  | none => (dropLowLines? s.toList).bind plainFloat?

/-- A double that may be infinite or undefined. -/
def anyFloat (v : Value) : Reading Float :=
  match v with
  | .float x => .ok x
  | .bool b => .ok (if b then 1 else 0)
  | .int n => if isFinite (ofInt n) then .ok (ofInt n) else .fail .floatType v
  | .decimal d =>
    match d.toFloat? with
    | some x => .ok x
    | none => .fail .floatType v
  | .text s =>
    match floatOfText? s with
    | some x => .ok x
    | none => .fail .floatText v
  | .kind _ => .fail .floatText v
  | _ => .fail .floatType v

/-- A finite double. -/
def float (v : Value) : Reading Float :=
  (anyFloat v).bind fun x => if isFinite x then .ok x else .fail .notFinite v

/-- A double above zero, which may be infinite. -/
def aboveZero (v : Value) : Reading Float :=
  (anyFloat v).bind fun x => if 0 < x then .ok x else .fail (.notAbove "0") v

/-- A finite double above zero. -/
def rate (v : Value) : Reading Float :=
  (float v).bind fun x => if 0 < x then .ok x else .fail (.notAbove "0") v

/-! ## Truth values -/

def trueWords : List String := ["1", "t", "y", "true", "yes", "on"]
def falseWords : List String := ["0", "f", "n", "false", "no", "off"]

/-- The truth value of a word. -/
def boolOfText (v : Value) (s : String) : Reading Bool :=
  if trueWords.any (Text.sameIgnoringCase s) then .ok true
  else if falseWords.any (Text.sameIgnoringCase s) then .ok false
  else .fail .boolText v

/-- The truth value of 0 or 1. -/
def boolOfInt (v : Value) (n : Int) : Reading Bool :=
  if n == 0 then .ok false else if n == 1 then .ok true else .fail .boolText v

/-- The truth value of a double that is a whole number. -/
def boolOfFloat (v : Value) (x : Float) : Reading Bool :=
  if isFinite x && isIntegral x && fitsWord x then boolOfInt v (truncate x) else .fail .boolType v

/-- A truth value. -/
def bool (v : Value) : Reading Bool :=
  match v with
  | .bool b => .ok b
  | .int n =>
    if -0x8000000000000000 ≤ n && n < 0x8000000000000000 then boolOfInt v n else .fail .boolType v
  | .float x => boolOfFloat v x
  | .decimal d =>
    match d.toFloat? with
    | some x => boolOfFloat v x
    | none => .fail .boolType v
  | .text s => boolOfText v s
  | .kind k => boolOfText v k.text
  | _ => .fail .boolType v

/-! ## Texts -/

/-- A text without white space at its ends. -/
def text (v : Value) : Reading String :=
  match v.text? with
  | some s => .ok (Text.trim s)
  | none => .fail .textType v

/-- The longest name, in characters. -/
def maxName : Nat := 1023

/-- A text of bounded length. -/
def boundedText (least : Nat) (v : Value) : Reading String :=
  (text v).bind fun s =>
    if s.length < least then .fail (.tooShort least) v
    else if maxName < s.length then .fail (.tooLong maxName) v
    else .ok s

/-- A name. -/
def name (v : Value) : Reading String := boundedText 1 v

/-- The entry type that a value is or names. -/
def kindOf? (v : Value) : Option EntryType := v.text?.bind EntryType.ofText?

/-- An entry type. -/
def kind (v : Value) : Reading EntryType :=
  match kindOf? v with
  | some k => .ok k
  | none => .fail (.choice (EntryType.all.map EntryType.text)) v

/-! ## Moments -/

/-- The stamp of a number, if it is in range. -/
def stampOfNumber (v : Value) (s : Option Stamp) : Reading Stamp :=
  match s with
  | some s => .ok s
  | none => .fail .momentRange v

/-- What a value names as a time stamp. -/
def stamp (v : Value) : Reading Stamp :=
  match v with
  | .moment m => .ok (.moment m)
  | .date d => .ok (.moment (.ofDate d))
  | .int n =>
    if -0x8000000000000000 ≤ n && n < 0x8000000000000000 then stampOfNumber v (Stamp.ofCount? n)
    else if isFinite (ofInt n) then stampOfNumber v (Stamp.ofFloat? (ofInt n))
    else .fail .momentType v
  | .float x => stampOfNumber v (Stamp.ofFloat? x)
  | .decimal d =>
    match d.toFloat? with
    | some x => stampOfNumber v (Stamp.ofFloat? x)
    | none => .fail .momentType v
  | .text s =>
    match Stamp.ofText? s with
    | some s => .ok s
    | none => .fail .momentText v
  | .kind _ => .fail .momentText v
  | _ => .fail .momentType v

/-- A moment. -/
def moment (v : Value) : Reading Moment :=
  (stamp v).bind fun
    | .moment m => .ok m
    | .yearZero _ => .fail .momentRange v

/-- What is said about a value that is not a date either. -/
def dateCause : Cause → Cause
  | .momentType => .dateType
  | _ => .dateText

/-- A moment or a date; both readings are reported if neither succeeds. -/
def momentOrDate (v : Value) : Reading Value :=
  match v with
  | .date d => .ok (.date d)
  | v =>
    match stamp v with
    | Except.ok (.moment m) => .ok (.moment m)
    | Except.ok (.yearZero midnight) =>
      .flaws [{ cause := .momentRange, path := ["datetime"], input := v },
        { cause := if midnight then .dateRange else .dateInexact, path := ["date"], input := v }]
    | Except.error fs =>
      .flaws (fs.map (Flaw.within "datetime")
        ++ fs.map fun f => ({ f with cause := dateCause f.cause } : Flaw).within "date")

/-! ## Alternatives and options -/

/-- A double, or a text that is kept as it is but for white space at its ends. -/
def floatOrText (v : Value) : Reading Value :=
  match v.text? with
  | some s => .ok (.text (Text.trim s))
  | none =>
    match anyFloat v with
    | Except.ok x => .ok (.float x)
    | Except.error fs =>
      .flaws (fs.map (Flaw.within "float")
        ++ [{ cause := .textType, path := ["constrained-str"], input := v }])

/-- A value that may be null. -/
def optional {α : Type} (read : Value → Reading α) (v : Value) : Reading (Option α) :=
  match v with
  | .null => .ok none
  | v => some <$> read v

/-- A field that must be given. -/
def required {α : Type} (fields : List (String × Value)) (field : String)
    (read : Value → Reading α) : Reading α :=
  match fields.lookup field with
  | some v => (read v).within field
  | none => .flaws [{ cause := .missing, path := [field] }]

/-- A field with a default. -/
def withDefault {α : Type} (fields : List (String × Value)) (field : String)
    (read : Value → Reading α) (default : α) : Reading α :=
  match fields.lookup field with
  | some v => (read v).within field
  | none => .ok default

end Bookkeeping.Part
