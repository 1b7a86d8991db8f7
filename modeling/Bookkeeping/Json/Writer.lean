import Bookkeeping.Value

/-! # Writing JSON

Values are written on one line in ASCII: other characters are escaped by their UTF-16 units. Doubles
are written with the fewest digits that read back, and those without a number keep their names.
Dates, moments and decimals, which JSON has no form for, are written as the text they have inside
other values.
-/

namespace Bookkeeping.Json

/-- The escape of a UTF-16 unit. -/
def unitEscape (n : Nat) : List Char := '\x5c' :: 'u' :: Text.hex 4 n

/-- A character inside a JSON text. -/
def charText (c : Char) : List Char :=
  if c == '\x22' || c == '\x5c' then ['\x5c', c]
  else if c == '\n' then ['\x5c', 'n']
  else if c == '\r' then ['\x5c', 'r']
  else if c == '\t' then ['\x5c', 't']
  else if c.toNat == 8 then ['\x5c', 'b']
  else if c.toNat == 12 then ['\x5c', 'f']
  else if 32 ≤ c.toNat && c.toNat < 127 then [c]
  else if c.toNat < 0x10000 then unitEscape c.toNat
  else
    let n := c.toNat - 0x10000
    unitEscape (0xd800 + n / 0x400) ++ unitEscape (0xdc00 + n % 0x400)

/-- A JSON text. -/
def quoted (s : String) : String :=
  String.ofList ('\x22' :: s.toList.flatMap charText ++ ['\x22'])

/-- A double as a JSON number, or the name of what is not a number. -/
def number (x : Float) : String :=
  if Number.isNaN x then "NaN"
  else if Number.isFinite x then Number.floatText x
  else if Number.Binary.isNegative x then "-Infinity" else "Infinity"

mutual

/-- The JSON text of a value. -/
def write : Value → String
  | .null => "null"
  | .bool b => if b then "true" else "false"
  | .int n => toString n
  | .float x => number x
  | .text s => quoted s
  | .kind k => quoted k.text
  | .list vs => "[" ++ ", ".intercalate (writeAll vs) ++ "]"
  | .dict fields => "\x7b" ++ ", ".intercalate (writeFields fields) ++ "\x7d"
  | .decimal d => quoted (Value.literal (.decimal d))
  | .date d => quoted (Value.literal (.date d))
  | .moment m => quoted (Value.literal (.moment m))

/-- The JSON texts of the elements of a list. -/
def writeAll : List Value → List String
  | [] => []
  | v :: vs => write v :: writeAll vs

/-- The JSON texts of the fields of a dictionary. -/
def writeFields : List (String × Value) → List String
  | [] => []
  | (k, v) :: fields => (quoted k ++ ": " ++ write v) :: writeFields fields

end

end Bookkeeping.Json
