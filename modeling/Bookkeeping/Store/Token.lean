import Bookkeeping.Store.Numeric
import Bookkeeping.Text.Case
import Bookkeeping.Text.Hex

/-! # Tokens of statements

The text of a statement is cut into tokens: names, which may stand in quotation marks, texts,
numbers, places for parameters, reserved words and marks. White space and comments separate tokens.
A text that is no token ends the reading with the characters that do not fit.
-/

namespace Bookkeeping.Store

/-- What a token is. -/
inductive Lexeme where
  /-- A name, and the mark it is quoted with, if any. -/
  | name (s : String) (quote : Option Char)
  | text (s : String)
  | number
  | bytes
  | parameter
  /-- A word that is not a name. -/
  | reserved
  | mark
  /-- Characters that are no token. -/
  | unknown
  deriving DecidableEq, Repr

/-- A token as it is written. -/
structure Token where
  lexeme : Lexeme
  written : String
  deriving DecidableEq, Repr

namespace Token

/-- The words that cannot be names. -/
def reservedWords : List String := ["add", "all", "alter", "and", "as", "autoincrement", "between",
  "case", "check", "collate", "commit", "constraint", "create", "default", "deferrable", "delete",
  "distinct", "drop", "else", "escape", "except", "exists", "foreign", "from", "group", "having",
  "in", "index", "insert", "intersect", "into", "is", "isnull", "join", "limit", "not", "nothing",
  "notnull", "null", "on", "or", "order", "primary", "references", "returning", "select", "set",
  "table", "then", "to", "transaction", "union", "unique", "update", "using", "values", "when",
  "where"]

/-- A character of a name. -/
def isNameChar (c : Char) : Bool := c.isAlphanum || c == '_' || c == '$' || 0x80 ≤ c.toNat

/-- A hexadecimal digit. -/
def isHex (c : Char) : Bool := (Text.hexValue? c).isSome

/-- Whether a word cannot be a name. -/
def isReserved (s : String) : Bool := reservedWords.any (Text.sameIgnoringCase s)

/-- White space between tokens. -/
def isSpace (c : Char) : Bool := Numeric.isSpace c && c != '\x0b'

/-- The longest head of characters with a property, and the rest. -/
def span (p : Char → Bool) (cs : List Char) : List Char × List Char :=
  (cs.takeWhile p, cs.dropWhile p)

/-- The inside of a quotation up to its closing mark, which is written twice inside, and the
rest. -/
def quotation? (mark : Char) : List Char → Option (List Char × List Char)
  | [] => none
  | [c] => if c == mark then some ([], []) else none
  | c :: d :: rest =>
    if c == mark then
      if d == mark then (quotation? mark rest).map fun (inside, rest) => (mark :: inside, rest)
      else some ([], d :: rest)
    else (quotation? mark (d :: rest)).map fun (inside, rest) => (c :: inside, rest)

/-- What follows a comment that ends with an asterisk and a slash. -/
def afterComment : List Char → List Char
  | '*' :: '/' :: rest => rest
  | _ :: rest => afterComment rest
  | [] => []

/-- The length of a number at the head of the characters. -/
def numberLength (cs : List Char) : Nat :=
  let (whole, rest) := span Char.isDigit cs
  let (point, fraction, rest) := match rest with
    | '.' :: rest => (1, span Char.isDigit rest)
    | rest => (0, [], rest)
  let exponent := match rest with
    | e :: rest =>
      if e == 'e' || e == 'E' then
        let (sign, rest) := match rest with
          | '+' :: rest => (1, rest)
          | '-' :: rest => (1, rest)
          | rest => (0, rest)
        let digits := rest.takeWhile Char.isDigit
        if digits.isEmpty then 0 else 1 + sign + digits.length
      else 0
    | [] => 0
  whole.length + point + fraction.length + exponent

/-- The token of the first characters, and the rest. -/
def cut (lexeme : Lexeme) (n : Nat) (cs : List Char) : Token × List Char :=
  (⟨lexeme, String.ofList (cs.take n)⟩, cs.drop n)

/-- A number at the head of the characters. What goes on like a name is no number. -/
def number (cs : List Char) : Token × List Char :=
  let n := match cs with
    | '0' :: x :: rest =>
      let digits := rest.takeWhile isHex
      if (x == 'x' || x == 'X') && !digits.isEmpty then 2 + digits.length else numberLength cs
    | cs => numberLength cs
  let more := ((cs.drop n).takeWhile isNameChar).length
  cut (if more == 0 then .number else .unknown) (n + more) cs

/-- A quotation at the head of the characters. -/
def quoted (mark closing : Char) (cs : List Char) : Token × List Char :=
  match quotation? closing (cs.drop 1) with
  | none => cut .unknown cs.length cs
  | some (inside, rest) =>
    let s := String.ofList inside
    cut (if mark == '\'' then .text s else .name s (some mark)) (cs.length - rest.length) cs

/-- A name in brackets at the head of the characters. -/
def bracketed (cs : List Char) : Token × List Char :=
  let (inside, rest) := span (· != ']') (cs.drop 1)
  if rest.isEmpty then cut .unknown cs.length cs
  else cut (.name (String.ofList inside) (some '[')) (inside.length + 2) cs

/-- Bytes in hexadecimal digits at the head of the characters. -/
def bytes (cs : List Char) : Token × List Char :=
  let (digits, rest) := span isHex (cs.drop 2)
  if rest.head? == some '\'' && digits.length % 2 == 0 then cut .bytes (digits.length + 3) cs
  else cut .unknown (digits.length + (rest.takeWhile (· != '\'')).length + 3) cs

/-- A word at the head of the characters. -/
def word (cs : List Char) : Token × List Char :=
  let chars := cs.takeWhile isNameChar
  let s := String.ofList chars
  cut (if isReserved s then .reserved else .name s none) chars.length cs

/-- A named place for a parameter at the head of the characters. -/
def namedParameter (cs : List Char) : Token × List Char :=
  let chars := (cs.drop 1).takeWhile isNameChar
  cut (if chars.isEmpty then .unknown else .parameter) (chars.length + 1) cs

/-- The marks of two characters. -/
def pairs : List (Char × Char) :=
  [('=', '='), ('<', '='), ('<', '>'), ('<', '<'), ('>', '='), ('>', '>'), ('!', '='), ('|', '|')]

/-- The marks of one character. -/
def marks : List Char :=
  ['-', '(', ')', ';', '+', '*', '/', '%', '=', '<', '>', '|', ',', '&', '~', '.']

/-- A mark at the head of the characters. -/
def punctuation (c : Char) (rest : List Char) : Token × List Char :=
  let cs := c :: rest
  match c, rest with
  | '-', '>' :: '>' :: _ => cut .mark 3 cs
  | '-', '>' :: _ => cut .mark 2 cs
  | _, _ =>
    if rest.head?.any fun d => pairs.contains (c, d) then cut .mark 2 cs
    else cut (if marks.contains c then .mark else .unknown) 1 cs

/-- The token at the head of the characters, and the rest. -/
def ofHead (c : Char) (rest : List Char) : Token × List Char :=
  let cs := c :: rest
  if c == '\'' || c == '"' || c == '\x60' then quoted c c cs
  else if c == '[' then bracketed cs
  else if c.isDigit || (c == '.' && rest.head?.any Char.isDigit) then number cs
  else if c == '?' then cut .parameter (1 + (rest.takeWhile Char.isDigit).length) cs
  else if c == '$' || c == '@' || c == ':' || c == '#' then namedParameter cs
  else if (c == 'x' || c == 'X') && rest.head? == some '\'' then bytes cs
  else if isNameChar c then word cs
  else punctuation c rest

/-- The tokens of characters. The fuel bounds the steps. -/
def scan : Nat → List Char → List Token
  | 0, _ => []
  | _, [] => []
  | fuel + 1, '-' :: '-' :: rest => scan fuel (rest.dropWhile (· != '\n'))
  | fuel + 1, '/' :: '*' :: rest => scan fuel (afterComment rest)
  | fuel + 1, c :: rest =>
    if isSpace c then scan fuel (rest.dropWhile Numeric.isSpace)
    else if c == '\ufeff' then scan fuel rest
    else
      let (t, rest) := ofHead c rest
      t :: scan fuel rest

/-- The tokens of a text. -/
def ofText (s : String) : List Token := scan (s.length + 1) s.toList

end Token

end Bookkeeping.Store
