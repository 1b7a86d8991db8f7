import Bookkeeping.Settings.Environment
import Bookkeeping.Text.Blank

/-! # Files of variables

A file of variables has one binding a line: a name, an equals sign and a value. Names and values may
stand in quotes, `export` may stand in front, and `#` starts a comment. A value in quotes may go on
over several lines. A line that is no binding is passed over. A value may refer to other variables.
-/

namespace Bookkeeping.Settings

/-! ## Characters -/

/-- A text with every end of a line written as a line feed. -/
def unifyLines : List Char → List Char
  | '\x0d' :: '\n' :: rest => '\n' :: unifyLines rest
  | '\x0d' :: rest => '\n' :: unifyLines rest
  | c :: rest => c :: unifyLines rest
  | [] => []

/-- A blank character within a line. -/
def isGap (c : Char) : Bool := Text.isBlank c && c != '\n'

/-- What follows the gap at the head of the characters. -/
def skipGap (cs : List Char) : List Char := cs.dropWhile isGap

/-- What is left of a line. -/
def restOfLine (cs : List Char) : List Char := cs.takeWhile (· != '\n')

/-- What follows the line. -/
def skipLine (cs : List Char) : List Char := (cs.dropWhile (· != '\n')).drop 1

/-! ## Bindings -/

/-- A name with its value; a name may stand alone. -/
structure Binding where
  name : String
  value : Option String
  deriving DecidableEq, Repr

/-- What a step of reading gives: its result with the characters after it, or the characters at
which it got stuck. -/
abbrev Scan (α : Type) : Type := Except (List Char) (α × List Char)

/-- What follows the word `export` and a gap, if they are there. -/
def skipExport (cs : List Char) : List Char :=
  let word := "export".toList
  let rest := cs.drop word.length
  if word.isPrefixOf cs && rest.head?.any isGap then skipGap rest else cs

/-- A name, none before a comment. -/
def scanName (cs : List Char) : Scan (Option String) :=
  match cs with
  | '#' :: _ => .ok (none, cs)
  | '\x27' :: rest =>
    let name := rest.takeWhile (· != '\x27')
    let after := rest.drop name.length
    if name.isEmpty || after.isEmpty then .error cs
    else .ok (some (String.ofList name), after.drop 1)
  | _ =>
    let name := cs.takeWhile fun c => c != '=' && c != '#' && !Text.isBlank c
    if name.isEmpty then .error cs
    else .ok (some (String.ofList name), cs.drop name.length)

/-- The characters up to a closing quote, with what follows it. A backslash takes the next character
of its line along. -/
def untilQuote (q : Char) : List Char → Option (List Char × List Char)
  | [] => none
  | ['\x5c'] => none
  | '\x5c' :: d :: rest =>
    if d == '\n' then none
    else (untilQuote q rest).map fun (cs, after) => ('\x5c' :: d :: cs, after)
  | c :: rest =>
    if c == q then some ([], rest)
    else (untilQuote q rest).map fun (cs, after) => (c :: cs, after)

/-- The character that a letter stands for after a backslash in single quotes. -/
def plainEscape? (c : Char) : Option Char :=
  if c == '\x5c' || c == '\x27' then some c else none

/-- The character that a letter stands for after a backslash in double quotes. -/
def fullEscape? : Char → Option Char
  | '\x5c' => some '\x5c'
  | '\x27' => some '\x27'
  | '\x22' => some '\x22'
  | 'a' => some '\x07'
  | 'b' => some '\x08'
  | 'f' => some '\x0c'
  | 'n' => some '\n'
  | 'r' => some '\x0d'
  | 't' => some '\t'
  | 'v' => some '\x0b'
  | _ => none

/-- A text with its escapes resolved. -/
def unescape (escape? : Char → Option Char) : List Char → List Char
  | [] => []
  | c :: rest =>
    if c == '\x5c' then
      match rest with
      | [] => [c]
      | d :: more =>
        match escape? d with
        | some e => e :: unescape escape? more
        | none => c :: unescape escape? (d :: more)
    else c :: unescape escape? rest

/-- A value without the comment that follows a blank. -/
def dropComment : List Char → List Char
  | [] => []
  | c :: rest =>
    if Text.isBlank c && (rest.dropWhile Text.isBlank).head? == some '#' then []
    else c :: dropComment rest

/-- A text without blanks at its end. -/
def dropBlanks (cs : List Char) : List Char := (cs.reverse.dropWhile Text.isBlank).reverse

/-- A value. -/
def scanValue (cs : List Char) : Scan String :=
  let inQuotes (q : Char) (escape? : Char → Option Char) (rest : List Char) : Scan String :=
    match untilQuote q rest with
    | some (value, after) => .ok (String.ofList (unescape escape? value), after)
    | none => .error cs
  match cs with
  | '\x27' :: rest => inQuotes '\x27' plainEscape? rest
  | '\x22' :: rest => inQuotes '\x22' fullEscape? rest
  | _ =>
    let line := restOfLine cs
    .ok (String.ofList (dropBlanks (dropComment line)), cs.drop line.length)

/-- A value after an equals sign, none without one. A comment after a gap leaves the value empty. -/
def scanAssigned (cs : List Char) : Scan (Option String) :=
  match cs with
  | '=' :: rest =>
    let value := skipGap rest
    if value.head? == some '#' && value.length != rest.length then .ok (some "", value)
    else (scanValue value).map fun (value, cs) => (some value, cs)
  | _ => .ok (none, cs)

/-- What follows the end of a binding: a comment and the end of the line. -/
def scanEnd (cs : List Char) : Except (List Char) (List Char) :=
  let cs := match skipGap cs with
    | '#' :: comment => comment.dropWhile (· != '\n')
    | _ => cs
  match skipGap cs with
  | [] => .ok []
  | '\n' :: rest => .ok rest
  | _ => .error cs

/-- One line: a binding or nothing. -/
def scanLine (cs : List Char) : Except (List Char) (Option Binding × List Char) := do
  let (name, cs) ← scanName (skipExport cs)
  let (value, cs) ← scanAssigned (skipGap cs)
  let cs ← scanEnd cs
  .ok (name.map fun name => ⟨name, value⟩, cs)

/-- The bindings of a text of at most so many characters. -/
def scanLines : Nat → List Char → List Binding
  | 0, _ => []
  | fuel + 1, cs =>
    match cs.dropWhile Text.isBlank with
    | [] => []
    | cs =>
      match scanLine cs with
      | .ok (binding, rest) => binding.toList ++ scanLines fuel rest
      | .error rest => scanLines fuel (skipLine rest)

/-- The bindings of a file. -/
def bindings (file : String) : List Binding :=
  let cs := unifyLines file.toList
  scanLines cs.length cs

/-! ## References to variables -/

/-- A reference to a variable. -/
structure Reference where
  name : String
  /-- What stands for a variable that is not set. -/
  default : String
  /-- How many characters the reference takes. -/
  length : Nat

/-- The reference at the head of the characters: a name in braces after a dollar sign, possibly with
a default after a colon and a minus. -/
def reference? (cs : List Char) : Option Reference :=
  match cs with
  | '$' :: '\x7b' :: rest =>
    let name := rest.takeWhile fun c => c != '\x7d' && c != ':'
    match rest.drop name.length with
    | '\x7d' :: _ => some ⟨String.ofList name, "", name.length + 3⟩
    | ':' :: '-' :: more =>
      let default := more.takeWhile (· != '\x7d')
      if default.length == more.length then none
      else some ⟨String.ofList name, String.ofList default, name.length + default.length + 5⟩
    | _ => none
  | _ => none

/-- A text with its references replaced, after some characters that are passed over. -/
def expand (value : Reference → String) : Nat → List Char → List Char
  | _, [] => []
  | skip + 1, _ :: rest => expand value skip rest
  | 0, c :: rest =>
    match reference? (c :: rest) with
    | some r => (value r).toList ++ expand value (r.length - 1) rest
    | none => c :: expand value 0 rest

/-- The value of a reference. Of the variables of the file and those of the environment, the former
count first if `fileFirst` is set. -/
def Reference.value (fileFirst : Bool) (env : Environment)
    (defined : List (String × Option String)) (r : Reference) : String :=
  let own := defined.lookup r.name
  let outer := (env.value? r.name).map some
  match (if fileFirst then own <|> outer else outer <|> own) with
  | none => r.default
  | some value => value.getD ""

/-- The variables of a file, each with its last value in the place of its first. -/
def resolve (fileFirst : Bool) (env : Environment) (bs : List Binding) :
    List (String × Option String) :=
  bs.foldl (fun defined b =>
    let value := b.value.map fun s =>
      String.ofList (expand (Reference.value fileFirst env defined) 0 s.toList)
    Environment.put b.name value defined) []

end Bookkeeping.Settings
