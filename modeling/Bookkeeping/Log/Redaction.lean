import Bookkeeping.Failure
import Bookkeeping.Log.Event
import Bookkeeping.Text.Case

/-! # Redaction

Credentials must never reach a log. A key is sensitive if its lower-case form contains one of a few
words; the value under a sensitive key is replaced by a marker, in dictionaries of any depth and in
the dictionaries that are elements of a list.
-/

namespace Bookkeeping.Log

/-- The words that make a key sensitive. -/
def sensitiveWords : List String :=
  ["password", "password_hash", "passwd", "secret", "token", "credential", "api_key"]

/-- What stands in place of a secret. -/
def redacted : Value := .text "\x7b\x7bREDACTED\x7d\x7d"

/-- Whether a list of characters occurs within another. -/
def occursIn (part : List Char) : List Char → Bool
  | [] => part.isEmpty
  | c :: cs => part.isPrefixOf (c :: cs) || occursIn part cs

/-- Whether the value under a key must not be shown. -/
def isSensitive (key : String) : Bool :=
  sensitiveWords.any fun w => occursIn w.toList (Text.lower key).toList

mutual

/-- A dictionary with its secrets replaced. -/
def cleanFields : List (String × Value) → List (String × Value)
  | [] => []
  | (k, v) :: rest => (k, if isSensitive k then redacted else cleanValue v) :: cleanFields rest

/-- The value under a key that is not sensitive. -/
def cleanValue : Value → Value
  | .dict fs => .dict (cleanFields fs)
  | .list vs => .list (cleanElements vs)
  | v => v

/-- The elements of a list. Lists within the list are left as they are. -/
def cleanElements : List Value → List Value
  | [] => []
  | .dict fs :: rest => .dict (cleanFields fs) :: cleanElements rest
  | v :: rest => v :: cleanElements rest

end

/-- A record of the standard logging facility: its arguments and what is attached to it. -/
structure Record where
  arguments : Value
  attached : List (String × Value)

/-- The attribute that holds the arguments. -/
def argumentsAttribute : String := "args"

/-- A record with attributes attached; one of them may stand for the arguments. -/
def Record.attach (arguments : Value) (attached : List (String × Value)) : Record where
  arguments := (attached.lookup argumentsAttribute).getD arguments
  attached := attached

/-- Arguments with the secrets of dictionaries replaced: a dictionary, or the elements of a list. A
text is taken apart into its characters, and what counts as false stays as it is. -/
def cleanArguments (v : Value) : Except Failure Value :=
  match v with
  | .dict fs => .ok (.dict (cleanFields fs))
  | .list vs => .ok (.list (cleanElements vs))
  | v =>
    if !v.truthy then .ok v
    else match v.text? with
    | some s => .ok (.list (s.toList.map fun c => .text (String.ofList [c])))
    | none => .error (.misuse .wrongType)

/-- A record with its secrets replaced. Attached values are replaced if their own key is sensitive,
and kept as they are otherwise. -/
def Record.clean (r : Record) : Except Failure Record := do
  let arguments ← cleanArguments r.arguments
  .ok { arguments, attached := r.attached.map fun (k, v) =>
    (k, if k == argumentsAttribute then arguments else if isSensitive k then redacted else v) }

end Bookkeeping.Log
