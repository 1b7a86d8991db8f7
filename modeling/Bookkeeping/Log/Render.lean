import Bookkeeping.Json.Writer
import Bookkeeping.Log.Redaction
import Bookkeeping.Log.Template

/-! # Rendering log events

An event that passes the threshold of its logger becomes one line: a JSON object, or a line for
people with the level, the text, the logger and the fields in the order of their names. Secrets are
replaced after the text is filled in and before anything is written.
-/

namespace Bookkeeping.Log

/-! ## Thresholds -/

/-- The names of thresholds in upper case, each with the least weight that passes. -/
def thresholds : List (String × Nat) :=
  [("DEBUG", 10), ("INFO", 20), ("WARNING", 30), ("WARN", 30), ("ERROR", 40), ("CRITICAL", 50),
    ("FATAL", 50), ("NOTSET", 0)]

/-- The format of plain lines, which the logging facility keeps under a name of its own. -/
def plainFormat : String := "%(levelname)s:%(name)s:%(message)s"

/-- The threshold of a level name of any case: the least weight that passes, zero for none. Two
names stand for other settings of the logging facility, which are no thresholds. -/
def threshold (name : String) : Except Failure Nat :=
  let name := Text.upper name
  if name == "BASIC_FORMAT" then
    .error (.badValue ("Unknown level: " ++ Text.quoted plainFormat))
  else if name == "_STYLES" then .error (.misuse .wrongType)
  else match thresholds.lookup name with
  | some weight => .ok weight
  | none => .error (.misuse .noAttribute)

/-- The threshold of loggers that nobody set up. -/
def rootThreshold : Nat := 30

/-- Whether a name stands for the logger above all others. -/
def isRoot (name : String) : Bool := name == "" || name == "root"

/-- The loggers above one: its name cut before one of its points. Points are looked for from the
end, each time leaving out the character before the last one found, so the first of two adjacent
points does not count. A name has no part before a point at its start. The list is reversed. -/
def ancestors : List Char → List (List Char)
  | [] => []
  | '.' :: c :: rest => (c :: rest) :: ancestors rest
  | _ :: rest => ancestors rest

/-- How a service logs. -/
structure Setup where
  /-- The logger that is set up, with all loggers below it. -/
  service : String := "moneyledger"
  /-- The least weight that passes, zero if the logger leaves that to the root. -/
  threshold : Nat := 20
  json : Bool := false

namespace Setup

/-- Whether a logger is the service's or one below it. -/
def covers (s : Setup) (logger : String) : Bool :=
  isRoot s.service || logger == s.service
    || (ancestors logger.toList.reverse).contains s.service.toList.reverse

/-- The least weight that passes through a logger. -/
def thresholdOf (s : Setup) (logger : String) : Nat :=
  if s.covers logger then
    if s.threshold == 0 && !isRoot s.service then rootThreshold else s.threshold
  else rootThreshold

/-- Whether an event of a level passes through a logger. -/
def passes (s : Setup) (logger : String) (level : Level) : Bool :=
  s.thresholdOf logger ≤ level.weight

end Setup

/-! ## Events as fields -/

/-- Names that an event's fields may not have. -/
def reservedNames : List String := ["event", "method_name", "self"]

/-- An event as it is handed over: its text may be a value of any kind, and comes with the arguments
that it is filled with. -/
structure Message where
  level : Level
  logger : String
  event : Value
  fields : List (String × Value)
  args : List Value := []

/-- An event without arguments. -/
def Event.message (e : Event) : Message := ⟨e.level, e.logger, .text e.event, e.fields, []⟩

/-- The field that can hold the arguments of an event instead. -/
def argumentsField : String := "positional_args"

/-- The field that can hold a record of the standard logging facility, which names the logger. -/
def recordField : String := "_record"

/-- Fields that ask for the error or the calls under way; there are none when events are
rendered. -/
def situationFields : List String := ["exc_info", "stack_info"]

/-- A dictionary without some of its keys. -/
def without (keys : List String) (fields : List (String × Value)) : List (String × Value) :=
  fields.filter fun (k, _) => !keys.contains k

/-- The fields without the arguments that they hold, if they hold any. -/
def dropArguments (fields : List (String × Value)) : List (String × Value) :=
  if (Value.field fields argumentsField).isNull then fields else without [argumentsField] fields

namespace Message

/-- What the text of a message is filled with. -/
def supply (m : Message) : Except Failure (Option Supply) :=
  if m.args.isEmpty then Supply.ofValue? (Value.field m.fields argumentsField)
  else .ok (Supply.ofArguments? m.args)

/-- The text of a message as a field, none if it has none. Only a text can be filled. -/
def filled (m : Message) : Except Failure (List (String × Value)) := do
  match m.event, ← m.supply with
  | .null, none => .ok []
  | .null, some _ => .error (.misuse .noKey)
  | v, none => .ok [("event", v)]
  | .text s, supply => do
    let s ← fill s supply
    .ok [("event", .text s)]
  | _, some _ => .error (.misuse .wrongType)

/-- The logger of a message as it is written. -/
def loggerText (m : Message) : Except Failure String :=
  match Value.field m.fields recordField with
  | .null => .ok (if isRoot m.logger then "root" else m.logger)
  | .kind k => .ok k.label
  | _ => .error (.misuse .noAttribute)

/-- The fields of a message with its text, its logger and its level, secrets replaced. -/
def record (m : Message) : Except Failure (List (String × Value)) := do
  let logger ← m.loggerText
  let event ← m.filled
  let fields := if m.args.isEmpty then dropArguments m.fields else without [argumentsField] m.fields
  .ok (without situationFields (cleanFields (Value.setField "level" (.text m.level.text)
    (Value.setField "logger" (.text logger) (fields ++ event)))))

/-- The fields of a message, none if it does not pass. -/
def record? (s : Setup) (m : Message) : Except Failure (Option (List (String × Value))) :=
  if m.fields.any fun (k, _) => reservedNames.contains k then .error (.misuse .wrongType)
  else if s.passes m.logger m.level then some <$> m.record
  else .ok none

end Message

/-! ## Lines -/

/-- Characters that make a text stand in quotes on a line. -/
def needsQuotes (c : Char) : Bool :=
  c == ' ' || c == '\t' || c == '=' || c == '\r' || c == '\n' || c == '\x22' || c == '\x27'

/-- A value on a line. -/
def lineValue (v : Value) : String :=
  match v.text? with
  | some s => if s.toList.any needsQuotes then Text.quoted s else s
  | none => v.literal

/-- The fields that have a place of their own on a line. -/
def placed : List String := ["level", "event", "logger", "logger_name"]

/-- The text of a value in brackets, nothing if it is missing. -/
def bracketed (v : Option Value) (width : Nat) : List String :=
  (v.map fun v => "[" ++ Text.pad width v.display ++ "]").toList

/-- A text without spaces at its end. -/
def dropSpaces (s : String) : String :=
  String.ofList (s.toList.reverse.dropWhile (· == ' ')).reverse

/-- Fields that stand on lines of their own: the calls and the error that an event is about. -/
def ownLines : List String := ["stack", "exception"]

/-- A field that stands on lines of its own, which must be a text. -/
def ownLine? (fields : List (String × Value)) (key : String) : Except Failure (Option String) :=
  match Value.field fields key with
  | .null => .ok none
  | v => v.text?.elim (.error (.misuse .wrongType)) (.ok ∘ some)

/-- What parts the calls from the error. -/
def divider : String := "\n\n" ++ "".pushn '=' 79 ++ "\n"

/-- A record as a line for people, followed by the fields that stand on lines of their own. -/
def consoleLine (stamp : String) (fields : List (String × Value)) : Except Failure String := do
  let stack ← ownLine? fields "stack"
  let exception ← ownLine? fields "exception"
  let event := (fields.lookup "event").map fun v => Text.pad 30 v.display
  let others := (without ("timestamp" :: placed ++ ownLines) fields).mergeSort fun a b => a.1 ≤ b.1
  let line := dropSpaces (" ".intercalate ([stamp] ++ bracketed (fields.lookup "level") 9
    ++ event.toList ++ bracketed (fields.lookup "logger") 0
    ++ bracketed (fields.lookup "logger_name") 0
    ++ others.map fun (k, v) => k ++ "=" ++ lineValue v))
  .ok (line ++ (stack.map ("\n" ++ ·)).getD ""
    ++ (if stack.isSome && exception.isSome then divider else "")
    ++ (exception.map ("\n" ++ ·)).getD "")

/-- A record as a JSON object. -/
def jsonLine (stamp : String) (fields : List (String × Value)) : Except Failure String :=
  .ok (Json.write (.dict (Value.setField "timestamp" (.text stamp) fields)))

/-- The line of a message sent at a given time, none if it does not pass. -/
def Message.line? (s : Setup) (stamp : String) (m : Message) : Except Failure (Option String) := do
  match ← m.record? s with
  | none => .ok none
  | some fields => some <$> (if s.json then jsonLine else consoleLine) stamp fields

/-- The lines of several messages, in their order. -/
def lines (s : Setup) (stamp : String) : List Message → Except Failure (List String)
  | [] => .ok []
  | m :: ms => do
    let line ← m.line? s stamp
    let rest ← lines s stamp ms
    .ok (line.toList ++ rest)

end Bookkeeping.Log
