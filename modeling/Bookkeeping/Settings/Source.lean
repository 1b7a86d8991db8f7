import Bookkeeping.Json.Reader
import Bookkeeping.Settings.Options
import Bookkeeping.Settings.Path
import Bookkeeping.Settings.Section
import Bookkeeping.Settings.Variables

/-! # Where settings come from

Each field is looked for in three places: what a caller gives, the environment, and a file of
variables. What is found first counts, field by field. In the settings as a whole a variable named
like a section may hold it as JSON, and the variables of the file are also added to the environment,
as far as it does not have them, so a section finds its own fields there. A section that is found
nowhere is read from the environment alone.
-/

namespace Bookkeeping

/-- The settings of a ledger. -/
structure Settings where
  database : DatabaseSettings := {}
  security : SecuritySettings := {}
  app : AppSettings := {}
  deriving DecidableEq

namespace Settings

/-- Where settings are loaded: the variables of the process and the file of variables in the working
directory, if there is one. -/
structure Surroundings where
  env : Environment := []
  file : Option String := none

/-! ## Putting fields over fields -/

mutual

/-- Fields put over others, dictionaries field by field. -/
def overlay (low : List (String × Value)) : List (String × Value) → List (String × Value)
  | [] => low
  | (k, v) :: rest => overlay (Value.setField k (overlayValue (low.lookup k) v) low) rest

/-- A value put over another one. -/
def overlayValue (low : Option Value) : Value → Value
  | .dict fs =>
    match low with
    | some (.dict ls) => .dict (overlay ls fs)
    | _ => .dict fs
  | v => v

end

/-- Whether two names are the same without regard to case. -/
def sameName (a b : String) : Bool := Text.lower a == Text.lower b

/-- Fields under the names that they match without regard to case; the last of several that match
one name counts. -/
def matchNames (names : List String) (fields : List (String × Value)) : List (String × Value) :=
  fields.foldl (fun found (k, v) =>
    let name := names.find? fun n => sameName n k
    Value.setField (name.getD k) v found) []

/-- Given fields under the names that they match: the name itself or else the first that differs in
case only. What matches no name follows. -/
def givenFields (exactCase : Bool) (names : List String) (given : List (String × Value)) :
    List (String × Value) :=
  if exactCase then given
  else
    let ofName (name : String) : Option (String × Value) :=
      ((given.lookup name).or ((given.find? fun (k, _) => sameName name k).map Prod.snd)).map
        fun v => (name, v)
    names.filterMap ofName ++ given.filter fun (k, _) => !names.any fun n => sameName n k

/-! ## Variables -/

/-- Variables as a place holds them: a name with its text, with null, or with nothing at all. -/
abbrev Held : Type := List (String × Option Value)

/-- Variables as they are looked up under options. -/
def heldUnder (o : Options) (defined : List (String × Option String)) : Held :=
  let value (s : String) : Value := if o.nullText == some s then .null else .text s
  let kept := defined.filter fun (_, v) => !(o.ignoreEmpty && v == some "")
  kept.foldl (fun held (k, v) =>
    Environment.put (if o.exactCase then k else Text.lower k) (v.map value) held) []

/-- What a place holds under a name. -/
def held? (vars : Held) (name : String) : Option Value := (vars.lookup name).join

/-- The name under which a field is looked up. -/
def variableName (o : Options) (start field : String) : String :=
  if o.exactCase then start ++ field else Text.lower (start ++ field)

/-- The value of a choice that is given by its name. -/
def choiceOf (field : String) (v : Value) : Value :=
  match v with
  | .text s =>
    if field == "environment" then
      match Stage.all.find? fun x => Text.upper x.text == s with
      | some x => .text x.text
      | none => v
    else v
  | v => v

/-- The fields of a section that a place holds. -/
def fieldsIn (o : Options) (start : String) (names : List String) (vars : Held) :
    List (String × Value) :=
  names.filterMap fun field =>
    (held? vars (variableName o start field)).map fun v =>
      (field, if o.choiceNames then choiceOf field v else v)

/-- The variables of a file that are no field of a section. They do not belong there. -/
def strangers (o : Options) (start : String) (names : List String) (vars : Held) :
    List (String × Value) :=
  let found := (fieldsIn o start names vars).map Prod.fst
  vars.filterMap fun (name, v) =>
    match v with
    | none => none
    | some v =>
      if (v.text? == some "") || found.contains name || (start != "" && names.contains name)
          || names.any fun field => variableName o start field == name then none
      else some (name, v)

/-- The name of the file of variables. -/
def fileName : String := ".env"

/-- Whether a path names the file of variables in the working directory. -/
def isFile (path : String) : Bool :=
  !Path.isRooted path && Path.normal (Path.steps path) == [fileName]

/-- The variables of the chosen files. -/
def fileVariables (around : Surroundings) (files : List String) : List (String × Option String) :=
  match around.file with
  | some text => if files.any isFile then resolve true around.env (bindings text) else []
  | none => []

/-! ## Loading a section -/

/-- A section from given fields, from the environment and from files that are chosen among the given
fields. -/
def loadSection {α : Type} [Section α] (around : Surroundings) (given : List (String × Value)) :
    Except Failure (Reading α) := do
  let (o, given) ← Options.ofGiven given
  let names := Section.names α
  let start := o.start.getD (Section.start α)
  let outer := heldUnder o (around.env.map fun (k, v) => (k, some v))
  let inner := heldUnder o (fileVariables around (o.files.getD []))
  let file := fieldsIn o start names inner ++ strangers o start names inner
  let found := overlay (overlay file (fieldsIn o start names outer))
    (givenFields o.exactCase names given)
  .ok (Section.read found)

/-! ## Sources of whole sections -/

/-- A place where sections may be kept. -/
structure Source where
  /-- The name of the place. -/
  name : String
  variables_ : Held

/-- How deeply JSON may be nested. -/
def maxDepth : Nat := 970

/-- The value that a text holds as JSON. -/
def Source.json (source : Source) (field text : String) : Except Failure Value :=
  if maxDepth < Json.depth text then .error (.misuse .tooDeep)
  else
    match Json.read text with
    | some v => .ok v
    | none => .error (.badSetting
        ("error parsing value for field \"" ++ field ++ "\" from source \"" ++ source.name ++ "\""))

/-- A value put into nested dictionaries at the end of a list of keys, unless something else is in
the way. -/
def putAt (v : Value) : List String → List (String × Value) → List (String × Value)
  | [], fs => fs
  | [key], fs => Value.setField key v fs
  | key :: rest, fs =>
    match fs.lookup key with
    | none => Value.setField key (.dict (putAt v rest [])) fs
    | some (.dict inner) => Value.setField key (.dict (putAt v rest inner)) fs
    | some _ => fs

/-- The parts of a name, at most as many as the options allow. -/
def nameParts (o : Options) (name : String) : List String :=
  let parts := name.splitOn o.delimiter
  if o.maxParts == 0 || parts.length ≤ o.maxParts then parts
  else parts.take (o.maxParts - 1) ++ [o.delimiter.intercalate (parts.drop (o.maxParts - 1))]

/-- The fields of a section whose variables are named one by one. -/
def Source.named (source : Source) (o : Options) (start field : String) : List (String × Value) :=
  if o.delimiter == "" then []
  else
    let head := variableName o start field ++ o.delimiter
    source.variables_.foldl (fun fs (name, v) =>
      if head.toList.isPrefixOf name.toList then
        let rest := String.ofList (name.toList.drop head.length)
        putAt (v.getD .null) (nameParts o rest) fs
      else fs) []

/-- What a source holds of a section. -/
def Source.section? (source : Source) (o : Options) (start field : String) (names : List String) :
    Except Failure (Option Value) := do
  let named := source.named o start field
  let matched (fs : List (String × Value)) : Value :=
    .dict (if o.exactCase then fs else matchNames names fs)
  match held? source.variables_ (variableName o start field) with
  | none => .ok (if named.isEmpty then none else some (matched named))
  | some v =>
    match v.text? with
    | none => .ok (some .null)
    | some s =>
      match ← source.json field s with
      | .null => .ok none
      | .dict fs => .ok (some (matched (overlay fs named)))
      | v => .ok (some v)

/-- What a source holds of all sections. -/
def Source.sections (source : Source) (o : Options) : Except Failure (List (String × Value)) := do
  let start := o.start.getD ""
  let database ← source.section? o start "database" (Section.names DatabaseSettings)
  let security ← source.section? o start "security" (Section.names SecuritySettings)
  let app ← source.section? o start "app" (Section.names AppSettings)
  .ok ([("database", database), ("security", security), ("app", app)].filterMap
    fun (k, v) => v.map fun v => (k, v))

/-! ## Loading the settings -/

/-- A section that may have been found. One that was not found must be readable at once. -/
def sectionOf (α : Type) [Section α] (around : Surroundings) (found : List (String × Value))
    (field : String) : Except Failure (Reading α) := do
  match found.lookup field with
  | none => ((← loadSection (α := α) around []).orFail (Section.title α)).map .ok
  | some (.dict fs) => .ok ((← loadSection around fs).within field)
  | some v => .ok (.flaws [{ cause := .recordType (Section.title α), path := [field], input := v }])

/-- The variable that keeps the file from being added to the environment. -/
def switch : String := "PYTHON_DOTENV_DISABLED"

/-- Whether the file is kept from the environment. -/
def isKeptOut (env : Environment) : Bool :=
  (env.value? switch).any fun s => ["1", "true", "t", "yes", "y"].contains (Text.lower s)

/-- A variable that a process can have. -/
def checkVariable (name value : String) : Except Failure Unit :=
  if name.contains '\x00' || value.contains '\x00' then .error (.badValue "embedded null byte")
  else if name.contains '=' then .error (.badValue "illegal environment variable name")
  else .ok ()

/-- The environment with the variables of the file. -/
def Surroundings.extended (around : Surroundings) : Except Failure Environment := do
  match around.file with
  | none => .ok around.env
  | some text =>
    if isKeptOut around.env then .ok around.env
    else
      let env := around.env.extend (resolve false around.env (bindings text))
      for (name, value) in env.drop around.env.length do checkVariable name value
      .ok env

/-- The settings from what is given and from their surroundings. -/
def load (around : Surroundings) (given : List (String × Value)) : Except Failure Settings := do
  let around := { around with env := ← around.extended }
  if (given.lookup "self").isSome then .error (.misuse .wrongType)
  let (o, given) ← Options.ofGiven given
  let outer ← Source.sections
    ⟨"EnvSettingsSource", heldUnder o (around.env.map fun (k, v) => (k, some v))⟩ o
  let inner ← Source.sections
    ⟨"DotEnvSettingsSource",
      heldUnder o (fileVariables around (o.files.getD [fileName]))⟩ o
  let names := ["database", "security", "app"]
  let found := overlay (overlay inner outer) (givenFields o.exactCase names given)
  let database ← sectionOf DatabaseSettings around found "database"
  let security ← sectionOf SecuritySettings around found "security"
  let app ← sectionOf AppSettings around found "app"
  Reading.orFail "Settings"
    ((fun database security app => { database, security, app }) <$> database <*> security <*> app)

/-- The settings as fields. -/
def fields (s : Settings) : List (String × Value) :=
  [("database", .dict (Section.fields s.database)), ("security", .dict (Section.fields s.security)),
    ("app", .dict (Section.fields s.app))]

end Settings

end Bookkeeping
