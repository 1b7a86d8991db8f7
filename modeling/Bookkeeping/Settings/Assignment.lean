import Bookkeeping.Attribute
import Bookkeeping.Settings.Source

/-! # Assigning settings

Settings can be changed after they were loaded. The section of the database checks what is assigned
to its fields; the other sections, and the settings as a whole, take any value. So assigned settings
are kept as fields and not as sections.
-/

namespace Bookkeeping.Settings

/-- What can be assigned to. -/
inductive Assignable where
  | settings
  | database
  | security
  | app
  deriving DecidableEq, Repr

namespace Assignable

def all : List Assignable := [settings, database, security, app]

/-- The name of the kind. -/
def title : Assignable → String
  | settings => "Settings"
  | database => Section.title DatabaseSettings
  | security => Section.title SecuritySettings
  | app => Section.title AppSettings

/-- The kind of a name. -/
def ofTitle? (s : String) : Option Assignable := all.find? fun k => k.title == s

/-- Attributes that are computed from the fields and cannot be assigned. -/
def computed : Assignable → List String
  | settings => []
  | database => ["absolute_path"]
  | security => []
  | app => ["is_production", "is_development"]

/-- The fields of what was loaded. -/
def load (around : Surroundings) (given : List (String × Value)) :
    Assignable → Except Failure (List (String × Value))
  | settings => (Settings.load around given).map Settings.fields
  | database => own DatabaseSettings
  | security => own SecuritySettings
  | app => own AppSettings
where
  own (α : Type) [Section α] : Except Failure (List (String × Value)) := do
    ((← loadSection (α := α) around given).orFail (Section.title α)).map Section.fields

end Assignable

/-- What was loaded, with what was assigned since. -/
structure Loaded where
  kind : Assignable
  fields : List (String × Value)
  /-- The sections in whose place something else was put. -/
  replaced : List String := []

namespace Loaded

/-- What a kind gives when it is loaded. -/
def ofKind (kind : Assignable) (around : Surroundings) (given : List (String × Value)) :
    Except Failure Loaded :=
  (kind.load around given).map fun fields => { kind, fields }

/-! ## Assigning -/

/-- A field of the database section assigned. -/
def assignDatabase (fields : List (String × Value)) (field : String) (v : Value) :
    Reading (List (String × Value)) :=
  if (fields.lookup field).isSome then
    Section.fields <$> Section.read (α := DatabaseSettings) (Value.setField field v fields)
  else .flaws [{ cause := .unknownField field, path := [field], input := v }]

/-- A field assigned. -/
def assignField (s : Loaded) (field : String) (v : Value) : Except Failure Loaded :=
  if s.kind == .database then
    ((assignDatabase s.fields field v).orFail s.kind.title).map fun fields => { s with fields }
  else if (s.fields.lookup field).isSome then
    .ok { s with fields := Value.setField field v s.fields
                 replaced := if s.kind == .settings then field :: s.replaced else s.replaced }
  else .error (.badValue ("\"" ++ s.kind.title ++ "\" object has no field \"" ++ field ++ "\""))

/-- The path of the database assigned, which only the settings as a whole offer. -/
def assignPath (s : Loaded) (v : Value) : Except Failure Loaded :=
  match s.kind, s.replaced.contains "database", s.fields.lookup "database" with
  | .settings, false, some (.dict own) => do
    let own ← (assignDatabase own "path" v).orFail (Section.title DatabaseSettings)
    .ok { s with fields := Value.setField "database" (.dict own) s.fields }
  | _, _, _ => .error (.misuse .noAttribute)

/-- An attribute assigned. -/
def assign (s : Loaded) (name : String) (v : Value) : Except Failure Loaded :=
  match Attribute.assign? s.kind.computed name v with
  | some r => r.map fun () => s
  | none => s.assignField name v

/-! ## Computed attributes -/

/-- The fields of a section, if what was loaded has that section. It may have been replaced. -/
def section? (s : Loaded) (part : Assignable) (field : String) :
    Except Failure (Option (List (String × Value))) :=
  if s.kind == part then .ok (some s.fields)
  else if s.kind != .settings then .ok none
  else
    match s.replaced.contains field, s.fields.lookup field with
    | false, some (.dict own) => .ok (some own)
    | _, _ => .error (.misuse .noAttribute)

/-- The absolute path of a database section. -/
def absolutePath (directory : String) (own : List (String × Value)) : Except Failure String := do
  let path := (Value.field own "path").display
  Path.check path
  .ok (Path.absolute directory path)

/-- Whether the stage of a section is the given one. -/
def isStage (own : List (String × Value)) (x : Stage) : Bool :=
  (Value.field own "environment").text? == some x.text

/-- The computed attributes, seen from a directory. -/
def attributes (s : Loaded) (directory : String) : Except Failure (List (String × Value)) := do
  let path ← match ← s.section? .database "database" with
    | none => .ok []
    | some own => .ok [("absolute_path", Value.text (← absolutePath directory own))]
  let stages := match ← s.section? .app "app" with
    | none => []
    | some own => [("is_production", Value.bool (isStage own .production)),
        ("is_development", .bool (isStage own .development))]
  .ok (path ++ stages)

end Loaded

end Bookkeeping.Settings
