import Bookkeeping.Failure

/-! # Options of loading

How a section or the settings are looked for can be chosen where they are asked for: the options
stand among the given fields, under names that start with a low line. An option that is null is not
chosen.
-/

namespace Bookkeeping.Settings

/-- What can be chosen about loading. -/
structure Options where
  /-- Whether the case of names counts. -/
  exactCase : Bool := false
  /-- What stands before a field's name in the environment. -/
  start : Option String := none
  /-- The files of variables to read, if they are chosen. -/
  files : Option (List String) := none
  /-- Whether an empty variable counts as not set. -/
  ignoreEmpty : Bool := false
  /-- What separates the name of a section from that of its field. -/
  delimiter : String := ""
  /-- How many parts a name may have, or zero for any number. -/
  maxParts : Nat := 0
  /-- The text that stands for null. -/
  nullText : Option String := none
  /-- Whether a choice may be given by its name in capitals. -/
  choiceNames : Bool := false
  deriving DecidableEq, Repr

namespace Options

/-- Options that change nothing here. -/
def idle : List String :=
  ["_nested_model_default_partial_update", "_env_file_encoding", "_secrets_dir", "_cli_prog_name",
    "_cli_parse_args", "_cli_settings_source", "_cli_parse_none_str", "_cli_hide_none_type",
    "_cli_avoid_json", "_cli_enforce_required", "_cli_use_class_docs_for_groups",
    "_cli_exit_on_error", "_cli_prefix", "_cli_flag_prefix_char", "_cli_implicit_flags",
    "_cli_ignore_unknown_args", "_cli_kebab_case", "_cli_shortcuts"]

/-- A text, or nothing for null. Nothing else can be chosen. -/
def text? (v : Value) : Except Failure (Option String) :=
  match v.text? with
  | some s => .ok (some s)
  | none => if v.isNull then .ok none else .error (.misuse .wrongType)

/-- The names of files. -/
def fileNames (v : Value) : Except Failure (Option (List String)) :=
  match v with
  | .null => .ok (some [])
  | .list vs =>
    match vs.mapM Value.text? with
    | some names => .ok (some names)
    | none => .error (.misuse .wrongType)
  | v =>
    match v.text? with
    | some s => .ok (some [s])
    | none => .error (.misuse .wrongType)

/-- One option chosen; none if the name is not that of an option. -/
def choose? (o : Options) (name : String) (v : Value) : Option (Except Failure Options) :=
  match name with
  | "_case_sensitive" => some (.ok { o with exactCase := v.truthy })
  | "_env_prefix" => some ((text? v).map fun start => { o with start })
  | "_env_file" => some ((fileNames v).map fun files => { o with files })
  | "_env_ignore_empty" => some (.ok { o with ignoreEmpty := v.truthy })
  | "_env_nested_delimiter" =>
    some ((text? v).map fun delimiter => { o with delimiter := delimiter.getD "" })
  | "_env_nested_max_split" =>
    match v with
    | .int n => some (.ok { o with maxParts := n.toNat })
    | _ => some (.ok o)
  | "_env_parse_none_str" => some ((text? v).map fun nullText => { o with nullText })
  | "_env_parse_enums" => some (.ok { o with choiceNames := v.truthy })
  | name => if idle.contains name then some (.ok o) else none

/-- The options among given fields, and the fields that are none. -/
def ofGiven : List (String × Value) → Except Failure (Options × List (String × Value))
  | [] => .ok ({}, [])
  | (name, v) :: rest => do
    let (o, fields) ← ofGiven rest
    match o.choose? name v with
    | some o => .ok (← o, fields)
    | none => .ok (o, (name, v) :: fields)

end Options

end Bookkeeping.Settings
