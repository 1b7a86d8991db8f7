import Mathlib.Data.List.Induction
import Bookkeeping.Proofs.Readings
import Bookkeeping.Settings.Source

/-! # Which variable counts

A field of the settings is read from a variable of the environment, and the variables of the file are
added to the environment before. They are added under the names that the environment does not have, but
fields are looked up without regard to case, and then the last variable counts. So the environment comes
before the file, unless the file spells a name in another case.
-/

namespace Bookkeeping

namespace Environment

open Settings

theorem lookup_put {β : Type} (name : String) (v : β) (l : List (String × β)) (n : String) :
    (put name v l).lookup n = if n == name then some v else l.lookup n := by
  induction l with
  | nil =>
    rw [put, List.lookup_cons]
    cases n == name <;> rfl
  | cons x l ih =>
    rw [put]
    split
    · rename_i hx
      rw [List.lookup_cons, List.lookup_cons, eq_of_beq hx]
      cases n == name <;> rfl
    · rename_i hx
      rw [List.lookup_cons, List.lookup_cons, ih]
      cases hn : n == x.1 with
      | false => rfl
      | true =>
        rw [← eq_of_beq hn] at hx
        show some x.2 = if (n == name) = true then some v else some x.2
        rw [if_neg hx]

/-- The value of the last variable that has the name in some case. -/
def spelled? (env : Environment) (name : String) : Option String :=
  (env.reverse.find? fun v => sameName v.1 name).map Prod.snd

theorem spelled?_append (env more : Environment) (name : String) :
    (env ++ more : Environment).spelled? name = (more.spelled? name).or (env.spelled? name) := by
  rw [spelled?, List.reverse_append, List.find?_append, Option.map_or]
  rfl

theorem spelled?_eq_none {env : Environment} {name : String} :
    env.spelled? name = none ↔ ∀ v ∈ env, sameName v.1 name = false := by
  simp [spelled?]

theorem exists_of_spelled? {env : Environment} {name t : String} (h : env.spelled? name = some t) :
    ∃ v ∈ env, sameName v.1 name = true ∧ v.2 = t := by
  obtain ⟨v, hfind, ht⟩ := Option.map_eq_some_iff.1 h
  have hname := List.find?_some hfind
  exact ⟨v, List.mem_reverse.1 (List.mem_of_find?_eq_some hfind), hname, ht⟩

theorem spelled?_congr (env : Environment) {name name' : String}
    (h : Text.lower name = Text.lower name') : env.spelled? name = env.spelled? name' := by
  simp only [spelled?, sameName, h]

/-- The fields of a section that the environment has variables for. -/
def fieldsOf (env : Environment) (start : String) (names : List String) : List (String × Value) :=
  names.filterMap fun field => (env.spelled? (start ++ field)).map fun t => (field, .text t)

theorem lookup_fieldsOf (env : Environment) (start field : String) (names : List String) :
    (env.fieldsOf start names).lookup field =
      if field ∈ names then (env.spelled? (start ++ field)).map Value.text else none := by
  induction names with
  | nil => rfl
  | cons n names ih =>
    rw [fieldsOf] at ih ⊢
    by_cases hn : field = n
    · subst hn
      rw [if_pos List.mem_cons_self]
      cases hs : env.spelled? (start ++ field) with
      | none =>
        rw [List.filterMap_cons_none (by rw [hs]; rfl), ih, hs]
        exact ite_self none
      | some t =>
        rw [List.filterMap_cons_some (by rw [hs]; rfl), List.lookup_cons, beq_self_eq_true]
        rfl
    · have hmem : field ∈ n :: names ↔ field ∈ names := by simp [hn]
      simp only [hmem]
      rw [← ih]
      cases hs : env.spelled? (start ++ n) with
      | none => rw [List.filterMap_cons_none (by rw [hs]; rfl)]
      | some t =>
        rw [List.filterMap_cons_some (by rw [hs]; rfl), List.lookup_cons, beq_false_of_ne hn]

end Environment

namespace Settings

open Environment

/-! ## Looking up variables -/

theorem heldUnder_append (defined : List (String × Option String)) (v : String × Option String) :
    heldUnder {} (defined ++ [v])
      = put (Text.lower v.1) (v.2.map Value.text) (heldUnder {} defined) := by
  unfold heldUnder
  simp [List.foldl_append]

/-- Of several variables with one name the last one is held. -/
theorem held?_heldUnder (defined : List (String × Option String)) (name : String) :
    held? (heldUnder {} defined) (Text.lower name)
      = ((defined.reverse.find? fun v => sameName v.1 name).bind Prod.snd).map Value.text := by
  -- from the end, where the variable stands that all others give way to
  induction defined using List.reverseRecOn with
  | nil => rfl
  | append_singleton defined v ih =>
    rw [held?] at ih ⊢
    rw [heldUnder_append, lookup_put, List.reverse_append, List.reverse_singleton,
      List.singleton_append, List.find?_cons, sameName, BEq.comm]
    cases Text.lower v.1 == Text.lower name with
    | false => exact ih
    | true => rfl

theorem held?_env (env : Environment) (name : String) :
    held? (heldUnder {} (env.map fun v => (v.1, some v.2))) (Text.lower name)
      = (env.spelled? name).map Value.text := by
  rw [held?_heldUnder, ← List.map_reverse, List.find?_map, spelled?]
  show (((env.reverse.find? fun v => sameName v.1 name).map _).bind Prod.snd).map _ = _
  cases env.reverse.find? fun v => sameName v.1 name <;> rfl

theorem held?_none {defined : List (String × Option String)} {name : String}
    (h : ∀ v ∈ defined, sameName v.1 name = false) :
    held? (heldUnder {} defined) (Text.lower name) = none := by
  have hfind : (defined.reverse.find? fun v => sameName v.1 name) = none := by
    rw [List.find?_eq_none]
    exact fun v hv => by simp [h v (List.mem_reverse.1 hv)]
  rw [held?_heldUnder, hfind]
  rfl

/-! ## Loading a section from the environment -/

/-- Texts under new keys come at the end. -/
theorem overlay_texts {low fields : List (String × Value)}
    (htext : ∀ v ∈ fields, ∃ t, v.2 = .text t)
    (hn : ((low ++ fields).map Prod.fst).Nodup) : overlay low fields = low ++ fields := by
  induction fields generalizing low with
  | nil => rw [overlay, List.append_nil]
  | cons v fields ih =>
    obtain ⟨k, v⟩ := v
    obtain ⟨t, rfl⟩ := htext (k, v) List.mem_cons_self
    have hnew : k ∉ low.map Prod.fst := fun hk => by
      rw [List.map_append, List.map_cons, List.nodup_append] at hn
      exact hn.2.2 k hk k List.mem_cons_self rfl
    have hassoc : low ++ (k, Value.text t) :: fields = low ++ [(k, .text t)] ++ fields := by
      rw [List.append_assoc, List.singleton_append]
    have hvalue : overlayValue (low.lookup k) (.text t) = .text t := by
      rw [overlayValue]
      exact fun fs => nofun
    rw [overlay, hvalue, Value.setField_new _ hnew, hassoc]
    rw [hassoc] at hn
    exact ih (fun w hw => htext w (List.mem_cons_of_mem _ hw)) hn

theorem keys_fieldsOf (env : Environment) (start : String) (names : List String) :
    ((env.fieldsOf start names).map Prod.fst).Sublist names := by
  induction names with
  | nil => exact .slnil
  | cons n names ih =>
    rw [fieldsOf] at ih ⊢
    cases hs : env.spelled? (start ++ n) with
    | none =>
      rw [List.filterMap_cons_none (by rw [hs]; rfl)]
      exact ih.cons n
    | some t =>
      rw [List.filterMap_cons_some (by rw [hs]; rfl)]
      exact ih.cons_cons n

@[simp] theorem givenFields_nil (exactCase : Bool) (names : List String) :
    givenFields exactCase names [] = [] := by
  cases exactCase with
  | true => rfl
  | false => exact List.append_eq_nil_iff.2 ⟨List.filterMap_eq_nil_iff.2 fun _ _ => rfl, rfl⟩

/-- A section for which nothing is given is read from the variables of the environment. -/
theorem loadSection_env {α : Type} [Section α] (around : Surroundings)
    (hn : (Section.names α).Nodup) : loadSection (α := α) around []
      = .ok (Section.read (around.env.fieldsOf (Section.start α) (Section.names α))) := by
  -- a section reads no file unless one is chosen
  have hfile : fileVariables around [] = [] := by
    unfold fileVariables
    cases around.file <;> rfl
  have houter : fieldsIn {} (Section.start α) (Section.names α)
      (heldUnder {} (around.env.map fun v => (v.1, some v.2)))
        = around.env.fieldsOf (Section.start α) (Section.names α) := by
    unfold fieldsIn fieldsOf
    refine congrArg (List.filterMap · _) (funext fun field => ?_)
    have hname : variableName {} (Section.start α) field = Text.lower (Section.start α ++ field) := rfl
    rw [hname, held?_env, Option.map_map]
    rfl
  have hinner : fieldsIn {} (Section.start α) (Section.names α) (heldUnder {} [])
      ++ strangers {} (Section.start α) (Section.names α) (heldUnder {} []) = [] := by
    have hnone : fieldsIn {} (Section.start α) (Section.names α) [] = [] :=
      List.filterMap_eq_nil_iff.2 fun _ _ => rfl
    exact List.append_eq_nil_iff.2 ⟨hnone, rfl⟩
  have htext : ∀ v ∈ around.env.fieldsOf (Section.start α) (Section.names α), ∃ t, v.2 = .text t := by
    intro v hv
    obtain ⟨n, -, hmap⟩ := List.mem_filterMap.1 hv
    obtain ⟨t, -, rfl⟩ := Option.map_eq_some_iff.1 hmap
    exact ⟨t, rfl⟩
  have hkeys := (keys_fieldsOf around.env (Section.start α) (Section.names α)).nodup hn
  unfold loadSection
  dsimp only [Options.ofGiven, bind, Except.bind, Option.getD]
  rw [hfile, hinner, houter, givenFields_nil, overlay_texts htext hkeys, overlay, List.nil_append]

/-! ## Fields of the settings -/

/-- The fields of the settings, each with the type of what it holds. -/
inductive Key : Type → Type
  | path : Key String
  | timeout : Key Float
  | enforce : Key Bool
  | migrate : Key Bool
  | rounds : Key Nat
  | stage : Key Stage
  | level : Key Log.Level
  | json : Key Bool

namespace Key

variable {α : Type}

/-- The name of the variable of a field. -/
def name : Key α → String
  | path => "DB_PATH"
  | timeout => "DB_CONNECTION_TIMEOUT"
  | enforce => "DB_ENABLE_FOREIGN_KEYS"
  | migrate => "DB_AUTO_MIGRATE"
  | rounds => "SECURITY_BCRYPT_ROUNDS"
  | stage => "APP_ENVIRONMENT"
  | level => "APP_LOG_LEVEL"
  | json => "APP_LOG_JSON"

/-- What the names of the variables of a field's section start with. -/
def start : Key α → String
  | path | timeout | enforce | migrate => "DB_"
  | rounds => "SECURITY_"
  | stage | level | json => "APP_"

/-- The names of the fields of a field's section. -/
def names : Key α → List String
  | path | timeout | enforce | migrate => DatabaseSettings.names
  | rounds => SecuritySettings.names
  | stage | level | json => AppSettings.names

/-- The name of a field in its section. -/
def field : Key α → String
  | path => "path"
  | timeout => "connection_timeout"
  | enforce => "enable_foreign_keys"
  | migrate => "auto_migrate"
  | rounds => "bcrypt_rounds"
  | stage => "environment"
  | level => "log_level"
  | json => "log_json"

theorem field_mem (k : Key α) : k.field ∈ k.names := by cases k <;> decide

/-- A section looks for a field under the name of its variable. -/
theorem lower_name (k : Key α) : Text.lower (k.start ++ k.field) = Text.lower k.name := by
  cases k <;> decide

/-- How a field is read from its variable. -/
def read : Key α → Value → Reading α
  | path => Settings.path
  | timeout => Part.aboveZero
  | enforce => Part.bool
  | migrate => Part.bool
  | rounds => Settings.rounds
  | stage => Settings.stage
  | level => Settings.level
  | json => Part.bool

/-- What a field holds if nothing else is said. -/
def default : Key α → α
  | path => "ledger.db"
  | timeout => 30
  | enforce => true
  | migrate => true
  | rounds => 12
  | stage => .development
  | level => .info
  | json => false

/-- What the settings hold in a field. -/
def get : Key α → Settings → α
  | path, s => s.database.path
  | timeout, s => s.database.timeout
  | enforce, s => s.database.enforce
  | migrate, s => s.database.migrate
  | rounds, s => s.security.rounds
  | stage, s => s.app.stage
  | level, s => s.app.level
  | json, s => s.app.json

/-- Whether a field holds what its variable says: the default if there is no variable, and else what is
read from its text. -/
def Says (k : Key α) (t : Option String) (a : α) : Prop :=
  match t with
  | none => a = k.default
  | some t => k.read (.text t) = .ok a

end Key

theorem withDefault_fieldsOf {α : Type} (k : Key α) {env : Environment} {a : α}
    (ha : k.Says (env.spelled? k.name) a) :
    Part.withDefault (env.fieldsOf k.start k.names) k.field k.read k.default = .ok a := by
  rw [Part.withDefault, lookup_fieldsOf, if_pos k.field_mem, spelled?_congr env k.lower_name]
  cases hs : env.spelled? k.name with
  | none =>
    rw [hs] at ha
    exact congrArg Reading.ok ha.symm
  | some t =>
    rw [hs] at ha
    show (k.read (.text t)).within k.field = _
    rw [show k.read (.text t) = .ok a from ha]
    rfl

theorem nothingElse_fieldsOf (env : Environment) (start : String) (names : List String) :
    nothingElse names (env.fieldsOf start names) = .ok () := by
  have hnone : (env.fieldsOf start names).filter (fun v => !names.contains v.1) = [] := by
    refine List.filter_eq_nil_iff.2 fun v hv => ?_
    have hmem := (keys_fieldsOf env start names).subset (List.mem_map_of_mem hv)
    simpa using hmem
  unfold nothingElse
  rw [hnone]
  rfl

/-! ## Loading the settings -/

/-- Settings that hold what the variables of an environment say. -/
def Follows (env : Environment) (s : Settings) : Prop :=
  ∀ {α : Type} (k : Key α), k.Says (env.spelled? k.name) (k.get s)

/-- Sections that are read from the variables of an environment. -/
theorem read_sections {env : Environment} {s : Settings} (h : Follows env s) :
    Section.read (env.fieldsOf "DB_" DatabaseSettings.names) = .ok s.database ∧
      Section.read (env.fieldsOf "SECURITY_" SecuritySettings.names) = .ok s.security ∧
      Section.read (env.fieldsOf "APP_" AppSettings.names) = .ok s.app := by
  have hfield {α : Type} (k : Key α) := withDefault_fieldsOf k (h k)
  refine ⟨?_, ?_, ?_⟩
  · have hpath := hfield .path
    have htimeout := hfield .timeout
    have henforce := hfield .enforce
    have hmigrate := hfield .migrate
    simp only [Key.start, Key.names, Key.field, Key.read, Key.default, Key.get]
      at hpath htimeout henforce hmigrate
    simp only [Section.read, hpath, htimeout, henforce, hmigrate, nothingElse_fieldsOf]
    rfl
  · have hrounds := hfield .rounds
    simp only [Key.start, Key.names, Key.field, Key.read, Key.default, Key.get] at hrounds
    simp only [Section.read, hrounds, nothingElse_fieldsOf]
    rfl
  · have hstage := hfield .stage
    have hlevel := hfield .level
    have hjson := hfield .json
    simp only [Key.start, Key.names, Key.field, Key.read, Key.default, Key.get]
      at hstage hlevel hjson
    simp only [Section.read, hstage, hlevel, hjson, nothingElse_fieldsOf]
    rfl

/-- What the variables of an environment say can be held if all of their texts can be read. -/
theorem exists_follows (env : Environment) (h : ∀ {α : Type} (k : Key α), ∀ v ∈ env,
    sameName v.1 k.name = true → ∃ a, k.read (.text v.2) = .ok a) : ∃ s, Follows env s := by
  have hsays {α : Type} (k : Key α) : ∃ a, k.Says (env.spelled? k.name) a := by
    cases hs : env.spelled? k.name with
    | none => exact ⟨k.default, rfl⟩
    | some t =>
      obtain ⟨v, hv, hname, rfl⟩ := exists_of_spelled? hs
      exact h k v hv hname
  obtain ⟨path, hpath⟩ := hsays .path
  obtain ⟨timeout, htimeout⟩ := hsays .timeout
  obtain ⟨enforce, henforce⟩ := hsays .enforce
  obtain ⟨migrate, hmigrate⟩ := hsays .migrate
  obtain ⟨rounds, hrounds⟩ := hsays .rounds
  obtain ⟨stage, hstage⟩ := hsays .stage
  obtain ⟨level, hlevel⟩ := hsays .level
  obtain ⟨json, hjson⟩ := hsays .json
  refine ⟨⟨⟨path, timeout, enforce, migrate⟩, ⟨rounds⟩, ⟨stage, level, json⟩⟩, fun k => ?_⟩
  cases k with
  | path => exact hpath
  | timeout => exact htimeout
  | enforce => exact henforce
  | migrate => exact hmigrate
  | rounds => exact hrounds
  | stage => exact hstage
  | level => exact hlevel
  | json => exact hjson

/-! ## The environment and the file -/

/-- The bindings of the file, if there is one. -/
def Surroundings.bindings (around : Surroundings) : List Binding :=
  (around.file.map Settings.bindings).getD []

/-- The variables that the file gives a value, with their references resolved. -/
def Surroundings.defined (around : Surroundings) : Environment :=
  (resolve false around.env around.bindings).filterMap fun v => v.2.map fun t => (v.1, t)

/-- Those of them that the environment has under no such name. -/
def Surroundings.added (around : Surroundings) : Environment :=
  around.defined.filter fun v => (around.env.value? v.1).isNone

/-- The names of the sections. -/
def sectionNames : List String := ["database", "security", "app"]

/-- A name that is not just that of a field: a section as a whole in any case, or the switch that turns
the file off. -/
def Reserved (name : String) : Prop :=
  name = switch ∨ ∃ field ∈ sectionNames, sameName name field = true

instance : DecidablePred Reserved := fun _ => inferInstanceAs (Decidable (_ ∨ _))

/-- A name that starts like those of the variables of a section, in any case. -/
def Prefixed (name : String) : Prop :=
  ∃ start ∈ ["DB_", "SECURITY_", "APP_"], (Text.lower start).toList <+: (Text.lower name).toList

instance : DecidablePred Prefixed := fun _ => inferInstanceAs (Decidable (∃ _ ∈ _, _))

theorem Prefixed.not_reserved {name : String} (h : Prefixed name) : ¬ Reserved name := by
  have hsections : ∀ field ∈ sectionNames, ∀ start ∈ ["DB_", "SECURITY_", "APP_"],
      ¬ (Text.lower start).toList <+: (Text.lower field).toList := by
    decide
  rintro (rfl | ⟨field, hfield, hsame⟩)
  · exact absurd h (by decide)
  · obtain ⟨start, hstart, hprefix⟩ := h
    rw [eq_of_beq hsame] at hprefix
    exact hsections field hfield start hstart hprefix

/-- Surroundings in which settings are given field by field, with texts that can be read. -/
structure Surroundings.Plain (around : Surroundings) : Prop where
  env_names : ∀ v ∈ around.env, ¬ Reserved v.1
  file_names : ∀ b ∈ around.bindings, ¬ Reserved b.name
  /-- The variables of the file are such as a process can have. -/
  possible : ∀ v ∈ around.defined, checkVariable v.1 v.2 = .ok ()
  /-- The text of a variable that names a field, in any case, can be read. -/
  readable : ∀ {α : Type} (k : Key α), ∀ v ∈ around.env ++ around.defined,
    sameName v.1 k.name = true → ∃ a, k.read (.text v.2) = .ok a

theorem mem_put {β : Type} {name : String} {v : β} {l : List (String × β)} {x : String × β}
    (h : x ∈ put name v l) : x.1 = name ∨ ∃ y ∈ l, y.1 = x.1 := by
  induction l with
  | nil =>
    cases List.mem_singleton.1 h
    exact .inl rfl
  | cons y l ih =>
    rw [put] at h
    split at h
    · obtain rfl | h := List.mem_cons.1 h
      · exact .inr ⟨y, List.mem_cons_self, rfl⟩
      · exact .inr ⟨x, List.mem_cons_of_mem y h, rfl⟩
    · obtain rfl | h := List.mem_cons.1 h
      · exact .inr ⟨_, List.mem_cons_self, rfl⟩
      · obtain hname | ⟨z, hz, hname⟩ := ih h
        · exact .inl hname
        · exact .inr ⟨z, List.mem_cons_of_mem y hz, hname⟩

/-- What a file defines has a name that stands in it. -/
theorem exists_binding {fileFirst : Bool} {env : Environment} {bs : List Binding}
    {v : String × Option String} (h : v ∈ resolve fileFirst env bs) : ∃ b ∈ bs, b.name = v.1 := by
  induction bs using List.reverseRecOn generalizing v with
  | nil => cases h
  | append_singleton bs b ih =>
    rw [resolve, List.foldl_append] at h
    obtain hname | ⟨w, hw, hname⟩ := mem_put h
    · exact ⟨b, by simp, hname.symm⟩
    · obtain ⟨c, hc, hcw⟩ := ih hw
      exact ⟨c, List.mem_append_left _ hc, hcw.trans hname⟩

theorem exists_binding_of_fileVariables {around : Surroundings} {env : Environment}
    {files : List String} {v : String × Option String}
    (h : v ∈ fileVariables { around with env } files) : ∃ b ∈ around.bindings, b.name = v.1 := by
  unfold fileVariables at h
  unfold Surroundings.bindings
  cases hfile : around.file with
  | none =>
    rw [hfile] at h
    cases h
  | some text =>
    rw [hfile] at h
    dsimp only at h
    split at h
    · exact exists_binding h
    · cases h

namespace Surroundings

variable {around : Surroundings}

theorem extend_eq (around : Surroundings) :
    around.env.extend (resolve false around.env around.bindings) = around.env ++ around.added := by
  rw [extend, added, defined, List.filter_filterMap]
  refine congrArg (around.env ++ List.filterMap · _) (funext fun v => ?_)
  obtain ⟨name, value⟩ := v
  cases value with
  | none => exact ite_self none
  | some t =>
    show (if (around.env.value? name).isSome = true then none else some (name, t))
      = if (around.env.value? name).isNone = true then some (name, t) else none
    cases around.env.value? name <;> rfl

theorem Plain.isKeptOut (h : around.Plain) : isKeptOut around.env = false := by
  have hnone : around.env.value? switch = none := List.lookup_eq_none_iff.2 fun v hv => by
    have hne : v.1 ≠ switch := fun heq => h.env_names v hv (.inl heq)
    simpa using hne.symm
  rw [Settings.isKeptOut, hnone]
  rfl

/-- Variables that a process can have pass the check, one after the other. -/
theorem check_variables {env : Environment} (h : ∀ v ∈ env, checkVariable v.1 v.2 = .ok ()) :
    (forIn env PUnit.unit fun v _ => do
      checkVariable v.1 v.2
      pure (ForInStep.yield PUnit.unit) : Except Failure PUnit) = .ok PUnit.unit := by
  induction env with
  | nil => rfl
  | cons v env ih =>
    rw [List.forIn_cons, h v List.mem_cons_self]
    exact ih fun w hw => h w (List.mem_cons_of_mem v hw)

/-- The environment, with what the file adds after it. -/
theorem Plain.extended (h : around.Plain) : around.extended = .ok (around.env ++ around.added) := by
  have hextend := extend_eq around
  have hpossible : ∀ v ∈ around.added, checkVariable v.1 v.2 = .ok () := fun v hv =>
    h.possible v (List.mem_filter.1 hv).1
  unfold Surroundings.extended
  cases hfile : around.file with
  | none =>
    have hnone : around.added = [] := by
      rw [added, defined, bindings, hfile]
      rfl
    rw [hnone, List.append_nil]
  | some text =>
    rw [bindings, hfile] at hextend
    dsimp only [Option.map, Option.getD] at hextend ⊢
    rw [h.isKeptOut, if_neg Bool.false_ne_true, hextend, List.drop_left]
    exact congrArg (· >>= fun _ => pure (around.env ++ around.added)) (check_variables hpossible)

end Surroundings

/-! ## Loading the settings -/

theorem nothing_found {source : Source} {field : String} (names : List String)
    (h : held? source.variables_ (Text.lower field) = none) :
    source.section? {} "" field names = .ok none := by
  have hname : variableName {} "" field = Text.lower field := by
    rw [variableName, String.empty_append]
    rfl
  have hnamed : source.named {} "" field = [] := rfl
  unfold Source.section?
  rw [hname, h, hnamed]
  rfl

/-- A source without variables named like the sections has none of them. -/
theorem sections_nil {source : Source}
    (h : ∀ field ∈ sectionNames, held? source.variables_ (Text.lower field) = none) :
    source.sections {} = .ok [] := by
  unfold Source.sections
  dsimp only [Option.getD]
  rw [nothing_found _ (h "database" (by decide)), nothing_found _ (h "security" (by decide)),
    nothing_found _ (h "app" (by decide))]
  rfl

/-- A section that was found nowhere is what the variables of the environment say. -/
theorem sectionOf_env {α : Type} [Section α] {around : Surroundings} {a : α} (field : String)
    (hn : (Section.names α).Nodup)
    (h : Section.read (around.env.fieldsOf (Section.start α) (Section.names α)) = .ok a) :
    sectionOf α around [] field = .ok (.ok a) := by
  unfold sectionOf
  rw [loadSection_env around hn]
  show ((Section.read _ : Reading α).orFail (Section.title α)).map Reading.ok = _
  rw [h]
  rfl

namespace Surroundings.Plain

variable {around : Surroundings} (h : around.Plain)

include h

theorem not_reserved {v : String × String} (hv : v ∈ around.env ++ around.added) :
    ¬ Reserved v.1 := by
  obtain hv | hv := List.mem_append.1 hv
  · exact h.env_names v hv
  · obtain ⟨w, hw, hmap⟩ := List.mem_filterMap.1 (List.mem_filter.1 hv).1
    obtain ⟨t, -, rfl⟩ := Option.map_eq_some_iff.1 hmap
    obtain ⟨b, hb, hname⟩ := exists_binding hw
    exact hname ▸ h.file_names b hb

/-- No section stands as a whole in the environment, nor does one in the file. -/
theorem sections_env : Source.sections ⟨"EnvSettingsSource",
    heldUnder {} ((around.env ++ around.added).map fun v => (v.1, some v.2))⟩ {} = .ok [] := by
  refine sections_nil fun field hfield => ?_
  have hnone : (around.env ++ around.added : Environment).spelled? field = none :=
    spelled?_eq_none.2 fun v hv => by
      rw [← Bool.not_eq_true]
      exact fun hname => h.not_reserved hv (.inr ⟨field, hfield, hname⟩)
  exact (held?_env _ field).trans (congrArg _ hnone)

theorem sections_file : Source.sections ⟨"DotEnvSettingsSource",
    heldUnder {} (fileVariables { around with env := around.env ++ around.added } [fileName])⟩ {}
      = .ok [] := by
  refine sections_nil fun field hfield => held?_none fun v hv => ?_
  obtain ⟨b, hb, hname⟩ := exists_binding_of_fileVariables hv
  rw [← Bool.not_eq_true]
  exact fun hsame => h.file_names b hb (.inr ⟨field, hfield, hname ▸ hsame⟩)

/-- Where no variable holds a section as a whole, settings hold what the variables of the environment
say, with those of the file after them. -/
theorem load_follows : ∃ s, load around [] = .ok s ∧ Follows (around.env ++ around.added) s := by
  obtain ⟨s, hs⟩ := exists_follows (around.env ++ around.added) fun k v hv hname => by
    refine h.readable k v ?_ hname
    obtain hv | hv := List.mem_append.1 hv
    · exact List.mem_append_left _ hv
    · exact List.mem_append_right _ (List.mem_filter.1 hv).1
  obtain ⟨hdatabase, hsecurity, happ⟩ := read_sections hs
  refine ⟨s, ?_, hs⟩
  unfold load
  rw [h.extended]
  dsimp only [bind, Except.bind, Options.ofGiven, List.lookup, Option.getD]
  rw [h.sections_env, h.sections_file]
  dsimp only
  rw [givenFields_nil, overlay, overlay, sectionOf_env "database" (by decide) hdatabase,
    sectionOf_env "security" (by decide) hsecurity, sectionOf_env "app" (by decide) happ]
  rfl

end Surroundings.Plain

/-! ## The environment before the file -/

/-- The file overrules the environment in a variable: the environment has it, but not under the name
that it has in the file, which differs in case. -/
def Surroundings.Overrules (around : Surroundings) (name : String) : Prop :=
  (∃ v ∈ around.env, sameName v.1 name = true) ∧
    ∃ v ∈ around.defined, sameName v.1 name = true ∧ around.env.value? v.1 = none

theorem spelled?_filter {p : String × String → Bool} {env : Environment} {name : String}
    (h : ∀ v ∈ env, sameName v.1 name = true → p v = true) :
    Environment.spelled? (env.filter p) name = env.spelled? name := by
  induction env using List.reverseRecOn with
  | nil => rfl
  | append_singleton env v ih =>
    rw [List.filter_append, spelled?_append, spelled?_append,
      ih fun w hw => h w (List.mem_append_left _ hw)]
    refine congrArg (Option.or · _) ?_
    cases hp : p v with
    | true =>
      rw [List.filter_cons_of_pos hp]
      rfl
    | false =>
      have hother : sameName v.1 name = false := by
        rw [← Bool.not_eq_true]
        exact fun hname => absurd (h v (by simp) hname) (by simp [hp])
      rw [List.filter_cons_of_neg (by simp [hp])]
      exact (spelled?_eq_none.2 fun w hw => List.mem_singleton.1 hw ▸ hother).symm

/-- What the file adds of a variable that it does not overrule counts if the environment has none. -/
theorem added_or {around : Surroundings} {name : String} (h : ¬ around.Overrules name) :
    (around.added.spelled? name).or (around.env.spelled? name)
      = (around.env.spelled? name).or (around.defined.spelled? name) := by
  cases henv : around.env.spelled? name with
  | none =>
    have hfree : ∀ v ∈ around.defined, sameName v.1 name = true →
        (around.env.value? v.1).isNone = true := fun v _ hname => by
      refine Option.isNone_iff_eq_none.2 (List.lookup_eq_none_iff.2 fun w hw => ?_)
      refine bne_iff_ne.2 fun heq => ?_
      rw [heq, spelled?_eq_none.1 henv w hw] at hname
      cases hname
    rw [Surroundings.added, spelled?_filter hfree, Option.or_none, Option.none_or]
  | some t =>
    obtain ⟨v, hv, hname, -⟩ := exists_of_spelled? henv
    have hnone : around.added.spelled? name = none := spelled?_eq_none.2 fun w hw => by
      obtain ⟨hdefined, hnew⟩ := List.mem_filter.1 hw
      rw [← Bool.not_eq_true]
      exact fun hw' => h ⟨⟨v, hv, hname⟩, w, hdefined, hw', Option.isNone_iff_eq_none.1 hnew⟩
    rw [hnone, Option.none_or, Option.some_or]

/-- Settings can be loaded, and each field holds what its variable in the environment says, whatever
the case of its name, and if there is none what the variable in the file says, and else its default.
Only where the file has a variable of the environment under a name in another case the file counts. -/
theorem env_before_file {around : Surroundings} (h : around.Plain) :
    ∃ s, load around [] = .ok s ∧ ∀ {α : Type} (k : Key α),
      (¬ around.Overrules k.name → k.Says
        ((around.env.spelled? k.name).or (around.defined.spelled? k.name)) (k.get s)) ∧
      (around.Overrules k.name → k.Says (around.added.spelled? k.name) (k.get s)) := by
  obtain ⟨s, hload, hs⟩ := h.load_follows
  refine ⟨s, hload, fun k => ?_⟩
  have hk := hs k
  rw [spelled?_append] at hk
  refine ⟨fun hk' => added_or hk' ▸ hk, fun ⟨_, v, hv, hname, hnew⟩ => ?_⟩
  have hadded : v ∈ around.added := List.mem_filter.2 ⟨hv, by rw [hnew]; rfl⟩
  cases hsome : around.added.spelled? k.name with
  | none =>
    rw [spelled?_eq_none.1 hsome v hadded] at hname
    cases hname
  | some t =>
    rw [hsome] at hk
    exact hk

/-- A process that has a path for its database, and a file with another path under some name and a
stage. -/
def twoPaths (name : String) : Surroundings :=
  ⟨[("db_path", "env.db")], some (name ++ "=file.db\nAPP_ENVIRONMENT=staging\n")⟩

section

variable {name : String} (h : name = "db_path" ∨ name = "DB_PATH")

include h

theorem bindings_twoPaths :
    (twoPaths name).bindings = [⟨name, some "file.db"⟩, ⟨"APP_ENVIRONMENT", some "staging"⟩] := by
  obtain rfl | rfl := h <;> decide +kernel

theorem defined_twoPaths :
    (twoPaths name).defined = [(name, "file.db"), ("APP_ENVIRONMENT", "staging")] := by
  rw [Surroundings.defined, bindings_twoPaths h]
  obtain rfl | rfl := h <;> decide +kernel

theorem plain_twoPaths : (twoPaths name).Plain where
  env_names v hv := by
    obtain rfl := List.mem_singleton.1 hv
    exact Prefixed.not_reserved (by decide)
  file_names b hb := by
    have hprefixed : ∀ b ∈ (twoPaths name).bindings, Prefixed b.name := by
      rw [bindings_twoPaths h]
      obtain rfl | rfl := h <;> decide
    exact (hprefixed b hb).not_reserved
  possible := by
    rw [defined_twoPaths h]
    obtain rfl | rfl := h <;> simp [checkVariable]
  readable k v hv hname := by
    have hpath : Text.lower name = "db_path" := by obtain rfl | rfl := h <;> decide
    have hv : (Text.lower v.1 = "db_path" ∧ (v.2 = "env.db" ∨ v.2 = "file.db")) ∨
        (Text.lower v.1 = "app_environment" ∧ v.2 = "staging") := by
      rw [defined_twoPaths h] at hv
      simp only [twoPaths, List.cons_append, List.nil_append, List.mem_cons, List.not_mem_nil,
        or_false] at hv
      obtain rfl | rfl | rfl := hv
      · exact .inl ⟨by decide, .inl rfl⟩
      · exact .inl ⟨hpath, .inr rfl⟩
      · exact .inr ⟨by decide, rfl⟩
    obtain ⟨hlower, ht⟩ | ⟨hlower, ht⟩ := hv
    · rw [sameName, hlower] at hname
      cases k with
      | path =>
        obtain ht | ht := ht
        · exact ht ▸ ⟨"env.db", rfl⟩
        · exact ht ▸ ⟨"file.db", rfl⟩
      | _ => exact absurd hname (by decide)
    · rw [sameName, hlower] at hname
      cases k with
      | stage => exact ht ▸ ⟨.staging, rfl⟩
      | _ => exact absurd hname (by decide)

end

/-- Where the file gives the path under the name that it has in the environment, it does not count; the
stage, which the environment does not have, does. -/
theorem path_of_env : (twoPaths "db_path").Plain ∧ ∃ s, load (twoPaths "db_path") [] = .ok s ∧
    s.database.path = "env.db" ∧ s.app.stage = .staging ∧ s.security.rounds = 12 := by
  have hplain := plain_twoPaths (.inl rfl)
  obtain ⟨s, hload, hs⟩ := env_before_file hplain
  have hkept (field : String) : ¬ (twoPaths "db_path").Overrules field := by
    rintro ⟨⟨v, hv, hvname⟩, w, hw, hwname, hnew⟩
    rw [defined_twoPaths (.inl rfl)] at hw
    obtain rfl := List.mem_singleton.1 hv
    -- the path stands in both under one name, and the stage is no path
    obtain rfl | hw := List.mem_cons.1 hw
    · exact absurd hnew (by decide)
    · obtain rfl := List.mem_singleton.1 hw
      exact absurd ((eq_of_beq hvname).trans (eq_of_beq hwname).symm) (by decide)
  have hpath := (hs .path).1 (hkept _)
  have hstage := (hs .stage).1 (hkept _)
  have hrounds := (hs .rounds).1 (hkept _)
  rw [defined_twoPaths (.inl rfl)] at hpath hstage hrounds
  exact ⟨hplain, s, hload, (Reading.ok_inj.1 hpath).symm, (Reading.ok_inj.1 hstage).symm, hrounds⟩

/-- Where it gives the path under a name in another case, it counts, although the environment has one. -/
theorem path_of_file : (twoPaths "DB_PATH").Plain ∧
    (twoPaths "DB_PATH").env.spelled? "DB_PATH" = some "env.db" ∧
    ∃ s, load (twoPaths "DB_PATH") [] = .ok s ∧ s.database.path = "file.db" := by
  have hplain := plain_twoPaths (.inr rfl)
  obtain ⟨s, hload, hs⟩ := hplain.load_follows
  have hpath := hs .path
  rw [Surroundings.added, defined_twoPaths (.inr rfl)] at hpath
  exact ⟨hplain, by decide, s, hload, (Reading.ok_inj.1 hpath).symm⟩

end Settings

end Bookkeeping
