/-! # Environments

An environment holds variables in the order in which they were set. Names that differ in case are
different variables.
-/

namespace Bookkeeping

/-- The variables of a process with their values. -/
abbrev Environment : Type := List (String × String)

namespace Environment

/-- The value of the variable of exactly that name. -/
def value? (env : Environment) (name : String) : Option String := env.lookup name

/-- An environment with the variables of a file whose names are not taken. A variable without a
value is not set. -/
def extend (env : Environment) (defined : List (String × Option String)) : Environment :=
  env ++ defined.filterMap fun (name, value) =>
    if (env.value? name).isSome then none else value.map fun v => (name, v)

/-- A value put under a name: in the place of the old one, or at the end. -/
def put {β : Type} (name : String) (value : β) : List (String × β) → List (String × β)
  | [] => [(name, value)]
  | (k, v) :: rest => if k == name then (k, value) :: rest else (k, v) :: put name value rest

end Environment

end Bookkeeping
