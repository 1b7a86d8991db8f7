import Bookkeeping.Value

/-! # Log events

An event has a level, the name of the logger it was sent through, a text and named fields. What the
ledger does is logged under the names of its parts.
-/

namespace Bookkeeping.Log

/-- The weight of an event. -/
inductive Level where
  | debug
  | info
  | warning
  | error
  | critical
  deriving DecidableEq, Repr

namespace Level

def all : List Level := [debug, info, warning, error, critical]

/-- The name of a level, as it is written. -/
def text : Level → String
  | debug => "debug"
  | info => "info"
  | warning => "warning"
  | error => "error"
  | critical => "critical"

/-- The names under which a level can be asked for, with the level each stands for. -/
def requests : List (String × Level) :=
  all.map (fun l => (l.text, l)) ++ [("warn", warning), ("fatal", critical), ("exception", error)]

/-- The level that is asked for by a name. -/
def ofRequest? (name : String) : Option Level := requests.lookup name

/-- The weight of a level as a number; thresholds are compared with it. -/
def weight : Level → Nat
  | debug => 10
  | info => 20
  | warning => 30
  | error => 40
  | critical => 50

end Level

/-- A logged event. -/
structure Event where
  level : Level
  logger : String
  event : String
  fields : List (String × Value) := []

/-- The parts of the ledger that log. -/
inductive Part where
  | store
  | operations
  | users
  | currencies
  | categories
  | sources
  | entries
  | migrations
  | opening
  deriving DecidableEq, Repr

/-- The logger of a part. -/
def Part.logger : Part → String
  | store => "moneyledger.repositories.base"
  | operations => "moneyledger.services.base"
  | users => "moneyledger.services.user_service"
  | currencies => "moneyledger.services.currency_service"
  | categories => "moneyledger.services.category_service"
  | sources => "moneyledger.services.source_service"
  | entries => "moneyledger.services.entry_service"
  | migrations => "moneyledger.migrations.migrate"
  | opening => "moneyledger.container"

end Bookkeeping.Log
