import Conformance.Run.Schedule

/-!
The orchestrator: the groups of checks, the catalog that documents them, and the results recorded
so far. Groups are looked up by name and created when they are not there yet.
-/
namespace Conformance

structure Orchestrator (κ : Type) where
  engine : Engine κ
  catalog : Catalog
  results : Results

/-- Why a run gives no report, or no number of failed checks. -/
inductive RunError where
  | missingEntry (missing : Catalog.MissingEntry)
  | failed (cause : RunFailure)
  | panicked (panic : Panic)

def RunError.message : RunError → String
  | missingEntry missing => missing.message
  | failed cause => cause.message
  | panicked panic => panic.message

namespace Orchestrator

variable {κ : Type}

def new (catalog : Catalog) (clock : Nat) : Orchestrator κ := ⟨.start clock, catalog, .empty⟩

def groups (o : Orchestrator κ) : List (Group κ) := o.engine.groups

def findGroup? (o : Orchestrator κ) (name : String) : Option Nat :=
  o.groups.findIdx? (·.name == name)

/-- The place of the group of that name, and the orchestrator with this group in it. -/
def group (o : Orchestrator κ) (name : String) : Nat × Orchestrator κ :=
  match o.findGroup? name with
  | some g => (g, o)
  | none =>
    (o.groups.length, { o with engine := { o.engine with groups := o.groups ++ [.fresh name] } })

/-- Hooks that are given take the place of those there. -/
def setHooks (o : Orchestrator κ) (g : Nat) (hooks : Hooks κ) : Orchestrator κ :=
  { o with engine := o.engine.modifyGroup g fun group => { group with hooks :=
    { beforeAll := hooks.beforeAll <|> group.hooks.beforeAll
      afterAll := hooks.afterAll <|> group.hooks.afterAll
      beforeEach := hooks.beforeEach <|> group.hooks.beforeEach
      afterEach := hooks.afterEach <|> group.hooks.afterEach } } }

/-- Does what a callback may ask for, outside of any callback. -/
def perform {α : Type} (o : Orchestrator κ) (p : Callback κ α) : Except Panic α × Orchestrator κ :=
  let (result, engine) := p.exec Request.apply o.engine
  (result, { o with engine := engine })

def register (o : Orchestrator κ) (g : Nat) (check : Check κ) : Orchestrator κ :=
  (o.perform (Callback.ask (.register g check))).2

def addCatalog (o : Orchestrator κ) (catalog : Catalog) : Orchestrator κ :=
  { o with catalog := o.catalog.merge catalog }

/-- The registered checks that a filter selects. -/
def selectedIds (o : Orchestrator κ) (filter : Label.Filter) : List String :=
  o.groups.flatMap fun g =>
    (g.checks.filter fun c => filter.selects c.check.labels).map (·.check.id)

/-- Counts of the states that the checks are in now. -/
def summaries (o : Orchestrator κ) : List GroupReport :=
  o.groups.map fun g =>
    ⟨g.name, g.checks.map (·.check.id), .ofStates (g.checks.map (·.status.state))⟩

/-- The log of every check that is failed now. -/
def failedLogs (o : Orchestrator κ) : List (String × String) :=
  o.groups.flatMap fun g =>
    (g.checks.filter (·.status.state == .failed)).map fun c =>
      (c.check.id, logText c.check.id c.log)

/-- Runs all groups. The workers that are still waiting when the run returns are handed back. -/
def start (o : Orchestrator κ) (b : Behaviour κ) (filter : Label.Filter) (limit : Option Nat) :
    Except RunError RunReport × List (Worker κ Unit) × Orchestrator κ :=
  match Schedule.drive (Run.run b filter limit o.catalog o.results) [] o.engine with
  | (.ok (results, .ok report), workers, engine) =>
    (.ok report, workers, { o with engine := engine, results := results })
  | (.ok (results, .error missing), workers, engine) =>
    (.error (.missingEntry missing), workers, { o with engine := engine, results := results })
  | (.error panic, workers, engine) =>
    (.error (.panicked panic), workers, { o with engine := engine })

/-- Lets waiting workers go on to their end. -/
def release (o : Orchestrator κ) (workers : List (Worker κ Unit)) : Orchestrator κ :=
  { o with engine := Schedule.finish workers o.engine }

def run (o : Orchestrator κ) (b : Behaviour κ) (filter : Label.Filter) (limit : Option Nat) :
    Except RunError RunReport × Orchestrator κ :=
  let (report, workers, o) := o.start b filter limit
  (report, o.release workers)

/-- The number of failed checks of a run's outcome. -/
def countFailed (report : Except RunError RunReport) : Except RunError UInt64 := do
  (← report).result.mapError RunError.failed

end Orchestrator

end Conformance
