import Poma.Broker.World
import Poma.Engine.Rebalance

/-!
# The journal of planned orders

Every attempt of a run saves its plan in the one file of the run, in place and
before anything of it is decided. The assessment of a run reads the file back.
-/

namespace Poma

open Interaction

/-- The part of a saved plan that is read back. -/
structure SavedPlan where
  runId : String
  sessionDate : String
  targets : List TargetPosition
  portfolioValueUsd : Reported
  /-- `broker_account_snapshot["total_value_usd"]`. -/
  brokerTotalValueUsd : Reported
  deriving DecidableEq

/-- The payload of `record_planned`. -/
def RebalancePlan.saved (plan : RebalancePlan) : SavedPlan where
  runId := plan.runId
  sessionDate := plan.sessionDate
  targets := plan.targets
  portfolioValueUsd := plan.portfolioValueUsd
  brokerTotalValueUsd := plan.brokerTotalValueUsd

/-- The file of a run: not written yet, cut off in a write, or whole. -/
inductive PlanFile where
  | absent
  | torn
  | saved (plan : SavedPlan)
  deriving DecidableEq

/-- `json.loads(planned_path.read_text())`: a proper prefix of a JSON object is none. -/
def PlanFile.read : PlanFile → Except Exn SavedPlan
  | .absent => .error (.other "FileNotFoundError")
  | .torn => .error (.valueError "JSONDecodeError")
  | .saved plan => .ok plan

/-- What `assess_saved_run` hands to `assess_rebalance` from the file and the ledger. -/
structure SavedAssessment where
  targets : List TargetPosition
  plannedValueUsd : Reported
  originalBrokerValueUsd : Reported
  orderEntries : List OrderLedgerEntry
  deriving DecidableEq

/-- The assessment of a plan, over the orders of its run. -/
def SavedPlan.assessment (plan : SavedPlan) (entries : List OrderLedgerEntry) :
    SavedAssessment where
  targets := plan.targets
  plannedValueUsd := plan.portfolioValueUsd
  originalBrokerValueUsd := plan.brokerTotalValueUsd
  orderEntries := entries.filter (·.runId = plan.runId)

/-- `assess_saved_run`, up to its call of `assess_rebalance`. -/
def assessSavedRun (file : PlanFile) (entries : List OrderLedgerEntry) :
    Except Exn SavedAssessment :=
  file.read.map (·.assessment entries)

/-- What becomes of a write in place. -/
inductive PlanWrite where
  | whole
  /-- The file cannot be opened. -/
  | failed (e : Exn)
  /-- The write ends early, with an exception or with the process. -/
  | torn (e : Exn)
  deriving DecidableEq

/-- The plan files, by the runs they are of. -/
abbrev Journal : Type := String → PlanFile

/-- `record_planned`. -/
def Journal.recordPlanned (journal : Journal) (plan : RebalancePlan) :
    PlanWrite → Except Exn Unit × Journal
  | .whole => (.ok (), Function.update journal plan.runId (.saved plan.saved))
  | .failed e => (.error e, journal)
  | .torn e => (.error e, Function.update journal plan.runId .torn)

/-- One free decision: an answer to whatever is asked, and what becomes of a write. -/
structure JournalOracle where
  oracle : Oracle
  write : PlanWrite

/-- The environment that keeps the journal, and answers everything else freely. -/
def journalEnvironment : Environment Journal where
  Choice := JournalOracle
  clock c _ := c.oracle.clock
  answer c journal o := match o with
    | .host (.recordPlanned plan) => journal.recordPlanned plan c.write
    | o => (c.oracle.answer o, journal)

/-- The commands that read or write a plan or an order. -/
inductive EngineCommand where
  | rebalance (sessionDate runId : String) (allowOutsideMarketHours : Bool)
  | reconcile

/-- One process that runs such a command, and may be killed in it. -/
structure EngineStep where
  settings : Settings
  isIbkr : Bool
  hasReplacement : Bool
  hasHistory : Bool
  /-- Whether the process is a new one, which reads the ledger from its files. -/
  newProcess : Bool := true
  command : EngineCommand
  choices : List JournalOracle

namespace EngineStep

/-- The engine of the process. -/
def engine (step : EngineStep) : RebalanceEngine where
  broker := protocolBroker step.isIbkr step.hasReplacement step.hasHistory
  settings := step.settings

/-- What the process runs. -/
def program (step : EngineStep) : M Unit :=
  match step.command with
  | .rebalance sessionDate runId allow =>
    (step.engine.runRebalance sessionDate runId allow).bind fun _ => .ret ()
  | .reconcile => step.engine.manager.reconcile.bind fun _ => .ret ()

/-- The process on a ledger and a journal. -/
def run (step : EngineStep) (s : World Journal) : Run sig (World Journal) Unit :=
  journalEnvironment.system.run step.program step.choices (s.atStart step.newProcess)

end EngineStep

end Poma
