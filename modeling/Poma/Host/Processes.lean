import Poma.Host.Commands

/-!
# The processes of the host

The state file is durable and a write of it is whole or has no effect. The rest
is answered by the environment, and every process may be killed between any two
of its operations. The runtime lock lets one process run at a time.
-/

namespace Poma

open Interaction

/-- One free decision: the clock, and an answer to whatever is asked. -/
structure CommandOracle where
  clock : String
  answer : (o : CommandOp) → Except Exn o.Ans

/-- The system in which the state file is durable and the environment does the rest. -/
def commandWorld : System commandSig SessionState where
  Choice := CommandOracle
  act c s o := match o with
    | .readState =>
      match c.answer .readState with
      | .ok _ => (.ok s, s)
      | .error e => (.error e, s)
    | .writeState payload =>
      match c.answer (.writeState payload) with
      | .ok _ => (.ok (), payload)
      | .error e => (.error e, s)
    | .utcNow => (.ok c.clock, s)
    | .utcRunId => (.ok c.clock, s)
    | o => (c.answer o, s)

/-- The commands that use the state file. -/
inductive HostCommand where
  | monitor (forceDryRun : Bool)
  | reconcileOrders (tradingMode : TradingMode) (verifyRecovery : Bool)

/-- What a command runs. -/
def HostCommand.program : HostCommand → C Unit
  | .monitor forceDryRun => Poma.monitor forceDryRun
  | .reconcileOrders tradingMode verifyRecovery => Poma.reconcileOrders tradingMode verifyRecovery

/-- One process of the host, and everything its environment decides. -/
structure HostStep where
  command : HostCommand
  choices : List CommandOracle

namespace HostStep

/-- The process on a state file. -/
def run (step : HostStep) (payload : SessionState) : Run commandSig SessionState Unit :=
  commandWorld.run step.command.program step.choices payload

/-- The state file the process leaves. -/
def after (step : HostStep) (payload : SessionState) : SessionState := (step.run payload).state

/-- What processes do one after the other. -/
def traces : SessionState → List HostStep → List (Event commandSig)
  | _, [] => []
  | payload, step :: steps => (step.run payload).trace ++ traces (step.after payload) steps

end HostStep

/-- The calendar gives no session but this one. -/
def CommandOracle.InSession (sessionDate : String) (c : CommandOracle) : Prop :=
  ∀ decision : MarketDecision, c.answer .shouldRebalanceNow = .ok decision →
    decision.sessionDate = none ∨ decision.sessionDate = some sessionDate

/-- The state file can be read and written. -/
def CommandOracle.StateWorks (c : CommandOracle) : Prop :=
  (∃ payload, c.answer .readState = .ok payload) ∧
    ∀ payload, c.answer (.writeState payload) = .ok ()

end Poma
