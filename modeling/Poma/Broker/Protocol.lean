import Poma.Interaction.Execution
import Poma.Models.OrderStore
import Poma.Models.Settings

/-!
# Operations of the order code

Everything the modelled code does to the outside is one operation: reading and
recording the durable ledger, the clock, the caller's status callback, a broker
method, a request to the broker's client library, and the host's own steps
around a rebalance. A broker is a record of programs over these operations; the
protocol broker answers each method by the environment alone.
-/

namespace Poma

open Interaction

/-- An order as the client library reports it at one moment. -/
structure IbTrade where
  orderRef : String
  account : String
  orderId : Option Int
  permId : Option Int
  symbol : String
  action : String
  totalQuantity : ℚ
  status : String
  filled : ℚ
  remaining : ℚ
  avgFillPrice : Option ℚ
  /-- The shares of the executions attached to the trade. -/
  filledByExecutions : ℚ := 0
  /-- Their weighted average price, when any has shares and a price. -/
  executionPrice : Option ℚ := none
  logMessage : Option String := none
  deriving DecidableEq

/-- One execution reported by the broker. -/
structure IbFill where
  permId : Option Int
  execId : String
  symbol : String
  side : String
  account : String
  shares : ℚ
  price : ℚ
  deriving DecidableEq

/-- An order as it is handed to the client library. -/
structure IbOrder where
  symbol : String
  action : String
  totalQuantity : ℚ
  limitPrice : Option ℚ
  tif : String
  orderRef : String
  account : String
  deriving DecidableEq

/-- The arguments of `replace_order`. -/
structure ReplaceRequest where
  orderId : Int
  ticker : String
  side : OrderSide
  quantity : ℚ
  newLimitPrice : ℚ
  orderRef : String
  deriving DecidableEq

/-- The arguments of `submit_replacement`. -/
structure ReplacementRequest where
  ticker : String
  side : OrderSide
  quantity : ℚ
  newLimitPrice : ℚ
  orderRef : String
  deriving DecidableEq

/-- The broker methods, and the steps of `submit_trades` a caller can see. -/
inductive BrokerCall where
  | accountSnapshot
  | fetchOpenOrderSnapshots
  | fetchCompletedOrderSnapshots
  | fetchIbkrCompletedOrderSnapshots (wanted : List String) (unresolved : List OrderLedgerEntry)
  | executionQuotes (tickers : List String)
  | cancelOrder (orderId : Int)
  | replaceOrder (request : ReplaceRequest)
  | submitReplacement (request : ReplacementRequest)
  | submitTrades (trades : List ProposedTrade)
  | nextStatus (trades : List ProposedTrade)
  | statusRaised (e : Exn)
  | submitResults
  deriving DecidableEq

/-- What each broker method returns; a submission first says how many reports it makes. -/
def BrokerCall.Ans : BrokerCall → Type
  | .accountSnapshot => AccountSnapshot
  | .fetchOpenOrderSnapshots => List OpenOrderSnapshot
  | .fetchCompletedOrderSnapshots => List OpenOrderSnapshot
  | .fetchIbkrCompletedOrderSnapshots _ _ => List OpenOrderSnapshot
  | .executionQuotes _ => List (String × ExecutionQuote)
  | .cancelOrder _ => Bool
  | .replaceOrder _ => OpenOrderSnapshot
  | .submitReplacement _ => OpenOrderSnapshot
  | .submitTrades _ => Nat
  | .nextStatus trades => Fin trades.length × OrderResult
  | .statusRaised _ => Unit
  | .submitResults => List OrderResult

/-- The requests the broker adapter makes to its client library. -/
inductive IbCall where
  | connect
  | disconnect
  | isConnected
  | managedAccounts
  | reqCurrentTime
  | probeTradingPermissions
  | executionOrderContract (ticker : String)
  | placeOrder (order : IbOrder)
  | cancelOrder (trade : IbTrade)
  | sleep (seconds : ℚ)
  | readTrade (trade : IbTrade)
  | withinDeadline
  | reqAllOpenOrders
  | openTrades
  | reqCompletedOrders
  | reqExecutions
  | trades
  deriving DecidableEq

/-- What each request to the client library returns. -/
def IbCall.Ans : IbCall → Type
  | .connect => Unit
  | .disconnect => Unit
  | .isConnected => Bool
  | .managedAccounts => List String
  | .reqCurrentTime => Unit
  | .probeTradingPermissions => Bool × String
  | .executionOrderContract _ => Unit
  | .placeOrder _ => IbTrade
  | .cancelOrder _ => Unit
  | .sleep _ => Unit
  | .readTrade _ => IbTrade
  | .withinDeadline => Bool
  | .reqAllOpenOrders => Unit
  | .openTrades => List IbTrade
  | .reqCompletedOrders => List IbTrade
  | .reqExecutions => List IbFill
  | .trades => List IbTrade

/-- What the rest of `build_plan` computes from its reads: the trades and its warnings, and what
they were sized on. -/
structure PlannedTrades where
  trades : List ProposedTrade
  warnings : List String
  targets : List TargetPosition := []
  portfolioValueUsd : Reported := .finite 0
  brokerTotalValueUsd : Reported := .finite 0
  deriving DecidableEq

/-- The host's own steps around a rebalance. -/
inductive HostCall where
  | assertTradingRecoveryReady
  | assertRebalanceMarketWindow
  | planTrades (sessionDate runId : String)
  | writeReport (plan : RebalancePlan)
  | recordPlanned (plan : RebalancePlan)
  | sendAlert (text : String)
  | recordReconciliation (plan : RebalancePlan)
  deriving DecidableEq

/-- What each of the host's steps returns. -/
def HostCall.Ans : HostCall → Type
  | .planTrades _ _ => PlannedTrades
  | _ => Unit

/-- One operation of the modelled code. -/
inductive Op where
  | loadLatestEntries
  | upsert (entry : OrderLedgerEntry)
  | utcNow
  | sleep (seconds : ℚ)
  | statusCallback (trade : ProposedTrade) (result : OrderResult)
  | broker (call : BrokerCall)
  | ib (call : IbCall)
  | host (call : HostCall)
  deriving DecidableEq

/-- The answer each operation expects. -/
def Op.Ans : Op → Type
  | .loadLatestEntries => OrderStore
  | .upsert _ => Unit
  | .utcNow => ℚ
  | .sleep _ => Unit
  | .statusCallback _ _ => Unit
  | .broker call => call.Ans
  | .ib call => call.Ans
  | .host call => call.Ans

/-- The signature of the modelled code. -/
def sig : Signature := ⟨Op, Op.Ans, Exn⟩

instance : DecidableEq sig.Exn := inferInstanceAs (DecidableEq Exn)

instance : DecidableEq sig.Op := inferInstanceAs (DecidableEq Op)

/-- A program of the modelled code. -/
abbrev M (α : Type) : Type := Prog sig α

/-- `load_latest_entries`, and the read behind every other query of the ledger. -/
def loadLatest : M OrderStore := Prog.perform (S := sig) .loadLatestEntries

/-- `store.upsert(entry)`. -/
def upsertEntry (entry : OrderLedgerEntry) : M Unit := Prog.perform (S := sig) (.upsert entry)

/-- `datetime.now(UTC)`, in seconds. -/
def utcNow : M ℚ := Prog.perform (S := sig) .utcNow

/-- `time.sleep(seconds)`. -/
def sleepFor (seconds : ℚ) : M Unit := Prog.perform (S := sig) (.sleep seconds)

/-- Raise an exception. -/
def raise {α : Type} (e : Exn) : M α := .throw (S := sig) e

/-- A broker method answered by the environment alone. -/
def askBroker (call : BrokerCall) : M call.Ans := Prog.perform (S := sig) (.broker call)

/-- A request to the client library. -/
def askIb (call : IbCall) : M call.Ans := Prog.perform (S := sig) (.ib call)

/-- A step of the host. -/
def askHost (call : HostCall) : M call.Ans := Prog.perform (S := sig) (.host call)

/-- The caller's callback for one status of one trade. -/
abbrev StatusCallback : Type := ProposedTrade → OrderResult → M Unit

/-- The status callback of an unknown caller: it may raise. -/
def observe : StatusCallback := fun trade result =>
  Prog.perform (S := sig) (.statusCallback trade result)

/-- The callback of an unknown caller, where there is one. -/
def callbackOf (reported : Bool) : Option StatusCallback :=
  if reported then some observe else none

/-- The broker an execution manager is built with. -/
structure Broker where
  /-- `isinstance(broker, IbkrBroker)`. -/
  isIbkr : Bool
  accountSnapshot : M AccountSnapshot
  submitTrades : List ProposedTrade → Option StatusCallback → M (List OrderResult)
  fetchOpenOrderSnapshots : M (List OpenOrderSnapshot)
  executionQuotes : List String → M (List (String × ExecutionQuote))
  cancelOrder : Int → M Bool
  replaceOrder : ReplaceRequest → M OpenOrderSnapshot
  /-- `getattr(broker, "submit_replacement", None)`. -/
  submitReplacement : Option (ReplacementRequest → M OpenOrderSnapshot)
  /-- `getattr(broker, "fetch_completed_order_snapshots", None)`. -/
  fetchCompletedOrderSnapshots : Option (M (List OpenOrderSnapshot))
  /-- The history query the manager makes itself for the IBKR broker. -/
  fetchIbkrCompletedOrderSnapshots :
    List String → List OrderLedgerEntry → M (List OpenOrderSnapshot)

/-- Report so many statuses through the callback; the broker sees what the callback raises. -/
def reportStatuses (trades : List ProposedTrade) (callback : StatusCallback) : Nat → M Unit
  | 0 => .ret ()
  | n + 1 => (askBroker (.nextStatus trades)).bind fun (report : Fin trades.length × OrderResult) =>
      ((callback (trades.get report.1) report.2).catching fun e => askBroker (.statusRaised e)).bind
        fun _ => reportStatuses trades callback n

/-- The broker whose every method is answered by the environment. -/
def protocolBroker (isIbkr : Bool) (hasReplacement hasHistory : Bool) : Broker where
  isIbkr := isIbkr
  accountSnapshot := askBroker .accountSnapshot
  submitTrades trades callback :=
    (askBroker (.submitTrades trades)).bind fun (reports : Nat) =>
      (match callback with
        | some callback => reportStatuses trades callback reports
        | none => .ret ()).bind fun _ => askBroker .submitResults
  fetchOpenOrderSnapshots := askBroker .fetchOpenOrderSnapshots
  executionQuotes tickers := askBroker (.executionQuotes tickers)
  cancelOrder orderId := askBroker (.cancelOrder orderId)
  replaceOrder request := askBroker (.replaceOrder request)
  submitReplacement :=
    if hasReplacement then some fun request => askBroker (.submitReplacement request) else none
  fetchCompletedOrderSnapshots :=
    if hasHistory then some (askBroker .fetchCompletedOrderSnapshots) else none
  fetchIbkrCompletedOrderSnapshots wanted unresolved :=
    askBroker (.fetchIbkrCompletedOrderSnapshots wanted unresolved)

end Poma
