import Poma.Broker.Protocol

/-!
# Worlds the order code runs in

A world keeps the durable ledger itself: reads return it and a completed write
is never lost. Everything else, the clock included, is answered by an
environment with a state of its own. The open environment has no state and may
answer every operation with any value or any exception, each time anew.
-/

namespace Poma

open Interaction

/-- Who answers the operations that are not on the ledger. -/
structure Environment (W : Type) where
  /-- What is decided at one operation. -/
  Choice : Type
  /-- The clock reading. -/
  clock : Choice → W → ℚ
  /-- The answer to an operation, and what becomes of the outside. -/
  answer : Choice → W → (o : Op) → Except Exn o.Ans × W

/-- The durable ledger, and everything outside the process. -/
structure World (W : Type) where
  ledger : OrderStore
  outside : W

/-- The system in which the ledger is durable and the environment does the rest. -/
def Environment.system {W : Type} (E : Environment W) : System sig (World W) where
  Choice := E.Choice
  act c s o := match o with
    | .loadLatestEntries => (.ok s.ledger, s)
    | .upsert entry => (.ok (), { s with ledger := s.ledger.upsert entry })
    | .utcNow => (.ok (E.clock c s.outside), s)
    | .sleep _ => (.ok (), s)
    | .statusCallback trade result =>
      let r := E.answer c s.outside (.statusCallback trade result)
      (r.1, { s with outside := r.2 })
    | .broker call =>
      let r := E.answer c s.outside (.broker call)
      (r.1, { s with outside := r.2 })
    | .ib call =>
      let r := E.answer c s.outside (.ib call)
      (r.1, { s with outside := r.2 })
    | .host call =>
      let r := E.answer c s.outside (.host call)
      (r.1, { s with outside := r.2 })

/-- The environment that only makes the choices that satisfy `P`. -/
def Environment.restrict {W : Type} (E : Environment W) (P : E.Choice → Prop) :
    Environment W where
  Choice := { c // P c }
  clock c := E.clock c.1
  answer c := E.answer c.1

theorem Environment.system_restrict {W : Type} (E : Environment W) (P : E.Choice → Prop) :
    (E.restrict P).system = E.system.restrict P := rfl

/-- One free decision: the clock, and an answer to whatever is asked. -/
structure Oracle where
  clock : ℚ
  answer : (o : Op) → Except Exn o.Ans

instance : Inhabited Oracle := ⟨⟨0, fun _ => .error (.connection "not connected")⟩⟩

/-- A broker that answers the two order lists and nothing else. -/
def listsOnly (clock : ℚ) (openOrders completedOrders : List OpenOrderSnapshot) : Oracle where
  clock := clock
  answer
    | .broker .fetchOpenOrderSnapshots => .ok openOrders
    | .broker .fetchCompletedOrderSnapshots => .ok completedOrders
    | .broker (.fetchIbkrCompletedOrderSnapshots _ _) => .ok completedOrders
    | _ => .error (.connection "not connected")

/-- The same broker, accepting every request to cancel an order. -/
def listsAndCancels (clock : ℚ) (openOrders completedOrders : List OpenOrderSnapshot) :
    Oracle where
  clock := clock
  answer
    | .broker (.cancelOrder _) => .ok true
    | o => (listsOnly clock openOrders completedOrders).answer o

/-- The operations of a run, in order. -/
def opsOf {α W : Type} (run : Run sig (World W) α) : List Op := run.trace.map fun event => event.op

/-- The environment that may answer anything. -/
def openEnvironment : Environment Unit where
  Choice := Oracle
  clock c _ := c.clock
  answer c _ o := (c.answer o, ())

/-- The system in which every broker, callback and host behaviour is possible. -/
def openWorld : System sig (World Unit) := openEnvironment.system

/-- The ledger alone, with nothing remembered outside. -/
def World.of (ledger : OrderStore) : World Unit := ⟨ledger, ()⟩

/-- The world as the next command finds it, in a new process or in the one that was there. -/
def World.atStart {W : Type} (s : World W) (newProcess : Bool) : World W :=
  { s with ledger := s.ledger.atStart newProcess }

/-- An operation that leaves the ledger as it is. -/
def Op.KeepsLedger : Op → Prop
  | .upsert _ => False
  | _ => True

/-- A recorded entry, when the operation is a record. -/
def Op.record? : Op → Option OrderLedgerEntry
  | .upsert entry => some entry
  | _ => none

section Rules

variable {W : Type} (E : Environment W) {α : Type}

/-- What one operation does to the ledger. -/
theorem act_ledger (c : E.Choice) (s : World W) (o : Op) :
    (E.system.act c s o).2.ledger = match o.record? with
      | some entry => s.ledger.upsert entry
      | none => s.ledger := by
  cases o <;> rfl

theorem act_ledger_of_keeps {o : Op} (ho : o.KeepsLedger) (c : E.Choice) (s : World W) :
    (E.system.act c s o).2.ledger = s.ledger := by
  cases o <;> first | rfl | exact ho.elim

@[simp] theorem wp_loadLatest (Q : Post sig (World W) OrderStore) (τ : List (Event sig))
    (s : World W) : E.system.wp loadLatest Q τ s ↔ Q .stopped τ s ∧
      (E.Choice → Q (.returned s.ledger) (τ ++ [⟨.loadLatestEntries, .ok s.ledger⟩]) s) :=
  E.system.wp_perform .loadLatestEntries Q τ s

@[simp] theorem wp_upsertEntry (entry : OrderLedgerEntry) (Q : Post sig (World W) Unit)
    (τ : List (Event sig)) (s : World W) : E.system.wp (upsertEntry entry) Q τ s ↔
      Q .stopped τ s ∧ (E.Choice → Q (.returned ()) (τ ++ [⟨.upsert entry, .ok ()⟩])
        { s with ledger := s.ledger.upsert entry }) :=
  E.system.wp_perform (.upsert entry) Q τ s

@[simp] theorem wp_utcNow (Q : Post sig (World W) ℚ) (τ : List (Event sig)) (s : World W) :
    E.system.wp utcNow Q τ s ↔ Q .stopped τ s ∧ ∀ c : E.Choice,
      Q (.returned (E.clock c s.outside)) (τ ++ [⟨.utcNow, .ok (E.clock c s.outside)⟩]) s :=
  E.system.wp_perform .utcNow Q τ s

@[simp] theorem wp_sleepFor (seconds : ℚ) (Q : Post sig (World W) Unit) (τ : List (Event sig))
    (s : World W) : E.system.wp (sleepFor seconds) Q τ s ↔
      Q .stopped τ s ∧ (E.Choice → Q (.returned ()) (τ ++ [⟨.sleep seconds, .ok ()⟩]) s) :=
  E.system.wp_perform (.sleep seconds) Q τ s

/-- A method answered by the environment leaves the ledger as it is. -/
theorem wp_askBroker (call : BrokerCall) (Q : Post sig (World W) call.Ans)
    (τ : List (Event sig)) (s : World W) : E.system.wp (askBroker call) Q τ s ↔
      Q .stopped τ s ∧ ∀ c : E.Choice,
        match (E.answer c s.outside (.broker call)).1 with
        | .ok a => Q (.returned a) (τ ++ [⟨.broker call, .ok a⟩])
            { s with outside := (E.answer c s.outside (.broker call)).2 }
        | .error e => Q (.raised e) (τ ++ [⟨.broker call, .error e⟩])
            { s with outside := (E.answer c s.outside (.broker call)).2 } := by
  refine (E.system.wp_perform (.broker call) Q τ s).trans ?_
  refine and_congr_right fun _ => forall_congr' fun c => ?_
  have hact : E.system.act c s (.broker call) = ((E.answer c s.outside (.broker call)).1,
      { s with outside := (E.answer c s.outside (.broker call)).2 }) := rfl
  rw [hact]
  cases (E.answer c s.outside (.broker call)).1 <;> exact Iff.rfl

/-- What is recorded is all that changes the ledger. -/
theorem wp_records {p : M α} {allowed : Op → Prop} (hp : p.Uses allowed)
    {I : OrderStore → Prop}
    (hI : ∀ store entry, I store → allowed (.upsert entry) → I (store.upsert entry))
    {τ : List (Event sig)} {s : World W} (h : I s.ledger) :
    E.system.wp p (fun _ _ s' => I s'.ledger) τ s := by
  refine E.system.wp_of_uses (I := fun _ s => I s.ledger) hp ?_ h
  intro o ho c τ s hs
  rw [act_ledger E c s o]
  cases o with
  | upsert entry => exact hI _ entry hs ho
  | _ => exact hs

/-- A program without records leaves the ledger as it is. -/
theorem wp_keepsLedger {p : M α} (hp : p.Uses Op.KeepsLedger) (τ : List (Event sig))
    (s : World W) : E.system.wp p (fun _ _ s' => s'.ledger = s.ledger) τ s :=
  wp_records E hp (I := fun store => store = s.ledger) (fun _ _ _ h => h.elim) rfl

end Rules

end Poma
