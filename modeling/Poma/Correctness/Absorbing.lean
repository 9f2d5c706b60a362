import Poma.Correctness.FollowUp
import Poma.Correctness.Naming

/-!
# Filled and cancelled rows absorb

A row is recorded over only while its order has not ended, or with the end it
has, and the broker is asked about an order only for a row that is open at that
time. The ledger at each point of a trace is what the records before it make of
the first one; passes and stale-order checks keep to this whatever is answered.
-/

namespace Poma

open Interaction

/-- A row whose order has ended: cancelled, or filled by its status or by more than nothing. -/
def OrderLedgerEntry.Ended (row : OrderLedgerEntry) : Prop :=
  row.lifecycleState = .cancelled ∨
    row.lifecycleState = .filled ∧ (row.rawStatus = "Filled" ∨ ¬row.Unfilled)

instance (row : OrderLedgerEntry) : Decidable row.Ended := inferInstanceAs (Decidable (_ ∨ _))

theorem OrderLedgerEntry.Ended.isTerminal {row : OrderLedgerEntry} (h : row.Ended) :
    row.isTerminal = true := by
  unfold OrderLedgerEntry.isTerminal
  rcases h with hstate | ⟨hstate, _⟩
  · rw [hstate]
    decide
  · rw [hstate]
    decide

namespace OrderStore

/-- A row of the ledger that is open. -/
structure Holds (store : OrderStore) (row : OrderLedgerEntry) : Prop where
  latest : store.latest row.ledgerKey = some row
  isOpen : row.isTerminal = false

/-- A key whose order has not ended. -/
def Live (store : OrderStore) (key : String) : Prop :=
  ∀ row, store.latest key = some row → ¬row.Ended

theorem Holds.live {store : OrderStore} {row : OrderLedgerEntry} (h : store.Holds row) :
    store.Live row.ledgerKey := by
  intro other hother hended
  rw [h.latest] at hother
  obtain rfl := Option.some.inj hother
  exact Bool.false_ne_true (h.isOpen.symm.trans hended.isTerminal)

/-- The same entries under the same keys, in whatever order they are listed. -/
def SameRows (store other : OrderStore) : Prop := ∀ key, store.latest key = other.latest key

/-- What an operation makes of the ledger. -/
def recorded (store : OrderStore) (o : Op) : OrderStore :=
  (o.record?.map store.upsert).getD store

/-- The ledger after the records of a trace. -/
def afterTrace (store : OrderStore) (τ : List (Event sig)) : OrderStore :=
  τ.foldl (fun store event => store.recorded event.op) store

theorem afterTrace_append (store : OrderStore) (τ more : List (Event sig)) :
    store.afterTrace (τ ++ more) = (store.afterTrace τ).afterTrace more := List.foldl_append

namespace SameRows

variable {store other third : OrderStore}

theorem symm (h : store.SameRows other) : other.SameRows store := fun key => (h key).symm

theorem trans (h : store.SameRows other) (h' : other.SameRows third) : store.SameRows third :=
  fun key => (h key).trans (h' key)

theorem recorded (h : store.SameRows other) (o : Op) :
    (store.recorded o).SameRows (other.recorded o) := by
  unfold OrderStore.recorded
  cases o.record? with
  | none => exact h
  | some entry =>
    intro key
    show (store.upsert entry).latest key = (other.upsert entry).latest key
    rw [latest_upsert, latest_upsert, h key]

/-- A trace records the same over the same rows. -/
theorem afterTrace (h : store.SameRows other) (τ : List (Event sig)) :
    (store.afterTrace τ).SameRows (other.afterTrace τ) := by
  induction τ generalizing store other with
  | nil => exact h
  | cons event τ ih => exact ih (h.recorded event.op)

theorem holds (h : store.SameRows other) {row : OrderLedgerEntry} (hrow : other.Holds row) :
    store.Holds row := ⟨(h _).trans hrow.latest, hrow.isOpen⟩

end SameRows

end OrderStore

/-- What an operation asks of the broker is asked for the order of a row. -/
def Op.AsksFor (τ : List (Event sig)) (row : OrderLedgerEntry) : Op → Prop
  | .broker (.cancelOrder orderId) => row.orderId = some orderId ∨
      ∃ snapshot, OpenIn τ row snapshot ∧ (snapshot.orderId <|> row.orderId) = some orderId
  | .broker (.replaceOrder request) => row.reservedRef = some request.orderRef
  | .broker (.submitReplacement request) => row.reservedRef = some request.orderRef
  | .broker (.submitTrades trades) => ∃ trade ∈ trades, trade.ref = row.ledgerKey
  | _ => False

/-- A row is recorded over with the end it has, if any, and what is asked of the broker is asked
for open rows. -/
def OrderStore.Admits (store : OrderStore) (τ : List (Event sig)) : Op → Prop
  | .upsert x => ∀ row, store.latest x.ledgerKey = some row → row.Ended →
      x.Ended ∧ x.lifecycleState = row.lifecycleState
  | .broker (.submitTrades trades) =>
      ∀ trade ∈ trades, ∃ row, store.Holds row ∧ row.ledgerKey = trade.ref
  | o => o.TouchesOrder → ∃ row, store.Holds row ∧ o.AsksFor τ row

/-- An operation about an order that was submitted before: to cancel it, or to replace it. -/
def Op.FollowsUp : Op → Prop
  | .broker (.cancelOrder _) => True
  | .broker (.replaceOrder _) => True
  | .broker (.submitReplacement _) => True
  | _ => False

theorem OrderStore.Admits.of_followsUp {store : OrderStore} {τ : List (Event sig)} {o : Op}
    (h : store.Admits τ o) (hfollows : o.FollowsUp) :
    ∃ row, store.Holds row ∧ o.AsksFor τ row := by
  cases o with
  | broker call =>
    cases call with
    | cancelOrder orderId => exact h trivial
    | replaceOrder request => exact h trivial
    | submitReplacement request => exact h trivial
    | _ => exact hfollows.elim
  | _ => exact hfollows.elim

theorem OrderStore.Admits.of_sameRows {store other : OrderStore} {τ : List (Event sig)} {o : Op}
    (h : other.Admits τ o) (hsame : store.SameRows other) : store.Admits τ o := by
  cases o with
  | upsert x => exact fun row hrow => h row ((hsame _).symm.trans hrow)
  | broker call =>
    cases call with
    | submitTrades trades =>
      intro trade hmem
      obtain ⟨row, hholds, hkey⟩ := h trade hmem
      exact ⟨row, hsame.holds hholds, hkey⟩
    | _ => exact fun ht => (h ht).imp fun row hrow => ⟨hsame.holds hrow.1, hrow.2⟩
  | _ => exact fun ht => ht.elim

/-- Every operation of a trace is admitted by the ledger it meets. -/
def OrderStore.AdmitsAll (store : OrderStore) (τ : List (Event sig)) : Prop :=
  ∀ before event after, τ = before ++ event :: after →
    (store.afterTrace before).Admits before event.op

section Admission

variable {store : OrderStore} {τ τ' : List (Event sig)}

theorem OpenIn.mono {row : OrderLedgerEntry} {snapshot : OpenOrderSnapshot}
    (h : OpenIn τ row snapshot) (hsub : τ ⊆ τ') : OpenIn τ' row snapshot := by
  obtain ⟨reports, hreports, hmatch⟩ := h
  exact ⟨reports, hsub hreports, hmatch⟩

theorem Op.AsksFor.mono {row : OrderLedgerEntry} {o : Op} (h : o.AsksFor τ row)
    (hsub : τ ⊆ τ') : o.AsksFor τ' row := by
  cases o with
  | broker call =>
    cases call with
    | cancelOrder orderId =>
      exact h.imp_right fun ⟨snapshot, hopen, hid⟩ => ⟨snapshot, hopen.mono hsub, hid⟩
    | _ => exact h
  | _ => exact h

theorem OrderStore.Admits.mono {o : Op} (h : store.Admits τ o) (hsub : τ ⊆ τ') :
    store.Admits τ' o := by
  cases o with
  | broker call =>
    cases call with
    | cancelOrder orderId => exact fun ht => (h ht).imp fun _ hrow => ⟨hrow.1, hrow.2.mono hsub⟩
    | replaceOrder request => exact fun ht => (h ht).imp fun _ hrow => ⟨hrow.1, hrow.2.mono hsub⟩
    | submitReplacement request =>
      exact fun ht => (h ht).imp fun _ hrow => ⟨hrow.1, hrow.2.mono hsub⟩
    | submitTrades trades => exact h
    | _ => exact fun ht => ht.elim
  | upsert x => exact h
  | _ => exact fun ht => ht.elim

/-- What neither records nor asks about an order is admitted. -/
def Op.Passive (o : Op) : Prop := o.KeepsLedger ∧ ¬o.TouchesOrder

theorem Op.Passive.admitted {o : Op} (h : o.Passive) : store.Admits τ o := by
  cases o with
  | broker call =>
    cases call with
    | submitTrades trades => exact absurd trivial h.2
    | _ => exact fun ht => absurd ht h.2
  | upsert x => exact h.1.elim
  | _ => exact fun ht => absurd ht h.2

/-- A key whose order has not ended may be recorded. -/
theorem OrderStore.Live.admitted {x : OrderLedgerEntry} (h : store.Live x.ledgerKey) :
    store.Admits τ (.upsert x) :=
  fun row hrow hended => absurd hended (h row hrow)

theorem OrderStore.AdmitsAll.append {more : List (Event sig)} (h : store.AdmitsAll τ)
    (hmore : (store.afterTrace τ).AdmitsAll more) : store.AdmitsAll (τ ++ more) := by
  intro before event after heq
  rcases List.append_eq_append_iff.mp heq with ⟨rest, rfl, hrest⟩ | ⟨rest, rfl, hrest⟩
  · rw [OrderStore.afterTrace_append]
    exact (hmore rest event after hrest).mono (List.subset_append_right _ _)
  · cases rest with
    | nil =>
      have hfirst := hmore [] event after hrest.symm
      simp only [List.append_nil] at hfirst
      exact OrderStore.Admits.mono hfirst (List.nil_subset _)
    | cons first rest =>
      obtain ⟨rfl, _⟩ := List.cons.inj hrest
      exact h before event rest rfl

/-- What is admitted over some rows is admitted over the same ones, listed in another order. -/
theorem OrderStore.AdmitsAll.of_sameRows {other : OrderStore} (h : other.AdmitsAll τ)
    (hsame : store.SameRows other) : store.AdmitsAll τ :=
  fun before event after heq => (h before event after heq).of_sameRows (hsame.afterTrace before)

/-- One more operation, admitted by the ledger it meets. -/
theorem OrderStore.AdmitsAll.concat (h : store.AdmitsAll τ) {event : Event sig}
    (hevent : (store.afterTrace τ).Admits τ event.op) : store.AdmitsAll (τ ++ [event]) := by
  intro before other after heq
  rcases List.eq_nil_or_concat after with rfl | ⟨shorter, last, rfl⟩
  · obtain ⟨rfl, hsame⟩ := List.append_inj' heq rfl
    obtain rfl := (List.cons.inj hsame).1
    exact hevent
  · have hinit : τ ++ [event] = (before ++ other :: shorter) ++ [last] := by
      simpa using heq
    exact h before other shorter (List.append_inj' hinit rfl).1

end Admission

/-- A run so far: its ledger is what its records make of the first one, and all it did was
admitted. -/
structure Tracked {W : Type} (base : OrderStore) (τ : List (Event sig)) (s : World W) : Prop where
  ledger : s.ledger = base.afterTrace τ
  admitted : base.AdmitsAll τ

section Rules

variable {W : Type} (E : Environment W) {α : Type} {base : OrderStore} {τ : List (Event sig)}
  {s : World W}

theorem tracked_nil (s : World W) : Tracked s.ledger [] s where
  ledger := rfl
  admitted before event after h := by simp at h

theorem act_recorded (c : E.Choice) (s : World W) (o : Op) :
    (E.system.act c s o).2.ledger = s.ledger.recorded o := by
  cases o <;> rfl

/-- One more operation, admitted by the ledger it meets. -/
theorem Tracked.step (h : Tracked base τ s) {o : Op} (ho : s.ledger.Admits τ o) (c : E.Choice) :
    Tracked base (τ ++ [⟨o, (E.system.act c s o).1⟩]) (E.system.act c s o).2 := by
  constructor
  · rw [act_recorded, h.ledger, OrderStore.afterTrace_append]
    rfl
  · apply h.admitted.concat
    rw [← h.ledger]
    exact ho

/-- Operations that leave the ledger alone, and are admitted by it, keep a run tracked. -/
theorem wp_tracked_meets {p : M α} {allowed : Op → Prop} {R : α → Prop}
    (hp : p.Meets (S := sig) (fun _ _ => True) allowed R)
    (hkeep : ∀ o, allowed o → o.KeepsLedger) (hallow : ∀ o, allowed o → s.ledger.Admits τ o)
    (h : Tracked base τ s) : E.system.wp p (fun out τ' s' =>
      (Tracked base τ' s' ∧ s'.ledger = s.ledger ∧ τ ⊆ τ') ∧ ∀ a, out = .returned a → R a) τ s := by
  apply E.system.wp_of_meets (I := fun τ' s' => Tracked base τ' s' ∧ s'.ledger = s.ledger ∧ τ ⊆ τ')
    hp _ ⟨h, rfl, List.Subset.refl τ⟩
  rintro o ho c τ' s' ⟨htracked, hledger, hsub⟩
  have hadmitted : s'.ledger.Admits τ' o := hledger ▸ (hallow o ho).mono hsub
  refine ⟨trivial, htracked.step E hadmitted c, ?_, List.subset_append_of_subset_left _ hsub⟩
  exact (act_ledger_of_keeps E (hkeep o ho) c s').trans hledger

theorem wp_tracked {p : M α} {allowed : Op → Prop} (hp : p.Uses (S := sig) allowed)
    (hkeep : ∀ o, allowed o → o.KeepsLedger) (hallow : ∀ o, allowed o → s.ledger.Admits τ o)
    (h : Tracked base τ s) : E.system.wp p
      (fun _ τ' s' => Tracked base τ' s' ∧ s'.ledger = s.ledger ∧ τ ⊆ τ') τ s :=
  E.system.wp_mono (wp_tracked_meets E hp hkeep hallow h) fun _ _ _ hq => hq.1

theorem wp_tracked_passive {p : M α} (hp : p.Uses (S := sig) Op.Passive) (h : Tracked base τ s) :
    E.system.wp p (fun _ τ' s' => Tracked base τ' s' ∧ s'.ledger = s.ledger ∧ τ ⊆ τ') τ s :=
  wp_tracked E hp (fun _ ho => ho.1) (fun _ ho => ho.admitted) h

/-- A program that spares some rows leaves them as they are. -/
theorem wp_spares_all {p : M α} {K : String → Prop}
    (hp : ∀ key, K key → p.Uses (S := sig) (Op.Spares key)) (τ : List (Event sig)) (s : World W) :
    E.system.wp p (fun _ _ s' => ∀ key, K key → s'.ledger.latest key = s.ledger.latest key) τ s := by
  rw [System.wp_iff_run]
  intro cs key hkey
  exact (E.system.wp_iff_run _ _ τ s).mp (wp_spares E (hp key hkey) τ s) cs

/-- What a call returned is in the trace. -/
theorem wp_asked (call : BrokerCall) (τ : List (Event sig)) (s : World W) :
    E.system.wp (askBroker call) (fun out τ' _ => ∀ a, out = .returned a →
      (⟨.broker call, .ok a⟩ : Event sig) ∈ τ') τ s := by
  rw [wp_askBroker]
  refine ⟨by rintro _ ⟨⟩, fun c => ?_⟩
  cases (E.answer c s.outside (.broker call)).1 with
  | ok a =>
    intro b hb
    obtain rfl := Outcome.returned.inj hb
    exact List.mem_append_right _ List.mem_cons_self
  | error e => rintro _ ⟨⟩

/-- A record of a key whose order has not ended. -/
theorem wp_tracked_upsert {x : OrderLedgerEntry} {Q : Post sig (World W) Unit}
    (h : Tracked base τ s) (hlive : s.ledger.Live x.ledgerKey) (hstop : Q .stopped τ s)
    (hret : ∀ τ' s', Tracked base τ' s' → τ ⊆ τ' → s'.ledger = s.ledger.upsert x →
      Q (.returned ()) τ' s') : E.system.wp (upsertEntry x) Q τ s := by
  rw [wp_upsertEntry]
  refine ⟨hstop, fun c => hret _ _ ?_ (List.subset_append_left _ _) rfl⟩
  exact h.step E (o := .upsert x) hlive.admitted c

/-- The report of a row records it, where its key's order has not ended. -/
theorem wp_report_tracked {x : OrderLedgerEntry} (action : Option ReconcileAction) (matched : Bool)
    (h : Tracked base τ s) (hlive : s.ledger.Live x.ledgerKey) :
    E.system.wp (ExecutionManager.report x action matched) (fun _ τ' s' => Tracked base τ' s')
      τ s := by
  unfold ExecutionManager.report
  rw [System.wp_bind]
  exact wp_tracked_upsert E h hlive h fun τ' s' htracked _ _ => htracked

section Turn

variable {settings : Settings} {isIbkr hasReplacement hasHistory : Bool} {entry : OrderLedgerEntry}

theorem freshReplaceLimitPrice_passive (entry : OrderLedgerEntry) :
    ((protocolManager settings isIbkr hasReplacement hasHistory).freshReplaceLimitPrice entry).Uses
      (S := sig) Op.Passive := by
  unfold ExecutionManager.freshReplaceLimitPrice
  split
  · trivial
  · apply Prog.uses_bind (Prog.uses_perform (S := sig) (o := Op.broker (.executionQuotes _))
      ⟨trivial, id⟩)
    intro quotes
    split <;> trivial

/-- To resume a replacement, quotes are asked for and its reference is placed; the row keeps its
key. -/
theorem resumeReplacement_meets {manager : ExecutionManager} {allowed : Op → Prop}
    (hfresh : ∀ row, (manager.freshReplaceLimitPrice row).Uses (S := sig) allowed)
    (hclock : allowed .utcNow) {ref : String}
    (hsubmit : ∀ submit request, manager.broker.submitReplacement = some submit →
      request.orderRef = ref → (submit request).Uses (S := sig) allowed)
    (cancelled : OrderLedgerEntry) (now : ℚ) :
    (manager.resumeReplacement cancelled ref now).Meets (S := sig) (fun _ _ => True) allowed
      fun resumed => ∀ x, resumed = some x → x.ledgerKey = cancelled.ledgerKey := by
  unfold ExecutionManager.resumeReplacement
  split
  · exact meets_none
  split
  · exact meets_none
  rename_i submit hsome
  split
  · exact meets_none
  split
  · exact meets_none
  split
  · exact meets_none
  apply Prog.meets_bind (hfresh cancelled)
  rintro (_ | ⟨newLimit, metadata⟩) _
  · exact meets_none
  · apply Prog.meets_bind (hsubmit submit _ hsome rfl)
    intro snapshot _
    apply Prog.meets_bind (Prog.uses_perform hclock)
    rintro stamp _ x ⟨⟩
    cases metadata <;> rfl

/-- The placement of a reserved replacement is asked for the row that reserved it. -/
theorem wp_resumeReplacement_tracked (h : Tracked base τ s) (hentry : s.ledger.Holds entry)
    {ref : String} (href : entry.reservedRef = some ref) (cancelled : OrderLedgerEntry) (now : ℚ) :
    E.system.wp ((protocolManager settings isIbkr hasReplacement hasHistory).resumeReplacement
      cancelled ref now) (fun out τ' s' => (Tracked base τ' s' ∧ s'.ledger = s.ledger ∧ τ ⊆ τ') ∧
        ∀ resumed, out = .returned resumed → ∀ x, resumed = some x →
          x.ledgerKey = cancelled.ledgerKey) τ s := by
  let allowed (o : Op) : Prop := o.Passive ∨
    ∃ request : ReplacementRequest, o = .broker (.submitReplacement request) ∧
      request.orderRef = ref
  have hmeets : ((protocolManager settings isIbkr hasReplacement hasHistory).resumeReplacement
      cancelled ref now).Meets (S := sig) (fun _ _ => True) allowed fun resumed =>
        ∀ x, resumed = some x → x.ledgerKey = cancelled.ledgerKey := by
    apply resumeReplacement_meets
    · exact fun row => (freshReplaceLimitPrice_passive row).mono fun _ ho => Or.inl ho
    · exact Or.inl ⟨trivial, id⟩
    · intro submit request hsome hrequest
      cases hasReplacement with
      | false => cases hsome
      | true =>
        obtain rfl := Option.some.inj hsome
        exact Prog.uses_perform (S := sig) (o := Op.broker (.submitReplacement request))
          (Or.inr ⟨request, rfl, hrequest⟩)
  apply wp_tracked_meets E hmeets _ _ h
  · rintro o (hpassive | ⟨request, rfl, _⟩)
    · exact hpassive.1
    · trivial
  · rintro o (hpassive | ⟨request, rfl, rfl⟩)
    · exact hpassive.admitted
    · exact fun _ => ⟨entry, hentry, href⟩

/-- The row recorded before a replacement reserves its reference. -/
theorem OrderLedgerEntry.replaceIntent_reserved (u : OrderLedgerEntry) :
    u.replaceIntent.reservedRef = some (u.replaceIntent.replacementOrderRef.getD "") := by
  have hne : u.ledgerKey ++ ":r" ++ (u.replaceCount + 1).repr ≠ "" := by
    intro h
    have hlength := congrArg String.length h
    rw [String.length_append, String.length_append] at hlength
    have hpositive : ":r".length = 2 := by decide +kernel
    have hempty : "".length = 0 := by decide +kernel
    omega
  unfold OrderLedgerEntry.reservedRef OrderLedgerEntry.replaceIntent
  rw [Option.filter_some_pos (by simp [hne])]
  rfl

theorem OrderLedgerEntry.replaceIntent_open (u : OrderLedgerEntry) :
    u.replaceIntent.isTerminal = false := by
  have hstate : decide (OrderLifecycleState.replacePending ∈ terminalLifecycleStates) = false := by
    decide
  exact hstate

/-- A row of the ledger that is open, once it is recorded. -/
theorem OrderStore.holds_upsert {store : OrderStore} {x : OrderLedgerEntry}
    (h : x.isTerminal = false) : (store.upsert x).Holds x where
  latest := OrderStore.latest_upsert_of_eq rfl
  isOpen := h

variable {u : OrderLedgerEntry} {key : String}

/-- What a part of a turn leaves: the run tracked, and its key not ended. -/
structure Going (base : OrderStore) (key : String) (τ : List (Event sig)) (s : World W) : Prop where
  tracked : Tracked base τ s
  live : s.ledger.Live key

/-- A working row is replaced under the intent it recorded. -/
theorem wp_replaceWorking_tracked (h : Going base u.ledgerKey τ s) (orderId : Int)
    (newLimit : ℚ) (metadata : Option QuoteMetadata) (now : ℚ) :
    E.system.wp ((protocolManager settings isIbkr hasReplacement hasHistory).replaceWorking u
      orderId newLimit metadata now) (fun out τ' s' => Going base u.ledgerKey τ' s' ∧
        ∀ taken, out = .returned taken → taken.1.ledgerKey = u.ledgerKey) τ s := by
  unfold ExecutionManager.replaceWorking
  rw [System.wp_bind]
  apply wp_tracked_upsert E (x := u.replaceIntent) h.tracked h.live
  · exact ⟨h, by rintro _ ⟨⟩⟩
  intro τ₁ s₁ htracked _ hledger
  have hholds : s₁.ledger.Holds u.replaceIntent :=
    hledger ▸ OrderStore.holds_upsert u.replaceIntent_open
  have hgoing : ∀ τ' (s' : World W), Tracked base τ' s' → s'.ledger = s₁.ledger →
      Going base u.ledgerKey τ' s' := fun τ' s' ht hs => ⟨ht, hs ▸ hholds.live⟩
  rw [System.seq_returned, System.wp_bind, System.wp_attempt]
  let request : ReplaceRequest := ⟨orderId, u.ticker, u.side,
    if u.remainingQty ≠ 0 then u.remainingQty else u.quantity, newLimit,
    u.replaceIntent.replacementOrderRef.getD ""⟩
  have hasked : (askBroker (.replaceOrder request)).Uses (S := sig)
      fun o => o = .broker (.replaceOrder request) := Prog.uses_perform rfl
  refine E.system.wp_mono (wp_tracked E hasked (by rintro _ rfl; trivial) (by
    rintro _ rfl
    exact fun _ => ⟨_, hholds, u.replaceIntent_reserved⟩) htracked) ?_
  rintro out τ₂ s₂ ⟨htracked₂, hledger₂, _⟩
  have hgoing₂ := hgoing τ₂ s₂ htracked₂ hledger₂
  cases out with
  | stopped => exact ⟨hgoing₂, by rintro _ ⟨⟩⟩
  | raised e =>
    rw [System.caught_raised, System.seq_returned]
    cases e with
    | cancelNotConfirmed message =>
      refine ⟨hgoing₂, fun taken htaken => ?_⟩
      obtain rfl := Outcome.returned.inj htaken
      rfl
    | _ => exact ⟨hgoing₂, by rintro _ ⟨⟩⟩
  | returned snapshot =>
    rw [System.caught_returned, System.seq_returned, System.wp_bind]
    refine E.system.wp_mono (wp_tracked_passive E (p := utcNow) (Prog.uses_perform ⟨trivial, id⟩)
      htracked₂) ?_
    rintro out τ₃ s₃ ⟨htracked₃, hledger₃, _⟩
    have hgoing₃ := hgoing τ₃ s₃ htracked₃ (hledger₃.trans hledger₂)
    cases out with
    | stopped => exact ⟨hgoing₃, by rintro _ ⟨⟩⟩
    | raised e => exact ⟨hgoing₃, by rintro _ ⟨⟩⟩
    | returned stamp =>
      rw [System.seq_returned]
      split
      · refine ⟨hgoing₃, fun taken htaken => ?_⟩
        obtain rfl := Outcome.returned.inj htaken
        rfl
      · refine ⟨hgoing₃, fun taken htaken => ?_⟩
        obtain rfl := Outcome.returned.inj htaken
        cases metadata <;> rfl

theorem OrderStore.Holds.going (h : Tracked base τ s) (hentry : s.ledger.Holds entry) :
    Going base entry.ledgerKey τ s :=
  ⟨h, hentry.live⟩

/-- The timeout policy asks for an open row, and leaves its key not ended. -/
theorem wp_applyTimeoutPolicy_tracked (h : Tracked base τ s) (hentry : s.ledger.Holds entry)
    (hkey : u.ledgerKey = entry.ledgerKey)
    (hasks : ∀ orderId, u.orderId = some orderId →
      (Op.broker (.cancelOrder orderId)).AsksFor τ entry) (now : ℚ) :
    E.system.wp ((protocolManager settings isIbkr hasReplacement hasHistory).applyTimeoutPolicy u
      now) (fun out τ' s' => Going base entry.ledgerKey τ' s' ∧
        ∀ taken, out = .returned (some taken) → taken.1.ledgerKey = entry.ledgerKey) τ s := by
  have hnone : ∀ τ' (s' : World W), Tracked base τ' s' → s'.ledger = s.ledger →
      Going base entry.ledgerKey τ' s' ∧ ∀ taken : OrderLedgerEntry × ReconcileAction,
        (Outcome.returned none : Outcome Exn (Option (OrderLedgerEntry × ReconcileAction))) =
          .returned (some taken) → taken.1.ledgerKey = entry.ledgerKey :=
    fun τ' s' ht hs => ⟨⟨ht, hs ▸ hentry.live⟩, by rintro _ ⟨⟩⟩
  unfold ExecutionManager.applyTimeoutPolicy
  split
  · exact hnone τ s h rfl
  split
  · exact hnone τ s h rfl
  split
  · split
    · exact hnone τ s h rfl
    · rename_i orderId hid
      have hasked : (askBroker (.cancelOrder orderId)).Uses (S := sig)
          fun o => o = .broker (.cancelOrder orderId) := Prog.uses_perform rfl
      rw [System.wp_bind]
      refine E.system.wp_mono (wp_tracked E hasked (by rintro _ rfl; trivial) (by
        rintro _ rfl
        exact fun _ => ⟨entry, hentry, hasks orderId hid⟩) h) ?_
      rintro out τ₁ s₁ ⟨htracked, hledger, _⟩
      have hgoing : Going base entry.ledgerKey τ₁ s₁ := ⟨htracked, hledger ▸ hentry.live⟩
      cases out with
      | stopped => exact ⟨hgoing, by rintro _ ⟨⟩⟩
      | raised e => exact ⟨hgoing, by rintro _ ⟨⟩⟩
      | returned cancelled =>
        rw [System.seq_returned]
        split
        · refine ⟨hgoing, fun taken htaken => ?_⟩
          obtain rfl := Option.some.inj (Outcome.returned.inj htaken)
          exact hkey
        · exact hnone τ₁ s₁ htracked hledger
  split
  · split
    · exact hnone τ s h rfl
    · rw [System.wp_bind]
      refine E.system.wp_mono (wp_tracked_passive E (freshReplaceLimitPrice_passive u) h) ?_
      rintro out τ₁ s₁ ⟨htracked, hledger, _⟩
      have hgoing : Going base entry.ledgerKey τ₁ s₁ := ⟨htracked, hledger ▸ hentry.live⟩
      cases out with
      | stopped => exact ⟨hgoing, by rintro _ ⟨⟩⟩
      | raised e => exact ⟨hgoing, by rintro _ ⟨⟩⟩
      | returned fresh =>
        rw [System.seq_returned]
        cases fresh with
        | none => exact hnone τ₁ s₁ htracked hledger
        | some fresh =>
          obtain ⟨newLimit, metadata⟩ := fresh
          rw [System.wp_bind]
          refine E.system.wp_mono (wp_replaceWorking_tracked E (hkey ▸ hgoing) _ newLimit metadata
            now) ?_
          rintro out τ₂ s₂ ⟨hgoing₂, htaken⟩
          rw [hkey] at hgoing₂ htaken
          cases out with
          | stopped => exact ⟨hgoing₂, by rintro _ ⟨⟩⟩
          | raised e => exact ⟨hgoing₂, by rintro _ ⟨⟩⟩
          | returned taken =>
            rw [System.seq_returned]
            refine ⟨hgoing₂, fun other hother => ?_⟩
            obtain rfl := Option.some.inj (Outcome.returned.inj hother)
            exact htaken _ rfl
  · exact hnone τ s h rfl

/-- A row reported open is followed and recorded. -/
theorem wp_followOpen_tracked (h : Tracked base τ s) (hentry : s.ledger.Holds entry)
    (hkey : u.ledgerKey = entry.ledgerKey)
    (hasks : ∀ orderId, u.orderId = some orderId →
      (Op.broker (.cancelOrder orderId)).AsksFor τ entry) (now : ℚ) :
    E.system.wp ((protocolManager settings isIbkr hasReplacement hasHistory).followOpen u now)
      (fun _ τ' s' => Tracked base τ' s') τ s := by
  unfold ExecutionManager.followOpen
  rw [System.wp_bind]
  have hpolicy : E.system.wp (if u.isRecovered then .ret none
      else (protocolManager settings isIbkr hasReplacement hasHistory).applyTimeoutPolicy u now)
      (fun out τ' s' => Going base entry.ledgerKey τ' s' ∧
        ∀ taken, out = .returned (some taken) → taken.1.ledgerKey = entry.ledgerKey) τ s := by
    split
    · exact ⟨hentry.going h, by rintro _ ⟨⟩⟩
    · exact wp_applyTimeoutPolicy_tracked E h hentry hkey hasks now
  refine E.system.wp_mono hpolicy ?_
  rintro out τ₁ s₁ ⟨hgoing, htaken⟩
  cases out with
  | stopped => exact hgoing.tracked
  | raised e => exact hgoing.tracked
  | returned taken =>
    rw [System.seq_returned]
    cases taken with
    | none => exact wp_report_tracked E none true hgoing.tracked (hkey ▸ hgoing.live)
    | some taken =>
      exact wp_report_tracked E _ true hgoing.tracked (htaken taken rfl ▸ hgoing.live)

/-- The row of a resumed replacement is recorded, or the turn goes on. -/
theorem wp_resumed_tracked {resumed : Option OrderLedgerEntry} {other : M ReconcileUpdate}
    (hgoing : Going base entry.ledgerKey τ s)
    (hkey : ∀ x, resumed = some x → x.ledgerKey = entry.ledgerKey)
    (hother : E.system.wp other (fun _ τ' s' => Tracked base τ' s') τ s) :
    E.system.wp (match resumed with
      | some row => ExecutionManager.report row (some .replace) true
      | none => other) (fun _ τ' s' => Tracked base τ' s') τ s := by
  cases resumed with
  | none => exact hother
  | some row => exact wp_report_tracked E _ true hgoing.tracked (hkey row rfl ▸ hgoing.live)

/-- The turn of a row reported open. -/
theorem wp_reconcileOpen_tracked (h : Tracked base τ s) (hentry : s.ledger.Holds entry)
    {snapshot : OpenOrderSnapshot} (hopen : OpenIn τ entry snapshot) (now : ℚ) :
    E.system.wp ((protocolManager settings isIbkr hasReplacement hasHistory).reconcileOpen entry
      snapshot now) (fun _ τ' s' => Tracked base τ' s') τ s := by
  unfold ExecutionManager.reconcileOpen
  rw [System.wp_bind]
  refine E.system.wp_mono (wp_tracked_passive E (p := utcNow) (Prog.uses_perform ⟨trivial, id⟩) h) ?_
  rintro out τ₁ s₁ ⟨htracked, hledger, hsub⟩
  have hentry₁ : s₁.ledger.Holds entry := hledger ▸ hentry
  have hopen₁ := hopen.mono hsub
  cases out with
  | stopped => exact htracked
  | raised e => exact htracked
  | returned stamp =>
    rw [System.seq_returned]
    have hasks : ∀ orderId, (entry.withSnapshot snapshot stamp).orderId = some orderId →
        (Op.broker (.cancelOrder orderId)).AsksFor τ₁ entry :=
      fun orderId hid => Or.inr ⟨snapshot, hopen₁, hid⟩
    have hfollow : ∀ (u : OrderLedgerEntry) {τ' : List (Event sig)} {s' : World W},
        Tracked base τ' s' → s'.ledger = s₁.ledger → τ₁ ⊆ τ' → u.ledgerKey = entry.ledgerKey →
        u.orderId = (entry.withSnapshot snapshot stamp).orderId →
        E.system.wp ((protocolManager settings isIbkr hasReplacement hasHistory).followOpen u now)
          (fun _ τ' s' => Tracked base τ' s') τ' s' := by
      intro u τ' s' ht hs hmore hkey hid
      apply wp_followOpen_tracked E ht (hs ▸ hentry₁) hkey
      intro orderId horder
      exact (hasks orderId (hid ▸ horder)).mono hmore
    dsimp only
    cases href : entry.reservedRef with
    | none => exact hfollow _ htracked rfl (List.Subset.refl _) rfl rfl
    | some ref =>
      dsimp only
      split
      · rw [System.wp_bind]
        refine E.system.wp_mono (wp_resumeReplacement_tracked E htracked hentry₁ href _ now) ?_
        rintro out τ₂ s₂ ⟨⟨htracked₂, hledger₂, hsub₂⟩, hresumed⟩
        cases out with
        | stopped => exact htracked₂
        | raised e => exact htracked₂
        | returned resumed =>
          rw [System.seq_returned]
          exact wp_resumed_tracked E ⟨htracked₂, hledger₂ ▸ hentry₁.live⟩ (hresumed resumed rfl)
            (hfollow _ htracked₂ hledger₂ hsub₂ rfl rfl)
      split
      · exact hfollow _ htracked rfl (List.Subset.refl _) rfl rfl
      · exact hfollow _ htracked rfl (List.Subset.refl _) rfl rfl

theorem wp_reconcileUnreported_tracked (h : Tracked base τ s) (hentry : s.ledger.Holds entry)
    (now : ℚ) : E.system.wp (ExecutionManager.reconcileUnreported entry now)
      (fun _ τ' s' => Tracked base τ' s') τ s := by
  unfold ExecutionManager.reconcileUnreported
  split
  · exact h
  · exact wp_report_tracked E (x := closeUnreportedOpenEntry entry now) _ _ h hentry.live

/-- The turn of a row that the history shows. -/
theorem wp_reconcileCompleted_tracked (h : Tracked base τ s) (hentry : s.ledger.Holds entry)
    (snapshot : OpenOrderSnapshot) (now : ℚ) :
    E.system.wp ((protocolManager settings isIbkr hasReplacement hasHistory).reconcileCompleted
      entry snapshot now) (fun _ τ' s' => Tracked base τ' s') τ s := by
  unfold ExecutionManager.reconcileCompleted
  rw [System.wp_bind]
  refine E.system.wp_mono (wp_tracked_passive E (p := utcNow) (Prog.uses_perform ⟨trivial, id⟩) h) ?_
  rintro out τ₁ s₁ ⟨htracked, hledger, _⟩
  have hentry₁ : s₁.ledger.Holds entry := hledger ▸ hentry
  cases out with
  | stopped => exact htracked
  | raised e => exact htracked
  | returned stamp =>
    rw [System.seq_returned]
    dsimp only
    split
    · have hresume : E.system.wp ((protocolManager settings isIbkr hasReplacement
          hasHistory).resumeReserved entry.reservedRef (entry.withSnapshot snapshot stamp) now)
          (fun out τ' s' => (Tracked base τ' s' ∧ s'.ledger = s₁.ledger ∧ τ₁ ⊆ τ') ∧
            ∀ resumed, out = .returned resumed → ∀ x, resumed = some x →
              x.ledgerKey = entry.ledgerKey) τ₁ s₁ := by
        unfold ExecutionManager.resumeReserved
        cases href : entry.reservedRef with
        | none => exact ⟨⟨htracked, rfl, List.Subset.refl _⟩, by rintro _ ⟨⟩ _ ⟨⟩⟩
        | some ref =>
          dsimp only
          split
          · exact wp_resumeReplacement_tracked E htracked hentry₁ href _ now
          · exact ⟨⟨htracked, rfl, List.Subset.refl _⟩, by rintro _ ⟨⟩ _ ⟨⟩⟩
      rw [System.wp_bind]
      refine E.system.wp_mono hresume ?_
      rintro out τ₂ s₂ ⟨⟨htracked₂, hledger₂, _⟩, hresumed⟩
      have hgoing : Going base entry.ledgerKey τ₂ s₂ := ⟨htracked₂, hledger₂ ▸ hentry₁.live⟩
      cases out with
      | stopped => exact htracked₂
      | raised e => exact htracked₂
      | returned resumed =>
        rw [System.seq_returned]
        exact wp_resumed_tracked E hgoing (hresumed resumed rfl)
          (wp_report_tracked E (x := (entry.withSnapshot snapshot stamp).dropReservation) _ true
            htracked₂ hgoing.live)
    · exact wp_reconcileUnreported_tracked E htracked hentry₁ now

/-- An adopted replacement is recorded. -/
theorem wp_adopted_tracked (h : Tracked base τ s) (hentry : s.ledger.Holds entry)
    (snapshot : OpenOrderSnapshot) (action : OrderLedgerEntry → Option ReconcileAction) :
    E.system.wp (utcNow.bind fun stamp => ExecutionManager.report
      (adoptReplacement entry snapshot stamp) (action (adoptReplacement entry snapshot stamp)) true)
      (fun _ τ' s' => Tracked base τ' s') τ s := by
  rw [System.wp_bind]
  refine E.system.wp_mono (wp_tracked_passive E (p := utcNow) (Prog.uses_perform ⟨trivial, id⟩) h) ?_
  rintro out τ₁ s₁ ⟨htracked, hledger, _⟩
  cases out with
  | stopped => exact htracked
  | raised e => exact htracked
  | returned stamp =>
    rw [System.seq_returned]
    exact wp_report_tracked E (x := adoptReplacement entry snapshot stamp) _ true htracked
      (hledger ▸ hentry.live)

/-- A row's turn keeps the run tracked. -/
theorem wp_handleEntry_tracked (h : Tracked base τ s) (hentry : s.ledger.Holds entry)
    {openSnapshots : List OpenOrderSnapshot}
    (hopen : ∀ snapshot, matchSnapshot entry openSnapshots = some (snapshot, false) →
      OpenIn τ entry snapshot)
    (history : Except Exn (List OpenOrderSnapshot)) (recovered : List OrderLedgerEntry) (now : ℚ) :
    E.system.wp ((protocolManager settings isIbkr hasReplacement hasHistory).handleEntry
      openSnapshots history recovered now entry) (fun _ τ' s' => Tracked base τ' s') τ s := by
  have hturn : ∀ completed, E.system.wp ((protocolManager settings isIbkr hasReplacement
      hasHistory).reconcileEntry entry openSnapshots completed now)
      (fun _ τ' s' => Tracked base τ' s') τ s := by
    intro completed
    unfold ExecutionManager.reconcileEntry
    split
    · exact wp_adopted_tracked E h hentry _ fun _ => some .replace
    · rename_i snapshot hmatch
      exact wp_reconcileOpen_tracked E h hentry (hopen snapshot hmatch) now
    split
    · exact wp_adopted_tracked E h hentry _ fun adopted =>
        some (if adopted.isTerminal then .closed else .replace)
    · exact wp_reconcileCompleted_tracked E h hentry _ now
    · exact wp_reconcileUnreported_tracked E h hentry now
  unfold ExecutionManager.handleEntry
  split
  · exact h
  apply E.system.wp_catching (P := fun _ τ' s' => Tracked base τ' s')
  · apply E.system.wp_seq (hturn _)
    · exact fun _ _ _ ht => ht
    · exact fun _ _ _ ht => ht
    · exact fun _ _ ht => ht
  · exact fun _ _ _ ht => ht
  · intro e τ' s' ht
    rw [System.wp_bind]
    exact E.system.wp_mono (wp_tracked_passive E (p := loadLatest)
      (Prog.uses_perform ⟨trivial, id⟩) ht) fun out _ _ hq => by cases out <;> exact hq.1
  · exact fun _ _ ht => ht

/-- A loop over open rows, in which each turn keeps to its own row, keeps the run tracked. -/
theorem wp_eachHeld {f : OrderLedgerEntry → M α} {entries : List OrderLedgerEntry}
    (h : Tracked base τ s) (hentries : ∀ entry ∈ entries, s.ledger.Holds entry)
    (hnodup : (entries.map (·.ledgerKey)).Nodup)
    (hspares : ∀ entry key, key ≠ entry.ledgerKey → (f entry).Uses (S := sig) (Op.Spares key))
    (hturn : ∀ entry τ₁ (s₁ : World W), Tracked base τ₁ s₁ → s₁.ledger.Holds entry → τ ⊆ τ₁ →
      E.system.wp (f entry) (fun _ τ' s' => Tracked base τ' s') τ₁ s₁) :
    E.system.wp (Prog.collect f entries) (fun _ τ' s' => Tracked base τ' s') τ s := by
  apply E.system.wp_collect (fun rest _ τ' s' => (rest.map (·.ledgerKey)).Nodup ∧
    (∀ entry ∈ rest, s'.ledger.Holds entry) ∧ Tracked base τ' s' ∧ τ ⊆ τ')
    _ _ ⟨hnodup, hentries, h, List.Subset.refl τ⟩
  · rintro entry rest _ τ₁ s₁ ⟨hrest, hholds, htracked, hsub⟩
    rw [List.map_cons, List.nodup_cons] at hrest
    refine E.system.wp_mono (E.system.wp_and (E.system.wp_and
      (hturn entry τ₁ s₁ htracked (hholds entry List.mem_cons_self) hsub)
      (wp_spares_all E (hspares entry) τ₁ s₁)) (E.system.wp_extends _ τ₁ s₁)) ?_
    rintro out τ₂ s₂ ⟨⟨htracked₂, hsame⟩, hmore⟩
    have hholds₂ : ∀ other ∈ rest, s₂.ledger.Holds other := by
      intro other hother
      have hheld := hholds other (List.mem_cons_of_mem _ hother)
      have hkey : other.ledgerKey ≠ entry.ledgerKey := fun hsame =>
        hrest.1 (hsame ▸ List.mem_map_of_mem hother)
      exact ⟨(hsame _ hkey).trans hheld.latest, hheld.isOpen⟩
    cases out with
    | returned update => exact ⟨hrest.2, hholds₂, htracked₂, List.Subset.trans hsub hmore.subset⟩
    | raised e => exact htracked₂
    | stopped => exact htracked₂
  · rintro _ τ₁ s₁ ⟨_, _, htracked, _⟩
    exact htracked

/-- The restore scan records orders under keys that no row has. -/
theorem wp_restoreLoop_tracked (snapshots : List OpenOrderSnapshot) :
    ∀ (recovered : List OrderLedgerEntry) (τ : List (Event sig)) (s : World W),
      Tracked base τ s → s.ledger.All OrderLedgerEntry.Produced →
      E.system.wp (restoreLoop s.ledger snapshots recovered) (fun _ τ' s' =>
        Tracked base τ' s' ∧ s'.ledger.All OrderLedgerEntry.Produced) τ s := by
  induction snapshots with
  | nil => exact fun _ _ _ h hrows => ⟨h, hrows⟩
  | cons first rest ih =>
    intro recovered τ s h hrows
    rw [restoreLoop]
    cases hdecision : restoreDecision s.ledger first with
    | known => exact ih recovered τ s h hrows
    | conflict e => exact ⟨h, hrows⟩
    | restore entryAt =>
      have hclock : ∀ {τ : List (Event sig)} (s : World W), Tracked base τ s → ∀ c : E.Choice,
          Tracked base (τ ++ [⟨.utcNow, .ok (E.clock c s.outside)⟩]) s := fun s ht c =>
        ht.step E (o := .utcNow) (Op.Passive.admitted ⟨trivial, id⟩) c
      simp only [System.wp_bind, wp_utcNow, System.seq_stopped, System.seq_returned]
      refine ⟨⟨h, hrows⟩, fun c => ⟨⟨hclock s h c, hrows⟩, fun c' => ?_⟩⟩
      have htracked := hclock s (hclock s h c) c'
      obtain ⟨_, _, runId, hentry⟩ := restoreDecision_restore hdecision
      have hkey : ((entryAt (E.clock c s.outside)).withSnapshot first
          (E.clock c' s.outside)).ledgerKey = first.orderRef.getD "" := by
        rw [hentry]
        rfl
      have hlive : s.ledger.Live ((entryAt (E.clock c s.outside)).withSnapshot first
          (E.clock c' s.outside)).ledgerKey := by
        intro row hrow _
        rw [hkey] at hrow
        have hrowKey := OrderStore.latest_key hrow
        have hproduced := hrows row (OrderStore.latest_mem hrow)
        exact (hproduced.shielded [first]).restored_ne (hrowKey ▸ hrow) List.mem_cons_self hdecision
          hrowKey.symm
      split
      · exact ⟨htracked, hrows⟩
      · rw [System.wp_bind]
        apply wp_tracked_upsert E htracked hlive ⟨htracked, hrows⟩
        intro τ₁ s₁ htracked₁ _ hledger
        rw [System.seq_returned, ← hledger]
        apply ih _ τ₁ s₁ htracked₁
        rw [hledger]
        exact hrows.upsert (restored_produced hdecision _ _)

/-- The history query neither records nor asks about an order. -/
theorem completedSnapshots_passive (entries : List OrderLedgerEntry)
    (openSnapshots : List OpenOrderSnapshot) :
    ((protocolManager settings isIbkr hasReplacement hasHistory).completedSnapshots entries
      openSnapshots).Uses (S := sig) Op.Passive := by
  apply completedSnapshots_uses
  · intro fetch hfetch
    cases hasHistory with
    | false => cases hfetch
    | true =>
      obtain rfl := Option.some.inj hfetch
      exact Prog.uses_perform (S := sig) (o := Op.broker .fetchCompletedOrderSnapshots)
        ⟨trivial, id⟩
  · exact fun wanted unresolved => Prog.uses_perform (S := sig)
      (o := Op.broker (.fetchIbkrCompletedOrderSnapshots wanted unresolved)) ⟨trivial, id⟩

/-- The part of a pass after the restore scan. -/
theorem wp_reconcileEntries_tracked (h : Tracked base τ s) {reports : List OpenOrderSnapshot}
    (hreports : (⟨.broker .fetchOpenOrderSnapshots, .ok reports⟩ : Event sig) ∈ τ)
    (recovered : List OrderLedgerEntry) :
    E.system.wp ((protocolManager settings isIbkr hasReplacement hasHistory).reconcileEntries
      (ExecutionManager.referenced reports) recovered) (fun _ τ' s' => Tracked base τ' s') τ s := by
  unfold ExecutionManager.reconcileEntries
  rw [System.wp_bind, wp_loadLatest]
  refine ⟨h, fun c => ?_⟩
  have hloaded : Tracked base (τ ++ [⟨.loadLatestEntries, .ok s.ledger⟩]) s :=
    h.step E (o := .loadLatestEntries) (Op.Passive.admitted ⟨trivial, id⟩) c
  rw [System.seq_returned]
  dsimp only
  split
  · exact hloaded
  rw [System.wp_bind]
  refine E.system.wp_mono (wp_tracked_passive E (completedSnapshots_passive _ _) hloaded) ?_
  rintro out τ₁ s₁ ⟨htracked, hledger, hsub⟩
  cases out with
  | stopped => exact htracked
  | raised e => exact htracked
  | returned history =>
    rw [System.seq_returned, System.wp_bind]
    refine E.system.wp_mono (wp_tracked_passive E (p := utcNow) (Prog.uses_perform ⟨trivial, id⟩)
      htracked) ?_
    rintro out τ₂ s₂ ⟨htracked₂, hledger₂, hsub₂⟩
    cases out with
    | stopped => exact htracked₂
    | raised e => exact htracked₂
    | returned now =>
      have hsame : s₂.ledger = s.ledger := hledger₂.trans hledger
      have hlisted : (⟨.broker .fetchOpenOrderSnapshots, .ok reports⟩ : Event sig) ∈ τ₂ :=
        hsub₂ (hsub (List.mem_append_left _ hreports))
      rw [System.seq_returned]
      apply E.system.wp_seq (P := fun _ τ' s' => Tracked base τ' s')
      · apply wp_eachHeld E htracked₂
        · intro entry hmem
          obtain ⟨hentry, hopen⟩ := OrderStore.mem_loadOpenOrders.mp hmem
          exact ⟨hsame ▸ OrderStore.latest_of_mem hentry, hopen⟩
        · exact s.ledger.nodup.sublist (List.filter_sublist.map _)
        · exact fun entry key hkey => handleEntry_spares protocolManager_within hkey.symm
        · intro entry τ₃ s₃ htracked₃ hholds hsub₃
          apply wp_handleEntry_tracked E htracked₃ hholds
          exact fun snapshot hmatch => ⟨reports, hsub₃ hlisted, hmatch⟩
      · exact fun _ _ _ ht => ht
      · exact fun _ _ _ ht => ht
      · exact fun _ _ ht => ht

/-- A pass keeps the run tracked. -/
theorem wp_reconcile_tracked (h : Tracked base τ s)
    (hrows : s.ledger.All OrderLedgerEntry.Produced) :
    E.system.wp (protocolManager settings isIbkr hasReplacement hasHistory).reconcile
      (fun _ τ' s' => Tracked base τ' s') τ s := by
  unfold ExecutionManager.reconcile
  rw [System.wp_bind, wp_loadLatest]
  refine ⟨h, fun c => ?_⟩
  have hloaded : Tracked base (τ ++ [⟨.loadLatestEntries, .ok s.ledger⟩]) s :=
    h.step E (o := .loadLatestEntries) (Op.Passive.admitted ⟨trivial, id⟩) c
  rw [System.seq_returned]
  split
  · exact hloaded
  rw [System.wp_bind]
  refine E.system.wp_mono (E.system.wp_and (wp_tracked_passive E
    (p := askBroker .fetchOpenOrderSnapshots) (Prog.uses_perform ⟨trivial, id⟩) hloaded)
    (wp_asked E .fetchOpenOrderSnapshots _ s)) ?_
  rintro out τ₁ s₁ ⟨⟨htracked, hledger, _⟩, hlisted⟩
  cases out with
  | stopped => exact htracked
  | raised e => exact htracked
  | returned reports =>
    have hrows₁ : s₁.ledger.All OrderLedgerEntry.Produced := hledger ▸ hrows
    rw [System.seq_returned, reconcileOpenOrders_eq, System.wp_bind]
    have hrestore : E.system.wp (if (protocolManager settings isIbkr hasReplacement
        hasHistory).broker.isIbkr then restoreUntrackedBrokerOrders
          (ExecutionManager.referenced reports) else .ret [])
        (fun _ τ' s' => Tracked base τ' s') τ₁ s₁ := by
      split
      · rw [restoreUntrackedBrokerOrders, System.wp_bind, wp_loadLatest]
        refine ⟨htracked, fun c => ?_⟩
        rw [System.seq_returned]
        exact E.system.wp_mono (wp_restoreLoop_tracked E _ [] _ s₁ (htracked.step E
          (o := .loadLatestEntries) (Op.Passive.admitted ⟨trivial, id⟩) c) hrows₁) fun _ _ _ hq => hq.1
      · exact htracked
    refine E.system.wp_mono (E.system.wp_and hrestore (E.system.wp_extends _ τ₁ s₁)) ?_
    rintro out τ₂ s₂ ⟨htracked₂, hmore⟩
    cases out with
    | stopped => exact htracked₂
    | raised e => exact htracked₂
    | returned recovered =>
      rw [System.seq_returned]
      exact wp_reconcileEntries_tracked E htracked₂ (hmore.subset (hlisted reports rfl)) recovered

theorem cancelStaleEntry_spares (label : String) (entry : OrderLedgerEntry) {key : String}
    (hkey : key ≠ entry.ledgerKey) :
    ((protocolManager settings isIbkr hasReplacement hasHistory).cancelStaleEntry label entry).Uses
      (S := sig) (Op.Spares key) := by
  unfold ExecutionManager.cancelStaleEntry
  split
  · trivial
  split
  · trivial
  · rename_i orderId _
    apply Prog.uses_bind (Prog.uses_perform (S := sig) (o := Op.broker (.cancelOrder orderId))
      (Op.spares_of_keepsLedger trivial))
    intro (requested : Bool)
    cases requested with
    | false => trivial
    | true =>
      have hrecord : Op.Spares key (.upsert (staleCancelled entry label)) := by
        rintro x ⟨⟩
        exact hkey.symm
      exact Prog.uses_bind (Prog.uses_perform (S := sig) hrecord) fun _ => trivial

/-- The cancellation of a stale order is requested for its open row. -/
theorem wp_cancelStaleEntry_tracked (label : String) (h : Tracked base τ s)
    (hentry : s.ledger.Holds entry) :
    E.system.wp ((protocolManager settings isIbkr hasReplacement hasHistory).cancelStaleEntry label
      entry) (fun _ τ' s' => Tracked base τ' s') τ s := by
  unfold ExecutionManager.cancelStaleEntry
  split
  · exact h
  split
  · exact h
  · rename_i orderId hid
    have hasked : (askBroker (.cancelOrder orderId)).Uses (S := sig)
        fun o => o = .broker (.cancelOrder orderId) := Prog.uses_perform rfl
    rw [System.wp_bind]
    refine E.system.wp_mono (wp_tracked E hasked (by rintro _ rfl; trivial) (by
      rintro _ rfl
      exact fun _ => ⟨entry, hentry, Or.inl hid⟩) h) ?_
    rintro out τ₁ s₁ ⟨htracked, hledger, _⟩
    cases out with
    | stopped => exact htracked
    | raised e => exact htracked
    | returned requested =>
      rw [System.seq_returned]
      split
      · rw [System.wp_bind]
        exact wp_tracked_upsert E (x := staleCancelled entry label) htracked
          (hledger ▸ hentry.live) htracked fun _ _ ht _ _ => ht
      · exact htracked

/-- A group of stale rows. -/
theorem wp_checkGroup_tracked {group : List OrderLedgerEntry} (label : String)
    (h : Tracked base τ s) (hentries : ∀ entry ∈ group, s.ledger.Holds entry)
    (hnodup : (group.map (·.ledgerKey)).Nodup) :
    E.system.wp ((protocolManager settings isIbkr hasReplacement hasHistory).checkGroup group label)
      (fun _ τ' s' => Tracked base τ' s' ∧ ∀ key, key ∉ group.map (·.ledgerKey) →
        s'.ledger.latest key = s.ledger.latest key) τ s := by
  unfold ExecutionManager.checkGroup
  split
  · exact ⟨h, fun _ _ => rfl⟩
  split
  · rw [System.wp_bind]
    have hloop : E.system.wp (Prog.collect ((protocolManager settings isIbkr hasReplacement
        hasHistory).cancelStaleEntry label) group) (fun _ τ' s' => Tracked base τ' s') τ s :=
      wp_eachHeld E h hentries hnodup (fun entry key => cancelStaleEntry_spares label entry)
        fun entry τ₁ s₁ ht hholds _ => wp_cancelStaleEntry_tracked E label ht hholds
    have hframe : E.system.wp (Prog.collect ((protocolManager settings isIbkr hasReplacement
        hasHistory).cancelStaleEntry label) group) (fun _ _ s' => ∀ key,
          key ∉ group.map (·.ledgerKey) → s'.ledger.latest key = s.ledger.latest key) τ s := by
      apply wp_spares_all
      intro key hkey
      apply Prog.uses_collect
      intro entry hmem
      exact cancelStaleEntry_spares label entry fun hsame =>
        hkey (hsame ▸ List.mem_map_of_mem hmem)
    refine E.system.wp_mono (E.system.wp_and hloop hframe) ?_
    rintro out τ₁ s₁ hq
    cases out <;> exact hq
  · exact ⟨h, fun _ _ => rfl⟩

/-- The decision over the open rows keeps the run tracked. -/
theorem wp_checkOpenEntries_tracked (h : Tracked base τ s) (sessionDate runId : String) :
    E.system.wp ((protocolManager settings isIbkr hasReplacement hasHistory).checkOpenEntries
      s.ledger.loadOpenOrders sessionDate runId) (fun _ τ' s' => Tracked base τ' s') τ s := by
  have hnodup : (s.ledger.loadOpenOrders.map (·.ledgerKey)).Nodup :=
    s.ledger.nodup.sublist (List.filter_sublist.map _)
  have hholds : ∀ entry ∈ s.ledger.loadOpenOrders, s.ledger.Holds entry := by
    intro entry hmem
    obtain ⟨hentry, hopen⟩ := OrderStore.mem_loadOpenOrders.mp hmem
    exact ⟨OrderStore.latest_of_mem hentry, hopen⟩
  unfold ExecutionManager.checkOpenEntries
  rw [System.wp_bind]
  refine E.system.wp_mono (wp_checkGroup_tracked E "a prior session" h
    (fun entry hmem => hholds entry (List.mem_of_mem_filter hmem))
    (hnodup.sublist (List.filter_sublist.map _))) ?_
  rintro out τ₁ s₁ ⟨htracked, hframe⟩
  cases out with
  | stopped => exact htracked
  | raised e => exact htracked
  | returned prior =>
    rw [System.seq_returned]
    dsimp only
    rw [System.wp_bind]
    refine E.system.wp_mono (wp_checkGroup_tracked E "a different run in this session" htracked ?_
      (hnodup.sublist (List.filter_sublist.map _))) ?_
    · intro entry hmem
      have hopen := hholds entry (List.mem_of_mem_filter hmem)
      obtain ⟨hin, hsession⟩ := List.mem_filter.mp hmem
      have hsession' := (of_decide_eq_true hsession).1
      -- the first group is of other sessions, and a key has one row
      have hnot : entry.ledgerKey ∉ (otherSession s.ledger.loadOpenOrders sessionDate).map
          (·.ledgerKey) := by
        intro hkey
        obtain ⟨other, hother, hsame⟩ := List.mem_map.mp hkey
        obtain ⟨hotherIn, hforeign⟩ := List.mem_filter.mp hother
        obtain rfl := List.inj_on_of_nodup_map hnodup hotherIn hin hsame
        exact of_decide_eq_true hforeign hsession'
      exact ⟨(hframe _ hnot).trans hopen.latest, hopen.isOpen⟩
    · rintro out τ₂ s₂ ⟨htracked₂, _⟩
      cases out <;> exact htracked₂

/-- A stale-order check keeps the run tracked. -/
theorem wp_checkStaleOrders_tracked (h : Tracked base τ s)
    (hrows : s.ledger.All OrderLedgerEntry.Produced) (sessionDate runId : String) :
    E.system.wp ((protocolManager settings isIbkr hasReplacement hasHistory).checkStaleOrders
      sessionDate runId) (fun _ τ' s' => Tracked base τ' s') τ s := by
  unfold ExecutionManager.checkStaleOrders
  rw [System.wp_bind, wp_loadLatest]
  refine ⟨h, fun c => ?_⟩
  have hloaded : ∀ {τ : List (Event sig)} (s : World W), Tracked base τ s → E.Choice →
      Tracked base (τ ++ [⟨.loadLatestEntries, .ok s.ledger⟩]) s := fun s ht c =>
    ht.step E (o := .loadLatestEntries) (Op.Passive.admitted ⟨trivial, id⟩) c
  rw [System.seq_returned]
  dsimp only
  split
  · exact wp_checkOpenEntries_tracked E (hloaded s h c) sessionDate runId
  rw [System.wp_bind, System.wp_attempt]
  have hrefresh : E.system.wp (protocolManager settings isIbkr hasReplacement
      hasHistory).refreshOpenOrders (fun _ τ' s' => Tracked base τ' s')
      (τ ++ [⟨.loadLatestEntries, .ok s.ledger⟩]) s := by
    unfold ExecutionManager.refreshOpenOrders
    rw [System.wp_bind]
    refine E.system.wp_mono (wp_reconcile_tracked E (hloaded s h c) hrows) ?_
    rintro out τ₁ s₁ htracked
    cases out with
    | stopped => exact htracked
    | raised e => exact htracked
    | returned summary =>
      rw [System.seq_returned]
      split <;> exact htracked
  refine E.system.wp_mono hrefresh ?_
  rintro out τ₁ s₁ htracked
  cases out with
  | stopped => exact htracked
  | raised e => exact htracked
  | returned refreshed =>
    rw [System.caught_returned, System.seq_returned]
    dsimp only
    rw [System.wp_bind, wp_loadLatest]
    refine ⟨htracked, fun c => ?_⟩
    exact wp_checkOpenEntries_tracked E (hloaded s₁ htracked c) sessionDate runId

end Turn

end Rules

end Poma
