import Poma.Correctness.Ledgers

/-!
# Unattended follow-up

The follow-up of a row has one replacement to spend. It is spent by the row
recorded before the request, so no continuation, no later process and no
restored row gives it back.
-/

namespace Poma

open Interaction

/-- A request to replace the order of a key. -/
def Op.replaces (key : String) : Op → Bool
  | .broker (.replaceOrder request) => request.orderRef = key ++ ":r1"
  | _ => false

/-- How many times a trace asks to replace the order of a key. -/
def replaceCalls (key : String) (τ : List (Event sig)) : Nat :=
  τ.countP fun event => event.op.replaces key

/-- The replacements a row has left. -/
def OrderLedgerEntry.spare (row : OrderLedgerEntry) : Nat := if row.replaceCount = 0 then 1 else 0

/-- The replacements a key has left; one as long as it has no row. -/
def spareOf : Option OrderLedgerEntry → Nat
  | some row => row.spare
  | none => 1

/-- The replacements asked for and those left keep to a budget. -/
def Spent (key : String) (budget : Nat) (τ : List (Event sig))
    (latest : Option OrderLedgerEntry) : Prop :=
  replaceCalls key τ + spareOf latest ≤ budget

/-- An operation that asks for no replacement, and records no row with more left. -/
def Op.Quiet (key : String) (left : Nat) (o : Op) : Prop :=
  o.replaces key = false ∧ ∀ x, o = .upsert x → x.spare ≤ left

theorem Op.quiet_of_keeps {key : String} {left : Nat} {o : Op} (h : o.KeepsLedger)
    (hquiet : o.replaces key = false) : o.Quiet key left := by
  refine ⟨hquiet, ?_⟩
  rintro x rfl
  exact h.elim

theorem replaceCalls_append (key : String) (τ τ' : List (Event sig)) :
    replaceCalls key (τ ++ τ') = replaceCalls key τ + replaceCalls key τ' := List.countP_append

theorem replaceCalls_quiet {key : String} {o : Op} (h : o.replaces key = false)
    (r : Except Exn o.Ans) (τ : List (Event sig)) :
    replaceCalls key (τ ++ [⟨o, r⟩]) = replaceCalls key τ := by
  rw [replaceCalls_append]
  simp [replaceCalls, h]

theorem Spent.one {key : String} {budget : Nat} {τ : List (Event sig)}
    {latest : Option OrderLedgerEntry} (h : Spent key budget τ latest) {o : Op}
    (hquiet : o.replaces key = false) (r : Except Exn o.Ans) :
    Spent key budget (τ ++ [⟨o, r⟩]) latest := by
  rw [Spent, replaceCalls_quiet hquiet]
  exact h

theorem replaceCalls_grows {key : String} {τ τ' : List (Event sig)}
    (h : Grows (fun o => o.replaces key = false) τ τ') :
    replaceCalls key τ' = replaceCalls key τ := by
  obtain ⟨added, rfl, hadded⟩ := h
  have hnone : replaceCalls key added = 0 := by
    rw [replaceCalls, List.countP_eq_zero]
    intro event hevent
    rw [hadded event hevent]
    exact Bool.false_ne_true
  rw [replaceCalls_append, hnone, Nat.add_zero]

theorem replaceCalls_le_one (key : String) (o : Op) (r : Except Exn o.Ans)
    (τ : List (Event sig)) : replaceCalls key (τ ++ [⟨o, r⟩]) ≤ replaceCalls key τ + 1 := by
  rw [replaceCalls_append]
  exact Nat.add_le_add_left List.countP_le_length _

theorem OrderLedgerEntry.spare_le_one (row : OrderLedgerEntry) : row.spare ≤ 1 := by
  unfold OrderLedgerEntry.spare
  split <;> omega

theorem spareOf_le_one (latest : Option OrderLedgerEntry) : spareOf latest ≤ 1 := by
  cases latest with
  | none => exact le_rfl
  | some row => exact row.spare_le_one

section Turn

variable {W α : Type} (E : Environment W) {settings : Settings}
  {isIbkr hasReplacement hasHistory : Bool} {key : String} {budget left : Nat}

/-- A quiet program keeps to a budget that covers its records. -/
theorem wp_quiet {p : M α} {R : α → Prop}
    (hp : p.Meets (S := sig) (fun _ _ => True) (Op.Quiet key left) R) {τ : List (Event sig)}
    {s : World W} (hleft : replaceCalls key τ + left ≤ budget)
    (hs : Spent key budget τ (s.ledger.latest key)) :
    E.system.wp p (fun out τ' s' => replaceCalls key τ' = replaceCalls key τ ∧
      Spent key budget τ' (s'.ledger.latest key) ∧ ∀ a, out = .returned a → R a) τ s := by
  refine E.system.wp_mono (E.system.wp_of_meets (I := fun τ' s' =>
    replaceCalls key τ' = replaceCalls key τ ∧ Spent key budget τ' (s'.ledger.latest key)) hp ?_
    ⟨rfl, hs⟩) fun _ _ _ h => ⟨h.1.1, h.1.2, h.2⟩
  rintro o ⟨hquiet, hrecord⟩ c τ' s' ⟨hcalls, hspent⟩
  have hsame := replaceCalls_quiet hquiet (E.system.act c s' o).1 τ'
  refine ⟨trivial, hsame.trans hcalls, ?_⟩
  rw [Spent, hsame, act_ledger E c s' o]
  cases o with
  | upsert x =>
    dsimp only [Op.record?]
    rw [OrderStore.latest_upsert]
    split
    · have hx := hrecord x rfl
      rw [hcalls]
      exact (Nat.add_le_add_left hx _).trans hleft
    · exact hspent
  | _ => exact hspent

theorem freshReplaceLimitPrice_quiet (u : OrderLedgerEntry) :
    ((protocolManager settings isIbkr hasReplacement hasHistory).freshReplaceLimitPrice u).Uses
      (S := sig) (Op.Quiet key left) := by
  unfold ExecutionManager.freshReplaceLimitPrice
  split
  · trivial
  · refine Prog.uses_bind (Prog.uses_perform (S := sig) (Op.quiet_of_keeps trivial rfl)) fun quotes => ?_
    cases List.lookup u.ticker quotes <;> trivial

theorem submitReplacement_quiet {submit : ReplacementRequest → M OpenOrderSnapshot}
    (h : (protocolManager settings isIbkr hasReplacement hasHistory).broker.submitReplacement =
      some submit) (request : ReplacementRequest) :
    (submit request).Uses (S := sig) (Op.Quiet key left) := by
  cases hasReplacement with
  | false => cases h
  | true =>
    obtain rfl := Option.some.inj h
    exact Prog.uses_perform (S := sig) (Op.quiet_of_keeps trivial rfl)

/-- A request asks for at most one replacement and leaves the ledger as it is. -/
theorem wp_replaceCall (key : String) (call : BrokerCall) (τ : List (Event sig)) (s : World W) :
    E.system.wp (askBroker call).attempt (fun _ τ' s' => s'.ledger = s.ledger ∧
      replaceCalls key τ' ≤ replaceCalls key τ + 1) τ s := by
  rw [System.wp_attempt, wp_askBroker]
  refine ⟨⟨rfl, Nat.le_succ _⟩, fun c => ?_⟩
  split
  · exact ⟨rfl, replaceCalls_le_one ..⟩
  · exact ⟨rfl, replaceCalls_le_one ..⟩

/-- The replacement of a row is spent by the intent recorded before the request. -/
theorem wp_replaceWorking {u : OrderLedgerEntry} (hkey : u.ledgerKey = key) (orderId : Int)
    (newLimit : ℚ) (metadata : Option QuoteMetadata) (now : ℚ) {τ : List (Event sig)}
    {s : World W} (hleft : replaceCalls key τ + 1 ≤ budget)
    (hs : Spent key budget τ (s.ledger.latest key)) :
    E.system.wp ((protocolManager settings isIbkr hasReplacement hasHistory).replaceWorking u
      orderId newLimit metadata now) (fun out τ' s' =>
        Spent key budget τ' (s'.ledger.latest key) ∧
        ∀ taken, out = .returned taken → replaceCalls key τ' + taken.1.spare ≤ budget) τ s := by
  have hintent : (s.ledger.upsert u.replaceIntent).latest key = some u.replaceIntent :=
    OrderStore.latest_upsert_of_eq hkey
  unfold ExecutionManager.replaceWorking
  dsimp only
  rw [System.wp_bind, wp_upsertEntry]
  refine ⟨⟨hs, fun _ h => by cases h⟩, fun _ => ?_⟩
  have hcalls₁ : replaceCalls key (τ ++ [⟨.upsert u.replaceIntent, .ok ()⟩]) =
      replaceCalls key τ := replaceCalls_quiet rfl _ τ
  rw [System.seq_returned]
  have hspent : ∀ τ' (s' : World W), s'.ledger = s.ledger.upsert u.replaceIntent →
      replaceCalls key τ' ≤ replaceCalls key τ + 1 →
      Spent key budget τ' (s'.ledger.latest key) := by
    intro τ' s' hledger hcalls
    rw [Spent, hledger, hintent]
    exact hcalls.trans hleft
  refine E.system.wp_seq (wp_replaceCall E key _ _ _) ?_ ?_ ?_
  · rintro reply τ₂ s₂ ⟨hledger, hmore⟩
    have hcalls₂ := hmore.trans (Nat.add_le_add_right hcalls₁.le 1)
    have hleft₂ : replaceCalls key τ₂ + 0 ≤ budget := hcalls₂.trans hleft
    refine E.system.wp_mono (wp_quiet (R := fun taken => taken.1.spare = 0) E ?_ hleft₂
      (hspent τ₂ s₂ hledger hcalls₂)) ?_
    · cases reply with
      | error e =>
        cases e with
        | cancelNotConfirmed message => rfl
        | _ => trivial
      | ok snapshot =>
        refine Prog.meets_bind (meets_utcNow (Op.quiet_of_keeps trivial rfl)) fun stamp _ => ?_
        split
        · rfl
        · cases metadata <;> rfl
    · rintro out τ₃ s₃ ⟨hsame, hspent₃, hspare⟩
      refine ⟨hspent₃, fun taken hout => ?_⟩
      rw [hspare taken hout, hsame]
      exact hcalls₂.trans hleft
  · rintro e τ₂ s₂ ⟨hledger, hmore⟩
    exact ⟨hspent τ₂ s₂ hledger (hmore.trans (Nat.add_le_add_right hcalls₁.le 1)),
      fun _ h => by cases h⟩
  · rintro τ₂ s₂ ⟨hledger, hmore⟩
    exact ⟨hspent τ₂ s₂ hledger (hmore.trans (Nat.add_le_add_right hcalls₁.le 1)),
      fun _ h => by cases h⟩

/-- The replacements left after the policy took a row, or none. -/
def leftBy (u : OrderLedgerEntry) : Option (OrderLedgerEntry × ReconcileAction) → Nat
  | some taken => taken.1.spare
  | none => u.spare

theorem wp_applyTimeoutPolicy {u : OrderLedgerEntry} (hkey : u.ledgerKey = key) (now : ℚ)
    {τ : List (Event sig)} {s : World W} (hleft : replaceCalls key τ + u.spare ≤ budget)
    (hs : Spent key budget τ (s.ledger.latest key)) :
    E.system.wp ((protocolManager settings isIbkr hasReplacement hasHistory).applyTimeoutPolicy u
      now) (fun out τ' s' => Spent key budget τ' (s'.ledger.latest key) ∧
        ∀ taken, out = .returned taken → replaceCalls key τ' + leftBy u taken ≤ budget) τ s := by
  have hnone : E.system.wp (Prog.ret none : M (Option (OrderLedgerEntry × ReconcileAction)))
      (fun out τ' s' => Spent key budget τ' (s'.ledger.latest key) ∧
        ∀ taken, out = .returned taken → replaceCalls key τ' + leftBy u taken ≤ budget) τ s :=
    ⟨hs, by rintro _ ⟨⟩; exact hleft⟩
  unfold ExecutionManager.applyTimeoutPolicy
  split
  · exact hnone
  cases secondsSince u.submittedAt now with
  | none => exact hnone
  | some elapsed =>
    dsimp only
    split
    · cases u.orderId with
      | none => exact hnone
      | some orderId =>
        refine E.system.wp_mono (wp_quiet (R := fun taken => leftBy u taken = u.spare) E ?_ hleft
          hs) fun out τ' s' h => ⟨h.2.1, fun taken hout => by rw [h.1, h.2.2 taken hout]; exact hleft⟩
        refine Prog.meets_bind (R := fun _ => True)
          (.of_uses (Prog.uses_perform (S := sig) (Op.quiet_of_keeps trivial rfl)))
          fun (ok : Bool) _ => ?_
        cases ok <;> exact rfl
    split
    · rename_i hreplace
      have hcount : u.replaceCount = 0 := by omega
      have hone : u.spare = 1 := if_pos hcount
      cases u.orderId with
      | none => exact hnone
      | some orderId =>
        refine E.system.wp_seq (wp_quiet E (freshReplaceLimitPrice_quiet u) hleft hs) ?_
          (fun _ _ _ h => ⟨h.2.1, fun _ h => by cases h⟩)
          fun _ _ h => ⟨h.2.1, fun _ h => by cases h⟩
        rintro fresh τ₁ s₁ ⟨hcalls, hspent, _⟩
        have hleft₁ : replaceCalls key τ₁ + u.spare ≤ budget := hcalls ▸ hleft
        cases fresh with
        | none => exact ⟨hspent, by rintro _ ⟨⟩; exact hleft₁⟩
        | some fresh =>
          refine E.system.wp_seq (wp_replaceWorking E hkey orderId fresh.1 fresh.2 now
            (hone ▸ hleft₁) hspent) ?_ (fun _ _ _ h => ⟨h.1, fun _ h => by cases h⟩)
            fun _ _ h => ⟨h.1, fun _ h => by cases h⟩
          rintro taken τ₂ s₂ ⟨hspent₂, htaken⟩
          exact ⟨hspent₂, by rintro _ ⟨⟩; exact htaken taken rfl⟩
    · exact hnone

theorem report_quiet {x : OrderLedgerEntry} (h : x.spare ≤ left)
    (action : Option ReconcileAction) (matched : Bool) :
    (ExecutionManager.report x action matched).Uses (S := sig) (Op.Quiet key left) :=
  Prog.uses_bind (Prog.uses_perform (S := sig) ⟨rfl, by rintro _ ⟨⟩; exact h⟩) fun _ => trivial

theorem wp_followOpen {u : OrderLedgerEntry} (hkey : u.ledgerKey = key) (now : ℚ)
    {τ : List (Event sig)} {s : World W} (hleft : replaceCalls key τ + u.spare ≤ budget)
    (hs : Spent key budget τ (s.ledger.latest key)) :
    E.system.wp ((protocolManager settings isIbkr hasReplacement hasHistory).followOpen u now)
      (fun _ τ' s' => Spent key budget τ' (s'.ledger.latest key)) τ s := by
  unfold ExecutionManager.followOpen
  refine E.system.wp_seq (P := fun out τ' s' => Spent key budget τ' (s'.ledger.latest key) ∧
    ∀ taken, out = .returned taken → replaceCalls key τ' + leftBy u taken ≤ budget) ?_ ?_
    (fun _ _ _ h => h.1) fun _ _ h => h.1
  · split
    · exact ⟨hs, by rintro _ ⟨⟩; exact hleft⟩
    · exact wp_applyTimeoutPolicy E hkey now hleft hs
  · rintro taken τ₁ s₁ ⟨hspent, htaken⟩
    have hleft₁ := htaken taken rfl
    cases taken with
    | none =>
      exact E.system.wp_mono (wp_quiet E (report_quiet le_rfl none true) hleft₁ hspent)
        fun _ _ _ h => h.2.1
    | some taken =>
      exact E.system.wp_mono (wp_quiet E (report_quiet le_rfl (some taken.2) true) hleft₁ hspent)
        fun _ _ _ h => h.2.1

theorem reconcileUnreported_quiet (entry : OrderLedgerEntry) (now : ℚ) :
    (ExecutionManager.reconcileUnreported entry now).Uses (S := sig)
      (Op.Quiet key entry.spare) := by
  unfold ExecutionManager.reconcileUnreported
  split
  · trivial
  · exact report_quiet le_rfl _ _

/-- What a turn resumes has as many replacements left as the row. -/
theorem resumeReplacement_spare (u : OrderLedgerEntry) (ref : String) (now : ℚ) :
    ((protocolManager settings isIbkr hasReplacement hasHistory).resumeReplacement u ref
      now).Meets (S := sig) (fun _ _ => True) (Op.Quiet key left)
      fun resumed => ∀ x, resumed = some x → x.spare = u.spare := by
  have hnone : ∀ x, (none : Option OrderLedgerEntry) = some x → x.spare = u.spare :=
    fun _ h => by cases h
  unfold ExecutionManager.resumeReplacement
  split
  · exact hnone
  cases hsubmit : (protocolManager settings isIbkr hasReplacement
      hasHistory).broker.submitReplacement with
  | none => exact hnone
  | some submit =>
    dsimp only
    split
    · exact hnone
    split
    · exact hnone
    split
    · exact hnone
    refine Prog.meets_bind (freshReplaceLimitPrice_quiet u) fun fresh _ => ?_
    cases fresh with
    | none => exact hnone
    | some fresh =>
      refine Prog.meets_bind (submitReplacement_quiet hsubmit _) fun snapshot _ => ?_
      refine Prog.meets_bind (meets_utcNow (Op.quiet_of_keeps trivial rfl)) fun stamp _ => ?_
      rintro x ⟨⟩
      cases fresh.2 <;> rfl

theorem reconcileCompleted_quiet (entry : OrderLedgerEntry) (snapshot : OpenOrderSnapshot)
    (now : ℚ) :
    ((protocolManager settings isIbkr hasReplacement hasHistory).reconcileCompleted entry snapshot
      now).Uses (S := sig) (Op.Quiet key entry.spare) := by
  unfold ExecutionManager.reconcileCompleted
  refine Prog.uses_bind (Prog.uses_perform (S := sig) (Op.quiet_of_keeps trivial rfl))
    fun stamp => ?_
  dsimp only
  split
  · refine Prog.meets_bind (R := fun resumed => ∀ x, resumed = some x → x.spare = entry.spare) ?_
      fun resumed hresumed => ?_
    · unfold ExecutionManager.resumeReserved
      split
      · split
        · exact resumeReplacement_spare (entry.withSnapshot snapshot stamp) _ now
        · exact fun _ h => by cases h
      · exact fun _ h => by cases h
    · cases resumed with
      | none => exact report_quiet (Nat.le_of_eq rfl) _ _
      | some x => exact report_quiet (hresumed x rfl).le _ _
  · exact reconcileUnreported_quiet entry now

theorem wp_reconcileOpen_spent {entry : OrderLedgerEntry} (hkey : entry.ledgerKey = key)
    (snapshot : OpenOrderSnapshot) (now : ℚ) {τ : List (Event sig)} {s : World W}
    (hleft : replaceCalls key τ + entry.spare ≤ budget)
    (hs : Spent key budget τ (s.ledger.latest key)) :
    E.system.wp ((protocolManager settings isIbkr hasReplacement hasHistory).reconcileOpen entry
      snapshot now) (fun _ τ' s' => Spent key budget τ' (s'.ledger.latest key)) τ s := by
  unfold ExecutionManager.reconcileOpen
  have hclock : utcNow.Uses (S := sig) (Op.Quiet key entry.spare) :=
    Prog.uses_perform (S := sig) (Op.quiet_of_keeps trivial rfl)
  refine E.system.wp_seq (wp_quiet E hclock hleft hs) ?_ (fun _ _ _ h => h.2.1)
    fun _ _ h => h.2.1
  rintro stamp τ₁ s₁ ⟨hcalls, hs₁, _⟩
  have hleft₁ : replaceCalls key τ₁ + entry.spare ≤ budget := hcalls ▸ hleft
  have hfollow : ∀ (u : OrderLedgerEntry) τ' (s' : World W), u.ledgerKey = key →
      u.spare = entry.spare → replaceCalls key τ' + entry.spare ≤ budget →
      Spent key budget τ' (s'.ledger.latest key) →
      E.system.wp ((protocolManager settings isIbkr hasReplacement hasHistory).followOpen u now)
        (fun _ τ' s' => Spent key budget τ' (s'.ledger.latest key)) τ' s' :=
    fun u τ' s' hu hspare hleft' hs' => wp_followOpen E hu now (hspare ▸ hleft') hs'
  dsimp only
  split
  · exact hfollow _ τ₁ s₁ hkey rfl hleft₁ hs₁
  · rename_i ref _
    split
    · refine E.system.wp_seq (wp_quiet E (resumeReplacement_spare
        (entry.withSnapshot snapshot stamp) ref now) hleft₁ hs₁) ?_ (fun _ _ _ h => h.2.1)
        fun _ _ h => h.2.1
      rintro resumed τ₂ s₂ ⟨hcalls₂, hs₂, hresumed⟩
      have hleft₂ : replaceCalls key τ₂ + entry.spare ≤ budget := hcalls₂ ▸ hleft₁
      cases resumed with
      | none => exact hfollow _ τ₂ s₂ hkey rfl hleft₂ hs₂
      | some x =>
        exact E.system.wp_mono (wp_quiet E (report_quiet (hresumed _ rfl x rfl).le _ _) hleft₂ hs₂)
          fun _ _ _ h => h.2.1
    split
    · exact hfollow _ τ₁ s₁ hkey rfl hleft₁ hs₁
    · exact hfollow _ τ₁ s₁ hkey rfl hleft₁ hs₁

/-- The turn of a row keeps to what the row has left. -/
theorem wp_handleEntry_spent {entry : OrderLedgerEntry} (hkey : entry.ledgerKey = key)
    (openSnapshots : List OpenOrderSnapshot) (history : Except Exn (List OpenOrderSnapshot))
    (recovered : List OrderLedgerEntry) (now : ℚ) {τ : List (Event sig)} {s : World W}
    (hleft : replaceCalls key τ + entry.spare ≤ budget)
    (hs : Spent key budget τ (s.ledger.latest key)) :
    E.system.wp ((protocolManager settings isIbkr hasReplacement hasHistory).handleEntry
      openSnapshots history recovered now entry)
      (fun _ τ' s' => Spent key budget τ' (s'.ledger.latest key)) τ s := by
  have hquiet : ∀ {p : M ReconcileUpdate}, p.Uses (S := sig) (Op.Quiet key entry.spare) →
      E.system.wp p (fun _ τ' s' => Spent key budget τ' (s'.ledger.latest key)) τ s :=
    fun hp => E.system.wp_mono (wp_quiet E hp hleft hs) fun _ _ _ h => h.2.1
  have hentry : ∀ completed, E.system.wp ((protocolManager settings isIbkr hasReplacement
      hasHistory).reconcileEntry entry openSnapshots completed now)
      (fun _ τ' s' => Spent key budget τ' (s'.ledger.latest key)) τ s := by
    intro completed
    have hadopt : ∀ snapshot (action : ℚ → Option ReconcileAction), (utcNow.bind fun stamp =>
        ExecutionManager.report (adoptReplacement entry snapshot stamp) (action stamp) true).Uses
          (S := sig) (Op.Quiet key entry.spare) := fun snapshot action =>
      Prog.uses_bind (Prog.uses_perform (S := sig) (Op.quiet_of_keeps trivial rfl))
        fun stamp => report_quiet (Nat.le_of_eq rfl) _ _
    unfold ExecutionManager.reconcileEntry
    split
    · exact hquiet (hadopt _ _)
    · exact wp_reconcileOpen_spent E hkey _ now hleft hs
    split
    · exact hquiet (hadopt _ _)
    · exact hquiet (reconcileCompleted_quiet entry _ now)
    · exact hquiet (reconcileUnreported_quiet entry now)
  unfold ExecutionManager.handleEntry
  split
  · exact hs
  rw [Prog.catching, System.wp_bind, System.wp_attempt, System.wp_bind]
  refine E.system.wp_mono (hentry _) fun out τ' s' h => ?_
  cases out with
  | returned update => exact h
  | stopped => exact h
  | raised e =>
    rw [System.seq_raised, System.caught_raised, System.seq_returned, System.wp_bind, wp_loadLatest]
    refine ⟨h, fun _ => ?_⟩
    exact h.one (o := .loadLatestEntries) rfl (.ok s'.ledger)

theorem append_r1_inj {first second : String} (h : first ++ ":r1" = second ++ ":r1") :
    first = second := by
  have hlist := congrArg String.toList h
  rw [String.toList_append, String.toList_append] at hlist
  exact String.toList_injective (List.append_cancel_right hlist)

/-- The turns of other rows ask for no replacement of the key. -/
theorem aside_replaces (settings : Settings) (isIbkr hasReplacement hasHistory : Bool)
    (key : String) :
    Aside (protocolManager settings isIbkr hasReplacement hasHistory) key
      fun o => o.replaces key = false where
  load := rfl
  clock := rfl
  record _ _ := rfl
  openOrders := Prog.uses_perform (S := sig) rfl
  history entries openSnapshots := by
    refine completedSnapshots_uses (fun fetch hfetch => ?_) (fun wanted unresolved => ?_) entries
      openSnapshots
    · cases hasHistory with
      | false => cases hfetch
      | true =>
        obtain rfl := Option.some.inj hfetch
        exact Prog.uses_perform (S := sig)
          (show Op.replaces key (.broker .fetchCompletedOrderSnapshots) = false from rfl)
    · exact Prog.uses_perform (S := sig) (show Op.replaces key
        (.broker (.fetchIbkrCompletedOrderSnapshots wanted unresolved)) = false from rfl)
  other openSnapshots history recovered now entry hne := by
    refine (handleEntry_uses_ofTurn history recovered now).mono fun o ho => ?_
    cases o with
    | broker call =>
      cases call with
      | replaceOrder request =>
        obtain ⟨_, u, _, hu, _, hof⟩ := ho
        refine decide_eq_false fun href => hne ?_
        rw [← hu.sameOrder.ledgerKey]
        exact append_r1_inj (hof.orderRef.symm.trans href)
      | _ => rfl
    | _ => rfl

/-- A pass keeps to what a key has left. -/
theorem wp_reconcile_spent {τ : List (Event sig)} {s : World W}
    (hstore : s.ledger.All OrderLedgerEntry.Produced)
    (hs : Spent key budget τ (s.ledger.latest key)) :
    E.system.wp (protocolManager settings isIbkr hasReplacement hasHistory).reconcile
      (fun _ τ' s' => Spent key budget τ' (s'.ledger.latest key)) τ s := by
  have hB : (protocolManager settings isIbkr hasReplacement hasHistory).broker.Within
      Op.KeepsLedger := protocolManager_within
  have haside := aside_replaces settings isIbkr hasReplacement hasHistory key
  have hgrow : ∀ τ τ' row, Grows (fun o => o.replaces key = false) τ τ' →
      Spent key budget τ row → Spent key budget τ' row := by
    intro τ τ' row hτ h
    rw [Spent, replaceCalls_grows hτ]
    exact h
  have hentries : ∀ openSnapshots recovered τ₁ (s₁ : World W),
      Spent key budget τ₁ (s₁.ledger.latest key) →
      E.system.wp ((protocolManager settings isIbkr hasReplacement hasHistory).reconcileEntries
        openSnapshots recovered) (fun _ τ' s' => Spent key budget τ' (s'.ledger.latest key))
        τ₁ s₁ := by
    intro openSnapshots recovered τ₁ s₁ hs₁
    by_cases hidle : ∀ row, s₁.ledger.latest key = some row → row.isTerminal = true
    · refine E.system.wp_mono (wp_reconcileEntries_idle E hB haside openSnapshots recovered τ₁
        hidle) fun _ τ' s' h => ?_
      rw [h.2]
      exact hgrow _ _ _ h.1 hs₁
    · obtain ⟨entry, hentry⟩ := not_forall.mp hidle
      obtain ⟨hlatest, hopen⟩ := Classical.not_imp.mp hentry
      have hkey := OrderStore.latest_key hlatest
      subst hkey
      rw [hlatest] at hs₁
      refine E.system.wp_mono (wp_reconcileEntries_row E hB (by simpa using hopen) haside
        (H := fun _ => True) (fun _ _ h => h) hgrow (fun τ' hτ' => hgrow _ _ _ hτ' hs₁)
        (fun _ _ τ s => E.system.wp_mono (E.system.wp_true _ τ s) fun _ _ _ _ _ _ => trivial)
        (fun history recovered now τ' s' _ hτ' hlatest' => ?_) recovered hlatest)
        fun _ _ _ h => h.1
      have hspent := hgrow _ _ _ hτ' hs₁
      exact E.system.wp_mono (wp_handleEntry_spent E rfl openSnapshots history recovered now hspent
        (hlatest' ▸ hspent)) fun _ _ _ h => ⟨h, fun _ _ => h⟩
  have hload : ∀ τ₁ (s₁ : World W), Spent key budget τ₁ (s₁.ledger.latest key) →
      Spent key budget (τ₁ ++ [⟨Op.loadLatestEntries, .ok s₁.ledger⟩]) (s₁.ledger.latest key) :=
    fun τ₁ s₁ => hgrow _ _ _ (Grows.one haside.load τ₁)
  have hrestore : ∀ openSnapshots τ₁ (s₁ : World W), s₁.ledger = s.ledger →
      Spent key budget τ₁ (s₁.ledger.latest key) →
      E.system.wp (restoreUntrackedBrokerOrders openSnapshots)
        (fun _ τ' s' => Spent key budget τ' (s'.ledger.latest key)) τ₁ s₁ := by
    intro openSnapshots τ₁ s₁ hledger hs₁
    cases hlatest : s₁.ledger.latest key with
    | none =>
      rw [hlatest] at hs₁
      have huses : (restoreUntrackedBrokerOrders openSnapshots).Uses (S := sig)
          (Op.Quiet key 1) :=
        restoreUntrackedBrokerOrders_uses (Op.quiet_of_keeps trivial rfl)
          (Op.quiet_of_keeps trivial rfl)
          (fun _ _ _ _ _ _ => ⟨rfl, fun x _ => x.spare_le_one⟩) openSnapshots
      exact E.system.wp_mono (wp_quiet E huses hs₁ (hlatest ▸ hs₁)) fun _ _ _ h => h.2.1
    | some row =>
      have hkey := OrderStore.latest_key hlatest
      subst hkey
      have hshielded : row.Shielded openSnapshots :=
        (hstore row (hledger ▸ OrderStore.latest_mem hlatest)).shielded openSnapshots
      rw [restoreUntrackedBrokerOrders, System.wp_bind, wp_loadLatest]
      refine ⟨hs₁, fun _ => ?_⟩
      rw [System.seq_returned]
      have hread := hload τ₁ s₁ hs₁
      have hscan := restoreLoop_aside haside rfl hshielded [] hlatest
      refine E.system.wp_mono (E.system.wp_and (wp_restoreLoop E (X := True) openSnapshots hshielded
        [] _ s₁ hlatest (Or.inr trivial)) (wp_grows E hscan _ s₁)) fun _ τ' s' h => ?_
      rw [h.1.1, ← hlatest]
      exact hgrow _ _ _ h.2 hread
  unfold ExecutionManager.reconcile
  rw [System.wp_bind, wp_loadLatest]
  refine ⟨hs, fun _ => ?_⟩
  rw [System.seq_returned]
  split
  · exact hload τ s hs
  have hasked : E.system.wp (protocolManager settings isIbkr hasReplacement
      hasHistory).broker.fetchOpenOrderSnapshots (fun _ τ' s' => s'.ledger = s.ledger ∧
        Spent key budget τ' (s'.ledger.latest key)) (τ ++ [⟨Op.loadLatestEntries, .ok s.ledger⟩]) s :=
    E.system.wp_mono (E.system.wp_and (wp_keepsLedger E hB.openOrders _ s)
      (wp_grows E haside.openOrders _ s)) fun _ τ' s' h =>
        ⟨h.1, by rw [h.1]; exact hgrow _ _ _ h.2 (hload τ s hs)⟩
  refine E.system.wp_seq hasked ?_ (fun _ _ _ h => h.2) fun _ _ h => h.2
  rintro fetched τ₁ s₁ ⟨hledger, hs₁⟩
  rw [reconcileOpenOrders_eq]
  refine E.system.wp_seq (P := fun _ τ' s' => Spent key budget τ' (s'.ledger.latest key)) ?_
    (fun recovered τ₂ s₂ => hentries _ recovered τ₂ s₂) (fun _ _ _ h => h) fun _ _ h => h
  split
  · exact hrestore _ τ₁ s₁ hledger hs₁
  · exact hs₁

end Turn

/-- What processes do one after the other, each on the ledger the last one left. -/
def Step.traces : OrderStore → List Step → List (Event sig)
  | _, [] => []
  | store, step :: steps => (step.run store).trace ++ Step.traces (step.after store) steps

/-- An attempt asks for no replacement. -/
theorem Op.OfAttempt.quiet {store : OrderStore} {plan : RebalancePlan} {o : Op}
    (h : o.OfAttempt store plan) (key : String) : o.replaces key = false := by
  cases o with
  | broker call =>
    cases call with
    | replaceOrder request => exact h.elim
    | _ => rfl
  | _ => rfl

/-- Whatever a process does, it asks for no more replacements than the key had left. -/
theorem Step.spent {store : OrderStore} (hstore : store.All OrderLedgerEntry.Produced)
    (step : Step) (key : String) :
    replaceCalls key (step.run store).trace + spareOf ((step.after store).latest key) ≤
      spareOf (store.latest key) := by
  have hstore := hstore.atStart step.newProcess
  rw [← OrderStore.latest_atStart store step.newProcess key]
  unfold Step.after Step.run
  generalize store.atStart step.newProcess = store at hstore ⊢
  have hstart : Spent key (spareOf (store.latest key)) [] (store.latest key) :=
    (Nat.zero_add _).le
  refine openWorld.wp_run (p := step.program) (s := World.of store)
    (Q := fun _ τ s' => Spent key (spareOf (store.latest key)) τ (s'.ledger.latest key)) ?_
    step.choices
  unfold Step.program
  cases step.command with
  | reconcile => exact wp_bind_unit openEnvironment (wp_reconcile_spent openEnvironment hstore hstart)
  | checkStaleOrders sessionDate runId =>
    refine wp_bind_unit openEnvironment (wp_checkStaleOrders_row openEnvironment
      (A := fun o => o.replaces key = false) rfl (fun _ => rfl) (fun orderId =>
        Prog.uses_perform (S := sig) (o := Op.broker (.cancelOrder orderId)) ⟨rfl, trivial⟩) ?_ ?_
      sessionDate runId hstart fun τ hτ => wp_reconcile_spent openEnvironment hstore hτ)
    · intro τ τ' row hτ h
      rw [Spent, replaceCalls_grows hτ]
      exact h
    · exact fun _ _ _ _ _ _ h => h
  | submitPlan plan =>
    refine wp_bind_unit openEnvironment (openWorld.wp_mono
      (wp_submitPlan_ofAttempt openEnvironment plan [] hstore) ?_)
    rintro _ τ s' ⟨_, hgrows, hkept⟩
    have hcalls : replaceCalls key τ = 0 :=
      replaceCalls_grows ⟨hgrows.choose, hgrows.choose_spec.1, fun event hevent =>
        (hgrows.choose_spec.2 event hevent).quiet key⟩
    rw [Spent, hcalls, Nat.zero_add]
    by_cases hfresh : FreshKey store plan key
    · -- a reference an attempt may record has its replacement left
      obtain ⟨trade, hfresh, rfl⟩ := hfresh
      refine (spareOf_le_one _).trans ?_
      cases hlatest : store.latest trade.ref with
      | none => exact le_rfl
      | some row =>
        have hunplaced := (hstore row (OrderStore.latest_mem hlatest)).unplaced
          (hfresh.2 row hlatest)
        exact (if_pos hunplaced.unreplaced).ge
    · exact (congrArg spareOf (hkept key hfresh)).le

/-- Over any processes, the replacements asked for and those left never exceed those there were. -/
theorem Step.traces_spent {store : OrderStore} (hstore : store.All OrderLedgerEntry.Produced)
    (key : String) (steps : List Step) :
    replaceCalls key (Step.traces store steps) ≤ spareOf (store.latest key) := by
  induction steps generalizing store with
  | nil => exact Nat.zero_le _
  | cons step steps ih =>
    have hstep := step.spent hstore key
    have hrest := ih (step.after_produced hstore)
    rw [Step.traces, replaceCalls_append]
    omega

/-- A report of the live order of a row, which is not the replacement the row reserved. -/
def OrderLedgerEntry.ReportedBy (entry : OrderLedgerEntry) (snapshot : OpenOrderSnapshot) : Prop :=
  snapshot.orderRef = some entry.orderRef ∨
    (entry.matchesFamily snapshot = true ∧
      ∀ ref, entry.reservedRef = some ref → snapshot.orderRef ≠ some ref)

theorem matchSnapshot_false {entry : OrderLedgerEntry} {snapshots : List OpenOrderSnapshot}
    {snapshot : OpenOrderSnapshot} (h : matchSnapshot entry snapshots = some (snapshot, false)) :
    snapshot ∈ snapshots ∧ entry.ReportedBy snapshot := by
  unfold matchSnapshot at h
  split at h
  · rename_i found hfound
    obtain rfl : found = snapshot := congrArg Prod.fst (Option.some.inj h)
    exact ⟨List.mem_of_find?_eq_some hfound, Or.inl (by simpa using List.find?_some hfound)⟩
  split at h
  · cases h
  · rename_i hreserved
    obtain ⟨found, hfound, hpair⟩ := Option.map_eq_some_iff.mp h
    obtain rfl : found = snapshot := congrArg Prod.fst hpair
    have hmem := List.mem_of_find?_eq_some hfound
    refine ⟨hmem, Or.inr ⟨List.find?_some hfound, fun ref href hsame => ?_⟩⟩
    rw [href, Option.bind_some, List.find?_eq_none] at hreserved
    exact hreserved found hmem (decide_eq_true hsame)

/-- The lists of reports a trace was answered. -/
inductive ListedIn (τ : List (Event sig)) : List OpenOrderSnapshot → Prop
  | openOrders (reports : List OpenOrderSnapshot)
      (h : (⟨.broker .fetchOpenOrderSnapshots, .ok reports⟩ : Event sig) ∈ τ) : ListedIn τ reports
  | completed (reports : List OpenOrderSnapshot)
      (h : (⟨.broker .fetchCompletedOrderSnapshots, .ok reports⟩ : Event sig) ∈ τ) :
      ListedIn τ reports
  | ibkrCompleted (wanted : List String) (unresolved : List OrderLedgerEntry)
      (reports : List OpenOrderSnapshot)
      (h : (⟨.broker (.fetchIbkrCompletedOrderSnapshots wanted unresolved), .ok reports⟩ :
        Event sig) ∈ τ) : ListedIn τ reports

/-- A row a trace read from the ledger. -/
def ReadIn (τ : List (Event sig)) (entry : OrderLedgerEntry) : Prop :=
  ∃ store : OrderStore, (⟨.loadLatestEntries, .ok store⟩ : Event sig) ∈ τ ∧ entry ∈ store.entries

/-- The order of the row is reported open in the trace, and by this report. -/
def OpenIn (τ : List (Event sig)) (entry : OrderLedgerEntry) (snapshot : OpenOrderSnapshot) :
    Prop :=
  ∃ reports, (⟨.broker .fetchOpenOrderSnapshots, .ok reports⟩ : Event sig) ∈ τ ∧
    matchSnapshot entry (ExecutionManager.referenced reports) = some (snapshot, false)

/-- A request of an unattended pass rests on an open row, and on a report of its order in the
same pass that shows no fill beyond the tolerance. -/
def Op.RestsOn (tolerance : ℚ) (τ : List (Event sig)) : Op → Prop
  | .broker (.cancelOrder orderId) => ∃ entry snapshot, ReadIn τ entry ∧
      entry.isTerminal = false ∧ OpenIn τ entry snapshot ∧ snapshot.filled ≤ tolerance ∧
      (snapshot.orderId <|> entry.orderId) = some orderId
  | .broker (.replaceOrder request) => ∃ entry snapshot, ReadIn τ entry ∧
      entry.isTerminal = false ∧ OpenIn τ entry snapshot ∧ snapshot.filled ≤ tolerance ∧
      request.orderRef = entry.ledgerKey ++ ":r1" ∧
      (snapshot.orderId <|> entry.orderId) = some request.orderId
  | .broker (.submitReplacement request) => ∃ entry snapshot reports, ReadIn τ entry ∧
      entry.isTerminal = false ∧ ListedIn τ reports ∧ snapshot ∈ reports ∧
      entry.ReportedBy snapshot ∧ snapshot.lifecycle = .cancelled ∧ snapshot.filled ≤ tolerance ∧
      entry.reservedRef = some request.orderRef
  | _ => True

theorem Followed.reported {entry u : OrderLedgerEntry} {snapshot : OpenOrderSnapshot}
    (h : Followed entry snapshot u) :
    u.filledQty = snapshot.filled ∧ u.orderId = (snapshot.orderId <|> entry.orderId) := by
  cases h <;> exact ⟨rfl, rfl⟩

/-- The match of a row among the reports of a pass, in either of its lists. -/
theorem sighting_reported {entry : OrderLedgerEntry} {openSnapshots completed : List OpenOrderSnapshot}
    {snapshot : OpenOrderSnapshot}
    (h : sighting entry openSnapshots completed = some (snapshot, false)) :
    (snapshot ∈ openSnapshots ∨ snapshot ∈ completed) ∧ entry.ReportedBy snapshot := by
  unfold sighting at h
  cases hopen : matchSnapshot entry openSnapshots with
  | some found =>
    rw [hopen] at h
    obtain rfl : found = (snapshot, false) := Option.some.inj h
    exact ⟨Or.inl (matchSnapshot_false hopen).1, (matchSnapshot_false hopen).2⟩
  | none =>
    rw [hopen] at h
    exact ⟨Or.inr (matchSnapshot_false h).1, (matchSnapshot_false h).2⟩

/-- What a turn may do rests on the lists the turn was given. -/
theorem Op.OfTurn.restsOn {settings : Settings}
    {quoted : List String → List (String × ExecutionQuote) → Prop}
    {replies : OpenOrderSnapshot → Prop} {entry : OrderLedgerEntry}
    {fetched completed : List OpenOrderSnapshot} {τ : List (Event sig)} {o : Op}
    (h : o.OfTurn settings quoted replies entry (ExecutionManager.referenced fetched) completed)
    (hread : ReadIn τ entry) (hisOpen : entry.isTerminal = false)
    (hfetched : (⟨.broker .fetchOpenOrderSnapshots, .ok fetched⟩ : Event sig) ∈ τ)
    (hcompleted : ∀ snapshot ∈ completed, ∃ reports, ListedIn τ reports ∧ snapshot ∈ reports) :
    o.RestsOn fillTolerance τ := by
  cases o with
  | broker call =>
    cases call with
    | cancelOrder orderId =>
      obtain ⟨snapshot, u, hmatch, hu, hunfilled, hid⟩ := h
      refine ⟨entry, snapshot, hread, hisOpen, ⟨fetched, hfetched, hmatch⟩, ?_, ?_⟩
      · exact hu.reported.1 ▸ hunfilled
      · exact hu.reported.2 ▸ hid
    | replaceOrder request =>
      obtain ⟨snapshot, u, hmatch, hu, _, hof⟩ := h
      refine ⟨entry, snapshot, hread, hisOpen, ⟨fetched, hfetched, hmatch⟩, ?_, ?_, ?_⟩
      · exact hu.reported.1 ▸ hof.unfilled
      · rw [hof.orderRef, hu.sameOrder.ledgerKey]
      · exact hu.reported.2 ▸ hof.orderId
    | submitReplacement request =>
      obtain ⟨snapshot, seen, hsight, hcancelled, href, hof⟩ := h
      obtain ⟨hmem, hreported⟩ := sighting_reported hsight
      obtain ⟨reports, hlisted, hmem⟩ : ∃ reports, ListedIn τ reports ∧ snapshot ∈ reports :=
        hmem.elim (fun h => ⟨fetched, .openOrders fetched hfetched, List.mem_of_mem_filter h⟩)
          (hcompleted snapshot)
      exact ⟨entry, snapshot, reports, hread, hisOpen, hlisted, hmem, hreported, hcancelled,
        hof.unfilled, href⟩
    | _ => trivial
  | _ => trivial

section Pass

variable {settings : Settings} {isIbkr hasReplacement hasHistory : Bool}

/-- The history a pass works with was listed to it. -/
theorem meets_completedSnapshots_listed {guarantee : Op → Prop} (τ : List (Event sig))
    (hcompleted : guarantee (.broker .fetchCompletedOrderSnapshots))
    (hibkr : ∀ wanted unresolved,
      guarantee (.broker (.fetchIbkrCompletedOrderSnapshots wanted unresolved)))
    (entries : List OrderLedgerEntry) (openSnapshots : List OpenOrderSnapshot) :
    ((protocolManager settings isIbkr hasReplacement hasHistory).completedSnapshots entries
      openSnapshots).Meets (S := sig) (AnsweredIn τ) guarantee fun history =>
        ∀ snapshot ∈ history.toOption.getD [], ∃ reports, ListedIn τ reports ∧
          snapshot ∈ reports := by
  have hquery : ∀ unmatched, ((protocolManager settings isIbkr hasReplacement
      hasHistory).completedHistory unmatched).Meets (S := sig) (AnsweredIn τ) guarantee
        fun reports => reports = [] ∨ ListedIn τ reports := by
    intro unmatched
    unfold ExecutionManager.completedHistory protocolManager protocolBroker
    cases hasHistory with
    | true =>
      exact (Prog.meets_perform (S := sig) (o := Op.broker .fetchCompletedOrderSnapshots)
        hcompleted).mono (fun _ ho => ho) fun reports h => Or.inr (.completed reports h)
    | false =>
      cases isIbkr with
      | true =>
        exact (Prog.meets_perform (S := sig)
          (o := Op.broker (.fetchIbkrCompletedOrderSnapshots _ unmatched)) (hibkr _ unmatched)).mono
          (fun _ ho => ho) fun reports h => Or.inr (.ibkrCompleted _ unmatched reports h)
      | false => exact Or.inl rfl
  unfold ExecutionManager.completedSnapshots
  dsimp only
  split
  · exact fun _ h => absurd h List.not_mem_nil
  refine Prog.meets_bind (Prog.meets_attempt (hquery _)) fun result hresult => ?_
  cases result with
  | error e => exact fun _ h => absurd h List.not_mem_nil
  | ok reports =>
    intro snapshot hmem
    have hmem : snapshot ∈ reports := List.mem_of_mem_filter hmem
    rcases hresult reports rfl with rfl | hlisted
    · exact absurd hmem List.not_mem_nil
    · exact ⟨reports, hlisted, hmem⟩

/-- Relying on a trace that holds its answers, a pass asks for what rests on these. -/
theorem reconcile_restsOn (τ : List (Event sig)) :
    (protocolManager settings isIbkr hasReplacement hasHistory).reconcile.Meets (S := sig)
      (AnsweredIn τ) (Op.RestsOn fillTolerance τ) fun _ => True := by
  refine reconcile_meets_of (R := ReadIn τ)
    (O := fun openSnapshots => ∃ fetched,
      (⟨.broker .fetchOpenOrderSnapshots, .ok fetched⟩ : Event sig) ∈ τ ∧
        openSnapshots = ExecutionManager.referenced fetched)
    (H := fun _ history => ∀ snapshot ∈ history.toOption.getD [], ∃ reports, ListedIn τ reports ∧
      snapshot ∈ reports) trivial trivial (fun store hstore row hrow => ⟨store, hstore, hrow⟩)
    (fun _ _ _ _ _ _ => trivial) ?_ (fun entries openSnapshots _ =>
      meets_completedSnapshots_listed τ trivial (fun _ _ => trivial) entries openSnapshots) ?_
  · exact (Prog.meets_perform (S := sig) (o := Op.broker .fetchOpenOrderSnapshots) trivial).mono
      (fun _ ho => ho) fun fetched h => ⟨fetched, h, rfl⟩
  · rintro _ history recovered now entry ⟨fetched, hfetched, rfl⟩ hhistory hread hisOpen
    exact (meets_handleEntry_ofTurn τ history recovered now).mono
      (fun o ho => ho.restsOn hread hisOpen hfetched hhistory) fun _ _ => trivial

/-- In a pass on any ledger, every request rests on what the pass read and was told. -/
theorem run_reconcile_restsOn {W : Type} (E : Environment W) (cs : List E.Choice) (s : World W) :
    let run := E.system.run (protocolManager settings isIbkr hasReplacement hasHistory).reconcile cs s
    ∀ event ∈ run.trace, event.op.RestsOn fillTolerance run.trace :=
  (E.system.run_of_meets (reconcile_restsOn _) cs s fun _ h => h).1

end Pass

/-- An operation of the timeout policy on a working order. -/
def Op.CancelsOrReplaces : Op → Prop
  | .broker (.cancelOrder _) => True
  | .broker (.replaceOrder _) => True
  | _ => False

/-- The turn of a row in a pass that was given these lists, on some world. -/
structure Turn where
  settings : Settings
  isIbkr : Bool
  hasReplacement : Bool
  hasHistory : Bool
  entry : OrderLedgerEntry
  openSnapshots : List OpenOrderSnapshot
  history : Except Exn (List OpenOrderSnapshot)
  recovered : List OrderLedgerEntry
  now : ℚ
  store : OrderStore
  choices : List openWorld.Choice

/-- What the turn does. -/
def Turn.trace (turn : Turn) : List (Event sig) :=
  (openWorld.run ((protocolManager turn.settings turn.isIbkr turn.hasReplacement
    turn.hasHistory).handleEntry turn.openSnapshots turn.history turn.recovered turn.now turn.entry)
    turn.choices (World.of turn.store)).trace

/-- A turn cancels or replaces only where the latest report of the row shows no fill. -/
theorem Turn.unfilled_of_acts (turn : Turn) :
    ∀ event ∈ turn.trace, event.op.CancelsOrReplaces → ∃ snapshot,
      matchSnapshot turn.entry turn.openSnapshots = some (snapshot, false) ∧
        snapshot.filled ≤ fillTolerance := by
  intro event hevent hacts
  have hof := System.mem_trace_of_uses openWorld (handleEntry_uses_ofTurn turn.history
    turn.recovered turn.now) turn.choices (World.of turn.store) event hevent
  generalize event.op = o at hof hacts
  cases o with
  | broker call =>
    cases call with
    | cancelOrder orderId =>
      obtain ⟨snapshot, u, hmatch, hu, hunfilled, _⟩ := hof
      exact ⟨snapshot, hmatch, hu.reported.1 ▸ hunfilled⟩
    | replaceOrder request =>
      obtain ⟨snapshot, u, hmatch, hu, _, hreplace⟩ := hof
      exact ⟨snapshot, hmatch, hu.reported.1 ▸ hreplace.unfilled⟩
    | _ => exact hacts.elim
  | _ => exact hacts.elim

/-- An order is replaced at most once in its life, every request of a pass rests on a report that
shows no fill beyond the tolerance, and no turn touches an order whose report shows one. -/
theorem follow_up_once_and_unfilled :
    (∀ (key : String) (steps : List Step), replaceCalls key (Step.traces .empty steps) ≤ 1) ∧
    (∀ (store : OrderStore) (step : Step), step.command = .reconcile →
      ∀ event ∈ (step.run store).trace,
        event.op.RestsOn fillTolerance (step.run store).trace) ∧
    ∀ (turn : Turn), ∀ event ∈ turn.trace, event.op.CancelsOrReplaces → ∃ snapshot,
      matchSnapshot turn.entry turn.openSnapshots = some (snapshot, false) ∧
        snapshot.filled ≤ fillTolerance := by
  refine ⟨fun key steps => Step.traces_spent Reached.empty.produced key steps, ?_,
    Turn.unfilled_of_acts⟩
  intro store step hcommand
  have hrun := System.wp_run openWorld (p := step.program)
    (s := World.of (store.atStart step.newProcess))
    (Q := fun _ τ _ => ∀ event ∈ τ, event.op.RestsOn fillTolerance τ) ?_ step.choices
  · exact hrun
  unfold Step.program
  rw [hcommand]
  refine wp_bind_unit openEnvironment (System.wp_mono _ (System.wp_own_run _ _ [] _) ?_)
  rintro out τ s' ⟨cs, _, rfl, _⟩
  exact run_reconcile_restsOn openEnvironment cs (World.of (store.atStart step.newProcess))

/-- A report of an order of one share. -/
def sellReport (ref rawStatus : String) (orderId : Int) (filled : ℚ) : OpenOrderSnapshot :=
  ⟨some ref, some orderId, none, "VTI", .sell, rawStatus, filled, 1, none⟩

/-- A broker that accepts an order, does not confirm its cancellation in time, and later places
the replacement. -/
def deferringBroker (clock : ℚ) (openOrders completedOrders : List OpenOrderSnapshot) :
    Oracle where
  clock := clock
  answer
    | .broker (.submitTrades _) => .ok (0 : Nat)
    | .broker .submitResults => .ok [⟨"VTI", .sell, 1, 100, some 7, "Submitted", 0, none, none,
        some "poma:run:0:VTI:SELL", none⟩]
    | .broker (.replaceOrder _) => .error (.cancelNotConfirmed "cancellation is not confirmed")
    | .broker (.submitReplacement request) => .ok (sellReport request.orderRef "Submitted" 8 0)
    | o => (listsOnly clock openOrders completedOrders).answer o

/-- A process with that broker, which prices its orders without quotes. -/
def deferringStep (command : Command) (clock : ℚ)
    (openOrders completedOrders : List OpenOrderSnapshot) : Step where
  settings := .fromSnapshot
  isIbkr := true
  hasReplacement := true
  hasHistory := false
  command := command
  choices := List.replicate 30 (deferringBroker clock openOrders completedOrders)

/-- A plan that sells one share. -/
def sellPlan : RebalancePlan where
  runId := "run"
  sessionDate := "2026-01-02"
  trades := [⟨"VTI", .sell, 1, 100, 100, some 100, "drift", none, "snapshot", "snapshot_price",
    none, none, none⟩]

/-- One share is sold, its order times out, and its cancellation is confirmed in a later pass. -/
def deferredSteps (filled : ℚ) : List Step :=
  [deferringStep (.submitPlan sellPlan) 0 [] [],
    deferringStep .reconcile 130 [sellReport "poma:run:0:VTI:SELL" "Submitted" 7 0] [],
    deferringStep .reconcile 200 [] [sellReport "poma:run:0:VTI:SELL" "Cancelled" 7 filled]]

/-- The order is replaced once, and what was deferred is placed later. -/
theorem follow_up_once_and_unfilled_deferred :
    replaceCalls "poma:run:0:VTI:SELL" (Step.traces .empty (deferredSteps 0)) = 1 ∧
      ∀ store, ∀ event ∈ ((deferringStep .reconcile 200 [] []).run store).trace,
        event.op.RestsOn fillTolerance ((deferringStep .reconcile 200 [] []).run store).trace := by
  refine ⟨Nat.le_antisymm (follow_up_once_and_unfilled.1 _ _) ?_, fun store =>
    follow_up_once_and_unfilled.2.1 store _ rfl⟩
  decide +kernel

/-- The ledger the first two of the processes leave. -/
def deferredLedger : OrderStore :=
  (deferredSteps 0).take 2 |>.foldl (fun store step => step.after store) .empty

theorem deferredLedger_reached : Reached deferredLedger := .step (.step .empty _) _

/-- The process in which the order turns out cancelled with a fill below the tolerance. -/
def resumingStep : Step :=
  deferringStep .reconcile 200 []
    [sellReport "poma:run:0:VTI:SELL" "Cancelled" 7 (1 / 2000000000)]

/-- Whether an operation places a reserved replacement. -/
def Op.submitsReplacement : Op → Bool
  | .broker (.submitReplacement _) => true
  | _ => false

theorem Op.submitsReplacement_iff {o : Op} :
    o.submitsReplacement = true ↔ ∃ request, o = .broker (.submitReplacement request) := by
  constructor
  · intro h
    cases o with
    | broker call =>
      cases call with
      | submitReplacement request => exact ⟨request, rfl⟩
      | _ => cases h
    | _ => cases h
  · rintro ⟨request, rfl⟩
    rfl

/-- Whether a list of reports that was answered shows a fill in each. -/
def showsFills : (o : Op) → Except Exn o.Ans → Bool
  | .broker .fetchOpenOrderSnapshots, .ok reports =>
    List.all (α := OpenOrderSnapshot) reports fun snapshot => 0 < snapshot.filled
  | .broker .fetchCompletedOrderSnapshots, .ok reports =>
    List.all (α := OpenOrderSnapshot) reports fun snapshot => 0 < snapshot.filled
  | .broker (.fetchIbkrCompletedOrderSnapshots _ _), .ok reports =>
    List.all (α := OpenOrderSnapshot) reports fun snapshot => 0 < snapshot.filled
  | _, _ => true

/-- A reserved replacement is placed although its original was filled, by less than the
tolerance. -/
theorem replacement_without_zero_fill :
    ¬∀ (store : OrderStore) (step : Step), Reached store → step.command = .reconcile →
      ∀ event ∈ (step.run store).trace, ∀ request, event.op = .broker (.submitReplacement request) →
        event.op.RestsOn 0 (step.run store).trace := by
  intro h
  have hfills : ((resumingStep.run deferredLedger).trace.all fun event =>
      showsFills event.op event.ans) = true := by decide +kernel
  have hasked : ((resumingStep.run deferredLedger).trace.any fun event =>
      event.op.submitsReplacement) = true := by decide +kernel
  obtain ⟨event, hevent, hop⟩ := List.any_eq_true.mp hasked
  obtain ⟨request, hrequest⟩ := Op.submitsReplacement_iff.mp hop
  have hrests := h deferredLedger resumingStep deferredLedger_reached rfl event hevent request hrequest
  rw [hrequest] at hrests
  obtain ⟨_, snapshot, reports, _, _, hlisted, hmem, _, _, hfilled, _⟩ := hrests
  have hpositive : (reports.all fun snapshot => 0 < snapshot.filled) = true := by
    cases hlisted with
    | openOrders _ hin => exact List.all_eq_true.mp hfills _ hin
    | completed _ hin => exact List.all_eq_true.mp hfills _ hin
    | ibkrCompleted _ _ _ hin => exact List.all_eq_true.mp hfills _ hin
  have hfill : 0 < snapshot.filled := of_decide_eq_true (List.all_eq_true.mp hpositive _ hmem)
  exact absurd hfilled (not_le.mpr hfill)

end Poma
