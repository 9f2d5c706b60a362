import Poma.Broker.World
import Poma.Manager.StaleOrders

/-!
# What handling one row can record

Every row a reconcile pass records for an open entry is one of few shapes, each
with the sighting that led to it. The shapes are derived once from the branches
of the source; whatever holds of all of them holds of every pass.
-/

namespace Poma

open Interaction

/-- The row of an order the broker reports, before any timeout policy. -/
inductive Followed (entry : OrderLedgerEntry) (snapshot : OpenOrderSnapshot) :
    OrderLedgerEntry → Prop
  | kept (stamp : ℚ)
      (h : ∀ ref, entry.reservedRef = some ref →
        (entry.withSnapshot snapshot stamp).lifecycleState ≠ .cancelled ∧
        (entry.withSnapshot snapshot stamp).lifecycleState ∉ workingLifecycleStates) :
      Followed entry snapshot (entry.withSnapshot snapshot stamp)
  | released (stamp : ℚ) (ref : String) (h : entry.reservedRef = some ref) :
      Followed entry snapshot (entry.withSnapshot snapshot stamp).dropReservation

/-- A row the timeout policy may replace: for the first time, and from a price it knows. -/
structure OrderLedgerEntry.Replaceable (u : OrderLedgerEntry) : Prop where
  unreplaced : u.replaceCount = 0
  priced : u.limitPrice.isSome ∨ u.referencePrice.isSome

/-- The rows the timeout policy records for a reported working row. -/
inductive Acted (replies : OpenOrderSnapshot → Prop) (u : OrderLedgerEntry) :
    OrderLedgerEntry → Prop
  | cancelRequested (reason : String) : Acted replies u (u.cancelRequested reason)
  | intent (h : u.Replaceable) : Acted replies u u.replaceIntent
  | deferred (h : u.Replaceable) (message : String) :
      Acted replies u (u.replaceIntent.replaceDeferred message)
  | originalFilled (h : u.Replaceable) (snapshot : OpenOrderSnapshot)
      (hs : replies snapshot) (stamp : ℚ) :
      Acted replies u (u.filledFirst snapshot 1 stamp)
  | replaced (h : u.Replaceable) (snapshot : OpenOrderSnapshot) (hs : replies snapshot)
      (newLimit : ℚ) (metadata : Option QuoteMetadata) (now stamp : ℚ) :
      Acted replies u
        (u.replaceIntent.replacedBy (u.ledgerKey ++ ":r1") snapshot newLimit metadata now stamp)

/-- The order behind a row as a pass sees it: open, or else completed. -/
def sighting (entry : OrderLedgerEntry) (openSnapshots completed : List OpenOrderSnapshot) :
    Option (OpenOrderSnapshot × Bool) :=
  matchSnapshot entry openSnapshots <|> matchSnapshot entry completed

/-- The rows a pass can record for an open entry. -/
inductive Successor (replies : OpenOrderSnapshot → Prop) (entry : OrderLedgerEntry)
    (openSnapshots completed : List OpenOrderSnapshot) : OrderLedgerEntry → Prop
  | adopted (snapshot : OpenOrderSnapshot) (stamp : ℚ)
      (h : sighting entry openSnapshots completed = some (snapshot, true)) :
      Successor replies entry openSnapshots completed (adoptReplacement entry snapshot stamp)
  | followed (snapshot : OpenOrderSnapshot) (u : OrderLedgerEntry)
      (h : matchSnapshot entry openSnapshots = some (snapshot, false))
      (hu : Followed entry snapshot u) : Successor replies entry openSnapshots completed u
  | acted (snapshot : OpenOrderSnapshot) (u x : OrderLedgerEntry)
      (h : matchSnapshot entry openSnapshots = some (snapshot, false))
      (hu : Followed entry snapshot u) (hrecovered : u.isRecovered = false)
      (hworking : u.lifecycleState ∈ workingLifecycleStates) (hid : u.orderId.isSome)
      (hx : Acted replies u x) : Successor replies entry openSnapshots completed x
  | resumed (snapshot : OpenOrderSnapshot) (seen : ℚ) (ref : String)
      (h : sighting entry openSnapshots completed = some (snapshot, false))
      (href : entry.reservedRef = some ref)
      (hcancelled : (entry.withSnapshot snapshot seen).lifecycleState = .cancelled)
      (reply : OpenOrderSnapshot) (hreply : replies reply) (newLimit : ℚ)
      (metadata : Option QuoteMetadata) (now stamp : ℚ) :
      Successor replies entry openSnapshots completed
        ((entry.withSnapshot snapshot seen).reopened.replacedBy ref reply newLimit metadata now
          stamp)
  | closed (snapshot : OpenOrderSnapshot) (stamp : ℚ)
      (hopen : matchSnapshot entry openSnapshots = none)
      (h : matchSnapshot entry completed = some (snapshot, false))
      (hterminal : (entry.withSnapshot snapshot stamp).isTerminal) :
      Successor replies entry openSnapshots completed
        (entry.withSnapshot snapshot stamp).dropReservation
  | unverified (now : ℚ) (hopen : matchSnapshot entry openSnapshots = none)
      (h : ∀ snapshot adopts, matchSnapshot entry completed = some (snapshot, adopts) →
        snapshot.lifecycle ∉ terminalLifecycleStates) :
      Successor replies entry openSnapshots completed (closeUnreportedOpenEntry entry now)

/-- The update of a handling reports the row itself or the successor it recorded. -/
def Reports (replies : OpenOrderSnapshot → Prop) (entry : OrderLedgerEntry)
    (openSnapshots completed : List OpenOrderSnapshot) (update : ReconcileUpdate) : Prop :=
  update.entry = entry ∨ Successor replies entry openSnapshots completed update.entry

/-- A limit read off a quote of the row's ticker, where limits come from quotes. -/
def FreshLimit (quoted : List String → List (String × ExecutionQuote) → Prop)
    (settings : Settings) (u : OrderLedgerEntry) (newLimit : ℚ) : Prop :=
  settings.executionPriceSource = .ibkr → ∃ quotes quote data, quoted [u.ticker] quotes ∧
    quotes.lookup u.ticker = some quote ∧ escalatedLimit settings u quote = some (newLimit, data)

/-- The request to replace the working order of a row. -/
structure ReplaceOf (quoted : List String → List (String × ExecutionQuote) → Prop)
    (settings : Settings) (u : OrderLedgerEntry) (request : ReplaceRequest) : Prop where
  unfilled : u.Unfilled
  unreplaced : u.replaceCount = 0
  orderId : u.orderId = some request.orderId
  orderRef : request.orderRef = u.ledgerKey ++ ":r1"
  quantity : request.quantity = if u.remainingQty ≠ 0 then u.remainingQty else u.quantity
  limit : FreshLimit quoted settings u request.newLimitPrice

/-- The request to place the reserved replacement of a row reported cancelled. -/
structure ResumeOf (quoted : List String → List (String × ExecutionQuote) → Prop)
    (settings : Settings) (cancelled : OrderLedgerEntry) (request : ReplacementRequest) :
    Prop where
  unfilled : cancelled.Unfilled
  quantity : request.quantity = cancelled.openQuantity
  limit : FreshLimit quoted settings cancelled request.newLimitPrice

/-- What the broker methods a handling calls may do, and which records are granted. -/
structure HandlingMeets (manager : ExecutionManager)
    (rely : (o : Op) → Except Exn o.Ans → Prop) (guarantee : Op → Prop)
    (quoted : List String → List (String × ExecutionQuote) → Prop)
    (replies : OpenOrderSnapshot → Prop) (entry : OrderLedgerEntry)
    (openSnapshots completed : List OpenOrderSnapshot) : Prop where
  load : guarantee .loadLatestEntries
  clock : guarantee .utcNow
  quotes : ∀ tickers, (manager.broker.executionQuotes tickers).Meets (S := sig) rely guarantee
    (quoted tickers)
  cancel : ∀ snapshot u orderId, matchSnapshot entry openSnapshots = some (snapshot, false) →
    Followed entry snapshot u → u.isRecovered = false →
    u.lifecycleState ∈ workingLifecycleStates → u.Unfilled → u.orderId = some orderId →
    (manager.broker.cancelOrder orderId).Meets (S := sig) rely guarantee fun _ => True
  replace : ∀ snapshot u request, matchSnapshot entry openSnapshots = some (snapshot, false) →
    Followed entry snapshot u → u.isRecovered = false →
    u.lifecycleState ∈ workingLifecycleStates → ReplaceOf quoted manager.settings u request →
    (manager.broker.replaceOrder request).Meets (S := sig) rely guarantee replies
  submit : ∀ submit request snapshot seen, manager.broker.submitReplacement = some submit →
    sighting entry openSnapshots completed = some (snapshot, false) →
    (entry.withSnapshot snapshot seen).lifecycleState = .cancelled →
    entry.reservedRef = some request.orderRef →
    ResumeOf quoted manager.settings (entry.withSnapshot snapshot seen) request →
    (submit request).Meets (S := sig) rely guarantee replies
  record : ∀ x, Successor replies entry openSnapshots completed x → guarantee (.upsert x)

/-- The one replacement a row can reserve. -/
theorem OrderLedgerEntry.replaceIntent_ref (u : OrderLedgerEntry) (h : u.replaceCount = 0) :
    u.replaceIntent.replacementOrderRef = some (u.ledgerKey ++ ":r1") := by
  have hone : ":r" ++ (0 + 1).repr = ":r1" := by decide +kernel
  rw [OrderLedgerEntry.replaceIntent, h, String.append_assoc, hone]

/-- An escalation needs the reference price the row was recorded with. -/
theorem escalatedLimit_reference {settings : Settings} {u : OrderLedgerEntry}
    {quote : ExecutionQuote} {limit : ℚ × QuoteMetadata}
    (h : escalatedLimit settings u quote = some limit) : u.referencePrice.isSome := by
  cases hreference : u.referencePrice with
  | some price => rfl
  | none =>
    simp [escalatedLimit, hreference] at h

section Handling

variable {self : ExecutionManager} {rely : (o : Op) → Except Exn o.Ans → Prop}
  {guarantee : Op → Prop} {quoted : List String → List (String × ExecutionQuote) → Prop}
  {replies : OpenOrderSnapshot → Prop} {entry : OrderLedgerEntry}
  {openSnapshots completed : List OpenOrderSnapshot}

/-- A program that takes no action has nothing to show for one. -/
theorem meets_none {α : Type} {P : α → Prop} :
    (Prog.ret none : M (Option α)).Meets (S := sig) rely guarantee fun r =>
      ∀ a, r = some a → P a := by
  intro a ha
  cases ha

theorem meets_loadLatest (h : guarantee .loadLatestEntries) :
    loadLatest.Meets (S := sig) rely guarantee fun store => rely .loadLatestEntries (.ok store) :=
  Prog.meets_perform (S := sig) h

theorem meets_utcNow (h : guarantee .utcNow) :
    utcNow.Meets (S := sig) rely guarantee fun _ => True :=
  (Prog.meets_perform (S := sig) h).mono (fun _ ho => ho) fun _ _ => trivial

theorem meets_upsertEntry {x : OrderLedgerEntry} (h : guarantee (.upsert x)) :
    (upsertEntry x).Meets (S := sig) rely guarantee fun _ => True :=
  (Prog.meets_perform (S := sig) h).mono (fun _ ho => ho) fun _ _ => trivial


variable (hm : HandlingMeets self rely guarantee quoted replies entry openSnapshots completed)

include hm

theorem meets_report {x : OrderLedgerEntry} {action : Option ReconcileAction} {matched : Bool}
    (hx : Successor replies entry openSnapshots completed x) :
    (ExecutionManager.report x action matched).Meets (S := sig) rely guarantee
      (Reports replies entry openSnapshots completed) :=
  Prog.meets_bind (meets_upsertEntry (hm.record x hx)) fun _ _ => Or.inr hx

theorem meets_freshReplaceLimitPrice (u : OrderLedgerEntry) :
    (self.freshReplaceLimitPrice u).Meets (S := sig) rely guarantee fun fresh =>
      ∀ newLimit metadata, fresh = some (newLimit, metadata) →
        FreshLimit quoted self.settings u newLimit ∧
          (u.limitPrice.isSome ∨ u.referencePrice.isSome) := by
  unfold ExecutionManager.freshReplaceLimitPrice
  by_cases hsource : self.settings.executionPriceSource ≠ .ibkr
  · rw [if_pos hsource]
    intro newLimit metadata hfresh
    obtain ⟨limit, hlimit, _⟩ := Option.map_eq_some_iff.mp hfresh
    exact ⟨fun hibkr => absurd hibkr hsource, Or.inl (hlimit ▸ rfl)⟩
  · rw [if_neg hsource]
    refine Prog.meets_bind (hm.quotes _) fun quotes hquotes => ?_
    cases hlookup : quotes.lookup u.ticker with
    | none => exact nofun
    | some quote =>
      intro newLimit metadata hfresh
      obtain ⟨⟨limit, data⟩, hescalated, hpair⟩ := Option.map_eq_some_iff.mp hfresh
      obtain ⟨rfl, _⟩ := Prod.mk.inj hpair
      exact ⟨fun _ => ⟨quotes, quote, data, hquotes, hlookup, hescalated⟩,
        Or.inr (escalatedLimit_reference hescalated)⟩

/-- A resumed replacement is recorded as the reply of the broker. -/
theorem meets_resumeReplacement {snapshot : OpenOrderSnapshot} {seen : ℚ} {ref : String}
    {now : ℚ} (hsight : sighting entry openSnapshots completed = some (snapshot, false))
    (hcancelled : (entry.withSnapshot snapshot seen).lifecycleState = .cancelled)
    (href : entry.reservedRef = some ref) :
    (self.resumeReplacement (entry.withSnapshot snapshot seen) ref now).Meets (S := sig) rely
      guarantee fun resumed => ∀ x, resumed = some x → ∃ reply newLimit metadata stamp,
        replies reply ∧ x = (entry.withSnapshot snapshot seen).reopened.replacedBy ref reply
          newLimit metadata now stamp := by
  generalize hrow : entry.withSnapshot snapshot seen = cancelled at hcancelled
  unfold ExecutionManager.resumeReplacement
  split
  · exact meets_none
  rename_i hunfilled
  split
  · exact meets_none
  rename_i submit hsubmit
  split
  · exact meets_none
  split
  · exact meets_none
  split
  · exact meets_none
  refine Prog.meets_bind (meets_freshReplaceLimitPrice hm cancelled) fun fresh hfresh => ?_
  cases fresh with
  | none => exact meets_none
  | some fresh =>
    obtain ⟨newLimit, metadata⟩ := fresh
    have hresume : ResumeOf quoted self.settings cancelled
        ⟨cancelled.ticker, cancelled.side, cancelled.openQuantity, newLimit, ref⟩ :=
      ⟨not_lt.mp hunfilled, rfl, (hfresh newLimit metadata rfl).1⟩
    refine Prog.meets_bind (hm.submit submit _ snapshot seen hsubmit hsight
      (hrow ▸ hcancelled) href (hrow ▸ hresume)) fun reply hreply => ?_
    refine Prog.meets_bind (meets_utcNow hm.clock) fun stamp _ => ?_
    rintro x ⟨⟩
    exact ⟨reply, newLimit, metadata, stamp, hreply, rfl⟩

/-- What the timeout policy returns is a row it may record. -/
theorem meets_applyTimeoutPolicy {snapshot : OpenOrderSnapshot} {u : OrderLedgerEntry} {now : ℚ}
    (h : matchSnapshot entry openSnapshots = some (snapshot, false))
    (hu : Followed entry snapshot u) (hrecovered : u.isRecovered = false) :
    (self.applyTimeoutPolicy u now).Meets (S := sig) rely guarantee fun taken =>
      ∀ x, taken = some x → Successor replies entry openSnapshots completed x.1 := by
  unfold ExecutionManager.applyTimeoutPolicy
  by_cases hworking : u.lifecycleState ∉ workingLifecycleStates
  · rw [if_pos hworking]
    exact meets_none
  rw [if_neg hworking]
  have hwork : u.lifecycleState ∈ workingLifecycleStates := not_not.mp hworking
  cases secondsSince u.submittedAt now with
  | none => exact meets_none
  | some elapsed =>
    dsimp only
    cases hid : u.orderId with
    | none =>
      split
      · exact meets_none
      split <;> exact meets_none
    | some orderId =>
      have hsome : u.orderId.isSome := by rw [hid]; rfl
      have hacted : ∀ x, Acted replies u x → Successor replies entry openSnapshots completed x :=
        fun x hx => .acted snapshot u x h hu hrecovered hwork hsome hx
      split
      · rename_i hdue
        refine Prog.meets_bind (hm.cancel snapshot u orderId h hu hrecovered hwork hdue.2 hid)
          fun ok _ => ?_
        cases ok with
        | false => exact meets_none
        | true =>
          rintro x ⟨⟩
          exact hacted _ (.cancelRequested _)
      split
      · rename_i hreplace
        have hcount : u.replaceCount = 0 := by omega
        refine Prog.meets_bind (meets_freshReplaceLimitPrice hm u) fun fresh hfresh => ?_
        cases fresh with
        | none => exact meets_none
        | some fresh =>
          obtain ⟨newLimit, metadata⟩ := fresh
          have href := u.replaceIntent_ref hcount
          obtain ⟨hlimit, hpriced⟩ := hfresh newLimit metadata rfl
          have hfirst : u.Replaceable := ⟨hcount, hpriced⟩
          refine Prog.meets_bind (R := fun taken =>
            Successor replies entry openSnapshots completed taken.1) ?_ fun taken htaken => ?_
          · unfold ExecutionManager.replaceWorking
            refine Prog.meets_bind (meets_upsertEntry (hm.record _ (hacted _ (.intent hfirst))))
              fun _ _ => ?_
            have hof : ReplaceOf quoted self.settings u ⟨orderId, u.ticker, u.side,
                if u.remainingQty ≠ 0 then u.remainingQty else u.quantity, newLimit,
                u.replaceIntent.replacementOrderRef.getD ""⟩ :=
              ⟨hreplace.2.1, hcount, hid, by rw [href]; rfl, rfl, hlimit⟩
            refine Prog.meets_bind (Prog.meets_attempt (hm.replace snapshot u _ h hu hrecovered
              hwork hof)) fun r hr => ?_
            cases r with
            | error e =>
              cases e with
              | cancelNotConfirmed message => exact hacted _ (.deferred hfirst message)
              | _ => trivial
            | ok reply =>
              refine Prog.meets_bind (meets_utcNow hm.clock) fun stamp _ => ?_
              split
              · have hone : u.replaceIntent.replaceCount = 1 := by
                  simp [OrderLedgerEntry.replaceIntent, hcount]
                rw [hone]
                exact hacted _ (.originalFilled hfirst reply (hr reply rfl) stamp)
              · rw [href]
                exact hacted _ (.replaced hfirst reply (hr reply rfl) newLimit metadata now stamp)
          · rintro x ⟨⟩
            exact htaken
      · exact meets_none

theorem meets_followOpen {snapshot : OpenOrderSnapshot} {u : OrderLedgerEntry} {now : ℚ}
    (h : matchSnapshot entry openSnapshots = some (snapshot, false))
    (hu : Followed entry snapshot u) :
    (self.followOpen u now).Meets (S := sig) rely guarantee
      (Reports replies entry openSnapshots completed) := by
  unfold ExecutionManager.followOpen
  refine Prog.meets_bind (R := fun taken => ∀ x, taken = some x →
    Successor replies entry openSnapshots completed x.1) ?_ fun taken htaken => ?_
  · cases hrecovered : u.isRecovered with
    | true => exact meets_none
    | false => exact meets_applyTimeoutPolicy hm h hu hrecovered
  · cases taken with
    | none => exact meets_report hm (.followed snapshot u h hu)
    | some taken => exact meets_report hm (htaken taken rfl)

theorem meets_reconcileOpen {snapshot : OpenOrderSnapshot} {now : ℚ}
    (h : matchSnapshot entry openSnapshots = some (snapshot, false)) :
    (self.reconcileOpen entry snapshot now).Meets (S := sig) rely guarantee
      (Reports replies entry openSnapshots completed) := by
  unfold ExecutionManager.reconcileOpen
  refine Prog.meets_bind (meets_utcNow hm.clock) fun stamp _ => ?_
  dsimp only
  cases href : entry.reservedRef with
  | none =>
    exact meets_followOpen hm h (.kept stamp fun ref hsome => by simp [href] at hsome)
  | some ref =>
    have hsight : sighting entry openSnapshots completed = some (snapshot, false) := by
      rw [sighting, h]
      rfl
    dsimp only
    split
    · rename_i hcancelled
      refine Prog.meets_bind (meets_resumeReplacement hm hsight hcancelled href)
        fun resumed hresumed => ?_
      cases resumed with
      | none => exact meets_followOpen hm h (.released stamp ref href)
      | some x =>
        obtain ⟨reply, newLimit, metadata, stamp', hreply, rfl⟩ := hresumed x rfl
        exact meets_report hm (.resumed snapshot stamp ref hsight href hcancelled reply hreply
          newLimit metadata now stamp')
    · rename_i hnot
      split
      · exact meets_followOpen hm h (.released stamp ref href)
      · rename_i hworking
        exact meets_followOpen hm h (.kept stamp fun _ _ => ⟨hnot, hworking⟩)

theorem meets_reconcileUnreported {now : ℚ}
    (hopen : matchSnapshot entry openSnapshots = none)
    (h : ∀ snapshot adopts, matchSnapshot entry completed = some (snapshot, adopts) →
      snapshot.lifecycle ∉ terminalLifecycleStates) :
    (ExecutionManager.reconcileUnreported entry now).Meets (S := sig) rely guarantee
      (Reports replies entry openSnapshots completed) := by
  unfold ExecutionManager.reconcileUnreported
  split
  · exact Or.inl rfl
  · exact meets_report hm (.unverified now hopen h)

theorem meets_reconcileCompleted {snapshot : OpenOrderSnapshot} {now : ℚ}
    (hopen : matchSnapshot entry openSnapshots = none)
    (h : matchSnapshot entry completed = some (snapshot, false)) :
    (self.reconcileCompleted entry snapshot now).Meets (S := sig) rely guarantee
      (Reports replies entry openSnapshots completed) := by
  unfold ExecutionManager.reconcileCompleted
  refine Prog.meets_bind (meets_utcNow hm.clock) fun stamp _ => ?_
  dsimp only
  split
  · rename_i hterminal
    have hsight : sighting entry openSnapshots completed = some (snapshot, false) := by
      rw [sighting, hopen, h]
      rfl
    refine Prog.meets_bind (R := fun resumed => ∀ x, resumed = some x →
      Successor replies entry openSnapshots completed x) ?_ fun resumed hresumed => ?_
    · unfold ExecutionManager.resumeReserved
      cases href : entry.reservedRef with
      | none => exact meets_none
      | some ref =>
        dsimp only
        split
        · rename_i hcancelled
          refine (meets_resumeReplacement hm hsight hcancelled href).mono (fun _ ho => ho) ?_
          intro resumed hresumed x hx
          obtain ⟨reply, newLimit, metadata, stamp', hreply, rfl⟩ := hresumed x hx
          exact .resumed snapshot stamp ref hsight href hcancelled reply hreply newLimit metadata
            now stamp'
        · exact meets_none
    · cases resumed with
      | none => exact meets_report hm (.closed snapshot stamp hopen h hterminal)
      | some x => exact meets_report hm (hresumed x rfl)
  · rename_i hopened
    refine meets_reconcileUnreported hm hopen fun other adopts hother hterminal => hopened ?_
    obtain rfl : snapshot = other := (Prod.mk.inj (Option.some.inj (h.symm.trans hother))).1
    exact decide_eq_true hterminal

/-- Whatever is recorded while one row is handled is one of its successors. -/
theorem meets_reconcileEntry {now : ℚ} :
    (self.reconcileEntry entry openSnapshots completed now).Meets (S := sig) rely guarantee
      (Reports replies entry openSnapshots completed) := by
  unfold ExecutionManager.reconcileEntry
  split
  · rename_i snapshot h
    have hsight : sighting entry openSnapshots completed = some (snapshot, true) := by
      rw [sighting, h]
      rfl
    exact Prog.meets_bind (meets_utcNow hm.clock) fun stamp _ =>
      meets_report hm (.adopted snapshot stamp hsight)
  · rename_i snapshot h
    exact meets_reconcileOpen hm h
  · rename_i hopen
    split
    · rename_i snapshot h
      have hsight : sighting entry openSnapshots completed = some (snapshot, true) := by
        rw [sighting, hopen, h]
        rfl
      exact Prog.meets_bind (meets_utcNow hm.clock) fun stamp _ =>
        meets_report hm (.adopted snapshot stamp hsight)
    · rename_i snapshot h
      exact meets_reconcileCompleted hm hopen h
    · rename_i hnone
      refine meets_reconcileUnreported hm hopen fun snapshot adopts h => ?_
      rw [hnone] at h
      cases h

end Handling

/-- The row an update falls back to when the handling of its row failed. -/
def Reloaded (rely : (o : Op) → Except Exn o.Ans → Prop) (entry : OrderLedgerEntry)
    (update : ReconcileUpdate) : Prop :=
  ∃ store : OrderStore, rely .loadLatestEntries (.ok store) ∧
    update.entry = (store.get entry.ledgerKey).getD entry

/-- One turn of the loop of a pass records and reports successors of its row only. -/
theorem meets_handleEntry {self : ExecutionManager} {rely : (o : Op) → Except Exn o.Ans → Prop}
    {guarantee : Op → Prop} {Q : List String → List (String × ExecutionQuote) → Prop}
    {P : OpenOrderSnapshot → Prop} {entry : OrderLedgerEntry}
    {openSnapshots : List OpenOrderSnapshot} {history : Except Exn (List OpenOrderSnapshot)}
    {recovered : List OrderLedgerEntry} {now : ℚ}
    (hm : HandlingMeets self rely guarantee Q P entry openSnapshots
      (history.toOption.getD [])) :
    (self.handleEntry openSnapshots history recovered now entry).Meets (S := sig) rely guarantee
      fun update => Reports P entry openSnapshots (history.toOption.getD []) update ∨
        Reloaded rely entry update := by
  unfold ExecutionManager.handleEntry
  split
  · exact Or.inl (Or.inl rfl)
  · refine Prog.meets_catching (Prog.meets_bind (meets_reconcileEntry hm) fun update hupdate => ?_)
      fun e => Prog.meets_bind (meets_loadLatest hm.load) fun store hstore =>
        Or.inr ⟨store, hstore, rfl⟩
    refine Or.inl ?_
    split <;> exact hupdate

end Poma
