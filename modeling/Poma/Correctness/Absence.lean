import Poma.Correctness.Ledgers

/-!
# Absence is never proof

Over any number of passes a row is closed only on a report of its order, or on
the reply to a replacement of it, that is terminal. A row the broker does not
report stays open with its identity and its fills, and a failed history query
leaves it untouched.
-/

namespace Poma

open Interaction

/-- The evidence of a pass on a row: a report matched to it, or the reply to its replacement. -/
def Pass.Shows (p : Pass) (store : OrderStore) (row : OrderLedgerEntry)
    (snapshot : OpenOrderSnapshot) : Prop :=
  (∃ openOrders adopts, p.reports.openOrders = .ok openOrders ∧
    matchSnapshot row (ExecutionManager.referenced openOrders) = some (snapshot, adopts)) ∨
  (∃ completed adopts, p.reports.completed = .ok completed ∧
    matchSnapshot row (ExecutionManager.referenced completed) = some (snapshot, adopts)) ∨
  RepliedFor row (p.run store).trace snapshot

/-- The open orders of the pass have no match of the row. -/
def Pass.NotOpen (p : Pass) (row : OrderLedgerEntry) : Prop :=
  ∀ openOrders, p.reports.openOrders = .ok openOrders →
    matchSnapshot row (ExecutionManager.referenced openOrders) = none

/-- Neither list of the pass has a match of the row. -/
def Pass.Misses (p : Pass) (row : OrderLedgerEntry) : Prop :=
  p.NotOpen row ∧ ∀ completed, p.reports.completed = .ok completed →
    matchSnapshot row (ExecutionManager.referenced completed) = none

/-- A later row of an order that is still open and still the same broker order. -/
structure OrderLedgerEntry.StillOpen (row x : OrderLedgerEntry) : Prop where
  ledgerKey : x.ledgerKey = row.ledgerKey
  isOpen : x.isTerminal = false
  orderId : x.orderId = row.orderId
  permId : x.permId = row.permId
  filledQty : x.filledQty = row.filledQty

/-- What a pass may do to the open row of a key. -/
structure Pass.HonoursAbsence (key : String) (store : OrderStore) (p : Pass) : Prop where
  closed : ∀ row x, store.latest key = some row → row.isTerminal = false →
    (p.after store).latest key = some x → x.isTerminal = true →
      ∃ snapshot, p.Shows store row snapshot ∧ snapshot.lifecycle ∈ terminalLifecycleStates
  missed : ∀ row, store.latest key = some row → row.isTerminal = false → p.Misses row →
    ∃ x ∈ (p.after store).loadOpenOrders, row.StillOpen x
  failed : ∀ row e, store.latest key = some row → row.isTerminal = false → p.NotOpen row →
    p.reports.completed = .error e → (p.after store).latest key = some row

/-- The pass does not show the order of a key. -/
def Pass.MissesKey (key : String) (store : OrderStore) (p : Pass) : Prop :=
  ∀ row, store.latest key = some row → p.Misses row

theorem OrderLedgerEntry.StillOpen.refl {row : OrderLedgerEntry} (h : row.isTerminal = false) :
    row.StillOpen row := ⟨rfl, h, rfl, rfl, rfl⟩

theorem OrderLedgerEntry.StillOpen.trans {a b c : OrderLedgerEntry} (hab : a.StillOpen b)
    (hbc : b.StillOpen c) : a.StillOpen c :=
  ⟨hbc.ledgerKey.trans hab.ledgerKey, hbc.isOpen, hbc.orderId.trans hab.orderId,
    hbc.permId.trans hab.permId, hbc.filledQty.trans hab.filledQty⟩

theorem closeUnreportedOpenEntry_stillOpen (row : OrderLedgerEntry) (now : ℚ) :
    row.StillOpen (closeUnreportedOpenEntry row now) := ⟨rfl, rfl, rfl, rfl, rfl⟩

/-- A row is as terminal as the report it was updated from. -/
theorem OrderLedgerEntry.withSnapshot_isTerminal (entry : OrderLedgerEntry)
    (snapshot : OpenOrderSnapshot) (stamp : ℚ) :
    (entry.withSnapshot snapshot stamp).isTerminal = true ↔
      snapshot.lifecycle ∈ terminalLifecycleStates := decide_eq_true_iff

theorem OrderLedgerEntry.replacedBy_isTerminal (entry : OrderLedgerEntry) (ref : String)
    (snapshot : OpenOrderSnapshot) (newLimit : ℚ) (metadata : Option QuoteMetadata)
    (now stamp : ℚ) :
    (entry.replacedBy ref snapshot newLimit metadata now stamp).isTerminal = true ↔
      snapshot.lifecycle ∈ terminalLifecycleStates := by
  cases metadata <;> exact decide_eq_true_iff

theorem Followed.isTerminal {entry u : OrderLedgerEntry} {snapshot : OpenOrderSnapshot}
    (h : Followed entry snapshot u) :
    u.isTerminal = true ↔ snapshot.lifecycle ∈ terminalLifecycleStates := by
  cases h <;> exact decide_eq_true_iff

/-- What the timeout policy records is terminal only by a reply. -/
theorem Acted.terminal_reply {replies : OpenOrderSnapshot → Prop} {u x : OrderLedgerEntry}
    (h : Acted replies u x) (hterminal : x.isTerminal = true) :
    ∃ snapshot, replies snapshot ∧ snapshot.lifecycle ∈ terminalLifecycleStates := by
  cases h with
  | cancelRequested reason => cases hterminal
  | intent h => cases hterminal
  | deferred h message => cases hterminal
  | originalFilled h reply hs stamp => exact ⟨reply, hs, decide_eq_true_iff.mp hterminal⟩
  | replaced h reply hs newLimit metadata now stamp =>
    exact ⟨reply, hs, (OrderLedgerEntry.replacedBy_isTerminal ..).mp hterminal⟩

/-- A successor is terminal only by a sighting of the order or by a reply. -/
theorem Successor.terminal_evidence {replies : OpenOrderSnapshot → Prop}
    {entry x : OrderLedgerEntry} {openSnapshots completed : List OpenOrderSnapshot}
    (h : Successor replies entry openSnapshots completed x) (hterminal : x.isTerminal = true) :
    ∃ snapshot, ((∃ adopts, sighting entry openSnapshots completed = some (snapshot, adopts)) ∨
      replies snapshot) ∧ snapshot.lifecycle ∈ terminalLifecycleStates := by
  have hopened : ∀ snapshot, matchSnapshot entry openSnapshots = some (snapshot, false) →
      sighting entry openSnapshots completed = some (snapshot, false) := by
    intro snapshot h
    rw [sighting, h]
    rfl
  cases h with
  | adopted snapshot stamp h =>
    exact ⟨snapshot, Or.inl ⟨true, h⟩,
      (OrderLedgerEntry.withSnapshot_isTerminal ..).mp hterminal⟩
  | followed snapshot u h hu =>
    exact ⟨snapshot, Or.inl ⟨false, hopened snapshot h⟩, hu.isTerminal.mp hterminal⟩
  | acted snapshot u x h hu hrecovered hworking hid hx =>
    obtain ⟨reply, hreply, hstate⟩ := hx.terminal_reply hterminal
    exact ⟨reply, Or.inr hreply, hstate⟩
  | resumed snapshot seen ref h href hcancelled reply hreply newLimit metadata now stamp =>
    exact ⟨reply, Or.inr hreply, (OrderLedgerEntry.replacedBy_isTerminal ..).mp hterminal⟩
  | closed snapshot stamp hopen h hclosed =>
    refine ⟨snapshot, Or.inl ⟨false, ?_⟩, (OrderLedgerEntry.withSnapshot_isTerminal ..).mp hclosed⟩
    rw [sighting, hopen, h]
    rfl
  | unverified now hopen h => cases hterminal

/-- The successor of a row that is not sighted is the unverified row. -/
theorem Successor.unseen {replies : OpenOrderSnapshot → Prop} {entry x : OrderLedgerEntry}
    {openSnapshots completed : List OpenOrderSnapshot}
    (h : Successor replies entry openSnapshots completed x)
    (hnone : sighting entry openSnapshots completed = none) :
    ∃ now, x = closeUnreportedOpenEntry entry now := by
  have hopen : matchSnapshot entry openSnapshots = none := by
    cases hmatch : matchSnapshot entry openSnapshots with
    | none => rfl
    | some found =>
      rw [sighting, hmatch] at hnone
      cases hnone
  cases h with
  | adopted snapshot stamp h => cases hnone.symm.trans h
  | followed snapshot u h hu => cases hopen.symm.trans h
  | acted snapshot u x h => cases hopen.symm.trans h
  | resumed snapshot seen ref h => cases hnone.symm.trans h
  | closed snapshot stamp _ h =>
    rw [sighting, hopen, h] at hnone
    cases hnone
  | unverified now _ h => exact ⟨now, rfl⟩

section Pass

variable {p : Pass} {store : OrderStore} {row : OrderLedgerEntry}

/-- What a pass leaves of a shielded open row. -/
theorem Pass.leaves_of_shields (hrow : store.latest row.ledgerKey = some row)
    (hopen : row.isTerminal = false) (hshields : p.Shields row.ledgerKey store) :
    ∃ x, (p.after store).latest row.ledgerKey = some x ∧ p.Leaves (p.run store).trace row x :=
  System.wp_restrict_run openWorld (wp_pass_leaves p hrow hopen hshields) p.answers

/-- A match in the history a turn works with is a match in the answer to the query. -/
theorem PassReports.History.shown {reports : PassReports}
    {openSnapshots : List OpenOrderSnapshot} {history : Except Exn (List OpenOrderSnapshot)}
    (h : reports.History row openSnapshots history)
    (hnone : matchSnapshot row openSnapshots = none) {found : OpenOrderSnapshot × Bool}
    (hfound : matchSnapshot row (history.toOption.getD []) = some found) :
    ∃ completed, reports.completed = .ok completed ∧
      matchSnapshot row (ExecutionManager.referenced completed) = some found := by
  have hhistory := h hnone
  cases hcompleted : reports.completed with
  | ok all =>
    rw [hcompleted] at hhistory
    obtain ⟨completed, rfl, hsame⟩ := hhistory
    exact ⟨all, rfl, hsame.symm.trans hfound⟩
  | error e =>
    rw [hcompleted] at hhistory
    obtain ⟨e, rfl⟩ := hhistory
    have hempty : matchSnapshot row [] = none := by
      cases href : row.reservedRef <;> simp [matchSnapshot, href]
    cases hempty.symm.trans hfound

/-- A shielded row is closed on evidence of the pass only. -/
theorem Pass.closed_on_evidence (hrow : store.latest row.ledgerKey = some row)
    (hopen : row.isTerminal = false) (hshields : p.Shields row.ledgerKey store)
    {x : OrderLedgerEntry} (hx : (p.after store).latest row.ledgerKey = some x)
    (hterminal : x.isTerminal = true) :
    ∃ snapshot, p.Shows store row snapshot ∧ snapshot.lifecycle ∈ terminalLifecycleStates := by
  obtain ⟨y, hy, hleaves⟩ := Pass.leaves_of_shields hrow hopen hshields
  obtain rfl := Option.some.inj (hx.symm.trans hy)
  rcases hleaves with rfl | ⟨openOrders, history, hopenOrders, hhistory, _, hsuccessor⟩
  · rw [hopen] at hterminal
    cases hterminal
  obtain ⟨snapshot, ⟨adopts, hsight⟩ | hreply, hstate⟩ := hsuccessor.terminal_evidence hterminal
  · refine ⟨snapshot, ?_, hstate⟩
    cases hmatch : matchSnapshot row (ExecutionManager.referenced openOrders) with
    | some found =>
      rw [sighting, hmatch] at hsight
      obtain rfl : found = (snapshot, adopts) := Option.some.inj hsight
      exact Or.inl ⟨openOrders, adopts, hopenOrders, hmatch⟩
    | none =>
      rw [sighting, hmatch] at hsight
      obtain ⟨completed, hok, hfound⟩ := hhistory.shown hmatch hsight
      exact Or.inr (Or.inl ⟨completed, adopts, hok, hfound⟩)
  · exact ⟨snapshot, Or.inr (Or.inr hreply), hstate⟩

/-- A shielded row no list shows stays open, and the same broker order. -/
theorem Pass.missed_stays_open (hrow : store.latest row.ledgerKey = some row)
    (hopen : row.isTerminal = false) (hshields : p.Shields row.ledgerKey store)
    (hmisses : p.Misses row) :
    ∃ x, (p.after store).latest row.ledgerKey = some x ∧ row.StillOpen x := by
  obtain ⟨x, hx, hleaves⟩ := Pass.leaves_of_shields hrow hopen hshields
  refine ⟨x, hx, ?_⟩
  rcases hleaves with rfl | ⟨openOrders, history, hopenOrders, hhistory, _, hsuccessor⟩
  · exact .refl hopen
  have hnone : sighting row (ExecutionManager.referenced openOrders)
      (history.toOption.getD []) = none := by
    have hmatch := hmisses.1 openOrders hopenOrders
    rw [sighting, hmatch]
    cases hfound : matchSnapshot row (history.toOption.getD []) with
    | none => rfl
    | some found =>
      obtain ⟨completed, hok, hshown⟩ := hhistory.shown hmatch hfound
      cases (hmisses.2 completed hok).symm.trans hshown
  obtain ⟨now, rfl⟩ := hsuccessor.unseen hnone
  exact closeUnreportedOpenEntry_stillOpen row now

/-- Without a history, a shielded row that is not reported open is left as it was. -/
theorem Pass.failed_leaves (hrow : store.latest row.ledgerKey = some row)
    (hopen : row.isTerminal = false) (hshields : p.Shields row.ledgerKey store)
    (hnot : p.NotOpen row) {e : Exn} (hfailed : p.reports.completed = .error e) :
    (p.after store).latest row.ledgerKey = some row := by
  obtain ⟨x, hx, hleaves⟩ := Pass.leaves_of_shields hrow hopen hshields
  rcases hleaves with rfl | ⟨openOrders, history, hopenOrders, hhistory, hok, _⟩
  · exact hx
  have hmatch := hnot openOrders hopenOrders
  have herror := hhistory hmatch
  rw [hfailed] at herror
  obtain ⟨e', rfl⟩ := herror
  exact absurd rfl (hok hmatch e')

end Pass

theorem Pass.Shields.honoursAbsence {key : String} {store : OrderStore} {p : Pass}
    (h : p.Shields key store) : p.HonoursAbsence key store where
  closed row x hrow hopen hx hterminal := by
    obtain rfl := OrderStore.latest_key hrow
    exact Pass.closed_on_evidence hrow hopen h hx hterminal
  missed row hrow hopen hmisses := by
    obtain rfl := OrderStore.latest_key hrow
    obtain ⟨x, hx, hstill⟩ := Pass.missed_stays_open hrow hopen h hmisses
    exact ⟨x, OrderStore.mem_loadOpenOrders.mpr ⟨OrderStore.latest_mem hx, hstill.isOpen⟩, hstill⟩
  failed row e hrow hopen hnot hfailed := by
    obtain rfl := OrderStore.latest_key hrow
    exact Pass.failed_leaves hrow hopen h hnot hfailed

/-- Over passes that honour absence, a row none of them shows is open to the end. -/
theorem EveryPass.stillOpen {key : String} {store : OrderStore} {passes : List Pass}
    (h : EveryPass (Pass.HonoursAbsence key) store passes)
    (hmisses : EveryPass (Pass.MissesKey key) store passes)
    {row : OrderLedgerEntry} (hrow : store.latest key = some row) (hopen : row.isTerminal = false) :
    ∃ x ∈ (ledgerAfter store passes).loadOpenOrders, row.StillOpen x := by
  induction passes generalizing store row with
  | nil =>
    exact ⟨row, OrderStore.mem_loadOpenOrders.mpr ⟨OrderStore.latest_mem hrow, hopen⟩, .refl hopen⟩
  | cons p passes ih =>
    obtain ⟨x, hx, hstill⟩ := h.1.missed row hrow hopen (hmisses.1 row hrow)
    have hlatest : (p.after store).latest key = some x := by
      rw [← OrderStore.latest_key hrow, ← hstill.ledgerKey]
      exact OrderStore.latest_of_mem (OrderStore.mem_loadOpenOrders.mp hx).1
    obtain ⟨y, hy, hlast⟩ := ih h.2 hmisses.2 hlatest hstill.isOpen
    exact ⟨y, hy, hstill.trans hlast⟩

theorem Pass.after_produced {store : OrderStore} (hstore : store.All OrderLedgerEntry.Produced)
    (p : Pass) : (p.after store).All OrderLedgerEntry.Produced :=
  openWorld.wp_run (wp_allRows openEnvironment reconcile_produced [] (hstore.atStart p.newProcess))
    p.choices

/-- In no pass from a produced ledger is an open order taken for an unknown one in the place of a
row. -/
theorem everyPass_shields (key : String) (passes : List Pass) :
    ∀ {store : OrderStore}, store.All OrderLedgerEntry.Produced →
      EveryPass (Pass.Shields key) store passes := by
  induction passes with
  | nil => exact fun _ => trivial
  | cons p passes ih =>
    intro store hstore
    refine ⟨fun row hrow _ openOrders _ => ?_, ih (p.after_produced hstore)⟩
    exact (hstore row (OrderStore.latest_mem hrow)).shielded _

/-- Over any passes from any ledger the commands can leave, absence is never proof. -/
theorem absence_is_never_proof {store : OrderStore} (hstore : Reached store) (key : String)
    (passes : List Pass) :
    EveryPass (Pass.HonoursAbsence key) store passes ∧
    ∀ row, store.latest key = some row → row.isTerminal = false →
      EveryPass (Pass.MissesKey key) store passes →
      ∃ x ∈ (ledgerAfter store passes).loadOpenOrders, row.StillOpen x := by
  have hall := (everyPass_shields key passes hstore.produced).mono
    fun _ _ hshields => hshields.honoursAbsence
  exact ⟨hall, fun row hrow hopen hmisses => hall.stillOpen hmisses hrow hopen⟩

/-- A pass in which neither list reports anything. -/
def silentPass (clock : ℚ) : Pass where
  settings := .unset
  isIbkr := true
  hasReplacement := true
  hasHistory := false
  reports := ⟨.ok [], .ok []⟩
  choices := List.replicate 8 (listsOnly clock [] [])
  answers := fun _ hc => List.eq_of_mem_replicate hc ▸ ⟨rfl, rfl, fun _ _ => rfl⟩
  history := Or.inl rfl

/-- The process that rediscovers the stray order. -/
def strayStep : Step where
  settings := .unset
  isIbkr := true
  hasReplacement := true
  hasHistory := false
  command := .reconcile
  choices := List.replicate 12 (listsOnly 0 [strayOrder] [])

/-- The rediscovered order is open, with its id, after two passes that report nothing. -/
theorem absence_is_never_proof_silent :
    ∃ x ∈ (ledgerAfter (strayStep.after .empty) [silentPass 10, silentPass 400]).loadOpenOrders,
      x.ledgerKey = "poma:lost:0:VTI:BUY" ∧ x.orderId = some 9 := by
  have hrow : ((strayStep.after .empty).latest "poma:lost:0:VTI:BUY").any (fun row =>
      !row.isTerminal && row.orderId = some 9) = true := by
    decide +kernel
  obtain ⟨row, hlatest, hopen⟩ : ∃ row, (strayStep.after .empty).latest "poma:lost:0:VTI:BUY" =
      some row ∧ (!row.isTerminal && row.orderId = some 9) = true := by
    cases hlatest : (strayStep.after .empty).latest "poma:lost:0:VTI:BUY" with
    | none =>
      rw [hlatest] at hrow
      cases hrow
    | some row =>
      rw [hlatest] at hrow
      exact ⟨row, rfl, hrow⟩
  have hmisses : ∀ clock store, (silentPass clock).MissesKey "poma:lost:0:VTI:BUY" store := by
    have hnone : ∀ row : OrderLedgerEntry, matchSnapshot row [] = none := by
      intro row
      cases href : row.reservedRef <;> simp [matchSnapshot, href]
    rintro clock store row _
    exact ⟨by rintro openOrders ⟨⟩; exact hnone row, by rintro completed ⟨⟩; exact hnone row⟩
  obtain ⟨x, hx, hstill⟩ := (absence_is_never_proof (.step .empty strayStep)
    "poma:lost:0:VTI:BUY" [silentPass 10, silentPass 400]).2 row hlatest
    (by simpa using (Bool.and_eq_true_iff.mp hopen).1) ⟨hmisses _ _, hmisses _ _, trivial⟩
  refine ⟨x, hx, ?_, ?_⟩
  · exact hstill.ledgerKey.trans (OrderStore.latest_key hlatest)
  · rw [hstill.orderId]
    exact of_decide_eq_true (Bool.and_eq_true_iff.mp hopen).2

end Poma
