import Poma.Broker.IbkrQueries
import Poma.Core.Joined
import Poma.Correctness.Ledgers
import Poma.Correctness.Restore

/-!
# References and the orders they bring back

The reference of an order is built from its run, its position, its ticker and
its side, and it is read back from the right: the ticker holds no colon, so the
run is what is left over. The restore scan brings back exactly the orders whose
reference reads so, and stops the pass at any other one it does not know.
-/

namespace Poma

open Interaction

/-- The text of a reference, from its parts. -/
def refText (runId index ticker : String) (side : OrderSide) : String :=
  orderRefPrefix ++ ":" ++ runId ++ ":" ++ index ++ ":" ++ ticker ++ ":" ++ side.value

/-- A reference, its suffix taken off, that names a run for an instrument. -/
structure ReadsAs (rootRef runId ticker : String) (side : OrderSide) : Prop where
  named : runId ≠ ""
  plain : ColonFree ticker
  text : ∃ digits, isDigits digits = true ∧ rootRef = refText runId digits ticker side

section Reading

variable {runId index ticker : String} {side : OrderSide}

theorem colonFree_prefix : ColonFree orderRefPrefix := by
  unfold ColonFree
  decide

theorem colonFree_side (side : OrderSide) : ColonFree side.value := by
  unfold ColonFree
  cases side <;> decide

/-- The parts of a reference: the run may have several. -/
theorem splitColon_refText (hindex : ColonFree index) (hticker : ColonFree ticker) :
    splitColon (refText runId index ticker side) =
      orderRefPrefix :: (splitColon runId ++ [index, ticker, side.value]) := by
  unfold refText
  rw [splitColon_append, splitColon_append, splitColon_append, splitColon_append,
    splitColon_of_colonFree colonFree_prefix, splitColon_of_colonFree hindex,
    splitColon_of_colonFree hticker, splitColon_of_colonFree (colonFree_side side)]
  simp

theorem OrderSide.value_injective {side other : OrderSide} (h : side.value = other.value) :
    side = other := by
  revert h
  cases side <;> cases other <;> decide

/-- Two references with the same text have the same parts. -/
theorem refText_injective {runId' index' ticker' : String} {side' : OrderSide}
    (hindex : ColonFree index) (hticker : ColonFree ticker) (hindex' : ColonFree index')
    (hticker' : ColonFree ticker')
    (h : refText runId index ticker side = refText runId' index' ticker' side') :
    runId = runId' ∧ index = index' ∧ ticker = ticker' ∧ side = side' := by
  have hsplit := congrArg splitColon h
  rw [splitColon_refText hindex hticker, splitColon_refText hindex' hticker'] at hsplit
  obtain ⟨hrun, hlast⟩ := List.append_inj' (List.cons.inj hsplit).2 rfl
  simp only [List.cons.injEq, and_true] at hlast
  refine ⟨?_, hlast.1, hlast.2.1, OrderSide.value_injective hlast.2.2⟩
  rw [← intercalate_splitColon runId, hrun, intercalate_splitColon]

theorem parseOrderRef_of_reverse {rootRef sidePart tickerPart : String} {rest : List String}
    (h : (splitColon rootRef).reverse = sidePart :: tickerPart :: index :: rest) :
    parseOrderRef rootRef ticker side =
      if (splitColon rootRef).length < 5 ∨ (splitColon rootRef).head? ≠ some "poma" ∨
          isDigits index = false ∨ tickerPart ≠ ticker ∨ sidePart ≠ side.value ∨
          String.intercalate ":" (rest.reverse.drop 1) = "" then none
      else some (String.intercalate ":" (rest.reverse.drop 1)) := by
  unfold parseOrderRef
  simp only [h]

/-- A reference gives its run back. -/
theorem parseOrderRef_of_readsAs {rootRef : String} (h : ReadsAs rootRef runId ticker side) :
    parseOrderRef rootRef ticker side = some runId := by
  obtain ⟨digits, hdigits, htext⟩ := h.text
  have hsplit : splitColon rootRef =
      "poma" :: (splitColon runId ++ [digits, ticker, side.value]) := by
    rw [htext, splitColon_refText (colonFree_of_isDigits hdigits) h.plain]
    rfl
  have hrev : (splitColon rootRef).reverse =
      side.value :: ticker :: digits :: ((splitColon runId).reverse ++ ["poma"]) := by
    simp [hsplit]
  have hrun : String.intercalate ":" ((((splitColon runId).reverse ++ ["poma"]).reverse).drop 1) =
      runId := by
    rw [List.reverse_append, List.reverse_reverse]
    exact intercalate_splitColon runId
  have hlength : 0 < (splitColon runId).length := List.length_pos_iff.mpr (splitColon_ne_nil runId)
  rw [parseOrderRef_of_reverse hrev, hrun, if_neg]
  simp only [hsplit, List.length_cons, List.length_append, List.length_nil, List.head?_cons,
    hdigits, h.named]
  simp
  omega

/-- What gives a run is a reference of it. -/
theorem readsAs_of_parseOrderRef {rootRef : String}
    (h : parseOrderRef rootRef ticker side = some runId) : ReadsAs rootRef runId ticker side := by
  have hparts : ∃ sidePart tickerPart index rest,
      (splitColon rootRef).reverse = sidePart :: tickerPart :: index :: rest := by
    unfold parseOrderRef at h
    dsimp only at h
    split at h
    · rename_i hrev
      exact ⟨_, _, _, _, hrev⟩
    · cases h
  obtain ⟨sidePart, tickerPart, index, rest, hrev⟩ := hparts
  have hsplit : splitColon rootRef = rest.reverse ++ [index, tickerPart, sidePart] := by
    rw [← List.reverse_reverse (splitColon rootRef), hrev]
    simp
  rw [parseOrderRef_of_reverse hrev] at h
  split at h
  · cases h
  rename_i hchecks
  simp only [not_or, not_lt, ne_eq, not_not, Bool.not_eq_false] at hchecks
  obtain ⟨hlength, hhead, hdigits, hticker, hside, hnamed⟩ := hchecks
  obtain rfl := Option.some.inj h
  have hrest : ∃ run, rest.reverse = "poma" :: run := by
    cases hfirst : rest.reverse with
    | nil =>
      rw [hsplit, hfirst] at hlength
      simp at hlength
    | cons first run =>
      rw [hsplit, hfirst] at hhead
      exact ⟨run, by simpa using hhead⟩
  obtain ⟨run, hrun⟩ := hrest
  have hne : run ≠ [] := by
    rintro rfl
    rw [hsplit, hrun] at hlength
    simp at hlength
  constructor
  · exact hnamed
  · have hmem : tickerPart ∈ splitColon rootRef := by simp [hsplit]
    rw [← hticker]
    exact colonFree_of_mem_splitColon hmem
  · refine ⟨index, hdigits, ?_⟩
    rw [← intercalate_splitColon rootRef, hsplit, hrun, List.drop_one, List.tail_cons, hticker,
      hside, String.intercalate_append_of_ne_nil (by simp) (by simp),
      String.intercalate_cons_of_ne_nil hne, String.intercalate_cons_cons,
      String.intercalate_cons_cons, String.intercalate_singleton]
    simp only [refText, orderRefPrefix, String.append_assoc]

/-- The parser gives the run of a reference, and nothing for any other text. -/
theorem parseOrderRef_eq_some_iff {rootRef : String} :
    parseOrderRef rootRef ticker side = some runId ↔ ReadsAs rootRef runId ticker side := by
  constructor
  · exact readsAs_of_parseOrderRef
  · exact parseOrderRef_of_readsAs

end Reading

/-- The suffix of a replacement, when there is one. -/
def replacementSuffix : Option Nat → String
  | none => ""
  | some n => ":r" ++ n.repr

/-- The suffix of a replacement comes off a reference again. -/
theorem stripReplacementSuffix_build (runId : String) (index : Nat) (ticker : String)
    (side : OrderSide) (suffix : Option Nat) :
    stripReplacementSuffix (buildOrderRef runId index ticker side ++ replacementSuffix suffix) =
      buildOrderRef runId index ticker side := by
  cases suffix with
  | none =>
    rw [replacementSuffix, String.append_empty]
    exact not_not.mp (buildOrderRef_not_replacement runId index ticker side)
  | some n =>
    rw [replacementSuffix, ← String.append_assoc]
    exact stripReplacementSuffix_append _ n

theorem buildOrderRef_readsAs {runId : String} (hrun : runId ≠ "") (index : Nat) {ticker : String}
    (hticker : ColonFree ticker) (side : OrderSide) :
    ReadsAs (buildOrderRef runId index ticker side) runId ticker side :=
  ⟨hrun, hticker, index.repr, isDigits_repr index, rfl⟩

/-- A reference that the ledger does not know, and whose root it does not know either. -/
structure OrderStore.Lacks (store : OrderStore) (ref : String) : Prop where
  unknown : ∀ row ∈ store.entries, row.orderRef ≠ ref
  rootless : store.latest (stripReplacementSuffix ref) = none

/-- A working order under a reference, with its id and its quantity. -/
structure OpenOrderSnapshot.Working (snapshot : OpenOrderSnapshot) (ref : String) : Prop where
  ref : snapshot.orderRef = some ref
  numbered : snapshot.orderId.isSome
  quantity : 0 < snapshot.filled + snapshot.remaining
  isOpen : classifyLifecycle snapshot.rawStatus snapshot.filled (max snapshot.remaining 0) ∉
    terminalLifecycleStates

/-- A row that stands for an order of a run under its reference. -/
structure OrderLedgerEntry.StandsFor (row : OrderLedgerEntry) (ref runId ticker : String)
    (side : OrderSide) : Prop where
  ledgerKey : row.ledgerKey = ref
  orderRef : row.orderRef = ref
  runId : row.runId = runId
  ticker : row.ticker = ticker
  side : row.side = side

section Turn

variable {known : OrderStore} {snapshot : OpenOrderSnapshot} {ref runId : String}

theorem restoredEntry_standsFor (submitted now : ℚ) :
    ((restoredEntry snapshot ref runId submitted).withSnapshot snapshot now).StandsFor ref runId
      snapshot.ticker snapshot.side := by
  constructor <;> rfl

/-- What the scan decides about a working order that the ledger lacks. -/
theorem restoreDecision_of_lacks (hlacks : known.Lacks ref) (hworking : snapshot.Working ref)
    (hreads : ReadsAs (stripReplacementSuffix ref) runId snapshot.ticker snapshot.side) :
    restoreDecision known snapshot =
      .restore fun submitted => restoredEntry snapshot ref runId submitted := by
  have hfind : known.entries.find? (·.orderRef = ref) = none := by
    rw [List.find?_eq_none]
    intro row hrow
    simpa using hlacks.unknown row hrow
  have hidentity : ¬(snapshot.filled + snapshot.remaining ≤ 0 ∨ snapshot.orderId = none) := by
    rw [not_or, not_le]
    exact ⟨hworking.quantity, Option.isSome_iff_ne_none.mp hworking.numbered⟩
  unfold restoreDecision
  simp only [hworking.ref, Option.getD_some, hfind, hlacks.rootless, Option.isSome_none,
    Bool.false_eq_true, ite_false, parseOrderRef_of_readsAs hreads, if_neg hidentity]

/-- The turn of a working order that the ledger lacks records the row that stands for it. -/
theorem restoreLoop_of_lacks (hlacks : known.Lacks ref) (hworking : snapshot.Working ref)
    (hreads : ReadsAs (stripReplacementSuffix ref) runId snapshot.ticker snapshot.side)
    (rest : List OpenOrderSnapshot) (recovered : List OrderLedgerEntry) :
    restoreLoop known (snapshot :: rest) recovered =
      utcNow.bind fun submitted => utcNow.bind fun now =>
      let entry := (restoredEntry snapshot ref runId submitted).withSnapshot snapshot now
      (upsertEntry entry).bind fun _ =>
        restoreLoop (known.upsert entry) rest (recovered ++ [entry]) := by
  have hopen (submitted now : ℚ) :
      ¬((restoredEntry snapshot ref runId submitted).withSnapshot snapshot now).isTerminal = true := by
    intro hterminal
    have hmem := of_decide_eq_true hterminal
    exact hworking.isOpen hmem
  rw [restoreLoop, restoreDecision_of_lacks hlacks hworking hreads]
  simp only [if_neg (hopen _ _)]

/-- A scan restores an order only when its reference reads as one of its instrument. -/
theorem readsAs_of_restore {entryAt : ℚ → OrderLedgerEntry}
    (h : restoreDecision known snapshot = .restore entryAt) :
    ∃ runId, ReadsAs (stripReplacementSuffix (snapshot.orderRef.getD "")) runId snapshot.ticker
        snapshot.side ∧
      ∀ now, entryAt now = restoredEntry snapshot (snapshot.orderRef.getD "") runId now := by
  unfold restoreDecision at h
  dsimp only at h
  split at h
  · split at h <;> cases h
  split at h
  · cases h
  split at h
  · cases h
  rename_i runId hparse
  split at h
  · cases h
  · cases h
    exact ⟨runId, readsAs_of_parseOrderRef hparse, fun _ => rfl⟩

end Turn

section Scan

variable {W : Type} (E : Environment W)

/-- The rule of the scan: what every turn preserves holds where the scan returns. -/
theorem wp_restoreLoop_rule
    {I : OrderStore → List OpenOrderSnapshot → List OrderLedgerEntry → Prop}
    {Q : List OrderLedgerEntry → OrderStore → Prop}
    (hknown : ∀ known first rest recovered, I known (first :: rest) recovered →
      restoreDecision known first = .known → I known rest recovered)
    (hrestored : ∀ known first rest recovered runId submitted now,
      I known (first :: rest) recovered →
      ReadsAs (stripReplacementSuffix (first.orderRef.getD "")) runId first.ticker first.side →
      I (known.upsert ((restoredEntry first (first.orderRef.getD "") runId submitted).withSnapshot
        first now)) rest (recovered ++ [(restoredEntry first (first.orderRef.getD "") runId
          submitted).withSnapshot first now]))
    (hdone : ∀ known recovered, I known [] recovered → Q recovered known)
    (snapshots : List OpenOrderSnapshot) :
    ∀ (recovered : List OrderLedgerEntry) (τ : List (Event sig)) (s : World W),
      I s.ledger snapshots recovered →
      E.system.wp (restoreLoop s.ledger snapshots recovered) (fun out _ s' => ∀ rows,
        out = .returned rows → Q rows s'.ledger) τ s := by
  induction snapshots with
  | nil =>
    intro recovered τ s hinv rows hrows
    obtain rfl := Outcome.returned.inj hrows
    exact hdone _ _ hinv
  | cons first rest ih =>
    intro recovered τ s hinv
    rw [restoreLoop]
    cases hdecision : restoreDecision s.ledger first with
    | known => exact ih recovered τ s (hknown _ _ _ _ hinv hdecision)
    | conflict e =>
      intro rows hrows
      cases hrows
    | restore entryAt =>
      obtain ⟨runId, hreads, hentry⟩ := readsAs_of_restore hdecision
      simp only [System.wp_bind, wp_utcNow, System.seq_stopped, System.seq_returned]
      refine ⟨by simp, fun submitted => ⟨by simp, fun now => ?_⟩⟩
      rw [hentry]
      split
      · intro rows hrows
        cases hrows
      · simp only [System.wp_bind, wp_upsertEntry, System.seq_stopped, System.seq_returned]
        refine ⟨by simp, fun _ => ?_⟩
        apply ih _ _ { s with ledger := s.ledger.upsert _ }
        exact hrestored _ _ _ _ runId _ _ hinv hreads

/-- Another order that is restored leaves a family unknown. -/
theorem OrderStore.Lacks.upsert {known : OrderStore} {ref : String} (h : known.Lacks ref)
    (hroot : stripReplacementSuffix (stripReplacementSuffix ref) = stripReplacementSuffix ref)
    {entry : OrderLedgerEntry} (hown : entry.orderRef = entry.ledgerKey)
    (hother : stripReplacementSuffix entry.ledgerKey ≠ stripReplacementSuffix ref) :
    (known.upsert entry).Lacks ref := by
  have hne : entry.ledgerKey ≠ stripReplacementSuffix ref := by
    intro hsame
    rw [hsame, hroot] at hother
    exact hother rfl
  constructor
  · intro row hrow href
    rcases OrderStore.mem_upsert hrow with rfl | hrow
    · rw [hown] at href
      exact hother (congrArg stripReplacementSuffix href)
    · exact h.unknown row hrow.1 href
  · exact (OrderStore.latest_upsert_of_ne hne).trans h.rootless

/-- A scan that returns has restored a working order that the ledger lacked, whatever other
families it met before and after. -/
theorem wp_restoreLoop_restores {ref runId : String} {before after : List OpenOrderSnapshot}
    {snapshot : OpenOrderSnapshot} (hworking : snapshot.Working ref)
    (hreads : ReadsAs (stripReplacementSuffix ref) runId snapshot.ticker snapshot.side)
    (hroot : stripReplacementSuffix (stripReplacementSuffix ref) = stripReplacementSuffix ref)
    (hothers : ∀ other ∈ before ++ after,
      stripReplacementSuffix (other.orderRef.getD "") ≠ stripReplacementSuffix ref)
    {s : World W} (hlacks : s.ledger.Lacks ref) (τ : List (Event sig)) :
    E.system.wp (restoreLoop s.ledger (before ++ snapshot :: after) []) (fun out _ s' => ∀ rows,
      out = .returned rows → ∃ row ∈ rows,
        row.StandsFor ref runId snapshot.ticker snapshot.side ∧ s'.ledger.latest ref = some row)
      τ s := by
  have href : snapshot.orderRef.getD "" = ref := by rw [hworking.ref, Option.getD_some]
  refine wp_restoreLoop_rule E (I := fun known rest recovered =>
    (∃ before, rest = before ++ snapshot :: after ∧ known.Lacks ref ∧ ∀ other ∈ before ++ after,
      stripReplacementSuffix (other.orderRef.getD "") ≠ stripReplacementSuffix ref) ∨
    ∃ row ∈ recovered, row.StandsFor ref runId snapshot.ticker snapshot.side ∧
      known.latest ref = some row ∧ ∀ other ∈ rest, other.orderRef.getD "" ≠ ref)
    (Q := fun rows store => ∃ row ∈ rows, row.StandsFor ref runId snapshot.ticker snapshot.side ∧
      store.latest ref = some row) ?_ ?_ ?_ _ [] τ s (Or.inl ⟨before, rfl, hlacks, hothers⟩)
  · rintro known first rest recovered (⟨before, hrest, hlacks, hothers⟩ | ⟨row, h⟩) hdecision
    · cases before with
      | nil =>
        obtain ⟨rfl, rfl⟩ := List.cons.inj hrest
        rw [restoreDecision_of_lacks hlacks hworking hreads] at hdecision
        cases hdecision
      | cons other before =>
        obtain ⟨rfl, rfl⟩ := List.cons.inj hrest
        exact Or.inl ⟨before, rfl, hlacks, fun other hother =>
          hothers other (List.mem_cons_of_mem _ hother)⟩
    · exact Or.inr ⟨row, h.1, h.2.1, h.2.2.1, fun other hother =>
        h.2.2.2 other (List.mem_cons_of_mem _ hother)⟩
  · rintro known first rest recovered runId' submitted now
      (⟨before, hrest, hlacks, hothers⟩ | ⟨row, hrow, hstands, hlatest, hothers⟩) hreads'
    · cases before with
      | nil =>
        obtain ⟨rfl, rfl⟩ := List.cons.inj hrest
        have hrun : runId' = runId := by
          have hparsed := parseOrderRef_of_readsAs hreads'
          rw [href, parseOrderRef_of_readsAs hreads] at hparsed
          exact (Option.some.inj hparsed).symm
        right
        rw [hrun, href]
        refine ⟨_, List.mem_append_right _ (List.mem_singleton_self _),
          restoredEntry_standsFor submitted now, OrderStore.latest_upsert_of_eq rfl, ?_⟩
        intro other hother hsame
        exact hothers other hother (congrArg stripReplacementSuffix hsame)
      | cons other before =>
        obtain ⟨rfl, rfl⟩ := List.cons.inj hrest
        left
        refine ⟨before, rfl, hlacks.upsert hroot rfl (hothers first List.mem_cons_self), ?_⟩
        exact fun other hother => hothers other (List.mem_cons_of_mem _ hother)
    · right
      refine ⟨row, List.mem_append_left _ hrow, hstands, ?_, fun other hother =>
        hothers other (List.mem_cons_of_mem _ hother)⟩
      have hne : first.orderRef.getD "" ≠ ref := hothers first List.mem_cons_self
      exact (OrderStore.latest_upsert_of_ne hne).trans hlatest
  · rintro known recovered (⟨before, hrest, -⟩ | ⟨row, hrow, hstands, hlatest, -⟩)
    · simp at hrest
    · exact ⟨row, hrow, hstands, hlatest⟩

/-- An order that a ledger has under its reference, or whose reference reads as its own. -/
def OrderStore.Explains (store : OrderStore) (snapshot : OpenOrderSnapshot) : Prop :=
  (∃ row ∈ store.entries, row.orderRef = snapshot.orderRef.getD "") ∨
    ∃ runId, ReadsAs (stripReplacementSuffix (snapshot.orderRef.getD "")) runId snapshot.ticker
      snapshot.side

/-- A row that a scan restored from one of its orders, under a reference that reads as it. -/
def RestoredFrom (snapshots : List OpenOrderSnapshot) (row : OrderLedgerEntry) : Prop :=
  ∃ snapshot ∈ snapshots, row.ledgerKey = snapshot.orderRef.getD "" ∧
    ReadsAs (stripReplacementSuffix row.ledgerKey) row.runId snapshot.ticker snapshot.side

/-- A scan that returns was able to explain every order, and restored only such orders. -/
theorem wp_restoreLoop_explains (snapshots : List OpenOrderSnapshot) (s : World W)
    (τ : List (Event sig)) :
    E.system.wp (restoreLoop s.ledger snapshots []) (fun out _ _ => ∀ rows, out = .returned rows →
      (∀ row ∈ rows, RestoredFrom snapshots row) ∧
        ∀ snapshot ∈ snapshots, s.ledger.Explains snapshot) τ s := by
  refine wp_restoreLoop_rule E (I := fun known rest recovered =>
    (∀ row ∈ recovered, RestoredFrom snapshots row) ∧ rest ⊆ snapshots ∧
      (∀ snapshot ∈ snapshots, snapshot ∈ rest ∨ s.ledger.Explains snapshot) ∧
      ∀ row ∈ known.entries, row ∈ s.ledger.entries ∨
        ∃ runId, ReadsAs (stripReplacementSuffix row.orderRef) runId row.ticker row.side)
    (Q := fun rows _ => (∀ row ∈ rows, RestoredFrom snapshots row) ∧
      ∀ snapshot ∈ snapshots, s.ledger.Explains snapshot) ?_ ?_ ?_ snapshots [] τ s ?_
  · rintro known first rest recovered ⟨hrows, hsub, hseen, hentries⟩ hdecision
    refine ⟨hrows, fun snapshot hmem => hsub (List.mem_cons_of_mem _ hmem), ?_, hentries⟩
    have hfirst : s.ledger.Explains first := by
      obtain ⟨row, hfind, haccounts⟩ := restoreDecision_known_iff.mp hdecision
      have href : row.orderRef = first.orderRef.getD "" := by
        simpa using List.find?_some hfind
      rcases hentries row (List.mem_of_find?_eq_some hfind) with hold | ⟨runId, hreads⟩
      · exact Or.inl ⟨row, hold, href⟩
      · rw [href, haccounts.ticker, haccounts.side] at hreads
        exact Or.inr ⟨runId, hreads⟩
    intro snapshot hmem
    rcases hseen snapshot hmem with hin | hexplained
    · rcases List.mem_cons.mp hin with rfl | hin
      · exact Or.inr hfirst
      · exact Or.inl hin
    · exact Or.inr hexplained
  · rintro known first rest recovered runId submitted now ⟨hrows, hsub, hseen, hentries⟩ hreads
    refine ⟨?_, fun snapshot hmem => hsub (List.mem_cons_of_mem _ hmem), ?_, ?_⟩
    · intro row hrow
      rcases List.mem_append.mp hrow with hrow | hrow
      · exact hrows row hrow
      · rw [List.mem_singleton.mp hrow]
        exact ⟨first, hsub List.mem_cons_self, rfl, hreads⟩
    · intro snapshot hmem
      rcases hseen snapshot hmem with hin | hexplained
      · rcases List.mem_cons.mp hin with rfl | hin
        · exact Or.inr (Or.inr ⟨runId, hreads⟩)
        · exact Or.inl hin
      · exact Or.inr hexplained
    · intro row hrow
      rcases OrderStore.mem_upsert hrow with rfl | ⟨hrow, -⟩
      · exact Or.inr ⟨runId, hreads⟩
      · exact hentries row hrow
  · rintro known recovered ⟨hrows, -, hseen, -⟩
    refine ⟨hrows, fun snapshot hmem => ?_⟩
    rcases hseen snapshot hmem with hin | hexplained
    · cases hin
    · exact hexplained
  · exact ⟨fun _ h => absurd h List.not_mem_nil, List.Subset.refl _, fun _ => Or.inl, fun _ => Or.inl⟩

end Scan

/-- An operation that places an order, or has the broker place one. -/
def Op.PlacesOrder : Op → Prop
  | .ib (.placeOrder _) => True
  | .broker (.submitTrades _) => True
  | .broker (.replaceOrder _) => True
  | .broker (.submitReplacement _) => True
  | _ => False

section Query

variable {A : Op → Prop}

theorem assertConnected_uses (settings : Settings) (h : A (.ib .isConnected)) :
    (Ibkr.assertConnected settings).Uses (S := sig) A := by
  apply Prog.uses_bind (Prog.uses_perform (S := sig) h)
  intro (connected : Bool)
  cases connected <;> trivial

theorem fetchOpenOrdersOnce_uses (settings : Settings) (hconnect : A (.ib .connect))
    (hdisconnect : A (.ib .disconnect)) (hconnected : A (.ib .isConnected))
    (hrequest : A (.ib .reqAllOpenOrders)) (hsleep : A (.ib (.sleep 1)))
    (hopen : A (.ib .openTrades)) :
    (Ibkr.fetchOpenOrdersOnce settings).Uses (S := sig) A := by
  have hcheck := assertConnected_uses settings hconnected
  apply Prog.uses_bind
  · apply Prog.uses_bind (Prog.uses_perform (S := sig) hconnect)
    intro _
    apply Prog.uses_catching hcheck
    intro e
    exact Prog.uses_bind (Prog.uses_perform (S := sig) hdisconnect) fun _ => trivial
  intro _
  apply Prog.uses_ensuring _ (Prog.uses_perform (S := sig) hdisconnect)
  apply Prog.uses_bind hcheck
  intro _
  apply Prog.uses_bind
  · apply Prog.uses_bind (Prog.uses_perform (S := sig) hrequest)
    intro _
    apply Prog.uses_bind (Prog.uses_perform (S := sig) hsleep)
    intro _
    exact Prog.uses_perform (S := sig) hopen
  intro trades
  exact Prog.uses_bind hcheck fun _ => trivial

/-- The open-order query records nothing and places no order. -/
theorem fetchOpenOrderSnapshots_uses (settings : Settings) :
    (Ibkr.fetchOpenOrderSnapshots settings).Uses (S := sig)
      fun o => Op.KeepsLedger o ∧ ¬Op.PlacesOrder o := by
  have honce : (Ibkr.fetchOpenOrdersOnce settings).Uses (S := sig)
      fun o => Op.KeepsLedger o ∧ ¬Op.PlacesOrder o := by
    apply fetchOpenOrdersOnce_uses <;> exact ⟨trivial, id⟩
  have hattempts : ∀ attempts lastError, (Ibkr.fetchOpenAttempts settings attempts lastError).Uses
      (S := sig) fun o => Op.KeepsLedger o ∧ ¬Op.PlacesOrder o := by
    intro attempts
    induction attempts with
    | zero => exact fun _ => trivial
    | succ attempts ih =>
      intro lastError
      apply Prog.uses_bind
      · apply Prog.uses_bind (Prog.uses_attempt (Prog.uses_perform (S := sig) ⟨trivial, id⟩))
        intro answer
        cases answer <;> trivial
      intro within
      cases within with
      | false => trivial
      | true =>
        apply Prog.uses_bind (Prog.uses_attempt honce)
        intro answer
        split
        · trivial
        · trivial
        · apply Prog.uses_bind
          · exact Prog.uses_ite trivial (Prog.uses_perform (S := sig) ⟨trivial, id⟩)
          · exact fun _ => ih _
  exact hattempts 2 none

end Query

section Pass

variable {W : Type} (E : Environment W)

/-- The rest of a pass that met an order it cannot explain neither returns nor places an order. -/
theorem wp_reconcileOpenOrders_stops {manager : ExecutionManager}
    (hibkr : manager.broker.isIbkr = true) {snapshots : List OpenOrderSnapshot} (s : World W)
    (hunexplained : ∃ snapshot ∈ snapshots, ¬s.ledger.Explains snapshot) (τ : List (Event sig)) :
    E.system.wp (manager.reconcileOpenOrders snapshots) (fun out τ' _ =>
      (∀ summary, out ≠ .returned summary) ∧ Grows (fun o => ¬Op.PlacesOrder o) τ τ') τ s := by
  have huses : (restoreUntrackedBrokerOrders snapshots).Uses (S := sig)
      fun o => ¬Op.PlacesOrder o :=
    restoreUntrackedBrokerOrders_uses id id (fun _ _ _ _ _ _ => id) snapshots
  have hscan : E.system.wp (restoreUntrackedBrokerOrders snapshots) (fun out _ _ =>
      ∀ rows, out ≠ .returned rows) τ s := by
    rw [restoreUntrackedBrokerOrders, System.wp_bind, wp_loadLatest]
    refine ⟨by simp, fun _ => ?_⟩
    rw [System.seq_returned]
    refine E.system.wp_mono (wp_restoreLoop_explains E snapshots s _) ?_
    intro out _ _ h rows hrows
    obtain ⟨snapshot, hmem, hnot⟩ := hunexplained
    exact hnot ((h rows hrows).2 snapshot hmem)
  unfold ExecutionManager.reconcileOpenOrders
  rw [if_pos hibkr]
  refine E.system.wp_seq (E.system.wp_and hscan (wp_grows E huses τ s)) ?_ ?_ ?_
  · rintro rows _ _ ⟨hreturned, -⟩
    exact absurd rfl (hreturned rows)
  · rintro e _ _ ⟨-, hgrows⟩
    exact ⟨by simp, hgrows⟩
  · rintro _ _ ⟨-, hgrows⟩
    exact ⟨by simp, hgrows⟩

/-- A pass over the open orders of the broker stops there before it places an order. -/
theorem wp_reconcile_stops {manager : ExecutionManager} {settings : Settings}
    (hbroker : manager.broker = ibkrBroker settings) (s : World W) (τ : List (Event sig))
    (hfetch : ∀ τ, E.system.wp (Ibkr.fetchOpenOrderSnapshots settings) (fun out _ _ => ∀ snapshots,
      out = .returned snapshots → ∃ snapshot ∈ ExecutionManager.referenced snapshots,
        ¬s.ledger.Explains snapshot) τ s) :
    E.system.wp manager.reconcile (fun out τ' _ =>
      (∀ summary, out ≠ .returned summary) ∧ Grows (fun o => ¬Op.PlacesOrder o) τ τ') τ s := by
  have hibkr : manager.broker.isIbkr = true := by rw [hbroker]; rfl
  have hfetched : manager.broker.fetchOpenOrderSnapshots = Ibkr.fetchOpenOrderSnapshots settings := by
    rw [hbroker]
    rfl
  have huses := fetchOpenOrderSnapshots_uses settings
  unfold ExecutionManager.reconcile
  rw [System.wp_bind, wp_loadLatest]
  have hload : ∀ event : Event sig, event.op = .loadLatestEntries →
      Grows (fun o => ¬Op.PlacesOrder o) τ (τ ++ [event]) := by
    intro event hop
    apply Grows.one
    rw [hop]
    exact id
  refine ⟨⟨by simp, Grows.refl τ⟩, fun _ => ?_⟩
  have hquery : ¬(s.ledger.loadOpenOrders = [] ∧ manager.broker.isIbkr = false) := by
    simp [hibkr]
  rw [System.seq_returned, if_neg hquery, hfetched]
  refine E.system.wp_seq (E.system.wp_and (hfetch _) (E.system.wp_and
    (wp_keepsLedger E (huses.mono fun _ h => h.1) _ s) (wp_grows E (huses.mono fun _ h => h.2) _ s)))
    ?_ ?_ ?_
  · rintro snapshots τ₁ s₁ ⟨hsnapshots, hledger, hgrows⟩
    have hmet := hsnapshots snapshots rfl
    rw [← hledger] at hmet
    refine E.system.wp_mono (wp_reconcileOpenOrders_stops E hibkr s₁ hmet τ₁) ?_
    rintro out τ₂ _ ⟨hout, hmore⟩
    exact ⟨hout, (hload _ rfl).trans (hgrows.trans hmore)⟩
  · rintro e _ _ ⟨-, -, hgrows⟩
    exact ⟨by simp, (hload _ rfl).trans hgrows⟩
  · rintro _ _ ⟨-, -, hgrows⟩
    exact ⟨by simp, (hload _ rfl).trans hgrows⟩

end Pass

/-- Recovery by reference inverts the construction of references. -/
structure InvertsOrderRefs : Prop where
  restored : ∀ (runId : String) (index : Nat) (suffix : Option Nat) (snapshot : OpenOrderSnapshot)
    (ref : String), runId ≠ "" → ColonFree snapshot.ticker →
    ref = buildOrderRef runId index snapshot.ticker snapshot.side ++ replacementSuffix suffix →
    snapshot.Working ref → ∀ (known : OrderStore) (rest : List OpenOrderSnapshot)
      (recovered : List OrderLedgerEntry), known.Lacks ref →
    ∃ entryAt : ℚ → ℚ → OrderLedgerEntry,
      (∀ submitted now, (entryAt submitted now).StandsFor ref runId snapshot.ticker
        snapshot.side) ∧
      restoreLoop known (snapshot :: rest) recovered =
        utcNow.bind fun submitted => utcNow.bind fun now =>
        (upsertEntry (entryAt submitted now)).bind fun _ =>
        restoreLoop (known.upsert (entryAt submitted now)) rest
          (recovered ++ [entryAt submitted now])
  returned : ∀ (runId : String) (index : Nat) (suffix : Option Nat) (snapshot : OpenOrderSnapshot)
    (ref : String), runId ≠ "" → ColonFree snapshot.ticker →
    ref = buildOrderRef runId index snapshot.ticker snapshot.side ++ replacementSuffix suffix →
    snapshot.Working ref → ∀ before after : List OpenOrderSnapshot,
    (∀ other ∈ before ++ after,
      stripReplacementSuffix (other.orderRef.getD "") ≠ stripReplacementSuffix ref) →
    ∀ {W : Type} (E : Environment W) (s : World W) (τ : List (Event sig)), s.ledger.Lacks ref →
    E.system.wp (restoreUntrackedBrokerOrders (before ++ snapshot :: after)) (fun out _ s' =>
      ∀ rows, out = .returned rows → ∃ row ∈ rows,
        row.StandsFor ref runId snapshot.ticker snapshot.side ∧ s'.ledger.latest ref = some row) τ s
  distinct : ∀ (runId runId' : String) (index index' : Nat) (ticker ticker' : String)
    (side side' : OrderSide), ColonFree ticker → ColonFree ticker' →
    buildOrderRef runId index ticker side = buildOrderRef runId' index' ticker' side' →
    runId = runId' ∧ index = index' ∧ ticker = ticker' ∧ side = side'
  sound : ∀ {W : Type} (E : Environment W) (snapshots : List OpenOrderSnapshot) (s : World W)
    (τ : List (Event sig)), E.system.wp (restoreUntrackedBrokerOrders snapshots) (fun out _ _ =>
      ∀ rows, out = .returned rows → ∀ row ∈ rows, RestoredFrom snapshots row) τ s
  stops : ∀ {W : Type} (E : Environment W) (manager : ExecutionManager) (settings : Settings)
    (s : World W) (τ : List (Event sig)), manager.broker = ibkrBroker settings →
    (∀ τ, E.system.wp (Ibkr.fetchOpenOrderSnapshots settings) (fun out _ _ => ∀ snapshots,
      out = .returned snapshots → ∃ snapshot ∈ ExecutionManager.referenced snapshots,
        ¬s.ledger.Explains snapshot) τ s) →
    E.system.wp manager.reconcile (fun out τ' _ =>
      (∀ summary, out ≠ .returned summary) ∧ Grows (fun o => ¬Op.PlacesOrder o) τ τ') τ s

/-- What a pass restores has the run, ticker and side its reference was built from, and a reference
that reads as no order of the snapshot's instrument stops the pass. -/
theorem inverts_orderRefs : InvertsOrderRefs where
  restored := by
    rintro runId index suffix snapshot ref hrun hticker rfl hworking known rest recovered hlacks
    have hreads : ReadsAs (stripReplacementSuffix (buildOrderRef runId index snapshot.ticker
        snapshot.side ++ replacementSuffix suffix)) runId snapshot.ticker snapshot.side := by
      rw [stripReplacementSuffix_build]
      exact buildOrderRef_readsAs hrun index hticker snapshot.side
    exact ⟨_, restoredEntry_standsFor, restoreLoop_of_lacks hlacks hworking hreads rest recovered⟩
  returned := by
    rintro runId index suffix snapshot ref hrun hticker rfl hworking before after hothers W E s τ
      hlacks
    have hreads : ReadsAs (stripReplacementSuffix (buildOrderRef runId index snapshot.ticker
        snapshot.side ++ replacementSuffix suffix)) runId snapshot.ticker snapshot.side := by
      rw [stripReplacementSuffix_build]
      exact buildOrderRef_readsAs hrun index hticker snapshot.side
    have hroot : stripReplacementSuffix (stripReplacementSuffix (buildOrderRef runId index
        snapshot.ticker snapshot.side ++ replacementSuffix suffix)) =
        stripReplacementSuffix (buildOrderRef runId index snapshot.ticker snapshot.side ++
          replacementSuffix suffix) := by
      rw [stripReplacementSuffix_build]
      exact not_not.mp (buildOrderRef_not_replacement runId index snapshot.ticker snapshot.side)
    rw [restoreUntrackedBrokerOrders, System.wp_bind, wp_loadLatest]
    refine ⟨by simp, fun _ => ?_⟩
    rw [System.seq_returned]
    exact wp_restoreLoop_restores E hworking hreads hroot hothers hlacks _
  distinct := by
    intro runId runId' index index' ticker ticker' side side' hticker hticker' h
    have hparts := refText_injective (colonFree_of_isDigits (isDigits_repr index)) hticker
      (colonFree_of_isDigits (isDigits_repr index')) hticker' h
    exact ⟨hparts.1, repr_injective hparts.2.1, hparts.2.2⟩
  sound := by
    intro W E snapshots s τ
    rw [restoreUntrackedBrokerOrders, System.wp_bind, wp_loadLatest]
    refine ⟨by simp, fun _ => ?_⟩
    rw [System.seq_returned]
    exact E.system.wp_mono (wp_restoreLoop_explains E snapshots s _)
      fun _ _ _ h rows hrows => (h rows hrows).1
  stops := by
    intro W E manager settings s τ hbroker hfetch
    exact wp_reconcile_stops E hbroker s τ hfetch

/-- A working replacement of a sale of a run. -/
def snapshotSale : OpenOrderSnapshot where
  orderRef := some "poma:20260105T150000Z:3:VTI:SELL:r2"
  orderId := some 7
  permId := none
  ticker := "VTI"
  side := .sell
  rawStatus := "Submitted"
  filled := 0
  remaining := 5
  avgFillPrice := none

/-- An order under a reference of no run. -/
def adhocTrade : IbTrade :=
  ⟨"poma:adhoc", "", some 9, none, "VTI", "SELL", 5, "Submitted", 0, 5, none, 0, none, none⟩

/-- A client library with one open trade. -/
def showsOpen (trade : IbTrade) : Environment Unit where
  Choice := Unit
  clock _ _ := 0
  answer _ _ o := (match o with
    | .ib .connect => .ok ()
    | .ib .disconnect => .ok ()
    | .ib .isConnected => .ok true
    | .ib .withinDeadline => .ok true
    | .ib .reqAllOpenOrders => .ok ()
    | .ib (.sleep _) => .ok ()
    | .ib .openTrades => .ok [trade]
    | _ => .error (.connection "not connected"), ())

/-- A replacement is restored as its run's, and an order of no run stops the pass. -/
theorem inverts_orderRefs_sale :
    openWorld.wp (restoreUntrackedBrokerOrders [snapshotSale]) (fun out _ s' => ∀ rows,
      out = .returned rows → ∃ row ∈ rows,
        row.StandsFor "poma:20260105T150000Z:3:VTI:SELL:r2" "20260105T150000Z" "VTI" .sell ∧
          s'.ledger.latest "poma:20260105T150000Z:3:VTI:SELL:r2" = some row)
      [] (World.of .empty) ∧
    (showsOpen adhocTrade).system.wp (ExecutionManager.mk (ibkrBroker .unset) .unset).reconcile
      (fun out τ _ => (∀ summary, out ≠ .returned summary) ∧
        Grows (fun o => ¬Op.PlacesOrder o) [] τ) [] (World.of .empty) := by
  constructor
  · have hticker : ColonFree "VTI" := by
      unfold ColonFree
      decide
    apply inverts_orderRefs.returned "20260105T150000Z" 3 (some 2) snapshotSale _ (by decide) hticker
      (by decide) ⟨by decide, by decide, by decide +kernel, by decide +kernel⟩ [] []
    · exact List.forall_mem_nil _
    · exact ⟨List.forall_mem_nil _, rfl⟩
  · apply inverts_orderRefs.stops (showsOpen adhocTrade) _ .unset _ _ rfl
    intro τ
    have hreads : parseOrderRef "poma:adhoc" "VTI" .sell = none := by decide
    have hstranger : ¬OrderStore.empty.Explains (Ibkr.openSnapshot .unset adhocTrade) := by
      rintro (⟨row, hrow, -⟩ | ⟨runId, hrun⟩)
      · cases hrow
      · have hsome := parseOrderRef_eq_some_iff.mpr hrun
        cases hreads.symm.trans hsome
    iterate 9 refine ⟨nofun, fun _ => ?_⟩
    rintro snapshots ⟨⟩
    exact ⟨_, by decide +kernel, hstranger⟩

end Poma
