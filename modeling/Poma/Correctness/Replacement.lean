import Poma.Correctness.Passes

/-!
# Adopting a reserved replacement

A pass takes a reserved replacement over exactly when it is what the row is
matched to. The match tries the row's own reference first, in the open orders
and then in the history, so a replacement is passed over whenever the original
is visible as well.
-/

namespace Poma

open Interaction

/-- The references a row can hold: its key, one reserved replacement, or that replacement. -/
structure OrderLedgerEntry.WellReferenced (entry : OrderLedgerEntry) : Prop where
  own : entry.orderRef = entry.ledgerKey ∨
    (entry.orderRef = entry.ledgerKey ++ ":r1" ∧ 0 < entry.replaceCount)
  reserved : ∀ ref, entry.replacementOrderRef = some ref →
    entry.orderRef = entry.ledgerKey ∧ ref = entry.ledgerKey ++ ":r1" ∧ 0 < entry.replaceCount

theorem OrderLedgerEntry.reservedRef_eq {entry : OrderLedgerEntry} {ref : String}
    (h : entry.reservedRef = some ref) : entry.replacementOrderRef = some ref :=
  (Option.filter_eq_some_iff.mp h).1

theorem OrderLedgerEntry.WellReferenced.of_reserved {entry : OrderLedgerEntry} {ref : String}
    (hw : entry.WellReferenced) (h : entry.reservedRef = some ref) :
    entry.orderRef = entry.ledgerKey ∧ ref = entry.ledgerKey ++ ":r1" :=
  ⟨(hw.reserved ref (OrderLedgerEntry.reservedRef_eq h)).1,
    (hw.reserved ref (OrderLedgerEntry.reservedRef_eq h)).2.1⟩

/-- A replacement's reference is not its original's. -/
theorem append_r1_ne (key : String) : key ++ ":r1" ≠ key := by
  intro h
  have hlength := congrArg String.length h
  rw [String.length_append] at hlength
  have hpositive : ":r1".length = 3 := by decide +kernel
  omega

/-- Changing what is reported of an order changes none of its references. -/
theorem OrderLedgerEntry.WellReferenced.of_eq {entry x : OrderLedgerEntry}
    (hw : entry.WellReferenced) (hkey : x.ledgerKey = entry.ledgerKey)
    (href : x.orderRef = entry.orderRef) (hcount : entry.replaceCount ≤ x.replaceCount)
    (hreserved : x.replacementOrderRef = none ∨
      x.replacementOrderRef = entry.replacementOrderRef) : x.WellReferenced where
  own := by
    rw [hkey, href]
    exact hw.own.imp_right fun h => ⟨h.1, h.2.trans_le hcount⟩
  reserved ref h := by
    rcases hreserved with hnone | hsame
    · rw [hnone] at h
      cases h
    · obtain ⟨hr, hk, hc⟩ := hw.reserved ref (hsame ▸ h)
      rw [hkey, href]
      exact ⟨hr, hk, hc.trans_le hcount⟩

/-- A row that became the replacement of its key holds that reference only. -/
theorem OrderLedgerEntry.wellReferenced_replacement {x : OrderLedgerEntry}
    (href : x.orderRef = x.ledgerKey ++ ":r1") (hcount : 0 < x.replaceCount)
    (hnone : x.replacementOrderRef = none) : x.WellReferenced where
  own := Or.inr ⟨href, hcount⟩
  reserved ref h := by
    rw [hnone] at h
    cases h

theorem Followed.wellReferenced {entry u : OrderLedgerEntry} {snapshot : OpenOrderSnapshot}
    (h : Followed entry snapshot u) (hw : entry.WellReferenced) : u.WellReferenced := by
  cases h with
  | kept stamp _ => exact hw.of_eq rfl rfl le_rfl (Or.inr rfl)
  | released stamp ref _ => exact hw.of_eq rfl rfl le_rfl (Or.inl rfl)

theorem OrderLedgerEntry.WellReferenced.replaceIntent {u : OrderLedgerEntry}
    (hw : u.WellReferenced) (h : u.replaceCount = 0) : u.replaceIntent.WellReferenced where
  own := Or.inl <| hw.own.elim id fun hr => absurd hr.2 (by omega)
  reserved ref hr := by
    have heq : u.ledgerKey ++ ":r1" = ref := by
      rw [u.replaceIntent_ref h] at hr
      exact Option.some.inj hr
    exact ⟨hw.own.elim id fun hr => absurd hr.2 (by omega), heq.symm, Nat.succ_pos _⟩

theorem Acted.wellReferenced {replies : OpenOrderSnapshot → Prop} {u x : OrderLedgerEntry}
    (h : Acted replies u x) (hw : u.WellReferenced) : x.WellReferenced := by
  cases h with
  | cancelRequested reason => exact hw.of_eq rfl rfl le_rfl (Or.inr rfl)
  | intent h => exact hw.replaceIntent h.unreplaced
  | deferred h message => exact (hw.replaceIntent h.unreplaced).of_eq rfl rfl le_rfl (Or.inr rfl)
  | originalFilled h snapshot hs stamp =>
    have hcount : u.replaceCount ≤ 1 := by
      rw [h.unreplaced]
      exact Nat.zero_le 1
    exact hw.of_eq rfl rfl hcount (Or.inr rfl)
  | replaced h snapshot hs newLimit metadata now stamp =>
    cases metadata <;>
      exact OrderLedgerEntry.wellReferenced_replacement rfl (Nat.succ_pos _) rfl

/-- Every row a pass records holds references of its own key only. -/
theorem Successor.wellReferenced {replies : OpenOrderSnapshot → Prop}
    {entry x : OrderLedgerEntry} {openSnapshots completed : List OpenOrderSnapshot}
    (h : Successor replies entry openSnapshots completed x) (hw : entry.WellReferenced)
    (hadopt : ∀ snapshot, sighting entry openSnapshots completed = some (snapshot, true) →
      entry.reservedRef.isSome) : x.WellReferenced := by
  cases h with
  | adopted snapshot stamp h =>
    obtain ⟨ref, href⟩ := Option.isSome_iff_exists.mp (hadopt snapshot h)
    have hraw := OrderLedgerEntry.reservedRef_eq href
    refine OrderLedgerEntry.wellReferenced_replacement ?_ (hw.reserved ref hraw).2.2 rfl
    have hown : entry.replacementOrderRef.getD "" = entry.ledgerKey ++ ":r1" := by
      rw [hraw]
      exact (hw.reserved ref hraw).2.1
    exact hown
  | followed snapshot u h hu => exact hu.wellReferenced hw
  | acted snapshot u x h hu hrecovered hworking hid hx =>
    exact hx.wellReferenced (hu.wellReferenced hw)
  | resumed snapshot seen ref h href hcancelled reply hreply newLimit metadata now stamp =>
    have hraw := OrderLedgerEntry.reservedRef_eq href
    obtain ⟨_, hkey, hcount⟩ := hw.reserved ref hraw
    subst hkey
    cases metadata <;> exact OrderLedgerEntry.wellReferenced_replacement rfl hcount rfl
  | closed snapshot stamp hopen h hterminal => exact hw.of_eq rfl rfl le_rfl (Or.inl rfl)
  | unverified now hopen => exact hw.of_eq rfl rfl le_rfl (Or.inr rfl)

/-- Only a row with a reservation is matched to a replacement. -/
theorem matchSnapshot_true {entry : OrderLedgerEntry} {snapshots : List OpenOrderSnapshot}
    {snapshot : OpenOrderSnapshot} (h : matchSnapshot entry snapshots = some (snapshot, true)) :
    ∃ ref, entry.reservedRef = some ref ∧ snapshot ∈ snapshots ∧
      snapshot.orderRef = some ref := by
  unfold matchSnapshot at h
  split at h
  · cases h
  split at h
  · rename_i found hfound
    cases h
    cases href : entry.reservedRef with
    | none =>
      rw [href] at hfound
      cases hfound
    | some ref =>
      rw [href] at hfound
      have hsome : snapshots.find? (·.orderRef = some ref) = some snapshot := hfound
      exact ⟨ref, rfl, List.mem_of_find?_eq_some hsome, by simpa using List.find?_some hsome⟩
  · rw [Option.map_eq_some_iff] at h
    obtain ⟨_, _, hpair⟩ := h
    cases hpair

theorem sighting_true {entry : OrderLedgerEntry}
    {openSnapshots completed : List OpenOrderSnapshot} {snapshot : OpenOrderSnapshot}
    (h : sighting entry openSnapshots completed = some (snapshot, true)) :
    ∃ ref, entry.reservedRef = some ref ∧ snapshot.orderRef = some ref := by
  unfold sighting at h
  cases hopen : matchSnapshot entry openSnapshots with
  | some found =>
    rw [hopen] at h
    obtain rfl : found = (snapshot, true) := Option.some.inj h
    obtain ⟨ref, href, _, hsnap⟩ := matchSnapshot_true hopen
    exact ⟨ref, href, hsnap⟩
  | none =>
    rw [hopen] at h
    obtain ⟨ref, href, _, hsnap⟩ := matchSnapshot_true h
    exact ⟨ref, href, hsnap⟩

private theorem find?_filter_of_imp {α : Type} {p q : α → Bool} {xs : List α}
    (h : ∀ a ∈ xs, q a → p a) : (xs.filter p).find? q = xs.find? q := by
  induction xs with
  | nil => rfl
  | cons x xs ih =>
    have htail := ih fun a ha => h a (List.mem_cons_of_mem _ ha)
    cases hp : p x with
    | true => rw [List.filter_cons_of_pos hp, List.find?_cons, List.find?_cons, htail]
    | false =>
      have hq : q x = false := by
        cases hq : q x with
        | false => rfl
        | true => exact absurd (h x List.mem_cons_self hq) (by simp [hp])
      rw [List.filter_cons_of_neg (by simp [hp]), htail, List.find?_cons_of_neg (by simp [hq])]

private theorem startsWith_self (text : String) : startsWith text text = true := by
  simp [startsWith]

/-- Snapshots of no family of the row do not matter to its match. -/
theorem matchSnapshot_filter {entry : OrderLedgerEntry} {snapshots : List OpenOrderSnapshot}
    {p : OpenOrderSnapshot → Bool}
    (h : ∀ snapshot ∈ snapshots, (∃ ref ∈ entry.refs,
      startsWith (snapshot.orderRef.getD "") ref = true) → p snapshot = true) :
    matchSnapshot entry (snapshots.filter p) = matchSnapshot entry snapshots := by
  unfold matchSnapshot
  have hown : (snapshots.filter p).find? (·.orderRef = some entry.orderRef) =
      snapshots.find? (·.orderRef = some entry.orderRef) := by
    refine find?_filter_of_imp fun snapshot hmem hq => h snapshot hmem ⟨entry.orderRef, ?_, ?_⟩
    · simp [OrderLedgerEntry.refs]
    · rw [of_decide_eq_true hq]
      exact startsWith_self _
  have hfamily : (snapshots.filter p).find? entry.matchesFamily =
      snapshots.find? entry.matchesFamily := by
    refine find?_filter_of_imp fun snapshot hmem hq => h snapshot hmem ⟨entry.ledgerKey, ?_, ?_⟩
    · simp [OrderLedgerEntry.refs]
    · unfold OrderLedgerEntry.matchesFamily at hq
      simp only [Bool.and_eq_true] at hq
      exact hq.1.1
  have hreserved : (entry.reservedRef.bind fun ref =>
      (snapshots.filter p).find? (·.orderRef = some ref)) =
      entry.reservedRef.bind fun ref => snapshots.find? (·.orderRef = some ref) := by
    cases href : entry.reservedRef with
    | none => rfl
    | some ref =>
      refine find?_filter_of_imp fun snapshot hmem hq => h snapshot hmem ⟨ref, ?_, ?_⟩
      · simp [OrderLedgerEntry.refs, href]
      · rw [of_decide_eq_true hq]
        exact startsWith_self _
  rw [hown, hfamily, hreserved]

/-- A snapshot that carries a reference, for the ticker and side of a row. -/
def OpenOrderSnapshot.IsFor (snapshot : OpenOrderSnapshot) (entry : OrderLedgerEntry)
    (ref : String) : Prop :=
  snapshot.orderRef = some ref ∧ snapshot.ticker = entry.ticker ∧ snapshot.side = entry.side

/-- A row that is the order of a reference, with the figures of a snapshot. -/
structure OrderLedgerEntry.Shows (row : OrderLedgerEntry) (ref : String)
    (snapshot : OpenOrderSnapshot) : Prop where
  orderRef : row.orderRef = ref
  lifecycleState : row.lifecycleState = snapshot.lifecycle
  filledQty : row.filledQty = snapshot.filled
  avgFillPrice : row.avgFillPrice = snapshot.avgFillPrice

/-- A ledger whose row of a key shows one of the snapshots of the replacement. -/
def ShowsReplacement (store : OrderStore) (entry : OrderLedgerEntry) (ref : String)
    (snapshots : List OpenOrderSnapshot) : Prop :=
  ∃ row, store.latest entry.ledgerKey = some row ∧
    ∃ snapshot ∈ snapshots, snapshot.IsFor entry ref ∧ row.Shows ref snapshot

/-- The broker's two order lists in a pass, whatever else it answers. -/
def PassAnswers (openOrders completedOrders : List OpenOrderSnapshot) (c : Oracle) : Prop :=
  PassReports.Answers ⟨.ok openOrders, .ok completedOrders⟩ c

/-- Every pass that ends, by returning or by raising, leaves the replacement in the row. -/
def ReplacementKept (manager : ExecutionManager) (store : OrderStore) (entry : OrderLedgerEntry)
    (ref : String) (openOrders completedOrders : List OpenOrderSnapshot) : Prop :=
  ∀ cs : List Oracle, (∀ c ∈ cs, PassAnswers openOrders completedOrders c) →
    (openWorld.run manager.reconcile cs (World.of store)).outcome ≠ .stopped →
    ShowsReplacement (openWorld.run manager.reconcile cs (World.of store)).state.ledger entry ref
      (openOrders ++ completedOrders)

/-- The snapshot of a reserved replacement that a pass meets first: the original is not open, and
either the replacement is, or nothing of its family is open and the original is not completed. -/
def ReplacementSeen (entry : OrderLedgerEntry) (ref : String)
    (openSnapshots completed : List OpenOrderSnapshot) (snapshot : OpenOrderSnapshot) : Prop :=
  (∀ other ∈ openSnapshots, other.orderRef ≠ some entry.orderRef) ∧
  (openSnapshots.find? (·.orderRef = some ref) = some snapshot ∨
    (∀ other ∈ openSnapshots, other.orderRef ≠ some ref ∧ entry.matchesFamily other = false) ∧
    (∀ other ∈ completed, other.orderRef ≠ some entry.orderRef) ∧
    completed.find? (·.orderRef = some ref) = some snapshot)

/-- The replacement is what a pass meets, with figures a visible snapshot of it has. -/
def MatchedToReplacement (entry : OrderLedgerEntry) (ref : String)
    (openOrders completedOrders : List OpenOrderSnapshot) : Prop :=
  ∃ snapshot, ReplacementSeen entry ref (ExecutionManager.referenced openOrders)
      (ExecutionManager.referenced completedOrders) snapshot ∧
    ∃ shown ∈ openOrders ++ completedOrders, shown.IsFor entry ref ∧
      snapshot.lifecycle = shown.lifecycle ∧ snapshot.filled = shown.filled ∧
      (snapshot.avgFillPrice <|> entry.avgFillPrice) = shown.avgFillPrice

theorem matchSnapshot_eq_true_iff {entry : OrderLedgerEntry} {ref : String}
    (href : entry.reservedRef = some ref) {snapshots : List OpenOrderSnapshot}
    {snapshot : OpenOrderSnapshot} : matchSnapshot entry snapshots = some (snapshot, true) ↔
      (∀ other ∈ snapshots, other.orderRef ≠ some entry.orderRef) ∧
        snapshots.find? (·.orderRef = some ref) = some snapshot := by
  unfold matchSnapshot
  cases hown : snapshots.find? (·.orderRef = some entry.orderRef) with
  | some found =>
    have hfound : found.orderRef = some entry.orderRef := by simpa using List.find?_some hown
    simp only [Option.some.injEq, Prod.mk.injEq, Bool.false_eq_true, and_false, false_iff]
    exact fun h => h.1 found (List.mem_of_find?_eq_some hown) hfound
  | none =>
    have hall : ∀ other ∈ snapshots, other.orderRef ≠ some entry.orderRef := by
      simpa [List.find?_eq_none] using hown
    rw [href]
    dsimp only [Option.bind_some]
    cases snapshots.find? (·.orderRef = some ref) with
    | some found => simpa using fun _ => hall
    | none => simp

theorem matchSnapshot_eq_none_iff {entry : OrderLedgerEntry} {ref : String}
    (href : entry.reservedRef = some ref) {snapshots : List OpenOrderSnapshot} :
    matchSnapshot entry snapshots = none ↔ (∀ other ∈ snapshots,
      other.orderRef ≠ some entry.orderRef) ∧
      ∀ other ∈ snapshots, other.orderRef ≠ some ref ∧ entry.matchesFamily other = false := by
  unfold matchSnapshot
  rw [href]
  dsimp only [Option.bind_some]
  cases hown : snapshots.find? (·.orderRef = some entry.orderRef) with
  | some found =>
    have hfound : found.orderRef = some entry.orderRef := by simpa using List.find?_some hown
    simp only [reduceCtorEq, false_iff]
    exact fun h => h.1 found (List.mem_of_find?_eq_some hown) hfound
  | none =>
    have hall : ∀ other ∈ snapshots, other.orderRef ≠ some entry.orderRef := by
      simpa [List.find?_eq_none] using hown
    cases hreserved : snapshots.find? (·.orderRef = some ref) with
    | some found =>
      have hfound : found.orderRef = some ref := by simpa using List.find?_some hreserved
      simp only [reduceCtorEq, false_iff]
      exact fun h => (h.2 found (List.mem_of_find?_eq_some hreserved)).1 hfound
    | none =>
      have hrefs : ∀ other ∈ snapshots, other.orderRef ≠ some ref := by
        simpa [List.find?_eq_none] using hreserved
      simp only [Option.map_eq_none_iff, List.find?_eq_none, Bool.not_eq_true]
      exact ⟨fun h => ⟨hall, fun other hmem => ⟨hrefs other hmem, h other hmem⟩⟩,
        fun h other hmem => (h.2 other hmem).2⟩

/-- A row is matched to a snapshot of its replacement exactly when that is the one met first. -/
theorem sighting_eq_true_iff {entry : OrderLedgerEntry} {ref : String}
    (href : entry.reservedRef = some ref) {openSnapshots completed : List OpenOrderSnapshot}
    {snapshot : OpenOrderSnapshot} :
    sighting entry openSnapshots completed = some (snapshot, true) ↔
      ReplacementSeen entry ref openSnapshots completed snapshot := by
  have hcompleted : matchSnapshot entry completed = some (snapshot, true) ↔ _ :=
    matchSnapshot_eq_true_iff href
  unfold sighting ReplacementSeen
  cases hopen : matchSnapshot entry openSnapshots with
  | some found =>
    have hsome : ¬matchSnapshot entry openSnapshots = none := by simp [hopen]
    rw [matchSnapshot_eq_none_iff href] at hsome
    have hfound : some found = some (snapshot, true) ↔ _ :=
      hopen ▸ matchSnapshot_eq_true_iff href
    refine Iff.trans (b := some found = some (snapshot, true)) Iff.rfl (hfound.trans ?_)
    exact and_congr_right fun hown => ⟨Or.inl, fun h => h.elim id fun hrest =>
      absurd ⟨hown, hrest.1⟩ hsome⟩
  | none =>
    obtain ⟨hown, hrest⟩ := (matchSnapshot_eq_none_iff href).mp hopen
    have hnot : openSnapshots.find? (·.orderRef = some ref) ≠ some snapshot := fun h =>
      (hrest snapshot (List.mem_of_find?_eq_some h)).1 (by simpa using List.find?_some h)
    refine Iff.trans (b := matchSnapshot entry completed = some (snapshot, true)) Iff.rfl
      (hcompleted.trans ?_)
    exact ⟨fun h => ⟨hown, Or.inr ⟨hrest, h⟩⟩, fun h => (h.2.resolve_left hnot).2⟩

section Adoption

variable {manager : ExecutionManager} {entry : OrderLedgerEntry} {ref : String}
  {openOrders completedOrders : List OpenOrderSnapshot}

/-- The adopted row shows a snapshot exactly when their figures agree. -/
theorem adopted_shows_iff (href : entry.reservedRef = some ref) (snapshot shown : OpenOrderSnapshot)
    (stamp : ℚ) : (adoptReplacement entry snapshot stamp).Shows ref shown ↔
      snapshot.lifecycle = shown.lifecycle ∧ snapshot.filled = shown.filled ∧
        (snapshot.avgFillPrice <|> entry.avgFillPrice) = shown.avgFillPrice := by
  have hraw := OrderLedgerEntry.reservedRef_eq href
  constructor
  · rintro ⟨_, hlifecycle, hfilled, havg⟩
    exact ⟨hlifecycle, hfilled, havg⟩
  · rintro ⟨hlifecycle, hfilled, havg⟩
    refine ⟨?_, hlifecycle, hfilled, havg⟩
    have hget : entry.replacementOrderRef.getD "" = ref := by rw [hraw]; rfl
    exact hget

/-- Without a reply of the broker, only an adoption changes the reference of a row. -/
theorem Successor.adopted_of_ref_ne {x : OrderLedgerEntry}
    {openSnapshots completed : List OpenOrderSnapshot}
    (h : Successor (fun _ => False) entry openSnapshots completed x)
    (hne : x.orderRef ≠ entry.orderRef) : ∃ snapshot stamp,
      sighting entry openSnapshots completed = some (snapshot, true) ∧
        x = adoptReplacement entry snapshot stamp := by
  cases h with
  | adopted snapshot stamp h => exact ⟨snapshot, stamp, h, rfl⟩
  | followed snapshot u h hu => cases hu <;> exact absurd rfl hne
  | acted snapshot u x h hu hrecovered hworking hid hx =>
    cases hx with
    | originalFilled _ _ hreply => exact hreply.elim
    | replaced _ _ hreply => exact hreply.elim
    | cancelRequested _ => cases hu <;> exact absurd rfl hne
    | intent _ => cases hu <;> exact absurd rfl hne
    | deferred _ _ => cases hu <;> exact absurd rfl hne
  | resumed _ _ _ _ _ _ _ hreply => exact hreply.elim
  | closed snapshot stamp hopen h hterminal => exact absurd rfl hne
  | unverified now hopen => exact absurd rfl hne

/-- The history a pass works with matches the row as the whole history does. -/
def SameMatch (entry : OrderLedgerEntry) (completedOrders openSnapshots : List OpenOrderSnapshot)
    (history : Except Exn (List OpenOrderSnapshot)) : Prop :=
  ∃ completed, history = .ok completed ∧ (matchSnapshot entry openSnapshots = none →
    matchSnapshot entry completed =
      matchSnapshot entry (ExecutionManager.referenced completedOrders))

theorem SameMatch.sighting_eq {openSnapshots completed : List OpenOrderSnapshot}
    (h : SameMatch entry completedOrders openSnapshots (.ok completed)) :
    sighting entry openSnapshots completed =
      sighting entry openSnapshots (ExecutionManager.referenced completedOrders) := by
  obtain ⟨_, ⟨⟩, hmatch⟩ := h
  unfold sighting
  cases hopen : matchSnapshot entry openSnapshots with
  | some found => rfl
  | none => rw [hmatch hopen]

/-- The filter a pass applies to its history keeps the families of its unmatched rows. -/
theorem sameMatch_filter {openSnapshots : List OpenOrderSnapshot} {wanted : List String}
    (hwanted : matchSnapshot entry openSnapshots = none → ∀ r ∈ entry.refs, r ∈ wanted) :
    SameMatch entry completedOrders openSnapshots (.ok (completedOrders.filter fun snapshot =>
      match snapshot.orderRef with
      | some r => r ≠ "" && wanted.any (startsWith r ·)
      | none => false)) := by
  refine ⟨_, rfl, fun hopen => ?_⟩
  have hsplit : (completedOrders.filter fun snapshot =>
      match snapshot.orderRef with
      | some r => r ≠ "" && wanted.any (startsWith r ·)
      | none => false) =
      (ExecutionManager.referenced completedOrders).filter fun snapshot =>
        wanted.any (startsWith (snapshot.orderRef.getD "") ·) := by
    unfold ExecutionManager.referenced
    rw [List.filter_filter]
    refine List.filter_congr fun snapshot _ => ?_
    cases snapshot.orderRef with
    | none => simp
    | some r => simp [Bool.and_comm]
  rw [hsplit]
  refine matchSnapshot_filter fun snapshot _ ⟨r, hr, hstarts⟩ => ?_
  exact List.any_eq_true.mpr ⟨r, hwanted hopen r hr, hstarts⟩

end Adoption

section Pass

variable {settings : Settings} {isIbkr hasReplacement hasHistory : Bool}
  {entry : OrderLedgerEntry} {ref : String} {openOrders completedOrders : List OpenOrderSnapshot}
  {P : Oracle → Prop}

theorem wp_fetchOpen (hP : ∀ c, P c → PassAnswers openOrders completedOrders c)
    (τ : List (Event sig)) (s : World Unit) :
    (openEnvironment.restrict P).system.wp
      (protocolManager settings isIbkr hasReplacement hasHistory).broker.fetchOpenOrderSnapshots
      (fun out _ _ => (∀ fetched, out = .returned fetched → fetched = openOrders) ∧
        ∀ e, out ≠ .raised e) τ s :=
  wp_askBroker_ok (fun c hc => (hP c hc).1) τ s

/-- The history of a pass matches the row as the answered history does. -/
theorem wp_history {reports : PassReports} (hP : ∀ c, P c → reports.Answers c)
    (hcompleted : reports.completed = .ok completedOrders)
    (hhistory : isIbkr = true ∨ hasHistory = true ∨ completedOrders = [])
    {entries : List OrderLedgerEntry}
    (hmem : entry ∈ entries) (openSnapshots : List OpenOrderSnapshot) (τ : List (Event sig))
    (s : World Unit) : (openEnvironment.restrict P).system.wp
      ((protocolManager settings isIbkr hasReplacement hasHistory).completedSnapshots entries
        openSnapshots)
      (fun out _ _ => ∀ history, out = .returned history →
        SameMatch entry completedOrders openSnapshots history) τ s := by
  unfold ExecutionManager.completedSnapshots
  dsimp only
  split
  · rename_i hnone
    intro history hout
    obtain rfl := Outcome.returned.inj hout
    refine ⟨[], rfl, fun hopen => ?_⟩
    have hin : entry ∈ entries.filter fun entry =>
        (matchSnapshot entry openSnapshots).isNone := by
      rw [List.mem_filter, hopen]
      exact ⟨hmem, rfl⟩
    rw [hnone] at hin
    cases hin
  · have hquery : (openEnvironment.restrict P).system.wp
        ((protocolManager settings isIbkr hasReplacement hasHistory).completedHistory
          (entries.filter fun entry => (matchSnapshot entry openSnapshots).isNone))
        (fun out _ _ => (∀ completed, out = .returned completed → completed = completedOrders) ∧
          ∀ e, out ≠ .raised e) τ s := by
      by_cases hasked : isIbkr = true ∨ hasHistory = true
      · refine System.wp_mono _ (wp_completedHistory hP hasked _ τ s) fun out _ _ hout => ⟨?_, ?_⟩
        · exact fun completed h =>
            (Except.ok.inj (hcompleted.symm.trans (hout.2.1 completed h))).symm
        · exact fun e h => nomatch hcompleted.symm.trans (hout.2.2 e h)
      · obtain ⟨hibkr, hmethod⟩ := not_or.mp hasked
        obtain rfl := (hhistory.resolve_left hibkr).resolve_left hmethod
        unfold ExecutionManager.completedHistory protocolManager protocolBroker
        rw [Bool.eq_false_iff.mpr hibkr, Bool.eq_false_iff.mpr hmethod]
        exact ⟨fun completed h => (Outcome.returned.inj h).symm, nofun⟩
    rw [System.wp_bind, System.wp_attempt]
    refine System.wp_mono _ hquery fun out τ' s' hout => ?_
    cases out with
    | stopped => exact nofun
    | raised e => exact absurd rfl (hout.2 e)
    | returned completed =>
      obtain rfl := hout.1 completed rfl
      intro history hreturned
      obtain rfl := Outcome.returned.inj hreturned
      refine sameMatch_filter fun hopen r hr => ?_
      refine List.mem_flatMap.mpr ⟨entry, ?_, hr⟩
      rw [List.mem_filter, hopen]
      exact ⟨hmem, rfl⟩

/-- The end of a part that never raises and, when it returns, leaves an adopted row. -/
private def Adopted {α W : Type} (entry : OrderLedgerEntry) (snapshot : OpenOrderSnapshot) :
    Post sig (World W) α := fun out _ s =>
  match out with
  | .returned _ => ∃ stamp,
      s.ledger.latest entry.ledgerKey = some (adoptReplacement entry snapshot stamp)
  | .raised _ => False
  | .stopped => True

private theorem wp_reportAdopted {W : Type} (E : Environment W) (entry : OrderLedgerEntry)
    (snapshot : OpenOrderSnapshot) (action : ℚ → Option ReconcileAction) (τ : List (Event sig))
    (s : World W) :
    E.system.wp (utcNow.bind fun stamp =>
      ExecutionManager.report (adoptReplacement entry snapshot stamp) (action stamp) true)
      (Adopted entry snapshot) τ s := by
  have hkey : ∀ stamp, (adoptReplacement entry snapshot stamp).ledgerKey = entry.ledgerKey :=
    fun _ => rfl
  unfold Adopted
  generalize adoptReplacement entry snapshot = adopt at hkey ⊢
  simp only [ExecutionManager.report, System.wp_bind, wp_utcNow, wp_upsertEntry,
    System.seq_stopped, System.seq_returned, System.wp_ret]
  refine ⟨trivial, fun c => ⟨trivial, fun _ => ?_⟩⟩
  exact ⟨E.clock c s.outside, OrderStore.latest_upsert_of_eq (hkey _)⟩

private theorem wp_reconcileEntry_adopts {W : Type} (E : Environment W)
    {manager : ExecutionManager} {openSnapshots completed : List OpenOrderSnapshot}
    {snapshot : OpenOrderSnapshot}
    (h : sighting entry openSnapshots completed = some (snapshot, true)) (now : ℚ)
    (τ : List (Event sig)) (s : World W) :
    E.system.wp (manager.reconcileEntry entry openSnapshots completed now)
      (Adopted entry snapshot) τ s := by
  unfold ExecutionManager.reconcileEntry
  unfold sighting at h
  cases hopen : matchSnapshot entry openSnapshots with
  | some found =>
    rw [hopen] at h
    obtain rfl : found = (snapshot, true) := Option.some.inj h
    exact wp_reportAdopted E entry snapshot (fun _ => some .replace) τ s
  | none =>
    rw [hopen] at h
    have hcompleted : matchSnapshot entry completed = some (snapshot, true) := h
    rw [hcompleted]
    exact wp_reportAdopted E entry snapshot (fun stamp => some
      (if (adoptReplacement entry snapshot stamp).isTerminal then .closed else .replace)) τ s

/-- A row matched to its replacement is recorded as the replacement. -/
theorem wp_handleEntry_adopts {W : Type} (E : Environment W) {manager : ExecutionManager}
    {openSnapshots completed : List OpenOrderSnapshot} {snapshot : OpenOrderSnapshot}
    (h : sighting entry openSnapshots completed = some (snapshot, true))
    (recovered : List OrderLedgerEntry) (now : ℚ) (τ : List (Event sig)) (s : World W) :
    E.system.wp (manager.handleEntry openSnapshots (.ok completed) recovered now entry)
      (fun out _ s' => ∀ update, out = .returned update → ∃ stamp,
        s'.ledger.latest entry.ledgerKey = some (adoptReplacement entry snapshot stamp)) τ s := by
  unfold ExecutionManager.handleEntry Prog.catching
  dsimp only
  rw [System.wp_bind, System.wp_attempt, System.wp_bind]
  refine E.system.wp_mono (wp_reconcileEntry_adopts E h now τ s) fun out τ' s' hadopted => ?_
  cases out with
  | returned update => exact fun _ _ => hadopted
  | raised e => exact hadopted.elim
  | stopped => exact fun _ hout => by cases hout

/-- The answers under which no replacement is ever placed for a row. -/
def NoReplies (c : Oracle) : Prop :=
  (∀ request, ∃ e, c.answer (.broker (.replaceOrder request)) = .error e) ∧
  ∀ request, ∃ e, c.answer (.broker (.submitReplacement request)) = .error e

/-- The assumption on the answers while no replacement is ever placed. -/
def relyNoReplies : (o : Op) → Except Exn o.Ans → Prop
  | .broker (.replaceOrder _), r => ∃ e, r = .error e
  | .broker (.submitReplacement _), r => ∃ e, r = .error e
  | _, _ => True

theorem handlingMeets_noReplies {guarantee : Op → Prop}
    (hkeep : ∀ o, o.KeepsLedger → guarantee o)
    {openSnapshots completed : List OpenOrderSnapshot}
    (hrecord : ∀ x, Successor (fun _ => False) entry openSnapshots completed x →
      guarantee (.upsert x)) :
    HandlingMeets (protocolManager settings isIbkr hasReplacement hasHistory) relyNoReplies
      guarantee (fun _ _ => True) (fun _ => False) entry openSnapshots completed where
  load := hkeep _ trivial
  clock := hkeep _ trivial
  quotes _ := .of_uses (Prog.uses_perform (hkeep _ trivial))
  cancel _ _ _ _ _ _ _ _ _ := .of_uses (Prog.uses_perform (hkeep _ trivial))
  replace _ _ request _ _ _ _ _ := by
    refine ⟨hkeep _ trivial, fun r hr => ?_⟩
    obtain ⟨e, rfl⟩ := hr
    trivial
  submit submit request _ _ hs _ _ _ _ := by
    cases hasReplacement with
    | false => cases hs
    | true =>
      obtain rfl := Option.some.inj hs
      refine ⟨hkeep _ trivial, fun r hr => ?_⟩
      obtain ⟨e, rfl⟩ := hr
      trivial
  record := hrecord

/-- Without a reply, the row stays or becomes one of its successors. -/
theorem wp_handleEntry_noReplies (hP : ∀ c, P c → NoReplies c)
    {openSnapshots : List OpenOrderSnapshot} {history : Except Exn (List OpenOrderSnapshot)}
    (recovered : List OrderLedgerEntry) (now : ℚ) (τ : List (Event sig)) (s : World Unit)
    (hs : s.ledger.latest entry.ledgerKey = some entry) :
    (openEnvironment.restrict P).system.wp
      ((protocolManager settings isIbkr hasReplacement hasHistory).handleEntry openSnapshots
        history recovered now entry)
      (fun _ _ s' => ∃ row, s'.ledger.latest entry.ledgerKey = some row ∧ (row = entry ∨
        Successor (fun _ => False) entry openSnapshots (history.toOption.getD []) row)) τ s := by
  let guarantee : Op → Prop := fun o => ∀ x, o = .upsert x →
    Successor (fun _ => False) entry openSnapshots (history.toOption.getD []) x
  have hmeets : ((protocolManager settings isIbkr hasReplacement hasHistory).handleEntry
      openSnapshots history recovered now entry).Meets (S := sig) relyNoReplies guarantee
      fun _ => True := by
    refine (meets_handleEntry (handlingMeets_noReplies ?_ ?_)).mono (fun _ ho => ho)
      fun _ _ => trivial
    · rintro o ho x rfl
      exact ho.elim
    · rintro x hx y ⟨⟩
      exact hx
  refine System.wp_mono _ (System.wp_of_meets _ (I := fun _ s' =>
    ∃ row, s'.ledger.latest entry.ledgerKey = some row ∧ (row = entry ∨
      Successor (fun _ => False) entry openSnapshots (history.toOption.getD []) row))
    hmeets ?_ ⟨entry, hs, Or.inl rfl⟩) fun _ _ _ h => h.1
  rintro o ho c τ' s' ⟨row, hrow, hcase⟩
  constructor
  · cases o with
    | broker call =>
      cases call with
      | replaceOrder request => exact (hP c.1 c.2).1 request
      | submitReplacement request => exact (hP c.1 c.2).2 request
      | _ => trivial
    | _ => trivial
  · rw [act_ledger (openEnvironment.restrict P) c s' o]
    cases o with
    | upsert x =>
      have hx := ho x rfl
      exact ⟨x, OrderStore.latest_upsert_of_eq hx.sameOrder.ledgerKey, Or.inr hx⟩
    | _ => exact ⟨row, hrow, hcase⟩

theorem listsOnly_passAnswers (clock : ℚ) :
    PassAnswers openOrders completedOrders (listsOnly clock openOrders completedOrders) :=
  ⟨rfl, rfl, fun _ _ => rfl⟩

theorem listsOnly_noReplies (clock : ℚ) :
    NoReplies (listsOnly clock openOrders completedOrders) :=
  ⟨fun _ => ⟨_, rfl⟩, fun _ => ⟨_, rfl⟩⟩

/-- A scan that never raises, whatever the clock says, is clear. -/
theorem restoreClear_of_wp (snapshots : List OpenOrderSnapshot) :
    ∀ (recovered : List OrderLedgerEntry) (τ : List (Event sig)) (s : World Unit),
      (openEnvironment.restrict (PassAnswers openOrders completedOrders)).system.wp
        (restoreLoop s.ledger snapshots recovered) (fun out _ _ => ∀ e, out ≠ .raised e) τ s →
      RestoreClear s.ledger snapshots := by
  induction snapshots with
  | nil => exact fun _ _ _ _ => trivial
  | cons snapshot rest ih =>
    intro recovered τ s h
    rw [restoreLoop] at h
    rw [RestoreClear]
    cases hdecision : restoreDecision s.ledger snapshot with
    | known =>
      rw [hdecision] at h
      exact ih recovered τ s h
    | conflict e =>
      rw [hdecision] at h
      exact absurd rfl (h e)
    | restore entryAt =>
      rw [hdecision] at h
      simp only [System.wp_bind, wp_utcNow, System.seq_stopped, System.seq_returned] at h
      intro submitted now
      have hnow := (h.2 ⟨listsOnly submitted openOrders completedOrders,
        listsOnly_passAnswers submitted⟩).2 ⟨listsOnly now openOrders completedOrders,
          listsOnly_passAnswers now⟩
      split at hnow
      · exact absurd rfl (hnow _)
      · rename_i hterminal
        simp only [System.wp_bind, wp_upsertEntry, System.seq_stopped, System.seq_returned] at hnow
        have hrest := hnow.2 ⟨listsOnly now openOrders completedOrders, listsOnly_passAnswers now⟩
        refine ⟨Bool.eq_false_iff.mpr hterminal, ?_⟩
        exact ih _ _ { s with ledger := s.ledger.upsert ((entryAt submitted).withSnapshot snapshot
          now) } hrest

/-- A row with a reservation is still under its own reference. -/
theorem OrderLedgerEntry.WellReferenced.ref_ne (hw : entry.WellReferenced)
    (href : entry.reservedRef = some ref) : entry.orderRef ≠ ref := by
  obtain ⟨hown, rfl⟩ := hw.of_reserved href
  rw [hown]
  exact (append_r1_ne entry.ledgerKey).symm

theorem wp_reconcile_adopts (hopen : entry.isTerminal = false)
    (hown : entry.orderRef = entry.ledgerKey)
    (hhistory : isIbkr = true ∨ hasHistory = true ∨ completedOrders = [])
    {snapshot : OpenOrderSnapshot} (hsight : sighting entry (ExecutionManager.referenced openOrders)
      (ExecutionManager.referenced completedOrders) = some (snapshot, true))
    {store : OrderStore} (hs : store.latest entry.ledgerKey = some entry)
    (hclear : isIbkr = true → RestoreClear store (ExecutionManager.referenced openOrders)) :
    (openEnvironment.restrict (PassAnswers openOrders completedOrders)).system.wp
      (protocolManager settings isIbkr hasReplacement hasHistory).reconcile
      (fun out _ s => (∀ summary, out = .returned summary → ∃ stamp,
        s.ledger.latest entry.ledgerKey = some (adoptReplacement entry snapshot stamp)) ∧
        ∀ e, out ≠ .raised e) [] (World.of store) := by
  refine System.wp_mono _ (wp_reconcile_row _ protocolManager_within hopen (.all _ _)
    (I := fun _ _ => True) (D := fun _ row => ∃ stamp,
      row = some (adoptReplacement entry snapshot stamp)) (X := False)
    (O := fun openSnapshots => openSnapshots = ExecutionManager.referenced openOrders)
    (H := SameMatch entry completedOrders) (fun _ _ _ => trivial) (fun _ _ _ _ h => h)
    (fun _ _ => trivial) ?_ (fun _ _ _ => Or.inl hown) ?_ ?_ hs ?_)
    fun out _ s h => ⟨h.2.1, fun e he => (h.2.2 e he).1⟩
  · intro τ s
    refine System.wp_mono _ (wp_fetchOpen (fun _ hc => hc) τ s) fun out _ _ h => ⟨?_, h.2⟩
    exact fun fetched hout => by rw [h.1 fetched hout]
  · exact fun openSnapshots entries _ hmem τ s =>
      wp_history (fun _ hc => hc) rfl hhistory hmem openSnapshots τ s
  · rintro openSnapshots history recovered now τ s rfl hmatch _ _
    obtain ⟨completed, rfl⟩ : ∃ completed, history = .ok completed := hmatch.imp fun _ h => h.1
    refine System.wp_mono _ (wp_handleEntry_adopts _ (hmatch.sighting_eq.trans hsight) recovered
      now τ s) fun out _ _ h => ⟨trivial, h⟩
  · rintro openSnapshots rfl hibkr
    exact Or.inl (hclear hibkr)

/-- A row at the reference of an entry, or the entry with its replacement adopted. -/
def StaysOrAdopts (entry : OrderLedgerEntry) (openOrders completedOrders : List OpenOrderSnapshot)
    (latest : Option OrderLedgerEntry) : Prop :=
  ∃ row, latest = some row ∧ (row.orderRef ≠ entry.orderRef → ∃ snapshot stamp,
    sighting entry (ExecutionManager.referenced openOrders)
      (ExecutionManager.referenced completedOrders) = some (snapshot, true) ∧
    row = adoptReplacement entry snapshot stamp)

/-- With two lists for answers and no replies, a pass changes the reference of the row only
where the row is matched to its replacement. -/
theorem wp_reconcile_noReplies (hopen : entry.isTerminal = false)
    (hown : entry.orderRef = entry.ledgerKey)
    (hhistory : isIbkr = true ∨ hasHistory = true ∨ completedOrders = [])
    {store : OrderStore} (hs : store.latest entry.ledgerKey = some entry) :
    (openEnvironment.restrict fun c => PassAnswers openOrders completedOrders c ∧
      NoReplies c).system.wp
      (protocolManager settings isIbkr hasReplacement hasHistory).reconcile
      (fun _ _ s => StaysOrAdopts entry openOrders completedOrders
        (s.ledger.latest entry.ledgerKey)) [] (World.of store) := by
  refine System.wp_mono _ (wp_reconcile_row _ protocolManager_within hopen (.all _ _)
    (I := fun _ => StaysOrAdopts entry openOrders completedOrders)
    (D := fun _ => StaysOrAdopts entry openOrders completedOrders) (X := True)
    (O := fun openSnapshots => openSnapshots = ExecutionManager.referenced openOrders)
    (H := SameMatch entry completedOrders) (fun _ _ h => h) (fun _ _ _ _ h => h)
    (fun _ _ => ⟨entry, rfl, absurd rfl⟩) ?_ (fun _ _ _ => Or.inl hown) ?_ ?_ hs ?_)
    fun out _ s h => h.1
  · intro τ s
    refine System.wp_mono _ (wp_fetchOpen (fun _ hc => hc.1) τ s) fun out _ _ h => ⟨?_, ?_⟩
    · exact fun fetched hout => by rw [h.1 fetched hout]
    · exact fun _ _ => trivial
  · exact fun openSnapshots entries _ hmem τ s =>
      wp_history (fun _ hc => hc.1) rfl hhistory hmem openSnapshots τ s
  · rintro openSnapshots history recovered now τ s rfl hmatch _ hlatest
    obtain ⟨completed, rfl⟩ : ∃ completed, history = .ok completed := hmatch.imp fun _ h => h.1
    refine System.wp_mono _ (wp_handleEntry_noReplies (fun _ hc => hc.2) recovered now τ s hlatest)
      fun out _ s' hrow => ?_
    have hstays : StaysOrAdopts entry openOrders completedOrders
        (s'.ledger.latest entry.ledgerKey) := by
      obtain ⟨row, hrow, hcase⟩ := hrow
      refine ⟨row, hrow, fun hne => ?_⟩
      rcases hcase with rfl | hsuccessor
      · exact absurd rfl hne
      · obtain ⟨snapshot, stamp, hsight, rfl⟩ := hsuccessor.adopted_of_ref_ne hne
        exact ⟨snapshot, stamp, hmatch.sighting_eq.symm.trans hsight, rfl⟩
    exact ⟨hstays, fun _ _ => hstays⟩
  · exact fun _ _ _ => Or.inr trivial

/-- Where every ended pass shows the replacement, the restore scan is clear. -/
theorem ReplacementKept.restoreClear {store : OrderStore} (hw : entry.WellReferenced)
    (href : entry.reservedRef = some ref) (hs : store.latest entry.ledgerKey = some entry)
    (h : ReplacementKept (protocolManager settings true hasReplacement hasHistory) store entry ref
      openOrders completedOrders) :
    RestoreClear store (ExecutionManager.referenced openOrders) := by
  have hown := (hw.of_reserved href).1
  have hwp : (openEnvironment.restrict (PassAnswers openOrders completedOrders)).system.wp
      (protocolManager settings true hasReplacement hasHistory).reconcile (fun out _ s =>
        out ≠ .stopped → ShowsReplacement s.ledger entry ref (openOrders ++ completedOrders)) []
      (World.of store) :=
    (System.wp_restrict_iff openWorld _ _ _ _ _).mpr h
  let c : { c // PassAnswers openOrders completedOrders c } :=
    ⟨listsOnly 0 openOrders completedOrders, listsOnly_passAnswers 0⟩
  unfold ExecutionManager.reconcile at hwp
  rw [System.wp_bind, wp_loadLatest] at hwp
  have hfetch := hwp.2 c
  rw [System.seq_returned, if_neg (fun hempty => by cases hempty.2), System.wp_bind] at hfetch
  -- the open orders are answered, and the scan reads the ledger it starts from
  have hanswer : ((openEnvironment.restrict (PassAnswers openOrders completedOrders)).answer c
      (World.of store).outside (.broker .fetchOpenOrderSnapshots)).1 = .ok openOrders := rfl
  have hscan := ((wp_askBroker _ _ _ _ _).mp hfetch).2 c
  rw [hanswer] at hscan
  have hpass := (System.seq_returned _ _ _ _ _ _).mp hscan
  rw [ExecutionManager.reconcileOpenOrders, System.wp_bind] at hpass
  have hrestore := (System.wp_bind _ _ _ _ _ _).mp hpass
  have hloop := ((wp_loadLatest _ _ _ _).mp hrestore).2 c
  rw [System.seq_returned] at hloop
  refine restoreClear_of_wp _ _ _ (World.of store) (System.wp_mono _ (System.wp_and _ hloop
    (wp_restoreLoop _ (X := True) _ (Or.inl hown) _ _ _ hs (Or.inr trivial))) fun out τ s h => ?_)
  rintro e rfl
  obtain ⟨hkept, hlatest, _⟩ := h
  -- the row is still the entry, which is not under the reserved reference
  obtain ⟨row, hrow, shown, _, _, hshows⟩ := hkept (fun hstopped => by cases hstopped)
  obtain rfl : entry = row := Option.some.inj (hlatest.symm.trans hrow)
  exact hw.ref_ne href hshows.orderRef

/-- Every ended pass shows the replacement exactly when the restore scan is clear and the
replacement is what the row is matched to. -/
theorem replacementKept_iff_matched {store : OrderStore} (hmem : entry ∈ store.loadOpenOrders)
    (hw : entry.WellReferenced) (href : entry.reservedRef = some ref)
    (hhistory : isIbkr = true ∨ hasHistory = true ∨ completedOrders = []) :
    ReplacementKept (protocolManager settings isIbkr hasReplacement hasHistory) store entry ref
      openOrders completedOrders ↔
    (isIbkr = true → RestoreClear store (ExecutionManager.referenced openOrders)) ∧
      MatchedToReplacement entry ref openOrders completedOrders := by
  obtain ⟨hentry, hopen⟩ := OrderStore.mem_loadOpenOrders.mp hmem
  have hs := OrderStore.latest_of_mem hentry
  have hown := (hw.of_reserved href).1
  constructor
  · intro h
    constructor
    · rintro rfl
      exact h.restoreClear hw href hs
    · -- a run whose every answer is fixed ends, and its row shows a snapshot
      let c := listsOnly 0 openOrders completedOrders
      obtain ⟨n, hends⟩ := openWorld.exists_run_ends
        (protocolManager settings isIbkr hasReplacement hasHistory).reconcile c (World.of store)
      have hc : ∀ d ∈ List.replicate n c, d = c := fun d hd => List.eq_of_mem_replicate hd
      obtain ⟨row, hrow, shown, hshown, hfor, hshows⟩ := h (List.replicate n c)
        (fun d hd => hc d hd ▸ listsOnly_passAnswers 0) hends
      obtain ⟨row', hrow', hadopts⟩ := System.wp_restrict_run openWorld
        (wp_reconcile_noReplies hopen hown hhistory hs)
        fun d (hd : d ∈ List.replicate n c) => by
          rw [hc d hd]
          exact ⟨listsOnly_passAnswers 0, listsOnly_noReplies 0⟩
      obtain rfl : row' = row := Option.some.inj (hrow'.symm.trans hrow)
      obtain ⟨snapshot, stamp, hsight, rfl⟩ := hadopts fun heq =>
        hw.ref_ne href (heq.symm.trans hshows.orderRef)
      exact ⟨snapshot, (sighting_eq_true_iff href).mp hsight, shown, hshown, hfor,
        (adopted_shows_iff href snapshot shown stamp).mp hshows⟩
  · rintro ⟨hclear, snapshot, hseen, shown, hshown, hfor, hfigures⟩ cs hcs hends
    have hsight := (sighting_eq_true_iff href).mpr hseen
    obtain ⟨hreturns, hraises⟩ := System.wp_restrict_run openWorld
      (wp_reconcile_adopts hopen hown hhistory hsight hs hclear) hcs
    cases hout : (openWorld.run (protocolManager settings isIbkr hasReplacement
        hasHistory).reconcile cs (World.of store)).outcome with
    | stopped => exact absurd hout hends
    | raised e => exact absurd hout (hraises e)
    | returned summary =>
      obtain ⟨stamp, hrow⟩ := hreturns summary hout
      exact ⟨_, hrow, shown, hshown, hfor,
        (adopted_shows_iff href snapshot shown stamp).mpr hfigures⟩

/-- A pass keeps a replacement that is visible, whatever else it is answered and whatever time
has passed, exactly when the restore scan lets the pass through and the original is not met
before the replacement. -/
theorem visible_replacement_kept_iff {store : OrderStore} (hmem : entry ∈ store.loadOpenOrders)
    (hw : entry.WellReferenced) (href : entry.reservedRef = some ref)
    (hhistory : isIbkr = true ∨ hasHistory = true ∨ completedOrders = []) :
    ((∃ shown ∈ openOrders ++ completedOrders, shown.IsFor entry ref) →
      ReplacementKept (protocolManager settings isIbkr hasReplacement hasHistory) store entry ref
        openOrders completedOrders) ↔
    ((∃ shown ∈ openOrders ++ completedOrders, shown.IsFor entry ref) →
      (isIbkr = true → RestoreClear store (ExecutionManager.referenced openOrders)) ∧
        MatchedToReplacement entry ref openOrders completedOrders) :=
  imp_congr_right fun _ => replacementKept_iff_matched hmem hw href hhistory

end Pass

/-- An order of ten shares whose replacement was reserved and placed, its confirmation lost. -/
def reservedRow : OrderLedgerEntry where
  ledgerKey := "poma:run:0:VOO:BUY"
  orderRef := "poma:run:0:VOO:BUY"
  runId := "run"
  sessionDate := "2026-01-05"
  ticker := "VOO"
  side := .buy
  quantity := 10
  limitPrice := some 100
  orderId := some 7
  permId := some 70
  submittedAt := some (.instant 0)
  lifecycleState := .replacePending
  rawStatus := "ReplacementUnconfirmed"
  remainingQty := 10
  replaceCount := 1
  replacementOrderRef := some "poma:run:0:VOO:BUY:r1"

/-- The ledger that holds the reserved order alone. -/
def reservedLedger : OrderStore := OrderStore.empty.upsert reservedRow

/-- The replacement, filled. -/
def filledReplacement : OpenOrderSnapshot where
  orderRef := some "poma:run:0:VOO:BUY:r1"
  orderId := some 8
  permId := some 80
  ticker := "VOO"
  side := .buy
  rawStatus := "Filled"
  filled := 10
  remaining := 0
  avgFillPrice := some 101

/-- The original, cancelled before anything of it was filled. -/
def cancelledOriginal : OpenOrderSnapshot where
  orderRef := some "poma:run:0:VOO:BUY"
  orderId := some 7
  permId := some 70
  ticker := "VOO"
  side := .buy
  rawStatus := "Cancelled"
  filled := 0
  remaining := 10
  avgFillPrice := none

theorem reservedRow_wellReferenced : reservedRow.WellReferenced where
  own := Or.inl rfl
  reserved ref h := by
    obtain rfl : "poma:run:0:VOO:BUY:r1" = ref := Option.some.inj h
    exact ⟨rfl, by decide +kernel, by decide⟩

/-- A replacement filled in the history is kept while the original is not in the history. -/
theorem visible_replacement_kept_alone :
    ReplacementKept (protocolManager .unset true true false) reservedLedger reservedRow
      "poma:run:0:VOO:BUY:r1" [] [filledReplacement] := by
  have hseen : ReplacementSeen reservedRow "poma:run:0:VOO:BUY:r1"
      (ExecutionManager.referenced []) (ExecutionManager.referenced [filledReplacement])
      filledReplacement :=
    ⟨by decide +kernel, Or.inr ⟨by decide +kernel, by decide +kernel, by decide +kernel⟩⟩
  have hshown : filledReplacement ∈ [] ++ [filledReplacement] := List.mem_cons_self
  have hfor : filledReplacement.IsFor reservedRow "poma:run:0:VOO:BUY:r1" := ⟨rfl, rfl, rfl⟩
  refine (visible_replacement_kept_iff (by decide +kernel) reservedRow_wellReferenced
    (by decide +kernel) (Or.inl rfl)).mpr (fun _ => ⟨fun _ => trivial, ?_⟩)
    ⟨filledReplacement, hshown, hfor⟩
  exact ⟨filledReplacement, hseen, filledReplacement, hshown, hfor, rfl, rfl, rfl⟩

/-- Behind the original's cancellation the fills of the replacement are lost: past the cancel
timeout the row is closed as cancelled with nothing filled. -/
theorem replacement_lost_behind_cancelled_original :
    (∃ shown ∈ [cancelledOriginal, filledReplacement],
      shown.IsFor reservedRow "poma:run:0:VOO:BUY:r1") ∧
    ¬ReplacementKept (protocolManager .unset true true false) reservedLedger reservedRow
      "poma:run:0:VOO:BUY:r1" [] [cancelledOriginal, filledReplacement] := by
  refine ⟨⟨filledReplacement, by decide +kernel, rfl, rfl, rfl⟩, fun h => ?_⟩
  let c := listsOnly 400 [] [cancelledOriginal, filledReplacement]
  obtain ⟨row, hrow, shown, _, _, hshows⟩ := h (List.replicate 8 c)
    (fun d hd => List.eq_of_mem_replicate hd ▸ listsOnly_passAnswers 400) (by decide +kernel)
  have hclosed : (openWorld.run (protocolManager .unset true true false).reconcile
      (List.replicate 8 c) (World.of reservedLedger)).state.ledger.latest reservedRow.ledgerKey =
      some (reservedRow.withSnapshot cancelledOriginal 400).dropReservation := by
    decide +kernel
  obtain rfl := Option.some.inj (hclosed.symm.trans hrow)
  exact absurd hshows.orderRef (by decide +kernel)

end Poma
