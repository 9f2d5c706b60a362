import Poma.Correctness.Completion
import Poma.Correctness.Repricing
import Poma.Correctness.Trimming
import Poma.Interaction.Traces

/-!
# How buys are funded

An attempt hands its buys over in one batch, after its sells have their results
and after a read of the account. The batch is the repriced buys when the cash
covers them, such buys shrunk to the cash when little is missing, and otherwise
nothing goes and every buy is recorded as blocked. Buys that cost next to nothing
go without a read.
-/

namespace Poma

open Interaction

/-- The trades an operation hands to the broker. -/
def Op.handed? : Op → Option (List ProposedTrade)
  | .broker (.submitTrades trades) => some trades
  | _ => none

/-- Every batch handed to the broker is as stated. -/
def HandsOver (P : List ProposedTrade → Prop) (τ : List (Event sig)) : Prop :=
  ∀ event ∈ τ, ∀ trades, Op.handed? event.op = some trades → P trades

/-- An operation that hands nothing over. -/
def Op.HandsNothing (o : Op) : Prop := Op.handed? o = none

theorem handsOver_of_nothing {P : List ProposedTrade → Prop} {τ : List (Event sig)}
    (h : ∀ event ∈ τ, Op.HandsNothing event.op) : HandsOver P τ := by
  intro event hevent trades htrades
  rw [h event hevent] at htrades
  cases htrades

theorem HandsOver.append {P : List ProposedTrade → Prop} {τ more : List (Event sig)}
    (h : HandsOver P τ) (hmore : HandsOver P more) : HandsOver P (τ ++ more) :=
  List.forall_mem_append.mpr ⟨h, hmore⟩

/-- Why no buy goes out after a read of the account: it failed, its cash is not a number, or it is too
far below what the buys require, or they cannot be trimmed to it. -/
inductive HeldBack (settings : Settings) (buys : List ProposedTrade) :
    Except Exn AccountSnapshot → Prop
  | unread (e : Exn) : HeldBack settings buys (.error e)
  | notANumber (refreshed : AccountSnapshot) (hcash : refreshed.cashUsd.isFinite = false) :
    HeldBack settings buys (.ok refreshed)
  | tooShort (refreshed : AccountSnapshot) (cash : ℚ) (hcash : refreshed.cashUsd = .finite cash)
    (hshort : cash + cashTolerance < buyCashRequired buys)
    (hlarge : maxBuyTrimFraction * buyCashRequired buys < buyCashRequired buys - cash) :
    HeldBack settings buys (.ok refreshed)
  | untrimmable (refreshed : AccountSnapshot) (cash : ℚ) (hcash : refreshed.cashUsd = .finite cash)
    (hsmall : buyCashRequired buys - cash ≤ maxBuyTrimFraction * buyCashRequired buys)
    (hstuck : Untrimmable settings.executionRules (largestFirst buys)
      (buyCashRequired buys - cash)) : HeldBack settings buys (.ok refreshed)

/-- What the fit to the refreshed cash makes of the buys, with the read of the account it took. -/
inductive Fitted (settings : Settings) (buys : List ProposedTrade) :
    List ProposedTrade × Option String → List (Event sig) → Prop
  | unasked (h : buyCashRequired buys ≤ fillTolerance) : Fitted settings buys (buys, none) []
  | covered (refreshed : AccountSnapshot) (cash : ℚ) (hcash : refreshed.cashUsd = .finite cash)
    (hfits : buyCashRequired buys ≤ cash + cashTolerance) :
    Fitted settings buys (buys, none) [⟨Op.broker .accountSnapshot, .ok refreshed⟩]
  | trimmed (refreshed : AccountSnapshot) (cash : ℚ) (trimmed : List ProposedTrade)
    (hcash : refreshed.cashUsd = .finite cash)
    (hshort : cash + cashTolerance < buyCashRequired buys)
    (hsmall : buyCashRequired buys - cash ≤ maxBuyTrimFraction * buyCashRequired buys)
    (hshrunk : List.Forall₂ (Shrunk settings.executionRules) buys trimmed)
    (hfits : buyCashRequired trimmed ≤ cash + cashTolerance) :
    Fitted settings buys (trimmed, none) [⟨Op.broker .accountSnapshot, .ok refreshed⟩]
  | blocked (read : Except Exn AccountSnapshot) (reason : String)
    (hheld : HeldBack settings buys read) :
    Fitted settings buys (buys, some reason) [⟨Op.broker .accountSnapshot, read⟩]

section Parts

variable {W : Type} {E : Environment W} {settings : Settings}
  {isIbkr hasReplacement hasHistory reported : Bool} {plan : RebalancePlan}

/-- What the buys are fitted to, once the account is read. -/
theorem emits_fittedTo {buys : List ProposedTrade} (hbuys : ∀ trade ∈ buys, trade.Purchase)
    {refreshed : AccountSnapshot} {cash : ℚ} (hcash : refreshed.cashUsd = .finite cash)
    (hshort : cash + cashTolerance < buyCashRequired buys)
    (hsmall : buyCashRequired buys - cash ≤ maxBuyTrimFraction * buyCashRequired buys) :
    E.system.Emits ((Prog.ofExcept (S := sig) (trimBuysToCash buys cash settings)).bind fun
        | some trimmed =>
          if trimmed = [] then .ret (buys, some (uncoveredReason cash (buyCashRequired buys)))
          else .ret (trimmed, none)
        | none => .ret (buys, some (uncoveredReason cash (buyCashRequired buys))))
      fun out τ => ∃ r, out = .returned r ∧
        Fitted settings buys r ([⟨Op.broker .accountSnapshot, .ok refreshed⟩] ++ τ) := by
  obtain ⟨result, hresult, hfits⟩ := trimBuysToCash_spec settings hbuys cash
  cases result with
  | none =>
    rw [hresult]
    refine System.emits_ret ⟨_, rfl, .blocked (.ok refreshed) _ ?_⟩
    exact .untrimmable refreshed cash hcash hsmall (untrimmable_of_trimBuysToCash hbuys hresult)
  | some trimmed =>
    rw [hresult]
    obtain ⟨hshrunk, hcovers⟩ := hfits trimmed rfl
    have hsome : trimmed ≠ [] := by
      -- no cash is missing where there is nothing to buy
      rintro rfl
      obtain rfl := List.forall₂_nil_right_iff.mp hshrunk
      have hnothing : buyCashRequired [] = 0 := rfl
      have htolerance : (0 : ℚ) ≤ cashTolerance := by decide +kernel
      rw [hnothing] at hshort hsmall
      linarith
    show E.system.Emits (if trimmed = [] then _ else _) _
    rw [if_neg hsome]
    exact System.emits_ret ⟨_, rfl, .trimmed refreshed cash trimmed hcash hshort hsmall hshrunk
      hcovers⟩

/-- The fit reads the account at most once, and never raises. -/
theorem emits_fitBuys {buys : List ProposedTrade} (hbuys : ∀ trade ∈ buys, trade.Purchase) :
    E.system.Emits
      ((protocolManager settings isIbkr hasReplacement hasHistory).fitBuysToRefreshedCash buys)
      fun out τ => out = .stopped ∧ τ = [] ∨ ∃ r, out = .returned r ∧ Fitted settings buys r τ := by
  unfold ExecutionManager.fitBuysToRefreshedCash
  dsimp only
  by_cases hfree : buyCashRequired buys ≤ fillTolerance
  · rw [if_pos hfree]
    exact System.emits_ret (Or.inr ⟨_, rfl, .unasked hfree⟩)
  rw [if_neg hfree]
  apply System.emits_attempt_bind (System.emits_performs (S := sig) (Op.broker .accountSnapshot))
  · intro refreshed τ hτ
    obtain rfl := hτ.returned refreshed rfl
    dsimp only
    cases hcash : refreshed.cashUsd with
    | finite cash =>
      dsimp only
      by_cases hcovered : cash + cashTolerance ≥ buyCashRequired buys
      · rw [if_pos hcovered]
        exact System.emits_ret (Or.inr ⟨_, rfl, .covered refreshed cash hcash hcovered⟩)
      have hshort := not_le.mp hcovered
      rw [if_neg hcovered]
      by_cases hlarge : buyCashRequired buys - cash > maxBuyTrimFraction * buyCashRequired buys
      · rw [if_pos hlarge]
        refine System.emits_ret (Or.inr ⟨_, rfl, .blocked (.ok refreshed) _ ?_⟩)
        exact .tooShort refreshed cash hcash hshort hlarge
      · rw [if_neg hlarge]
        exact (emits_fittedTo hbuys hcash hshort (not_lt.mp hlarge)).mono fun _ _ h => Or.inr h
    | infinite negative =>
      refine System.emits_ret (Or.inr ⟨_, rfl, .blocked (.ok refreshed) _ ?_⟩)
      exact .notANumber refreshed (by rw [hcash]; rfl)
    | nan =>
      refine System.emits_ret (Or.inr ⟨_, rfl, .blocked (.ok refreshed) _ ?_⟩)
      exact .notANumber refreshed (by rw [hcash]; rfl)
  · intro e τ hτ
    obtain rfl := hτ.raised e rfl
    exact System.emits_ret (Or.inr ⟨_, rfl, .blocked (.error e) _ (.unread e)⟩)
  · exact fun τ hτ => Or.inl ⟨rfl, hτ.stopped rfl⟩

theorem emits_nothing {α : Type} {p : M α} (h : p.Uses (S := sig) Op.HandsNothing)
    (P : List ProposedTrade → Prop) : E.system.Emits p fun _ τ => HandsOver P τ :=
  (System.emits_of_uses h).mono fun _ _ hτ => handsOver_of_nothing hτ

theorem recordResult_handsNothing (trade : ProposedTrade) (result : OrderResult) :
    (recordResult plan trade result).Uses (S := sig) Op.HandsNothing :=
  meets_recordResult rfl rfl (fun _ _ _ _ _ _ => rfl) fun _ => rfl

theorem notify_handsNothing (trade : ProposedTrade) (result : OrderResult) :
    (notify (callbackOf reported) trade result).Uses (S := sig) Op.HandsNothing :=
  meets_notify rfl

theorem handsNothing_of_reads {call : BrokerCall} (h : call.Reads) :
    Op.HandsNothing (.broker call) := by
  cases call with
  | submitTrades trades => exact h.elim
  | _ => rfl

theorem askBroker_handsNothing {call : BrokerCall} (h : call.Reads) :
    (askBroker call).Uses (S := sig) Op.HandsNothing :=
  meets_askBroker (handsNothing_of_reads h)

/-- A batch handed to the protocol broker is all that is handed over by it. -/
theorem emits_protocolSubmit (trades : List ProposedTrade) :
    E.system.Emits ((protocolBroker isIbkr hasReplacement hasHistory).submitTrades trades
        (some (wrapCallback plan (callbackOf reported))))
      fun out τ => HandsOver (· = trades) τ ∧ ∀ results, out = .returned results →
        ∃ event ∈ τ, Op.handed? event.op = some trades := by
  have hask : ∀ call : BrokerCall, call.Reads →
      (askBroker call).Uses (S := sig) Op.HandsNothing := fun _ h => askBroker_handsNothing h
  have hwrapped : ∀ trade result, (wrapCallback plan (callbackOf reported) trade result).Uses
      (S := sig) Op.HandsNothing := fun trade result =>
    Prog.uses_bind (recordResult_handsNothing trade result) fun _ => notify_handsNothing trade result
  have hreports : ∀ n, (reportStatuses trades (wrapCallback plan (callbackOf reported)) n).Uses
      (S := sig) Op.HandsNothing := by
    intro n
    induction n with
    | zero => trivial
    | succ n ih =>
      rw [reportStatuses]
      apply Prog.uses_bind (hask (.nextStatus trades) trivial)
      intro (report : Fin trades.length × OrderResult)
      apply Prog.uses_bind _ fun _ => ih
      exact Prog.uses_catching (hwrapped _ _) fun e => hask (.statusRaised e) trivial
  have hrest : ∀ n, ((reportStatuses trades (wrapCallback plan (callbackOf reported)) n).bind
      fun _ => askBroker .submitResults).Uses (S := sig) Op.HandsNothing := fun n =>
    Prog.uses_bind (hreports n) fun _ => hask .submitResults trivial
  have honly : ∀ answer, HandsOver (· = trades) [⟨Op.broker (.submitTrades trades), answer⟩] := by
    intro answer event hevent other hother
    obtain rfl := List.mem_singleton.mp hevent
    exact (Option.some.inj hother).symm
  apply System.emits_bind (System.emits_performs (S := sig) (Op.broker (.submitTrades trades)))
  · intro (n : Nat) τ hτ
    obtain rfl := hτ.returned n rfl
    apply (emits_nothing (hrest n) (· = trades)).mono
    intro out more hmore
    refine ⟨(honly _).append hmore, fun _ _ => ⟨_, List.mem_cons_self, rfl⟩⟩
  · intro e τ hτ
    obtain rfl := hτ.raised e rfl
    exact ⟨honly _, by rintro results ⟨⟩⟩
  · intro τ hτ
    obtain rfl := hτ.stopped rfl
    exact ⟨List.forall_mem_nil _, by rintro results ⟨⟩⟩

/-- One batch is all that is handed over, and it is when the results are there. -/
structure Sends (passed : List ProposedTrade) (out : Outcome Exn (Dict OrderResult))
    (τ : List (Event sig)) : Prop where
  only : HandsOver (· = passed) τ
  sent : passed ≠ [] → ∀ results, out = .returned results →
    ∃ event ∈ τ, Op.handed? event.op = some passed

theorem emits_sendTrades (trades : List ProposedTrade) (results : Dict OrderResult) :
    E.system.Emits ((protocolManager settings isIbkr hasReplacement hasHistory).sendTrades plan
      trades (callbackOf reported) results) (Sends trades) := by
  unfold ExecutionManager.sendTrades
  by_cases hnil : trades = []
  · rw [if_pos hnil]
    exact System.emits_ret ⟨List.forall_mem_nil _, fun hne => absurd hnil hne⟩
  rw [if_neg hnil]
  apply System.emits_bind (emits_nothing (Prog.uses_forEach fun trade _ =>
    recordResult_handsNothing trade _) (· = trades))
  · intro _ τ hτ
    apply System.emits_bind (emits_protocolSubmit trades)
    · intro phaseResults more hmore
      have hevents := hτ.append hmore.1
      obtain ⟨event, hevent, hhanded⟩ := hmore.2 phaseResults rfl
      apply System.emits_bind (emits_nothing (Prog.uses_forEach fun (pair : ProposedTrade ×
        OrderResult) _ => recordResult_handsNothing pair.1 pair.2) (· = trades))
      · intro _ last hlast
        have hall := hevents.append hlast
        have hsent : ∃ event ∈ τ ++ more ++ last, Op.handed? event.op = some trades :=
          ⟨event, List.mem_append_left _ (List.mem_append_right _ hevent), hhanded⟩
        split
        · apply System.emits_ret
          rw [List.append_nil, ← List.append_assoc]
          exact ⟨hall, fun _ _ _ => hsent⟩
        · apply System.emits_throw
          rw [List.append_nil, ← List.append_assoc]
          exact ⟨hall, fun _ _ _ => hsent⟩
      · intro e last hlast
        rw [← List.append_assoc]
        exact ⟨hevents.append hlast, nofun⟩
      · intro last hlast
        rw [← List.append_assoc]
        exact ⟨hevents.append hlast, nofun⟩
    · exact fun e more hmore => ⟨hτ.append hmore.1, nofun⟩
    · exact fun more hmore => ⟨hτ.append hmore.1, nofun⟩
  · exact fun e τ hτ => ⟨hτ, nofun⟩
  · exact fun τ hτ => ⟨hτ, nofun⟩

/-- Nothing is handed over, and every buy is recorded as blocked once the results are there. -/
structure Blocks (buys : List ProposedTrade) (out : Outcome Exn (Dict OrderResult))
    (τ : List (Event sig)) : Prop where
  nothing : HandsOver (fun _ => False) τ
  recorded : ∀ results, out = .returned results → ∀ buy ∈ buys, ∃ entry,
    (⟨Op.upsert entry, .ok ()⟩ : Event sig) ∈ τ ∧ entry.ledgerKey = buy.ref ∧
      entry.rawStatus = buyingPowerBlockedStatus

theorem emits_blockBuys (reason : String) (buys : List ProposedTrade) (results : Dict OrderResult) :
    E.system.Emits (ExecutionManager.blockBuys plan (callbackOf reported) reason buys results)
      (Blocks buys) := by
  induction buys generalizing results with
  | nil => exact System.emits_ret ⟨List.forall_mem_nil _, fun _ _ => List.forall_mem_nil _⟩
  | cons trade rest ih =>
    have hrow : E.system.Emits (recordResult plan trade
        (blockedResult trade buyingPowerBlockedStatus reason)) fun out τ => out = .returned () →
          ∃ entry, (⟨Op.upsert entry, .ok ()⟩ : Event sig) ∈ τ ∧ entry.ledgerKey = trade.ref ∧
            entry.rawStatus = buyingPowerBlockedStatus := by
      refine ⟨fun cs s hreturned => ?_⟩
      obtain ⟨entry, hentry, hkey, hraw, _⟩ :=
        (E.system.wp_run (wp_recordResult_row E trade _ [] s) cs).2 hreturned
      exact ⟨entry, hentry, hkey, hraw⟩
    rw [ExecutionManager.blockBuys]
    apply System.emits_bind (hrow.and (emits_nothing (recordResult_handsNothing trade _)
      fun _ => False))
    · rintro _ τ ⟨hrecorded, hτ⟩
      obtain ⟨entry, hentry, hkey, hraw⟩ := hrecorded rfl
      apply System.emits_bind (emits_nothing (notify_handsNothing trade _) fun _ => False)
      · intro _ more hmore
        apply (ih _).mono
        intro out last hlast
        refine ⟨hτ.append (hmore.append hlast.nothing), fun results hreturned => ?_⟩
        refine List.forall_mem_cons.mpr ⟨⟨entry, List.mem_append_left _ hentry, hkey, hraw⟩, ?_⟩
        intro buy hbuy
        obtain ⟨other, hother, hsame⟩ := hlast.recorded results hreturned buy hbuy
        exact ⟨other, List.mem_append_right _ (List.mem_append_right _ hother), hsame⟩
      · exact fun e more hmore => ⟨hτ.append hmore, by rintro results ⟨⟩⟩
      · exact fun more hmore => ⟨hτ.append hmore, by rintro results ⟨⟩⟩
    · exact fun e τ h => ⟨h.2, by rintro results ⟨⟩⟩
    · exact fun τ h => ⟨h.2, by rintro results ⟨⟩⟩

/-- A phase without repricing hands its trades over. -/
theorem emits_submitPhase (trades : List ProposedTrade) (results : Dict OrderResult) :
    E.system.Emits ((protocolManager settings isIbkr hasReplacement hasHistory).submitPhase plan
      trades (callbackOf reported) false results) (Sends trades) := by
  unfold ExecutionManager.submitPhase
  by_cases hnil : trades = []
  · rw [if_pos hnil]
    exact System.emits_ret ⟨List.forall_mem_nil _, fun hne => absurd hnil hne⟩
  · rw [if_neg hnil, if_neg Bool.false_ne_true]
    exact emits_sendTrades trades _

/-- What an attempt does once its buys are repriced: the read of the account, if any, and what
goes out or is blocked for it. -/
inductive Spends (settings : Settings) (repriced : List ProposedTrade) :
    Outcome Exn (Dict OrderResult) → List (Event sig) → Prop
  | stopped : Spends settings repriced .stopped []
  | unasked {out : Outcome Exn (Dict OrderResult)} {τ : List (Event sig)}
    (h : buyCashRequired repriced ≤ fillTolerance) (hsends : Sends repriced out τ) :
    Spends settings repriced out τ
  | covered {out : Outcome Exn (Dict OrderResult)} {τ : List (Event sig)}
    (refreshed : AccountSnapshot) (cash : ℚ) (hcash : refreshed.cashUsd = .finite cash)
    (hfits : buyCashRequired repriced ≤ cash + cashTolerance) (hsends : Sends repriced out τ) :
    Spends settings repriced out (⟨Op.broker .accountSnapshot, .ok refreshed⟩ :: τ)
  | trimmed {out : Outcome Exn (Dict OrderResult)} {τ : List (Event sig)}
    (refreshed : AccountSnapshot) (cash : ℚ) (passed : List ProposedTrade)
    (hcash : refreshed.cashUsd = .finite cash)
    (hshort : cash + cashTolerance < buyCashRequired repriced)
    (hsmall : buyCashRequired repriced - cash ≤ maxBuyTrimFraction * buyCashRequired repriced)
    (hshrunk : List.Forall₂ (Shrunk settings.executionRules) repriced passed)
    (hfits : buyCashRequired passed ≤ cash + cashTolerance) (hsends : Sends passed out τ) :
    Spends settings repriced out (⟨Op.broker .accountSnapshot, .ok refreshed⟩ :: τ)
  | blocked {out : Outcome Exn (Dict OrderResult)} {τ : List (Event sig)}
    (read : Except Exn AccountSnapshot) (hheld : HeldBack settings repriced read)
    (hblocks : Blocks repriced out τ) :
    Spends settings repriced out (⟨Op.broker .accountSnapshot, read⟩ :: τ)

/-- The part of the buy phase after the repricing. -/
def ExecutionManager.spend (self : ExecutionManager) (plan : RebalancePlan)
    (statusCallback : Option StatusCallback) (repriced : List ProposedTrade)
    (results : Dict OrderResult) : M (Dict OrderResult) :=
  (self.fitBuysToRefreshedCash repriced).bind fun
    | (buys, some reason) => blockBuys plan statusCallback reason buys results
    | (buys, none) => self.submitPhase plan buys statusCallback false results

theorem emits_spend {repriced : List ProposedTrade} (hbuys : ∀ trade ∈ repriced, trade.Purchase)
    (results : Dict OrderResult) :
    E.system.Emits ((protocolManager settings isIbkr hasReplacement hasHistory).spend plan
      (callbackOf reported) repriced results) (Spends settings repriced) := by
  unfold ExecutionManager.spend
  apply System.emits_bind (emits_fitBuys hbuys)
  · rintro r τ (⟨hstop, _⟩ | ⟨r', hr, hfitted⟩)
    · cases hstop
    obtain rfl := Outcome.returned.inj hr
    cases hfitted with
    | unasked h => exact (emits_submitPhase _ results).mono fun out more hsends => .unasked h hsends
    | covered refreshed cash hcash hfits =>
      exact (emits_submitPhase _ results).mono fun out more hsends =>
        .covered refreshed cash hcash hfits hsends
    | trimmed refreshed cash passed hcash hshort hsmall hshrunk hfits =>
      exact (emits_submitPhase _ results).mono fun out more hsends =>
        .trimmed refreshed cash passed hcash hshort hsmall hshrunk hfits hsends
    | blocked read reason hheld =>
      exact (emits_blockBuys reason _ results).mono fun out more hblocks =>
        .blocked read hheld hblocks
  · rintro e τ (⟨hstop, _⟩ | ⟨r, hr, _⟩)
    · cases hstop
    · cases hr
  · rintro τ (⟨_, rfl⟩ | ⟨r, hr, _⟩)
    · exact .stopped
    · cases hr

/-- Repricing hands nothing over. -/
theorem repriceForExecution_handsNothing (trades : List ProposedTrade) :
    ((protocolManager settings isIbkr hasReplacement hasHistory).repriceForExecution plan trades
      (callbackOf reported)).Uses (S := sig) Op.HandsNothing := by
  have hpricing : PricingMeets (protocolManager settings isIbkr hasReplacement hasHistory)
      (fun _ _ => True) Op.HandsNothing (fun _ => True) fun _ => True := {
    repriced := fun _ _ _ _ => trivial
    quotes := fun _ => askBroker_handsNothing trivial
    sleep := fun _ => rfl }
  have hrecord : ∀ (state : RepriceState) (rest : List ProposedTrade),
      (ExecutionManager.recordRepriced plan (callbackOf reported) state rest).Uses (S := sig)
        Op.HandsNothing := by
    intro state rest
    induction rest with
    | nil => trivial
    | cons trade rest ih =>
      rw [ExecutionManager.recordRepriced]
      cases List.lookup trade.ticker state.repricedByTicker with
      | some updated =>
        exact Prog.uses_bind (Prog.uses_perform (S := sig) (o := .upsert _) rfl) fun _ =>
          Prog.uses_bind ih fun _ => trivial
      | none =>
        exact Prog.uses_bind (recordResult_handsNothing _ _) fun _ =>
          Prog.uses_bind (notify_handsNothing _ _) fun _ => Prog.uses_bind ih fun _ => trivial
  unfold ExecutionManager.repriceForExecution
  split
  · trivial
  apply Prog.meets_bind (meets_quoteAttempts hpricing _ _ { pending := trades }
    (fun _ _ => trivial) (List.forall_mem_nil _))
  intro r hr
  apply Prog.meets_bind (meets_refreshQuotes hpricing (fun _ _ => trivial) hr _)
  exact fun _ _ => hrecord _ _

/-- The results have an entry under a ticker. -/
def Answered (results : Dict OrderResult) (ticker : String) : Prop :=
  (List.lookup ticker results).isSome = true

theorem answered_putResults {results : Dict OrderResult} {ticker : String}
    {items : List (ProposedTrade × OrderResult)} :
    Answered (ExecutionManager.putResults results items) ticker ↔
      Answered results ticker ∨ ∃ item ∈ items, item.1.ticker = ticker := by
  unfold Answered ExecutionManager.putResults
  induction items generalizing results with
  | nil => simp
  | cons item rest ih =>
    rw [List.foldl_cons, ih, Dict.lookup_put]
    by_cases hticker : ticker = item.1.ticker
    · simp [hticker]
    · simp [hticker, Ne.symm hticker]

/-- A phase answers for its trades, and forgets no answer. -/
theorem answered_sendTrades {manager : ExecutionManager} {callback : Option StatusCallback}
    (trades : List ProposedTrade) (results : Dict OrderResult) :
    Returns (fun r => ∀ ticker, Answered results ticker ∨
        (∃ trade ∈ trades, trade.ticker = ticker) → Answered r ticker)
      (manager.sendTrades plan trades callback results) := by
  unfold ExecutionManager.sendTrades
  split
  · rename_i hnil
    rintro ticker (hanswered | ⟨trade, htrade, _⟩)
    · exact hanswered
    · rw [hnil] at htrade
      cases htrade
  apply Prog.meets_bind (returns_any _)
  intro _ _
  apply Prog.meets_bind (returns_any _)
  intro phaseResults _
  apply Prog.meets_bind (returns_any _)
  intro _ _
  split
  · rename_i hlength
    intro ticker h
    rw [answered_putResults]
    apply h.imp_right
    rintro ⟨trade, htrade, hticker⟩
    rw [← List.map_fst_zip hlength.le] at htrade
    obtain ⟨item, hitem, rfl⟩ := List.mem_map.mp htrade
    exact ⟨item, hitem, hticker⟩
  · trivial

theorem answered_submitPhase {manager : ExecutionManager} {callback : Option StatusCallback}
    (trades : List ProposedTrade) (results : Dict OrderResult) :
    Returns (fun r => ∀ trade ∈ trades, Answered r trade.ticker)
      (manager.submitPhase plan trades callback true results) := by
  unfold ExecutionManager.submitPhase
  split
  · rename_i hnil
    rw [hnil]
    exact List.forall_mem_nil _
  have hany : AttemptMeets manager plan callback (fun _ _ => True) (fun _ => True)
      (fun _ => True) fun _ => True :=
    attemptMeets_any (fun _ _ _ _ => trivial) fun _ _ _ _ => trivial
  rw [if_pos rfl]
  apply Prog.meets_bind (meets_repriceForExecution hany fun _ _ => trivial)
  intro r hr
  apply (answered_sendTrades r.1 (ExecutionManager.putResults results r.2)).mono fun _ ho => ho
  intro answered hanswered trade htrade
  apply hanswered
  rw [answered_putResults]
  rcases hr.covers trade htrade with hsent | hblocked
  · exact Or.inr hsent
  · exact Or.inl (Or.inr hblocked)

/-- An attempt up to the repricing of its buys: the fresh sells and buys, and the results. -/
def ExecutionManager.sellStage (self : ExecutionManager) (plan : RebalancePlan)
    (statusCallback : Option StatusCallback) :
    M (List ProposedTrade × List ProposedTrade × Dict OrderResult) :=
  (tag plan.runId plan.sells 0).bind fun taggedSells =>
  (tag plan.runId plan.buys plan.sells.length).bind fun taggedBuys =>
  loadLatest.bind fun store =>
  let latestByRef := store.getLatestMany ((taggedSells ++ taggedBuys).map (·.ref))
  (planPhase plan statusCallback latestByRef taggedSells []).bind fun (freshSells, results) =>
  (planPhase plan statusCallback latestByRef taggedBuys results).bind fun (freshBuys, results) =>
  (self.submitPhase plan freshSells statusCallback true results).bind fun results =>
  .ret (freshSells, freshBuys, results)

/-- An attempt is its sell stage, its buy phase and the results of its trades. -/
theorem submitPlan_eq (manager : ExecutionManager) (callback : Option StatusCallback) :
    manager.submitPlan plan callback = (manager.sellStage plan callback).bind fun r =>
      (manager.buyPhase plan r.2.1 callback r.2.2).bind fun results =>
      Prog.ofExcept (S := sig) (ExecutionManager.collectResults results plan.trades) := by
  unfold ExecutionManager.submitPlan ExecutionManager.sellStage
  simp only [Prog.bind_assoc, Prog.ret_bind]

/-- Tagging changes the reference of a trade only. -/
theorem returns_tag (runId : String) (trades : List ProposedTrade) (offset : Nat) :
    Returns (fun tagged => ∀ trade ∈ tagged, ∃ original ∈ trades, ∃ ref,
      trade = { original with orderRef := some ref }) (tag runId trades offset) := by
  apply Prog.meets_bind (returns_any _)
  intro store _ trade htrade
  obtain ⟨index, hindex, rfl⟩ := List.mem_mapIdx.mp htrade
  exact ⟨trades[index], List.getElem_mem hindex, _, rfl⟩

/-- The sell stage answers for its fresh sells and leaves purchases to be made. -/
theorem returns_sellStage {manager : ExecutionManager} {callback : Option StatusCallback}
    (hbuys : ∀ trade ∈ plan.trades, trade.side = .buy → trade.Purchase) :
    Returns (fun r => (∀ sell ∈ r.1, Answered r.2.2 sell.ticker) ∧ ∀ buy ∈ r.2.1, buy.Purchase)
      (manager.sellStage plan callback) := by
  unfold ExecutionManager.sellStage
  apply Prog.meets_bind (returns_any _)
  intro taggedSells _
  apply Prog.meets_bind (returns_tag _ _ _)
  intro taggedBuys htagged
  apply Prog.meets_bind (returns_any _)
  intro store _
  apply Prog.meets_bind (returns_any _)
  intro sells _
  apply Prog.meets_bind (returns_planPhase taggedBuys _)
  intro buys hfresh
  apply Prog.meets_bind (answered_submitPhase _ _)
  intro results hanswered
  refine ⟨hanswered, fun buy hbuy => ?_⟩
  obtain ⟨original, horiginal, ref, rfl⟩ := htagged buy (hfresh.1 buy hbuy).1
  obtain ⟨htrade, hside⟩ := List.mem_filter.mp horiginal
  obtain ⟨hbuyside, hquantity, hprice, hnotional⟩ := hbuys original htrade (of_decide_eq_true hside)
  exact ⟨hbuyside, hquantity, hprice, hnotional⟩

/-- A batch of sells. -/
def AllSells (trades : List ProposedTrade) : Prop := ∀ trade ∈ trades, trade.side = .sell

/-- An operation that hands over no buy. -/
def Op.HandsSells (o : Op) : Prop := ∀ trades, Op.handed? o = some trades → AllSells trades

theorem Op.HandsNothing.handsSells {o : Op} (h : o.HandsNothing) : o.HandsSells := by
  intro trades htrades
  rw [h] at htrades
  cases htrades

theorem attemptMeets_sells :
    AttemptMeets (protocolManager settings isIbkr hasReplacement hasHistory) plan
      (callbackOf reported) (fun _ _ => True) Op.HandsSells (fun trade => trade.side = .sell)
      fun trade => trade.side = .sell where
  repriced trade updated h hrepriced := hrepriced.side.trans h
  unpriced _ _ h := h
  trimmed := by
    rintro trade less h ⟨shortfall, -, -, rfl⟩
    exact h
  planned _ _ := Op.HandsNothing.handsSells rfl
  result trade result _ := (recordResult_handsNothing trade result).mono fun _ h => h.handsSells
  notified trade result := (notify_handsNothing trade result).mono fun _ h => h.handsSells
  quotes tickers := meets_askBroker
    (show Op.HandsSells (.broker (.executionQuotes tickers)) from Op.HandsNothing.handsSells rfl)
  account := meets_askBroker
    (show Op.HandsSells (.broker .accountSnapshot) from Op.HandsNothing.handsSells rfl)
  sleep _ := Op.HandsNothing.handsSells rfl
  submit trades h := by
    apply meets_protocolSubmit
    · exact fun trade _ result => (recordResult_handsNothing trade result).mono
        fun _ h => h.handsSells
    · exact fun trade result => (notify_handsNothing trade result).mono fun _ h => h.handsSells
    · exact fun call hreads => (handsNothing_of_reads hreads).handsSells
    · intro other hother
      obtain rfl := Option.some.inj hother
      exact h

theorem planPhase_handsNothing (latest : List OrderLedgerEntry) (trades : List ProposedTrade)
    (results : Dict OrderResult) :
    (planPhase plan (callbackOf reported) latest trades results).Uses (S := sig)
      Op.HandsNothing := by
  induction trades generalizing results with
  | nil => trivial
  | cons trade rest ih =>
    rw [planPhase]
    cases idempotentReplay trade latest with
    | some replay => exact Prog.uses_bind (notify_handsNothing _ _) fun _ => ih _
    | none =>
      exact Prog.uses_bind (Prog.uses_perform (S := sig) (o := .upsert _) rfl) fun _ =>
        Prog.uses_bind (ih _) fun _ => trivial

/-- The sell stage hands over sells only. -/
theorem sellStage_handsSells :
    ((protocolManager settings isIbkr hasReplacement hasHistory).sellStage plan
      (callbackOf reported)).Uses (S := sig) Op.HandsSells := by
  have hm : AttemptMeets (protocolManager settings isIbkr hasReplacement hasHistory) plan
      (callbackOf reported) (fun _ _ => True) Op.HandsSells (fun trade => trade.side = .sell)
      fun trade => trade.side = .sell := attemptMeets_sells
  have hload : loadLatest.Uses (S := sig) Op.HandsSells :=
    Prog.uses_perform (S := sig) (Op.HandsNothing.handsSells rfl)
  have htag : ∀ trades offset, (tag plan.runId trades offset).Meets (S := sig) (fun _ _ => True)
      Op.HandsSells fun tagged => ∀ trade ∈ tagged, ∃ original ∈ trades,
        trade.side = original.side := by
    intro trades offset
    apply Prog.meets_bind hload
    intro store _ trade htrade
    obtain ⟨index, hindex, rfl⟩ := List.mem_mapIdx.mp htrade
    exact ⟨trades[index], List.getElem_mem hindex, rfl⟩
  unfold ExecutionManager.sellStage
  apply Prog.meets_bind (htag plan.sells 0)
  intro taggedSells htagged
  have hsells : ∀ trade ∈ taggedSells, trade.side = .sell := by
    intro trade htrade
    obtain ⟨original, horiginal, hside⟩ := htagged trade htrade
    exact hside.trans (of_decide_eq_true (List.mem_filter.mp horiginal).2)
  apply Prog.meets_bind (htag plan.buys _)
  intro taggedBuys _
  apply Prog.meets_bind hload
  intro store _
  apply Prog.meets_bind (meets_planPhase hm (fun trade htrade _ => hsells trade htrade) _)
  intro sells hfresh
  apply Prog.uses_bind ((planPhase_handsNothing _ _ _).mono fun _ h => h.handsSells)
  intro buys
  exact Prog.meets_bind (meets_submitPhase hm hfresh _) fun _ _ => trivial

/-- The ways an attempt can go, by how far it gets before its buys are funded. -/
inductive Staged {W : Type} (E : Environment W) (manager : ExecutionManager) (plan : RebalancePlan)
    (callback : Option StatusCallback) : Outcome Exn (List OrderResult) → List (Event sig) → Prop
  /-- It is killed, or raises, before all its sells have their results. -/
  | selling {out : Outcome Exn (List OrderResult)} {τ : List (Event sig)}
    (last : Outcome Exn (List ProposedTrade × List ProposedTrade × Dict OrderResult))
    (hsells : E.system.Performed (manager.sellStage plan callback) last τ)
    (hlast : ∀ r, last ≠ .returned r) (hout : ∀ results, out ≠ .returned results)
    (honly : HandsOver AllSells τ) : Staged E manager plan callback out τ
  /-- It has no fresh buys. -/
  | sold {out : Outcome Exn (List OrderResult)} {τ : List (Event sig)}
    (sells : List ProposedTrade) (results : Dict OrderResult)
    (hsells : E.system.Performed (manager.sellStage plan callback)
      (.returned (sells, [], results)) τ)
    (honly : HandsOver AllSells τ) : Staged E manager plan callback out τ
  /-- It is killed, or raises, while it reprices its buys. -/
  | repricing {out : Outcome Exn (List OrderResult)} {τ τ' : List (Event sig)}
    (sells buys : List ProposedTrade) (results : Dict OrderResult)
    (last : Outcome Exn (List ProposedTrade × List (ProposedTrade × OrderResult)))
    (hsells : E.system.Performed (manager.sellStage plan callback)
      (.returned (sells, buys, results)) τ)
    (honly : HandsOver AllSells τ)
    (hreprice : E.system.Performed (manager.repriceForExecution plan buys callback) last τ')
    (hlast : ∀ r, last ≠ .returned r) (hout : ∀ results, out ≠ .returned results)
    (hnothing : HandsOver (fun _ => False) τ') : Staged E manager plan callback out (τ ++ τ')
  /-- Its sells have their results, its buys are repriced, and then they are funded. -/
  | buying {out : Outcome Exn (List OrderResult)} {τ τ' τ'' : List (Event sig)}
    (sells buys : List ProposedTrade) (results : Dict OrderResult)
    (repriced : List ProposedTrade) (blocked : List (ProposedTrade × OrderResult))
    (last : Outcome Exn (Dict OrderResult))
    (hsells : E.system.Performed (manager.sellStage plan callback)
      (.returned (sells, buys, results)) τ)
    (honly : HandsOver AllSells τ)
    (hanswered : ∀ sell ∈ sells, Answered results sell.ticker)
    (hreprice : E.system.Performed (manager.repriceForExecution plan buys callback)
      (.returned (repriced, blocked)) τ')
    (hnothing : HandsOver (fun _ => False) τ')
    (hspends : Spends manager.settings repriced last τ'')
    (hout : ∀ results, out = .returned results → ∃ all, last = .returned all) :
    Staged E manager plan callback out (τ ++ (τ' ++ τ''))

theorem Repriced.purchase {trade updated : ProposedTrade} (h : trade.Purchase)
    (hrepriced : Repriced settings trade updated) : updated.Purchase := by
  obtain ⟨limit, hlimit, hpos, _⟩ := hrepriced.limit
  refine ⟨hrepriced.side.trans h.side, hrepriced.quantity_pos, ?_, ?_⟩
  · unfold ProposedTrade.cashPerShare
    rwa [hlimit]
  · intro hnone
    rw [hlimit] at hnone
    cases hnone

theorem Trimmed.purchase {trade less : ProposedTrade} (h : trade.Purchase)
    (htrimmed : Trimmed settings trade less) : less.Purchase := by
  obtain ⟨shortfall, -, hleft, rfl⟩ := htrimmed
  have htolerance : (0 : ℚ) ≤ fillTolerance := by decide +kernel
  exact h.shrunkTo (htolerance.trans_lt (not_le.mp (not_or.mp hleft).1))

/-- Repriced purchases are purchases. -/
theorem returns_repriced {manager : ExecutionManager} {callback : Option StatusCallback}
    {buys : List ProposedTrade} (hbuys : ∀ buy ∈ buys, buy.Purchase) :
    Returns (fun r => ∀ buy ∈ r.1, buy.Purchase)
      (manager.repriceForExecution plan buys callback) :=
  (meets_repriceForExecution (attemptMeets_any (fun _ _ h hrepriced => hrepriced.purchase h)
    fun _ _ h htrimmed => htrimmed.purchase h) hbuys).mono (fun _ ho => ho) fun _ hr => hr.priced

/-- Funding the repriced buys, and the results of the attempt after it. -/
theorem emits_spendAndCollect {repriced : List ProposedTrade}
    (hbuys : ∀ trade ∈ repriced, trade.Purchase) (results : Dict OrderResult) :
    E.system.Emits (((protocolManager settings isIbkr hasReplacement hasHistory).spend plan
        (callbackOf reported) repriced results).bind fun all =>
        Prog.ofExcept (S := sig) (ExecutionManager.collectResults all plan.trades))
      fun out τ => ∃ last, Spends settings repriced last τ ∧
        ∀ results, out = .returned results → ∃ all, last = .returned all := by
  apply System.emits_bind (emits_spend hbuys results)
  · intro all τ hspends
    have hdone : ∀ out : Outcome Exn (List OrderResult), ∃ last, Spends settings repriced last τ ∧
        ∀ results, out = .returned results → ∃ all, last = .returned all :=
      fun out => ⟨_, hspends, fun _ _ => ⟨all, rfl⟩⟩
    cases ExecutionManager.collectResults all plan.trades with
    | ok collected =>
      apply System.emits_ret
      rw [List.append_nil]
      exact hdone _
    | error e =>
      apply System.emits_throw
      rw [List.append_nil]
      exact hdone _
  · exact fun e τ hspends => ⟨_, hspends, nofun⟩
  · exact fun τ hspends => ⟨_, hspends, nofun⟩

/-- Every attempt on a plan of purchases and sells goes through its stages. -/
theorem emits_staged (hbuys : ∀ trade ∈ plan.trades, trade.side = .buy → trade.Purchase) :
    E.system.Emits ((protocolManager settings isIbkr hasReplacement hasHistory).submitPlan plan
        (callbackOf reported))
      (Staged E (protocolManager settings isIbkr hasReplacement hasHistory) plan
        (callbackOf reported)) := by
  rw [submitPlan_eq]
  apply System.emits_bind (((System.emits_performed _).and (System.emits_of_meets
    (returns_sellStage hbuys))).and (System.emits_of_uses sellStage_handsSells))
  · rintro ⟨sells, buys, results⟩ τ ⟨⟨hsells, hreturned⟩, honly⟩
    obtain ⟨hanswered, hpurchases⟩ := (hreturned fun _ _ => trivial).2 _ rfl
    unfold ExecutionManager.buyPhase
    dsimp only
    by_cases hnil : buys = []
    · subst hnil
      rw [if_pos rfl, Prog.ret_bind]
      have hquiet : (Prog.ofExcept (S := sig) (ExecutionManager.collectResults results
          plan.trades)).Uses fun _ => False := Prog.uses_ofExcept _
      apply (System.emits_of_uses hquiet).mono
      intro out more hmore
      obtain rfl := List.eq_nil_iff_forall_not_mem.mpr hmore
      rw [List.append_nil]
      exact .sold sells results hsells honly
    rw [if_neg hnil, Prog.bind_assoc]
    apply System.emits_bind (((System.emits_performed _).and (System.emits_of_meets
      (returns_repriced hpurchases))).and (emits_nothing (repriceForExecution_handsNothing buys)
        fun _ => False))
    · rintro ⟨repriced, blocked⟩ τ' ⟨⟨hreprice, hpriced⟩, hnothing⟩
      apply (emits_spendAndCollect ((hpriced fun _ _ => trivial).2 _ rfl) _).mono
      rintro out τ'' ⟨last, hspends, hout⟩
      exact .buying sells buys results repriced blocked last hsells honly hanswered hreprice hnothing
        hspends hout
    · rintro e τ' ⟨⟨hreprice, _⟩, hnothing⟩
      exact .repricing sells buys results _ hsells honly hreprice nofun nofun hnothing
    · rintro τ' ⟨⟨hreprice, _⟩, hnothing⟩
      exact .repricing sells buys results _ hsells honly hreprice nofun nofun hnothing
  · rintro e τ ⟨⟨hsells, _⟩, honly⟩
    exact .selling _ hsells nofun nofun honly
  · rintro τ ⟨⟨hsells, _⟩, honly⟩
    exact .selling _ hsells nofun nofun honly

end Parts

/-- In every run of an attempt on a plan of purchases and sells, the buys are funded in stages. -/
theorem submitPlan_staged {W : Type} (E : Environment W) (settings : Settings)
    (isIbkr hasReplacement hasHistory reported : Bool) (plan : RebalancePlan)
    (hbuys : ∀ trade ∈ plan.trades, trade.side = .buy → trade.Purchase)
    (choices : List E.Choice) (world : World W) :
    Staged E (protocolManager settings isIbkr hasReplacement hasHistory) plan (callbackOf reported)
      (E.system.run ((protocolManager settings isIbkr hasReplacement hasHistory).submitPlan plan
        (callbackOf reported)) choices world).outcome
      (E.system.run ((protocolManager settings isIbkr hasReplacement hasHistory).submitPlan plan
        (callbackOf reported)) choices world).trace :=
  (emits_staged hbuys).runs choices world

/-- The batches a run hands to the broker, in order. -/
def handedBatches (τ : List (Event sig)) : List (List ProposedTrade) :=
  τ.filterMap fun event => Op.handed? event.op

/-- A broker that reports its cash, and answers nothing else. -/
def reportsCash (cash : ℚ) : Oracle where
  clock := 0
  answer
    | .broker .accountSnapshot =>
      .ok { cashUsd := .finite cash, positionsMarketValueUsd := .finite 0 }
    | _ => .error (.connection "not connected")

/-- A buy as it is planned. -/
def plannedBuy (ticker : String) (quantity referencePrice : ℚ) (limitPrice : Option ℚ)
    (notional : ℚ) : ProposedTrade where
  ticker := ticker
  side := .buy
  quantity := quantity
  notional := notional
  referencePrice := referencePrice
  limitPrice := limitPrice
  reason := "rebalance_to_target_weight"

/-- A plan of buys. -/
def planOfBuys (trades : List ProposedTrade) : RebalancePlan where
  runId := "run"
  sessionDate := "2026-10-17"
  trades := trades

/-- An attempt at buys priced from the snapshot, at a broker that reports its cash. -/
def buyingRun (cash : ℚ) (trades : List ProposedTrade) :
    Run sig (World Unit) (List OrderResult) :=
  openWorld.run ((protocolManager Settings.fromSnapshot true true true).submitPlan
    (planOfBuys trades) (callbackOf false)) (List.replicate 20 (reportsCash cash)) (World.of .empty)

/-- Ten shares of each of two tickers, at ten dollars. -/
def tenAndTen : List ProposedTrade :=
  [plannedBuy "AAPL" 10 10 (some 10) 100, plannedBuy "MSFT" 10 10 none 100]

theorem tenAndTen_purchases : ∀ trade ∈ tenAndTen, trade.side = .buy → trade.Purchase := by
  intro trade htrade _
  simp only [tenAndTen, List.mem_cons, List.not_mem_nil, or_false] at htrade
  rcases htrade with rfl | rfl
  · exact ⟨rfl, by decide +kernel, by decide +kernel, nofun⟩
  · exact ⟨rfl, by decide +kernel, by decide +kernel, fun _ => by decide +kernel⟩

/-- Of two buys for 200 dollars, one is trimmed by a share to fit 195 dollars. -/
theorem submitPlan_staged_tenAndTen :
    Staged openEnvironment (protocolManager Settings.fromSnapshot true true true)
      (planOfBuys tenAndTen) (callbackOf false) (buyingRun 195 tenAndTen).outcome
      (buyingRun 195 tenAndTen).trace ∧
    (handedBatches (buyingRun 195 tenAndTen).trace).map (List.map (·.quantity)) = [[9, 10]] :=
  ⟨submitPlan_staged openEnvironment Settings.fromSnapshot true true true false
      (planOfBuys tenAndTen) tenAndTen_purchases _ _, by decide +kernel⟩

/-- A buy of next to nothing goes out without a read of the account. A buy without a limit whose
notional is not its quantity at its price goes out above the cash. A buy below its minimum goes
out when the trim leaves it alone. -/
theorem not_funded_asPromised :
    (handedBatches (buyingRun 0 [plannedBuy "AAPL" (1 / 10 ^ 10) 1 (some 1) 0]).trace ≠ [] ∧
      Op.broker .accountSnapshot ∉
        opsOf (buyingRun 0 [plannedBuy "AAPL" (1 / 10 ^ 10) 1 (some 1) 0])) ∧
    (∃ passed ∈ handedBatches (buyingRun 960 [plannedBuy "AAPL" 10 200 none 1000]).trace,
      960 + cashTolerance < buyCashRequired passed) ∧
    (handedBatches (buyingRun 101 [plannedBuy "AAPL" (1 / 2) 10 (some 10) 5,
        plannedBuy "MSFT" 10 10 (some 10) 100]).trace).map (List.map (·.quantity)) =
      [[1 / 2, 9]] ∧
    (resolveExecutionRule "AAPL" Settings.fromSnapshot.executionRules).minQuantity = 1 := by
  decide +kernel

/-- Every batch of buys goes out after a read whose cash covers its limit cash, unless that is next
to nothing. -/
def CoversFreshBuys (τ : List (Event sig)) : Prop :=
  ∀ before passed answer after,
    τ = before ++ (⟨Op.broker (.submitTrades passed), answer⟩ : Event sig) :: after →
    (∃ buy ∈ passed, buy.side = .buy) → buyCashRequired passed ≤ fillTolerance ∨
      ∃ refreshed cash, (⟨Op.broker .accountSnapshot, .ok refreshed⟩ : Event sig) ∈ before ∧
        refreshed.cashUsd = .finite cash ∧ buyCashRequired passed ≤ cash + cashTolerance

theorem HandsOver.of_split {P : List ProposedTrade → Prop} {τ before after : List (Event sig)}
    {passed : List ProposedTrade} {answer : Except Exn Nat} (h : HandsOver P τ)
    (hτ : τ = before ++ (⟨Op.broker (.submitTrades passed), answer⟩ : Event sig) :: after) :
    P passed :=
  h _ (hτ ▸ List.mem_append_right _ List.mem_cons_self) passed rfl

/-- What goes out after a part of a trace that hands over no buy is in the rest. -/
theorem coversFreshBuys_append {τ more : List (Event sig)} (h : HandsOver AllSells τ)
    (hmore : CoversFreshBuys more) : CoversFreshBuys (τ ++ more) := by
  intro before passed answer after heq hbuy
  rcases List.append_eq_append_iff.mp heq with ⟨rest, rfl, hrest⟩ | ⟨rest, rfl, hrest⟩
  · rcases hmore rest passed answer after hrest hbuy with hfree | ⟨refreshed, cash, hread, hcovers⟩
    · exact Or.inl hfree
    · exact Or.inr ⟨refreshed, cash, List.mem_append_right _ hread, hcovers⟩
  · cases rest with
    | nil =>
      rw [List.nil_append] at hrest
      rcases hmore [] passed answer after hrest.symm hbuy with hfree | ⟨_, _, hread, _⟩
      · exact Or.inl hfree
      · cases hread
    | cons event rest =>
      obtain ⟨rfl, _⟩ := List.cons.inj hrest
      obtain ⟨buy, hmem, hside⟩ := hbuy
      have hsell := h.of_split rfl buy hmem
      rw [hside] at hsell
      cases hsell

theorem HandsOver.mono {P Q : List ProposedTrade → Prop} {τ : List (Event sig)}
    (h : HandsOver P τ) (hPQ : ∀ passed, P passed → Q passed) : HandsOver Q τ :=
  fun event hevent trades htrades => hPQ trades (h event hevent trades htrades)

/-- Where only sells are handed over, no buy needs cash. -/
theorem HandsOver.coversFreshBuys {τ : List (Event sig)} (h : HandsOver AllSells τ) :
    CoversFreshBuys τ := by
  rintro before passed answer after heq ⟨buy, hbuy, hside⟩
  have hsell := h.of_split heq buy hbuy
  rw [hside] at hsell
  cases hsell

/-- A batch after a read that covers it. -/
theorem coversFreshBuys_of_read {passed : List ProposedTrade} {refreshed : AccountSnapshot}
    {cash : ℚ} (hcash : refreshed.cashUsd = .finite cash)
    (hfits : buyCashRequired passed ≤ cash + cashTolerance) {τ : List (Event sig)}
    (honly : HandsOver (· = passed) τ) :
    CoversFreshBuys (⟨Op.broker .accountSnapshot, .ok refreshed⟩ :: τ) := by
  intro before other answer after heq _
  cases before with
  | nil =>
    obtain ⟨hevent, _⟩ := List.cons.inj heq
    cases hevent
  | cons event before =>
    obtain ⟨rfl, hτ⟩ := List.cons.inj heq
    obtain rfl := honly.of_split hτ
    exact Or.inr ⟨refreshed, cash, List.mem_cons_self, hcash, hfits⟩

theorem Spends.coversFreshBuys {settings : Settings} {repriced : List ProposedTrade}
    {out : Outcome Exn (Dict OrderResult)} {τ : List (Event sig)}
    (h : Spends settings repriced out τ) : CoversFreshBuys τ := by
  cases h with
  | stopped => exact (handsOver_of_nothing (List.forall_mem_nil _)).coversFreshBuys
  | unasked hfree hsends =>
    intro before passed answer after heq _
    obtain rfl := hsends.only.of_split heq
    exact Or.inl hfree
  | covered refreshed cash hcash hfits hsends => exact coversFreshBuys_of_read hcash hfits hsends.only
  | trimmed refreshed cash passed hcash hshort hsmall hshrunk hfits hsends =>
    exact coversFreshBuys_of_read hcash hfits hsends.only
  | blocked read hheld hblocks =>
    have hread : HandsOver (fun _ => False) [⟨Op.broker .accountSnapshot, read⟩] := by
      intro event hevent trades htrades
      obtain rfl := List.mem_singleton.mp hevent
      cases htrades
    exact ((hread.append hblocks.nothing).mono fun _ h => h.elim).coversFreshBuys

theorem Staged.coversFreshBuys {W : Type} {E : Environment W} {manager : ExecutionManager}
    {plan : RebalancePlan} {callback : Option StatusCallback}
    {out : Outcome Exn (List OrderResult)} {τ : List (Event sig)}
    (h : Staged E manager plan callback out τ) : CoversFreshBuys τ := by
  cases h with
  | selling last hsells hlast hout honly => exact honly.coversFreshBuys
  | sold sells results hsells honly => exact honly.coversFreshBuys
  | repricing sells buys results last hsells honly hreprice hlast hout hnothing =>
    exact (honly.append (hnothing.mono fun _ h => h.elim)).coversFreshBuys
  | buying sells buys results repriced blocked last hsells honly hanswered hreprice hnothing hspends
      hout =>
    apply coversFreshBuys_append honly
    exact coversFreshBuys_append (hnothing.mono fun _ h => h.elim) hspends.coversFreshBuys

/-- One attempt: its plan, and what is answered to it. -/
structure BuyingAttempt where
  plan : RebalancePlan
  /-- Whether the process is a new one, which reads the ledger from its files. -/
  newProcess : Bool := true
  choices : List Oracle

namespace BuyingAttempt

variable (settings : Settings) (isIbkr hasReplacement hasHistory reported : Bool)

/-- The attempt on a ledger. -/
def run (attempt : BuyingAttempt) (store : OrderStore) : Run sig (World Unit) (List OrderResult) :=
  openWorld.run ((protocolManager settings isIbkr hasReplacement hasHistory).submitPlan attempt.plan
    (callbackOf reported)) attempt.choices (World.of (store.atStart attempt.newProcess))

/-- The ledger after attempts, one after the other. -/
def ledgerAfter (attempts : List BuyingAttempt) (store : OrderStore) : OrderStore :=
  attempts.foldl (fun store attempt =>
    (attempt.run settings isIbkr hasReplacement hasHistory reported store).state.ledger) store

/-- In every sequence of attempts of a run, the cash an attempt has read covers its own buys. -/
theorem coversFreshBuys_of_attempts (runId : String) (store : OrderStore)
    (attempts : List BuyingAttempt)
    (hplans : ∀ attempt ∈ attempts, attempt.plan.runId = runId ∧
      ∀ trade ∈ attempt.plan.trades, trade.side = .buy → trade.Purchase)
    (earlier later : List BuyingAttempt) (attempt : BuyingAttempt)
    (hattempts : attempts = earlier ++ attempt :: later) :
    CoversFreshBuys (attempt.run settings isIbkr hasReplacement hasHistory reported
      (ledgerAfter settings isIbkr hasReplacement hasHistory reported earlier store)).trace := by
  have hmem : attempt ∈ attempts := hattempts ▸ List.mem_append_right _ List.mem_cons_self
  exact ((emits_staged (hplans attempt hmem).2).runs _ _).coversFreshBuys

/-- A broker that reports its cash, and accepts a batch of which it fills nothing yet. -/
def acceptsBatch (cash : ℚ) (accepted : List OrderResult) : Oracle where
  clock := 0
  answer
    | .broker .accountSnapshot =>
      .ok { cashUsd := .finite cash, positionsMarketValueUsd := .finite 0 }
    | .broker (.submitTrades _) => .ok (0 : Nat)
    | .broker .submitResults => .ok accepted
    | _ => .error (.connection "not connected")

/-- The first of the two buys, with 100 dollars in cash, accepted and not filled yet. -/
def acceptedFirst : BuyingAttempt where
  plan := planOfBuys [plannedBuy "AAPL" 10 10 (some 10) 100]
  choices := List.replicate 30 (acceptsBatch 100 [{
    ticker := "AAPL", side := .buy, quantity := 10, notional := 100, orderId := some 7,
    status := "Submitted", filled := 0, averageFillPrice := none }])

/-- Then both buys, with the same cash, of which working orders are not subtracted. -/
def thenBoth : BuyingAttempt where
  plan := planOfBuys tenAndTen
  choices := List.replicate 30 (reportsCash 100)

/-- In two attempts, the cash the second has read covers its buy. -/
theorem coversFreshBuys_of_attempts_thenBoth :
    CoversFreshBuys (thenBoth.run Settings.fromSnapshot true true true false
      (ledgerAfter Settings.fromSnapshot true true true false [acceptedFirst] .empty)).trace :=
  coversFreshBuys_of_attempts Settings.fromSnapshot true true true false "run" .empty
    [acceptedFirst, thenBoth] (by
      intro attempt hattempt
      simp only [List.mem_cons, List.not_mem_nil, or_false] at hattempt
      rcases hattempt with rfl | rfl
      · exact ⟨rfl, fun trade htrade =>
          tenAndTen_purchases trade (List.mem_cons.mpr (Or.inl (List.mem_singleton.mp htrade)))⟩
      · exact ⟨rfl, tenAndTen_purchases⟩)
    [acceptedFirst] [] thenBoth rfl

end BuyingAttempt

/-- The unfilled limit cash of the buys of a run which the ledger holds as open. -/
def openBuyCash (store : OrderStore) (runId : String) : ℚ :=
  ((store.loadOpenOrders.filter fun entry => entry.runId = runId ∧ entry.side = .buy).map fun entry =>
    entry.remainingQty * entry.limitPrice.getD 0).sum

/-- The cash of an accepted buy that is not filled yet is spent again by the next attempt. A buy
without a limit whose notional is not its quantity at its price goes out above the cash even of a
first attempt, and a buy of next to nothing without a read of it. -/
theorem BuyingAttempt.not_reserves_openBuys :
    (∃ entry ∈ (ledgerAfter Settings.fromSnapshot true true true false [acceptedFirst]
        .empty).loadOpenOrders, entry.lifecycleState = .brokerAccepted ∧ entry.orderId = some 7) ∧
    openBuyCash (ledgerAfter Settings.fromSnapshot true true true false [acceptedFirst] .empty)
      "run" = 100 ∧
    (∃ passed ∈ handedBatches (thenBoth.run Settings.fromSnapshot true true true false
        (ledgerAfter Settings.fromSnapshot true true true false [acceptedFirst] .empty)).trace,
      passed.map (·.ticker) = ["MSFT"] ∧ 100 + cashTolerance < buyCashRequired passed + 100) ∧
    (∃ passed ∈ handedBatches (buyingRun 960 [plannedBuy "AAPL" 10 200 none 1000]).trace,
      960 + cashTolerance < buyCashRequired passed) ∧
    handedBatches (buyingRun 0 [plannedBuy "AAPL" (1 / 10 ^ 10) 1 (some 1) 0]).trace ≠ [] ∧
    Op.broker .accountSnapshot ∉
      opsOf (buyingRun 0 [plannedBuy "AAPL" (1 / 10 ^ 10) 1 (some 1) 0]) := by
  decide +kernel

end Poma
