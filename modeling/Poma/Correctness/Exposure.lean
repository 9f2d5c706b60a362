import Poma.Broker.Exchange
import Poma.Correctness.Accounting
import Poma.Correctness.References

/-!
# What the adapter can have at the exchange

The exposure of an instrument is what its orders have traded or may still trade.
Orders that fill, and orders that are cancelled, do not add to it; an order that
is placed adds its quantity. A replacement goes out only against an order of the
same instrument that was cancelled without a fill, for no more shares than that
order had, so replacing adds nothing: whatever the exchange does in between, and
wherever the process is killed, the exposure grows by submitted trades only.
-/

namespace Poma

open Interaction

section Moves

variable {order later last : BookedOrder} {book : Book}

theorem BookedOrder.becomes_refl (order : BookedOrder) : order.Becomes order :=
  ⟨rfl, rfl, rfl, rfl, rfl, rfl, le_refl _, fun _ => rfl⟩

theorem BookedOrder.Becomes.trans (h : order.Becomes later) (hl : later.Becomes last) :
    order.Becomes last where
  orderRef := hl.orderRef.trans h.orderRef
  account := hl.account.trans h.account
  orderId := hl.orderId.trans h.orderId
  symbol := hl.symbol.trans h.symbol
  action := hl.action.trans h.action
  total := hl.total.trans h.total
  filled := h.filled.trans hl.filled
  final hcancelled := by
    obtain rfl := h.final hcancelled
    exact hl.final hcancelled

theorem BookedOrder.becomes_fill (order : BookedOrder) (shares : ℚ) :
    order.Becomes (order.fill shares) := by
  unfold BookedOrder.fill
  split
  · rename_i h
    refine ⟨rfl, rfl, rfl, rfl, rfl, rfl, ?_, fun hcancelled => absurd hcancelled h.1⟩
    exact le_add_of_nonneg_right h.2.1
  · exact order.becomes_refl

theorem BookedOrder.becomes_report (order : BookedOrder) (status : String) :
    order.Becomes (order.report status) := by
  unfold BookedOrder.report
  split
  · exact order.becomes_refl
  · rename_i h
    exact ⟨rfl, rfl, rfl, rfl, rfl, rfl, le_refl _, fun hcancelled => absurd hcancelled h⟩

theorem Book.becomes_refl (book : Book) : book.Becomes book :=
  List.forall₂_same.mpr fun order _ => order.becomes_refl

theorem Book.Becomes.trans {next end_ : Book} (h : book.Becomes next) (hn : next.Becomes end_) :
    book.Becomes end_ := by
  induction h generalizing end_ with
  | nil => exact hn
  | cons hfirst _ ih =>
    cases hn with
    | cons hsecond hrest => exact .cons (hfirst.trans hsecond) (ih hrest)

/-- A change of one order that it can have become is one of the book. -/
theorem Book.becomes_modify (book : Book) (number : Nat) {change : BookedOrder → BookedOrder}
    (h : ∀ order : BookedOrder, order.Becomes (change order)) :
    book.Becomes (book.modify number change) := by
  induction book generalizing number with
  | nil =>
    rw [List.modify_nil]
    exact .nil
  | cons order rest ih =>
    cases number with
    | zero => exact .cons (h order) (Book.becomes_refl rest)
    | succ number => exact .cons order.becomes_refl (ih number)

theorem Book.becomes_after (book : Book) (moves : List Move) : book.Becomes (book.after moves) := by
  induction moves generalizing book with
  | nil => exact book.becomes_refl
  | cons move moves ih =>
    have hmove : book.Becomes (move.apply book) := by
      cases move with
      | fill number shares => exact book.becomes_modify number fun order => order.becomes_fill shares
      | report number status =>
        exact book.becomes_modify number fun order => order.becomes_report status
    exact hmove.trans (ih _)

/-- An order of the book is still there, under its number. -/
theorem Book.Becomes.get {next : Book} (h : book.Becomes next) {number : Nat}
    (horder : book[number]? = some order) :
    ∃ later, next[number]? = some later ∧ order.Becomes later := by
  induction h generalizing number with
  | nil => cases horder
  | cons hfirst _ ih =>
    cases number with
    | zero =>
      obtain rfl := Option.some.inj horder
      exact ⟨_, rfl, hfirst⟩
    | succ number => exact ih horder

/-- An order of the book was there before, under its number. -/
theorem Book.Becomes.was {next : Book} (h : book.Becomes next) {number : Nat}
    (hlater : next[number]? = some later) :
    ∃ order, book[number]? = some order ∧ order.Becomes later := by
  induction h generalizing number with
  | nil => cases hlater
  | cons hfirst _ ih =>
    cases number with
    | zero =>
      obtain rfl := Option.some.inj hlater
      exact ⟨_, rfl, hfirst⟩
    | succ number => exact ih hlater

/-- The order that was placed last is still the last one. -/
theorem Book.Becomes.placed {next : Book} {placed : BookedOrder}
    (h : Book.Becomes (book ++ [placed]) next) :
    ∃ kept last, next = kept ++ [last] ∧ book.Becomes kept ∧ placed.Becomes last := by
  induction book generalizing next with
  | nil =>
    cases h with
    | cons hplaced hnil =>
      cases hnil
      exact ⟨[], _, rfl, .nil, hplaced⟩
  | cons order rest ih =>
    cases h with
    | cons hfirst hrest =>
      obtain ⟨kept, last, rfl, hkept, hlast⟩ := ih hrest
      exact ⟨_ :: kept, last, rfl, .cons hfirst hkept, hlast⟩

end Moves

section Given

/-- The listed trades show orders that are not cancelled. -/
theorem mem_openTrades {book : Book} {known : Nat → Bool} {details trade : IbTrade}
    (h : trade ∈ book.openTrades known details) :
    ∃ number order, book.Shows number order trade ∧ ¬order.Cancelled := by
  obtain ⟨⟨order, number⟩, hmem, hview⟩ := List.mem_filterMap.mp h
  have hplace : book[number]? = some order := List.mk_mem_zipIdx_iff_getElem?.mp hmem
  by_cases hlisted : known number ∧ ¬order.Cancelled
  · refine ⟨number, order, ⟨hplace, details, ?_⟩, hlisted.2⟩
    exact (Option.some.inj ((if_pos hlisted).symm.trans hview)).symm
  · cases (if_neg hlisted).symm.trans hview

/-- The exchange that is given is one. -/
theorem exchange_isExchange : exchange.IsExchange where
  becomes := by
    intro o ho c book
    have hmoved := book.becomes_after c.moves
    cases o with
    | ib call =>
      cases call with
      | placeOrder order => exact absurd rfl (ho order)
      | _ => exact hmoved
    | _ => exact hmoved
  places := by
    intro order c book
    have hmoved := book.becomes_after c.moves
    by_cases h : 0 ≤ order.totalQuantity ∧ c.books = true
    · have hbook : (exchange.answer c book (.ib (.placeOrder order))).2 =
          book.after c.moves ++ [order.booked c.orderId c.status h.1] :=
        congrArg Prod.snd (dif_pos h)
      rw [hbook]
      exact Or.inr ⟨_, _, rfl, hmoved, rfl, rfl, rfl, rfl⟩
    · have hbook : (exchange.answer c book (.ib (.placeOrder order))).2 = book.after c.moves :=
        congrArg Prod.snd (dif_neg h)
      rw [hbook]
      exact Or.inl hmoved
  shows := by
    intro c book trades hanswer trade hmem
    have hfails : c.failure.elim
        (.ok ((book.after c.moves).openTrades c.known c.details)) .error =
          (.ok trades : Except Exn (List IbTrade)) := hanswer
    cases hfailure : c.failure with
    | some e =>
      rw [hfailure] at hfails
      cases hfails
    | none =>
      rw [hfailure] at hfails
      rw [← Except.ok.inj hfails] at hmem
      exact mem_openTrades hmem
  reads := by
    intro c book trade number order hnumber horder
    obtain ⟨later, hlater, _⟩ := (book.becomes_after c.moves).get horder
    have hread : (book.after c.moves).read trade c.details = later.view number c.details := by
      unfold Book.read
      rw [hnumber]
      exact congrArg (fun found : Option BookedOrder =>
        (found.map (·.view number c.details)).getD trade) hlater
    exact ⟨later, _, congrArg Except.ok hread, hlater, c.details, rfl⟩

end Given

/-- The instrument of an order: its symbol, in whatever case, and its direction. -/
def BookedOrder.instrument (order : BookedOrder) (textCase : TextCase) : String × String :=
  (textCase.upper order.symbol, order.action)

/-- What an order adds to the exposure of an instrument. -/
def BookedOrder.exposureIn (textCase : TextCase) (instrument : String × String)
    (order : BookedOrder) : ℚ :=
  if order.instrument textCase = instrument then order.exposure else 0

/-- What the orders of an instrument have traded or may still trade. -/
def Book.exposure (book : Book) (textCase : TextCase) (instrument : String × String) : ℚ :=
  (book.map (·.exposureIn textCase instrument)).sum

/-- The shares an order adds to the exposure of an instrument once it is placed. -/
def IbOrder.sharesIn (textCase : TextCase) (instrument : String × String) (order : IbOrder) : ℚ :=
  if (textCase.upper order.symbol, order.action) = instrument then max order.totalQuantity 0 else 0

section Sums

variable {order later : BookedOrder} {book next : Book} {textCase : TextCase}
  {instrument : String × String}

theorem BookedOrder.exposure_le (order : BookedOrder) : order.exposure ≤ order.totalQuantity := by
  unfold BookedOrder.exposure
  split
  · exact order.filled_le
  · exact le_refl _

theorem BookedOrder.Becomes.instrument_eq (h : order.Becomes later) :
    later.instrument textCase = order.instrument textCase := by
  unfold BookedOrder.instrument
  rw [h.symbol, h.action]

theorem BookedOrder.Becomes.exposure_le (h : order.Becomes later) :
    later.exposure ≤ order.exposure := by
  by_cases hcancelled : order.Cancelled
  · rw [h.final hcancelled]
  · have hopen : order.exposure = order.totalQuantity := if_neg hcancelled
    rw [hopen, ← h.total]
    exact later.exposure_le

variable (textCase instrument) in
theorem BookedOrder.Becomes.exposureIn_le (h : order.Becomes later) :
    later.exposureIn textCase instrument ≤ order.exposureIn textCase instrument := by
  unfold BookedOrder.exposureIn
  rw [h.instrument_eq]
  split
  · exact h.exposure_le
  · exact le_refl _

variable (textCase instrument) in
/-- The exposure does not grow without a new order. -/
theorem Book.Becomes.exposure_le (h : book.Becomes next) :
    next.exposure textCase instrument ≤ book.exposure textCase instrument := by
  unfold Book.exposure
  induction h with
  | nil => exact le_refl _
  | cons hfirst _ ih =>
    simp only [List.map_cons, List.sum_cons]
    exact add_le_add (hfirst.exposureIn_le textCase instrument) ih

variable (textCase instrument) in
/-- An order that was cancelled gives back what it had not traded. -/
theorem Book.Becomes.exposure_freed (h : book.Becomes next) {number : Nat}
    (horder : book[number]? = some order) (hlater : next[number]? = some later) :
    next.exposure textCase instrument ≤
      book.exposure textCase instrument -
        (order.exposureIn textCase instrument - later.exposureIn textCase instrument) := by
  unfold Book.exposure
  induction h generalizing number with
  | nil => cases horder
  | cons hfirst hrest ih =>
    simp only [List.map_cons, List.sum_cons]
    cases number with
    | zero =>
      obtain rfl := Option.some.inj horder
      obtain rfl := Option.some.inj hlater
      have htail := Book.Becomes.exposure_le textCase instrument hrest
      unfold Book.exposure at htail
      linarith
    | succ number =>
      have htail := ih horder hlater
      have hhead := hfirst.exposureIn_le textCase instrument
      linarith

theorem Book.exposure_append (book : Book) (placed : BookedOrder) :
    Book.exposure (book ++ [placed]) textCase instrument =
      book.exposure textCase instrument + placed.exposureIn textCase instrument := by
  unfold Book.exposure
  rw [List.map_append, List.sum_append, List.map_singleton, List.sum_singleton]

/-- What may be placed as one order adds no more than its shares. -/
theorem Book.MayAdd.exposure_le_add {start finish : Book} {order : IbOrder}
    (h : start.MayAdd (fun _ placed => placed.IsOf order) finish) :
    finish.exposure textCase instrument ≤
      start.exposure textCase instrument + order.sharesIn textCase instrument := by
  rcases h with h | ⟨kept, placed, rfl, hkept, h⟩
  · have hnone : 0 ≤ order.sharesIn textCase instrument := by
      unfold IbOrder.sharesIn
      split
      · exact le_max_right _ _
      · exact le_refl _
    exact (h.exposure_le textCase instrument).trans (le_add_of_nonneg_right hnone)
  · have hplaced : placed.exposureIn textCase instrument ≤ order.sharesIn textCase instrument := by
      have hinstrument : placed.instrument textCase =
          (textCase.upper order.symbol, order.action) := by
        unfold BookedOrder.instrument
        rw [h.symbol, h.action]
      unfold BookedOrder.exposureIn IbOrder.sharesIn
      rw [hinstrument]
      split
      · exact placed.exposure_le.trans (h.total ▸ le_max_left _ _)
      · exact le_refl _
    rw [Book.exposure_append]
    exact add_le_add (hkept.exposure_le textCase instrument) hplaced

end Sums

section Answers

theorem Op.places_or (o : Op) : o.PlacesNothing ∨ ∃ order, o = .ib (.placeOrder order) := by
  cases o with
  | ib call =>
    cases call with
    | placeOrder order => exact Or.inr ⟨order, rfl⟩
    | _ => exact Or.inl rfl
  | _ => exact Or.inl rfl

variable {E : Environment Book} (hE : E.IsExchange) {s : World Book} {textCase : TextCase}
  {instrument : String × String}

include hE

/-- Only a placed order adds to the book. -/
theorem act_becomes {o : Op} (ho : o.PlacesNothing) (c : E.Choice) (s : World Book) :
    s.outside.Becomes (E.system.act c s o).2.outside := by
  have hne : ∀ order, o ≠ .ib (.placeOrder order) := by
    rintro order rfl
    cases ho
  cases o with
  | loadLatestEntries => exact s.outside.becomes_refl
  | upsert entry => exact s.outside.becomes_refl
  | utcNow => exact s.outside.becomes_refl
  | sleep seconds => exact s.outside.becomes_refl
  | statusCallback trade result => exact hE.becomes hne c s.outside
  | broker call => exact hE.becomes hne c s.outside
  | host call => exact hE.becomes hne c s.outside
  | ib call => exact hE.becomes hne c s.outside

/-- A placed order adds no more than its shares. -/
theorem act_places (order : IbOrder) (c : E.Choice) (s : World Book) :
    (E.system.act c s (.ib (.placeOrder order))).2.outside.exposure textCase instrument ≤
      s.outside.exposure textCase instrument + order.sharesIn textCase instrument :=
  (hE.places order c s.outside).exposure_le_add

/-- A program that places nothing leaves the book as it can become on its own. -/
theorem wp_becomes {α : Type} {p : M α} (hp : p.Uses (S := sig) Op.PlacesNothing) {start : Book}
    {τ : List (Event sig)} (h : start.Becomes s.outside) :
    E.system.wp p (fun _ _ s' => start.Becomes s'.outside) τ s :=
  E.system.wp_of_uses (I := fun _ s => start.Becomes s.outside) hp
    (fun _ ho c _ s hs => hs.trans (act_becomes hE ho c s)) h

/-- What a trace places of an instrument. -/
def placedShares (textCase : TextCase) (instrument : String × String) (τ : List (Event sig)) : ℚ :=
  ((placedOrders τ).map (·.sharesIn textCase instrument)).sum

/-- A run adds no more to the exposure than the orders it places. -/
theorem run_exposure {α : Type} (p : M α) (choices : List E.Choice) (s : World Book) :
    (E.system.run p choices s).state.outside.exposure textCase instrument ≤
      s.outside.exposure textCase instrument +
        placedShares textCase instrument (E.system.run p choices s).trace := by
  have hrun : E.system.wp p (fun _ τ' s' => s'.outside.exposure textCase instrument ≤
      s.outside.exposure textCase instrument + placedShares textCase instrument τ') [] s := by
    apply E.system.wp_of_uses (I := fun τ' s' =>
      s'.outside.exposure textCase instrument ≤
        s.outside.exposure textCase instrument + placedShares textCase instrument τ')
      (Prog.uses_all p)
    · intro o _ c τ' s' h
      unfold placedShares at h ⊢
      rw [placedOrders_append, List.map_append, List.sum_append, ← add_assoc]
      rcases o.places_or with ho | ⟨order, rfl⟩
      · have hnone : placedOrders [(⟨o, (E.system.act c s' o).1⟩ : Event sig)] = [] :=
          placedOrders_nil fun event hevent => by
            rw [List.mem_singleton.mp hevent]
            exact ho
        rw [hnone, List.map_nil, List.sum_nil, add_zero]
        exact ((act_becomes hE ho c s').exposure_le textCase instrument).trans h
      · have hone : placedOrders [(⟨.ib (.placeOrder order),
            (E.system.act c s' (.ib (.placeOrder order))).1⟩ : Event sig)] = [order] := rfl
        rw [hone, List.map_singleton, List.sum_singleton]
        exact (act_places hE order c s').trans (add_le_add_left h _)
    · exact le_add_of_nonneg_right (le_refl 0)
  exact E.system.wp_run hrun choices

end Answers

/-- A condition on a book and a new order that stays as both go on. -/
def Lasting (P : Book → BookedOrder → Prop) : Prop :=
  ∀ {kept next : Book} {placed later : BookedOrder}, P kept placed → kept.Becomes next →
    placed.Becomes later → P next later

/-- The order that a replacement is for: one of POMA's own, found under its id. -/
structure BookedOrder.IsTarget (order : BookedOrder) (textCase : TextCase)
    (request : ReplaceRequest) : Prop where
  orderId : order.orderId = some request.orderId
  own : startsWith order.orderRef (orderRefPrefix ++ ":") = true
  instrument : order.instrument textCase = (textCase.upper request.ticker, request.side.value)

/-- A new order that takes the place of one that was cancelled without a fill. -/
structure Replacing (textCase : TextCase) (request : ReplaceRequest) (start kept : Book)
    (placed : BookedOrder) (number : Nat) (original ended : BookedOrder) : Prop where
  before : start[number]? = some original
  target : original.IsTarget textCase request
  worked : ¬original.Cancelled
  after : kept[number]? = some ended
  cancelled : ended.Cancelled
  becomes : original.Becomes ended
  unfilled : ended.filled = 0
  orderRef : placed.orderRef = request.orderRef
  instrument : placed.instrument textCase = (textCase.upper request.ticker, request.side.value)
  within_request : placed.totalQuantity ≤ |request.quantity|
  within_original : placed.totalQuantity ≤ original.totalQuantity

/-- The new order takes the place of some order. -/
def Replaces (textCase : TextCase) (request : ReplaceRequest) (start kept : Book)
    (placed : BookedOrder) : Prop :=
  ∃ number original ended, Replacing textCase request start kept placed number original ended

section Placing

variable {settings : Settings} {start : Book} {τ : List (Event sig)} {s : World Book}
  {P : Book → BookedOrder → Prop}

theorem BookedOrder.IsOf.later {booked later : BookedOrder} {order : IbOrder}
    (h : booked.IsOf order) (hl : booked.Becomes later) : later.IsOf order :=
  ⟨hl.orderRef.trans h.orderRef, hl.symbol.trans h.symbol, hl.action.trans h.action,
    hl.total.trans h.total⟩

theorem Book.MayAdd.later {book next : Book} (hP : Lasting P) (h : start.MayAdd P book)
    (hnext : book.Becomes next) : start.MayAdd P next := by
  rcases h with h | ⟨kept, placed, rfl, hkept, hplaced⟩
  · exact Or.inl (h.trans hnext)
  · obtain ⟨kept', last, rfl, hkept', hlast⟩ := hnext.placed
    exact Or.inr ⟨kept', last, rfl, hkept.trans hkept', hP hplaced hkept' hlast⟩

theorem askIb_placesNothing {call : IbCall} (h : ∀ order, call ≠ .placeOrder order) :
    (askIb call).Uses (S := sig) Op.PlacesNothing :=
  (meets_askIb (turnMeets_places.asks call h)).mono (fun _ ho => ho) fun _ _ => trivial

theorem currentTrade_placesNothing (trade : IbTrade) :
    (currentTrade trade).Uses (S := sig) Op.PlacesNothing :=
  (meets_currentTrade turnMeets_places trivial).mono (fun _ ho => ho) fun _ _ => trivial

theorem lasting_replaces (textCase : TextCase) (request : ReplaceRequest) :
    Lasting (Replaces textCase request start) := by
  rintro kept next placed later ⟨number, original, ended, h⟩ hnext hlater
  obtain ⟨last, hlast, hended⟩ := hnext.get h.after
  -- the cancelled order is the same for good
  obtain rfl := hended.final h.cancelled
  exact ⟨number, original, last, {
    before := h.before
    target := h.target
    worked := h.worked
    after := hlast
    cancelled := h.cancelled
    becomes := h.becomes
    unfilled := h.unfilled
    orderRef := hlater.orderRef.trans h.orderRef
    instrument := hlater.instrument_eq.trans h.instrument
    within_request := hlater.total ▸ h.within_request
    within_original := hlater.total ▸ h.within_original }⟩

theorem lasting_isOf (order : IbOrder) : Lasting fun _ placed => placed.IsOf order :=
  fun h _ hlater => h.later hlater

variable {E : Environment Book} (hE : E.IsExchange)

include hE

/-- What holds with at most one new order holds after whatever else places nothing. -/
theorem wp_mayAdd {α : Type} {p : M α} (hp : p.Uses (S := sig) Op.PlacesNothing)
    (hP : Lasting P) (h : start.MayAdd P s.outside) :
    E.system.wp p (fun _ _ s' => start.MayAdd P s'.outside) τ s :=
  E.system.wp_mono (wp_becomes hE hp s.outside.becomes_refl) fun _ _ _ => h.later hP

/-- A placed order is booked once, or not at all. -/
theorem wp_placeOrder (order : IbOrder) (h : start.Becomes s.outside)
    (hplace : ∀ kept (booked : BookedOrder), s.outside.Becomes kept → booked.IsOf order →
      P kept booked) :
    E.system.wp (askIb (.placeOrder order)) (fun _ _ s' => start.MayAdd P s'.outside)
      τ s := by
  have hbook : ∀ c : E.Choice, start.MayAdd P
      (E.system.act c s (.ib (.placeOrder order))).2.outside := by
    intro c
    rcases hE.places order c s.outside with hnone | ⟨kept, placed, hbook, hkept, hplaced⟩
    · exact Or.inl (h.trans hnone)
    · exact Or.inr ⟨kept, placed, hbook, h.trans hkept, hplace kept placed hkept hplaced⟩
  refine (E.system.wp_perform (.ib (.placeOrder order)) _ τ s).mpr ⟨Or.inl h, fun c => ?_⟩
  cases (E.system.act c s (.ib (.placeOrder order))).1 with
  | ok a => exact hbook c
  | error e => exact hbook c

/-- The order of `_place_limit_order`. -/
def Ibkr.limitOrder (settings : Settings) (ticker : String) (side : OrderSide)
    (quantity limitPrice : ℚ) (orderRef : String) : IbOrder where
  symbol := ticker
  action := side.value
  totalQuantity := quantity
  limitPrice := some limitPrice
  tif := settings.orderTimeInForce
  orderRef := orderRef
  account := settings.account?.getD ""

/-- A limit order is placed at most once, as asked for. -/
theorem wp_placeLimitOrder {ticker : String} {side : OrderSide} {quantity limitPrice : ℚ}
    {orderRef : String} (hP : Lasting P) (h : start.Becomes s.outside)
    (hplace : ∀ kept (booked : BookedOrder), s.outside.Becomes kept →
      booked.IsOf (Ibkr.limitOrder settings ticker side quantity limitPrice orderRef) →
      P kept booked) :
    E.system.wp (Ibkr.placeLimitOrder settings ticker side quantity limitPrice orderRef)
      (fun _ _ s' => start.MayAdd P s'.outside) τ s := by
  have hcontract : E.system.wp (askIb (.executionOrderContract ticker))
      (fun _ _ s' => s.outside.Becomes s'.outside) τ s :=
    wp_becomes hE (askIb_placesNothing (by simp)) s.outside.becomes_refl
  unfold Ibkr.placeLimitOrder
  apply E.system.wp_seq hcontract
  · intro _ τ₁ s₁ h₁
    dsimp only
    have hplaced : E.system.wp (askIb (.placeOrder
        (Ibkr.limitOrder settings ticker side quantity limitPrice orderRef)))
        (fun _ _ s' => start.MayAdd P s'.outside) τ₁ s₁ :=
      wp_placeOrder hE _ (h.trans h₁) fun kept booked hkept => hplace kept booked (h₁.trans hkept)
    apply E.system.wp_seq hplaced
    · intro placed τ₂ s₂ h₂
      refine wp_mayAdd hE ?_ hP h₂
      exact Prog.uses_bind (askIb_placesNothing (by simp)) fun _ =>
        Prog.uses_bind (currentTrade_placesNothing placed) fun _ => trivial
    · exact fun _ _ _ h₂ => h₂
    · exact fun _ _ h₂ => h₂
  · exact fun _ _ _ h₁ => Or.inl (h.trans h₁)
  · exact fun _ _ h₁ => Or.inl (h.trans h₁)

/-- A session adds what its body adds. -/
theorem wp_withSession {α : Type} {body : M α} (hP : Lasting P) (h : start.Becomes s.outside)
    (hbody : ∀ τ' s', start.Becomes s'.outside →
      E.system.wp body (fun _ _ s' => start.MayAdd P s'.outside) τ' s') :
    E.system.wp (Ibkr.withSession settings body)
      (fun _ _ s' => start.MayAdd P s'.outside) τ s := by
  have hconnect : (Ibkr.connect settings).Uses (S := sig) Op.PlacesNothing :=
    meets_connect turnMeets_places
  have hclose : (askIb .disconnect).Uses (S := sig) Op.PlacesNothing :=
    askIb_placesNothing (by simp)
  unfold Ibkr.withSession
  apply E.system.wp_seq (wp_becomes hE hconnect h)
  · intro _ τ₁ s₁ h₁
    unfold Prog.ensuring
    rw [System.wp_bind, System.wp_attempt]
    refine E.system.wp_mono (hbody τ₁ s₁ h₁) ?_
    intro out τ₂ s₂ h₂
    have hafter : ∀ r : Except Exn α, E.system.wp
        ((askIb .disconnect).bind fun _ => Prog.ofExcept (S := sig) r)
        (fun _ _ s' => start.MayAdd P s'.outside) τ₂ s₂ := fun r =>
      wp_mayAdd hE (Prog.uses_bind hclose fun _ => Prog.uses_ofExcept (S := sig) r) hP h₂
    cases out with
    | returned a => exact hafter (.ok a)
    | raised e => exact hafter (.error e)
    | stopped => exact h₂
  · exact fun _ _ _ h₁ => Or.inl h₁
  · exact fun _ _ h₁ => Or.inl h₁

/-- The list of open trades, read. -/
theorem wp_openTrades (h : start.Becomes s.outside) :
    E.system.wp (askIb .openTrades) (fun out _ s' => start.Becomes s'.outside ∧
      ∀ trades : List IbTrade, out = .returned trades → ∀ trade ∈ trades,
        ∃ number order, s'.outside.Shows number order trade ∧ ¬order.Cancelled) τ s := by
  refine (E.system.wp_perform (.ib .openTrades) _ τ s).mpr
    ⟨⟨h, by rintro _ ⟨⟩⟩, fun c => ?_⟩
  have hquiet : Op.PlacesNothing (.ib .openTrades) := rfl
  have hmoved : start.Becomes (E.system.act c s (.ib .openTrades)).2.outside :=
    h.trans (act_becomes hE hquiet c s)
  cases hanswer : (E.system.act c s (.ib .openTrades)).1 with
  | error e => exact ⟨hmoved, by rintro _ ⟨⟩⟩
  | ok trades =>
    refine ⟨hmoved, fun listed hlisted trade hmem => ?_⟩
    obtain rfl := Outcome.returned.inj hlisted
    exact hE.shows c s.outside trades hanswer trade hmem

/-- A trade of the book, read again, shows its order as it stands by then. -/
theorem wp_currentTrade {number : Nat} {order : BookedOrder} {trade : IbTrade}
    (hnumber : trade.permId = some (number : Int)) (horder : start[number]? = some order)
    (h : start.Becomes s.outside) :
    E.system.wp (currentTrade trade) (fun out _ s' => start.Becomes s'.outside ∧
      ∀ view, out = .returned view → ∃ later, s'.outside.Shows number later view) τ s := by
  unfold currentTrade
  rw [System.wp_bind, System.wp_attempt]
  refine (E.system.wp_perform (.ib (.readTrade trade)) _ τ s).mpr
    ⟨⟨h, by rintro _ ⟨⟩⟩, fun c => ?_⟩
  obtain ⟨known, hknown, _⟩ := h.get horder
  obtain ⟨later, view, hanswer, hshown⟩ := hE.reads c s.outside trade number known hnumber hknown
  have hact : (E.system.act c s (.ib (.readTrade trade))).1 = .ok view := hanswer
  have hquiet : Op.PlacesNothing (.ib (.readTrade trade)) := rfl
  rw [hact]
  refine ⟨h.trans (act_becomes hE hquiet c s), fun read hread => ?_⟩
  obtain rfl := Outcome.returned.inj hread
  exact ⟨later, hshown⟩

/-- The wait for a cancel ends with the order as it stands at the last poll. -/
theorem wp_awaitTerminalStatus {number : Nat} {order : BookedOrder}
    (horder : start[number]? = some order) (polls : Nat) {trade : IbTrade}
    (hnumber : trade.permId = some (number : Int)) (h : start.Becomes s.outside)
    (hshown : polls = 0 → ∃ later, s.outside.Shows number later trade) :
    E.system.wp (awaitTerminalStatus polls trade) (fun out _ s' =>
      start.Becomes s'.outside ∧ ∀ view, out = .returned view →
        ∃ later, s'.outside.Shows number later view) τ s := by
  induction polls generalizing trade τ s with
  | zero =>
    refine ⟨h, fun view hview => ?_⟩
    obtain rfl := Outcome.returned.inj hview
    exact hshown rfl
  | succ polls ih =>
    have hsleep : E.system.wp (askIb (.sleep cancelConfirmPollSeconds))
        (fun _ _ s' => start.Becomes s'.outside) τ s :=
      wp_becomes hE (askIb_placesNothing (by simp)) h
    rw [awaitTerminalStatus]
    apply E.system.wp_seq hsleep
    · intro _ τ₁ s₁ h₁
      apply E.system.wp_seq (wp_currentTrade hE hnumber horder h₁)
      · rintro view τ₂ s₂ ⟨h₂, hview⟩
        obtain ⟨later, hlater, details, rfl⟩ := hview view rfl
        split
        · refine ⟨h₂, fun last hlast => ?_⟩
          obtain rfl := Outcome.returned.inj hlast
          exact ⟨later, hlater, details, rfl⟩
        · exact ih rfl h₂ fun _ => ⟨later, hlater, details, rfl⟩
      · exact fun _ _ _ hq => ⟨hq.1, by rintro _ ⟨⟩⟩
      · exact fun _ _ hq => ⟨hq.1, by rintro _ ⟨⟩⟩
    · exact fun _ _ _ h₁ => ⟨h₁, by rintro _ ⟨⟩⟩
    · exact fun _ _ h₁ => ⟨h₁, by rintro _ ⟨⟩⟩

/-- The open trades of a session show orders that are not cancelled. -/
theorem wp_refreshedOpenTrades (h : start.Becomes s.outside) :
    E.system.wp Ibkr.refreshedOpenTrades (fun out _ s' => start.Becomes s'.outside ∧
      ∀ trades : List IbTrade, out = .returned trades → ∀ trade ∈ trades,
        ∃ number order, s'.outside.Shows number order trade ∧ ¬order.Cancelled) τ s := by
  have hrequest : E.system.wp (askIb .reqAllOpenOrders)
      (fun _ _ s' => start.Becomes s'.outside) τ s :=
    wp_becomes hE (askIb_placesNothing (by simp)) h
  unfold Ibkr.refreshedOpenTrades
  apply E.system.wp_seq hrequest
  · intro _ τ₁ s₁ h₁
    have hsleep : E.system.wp (askIb (.sleep 1))
        (fun _ _ s' => start.Becomes s'.outside) τ₁ s₁ :=
      wp_becomes hE (askIb_placesNothing (by simp)) h₁
    apply E.system.wp_seq hsleep
    · exact fun _ _ _ h₂ => wp_openTrades hE h₂
    · exact fun _ _ _ h₂ => ⟨h₂, by rintro _ ⟨⟩⟩
    · exact fun _ _ h₂ => ⟨h₂, by rintro _ ⟨⟩⟩
  · exact fun _ _ _ h₁ => ⟨h₁, by rintro _ ⟨⟩⟩
  · exact fun _ _ h₁ => ⟨h₁, by rintro _ ⟨⟩⟩

/-- The trade that is found shows an order that is not cancelled. -/
theorem wp_findTarget (request : ReplaceRequest) (h : start.Becomes s.outside) :
    E.system.wp (Ibkr.findOpenPomaTrade settings request.orderId
      (some (request.ticker, request.side))) (fun out _ s' => start.Becomes s'.outside ∧
        ∀ target, out = .returned (some target) → ∃ number order,
          s'.outside.Shows number order target ∧ ¬order.Cancelled ∧
            order.IsTarget settings.textCase request)
      τ s := by
  unfold Ibkr.findOpenPomaTrade
  apply E.system.wp_seq (wp_refreshedOpenTrades hE h)
  · rintro trades τ₁ s₁ ⟨h₁, hshown⟩
    refine ⟨h₁, fun target htarget => ?_⟩
    have hfound := Outcome.returned.inj htarget
    obtain ⟨number, order, ⟨hplace, details, rfl⟩, hopen⟩ :=
      hshown trades rfl target (List.mem_of_find?_eq_some hfound)
    have hchecks := List.find?_some hfound
    simp only [Bool.and_eq_true, decide_eq_true_eq, Option.all_some] at hchecks
    obtain ⟨⟨hid, hown⟩, hsymbol, haction⟩ := hchecks
    refine ⟨number, order, ⟨hplace, details, rfl⟩, hopen, hid, ?_, ?_⟩
    · exact (Bool.and_eq_true_iff.mp hown).1
    · exact Prod.ext hsymbol haction
  · exact fun _ _ _ hq => ⟨hq.1, by rintro _ ⟨⟩⟩
  · exact fun _ _ hq => ⟨hq.1, by rintro _ ⟨⟩⟩

/-- After the cancel was requested, a replacement goes out only once the order reads as cancelled
without a fill. -/
theorem wp_finishReplace {request : ReplaceRequest} {number : Nat} {original : BookedOrder}
    {target : IbTrade} (hbefore : start[number]? = some original)
    (htarget : original.IsTarget settings.textCase request) (hworked : ¬original.Cancelled)
    (hnumber : target.permId = some (number : Int)) (h : start.Becomes s.outside) :
    E.system.wp (Ibkr.finishReplace settings request target)
      (fun _ _ s' => start.MayAdd (Replaces settings.textCase request start) s'.outside) τ s := by
  unfold Ibkr.finishReplace
  apply E.system.wp_seq (wp_awaitTerminalStatus hE hbefore cancelConfirmPolls hnumber h
    fun hzero => (by cases hzero))
  · rintro view τ₁ s₁ ⟨h₁, hview⟩
    obtain ⟨ended, hended, details, rfl⟩ := hview view rfl
    obtain ⟨original', horiginal, hbecomes⟩ := h₁.was hended
    obtain rfl := Option.some.inj (hbefore.symm.trans horiginal)
    dsimp only
    by_cases hfilled : (ended.view number details).filled > 0
    · rw [if_pos hfilled]
      exact Or.inl h₁
    rw [if_neg hfilled]
    by_cases hcancelled : (ended.view number details).status ∉ cancelledStatuses
    · rw [if_pos hcancelled]
      exact Or.inl h₁
    rw [if_neg hcancelled]
    have hfinal : ended.Cancelled := not_not.mp hcancelled
    have hunfilled : ended.filled = 0 := le_antisymm (not_lt.mp hfilled) ended.filled_nonneg
    by_cases hnone : min |request.quantity| (ended.view number details).remaining ≤ 0
    · rw [if_pos hnone]
      exact Or.inl h₁
    rw [if_neg hnone]
    apply wp_placeLimitOrder hE (lasting_replaces settings.textCase request) h₁
    intro kept placed hkept hplaced
    obtain ⟨later, hlater, hstays⟩ := hkept.get hended
    obtain rfl := hstays.final hfinal
    refine ⟨number, original, later, {
      before := hbefore
      target := htarget
      worked := hworked
      after := hlater
      cancelled := hfinal
      becomes := hbecomes
      unfilled := hunfilled
      orderRef := hplaced.orderRef
      instrument := ?_
      within_request := hplaced.total.trans_le (min_le_left _ _)
      within_original := ?_ }⟩
    · unfold BookedOrder.instrument
      rw [hplaced.symbol, hplaced.action]
      rfl
    · rw [hplaced.total, ← hbecomes.total]
      refine (min_le_right _ _).trans ?_
      exact sub_le_self _ later.filled_nonneg
  · exact fun _ _ _ hq => Or.inl hq.1
  · exact fun _ _ hq => Or.inl hq.1

/-- `replace_order` leaves at most one new order, in the place of one cancelled without a fill. -/
theorem wp_replaceOrder (request : ReplaceRequest) (h : start.Becomes s.outside) :
    E.system.wp (Ibkr.replaceOrder settings request)
      (fun _ _ s' => start.MayAdd (Replaces settings.textCase request start) s'.outside) τ s := by
  have hconnected : (Ibkr.assertConnected settings).Uses (S := sig) Op.PlacesNothing :=
    meets_assertConnected turnMeets_places
  unfold Ibkr.replaceOrder
  apply wp_withSession hE (lasting_replaces settings.textCase request) h
  intro τ₀ s₀ h₀
  apply E.system.wp_seq (wp_becomes hE hconnected h₀)
  · intro _ τ₁ s₁ h₁
    apply E.system.wp_seq (wp_findTarget hE request h₁)
    · rintro (_ | target) τ₂ s₂ ⟨h₂, hfound⟩
      · exact Or.inl h₂
      obtain ⟨number, order, ⟨hplace, details, rfl⟩, hopen, htarget⟩ := hfound target rfl
      obtain ⟨original, horiginal, hbecomes⟩ := h₂.was hplace
      have hworked : ¬original.Cancelled := fun hcancelled =>
        hopen (hbecomes.final hcancelled ▸ hcancelled)
      have hnamed : original.IsTarget settings.textCase request :=
        ⟨hbecomes.orderId ▸ htarget.orderId, hbecomes.orderRef ▸ htarget.own,
          hbecomes.instrument_eq ▸ htarget.instrument⟩
      dsimp only
      split
      · exact Or.inl h₂
      have hcancel : E.system.wp (askIb (.cancelOrder (order.view number details)))
          (fun _ _ s' => start.Becomes s'.outside) τ₂ s₂ :=
        wp_becomes hE (askIb_placesNothing (by simp)) h₂
      apply E.system.wp_seq hcancel
      · exact fun _ _ _ h₃ => wp_finishReplace hE horiginal hnamed hworked rfl h₃
      · exact fun _ _ _ h₃ => Or.inl h₃
      · exact fun _ _ h₃ => Or.inl h₃
    · exact fun _ _ _ hq => Or.inl hq.1
    · exact fun _ _ hq => Or.inl hq.1
  · exact fun _ _ _ h₁ => Or.inl h₁
  · exact fun _ _ h₁ => Or.inl h₁

end Placing

section Bounds

variable {settings : Settings} {start finish : Book} {instrument : String × String}
  {E : Environment Book} (hE : E.IsExchange)

/-- Replacing adds nothing to the exposure: what is placed was freed before. -/
theorem Book.MayAdd.exposure_le {request : ReplaceRequest}
    (h : start.MayAdd (Replaces settings.textCase request start) finish) :
    finish.exposure settings.textCase instrument ≤ start.exposure settings.textCase instrument := by
  rcases h with h | ⟨kept, placed, rfl, hkept, number, original, ended, h⟩
  · exact h.exposure_le settings.textCase instrument
  · have hfreed := hkept.exposure_freed settings.textCase instrument h.before h.after
    have hended : ended.exposureIn settings.textCase instrument = 0 := by
      unfold BookedOrder.exposureIn BookedOrder.exposure
      rw [if_pos h.cancelled, h.unfilled, ite_self]
    have hplaced : placed.exposureIn settings.textCase instrument ≤
        original.exposureIn settings.textCase instrument := by
      unfold BookedOrder.exposureIn
      rw [h.instrument, h.target.instrument]
      split
      · have hworking : original.exposure = original.totalQuantity := if_neg h.worked
        rw [hworking]
        exact placed.exposure_le.trans h.within_original
      · exact le_refl _
    rw [Book.exposure_append]
    linarith

include hE in
/-- `submit_replacement` places at most the one order it is asked for. -/
theorem wp_submitReplacement (request : ReplacementRequest) {τ : List (Event sig)}
    {s : World Book} (h : start.Becomes s.outside) :
    E.system.wp (Ibkr.submitReplacement settings request) (fun _ _ s' => start.MayAdd
      (fun _ placed => placed.IsOf (Ibkr.limitOrder settings request.ticker request.side
        |request.quantity| request.newLimitPrice request.orderRef)) s'.outside) τ s := by
  have hconnected : (Ibkr.assertConnected settings).Uses (S := sig) Op.PlacesNothing :=
    meets_assertConnected turnMeets_places
  unfold Ibkr.submitReplacement
  apply wp_withSession hE (lasting_isOf _) h
  intro τ₀ s₀ h₀
  apply E.system.wp_seq (wp_becomes hE hconnected h₀)
  · intro _ τ₁ s₁ h₁
    apply E.system.wp_seq (wp_refreshedOpenTrades hE h₁)
    · rintro trades τ₂ s₂ ⟨h₂, _⟩
      dsimp only
      split
      · exact Or.inl h₂
      · exact wp_placeLimitOrder hE (lasting_isOf _) h₂ fun _ _ _ hplaced => hplaced
    · exact fun _ _ _ hq => Or.inl hq.1
    · exact fun _ _ hq => Or.inl hq.1
  · exact fun _ _ _ h₁ => Or.inl h₁
  · exact fun _ _ h₁ => Or.inl h₁

/-- The shares of an instrument that a trade is for. -/
def ProposedTrade.sharesIn (textCase : TextCase) (instrument : String × String)
    (trade : ProposedTrade) : ℚ :=
  if (textCase.upper trade.ticker, trade.side.value) = instrument then |trade.quantity| else 0

theorem ProposedTrade.sharesIn_nonneg (trade : ProposedTrade) :
    0 ≤ trade.sharesIn settings.textCase instrument := by
  unfold ProposedTrade.sharesIn
  split
  · exact abs_nonneg _
  · exact le_refl _

theorem sharesIn_buildOrder {trade : ProposedTrade} {order : IbOrder}
    (h : Ibkr.buildOrder settings trade = .ok order) :
    order.sharesIn settings.textCase instrument = trade.sharesIn settings.textCase instrument := by
  unfold Ibkr.buildOrder at h
  dsimp only at h
  split at h
  · obtain rfl := Except.ok.inj h
    unfold IbOrder.sharesIn ProposedTrade.sharesIn
    rw [max_eq_left (abs_nonneg _)]
  · obtain rfl := Except.ok.inj h
    unfold IbOrder.sharesIn ProposedTrade.sharesIn
    rw [max_eq_left (abs_nonneg _)]
  · cases h

/-- The orders of a submission are no more than its trades. -/
theorem placed_le_trades {orders : List IbOrder} {trades : List ProposedTrade}
    (h : PlacedInTurn settings orders trades) :
    (orders.map (·.sharesIn settings.textCase instrument)).sum ≤
      (trades.map (·.sharesIn settings.textCase instrument)).sum := by
  induction h with
  | nil =>
    rw [List.map_nil, List.sum_nil]
    apply List.sum_nonneg
    intro shares hshares
    obtain ⟨trade, _, rfl⟩ := List.mem_map.mp hshares
    exact trade.sharesIn_nonneg
  | cons hfirst _ ih =>
    simp only [List.map_cons, List.sum_cons]
    exact add_le_add (sharesIn_buildOrder hfirst).le ih
  | cons_right _ ih =>
    simp only [List.map_cons, List.sum_cons]
    exact ih.trans (le_add_of_nonneg_left (ProposedTrade.sharesIn_nonneg _))

end Bounds

/-- A use of the broker by one of the processes. -/
inductive AdapterCall where
  | submitTrades (trades : List ProposedTrade) (reported : Bool)
  | fetchOpenOrderSnapshots
  | fetchCompletedOrderSnapshots (wanted : List String) (unresolved : List OrderLedgerEntry)
  | cancelOrder (orderId : Int)
  | replaceOrder (request : ReplaceRequest)
  | submitReplacement (request : ReplacementRequest)

namespace AdapterCall

variable (settings : Settings)

/-- The program of a call, for what it does. -/
def program : AdapterCall → M Unit
  | .submitTrades trades reported =>
    (Ibkr.submitTrades settings trades (callbackOf reported)).bind fun _ => .ret ()
  | .fetchOpenOrderSnapshots => (Ibkr.fetchOpenOrderSnapshots settings).bind fun _ => .ret ()
  | .fetchCompletedOrderSnapshots wanted unresolved =>
    (Ibkr.fetchCompletedOrderSnapshots settings wanted unresolved).bind fun _ => .ret ()
  | .cancelOrder orderId => (Ibkr.cancelOrder settings orderId).bind fun _ => .ret ()
  | .replaceOrder request => (Ibkr.replaceOrder settings request).bind fun _ => .ret ()
  | .submitReplacement request => (Ibkr.submitReplacement settings request).bind fun _ => .ret ()

/-- The shares of an instrument that a call is asked to add. -/
def adds (instrument : String × String) : AdapterCall → ℚ
  | .submitTrades trades _ => (trades.map (·.sharesIn settings.textCase instrument)).sum
  | .submitReplacement request =>
    if (settings.textCase.upper request.ticker, request.side.value) = instrument
    then |request.quantity| else 0
  | _ => 0

end AdapterCall

/-- The book after some calls, with what the exchange decided at the requests of each: a call whose
decisions run out is one whose process was killed. -/
def Book.afterCalls (E : Environment Book) (settings : Settings) (book : Book) :
    List (AdapterCall × List E.Choice) → Book
  | [] => book
  | (call, choices) :: calls =>
    Book.afterCalls E settings
      (E.system.run (call.program settings) choices ⟨.empty, book⟩).state.outside calls

section Calls

variable {settings : Settings} {start : Book} {instrument : String × String}
  {E : Environment Book} (hE : E.IsExchange)

theorem cancelOrder_placesNothing (orderId : Int) :
    (Ibkr.cancelOrder settings orderId).Uses (S := sig) Op.PlacesNothing := by
  have hask : ∀ call : IbCall, (∀ order, call ≠ .placeOrder order) →
      (askIb call).Uses (S := sig) Op.PlacesNothing := fun _ h => askIb_placesNothing h
  unfold Ibkr.cancelOrder Ibkr.withSession
  apply Prog.uses_bind (meets_connect turnMeets_places)
  intro _
  apply Prog.uses_ensuring _ (hask .disconnect (by simp))
  apply Prog.uses_bind (meets_assertConnected turnMeets_places)
  intro _
  apply Prog.uses_bind
  · unfold Ibkr.findOpenPomaTrade Ibkr.refreshedOpenTrades
    apply Prog.uses_bind
    · exact Prog.uses_bind (hask .reqAllOpenOrders (by simp)) fun _ =>
        Prog.uses_bind (hask (.sleep 1) (by simp)) fun _ => hask .openTrades (by simp)
    · exact fun _ => trivial
  · rintro (_ | target)
    · trivial
    · exact Prog.uses_bind (hask (.cancelOrder target) (by simp)) fun _ =>
        Prog.uses_bind (hask (.sleep 1) (by simp)) fun _ => trivial

theorem fetchCompleted_placesNothing (wanted : List String) (unresolved : List OrderLedgerEntry) :
    (Ibkr.fetchCompletedOrderSnapshots settings wanted unresolved).Uses (S := sig)
      Op.PlacesNothing := by
  have hask : ∀ call : IbCall, (∀ order, call ≠ .placeOrder order) →
      (askIb call).Uses (S := sig) Op.PlacesNothing := fun _ h => askIb_placesNothing h
  unfold Ibkr.fetchCompletedOrderSnapshots
  apply Prog.uses_bind (hask .connect (by simp))
  intro _
  apply Prog.uses_ensuring _ (hask .disconnect (by simp))
  unfold Ibkr.completedOrders
  apply Prog.uses_bind (Prog.uses_attempt (hask .reqCompletedOrders (by simp)))
  intro completed
  apply Prog.uses_bind (Prog.uses_attempt (hask .reqExecutions (by simp)))
  intro executions
  split
  · trivial
  · exact Prog.uses_bind (hask .trades (by simp)) fun _ => trivial

theorem fetchOpen_placesNothing :
    (Ibkr.fetchOpenOrderSnapshots settings).Uses (S := sig) Op.PlacesNothing := by
  apply (fetchOpenOrderSnapshots_uses settings).mono
  rintro o ⟨-, hplaces⟩
  rcases o.places_or with ho | ⟨order, rfl⟩
  · exact ho
  · exact absurd trivial hplaces

include hE

/-- A call adds no more to the exposure than it is asked to. -/
theorem AdapterCall.exposure_le (call : AdapterCall) (choices : List E.Choice) :
    (E.system.run (call.program settings) choices ⟨.empty, start⟩).state.outside.exposure
      settings.textCase instrument ≤
        start.exposure settings.textCase instrument + call.adds settings instrument := by
  have hquiet : ∀ {α : Type} {p : M α}, p.Uses (S := sig) Op.PlacesNothing →
      (E.system.run (p.bind fun _ => .ret ()) choices ⟨.empty, start⟩).state.outside.exposure
        settings.textCase instrument ≤ start.exposure settings.textCase instrument + 0 := by
    intro α p hp
    have hnothing : (p.bind fun _ => .ret ()).Uses (S := sig) Op.PlacesNothing :=
      Prog.uses_bind hp fun _ => trivial
    have hwp : E.system.wp (p.bind fun _ => .ret ())
        (fun _ _ s' => start.Becomes s'.outside) [] ⟨.empty, start⟩ :=
      wp_becomes hE hnothing start.becomes_refl
    have hbook := E.system.wp_run hwp choices
    have hquieter := Book.Becomes.exposure_le settings.textCase instrument hbook
    exact hquieter.trans (le_add_of_nonneg_right (le_refl 0))
  have hadding : ∀ {α : Type} {p : M α} {P : Book → BookedOrder → Prop},
      E.system.wp p (fun _ _ s' => start.MayAdd P s'.outside) [] ⟨.empty, start⟩ →
      start.MayAdd P
        (E.system.run (p.bind fun _ => .ret ()) choices ⟨.empty, start⟩).state.outside := by
    intro α p P hp
    have hbind : E.system.wp (p.bind fun _ => .ret ())
        (fun _ _ s' => start.MayAdd P s'.outside) [] ⟨.empty, start⟩ :=
      E.system.wp_seq hp (fun _ _ _ h => h) (fun _ _ _ h => h) fun _ _ h => h
    exact E.system.wp_run hbind choices
  cases call with
  | fetchOpenOrderSnapshots => exact hquiet fetchOpen_placesNothing
  | fetchCompletedOrderSnapshots wanted unresolved =>
    exact hquiet (fetchCompleted_placesNothing wanted unresolved)
  | cancelOrder orderId => exact hquiet (cancelOrder_placesNothing orderId)
  | replaceOrder request =>
    have hwp : E.system.wp (Ibkr.replaceOrder settings request) (fun _ _ s' =>
        start.MayAdd (Replaces settings.textCase request start) s'.outside) [] ⟨.empty, start⟩ :=
      wp_replaceOrder hE request start.becomes_refl
    have hbook := hadding hwp
    exact hbook.exposure_le.trans (le_add_of_nonneg_right (le_refl 0))
  | submitReplacement request =>
    have hwp : E.system.wp (Ibkr.submitReplacement settings request) (fun _ _ s' =>
        start.MayAdd (fun _ placed => placed.IsOf (Ibkr.limitOrder settings request.ticker
          request.side |request.quantity| request.newLimitPrice request.orderRef)) s'.outside)
        [] ⟨.empty, start⟩ := wp_submitReplacement hE request start.becomes_refl
    have hbook := hadding hwp
    refine hbook.exposure_le_add.trans (add_le_add_right ?_ _)
    unfold IbOrder.sharesIn AdapterCall.adds
    exact le_of_eq (by simp [Ibkr.limitOrder])
  | submitTrades trades reported =>
    refine (run_exposure hE _ choices _).trans (add_le_add_right ?_ _)
    have hplaced : E.system.Emits (AdapterCall.program settings (.submitTrades trades reported))
        fun _ τ => PlacedInTurn settings (placedOrders τ) trades := by
      apply System.emits_bind (emits_submitTrades trades)
      · intro _ τ h
        apply System.emits_ret
        rw [List.append_nil]
        exact h.placed
      · exact fun _ _ h => h.placed
      · exact fun _ h => h.placed
    exact placed_le_trades (hplaced.runs choices _)

end Calls

/-- Over every sequence of calls, from any book, whatever the exchange does between the requests,
whatever requests fail and wherever processes are killed, the exposure of an instrument grows by
no more than the submitted shares: cancels and replacements of working orders add nothing. -/
theorem exposure_within_submissions {E : Environment Book} (hE : E.IsExchange)
    (settings : Settings) (calls : List (AdapterCall × List E.Choice)) (book : Book)
    (instrument : String × String) :
    (book.afterCalls E settings calls).exposure settings.textCase instrument ≤
      book.exposure settings.textCase instrument +
        (calls.map fun call => call.1.adds settings instrument).sum := by
  induction calls generalizing book with
  | nil => exact le_add_of_nonneg_right (le_refl 0)
  | cons call calls ih =>
    rw [List.map_cons, List.sum_cons]
    have hfirst : (E.system.run (call.1.program settings) call.2
        ⟨.empty, book⟩).state.outside.exposure settings.textCase instrument ≤
        book.exposure settings.textCase instrument + call.1.adds settings instrument :=
      call.1.exposure_le hE call.2
    exact (ih _).trans (by rw [← add_assoc]; exact add_le_add_left hfirst _)

/-- A session in which whatever is asked of it is answered. -/
def answersAll : Oracle where
  clock := 0
  answer
    | .ib .connect => .ok ()
    | .ib .disconnect => .ok ()
    | .ib .isConnected => .ok true
    | .ib .reqAllOpenOrders => .ok ()
    | .ib (.sleep _) => .ok ()
    | .ib (.cancelOrder _) => .ok ()
    | .ib (.executionOrderContract _) => .ok ()
    | _ => .error (.connection "not connected")

/-- An exchange that books what is placed and fails no request. -/
def bookingAfter (moves : List Move) : ExchangeChoice where
  moves := moves
  known _ := true
  details := ⟨"", "", none, none, "", "", 0, "", 0, 0, none, 0, none, none⟩
  books := true
  orderId := some 8
  status := "Submitted"
  failure := none
  oracle := answersAll

/-- An order to buy five shares. -/
def buyFive : IbOrder where
  symbol := "AAPL"
  action := "BUY"
  totalQuantity := 5
  limitPrice := some 100
  tif := "DAY"
  orderRef := "poma:run:0:AAPL:BUY"
  account := ""

theorem buyFive_nonneg : 0 ≤ buyFive.totalQuantity := by decide +kernel

/-- The order at work. -/
def workingBuy : BookedOrder := buyFive.booked (some 7) "Submitted" buyFive_nonneg

/-- A request to buy them at a higher limit. -/
def higherLimit : ReplaceRequest := ⟨7, "AAPL", .buy, 5, 101, "poma:run:0:AAPL:BUY:r1"⟩

/-- The order is cancelled while its cancel is waited for. -/
def cancelsInTime : List ExchangeChoice :=
  List.replicate 7 (bookingAfter []) ++ bookingAfter [.report 0 "Cancelled"] ::
    List.replicate 6 (bookingAfter [])

theorem exposure_within_submissions_replaced :
    (Book.afterCalls exchange .unset [workingBuy]
      [(.replaceOrder higherLimit, cancelsInTime)]).exposure Settings.unset.textCase
        ("AAPL", "BUY") = 5 ∧
    (Book.afterCalls exchange .unset [workingBuy]
      [(.replaceOrder higherLimit, cancelsInTime)]).exposure Settings.unset.textCase
        ("AAPL", "BUY") ≤
      Book.exposure [workingBuy] Settings.unset.textCase ("AAPL", "BUY") +
        ([(AdapterCall.replaceOrder higherLimit, cancelsInTime)].map fun call =>
          call.1.adds .unset ("AAPL", "BUY")).sum :=
  ⟨by decide +kernel, exposure_within_submissions exchange_isExchange .unset
    [(.replaceOrder higherLimit, cancelsInTime)] [workingBuy] ("AAPL", "BUY")⟩

/-- At every moment of a `replace_order`, whatever the exchange does between the requests, the book
holds at most one new order, and then the order it replaces, found working and unfilled under its
id, is cancelled without a fill: the two are never both working, and the new one is for no more
shares than the old one. -/
theorem replacement_follows_cancel {E : Environment Book} (hE : E.IsExchange) (settings : Settings)
    (request : ReplaceRequest) (choices : List E.Choice) (book : Book) :
    book.MayAdd (Replaces settings.textCase request book)
      (E.system.run (Ibkr.replaceOrder settings request) choices
        ⟨.empty, book⟩).state.outside := by
  have hwp : E.system.wp (Ibkr.replaceOrder settings request) (fun _ _ s' =>
      book.MayAdd (Replaces settings.textCase request book) s'.outside) [] ⟨.empty, book⟩ :=
    wp_replaceOrder hE request book.becomes_refl
  exact E.system.wp_run hwp choices

theorem replacement_follows_cancel_working :
    ((exchange.system.run (Ibkr.replaceOrder .unset higherLimit) cancelsInTime
      ⟨.empty, [workingBuy]⟩).state.outside.map fun order => (order.orderRef, order.status)) =
        [("poma:run:0:AAPL:BUY", "Cancelled"), ("poma:run:0:AAPL:BUY:r1", "Submitted")] ∧
    Book.MayAdd [workingBuy] (Replaces Settings.unset.textCase higherLimit [workingBuy])
      (exchange.system.run (Ibkr.replaceOrder .unset higherLimit) cancelsInTime
        ⟨.empty, [workingBuy]⟩).state.outside :=
  ⟨by decide +kernel, replacement_follows_cancel exchange_isExchange .unset higherLimit
    cancelsInTime [workingBuy]⟩

end Poma
