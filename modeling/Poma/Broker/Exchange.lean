import Mathlib.Algebra.Order.BigOperators.Group.List
import Mathlib.Tactic.Linarith
import Poma.Broker.IbkrQueries
import Poma.Broker.World

/-!
# An exchange behind the client library

What is relied on of an exchange and of the library in front of it: an order
keeps what it was placed as and fills no more than its quantity, a cancelled one
never changes again, only a placed order is added, and what the library shows of
an order is the order as it stands at that moment. One exchange that does so is
given: between any two requests its orders fill and change their status as they
like, and a request may fail before or after it took effect.
-/

namespace Poma

open Interaction

/-- An order in the book. -/
structure BookedOrder where
  orderRef : String
  account : String
  orderId : Option Int
  symbol : String
  action : String
  totalQuantity : ℚ
  filled : ℚ
  status : String
  filled_nonneg : 0 ≤ filled
  filled_le : filled ≤ totalQuantity
  deriving DecidableEq

namespace BookedOrder

variable (order : BookedOrder)

/-- The order can neither fill nor change any more. -/
abbrev Cancelled : Prop := order.status ∈ cancelledStatuses

/-- The shares that the order has traded or may still trade. -/
def exposure : ℚ := if order.Cancelled then order.filled else order.totalQuantity

/-- Some shares fill, if there are so many left. -/
def fill (shares : ℚ) : BookedOrder :=
  if h : ¬order.Cancelled ∧ 0 ≤ shares ∧ order.filled + shares ≤ order.totalQuantity then
    { order with
      filled := order.filled + shares
      filled_nonneg := add_nonneg order.filled_nonneg h.2.1
      filled_le := h.2.2 }
  else order

/-- The order is under another status from now on. -/
def report (status : String) : BookedOrder :=
  if order.Cancelled then order else { order with status := status }

/-- The order as the client library shows it, under the number it has in the book. -/
def view (number : Nat) (details : IbTrade) : IbTrade :=
  { details with
    orderRef := order.orderRef
    account := order.account
    orderId := order.orderId
    permId := some number
    symbol := order.symbol
    action := order.action
    totalQuantity := order.totalQuantity
    status := order.status
    filled := order.filled
    remaining := order.totalQuantity - order.filled }

end BookedOrder

/-- The orders of an exchange, each under the number of its place. -/
abbrev Book : Type := List BookedOrder

/-- What an order of the book can have become: cancelled orders stay as they are. -/
structure BookedOrder.Becomes (order later : BookedOrder) : Prop where
  orderRef : later.orderRef = order.orderRef
  account : later.account = order.account
  orderId : later.orderId = order.orderId
  symbol : later.symbol = order.symbol
  action : later.action = order.action
  total : later.totalQuantity = order.totalQuantity
  filled : order.filled ≤ later.filled
  final : order.Cancelled → later = order

/-- A book order for an order that was placed. -/
structure BookedOrder.IsOf (booked : BookedOrder) (order : IbOrder) : Prop where
  orderRef : booked.orderRef = order.orderRef
  symbol : booked.symbol = order.symbol
  action : booked.action = order.action
  total : booked.totalQuantity = order.totalQuantity

namespace Book

/-- What a book can have become without a new order. -/
abbrev Becomes : Book → Book → Prop := List.Forall₂ BookedOrder.Becomes

/-- What a book can have become with at most one new order, added to a book as it then was. -/
def MayAdd (start : Book) (P : Book → BookedOrder → Prop) (finish : Book) : Prop :=
  start.Becomes finish ∨
    ∃ kept placed, finish = kept ++ [placed] ∧ start.Becomes kept ∧ P kept placed

/-- A trade that shows an order of the book as it stands. -/
def Shows (book : Book) (number : Nat) (order : BookedOrder) (trade : IbTrade) : Prop :=
  book[number]? = some order ∧ ∃ details, trade = order.view number details

end Book

/-- What is relied on of an exchange and of the client library in front of it. -/
structure Environment.IsExchange (E : Environment Book) : Prop where
  /-- Whatever else is requested, an order fills and changes its status only, and not even that once
  it is cancelled. -/
  becomes : ∀ {o : Op}, (∀ order, o ≠ .ib (.placeOrder order)) →
    ∀ (c : E.Choice) (book : Book), book.Becomes (E.answer c book o).2
  /-- A placed order is booked once, as it was placed, or not at all. -/
  places : ∀ (order : IbOrder) (c : E.Choice) (book : Book),
    book.MayAdd (fun _ placed => placed.IsOf order) (E.answer c book (.ib (.placeOrder order))).2
  /-- The open trades are orders of the book as they stand, none of them cancelled. -/
  shows : ∀ (c : E.Choice) (book : Book) (trades : List IbTrade),
    (E.answer c book (.ib .openTrades)).1 = .ok trades → ∀ trade ∈ trades, ∃ number order,
      Book.Shows (E.answer c book (.ib .openTrades)).2 number order trade ∧ ¬order.Cancelled
  /-- A trade of the book, read again, is its order as it stands. -/
  reads : ∀ (c : E.Choice) (book : Book) (trade : IbTrade) (number : Nat) (order : BookedOrder),
    trade.permId = some (number : Int) → book[number]? = some order → ∃ later view,
      (E.answer c book (.ib (.readTrade trade))).1 = .ok view ∧
        Book.Shows (E.answer c book (.ib (.readTrade trade))).2 number later view

/-- What an exchange does on its own. -/
inductive Move where
  | fill (number : Nat) (shares : ℚ)
  | report (number : Nat) (status : String)

/-- The book after a move. -/
def Move.apply : Move → Book → Book
  | .fill number shares, book => book.modify number (·.fill shares)
  | .report number status, book => book.modify number (·.report status)

/-- The book after some moves. -/
def Book.after (book : Book) (moves : List Move) : Book :=
  moves.foldl (fun book move => move.apply book) book

/-- What is decided at one request: what the exchange did before it, and how it answers. -/
structure ExchangeChoice where
  moves : List Move
  /-- Which orders the client library knows. -/
  known : Nat → Bool
  /-- The parts of an order's view that are not about its identity, its status or its fills. -/
  details : IbTrade
  /-- Whether a new order is booked, and under which id and status. -/
  books : Bool
  orderId : Option Int
  status : String
  /-- The exception of a request that fails. -/
  failure : Option Exn
  /-- Everything else. -/
  oracle : Oracle

/-- What the client library shows of the orders that are not cancelled. -/
def Book.openTrades (book : Book) (known : Nat → Bool) (details : IbTrade) : List IbTrade :=
  book.zipIdx.filterMap fun (order, number) =>
    if known number ∧ ¬order.Cancelled then some (order.view number details) else none

/-- A trade of the client library, read again. -/
def Book.read (book : Book) (trade details : IbTrade) : IbTrade :=
  match trade.permId with
  | some (.ofNat number) => ((book[number]?).map (·.view number details)).getD trade
  | _ => trade

/-- A new order in the book. -/
def IbOrder.booked (order : IbOrder) (orderId : Option Int) (status : String)
    (h : 0 ≤ order.totalQuantity) : BookedOrder where
  orderRef := order.orderRef
  account := order.account
  orderId := orderId
  symbol := order.symbol
  action := order.action
  totalQuantity := order.totalQuantity
  filled := 0
  status := status
  filled_nonneg := le_refl 0
  filled_le := h

/-- The answers of the exchange, which books no order of less than no shares. -/
def exchange : Environment Book where
  Choice := ExchangeChoice
  clock c _ := c.oracle.clock
  answer c book o :=
    let book := book.after c.moves
    let answered {α : Type} (a : α) : Except Exn α := c.failure.elim (.ok a) .error
    match o with
    | .ib .openTrades => (answered (book.openTrades c.known c.details), book)
    | .ib (.readTrade trade) => (.ok (book.read trade c.details), book)
    | .ib (.placeOrder order) =>
      if h : 0 ≤ order.totalQuantity ∧ c.books then
        let booked := order.booked c.orderId c.status h.1
        (answered (booked.view book.length c.details), book ++ [booked])
      else (answered c.details, book)
    | o => (c.oracle.answer o, book)

end Poma
