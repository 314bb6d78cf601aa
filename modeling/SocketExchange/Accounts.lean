/-
# A trader's account

A trader is told that its orders were accepted and cancelled, and what was bought and sold for
it; a `BOUGHT` or a `SOLD` does not say on which of its orders.  With the market behind the
book (`server_is_market`) and the tape behind the messages (`trader_tape`) it can tell all the
same: the notices it was handed, each taken off its oldest order at that price, leave exactly
the orders it has in the book (`trader_account`).
-/
import SocketExchange.Lib.Account
import SocketExchange.IdealMarket
import SocketExchange.Tape

namespace SocketExchange

open CText Market

/-- How a notice is put. -/
def noticeText : Notice PriceLevel Nat → Bytes
  | .accepted o => acceptedText o.id
  | .filled level .bid n => fillLine (lit "BOUGHT") level.1 n level.2
  | .filled level .ask n => fillLine (lit "SOLD") level.1 n level.2
  | .withdrawn id => cancelledText id

/-- The lines about an entry are the notices of its event. -/
theorem ownNotices_eq (k : Nat) (x : Entry) :
    x.ownNotices k = (x.event.notices k).map noticeText := by
  cases x with
  | accepted ord =>
    rw [Entry.event, Event.notices, Entry.ownNotices]
    by_cases hk : ord.submitter = k
    · rw [if_pos hk, if_pos (show ord.offer.owner = k from hk)]
      rfl
    · rw [if_neg hk, if_neg (show ¬ ord.offer.owner = k from hk)]
      rfl
  | cancelled ord =>
    rw [Entry.event, Event.notices, Entry.ownNotices]
    by_cases hk : ord.submitter = k
    · rw [if_pos hk, if_pos (show ord.offer.owner = k from hk)]
      rfl
    · rw [if_neg hk, if_neg (show ¬ ord.offer.owner = k from hk)]
      rfl
  | executed inc e =>
    have hside : inc.offer.side = .bid ↔ inc.type = .buy := asOffered_inj (b := .buy)
    rw [Entry.event, Event.notices, Entry.ownNotices]
    simp only [hside, List.map_append]
    refine congrArg₂ _ ?_ ?_ <;>
    · rw [apply_ite (List.map noticeText)]
      rfl

/-- The orders of a connection in one list of the book, as offers. -/
def LimitOrderBook.ordersOf (book : LimitOrderBook) (k : Nat) (head : ListHead) :
    List (Offer PriceLevel Nat) :=
  ((book.get head).filter fun o => decide (o.submitter = k)).map Order.offer

/-- **What a trader was told is what it has in the book.**  In every run that accepts fewer than
`2 ^ 31` orders and whose allocations succeed, the notices a connection that is still there was
handed are those of its account with the market, and what the account comes to are its orders
in each of the four lists, with their ids, prices and quantities and in their order. -/
theorem trader_account (serverFd : Nat) (others : List Nat) (as : List Act)
    (hcount : (acceptedIds (Run.run act (.init serverFd others) as).exchange.log).length < 2 ^ 31)
    (hroom : Run.Meets act (fun w _ => ∀ ok ∈ w.heap, ok = true) (.init serverFd others) as)
    {k : Nat} (hk : k ∈ (Run.run act (.init serverFd others) as).connected) :
    let w := Run.run act (.init serverFd others) as
    let told := w.exchange.tape.flatMap (Event.notices k)
    ownNoticesTo k w.trace = told.map noticeText ∧
      ∀ head, w.exchange.orderbook.ordersOf k head = (account told).filter (listed head) := by
  intro w told
  have hsim : Simulates w.exchange _ :=
    simulates_run (simulates_init serverFd others) ⟨serverFd, others, [], rfl⟩ as hcount
  constructor
  · rw [told_of_run serverFd others as hroom (.inl hk), List.map_flatMap, Exchange.tape,
      List.flatMap_map]
    exact List.flatMap_congr fun x _ => ownNotices_eq k x
  · intro head
    have hacc := account_of_run k (asked_positive as (.init serverFd others))
    rw [hsim.tape] at hacc
    rw [show account told = _ from hacc, own, List.filter_comm, ← hsim.lists, List.filter_map]
    rfl

theorem trader_account_boughtTwice :
    let w := Run.run act (.init 3 []) boughtTwice
    let told := w.exchange.tape.flatMap (Event.notices 0)
    told.map noticeText
        = [lit "ORDER_ACCEPTED 0\n", lit "SOLD JNST 4 5\n", lit "SOLD JNST 3 5\n"] ∧
      (account told).map (fun o => (o.id, o.quantity)) = [(0, 3)] ∧
      ownNoticesTo 0 w.trace = told.map noticeText ∧
      ∀ head, w.exchange.orderbook.ordersOf 0 head = (account told).filter (listed head) :=
  ⟨by decide +kernel, by decide +kernel,
    trader_account 3 [] boughtTwice (by decide +kernel) (by decide +kernel) (by decide +kernel)⟩

end SocketExchange
