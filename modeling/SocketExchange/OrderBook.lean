/-
# The order book: `orderbook.h`, `orderbook.c`

Four linked lists, one for each instrument and side, each kept in arrival order, and the
three operations on them.  A list of nodes is a Lean list from the head on, so `append`
puts an order at the end and `removeNode` takes one out of the middle; `next` and `prev`
are the neighbours in it.

`addOrder` follows the source's loop: `walk` stands on `cur`, changes its quantity and the
incoming order's, records the execution in the growing `fills` array and unlinks `cur` when
nothing is left of it.  The results of the `realloc` calls come from the caller as a list,
so that every pattern of success and failure is an input.

Two things are here that no code reads.  `Order.submitter` and `Fill.buyer`, `Fill.seller`
name the connection an order came from (descriptors are reused, connections are not), and
`Walk.executed` lists the executions as they happen, recorded or not.  The theorems about
ownership and about quantities over a whole run are stated with them.
-/
import Mathlib.Data.List.Basic

namespace SocketExchange

/-! ## 1. Data -/

/-- `enum OrderSide` -/
inductive OrderSide
  | buy
  | sell
  deriving DecidableEq, Repr

/-- `enum Instrument` -/
inductive Instrument
  | jnst
  | imct
  deriving DecidableEq, Repr

/-- `struct Order`, less the links, which the list is. -/
structure Order where
  id : Int
  quantity : Int
  price : Int
  clientFd : Int
  type : OrderSide
  instrument : Instrument
  /-- The connection that submitted the order; no code reads it. -/
  submitter : Nat
  deriving DecidableEq, Repr

/-- `struct Fill` -/
structure Fill where
  price : Int
  quantity : Int
  buyClientFd : Int
  sellClientFd : Int
  instrument : Instrument
  /-- The connections the two orders came from; no code reads them. -/
  buyer : Nat
  seller : Nat
  deriving DecidableEq, Repr

/-- `struct LimitOrderBook` -/
structure LimitOrderBook where
  jnstBuyOrders : List Order
  jnstSellOrders : List Order
  imctBuyOrders : List Order
  imctSellOrders : List Order
  deriving DecidableEq, Repr

/-- The address of one of the four list heads, as `ownList` and `oppList` return it. -/
inductive ListHead
  | jnstBuyOrders
  | jnstSellOrders
  | imctBuyOrders
  | imctSellOrders
  deriving DecidableEq, Repr

/-- One execution: the resting order as the incoming one met it, and what was traded. -/
structure Execution where
  resting : Order
  quantity : Int
  deriving DecidableEq, Repr

namespace LimitOrderBook

/-- `*head` -/
def get (book : LimitOrderBook) : ListHead → List Order
  | .jnstBuyOrders => book.jnstBuyOrders
  | .jnstSellOrders => book.jnstSellOrders
  | .imctBuyOrders => book.imctBuyOrders
  | .imctSellOrders => book.imctSellOrders

/-- `*head = l` -/
def set (book : LimitOrderBook) (head : ListHead) (l : List Order) : LimitOrderBook :=
  match head with
  | .jnstBuyOrders => { book with jnstBuyOrders := l }
  | .jnstSellOrders => { book with jnstSellOrders := l }
  | .imctBuyOrders => { book with imctBuyOrders := l }
  | .imctSellOrders => { book with imctSellOrders := l }

/-- Every resting order, list by list. -/
def orders (book : LimitOrderBook) : List Order :=
  book.jnstBuyOrders ++ book.jnstSellOrders ++ book.imctBuyOrders ++ book.imctSellOrders

@[simp] theorem get_set_self (book : LimitOrderBook) (head : ListHead) (l : List Order) :
    (book.set head l).get head = l := by cases head <;> rfl

theorem get_set_ne {book : LimitOrderBook} {head head' : ListHead} (h : head' ≠ head)
    (l : List Order) : (book.set head l).get head' = book.get head' := by
  cases head <;> cases head' <;> first | rfl | exact absurd rfl h

/-- Two books with the same four lists are the same. -/
theorem ext_get {b c : LimitOrderBook} (h : ∀ head, b.get head = c.get head) : b = c := by
  cases b
  cases c
  have h1 := h .jnstBuyOrders
  have h2 := h .jnstSellOrders
  have h3 := h .imctBuyOrders
  have h4 := h .imctSellOrders
  simp only [get] at h1 h2 h3 h4
  rw [h1, h2, h3, h4]

theorem mem_orders {book : LimitOrderBook} {o : Order} :
    o ∈ book.orders ↔ ∃ head, o ∈ book.get head := by
  simp only [orders, List.mem_append]
  constructor
  · rintro (((h | h) | h) | h)
    · exact ⟨.jnstBuyOrders, h⟩
    · exact ⟨.jnstSellOrders, h⟩
    · exact ⟨.imctBuyOrders, h⟩
    · exact ⟨.imctSellOrders, h⟩
  · rintro ⟨head, h⟩
    cases head <;> simp only [get] at h <;> simp [h]

end LimitOrderBook

/-! ## 2. Lists and heads -/

def initOrderbook : LimitOrderBook :=
  { jnstBuyOrders := [], jnstSellOrders := [], imctBuyOrders := [], imctSellOrders := [] }

/-- The walk to the last node and the link behind it. -/
def append (l : List Order) (ord : Order) : List Order := l ++ [ord]

/-- The list of `ord`'s own instrument and side. -/
def ownList (ord : Order) : ListHead :=
  if ord.instrument = .jnst then
    if ord.type = .buy then .jnstBuyOrders else .jnstSellOrders
  else
    if ord.type = .buy then .imctBuyOrders else .imctSellOrders

/-- The list of the orders `ord` can trade with. -/
def oppList (ord : Order) : ListHead :=
  if ord.instrument = .jnst then
    if ord.type = .buy then .jnstSellOrders else .jnstBuyOrders
  else
    if ord.type = .buy then .imctSellOrders else .imctBuyOrders

theorem oppList_ne_ownList (ord : Order) : oppList ord ≠ ownList ord := by
  unfold oppList ownList
  split <;> split <;> decide

/-! ## 3. `addOrder` -/

/-- The outcome of one allocation and what is left of the outcomes to come.  A list that has
run out stands for allocations that succeed. -/
def alloc : List Bool → Bool × List Bool
  | [] => (true, [])
  | ok :: heap => (ok, heap)

theorem alloc_succeeds {heap : List Bool} (h : ∀ ok ∈ heap, ok = true) :
    (alloc heap).1 = true ∧ ∀ ok ∈ (alloc heap).2, ok = true := by
  cases heap with
  | nil => exact ⟨rfl, by simp [alloc]⟩
  | cons ok heap =>
    exact ⟨h ok List.mem_cons_self, fun b hb => h b (List.mem_cons_of_mem _ hb)⟩

/-- `FILLS_INITIAL_CAPACITY` -/
def fillsInitialCapacity : Nat := 16

/-- The variables of `addOrder` its loop changes: the incoming order, the array `*fills` with
`count` entries (its length) out of `cap`, and the allocations still to come. -/
structure Walk where
  ord : Order
  fills : List Fill
  cap : Nat
  heap : List Bool
  /-- The executions so far, whether or not `fills` had room for them; no code reads it. -/
  executed : List Execution

/-- `if (count == cap) …`: the array is grown, or stays as it is when `realloc` fails. -/
def growFills (w : Walk) : Walk :=
  if w.fills.length = w.cap then
    let newCap := if w.cap = 0 then fillsInitialCapacity else w.cap * 2
    if (alloc w.heap).1 then { w with cap := newCap, heap := (alloc w.heap).2 }
    else { w with heap := (alloc w.heap).2 }
  else w

/-- The entry for `qty` traded between the incoming order and `cur`. -/
def fillOf (ord cur : Order) (qty : Int) : Fill :=
  if ord.type = .buy then
    { price := cur.price, quantity := qty, instrument := ord.instrument
      buyClientFd := ord.clientFd, sellClientFd := cur.clientFd
      buyer := ord.submitter, seller := cur.submitter }
  else
    { price := cur.price, quantity := qty, instrument := ord.instrument
      buyClientFd := cur.clientFd, sellClientFd := ord.clientFd
      buyer := cur.submitter, seller := ord.submitter }

/-- `if (count < cap) …` -/
def recordFill (cur : Order) (qty : Int) (w : Walk) : Walk :=
  if w.fills.length < w.cap then { w with fills := w.fills ++ [fillOf w.ord cur qty] } else w

/-- The smaller of the two remaining quantities. -/
def tradeQuantity (ord cur : Order) : Int :=
  if ord.quantity < cur.quantity then ord.quantity else cur.quantity

/-- The body of the loop when the prices agree, up to the removal of `cur`. -/
def execute (cur : Order) (w : Walk) : Walk :=
  let qty := tradeQuantity w.ord cur
  recordFill cur qty (growFills
    { w with ord := { w.ord with quantity := w.ord.quantity - qty }
             executed := w.executed ++ [{ resting := cur, quantity := qty }] })

/-- The loop: what is left of the list from `cur` on, and the variables at the end. -/
def walk : List Order → Walk → List Order × Walk
  | [], w => ([], w)
  | cur :: nxt, w =>
    if 0 < w.ord.quantity then
      if cur.price = w.ord.price then
        let cur' := { cur with quantity := cur.quantity - tradeQuantity w.ord cur }
        let r := walk nxt (execute cur w)
        if cur'.quantity = 0 then r else (cur' :: r.1, r.2)
      else
        let r := walk nxt w
        (cur :: r.1, r.2)
    else (cur :: nxt, w)

/-- What `addOrder` leaves behind: the book, the array `*fills` (its length is the returned
count), the allocations still to come, and the executions. -/
structure Added where
  book : LimitOrderBook
  fills : List Fill
  heap : List Bool
  executed : List Execution

/-- The variables before the loop. -/
def Walk.start (ord : Order) (heap : List Bool) : Walk :=
  { ord := ord, fills := [], cap := 0, heap := heap, executed := [] }

def addOrder (book : LimitOrderBook) (ord : Order) (heap : List Bool) : Added :=
  let r := walk (book.get (oppList ord)) (.start ord heap)
  let book' := book.set (oppList ord) r.1
  { book :=
      if 0 < r.2.ord.quantity then
        book'.set (ownList ord) (append (book'.get (ownList ord)) r.2.ord)
      else book'
    fills := r.2.fills
    heap := r.2.heap
    executed := r.2.executed }

/-! ## 4. Departures and cancellations -/

/-- One order of `detachIn`'s walk. -/
def detach (clientFd : Int) (cur : Order) : Order :=
  if cur.clientFd = clientFd then { cur with clientFd := -1 } else cur

def detachIn (l : List Order) (clientFd : Int) : List Order := l.map (detach clientFd)

def detachClientOrders (book : LimitOrderBook) (clientFd : Int) : LimitOrderBook :=
  { jnstBuyOrders := detachIn book.jnstBuyOrders clientFd
    jnstSellOrders := detachIn book.jnstSellOrders clientFd
    imctBuyOrders := detachIn book.imctBuyOrders clientFd
    imctSellOrders := detachIn book.imctSellOrders clientFd }

/-- `none` is the result 0; on success, the node unlinked and the list without it. -/
def cancelIn : List Order → Int → Int → Option (Order × List Order)
  | [], _, _ => none
  | cur :: nxt, id, clientFd =>
    if cur.id = id ∧ cur.clientFd = clientFd then some (cur, nxt)
    else (cancelIn nxt id clientFd).map fun r => (r.1, cur :: r.2)

/-- The four searches in turn; `none` is the result 0. -/
def cancelOrder (book : LimitOrderBook) (id clientFd : Int) : Option (Order × LimitOrderBook) :=
  match cancelIn book.jnstBuyOrders id clientFd with
  | some r => some (r.1, { book with jnstBuyOrders := r.2 })
  | none =>
  match cancelIn book.jnstSellOrders id clientFd with
  | some r => some (r.1, { book with jnstSellOrders := r.2 })
  | none =>
  match cancelIn book.imctBuyOrders id clientFd with
  | some r => some (r.1, { book with imctBuyOrders := r.2 })
  | none =>
  match cancelIn book.imctSellOrders id clientFd with
  | some r => some (r.1, { book with imctSellOrders := r.2 })
  | none => none

/-! ## 5. What the operations touch -/

@[simp] theorem get_detachClientOrders (book : LimitOrderBook) (fd : Int) (head : ListHead) :
    (detachClientOrders book fd).get head = detachIn (book.get head) fd := by
  cases head <;> rfl

@[simp] theorem detach_id (fd : Int) (o : Order) : (detach fd o).id = o.id := by
  unfold detach; split <;> rfl

@[simp] theorem detach_quantity (fd : Int) (o : Order) :
    (detach fd o).quantity = o.quantity := by
  unfold detach; split <;> rfl

@[simp] theorem detach_price (fd : Int) (o : Order) : (detach fd o).price = o.price := by
  unfold detach; split <;> rfl

@[simp] theorem detach_type (fd : Int) (o : Order) : (detach fd o).type = o.type := by
  unfold detach; split <;> rfl

@[simp] theorem detach_instrument (fd : Int) (o : Order) :
    (detach fd o).instrument = o.instrument := by
  unfold detach; split <;> rfl

@[simp] theorem detach_submitter (fd : Int) (o : Order) :
    (detach fd o).submitter = o.submitter := by
  unfold detach; split <;> rfl

/-- A successful search takes out the first order with that id and descriptor. -/
theorem cancelIn_eq_some {l : List Order} {id fd : Int} {r : Order × List Order}
    (h : cancelIn l id fd = some r) :
    ∃ pre post, l = pre ++ r.1 :: post ∧ r.2 = pre ++ post ∧ r.1.id = id ∧ r.1.clientFd = fd := by
  induction l generalizing r with
  | nil => simp [cancelIn] at h
  | cons cur nxt ih =>
    rw [cancelIn] at h
    split at h
    · rename_i hc
      cases h
      exact ⟨[], nxt, rfl, rfl, hc⟩
    · obtain ⟨r', hr', rfl⟩ := Option.map_eq_some_iff.mp h
      obtain ⟨pre, post, hl, hr, hid, hfd⟩ := ih hr'
      exact ⟨cur :: pre, post, by simp [hl], by simp [hr], hid, hfd⟩

/-- A search fails exactly when no order has that id and descriptor. -/
theorem cancelIn_eq_none {l : List Order} {id fd : Int} :
    cancelIn l id fd = none ↔ ∀ o ∈ l, ¬ (o.id = id ∧ o.clientFd = fd) := by
  induction l with
  | nil => simp [cancelIn]
  | cons cur nxt ih =>
    rw [cancelIn]
    split
    · rename_i hc
      simp [hc]
    · rename_i hc
      simp only [Option.map_eq_none_iff, ih, List.mem_cons, forall_eq_or_imp]
      exact ⟨fun h => ⟨hc, h⟩, fun h => h.2⟩

/-- A cancellation takes one order with that id and descriptor out of one list and leaves the
other three lists alone. -/
theorem cancelOrder_eq_some {book : LimitOrderBook} {id fd : Int} {r : Order × LimitOrderBook}
    (h : cancelOrder book id fd = some r) :
    ∃ head pre post, book.get head = pre ++ r.1 :: post ∧ r.2 = book.set head (pre ++ post) ∧
      r.1.id = id ∧ r.1.clientFd = fd := by
  unfold cancelOrder at h
  split at h
  · rename_i r' hr
    cases h
    obtain ⟨pre, post, hl, hr2, hid, hfd⟩ := cancelIn_eq_some hr
    exact ⟨.jnstBuyOrders, pre, post, hl, by rw [← hr2]; rfl, hid, hfd⟩
  · split at h
    · rename_i r' hr
      cases h
      obtain ⟨pre, post, hl, hr2, hid, hfd⟩ := cancelIn_eq_some hr
      exact ⟨.jnstSellOrders, pre, post, hl, by rw [← hr2]; rfl, hid, hfd⟩
    · split at h
      · rename_i r' hr
        cases h
        obtain ⟨pre, post, hl, hr2, hid, hfd⟩ := cancelIn_eq_some hr
        exact ⟨.imctBuyOrders, pre, post, hl, by rw [← hr2]; rfl, hid, hfd⟩
      · split at h
        · rename_i r' hr
          cases h
          obtain ⟨pre, post, hl, hr2, hid, hfd⟩ := cancelIn_eq_some hr
          exact ⟨.imctSellOrders, pre, post, hl, by rw [← hr2]; rfl, hid, hfd⟩
        · cases h

theorem mem_get_of_cancel {book : LimitOrderBook} {id fd : Int} {r : Order × LimitOrderBook}
    (h : cancelOrder book id fd = some r) (head : ListHead) :
    ∀ o ∈ r.2.get head, o ∈ book.get head := by
  obtain ⟨k, pre, post, hget, hset, -, -⟩ := cancelOrder_eq_some h
  intro o ho
  rw [hset] at ho
  by_cases hk : head = k
  · subst hk
    rw [LimitOrderBook.get_set_self] at ho
    rw [hget]
    simp only [List.mem_append, List.mem_cons] at ho ⊢
    tauto
  · rw [LimitOrderBook.get_set_ne hk] at ho
    exact ho

/-- The search fails exactly when no resting order has that id and descriptor. -/
theorem cancelOrder_eq_none {book : LimitOrderBook} {id fd : Int} :
    cancelOrder book id fd = none ↔ ∀ o ∈ book.orders, ¬ (o.id = id ∧ o.clientFd = fd) := by
  have hall : (∀ o ∈ book.orders, ¬ (o.id = id ∧ o.clientFd = fd)) ↔
      ∀ head, cancelIn (book.get head) id fd = none := by
    simp only [cancelIn_eq_none, LimitOrderBook.mem_orders]
    exact ⟨fun h head o ho => h o ⟨head, ho⟩, fun h o ⟨head, ho⟩ => h head o ho⟩
  rw [hall]
  constructor
  · intro h
    unfold cancelOrder at h
    split at h
    · cases h
    split at h
    · cases h
    split at h
    · cases h
    split at h
    · cases h
    rename_i h1 _ h2 _ h3 _ h4
    intro head
    cases head <;> assumption
  · intro h
    have h1 := h .jnstBuyOrders
    have h2 := h .jnstSellOrders
    have h3 := h .imctBuyOrders
    have h4 := h .imctSellOrders
    simp only [LimitOrderBook.get] at h1 h2 h3 h4
    rw [cancelOrder, h1, h2, h3, h4]

end SocketExchange
