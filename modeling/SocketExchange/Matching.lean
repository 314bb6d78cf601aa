/-
# What `addOrder` computes: the reference matcher

The reference says what matching is, without lists to walk and nodes to unlink.  The orders a
new order can trade with are those of the same instrument and the opposite side at exactly its
price; they are served from its quantity in arrival order (`Lib/Fifo.lean`); an order keeps
what it did not trade and leaves the book when that is nothing; and what is left of the new
order rests behind its own kind.

`walk_spec` is the loop invariant: the walk over a suffix of the opposite list does to it what
the reference does, whatever was executed before it came there.  `addOrder_matches` puts the
pieces together.
-/
import SocketExchange.OrderBook
import SocketExchange.Lib.Fifo
import Mathlib.Data.List.Nodup

namespace SocketExchange

/-! ## 1. Well-formed books -/

/-- The instrument a list is kept for. -/
def ListHead.instrument : ListHead → Instrument
  | .jnstBuyOrders | .jnstSellOrders => .jnst
  | .imctBuyOrders | .imctSellOrders => .imct

/-- The side a list is kept for. -/
def ListHead.side : ListHead → OrderSide
  | .jnstBuyOrders | .imctBuyOrders => .buy
  | .jnstSellOrders | .imctSellOrders => .sell

/-- Two orders match: same instrument, opposite sides, exactly the same price. -/
def Crosses (a b : Order) : Prop :=
  b.instrument = a.instrument ∧ b.type ≠ a.type ∧ b.price = a.price

instance (a b : Order) : Decidable (Crosses a b) := by
  unfold Crosses; infer_instance

/-- Every order rests in the list of its own instrument and side. -/
def Placed (book : LimitOrderBook) : Prop :=
  ∀ head, ∀ o ∈ book.get head, o.instrument = head.instrument ∧ o.type = head.side

/-- **The order-book invariant.** -/
structure WellFormed (book : LimitOrderBook) : Prop where
  placed : Placed book
  positive : ∀ o ∈ book.orders, 0 < o.quantity ∧ 0 < o.price
  /-- no order rests twice, in one list or in two -/
  once : (book.orders.map Order.id).Nodup
  /-- every list is in arrival order -/
  arrival : ∀ head, (book.get head).Pairwise fun a b => a.id < b.id
  /-- no two resting orders match -/
  uncrossed : ∀ a ∈ book.orders, ∀ b ∈ book.orders, ¬ Crosses a b

instance {p : ListHead → Prop} [DecidablePred p] : Decidable (∀ head, p head) :=
  decidable_of_iff (p .jnstBuyOrders ∧ p .jnstSellOrders ∧ p .imctBuyOrders ∧ p .imctSellOrders)
    ⟨fun ⟨h1, h2, h3, h4⟩ head => by cases head <;> assumption, fun h => ⟨h _, h _, h _, h _⟩⟩

instance (book : LimitOrderBook) : Decidable (Placed book) := by
  unfold Placed; infer_instance

instance (book : LimitOrderBook) : Decidable (WellFormed book) :=
  decidable_of_iff (Placed book ∧ (∀ o ∈ book.orders, 0 < o.quantity ∧ 0 < o.price) ∧
      (book.orders.map Order.id).Nodup ∧
      (∀ head, (book.get head).Pairwise fun a b => a.id < b.id) ∧
      ∀ a ∈ book.orders, ∀ b ∈ book.orders, ¬ Crosses a b)
    ⟨fun ⟨h1, h2, h3, h4, h5⟩ => ⟨h1, h2, h3, h4, h5⟩,
      fun h => ⟨h.placed, h.positive, h.once, h.arrival, h.uncrossed⟩⟩

theorem listHead_ext {h k : ListHead} (hi : h.instrument = k.instrument)
    (hs : h.side = k.side) : h = k := by
  cases h <;> cases k <;> first | rfl | exact absurd hi (by decide) | exact absurd hs (by decide)

@[simp] theorem ownList_instrument (ord : Order) : (ownList ord).instrument = ord.instrument := by
  unfold ownList
  cases ord.instrument <;> cases ord.type <;> rfl

@[simp] theorem ownList_side (ord : Order) : (ownList ord).side = ord.type := by
  unfold ownList
  cases ord.instrument <;> cases ord.type <;> rfl

@[simp] theorem oppList_instrument (ord : Order) : (oppList ord).instrument = ord.instrument := by
  unfold oppList
  cases ord.instrument <;> cases ord.type <;> rfl

theorem oppList_side (ord : Order) : (oppList ord).side ≠ ord.type := by
  unfold oppList
  cases ord.instrument <;> cases ord.type <;> decide

theorem side_eq_of_ne {a b c : OrderSide} (hab : a ≠ b) (hcb : c ≠ b) : a = c := by
  cases a <;> cases b <;> cases c <;> first | rfl | exact absurd rfl hab | exact absurd rfl hcb

/-! ## 2. The reference -/

/-- The resting orders the new one can trade with, oldest first. -/
def matchable (book : LimitOrderBook) (ord : Order) : List Order :=
  book.orders.filter fun o => decide (Crosses ord o)

/-- The executions: the matchable orders served from the new order's quantity. -/
def executions (book : LimitOrderBook) (ord : Order) : List Execution :=
  (Fifo.allocate Order.quantity ord.quantity (matchable book ord)).map
    fun x => { resting := x.1, quantity := x.2 }

/-- The quantity a list of executions trades in all. -/
def tradedTotal (es : List Execution) : Int := (es.map Execution.quantity).sum

/-- The quantity a list of executions trades with the resting order `id`. -/
def tradedWith (es : List Execution) (id : Int) : Int :=
  tradedTotal (es.filter fun e => decide (e.resting.id = id))

/-- What the executions leave of a resting order: nothing once all of it is traded. -/
def settle (es : List Execution) (o : Order) : Option Order :=
  if o.quantity - tradedWith es o.id = 0 then none
  else some { o with quantity := o.quantity - tradedWith es o.id }

/-- The report of an execution: the price, the quantity and the instrument traded, and the
descriptors (and connections) of the buyer and of the seller. -/
def report (ord : Order) (e : Execution) : Fill :=
  let buy := if ord.type = .buy then ord else e.resting
  let sell := if ord.type = .buy then e.resting else ord
  { price := ord.price, quantity := e.quantity, instrument := ord.instrument
    buyClientFd := buy.clientFd, sellClientFd := sell.clientFd
    buyer := buy.submitter, seller := sell.submitter }

/-- What is left of the new order. -/
def remainder (book : LimitOrderBook) (ord : Order) : Int :=
  ord.quantity - tradedTotal (executions book ord)

/-- One list of the book after matching: its orders settled, and behind them what is left of
the new order if the list is the new order's own. -/
def matchedList (book : LimitOrderBook) (ord : Order) (head : ListHead) : List Order :=
  (book.get head).filterMap (settle (executions book ord)) ++
    if (head.instrument = ord.instrument ∧ head.side = ord.type) ∧ 0 < remainder book ord then
      [{ ord with quantity := remainder book ord }]
    else []

/-! ## 3. Settling -/

@[simp] theorem tradedTotal_nil : tradedTotal [] = 0 := rfl

@[simp] theorem tradedTotal_cons (e : Execution) (es : List Execution) :
    tradedTotal (e :: es) = e.quantity + tradedTotal es := by simp [tradedTotal]

@[simp] theorem tradedTotal_append (es fs : List Execution) :
    tradedTotal (es ++ fs) = tradedTotal es + tradedTotal fs := by simp [tradedTotal]

theorem tradedTotal_map (xs : List (Order × Int)) :
    tradedTotal (xs.map fun x => { resting := x.1, quantity := x.2 }) = Fifo.total xs := by
  simp [tradedTotal, Fifo.total, Function.comp_def]

@[simp] theorem tradedWith_nil (id : Int) : tradedWith [] id = 0 := rfl

theorem tradedWith_cons (e : Execution) (es : List Execution) (id : Int) :
    tradedWith (e :: es) id = (if e.resting.id = id then e.quantity else 0) + tradedWith es id := by
  unfold tradedWith
  by_cases h : e.resting.id = id <;> simp [h]

theorem tradedWith_of_not_mem {es : List Execution} {id : Int}
    (h : ∀ e ∈ es, e.resting.id ≠ id) : tradedWith es id = 0 := by
  unfold tradedWith
  rw [List.filter_eq_nil_iff.mpr (fun e he => by simpa using h e he)]
  rfl

/-- An order no execution names stays as it is. -/
theorem settle_untouched {es : List Execution} {o : Order} (hpos : 0 < o.quantity)
    (h : ∀ e ∈ es, e.resting.id ≠ o.id) : settle es o = some o := by
  have hne : ¬ o.quantity = 0 := by omega
  simp [settle, tradedWith_of_not_mem h, hne]

theorem filterMap_settle_untouched {es : List Execution} {l : List Order}
    (hpos : ∀ o ∈ l, 0 < o.quantity) (h : ∀ o ∈ l, ∀ e ∈ es, e.resting.id ≠ o.id) :
    l.filterMap (settle es) = l := by
  rw [List.filterMap_congr (fun o ho => settle_untouched (hpos o ho) (h o ho))]
  exact List.filterMap_some

/-- Executions against other orders do not matter to the orders of `l`. -/
theorem filterMap_settle_cons {e : Execution} {es : List Execution} {l : List Order}
    (h : ∀ o ∈ l, e.resting.id ≠ o.id) :
    l.filterMap (settle (e :: es)) = l.filterMap (settle es) := by
  refine List.filterMap_congr (fun o ho => ?_)
  simp [settle, tradedWith_cons, h o ho]

/-! ## 4. The loop -/

theorem tradeQuantity_eq_min (ord cur : Order) :
    tradeQuantity ord cur = min ord.quantity cur.quantity := by
  unfold tradeQuantity
  split <;> omega

@[simp] theorem growFills_ord (w : Walk) : (growFills w).ord = w.ord := by
  unfold growFills; dsimp only; split
  · split <;> rfl
  · rfl

@[simp] theorem growFills_fills (w : Walk) : (growFills w).fills = w.fills := by
  unfold growFills; dsimp only; split
  · split <;> rfl
  · rfl

@[simp] theorem growFills_executed (w : Walk) : (growFills w).executed = w.executed := by
  unfold growFills; dsimp only; split
  · split <;> rfl
  · rfl

@[simp] theorem recordFill_ord (cur : Order) (qty : Int) (w : Walk) :
    (recordFill cur qty w).ord = w.ord := by
  unfold recordFill; split <;> rfl

@[simp] theorem recordFill_executed (cur : Order) (qty : Int) (w : Walk) :
    (recordFill cur qty w).executed = w.executed := by
  unfold recordFill; split <;> rfl

@[simp] theorem execute_ord (cur : Order) (w : Walk) :
    (execute cur w).ord
      = { w.ord with quantity := w.ord.quantity - min w.ord.quantity cur.quantity } := by
  simp [execute, tradeQuantity_eq_min]

@[simp] theorem execute_executed (cur : Order) (w : Walk) :
    (execute cur w).executed
      = w.executed ++ [{ resting := cur, quantity := min w.ord.quantity cur.quantity }] := by
  simp [execute, tradeQuantity_eq_min]

/-- What the reference executes against the orders of `l` alone. -/
def served (l : List Order) (ord : Order) : List Execution :=
  (Fifo.allocate Order.quantity ord.quantity
    (l.filter fun o => decide (o.price = ord.price))).map
      fun x => { resting := x.1, quantity := x.2 }

theorem served_resting_mem {l : List Order} {ord : Order} {e : Execution}
    (he : e ∈ served l ord) : e.resting ∈ l ∧ e.resting.price = ord.price := by
  obtain ⟨x, hx, rfl⟩ := List.mem_map.mp he
  have h := Fifo.mem_of_mem_allocate Order.quantity hx
  simpa using h

theorem served_of_nonpos (l : List Order) {ord : Order} (h : ord.quantity ≤ 0) :
    served l ord = [] := by
  simp [served, Fifo.allocate_of_nonpos Order.quantity h]

theorem served_cons_ne {cur : Order} (nxt : List Order) {ord : Order}
    (h : cur.price ≠ ord.price) : served (cur :: nxt) ord = served nxt ord := by
  simp [served, h]

theorem served_cons_eq {cur : Order} (nxt : List Order) {ord : Order}
    (hq : 0 < ord.quantity) (h : cur.price = ord.price) :
    served (cur :: nxt) ord
      = { resting := cur, quantity := min ord.quantity cur.quantity } ::
        served nxt { ord with quantity := ord.quantity - min ord.quantity cur.quantity } := by
  simp [served, h, Fifo.allocate_cons_pos Order.quantity hq]

/-- **The loop invariant.**  From `cur` on, the walk settles the list with what the reference
executes against it, and takes that much from the incoming order. -/
theorem walk_spec : ∀ (l : List Order) (w : Walk), (l.map Order.id).Nodup →
    (∀ o ∈ l, 0 < o.quantity) →
    (walk l w).1 = l.filterMap (settle (served l w.ord)) ∧
      (walk l w).2.ord
        = { w.ord with quantity := w.ord.quantity - tradedTotal (served l w.ord) } ∧
      (walk l w).2.executed = w.executed ++ served l w.ord
  | [], w, _, _ => by simp [walk, served]
  | cur :: nxt, w, hnd, hpos => by
    have hcur : 0 < cur.quantity := hpos cur List.mem_cons_self
    have hnxt : ∀ o ∈ nxt, 0 < o.quantity := fun o ho => hpos o (List.mem_cons_of_mem _ ho)
    rw [List.map_cons, List.nodup_cons] at hnd
    have hid : ∀ o ∈ nxt, cur.id ≠ o.id := fun o ho h =>
      hnd.1 (h ▸ List.mem_map_of_mem ho)
    rw [walk]
    split
    · rename_i hq
      split
      · rename_i hp
        -- an execution: `cur` gives `min`, and the rest of the list sees what is left
        obtain ⟨h1, h2, h3⟩ := walk_spec nxt (execute cur w) hnd.2 hnxt
        rw [served_cons_eq nxt hq hp]
        rw [execute_ord] at h1 h2 h3
        rw [execute_executed] at h3
        have hother : ∀ e ∈ served nxt
            { w.ord with quantity := w.ord.quantity - min w.ord.quantity cur.quantity },
            e.resting.id ≠ cur.id := fun e he h =>
          hid _ (served_resting_mem he).1 h.symm
        have hsettle : settle
            ({ resting := cur, quantity := min w.ord.quantity cur.quantity } :: served nxt
              { w.ord with quantity := w.ord.quantity - min w.ord.quantity cur.quantity }) cur
            = if cur.quantity - min w.ord.quantity cur.quantity = 0 then none
              else some { cur with
                quantity := cur.quantity - min w.ord.quantity cur.quantity } := by
          simp [settle, tradedWith_cons, tradedWith_of_not_mem hother]
        simp only [tradeQuantity_eq_min]
        refine ⟨?_, ?_, ?_⟩
        · rw [List.filterMap_cons, hsettle, filterMap_settle_cons (fun o ho => hid o ho), ← h1]
          split <;> rfl
        · rw [tradedTotal_cons, ← sub_sub]
          split <;> exact h2
        · rw [List.append_assoc, List.singleton_append] at h3
          split <;> exact h3
      · rename_i hp
        -- another price: `cur` is passed over
        obtain ⟨h1, h2, h3⟩ := walk_spec nxt w hnd.2 hnxt
        rw [served_cons_ne nxt hp]
        refine ⟨?_, h2, h3⟩
        have hkeep : settle (served nxt w.ord) cur = some cur :=
          settle_untouched hcur (fun e he h => hid _ (served_resting_mem he).1 h.symm)
        rw [List.filterMap_cons, hkeep, ← h1]
    · rename_i hq
      rw [served_of_nonpos _ (not_lt.mp hq)]
      refine ⟨?_, by simp, by simp⟩
      exact (filterMap_settle_untouched hpos (by simp)).symm

/-! ## 5. The array of fills -/

theorem fillOf_eq_report {ord cur : Order} (h : cur.price = ord.price) (qty : Int) :
    fillOf ord cur qty = report ord { resting := cur, quantity := qty } := by
  unfold fillOf report
  split <;> simp [h]

/-- What is left of the incoming order is not in a report. -/
theorem fillOf_quantity (ord cur : Order) (q qty : Int) :
    fillOf { ord with quantity := q } cur qty = fillOf ord cur qty := by
  rfl

theorem report_quantity (ord : Order) (q : Int) (e : Execution) :
    report { ord with quantity := q } e = report ord e := by
  unfold report
  dsimp only
  split <;> rfl

/-- With allocations that succeed, there is room for the next fill. -/
theorem growFills_room {w : Walk} (hroom : w.fills.length ≤ w.cap)
    (hheap : ∀ ok ∈ w.heap, ok = true) :
    w.fills.length < (growFills w).cap ∧ ∀ ok ∈ (growFills w).heap, ok = true := by
  obtain ⟨hok, hrest⟩ := alloc_succeeds hheap
  unfold growFills
  dsimp only
  split
  · rename_i hfull
    refine ⟨?_, hrest⟩
    show w.fills.length < if w.cap = 0 then fillsInitialCapacity else w.cap * 2
    split
    · rw [fillsInitialCapacity]; omega
    · omega
  · exact ⟨by omega, hheap⟩

/-- With allocations that succeed, every execution is recorded. -/
theorem execute_fills {cur : Order} {w : Walk} (hroom : w.fills.length ≤ w.cap)
    (hheap : ∀ ok ∈ w.heap, ok = true) :
    (execute cur w).fills
        = w.fills ++ [fillOf w.ord cur (min w.ord.quantity cur.quantity)] ∧
      (execute cur w).fills.length ≤ (execute cur w).cap ∧
      ∀ ok ∈ (execute cur w).heap, ok = true := by
  set w' : Walk :=
    { w with ord := { w.ord with quantity := w.ord.quantity - tradeQuantity w.ord cur }
             executed := w.executed ++
              [{ resting := cur, quantity := tradeQuantity w.ord cur }] } with hw'
  obtain ⟨hlt, hrest⟩ := growFills_room (w := w') hroom hheap
  have he : execute cur w = { growFills w' with
      fills := (growFills w').fills ++
        [fillOf (growFills w').ord cur (tradeQuantity w.ord cur)] } := by
    show recordFill cur (tradeQuantity w.ord cur) (growFills w') = _
    unfold recordFill
    rw [if_pos (by rw [growFills_fills]; exact hlt)]
  rw [he]
  refine ⟨?_, ?_, hrest⟩
  · rw [growFills_fills, growFills_ord, fillOf_quantity, tradeQuantity_eq_min]
  · dsimp only
    rw [growFills_fills, List.length_append, List.length_singleton]
    exact hlt

/-- With allocations that succeed, the walk records every execution, in order. -/
theorem walk_fills : ∀ (l : List Order) (w : Walk), w.fills.length ≤ w.cap →
    (∀ ok ∈ w.heap, ok = true) →
    (walk l w).2.fills = w.fills ++ (served l w.ord).map (report w.ord)
  | [], w, _, _ => by simp [walk, served]
  | cur :: nxt, w, hroom, hheap => by
    rw [walk]
    split
    · rename_i hq
      split
      · rename_i hp
        obtain ⟨hf, hroom', hheap'⟩ := execute_fills hroom hheap
        have ih := walk_fills nxt (execute cur w) hroom' hheap'
        rw [hf, execute_ord, List.map_congr_left (fun e _ => report_quantity _ _ e)] at ih
        rw [served_cons_eq nxt hq hp, List.map_cons, ← fillOf_eq_report hp]
        rw [List.append_assoc, List.singleton_append] at ih
        dsimp only
        split <;> exact ih
      · rename_i hp
        rw [served_cons_ne nxt hp]
        exact walk_fills nxt w hroom hheap
    · rename_i hq
      rw [served_of_nonpos _ (not_lt.mp hq)]
      simp

/-! ## 6. Consequences of the invariant -/

theorem get_sublist_orders (book : LimitOrderBook) (head : ListHead) :
    (book.get head).Sublist book.orders := by
  unfold LimitOrderBook.orders
  cases head
  · exact ((List.sublist_append_left _ _).trans (List.sublist_append_left _ _)).trans
      (List.sublist_append_left _ _)
  · exact ((List.sublist_append_right _ _).trans (List.sublist_append_left _ _)).trans
      (List.sublist_append_left _ _)
  · exact (List.sublist_append_right _ _).trans (List.sublist_append_left _ _)
  · exact List.sublist_append_right _ _

theorem mem_orders_of_mem_get {book : LimitOrderBook} {head : ListHead} {o : Order}
    (h : o ∈ book.get head) : o ∈ book.orders :=
  (get_sublist_orders book head).subset h

/-- Whoever is met in an execution matches the new order. -/
theorem crosses_of_mem {book : LimitOrderBook} {ord : Order} {e : Execution}
    (he : e ∈ executions book ord) :
    e.resting ∈ book.orders ∧ Crosses ord e.resting := by
  obtain ⟨x, hx, rfl⟩ := List.mem_map.mp he
  have h := Fifo.mem_of_mem_allocate Order.quantity hx
  simpa [matchable] using h

namespace Placed

variable {book : LimitOrderBook} (hb : Placed book)

include hb

/-- An order that matches `ord` rests in the list `addOrder` walks, and nowhere else. -/
theorem filter_crosses (ord : Order) (head : ListHead) :
    ((book.get head).filter fun o => decide (Crosses ord o))
      = if head = oppList ord then
          (book.get head).filter fun o => decide (o.price = ord.price)
        else [] := by
  split
  · rename_i hh
    subst hh
    refine List.filter_congr (fun o ho => ?_)
    obtain ⟨hi, hs⟩ := hb _ o ho
    have hside : o.type ≠ ord.type := hs ▸ oppList_side ord
    simp [Crosses, hi, hside]
  · rename_i hh
    refine List.filter_eq_nil_iff.mpr (fun o ho => ?_)
    obtain ⟨hi, hs⟩ := hb head o ho
    rw [decide_eq_true_iff]
    rintro ⟨hi', hs', -⟩
    refine hh (listHead_ext ?_ ?_)
    · rw [← hi, hi', oppList_instrument]
    · rw [← hs]
      exact side_eq_of_ne hs' (oppList_side ord)

theorem matchable_eq (ord : Order) :
    matchable book ord
      = (book.get (oppList ord)).filter fun o => decide (o.price = ord.price) := by
  have h1 := hb.filter_crosses ord .jnstBuyOrders
  have h2 := hb.filter_crosses ord .jnstSellOrders
  have h3 := hb.filter_crosses ord .imctBuyOrders
  have h4 := hb.filter_crosses ord .imctSellOrders
  simp only [LimitOrderBook.get] at h1 h2 h3 h4
  simp only [matchable, LimitOrderBook.orders, List.filter_append, h1, h2, h3, h4]
  cases oppList ord <;> simp [LimitOrderBook.get]

theorem served_eq (ord : Order) :
    served (book.get (oppList ord)) ord = executions book ord := by
  rw [served, executions, hb.matchable_eq]

/-- With allocations that succeed, the array reports every execution. -/
theorem addOrder_fills (ord : Order) {heap : List Bool} (hheap : ∀ ok ∈ heap, ok = true) :
    (addOrder book ord heap).fills = (executions book ord).map (report ord) := by
  have h := walk_fills (book.get (oppList ord)) (.start ord heap) (Nat.zero_le _) hheap
  simpa [addOrder, Walk.start, hb.served_eq] using h

end Placed

namespace WellFormed

variable {book : LimitOrderBook} (hb : WellFormed book)

include hb

theorem nodup_get (head : ListHead) : ((book.get head).map Order.id).Nodup :=
  hb.once.sublist ((get_sublist_orders book head).map _)

/-- Two resting orders with one id are one order. -/
theorem eq_of_id {a b : Order} (ha : a ∈ book.orders) (hbm : b ∈ book.orders)
    (h : a.id = b.id) : a = b :=
  List.inj_on_of_nodup_map hb.once ha hbm h

theorem resting_mem {ord : Order} {e : Execution} (he : e ∈ executions book ord) :
    e.resting ∈ book.get (oppList ord) ∧ e.resting.price = ord.price := by
  rw [← hb.placed.served_eq] at he
  exact served_resting_mem he

/-- The matchable orders are in arrival order. -/
theorem matchable_sorted (ord : Order) :
    (matchable book ord).Pairwise fun a b => a.id < b.id := by
  rw [hb.placed.matchable_eq]
  exact (hb.arrival _).filter _

theorem matchable_positive (ord : Order) : ∀ o ∈ matchable book ord, 0 < o.quantity :=
  fun o ho => (hb.positive o (List.mem_of_mem_filter ho)).1

/-- A list the new order does not walk is settled by doing nothing. -/
theorem settle_other {ord : Order} {head : ListHead} (hh : head ≠ oppList ord) :
    (book.get head).filterMap (settle (executions book ord)) = book.get head := by
  refine filterMap_settle_untouched
    (fun o ho => (hb.positive o (mem_orders_of_mem_get ho)).1) (fun o ho e he hid => ?_)
  obtain ⟨hr, -⟩ := hb.resting_mem he
  have heq : e.resting = o :=
    hb.eq_of_id (mem_orders_of_mem_get hr) (mem_orders_of_mem_get ho) hid
  rw [heq] at hr
  obtain ⟨hi, hs⟩ := hb.placed _ o hr
  obtain ⟨hi', hs'⟩ := hb.placed _ o ho
  exact hh (listHead_ext (hi'.symm.trans hi) (hs'.symm.trans hs))

theorem walk_executed (ord : Order) (heap : List Bool) :
    (walk (book.get (oppList ord)) (.start ord heap)).1
        = (book.get (oppList ord)).filterMap (settle (executions book ord)) ∧
      (walk (book.get (oppList ord)) (.start ord heap)).2.ord
        = { ord with quantity := remainder book ord } ∧
      (walk (book.get (oppList ord)) (.start ord heap)).2.executed = executions book ord := by
  obtain ⟨h1, h2, h3⟩ := walk_spec _ (.start ord heap) (hb.nodup_get (oppList ord))
    (fun o ho => (hb.positive o (mem_orders_of_mem_get ho)).1)
  simp only [Walk.start, hb.placed.served_eq, List.nil_append] at h1 h2 h3
  exact ⟨h1, h2, h3⟩

/-- The executions do not depend on the memory `addOrder` gets. -/
theorem addOrder_executed (ord : Order) (heap : List Bool) :
    (addOrder book ord heap).executed = executions book ord :=
  (hb.walk_executed ord heap).2.2

/-- Nor does the book it leaves, list by list. -/
theorem addOrder_get (ord : Order) (heap : List Bool) (head : ListHead) :
    (addOrder book ord heap).book.get head = matchedList book ord head := by
  obtain ⟨h1, h2, -⟩ := hb.walk_executed ord heap
  have hne : ownList ord ≠ oppList ord := (oppList_ne_ownList ord).symm
  simp only [addOrder, h1, h2, matchedList]
  by_cases hopp : head = oppList ord
  · subst hopp
    have hside : ¬ ((oppList ord).instrument = ord.instrument ∧ (oppList ord).side = ord.type) :=
      fun h => oppList_side ord h.2
    simp only [hside, false_and, if_false, List.append_nil]
    split
    · rw [LimitOrderBook.get_set_ne hne.symm, LimitOrderBook.get_set_self]
    · rw [LimitOrderBook.get_set_self]
  · rw [hb.settle_other hopp]
    by_cases hown : head = ownList ord
    · subst hown
      simp only [ownList_instrument, ownList_side, true_and]
      split
      · rw [LimitOrderBook.get_set_self, LimitOrderBook.get_set_ne hne]
        rfl
      · rw [LimitOrderBook.get_set_ne hne, List.append_nil]
    · have hside : ¬ (head.instrument = ord.instrument ∧ head.side = ord.type) := fun h =>
        hown (listHead_ext (by simp [h.1]) (by simp [h.2]))
      simp only [hside, false_and, if_false, List.append_nil]
      split
      · rw [LimitOrderBook.get_set_ne hown, LimitOrderBook.get_set_ne hopp]
      · rw [LimitOrderBook.get_set_ne hopp]

end WellFormed

/-! ## 7. Price-time priority -/

/-- What the executions `es` of a new order are: only matching orders are met, oldest first;
each gives the smaller of what is still wanted and what it has; only the last can keep a part;
and they end when nothing is wanted or nobody is left. -/
structure PriceTime (book : LimitOrderBook) (ord : Order) (es : List Execution) : Prop where
  matching : ∀ e ∈ es, e.resting ∈ book.orders ∧ Crosses ord e.resting
  oldest : es.map Execution.resting <+: matchable book ord
  sorted : (matchable book ord).Pairwise fun a b => a.id < b.id
  amount : ∀ xs e ys, es = xs ++ e :: ys →
    0 < ord.quantity - tradedTotal xs ∧
      e.quantity = min (ord.quantity - tradedTotal xs) e.resting.quantity
  full : ∀ xs e f ys, es = xs ++ e :: f :: ys → e.quantity = e.resting.quantity
  ended : tradedTotal es = ord.quantity ∨
    es = (matchable book ord).map fun o => { resting := o, quantity := o.quantity }
  /-- an order met leaves the book when all of it is traded, and keeps the rest otherwise -/
  settled : ∀ e ∈ es, settle es e.resting =
    if e.quantity = e.resting.quantity then none
    else some { e.resting with quantity := e.resting.quantity - e.quantity }
  untouched : ∀ o ∈ book.orders, o ∉ es.map Execution.resting → settle es o = some o

/-- Pulling a cut of the executions back to a cut of the allocation. -/
theorem executions_split {book : LimitOrderBook} {ord : Order} {xs ys : List Execution}
    {e : Execution} (h : executions book ord = xs ++ e :: ys) :
    ∃ as bs, Fifo.allocate Order.quantity ord.quantity (matchable book ord)
        = as ++ (e.resting, e.quantity) :: bs ∧
      tradedTotal xs = Fifo.total as ∧
      ys = bs.map fun x => { resting := x.1, quantity := x.2 } := by
  obtain ⟨as, rest, hal, hxs, hrest⟩ := List.map_eq_append_iff.mp h
  obtain ⟨x, bs, rfl, hx, hys⟩ := List.map_eq_cons_iff.mp hrest
  refine ⟨as, bs, ?_, ?_, hys.symm⟩
  · rw [hal, ← hx]
  · rw [← hxs, tradedTotal_map]

/-- An order appears in one execution at most. -/
theorem WellFormed.executions_nodup {book : LimitOrderBook} (hb : WellFormed book) (ord : Order) :
    ((executions book ord).map fun e => e.resting.id).Nodup := by
  have hpre : (executions book ord).map Execution.resting <+: matchable book ord := by
    simpa [executions, Function.comp_def] using
      Fifo.map_fst_served Order.quantity (matchable book ord) ord.quantity
  have h1 : ((matchable book ord).map Order.id).Nodup :=
    hb.once.sublist (List.filter_sublist.map _)
  have h2 := h1.sublist (hpre.sublist.map Order.id)
  simpa [Function.comp_def] using h2

/-- Around an execution, the others are with other orders. -/
theorem WellFormed.executions_others {book : LimitOrderBook} (hb : WellFormed book) {ord : Order}
    {xs ys : List Execution} {e : Execution} (h : executions book ord = xs ++ e :: ys) :
    (∀ x ∈ xs, x.resting.id ≠ e.resting.id) ∧ ∀ y ∈ ys, y.resting.id ≠ e.resting.id := by
  have hnd := hb.executions_nodup ord
  rw [h, List.map_append, List.map_cons, List.nodup_append, List.nodup_cons] at hnd
  obtain ⟨-, ⟨hys, -⟩, hdis⟩ := hnd
  exact ⟨fun x hx => hdis _ (List.mem_map_of_mem hx) _ List.mem_cons_self,
    fun y hy hid => hys (List.mem_map.mpr ⟨y, hy, hid⟩)⟩

/-- So what is traded with an order is the quantity of its one execution. -/
theorem WellFormed.tradedWith_eq {book : LimitOrderBook} (hb : WellFormed book) {ord : Order}
    {e : Execution} (he : e ∈ executions book ord) :
    tradedWith (executions book ord) e.resting.id = e.quantity := by
  obtain ⟨xs, ys, hsplit⟩ := List.append_of_mem he
  obtain ⟨hx, hy⟩ := hb.executions_others hsplit
  have hsum : tradedWith (xs ++ e :: ys) e.resting.id
      = tradedWith xs e.resting.id + tradedWith (e :: ys) e.resting.id := by
    simp [tradedWith]
  rw [hsplit, hsum, tradedWith_cons, tradedWith_of_not_mem hx, tradedWith_of_not_mem hy]
  simp

theorem WellFormed.priceTime {book : LimitOrderBook} (hb : WellFormed book) {ord : Order}
    (hq : 0 < ord.quantity) : PriceTime book ord (executions book ord) where
  matching := fun _ he => crosses_of_mem he
  oldest := by
    simpa [executions, Function.comp_def] using
      Fifo.map_fst_served Order.quantity (matchable book ord) ord.quantity
  sorted := hb.matchable_sorted ord
  amount := by
    intro xs e ys h
    obtain ⟨as, bs, hal, hxs, -⟩ := executions_split h
    rw [hxs]
    exact Fifo.amount_eq Order.quantity hal
  full := by
    intro xs e f ys h
    obtain ⟨as, bs, hal, -, hbs⟩ := executions_split h
    obtain ⟨b, cs, rfl, -, -⟩ := List.map_eq_cons_iff.mp hbs.symm
    exact Fifo.full_of_not_last Order.quantity hal
  ended := by
    have hpos := hb.matchable_positive ord
    have hle := Fifo.total_le Order.quantity (le_of_lt hq) hpos
    have hsum : tradedTotal (executions book ord)
        = Fifo.total (Fifo.allocate Order.quantity ord.quantity (matchable book ord)) := by
      rw [executions, tradedTotal_map]
    rcases hle.eq_or_lt with heq | hlt
    · exact Or.inl (hsum.trans heq)
    · refine Or.inr ?_
      rw [executions, Fifo.allocate_of_unmet Order.quantity hpos hlt, List.map_map]
      rfl
  settled := by
    intro e he
    rw [settle, hb.tradedWith_eq he]
    by_cases h : e.quantity = e.resting.quantity
    · rw [if_pos h, if_pos (by omega)]
    · rw [if_neg h, if_neg (by omega)]
  untouched := by
    intro o ho hno
    refine settle_untouched (hb.positive o ho).1 (fun e he hid => hno ?_)
    have heq : e.resting = o := hb.eq_of_id (crosses_of_mem he).1 ho hid
    exact heq ▸ List.mem_map_of_mem he

/-- **`addOrder` is the reference matcher.**  On a well-formed book and with allocations that
succeed, the fills it returns are the reports of the reference's executions, each list of the
book is what the reference leaves of it, and the executions follow price-time priority. -/
theorem addOrder_matches {book : LimitOrderBook} (hb : WellFormed book) {ord : Order}
    (hq : 0 < ord.quantity) {heap : List Bool} (hheap : ∀ ok ∈ heap, ok = true) :
    (addOrder book ord heap).fills = (executions book ord).map (report ord) ∧
      (∀ head, (addOrder book ord heap).book.get head = matchedList book ord head) ∧
      PriceTime book ord (executions book ord) :=
  ⟨hb.placed.addOrder_fills ord hheap, hb.addOrder_get ord heap, hb.priceTime hq⟩

/-- Two sellers of 5 each. -/
def twoSellers : LimitOrderBook :=
  { initOrderbook with
    jnstSellOrders :=
      [ { id := 0, quantity := 5, price := 10, clientFd := 5, type := .sell, instrument := .jnst
          submitter := 0 },
        { id := 1, quantity := 5, price := 10, clientFd := 6, type := .sell, instrument := .jnst
          submitter := 1 } ] }

/-- A buyer of `quantity`. -/
def buyer (quantity : Int) : Order :=
  { id := 2, quantity := quantity, price := 10, clientFd := 7, type := .buy, instrument := .jnst
    submitter := 2 }

theorem addOrder_matches_two_sellers :
    (executions twoSellers (buyer 7)).map Execution.quantity = [5, 2] ∧
      (addOrder twoSellers (buyer 7) []).fills
        = (executions twoSellers (buyer 7)).map (report (buyer 7)) ∧
      (∀ head, (addOrder twoSellers (buyer 7) []).book.get head
        = matchedList twoSellers (buyer 7) head) ∧
      PriceTime twoSellers (buyer 7) (executions twoSellers (buyer 7)) :=
  ⟨by decide, addOrder_matches (by decide) (by decide) (by decide)⟩

/-! ## 8. Where orders and fills come from

These facts need nothing of the book: they hold whatever ids its orders have. -/

/-- `o'` is what is left of `o`: another quantity at most, and a positive one. -/
def Remnant (o o' : Order) : Prop := o' = { o with quantity := o'.quantity } ∧ 0 < o'.quantity ∧
  o'.quantity ≤ o.quantity

/-- The loop changes nothing of the incoming order but its quantity. -/
theorem walk_ord (l : List Order) (w : Walk) :
    (walk l w).2.ord = { w.ord with quantity := (walk l w).2.ord.quantity } := by
  induction l generalizing w with
  | nil => rfl
  | cons cur nxt ih =>
    rw [walk]
    split
    · split
      · have hexec := ih (execute cur w)
        rw [execute_ord] at hexec
        dsimp only
        split <;> exact hexec
      · exact ih w
    · rfl

theorem walk_remnant : ∀ (l : List Order) (w : Walk), (∀ o ∈ l, 0 < o.quantity) →
    (∀ o' ∈ (walk l w).1, ∃ o ∈ l, Remnant o o') ∧
      (walk l w).2.ord = { w.ord with quantity := (walk l w).2.ord.quantity } ∧
      (walk l w).2.ord.quantity ≤ w.ord.quantity
  | [], w, _ => ⟨by simp [walk], rfl, le_refl _⟩
  | cur :: nxt, w, hpos => by
    have hcur : 0 < cur.quantity := hpos cur List.mem_cons_self
    have hnxt : ∀ o ∈ nxt, 0 < o.quantity := fun o ho => hpos o (List.mem_cons_of_mem _ ho)
    rw [walk]
    split
    · rename_i hq
      split
      · obtain ⟨h1, h2, h3⟩ := walk_remnant nxt (execute cur w) hnxt
        rw [execute_ord] at h2 h3
        dsimp only at h2 h3
        simp only [tradeQuantity_eq_min]
        have hmem : ∀ o' ∈ (walk nxt (execute cur w)).1, ∃ o ∈ cur :: nxt, Remnant o o' :=
          fun o' ho' => (h1 o' ho').imp fun o h => ⟨List.mem_cons_of_mem _ h.1, h.2⟩
        split
        · exact ⟨hmem, h2, by omega⟩
        · rename_i hne
          refine ⟨?_, h2, by dsimp only; omega⟩
          intro o' ho'
          rcases List.mem_cons.mp ho' with rfl | ho'
          · exact ⟨cur, List.mem_cons_self, rfl, by dsimp only; omega, by dsimp only; omega⟩
          · exact hmem o' ho'
      · obtain ⟨h1, h2, h3⟩ := walk_remnant nxt w hnxt
        refine ⟨?_, h2, h3⟩
        intro o' ho'
        rcases List.mem_cons.mp ho' with rfl | ho'
        · exact ⟨o', List.mem_cons_self, rfl, hcur, le_refl _⟩
        · exact (h1 o' ho').imp fun o h => ⟨List.mem_cons_of_mem _ h.1, h.2⟩
    · exact ⟨fun o' ho' => ⟨o', ho', rfl, hpos o' ho', le_refl _⟩, rfl, le_refl _⟩

/-- **Where an order of the book comes from**, list by list: it rested there, or it is what is
left of the new order in the new order's own list. -/
theorem addOrder_remnant {book : LimitOrderBook} (hpos : ∀ o ∈ book.orders, 0 < o.quantity)
    (ord : Order) (heap : List Bool) {head : ListHead} {o' : Order}
    (h : o' ∈ (addOrder book ord heap).book.get head) :
    (∃ o ∈ book.get head, Remnant o o') ∨ head = ownList ord ∧ Remnant ord o' := by
  obtain ⟨h1, h2, h3⟩ := walk_remnant (book.get (oppList ord)) (.start ord heap)
    fun o ho => hpos o (mem_orders_of_mem_get ho)
  have hself : ∀ o ∈ book.get head, Remnant o o := fun o ho =>
    ⟨rfl, hpos o (mem_orders_of_mem_get ho), le_refl _⟩
  have hset : ∀ o ∈ (book.set (oppList ord)
      (walk (book.get (oppList ord)) (.start ord heap)).1).get head,
      ∃ p ∈ book.get head, Remnant p o := by
    intro o ho
    by_cases hh : head = oppList ord
    · subst hh
      rw [LimitOrderBook.get_set_self] at ho
      exact h1 o ho
    · rw [LimitOrderBook.get_set_ne hh] at ho
      exact ⟨o, ho, hself o ho⟩
  simp only [addOrder] at h
  split at h
  · rename_i hq
    by_cases hown : head = ownList ord
    · subst hown
      rw [LimitOrderBook.get_set_self, append] at h
      rcases List.mem_append.mp h with h | h
      · exact .inl (hset o' h)
      · rw [List.mem_singleton] at h
        subst h
        exact .inr ⟨rfl, h2, hq, h3⟩
    · rw [LimitOrderBook.get_set_ne hown] at h
      exact .inl (hset o' h)
  · exact .inl (hset o' h)

/-- The fill reports an execution of `ord` against `cur`, for some of what that still had. -/
def FillFrom (ord cur : Order) (f : Fill) : Prop :=
  ∃ qty, f = fillOf ord cur qty ∧ qty ≤ cur.quantity ∧ (0 < cur.quantity → 0 < qty)

/-- Where a recorded fill comes from: the new order and an order that rested. -/
theorem walk_fill : ∀ (l : List Order) (w : Walk) {f : Fill}, f ∈ (walk l w).2.fills →
    f ∈ w.fills ∨ ∃ cur ∈ l, FillFrom w.ord cur f
  | [], w, f, h => .inl h
  | cur :: nxt, w, f, h => by
    rw [walk] at h
    split at h
    · rename_i hleft
      split at h
      · have hstep : f ∈ (walk nxt (execute cur w)).2.fills := by
          dsimp only at h
          split at h <;> exact h
        rcases walk_fill nxt (execute cur w) hstep with hf | ⟨c, hc, qty, hf⟩
        · unfold execute recordFill at hf
          dsimp only at hf
          split at hf
          · simp only [growFills_fills, growFills_ord, List.mem_append, List.mem_singleton] at hf
            rcases hf with hf | hf
            · exact .inl hf
            · refine .inr ⟨cur, List.mem_cons_self, _, by rw [hf, fillOf_quantity], ?_⟩
              rw [tradeQuantity_eq_min]
              omega
          · rw [growFills_fills] at hf
            exact .inl hf
        · rw [execute_ord, fillOf_quantity] at hf
          exact .inr ⟨c, List.mem_cons_of_mem _ hc, qty, hf⟩
      · rcases walk_fill nxt w h with hf | ⟨c, hc, qty, hf⟩
        · exact .inl hf
        · exact .inr ⟨c, List.mem_cons_of_mem _ hc, qty, hf⟩
    · exact .inl h

theorem addOrder_fill {book : LimitOrderBook} {ord : Order} {heap : List Bool} {f : Fill}
    (h : f ∈ (addOrder book ord heap).fills) :
    ∃ cur ∈ book.orders, FillFrom ord cur f := by
  rcases walk_fill _ _ h with hf | ⟨cur, hc, hf⟩
  · simp [Walk.start] at hf
  · exact ⟨cur, mem_orders_of_mem_get hc, hf⟩

end SocketExchange
