/-
# The exchange: the book, the id counter, and what happens to them over a run

The server keeps one book and one counter, `next_order_id`.  Three things change them: an
accepted order (the middle of `placeOrder`), a cancellation (`cancelUserOrder`) and the
departure of a client (`removeClient`).  `Exchange` is that state with a log of what happened,
`Op` is what can happen, and a run is a list of operations by any clients in any order.

`run_wellFormed` is the order-book invariant over whole runs.  The three operations are seen
as one thing for it: each list of the book is filtered, with some fields of the orders that
stay rewritten (`WellFormed.filterMap`), and at most one order with a new id is put behind its
own kind (`WellFormed.append`).
-/
import SocketExchange.Matching
import SocketExchange.Lib.Run

namespace SocketExchange

/-! ## 1. The state and its operations -/

/-- What happened to orders.  No code reads it. -/
inductive Entry
  | accepted (ord : Order)
  | executed (incoming : Order) (e : Execution)
  | cancelled (ord : Order)
  deriving DecidableEq, Repr

structure Exchange where
  orderbook : LimitOrderBook
  nextOrderId : Int
  log : List Entry
  deriving DecidableEq, Repr

/-- An `int` after arithmetic that may leave its range. -/
def wrap32 (n : Int) : Int := Int.bmod n (2 ^ 32)

namespace Exchange

def init : Exchange := { orderbook := initOrderbook, nextOrderId := 0, log := [] }

/-- The order `placeOrder` fills in. -/
def newOrder (x : Exchange) (side : OrderSide) (inst : Instrument) (quantity price clientFd : Int)
    (submitter : Nat) : Order :=
  { id := x.nextOrderId, quantity := quantity, price := price, clientFd := clientFd
    type := side, instrument := inst, submitter := submitter }

/-- `order->id = next_order_id++` for an order with that id. -/
def takeId (x : Exchange) (ord : Order) : Exchange :=
  { x with nextOrderId := wrap32 (x.nextOrderId + 1), log := x.log ++ [.accepted ord] }

/-- `addOrder(orderbook, order, &fills)` -/
def enter (x : Exchange) (ord : Order) (heap : List Bool) : Exchange :=
  let r := addOrder x.orderbook ord heap
  { x with orderbook := r.book, log := x.log ++ r.executed.map (Entry.executed ord) }

/-- `cancelOrder(orderbook, id, client_fd)`: the order taken out, if there was one. -/
def cancel (x : Exchange) (id clientFd : Int) : Option (Order × Exchange) :=
  (cancelOrder x.orderbook id clientFd).map fun r =>
    (r.1, { x with orderbook := r.2, log := x.log ++ [.cancelled r.1] })

/-- `detachClientOrders(orderbook, client_fd)` -/
def depart (x : Exchange) (clientFd : Int) : Exchange :=
  { x with orderbook := detachClientOrders x.orderbook clientFd }

end Exchange

/-- One operation by one client. -/
inductive Op
  | order (side : OrderSide) (inst : Instrument) (quantity price clientFd : Int)
      (submitter : Nat) (heap : List Bool)
  | cancel (id clientFd : Int)
  | depart (clientFd : Int)
  deriving DecidableEq, Repr

/-- An order is accepted when its quantity and price are positive. -/
def Op.accepts : Op → Bool
  | .order _ _ quantity price _ _ _ => decide (0 < quantity ∧ 0 < price)
  | _ => false

namespace Exchange

/-- One operation.  A refused order and a failed cancellation change nothing. -/
def step (x : Exchange) : Op → Exchange
  | .order side inst quantity price clientFd submitter heap =>
    if quantity ≤ 0 ∨ price ≤ 0 then x
    else
      let ord := x.newOrder side inst quantity price clientFd submitter
      (x.takeId ord).enter ord heap
  | .cancel id clientFd =>
    match x.cancel id clientFd with
    | some r => r.2
    | none => x
  | .depart clientFd => x.depart clientFd

/-- The exchange after the operations `ops`. -/
def after (ops : List Op) : Exchange := Run.run step init ops

end Exchange

/-! ## 2. Filtering a book -/

/-- Every list of the book filtered by `f`. -/
def LimitOrderBook.filterMap (f : Order → Option Order) (book : LimitOrderBook) :
    LimitOrderBook :=
  { jnstBuyOrders := book.jnstBuyOrders.filterMap f
    jnstSellOrders := book.jnstSellOrders.filterMap f
    imctBuyOrders := book.imctBuyOrders.filterMap f
    imctSellOrders := book.imctSellOrders.filterMap f }

@[simp] theorem get_filterMap (f : Order → Option Order) (book : LimitOrderBook)
    (head : ListHead) : (book.filterMap f).get head = (book.get head).filterMap f := by
  cases head <;> rfl

theorem orders_filterMap (f : Order → Option Order) (book : LimitOrderBook) :
    (book.filterMap f).orders = book.orders.filterMap f := by
  simp [LimitOrderBook.orders, LimitOrderBook.filterMap]

/-- On the orders of `l`, `f` drops orders or rewrites their owner and their quantity, which
stays positive. -/
def Keeps (f : Order → Option Order) (l : List Order) : Prop :=
  ∀ o ∈ l, ∀ o', f o = some o' →
    o'.id = o.id ∧ o'.price = o.price ∧ o'.type = o.type ∧ o'.instrument = o.instrument ∧
      0 < o'.quantity

theorem Keeps.mono {f : Order → Option Order} {l m : List Order} (hf : Keeps f m)
    (h : ∀ o ∈ l, o ∈ m) : Keeps f l := fun o ho => hf o (h o ho)

theorem Keeps.map_id_sublist {f : Order → Option Order} :
    ∀ {l : List Order}, Keeps f l → ((l.filterMap f).map Order.id).Sublist (l.map Order.id)
  | [], _ => List.Sublist.refl _
  | o :: l, hf => by
    have ih := Keeps.map_id_sublist (hf.mono fun a ha => List.mem_cons_of_mem o ha)
    rw [List.filterMap_cons]
    cases ho : f o with
    | none => exact ih.cons _
    | some o' =>
      rw [List.map_cons, List.map_cons, (hf o List.mem_cons_self o' ho).1]
      exact ih.cons_cons _

/-- **Filtering keeps the invariant.** -/
theorem WellFormed.filterMap {book : LimitOrderBook} (hb : WellFormed book)
    {f : Order → Option Order} (hf : Keeps f book.orders) : WellFormed (book.filterMap f) := by
  have hmem : ∀ {o'}, o' ∈ (book.filterMap f).orders → ∃ o ∈ book.orders, f o = some o' := by
    intro o' ho'
    rw [orders_filterMap] at ho'
    exact List.mem_filterMap.mp ho'
  refine ⟨?_, ?_, ?_, ?_, ?_⟩
  · intro head o' ho'
    rw [get_filterMap] at ho'
    obtain ⟨o, ho, hoo'⟩ := List.mem_filterMap.mp ho'
    obtain ⟨-, -, ht, hi, -⟩ := hf o (mem_orders_of_mem_get ho) o' hoo'
    rw [ht, hi]
    exact hb.placed head o ho
  · intro o' ho'
    obtain ⟨o, ho, hoo'⟩ := hmem ho'
    obtain ⟨-, hp, -, -, hq⟩ := hf o ho o' hoo'
    exact ⟨hq, hp ▸ (hb.positive o ho).2⟩
  · rw [orders_filterMap]
    exact hb.once.sublist hf.map_id_sublist
  · intro head
    have hsub := (hf.mono fun o (ho : o ∈ book.get head) => mem_orders_of_mem_get ho).map_id_sublist
    have hsorted := hb.arrival head
    rw [← List.pairwise_map (f := Order.id) (R := (· < ·))] at hsorted ⊢
    rw [get_filterMap]
    exact hsorted.sublist hsub
  · intro a' ha' b' hb' hcross
    obtain ⟨a, ha, haa'⟩ := hmem ha'
    obtain ⟨b, hbm, hbb'⟩ := hmem hb'
    obtain ⟨-, hap, hat, hai, -⟩ := hf a ha a' haa'
    obtain ⟨-, hbp, hbt, hbi, -⟩ := hf b hbm b' hbb'
    refine hb.uncrossed a ha b hbm ?_
    rw [Crosses, hap, hat, hai, hbp, hbt, hbi] at hcross
    exact hcross

/-! ## 3. Adding one order -/

/-- The book with `ord` behind its own kind. -/
def LimitOrderBook.place (book : LimitOrderBook) (ord : Order) : LimitOrderBook :=
  book.set (ownList ord) (book.get (ownList ord) ++ [ord])

theorem get_place (book : LimitOrderBook) (ord : Order) (head : ListHead) :
    (book.place ord).get head
      = book.get head ++ if head = ownList ord then [ord] else [] := by
  unfold LimitOrderBook.place
  split
  · rename_i h
    rw [h, LimitOrderBook.get_set_self]
  · rename_i h
    rw [LimitOrderBook.get_set_ne h, List.append_nil]

theorem orders_place_perm (book : LimitOrderBook) (ord : Order) :
    (book.place ord).orders.Perm (ord :: book.orders) := by
  have hp : ∀ a b : List Order, (a ++ [ord] ++ b).Perm (ord :: (a ++ b)) := fun a b => by
    rw [List.append_assoc]
    exact List.perm_middle
  unfold LimitOrderBook.place LimitOrderBook.orders
  cases ownList ord
  · simp [LimitOrderBook.set, LimitOrderBook.get]
  · simpa [LimitOrderBook.set, LimitOrderBook.get] using
      hp (book.jnstBuyOrders ++ book.jnstSellOrders) _
  · simpa [LimitOrderBook.set, LimitOrderBook.get] using
      hp (book.jnstBuyOrders ++ (book.jnstSellOrders ++ book.imctBuyOrders)) _
  · have h := List.perm_append_singleton ord book.orders
    simpa [LimitOrderBook.orders, LimitOrderBook.set, LimitOrderBook.get] using h

theorem mem_orders_place {book : LimitOrderBook} {ord o : Order} :
    o ∈ (book.place ord).orders ↔ o = ord ∨ o ∈ book.orders := by
  rw [(orders_place_perm book ord).mem_iff, List.mem_cons]

theorem crosses_comm {a b : Order} (h : Crosses a b) : Crosses b a :=
  ⟨h.1.symm, h.2.1.symm, h.2.2.symm⟩

/-- **A new order that matches nothing keeps the invariant.** -/
theorem WellFormed.place {book : LimitOrderBook} (hb : WellFormed book) {ord : Order}
    (hq : 0 < ord.quantity) (hp : 0 < ord.price) (hid : ∀ o ∈ book.orders, o.id < ord.id)
    (hun : ∀ o ∈ book.orders, ¬ Crosses ord o) : WellFormed (book.place ord) := by
  refine ⟨?_, ?_, ?_, ?_, ?_⟩
  · intro head o ho
    rw [get_place] at ho
    rcases List.mem_append.mp ho with ho | ho
    · exact hb.placed head o ho
    · split at ho
      · rename_i h
        rw [List.mem_singleton.mp ho, h]
        exact ⟨(ownList_instrument ord).symm, (ownList_side ord).symm⟩
      · simp at ho
  · intro o ho
    rcases mem_orders_place.mp ho with rfl | ho
    · exact ⟨hq, hp⟩
    · exact hb.positive o ho
  · rw [((orders_place_perm book ord).map Order.id).nodup_iff, List.map_cons, List.nodup_cons]
    refine ⟨?_, hb.once⟩
    rw [List.mem_map]
    rintro ⟨o, ho, hoid⟩
    have := hid o ho
    omega
  · intro head
    rw [get_place, List.pairwise_append]
    refine ⟨hb.arrival head, ?_, ?_⟩
    · split <;> simp
    · intro a ha b hbm
      split at hbm
      · rw [List.mem_singleton.mp hbm]
        exact hid a (mem_orders_of_mem_get ha)
      · simp at hbm
  · intro a ha b hbm hc
    rcases mem_orders_place.mp ha with ha | ha <;> rcases mem_orders_place.mp hbm with hbm | hbm
    · exact hc.2.1 (by rw [ha, hbm])
    · exact hun b hbm (ha ▸ hc)
    · exact hun a ha (crosses_comm (hbm ▸ hc))
    · exact hb.uncrossed a ha b hbm hc

/-! ## 4. The operations on a well-formed book -/

theorem detach_eq_filterMap (book : LimitOrderBook) (fd : Int) :
    detachClientOrders book fd = book.filterMap fun o => some (detach fd o) := by
  refine LimitOrderBook.ext_get fun head => ?_
  rw [get_detachClientOrders, get_filterMap, detachIn, List.filterMap_eq_map']

/-- Of the things a list holds, one at most has a name that occurs once at most. -/
theorem eq_of_count_map_le_one {α β : Type*} [DecidableEq β] {f : α → β} {b : β} {l : List α}
    (h : (l.map f).count b ≤ 1) {x y : α} (hx : x ∈ l) (hy : y ∈ l) (hfx : f x = b)
    (hfy : f y = b) : x = y := by
  induction l with
  | nil => exact absurd hx List.not_mem_nil
  | cons a l ih =>
    have htwo : ∀ z ∈ l, f z = b → f a ≠ b := by
      intro z hz hfz hfa
      have hpos : 0 < (l.map f).count b := List.count_pos_iff.mpr (List.mem_map.mpr ⟨z, hz, hfz⟩)
      rw [List.map_cons, List.count_cons, hfa, beq_self_eq_true, if_pos rfl] at h
      omega
    rcases List.mem_cons.mp hx with rfl | hxl <;> rcases List.mem_cons.mp hy with rfl | hyl
    · rfl
    · exact absurd hfx (htwo y hyl hfy)
    · exact absurd hfy (htwo x hxl hfx)
    · refine ih ?_ hxl hyl
      exact ((List.sublist_cons_self a l).map f).count_le b |>.trans h

/-- Where an id occurs once at most, a cancellation takes out the order with that id and no
other. -/
theorem Placed.cancel_eq_filterMap {book : LimitOrderBook} (hb : Placed book) {id fd : Int}
    (hone : (book.orders.map Order.id).count id ≤ 1) {r : Order × LimitOrderBook}
    (h : cancelOrder book id fd = some r) :
    r.1 ∈ book.orders ∧ r.1.id = id ∧ r.1.clientFd = fd ∧
      r.2 = book.filterMap fun o => if o.id = id then none else some o := by
  obtain ⟨head, pre, post, hget, hset, hid, hfd⟩ := cancelOrder_eq_some h
  have hin : r.1 ∈ book.get head := by rw [hget]; simp
  have hmem : r.1 ∈ book.orders := mem_orders_of_mem_get hin
  refine ⟨hmem, hid, hfd, LimitOrderBook.ext_get fun head' => ?_⟩
  rw [get_filterMap, hset]
  have hkeep : ∀ l : List Order, (∀ o ∈ l, o.id ≠ id) →
      (l.filterMap fun o => if o.id = id then none else some o) = l := by
    intro l hl
    rw [List.filterMap_congr (g := some) fun o ho => by simp [hl o ho]]
    exact List.filterMap_some
  by_cases hh : head' = head
  · subst hh
    -- the order itself is the one occurrence
    have hcount := (((get_sublist_orders book head').map Order.id).count_le id).trans hone
    rw [hget, List.map_append, List.map_cons, List.count_append, List.count_cons, hid,
      beq_self_eq_true, if_pos rfl] at hcount
    have hrest : ∀ l : List Order, (l.map Order.id).count id = 0 → ∀ o ∈ l, o.id ≠ id :=
      fun l hl o ho heq => List.count_eq_zero.mp hl (heq ▸ List.mem_map_of_mem ho)
    have hpre' := hrest pre (by omega)
    have hpost' := hrest post (by omega)
    rw [LimitOrderBook.get_set_self, hget, List.filterMap_append, List.filterMap_cons,
      hkeep pre hpre', hkeep post hpost', if_pos hid]
  · rw [LimitOrderBook.get_set_ne hh]
    refine (hkeep _ fun o ho heq => hh ?_).symm
    have hsame : o = r.1 := eq_of_count_map_le_one hone (mem_orders_of_mem_get ho) hmem heq hid
    obtain ⟨hi, hs⟩ := hb head' o ho
    obtain ⟨hi', hs'⟩ := hb head r.1 hin
    rw [hsame] at hi hs
    exact listHead_ext (hi.symm.trans hi') (hs.symm.trans hs')

namespace WellFormed

variable {book : LimitOrderBook} (hb : WellFormed book)

include hb

/-- No more is traded with a resting order than it has. -/
theorem tradedWith_bounds (ord : Order) {o : Order} (ho : o ∈ book.orders) :
    0 ≤ tradedWith (executions book ord) o.id ∧
      tradedWith (executions book ord) o.id ≤ o.quantity := by
  have hpos := hb.positive o ho
  by_cases h : ∃ e ∈ executions book ord, e.resting.id = o.id
  · obtain ⟨e, he, hid⟩ := h
    have heq : e.resting = o := hb.eq_of_id (crosses_of_mem he).1 ho hid
    obtain ⟨x, hx, rfl⟩ := List.mem_map.mp he
    have hbd := Fifo.amount_bounds Order.quantity (hb.matchable_positive ord) x hx
    rw [← hid, hb.tradedWith_eq he]
    exact ⟨le_of_lt hbd.1, heq ▸ hbd.2⟩
  · rw [tradedWith_of_not_mem fun e he hid => h ⟨e, he, hid⟩]
    omega

theorem keeps_settle (ord : Order) :
    Keeps (settle (executions book ord)) book.orders := by
  intro o ho o' h
  have hbd := hb.tradedWith_bounds ord ho
  unfold settle at h
  split at h
  · cases h
  · rename_i hne
    cases h
    exact ⟨rfl, rfl, rfl, rfl, by dsimp only; omega⟩

theorem keeps_detach (fd : Int) : Keeps (fun o => some (detach fd o)) book.orders := by
  intro o ho o' h
  cases h
  simpa using (hb.positive o ho).1

theorem keeps_drop (id : Int) :
    Keeps (fun o => if o.id = id then none else some o) book.orders := by
  intro o ho o' h
  dsimp only at h
  split at h
  · cases h
  · cases h
    exact ⟨rfl, rfl, rfl, rfl, (hb.positive o ho).1⟩

/-- With unique ids, a cancellation takes out the order with that id and no other. -/
theorem cancel_eq_filterMap {id fd : Int} {r : Order × LimitOrderBook}
    (h : cancelOrder book id fd = some r) :
    r.1 ∈ book.orders ∧ r.1.id = id ∧ r.1.clientFd = fd ∧
      r.2 = book.filterMap fun o => if o.id = id then none else some o :=
  hb.placed.cancel_eq_filterMap (List.nodup_iff_count_le_one.mp hb.once id) h

/-- `addOrder` settles the book and puts behind it what is left of the new order. -/
theorem addOrder_book (ord : Order) (heap : List Bool) :
    (addOrder book ord heap).book
      = if 0 < remainder book ord then
          (book.filterMap (settle (executions book ord))).place
            { ord with quantity := remainder book ord }
        else book.filterMap (settle (executions book ord)) := by
  have hown : ownList { ord with quantity := remainder book ord } = ownList ord := rfl
  refine LimitOrderBook.ext_get fun head => ?_
  rw [hb.addOrder_get, matchedList]
  have hhead : head.instrument = ord.instrument ∧ head.side = ord.type ↔ head = ownList ord :=
    ⟨fun h => listHead_ext (by simp [h.1]) (by simp [h.2]), fun h => by simp [h]⟩
  simp only [hhead]
  split
  · rename_i h
    rw [if_pos h.2, get_place, get_filterMap, hown, if_pos h.1]
  · rename_i h
    split
    · rename_i hr
      rw [get_place, get_filterMap, hown, if_neg fun hh => h ⟨hh, hr⟩]
    · rw [get_filterMap, List.append_nil]

/-- If something is left of the new order, everything that matched it was consumed. -/
theorem settle_matchable {ord : Order} (hq : 0 < ord.quantity) (hr : 0 < remainder book ord)
    {o : Order} (ho : o ∈ book.orders) (hc : Crosses ord o) :
    settle (executions book ord) o = none := by
  have hpt := hb.priceTime hq
  rcases hpt.ended with h | h
  · rw [remainder, h] at hr
    omega
  · have hmem : o ∈ matchable book ord := by simp [matchable, ho, hc]
    have he : ({ resting := o, quantity := o.quantity } : Execution) ∈ executions book ord := by
      rw [h]
      exact List.mem_map.mpr ⟨o, hmem, rfl⟩
    have := hpt.settled _ he
    simpa using this

/-- **`addOrder` keeps the invariant**, for a new order with an id larger than all others. -/
theorem addOrder {ord : Order} (hq : 0 < ord.quantity) (hp : 0 < ord.price)
    (hid : ∀ o ∈ book.orders, o.id < ord.id) (heap : List Bool) :
    WellFormed (SocketExchange.addOrder book ord heap).book := by
  have hfm := hb.filterMap (hb.keeps_settle ord)
  rw [hb.addOrder_book]
  split
  · rename_i hr
    have hkeep := hb.keeps_settle ord
    refine hfm.place hr hp ?_ ?_ <;> intro o' ho' <;> rw [orders_filterMap] at ho' <;>
      obtain ⟨o, ho, hoo'⟩ := List.mem_filterMap.mp ho'
    · rw [(hkeep o ho o' hoo').1]
      exact hid o ho
    · intro hc
      obtain ⟨-, hop, hot, hoi, -⟩ := hkeep o ho o' hoo'
      have hcross : Crosses ord o := by
        rw [Crosses, hop, hot, hoi] at hc
        exact hc
      rw [hb.settle_matchable hq hr ho hcross] at hoo'
      cases hoo'
  · exact hfm

end WellFormed

/-! ## 5. Runs -/

/-- What holds of the exchange as long as the counter has not wrapped. -/
structure Sound (x : Exchange) : Prop where
  book : WellFormed x.orderbook
  fresh : ∀ o ∈ x.orderbook.orders, o.id < x.nextOrderId
  counter : 0 ≤ x.nextOrderId

theorem wrap32_of_lt {n : Int} (h0 : 0 ≤ n) (h : n < 2 ^ 31) : wrap32 n = n := by
  unfold wrap32
  rw [Int.bmod_eq_of_le] <;> omega

theorem sound_init : Sound Exchange.init := by
  refine ⟨⟨?_, ?_, ?_, ?_, ?_⟩, ?_, ?_⟩
  · intro head
    cases head <;> simp [Exchange.init, initOrderbook, LimitOrderBook.get]
  · simp [Exchange.init, initOrderbook, LimitOrderBook.orders]
  · simp [Exchange.init, initOrderbook, LimitOrderBook.orders]
  · intro head
    cases head <;> simp [Exchange.init, initOrderbook, LimitOrderBook.get]
  · simp [Exchange.init, initOrderbook, LimitOrderBook.orders]
  · simp [Exchange.init, initOrderbook, LimitOrderBook.orders]
  · exact le_refl _

/-- The counter does not wrap at this operation. -/
def NoWrap (x : Exchange) (op : Op) : Prop := op.accepts = true → x.nextOrderId + 1 < 2 ^ 31

/-- The orders after `addOrder`: those settled, and what is left of the new one. -/
theorem WellFormed.mem_addOrder {book : LimitOrderBook} (hb : WellFormed book) {ord o' : Order}
    {heap : List Bool} (h : o' ∈ (SocketExchange.addOrder book ord heap).book.orders) :
    (∃ o ∈ book.orders, settle (executions book ord) o = some o') ∨
      (0 < remainder book ord ∧ o' = { ord with quantity := remainder book ord }) := by
  rw [hb.addOrder_book] at h
  split at h
  · rename_i hr
    rcases mem_orders_place.mp h with h | h
    · exact Or.inr ⟨hr, h⟩
    · rw [orders_filterMap] at h
      exact Or.inl (List.mem_filterMap.mp h)
  · rw [orders_filterMap] at h
    exact Or.inl (List.mem_filterMap.mp h)

theorem settle_id {es : List Execution} {o o' : Order} (h : settle es o = some o') :
    o'.id = o.id := by
  unfold settle at h
  split at h
  · cases h
  · cases h
    rfl

theorem Sound.order {x : Exchange} (hx : Sound x) {ord : Order} (hq : 0 < ord.quantity)
    (hp : 0 < ord.price) (hid : ord.id = x.nextOrderId) (hw : x.nextOrderId + 1 < 2 ^ 31)
    (heap : List Bool) : Sound ((x.takeId ord).enter ord heap) := by
  have hc := hx.counter
  have hnext : ((x.takeId ord).enter ord heap).nextOrderId = x.nextOrderId + 1 :=
    wrap32_of_lt (by omega) hw
  refine ⟨hx.book.addOrder hq hp (fun o ho => hid ▸ hx.fresh o ho) heap, ?_, by omega⟩
  intro o' ho'
  rw [hnext]
  rcases hx.book.mem_addOrder ho' with ⟨o, ho, hoo'⟩ | ⟨-, rfl⟩
  · have := hx.fresh o ho
    rw [settle_id hoo']
    omega
  · simp only [hid]
    omega

theorem Sound.cancel {x : Exchange} (hx : Sound x) {id fd : Int} {r : Order × Exchange}
    (h : x.cancel id fd = some r) : Sound r.2 := by
  obtain ⟨r', hr', rfl⟩ := Option.map_eq_some_iff.mp h
  obtain ⟨-, -, -, hbook⟩ := hx.book.cancel_eq_filterMap hr'
  refine ⟨?_, ?_, hx.counter⟩
  · dsimp only
    rw [hbook]
    exact hx.book.filterMap (hx.book.keeps_drop id)
  · intro o ho
    dsimp only at ho
    rw [hbook, orders_filterMap] at ho
    obtain ⟨o', ho', hoo'⟩ := List.mem_filterMap.mp ho
    rw [(hx.book.keeps_drop id o' ho' o hoo').1]
    exact hx.fresh o' ho'

theorem Sound.depart {x : Exchange} (hx : Sound x) (fd : Int) : Sound (x.depart fd) := by
  have hd : (x.depart fd).orderbook = _ := detach_eq_filterMap x.orderbook fd
  refine ⟨?_, ?_, hx.counter⟩
  · rw [hd]
    exact hx.book.filterMap (hx.book.keeps_detach fd)
  · intro o ho
    rw [hd, orders_filterMap] at ho
    obtain ⟨o', ho', hoo'⟩ := List.mem_filterMap.mp ho
    rw [(hx.book.keeps_detach fd o' ho' o hoo').1]
    exact hx.fresh o' ho'

/-- **One operation keeps the invariant**, one case for each kind. -/
theorem Sound.step {x : Exchange} (hx : Sound x) {op : Op} (hw : NoWrap x op) :
    Sound (x.step op) := by
  cases op with
  | order side inst quantity price clientFd submitter heap =>
    simp only [Exchange.step]
    split
    · exact hx
    · rename_i hpos
      have hacc : 0 < quantity ∧ 0 < price := by omega
      exact hx.order hacc.1 hacc.2 rfl (hw (by simpa [Op.accepts] using hacc)) heap
  | cancel id clientFd =>
    simp only [Exchange.step]
    split
    · rename_i r hr
      exact hx.cancel hr
    · exact hx
  | depart clientFd => exact hx.depart clientFd

/-- An operation moves the counter by one if it accepts an order, and not at all otherwise. -/
theorem step_nextOrderId {x : Exchange} (h0 : 0 ≤ x.nextOrderId) {op : Op} (hw : NoWrap x op) :
    (x.step op).nextOrderId = x.nextOrderId + if op.accepts then 1 else 0 := by
  cases op with
  | order side inst quantity price clientFd submitter heap =>
    simp only [Exchange.step]
    split
    · rename_i hneg
      have : (Op.order side inst quantity price clientFd submitter heap).accepts = false := by
        simp [Op.accepts]; omega
      simp [this]
    · rename_i hpos
      have : (Op.order side inst quantity price clientFd submitter heap).accepts = true := by
        simp [Op.accepts]; omega
      have hlt := hw this
      rw [this]
      exact wrap32_of_lt (by omega) hlt
  | cancel id clientFd =>
    simp only [Exchange.step, Op.accepts]
    split
    · rename_i r hr
      obtain ⟨r', -, rfl⟩ := Option.map_eq_some_iff.mp hr
      simp
    · simp
  | depart clientFd => simp [Exchange.step, Exchange.depart, Op.accepts]

/-- A run that accepts fewer than `2 ^ 31` orders never wraps the counter. -/
theorem meets_noWrap : ∀ (ops : List Op) (x : Exchange), 0 ≤ x.nextOrderId →
    x.nextOrderId + ops.countP Op.accepts < 2 ^ 31 → Run.Meets Exchange.step NoWrap x ops
  | [], _, _, _ => trivial
  | op :: ops, x, h0, hlt => by
    rw [List.countP_cons] at hlt
    have hw : NoWrap x op := fun hacc => by
      rw [if_pos hacc] at hlt
      omega
    have hstep := step_nextOrderId h0 hw
    refine ⟨hw, meets_noWrap ops (x.step op) ?_ ?_⟩ <;> rw [hstep] <;> split <;>
      rename_i hacc <;> simp only [hacc, if_true, if_false, Bool.false_eq_true] at hlt <;> omega

theorem after_sound {ops : List Op} (h : ops.countP Op.accepts < 2 ^ 31) :
    Sound (Exchange.after ops) :=
  Run.run_invariant_of_meets (fun _ _ hx hw => hx.step hw) ops _
    (meets_noWrap ops Exchange.init (le_refl _) (by simp [Exchange.init]; omega)) sound_init

/-- **The order-book invariant over whole runs.**  After any operations by any clients in any
order, fewer than `2 ^ 31` of them accepted orders: no two resting orders match, every
resting order has a positive quantity and price and rests once, in the list of its own
instrument and side, and every list is strictly increasing in order id. -/
theorem run_wellFormed (ops : List Op) (h : ops.countP Op.accepts < 2 ^ 31) :
    WellFormed (Exchange.after ops).orderbook :=
  (after_sound h).book

/-- Two sellers, a buyer who trades with both, a cancellation and a departure. -/
def partialFill : List Op :=
  [ .order .sell .jnst 5 10 5 0 [], .order .sell .jnst 5 10 6 1 [],
    .order .buy .jnst 7 10 7 2 [], .cancel 1 6, .depart 5 ]

theorem run_wellFormed_partialFill :
    partialFill.countP Op.accepts = 3 ∧ WellFormed (Exchange.after partialFill).orderbook :=
  ⟨by decide, run_wellFormed partialFill (by decide)⟩

end SocketExchange
