/-
# The quantity ledger

Every unit an order was submitted with is traded, still resting, or cancelled.  The log of the
exchange says what was accepted, executed and cancelled; three sums over it and one over the
book are the four columns of the ledger, and `Balanced` says that they agree for every
accepted order and that no later entry touches an order that is used up.

The invariant is kept by one operation at a time (`Balanced.order`, `Balanced.cancel`,
`Balanced.depart`); an execution inside `addOrder` is one entry, so the statement about the
history holds between the executions of one call too.
-/
import SocketExchange.Exchange

namespace SocketExchange

/-! ## 1. The columns -/

/-- What an entry trades of order `id`, as the incoming order or as the resting one. -/
def Entry.traded (id : Int) : Entry → Int
  | .executed inc e =>
    (if inc.id = id then e.quantity else 0) + (if e.resting.id = id then e.quantity else 0)
  | _ => 0

/-- What an entry cancels of order `id`. -/
def Entry.cancels (id : Int) : Entry → Int
  | .cancelled o => if o.id = id then o.quantity else 0
  | _ => 0

/-- The quantity of all executions order `id` took part in. -/
def executedQuantity (log : List Entry) (id : Int) : Int := (log.map (Entry.traded id)).sum

/-- The quantity removed from order `id` by its cancellation. -/
def cancelledQuantity (log : List Entry) (id : Int) : Int := (log.map (Entry.cancels id)).sum

/-- The quantity order `id` has resting. -/
def restingQuantity (book : LimitOrderBook) (id : Int) : Int :=
  ((book.orders.filter fun o => decide (o.id = id)).map Order.quantity).sum

@[simp] theorem executedQuantity_append (l m : List Entry) (id : Int) :
    executedQuantity (l ++ m) id = executedQuantity l id + executedQuantity m id := by
  simp [executedQuantity]

@[simp] theorem cancelledQuantity_append (l m : List Entry) (id : Int) :
    cancelledQuantity (l ++ m) id = cancelledQuantity l id + cancelledQuantity m id := by
  simp [cancelledQuantity]

@[simp] theorem executedQuantity_accepted (o : Order) (id : Int) :
    executedQuantity [.accepted o] id = 0 := rfl

@[simp] theorem executedQuantity_cancelled (o : Order) (id : Int) :
    executedQuantity [.cancelled o] id = 0 := rfl

@[simp] theorem cancelledQuantity_accepted (o : Order) (id : Int) :
    cancelledQuantity [.accepted o] id = 0 := rfl

@[simp] theorem cancelledQuantity_cancelled (o : Order) (id : Int) :
    cancelledQuantity [.cancelled o] id = if o.id = id then o.quantity else 0 := by
  simp [cancelledQuantity, Entry.cancels]

@[simp] theorem cancelledQuantity_executed (ord : Order) (es : List Execution) (id : Int) :
    cancelledQuantity (es.map (Entry.executed ord)) id = 0 := by
  simp [cancelledQuantity, Function.comp_def, Entry.cancels]

/-- The executions of one call count for the incoming order in full and for each resting order
what was traded with it. -/
theorem executedQuantity_executed (ord : Order) (es : List Execution) (id : Int) :
    executedQuantity (es.map (Entry.executed ord)) id
      = (if ord.id = id then tradedTotal es else 0) + tradedWith es id := by
  induction es with
  | nil => simp [executedQuantity]
  | cons e es ih =>
    have hcons : executedQuantity ((e :: es).map (Entry.executed ord)) id
        = Entry.traded id (.executed ord e)
          + executedQuantity (es.map (Entry.executed ord)) id := by
      simp [executedQuantity]
    rw [hcons, ih, tradedWith_cons, tradedTotal_cons, Entry.traded]
    split <;> omega

/-! ## 2. What is resting -/

/-- Nothing rests under an id that the book does not have. -/
theorem restingQuantity_of_not_mem {book : LimitOrderBook} {id : Int}
    (h : ∀ o ∈ book.orders, o.id ≠ id) : restingQuantity book id = 0 := by
  unfold restingQuantity
  rw [List.filter_eq_nil_iff.mpr fun o ho => by simpa using h o ho]
  rfl

/-- Where no id stands twice, an id picks out one order. -/
theorem filter_id_of_nodup : ∀ {l : List Order} {o : Order}, (l.map Order.id).Nodup → o ∈ l →
    (l.filter fun a => decide (a.id = o.id)) = [o]
  | [], _, _, h => by simp at h
  | a :: l, o, hnd, h => by
    rw [List.map_cons, List.nodup_cons] at hnd
    rcases List.mem_cons.mp h with rfl | h
    · have hrest : (l.filter fun b => decide (b.id = o.id)) = [] :=
        List.filter_eq_nil_iff.mpr fun b hb hid =>
          hnd.1 (of_decide_eq_true hid ▸ List.mem_map_of_mem hb)
      simp [hrest]
    · have hne : ¬ a.id = o.id := fun hid => hnd.1 (hid ▸ List.mem_map_of_mem h)
      simp [hne, filter_id_of_nodup hnd.2 h]

/-- So an order of the book has resting what it holds. -/
theorem WellFormed.restingQuantity_eq {book : LimitOrderBook} (hb : WellFormed book) {o : Order}
    (ho : o ∈ book.orders) : restingQuantity book o.id = o.quantity := by
  simp [restingQuantity, filter_id_of_nodup hb.once ho]

theorem WellFormed.restingQuantity_of_id {book : LimitOrderBook} (hb : WellFormed book)
    {o : Order} {id : Int} (ho : o ∈ book.orders) (hid : o.id = id) :
    restingQuantity book id = o.quantity := hid ▸ hb.restingQuantity_eq ho

/-- Nothing is traded with an id that does not rest. -/
theorem tradedWith_of_not_resting {book : LimitOrderBook} {ord : Order} {id : Int}
    (h : ∀ o ∈ book.orders, o.id ≠ id) : tradedWith (executions book ord) id = 0 :=
  tradedWith_of_not_mem fun _ he => h _ (crosses_of_mem he).1

/-! ## 3. The ledger -/

/-- No execution touches an order that is fully executed or cancelled: each party of each
execution was accepted before, and up to then less was executed than it was submitted with
and none of it was cancelled. -/
def HistoryOk (log : List Entry) : Prop :=
  ∀ pre ord e post, log = pre ++ .executed ord e :: post → ∀ id, id = ord.id ∨ id = e.resting.id →
    ∃ a, .accepted a ∈ pre ∧ a.id = id ∧ executedQuantity pre id < a.quantity ∧
      ∀ c, .cancelled c ∈ pre → c.id ≠ id

/-- **The ledger of an exchange balances.** -/
structure Balanced (x : Exchange) : Prop where
  sound : Sound x
  /-- submitted = executed + resting + cancelled -/
  balance : ∀ a, .accepted a ∈ x.log →
    a.quantity = executedQuantity x.log a.id + restingQuantity x.orderbook a.id
      + cancelledQuantity x.log a.id
  accepted : ∀ o ∈ x.orderbook.orders, ∃ a, .accepted a ∈ x.log ∧ a.id = o.id
  /-- no entry names an id that is not given out yet -/
  known : ∀ a, .accepted a ∈ x.log → a.id < x.nextOrderId
  unique : ∀ a, .accepted a ∈ x.log → ∀ b, .accepted b ∈ x.log → a.id = b.id → a = b
  fresh : ∀ id, x.nextOrderId ≤ id →
    executedQuantity x.log id = 0 ∧ cancelledQuantity x.log id = 0
  gone : ∀ c, .cancelled c ∈ x.log → c.id < x.nextOrderId ∧ ∀ o ∈ x.orderbook.orders, o.id ≠ c.id
  history : HistoryOk x.log

/-! ## 4. The columns after an operation -/

/-- An order put into the book rests with its quantity. -/
theorem restingQuantity_place (book : LimitOrderBook) (ord : Order) (id : Int) :
    restingQuantity (book.place ord) id
      = (if ord.id = id then ord.quantity else 0) + restingQuantity book id := by
  unfold restingQuantity
  rw [(((orders_place_perm book ord).filter _).map Order.quantity).sum_eq]
  by_cases h : ord.id = id <;> simp [h]

/-- Settling takes from what rests what was traded with it. -/
theorem WellFormed.restingQuantity_settle {book : LimitOrderBook} (hb : WellFormed book)
    (ord : Order) (id : Int) :
    restingQuantity (book.filterMap (settle (executions book ord))) id
      = restingQuantity book id - tradedWith (executions book ord) id := by
  have hb' := hb.filterMap (hb.keeps_settle ord)
  by_cases h : ∃ o ∈ book.orders, o.id = id
  · obtain ⟨o, ho, rfl⟩ := h
    rw [hb.restingQuantity_eq ho]
    cases hs : settle (executions book ord) o with
    | none =>
      have hz : o.quantity - tradedWith (executions book ord) o.id = 0 := by
        unfold settle at hs
        split at hs
        · assumption
        · cases hs
      rw [hz]
      refine restingQuantity_of_not_mem fun o' ho' hid => ?_
      rw [orders_filterMap] at ho'
      obtain ⟨a, ha, haa'⟩ := List.mem_filterMap.mp ho'
      have hao : a = o := hb.eq_of_id ha ho ((settle_id haa').symm.trans hid)
      rw [hao, hs] at haa'
      cases haa'
    | some o' =>
      have hmem : o' ∈ (book.filterMap (settle (executions book ord))).orders := by
        rw [orders_filterMap]
        exact List.mem_filterMap.mpr ⟨o, ho, hs⟩
      rw [hb'.restingQuantity_of_id hmem (settle_id hs)]
      unfold settle at hs
      split at hs
      · cases hs
      · cases hs
        rfl
  · have hnone : ∀ o ∈ book.orders, o.id ≠ id := fun o ho hid => h ⟨o, ho, hid⟩
    rw [restingQuantity_of_not_mem hnone, tradedWith_of_not_resting hnone]
    refine restingQuantity_of_not_mem fun o' ho' hid => ?_
    rw [orders_filterMap] at ho'
    obtain ⟨a, ha, haa'⟩ := List.mem_filterMap.mp ho'
    exact hnone a ha ((settle_id haa').symm.trans hid)

/-- An order never trades more than it was submitted with. -/
theorem WellFormed.remainder_nonneg {book : LimitOrderBook} (hb : WellFormed book) {ord : Order}
    (hq : 0 < ord.quantity) : 0 ≤ remainder book ord := by
  have h := Fifo.total_le Order.quantity (le_of_lt hq) (hb.matchable_positive ord)
  rw [remainder, executions, tradedTotal_map]
  omega

/-- What rests after `addOrder`: of the new order its remainder, of the others what they had less
what was traded with them.  A remainder of 0 is not placed, and counts as 0 all the same. -/
theorem WellFormed.restingQuantity_addOrder {book : LimitOrderBook} (hb : WellFormed book)
    {ord : Order} (hq : 0 < ord.quantity) (heap : List Bool) (id : Int) :
    restingQuantity (SocketExchange.addOrder book ord heap).book id
      = (if ord.id = id then remainder book ord else 0)
        + (restingQuantity book id - tradedWith (executions book ord) id) := by
  have h0 := hb.remainder_nonneg hq
  rw [hb.addOrder_book]
  split
  · rw [restingQuantity_place, hb.restingQuantity_settle]
  · have hz : remainder book ord = 0 := by omega
    rw [hb.restingQuantity_settle, hz]
    simp

/-- A departure takes the owner off the orders, not their quantities. -/
theorem restingQuantity_detach (book : LimitOrderBook) (fd id : Int) :
    restingQuantity (detachClientOrders book fd) id = restingQuantity book id := by
  unfold restingQuantity
  rw [detach_eq_filterMap, orders_filterMap, List.filterMap_eq_map', List.filter_map,
    List.map_map]
  simp [Function.comp_def]

/-- An order taken out of the book leaves nothing, and the others as they are. -/
theorem restingQuantity_drop (book : LimitOrderBook) (id id' : Int) :
    restingQuantity (book.filterMap fun o => if o.id = id then none else some o) id'
      = if id' = id then 0 else restingQuantity book id' := by
  unfold restingQuantity
  rw [orders_filterMap]
  generalize book.orders = l
  induction l with
  | nil => simp
  | cons o l ih =>
    rw [List.filterMap_cons]
    by_cases h : o.id = id
    · rw [if_pos h, ih]
      split
      · rfl
      · rename_i hne
        have : ¬ o.id = id' := fun h' => hne (h'.symm.trans h)
        simp [this]
    · rw [if_neg h, List.filter_cons, List.filter_cons]
      by_cases h' : o.id = id'
      · have hne : ¬ id' = id := fun hh => h (h'.trans hh)
        rw [if_neg hne] at ih ⊢
        simp [h', ih]
      · simp only [h', decide_false, Bool.false_eq_true, if_false]
        exact ih

theorem cancelledQuantity_of_not_mem {log : List Entry} {id : Int}
    (h : ∀ c, .cancelled c ∈ log → c.id ≠ id) : cancelledQuantity log id = 0 := by
  induction log with
  | nil => rfl
  | cons x log ih =>
    have hx : Entry.cancels id x = 0 := by
      cases x with
      | cancelled c => simp [Entry.cancels, h c List.mem_cons_self]
      | accepted _ => rfl
      | executed _ _ => rfl
    have hrest := ih fun c hc => h c (List.mem_cons_of_mem _ hc)
    simp only [cancelledQuantity, List.map_cons, List.sum_cons] at hrest ⊢
    omega

/-- A history extended by entries that respect what came before them. -/
theorem HistoryOk.append {log new : List Entry} (h : HistoryOk log)
    (hnew : ∀ pre ord e post, new = pre ++ .executed ord e :: post →
      ∀ id, id = ord.id ∨ id = e.resting.id →
        ∃ a, .accepted a ∈ log ++ pre ∧ a.id = id ∧
          executedQuantity (log ++ pre) id < a.quantity ∧
          ∀ c, .cancelled c ∈ log ++ pre → c.id ≠ id) : HistoryOk (log ++ new) := by
  intro pre ord e post hsplit
  rcases List.append_eq_append_iff.mp hsplit with ⟨mid, hpre, hmid⟩ | ⟨mid, hlog, hmid⟩
  · rw [hpre]
    exact hnew mid ord e post hmid
  · cases mid with
    | nil =>
      rw [List.append_nil] at hlog
      have := hnew [] ord e post hmid.symm
      rwa [List.append_nil, hlog] at this
    | cons y mid =>
      rw [List.cons_append, List.cons.injEq] at hmid
      exact h pre ord e mid (by rw [hlog, hmid.1])

/-! ## 5. One operation keeps the ledger balanced -/

/-- The entries of one accepted order: that it was accepted, and its executions. -/
theorem takeId_enter_log {x : Exchange} (hx : Sound x) (ord : Order) (heap : List Bool) :
    ((x.takeId ord).enter ord heap).log
      = x.log ++ (.accepted ord :: (executions x.orderbook ord).map (Entry.executed ord)) := by
  have h := hx.book.addOrder_executed ord heap
  simp [Exchange.enter, Exchange.takeId, h]

theorem mem_log_accepted {log : List Entry} {ord a : Order} {es : List Execution}
    (h : .accepted a ∈ log ++ (.accepted ord :: es.map (Entry.executed ord))) :
    .accepted a ∈ log ∨ a = ord := by
  simpa using h

theorem mem_log_cancelled {log : List Entry} {ord c : Order} {es : List Execution}
    (h : .cancelled c ∈ log ++ (.accepted ord :: es.map (Entry.executed ord))) :
    .cancelled c ∈ log := by
  simpa using h

/-- Where an execution stands among the entries of one accepted order. -/
theorem executed_split {ord ord' : Order} {es : List Execution} {e : Execution}
    {pre post : List Entry}
    (h : .accepted ord :: es.map (Entry.executed ord) = pre ++ .executed ord' e :: post) :
    ord' = ord ∧ ∃ es₁ es₂, es = es₁ ++ e :: es₂ ∧
      pre = .accepted ord :: es₁.map (Entry.executed ord) := by
  cases pre with
  | nil => simp at h
  | cons y pre =>
    rw [List.cons_append, List.cons.injEq] at h
    obtain ⟨es₁, rest, hes, hpre, hrest⟩ := List.map_eq_append_iff.mp h.2
    obtain ⟨e', es₂, rfl, he, -⟩ := List.map_eq_cons_iff.mp hrest
    cases he
    exact ⟨rfl, es₁, es₂, hes, by rw [← h.1, hpre]⟩

/-- What these entries add to the executed column. -/
theorem executedQuantity_order (log : List Entry) (ord : Order) (es : List Execution) (id : Int) :
    executedQuantity (log ++ (.accepted ord :: es.map (Entry.executed ord))) id
      = executedQuantity log id
        + ((if ord.id = id then tradedTotal es else 0) + tradedWith es id) := by
  rw [← executedQuantity_executed]
  simp [executedQuantity, Entry.traded]

theorem cancelledQuantity_order (log : List Entry) (ord : Order) (es : List Execution) (id : Int) :
    cancelledQuantity (log ++ (.accepted ord :: es.map (Entry.executed ord))) id
      = cancelledQuantity log id := by
  simp [cancelledQuantity, Entry.cancels, Function.comp_def]

/-- No execution of the new order touches an order that is used up: a resting one still has
what it rests with, and the new one what it has not traded yet. -/
theorem Balanced.order_history {x : Exchange} (hx : Balanced x) {ord : Order}
    (hq : 0 < ord.quantity) (hid : ord.id = x.nextOrderId) :
    HistoryOk (x.log ++
      (.accepted ord :: (executions x.orderbook ord).map (Entry.executed ord))) := by
  have hb := hx.sound.book
  refine hx.history.append ?_
  intro pre ord' e post hsplit id hor
  obtain ⟨rfl, es₁, es₂, hes, rfl⟩ := executed_split hsplit
  have hpt := hb.priceTime hq
  have hmem : e ∈ executions x.orderbook ord' := by rw [hes]; simp
  have hres := (crosses_of_mem hmem).1
  have hlt := hx.sound.fresh _ hres
  have hothers := (hb.executions_others hes).1
  have hnotnew : ∀ e' ∈ es₁, e'.resting.id ≠ ord'.id := fun e' he' h => by
    have hin : e' ∈ executions x.orderbook ord' := by rw [hes]; simp [he']
    have := hx.sound.fresh _ (crosses_of_mem hin).1
    omega
  rcases hor with rfl | rfl
  · refine ⟨ord', by simp, rfl, ?_, ?_⟩
    · obtain ⟨hexec0, -⟩ := hx.fresh ord'.id (le_of_eq hid.symm)
      obtain ⟨hpos, -⟩ := hpt.amount es₁ e es₂ hes
      rw [executedQuantity_order, hexec0, tradedWith_of_not_mem hnotnew]
      simp only [if_true]
      omega
    · intro c hcm
      have := (hx.gone c (mem_log_cancelled hcm)).1
      omega
  · obtain ⟨a, ha, haid⟩ := hx.accepted _ hres
    have hnotgone : ∀ c, .cancelled c ∈ x.log → c.id ≠ e.resting.id := fun c hcm h =>
      (hx.gone c hcm).2 _ hres h.symm
    refine ⟨a, by simp [ha], haid, ?_, fun c hcm => hnotgone c (mem_log_cancelled hcm)⟩
    have hbal := hx.balance a ha
    rw [haid, hb.restingQuantity_eq hres, cancelledQuantity_of_not_mem hnotgone] at hbal
    have hne : ¬ ord'.id = e.resting.id := by omega
    have hpos := (hb.positive _ hres).1
    rw [executedQuantity_order, if_neg hne, tradedWith_of_not_mem hothers]
    omega

/-- **An accepted order keeps the ledger balanced.**  The new id is above all others, so the new
order has its columns for itself. -/
theorem Balanced.order {x : Exchange} (hx : Balanced x) {ord : Order} (hq : 0 < ord.quantity)
    (hp : 0 < ord.price) (hid : ord.id = x.nextOrderId) (hw : x.nextOrderId + 1 < 2 ^ 31)
    (heap : List Bool) : Balanced ((x.takeId ord).enter ord heap) := by
  have hb := hx.sound.book
  have hc := hx.sound.counter
  have hnext : ((x.takeId ord).enter ord heap).nextOrderId = x.nextOrderId + 1 :=
    wrap32_of_lt (by omega) hw
  have hnew : ∀ o ∈ x.orderbook.orders, o.id ≠ ord.id := fun o ho h => by
    have := hx.sound.fresh o ho
    omega
  obtain ⟨hexec0, hcanc0⟩ := hx.fresh ord.id (le_of_eq hid.symm)
  have hsound := hx.sound.order hq hp hid hw heap
  have hbook : ((x.takeId ord).enter ord heap).orderbook
      = (addOrder x.orderbook ord heap).book := rfl
  refine ⟨hsound, ?_, ?_, ?_, ?_, ?_, ?_, ?_⟩ <;> try rw [takeId_enter_log hx.sound]
  · -- an old order moves from resting to executed, the new one opens its own columns
    intro a ha
    rw [executedQuantity_order, cancelledQuantity_order, hbook, hb.restingQuantity_addOrder hq]
    rcases mem_log_accepted ha with ha | rfl
    · have hlt := hx.known a ha
      have hne : ¬ ord.id = a.id := by omega
      have hbal := hx.balance a ha
      rw [if_neg hne, if_neg hne]
      omega
    · rw [if_pos rfl, if_pos rfl, hexec0, hcanc0, restingQuantity_of_not_mem hnew, remainder]
      omega
  · intro o' ho'
    rcases hb.mem_addOrder ho' with ⟨o, ho, hoo'⟩ | ⟨-, rfl⟩
    · obtain ⟨a, ha, haid⟩ := hx.accepted o ho
      exact ⟨a, by simp [ha], haid.trans (settle_id hoo').symm⟩
    · exact ⟨ord, by simp, rfl⟩
  · intro a ha
    rw [hnext]
    rcases mem_log_accepted ha with ha | rfl
    · have := hx.known a ha
      omega
    · omega
  · intro a ha b hbm hab
    rcases mem_log_accepted ha with hao | hao <;> rcases mem_log_accepted hbm with hbo | hbo
    · exact hx.unique a hao b hbo hab
    · have := hx.known a hao
      rw [hab, hbo] at this
      omega
    · have := hx.known b hbo
      rw [← hab, hao] at this
      omega
    · rw [hao, hbo]
  · intro id hge
    rw [hnext] at hge
    obtain ⟨h1, h2⟩ := hx.fresh id (by omega)
    have hrest : ∀ o ∈ x.orderbook.orders, o.id ≠ id := fun o ho h => by
      have := hx.sound.fresh o ho
      omega
    rw [executedQuantity_order, cancelledQuantity_order, h1, h2,
      tradedWith_of_not_resting hrest, if_neg (by omega)]
    exact ⟨rfl, rfl⟩
  · intro c hcm
    obtain ⟨hlt, hno⟩ := hx.gone c (mem_log_cancelled hcm)
    rw [hnext]
    refine ⟨by omega, fun o' ho' => ?_⟩
    rcases hb.mem_addOrder ho' with ⟨o, ho, hoo'⟩ | ⟨-, rfl⟩
    · rw [settle_id hoo']
      exact hno o ho
    · dsimp only
      omega
  · exact hx.order_history hq hid

/-- **A cancellation keeps it balanced**: what the order has resting moves to the cancelled column,
and the order is gone. -/
theorem Balanced.cancel {x : Exchange} (hx : Balanced x) {id fd : Int} {r : Order × Exchange}
    (h : x.cancel id fd = some r) : Balanced r.2 := by
  have hsound := hx.sound.cancel h
  obtain ⟨r', hr', rfl⟩ := Option.map_eq_some_iff.mp h
  obtain ⟨hmem, hid, -, hbook⟩ := hx.sound.book.cancel_eq_filterMap hr'
  have hsub : ∀ o ∈ r'.2.orders, o ∈ x.orderbook.orders ∧ o.id ≠ id := by
    intro o ho
    rw [hbook, orders_filterMap] at ho
    obtain ⟨o', ho', hoo'⟩ := List.mem_filterMap.mp ho
    split at hoo'
    · cases hoo'
    · rename_i hne
      cases hoo'
      exact ⟨ho', hne⟩
  have hacc : ∀ a, .accepted a ∈ x.log ++ [.cancelled r'.1] → .accepted a ∈ x.log := by simp
  refine ⟨hsound, ?_, ?_, ?_, ?_, ?_, ?_, ?_⟩ <;> dsimp only
  · -- the cancelled order moves from resting to cancelled
    intro a ha
    have hbal := hx.balance a (hacc a ha)
    rw [executedQuantity_append, cancelledQuantity_append, executedQuantity_cancelled,
      cancelledQuantity_cancelled, hbook, restingQuantity_drop]
    by_cases heq : a.id = id
    · rw [heq, hx.sound.book.restingQuantity_of_id hmem hid] at hbal
      rw [if_pos heq, if_pos (hid.trans heq.symm), heq]
      omega
    · have hne : ¬ r'.1.id = a.id := fun hh => heq (hh.symm.trans hid)
      rw [if_neg heq, if_neg hne]
      omega
  · intro o ho
    obtain ⟨a, ha, haid⟩ := hx.accepted o (hsub o ho).1
    exact ⟨a, by simp [ha], haid⟩
  · intro a ha
    exact hx.known a (hacc a ha)
  · intro a ha b hb
    exact hx.unique a (hacc a ha) b (hacc b hb)
  · intro id' hge
    obtain ⟨h1, h2⟩ := hx.fresh id' hge
    have hlt := hx.sound.fresh _ hmem
    rw [executedQuantity_append, cancelledQuantity_append, executedQuantity_cancelled,
      cancelledQuantity_cancelled, h1, h2, if_neg (by omega)]
    exact ⟨rfl, rfl⟩
  · intro c hc
    rcases List.mem_append.mp hc with hc | hc
    · obtain ⟨hlt, hno⟩ := hx.gone c hc
      exact ⟨hlt, fun o ho => hno o (hsub o ho).1⟩
    · have hcr : c = r'.1 := by simpa using hc
      subst hcr
      exact ⟨hx.sound.fresh _ hmem, fun o ho => hid ▸ (hsub o ho).2⟩
  · refine hx.history.append ?_
    intro pre ord e post hsplit
    cases pre <;> simp at hsplit

/-- **A departure keeps it balanced**, as it changes no column. -/
theorem Balanced.depart {x : Exchange} (hx : Balanced x) (fd : Int) : Balanced (x.depart fd) := by
  have hids : ∀ o ∈ (x.depart fd).orderbook.orders, ∃ o' ∈ x.orderbook.orders, o'.id = o.id := by
    intro o ho
    have hd : (x.depart fd).orderbook = _ := detach_eq_filterMap x.orderbook fd
    rw [hd, orders_filterMap, List.filterMap_eq_map', List.mem_map] at ho
    obtain ⟨o', ho', rfl⟩ := ho
    exact ⟨o', ho', (detach_id fd o').symm⟩
  refine ⟨hx.sound.depart fd, ?_, ?_, hx.known, hx.unique, hx.fresh, ?_, hx.history⟩
  · intro a ha
    have := hx.balance a ha
    rwa [← restingQuantity_detach x.orderbook fd] at this
  · intro o ho
    obtain ⟨o', ho', hid⟩ := hids o ho
    obtain ⟨a, ha, haid⟩ := hx.accepted o' ho'
    exact ⟨a, ha, haid.trans hid⟩
  · intro c hc
    obtain ⟨hlt, hno⟩ := hx.gone c hc
    refine ⟨hlt, fun o ho => ?_⟩
    obtain ⟨o', ho', hid⟩ := hids o ho
    exact hid ▸ hno o' ho'

theorem Balanced.step {x : Exchange} (hx : Balanced x) {op : Op} (hw : NoWrap x op) :
    Balanced (x.step op) := by
  cases op with
  | order side inst quantity price clientFd submitter heap =>
    simp only [Exchange.step]
    split
    · exact hx
    · rename_i hpos
      have hacc : 0 < quantity ∧ 0 < price := by omega
      exact hx.order hacc.1 hacc.2 rfl (hw (by simpa [Op.accepts] using hacc)) heap
  | cancel id clientFd =>
    simp only [Exchange.step]
    split
    · rename_i r hr
      exact hx.cancel hr
    · exact hx
  | depart clientFd => exact hx.depart clientFd

/-! ## 6. Runs -/

theorem balanced_init : Balanced Exchange.init := by
  refine ⟨sound_init, ?_, ?_, ?_, ?_, ?_, ?_, ?_⟩
  · simp [Exchange.init]
  · simp [Exchange.init, initOrderbook, LimitOrderBook.orders]
  · simp [Exchange.init]
  · simp [Exchange.init]
  · intro id _
    exact ⟨rfl, rfl⟩
  · simp [Exchange.init]
  · intro pre ord e post h
    simp [Exchange.init] at h

/-- The ledger balances after every run within the range of the ids. -/
theorem after_balanced {ops : List Op} (h : ops.countP Op.accepts < 2 ^ 31) :
    Balanced (Exchange.after ops) :=
  Run.run_invariant_of_meets (fun _ _ hx hw => hx.step hw) ops _
    (meets_noWrap ops Exchange.init (le_refl _) (by simp [Exchange.init]; omega)) balanced_init

/-- **The quantity ledger.**  In every run that accepts fewer than `2 ^ 31` orders, what an
accepted order was submitted with is what was executed of it, what it has resting and what its
cancellation removed; no execution touches an order that is fully executed or cancelled; and a
departure changes neither the log nor what any order has resting. -/
theorem quantity_ledger (ops : List Op) (h : ops.countP Op.accepts < 2 ^ 31) :
    (∀ a, .accepted a ∈ (Exchange.after ops).log →
      a.quantity = executedQuantity (Exchange.after ops).log a.id
        + restingQuantity (Exchange.after ops).orderbook a.id
        + cancelledQuantity (Exchange.after ops).log a.id) ∧
    (∀ a b, .accepted a ∈ (Exchange.after ops).log → .accepted b ∈ (Exchange.after ops).log →
      a.id = b.id → a = b) ∧
    HistoryOk (Exchange.after ops).log ∧
    ∀ fd id, ((Exchange.after ops).depart fd).log = (Exchange.after ops).log ∧
      restingQuantity ((Exchange.after ops).depart fd).orderbook id
        = restingQuantity (Exchange.after ops).orderbook id :=
  ⟨(after_balanced h).balance, fun a b ha hb => (after_balanced h).unique a ha b hb,
    (after_balanced h).history, fun fd id => ⟨rfl, restingQuantity_detach _ fd id⟩⟩

/-- The second seller of `partialFill`: 2 of its 5 were executed and 3 cancelled. -/
theorem quantity_ledger_partialFill :
    (executedQuantity (Exchange.after partialFill).log 1,
      restingQuantity (Exchange.after partialFill).orderbook 1,
      cancelledQuantity (Exchange.after partialFill).log 1) = (2, 0, 3) ∧
    (∀ a, .accepted a ∈ (Exchange.after partialFill).log →
      a.quantity = executedQuantity (Exchange.after partialFill).log a.id
        + restingQuantity (Exchange.after partialFill).orderbook a.id
        + cancelledQuantity (Exchange.after partialFill).log a.id) ∧
    HistoryOk (Exchange.after partialFill).log :=
  have h := quantity_ledger partialFill (by decide)
  ⟨by decide, h.1, h.2.2.1⟩

end SocketExchange
