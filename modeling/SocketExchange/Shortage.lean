/-
# Fills when memory is short

`addOrder` grows the array of fills while it matches, and goes on matching when a growth fails:
the book has changed by then and the fill is not written.  Here is exactly when that happens.

The array has room for 0, 16, 32, 64, … fills (`room`), so its `i`-th growth is asked for when
there is an execution behind the first `room i` ones.  Whether there is can be read off the book
and the new order (`MustGrow`), and `walk_fills_full` says that every fill is written exactly if
each growth that is asked for succeeds.  A growth that fails is asked for again by the next
execution, but the fill it was asked for is lost.
-/
import SocketExchange.Ledger

namespace SocketExchange

/-! ## 1. The room of the array -/

/-- The capacity after `i` growths. -/
def room : Nat → Nat
  | 0 => 0
  | i + 1 => fillsInitialCapacity * 2 ^ i

/-- The source's next capacity. -/
theorem room_succ (j : Nat) :
    (if room j = 0 then fillsInitialCapacity else room j * 2) = room (j + 1) := by
  cases j with
  | zero => rfl
  | succ j =>
    have hpos : room (j + 1) ≠ 0 := Nat.mul_ne_zero (by decide) (Nat.ne_of_gt (Nat.two_pow_pos j))
    rw [if_neg hpos, room, room, mul_assoc, pow_succ]

theorem room_lt_succ (j : Nat) : room j < room (j + 1) := by
  rw [← room_succ]
  split
  · rename_i h
    rw [h]
    decide
  · omega

theorem room_mono : Monotone room := monotone_nat_of_le_succ fun j => le_of_lt (room_lt_succ j)

theorem alloc_eq (heap : List Bool) :
    ((alloc heap).1 = true ↔ heap[0]? ≠ some false) ∧ ∀ i, (alloc heap).2[i]? = heap[i + 1]? := by
  cases heap with
  | nil => simp [alloc]
  | cons ok heap => cases ok <;> simp [alloc]

/-- **One execution**: there is room, or the array grows, or it does not and the fill is lost. -/
theorem execute_cases {w : Walk} {j : Nat} (hcap : w.cap = room j) (cur : Order) :
    let fill := fillOf w.ord cur (min w.ord.quantity cur.quantity)
    let r := execute cur w
    (w.fills.length < room j → r.fills = w.fills ++ [fill] ∧ r.cap = room j ∧ r.heap = w.heap) ∧
      (w.fills.length = room j → (alloc w.heap).1 = true →
        r.fills = w.fills ++ [fill] ∧ r.cap = room (j + 1) ∧ r.heap = (alloc w.heap).2) ∧
      (w.fills.length = room j → (alloc w.heap).1 = false →
        r.fills = w.fills ∧ r.cap = room j ∧ r.heap = (alloc w.heap).2) := by
  intro fill r
  have hlt := room_lt_succ j
  have hr : r = execute cur w := rfl
  unfold execute growFills at hr
  dsimp only at hr
  rw [hcap, room_succ] at hr
  refine ⟨fun h => ?_, fun h hok => ?_, fun h hok => ?_⟩
  · rw [if_neg (by omega)] at hr
    unfold recordFill at hr
    dsimp only at hr
    rw [if_pos h, fillOf_quantity, tradeQuantity_eq_min] at hr
    rw [hr]
    exact ⟨rfl, rfl, rfl⟩
  · rw [if_pos h, if_pos hok] at hr
    unfold recordFill at hr
    dsimp only at hr
    rw [if_pos (by omega), fillOf_quantity, tradeQuantity_eq_min] at hr
    rw [hr]
    exact ⟨rfl, rfl, rfl⟩
  · rw [if_pos h, if_neg (by simp [hok])] at hr
    unfold recordFill at hr
    dsimp only at hr
    rw [if_neg (by omega)] at hr
    rw [hr]
    exact ⟨rfl, rfl, rfl⟩

/-! ## 2. What the loop writes -/

/-- The fills of an execution, then those behind it. -/
theorem walk_execute {cur : Order} {nxt : List Order} {w : Walk} (hq : 0 < w.ord.quantity)
    (hp : cur.price = w.ord.price) :
    (walk (cur :: nxt) w).2 = (walk nxt (execute cur w)).2 := by
  rw [walk, if_pos hq, if_pos hp]
  dsimp only
  split <;> rfl

theorem walk_pass {cur : Order} {nxt : List Order} {w : Walk} (hq : 0 < w.ord.quantity)
    (hp : ¬ cur.price = w.ord.price) : (walk (cur :: nxt) w).2 = (walk nxt w).2 := by
  rw [walk, if_pos hq, if_neg hp]

/-- **Nothing but executions is reported**, each once at most and in order. -/
theorem walk_fills_sublist : ∀ (l : List Order) (w : Walk),
    (walk l w).2.fills.Sublist (w.fills ++ (served l w.ord).map (report w.ord))
  | [], w => by simp [walk, served]
  | cur :: nxt, w => by
    by_cases hq : 0 < w.ord.quantity
    · by_cases hp : cur.price = w.ord.price
      · have ih := walk_fills_sublist nxt (execute cur w)
        rw [execute_ord, List.map_congr_left (fun e _ => report_quantity _ _ e)] at ih
        rw [walk_execute hq hp, served_cons_eq nxt hq hp, List.map_cons, ← fillOf_eq_report hp]
        have hone : (execute cur w).fills.Sublist
            (w.fills ++ [fillOf w.ord cur (min w.ord.quantity cur.quantity)]) := by
          unfold execute recordFill
          dsimp only
          split
          · simp only [growFills_fills, growFills_ord, fillOf_quantity, tradeQuantity_eq_min]
            exact List.Sublist.refl _
          · rw [growFills_fills]
            exact List.sublist_append_left _ _
        refine ih.trans ?_
        rw [← List.singleton_append, ← List.append_assoc]
        exact hone.append_right _
      · rw [walk_pass hq hp, served_cons_ne nxt hp]
        exact walk_fills_sublist nxt w
    · rw [walk, if_neg hq]
      exact List.sublist_append_left _ _

/-- **Every fill is written if and only if each growth that is asked for succeeds.** -/
theorem walk_fills_full : ∀ (l : List Order) (w : Walk) (j : Nat), w.cap = room j →
    w.fills.length ≤ room j →
    ((walk l w).2.fills.length = w.fills.length + (served l w.ord).length ↔
      ∀ i, room (j + i) < w.fills.length + (served l w.ord).length → w.heap[i]? ≠ some false)
  | [], w, j, _, hlen => by
    have hno : ∀ i, ¬ room (j + i) < w.fills.length := fun i => by
      have := room_mono (Nat.le_add_right j i)
      omega
    simp [walk, served, hno]
  | cur :: nxt, w, j, hcap, hlen => by
    by_cases hq : 0 < w.ord.quantity
    · by_cases hp : cur.price = w.ord.price
      · have hserved : (served (cur :: nxt) w.ord).length
            = (served nxt (execute cur w).ord).length + 1 := by
          rw [served_cons_eq nxt hq hp, execute_ord, List.length_cons]
        obtain ⟨hroom, hgrown, hlost⟩ := execute_cases hcap cur
        obtain ⟨halloc, hrest⟩ := alloc_eq w.heap
        rw [walk_execute hq hp, hserved]
        rcases hlen.lt_or_eq with hlt | heq
        · -- there is room
          obtain ⟨hf, hc, hh⟩ := hroom hlt
          have ih := walk_fills_full nxt (execute cur w) j hc (by simp [hf]; omega)
          rw [hf, hh, List.length_append, List.length_singleton] at ih
          rw [show w.fills.length + ((served nxt (execute cur w).ord).length + 1)
            = w.fills.length + 1 + (served nxt (execute cur w).ord).length by omega]
          exact ih
        · cases hok : (alloc w.heap).1 with
          | true =>
            obtain ⟨hf, hc, hh⟩ := hgrown heq hok
            have hlt := room_lt_succ j
            have ih := walk_fills_full nxt (execute cur w) (j + 1) hc (by simp [hf]; omega)
            rw [hf, hh, List.length_append, List.length_singleton] at ih
            rw [show w.fills.length + ((served nxt (execute cur w).ord).length + 1)
              = w.fills.length + 1 + (served nxt (execute cur w).ord).length by omega, ih]
            constructor
            · intro h i hi
              cases i with
              | zero => exact halloc.mp hok
              | succ i =>
                rw [← hrest]
                exact h i (by rwa [show j + 1 + i = j + (i + 1) by omega])
            · intro h i hi
              rw [hrest]
              exact h (i + 1) (by rwa [show j + (i + 1) = j + 1 + i by omega])
          | false =>
            -- the fill is lost, and nothing makes up for it
            obtain ⟨hf, -, -⟩ := hlost heq hok
            have hle := (walk_fills_sublist nxt (execute cur w)).length_le
            rw [hf, List.length_append, List.length_map] at hle
            refine iff_of_false (by omega) fun h => ?_
            have h0 := h 0 (by rw [Nat.add_zero]; omega)
            rw [halloc.mpr h0] at hok
            cases hok
      · rw [walk_pass hq hp, served_cons_ne nxt hp]
        exact walk_fills_full nxt w j hcap hlen
    · have hno : ∀ i, ¬ room (j + i) < w.fills.length := fun i => by
        have := room_mono (Nat.le_add_right j i)
        omega
      rw [walk, if_neg hq, served_of_nonpos _ (not_lt.mp hq)]
      simp [hno]

/-! ## 3. What the book loses -/

/-- The quantity order `id` has in one list. -/
def quantityIn (l : List Order) (id : Int) : Int :=
  ((l.filter fun o => decide (o.id = id)).map Order.quantity).sum

theorem quantityIn_append (l m : List Order) (id : Int) :
    quantityIn (l ++ m) id = quantityIn l id + quantityIn m id := by
  simp [quantityIn]

theorem quantityIn_cons (o : Order) (l : List Order) (id : Int) :
    quantityIn (o :: l) id = (if o.id = id then o.quantity else 0) + quantityIn l id := by
  unfold quantityIn
  by_cases h : o.id = id <;> simp [h]

theorem quantityIn_of_not_mem {l : List Order} {id : Int} (h : id ∉ l.map Order.id) :
    quantityIn l id = 0 := by
  have hnone : (l.filter fun o => decide (o.id = id)) = [] :=
    List.filter_eq_nil_iff.mpr fun o ho hid =>
      h (of_decide_eq_true hid ▸ List.mem_map_of_mem ho)
  rw [quantityIn, hnone]
  rfl

theorem restingQuantity_set (book : LimitOrderBook) (head : ListHead) (l : List Order) (id : Int) :
    restingQuantity (book.set head l) id
      = restingQuantity book id - quantityIn (book.get head) id + quantityIn l id := by
  have hsum : ∀ b : LimitOrderBook, restingQuantity b id
      = quantityIn b.jnstBuyOrders id + quantityIn b.jnstSellOrders id
        + quantityIn b.imctBuyOrders id + quantityIn b.imctSellOrders id := fun b => by
    simp only [← quantityIn_append]
    rfl
  rw [hsum, hsum]
  cases head <;> simp only [LimitOrderBook.set, LimitOrderBook.get] <;> omega

/-- Settling takes from a list what was traded with its orders. -/
theorem quantityIn_settle (es : List Execution) (id : Int) : ∀ l : List Order,
    (l.map Order.id).Nodup → quantityIn (l.filterMap (settle es)) id
      = if id ∈ l.map Order.id then quantityIn l id - tradedWith es id else 0
  | [], _ => rfl
  | o :: l, hnd => by
    rw [List.map_cons, List.nodup_cons] at hnd
    have ih := quantityIn_settle es id l hnd.2
    have hhead : quantityIn ((o :: l).filterMap (settle es)) id
        = (if o.id = id then o.quantity - tradedWith es o.id else 0)
          + quantityIn (l.filterMap (settle es)) id := by
      rw [List.filterMap_cons]
      cases hs : settle es o with
      | none =>
        have hz : o.quantity - tradedWith es o.id = 0 := by
          unfold settle at hs
          split at hs
          · assumption
          · cases hs
        simp [hz]
      | some o' =>
        unfold settle at hs
        split at hs
        · cases hs
        · cases hs
          exact quantityIn_cons _ _ _
    rw [hhead, ih, quantityIn_cons]
    by_cases h : o.id = id
    · rw [h] at hnd
      rw [if_pos h, if_pos h, if_neg hnd.1, if_pos (by simp [h]), h, quantityIn_of_not_mem hnd.1]
      omega
    · simp [h, Ne.symm h]

/-- **What a new order takes**, from each resting order and in all, whatever memory there is. -/
theorem taken_eq {book : LimitOrderBook} (hpos : ∀ o ∈ book.orders, 0 < o.quantity)
    (hone : (book.orders.map Order.id).Nodup) {ord : Order} (hq : 0 < ord.quantity)
    (hnew : ∀ o ∈ book.orders, o.id ≠ ord.id) (heap : List Bool) :
    let es := served (book.get (oppList ord)) ord
    (∀ o ∈ book.orders, tradedWith es o.id
        = o.quantity - restingQuantity (addOrder book ord heap).book o.id) ∧
      tradedTotal es = ord.quantity - restingQuantity (addOrder book ord heap).book ord.id := by
  intro es
  have hndl : ((book.get (oppList ord)).map Order.id).Nodup :=
    hone.sublist ((get_sublist_orders book _).map _)
  have hposl : ∀ o ∈ book.get (oppList ord), 0 < o.quantity :=
    fun o ho => hpos o (mem_orders_of_mem_get ho)
  obtain ⟨h1, h2, -⟩ := walk_spec _ (.start ord heap) hndl hposl
  have hleft : 0 ≤ ord.quantity - tradedTotal es := by
    have hle : Fifo.total (Fifo.allocate Order.quantity ord.quantity
        ((book.get (oppList ord)).filter fun o => decide (o.price = ord.price))) ≤ ord.quantity :=
      Fifo.total_le Order.quantity (le_of_lt hq) fun o ho => hposl o (List.mem_of_mem_filter ho)
    have hes : tradedTotal es = Fifo.total (Fifo.allocate Order.quantity ord.quantity
        ((book.get (oppList ord)).filter fun o => decide (o.price = ord.price))) :=
      tradedTotal_map _
    omega
  have hother : ∀ id, id ∉ (book.get (oppList ord)).map Order.id → tradedWith es id = 0 :=
    fun id hid => tradedWith_of_not_mem fun e he h =>
      hid (h ▸ List.mem_map_of_mem (served_resting_mem he).1)
  -- one id: what rests behind is what rested, less what was traded, and the new order's rest
  have hbook : ∀ id, restingQuantity (addOrder book ord heap).book id
      = restingQuantity book id - tradedWith es id
        + if ord.id = id then ord.quantity - tradedTotal es else 0 := by
    intro id
    have hwalked : restingQuantity (book.set (oppList ord)
        (walk (book.get (oppList ord)) (.start ord heap)).1) id
          = restingQuantity book id - tradedWith es id := by
      rw [restingQuantity_set, h1, quantityIn_settle _ _ _ hndl]
      split
      · rw [show served (book.get (oppList ord)) (Walk.start ord heap).ord = es from rfl]
        omega
      · rename_i hid
        rw [hother id hid, quantityIn_of_not_mem hid]
        omega
    unfold addOrder
    dsimp only
    rw [h2]
    dsimp only
    rw [show served (book.get (oppList ord)) (Walk.start ord heap).ord = es from rfl,
      show (Walk.start ord heap).ord = ord from rfl]
    split
    · rw [restingQuantity_set, hwalked, append, quantityIn_append, quantityIn_cons]
      simp only [quantityIn, List.filter_nil, List.map_nil, List.sum_nil]
      omega
    · rw [hwalked]
      split <;> omega
  refine ⟨fun o ho => ?_, ?_⟩
  · rw [hbook, if_neg (hnew o ho).symm, restingQuantity, filter_id_of_nodup hone ho]
    simp
  · have hzero : tradedWith es ord.id = 0 := tradedWith_of_not_mem fun e he =>
      hnew _ (mem_orders_of_mem_get (served_resting_mem he).1)
    rw [hbook, if_pos rfl, restingQuantity_of_not_mem hnew, hzero]
    omega

/-! ## 4. What is reported -/

/-- The resting orders a new one can trade with, as it comes by them. -/
def counterparts (book : LimitOrderBook) (ord : Order) : List Order :=
  (book.get (oppList ord)).filter fun o => decide (o.price = ord.price)

/-- The `i`-th growth is asked for: there are more than `room i` counterparts, and the first
`room i` of them have less than the new order wants. -/
def MustGrow (book : LimitOrderBook) (ord : Order) (i : Nat) : Prop :=
  room i < (counterparts book ord).length ∧
    (((counterparts book ord).take (room i)).map Order.quantity).sum < ord.quantity

/-- **The fills account for what was taken.**  They are the reports of executions against
resting orders which come to what each resting order has less and to what the new order has
less. -/
structure Accounts (book : LimitOrderBook) (ord : Order) (r : Added) (es : List Execution) :
    Prop where
  reports : r.fills = es.map (report ord)
  resting : ∀ e ∈ es, e.resting ∈ book.orders
  /-- for each resting order, the sum of the fills against it -/
  each : ∀ o ∈ book.orders, tradedWith es o.id = o.quantity - restingQuantity r.book o.id
  /-- the sum of all fills -/
  total : (r.fills.map Fill.quantity).sum = ord.quantity - restingQuantity r.book ord.id

theorem report_total (ord : Order) (es : List Execution) :
    ((es.map (report ord)).map Fill.quantity).sum = tradedTotal es := by
  rw [List.map_map]
  rfl

/-- Less than all of a list of positive quantities is less in sum. -/
theorem eq_of_sublist_of_sum {l m : List Fill} (h : l.Sublist m) (hpos : ∀ f ∈ m, 0 < f.quantity)
    (hsum : (l.map Fill.quantity).sum = (m.map Fill.quantity).sum) : l = m := by
  have hle : ∀ {l m : List Fill}, l.Sublist m → (∀ f ∈ m, 0 < f.quantity) →
      (l.map Fill.quantity).sum ≤ (m.map Fill.quantity).sum := by
    intro l m h hpos
    refine (h.map Fill.quantity).sum_le_sum fun q hq => ?_
    obtain ⟨f, hf, rfl⟩ := List.mem_map.mp hq
    exact le_of_lt (hpos f hf)
  induction h with
  | slnil => rfl
  | @cons l m f h _ =>
    -- `f` is missing
    have hrest := hle h fun g hg => hpos g (List.mem_cons_of_mem _ hg)
    have hf := hpos f List.mem_cons_self
    rw [List.map_cons, List.sum_cons] at hsum
    omega
  | @cons_cons l m f h ih =>
    rw [List.map_cons, List.map_cons, List.sum_cons, List.sum_cons] at hsum
    rw [ih (fun g hg => hpos g (List.mem_cons_of_mem _ hg)) (by omega)]

/-- **Executions are reported as far as the array could grow.**  In a book in which every order
has something left and an id of its own, the fills account for what a new order takes if and
only if each growth of the array that is asked for succeeds. -/
theorem executions_reported {book : LimitOrderBook} (hpos : ∀ o ∈ book.orders, 0 < o.quantity)
    (hone : (book.orders.map Order.id).Nodup) {ord : Order} (hq : 0 < ord.quantity)
    (hnew : ∀ o ∈ book.orders, o.id ≠ ord.id) (heap : List Bool) :
    (∃ es, Accounts book ord (addOrder book ord heap) es) ↔
      ∀ i, MustGrow book ord i → heap[i]? ≠ some false := by
  have hposl : ∀ o ∈ counterparts book ord, 0 < o.quantity := fun o ho =>
    hpos o (mem_orders_of_mem_get (List.mem_of_mem_filter ho))
  obtain ⟨heach, htotal⟩ := taken_eq hpos hone hq hnew heap
  set es := served (book.get (oppList ord)) ord with hes
  have hgrow : ∀ i, MustGrow book ord i ↔ room i < es.length := fun i => by
    rw [hes, served, List.length_map]
    exact (Fifo.lt_length_allocate Order.quantity hposl).symm
  have hfull := walk_fills_full (book.get (oppList ord)) (.start ord heap) 0 rfl (Nat.zero_le _)
  have hsub : (addOrder book ord heap).fills.Sublist (es.map (report ord)) :=
    walk_fills_sublist (book.get (oppList ord)) (.start ord heap)
  have hreports : ∀ f ∈ es.map (report ord), 0 < f.quantity := by
    intro f hf
    obtain ⟨e, he, rfl⟩ := List.mem_map.mp hf
    obtain ⟨x, hx, rfl⟩ := List.mem_map.mp he
    exact (Fifo.amount_bounds Order.quantity hposl x hx).1
  have hiff : (addOrder book ord heap).fills = es.map (report ord) ↔
      ∀ i, MustGrow book ord i → heap[i]? ≠ some false := by
    have hlen : (addOrder book ord heap).fills = es.map (report ord) ↔
        (addOrder book ord heap).fills.length = es.length :=
      ⟨fun h => by rw [h, List.length_map], fun h => hsub.eq_of_length (by rw [h, List.length_map])⟩
    simp only [Walk.start, List.length_nil, Nat.zero_add, ← hes] at hfull
    rw [hlen]
    simp only [hgrow]
    exact hfull
  rw [← hiff]
  constructor
  · rintro ⟨fs, h⟩
    refine eq_of_sublist_of_sum hsub hreports ?_
    rw [h.total, ← htotal, report_total]
  · intro h
    exact ⟨es, h, fun e he => mem_orders_of_mem_get (served_resting_mem he).1, heach,
      by rw [h, report_total, htotal]⟩

theorem executions_reported_two_sellers :
    ∃ es, Accounts twoSellers (buyer 7) (addOrder twoSellers (buyer 7) [true, false]) es := by
  refine (executions_reported (by decide) (by decide) (by decide) (by decide) _).mpr fun i h => ?_
  cases i with
  | zero => decide
  | succ i =>
    have hroom := room_mono (Nat.le_add_left 1 i)
    exact absurd (lt_of_le_of_lt hroom h.1) (by decide)

/-- The first growth fails: the fill of 5 is lost, and the fill of 2 behind it is written. -/
theorem execution_unreported :
    ((addOrder twoSellers (buyer 7) [false]).fills.map Fill.quantity = [2] ∧
      restingQuantity (addOrder twoSellers (buyer 7) [false]).book 0 = 0) ∧
      ¬ ∃ es, Accounts twoSellers (buyer 7) (addOrder twoSellers (buyer 7) [false]) es :=
  ⟨by decide, fun ⟨_, h⟩ => absurd h.total (by decide)⟩

end SocketExchange
