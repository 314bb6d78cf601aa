/-
# Price levels do not depend on one another

A list of the book holds the orders of one instrument and side at every price, in the order in
which they came.  What belongs together is smaller: the orders at one price, each side a queue
(`queue`).  An order works on the two queues of its own instrument and price, a cancellation on
those of the order it takes out (`addOrder_acts`, `cancel_acts`), so requests at different
levels can come in either order: `levels_commute`.  The lists they leave are different ones.
-/
import SocketExchange.Exchange
import SocketExchange.Lib.Locality

namespace SocketExchange

open Locality

/-! ## 1. Queues and levels -/

/-- The orders of a list at one price, first come first. -/
def queue (book : LimitOrderBook) (head : ListHead) (price : Int) : List Order :=
  (book.get head).filter fun o => decide (o.price = price)

/-- The queues of one instrument at one price. -/
def level (book : LimitOrderBook) (key : Instrument × Int) (head : ListHead) : List Order :=
  if head.instrument = key.1 then queue book head key.2 else []

theorem level_of_instrument {head : ListHead} {key : Instrument × Int}
    (h : head.instrument = key.1) (book : LimitOrderBook) :
    level book key head = queue book head key.2 := if_pos h

theorem queue_eq_level (book : LimitOrderBook) (head : ListHead) (price : Int) :
    queue book head price = level book (head.instrument, price) head := (if_pos rfl).symm

theorem mem_queue {book : LimitOrderBook} {head : ListHead} {price : Int} {o : Order} :
    o ∈ queue book head price ↔ o ∈ book.get head ∧ o.price = price := by
  simp [queue]

/-- Levels are the same when the lists of the instrument have the same queues at the price. -/
theorem level_congr {b c : LimitOrderBook} {key : Instrument × Int}
    (h : ∀ head, head.instrument = key.1 → queue b head key.2 = queue c head key.2) :
    level b key = level c key := by
  funext head
  unfold level
  split
  · exact h head ‹_›
  · rfl

/-! ## 2. The loop at one price -/

/-- The loop leaves the other prices. -/
theorem walk_filter_ne {price : Int} (l : List Order) (w : Walk) (h : price ≠ w.ord.price) :
    (walk l w).1.filter (fun o => decide (o.price = price))
      = l.filter fun o => decide (o.price = price) := by
  induction l generalizing w with
  | nil => rfl
  | cons cur nxt ih =>
    rw [walk]
    split
    · split
      · rename_i hp
        have hcur : ¬ cur.price = price := fun hc => h (hc.symm.trans hp)
        have hrest := ih (execute cur w) (by rw [execute_ord]; exact h)
        dsimp only
        split
        · rw [hrest]
          simp [hcur]
        · simp [hcur, hrest]
      · simp [List.filter_cons, ih w h]
    · rfl

/-- At its own price it is the loop over the queue. -/
theorem walk_filter_eq (price : Int) (l : List Order) (w : Walk) (h : price = w.ord.price) :
    (walk l w).1.filter (fun o => decide (o.price = price))
        = (walk (l.filter fun o => decide (o.price = price)) w).1 ∧
      (walk l w).2 = (walk (l.filter fun o => decide (o.price = price)) w).2 := by
  induction l generalizing w with
  | nil => exact ⟨rfl, rfl⟩
  | cons cur nxt ih =>
    by_cases hq : 0 < w.ord.quantity
    · by_cases hp : cur.price = w.ord.price
      · obtain ⟨ih1, ih2⟩ := ih (execute cur w) (by rw [execute_ord]; exact h)
        rw [List.filter_cons_of_pos (by simp [hp, h]), walk, walk, if_pos hq, if_pos hp, if_pos hq,
          if_pos hp]
        dsimp only
        split
        · exact ⟨ih1, ih2⟩
        · rw [List.filter_cons_of_pos (by simp [hp, h]), ih1]
          exact ⟨rfl, ih2⟩
      · obtain ⟨ih1, ih2⟩ := ih w h
        have hcur : ¬ cur.price = price := fun hc => hp (hc.trans h)
        rw [List.filter_cons_of_neg (by simp [hcur]), walk, if_pos hq, if_neg hp]
        dsimp only
        rw [List.filter_cons_of_neg (by simp [hcur])]
        exact ⟨ih1, ih2⟩
    · rw [walk, if_neg hq]
      cases hl : (cur :: nxt).filter fun o => decide (o.price = price) with
      | nil => exact ⟨rfl, rfl⟩
      | cons o os =>
        rw [walk, if_neg hq]
        exact ⟨rfl, rfl⟩

/-- What the loop leaves does not depend on the memory there is. -/
theorem walk_heap (l : List Order) (w v : Walk) (h : w.ord = v.ord) :
    (walk l w).1 = (walk l v).1 ∧ (walk l w).2.ord = (walk l v).2.ord := by
  induction l generalizing w v with
  | nil => exact ⟨rfl, h⟩
  | cons cur nxt ih =>
    rw [walk, walk, h]
    split
    · split
      · obtain ⟨ih1, ih2⟩ := ih (execute cur w) (execute cur v) (by simp [h])
        dsimp only
        split
        · exact ⟨ih1, ih2⟩
        · rw [ih1]
          exact ⟨rfl, ih2⟩
      · obtain ⟨ih1, ih2⟩ := ih w v h
        dsimp only
        rw [ih1]
        exact ⟨rfl, ih2⟩
    · exact ⟨rfl, h⟩

/-! ## 3. An order works at its own level -/

/-- What is left of a new order that has met the queue. -/
def leftOf (ord : Order) (q : List Order) (heap : List Bool) : Order :=
  (walk q (.start ord heap)).2.ord

/-- **The queues behind an order.** -/
theorem queue_addOrder (book : LimitOrderBook) (ord : Order) (heap : List Bool) (head : ListHead)
    (price : Int) :
    let q := queue book (oppList ord) ord.price
    queue (addOrder book ord heap).book head price
      = (if price = ord.price ∧ head = oppList ord then (walk q (.start ord heap)).1
          else queue book head price) ++
        if (price = ord.price ∧ head = ownList ord) ∧ 0 < (leftOf ord q heap).quantity then
          [leftOf ord q heap] else [] := by
  intro q
  have hne := oppList_ne_ownList ord
  obtain ⟨hlist, hvars⟩ := walk_filter_eq ord.price (book.get (oppList ord)) (.start ord heap) rfl
  have hleft : (walk (book.get (oppList ord)) (.start ord heap)).2.ord = leftOf ord q heap := by
    rw [hvars]
    rfl
  have hprice : (leftOf ord q heap).price = ord.price := by
    rw [leftOf, walk_ord]
    rfl
  have hopp : queue (book.set (oppList ord)
      (walk (book.get (oppList ord)) (.start ord heap)).1) head price
        = if price = ord.price ∧ head = oppList ord then (walk q (.start ord heap)).1
          else queue book head price := by
    unfold queue
    by_cases hh : head = oppList ord
    · subst hh
      rw [LimitOrderBook.get_set_self]
      by_cases hp : price = ord.price
      · rw [if_pos ⟨hp, rfl⟩, hp]
        exact hlist
      · rw [if_neg fun h => hp h.1]
        exact walk_filter_ne _ _ hp
    · rw [LimitOrderBook.get_set_ne hh, if_neg fun h => hh h.2]
  rw [← hopp]
  unfold addOrder
  dsimp only
  rw [hleft]
  by_cases hr : 0 < (leftOf ord q heap).quantity
  · rw [if_pos hr]
    by_cases hh : head = ownList ord
    · subst hh
      unfold queue
      rw [LimitOrderBook.get_set_self, append, List.filter_append]
      by_cases hp : price = ord.price
      · simp [hp, hprice, hr]
      · simp [hp, hprice, Ne.symm hp]
    · unfold queue
      rw [LimitOrderBook.get_set_ne hh]
      simp [hh]
  · simp [hr]

/-- With memory, the fills come from the queue alone. -/
theorem fills_addOrder (book : LimitOrderBook) (ord : Order) {heap : List Bool}
    (hheap : ∀ ok ∈ heap, ok = true) :
    (addOrder book ord heap).fills
      = (served (queue book (oppList ord) ord.price) ord).map (report ord) := by
  have hserved : served (queue book (oppList ord) ord.price) ord
      = served (book.get (oppList ord)) ord := by
    simp only [served, queue, List.filter_filter, Bool.and_self]
  rw [hserved]
  exact walk_fills (book.get (oppList ord)) (.start ord heap) (Nat.zero_le _) hheap

/-- **`addOrder` acts at the level of its order.** -/
theorem addOrder_acts (ord : Order) {heap : List Bool} (hheap : ∀ ok ∈ heap, ok = true) :
    ActsAt level (fun _ => True) (ord.instrument, ord.price)
      fun book => ((addOrder book ord heap).book, (addOrder book ord heap).fills) := by
  constructor
  · rintro book - ⟨inst, price⟩ hkey
    refine level_congr fun head hinst => ?_
    -- not both the instrument and the price are the order's
    have hno : ∀ h : ListHead, h.instrument = ord.instrument →
        ¬ (price = ord.price ∧ head = h) := by
      rintro h hh ⟨hp, rfl⟩
      exact hkey (Prod.ext (hinst.symm.trans hh) hp)
    dsimp only
    rw [queue_addOrder, if_neg (hno _ (oppList_instrument ord)),
      if_neg fun h => hno _ (ownList_instrument ord) h.1, List.append_nil]
  · rintro book book' - - hlevel
    have hqueue : ∀ head : ListHead, head.instrument = ord.instrument →
        queue book head ord.price = queue book' head ord.price := by
      intro head hinst
      have h := congrFun hlevel head
      rwa [level_of_instrument hinst, level_of_instrument hinst] at h
    have hopp := hqueue _ (oppList_instrument ord)
    constructor
    · refine level_congr fun head hinst => ?_
      dsimp only
      rw [queue_addOrder, queue_addOrder, hopp, hqueue head hinst]
    · dsimp only
      rw [fills_addOrder book ord hheap, fills_addOrder book' ord hheap, hopp]

/-- With memory it does not matter which. -/
theorem addOrder_memory (book : LimitOrderBook) (ord : Order) {heap heap' : List Bool}
    (hheap : ∀ ok ∈ heap, ok = true) (hheap' : ∀ ok ∈ heap', ok = true) :
    (addOrder book ord heap).book = (addOrder book ord heap').book ∧
      (addOrder book ord heap).fills = (addOrder book ord heap').fills := by
  constructor
  · obtain ⟨hlist, hord⟩ := walk_heap (book.get (oppList ord)) (.start ord heap)
      (.start ord heap') rfl
    unfold addOrder
    dsimp only
    rw [hlist, hord]
  · rw [fills_addOrder book ord hheap, fills_addOrder book ord hheap']

/-! ## 4. A cancellation works at the level of its order -/

/-- An order with this id can only rest at this level, and only one does. -/
structure Sole (id : Int) (key : Instrument × Int) (book : LimitOrderBook) : Prop where
  placed : Placed book
  once : (book.orders.map Order.id).count id ≤ 1
  located : ∀ o ∈ book.orders, o.id = id → (o.instrument, o.price) = key

theorem filterMap_drop (id : Int) (l : List Order) :
    (l.filterMap fun o => if o.id = id then none else some o)
      = l.filter fun o => decide (o.id ≠ id) := by
  induction l with
  | nil => rfl
  | cons o l ih => by_cases h : o.id = id <;> simp [h, ih]

/-- The queues without an order. -/
theorem queue_drop (book : LimitOrderBook) (id : Int) (head : ListHead) (price : Int) :
    queue (book.filterMap fun o => if o.id = id then none else some o) head price
      = (queue book head price).filter fun o => decide (o.id ≠ id) := by
  rw [queue, get_filterMap, filterMap_drop, List.filter_comm, queue]

theorem Sole.drop {id : Int} {key : Instrument × Int} {book : LimitOrderBook}
    (hb : Sole id key book) :
    Sole id key (book.filterMap fun o => if o.id = id then none else some o) := by
  have hmem : ∀ o ∈ (book.filterMap fun o => if o.id = id then none else some o).orders,
      o ∈ book.orders := by
    intro o ho
    rw [orders_filterMap, filterMap_drop] at ho
    exact List.mem_of_mem_filter ho
  constructor
  · intro head o ho
    rw [get_filterMap, filterMap_drop] at ho
    exact hb.placed head o (List.mem_of_mem_filter ho)
  · rw [orders_filterMap, filterMap_drop]
    exact ((List.filter_sublist.map Order.id).count_le id).trans hb.once
  · exact fun o ho => hb.located o (hmem o ho)

/-- What a cancellation finds at its level it finds in every book with that level. -/
theorem Sole.cancel_of_level {id fd : Int} {key : Instrument × Int} {b c : LimitOrderBook}
    (hb : Sole id key b) (hc : Sole id key c) (hlevel : level b key = level c key)
    {r : Order × LimitOrderBook} (h : cancelOrder b id fd = some r) :
    ∃ r', cancelOrder c id fd = some r' ∧ r'.1 = r.1 ∧ level r.2 key = level r'.2 key := by
  obtain ⟨hmem, hid, hfd, hr⟩ := hb.placed.cancel_eq_filterMap hb.once h
  obtain ⟨head, hget⟩ := LimitOrderBook.mem_orders.mp hmem
  have hkey := hb.located _ hmem hid
  have hinst : head.instrument = key.1 :=
    (hb.placed head _ hget).1.symm.trans (congrArg Prod.fst hkey)
  -- the order rests in the other book
  have hsame : r.1 ∈ c.get head := by
    have hq : r.1 ∈ level b key head := by
      rw [level_of_instrument hinst, mem_queue]
      exact ⟨hget, congrArg Prod.snd hkey⟩
    rw [hlevel, level_of_instrument hinst, mem_queue] at hq
    exact hq.1
  cases h' : cancelOrder c id fd with
  | none =>
    have hnone := cancelOrder_eq_none.mp h' _ (mem_orders_of_mem_get hsame)
    exact absurd ⟨hid, hfd⟩ hnone
  | some r' =>
    obtain ⟨hmem', hid', -, hr'⟩ := hc.placed.cancel_eq_filterMap hc.once h'
    have hone : r'.1 = r.1 :=
      eq_of_count_map_le_one hc.once hmem' (mem_orders_of_mem_get hsame) hid' hid
    refine ⟨r', rfl, hone, ?_⟩
    rw [hr, hr']
    refine level_congr fun head' hinst' => ?_
    have hq := congrFun hlevel head'
    rw [level_of_instrument hinst', level_of_instrument hinst'] at hq
    rw [queue_drop, queue_drop, hq]

/-- A cancellation, with the order it took out. -/
def cancelled (id fd : Int) (book : LimitOrderBook) : LimitOrderBook × Option Order :=
  match cancelOrder book id fd with
  | some r => (r.2, some r.1)
  | none => (book, none)

/-- **`cancelOrder` acts at the level of the order with the id.** -/
theorem cancel_acts (id fd : Int) (key : Instrument × Int) :
    ActsAt level (Sole id key) key (cancelled id fd) := by
  constructor
  · rintro book hb ⟨inst, price⟩ hne
    unfold cancelled
    cases h : cancelOrder book id fd with
    | none => rfl
    | some r =>
      obtain ⟨-, -, -, hr⟩ := hb.placed.cancel_eq_filterMap hb.once h
      dsimp only
      rw [hr]
      refine level_congr fun head hinst => ?_
      rw [queue_drop, List.filter_eq_self]
      rintro o ho
      rw [decide_eq_true_iff]
      rintro hid
      obtain ⟨hget, hp⟩ := mem_queue.mp ho
      have hkey := hb.located o (mem_orders_of_mem_get hget) hid
      have hi : inst = o.instrument := hinst.symm.trans (hb.placed head o hget).1.symm
      exact hne (hkey ▸ Prod.ext hi hp.symm)
  · rintro b c hb hc hlevel
    unfold cancelled
    cases h : cancelOrder b id fd with
    | some r =>
      obtain ⟨r', h', hone, hl⟩ := hb.cancel_of_level hc hlevel h
      rw [h']
      exact ⟨hl, congrArg some hone.symm⟩
    | none =>
      cases h' : cancelOrder c id fd with
      | none => exact ⟨hlevel, rfl⟩
      | some r' =>
        obtain ⟨r, hr, -⟩ := hc.cancel_of_level hb hlevel.symm h'
        rw [h] at hr
        cases hr

/-! ## 5. Independent requests -/

/-- The order of a well-formed book a cancellation takes out is where its id can rest. -/
theorem WellFormed.sole {book : LimitOrderBook} (hb : WellFormed book) {id fd : Int}
    {r : Order × LimitOrderBook} (h : cancelOrder book id fd = some r) :
    Sole id (r.1.instrument, r.1.price) book := by
  obtain ⟨hmem, hid, -, -⟩ := hb.cancel_eq_filterMap h
  refine ⟨hb.placed, List.nodup_iff_count_le_one.mp hb.once id, fun o ho hoid => ?_⟩
  rw [hb.eq_of_id ho hmem (hoid.trans hid.symm)]

/-- It is so behind an order with another id. -/
theorem WellFormed.sole_addOrder {book : LimitOrderBook} (hb : WellFormed book) {id : Int}
    {key : Instrument × Int} (hsole : Sole id key book) {ord : Order}
    (hid : ord.id ≠ id) (heap : List Bool) :
    Sole id key (SocketExchange.addOrder book ord heap).book := by
  have hpos : ∀ o ∈ book.orders, 0 < o.quantity := fun o ho => (hb.positive o ho).1
  have hfrom : ∀ {head o'}, o' ∈ (SocketExchange.addOrder book ord heap).book.get head →
      (∃ o ∈ book.get head, Remnant o o') ∨ head = ownList ord ∧ Remnant ord o' :=
    fun h => addOrder_remnant hpos ord heap h
  constructor
  · intro head o' ho'
    rcases hfrom ho' with ⟨o, ho, hrem, -⟩ | ⟨rfl, hrem, -⟩
    · rw [hrem]
      exact hb.placed head o ho
    · rw [hrem]
      exact ⟨(ownList_instrument ord).symm, (ownList_side ord).symm⟩
  · have hsub := (hb.keeps_settle ord).map_id_sublist
    have hids : ((book.filterMap (settle (executions book ord))).orders.map Order.id).count id
        ≤ 1 := by
      rw [orders_filterMap]
      exact (hsub.count_le id).trans hsole.once
    rw [hb.addOrder_book]
    split
    · rw [((orders_place_perm _ _).map Order.id).count_eq, List.map_cons,
        List.count_cons_of_ne hid]
      exact hids
    · exact hids
  · intro o' ho' hoid
    obtain ⟨head, hget⟩ := LimitOrderBook.mem_orders.mp ho'
    rcases hfrom hget with ⟨o, ho, hrem, -⟩ | ⟨-, hrem, -⟩
    · rw [hrem] at hoid ⊢
      exact hsole.located o (mem_orders_of_mem_get ho) hoid
    · rw [hrem] at hoid
      exact absurd hoid hid

/-- **Requests at different levels commute.**  Two orders that differ in instrument or in price
get the same fills whichever comes first, and leave the same queue for every instrument, side
and price.  So do a new order and a cancellation of an order at another level. -/
theorem levels_commute {book : LimitOrderBook} (hb : WellFormed book) :
    (∀ a b : Order, a.instrument ≠ b.instrument ∨ a.price ≠ b.price →
      ∀ ma mb ma' mb' : List Bool, (∀ ok ∈ ma ++ mb ++ ma' ++ mb', ok = true) →
        let ab := addOrder (addOrder book a ma).book b mb
        let ba := addOrder (addOrder book b mb').book a ma'
        (addOrder book a ma).fills = ba.fills ∧ ab.fills = (addOrder book b mb').fills ∧
          ∀ head price, queue ab.book head price = queue ba.book head price) ∧
      ∀ (ord : Order) (id fd : Int) (r : Order × LimitOrderBook),
        cancelOrder book id fd = some r → ord.id ≠ id →
        r.1.instrument ≠ ord.instrument ∨ r.1.price ≠ ord.price →
        ∀ heap heap' : List Bool, (∀ ok ∈ heap ++ heap', ok = true) →
          ∃ r', cancelOrder (addOrder book ord heap).book id fd = some r' ∧ r'.1 = r.1 ∧
            (addOrder r.2 ord heap').fills = (addOrder book ord heap).fills ∧
            ∀ head price,
              queue r'.2 head price = queue (addOrder r.2 ord heap').book head price := by
  have hkeys : ∀ {a b : Order}, a.instrument ≠ b.instrument ∨ a.price ≠ b.price →
      (a.instrument, a.price) ≠ (b.instrument, b.price) := by
    rintro a b hdiff heq
    exact hdiff.elim (fun h => h (congrArg Prod.fst heq)) fun h => h (congrArg Prod.snd heq)
  constructor
  · rintro a b hdiff ma mb ma' mb' hheap ab ba
    simp only [List.mem_append, or_imp, forall_and] at hheap
    obtain ⟨⟨⟨hma, hmb⟩, hma'⟩, hmb'⟩ := hheap
    obtain ⟨hfa, hfb, hlevels⟩ := (addOrder_acts a hma).commute (addOrder_acts b hmb) (hkeys hdiff)
      (s := book) trivial trivial trivial
    dsimp only at hfa hfb hlevels
    -- which memory succeeds does not matter
    obtain ⟨hbook, hfills⟩ := addOrder_memory book b hmb' hmb
    obtain ⟨hbook', hfills'⟩ := addOrder_memory (addOrder book b mb).book a hma' hma
    have hba : ba.book = (addOrder (addOrder book b mb).book a ma).book ∧
        ba.fills = (addOrder (addOrder book b mb).book a ma).fills := by
      rw [← hbook', ← hfills', ← hbook]
      exact ⟨rfl, rfl⟩
    refine ⟨hfa.symm.trans hba.2.symm, hfb.trans hfills.symm, fun head price => ?_⟩
    rw [hba.1, queue_eq_level, queue_eq_level, hlevels]
  · rintro ord id fd r hcancel hnew hdiff heap heap' hheap
    simp only [List.mem_append, or_imp, forall_and] at hheap
    obtain ⟨hh, hh'⟩ := hheap
    obtain ⟨-, -, -, hr⟩ := hb.cancel_eq_filterMap hcancel
    have hsole := hb.sole hcancel
    have hg : cancelled id fd book = (r.2, some r.1) := by
      unfold cancelled
      rw [hcancel]
    have hsole' : Sole id (r.1.instrument, r.1.price) (cancelled id fd book).1 := by
      rw [hg, hr]
      exact hsole.drop
    obtain ⟨hfills, hsome, hlevels⟩ := ((addOrder_acts ord hh).mono fun _ _ => trivial).commute
      (cancel_acts id fd (r.1.instrument, r.1.price)) (hkeys hdiff).symm (s := book) hsole
      (hb.sole_addOrder hsole hnew heap) hsole'
    rw [hg] at hfills hsome hlevels
    dsimp only at hfills hsome hlevels
    obtain ⟨hbook, hfills'⟩ := addOrder_memory r.2 ord hh' hh
    unfold cancelled at hsome hlevels
    cases h : cancelOrder (addOrder book ord heap).book id fd with
    | none =>
      rw [h] at hsome
      cases hsome
    | some r' =>
      rw [h] at hsome hlevels
      refine ⟨r', rfl, Option.some.inj hsome, hfills'.trans hfills, fun head price => ?_⟩
      rw [hbook, queue_eq_level, queue_eq_level, ← hlevels]

/-- A buyer of JNST at 10 and a seller at 9, behind two sellers at 10; and the second of those
cancelled behind the seller at 9. -/
theorem levels_commute_two_sellers :
    (∀ head price,
      queue (addOrder (addOrder twoSellers (buyer 7) []).book
          { buyer 4 with id := 3, price := 9, type := .sell } []).book head price
        = queue (addOrder (addOrder twoSellers { buyer 4 with id := 3, price := 9, type := .sell }
          []).book (buyer 7) []).book head price) ∧
      ∃ r', cancelOrder (addOrder twoSellers { buyer 4 with price := 9, type := .sell } []).book 1 6
        = some r' ∧ r'.1.quantity = 5 := by
  have hb : WellFormed twoSellers := by decide
  obtain ⟨horders, hcancels⟩ := levels_commute hb
  obtain ⟨-, -, hqueues⟩ := horders (buyer 7) { buyer 4 with id := 3, price := 9, type := .sell }
    (by decide) [] [] [] [] (by decide)
  obtain ⟨r', hr', hsame, -⟩ := hcancels { buyer 4 with price := 9, type := .sell } 1 6
    _ rfl (by decide) (by decide) [] [] (by decide)
  exact ⟨hqueues, r', hr', by rw [hsame]⟩

end SocketExchange
