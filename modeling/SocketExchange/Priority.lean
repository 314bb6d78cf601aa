/-
# Time priority over the whole history

`PriceTime` says whom one call of `addOrder` serves.  Here is what the log of a run shows of
it: when a resting order trades, every order of its list and price that was accepted before it
is used up: all of it has been traded or cancelled by then, down to the entry of the log.  No
later order overtakes an earlier one, however the calls, the cancellations and the departures
of the submitters lie between the two.

The ledger says how much of an order is left; what is missing is that an order rests under the
instrument, the side and the price it was accepted with (`Prioritised.kept`), so that an
older order of the same list and price that still rests is met by the same call.
-/
import SocketExchange.OrderIds

namespace SocketExchange

open CText

/-! ## 1. What the history says -/

/-- Two orders queue for the same counterparties. -/
def SameQueue (a b : Order) : Prop :=
  a.instrument = b.instrument ∧ a.type = b.type ∧ a.price = b.price

instance (a b : Order) : Decidable (SameQueue a b) := by
  unfold SameQueue; infer_instance

theorem SameQueue.symm {a b : Order} (h : SameQueue a b) : SameQueue b a :=
  ⟨h.1.symm, h.2.1.symm, h.2.2.symm⟩

theorem SameQueue.trans {a b c : Order} (h : SameQueue a b) (h' : SameQueue b c) :
    SameQueue a c := ⟨h.1.trans h'.1, h.2.1.trans h'.2.1, h.2.2.trans h'.2.2⟩

/-- Who queues with an order the new one crosses, is crossed too. -/
theorem SameQueue.crosses {a b c : Order} (h : SameQueue b c) (hc : Crosses a c) : Crosses a b :=
  ⟨h.1.trans hc.1, fun ht => hc.2.1 (h.2.1.symm.trans ht), h.2.2.trans hc.2.2⟩

/-- Whoever was accepted before a resting order that trades, and queues with it, is used up. -/
def InOrder (log : List Entry) : Prop :=
  ∀ pre inc e post, log = pre ++ .executed inc e :: post → ∀ a b,
    .accepted a ∈ pre → .accepted b ∈ pre → b.id = e.resting.id → a.id < b.id →
    SameQueue a b → a.quantity = executedQuantity pre a.id + cancelledQuantity pre a.id

/-- **The invariant.** -/
structure Prioritised (x : Exchange) : Prop where
  balanced : Balanced x
  /-- an order rests as what it was accepted as -/
  kept : ∀ o ∈ x.orderbook.orders, ∀ a, .accepted a ∈ x.log → a.id = o.id → SameQueue a o
  served : InOrder x.log

/-! ## 2. One order -/

/-- A partial fill does not change the place in the queue. -/
theorem settle_sameQueue {es : List Execution} {o o' : Order} (h : settle es o = some o') :
    SameQueue o o' := by
  unfold settle at h
  split at h
  · cases h
  · cases h
    exact ⟨rfl, rfl, rfl⟩

/-- **Nobody is passed over in one call**: before an order is met, each older one that queues
with it has been met and has given all it had. -/
theorem WellFormed.served_before {book : LimitOrderBook} (hb : WellFormed book) {ord : Order}
    (hq : 0 < ord.quantity) {es₁ es₂ : List Execution} {e : Execution}
    (hes : executions book ord = es₁ ++ e :: es₂) {o : Order} (ho : o ∈ book.orders)
    (hsame : SameQueue o e.resting) (hlt : o.id < e.resting.id) :
    tradedWith es₁ o.id = o.quantity := by
  have hpt := hb.priceTime hq
  have hmem : e ∈ executions book ord := by rw [hes]; simp
  obtain ⟨rest, hrest⟩ := hpt.oldest
  rw [hes, List.map_append, List.map_cons, List.append_assoc, List.cons_append] at hrest
  have hsorted := hpt.sorted
  have hcan : o ∈ matchable book ord :=
    List.mem_filter.mpr ⟨ho, decide_eq_true (hsame.crosses (crosses_of_mem hmem).2)⟩
  rw [← hrest] at hsorted hcan
  -- `o` stands in the queue before `e.resting`, which is to say among those met before it
  have hmet : o ∈ es₁.map Execution.resting := by
    rcases List.mem_append.mp hcan with h | h
    · exact h
    · rcases List.mem_cons.mp h with h | h
      · rw [h] at hlt
        omega
      · have := (List.pairwise_cons.mp (List.pairwise_append.mp hsorted).2.1).1 o h
        omega
  obtain ⟨f, hf, rfl⟩ := List.mem_map.mp hmet
  obtain ⟨xs, ys, rfl⟩ := List.append_of_mem hf
  have hcut : executions book ord = xs ++ f :: (ys ++ e :: es₂) := by
    rw [hes, List.append_assoc, List.cons_append]
  obtain ⟨hxs, hys⟩ := hb.executions_others hcut
  have hfull : f.quantity = f.resting.quantity := by
    cases ys with
    | nil => exact hpt.full xs f e es₂ hcut
    | cons g ys => exact hpt.full xs f g (ys ++ e :: es₂) hcut
  have hsum : tradedWith (xs ++ f :: ys) f.resting.id
      = tradedWith xs f.resting.id + tradedWith (f :: ys) f.resting.id := by
    simp [tradedWith]
  rw [hsum, tradedWith_cons, tradedWith_of_not_mem hxs,
    tradedWith_of_not_mem fun y hy => hys y (List.mem_append_left _ hy), if_pos rfl]
  omega

/-- The new order's own executions respect the order of acceptance. -/
theorem Prioritised.order_served {x : Exchange} (hx : Prioritised x) {ord : Order}
    (hq : 0 < ord.quantity) (hid : ord.id = x.nextOrderId) :
    InOrder
      (x.log ++ (.accepted ord :: (executions x.orderbook ord).map (Entry.executed ord))) := by
  have hbal := hx.balanced
  have hb := hbal.sound.book
  intro pre inc e post hsplit a b ha hbm hbe hlt hsame
  rcases List.append_eq_append_iff.mp hsplit with ⟨mid, rfl, hmid⟩ | ⟨mid, hlog, hmid⟩
  · -- an execution of this call
    obtain ⟨rfl, es₁, es₂, hes, rfl⟩ := executed_split hmid
    have hmem : e ∈ executions x.orderbook inc := by rw [hes]; simp
    have hres := (crosses_of_mem hmem).1
    have hold : ∀ {c : Order}, c.id ≤ e.resting.id →
        .accepted c ∈ x.log ++ (.accepted inc :: es₁.map (Entry.executed inc)) →
          .accepted c ∈ x.log := fun {c} hc hin => by
      rcases mem_log_accepted hin with h | rfl
      · exact h
      · have := hbal.sound.fresh _ hres
        omega
    have ha' := hold (by omega) ha
    have hb' := hold (le_of_eq hbe) hbm
    have hqueue := hsame.trans (hx.kept _ hres b hb' hbe)
    have hknown := hbal.known a ha'
    have hne : ¬ inc.id = a.id := by omega
    have hcols := hbal.balance a ha'
    rw [executedQuantity_order, cancelledQuantity_order, if_neg hne, zero_add]
    by_cases hrests : ∃ o ∈ x.orderbook.orders, o.id = a.id
    · obtain ⟨o, ho, hoid⟩ := hrests
      rw [hb.restingQuantity_of_id ho hoid] at hcols
      have hself := hx.kept o ho a ha' hoid.symm
      have htraded := hb.served_before hq hes ho (hself.symm.trans hqueue) (by omega)
      rw [hoid] at htraded
      omega
    · have hgone : ∀ o ∈ x.orderbook.orders, o.id ≠ a.id := fun o ho h => hrests ⟨o, ho, h⟩
      have hnone : tradedWith es₁ a.id = 0 := tradedWith_of_not_mem fun f hf =>
        hgone _ (crosses_of_mem (by rw [hes]; exact List.mem_append_left _ hf)).1
      rw [restingQuantity_of_not_mem hgone] at hcols
      omega
  · -- an execution from before
    cases mid with
    | nil => simp at hmid
    | cons y mid =>
      rw [List.cons_append, List.cons.injEq] at hmid
      exact hx.served pre inc e mid (by rw [hlog, hmid.1]) a b ha hbm hbe hlt hsame

/-- **An accepted order keeps the invariant**: what it leaves resting is what it was accepted as. -/
theorem Prioritised.order {x : Exchange} (hx : Prioritised x) {ord : Order}
    (hq : 0 < ord.quantity) (hp : 0 < ord.price) (hid : ord.id = x.nextOrderId)
    (hw : x.nextOrderId + 1 < 2 ^ 31) (heap : List Bool) :
    Prioritised ((x.takeId ord).enter ord heap) := by
  have hlog := takeId_enter_log hx.balanced.sound ord heap
  refine ⟨hx.balanced.order hq hp hid hw heap, fun o' ho' a ha hao => ?_, ?_⟩
  · rw [hlog] at ha
    rcases hx.balanced.sound.book.mem_addOrder ho' with ⟨o, ho, hoo'⟩ | ⟨-, rfl⟩
    · have hid' := settle_id hoo'
      have hfresh := hx.balanced.sound.fresh o ho
      rcases mem_log_accepted ha with ha | rfl
      · exact (hx.kept o ho a ha (hao.trans hid')).trans (settle_sameQueue hoo')
      · omega
    · rcases mem_log_accepted ha with ha | rfl
      · have := hx.balanced.known a ha
        dsimp only at hao
        omega
      · exact ⟨rfl, rfl, rfl⟩
  · rw [hlog]
    exact hx.order_served hq hid

/-! ## 3. The other operations -/

/-- Entries without an execution say nothing about priority. -/
theorem InOrder.append_quiet {log new : List Entry} (h : InOrder log)
    (hnew : ∀ inc e, .executed inc e ∉ new) : InOrder (log ++ new) := by
  intro pre inc e post hsplit
  rcases List.append_eq_append_iff.mp hsplit with ⟨mid, -, hmid⟩ | ⟨mid, hlog, hmid⟩
  · exact absurd (by rw [hmid]; simp) (hnew inc e)
  · cases mid with
    | nil => exact absurd (by rw [← List.nil_append new, ← hmid]; simp) (hnew inc e)
    | cons y mid =>
      rw [List.cons_append, List.cons.injEq] at hmid
      exact h pre inc e mid (by rw [hlog, hmid.1])

theorem Prioritised.cancel {x : Exchange} (hx : Prioritised x) {id fd : Int}
    {r : Order × Exchange} (h : x.cancel id fd = some r) : Prioritised r.2 := by
  have hbal := hx.balanced.cancel h
  obtain ⟨r', hr', rfl⟩ := Option.map_eq_some_iff.mp h
  refine ⟨hbal, fun o ho a ha hao => ?_, hx.served.append_quiet (by simp)⟩
  obtain ⟨head, hhead⟩ := LimitOrderBook.mem_orders.mp ho
  refine hx.kept o (mem_orders_of_mem_get (mem_get_of_cancel hr' head o hhead)) a ?_ hao
  simpa using ha

/-- Nor does the departure of the owner. -/
theorem detach_sameQueue (fd : Int) (o : Order) : SameQueue o (detach fd o) := by
  unfold detach
  split <;> exact ⟨rfl, rfl, rfl⟩

theorem Prioritised.depart {x : Exchange} (hx : Prioritised x) (fd : Int) :
    Prioritised (x.depart fd) := by
  refine ⟨hx.balanced.depart fd, fun o ho a ha hao => ?_, hx.served⟩
  rw [Exchange.depart, orders_detach] at ho
  obtain ⟨o', ho', rfl⟩ := List.mem_map.mp ho
  rw [detach_id] at hao
  exact (hx.kept o' ho' a ha hao).trans (detach_sameQueue fd o')

/-- **Every operation keeps the invariant.** -/
theorem Prioritised.step {x : Exchange} (hx : Prioritised x) {op : Op} (hw : NoWrap x op) :
    Prioritised (x.step op) := by
  cases op with
  | order side inst quantity price clientFd submitter heap =>
    simp only [Exchange.step]
    split
    · exact hx
    · rename_i hpos
      have hacc : 0 < quantity ∧ 0 < price := by omega
      exact hx.order hacc.1 hacc.2 rfl (hw (by simpa [Op.accepts] using hacc)) heap
  | cancel id clientFd =>
    simp only [Exchange.step]
    split
    · rename_i r hr
      exact hx.cancel hr
    · exact hx
  | depart clientFd => exact hx.depart clientFd

/-! ## 4. Runs -/

theorem prioritised_init : Prioritised Exchange.init := by
  refine ⟨balanced_init, fun o ho => absurd ho List.not_mem_nil, ?_⟩
  intro pre inc e post h
  simp [Exchange.init] at h

theorem after_prioritised {ops : List Op} (h : ops.countP Op.accepts < 2 ^ 31) :
    Prioritised (Exchange.after ops) :=
  Run.run_invariant_of_meets (fun _ _ hx hw => hx.step hw) ops _
    (meets_noWrap ops Exchange.init (le_refl _) (by simp [Exchange.init]; omega)) prioritised_init

/-- The server, too, as its exchange is that of a run of operations. -/
theorem prioritised_of_reachable {w : World} (hw : Reachable w)
    (h : (acceptedIds w.exchange.log).length < 2 ^ 31) : Prioritised w.exchange := by
  obtain ⟨ops, -, hx⟩ := exchange_of_reachable hw
  have hcount := (numbered_run ops numbered_init).count
  rw [hx] at h ⊢
  refine after_prioritised ?_
  rwa [← Nat.zero_add (ops.countP _), ← hcount]

/-- **First come, first served.**  In every state that accepted fewer than `2 ^ 31` orders: when
an accepted order `b` trades as a resting order, every order of the same instrument, side and
price accepted before it, which is to say under a lower id, was by then traded and cancelled in
full, whoever submitted the two and whatever happened in between. -/
theorem time_priority {w : World} (hw : Reachable w)
    (hcount : (acceptedIds w.exchange.log).length < 2 ^ 31) {pre post : List Entry} {inc : Order}
    {e : Execution} (hlog : w.exchange.log = pre ++ .executed inc e :: post) {a b : Order}
    (ha : .accepted a ∈ pre) (hb : .accepted b ∈ pre) (hbe : b.id = e.resting.id)
    (hlt : a.id < b.id) (hsame : SameQueue a b) :
    a.quantity = executedQuantity pre a.id + cancelledQuantity pre a.id :=
  (prioritised_of_reachable hw hcount).served pre inc e post hlog a b ha hb hbe hlt hsame

/-- Ann sells 10 and then bob sells 4 at the same price; ann buys 6 of her own and cancels the
rest, and the next 3 are bob's. -/
def queuedSellers : List Act :=
  market ++ [.supply willing [], .client 7 (.command (lit "SELL JNST 4 5")), .supply willing [],
    .client 5 (.command (lit "BUY JNST 6 5")), .client 5 (.command (lit "CANCEL 0")),
    .supply willing [], .client 5 (.command (lit "BUY JNST 3 5"))]

/-- An order of `queuedSellers`. -/
def jnstAtFive (type : OrderSide) (id quantity clientFd : Int) (submitter : Nat) : Order :=
  { id := id, quantity := quantity, price := 5, clientFd := clientFd, type := type
    instrument := .jnst, submitter := submitter }

theorem time_priority_queuedSellers :
    let log := (Run.run act (.init 3 []) queuedSellers).exchange.log
    log = log.take 6 ++
        [.executed (jnstAtFive .buy 3 3 5 0) ⟨jnstAtFive .sell 1 4 7 2, 3⟩] ∧
      executedQuantity (log.take 6) 0 = 6 ∧
      (jnstAtFive .sell 0 10 5 0).quantity
        = executedQuantity (log.take 6) 0 + cancelledQuantity (log.take 6) 0 := by
  intro log
  have hlog : log = log.take 6 ++
      [.executed (jnstAtFive .buy 3 3 5 0) ⟨jnstAtFive .sell 1 4 7 2, 3⟩] := by decide +kernel
  have ha : .accepted (jnstAtFive .sell 0 10 5 0) ∈ log.take 6 := by decide +kernel
  have hb : .accepted (jnstAtFive .sell 1 4 7 2) ∈ log.take 6 := by decide +kernel
  exact ⟨hlog, by decide +kernel,
    time_priority ⟨3, [], queuedSellers, rfl⟩ (by decide +kernel) hlog ha hb rfl (by decide)
      (by decide)⟩

end SocketExchange
