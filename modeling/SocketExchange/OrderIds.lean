/-
# Order ids, and what `CANCEL` does with them

`next_order_id` is an `int` that every accepted order takes and increments.  `Numbered` says
which id each of the accepted orders has, over runs of any length: the ids are those of an
`int` that counts up and wraps.  Up to `2 ^ 31` accepted orders they are distinct and not
negative; the next one is `-2147483648`, which `CANCEL` refuses to read.

A cancellation searches the book for an id and a descriptor.  That it finds the order meant,
and only with the connection that submitted it, rests on distinct ids and on ownership.
-/
import SocketExchange.Ledger
import SocketExchange.Losses
import SocketExchange.Roles

namespace SocketExchange

open CText

/-! ## 1. The ids given out -/

/-- The ids of the accepted orders, oldest first. -/
def acceptedIds (log : List Entry) : List Int :=
  log.filterMap fun
    | .accepted ord => some ord.id
    | _ => none

/-- After `n` accepted orders: which ids they have, and while the counter has not wrapped, the
book invariant. -/
structure Numbered (n : Nat) (x : Exchange) : Prop where
  ids : acceptedIds x.log = (List.range n).map fun i : Nat => wrap32 i
  counter : x.nextOrderId = wrap32 n
  book : n ≤ 2 ^ 31 → WellFormed x.orderbook ∧ ∀ o ∈ x.orderbook.orders, 0 ≤ o.id ∧ o.id < n

theorem acceptedIds_append (l m : List Entry) :
    acceptedIds (l ++ m) = acceptedIds l ++ acceptedIds m := List.filterMap_append

theorem acceptedIds_executed (ord : Order) (es : List Execution) :
    acceptedIds (es.map (Entry.executed ord)) = [] := by
  induction es with
  | nil => rfl
  | cons e es ih => exact ih

theorem wrap32_succ (n : Nat) : wrap32 (wrap32 n + 1) = wrap32 (n + 1 : Nat) := by
  unfold wrap32
  rw [Int.bmod_add_bmod, Nat.cast_succ]

theorem wrap32_of_nat {n : Nat} (h : n < 2 ^ 31) : wrap32 n = n :=
  wrap32_of_lt (by omega) (by omega)

theorem Numbered.order {n : Nat} {x : Exchange} (hx : Numbered n x) {ord : Order}
    (hq : 0 < ord.quantity) (hp : 0 < ord.price) (hid : ord.id = x.nextOrderId)
    (heap : List Bool) : Numbered (n + 1) ((x.takeId ord).enter ord heap) := by
  have hlog : ((x.takeId ord).enter ord heap).log = (x.log ++ [.accepted ord])
      ++ (addOrder x.orderbook ord heap).executed.map (Entry.executed ord) := rfl
  refine ⟨?_, ?_, fun hn => ?_⟩
  · rw [hlog, acceptedIds_append, acceptedIds_append, acceptedIds_executed, List.append_nil,
      hx.ids, List.range_succ, List.map_append, List.map_singleton, ← hx.counter, ← hid]
    rfl
  · have hnext : ((x.takeId ord).enter ord heap).nextOrderId = wrap32 (x.nextOrderId + 1) := rfl
    rw [hnext, hx.counter, wrap32_succ]
  · obtain ⟨hbook, hids⟩ := hx.book (by omega)
    rw [hx.counter, wrap32_of_nat (by omega)] at hid
    refine ⟨hbook.addOrder hq hp (fun o ho => hid ▸ (hids o ho).2) heap, fun o' ho' => ?_⟩
    rcases hbook.mem_addOrder ho' with ⟨o, ho, hoo'⟩ | ⟨-, rfl⟩
    · have := hids o ho
      rw [settle_id hoo']
      omega
    · simp only [hid]
      omega

theorem Numbered.cancel {n : Nat} {x : Exchange} (hx : Numbered n x) {id fd : Int}
    {r : Order × Exchange} (h : x.cancel id fd = some r) : Numbered n r.2 := by
  obtain ⟨r', hr', rfl⟩ := Option.map_eq_some_iff.mp h
  refine ⟨?_, hx.counter, fun hn => ?_⟩
  · rw [acceptedIds_append, hx.ids]
    exact List.append_nil _
  · obtain ⟨hbook, hids⟩ := hx.book hn
    obtain ⟨-, -, -, hr⟩ := hbook.cancel_eq_filterMap hr'
    refine ⟨hr ▸ hbook.filterMap (hbook.keeps_drop id), fun o ho => hids o ?_⟩
    obtain ⟨head, hhead⟩ := LimitOrderBook.mem_orders.mp ho
    exact mem_orders_of_mem_get (mem_get_of_cancel hr' head o hhead)

theorem Numbered.depart {n : Nat} {x : Exchange} (hx : Numbered n x) (fd : Int) :
    Numbered n (x.depart fd) := by
  refine ⟨hx.ids, hx.counter, fun hn => ?_⟩
  obtain ⟨hbook, hids⟩ := hx.book hn
  refine ⟨?_, fun o ho => ?_⟩
  · have hd : (x.depart fd).orderbook = _ := detach_eq_filterMap x.orderbook fd
    rw [hd]
    exact hbook.filterMap (hbook.keeps_detach fd)
  · rw [Exchange.depart, orders_detach] at ho
    obtain ⟨o', ho', rfl⟩ := List.mem_map.mp ho
    rw [detach_id]
    exact hids o' ho'

theorem Numbered.step {n : Nat} {x : Exchange} (hx : Numbered n x) (op : Op) :
    Numbered (n + if op.accepts then 1 else 0) (x.step op) := by
  cases op with
  | order side inst quantity price clientFd submitter heap =>
    simp only [Exchange.step, Op.accepts, decide_eq_true_eq]
    by_cases hneg : quantity ≤ 0 ∨ price ≤ 0
    · rw [if_pos hneg, if_neg (by omega)]
      exact hx
    · rw [if_neg hneg, if_pos (by omega)]
      exact hx.order (show 0 < quantity by omega) (show 0 < price by omega) rfl heap
  | cancel id clientFd =>
    simp only [Exchange.step]
    cases hr : x.cancel id clientFd with
    | none => exact hx
    | some r => exact hx.cancel hr
  | depart clientFd => exact hx.depart clientFd

theorem numbered_run : ∀ (ops : List Op) {n : Nat} {x : Exchange}, Numbered n x →
    Numbered (n + ops.countP Op.accepts) (Run.run Exchange.step x ops)
  | [], _, _, hx => hx
  | op :: ops, n, _, hx => by
    have h := numbered_run ops (hx.step op)
    rwa [add_assoc, add_comm (if op.accepts then 1 else 0), ← List.countP_cons] at h

theorem numbered_init : Numbered 0 Exchange.init :=
  ⟨rfl, rfl, fun _ => ⟨sound_init.book, fun _ ho => by cases ho⟩⟩

theorem Numbered.count {n : Nat} {x : Exchange} (hx : Numbered n x) :
    (acceptedIds x.log).length = n := by
  rw [hx.ids, List.length_map, List.length_range]

/-- **The ids in every reachable state**, however many orders there were. -/
theorem numbered_of_reachable {w : World} (hw : Reachable w) :
    Numbered (acceptedIds w.exchange.log).length w.exchange := by
  obtain ⟨ops, -, hx⟩ := exchange_of_reachable hw
  have h := numbered_run ops numbered_init
  rw [hx]
  exact h.count.symm ▸ h

theorem balanced_of_reachable {w : World} (hw : Reachable w)
    (h : (acceptedIds w.exchange.log).length < 2 ^ 31) : Balanced w.exchange := by
  obtain ⟨ops, -, hx⟩ := exchange_of_reachable hw
  have hcount := (numbered_run ops numbered_init).count
  rw [hx] at h ⊢
  refine after_balanced ?_
  rwa [← Nat.zero_add (ops.countP _), ← hcount]

/-! ## 2. What a cancellation takes out -/

/-- `o` leaves its list, and nothing else changes. -/
def TookOut (o : Order) (book book' : LimitOrderBook) : Prop :=
  ∃ head pre post, book.get head = pre ++ o :: post ∧ book'.get head = pre ++ post ∧
    ∀ other, other ≠ head → book'.get other = book.get other

theorem tookOut_of_cancel {book : LimitOrderBook} {id fd : Int} {r : Order × LimitOrderBook}
    (h : cancelOrder book id fd = some r) :
    TookOut r.1 book r.2 ∧ r.1 ∈ book.orders ∧ r.1.id = id ∧ r.1.clientFd = fd := by
  obtain ⟨head, pre, post, hget, hr, hid, hfd⟩ := cancelOrder_eq_some h
  refine ⟨⟨head, pre, post, hget, ?_, fun other hne => ?_⟩, ?_, hid, hfd⟩
  · rw [hr, LimitOrderBook.get_set_self]
  · rw [hr, LimitOrderBook.get_set_ne hne]
  · have hmem : r.1 ∈ book.get head := by
      rw [hget]
      exact List.mem_append_right pre List.mem_cons_self
    exact mem_orders_of_mem_get hmem

/-- **Whose orders a connection can cancel**: an order answers to its id and to the connection
that submitted it. -/
theorem cancel_authorised {w : World} (hw : Owned w) {fd : Nat} {c : ClientConnection}
    (hc : w.slot fd = some c) {o : Order} (ho : o ∈ w.exchange.orderbook.orders) :
    o.clientFd = c.clientFd ↔ o.submitter = c.serial := by
  have hown := hw.housed.own _ _ _ (badge_of_slot hc)
  constructor
  · intro hfd
    rcases (hw.orders o ho).1 with ⟨n, hn, f, hf⟩ | ⟨hn, -⟩
    · rw [hfd, hown] at hn
      rw [← Int.natCast_inj.mp hn] at hf
      obtain ⟨e, he, hser, -⟩ := slot_of_badge hf
      rw [hc, Option.some.injEq] at he
      rw [he, hser]
    · omega
  · intro hsub
    obtain ⟨hfd, hcfd⟩ := hw.safe.connected o ho fd c hc hsub.symm
    rw [hfd, hcfd]

/-! ## 3. `cancelUserOrder` -/

/-- The command takes `o` out for its sender and answers `ORDER_CANCELLED`. -/
def Cancels (text : Bytes) (fd : Nat) (w : World) (o : Order) : Prop :=
  ∃ h : Handed, (cancelUserOrder text fd w).1.trace
      = w.trace ++ [.cancelled (w.conn fd).serial o, .handed h] ∧
    h.receiver = (w.conn fd).serial ∧ h.msg = Response.text (.cancelled o.id)

/-- The command answers `ERROR` and leaves the exchange as it is. -/
def Refuses (text : Bytes) (fd : Nat) (w : World) : Prop :=
  (cancelUserOrder text fd w).1.exchange = w.exchange ∧
    ∃ h : Handed, (cancelUserOrder text fd w).1.trace = w.trace ++ [.handed h] ∧
      h.receiver = (w.conn fd).serial ∧ h.msg = Response.text (.error (lit "No such order"))

theorem not_cancels_of_refuses {text : Bytes} {fd : Nat} {w : World} (h : Refuses text fd w)
    (o : Order) : ¬ Cancels text fd w o := by
  rintro ⟨x, hx, -⟩
  obtain ⟨-, y, hy, -⟩ := h
  have := List.append_cancel_left (hx.symm.trans hy)
  cases this

/-- **The two ways the command can go**, by what the search finds. -/
theorem cancelUserOrder_cases {text : Bytes} {id : Int} (hid : orderIdOf text = some id)
    (fd : Nat) (w : World) :
    match cancelOrder w.exchange.orderbook id (w.conn fd).clientFd with
    | none => Refuses text fd w
    | some r => Cancels text fd w r.1 ∧ (cancelUserOrder text fd w).1.exchange.orderbook = r.2 := by
  have hrange := orderIdOf_range hid
  unfold Refuses Cancels cancelUserOrder
  rw [hid]
  dsimp only
  rw [Exchange.cancel]
  cases hr : cancelOrder w.exchange.orderbook id (w.conn fd).clientFd with
  | none => exact ⟨rfl, _, rfl, rfl, errorText_eq (by simp [reasons])⟩
  | some r =>
    obtain ⟨-, -, hrid, -⟩ := tookOut_of_cancel hr
    refine ⟨⟨_, List.append_assoc _ _ _, rfl, ?_⟩, rfl⟩
    rw [hrid]
    exact cancelledText_eq ⟨by omega, hrange.2⟩

/-- **Cancellation is exact and authorised.**  The command succeeds exactly when an order of
that id rests with quantity left and the present connection submitted it; it takes that order
out and nothing else; and otherwise it changes nothing.  Orders of others, executed orders and
cancelled orders are never taken out. -/
theorem cancellation_exact {w : World} (hw : Reachable w)
    (hcount : (acceptedIds w.exchange.log).length < 2 ^ 31) {fd : Nat} {c : ClientConnection}
    (hc : w.slot fd = some c) {text : Bytes} {id : Int} (hid : orderIdOf text = some id) :
    ((∃ o, Cancels text fd w o) ↔ ∃ o ∈ w.exchange.orderbook.orders, o.id = id ∧
      0 < o.quantity ∧ o.submitter = c.serial) ∧
    (∀ o, Cancels text fd w o → o.id = id ∧ o.submitter = c.serial ∧
      TookOut o w.exchange.orderbook (cancelUserOrder text fd w).1.exchange.orderbook) ∧
    ((¬ ∃ o, Cancels text fd w o) → Refuses text fd w) ∧
    (∀ o ∈ w.exchange.orderbook.orders, o.id = id → o.submitter ≠ c.serial → Refuses text fd w) ∧
    (∀ a, .accepted a ∈ w.exchange.log → a.id = id →
      executedQuantity w.exchange.log id = a.quantity → Refuses text fd w) ∧
    ∀ o, .cancelled o ∈ w.exchange.log → o.id = id → Refuses text fd w := by
  have howned := owned_of_reachable hw
  have hbal := balanced_of_reachable hw hcount
  have hcases := cancelUserOrder_cases hid fd w
  rw [conn_of_slot hc] at hcases
  have hnone : (∀ o ∈ w.exchange.orderbook.orders, o.id = id → o.submitter ≠ c.serial) →
      Refuses text fd w := by
    intro h
    rw [cancelOrder_eq_none.mpr fun o ho hidfd => h o ho hidfd.1
      ((cancel_authorised howned hc ho).mp hidfd.2)] at hcases
    exact hcases
  -- a cancellation noted is the one the search has found
  have hsome : ∀ o, Cancels text fd w o → ∃ r, cancelOrder w.exchange.orderbook id c.clientFd
      = some r ∧ r.1 = o ∧ (cancelUserOrder text fd w).1.exchange.orderbook = r.2 := by
    intro o ho
    split at hcases
    · exact absurd ho (not_cancels_of_refuses hcases o)
    · rename_i r hr
      obtain ⟨⟨x, hx, -⟩, hbook⟩ := hcases
      obtain ⟨y, hy, -⟩ := ho
      have := List.append_cancel_left (hx.symm.trans hy)
      simp only [List.cons.injEq, Obs.cancelled.injEq] at this
      exact ⟨r, hr, this.1.2, hbook⟩
  have hfound : ∀ o, Cancels text fd w o → o ∈ w.exchange.orderbook.orders ∧ o.id = id ∧
      o.submitter = c.serial := by
    intro o ho
    obtain ⟨r, hr, rfl, -⟩ := hsome o ho
    obtain ⟨-, hmem, hrid, hfd⟩ := tookOut_of_cancel hr
    exact ⟨hmem, hrid, (cancel_authorised howned hc hmem).mp hfd⟩
  refine ⟨⟨fun ⟨o, ho⟩ => ?_, fun ⟨o, ho, hoid, _, hsub⟩ => ?_⟩, fun o ho => ?_, fun h => ?_,
    fun o ho hoid hsub => ?_, fun a ha haid hfull => ?_, fun o ho hoid => ?_⟩
  · obtain ⟨hmem, hoid, hsub⟩ := hfound o ho
    exact ⟨o, hmem, hoid, howned.positive o hmem, hsub⟩
  · split at hcases
    · rename_i hr
      exact absurd ⟨hoid, (cancel_authorised howned hc ho).mpr hsub⟩
        (cancelOrder_eq_none.mp hr o ho)
    · rename_i r hr
      exact ⟨r.1, hcases.1⟩
  · obtain ⟨-, hoid, hsub⟩ := hfound o ho
    obtain ⟨r, hr, rfl, hbook⟩ := hsome o ho
    exact ⟨hoid, hsub, hbook ▸ (tookOut_of_cancel hr).1⟩
  · split at hcases
    · exact hcases
    · exact absurd ⟨_, hcases.1⟩ h
  · refine hnone fun o' ho' hid' => ?_
    rw [hbal.sound.book.eq_of_id ho' ho (hid'.trans hoid.symm)]
    exact hsub
  · -- nothing of an executed order rests
    refine hnone fun o ho hoid _ => ?_
    have hbalance := hbal.balance a ha
    have hnoc : cancelledQuantity w.exchange.log a.id = 0 := cancelledQuantity_of_not_mem
      fun x hx hxid => (hbal.gone x hx).2 o ho (hoid.trans (haid.symm.trans hxid.symm))
    rw [hnoc, haid, hfull, hbal.sound.book.restingQuantity_of_id ho hoid] at hbalance
    have := howned.positive o ho
    omega
  · exact hnone fun o' ho' hid' _ => (hbal.gone o ho).2 o' ho' (hid'.trans hoid.symm)

/-- The seller cancels its resting order. -/
theorem cancellation_exact_market :
    let w := Run.run act (.init 3 []) market
    (∃ o, Cancels (lit "0") 5 w o) ∧ Refuses (lit "0") 7 w := by
  intro w
  have hw : Reachable w := ⟨3, [], market, rfl⟩
  have hcount : (acceptedIds w.exchange.log).length < 2 ^ 31 := by decide +kernel
  have h5 : w.slot 5 = some (w.conn 5) := by decide +kernel
  have h7 : w.slot 7 = some (w.conn 7) := by decide +kernel
  have hid : orderIdOf (lit "0") = some 0 := by decide +kernel
  obtain ⟨o, ho, hoid, hsub⟩ : ∃ o ∈ w.exchange.orderbook.orders, o.id = 0 ∧
      o.submitter ≠ (w.conn 7).serial := by decide +kernel
  exact ⟨(cancellation_exact hw hcount h5 hid).1.mpr (by decide +kernel),
    (cancellation_exact hw hcount h7 hid).2.2.2.1 o ho hoid hsub⟩

/-! ## 4. The id of a resting order, and its `CANCEL` line -/

/-- Every resting order's id was told to its submitter in an `ORDER_ACCEPTED`. -/
def Acknowledged (w : World) : Prop :=
  ∀ o ∈ w.exchange.orderbook.orders, ∃ h : Handed, .handed h ∈ w.trace ∧
    h.receiver = o.submitter ∧ h.msg = acceptedText o.id

/-- A step that brings no orders. -/
theorem Acknowledged.of_orders {w w' : World} (h : Acknowledged w)
    (htrace : ∃ new, w'.trace = w.trace ++ new)
    (horders : ∀ o' ∈ w'.exchange.orderbook.orders, ∃ o ∈ w.exchange.orderbook.orders,
      o'.submitter = o.submitter ∧ o'.id = o.id) : Acknowledged w' := by
  obtain ⟨new, htrace⟩ := htrace
  intro o' ho'
  obtain ⟨o, ho, hsub, hid⟩ := horders o' ho'
  obtain ⟨x, hx, hrecv, hmsg⟩ := h o ho
  exact ⟨x, htrace ▸ List.mem_append_left new hx, by rw [hrecv, hsub], by rw [hmsg, hid]⟩

theorem Answer.acknowledged {self : Nat} {w w' : World} {r : Response} (h : Answer self w r w')
    (hpos : ∀ o ∈ w.exchange.orderbook.orders, 0 < o.quantity) (hw : Acknowledged w) :
    Acknowledged w' := by
  cases h with
  | @accepted heap side inst quantity price hq hp hin ord hord =>
    obtain ⟨hs, htrace, hwhat⟩ := acceptOrder_trace ord self { w with heap := heap }
    intro o' ho'
    rw [acceptOrder_exchange] at ho'
    obtain ⟨head, hhead⟩ := LimitOrderBook.mem_orders.mp ho'
    rw [htrace]
    rcases addOrder_remnant hpos ord heap hhead with ⟨o, ho, hr, -⟩ | ⟨-, hr, -⟩
    · obtain ⟨x, hx, hrecv, hmsg⟩ := hw o (mem_orders_of_mem_get ho)
      refine ⟨x, List.mem_append_left _ hx, ?_, ?_⟩
      · rw [hr, hrecv]
      · rw [hr, hmsg]
    · -- the first message is the acknowledgement
      cases hs with
      | nil => cases hwhat
      | cons x hs =>
        rw [List.map_cons, List.map_cons, List.cons.injEq] at hwhat
        obtain ⟨-, hrecv, -, hmsg⟩ : _ ∧ _ ∧ _ ∧ _ := by
          simpa only [Handed.what, Prod.mk.injEq] using hwhat.1
        refine ⟨x, List.mem_append_right _ List.mem_cons_self, ?_, ?_⟩
        · rw [hrecv, hr, hord]
          rfl
        · rw [hmsg, hr]
  | @cancelled id r hin hid h =>
    obtain ⟨x, hx, rfl⟩ := Option.map_eq_some_iff.mp h
    refine hw.of_orders ⟨_, List.append_assoc _ _ _⟩ fun o' ho' => ?_
    obtain ⟨head, hhead⟩ := LimitOrderBook.mem_orders.mp ho'
    exact ⟨o', mem_orders_of_mem_get (mem_get_of_cancel hx head o' hhead), rfl, rfl⟩
  | _ => exact hw.of_orders ⟨_, rfl⟩ fun o' ho' => ⟨o', ho', rfl, rfl⟩

theorem acknowledged_act {w : World} (howned : Owned w) (hw : Acknowledged w) (a : Act) :
    Acknowledged (act w a) := by
  by_cases ha : ∃ fd line, a = .client fd (.command line)
  · obtain ⟨fd, line, rfl⟩ := ha
    cases hc : w.slot fd with
    | none =>
      simp only [act, hc]
      exact hw
    | some c =>
      simp only [act, hc, serve]
      have hline : Acknowledged (processLine line fd w).1 := by
        have hnoted : Acknowledged (w.note (.line (w.conn fd).serial line)) :=
          hw.of_orders ⟨_, rfl⟩ fun o' ho' => ⟨o', ho', rfl, rfl⟩
        by_cases hblank : ∀ b ∈ cstr line, isSpace b = true
        · rw [processLine_blank hblank]
          exact hnoted
        · obtain ⟨r, hans⟩ := processLine_answer hblank fd w
          exact hans.acknowledged howned.positive hnoted
      obtain ⟨new, htrace, -⟩ := removeIfDone_trace fd (processLine line fd w)
      refine hline.of_orders ⟨new, htrace⟩ fun o' ho' => ?_
      unfold removeIfDone at ho'
      split at ho'
      · exact order_of_removed ho'
      · exact ⟨o', ho', rfl, rfl⟩
  · push Not at ha
    have hout := outcome_act howned.housed ha
    generalize act w a = w' at hout
    cases hout with
    | settled h =>
      obtain ⟨new, htrace, -⟩ := h.sent
      exact hw.of_orders ⟨new, htrace⟩ fun o' ho' => ⟨o', h.exchange ▸ ho', rfl, rfl⟩
    | left h hc =>
      obtain ⟨new, htrace, -⟩ := h.sent
      refine hw.of_orders ⟨new ++ _, by rw [removeClient_trace hc, htrace, List.append_assoc]⟩
        fun o' ho' => ?_
      obtain ⟨o, ho, hsame⟩ := order_of_removed ho'
      exact ⟨o, h.exchange ▸ ho, hsame⟩
    | came h => exact hw.of_orders ⟨_, h.trace⟩ fun o' ho' => ⟨o', h.exchange ▸ ho', rfl, rfl⟩

theorem acknowledged_of_reachable {w : World} (hw : Reachable w) : Acknowledged w :=
  (hw.invariant (I := fun w => Owned w ∧ Acknowledged w)
    (fun serverFd others => ⟨owned_init serverFd others, fun _ ho => by cases ho⟩)
    fun _ a h => ⟨owned_act h.1 a, acknowledged_act h.1 h.2 a⟩).2

/-- The line that cancels the order of this id. -/
def cancelLine (id : Int) : Bytes := lit "CANCEL " ++ decimalInt id

/-- `strtol` reads an id back from its text. -/
theorem orderIdOf_decimalInt {id : Int} (h : 0 ≤ id ∧ id < 2 ^ 31) :
    orderIdOf (decimalInt id) = some id := by
  have hnat : ((id.toNat : Nat) : Int) = id := Int.toNat_of_nonneg h.1
  have hsat : saturate64 id = id := by unfold saturate64; omega
  unfold orderIdOf decimalInt
  rw [if_neg (by omega), numeral_decimal, hnat]
  dsimp only
  rw [hsat, if_neg]
  rintro (h0 | hneg | hbig)
  · exact h0 rfl
  · omega
  · omega

theorem isSpace_of_mem_decimalInt {id : Int} (h : 0 ≤ id) {b : Byte} (hb : b ∈ decimalInt id) :
    isSpace b = false := by
  rw [decimalInt, if_neg (by omega)] at hb
  exact not_isSpace_of_isDigit (isDigit_of_mem_decimal hb)

/-- What `sscanf` makes of the line. -/
theorem scanLine_cancelLine {id : Int} (h : 0 ≤ id ∧ id < 2 ^ 31) :
    scanLine (cstr (cancelLine id)) =
      { matched := 2, cmd := lit "CANCEL", arg := decimalInt id, quantity := 0, price := 0 } := by
  have hzero : 0 ∉ cancelLine id := by
    rw [cancelLine, List.mem_append, not_or]
    exact ⟨by decide, zero_not_mem_decimalInt id⟩
  have hwords : words (cancelLine id) = [lit "CANCEL", decimalInt id] := by
    have hne : decimalInt id ≠ [] := by
      rw [decimalInt, if_neg (by omega)]
      exact decimal_ne_nil _
    have h1 : cancelLine id = lit "CANCEL" ++ (32 :: decimalInt id) := rfl
    have h2 := words_append (w := decimalInt id) (r := [])
      (fun b hb => isSpace_of_mem_decimalInt h.1 hb) hne (by decide)
    have hcmd : (lit "CANCEL").all (fun b => !isSpace b) = true := by decide
    rw [List.append_nil, words_nil] at h2
    rw [h1, words_append (fun b hb => by simpa using List.all_eq_true.mp hcmd b hb) (by decide)
      (by simp [Blank, isSpace]), words_space (by decide), h2]
  have hlen := length_decimalInt_le (n := id) (by omega) h.2
  have hlen7 : (lit "CANCEL ").length = 7 := by decide
  rw [cstr_of_not_mem hzero, scanLine]
  have hmax : (cancelLine id).length ≤ maxTokenLen := by
    rw [cancelLine, List.length_append, hlen7, maxTokenLen]
    omega
  have hwidth : 0 < maxTokenLen := by decide
  obtain ⟨r, hr, hwr, -, hrlen⟩ := scanWord_of_words hwidth hmax hwords
  obtain ⟨r', hr', hwr', -, -⟩ := scanWord_of_words hwidth (hrlen.trans hmax) hwr
  have hend : scanInt r' = none := by
    rw [scanInt, numeral, words_eq_nil.mp hwr']
    rfl
  simp only [hr, hr', hend]

theorem dispatchCommand_cancel {s : Scanned} (hcmd : s.cmd = lit "CANCEL") (hm : s.matched = 2)
    {fd : Nat} {w : World} (hin : (w.conn fd).loggedIn = true) :
    dispatchCommand s fd w = cancelUserOrder s.arg fd w := by
  rw [dispatchCommand, hcmd, hm, hin, if_neg (by decide), if_neg (by decide), if_neg (by decide),
    if_neg (by decide), if_neg (by decide), if_neg (by decide), if_neg (by decide),
    if_neg (by decide), if_pos ⟨rfl, rfl⟩]

/-- The line goes to `cancelUserOrder` with the text of the id. -/
theorem processLine_cancelLine {id : Int} (h : 0 ≤ id ∧ id < 2 ^ 31) {fd : Nat} {w : World}
    (hin : (w.conn fd).loggedIn = true) :
    processLine (cancelLine id) fd w
      = cancelUserOrder (decimalInt id) fd (w.note (.line (w.conn fd).serial (cancelLine id))) := by
  unfold processLine
  rw [scanLine_cancelLine h]
  dsimp only
  rw [if_neg (by omega)]
  exact dispatchCommand_cancel rfl rfl hin

/-! ## 5. Ids over the life of the server -/

/-- The owner's `CANCEL` with the id it was told takes the order out. -/
def CancelledByLine (o : Order) (fd : Nat) (w : World) : Prop :=
  ∃ h : Handed, (processLine (cancelLine o.id) fd w).1.trace
      = w.trace ++ [.line o.submitter (cancelLine o.id), .cancelled o.submitter o, .handed h] ∧
    h.receiver = o.submitter ∧ h.msg = Response.text (.cancelled o.id) ∧
    TookOut o w.exchange.orderbook (processLine (cancelLine o.id) fd w).1.exchange.orderbook

/-- **Ids are unique, valid and usable.** -/
structure IdsUsable (w : World) : Prop where
  distinct : (acceptedIds w.exchange.log).Nodup
  valid : ∀ id ∈ acceptedIds w.exchange.log, 0 ≤ id ∧ id ≤ 2147483647
  told : Acknowledged w
  cancellable : ∀ o ∈ w.exchange.orderbook.orders, ∀ fd c, w.slot fd = some c →
    c.serial = o.submitter → CancelledByLine o fd w

theorem cancelledByLine {w : World} (hw : Roles w) (hbook : WellFormed w.exchange.orderbook)
    {o : Order} (ho : o ∈ w.exchange.orderbook.orders) (hid : 0 ≤ o.id ∧ o.id < 2 ^ 31) {fd : Nat}
    {c : ClientConnection} (hc : w.slot fd = some c) (hk : c.serial = o.submitter) :
    CancelledByLine o fd w := by
  have hin : (w.conn fd).loggedIn = true := by
    rw [conn_of_slot hc]
    exact (hw.role fd c hc).login.mpr (hw.owners o ho fd c hc hk)
  have hcases := cancelUserOrder_cases (orderIdOf_decimalInt hid) fd
    (w.note (.line (w.conn fd).serial (cancelLine o.id)))
  rw [conn_note, exchange_note, conn_of_slot hc] at hcases
  unfold CancelledByLine
  rw [processLine_cancelLine hid hin, conn_of_slot hc]
  split at hcases
  · rename_i hnone
    exact absurd ⟨rfl, (cancel_authorised hw.owned hc ho).mpr hk.symm⟩
      (cancelOrder_eq_none.mp hnone o ho)
  · rename_i r hr
    obtain ⟨htook, hmem, hrid, -⟩ := tookOut_of_cancel hr
    have hro : r.1 = o := hbook.eq_of_id hmem ho hrid
    obtain ⟨⟨h, htrace, hrecv, hmsg⟩, hbook'⟩ := hcases
    rw [conn_note, conn_of_slot hc, hro] at htrace
    rw [conn_note, conn_of_slot hc] at hrecv
    refine ⟨h, ?_, hrecv.trans hk, hro ▸ hmsg, hbook' ▸ hro ▸ htook⟩
    rw [htrace, trace_note, hk, List.append_assoc]
    rfl

/-- **Ids are unique, valid and usable as long as at most `2 ^ 31` orders were accepted**, and
not after that: the next id is `-2147483648`. -/
theorem order_ids {w : World} (hw : Reachable w) :
    IdsUsable w ↔ (acceptedIds w.exchange.log).length ≤ 2 ^ 31 := by
  have hnum := numbered_of_reachable hw
  have hids := hnum.ids
  set n := (acceptedIds w.exchange.log).length
  constructor
  · intro h
    by_contra hbig
    have hmem : wrap32 ((2 ^ 31 : Nat) : Int) ∈ acceptedIds w.exchange.log := by
      rw [hids]
      exact List.mem_map.mpr ⟨2 ^ 31, List.mem_range.mpr (by omega), rfl⟩
    exact absurd (h.valid _ hmem).1 (by decide)
  · intro hn
    obtain ⟨hbook, hrange⟩ := hnum.book hn
    have hplain : acceptedIds w.exchange.log = (List.range n).map fun i : Nat => (i : Int) := by
      rw [hids]
      refine List.map_congr_left fun i hi => wrap32_of_nat ?_
      have := List.mem_range.mp hi
      omega
    refine ⟨?_, fun id hid => ?_, acknowledged_of_reachable hw, fun o ho fd c hc hk => ?_⟩
    · rw [hplain]
      exact List.nodup_range.map fun a b h => Int.natCast_inj.mp h
    · rw [hplain] at hid
      obtain ⟨i, hi, rfl⟩ := List.mem_map.mp hid
      have := List.mem_range.mp hi
      omega
    · have := hrange o ho
      exact cancelledByLine (roles_of_reachable hw) hbook ho (by omega) hc hk

/-- The seller's first order has an id it can cancel with. -/
theorem order_ids_market : IdsUsable (Run.run act (.init 3 []) market) :=
  (order_ids ⟨3, [], market, rfl⟩).mpr (by decide +kernel)

/-- Sockets that take the next message whole. -/
def eager : Nat → SockEnv := fun _ => { writes := [.took 128], mallocs := [] }

/-- One more order of a trader that is there. -/
def buyOnce : List Act := [.supply eager [], .client 5 (.command (lit "BUY JNST 1 1"))]

/-- A trader comes. -/
def loggedIn5 : List Act :=
  [.accept 5 true true true, .supply willing [], .client 5 (.command (lit "LOGIN ann"))]

/-- A trader comes and submits so many orders. -/
def buying (n : Nat) : List Act := loggedIn5 ++ (List.replicate n buyOnce).flatten

/-- The trader is there with nothing unsent, and nobody sells. -/
structure Buying (w : World) : Prop where
  client : ∃ c, w.slot 5 = some c ∧ c.loggedIn = true ∧ c.outlen = 0
  noSeller : w.exchange.orderbook.jnstSellOrders = []

/-- A message that the socket takes whole. -/
theorem sendToClient_at_once {env : SockEnv} {conn : ClientConnection} {data : Bytes} {n : Nat}
    {rs : List WriteResult} (h0 : conn.outlen = 0) (henv : env.writes = .took n :: rs)
    (hn : data.length ≤ n) : (sendToClient env conn data).conn = conn ∧
      (sendToClient env conn data).failed = false := by
  have htaken : taken n data.length = data.length := by unfold taken; omega
  unfold sendToClient
  rw [if_pos h0, henv, writeRetry, htaken]
  dsimp only
  rw [List.drop_length]
  exact ⟨rfl, rfl⟩

/-- A buy order in a book without sellers. -/
theorem addOrder_no_seller {book : LimitOrderBook} {ord : Order} {heap : List Bool}
    (hbook : book.jnstSellOrders = []) (hinst : ord.instrument = .jnst) (hside : ord.type = .buy) :
    (addOrder book ord heap).fills = [] ∧ (addOrder book ord heap).book.jnstSellOrders = [] := by
  have hopp : oppList ord = .jnstSellOrders := by rw [oppList, if_pos hinst, if_pos hside]
  have hown : ownList ord = .jnstBuyOrders := by rw [ownList, if_pos hinst, if_pos hside]
  have hget : book.get .jnstSellOrders = [] := hbook
  unfold addOrder
  rw [hopp, hown, hget]
  refine ⟨rfl, ?_⟩
  dsimp only [walk]
  split <;> rfl

/-- The line becomes an order. -/
theorem processLine_buy {w : World} (hin : (w.conn 5).loggedIn = true)
    (hheap : (alloc w.heap).1 = true) :
    processLine (lit "BUY JNST 1 1") 5 w
      = acceptOrder (w.exchange.newOrder .buy .jnst 1 1 (w.conn 5).clientFd (w.conn 5).serial) 5
          { w.note (.line (w.conn 5).serial (lit "BUY JNST 1 1")) with
            heap := (alloc w.heap).2 } := by
  have hscan : scanLine (cstr (lit "BUY JNST 1 1")) =
      { matched := 4, cmd := lit "BUY", arg := lit "JNST", quantity := 1, price := 1 } := by
    decide +kernel
  unfold processLine
  rw [hscan]
  dsimp only
  rw [if_neg (by omega), dispatchCommand]
  dsimp only
  rw [if_neg (by decide), if_neg (by decide), if_neg (by decide), if_neg (by decide),
    if_neg (by decide), conn_note, hin, if_neg (by decide), if_pos ⟨rfl, rfl⟩]
  exact placeOrder_accepts (w := w.note (.line (w.conn 5).serial (lit "BUY JNST 1 1")))
    .buy .jnst 5 (by decide) (by decide) hheap

/-- The order of a trader whose socket takes all, in a market without sellers: the
acknowledgement is all that is sent. -/
theorem acceptOrder_alone {w : World} {c : ClientConnection} (hc : w.slot 5 = some c)
    (hout : c.outlen = 0) (hsock : w.sock 5 = eager 5)
    (hsell : w.exchange.orderbook.jnstSellOrders = []) {ord : Order}
    (hinst : ord.instrument = .jnst) (hside : ord.type = .buy) :
    (acceptOrder ord 5 w).2 = false ∧ (acceptOrder ord 5 w).1.slot 5 = some c := by
  have hlen : (cstr (acceptedText ord.id)).length ≤ 128 := by
    have h1 : (cstr (acceptedText ord.id)).length ≤ (acceptedText ord.id).length :=
      (List.takeWhile_sublist _).length_le
    have h2 : (acceptedText ord.id).length ≤ 127 := List.length_take_le _ _
    omega
  have henv : (w.sock 5).writes = [.took 128] := by rw [hsock]; rfl
  obtain ⟨hconn, hfailed⟩ := sendToClient_at_once hout henv hlen
  let v : World := { w with exchange := w.exchange.takeId ord }
  have hv : v.slot 5 = some c := hc
  have hslot := sendLine_slot { self := 5, about := none } hv (acceptedText ord.id) 5
  have hdone := (handedOf_failed { self := 5, about := none } hv (acceptedText ord.id)).2
  rw [acceptOrder_eq, (addOrder_no_seller hsell hinst hside).1]
  rw [if_pos rfl] at hslot
  exact ⟨hdone.trans hfailed, hslot.trans (congrArg some hconn)⟩

/-- **One more accepted order**, and the trader is as before. -/
theorem buyOnce_spec {w : World} (hw : Buying w) : Buying (Run.run act w buyOnce) ∧
    (acceptedIds (Run.run act w buyOnce).exchange.log).length
      = (acceptedIds w.exchange.log).length + 1 := by
  obtain ⟨⟨c, hc, hin, hout⟩, hsell⟩ := hw
  let v : World := { w with sock := eager, heap := [] }
  have hv : v.slot 5 = some c := hc
  have hline := processLine_buy (w := v) (by rw [conn_of_slot hv]; exact hin) rfl
  generalize hord : v.exchange.newOrder .buy .jnst 1 1 (v.conn 5).clientFd (v.conn 5).serial = ord
    at hline
  have hinst : ord.instrument = .jnst := by rw [← hord]; rfl
  have hside : ord.type = .buy := by rw [← hord]; rfl
  obtain ⟨hstay, hslot⟩ := acceptOrder_alone (w := { v.note (.line (v.conn 5).serial
    (lit "BUY JNST 1 1")) with heap := (alloc v.heap).2 }) hc hout rfl hsell hinst hside
  have hx := acceptOrder_exchange ord 5 { v.note (.line (v.conn 5).serial
    (lit "BUY JNST 1 1")) with heap := (alloc v.heap).2 }
  rw [← hline] at hstay hslot hx
  have hrun : Run.run act w buyOnce = (processLine (lit "BUY JNST 1 1") 5 v).1 := by
    show act v (.client 5 (.command (lit "BUY JNST 1 1"))) = _
    simp only [act, hv, serve, removeIfDone, hstay]
    rfl
  rw [hrun]
  refine ⟨⟨⟨c, hslot, hin, hout⟩, ?_⟩, ?_⟩
  · rw [hx]
    exact (addOrder_no_seller hsell hinst hside).2
  · rw [hx, Exchange.enter, acceptedIds_append, acceptedIds_executed, List.append_nil,
      Exchange.takeId, acceptedIds_append, List.length_append]
    rfl

theorem buying_count (n : Nat) :
    (acceptedIds (Run.run act (.init 3 []) (buying n)).exchange.log).length = n := by
  have hrounds : ∀ (n : Nat) (w : World), Buying w →
      (acceptedIds (Run.run act w (List.replicate n buyOnce).flatten).exchange.log).length
        = (acceptedIds w.exchange.log).length + n := by
    intro n
    induction n with
    | zero => exact fun _ _ => rfl
    | succ n ih =>
      intro w hw
      obtain ⟨hnext, hcount⟩ := buyOnce_spec hw
      rw [List.replicate_succ, List.flatten_cons, Run.run_append, ih _ hnext, hcount]
      omega
  have hstart : Buying (Run.run act (.init 3 []) loggedIn5) :=
    ⟨⟨(Run.run act (.init 3 []) loggedIn5).conn 5, by decide +kernel, by decide +kernel,
      by decide +kernel⟩, by decide +kernel⟩
  have hnone : (acceptedIds (Run.run act (.init 3 []) loggedIn5).exchange.log).length = 0 := by
    decide +kernel
  rw [buying, Run.run_append, hrounds n _ hstart, hnone, Nat.zero_add]

/-- One order more than there are ids: the run ends with an id that is negative. -/
theorem ids_wrap_around :
    ¬ ∀ as : List Act, IdsUsable (Run.run act (.init 3 []) as) := by
  intro h
  have hnum := numbered_of_reachable ⟨3, [], buying (2 ^ 31 + 1), rfl⟩
  have hmem : wrap32 ((2 ^ 31 : Nat) : Int)
      ∈ acceptedIds (Run.run act (.init 3 []) (buying (2 ^ 31 + 1))).exchange.log := by
    rw [hnum.ids, buying_count]
    exact List.mem_map.mpr ⟨2 ^ 31, List.mem_range.mpr (Nat.lt_succ_self _), rfl⟩
  exact absurd ((h (buying (2 ^ 31 + 1))).valid _ hmem).1 (by decide)

end SocketExchange
