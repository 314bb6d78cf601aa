/-
# Who is told what

The reference for the messages of an accepted order speaks of connections and executions, not
of slots and fills: the submitter is told that its order was accepted; then, execution by
execution, the buyer and the seller are told if they are connected, and every market-data
client that subscribes to the instrument is told of the trade.  `placeOrder_routed` says that
these are the messages handed to `sendLine`, whole and in this order.

`same_trades` is what subscribers get from it: over a period in which two of them subscribe to
an instrument they are sent the same `TRADE` lines in the same order.
-/
import SocketExchange.Ownership

namespace SocketExchange

open CText

/-! ## 1. The server's orders are made of `int`s -/

/-- What holds of an exchange after operations with values in range, however many: unlike
`WellFormed` it says nothing about ids being new. -/
structure InInts (x : Exchange) : Prop where
  placed : Placed x.orderbook
  orders : ∀ o ∈ x.orderbook.orders,
    (0 < o.quantity ∧ o.quantity < 2 ^ 31) ∧ 0 < o.price ∧ o.price < 2 ^ 31
  nextId : -2 ^ 31 ≤ x.nextOrderId ∧ x.nextOrderId < 2 ^ 31

theorem wrap32_range (n : Int) : -2 ^ 31 ≤ wrap32 n ∧ wrap32 n < 2 ^ 31 := narrow32_range n

theorem InInts.enter {x : Exchange} (hx : InInts x) {ord : Order}
    (hq : 0 < ord.quantity ∧ ord.quantity < 2 ^ 31) (hp : 0 < ord.price ∧ ord.price < 2 ^ 31)
    (heap : List Bool) : InInts ((x.takeId ord).enter ord heap) := by
  have hpos : ∀ o ∈ x.orderbook.orders, 0 < o.quantity := fun o ho => (hx.orders o ho).1.1
  refine ⟨?_, ?_, wrap32_range _⟩
  · intro head o' ho'
    rcases addOrder_remnant hpos ord heap ho' with ⟨o, ho, hr, -⟩ | ⟨rfl, hr, -⟩
    · rw [hr]
      exact hx.placed head o ho
    · rw [hr]
      exact ⟨(ownList_instrument ord).symm, (ownList_side ord).symm⟩
  · intro o' ho'
    obtain ⟨head, hhead⟩ := LimitOrderBook.mem_orders.mp ho'
    rcases addOrder_remnant hpos ord heap hhead with ⟨o, ho, hr, h1, h2⟩ | ⟨-, hr, h1, h2⟩
    · have hold := hx.orders o (mem_orders_of_mem_get ho)
      rw [hr]
      exact ⟨⟨h1, by dsimp only; omega⟩, hold.2⟩
    · rw [hr]
      exact ⟨⟨h1, by dsimp only; omega⟩, hp⟩

/-- Operations with values in range keep them in range. -/
theorem InInts.step {x : Exchange} (hx : InInts x) {op : Op} (hop : op.InRange) :
    InInts (x.step op) := by
  cases op with
  | order side inst quantity price clientFd submitter heap =>
    simp only [Exchange.step]
    split
    · exact hx
    · exact hx.enter ⟨by simp only [Exchange.newOrder]; omega, hop.1⟩
        ⟨by simp only [Exchange.newOrder]; omega, hop.2⟩ heap
  | cancel id clientFd =>
    simp only [Exchange.step]
    split
    · rename_i r hr
      obtain ⟨r', hr', rfl⟩ := Option.map_eq_some_iff.mp hr
      refine ⟨fun head o ho => hx.placed head o (mem_get_of_cancel hr' head o ho), ?_, hx.nextId⟩
      intro o ho
      obtain ⟨head, hhead⟩ := LimitOrderBook.mem_orders.mp ho
      exact hx.orders o (mem_orders_of_mem_get (mem_get_of_cancel hr' head o hhead))
    · exact hx
  | depart clientFd =>
    refine ⟨?_, ?_, hx.nextId⟩
    · intro head o' ho'
      simp only [Exchange.step, Exchange.depart, get_detachClientOrders, detachIn] at ho'
      obtain ⟨o, ho, rfl⟩ := List.mem_map.mp ho'
      rw [detach_instrument, detach_type]
      exact hx.placed head o ho
    · intro o' ho'
      simp only [Exchange.step, Exchange.depart, orders_detach] at ho'
      obtain ⟨o, ho, rfl⟩ := List.mem_map.mp ho'
      rw [detach_quantity, detach_price]
      exact hx.orders o ho

theorem inInts_init : InInts Exchange.init :=
  ⟨fun head o ho => (by cases head <;> cases ho), fun o ho => (by cases ho), by decide⟩

theorem inInts_of_reachable {w : World} (hw : Reachable w) : InInts w.exchange := by
  obtain ⟨ops, hr, heq⟩ := exchange_of_reachable hw
  rw [heq]
  have h : ∀ (ops : List Op) (x : Exchange), (∀ op ∈ ops, op.InRange) → InInts x →
      InInts (Run.run Exchange.step x ops) := by
    intro ops
    induction ops with
    | nil => exact fun _ _ hx => hx
    | cons op ops ih =>
      exact fun x hr hx => ih _ (fun o ho => hr o (List.mem_cons_of_mem _ ho))
        (hx.step (hr op List.mem_cons_self))
  exact h ops _ hr inInts_init

/-! ## 2. The reference -/

/-- The connections, by number. -/
def World.connected (w : World) : List Nat :=
  w.conns.filterMap (Option.map ClientConnection.serial)

/-- The market-data clients that subscribe to an instrument, by number. -/
def World.subscribers (w : World) (inst : Instrument) : List Nat :=
  w.conns.filterMap fun s =>
    if wantsTrades inst s then s.map ClientConnection.serial else none

/-- `<verb> <instrument> <quantity> <price>` and a newline. -/
def fillLine (verb : Bytes) (inst : Instrument) (quantity price : Int) : Bytes :=
  verb ++ lit " " ++ instrumentName inst ++ lit " " ++ decimalInt quantity ++ lit " "
    ++ decimalInt price ++ lit "\n"

/-- A message to a connection, while there is one of that number. -/
def ifConnected (w : World) (k : Nat) (msg : Bytes) : List (Nat × Bytes) :=
  if k ∈ w.connected then [(k, msg)] else []

/-- Who is told what about one execution of an order. -/
def executionMessages (w : World) (ord : Order) (e : Execution) : List (Nat × Bytes) :=
  let buyer := if ord.type = .buy then ord.submitter else e.resting.submitter
  let seller := if ord.type = .buy then e.resting.submitter else ord.submitter
  ifConnected w buyer (fillLine (lit "BOUGHT") ord.instrument e.quantity ord.price)
    ++ ifConnected w seller (fillLine (lit "SOLD") ord.instrument e.quantity ord.price)
    ++ (w.subscribers ord.instrument).map fun k =>
      (k, fillLine (lit "TRADE") ord.instrument e.quantity ord.price)

/-- **Who is told what about an order**: its submitter that it is accepted, and then everybody
concerned of each execution of the reference matcher. -/
def routed (w : World) (ord : Order) : List (Nat × Bytes) :=
  (ord.submitter, lit "ORDER_ACCEPTED " ++ decimalInt ord.id ++ lit "\n") ::
    (executions w.exchange.orderbook ord).flatMap (executionMessages w ord)

/-! ## 3. Whole messages -/

theorem length_instrumentName (inst : Instrument) : (instrumentName inst).length = 4 := by
  cases inst <;> decide

theorem zero_not_mem_instrumentName (inst : Instrument) : 0 ∉ instrumentName inst := by
  cases inst <;> decide

/-- Nothing of a message about an execution is cut off. -/
theorem fillText_eq {verb : Bytes} (hv : verb.length ≤ 6) {fill : Fill}
    (hq : -2 ^ 31 ≤ fill.quantity ∧ fill.quantity < 2 ^ 31)
    (hp : -2 ^ 31 ≤ fill.price ∧ fill.price < 2 ^ 31) :
    fillText verb fill = fillLine verb fill.instrument fill.quantity fill.price := by
  have h1 := length_decimalInt_le hq.1 hq.2
  have h2 := length_decimalInt_le hp.1 hp.2
  have hs : (lit " ").length = 1 := by decide
  have hn : (lit "\n").length = 1 := by decide
  refine snprintf_of_lt ?_
  simp only [List.length_append, length_instrumentName, hs, hn]
  omega

theorem acceptedText_eq {id : Int} (h : -2 ^ 31 ≤ id ∧ id < 2 ^ 31) :
    acceptedText id = lit "ORDER_ACCEPTED " ++ decimalInt id ++ lit "\n" := by
  have h1 := length_decimalInt_le h.1 h.2
  have h2 : (lit "ORDER_ACCEPTED ").length = 15 := by decide
  have hn : (lit "\n").length = 1 := by decide
  refine snprintf_of_lt ?_
  simp only [List.length_append, h2, hn]
  omega

/-- Nor does a NUL end it early. -/
theorem cstr_fillLine {verb : Bytes} (hv : 0 ∉ verb) (inst : Instrument) (quantity price : Int) :
    cstr (fillLine verb inst quantity price) = fillLine verb inst quantity price := by
  have hs : 0 ∉ lit " " := by decide
  have hn : 0 ∉ lit "\n" := by decide
  refine cstr_of_not_mem ?_
  unfold fillLine
  simp only [List.mem_append, not_or]
  exact ⟨⟨⟨⟨⟨⟨⟨hv, hs⟩, zero_not_mem_instrumentName inst⟩, hs⟩, zero_not_mem_decimalInt _⟩, hs⟩,
    zero_not_mem_decimalInt _⟩, hn⟩

theorem cstr_accepted (id : Int) :
    cstr (lit "ORDER_ACCEPTED " ++ decimalInt id ++ lit "\n")
      = lit "ORDER_ACCEPTED " ++ decimalInt id ++ lit "\n" := by
  have ha : 0 ∉ lit "ORDER_ACCEPTED " := by decide
  have hn : 0 ∉ lit "\n" := by decide
  refine cstr_of_not_mem ?_
  simp only [List.mem_append, not_or]
  exact ⟨⟨ha, zero_not_mem_decimalInt _⟩, hn⟩

theorem routed_whole {w : World} {ord : Order} {m : Nat × Bytes} (h : m ∈ routed w ord) :
    cstr m.2 = m.2 := by
  have hif : ∀ {k msg}, m ∈ ifConnected w k msg → m.2 = msg := by
    intro k msg hm
    unfold ifConnected at hm
    split at hm
    · rw [List.mem_singleton.mp hm]
    · simp at hm
  rcases List.mem_cons.mp h with rfl | h
  · exact cstr_accepted _
  · obtain ⟨e, -, he⟩ := List.mem_flatMap.mp h
    rcases List.mem_append.mp he with he | he
    · rcases List.mem_append.mp he with he | he
      · rw [hif he]
        exact cstr_fillLine (by decide) _ _ _
      · rw [hif he]
        exact cstr_fillLine (by decide) _ _ _
    · obtain ⟨k, -, rfl⟩ := List.mem_map.mp he
      exact cstr_fillLine (by decide) _ _ _

/-! ## 4. From slots to connections -/

theorem mem_connected {w : World} {k : Nat} :
    k ∈ w.connected ↔ ∃ fd f, w.badge fd = some (k, f) := by
  unfold World.connected World.badge World.slot
  rw [List.mem_filterMap]
  constructor
  · rintro ⟨s, hs, hk⟩
    obtain ⟨c, rfl, rfl⟩ := Option.map_eq_some_iff.mp hk
    obtain ⟨fd, hfd⟩ := List.mem_iff_getElem?.mp hs
    exact ⟨fd, c.clientFd, by rw [hfd]; rfl⟩
  · rintro ⟨fd, f, h⟩
    obtain ⟨c, hc, hkf⟩ := Option.map_eq_some_iff.mp h
    refine ⟨some c, ?_, congrArg some (congrArg Prod.fst hkf)⟩
    exact List.mem_iff_getElem?.mpr ⟨fd, Option.join_eq_some_iff.mp hc⟩

/-- A notification reaches the owner of the order if it is connected, and nobody else. -/
theorem notification_routed {w : World} {clientFd : Int} {k : Nat} (h : OwnedBy w clientFd k)
    (msg : Bytes) :
    ((notification w clientFd k msg).map fun d => ((w.conn d.fd).serial, d.msg))
      = ifConnected w k msg := by
  unfold ifConnected
  rcases h with ⟨fd, rfl, f, hf⟩ | ⟨rfl, hno⟩
  · obtain ⟨c, hc, hk, -⟩ := slot_of_badge hf
    have hcond :
        ¬ (((fd : Int) < 0 ∨ (fd : Int) ≥ w.currCap) ∨ w.slot (fd : Int).toNat = none) := by
      have := slot_lt hc
      rw [Int.toNat_natCast, hc]
      simp only [reduceCtorEq, or_false]
      omega
    unfold notification
    rw [if_pos (mem_connected.mpr ⟨fd, f, hf⟩), if_neg (fun h => hcond (or_assoc.mpr h))]
    simp only [List.map_cons, List.map_nil, Int.toNat_natCast, conn_of_slot hc, hk]
  · unfold notification
    rw [if_pos (.inl (by omega)), if_neg]
    · rfl
    · rintro hk
      obtain ⟨fd, f, hf⟩ := mem_connected.mp hk
      exact hno fd f hf

/-- A list is its entries in the order of their indices. -/
theorem range_map_join (l : List (Option ClientConnection)) :
    (List.range l.length).map (fun j => l[j]?.join) = l := by
  refine List.ext_getElem (by simp) fun n h1 h2 => ?_
  rw [List.getElem_map, List.getElem_range, List.getElem?_eq_getElem h2]
  rfl

theorem map_filter_eq_filterMap {β γ : Type} (p : β → Bool) (g : β → γ) : ∀ l : List β,
    (l.filter p).map g = l.filterMap fun b => if p b then some (g b) else none
  | [] => rfl
  | b :: l => by
    have ih := map_filter_eq_filterMap p g l
    cases hb : p b <;> simp [hb, ih]

/-- The trades go to the subscribers, each once. -/
theorem trades_routed (w : World) (fill : Fill) :
    ((trades w fill).map fun d => ((w.conn d.fd).serial, d.msg))
      = (w.subscribers fill.instrument).map fun k => (k, fillText (lit "TRADE") fill) := by
  have hsub : w.subscribers fill.instrument = (List.range w.currCap).filterMap fun j =>
      if wantsTrades fill.instrument (w.slot j) then some (w.conn j).serial else none := by
    unfold World.subscribers
    conv_lhs => rw [← range_map_join w.conns]
    rw [List.filterMap_map]
    refine List.filterMap_congr fun j _ => ?_
    show (if wantsTrades fill.instrument (w.slot j) then
      (w.slot j).map ClientConnection.serial else none) = _
    cases hs : w.slot j with
    | none => rfl
    | some c => rw [conn_of_slot hs]; rfl
  rw [hsub, ← map_filter_eq_filterMap, trades, List.map_map, List.map_map]
  rfl

/-- Everything an execution sends. -/
theorem fillDeliveries_routed {w : World} (hw : Owned w) (hi : InInts w.exchange) {ord : Order}
    (hord : OwnedBy w ord.clientFd ord.submitter) (hp : 0 < ord.price ∧ ord.price < 2 ^ 31)
    {e : Execution} (he : e ∈ executions w.exchange.orderbook ord) :
    ((fillDeliveries w (report ord e)).map fun d => ((w.conn d.fd).serial, d.msg))
      = executionMessages w ord e := by
  obtain ⟨hmem, hcross⟩ := crosses_of_mem he
  have hq : 0 < e.quantity ∧ e.quantity < 2 ^ 31 := by
    obtain ⟨x, hx, rfl⟩ := List.mem_map.mp he
    have hpos : ∀ o ∈ matchable w.exchange.orderbook ord, 0 < o.quantity := fun o ho =>
      (hi.orders o (List.mem_of_mem_filter ho)).1.1
    have hbd := Fifo.amount_bounds Order.quantity hpos x hx
    have := (hi.orders x.1 hmem).1.2
    exact ⟨hbd.1, lt_of_le_of_lt hbd.2 this⟩
  have hrest := (hw.orders e.resting hmem).1
  have hbuy : OwnedBy w (report ord e).buyClientFd (report ord e).buyer := by
    unfold report
    dsimp only
    split
    · exact hord
    · exact hrest
  have hsell : OwnedBy w (report ord e).sellClientFd (report ord e).seller := by
    unfold report
    dsimp only
    split
    · exact hrest
    · exact hord
  have htext : ∀ {verb : Bytes}, verb.length ≤ 6 →
      fillText verb (report ord e) = fillLine verb ord.instrument e.quantity ord.price :=
    fun hv => fillText_eq hv ⟨le_trans (by decide) hq.1.le, hq.2⟩
      ⟨le_trans (by decide) hp.1.le, hp.2⟩
  unfold fillDeliveries
  rw [List.map_append, List.map_append, notification_routed hbuy,
    notification_routed hsell, trades_routed, htext (by decide), htext (by decide),
    htext (by decide)]
  unfold executionMessages report
  dsimp only
  split <;> rfl

/-! ## 5. What `placeOrder` sends -/

theorem eq_instrumentName {instrument : Bytes} {inst : Instrument}
    (h : instrumentOf instrument = some inst) : instrument = instrumentName inst := by
  unfold instrumentOf at h
  split at h
  · rename_i hj
    cases h
    exact hj
  · split at h
    · rename_i hi
      cases h
      exact hi
    · cases h

theorem instrumentOf_name (inst : Instrument) : instrumentOf (instrumentName inst) = some inst := by
  cases inst <;> decide

/-- `placeOrder` on values it accepts. -/
theorem placeOrder_accepts {w : World} (side : OrderSide) (inst : Instrument) {quantity price : Int}
    (self : Nat) (hq : 0 < quantity) (hp : 0 < price) (hheap : (alloc w.heap).1 = true) :
    placeOrder side (instrumentName inst) quantity price self w
      = acceptOrder (w.exchange.newOrder side inst quantity price (w.conn self).clientFd
          (w.conn self).serial) self { w with heap := (alloc w.heap).2 } := by
  unfold placeOrder
  rw [instrumentOf_name]
  dsimp only
  rw [if_neg (by omega), hheap]
  rfl

/-- **What an accepted order sends.**  In every reachable state, with allocations that succeed,
the messages `placeOrder` hands to `sendLine` are those of the reference, whole and in its
order, and nobody else is handed anything. -/
theorem placeOrder_routed {w : World} (hw : Reachable w) {self : Nat} {c : ClientConnection}
    (hc : w.slot self = some c) (side : OrderSide) (inst : Instrument) {quantity price : Int}
    (hq : 0 < quantity ∧ quantity < 2 ^ 31) (hp : 0 < price ∧ price < 2 ^ 31)
    (hheap : ∀ ok ∈ w.heap, ok = true) :
    ∃ hs : List Handed,
      (placeOrder side (instrumentName inst) quantity price self w).1.trace
          = w.trace ++ hs.map Obs.handed ∧
        (hs.map fun h => (h.receiver, h.msg))
          = routed w (w.exchange.newOrder side inst quantity price c.clientFd c.serial) ∧
        ∀ h ∈ hs, cstr h.msg = h.msg := by
  have hown := owned_of_reachable hw
  have hints := inInts_of_reachable hw
  obtain ⟨hok, hrest⟩ := alloc_succeeds hheap
  have hconn : w.conn self = c := conn_of_slot hc
  rw [placeOrder_accepts side inst self hq.1 hp.1 hok, hconn]
  set ord := w.exchange.newOrder side inst quantity price c.clientFd c.serial with hord
  have hbadge := badge_of_slot hc
  have howner : OwnedBy w ord.clientFd ord.submitter :=
    .inl ⟨self, by rw [hord, Exchange.newOrder, hown.housed.own _ _ _ hbadge], _, hbadge⟩
  obtain ⟨hs, htrace, hwhat⟩ := acceptOrder_trace ord self { w with heap := (alloc w.heap).2 }
  have hfills : (addOrder w.exchange.orderbook ord (alloc w.heap).2).fills
      = (executions w.exchange.orderbook ord).map (report ord) :=
    hints.placed.addOrder_fills ord hrest
  have hmsgs : (hs.map fun h => (h.receiver, h.msg)) = routed w ord := by
    have h1 := congrArg (List.map fun x : Nat × Nat × Option Nat × Bytes => (x.2.1, x.2.2.2)) hwhat
    rw [List.map_map, List.map_map, List.map_cons] at h1
    refine h1.trans ?_
    unfold routed
    refine congrArg₂ _ ?_ ?_
    · show ((w.conn self).serial, acceptedText ord.id) = _
      rw [hconn, acceptedText_eq (show -2 ^ 31 ≤ ord.id ∧ ord.id < 2 ^ 31 from hints.nextId)]
      rfl
    · show List.map _ (deliveries w
        (addOrder w.exchange.orderbook ord (alloc w.heap).2).fills) = _
      rw [hfills, deliveries, List.flatMap_map, List.map_flatMap]
      refine List.flatMap_congr fun e he => ?_
      exact fillDeliveries_routed hown hints howner hp he
  refine ⟨hs, htrace, hmsgs, fun h hh => ?_⟩
  exact routed_whole (show (h.receiver, h.msg) ∈ routed w ord from hmsgs ▸ List.mem_map_of_mem hh)

/-! ## 6. What subscribers get -/

/-- The message reports a trade in this instrument. -/
def isTrade (inst : Instrument) (msg : Bytes) : Bool :=
  (lit "TRADE " ++ instrumentName inst ++ lit " ").isPrefixOf msg

/-- The trade of this instrument that an observation hands to a connection. -/
def Obs.tradeTo (inst : Instrument) (k : Nat) : Obs → Option Bytes
  | .handed h => if h.receiver = k ∧ isTrade inst h.msg then some h.msg else none
  | _ => none

/-- The trades of an instrument a connection was handed, in order. -/
def tradesTo (inst : Instrument) (k : Nat) (trace : List Obs) : List Bytes :=
  trace.filterMap (Obs.tradeTo inst k)

@[simp] theorem tradesTo_append (inst : Instrument) (k : Nat) (l m : List Obs) :
    tradesTo inst k (l ++ m) = tradesTo inst k l ++ tradesTo inst k m := List.filterMap_append

/-- Messages, seen as receiver and text. -/
theorem tradesTo_handed (inst : Instrument) (k : Nat) : ∀ hs : List Handed,
    tradesTo inst k (hs.map Obs.handed)
      = (hs.map fun h => (h.receiver, h.msg)).filterMap fun m =>
          if m.1 = k ∧ isTrade inst m.2 then some m.2 else none
  | [] => rfl
  | h :: hs => by
    have ih := tradesTo_handed inst k hs
    unfold tradesTo at *
    rw [List.map_cons, List.filterMap_cons, ih, List.map_cons, List.filterMap_cons]
    rfl

/-- A text that starts with another letter is no trade. -/
theorem isTrade_of_head {inst : Instrument} {b : Byte} (hb : b ≠ 84) (text : Bytes) :
    isTrade inst (b :: text) = false := by
  have h : lit "TRADE " = 84 :: lit "RADE " := by decide
  unfold isTrade
  rw [h]
  simp [List.isPrefixOf, Ne.symm hb]

theorem isTrade_reply {inst : Instrument} {msg : Bytes} (h : IsReply msg) :
    isTrade inst msg = false := by
  rcases h with rfl | ⟨reason, rfl⟩
  · exact isTrade_of_head (by decide) _
  · exact isTrade_of_head (b := 69) (by decide) _

theorem isTrade_accepted (inst : Instrument) (id : Int) : isTrade inst (acceptedText id) = false :=
  isTrade_of_head (b := 79) (by decide) _

theorem isTrade_cancelled (inst : Instrument) (id : Int) :
    isTrade inst (cancelledText id) = false :=
  isTrade_of_head (b := 79) (by decide) _

theorem isTrade_bought (inst : Instrument) (fill : Fill) :
    isTrade inst (fillText (lit "BOUGHT") fill) = false :=
  isTrade_of_head (b := 66) (by decide) _

theorem isTrade_sold (inst : Instrument) (fill : Fill) :
    isTrade inst (fillText (lit "SOLD") fill) = false :=
  isTrade_of_head (b := 83) (by decide) _

theorem isTrade_trade (inst : Instrument) (fill : Fill) :
    isTrade inst (fillText (lit "TRADE") fill) = decide (fill.instrument = inst) := by
  unfold isTrade fillText
  cases inst <;> cases fill.instrument <;> rfl

/-- No connection is listed twice among the subscribers. -/
theorem subscribers_nodup {w : World} (hw : Housed w) (inst : Instrument) :
    (w.subscribers inst).Nodup := by
  unfold World.subscribers
  rw [List.Nodup, List.pairwise_filterMap, List.pairwise_iff_getElem]
  intro i j hi hj hij k hk k' hk' heq
  have hslot : ∀ {n : Nat} (hn : n < w.conns.length) {m : Nat},
      (if wantsTrades inst w.conns[n] then (w.conns[n]).map ClientConnection.serial else none)
        = some m → ∃ f, w.badge n = some (m, f) := by
    intro n hn m h
    split at h
    · obtain ⟨c, hc, rfl⟩ := Option.map_eq_some_iff.mp h
      refine ⟨c.clientFd, badge_of_slot ?_⟩
      rw [World.slot, List.getElem?_eq_getElem hn, hc]
      rfl
    · cases h
  obtain ⟨f, hf⟩ := hslot hi hk
  obtain ⟨f', hf'⟩ := hslot hj hk'
  rw [heq] at hf
  exact absurd (hw.distinct i j k' f f' hf hf') (by omega)

/-- One text sent to everybody on a list without repetitions. -/
theorem filterMap_one {k : Nat} {text : Bytes} {p : Bool} : ∀ {ks : List Nat}, ks.Nodup → k ∈ ks →
    (ks.map fun i => (i, text)).filterMap
        (fun m : Nat × Bytes => if m.1 = k ∧ p then some m.2 else none)
      = if p then [text] else []
  | i :: ks, hnd, hk => by
    rw [List.nodup_cons] at hnd
    rw [List.map_cons, List.filterMap_cons]
    have hnone : k ∉ ks → (ks.map fun i => (i, text)).filterMap
        (fun m : Nat × Bytes => if m.1 = k ∧ p then some m.2 else none) = [] := by
      intro hno
      rw [List.filterMap_map, List.filterMap_eq_nil_iff]
      intro j hj
      have hjk : j ≠ k := fun h => hno (h ▸ hj)
      simp [hjk]
    rcases List.mem_cons.mp hk with rfl | hk
    · rw [hnone hnd.1]
      cases p <;> simp
    · have hik : i ≠ k := fun h => hnd.1 (h ▸ hk)
      simp only [hik, false_and, if_false]
      exact filterMap_one hnd.2 hk

/-- The trades one fill sends a subscriber: its own, if it is in the instrument. -/
theorem fillDeliveries_trades {w : World} (hw : Housed w) {inst : Instrument} {k : Nat}
    (hk : k ∈ w.subscribers inst) (fill : Fill) :
    ((fillDeliveries w fill).map fun d => ((w.conn d.fd).serial, d.msg)).filterMap
        (fun m : Nat × Bytes => if m.1 = k ∧ isTrade inst m.2 then some m.2 else none)
      = if fill.instrument = inst then [fillText (lit "TRADE") fill] else [] := by
  have hnote : ∀ (clientFd : Int) (about : Nat) {msg : Bytes}, isTrade inst msg = false →
      ((notification w clientFd about msg).map fun d => ((w.conn d.fd).serial, d.msg)).filterMap
        (fun m : Nat × Bytes => if m.1 = k ∧ isTrade inst m.2 then some m.2 else none) = [] := by
    intro clientFd about msg hmsg
    unfold notification
    split
    · rfl
    · simp [hmsg]
  have htrade : ∀ ks : List Nat,
      (ks.map fun i => (i, fillText (lit "TRADE") fill)).filterMap
        (fun m : Nat × Bytes => if m.1 = k ∧ isTrade inst m.2 then some m.2 else none)
      = (ks.map fun i => (i, fillText (lit "TRADE") fill)).filterMap
        (fun m : Nat × Bytes => if m.1 = k ∧ decide (fill.instrument = inst) then some m.2
          else none) := by
    intro ks
    refine List.filterMap_congr fun m hm => ?_
    obtain ⟨i, -, rfl⟩ := List.mem_map.mp hm
    rw [isTrade_trade]
  unfold fillDeliveries
  rw [List.map_append, List.map_append, List.filterMap_append, List.filterMap_append,
    hnote _ _ (isTrade_bought inst fill), hnote _ _ (isTrade_sold inst fill), trades_routed, htrade]
  by_cases hinst : fill.instrument = inst
  · rw [hinst, filterMap_one (subscribers_nodup hw inst) hk]
    simp
  · simp [hinst]

/-- What a step adds to the trades of an instrument is the same for every subscriber. -/
def TradesAlike (inst : Instrument) (w w' : World) : Prop :=
  ∃ lines, ∀ k ∈ w.subscribers inst,
    tradesTo inst k w'.trace = tradesTo inst k w.trace ++ lines

/-- A step that notes no trade. -/
theorem TradesAlike.none {inst : Instrument} {w w' : World} {new : List Obs}
    (h : w'.trace = w.trace ++ new)
    (hnew : ∀ o ∈ new, ∀ x, o = .handed x → isTrade inst x.msg = false) :
    TradesAlike inst w w' := by
  refine ⟨[], fun k _ => ?_⟩
  rw [h, tradesTo_append]
  congr 1
  refine List.filterMap_eq_nil_iff.mpr fun o ho => ?_
  cases o with
  | handed x => simp [Obs.tradeTo, hnew _ ho x rfl]
  | _ => rfl

theorem acceptOrder_tradesAlike {w : World} (hw : Housed w) (inst : Instrument) (ord : Order)
    (self : Nat) : TradesAlike inst w (acceptOrder ord self w).1 := by
  obtain ⟨hs, htrace, hwhat⟩ := acceptOrder_trace ord self w
  have hmsgs := congrArg
    (List.map fun x : Nat × Nat × Option Nat × Bytes => (x.2.1, x.2.2.2)) hwhat
  rw [List.map_map, List.map_map, List.map_cons] at hmsgs
  refine ⟨(addOrder w.exchange.orderbook ord w.heap).fills.flatMap fun fill =>
    if fill.instrument = inst then [fillText (lit "TRADE") fill] else [], fun k hk => ?_⟩
  rw [htrace, tradesTo_append, tradesTo_handed]
  refine congrArg _ ((congrArg (List.filterMap _) hmsgs).trans ?_)
  rw [List.filterMap_cons]
  have hacc : isTrade inst (acceptedText ord.id) = false := isTrade_accepted inst ord.id
  simp only [Function.comp_apply, hacc, Bool.false_eq_true, and_false, if_false]
  generalize (addOrder w.exchange.orderbook ord w.heap).fills = fills
  -- fill by fill, each sends every subscriber the same
  induction fills with
  | nil => rfl
  | cons fill fills ih =>
    rw [List.flatMap_cons, ← ih, ← fillDeliveries_trades hw hk fill]
    unfold deliveries
    rw [List.flatMap_cons, List.map_append, List.filterMap_append]
    rfl

/-- Whatever a line does, subscribers learn the same trades from it. -/
theorem Handling.tradesAlike {self : Nat} {w : World} (hw : Housed w) (inst : Instrument)
    {q : Bool} {o : Option (Order × List Bool)} {r : World × Bool} (h : Handling self w q o r) :
    TradesAlike inst w r.1 := by
  cases h with
  | silent => exact .none (List.append_nil _).symm (by simp)
  | replied heap f hf hrole hmsg =>
    refine .none (sendLine_trace _ _ _ _) fun o ho x hx => ?_
    rw [List.mem_singleton] at ho
    rw [ho] at hx
    cases hx
    exact isTrade_reply hmsg
  | quit =>
    refine .none (sendLine_trace _ _ _ _) fun o ho x hx => ?_
    rw [List.mem_singleton] at ho
    rw [ho] at hx
    cases hx
    exact isTrade_reply (.inl rfl)
  | @accepted heap side i quantity price hq hp hin ord hord =>
    have hhouse : Housed { w with heap := heap } :=
      hw.of_alike ⟨fun _ => rfl, rfl, rfl, rfl, le_refl _⟩
    exact acceptOrder_tradesAlike hhouse inst _ self
  | @cancelled id r hr =>
    have htrace : (reply self (cancelledText id)
        ({ w with exchange := r.2 }.note (.cancelled (w.conn self).serial r.1))).1.trace
        = w.trace ++ [.cancelled (w.conn self).serial r.1, .handed (handedOf
          { self := self, about := none } self (cancelledText id)
          ({ w with exchange := r.2 }.note (.cancelled (w.conn self).serial r.1)))] :=
      List.append_assoc _ _ _
    refine .none htrace fun o ho x hx => ?_
    subst hx
    rcases List.mem_cons.mp ho with ho | ho
    · cases ho
    · cases List.mem_singleton.mp ho
      exact isTrade_cancelled inst id

theorem TradesAlike.trans_quiet {inst : Instrument} {w v w' : World} (h : TradesAlike inst w v)
    {new : List Obs} (htrace : w'.trace = v.trace ++ new) (hnew : ∀ o ∈ new, o.isOutput = false) :
    TradesAlike inst w w' := by
  obtain ⟨lines, hl⟩ := h
  refine ⟨lines, fun k hk => ?_⟩
  rw [htrace, tradesTo_append, hl k hk, List.append_assoc]
  refine congrArg _ ?_
  rw [show tradesTo inst k new = [] from List.filterMap_eq_nil_iff.mpr fun o ho => ?_,
    List.append_nil]
  have := hnew o ho
  cases o <;> first | rfl | cases this

theorem removeIfDone_trace (fd : Nat) (s : World × Bool) :
    ∃ new, (removeIfDone fd s).trace = s.1.trace ++ new ∧ ∀ o ∈ new, o.isOutput = false := by
  obtain ⟨new, htrace, hnew⟩ := removeIfDone_notes fd s
  refine ⟨new, htrace, fun o ho => ?_⟩
  obtain ⟨-, c, -, rfl⟩ := hnew o ho
  rfl

/-- A removal hands nothing over. -/
theorem handed_of_removeIfDone {fd : Nat} {s : World × Bool} {x : Handed}
    (h : .handed x ∈ (removeIfDone fd s).trace) : .handed x ∈ s.1.trace := by
  obtain ⟨more, hmore, hout⟩ := removeIfDone_trace fd s
  rw [hmore] at h
  refine (List.mem_append.mp h).resolve_right fun h => ?_
  cases hout _ h

theorem removeIfDone_hands {w : World} {P : Handed → Prop} (fd : Nat) (s : World × Bool)
    (new : List Obs) (htrace : s.1.trace = w.trace ++ new) (hnew : ∀ x, .handed x ∈ new → P x) :
    ∃ new, (removeIfDone fd s).trace = w.trace ++ new ∧ ∀ x, .handed x ∈ new → P x := by
  obtain ⟨more, hmore, hout⟩ := removeIfDone_trace fd s
  refine ⟨new ++ more, by rw [hmore, htrace, List.append_assoc], fun x hx => ?_⟩
  rcases List.mem_append.mp hx with hx | hx
  · exact hnew x hx
  · cases hout _ hx

theorem TradesAlike.quiet {inst : Instrument} {w w' : World} {new : List Obs}
    (h : w'.trace = w.trace ++ new) (hnew : ∀ o ∈ new, o.isOutput = false) :
    TradesAlike inst w w' :=
  .none h fun o ho x hx => by
    have := hnew o ho
    rw [hx] at this
    cases this

/-- **Whatever happens, subscribers learn the same trades from it.** -/
theorem act_tradesAlike {w : World} (hw : Housed w) (inst : Instrument) (a : Act) :
    TradesAlike inst w (act w a) := by
  have hnil : TradesAlike inst w w := .quiet (List.append_nil _).symm (by simp)
  cases a with
  | supply sock heap => exact hnil
  | accept fd grown calloced armed =>
    rw [act]
    split
    · exact hnil
    · rename_i h
      have hcases := acceptClient_cases hw.table h (hw.slot_none h) grown calloced armed
      split at hcases
      · exact .quiet hcases.trace (by simp [Obs.isOutput])
      · exact .quiet (hcases.trace.trans (List.append_nil _).symm) (by simp)
  | client fd a =>
    rw [act]
    split
    · exact hnil
    · rename_i c hc
      cases a with
      | applied => exact .quiet rfl (by simp [Obs.isOutput])
      | received got => exact .quiet rfl (by simp [Obs.isOutput])
      | buffered f => exact hnil
      | command line =>
        have hnote : Housed (w.note (.line (w.conn fd).serial line)) :=
          hw.of_alike ⟨fun _ => rfl, rfl, rfl, rfl, le_refl _⟩
        obtain ⟨new, hnew, hout⟩ := removeIfDone_trace fd (processLine line fd w)
        obtain ⟨lines, hl⟩ := (processLine_handling fd w line).tradesAlike hnote inst
        have h1 : TradesAlike inst w (processLine line fd w).1 := by
          refine ⟨lines, fun k hk => (hl k hk).trans ?_⟩
          rw [trace_note, tradesTo_append]
          exact congrArg (· ++ lines) (List.append_nil _)
        exact h1.trans_quiet hnew hout
      | overlong =>
        obtain ⟨new, hnew, hout⟩ := removeIfDone_trace fd (rejectLine fd w)
        have htrace : (rejectLine fd w).1.trace = w.trace ++ [.tooLong (w.conn fd).serial,
            .handed (handedOf { self := fd, about := none } fd
              (snprintf 64 (lit "ERROR " ++ lit "Message too long" ++ lit "\n"))
              (w.note (.tooLong (w.conn fd).serial)))] := List.append_assoc _ _ _
        have h1 : TradesAlike inst w (rejectLine fd w).1 := by
          refine .none htrace fun o ho x hx => ?_
          subst hx
          rcases List.mem_cons.mp ho with ho | ho
          · cases ho
          · cases List.mem_singleton.mp ho
            exact isTrade_reply (.inr ⟨_, rfl⟩)
        exact h1.trans_quiet hnew hout
      | flush =>
        obtain ⟨new, hnew, hout⟩ := removeIfDone_trace fd (flushClient fd w)
        have h1 : TradesAlike inst w (flushClient fd w).1 :=
          .quiet (trace_note _ _) (by simp [Obs.isOutput])
        exact h1.trans_quiet hnew hout
      | drop => exact .quiet (removeClient_trace hc) (by simp [Obs.isOutput])

/-- **Subscribers of one period get the same trades.**  Two connections that subscribe to an
instrument in every state of a period are handed the same `TRADE` lines of that instrument, in
the same order. -/
theorem same_trades {inst : Instrument} {k k' : Nat} : ∀ (as : List Act) {w : World}, Owned w →
    Run.Meets act (fun w _ => k ∈ w.subscribers inst ∧ k' ∈ w.subscribers inst) w as →
    ∃ lines, tradesTo inst k (Run.run act w as).trace = tradesTo inst k w.trace ++ lines ∧
      tradesTo inst k' (Run.run act w as).trace = tradesTo inst k' w.trace ++ lines
  | [], w, _, _ => ⟨[], (List.append_nil _).symm, (List.append_nil _).symm⟩
  | a :: as, w, hw, ⟨⟨hk, hk'⟩, hrest⟩ => by
    obtain ⟨lines, hl⟩ := act_tradesAlike hw.housed inst a
    obtain ⟨more, h1, h2⟩ := same_trades as (owned_act hw a) hrest
    refine ⟨lines ++ more, ?_, ?_⟩
    · rw [Run.run_cons, h1, hl k hk, List.append_assoc]
    · rw [Run.run_cons, h2, hl k' hk', List.append_assoc]

/-- **Exact notification routing.**  In every reachable state an accepted order hands over
exactly the messages of the reference, whole and in its order, and in every period two
subscribers of an instrument are handed the same trades. -/
theorem notification_routing {w : World} (hw : Reachable w) :
    (∀ self c, w.slot self = some c → ∀ side inst quantity price,
      (0 < quantity ∧ quantity < 2 ^ 31) → (0 < price ∧ price < 2 ^ 31) →
      (∀ ok ∈ w.heap, ok = true) →
      ∃ hs : List Handed,
        (placeOrder side (instrumentName inst) quantity price self w).1.trace
            = w.trace ++ hs.map Obs.handed ∧
          (hs.map fun h => (h.receiver, h.msg))
            = routed w (w.exchange.newOrder side inst quantity price c.clientFd c.serial) ∧
          ∀ h ∈ hs, cstr h.msg = h.msg) ∧
    ∀ inst k k' as,
      Run.Meets act (fun w _ => k ∈ w.subscribers inst ∧ k' ∈ w.subscribers inst) w as →
      ∃ lines, tradesTo inst k (Run.run act w as).trace = tradesTo inst k w.trace ++ lines ∧
        tradesTo inst k' (Run.run act w as).trace = tradesTo inst k' w.trace ++ lines :=
  ⟨fun _ _ hc side inst _ _ hq hp hheap => placeOrder_routed hw hc side inst hq hp hheap,
    fun _ _ _ as h => same_trades as (owned_of_reachable hw) h⟩

/-- Sockets that take every message whole. -/
def willing : Nat → SockEnv := fun _ => { writes := List.replicate 4 (.took 100), mallocs := [] }

/-- A seller of 10 under descriptor 5, a subscriber under 6 and a buyer under 7. -/
def market : List Act :=
  [ .accept 5 true true true, .accept 6 true true true, .accept 7 true true true,
    .supply willing [], .client 5 (.command (lit "LOGIN ann")),
    .client 5 (.command (lit "SELL JNST 10 5")), .client 6 (.command (lit "SUBSCRIBE JNST")),
    .client 7 (.command (lit "LOGIN bob")) ]

/-- The buyer of `market` orders 4. -/
theorem notification_routing_market :
    let w := Run.run act (.init 3 []) market
    routed w (w.exchange.newOrder .buy .jnst 4 5 7 2)
        = [ (2, lit "ORDER_ACCEPTED 1\n"), (2, lit "BOUGHT JNST 4 5\n"),
          (0, lit "SOLD JNST 4 5\n"), (1, lit "TRADE JNST 4 5\n") ] ∧
      ∃ hs : List Handed,
        (placeOrder .buy (lit "JNST") 4 5 7 w).1.trace = w.trace ++ hs.map Obs.handed ∧
          (hs.map fun h => (h.receiver, h.msg))
            = routed w (w.exchange.newOrder .buy .jnst 4 5 7 2) ∧
          ∀ h ∈ hs, cstr h.msg = h.msg := by
  intro w
  have hslot : w.slot 7 = some (w.conn 7) := by decide +kernel
  have hfd : (w.conn 7).clientFd = 7 := by decide +kernel
  have hserial : (w.conn 7).serial = 2 := by decide +kernel
  have hheap : ∀ ok ∈ w.heap, ok = true := by decide +kernel
  have h := (notification_routing ⟨3, [], market, rfl⟩).1 7 (w.conn 7) hslot .buy .jnst 4 5
    (by decide) (by decide) hheap
  rw [hfd, hserial] at h
  exact ⟨by decide +kernel, h⟩

end SocketExchange
