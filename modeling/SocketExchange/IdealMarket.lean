/-
# The server is an ideal market

To a client the server is a market: offers at an instrument and a price, by connections, in the
order in which they came.  Descriptors, the four lists of the book, what other clients' sockets
take and who has left are no part of it.  `server_is_market` says so: in every run the book and
the log are what the ideal market of `Lib/Market.lean` comes to on the orders and cancellations
the run asks for (`asked`), each in the name of the connection that sent it.

`Simulates` relates the two states.  An order is the walk over one list there and over the offers
of everybody here (`walk_meet`), a cancellation goes by descriptor there and by connection here
(`Simulates.cancel`), which is where the ownership invariant is needed, and a departure is nothing.
The volume at a price (`traded_volume`) and the independence of the prices over whole runs
(`levels_apart`) are facts about the ideal market, brought over.
-/
import SocketExchange.Lib.Market
import SocketExchange.OrderIds
import SocketExchange.Levels

namespace SocketExchange

open CText Market

/-! ## 1. What the market sees -/

/-- The level an order can trade at. -/
abbrev PriceLevel := Instrument × Int

def OrderSide.asOffered : OrderSide → Market.Side
  | .buy => .bid
  | .sell => .ask

/-- An order, without the descriptor it names. -/
def Order.offer (o : Order) : Offer PriceLevel Nat :=
  { id := o.id, owner := o.submitter, key := (o.instrument, o.price), side := o.type.asOffered
    quantity := o.quantity }

def Entry.event : Entry → Event PriceLevel Nat
  | .accepted ord => .submitted ord.offer
  | .executed inc e => .traded e.resting.offer inc.offer e.quantity
  | .cancelled ord => .withdrawn ord.offer

/-- The offer belongs in this list of the book. -/
def listed (head : ListHead) (a : Offer PriceLevel Nat) : Bool :=
  decide (a.key.1 = head.instrument ∧ a.side = head.side.asOffered)

/-- **The book and the log are those of the market.** -/
structure Simulates (x : Exchange) (m : State PriceLevel Nat) : Prop where
  lists : ∀ head, (x.orderbook.get head).map Order.offer = m.offers.filter (listed head)
  tape : m.tape = x.log.map Entry.event

/-- The id in a `CANCEL` line the server acts on. -/
def cancelIdOf (s : Scanned) (self : Nat) (w : World) : Option Int :=
  if (w.conn self).loggedIn = true ∧ s.cmd = lit "CANCEL" ∧ s.matched = 2 then orderIdOf s.arg
  else none

/-- What a line asks of the market: the order it gets accepted, or the cancellation it tries. -/
def lineRequest (line : Bytes) (self : Nat) (w : World) : Option (Market.Request PriceLevel Nat) :=
  match acceptedBy line self w with
  | some (ord, _) => some (.submit ord.offer)
  | none =>
    (cancelIdOf (scanLine (cstr line)) self w).map fun id => .withdraw id (w.conn self).serial

def actRequest (w : World) : Act → Option (Market.Request PriceLevel Nat)
  | .client fd (.command line) => if w.slot fd = none then none else lineRequest line fd w
  | _ => none

/-- What the acts of a run ask of the market, in order. -/
def asked (w : World) : List Act → List (Market.Request PriceLevel Nat)
  | [] => []
  | a :: as => (actRequest w a).toList ++ asked (act w a) as

/-! ## 2. Orders -/

theorem asOffered_inj {a b : OrderSide} : a.asOffered = b.asOffered ↔ a = b := by
  cases a <;> cases b <;> decide

/-- The walk over the other side's list is the meeting with the offers in it. -/
theorem walk_meet (ord : Order) : ∀ (l : List Order) (w : Walk),
    w.ord = { ord with quantity := w.ord.quantity } →
    (∀ o ∈ l, o.instrument = ord.instrument ∧ o.type ≠ ord.type) →
    (walk l w).1.map Order.offer
        = (meet ord.offer w.ord.quantity (l.map Order.offer)).standing ∧
      (walk l w).2.ord.quantity = (meet ord.offer w.ord.quantity (l.map Order.offer)).left ∧
      ∃ es, (walk l w).2.executed = w.executed ++ es ∧
        es.map (fun e => (e.resting.offer, e.quantity))
          = (meet ord.offer w.ord.quantity (l.map Order.offer)).gave
  | [], w, _, _ => ⟨rfl, rfl, [], (List.append_nil _).symm, rfl⟩
  | cur :: nxt, w, hw, hl => by
    have hnxt : ∀ o ∈ nxt, o.instrument = ord.instrument ∧ o.type ≠ ord.type :=
      fun o ho => hl o (List.mem_cons_of_mem cur ho)
    obtain ⟨hinst, hside⟩ := hl cur List.mem_cons_self
    have hmeets : cur.offer.Meets ord.offer ↔ cur.price = w.ord.price := by
      have hprice : w.ord.price = ord.price := by rw [hw]
      rw [hprice]
      constructor
      · rintro ⟨hkey, -⟩
        exact congrArg Prod.snd hkey
      · exact fun h => ⟨Prod.ext hinst h, fun hs => hside (asOffered_inj.mp hs)⟩
    rw [List.map_cons]
    by_cases hq : 0 < w.ord.quantity
    · by_cases hp : cur.price = w.ord.price
      · have hexec : (execute cur w).ord
            = { ord with quantity := (execute cur w).ord.quantity } := by
          rw [execute_ord, hw]
        obtain ⟨h1, h2, es, h3, h4⟩ := walk_meet ord nxt (execute cur w) hexec hnxt
        have hleft : (execute cur w).ord.quantity
            = w.ord.quantity - min w.ord.quantity cur.offer.quantity := by
          rw [execute_ord]
          rfl
        rw [hleft] at h1 h2 h4
        rw [walk, if_pos hq, if_pos hp, meet_cons_of_meets hq (hmeets.mpr hp)]
        dsimp only
        have hrest : cur.quantity - tradeQuantity w.ord cur
            = cur.offer.quantity - min w.ord.quantity cur.offer.quantity := by
          rw [tradeQuantity_eq_min]
          rfl
        refine ⟨?_, ?_, { resting := cur, quantity := min w.ord.quantity cur.quantity } :: es, ?_,
          ?_⟩
        · rw [hrest]
          split
          · exact h1
          · rw [List.map_cons, h1]
            rfl
        · split <;> exact h2
        · rw [execute_executed, List.append_assoc] at h3
          split <;> exact h3
        · rw [List.map_cons, h4]
          rfl
      · obtain ⟨h1, h2, es, h3, h4⟩ := walk_meet ord nxt w hw hnxt
        rw [walk, if_pos hq, if_neg hp, meet_cons_of_not fun h => hp (hmeets.mp h)]
        dsimp only
        exact ⟨by rw [List.map_cons, h1], h2, es, h3, h4⟩
    · rw [walk, if_neg hq, ← List.map_cons, meet_of_nonpos _ (not_lt.mp hq)]
      exact ⟨rfl, rfl, [], (List.append_nil _).symm, rfl⟩

theorem listed_of (head : ListHead) (a : Offer PriceLevel Nat) (n : Int) :
    listed head (a.of n) = listed head a := rfl

/-- An offer that meets the new one is in the opposite list. -/
theorem listed_of_meets {ord : Order} {a : Offer PriceLevel Nat} (h : a.Meets ord.offer) :
    listed (oppList ord) a = true := by
  obtain ⟨hkey, hside⟩ := h
  refine decide_eq_true ⟨?_, ?_⟩
  · rw [oppList_instrument, hkey]
    rfl
  · have hopp := oppList_side ord
    have hoff : a.side ≠ ord.type.asOffered := hside
    generalize a.side = s at hoff ⊢
    generalize (oppList ord).side = t at hopp ⊢
    generalize ord.type = u at hopp hoff
    cases s <;> cases t <;> cases u <;> simp_all [OrderSide.asOffered]

/-- An offer belongs in one list. -/
theorem listed_unique {head head' : ListHead} {a : Offer PriceLevel Nat} (h : listed head a = true)
    (h' : listed head' a = true) : head = head' := by
  obtain ⟨hi, hs⟩ := of_decide_eq_true h
  obtain ⟨hi', hs'⟩ := of_decide_eq_true h'
  exact listHead_ext (hi.symm.trans hi') (asOffered_inj.mp (hs.symm.trans hs'))

theorem listed_ownList (ord : Order) : listed (ownList ord) ord.offer = true :=
  decide_eq_true ⟨(ownList_instrument ord).symm, by rw [ownList_side]; rfl⟩

/-- **An accepted order is an offer submitted.** -/
theorem Simulates.order {x : Exchange} {m : State PriceLevel Nat} (h : Simulates x m)
    (hb : Placed x.orderbook) (ord : Order) (heap : List Bool) :
    Simulates ((x.takeId ord).enter ord heap) (Market.step m (.submit ord.offer)) := by
  have hl : ∀ o ∈ x.orderbook.get (oppList ord),
      o.instrument = ord.instrument ∧ o.type ≠ ord.type := by
    intro o ho
    obtain ⟨hi, hs⟩ := hb _ o ho
    exact ⟨hi.trans (oppList_instrument ord), fun hc => oppList_side ord (hs.symm.trans hc)⟩
  obtain ⟨h1, h2, es, h3, h4⟩ := walk_meet ord _ (.start ord heap) rfl hl
  obtain ⟨hleft, hgave, hstand⟩ := meet_filter (listed_of (oppList ord)) (o := ord.offer)
    (fun a => listed_of_meets) m.offers ord.offer.quantity
  rw [← h.lists] at hleft hgave hstand
  have hq : (Walk.start ord heap).ord.quantity = ord.offer.quantity := rfl
  rw [hq] at h1 h2 h4
  have hord := walk_ord (x.orderbook.get (oppList ord)) (.start ord heap)
  generalize hr : walk (x.orderbook.get (oppList ord)) (.start ord heap) = r at h1 h2 h3 hord
  have hleft' : r.2.ord.quantity = (meet ord.offer ord.offer.quantity m.offers).left :=
    h2.trans hleft
  constructor
  · intro head
    have hmid : ((x.orderbook.set (oppList ord) r.1).get head).map Order.offer
        = (meet ord.offer ord.offer.quantity m.offers).standing.filter (listed head) := by
      by_cases hh : head = oppList ord
      · rw [hh, LimitOrderBook.get_set_self, h1, hstand]
      · rw [LimitOrderBook.get_set_ne hh, h.lists, meet_filter_of_none (listed_of head)]
        intro a ha
        rw [Bool.eq_false_iff]
        exact fun hc => hh (listed_unique hc (listed_of_meets ha))
    have hbook : ((x.takeId ord).enter ord heap).orderbook
        = if 0 < r.2.ord.quantity then (x.orderbook.set (oppList ord) r.1).set (ownList ord)
            (append ((x.orderbook.set (oppList ord) r.1).get (ownList ord)) r.2.ord)
          else x.orderbook.set (oppList ord) r.1 := by
      rw [← hr]
      rfl
    have hoffer : r.2.ord.offer
        = ord.offer.of (meet ord.offer ord.offer.quantity m.offers).left := by
      rw [hord]
      exact congrArg ord.offer.of hleft'
    rw [hbook]
    simp only [Market.step, List.filter_append]
    rw [← hmid, ← hleft']
    split
    · by_cases hown : head = ownList ord
      · rw [hown, LimitOrderBook.get_set_self, append, List.map_append, List.filter_cons_of_pos]
        · rw [List.map_singleton, hoffer, hleft']
          rfl
        · exact listed_ownList ord
      · rw [LimitOrderBook.get_set_ne hown, List.filter_cons_of_neg, List.filter_nil,
          List.append_nil]
        exact fun hc => hown (listed_unique hc (listed_ownList ord))
    · rw [List.filter_nil, List.append_nil]
  · have hlog : ((x.takeId ord).enter ord heap).log
        = x.log ++ [.accepted ord] ++ r.2.executed.map (Entry.executed ord) := by
      rw [← hr]
      rfl
    have hexec : r.2.executed = es := h3
    rw [hlog, hexec, List.map_append, List.map_append, ← h.tape, List.append_assoc]
    refine congrArg (m.tape ++ Event.submitted ord.offer :: ·) ?_
    have hgave' : (meet ord.offer ord.offer.quantity m.offers).gave
        = es.map fun e => (e.resting.offer, e.quantity) := hgave.symm.trans h4.symm
    rw [hgave', List.map_map, List.map_map]
    rfl

/-! ## 3. Cancellations and departures -/

theorem offers_perm (l : List (Offer PriceLevel Nat)) :
    (l.filter (listed .jnstBuyOrders) ++ l.filter (listed .jnstSellOrders)
      ++ l.filter (listed .imctBuyOrders) ++ l.filter (listed .imctSellOrders)).Perm l := by
  have hcount : ∀ (head : ListHead) (a : Offer PriceLevel Nat),
      (l.filter (listed head)).count a = if listed head a = true then l.count a else 0 := by
    intro head a
    split
    · rename_i h
      exact List.count_filter h
    · rename_i h
      exact List.count_eq_zero.mpr fun hc => h (List.of_mem_filter hc)
  refine List.perm_iff_count.mpr fun a => ?_
  rw [List.count_append, List.count_append, List.count_append, hcount, hcount, hcount, hcount]
  obtain ⟨id, owner, ⟨inst, price⟩, side, n⟩ := a
  cases inst <;> cases side <;>
    simp [listed, ListHead.instrument, ListHead.side, OrderSide.asOffered]

/-- The offers are the orders of the book. -/
theorem Simulates.perm {x : Exchange} {m : State PriceLevel Nat} (h : Simulates x m) :
    m.offers.Perm (x.orderbook.orders.map Order.offer) := by
  refine (offers_perm m.offers).symm.trans (List.Perm.of_eq ?_)
  rw [← h.lists, ← h.lists, ← h.lists, ← h.lists, ← List.map_append, ← List.map_append,
    ← List.map_append]
  rfl

/-- **A cancellation is a withdrawal**, by the connection under the descriptor. -/
theorem Simulates.cancel {x : Exchange} {m : State PriceLevel Nat} (h : Simulates x m)
    (hb : WellFormed x.orderbook) {fd : Int} {k : Nat}
    (hown : ∀ o ∈ x.orderbook.orders, o.clientFd = fd ↔ o.submitter = k) (id : Int) :
    Simulates ((x.cancel id fd).elim x Prod.snd) (Market.step m (.withdraw id k)) := by
  have hnamed : ∀ o : Order, o.offer.named id k = decide (o.id = id ∧ o.submitter = k) :=
    fun _ => rfl
  have hperm : (m.offers.filter fun a => a.named id k).Perm
      ((x.orderbook.orders.filter fun o => o.offer.named id k).map Order.offer) := by
    refine (h.perm.filter _).trans (List.Perm.of_eq ?_)
    rw [List.filter_map]
    rfl
  have hlists : ∀ head, ((x.orderbook.get head).filter fun o => !o.offer.named id k).map Order.offer
      = (m.offers.filter fun a => !a.named id k).filter (listed head) := by
    intro head
    rw [List.filter_comm, ← h.lists, List.filter_map]
    rfl
  unfold Exchange.cancel
  cases hr : cancelOrder x.orderbook id fd with
  | none =>
    -- nobody has such an offer
    have hno : ∀ o ∈ x.orderbook.orders, o.offer.named id k = false := by
      intro o ho
      refine decide_eq_false fun hc => cancelOrder_eq_none.mp hr o ho ⟨hc.1, (hown o ho).mpr hc.2⟩
    have hempty : (x.orderbook.orders.filter fun o => o.offer.named id k) = [] :=
      List.filter_eq_nil_iff.mpr fun o ho => by rw [hno o ho]; exact Bool.false_ne_true
    rw [hempty] at hperm
    constructor
    · intro head
      refine Eq.trans ?_ (hlists head)
      rw [List.filter_eq_self.mpr fun o ho => by rw [hno o (mem_orders_of_mem_get ho)]; rfl]
      rfl
    · simp only [Market.step]
      rw [List.perm_nil.mp hperm]
      exact (List.append_nil _).trans h.tape
  | some r =>
    obtain ⟨hmem, hid, hfd, hbook⟩ := hb.cancel_eq_filterMap hr
    have hone : ∀ o ∈ x.orderbook.orders, o.offer.named id k = decide (o.id = id) := by
      intro o ho
      refine (hnamed o).trans (decide_eq_decide.mpr ⟨And.left, fun hoid => ⟨hoid, ?_⟩⟩)
      rw [hb.eq_of_id ho hmem (hoid.trans hid.symm)]
      exact (hown r.1 hmem).mp hfd
    have hsingle : (x.orderbook.orders.filter fun o => o.offer.named id k) = [r.1] := by
      rw [List.filter_congr hone, ← hid]
      exact filter_id_of_nodup hb.once hmem
    rw [hsingle] at hperm
    constructor
    · intro head
      refine Eq.trans ?_ (hlists head)
      refine congrArg (List.map Order.offer) ?_
      refine (congrArg (fun b : LimitOrderBook => b.get head) hbook).trans ?_
      rw [get_filterMap, filterMap_drop]
      refine List.filter_congr fun o ho => ?_
      rw [hone o (mem_orders_of_mem_get ho), decide_not]
    · simp only [Market.step]
      rw [List.perm_singleton.mp hperm, h.tape]
      exact (@List.map_append _ _ Entry.event x.log [.cancelled r.1]).symm

/-- **A departure is nothing.** -/
theorem Simulates.depart {x : Exchange} {m : State PriceLevel Nat} (h : Simulates x m) (fd : Int) :
    Simulates (x.depart fd) m := by
  refine ⟨fun head => ?_, h.tape⟩
  rw [← h.lists, Exchange.depart, get_detachClientOrders, detachIn, List.map_map]
  refine List.map_congr_left fun o _ => ?_
  rw [Function.comp_apply]
  unfold detach
  split <;> rfl

/-! ## 4. The server -/

section Lines

variable (self : Nat) (w : World)

/-- The commands about the session leave the exchange. -/
theorem loginUser_exchange (username : Bytes) :
    (loginUser username self w).1.exchange = w.exchange := by
  unfold loginUser
  split
  · rfl
  · split
    · rfl
    · split <;> rfl

theorem subscribeClient_exchange (instrument : Bytes) :
    (subscribeClient instrument self w).1.exchange = w.exchange := by
  unfold subscribeClient
  split
  · rfl
  · split
    · rfl
    · split <;> rfl

theorem unsubscribeClient_exchange (instrument : Bytes) :
    (unsubscribeClient instrument self w).1.exchange = w.exchange := by
  unfold unsubscribeClient
  split
  · rfl
  · split
    · rfl
    · split <;> rfl

/-- So does an order that is refused. -/
theorem placeOrder_exchange {side : OrderSide} {instrument : Bytes} {quantity price : Int}
    (h : placedBy side instrument quantity price self w = none) :
    (placeOrder side instrument quantity price self w).1.exchange = w.exchange := by
  unfold placedBy at h
  unfold placeOrder
  cases hinst : instrumentOf instrument with
  | none => rfl
  | some inst =>
    rw [hinst] at h
    dsimp only at h ⊢
    split
    · rfl
    · rename_i hpos
      rw [if_neg hpos] at h
      split
      · rfl
      · rename_i halloc
        rw [if_neg halloc] at h
        cases h

theorem cancelUserOrder_exchange (orderIdStr : Bytes) :
    (cancelUserOrder orderIdStr self w).1.exchange
      = (orderIdOf orderIdStr).elim w.exchange fun id =>
          (w.exchange.cancel id (w.conn self).clientFd).elim w.exchange Prod.snd := by
  unfold cancelUserOrder
  cases orderIdOf orderIdStr with
  | none => rfl
  | some id =>
    dsimp only [Option.elim_some]
    cases w.exchange.cancel id (w.conn self).clientFd <;> rfl

/-- A line that gets no order accepted cancels one, or leaves the exchange. -/
theorem dispatchCommand_exchange {s : Scanned} (h : acceptedOf s self w = none) :
    (dispatchCommand s self w).1.exchange
      = (cancelIdOf s self w).elim w.exchange fun id =>
          (w.exchange.cancel id (w.conn self).clientFd).elim w.exchange Prod.snd := by
  have hother : ¬ (s.cmd = lit "CANCEL" ∧ s.matched = 2) → cancelIdOf s self w = none :=
    fun hn => if_neg fun hc => hn hc.2
  have hcmd : ∀ {t : Bytes}, s.cmd = t → t ≠ lit "CANCEL" → cancelIdOf s self w = none :=
    fun ht hne => hother fun hc => hne (ht.symm.trans hc.1)
  unfold dispatchCommand
  split
  · rename_i hlen
    rw [hother fun hc => by rw [hc.1] at hlen; exact absurd hlen (by decide)]
    rfl
  · split
    · rename_i hc
      rw [hcmd hc.1 (by decide)]
      split
      · rfl
      · exact loginUser_exchange self w _
    · split
      · rename_i hc
        rw [hcmd hc.1 (by decide)]
        exact subscribeClient_exchange self w _
      · split
        · rename_i hc
          rw [hcmd hc.1 (by decide)]
          rfl
        · split
          · rename_i hc
            rw [hcmd hc.1 (by decide)]
            exact unsubscribeClient_exchange self w _
          · unfold acceptedOf at h
            split
            · rename_i hin
              rw [cancelIdOf, if_neg fun hc => by rw [hin] at hc; exact absurd hc.1 (by decide)]
              rfl
            · rename_i hin
              rw [if_neg hin] at h
              split
              · rename_i hc
                rw [if_pos hc] at h
                rw [hcmd hc.1 (by decide)]
                exact placeOrder_exchange self w h
              · rename_i hb
                rw [if_neg hb] at h
                split
                · rename_i hc
                  rw [if_pos hc] at h
                  rw [hcmd hc.1 (by decide)]
                  exact placeOrder_exchange self w h
                · split
                  · rename_i hc
                    rw [cancelIdOf, if_pos ⟨by simpa using hin, hc⟩]
                    exact cancelUserOrder_exchange self w _
                  · rename_i hc
                    rw [hother hc]
                    rfl

end Lines

/-- The descriptor of a connection and its number name the same orders. -/
theorem Owned.same_orders {w : World} (hw : Owned w) {fd : Nat} {c : ClientConnection}
    (hc : w.slot fd = some c) :
    ∀ o ∈ w.exchange.orderbook.orders, o.clientFd = c.clientFd ↔ o.submitter = c.serial := by
  intro o ho
  have hb := badge_of_slot hc
  have hfd := hw.housed.own _ _ _ hb
  rcases (hw.orders o ho).1 with ⟨n, hn, f, hf⟩ | ⟨hn, hno⟩
  · constructor
    · intro h
      have hnfd : n = fd := by omega
      rw [hnfd, hb] at hf
      exact (congrArg Prod.fst (Option.some.inj hf)).symm
    · intro h
      rw [h] at hf
      rw [hn, hw.housed.distinct _ _ _ _ _ hf hb, hfd]
  · constructor
    · intro h
      omega
    · intro h
      exact absurd (h ▸ hb) (hno fd c.clientFd)

theorem Simulates.removeIfDone {s : World × Bool} {m : State PriceLevel Nat}
    (h : Simulates s.1.exchange m) (fd : Nat) : Simulates (removeIfDone fd s).exchange m := by
  unfold SocketExchange.removeIfDone
  split
  · rw [removeClient_exchange]
    exact h.depart fd
  · exact h

/-- A line that gets an order accepted enters it. -/
theorem Handling.entered {self : Nat} {w : World} {q : Bool} {ord : Order} {heap : List Bool}
    {r : World × Bool} (h : Handling self w q (some (ord, heap)) r) :
    r.1.exchange = (w.exchange.takeId ord).enter ord heap := by
  cases h with
  | accepted => exact acceptOrder_exchange _ _ _

/-- What a line gets accepted is for something. -/
theorem Handling.positive {self : Nat} {w : World} {q : Bool} {ord : Order} {heap : List Bool}
    {r : World × Bool} (h : Handling self w q (some (ord, heap)) r) : 0 < ord.quantity := by
  cases h with
  | accepted heap side inst hq hp hin hord =>
    rw [hord]
    exact hq.1

/-- **An act does to the server what its request does to the market.** -/
theorem Simulates.act {w : World} {m : State PriceLevel Nat} (h : Simulates w.exchange m)
    (hw : Owned w) (hb : WellFormed w.exchange.orderbook) (a : Act) :
    Simulates (act w a).exchange (Run.run Market.step m (actRequest w a).toList) := by
  cases a with
  | supply sock heap => exact h
  | accept fd grown calloced armed =>
    rw [SocketExchange.act]
    split
    · exact h
    · rw [acceptClient_exchange]
      exact h
  | client fd a =>
    cases hc : w.slot fd with
    | none =>
      have hnone : actRequest w (.client fd a) = none := by
        cases a <;> first | rfl | simp [actRequest, hc]
      rw [hnone]
      simp only [SocketExchange.act, hc]
      exact h
    | some c =>
      simp only [SocketExchange.act, hc]
      cases a with
      | applied => exact h
      | received got => exact h
      | buffered f => exact h
      | overlong => exact Simulates.removeIfDone (s := rejectLine fd w) h fd
      | flush => exact Simulates.removeIfDone (s := flushClient fd w) h fd
      | drop =>
        simp only [serve]
        rw [removeClient_exchange]
        exact h.depart fd
      | command line =>
        refine Simulates.removeIfDone (s := processLine line fd w) ?_ fd
        have hconn := conn_of_slot hc
        have hreq : actRequest w (.client fd (.command line)) = lineRequest line fd w := by
          simp [actRequest, hc]
        rw [hreq]
        have hhandling := processLine_handling fd w line
        unfold lineRequest
        cases hacc : acceptedBy line fd w with
        | some x =>
          rw [hacc] at hhandling
          rw [hhandling.entered]
          exact h.order hb.placed x.1 x.2
        | none =>
          rw [hacc] at hhandling
          have hx : (processLine line fd w).1.exchange
              = (cancelIdOf (scanLine (cstr line)) fd w).elim w.exchange fun id =>
                  (w.exchange.cancel id c.clientFd).elim w.exchange Prod.snd := by
            unfold processLine
            dsimp only
            split
            · rename_i hm
              rw [cancelIdOf, if_neg fun hc => by omega]
              rfl
            · rw [dispatchCommand_exchange fd (w.note _) hacc, conn_note, hconn]
              rfl
          rw [hx, hconn]
          cases cancelIdOf (scanLine (cstr line)) fd w with
          | none => exact h
          | some id => exact h.cancel hb (hw.same_orders hc) id

theorem log_step (x : Exchange) (op : Op) : x.log <+: (x.step op).log := by
  cases op with
  | order side inst quantity price clientFd submitter heap =>
    rw [Exchange.step]
    split
    · exact List.prefix_rfl
    · exact (List.prefix_append _ _).trans (List.prefix_append _ _)
  | cancel id clientFd =>
    rw [Exchange.step]
    split
    · rename_i r hr
      obtain ⟨r', -, rfl⟩ := Option.map_eq_some_iff.mp hr
      exact List.prefix_append _ _
    · exact List.prefix_rfl
  | depart clientFd => exact List.prefix_rfl

/-- The log only grows. -/
theorem log_act (w : World) (a : Act) : w.exchange.log <+: (act w a).exchange.log := by
  obtain ⟨ops, -, hx⟩ := act_operated w a
  rw [hx]
  exact Run.run_related (R := fun x y : Exchange => x.log <+: y.log) (fun _ => List.prefix_rfl)
    List.IsPrefix.trans log_step ops w.exchange

theorem asked_append (bs : List Act) : ∀ (as : List Act) (w : World),
    asked w (as ++ bs) = asked w as ++ asked (Run.run act w as) bs
  | [], _ => rfl
  | a :: as, w => by
    rw [List.cons_append, asked, asked, asked_append bs as, List.append_assoc]
    rfl

/-- **A run does to the server what its requests do to the market.** -/
theorem simulates_run {w : World} {m : State PriceLevel Nat} (h : Simulates w.exchange m)
    (hw : Reachable w) (as : List Act)
    (hcount : (acceptedIds (Run.run act w as).exchange.log).length < 2 ^ 31) :
    Simulates (Run.run act w as).exchange (Run.run Market.step m (asked w as)) := by
  induction as using List.reverseRecOn with
  | nil => exact h
  | append_singleton as a ih =>
    have hreach : Reachable (Run.run act w as) :=
      hw.steps (P := Any) ⟨as, fun _ _ => trivial, rfl⟩
    rw [Run.run_append] at hcount ⊢
    rw [asked_append, Run.run_append]
    generalize Run.run act w as = v at hcount ih hreach ⊢
    have hfew : (acceptedIds v.exchange.log).length < 2 ^ 31 :=
      ((log_act v a).filterMap _).length_le.trans_lt hcount
    have hstep := (ih hfew).act (owned_of_reachable hreach)
      (balanced_of_reachable hreach hfew).sound.book a
    rw [asked, asked, List.append_nil]
    exact hstep

theorem simulates_init (serverFd : Nat) (others : List Nat) :
    Simulates (World.init serverFd others).exchange Market.start :=
  ⟨fun head => by cases head <;> rfl, rfl⟩

/-- **The server is an ideal market.**  In every run that accepts fewer than `2 ^ 31` orders the
book and the log are those of the market on what the run asks for, each order and cancellation
in the name of its connection. -/
theorem server_is_market (serverFd : Nat) (others : List Nat) (as : List Act)
    (hcount : (acceptedIds (Run.run act (.init serverFd others) as).exchange.log).length < 2 ^ 31) :
    Simulates (Run.run act (.init serverFd others) as).exchange
      (Run.run Market.step Market.start (asked (.init serverFd others) as)) :=
  simulates_run (simulates_init serverFd others) ⟨serverFd, others, [], rfl⟩ as hcount

/-- The buyer of `market` orders 4 at the seller's price and 3 at another, and cancels these. -/
def boughtFour : List Act :=
  market ++ [.supply willing [], .client 7 (.command (lit "BUY JNST 4 5")), .supply willing [],
    .client 7 (.command (lit "BUY JNST 3 6")), .client 7 (.command (lit "CANCEL 2"))]

theorem server_is_market_boughtFour :
    (asked (.init 3 []) boughtFour).length = 4 ∧
      Simulates (Run.run act (.init 3 []) boughtFour).exchange
        (Run.run Market.step Market.start (asked (.init 3 []) boughtFour)) :=
  ⟨by decide +kernel, server_is_market 3 [] boughtFour (by decide +kernel)⟩

/-! ## 5. What follows of the ideal market -/

/-- Nobody asks for nothing. -/
theorem asked_positive : ∀ (as : List Act) (w : World), ∀ r ∈ asked w as, r.Positive
  | [], _, _, hr => absurd hr List.not_mem_nil
  | a :: as, w, r, hr => by
    rcases List.mem_append.mp hr with hr | hr
    · rw [Option.mem_toList] at hr
      unfold actRequest at hr
      split at hr
      · rename_i fd line _
        split at hr
        · cases hr
        · have h := processLine_handling fd w line
          unfold lineRequest at hr
          split at hr
          · rename_i hacc
            rw [hacc] at h
            cases hr
            exact h.positive
          · obtain ⟨id, -, rfl⟩ := Option.map_eq_some_iff.mp hr
            trivial
      · cases hr
    · exact asked_positive as (act w a) r hr

/-- The log as the tape of the market. -/
def Exchange.tape (x : Exchange) : List (Event PriceLevel Nat) := x.log.map Entry.event

/-- **The volume traded at a price** is the smaller of what was ordered on the two sides and not
cancelled, in every state of every run: in whatever order it came, whoever left, and whether
anybody was told. -/
theorem traded_volume {w : World} (hw : Reachable w)
    (hcount : (acceptedIds w.exchange.log).length < 2 ^ 31) (level : PriceLevel) :
    volume w.exchange.tape level
      = min (offered w.exchange.tape level .bid - withdrawn w.exchange.tape level .bid)
          (offered w.exchange.tape level .ask - withdrawn w.exchange.tape level .ask) := by
  obtain ⟨serverFd, others, as, rfl⟩ := hw
  have hsim := simulates_run (simulates_init serverFd others) ⟨serverFd, others, [], rfl⟩ as hcount
  rw [Exchange.tape, ← hsim.tape]
  exact (run_sound (asked_positive as _)).volume_eq level

theorem traded_volume_boughtFour :
    let tape := (Run.run act (.init 3 []) boughtFour).exchange.tape
    (offered tape (.jnst, 5) .bid = 4 ∧ offered tape (.jnst, 5) .ask = 10) ∧
      volume tape (.jnst, 5)
        = min (offered tape (.jnst, 5) .bid - withdrawn tape (.jnst, 5) .bid)
            (offered tape (.jnst, 5) .ask - withdrawn tape (.jnst, 5) .ask) :=
  ⟨by decide +kernel, traded_volume ⟨3, [], boughtFour, rfl⟩ (by decide +kernel) (.jnst, 5)⟩

/-- **The price levels are markets of their own.**  In every run what is ordered, traded and
cancelled at a level, and who stands there, is what the market comes to on the orders at that
level and the cancellations alone. -/
theorem levels_apart (serverFd : Nat) (others : List Nat) (as : List Act)
    (hcount : (acceptedIds (Run.run act (.init serverFd others) as).exchange.log).length < 2 ^ 31)
    (level : PriceLevel) :
    let x := (Run.run act (.init serverFd others) as).exchange
    let m := Run.run Market.step Market.start
      ((asked (.init serverFd others) as).filter fun r => r.concerns level)
    x.tape.filter (Event.isAt level) = m.tape ∧
      ∀ head, head.instrument = level.1 →
        (queue x.orderbook head level.2).map Order.offer = m.offers.filter (listed head) := by
  intro x m
  have hsim : Simulates x _ :=
    simulates_run (simulates_init serverFd others) ⟨serverFd, others, [], rfl⟩ as hcount
  have hm :
      (Run.run Market.step Market.start (asked (.init serverFd others) as)).restrict level = m :=
    run_restrict level _
  constructor
  · rw [← hm, Exchange.tape, ← hsim.tape]
    rfl
  · intro head hhead
    rw [← hm, State.restrict, List.filter_comm, ← hsim.lists, List.filter_map]
    refine congrArg (List.map Order.offer) ?_
    refine List.filter_congr fun o ho => decide_eq_decide.mpr ?_
    have hplaced := (balanced_of_reachable ⟨serverFd, others, as, rfl⟩ hcount).sound.book.placed
    constructor
    · exact fun hp => Prod.ext ((hplaced head o ho).1.trans hhead) hp
    · exact fun hk => congrArg Prod.snd hk

theorem levels_apart_boughtFour :
    let x := (Run.run act (.init 3 []) boughtFour).exchange
    let m := Run.run Market.step Market.start
      ((asked (.init 3 []) boughtFour).filter fun r => r.concerns (.jnst, 5))
    x.tape.length = 5 ∧ m.tape.length = 3 ∧ x.tape.filter (Event.isAt (.jnst, 5)) = m.tape :=
  ⟨by decide +kernel, by decide +kernel,
    (levels_apart 3 [] boughtFour (by decide +kernel) (.jnst, 5)).1⟩

end SocketExchange
