/-
# What a command sends

The messages an accepted order causes are decided before the first of them is sent: sending
changes output queues only, and neither who is connected nor who subscribes to what
(`sendLine_roster`).  `deliveries` lists them, and `acceptOrder_eq` says that `acceptOrder`
hands over exactly these, in this order.

`Handling` lists what handling one line can come to, one constructor for each way; what later
modules prove about commands they prove by cases on it (`processLine_handling`).
-/
import SocketExchange.Io

namespace SocketExchange

open CText

/-! ## 1. The deliveries of an order -/

/-- A message on its way to a slot; `about` as in `Cause`. -/
structure Delivery where
  fd : Nat
  about : Option Nat
  msg : Bytes
  deriving DecidableEq, Repr

/-- What `notifyClient` sends. -/
def notification (w : World) (clientFd : Int) (about : Nat) (msg : Bytes) : List Delivery :=
  if clientFd < 0 ∨ clientFd ≥ w.currCap ∨ w.slot clientFd.toNat = none then []
  else [{ fd := clientFd.toNat, about := some about, msg := msg }]

/-- What the loop over `conns` sends for one execution. -/
def trades (w : World) (fill : Fill) : List Delivery :=
  ((List.range w.currCap).filter fun j => wantsTrades fill.instrument (w.slot j)).map
    fun j => { fd := j, about := none, msg := fillText (lit "TRADE") fill }

/-- What one execution sends. -/
def fillDeliveries (w : World) (fill : Fill) : List Delivery :=
  notification w fill.buyClientFd fill.buyer (fillText (lit "BOUGHT") fill)
    ++ notification w fill.sellClientFd fill.seller (fillText (lit "SOLD") fill)
    ++ trades w fill

/-- What the executions of an order send. -/
def deliveries (w : World) (fills : List Fill) : List Delivery :=
  fills.flatMap (fillDeliveries w)

/-- Sending one of them; a notification of `self` that fails is remembered. -/
def hand (self : Nat) (s : World × Bool) (d : Delivery) : World × Bool :=
  let r := sendLine { self := self, about := d.about } d.fd d.msg s.1
  (r.1, if (d.about.isSome ∧ d.fd = (r.1.conn self).clientFd) ∧ r.2 = true then true else s.2)

@[simp] theorem hand_roster (self : Nat) (s : World × Bool) (d : Delivery) :
    (hand self s d).1.roster = s.1.roster := sendLine_roster _ _ _ _

theorem foldl_hand_roster (self : Nat) (ds : List Delivery) (s : World × Bool) :
    (ds.foldl (hand self) s).1.roster = s.1.roster :=
  Run.run_related (R := fun s t : World × Bool => t.1.roster = s.1.roster) (fun _ => rfl)
    (fun h h' => h'.trans h) (hand_roster self) ds s

/-- **What one delivery keeps, all of them keep**, by what is known of each and of the roster,
which stays. -/
theorem foldl_hand_keeps (self : Nat) {w : World} {ok : Delivery → Prop} {I : World × Bool → Prop}
    (hstep : ∀ s d, s.1.roster = w.roster → I s → ok d → I (hand self s d)) {ds : List Delivery}
    {s : World × Bool} (hds : ∀ d ∈ ds, ok d) (hs : s.1.roster = w.roster) (h : I s) :
    I (ds.foldl (hand self) s) := by
  have hboth := Run.run_invariant_of_mem (I := fun t => t.1.roster = w.roster ∧ I t)
    (fun t d ht hd => ⟨(hand_roster self t d).trans ht.1, hstep t d ht.1 ht.2 hd⟩) ds s hds ⟨hs, h⟩
  exact hboth.2

@[simp] theorem wantsTrades_bare (inst : Instrument) (s : Option ClientConnection) :
    wantsTrades inst (s.map ClientConnection.bare) = wantsTrades inst s := by
  cases s with
  | none => rfl
  | some c => cases inst <;> rfl

section Roster

variable {w w' : World} (h : w'.roster = w.roster)

include h

/-! Deliveries are decided by the roster. -/

theorem wantsTrades_of_roster (inst : Instrument) (j : Nat) :
    wantsTrades inst (w'.slot j) = wantsTrades inst (w.slot j) := by
  rw [← wantsTrades_bare inst (w'.slot j), ← wantsTrades_bare inst (w.slot j), slot_view, slot_view]
  exact congrArg (fun r : List (Option ClientConnection) => wantsTrades inst r[j]?.join) h

theorem notification_of_roster (clientFd : Int) (about : Nat) (msg : Bytes) :
    notification w' clientFd about msg = notification w clientFd about msg := by
  have hcap : w'.currCap = w.currCap := currCap_of_view h
  have hslot : ∀ n, w'.slot n = none ↔ w.slot n = none := fun n => slot_none_of_view h
  unfold notification
  simp only [hcap, hslot]

theorem trades_of_roster (fill : Fill) : trades w' fill = trades w fill := by
  have hcap : w'.currCap = w.currCap := currCap_of_view h
  unfold trades
  simp only [hcap, wantsTrades_of_roster h]

theorem deliveries_of_roster (fills : List Fill) : deliveries w' fills = deliveries w fills := by
  unfold deliveries fillDeliveries
  simp only [notification_of_roster h, trades_of_roster h]

end Roster

/-- What the fills of an order send, by kind. -/
theorem deliveries_kind {w : World} {fills : List Fill} {d : Delivery}
    (hd : d ∈ deliveries w fills) : ∃ fill ∈ fills,
      (d.about = some fill.buyer ∧ d.msg = fillText (lit "BOUGHT") fill) ∨
      (d.about = some fill.seller ∧ d.msg = fillText (lit "SOLD") fill) ∨
      (d.about = none ∧ d.msg = fillText (lit "TRADE") fill ∧
        wantsTrades fill.instrument (w.slot d.fd) = true) := by
  have hnote : ∀ {clientFd : Int} {about : Nat} {msg : Bytes},
      d ∈ notification w clientFd about msg → d.about = some about ∧ d.msg = msg := by
    intro clientFd about msg h
    unfold notification at h
    split at h
    · simp at h
    · rw [List.mem_singleton.mp h]
      exact ⟨rfl, rfl⟩
  obtain ⟨fill, hfill, h⟩ := List.mem_flatMap.mp hd
  refine ⟨fill, hfill, ?_⟩
  rcases List.mem_append.mp h with h | h
  · rcases List.mem_append.mp h with h | h
    · exact .inl (hnote h)
    · exact .inr (.inl (hnote h))
  · obtain ⟨j, hj, rfl⟩ := List.mem_map.mp h
    exact .inr (.inr ⟨rfl, rfl, (List.mem_filter.mp hj).2⟩)

/-- Deliveries go to filled slots. -/
theorem deliveries_live {w : World} {fills : List Fill} {d : Delivery}
    (hd : d ∈ deliveries w fills) : ∃ c, w.slot d.fd = some c := by
  have hnote : ∀ {clientFd : Int} {about : Nat} {msg : Bytes},
      d ∈ notification w clientFd about msg → ∃ c, w.slot d.fd = some c := by
    intro clientFd about msg h
    unfold notification at h
    split at h
    · simp at h
    · rename_i hcond
      rw [List.mem_singleton] at h
      subst h
      exact Option.ne_none_iff_exists'.mp fun h => hcond (.inr (.inr h))
  obtain ⟨fill, -, h⟩ := List.mem_flatMap.mp hd
  rcases List.mem_append.mp h with h | h
  · rcases List.mem_append.mp h with h | h
    · exact hnote h
    · exact hnote h
  · obtain ⟨j, hj, rfl⟩ := List.mem_map.mp h
    have hwant := (List.mem_filter.mp hj).2
    cases hs : w.slot j with
    | none =>
      rw [hs] at hwant
      cases hwant
    | some c => exact ⟨c, rfl⟩

/-! ## 2. `acceptOrder` hands over its deliveries -/

theorem notifyClient_eq (clientFd : Int) (about : Nat) (msg : Bytes) (self : Nat)
    (s : World × Bool) : notifyClient clientFd about msg self s
      = (notification s.1 clientFd about msg).foldl (hand self) s := by
  unfold notifyClient notification
  split
  · rfl
  · rename_i h
    have h0 : ((clientFd.toNat : Nat) : Int) = clientFd := Int.toNat_of_nonneg (by omega)
    simp only [List.foldl_cons, List.foldl_nil, hand, Option.isSome_some, true_and]
    have hiff : ∀ n : Nat, clientFd = (n : Int) ↔ clientFd.toNat = n := fun n => by omega
    simp only [hiff]

theorem hand_trade (fill : Fill) (self j : Nat) (s : World × Bool) :
    hand self s { fd := j, about := none, msg := fillText (lit "TRADE") fill }
      = ((sendLine { self := self, about := none } j (fillText (lit "TRADE") fill) s.1).1,
          s.2) := by
  simp [hand]

/-- The loop that sends `TRADE`, over the slots it would find wanting one at the start. -/
theorem foldl_tradeTo (fill : Fill) (self : Nat) (b : Bool) : ∀ (js : List Nat) (w : World),
    (js.foldl (tradeTo fill self) w, b)
      = ((js.filter fun j => wantsTrades fill.instrument (w.slot j)).map fun j =>
          ({ fd := j, about := none, msg := fillText (lit "TRADE") fill } : Delivery)).foldl
        (hand self) (w, b)
  | [], _ => rfl
  | j :: js, w => by
    have hw : (tradeTo fill self w j).roster = w.roster := by
      unfold tradeTo
      split
      · exact sendLine_roster _ _ _ _
      · rfl
    rw [List.foldl_cons, foldl_tradeTo fill self b js]
    simp only [wantsTrades_of_roster hw]
    cases hj : wantsTrades fill.instrument (w.slot j) with
    | false =>
      have hno : tradeTo fill self w j = w := by simp [tradeTo, hj]
      rw [hno, List.filter_cons_of_neg (by simp [hj])]
    | true =>
      have hyes : (tradeTo fill self w j, b)
          = hand self (w, b) { fd := j, about := none, msg := fillText (lit "TRADE") fill } := by
        rw [hand_trade]
        simp [tradeTo, hj]
      rw [hyes, List.filter_cons_of_pos (by simp [hj]), List.map_cons, List.foldl_cons]

theorem reportFill_eq (self : Nat) (s : World × Bool) (fill : Fill) :
    reportFill self s fill = (fillDeliveries s.1 fill).foldl (hand self) s := by
  have hroster := foldl_hand_roster self
  unfold reportFill fillDeliveries
  simp only [notifyClient_eq, foldl_tradeTo, List.foldl_append]
  rw [notification_of_roster (hroster _ s), ← trades_of_roster ((hroster _ _).trans (hroster _ s))]
  rfl

/-- The loop over the fills. -/
theorem foldl_reportFill (self : Nat) : ∀ (fills : List Fill) (s : World × Bool),
    fills.foldl (reportFill self) s = (deliveries s.1 fills).foldl (hand self) s
  | [], _ => rfl
  | fill :: fills, s => by
    have h : (reportFill self s fill).1.roster = s.1.roster := by
      rw [reportFill_eq]
      exact foldl_hand_roster self _ s
    rw [List.foldl_cons, foldl_reportFill self fills, deliveries_of_roster h, reportFill_eq]
    simp [deliveries, List.foldl_append]

/-- **What `acceptOrder` sends**: the acknowledgement, then the deliveries of the fills. -/
theorem acceptOrder_eq (ord : Order) (self : Nat) (w : World) :
    let s := reply self (acceptedText ord.id) { w with exchange := w.exchange.takeId ord }
    let r := addOrder w.exchange.orderbook ord w.heap
    acceptOrder ord self w = (deliveries w r.fills).foldl (hand self)
      ({ s.1 with exchange := (w.exchange.takeId ord).enter ord w.heap, heap := r.heap }, s.2) := by
  intro s r
  have hs : ({ s.1 with exchange := (w.exchange.takeId ord).enter ord w.heap, heap := r.heap }
      : World).roster = w.roster := reply_roster _ _ _
  rw [← deliveries_of_roster hs, ← foldl_reportFill]
  rfl

/-- What was handed over, without the outcome. -/
def Handed.what (h : Handed) : Nat × Nat × Option Nat × Bytes :=
  (h.issuer, h.receiver, h.about, h.msg)

theorem serial_of_roster {w w' : World} (h : w'.roster = w.roster) (fd : Nat) :
    (w'.conn fd).serial = (w.conn fd).serial :=
  conn_field_of_view (v := .bare) ClientConnection.serial (fun _ => rfl) h

/-- The deliveries are noted one by one, under the numbers of the connections in their slots. -/
theorem foldl_hand_trace (self : Nat) : ∀ (ds : List Delivery) (s : World × Bool),
    ∃ hs : List Handed, (ds.foldl (hand self) s).1.trace = s.1.trace ++ hs.map Obs.handed ∧
      hs.map Handed.what = ds.map fun d =>
        ((s.1.conn self).serial, (s.1.conn d.fd).serial, d.about, d.msg)
  | [], _ => ⟨[], by simp, rfl⟩
  | d :: ds, s => by
    obtain ⟨hs, ht, hw⟩ := foldl_hand_trace self ds (hand self s d)
    have hser := serial_of_roster (hand_roster self s d)
    refine ⟨handedOf { self := self, about := d.about } d.fd d.msg s.1 :: hs, ?_, ?_⟩
    · rw [List.foldl_cons, ht]
      exact List.append_assoc _ _ _
    · rw [List.map_cons, hw, List.map_cons]
      simp only [hser]
      rfl

theorem foldl_hand_exchange (self : Nat) (ds : List Delivery) (s : World × Bool) :
    (ds.foldl (hand self) s).1.exchange = s.1.exchange :=
  Run.run_related (R := fun s t : World × Bool => t.1.exchange = s.1.exchange) (fun _ => rfl)
    (fun h h' => h'.trans h) (fun s d => (rfl : (hand self s d).1.exchange = s.1.exchange)) ds s

theorem acceptOrder_exchange (ord : Order) (self : Nat) (w : World) :
    (acceptOrder ord self w).1.exchange = (w.exchange.takeId ord).enter ord w.heap := by
  rw [acceptOrder_eq, foldl_hand_exchange]

theorem acceptOrder_roster (ord : Order) (self : Nat) (w : World) :
    (acceptOrder ord self w).1.roster = w.roster := by
  rw [acceptOrder_eq, foldl_hand_roster]
  exact reply_roster self (acceptedText ord.id) w

/-- **What an accepted order is noted to send**: the acknowledgement to its client, then the
deliveries of its fills, under the numbers of the connections in their slots. -/
theorem acceptOrder_trace (ord : Order) (self : Nat) (w : World) :
    ∃ hs : List Handed, (acceptOrder ord self w).1.trace = w.trace ++ hs.map Obs.handed ∧
      hs.map Handed.what =
        (({ fd := self, about := none, msg := acceptedText ord.id } : Delivery) ::
          deliveries w (addOrder w.exchange.orderbook ord w.heap).fills).map fun d =>
        ((w.conn self).serial, (w.conn d.fd).serial, d.about, d.msg) := by
  have heq := acceptOrder_eq ord self w
  dsimp only at heq
  generalize hs : reply self (acceptedText ord.id)
    { w with exchange := w.exchange.takeId ord } = s at heq
  have hroster : s.1.roster = w.roster := hs ▸ reply_roster _ _ _
  have htrace : s.1.trace = w.trace ++ [.handed (handedOf { self := self, about := none } self
      (acceptedText ord.id) { w with exchange := w.exchange.takeId ord })] := hs ▸ rfl
  obtain ⟨hs', ht, hwhat⟩ := foldl_hand_trace self
    (deliveries w (addOrder w.exchange.orderbook ord w.heap).fills)
    ({ s.1 with exchange := (w.exchange.takeId ord).enter ord w.heap
                heap := (addOrder w.exchange.orderbook ord w.heap).heap }, s.2)
  have hser : ∀ fd, (s.1.conn fd).serial = (w.conn fd).serial := serial_of_roster hroster
  refine ⟨handedOf { self := self, about := none } self (acceptedText ord.id)
    { w with exchange := w.exchange.takeId ord } :: hs', ?_, ?_⟩
  · rw [heq, ht]
    show s.1.trace ++ _ = _
    rw [htrace, List.append_assoc]
    rfl
  · rw [List.map_cons, hwhat, List.map_cons]
    refine congrArg₂ _ rfl (List.map_congr_left fun d _ => ?_)
    show ((s.1.conn self).serial, (s.1.conn d.fd).serial, d.about, d.msg) = _
    rw [hser, hser]

/-! ## 3. What a line comes to -/

/-- The line is the command `QUIT`. -/
def executesQuit (line : Bytes) : Bool :=
  (scanLine (cstr line)).matched == 1 && (scanLine (cstr line)).cmd == lit "QUIT"

/-- An acknowledgement or an error. -/
def IsReply (msg : Bytes) : Prop :=
  msg = lit "OK\n" ∨ ∃ reason, msg = snprintf 64 (lit "ERROR " ++ reason ++ lit "\n")

/-- The order `placeOrder` accepts, with the allocations left for it; nothing if it refuses. -/
def placedBy (side : OrderSide) (instrument : Bytes) (quantity price : Int) (self : Nat)
    (w : World) : Option (Order × List Bool) :=
  match instrumentOf instrument with
  | none => none
  | some inst =>
    if quantity ≤ 0 ∨ price ≤ 0 then none
    else if (alloc w.heap).1 = false then none
    else
      some (w.exchange.newOrder side inst quantity price (w.conn self).clientFd
        (w.conn self).serial, (alloc w.heap).2)

/-- The order a scanned line gets accepted. -/
def acceptedOf (s : Scanned) (self : Nat) (w : World) : Option (Order × List Bool) :=
  if (w.conn self).loggedIn = false then none
  else if s.cmd = lit "BUY" ∧ s.matched = 4 then
    placedBy .buy s.arg s.quantity s.price self w
  else if s.cmd = lit "SELL" ∧ s.matched = 4 then
    placedBy .sell s.arg s.quantity s.price self w
  else none

/-- The order a line gets accepted. -/
def acceptedBy (line : Bytes) (self : Nat) (w : World) : Option (Order × List Bool) :=
  acceptedOf (scanLine (cstr line)) self w

/-- A change of a client's fields that leaves its buffers and `closing`. -/
def Plain (f : ClientConnection → ClientConnection) : Prop :=
  ∀ c, (f c).fixed = c.fixed ∧ (f c).closing = c.closing ∧ (f c).outbuf = c.outbuf

/-- Whoever is logged in is a trader. -/
def OneRole (c : ClientConnection) : Prop := c.loggedIn = true → c.type = .trader

/-- The output queue has no part in who a connection is. -/
theorem field_of_bare {c d : ClientConnection} (h : c.bare = d.bare) :
    c.serial = d.serial ∧ c.clientFd = d.clientFd ∧ (OneRole d → OneRole c) := by
  have hser : c.bare.serial = d.bare.serial := congrArg _ h
  have hfd : c.bare.clientFd = d.bare.clientFd := congrArg _ h
  have ht : c.bare.type = d.bare.type := congrArg _ h
  have hl : c.bare.loggedIn = d.bare.loggedIn := congrArg _ h
  exact ⟨hser, hfd, fun hr hin => ht.trans (hr (hl.symm.trans hin))⟩

/-- **The ways of handling a line**; the indices tell whether it is `QUIT`, and which order it
gets accepted. -/
inductive Handling (self : Nat) (w : World) :
    Bool → Option (Order × List Bool) → World × Bool → Prop
  /-- an empty line -/
  | silent : Handling self w false none (w, false)
  /-- one reply, after a change of the client's own fields at most -/
  | replied (heap : List Bool) (f : ClientConnection → ClientConnection) (hf : Plain f)
      (hrole : OneRole (w.conn self) → OneRole (f (w.conn self))) {msg : Bytes}
      (hmsg : IsReply msg) :
      Handling self w false none (reply self msg ({ w with heap := heap }.modify self f))
  | quit : Handling self w true none (quitUser self w)
  | accepted (heap : List Bool) (side : OrderSide) (inst : Instrument) {quantity price : Int}
      (hq : 0 < quantity ∧ quantity < 2 ^ 31) (hp : 0 < price ∧ price < 2 ^ 31)
      (hin : (w.conn self).loggedIn = true) {ord : Order}
      (hord : ord = w.exchange.newOrder side inst quantity price (w.conn self).clientFd
        (w.conn self).serial) :
      Handling self w false (some (ord, heap)) (acceptOrder ord self { w with heap := heap })
  | cancelled {id : Int} {r : Order × Exchange}
      (h : w.exchange.cancel id (w.conn self).clientFd = some r) :
      Handling self w false none (reply self (cancelledText id)
        ({ w with exchange := r.2 }.note (.cancelled (w.conn self).serial r.1)))

theorem modify_id (fd : Nat) (w : World) : w.modify fd id = w := by
  unfold World.modify
  rw [show Option.map (id : ClientConnection → ClientConnection) = id from Option.map_id,
    List.modify_id]

namespace Handling

variable {self : Nat} {w : World}

/-- A reply and nothing else, after an allocation that failed perhaps. -/
theorem error {heap : List Bool} (reason : Bytes) :
    Handling self w false none (replyError self reason { w with heap := heap }) := by
  have h := @replied self w heap id (fun _ => ⟨rfl, rfl, rfl⟩) id _ (.inr ⟨reason, rfl⟩)
  rw [modify_id] at h
  exact h

theorem changed {f : ClientConnection → ClientConnection} (hf : Plain f)
    (hrole : OneRole (w.conn self) → OneRole (f (w.conn self))) :
    Handling self w false none (reply self (lit "OK\n") (w.modify self f)) :=
  replied w.heap f hf hrole (.inl rfl)

end Handling

section Commands

variable (self : Nat) (w : World)

theorem loginUser_handling (username : Bytes) :
    Handling self w false none (loginUser username self w) := by
  unfold loginUser
  split
  · exact .error _
  · split
    · exact .error _
    · split
      · exact .error _
      · exact .changed (fun _ => ⟨rfl, rfl, rfl⟩) fun _ _ => rfl

theorem subscribeClient_handling (instrument : Bytes) :
    Handling self w false none (subscribeClient instrument self w) := by
  unfold subscribeClient
  split
  · exact .error _
  · rename_i htrader
    split
    · exact .error _
    · rename_i inst _
      split
      · exact .error _
      · refine .changed (fun _ => by cases inst <;> exact ⟨rfl, rfl, rfl⟩) fun hrole hin => ?_
        exact absurd (hrole (by cases inst <;> exact hin)) htrader

theorem unsubscribeClient_handling (instrument : Bytes) :
    Handling self w false none (unsubscribeClient instrument self w) := by
  unfold unsubscribeClient
  split
  · exact .error _
  · split
    · exact .error _
    · rename_i inst _
      split
      · exact .changed (fun _ => by cases inst <;> exact ⟨rfl, rfl, rfl⟩)
          fun hrole => by cases inst <;> exact hrole
      · exact .error _

theorem placeOrder_handling (side : OrderSide) (instrument : Bytes) {quantity price : Int}
    (hq : quantity < 2 ^ 31) (hp : price < 2 ^ 31) (hin : (w.conn self).loggedIn = true) :
    Handling self w false (placedBy side instrument quantity price self w)
      (placeOrder side instrument quantity price self w) := by
  unfold placeOrder placedBy
  cases instrumentOf instrument with
  | none => exact .error _
  | some inst =>
    dsimp only
    split
    · exact .error _
    · rename_i hpos
      split
      · exact .error _
      · exact .accepted (alloc w.heap).2 side inst (by omega) (by omega) hin rfl

theorem cancelUserOrder_handling (orderIdStr : Bytes) :
    Handling self w false none (cancelUserOrder orderIdStr self w) := by
  unfold cancelUserOrder
  split
  · exact .error _
  · split
    · exact .error _
    · rename_i h
      exact .cancelled h

theorem scanLine_range (line : Bytes) :
    (scanLine line).quantity < 2 ^ 31 ∧ (scanLine line).price < 2 ^ 31 := by
  have hint : ∀ {s : Bytes} {r : Int × Bytes}, scanInt s = some r → r.1 < 2 ^ 31 := by
    intro s r h
    obtain ⟨x, -, rfl⟩ := Option.map_eq_some_iff.mp h
    exact (narrow32_range _).2
  have h0 : (0 : Int) < 2 ^ 31 := by decide
  unfold scanLine
  split
  · exact ⟨h0, h0⟩
  · split
    · exact ⟨h0, h0⟩
    · split
      · exact ⟨h0, h0⟩
      · rename_i hq
        split
        · exact ⟨hint hq, h0⟩
        · rename_i hp
          exact ⟨hint hq, hint hp⟩

variable {s : Scanned}

/-- Only `BUY` and `SELL` lines of four parts get an order accepted. -/
theorem acceptedOf_none (hb : ¬ (s.cmd = lit "BUY" ∧ s.matched = 4))
    (hs : ¬ (s.cmd = lit "SELL" ∧ s.matched = 4)) : acceptedOf s self w = none := by
  unfold acceptedOf
  rw [if_neg hb, if_neg hs]
  split <;> rfl

theorem dispatchCommand_handling (hr : s.quantity < 2 ^ 31 ∧ s.price < 2 ^ 31) :
    Handling self w (s.matched == 1 && s.cmd == lit "QUIT") (acceptedOf s self w)
      (dispatchCommand s self w) := by
  have hother : ¬ (s.cmd = lit "QUIT" ∧ s.matched = 1) →
      (s.matched == 1 && s.cmd == lit "QUIT") = false := by
    intro h
    rw [Bool.and_eq_false_iff, beq_eq_false_iff_ne, beq_eq_false_iff_ne]
    by_cases hm : s.matched = 1
    · exact .inr fun hc => h ⟨hc, hm⟩
    · exact .inl hm
  have hshort : s.matched ≠ 4 → acceptedOf s self w = none := fun h =>
    acceptedOf_none self w (fun hc => h hc.2) fun hc => h hc.2
  unfold dispatchCommand
  split
  · rename_i hlen
    have hne : ∀ t : Bytes, t.length ≤ maxCmdLen → s.cmd ≠ t := fun t ht h => by
      rw [h] at hlen
      omega
    rw [hother fun h => hne _ (by decide) h.1, acceptedOf_none self w
      (fun h => hne _ (by decide) h.1) fun h => hne _ (by decide) h.1]
    exact .error _
  · split
    · rename_i h
      rw [hother fun h' => by omega, hshort (by omega)]
      split
      · exact .error _
      · exact loginUser_handling self w _
    · split
      · rename_i h
        rw [hother fun h' => by omega, hshort (by omega)]
        exact subscribeClient_handling self w _
      · split
        · rename_i h
          rw [hshort (by omega), h.1, h.2]
          exact .quit
        · rename_i h
          rw [hother h]
          split
          · rename_i h
            rw [hshort (by omega)]
            exact unsubscribeClient_handling self w _
          · unfold acceptedOf
            split
            · exact .error _
            · rename_i hin
              rw [Bool.not_eq_false] at hin
              split
              · exact placeOrder_handling self w _ _ hr.1 hr.2 hin
              · split
                · exact placeOrder_handling self w _ _ hr.1 hr.2 hin
                · split
                  · exact cancelUserOrder_handling self w _
                  · exact .error _

/-- **Every line is handled in one of these ways.** -/
theorem processLine_handling (line : Bytes) :
    Handling self (w.note (.line (w.conn self).serial line)) (executesQuit line)
      (acceptedBy line self w) (processLine line self w) := by
  unfold processLine executesQuit
  dsimp only
  split
  · rename_i h
    have hm : ((scanLine (cstr line)).matched == 1) = false := beq_eq_false_iff_ne.mpr (by omega)
    rw [hm, Bool.false_and, acceptedBy, acceptedOf_none self w (by omega) (by omega)]
    exact .silent
  · exact dispatchCommand_handling self _ (scanLine_range _)

end Commands

/-! ## 4. What a line leaves alone -/

/-- An observation of a message or a cancellation. -/
def Obs.isOutput : Obs → Bool
  | .handed _ | .cancelled _ _ => true
  | _ => false

/-- **The frame of a command**: who is where, what is buffered for reading and which
descriptors are open stay, and only messages and cancellations are noted. -/
structure Kept (w w' : World) : Prop where
  tenants : w'.tenants = w.tenants
  opened : w'.opened = w.opened
  accepts : w'.accepts = w.accepts
  serverFd : w'.serverFd = w.serverFd
  trace : ∃ new, w'.trace = w.trace ++ new ∧ ∀ o ∈ new, o.isOutput = true

theorem Kept.refl (w : World) : Kept w w := ⟨rfl, rfl, rfl, rfl, [], by simp, by simp⟩

theorem Kept.trans {a b c : World} (h : Kept a b) (h' : Kept b c) : Kept a c := by
  obtain ⟨m, hm, hmo⟩ := h.trace
  obtain ⟨n, hn, hno⟩ := h'.trace
  refine ⟨h'.tenants.trans h.tenants, h'.opened.trans h.opened, h'.accepts.trans h.accepts,
    h'.serverFd.trans h.serverFd, m ++ n, ?_, ?_⟩
  · rw [hn, hm, List.append_assoc]
  · intro o ho
    rcases List.mem_append.mp ho with ho | ho
    · exact hmo o ho
    · exact hno o ho

theorem sendLine_kept (why : Cause) (fd : Nat) (line : Bytes) (w : World) :
    Kept w (sendLine why fd line w).1 :=
  ⟨tenants_of_roster (sendLine_roster why fd line w), rfl, rfl, rfl, [.handed _], rfl,
    by simp [Obs.isOutput]⟩

theorem reply_kept (self : Nat) (line : Bytes) (w : World) : Kept w (reply self line w).1 :=
  sendLine_kept _ _ _ _

theorem foldl_hand_kept (self : Nat) (ds : List Delivery) (s : World × Bool) :
    Kept s.1 (ds.foldl (hand self) s).1 :=
  Run.run_related (R := fun s t : World × Bool => Kept s.1 t.1) (fun s => .refl s.1) Kept.trans
    (fun s d => show Kept s.1 (hand self s d).1 from sendLine_kept _ _ _ _) ds s

/-- A change of fields the tenants do not show. -/
theorem modify_kept (self : Nat) (f : ClientConnection → ClientConnection)
    (hf : ∀ c, (f c).fixed = c.fixed) (w : World) : Kept w (w.modify self f) :=
  ⟨view_modify fun c _ => hf c, rfl, rfl, rfl, [], by simp, by simp⟩

theorem acceptOrder_kept (ord : Order) (self : Nat) (w : World) :
    Kept w (acceptOrder ord self w).1 := by
  rw [acceptOrder_eq]
  refine Kept.trans ?_ (foldl_hand_kept self _ _)
  have h := reply_kept self (acceptedText ord.id) { w with exchange := w.exchange.takeId ord }
  exact ⟨h.tenants, h.opened, h.accepts, h.serverFd, h.trace⟩

theorem Handling.kept {self : Nat} {w : World} {q : Bool} {o : Option (Order × List Bool)}
    {r : World × Bool} (h : Handling self w q o r) : Kept w r.1 := by
  cases h with
  | silent => exact .refl w
  | replied heap f hf hrole hmsg =>
    have hm : Kept w ({ w with heap := heap }.modify self f) := by
      have h := modify_kept self f (fun c => (hf c).1) { w with heap := heap }
      exact ⟨h.tenants, h.opened, h.accepts, h.serverFd, h.trace⟩
    exact hm.trans (reply_kept self _ _)
  | quit =>
    have hm : Kept w (w.modify self fun c => { c with closing := true }) :=
      modify_kept self (fun c => { c with closing := true }) (fun _ => rfl) w
    have hr := reply_kept self (lit "OK\n") (w.modify self fun c => { c with closing := true })
    exact hm.trans hr
  | @accepted heap side inst quantity price hq hp hin ord hord =>
    have h := acceptOrder_kept ord self { w with heap := heap }
    exact ⟨h.tenants, h.opened, h.accepts, h.serverFd, h.trace⟩
  | @cancelled id r hr =>
    have hc : Kept w ({ w with exchange := r.2 }.note (.cancelled (w.conn self).serial r.1)) :=
      ⟨rfl, rfl, rfl, rfl, [_], rfl, by simp [Obs.isOutput]⟩
    exact hc.trans (reply_kept self _ _)

/-- What `processLine` leaves alone, behind its note of the line. -/
theorem processLine_kept (line : Bytes) (self : Nat) (w : World) :
    Kept (w.note (.line (w.conn self).serial line)) (processLine line self w).1 :=
  (processLine_handling self w line).kept

theorem slot_of_tenants {w w' : World} (h : w'.tenants = w.tenants) {fd : Nat}
    {c : ClientConnection} (hc : w.slot fd = some c) :
    ∃ c', w'.slot fd = some c' ∧ c'.fixed = c.fixed := slot_of_view h hc

namespace Handling

variable {self : Nat} {w : World} {q : Bool} {o : Option (Order × List Bool)} {r : World × Bool}

/-- The other connections keep everything but their queues. -/
theorem others (h : Handling self w q o r) {n : Nat} (hn : n ≠ self) :
    (r.1.slot n).map ClientConnection.bare = (w.slot n).map ClientConnection.bare := by
  have hview : ∀ {v v' : World}, v'.roster = v.roster →
      (v'.slot n).map ClientConnection.bare = (v.slot n).map ClientConnection.bare :=
    fun hr => field_of_view (v := .bare) ClientConnection.bare (fun _ => rfl) hr
  cases h with
  | silent => rfl
  | replied heap f hf hrole hmsg =>
    refine (hview (reply_roster _ _ _)).trans ?_
    rw [slot_modify_ne _ _ _ hn]
    rfl
  | quit =>
    have hr := reply_roster self (lit "OK\n") (w.modify self fun c => { c with closing := true })
    refine (hview hr).trans ?_
    rw [slot_modify_ne _ _ _ hn]
  | @accepted heap side inst quantity price hq hp hin ord hord =>
    exact hview (acceptOrder_roster ord self { w with heap := heap })
  | @cancelled id r hr => exact hview (reply_roster self (cancelledText id) _)

/-- Only `QUIT` closes. -/
theorem closing (h : Handling self w q o r) {c : ClientConnection} (hc : w.slot self = some c) :
    (r.1.conn self).closing = (q || c.closing) := by
  have hview : ∀ {v v' : World}, v'.roster = v.roster →
      (v'.conn self).closing = (v.conn self).closing := fun hr =>
    conn_field_of_view (v := .bare) ClientConnection.closing (fun _ => rfl) hr
  cases h with
  | silent =>
    rw [conn_of_slot hc]
    rfl
  | replied heap f hf hrole hmsg =>
    have hs : ({ w with heap := heap }.modify self f).slot self = some (f c) :=
      modify_slot self (show World.slot { w with heap := heap } self = some c from hc) f
    refine (hview (reply_roster _ _ _)).trans ?_
    rw [conn_of_slot hs, (hf c).2.1]
    rfl
  | quit =>
    have hr := reply_roster self (lit "OK\n") (w.modify self fun c => { c with closing := true })
    have hs := modify_slot self hc fun c => { c with closing := true }
    refine (hview hr).trans ?_
    rw [conn_of_slot hs]
    rfl
  | @accepted heap side inst quantity price hq hp hin ord hord =>
    refine (hview (acceptOrder_roster ord self { w with heap := heap })).trans ?_
    have hs : World.slot { w with heap := heap } self = some c := hc
    rw [conn_of_slot hs]
    rfl
  | @cancelled id r hr =>
    refine (hview (reply_roster self (cancelledText id) _)).trans ?_
    have hs : World.slot ({ w with exchange := r.2 }.note
        (.cancelled (w.conn self).serial r.1)) self = some c := hc
    rw [conn_of_slot hs]
    rfl

end Handling

end SocketExchange
