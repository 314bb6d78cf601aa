/-
# One client does not disturb the others

Take away everything a run has and does because of one connection: its slot, its socket, the
notes about it, and its descriptor in the owner field of its orders.  What is left is a world in
which the connection has gone.  `World.without` takes it away, and every act of another client
can be done before or after that (`act_without`), so what a run leaves of the others is decided
by their own acts and by what their own sockets answer: `isolation` compares two runs that agree
on these and on nothing else.

The connection sends no lines in the runs, and nobody may ask for its user name.
-/
import SocketExchange.Losses
import SocketExchange.Roles
import SocketExchange.Staleness

namespace SocketExchange

open CText

/-! ## 1. An exchange that forgets an owner -/

section Forget

variable (fd : Int)

def Execution.forget (e : Execution) : Execution := { e with resting := detach fd e.resting }

def Fill.forget (f : Fill) : Fill :=
  { f with buyClientFd := if f.buyClientFd = fd then -1 else f.buyClientFd
           sellClientFd := if f.sellClientFd = fd then -1 else f.sellClientFd }

def Entry.forget : Entry → Entry
  | .accepted ord => .accepted (detach fd ord)
  | .executed incoming e => .executed (detach fd incoming) (e.forget fd)
  | .cancelled ord => .cancelled (detach fd ord)

def Walk.forget (w : Walk) : Walk :=
  { w with fills := w.fills.map (Fill.forget fd), executed := w.executed.map (Execution.forget fd) }

/-- **The exchange with -1 for this owner**, in the book and in all that has happened. -/
def Exchange.forget (x : Exchange) : Exchange :=
  { x with orderbook := detachClientOrders x.orderbook fd, log := x.log.map (Entry.forget fd) }

theorem Walk.forget_ord (w : Walk) : (w.forget fd).ord = w.ord := rfl

theorem Walk.forget_start (ord : Order) (heap : List Bool) :
    (Walk.start ord heap).forget fd = .start ord heap := rfl

theorem Exchange.forget_orderbook (x : Exchange) :
    (x.forget fd).orderbook = detachClientOrders x.orderbook fd := rfl

end Forget

section Matching

variable {fd : Int}

theorem detach_of_ne {o : Order} (h : o.clientFd ≠ fd) : detach fd o = o := if_neg h

theorem detach_clientFd (o : Order) :
    (detach fd o).clientFd = if o.clientFd = fd then -1 else o.clientFd := by
  unfold detach
  split <;> rfl

theorem fillOf_detach {ord : Order} (h : ord.clientFd ≠ fd) (cur : Order) (qty : Int) :
    fillOf ord (detach fd cur) qty = (fillOf ord cur qty).forget fd := by
  unfold fillOf Fill.forget
  split <;> simp [detach_clientFd]

theorem growFills_forget (w : Walk) : growFills (w.forget fd) = (growFills w).forget fd := by
  unfold growFills Walk.forget
  dsimp only
  rw [List.length_map]
  split
  · split <;> rfl
  · rfl

theorem recordFill_forget {w : Walk} (h : w.ord.clientFd ≠ fd) (cur : Order) (qty : Int) :
    recordFill (detach fd cur) qty (w.forget fd) = (recordFill cur qty w).forget fd := by
  unfold recordFill Walk.forget
  dsimp only
  rw [List.length_map]
  split
  · rw [fillOf_detach h, List.map_append]
    rfl
  · rfl

/-- One execution of an order of another, which notes the resting owner and does not read it. -/
theorem execute_forget {w : Walk} (h : w.ord.clientFd ≠ fd) (cur : Order) :
    execute (detach fd cur) (w.forget fd) = (execute cur w).forget fd := by
  have hqty : tradeQuantity w.ord (detach fd cur) = tradeQuantity w.ord cur := by
    unfold tradeQuantity
    rw [detach_quantity]
  unfold execute
  dsimp only
  rw [Walk.forget_ord, hqty, ← recordFill_forget (by rwa [growFills_ord]),
    ← growFills_forget]
  refine congrArg (fun v => recordFill (detach fd cur) _ (growFills v)) ?_
  unfold Walk.forget
  dsimp only
  rw [List.map_append]
  rfl

/-- **The loop does not look at owners.** -/
theorem walk_forget : ∀ (l : List Order) {w : Walk}, w.ord.clientFd ≠ fd →
    walk (detachIn l fd) (w.forget fd) = (detachIn (walk l w).1 fd, (walk l w).2.forget fd)
  | [], _, _ => rfl
  | cur :: nxt, w, h => by
    have hexec : (execute cur w).ord.clientFd ≠ fd := by
      rw [execute_ord]
      exact h
    have hqty : tradeQuantity w.ord (detach fd cur) = tradeQuantity w.ord cur := by
      unfold tradeQuantity
      rw [detach_quantity]
    have hcons : detachIn (cur :: nxt) fd = detach fd cur :: detachIn nxt fd := rfl
    rw [hcons, walk, walk]
    dsimp only
    rw [Walk.forget_ord, detach_price, detach_quantity, hqty,
      execute_forget h, walk_forget nxt hexec, walk_forget nxt h]
    split
    · split
      · split
        · rfl
        · refine Prod.ext (List.cons_eq_cons.mpr ⟨?_, rfl⟩) rfl
          unfold detach
          split <;> rfl
      · rfl
    · rfl

theorem set_detach (book : LimitOrderBook) (head : ListHead) (l : List Order) :
    detachClientOrders (book.set head l) fd
      = (detachClientOrders book fd).set head (detachIn l fd) := by
  cases head <;> rfl

/-- **Matching does not look at owners.** -/
theorem addOrder_forget (book : LimitOrderBook) {ord : Order} (h : ord.clientFd ≠ fd)
    (heap : List Bool) :
    let r := addOrder book ord heap
    addOrder (detachClientOrders book fd) ord heap
      = { book := detachClientOrders r.book fd, fills := r.fills.map (Fill.forget fd)
          heap := r.heap, executed := r.executed.map (Execution.forget fd) } := by
  intro r
  have hwalk := walk_forget (book.get (oppList ord)) (w := .start ord heap) h
  have howner :
      (walk (book.get (oppList ord)) (.start ord heap)).2.ord.clientFd = ord.clientFd := by
    rw [walk_ord]
    rfl
  have hr : r = addOrder book ord heap := rfl
  unfold addOrder at hr ⊢
  rw [get_detachClientOrders, ← Walk.forget_start fd, hwalk, hr]
  generalize walk (book.get (oppList ord)) (Walk.start ord heap) = s at howner
  rw [Added.mk.injEq]
  refine ⟨?_, rfl, rfl, rfl⟩
  dsimp only
  rw [← set_detach, get_detachClientOrders, Walk.forget_ord]
  have happend : append (detachIn ((book.set (oppList ord) s.1).get (ownList ord)) fd) s.2.ord
      = detachIn (append ((book.set (oppList ord) s.1).get (ownList ord)) s.2.ord) fd := by
    unfold append detachIn
    rw [List.map_append, List.map_singleton, detach_of_ne (by rw [howner]; exact h)]
  rw [happend, ← set_detach]
  split <;> rfl

/-- A search for another owner's order finds the same. -/
theorem cancelIn_detach {n : Int} (hn : n ≠ fd) (hn' : n ≠ -1) (id : Int) : ∀ l : List Order,
    cancelIn (detachIn l fd) id n = (cancelIn l id n).map fun r => (r.1, detachIn r.2 fd)
  | [] => rfl
  | cur :: nxt => by
    have ih := cancelIn_detach hn hn' id nxt
    have howner : (detach fd cur).clientFd = n ↔ cur.clientFd = n := by
      rw [detach_clientFd]
      split <;> omega
    have hcons : detachIn (cur :: nxt) fd = detach fd cur :: detachIn nxt fd := rfl
    rw [hcons, cancelIn, cancelIn, detach_id, ih]
    simp only [howner]
    split
    · rename_i h
      rw [detach_of_ne (by rw [h.2]; exact hn)]
      rfl
    · rw [Option.map_map, Option.map_map]
      rfl

theorem cancelOrder_detach {n : Int} (hn : n ≠ fd) (hn' : n ≠ -1) (book : LimitOrderBook)
    (id : Int) : cancelOrder (detachClientOrders book fd) id n
      = (cancelOrder book id n).map fun r => (r.1, detachClientOrders r.2 fd) := by
  unfold cancelOrder detachClientOrders
  simp only [cancelIn_detach hn hn']
  cases cancelIn book.jnstBuyOrders id n with
  | some r => rfl
  | none =>
    cases cancelIn book.jnstSellOrders id n with
    | some r => rfl
    | none =>
      cases cancelIn book.imctBuyOrders id n with
      | some r => rfl
      | none => cases cancelIn book.imctSellOrders id n <;> rfl

/-- Two owners can be taken off in either order. -/
theorem detach_comm {n : Int} (hne : n ≠ fd) (hn : n ≠ -1) (hfd : fd ≠ -1) (o : Order) :
    detach n (detach fd o) = detach fd (detach n o) := by
  by_cases h : o.clientFd = fd
  · have hstay : detach n o = o := detach_of_ne (by rw [h]; exact hne.symm)
    rw [hstay]
    refine detach_of_ne ?_
    rw [detach_clientFd, if_pos h]
    exact hn.symm
  · rw [detach_of_ne h]
    refine (detach_of_ne ?_).symm
    rw [detach_clientFd]
    split
    · exact hfd.symm
    · exact h

theorem detachClientOrders_comm {n : Int} (hne : n ≠ fd) (hn : n ≠ -1) (hfd : fd ≠ -1)
    (book : LimitOrderBook) : detachClientOrders (detachClientOrders book fd) n
      = detachClientOrders (detachClientOrders book n) fd := by
  refine LimitOrderBook.ext_get fun head => ?_
  simp only [get_detachClientOrders, detachIn, List.map_map]
  exact List.map_congr_left fun o _ => detach_comm hne hn hfd o

theorem detachClientOrders_idem (hfd : fd ≠ -1) (book : LimitOrderBook) :
    detachClientOrders (detachClientOrders book fd) fd = detachClientOrders book fd := by
  refine LimitOrderBook.ext_get fun head => ?_
  simp only [get_detachClientOrders, detachIn, List.map_map]
  refine List.map_congr_left fun o _ => ?_
  rw [Function.comp_apply]
  refine detach_of_ne ?_
  rw [detach_clientFd]
  split <;> omega

end Matching

/-! ## 2. The operations of the others -/

namespace Exchange

variable {fd : Int} (x : Exchange)

/-- The next id goes to an order of another all the same. -/
theorem forget_takeId {ord : Order} (h : ord.clientFd ≠ fd) :
    (x.forget fd).takeId ord = (x.takeId ord).forget fd := by
  unfold takeId forget
  dsimp only
  rw [List.map_append, List.map_singleton, Entry.forget, detach_of_ne h]

/-- **An order of another** can be entered before or after the owner is forgotten. -/
theorem forget_enter {ord : Order} (h : ord.clientFd ≠ fd) (heap : List Bool) :
    (x.forget fd).enter ord heap = (x.enter ord heap).forget fd := by
  unfold enter forget
  dsimp only
  rw [addOrder_forget x.orderbook h]
  dsimp only
  rw [List.map_append, List.map_map, List.map_map]
  refine congrArg (fun l => Exchange.mk _ _ (_ ++ l)) (List.map_congr_left fun e _ => ?_)
  simp only [Function.comp_apply, Entry.forget, detach_of_ne h]

/-- So can a cancellation of another. -/
theorem forget_cancel {n : Int} (hn : n ≠ fd) (hn' : n ≠ -1) (id : Int) :
    (x.forget fd).cancel id n = (x.cancel id n).map fun r => (r.1, r.2.forget fd) := by
  unfold cancel
  rw [forget_orderbook, cancelOrder_detach hn hn', Option.map_map, Option.map_map]
  cases hr : cancelOrder x.orderbook id n with
  | none => rfl
  | some r =>
    obtain ⟨-, -, -, -, -, -, howner⟩ := cancelOrder_eq_some hr
    unfold forget
    simp only [Option.map_some, Function.comp_apply, List.map_append, List.map_singleton,
      Entry.forget, detach_of_ne (show r.1.clientFd ≠ fd by rw [howner]; exact hn)]

theorem forget_depart {n : Int} (hne : n ≠ fd) (hn : n ≠ -1) (hfd : fd ≠ -1) :
    (x.forget fd).depart n = (x.depart n).forget fd := by
  unfold depart forget
  dsimp only
  rw [detachClientOrders_comm hne hn hfd]

/-- A departure is forgotten. -/
theorem forget_departed (hfd : fd ≠ -1) : (x.depart fd).forget fd = x.forget fd := by
  unfold depart forget
  dsimp only
  rw [detachClientOrders_idem hfd]

end Exchange

/-! ## 3. A world without a connection -/

/-- The note is about this connection, or of a message to it. -/
def Obs.concerns (k : Nat) : Obs → Bool
  | .accepted k' _ => k' == k
  | .removed k' => k' == k
  | .applied k' _ => k' == k
  | .read k' _ _ => k' == k
  | .line k' _ => k' == k
  | .tooLong k' => k' == k
  | .handed h => h.receiver == k
  | .flushed k' _ => k' == k
  | .cancelled k' _ => k' == k

/-- **The world without connection `k` of slot `fd`.** -/
def World.without (k fd : Nat) (w : World) : World :=
  { w with conns := w.conns.set fd none, exchange := w.exchange.forget fd
           opened := w.opened.filter fun n => n != fd
           sock := Function.update w.sock fd { writes := [], mallocs := [] }
           trace := w.trace.filter fun o => !o.concerns k }

/-- Connection `k` is in slot `fd` or nowhere, and the others have their descriptors. -/
def Beside (k fd : Nat) (w : World) : Prop :=
  ∀ n m f, w.badge n = some (m, f) → f = n ∧ (m = k ↔ n = fd)

section Without

variable {k fd : Nat} {w : World}

theorem without_exchange : (w.without k fd).exchange = w.exchange.forget fd := rfl

theorem without_heap : (w.without k fd).heap = w.heap := rfl

theorem slot_without (n : Nat) :
    (w.without k fd).slot n = if n = fd then none else w.slot n := slot_set_none w fd n

theorem slot_without_ne {n : Nat} (h : n ≠ fd) : (w.without k fd).slot n = w.slot n := by
  rw [slot_without, if_neg h]

theorem conn_without {n : Nat} (h : n ≠ fd) : (w.without k fd).conn n = w.conn n := by
  rw [World.conn, slot_without_ne h]
  rfl

theorem currCap_without : (w.without k fd).currCap = w.currCap := List.length_set

theorem without_note {o : Obs} (h : o.concerns k = false) :
    (w.note o).without k fd = (w.without k fd).note o := by
  unfold World.note World.without
  dsimp only
  rw [List.filter_append, List.filter_singleton, h]
  rfl

/-- A note about the connection. -/
theorem without_own_note {o : Obs} (h : o.concerns k = true) :
    (w.note o).without k fd = w.without k fd := by
  unfold World.note World.without
  dsimp only
  rw [List.filter_append, List.filter_singleton, h]
  simp

theorem without_modify {n : Nat} (h : n ≠ fd) (f : ClientConnection → ClientConnection) :
    (w.modify n f).without k fd = (w.without k fd).modify n f := by
  have hconns : (w.conns.modify n (Option.map f)).set fd none
      = (w.conns.set fd none).modify n (Option.map f) := by
    refine List.ext_getElem? fun i => ?_
    rw [List.getElem?_set, List.getElem?_modify, List.getElem?_modify, List.getElem?_set,
      List.length_modify]
    by_cases hi : fd = i
    · subst hi
      split <;> simp
    · simp [hi]
  unfold World.modify World.without
  dsimp only
  rw [hconns]

/-- What changes in the connection is not seen. -/
theorem without_own_modify (f : ClientConnection → ClientConnection) :
    (w.modify fd f).without k fd = w.without k fd := by
  have hconns : (w.conns.modify fd (Option.map f)).set fd none = w.conns.set fd none := by
    refine List.ext_getElem? fun i => ?_
    rw [List.getElem?_set, List.getElem?_modify, List.getElem?_set, List.length_modify]
    by_cases hi : fd = i
    · subst hi
      split <;> simp
    · simp [hi]
  unfold World.modify World.without
  dsimp only
  rw [hconns]

/-- Another's socket. -/
theorem without_sock {n : Nat} (h : n ≠ fd) (env : SockEnv) :
    ({ w with sock := Function.update w.sock n env } : World).without k fd
      = { w.without k fd with sock := Function.update (w.without k fd).sock n env } := by
  unfold World.without
  dsimp only
  rw [Function.update_comm h]

theorem without_own_sock (env : SockEnv) :
    ({ w with sock := Function.update w.sock fd env } : World).without k fd = w.without k fd := by
  unfold World.without
  dsimp only
  rw [Function.update_idem]

theorem sock_without {n : Nat} (h : n ≠ fd) : (w.without k fd).sock n = w.sock n :=
  Function.update_of_ne h _ _

/-- The others have other numbers. -/
theorem Beside.serial_ne (hw : Beside k fd w) {n : Nat} (hn : n ≠ fd) {d : ClientConnection}
    (hd : w.slot n = some d) : (w.conn n).serial ≠ k := by
  rw [conn_of_slot hd]
  exact fun h => hn ((hw n _ _ (badge_of_slot hd)).2.mp h)

theorem Beside.clientFd (hw : Beside k fd w) {n : Nat} {d : ClientConnection}
    (hd : w.slot n = some d) : (w.conn n).clientFd = n := by
  rw [conn_of_slot hd]
  exact (hw n _ _ (badge_of_slot hd)).1

theorem Beside.of_tenants (hw : Beside k fd w) {w' : World} (h : w'.tenants = w.tenants) :
    Beside k fd w' := fun n m f hb => hw n m f ((badge_of_tenants h n).symm.trans hb)

/-! ## 4. Messages -/

/-- **A message to another** is the same without the connection. -/
theorem sendLine_without (hw : Beside k fd w) {why : Cause} (hself : why.self ≠ fd) {n : Nat}
    (hn : n ≠ fd) {d : ClientConnection} (hd : w.slot n = some d) (line : Bytes) :
    sendLine why n line (w.without k fd)
      = ((sendLine why n line w).1.without k fd, (sendLine why n line w).2) := by
  have hhanded : handedOf why n line (w.without k fd) = handedOf why n line w := by
    unfold handedOf
    rw [conn_without hself, conn_without hn, sock_without hn]
  have hother : (Obs.handed (handedOf why n line w)).concerns k = false :=
    beq_false_of_ne (hw.serial_ne hn hd)
  unfold sendLine
  dsimp only
  rw [hhanded, conn_without hn, sock_without hn, without_note hother, without_modify hn,
    without_sock hn]

/-- A message to the connection. -/
theorem sendLine_own (hw : Beside k fd w) (why : Cause) {c : ClientConnection}
    (hc : w.slot fd = some c) (line : Bytes) :
    (sendLine why fd line w).1.without k fd = w.without k fd := by
  have hown : (Obs.handed (handedOf why fd line w)).concerns k = true := by
    have hk := (hw fd _ _ (badge_of_slot hc)).2.mpr rfl
    rw [← hk, ← conn_of_slot hc]
    exact beq_self_eq_true _
  unfold sendLine
  dsimp only
  rw [without_own_note hown, without_own_modify, without_own_sock]

theorem reply_without (hw : Beside k fd w) {self : Nat} (hself : self ≠ fd) {d : ClientConnection}
    (hd : w.slot self = some d) (line : Bytes) :
    reply self line (w.without k fd)
      = ((reply self line w).1.without k fd, (reply self line w).2) :=
  sendLine_without hw hself hself hd line

/-- The owner's notification goes with the owner. -/
theorem notification_without (clientFd : Int) (about : Nat) (msg : Bytes) :
    notification (w.without k fd) (if clientFd = fd then -1 else clientFd) about msg
      = (notification w clientFd about msg).filter fun d => d.fd != fd := by
  by_cases h : clientFd = fd
  · rw [if_pos h, h]
    unfold notification
    rw [if_pos (.inl (by decide))]
    split
    · rfl
    · simp
  · rw [if_neg h]
    unfold notification
    by_cases hneg : clientFd < 0
    · rw [if_pos (.inl hneg), if_pos (.inl hneg)]
      rfl
    · have hne : clientFd.toNat ≠ fd := by omega
      rw [slot_without_ne hne, currCap_without]
      split
      · rfl
      · simp [hne]

theorem trades_without (fill : Fill) :
    trades (w.without k fd) (fill.forget fd) = (trades w fill).filter fun d => d.fd != fd := by
  unfold trades
  rw [List.filter_map, List.filter_filter, currCap_without]
  refine congrArg (List.map _) (List.filter_congr fun j _ => ?_)
  rw [Function.comp_apply, slot_without]
  by_cases hj : j = fd
  · simp [hj, wantsTrades]
  · simp [hj, Fill.forget]

theorem deliveries_without (fills : List Fill) :
    deliveries (w.without k fd) (fills.map (Fill.forget fd))
      = (deliveries w fills).filter fun d => d.fd != fd := by
  unfold deliveries
  rw [List.flatMap_map, List.filter_flatMap]
  refine List.flatMap_congr fun fill _ => ?_
  unfold fillDeliveries
  rw [List.filter_append, List.filter_append, ← notification_without, ← notification_without,
    ← trades_without]
  rfl

/-- **The messages of an order**, less those to the connection, go to the others. -/
theorem foldl_hand_without {self : Nat} (hself : self ≠ fd) (ds : List Delivery)
    {s : World × Bool} (hw : Beside k fd s.1) (he : ∃ d, s.1.slot self = some d)
    (hlive : ∀ d ∈ ds, ∃ c, s.1.slot d.fd = some c) :
    (ds.filter fun d => d.fd != fd).foldl (hand self) (s.1.without k fd, s.2)
      = ((ds.foldl (hand self) s).1.without k fd, (ds.foldl (hand self) s).2) := by
  obtain ⟨e, he⟩ := he
  have hbeside : ∀ {t : World × Bool}, t.1.roster = s.1.roster → Beside k fd t.1 := fun ht =>
    hw.of_tenants (tenants_of_roster ht)
  let see (t : World × Bool) : World × Bool := (t.1.without k fd, t.2)
  let seen : Delivery → Option Delivery := Option.guard fun d => d.fd != fd
  have hone : ∀ (t : World × Bool) (d : Delivery), t.1.roster = s.1.roster →
      (∃ c, s.1.slot d.fd = some c) →
      see (hand self t d) = (seen d).elim (see t) (hand self (see t)) := by
    intro t d ht hd
    obtain ⟨c, hc⟩ := hd
    obtain ⟨c, hc, -⟩ := slot_of_view (v := .bare) ht hc
    have ht' := (hand_roster self t d).trans ht
    by_cases hd : d.fd = fd
    · -- a message to the connection
      obtain ⟨e', he', -⟩ := slot_of_view (v := .bare) ht' he
      have hflag : (hand self t d).2 = t.2 := by
        refine if_neg fun h => hself ?_
        rw [← hd, h.1.2]
        exact ((hbeside ht').clientFd he').symm
      have hworld : (hand self t d).1.without k fd = t.1.without k fd := by
        unfold hand
        rw [hd] at hc ⊢
        exact sendLine_own (hbeside ht) _ hc _
      have hskip : seen d = none := if_neg (by simp [hd])
      rw [hskip, Option.elim_none]
      exact Prod.ext hworld hflag
    · have htake : seen d = some d := if_pos (by simp [hd])
      rw [htake, Option.elim_some]
      simp only [see, hand]
      rw [sendLine_without (hbeside ht) (show (Cause.mk self d.about).self ≠ fd from hself) hd hc]
      dsimp only
      rw [conn_without hself]
  have hrun := Run.run_project see seen (fun t d ht _ => (hand_roster self t d).trans ht) hone ds
    hlive rfl
  rw [List.filterMap_eq_filter] at hrun
  exact hrun.symm

/-- **An order of another.** -/
theorem acceptOrder_without (hw : Beside k fd w) {self : Nat} (hself : self ≠ fd)
    {d : ClientConnection} (hd : w.slot self = some d) {ord : Order} (hord : ord.clientFd ≠ fd) :
    acceptOrder ord self (w.without k fd)
      = ((acceptOrder ord self w).1.without k fd, (acceptOrder ord self w).2) := by
  have htaken : ({ w.without k fd with exchange := (w.without k fd).exchange.takeId ord } : World)
      = ({ w with exchange := w.exchange.takeId ord } : World).without k fd := by
    unfold World.without
    dsimp only
    rw [Exchange.forget_takeId w.exchange hord]
  have hw' : Beside k fd { w with exchange := w.exchange.takeId ord } := hw
  rw [acceptOrder_eq, acceptOrder_eq]
  dsimp only
  rw [htaken, reply_without hw' hself hd]
  generalize hs : reply self (acceptedText ord.id) { w with exchange := w.exchange.takeId ord } = s
  have hroster : s.1.roster = w.roster := hs ▸ reply_roster _ _ _
  have hbeside : Beside k fd s.1 := hw.of_tenants (tenants_of_roster hroster)
  have hlive : ∀ {n c}, w.slot n = some c → ∃ c', s.1.slot n = some c' := fun hc =>
    (slot_of_view (v := .bare) hroster hc).imp fun _ h => h.1
  rw [without_exchange, Exchange.forget_orderbook, without_heap,
    addOrder_forget w.exchange.orderbook hord]
  dsimp only
  rw [deliveries_without, Exchange.forget_takeId w.exchange hord, Exchange.forget_enter _ hord]
  exact foldl_hand_without hself _ (s := ({ s.1 with
      exchange := (w.exchange.takeId ord).enter ord w.heap
      heap := (addOrder w.exchange.orderbook ord w.heap).heap }, s.2)) hbeside (hlive hd)
    fun d hd' => (deliveries_live hd').elim fun c hc => hlive hc

/-! ## 5. Lines -/

/-- An error to another. -/
theorem replyError_without (hw : Beside k fd w) {self : Nat} (hself : self ≠ fd)
    {d : ClientConnection} (hd : w.slot self = some d) (reason : Bytes) :
    replyError self reason (w.without k fd)
      = ((replyError self reason w).1.without k fd, (replyError self reason w).2) :=
  reply_without hw hself hd _

/-- A reply behind a change of the client's own fields. -/
theorem reply_changed_without (hw : Beside k fd w) {self : Nat} (hself : self ≠ fd)
    {d : ClientConnection} (hd : w.slot self = some d) (f : ClientConnection → ClientConnection)
    (hf : ∀ c, (f c).fixed = c.fixed) (line : Bytes) :
    reply self line ((w.without k fd).modify self f)
      = ((reply self line (w.modify self f)).1.without k fd,
          (reply self line (w.modify self f)).2) := by
  rw [← without_modify hself]
  exact reply_without (hw.of_tenants (modify_kept self f hf w).tenants) hself
    (modify_slot self hd f) line

/-- The names in use, but for one slot's. -/
theorem usesName_without {name : Bytes} (h : usesName name (w.slot fd) = false) :
    (w.without k fd).conns.any (usesName name) = w.conns.any (usesName name) := by
  have hall : ∀ l : List (Option ClientConnection), usesName name (l[fd]?.join) = false →
      (l.set fd none).any (usesName name) = l.any (usesName name) := by
    intro l hl
    rw [Bool.eq_iff_iff, List.any_eq_true, List.any_eq_true]
    constructor
    · rintro ⟨s, hs, hname⟩
      rcases List.mem_or_eq_of_mem_set hs with hs | rfl
      · exact ⟨s, hs, hname⟩
      · cases hname
    · rintro ⟨s, hs, hname⟩
      obtain ⟨i, hi, rfl⟩ := List.mem_iff_getElem.mp hs
      have hne : fd ≠ i := by
        rintro rfl
        rw [List.getElem?_eq_getElem hi, Option.join_some, hname] at hl
        cases hl
      refine ⟨l[i], ?_, hname⟩
      rw [← List.getElem_set_of_ne hne none (by rwa [List.length_set])]
      exact List.getElem_mem _
  exact hall w.conns h

/-- A login of another, under a name that is not the connection's. -/
theorem loginUser_without (hw : Beside k fd w) {self : Nat} (hself : self ≠ fd)
    {d : ClientConnection} (hd : w.slot self = some d) {username : Bytes}
    (hname : usesName username (w.slot fd) = false) :
    loginUser username self (w.without k fd)
      = ((loginUser username self w).1.without k fd, (loginUser username self w).2) := by
  unfold loginUser
  rw [conn_without hself, usesName_without hname]
  split
  · exact replyError_without hw hself hd _
  · split
    · exact replyError_without hw hself hd _
    · split
      · exact replyError_without hw hself hd _
      · exact reply_changed_without hw hself hd (fun c =>
          { c with type := .trader, username := username.take (usernameLength - 1)
                   loggedIn := true }) (fun _ => rfl) _

theorem setSubscribed_fixed (b : Bool) (inst : Instrument) (c : ClientConnection) :
    (c.setSubscribed b inst).fixed = c.fixed := by
  cases inst <;> rfl

theorem subscribeClient_without (hw : Beside k fd w) {self : Nat} (hself : self ≠ fd)
    {d : ClientConnection} (hd : w.slot self = some d) (instrument : Bytes) :
    subscribeClient instrument self (w.without k fd)
      = ((subscribeClient instrument self w).1.without k fd,
          (subscribeClient instrument self w).2) := by
  unfold subscribeClient
  rw [conn_without hself]
  split
  · exact replyError_without hw hself hd _
  · split
    · exact replyError_without hw hself hd _
    · rename_i inst _
      split
      · exact replyError_without hw hself hd _
      · exact reply_changed_without hw hself hd
          (fun c => { c.setSubscribed true inst with type := .market })
          (fun c => setSubscribed_fixed true inst c) _

theorem unsubscribeClient_without (hw : Beside k fd w) {self : Nat} (hself : self ≠ fd)
    {d : ClientConnection} (hd : w.slot self = some d) (instrument : Bytes) :
    unsubscribeClient instrument self (w.without k fd)
      = ((unsubscribeClient instrument self w).1.without k fd,
          (unsubscribeClient instrument self w).2) := by
  unfold unsubscribeClient
  rw [conn_without hself]
  split
  · exact replyError_without hw hself hd _
  · split
    · exact replyError_without hw hself hd _
    · rename_i inst _
      split
      · exact reply_changed_without hw hself hd (fun c => c.setSubscribed false inst)
          (setSubscribed_fixed false inst) _
      · exact replyError_without hw hself hd _

theorem quitUser_without (hw : Beside k fd w) {self : Nat} (hself : self ≠ fd)
    {d : ClientConnection} (hd : w.slot self = some d) :
    quitUser self (w.without k fd)
      = ((quitUser self w).1.without k fd, (quitUser self w).2) := by
  unfold quitUser
  dsimp only
  rw [reply_changed_without hw hself hd (fun c => { c with closing := true }) (fun _ => rfl)]
  dsimp only
  rw [conn_without hself]

/-- An order line of another: the checks look at the other's own fields. -/
theorem placeOrder_without (hw : Beside k fd w) {self : Nat} (hself : self ≠ fd)
    {d : ClientConnection} (hd : w.slot self = some d) (side : OrderSide) (instrument : Bytes)
    (quantity price : Int) :
    placeOrder side instrument quantity price self (w.without k fd)
      = ((placeOrder side instrument quantity price self w).1.without k fd,
          (placeOrder side instrument quantity price self w).2) := by
  have hheap : ∀ heap, ({ w.without k fd with heap := heap } : World)
      = ({ w with heap := heap } : World).without k fd := fun _ => rfl
  unfold placeOrder
  split
  · exact replyError_without hw hself hd _
  · split
    · exact replyError_without hw hself hd _
    · dsimp only
      rw [without_heap, hheap]
      have hw' : Beside k fd { w with heap := (alloc w.heap).2 } := hw
      have hd' : World.slot { w with heap := (alloc w.heap).2 } self = some d := hd
      generalize ({ w with heap := (alloc w.heap).2 } : World) = v at hw' hd'
      split
      · exact replyError_without hw' hself hd' _
      · rw [conn_without hself]
        refine acceptOrder_without hw' hself hd' ?_
        show ((v.conn self).clientFd : Int) ≠ fd
        rw [hw'.clientFd hd']
        exact_mod_cast hself

/-- A `CANCEL` of another finds the same order, or none. -/
theorem cancelUserOrder_without (hw : Beside k fd w) {self : Nat} (hself : self ≠ fd)
    {d : ClientConnection} (hd : w.slot self = some d) (orderIdStr : Bytes) :
    cancelUserOrder orderIdStr self (w.without k fd)
      = ((cancelUserOrder orderIdStr self w).1.without k fd,
          (cancelUserOrder orderIdStr self w).2) := by
  unfold cancelUserOrder
  split
  · exact replyError_without hw hself hd _
  · rename_i id _
    have hne : ((w.conn self).clientFd : Int) ≠ fd := by
      rw [hw.clientFd hd]
      exact_mod_cast hself
    rw [conn_without hself, without_exchange, Exchange.forget_cancel w.exchange hne (by omega)]
    cases w.exchange.cancel id (w.conn self).clientFd with
    | none => exact replyError_without hw hself hd _
    | some r =>
      have hother : (Obs.cancelled (w.conn self).serial r.1).concerns k = false :=
        beq_false_of_ne (hw.serial_ne hself hd)
      have hworld : ({ w.without k fd with exchange := r.2.forget fd } : World).note
            (.cancelled (w.conn self).serial r.1)
          = (({ w with exchange := r.2 } : World).note
              (.cancelled (w.conn self).serial r.1)).without k fd :=
        (without_note (w := { w with exchange := r.2 }) hother).symm
      dsimp only [Option.map_some]
      rw [hworld]
      exact reply_without (w := ({ w with exchange := r.2 } : World).note
        (.cancelled (w.conn self).serial r.1)) hw hself hd _

/-- Both branches of a test. -/
theorem branch_without {p : Prop} [Decidable p] {x x' y y' : World × Bool}
    (hpos : p → x' = (x.1.without k fd, x.2)) (hneg : ¬ p → y' = (y.1.without k fd, y.2)) :
    (if p then x' else y')
      = ((if p then x else y).1.without k fd, (if p then x else y).2) := by
  split
  · exact hpos ‹_›
  · exact hneg ‹_›

/-- The line asks for this user name. -/
def asksFor (name line : Bytes) : Bool :=
  let s := scanLine (cstr line)
  s.cmd == lit "LOGIN" && s.matched == 2 && s.arg == name

theorem dispatchCommand_without (hw : Beside k fd w) {self : Nat} (hself : self ≠ fd)
    {d : ClientConnection} (hd : w.slot self = some d) {s : Scanned}
    (hname : s.cmd = lit "LOGIN" ∧ s.matched = 2 → usesName s.arg (w.slot fd) = false) :
    dispatchCommand s self (w.without k fd)
      = ((dispatchCommand s self w).1.without k fd, (dispatchCommand s self w).2) := by
  have herror : ∀ reason, _ := replyError_without hw hself hd
  unfold dispatchCommand
  rw [conn_without hself]
  refine branch_without (fun _ => herror _) fun _ => ?_
  refine branch_without (fun hlogin => ?_) fun _ => ?_
  · exact branch_without (fun _ => herror _) fun _ => loginUser_without hw hself hd (hname hlogin)
  refine branch_without (fun _ => subscribeClient_without hw hself hd _) fun _ => ?_
  refine branch_without (fun _ => quitUser_without hw hself hd) fun _ => ?_
  refine branch_without (fun _ => unsubscribeClient_without hw hself hd _) fun _ => ?_
  refine branch_without (fun _ => herror _) fun _ => ?_
  refine branch_without (fun _ => placeOrder_without hw hself hd _ _ _ _) fun _ => ?_
  refine branch_without (fun _ => placeOrder_without hw hself hd _ _ _ _) fun _ => ?_
  exact branch_without (fun _ => cancelUserOrder_without hw hself hd _) fun _ => herror _

/-- **A line of another**, that does not ask for the connection's name. -/
theorem processLine_without (hw : Beside k fd w) {self : Nat} (hself : self ≠ fd)
    {d : ClientConnection} (hd : w.slot self = some d) {line : Bytes}
    (hname : ∀ c, w.slot fd = some c → asksFor c.username line = false) :
    processLine line self (w.without k fd)
      = ((processLine line self w).1.without k fd, (processLine line self w).2) := by
  have hother : (Obs.line (w.conn self).serial line).concerns k = false :=
    beq_false_of_ne (hw.serial_ne hself hd)
  unfold processLine
  dsimp only
  rw [conn_without hself, ← without_note hother]
  split
  · rfl
  · refine dispatchCommand_without (w := w.note _) hw hself hd fun hlogin => ?_
    rw [slot_note]
    cases hc : w.slot fd with
    | none => rfl
    | some c =>
      have hasks := hname c hc
      unfold asksFor at hasks
      simp only [hlogin, beq_self_eq_true, Bool.true_and] at hasks
      unfold usesName
      rw [Bool.and_eq_false_iff]
      refine .inr (beq_false_of_ne fun hu => ?_)
      exact absurd hu.symm (ne_of_beq_false hasks)

theorem rejectLine_without (hw : Beside k fd w) {self : Nat} (hself : self ≠ fd)
    {d : ClientConnection} (hd : w.slot self = some d) :
    rejectLine self (w.without k fd)
      = ((rejectLine self w).1.without k fd, (rejectLine self w).2) := by
  have hother : (Obs.tooLong (w.conn self).serial).concerns k = false :=
    beq_false_of_ne (hw.serial_ne hself hd)
  unfold rejectLine
  rw [conn_without hself, ← without_note hother]
  exact replyError_without (w := w.note _) hw hself hd _

/-! ## 6. Acts -/

/-- A flush to another. -/
theorem flushClient_without (hw : Beside k fd w) {n : Nat} (hn : n ≠ fd) {d : ClientConnection}
    (hd : w.slot n = some d) :
    flushClient n (w.without k fd) = ((flushClient n w).1.without k fd, (flushClient n w).2) := by
  have hother : ∀ wrote, (Obs.flushed (w.conn n).serial wrote).concerns k = false := fun _ =>
    beq_false_of_ne (hw.serial_ne hn hd)
  unfold flushClient
  dsimp only
  rw [conn_without hn, sock_without hn, without_note (hother _), without_modify hn, without_sock hn]

/-- A flush to the connection is not seen. -/
theorem flushClient_own (hw : Beside k fd w) {c : ClientConnection} (hc : w.slot fd = some c) :
    (flushClient fd w).1.without k fd = w.without k fd := by
  have hown : ∀ wrote, (Obs.flushed (w.conn fd).serial wrote).concerns k = true := fun _ => by
    rw [conn_of_slot hc]
    exact beq_iff_eq.mpr ((hw fd _ _ (badge_of_slot hc)).2.mpr rfl)
  unfold flushClient
  dsimp only
  rw [without_own_note (hown _), without_own_modify, without_own_sock]

/-- The removal of another. -/
theorem removeClient_without (hw : Beside k fd w) {n : Nat} (hn : n ≠ fd) :
    removeClient n (w.without k fd) = (removeClient n w).without k fd := by
  have hx : (w.without k fd).exchange.depart n = (w.exchange.depart n).forget fd :=
    Exchange.forget_depart _ (by omega) (by omega) (by omega)
  have hopened : (w.without k fd).opened.filter (fun m => m != n)
      = (w.opened.filter fun m => m != n).filter fun m => m != fd := List.filter_comm _ _ _
  unfold removeClient
  dsimp only
  rw [hx, show World.slot { w.without k fd with exchange := (w.exchange.depart n).forget fd } n
    = w.slot n from slot_without_ne (k := k) hn,
    show World.slot { w with exchange := w.exchange.depart n } n = w.slot n from rfl]
  cases hd : w.slot n with
  | none =>
    dsimp only
    rw [hopened]
    rfl
  | some d =>
    have hother : (Obs.removed d.serial).concerns k = false :=
      beq_false_of_ne (conn_of_slot hd ▸ hw.serial_ne hn hd)
    dsimp only [World.note]
    unfold World.without at hopened ⊢
    dsimp only at hopened ⊢
    rw [hopened, List.filter_append, List.filter_singleton, hother, List.set_comm _ _ hn.symm]
    rfl

/-- **The removal of the connection.** -/
theorem removeClient_own (hw : Beside k fd w) :
    (removeClient fd w).without k fd = w.without k fd := by
  have hx : (w.exchange.depart fd).forget fd = w.exchange.forget fd :=
    Exchange.forget_departed _ (by omega)
  unfold removeClient
  dsimp only
  rw [show World.slot { w with exchange := w.exchange.depart fd } fd = w.slot fd from rfl]
  cases hc : w.slot fd with
  | none =>
    unfold World.without
    dsimp only
    rw [hx, List.filter_filter]
    simp
  | some c =>
    have hown : (Obs.removed c.serial).concerns k = true :=
      beq_iff_eq.mpr ((hw fd _ _ (badge_of_slot hc)).2.mpr rfl)
    unfold World.without
    dsimp only [World.note]
    rw [hx, List.filter_filter, List.filter_append, List.filter_singleton, hown, List.set_set]
    simp

theorem removeIfDone_without {s : World × Bool} (hw : Beside k fd s.1) {n : Nat} (hn : n ≠ fd) :
    removeIfDone n (s.1.without k fd, s.2) = (removeIfDone n s).without k fd := by
  unfold removeIfDone
  dsimp only
  split
  · exact removeClient_without hw hn
  · rfl

theorem removeIfDone_own {s : World × Bool} (hw : Beside k fd s.1) :
    (removeIfDone fd s).without k fd = s.1.without k fd := by
  unfold removeIfDone
  split
  · exact removeClient_own hw
  · rfl

/-- **An act of another** can be done before or after the connection is taken away. -/
theorem act_without (hw : Beside k fd w) {n : Nat} (hn : n ≠ fd) {a : ClientAct}
    (hname : ∀ line, a = .command line → ∀ c, w.slot fd = some c →
      asksFor c.username line = false) :
    (act w (.client n a)).without k fd = act (w.without k fd) (.client n a) := by
  have hkept : ∀ {v : World}, v.tenants = w.tenants → Beside k fd v := hw.of_tenants
  rw [act, act, slot_without_ne hn]
  cases hd : w.slot n with
  | none => rfl
  | some d =>
    have hk : d.serial ≠ k := conn_of_slot hd ▸ hw.serial_ne hn hd
    dsimp only
    cases a with
    | applied => exact without_note (beq_false_of_ne hk)
    | received got =>
      unfold serve
      dsimp only
      rw [without_modify hn, without_note (o := .read d.serial _ got) (beq_false_of_ne hk)]
    | buffered f => exact without_modify hn _
    | command line =>
      unfold serve
      dsimp only
      rw [processLine_without hw hn hd (hname line rfl)]
      exact (removeIfDone_without (hkept (processLine_kept line n w).tenants) hn).symm
    | overlong =>
      have hroster : (rejectLine n w).1.roster = w.roster := reply_roster _ _ _
      unfold serve
      dsimp only
      rw [rejectLine_without hw hn hd]
      exact (removeIfDone_without (hkept (tenants_of_roster hroster)) hn).symm
    | flush =>
      unfold serve
      dsimp only
      rw [flushClient_without hw hn hd]
      exact (removeIfDone_without (hkept (tenants_of_roster (flushClient_roster n w))) hn).symm
    | drop => exact (removeClient_without hw hn).symm

/-- **An act of the connection** other than a line changes nothing else. -/
theorem act_own (hw : Beside k fd w) {a : ClientAct} (ha : ∀ line, a ≠ .command line) :
    (act w (.client fd a)).without k fd = w.without k fd := by
  rw [act]
  cases hc : w.slot fd with
  | none => rfl
  | some c =>
    have hk : c.serial = k := (hw fd _ _ (badge_of_slot hc)).2.mpr rfl
    dsimp only
    cases a with
    | applied => exact without_own_note (beq_iff_eq.mpr hk)
    | received got =>
      unfold serve
      dsimp only
      rw [without_own_modify, without_own_note (o := .read c.serial _ got) (beq_iff_eq.mpr hk)]
    | buffered f => exact without_own_modify _
    | command line => exact absurd rfl (ha line)
    | overlong =>
      have hroster : (rejectLine fd w).1.roster = w.roster := reply_roster _ _ _
      have hnoted : (Obs.tooLong (w.conn fd).serial).concerns k = true := by
        rw [conn_of_slot hc]
        exact beq_iff_eq.mpr hk
      refine (removeIfDone_own (hw.of_tenants (tenants_of_roster hroster))).trans ?_
      unfold rejectLine replyError reply
      rw [sendLine_own (w := w.note _) hw _ hc, without_own_note hnoted]
    | flush =>
      refine (removeIfDone_own
        (hw.of_tenants (tenants_of_roster (flushClient_roster fd w)))).trans ?_
      exact flushClient_own hw hc
    | drop => exact removeClient_own hw

end Without

/-! ## 7. Runs -/

/-- What the runs may do: nobody is accepted, the connection sends no line, and nobody asks for
its user name. -/
def Act.Allowed (fd : Nat) (name : Bytes) : Act → Prop
  | .accept _ _ _ _ => False
  | .client n (.command line) => n ≠ fd ∧ asksFor name line = false
  | _ => True

instance (fd : Nat) (name : Bytes) : DecidablePred (Act.Allowed fd name)
  | .supply _ _ => .isTrue trivial
  | .accept _ _ _ _ => .isFalse id
  | .client _ .applied => .isTrue trivial
  | .client _ (.received _) => .isTrue trivial
  | .client _ (.buffered _) => .isTrue trivial
  | .client n (.command line) => inferInstanceAs (Decidable (n ≠ fd ∧ asksFor name line = false))
  | .client _ .overlong => .isTrue trivial
  | .client _ .flush => .isTrue trivial
  | .client _ .drop => .isTrue trivial

/-- The part of an act that is not the connection's: the answers of the other sockets, and the
acts of the others. -/
def Act.others (fd : Nat) : Act → Option Act
  | .supply sock heap =>
    some (.supply (Function.update sock fd { writes := [], mallocs := [] }) heap)
  | .client n a => if n = fd then none else some (.client n a)
  | .accept clientFd grown calloced armed => some (.accept clientFd grown calloced armed)

/-- **Where the runs pass**: the connection is in its slot, under its name, or gone. -/
structure Aside (k fd : Nat) (name : Bytes) (w : World) : Prop where
  reachable : Reachable w
  beside : Beside k fd w
  named : ∀ c, w.slot fd = some c → c.username = name

section Runs

variable {k fd : Nat} {name : Bytes} {w : World}

/-- No act but `accept` fills a slot. -/
theorem badge_of_act {a : Act} (ha : a.Allowed fd name) {n : Nat} {b : Nat × Nat}
    (hb : (act w a).badge n = some b) : w.badge n = some b := by
  cases a with
  | supply sock heap => exact hb
  | accept clientFd grown calloced armed => exact ha.elim
  | client m a =>
    by_cases happlied : a = .applied
    · rw [happlied, act] at hb
      split at hb <;> exact hb
    · have hof : OfClient m (.client m a) := by
        cases a <;> first | rfl | exact absurd rfl happlied
      have hconf := confined_act w hof
      by_cases hn : n = m
      · rw [hn] at hb ⊢
        rcases hconf.own with h | h
        · exact h ▸ hb
        · rw [h] at hb
          cases hb
      · exact hconf.others n hn ▸ hb

/-- Nobody changes the connection's user name. -/
theorem named_act (hw : Aside k fd name w) {a : Act} (ha : a.Allowed fd name)
    {c : ClientConnection} (hc : (act w a).slot fd = some c) : c.username = name := by
  have hhoused := housed_of_reachable hw.reachable
  have hsettled : ∀ {v : World}, Settled w v → ∀ {c}, v.slot fd = some c → c.username = name := by
    intro v hv c hc
    obtain ⟨d, hd, hsession⟩ := hv.sessions fd c hc
    exact (fields_of_session hsession).2.2.2.1.trans (hw.named d hd)
  by_cases hline : ∃ n line, a = .client n (.command line)
  · obtain ⟨n, line, rfl⟩ := hline
    rw [act] at hc
    cases hd : w.slot n with
    | none =>
      rw [hd] at hc
      exact hw.named c hc
    | some d =>
      -- a line changes the queue of another connection at most
      rw [hd] at hc
      have hothers := (processLine_handling n w line).others (n := fd) (Ne.symm ha.1)
      obtain ⟨e, he, hbare⟩ := slot_of_bare hothers (slot_of_removeIfDone hc)
      rw [show c.username = c.bare.username from rfl, hbare]
      exact hw.named e he
  · have hnot : ∀ n line, a ≠ .client n (.command line) := fun n line h => hline ⟨n, line, h⟩
    have hout := outcome_act hhoused hnot
    generalize hv : act w a = v at hout hc
    cases hout with
    | settled h => exact hsettled h hc
    | left h _ => exact hsettled h (slot_of_removed hc)
    | @came _ m h =>
      -- only `accept` registers
      have hnew : v.badge m = some (w.accepts, m) := by
        rw [World.badge, h.slot, if_pos rfl]
        rfl
      rw [← hv] at hnew
      exact absurd (hhoused.known _ _ _ (badge_of_act ha hnew)) (lt_irrefl _)

/-- An allowed act stays there. -/
theorem aside_act (hw : Aside k fd name w) {a : Act} (ha : a.Allowed fd name) :
    Aside k fd name (act w a) :=
  ⟨hw.reachable.steps (Steps.one (P := Any) w a trivial),
    fun n m f hb => hw.beside n m f (badge_of_act ha hb), fun _ hc => named_act hw ha hc⟩

/-- **An allowed act, seen without the connection**, is the others' part of it. -/
theorem others_act (hw : Aside k fd name w) {a : Act} (ha : a.Allowed fd name) :
    (act w a).without k fd = (a.others fd).elim (w.without k fd) (act (w.without k fd)) := by
  cases a with
  | supply sock heap => rfl
  | accept clientFd grown calloced armed => exact ha.elim
  | client n a =>
    by_cases hn : n = fd
    · rw [Act.others, if_pos hn, hn]
      refine act_own hw.beside fun line hline => ?_
      rw [hline] at ha
      exact ha.1 hn
    · rw [Act.others, if_neg hn]
      refine act_without hw.beside hn fun line hline c hc => ?_
      rw [hline] at ha
      rw [hw.named c hc]
      exact ha.2

/-- **Runs in which the others do the same come to the same**, but for the connection. -/
theorem without_run {as bs : List Act} (hw : Aside k fd name w) (ha : ∀ a ∈ as, a.Allowed fd name)
    (hb : ∀ b ∈ bs, b.Allowed fd name)
    (hsame : as.filterMap (Act.others fd) = bs.filterMap (Act.others fd)) :
    (Run.run act w as).without k fd = (Run.run act w bs).without k fd := by
  have hrun : ∀ cs : List Act, (∀ c ∈ cs, c.Allowed fd name) →
      (Run.run act w cs).without k fd
        = Run.run act (w.without k fd) (cs.filterMap (Act.others fd)) := fun cs hc =>
    Run.run_project (World.without k fd) (Act.others fd)
      (fun _ a (hv : Aside k fd name _) (hok : a.Allowed fd name) => aside_act hv hok)
      (fun _ _ hv hok => others_act hv hok) cs hc hw
  rw [hrun as ha, hrun bs hb, hsame]

end Runs

/-! ## 8. What the others have in common -/

/-- An execution, with its orders by their ids. -/
structure Trade where
  instrument : Instrument
  price : Int
  quantity : Int
  incoming : Int
  resting : Int
  deriving DecidableEq, Repr

def Entry.trade : Entry → Option Trade
  | .executed incoming e =>
    some { instrument := incoming.instrument, price := e.resting.price, quantity := e.quantity
           incoming := incoming.id, resting := e.resting.id }
  | _ => none

/-- The id an accepted order was given. -/
def Entry.idGiven : Entry → Option Int
  | .accepted ord => some ord.id
  | _ => none

theorem trade_forget (fd : Int) (e : Entry) : (e.forget fd).trade = e.trade := by
  cases e <;> simp [Entry.forget, Entry.trade, Execution.forget]

theorem idGiven_forget (fd : Int) (e : Entry) : (e.forget fd).idGiven = e.idGiven := by
  cases e <;> simp [Entry.forget, Entry.idGiven]

/-- A message to another is no note about the connection. -/
theorem handedTo_others {k k' : Nat} (h : k' ≠ k) (trace : List Obs) :
    handedTo k' (trace.filter fun o => !o.concerns k) = handedTo k' trace := by
  unfold handedTo
  rw [List.filterMap_filter]
  refine List.filterMap_congr fun o _ => ?_
  cases o with
  | handed x =>
    by_cases hx : x.receiver = k'
    · simp [Obs.concerns, hx, h]
    · simp [hx]
  | _ => simp

theorem writtenTo_others {k k' : Nat} (h : k' ≠ k) : ∀ trace : List Obs,
    writtenTo k' (trace.filter fun o => !o.concerns k) = writtenTo k' trace
  | [] => rfl
  | o :: trace => by
    have ih := writtenTo_others h trace
    have hown : o.concerns k = true → o.wroteTo k' = [] := by
      intro ho
      cases o with
      | handed x =>
        have hx : x.receiver = k := beq_iff_eq.mp ho
        exact if_neg (by rw [hx]; exact h.symm)
      | flushed n wrote =>
        have hn : n = k := beq_iff_eq.mp ho
        exact if_neg (by rw [hn]; exact h.symm)
      | _ => rfl
    unfold writtenTo at ih ⊢
    cases ho : o.concerns k with
    | true => rw [List.filter_cons_of_neg (by simp [ho]), List.flatMap_cons, hown ho, ih,
        List.nil_append]
    | false => rw [List.filter_cons_of_pos (by simp [ho]), List.flatMap_cons, List.flatMap_cons, ih]

/-- **Two states with the same for everyone but connection `k` of slot `fd`.** -/
structure SameForOthers (fd k : Nat) (u v : World) : Prop where
  /-- the same executions in the same order -/
  trades : u.exchange.log.filterMap Entry.trade = v.exchange.log.filterMap Entry.trade
  /-- the same ids given, and to be given -/
  ids : u.exchange.log.filterMap Entry.idGiven = v.exchange.log.filterMap Entry.idGiven ∧
    u.exchange.nextOrderId = v.exchange.nextOrderId
  /-- the same book, with -1 for this owner -/
  book : detachClientOrders u.exchange.orderbook fd = detachClientOrders v.exchange.orderbook fd
  /-- the same connections in the same states -/
  slots : ∀ n, n ≠ fd → u.slot n = v.slot n
  /-- the same messages, and the same bytes written -/
  told : ∀ k', k' ≠ k → handedTo k' u.trace = handedTo k' v.trace ∧
    writtenTo k' u.trace = writtenTo k' v.trace

/-- Worlds that are one without the connection are the same for the others. -/
theorem sameForOthers_of_without {fd k : Nat} {u v : World} (h : u.without k fd = v.without k fd) :
    SameForOthers fd k u v := by
  have hx : u.exchange.forget fd = v.exchange.forget fd := congrArg World.exchange h
  have hlog : u.exchange.log.map (Entry.forget fd) = v.exchange.log.map (Entry.forget fd) :=
    congrArg Exchange.log hx
  have hnext : (u.exchange.forget fd).nextOrderId = (v.exchange.forget fd).nextOrderId :=
    congrArg Exchange.nextOrderId hx
  have htrace : (u.trace.filter fun o => !o.concerns k) = v.trace.filter fun o => !o.concerns k :=
    congrArg World.trace h
  have hseen : ∀ {β : Type} (g : Entry → Option β), (∀ e, g (e.forget fd) = g e) →
      u.exchange.log.filterMap g = v.exchange.log.filterMap g := by
    intro β g hg
    have hmap : ∀ l : List Entry,
        (l.map (Entry.forget fd)).filterMap g = l.filterMap g := fun l => by
      rw [List.filterMap_map]
      exact List.filterMap_congr fun e _ => hg e
    rw [← hmap, hlog, hmap]
  refine ⟨hseen _ (trade_forget fd), ⟨hseen _ (idGiven_forget fd), hnext⟩,
    congrArg Exchange.orderbook hx, fun n hn => ?_, fun k' hk' => ⟨?_, ?_⟩⟩
  · rw [← slot_without_ne (k := k) hn, h, slot_without_ne hn]
  · rw [← handedTo_others hk', htrace, handedTo_others hk']
  · rw [← writtenTo_others hk', htrace, writtenTo_others hk']

/-- The orders with this descriptor are the connection's. -/
theorem submitter_of_clientFd {k fd : Nat} {w : World} (howned : Owned w) (hw : Beside k fd w)
    {o : Order} (ho : o ∈ w.exchange.orderbook.orders) (hfd : o.clientFd = fd) :
    o.submitter = k := by
  rcases (howned.orders o ho).1 with ⟨n, hn, f, hf⟩ | ⟨hgone, -⟩
  · have hnf : n = fd := by exact_mod_cast hn.symm.trans hfd
    exact (hw n _ _ hf).2.mpr hnf
  · omega

/-- A book has no order of a client that is gone. -/
theorem detach_of_gone {fd : Nat} {w : World} (howned : Owned w) (hgone : w.slot fd = none) :
    detachClientOrders w.exchange.orderbook fd = w.exchange.orderbook := by
  refine LimitOrderBook.ext_get fun head => ?_
  rw [get_detachClientOrders]
  refine (List.map_congr_left fun o ho => detach_of_ne fun hfd => ?_).trans (List.map_id _)
  rcases (howned.orders o (mem_orders_of_mem_get ho)).1 with ⟨n, hn, f, hf⟩ | ⟨hneg, -⟩
  · have hnf : n = fd := by exact_mod_cast hn.symm.trans hfd
    rw [World.badge, hnf, hgone] at hf
    cases hf
  · omega

/-- **A slow, failing or departing client does not disturb the others.**  From any reachable
state and for any connection in it, take two runs in which nobody is accepted, the connection
sends no line and nobody asks for its user name.  If they have the same acts of the others, with
the same answers of the allocator and of the sockets of the others, then whatever the
connection's own socket answers, and whenever the connection is removed in one of them or in
both, they come to the same for everyone else.  The orders that are compared with -1 for an
owner are the connection's, and once it is removed they have -1. -/
theorem isolation {w : World} (hw : Reachable w) {fd : Nat} {c : ClientConnection}
    (hc : w.slot fd = some c) {as bs : List Act} (ha : ∀ a ∈ as, a.Allowed fd c.username)
    (hb : ∀ b ∈ bs, b.Allowed fd c.username)
    (hsame : as.filterMap (Act.others fd) = bs.filterMap (Act.others fd)) :
    let u := Run.run act w as
    let v := Run.run act w bs
    SameForOthers fd c.serial u v ∧
      (∀ o ∈ u.exchange.orderbook.orders ++ v.exchange.orderbook.orders,
        o.clientFd = fd → o.submitter = c.serial) ∧
      (u.slot fd = none →
        u.exchange.orderbook = detachClientOrders v.exchange.orderbook fd) := by
  intro u v
  have hhoused := housed_of_reachable hw
  have haside : Aside c.serial fd c.username w := by
    refine ⟨hw, fun n m f hbadge => ⟨hhoused.own _ _ _ hbadge, ?_, ?_⟩, fun d hd => ?_⟩
    · rintro rfl
      exact hhoused.distinct _ _ _ _ _ hbadge (badge_of_slot hc)
    · rintro rfl
      rw [badge_of_slot hc] at hbadge
      exact (congrArg Prod.fst (Option.some.inj hbadge)).symm
    · rw [hc] at hd
      rw [Option.some.inj hd]
  have hend : ∀ cs : List Act, (∀ x ∈ cs, x.Allowed fd c.username) →
      Aside c.serial fd c.username (Run.run act w cs) := fun cs hcs =>
    Run.run_invariant_of_mem (I := Aside c.serial fd c.username)
      (fun _ a hv (hok : a.Allowed fd c.username) => aside_act hv hok) cs w hcs haside
  have hu := hend as ha
  have hv := hend bs hb
  have hothers := sameForOthers_of_without (without_run haside ha hb hsame)
  refine ⟨hothers, fun o ho hfd => ?_, fun hgone => ?_⟩
  · rcases List.mem_append.mp ho with ho | ho
    · exact submitter_of_clientFd (owned_of_reachable hu.reachable) hu.beside ho hfd
    · exact submitter_of_clientFd (owned_of_reachable hv.reachable) hv.beside ho hfd
  · rw [← hothers.book]
    exact (detach_of_gone (owned_of_reachable hu.reachable) hgone).symm

/-- The seller's socket fails with bytes waiting for it, and the seller is removed. -/
def sellerFails : List Act :=
  [ .supply willing [], .client 7 (.command (lit "BUY JNST 4 5")),
    .supply (Function.update willing 5 { writes := [.error], mallocs := [] }) [],
    .client 7 (.command (lit "BUY JNST 3 5")), .client 5 .flush, .client 5 .drop,
    .client 7 (.command (lit "BUY JNST 2 6")) ]

/-- It takes nothing, and the seller stays. -/
def sellerWaits : List Act :=
  [ .supply (Function.update willing 5 { writes := [], mallocs := [] }) [],
    .client 7 (.command (lit "BUY JNST 4 5")),
    .supply (Function.update willing 5 { writes := [.took 1, .eagain], mallocs := [] }) [],
    .client 5 .flush, .client 7 (.command (lit "BUY JNST 3 5")),
    .client 7 (.command (lit "BUY JNST 2 6")) ]

theorem isolation_seller :
    let w := Run.run act (.init 3 []) market
    let u := Run.run act w sellerFails
    let v := Run.run act w sellerWaits
    (u.slot 5 = none ∧ (v.slot 5).isSome = true ∧ u.exchange.log.filterMap Entry.trade ≠ []) ∧
      u.exchange.orderbook = detachClientOrders v.exchange.orderbook 5 ∧
      ∀ k', k' ≠ 0 → handedTo k' u.trace = handedTo k' v.trace := by
  intro w u v
  have hw : Reachable w := ⟨3, [], market, rfl⟩
  have hstate : u.slot 5 = none ∧ (v.slot 5).isSome = true ∧
      u.exchange.log.filterMap Entry.trade ≠ [] := by decide +kernel
  have hseller : ((w.slot 5).map fun c => (c.serial, c.username)) = some (0, lit "ann") := by
    decide +kernel
  have hallowed : ∀ a ∈ sellerFails ++ sellerWaits, a.Allowed 5 (lit "ann") := by decide +kernel
  have hsame : sellerFails.filterMap (Act.others 5) = sellerWaits.filterMap (Act.others 5) := by
    simp [sellerFails, sellerWaits, Act.others]
  clear_value w
  obtain ⟨c, hc, hname⟩ := Option.map_eq_some_iff.mp hseller
  have hserial : c.serial = 0 := congrArg Prod.fst hname
  have hann : c.username = lit "ann" := congrArg Prod.snd hname
  rw [← hann] at hallowed
  obtain ⟨hothers, -, hgone⟩ := isolation hw hc
    (fun a ha => hallowed a (List.mem_append_left _ ha))
    (fun b hb => hallowed b (List.mem_append_right _ hb)) hsame
  exact ⟨hstate, hgone hstate.1, fun k' hk' => (hothers.told k' (hserial ▸ hk')).1⟩

end SocketExchange
