/-
# The tapes of a run

`placeOrder_routed` says what one accepted order sends.  Over a run with memory to be had this
adds up: the notices the server hands out are those of the orders, executions and cancellations
in the log, in the order of the log, each sent to whoever it concerned at that moment
(`act_noticed`).

Two readings of it: a connection that is still there has been handed one notice for each of its
orders and cancellations and each part it had in an execution since the start of the server, and
no others (`trader_tape`); and a connection that subscribes to an instrument throughout a period
has been handed one `TRADE` for each execution of the period in it (`subscriber_tape`).
-/
import SocketExchange.OrderIds

namespace SocketExchange

open CText

/-! ## 1. Notices -/

/-- The message reports an execution; no response starts with one of these letters. -/
def isReport (msg : Bytes) : Bool :=
  msg.head? = some 66 || msg.head? = some 83 || msg.head? = some 84

/-- The message is an `ORDER_ACCEPTED` or an `ORDER_CANCELLED`. -/
def isAcknowledgement (msg : Bytes) : Bool := msg.take 6 = lit "ORDER_"

def isNotice (msg : Bytes) : Bool := isReport msg || isAcknowledgement msg

/-- The notice is about an order of its receiver: it is no `TRADE`. -/
def isOwn (msg : Bytes) : Bool := msg.head? != some 84

def Obs.notice : Obs → Option (Nat × Bytes)
  | .handed h => if isNotice h.msg then some (h.receiver, h.msg) else none
  | _ => none

/-- The notices that were handed out, each with its receiver. -/
def notices (trace : List Obs) : List (Nat × Bytes) := trace.filterMap Obs.notice

/-- Who is told what about an entry of the log, by who is there in `w`. -/
def Entry.messages (w : World) : Entry → List (Nat × Bytes)
  | .accepted ord => [(ord.submitter, acceptedText ord.id)]
  | .executed inc e => executionMessages w inc e
  | .cancelled ord => [(ord.submitter, cancelledText ord.id)]

/-- What an entry has for a connection that had a part in it. -/
def Entry.ownNotices (k : Nat) : Entry → List Bytes
  | .accepted ord => if ord.submitter = k then [acceptedText ord.id] else []
  | .executed inc e =>
    let buyer := if inc.type = .buy then inc.submitter else e.resting.submitter
    let seller := if inc.type = .buy then e.resting.submitter else inc.submitter
    (if buyer = k then [fillLine (lit "BOUGHT") inc.instrument e.quantity inc.price] else [])
      ++ if seller = k then [fillLine (lit "SOLD") inc.instrument e.quantity inc.price] else []
  | .cancelled ord => if ord.submitter = k then [cancelledText ord.id] else []

/-- The line about an execution in the instrument. -/
def Entry.tradeLine (inst : Instrument) : Entry → Option Bytes
  | .executed inc e =>
    if inc.instrument = inst then some (fillLine (lit "TRADE") inc.instrument e.quantity inc.price)
    else none
  | _ => none

/-- The notices a connection was handed about its orders, in order. -/
def ownNoticesTo (k : Nat) (trace : List Obs) : List Bytes :=
  (notices trace).filterMap fun m => if m.1 = k ∧ isOwn m.2 then some m.2 else none

@[simp] theorem notices_append (l m : List Obs) : notices (l ++ m) = notices l ++ notices m :=
  List.filterMap_append

theorem notices_of_none {new : List Obs} (h : ∀ x, .handed x ∈ new → isNotice x.msg = false) :
    notices new = [] := by
  refine List.filterMap_eq_nil_iff.mpr fun o ho => ?_
  cases o with
  | handed x => simp [Obs.notice, h x ho]
  | _ => rfl

theorem isNotice_reply {msg : Bytes} (h : IsReply msg) : isNotice msg = false := by
  rcases h with rfl | ⟨reason, rfl⟩ <;> rfl

@[simp] theorem isNotice_accepted (id : Int) : isNotice (acceptedText id) = true := rfl

@[simp] theorem isNotice_cancelled (id : Int) : isNotice (cancelledText id) = true := rfl

/-- What an execution sends are notices. -/
theorem isNotice_of_execution {w : World} {ord : Order} {e : Execution} {m : Nat × Bytes}
    (h : m ∈ executionMessages w ord e) : isNotice m.2 = true := by
  have hif : ∀ {k : Nat} {msg : Bytes}, m ∈ ifConnected w k msg → m.2 = msg := by
    intro k msg hm
    unfold ifConnected at hm
    split at hm
    · rw [List.mem_singleton.mp hm]
    · cases hm
  rcases List.mem_append.mp h with h | h
  · rcases List.mem_append.mp h with h | h
    · rw [hif h]
      rfl
    · rw [hif h]
      rfl
  · obtain ⟨k, -, rfl⟩ := List.mem_map.mp h
    rfl

/-! ## 2. One act -/

/-- The walk executes what the reference does, whatever the ids are. -/
theorem walk_served : ∀ (l : List Order) (w : Walk),
    (walk l w).2.executed = w.executed ++ served l w.ord
  | [], w => by simp [walk, served]
  | cur :: nxt, w => by
    rw [walk]
    split
    · rename_i hq
      split
      · rename_i hp
        have ih := walk_served nxt (execute cur w)
        rw [execute_ord, execute_executed, List.append_assoc, List.singleton_append] at ih
        rw [served_cons_eq nxt hq hp]
        dsimp only
        split <;> exact ih
      · rename_i hp
        rw [served_cons_ne nxt hp]
        exact walk_served nxt w
    · rename_i hq
      rw [served_of_nonpos _ (not_lt.mp hq)]
      simp

theorem Placed.addOrder_executed {book : LimitOrderBook} (hb : Placed book) (ord : Order)
    (heap : List Bool) : (addOrder book ord heap).executed = executions book ord :=
  (walk_served (book.get (oppList ord)) (.start ord heap)).trans (hb.served_eq ord)

/-- The parties of the entry were accepted as connections. -/
def Entry.Known (w : World) : Entry → Prop
  | .executed inc e => inc.submitter < w.accepts ∧ e.resting.submitter < w.accepts
  | _ => True

/-- **A step tells what it adds to the log**, to whom it concerns. -/
def Noticed (w w' : World) : Prop :=
  ∃ new, w'.exchange.log = w.exchange.log ++ new ∧ (∀ x ∈ new, x.Known w) ∧
    notices w'.trace = notices w.trace ++ new.flatMap (Entry.messages w)

/-- A step that adds nothing and hands out no notices. -/
theorem Noticed.quiet {w w' : World} {obs : List Obs} (hlog : w'.exchange.log = w.exchange.log)
    (htrace : w'.trace = w.trace ++ obs)
    (hobs : ∀ x, .handed x ∈ obs → isNotice x.msg = false) : Noticed w w' := by
  refine ⟨[], by rw [hlog, List.append_nil], by simp, ?_⟩
  rw [htrace, notices_append, notices_of_none hobs]
  rfl

theorem Noticed.settled {w w' : World} (h : Settled w w') : Noticed w w' := by
  obtain ⟨obs, htrace, hobs⟩ := h.sent
  exact .quiet (by rw [h.exchange]) htrace fun x hx => isNotice_reply (hobs x hx)

/-- A removal adds nothing. -/
theorem Noticed.removeIfDone {w : World} {s : World × Bool} (h : Noticed w s.1) (fd : Nat) :
    Noticed w (removeIfDone fd s) := by
  obtain ⟨new, hlog, hknown, htold⟩ := h
  obtain ⟨obs, htrace, hobs⟩ := removeIfDone_trace fd s
  refine ⟨new, ?_, hknown, ?_⟩
  · rw [← hlog]
    unfold SocketExchange.removeIfDone
    split
    · rw [removeClient_exchange]
      rfl
    · rfl
  · have hnone : notices obs = [] := notices_of_none fun x hx => by cases hobs _ hx
    rw [htrace, notices_append, hnone, List.append_nil, htold]

/-- Messages that are all notices, in a trace. -/
theorem notices_handed {hs : List Handed} (h : ∀ x ∈ hs, isNotice x.msg = true) :
    notices (hs.map Obs.handed) = hs.map fun x => (x.receiver, x.msg) := by
  rw [notices, List.filterMap_map, ← List.filterMap_eq_map]
  exact List.filterMap_congr fun x hx => if_pos (h x hx)

theorem notices_reply {self : Nat} {w : World} {msg : Bytes} (h : isNotice msg = true) :
    notices (reply self msg w).1.trace = notices w.trace ++ [((w.conn self).serial, msg)] := by
  have hall : ∀ x ∈ [handedOf { self := self, about := none } self msg w],
      isNotice x.msg = true := fun x hx => by
    rw [List.mem_singleton.mp hx]
    exact h
  have hsent := notices_handed hall
  exact (notices_append _ _).trans (congrArg _ hsent)

/-- **An accepted order** is acknowledged, and reported execution by execution. -/
theorem acceptOrder_noticed {w : World} (hw : Owned w) (hi : InInts w.exchange) {self : Nat}
    {c : ClientConnection} (hc : w.slot self = some c) {ord : Order}
    (hfd : ord.clientFd = (w.conn self).clientFd) (hsub : ord.submitter = (w.conn self).serial)
    (hp : 0 < ord.price ∧ ord.price < 2 ^ 31) (hheap : ∀ ok ∈ w.heap, ok = true) :
    Noticed w (acceptOrder ord self w).1 := by
  have hbadge := badge_conn hc
  have howner : OwnedBy w ord.clientFd ord.submitter :=
    .inl ⟨self, by rw [hfd, hw.housed.own _ _ _ hbadge], _, by rw [hsub]; exact hbadge⟩
  have hexec := hi.placed.addOrder_executed ord w.heap
  obtain ⟨hs, htrace, hwhat⟩ := acceptOrder_trace ord self w
  refine ⟨.accepted ord :: (executions w.exchange.orderbook ord).map (Entry.executed ord), ?_, ?_,
    ?_⟩
  · rw [acceptOrder_exchange, ← hexec]
    simp [Exchange.enter, Exchange.takeId]
  · intro x hx
    rcases List.mem_cons.mp hx with rfl | hx
    · trivial
    · obtain ⟨e, he, rfl⟩ := List.mem_map.mp hx
      exact ⟨by rw [hsub]; exact hw.housed.known _ _ _ hbadge,
        (hw.orders _ (crosses_of_mem he).1).2⟩
  · have hmsgs := congrArg
      (List.map fun x : Nat × Nat × Option Nat × Bytes => (x.2.1, x.2.2.2)) hwhat
    rw [List.map_map, List.map_map, List.map_cons, hi.placed.addOrder_fills ord hheap] at hmsgs
    have hsent : (deliveries w ((executions w.exchange.orderbook ord).map (report ord))).map
          (fun d => ((w.conn d.fd).serial, d.msg))
        = (executions w.exchange.orderbook ord).flatMap (executionMessages w ord) := by
      rw [deliveries, List.flatMap_map, List.map_flatMap]
      exact List.flatMap_congr fun e he => fillDeliveries_routed hw hi howner hp he
    have htold : hs.map (fun x => (x.receiver, x.msg))
        = (ord.submitter, acceptedText ord.id) ::
            (executions w.exchange.orderbook ord).flatMap (executionMessages w ord) := by
      rw [← hsent, hsub]
      exact hmsgs
    have hall : ∀ x ∈ hs, isNotice x.msg = true := by
      intro x hx
      have hmem : (x.receiver, x.msg) ∈ hs.map fun x => (x.receiver, x.msg) :=
        List.mem_map_of_mem hx
      rw [htold] at hmem
      rcases List.mem_cons.mp hmem with heq | hmem
      · have hmsg : x.msg = acceptedText ord.id := congrArg Prod.snd heq
        rw [hmsg]
        exact isNotice_accepted ord.id
      · obtain ⟨e, -, he⟩ := List.mem_flatMap.mp hmem
        exact isNotice_of_execution he
    rw [htrace, notices_append, notices_handed hall, htold, List.flatMap_cons, List.flatMap_map]
    rfl

/-- A line tells what it adds to the log. -/
theorem Handling.noticed {w : World} (hw : Owned w) (hi : InInts w.exchange) {self : Nat}
    {c : ClientConnection} (hc : w.slot self = some c) {q : Bool} {o : Option (Order × List Bool)}
    {r : World × Bool} (h : Handling self w q o r)
    (hheap : ∀ x, o = some x → ∀ ok ∈ x.2, ok = true) : Noticed w r.1 := by
  have hreply : ∀ {v : World} {msg : Bytes}, v.exchange = w.exchange → v.trace = w.trace →
      IsReply msg → Noticed w (reply self msg v).1 := by
    intro v msg hx ht hmsg
    refine .quiet (congrArg Exchange.log hx) ((sendLine_trace _ _ _ _).trans (by rw [ht]))
      fun x hx => ?_
    cases List.mem_singleton.mp hx
    exact isNotice_reply hmsg
  cases h with
  | silent => exact .settled (.refl w)
  | replied heap f hf hrole hmsg => exact hreply rfl rfl hmsg
  | quit => exact hreply rfl rfl (.inl rfl)
  | accepted heap side inst hq hp hin hord =>
    subst hord
    exact acceptOrder_noticed (w := { w with heap := heap }) (hw.heap heap) hi hc rfl rfl hp
      (hheap _ rfl)
  | @cancelled id r hr =>
    obtain ⟨r', hr', rfl⟩ := Option.map_eq_some_iff.mp hr
    obtain ⟨-, hmem, hid, hfd⟩ := tookOut_of_cancel hr'
    have hsub : r'.1.submitter = (w.conn self).serial := by
      rw [conn_of_slot hc] at hfd ⊢
      exact (cancel_authorised hw hc hmem).mp hfd
    refine ⟨[.cancelled r'.1], rfl, by simp [Entry.Known], ?_⟩
    rw [notices_reply (isNotice_cancelled id), trace_note, notices_append]
    refine (congrArg (· ++ _) (List.append_nil _)).trans (congrArg _ ?_)
    rw [List.flatMap_singleton, Entry.messages, hsub, hid]
    rfl

/-- The memory an accepted order finds is what was there. -/
theorem acceptedBy_heap {line : Bytes} {self : Nat} {w : World} {x : Order × List Bool}
    (h : acceptedBy line self w = some x) (hheap : ∀ ok ∈ w.heap, ok = true) :
    ∀ ok ∈ x.2, ok = true := by
  have hplaced : ∀ {side : OrderSide} {inst : Bytes} {quantity price : Int},
      placedBy side inst quantity price self w = some x → ∀ ok ∈ x.2, ok = true := by
    intro side inst quantity price hx
    unfold placedBy at hx
    split at hx
    · cases hx
    · split at hx
      · cases hx
      · split at hx
        · cases hx
        · cases hx
          exact (alloc_succeeds hheap).2
  unfold acceptedBy acceptedOf at h
  split at h
  · cases h
  · split at h
    · exact hplaced h
    · split at h
      · exact hplaced h
      · cases h

/-- **Every act tells what it adds to the log.** -/
theorem act_noticed {w : World} (hw : Reachable w) (hheap : ∀ ok ∈ w.heap, ok = true) (a : Act) :
    Noticed w (act w a) := by
  have howned := owned_of_reachable hw
  have hints := inInts_of_reachable hw
  by_cases ha : ∃ fd line, a = .client fd (.command line)
  · obtain ⟨fd, line, rfl⟩ := ha
    cases hc : w.slot fd with
    | none =>
      simp only [act, hc]
      exact .settled (.refl w)
    | some c =>
      simp only [act, hc, serve]
      have hline : Noticed (w.note (.line (w.conn fd).serial line)) (processLine line fd w).1 :=
        (processLine_handling fd w line).noticed (owned_note howned rfl) hints hc
          fun x hx => acceptedBy_heap hx hheap
      refine Noticed.removeIfDone ?_ fd
      obtain ⟨new, hlog, hknown, htold⟩ := hline
      refine ⟨new, hlog, hknown, htold.trans ?_⟩
      rw [trace_note, notices_append]
      exact congrArg (· ++ _) (List.append_nil _)
  · push Not at ha
    have hout := outcome_act howned.housed ha
    generalize act w a = w' at hout
    cases hout with
    | settled h => exact .settled h
    | @left v fd c h hc => exact Noticed.removeIfDone (s := (v, true)) (.settled h) fd
    | came h =>
      exact .quiet (by rw [h.exchange]) h.trace (by simp)

/-! ## 3. What a trader learns -/

/-- The connection is there, or yet to come. -/
def World.Awaits (w : World) (k : Nat) : Prop := k ∈ w.connected ∨ w.accepts ≤ k

/-- Nobody comes back. -/
theorem awaits_of_act {w : World} (hw : Roles w) (a : Act) {k : Nat} (h : (act w a).Awaits k) :
    w.Awaits k := by
  have hp := persist_act hw a
  rcases h with h | h
  · obtain ⟨fd, f, hf⟩ := mem_connected.mp h
    obtain ⟨c', hc', hser, -⟩ := slot_of_badge hf
    by_cases hk : k < w.accepts
    · obtain ⟨c, hc, hser', -⟩ := hp.role fd c' hc' (by rw [hser]; exact hk)
      refine .inl (mem_connected.mpr ⟨fd, c.clientFd, ?_⟩)
      rw [badge_of_slot hc, hser', hser]
    · exact .inr (not_lt.mp hk)
  · exact .inr (hp.accepts.trans h)

/-- What is sent about an entry to a connection that had a part in it is its own notice. -/
theorem own_of_messages {w : World} {k : Nat} (hk : w.Awaits k) {x : Entry} (hx : x.Known w) :
    (x.messages w).filterMap (fun m => if m.1 = k ∧ isOwn m.2 then some m.2 else none)
      = x.ownNotices k := by
  cases x with
  | accepted ord =>
    have hown : isOwn (acceptedText ord.id) = true := rfl
    rw [Entry.messages, Entry.ownNotices]
    by_cases hk : ord.submitter = k <;> simp [hk, hown]
  | cancelled ord =>
    have hown : isOwn (cancelledText ord.id) = true := rfl
    rw [Entry.messages, Entry.ownNotices]
    by_cases hk : ord.submitter = k <;> simp [hk, hown]
  | executed inc e =>
    have hpart : ∀ {n : Nat} {msg : Bytes}, n < w.accepts → isOwn msg = true →
        (ifConnected w n msg).filterMap
          (fun m => if m.1 = k ∧ isOwn m.2 then some m.2 else none)
          = if n = k then [msg] else [] := by
      intro n msg hn hmsg
      by_cases hnk : n = k
      · have hconn : n ∈ w.connected := hk.elim (fun h => hnk ▸ h) fun h => by omega
        rw [ifConnected, if_pos hconn, if_pos hnk]
        simp [hnk, hmsg]
      · rw [if_neg hnk]
        unfold ifConnected
        split
        · simp [hnk]
        · rfl
    have htrade : ∀ ks : List Nat, (ks.map fun n =>
        (n, fillLine (lit "TRADE") inc.instrument e.quantity inc.price)).filterMap
          (fun m => if m.1 = k ∧ isOwn m.2 then some m.2 else none) = [] := by
      intro ks
      rw [List.filterMap_map, List.filterMap_eq_nil_iff]
      intro n _
      have : isOwn (fillLine (lit "TRADE") inc.instrument e.quantity inc.price) = false := rfl
      simp [this]
    obtain ⟨hinc, hrest⟩ := hx
    unfold Entry.messages Entry.ownNotices executionMessages
    dsimp only
    rw [List.filterMap_append, List.filterMap_append, htrade, List.append_nil]
    split <;> rw [hpart ‹_› rfl, hpart ‹_› rfl]

/-- What a connection was handed about its orders, while it is there or yet to come. -/
theorem told_of_run (serverFd : Nat) (others : List Nat) (as : List Act)
    (hroom : Run.Meets act (fun w _ => ∀ ok ∈ w.heap, ok = true) (.init serverFd others) as)
    {k : Nat} (hk : (Run.run act (.init serverFd others) as).Awaits k) :
    ownNoticesTo k (Run.run act (.init serverFd others) as).trace
      = (Run.run act (.init serverFd others) as).exchange.log.flatMap (Entry.ownNotices k) := by
  induction as using List.reverseRecOn with
  | nil => rfl
  | append_singleton as a ih =>
    obtain ⟨hbefore, hlast⟩ := Run.meets_append.mp hroom
    have hreach : Reachable (Run.run act (.init serverFd others) as) := ⟨_, _, as, rfl⟩
    have ih := ih hbefore
    rw [Run.run_append] at hk ⊢
    generalize Run.run act (.init serverFd others) as = w at hlast hreach ih hk ⊢
    rw [Run.run_cons, Run.run_nil] at hk ⊢
    have hawait := awaits_of_act (roles_of_reachable hreach) a hk
    obtain ⟨new, hlog, hknown, htold⟩ := act_noticed hreach hlast.1 a
    rw [hlog, List.flatMap_append, ← ih hawait, ownNoticesTo, htold, List.filterMap_append,
      List.filterMap_flatMap]
    exact congrArg _ (List.flatMap_congr fun x hx => own_of_messages hawait (hknown x hx))

/-- **A trader's tape is the log.**  In every run whose allocations succeed, a connection that is
still there has been handed exactly one `ORDER_ACCEPTED` for each order in the log it submitted,
one `BOUGHT` for each execution it bought in and one `SOLD` for each it sold in, with the
quantity and the price, and one `ORDER_CANCELLED` for each order it took back, in the order of
the log. -/
theorem trader_tape (serverFd : Nat) (others : List Nat) (as : List Act)
    (hroom : Run.Meets act (fun w _ => ∀ ok ∈ w.heap, ok = true) (.init serverFd others) as)
    {k : Nat} (hk : k ∈ (Run.run act (.init serverFd others) as).connected) :
    ownNoticesTo k (Run.run act (.init serverFd others) as).trace
      = (Run.run act (.init serverFd others) as).exchange.log.flatMap (Entry.ownNotices k) :=
  told_of_run serverFd others as hroom (.inl hk)

/-- The buyer of `market` has bought 4 of the seller's 10, and 3 more. -/
def boughtTwice : List Act :=
  market ++ [.client 7 (.command (lit "BUY JNST 4 5")), .client 7 (.command (lit "BUY JNST 3 5"))]

theorem trader_tape_boughtTwice :
    let w := Run.run act (.init 3 []) boughtTwice
    w.exchange.log.flatMap (Entry.ownNotices 0)
        = [lit "ORDER_ACCEPTED 0\n", lit "SOLD JNST 4 5\n", lit "SOLD JNST 3 5\n"] ∧
      ownNoticesTo 0 w.trace = w.exchange.log.flatMap (Entry.ownNotices 0) :=
  ⟨by decide +kernel, trader_tape 3 [] boughtTwice (by decide +kernel) (by decide +kernel)⟩

/-! ## 4. What a subscriber learns -/

theorem isTrade_fillLine (inst i : Instrument) (quantity price : Int) :
    isTrade inst (fillLine (lit "TRADE") i quantity price) = decide (i = inst) := by
  unfold isTrade fillLine
  cases inst <;> cases i <;> rfl

theorem isNotice_of_isTrade {inst : Instrument} {msg : Bytes} (h : isTrade inst msg = true) :
    isNotice msg = true := by
  cases msg with
  | nil => cases h
  | cons b msg =>
    by_cases hb : b = 84
    · rw [hb]
      rfl
    · rw [isTrade_of_head hb] at h
      cases h

/-- Trades are among the notices. -/
theorem tradesTo_notices (inst : Instrument) (k : Nat) (trace : List Obs) :
    tradesTo inst k trace = (notices trace).filterMap fun m =>
      if m.1 = k ∧ isTrade inst m.2 then some m.2 else none := by
  rw [notices, List.filterMap_filterMap]
  refine List.filterMap_congr fun o _ => ?_
  cases o with
  | handed h =>
    by_cases ht : isTrade inst h.msg = true
    · simp [Obs.tradeTo, Obs.notice, isNotice_of_isTrade ht]
    · have hno : Obs.tradeTo inst k (.handed h) = none := if_neg fun hc => ht hc.2
      rw [hno, Obs.notice]
      split
      · simp [ht]
      · rfl
  | _ => rfl

/-- An execution is one trade to every subscriber of its instrument. -/
theorem trade_of_messages {w : World} (hw : Housed w) {inst : Instrument} {k : Nat}
    (hk : k ∈ w.subscribers inst) (x : Entry) :
    (x.messages w).filterMap (fun m => if m.1 = k ∧ isTrade inst m.2 then some m.2 else none)
      = (x.tradeLine inst).toList := by
  cases x with
  | accepted ord => simp [Entry.messages, Entry.tradeLine, isTrade_accepted]
  | cancelled ord => simp [Entry.messages, Entry.tradeLine, isTrade_cancelled]
  | executed inc e =>
    have hpart : ∀ (n : Nat) {msg : Bytes}, isTrade inst msg = false →
        (ifConnected w n msg).filterMap
          (fun m => if m.1 = k ∧ isTrade inst m.2 then some m.2 else none) = [] := by
      intro n msg hmsg
      unfold ifConnected
      split
      · simp [hmsg]
      · rfl
    have hbought :
        isTrade inst (fillLine (lit "BOUGHT") inc.instrument e.quantity inc.price) = false :=
      isTrade_of_head (b := 66) (by decide) _
    have hsold : isTrade inst (fillLine (lit "SOLD") inc.instrument e.quantity inc.price) = false :=
      isTrade_of_head (b := 83) (by decide) _
    unfold Entry.messages executionMessages Entry.tradeLine
    dsimp only
    rw [List.filterMap_append, List.filterMap_append, hpart _ hbought, hpart _ hsold]
    by_cases hinst : inc.instrument = inst
    · have hone := @filterMap_one k (fillLine (lit "TRADE") inst e.quantity inc.price) true
        _ (subscribers_nodup hw inst) hk
      rw [hinst, if_pos rfl]
      refine Eq.trans ?_ hone
      refine List.filterMap_congr fun m hm => ?_
      obtain ⟨n, -, rfl⟩ := List.mem_map.mp hm
      simp [isTrade_fillLine]
    · rw [if_neg hinst]
      refine List.filterMap_eq_nil_iff.mpr fun m hm => ?_
      obtain ⟨n, -, rfl⟩ := List.mem_map.mp hm
      simp [isTrade_fillLine, hinst]

/-- **A subscriber's tape is the log.**  In every period whose allocations succeed and throughout
which a connection subscribes to an instrument, it is handed exactly one `TRADE` for each
execution the period adds to the log in that instrument, with its quantity and price and in the
order of the log. -/
theorem subscriber_tape {inst : Instrument} {k : Nat} : ∀ (as : List Act) {w : World},
    Reachable w →
    Run.Meets act (fun w _ => (∀ ok ∈ w.heap, ok = true) ∧ k ∈ w.subscribers inst) w as →
    ∃ new, (Run.run act w as).exchange.log = w.exchange.log ++ new ∧
      tradesTo inst k (Run.run act w as).trace
        = tradesTo inst k w.trace ++ new.filterMap (Entry.tradeLine inst)
  | [], w, _, _ => ⟨[], (List.append_nil _).symm, (List.append_nil _).symm⟩
  | a :: as, w, hw, ⟨⟨hheap, hk⟩, hrest⟩ => by
    obtain ⟨new, hlog, -, htold⟩ := act_noticed hw hheap a
    obtain ⟨more, hlog', htrades⟩ := subscriber_tape as
      (hw.steps (Steps.one (P := Any) w a trivial)) hrest
    have hone : tradesTo inst k (act w a).trace
        = tradesTo inst k w.trace ++ new.filterMap (Entry.tradeLine inst) := by
      rw [tradesTo_notices, htold, List.filterMap_append, ← tradesTo_notices,
        List.filterMap_flatMap]
      refine congrArg _ ?_
      rw [List.flatMap_congr fun x _ => trade_of_messages (housed_of_reachable hw) hk x]
      exact (List.filterMap_eq_flatMap_toList _ new).symm
    refine ⟨new ++ more, ?_, ?_⟩
    · rw [Run.run_cons, hlog', hlog, List.append_assoc]
    · rw [Run.run_cons, htrades, hone, List.append_assoc, List.filterMap_append]

theorem subscriber_tape_boughtTwice :
    let w := Run.run act (.init 3 []) market
    let as : List Act :=
      [.client 7 (.command (lit "BUY JNST 4 5")), .client 7 (.command (lit "BUY JNST 3 5"))]
    tradesTo .jnst 1 (Run.run act w as).trace = [lit "TRADE JNST 4 5\n", lit "TRADE JNST 3 5\n"] ∧
      ∃ new, (Run.run act w as).exchange.log = w.exchange.log ++ new ∧
        tradesTo .jnst 1 (Run.run act w as).trace
          = tradesTo .jnst 1 w.trace ++ new.filterMap (Entry.tradeLine .jnst) :=
  ⟨by decide +kernel, subscriber_tape _ ⟨3, [], market, rfl⟩ (by decide +kernel)⟩

end SocketExchange
