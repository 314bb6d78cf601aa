/-
# What a client and the server say to each other

A client sees requests it sent and responses it got, in turn.  `Session.next` is the protocol
between the two as the client sees it: which responses a request can get in a session, and which
session each of them leaves.  It knows one connection and nothing of the others; where the
server's answer depends on them (whether a name is taken, whether there is memory, which id an
order gets, whether an order still rests) more than one response is possible.

`conversation` says that what happens on a connection in a run of the server, between whatever
happens on the others, is a conversation of this protocol: request and response alternate, and
replaying them gives the session the server holds.  For a client that never sends a `LOGIN` the
protocol leaves no choice, so its responses are decided by its own requests (`observer_alone`).
-/
import SocketExchange.Tape
import SocketExchange.Requests

namespace SocketExchange

open CText

/-! ## 1. The protocol -/

namespace Session

/-- The session of a connection that was just accepted. -/
def fresh (serial : Nat) : Session :=
  { serial := serial, type := .none, loggedIn := false, closing := false
    subscribedJNST := false, subscribedIMCT := false, username := [] }

def subscribed (s : Session) : Instrument → Bool
  | .jnst => s.subscribedJNST
  | .imct => s.subscribedIMCT

def setSubscribed (s : Session) (b : Bool) : Instrument → Session
  | .jnst => { s with subscribedJNST := b }
  | .imct => { s with subscribedIMCT := b }

/-- The error with this reason, and nothing changes. -/
def refuse (s : Session) (reason : Bytes) (r : Response) : Option Session :=
  if r = .error reason then some s else none

/-- `OK`, and the session is this one. -/
def grant (s : Session) (r : Response) : Option Session := if r = .ok then some s else none

/-- The name may be another's. -/
def login (username : Bytes) (s : Session) : Response → Option Session :=
  if s.type = .market then s.refuse (lit "Market data clients cannot log in")
  else if s.loggedIn then s.refuse (lit "Already logged in")
  else fun r =>
    if r = .ok then
      some { s with type := .trader, username := username.take (usernameLength - 1)
                    loggedIn := true }
    else s.refuse (lit "Username already in use") r

def subscribe (instrument : Bytes) (s : Session) : Response → Option Session :=
  if s.type = .trader then s.refuse (lit "Traders cannot subscribe to market data")
  else
    match instrumentOf instrument with
    | none => s.refuse (lit "Invalid instrument")
    | some inst =>
      if s.subscribed inst then s.refuse (lit "Already subscribed to " ++ instrumentName inst)
      else grant { s.setSubscribed true inst with type := .market }

def unsubscribe (instrument : Bytes) (s : Session) : Response → Option Session :=
  if s.type = .trader then s.refuse (lit "Traders cannot unsubscribe from market data")
  else
    match instrumentOf instrument with
    | none => s.refuse (lit "Invalid instrument")
    | some inst =>
      if s.subscribed inst then grant (s.setSubscribed false inst)
      else s.refuse (lit "Not subscribed to " ++ instrumentName inst)

/-- The order gets an id, or there is no memory for it. -/
def place (instrument : Bytes) (quantity price : Int) (s : Session) : Response → Option Session :=
  match instrumentOf instrument with
  | none => s.refuse (lit "Invalid instrument")
  | some _ =>
    if quantity ≤ 0 ∨ price ≤ 0 then s.refuse (lit "Quantity and price must be positive")
    else fun
      | .accepted _ => some s
      | r => s.refuse (lit "Internal server error") r

/-- The order of that id rests for the client, or not. -/
def cancel (orderIdStr : Bytes) (s : Session) : Response → Option Session :=
  match orderIdOf orderIdStr with
  | none => s.refuse (lit "Invalid order id")
  | some id => fun r => if r = .cancelled id then some s else s.refuse (lit "No such order") r

def command (c : Scanned) (s : Session) : Response → Option Session :=
  if c.cmd.length > maxCmdLen then s.refuse (lit "Unknown command")
  else if c.cmd = lit "LOGIN" ∧ c.matched = 2 then
    if c.arg.length > usernameLength - 1 then s.refuse (lit "Username too long")
    else s.login c.arg
  else if c.cmd = lit "SUBSCRIBE" ∧ c.matched = 2 then s.subscribe c.arg
  else if c.cmd = lit "QUIT" ∧ c.matched = 1 then grant { s with closing := true }
  else if c.cmd = lit "UNSUBSCRIBE" ∧ c.matched = 2 then s.unsubscribe c.arg
  else if s.loggedIn = false then s.refuse (lit "Not logged in")
  else if (c.cmd = lit "BUY" ∨ c.cmd = lit "SELL") ∧ c.matched = 4 then
    s.place c.arg c.quantity c.price
  else if c.cmd = lit "CANCEL" ∧ c.matched = 2 then s.cancel c.arg
  else s.refuse (lit "Unknown command")

/-- **The protocol**: the session a request and its response lead to, if the response is one the
request can get. -/
def next (s : Session) : Action → Response → Option Session
  | .tooLong => s.refuse (lit "Message too long")
  | .line text => s.command (scanLine (cstr text))

/-- A conversation, replayed. -/
def replay (s : Session) : List (Action × Response) → Option Session
  | [] => some s
  | x :: xs => (s.next x.1 x.2).bind fun s' => s'.replay xs

theorem replay_append (xs ys : List (Action × Response)) : ∀ s : Session,
    s.replay (xs ++ ys) = (s.replay xs).bind fun s' => s'.replay ys := by
  induction xs with
  | nil => exact fun _ => rfl
  | cons x xs ih =>
    intro s
    rw [List.cons_append, replay, replay]
    cases s.next x.1 x.2 with
    | none => rfl
    | some s' => exact ih s'

@[simp] theorem refuse_self (s : Session) (reason : Bytes) :
    s.refuse reason (.error reason) = some s := if_pos rfl

@[simp] theorem grant_ok (s : Session) : s.grant .ok = some s := if_pos rfl

end Session

theorem session_setSubscribed (c : ClientConnection) (b : Bool) (inst : Instrument) :
    (c.setSubscribed b inst).session = c.session.setSubscribed b inst := by
  cases inst <;> rfl

theorem session_subscribed (c : ClientConnection) (inst : Instrument) :
    c.session.subscribed inst = c.subscribed inst := by
  cases inst <;> rfl

/-! ## 2. What is said -/

/-- One side speaks: a request that is answered, or a response. -/
def Obs.said (k : Nat) : Obs → Option (Action ⊕ Bytes)
  | .line k' text =>
    if k' = k ∧ (cstr text).all isSpace = false then some (.inl (.line text)) else none
  | .tooLong k' => if k' = k then some (.inl .tooLong) else none
  | .handed h => if h.receiver = k ∧ isReport h.msg = false then some (.inr h.msg) else none
  | _ => none

/-- What was said on a connection: its requests, less the lines of white space, and what it was
handed, less the reports of executions. -/
def said (k : Nat) (trace : List Obs) : List (Action ⊕ Bytes) := trace.filterMap (Obs.said k)

@[simp] theorem said_append (k : Nat) (l m : List Obs) : said k (l ++ m) = said k l ++ said k m :=
  List.filterMap_append

/-- Requests and responses in turn. -/
def spoken (xs : List (Action × Response)) : List (Action ⊕ Bytes) :=
  xs.flatMap fun x => [.inl x.1, .inr x.2.text]

theorem spoken_append (xs ys : List (Action × Response)) :
    spoken (xs ++ ys) = spoken xs ++ spoken ys := List.flatMap_append

theorem isReport_response {msg : Bytes} {b : Byte} (hmsg : msg.head? = some b)
    (hb : b = 79 ∨ b = 69) : isReport msg = false := by
  unfold isReport
  rw [hmsg]
  rcases hb with rfl | rfl <;> decide

theorem isReport_text (r : Response) : isReport r.text = false :=
  (head_of_response r).elim (fun h => isReport_response h (.inl rfl)) fun h =>
    isReport_response h (.inr rfl)

theorem said_response {k : Nat} {h : Handed} {r : Response} (hmsg : h.msg = r.text) :
    said k [.handed h] = if h.receiver = k then [.inr r.text] else [] := by
  by_cases hk : h.receiver = k
  · simp [said, Obs.said, hk, hmsg, isReport_text]
  · simp [said, Obs.said, hk]

/-- Reports are not part of the conversation. -/
theorem said_reports {k : Nat} {hs : List Handed} (h : ∀ x ∈ hs, isReport x.msg = true) :
    said k (hs.map Obs.handed) = [] := by
  refine List.filterMap_eq_nil_iff.mpr fun o ho => ?_
  obtain ⟨x, hx, rfl⟩ := List.mem_map.mp ho
  simp [Obs.said, h x hx]

theorem isReport_delivery {w : World} {fills : List Fill} {d : Delivery}
    (hd : d ∈ deliveries w fills) : isReport d.msg = true := by
  obtain ⟨fill, -, ⟨-, hm⟩ | ⟨-, hm⟩ | ⟨-, hm, -⟩⟩ := deliveries_kind hd <;> rw [hm] <;> rfl

theorem serial_modify (self : Nat) (w : World) {f : ClientConnection → ClientConnection}
    (hf : ∀ c, (f c).serial = c.serial) :
    ((w.modify self f).conn self).serial = (w.conn self).serial := by
  unfold World.conn
  rw [slot_modify_self]
  cases w.slot self with
  | none => rfl
  | some c => exact hf c

/-- A reply that is a response. -/
theorem reply_said {self : Nat} {v : World} {msg : Bytes} {r : Response} (hmsg : msg = r.text)
    (k : Nat) : said k (reply self msg v).1.trace
      = said k v.trace ++ if (v.conn self).serial = k then [.inr r.text] else [] := by
  have ht : (reply self msg v).1.trace = v.trace ++ [.handed (handedOf
    { self := self, about := none } self msg v)] := sendLine_trace _ _ _ _
  rw [ht, said_append]
  exact congrArg _ (said_response hmsg)

/-- **An answer is one response, to its sender.** -/
theorem Answer.says {self : Nat} {w w' : World} {r : Response} (h : Answer self w r w')
    (hnext : -2 ^ 31 ≤ w.exchange.nextOrderId ∧ w.exchange.nextOrderId < 2 ^ 31) (k : Nat) :
    said k w'.trace = said k w.trace ++ if (w.conn self).serial = k then [.inr r.text] else [] := by
  have hok : ∀ f : ClientConnection → ClientConnection, (∀ c, (f c).serial = c.serial) →
      said k (reply self (lit "OK\n") (w.modify self f)).1.trace
        = said k w.trace ++
            if (w.conn self).serial = k then [.inr (Response.text .ok)] else [] := by
    intro f hf
    rw [← serial_modify self w hf]
    exact reply_said (r := .ok) rfl k
  cases h with
  | error heap h => exact reply_said (v := { w with heap := heap }) (errorText_eq h) k
  | loggedIn hlen hrole hout hfree => exact hok _ fun _ => rfl
  | subscribed inst hrole => exact hok _ fun _ => by cases inst <;> rfl
  | unsubscribed inst hrole hsub => exact hok _ fun _ => by cases inst <;> rfl
  | quit => exact hok (fun c => { c with closing := true }) fun _ => rfl
  | @accepted heap side inst quantity price hq hp hin ord hord =>
    obtain ⟨hs, htrace, hwhat⟩ := acceptOrder_trace ord self { w with heap := heap }
    have hid : ord.id = w.exchange.nextOrderId := by
      rw [hord]
      rfl
    cases hs with
    | nil => cases hwhat
    | cons first rest =>
      rw [List.map_cons, List.map_cons, List.cons.injEq] at hwhat
      obtain ⟨hfirst, hrest⟩ := hwhat
      simp only [Handed.what, Prod.mk.injEq] at hfirst
      have hmsg : first.msg = Response.text (.accepted ord.id) := by
        rw [hfirst.2.2.2, acceptedText_eq (hid ▸ hnext)]
        rfl
      have hreps : ∀ x ∈ rest, isReport x.msg = true := by
        intro x hx
        have hmem : x.what ∈ rest.map Handed.what := List.mem_map_of_mem hx
        rw [hrest] at hmem
        obtain ⟨d, hd, hdx⟩ := List.mem_map.mp hmem
        simp only [Handed.what, Prod.mk.injEq] at hdx
        rw [← hdx.2.2.2]
        exact isReport_delivery hd
      have hrec : first.receiver = (w.conn self).serial := hfirst.2.1
      rw [htrace, said_append, ← hrec, ← said_response hmsg, List.map_cons,
        ← List.singleton_append, said_append, said_reports hreps, List.append_nil]
  | @cancelled id r hin hid h =>
    have hquiet : said k ({ w with exchange := r.2 }.note
        (.cancelled (w.conn self).serial r.1)).trace = said k w.trace :=
      (said_append k w.trace _).trans (List.append_nil _)
    have hreply := @reply_said self ({ w with exchange := r.2 }.note
      (.cancelled (w.conn self).serial r.1)) _ _ (cancelledText_eq ⟨by omega, hid.2⟩) k
    rw [hquiet] at hreply
    exact hreply

/-! ## 3. The server keeps to the protocol -/

/-- What is done to `w` is an answer that the protocol has, with the session it leaves. -/
def Conforms (self : Nat) (w : World) (next : Response → Option Session) (w' : World) : Prop :=
  ∃ r s', Answer self w r w' ∧ next r = some s' ∧ ∃ c', w'.slot self = some c' ∧ c'.session = s'

section Commands

variable {self : Nat} {w : World} {c : ClientConnection} (hc : w.slot self = some c)

include hc

theorem replyError_conforms (heap : List Bool) {reason : Bytes} (h : reason ∈ reasons)
    {next : Response → Option Session} (hnext : next (.error reason) = some c.session) :
    Conforms self w next (replyError self reason { w with heap := heap }).1 := by
  obtain ⟨c', hc', hbare⟩ := slot_reply (v := { w with heap := heap }) hc
    (snprintf 64 (lit "ERROR " ++ reason ++ lit "\n"))
  exact ⟨_, _, .error heap h, hnext, c', hc', session_of_bare hbare⟩

theorem refuse_conforms {reason : Bytes} (h : reason ∈ reasons) :
    Conforms self w (c.session.refuse reason) (replyError self reason w).1 :=
  replyError_conforms hc w.heap h (c.session.refuse_self reason)

theorem ok_conforms {f : ClientConnection → ClientConnection}
    (ha : Answer self w .ok (reply self (lit "OK\n") (w.modify self f)).1)
    {next : Response → Option Session} (hnext : next .ok = some (f c).session) :
    Conforms self w next (reply self (lit "OK\n") (w.modify self f)).1 := by
  obtain ⟨c', hc', hbare⟩ := slot_reply (modify_slot self hc f) (lit "OK\n")
  exact ⟨_, _, ha, hnext, c', hc', session_of_bare hbare⟩

theorem loginUser_conforms {username : Bytes} (h : username.length ≤ usernameLength - 1) :
    Conforms self w (c.session.login username) (loginUser username self w).1 := by
  unfold loginUser Session.login
  rw [conn_of_slot hc]
  by_cases hrole : c.type = .market
  · rw [if_pos hrole, if_pos (show c.session.type = .market from hrole)]
    exact refuse_conforms hc (by simp [reasons])
  rw [if_neg hrole, if_neg (show ¬ c.session.type = .market from hrole)]
  by_cases hin : c.loggedIn = true
  · rw [if_pos hin, if_pos (show c.session.loggedIn = true from hin)]
    exact refuse_conforms hc (by simp [reasons])
  rw [if_neg hin, if_neg (show ¬ c.session.loggedIn = true from hin)]
  split
  · exact replyError_conforms hc w.heap (by simp [reasons]) (by simp)
  · rename_i hfree
    refine ok_conforms hc (.loggedIn h ?_ ?_ (by simpa using hfree)) (if_pos rfl)
    · rw [conn_of_slot hc]
      exact hrole
    · rw [conn_of_slot hc]
      simpa using hin

theorem subscribeClient_conforms (instrument : Bytes) :
    Conforms self w (c.session.subscribe instrument) (subscribeClient instrument self w).1 := by
  unfold subscribeClient Session.subscribe
  rw [conn_of_slot hc]
  by_cases hrole : c.type = .trader
  · rw [if_pos hrole, if_pos (show c.session.type = .trader from hrole)]
    exact refuse_conforms hc (by simp [reasons])
  rw [if_neg hrole, if_neg (show ¬ c.session.type = .trader from hrole)]
  cases instrumentOf instrument with
  | none => exact refuse_conforms hc (by simp [reasons])
  | some inst =>
    dsimp only
    rw [session_subscribed]
    split
    · exact refuse_conforms hc (by cases inst <;> decide +kernel)
    · refine ok_conforms hc (.subscribed inst (by rw [conn_of_slot hc]; exact hrole)) ?_
      rw [← session_setSubscribed, Session.grant_ok]
      rfl

theorem unsubscribeClient_conforms (instrument : Bytes) :
    Conforms self w (c.session.unsubscribe instrument) (unsubscribeClient instrument self w).1 := by
  unfold unsubscribeClient Session.unsubscribe
  rw [conn_of_slot hc]
  by_cases hrole : c.type = .trader
  · rw [if_pos hrole, if_pos (show c.session.type = .trader from hrole)]
    exact refuse_conforms hc (by simp [reasons])
  rw [if_neg hrole, if_neg (show ¬ c.session.type = .trader from hrole)]
  cases instrumentOf instrument with
  | none => exact refuse_conforms hc (by simp [reasons])
  | some inst =>
    dsimp only
    rw [session_subscribed]
    split
    · rename_i hsub
      refine ok_conforms hc (.unsubscribed inst ?_ ?_) ?_
      · rw [conn_of_slot hc]
        exact hrole
      · rw [conn_of_slot hc]
        exact hsub
      · rw [session_setSubscribed, Session.grant_ok]
    · exact refuse_conforms hc (by cases inst <;> decide +kernel)

theorem placeOrder_conforms (side : OrderSide) (instrument : Bytes) {quantity price : Int}
    (hq : quantity < 2 ^ 31) (hp : price < 2 ^ 31) (hin : (w.conn self).loggedIn = true) :
    Conforms self w (c.session.place instrument quantity price)
      (placeOrder side instrument quantity price self w).1 := by
  unfold placeOrder Session.place
  cases instrumentOf instrument with
  | none => exact refuse_conforms hc (by simp [reasons])
  | some inst =>
    dsimp only
    by_cases hneg : quantity ≤ 0 ∨ price ≤ 0
    · rw [if_pos hneg]
      simp only [if_pos hneg]
      exact refuse_conforms hc (by simp [reasons])
    · rw [if_neg hneg]
      simp only [if_neg hneg]
      split
      · exact replyError_conforms hc _ (by simp [reasons]) (by simp)
      · have ha := @Answer.accepted self w (alloc w.heap).2 side inst quantity price (by omega)
          (by omega) hin _ rfl
        have hroster : (acceptOrder (w.exchange.newOrder side inst quantity price
            (w.conn self).clientFd (w.conn self).serial) self
              { w with heap := (alloc w.heap).2 }).1.roster = w.roster := acceptOrder_roster _ _ _
        obtain ⟨c', hc', hbare⟩ := slot_of_view (v := .bare) hroster hc
        exact ⟨_, _, ha, rfl, c', hc', session_of_bare hbare⟩

theorem cancelUserOrder_conforms (orderIdStr : Bytes) (hin : (w.conn self).loggedIn = true) :
    Conforms self w (c.session.cancel orderIdStr) (cancelUserOrder orderIdStr self w).1 := by
  unfold cancelUserOrder Session.cancel
  cases hid : orderIdOf orderIdStr with
  | none => exact refuse_conforms hc (by simp [reasons])
  | some id =>
    dsimp only
    cases hr : w.exchange.cancel id (w.conn self).clientFd with
    | none => exact replyError_conforms hc w.heap (by simp [reasons]) (by simp)
    | some r =>
      obtain ⟨c', hc', hbare⟩ := slot_reply (v := { w with exchange := r.2 }.note
        (.cancelled (w.conn self).serial r.1)) hc (cancelledText id)
      exact ⟨_, _, .cancelled hin (orderIdOf_range hid) hr, if_pos rfl, c', hc',
        session_of_bare hbare⟩

theorem quitUser_conforms :
    Conforms self w (Session.grant { c.session with closing := true }) (quitUser self w).1 :=
  ok_conforms hc (f := fun c => { c with closing := true }) .quit (if_pos rfl)

/-- **A scanned line is answered as the protocol says.** -/
theorem dispatchCommand_conforms {s : Scanned} (hr : s.quantity < 2 ^ 31 ∧ s.price < 2 ^ 31) :
    Conforms self w (c.session.command s) (dispatchCommand s self w).1 := by
  unfold dispatchCommand Session.command
  split
  · exact refuse_conforms hc (by simp [reasons])
  split
  · split
    · exact refuse_conforms hc (by simp [reasons])
    · rename_i hlen
      exact loginUser_conforms hc (not_lt.mp hlen)
  split
  · exact subscribeClient_conforms hc _
  split
  · exact quitUser_conforms hc
  split
  · exact unsubscribeClient_conforms hc _
  rw [conn_of_slot hc]
  by_cases hin : c.loggedIn = false
  · rw [if_pos hin, if_pos (show c.session.loggedIn = false from hin)]
    exact refuse_conforms hc (by simp [reasons])
  rw [if_neg hin, if_neg (show ¬ c.session.loggedIn = false from hin)]
  have hin' : (w.conn self).loggedIn = true := by
    rw [conn_of_slot hc]
    simpa using hin
  by_cases hbuy : s.cmd = lit "BUY" ∧ s.matched = 4
  · rw [if_pos hbuy, if_pos ⟨.inl hbuy.1, hbuy.2⟩]
    exact placeOrder_conforms hc _ _ hr.1 hr.2 hin'
  rw [if_neg hbuy]
  by_cases hsell : s.cmd = lit "SELL" ∧ s.matched = 4
  · rw [if_pos hsell, if_pos ⟨.inr hsell.1, hsell.2⟩]
    exact placeOrder_conforms hc _ _ hr.1 hr.2 hin'
  rw [if_neg hsell, if_neg fun h => h.1.elim (fun h' => hbuy ⟨h', h.2⟩) fun h' => hsell ⟨h', h.2⟩]
  split
  · exact cancelUserOrder_conforms hc _ hin'
  · exact refuse_conforms hc (by simp [reasons])

end Commands

/-! ## 4. Runs -/

/-- What the connection `k` and the server have said, with the session it has come to. -/
structure Conversed (k : Nat) (w : World) (xs : List (Action × Response)) (s : Session) : Prop where
  spoken : said k w.trace = spoken xs
  replayed : (Session.fresh k).replay xs = some s
  /-- the server's session is that one -/
  held : ∀ fd c, w.slot fd = some c → c.serial = k → c.session = s
  /-- nothing was said before the connection was accepted -/
  silent : w.accepts ≤ k → xs = []

/-- A step that says nothing on the connection and leaves its session. -/
theorem Conversed.quiet {k : Nat} {w w' : World} {xs : List (Action × Response)} {s : Session}
    (h : Conversed k w xs s) (hsaid : said k w'.trace = said k w.trace)
    (hacc : w.accepts ≤ w'.accepts)
    (hslots : ∀ fd c', w'.slot fd = some c' → c'.serial = k →
      ∃ c, w.slot fd = some c ∧ c'.session = c.session) : Conversed k w' xs s := by
  refine ⟨hsaid.trans h.spoken, h.replayed, fun fd c' hc' hk => ?_,
    fun hle => h.silent (hacc.trans hle)⟩
  obtain ⟨c, hc, hs⟩ := hslots fd c' hc' hk
  have hser : c'.serial = c.serial := (fields_of_session hs).1
  exact hs.trans (h.held fd c hc (hser.symm.trans hk))

/-- A removal says nothing. -/
theorem said_removeIfDone (fd : Nat) (s : World × Bool) (k : Nat) :
    said k (removeIfDone fd s).trace = said k s.1.trace := by
  obtain ⟨new, htrace, hnew⟩ := removeIfDone_notes fd s
  have hnone : said k new = [] := List.filterMap_eq_nil_iff.mpr fun o ho => by
    obtain ⟨-, c, -, rfl⟩ := hnew o ho
    rfl
  rw [htrace, said_append, hnone, List.append_nil]

theorem Conversed.removeIfDone {k : Nat} {v : World × Bool} {xs : List (Action × Response)}
    {s : Session} (h : Conversed k v.1 xs s) (fd : Nat) :
    Conversed k (removeIfDone fd v) xs s := by
  refine h.quiet (said_removeIfDone fd v k) ?_ fun n c' hc' _ => ⟨c', slot_of_removeIfDone hc', rfl⟩
  unfold SocketExchange.removeIfDone
  split
  · rw [removeClient_accepts]
  · exact le_refl _

/-- **A request that is answered as the protocol says** extends the conversation of its sender
by the two, and nobody else's. -/
theorem conversed_request {w : World} (hw : Housed w) {fd : Nat} {c : ClientConnection}
    (hc : w.slot fd = some c) {o : Obs} {request : Action}
    (ho : ∀ k, said k [o] = if c.serial = k then [.inl request] else []) {w' : World}
    (hconf : Conforms fd (w.note o) (c.session.next request) w')
    (hnext : -2 ^ 31 ≤ w.exchange.nextOrderId ∧ w.exchange.nextOrderId < 2 ^ 31)
    (hothers : ∀ n d, n ≠ fd → w'.slot n = some d →
      ∃ e, w.slot n = some e ∧ d.session = e.session)
    (hserial : ∀ c', w'.slot fd = some c' → c'.serial = c.serial) (hacc : w'.accepts = w.accepts)
    {k : Nat} {xs : List (Action × Response)} {s : Session} (h : Conversed k w xs s) :
    ∃ xs s, Conversed k w' xs s := by
  obtain ⟨r, s', ha, hs', c', hc', hheld⟩ := hconf
  have hsaid := ha.says hnext k
  rw [trace_note, said_append, ho, conn_note, conn_of_slot hc] at hsaid
  by_cases hk : c.serial = k
  · rw [if_pos hk, if_pos hk] at hsaid
    refine ⟨xs ++ [(request, r)], s', ?_, ?_, fun n d hd hdk => ?_, fun hle => ?_⟩
    · rw [hsaid, h.spoken, spoken_append, List.append_assoc]
      rfl
    · rw [Session.replay_append, h.replayed, Option.bind_some, Session.replay,
        ← h.held fd c hc hk, hs']
      rfl
    · by_cases hn : n = fd
      · rw [hn, hc', Option.some.injEq] at hd
        exact hd ▸ hheld
      · obtain ⟨e, he, hses⟩ := hothers n d hn hd
        have hek : e.serial = c.serial := ((fields_of_session hses).1.symm.trans hdk).trans hk.symm
        have hbe := badge_of_slot he
        rw [hek] at hbe
        exact absurd (hw.distinct n fd _ _ _ hbe (badge_of_slot hc)) hn
    · have := hw.known fd _ _ (badge_of_slot hc)
      omega
  · rw [if_neg hk, if_neg hk, List.append_nil, List.append_nil] at hsaid
    refine ⟨xs, s, h.quiet hsaid hacc.ge fun n d hd hdk => ?_⟩
    by_cases hn : n = fd
    · rw [hn] at hd
      exact absurd ((hserial d hd).symm.trans hdk) hk
    · exact hothers n d hn hd

/-- An act that is neither a line nor too long a one says nothing. -/
theorem act_silent {w : World} (hw : Housed w) {a : Act}
    (hline : ∀ fd text, a ≠ .client fd (.command text)) (hlong : ∀ fd, a ≠ .client fd .overlong)
    (k : Nat) : said k (act w a).trace = said k w.trace := by
  have hnote : ∀ {v : World} {o : Obs}, v.trace = w.trace ++ [o] → Obs.said k o = none →
      said k v.trace = said k w.trace := by
    intro v o hv ho
    rw [hv, said_append]
    exact (congrArg _ (List.filterMap_cons_none ho)).trans (List.append_nil _)
  cases a with
  | supply sock heap => rfl
  | accept fd grown calloced armed =>
    rw [act]
    split
    · rfl
    · rename_i hopen
      have hcases := acceptClient_cases hw.table hopen (hw.slot_none hopen) grown calloced armed
      split at hcases
      · exact hnote hcases.trace rfl
      · rw [hcases.trace]
  | client fd a =>
    rw [act]
    split
    · rfl
    · rename_i c hc
      cases a with
      | applied => exact hnote rfl rfl
      | received got => exact hnote rfl rfl
      | buffered f => rfl
      | command line => exact absurd rfl (hline fd line)
      | overlong => exact absurd rfl (hlong fd)
      | flush => exact (said_removeIfDone fd (flushClient fd w) k).trans (hnote rfl rfl)
      | drop => exact hnote (removeClient_trace hc) rfl

/-- The request of a line or an over-long line is the first thing said behind it. -/
theorem said_request {c : ClientConnection} {o : Obs} {request : Action}
    (ho : Obs.said c.serial o = some (.inl request))
    (hne : ∀ k, c.serial ≠ k → Obs.said k o = none) (k : Nat) :
    said k [o] = if c.serial = k then [.inl request] else [] := by
  split
  · rename_i hk
    rw [← hk]
    exact List.filterMap_cons_some ho
  · rename_i hk
    exact List.filterMap_cons_none (hne k hk)

/-- **A line continues the conversation of its sender**, unless it is white space. -/
theorem conversed_processLine {w : World} (hw : Reachable w) {fd : Nat} {c : ClientConnection}
    (hc : w.slot fd = some c) (line : Bytes) {k : Nat} {xs : List (Action × Response)}
    {s : Session} (h : Conversed k w xs s) :
    ∃ xs s, Conversed k (processLine line fd w).1 xs s := by
  by_cases hblank : ∀ b ∈ cstr line, isSpace b = true
  · rw [processLine_blank hblank]
    refine ⟨xs, s, h.quiet ?_ (le_refl _) fun n c' hc' _ => ⟨c', hc', rfl⟩⟩
    have hall : (cstr line).all isSpace = true := List.all_eq_true.mpr hblank
    simp [said, Obs.said, hall]
  have hkept := processLine_kept line fd w
  have hothers := fun n (hn : n ≠ fd) => (processLine_handling fd w line).others hn
  have hmatched : ¬ (scanLine (cstr line)).matched < 1 := fun h => hblank (scanLine_matched.mp h)
  have hdispatch : processLine line fd w
      = dispatchCommand (scanLine (cstr line)) fd (w.note (.line c.serial line)) := by
    unfold processLine
    dsimp only
    rw [if_neg hmatched, conn_of_slot hc]
  have hnotall : (cstr line).all isSpace = false := by simpa using hblank
  have hconf : Conforms fd (w.note (.line c.serial line)) (c.session.next (.line line))
      (processLine line fd w).1 := by
    rw [hdispatch]
    exact dispatchCommand_conforms (w := w.note (.line c.serial line)) hc (scanLine_range _)
  refine conversed_request (housed_of_reachable hw) hc (said_request ?_ ?_) hconf
    (inInts_of_reachable hw).nextId ?_ ?_ hkept.accepts h
  · rw [Obs.said, if_pos ⟨rfl, hnotall⟩]
  · exact fun k hk => if_neg fun hboth => hk hboth.1
  · intro n d hn hd
    obtain ⟨e, he, hbare⟩ := slot_of_bare (hothers n hn) hd
    exact ⟨e, he, session_of_bare hbare⟩
  · intro c' hc'
    obtain ⟨d, hd, hfixed⟩ := processLine_slot fd hc line
    rw [hd, Option.some.injEq] at hc'
    have hser : d.fixed.serial = c.fixed.serial := congrArg _ hfixed
    exact hc' ▸ hser

/-- **So does a line that is too long.** -/
theorem conversed_rejectLine {w : World} (hw : Reachable w) {fd : Nat} {c : ClientConnection}
    (hc : w.slot fd = some c) {k : Nat} {xs : List (Action × Response)} {s : Session}
    (h : Conversed k w xs s) : ∃ xs s, Conversed k (rejectLine fd w).1 xs s := by
  have hroster : (rejectLine fd w).1.roster = w.roster := reply_roster _ _ _
  have hslot : ∀ n d, (rejectLine fd w).1.slot n = some d →
      ∃ e, w.slot n = some e ∧ d.session = e.session := by
    intro n d hd
    obtain ⟨e, he, hbare⟩ := slot_of_view (v := .bare) hroster.symm hd
    exact ⟨e, he, session_of_bare hbare.symm⟩
  have hconf : Conforms fd (w.note (.tooLong c.serial)) (c.session.next .tooLong)
      (rejectLine fd w).1 := by
    unfold rejectLine
    rw [conn_of_slot hc]
    exact refuse_conforms (w := w.note (.tooLong c.serial)) hc (by simp [reasons])
  refine conversed_request (housed_of_reachable hw) hc (said_request ?_ ?_) hconf
    (inInts_of_reachable hw).nextId (fun n d _ hd => hslot n d hd) ?_ rfl h
  · rw [Obs.said, if_pos rfl]
  · exact fun k hk => if_neg hk
  · intro c' hc'
    obtain ⟨e, he, hs⟩ := hslot fd c' hc'
    rw [hc, Option.some.injEq] at he
    exact he ▸ (fields_of_session hs).1

/-- **An act continues the conversation.** -/
theorem conversed_act {w : World} (hw : Reachable w) (a : Act) {k : Nat}
    {xs : List (Action × Response)} {s : Session} (h : Conversed k w xs s) :
    ∃ xs s, Conversed k (act w a) xs s := by
  have hhoused := housed_of_reachable hw
  by_cases hline : ∃ fd line, a = .client fd (.command line)
  · obtain ⟨fd, line, rfl⟩ := hline
    cases hc : w.slot fd with
    | none =>
      simp only [act, hc]
      exact ⟨xs, s, h⟩
    | some c =>
      simp only [act, hc, serve]
      obtain ⟨xs', s', h'⟩ := conversed_processLine hw hc line h
      exact ⟨xs', s', h'.removeIfDone fd⟩
  by_cases hlong : ∃ fd, a = .client fd .overlong
  · obtain ⟨fd, rfl⟩ := hlong
    cases hc : w.slot fd with
    | none =>
      simp only [act, hc]
      exact ⟨xs, s, h⟩
    | some c =>
      simp only [act, hc, serve]
      obtain ⟨xs', s', h'⟩ := conversed_rejectLine hw hc h
      exact ⟨xs', s', h'.removeIfDone fd⟩
  push Not at hline hlong
  have hsaid := act_silent hhoused hline hlong k
  have hout := outcome_act hhoused hline
  refine ⟨xs, s, ?_⟩
  generalize act w a = w' at hsaid hout
  cases hout with
  | settled hs => exact h.quiet hsaid hs.accepts.ge fun n c' hc' _ => hs.sessions n c' hc'
  | @left v fd c hs hc =>
    refine h.quiet hsaid ?_ fun n c' hc' _ => hs.sessions n c' (slot_of_removed hc')
    rw [removeClient_accepts]
    exact hs.accepts.ge
  | @came w' fd hr =>
    refine ⟨hsaid.trans h.spoken, h.replayed, fun n c' hc' hk => ?_, fun hle => ?_⟩
    · rw [hr.slot] at hc'
      split at hc'
      · -- the connection is the new one: nothing was said on it
        rw [Option.some.injEq] at hc'
        subst hc'
        have hxs := h.silent (show w.accepts ≤ k from hk.le)
        have hs := h.replayed
        rw [hxs, Session.replay, Option.some.injEq] at hs
        rw [← hs, ← show w.accepts = k from hk]
        rfl
      · exact h.held n c' hc' hk
    · exact h.silent (by rw [hr.accepts] at hle; omega)

theorem conversed_init (serverFd : Nat) (others : List Nat) (k : Nat) :
    Conversed k (.init serverFd others) [] (Session.fresh k) := by
  refine ⟨rfl, rfl, fun fd c hc => ?_, fun _ => rfl⟩
  rw [init_slot] at hc
  cases hc

theorem conversed_of_reachable {w : World} (hw : Reachable w) (k : Nat) :
    ∃ xs s, Conversed k w xs s := by
  have h := hw.invariant (I := fun w => Reachable w ∧ ∃ xs s, Conversed k w xs s)
    (fun serverFd others => ⟨⟨serverFd, others, [], rfl⟩, [], _, conversed_init serverFd others k⟩)
    fun w a ⟨hr, xs, s, h⟩ =>
      ⟨hr.steps (Steps.one (P := Any) w a trivial), conversed_act hr a h⟩
  exact h.2

/-- **What happens on a connection is a conversation of the protocol**, whatever happens on the
others, and the server holds the session it leads to. -/
theorem conversation {w : World} (hw : Reachable w) (k : Nat) : ∃ xs s,
    said k w.trace = spoken xs ∧ (Session.fresh k).replay xs = some s ∧
      ∀ fd c, w.slot fd = some c → c.serial = k → c.session = s := by
  obtain ⟨xs, s, h⟩ := conversed_of_reachable hw k
  exact ⟨xs, s, h.spoken, h.replayed, h.held⟩

/-- A market-data client between traders. -/
def watchingTraders : List Act :=
  market ++ [.client 7 (.command (lit "BUY JNST 4 5")), .client 6 (.command (lit "BUY JNST 1 1")),
    .client 6 (.command (lit "QUIT"))]

theorem conversation_watchingTraders :
    let w := Run.run act (.init 3 []) watchingTraders
    (said 1 w.trace).length = 6 ∧ ∃ xs s,
      said 1 w.trace = spoken xs ∧ (Session.fresh 1).replay xs = some s ∧
        ∀ fd c, w.slot fd = some c → c.serial = 1 → c.session = s :=
  ⟨by decide +kernel, conversation ⟨3, [], watchingTraders, rfl⟩ 1⟩

/-! ## 5. A client that does not log in -/

/-- The line is handled as a `LOGIN`. -/
def Action.isLogin : Action → Bool
  | .tooLong => false
  | .line text =>
    decide ((scanLine (cstr text)).cmd = lit "LOGIN" ∧ (scanLine (cstr text)).matched = 2)

/-- The requests on a connection. -/
def saidByClient (k : Nat) (trace : List Obs) : List Action := (said k trace).filterMap Sum.getLeft?

/-- The responses on a connection, as they were handed to `sendLine`. -/
def saidByServer (k : Nat) (trace : List Obs) : List Bytes := (said k trace).filterMap Sum.getRight?

theorem saidByClient_spoken (xs : List (Action × Response)) :
    (spoken xs).filterMap Sum.getLeft? = xs.map Prod.fst := by
  induction xs with
  | nil => rfl
  | cons x xs ih => exact congrArg (x.1 :: ·) ih

theorem saidByServer_spoken (xs : List (Action × Response)) :
    (spoken xs).filterMap Sum.getRight? = xs.map fun x => x.2.text := by
  induction xs with
  | nil => rfl
  | cons x xs ih => exact congrArg (x.2.text :: ·) ih

namespace Session

/-- The same session of a connection with another number. -/
def renumber (k : Nat) (s : Session) : Session := { s with serial := k }

/-- One response is possible; the number of the connection does not matter for it. -/
def Forced (s : Session) (next : Session → Response → Option Session) : Prop :=
  ∃ (r : Response) (s' : Session), s'.loggedIn = false ∧
    ∀ k r', next (s.renumber k) r' = if r' = r then some (s'.renumber k) else none

variable {s : Session}

theorem forced_grant {f : Session → Session} (hf : ∀ k, f (s.renumber k) = (f s).renumber k)
    (hstays : (f s).loggedIn = false) : s.Forced fun s => (f s).grant :=
  ⟨.ok, f s, hstays, fun k r => congrArg (fun t : Session => t.grant r) (hf k)⟩

variable (hout : s.loggedIn = false)

include hout

theorem forced_refuse (reason : Bytes) : s.Forced fun s => s.refuse reason :=
  ⟨.error reason, s, hout, fun _ _ => rfl⟩

theorem forced_subscribe (instrument : Bytes) : s.Forced (subscribe instrument) := by
  by_cases hrole : s.type = .trader
  · have h : ∀ k, subscribe instrument (s.renumber k) = _ := fun k => if_pos hrole
    simpa only [Forced, h] using forced_refuse hout _
  have h : ∀ k, subscribe instrument (s.renumber k) = _ := fun k => if_neg hrole
  simp only [Forced, h]
  cases instrumentOf instrument with
  | none => exact forced_refuse hout _
  | some inst =>
    have hsub : ∀ k, (s.renumber k).subscribed inst = s.subscribed inst := by
      intro k
      cases inst <;> rfl
    dsimp only
    simp only [hsub]
    split
    · exact forced_refuse hout _
    · exact forced_grant (f := fun s => { s.setSubscribed true inst with type := .market })
        (fun k => by cases inst <;> rfl) (by cases inst <;> exact hout)

theorem forced_unsubscribe (instrument : Bytes) : s.Forced (unsubscribe instrument) := by
  by_cases hrole : s.type = .trader
  · have h : ∀ k, unsubscribe instrument (s.renumber k) = _ := fun k => if_pos hrole
    simpa only [Forced, h] using forced_refuse hout _
  have h : ∀ k, unsubscribe instrument (s.renumber k) = _ := fun k => if_neg hrole
  simp only [Forced, h]
  cases instrumentOf instrument with
  | none => exact forced_refuse hout _
  | some inst =>
    have hsub : ∀ k, (s.renumber k).subscribed inst = s.subscribed inst := by
      intro k
      cases inst <;> rfl
    dsimp only
    simp only [hsub]
    split
    · exact forced_grant (f := fun s => s.setSubscribed false inst)
        (fun k => by cases inst <;> rfl) (by cases inst <;> exact hout)
    · exact forced_refuse hout _

/-- **Outside a login there is no choice**: everything else that the answer could depend on is
behind the check for a user name. -/
theorem forced_next {request : Action} (hrequest : request.isLogin = false) :
    s.Forced fun s => s.next request := by
  cases request with
  | tooLong => exact forced_refuse hout _
  | line text =>
    simp only [next, command]
    have hlogin := of_decide_eq_false hrequest
    generalize scanLine (cstr text) = c at hlogin
    simp only [if_neg hlogin]
    split
    · exact forced_refuse hout _
    split
    · exact forced_subscribe hout _
    split
    · exact forced_grant (f := fun s => { s with closing := true }) (fun _ => rfl) hout
    split
    · exact forced_unsubscribe hout _
    · have h : ∀ k, (s.renumber k).loggedIn = false := fun _ => hout
      simp only [Forced, h, if_true]
      exact forced_refuse hout _

end Session

/-- Conversations in two sessions that differ in the number, of which one asks what the other
asks and maybe more: so are its responses. -/
theorem replay_alone {j k : Nat} : ∀ (xs ys : List (Action × Response)) (s : Session),
    s.loggedIn = false → (∀ x ∈ xs, x.1.isLogin = false) →
    xs.map Prod.fst <+: ys.map Prod.fst →
    ((s.renumber j).replay xs).isSome → ((s.renumber k).replay ys).isSome → xs <+: ys
  | [], ys, _, _, _, _, _, _ => List.nil_prefix
  | _ :: _, [], _, _, _, hask, _, _ => by simp at hask
  | (request, r) :: xs, (request', r') :: ys, s, hout, hlog, hask, hx, hy => by
    simp only [List.map_cons, List.cons_prefix_cons] at hask
    obtain ⟨rfl, hask⟩ := hask
    obtain ⟨r0, s', hout', hforced⟩ := Session.forced_next hout (hlog _ List.mem_cons_self)
    simp only [Session.replay, hforced] at hx hy
    -- both responses are the one that is possible
    have hr : r = r0 := by
      by_contra h
      simp [if_neg h] at hx
    have hr' : r' = r0 := by
      by_contra h
      simp [if_neg h] at hy
    subst hr
    subst hr'
    simp only [if_true, Option.bind_some] at hx hy
    rw [List.cons_prefix_cons]
    exact ⟨rfl, replay_alone xs ys s' hout' (fun x h => hlog x (List.mem_cons_of_mem _ h)) hask
      hx hy⟩

/-- **A client that sends no `LOGIN` is answered as if it were alone**: in any two runs,
connections that ask the same get the same responses, as far as both have asked, whatever their
numbers and descriptors are and whatever other clients do. -/
theorem observer_alone {v w : World} (hv : Reachable v) (hw : Reachable w) {j k : Nat}
    (hlog : ∀ request ∈ saidByClient j v.trace, request.isLogin = false)
    (hask : saidByClient j v.trace <+: saidByClient k w.trace) :
    saidByServer j v.trace <+: saidByServer k w.trace := by
  obtain ⟨xs, s, hx⟩ := conversed_of_reachable hv j
  obtain ⟨ys, t, hy⟩ := conversed_of_reachable hw k
  simp only [saidByClient, hx.spoken, hy.spoken, saidByClient_spoken] at hlog hask
  simp only [saidByServer, hx.spoken, hy.spoken, saidByServer_spoken]
  refine List.IsPrefix.map _ (replay_alone (j := j) (k := k) xs ys (Session.fresh 0) rfl
    (fun x hx => hlog _ (List.mem_map_of_mem hx)) hask ?_ ?_)
  · exact Option.isSome_iff_exists.mpr ⟨s, hx.replayed⟩
  · exact Option.isSome_iff_exists.mpr ⟨t, hy.replayed⟩

/-- The market-data client alone, and under another descriptor. -/
def watching : List Act :=
  [.accept 9 true true true, .supply willing [], .client 9 (.command (lit "SUBSCRIBE JNST")),
    .client 9 (.command (lit "BUY JNST 1 1"))]

theorem observer_alone_watching :
    let alone := (Run.run act (.init 3 []) watching).trace
    let among := (Run.run act (.init 3 []) watchingTraders).trace
    saidByServer 0 alone = [lit "OK\n", lit "ERROR Not logged in\n"] ∧
      saidByServer 0 alone <+: saidByServer 1 among :=
  ⟨by decide +kernel, observer_alone ⟨3, [], watching, rfl⟩ ⟨3, [], watchingTraders, rfl⟩
    (by decide +kernel) (by decide +kernel)⟩

end SocketExchange
