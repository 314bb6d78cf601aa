/-
# What a line is answered

`Answer` lists the ways a line that is not blank can end, one for each success of a command and
one for all its errors, with the conditions under which the source takes them.  It says more
than `Handling`: an error changes nothing but the sender's output, and its reason is one of the
texts in the source.

`one_response` is what a client that pipelines its commands relies on: one response for each of
them, before anything else the command sends.
-/
import SocketExchange.Routing

namespace SocketExchange

open CText

/-! ## 1. Responses -/

/-- A direct response to a line. -/
inductive Response
  | ok
  | error (reason : Bytes)
  | accepted (id : Int)
  | cancelled (id : Int)
  deriving DecidableEq, Repr

def Response.text : Response → Bytes
  | .ok => lit "OK\n"
  | .error reason => lit "ERROR " ++ reason ++ lit "\n"
  | .accepted id => lit "ORDER_ACCEPTED " ++ decimalInt id ++ lit "\n"
  | .cancelled id => lit "ORDER_CANCELLED " ++ decimalInt id ++ lit "\n"

/-- What the source passes to `replyError`. -/
def reasons : List Bytes :=
  [ lit "Market data clients cannot log in", lit "Already logged in",
    lit "Username already in use", lit "Username too long",
    lit "Traders cannot subscribe to market data", lit "Already subscribed to JNST",
    lit "Already subscribed to IMCT", lit "Traders cannot unsubscribe from market data",
    lit "Not subscribed to JNST", lit "Not subscribed to IMCT", lit "Invalid instrument",
    lit "Quantity and price must be positive", lit "Internal server error",
    lit "Invalid order id", lit "No such order", lit "Not logged in", lit "Unknown command",
    lit "Message too long" ]

/-- An error gives one of the reasons, and an id is a value of `int`. -/
def Response.Issued : Response → Prop
  | .ok => True
  | .error reason => reason ∈ reasons
  | .accepted id => -2 ^ 31 ≤ id ∧ id < 2 ^ 31
  | .cancelled id => 0 ≤ id ∧ id < 2 ^ 31

def Response.isError : Response → Bool
  | .error _ => true
  | _ => false

/-- No reason is cut off. -/
theorem errorText_eq {reason : Bytes} (h : reason ∈ reasons) :
    snprintf 64 (lit "ERROR " ++ reason ++ lit "\n") = Response.text (.error reason) := by
  have hlen : ∀ r ∈ reasons, (lit "ERROR " ++ r ++ lit "\n").length < 64 := by decide +kernel
  exact snprintf_of_lt (hlen reason h)

theorem cancelledText_eq {id : Int} (h : -2 ^ 31 ≤ id ∧ id < 2 ^ 31) :
    cancelledText id = Response.text (.cancelled id) := by
  have h1 := length_decimalInt_le h.1 h.2
  have h2 : (lit "ORDER_CANCELLED ").length = 16 := by decide
  have hn : (lit "\n").length = 1 := by decide
  refine snprintf_of_lt ?_
  simp only [List.length_append, h2, hn]
  omega

/-! ## 2. Answers -/

/-- `LOGIN` -/
def ClientConnection.logIn (username : Bytes) (c : ClientConnection) : ClientConnection :=
  { c with type := .trader, username := username.take (usernameLength - 1), loggedIn := true }

/-- `SUBSCRIBE` -/
def ClientConnection.subscribe (inst : Instrument) (c : ClientConnection) : ClientConnection :=
  { c.setSubscribed true inst with type := .market }

/-- **The ways a line ends**, with the response and the state it leaves. -/
inductive Answer (self : Nat) (w : World) : Response → World → Prop
  | error (heap : List Bool) {reason : Bytes} (h : reason ∈ reasons) :
      Answer self w (.error reason) (replyError self reason { w with heap := heap }).1
  | loggedIn {username : Bytes} (hlen : username.length ≤ usernameLength - 1)
      (hrole : (w.conn self).type ≠ .market) (hout : (w.conn self).loggedIn = false)
      (hfree : w.conns.any (usesName username) = false) :
      Answer self w .ok (reply self (lit "OK\n") (w.modify self (.logIn username))).1
  | subscribed (inst : Instrument) (hrole : (w.conn self).type ≠ .trader) :
      Answer self w .ok (reply self (lit "OK\n") (w.modify self (.subscribe inst))).1
  | unsubscribed (inst : Instrument) (hrole : (w.conn self).type ≠ .trader)
      (hsub : (w.conn self).subscribed inst = true) :
      Answer self w .ok (reply self (lit "OK\n")
        (w.modify self fun c => c.setSubscribed false inst)).1
  | quit : Answer self w .ok (quitUser self w).1
  | accepted (heap : List Bool) (side : OrderSide) (inst : Instrument) {quantity price : Int}
      (hq : 0 < quantity ∧ quantity < 2 ^ 31) (hp : 0 < price ∧ price < 2 ^ 31)
      (hin : (w.conn self).loggedIn = true) {ord : Order}
      (hord : ord = w.exchange.newOrder side inst quantity price (w.conn self).clientFd
        (w.conn self).serial) :
      Answer self w (.accepted ord.id) (acceptOrder ord self { w with heap := heap }).1
  | cancelled {id : Int} {r : Order × Exchange} (hin : (w.conn self).loggedIn = true)
      (hid : 0 ≤ id ∧ id < 2 ^ 31) (h : w.exchange.cancel id (w.conn self).clientFd = some r) :
      Answer self w (.cancelled id) (reply self (cancelledText id)
        ({ w with exchange := r.2 }.note (.cancelled (w.conn self).serial r.1))).1

/-- An error without an allocation. -/
theorem refused_answer {self : Nat} {w : World} {reason : Bytes} (h : reason ∈ reasons) :
    ∃ r, Answer self w r (replyError self reason w).1 := ⟨_, .error w.heap h⟩

section Commands

variable (self : Nat) (w : World)

theorem loginUser_answer {username : Bytes} (h : username.length ≤ usernameLength - 1) :
    ∃ r, Answer self w r (loginUser username self w).1 := by
  unfold loginUser
  split
  · exact refused_answer (by simp [reasons])
  · split
    · exact refused_answer (by simp [reasons])
    · split
      · exact refused_answer (by simp [reasons])
      · rename_i hrole hout hfree
        exact ⟨_, .loggedIn h hrole (by simpa using hout) (by simpa using hfree)⟩

theorem subscribeClient_answer (instrument : Bytes) :
    ∃ r, Answer self w r (subscribeClient instrument self w).1 := by
  unfold subscribeClient
  split
  · exact refused_answer (by simp [reasons])
  · rename_i hrole
    split
    · exact refused_answer (by simp [reasons])
    · rename_i inst _
      split
      · exact refused_answer (by cases inst <;> decide +kernel)
      · exact ⟨_, .subscribed inst hrole⟩

theorem unsubscribeClient_answer (instrument : Bytes) :
    ∃ r, Answer self w r (unsubscribeClient instrument self w).1 := by
  unfold unsubscribeClient
  split
  · exact refused_answer (by simp [reasons])
  · rename_i hrole
    split
    · exact refused_answer (by simp [reasons])
    · rename_i inst _
      split
      · rename_i hsub
        exact ⟨_, .unsubscribed inst hrole hsub⟩
      · exact refused_answer (by cases inst <;> decide +kernel)

theorem placeOrder_answer (side : OrderSide) (instrument : Bytes) {quantity price : Int}
    (hq : quantity < 2 ^ 31) (hp : price < 2 ^ 31) (hin : (w.conn self).loggedIn = true) :
    ∃ r, Answer self w r (placeOrder side instrument quantity price self w).1 := by
  unfold placeOrder
  split
  · exact refused_answer (by simp [reasons])
  · rename_i inst _
    dsimp only
    split
    · exact refused_answer (by simp [reasons])
    · split
      · exact ⟨_, .error _ (by simp [reasons])⟩
      · exact ⟨_, .accepted (alloc w.heap).2 side inst (by omega) (by omega) hin rfl⟩

/-- An id that is parsed is an order id. -/
theorem orderIdOf_range {text : Bytes} {id : Int} (h : orderIdOf text = some id) :
    0 ≤ id ∧ id < 2 ^ 31 := by
  unfold orderIdOf at h
  split at h
  · cases h
  · dsimp only at h
    split at h
    · cases h
    · cases h
      omega

theorem cancelUserOrder_answer (orderIdStr : Bytes) (hin : (w.conn self).loggedIn = true) :
    ∃ r, Answer self w r (cancelUserOrder orderIdStr self w).1 := by
  unfold cancelUserOrder
  split
  · exact refused_answer (by simp [reasons])
  · rename_i id hid
    split
    · exact refused_answer (by simp [reasons])
    · rename_i r hr
      exact ⟨_, .cancelled hin (orderIdOf_range hid) hr⟩

theorem dispatchCommand_answer {s : Scanned} (hr : s.quantity < 2 ^ 31 ∧ s.price < 2 ^ 31) :
    ∃ r, Answer self w r (dispatchCommand s self w).1 := by
  unfold dispatchCommand
  split
  · exact refused_answer (by simp [reasons])
  · split
    · split
      · exact refused_answer (by simp [reasons])
      · rename_i hlen
        exact loginUser_answer self w (not_lt.mp hlen)
    · split
      · exact subscribeClient_answer self w _
      · split
        · exact ⟨_, .quit⟩
        · split
          · exact unsubscribeClient_answer self w _
          · split
            · exact refused_answer (by simp [reasons])
            · rename_i hin
              rw [Bool.not_eq_false] at hin
              split
              · exact placeOrder_answer self w _ _ hr.1 hr.2 hin
              · split
                · exact placeOrder_answer self w _ _ hr.1 hr.2 hin
                · split
                  · exact cancelUserOrder_answer self w _ hin
                  · exact refused_answer (by simp [reasons])

end Commands

/-! ## 3. Lines -/

theorem scanLine_matched {s : Bytes} : (scanLine s).matched < 1 ↔ ∀ b ∈ s, isSpace b = true := by
  have hnone : scanWord maxTokenLen s = none ↔ ∀ b ∈ s, isSpace b = true := by
    rw [scanWord_eq_none (by decide), words_eq_nil]
    exact List.dropWhile_eq_nil_iff
  rw [← hnone]
  unfold scanLine
  cases scanWord maxTokenLen s with
  | none => simp
  | some r =>
    dsimp only
    split
    · simp
    · split
      · simp
      · split <;> simp

/-- A line without a character that is no white space. -/
theorem processLine_blank {line : Bytes} (h : ∀ b ∈ cstr line, isSpace b = true) (self : Nat)
    (w : World) : processLine line self w = (w.note (.line (w.conn self).serial line), false) := by
  unfold processLine
  dsimp only
  rw [if_pos (scanLine_matched.mpr h)]

/-- **Every other line is answered.** -/
theorem processLine_answer {line : Bytes} (h : ¬ ∀ b ∈ cstr line, isSpace b = true) (self : Nat)
    (w : World) : ∃ r, Answer self (w.note (.line (w.conn self).serial line)) r
      (processLine line self w).1 := by
  unfold processLine
  dsimp only
  rw [if_neg fun hm => h (scanLine_matched.mp hm)]
  exact dispatchCommand_answer self _ (scanLine_range _)

theorem head_of_response (r : Response) : r.text.head? = some 79 ∨ r.text.head? = some 69 := by
  cases r with
  | ok => exact .inl (by decide)
  | error reason => exact .inr rfl
  | accepted id => exact .inl rfl
  | cancelled id => exact .inl rfl

/-- A report of a fill is no response. -/
theorem delivery_ne_response {w : World} {fills : List Fill} {d : Delivery}
    (hd : d ∈ deliveries w fills) (r : Response) : d.msg ≠ r.text := by
  have hne : ∀ {msg : Bytes} {b : Byte}, msg.head? = some b → b ≠ 79 → b ≠ 69 → msg ≠ r.text := by
    intro msg b hmsg h1 h2 heq
    rw [heq] at hmsg
    rcases head_of_response r with h | h
    · exact h1 (Option.some.inj (hmsg.symm.trans h))
    · exact h2 (Option.some.inj (hmsg.symm.trans h))
  obtain ⟨fill, -, ⟨-, hm⟩ | ⟨-, hm⟩ | ⟨-, hm, -⟩⟩ := deliveries_kind hd <;> rw [hm]
  · exact hne (b := 66) rfl (by decide) (by decide)
  · exact hne (b := 83) rfl (by decide) (by decide)
  · exact hne (b := 84) rfl (by decide) (by decide)

/-- **One response, and first**: `new` is what a line notes, with what is no message in front. -/
structure Responds (k : Nat) (r : Response) (new : List Obs) : Prop where
  issued : r.Issued
  sent : ∃ (pre : List Obs) (first : Handed) (rest : List Handed),
    new = pre ++ .handed first :: rest.map Obs.handed ∧
    (∀ h, .handed h ∉ pre) ∧ first.issuer = k ∧ first.receiver = k ∧ first.msg = r.text ∧
    ∀ h ∈ rest, ∀ r' : Response, h.msg ≠ r'.text

theorem reply_responds {self k : Nat} {v : World} (hk : (v.conn self).serial = k) (r : Response)
    (hr : r.Issued) (pre : List Obs) (hpre : ∀ h, .handed h ∉ pre) :
    Responds k r (pre ++ [.handed (handedOf { self := self, about := none } self r.text v)]) :=
  ⟨hr, pre, _, [], rfl, hpre, hk, hk, rfl, by simp⟩

theorem Answer.responds {self : Nat} {w w' : World} {r : Response} (h : Answer self w r w')
    {c : ClientConnection} (hc : w.slot self = some c)
    (hnext : -2 ^ 31 ≤ w.exchange.nextOrderId ∧ w.exchange.nextOrderId < 2 ^ 31) :
    ∃ new, w'.trace = w.trace ++ new ∧ Responds c.serial r new := by
  have hser : (w.conn self).serial = c.serial := by rw [conn_of_slot hc]
  have hchange : ∀ f : ClientConnection → ClientConnection, (f c).serial = c.serial →
      ((w.modify self f).conn self).serial = c.serial := by
    intro f hf
    rw [conn_of_slot (modify_slot self hc f), hf]
  have hok : ∀ f : ClientConnection → ClientConnection, (f c).serial = c.serial →
      ∃ new, (reply self (lit "OK\n") (w.modify self f)).1.trace = w.trace ++ new ∧
        Responds c.serial .ok new := fun f hf =>
    ⟨_, rfl, reply_responds (hchange f hf) .ok trivial [] (by simp)⟩
  cases h with
  | error heap h =>
    refine ⟨_, rfl, ?_⟩
    rw [errorText_eq h]
    exact reply_responds (v := { w with heap := heap }) hser (.error _) h [] (by simp)
  | loggedIn hlen hrole hout hfree => exact hok _ rfl
  | subscribed inst hrole => exact hok _ (by cases inst <;> rfl)
  | unsubscribed inst hrole hsub => exact hok _ (by cases inst <;> rfl)
  | quit => exact hok (fun c => { c with closing := true }) rfl
  | @accepted heap side inst quantity price hq hp hin ord hord =>
    obtain ⟨hs, htrace, hwhat⟩ := acceptOrder_trace ord self { w with heap := heap }
    have hid : ord.id = w.exchange.nextOrderId := by
      rw [hord]
      rfl
    refine ⟨hs.map Obs.handed, htrace, by rw [Response.Issued, hid]; exact hnext, ?_⟩
    cases hs with
    | nil => cases hwhat
    | cons first rest =>
      rw [List.map_cons, List.map_cons, List.cons.injEq] at hwhat
      obtain ⟨hfirst, hrest⟩ := hwhat
      simp only [Handed.what, Prod.mk.injEq] at hfirst
      refine ⟨[], first, rest, rfl, by simp, hfirst.1.trans hser, hfirst.2.1.trans hser, ?_, ?_⟩
      · rw [hfirst.2.2.2, acceptedText_eq (hid ▸ hnext)]
        rfl
      · intro x hx r'
        have hmem : x.what ∈ rest.map Handed.what := List.mem_map_of_mem hx
        rw [hrest] at hmem
        obtain ⟨d, hd, hdx⟩ := List.mem_map.mp hmem
        simp only [Handed.what, Prod.mk.injEq] at hdx
        rw [← hdx.2.2.2]
        exact delivery_ne_response hd r'
  | @cancelled id r hin hid h =>
    refine ⟨_, List.append_assoc _ _ _, ?_⟩
    rw [cancelledText_eq ⟨by omega, hid.2⟩]
    exact reply_responds
      (v := { w with exchange := r.2 }.note (.cancelled (w.conn self).serial r.1)) hser
      (.cancelled id) hid [.cancelled (w.conn self).serial r.1] (by simp)

/-! ## 4. One response for each line -/

/-- Nothing is different but what is on its way to the client in slot `fd`. -/
structure OnlyOutput (fd : Nat) (w w' : World) : Prop where
  exchange : w'.exchange = w.exchange
  /-- who is in which slot, with everything but the queues -/
  roster : w'.roster = w.roster
  others : ∀ n, n ≠ fd → w'.slot n = w.slot n
  opened : w'.opened = w.opened
  accepts : w'.accepts = w.accepts

/-- An error changes nothing. -/
theorem Answer.unchanged {self : Nat} {w w' : World} {r : Response} (h : Answer self w r w')
    (herr : r.isError = true) : OnlyOutput self w w' := by
  cases h with
  | error heap h =>
    exact ⟨rfl, reply_roster self _ _, fun n hn => sendLine_slot_ne _ hn _ _, rfl, rfl⟩
  | _ => cases herr

/-- **One response for each command, and errors change nothing.**  In every reachable state a
line of white space does nothing.  Every other line hands its sender exactly one of the four
direct responses, in front of everything else it hands over, and if that is an error nothing
else has changed.  No line changes more of another connection than its queue. -/
theorem one_response {w : World} (hw : Reachable w) {fd : Nat} {c : ClientConnection}
    (hc : w.slot fd = some c) (line : Bytes) :
    ((∀ b ∈ cstr line, isSpace b = true) →
      processLine line fd w = (w.note (.line c.serial line), false)) ∧
    ((¬ ∀ b ∈ cstr line, isSpace b = true) → ∃ r new,
      (processLine line fd w).1.trace = w.trace ++ .line c.serial line :: new ∧
        Responds c.serial r new ∧ (r.isError = true → OnlyOutput fd w (processLine line fd w).1)) ∧
    ∀ n, n ≠ fd → ((processLine line fd w).1.slot n).map ClientConnection.bare
      = (w.slot n).map ClientConnection.bare := by
  have hser : (w.conn fd).serial = c.serial := by rw [conn_of_slot hc]
  refine ⟨fun h => ?_, fun h => ?_, fun n hn => ?_⟩
  · rw [processLine_blank h, hser]
  · obtain ⟨r, ha⟩ := processLine_answer h fd w
    rw [hser] at ha
    obtain ⟨new, hnew, hresp⟩ := ha.responds hc (inInts_of_reachable hw).nextId
    refine ⟨r, new, ?_, hresp, fun herr => ?_⟩
    · rw [hnew, trace_note, List.append_assoc]
      rfl
    · obtain ⟨h1, h2, h3, h4, h5⟩ := ha.unchanged herr
      exact ⟨h1, h2, h3, h4, h5⟩
  · exact (processLine_handling fd w line).others hn

/-- The buyer of `market` sends an order of nothing. -/
theorem one_response_market :
    let w := Run.run act (.init 3 []) market
    (processLine (lit "BUY JNST 0 5") 7 w).1.trace.drop (w.trace.length + 1)
        = [.handed { issuer := 2, receiver := 2, about := none
                     msg := lit "ERROR Quantity and price must be positive\n"
                     wrote := lit "ERROR Quantity and price must be positive\n"
                     failed := false }] ∧
      ∃ r new, (processLine (lit "BUY JNST 0 5") 7 w).1.trace
          = w.trace ++ .line 2 (lit "BUY JNST 0 5") :: new ∧
        Responds 2 r new ∧
          (r.isError = true → OnlyOutput 7 w (processLine (lit "BUY JNST 0 5") 7 w).1) := by
  intro w
  have hslot : w.slot 7 = some (w.conn 7) := by decide +kernel
  have hser : (w.conn 7).serial = 2 := by decide +kernel
  have h := (one_response ⟨3, [], market, rfl⟩ hslot (lit "BUY JNST 0 5")).2.1 (by decide)
  rw [hser] at h
  exact ⟨by decide +kernel, h⟩

end SocketExchange
