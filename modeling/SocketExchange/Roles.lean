/-
# Roles, names and rights

A connection becomes a trader by its first successful `LOGIN` or a market-data client by its
first successful `SUBSCRIBE`, and stays what it is.  No code checks a role before it sends
`BOUGHT` or `SOLD`: the message goes to the descriptor an order names.  That it reaches traders
only is a fact about sessions, ownership and descriptors together, `Roles`.

What a line does to its client's session is a `Change`; `roles_act` keeps the invariant over
every act, and `Persist`, `Rightful` and `BookStep` say what an act may do to roles, what may be
sent and what may happen to the book.
-/
import SocketExchange.Responses

namespace SocketExchange

open CText

/-! ## 1. Sessions -/

/-- What a client is logged in or subscribed as, and whether it is leaving. -/
structure Session where
  serial : Nat
  type : ClientType
  loggedIn : Bool
  closing : Bool
  subscribedJNST : Bool
  subscribedIMCT : Bool
  username : Bytes
  deriving DecidableEq, Repr

def ClientConnection.session (c : ClientConnection) : Session :=
  { serial := c.serial, type := c.type, loggedIn := c.loggedIn, closing := c.closing
    subscribedJNST := c.subscribedJNST, subscribedIMCT := c.subscribedIMCT, username := c.username }

/-- Logged in exactly as a trader, subscribed only as a market-data client. -/
structure RoleOk (c : ClientConnection) : Prop where
  login : c.loggedIn = true ↔ c.type = .trader
  subscription : ∀ inst, c.subscribed inst = true → c.type = .market

/-- **Sessions, ownership and descriptors agree.** -/
structure Roles (w : World) : Prop where
  owned : Owned w
  role : ∀ fd c, w.slot fd = some c → RoleOk c
  names : ∀ fd c fd' c', w.slot fd = some c → w.slot fd' = some c' →
    c.loggedIn = true → c'.loggedIn = true → c.username = c'.username → fd = fd'
  owners : ∀ o ∈ w.exchange.orderbook.orders, ∀ fd c, w.slot fd = some c →
    c.serial = o.submitter → c.type = .trader

theorem session_of_bare {c d : ClientConnection} (h : c.bare = d.bare) : c.session = d.session := by
  have hs : c.bare.session = d.bare.session := congrArg _ h
  exact hs

theorem fields_of_session {c d : ClientConnection} (h : c.session = d.session) :
    c.serial = d.serial ∧ c.type = d.type ∧ c.loggedIn = d.loggedIn ∧
      c.username = d.username ∧ ∀ inst, c.subscribed inst = d.subscribed inst := by
  have hser : c.session.serial = d.session.serial := congrArg _ h
  have ht : c.session.type = d.session.type := congrArg _ h
  have hl : c.session.loggedIn = d.session.loggedIn := congrArg _ h
  have hu : c.session.username = d.session.username := congrArg _ h
  have hj : c.session.subscribedJNST = d.session.subscribedJNST := congrArg _ h
  have hi : c.session.subscribedIMCT = d.session.subscribedIMCT := congrArg _ h
  refine ⟨hser, ht, hl, hu, fun inst => ?_⟩
  cases inst
  · exact hj
  · exact hi

theorem RoleOk.of_session {c d : ClientConnection} (h : c.session = d.session) (hd : RoleOk d) :
    RoleOk c := by
  obtain ⟨-, ht, hl, -, hsub⟩ := fields_of_session h
  refine ⟨by rw [hl, ht]; exact hd.login, fun inst hi => ?_⟩
  rw [hsub] at hi
  exact ht.trans (hd.subscription inst hi)

/-- A step that leaves the sessions of those who stay, and brings no orders. -/
theorem Roles.of_sessions {w w' : World} (h : Roles w) (ho : Owned w')
    (hslots : ∀ n c', w'.slot n = some c' → ∃ c, w.slot n = some c ∧ c'.session = c.session)
    (horders : ∀ o' ∈ w'.exchange.orderbook.orders, ∃ o ∈ w.exchange.orderbook.orders,
      o'.submitter = o.submitter) : Roles w' := by
  refine ⟨ho, fun n c' hc' => ?_, fun n c' n' d' hc' hd' hl hl' hu => ?_,
    fun o' ho' n c' hc' hk => ?_⟩
  · obtain ⟨c, hc, hs⟩ := hslots n c' hc'
    exact (h.role n c hc).of_session hs
  · obtain ⟨c, hc, hs⟩ := hslots n c' hc'
    obtain ⟨d, hd, hs'⟩ := hslots n' d' hd'
    obtain ⟨-, -, hcl, hcu, -⟩ := fields_of_session hs
    obtain ⟨-, -, hdl, hdu, -⟩ := fields_of_session hs'
    exact h.names n c n' d hc hd (hcl ▸ hl) (hdl ▸ hl') (by rw [← hcu, ← hdu, hu])
  · obtain ⟨c, hc, hs⟩ := hslots n c' hc'
    obtain ⟨o, ho, hsub⟩ := horders o' ho'
    obtain ⟨hser, ht, -⟩ := fields_of_session hs
    exact ht.trans (h.owners o ho n c hc (by rw [← hser, hk, hsub]))

/-! ## 2. What a line does to its client -/

/-- How a line may leave the session of its client. -/
inductive Change (w : World) (c : ClientConnection) : ClientConnection → Prop
  | none : Change w c c
  | loggedIn {username : Bytes} (hlen : username.length ≤ usernameLength - 1)
      (hrole : c.type ≠ .market) (hout : c.loggedIn = false)
      (hfree : w.conns.any (usesName username) = false) : Change w c (c.logIn username)
  | subscribed (inst : Instrument) (hrole : c.type ≠ .trader) : Change w c (c.subscribe inst)
  | unsubscribed (inst : Instrument) (hrole : c.type ≠ .trader)
      (hsub : c.subscribed inst = true) : Change w c (c.setSubscribed false inst)
  | quit : Change w c { c with closing := true }

/-- A reply leaves all but the queue. -/
theorem slot_reply {self : Nat} {v : World} {d : ClientConnection} (hd : v.slot self = some d)
    (msg : Bytes) : ∃ c', (reply self msg v).1.slot self = some c' ∧ c'.bare = d.bare :=
  slot_of_view (v := .bare) (reply_roster self msg v) hd

theorem Answer.change {self : Nat} {w w' : World} {r : Response} (h : Answer self w r w')
    {c : ClientConnection} (hc : w.slot self = some c) :
    ∃ d c', Change w c d ∧ w'.slot self = some c' ∧ c'.bare = d.bare := by
  have hconn := conn_of_slot hc
  cases h with
  | error heap h =>
    obtain ⟨c', hc'⟩ := slot_reply (v := { w with heap := heap }) hc _
    exact ⟨c, c', .none, hc'⟩
  | loggedIn hlen hrole hout hfree =>
    obtain ⟨c', hc'⟩ := slot_reply (modify_slot self hc _) (lit "OK\n")
    rw [hconn] at hrole hout
    exact ⟨_, c', .loggedIn hlen hrole hout hfree, hc'⟩
  | subscribed inst hrole =>
    obtain ⟨c', hc'⟩ := slot_reply (modify_slot self hc _) (lit "OK\n")
    rw [hconn] at hrole
    exact ⟨_, c', .subscribed inst hrole, hc'⟩
  | unsubscribed inst hrole hsub =>
    obtain ⟨c', hc'⟩ := slot_reply (modify_slot self hc _) (lit "OK\n")
    rw [hconn] at hrole hsub
    exact ⟨_, c', .unsubscribed inst hrole hsub, hc'⟩
  | quit =>
    obtain ⟨c', hc'⟩ := slot_reply (modify_slot self hc fun c => { c with closing := true })
      (lit "OK\n")
    exact ⟨_, c', .quit, hc'⟩
  | @accepted heap side inst quantity price hq hp hin ord hord =>
    have hroster : (acceptOrder ord self { w with heap := heap }).1.roster = w.roster :=
      acceptOrder_roster _ _ _
    obtain ⟨c', hc'⟩ := slot_of_view (v := .bare) hroster hc
    exact ⟨c, c', .none, hc'⟩
  | @cancelled id r hin hid h =>
    obtain ⟨c', hc'⟩ := slot_reply
      (v := { w with exchange := r.2 }.note (.cancelled (w.conn self).serial r.1)) hc _
    exact ⟨c, c', .none, hc'⟩

/-- Only a client that is logged in changes the exchange. -/
theorem Answer.exchange {self : Nat} {w w' : World} {r : Response} (h : Answer self w r w') :
    w'.exchange = w.exchange ∨ (w.conn self).loggedIn = true := by
  cases h with
  | accepted heap side inst hq hp hin hord => exact .inr hin
  | cancelled hin hid h => exact .inr hin
  | _ => exact .inl rfl

/-- An order behind a line was there before it, or is its sender's. -/
theorem Answer.orders {self : Nat} {w w' : World} {r : Response} (h : Answer self w r w')
    (hpos : ∀ o ∈ w.exchange.orderbook.orders, 0 < o.quantity) :
    ∀ o' ∈ w'.exchange.orderbook.orders,
      (∃ o ∈ w.exchange.orderbook.orders, o'.submitter = o.submitter) ∨
        (w.conn self).loggedIn = true ∧ o'.submitter = (w.conn self).serial := by
  intro o' ho'
  cases h with
  | @accepted heap side inst quantity price hq hp hin ord hord =>
    rw [acceptOrder_exchange] at ho'
    obtain ⟨head, hhead⟩ := LimitOrderBook.mem_orders.mp ho'
    rcases addOrder_remnant hpos ord heap hhead with ⟨o, ho, hr, -⟩ | ⟨-, hr, -⟩
    · exact .inl ⟨o, mem_orders_of_mem_get ho, by rw [hr]⟩
    · exact .inr ⟨hin, by rw [hr, hord]; rfl⟩
  | @cancelled id r hin hid h =>
    obtain ⟨x, hx, rfl⟩ := Option.map_eq_some_iff.mp h
    obtain ⟨head, hhead⟩ := LimitOrderBook.mem_orders.mp ho'
    exact .inl ⟨o', mem_orders_of_mem_get (mem_get_of_cancel hx head o' hhead), rfl⟩
  | _ => exact .inl ⟨o', ho', rfl⟩

theorem RoleOk.change {w : World} {c d : ClientConnection} (h : Change w c d) (hc : RoleOk c) :
    RoleOk d := by
  cases h with
  | none => exact hc
  | @loggedIn username hlen hrole hout hfree =>
    refine ⟨by simp [ClientConnection.logIn], fun inst hi => ?_⟩
    exact absurd (hc.subscription inst (by cases inst <;> exact hi)) hrole
  | subscribed inst hrole =>
    have hno : c.loggedIn ≠ true := fun hin => hrole (hc.login.mp hin)
    refine ⟨⟨fun hin => absurd (by cases inst <;> exact hin) hno, fun ht => ?_⟩, fun _ _ => rfl⟩
    cases ht
  | unsubscribed inst hrole hsub =>
    have hmarket := hc.subscription inst hsub
    refine ⟨?_, fun i hi => by cases inst <;> exact hmarket⟩
    have hl := hc.login
    cases inst <;> exact hl
  | quit => exact ⟨hc.login, hc.subscription⟩

/-- A role that is taken stays. -/
theorem Change.type {w : World} {c d : ClientConnection} (h : Change w c d) (hc : RoleOk c) :
    d.serial = c.serial ∧ (c.type ≠ .none → d.type = c.type) ∧
      (c.loggedIn = true → d.loggedIn = true ∧ d.username = c.username) := by
  cases h with
  | none => exact ⟨rfl, fun _ => rfl, fun h => ⟨h, rfl⟩⟩
  | @loggedIn username hlen hrole hout hfree =>
    have hnot : c.type ≠ .trader := fun ht => by
      rw [hc.login.mpr ht] at hout
      cases hout
    refine ⟨rfl, fun hne => ?_, fun hin => ?_⟩
    · cases ht : c.type with
      | none => exact absurd ht hne
      | trader => exact absurd ht hnot
      | market => exact absurd ht hrole
    · rw [hin] at hout
      cases hout
  | subscribed inst hrole =>
    refine ⟨by cases inst <;> rfl, fun hne => ?_, fun hin => absurd (hc.login.mp hin) hrole⟩
    cases ht : c.type with
    | none => exact absurd ht hne
    | trader => exact absurd ht hrole
    | market => rfl
  | unsubscribed inst hrole hsub => cases inst <;> exact ⟨rfl, fun _ => rfl, fun h => ⟨h, rfl⟩⟩
  | quit => exact ⟨rfl, fun _ => rfl, fun h => ⟨h, rfl⟩⟩

/-! ## 3. Lines and acts keep roles -/

/-- A name that nobody uses. -/
theorem not_usesName {w : World} {username : Bytes}
    (h : w.conns.any (usesName username) = false) {n : Nat} {c : ClientConnection}
    (hc : w.slot n = some c) (hin : c.loggedIn = true) : c.username ≠ username := by
  intro hu
  rw [List.any_eq_false] at h
  have hmem : some c ∈ w.conns := by
    rw [World.slot, Option.join_eq_some_iff] at hc
    exact List.mem_of_getElem? hc
  refine h _ hmem ?_
  simp [usesName, hin, hu]

/-- **A line keeps roles.** -/
theorem roles_processLine {w : World} (hw : Roles w) {fd : Nat} {c : ClientConnection}
    (hc : w.slot fd = some c) (line : Bytes) : Roles (processLine line fd w).1 := by
  have howned := owned_processLine hw.owned hc line
  by_cases hblank : ∀ b ∈ cstr line, isSpace b = true
  · rw [processLine_blank hblank] at howned ⊢
    exact hw.of_sessions howned (fun n c' hc' => ⟨c', hc', rfl⟩) fun o ho => ⟨o, ho, rfl⟩
  obtain ⟨r, ha⟩ := processLine_answer hblank fd w
  have hc1 : (w.note (.line (w.conn fd).serial line)).slot fd = some c := hc
  obtain ⟨d, c1, hchange, hs1, hbare1⟩ := ha.change hc1
  have hother := fun n (hn : n ≠ fd) => (processLine_handling fd w line).others hn
  have horders := ha.orders hw.owned.positive
  generalize (processLine line fd w).1 = w' at *
  have hrole := hw.role fd c hc
  obtain ⟨hser, htype, huser⟩ := hchange.type hrole
  obtain ⟨hser1, ht1, hl1, hu1, -⟩ := fields_of_session (session_of_bare hbare1)
  have hslots : ∀ n c', w'.slot n = some c' →
      (n = fd ∧ c' = c1) ∨ n ≠ fd ∧ ∃ e, w.slot n = some e ∧ c'.session = e.session := by
    intro n c' hc'
    by_cases hn : n = fd
    · subst hn
      rw [hs1, Option.some.injEq] at hc'
      exact .inl ⟨rfl, hc'.symm⟩
    · obtain ⟨e, he, hbare⟩ := slot_of_bare (hother n hn) hc'
      exact .inr ⟨hn, e, he, session_of_bare hbare⟩
  -- a name taken by this line is nobody's else
  have hfresh : ∀ n e, n ≠ fd → w.slot n = some e → e.loggedIn = true → c1.loggedIn = true →
      c1.username ≠ e.username := by
    intro n e hn he hein hin heq
    rw [hl1] at hin
    rw [hu1] at heq
    cases hchange with
    | @loggedIn username hlen _ _ hfree =>
      have htake : username.take (usernameLength - 1) = username := List.take_of_length_le hlen
      refine not_usesName hfree (w := w) he hein (heq.symm.trans ?_)
      exact htake
    | none => exact hn (hw.names n e fd c he hc hein hin heq.symm)
    | subscribed inst _ =>
      exact hn (hw.names n e fd c he hc hein (by cases inst <;> exact hin)
        (by cases inst <;> exact heq.symm))
    | unsubscribed inst _ _ =>
      exact hn (hw.names n e fd c he hc hein (by cases inst <;> exact hin)
        (by cases inst <;> exact heq.symm))
    | quit => exact hn (hw.names n e fd c he hc hein hin heq.symm)
  refine ⟨howned, fun n c' hc' => ?_, fun n c' n' d' hc' hd' hl hl' hu => ?_,
    fun o' ho' n c' hc' hk => ?_⟩
  · rcases hslots n c' hc' with ⟨rfl, rfl⟩ | ⟨-, e, he, hs⟩
    · exact (hrole.change hchange).of_session (session_of_bare hbare1)
    · exact (hw.role n e he).of_session hs
  · rcases hslots n c' hc' with ⟨rfl, rfl⟩ | ⟨hn, e, he, hs⟩ <;>
      rcases hslots n' d' hd' with ⟨rfl, rfl⟩ | ⟨hn', e', he', hs'⟩
    · rfl
    · obtain ⟨-, -, hel, heu, -⟩ := fields_of_session hs'
      exact absurd (hu.trans heu) (hfresh n' e' hn' he' (hel ▸ hl') hl)
    · obtain ⟨-, -, hel, heu, -⟩ := fields_of_session hs
      exact absurd (hu.symm.trans heu) (hfresh n e hn he (hel ▸ hl) hl')
    · obtain ⟨-, -, hel, heu, -⟩ := fields_of_session hs
      obtain ⟨-, -, hel', heu', -⟩ := fields_of_session hs'
      exact hw.names n e n' e' he he' (hel ▸ hl) (hel' ▸ hl') (by rw [← heu, ← heu', hu])
  · -- the owner of an order was a trader before, or has submitted it now
    have hin : (w.conn fd).loggedIn = true ↔ c.type = .trader := by
      rw [conn_of_slot hc]
      exact hrole.login
    have hown : ∀ k, (∃ o ∈ w.exchange.orderbook.orders, k = o.submitter) ∨
        (w.conn fd).loggedIn = true ∧ k = (w.conn fd).serial →
        c'.serial = k → c'.type = .trader := by
      intro k hk' hck
      rcases hslots n c' hc' with ⟨rfl, rfl⟩ | ⟨hn, e, he, hs⟩
      · have ht : c.type = .trader := by
          rcases hk' with ⟨o, ho, hko⟩ | ⟨hl, -⟩
          · exact hw.owners o ho n c hc (by rw [← hko, ← hck, hser1, hser])
          · exact hin.mp hl
        rw [ht1, htype (by rw [ht]; decide), ht]
      · obtain ⟨hes, het, -⟩ := fields_of_session hs
        rw [het]
        rcases hk' with ⟨o, ho, hko⟩ | ⟨-, hkc⟩
        · exact hw.owners o ho n e he (by rw [← hes, hck, hko])
        · have heq : e.serial = c.serial := by rw [← hes, hck, hkc, conn_of_slot hc]
          have hbe := badge_of_slot he
          rw [heq] at hbe
          exact absurd (hw.owned.housed.distinct _ _ _ _ _ hbe (badge_of_slot hc)) hn
    refine hown o'.submitter ?_ hk
    rcases horders o' ho' with ⟨o, ho, hsub⟩ | h
    · exact .inl ⟨o, ho, hsub⟩
    · exact .inr h

theorem roles_registered {w w' : World} (hw : Roles w) (howned : Owned w') {fd : Nat}
    (h : Registered w fd w') : Roles w' := by
  have hslots : ∀ n c', w'.slot n = some c' →
      (n = fd ∧ c' = .fresh fd w.accepts) ∨ w.slot n = some c' := by
    intro n c' hc'
    rw [h.slot] at hc'
    split at hc'
    · rename_i hn
      exact .inl ⟨hn, (Option.some.inj hc').symm⟩
    · exact .inr hc'
  refine ⟨howned, fun n c' hc' => ?_, fun n c' n' d' hc' hd' hl hl' hu => ?_,
    fun o ho n c' hc' hk => ?_⟩
  · rcases hslots n c' hc' with ⟨-, rfl⟩ | hc
    · exact ⟨by simp [ClientConnection.fresh], fun inst hi => by cases inst <;> cases hi⟩
    · exact hw.role n c' hc
  · rcases hslots n c' hc' with ⟨-, rfl⟩ | hc
    · cases hl
    · rcases hslots n' d' hd' with ⟨-, rfl⟩ | hd
      · cases hl'
      · exact hw.names n c' n' d' hc hd hl hl' hu
  · rw [h.exchange] at ho
    rcases hslots n c' hc' with ⟨-, rfl⟩ | hc
    · have hlt := (hw.owned.orders o ho).2
      have hk' : w.accepts = o.submitter := hk
      omega
    · exact hw.owners o ho n c' hc hk

/-- Nobody's session and nothing of the exchange has changed, and what was sent are replies. -/
structure Settled (w w' : World) : Prop where
  sessions : ∀ n c', w'.slot n = some c' → ∃ c, w.slot n = some c ∧ c'.session = c.session
  exchange : w'.exchange = w.exchange
  accepts : w'.accepts = w.accepts
  sent : ∃ new, w'.trace = w.trace ++ new ∧ ∀ x, .handed x ∈ new → IsReply x.msg

/-- What an act comes to that is not a line. -/
inductive Outcome (w : World) : World → Prop
  | settled {w' : World} (h : Settled w w') : Outcome w w'
  | left {v : World} {fd : Nat} {c : ClientConnection} (h : Settled w v)
      (hc : v.slot fd = some c) : Outcome w (removeClient fd v)
  | came {w' : World} {fd : Nat} (h : Registered w fd w') : Outcome w w'

theorem Settled.refl (w : World) : Settled w w :=
  ⟨fun _ c' hc' => ⟨c', hc', rfl⟩, rfl, rfl, [], by simp, by simp⟩

/-- Output and notes leave sessions. -/
theorem Settled.of_roster {w w' : World} (hr : w'.roster = w.roster)
    (hx : w'.exchange = w.exchange) (hacc : w'.accepts = w.accepts) {new : List Obs}
    (htrace : w'.trace = w.trace ++ new) (hnew : ∀ x, .handed x ∈ new → IsReply x.msg) :
    Settled w w' := by
  refine ⟨fun n c' hc' => ?_, hx, hacc, new, htrace, hnew⟩
  obtain ⟨c, hc, hb⟩ := slot_of_view (v := .bare) hr.symm hc'
  exact ⟨c, hc, session_of_bare hb.symm⟩

/-- So do writes to other fields. -/
theorem Settled.of_modify {w v : World} (fd : Nat) {f : ClientConnection → ClientConnection}
    (hf : ∀ c, (f c).session = c.session) (h : Settled w v) : Settled w (v.modify fd f) := by
  refine ⟨fun n c' hc' => ?_, h.exchange, h.accepts, h.sent⟩
  rw [slot_modify] at hc'
  split at hc'
  · obtain ⟨d, hd, rfl⟩ := Option.map_eq_some_iff.mp hc'
    obtain ⟨c, hc, hs⟩ := h.sessions n d hd
    exact ⟨c, hc, (hf d).trans hs⟩
  · exact h.sessions n c' hc'

theorem Outcome.removeIfDone {w : World} {s : World × Bool} (h : Settled w s.1) {fd : Nat}
    {c : ClientConnection} (hc : s.1.slot fd = some c) : Outcome w (removeIfDone fd s) := by
  unfold SocketExchange.removeIfDone
  split
  · exact .left h hc
  · exact .settled h

/-- **What an act does, when it is not a line.** -/
theorem outcome_act {w : World} (hw : Housed w) {a : Act}
    (ha : ∀ fd line, a ≠ .client fd (.command line)) : Outcome w (act w a) := by
  cases a with
  | supply sock heap =>
    exact .settled (.of_roster rfl rfl rfl (List.append_nil _).symm (by simp))
  | accept fd grown calloced armed =>
    rw [act]
    split
    · exact .settled (.refl w)
    · rename_i hopen
      have hcases := acceptClient_cases hw.table hopen (hw.slot_none hopen) grown calloced armed
      split at hcases
      · exact .came hcases
      · refine .settled ⟨fun n c' hc' => ⟨c', hcases.slot n ▸ hc', rfl⟩, hcases.exchange,
          hcases.accepts, [], ?_, by simp⟩
        rw [hcases.trace, List.append_nil]
  | client fd a =>
    cases hc : w.slot fd with
    | none =>
      simp only [act, hc]
      exact .settled (.refl w)
    | some c =>
      simp only [act, hc]
      cases a with
      | applied => exact .settled (.of_roster rfl rfl rfl rfl (by simp))
      | received got =>
        have hn : Settled w (w.note (.read c.serial (inbufSize - c.inlen) got)) :=
          .of_roster rfl rfl rfl rfl (by simp)
        exact .settled (hn.of_modify fd fun _ => rfl)
      | buffered f => exact .settled ((Settled.refl w).of_modify fd fun _ => rfl)
      | command line => exact absurd rfl (ha fd line)
      | overlong =>
        obtain ⟨c', hc', -⟩ := rejectLine_slot fd hc
        have hr : (rejectLine fd w).1.roster = w.roster := reply_roster _ _ _
        have htrace : (rejectLine fd w).1.trace = w.trace ++ [_, .handed _] :=
          List.append_assoc _ _ _
        refine .removeIfDone (s := rejectLine fd w)
          (.of_roster hr rfl rfl htrace fun x hx => ?_) hc'
        rcases List.mem_cons.mp hx with hx | hx
        · cases hx
        · cases List.mem_singleton.mp hx
          exact .inr ⟨_, rfl⟩
      | flush =>
        have hr := flushClient_roster fd w
        obtain ⟨c', hc', -⟩ := slot_of_view (v := .bare) hr hc
        exact .removeIfDone (s := flushClient fd w) (.of_roster hr rfl rfl rfl (by simp)) hc'
      | drop => exact .left (.refl w) hc

/-- An order behind a removal was there before it, but for the descriptor it names. -/
theorem order_of_removed {fd : Nat} {w : World} {o' : Order}
    (ho' : o' ∈ (removeClient fd w).exchange.orderbook.orders) :
    ∃ o ∈ w.exchange.orderbook.orders, o'.submitter = o.submitter ∧ o'.id = o.id := by
  rw [removeClient_exchange, Exchange.depart, orders_detach] at ho'
  obtain ⟨o, ho, rfl⟩ := List.mem_map.mp ho'
  exact ⟨o, ho, detach_submitter _ _, detach_id _ _⟩

theorem roles_removeIfDone {s : World × Bool} (hw : Roles s.1) {fd : Nat} {c : ClientConnection}
    (hc : s.1.slot fd = some c) : Roles (removeIfDone fd s) := by
  unfold removeIfDone
  split
  · exact hw.of_sessions (owned_removeClient hw.owned hc)
      (fun n c' hc' => ⟨c', slot_of_removed hc', rfl⟩) fun o' ho' =>
        (order_of_removed ho').imp fun _ h => ⟨h.1, h.2.1⟩
  · exact hw

/-- **Every act keeps roles.** -/
theorem roles_act {w : World} (hw : Roles w) (a : Act) : Roles (act w a) := by
  have howned := owned_act hw.owned a
  by_cases ha : ∃ fd line, a = .client fd (.command line)
  · obtain ⟨fd, line, rfl⟩ := ha
    cases hc : w.slot fd with
    | none =>
      simp only [act, hc]
      exact hw
    | some c =>
      simp only [act, hc, serve]
      obtain ⟨c', hc', -⟩ := processLine_slot fd hc line
      exact roles_removeIfDone (roles_processLine hw hc line) hc'
  · push Not at ha
    have hout := outcome_act hw.owned.housed ha
    generalize act w a = w' at howned hout
    cases hout with
    | settled h => exact hw.of_sessions howned h.sessions fun o ho => ⟨o, h.exchange ▸ ho, rfl⟩
    | left h hc =>
      refine hw.of_sessions howned (fun n c' hc' => h.sessions n c' (slot_of_removed hc'))
        fun o' ho' => ?_
      obtain ⟨o, ho, hs, -⟩ := order_of_removed ho'
      exact ⟨o, h.exchange ▸ ho, hs⟩
    | came h => exact roles_registered hw howned h

theorem roles_init (serverFd : Nat) (others : List Nat) : Roles (.init serverFd others) := by
  refine ⟨owned_init serverFd others, fun n c hc => ?_, fun n c n' c' hc => ?_, fun o ho => ?_⟩
  · rw [init_slot] at hc
    cases hc
  · rw [init_slot] at hc
    cases hc
  · cases ho

theorem roles_of_reachable {w : World} (hw : Reachable w) : Roles w :=
  hw.invariant roles_init fun _ a h => roles_act h a

/-! ## 4. Who is sent what -/

/-- `ORDER_ACCEPTED`, `ORDER_CANCELLED`, `BOUGHT` or `SOLD` -/
def isOrderMessage (msg : Bytes) : Bool :=
  (lit "ORDER_ACCEPTED ").isPrefixOf msg || (lit "ORDER_CANCELLED ").isPrefixOf msg
    || (lit "BOUGHT ").isPrefixOf msg || (lit "SOLD ").isPrefixOf msg

/-- `TRADE` -/
def isTradeMessage (msg : Bytes) : Bool := (lit "TRADE ").isPrefixOf msg

/-- The receiver is connected and has this role. -/
def ReceiverIs (w : World) (x : Handed) (type : ClientType) : Prop :=
  ∃ fd c, w.slot fd = some c ∧ c.serial = x.receiver ∧ c.type = type

/-- **A message its receiver has a right to.** -/
structure Rightful (w : World) (x : Handed) : Prop where
  order : isOrderMessage x.msg = true → ReceiverIs w x .trader
  trade : isTradeMessage x.msg = true → ReceiverIs w x .market

theorem isOrderMessage_of_error (text : Bytes) :
    isOrderMessage (69 :: text) = false ∧ isTradeMessage (69 :: text) = false := by
  have h1 : lit "ORDER_ACCEPTED " = 79 :: lit "RDER_ACCEPTED " := by decide
  have h2 : lit "ORDER_CANCELLED " = 79 :: lit "RDER_CANCELLED " := by decide
  have h3 : lit "BOUGHT " = 66 :: lit "OUGHT " := by decide
  have h4 : lit "SOLD " = 83 :: lit "OLD " := by decide
  have h5 : lit "TRADE " = 84 :: lit "RADE " := by decide
  rw [isOrderMessage, isTradeMessage, h1, h2, h3, h4, h5]
  exact ⟨rfl, rfl⟩

theorem rightful_reply {w : World} {x : Handed} (h : IsReply x.msg) : Rightful w x := by
  have hno : isOrderMessage x.msg = false ∧ isTradeMessage x.msg = false := by
    rcases h with h | ⟨reason, h⟩
    · rw [h]
      decide
    · rw [h]
      exact isOrderMessage_of_error _
  exact ⟨fun ho => absurd (hno.1 ▸ ho) (by decide), fun ht => absurd (hno.2 ▸ ht) (by decide)⟩

/-- What an accepted order sends: the acknowledgement to its trader, then what its fills tell. -/
theorem acceptOrder_rightful {w : World} (hw : Roles w) {self : Nat} {c : ClientConnection}
    (hc : w.slot self = some c) (hself : c.type = .trader) (ord : Order)
    (hfd : ord.clientFd = (c.clientFd : Int)) (hsub : ord.submitter = c.serial) :
    ∃ new, (acceptOrder ord self w).1.trace = w.trace ++ new ∧
      ∀ x, .handed x ∈ new → Rightful w x := by
  have hconn := conn_of_slot hc
  obtain ⟨hs, htrace, hwhat⟩ := acceptOrder_trace ord self w
  refine ⟨_, htrace, fun x hx => ?_⟩
  obtain ⟨y, hy, hyx⟩ := List.mem_map.mp hx
  cases hyx
  have hmem : x.what ∈ hs.map Handed.what := List.mem_map_of_mem hy
  rw [hwhat] at hmem
  obtain ⟨d, hd, hdx⟩ := List.mem_map.mp hmem
  simp only [Handed.what, Prod.mk.injEq] at hdx
  obtain ⟨-, hrecv, -, hmsg⟩ := hdx
  rcases List.mem_cons.mp hd with rfl | hd
  · -- the acknowledgement
    refine ⟨fun _ => ⟨self, c, hc, ?_, hself⟩, fun ht => ?_⟩
    · rw [← hrecv, hconn]
    · rw [← hmsg] at ht
      cases ht
  have hord : OwnedBy w ord.clientFd ord.submitter := by
    have hb := badge_of_slot hc
    refine .inl ⟨self, ?_, _, hsub ▸ hb⟩
    rw [hfd, hw.owned.housed.own _ _ _ hb]
  have hrest : ∀ o ∈ w.exchange.orderbook.orders, OwnedBy w o.clientFd o.submitter :=
    fun o ho => (hw.owned.orders o ho).1
  obtain ⟨e, he⟩ := deliveries_live hd
  have hconn' := conn_of_slot he
  rw [hconn'] at hrecv
  -- whoever an execution names as a party is a trader
  have hparty : ∀ k, (k = ord.submitter ∨ ∃ o ∈ w.exchange.orderbook.orders, k = o.submitter) →
      d.about = some k → e.type = .trader := by
    intro k hk ha
    have hserial := deliveries_told hrest hord hd ha
    rw [hconn'] at hserial
    rcases hk with hk | ⟨o, ho, hk⟩
    · have hb := badge_of_slot he
      rw [hserial, hk, hsub] at hb
      have hfd := hw.owned.housed.distinct _ _ _ _ _ hb (badge_of_slot hc)
      rw [hfd, hc, Option.some.injEq] at he
      rw [← he]
      exact hself
    · exact hw.owners o ho d.fd e he (hserial.trans hk)
  obtain ⟨fill, hfill, hkind⟩ := deliveries_kind hd
  obtain ⟨cur, hcur, qty, rfl, -⟩ := addOrder_fill hfill
  obtain ⟨hbuyer, hseller⟩ : (∀ k, (fillOf ord cur qty).buyer = k → k = ord.submitter ∨
        ∃ o ∈ w.exchange.orderbook.orders, k = o.submitter) ∧
      ∀ k, (fillOf ord cur qty).seller = k → k = ord.submitter ∨
        ∃ o ∈ w.exchange.orderbook.orders, k = o.submitter := by
    unfold fillOf
    split
    · exact ⟨fun _ h => .inl h.symm, fun _ h => .inr ⟨cur, hcur, h.symm⟩⟩
    · exact ⟨fun _ h => .inr ⟨cur, hcur, h.symm⟩, fun _ h => .inl h.symm⟩
  rw [hmsg] at hkind
  rcases hkind with ⟨ha, hm⟩ | ⟨ha, hm⟩ | ⟨-, hm, hwant⟩
  · refine ⟨fun _ => ⟨d.fd, e, he, hrecv, hparty _ (hbuyer _ rfl) ha⟩, fun ht => ?_⟩
    rw [hm] at ht
    cases ht
  · refine ⟨fun _ => ⟨d.fd, e, he, hrecv, hparty _ (hseller _ rfl) ha⟩, fun ht => ?_⟩
    rw [hm] at ht
    cases ht
  · refine ⟨fun ho => ?_, fun _ => ⟨d.fd, e, he, hrecv, ?_⟩⟩
    · rw [hm] at ho
      cases ho
    · rw [he] at hwant
      simp only [wantsTrades, Bool.and_eq_true, beq_iff_eq] at hwant
      exact hwant.1

/-- **What a line sends, it sends to those who have a right to it.** -/
theorem Answer.rightful {self : Nat} {w w' : World} {r : Response} (h : Answer self w r w')
    (hw : Roles w) {c : ClientConnection} (hc : w.slot self = some c) :
    ∃ new, w'.trace = w.trace ++ new ∧ ∀ x, .handed x ∈ new → Rightful w x := by
  have hconn := conn_of_slot hc
  have hok : ∀ f : ClientConnection → ClientConnection, ∃ new,
      (reply self (lit "OK\n") (w.modify self f)).1.trace = w.trace ++ new ∧
        ∀ x, .handed x ∈ new → Rightful w x := by
    refine fun f => ⟨_, rfl, fun x hx => ?_⟩
    cases List.mem_singleton.mp hx
    exact rightful_reply (.inl rfl)
  have htrader : (w.conn self).loggedIn = true → c.type = .trader := fun hin =>
    (hw.role self c hc).login.mp (hconn ▸ hin)
  cases h with
  | error heap h =>
    refine ⟨_, rfl, fun x hx => ?_⟩
    cases List.mem_singleton.mp hx
    exact rightful_reply (.inr ⟨_, rfl⟩)
  | loggedIn hlen hrole hout hfree => exact hok _
  | subscribed inst hrole => exact hok _
  | unsubscribed inst hrole hsub => exact hok _
  | quit => exact hok _
  | @accepted heap side inst quantity price hq hp hin ord hord =>
    have hw' : Roles { w with heap := heap } :=
      hw.of_sessions (owned_act hw.owned (.supply w.sock heap)) (fun n c' hc' => ⟨c', hc', rfl⟩)
        fun o ho => ⟨o, ho, rfl⟩
    obtain ⟨new, htrace, hright⟩ := acceptOrder_rightful hw' hc (htrader hin) ord
      (by rw [hord, hconn]; rfl) (by rw [hord, hconn]; rfl)
    exact ⟨new, htrace, fun x hx => ⟨(hright x hx).order, (hright x hx).trade⟩⟩
  | @cancelled id r hin hid h =>
    refine ⟨_, List.append_assoc _ _ _, fun x hx => ?_⟩
    rcases List.mem_cons.mp hx with hx | hx
    · cases hx
    · cases List.mem_singleton.mp hx
      refine ⟨fun _ => ⟨self, c, hc, ?_, htrader hin⟩, fun ht => ?_⟩
      · show c.serial = (w.conn self).serial
        rw [hconn]
      · cases ht

/-! ## 5. Roles over whole runs -/

/-- Connections that were there before have the role they had. -/
structure Persist (w w' : World) : Prop where
  accepts : w.accepts ≤ w'.accepts
  role : ∀ fd c', w'.slot fd = some c' → c'.serial < w.accepts →
    ∃ c, w.slot fd = some c ∧ c.serial = c'.serial ∧ (c.type ≠ .none → c'.type = c.type)

namespace Persist

theorem refl (w : World) : Persist w w :=
  ⟨le_refl _, fun _ c' hc' _ => ⟨c', hc', rfl, fun _ => rfl⟩⟩

theorem trans {u v w : World} (h : Persist u v) (h' : Persist v w) : Persist u w := by
  refine ⟨h.accepts.trans h'.accepts, fun fd c' hc' hk => ?_⟩
  obtain ⟨d, hd, hser, htype⟩ := h'.role fd c' hc' (lt_of_lt_of_le hk h.accepts)
  obtain ⟨c, hc, hser', htype'⟩ := h.role fd d hd (hser ▸ hk)
  refine ⟨c, hc, hser'.trans hser, fun hne => ?_⟩
  rw [htype (by rw [htype' hne]; exact hne), htype' hne]

theorem settled {w w' : World} (h : Settled w w') : Persist w w' := by
  refine ⟨h.accepts.ge, fun fd c' hc' _ => ?_⟩
  obtain ⟨c, hc, hs⟩ := h.sessions fd c' hc'
  obtain ⟨hser, htype, -⟩ := fields_of_session hs
  exact ⟨c, hc, hser.symm, fun _ => htype⟩

theorem removed (fd : Nat) (w : World) : Persist w (removeClient fd w) :=
  ⟨(removeClient_accepts fd w).ge,
    fun _ c' hc' _ => ⟨c', slot_of_removed hc', rfl, fun _ => rfl⟩⟩

theorem removeIfDone {w : World} {s : World × Bool} (h : Persist w s.1) (fd : Nat) :
    Persist w (removeIfDone fd s) := by
  unfold SocketExchange.removeIfDone
  split
  · exact h.trans (removed fd s.1)
  · exact h

theorem registered {w w' : World} {fd : Nat} (h : Registered w fd w') : Persist w w' := by
  refine ⟨by rw [h.accepts]; omega, fun n c' hc' hk => ?_⟩
  rw [h.slot] at hc'
  split at hc'
  · cases hc'
    exact absurd hk (lt_irrefl _)
  · exact ⟨c', hc', rfl, fun _ => rfl⟩

/-- A line changes the role of its client only, and only if it had none. -/
theorem processLine {w : World} (hw : Roles w) {fd : Nat} {c : ClientConnection}
    (hc : w.slot fd = some c) (line : Bytes) : Persist w (processLine line fd w).1 := by
  have hacc := (processLine_kept line fd w).accepts
  by_cases hblank : ∀ b ∈ cstr line, isSpace b = true
  · rw [processLine_blank hblank]
    exact ⟨le_refl _, fun _ c' hc' _ => ⟨c', hc', rfl, fun _ => rfl⟩⟩
  obtain ⟨r, ha⟩ := processLine_answer hblank fd w
  obtain ⟨d, c1, hchange, hs1, hbare⟩ := ha.change (c := c) hc
  refine ⟨hacc.ge, fun n c' hc' _ => ?_⟩
  by_cases hn : n = fd
  · subst hn
    rw [hs1, Option.some.injEq] at hc'
    subst hc'
    obtain ⟨hser, htype, -⟩ := fields_of_session (session_of_bare hbare)
    obtain ⟨hser', hstay, -⟩ := hchange.type (hw.role n c hc)
    exact ⟨c, hc, by rw [hser, hser'], fun hne => by rw [htype, hstay hne]⟩
  · obtain ⟨e, he, hbare⟩ := slot_of_bare ((processLine_handling fd w line).others hn) hc'
    obtain ⟨hser, htype, -⟩ := fields_of_session (session_of_bare hbare)
    exact ⟨e, he, hser.symm, fun _ => htype⟩

end Persist

theorem persist_act {w : World} (hw : Roles w) (a : Act) : Persist w (act w a) := by
  by_cases ha : ∃ fd line, a = .client fd (.command line)
  · obtain ⟨fd, line, rfl⟩ := ha
    cases hc : w.slot fd with
    | none =>
      simp only [act, hc]
      exact .refl w
    | some c =>
      simp only [act, hc, serve]
      exact (Persist.processLine hw hc line).removeIfDone fd
  · push Not at ha
    have hout := outcome_act hw.owned.housed ha
    generalize act w a = w' at hout
    cases hout with
    | settled h => exact .settled h
    | left h hc => exact (Persist.settled h).trans (.removed _ _)
    | came h => exact .registered h

theorem persist_run : ∀ (as : List Act) {w : World}, Roles w → Persist w (Run.run act w as)
  | [], w, _ => .refl w
  | a :: as, _, hw => (persist_act hw a).trans (persist_run as (roles_act hw a))

/-- **Every act sends what its receivers have a right to.** -/
theorem rightful_act {w : World} (hw : Roles w) (a : Act) :
    ∃ new, (act w a).trace = w.trace ++ new ∧ ∀ x, .handed x ∈ new → Rightful w x := by
  by_cases ha : ∃ fd line, a = .client fd (.command line)
  · obtain ⟨fd, line, rfl⟩ := ha
    cases hc : w.slot fd with
    | none =>
      simp only [act, hc]
      exact ⟨[], (List.append_nil _).symm, by simp⟩
    | some c =>
      simp only [act, hc, serve]
      by_cases hblank : ∀ b ∈ cstr line, isSpace b = true
      · rw [processLine_blank hblank]
        exact removeIfDone_hands fd _ [_] rfl (by simp)
      · obtain ⟨r, hans⟩ := processLine_answer hblank fd w
        have hw1 : Roles (w.note (.line (w.conn fd).serial line)) :=
          hw.of_sessions (owned_note hw.owned rfl) (fun n c' hc' => ⟨c', hc', rfl⟩)
            fun o ho => ⟨o, ho, rfl⟩
        obtain ⟨new, htrace, hnew⟩ := hans.rightful hw1 (c := c) hc
        refine removeIfDone_hands fd _ (.line (w.conn fd).serial line :: new) ?_ fun x hx => ?_
        · rw [htrace, trace_note, List.append_assoc, List.singleton_append]
        · rcases List.mem_cons.mp hx with hx | hx
          · cases hx
          · exact ⟨(hnew x hx).order, (hnew x hx).trade⟩
  · push Not at ha
    have hout := outcome_act hw.owned.housed ha
    generalize act w a = w' at hout
    cases hout with
    | settled h =>
      obtain ⟨new, htrace, hnew⟩ := h.sent
      exact ⟨new, htrace, fun x hx => rightful_reply (hnew x hx)⟩
    | @left v fd c h hc =>
      obtain ⟨new, htrace, hnew⟩ := h.sent
      exact removeIfDone_hands fd (v, true) new htrace fun x hx => rightful_reply (hnew x hx)
    | came h => exact ⟨_, h.trace, by simp⟩

/-- What an act does to the book and to the counter. -/
inductive BookStep (w : World) (a : Act) : Prop
  | unchanged (hbook : (act w a).exchange.orderbook = w.exchange.orderbook)
      (hid : (act w a).exchange.nextOrderId = w.exchange.nextOrderId)
  | line {fd : Nat} {line : Bytes} {c : ClientConnection} (ha : a = .client fd (.command line))
      (hc : w.slot fd = some c) (htype : c.type = .trader)
  /-- a trader goes, and its orders name nobody -/
  | left {fd : Nat} {c : ClientConnection} (hc : w.slot fd = some c) (htype : c.type = .trader)
      (hgone : (act w a).slot fd = none)
      (hbook : (act w a).exchange.orderbook = detachClientOrders w.exchange.orderbook fd)
      (hid : (act w a).exchange.nextOrderId = w.exchange.nextOrderId)

/-- No order names the descriptor of one who is no trader. -/
theorem detach_of_not_trader {w : World} (hw : Roles w) {fd : Nat} {c : ClientConnection}
    (hc : w.slot fd = some c) (htype : c.type ≠ .trader) :
    detachClientOrders w.exchange.orderbook fd = w.exchange.orderbook := by
  refine LimitOrderBook.ext_get fun head => ?_
  rw [get_detachClientOrders, detachIn]
  conv_rhs => rw [← List.map_id (w.exchange.orderbook.get head)]
  refine List.map_congr_left fun o ho => ?_
  unfold detach
  split
  · rename_i hfd
    have hmem : o ∈ w.exchange.orderbook.orders := mem_orders_of_mem_get ho
    rcases (hw.owned.orders o hmem).1 with ⟨n, hn, f, hf⟩ | ⟨hn, -⟩
    · rw [Int.natCast_inj.mp (hn.symm.trans hfd)] at hf
      obtain ⟨e, he, hser, -⟩ := slot_of_badge hf
      rw [hc, Option.some.injEq] at he
      exact absurd (hw.owners o hmem fd c hc (he ▸ hser)) htype
    · omega
  · rfl

/-- **Only a trader's line, and the removal of a trader, touch the book.** -/
theorem bookStep_act {w : World} (hw : Roles w) (a : Act) : BookStep w a := by
  by_cases ha : ∃ fd line, a = .client fd (.command line)
  · obtain ⟨fd, line, rfl⟩ := ha
    cases hc : w.slot fd with
    | none => exact .unchanged (by simp only [act, hc]) (by simp only [act, hc])
    | some c =>
      by_cases htype : c.type = .trader
      · exact .line rfl hc htype
      -- the exchange is what it was, and no order is the client's
      have hx : (processLine line fd w).1.exchange = w.exchange := by
        by_cases hblank : ∀ b ∈ cstr line, isSpace b = true
        · rw [processLine_blank hblank]
          rfl
        · obtain ⟨r, hans⟩ := processLine_answer hblank fd w
          rcases hans.exchange with h | h
          · exact h
          · rw [conn_note, conn_of_slot hc] at h
            exact absurd ((hw.role fd c hc).login.mp h) htype
      have hdone : (act w (.client fd (.command line))).exchange = w.exchange := by
        simp only [act, hc, serve, removeIfDone]
        split
        · rw [removeClient_exchange, hx, Exchange.depart, detach_of_not_trader hw hc htype]
        · exact hx
      exact .unchanged (by rw [hdone]) (by rw [hdone])
  · push Not at ha
    have hout := outcome_act hw.owned.housed ha
    generalize hw' : act w a = w' at hout
    cases hout with
    | settled h => exact .unchanged (by rw [hw', h.exchange]) (by rw [hw', h.exchange])
    | @left v fd c h hc =>
      have hx : (removeClient fd v).exchange = w.exchange.depart fd := by
        rw [removeClient_exchange, h.exchange]
      obtain ⟨e, he, hs⟩ := h.sessions fd c hc
      by_cases htype : e.type = .trader
      · refine .left he htype ?_ (by rw [hw', hx]; rfl) (by rw [hw', hx]; rfl)
        rw [hw', removeClient_slot, if_pos rfl]
      · refine .unchanged ?_ (by rw [hw', hx]; rfl)
        rw [hw', hx]
        exact detach_of_not_trader hw he htype
    | came h => exact .unchanged (by rw [hw', h.exchange]) (by rw [hw', h.exchange])

/-- What roles are in every state. -/
structure RolesSafe (w : World) : Prop where
  login : ∀ fd c, w.slot fd = some c → (c.loggedIn = true ↔ c.type = .trader)
  subscription : ∀ fd c inst, w.slot fd = some c → c.subscribed inst = true → c.type = .market
  names : ∀ fd c fd' c', w.slot fd = some c → w.slot fd' = some c' →
    c.loggedIn = true → c'.loggedIn = true → c.username = c'.username → fd = fd'

/-- **Roles, names and rights.**  In every state there is one role for a connection and one
connection for a name; a role that is taken stays; each message goes to one who has a right to
it; and the book and the counter are changed by the lines of traders, apart from the mark that
the removal of a trader leaves on its orders.  The main loop runs through such states. -/
theorem roles_and_rights (serverFd : Nat) (others : List Nat) :
    (∀ as : List Act, RolesSafe (Run.run act (.init serverFd others) as)) ∧
    (∀ as bs : List Act, Persist (Run.run act (.init serverFd others) as)
      (Run.run act (.init serverFd others) (as ++ bs))) ∧
    (∀ (as : List Act) (a : Act),
      (∃ new, (act (Run.run act (.init serverFd others) as) a).trace
          = (Run.run act (.init serverFd others) as).trace ++ new ∧
        ∀ x, .handed x ∈ new → Rightful (Run.run act (.init serverFd others) as) x) ∧
      BookStep (Run.run act (.init serverFd others) as) a) ∧
    ∀ os : List Occurrence,
      (∃ as, Run.run dispatch (.init serverFd others) os = Run.run act (.init serverFd others) as) ∧
      ∃ as, shutdown (Run.run dispatch (.init serverFd others) os)
        = Run.run act (.init serverFd others) as := by
  have hroles : ∀ as : List Act, Roles (Run.run act (.init serverFd others) as) := fun as =>
    roles_of_reachable ⟨serverFd, others, as, rfl⟩
  refine ⟨fun as => ?_, fun as bs => ?_, fun as a => ?_, fun os => ?_⟩
  · exact ⟨fun fd c hc => ((hroles as).role fd c hc).login,
      fun fd c inst hc => ((hroles as).role fd c hc).subscription inst, (hroles as).names⟩
  · rw [Run.run_append]
    exact persist_run bs (hroles as)
  · exact ⟨rightful_act (hroles as) a, bookStep_act (hroles as) a⟩
  · have hrun := server_steps os (.init serverFd others)
    constructor
    · obtain ⟨as, -, has⟩ := hrun
      exact ⟨as, has.symm⟩
    · obtain ⟨as, -, has⟩ := hrun.trans (shutdown_steps _)
      exact ⟨as, has.symm⟩

/-- A seller drops its connection, and its resting order names nobody any more. -/
theorem book_marked_by_departure :
    ¬ ∀ (as : List Act) (a : Act),
      ((act (Run.run act (.init 3 []) as) a).exchange.orderbook
          ≠ (Run.run act (.init 3 []) as).exchange.orderbook ∨
        (act (Run.run act (.init 3 []) as) a).exchange.nextOrderId
          ≠ (Run.run act (.init 3 []) as).exchange.nextOrderId) →
      ∃ fd line c, a = .client fd (.command line) ∧
        (Run.run act (.init 3 []) as).slot fd = some c ∧ c.type = .trader := by
  intro h
  obtain ⟨fd, line, c, ha, -⟩ := h market (.client 5 .drop) (.inl (by decide +kernel))
  cases ha

end SocketExchange
