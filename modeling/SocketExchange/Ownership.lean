/-
# Who owns an order

An order names its owner by descriptor, and descriptors are given out again.  Here the owner
is the connection that submitted the order, by number.  `Owned` says that the descriptor an
order names is the slot of that very connection while it is connected, and -1 once it is gone;
`Housed` says that the table and the open descriptors agree, which is what makes a descriptor
that `accept` returns the descriptor of nobody.

Both are kept by every act, one case for each way a line can be handled, one for a removal and
one for a registration; `owned_of_reachable` and `order_ownership` are the run-level results.
-/
import SocketExchange.Steps

namespace SocketExchange

open CText

/-! ## 1. The invariants -/

/-- **The table and the open descriptors agree.** -/
structure Housed (w : World) : Prop where
  own : ∀ fd k f, w.badge fd = some (k, f) → f = fd
  known : ∀ fd k f, w.badge fd = some (k, f) → k < w.accepts
  isOpen : ∀ fd k f, w.badge fd = some (k, f) → fd ∈ w.opened ∧ fd ≠ w.serverFd
  distinct : ∀ fd fd' k f f', w.badge fd = some (k, f) → w.badge fd' = some (k, f') → fd = fd'
  listening : w.serverFd ∈ w.opened
  table : 0 < w.currCap

/-- The owner of an order is connected under the descriptor the order names, or it is gone and
the order names nobody. -/
def OwnedBy (w : World) (clientFd : Int) (submitter : Nat) : Prop :=
  (∃ fd : Nat, clientFd = fd ∧ ∃ f, w.badge fd = some (submitter, f)) ∨
    clientFd = -1 ∧ ∀ fd f, w.badge fd ≠ some (submitter, f)

/-- **Every resting order is owned by its submitter, or by nobody**; and what was sent about an
order or cancelled was sent to, or cancelled by, its submitter. -/
structure Owned (w : World) : Prop where
  housed : Housed w
  orders : ∀ o ∈ w.exchange.orderbook.orders,
    OwnedBy w o.clientFd o.submitter ∧ o.submitter < w.accepts
  positive : ∀ o ∈ w.exchange.orderbook.orders, 0 < o.quantity
  told : ∀ h, .handed h ∈ w.trace → ∀ k, h.about = some k → h.receiver = k
  cancelled : ∀ k o, .cancelled k o ∈ w.trace → o.submitter = k

/-- The same connections in the same slots, and the same descriptors open. -/
structure Alike (w w' : World) : Prop where
  badge : ∀ n, w'.badge n = w.badge n
  opened : w'.opened = w.opened
  accepts : w'.accepts = w.accepts
  serverFd : w'.serverFd = w.serverFd
  currCap : w.currCap ≤ w'.currCap

theorem Kept.alike {w w' : World} (h : Kept w w') : Alike w w' :=
  ⟨badge_of_tenants h.tenants, h.opened, h.accepts, h.serverFd,
    le_of_eq (currCap_of_view h.tenants).symm⟩

theorem Refused.alike {w w' : World} (h : Refused w w') : Alike w w' :=
  ⟨fun n => by rw [World.badge, World.badge, h.slot], h.opened, h.accepts, h.serverFd, h.currCap⟩

theorem alike_of_conns {w w' : World} (hconns : w'.conns = w.conns) (hopen : w'.opened = w.opened)
    (hacc : w'.accepts = w.accepts) (hsrv : w'.serverFd = w.serverFd) : Alike w w' := by
  refine ⟨fun n => ?_, hopen, hacc, hsrv, ?_⟩
  · rw [World.badge, World.badge, World.slot, World.slot, hconns]
  · rw [World.currCap, World.currCap, hconns]

/-- A change of a connection that leaves its number and its descriptor. -/
theorem alike_modify (w : World) (fd : Nat) {f : ClientConnection → ClientConnection}
    (hf : ∀ c, ((f c).serial, (f c).clientFd) = (c.serial, c.clientFd)) :
    Alike w (w.modify fd f) := by
  refine ⟨fun n => ?_, rfl, rfl, rfl, le_of_eq (currCap_modify w fd f).symm⟩
  unfold World.badge
  rw [slot_modify]
  split
  · rw [Option.map_map]
    exact Option.map_congr fun c _ => hf c
  · rfl

theorem Housed.of_alike {w w' : World} (hw : Housed w) (h : Alike w w') : Housed w' where
  own := by simpa only [h.badge] using hw.own
  known := by simpa only [h.badge, h.accepts] using hw.known
  isOpen := by simpa only [h.badge, h.opened, h.serverFd] using hw.isOpen
  distinct := by simpa only [h.badge] using hw.distinct
  listening := by
    rw [h.opened, h.serverFd]
    exact hw.listening
  table := lt_of_lt_of_le hw.table h.currCap

theorem OwnedBy.of_alike {w w' : World} (h : Alike w w') {fd : Int} {k : Nat}
    (ho : OwnedBy w fd k) : OwnedBy w' fd k := by
  unfold OwnedBy at *
  simpa only [h.badge] using ho

/-- The connection in slot `fd`, for a filled slot. -/
theorem badge_conn {w : World} {fd : Nat} {c : ClientConnection} (hc : w.slot fd = some c) :
    w.badge fd = some ((w.conn fd).serial, (w.conn fd).clientFd) := by
  rw [badge_of_slot hc, conn_of_slot hc]

/-! ## 2. What is sent about an order -/

/-- A notification goes to the owner. -/
theorem notification_to_owner {w : World} {clientFd : Int} {k : Nat} (h : OwnedBy w clientFd k)
    {msg : Bytes} {d : Delivery} (hd : d ∈ notification w clientFd k msg) :
    d.about = some k ∧ (w.conn d.fd).serial = k := by
  unfold notification at hd
  split at hd
  · simp at hd
  · rename_i hcond
    rw [List.mem_singleton] at hd
    subst hd
    rcases h with ⟨fd, rfl, f, hf⟩ | ⟨rfl, -⟩
    · obtain ⟨c, hc, hk, -⟩ := slot_of_badge hf
      exact ⟨rfl, by rw [Int.toNat_natCast, conn_of_slot hc, hk]⟩
    · omega

/-- So is everything an order's fills send about an order. -/
theorem deliveries_told {w : World} {ord : Order} {heap : List Bool}
    (hrest : ∀ o ∈ w.exchange.orderbook.orders, OwnedBy w o.clientFd o.submitter)
    (hord : OwnedBy w ord.clientFd ord.submitter) {d : Delivery}
    (hd : d ∈ deliveries w (addOrder w.exchange.orderbook ord heap).fills) {k : Nat}
    (hk : d.about = some k) : (w.conn d.fd).serial = k := by
  obtain ⟨f, hf, hd⟩ := List.mem_flatMap.mp hd
  obtain ⟨cur, hcur, qty, rfl, -⟩ := addOrder_fill hf
  have hbuy : OwnedBy w (fillOf ord cur qty).buyClientFd (fillOf ord cur qty).buyer := by
    unfold fillOf
    split
    · exact hord
    · exact hrest cur hcur
  have hsell : OwnedBy w (fillOf ord cur qty).sellClientFd (fillOf ord cur qty).seller := by
    unfold fillOf
    split
    · exact hrest cur hcur
    · exact hord
  unfold fillDeliveries at hd
  rcases List.mem_append.mp hd with hd | hd
  · rcases List.mem_append.mp hd with hd | hd
    · obtain ⟨ha, hs⟩ := notification_to_owner hbuy hd
      rw [ha] at hk
      exact hs.trans (Option.some.inj hk)
    · obtain ⟨ha, hs⟩ := notification_to_owner hsell hd
      rw [ha] at hk
      exact hs.trans (Option.some.inj hk)
  · obtain ⟨j, -, rfl⟩ := List.mem_map.mp hd
    cases hk

/-! ## 3. Lines -/

/-- A step that leaves the connections and the book, and notes nothing about an order. -/
theorem Owned.of_alike {w w' : World} (hw : Owned w) (h : Alike w w')
    (hbook : w'.exchange.orderbook = w.exchange.orderbook)
    (htold : ∀ x, .handed x ∈ w'.trace → .handed x ∈ w.trace ∨ x.about = none)
    (hcanc : ∀ k o, .cancelled k o ∈ w'.trace → .cancelled k o ∈ w.trace) : Owned w' where
  housed := hw.housed.of_alike h
  orders := by
    intro o ho
    rw [hbook] at ho
    obtain ⟨h1, h2⟩ := hw.orders o ho
    exact ⟨h1.of_alike h, by rw [h.accepts]; exact h2⟩
  positive := by
    rw [hbook]
    exact hw.positive
  told := by
    intro x hx k hk
    rcases htold x hx with hx | hx
    · exact hw.told x hx k hk
    · rw [hx] at hk
      cases hk
  cancelled := fun k o ho => hw.cancelled k o (hcanc k o ho)

/-- A step that only adds notes of another kind. -/
theorem Owned.of_notes {w w' : World} (hw : Owned w) (h : Alike w w')
    (hbook : w'.exchange.orderbook = w.exchange.orderbook) {new : List Obs}
    (htrace : w'.trace = w.trace ++ new) (hnew : ∀ o ∈ new, o.isOutput = false) : Owned w' := by
  have hold : ∀ o ∈ w'.trace, o.isOutput = true → o ∈ w.trace := by
    intro o ho hout
    rw [htrace, List.mem_append] at ho
    rcases ho with ho | ho
    · exact ho
    · rw [hnew o ho] at hout
      cases hout
  exact hw.of_alike h hbook (fun x hx => .inl (hold _ hx rfl)) fun k o ho => hold _ ho rfl

theorem Owned.heap {w : World} (hw : Owned w) (heap : List Bool) : Owned { w with heap := heap } :=
  hw.of_alike ⟨fun _ => rfl, rfl, rfl, rfl, le_refl _⟩ rfl (fun _ hx => .inl hx) fun _ _ ho => ho

/-- A note that is no message and no cancellation. -/
theorem owned_note {w : World} (hw : Owned w) {o : Obs} (ho : o.isOutput = false) :
    Owned (w.note o) :=
  hw.of_notes ⟨fun _ => rfl, rfl, rfl, rfl, le_refl _⟩ rfl rfl (by simpa using ho)

/-- A reply is about nothing. -/
theorem owned_reply {w : World} (hw : Owned w) (self : Nat) (msg : Bytes) :
    Owned (reply self msg w).1 := by
  refine hw.of_alike (reply_kept self msg w).alike rfl ?_ ?_
  · intro x hx
    rcases List.mem_append.mp hx with hx | hx
    · exact .inl hx
    · rw [List.mem_singleton] at hx
      cases hx
      exact .inr rfl
  · intro k o ho
    rcases List.mem_append.mp ho with ho | ho
    · exact ho
    · simp at ho

theorem owned_modify {w : World} (hw : Owned w) (self : Nat)
    (f : ClientConnection → ClientConnection) (hf : ∀ c, (f c).fixed = c.fixed) :
    Owned (w.modify self f) :=
  hw.of_alike (modify_kept self f hf w).alike rfl (fun _ hx => .inl hx) (fun _ _ ho => ho)

/-- **An accepted order** is its submitter's, and everyone else's stay theirs. -/
theorem owned_acceptOrder {w : World} (hw : Owned w) {self : Nat} {c : ClientConnection}
    (hc : w.slot self = some c) {ord : Order} (hfd : ord.clientFd = (w.conn self).clientFd)
    (hsub : ord.submitter = (w.conn self).serial) : Owned (acceptOrder ord self w).1 := by
  have hkept := acceptOrder_kept ord self w
  have hbadge := badge_conn hc
  have hord : OwnedBy w ord.clientFd ord.submitter :=
    .inl ⟨self, by rw [hfd, hw.housed.own _ _ _ hbadge], _, by rw [hsub]; exact hbadge⟩
  obtain ⟨hs, htrace, hwhat⟩ := acceptOrder_trace ord self w
  have hbook : (acceptOrder ord self w).1.exchange.orderbook
      = (addOrder w.exchange.orderbook ord w.heap).book := by
    rw [acceptOrder_exchange]
    rfl
  -- an order in the book is what is left of one that was there, or of the new one
  have hfrom : ∀ o' ∈ (acceptOrder ord self w).1.exchange.orderbook.orders,
      0 < o'.quantity ∧ ∃ o, (o ∈ w.exchange.orderbook.orders ∨ o = ord) ∧
        o'.clientFd = o.clientFd ∧ o'.submitter = o.submitter := by
    intro o' ho'
    rw [hbook] at ho'
    obtain ⟨head, hhead⟩ := LimitOrderBook.mem_orders.mp ho'
    rcases addOrder_remnant hw.positive ord w.heap hhead with ⟨o, ho, hr, hq, -⟩ | ⟨-, hr, hq, -⟩
    · exact ⟨hq, o, .inl (mem_orders_of_mem_get ho), by rw [hr], by rw [hr]⟩
    · exact ⟨hq, ord, .inr rfl, by rw [hr], by rw [hr]⟩
  refine ⟨hw.housed.of_alike hkept.alike, ?_, fun o ho => (hfrom o ho).1, ?_, ?_⟩
  · intro o' ho'
    obtain ⟨-, o, ho | rfl, h1, h2⟩ := hfrom o' ho' <;> rw [h1, h2, hkept.accepts]
    · exact ⟨(hw.orders o ho).1.of_alike hkept.alike, (hw.orders o ho).2⟩
    · exact ⟨hord.of_alike hkept.alike, by rw [hsub]; exact hw.housed.known _ _ _ hbadge⟩
  · intro x hx k hk
    rw [htrace, List.mem_append] at hx
    rcases hx with hx | hx
    · exact hw.told x hx k hk
    · obtain ⟨y, hy, hyx⟩ := List.mem_map.mp hx
      cases hyx
      have hmem : x.what ∈ hs.map Handed.what := List.mem_map_of_mem hy
      rw [hwhat] at hmem
      obtain ⟨d, hd, hdx⟩ := List.mem_map.mp hmem
      simp only [Handed.what, Prod.mk.injEq] at hdx
      obtain ⟨-, hrecv, habout, -⟩ := hdx
      rw [← habout] at hk
      rw [← hrecv]
      rcases List.mem_cons.mp hd with rfl | hd
      · cases hk
      · exact deliveries_told (fun o ho => (hw.orders o ho).1) hord hd hk
  · intro k o ho
    rw [htrace, List.mem_append] at ho
    rcases ho with ho | ho
    · exact hw.cancelled k o ho
    · simp at ho

/-- **A cancellation** takes out an order of the client who asks for it. -/
theorem owned_cancel {w : World} (hw : Owned w) {self : Nat} {c : ClientConnection}
    (hc : w.slot self = some c) {id : Int} {r : Order × Exchange}
    (hr : w.exchange.cancel id (w.conn self).clientFd = some r) :
    Owned ({ w with exchange := r.2 }.note (.cancelled (w.conn self).serial r.1)) := by
  obtain ⟨x, hx, rfl⟩ := Option.map_eq_some_iff.mp hr
  obtain ⟨head, pre, post, hget, hset, -, hfd⟩ := cancelOrder_eq_some hx
  have hbadge := badge_conn hc
  have hmem : x.1 ∈ w.exchange.orderbook.orders :=
    mem_orders_of_mem_get (by rw [hget]; simp)
  have hsub : ∀ o ∈ x.2.orders, o ∈ w.exchange.orderbook.orders := by
    intro o ho
    obtain ⟨k, hk⟩ := LimitOrderBook.mem_orders.mp ho
    rw [hset] at hk
    by_cases hkh : k = head
    · subst hkh
      rw [LimitOrderBook.get_set_self] at hk
      refine mem_orders_of_mem_get (?_ : o ∈ w.exchange.orderbook.get k)
      rw [hget]
      simp only [List.mem_append, List.mem_cons] at hk ⊢
      tauto
    · rw [LimitOrderBook.get_set_ne hkh] at hk
      exact mem_orders_of_mem_get hk
  refine ⟨?_, fun o ho => hw.orders o (hsub o ho), fun o ho => hw.positive o (hsub o ho), ?_, ?_⟩
  · exact ⟨hw.housed.own, hw.housed.known, hw.housed.isOpen, hw.housed.distinct,
      hw.housed.listening, hw.housed.table⟩
  · intro y hy
    rcases List.mem_append.mp hy with hy | hy
    · exact hw.told y hy
    · simp at hy
  · intro k o ho
    rcases List.mem_append.mp ho with ho | ho
    · exact hw.cancelled k o ho
    · rw [List.mem_singleton] at ho
      cases ho
      -- the order names the client's descriptor, so the client is its owner
      rcases (hw.orders x.1 hmem).1 with ⟨fd, hfd', f, hf⟩ | ⟨hfd', -⟩
      · rw [hfd, hw.housed.own _ _ _ hbadge] at hfd'
        rw [← Int.natCast_inj.mp hfd', hbadge] at hf
        exact (congrArg Prod.fst (Option.some.inj hf)).symm
      · rw [hfd, hw.housed.own _ _ _ hbadge] at hfd'
        omega

/-- **A line keeps ownership**, however it is handled. -/
theorem owned_handling {w : World} (hw : Owned w) {self : Nat} {c : ClientConnection}
    (hc : w.slot self = some c) {q : Bool} {o : Option (Order × List Bool)} {r : World × Bool}
    (h : Handling self w q o r) :
    Owned r.1 := by
  cases h with
  | silent => exact hw
  | replied heap f hf hrole hmsg =>
    exact owned_reply (owned_modify (hw.heap heap) self f fun c => (hf c).1) self _
  | quit =>
    exact owned_reply (owned_modify hw self (fun c => { c with closing := true }) fun _ => rfl)
      self _
  | accepted heap side inst hq hp hin hord =>
    subst hord
    exact owned_acceptOrder (hw.heap heap) hc rfl rfl
  | cancelled hr => exact owned_reply (owned_cancel hw hc hr) self _

theorem owned_processLine {w : World} (hw : Owned w) {self : Nat} {c : ClientConnection}
    (hc : w.slot self = some c) (line : Bytes) : Owned (processLine line self w).1 :=
  owned_handling (owned_note hw rfl) (w := w.note _) hc (processLine_handling self w line)

/-! ## 4. Removals and registrations -/

theorem orders_detach (book : LimitOrderBook) (fd : Int) :
    (detachClientOrders book fd).orders = book.orders.map (detach fd) := by
  simp [detachClientOrders, LimitOrderBook.orders, detachIn]

/-- The badges after a removal. -/
theorem removeClient_badge (fd : Nat) (w : World) (n : Nat) :
    (removeClient fd w).badge n = if n = fd then none else w.badge n := by
  unfold World.badge
  rw [removeClient_slot]
  split <;> rfl

theorem badge_of_removed {fd n k f : Nat} {w : World}
    (h : (removeClient fd w).badge n = some (k, f)) : n ≠ fd ∧ w.badge n = some (k, f) := by
  rw [removeClient_badge] at h
  split at h
  · cases h
  · rename_i hn
    exact ⟨hn, h⟩

theorem housed_removeClient {w : World} (hw : Housed w) {fd : Nat} {c : ClientConnection}
    (hc : w.slot fd = some c) : Housed (removeClient fd w) where
  own := fun n k f h => hw.own n k f (badge_of_removed h).2
  known := by
    intro n k f h
    rw [removeClient_accepts]
    exact hw.known n k f (badge_of_removed h).2
  isOpen := by
    intro n k f h
    obtain ⟨hn, hb⟩ := badge_of_removed h
    obtain ⟨h1, h2⟩ := hw.isOpen n k f hb
    rw [removeClient_opened, removeClient_serverFd, List.mem_filter]
    exact ⟨⟨h1, by simpa using hn⟩, h2⟩
  distinct := fun n n' k f f' h h' =>
    hw.distinct n n' k f f' (badge_of_removed h).2 (badge_of_removed h').2
  listening := by
    rw [removeClient_opened, removeClient_serverFd, List.mem_filter]
    exact ⟨hw.listening, by simpa using (hw.isOpen fd _ _ (badge_conn hc)).2.symm⟩
  table := by
    rw [removeClient_currCap]
    exact hw.table

/-- **A removal** leaves the removed client's orders to nobody before its descriptor is
closed. -/
theorem owned_removeClient {w : World} (hw : Owned w) {fd : Nat} {c : ClientConnection}
    (hc : w.slot fd = some c) : Owned (removeClient fd w) := by
  refine ⟨housed_removeClient hw.housed hc, ?_, ?_, ?_, ?_⟩
  · intro o' ho'
    rw [removeClient_exchange] at ho'
    rw [Exchange.depart, orders_detach] at ho'
    obtain ⟨o, ho, rfl⟩ := List.mem_map.mp ho'
    obtain ⟨howner, hlt⟩ := hw.orders o ho
    rw [detach_submitter, removeClient_accepts]
    refine ⟨?_, hlt⟩
    have hgone : (∀ n f, w.badge n = some (o.submitter, f) → n = fd) →
        ∀ n f, (removeClient fd w).badge n ≠ some (o.submitter, f) := by
      intro h n f hb
      obtain ⟨hn, hb'⟩ := badge_of_removed hb
      exact hn (h n f hb')
    unfold detach
    split
    · rename_i heq
      -- the order names the removed client, which was its owner
      refine .inr ⟨rfl, hgone fun n f hb => ?_⟩
      rcases howner with ⟨fd', hfd', f', hf'⟩ | ⟨hfd', -⟩
      · rw [heq] at hfd'
        rw [Int.natCast_inj.mp hfd']
        exact hw.housed.distinct _ _ _ _ _ hb hf'
      · omega
    · rename_i hne
      rcases howner with ⟨fd', hfd', f', hf'⟩ | ⟨hfd', hno⟩
      · refine .inl ⟨fd', hfd', f', ?_⟩
        rw [removeClient_badge, if_neg (fun h => hne (by rw [hfd', h]))]
        exact hf'
      · exact .inr ⟨hfd', hgone fun n f hb => absurd hb (hno n f)⟩
  · intro o' ho'
    rw [removeClient_exchange, Exchange.depart, orders_detach] at ho'
    obtain ⟨o, ho, rfl⟩ := List.mem_map.mp ho'
    rw [detach_quantity]
    exact hw.positive o ho
  · intro h hh
    rw [removeClient_trace hc, List.mem_append] at hh
    rcases hh with hh | hh
    · exact hw.told h hh
    · simp at hh
  · intro k o ho
    rw [removeClient_trace hc, List.mem_append] at ho
    rcases ho with ho | ho
    · exact hw.cancelled k o ho
    · simp at ho

theorem owned_removeIfDone {s : World × Bool} (hw : Owned s.1) {fd : Nat} {c : ClientConnection}
    (hc : s.1.slot fd = some c) : Owned (removeIfDone fd s) := by
  unfold removeIfDone
  split
  · exact owned_removeClient hw hc
  · exact hw

/-- A descriptor that is not open is nobody's. -/
theorem Housed.slot_none {w : World} (hw : Housed w) {fd : Nat} (h : fd ∉ w.opened) :
    w.slot fd = none := by
  cases hs : w.slot fd with
  | none => rfl
  | some c => exact absurd (hw.isOpen fd _ _ (badge_of_slot hs)).1 h

theorem badge_of_registered {w w' : World} {fd n k f : Nat} (h : Registered w fd w')
    (hb : w'.badge n = some (k, f)) :
    (n = fd ∧ k = w.accepts ∧ f = fd) ∨ n ≠ fd ∧ w.badge n = some (k, f) := by
  unfold World.badge at hb
  rw [h.slot] at hb
  split at hb
  · rename_i hn
    cases hb
    exact .inl ⟨hn, rfl, rfl⟩
  · rename_i hn
    exact .inr ⟨hn, hb⟩

theorem housed_registered {w w' : World} (hw : Housed w) {fd : Nat} (h : fd ∉ w.opened)
    (hreg : Registered w fd w') : Housed w' := by
  have hcase := fun {n k f} => @badge_of_registered w w' fd n k f hreg
  refine ⟨?_, ?_, ?_, ?_, ?_, lt_of_lt_of_le hw.table hreg.currCap⟩
  · intro n k f hb
    rcases hcase hb with ⟨rfl, -, rfl⟩ | ⟨-, hb⟩
    · rfl
    · exact hw.own n k f hb
  · intro n k f hb
    rw [hreg.accepts]
    rcases hcase hb with ⟨-, rfl, -⟩ | ⟨-, hb⟩
    · exact Nat.lt_succ_self _
    · exact Nat.lt_succ_of_lt (hw.known n k f hb)
  · intro n k f hb
    rw [hreg.opened, hreg.serverFd]
    rcases hcase hb with ⟨rfl, -, -⟩ | ⟨-, hb⟩
    · exact ⟨List.mem_cons_self, fun heq => h (heq ▸ hw.listening)⟩
    · obtain ⟨h1, h2⟩ := hw.isOpen n k f hb
      exact ⟨List.mem_cons_of_mem _ h1, h2⟩
  · intro n n' k f f' hb hb'
    rcases hcase hb with ⟨hn, hk, -⟩ | ⟨-, hold⟩ <;>
      rcases hcase hb' with ⟨hn', hk', -⟩ | ⟨-, hold'⟩
    · rw [hn, hn']
    · exact absurd (hw.known _ _ _ hold') (by omega)
    · exact absurd (hw.known _ _ _ hold) (by omega)
    · exact hw.distinct n n' k f f' hold hold'
  · rw [hreg.opened, hreg.serverFd]
    exact List.mem_cons_of_mem _ hw.listening

/-- **A registration** gives the descriptor to a connection with a number of its own. -/
theorem owned_acceptClient {w : World} (hw : Owned w) {fd : Nat} (h : fd ∉ w.opened)
    (grown calloced armed : Bool) : Owned (acceptClient fd grown calloced armed w) := by
  have hslot := hw.housed.slot_none h
  have hcases := acceptClient_cases hw.housed.table h hslot grown calloced armed
  split at hcases
  · refine ⟨housed_registered hw.housed h hcases, ?_, ?_, ?_, ?_⟩
    · intro o ho
      rw [hcases.exchange] at ho
      obtain ⟨howner, hlt⟩ := hw.orders o ho
      rw [hcases.accepts]
      refine ⟨?_, Nat.lt_succ_of_lt hlt⟩
      rcases howner with ⟨n, hn, f, hf⟩ | ⟨hn, hno⟩
      · have hne : n ≠ fd := fun heq => h (heq ▸ (hw.housed.isOpen n _ _ hf).1)
        refine .inl ⟨n, hn, f, ?_⟩
        rw [World.badge, hcases.slot, if_neg hne]
        exact hf
      · refine .inr ⟨hn, fun m f hb => ?_⟩
        rcases badge_of_registered hcases hb with ⟨-, hk, -⟩ | ⟨-, hb⟩
        · omega
        · exact hno m f hb
    · rw [hcases.exchange]
      exact hw.positive
    · intro x hx
      rw [hcases.trace, List.mem_append] at hx
      rcases hx with hx | hx
      · exact hw.told x hx
      · simp at hx
    · intro k o ho
      rw [hcases.trace, List.mem_append] at ho
      rcases ho with ho | ho
      · exact hw.cancelled k o ho
      · simp at ho
  · exact hw.of_notes hcases.alike (by rw [hcases.exchange])
      (hcases.trace.trans (List.append_nil _).symm) (by simp)

/-! ## 5. Runs -/

theorem owned_init (serverFd : Nat) (others : List Nat) : Owned (.init serverFd others) := by
  have hbadge : ∀ n, (World.init serverFd others).badge n = none := by
    intro n
    rw [World.badge, init_slot]
    rfl
  refine ⟨⟨?_, ?_, ?_, ?_, List.mem_cons_self,
    by simp [World.init, World.currCap, minCapacity]⟩, ?_, ?_, ?_, ?_⟩
  · intro n k f h
    rw [hbadge] at h
    cases h
  · intro n k f h
    rw [hbadge] at h
    cases h
  · intro n k f h
    rw [hbadge] at h
    cases h
  · intro n n' k f f' h
    rw [hbadge] at h
    cases h
  · exact fun o ho => by cases ho
  · exact fun o ho => by cases ho
  · exact fun h hh => by cases hh
  · exact fun k o ho => by cases ho

/-- A change of the buffer for reading. -/
theorem owned_buffered {w : World} (hw : Owned w) (fd : Nat)
    (f : ClientConnection → ClientConnection)
    (hf : ∀ c, ((f c).serial, (f c).clientFd) = (c.serial, c.clientFd)) : Owned (w.modify fd f) :=
  hw.of_notes (alike_modify w fd hf) rfl (List.append_nil _).symm (by simp)

theorem owned_flushClient {w : World} (hw : Owned w) (fd : Nat) : Owned (flushClient fd w).1 := by
  have ht := tenants_of_roster (flushClient_roster fd w)
  exact hw.of_notes ⟨badge_of_tenants ht, rfl, rfl, rfl, le_of_eq (currCap_of_view ht).symm⟩ rfl
    (trace_note _ _) (by simp [Obs.isOutput])

/-- **Every act keeps ownership**, one case for each kind. -/
theorem owned_act {w : World} (hw : Owned w) (a : Act) : Owned (act w a) := by
  cases a with
  | supply sock heap =>
    exact hw.of_notes ⟨fun _ => rfl, rfl, rfl, rfl, le_refl _⟩ rfl (List.append_nil _).symm
      (by simp)
  | accept fd grown calloced armed =>
    rw [act]
    split
    · exact hw
    · rename_i h
      exact owned_acceptClient hw h grown calloced armed
  | client fd a =>
    rw [act]
    split
    · exact hw
    · rename_i c hc
      cases a with
      | applied => exact owned_note hw rfl
      | received got => exact owned_buffered (owned_note hw rfl) fd _ fun _ => rfl
      | buffered f => exact owned_buffered hw fd _ fun _ => rfl
      | command line =>
        obtain ⟨c', hc', -⟩ := processLine_slot fd hc line
        exact owned_removeIfDone (owned_processLine hw hc line) hc'
      | overlong =>
        obtain ⟨c', hc', -⟩ := rejectLine_slot fd hc
        exact owned_removeIfDone (owned_reply (owned_note hw rfl) fd _) hc'
      | flush =>
        obtain ⟨c', hc', -⟩ := slot_of_view (v := .bare) (flushClient_roster fd w) hc
        exact owned_removeIfDone (owned_flushClient hw fd) hc'
      | drop => exact owned_removeClient hw hc

theorem owned_of_reachable {w : World} (hw : Reachable w) : Owned w :=
  hw.invariant owned_init fun _ a h => owned_act h a

theorem housed_of_reachable {w : World} (hw : Reachable w) : Housed w :=
  (owned_of_reachable hw).housed

/-- What ownership means for clients. -/
structure OwnershipSafe (w : World) : Prop where
  /-- while the submitter is connected, the order names its descriptor -/
  connected : ∀ o ∈ w.exchange.orderbook.orders, ∀ fd c, w.slot fd = some c →
    c.serial = o.submitter → o.clientFd = fd ∧ c.clientFd = fd
  /-- when it is gone, the order names nobody -/
  departed : ∀ o ∈ w.exchange.orderbook.orders,
    (∀ fd c, w.slot fd = some c → c.serial ≠ o.submitter) → o.clientFd = -1
  /-- every `BOUGHT` and `SOLD` was sent to the submitter of the order it reports -/
  told : ∀ h, .handed h ∈ w.trace → ∀ k, h.about = some k → h.receiver = k
  /-- every successful `CANCEL` was the submitter's -/
  cancelled : ∀ k o, .cancelled k o ∈ w.trace → o.submitter = k

theorem Owned.safe {w : World} (hw : Owned w) : OwnershipSafe w where
  connected := by
    intro o ho fd c hc hk
    have hb := badge_of_slot hc
    refine ⟨?_, hw.housed.own _ _ _ hb⟩
    rcases (hw.orders o ho).1 with ⟨n, hn, f, hf⟩ | ⟨-, hno⟩
    · rw [hk] at hb
      rw [hn, hw.housed.distinct _ _ _ _ _ hb hf]
    · rw [hk] at hb
      exact absurd hb (hno _ _)
  departed := by
    intro o ho hgone
    rcases (hw.orders o ho).1 with ⟨n, -, f, hf⟩ | ⟨h, -⟩
    · obtain ⟨c, hc, hk, -⟩ := slot_of_badge hf
      exact absurd hk (hgone n c hc)
    · exact h
  told := hw.told
  cancelled := hw.cancelled

/-- **Descriptors are reused, owners are not.**  In every state that accepts, lines, flushes,
ends of stream, errors and removals reach in any order, and in every state of the main loop and
after its tear-down, each resting order names its submitter's descriptor while the submitter is
connected and nobody once it is gone; and no `BOUGHT` or `SOLD` went to, and no `CANCEL`
succeeded for, anyone but the submitter. -/
theorem order_ownership (serverFd : Nat) (others : List Nat) :
    (∀ as : List Act, OwnershipSafe (Run.run act (.init serverFd others) as)) ∧
      ∀ os : List Occurrence, OwnershipSafe (Run.run dispatch (.init serverFd others) os) ∧
        OwnershipSafe (shutdown (Run.run dispatch (.init serverFd others) os)) := by
  have hinit : Reachable (.init serverFd others) := ⟨serverFd, others, [], rfl⟩
  refine ⟨fun as => ?_, fun os => ?_⟩
  · exact (owned_of_reachable ⟨serverFd, others, as, rfl⟩).safe
  · have hrun := hinit.steps (server_steps os _)
    exact ⟨(owned_of_reachable hrun).safe,
      (owned_of_reachable (hrun.steps (shutdown_steps _))).safe⟩

end SocketExchange
