/-
# What the output functions keep, the server keeps

Only `sendToClient` and `flushToClient` touch an output queue and the socket behind it.  So what
is said of a queue together with the answers its socket will give (`QueueProperty`) is kept by
the server when these two keep it, whatever lines are handled and whoever sends them
(`QueueProperty.steps`).
-/
import SocketExchange.Quits

namespace SocketExchange

open CText

/-! ## 1. The messages are short -/

theorem length_snprintf (size : Nat) (text : Bytes) : (snprintf size text).length ≤ size - 1 :=
  List.length_take_le _ _

theorem length_cstr (text : Bytes) : (cstr text).length ≤ text.length :=
  (List.takeWhile_prefix _).length_le

/-- A reply is `OK` or comes from the 64 bytes of `replyError`. -/
theorem length_reply {msg : Bytes} (h : IsReply msg) : msg.length ≤ outbufSize := by
  rcases h with rfl | ⟨reason, rfl⟩
  · decide
  · exact (length_snprintf 64 _).trans (by decide)

/-- A notification comes from the 128 bytes of `reportFill`. -/
theorem length_delivery {w : World} {fills : List Fill} {d : Delivery}
    (hd : d ∈ deliveries w fills) : d.msg.length ≤ outbufSize := by
  have hfill : ∀ verb fill, (fillText verb fill).length ≤ outbufSize := fun verb fill =>
    (length_snprintf 128 _).trans (by decide)
  obtain ⟨fill, -, ⟨-, h⟩ | ⟨-, h⟩ | ⟨-, h, -⟩⟩ := deliveries_kind hd <;>
  · rw [h]
    exact hfill _ _

/-! ## 2. Properties of a queue -/

/-- A property of an output queue and its socket that the output functions keep. -/
structure QueueProperty (Q : SockEnv → ClientConnection → Prop) : Prop where
  /-- of the connection, it looks at the queue only -/
  queue : ∀ {env c d}, Q env c → d.outbuf = c.outbuf → Q env d
  send : ∀ {env c} (data : Bytes), data.length ≤ outbufSize → Q env c →
    Q (sendToClient env c data).env (sendToClient env c data).conn
  flush : ∀ {env c}, Q env c → (flushToClient env c).failed = false →
    Q (flushToClient env c).env (flushToClient env c).conn

/-- The connection in this slot has the property, if there is one. -/
def HoldsAt (Q : SockEnv → ClientConnection → Prop) (w : World) (n : Nat) : Prop :=
  ∀ c, w.slot n = some c → Q (w.sock n) c

variable {Q : SockEnv → ClientConnection → Prop}

theorem HoldsAt.removed {w : World} {n : Nat} (h : HoldsAt Q w n) (fd : Nat) :
    HoldsAt Q (removeClient fd w) n := by
  intro c hc
  rw [removeClient_sock]
  exact h c (slot_of_removed hc)

/-- After a flush that does not remove its client. -/
theorem holdsAt_flush {w : World} {fd : Nat} {c : ClientConnection} (hc : w.slot fd = some c)
    {n : Nat} (hother : n ≠ fd → HoldsAt Q w n)
    (hself : n = fd → (flushToClient (w.sock fd) c).failed = false →
      Q (flushToClient (w.sock fd) c).env (flushToClient (w.sock fd) c).conn) :
    HoldsAt Q (removeIfDone fd (flushClient fd w)) n := by
  obtain ⟨hslots, hflag⟩ := flushClient_slot hc
  have hsock : ∀ n, (flushClient fd w).1.sock n
      = if n = fd then (flushToClient (w.sock fd) c).env else w.sock n := by
    intro n
    unfold flushClient
    rw [conn_of_slot hc]
    exact Function.update_apply _ _ _ _
  intro d hd
  unfold removeIfDone at hd ⊢
  split at hd
  · rename_i hdone
    rw [if_pos hdone, removeClient_sock, hsock]
    rw [removeClient_slot, hslots] at hd
    split at hd
    · cases hd
    · rename_i hn
      rw [if_neg hn]
      exact hother hn d hd
  · rename_i hdone
    rw [if_neg hdone, hsock]
    rw [hslots] at hd
    split at hd
    · rename_i hn
      rw [if_pos hn]
      rw [hflag, Bool.not_eq_true] at hdone
      rw [← Option.some.inj hd]
      exact hself hn hdone
    · rename_i hn
      rw [if_neg hn]
      exact hother hn d hd

namespace QueueProperty

variable (hQ : QueueProperty Q)

include hQ

/-- A change that leaves the queue leaves the property. -/
theorem modify {w : World} {n : Nat} (h : HoldsAt Q w n) (fd : Nat)
    {f : ClientConnection → ClientConnection} (hf : ∀ c, (f c).outbuf = c.outbuf) :
    HoldsAt Q (w.modify fd f) n := by
  intro d hd
  rw [slot_modify] at hd
  split at hd
  · obtain ⟨c, hc, rfl⟩ := Option.map_eq_some_iff.mp hd
    exact hQ.queue (h c hc) (hf c)
  · exact h d hd

/-- **A message keeps it**: for the one it goes to by `send`, for the others as nothing of theirs
is touched.  To an empty slot nothing is sent. -/
theorem sendLine {w : World} {n : Nat} (h : HoldsAt Q w n) (why : Cause) (fd : Nat) (line : Bytes)
    (hline : line.length ≤ outbufSize) : HoldsAt Q (sendLine why fd line w).1 n := by
  cases hs : w.slot fd with
  | none =>
    intro d hd
    have hne : n ≠ fd := by
      rintro rfl
      have hnone := (slot_none_of_view (v := .bare) (sendLine_roster why n line w)).mpr hs
      rw [hnone] at hd
      cases hd
    rw [sendLine_slot_ne why hne] at hd
    have hsock : (SocketExchange.sendLine why fd line w).1.sock n = w.sock n :=
      Function.update_of_ne hne _ _
    rw [hsock]
    exact h d hd
  | some c =>
    intro d hd
    rw [sendLine_slot why hs] at hd
    rw [sendLine_sock why hs]
    split at hd
    · rename_i hn
      subst hn
      rw [if_pos rfl, ← Option.some.inj hd]
      exact hQ.send _ ((length_cstr line).trans hline) (h c hs)
    · rename_i hn
      rw [if_neg hn]
      exact h d hd

/-- So do the notifications of an order, one after the other. -/
theorem foldl_hand (self : Nat) {n : Nat} {ds : List Delivery} {s : World × Bool}
    (hlen : ∀ d ∈ ds, d.msg.length ≤ outbufSize) (h : HoldsAt Q s.1 n) :
    HoldsAt Q (ds.foldl (hand self) s).1 n :=
  Run.run_invariant_of_mem (I := fun t : World × Bool => HoldsAt Q t.1 n)
    (fun _ d h hd => hQ.sendLine h _ d.fd d.msg hd) ds s hlen h

/-- **A line keeps it**, for its sender and for everybody else. -/
theorem handling {self : Nat} {w : World} {q : Bool} {o : Option (Order × List Bool)}
    {r : World × Bool} (hand : Handling self w q o r) {n : Nat} (h : HoldsAt Q w n) :
    HoldsAt Q r.1 n := by
  cases hand with
  | silent => exact h
  | @replied heap f hf hrole msg hmsg =>
    exact hQ.sendLine (hQ.modify (w := { w with heap := heap }) h self fun c => (hf c).2.2) _ self
      msg (length_reply hmsg)
  | quit =>
    have hclosing := hQ.modify h self (f := fun c => { c with closing := true }) fun _ => rfl
    exact hQ.sendLine hclosing { self := self, about := none } self (lit "OK\n")
      (length_reply (.inl rfl))
  | @accepted heap side inst quantity price hq hp hin ord hord =>
    rw [acceptOrder_eq]
    have hack := hQ.sendLine (w := { w with heap := heap, exchange := w.exchange.takeId ord }) h
      { self := self, about := none } self (acceptedText ord.id)
      ((length_snprintf 128 _).trans (by decide))
    exact hQ.foldl_hand self (fun d hd => length_delivery hd) hack
  | @cancelled id r hr =>
    have hnoted : HoldsAt Q ({ w with exchange := r.2 }.note
        (.cancelled (w.conn self).serial r.1)) n := fun c hc => h c hc
    have hlen : (cancelledText id).length ≤ outbufSize := (length_snprintf 128 _).trans (by decide)
    exact hQ.sendLine hnoted { self := self, about := none } self (cancelledText id) hlen

/-- **So do all acts of a client on its connection.** -/
theorem act {w : World} {fd n : Nat} (h : HoldsAt Q w n) {a : Act} (ha : OfClient fd a) :
    HoldsAt Q (act w a) n := by
  cases a with
  | supply sock heap => cases ha
  | accept clientFd grown calloced armed => cases ha
  | client k a =>
    rw [SocketExchange.act]
    split
    · exact h
    · rename_i c hc
      have hdone : ∀ s : World × Bool, HoldsAt Q s.1 n → HoldsAt Q (removeIfDone k s) n := by
        intro s hs
        unfold removeIfDone
        split
        · exact hs.removed k
        · exact hs
      cases a with
      | applied => exact h
      | received got => exact hQ.modify (w := w.note _) h k fun _ => rfl
      | buffered f => exact hQ.modify h k fun _ => rfl
      | command line =>
        exact hdone _ (hQ.handling (processLine_handling k w line) (w := w.note _) h)
      | overlong =>
        exact hdone _ (hQ.sendLine (w := w.note _) h _ k _ (length_reply (.inr ⟨_, rfl⟩)))
      | flush => exact holdsAt_flush hc (fun _ => h) fun hn hok => hQ.flush (hn ▸ h c (hn ▸ hc)) hok
      | drop => exact h.removed k

/-- And whatever they do in a row. -/
theorem steps {w w' : World} {fd n : Nat} (hs : Steps (OfClient fd) w w') (h : HoldsAt Q w n) :
    HoldsAt Q w' n :=
  hs.related (R := fun w w' => HoldsAt Q w n → HoldsAt Q w' n) (fun _ => id)
    (fun h1 h2 h => h2 (h1 h)) (fun _ _ ha h => hQ.act h ha) h

end QueueProperty

end SocketExchange
