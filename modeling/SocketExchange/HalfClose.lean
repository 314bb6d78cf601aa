/-
# A client that has nothing more to say

Both clients end their half of the connection when their input ends, and stay to collect what the
server still sends.  The server finds a `read` of 0 bytes then, and `communicate` asks for the
removal of the client at once: what waits in `outbuf` is dropped (`replies_dropped`).  Every
other way out looks after the replies.  A closing connection stays until it has drained, and a
line whose reply cannot be sent finds the output empty, or full.

`half_close` says that in every run the events that are no errors keep the replies if and only if
no `read` of such an event returns 0 while a reply waits.
-/
import SocketExchange.AfterQuit
import Mathlib.Data.List.DropRight

namespace SocketExchange

open CText

/-! ## 1. Replies that are written -/

/-- A reply to a line of `k`, written or queued. -/
def Handed.isReply (k : Nat) (h : Handed) : Bool :=
  h.issuer == k && h.receiver == k && h.about.isNone && !h.failed

/-- **The replies of a connection are written**: its socket has taken its stream as far as each
of them reaches. -/
def RepliesWritten (k : Nat) (trace : List Obs) : Prop :=
  ∀ pre h, pre ++ [h] <+: handedTo k trace → h.isReply k = true →
    (pre ++ [h]).flatMap Handed.part <+: writtenTo k trace

/-- A message to the connection found its output buffer too full. -/
def Overflowed (k : Nat) (trace : List Obs) : Prop :=
  ∃ pre h, pre ++ [.handed h] <+: trace ∧ h.receiver = k ∧ h.failed = true ∧
    outbufSize + (writtenTo k pre).length
      < ((handedTo k pre).flatMap Handed.part).length + (cstr h.msg).length

/-- No reply is lost, or the output buffer has overflowed. -/
def Spared (k : Nat) (trace : List Obs) : Prop := RepliesWritten k trace ∨ Overflowed k trace

theorem Overflowed.append {k : Nat} {trace : List Obs} (h : Overflowed k trace) (new : List Obs) :
    Overflowed k (trace ++ new) := by
  obtain ⟨pre, x, hpre, hx⟩ := h
  exact ⟨pre, x, hpre.trans (List.prefix_append _ _), hx⟩

/-- A prefix that ends in something the second list does not hold. -/
theorem prefix_of_append {α : Type} {pre l m : List α} {x : α} (h : pre ++ [x] <+: l ++ m)
    (hx : x ∉ m) : pre ++ [x] <+: l := by
  rcases List.prefix_or_prefix_of_prefix h (List.prefix_append l m) with hl | hl
  · exact hl
  · rcases List.prefix_concat_iff.mp hl with rfl | ⟨t, rfl⟩
    · exact List.prefix_rfl
    · rw [List.append_assoc, List.prefix_append_right_inj] at h
      exact absurd (h.subset (by simp)) hx

theorem RepliesWritten.append {k : Nat} {trace new : List Obs} (h : RepliesWritten k trace)
    (hnew : ∀ x ∈ handedTo k new, x.isReply k = false) : RepliesWritten k (trace ++ new) := by
  intro pre x hpre hx
  rw [handedTo_append] at hpre
  have hold : pre ++ [x] <+: handedTo k trace := prefix_of_append hpre fun hmem => by
    rw [hnew x hmem] at hx
    cases hx
  rw [writtenTo_append]
  exact (h pre x hold hx).trans (List.prefix_append _ _)

theorem Spared.append {k : Nat} {trace new : List Obs} (h : Spared k trace)
    (hnew : ∀ x ∈ handedTo k new, x.isReply k = false) : Spared k (trace ++ new) :=
  h.imp (·.append hnew) (·.append new)

/-- What has been written out is written. -/
theorem WrittenOut.replies {k : Nat} {trace : List Obs} (h : WrittenOut k trace) :
    RepliesWritten k trace := by
  intro pre x hpre _
  rw [show writtenTo k trace = _ from h]
  obtain ⟨post, hpost⟩ := hpre
  rw [← hpost]
  exact ⟨_, List.flatMap_append.symm⟩

/-! ## 2. A message that fails finds the output empty or full -/

/-- With something queued, only the lack of room makes a message fail. -/
theorem full_of_failed {env : SockEnv} {conn : ClientConnection} (h0 : conn.outlen ≠ 0)
    {data : Bytes} (h : (sendToClient env conn data).failed = true) :
    outbufSize < conn.outlen + data.length := by
  have hno := sendToClient_failed.mp h
  unfold Takes at hno
  rw [if_neg h0] at hno
  by_contra hroom
  refine hno (.inr ⟨fun hnone => absurd ?_ h0, by omega⟩)
  rw [ClientConnection.outlen, ClientConnection.pending, hnone]
  rfl

/-- **A message that fails loses no reply** that was queued before it, unless the buffer is too
full for it. -/
theorem spared_of_failed {w : World} (hw : Streamed w) (why : Cause) {fd : Nat}
    {c : ClientConnection} (hc : w.slot fd = some c) {line : Bytes}
    (h : (sendLine why fd line w).2 = true) : Spared c.serial (sendLine why fd line w).1.trace := by
  have hrecv : (handedOf why fd line w).receiver = c.serial := by
    rw [← conn_of_slot hc]
    rfl
  rw [sendLine_trace]
  by_cases h0 : c.outlen = 0
  · refine .inl ((writtenOut_of_drained hw hc h0).replies.append fun x hx => ?_)
    rw [handedTo_handed, if_pos hrecv, List.mem_singleton] at hx
    have hfailed : x.failed = true := hx ▸ h
    rw [Handed.isReply, hfailed, Bool.not_true, Bool.and_false]
  · refine .inr ⟨w.trace, _, List.prefix_rfl, hrecv, h, ?_⟩
    have hfailed : (sendToClient (w.sock fd) c (cstr line)).failed = true := by
      rw [← conn_of_slot hc]
      exact h
    have hfull := full_of_failed h0 hfailed
    have hstream := congrArg List.length (hw.stream fd c hc)
    rw [List.length_append] at hstream
    have hout : c.outlen = c.pending.length := rfl
    show outbufSize + _ < _ + (cstr line).length
    omega

/-- A delivery is no reply of its client. -/
theorem not_reply_of_delivery {w : World} (hw : Housed w) {self : Nat} {c : ClientConnection}
    (hc : w.slot self = some c) {d : Delivery} {e : ClientConnection} (he : w.slot d.fd = some e)
    (habout : d.fd = self → d.about.isSome = true) :
    (handedOf { self := self, about := d.about } d.fd d.msg w).isReply c.serial = false := by
  rw [Bool.eq_false_iff]
  intro h
  simp only [Handed.isReply, handedOf, Bool.and_eq_true, beq_iff_eq, conn_of_slot he] at h
  obtain ⟨⟨⟨-, hser⟩, hnone⟩, -⟩ := h
  have hfd : d.fd = self := by
    have h1 := badge_of_slot he
    rw [hser] at h1
    exact hw.distinct _ _ _ _ _ h1 (badge_of_slot hc)
  have hsome := habout hfd
  rw [Option.isNone_iff_eq_none] at hnone
  rw [hnone] at hsome
  cases hsome

/-- The deliveries of an order: if the flag is set, its client's replies are spared. -/
theorem foldl_hand_spared (self : Nat) {ds : List Delivery} {s : World × Bool}
    {c : ClientConnection} (hs : Streamed s.1) (hc : s.1.slot self = some c)
    (hds : ∀ d ∈ ds, (∃ e, s.1.slot d.fd = some e) ∧ (d.fd = self → d.about.isSome = true))
    (hflag : s.2 = true → Spared c.serial s.1.trace) (h : (ds.foldl (hand self) s).2 = true) :
    Spared c.serial (ds.foldl (hand self) s).1.trace := by
  have hboth := foldl_hand_keeps self (w := s.1)
    (I := fun t => Streamed t.1 ∧ (t.2 = true → Spared c.serial t.1.trace))
    (fun t d ht hI hd => ?_) hds rfl ⟨hs, hflag⟩
  · exact hboth.2 h
  · obtain ⟨hstreamed, hspared⟩ := hI
    obtain ⟨⟨e, he⟩, habout⟩ := hd
    obtain ⟨e', he', -⟩ := slot_of_view (v := .bare) ht he
    obtain ⟨c', hc', hb⟩ := slot_of_view (v := .bare) ht hc
    have hser : c'.serial = c.serial := (field_of_bare hb).1
    refine ⟨streamed_sendLine hstreamed _ he' _, fun hset => ?_⟩
    have hown := hstreamed.housed.own _ _ _ (badge_of_slot hc')
    rcases hand_failed hc' hown hset with hold | ⟨hself, hfailed⟩
    · refine (hspared hold).append fun x hx => ?_
      rw [handedTo_handed] at hx
      split at hx
      · rw [List.mem_singleton.mp hx, ← hser]
        exact not_reply_of_delivery hstreamed.housed hc' he' habout
      · cases hx
    · -- the notification of the client itself has failed
      rw [← hser]
      exact spared_of_failed hstreamed { self := self, about := d.about } (hself ▸ hc') hfailed

theorem acceptOrder_spared {w : World} (hw : Streamed w) {self : Nat} {c : ClientConnection}
    (hc : w.slot self = some c) (hin : c.loggedIn = true) (ord : Order)
    (h : (acceptOrder ord self w).2 = true) : Spared c.serial (acceptOrder ord self w).1.trace := by
  have h0 : Streamed { w with exchange := w.exchange.takeId ord } :=
    hw.of_conns rfl rfl rfl rfl (List.append_nil _).symm (by simp)
  have hack :
      (reply self (acceptedText ord.id) { w with exchange := w.exchange.takeId ord }).2 = true →
      Spared c.serial
        (reply self (acceptedText ord.id) { w with exchange := w.exchange.takeId ord }).1.trace :=
    spared_of_failed h0 _ hc
  have h1 := streamed_reply h0 self hc (acceptedText ord.id)
  have hroster := reply_roster self (acceptedText ord.id)
    { w with exchange := w.exchange.takeId ord }
  rw [acceptOrder_eq] at h ⊢
  generalize reply self (acceptedText ord.id) { w with exchange := w.exchange.takeId ord } = s
    at h hack h1 hroster ⊢
  obtain ⟨c', hc', hb⟩ := slot_of_view (v := .bare) hroster hc
  have hser := (field_of_bare hb).1
  have h2 : Streamed { s.1 with
      exchange := (w.exchange.takeId ord).enter ord w.heap
      heap := (addOrder w.exchange.orderbook ord w.heap).heap } :=
    h1.of_conns rfl rfl rfl rfl (List.append_nil _).symm (by simp)
  rw [← hser] at hack ⊢
  refine foldl_hand_spared self h2 hc' (fun d hd => ⟨?_, fun hfd => ?_⟩) hack h
  · obtain ⟨e, he⟩ := deliveries_live hd
    obtain ⟨e2, he2, -⟩ := slot_of_view (v := .bare) hroster he
    exact ⟨e2, he2⟩
  · have htrader := hw.roles self c hc hin
    have htext := (deliveries_text hd).2
    rw [hfd, hc] at htext
    exact htext (not_wantsTrades htrader _) (not_wantsTrades htrader _)

/-- **A line after which its client is removed** loses no reply, unless the buffer overflows. -/
theorem Handling.spared {self : Nat} {w : World} {q : Bool} {o : Option (Order × List Bool)}
    {r : World × Bool} (h : Handling self w q o r) (hw : Streamed w) {c : ClientConnection}
    (hc : w.slot self = some c) (hdone : r.2 = true) : Spared c.serial r.1.trace := by
  have hs := streamed_handling hw hc h
  cases h with
  | silent => cases hdone
  | replied heap f hf hrole hmsg =>
    obtain ⟨h1, h2⟩ := streamed_plain hw hc heap hf hrole
    have hser : (f c).serial = c.serial := congrArg Prod.fst (fields_of_plain hf c)
    exact hser ▸ spared_of_failed h1 _ h2 hdone
  | quit =>
    have h1 : Streamed (w.modify self fun c => { c with closing := true }) :=
      streamed_modify hw (fun _ => rfl) fun _ _ h => h
    have h2 := modify_slot self hc fun c => { c with closing := true }
    rw [quitUser, Bool.or_eq_true, beq_iff_eq] at hdone
    rcases hdone with hfailed | hdrained
    · have hspared := spared_of_failed h1 { self := self, about := none } h2 hfailed
      exact hspared
    · obtain ⟨c', hc', hb⟩ := slot_of_view (v := .bare) (reply_roster self (lit "OK\n") _) h2
      have hser : c'.serial = c.serial := (field_of_bare hb).1
      rw [conn_of_slot hc'] at hdrained
      exact .inl (hser ▸ (writtenOut_of_drained hs hc' hdrained).replies)
  | @accepted heap side inst quantity price hq hp hin ord hord =>
    have h0 : Streamed { w with heap := heap } :=
      hw.of_conns rfl rfl rfl rfl (List.append_nil _).symm (by simp)
    rw [conn_of_slot hc] at hin
    exact acceptOrder_spared h0 hc hin ord hdone
  | @cancelled id r hr =>
    have h0 : Streamed ({ w with exchange := r.2 }.note (.cancelled (w.conn self).serial r.1)) :=
      hw.of_conns rfl rfl rfl rfl (trace_note _ _) (by simp [Obs.isQuiet])
    exact spared_of_failed h0 _ (c := c) hc hdone

/-! ## 3. Where a `read` returns 0 -/

/-- What a connection was handed behind the last reply. -/
def behindReplies (k : Nat) (trace : List Obs) : List Handed :=
  (handedTo k trace).rtakeWhile fun h => !h.isReply k

/-- **No reply waits** on the connection in slot `fd`: the bytes queued for it are no more than
what came behind the last one. -/
def NoReplyWaits (k fd : Nat) (w : World) : Prop :=
  (w.conn fd).outlen ≤ ((behindReplies k w.trace).flatMap Handed.part).length

/-- The messages up to the last reply, and those behind it. -/
theorem behindReplies_split (k : Nat) (trace : List Obs) :
    ∃ front, handedTo k trace = front ++ behindReplies k trace ∧
      (front = [] ∨ ∃ pre x, front = pre ++ [x] ∧ x.isReply k = true) ∧
      ∀ x ∈ behindReplies k trace, x.isReply k = false := by
  refine ⟨(handedTo k trace).rdropWhile fun h => !h.isReply k,
    List.rdropWhile_append_rtakeWhile.symm, ?_, fun x hx => ?_⟩
  · by_cases hnil : (handedTo k trace).rdropWhile (fun h => !h.isReply k) = []
    · exact .inl hnil
    · have hlast := List.rdropWhile_last_not _ _ hnil
      exact .inr ⟨_, _, (List.dropLast_append_getLast hnil).symm, by simpa using hlast⟩
  · simpa using List.mem_rtakeWhile_imp hx

/-- The replies are written if and only if none of them waits. -/
theorem repliesWritten_iff {w : World} (hw : Streamed w) {fd : Nat} {c : ClientConnection}
    (hc : w.slot fd = some c) : RepliesWritten c.serial w.trace ↔ NoReplyWaits c.serial fd w := by
  obtain ⟨front, hsplit, hends, hbehind⟩ := behindReplies_split c.serial w.trace
  have hstream := hw.stream fd c hc
  rw [hsplit, List.flatMap_append] at hstream
  have hlen := congrArg List.length hstream
  rw [List.length_append, List.length_append] at hlen
  have hout : (w.conn fd).outlen = c.pending.length := by rw [conn_of_slot hc]; rfl
  rw [NoReplyWaits, hout]
  constructor
  · intro h
    rcases hends with rfl | ⟨pre, x, rfl, hx⟩
    · rw [List.flatMap_nil, List.length_nil] at hlen
      omega
    · have := (h pre x (hsplit ▸ List.prefix_append _ _) hx).length_le
      omega
  · intro hle pre x hpre hx
    rw [hsplit] at hpre
    have hfront := prefix_of_append hpre fun hmem => by
      rw [hbehind x hmem] at hx
      cases hx
    have hsub : (pre ++ [x]).flatMap Handed.part <+: front.flatMap Handed.part := by
      obtain ⟨post, rfl⟩ := hfront
      exact ⟨_, List.flatMap_append.symm⟩
    refine hsub.trans (List.prefix_of_prefix_length_le ⟨_, rfl⟩ ⟨_, hstream⟩ ?_)
    omega

/-- The state in which a `read` returns 0, if the loop comes to that. -/
def atFin (fd : Nat) (rs : List ReadResult) (w : World) : Option World :=
  if readEnd fd rs w = .fin then some (readLoop fd rs w).1 else none

theorem error_of_turnEnd {fd : Nat} {r : ReadResult} {w : World}
    (h : turnEnd fd r w = .failed) : r = .error := by
  cases r with
  | error => rfl
  | data bytes =>
    rw [turnEnd] at h
    split at h <;> cases h
  | _ => cases h

/-- The loop ends with a failure only where `read` has failed. -/
theorem error_of_readEnd (fd : Nat) : ∀ (rs : List ReadResult) {w : World},
    readEnd fd rs w = .failed → .error ∈ rs
  | [], _, h => by cases h
  | r :: rs, w, h => by
    rw [readEnd] at h
    split at h
    · exact List.mem_cons_of_mem _ (error_of_readEnd fd rs h)
    · rw [error_of_turnEnd h]
      exact List.mem_cons_self

/-- **The end of the read loop**: if it asks for the removal of its client, `read` has returned 0
or failed, or no reply is lost. -/
theorem spared_of_read {fd k : Nat} {w : World} {e : ReadEnd} {r : World × Bool}
    (h : Reading fd w e r) (hw : Present fd k w) (hdone : r.2 = true) :
    e = .fin ∨ e = .failed ∨ Spared k r.1.trace := by
  cases h.present hw with
  | blocked hv => cases hdone
  | fin hv => exact .inl rfl
  | failed hv => exact .inr (.inl rfl)
  | @last v c hv text hc hend =>
    have hs : Streamed (v.note (.line (v.conn fd).serial text)) :=
      hv.streamed.of_conns rfl rfl rfl rfl (trace_note _ _) (by simp [Obs.isQuiet])
    have hspared := (processLine_handling fd v text).spared hs (c := c) hc hdone
    exact .inr (.inr (hv.slot hc ▸ hspared))
  | @refused v c hv hc hfail =>
    have hs : Streamed (v.note (.tooLong (v.conn fd).serial)) :=
      hv.streamed.of_conns rfl rfl rfl rfl (trace_note _ _) (by simp [Obs.isQuiet])
    have hspared := spared_of_failed hs { self := fd, about := none } (c := c) hc hfail
    exact .inr (.inr (hv.slot hc ▸ hspared))

/-! ## 4. The replies an event keeps -/

/-- The socket of the event is not broken: its peer has ended its half at most. -/
def Unbroken (o : Occurrence) : Prop := ¬ o.ev.isBroken ∧ .error ∉ o.reads

/-- **An event keeps the replies**: whoever is gone behind it has had them all written, unless
its output buffer has overflowed or the last `write` of the flush has failed. -/
def KeepsReplies (w : World) (o : Occurrence) : Prop :=
  ∀ fd c, w.slot fd = some c → (∀ c', (dispatch w o).slot fd = some c' → c'.serial ≠ c.serial) →
    Spared c.serial (dispatch w o).trace ∨ (o.ev.ident = fd ∧ o.ev.filter = .write ∧
      ∃ pre, (o.sock fd).writes = pre ++ .error :: ((dispatch w o).sock fd).writes)

/-- **The condition on an event**: if a `read` returns 0, no reply waits, or the buffer has
overflowed before. -/
def FinFlushed (w : World) (o : Occurrence) : Prop :=
  o.ev.ident ≠ w.serverFd → o.ev.filter = .read → ∀ c v, w.slot o.ev.ident = some c →
    c.closing = false → atFin o.ev.ident o.reads (w.serving o c) = some v →
    NoReplyWaits c.serial o.ev.ident v ∨ Overflowed c.serial v.trace

/-- A removal adds nothing to what is written, queued or lost. -/
theorem spared_removed {k n : Nat} {trace : List Obs} :
    Spared k (trace ++ [.removed n]) ↔ Spared k trace := by
  have hq : ∀ o ∈ [Obs.removed n], o.isQuiet = true := by simp [Obs.isQuiet]
  obtain ⟨h1, h2⟩ := quiet_notes hq k
  refine ⟨fun h => ?_, fun h => h.append fun x hx => by rw [h1] at hx; cases hx⟩
  rcases h with h | ⟨pre, x, hpre, hx⟩
  · refine .inl fun pre x hpre hx => ?_
    have := h pre x (by rwa [handedTo_append, h1, List.append_nil]) hx
    rwa [writtenTo_append, h2, List.append_nil] at this
  · exact .inr ⟨pre, x, prefix_of_append hpre (by simp), hx⟩

/-- The event of an open connection that became readable. -/
theorem dispatch_of_readable {w : World} {o : Occurrence} (hsrv : o.ev.ident ≠ w.serverFd)
    {c : ClientConnection} (hc : w.slot o.ev.ident = some c) (ho : Unbroken o)
    (hfilter : o.ev.filter = .read) (hopen : c.closing = false) :
    dispatch w o = removeIfDone o.ev.ident (readLoop o.ev.ident o.reads (w.serving o c)) := by
  have heq := dispatch_of_client hsrv hc ho.1
  rw [hfilter] at heq
  have hclosing : ((w.serving o c).conn o.ev.ident).closing = false := by
    rw [conn_of_slot (serving_slot.trans hc), hopen]
  rw [heq]
  dsimp only
  rw [communicate, hclosing, if_neg Bool.false_ne_true]

/-- Where a `read` returns 0 while a reply waits, the reply is lost. -/
theorem finFlushed_of_keeps {w : World} (hw : Streamed w) {o : Occurrence} (ho : Unbroken o)
    (h : KeepsReplies w o) : FinFlushed w o := by
  intro hsrv hfilter c v hc hopen hfin
  have heq := dispatch_of_readable hsrv hc ho hfilter hopen
  have hread := readLoop_reading o.ev.ident o.reads (w.serving o c) c hc hopen
  unfold atFin at hfin
  split at hfin
  · rename_i hend
    cases hfin
    rw [hend] at hread
    generalize readLoop o.ev.ident o.reads (w.serving o c) = r at heq hread ⊢
    have hfinish := hread.present ⟨serving_streamed hw o c, c, hc, rfl⟩
    have hpresent := hfinish.present
    obtain ⟨c', hc', hser⟩ := hpresent.there
    have hdone : r.2 = true := by
      cases hfinish
      rfl
    rw [removeIfDone, if_pos hdone] at heq
    have hgone : ∀ d, (dispatch w o).slot o.ev.ident = some d → d.serial ≠ c.serial := by
      intro d hd
      rw [heq, removeClient_slot, if_pos rfl] at hd
      cases hd
    rcases h o.ev.ident c hc hgone with hspared | ⟨-, hwrite, -⟩
    · rw [heq, removeClient_trace hc', spared_removed, ← hser] at hspared
      rw [← hser]
      exact hspared.imp_left (repliesWritten_iff hpresent.streamed hc').mp
    · rw [hfilter] at hwrite
      cases hwrite
  · cases hfin

/-- Everywhere else the code looks after the replies. -/
theorem keeps_of_finFlushed {w : World} (hw : Streamed w) {o : Occurrence} (ho : Unbroken o)
    (h : FinFlushed w o) : KeepsReplies w o := by
  intro fd c hc hgone
  by_cases hother : o.ev.ident = w.serverFd ∨ o.ev.ident ≠ fd
  · obtain ⟨c', hc', hser⟩ := stays_of_other hw.housed hc hother
    exact absurd hser (hgone c' hc')
  rw [not_or, not_not] at hother
  obtain ⟨hsrv, rfl⟩ := hother
  have heq := dispatch_of_client hsrv hc ho.1
  cases hfilter : o.ev.filter with
  | write =>
    rw [hfilter] at heq
    rw [heq] at hgone ⊢
    rcases written_of_flushed (serving_streamed hw o c) (serving_slot.trans hc) hgone with
      hout | herror
    · exact .inl (.inl hout.replies)
    · exact .inr ⟨rfl, rfl, herror⟩
  | read =>
    by_cases hclosing : c.closing = true
    · -- a closing connection is not read
      have hconn : ((w.serving o c).conn o.ev.ident).closing = true := by
        rw [conn_of_slot (serving_slot.trans hc), hclosing]
      rw [hfilter] at heq
      dsimp only at heq
      rw [communicate, if_pos hconn] at heq
      rw [heq] at hgone
      cases asks_of_gone (s := (w.serving o c, false)) (serving_slot.trans hc) rfl hgone
    · rw [Bool.not_eq_true] at hclosing
      have heq := dispatch_of_readable hsrv hc ho hfilter hclosing
      rw [heq] at hgone ⊢
      have hread := readLoop_reading o.ev.ident o.reads (w.serving o c) c hc hclosing
      have hw0 : Present o.ev.ident c.serial (w.serving o c) :=
        ⟨serving_streamed hw o c, c, hc, rfl⟩
      have hpresent := (hread.present hw0).present
      obtain ⟨c', hc', hser⟩ := hpresent.there
      have hdone := asks_of_gone hc' hser hgone
      refine .inl ?_
      rw [removeIfDone, if_pos hdone, removeClient_trace hc', spared_removed]
      rcases spared_of_read hread hw0 hdone with hfin | hfailed | hspared
      · have hflushed := h hsrv hfilter c _ hc hclosing (if_pos hfin)
        rw [← hser] at hflushed ⊢
        exact hflushed.imp_left (repliesWritten_iff hpresent.streamed hc').mpr
      · exact absurd (error_of_readEnd _ _ hfailed) ho.2
      · exact hspared

/-- **Half-close keeps the replies**: in every run, the events of sockets that are not broken keep
them if and only if no `read` of such an event returns 0 while a reply waits. -/
theorem half_close (serverFd : Nat) (others : List Nat) (os : List Occurrence) :
    Run.Meets dispatch (fun w o => Unbroken o → KeepsReplies w o) (.init serverFd others) os ↔
      Run.Meets dispatch (fun w o => Unbroken o → FinFlushed w o) (.init serverFd others) os := by
  refine Run.meets_congr (I := Reachable) (fun w o hw => reachable_dispatch hw o) (fun w o hw => ?_)
    os ⟨serverFd, others, [], rfl⟩
  have hs := streamed_of_reachable hw
  exact forall_congr' fun ho => ⟨finFlushed_of_keeps hs ho, keeps_of_finFlushed hs ho⟩

instance (o : Occurrence) : Decidable (Unbroken o) := by
  unfold Unbroken Kevent.isBroken; infer_instance

instance (k fd : Nat) (w : World) : Decidable (NoReplyWaits k fd w) := by
  unfold NoReplyWaits; infer_instance

/-- A client says something and ends its half. -/
def lastWords (fd : Nat) (bytes : Bytes) (sock : Nat → SockEnv) : Occurrence :=
  { readable fd bytes sock with reads := [.data bytes, .data []] }

/-- A trader logs in and has nothing more to say. -/
def loginAndEnd (sock : Nat → SockEnv) : List Occurrence :=
  [listening [5], lastWords 5 (lit "LOGIN ann\n") sock]

/-- Its socket takes the `OK`. -/
theorem half_close_willing :
    (∀ o ∈ loginAndEnd willing, Unbroken o) ∧
      Run.Meets dispatch (fun w o => Unbroken o → KeepsReplies w o) (.init 3 [])
        (loginAndEnd willing) ∧
      writtenTo 0 (Run.run dispatch (.init 3 []) (loginAndEnd willing)).trace = lit "OK\n" := by
  refine ⟨by decide, (half_close 3 [] (loginAndEnd willing)).mpr ⟨?_, ?_, trivial⟩,
    by decide +kernel⟩
  · exact fun _ h => absurd rfl h
  · intro _ _ _ c v hc _ hfin
    obtain rfl := conn_of_slot hc
    let w := dispatch (.init 3 []) (listening [5])
    let o := lastWords 5 (lit "LOGIN ann\n") willing
    have hall : (atFin 5 o.reads (w.serving o (w.conn 5))).all
        (fun v => decide (NoReplyWaits (w.conn 5).serial 5 v)) = true := by decide +kernel
    rw [show atFin 5 o.reads (w.serving o (w.conn 5)) = some v from hfin] at hall
    exact .inl (of_decide_eq_true
      (show decide (NoReplyWaits (w.conn 5).serial 5 v) = true from hall))

/-- **A reply is dropped**: the `OK` waits, for its socket takes nothing, when `read` returns
0. -/
theorem replies_dropped :
    ¬ ∀ os : List Occurrence, (∀ o ∈ os, Unbroken o) →
      Run.Meets dispatch KeepsReplies (.init 3 []) os := by
  intro h
  obtain ⟨-, hkeeps, -⟩ := h (loginAndEnd stuck) (by decide)
  let w := dispatch (.init 3 []) (listening [5])
  let w' := dispatch w (lastWords 5 (lit "LOGIN ann\n") stuck)
  let ok : Handed := { issuer := 0, receiver := 0, about := none, msg := lit "OK\n", wrote := []
                       failed := false }
  obtain ⟨c, hc⟩ : ∃ c, w.slot 5 = some c := Option.isSome_iff_exists.mp (by decide +kernel)
  have hser : c.serial = 0 := by
    have h0 : (w.conn 5).serial = 0 := by decide +kernel
    rwa [conn_of_slot hc] at h0
  have hgone : w'.slot 5 = none := by decide +kernel
  have hkept := hkeeps 5 c hc fun c' hc' => by
    have hc'' : w'.slot 5 = some c' := hc'
    rw [hgone] at hc''
    cases hc''
  rw [hser] at hkept
  rcases hkept with (hwritten | ⟨pre, x, hpre, hrecv, hfailed, -⟩) | ⟨-, hwrite, -⟩
  · have hone : [] ++ [ok] <+: handedTo 0 w'.trace := by decide +kernel
    have hnone : writtenTo 0 w'.trace = [] := by decide +kernel
    have hprefix : [ok].flatMap Handed.part <+: writtenTo 0 w'.trace := hwritten [] ok hone rfl
    rw [hnone] at hprefix
    exact absurd (List.prefix_nil.mp hprefix) (by decide)
  · -- no message has failed
    have hall : (handedTo 0 w'.trace).all (fun y => !y.failed) = true := by decide +kernel
    have hmem : x ∈ handedTo 0 w'.trace :=
      List.mem_filterMap.mpr ⟨.handed x, hpre.subset (by simp), if_pos hrecv⟩
    have hx : (!x.failed) = true := List.all_eq_true.mp hall x hmem
    rw [hfailed] at hx
    cases hx
  · cases hwrite

end SocketExchange
