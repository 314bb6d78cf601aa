/-
# What becomes of the messages

A connection's stream is what its socket has taken and what is queued behind it.
`streamed_of_reachable` says that in every reachable state it is the messages the connection
was handed, in order: each whole if `sendToClient` returned false.

A message that fails is another matter.  Its client is removed when the client's own line was
being handled.  A failure of anybody else is ignored, and so is the first failure of several
messages of one order to its own client.  `OrdersTaken` is the condition under which neither
happens, on the state before the order; `no_silent_loss` says that in a run whose orders all
meet it nobody is handed anything behind a message that failed, and nobody who is connected
has missed one.
-/
import SocketExchange.Output
import SocketExchange.Routing

namespace SocketExchange

open CText

/-! ## 1. The stream of a connection -/

/-- The messages a connection was handed, in order. -/
def handedTo (k : Nat) (trace : List Obs) : List Handed :=
  trace.filterMap fun
    | .handed h => if h.receiver = k then some h else none
    | _ => none

/-- What an observation says a connection's socket has taken. -/
def Obs.wroteTo (k : Nat) : Obs → Bytes
  | .handed h => if h.receiver = k then h.wrote else []
  | .flushed k' wrote => if k' = k then wrote else []
  | _ => []

/-- The bytes a connection's socket has taken. -/
def writtenTo (k : Nat) (trace : List Obs) : Bytes := trace.flatMap (Obs.wroteTo k)

/-- What a message adds to the stream: all of it, or what was written of it before it
failed. -/
def Handed.part (h : Handed) : Bytes := if h.failed then h.wrote else cstr h.msg

@[simp] theorem handedTo_append (k : Nat) (l m : List Obs) :
    handedTo k (l ++ m) = handedTo k l ++ handedTo k m := List.filterMap_append

@[simp] theorem writtenTo_append (k : Nat) (l m : List Obs) :
    writtenTo k (l ++ m) = writtenTo k l ++ writtenTo k m := List.flatMap_append

/-- A note that is no message and no flush. -/
def Obs.isQuiet : Obs → Bool
  | .handed _ | .flushed _ _ => false
  | _ => true

theorem quiet_notes {new : List Obs} (h : ∀ o ∈ new, o.isQuiet = true) (k : Nat) :
    handedTo k new = [] ∧ writtenTo k new = [] := by
  refine ⟨List.filterMap_eq_nil_iff.mpr fun o ho => ?_, List.flatMap_eq_nil_iff.mpr fun o ho => ?_⟩
  · have := h o ho
    cases o <;> first | rfl | cases this
  · have := h o ho
    cases o <;> first | rfl | cases this

theorem handedTo_handed (k : Nat) (h : Handed) :
    handedTo k [.handed h] = if h.receiver = k then [h] else [] := by
  unfold handedTo
  rw [List.filterMap_cons, List.filterMap_nil]
  dsimp only
  split <;> rename_i heq <;> split at heq <;> simp_all

theorem writtenTo_handed (k : Nat) (h : Handed) :
    writtenTo k [.handed h] = if h.receiver = k then h.wrote else [] := by
  simp [writtenTo, Obs.wroteTo]

theorem writtenTo_flushed (k k' : Nat) (wrote : Bytes) :
    writtenTo k [.flushed k' wrote] = if k' = k then wrote else [] := by
  simp [writtenTo, Obs.wroteTo]

/-- **Every connection's stream is what it was handed**; the notes are about connections that
exist or existed; and whoever is logged in is a trader. -/
structure Streamed (w : World) : Prop where
  housed : Housed w
  stream : ∀ fd c, w.slot fd = some c →
    writtenTo c.serial w.trace ++ c.pending = (handedTo c.serial w.trace).flatMap Handed.part
  past : ∀ k, w.accepts ≤ k → handedTo k w.trace = [] ∧ writtenTo k w.trace = []
  roles : ∀ fd c, w.slot fd = some c → OneRole c

/-- A step that leaves the queues and notes no message. -/
theorem Streamed.quiet {w w' : World} (hw : Streamed w) (h : Alike w w')
    (hslot : ∀ fd c', w'.slot fd = some c' → ∃ c, w.slot fd = some c ∧ c'.serial = c.serial ∧
      c'.pending = c.pending ∧ (OneRole c → OneRole c'))
    {new : List Obs} (htrace : w'.trace = w.trace ++ new) (hnew : ∀ o ∈ new, o.isQuiet = true) :
    Streamed w' := by
  have hk : ∀ k, handedTo k w'.trace = handedTo k w.trace ∧
      writtenTo k w'.trace = writtenTo k w.trace := by
    intro k
    obtain ⟨h1, h2⟩ := quiet_notes hnew k
    rw [htrace, handedTo_append, writtenTo_append, h1, h2, List.append_nil, List.append_nil]
    exact ⟨rfl, rfl⟩
  refine ⟨hw.housed.of_alike h, fun fd c' hc' => ?_, fun k hle => ?_, fun fd c' hc' => ?_⟩
  · obtain ⟨c, hc, hser, hp, -⟩ := hslot fd c' hc'
    rw [hser, hp, (hk _).1, (hk _).2]
    exact hw.stream fd c hc
  · rw [(hk k).1, (hk k).2]
    exact hw.past k (h.accepts ▸ hle)
  · obtain ⟨c, hc, -, -, hr⟩ := hslot fd c' hc'
    exact hr (hw.roles fd c hc)

/-- A message that fails adds to the stream what was written of it: nothing is queued then, or
nothing is written. -/
theorem sendToClient_part (env : SockEnv) (conn : ClientConnection) (data : Bytes) :
    (sendToClient env conn data).wrote ++ (sendToClient env conn data).conn.pending
      = conn.pending ++ if (sendToClient env conn data).failed then
          (sendToClient env conn data).wrote else data := by
  by_cases h : Takes env conn data
  · obtain ⟨hf, hs⟩ := sendToClient_stream h
    rw [hf, hs]
    rfl
  · obtain ⟨hf, hp⟩ := sendToClient_refused h
    rw [hf, if_pos rfl, hp]
    rcases sendToClient_cases env conn data with ⟨_, heq, -⟩ | ⟨env', wrote, rest, -, heq, -, hw, -⟩
    · rw [heq, List.append_nil]
      rfl
    · rw [heq, queueRest_wrote]
      rcases hw with rfl | h0
      · rw [List.append_nil]
        rfl
      · rw [pending_eq_nil.mp h0, List.append_nil]
        rfl

/-- What a send leaves in the slots. -/
theorem sendLine_slot (why : Cause) {fd : Nat} {c : ClientConnection} {w : World}
    (hc : w.slot fd = some c) (line : Bytes) (n : Nat) :
    (sendLine why fd line w).1.slot n
      = if n = fd then some (sendToClient (w.sock fd) c (cstr line)).conn else w.slot n := by
  split
  · rename_i h
    subst h
    unfold sendLine
    rw [slot_note, slot_modify_self, conn_of_slot hc]
    show (w.slot n).map _ = _
    rw [hc]
    rfl
  · rename_i h
    exact sendLine_slot_ne why h line w

/-- **A send keeps the streams.** -/
theorem streamed_sendLine {w : World} (hw : Streamed w) (why : Cause) {fd : Nat}
    {c : ClientConnection} (hc : w.slot fd = some c) (line : Bytes) :
    Streamed (sendLine why fd line w).1 := by
  have hslot := sendLine_slot why hc line
  have hbare := field_of_bare (sendToClient_bare (w.sock fd) c (cstr line))
  have hrecv : (handedOf why fd line w).receiver = c.serial := by
    rw [← conn_of_slot hc]
    rfl
  have hsent : (handedOf why fd line w).wrote = (sendToClient (w.sock fd) c (cstr line)).wrote ∧
      (handedOf why fd line w).failed = (sendToClient (w.sock fd) c (cstr line)).failed := by
    unfold handedOf
    rw [conn_of_slot hc]
    exact ⟨rfl, rfl⟩
  refine ⟨hw.housed.of_alike (sendLine_kept why fd line w).alike, ?_, ?_, ?_⟩
  · intro n c' hc'
    rw [hslot] at hc'
    rw [sendLine_trace, handedTo_append, writtenTo_append, handedTo_handed, writtenTo_handed, hrecv]
    split at hc'
    · cases hc'
      rw [hbare.1, if_pos rfl, if_pos rfl, List.flatMap_append, ← hw.stream fd c hc, hsent.1,
        List.append_assoc, sendToClient_part, List.append_assoc]
      unfold Handed.part
      rw [List.flatMap_singleton, hsent.1, hsent.2]
      rfl
    · rename_i hn
      have hne : c.serial ≠ c'.serial := by
        intro heq
        have h1 := badge_of_slot hc
        rw [heq] at h1
        exact hn (hw.housed.distinct _ _ _ _ _ (badge_of_slot hc') h1)
      rw [if_neg hne, if_neg hne, List.append_nil, List.append_nil]
      exact hw.stream n c' hc'
  · intro k hk
    have hlt := hw.housed.known fd _ _ (badge_of_slot hc)
    have hne : c.serial ≠ k := by
      have hk' : w.accepts ≤ k := hk
      omega
    rw [sendLine_trace, handedTo_append, writtenTo_append, handedTo_handed, writtenTo_handed, hrecv,
      if_neg hne, if_neg hne, List.append_nil, List.append_nil]
    exact hw.past k hk
  · intro n c' hc'
    rw [hslot] at hc'
    split at hc'
    · cases hc'
      exact hbare.2.2 (hw.roles fd c hc)
    · exact hw.roles n c' hc'

theorem streamed_foldl_hand (self : Nat) {ds : List Delivery} {s : World × Bool}
    (hs : Streamed s.1) (hlive : ∀ d ∈ ds, ∃ c, s.1.slot d.fd = some c) :
    Streamed (ds.foldl (hand self) s).1 := by
  refine foldl_hand_keeps self (w := s.1) (I := fun t => Streamed t.1) (fun t d ht h hd => ?_) hlive
    rfl hs
  obtain ⟨c, hc⟩ := hd
  obtain ⟨c', hc', -⟩ := slot_of_view (v := .bare) ht hc
  exact streamed_sendLine h _ hc' _

/-! ## 2. Every act keeps the streams -/

/-- A step that leaves the table. -/
theorem Streamed.of_conns {w w' : World} (hw : Streamed w) (hconns : w'.conns = w.conns)
    (hopen : w'.opened = w.opened) (hacc : w'.accepts = w.accepts)
    (hsrv : w'.serverFd = w.serverFd) {new : List Obs} (htrace : w'.trace = w.trace ++ new)
    (hnew : ∀ o ∈ new, o.isQuiet = true) : Streamed w' := by
  refine hw.quiet (alike_of_conns hconns hopen hacc hsrv) (fun n c hc => ?_) htrace hnew
  rw [World.slot, hconns] at hc
  exact ⟨c, hc, rfl, rfl, id⟩

/-- A change of a connection that leaves its number, its descriptor, its queue and its role. -/
theorem streamed_modify {w : World} (hw : Streamed w) {fd : Nat}
    {f : ClientConnection → ClientConnection}
    (hf : ∀ c, ((f c).serial, (f c).clientFd, (f c).outbuf) = (c.serial, c.clientFd, c.outbuf))
    (hrole : ∀ c, w.slot fd = some c → OneRole c → OneRole (f c)) : Streamed (w.modify fd f) := by
  have hser : ∀ c, (f c).serial = c.serial := fun c => congrArg Prod.fst (hf c)
  have hfd : ∀ c, (f c).clientFd = c.clientFd := fun c => congrArg (fun x => x.2.1) (hf c)
  have hout : ∀ c, (f c).outbuf = c.outbuf := fun c => congrArg (fun x => x.2.2) (hf c)
  refine hw.quiet (alike_modify w fd fun c => Prod.ext (hser c) (hfd c)) ?_
    (List.append_nil _).symm (by simp)
  intro n c' hc'
  rw [slot_modify] at hc'
  split at hc'
  · rename_i hn
    subst hn
    obtain ⟨c, hc, rfl⟩ := Option.map_eq_some_iff.mp hc'
    refine ⟨c, hc, hser c, ?_, hrole c hc⟩
    rw [ClientConnection.pending, hout]
    rfl
  · exact ⟨c', hc', rfl, rfl, id⟩

theorem streamed_reply {w : World} (hw : Streamed w) (self : Nat) {c : ClientConnection}
    (hc : w.slot self = some c) (msg : Bytes) : Streamed (reply self msg w).1 :=
  streamed_sendLine hw _ hc msg

theorem streamed_acceptOrder {w : World} (hw : Streamed w) (self : Nat) {c : ClientConnection}
    (hc : w.slot self = some c) (ord : Order) : Streamed (acceptOrder ord self w).1 := by
  rw [acceptOrder_eq]
  have h0 : Streamed { w with exchange := w.exchange.takeId ord } :=
    hw.of_conns rfl rfl rfl rfl (List.append_nil _).symm (by simp)
  have h1 := streamed_reply h0 self hc (acceptedText ord.id)
  have h2 : Streamed { (reply self (acceptedText ord.id)
      { w with exchange := w.exchange.takeId ord }).1 with
        exchange := (w.exchange.takeId ord).enter ord w.heap
        heap := (addOrder w.exchange.orderbook ord w.heap).heap } :=
    h1.of_conns rfl rfl rfl rfl (List.append_nil _).symm (by simp)
  refine streamed_foldl_hand self h2 fun d hd => ?_
  obtain ⟨c', hc'⟩ := deliveries_live hd
  obtain ⟨c2, hc2, -⟩ := slot_of_view (v := .bare) (reply_roster self (acceptedText ord.id)
    { w with exchange := w.exchange.takeId ord }) hc'
  exact ⟨c2, hc2⟩

theorem fields_of_plain {f : ClientConnection → ClientConnection} (hf : Plain f)
    (c : ClientConnection) :
    ((f c).serial, (f c).clientFd, (f c).outbuf) = (c.serial, c.clientFd, c.outbuf) := by
  obtain ⟨h1, -, h3⟩ := hf c
  have hser : (f c).fixed.serial = c.fixed.serial := congrArg _ h1
  have hfd : (f c).fixed.clientFd = c.fixed.clientFd := congrArg _ h1
  rw [h3, show (f c).serial = c.serial from hser, show (f c).clientFd = c.clientFd from hfd]

/-- The fields of the client's own that a line changes before it is answered. -/
theorem streamed_plain {w : World} (hw : Streamed w) {self : Nat} {c : ClientConnection}
    (hc : w.slot self = some c) (heap : List Bool) {f : ClientConnection → ClientConnection}
    (hf : Plain f) (hrole : OneRole (w.conn self) → OneRole (f (w.conn self))) :
    Streamed ({ w with heap := heap }.modify self f) ∧
      ({ w with heap := heap }.modify self f).slot self = some (f c) := by
  have h0 : Streamed { w with heap := heap } :=
    hw.of_conns rfl rfl rfl rfl (List.append_nil _).symm (by simp)
  refine ⟨streamed_modify h0 (fields_of_plain hf) fun c' hc' => ?_, ?_⟩
  · have : w.conn self = c' := conn_of_slot hc'
    rw [← this]
    exact hrole
  · rw [slot_modify_self]
    exact congrArg (Option.map f) hc

/-- **A line keeps the streams**, however it is handled. -/
theorem streamed_handling {w : World} (hw : Streamed w) {self : Nat} {c : ClientConnection}
    (hc : w.slot self = some c) {q : Bool} {o : Option (Order × List Bool)} {r : World × Bool}
    (h : Handling self w q o r) : Streamed r.1 := by
  cases h with
  | silent => exact hw
  | replied heap f hf hrole hmsg =>
    obtain ⟨h1, h2⟩ := streamed_plain hw hc heap hf hrole
    exact streamed_reply h1 self h2 _
  | quit =>
    have h1 : Streamed (w.modify self fun c => { c with closing := true }) :=
      streamed_modify hw (fun _ => rfl) fun _ _ h => h
    have h2 : (w.modify self fun c => { c with closing := true }).slot self
        = some { c with closing := true } := modify_slot self hc _
    exact streamed_reply h1 self h2 _
  | accepted heap side inst hq hp hin hord =>
    have h0 : Streamed { w with heap := heap } :=
      hw.of_conns rfl rfl rfl rfl (List.append_nil _).symm (by simp)
    exact streamed_acceptOrder h0 self hc _
  | @cancelled id r hr =>
    have h0 : Streamed ({ w with exchange := r.2 }.note (.cancelled (w.conn self).serial r.1)) :=
      hw.of_conns rfl rfl rfl rfl (trace_note _ _) (by simp [Obs.isQuiet])
    exact streamed_reply h0 self hc _

theorem streamed_processLine {w : World} (hw : Streamed w) {self : Nat} {c : ClientConnection}
    (hc : w.slot self = some c) (line : Bytes) : Streamed (processLine line self w).1 := by
  have h0 : Streamed (w.note (.line (w.conn self).serial line)) :=
    hw.of_conns rfl rfl rfl rfl (trace_note _ _) (by simp [Obs.isQuiet])
  exact streamed_handling h0 (c := c) hc (processLine_handling self w line)

theorem streamed_rejectLine {w : World} (hw : Streamed w) {self : Nat} {c : ClientConnection}
    (hc : w.slot self = some c) : Streamed (rejectLine self w).1 := by
  have h0 : Streamed (w.note (.tooLong (w.conn self).serial)) :=
    hw.of_conns rfl rfl rfl rfl (trace_note _ _) (by simp [Obs.isQuiet])
  exact streamed_reply h0 self (c := c) hc _

/-- A flush moves bytes within the stream. -/
theorem streamed_flushClient {w : World} (hw : Streamed w) {fd : Nat} {c : ClientConnection}
    (hc : w.slot fd = some c) : Streamed (flushClient fd w).1 := by
  have hslot : ∀ n, (flushClient fd w).1.slot n
      = if n = fd then some (flushToClient (w.sock fd) c).conn else w.slot n := by
    intro n
    unfold flushClient
    rw [slot_note, slot_modify, conn_of_slot hc]
    split
    · rename_i h
      subst h
      show (w.slot n).map _ = _
      rw [hc]
      rfl
    · rfl
  have hbare := field_of_bare (flushToClient_bare (w.sock fd) c)
  have htrace : (flushClient fd w).1.trace
      = w.trace ++ [.flushed c.serial (flushToClient (w.sock fd) c).wrote] := by
    unfold flushClient
    rw [conn_of_slot hc]
    rfl
  have hhanded : ∀ k, handedTo k (flushClient fd w).1.trace = handedTo k w.trace := by
    intro k
    rw [htrace, handedTo_append]
    exact List.append_nil _
  have ht := tenants_of_roster (flushClient_roster fd w)
  refine ⟨hw.housed.of_alike ⟨badge_of_tenants ht, rfl, rfl, rfl,
    le_of_eq (currCap_of_view ht).symm⟩, ?_, ?_, ?_⟩
  · intro n c' hc'
    rw [hslot] at hc'
    rw [hhanded, htrace, writtenTo_append, writtenTo_flushed]
    split at hc'
    · cases hc'
      rw [hbare.1, if_pos rfl, ← hw.stream fd c hc, List.append_assoc, flushToClient_stream]
    · rename_i hn
      have hne : c.serial ≠ c'.serial := by
        intro heq
        have h1 := badge_of_slot hc
        rw [heq] at h1
        exact hn (hw.housed.distinct _ _ _ _ _ (badge_of_slot hc') h1)
      rw [if_neg hne, List.append_nil]
      exact hw.stream n c' hc'
  · intro k hk
    have hlt := hw.housed.known fd _ _ (badge_of_slot hc)
    have hne : c.serial ≠ k := by
      have hk' : w.accepts ≤ k := hk
      omega
    rw [hhanded, htrace, writtenTo_append, writtenTo_flushed, if_neg hne, List.append_nil]
    exact hw.past k hk
  · intro n c' hc'
    rw [hslot] at hc'
    split at hc'
    · cases hc'
      exact hbare.2.2 (hw.roles fd c hc)
    · exact hw.roles n c' hc'

theorem streamed_removeClient {w : World} (hw : Streamed w) {fd : Nat} {c : ClientConnection}
    (hc : w.slot fd = some c) : Streamed (removeClient fd w) := by
  have hk : ∀ k, handedTo k (removeClient fd w).trace = handedTo k w.trace ∧
      writtenTo k (removeClient fd w).trace = writtenTo k w.trace := by
    intro k
    rw [removeClient_trace hc, handedTo_append, writtenTo_append]
    exact ⟨List.append_nil _, List.append_nil _⟩
  have hslot : ∀ n c', (removeClient fd w).slot n = some c' → w.slot n = some c' := by
    intro n c' hc'
    rw [removeClient_slot] at hc'
    split at hc'
    · cases hc'
    · exact hc'
  refine ⟨housed_removeClient hw.housed hc, ?_, ?_, fun n c' hc' => hw.roles n c' (hslot n c' hc')⟩
  · intro n c' hc'
    rw [(hk _).1, (hk _).2]
    exact hw.stream n c' (hslot n c' hc')
  · intro k hle
    rw [removeClient_accepts] at hle
    rw [(hk k).1, (hk k).2]
    exact hw.past k hle

theorem streamed_acceptClient {w : World} (hw : Streamed w) {fd : Nat} (h : fd ∉ w.opened)
    (grown calloced armed : Bool) : Streamed (acceptClient fd grown calloced armed w) := by
  have hcases := acceptClient_cases hw.housed.table h (hw.housed.slot_none h) grown calloced armed
  split at hcases
  · have hk : ∀ k, handedTo k (acceptClient fd grown calloced armed w).trace
        = handedTo k w.trace ∧
        writtenTo k (acceptClient fd grown calloced armed w).trace = writtenTo k w.trace := by
      intro k
      rw [hcases.trace, handedTo_append, writtenTo_append]
      exact ⟨List.append_nil _, List.append_nil _⟩
    refine ⟨housed_registered hw.housed h hcases, ?_, ?_, ?_⟩
    · intro n c hc
      rw [hcases.slot] at hc
      rw [(hk _).1, (hk _).2]
      split at hc
      · cases hc
        obtain ⟨h1, h2⟩ := hw.past w.accepts (le_refl _)
        simp only [ClientConnection.fresh, ClientConnection.pending, h1, h2]
        rfl
      · exact hw.stream n c hc
    · intro k hle
      rw [hcases.accepts] at hle
      rw [(hk k).1, (hk k).2]
      exact hw.past k (by omega)
    · intro n c hc
      rw [hcases.slot] at hc
      split at hc
      · cases hc
        exact fun hin => by cases hin
      · exact hw.roles n c hc
  · refine hw.quiet hcases.alike (fun n c hc => ?_) (hcases.trace.trans (List.append_nil _).symm)
      (by simp)
    rw [hcases.slot] at hc
    exact ⟨c, hc, rfl, rfl, id⟩

theorem streamed_removeIfDone {s : World × Bool} (hw : Streamed s.1) {fd : Nat}
    {c : ClientConnection} (hc : s.1.slot fd = some c) : Streamed (removeIfDone fd s) := by
  unfold removeIfDone
  split
  · exact streamed_removeClient hw hc
  · exact hw

/-- An act on bytes read or on the buffer for reading, or a note of an event. -/
theorem streamed_input {w : World} (hw : Streamed w) {fd : Nat} {c : ClientConnection}
    {a : ClientAct} (ha : a = .applied ∨ (∃ got, a = .received got) ∨ ∃ f, a = .buffered f) :
    Streamed (serve fd c w a) := by
  have hnote : ∀ o : Obs, o.isQuiet = true → Streamed (w.note o) := fun o ho =>
    hw.of_conns rfl rfl rfl rfl (trace_note _ _) (by simpa using ho)
  rcases ha with rfl | ⟨got, rfl⟩ | ⟨f, rfl⟩
  · exact hnote _ rfl
  · exact streamed_modify (hnote _ rfl) (fun _ => rfl) fun _ _ h => h
  · exact streamed_modify hw (fun _ => rfl) fun _ _ h => h

/-- **Every act keeps the streams**, one case for each kind. -/
theorem streamed_act {w : World} (hw : Streamed w) (a : Act) : Streamed (act w a) := by
  cases a with
  | supply sock heap => exact hw.of_conns rfl rfl rfl rfl (List.append_nil _).symm (by simp)
  | accept fd grown calloced armed =>
    rw [act]
    split
    · exact hw
    · rename_i h
      exact streamed_acceptClient hw h grown calloced armed
  | client fd a =>
    rw [act]
    split
    · exact hw
    · rename_i c hc
      cases a with
      | applied => exact streamed_input hw (.inl rfl)
      | received got => exact streamed_input hw (.inr (.inl ⟨got, rfl⟩))
      | buffered f => exact streamed_input hw (.inr (.inr ⟨f, rfl⟩))
      | command line =>
        obtain ⟨c', hc', -⟩ := processLine_slot fd hc line
        exact streamed_removeIfDone (streamed_processLine hw hc line) hc'
      | overlong =>
        obtain ⟨c', hc', -⟩ := rejectLine_slot fd hc
        exact streamed_removeIfDone (streamed_rejectLine hw hc) hc'
      | flush =>
        obtain ⟨c', hc', -⟩ := slot_of_view (v := .bare) (flushClient_roster fd w) hc
        exact streamed_removeIfDone (streamed_flushClient hw hc) hc'
      | drop => exact streamed_removeClient hw hc

theorem streamed_init (serverFd : Nat) (others : List Nat) : Streamed (.init serverFd others) := by
  refine ⟨(owned_init serverFd others).housed, ?_, fun _ _ => ⟨rfl, rfl⟩, ?_⟩
  · intro fd c hc
    rw [init_slot] at hc
    cases hc
  · intro fd c hc
    rw [init_slot] at hc
    cases hc

/-- **Streams are what was handed**, in every reachable state. -/
theorem streamed_of_reachable {w : World} (hw : Reachable w) : Streamed w :=
  hw.invariant streamed_init fun _ a h => streamed_act h a

/-! ## 3. Messages that fail -/

/-- No message to this connection has failed. -/
def Whole (k : Nat) (trace : List Obs) : Prop := ∀ h ∈ handedTo k trace, h.failed = false

/-- No message to this connection was followed by another after it failed. -/
def NoneBehind (k : Nat) (trace : List Obs) : Prop :=
  (handedTo k trace).Pairwise fun earlier _ => earlier.failed = false

/-- **No silent loss**: nobody is handed anything behind a message that failed, and the stream
of everybody who is connected is all the messages it was handed. -/
structure NoSilentLoss (w : World) : Prop where
  last : ∀ k, NoneBehind k w.trace
  stream : ∀ fd c, w.slot fd = some c → writtenTo c.serial w.trace ++ c.pending
    = (handedTo c.serial w.trace).flatMap fun h => cstr h.msg

/-- The same, as acts keep it. -/
structure Lossless (w : World) : Prop where
  streamed : Streamed w
  last : ∀ k, NoneBehind k w.trace
  whole : ∀ fd c, w.slot fd = some c → Whole c.serial w.trace

theorem Lossless.noSilentLoss {w : World} (hw : Lossless w) : NoSilentLoss w where
  last := hw.last
  stream fd c hc := by
    rw [hw.streamed.stream fd c hc]
    refine List.flatMap_congr fun h hh => ?_
    unfold Handed.part
    rw [hw.whole fd c hc h hh, if_neg Bool.false_ne_true]

theorem Whole.noneBehind_append {k : Nat} {trace : List Obs} (h : Whole k trace) (x : Handed) :
    NoneBehind k (trace ++ [.handed x]) := by
  unfold NoneBehind
  rw [handedTo_append, handedTo_handed]
  refine List.pairwise_append.mpr ⟨?_, ?_, fun a ha _ _ => h a ha⟩
  · exact List.pairwise_of_forall_mem_list fun a ha _ _ => h a ha
  · split
    · exact List.pairwise_singleton _ _
    · exact List.Pairwise.nil

/-- What a send adds to the messages of the connection in slot `n`. -/
theorem handedTo_sendLine {w : World} (hw : Housed w) (why : Cause) {fd : Nat}
    {c : ClientConnection} (hc : w.slot fd = some c) (line : Bytes) {n : Nat}
    {c' : ClientConnection} (hc' : w.slot n = some c') :
    handedTo c'.serial (sendLine why fd line w).1.trace
      = handedTo c'.serial w.trace ++ if n = fd then [handedOf why fd line w] else [] := by
  have hrecv : (handedOf why fd line w).receiver = c.serial := by
    rw [← conn_of_slot hc]
    rfl
  rw [sendLine_trace, handedTo_append, handedTo_handed, hrecv]
  refine congrArg _ (if_congr ⟨fun h => ?_, fun h => ?_⟩ rfl rfl)
  · have h1 := badge_of_slot hc
    rw [h] at h1
    exact hw.distinct _ _ _ _ _ (badge_of_slot hc') h1
  · subst h
    rw [hc] at hc'
    cases hc'
    rfl

/-! ## 4. The messages of an order -/

/-- What an accepted order sends, acknowledgement first. -/
def orderMessages (ord : Order) (heap : List Bool) (self : Nat) (w : World) : List Delivery :=
  { fd := self, about := none, msg := acceptedText ord.id } ::
    deliveries w (addOrder w.exchange.orderbook ord heap).fills

/-- The texts of them that go to one descriptor. -/
def messagesTo (fd : Nat) (ds : List Delivery) : List Bytes :=
  (ds.filter fun d => d.fd == fd).map fun d => cstr d.msg

theorem messagesTo_cons (fd : Nat) (d : Delivery) (ds : List Delivery) :
    messagesTo fd (d :: ds)
      = if d.fd = fd then cstr d.msg :: messagesTo fd ds else messagesTo fd ds := by
  unfold messagesTo
  rw [List.filter_cons]
  by_cases h : d.fd = fd <;> simp [h]

/-- Everything an order sends is taken, its client's last message apart: when that fails, the
client is removed. -/
def OrderTaken (ord : Order) (heap : List Bool) (self : Nat) (w : World) : Prop :=
  ∀ d ∈ orderMessages ord heap self w, AllTaken (w.sock d.fd) (w.conn d.fd)
    (if d.fd = self then (messagesTo self (orderMessages ord heap self w)).dropLast
    else messagesTo d.fd (orderMessages ord heap self w))

/-- **The condition on an act**: if it gets an order accepted, what that order sends is
taken. -/
def OrdersTaken (w : World) : Act → Prop
  | .client self (.command line) =>
    ∀ a ∈ acceptedBy line self w, OrderTaken a.1 a.2 self w
  | _ => True

/-- In the middle of the messages of an order, with `ds` still to send: whoever is connected
has missed none and will take what is still to come for it; or it is the client itself, it is
to be removed, and nothing is to come for it. -/
structure Midway (issuer : Nat) (s : World × Bool) (ds : List Delivery) : Prop where
  streamed : Streamed s.1
  last : ∀ k, NoneBehind k s.1.trace
  live : ∀ d ∈ ds, ∃ c, s.1.slot d.fd = some c
  others : ∀ fd c, s.1.slot fd = some c → fd ≠ issuer →
    Whole c.serial s.1.trace ∧ AllTaken (s.1.sock fd) c (messagesTo fd ds)
  own : ∀ c, s.1.slot issuer = some c →
    Whole c.serial s.1.trace ∧ AllTaken (s.1.sock issuer) c (messagesTo issuer ds).dropLast ∨
      s.2 = true ∧ messagesTo issuer ds = []

theorem sendLine_sock (why : Cause) {fd : Nat} {c : ClientConnection} {w : World}
    (hc : w.slot fd = some c) (line : Bytes) (n : Nat) :
    (sendLine why fd line w).1.sock n
      = if n = fd then (sendToClient (w.sock fd) c (cstr line)).env else w.sock n := by
  unfold sendLine
  rw [conn_of_slot hc]
  exact Function.update_apply _ _ _ _

theorem handedOf_failed (why : Cause) {fd : Nat} {c : ClientConnection} {w : World}
    (hc : w.slot fd = some c) (line : Bytes) :
    (handedOf why fd line w).failed = (sendToClient (w.sock fd) c (cstr line)).failed ∧
      (sendLine why fd line w).2 = (sendToClient (w.sock fd) c (cstr line)).failed := by
  unfold handedOf sendLine
  rw [conn_of_slot hc]
  exact ⟨rfl, rfl⟩

/-- A message in front of others that are all taken: it is taken, and so are the others in the
state it leaves. -/
theorem whole_sendLine {w : World} (hw : Housed w) (why : Cause) {fd : Nat}
    {c : ClientConnection} (hc : w.slot fd = some c) {line : Bytes} (hne : cstr line ≠ [])
    (hwhole : Whole c.serial w.trace) {ms : List Bytes}
    (hall : AllTaken (w.sock fd) c (cstr line :: ms)) :
    ∃ c', (sendLine why fd line w).1.slot fd = some c' ∧
      Whole c'.serial (sendLine why fd line w).1.trace ∧
      AllTaken ((sendLine why fd line w).1.sock fd) c' ms := by
  obtain ⟨htakes, hrest⟩ := allTaken_cons hne hall
  have hser := (field_of_bare (sendToClient_bare (w.sock fd) c (cstr line))).1
  refine ⟨_, (sendLine_slot why hc line fd).trans (if_pos rfl), ?_, ?_⟩
  · intro h hh
    rw [hser, handedTo_sendLine hw why hc line hc, if_pos rfl, List.mem_append] at hh
    rcases hh with hh | hh
    · exact hwhole h hh
    · rw [List.mem_singleton.mp hh, (handedOf_failed why hc line).1]
      exact (sendToClient_stream htakes).1
  · rw [sendLine_sock why hc, if_pos rfl]
    exact hrest

/-- A send leaves what the other connections were handed and what they will take. -/
theorem whole_sendLine_ne {w : World} (hw : Housed w) (why : Cause) {fd : Nat}
    {c : ClientConnection} (hc : w.slot fd = some c) (line : Bytes) {n : Nat} (hn : n ≠ fd)
    {c' : ClientConnection} (hc' : (sendLine why fd line w).1.slot n = some c') :
    w.slot n = some c' ∧
      handedTo c'.serial (sendLine why fd line w).1.trace = handedTo c'.serial w.trace ∧
      (sendLine why fd line w).1.sock n = w.sock n := by
  rw [sendLine_slot why hc, if_neg hn] at hc'
  refine ⟨hc', ?_, ?_⟩
  · rw [handedTo_sendLine hw why hc line hc', if_neg hn, List.append_nil]
  · rw [sendLine_sock why hc, if_neg hn]

/-- **One message of an order is sent.** -/
theorem Midway.send {self : Nat} {s : World × Bool} {d : Delivery} {ds : List Delivery}
    (h : Midway self s (d :: ds)) (hne : cstr d.msg ≠ []) (why : Cause) {done : Bool}
    (hkeep : s.2 = true → done = true)
    (hown : d.fd = self → (sendLine why d.fd d.msg s.1).2 = true → done = true) :
    Midway self ((sendLine why d.fd d.msg s.1).1, done) ds := by
  obtain ⟨c, hc⟩ := h.live d List.mem_cons_self
  have hhouse := h.streamed.housed
  have hwhole : Whole c.serial s.1.trace := by
    by_cases hfd : d.fd = self
    · rcases h.own c (hfd ▸ hc) with ⟨hw, -⟩ | ⟨-, hnil⟩
      · exact hw
      · rw [messagesTo_cons, if_pos hfd] at hnil
        cases hnil
    · exact (h.others d.fd c hc hfd).1
  refine ⟨streamed_sendLine h.streamed why hc d.msg, fun k => ?_, fun d' hd' => ?_, ?_, ?_⟩
  · by_cases hk : c.serial = k
    · exact hk ▸ hwhole.noneBehind_append _
    · have hrecv : (handedOf why d.fd d.msg s.1).receiver = c.serial := by
        rw [← conn_of_slot hc]
        rfl
      unfold NoneBehind
      rw [sendLine_trace, handedTo_append, handedTo_handed, hrecv, if_neg hk, List.append_nil]
      exact h.last k
  · obtain ⟨c', hc'⟩ := h.live d' (List.mem_cons_of_mem _ hd')
    obtain ⟨c2, hc2, -⟩ := slot_of_view (v := .bare) (sendLine_roster why d.fd d.msg s.1) hc'
    exact ⟨c2, hc2⟩
  · intro n c' hc' hn
    by_cases hnd : n = d.fd
    · subst hnd
      obtain ⟨hw, hall⟩ := h.others _ c hc hn
      rw [messagesTo_cons, if_pos rfl] at hall
      obtain ⟨c2, hc2, h1, h2⟩ := whole_sendLine hhouse why hc hne hw hall
      cases hc'.symm.trans hc2
      exact ⟨h1, h2⟩
    · obtain ⟨hold, hhanded, hsock⟩ := whole_sendLine_ne hhouse why hc d.msg hnd hc'
      obtain ⟨hw, hall⟩ := h.others n c' hold hn
      rw [messagesTo_cons, if_neg (Ne.symm hnd)] at hall
      refine ⟨fun x hx => hw x (hhanded ▸ hx), ?_⟩
      dsimp only
      rw [hsock]
      exact hall
  · intro c' hc'
    by_cases hnd : self = d.fd
    · subst hnd
      rcases h.own c hc with ⟨hw, hall⟩ | ⟨-, hnil⟩
      · rw [messagesTo_cons, if_pos rfl] at hall
        by_cases hlast : messagesTo d.fd ds = []
        · -- its last message: it may fail, and then the client is removed
          by_cases hf : (sendLine why d.fd d.msg s.1).2 = true
          · exact .inr ⟨hown rfl hf, hlast⟩
          · left
            rw [hlast]
            refine ⟨fun x hx => ?_, trivial⟩
            have hser : c'.serial = c.serial := by
              have hslot := (sendLine_slot why hc d.msg d.fd).trans (if_pos rfl)
              cases hc'.symm.trans hslot
              exact (field_of_bare (sendToClient_bare _ c _)).1
            rw [hser, handedTo_sendLine hhouse why hc d.msg hc, if_pos rfl, List.mem_append] at hx
            rcases hx with hx | hx
            · exact hw x hx
            · rw [List.mem_singleton.mp hx, (handedOf_failed why hc d.msg).1,
                ← (handedOf_failed why hc d.msg).2]
              exact Bool.eq_false_of_not_eq_true hf
        · rw [List.dropLast_cons_of_ne_nil hlast] at hall
          obtain ⟨c2, hc2, h1, h2⟩ := whole_sendLine hhouse why hc hne hw hall
          cases hc'.symm.trans hc2
          exact .inl ⟨h1, h2⟩
      · rw [messagesTo_cons, if_pos rfl] at hnil
        cases hnil
    · obtain ⟨hold, hhanded, hsock⟩ := whole_sendLine_ne hhouse why hc d.msg hnd hc'
      rcases h.own c' hold with ⟨hw, hall⟩ | ⟨hd, hnil⟩
      · rw [messagesTo_cons, if_neg (Ne.symm hnd)] at hall
        refine .inl ⟨fun x hx => hw x (hhanded ▸ hx), ?_⟩
        dsimp only
        rw [hsock]
        exact hall
      · rw [messagesTo_cons, if_neg (Ne.symm hnd)] at hnil
        exact .inr ⟨hkeep hd, hnil⟩

/-! ## 5. What is sent, and to whom -/

/-- A text that does not start with a NUL is not empty. -/
theorem cstr_snprintf_ne_nil {size : Nat} (hsize : 2 ≤ size) {b : Byte} (hb : b ≠ 0)
    (text : Bytes) : cstr (snprintf size (b :: text)) ≠ [] := by
  obtain ⟨n, rfl⟩ : ∃ n, size = n + 2 := ⟨size - 2, by omega⟩
  simp [snprintf, cstr, hb]

theorem cstr_reply_ne_nil {msg : Bytes} (h : IsReply msg) : cstr msg ≠ [] := by
  rcases h with rfl | ⟨reason, rfl⟩
  · decide
  · exact cstr_snprintf_ne_nil (b := 69) (by decide) (by decide) _

theorem cstr_accepted_ne_nil (id : Int) : cstr (acceptedText id) ≠ [] :=
  cstr_snprintf_ne_nil (b := 79) (by decide) (by decide) _

theorem cstr_cancelled_ne_nil (id : Int) : cstr (cancelledText id) ≠ [] :=
  cstr_snprintf_ne_nil (b := 79) (by decide) (by decide) _

/-- What the executions of an order send is never empty, and what goes to a client who cannot
subscribe is a notification. -/
theorem deliveries_text {w : World} {fills : List Fill} {d : Delivery}
    (hd : d ∈ deliveries w fills) :
    cstr d.msg ≠ [] ∧ (wantsTrades .jnst (w.slot d.fd) = false →
      wantsTrades .imct (w.slot d.fd) = false → d.about.isSome = true) := by
  obtain ⟨fill, -, ⟨ha, hm⟩ | ⟨ha, hm⟩ | ⟨-, hm, hwant⟩⟩ := deliveries_kind hd <;> rw [hm]
  · rw [ha]
    exact ⟨cstr_snprintf_ne_nil (b := 66) (by decide) (by decide) _, fun _ _ => rfl⟩
  · rw [ha]
    exact ⟨cstr_snprintf_ne_nil (b := 83) (by decide) (by decide) _, fun _ _ => rfl⟩
  · refine ⟨cstr_snprintf_ne_nil (b := 84) (by decide) (by decide) _, fun h1 h2 => ?_⟩
    cases hi : fill.instrument with
    | jnst =>
      rw [hi, h1] at hwant
      cases hwant
    | imct =>
      rw [hi, h2] at hwant
      cases hwant

theorem not_wantsTrades {c : ClientConnection} (h : c.type = .trader) (inst : Instrument) :
    wantsTrades inst (some c) = false := by
  simp [wantsTrades, h]

/-- **The messages of an order are sent one by one.** -/
theorem midway_foldl_hand (self : Nat) {ds : List Delivery} {s : World × Bool}
    (h : Midway self s ds)
    (htext : ∀ d ∈ ds, cstr d.msg ≠ [] ∧ (d.fd = self → d.about.isSome = true)) :
    Midway self (ds.foldl (hand self) s) [] := by
  let I (t : World × Bool) (ds : List Delivery) : Prop := Midway self t ds ∧
    ∀ d ∈ ds, cstr d.msg ≠ [] ∧ (d.fd = self → d.about.isSome = true)
  have hone : ∀ t d ds, I t (d :: ds) → I (hand self t d) ds := by
    intro t d ds ht
    obtain ⟨hmid, htext⟩ := ht
    obtain ⟨hne, habout⟩ := htext d List.mem_cons_self
    refine ⟨hmid.send hne _ (fun hs => ?_) fun hfd hfailed => ?_,
      fun d' hd' => htext d' (List.mem_cons_of_mem _ hd')⟩
    · split
      · rfl
      · exact hs
    · obtain ⟨c, hc⟩ := hmid.live d List.mem_cons_self
      have hc' : ∃ c', (sendLine { self := self, about := d.about } d.fd d.msg t.1).1.slot self
          = some c' ∧ c'.bare = c.bare :=
        slot_of_view (v := .bare) (sendLine_roster _ _ _ _) (hfd ▸ hc)
      obtain ⟨c', hc', hb⟩ := hc'
      have hown := hmid.streamed.housed.own d.fd _ _ (badge_of_slot hc)
      refine if_pos ⟨⟨habout hfd, ?_⟩, hfailed⟩
      rw [conn_of_slot hc', (field_of_bare hb).2.1, hown]
  exact (Run.run_ahead hone ds ⟨h, htext⟩).1

/-- Before the first of them. -/
theorem Lossless.midway {w : World} (hw : Lossless w) (self : Nat) {ds : List Delivery}
    (hlive : ∀ d ∈ ds, ∃ c, w.slot d.fd = some c)
    (hall : ∀ d ∈ ds, AllTaken (w.sock d.fd) (w.conn d.fd)
      (if d.fd = self then (messagesTo self ds).dropLast else messagesTo d.fd ds)) :
    Midway self (w, false) ds := by
  have hnone : ∀ fd, (∀ d ∈ ds, d.fd ≠ fd) → messagesTo fd ds = [] := by
    intro fd h
    unfold messagesTo
    rw [List.filter_eq_nil_iff.mpr fun d hd => by simpa using h d hd]
    rfl
  refine ⟨hw.streamed, hw.last, hlive, fun fd c hc hn => ⟨hw.whole fd c hc, ?_⟩,
    fun c hc => .inl ⟨hw.whole self c hc, ?_⟩⟩
  · by_cases h : ∃ d ∈ ds, d.fd = fd
    · obtain ⟨d, hd, rfl⟩ := h
      have := hall d hd
      rwa [if_neg hn, conn_of_slot hc] at this
    · rw [hnone fd fun d hd hfd => h ⟨d, hd, hfd⟩]
      trivial
  · by_cases h : ∃ d ∈ ds, d.fd = self
    · obtain ⟨d, hd, rfl⟩ := h
      have := hall d hd
      rwa [if_pos rfl, conn_of_slot hc] at this
    · rw [hnone self fun d hd hfd => h ⟨d, hd, hfd⟩]
      trivial

/-- **Behind the last of them**: the client is removed if it missed one. -/
theorem Midway.removed {self : Nat} {s : World × Bool} (h : Midway self s []) {c : ClientConnection}
    (hc : s.1.slot self = some c) : Lossless (removeIfDone self s) := by
  refine ⟨streamed_removeIfDone h.streamed hc, ?_, ?_⟩
  · intro k
    unfold removeIfDone NoneBehind
    split
    · rw [removeClient_trace hc, handedTo_append]
      exact (List.append_nil (handedTo k s.1.trace)).symm ▸ h.last k
    · exact h.last k
  · intro fd c' hc'
    unfold removeIfDone at hc' ⊢
    split at hc'
    · rename_i hdone
      rw [removeClient_slot] at hc'
      split at hc'
      · cases hc'
      · rename_i hn
        rw [if_pos hdone, removeClient_trace hc]
        unfold Whole
        rw [handedTo_append]
        exact (List.append_nil (handedTo c'.serial s.1.trace)).symm ▸ (h.others fd c' hc' hn).1
    · rename_i hdone
      rw [if_neg hdone]
      by_cases hn : fd = self
      · subst hn
        rcases h.own c' hc' with ⟨hw, -⟩ | ⟨hd, -⟩
        · exact hw
        · exact absurd hd hdone
      · exact (h.others fd c' hc' hn).1

/-! ## 6. Every act -/

/-- A step that leaves who is where, and sends nothing. -/
theorem Lossless.quiet {w w' : World} (hw : Lossless w) (hs : Streamed w') (h : Alike w w')
    (hh : ∀ k, handedTo k w'.trace = handedTo k w.trace) : Lossless w' := by
  refine ⟨hs, fun k => ?_, fun fd c hc => ?_⟩
  · unfold NoneBehind
    rw [hh]
    exact hw.last k
  · have hb := badge_of_slot hc
    rw [h.badge] at hb
    obtain ⟨c0, hc0, hser, -⟩ := slot_of_badge hb
    unfold Whole
    rw [hh, ← hser]
    exact hw.whole fd c0 hc0

/-- A step that leaves the table, and sends nothing. -/
theorem Lossless.of_conns {w w' : World} (hw : Lossless w) (hconns : w'.conns = w.conns)
    (hopen : w'.opened = w.opened) (hacc : w'.accepts = w.accepts)
    (hsrv : w'.serverFd = w.serverFd) {new : List Obs} (htrace : w'.trace = w.trace ++ new)
    (hnew : ∀ o ∈ new, o.isQuiet = true) : Lossless w' := by
  refine hw.quiet (hw.streamed.of_conns hconns hopen hacc hsrv htrace hnew)
    (alike_of_conns hconns hopen hacc hsrv) fun k => ?_
  rw [htrace, handedTo_append, (quiet_notes hnew k).1, List.append_nil]

theorem lossless_modify {w : World} (hw : Lossless w) {fd : Nat}
    {f : ClientConnection → ClientConnection}
    (hf : ∀ c, ((f c).serial, (f c).clientFd, (f c).outbuf) = (c.serial, c.clientFd, c.outbuf))
    (hrole : ∀ c, w.slot fd = some c → OneRole c → OneRole (f c)) : Lossless (w.modify fd f) := by
  have hser : ∀ c, (f c).serial = c.serial := fun c => congrArg Prod.fst (hf c)
  have hfd : ∀ c, (f c).clientFd = c.clientFd := fun c => congrArg (fun x => x.2.1) (hf c)
  exact hw.quiet (streamed_modify hw.streamed hf hrole)
    (alike_modify w fd fun c => Prod.ext (hser c) (hfd c)) fun _ => rfl

/-- **One reply**: the caller removes the client if it fails. -/
theorem midway_reply {w : World} (hw : Lossless w) (self : Nat) {c : ClientConnection}
    (hc : w.slot self = some c) {msg : Bytes} (hmsg : cstr msg ≠ []) {done : Bool}
    (hdone : (reply self msg w).2 = true → done = true) :
    Midway self ((reply self msg w).1, done) [] := by
  have h : Midway self (w, false) [{ fd := self, about := none, msg := msg }] := by
    refine hw.midway self ?_ ?_
    · intro d hd
      rw [List.mem_singleton.mp hd]
      exact ⟨c, hc⟩
    · intro d hd
      rw [List.mem_singleton.mp hd, if_pos rfl, messagesTo_cons, if_pos rfl]
      trivial
  exact h.send hmsg { self := self, about := none } (fun h => by cases h) fun _ => hdone

/-- **An accepted order**: the acknowledgement, then the deliveries. -/
theorem midway_acceptOrder {w : World} (hw : Lossless w) {self : Nat} {c : ClientConnection}
    (hc : w.slot self = some c) (hin : c.loggedIn = true) {ord : Order} {heap : List Bool}
    (htaken : OrderTaken ord heap self w) :
    Midway self (acceptOrder ord self { w with heap := heap }) [] := by
  rw [acceptOrder_eq]
  let w' : World := { w with
    exchange := (w.exchange.takeId ord).enter ord heap
    heap := (addOrder w.exchange.orderbook ord heap).heap }
  have hw' : Lossless w' := hw.of_conns rfl rfl rfl rfl (List.append_nil _).symm (by simp)
  have hstart : Midway self (w', false) (orderMessages ord heap self w) := by
    refine hw'.midway self (fun d hd => ?_) htaken
    rcases List.mem_cons.mp hd with rfl | hd
    · exact ⟨c, hc⟩
    · exact deliveries_live hd
  have hack := hstart.send (cstr_accepted_ne_nil ord.id) { self := self, about := none }
    (fun h => by cases h) fun _ (h : (reply self (acceptedText ord.id) w').2 = true) => h
  have htrader : c.type = .trader := hw.streamed.roles self c hc hin
  refine midway_foldl_hand self hack fun d hd => ?_
  obtain ⟨hne, habout⟩ := deliveries_text hd
  refine ⟨hne, fun hfd => ?_⟩
  have hslot : World.slot { w with heap := heap } d.fd = some c := hfd ▸ hc
  rw [hslot] at habout
  exact habout (not_wantsTrades htrader _) (not_wantsTrades htrader _)

/-- **However a line is handled**, nothing is lost silently if what its order sends is taken. -/
theorem midway_handling {w : World} (hw : Lossless w) {self : Nat} {c : ClientConnection}
    (hc : w.slot self = some c) {q : Bool} {o : Option (Order × List Bool)} {r : World × Bool}
    (h : Handling self w q o r) (htaken : ∀ a ∈ o, OrderTaken a.1 a.2 self w) :
    Midway self r [] := by
  cases h with
  | silent => exact hw.midway self (by simp) (by simp)
  | replied heap f hf hrole hmsg =>
    have h0 : Lossless { w with heap := heap } :=
      hw.of_conns rfl rfl rfl rfl (List.append_nil _).symm (by simp)
    obtain ⟨-, h2⟩ := streamed_plain hw.streamed hc heap hf hrole
    have h1 : Lossless ({ w with heap := heap }.modify self f) := by
      refine lossless_modify h0 (fields_of_plain hf) fun c' hc' => ?_
      have : w.conn self = c' := conn_of_slot hc'
      rw [← this]
      exact hrole
    exact midway_reply h1 self h2 (cstr_reply_ne_nil hmsg) id
  | quit =>
    have h1 : Lossless (w.modify self fun c => { c with closing := true }) :=
      lossless_modify hw (fun _ => rfl) fun _ _ h => h
    have h2 := modify_slot self hc fun c => { c with closing := true }
    have hdone : ∀ {a b : Bool}, a = true → (a || b) = true := fun h => by rw [h, Bool.true_or]
    exact midway_reply h1 self h2 (cstr_reply_ne_nil (.inl rfl)) hdone
  | @accepted heap side inst quantity price hq hp hin ord hord =>
    rw [conn_of_slot hc] at hin
    have hord : OrderTaken ord heap self w := htaken (ord, heap) rfl
    exact midway_acceptOrder hw hc hin hord
  | @cancelled id r hr =>
    have h0 : Lossless ({ w with exchange := r.2 }.note (.cancelled (w.conn self).serial r.1)) :=
      hw.of_conns rfl rfl rfl rfl (trace_note _ _) (by simp [Obs.isQuiet])
    exact midway_reply h0 self (c := c) hc (cstr_cancelled_ne_nil id) fun h => h

/-- **Every act keeps it**, if what the order it gets accepted sends is taken. -/
theorem lossless_act {w : World} (hw : Lossless w) {a : Act} (ha : OrdersTaken w a) :
    Lossless (act w a) := by
  have hs : Streamed (act w a) := streamed_act hw.streamed a
  cases a with
  | supply sock heap => exact hw.of_conns rfl rfl rfl rfl (List.append_nil _).symm (by simp)
  | accept fd grown calloced armed =>
    rw [act] at hs ⊢
    split at hs
    · rename_i h
      rw [if_pos h]
      exact hw
    · rename_i h
      rw [if_neg h]
      have hhouse := hw.streamed.housed
      have hcases := acceptClient_cases hhouse.table h (hhouse.slot_none h) grown calloced armed
      split at hcases
      · have hk : ∀ k, handedTo k (acceptClient fd grown calloced armed w).trace
            = handedTo k w.trace := by
          intro k
          rw [hcases.trace, handedTo_append]
          exact List.append_nil _
        refine ⟨hs, fun k => ?_, fun n c hc => ?_⟩
        · unfold NoneBehind
          rw [hk]
          exact hw.last k
        · unfold Whole
          rw [hcases.slot] at hc
          rw [hk]
          split at hc
          · -- the new connection has been sent nothing
            cases hc
            rw [show (ClientConnection.fresh fd w.accepts).serial = w.accepts from rfl,
              (hw.streamed.past w.accepts (le_refl _)).1]
            simp
          · exact hw.whole n c hc
      · exact hw.quiet hs hcases.alike fun k => by rw [hcases.trace]
  | client fd a =>
    rw [act] at hs ⊢
    split at hs
    · exact hw
    · rename_i c hc
      have hnote : ∀ o : Obs, o.isQuiet = true → Lossless (w.note o) := fun o ho =>
        hw.of_conns rfl rfl rfl rfl (trace_note _ _) (by simpa using ho)
      cases a with
      | applied => exact hnote _ rfl
      | received got => exact lossless_modify (hnote _ rfl) (fun _ => rfl) fun _ _ h => h
      | buffered f => exact lossless_modify hw (fun _ => rfl) fun _ _ h => h
      | command line =>
        obtain ⟨c', hc', -⟩ := processLine_slot fd hc line
        have h0 : Lossless (w.note (.line (w.conn fd).serial line)) := hnote _ rfl
        exact (midway_handling h0 hc (processLine_handling fd w line) ha).removed hc'
      | overlong =>
        obtain ⟨c', hc', -⟩ := rejectLine_slot fd hc
        have h0 : Lossless (w.note (.tooLong (w.conn fd).serial)) := hnote _ rfl
        have h1 : Midway fd (rejectLine fd w) [] :=
          midway_reply h0 fd (c := c) hc (cstr_reply_ne_nil (.inr ⟨_, rfl⟩)) id
        exact h1.removed hc'
      | flush =>
        obtain ⟨c', hc', -⟩ := slot_of_view (v := .bare) (flushClient_roster fd w) hc
        have ht := tenants_of_roster (flushClient_roster fd w)
        have h0 : Lossless (flushClient fd w).1 :=
          hw.quiet (streamed_flushClient hw.streamed hc)
            ⟨badge_of_tenants ht, rfl, rfl, rfl, le_of_eq (currCap_of_view ht).symm⟩ fun k =>
            (handedTo_append k w.trace _).trans (List.append_nil _)
        have h1 : Midway fd (flushClient fd w) [] :=
          ⟨h0.streamed, h0.last, by simp, fun n c hc _ => ⟨h0.whole n c hc, trivial⟩,
            fun c hc => .inl ⟨h0.whole fd c hc, trivial⟩⟩
        exact h1.removed hc'
      | drop =>
        have h1 : Midway fd (w, true) [] :=
          ⟨hw.streamed, hw.last, by simp, fun n c hc _ => ⟨hw.whole n c hc, trivial⟩,
            fun c hc => .inl ⟨hw.whole fd c hc, trivial⟩⟩
        exact h1.removed hc

/-- **No silent loss** in a run whose orders are all taken as they are sent. -/
theorem no_silent_loss (serverFd : Nat) (others : List Nat) (as : List Act)
    (h : Run.Meets act OrdersTaken (.init serverFd others) as) :
    NoSilentLoss (Run.run act (.init serverFd others) as) := by
  have h0 : Lossless (.init serverFd others) := by
    refine ⟨streamed_init serverFd others, fun k => List.Pairwise.nil, fun fd c hc => ?_⟩
    rw [init_slot] at hc
    cases hc
  exact (Run.run_invariant_of_meets (fun _ _ hw ha => lossless_act hw ha) as _ h h0).noSilentLoss

instance (ord : Order) (heap : List Bool) (self : Nat) (w : World) :
    Decidable (OrderTaken ord heap self w) := by
  unfold OrderTaken; infer_instance

instance (w : World) (a : Act) : Decidable (OrdersTaken w a) := by
  unfold OrdersTaken
  split <;> infer_instance

/-- The buyer of `market` orders 4, and everybody hears of it. -/
theorem no_silent_loss_market :
    let as := market ++ [.client 7 (.command (lit "BUY JNST 4 5"))]
    Run.Meets act OrdersTaken (.init 3 []) as ∧
      (handedTo 1 (Run.run act (.init 3 []) as).trace).map Handed.msg
        = [lit "OK\n", lit "TRADE JNST 4 5\n"] ∧
      NoSilentLoss (Run.run act (.init 3 []) as) := by
  intro as
  have h : Run.Meets act OrdersTaken (.init 3 []) as := by decide +kernel
  exact ⟨h, by decide +kernel, no_silent_loss 3 [] as h⟩

/-- Connections under these descriptors come to the listening socket 3. -/
def listening (fds : List Nat) : Occurrence :=
  { ev := { ident := 3, filter := .read, eof := false, error := false }, reads := []
    accepts := fds.map fun fd => .connection fd true true true, sock := willing, heap := [] }

/-- A client became readable. -/
def readable (fd : Nat) (bytes : Bytes) (sock : Nat → SockEnv) : Occurrence :=
  { ev := { ident := fd, filter := .read, eof := false, error := false }, reads := [.data bytes]
    accepts := [], sock := sock, heap := [] }

/-- The buyer orders twice.  When the subscriber is to be told of the first trade, its socket
is full and there is no memory for a buffer. -/
def deafSubscriber : List Occurrence :=
  [ listening [5, 6, 7],
    readable 5 (lit "LOGIN ann\nSELL JNST 10 5\n") willing,
    readable 6 (lit "SUBSCRIBE JNST\n") willing,
    readable 7 (lit "LOGIN bob\nBUY JNST 4 5\n")
      (Function.update willing 6 { writes := [.eagain], mallocs := [false] }),
    readable 7 (lit "BUY JNST 3 5\n") willing ]

/-- **A message is lost on a live connection**: the subscriber misses the first trade and is
handed the second. -/
theorem silent_loss :
    ¬ ∀ os : List Occurrence, NoSilentLoss (Run.run dispatch (.init 3 []) os) := by
  intro h
  have hlast : ¬ NoneBehind 1 (Run.run dispatch (.init 3 []) deafSubscriber).trace := by
    unfold NoneBehind
    decide +kernel
  exact hlast ((h deafSubscriber).last 1)

example : (handedTo 1 (Run.run dispatch (.init 3 []) deafSubscriber).trace).map
    (fun h => (h.msg, h.failed))
    = [(lit "OK\n", false), (lit "TRADE JNST 4 5\n", true),
      (lit "TRADE JNST 3 5\n", false)] := by
  decide +kernel

end SocketExchange
