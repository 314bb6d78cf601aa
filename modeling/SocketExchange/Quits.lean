/-
# How a connection ends after `QUIT`

`QUIT` marks its connection as closing and answers `OK`.  A closing connection is not read any
more; it stays until its output has drained, and the flush that empties it removes it.

The main loop is taken apart into the acts of `Steps`, now with what `communicate` has checked
before each of them: only a connection that is not closing is read and has its lines handled
(`Attended`).  From that follow, act by act, the order of the notes in the trace and that no
closing connection is left with nothing to send.
-/
import SocketExchange.Losses
import SocketExchange.Requests
import SocketExchange.Roles
import SocketExchange.Staleness

namespace SocketExchange

open CText

/-! ## 1. Acts as the loop takes them -/

/-- Acts that take input: reading, handling a line, refusing one that is too long. -/
def ClientAct.takesInput : ClientAct → Bool
  | .received _ | .command _ | .overlong => true
  | _ => false

/-- Input is taken from a connection that is not closing only. -/
def Attended (w : World) (a : Act) : Prop :=
  ∀ fd ca c, a = .client fd ca → ca.takesInput = true → w.slot fd = some c → c.closing = false

/-- One world comes to another by acts that are attended. -/
def Paced (w w' : World) : Prop := ∃ as, Run.Meets act Attended w as ∧ Run.run act w as = w'

namespace Paced

theorem refl (w : World) : Paced w w := ⟨[], trivial, rfl⟩

theorem trans {u v w : World} (h : Paced u v) (h' : Paced v w) : Paced u w := by
  obtain ⟨as, ha, rfl⟩ := h
  obtain ⟨bs, hb, rfl⟩ := h'
  exact ⟨as ++ bs, Run.meets_append.mpr ⟨ha, hb⟩, Run.run_append act u as bs⟩

theorem one {w : World} {a : Act} (h : Attended w a) : Paced w (act w a) :=
  ⟨[a], ⟨h, trivial⟩, rfl⟩

/-- An act on a filled slot. -/
theorem client {w : World} {fd : Nat} {c : ClientConnection} (hc : w.slot fd = some c)
    {a : ClientAct} (h : a.takesInput = true → c.closing = false) : Paced w (serve fd c w a) := by
  have h1 : Attended w (.client fd a) := by
    intro n ca d ha hin hd
    cases ha
    rw [hc, Option.some.injEq] at hd
    exact hd ▸ h hin
  have h2 := one h1
  simp only [act, hc] at h2
  exact h2

/-- What every attended act keeps, they keep together. -/
theorem invariant {I : World → Prop} (hstep : ∀ w a, I w → Attended w a → I (act w a))
    {w w' : World} (h : Paced w w') (hw : I w) : I w' := by
  obtain ⟨as, ha, rfl⟩ := h
  exact Run.run_invariant_of_meets hstep as w ha hw

theorem reachable {w w' : World} (h : Paced w w') (hw : Reachable w) : Reachable w' := by
  obtain ⟨as, -, rfl⟩ := h
  exact hw.steps (P := Any) ⟨as, fun _ _ => trivial, rfl⟩

end Paced

/-- The read loop is attended. -/
theorem Reading.paced {fd : Nat} {w : World} {e : ReadEnd} {r : World × Bool}
    (h : Reading fd w e r) {c : ClientConnection} (hc : w.slot fd = some c) :
    Paced w (removeIfDone fd r) := by
  induction h generalizing c with
  | blocked w => exact .refl w
  | fin w => exact .client hc (a := .drop) fun h => by cases h
  | failed w => exact .client hc (a := .drop) fun h => by cases h
  | @input w c' a e r hc' hopen ha _ ih =>
    obtain ⟨d, hd⟩ := serve_input_slot hc' ha
    exact (Paced.client hc' fun _ => hopen).trans (ih hd)
  | @line w c' text e r hc' hopen hstay hstill _ ih =>
    obtain ⟨d, hd, -⟩ := processLine_slot fd hc' text
    have h1 := Paced.client hc' (a := .command text) fun _ => hopen
    simp only [serve, removeIfDone, hstay, Bool.false_eq_true, if_false] at h1
    exact h1.trans (ih hd)
  | last text hc' hopen hend => exact .client hc' (a := .command text) fun _ => hopen
  | @overlong w c' e r hc' hopen hstay _ ih =>
    obtain ⟨d, hd, -⟩ := rejectLine_slot fd hc'
    have h1 := Paced.client hc' (a := .overlong) fun _ => hopen
    simp only [serve, removeIfDone, hstay, Bool.false_eq_true, if_false] at h1
    exact h1.trans (ih hd)
  | refused hc' hopen hfail => exact .client hc' (a := .overlong) fun _ => hopen

theorem communicate_paced (fd : Nat) (reads : List ReadResult) {w : World} {c : ClientConnection}
    (hc : w.slot fd = some c) : Paced w (removeIfDone fd (communicate fd reads w)) := by
  unfold communicate
  split
  · exact .refl w
  · rename_i hopen
    rw [conn_of_slot hc] at hopen
    exact (readLoop_reading fd reads w c hc (by simpa using hopen)).paced hc

theorem handleClientEvent_paced (ev : Kevent) (reads : List ReadResult) (w : World) :
    Paced w (handleClientEvent ev reads w) := by
  unfold handleClientEvent
  split
  · exact .refl w
  · rename_i c hc
    have h1 := Paced.client hc (a := .applied) fun h => by cases h
    have hs : (w.note (.applied c.serial ev.ident)).slot ev.ident = some c := hc
    refine h1.trans ?_
    unfold serveEvent
    split
    · exact .client hs (a := .drop) fun h => by cases h
    · split
      · exact .client hs (a := .flush) fun h => by cases h
      · exact communicate_paced ev.ident reads hs

theorem acceptClients_paced : ∀ (rs : List AcceptResult) (w : World), Paced w (acceptClients rs w)
  | [], w => .refl w
  | .drained :: _, w => .refl w
  | .interrupted :: rs, w => acceptClients_paced rs w
  | .connection fd grown calloced armed :: rs, w => by
    have h1 := Paced.one (w := w) (a := .accept fd grown calloced armed) fun _ _ _ h => by cases h
    rw [act] at h1
    rw [acceptClients]
    split
    · exact acceptClients_paced rs w
    · rename_i h
      rw [if_neg h] at h1
      exact h1.trans (acceptClients_paced rs _)

theorem dispatch_paced (w : World) (o : Occurrence) : Paced w (dispatch w o) := by
  have h1 := Paced.one (w := w) (a := .supply o.sock o.heap) fun _ _ _ h => by cases h
  refine h1.trans ?_
  unfold dispatch
  dsimp only
  split
  · exact acceptClients_paced _ _
  · exact handleClientEvent_paced _ _ _

/-- **Every run of the main loop is attended.** -/
theorem server_paced (os : List Occurrence) (w : World) : Paced w (Run.run dispatch w os) :=
  Run.run_related Paced.refl Paced.trans dispatch_paced os w

/-! ## 2. A closing connection has something to send -/

/-- How `flushToClient` ends: it tells the caller to remove the client when all is written and
the connection is closing, or when a `write` has failed. -/
theorem flushLoop_end (mallocs : List Bool) : ∀ (rs : List WriteResult) (conn : ClientConnection)
    (wrote : Bytes),
    if (flushLoop conn wrote mallocs rs).failed = true then
      (flushLoop conn wrote mallocs rs).conn.outlen = 0 ∨
        ∃ pre, rs = pre ++ .error :: (flushLoop conn wrote mallocs rs).env.writes
    else conn.closing = true → 0 < (flushLoop conn wrote mallocs rs).conn.outlen
  | [], conn, wrote => by
    unfold flushLoop
    dsimp only
    by_cases h0 : conn.outlen = 0
    · rw [if_pos h0]
      split
      · exact .inl h0
      · rename_i hopen
        exact fun h => absurd h hopen
    · rw [if_neg h0, if_neg (by decide)]
      exact fun _ => Nat.pos_of_ne_zero h0
  | r :: rs, conn, wrote => by
    unfold flushLoop
    by_cases h0 : conn.outlen = 0
    · rw [if_pos h0]
      dsimp only
      split
      · exact .inl h0
      · rename_i hopen
        exact fun h => absurd h hopen
    · rw [if_neg h0]
      -- a `write` that went on shifts the error found later
      have hnext : ∀ {conn' : ClientConnection} {wrote' : Bytes}, conn'.closing = conn.closing →
          (if (flushLoop conn' wrote' mallocs rs).failed = true then
            (flushLoop conn' wrote' mallocs rs).conn.outlen = 0 ∨
              ∃ pre, r :: rs = pre ++ .error :: (flushLoop conn' wrote' mallocs rs).env.writes
          else conn.closing = true → 0 < (flushLoop conn' wrote' mallocs rs).conn.outlen) := by
        intro conn' wrote' hsame
        have ih := flushLoop_end mallocs rs conn' wrote'
        split at ih
        · rename_i hfailed
          rw [if_pos hfailed]
          rcases ih with ih | ⟨pre, hpre⟩
          · exact .inl ih
          · exact .inr ⟨r :: pre, by rw [List.cons_append, ← hpre]⟩
        · rename_i hfailed
          rw [if_neg hfailed]
          exact hsame ▸ ih
      cases r with
      | eintr => exact hnext rfl
      | eagain => exact fun _ => Nat.pos_of_ne_zero h0
      | error => exact .inr ⟨[], rfl⟩
      | took n => exact hnext rfl

theorem flushToClient_end (env : SockEnv) (conn : ClientConnection) :
    if (flushToClient env conn).failed = true then
      (flushToClient env conn).conn.outlen = 0 ∨
        ∃ pre, env.writes = pre ++ .error :: (flushToClient env conn).env.writes
    else conn.closing = true → 0 < (flushToClient env conn).conn.outlen :=
  flushLoop_end env.mallocs env.writes conn []

/-- Something waits to be written on the connection in this slot. -/
def Waits (w : World) (n : Nat) : Prop := ∃ c, w.slot n = some c ∧ 0 < c.outlen

/-- A send never takes from what waits. -/
theorem sendToClient_waits (env : SockEnv) {conn : ClientConnection} (h : 0 < conn.outlen)
    (data : Bytes) : 0 < (sendToClient env conn data).conn.outlen := by
  unfold sendToClient
  rw [if_neg (by omega)]
  by_cases hroom : HasRoom env.mallocs conn data
  · have hp := (queueRest_of_room [] hroom).2
    rw [ClientConnection.outlen, hp, List.length_append]
    exact Nat.add_pos_left h _
  · rw [ClientConnection.outlen, (queueRest_of_noRoom [] hroom).2]
    exact h

theorem sendLine_waits (why : Cause) (fd : Nat) (line : Bytes) {w : World} {n : Nat}
    (h : Waits w n) : Waits (sendLine why fd line w).1 n := by
  obtain ⟨c, hc, hout⟩ := h
  by_cases hn : n = fd
  · subst hn
    refine ⟨_, (sendLine_slot why hc line n).trans (if_pos rfl), ?_⟩
    exact sendToClient_waits _ hout _
  · exact ⟨c, (sendLine_slot_ne why hn line w).trans hc, hout⟩

theorem foldl_hand_waits (self : Nat) (ds : List Delivery) {s : World × Bool} {n : Nat}
    (h : Waits s.1 n) : Waits (ds.foldl (hand self) s).1 n :=
  Run.run_invariant (I := fun t : World × Bool => Waits t.1 n)
    (fun _ d h => sendLine_waits { self := self, about := d.about } d.fd d.msg h) ds s h

theorem modify_waits {w : World} {n : Nat} (h : Waits w n) (fd : Nat)
    {f : ClientConnection → ClientConnection} (hf : ∀ c, (f c).outbuf = c.outbuf) :
    Waits (w.modify fd f) n := by
  obtain ⟨c, hc, hout⟩ := h
  by_cases hn : n = fd
  · subst hn
    refine ⟨f c, modify_slot n hc f, ?_⟩
    rw [ClientConnection.outlen, ClientConnection.pending, hf]
    exact hout
  · exact ⟨c, (slot_modify_ne w fd f hn).trans hc, hout⟩

/-- **Handling a line** leaves everybody's waiting output. -/
theorem Handling.waits {self : Nat} {w : World} {q : Bool} {o : Option (Order × List Bool)}
    {r : World × Bool} (h : Handling self w q o r) {n : Nat} (hn : Waits w n) : Waits r.1 n := by
  cases h with
  | silent => exact hn
  | replied heap f hf hrole hmsg =>
    have hm : Waits { w with heap := heap } n := hn
    exact sendLine_waits _ _ _ (modify_waits hm self fun c => (hf c).2.2)
  | quit => exact sendLine_waits _ _ _ (modify_waits hn self fun _ => rfl)
  | @accepted heap side inst quantity price hq hp hin ord hord =>
    rw [acceptOrder_eq]
    have hm : Waits { w with heap := heap } n := hn
    exact foldl_hand_waits self _ (sendLine_waits { self := self, about := none } self
      (acceptedText ord.id) (w := { w with heap := heap, exchange := w.exchange.takeId ord }) hm)
  | @cancelled id r h => exact sendLine_waits _ _ _ (w := World.note _ _) hn

/-- `QUIT` is handled by `quitUser`. -/
theorem Handling.of_quit {self : Nat} {w : World} {o : Option (Order × List Bool)}
    {r : World × Bool} (h : Handling self w true o r) : r = quitUser self w := by
  cases h
  rfl

theorem processLine_quit {line : Bytes} (h : executesQuit line = true) (fd : Nat) (w : World) :
    processLine line fd w = quitUser fd (w.note (.line (w.conn fd).serial line)) :=
  Handling.of_quit (h ▸ processLine_handling fd w line)

/-- Every closing connection has something to send. -/
def Draining (w : World) : Prop := ∀ fd c, w.slot fd = some c → c.closing = true → 0 < c.outlen

theorem Draining.of_slots {w w' : World} (hw : Draining w)
    (h : ∀ n c', w'.slot n = some c' → c'.closing = true →
      ∃ c, w.slot n = some c ∧ c.closing = true ∧ (0 < c.outlen → 0 < c'.outlen)) :
    Draining w' := by
  intro n c' hc' hclosing
  obtain ⟨c, hc, hcc, hout⟩ := h n c' hc' hclosing
  exact hout (hw n c hc hcc)

theorem Draining.removed {w : World} (hw : Draining w) (fd : Nat) :
    Draining (removeClient fd w) := by
  intro n c hc hclosing
  rw [removeClient_slot] at hc
  split at hc
  · cases hc
  · exact hw n c hc hclosing

/-- A line may make its client closing, and then tells the caller to remove it if nothing
waits. -/
theorem draining_command {w : World} (hw : Draining w) {fd : Nat} {c : ClientConnection}
    (hc : w.slot fd = some c) (line : Bytes) :
    Draining (removeIfDone fd (processLine line fd w)) := by
  have hand := processLine_handling fd w line
  have hwaits : ∀ n, Waits w n → Waits (processLine line fd w).1 n := fun n hn => hand.waits hn
  -- apart from the sender, whoever is closing was closing before
  have hothers : ∀ n c', n ≠ fd → (processLine line fd w).1.slot n = some c' → c'.closing = true →
      0 < c'.outlen := by
    intro n c' hn hc' hclosing
    have hb := hand.others hn
    rw [hc', slot_note, Option.map_some, eq_comm, Option.map_eq_some_iff] at hb
    obtain ⟨e, he, hbare⟩ := hb
    have hcl : e.bare.closing = c'.bare.closing := congrArg _ hbare
    obtain ⟨d, hd, hout⟩ := hwaits n ⟨e, he, hw n e he (hcl.trans hclosing)⟩
    rw [hc', Option.some.injEq] at hd
    exact hd ▸ hout
  unfold removeIfDone
  split
  · intro n c' hc' hclosing
    rw [removeClient_slot] at hc'
    split at hc'
    · cases hc'
    · rename_i hn
      exact hothers n c' hn hc' hclosing
  · rename_i hstay
    intro n c' hc' hclosing
    by_cases hn : n = fd
    · subst hn
      have hset := hand.closing (c := c) hc
      rw [conn_of_slot hc', hclosing, eq_comm, Bool.or_eq_true] at hset
      rcases hset with hquit | hcc
      · rw [processLine_quit hquit] at hstay hc'
        simp only [quitUser, Bool.or_eq_true, not_or, beq_iff_eq] at hstay hc'
        rw [conn_of_slot hc'] at hstay
        omega
      · obtain ⟨d, hd, hout⟩ := hwaits n ⟨c, hc, hw n c hc hcc⟩
        rw [hc', Option.some.injEq] at hd
        exact hd ▸ hout
    · exact hothers n c' hn hc' hclosing

theorem Draining.of_modify {w v : World} (hw : Draining w) (hv : ∀ n, v.slot n = w.slot n)
    (fd : Nat) {f : ClientConnection → ClientConnection}
    (hf : ∀ c, (f c).closing = c.closing ∧ (f c).outbuf = c.outbuf) : Draining (v.modify fd f) := by
  refine hw.of_slots fun n c' hc' hclosing => ?_
  rw [slot_modify, hv] at hc'
  split at hc'
  · obtain ⟨c, hc, rfl⟩ := Option.map_eq_some_iff.mp hc'
    refine ⟨c, hc, (hf c).1 ▸ hclosing, fun h => ?_⟩
    rw [ClientConnection.outlen, ClientConnection.pending, (hf c).2]
    exact h
  · exact ⟨c', hc', hclosing, id⟩

/-- What a flush leaves in the slots, and when it tells the caller to remove the client. -/
theorem flushClient_slot {w : World} {fd : Nat} {c : ClientConnection} (hc : w.slot fd = some c) :
    (∀ n, (flushClient fd w).1.slot n
      = if n = fd then some (flushToClient (w.sock fd) c).conn else w.slot n) ∧
    (flushClient fd w).2 = (flushToClient (w.sock fd) c).failed := by
  unfold flushClient
  rw [conn_of_slot hc]
  refine ⟨fun n => ?_, rfl⟩
  rw [slot_note, slot_modify]
  split
  · rename_i hn
    have hs : ∀ sock, World.slot { w with sock := sock } n = some c := fun _ => hn ▸ hc
    rw [hs]
    rfl
  · rfl

/-- The flush that empties a closing connection removes it. -/
theorem draining_flush {w : World} (hw : Draining w) {fd : Nat} {c : ClientConnection}
    (hc : w.slot fd = some c) : Draining (removeIfDone fd (flushClient fd w)) := by
  obtain ⟨hslots, hflag⟩ := flushClient_slot hc
  have hend := flushToClient_end (w.sock fd) c
  unfold removeIfDone
  split
  · intro n c' hc' hclosing
    rw [removeClient_slot] at hc'
    split at hc'
    · cases hc'
    · rename_i hn
      rw [hslots, if_neg hn] at hc'
      exact hw n c' hc' hclosing
  · rename_i hstay
    rw [hflag] at hstay
    rw [if_neg hstay] at hend
    intro n c' hc' hclosing
    rw [hslots] at hc'
    split at hc'
    · cases hc'
      have hsame : (flushToClient (w.sock fd) c).conn.bare.closing = c.bare.closing :=
        congrArg ClientConnection.closing (flushToClient_bare (w.sock fd) c)
      exact hend (hsame ▸ hclosing)
    · exact hw n c' hc' hclosing

/-- **No closing connection lingers with nothing to send.** -/
theorem draining_act {w : World} (howned : Owned w) (hw : Draining w) (a : Act) :
    Draining (act w a) := by
  cases a with
  | supply sock heap => exact hw
  | accept fd grown calloced armed =>
    rw [act]
    split
    · exact hw
    · rename_i hopen
      have hcases := acceptClient_cases howned.housed.table hopen (howned.housed.slot_none hopen)
        grown calloced armed
      split at hcases
      · intro n c' hc' hclosing
        rw [hcases.slot] at hc'
        split at hc'
        · cases hc'
          cases hclosing
        · exact hw n c' hc' hclosing
      · intro n c' hc' hclosing
        exact hw n c' (hcases.slot n ▸ hc') hclosing
  | client fd a =>
    cases hc : w.slot fd with
    | none =>
      simp only [act, hc]
      exact hw
    | some c =>
      simp only [act, hc]
      cases a with
      | applied => exact hw
      | received got => exact hw.of_modify (v := w.note _) (fun _ => rfl) fd fun _ => ⟨rfl, rfl⟩
      | buffered f => exact hw.of_modify (fun _ => rfl) fd fun _ => ⟨rfl, rfl⟩
      | command line => exact draining_command hw hc line
      | overlong =>
        have hnoted : Draining (w.note (.tooLong (w.conn fd).serial)) := hw
        have hreply : Draining (rejectLine fd w).1 := by
          intro n c' hc' hclosing
          have hr : w.roster = (rejectLine fd w).1.roster := (reply_roster _ _ _).symm
          obtain ⟨d, hd, hb⟩ := slot_of_view (v := .bare) hr hc'
          have hcl : d.bare.closing = c'.bare.closing := congrArg ClientConnection.closing hb
          have hwait : Waits (w.note (.tooLong (w.conn fd).serial)) n :=
            ⟨d, hd, hw n d hd (hcl.trans hclosing)⟩
          obtain ⟨e, he, hout⟩ := sendLine_waits { self := fd, about := none } fd
            (snprintf 64 (lit "ERROR " ++ lit "Message too long" ++ lit "\n")) hwait
          have he' : (rejectLine fd w).1.slot n = some e := he
          rw [hc', Option.some.injEq] at he'
          exact he' ▸ hout
        simp only [serve, removeIfDone]
        split
        · exact hreply.removed fd
        · exact hreply
      | flush => exact draining_flush hw hc
      | drop => exact hw.removed fd

theorem draining_of_reachable {w : World} (hw : Reachable w) : Draining w :=
  (hw.invariant (I := fun w => Owned w ∧ Draining w)
    (fun serverFd others => ⟨owned_init serverFd others, fun fd c hc => by
      rw [init_slot] at hc
      cases hc⟩)
    fun _ a h => ⟨owned_act h.1 a, draining_act h.1 h.2 a⟩).2

/-! ## 3. Nothing is taken in behind `QUIT` -/

/-- Whose input this notes. -/
def Obs.inputOf : Obs → Option Nat
  | .read k _ _ | .line k _ | .tooLong k => some k
  | _ => none

/-- **Nothing from this connection is read or handled behind its `QUIT`.** -/
def QuitIsLast (k : Nat) (trace : List Obs) : Prop :=
  ∀ pre text post, trace = pre ++ .line k text :: post → executesQuit text = true →
    ∀ o ∈ post, o.inputOf ≠ some k

/-- What an act notes: the input it takes, if it takes any, comes first. -/
inductive Taken (w : World) (a : Act) : List Obs → Prop
  | none {new : List Obs} (h : ∀ o ∈ new, o.inputOf = Option.none) : Taken w a new
  | input {fd : Nat} {ca : ClientAct} {c : ClientConnection} {o : Obs} {rest : List Obs}
      (ha : a = .client fd ca) (hin : ca.takesInput = true) (hc : w.slot fd = some c)
      (ho : o.inputOf = some c.serial) (hline : ∀ k text, o = .line k text → ca = .command text)
      (hrest : ∀ o ∈ rest, o.inputOf = Option.none) : Taken w a (o :: rest)

theorem inputOf_output {o : Obs} (h : o.isOutput = true) : o.inputOf = none := by
  cases o <;> first | rfl | cases h

theorem taken_act {w : World} (hw : Housed w) (a : Act) :
    ∃ new, (act w a).trace = w.trace ++ new ∧ Taken w a new := by
  have hsame : ∃ new, w.trace = w.trace ++ new ∧ Taken w a new :=
    ⟨[], (List.append_nil _).symm, .none (by simp)⟩
  -- a removal at the end of an act is no input
  have hdone : ∀ {P : List Obs → Prop} (fd : Nat) (s : World × Bool) (new : List Obs),
      s.1.trace = w.trace ++ new →
      (∀ more : List Obs, (∀ o ∈ more, o.inputOf = none) → P (new ++ more)) →
      ∃ new, (removeIfDone fd s).trace = w.trace ++ new ∧ P new := by
    intro P fd s new htrace hP
    obtain ⟨more, hmore, hremoved⟩ := removeIfDone_notes fd s
    refine ⟨new ++ more, by rw [hmore, htrace, List.append_assoc], hP more fun o ho => ?_⟩
    obtain ⟨-, c, -, rfl⟩ := hremoved o ho
    rfl
  cases a with
  | supply sock heap => exact hsame
  | accept fd grown calloced armed =>
    rw [act]
    split
    · exact hsame
    · rename_i hopen
      have hcases := acceptClient_cases hw.table hopen (hw.slot_none hopen) grown calloced armed
      split at hcases
      · exact ⟨_, hcases.trace, .none (by simp [Obs.inputOf])⟩
      · exact ⟨[], by rw [hcases.trace, List.append_nil], .none (by simp)⟩
  | client fd a =>
    cases hc : w.slot fd with
    | none =>
      simp only [act, hc]
      exact hsame
    | some c =>
      simp only [act, hc]
      cases a with
      | applied => exact ⟨_, rfl, .none (by simp [Obs.inputOf])⟩
      | received got => exact ⟨_, rfl, .input rfl rfl hc rfl (fun _ _ h => by cases h) (by simp)⟩
      | buffered f => exact hsame
      | command line =>
        obtain ⟨new, htrace, hout⟩ := (processLine_kept line fd w).trace
        rw [trace_note, List.append_assoc, conn_of_slot hc] at htrace
        refine hdone fd (processLine line fd w) _ htrace fun more hmore => ?_
        refine .input rfl rfl hc rfl (fun k text h => by cases h; rfl) fun o ho => ?_
        rcases List.mem_append.mp ho with ho | ho
        · exact inputOf_output (hout o ho)
        · exact hmore o ho
      | overlong =>
        have htrace : (rejectLine fd w).1.trace = w.trace ++ [.tooLong (w.conn fd).serial,
          .handed _] := List.append_assoc _ _ _
        rw [conn_of_slot hc] at htrace
        refine hdone fd (rejectLine fd w) _ htrace fun more hmore => ?_
        refine .input rfl rfl hc rfl (fun k text h => by cases h) fun o ho => ?_
        rcases List.mem_cons.mp ho with rfl | ho
        · rfl
        · exact hmore o ho
      | flush =>
        exact hdone fd (flushClient fd w) [_] rfl fun more hmore => .none fun o ho => by
          rcases List.mem_cons.mp ho with rfl | ho
          · rfl
          · exact hmore o ho
      | drop =>
        exact hdone fd (w, true) [] (List.append_nil _).symm fun more hmore => .none hmore

/-- A line in a trace that an act has made longer was there, or the act has handled it and notes
no other input. -/
theorem Taken.split {w : World} {a : Act} {new : List Obs} (h : Taken w a new) {k : Nat}
    {text : Bytes} {pre post : List Obs} (hs : w.trace ++ new = pre ++ .line k text :: post) :
    (∃ rest, w.trace = pre ++ .line k text :: rest ∧ post = rest ++ new) ∨
      (pre = w.trace ∧ (∀ o ∈ post, o.inputOf = Option.none) ∧
        ∃ fd c, a = .client fd (.command text) ∧ w.slot fd = some c ∧ c.serial = k) := by
  -- a line of the act's own is what it notes first
  have hown : ∀ {as : List Obs}, pre = w.trace ++ as → new = as ++ .line k text :: post →
      pre = w.trace ∧ (∀ o ∈ post, o.inputOf = Option.none) ∧
        ∃ fd c, a = .client fd (.command text) ∧ w.slot fd = some c ∧ c.serial = k := by
    intro as hpre hnew
    cases h with
    | none h => cases h (.line k text) (by rw [hnew]; simp)
    | @input fd ca c o rest ha hin hc ho hline hrest =>
      rcases as with _ | ⟨x, as⟩
      · obtain ⟨rfl, rfl⟩ := List.cons.inj hnew
        refine ⟨by rw [hpre, List.append_nil], hrest, fd, c, ?_, hc, (Option.some.inj ho).symm⟩
        rw [ha, hline k text rfl]
      · obtain ⟨-, rfl⟩ := List.cons.inj hnew
        cases hrest (.line k text) (by simp)
  rcases List.append_eq_append_iff.mp hs with ⟨as, hpre, hnew⟩ | ⟨bs, hold, hrest⟩
  · exact .inr (hown hpre hnew)
  · rcases bs with _ | ⟨x, bs⟩
    · exact .inr (@hown [] (by rw [hold, List.append_nil, List.append_nil]) hrest.symm)
    · obtain ⟨rfl, rfl⟩ := List.cons.inj hrest
      exact .inl ⟨bs, hold, rfl⟩

/-- Whose input an act notes, its connection is there and open. -/
theorem Taken.attended {w : World} {a : Act} {new : List Obs} (h : Taken w a new)
    (ha : Attended w a) {o : Obs} (ho : o ∈ new) {k : Nat} (hk : o.inputOf = some k) :
    ∃ fd c, w.slot fd = some c ∧ c.serial = k ∧ c.closing = false := by
  cases h with
  | none h =>
    rw [h o ho] at hk
    cases hk
  | @input fd ca c o' rest ha' hin hc ho' hline hrest =>
    rcases List.mem_cons.mp ho with rfl | ho
    · rw [ho', Option.some.injEq] at hk
      exact ⟨fd, c, hc, hk, ha fd ca c ha' hin hc⟩
    · rw [hrest o ho] at hk
      cases hk

/-- **Closing lasts**, and `QUIT` begins it. -/
theorem closing_act {w : World} (hw : Housed w) (a : Act) {n : Nat} {c' : ClientConnection}
    (hc' : (act w a).slot n = some c') : c'.serial = w.accepts ∨
      ∃ c, w.slot n = some c ∧ c'.serial = c.serial ∧ (c.closing = true → c'.closing = true) ∧
        ∀ text, a = .client n (.command text) → executesQuit text = true → c'.closing = true := by
  have hsession : ∀ {c c' : ClientConnection}, c'.session = c.session →
      c'.serial = c.serial ∧ c'.closing = c.closing := by
    intro c c' hs
    have hser : c'.session.serial = c.session.serial := congrArg _ hs
    have hcl : c'.session.closing = c.session.closing := congrArg _ hs
    exact ⟨hser, hcl⟩
  by_cases ha : ∃ fd line, a = .client fd (.command line)
  · obtain ⟨fd, line, rfl⟩ := ha
    refine .inr ?_
    cases hc : w.slot fd with
    | none =>
      simp only [act, hc] at hc'
      refine ⟨c', hc', rfl, id, fun text h => ?_⟩
      cases h
      rw [hc] at hc'
      cases hc'
    | some c =>
      simp only [act, hc] at hc'
      have hc1 := slot_of_removeIfDone (s := processLine line fd w) hc'
      obtain ⟨hserved, ⟨d, hd, hfixed, hcl⟩, -⟩ :=
        processLine_served hc (hw.own _ _ _ (badge_of_slot hc)) line
      by_cases hn : n = fd
      · subst hn
        rw [hd, Option.some.injEq] at hc1
        subst hc1
        have hser : d.fixed.serial = c.fixed.serial := congrArg _ hfixed
        refine ⟨c, hc, hser, fun h => by rw [hcl, h, Bool.or_true], fun text ha hq => ?_⟩
        cases ha
        rw [hcl, hq, Bool.true_or]
      · obtain ⟨e, he, hb⟩ := slot_of_bare (hserved.others n hn) hc1
        obtain ⟨hser, hcl⟩ := hsession (session_of_bare hb)
        refine ⟨e, he, hser, fun h => hcl.trans h, fun text ha => ?_⟩
        cases ha
        exact absurd rfl hn
  · push Not at ha
    have hout := outcome_act hw ha
    have hold : ∀ {v : World}, Settled w v → v.slot n = some c' → ∃ c, w.slot n = some c ∧
        c'.serial = c.serial ∧ (c.closing = true → c'.closing = true) ∧
        ∀ text, a = .client n (.command text) → executesQuit text = true → c'.closing = true := by
      intro v hv hvc
      obtain ⟨c, hc, hs⟩ := hv.sessions n c' hvc
      obtain ⟨hser, hcl⟩ := hsession hs
      exact ⟨c, hc, hser, fun h => hcl.trans h, fun text h => absurd h (ha n text)⟩
    generalize act w a = w' at hout hc'
    cases hout with
    | settled h => exact .inr (hold h hc')
    | left h hc => exact .inr (hold h (slot_of_removed hc'))
    | came h =>
      rw [h.slot] at hc'
      split at hc'
      · cases hc'
        exact .inl rfl
      · exact .inr (hold (.refl w) hc')

/-- `QUIT` is noted last and leaves its connection closing. -/
structure Leaving (w : World) : Prop where
  roles : Roles w
  last : ∀ k, QuitIsLast k w.trace
  closing : ∀ fd c text, w.slot fd = some c → .line c.serial text ∈ w.trace →
    executesQuit text = true → c.closing = true
  known : ∀ k text, .line k text ∈ w.trace → k < w.accepts

theorem leaving_act {w : World} (hw : Leaving w) {a : Act} (ha : Attended w a) :
    Leaving (act w a) := by
  have hhouse := hw.roles.owned.housed
  obtain ⟨new, htrace, htaken⟩ := taken_act hhouse a
  have hacc := (persist_act hw.roles a).accepts
  -- a line that is new is of the client that acts
  have hline : ∀ k text, .line k text ∈ new → ∃ fd c, a = .client fd (.command text) ∧
      w.slot fd = some c ∧ c.serial = k := by
    intro k text hk
    cases htaken with
    | none h => cases h _ hk
    | @input fd ca c o rest ha' hin hc ho hl hrest =>
      rcases List.mem_cons.mp hk with rfl | hk
      · rw [hl k text rfl] at ha'
        exact ⟨fd, c, ha', hc, (Option.some.inj ho).symm⟩
      · cases hrest _ hk
  refine ⟨roles_act hw.roles a, fun k pre text post hsplit hquit o ho hin => ?_,
    fun n c' text hc' hk hquit => ?_, fun k text hk => ?_⟩
  · rw [htrace] at hsplit
    rcases htaken.split hsplit with ⟨rest, hold, rfl⟩ | ⟨-, hnone, -⟩
    · rcases List.mem_append.mp ho with ho | ho
      · exact hw.last k pre text rest hold hquit o ho hin
      · -- its connection is closing, and takes no input
        obtain ⟨fd, c, hc, hk, hopen⟩ := htaken.attended ha ho hin
        rw [hw.closing fd c text hc (by rw [hk, hold]; simp) hquit] at hopen
        cases hopen
    · rw [hnone o ho] at hin
      cases hin
  · rw [htrace, List.mem_append] at hk
    rcases closing_act hhouse a hc' with hnew | ⟨c, hc, hser, hstays, hbegins⟩
    · rcases hk with hk | hk
      · have := hw.known _ _ hk
        omega
      · obtain ⟨fd, c, -, hc, hser⟩ := hline _ _ hk
        have := hhouse.known _ _ _ (badge_of_slot hc)
        omega
    · rcases hk with hk | hk
      · rw [hser] at hk
        exact hstays (hw.closing n c text hc hk hquit)
      · obtain ⟨fd, d, rfl, hd, hser'⟩ := hline _ _ hk
        have hb := badge_of_slot hd
        rw [hser', hser] at hb
        have hn := hhouse.distinct _ _ _ _ _ hb (badge_of_slot hc)
        exact hbegins text (by rw [hn]) hquit
  · rw [htrace, List.mem_append] at hk
    rcases hk with hk | hk
    · exact lt_of_lt_of_le (hw.known k text hk) hacc
    · obtain ⟨fd, c, -, hc, rfl⟩ := hline k text hk
      exact lt_of_lt_of_le (hhouse.known _ _ _ (badge_of_slot hc)) hacc

theorem leaving_init (serverFd : Nat) (others : List Nat) : Leaving (.init serverFd others) := by
  refine ⟨roles_of_reachable ⟨serverFd, others, [], rfl⟩, fun k pre text post h => ?_,
    fun fd c text hc => ?_, fun k text h => by (cases h)⟩
  · rcases pre with _ | ⟨x, pre⟩ <;> cases h
  · rw [init_slot] at hc
    cases hc

theorem leaving_of_run (serverFd : Nat) (others : List Nat) (os : List Occurrence) :
    Leaving (Run.run dispatch (.init serverFd others) os) :=
  (server_paced os _).invariant (fun _ _ h ha => leaving_act h ha) (leaving_init serverFd others)

/-! ## 4. Why a connection that has quit is gone -/

/-- All of the stream of this connection has been written. -/
def WrittenOut (k : Nat) (trace : List Obs) : Prop :=
  writtenTo k trace = (handedTo k trace).flatMap Handed.part

/-- The `OK` to `QUIT` is what was noted last, and it failed. -/
def OkFailed (k : Nat) (trace : List Obs) : Prop :=
  ∃ pre text h, trace = pre ++ [.line k text, .handed h] ∧ executesQuit text = true ∧
    h.issuer = k ∧ h.receiver = k ∧ h.msg = lit "OK\n" ∧ h.failed = true

/-- No `QUIT` of this connection has been handled. -/
def NoQuit (k : Nat) (trace : List Obs) : Prop :=
  ∀ text, .line k text ∈ trace → executesQuit text = false

theorem NoQuit.append {k : Nat} {trace new : List Obs} (h : NoQuit k trace)
    (hnew : ∀ text, .line k text ∈ new → executesQuit text = false) : NoQuit k (trace ++ new) :=
  fun text ht => (List.mem_append.mp ht).elim (h text) (hnew text)

theorem WrittenOut.quiet {k : Nat} {trace new : List Obs} (h : WrittenOut k trace)
    (hnew : ∀ o ∈ new, o.isQuiet = true) : WrittenOut k (trace ++ new) := by
  obtain ⟨h1, h2⟩ := quiet_notes hnew k
  unfold WrittenOut
  rw [handedTo_append, writtenTo_append, h1, h2, List.append_nil, List.append_nil]
  exact h

theorem WrittenOut.removeIfDone {k fd : Nat} {s : World × Bool} (h : WrittenOut k s.1.trace) :
    WrittenOut k (removeIfDone fd s).trace := by
  obtain ⟨new, htrace, hnew⟩ := removeIfDone_notes fd s
  rw [htrace]
  refine h.quiet fun o ho => ?_
  obtain ⟨-, c, -, rfl⟩ := hnew o ho
  rfl

/-- With nothing queued, all has been written. -/
theorem writtenOut_of_drained {w : World} (hw : Streamed w) {fd : Nat} {c : ClientConnection}
    (hc : w.slot fd = some c) (h0 : c.outlen = 0) : WrittenOut c.serial w.trace := by
  have h := hw.stream fd c hc
  rw [pending_eq_nil.mp h0, List.append_nil] at h
  exact h

/-- What a line notes, in front and behind. -/
theorem processLine_notes (text : Bytes) {w : World} {fd : Nat} {c : ClientConnection}
    (hc : w.slot fd = some c) : ∃ new, (processLine text fd w).1.trace
      = w.trace ++ .line c.serial text :: new ∧ ∀ o ∈ new, o.isOutput = true := by
  obtain ⟨new, htrace, hout⟩ := (processLine_kept text fd w).trace
  rw [trace_note, conn_of_slot hc, List.append_assoc] at htrace
  exact ⟨new, htrace, hout⟩

/-- What `QUIT` sends, and when it asks for the removal of its client. -/
theorem quitUser_ends {w : World} {fd : Nat} {c : ClientConnection} (hc : w.slot fd = some c) :
    ∃ h : Handed, (quitUser fd w).1.trace = w.trace ++ [.handed h] ∧ h.issuer = c.serial ∧
      h.receiver = c.serial ∧ h.about = none ∧ h.msg = lit "OK\n" ∧
      ((quitUser fd w).2 = true → h.failed = true ∨ ((quitUser fd w).1.conn fd).outlen = 0) := by
  have hs := modify_slot fd hc fun c => { c with closing := true }
  unfold quitUser
  generalize hv : (w.modify fd fun c => { c with closing := true }) = v at hs ⊢
  have htrace : v.trace = w.trace := hv ▸ rfl
  have hser : (v.conn fd).serial = c.serial := by rw [conn_of_slot hs]
  refine ⟨handedOf { self := fd, about := none } fd (lit "OK\n") v, htrace ▸ rfl, hser, hser, rfl,
    rfl, fun h => ?_⟩
  exact (Bool.or_eq_true _ _ ▸ h).imp_right beq_iff_eq.mp

/-- **The line that ends the read loop**: if it is `QUIT` and its client is to be removed, the
`OK` failed or nothing is left to be written. -/
theorem quit_last {w : World} (hw : Streamed w) {fd : Nat} {c : ClientConnection}
    (hc : w.slot fd = some c) {text : Bytes} (hquit : executesQuit text = true)
    (hdone : (processLine text fd w).2 = true) :
    WrittenOut c.serial (processLine text fd w).1.trace ∨
      OkFailed c.serial (processLine text fd w).1.trace := by
  have hs := streamed_processLine hw hc text
  obtain ⟨c', hc', hfixed⟩ := processLine_slot fd hc text
  have hser : c'.serial = c.serial :=
    (congrArg ClientConnection.serial hfixed : c'.fixed.serial = c.fixed.serial)
  rw [processLine_quit hquit] at hdone hs hc' ⊢
  obtain ⟨h, htrace, hissuer, hrecv, -, hmsg, hends⟩ :=
    quitUser_ends (w := w.note (.line (w.conn fd).serial text)) hc
  rcases hends hdone with hfailed | hdrained
  · refine .inr ⟨w.trace, text, h, ?_, hquit, hissuer, hrecv, hmsg, hfailed⟩
    rw [htrace, trace_note, conn_of_slot hc, List.append_assoc]
    rfl
  · rw [conn_of_slot hc'] at hdrained
    have hout := writtenOut_of_drained hs hc' hdrained
    rw [hser] at hout
    exact .inl hout

/-- In the middle of a read the streams are right, and the connection is there. -/
structure Present (fd k : Nat) (w : World) : Prop where
  streamed : Streamed w
  there : ∃ c, w.slot fd = some c ∧ c.serial = k

theorem Present.slot {fd k : Nat} {w : World} (h : Present fd k w) {c : ClientConnection}
    (hc : w.slot fd = some c) : c.serial = k := by
  obtain ⟨d, hd, hk⟩ := h.there
  rw [hc, Option.some.injEq] at hd
  exact hd ▸ hk

theorem Present.input {fd k : Nat} {w : World} (h : Present fd k w) {c : ClientConnection}
    {a : ClientAct} (hc : w.slot fd = some c) (ha : a.isInput = true) :
    Present fd k (serve fd c w a) := by
  have hk := h.slot hc
  cases a with
  | received got =>
    exact ⟨streamed_input h.streamed (.inr (.inl ⟨got, rfl⟩)), _,
      modify_slot fd (w := w.note _) hc _, hk⟩
  | buffered f =>
    exact ⟨streamed_input h.streamed (.inr (.inr ⟨f, rfl⟩)), _, modify_slot fd hc _, hk⟩
  | _ => cases ha

theorem Present.line {fd k : Nat} {w : World} (h : Present fd k w) {c : ClientConnection}
    (hc : w.slot fd = some c) (text : Bytes) : Present fd k (processLine text fd w).1 := by
  obtain ⟨c', hc', hfixed⟩ := processLine_slot fd hc text
  have hser : c'.fixed.serial = c.fixed.serial := congrArg _ hfixed
  exact ⟨streamed_processLine h.streamed hc text, c', hc',
    (show c'.serial = c.serial from hser).trans (h.slot hc)⟩

theorem Present.overlong {fd k : Nat} {w : World} (h : Present fd k w) {c : ClientConnection}
    (hc : w.slot fd = some c) : Present fd k (rejectLine fd w).1 := by
  obtain ⟨c', hc', hbare⟩ := rejectLine_slot fd hc
  exact ⟨streamed_rejectLine h.streamed hc, c', hc', (field_of_bare hbare).1.trans (h.slot hc)⟩

theorem Reading.present {fd k : Nat} {w : World} {e : ReadEnd} {r : World × Bool}
    (h : Reading fd w e r) (hw : Present fd k w) : Finish fd (Present fd k) e r :=
  h.finish fd (fun _ _ _ hc ha hv => hv.input hc ha) (fun _ _ text hc _ _ hv => hv.line hc text)
    (fun _ _ hc _ hv => hv.overlong hc) hw

/-- At the end of the loop the connection is still in its slot. -/
theorem Finish.present {fd k : Nat} {e : ReadEnd} {r : World × Bool}
    (h : Finish fd (Present fd k) e r) : Present fd k r.1 := by
  cases h with
  | blocked hv => exact hv
  | fin hv => exact hv
  | failed hv => exact hv
  | last hv text hc hend => exact hv.line hc text
  | refused hv hc hfail => exact hv.overlong hc

/-- Before any `QUIT`. -/
structure Midread (fd k : Nat) (w : World) : Prop extends Present fd k w where
  noQuit : NoQuit k w.trace

theorem Midread.input {fd k : Nat} {w : World} (h : Midread fd k w) {c : ClientConnection}
    {a : ClientAct} (hc : w.slot fd = some c) (ha : a.isInput = true) :
    Midread fd k (serve fd c w a) := by
  refine ⟨h.toPresent.input hc ha, ?_⟩
  cases a with
  | received got => exact h.noQuit.append fun text ht => by cases List.mem_singleton.mp ht
  | buffered f => exact h.noQuit
  | _ => cases ha

/-- A line that is not `QUIT`. -/
theorem Midread.line {fd k : Nat} {w : World} (h : Midread fd k w) {c : ClientConnection}
    {text : Bytes} (hc : w.slot fd = some c) (hquit : executesQuit text = false) :
    Midread fd k (processLine text fd w).1 := by
  obtain ⟨new, htrace, hout⟩ := processLine_notes text hc
  refine ⟨h.toPresent.line hc text, ?_⟩
  rw [htrace]
  refine h.noQuit.append fun text' ht => ?_
  rcases List.mem_cons.mp ht with heq | ht
  · cases heq
    exact hquit
  · cases hout _ ht

theorem Midread.overlong {fd k : Nat} {w : World} (h : Midread fd k w) {c : ClientConnection}
    (hc : w.slot fd = some c) : Midread fd k (rejectLine fd w).1 := by
  refine ⟨h.toPresent.overlong hc, ?_⟩
  have htrace : (rejectLine fd w).1.trace
      = w.trace ++ [.tooLong (w.conn fd).serial, .handed _] := List.append_assoc _ _ _
  rw [htrace]
  exact h.noQuit.append fun text ht => by simp at ht

/-- `QUIT` closes its connection. -/
theorem quit_of_closing {w : World} {fd : Nat} {c : ClientConnection} (hc : w.slot fd = some c)
    {text : Bytes} (hquit : executesQuit text = true) :
    ((processLine text fd w).1.conn fd).closing = true := by
  have h := (processLine_handling fd w text).closing (c := c) hc
  rw [h, hquit, Bool.true_or]

theorem Reading.midread {fd k : Nat} {w : World} {e : ReadEnd} {r : World × Bool}
    (h : Reading fd w e r) (hw : Midread fd k w) : Finish fd (Midread fd k) e r := by
  refine h.finish fd (fun v c a hc ha hv => hv.input hc ha) (fun v c text hc _ hstill hv => ?_)
    (fun v c hc _ hv => hv.overlong hc) hw
  refine hv.line hc (Bool.eq_false_iff.mpr fun hquit => ?_)
  rw [quit_of_closing hc hquit] at hstill
  cases hstill

/-- **A `QUIT` among the lines of a read**: if the read ends with the removal of its client, the
`OK` failed or nothing is left to be written. -/
theorem quit_read {fd k : Nat} {w : World} {e : ReadEnd} {r : World × Bool}
    (h : Reading fd w e r) (hw : Midread fd k w) (hdone : r.2 = true) {text : Bytes}
    (hquit : executesQuit text = true) (hmem : .line k text ∈ r.1.trace) :
    WrittenOut k r.1.trace ∨ OkFailed k r.1.trace := by
  have hnone : ∀ v, Midread fd k v → .line k text ∈ v.trace → False := by
    intro v hv ht
    have := hv.noQuit text ht
    rw [hquit] at this
    cases this
  cases h.midread hw with
  | blocked hv => cases hdone
  | fin hv => exact (hnone _ hv hmem).elim
  | failed hv => exact (hnone _ hv hmem).elim
  | last hv text' hc hend =>
    by_cases hq : executesQuit text' = true
    · exact hv.slot hc ▸ quit_last hv.streamed hc hq hdone
    · exact (hnone _ (hv.line hc (by simpa using hq)) hmem).elim
  | refused hv hc hfail => exact (hnone _ (hv.overlong hc) hmem).elim

/-- A connection that is gone behind a handler is gone because the handler asked for it. -/
theorem asks_of_gone {fd k : Nat} {s : World × Bool} {c : ClientConnection}
    (hc : s.1.slot fd = some c) (hk : c.serial = k)
    (hgone : ∀ c', (removeIfDone fd s).slot fd = some c' → c'.serial ≠ k) : s.2 = true := by
  by_contra hstay
  rw [removeIfDone, if_neg hstay] at hgone
  exact hgone c hc hk

/-- **A flush** removes its client when all is written, or when the last `write` has failed. -/
theorem written_of_flushed {w : World} (hw : Streamed w) {fd : Nat} {c : ClientConnection}
    (hc : w.slot fd = some c)
    (hgone : ∀ c', (removeIfDone fd (flushClient fd w)).slot fd = some c' →
      c'.serial ≠ c.serial) :
    WrittenOut c.serial (removeIfDone fd (flushClient fd w)).trace ∨ ∃ pre, (w.sock fd).writes
      = pre ++ .error :: ((removeIfDone fd (flushClient fd w)).sock fd).writes := by
  obtain ⟨c', hc', hbare⟩ := slot_of_view (v := .bare) (flushClient_roster fd w) hc
  have hser := (field_of_bare hbare).1
  have hdone := asks_of_gone hc' hser hgone
  obtain ⟨hslots, hflag⟩ := flushClient_slot hc
  have hend := flushToClient_end (w.sock fd) c
  rw [if_pos (hflag.symm.trans hdone)] at hend
  rcases hend with h0 | ⟨pre, hpre⟩
  · have hc0 := (hslots fd).trans (if_pos rfl)
    rw [hc', Option.some.injEq] at hc0
    have hout := writtenOut_of_drained (streamed_flushClient hw hc) hc' (hc0 ▸ h0)
    rw [hser] at hout
    exact .inl hout.removeIfDone
  · refine .inr ⟨pre, ?_⟩
    rw [removeIfDone, if_pos hdone, removeClient_sock, hpre]
    unfold flushClient
    rw [conn_of_slot hc]
    show _ = pre ++ .error :: (Function.update w.sock fd _ fd).writes
    rw [Function.update_self]

/-- **A read** that handles `QUIT` removes its client when all is written, or when the `OK` has
failed. -/
theorem quit_communicated {w : World} {fd : Nat} {c : ClientConnection} (hc : w.slot fd = some c)
    (hmid : c.closing = false → Midread fd c.serial w) {text : Bytes}
    (hquit : executesQuit text = true) (reads : List ReadResult)
    (hmem : .line c.serial text ∈ (removeIfDone fd (communicate fd reads w)).trace)
    (hgone : ∀ c', (removeIfDone fd (communicate fd reads w)).slot fd = some c' →
      c'.serial ≠ c.serial) :
    WrittenOut c.serial (removeIfDone fd (communicate fd reads w)).trace ∨
      ∃ trace, OkFailed c.serial trace ∧
        (removeIfDone fd (communicate fd reads w)).trace = trace ++ [.removed c.serial] := by
  unfold communicate at hmem hgone ⊢
  rw [conn_of_slot hc] at hmem hgone ⊢
  split at hgone
  · cases asks_of_gone (s := (w, false)) hc rfl hgone
  · rename_i hopen
    rw [if_neg hopen] at hmem ⊢
    rw [Bool.not_eq_true] at hopen
    have hread := readLoop_reading fd reads w c hc hopen
    obtain ⟨c', hc', hser⟩ := (hread.present (hmid hopen).toPresent).present.there
    have hdone := asks_of_gone hc' hser hgone
    obtain ⟨new, htrace, hnew⟩ := removeIfDone_notes fd (readLoop fd reads w)
    rw [htrace] at hmem
    have hmem' := (List.mem_append.mp hmem).resolve_right fun hm => by
      obtain ⟨-, d, -, hd⟩ := hnew _ hm
      cases hd
    refine (quit_read hread (hmid hopen) hdone hquit hmem').imp (·.removeIfDone)
      fun hok => ⟨_, hok, ?_⟩
    rw [removeIfDone, if_pos hdone, removeClient_trace hc', hser]

/-- The error of a socket, or the end of its write side. -/
def Kevent.isBroken (ev : Kevent) : Prop := ev.error = true ∨ (ev.filter = .write ∧ ev.eof = true)

/-- Why a connection that has handled `QUIT` is gone behind an event. -/
inductive QuitEnd (w : World) (o : Occurrence) (fd k : Nat) : Prop
  /-- all of its stream has been written -/
  | written (h : WrittenOut k (dispatch w o).trace)
  /-- the `OK` failed, and for that it was removed -/
  | okFailed {trace : List Obs} (hok : OkFailed k trace)
      (h : (dispatch w o).trace = trace ++ [.removed k])
  | broken (hid : o.ev.ident = fd) (h : o.ev.isBroken)
  /-- the last `write` of the flush has failed -/
  | writeFailed (hid : o.ev.ident = fd) (hwrite : o.ev.filter = .write)
      (h : ∃ pre, (o.sock fd).writes = pre ++ .error :: ((dispatch w o).sock fd).writes)

/-- Connections that an event is not for stay where they are. -/
theorem stays_of_other {w : World} (hw : Housed w) {o : Occurrence} {fd : Nat}
    {c : ClientConnection} (hc : w.slot fd = some c)
    (hother : o.ev.ident = w.serverFd ∨ o.ev.ident ≠ fd) :
    ∃ c', (dispatch w o).slot fd = some c' ∧ c'.serial = c.serial := by
  have hb := badge_of_slot hc
  have hb' : (dispatch w o).badge fd = some (c.serial, c.clientFd) := by
    by_cases hsrv : o.ev.ident = w.serverFd
    · exact (dispatch_listening hw hsrv).stays _ _ _ hb
    · have hne : fd ≠ o.ev.ident := Ne.symm (hother.resolve_left hsrv)
      rw [(dispatch_client hsrv).others fd hne, (noted_alike w _).badge]
      exact hb
  obtain ⟨c', hc', hser, -⟩ := slot_of_badge hb'
  exact ⟨c', hc', hser⟩

/-- The state in which `handleClientEvent` serves an event of this connection. -/
def World.serving (w : World) (o : Occurrence) (c : ClientConnection) : World :=
  { w with sock := o.sock, heap := o.heap }.note (.applied c.serial o.ev.ident)

/-- An event of a client, by its kind. -/
theorem dispatch_of_client {w : World} {o : Occurrence} (hsrv : o.ev.ident ≠ w.serverFd)
    {c : ClientConnection} (hc : w.slot o.ev.ident = some c) (hwhole : ¬ o.ev.isBroken) :
    dispatch w o = removeIfDone o.ev.ident (match o.ev.filter with
      | .write => flushClient o.ev.ident (w.serving o c)
      | .read => communicate o.ev.ident o.reads (w.serving o c)) := by
  have hs : World.slot { w with sock := o.sock, heap := o.heap } o.ev.ident = some c := hc
  unfold dispatch
  dsimp only
  rw [if_neg hsrv, handleClientEvent, hs]
  dsimp only
  rw [serveEvent, if_neg (show ¬ (o.ev.error = true ∨ _) from hwhole)]
  rfl

theorem serving_slot {w : World} {o : Occurrence} {c : ClientConnection} {fd : Nat} :
    (w.serving o c).slot fd = w.slot fd := rfl

theorem serving_streamed {w : World} (hw : Streamed w) (o : Occurrence) (c : ClientConnection) :
    Streamed (w.serving o c) :=
  hw.of_conns rfl rfl rfl rfl (show _ = w.trace ++ [.applied c.serial o.ev.ident] from rfl)
    (by simp [Obs.isQuiet])

/-- **A connection that has handled `QUIT` leaves for one of four reasons.** -/
theorem quit_end {w : World} (hw : Leaving w) (hs : Streamed w) (o : Occurrence) {fd : Nat}
    {c : ClientConnection} (hc : w.slot fd = some c) {text : Bytes}
    (hquit : executesQuit text = true) (hmem : .line c.serial text ∈ (dispatch w o).trace)
    (hgone : ∀ c', (dispatch w o).slot fd = some c' → c'.serial ≠ c.serial) :
    QuitEnd w o fd c.serial := by
  by_cases hother : o.ev.ident = w.serverFd ∨ o.ev.ident ≠ fd
  · obtain ⟨c', hc', hser⟩ := stays_of_other hs.housed hc hother
    exact absurd hser (hgone c' hc')
  · rw [not_or, not_not] at hother
    obtain ⟨hsrv, rfl⟩ := hother
    by_cases hbroken : o.ev.isBroken
    · exact .broken rfl hbroken
    · have heq := dispatch_of_client hsrv hc hbroken
      have hvs := serving_streamed hs o c
      cases hfilter : o.ev.filter with
      | write =>
        rw [hfilter] at heq
        rw [heq] at hgone
        rcases written_of_flushed hvs (serving_slot.trans hc) hgone with h | h
        · exact .written (heq ▸ h)
        · exact .writeFailed rfl hfilter (heq ▸ h)
      | read =>
        rw [hfilter] at heq
        rw [heq] at hgone hmem
        have hmid : c.closing = false → Midread o.ev.ident c.serial (w.serving o c) := by
          refine fun hopen => ⟨⟨hvs, c, hc, rfl⟩, fun t ht => Bool.eq_false_iff.mpr fun hq => ?_⟩
          rcases List.mem_append.mp ht with ht | ht
          · rw [hw.closing o.ev.ident c t hc ht hq] at hopen
            cases hopen
          · cases List.mem_singleton.mp ht
        rcases quit_communicated (serving_slot.trans hc) hmid hquit o.reads hmem hgone with
          h | ⟨trace, hok, h⟩
        · exact .written (heq ▸ h)
        · exact .okFailed hok (heq.symm ▸ h)

/-- **The lifecycle of `QUIT`**, after any events.  Nothing from a connection is read or handled
behind its `QUIT`; every closing connection has something to send; and a connection that has
handled `QUIT` is gone behind an event only when its stream has been written, when a `write` or
the `OK` has failed, or when the event is an error. -/
theorem quit_lifecycle (serverFd : Nat) (others : List Nat) (os : List Occurrence) :
    let w := Run.run dispatch (.init serverFd others) os
    (∀ k, QuitIsLast k w.trace) ∧
      (∀ fd c, w.slot fd = some c → c.closing = true → 0 < c.outlen) ∧
      ∀ o fd c text, w.slot fd = some c → executesQuit text = true →
        .line c.serial text ∈ (dispatch w o).trace →
        (∀ c', (dispatch w o).slot fd = some c' → c'.serial ≠ c.serial) →
        QuitEnd w o fd c.serial := by
  intro w
  have hw := leaving_of_run serverFd others os
  have hreach := reachable_run serverFd others os
  exact ⟨hw.last, draining_of_reachable hreach, fun o fd c text hc hquit hmem hgone =>
    quit_end hw (streamed_of_reachable hreach) o hc hquit hmem hgone⟩

/-- Sockets that take nothing now. -/
def stuck : Nat → SockEnv := fun _ => { writes := [], mallocs := [] }

/-- A client became writable. -/
def writable (fd : Nat) (sock : Nat → SockEnv) : Occurrence :=
  { ev := { ident := fd, filter := .write, eof := false, error := false }, reads := []
    accepts := [], sock := sock, heap := [] }

/-- A trader logs in and quits, with a line behind that, while its socket takes nothing. -/
def quitWhileStuck : List Occurrence :=
  [listening [5], readable 5 (lit "LOGIN ann\nQUIT\nBUY JNST 1 1\n") stuck]

/-- Two `OK`s wait.  The flush that writes them removes the trader. -/
theorem quit_lifecycle_stuck :
    let w := Run.run dispatch (.init 3 []) quitWhileStuck
    (w.conn 5).outlen = 6 ∧ (dispatch w (writable 5 willing)).slot 5 = none ∧
      QuitEnd w (writable 5 willing) 5 0 := by
  intro w
  have hgone : (dispatch w (writable 5 willing)).slot 5 = none := by decide +kernel
  refine ⟨by decide +kernel, hgone, ?_⟩
  obtain ⟨c, hc⟩ : ∃ c, w.slot 5 = some c := Option.isSome_iff_exists.mp (by decide +kernel)
  have hser : c.serial = 0 := by
    have h : (w.slot 5).map ClientConnection.serial = some 0 := by decide +kernel
    rw [hc] at h
    exact Option.some.inj h
  have h := (quit_lifecycle 3 [] quitWhileStuck).2.2 (writable 5 willing) 5 c (lit "QUIT") hc
    (by decide) (by rw [hser]; decide +kernel) fun c' hc' => by
      rw [show (dispatch _ _).slot 5 = none from hgone] at hc'
      cases hc'
  exact hser ▸ h

end SocketExchange
