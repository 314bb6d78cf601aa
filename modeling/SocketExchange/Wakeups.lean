/-
# Nothing is overlooked

Whatever a client sends is read, and whatever waits for it is written, although each filter is
reported only once for each time something came.  `Machine.Work` says which filters have
something for the server; in every state the machine reaches those are ready or in the batch
(`nothing_overlooked`), because a read loop ends with `EAGAIN` or with a connection that is not
read any more, and a write that leaves something in the queue has filled the socket.  So when
nothing is reported any more, all that has come was read and handled, line by line, and all that
is queued waits for its client to make room (`at_rest`).
-/
import SocketExchange.Kernel
import SocketExchange.Queues

namespace SocketExchange

open CText

/-! ## 1. Reading a socket -/

/-- The bytes of the stream that were read. -/
def Inbound.read (i : Inbound) : Bytes := i.sent.take i.taken

/-- No more were read than came. -/
def Inbound.Counts (i : Inbound) : Prop := i.taken ≤ i.sent.length

namespace Inbound

variable {i i' : Inbound} {offered : Nat} {r : ReadResult}

theorem Arrives.read (h : i.Arrives i') (hi : i.Counts) : i'.read = i.read ∧ i'.Counts := by
  cases h with
  | data bytes hopen =>
    refine ⟨List.take_append_of_le_length hi, hi.trans ?_⟩
    exact (List.prefix_append i.sent bytes).length_le
  | fin => exact ⟨rfl, hi⟩

/-- **A call of `read` returns the next bytes of the stream.** -/
theorem Read.read (h : i.Read offered r i') (hi : i.Counts) :
    i'.read = i.read ++ r.bytes ∧ i'.Counts ∧ r.bytes.length ≤ offered := by
  cases h with
  | @data got hsome hlen hfirst =>
    obtain ⟨rest, hrest⟩ := hfirst
    have hcount := congrArg List.length hrest
    rw [List.length_append, unread, List.length_drop] at hcount
    refine ⟨?_, show i.taken + got.length ≤ i.sent.length by
      unfold Counts at hi
      omega, hlen⟩
    refine (List.take_add (l := i.sent) (i := i.taken) (j := got.length)).trans ?_
    rw [show i.sent.drop i.taken = i.unread from rfl, ← hrest, List.take_left]
    rfl
  | _ => exact ⟨(List.append_nil _).symm, hi, Nat.zero_le _⟩

end Inbound

/-- Where the reads of one event leave connection `c` and its socket: the bytes read are the
first of the stream, and while the connection stays and is read, the socket is empty or will be
reported. -/
structure DrainOut (fd k : Nat) (r : World × Bool) (e : Inbound × Bool) : Prop where
  read : r.2 = false → bytesFrom k r.1.trace = e.1.read ∧ e.1.Counts
  empty : r.2 = false → e.2 = true ∨ ¬ e.1.HasInput ∨
    ∃ c', r.1.slot fd = some c' ∧ c'.closing = true

/-- **The loop leaves nothing unannounced**, by induction on what happens at the socket. -/
theorem Drains.out {fd : Nat} {s e : Inbound × Bool} {w : World} {rs : List ReadResult}
    (h : Drains fd s w rs e) {c : ClientConnection} (hc : w.slot fd = some c)
    (hfd : c.clientFd = fd) (hclosing : c.closing = false) (hb : Buffered c)
    (hreads : Reads c.serial w.trace c)
    (hread : bytesFrom c.serial w.trace = s.1.read) (hcounts : s.1.Counts) :
    DrainOut fd c.serial (readLoop fd rs w) e := by
  induction h generalizing c with
  | arrival harr _ ih =>
    obtain ⟨h1, h2⟩ := harr.read hcounts
    exact ih hc hfd hclosing hb hreads (hread.trans h1.symm) h2
  | @turn _ _ _ _ r _ _ hr hgo _ ih =>
    rw [conn_of_slot hc] at hr
    obtain ⟨h1, h2, hlen⟩ := hr.read hcounts
    have hout := readTurn_out hc hfd hclosing hb hreads r
    obtain ⟨acts, hserved⟩ := hout.served
    obtain ⟨c', hc', hser', hfd', hclosing', hb', hreads'⟩ := hout.goes (.inl hgo)
    rw [readLoop, hgo]
    rw [← hser'] at hreads' ⊢
    refine ih hc' hfd' hclosing' hb' hreads' ?_ h2
    rw [hser', hserved.bytesFrom, List.take_of_length_le hlen, hread, h1]
  | @last i i' ready done w r hr hend =>
    rw [conn_of_slot hc] at hr
    obtain ⟨h1, h2, hlen⟩ := hr.read hcounts
    have hout := readTurn_out hc hfd hclosing hb hreads r
    obtain ⟨acts, hserved⟩ := hout.served
    rw [readLoop, hend]
    refine ⟨fun _ => ⟨?_, h2⟩, fun hdone => .inr ?_⟩
    · exact (hserved.bytesFrom).trans (by rw [List.take_of_length_le hlen, hread, h1])
    · rcases hout.stays (hend.trans (congrArg some hdone)) with heagain | hclosed
      · -- `EAGAIN`: the socket was empty
        rw [heagain] at hr
        cases hr with
        | eagain hnone hopen =>
          refine .inl fun hinput => ?_
          rcases hinput with hsome | hfin
          · exact hsome hnone
          · rw [hopen] at hfin
            cases hfin
      · exact .inr hclosed

/-! ## 2. Writing to a socket -/

/-- The queue is no longer than its buffer. -/
def InBuffer (_ : SockEnv) (conn : ClientConnection) : Prop := conn.outlen ≤ outbufSize

/-- Besides that, the socket's answers are credible. -/
def Answers (env : SockEnv) (conn : ClientConnection) : Prop :=
  InBuffer env conn ∧ Credible env.writes

/-- Nothing is queued, or the socket is full. -/
def WaitsForRoom (env : SockEnv) (conn : ClientConnection) : Prop :=
  Answers env conn ∧ (conn.outlen = 0 ∨ env.writes = [])

/-- One write, repeated while it is interrupted: it takes all, or the socket is full or broken. -/
theorem writeRetry_credible {len : Nat} (hlen : len ≤ outbufSize) : ∀ (rs : List WriteResult),
    Credible rs → Credible (writeRetry len rs).2 ∧
      ((writeRetry len rs).2 = [] ∨ (writeRetry len rs).1 = .took len ∨
        (writeRetry len rs).1 = .failed)
  | [], _ => ⟨trivial, .inl rfl⟩
  | .eintr :: rs, h => writeRetry_credible hlen rs h
  | .eagain :: _, h => h.elim
  | .error :: _, h => ⟨h, .inr (.inr rfl)⟩
  | .took n :: rs, h => by
    refine ⟨h.2, h.1.imp id fun hn => .inl (congrArg Attempt.took ?_)⟩
    unfold taken
    omega

/-- The rest of a message is queued, or dropped, and the answers stay. -/
theorem queueRest_env (env : SockEnv) (conn : ClientConnection) (wrote rest : Bytes) :
    (queueRest env conn wrote rest).env.writes = env.writes := by
  unfold queueRest
  dsimp only
  split
  · rfl
  · generalize (if conn.outbuf = none then mallocResult env.mallocs else (true, env.mallocs)) = m
    split
    · rfl
    · split <;> rfl

theorem queueRest_nil (env : SockEnv) (conn : ClientConnection) (wrote : Bytes) :
    (queueRest env conn wrote []).conn = conn := by
  unfold queueRest
  rw [if_pos List.length_nil]

theorem sendToClient_credible {env : SockEnv} {conn : ClientConnection} {data : Bytes}
    (hlen : data.length ≤ outbufSize) (h : Credible env.writes) :
    Credible (sendToClient env conn data).env.writes ∧
      (conn.outlen = 0 → (sendToClient env conn data).env.writes = [] ∨
        (sendToClient env conn data).conn.outlen = 0) ∧
      (env.writes = [] → (sendToClient env conn data).env.writes = []) := by
  unfold sendToClient
  by_cases h0 : conn.outlen = 0
  · simp only [if_pos h0]
    obtain ⟨hcred, hcases⟩ := writeRetry_credible hlen _ h
    have hnil : env.writes = [] → (writeRetry data.length env.writes).2 = [] := fun h => by
      rw [h]
      rfl
    generalize writeRetry data.length env.writes = a at *
    obtain ⟨a, ws⟩ := a
    cases a with
    | failed => exact ⟨hcred, fun _ => .inr h0, hnil⟩
    | again =>
      dsimp only
      rw [queueRest_env]
      refine ⟨hcred, fun _ => .inl ?_, hnil⟩
      rcases hcases with h | h | h
      · exact h
      · cases h
      · cases h
    | took n =>
      dsimp only
      rw [queueRest_env]
      refine ⟨hcred, fun _ => ?_, hnil⟩
      rcases hcases with h | h | h
      · exact .inl h
      · cases h
        rw [List.drop_length, queueRest_nil]
        exact .inr h0
      · cases h
  · simp only [if_neg h0]
    rw [queueRest_env]
    exact ⟨h, fun h => absurd h h0, id⟩

/-- The loop of a flush ends with an empty queue, a full socket or a failure. -/
theorem flushLoop_credible (mallocs : List Bool) : ∀ (rs : List WriteResult)
    (conn : ClientConnection) (wrote : Bytes), conn.outlen ≤ outbufSize → Credible rs →
    Credible (flushLoop conn wrote mallocs rs).env.writes ∧
      ((flushLoop conn wrote mallocs rs).failed = false →
        (flushLoop conn wrote mallocs rs).conn.outlen = 0 ∨
          (flushLoop conn wrote mallocs rs).env.writes = [])
  | [], _, _, _, _ => ⟨trivial, fun _ => .inr rfl⟩
  | r :: rs, conn, wrote, hlen, h => by
    unfold flushLoop
    by_cases h0 : conn.outlen = 0
    · rw [if_pos h0]
      exact ⟨h, fun _ => .inl h0⟩
    rw [if_neg h0]
    cases r with
    | eintr => exact flushLoop_credible mallocs rs conn wrote hlen h
    | eagain => exact h.elim
    | error => exact ⟨h, fun hfailed => by (cases hfailed)⟩
    | took n =>
      refine flushLoop_credible mallocs rs _ _ (le_trans ?_ hlen) h.2
      exact (List.drop_sublist _ conn.pending).length_le

theorem inBuffer : QueueProperty InBuffer where
  queue := fun h hd => by
    unfold InBuffer ClientConnection.outlen ClientConnection.pending at *
    rwa [hd]
  send := fun _ _ h => sendToClient_outlen h
  flush := fun h _ => (flushToClient_outlen _ _).trans h

theorem answers : QueueProperty Answers where
  queue := fun h hd => ⟨inBuffer.queue h.1 hd, h.2⟩
  send := fun data hlen h => ⟨inBuffer.send data hlen h.1, (sendToClient_credible hlen h.2).1⟩
  flush := fun {env c} h hok =>
    ⟨inBuffer.flush h.1 hok, (flushLoop_credible env.mallocs _ c [] h.1 h.2).1⟩

/-- **A queue that waits, waits for room**: no output function leaves something queued with room
at the socket. -/
theorem waitsForRoom : QueueProperty WaitsForRoom where
  queue := fun {env c d} h hd => by
    refine ⟨answers.queue h.1 hd, ?_⟩
    unfold ClientConnection.outlen ClientConnection.pending
    rw [hd]
    exact h.2
  send := fun {env c} data hlen h => by
    obtain ⟨-, hempty, hfull⟩ := @sendToClient_credible env c data hlen h.1.2
    refine ⟨answers.send data hlen h.1, ?_⟩
    rcases h.2 with h0 | hnil
    · exact (hempty h0).symm
    · exact .inr (hfull hnil)
  flush := fun {env c} h hok =>
    ⟨answers.flush h.1 hok, (flushLoop_credible env.mallocs _ c [] h.1.1 h.1.2).2 hok⟩

/-- Whatever waited before, behind a flush it waits for room. -/
theorem flushed_waitsForRoom {env : SockEnv} {conn : ClientConnection} (h : Answers env conn)
    (hok : (flushToClient env conn).failed = false) :
    WaitsForRoom (flushToClient env conn).env (flushToClient env conn).conn :=
  ⟨answers.flush h hok, (flushLoop_credible env.mallocs _ conn [] h.1 h.2).2 hok⟩

/-! ## 3. One event -/

/-- Who is connected behind the accepts of one event. -/
structure Welcomed (w w' : World) : Prop where
  slots : ∀ n, w'.slot n = w.slot n ∨
    w.slot n = none ∧ ∃ k, w.accepts ≤ k ∧ w'.slot n = some (.fresh n k)
  sock : w'.sock = w.sock
  accepts : w.accepts ≤ w'.accepts
  bytes : ∀ k, bytesFrom k w'.trace = bytesFrom k w.trace

@[simp] theorem acceptClient_sock (fd : Nat) (grown calloced armed : Bool) (w : World) :
    (acceptClient fd grown calloced armed w).sock = w.sock := by
  have hreg : ∀ v : World, (registerClient fd calloced armed v).sock = v.sock := by
    intro v
    unfold registerClient
    split
    · rfl
    · split <;> rfl
  have hgrow : ∀ v : World, (growConns fd grown v).1.sock = v.sock := by
    intro v
    unfold growConns
    split <;> rfl
  unfold acceptClient
  dsimp only
  split
  · split
    · rw [hreg, hgrow]
    · exact hgrow _
  · exact hreg _

theorem acceptClients_welcomed : ∀ (rs : List AcceptResult) {w : World}, Housed w →
    Welcomed w (acceptClients rs w)
  | [], w, _ => ⟨fun _ => .inl rfl, rfl, le_refl _, fun _ => rfl⟩
  | .drained :: _, w, _ => ⟨fun _ => .inl rfl, rfl, le_refl _, fun _ => rfl⟩
  | .interrupted :: rs, _, hw => acceptClients_welcomed rs hw
  | .connection fd grown calloced armed :: rs, w, hw => by
    rw [acceptClients]
    split
    · exact acceptClients_welcomed rs hw
    · rename_i hopen
      have hone : Welcomed w (acceptClient fd grown calloced armed w) ∧
          Housed (acceptClient fd grown calloced armed w) := by
        have hcases := acceptClient_cases hw.table hopen (hw.slot_none hopen) grown calloced armed
        split at hcases
        · refine ⟨⟨fun n => ?_, by simp, by rw [hcases.accepts]; omega, fun k => ?_⟩,
            housed_registered hw hopen hcases⟩
          · rw [hcases.slot]
            split
            · rename_i hn
              rw [hn]
              exact .inr ⟨hw.slot_none hopen, _, le_refl _, rfl⟩
            · exact .inl rfl
          · rw [hcases.trace, bytesFrom_append]
            exact List.append_nil _
        · exact ⟨⟨fun n => .inl (hcases.slot n), by simp, hcases.accepts.ge,
            fun k => by rw [hcases.trace]⟩, hw.of_alike hcases.alike⟩
      have hrest := acceptClients_welcomed rs hone.2
      refine ⟨fun n => ?_, hrest.sock.trans hone.1.sock, hone.1.accepts.trans hrest.accepts,
        fun k => (hrest.bytes k).trans (hone.1.bytes k)⟩
      rcases hone.1.slots n with hsame | ⟨hnone, k, hk, hnew⟩
      · rcases hrest.slots n with hsame' | ⟨hnone', k, hk, hnew⟩
        · exact .inl (hsame'.trans hsame)
        · exact .inr ⟨hsame ▸ hnone', k, hone.1.accepts.trans hk, hnew⟩
      · rcases hrest.slots n with hsame' | ⟨hnone', -⟩
        · exact .inr ⟨hnone, k, hk, hsame'.trans hnew⟩
        · rw [hnew] at hnone'
          cases hnone'

section Events

variable {w : World} {o : Occurrence} {fd : Nat} {c c' : ClientConnection}

theorem serveEvent_broken {ev : Kevent} (h : ev.isBroken) (reads : List ReadResult) (w : World) :
    serveEvent ev reads w = (w, true) := if_pos h

theorem serveEvent_write {ev : Kevent} (h : ¬ ev.isBroken) (hfilter : ev.filter = .write)
    (reads : List ReadResult) (w : World) : serveEvent ev reads w = flushClient ev.ident w := by
  unfold serveEvent
  rw [if_neg (show ¬ (ev.error = true ∨ _) from h), hfilter]

theorem serveEvent_read {ev : Kevent} (h : ¬ ev.isBroken) (hfilter : ev.filter = .read)
    (reads : List ReadResult) (w : World) :
    serveEvent ev reads w = communicate ev.ident reads w := by
  unfold serveEvent
  rw [if_neg (show ¬ (ev.error = true ∨ _) from h), hfilter]

theorem dispatch_serving (hsrv : o.ev.ident ≠ w.serverFd) (hc : w.slot o.ev.ident = some c) :
    dispatch w o = removeIfDone o.ev.ident (serveEvent o.ev o.reads (w.serving o c)) := by
  have hs : World.slot { w with sock := o.sock, heap := o.heap } o.ev.ident = some c := hc
  unfold dispatch
  dsimp only
  rw [if_neg hsrv, handleClientEvent, hs]
  rfl

/-- An event for a connection that is gone. -/
theorem dispatch_gone (hsrv : o.ev.ident ≠ w.serverFd) (hnone : w.slot o.ev.ident = none) :
    dispatch w o = { w with sock := o.sock, heap := o.heap } := by
  have hs : World.slot { w with sock := o.sock, heap := o.heap } o.ev.ident = none := hnone
  unfold dispatch
  dsimp only
  rw [if_neg hsrv, handleClientEvent, hs]

theorem dispatch_accepting (hsrv : o.ev.ident = w.serverFd) (hw : Housed w) :
    Welcomed { w with sock := o.sock, heap := o.heap } (dispatch w o) := by
  unfold dispatch
  dsimp only
  rw [if_pos hsrv]
  exact acceptClients_welcomed o.accepts (hw.of_alike (alike_of_conns rfl rfl rfl rfl))

/-- Whoever is there behind the event was not removed. -/
theorem kept_of_removeIfDone {s : World × Bool} (h : (removeIfDone fd s).slot fd = some c') :
    s.2 = false ∧ removeIfDone fd s = s.1 := by
  unfold removeIfDone at h ⊢
  cases hdone : s.2 with
  | true =>
    rw [hdone, if_pos rfl, removeClient_slot, if_pos rfl] at h
    cases h
  | false => exact ⟨rfl, if_neg Bool.false_ne_true⟩

theorem bytesFrom_removeIfDone (fd : Nat) (s : World × Bool) (k : Nat) :
    bytesFrom k (removeIfDone fd s).trace = bytesFrom k s.1.trace := by
  obtain ⟨new, hnew, hno⟩ := removeIfDone_notes fd s
  have hnone : bytesFrom k new = [] := bytesFrom_of_no_read fun n data hmem => by
    obtain ⟨-, d, -, heq⟩ := hno _ hmem
    cases heq
  rw [hnew, bytesFrom_append, hnone, List.append_nil]

theorem serving_framed (hw : Framed w) (o : Occurrence) (c : ClientConnection) :
    Framed (w.serving o c) := by
  have hsupplied : Framed { w with sock := o.sock, heap := o.heap } :=
    hw.quiet (alike_of_conns rfl rfl rfl rfl) (List.append_nil _).symm (.output (by simp))
      fun _ c' hc' => ⟨c', hc', rfl⟩
  exact framed_note_applied hsupplied c.serial o.ev.ident

theorem bytesFrom_serving (o : Occurrence) (c : ClientConnection) (k : Nat) :
    bytesFrom k (w.serving o c).trace = bytesFrom k w.trace :=
  (bytesFrom_append k w.trace _).trans (List.append_nil _)

/-- **Who is not read by the event** keeps all but the queue, and nothing of its bytes is
read. -/
theorem quiet_of_dispatch (hw : Framed w) (hc : w.slot fd = some c)
    (hc' : (dispatch w o).slot fd = some c') (hnot : ∀ d, o.Reads w d → fd ≠ o.ev.ident) :
    c'.bare = c.bare ∧ bytesFrom c.serial (dispatch w o).trace = bytesFrom c.serial w.trace := by
  by_cases hsrv : o.ev.ident = w.serverFd
  · have hout := dispatch_accepting hsrv hw.housed
    refine ⟨?_, hout.bytes _⟩
    rcases hout.slots fd with hsame | ⟨hnone, -⟩
    · rw [hc'] at hsame
      exact congrArg _ (Option.some.inj (hsame.trans hc))
    · have hnone' : w.slot fd = none := hnone
      rw [hc] at hnone'
      cases hnone'
  cases hid : w.slot o.ev.ident with
  | none =>
    rw [dispatch_gone hsrv hid] at hc' ⊢
    exact ⟨congrArg _ (Option.some.inj (Eq.trans (Eq.symm hc') hc)), rfl⟩
  | some d =>
    have hdisp := dispatch_serving hsrv hid
    have hd : (w.serving o d).slot o.ev.ident = some d := hid
    rw [hdisp] at hc' ⊢
    rw [bytesFrom_removeIfDone]
    by_cases hfd : fd = o.ev.ident
    · -- the event is its own: it is flushed, or is closing and left alone
      subst hfd
      rw [hc, Option.some.injEq] at hid
      subst hid
      obtain ⟨hstay, hsame⟩ := kept_of_removeIfDone hc'
      rw [hsame] at hc'
      by_cases hbroken : o.ev.isBroken
      · rw [serveEvent_broken hbroken] at hstay
        cases hstay
      cases hfilter : o.ev.filter with
      | write =>
        rw [serveEvent_write hbroken hfilter] at hc' ⊢
        obtain ⟨e, he, hbare⟩ := slot_of_view (v := .bare) (flushClient_roster o.ev.ident _) hd
        rw [hc', Option.some.injEq] at he
        refine ⟨he ▸ hbare, ?_⟩
        rw [(flushClient_served o.ev.ident (w.serving o c) c.serial).bytesFrom, List.append_nil,
          bytesFrom_serving]
      | read =>
        have hclosing : c.closing = true := by
          by_contra hopen
          exact hnot c ⟨hsrv, hbroken, hfilter, hc, by simpa using hopen⟩ rfl
        have hconn : ((w.serving o c).conn o.ev.ident).closing = true := by
          rw [conn_of_slot hd, hclosing]
        rw [serveEvent_read hbroken hfilter, communicate, if_pos hconn] at hc' ⊢
        rw [hd, Option.some.injEq] at hc'
        exact ⟨congrArg _ hc'.symm, bytesFrom_serving o c _⟩
    · obtain ⟨acts, got, hserved⟩ := (@serveEvent_out o.ev o.reads _ _ (serving_framed hw o d)
        hd).served
      obtain ⟨e, he, hbare⟩ := slot_of_bare (hserved.others fd hfd) (slot_of_removeIfDone hc')
      have hec : e = c := Option.some.inj (Eq.trans (Eq.symm he) hc)
      refine ⟨hec ▸ hbare, ?_⟩
      have hne : c.serial ≠ d.serial := by
        intro heq
        have hb := badge_of_slot hc
        rw [heq] at hb
        exact hfd (hw.housed.distinct _ _ _ _ _ hb (badge_of_slot hid))
      obtain ⟨new, hnew, hn⟩ := hserved.trace
      rw [hnew, bytesFrom_append, hn.bytes, if_neg hne, List.append_nil, bytesFrom_serving]

/-- **Who is read by the event** has read the first bytes of the stream behind it, and what comes
behind them is announced, or will not be read. -/
theorem read_of_dispatch (hw : Framed w) (hr : o.Reads w c) {s e : Inbound × Bool}
    (hdrains : Drains o.ev.ident s (w.serving o c) o.reads e)
    (hread : bytesFrom c.serial w.trace = s.1.read) (hcounts : s.1.Counts)
    (hc' : (dispatch w o).slot o.ev.ident = some c') :
    c'.serial = c.serial ∧ bytesFrom c.serial (dispatch w o).trace = e.1.read ∧ e.1.Counts ∧
      (e.2 = true ∨ ¬ e.1.HasInput ∨ c'.closing = true) := by
  have hdisp := dispatch_serving hr.client hr.slot
  have hd : (w.serving o c).slot o.ev.ident = some c := hr.slot
  have hframed := serving_framed hw o c
  have hserve : serveEvent o.ev o.reads (w.serving o c)
      = readLoop o.ev.ident o.reads (w.serving o c) := by
    have hconn : ((w.serving o c).conn o.ev.ident).closing = false := by
      rw [conn_of_slot hd, hr.reading]
    rw [serveEvent_read hr.whole hr.filter, communicate, hconn, if_neg Bool.false_ne_true]
  obtain ⟨hb, hreads⟩ := (hframed.each c.serial).reading _ c hd rfl hr.reading
  have hown := hframed.housed.own _ _ _ (badge_of_slot hd)
  have hout := hdrains.out hd hown hr.reading hb hreads ((bytesFrom_serving o c _).trans hread)
    hcounts
  have hevent := @serveEvent_out o.ev o.reads _ _ hframed hd
  rw [hdisp, hserve] at hc' ⊢
  rw [hserve] at hevent
  obtain ⟨hstay, hsame⟩ := kept_of_removeIfDone hc'
  rw [hsame] at hc' ⊢
  obtain ⟨hread', hcounts'⟩ := hout.read hstay
  obtain ⟨acts, got, hserved⟩ := hevent.served
  refine ⟨(hserved.client hd hc').1, hread', hcounts', ?_⟩
  rcases hout.empty hstay with h | h | ⟨d, hd', hclosing⟩
  · exact .inl h
  · exact .inr (.inl h)
  · rw [hc', Option.some.injEq] at hd'
    exact .inr (.inr (hd' ▸ hclosing))

/-- What the output functions keep, an event keeps at every socket. -/
theorem QueueProperty.dispatch {Q : SockEnv → ClientConnection → Prop} (hQ : QueueProperty Q)
    (hw : Housed w) (hc : w.slot fd = some c) (h : Q (o.sock fd) c)
    (hc' : (dispatch w o).slot fd = some c') : Q ((dispatch w o).sock fd) c' := by
  have hat : ∀ v : World, v.slot fd = w.slot fd → v.sock = o.sock → HoldsAt Q v fd := by
    intro v hslot hsock d hd
    rw [hslot, hc, Option.some.injEq] at hd
    rw [hsock, ← hd]
    exact h
  by_cases hsrv : o.ev.ident = w.serverFd
  · have hout := dispatch_accepting hsrv hw
    rcases hout.slots fd with hsame | ⟨hnone, -⟩
    · rw [hout.sock]
      exact hat { w with sock := o.sock, heap := o.heap } rfl rfl c' (hsame.symm.trans hc')
    · have hnone' : w.slot fd = none := hnone
      rw [hc] at hnone'
      cases hnone'
  cases hid : w.slot o.ev.ident with
  | none =>
    rw [dispatch_gone hsrv hid] at hc' ⊢
    exact hat { w with sock := o.sock, heap := o.heap } rfl rfl c' hc'
  | some d =>
    have hd : (w.serving o d).slot o.ev.ident = some d := hid
    rw [dispatch_serving hsrv hid] at hc' ⊢
    exact hQ.steps (serveEvent_steps o.ev o.reads hd) (hat (w.serving o d) rfl rfl) c' hc'

/-- Behind an event of its write filter a connection waits for room. -/
theorem flushed_of_dispatch (hsrv : o.ev.ident ≠ w.serverFd) (hfilter : o.ev.filter = .write)
    (hc : w.slot o.ev.ident = some c) (h : Answers (o.sock o.ev.ident) c)
    (hc' : (dispatch w o).slot o.ev.ident = some c') :
    WaitsForRoom ((dispatch w o).sock o.ev.ident) c' := by
  have hd : (w.serving o c).slot o.ev.ident = some c := hc
  rw [dispatch_serving hsrv hc] at hc' ⊢
  by_cases hbroken : o.ev.isBroken
  · have hstay := (kept_of_removeIfDone hc').1
    rw [serveEvent_broken hbroken] at hstay
    cases hstay
  rw [serveEvent_write hbroken hfilter] at hc' ⊢
  exact holdsAt_flush (Q := WaitsForRoom) hd (fun hne => absurd rfl hne)
    (fun _ hok => flushed_waitsForRoom h hok) c' hc'

/-- An event for a client brings nobody. -/
theorem slot_of_dispatch (hw : Framed w) (hsrv : o.ev.ident ≠ w.serverFd)
    (hc' : (dispatch w o).slot fd = some c') : ∃ c, w.slot fd = some c ∧ c'.serial = c.serial := by
  cases hid : w.slot o.ev.ident with
  | none =>
    rw [dispatch_gone hsrv hid] at hc'
    exact ⟨c', hc', rfl⟩
  | some d =>
    have hd : (w.serving o d).slot o.ev.ident = some d := hid
    obtain ⟨acts, got, hserved⟩ := (@serveEvent_out o.ev o.reads _ _ (serving_framed hw o d)
      hd).served
    rw [dispatch_serving hsrv hid] at hc'
    have hbadge := hserved.alike.badge fd
    rw [badge_of_slot (slot_of_removeIfDone hc')] at hbadge
    obtain ⟨c, hc, hser, -⟩ := slot_of_badge hbadge.symm
    exact ⟨c, hc, hser.symm⟩

end Events

/-! ## 4. The machine -/

namespace Machine

/-- The filters that have something for the server: a client that is read, with input at its
socket, and a queue with room at its socket. -/
def Work (m : Machine) : Nat × Filter → Prop
  | (fd, .read) => ∃ c, m.world.slot fd = some c ∧ c.closing = false ∧ (m.inbound fd).HasInput
  | (fd, .write) => ∃ c, m.world.slot fd = some c ∧ 0 < c.outlen ∧ m.outbound fd ≠ []

/-- What `kevent` would report and what it has. -/
def board (m : Machine) : Notification.Board (Nat × Filter) :=
  { raised := fun i => m.ready i.1 i.2 = true
    batch := m.batch.map fun ev => (ev.ident, ev.filter) }

/-- A connection and its socket agree: what was read are the first bytes of the stream. -/
structure InStep (m : Machine) (fd : Nat) (c : ClientConnection) : Prop where
  answers : Answers { writes := m.outbound fd, mallocs := [] } c
  read : bytesFrom c.serial m.world.trace = (m.inbound fd).read
  counts : (m.inbound fd).Counts

/-- **The invariant.** -/
structure Awake (m : Machine) : Prop where
  reachable : SocketExchange.Reachable m.world
  framed : Framed m.world
  each : ∀ fd c, m.world.slot fd = some c → m.InStep fd c
  announced : Notification.Announced m.Work m.board

theorem stays_of_slots {m m' : Machine} {fd : Nat} {c c' : ClientConnection}
    (hc : m.world.slot fd = some c) (hc' : m'.world.slot fd = some c') : Stays m m' fd :=
  ⟨by rw [hc]; simp, by rw [hc']; simp⟩

section Handled

variable {m m' : Machine} {o : Occurrence} (hm : m.Awake) (h : m.Handles o m')

include hm h

/-- A connection that is there behind an event is new, or was there before it. -/
theorem handled_slot {fd : Nat} {c' : ClientConnection} (hc' : m'.world.slot fd = some c') :
    (m.world.slot fd = none ∧ (∃ k, c' = .fresh fd k) ∧
        bytesFrom c'.serial m'.world.trace = []) ∨
      ∃ c, m.world.slot fd = some c ∧ c'.serial = c.serial := by
  rw [h.world] at hc' ⊢
  by_cases hsrv : o.ev.ident = m.world.serverFd
  · have hout := dispatch_accepting hsrv hm.framed.housed
    rcases hout.slots fd with hsame | ⟨hnone, k, hk, hnew⟩
    · exact .inr ⟨c', hsame.symm.trans hc', rfl⟩
    · rw [hc', Option.some.injEq] at hnew
      refine .inl ⟨hnone, ⟨k, hnew⟩, ?_⟩
      rw [hout.bytes, hnew]
      exact ((hm.framed.each k).past hk).2
  · exact .inr (slot_of_dispatch hm.framed hsrv hc')

/-- What a socket that is read has left is announced. -/
theorem handled_read {c c' : ClientConnection} (hr : o.Reads m.world c)
    (hc' : m'.world.slot o.ev.ident = some c') :
    bytesFrom c'.serial m'.world.trace = (m'.inbound o.ev.ident).read ∧
      (m'.inbound o.ev.ident).Counts ∧ (m'.ready o.ev.ident .read = true ∨
        ¬ (m'.inbound o.ev.ident).HasInput ∨ c'.closing = true) := by
  have hserved := hm.each _ _ hr.slot
  rw [h.world] at hc'
  obtain ⟨hser, hread, hcounts, hempty⟩ := read_of_dispatch hm.framed hr (h.reads c hr)
    hserved.read hserved.counts hc'
  rw [h.world, hser]
  exact ⟨hread, hcounts, hempty⟩

theorem inStep_handled {fd : Nat} {c' : ClientConnection} (hc' : m'.world.slot fd = some c') :
    m'.InStep fd c' := by
  rcases handled_slot hm h hc' with ⟨hnone, ⟨k, hnew⟩, hbytes⟩ | ⟨c, hc, hser⟩
  · obtain ⟨htaken, -, hcred⟩ := h.came fd hnone (by rw [hc']; simp)
    refine ⟨⟨?_, hcred⟩, ?_, ?_⟩
    · rw [hnew]
      exact Nat.zero_le _
    · rw [hbytes, Inbound.read, htaken]
      rfl
    · rw [Inbound.Counts, htaken]
      exact Nat.zero_le _
  have hserved := hm.each fd c hc
  have hstays := stays_of_slots hc hc'
  have hdisp : (dispatch m.world o).slot fd = some c' := h.world ▸ hc'
  have hanswers : Answers { writes := m'.outbound fd, mallocs := [] } c' := by
    refine ⟨inBuffer.dispatch hm.framed.housed hc (o := o) hserved.answers.1 hdisp, ?_⟩
    rcases h.writes fd hstays with ⟨hsock, hout, -⟩ | ⟨hcred, -⟩
    · have hsent : Answers (o.sock fd) c := ⟨hserved.answers.1, hsock ▸ hserved.answers.2⟩
      have hleft := (answers.dispatch hm.framed.housed hc hsent hdisp).2
      rw [← h.world, ← hout] at hleft
      exact hleft
    · exact hcred
  by_cases hr : ∃ d, o.Reads m.world d ∧ fd = o.ev.ident
  · obtain ⟨d, hr, rfl⟩ := hr
    obtain ⟨hread, hcounts, -⟩ := handled_read hm h hr hc'
    exact ⟨hanswers, hread, hcounts⟩
  · have hnot : ∀ d, o.Reads m.world d → fd ≠ o.ev.ident := fun d hr' heq => hr ⟨d, hr', heq⟩
    obtain ⟨hin, -⟩ := h.unread fd hstays hnot
    have hbytes := (quiet_of_dispatch hm.framed hc hdisp hnot).2
    refine ⟨hanswers, ?_, hin ▸ hserved.counts⟩
    rw [hser, h.world, hbytes, hin]
    exact hserved.read

/-- Input at a socket was there before, unless it is announced. -/
theorem work_read {fd : Nat} (hne : (fd, Filter.read) ≠ (o.ev.ident, o.ev.filter))
    (hwork : m'.Work (fd, .read)) :
    m'.ready fd .read = true ∨
      m.Work (fd, .read) ∧ (m.ready fd .read = true → m'.ready fd .read = true) := by
  obtain ⟨c', hc', hopen, hinput⟩ := hwork
  rcases handled_slot hm h hc' with ⟨hnone, -⟩ | ⟨c, hc, -⟩
  · exact .inl ((h.came fd hnone (by rw [hc']; simp)).2.1 hinput)
  have hnot : ∀ d, o.Reads m.world d → fd ≠ o.ev.ident := by
    rintro d hr rfl
    exact hne (by rw [hr.filter])
  obtain ⟨hin, hready⟩ := h.unread fd (stays_of_slots hc hc') hnot
  have hbare := (quiet_of_dispatch hm.framed hc (h.world ▸ hc') hnot).1
  have hclosing : c'.bare.closing = c.bare.closing := congrArg _ hbare
  exact .inr ⟨⟨c, hc, hclosing.symm.trans hopen, hin ▸ hinput⟩, fun hraised => hready.trans hraised⟩

/-- A queue with room at its socket was there before, unless it is announced. -/
theorem work_write {fd : Nat} (hwork : m'.Work (fd, .write)) :
    m'.ready fd .write = true ∨
      m.Work (fd, .write) ∧ (m.ready fd .write = true → m'.ready fd .write = true) := by
  obtain ⟨c', hc', hout, hroom⟩ := hwork
  rcases handled_slot hm h hc' with ⟨-, ⟨k, hnew⟩, -⟩ | ⟨c, hc, -⟩
  · rw [hnew] at hout
    exact absurd hout (Nat.lt_irrefl 0)
  rcases h.writes fd (stays_of_slots hc hc') with ⟨hsock, hleft, hready⟩ | ⟨-, hready⟩
  · refine .inr ⟨?_, fun hraised => hready.trans hraised⟩
    by_contra hno
    have hserved := (hm.each fd c hc).answers
    -- had the connection waited for room, it would still
    have hwaits : WaitsForRoom (o.sock fd) c := by
      refine ⟨⟨hserved.1, hsock ▸ hserved.2⟩, ?_⟩
      rw [hsock]
      by_contra hboth
      rw [not_or] at hboth
      exact hno ⟨c, hc, Nat.pos_of_ne_zero hboth.1, hboth.2⟩
    rcases (waitsForRoom.dispatch hm.framed.housed hc hwaits (h.world ▸ hc')).2 with h0 | hnil
    · exact absurd hout (h0 ▸ Nat.lt_irrefl 0)
    · rw [← h.world, ← hleft] at hnil
      exact hroom hnil
  · exact .inl hready

/-- The filter that was handled has nothing left that is not announced. -/
theorem work_handled (hwork : m'.Work (o.ev.ident, o.ev.filter)) :
    m'.ready o.ev.ident o.ev.filter = true := by
  cases hfilter : o.ev.filter with
  | read =>
    rw [hfilter] at hwork
    obtain ⟨c', hc', hopen, hinput⟩ := hwork
    rcases handled_slot hm h hc' with ⟨hnone, -⟩ | ⟨c, hc, -⟩
    · exact (h.came _ hnone (by rw [hc']; simp)).2.1 hinput
    by_cases hr : o.Reads m.world c
    · obtain ⟨-, -, hready | hempty | hclosing⟩ := handled_read hm h hr hc'
      · exact hready
      · exact absurd hinput hempty
      · rw [hopen] at hclosing
        cases hclosing
    · -- it is not read, so it is closing: what is at its socket is no work
      have hsrv : o.ev.ident ≠ m.world.serverFd := fun heq =>
        (hm.framed.housed.isOpen _ _ _ (badge_of_slot hc)).2 heq
      have hdisp : (dispatch m.world o).slot o.ev.ident = some c' := h.world ▸ hc'
      have hnot : ∀ d, o.Reads m.world d → o.ev.ident ≠ o.ev.ident := fun d hr' _ => by
        have hslot := hr'.slot
        rw [hc, Option.some.injEq] at hslot
        exact hr (hslot ▸ hr')
      have hclosing : c'.bare.closing = c.bare.closing :=
        congrArg _ (quiet_of_dispatch hm.framed hc hdisp hnot).1
      refine absurd ⟨hsrv, fun hbroken => ?_, hfilter, hc, hclosing.symm.trans hopen⟩ hr
      rw [dispatch_serving hsrv hc] at hdisp
      have hstay := (kept_of_removeIfDone hdisp).1
      rw [serveEvent_broken hbroken] at hstay
      cases hstay
  | write =>
    rw [hfilter] at hwork
    rcases work_write hm h hwork with hready | ⟨hold, -⟩
    · exact hready
    obtain ⟨c', hc', hout, hroom⟩ := hwork
    obtain ⟨c, hc, -⟩ := hold
    have hsrv : o.ev.ident ≠ m.world.serverFd := fun heq =>
      (hm.framed.housed.isOpen _ _ _ (badge_of_slot hc)).2 heq
    rcases h.writes _ (stays_of_slots hc hc') with ⟨hsock, hleft, -⟩ | ⟨-, hready⟩
    · have hserved := (hm.each _ c hc).answers
      have hwaits := flushed_of_dispatch hsrv hfilter hc ⟨hserved.1, hsock ▸ hserved.2⟩
        (h.world ▸ hc')
      rcases hwaits.2 with h0 | hnil
      · exact absurd hout (h0 ▸ Nat.lt_irrefl 0)
      · rw [← h.world, ← hleft] at hnil
        exact absurd hnil hroom
    · exact hready

/-- **An event leaves nothing that is not announced.** -/
theorem awake_handled : m'.Awake := by
  refine ⟨h.world ▸ reachable_dispatch hm.reachable o, h.world ▸ framed_dispatch hm.framed o,
    fun fd c' hc' => inStep_handled hm h hc', ?_⟩
  refine Notification.Step.announced (.handle (o.ev.ident, o.ev.filter) ?_
    (work_handled hm h) fun j hj hwork => ?_) hm.announced
  · rw [board, h.batch, List.map_cons]
    rfl
  · obtain ⟨fd, f⟩ := j
    cases f with
    | read => exact work_read hm h hj hwork
    | write => exact work_write hm h hwork

end Handled

/-- What happens at a socket from outside is announced. -/
theorem Awake.come {m m' : Machine} (hm : m.Awake) (hworld : m'.world = m.world)
    (hbatch : m'.batch = m.batch) (hready : ∀ fd f, m.ready fd f = true → m'.ready fd f = true)
    (heach : ∀ fd c, m.world.slot fd = some c → m'.InStep fd c)
    (hnew : ∀ i, m'.Work i → m.Work i ∨ m'.ready i.1 i.2 = true) : m'.Awake := by
  refine ⟨hworld ▸ hm.reachable, hworld ▸ hm.framed, fun fd c hc => heach fd c (hworld ▸ hc), ?_⟩
  refine Notification.Step.announced (.come ?_ (fun i => hready i.1 i.2) hnew) hm.announced
  rw [board, hbatch]
  rfl

/-- Filters have something while connections and sockets are the same. -/
theorem work_of_same {m m' : Machine} (hworld : m'.world = m.world)
    (hin : m'.inbound = m.inbound) (hout : m'.outbound = m.outbound) {i : Nat × Filter}
    (h : m'.Work i) : m.Work i := by
  obtain ⟨fd, f⟩ := i
  cases f with
  | read =>
    obtain ⟨c, hc, hopen, hinput⟩ := h
    exact ⟨c, hworld ▸ hc, hopen, hin ▸ hinput⟩
  | write =>
    obtain ⟨c, hc, hlen, hroom⟩ := h
    exact ⟨c, hworld ▸ hc, hlen, hout ▸ hroom⟩

/-- **Every step keeps the invariant.** -/
theorem awake_step {m m' : Machine} (hm : m.Awake) (hstep : m.Step m') : m'.Awake := by
  cases hstep with
  | @arrival fd i harr =>
    refine hm.come rfl rfl (fun n f hf => raise_iff.mpr (.inl hf)) (fun n c hc => ?_) fun j hj => ?_
    · have hn := hm.each n c hc
      have hin : (Function.update m.inbound fd i n).read = (m.inbound n).read ∧
          (Function.update m.inbound fd i n).Counts := by
        rw [Function.update_apply]
        split
        · rename_i hfd
          subst hfd
          exact harr.read hn.counts
        · exact ⟨rfl, hn.counts⟩
      exact ⟨hn.answers, hn.read.trans hin.1.symm, hin.2⟩
    · obtain ⟨n, f⟩ := j
      cases f with
      | write => exact .inl hj
      | read =>
        by_cases hfd : n = fd
        · exact .inr (raise_iff.mpr (.inr ⟨hfd, rfl⟩))
        · obtain ⟨c, hc, hopen, hinput⟩ := hj
          have hsame : Function.update m.inbound fd i n = m.inbound n :=
            Function.update_of_ne hfd _ _
          exact .inl ⟨c, hc, hopen, hsame ▸ hinput⟩
  | @drained fd writes hcred =>
    refine hm.come rfl rfl (fun n f hf => raise_iff.mpr (.inl hf)) (fun n c hc => ?_) fun j hj => ?_
    · have hn := hm.each n c hc
      have hout : Credible (Function.update m.outbound fd writes n) := by
        rw [Function.update_apply]
        split
        · exact hcred
        · exact hn.answers.2
      exact ⟨⟨hn.answers.1, hout⟩, hn.read, hn.counts⟩
    · obtain ⟨n, f⟩ := j
      cases f with
      | read => exact .inl hj
      | write =>
        by_cases hfd : n = fd
        · exact .inr (raise_iff.mpr (.inr ⟨hfd, rfl⟩))
        · obtain ⟨c, hc, hout, hroom⟩ := hj
          have hsame : Function.update m.outbound fd writes n = m.outbound n :=
            Function.update_of_ne hfd _ _
          exact .inl ⟨c, hc, hout, hsame ▸ hroom⟩
  | reset fd =>
    refine hm.come rfl rfl (fun n f hf => raise_iff.mpr (.inl (raise_iff.mpr (.inl hf))))
      (fun n c hc => ?_) fun j hj => .inl (work_of_same (m := m) rfl rfl rfl hj)
    have hn := hm.each n c hc
    exact ⟨hn.answers, hn.read, hn.counts⟩
  | waited hdone evs hready =>
    refine ⟨hm.reachable, hm.framed, fun fd c hc => ?_, ?_⟩
    · have hn := hm.each fd c hc
      exact ⟨hn.answers, hn.read, hn.counts⟩
    · refine Notification.Step.announced (.take ?_ (fun j hj => ?_)
        fun j hj => work_of_same (m := m) rfl rfl rfl hj) hm.announced
      · rw [board, hdone]
        rfl
      · obtain ⟨fd, f⟩ := j
        have hj' : m.ready fd f = true := hj
        by_cases htaken : evs.any (fun ev => ev.ident == fd && ev.filter == f) = true
        · obtain ⟨ev, hev, heq⟩ := List.any_eq_true.mp htaken
          simp only [Bool.and_eq_true, beq_iff_eq] at heq
          exact .inr (List.mem_map.mpr ⟨ev, hev, Prod.ext heq.1 heq.2⟩)
        · rw [Bool.not_eq_true] at htaken
          have hstill : (m.ready fd f && !evs.any fun ev => ev.ident == fd && ev.filter == f)
              = true := by
            rw [hj', htaken]
            rfl
          exact .inl hstill
  | handled h => exact awake_handled hm h

theorem awake_start {m : Machine} (h : m.Starts) : m.Awake := by
  obtain ⟨hbatch, serverFd, others, hworld⟩ := h
  have hnone : ∀ fd c, m.world.slot fd ≠ some c := by
    intro fd c hc
    rw [hworld, init_slot] at hc
    cases hc
  refine ⟨hworld ▸ ⟨serverFd, others, [], rfl⟩, hworld ▸ framed_init serverFd others,
    fun fd c hc => absurd hc (hnone fd c), fun i hi => ?_⟩
  obtain ⟨fd, f⟩ := i
  cases f with
  | read =>
    obtain ⟨c, hc, -⟩ := hi
    exact absurd hc (hnone fd c)
  | write =>
    obtain ⟨c, hc, -⟩ := hi
    exact absurd hc (hnone fd c)

theorem awake_of_reachable {m : Machine} (hm : m.Reachable) : m.Awake := by
  induction hm with
  | start h => exact awake_start h
  | step _ hstep ih => exact awake_step ih hstep

/-- No filter of a connected client would be reported, and no event is left to handle. -/
def Quiet (m : Machine) : Prop :=
  m.batch = [] ∧ ∀ fd f, m.world.slot fd ≠ none → m.ready fd f = false

end Machine

/-- **No wake-up is lost.**  In every state the server and the kernel reach, whatever the clients
do and whenever, a connection with input that the server has to read, or with output that its
socket would take, has its filter ready or in the batch that is being handled. -/
theorem nothing_overlooked {m : Machine} (hm : m.Reachable) {fd : Nat} {c : ClientConnection}
    (hc : m.world.slot fd = some c) :
    (c.closing = false → (m.inbound fd).HasInput →
        m.ready fd .read = true ∨ ∃ ev ∈ m.batch, ev.ident = fd ∧ ev.filter = .read) ∧
      (0 < c.outlen → m.outbound fd ≠ [] →
        m.ready fd .write = true ∨ ∃ ev ∈ m.batch, ev.ident = fd ∧ ev.filter = .write) := by
  have hann := (Machine.awake_of_reachable hm).announced
  have hevent : ∀ {f : Filter}, m.Work (fd, f) →
      m.ready fd f = true ∨ ∃ ev ∈ m.batch, ev.ident = fd ∧ ev.filter = f := by
    intro f hwork
    refine (hann (fd, f) hwork).imp id fun hmem => ?_
    obtain ⟨ev, hev, heq⟩ := List.mem_map.mp hmem
    exact ⟨ev, hev, congrArg Prod.fst heq, congrArg Prod.snd heq⟩
  exact ⟨fun hopen hinput => hevent ⟨c, hc, hopen, hinput⟩,
    fun hout hroom => hevent ⟨c, hc, hout, hroom⟩⟩

theorem Machine.Quiet.idle {m : Machine} (hquiet : m.Quiet) (hm : m.Awake) {fd : Nat}
    {c : ClientConnection} (hc : m.world.slot fd = some c) (f : Filter) : ¬ m.Work (fd, f) :=
  hm.announced.nothing_left (i := (fd, f)) (by rw [Machine.board, hquiet.1]; rfl) (by
    have hlow : m.ready fd f = false := hquiet.2 fd f (by rw [hc]; simp)
    simp [Machine.board, hlow])

/-- What an open connection has sent was read to the last byte, and handled. -/
theorem Machine.Quiet.handled {m : Machine} (hquiet : m.Quiet) (hm : m.Awake) {fd : Nat}
    {c : ClientConnection} (hc : m.world.slot fd = some c) (hopen : c.closing = false) :
    (m.inbound fd).fin = false ∧ bytesFrom c.serial m.world.trace = (m.inbound fd).sent ∧
      actionsOn c.serial m.world.trace = requests (m.inbound fd).sent := by
  have hnone : ¬ (m.inbound fd).HasInput := fun hinput =>
    hquiet.idle hm hc .read ⟨c, hc, hopen, hinput⟩
  unfold Inbound.HasInput at hnone
  rw [not_or, not_not, Bool.not_eq_true] at hnone
  have hall : bytesFrom c.serial m.world.trace = (m.inbound fd).sent := by
    rw [(hm.each fd c hc).read, Inbound.read, List.take_of_length_le]
    exact List.drop_eq_nil_iff.mp hnone.1
  refine ⟨hnone.2, hall, ?_⟩
  obtain ⟨-, hreads⟩ := (hm.framed.each c.serial).reading fd c hc rfl hopen
  rw [← hall]
  exact hreads.handled

/-- What is queued waits for room. -/
theorem Machine.Quiet.full {m : Machine} (hquiet : m.Quiet) (hm : m.Awake) {fd : Nat}
    {c : ClientConnection} (hc : m.world.slot fd = some c) (hout : 0 < c.outlen) :
    m.outbound fd = [] := by
  by_contra hne
  exact hquiet.idle hm hc .write ⟨c, hc, hout, hne⟩

/-- **At rest nothing is left to do.**  When no event is left and none would be reported, all that
a client has sent was read, and its lines were handled, unless it has quit; what is queued for
it waits for room at its socket; and a client that has quit is only waited for. -/
theorem at_rest {m : Machine} (hm : m.Reachable) (hquiet : m.Quiet) {fd : Nat}
    {c : ClientConnection} (hc : m.world.slot fd = some c) :
    (c.closing = false → (m.inbound fd).fin = false ∧
        bytesFrom c.serial m.world.trace = (m.inbound fd).sent ∧
        actionsOn c.serial m.world.trace = requests (m.inbound fd).sent) ∧
      (0 < c.outlen → m.outbound fd = []) ∧ (c.closing = true → m.outbound fd = []) := by
  have hawake := Machine.awake_of_reachable hm
  exact ⟨hquiet.handled hawake hc, hquiet.full hawake hc, fun hclosing =>
    hquiet.full hawake hc (draining_of_reachable hawake.reachable fd c hc hclosing)⟩

/-! ## 5. A client that logs in -/

/-- It has sent its line before it is accepted, and its socket takes what it is given. -/
def loggingIn : Inbound := { sent := lit "LOGIN ann\n", taken := 0, fin := false }

def roomy : List WriteResult := [.took outbufSize, .took outbufSize]

theorem credible_roomy : Credible roomy := ⟨.inr le_rfl, .inl rfl, trivial⟩

/-- The machine at its start, behind the accept, and behind the event of the new connection. -/
def atStart : Machine :=
  { world := .init 3 [], inbound := fun _ => loggingIn, outbound := fun _ => roomy
    ready := fun _ _ => false, batch := [] }

def behindAccept : Machine :=
  { atStart with world := dispatch (.init 3 []) (listening [5]), ready := fun _ f => f == .read }

def loginEvent : Occurrence :=
  { readable 5 [] fun _ => { writes := roomy, mallocs := [] } with
    reads := [.data (lit "LOGIN ann\n"), .eagain] }

def behindLogin : Machine :=
  let w := dispatch behindAccept.world loginEvent
  { world := w, inbound := fun _ => { loggingIn with taken := 10 }
    outbound := fun fd => (w.sock fd).writes, ready := fun _ _ => false, batch := [] }

theorem reachable_behindAccept : behindAccept.Reachable := by
  have hstart : atStart.Reachable := .start ⟨rfl, 3, [], rfl⟩
  refine (hstart.step (.waited rfl [(listening [5]).ev] (by decide))).step
    (.handled (o := listening [5]) ⟨rfl, rfl, ?_, ?_, ?_, ?_⟩)
  · exact fun c hr => absurd rfl hr.client
  · exact fun fd hstays => absurd (init_slot 3 [] fd) hstays.1
  · exact fun fd hstays => absurd (init_slot 3 [] fd) hstays.1
  · exact fun fd _ _ => ⟨rfl, fun _ => rfl, credible_roomy⟩

theorem behindAccept_slot {fd : Nat} (h : behindAccept.world.slot fd ≠ none) : fd = 5 := by
  obtain ⟨c, hc⟩ := Option.ne_none_iff_exists'.mp h
  have hlt : fd < 10 := slot_lt hc
  have hall : ∀ n < 10, behindAccept.world.slot n ≠ none → n = 5 := by decide +kernel
  exact hall fd hlt h

theorem reachable_behindLogin : behindLogin.Reachable := by
  refine (reachable_behindAccept.step (.waited rfl [loginEvent.ev] (by decide))).step
    (.handled (o := loginEvent) ⟨rfl, rfl, fun c hr => ?_, fun fd hstays hnot => ?_,
      fun fd hstays => ?_, fun fd hnone hsome => ?_⟩)
  · have hc : c = .fresh 5 0 := by
      have hslot := hr.slot
      have h5 : behindAccept.world.slot 5 = some (.fresh 5 0) := by decide +kernel
      exact Option.some.inj (hslot.symm.trans h5)
    subst hc
    have hdata : loggingIn.Read 160 (.data (lit "LOGIN ann\n")) { loggingIn with taken := 10 } :=
      .data (by decide) (by decide) List.prefix_rfl
    have hempty : ∀ n, ({ loggingIn with taken := 10 } : Inbound).Read n .eagain
        { loggingIn with taken := 10 } := fun n => .eagain (by decide) rfl
    exact .turn hdata (by decide +kernel) (.last (hempty _) rfl)
  · refine absurd (behindAccept_slot hstays.1) (hnot (.fresh 5 0) ⟨?_, ?_, rfl, ?_, rfl⟩)
    · decide +kernel
    · unfold Kevent.isBroken
      decide
    · decide +kernel
  · have hfd := behindAccept_slot hstays.1
    subst hfd
    exact .inl ⟨rfl, rfl, rfl⟩
  · have hall : ∀ n < 10, behindAccept.world.slot n = none → behindLogin.world.slot n = none := by
      decide +kernel
    obtain ⟨c, hc⟩ := Option.ne_none_iff_exists'.mp hsome
    have hlt : fd < 10 := slot_lt hc
    exact absurd (hall fd hlt hnone) hsome

/-- The event that reads the line is in the batch. -/
def inFrontOfLogin : Machine :=
  { behindAccept with
    batch := [loginEvent.ev]
    ready := fun fd f =>
      behindAccept.ready fd f &&
        !(List.any [loginEvent.ev] fun ev => ev.ident == fd && ev.filter == f) }

theorem nothing_overlooked_login :
    (inFrontOfLogin.inbound 5).HasInput ∧ (inFrontOfLogin.ready 5 .read = true ∨
      ∃ ev ∈ inFrontOfLogin.batch, ev.ident = 5 ∧ ev.filter = .read) := by
  have hreach : inFrontOfLogin.Reachable :=
    reachable_behindAccept.step (.waited rfl [loginEvent.ev] (by decide))
  have hslot : inFrontOfLogin.world.slot 5 = some (.fresh 5 0) := by decide +kernel
  have hinput : (inFrontOfLogin.inbound 5).HasInput := .inl (by decide)
  exact ⟨hinput, (nothing_overlooked hreach hslot).1 rfl hinput⟩

theorem at_rest_login :
    ∃ c, behindLogin.world.slot 5 = some c ∧ c.closing = false ∧
      actionsOn c.serial behindLogin.world.trace = requests (lit "LOGIN ann\n") ∧
      requests (lit "LOGIN ann\n") = [.line (lit "LOGIN ann")] := by
  have hsome : (behindLogin.world.slot 5).isSome := by decide +kernel
  obtain ⟨c, hc⟩ := Option.isSome_iff_exists.mp hsome
  have hopen : (behindLogin.world.slot 5).all (fun c => !c.closing) = true := by decide +kernel
  rw [hc] at hopen
  have hopen' : c.closing = false := by simpa using hopen
  exact ⟨c, hc, hopen', ((at_rest reachable_behindLogin ⟨rfl, fun _ _ _ => rfl⟩ hc).1 hopen').2.2,
    by decide +kernel⟩

end SocketExchange
