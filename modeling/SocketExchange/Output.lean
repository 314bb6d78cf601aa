/-
# The output stream of a connection

What a connection is sent reaches its socket in order and whole.  `Takes` is the condition
under which `sendToClient` succeeds, said on its inputs; `sendToClient_stream` says what it
does to the stream then, and `sendToClient_refused` that it does nothing to it otherwise.
`output_stream` puts any number of sends and flushes together.  `AllTaken` says the same of
several messages at once: it adds up lengths and follows the socket's answers, and no more.

The answers of the kernel are lists, and a list that has run out stands for a full socket, so
the state in the middle of a flush, between two of its writes, is the state at the end of a
flush with a shorter list.
-/
import SocketExchange.Connection
import SocketExchange.Lib.Run

namespace SocketExchange

open CText

/-! ## 1. When a message is taken -/

/-- The output buffer can be had and has room for `rest`. -/
def HasRoom (mallocs : List Bool) (conn : ClientConnection) (rest : Bytes) : Prop :=
  rest.length = 0 ∨
    (conn.outbuf = none → (mallocResult mallocs).1 = true) ∧
      conn.outlen + rest.length ≤ outbufSize

instance (mallocs : List Bool) (conn : ClientConnection) (rest : Bytes) :
    Decidable (HasRoom mallocs conn rest) := by
  unfold HasRoom; infer_instance

/-- The socket is not broken, and what it does not take at once finds room. -/
def Takes (env : SockEnv) (conn : ClientConnection) (data : Bytes) : Prop :=
  if conn.outlen = 0 then
    match (writeRetry data.length env.writes).1 with
    | .failed => False
    | .again => HasRoom env.mallocs conn data
    | .took n => HasRoom env.mallocs conn (data.drop n)
  else HasRoom env.mallocs conn data

instance (env : SockEnv) (conn : ClientConnection) (data : Bytes) :
    Decidable (Takes env conn data) := by
  unfold Takes
  split
  · split <;> infer_instance
  · infer_instance

theorem mallocResult_succeeds {mallocs : List Bool} (h : ∀ ok ∈ mallocs, ok = true) :
    (mallocResult mallocs).1 = true := by
  cases mallocs with
  | nil => rfl
  | cons ok rs => exact h ok List.mem_cons_self

theorem pending_eq_nil {conn : ClientConnection} : conn.outlen = 0 ↔ conn.pending = [] := by
  unfold ClientConnection.outlen
  exact List.length_eq_zero_iff

/-! ## 2. `sendToClient` -/

@[simp] theorem queueRest_wrote (env : SockEnv) (conn : ClientConnection) (wrote rest : Bytes) :
    (queueRest env conn wrote rest).wrote = wrote := by
  unfold queueRest
  dsimp only
  split
  · rfl
  · generalize (if conn.outbuf = none then mallocResult env.mallocs else (true, env.mallocs)) = m
    split
    · rfl
    · split <;> rfl

/-- What finds room is queued behind what is there. -/
theorem queueRest_of_room {env : SockEnv} {conn : ClientConnection} {rest : Bytes}
    (wrote : Bytes) (h : HasRoom env.mallocs conn rest) :
    (queueRest env conn wrote rest).failed = false ∧
      (queueRest env conn wrote rest).conn.pending = conn.pending ++ rest := by
  unfold queueRest
  rcases h with h | ⟨hm, hroom⟩
  · rw [if_pos h, List.length_eq_zero_iff.mp h]
    exact ⟨rfl, (List.append_nil _).symm⟩
  · split
    · rename_i h
      rw [List.length_eq_zero_iff.mp h]
      exact ⟨rfl, (List.append_nil _).symm⟩
    · have hok : (if conn.outbuf = none then mallocResult env.mallocs
          else (true, env.mallocs)).1 = true := by
        split
        · rename_i hnone
          exact hm hnone
        · rfl
      have hlen : ¬ (({ conn with outbuf := some conn.pending } : ClientConnection).outlen
          + rest.length > outbufSize) := Nat.not_lt.mpr hroom
      dsimp only
      rw [hok, if_neg (by decide), if_neg hlen]
      exact ⟨rfl, rfl⟩

/-- What finds no room is dropped, and the queue is as it was. -/
theorem queueRest_of_noRoom {env : SockEnv} {conn : ClientConnection} {rest : Bytes}
    (wrote : Bytes) (h : ¬ HasRoom env.mallocs conn rest) :
    (queueRest env conn wrote rest).failed = true ∧
      (queueRest env conn wrote rest).conn.pending = conn.pending := by
  unfold HasRoom at h
  rw [not_or] at h
  unfold queueRest
  rw [if_neg h.1]
  by_cases hm : (if conn.outbuf = none then mallocResult env.mallocs
      else (true, env.mallocs)).1 = false
  · dsimp only
    rw [if_pos hm]
    exact ⟨rfl, rfl⟩
  · have hlen : ({ conn with outbuf := some conn.pending } : ClientConnection).outlen
        + rest.length > outbufSize := by
      refine Nat.lt_of_not_le fun hroom => h.2 ⟨fun hnone => ?_, hroom⟩
      rw [if_pos hnone] at hm
      exact Bool.eq_true_of_not_eq_false hm
    dsimp only
    rw [if_neg hm, if_pos hlen]
    exact ⟨rfl, rfl⟩

/-- What a call of `sendToClient` comes to: the socket is broken, or it takes a first part of
the message (nothing, when something is queued already) and the rest is queued. -/
theorem sendToClient_cases (env : SockEnv) (conn : ClientConnection) (data : Bytes) :
    (∃ env', sendToClient env conn data = { conn := conn, env := env', wrote := [], failed := true }
        ∧ ¬ Takes env conn data) ∨
      ∃ (env' : SockEnv) (wrote rest : Bytes), env'.mallocs = env.mallocs ∧
        sendToClient env conn data = queueRest env' conn wrote rest ∧ wrote ++ rest = data ∧
        (wrote = [] ∨ conn.outlen = 0) ∧
        (Takes env conn data ↔ HasRoom env'.mallocs conn rest) := by
  unfold Takes sendToClient
  by_cases h0 : conn.outlen = 0
  · simp only [if_pos h0]
    rcases writeRetry data.length env.writes with ⟨a, ws⟩
    cases a with
    | failed => exact .inl ⟨_, rfl, id⟩
    | again =>
      exact .inr ⟨{ env with writes := ws }, [], data, rfl, rfl, rfl, .inl rfl, Iff.rfl⟩
    | took n =>
      exact .inr ⟨{ env with writes := ws }, data.take n, data.drop n, rfl, rfl,
        List.take_append_drop _ _, .inr h0, Iff.rfl⟩
  · simp only [if_neg h0]
    exact .inr ⟨env, [], data, rfl, rfl, rfl, .inl rfl, Iff.rfl⟩

/-- **A message that is taken joins the stream**, behind everything sent before it. -/
theorem sendToClient_stream {env : SockEnv} {conn : ClientConnection} {data : Bytes}
    (h : Takes env conn data) :
    (sendToClient env conn data).failed = false ∧
      (sendToClient env conn data).wrote ++ (sendToClient env conn data).conn.pending
        = conn.pending ++ data := by
  rcases sendToClient_cases env conn data with ⟨_, -, hno⟩ | ⟨env', wrote, rest, -, heq, hd, hw, hr⟩
  · exact absurd h hno
  · obtain ⟨hf, hq⟩ := queueRest_of_room wrote (hr.mp h)
    rw [heq]
    refine ⟨hf, ?_⟩
    rw [queueRest_wrote, hq, ← hd]
    rcases hw with rfl | h0
    · rfl
    · rw [pending_eq_nil.mp h0]
      rfl

/-- A message that is not taken is reported as failed, and the queue is as it was. -/
theorem sendToClient_refused {env : SockEnv} {conn : ClientConnection} {data : Bytes}
    (h : ¬ Takes env conn data) :
    (sendToClient env conn data).failed = true ∧
      (sendToClient env conn data).conn.pending = conn.pending := by
  rcases sendToClient_cases env conn data with ⟨_, heq, -⟩ | ⟨env', wrote, rest, -, heq, -, -, hr⟩
  · rw [heq]
    exact ⟨rfl, rfl⟩
  · rw [heq]
    exact queueRest_of_noRoom wrote fun hroom => h (hr.mpr hroom)

theorem sendToClient_failed {env : SockEnv} {conn : ClientConnection} {data : Bytes} :
    (sendToClient env conn data).failed = true ↔ ¬ Takes env conn data := by
  constructor
  · intro hf h
    rw [(sendToClient_stream h).1] at hf
    exact Bool.false_ne_true hf
  · exact fun h => (sendToClient_refused h).1

/-- With a buffer to be had, a message no longer than the buffer that is not taken leaves no
byte at the socket: after a partial write the rest always fits. -/
theorem sendToClient_refused_wrote {env : SockEnv} {conn : ClientConnection} {data : Bytes}
    (hm : ∀ ok ∈ env.mallocs, ok = true) (hlen : data.length ≤ outbufSize)
    (h : ¬ Takes env conn data) : (sendToClient env conn data).wrote = [] := by
  rcases sendToClient_cases env conn data with
    ⟨_, heq, -⟩ | ⟨env', wrote, rest, he, heq, hd, hw, hr⟩
  · rw [heq]
  · rw [heq, queueRest_wrote]
    rcases hw with rfl | h0
    · rfl
    · refine absurd (hr.mpr (Or.inr ⟨fun _ => mallocResult_succeeds (he ▸ hm), ?_⟩)) h
      have := congrArg List.length hd
      rw [List.length_append] at this
      omega

/-- The queue never holds more than the buffer. -/
theorem sendToClient_outlen {env : SockEnv} {conn : ClientConnection} {data : Bytes}
    (hmax : conn.outlen ≤ outbufSize) :
    (sendToClient env conn data).conn.outlen ≤ outbufSize := by
  by_cases h : Takes env conn data
  · rcases sendToClient_cases env conn data with ⟨_, -, hno⟩ | ⟨env', wrote, rest, -, heq, -, -, hr⟩
    · exact absurd h hno
    · rw [heq, ClientConnection.outlen, (queueRest_of_room wrote (hr.mp h)).2, List.length_append]
      rcases hr.mp h with h0 | ⟨-, hroom⟩
      · rw [h0]
        exact hmax
      · exact hroom
  · rw [ClientConnection.outlen, (sendToClient_refused h).2]
    exact hmax

/-! ## 3. `flushToClient` -/

/-- The loop moves bytes from the front of the queue to the socket. -/
theorem flushLoop_stream (mallocs : List Bool) : ∀ (rs : List WriteResult)
    (conn : ClientConnection) (wrote : Bytes),
    (flushLoop conn wrote mallocs rs).wrote ++ (flushLoop conn wrote mallocs rs).conn.pending
      = wrote ++ conn.pending
  | [], _, _ => rfl
  | r :: rs, conn, wrote => by
    unfold flushLoop
    split
    · rfl
    · cases r with
      | eintr => exact flushLoop_stream mallocs rs conn wrote
      | eagain => rfl
      | error => rfl
      | took n =>
        have ih := flushLoop_stream mallocs rs
          { conn with outbuf := some (conn.pending.drop (taken n conn.outlen)) }
          (wrote ++ conn.pending.take (taken n conn.outlen))
        refine ih.trans ?_
        rw [List.append_assoc]
        exact congrArg (wrote ++ ·) (List.take_append_drop _ _)

theorem flushToClient_stream (env : SockEnv) (conn : ClientConnection) :
    (flushToClient env conn).wrote ++ (flushToClient env conn).conn.pending = conn.pending :=
  flushLoop_stream _ _ _ _

theorem flushToClient_outlen (env : SockEnv) (conn : ClientConnection) :
    (flushToClient env conn).conn.outlen ≤ conn.outlen := by
  have h := congrArg List.length (flushToClient_stream env conn)
  rw [List.length_append] at h
  unfold ClientConnection.outlen
  omega

/-! ## 4. Any number of calls -/

/-- One call on a connection, with the answers it gets. -/
inductive OutputCall
  | send (env : SockEnv) (data : Bytes)
  | flush (env : SockEnv)

/-- A connection, the bytes its socket has accepted, and the messages whose `sendToClient`
returned false. -/
structure Output where
  conn : ClientConnection
  accepted : Bytes
  sent : List Bytes

namespace Output

/-- A connection nothing has been sent to. -/
def start (conn : ClientConnection) : Output := { conn := conn, accepted := [], sent := [] }

def step (o : Output) : OutputCall → Output
  | .send env data =>
    let r := sendToClient env o.conn data
    { conn := r.conn, accepted := o.accepted ++ r.wrote
      sent := if r.failed then o.sent else o.sent ++ [data] }
  | .flush env =>
    let r := flushToClient env o.conn
    { o with conn := r.conn, accepted := o.accepted ++ r.wrote }

/-- The stream so far: what the socket has and what waits for it. -/
structure Intact (o : Output) : Prop where
  stream : o.accepted ++ o.conn.pending = o.sent.flatten
  bounded : o.conn.outlen ≤ outbufSize

/-- The call's message fits in an empty buffer, and a buffer can be had. -/
def Fits : OutputCall → Prop
  | .send env data => data.length ≤ outbufSize ∧ ∀ ok ∈ env.mallocs, ok = true
  | .flush _ => True

/-- A message that is not taken leaves nothing at the socket. -/
def Clean (o : Output) : OutputCall → Prop
  | .send env data =>
    (sendToClient env o.conn data).failed = true → (sendToClient env o.conn data).wrote = []
  | .flush _ => True

instance (o : Output) (call : OutputCall) : Decidable (Clean o call) := by
  cases call <;> unfold Clean <;> infer_instance

theorem clean_of_fits {call : OutputCall} (h : Fits call) (o : Output) : Clean o call := by
  cases call with
  | send env data =>
    exact fun hfailed => sendToClient_refused_wrote h.2 h.1 (sendToClient_failed.mp hfailed)
  | flush env => trivial

theorem Intact.step {o : Output} (ho : Intact o) {call : OutputCall} (hc : Clean o call) :
    Intact (o.step call) := by
  cases call with
  | send env data =>
    refine ⟨?_, sendToClient_outlen ho.bounded⟩
    by_cases h : Takes env o.conn data
    · obtain ⟨hf, hs⟩ := sendToClient_stream h
      simp only [Output.step, hf, Bool.false_eq_true, if_false]
      rw [List.append_assoc, hs, ← List.append_assoc, ho.stream]
      simp
    · obtain ⟨hf, hs⟩ := sendToClient_refused h
      simp only [Output.step, hf, if_true]
      rw [hc hf, hs, List.append_nil]
      exact ho.stream
  | flush env =>
    refine ⟨?_, (flushToClient_outlen env o.conn).trans ho.bounded⟩
    simp only [Output.step]
    rw [List.append_assoc, flushToClient_stream]
    exact ho.stream

theorem intact_start {conn : ClientConnection} (h : conn.outbuf = none) :
    Intact (.start conn) := by
  have hp : conn.pending = [] := by rw [ClientConnection.pending, h]; rfl
  exact ⟨by simp [Output.start, hp], by simp [Output.start, ClientConnection.outlen, hp]⟩

end Output

/-- **The output stream is intact.**  After any sends and flushes, with any answers of `write`,
the bytes the socket has accepted and the bytes queued are together the messages whose send
returned false, in order; the queue is no longer than the buffer; and a send that returns true
leaves both as they are. -/
theorem output_stream (conn : ClientConnection) (h : conn.outbuf = none)
    (calls : List OutputCall) (hc : ∀ call ∈ calls, Output.Fits call) :
    let o := Run.run Output.step (.start conn) calls
    o.accepted ++ o.conn.pending = o.sent.flatten ∧ o.conn.outlen ≤ outbufSize ∧
      ∀ env data, Output.Fits (.send env data) → (sendToClient env o.conn data).failed = true →
        (sendToClient env o.conn data).wrote = [] ∧
          (sendToClient env o.conn data).conn.pending = o.conn.pending := by
  intro o
  have hmeets : ∀ (cs : List OutputCall) (o : Output), (∀ call ∈ cs, Output.Fits call) →
      Run.Meets Output.step (fun _ => Output.Fits) o cs := by
    intro cs
    induction cs with
    | nil => exact fun _ _ => trivial
    | cons c cs ih =>
      exact fun o hcs => ⟨hcs c List.mem_cons_self,
        ih _ fun call hcall => hcs call (List.mem_cons_of_mem _ hcall)⟩
  have ho : Output.Intact o :=
    Run.run_invariant_of_meets (fun o _ ho hcall => ho.step (Output.clean_of_fits hcall o)) calls _
      (hmeets calls _ hc) (Output.intact_start h)
  refine ⟨ho.stream, ho.bounded, fun env data hfit hfailed => ?_⟩
  have hno := sendToClient_failed.mp hfailed
  exact ⟨sendToClient_refused_wrote hfit.2 hfit.1 hno, (sendToClient_refused hno).2⟩

/-- One byte of the first message is written, and the rest of it waits for a flush. -/
theorem output_stream_short_write :
    let calls : List OutputCall :=
      [ .send { writes := [.took 1], mallocs := [] } (lit "OK\n"),
        .send { writes := [.took 9], mallocs := [] } (lit "OK\n"),
        .flush { writes := [.eintr, .took 3, .eagain], mallocs := [] } ]
    let o := Run.run Output.step (.start (.fresh 5 0)) calls
    (o.accepted, o.conn.pending) = (lit "OK\nO", lit "K\n") ∧
      o.accepted ++ o.conn.pending = o.sent.flatten := by
  intro calls o
  have h := output_stream (.fresh 5 0) rfl calls (by simp [calls, Output.Fits]; decide)
  exact ⟨by decide, h.1⟩

/-! ## 5. Several messages -/

/-- An output buffer is there, or can be had. -/
def CanQueue (env : SockEnv) (conn : ClientConnection) : Prop :=
  conn.outbuf = none → (mallocResult env.mallocs).1 = true

instance (env : SockEnv) (conn : ClientConnection) : Decidable (CanQueue env conn) := by
  unfold CanQueue; infer_instance

/-- With nothing queued: each message is taken whole at once, up to one that is not, which is
queued with all that follow.  `queue` tells whether there is a buffer. -/
def Flows (queue : Prop) : List WriteResult → List Bytes → Prop
  | _, [] => True
  | writes, m :: ms =>
    match writeRetry m.length writes with
    | (.failed, _) => False
    | (.again, _) => queue ∧ (m :: ms).flatten.length ≤ outbufSize
    | (.took n, writes) =>
      if m.length ≤ n then Flows queue writes ms
      else queue ∧ (m :: ms).flatten.length - n ≤ outbufSize

/-- These messages, none of them empty, are all taken if they are sent one after another. -/
def AllTaken (env : SockEnv) (conn : ClientConnection) : List Bytes → Prop
  | [] => True
  | m :: ms =>
    if conn.outlen = 0 then Flows (CanQueue env conn) env.writes (m :: ms)
    else conn.outlen + (m :: ms).flatten.length ≤ outbufSize

instance decidableFlows (queue : Prop) [Decidable queue] :
    ∀ (writes : List WriteResult) (ms : List Bytes), Decidable (Flows queue writes ms)
  | _, [] => .isTrue trivial
  | writes, m :: ms =>
    match h : writeRetry m.length writes with
    | (.failed, _) => .isFalse (by simp [Flows, h])
    | (.again, _) =>
      decidable_of_iff (queue ∧ (m :: ms).flatten.length ≤ outbufSize) (by simp [Flows, h])
    | (.took n, rest) =>
      have := decidableFlows queue rest ms
      decidable_of_iff (if m.length ≤ n then Flows queue rest ms
        else queue ∧ (m :: ms).flatten.length - n ≤ outbufSize) (by simp [Flows, h])

instance (env : SockEnv) (conn : ClientConnection) :
    ∀ ms : List Bytes, Decidable (AllTaken env conn ms)
  | [] => .isTrue trivial
  | m :: ms => by unfold AllTaken; infer_instance

/-- What is queued behind a queue that is not empty needs room only. -/
theorem allTaken_queued {env : SockEnv} {conn : ClientConnection} (h0 : conn.outlen ≠ 0)
    {ms : List Bytes} (h : conn.outlen + ms.flatten.length ≤ outbufSize) :
    AllTaken env conn ms := by
  cases ms with
  | nil => trivial
  | cons m ms =>
    rw [AllTaken, if_neg h0]
    exact h

/-- The rest of a message is queued, and the messages behind it find room. -/
theorem allTaken_queueRest (env : SockEnv) {conn : ClientConnection} {rest : Bytes}
    (wrote : Bytes) (hne : rest ≠ []) (hq : CanQueue env conn) {ms : List Bytes}
    (h : conn.outlen + rest.length + ms.flatten.length ≤ outbufSize) :
    HasRoom env.mallocs conn rest ∧
      AllTaken (queueRest env conn wrote rest).env (queueRest env conn wrote rest).conn ms := by
  have hroom : HasRoom env.mallocs conn rest := .inr ⟨hq, by omega⟩
  have hlen : (queueRest env conn wrote rest).conn.outlen = conn.outlen + rest.length := by
    rw [ClientConnection.outlen, (queueRest_of_room wrote hroom).2, List.length_append]
    rfl
  have hpos := List.length_pos_of_ne_nil hne
  exact ⟨hroom, allTaken_queued (by omega) (by omega)⟩

/-- **The first of several messages is taken**, and then the others are. -/
theorem allTaken_cons {env : SockEnv} {conn : ClientConnection} {m : Bytes} {ms : List Bytes}
    (hm : m ≠ []) (h : AllTaken env conn (m :: ms)) :
    Takes env conn m ∧
      AllTaken (sendToClient env conn m).env (sendToClient env conn m).conn ms := by
  rw [AllTaken] at h
  have hlen : (m :: ms).flatten.length = m.length + ms.flatten.length := by simp
  unfold Takes sendToClient
  by_cases h0 : conn.outlen = 0
  · simp only [if_pos h0] at h ⊢
    rw [Flows] at h
    generalize writeRetry m.length env.writes = r at h ⊢
    obtain ⟨a, ws⟩ := r
    cases a with
    | failed => exact h.elim
    | again => exact allTaken_queueRest { env with writes := ws } [] hm h.1 (by omega)
    | took n =>
      dsimp only at h ⊢
      split at h
      · -- all of it is written, and the queue stays empty
        rename_i hle
        have hdrop : m.drop n = [] := List.drop_eq_nil_of_le hle
        rw [hdrop]
        refine ⟨.inl rfl, ?_⟩
        show AllTaken { env with writes := ws } conn ms
        cases ms with
        | nil => trivial
        | cons m' ms =>
          rw [AllTaken, if_pos h0]
          exact h
      · have hdrop : m.drop n ≠ [] := fun hnil => by
          have := List.drop_eq_nil_iff.mp hnil
          omega
        refine allTaken_queueRest { env with writes := ws } _ hdrop h.1 ?_
        rw [List.length_drop]
        omega
  · simp only [if_neg h0] at h ⊢
    refine allTaken_queueRest env [] hm (fun hnone => ?_) (by omega)
    exact absurd (by rw [ClientConnection.outlen, ClientConnection.pending, hnone]; rfl) h0

end SocketExchange
