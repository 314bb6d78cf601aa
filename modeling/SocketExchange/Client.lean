/-
# The clients: `trader_client.c` and `market_data_client.c`

The two programs contain the same functions, word for word: `writeAll`, `drainResponses`,
`sendPendingCommands` and `communicate`.  They differ in the command `main` sends for its third
argument, which is no part of the loop.

`turn` is one turn of the loop: `poll` returns, what the server sent is read and printed, and
what was typed is read and sent.  Both loops over newlines look for the next one from `line` on,
an index into the buffer here; their fuel is more than the newlines a buffer can hold.  `typed`,
`sent` and `received` list the bytes that came from the input, and went to and came from the
server; no code reads them.
-/
import SocketExchange.Requests

namespace SocketExchange

open CText

/-! ## 1. The state -/

/-- `BUFFER_SIZE` -/
def bufferSize : Nat := 1024

/-- `RECVBUF_SIZE` -/
def recvbufSize : Nat := 128

/-- What the program prints. -/
inductive Shown
  /-- a line of the server -/
  | response (text : Bytes)
  /-- a message of its own -/
  | notice (text : Bytes)
  deriving DecidableEq, Repr

structure Client where
  /-- `inbuf[0 .. inlen)` -/
  inbuf : Bytes
  discarding : Bool
  /-- `recvbuf[0 .. recvlen)` -/
  recvbuf : Bytes
  /-- the input is polled: `fds[0].fd` is not -1 -/
  listens : Bool
  /-- `communicate` has returned -/
  returned : Bool
  shown : List Shown
  typed : Bytes
  sent : Bytes
  received : Bytes

namespace Client

def start : Client :=
  { inbuf := [], discarding := false, recvbuf := [], listens := true, returned := false
    shown := [], typed := [], sent := [], received := [] }

/-- `printf` of a message, and `return` from `communicate`. -/
def quit (c : Client) (text : Bytes) : Client :=
  { c with shown := c.shown ++ [.notice text], returned := true }

/-! ## 2. `writeAll` -/

/-- What a call of `writeAll` leaves: what was written, the results still to come, and the
returned flag. -/
structure Written where
  wrote : Bytes
  writes : List WriteResult
  ok : Bool

/-- `writeAll(fd, data, len)`; a list that has run out stands for a `write` of everything. -/
def writeAll (data : Bytes) : List WriteResult → Written
  | [] => { wrote := data, writes := [], ok := true }
  | r :: rs =>
    if data = [] then { wrote := [], writes := r :: rs, ok := true }
    else
      match r with
      | .eintr => writeAll data rs
      | .eagain => { wrote := [], writes := rs, ok := false }
      | .error => { wrote := [], writes := rs, ok := false }
      | .took n =>
        let k := taken n data.length
        let rest := writeAll (data.drop k) rs
        { rest with wrote := data.take k ++ rest.wrote }

/-! ## 3. `drainResponses` -/

/-- The loop: the texts it prints, `line` at its end, and the buffer with its writes of NUL. -/
def drainLoop : Nat → Nat → Bytes → List Bytes × Nat × Bytes
  | 0, line, recvbuf => ([], line, recvbuf)
  | fuel + 1, line, recvbuf =>
    match findNewline recvbuf line with
    | none => ([], line, recvbuf)
    | some newline =>
      let cut := cutLine recvbuf line newline
      let rest := drainLoop fuel (newline + 1) cut.2
      (cstr cut.1 :: rest.1, rest.2)

def drainResponses (c : Client) : Client :=
  let r := drainLoop (c.recvbuf.length + 1) 0 c.recvbuf
  { c with shown := c.shown ++ r.1.map .response, recvbuf := r.2.2.drop r.2.1 }

/-! ## 4. `sendPendingCommands` -/

/-- The loop: `line` at its end, or nothing where it returns false. -/
def sendLoop : Nat → Nat → List WriteResult → Client → Client × Option Nat
  | 0, line, _, c => (c, some line)
  | fuel + 1, line, writes, c =>
    match findNewline c.inbuf line with
    | none => (c, some line)
    | some newline =>
      let len := newline - line + 1
      if c.discarding then sendLoop fuel (newline + 1) writes { c with discarding := false }
      else if len > 1 then
        let r := writeAll ((c.inbuf.drop line).take len) writes
        let c := { c with sent := c.sent ++ r.wrote }
        if r.ok then sendLoop fuel (newline + 1) r.writes c else (c, none)
      else sendLoop fuel (newline + 1) writes c

def sendPendingCommands (writes : List WriteResult) (c : Client) : Client × Bool :=
  let r := sendLoop (c.inbuf.length + 1) 0 writes c
  match r.2 with
  | none => (r.1, false)
  | some line =>
    let c := { r.1 with inbuf := r.1.inbuf.drop line }
    if c.inbuf.length = bufferSize then
      ({ c with shown := c.shown ++ [.notice (lit "Input line too long, discarded")]
                discarding := true, inbuf := [] }, true)
    else (c, true)

/-! ## 5. `communicate` -/

/-- The part for `fds[1]`. -/
def readServer (r : ReadResult) (c : Client) : Client :=
  match r with
  | .data bytes =>
    let got := bytes.take (recvbufSize - c.recvbuf.length)
    if got = [] then c.quit (lit "Server closed the connection")
    else
      let c := drainResponses { c with recvbuf := c.recvbuf ++ got, received := c.received ++ got }
      if c.recvbuf.length = recvbufSize then c.quit (lit "Server sent an over-long response")
      else c
  | _ => c.quit (lit "Failed to read from server")

/-- The part for `fds[0]`; at the end of the input the client ends its half. -/
def readInput (r : ReadResult) (writes : List WriteResult) (c : Client) : Client :=
  match r with
  | .data bytes =>
    let got := bytes.take (bufferSize - c.inbuf.length)
    if got = [] then { c with listens := false }
    else
      let r := sendPendingCommands writes
        { c with inbuf := c.inbuf ++ got, typed := c.typed ++ got }
      if r.2 then r.1 else r.1.quit (lit "Failed to write to server")
  | _ => c.quit (lit "Failed to read input")

/-- What a call of `poll` comes to, with what the reads and writes behind it return. -/
inductive Poll
  | interrupted
  | failed
  | ready (server input : Option ReadResult) (writes : List WriteResult)

/-- One turn of the loop in `communicate`; behind its `return` nothing happens. -/
def turn (c : Client) (p : Poll) : Client :=
  if c.returned then c
  else
    match p with
    | .interrupted => c
    | .failed => c.quit (lit "Failed to wait for input")
    | .ready server input writes =>
      let c :=
        match server with
        | none => c
        | some r => readServer r c
      match input with
      | none => c
      | some r => if c.returned ∨ c.listens = false then c else readInput r writes c

/-- The writes behind a turn. -/
def Poll.writes : Poll → List WriteResult
  | .ready _ _ writes => writes
  | _ => []

/-- What the server's part keeps, and then the input's part, a turn keeps. -/
theorem turn_keeps {I : Client → Prop} {c : Client} {p : Poll} (h : I c)
    (hfail : c.returned = false → I (c.quit (lit "Failed to wait for input")))
    (hserver : c.returned = false → ∀ r, I (readServer r c))
    (hinput : ∀ c' r, I c' → I (readInput r p.writes c')) : I (turn c p) := by
  unfold turn
  split
  · exact h
  · rename_i hreturned
    rw [Bool.not_eq_true] at hreturned
    cases p with
    | interrupted => exact h
    | failed => exact hfail hreturned
    | ready server input writes =>
      replace hinput : ∀ c' r, I c' → I (readInput r writes c') := hinput
      have hrest : ∀ c' : Client, I c' → I (match input with
          | none => c'
          | some r =>
            if c'.returned ∨ c'.listens = false then c' else readInput r writes c') := by
        intro c' h'
        cases input with
        | none => exact h'
        | some r =>
          dsimp only
          split
          · exact h'
          · exact hinput c' r h'
      cases server with
      | none => exact hrest c h
      | some r => exact hrest _ (hserver hreturned r)

/-! ## 6. What is received is shown, line by line -/

/-- What was printed of the server's. -/
def responses (shown : List Shown) : List Bytes :=
  shown.filterMap fun
    | .response text => some text
    | .notice _ => none

@[simp] theorem responses_append (l m : List Shown) :
    responses (l ++ m) = responses l ++ responses m := List.filterMap_append

@[simp] theorem responses_map (texts : List Bytes) :
    responses (texts.map .response) = texts := by
  unfold responses
  rw [List.filterMap_map]
  exact List.filterMap_some

/-- What is printed of a line. -/
def printed (line : Bytes) : Bytes := cstr (stripReturn line)

/-- **The loop over what was received** prints the lines and stops at the rest. -/
theorem drainLoop_spec : ∀ (fuel line : Nat) (recvbuf : Bytes), recvbuf.length < line + fuel →
    ∃ lines tail, recvbuf.drop line = Framing.joined 10 lines ++ tail ∧ (∀ l ∈ lines, 10 ∉ l) ∧
      10 ∉ tail ∧ (drainLoop fuel line recvbuf).1 = lines.map printed ∧
      (drainLoop fuel line recvbuf).2.2.drop (drainLoop fuel line recvbuf).2.1 = tail
  | 0, line, recvbuf, h => by
    have hnil : recvbuf.drop line = [] := List.drop_eq_nil_of_le (by omega)
    exact ⟨[], [], hnil, by simp, by simp, rfl, hnil⟩
  | fuel + 1, line, recvbuf, h => by
    rw [drainLoop]
    split
    · rename_i hnone
      exact ⟨[], recvbuf.drop line, rfl, by simp, findNewline_none hnone, rfl, rfl⟩
    · rename_i newline hsome
      obtain ⟨hle, hlt, hline, hsplit⟩ := findNewline_some hsome (le_refl line) (by simp)
      obtain ⟨hlen, hrest⟩ := cutLine_rest recvbuf line newline
      obtain ⟨lines, tail, hdrop, hlines, htail, htexts, hend⟩ :=
        drainLoop_spec fuel (newline + 1) (cutLine recvbuf line newline).2 (by omega)
      refine ⟨(recvbuf.drop line).take (newline - line) :: lines, tail, ?_, ?_, htail, ?_, hend⟩
      · rw [Framing.joined_cons, List.append_assoc, List.cons_append, ← hdrop, hrest]
        exact hsplit
      · rintro l hl
        rcases List.mem_cons.mp hl with rfl | hl
        · exact hline
        · exact hlines l hl
      · dsimp only
        rw [htexts, cutLine_text hle hlt]
        rfl

/-- Taken for a message the client has not room for. -/
def overlong : Shown := .notice (lit "Server sent an over-long response")

/-- **What was received is lines, all printed, and the rest that waits**; the client gives up
only on a rest that fills the buffer. -/
structure Heard (c : Client) : Prop where
  lines : ∃ lines, c.received = Framing.joined 10 lines ++ c.recvbuf ∧ (∀ l ∈ lines, 10 ∉ l) ∧
    responses c.shown = lines.map printed
  unended : 10 ∉ c.recvbuf
  full : overlong ∈ c.shown → c.recvbuf.length = recvbufSize ∧ c.returned = true

/-- A step that receives nothing and prints at most a notice. -/
theorem Heard.notice {c c' : Client} (h : Heard c) (hbuf : c'.recvbuf = c.recvbuf)
    (hrec : c'.received = c.received) {new : List Shown} (hshown : c'.shown = c.shown ++ new)
    (hnew : ∀ s ∈ new, s ≠ overlong ∧ ∃ text, s = .notice text)
    (hret : c.returned = true → c'.returned = true) : Heard c' := by
  have hnone : responses new = [] := List.filterMap_eq_nil_iff.mpr fun s hs => by
    obtain ⟨-, text, rfl⟩ := hnew s hs
    rfl
  refine ⟨?_, hbuf ▸ h.unended, fun hmem => ?_⟩
  · rw [hrec, hbuf, hshown, responses_append, hnone, List.append_nil]
    exact h.lines
  · rw [hshown, List.mem_append] at hmem
    rw [hbuf]
    exact (h.full (hmem.resolve_right fun hs => (hnew _ hs).1 rfl)).imp_right hret

theorem Heard.quit {c : Client} (h : Heard c) {text : Bytes} (hne : .notice text ≠ overlong) :
    Heard (c.quit text) := by
  refine h.notice rfl rfl rfl (fun s hs => ?_) fun _ => rfl
  rw [List.mem_singleton.mp hs]
  exact ⟨hne, text, rfl⟩

/-- The bytes of one read: its lines are printed, and the rest of them is kept. -/
theorem Heard.receive {c : Client} (h : Heard c) (hroom : overlong ∉ c.shown) (got : Bytes) :
    Heard (drainResponses
      { c with recvbuf := c.recvbuf ++ got, received := c.received ++ got }) := by
  obtain ⟨lines, hreceived, hlines, hshown⟩ := h.lines
  obtain ⟨new, tail, hsplit, hnew, htail, htexts, hrest⟩ :=
    drainLoop_spec ((c.recvbuf ++ got).length + 1) 0 (c.recvbuf ++ got) (by omega)
  have hbuf : (drainResponses { c with recvbuf := c.recvbuf ++ got
                                       received := c.received ++ got }).recvbuf = tail := hrest
  refine ⟨⟨lines ++ new, ?_, ?_, ?_⟩, hbuf ▸ htail, fun hmem => ?_⟩
  · calc c.received ++ got
        = Framing.joined 10 lines ++ (c.recvbuf ++ got) := by rw [hreceived, List.append_assoc]
      _ = Framing.joined 10 (lines ++ new) ++ _ := by
        rw [hbuf, Framing.joined_append, List.append_assoc, ← hsplit, List.drop_zero]
  · rintro l hl
    exact (List.mem_append.mp hl).elim (hlines l) (hnew l)
  · unfold drainResponses
    dsimp only
    rw [htexts, responses_append, responses_map, hshown, List.map_append]
  · unfold drainResponses at hmem
    rcases List.mem_append.mp hmem with hmem | hmem
    · exact absurd hmem hroom
    · obtain ⟨text, -, heq⟩ := List.mem_map.mp hmem
      cases heq

theorem heard_readServer {c : Client} (h : Heard c) (hroom : overlong ∉ c.shown)
    (r : ReadResult) : Heard (readServer r c) := by
  cases r with
  | data bytes =>
    unfold readServer
    dsimp only
    split
    · exact h.quit (by decide)
    · have hheard := h.receive hroom (bytes.take (recvbufSize - c.recvbuf.length))
      split
      · rename_i hfull
        obtain ⟨lines, hreceived, hlines, hshown⟩ := hheard.lines
        refine ⟨⟨lines, hreceived, hlines, ?_⟩, hheard.unended, fun _ => ⟨hfull, rfl⟩⟩
        rw [Client.quit, responses_append, hshown]
        exact List.append_nil _
      · exact hheard
  | eintr => exact h.quit (by decide)
  | eagain => exact h.quit (by decide)
  | error => exact h.quit (by decide)

/-- The loop over what was typed changes only the flag, and what was sent. -/
theorem sendLoop_kept : ∀ (fuel line : Nat) (writes : List WriteResult) (c : Client),
    ∃ d out, (sendLoop fuel line writes c).1 = { c with discarding := d, sent := c.sent ++ out }
  | 0, _, _, c => ⟨c.discarding, [], by rw [List.append_nil]; rfl⟩
  | fuel + 1, line, writes, c => by
    rw [sendLoop]
    split
    · exact ⟨c.discarding, [], by rw [List.append_nil]⟩
    · rename_i newline hsome
      dsimp only
      split
      · exact sendLoop_kept fuel (newline + 1) writes { c with discarding := false }
      · split
        · generalize writeAll ((c.inbuf.drop line).take (newline - line + 1)) writes = r
          split
          · obtain ⟨d, out, heq⟩ :=
              sendLoop_kept fuel (newline + 1) r.writes { c with sent := c.sent ++ r.wrote }
            exact ⟨d, r.wrote ++ out, by rw [heq, List.append_assoc]⟩
          · exact ⟨c.discarding, r.wrote, rfl⟩
        · exact sendLoop_kept fuel (newline + 1) writes c

theorem heard_sendPendingCommands {c : Client} (h : Heard c) (writes : List WriteResult) :
    Heard (sendPendingCommands writes c).1 := by
  unfold sendPendingCommands
  obtain ⟨d, out, heq⟩ := sendLoop_kept (c.inbuf.length + 1) 0 writes c
  generalize sendLoop (c.inbuf.length + 1) 0 writes c = r at heq ⊢
  obtain ⟨c', stop⟩ := r
  dsimp only at heq
  subst heq
  cases stop with
  | none => exact h.notice rfl rfl (List.append_nil _).symm (by simp) id
  | some line =>
    dsimp only
    split
    · refine h.notice rfl rfl rfl (fun s hs => ?_) id
      rw [List.mem_singleton.mp hs]
      exact ⟨by decide, _, rfl⟩
    · exact h.notice rfl rfl (List.append_nil _).symm (by simp) id

/-- Reading the input receives nothing, and prints at most a notice. -/
theorem heard_readInput {c : Client} (h : Heard c) (r : ReadResult) (writes : List WriteResult) :
    Heard (readInput r writes c) := by
  cases r with
  | data bytes =>
    unfold readInput
    dsimp only
    split
    · exact h.notice rfl rfl (List.append_nil _).symm (by simp) id
    · have hgot : Heard { c with inbuf := c.inbuf ++ bytes.take (bufferSize - c.inbuf.length)
                                 typed := c.typed ++ bytes.take (bufferSize - c.inbuf.length) } :=
        h.notice rfl rfl (List.append_nil _).symm (by simp) id
      have hsent := heard_sendPendingCommands hgot writes
      split
      · exact hsent
      · exact hsent.quit (by decide)
  | eintr => exact h.quit (by decide)
  | eagain => exact h.quit (by decide)
  | error => exact h.quit (by decide)

theorem heard_turn {c : Client} (h : Heard c) (p : Poll) : Heard (turn c p) := by
  refine turn_keeps h (fun _ => h.quit (by decide)) (fun hreturned r => ?_) fun c' r h' =>
    heard_readInput h' r p.writes
  refine heard_readServer h (fun hmem => ?_) r
  rw [(h.full hmem).2] at hreturned
  cases hreturned

theorem heard_start : Heard start :=
  ⟨⟨[], rfl, by simp, rfl⟩, by simp [start], by simp [start]⟩

/-- **In every run of the client**, what it has received is what it has shown. -/
theorem heard_run (polls : List Poll) : Heard (Run.run turn start polls) := by
  have hstep : ∀ c p, Heard c → Heard (turn c p) := fun c p h => heard_turn h p
  exact Run.run_invariant hstep polls start heard_start

/-! ## 7. What is typed is sent, line by line -/

/-- No `write` fails; one may be interrupted, or take a part of what it is given. -/
def Succeed (writes : List WriteResult) : Prop := ∀ r ∈ writes, r ≠ .eagain ∧ r ≠ .error

instance (writes : List WriteResult) : Decidable (Succeed writes) := by
  unfold Succeed; infer_instance

theorem writeAll_succeeds : ∀ (writes : List WriteResult) (data : Bytes), Succeed writes →
    (writeAll data writes).wrote = data ∧ (writeAll data writes).ok = true ∧
      Succeed (writeAll data writes).writes
  | [], data, h => ⟨rfl, rfl, h⟩
  | r :: rs, data, h => by
    have hrs : Succeed rs := fun x hx => h x (List.mem_cons_of_mem _ hx)
    unfold writeAll
    split
    · rename_i hnil
      exact ⟨hnil.symm, rfl, h⟩
    · cases r with
      | eintr => exact writeAll_succeeds rs data hrs
      | eagain => exact absurd rfl (h _ List.mem_cons_self).1
      | error => exact absurd rfl (h _ List.mem_cons_self).2
      | took n =>
        obtain ⟨hwrote, hok, hrest⟩ :=
          writeAll_succeeds rs (data.drop (taken n data.length)) hrs
        refine ⟨?_, hok, hrest⟩
        dsimp only
        rw [hwrote, List.take_append_drop]

/-- The lines that are sent: those that are not empty and not too long. -/
def keptLines (frs : List (Framing.Frame Byte)) : List Bytes :=
  frs.filterMap fun
    | .line segment => if segment = [] then none else some segment
    | .overlong => none

@[simp] theorem keptLines_append (l m : List (Framing.Frame Byte)) :
    keptLines (l ++ m) = keptLines l ++ keptLines m := List.filterMap_append

/-- A line, and the bytes that `writeAll` is given for it. -/
theorem typed_line {inbuf : Bytes} {line newline : Nat}
    (h : findNewline inbuf line = some newline) :
    ∃ segment, line ≤ newline ∧ newline < inbuf.length ∧ 10 ∉ segment ∧
      segment.length = newline - line ∧
      (inbuf.drop line).take (newline - line + 1) = segment ++ [10] ∧
      inbuf.drop line = segment ++ 10 :: inbuf.drop (newline + 1) := by
  obtain ⟨hle, hlt, hline, hsplit⟩ := findNewline_some h (le_refl line) (by simp)
  have hlen : ((inbuf.drop line).take (newline - line)).length = newline - line := by
    rw [List.length_take, List.length_drop]
    omega
  refine ⟨(inbuf.drop line).take (newline - line), hle, hlt, hline, hlen, ?_, hsplit⟩
  generalize (inbuf.drop line).take (newline - line) = segment at hlen hsplit
  rw [hsplit, ← hlen, List.take_length_add_append]
  rfl

/-- **The loop over what was typed** sends the lines that are kept, and stops at the rest. -/
theorem sendLoop_spec : ∀ (fuel line : Nat) (writes : List WriteResult) (c : Client),
    c.inbuf.length < line + fuel → c.inbuf.length ≤ bufferSize → Succeed writes →
    ∃ frs d stop,
      sendLoop fuel line writes c
        = ({ c with discarding := d, sent := c.sent ++ Framing.joined 10 (keptLines frs) },
            some stop) ∧
      Framing.Continues 10 bufferSize c.discarding (c.inbuf.drop line) frs d
        (c.inbuf.drop stop) ∧
      10 ∉ c.inbuf.drop stop
  | 0, line, writes, c, h, _, _ => by
    have hnil : c.inbuf.drop line = [] := List.drop_eq_nil_of_le (by omega)
    exact ⟨[], c.discarding, line, by rw [sendLoop]; simp [keptLines, Framing.joined], .refl _ _,
      by simp [hnil]⟩
  | fuel + 1, line, writes, c, h, hlen, hw => by
    rw [sendLoop]
    split
    · rename_i hnone
      exact ⟨[], c.discarding, line, by simp [keptLines, Framing.joined], .refl _ _,
        findNewline_none hnone⟩
    · rename_i newline hsome
      obtain ⟨segment, hle, hlt, hline, hmany, htext, hsplit⟩ := typed_line hsome
      dsimp only
      rw [htext, hsplit]
      split
      · rename_i hdiscarding
        obtain ⟨frs, d, stop, heq, hcont, htail⟩ := sendLoop_spec fuel (newline + 1) writes
          { c with discarding := false } (by dsimp only; omega) hlen hw
        refine ⟨frs, d, stop, heq, ?_, htail⟩
        rw [hdiscarding]
        exact (Framing.continues_resync hline _).trans hcont
      · rename_i hkeeping
        rw [Bool.not_eq_true] at hkeeping
        have hcut : Framing.Continues 10 bufferSize c.discarding
            (segment ++ 10 :: c.inbuf.drop (newline + 1)) [.line segment] c.discarding
            (c.inbuf.drop (newline + 1)) := by
          rw [hkeeping]
          exact Framing.continues_line hline (by omega) _
        split
        · -- the line goes out with its newline
          rename_i hmore
          have hne : segment ≠ [] := List.ne_nil_of_length_pos (by omega)
          obtain ⟨hwrote, hok, hrest⟩ := writeAll_succeeds writes (segment ++ [10]) hw
          rw [if_pos hok, hwrote]
          obtain ⟨frs, d, stop, heq, hcont, htail⟩ := sendLoop_spec fuel (newline + 1)
            (writeAll (segment ++ [10]) writes).writes
            { c with sent := c.sent ++ (segment ++ [10]) } (by dsimp only; omega) hlen hrest
          refine ⟨_, d, stop, ?_, hcut.trans hcont, htail⟩
          have hkept : Framing.joined 10 (keptLines [.line segment]) = segment ++ [10] := by
            simp [keptLines, hne, Framing.joined]
          rw [heq, keptLines_append, Framing.joined_append, hkept]
          dsimp only
          rw [List.append_assoc c.sent]
        · -- an empty line stays here
          rename_i hempty
          have hnil : segment = [] := List.length_eq_zero_iff.mp (by omega)
          obtain ⟨frs, d, stop, heq, hcont, htail⟩ :=
            sendLoop_spec fuel (newline + 1) writes c (by omega) hlen hw
          refine ⟨_, d, stop, ?_, hcut.trans hcont, htail⟩
          rw [heq, hnil]
          rfl

/-- **What was typed is lines, all dealt with, and the rest that waits**, or the knowledge that
the rest of a line is dropped. -/
def Typed (c : Client) : Prop :=
  10 ∉ c.inbuf ∧ c.inbuf.length < bufferSize ∧ ∃ frs,
    Framing.run 10 bufferSize Framing.start c.typed = (Framing.held c.discarding c.inbuf, frs) ∧
      c.sent = Framing.joined 10 (keptLines frs)

theorem typed_sendPendingCommands {c : Client} {got : Bytes} (h : Typed c)
    (hgot : got.length ≤ bufferSize - c.inbuf.length) {writes : List WriteResult}
    (hw : Succeed writes) :
    (sendPendingCommands writes
      { c with inbuf := c.inbuf ++ got, typed := c.typed ++ got }).2 = true ∧
    Typed (sendPendingCommands writes
      { c with inbuf := c.inbuf ++ got, typed := c.typed ++ got }).1 := by
  obtain ⟨hline, hlen, frs, hrun, hsent⟩ := h
  have hroom : (c.inbuf ++ got).length ≤ bufferSize := by
    rw [List.length_append]
    omega
  obtain ⟨new, d, stop, heq, hcont, htail⟩ := sendLoop_spec ((c.inbuf ++ got).length + 1) 0 writes
    { c with inbuf := c.inbuf ++ got, typed := c.typed ++ got } (by dsimp only; omega) hroom hw
  rw [List.drop_zero] at hcont
  dsimp only at hcont htail
  have htyped : Framing.run 10 bufferSize Framing.start (c.typed ++ got)
      = ((Framing.run 10 bufferSize (Framing.resume d) ((c.inbuf ++ got).drop stop)).1,
          frs ++ (new ++
            (Framing.run 10 bufferSize (Framing.resume d) ((c.inbuf ++ got).drop stop)).2)) := by
    rw [Framing.run_append, hrun]
    dsimp only
    rw [Framing.run_held hline hlen, hcont]
  rw [Framing.run_tail htail (by decide)] at htyped
  unfold sendPendingCommands
  rw [heq]
  dsimp only
  have hle : ((c.inbuf ++ got).drop stop).length ≤ bufferSize := by
    rw [List.length_drop]
    omega
  split
  · rename_i hfull
    rw [if_pos (le_of_eq hfull.symm)] at htyped
    refine ⟨rfl, by simp, Nat.zero_lt_succ _, _, htyped, ?_⟩
    have hnone : keptLines (if d then [] else [.overlong]) = [] := by
      split <;> rfl
    rw [keptLines_append, keptLines_append, hnone, List.append_nil, Framing.joined_append, ← hsent]
  · rename_i hshort
    have hfit := lt_of_le_of_ne hle hshort
    rw [if_neg (Nat.not_le.mpr hfit)] at htyped
    refine ⟨rfl, htail, hfit, _, htyped, ?_⟩
    rw [List.append_nil, keptLines_append, Framing.joined_append, ← hsent]

/-- A step that neither reads the input nor sends. -/
theorem Typed.still {c c' : Client} (h : Typed c) (hbuf : c'.inbuf = c.inbuf)
    (hflag : c'.discarding = c.discarding) (htyped : c'.typed = c.typed)
    (hsent : c'.sent = c.sent) : Typed c' := by
  unfold Typed
  rw [hbuf, hflag, htyped, hsent]
  exact h

theorem typed_readServer {c : Client} (h : Typed c) (r : ReadResult) : Typed (readServer r c) := by
  cases r with
  | data bytes =>
    unfold readServer
    dsimp only
    split
    · exact h.still rfl rfl rfl rfl
    · split <;> exact h.still rfl rfl rfl rfl
  | eintr => exact h.still rfl rfl rfl rfl
  | eagain => exact h.still rfl rfl rfl rfl
  | error => exact h.still rfl rfl rfl rfl

theorem typed_readInput {c : Client} (h : Typed c) (r : ReadResult) {writes : List WriteResult}
    (hw : Succeed writes) : Typed (readInput r writes c) := by
  cases r with
  | data bytes =>
    unfold readInput
    dsimp only
    split
    · exact h.still rfl rfl rfl rfl
    · obtain ⟨hok, hsent⟩ := typed_sendPendingCommands h
        (List.length_take_le (bufferSize - c.inbuf.length) bytes) hw
      rw [if_pos hok]
      exact hsent
  | eintr => exact h.still rfl rfl rfl rfl
  | eagain => exact h.still rfl rfl rfl rfl
  | error => exact h.still rfl rfl rfl rfl

/-- A step that may not fail to write. -/
theorem typed_turn {c : Client} (h : Typed c) {p : Poll} (hp : Succeed p.writes) :
    Typed (turn c p) :=
  turn_keeps h (fun _ => h.still rfl rfl rfl rfl) (fun _ r => typed_readServer h r)
    fun _ r h' => typed_readInput h' r hp

theorem typed_start : Typed start := ⟨by simp [start], Nat.zero_lt_succ _, [], rfl, rfl⟩

/-- **In every run of the client whose writes do not fail**, what was sent is the lines that are
kept of what was typed. -/
theorem typed_run : ∀ (polls : List Poll) {c : Client}, (∀ p ∈ polls, Succeed p.writes) →
    Typed c → Typed (Run.run turn c polls)
  | [], _, _, h => h
  | p :: polls, _, hp, h =>
    typed_run polls (fun q hq => hp q (List.mem_cons_of_mem _ hq))
      (typed_turn h (hp p List.mem_cons_self))

/-- What was sent are lines, none of them empty and none of 1024 bytes. -/
theorem Typed.lines {c : Client} (h : Typed c) :
    c.sent = Framing.joined 10 (keptLines (Framing.frames 10 bufferSize c.typed)) := by
  obtain ⟨-, -, frs, hrun, hsent⟩ := h
  rw [← Framing.run_start (by decide), hrun]
  exact hsent

end Client

end SocketExchange
