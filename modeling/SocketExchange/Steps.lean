/-
# The server as steps of its clients

An event of the main loop can be many things at once: a readable socket is several reads, each
with any number of lines.  `Act` takes them apart into accepts, reads, single lines, over-long
lines, flushes and removals, with the kernel's answers supplied in between, in any order and
for any clients.  `server_steps` says that every run of the main loop is a run of these acts,
so what holds in every state that acts can reach holds of the server.
-/
import SocketExchange.Server
import SocketExchange.Deliveries

namespace SocketExchange

open CText

/-! ## 1. Acts -/

/-- What can happen on a connection. -/
inductive ClientAct
  /-- an event is noted -/
  | applied
  /-- bytes are read -/
  | received (got : Bytes)
  /-- the buffer's fields change: lines are cut and bytes are moved -/
  | buffered (f : ClientConnection → ClientConnection)
  /-- a line is handled, and the client removed if that says so -/
  | command (line : Bytes)
  /-- a line is too long -/
  | overlong
  | flush
  /-- the end of the stream, an error, or the end of the server -/
  | drop

inductive Act
  | supply (sock : Nat → SockEnv) (heap : List Bool)
  | accept (clientFd : Nat) (grown calloced armed : Bool)
  | client (clientFd : Nat) (a : ClientAct)

/-- An act on the connection `c` in slot `clientFd`. -/
def serve (clientFd : Nat) (c : ClientConnection) (w : World) : ClientAct → World
  | .applied => w.note (.applied c.serial clientFd)
  | .received got =>
    (w.note (.read c.serial (inbufSize - c.inlen) got)).modify clientFd fun c =>
      { c with inbuf := c.inbuf ++ got }
  | .buffered f =>
    w.modify clientFd fun c =>
      { c with inbuf := (f c).inbuf, scanned := (f c).scanned, discarding := (f c).discarding }
  | .command line => removeIfDone clientFd (processLine line clientFd w)
  | .overlong => removeIfDone clientFd (rejectLine clientFd w)
  | .flush => removeIfDone clientFd (flushClient clientFd w)
  | .drop => removeClient clientFd w

def act (w : World) : Act → World
  | .supply sock heap => { w with sock := sock, heap := heap }
  | .accept clientFd grown calloced armed =>
    if clientFd ∈ w.opened then w else acceptClient clientFd grown calloced armed w
  | .client clientFd a =>
    match w.slot clientFd with
    | none => w
    | some c => serve clientFd c w a

/-- The states acts reach from the start of the server. -/
def Reachable (w : World) : Prop :=
  ∃ serverFd others as, w = Run.run act (.init serverFd others) as

/-- One world comes to another by acts of a kind. -/
def Steps (P : Act → Prop) (w w' : World) : Prop := ∃ as, (∀ a ∈ as, P a) ∧ Run.run act w as = w'

/-- Any act. -/
def Any : Act → Prop := fun _ => True

/-- An act on this connection, other than the note of an event. -/
def OfClient (fd : Nat) : Act → Prop
  | .client _ .applied => False
  | .client n _ => n = fd
  | _ => False

namespace Steps

variable {P Q : Act → Prop}

theorem refl (w : World) : Steps P w w := ⟨[], by simp, rfl⟩

theorem trans {a b c : World} (h : Steps P a b) (h' : Steps P b c) : Steps P a c := by
  obtain ⟨as, ha, rfl⟩ := h
  obtain ⟨bs, hb, rfl⟩ := h'
  refine ⟨as ++ bs, fun x hx => ?_, Run.run_append act a as bs⟩
  exact (List.mem_append.mp hx).elim (ha x) (hb x)

theorem one (w : World) (a : Act) (h : P a) : Steps P w (act w a) :=
  ⟨[a], by simpa using h, rfl⟩

theorem mono (hPQ : ∀ a, P a → Q a) {w w' : World} (h : Steps P w w') : Steps Q w w' := by
  obtain ⟨as, ha, rfl⟩ := h
  exact ⟨as, fun a h => hPQ a (ha a h), rfl⟩

/-- An act on a filled slot. -/
theorem client {w : World} {fd : Nat} {c : ClientConnection} (hc : w.slot fd = some c)
    (a : ClientAct) (h : P (.client fd a)) : Steps P w (serve fd c w a) := by
  have h := one w (.client fd a) h
  simp only [act, hc] at h
  exact h

/-- What every act of the kind respects, they respect together. -/
theorem related {R : World → World → Prop} (hrefl : ∀ w, R w w)
    (htrans : ∀ {a b c}, R a b → R b c → R a c) (hstep : ∀ w a, P a → R w (act w a))
    {w w' : World} (h : Steps P w w') : R w w' := by
  obtain ⟨as, ha, rfl⟩ := h
  exact Run.run_invariant_of_mem (I := R w) (fun v a h ha => htrans h (hstep v a ha)) as w ha
    (hrefl w)

end Steps

theorem Reachable.steps {P : Act → Prop} {w w' : World} (hw : Reachable w) (h : Steps P w w') :
    Reachable w' := by
  obtain ⟨serverFd, others, as, rfl⟩ := hw
  obtain ⟨bs, -, rfl⟩ := h
  exact ⟨serverFd, others, as ++ bs, (Run.run_append act _ as bs).symm⟩

/-- **What holds at the start and is kept by every act holds in every reachable state.** -/
theorem Reachable.invariant {I : World → Prop}
    (hinit : ∀ serverFd others, I (.init serverFd others))
    (hstep : ∀ w a, I w → I (act w a)) {w : World} (hw : Reachable w) : I w := by
  obtain ⟨serverFd, others, as, rfl⟩ := hw
  exact Run.run_invariant hstep as _ (hinit serverFd others)

/-! ## 2. A call of `communicate`, step by step

`Reading` lists the steps of the read loop in the order in which they are taken, each with what
the loop has checked before it, and `readEnd` says which of its ways out it takes. -/

/-- How the loop over the reads ends. -/
inductive ReadEnd
  /-- `EAGAIN` -/
  | blocked
  /-- `read` returned 0 -/
  | fin
  /-- `read` failed -/
  | failed
  /-- a line, or the reply to one that is too long, has ended it -/
  | answered
  deriving DecidableEq, Repr

/-- The way out in a turn that returns. -/
def turnEnd (clientFd : Nat) (r : ReadResult) (w : World) : ReadEnd :=
  match r with
  | .eintr | .eagain => .blocked
  | .error => .failed
  | .data bytes => if bytes.take (inbufSize - (w.conn clientFd).inlen) = [] then .fin else .answered

/-- The way out that `readLoop` takes. -/
def readEnd (clientFd : Nat) : List ReadResult → World → ReadEnd
  | [], _ => .blocked
  | r :: rs, w =>
    match (readTurn clientFd r w).2 with
    | none => readEnd clientFd rs (readTurn clientFd r w).1
    | some _ => turnEnd clientFd r w

/-- Reads, and moves in the buffer. -/
def ClientAct.isInput : ClientAct → Bool
  | .received _ | .buffered _ => true
  | _ => false

/-- **The steps of the read loop.**  Whatever it takes in or handles, it does so while the
connection is not closing; a line or a reply that ends it is its last step. -/
inductive Reading (fd : Nat) : World → ReadEnd → World × Bool → Prop
  | blocked (w : World) : Reading fd w .blocked (w, false)
  | fin (w : World) : Reading fd w .fin (w, true)
  | failed (w : World) : Reading fd w .failed (w, true)
  | input {w : World} {c : ClientConnection} {a : ClientAct} {e : ReadEnd} {r : World × Bool}
      (hc : w.slot fd = some c) (hopen : c.closing = false) (ha : a.isInput = true)
      (h : Reading fd (serve fd c w a) e r) : Reading fd w e r
  | line {w : World} {c : ClientConnection} {text : Bytes} {e : ReadEnd} {r : World × Bool}
      (hc : w.slot fd = some c) (hopen : c.closing = false)
      (hstay : (processLine text fd w).2 = false)
      (hstill : ((processLine text fd w).1.conn fd).closing = false)
      (h : Reading fd (processLine text fd w).1 e r) : Reading fd w e r
  | last {w : World} {c : ClientConnection} (text : Bytes) (hc : w.slot fd = some c)
      (hopen : c.closing = false)
      (hend : (processLine text fd w).2 = true ∨
        ((processLine text fd w).1.conn fd).closing = true) :
      Reading fd w .answered (processLine text fd w)
  | overlong {w : World} {c : ClientConnection} {e : ReadEnd} {r : World × Bool}
      (hc : w.slot fd = some c) (hopen : c.closing = false) (hstay : (rejectLine fd w).2 = false)
      (h : Reading fd (rejectLine fd w).1 e r) : Reading fd w e r
  | refused {w : World} {c : ClientConnection} (hc : w.slot fd = some c)
      (hopen : c.closing = false) (hfail : (rejectLine fd w).2 = true) :
      Reading fd w .answered (rejectLine fd w)

section Loops

variable (fd : Nat)

/-- The connection is still there after a line. -/
theorem processLine_slot {w : World} {c : ClientConnection} (hc : w.slot fd = some c)
    (line : Bytes) : ∃ c', (processLine line fd w).1.slot fd = some c' ∧ c'.fixed = c.fixed :=
  slot_of_tenants (processLine_kept line fd w).tenants hc

/-- So it is after the reply to a line that is too long, and not closing if it was not. -/
theorem rejectLine_slot {w : World} {c : ClientConnection} (hc : w.slot fd = some c) :
    ∃ c', (rejectLine fd w).1.slot fd = some c' ∧ c'.bare = c.bare :=
  slot_of_view (v := .bare) (reply_roster _ _ _) (w := w.note _) hc

/-- The loop over the lines: it returns, or it ends with the connection still there and the
read loop goes on from that. -/
theorem lineLoop_reading : ∀ (fuel consumed search : Nat) (w : World) (c : ClientConnection),
    w.slot fd = some c → c.closing = false →
    (∃ done, (lineLoop fd fuel consumed search w).2 = .returned done ∧
        Reading fd w .answered ((lineLoop fd fuel consumed search w).1, done)) ∨
      ∃ k c', (lineLoop fd fuel consumed search w).2 = .finished k ∧
        (lineLoop fd fuel consumed search w).1.slot fd = some c' ∧ c'.closing = false ∧
        ∀ e r, Reading fd (lineLoop fd fuel consumed search w).1 e r → Reading fd w e r
  | 0, consumed, _, w, c, hc, hopen => .inr ⟨consumed, c, rfl, hc, hopen, fun _ _ h => h⟩
  | fuel + 1, consumed, search, w, c, hc, hopen => by
    rw [lineLoop]
    split
    · exact .inr ⟨consumed, c, rfl, hc, hopen, fun _ _ h => h⟩
    · rename_i newline _
      split
      · have h1 : ∀ e r, Reading fd (w.modify fd fun c => { c with discarding := false }) e r →
            Reading fd w e r := fun e r h =>
          .input (a := .buffered fun c => { c with discarding := false }) hc hopen rfl h
        have hs := modify_slot fd hc fun c => { c with discarding := false }
        rcases lineLoop_reading fuel (newline + 1) (newline + 1) _ _ hs hopen with
          ⟨d, hd, h⟩ | ⟨k, c', hk, hc', hopen', h⟩
        · exact .inl ⟨d, hd, h1 _ _ h⟩
        · exact .inr ⟨k, c', hk, hc', hopen', fun e r hr => h1 e r (h e r hr)⟩
      · dsimp only
        generalize cutLine (w.conn fd).inbuf consumed newline = cut
        have h1 : ∀ e r, Reading fd (w.modify fd fun c => { c with inbuf := cut.2 }) e r →
            Reading fd w e r := fun e r h =>
          .input (a := .buffered fun c => { c with inbuf := cut.2 }) hc hopen rfl h
        have hs := modify_slot fd hc fun c => { c with inbuf := cut.2 }
        have hopen1 : ({ c with inbuf := cut.2 } : ClientConnection).closing = false := hopen
        generalize (w.modify fd fun c => { c with inbuf := cut.2 }) = w1 at h1 hs
        obtain ⟨c1, hc1, -⟩ := processLine_slot fd hs cut.1
        have hlast := fun hend => h1 _ _ (Reading.last cut.1 hs hopen1 hend)
        by_cases hdone : (processLine cut.1 fd w1).2 = true
        · rw [if_pos hdone]
          have hpair : processLine cut.1 fd w1 = ((processLine cut.1 fd w1).1, true) :=
            Prod.ext rfl hdone
          exact .inl ⟨true, rfl, hpair ▸ hlast (.inl hdone)⟩
        · rw [if_neg hdone]
          have hstay : (processLine cut.1 fd w1).2 = false := by simpa using hdone
          by_cases hclosing : ((processLine cut.1 fd w1).1.conn fd).closing = true
          · rw [if_pos hclosing]
            have hpair : processLine cut.1 fd w1 = ((processLine cut.1 fd w1).1, false) :=
              Prod.ext rfl hstay
            exact .inl ⟨false, rfl, hpair ▸ hlast (.inr hclosing)⟩
          · rw [if_neg hclosing]
            have hstill : ((processLine cut.1 fd w1).1.conn fd).closing = false := by
              simpa using hclosing
            have h2 : ∀ e r, Reading fd (processLine cut.1 fd w1).1 e r → Reading fd w e r :=
              fun e r h => h1 e r (.line hs hopen1 hstay hstill h)
            rcases lineLoop_reading fuel (newline + 1) (newline + 1) _ _ hc1
              (conn_of_slot hc1 ▸ hstill) with ⟨d, hd, h⟩ | ⟨k, c', hk, hc', hopen', h⟩
            · exact .inl ⟨d, hd, h2 _ _ h⟩
            · exact .inr ⟨k, c', hk, hc', hopen', fun e r hr => h2 e r (h e r hr)⟩

theorem compact_reading (consumed : Nat) {w : World} {c : ClientConnection}
    (hc : w.slot fd = some c) (hopen : c.closing = false) :
    ((compact fd consumed w).2 = true →
        Reading fd w .answered ((compact fd consumed w).1, true)) ∧
      ((compact fd consumed w).2 = false →
        ∃ c', (compact fd consumed w).1.slot fd = some c' ∧ c'.closing = false ∧
          ∀ e r, Reading fd (compact fd consumed w).1 e r → Reading fd w e r) := by
  have h1 : ∀ e r, Reading fd (w.modify fd (shiftInput consumed)) e r → Reading fd w e r :=
    fun e r h => .input (a := .buffered (shiftInput consumed)) hc hopen rfl h
  have hs := modify_slot fd hc (shiftInput consumed)
  have hopen1 : (shiftInput consumed c).closing = false := hopen
  unfold compact
  generalize w.modify fd (shiftInput consumed) = w1 at h1 hs
  dsimp only
  split
  · split
    · refine ⟨fun h => by (cases h), fun _ => ⟨_, modify_slot fd hs _, hopen1, fun e r h => ?_⟩⟩
      exact h1 e r (.input (a := .buffered fun c => { c with inbuf := [], scanned := 0 }) hs hopen1
        rfl h)
    · obtain ⟨c1, hc1, hbare⟩ := rejectLine_slot fd hs
      have hopen2 : c1.closing = false :=
        (congrArg ClientConnection.closing hbare : c1.bare.closing = _).trans hopen1
      split
      · rename_i hdone
        have hpair : rejectLine fd w1 = ((rejectLine fd w1).1, true) := Prod.ext rfl hdone
        exact ⟨fun _ => h1 _ _ (hpair ▸ .refused hs hopen1 hdone), fun h => by (cases h)⟩
      · rename_i hdone
        have hstay : (rejectLine fd w1).2 = false := by simpa using hdone
        refine ⟨fun h => by (cases h), fun _ => ⟨_, modify_slot fd hc1 _, hopen2, fun e r h => ?_⟩⟩
        exact h1 e r (.overlong hs hopen1 hstay (.input
          (a := .buffered fun c => { c with discarding := true, inbuf := [], scanned := 0 }) hc1
          hopen2 rfl h))
  · exact ⟨fun h => by (cases h), fun _ => ⟨_, hs, hopen1, h1⟩⟩

/-- A call of `read` that brings nothing. -/
theorem noteRead_reading {w : World} {c : ClientConnection} (hc : w.slot fd = some c)
    (hopen : c.closing = false) {e : ReadEnd} {r : World × Bool}
    (h : Reading fd (noteRead fd [] w) e r) : Reading fd w e r := by
  have hsame : serve fd c w (.received []) = noteRead fd [] w := by
    unfold serve noteRead
    rw [conn_of_slot hc]
    simp only [List.append_nil]
    exact modify_id fd _
  exact .input (a := .received []) hc hopen rfl (hsame ▸ h)

/-- **One turn of the read loop**: it returns, or the connection is still there and the loop goes
on from that. -/
theorem readTurn_reading (r : ReadResult) {w : World} {c : ClientConnection}
    (hc : w.slot fd = some c) (hopen : c.closing = false) :
    (∃ done, (readTurn fd r w).2 = some done ∧
        Reading fd w (turnEnd fd r w) ((readTurn fd r w).1, done)) ∨
      ((readTurn fd r w).2 = none ∧
        ∃ c', (readTurn fd r w).1.slot fd = some c' ∧ c'.closing = false ∧
          ∀ e s, Reading fd (readTurn fd r w).1 e s → Reading fd w e s) := by
  cases r with
  | eintr => exact .inr ⟨rfl, c, hc, hopen, fun _ _ => noteRead_reading fd hc hopen⟩
  | eagain => exact .inl ⟨false, rfl, noteRead_reading fd hc hopen (.blocked _)⟩
  | error => exact .inl ⟨true, rfl, noteRead_reading fd hc hopen (.failed _)⟩
  | data bytes =>
    rw [readTurn, turnEnd]
    dsimp only
    split
    · rename_i hgot
      rw [hgot]
      exact .inl ⟨true, rfl, noteRead_reading fd hc hopen (.fin _)⟩
    · unfold noteRead
      rw [conn_of_slot hc]
      have h1 := fun e r h => Reading.input (e := e) (r := r)
        (a := .received (bytes.take (inbufSize - c.inlen))) hc hopen rfl h
      have hs := modify_slot fd
        (show (w.note (.read c.serial (inbufSize - c.inlen)
          (bytes.take (inbufSize - c.inlen)))).slot fd = some c from hc)
        fun c' => { c' with inbuf := c'.inbuf ++ bytes.take (inbufSize - c.inlen) }
      generalize ((World.modify _ fd _).conn fd).scanned = search
      have hlines := lineLoop_reading fd (inbufSize + 1) 0 search _ _ hs hopen
      generalize lineLoop fd (inbufSize + 1) 0 _ _ = lines at hlines ⊢
      rcases hlines with ⟨d, hd, h⟩ | ⟨k, c', hk, hc', hopen', h⟩
      · rw [hd]
        exact .inl ⟨d, rfl, h1 _ _ h⟩
      · rw [hk]
        obtain ⟨hends, hgoes⟩ := compact_reading fd k hc' hopen'
        dsimp only
        by_cases hdone : (compact fd k lines.1).2 = true
        · rw [if_pos hdone]
          exact .inl ⟨true, rfl, h1 _ _ (h _ _ (hends hdone))⟩
        · rw [if_neg hdone]
          obtain ⟨c2, hc2, hopen2, hrest⟩ := hgoes (by simpa using hdone)
          exact .inr ⟨rfl, c2, hc2, hopen2, fun e s hs => h1 e s (h e s (hrest e s hs))⟩

/-- **The read loop takes these steps.** -/
theorem readLoop_reading : ∀ (rs : List ReadResult) (w : World) (c : ClientConnection),
    w.slot fd = some c → c.closing = false →
    Reading fd w (readEnd fd rs w) (readLoop fd rs w)
  | [], _, _, hc, hopen => noteRead_reading fd hc hopen (.blocked _)
  | r :: rs, w, c, hc, hopen => by
    rw [readLoop, readEnd]
    rcases readTurn_reading fd r hc hopen with ⟨done, hdone, h⟩ | ⟨hgo, c', hc', hopen', hrest⟩
    · rw [hdone]
      exact h
    · rw [hgo]
      exact hrest _ _ (readLoop_reading rs _ c' hc' hopen')

/-- How the loop over the reads ends, with what its steps before the last have kept. -/
inductive Finish (I : World → Prop) : ReadEnd → World × Bool → Prop
  | blocked {v : World} (hv : I v) : Finish I .blocked (v, false)
  | fin {v : World} (hv : I v) : Finish I .fin (v, true)
  | failed {v : World} (hv : I v) : Finish I .failed (v, true)
  | last {v : World} {c : ClientConnection} (hv : I v) (text : Bytes) (hc : v.slot fd = some c)
      (hend : (processLine text fd v).2 = true ∨
        ((processLine text fd v).1.conn fd).closing = true) :
      Finish I .answered (processLine text fd v)
  | refused {v : World} {c : ClientConnection} (hv : I v) (hc : v.slot fd = some c)
      (hfail : (rejectLine fd v).2 = true) : Finish I .answered (rejectLine fd v)

/-- **What reads, lines and replies keep is there when the loop ends**, or in front of the line
or the reply that ends it. -/
theorem Reading.finish {I : World → Prop}
    (hinput : ∀ v c a, v.slot fd = some c → a.isInput = true → I v → I (serve fd c v a))
    (hline : ∀ v c text, v.slot fd = some c → (processLine text fd v).2 = false →
      ((processLine text fd v).1.conn fd).closing = false → I v → I (processLine text fd v).1)
    (hover : ∀ v c, v.slot fd = some c → (rejectLine fd v).2 = false → I v →
      I (rejectLine fd v).1)
    {w : World} {e : ReadEnd} {r : World × Bool} (h : Reading fd w e r) (hw : I w) :
    Finish fd I e r := by
  induction h with
  | blocked w => exact .blocked hw
  | fin w => exact .fin hw
  | failed w => exact .failed hw
  | input hc hopen ha _ ih => exact ih (hinput _ _ _ hc ha hw)
  | line hc hopen hstay hstill _ ih => exact ih (hline _ _ _ hc hstay hstill hw)
  | last text hc hopen hend => exact .last hw text hc hend
  | overlong hc hopen hstay _ ih => exact ih (hover _ _ hc hstay hw)
  | refused hc hopen hfail => exact .refused hw hc hfail

end Loops

/-! ## 3. The main loop takes these steps -/

/-- Taking input leaves the slot filled. -/
theorem serve_input_slot {w : World} {fd : Nat} {c : ClientConnection} (hc : w.slot fd = some c)
    {a : ClientAct} (ha : a.isInput = true) : ∃ d, (serve fd c w a).slot fd = some d := by
  cases a with
  | received got => exact ⟨_, modify_slot fd (w := w.note _) hc _⟩
  | buffered f => exact ⟨_, modify_slot fd hc _⟩
  | _ => cases ha

/-- The read loop is acts of its client. -/
theorem Reading.steps {fd : Nat} {w : World} {e : ReadEnd} {r : World × Bool}
    (h : Reading fd w e r) {c : ClientConnection} (hc : w.slot fd = some c) :
    Steps (OfClient fd) w (removeIfDone fd r) := by
  induction h generalizing c with
  | blocked w => exact .refl w
  | fin w => exact .client hc .drop rfl
  | failed w => exact .client hc .drop rfl
  | @input w c' a e r hc' hopen ha _ ih =>
    have hact : OfClient fd (.client fd a) := by cases a <;> first | rfl | cases ha
    obtain ⟨d, hd⟩ := serve_input_slot hc' ha
    exact (Steps.client hc' a hact).trans (ih hd)
  | @line w c' text e r hc' hopen hstay hstill _ ih =>
    obtain ⟨d, hd, -⟩ := processLine_slot fd hc' text
    have h1 := Steps.client (P := OfClient fd) hc' (.command text) rfl
    simp only [serve, removeIfDone, hstay, Bool.false_eq_true, if_false] at h1
    exact h1.trans (ih hd)
  | last text hc' hopen hend => exact .client hc' (.command text) rfl
  | @overlong w c' e r hc' hopen hstay _ ih =>
    obtain ⟨d, hd, -⟩ := rejectLine_slot fd hc'
    have h1 := Steps.client (P := OfClient fd) hc' .overlong rfl
    simp only [serve, removeIfDone, hstay, Bool.false_eq_true, if_false] at h1
    exact h1.trans (ih hd)
  | refused hc' hopen hfail => exact .client hc' .overlong rfl

theorem communicate_steps (fd : Nat) (reads : List ReadResult) {w : World} {c : ClientConnection}
    (hc : w.slot fd = some c) :
    Steps (OfClient fd) w (removeIfDone fd (communicate fd reads w)) := by
  unfold communicate
  split
  · exact .refl w
  · rename_i hopen
    rw [conn_of_slot hc] at hopen
    exact (readLoop_reading fd reads w c hc (by simpa using hopen)).steps hc

/-- Behind the note of the event, an event is acts of its client. -/
theorem serveEvent_steps (ev : Kevent) (reads : List ReadResult) {w : World}
    {c : ClientConnection} (hc : w.slot ev.ident = some c) :
    Steps (OfClient ev.ident) w (removeIfDone ev.ident (serveEvent ev reads w)) := by
  unfold serveEvent
  split
  · exact .client hc .drop rfl
  · split
    · exact .client hc .flush rfl
    · exact communicate_steps ev.ident reads hc

theorem handleClientEvent_steps (ev : Kevent) (reads : List ReadResult) (w : World) :
    Steps Any w (handleClientEvent ev reads w) := by
  unfold handleClientEvent
  split
  · exact .refl w
  · rename_i c hc
    have h1 := Steps.client (P := Any) hc .applied trivial
    have hs : (w.note (.applied c.serial ev.ident)).slot ev.ident = some c := hc
    exact h1.trans ((serveEvent_steps ev reads hs).mono fun _ _ => trivial)

theorem acceptClients_steps : ∀ (rs : List AcceptResult) (w : World),
    Steps Any w (acceptClients rs w)
  | [], w => .refl w
  | .drained :: _, w => .refl w
  | .interrupted :: rs, w => acceptClients_steps rs w
  | .connection fd grown calloced armed :: rs, w => by
    have h1 := Steps.one (P := Any) w (.accept fd grown calloced armed) trivial
    rw [act] at h1
    rw [acceptClients]
    split
    · exact acceptClients_steps rs w
    · rename_i h
      rw [if_neg h] at h1
      exact h1.trans (acceptClients_steps rs _)

theorem dispatch_steps (w : World) (o : Occurrence) : Steps Any w (dispatch w o) := by
  have h1 := Steps.one (P := Any) w (.supply o.sock o.heap) trivial
  refine h1.trans ?_
  unfold dispatch
  dsimp only
  split
  · exact acceptClients_steps _ _
  · exact handleClientEvent_steps _ _ _

/-- **Every run of the main loop is a run of acts.** -/
theorem server_steps (os : List Occurrence) (w : World) : Steps Any w (Run.run dispatch w os) :=
  Run.run_related Steps.refl Steps.trans dispatch_steps os w

theorem reachable_dispatch {w : World} (hw : Reachable w) (o : Occurrence) :
    Reachable (dispatch w o) := hw.steps (dispatch_steps w o)

theorem reachable_run (serverFd : Nat) (others : List Nat) (os : List Occurrence) :
    Reachable (Run.run dispatch (.init serverFd others) os) :=
  Reachable.steps ⟨serverFd, others, [], rfl⟩ (server_steps os _)

/-- So is the tear-down at the end. -/
theorem shutdown_steps (w : World) : Steps Any w (shutdown w) := by
  refine Run.run_related Steps.refl Steps.trans (fun w i => ?_) (List.range w.currCap) w
  split
  · exact .refl w
  · rename_i hi
    obtain ⟨c, hc⟩ := Option.ne_none_iff_exists'.mp hi
    exact .client hc .drop trivial

/-! ## 4. The exchange of the server

Acts change the exchange by its operations only, so what holds after any operations holds of
the server's book and log. -/

/-- The quantity and the price are values of `int`, as `sscanf` stores them. -/
def Op.InRange : Op → Prop
  | .order _ _ quantity price _ _ _ => quantity < 2 ^ 31 ∧ price < 2 ^ 31
  | _ => True

/-- Operations with quantities and prices in range come to this exchange. -/
def Operated (x y : Exchange) : Prop :=
  ∃ ops : List Op, (∀ op ∈ ops, op.InRange) ∧ y = Run.run Exchange.step x ops

theorem Operated.refl (x : Exchange) : Operated x x := ⟨[], by simp, rfl⟩

theorem Operated.trans {x y z : Exchange} (h : Operated x y) (h' : Operated y z) :
    Operated x z := by
  obtain ⟨ops, hr, rfl⟩ := h
  obtain ⟨ops', hr', rfl⟩ := h'
  refine ⟨ops ++ ops', ?_, (Run.run_append _ _ _ _).symm⟩
  intro op hop
  rcases List.mem_append.mp hop with hop | hop
  · exact hr op hop
  · exact hr' op hop

theorem Operated.one (x : Exchange) {op : Op} (h : op.InRange) : Operated x (x.step op) :=
  ⟨[op], by simpa using h, rfl⟩

/-- However a line is handled, it is one operation at most. -/
theorem Handling.operated {self : Nat} {w : World} {q : Bool} {o : Option (Order × List Bool)}
    {r : World × Bool} (h : Handling self w q o r) : Operated w.exchange r.1.exchange := by
  cases h with
  | silent => exact .refl _
  | replied heap f hf hrole hmsg => exact .refl _
  | quit => exact .refl _
  | @accepted heap side inst quantity price hq hp hin ord hord =>
    subst hord
    have hop : Op.InRange (.order side inst quantity price (w.conn self).clientFd
        (w.conn self).serial heap) := ⟨hq.2, hp.2⟩
    have h1 := Operated.one w.exchange hop
    simp only [Exchange.step] at h1
    rw [if_neg (by omega)] at h1
    rw [acceptOrder_exchange]
    exact h1
  | @cancelled id r hr =>
    have h1 := Operated.one w.exchange
      (show Op.InRange (.cancel id (w.conn self).clientFd) from trivial)
    simp only [Exchange.step, hr] at h1
    exact h1

theorem removeClient_operated (fd : Nat) (w : World) :
    Operated w.exchange (removeClient fd w).exchange := by
  rw [removeClient_exchange]
  exact .one w.exchange (show Op.InRange (.depart fd) from trivial)

theorem removeIfDone_operated (fd : Nat) (s : World × Bool) :
    Operated s.1.exchange (removeIfDone fd s).exchange := by
  unfold removeIfDone
  split
  · exact removeClient_operated fd s.1
  · exact .refl _

@[simp] theorem acceptClient_exchange (fd : Nat) (grown calloced armed : Bool) (w : World) :
    (acceptClient fd grown calloced armed w).exchange = w.exchange := by
  have hreg : ∀ v : World, (registerClient fd calloced armed v).exchange = v.exchange := by
    intro v
    unfold registerClient
    split
    · rfl
    · split <;> rfl
  have hgrow : ∀ v : World, (growConns fd grown v).1.exchange = v.exchange := by
    intro v
    unfold growConns
    split <;> rfl
  unfold acceptClient
  dsimp only
  split
  · split
    · rw [hreg, hgrow]
    · exact hgrow _
  · exact hreg _

/-- **Every act is a list of operations to the exchange.** -/
theorem act_operated (w : World) (a : Act) : Operated w.exchange (act w a).exchange := by
  cases a with
  | supply sock heap => exact .refl _
  | accept fd grown calloced armed =>
    rw [act]
    split
    · exact .refl _
    · rw [acceptClient_exchange]
      exact .refl _
  | client fd a =>
    rw [act]
    split
    · exact .refl _
    · cases a with
      | applied => exact .refl _
      | received got => exact .refl _
      | buffered f => exact .refl _
      | command line =>
        exact (processLine_handling fd w line).operated.trans (removeIfDone_operated fd _)
      | overlong => exact removeIfDone_operated fd (rejectLine fd w)
      | flush => exact removeIfDone_operated fd (flushClient fd w)
      | drop => exact removeClient_operated fd w

/-- **The server's exchange is an exchange after operations.** -/
theorem exchange_of_reachable {w : World} (hw : Reachable w) :
    ∃ ops : List Op, (∀ op ∈ ops, op.InRange) ∧ w.exchange = Exchange.after ops := by
  obtain ⟨serverFd, others, as, rfl⟩ := hw
  exact Run.run_related (R := fun v w : World => Operated v.exchange w.exchange)
    (fun v => .refl v.exchange) Operated.trans act_operated as (.init serverFd others)

end SocketExchange
