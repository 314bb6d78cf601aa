/-
# Events: `server.c` and the main loop of `exchange_server.c`

`acceptClients` registers the connections that are waiting, `handleClientEvent` serves one
event of one client, and `dispatch` is the body of the main loop.  A run is a list of
occurrences: the events as `kevent` returned them, in the order in which they are handled,
each with the answers the kernel gives while it is.

`accept` returns a descriptor that is not open; an answer that names an open one cannot occur
and is passed over.
-/
import SocketExchange.Io

namespace SocketExchange

/-! ## 1. New clients -/

/-- What one call of `accept` comes to. -/
inductive AcceptResult
  /-- a connection; `grown` is the outcome of `realloc` in `growConns`, `calloced` and `armed`
  those of `calloc` and of `kevent` in `registerClient` -/
  | connection (clientFd : Nat) (grown calloced armed : Bool)
  /-- `EINTR` or `ECONNABORTED` -/
  | interrupted
  /-- `EAGAIN`, or an error: the loop ends -/
  | drained
  deriving DecidableEq, Repr

/-- The doubling; `new_cap` is at least 1, so that so many doublings are enough. -/
def newCap (clientFd : Nat) : Nat → Nat → Nat
  | 0, cap => cap
  | fuel + 1, cap => if clientFd ≥ cap then newCap clientFd fuel (cap * 2) else cap

def growConns (clientFd : Nat) (grown : Bool) (w : World) : World × Bool :=
  if grown then
    ({ w with conns :=
        w.conns ++ List.replicate (newCap clientFd (clientFd + 1) w.currCap - w.currCap) none },
      true)
  else (w, false)

/-- The connection, when it is registered, is the next one by number. -/
def registerClient (clientFd : Nat) (calloced armed : Bool) (w : World) : World :=
  if calloced = false then
    { w with conns := w.conns.set clientFd none
             opened := w.opened.filter fun fd => fd != clientFd }
  else if armed = false then
    { w with conns := w.conns.set clientFd none
             opened := w.opened.filter fun fd => fd != clientFd }
  else
    { w with conns := w.conns.set clientFd (some (.fresh clientFd w.accepts))
             accepts := w.accepts + 1 }.note (.accepted w.accepts clientFd)

/-- One turn of the loop for a connection `accept` returned. -/
def acceptClient (clientFd : Nat) (grown calloced armed : Bool) (w : World) : World :=
  let w := { w with opened := clientFd :: w.opened }
  if clientFd ≥ w.currCap then
    let g := growConns clientFd grown w
    if g.2 then registerClient clientFd calloced armed g.1
    else { g.1 with opened := g.1.opened.filter fun fd => fd != clientFd }
  else registerClient clientFd calloced armed w

def acceptClients : List AcceptResult → World → World
  | [], w => w
  | .drained :: _, w => w
  | .interrupted :: rs, w => acceptClients rs w
  | .connection clientFd grown calloced armed :: rs, w =>
    if clientFd ∈ w.opened then acceptClients rs w
    else acceptClients rs (acceptClient clientFd grown calloced armed w)

/-! ## 2. One event -/

/-- `EVFILT_READ` and `EVFILT_WRITE` -/
inductive Filter
  | read
  | write
  deriving DecidableEq, Repr

/-- `struct kevent`, as far as it is looked at. -/
structure Kevent where
  ident : Nat
  filter : Filter
  /-- `EV_EOF` -/
  eof : Bool
  /-- `EV_ERROR` -/
  error : Bool
  deriving DecidableEq, Repr

/-- `flushToClient(conn)`, noted. -/
def flushClient (clientFd : Nat) (w : World) : World × Bool :=
  let r := flushToClient (w.sock clientFd) (w.conn clientFd)
  (({ w with sock := Function.update w.sock clientFd r.env }.modify clientFd fun _ => r.conn).note
    (.flushed (w.conn clientFd).serial r.wrote), r.failed)

/-- The part of `handleClientEvent` that decides `done`. -/
def serveEvent (ev : Kevent) (reads : List ReadResult) (w : World) : World × Bool :=
  if ev.error ∨ (ev.filter = .write ∧ ev.eof) then (w, true)
  else
    match ev.filter with
    | .write => flushClient ev.ident w
    | .read => communicate ev.ident reads w

/-- `if (done) removeClient(…)` -/
def removeIfDone (clientFd : Nat) (s : World × Bool) : World :=
  if s.2 then removeClient clientFd s.1 else s.1

def handleClientEvent (ev : Kevent) (reads : List ReadResult) (w : World) : World :=
  match w.slot ev.ident with
  | none => w
  | some conn =>
    removeIfDone ev.ident (serveEvent ev reads (w.note (.applied conn.serial ev.ident)))

/-! ## 3. The main loop -/

/-- One event of a pass with the answers of the kernel while it is handled: what `read` and
`accept` return, and what `write` and the allocator will. -/
structure Occurrence where
  ev : Kevent
  reads : List ReadResult
  accepts : List AcceptResult
  sock : Nat → SockEnv
  heap : List Bool

/-- The body of the loop over the events. -/
def dispatch (w : World) (o : Occurrence) : World :=
  let w := { w with sock := o.sock, heap := o.heap }
  if o.ev.ident = w.serverFd then acceptClients o.accepts w
  else handleClientEvent o.ev o.reads w

/-- The end of `main`: every slot that is filled is torn down. -/
def shutdown (w : World) : World :=
  (List.range w.currCap).foldl
    (fun w i => if w.slot i = none then w else removeClient i w) w

/-! ## 4. What a flush, a removal and a registration do -/

@[simp] theorem flushClient_roster (clientFd : Nat) (w : World) :
    (flushClient clientFd w).1.roster = w.roster := by
  unfold flushClient
  dsimp only
  rw [roster_note]
  refine view_modify fun c hc => ?_
  have hc' : w.slot clientFd = some c := hc
  rw [flushToClient_bare, conn_of_slot hc']

/-- What a removal does to the table. -/
theorem removeClient_slot (fd : Nat) (w : World) (n : Nat) :
    (removeClient fd w).slot n = if n = fd then none else w.slot n := by
  unfold removeClient
  dsimp only
  split
  · rename_i h
    split
    · rename_i hn
      rw [hn]
      exact h
    · rfl
  · exact slot_set_none _ fd n

/-- A slot that is filled behind a removal was filled with the same before it. -/
theorem slot_of_removed {fd n : Nat} {w : World} {c : ClientConnection}
    (hc : (removeClient fd w).slot n = some c) : w.slot n = some c := by
  rw [removeClient_slot] at hc
  split at hc
  · cases hc
  · exact hc

@[simp] theorem removeClient_opened (fd : Nat) (w : World) :
    (removeClient fd w).opened = w.opened.filter fun n => n != fd := by
  unfold removeClient
  dsimp only
  split <;> rfl

@[simp] theorem removeClient_accepts (fd : Nat) (w : World) :
    (removeClient fd w).accepts = w.accepts := by
  unfold removeClient
  dsimp only
  split <;> rfl

@[simp] theorem removeClient_serverFd (fd : Nat) (w : World) :
    (removeClient fd w).serverFd = w.serverFd := by
  unfold removeClient
  dsimp only
  split <;> rfl

@[simp] theorem removeClient_sock (fd : Nat) (w : World) : (removeClient fd w).sock = w.sock := by
  unfold removeClient
  dsimp only
  split <;> rfl

@[simp] theorem removeClient_exchange (fd : Nat) (w : World) :
    (removeClient fd w).exchange = w.exchange.depart fd := by
  unfold removeClient
  dsimp only
  split <;> rfl

@[simp] theorem removeClient_currCap (fd : Nat) (w : World) :
    (removeClient fd w).currCap = w.currCap := by
  unfold removeClient
  dsimp only
  split
  · rfl
  · simp [World.currCap, World.note]

theorem removeClient_trace {fd : Nat} {w : World} {c : ClientConnection}
    (hc : w.slot fd = some c) :
    (removeClient fd w).trace = w.trace ++ [.removed c.serial] := by
  unfold removeClient
  dsimp only
  split
  · rename_i h
    have h' : w.slot fd = none := h
    rw [hc] at h'
    cases h'
  · rename_i c' h
    have h' : w.slot fd = some c' := h
    rw [hc] at h'
    cases h'
    rfl

theorem slot_of_removeIfDone {fd n : Nat} {s : World × Bool} {c : ClientConnection}
    (hc : (removeIfDone fd s).slot n = some c) : s.1.slot n = some c := by
  unfold removeIfDone at hc
  split at hc
  · exact slot_of_removed hc
  · exact hc

/-- Removing a client notes nothing but that. -/
theorem removeIfDone_notes (fd : Nat) (s : World × Bool) :
    ∃ new, (removeIfDone fd s).trace = s.1.trace ++ new ∧
      ∀ o ∈ new, s.2 = true ∧ ∃ c, s.1.slot fd = some c ∧ o = .removed c.serial := by
  unfold removeIfDone
  split
  · rename_i hdone
    cases hs : s.1.slot fd with
    | none =>
      refine ⟨[], ?_, by simp⟩
      unfold removeClient
      dsimp only
      split
      · exact (List.append_nil _).symm
      · rename_i c hc
        have hc' : s.1.slot fd = some c := hc
        rw [hs] at hc'
        cases hc'
    | some c =>
      refine ⟨_, removeClient_trace hs, fun o ho => ⟨hdone, c, rfl, List.mem_singleton.mp ho⟩⟩
  · exact ⟨[], (List.append_nil _).symm, by simp⟩

/-- The doubling goes on until the descriptor is a valid index. -/
theorem lt_newCap {clientFd : Nat} : ∀ {fuel cap : Nat}, clientFd < cap * 2 ^ fuel →
    clientFd < newCap clientFd fuel cap ∧ cap ≤ newCap clientFd fuel cap
  | 0, cap, h => by simpa [newCap] using h
  | fuel + 1, cap, h => by
    rw [newCap]
    split
    · rw [pow_succ, mul_comm (2 ^ fuel), ← mul_assoc] at h
      obtain ⟨h1, h2⟩ := lt_newCap h
      exact ⟨h1, by omega⟩
    · exact ⟨by omega, le_refl _⟩

/-- So many doublings are enough. -/
theorem lt_mul_two_pow {cap : Nat} (hcap : 0 < cap) (clientFd : Nat) :
    clientFd < cap * 2 ^ (clientFd + 1) := by
  have h1 : clientFd < 2 ^ (clientFd + 1) :=
    lt_trans (Nat.lt_succ_self _) Nat.lt_two_pow_self
  exact lt_of_lt_of_le h1 (Nat.le_mul_of_pos_left _ hcap)

/-- The connection was refused: nothing has changed but the length of the table. -/
structure Refused (w w' : World) : Prop where
  slot : ∀ n, w'.slot n = w.slot n
  opened : w'.opened = w.opened
  accepts : w'.accepts = w.accepts
  serverFd : w'.serverFd = w.serverFd
  exchange : w'.exchange = w.exchange
  trace : w'.trace = w.trace
  currCap : w.currCap ≤ w'.currCap

/-- The connection was registered: it is the next one by number, in the slot of its
descriptor. -/
structure Registered (w : World) (clientFd : Nat) (w' : World) : Prop where
  slot : ∀ n, w'.slot n = if n = clientFd then some (.fresh clientFd w.accepts) else w.slot n
  opened : w'.opened = clientFd :: w.opened
  accepts : w'.accepts = w.accepts + 1
  serverFd : w'.serverFd = w.serverFd
  exchange : w'.exchange = w.exchange
  trace : w'.trace = w.trace ++ [.accepted w.accepts clientFd]
  currCap : w.currCap ≤ w'.currCap

theorem filter_opened {clientFd : Nat} {opened : List Nat} (h : clientFd ∉ opened) :
    (clientFd :: opened).filter (fun fd => fd != clientFd) = opened := by
  rw [List.filter_cons_of_neg (by simp)]
  refine List.filter_eq_self.mpr fun fd hfd => ?_
  rw [bne_iff_ne]
  rintro rfl
  exact h hfd

/-- `registerClient` in a table that has the slot. -/
theorem registerClient_cases {w : World} {clientFd : Nat} (hlt : clientFd < w.currCap)
    (hslot : w.slot clientFd = none) {opened : List Nat} (hopen : clientFd ∉ opened)
    (hw : w.opened = clientFd :: opened) (calloced armed : Bool) :
    if calloced ∧ armed then
      Registered { w with opened := opened } clientFd (registerClient clientFd calloced armed w)
    else Refused { w with opened := opened } (registerClient clientFd calloced armed w) := by
  have hset : ∀ n, ({ w with conns := w.conns.set clientFd none
                             opened := w.opened.filter fun fd => fd != clientFd } : World).slot n
      = w.slot n := by
    intro n
    refine (slot_set_none w clientFd n).trans ?_
    split
    · rename_i h
      rw [h, hslot]
    · rfl
  have hrefused : Refused { w with opened := opened }
      { w with conns := w.conns.set clientFd none
               opened := w.opened.filter fun fd => fd != clientFd } :=
    ⟨hset, by rw [hw]; exact filter_opened hopen, rfl, rfl, rfl, rfl,
      by simp [World.currCap]⟩
  unfold registerClient
  cases calloced with
  | false => simpa using hrefused
  | true =>
    cases armed with
    | false => simpa using hrefused
    | true =>
      simp only [and_self, if_true, Bool.true_eq_false, if_false]
      refine ⟨fun n => ?_, hw, rfl, rfl, rfl, rfl, by simp [World.currCap, World.note]⟩
      refine (slot_set w clientFd _ n).trans ?_
      rw [if_pos hlt]
      rfl

/-- **What `accept` brings**: the connection is registered when memory and the queue allow it,
and otherwise the descriptor is closed again and nothing has changed. -/
theorem acceptClient_cases {w : World} {clientFd : Nat} (hcap : 0 < w.currCap)
    (hopen : clientFd ∉ w.opened) (hslot : w.slot clientFd = none)
    (grown calloced armed : Bool) :
    if (clientFd < w.currCap ∨ grown) ∧ calloced ∧ armed then
      Registered w clientFd (acceptClient clientFd grown calloced armed w)
    else Refused w (acceptClient clientFd grown calloced armed w) := by
  unfold acceptClient
  dsimp only
  by_cases hlt : clientFd < w.currCap
  · have h := registerClient_cases (w := { w with opened := clientFd :: w.opened }) hlt hslot hopen
      rfl calloced armed
    have hge : ¬ (clientFd ≥ World.currCap { w with opened := clientFd :: w.opened }) :=
      not_le.mpr hlt
    rw [if_neg hge]
    simpa only [hlt, true_or, true_and] using h
  · have hge : clientFd ≥ World.currCap { w with opened := clientFd :: w.opened } := not_lt.mp hlt
    rw [if_pos hge]
    unfold growConns
    cases grown with
    | false =>
      have hno : ¬ ((clientFd < w.currCap ∨ false = true) ∧ calloced = true ∧ armed = true) :=
        fun h => h.1.elim hlt Bool.false_ne_true
      rw [if_neg hno]
      exact ⟨fun _ => rfl, filter_opened hopen, rfl, rfl, rfl, rfl, le_refl _⟩
    | true =>
      obtain ⟨hnew, hle⟩ := lt_newCap (lt_mul_two_pow hcap clientFd)
      set k := newCap clientFd (clientFd + 1) w.currCap - w.currCap with hk
      have hslots := slot_grown w k
      have hlen : World.currCap { w with conns := w.conns ++ List.replicate k none }
          = w.currCap + k := by simp [World.currCap]
      have hgrown : w.currCap ≤ World.currCap
          { w with conns := w.conns ++ List.replicate k none } := by omega
      have h := registerClient_cases
        (w := { w with conns := w.conns ++ List.replicate k none, opened := clientFd :: w.opened })
        (lt_of_lt_of_le (show clientFd < w.currCap + k by omega) (le_of_eq hlen.symm))
        ((hslots clientFd).trans hslot) hopen rfl calloced armed
      simp only [or_true, true_and, if_true]
      split at h
      · rename_i hc
        rw [if_pos hc]
        exact ⟨fun n => (h.slot n).trans (by split <;> [rfl; exact hslots n]), h.opened, h.accepts,
          h.serverFd, h.exchange, h.trace, hgrown.trans h.currCap⟩
      · rename_i hc
        rw [if_neg hc]
        exact ⟨fun n => (h.slot n).trans (hslots n), h.opened, h.accepts, h.serverFd, h.exchange,
          h.trace, hgrown.trans h.currCap⟩

end SocketExchange
