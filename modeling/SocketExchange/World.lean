/-
# The server's state: `exchange_server.c`, and what a run leaves behind

The connection table `conns` is indexed by descriptor and `curr_cap` is its length.  Beside it
the server has the exchange, and the kernel has the set of open descriptors.  `sock` and `heap`
are the kernel's answers still to come: what `write` returns on each socket and what the
allocator returns.

`trace` lists what a run did: which connection was accepted under which descriptor, which
lines were handed to `processLine`, which messages to `sendLine` and with what outcome.  No
code reads it.  Connections are named in it by `serial`, since descriptors are reused.

An operation that only sends leaves the `roster`, the table without the output queues, as it
is; most of what later modules need about the table is an equation between rosters.
-/
import SocketExchange.Connection
import SocketExchange.Exchange
import Mathlib.Logic.Function.Basic

namespace SocketExchange

open CText

/-! ## 1. What is noted -/

/-- A message handed to `sendLine`. -/
structure Handed where
  /-- whose line the server was handling -/
  issuer : Nat
  receiver : Nat
  /-- for a `BOUGHT` or `SOLD`: who submitted the order it reports -/
  about : Option Nat
  msg : Bytes
  /-- what the socket took at once -/
  wrote : Bytes
  failed : Bool
  deriving DecidableEq, Repr

/-- What a run did. -/
inductive Obs
  | accepted (serial fd : Nat)
  | removed (serial : Nat)
  /-- an event for a descriptor was handled on this connection -/
  | applied (serial fd : Nat)
  /-- one call of `read`: the space offered and the bytes it brought -/
  | read (serial offered : Nat) (data : Bytes)
  /-- a line handed to `processLine` -/
  | line (serial : Nat) (text : Bytes)
  /-- the reply to a line that is too long -/
  | tooLong (serial : Nat)
  | handed (h : Handed)
  | flushed (serial : Nat) (wrote : Bytes)
  /-- a cancellation by this connection took this order out of the book -/
  | cancelled (serial : Nat) (ord : Order)
  deriving DecidableEq, Repr

/-! ## 2. The state -/

structure World where
  /-- `curr_cap` is the length -/
  conns : List (Option ClientConnection)
  exchange : Exchange
  serverFd : Nat
  /-- the open descriptors of the process -/
  opened : List Nat
  sock : Nat → SockEnv
  heap : List Bool
  /-- how many connections were accepted so far -/
  accepts : Nat
  trace : List Obs

namespace World

/-- The state `main` enters its loop with; `others` are the descriptors open besides the
listening one. -/
def init (serverFd : Nat) (others : List Nat) : World :=
  { conns := List.replicate minCapacity none, exchange := .init, serverFd := serverFd
    opened := serverFd :: others, sock := fun _ => { writes := [], mallocs := [] }, heap := []
    accepts := 0, trace := [] }

def currCap (w : World) : Nat := w.conns.length

/-- `conns[fd]`, and `none` outside the table. -/
def slot (w : World) (fd : Nat) : Option ClientConnection := w.conns[fd]?.join

/-- `*conns[fd]`, for a slot the code knows to be filled. -/
def conn (w : World) (fd : Nat) : ClientConnection := (w.slot fd).getD (.fresh fd 0)

/-- Writes through the pointer `conns[fd]`. -/
def modify (w : World) (fd : Nat) (f : ClientConnection → ClientConnection) : World :=
  { w with conns := w.conns.modify fd (Option.map f) }

def note (w : World) (o : Obs) : World := { w with trace := w.trace ++ [o] }

/-- The table as `v` shows each connection. -/
def view (v : ClientConnection → ClientConnection) (w : World) : List (Option ClientConnection) :=
  w.conns.map (Option.map v)

/-- The table without the output queues. -/
def roster (w : World) : List (Option ClientConnection) := w.view .bare

/-- Who is where, with what is read and not yet handled: the table without the fields that
commands change. -/
def tenants (w : World) : List (Option ClientConnection) := w.view .fixed

end World

/-! ## 3. Slots -/

section Slots

variable (w : World) (fd : Nat) (f : ClientConnection → ClientConnection) (o : Obs)

@[simp] theorem slot_note (n : Nat) : (w.note o).slot n = w.slot n := rfl

@[simp] theorem conn_note (n : Nat) : (w.note o).conn n = w.conn n := rfl

@[simp] theorem roster_note : (w.note o).roster = w.roster := rfl

@[simp] theorem tenants_note : (w.note o).tenants = w.tenants := rfl

@[simp] theorem exchange_note : (w.note o).exchange = w.exchange := rfl

@[simp] theorem trace_note : (w.note o).trace = w.trace ++ [o] := rfl

@[simp] theorem exchange_modify : (w.modify fd f).exchange = w.exchange := rfl

@[simp] theorem trace_modify : (w.modify fd f).trace = w.trace := rfl

@[simp] theorem currCap_modify : (w.modify fd f).currCap = w.currCap := by
  simp [World.currCap, World.modify]

@[simp] theorem slot_modify_self : (w.modify fd f).slot fd = (w.slot fd).map f := by
  unfold World.slot World.modify
  rw [List.getElem?_modify]
  cases w.conns[fd]? with
  | none => rfl
  | some s => simp

theorem slot_modify_ne {n : Nat} (h : n ≠ fd) : (w.modify fd f).slot n = w.slot n := by
  unfold World.slot World.modify
  rw [List.getElem?_modify]
  cases w.conns[n]? with
  | none => rfl
  | some s => simp [Ne.symm h]

/-- Writing a slot: only inside the table. -/
theorem slot_set (s : Option ClientConnection) (n : Nat) :
    ({ w with conns := w.conns.set fd s } : World).slot n
      = if n = fd then (if fd < w.currCap then s else none) else w.slot n := by
  unfold World.slot World.currCap
  dsimp only
  rw [List.getElem?_set]
  by_cases hn : fd = n
  · subst hn
    by_cases hlt : fd < w.conns.length <;> simp [hlt]
  · simp [hn, Ne.symm hn]

/-- Emptying a slot. -/
theorem slot_set_none (n : Nat) :
    ({ w with conns := w.conns.set fd none } : World).slot n
      = if n = fd then none else w.slot n := by
  rw [slot_set]
  split
  · split <;> rfl
  · rfl

/-- A longer table has the same filled slots. -/
theorem slot_grown (k n : Nat) :
    ({ w with conns := w.conns ++ List.replicate k none } : World).slot n = w.slot n := by
  unfold World.slot
  dsimp only
  rw [List.getElem?_append]
  split
  · rfl
  · rename_i h
    rw [List.getElem?_eq_none (not_lt.mp h), List.getElem?_replicate]
    split <;> rfl

theorem slot_modify (n : Nat) :
    (w.modify fd f).slot n = if n = fd then (w.slot n).map f else w.slot n := by
  split
  · rename_i h
    rw [h, slot_modify_self]
  · rename_i h
    exact slot_modify_ne w fd f h

variable {w}

theorem modify_slot {w : World} {c : ClientConnection} (hc : w.slot fd = some c)
    (f : ClientConnection → ClientConnection) : (w.modify fd f).slot fd = some (f c) := by
  rw [slot_modify_self, hc]
  rfl

variable {fd}

/-- A filled slot is inside the table. -/
theorem slot_lt {c : ClientConnection} (h : w.slot fd = some c) : fd < w.currCap := by
  unfold World.slot at h
  rw [Option.join_eq_some_iff] at h
  exact (List.getElem?_eq_some_iff.mp h).1

theorem conn_of_slot {c : ClientConnection} (h : w.slot fd = some c) : w.conn fd = c := by
  rw [World.conn, h]
  rfl

/-- Nobody is connected at the start. -/
theorem init_slot (serverFd : Nat) (others : List Nat) (n : Nat) :
    (World.init serverFd others).slot n = none := by
  unfold World.slot World.init
  rw [List.getElem?_replicate]
  split <;> rfl

end Slots

/-! ## 4. Views of the table -/

section Views

variable {v : ClientConnection → ClientConnection} {w w' : World} {fd : Nat}

/-- The slots of a view. -/
theorem slot_view (v : ClientConnection → ClientConnection) (w : World) (fd : Nat) :
    (w.slot fd).map v = (w.view v)[fd]?.join := by
  unfold World.slot World.view
  rw [List.getElem?_map]
  cases w.conns[fd]? with
  | none => rfl
  | some s => rfl

/-- Worlds with one view have tables of one size. -/
theorem currCap_of_view (h : w'.view v = w.view v) : w'.currCap = w.currCap := by
  have := congrArg List.length h
  simpa [World.view, World.currCap] using this

/-- Worlds with one view have filled slots in the same places. -/
theorem slot_of_view (h : w'.view v = w.view v) {c : ClientConnection}
    (hc : w.slot fd = some c) : ∃ c', w'.slot fd = some c' ∧ v c' = v c := by
  have hv := slot_view v w' fd
  rw [h, ← slot_view v w fd, hc] at hv
  exact Option.map_eq_some_iff.mp hv

theorem slot_none_of_view (h : w'.view v = w.view v) :
    w'.slot fd = none ↔ w.slot fd = none := by
  have hv := slot_view v w' fd
  rw [h, ← slot_view v w fd] at hv
  rw [← Option.map_eq_none_iff (f := v), hv, Option.map_eq_none_iff]

/-- A field the view shows is the same in worlds with one view. -/
theorem field_of_view {β : Type} (g : ClientConnection → β) (hg : ∀ c, g (v c) = g c)
    (h : w'.view v = w.view v) : (w'.slot fd).map g = (w.slot fd).map g := by
  have hcomp : ∀ s : Option ClientConnection, s.map g = (s.map v).map g := by
    intro s
    rw [Option.map_map]
    exact Option.map_congr fun c _ => (hg c).symm
  rw [hcomp, slot_view, h, ← slot_view, ← hcomp]

/-- A change the view does not show leaves it. -/
theorem view_modify {f : ClientConnection → ClientConnection}
    (hf : ∀ c, w.slot fd = some c → v (f c) = v c) : (w.modify fd f).view v = w.view v := by
  unfold World.view World.modify
  refine List.ext_getElem? fun n => ?_
  rw [List.getElem?_map, List.getElem?_modify, List.getElem?_map]
  cases hs : w.conns[n]? with
  | none => rfl
  | some s =>
    cases s with
    | none => split <;> rfl
    | some c =>
      split
      · rename_i h
        have := hf c (by rw [World.slot, h, hs]; rfl)
        simp [this]
      · rfl

/-- What a roster shows, the tenants show less of. -/
theorem tenants_of_roster (h : w'.roster = w.roster) : w'.tenants = w.tenants := by
  have hcomp : ∀ x : World, x.tenants = x.roster.map (Option.map ClientConnection.fixed) := by
    intro x
    unfold World.tenants World.roster World.view
    rw [List.map_map]
    refine List.map_congr_left fun s _ => ?_
    cases s <;> rfl
  rw [hcomp, h, ← hcomp]

/-- The same of the connection a descriptor is looked up as. -/
theorem conn_field_of_view {β : Type} (g : ClientConnection → β) (hg : ∀ c, g (v c) = g c)
    (h : w'.view v = w.view v) : g (w'.conn fd) = g (w.conn fd) := by
  have hf : (w'.slot fd).map g = (w.slot fd).map g := field_of_view g hg h
  unfold World.conn
  cases h1 : w'.slot fd with
  | none =>
    rw [h1, Option.map_none, eq_comm, Option.map_eq_none_iff] at hf
    rw [hf]
  | some c' =>
    obtain ⟨c, hc, hg'⟩ := Option.map_eq_some_iff.mp (hf.symm.trans (congrArg (Option.map g) h1))
    rw [hc]
    exact hg'.symm

/-- A slot that shows the same but for the output queue was filled. -/
theorem slot_of_bare {w w' : World} {n : Nat}
    (h : (w'.slot n).map ClientConnection.bare = (w.slot n).map ClientConnection.bare)
    {c' : ClientConnection} (hc' : w'.slot n = some c') :
    ∃ c, w.slot n = some c ∧ c'.bare = c.bare := by
  rw [hc', Option.map_some, eq_comm, Option.map_eq_some_iff] at h
  obtain ⟨c, hc, hbare⟩ := h
  exact ⟨c, hc, hbare.symm⟩

/-- Which connection is in a slot, by number, and the descriptor it was given. -/
def World.badge (w : World) (fd : Nat) : Option (Nat × Nat) :=
  (w.slot fd).map fun c => (c.serial, c.clientFd)

/-- Commands leave the badges. -/
theorem badge_of_tenants (h : w'.tenants = w.tenants) (fd : Nat) : w'.badge fd = w.badge fd :=
  field_of_view (v := .fixed) (fun c => (c.serial, c.clientFd)) (fun _ => rfl) h

theorem badge_of_slot {c : ClientConnection} (h : w.slot fd = some c) :
    w.badge fd = some (c.serial, c.clientFd) := by
  rw [World.badge, h]
  rfl

theorem slot_of_badge {k f : Nat} (h : w.badge fd = some (k, f)) :
    ∃ c, w.slot fd = some c ∧ c.serial = k ∧ c.clientFd = f := by
  obtain ⟨c, hc, hkf⟩ := Option.map_eq_some_iff.mp h
  exact ⟨c, hc, congrArg Prod.fst hkf, congrArg Prod.snd hkf⟩

end Views

/-! ## 5. `sendLine` -/

/-- Why a message is sent: the client whose line is being handled, and for a `BOUGHT` or
`SOLD` the connection its order came from.  It is only noted. -/
structure Cause where
  self : Nat
  about : Option Nat

/-- What a call of `sendLine` is noted as. -/
def handedOf (why : Cause) (fd : Nat) (line : Bytes) (w : World) : Handed :=
  let r := sendToClient (w.sock fd) (w.conn fd) (cstr line)
  { issuer := (w.conn why.self).serial, receiver := (w.conn fd).serial, about := why.about
    msg := line, wrote := r.wrote, failed := r.failed }

/-- `sendLine(conns[fd], line)`; the flag is the returned one. -/
def sendLine (why : Cause) (fd : Nat) (line : Bytes) (w : World) : World × Bool :=
  let r := sendToClient (w.sock fd) (w.conn fd) (cstr line)
  (({ w with sock := Function.update w.sock fd r.env }.modify fd fun _ => r.conn).note
    (.handed (handedOf why fd line w)), r.failed)

/-- `sendLine(self, line)`, to the client whose line is being handled. -/
def reply (self : Nat) (line : Bytes) (w : World) : World × Bool :=
  sendLine { self := self, about := none } self line w

/-- `replyError(self, reason)` -/
def replyError (self : Nat) (reason : Bytes) (w : World) : World × Bool :=
  reply self (snprintf 64 (lit "ERROR " ++ reason ++ lit "\n")) w

@[simp] theorem sendLine_trace (why : Cause) (fd : Nat) (line : Bytes) (w : World) :
    (sendLine why fd line w).1.trace = w.trace ++ [.handed (handedOf why fd line w)] := rfl

@[simp] theorem sendLine_exchange (why : Cause) (fd : Nat) (line : Bytes) (w : World) :
    (sendLine why fd line w).1.exchange = w.exchange := rfl

/-- A send changes the output queue of a connection, and nothing else of the table. -/
@[simp] theorem sendLine_roster (why : Cause) (fd : Nat) (line : Bytes) (w : World) :
    (sendLine why fd line w).1.roster = w.roster := by
  unfold sendLine
  dsimp only
  rw [roster_note]
  refine view_modify fun c hc => ?_
  have hc' : w.slot fd = some c := hc
  rw [sendToClient_bare, conn_of_slot hc']

@[simp] theorem reply_exchange (self : Nat) (line : Bytes) (w : World) :
    (reply self line w).1.exchange = w.exchange := rfl

@[simp] theorem reply_roster (self : Nat) (line : Bytes) (w : World) :
    (reply self line w).1.roster = w.roster := sendLine_roster _ _ _ _

/-- A send to one descriptor leaves the other slots. -/
theorem sendLine_slot_ne (why : Cause) {fd n : Nat} (h : n ≠ fd) (line : Bytes) (w : World) :
    (sendLine why fd line w).1.slot n = w.slot n := by
  unfold sendLine
  rw [slot_note]
  exact slot_modify_ne _ _ _ h

end SocketExchange
