/-
# The server and the kernel together

A client's socket holds bytes for the server to read and room for the server to write.  `kevent`
reports a filter of a socket once for each time something came (`EV_CLEAR`): `ready` says which
filters would be reported, and a filter that was returned is quiet until the client acts again.
So the server has to read until `EAGAIN` and to write until `EAGAIN`, and what it leaves behind
it is not told of a second time.

`Machine` is the server's state with the sockets, the filters and the batch of events `kevent`
has returned.  Clients act at any time, also between two reads of one event; the server takes a
batch when it has handled the last one, and handles the events one by one with `dispatch`.  The
answers of `read` are those of the sockets; `accept` and the allocator answer as they like, and
`read` and `write` may be interrupted or fail at any time.
-/
import SocketExchange.Lib.Notification
import SocketExchange.Quits

namespace SocketExchange

open CText

/-! ## 1. What a socket holds for the server -/

/-- The receive side of a client's socket. -/
structure Inbound where
  /-- all that has come from the client -/
  sent : Bytes
  /-- how many of these bytes were read -/
  taken : Nat
  /-- and nothing more will -/
  fin : Bool

namespace Inbound

def unread (i : Inbound) : Bytes := i.sent.drop i.taken

/-- A `read` would not block. -/
def HasInput (i : Inbound) : Prop := i.unread ≠ [] ∨ i.fin = true

/-- The client sends something, or ends its stream. -/
inductive Arrives (i : Inbound) : Inbound → Prop
  | data (bytes : Bytes) (hopen : i.fin = false) : Arrives i { i with sent := i.sent ++ bytes }
  | fin : Arrives i { i with fin := true }

/-- One call of `read` for at most `offered` bytes. -/
inductive Read (offered : Nat) (i : Inbound) : ReadResult → Inbound → Prop
  | data {got : Bytes} (hsome : got ≠ []) (hlen : got.length ≤ offered)
      (hfirst : got <+: i.unread) :
      Read offered i (.data got) { i with taken := i.taken + got.length }
  | fin (hnone : i.unread = []) (hfin : i.fin = true) : Read offered i (.data []) i
  | eagain (hnone : i.unread = []) (hopen : i.fin = false) : Read offered i .eagain i
  | eintr : Read offered i .eintr i
  | error : Read offered i .error i

end Inbound

/-- **The reads of one event on a socket**, with its filter: `rs` is what they return when the
client may act in front of each of them. -/
inductive Drains (fd : Nat) :
    Inbound × Bool → World → List ReadResult → Inbound × Bool → Prop
  | arrival {i i' : Inbound} {ready : Bool} {w : World} {rs : List ReadResult} {e : Inbound × Bool}
      (h : i.Arrives i') (hrest : Drains fd (i', true) w rs e) : Drains fd (i, ready) w rs e
  | turn {i i' : Inbound} {ready : Bool} {w : World} {r : ReadResult} {rs : List ReadResult}
      {e : Inbound × Bool} (hread : i.Read (inbufSize - (w.conn fd).inlen) r i')
      (hgo : (readTurn fd r w).2 = none) (hrest : Drains fd (i', ready) (readTurn fd r w).1 rs e) :
      Drains fd (i, ready) w (r :: rs) e
  | last {i i' : Inbound} {ready done : Bool} {w : World} {r : ReadResult}
      (hread : i.Read (inbufSize - (w.conn fd).inlen) r i')
      (hend : (readTurn fd r w).2 = some done) : Drains fd (i, ready) w [r] (i', ready)

/-! ## 2. What a socket takes from the server -/

/-- What the next writes to a socket return, up to the first that finds it full: one that is cut
short leaves it full, so all but the last have room for a whole output buffer. -/
def Credible : List WriteResult → Prop
  | [] => True
  | .took n :: rs => (rs = [] ∨ outbufSize ≤ n) ∧ Credible rs
  | .eagain :: _ => False
  | _ :: rs => Credible rs

/-! ## 3. The machine -/

structure Machine where
  world : World
  inbound : Nat → Inbound
  /-- what the next writes return; a socket is full when the list has run out -/
  outbound : Nat → List WriteResult
  /-- the filters that `kevent` would report -/
  ready : Nat → Filter → Bool
  /-- the events of this pass that are not handled yet -/
  batch : List Kevent

/-- The event has the socket of this connection read. -/
structure Occurrence.Reads (o : Occurrence) (w : World) (c : ClientConnection) : Prop where
  client : o.ev.ident ≠ w.serverFd
  whole : ¬ o.ev.isBroken
  filter : o.ev.filter = .read
  slot : w.slot o.ev.ident = some c
  reading : c.closing = false

/-- Connected under this descriptor before the event and behind it. -/
def Stays (m m' : Machine) (fd : Nat) : Prop :=
  m.world.slot fd ≠ none ∧ m'.world.slot fd ≠ none

/-- **An event is handled** with answers of the sockets.  What clients do to other sockets in the
meantime comes before it or behind it; a socket that is drained while it is written to answers
as it likes, and is reported for that. -/
structure Machine.Handles (m : Machine) (o : Occurrence) (m' : Machine) : Prop where
  batch : m.batch = o.ev :: m'.batch
  world : m'.world = dispatch m.world o
  reads : ∀ c, o.Reads m.world c →
    Drains o.ev.ident (m.inbound o.ev.ident, m.ready o.ev.ident .read) (m.world.serving o c) o.reads
      (m'.inbound o.ev.ident, m'.ready o.ev.ident .read)
  unread : ∀ fd, Stays m m' fd → (∀ c, o.Reads m.world c → fd ≠ o.ev.ident) →
    m'.inbound fd = m.inbound fd ∧ m'.ready fd .read = m.ready fd .read
  writes : ∀ fd, Stays m m' fd →
    ((o.sock fd).writes = m.outbound fd ∧ m'.outbound fd = (m'.world.sock fd).writes ∧
        m'.ready fd .write = m.ready fd .write) ∨
      Credible (m'.outbound fd) ∧ m'.ready fd .write = true
  /-- a filter that is added to a socket is reported at once if there is reason to -/
  came : ∀ fd, m.world.slot fd = none → m'.world.slot fd ≠ none →
    (m'.inbound fd).taken = 0 ∧ ((m'.inbound fd).HasInput → m'.ready fd .read = true) ∧
      Credible (m'.outbound fd)

/-- The filters that are ready, with one more. -/
def raise (ready : Nat → Filter → Bool) (fd : Nat) (f : Filter) : Nat → Filter → Bool :=
  fun n g => ready n g || (n == fd && g == f)

theorem raise_iff {ready : Nat → Filter → Bool} {fd n : Nat} {f g : Filter} :
    raise ready fd f n g = true ↔ ready n g = true ∨ n = fd ∧ g = f := by
  simp [raise]

/-- `kevent` has returned these events: their filters are quiet until something comes. -/
def Machine.fetch (m : Machine) (evs : List Kevent) : Machine :=
  { m with batch := evs
           ready := fun fd f =>
             m.ready fd f && !evs.any fun ev => ev.ident == fd && ev.filter == f }

inductive Machine.Step (m : Machine) : Machine → Prop
  /-- a client sends something, or ends its stream -/
  | arrival (fd : Nat) {i : Inbound} (h : (m.inbound fd).Arrives i) :
      Step m { m with inbound := Function.update m.inbound fd i
                      ready := raise m.ready fd .read }
  /-- a client reads, and its socket takes more -/
  | drained (fd : Nat) {writes : List WriteResult} (h : Credible writes) :
      Step m { m with outbound := Function.update m.outbound fd writes
                      ready := raise m.ready fd .write }
  /-- a connection is reset: both filters are reported, with any flags -/
  | reset (fd : Nat) :
      Step m { m with ready := raise (raise m.ready fd .read) fd .write }
  /-- `kevent` returns some of the filters that are ready, or the listening socket's -/
  | waited (hdone : m.batch = []) (evs : List Kevent)
      (hready : ∀ ev ∈ evs, ev.ident = m.world.serverFd ∨ m.ready ev.ident ev.filter = true) :
      Step m (m.fetch evs)
  | handled {o : Occurrence} {m' : Machine} (h : m.Handles o m') : Step m m'

/-- The machine at the start of the main loop. -/
def Machine.Starts (m : Machine) : Prop :=
  m.batch = [] ∧ ∃ serverFd others, m.world = .init serverFd others

inductive Machine.Reachable : Machine → Prop
  | start {m : Machine} (h : m.Starts) : Reachable m
  | step {m m' : Machine} (h : Reachable m) (hstep : m.Step m') : Reachable m'

end SocketExchange
