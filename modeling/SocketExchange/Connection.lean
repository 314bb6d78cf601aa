/-
# One connection and its output: `server.h`, `io.c` (`flushToClient`, `sendToClient`)

`ClientConnection` is the state the server keeps for a socket.  The two output functions work
on one connection and one socket: `sendToClient` writes at once when nothing is queued and
queues the rest, `flushToClient` writes the queue until it is empty or the socket is full.

The kernel's answers are inputs.  `WriteResult` lists what successive `write` calls on a socket
return; a successful one takes at least one byte and at most all it is given.  A list that has
run out stands for a socket that is full, so that a loop repeated on `EINTR` ends with it.
-/
import SocketExchange.Lib.CText

namespace SocketExchange

open CText

/-! ## 1. `config.h` -/

def usernameLength : Nat := 128

def minCapacity : Nat := 10

def maxCmdLen : Nat := 11

def maxTokenLen : Nat := 159

def inbufSize : Nat := maxTokenLen + 1

def outbufSize : Nat := 4096

/-! ## 2. The state of a connection -/

/-- `enum Type` -/
inductive ClientType
  | none
  | trader
  | market
  deriving DecidableEq, Repr

/-- `struct ClientConnection`, less the peer's address, which is only printed. -/
structure ClientConnection where
  /-- `none` is `NULL`; else `outbuf[0 .. outlen)` -/
  outbuf : Option Bytes
  /-- `inbuf[0 .. inlen)` -/
  inbuf : Bytes
  scanned : Nat
  clientFd : Nat
  type : ClientType
  loggedIn : Bool
  discarding : Bool
  closing : Bool
  subscribedJNST : Bool
  subscribedIMCT : Bool
  username : Bytes
  /-- Which connection this is: descriptors are reused, these numbers are not; no code reads
  it. -/
  serial : Nat
  deriving DecidableEq, Repr

namespace ClientConnection

/-- What `calloc` and `registerClient` leave. -/
def fresh (clientFd serial : Nat) : ClientConnection :=
  { outbuf := .none, inbuf := [], scanned := 0, clientFd := clientFd, type := .none
    loggedIn := false, discarding := false, closing := false, subscribedJNST := false
    subscribedIMCT := false, username := [], serial := serial }

/-- The bytes waiting to be written. -/
def pending (c : ClientConnection) : Bytes := c.outbuf.getD []

def outlen (c : ClientConnection) : Nat := c.pending.length

def inlen (c : ClientConnection) : Nat := c.inbuf.length

end ClientConnection

/-! ## 3. The kernel's side -/

/-- What one call of `write` returns. -/
inductive WriteResult
  /-- success, for so many bytes -/
  | took (n : Nat)
  | eintr
  /-- `EAGAIN` or `EWOULDBLOCK` -/
  | eagain
  /-- any other error -/
  | error
  deriving DecidableEq, Repr

/-- A successful `write` takes at least one of the bytes it is given. -/
def taken (n len : Nat) : Nat := min len (max 1 n)

/-- The answers a connection's calls will get: its `write`s, and its `malloc`s of an output
buffer. -/
structure SockEnv where
  writes : List WriteResult
  mallocs : List Bool
  deriving DecidableEq, Repr

/-- What is left of a `write` repeated while it is interrupted. -/
inductive Attempt
  | took (n : Nat)
  | again
  | failed
  deriving DecidableEq, Repr

/-- `do … while (written == -1 && errno == EINTR)` on `len` bytes. -/
def writeRetry (len : Nat) : List WriteResult → Attempt × List WriteResult
  | [] => (.again, [])
  | .eintr :: rs => writeRetry len rs
  | .took n :: rs => (.took (taken n len), rs)
  | .eagain :: rs => (.again, rs)
  | .error :: rs => (.failed, rs)

/-- `malloc(OUTBUF_SIZE)`; a list that has run out stands for success. -/
def mallocResult : List Bool → Bool × List Bool
  | [] => (true, [])
  | ok :: rs => (ok, rs)

/-! ## 4. `sendToClient` -/

/-- What a call of `sendToClient` or `flushToClient` leaves: the connection, the answers still
to come, the bytes the socket took, and the returned flag. -/
structure Sent where
  conn : ClientConnection
  env : SockEnv
  wrote : Bytes
  failed : Bool

/-- The second half of `sendToClient`: what was not written at once is queued. -/
def queueRest (env : SockEnv) (conn : ClientConnection) (wrote rest : Bytes) : Sent :=
  if rest.length = 0 then { conn := conn, env := env, wrote := wrote, failed := false }
  else
    let m := if conn.outbuf = none then mallocResult env.mallocs else (true, env.mallocs)
    let env := { env with mallocs := m.2 }
    if m.1 = false then { conn := conn, env := env, wrote := wrote, failed := true }
    else
      let conn := { conn with outbuf := some conn.pending }
      if conn.outlen + rest.length > outbufSize then
        { conn := conn, env := env, wrote := wrote, failed := true }
      else
        { conn := { conn with outbuf := some (conn.pending ++ rest) }, env := env
          wrote := wrote, failed := false }

def sendToClient (env : SockEnv) (conn : ClientConnection) (data : Bytes) : Sent :=
  if conn.outlen = 0 then
    let r := writeRetry data.length env.writes
    let env := { env with writes := r.2 }
    match r.1 with
    | .failed => { conn := conn, env := env, wrote := [], failed := true }
    | .again => queueRest env conn [] data
    | .took n => queueRest env conn (data.take n) (data.drop n)
  else queueRest env conn [] data

/-! ## 5. `flushToClient` -/

/-- The loop, over the `write` results to come. -/
def flushLoop (conn : ClientConnection) (wrote : Bytes) (mallocs : List Bool) :
    List WriteResult → Sent
  | [] =>
    { conn := conn, env := { writes := [], mallocs := mallocs }, wrote := wrote
      failed := if conn.outlen = 0 then conn.closing else false }
  | r :: rs =>
    if conn.outlen = 0 then
      { conn := conn, env := { writes := r :: rs, mallocs := mallocs }, wrote := wrote
        failed := conn.closing }
    else
      match r with
      | .eintr => flushLoop conn wrote mallocs rs
      | .eagain =>
        { conn := conn, env := { writes := rs, mallocs := mallocs }, wrote := wrote
          failed := false }
      | .error =>
        { conn := conn, env := { writes := rs, mallocs := mallocs }, wrote := wrote
          failed := true }
      | .took n =>
        let k := taken n conn.outlen
        flushLoop { conn with outbuf := some (conn.pending.drop k) }
          (wrote ++ conn.pending.take k) mallocs rs

def flushToClient (env : SockEnv) (conn : ClientConnection) : Sent :=
  flushLoop conn [] env.mallocs env.writes

/-! ## 6. What the output functions touch -/

/-- A connection without its output queue. -/
def ClientConnection.bare (c : ClientConnection) : ClientConnection := { c with outbuf := none }

/-- A connection without the fields commands and the output functions change. -/
def ClientConnection.fixed (c : ClientConnection) : ClientConnection :=
  { c with outbuf := none, type := .none, loggedIn := false, closing := false
           subscribedJNST := false, subscribedIMCT := false, username := [] }

theorem queueRest_bare (env : SockEnv) (conn : ClientConnection) (wrote rest : Bytes) :
    (queueRest env conn wrote rest).conn.bare = conn.bare := by
  unfold queueRest
  dsimp only
  split
  · rfl
  · generalize (if conn.outbuf = none then mallocResult env.mallocs else (true, env.mallocs)) = m
    split
    · rfl
    · split <;> rfl

@[simp] theorem sendToClient_bare (env : SockEnv) (conn : ClientConnection) (data : Bytes) :
    (sendToClient env conn data).conn.bare = conn.bare := by
  unfold sendToClient
  split
  · dsimp only
    split
    · rfl
    · exact queueRest_bare _ _ _ _
    · exact queueRest_bare _ _ _ _
  · exact queueRest_bare _ _ _ _

theorem flushLoop_bare (mallocs : List Bool) : ∀ (rs : List WriteResult)
    (conn : ClientConnection) (wrote : Bytes),
    (flushLoop conn wrote mallocs rs).conn.bare = conn.bare
  | [], _, _ => rfl
  | r :: rs, conn, wrote => by
    unfold flushLoop
    split
    · rfl
    · cases r with
      | eintr => exact flushLoop_bare mallocs rs conn wrote
      | eagain => rfl
      | error => rfl
      | took n => exact flushLoop_bare mallocs rs _ _

@[simp] theorem flushToClient_bare (env : SockEnv) (conn : ClientConnection) :
    (flushToClient env conn).conn.bare = conn.bare := flushLoop_bare _ _ _ _

end SocketExchange
