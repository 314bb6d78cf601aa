/-
# Lines in, connections out: `io.c`

`processLine` scans a line and picks the command, `communicate` reads from a socket and cuts
what it reads into lines, `removeClient` tears a connection down.

`inbuf` is the memory `inbuf[0 .. inlen)`.  The loop over the newlines of one read is
`lineLoop`; `consumed` and `search` are the source's variables, and its fuel is more than the
newlines a buffer can hold (`lineLoop` never runs out of it: the framing theorem).  A line is
handed over as the bytes in front of the NUL the loop has written behind it, and
`processLine` sees the C string that starts there.
-/
import SocketExchange.Commands

namespace SocketExchange

open CText

/-! ## 1. Removal -/

def removeClient (clientFd : Nat) (w : World) : World :=
  let w := { w with exchange := w.exchange.depart clientFd }
  let w :=
    match w.slot clientFd with
    | none => w
    | some conn => ({ w with conns := w.conns.set clientFd none }).note (.removed conn.serial)
  { w with opened := w.opened.filter fun fd => fd != clientFd }

/-! ## 2. One line -/

/-- What `sscanf(line, "%159s %159s %d %d", …)` leaves: how many conversions succeeded, and
their results (empty and 0 where none was stored). -/
structure Scanned where
  matched : Nat
  cmd : Bytes
  arg : Bytes
  quantity : Int
  price : Int
  deriving DecidableEq, Repr

def scanLine (line : Bytes) : Scanned :=
  match scanWord maxTokenLen line with
  | none => { matched := 0, cmd := [], arg := [], quantity := 0, price := 0 }
  | some (cmd, rest) =>
  match scanWord maxTokenLen rest with
  | none => { matched := 1, cmd := cmd, arg := [], quantity := 0, price := 0 }
  | some (arg, rest) =>
  match scanInt rest with
  | none => { matched := 2, cmd := cmd, arg := arg, quantity := 0, price := 0 }
  | some (quantity, rest) =>
  match scanInt rest with
  | none => { matched := 3, cmd := cmd, arg := arg, quantity := quantity, price := 0 }
  | some (price, _) =>
    { matched := 4, cmd := cmd, arg := arg, quantity := quantity, price := price }

/-- The commands, once the line is scanned. -/
def dispatchCommand (s : Scanned) (self : Nat) (w : World) : World × Bool :=
  if s.cmd.length > maxCmdLen then replyError self (lit "Unknown command") w
  else if s.cmd = lit "LOGIN" ∧ s.matched = 2 then
    if s.arg.length > usernameLength - 1 then replyError self (lit "Username too long") w
    else loginUser s.arg self w
  else if s.cmd = lit "SUBSCRIBE" ∧ s.matched = 2 then subscribeClient s.arg self w
  else if s.cmd = lit "QUIT" ∧ s.matched = 1 then quitUser self w
  else if s.cmd = lit "UNSUBSCRIBE" ∧ s.matched = 2 then unsubscribeClient s.arg self w
  else if (w.conn self).loggedIn = false then replyError self (lit "Not logged in") w
  else if s.cmd = lit "BUY" ∧ s.matched = 4 then
    placeOrder .buy s.arg s.quantity s.price self w
  else if s.cmd = lit "SELL" ∧ s.matched = 4 then
    placeOrder .sell s.arg s.quantity s.price self w
  else if s.cmd = lit "CANCEL" ∧ s.matched = 2 then cancelUserOrder s.arg self w
  else replyError self (lit "Unknown command") w

/-- The line is noted first. -/
def processLine (line : Bytes) (self : Nat) (w : World) : World × Bool :=
  let w := w.note (.line (w.conn self).serial line)
  let s := scanLine (cstr line)
  if s.matched < 1 then (w, false) else dispatchCommand s self w

/-! ## 3. `communicate` -/

/-- What one call of `read` finds: bytes (at most the space offered are returned, and the end
of the stream is an empty result), or an error. -/
inductive ReadResult
  | data (bytes : Bytes)
  | eintr
  /-- `EAGAIN` or `EWOULDBLOCK` -/
  | eagain
  /-- any other error -/
  | error
  deriving DecidableEq, Repr

/-- How the loop over the lines ends. -/
inductive LinesEnd
  /-- `return true` or `return false` -/
  | returned (done : Bool)
  /-- no newline is left -/
  | finished (consumed : Nat)
  deriving DecidableEq, Repr

/-- `memchr(self->inbuf + search, '\n', self->inlen - search)`, as an index into `inbuf`. -/
def findNewline (inbuf : Bytes) (search : Nat) : Option Nat :=
  ((inbuf.drop search).findIdx? fun b => b == 10).map (search + ·)

/-- The bytes of the line in front of the newline, with the writes of NUL in `inbuf`: one over
the newline, one over a carriage return before it. -/
def cutLine (inbuf : Bytes) (start newline : Nat) : Bytes × Bytes :=
  let inbuf := inbuf.set newline 0
  if start < newline ∧ inbuf[newline - 1]? = some 13 then
    ((inbuf.drop start).take (newline - start - 1), inbuf.set (newline - 1) 0)
  else ((inbuf.drop start).take (newline - start), inbuf)

/-- The loop over the newlines of `inbuf`. -/
def lineLoop (clientFd : Nat) : Nat → Nat → Nat → World → World × LinesEnd
  | 0, consumed, _, w => (w, .finished consumed)
  | fuel + 1, consumed, search, w =>
    match findNewline (w.conn clientFd).inbuf search with
    | none => (w, .finished consumed)
    | some newline =>
      if (w.conn clientFd).discarding then
        lineLoop clientFd fuel (newline + 1) (newline + 1)
          (w.modify clientFd fun c => { c with discarding := false })
      else
        let cut := cutLine (w.conn clientFd).inbuf consumed newline
        let r := processLine cut.1 clientFd (w.modify clientFd fun c => { c with inbuf := cut.2 })
        if r.2 then (r.1, .returned true)
        else if (r.1.conn clientFd).closing then (r.1, .returned false)
        else lineLoop clientFd fuel (newline + 1) (newline + 1) r.1

/-- `replyError(self, "Message too long")`, noted. -/
def rejectLine (clientFd : Nat) (w : World) : World × Bool :=
  replyError clientFd (lit "Message too long") (w.note (.tooLong (w.conn clientFd).serial))

/-- `inlen -= consumed`, the `memmove`, and `scanned = inlen`. -/
def shiftInput (consumed : Nat) (c : ClientConnection) : ClientConnection :=
  { c with inbuf := c.inbuf.drop consumed, scanned := (c.inbuf.drop consumed).length }

/-- What the buffer keeps behind the last line, or drops when it is full. -/
def compact (clientFd consumed : Nat) (w : World) : World × Bool :=
  let w := w.modify clientFd (shiftInput consumed)
  if (w.conn clientFd).inlen = inbufSize then
    if (w.conn clientFd).discarding then
      (w.modify clientFd fun c => { c with inbuf := [], scanned := 0 }, false)
    else
      let r := rejectLine clientFd w
      if r.2 then (r.1, true)
      else
        (r.1.modify clientFd fun c => { c with discarding := true, inbuf := [], scanned := 0 },
          false)
  else (w, false)

/-- A call of `read`, noted: nothing is brought by an error or by the end of the stream. -/
def noteRead (clientFd : Nat) (got : Bytes) (w : World) : World :=
  w.note (.read (w.conn clientFd).serial (inbufSize - (w.conn clientFd).inlen) got)

/-- One turn of the loop over the reads: what one call of `read` brings is cut into lines and
handled.  `none` goes on with the loop, `some done` returns. -/
def readTurn (clientFd : Nat) (r : ReadResult) (w : World) : World × Option Bool :=
  match r with
  | .eintr => (noteRead clientFd [] w, none)
  | .eagain => (noteRead clientFd [] w, some false)
  | .error => (noteRead clientFd [] w, some true)
  | .data bytes =>
    let got := bytes.take (inbufSize - (w.conn clientFd).inlen)
    let w := noteRead clientFd got w
    if got = [] then (w, some true)
    else
      let w := w.modify clientFd fun c => { c with inbuf := c.inbuf ++ got }
      let r := lineLoop clientFd (inbufSize + 1) 0 (w.conn clientFd).scanned w
      match r.2 with
      | .returned done => (r.1, some done)
      | .finished consumed =>
        let s := compact clientFd consumed r.1
        (s.1, if s.2 then some true else none)

/-- The loop over the reads; a list that has run out stands for `EAGAIN`. -/
def readLoop (clientFd : Nat) : List ReadResult → World → World × Bool
  | [], w => (noteRead clientFd [] w, false)
  | r :: rs, w =>
    let t := readTurn clientFd r w
    match t.2 with
    | none => readLoop clientFd rs t.1
    | some done => (t.1, done)

def communicate (clientFd : Nat) (reads : List ReadResult) (w : World) : World × Bool :=
  if (w.conn clientFd).closing then (w, false) else readLoop clientFd reads w

end SocketExchange
