/-
# The commands: `commands.c`

One function for each command of the source, under its name.  `self` is the descriptor of the
client whose line is being handled, where the source passes its connection; the flag is the
returned one, which tells the caller to remove that client.

The three messages of an execution go through `reportFill`, one turn of the loop in
`placeOrder`.
-/
import SocketExchange.World

namespace SocketExchange

open CText

/-! ## 1. Logging in, subscribing, leaving -/

/-- `conns[i] != NULL && conns[i]->logged_in && strcmp(conns[i]->username, username) == 0` -/
def usesName (username : Bytes) : Option ClientConnection → Bool
  | none => false
  | some c => c.loggedIn && c.username == username

def loginUser (username : Bytes) (self : Nat) (w : World) : World × Bool :=
  if (w.conn self).type = .market then
    replyError self (lit "Market data clients cannot log in") w
  else if (w.conn self).loggedIn then replyError self (lit "Already logged in") w
  else if w.conns.any (usesName username) then
    replyError self (lit "Username already in use") w
  else
    reply self (lit "OK\n") (w.modify self fun c =>
      { c with type := .trader, username := username.take (usernameLength - 1)
               loggedIn := true })

/-- The two comparisons every command with an instrument makes. -/
def instrumentOf (instrument : Bytes) : Option Instrument :=
  if instrument = lit "JNST" then some .jnst
  else if instrument = lit "IMCT" then some .imct
  else none

/-- The flag of a subscription. -/
def ClientConnection.subscribed (c : ClientConnection) : Instrument → Bool
  | .jnst => c.subscribedJNST
  | .imct => c.subscribedIMCT

def ClientConnection.setSubscribed (c : ClientConnection) (b : Bool) :
    Instrument → ClientConnection
  | .jnst => { c with subscribedJNST := b }
  | .imct => { c with subscribedIMCT := b }

/-- `"JNST"` or `"IMCT"` -/
def instrumentName : Instrument → Bytes
  | .jnst => lit "JNST"
  | .imct => lit "IMCT"

def subscribeClient (instrument : Bytes) (self : Nat) (w : World) : World × Bool :=
  if (w.conn self).type = .trader then
    replyError self (lit "Traders cannot subscribe to market data") w
  else
    match instrumentOf instrument with
    | none => replyError self (lit "Invalid instrument") w
    | some inst =>
      if (w.conn self).subscribed inst then
        replyError self (lit "Already subscribed to " ++ instrumentName inst) w
      else
        reply self (lit "OK\n") (w.modify self fun c =>
          { c.setSubscribed true inst with type := .market })

def quitUser (self : Nat) (w : World) : World × Bool :=
  let r := reply self (lit "OK\n") (w.modify self fun c => { c with closing := true })
  (r.1, r.2 || (r.1.conn self).outlen == 0)

def unsubscribeClient (instrument : Bytes) (self : Nat) (w : World) : World × Bool :=
  if (w.conn self).type = .trader then
    replyError self (lit "Traders cannot unsubscribe from market data") w
  else
    match instrumentOf instrument with
    | none => replyError self (lit "Invalid instrument") w
    | some inst =>
      if (w.conn self).subscribed inst then
        reply self (lit "OK\n") (w.modify self fun c => c.setSubscribed false inst)
      else replyError self (lit "Not subscribed to " ++ instrumentName inst) w

/-! ## 2. Orders -/

/-- `*done` after a notification; `about` is noted only. -/
def notifyClient (clientFd : Int) (about : Nat) (msg : Bytes) (self : Nat) (s : World × Bool) :
    World × Bool :=
  if clientFd < 0 ∨ clientFd ≥ s.1.currCap ∨ s.1.slot clientFd.toNat = none then s
  else
    let r := sendLine { self := self, about := some about } clientFd.toNat msg s.1
    (r.1, if clientFd = (r.1.conn self).clientFd ∧ r.2 = true then true else s.2)

/-- `"<verb> <instrument> <quantity> <price>\n"`, as `snprintf` leaves it in `msg`. -/
def fillText (verb : Bytes) (fill : Fill) : Bytes :=
  snprintf 128 (verb ++ lit " " ++ instrumentName fill.instrument ++ lit " "
    ++ decimalInt fill.quantity ++ lit " " ++ decimalInt fill.price ++ lit "\n")

/-- `sub != NULL`, of type `market` and subscribed to the instrument. -/
def wantsTrades (inst : Instrument) : Option ClientConnection → Bool
  | none => false
  | some sub => sub.type == .market && sub.subscribed inst

/-- One turn of the loop over `conns` that sends `TRADE`. -/
def tradeTo (fill : Fill) (self : Nat) (w : World) (j : Nat) : World :=
  if wantsTrades fill.instrument (w.slot j) then
    (sendLine { self := self, about := none } j (fillText (lit "TRADE") fill) w).1
  else w

/-- One turn of the loop over `fills`. -/
def reportFill (self : Nat) (s : World × Bool) (fill : Fill) : World × Bool :=
  let s := notifyClient fill.buyClientFd fill.buyer (fillText (lit "BOUGHT") fill) self s
  let s := notifyClient fill.sellClientFd fill.seller (fillText (lit "SOLD") fill) self s
  ((List.range s.1.currCap).foldl (tradeTo fill self) s.1, s.2)

/-- `"ORDER_ACCEPTED <id>\n"` -/
def acceptedText (id : Int) : Bytes :=
  snprintf 128 (lit "ORDER_ACCEPTED " ++ decimalInt id ++ lit "\n")

/-- The part of `placeOrder` behind its checks: `ord` is the order filled in. -/
def acceptOrder (ord : Order) (self : Nat) (w : World) : World × Bool :=
  let s := reply self (acceptedText ord.id) { w with exchange := w.exchange.takeId ord }
  let r := addOrder s.1.exchange.orderbook ord s.1.heap
  let w := { s.1 with exchange := s.1.exchange.enter ord s.1.heap, heap := r.heap }
  r.fills.foldl (reportFill self) (w, s.2)

def placeOrder (side : OrderSide) (instrument : Bytes) (quantity price : Int) (self : Nat)
    (w : World) : World × Bool :=
  match instrumentOf instrument with
  | none => replyError self (lit "Invalid instrument") w
  | some inst =>
    if quantity ≤ 0 ∨ price ≤ 0 then
      replyError self (lit "Quantity and price must be positive") w
    else
      let a := alloc w.heap
      let w := { w with heap := a.2 }
      if a.1 = false then replyError self (lit "Internal server error") w
      else
        acceptOrder (w.exchange.newOrder side inst quantity price (w.conn self).clientFd
          (w.conn self).serial) self w

/-- `"ORDER_CANCELLED <id>\n"` -/
def cancelledText (id : Int) : Bytes :=
  snprintf 128 (lit "ORDER_CANCELLED " ++ decimalInt id ++ lit "\n")

/-- The number `strtol` reads, when it reads all of the text and the number is an order id. -/
def orderIdOf (orderIdStr : Bytes) : Option Int :=
  match numeral orderIdStr with
  | none => none
  | some (n, rest) =>
    let id := saturate64 n
    if rest ≠ [] ∨ id < 0 ∨ id > 2147483647 then none else some id

def cancelUserOrder (orderIdStr : Bytes) (self : Nat) (w : World) : World × Bool :=
  match orderIdOf orderIdStr with
  | none => replyError self (lit "Invalid order id") w
  | some id =>
    match w.exchange.cancel id (w.conn self).clientFd with
    | none => replyError self (lit "No such order") w
    | some r =>
      reply self (cancelledText id)
        ({ w with exchange := r.2 }.note (.cancelled (w.conn self).serial r.1))

end SocketExchange
