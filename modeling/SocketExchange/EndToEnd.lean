/-
# From one program to the other

Server and client are joined by a stream of bytes in either direction, and each end cuts what it
reads where it happens to come.

What the server sends is in section 2: the queue of `sendToClient` keeps the messages whole
(`Output.Intact`), the client prints the lines of what it has received (`Client.Heard`), and the
two meet in the stream the messages make, one line each.  What the client sends is in section 3:
it sends the lines it keeps of what is typed (`Client.Typed`), the server acts on the lines of
what it has read (`request_framing`), and they meet in the stream of the kept lines.
-/
import SocketExchange.Client
import SocketExchange.AfterQuit

namespace SocketExchange

open CText

/-! ## 1. Messages -/

/-- What the server says to a client. -/
inductive Message
  | ok
  | error (reason : Bytes)
  | accepted (id : Int)
  | cancelled (id : Int)
  | bought (fill : Fill)
  | sold (fill : Fill)
  | trade (fill : Fill)
  deriving DecidableEq, Repr

/-- A value of `int`. -/
def IsInt (n : Int) : Prop := -2 ^ 31 ≤ n ∧ n < 2 ^ 31

instance (n : Int) : Decidable (IsInt n) := by unfold IsInt; infer_instance

/-- `<verb> <instrument> <quantity> <price>` -/
def fillWords (verb : Bytes) (fill : Fill) : Bytes :=
  verb ++ lit " " ++ instrumentName fill.instrument ++ lit " " ++ decimalInt fill.quantity
    ++ lit " " ++ decimalInt fill.price

namespace Message

/-- The text of the call of `sendLine`. -/
def line : Message → Bytes
  | .ok => lit "OK\n"
  | .error reason => snprintf 64 (lit "ERROR " ++ reason ++ lit "\n")
  | .accepted id => acceptedText id
  | .cancelled id => cancelledText id
  | .bought fill => fillText (lit "BOUGHT") fill
  | .sold fill => fillText (lit "SOLD") fill
  | .trade fill => fillText (lit "TRADE") fill

/-- What `sendLine` passes on. -/
def bytes (m : Message) : Bytes := cstr m.line

/-- What a user is to read. -/
def text : Message → Bytes
  | .ok => lit "OK"
  | .error reason => lit "ERROR " ++ reason
  | .accepted id => lit "ORDER_ACCEPTED " ++ decimalInt id
  | .cancelled id => lit "ORDER_CANCELLED " ++ decimalInt id
  | .bought fill => fillWords (lit "BOUGHT") fill
  | .sold fill => fillWords (lit "SOLD") fill
  | .trade fill => fillWords (lit "TRADE") fill

/-- The reason is one the server uses, and a number is a value of `int`. -/
def Proper : Message → Prop
  | .ok => True
  | .error reason => reason ∈ reasons
  | .accepted id => IsInt id
  | .cancelled id => IsInt id
  | .bought fill => IsInt fill.quantity ∧ IsInt fill.price
  | .sold fill => IsInt fill.quantity ∧ IsInt fill.price
  | .trade fill => IsInt fill.quantity ∧ IsInt fill.price

instance (m : Message) : Decidable m.Proper := by
  cases m <;> unfold Proper <;> infer_instance

/-- No message is cut off. -/
theorem line_eq {m : Message} (h : m.Proper) : m.line = m.text ++ [10] := by
  cases m with
  | ok => decide
  | error reason => exact errorText_eq h
  | accepted id => exact acceptedText_eq h
  | cancelled id => exact cancelledText_eq h
  | bought fill => exact fillText_eq (by decide) h.1 h.2
  | sold fill => exact fillText_eq (by decide) h.1 h.2
  | trade fill => exact fillText_eq (by decide) h.1 h.2

theorem printable_name (inst : Instrument) : Printable (instrumentName inst) := by
  cases inst <;> decide

theorem printable_fillWords {verb : Bytes} (hv : Printable verb) (fill : Fill) :
    Printable (fillWords verb fill) := by
  have hs : Printable (lit " ") := by decide
  exact (((((hv.append hs).append (printable_name _)).append hs).append
    (printable_decimalInt _)).append hs).append (printable_decimalInt _)

theorem printable_text {m : Message} (h : m.Proper) : Printable m.text := by
  cases m with
  | ok => decide
  | error reason =>
    have hreasons : ∀ r ∈ reasons, Printable r := by decide +kernel
    have hverb : Printable (lit "ERROR ") := by decide
    exact hverb.append (hreasons reason h)
  | accepted id =>
    have hverb : Printable (lit "ORDER_ACCEPTED ") := by decide
    exact hverb.append (printable_decimalInt id)
  | cancelled id =>
    have hverb : Printable (lit "ORDER_CANCELLED ") := by decide
    exact hverb.append (printable_decimalInt id)
  | bought fill => exact printable_fillWords (by decide) fill
  | sold fill => exact printable_fillWords (by decide) fill
  | trade fill => exact printable_fillWords (by decide) fill

theorem length_fillWords {verb : Bytes} (hv : verb.length ≤ 6) {fill : Fill}
    (h : IsInt fill.quantity ∧ IsInt fill.price) :
    (fillWords verb fill).length + 1 < recvbufSize := by
  have h1 := length_decimalInt_le h.1.1 h.1.2
  have h2 := length_decimalInt_le h.2.1 h.2.2
  have hs : (lit " ").length = 1 := by decide
  have hsize : recvbufSize = 128 := rfl
  unfold fillWords
  simp only [List.length_append, length_instrumentName, hs]
  omega

/-- With its newline a message is shorter than the client's buffer. -/
theorem length_text {m : Message} (h : m.Proper) : m.text.length + 1 < recvbufSize := by
  have hsize : recvbufSize = 128 := rfl
  cases m with
  | ok => decide
  | error reason =>
    have hreasons : ∀ r ∈ reasons, (lit "ERROR " ++ r).length + 1 < recvbufSize := by decide +kernel
    exact hreasons reason h
  | accepted id =>
    have hverb : (lit "ORDER_ACCEPTED ").length = 15 := by decide
    have hid := length_decimalInt_le h.1 h.2
    rw [text, List.length_append]
    omega
  | cancelled id =>
    have hverb : (lit "ORDER_CANCELLED ").length = 16 := by decide
    have hid := length_decimalInt_le h.1 h.2
    rw [text, List.length_append]
    omega
  | bought fill => exact length_fillWords (by decide) h
  | sold fill => exact length_fillWords (by decide) h
  | trade fill => exact length_fillWords (by decide) h

/-- The client prints a message as it is. -/
theorem printed_text {m : Message} (h : m.Proper) : Client.printed m.text = m.text := by
  have hprint := printable_text h
  unfold Client.printed stripReturn
  rw [if_neg fun hlast => hprint.not_mem (by decide) (List.mem_of_getLast? hlast)]
  exact cstr_of_not_mem (hprint.not_mem (by decide))

theorem bytes_eq {m : Message} (h : m.Proper) : m.bytes = m.text ++ [10] := by
  unfold bytes
  rw [line_eq h, cstr_append ((printable_text h).not_mem (by decide))]
  rfl

/-- A sequence of messages is a sequence of lines. -/
theorem flatten_bytes {messages : List Message} (h : ∀ m ∈ messages, m.Proper) :
    (messages.map bytes).flatten = Framing.joined 10 (messages.map text) := by
  unfold Framing.joined
  rw [List.flatMap_def, List.map_map]
  exact congrArg List.flatten (List.map_congr_left fun m hm => bytes_eq (h m hm))

end Message

/-! ## 2. From the server to a client -/

/-- **A client that is sent messages prints their texts**: of those that have come whole, once
each and in order.  None of them fills its buffer. -/
theorem Client.Heard.told {c : Client} (h : c.Heard) {messages : List Message}
    (hproper : ∀ m ∈ messages, m.Proper)
    (hstream : c.received <+: (messages.map Message.bytes).flatten) :
    Client.overlong ∉ c.shown ∧ ∃ done rest, messages = done ++ rest ∧
      Client.responses c.shown = done.map Message.text ∧
      c.received = (done.map Message.bytes).flatten ++ c.recvbuf := by
  have hlines : ∀ l ∈ messages.map Message.text, 10 ∉ l := by
    intro l hl
    obtain ⟨m, hm, rfl⟩ := List.mem_map.mp hl
    exact (Message.printable_text (hproper m hm)).not_mem (by decide)
  -- both ends of the stream are cut at the same newlines
  rw [Message.flatten_bytes hproper] at hstream
  obtain ⟨done, rest, tail, hmap, hreceived, htail, hnext⟩ :=
    Framing.prefix_joined hlines hstream
  obtain ⟨done, rest, rfl, rfl, rfl⟩ := List.map_eq_append_iff.mp hmap
  obtain ⟨lines, hcut, hno, hshown⟩ := h.lines
  have hdone : ∀ m ∈ done, m.Proper := fun m hm => hproper m (List.mem_append_left _ hm)
  obtain ⟨rfl, rfl⟩ := Framing.joined_inj
    (fun l hl => hlines l (by rw [List.map_append]; exact List.mem_append_left _ hl)) hno htail
    h.unended (hreceived.symm.trans hcut)
  refine ⟨fun hmem => ?_, done, rest, rfl, ?_, ?_⟩
  · -- what waits is less than a message
    obtain ⟨hfull, -⟩ := h.full hmem
    rcases hnext with hnil | ⟨l, hl, hle⟩
    · rw [hnil] at hfull
      exact absurd hfull (by decide)
    · obtain ⟨m, hm, rfl⟩ := List.mem_map.mp hl
      have hshort := Message.length_text (hproper m (List.mem_append_right _ hm))
      have := hle.length_le
      omega
  · rw [hshown, List.map_map]
    exact List.map_congr_left fun m hm => Message.printed_text (hdone m hm)
  · rw [Message.flatten_bytes hdone]
    exact hreceived

/-- **What the server queues is what the client prints.**  The sends and flushes on a connection
may be answered in any way, as long as a message that is not taken leaves nothing at the socket;
`messages` are those that were taken.  The client's polls may come in any order and its reads
bring any pieces of what the socket accepted, in order.  Then the client has printed, once each
and in order, the texts of a first part of the messages, all but less than a line of what it has
received, and has not called any of them over-long. -/
theorem response_framing {conn : ClientConnection} (hconn : conn.outbuf = none)
    {calls : List OutputCall} (hcalls : Run.Meets Output.step Output.Clean (.start conn) calls)
    {messages : List Message} (hproper : ∀ m ∈ messages, m.Proper)
    (hsent : (Run.run Output.step (.start conn) calls).sent = messages.map Message.bytes)
    (polls : List Client.Poll)
    (hstream : (Run.run Client.turn .start polls).received
      <+: (Run.run Output.step (.start conn) calls).accepted) :
    let c := Run.run Client.turn .start polls
    Client.overlong ∉ c.shown ∧ ∃ done rest, messages = done ++ rest ∧
      Client.responses c.shown = done.map Message.text ∧
      c.received = (done.map Message.bytes).flatten ++ c.recvbuf ∧ 10 ∉ c.recvbuf := by
  intro c
  have hintact : (Run.run Output.step (.start conn) calls).Intact := by
    have hstep : ∀ (o : Output) (call : OutputCall), o.Intact → o.Clean call →
        (o.step call).Intact := fun o call ho hcall => ho.step hcall
    exact Run.run_invariant_of_meets hstep calls _ hcalls (Output.intact_start hconn)
  have hprefix : c.received <+: (messages.map Message.bytes).flatten := by
    rw [← hsent, ← hintact.stream]
    exact hstream.trans (List.prefix_append _ _)
  obtain ⟨hroom, done, rest, heq, hshown, hreceived⟩ :=
    (Client.heard_run polls).told hproper hprefix
  exact ⟨hroom, done, rest, heq, hshown, hreceived, (Client.heard_run polls).unended⟩

/-- An acknowledgement that is written in two parts and read in three, and the start of a
message behind it. -/
theorem response_framing_pieces :
    let fill : Fill := { price := -7, quantity := 2147483647, buyClientFd := 5, sellClientFd := 6
                         instrument := .imct, buyer := 0, seller := 1 }
    let messages : List Message := [.accepted (-2147483648), .sold fill]
    let calls : List OutputCall :=
      [ .send { writes := [.eintr, .took 9], mallocs := [] }
          (Message.bytes (.accepted (-2147483648))),
        .send { writes := [.took 99], mallocs := [] } (Message.bytes (.sold fill)),
        .flush { writes := [.took 20, .eagain], mallocs := [] } ]
    let polls : List Client.Poll :=
      [ .ready (some (.data (lit "ORDER_ACCEPTED -2"))) none [], .interrupted,
        .ready (some (.data (lit "14748"))) none [],
        .ready (some (.data (lit "3648\nSO"))) none [] ]
    let c := Run.run Client.turn .start polls
    (Run.run Output.step (.start (.fresh 5 0)) calls).accepted = c.received ∧
      Client.responses c.shown = [lit "ORDER_ACCEPTED -2147483648"] ∧ c.recvbuf = lit "SO" ∧
      ∃ done rest, messages = done ++ rest ∧ Client.responses c.shown = done.map Message.text ∧
        c.received = (done.map Message.bytes).flatten ++ c.recvbuf ∧ 10 ∉ c.recvbuf := by
  intro fill messages calls polls c
  have h := @response_framing (.fresh 5 0) rfl calls (by decide +kernel) messages (by decide)
    (by decide +kernel) polls (by decide +kernel)
  exact ⟨by decide +kernel, by decide +kernel, by decide +kernel, h.2⟩

/-- The line of the message that is handed over. -/
def Speaks (x : Handed) : Prop := ∃ m : Message, m.Proper ∧ x.msg = m.line

theorem isInt_fill {book : LimitOrderBook} {ord : Order} {heap : List Bool} {f : Fill}
    (hf : f ∈ (addOrder book ord heap).fills)
    (hbook : ∀ o ∈ book.orders,
      (0 < o.quantity ∧ o.quantity < 2 ^ 31) ∧ 0 < o.price ∧ o.price < 2 ^ 31) :
    IsInt f.quantity ∧ IsInt f.price := by
  obtain ⟨cur, hcur, qty, rfl, hle, hpos⟩ := addOrder_fill hf
  obtain ⟨hq, hp⟩ := hbook cur hcur
  have hfill : (fillOf ord cur qty).quantity = qty ∧ (fillOf ord cur qty).price = cur.price := by
    unfold fillOf
    split <;> exact ⟨rfl, rfl⟩
  rw [hfill.1, hfill.2]
  unfold IsInt
  omega

/-- **What a line sends are messages.** -/
theorem Answer.speaks {self : Nat} {w w' : World} {r : Response} (h : Answer self w r w')
    (hw : InInts w.exchange) :
    ∃ new, w'.trace = w.trace ++ new ∧ ∀ x, .handed x ∈ new → Speaks x := by
  -- one reply
  have hone : ∀ {m : Message}, m.Proper → ∀ {x y : Handed}, y.msg = m.line →
      .handed x ∈ [Obs.handed y] → Speaks x := by
    intro m hm x y hy hx
    cases List.mem_singleton.mp hx
    exact ⟨m, hm, hy⟩
  cases h with
  | @error heap reason h => exact ⟨_, rfl, fun x => hone (m := .error reason) h rfl⟩
  | loggedIn hlen hrole hout hfree => exact ⟨_, rfl, fun x => hone (m := .ok) trivial rfl⟩
  | subscribed inst hrole => exact ⟨_, rfl, fun x => hone (m := .ok) trivial rfl⟩
  | unsubscribed inst hrole hsub => exact ⟨_, rfl, fun x => hone (m := .ok) trivial rfl⟩
  | quit => exact ⟨_, rfl, fun x => hone (m := .ok) trivial rfl⟩
  | @accepted heap side inst quantity price hq hp hin ord hord =>
    obtain ⟨hs, htrace, hwhat⟩ := acceptOrder_trace ord self { w with heap := heap }
    refine ⟨_, htrace, fun x hx => ?_⟩
    obtain ⟨y, hy, hyx⟩ := List.mem_map.mp hx
    cases hyx
    have hmem : x.what ∈ hs.map Handed.what := List.mem_map_of_mem hy
    rw [hwhat] at hmem
    obtain ⟨d, hd, hdx⟩ := List.mem_map.mp hmem
    simp only [Handed.what, Prod.mk.injEq] at hdx
    obtain ⟨-, -, -, hmsg⟩ := hdx
    rw [Speaks, ← hmsg]
    rcases List.mem_cons.mp hd with rfl | hd
    · refine ⟨.accepted ord.id, ?_, rfl⟩
      rw [hord]
      exact hw.nextId
    · obtain ⟨fill, hfill, ⟨-, hm⟩ | ⟨-, hm⟩ | ⟨-, hm, -⟩⟩ := deliveries_kind hd
      · exact ⟨.bought fill, isInt_fill hfill hw.orders, hm⟩
      · exact ⟨.sold fill, isInt_fill hfill hw.orders, hm⟩
      · exact ⟨.trade fill, isInt_fill hfill hw.orders, hm⟩
  | @cancelled id r hin hid h =>
    refine ⟨_, List.append_assoc _ _ _, fun x hx => ?_⟩
    rcases List.mem_cons.mp hx with hx | hx
    · cases hx
    · exact hone (m := .cancelled id) ⟨by omega, hid.2⟩ rfl hx

theorem speaks_act {w : World} (hw : Reachable w) (a : Act) {x : Handed}
    (hx : .handed x ∈ (act w a).trace) : .handed x ∈ w.trace ∨ Speaks x := by
  have hints := inInts_of_reachable hw
  obtain ⟨front, back, htrace, htold⟩ := told_act (owned_of_reachable hw).housed a
  rw [htrace, List.mem_append, List.mem_append] at hx
  rcases hx with hx | hx | hx
  · exact .inl hx
  · have hx' : .handed x ∈ (act w a).trace := by
      rw [htrace]
      exact List.mem_append_right _ (List.mem_append_left _ hx)
    obtain ⟨fd, ca, c, rfl, hin, hc, -⟩ := htold.caused x hx
    simp only [act, hc] at hx'
    cases ca with
    | received got => exact .inl (by simpa [serve] using hx')
    | command line =>
      replace hx' := handed_of_removeIfDone hx'
      by_cases hblank : ∀ b ∈ cstr line, isSpace b = true
      · rw [processLine_blank hblank] at hx'
        exact .inl (by simpa using hx')
      · obtain ⟨r, hans⟩ := processLine_answer hblank fd w
        obtain ⟨new, hnew, hspeaks⟩ := hans.speaks hints
        rw [hnew, List.mem_append] at hx'
        rcases hx' with hx' | hx'
        · exact .inl (by simpa using hx')
        · exact .inr (hspeaks x hx')
    | overlong =>
      replace hx' := handed_of_removeIfDone hx'
      have hlast : (rejectLine fd w).1.trace
          = w.trace ++ [.tooLong (w.conn fd).serial, .handed (handedOf { self := fd, about := none }
              fd (Message.line (.error (lit "Message too long")))
              (w.note (.tooLong (w.conn fd).serial)))] := List.append_assoc _ [_] [_]
      rw [hlast, List.mem_append] at hx'
      refine hx'.imp_right fun hx' => ?_
      rcases List.mem_cons.mp hx' with hx' | hx'
      · cases hx'
      · cases List.mem_singleton.mp hx'
        exact ⟨.error (lit "Message too long"), by decide +kernel, rfl⟩
    | applied | buffered f | flush | drop => cases hin
  · obtain ⟨k, hk, -⟩ := htold.removed _ hx
    cases hk

/-- **Whatever the server sends is a message.** -/
theorem speaks_of_reachable {w : World} (hw : Reachable w) {x : Handed}
    (hx : .handed x ∈ w.trace) : Speaks x := by
  have hinit : ∀ serverFd others, Reachable (.init serverFd others) ∧
      ∀ y, .handed y ∈ (World.init serverFd others).trace → Speaks y := fun serverFd others =>
    ⟨⟨serverFd, others, [], rfl⟩, by simp [World.init]⟩
  have hstep : ∀ v a, (Reachable v ∧ ∀ y, .handed y ∈ v.trace → Speaks y) →
      Reachable (act v a) ∧ ∀ y, .handed y ∈ (act v a).trace → Speaks y := fun v a hv =>
    ⟨hv.1.steps (Steps.one (P := Any) v a trivial),
      fun y hy => (speaks_act hv.1 a hy).elim (hv.2 y) id⟩
  exact (hw.invariant hinit hstep).2 x hx

/-- What a connection was handed are messages, and while none has failed its stream is their
bytes. -/
theorem messages_of_handed {w : World} (hw : Reachable w) {k : Nat}
    (hall : ∀ x ∈ handedTo k w.trace, x.failed = false) : ∃ messages : List Message,
      (∀ m ∈ messages, m.Proper) ∧
        (handedTo k w.trace).map Handed.msg = messages.map Message.line ∧
        (handedTo k w.trace).flatMap Handed.part = (messages.map Message.bytes).flatten := by
  have hspeaks : ∀ xs : List Handed, (∀ x ∈ xs, Speaks x ∧ x.failed = false) →
      ∃ messages : List Message, (∀ m ∈ messages, m.Proper) ∧
        xs.map Handed.msg = messages.map Message.line ∧
        xs.flatMap Handed.part = (messages.map Message.bytes).flatten := by
    intro xs
    induction xs with
    | nil => exact fun _ => ⟨[], by simp, rfl, rfl⟩
    | cons x xs ih =>
      intro h
      obtain ⟨⟨m, hm, hmsg⟩, hok⟩ := h x List.mem_cons_self
      obtain ⟨messages, hproper, hmap, hflat⟩ := ih fun y hy => h y (List.mem_cons_of_mem _ hy)
      refine ⟨m :: messages, List.forall_mem_cons.mpr ⟨hm, hproper⟩, ?_, ?_⟩
      · rw [List.map_cons, List.map_cons, hmsg, hmap]
      · rw [List.flatMap_cons, hflat, Handed.part, hok, hmsg]
        rfl
  exact hspeaks (handedTo k w.trace) fun x hx =>
    ⟨speaks_of_reachable hw (mem_handedTo hx).1, hall x hx⟩

/-- **A client of the server prints what it was handed**: while no message to it has failed, the
texts of a first part of them, in order, and all but less than a line of what it has read. -/
theorem Client.Heard.told_by_server {client : Client} (h : client.Heard) {w : World}
    (hw : Reachable w) {fd : Nat} {c : ClientConnection} (hc : w.slot fd = some c)
    (hall : ∀ x ∈ handedTo c.serial w.trace, x.failed = false)
    (hstream : client.received <+: writtenTo c.serial w.trace) :
    Client.overlong ∉ client.shown ∧ ∃ done rest : List Message,
      (∀ m ∈ done ++ rest, m.Proper) ∧
      (handedTo c.serial w.trace).map Handed.msg = (done ++ rest).map Message.line ∧
      Client.responses client.shown = done.map Message.text ∧
      client.received = (done.map Message.bytes).flatten ++ client.recvbuf ∧
      writtenTo c.serial w.trace ++ c.pending = ((done ++ rest).map Message.bytes).flatten := by
  obtain ⟨messages, hproper, hmap, hflat⟩ := messages_of_handed hw hall
  have hwritten := (streamed_of_reachable hw).stream fd c hc
  rw [hflat] at hwritten
  have hprefix : client.received <+: (messages.map Message.bytes).flatten :=
    hwritten ▸ hstream.trans (List.prefix_append _ _)
  obtain ⟨hroom, done, rest, rfl, hshown, hreceived⟩ := h.told hproper hprefix
  exact ⟨hroom, done, rest, hproper, hmap, hshown, hreceived, hwritten⟩

/-! ## 3. From a client to the server -/

/-- The lines of what is typed, without the newlines; what is behind the last one is no line. -/
def typedLines (typed : Bytes) : List Bytes := (typed.splitOn 10).dropLast

/-- A line that is neither empty nor too long for the client. -/
def isKept (line : Bytes) : Bool := line ≠ [] ∧ line.length < bufferSize

/-- What the server does about a line that is typed. -/
def typedAction (line : Bytes) : Option Action :=
  if line.length = 0 then none
  else if line.length ≤ 159 then some (.line (stripReturn line))
  else if line.length ≤ 1023 then some .tooLong
  else none

/-- **What is typed asks for.** -/
def typedRequests (typed : Bytes) : List Action :=
  Framing.through Action.quits ((typedLines typed).filterMap typedAction)

theorem typedLine_unended {typed line : Bytes} (h : line ∈ typedLines typed) : 10 ∉ line := by
  obtain ⟨lines, tail, rfl, hlines, htail⟩ : ∃ lines tail, typed = Framing.joined 10 lines ++ tail ∧
      (∀ l ∈ lines, 10 ∉ l) ∧ 10 ∉ tail := Framing.exists_joined typed
  rw [typedLines, Framing.splitOn_joined hlines htail, List.dropLast_concat] at h
  exact hlines line h

/-- The lines the client keeps. -/
theorem keptLines_frames (typed : Bytes) :
    Client.keptLines (Framing.frames 10 bufferSize typed) = (typedLines typed).filter isKept := by
  have hrest : ∀ rest : Bytes, Client.keptLines (Framing.unclosed bufferSize rest) = [] := by
    intro rest
    unfold Framing.unclosed
    split <;> rfl
  unfold Framing.frames
  rw [Client.keptLines_append, hrest, List.append_nil, Client.keptLines, List.filterMap_map,
    ← List.filterMap_eq_filter, typedLines]
  refine List.filterMap_congr fun line _ => ?_
  unfold isKept Option.guard
  rw [Function.comp_apply, Framing.closed]
  by_cases hnil : line = []
  · rw [hnil]
    rfl
  · by_cases hlen : line.length < bufferSize <;> simp [hlen, hnil]

/-- The two limits together. -/
theorem typedAction_eq (line : Bytes) :
    typedAction line
      = if isKept line then some (actionOf (Framing.closed inbufSize line)) else none := by
  have hsizes : inbufSize = 160 ∧ bufferSize = 1024 := ⟨rfl, rfl⟩
  have hnil : line = [] ↔ line.length = 0 := List.length_eq_zero_iff.symm
  unfold typedAction isKept Framing.closed
  simp only [ne_eq, hnil, hsizes, decide_eq_true_eq]
  split
  · rename_i h
    rw [if_neg fun h' => h'.1 h]
  · split
    · rw [if_pos (by omega), if_pos (by omega)]
      rfl
    · split
      · rw [if_pos (by omega), if_neg (by omega)]
        rfl
      · rw [if_neg (by omega)]

/-- What the server does about the lines that are kept. -/
theorem requests_kept (typed : Bytes) :
    requests (Framing.joined 10 ((typedLines typed).filter isKept)) = typedRequests typed := by
  have hlines : ∀ l ∈ (typedLines typed).filter isKept, 10 ∉ l := fun l hl =>
    typedLine_unended (List.mem_filter.mp hl).1
  unfold requests typedRequests
  rw [Framing.frames_joined inbufSize hlines (by decide), List.map_map]
  refine congrArg _ ?_
  rw [← List.filterMap_eq_map, ← List.filterMap_eq_filter, List.filterMap_filterMap]
  refine List.filterMap_congr fun line _ => ?_
  rw [typedAction_eq]
  by_cases hkept : isKept line = true <;> simp [Option.guard, hkept]

/-- What part of a stream asks for comes first. -/
theorem requests_prefix {got stream : Bytes} (h : got <+: stream) :
    requests got <+: requests stream := by
  obtain ⟨rest, rfl⟩ := h
  obtain ⟨frs, hfrs⟩ :
      Framing.frames 10 inbufSize got <+: Framing.frames 10 inbufSize (got ++ rest) :=
    Framing.frames_prefix (by decide) got rest
  unfold requests
  rw [← hfrs, List.map_append]
  exact Framing.through_prefix _ _ _

/-- Behind a `QUIT` nothing counts. -/
theorem requests_of_quit {got stream : Bytes} (h : got <+: stream)
    (hquit : ∃ a ∈ requests got, a.quits = true) : requests got = requests stream := by
  obtain ⟨rest, rfl⟩ := h
  obtain ⟨frs, hfrs⟩ :
      Framing.frames 10 inbufSize got <+: Framing.frames 10 inbufSize (got ++ rest) :=
    Framing.frames_prefix (by decide) got rest
  obtain ⟨a, ha, hstop⟩ := hquit
  unfold requests at ha ⊢
  rw [← hfrs, List.map_append]
  exact (Framing.through_of_stop ⟨a, Framing.mem_of_mem_through ha, hstop⟩ _).symm

/-- **What is typed is what the server does.**  The input may bring any bytes in any pieces, the
client's writes may be interrupted or short but do not fail, and the server's reads bring what was
sent in any pieces, among the events of others.  Then the client sends the lines that are neither
empty nor longer than 1023 bytes, each with its newline, and nothing else.  As long as no reply
fails, the server has acted on a first part of the typed lines, in order and up to `QUIT`: on all
of them once it has read what was sent, or has executed `QUIT`. -/
theorem command_framing (polls : List Client.Poll)
    (hwrites : ∀ p ∈ polls, Client.Succeed p.writes) (serverFd : Nat) (others : List Nat)
    (os : List Occurrence) (k : Nat) :
    let client := Run.run Client.turn .start polls
    let trace := (Run.run dispatch (.init serverFd others) os).trace
    client.sent = Framing.joined 10 ((typedLines client.typed).filter isKept) ∧
      (RepliesSucceed k trace → bytesFrom k trace <+: client.sent →
        actionsOn k trace <+: typedRequests client.typed ∧
        (bytesFrom k trace = client.sent ∨ (∃ a ∈ actionsOn k trace, a.quits = true) →
          actionsOn k trace = typedRequests client.typed)) := by
  intro client trace
  have htyped : client.Typed := Client.typed_run polls hwrites Client.typed_start
  have hsent : client.sent = Framing.joined 10 ((typedLines client.typed).filter isKept) := by
    rw [← keptLines_frames]
    exact htyped.lines
  have hasked : requests client.sent = typedRequests client.typed := by
    rw [hsent]
    exact requests_kept client.typed
  refine ⟨hsent, fun hreplies hstream => ?_⟩
  have hacts : actionsOn k trace = requests (bytesFrom k trace) :=
    ((framed_run serverFd others os).each k).answered.2 hreplies
  refine ⟨?_, fun hend => ?_⟩
  · rw [hacts, ← hasked]
    exact requests_prefix hstream
  · rw [hacts] at hend ⊢
    rw [← hasked]
    rcases hend with hall | hquit
    · rw [hall]
    · exact requests_of_quit hstream hquit

/-- A line with a carriage return, an empty one, one too long for the client, one too long for the
server, `QUIT`, and the start of another: typed and read in four pieces. -/
theorem command_framing_typed :
    let long : Bytes := List.replicate 160 120
    let polls : List Client.Poll :=
      [ .ready none (some (.data (lit "LOGIN ann\r\n\n" ++ List.replicate 1000 120)))
          [.eintr, .took 4],
        .ready none (some (.data (List.replicate 24 120))) [],
        .ready none (some (.data (lit "xx\n" ++ long))) [.took 1],
        .ready none (some (.data (lit "\nQUIT\nBUY"))) [] ]
    let os : List Occurrence :=
      [ listening [5], readable 5 (lit "LOGIN a") willing,
        readable 5 (lit "nn\r\n" ++ long.take 140) willing,
        readable 5 (long.drop 140) willing, readable 5 (lit "\nQUIT\n") willing ]
    let client := Run.run Client.turn .start polls
    let trace := (Run.run dispatch (.init 3 []) os).trace
    actionsOn 0 trace = typedRequests client.typed ∧
      actionsOn 0 trace = [.line (lit "LOGIN ann"), .tooLong, .line (lit "QUIT")] := by
  intro long polls os client trace
  obtain ⟨hread, hreplies, hacts⟩ : bytesFrom 0 trace = client.sent ∧ RepliesSucceed 0 trace ∧
      actionsOn 0 trace = [.line (lit "LOGIN ann"), .tooLong, .line (lit "QUIT")] := by
    decide +kernel
  have h := command_framing polls (by decide) 3 [] os 0
  exact ⟨(h.2 hreplies (hread ▸ List.prefix_rfl)).2 (.inl hread), hacts⟩

end SocketExchange
