/-
# The requests of a connection's stream

`requests` is what a client's bytes ask for: the stream is cut at the newlines, a line of at
most 159 bytes is a request, without one carriage return at its end, a line that reaches 160 is
answered once that it is too long, and nothing counts behind the line that says `QUIT`.

`communicate` reads what fits into a buffer of 160 bytes, cuts it where the newlines happen to
be, moves the rest to the front and remembers whether it is dropping an over-long line.
`request_framing` says that what it does is `requests` of the bytes it has read, however they
came: the buffer and the flag between two reads are the state of `Framing.run` (`stateOf`), and
one turn of the read loop feeds it the bytes of one read (`readTurn_out`).
-/
import SocketExchange.Lib.Framing
import SocketExchange.Losses

namespace SocketExchange

open CText
open Framing (Frame Continues resume)

/-! ## 1. The reference -/

/-- What the server does about a line. -/
inductive Action
  | line (text : Bytes)
  | tooLong
  deriving DecidableEq, Repr

/-- A segment without one carriage return at its end. -/
def stripReturn (segment : Bytes) : Bytes :=
  if segment.getLast? = some 13 then segment.dropLast else segment

def actionOf : Frame Byte → Action
  | .line segment => .line (stripReturn segment)
  | .overlong => .tooLong

def Action.quits : Action → Bool
  | .line text => executesQuit text
  | .tooLong => false

/-- **What a stream asks for.** -/
def requests (stream : Bytes) : List Action :=
  Framing.through Action.quits ((Framing.frames 10 inbufSize stream).map actionOf)

/-! ## 2. What a run did on a connection -/

def Obs.actionOn (k : Nat) : Obs → Option Action
  | .line k' text => if k' = k then some (.line text) else none
  | .tooLong k' => if k' = k then some .tooLong else none
  | _ => none

/-- What was done about the lines of a connection. -/
def actionsOn (k : Nat) (trace : List Obs) : List Action := trace.filterMap (Obs.actionOn k)

def Obs.bytesFrom (k : Nat) : Obs → Bytes
  | .read k' _ data => if k' = k then data else []
  | _ => []

/-- The bytes read from a connection. -/
def bytesFrom (k : Nat) (trace : List Obs) : Bytes := trace.flatMap (Obs.bytesFrom k)

/-- No message to a client about its own line has failed. -/
def RepliesSucceed (k : Nat) (trace : List Obs) : Prop :=
  ∀ h, .handed h ∈ trace → h.issuer = k → h.receiver = k → h.failed = false

@[simp] theorem actionsOn_append (k : Nat) (l m : List Obs) :
    actionsOn k (l ++ m) = actionsOn k l ++ actionsOn k m := List.filterMap_append

@[simp] theorem bytesFrom_append (k : Nat) (l m : List Obs) :
    bytesFrom k (l ++ m) = bytesFrom k l ++ bytesFrom k m := List.flatMap_append

/-- A message to `k` about its own line that failed. -/
def Obs.failsOwn (k : Nat) : Obs → Bool
  | .handed h => h.issuer == k && h.receiver == k && h.failed
  | _ => false

instance (k : Nat) (trace : List Obs) : Decidable (RepliesSucceed k trace) :=
  decidable_of_iff (trace.all fun o => !o.failsOwn k) (by
    rw [List.all_eq_true]
    constructor
    · intro h x hx hi hr
      have := h _ hx
      simpa [Obs.failsOwn, hi, hr] using this
    · intro h o ho
      cases o with
      | handed x =>
        by_cases hi : x.issuer = k
        · by_cases hr : x.receiver = k
          · simp [Obs.failsOwn, hi, hr, h x ho hi hr]
          · simp [Obs.failsOwn, hr]
        · simp [Obs.failsOwn, hi]
      | _ => rfl)

theorem RepliesSucceed.before {k : Nat} {l m : List Obs} (h : RepliesSucceed k (l ++ m)) :
    RepliesSucceed k l := fun x hx => h x (List.mem_append_left m hx)

/-- A message or a cancellation is no action and no read. -/
theorem output_notes {new : List Obs} (h : ∀ o ∈ new, o.isOutput = true) (k : Nat) :
    actionsOn k new = [] ∧ ∀ n data, .read k n data ∉ new := by
  refine ⟨List.filterMap_eq_nil_iff.mpr fun o ho => ?_, fun n data hmem => ?_⟩
  · have := h o ho
    cases o <;> first | rfl | cases this
  · have := h _ hmem
    cases this

theorem bytesFrom_of_no_read {new : List Obs} {k : Nat} (h : ∀ n data, .read k n data ∉ new) :
    bytesFrom k new = [] := by
  refine List.flatMap_eq_nil_iff.mpr fun o ho => ?_
  cases o with
  | read k' n data =>
    unfold Obs.bytesFrom
    dsimp only
    split
    · rename_i hk
      exact absurd (hk ▸ ho) (h n data)
    · rfl
  | _ => rfl

/-! ## 3. When a client is removed after its line -/

/-- A failed message to a client about its own line. -/
def OwnFailure (k : Nat) (trace : List Obs) : Prop :=
  ∃ h, .handed h ∈ trace ∧ h.issuer = k ∧ h.receiver = k ∧ h.failed = true

theorem RepliesSucceed.not_failure {k : Nat} {trace : List Obs} (h : RepliesSucceed k trace) :
    ¬ OwnFailure k trace := by
  rintro ⟨x, hx, hi, hr, hf⟩
  rw [h x hx hi hr] at hf
  cases hf

theorem OwnFailure.append {k : Nat} {l : List Obs} (h : OwnFailure k l) (m : List Obs) :
    OwnFailure k (l ++ m) := by
  obtain ⟨x, hx, h⟩ := h
  exact ⟨x, List.mem_append_left m hx, h⟩

theorem reply_failure {self : Nat} {msg : Bytes} {w : World} (h : (reply self msg w).2 = true) :
    OwnFailure (w.conn self).serial (reply self msg w).1.trace :=
  ⟨handedOf { self := self, about := none } self msg w, List.mem_append_right _ List.mem_cons_self,
    rfl, rfl, h⟩

/-- The flag comes from a notification of the client itself that failed. -/
theorem hand_failed {self : Nat} {s : World × Bool} {d : Delivery} {c : ClientConnection}
    (hc : s.1.slot self = some c) (hfd : c.clientFd = self) (h : (hand self s d).2 = true) :
    s.2 = true ∨
      d.fd = self ∧ (sendLine { self := self, about := d.about } d.fd d.msg s.1).2 = true := by
  unfold hand at h
  dsimp only at h
  split at h
  · rename_i hcond
    obtain ⟨c', hc', hb⟩ := slot_of_view (v := .bare)
      (sendLine_roster { self := self, about := d.about } d.fd d.msg s.1) hc
    rw [conn_of_slot hc', (field_of_bare hb).2.1, hfd] at hcond
    exact .inr ⟨hcond.1.2, hcond.2⟩
  · exact .inl h

theorem foldl_hand_failure (self : Nat) (ds : List Delivery) {s : World × Bool}
    (hself : ∃ c, s.1.slot self = some c ∧ c.clientFd = self)
    (h : (ds.foldl (hand self) s).2 = true) :
    s.2 = true ∨ OwnFailure (s.1.conn self).serial (ds.foldl (hand self) s).1.trace := by
  obtain ⟨c, hc, hfd⟩ := hself
  refine foldl_hand_keeps self (w := s.1)
    (I := fun t => t.2 = true → s.2 = true ∨ OwnFailure (s.1.conn self).serial t.1.trace)
    (fun t d ht hI (_ : True) hset => ?_) (fun _ _ => trivial) rfl .inl h
  obtain ⟨c', hc', hb⟩ := slot_of_view (v := .bare) ht hc
  rcases hand_failed hc' ((field_of_bare hb).2.1.trans hfd) hset with hold | ⟨hd, hfailed⟩
  · exact (hI hold).imp_right (·.append _)
  · have hser : (t.1.conn self).serial = (s.1.conn self).serial := serial_of_roster ht self
    refine .inr ⟨handedOf { self := self, about := d.about } d.fd d.msg t.1,
      List.mem_append_right _ List.mem_cons_self, hser, ?_, hfailed⟩
    rw [hd]
    exact hser

theorem acceptOrder_failure {self : Nat} {w : World} {c : ClientConnection}
    (hc : w.slot self = some c) (hfd : c.clientFd = self) {ord : Order}
    (h : (acceptOrder ord self w).2 = true) :
    OwnFailure c.serial (acceptOrder ord self w).1.trace := by
  have heq := acceptOrder_eq ord self w
  dsimp only at heq
  have hfail := @reply_failure self (acceptedText ord.id)
    { w with exchange := w.exchange.takeId ord }
  generalize hs : reply self (acceptedText ord.id)
    { w with exchange := w.exchange.takeId ord } = s at heq hfail
  have hroster : s.1.roster = w.roster := hs ▸ reply_roster _ _ _
  have hser : (w.conn self).serial = c.serial := by rw [conn_of_slot hc]
  obtain ⟨c', hc', hb⟩ := slot_of_view (v := .bare) hroster hc
  have hsend := foldl_hand_failure self
    (deliveries w (addOrder w.exchange.orderbook ord w.heap).fills)
    (s := ({ s.1 with exchange := (w.exchange.takeId ord).enter ord w.heap
                      heap := (addOrder w.exchange.orderbook ord w.heap).heap }, s.2))
    ⟨c', hc', (field_of_bare hb).2.1.trans hfd⟩
  rw [heq] at h ⊢
  rcases hsend h with h1 | h1
  · -- the acknowledgement failed
    obtain ⟨m, hm, -⟩ := foldl_hand_trace self
      (deliveries w (addOrder w.exchange.orderbook ord w.heap).fills)
      ({ s.1 with exchange := (w.exchange.takeId ord).enter ord w.heap
                  heap := (addOrder w.exchange.orderbook ord w.heap).heap }, s.2)
    rw [hm, ← hser]
    exact (hfail h1).append _
  · have hser' : (s.1.conn self).serial = (w.conn self).serial := serial_of_roster hroster self
    rw [← hser, ← hser']
    exact h1

/-- **A client is removed after its line** when the line is `QUIT`, or a message to it about the
line failed. -/
theorem Handling.done {self : Nat} {w : World} {q : Bool} {o : Option (Order × List Bool)}
    {r : World × Bool} (h : Handling self w q o r) {c : ClientConnection}
    (hc : w.slot self = some c) (hfd : c.clientFd = self) (hdone : r.2 = true) :
    q = true ∨ OwnFailure c.serial r.1.trace := by
  cases h with
  | silent => cases hdone
  | replied heap f hf hrole hmsg =>
    right
    have hs : ({ w with heap := heap }.modify self f).slot self = some (f c) :=
      modify_slot self (show World.slot { w with heap := heap } self = some c from hc) f
    have hfail := reply_failure hdone
    rw [conn_of_slot hs] at hfail
    have hser : (f c).serial = c.serial := congrArg Prod.fst (congrArg
      (fun d : ClientConnection => (d.serial, d.clientFd)) (hf c).1)
    rwa [hser] at hfail
  | quit => exact .inl rfl
  | @accepted heap side inst quantity price hq hp hin ord hord =>
    right
    exact acceptOrder_failure (w := { w with heap := heap }) hc hfd hdone
  | @cancelled id r hr =>
    right
    have hs : World.slot ({ w with exchange := r.2 }.note
        (.cancelled (w.conn self).serial r.1)) self = some c := hc
    have hfail := reply_failure hdone
    rwa [conn_of_slot hs] at hfail

/-! ## 4. Serving a client -/

/-- Every `read` was offered room, and brought no more. -/
def Offered (trace : List Obs) : Prop :=
  ∀ k n data, .read k n data ∈ trace → 0 < n ∧ data.length ≤ n

/-- Notes of these actions and these bytes, of connection `k`. -/
structure Notes (k : Nat) (acts : List Action) (got : Bytes) (new : List Obs) : Prop where
  actions : ∀ k', actionsOn k' new = if k' = k then acts else []
  bytes : ∀ k', bytesFrom k' new = if k' = k then got else []
  offered : Offered new

theorem Offered.append {l m : List Obs} (h : Offered l) (h' : Offered m) : Offered (l ++ m) :=
  fun k n data hmem => (List.mem_append.mp hmem).elim (h k n data) (h' k n data)

theorem Notes.append {k : Nat} {acts acts' : List Action} {got got' : Bytes} {l m : List Obs}
    (h : Notes k acts got l) (h' : Notes k acts' got' m) :
    Notes k (acts ++ acts') (got ++ got') (l ++ m) := by
  refine ⟨fun k' => ?_, fun k' => ?_, h.offered.append h'.offered⟩
  · rw [actionsOn_append, h.actions, h'.actions]
    split <;> rfl
  · rw [bytesFrom_append, h.bytes, h'.bytes]
    split <;> rfl

/-- Notes without a read and without an action. -/
theorem Notes.none {k : Nat} {new : List Obs} (ha : ∀ k', actionsOn k' new = [])
    (hr : ∀ k' n data, .read k' n data ∉ new) : Notes k [] [] new := by
  refine ⟨fun k' => ?_, fun k' => ?_, fun k' n data hmem => absurd hmem (hr k' n data)⟩
  · rw [ha, ite_self]
  · rw [bytesFrom_of_no_read (hr k'), ite_self]

theorem Notes.output {k : Nat} {new : List Obs} (h : ∀ o ∈ new, o.isOutput = true) :
    Notes k [] [] new :=
  .none (fun k' => (output_notes h k').1) fun k' => (output_notes h k').2

theorem Notes.line (k : Nat) (text : Bytes) : Notes k [.line text] [] [.line k text] := by
  refine ⟨fun k' => ?_, fun k' => by rw [bytesFrom_of_no_read (by simp), ite_self], by
    simp [Offered]⟩
  by_cases h : k' = k
  · simp [actionsOn, Obs.actionOn, h]
  · simp [actionsOn, Obs.actionOn, h, Ne.symm h]

theorem Notes.tooLong (k : Nat) : Notes k [.tooLong] [] [.tooLong k] := by
  refine ⟨fun k' => ?_, fun k' => by rw [bytesFrom_of_no_read (by simp), ite_self], by
    simp [Offered]⟩
  by_cases h : k' = k
  · simp [actionsOn, Obs.actionOn, h]
  · simp [actionsOn, Obs.actionOn, h, Ne.symm h]

theorem Notes.read (k : Nat) {n : Nat} (hn : 0 < n) {data : Bytes} (hlen : data.length ≤ n) :
    Notes k [] data [.read k n data] := by
  refine ⟨fun k' => by rw [ite_self]; rfl, fun k' => ?_, fun k' m data' hmem => ?_⟩
  · by_cases h : k' = k
    · simp [bytesFrom, Obs.bytesFrom, h]
    · simp [bytesFrom, Obs.bytesFrom, h, Ne.symm h]
  · rw [List.mem_singleton] at hmem
    cases hmem
    exact ⟨hn, hlen⟩

/-- **The client in slot `fd` is served**: connection `k` read these bytes and took these
actions, nobody else did anything, and the others keep all but their queues. -/
structure Served (fd k : Nat) (acts : List Action) (got : Bytes) (w w' : World) : Prop where
  alike : Alike w w'
  others : ∀ n, n ≠ fd →
    (w'.slot n).map ClientConnection.bare = (w.slot n).map ClientConnection.bare
  trace : ∃ new, w'.trace = w.trace ++ new ∧ Notes k acts got new

theorem Alike.refl (w : World) : Alike w w := alike_of_conns rfl rfl rfl rfl

theorem Alike.trans {a b c : World} (h : Alike a b) (h' : Alike b c) : Alike a c :=
  ⟨fun n => (h'.badge n).trans (h.badge n), h'.opened.trans h.opened, h'.accepts.trans h.accepts,
    h'.serverFd.trans h.serverFd, h.currCap.trans h'.currCap⟩

namespace Served

variable {fd k : Nat}

theorem refl (w : World) : Served fd k [] [] w w :=
  ⟨.refl w, fun _ _ => rfl, [], (List.append_nil _).symm, .output (by simp)⟩

theorem trans {a b c : World} {acts acts' : List Action} {got got' : Bytes}
    (h : Served fd k acts got a b) (h' : Served fd k acts' got' b c) :
    Served fd k (acts ++ acts') (got ++ got') a c := by
  obtain ⟨m, hm, hmn⟩ := h.trace
  obtain ⟨n, hn, hnn⟩ := h'.trace
  exact ⟨h.alike.trans h'.alike, fun i hi => (h'.others i hi).trans (h.others i hi), m ++ n,
    by rw [hn, hm, List.append_assoc], hmn.append hnn⟩

/-- A note. -/
theorem note (w : World) {o : Obs} {acts : List Action} {got : Bytes} (h : Notes k acts got [o]) :
    Served fd k acts got w (w.note o) :=
  ⟨alike_of_conns rfl rfl rfl rfl, fun _ _ => rfl, [o], rfl, h⟩

/-- A change of the client that leaves its number and its descriptor. -/
theorem modify (w : World) {f : ClientConnection → ClientConnection}
    (hf : ∀ c, ((f c).serial, (f c).clientFd) = (c.serial, c.clientFd)) :
    Served fd k [] [] w (w.modify fd f) :=
  ⟨alike_modify w fd hf, fun n hn => by rw [slot_modify_ne w fd f hn], [],
    (List.append_nil _).symm, .output (by simp)⟩

theorem handling {w : World} {q : Bool} {o : Option (Order × List Bool)} {r : World × Bool}
    (h : Handling fd w q o r) : Served fd k [] [] w r.1 := by
  obtain ⟨new, hnew, hout⟩ := h.kept.trace
  exact ⟨h.kept.alike, fun n hn => h.others hn, new, hnew, .output hout⟩

theorem actionsOn {w w' : World} {acts : List Action} {got : Bytes}
    (h : Served fd k acts got w w') :
    actionsOn k w'.trace = SocketExchange.actionsOn k w.trace ++ acts := by
  obtain ⟨new, hnew, hn⟩ := h.trace
  rw [hnew, actionsOn_append, hn.actions, if_pos rfl]

theorem bytesFrom {w w' : World} {acts : List Action} {got : Bytes}
    (h : Served fd k acts got w w') :
    bytesFrom k w'.trace = SocketExchange.bytesFrom k w.trace ++ got := by
  obtain ⟨new, hnew, hn⟩ := h.trace
  rw [hnew, bytesFrom_append, hn.bytes, if_pos rfl]

end Served

/-- **A line is one action**; the client reads on as it was, unless the line is `QUIT`, and is
removed only when it is or when a message to it about the line failed. -/
theorem processLine_served {fd : Nat} {w : World} {c : ClientConnection} (hc : w.slot fd = some c)
    (hfd : c.clientFd = fd) (line : Bytes) :
    Served fd c.serial [.line line] [] w (processLine line fd w).1 ∧
      (∃ c', (processLine line fd w).1.slot fd = some c' ∧ c'.fixed = c.fixed ∧
        c'.closing = (executesQuit line || c.closing)) ∧
      ((processLine line fd w).2 = true →
        executesQuit line = true ∨ OwnFailure c.serial (processLine line fd w).1.trace) := by
  have h := processLine_handling fd w line
  have hser : (w.conn fd).serial = c.serial := by rw [conn_of_slot hc]
  rw [hser] at h
  have hc1 : (w.note (.line c.serial line)).slot fd = some c := hc
  refine ⟨(Served.note w (.line c.serial line)).trans (.handling h), ?_, h.done hc1 hfd⟩
  obtain ⟨c', hc', hfixed⟩ := slot_of_tenants h.kept.tenants hc1
  have hclosing := h.closing hc1
  rw [conn_of_slot hc'] at hclosing
  exact ⟨c', hc', hfixed, hclosing⟩

/-- The reply to a line that is too long is one action. -/
theorem rejectLine_served {fd : Nat} {w : World} {c : ClientConnection} (hc : w.slot fd = some c) :
    Served fd c.serial [.tooLong] [] w (rejectLine fd w).1 ∧
      ∃ c', (rejectLine fd w).1.slot fd = some c' ∧ c'.bare = c.bare := by
  have hser : (w.conn fd).serial = c.serial := by rw [conn_of_slot hc]
  have heq : rejectLine fd w
      = replyError fd (lit "Message too long") (w.note (.tooLong c.serial)) := by
    rw [rejectLine, hser]
  rw [heq]
  have h : Handling fd (w.note (.tooLong c.serial)) false none
      (replyError fd (lit "Message too long") (w.note (.tooLong c.serial))) :=
    @Handling.error fd (w.note (.tooLong c.serial)) w.heap _
  have hc1 : (w.note (.tooLong c.serial)).slot fd = some c := hc
  exact ⟨(Served.note w (.tooLong c.serial)).trans (.handling h),
    slot_of_view (v := .bare) (reply_roster _ _ _) hc1⟩

/-! ## 5. Cutting lines -/

/-- **The newline ends a segment**: with none in the bytes looked at before, it is the first one
behind what is consumed. -/
theorem findNewline_some {inbuf : Bytes} {consumed search newline : Nat}
    (h : findNewline inbuf search = some newline) (hle : consumed ≤ search)
    (hseen : 10 ∉ (inbuf.drop consumed).take (search - consumed)) :
    consumed ≤ newline ∧ newline < inbuf.length ∧
      10 ∉ (inbuf.drop consumed).take (newline - consumed) ∧
      inbuf.drop consumed
        = (inbuf.drop consumed).take (newline - consumed) ++ 10 :: inbuf.drop (newline + 1) := by
  obtain ⟨i, hi, rfl⟩ := Option.map_eq_some_iff.mp h
  obtain ⟨hlt, hp, hbefore⟩ := List.findIdx?_eq_some_iff_getElem.mp hi
  rw [List.length_drop] at hlt
  rw [List.getElem_drop, beq_iff_eq] at hp
  have hsplit : search + i - consumed = (search - consumed) + i := by omega
  refine ⟨by omega, by omega, ?_, ?_⟩
  · rw [hsplit, List.take_add, List.mem_append, not_or, List.drop_drop,
      show consumed + (search - consumed) = search by omega]
    refine ⟨hseen, fun hmem => ?_⟩
    obtain ⟨j, hj, hval⟩ := List.mem_take_iff_getElem.mp hmem
    exact hbefore j (by omega) (by rw [hval]; rfl)
  · conv => lhs; rw [← List.take_append_drop (search + i - consumed) (inbuf.drop consumed)]
    rw [List.drop_drop, show consumed + (search + i - consumed) = search + i by omega,
      List.drop_eq_getElem_cons (show search + i < inbuf.length by omega), hp]

theorem findNewline_none {inbuf : Bytes} {search : Nat} (h : findNewline inbuf search = none) :
    10 ∉ inbuf.drop search := by
  have hn := Option.map_eq_none_iff.mp h
  rw [List.findIdx?_eq_none_iff] at hn
  exact fun hmem => absurd (hn 10 hmem) (by decide)

/-- The line handed over is the segment, without one carriage return at its end. -/
theorem cutLine_text {inbuf : Bytes} {start newline : Nat} (hle : start ≤ newline)
    (hlt : newline < inbuf.length) :
    (cutLine inbuf start newline).1
      = stripReturn ((inbuf.drop start).take (newline - start)) := by
  have hdrop : (inbuf.set newline 0).drop start = (inbuf.drop start).set (newline - start) 0 := by
    rw [List.drop_set, if_neg (by omega)]
  have hlen : newline - start < (inbuf.drop start).length := by
    rw [List.length_drop]
    omega
  have hlast : ((inbuf.drop start).take (newline - start)).getLast? = some 13 ↔
      start < newline ∧ (inbuf.set newline 0)[newline - 1]? = some 13 := by
    by_cases hlt' : start < newline
    · rw [List.getLast?_eq_getElem?, List.length_take_of_le (le_of_lt hlen),
        List.getElem?_take_of_lt (by omega), List.getElem?_drop,
        List.getElem?_set_ne (by omega), show start + (newline - start - 1) = newline - 1 by omega]
      simp [hlt']
    · rw [show newline - start = 0 by omega]
      simp [hlt']
  unfold cutLine stripReturn
  simp only [hlast]
  split
  · rw [hdrop, List.take_set_of_le (by omega), List.dropLast_take hlen]
  · rw [hdrop, List.take_set_of_le (le_refl _)]

/-- What is behind the newline stays. -/
theorem cutLine_rest (inbuf : Bytes) (start newline : Nat) :
    (cutLine inbuf start newline).2.length = inbuf.length ∧
      (cutLine inbuf start newline).2.drop (newline + 1) = inbuf.drop (newline + 1) := by
  unfold cutLine
  dsimp only
  split
  · exact ⟨by simp, by rw [List.drop_set_of_lt (by omega), List.drop_set_of_lt (by omega)]⟩
  · exact ⟨by simp, by rw [List.drop_set_of_lt (by omega)]⟩

/-! ## 6. The loop over the lines -/

/-- What is done is a first part of what is asked for, and all of it on this condition. -/
def Follows (ok : Prop) (acts wanted : List Action) : Prop :=
  acts <+: wanted ∧ (ok → acts = wanted)

theorem Follows.of_eq {ok : Prop} {acts wanted : List Action} (h : acts = wanted) :
    Follows ok acts wanted := ⟨h ▸ List.prefix_rfl, fun _ => h⟩

theorem Follows.append {ok : Prop} {acts wanted : List Action} (h : Follows ok acts wanted)
    (front : List Action) : Follows ok (front ++ acts) (front ++ wanted) :=
  ⟨(List.prefix_append_right_inj front).mpr h.1, fun hok => congrArg (front ++ ·) (h.2 hok)⟩

/-- Frames none of which says `QUIT`, in front of others. -/
theorem through_stays {frs : List (Frame Byte)} (h : ∀ f ∈ frs, (actionOf f).quits = false)
    (acts : List Action) : Framing.through Action.quits (frs.map actionOf ++ acts)
      = frs.map actionOf ++ Framing.through Action.quits acts := by
  refine Framing.through_of_none (fun a ha => ?_) acts
  obtain ⟨f, hf, rfl⟩ := List.mem_map.mp ha
  exact h f hf

/-- A line comes first of what is asked for. -/
theorem line_begins {d d' : Bool} {input segment rest : Bytes}
    (h : Continues 10 inbufSize d input [.line segment] d' rest) :
    [Action.line (stripReturn segment)] <+: Framing.through Action.quits
      ((Framing.run 10 inbufSize (resume d) input).2.map actionOf) := by
  rw [show Framing.run 10 inbufSize (resume d) input = _ from h, List.map_append,
    List.map_singleton, List.singleton_append, Framing.through]
  split
  · exact List.prefix_rfl
  · exact List.prefix_append [_] _

/-- Nothing counts behind a line that quits. -/
theorem quit_answered {d d' : Bool} {input segment rest : Bytes}
    (h : Continues 10 inbufSize d input [.line segment] d' rest)
    (hquit : executesQuit (stripReturn segment) = true) :
    [Action.line (stripReturn segment)] = Framing.through Action.quits
      ((Framing.run 10 inbufSize (resume d) input).2.map actionOf) := by
  have hstop : Action.quits (actionOf (.line segment)) = true := hquit
  rw [show Framing.run 10 inbufSize (resume d) input = _ from h, List.map_append,
    List.map_singleton, List.singleton_append, Framing.through, if_pos hstop]
  rfl

/-- **How the loop over the lines ends**, with `input` behind what is consumed: no newline is
left, or the rest does not matter any more. -/
inductive Cut (fd : Nat) (c : ClientConnection) (input : Bytes) (w w' : World) : LinesEnd → Prop
  | finished {n : Nat} {frs : List (Frame Byte)} {c' : ClientConnection}
      (served : Served fd c.serial (frs.map actionOf) [] w w') (slot : w'.slot fd = some c')
      (serial : c'.serial = c.serial) (closing : c'.closing = false) (size : c'.inlen = c.inlen)
      (ended : 10 ∉ c'.inbuf.drop n)
      (continues : Continues 10 inbufSize c.discarding input frs c'.discarding (c'.inbuf.drop n))
      (stays : ∀ f ∈ frs, (actionOf f).quits = false) : Cut fd c input w w' (.finished n)
  | returned {done : Bool} {acts : List Action} {c' : ClientConnection}
      (served : Served fd c.serial acts [] w w') (slot : w'.slot fd = some c')
      (closing : done = false → c'.closing = true)
      (answered : Follows (RepliesSucceed c.serial w'.trace) acts (Framing.through Action.quits
        ((Framing.run 10 inbufSize (resume c.discarding) input).2.map actionOf))) :
      Cut fd c input w w' (.returned done)

/-- A turn of the loop in front of others. -/
theorem Cut.before {fd : Nat} {c c1 : ClientConnection} {input rest : Bytes} {w w1 w' : World}
    {e : LinesEnd} (h : Cut fd c1 rest w1 w' e) {frs : List (Frame Byte)}
    (hserved : Served fd c.serial (frs.map actionOf) [] w w1) (hser : c1.serial = c.serial)
    (hsize : c1.inlen = c.inlen)
    (hcont : Continues 10 inbufSize c.discarding input frs c1.discarding rest)
    (hstays : ∀ f ∈ frs, (actionOf f).quits = false) : Cut fd c input w w' e := by
  cases h with
  | @finished n frs' c' served slot serial closing size ended continues stays =>
    rw [hser] at served
    have hboth := hserved.trans served
    rw [← List.map_append] at hboth
    refine .finished hboth slot (serial.trans hser) closing (size.trans hsize) ended
      (hcont.trans continues) fun f hf => ?_
    exact (List.mem_append.mp hf).elim (hstays f) (stays f)
  | @returned done acts c' served slot closing answered =>
    rw [hser] at served answered
    refine .returned (hserved.trans served) slot closing ?_
    rw [show Framing.run 10 inbufSize (resume c.discarding) input = _ from hcont, List.map_append,
      through_stays hstays]
    exact answered.append _

theorem reading_of_fixed {c d : ClientConnection} (h : c.fixed = d.fixed) :
    c.serial = d.serial ∧ c.clientFd = d.clientFd ∧ c.inbuf = d.inbuf ∧
      c.discarding = d.discarding := by
  have hser : c.fixed.serial = d.fixed.serial := congrArg _ h
  have hfd : c.fixed.clientFd = d.fixed.clientFd := congrArg _ h
  have hin : c.fixed.inbuf = d.fixed.inbuf := congrArg _ h
  have hdis : c.fixed.discarding = d.fixed.discarding := congrArg _ h
  exact ⟨hser, hfd, hin, hdis⟩

/-- **The loop over the lines gives the frames of the buffer.**  The induction is on the fuel;
what is consumed grows with every newline, so the fuel does not run out. -/
theorem lineLoop_cut (fd : Nat) : ∀ (fuel consumed search : Nat) {w : World}
    {c : ClientConnection}, w.slot fd = some c → c.clientFd = fd → c.closing = false →
    c.inlen ≤ inbufSize → consumed ≤ search → search ≤ c.inlen → c.inlen < consumed + fuel →
    10 ∉ (c.inbuf.drop consumed).take (search - consumed) →
    Cut fd c (c.inbuf.drop consumed) w (lineLoop fd fuel consumed search w).1
      (lineLoop fd fuel consumed search w).2
  | 0, consumed, search, w, c, hc, hfd, hclosing, hsize, hle, hsearch, hfuel, hseen => by omega
  | fuel + 1, consumed, search, w, c, hc, hfd, hclosing, hsize, hle, hsearch, hfuel, hseen => by
    rw [lineLoop, conn_of_slot hc]
    split
    · -- no newline
      rename_i hnone
      have hserved : Served fd c.serial (([] : List (Frame Byte)).map actionOf) [] w w := .refl w
      refine .finished hserved hc rfl hclosing rfl ?_ rfl (by simp)
      rw [← List.take_append_drop (search - consumed) (c.inbuf.drop consumed), List.drop_drop,
        show consumed + (search - consumed) = search by omega, List.mem_append, not_or]
      exact ⟨hseen, findNewline_none hnone⟩
    · rename_i newline hsome
      obtain ⟨hge, hlt, hseg, hsplit⟩ := findNewline_some hsome hle hseen
      have hlen : c.inlen = c.inbuf.length := rfl
      have htext := cutLine_text hge hlt
      obtain ⟨hcutlen, hcutdrop⟩ := cutLine_rest c.inbuf consumed newline
      have hseglen : ((c.inbuf.drop consumed).take (newline - consumed)).length < inbufSize := by
        rw [List.length_take]
        omega
      generalize (c.inbuf.drop consumed).take (newline - consumed) = segment at *
      generalize cutLine c.inbuf consumed newline = cut at *
      rw [hsplit]
      have hfuel' : c.inlen < newline + 1 + fuel := by omega
      have hnil : ∀ input : Bytes, 10 ∉ input.take (newline + 1 - (newline + 1)) := by simp
      split
      · -- the end of a segment that was too long
        rename_i hdis
        have hs := modify_slot fd hc fun c => { c with discarding := false }
        have hserved : Served fd c.serial (([] : List (Frame Byte)).map actionOf) [] w
          (w.modify fd fun c => { c with discarding := false }) := .modify w fun _ => rfl
        have hrest := lineLoop_cut fd fuel (newline + 1) (newline + 1) hs hfd hclosing hsize
          (le_refl _) hlt hfuel' (hnil _)
        exact hrest.before hserved rfl rfl (hdis ▸ Framing.continues_resync hseg _) (by simp)
      · -- a line
        rename_i hdis
        rw [Bool.not_eq_true] at hdis
        dsimp only
        have hs := modify_slot fd hc fun c => { c with inbuf := cut.2 }
        have hcut : Served fd c.serial [] [] w (w.modify fd fun c => { c with inbuf := cut.2 }) :=
          .modify w fun _ => rfl
        generalize (w.modify fd fun c => { c with inbuf := cut.2 }) = w1 at *
        obtain ⟨hline, ⟨c2, hc2, hfixed, hcl⟩, hdone⟩ := processLine_served hs hfd cut.1
        obtain ⟨hser2, hfd2, hin2, hdis2⟩ := reading_of_fixed hfixed
        have hserved := hcut.trans hline
        rw [htext] at *
        have hcont : Continues 10 inbufSize c.discarding
            (segment ++ 10 :: c.inbuf.drop (newline + 1)) [.line segment] false
            (c.inbuf.drop (newline + 1)) := hdis ▸ Framing.continues_line hseg hseglen _
        split
        · rename_i hd
          refine .returned hserved hc2 (fun h => by cases h) ⟨line_begins hcont, fun hr => ?_⟩
          exact quit_answered hcont ((hdone hd).resolve_right hr.not_failure)
        · split
          · rename_i hclosed
            rw [conn_of_slot hc2, hcl, hclosing, Bool.or_false] at hclosed
            exact .returned hserved hc2 (fun _ => by rw [hcl, hclosed]; rfl)
              (.of_eq (quit_answered hcont hclosed))
          · rename_i hopen
            rw [conn_of_slot hc2, Bool.not_eq_true] at hopen
            have hsize2 : c2.inlen = c.inlen := by
              rw [ClientConnection.inlen, hin2]
              exact hcutlen
            have hrest := lineLoop_cut fd fuel (newline + 1) (newline + 1) hc2 (hfd2.trans hfd)
              hopen (hsize2 ▸ hsize) (le_refl _) (hsize2 ▸ hlt) (hsize2 ▸ hfuel') (hnil _)
            rw [hin2, hcutdrop] at hrest
            have hframe : Served fd c.serial ([Frame.line segment].map actionOf) [] w
              (processLine (stripReturn segment) fd w1).1 := hserved
            refine hrest.before hframe hser2 hsize2 ?_ ?_
            · rw [hdis2, hdis]
              exact hdis ▸ hcont
            · rw [hcl, hclosing, Bool.or_false] at hopen
              simpa [actionOf, Action.quits] using hopen

/-! ## 7. Between two reads -/

/-- What the buffer and the flag say about the segment that has not ended. -/
def stateOf (c : ClientConnection) : Framing.State Byte := Framing.held c.discarding c.inbuf

/-- **The buffer between two reads**: no newline in it, room left, and all of it searched. -/
structure Buffered (c : ClientConnection) : Prop where
  unended : 10 ∉ c.inbuf
  room : c.inlen < inbufSize
  scanned : c.scanned = c.inlen

/-- **The reader is where the bytes it has read lead**, and has taken the actions of the frames
they complete. -/
def Reads (k : Nat) (trace : List Obs) (c : ClientConnection) : Prop :=
  ∃ frs, Framing.run 10 inbufSize Framing.start (bytesFrom k trace) = (stateOf c, frs) ∧
    actionsOn k trace = frs.map actionOf ∧ ∀ f ∈ frs, (actionOf f).quits = false

/-- What was done so far is what the bytes so far ask for, or a first part of it if a reply
failed. -/
def Answered (k : Nat) (trace : List Obs) : Prop :=
  Follows (RepliesSucceed k trace) (actionsOn k trace) (requests (bytesFrom k trace))

/-- The reader's own buffer, read again from the start of its segment. -/
theorem run_stateOf {c : ClientConnection} (h : Buffered c) (got : Bytes) :
    Framing.run 10 inbufSize (stateOf c) got
      = Framing.run 10 inbufSize (resume c.discarding) (c.inbuf ++ got) :=
  Framing.run_held h.unended h.room c.discarding got

/-- **Moving the rest of the buffer to the front.** -/
theorem compact_served {fd n : Nat} {w : World} {c : ClientConnection} (hc : w.slot fd = some c)
    (hclosing : c.closing = false) (hsize : c.inlen ≤ inbufSize) (hended : 10 ∉ c.inbuf.drop n) :
    ∃ frs st, Framing.run 10 inbufSize (resume c.discarding) (c.inbuf.drop n) = (st, frs) ∧
      Served fd c.serial (frs.map actionOf) [] w (compact fd n w).1 ∧
      (∀ f ∈ frs, (actionOf f).quits = false) ∧
      ((compact fd n w).2 = false → ∃ c', (compact fd n w).1.slot fd = some c' ∧
        c'.serial = c.serial ∧ c'.closing = false ∧ Buffered c' ∧ stateOf c' = st) := by
  have hs := modify_slot fd hc (shiftInput n)
  have hshift : Served fd c.serial [] [] w (w.modify fd (shiftInput n)) := .modify w fun _ => rfl
  have hlen : (shiftInput n c).inlen = (c.inbuf.drop n).length := rfl
  have hle : (c.inbuf.drop n).length ≤ inbufSize := by
    rw [List.length_drop]
    exact (Nat.sub_le _ _).trans hsize
  unfold compact
  generalize w.modify fd (shiftInput n) = w1 at *
  dsimp only
  rw [conn_of_slot hs, hlen]
  by_cases hfull : (c.inbuf.drop n).length = inbufSize
  · rw [if_pos hfull, Framing.run_tail hended (by decide), if_pos (le_of_eq hfull.symm)]
    have hroom : 0 < inbufSize := by decide
    rw [show (shiftInput n c).discarding = c.discarding from rfl]
    cases hdis : c.discarding with
    | true =>
      -- the rest of a segment that was too long already
      simp only [if_true]
      have hclear : Served fd c.serial [] [] w1
          (w1.modify fd fun c => { c with inbuf := [], scanned := 0 }) := .modify w1 fun _ => rfl
      refine ⟨[], resume true, rfl, hshift.trans hclear, by simp, fun _ => ?_⟩
      refine ⟨_, modify_slot fd hs _, rfl, hclosing, ⟨by simp, hroom, rfl⟩, ?_⟩
      simp [stateOf, Framing.held, resume, shiftInput, hdis]
    | false =>
      simp only [Bool.false_eq_true, if_false]
      obtain ⟨hrej, c2, hc2, hbare⟩ := rejectLine_served hs
      refine ⟨[.overlong], resume true, rfl, ?_⟩
      by_cases hdone : (rejectLine fd w1).2 = true
      · rw [if_pos hdone]
        exact ⟨hshift.trans hrej, by simp [actionOf, Action.quits], fun h => by cases h⟩
      · rw [if_neg hdone]
        have hmark : Served fd c.serial [] [] (rejectLine fd w1).1 ((rejectLine fd w1).1.modify fd
            fun c => { c with discarding := true, inbuf := [], scanned := 0 }) :=
          .modify _ fun _ => rfl
        refine ⟨(hshift.trans hrej).trans hmark, by simp [actionOf, Action.quits],
          fun _ => ?_⟩
        have hcl : c2.bare.closing = (shiftInput n c).bare.closing := congrArg _ hbare
        exact ⟨_, modify_slot fd hc2 _, (field_of_bare hbare).1, hcl.trans hclosing,
          ⟨by simp, hroom, rfl⟩, rfl⟩
  · rw [if_neg hfull, Framing.run_tail hended (by decide),
      if_neg (fun h => hfull (le_antisymm hle h))]
    refine ⟨[], _, rfl, hshift, by simp, fun _ => ?_⟩
    exact ⟨_, hs, rfl, hclosing, ⟨hended, lt_of_le_of_ne hle hfull, rfl⟩, rfl⟩

/-! ## 8. Reading -/

/-- The bytes a call of `read` returned. -/
def ReadResult.bytes : ReadResult → Bytes
  | .data bytes => bytes
  | _ => []

/-- A connection that is read has had handled what its bytes ask for. -/
theorem Reads.handled {k : Nat} {trace : List Obs} {c : ClientConnection} (h : Reads k trace c) :
    actionsOn k trace = requests (bytesFrom k trace) := by
  obtain ⟨frs, hrun, hacts, hstays⟩ := h
  have hthrough := through_stays hstays []
  rw [List.append_nil] at hthrough
  rw [hacts, requests, ← Framing.run_start (by decide), hrun, hthrough]
  exact (List.append_nil _).symm

theorem Reads.answered {k : Nat} {trace : List Obs} {c : ClientConnection}
    (h : Reads k trace c) : Answered k trace := .of_eq h.handled

/-- **Bytes that are read and cut leave the reader where they lead.** -/
theorem Reads.next {fd k : Nat} {w w' : World} {c c' : ClientConnection} (h : Reads k w.trace c)
    (hb : Buffered c) {frs : List (Frame Byte)} {got : Bytes}
    (hserved : Served fd k (frs.map actionOf) got w w')
    (hrun : Framing.run 10 inbufSize (resume c.discarding) (c.inbuf ++ got) = (stateOf c', frs))
    (hstays : ∀ f ∈ frs, (actionOf f).quits = false) : Reads k w'.trace c' := by
  obtain ⟨frs0, hrun0, hacts0, hstays0⟩ := h
  refine ⟨frs0 ++ frs, ?_, ?_, fun f hf => (List.mem_append.mp hf).elim (hstays0 f) (hstays f)⟩
  · rw [hserved.bytesFrom, Framing.run_append, hrun0, run_stateOf hb, hrun]
  · rw [hserved.actionsOn, hacts0, List.map_append]

/-- Bytes behind which the connection is not read any more. -/
theorem Reads.stop {fd k : Nat} {w w' : World} {c : ClientConnection} (h : Reads k w.trace c)
    (hb : Buffered c) {acts : List Action} {got : Bytes} (hserved : Served fd k acts got w w')
    (hacts : Follows (RepliesSucceed k w'.trace) acts (Framing.through Action.quits
      ((Framing.run 10 inbufSize (resume c.discarding) (c.inbuf ++ got)).2.map actionOf))) :
    Answered k w'.trace := by
  obtain ⟨frs0, hrun0, hacts0, hstays0⟩ := h
  rw [Answered, requests, ← Framing.run_start (by decide), hserved.bytesFrom, Framing.run_append,
    hrun0, run_stateOf hb, List.map_append, through_stays hstays0, hserved.actionsOn, hacts0]
  exact hacts.append _

/-- A call of `read`. -/
theorem noteRead_served {fd : Nat} {w : World} {c : ClientConnection} (hc : w.slot fd = some c)
    (hb : Buffered c) {got : Bytes} (hgot : got.length ≤ inbufSize - c.inlen) :
    Served fd c.serial [] got w (noteRead fd got w) := by
  have hroom := hb.room
  unfold noteRead
  rw [conn_of_slot hc]
  exact .note w (.read c.serial (by omega) hgot)

theorem Served.client {fd k : Nat} {acts : List Action} {got : Bytes} {w w' : World}
    (h : Served fd k acts got w w') {c c' : ClientConnection} (hc : w.slot fd = some c)
    (hc' : w'.slot fd = some c') : c'.serial = c.serial ∧ c'.clientFd = c.clientFd := by
  have hb := h.alike.badge fd
  rw [badge_of_slot hc, badge_of_slot hc', Option.some.injEq, Prod.mk.injEq] at hb
  exact hb

/-- How reading ends for connection `k`: what it did is answered for, and while it stays it is
between two reads, or closing. -/
structure ReadOut (fd k : Nat) (w : World) (r : World × Bool) : Prop where
  served : ∃ acts got, Served fd k acts got w r.1
  answered : Answered k r.1.trace
  reading : r.2 = false → ∃ c', r.1.slot fd = some c' ∧
    (c'.closing = false → Buffered c' ∧ Reads k r.1.trace c')

theorem ReadOut.before {fd k : Nat} {acts : List Action} {got : Bytes} {w w1 : World}
    {r : World × Bool} (hs : Served fd k acts got w w1) (h : ReadOut fd k w1 r) :
    ReadOut fd k w r := by
  obtain ⟨acts', got', h'⟩ := h.served
  exact ⟨⟨_, _, hs.trans h'⟩, h.answered, h.reading⟩

/-- What one turn of the loop over the reads comes to on connection `c`. -/
structure TurnOut (fd : Nat) (w : World) (c : ClientConnection) (r : ReadResult)
    (t : World × Option Bool) : Prop where
  served : ∃ acts, Served fd c.serial acts (r.bytes.take (inbufSize - c.inlen)) w t.1
  answered : Answered c.serial t.1.trace
  /-- the loop goes on, or the socket was empty: the connection is between two reads -/
  goes : t.2 = none ∨ r = .eagain → ∃ c', t.1.slot fd = some c' ∧ c'.serial = c.serial ∧
    c'.clientFd = fd ∧ c'.closing = false ∧ Buffered c' ∧ Reads c.serial t.1.trace c'
  /-- the loop ends and the connection stays: the socket was empty, or is not read any more -/
  stays : t.2 = some false → r = .eagain ∨ ∃ c', t.1.slot fd = some c' ∧ c'.closing = true

/-- A turn that returns. -/
theorem TurnOut.ends {fd : Nat} {w : World} {c : ClientConnection} {r : ReadResult}
    {t : World × Option Bool} (h : TurnOut fd w c r t) {done : Bool} (hdone : t.2 = some done) :
    ReadOut fd c.serial w (t.1, done) := by
  obtain ⟨acts, hserved⟩ := h.served
  refine ⟨⟨acts, _, hserved⟩, h.answered, fun hstay => ?_⟩
  rcases h.stays (hdone.trans (congrArg some hstay)) with heagain | ⟨c', hc', hclosing⟩
  · obtain ⟨c', hc', -, -, -, hb, hreads⟩ := h.goes (.inr heagain)
    exact ⟨c', hc', fun _ => ⟨hb, hreads⟩⟩
  · refine ⟨c', hc', fun hopen => ?_⟩
    rw [hclosing] at hopen
    cases hopen

/-- A turn that brings nothing: it goes on, or the socket was empty or broken. -/
theorem noteRead_turn {fd : Nat} {w : World} {c : ClientConnection} (hc : w.slot fd = some c)
    (hfd : c.clientFd = fd) (hclosing : c.closing = false) (hb : Buffered c)
    (hreads : Reads c.serial w.trace c) {r : ReadResult}
    (hr : r.bytes.take (inbufSize - c.inlen) = []) {e : Option Bool}
    (he : e = some false → r = .eagain) : TurnOut fd w c r (noteRead fd [] w, e) := by
  have hserved : Served fd c.serial [] [] w (noteRead fd [] w) := noteRead_served hc hb (by simp)
  have hsame : Reads c.serial (noteRead fd [] w).trace c := by
    obtain ⟨frs, hrun, hacts, hstays⟩ := hreads
    exact ⟨frs, by rw [hserved.bytesFrom, List.append_nil, hrun],
      by rw [hserved.actionsOn, List.append_nil, hacts], hstays⟩
  exact ⟨⟨[], hr ▸ hserved⟩, hsame.answered, fun _ => ⟨c, hc, rfl, hfd, hclosing, hb, hsame⟩,
    fun h => .inl (he h)⟩

/-- The loop over the lines of one read returned. -/
theorem returned_turn {fd : Nat} {w w1 w2 : World} {c c1 : ClientConnection} {bytes got : Bytes}
    {done : Bool} (hgot : bytes.take (inbufSize - c.inlen) = got)
    (hcut : Cut fd c1 (c.inbuf ++ got) w1 w2 (.returned done)) (hb : Buffered c)
    (hreads : Reads c.serial w.trace c) (htaken : Served fd c.serial [] got w w1)
    (hser : c1.serial = c.serial) (hdis : c1.discarding = c.discarding) :
    TurnOut fd w c (.data bytes) (w2, some done) := by
  cases hcut with
  | @returned _ acts c' served slot closing answered =>
    rw [hser] at served answered
    rw [hdis] at answered
    have hserved := htaken.trans served
    rw [List.nil_append, List.append_nil, ← hgot] at hserved
    refine ⟨⟨acts, hserved⟩, hreads.stop hb hserved (hgot ▸ answered), fun h => ?_,
      fun h => .inr ⟨c', slot, closing (Option.some.inj h)⟩⟩
    rcases h with h | h <;> cases h

/-- The loop over the lines of one read came to its end, and what is left is moved. -/
theorem finished_turn {fd n : Nat} {w w1 w2 : World} {c c1 : ClientConnection} {bytes got : Bytes}
    (hgot : bytes.take (inbufSize - c.inlen) = got)
    (hcut : Cut fd c1 (c.inbuf ++ got) w1 w2 (.finished n)) (hfd : c.clientFd = fd)
    (hc : w.slot fd = some c) (hb : Buffered c) (hreads : Reads c.serial w.trace c)
    (htaken : Served fd c.serial [] got w w1) (hser : c1.serial = c.serial)
    (hdis : c1.discarding = c.discarding) (hsize : c1.inlen ≤ inbufSize) :
    TurnOut fd w c (.data bytes)
      ((compact fd n w2).1, if (compact fd n w2).2 then some true else none) := by
  cases hcut with
  | @finished _ frs c2 served slot serial closing size ended continues stays =>
    obtain ⟨frs', st, hrun, hserved', hstays', hlive⟩ :=
      compact_served slot closing (size ▸ hsize) ended
    rw [serial.trans hser] at hserved'
    rw [hser] at served
    rw [hdis] at continues
    have hserved := (htaken.trans served).trans hserved'
    rw [List.nil_append, ← List.map_append, List.append_nil, List.append_nil] at hserved
    have hruns : Framing.run 10 inbufSize (resume c.discarding) (c.inbuf ++ got)
        = (st, frs ++ frs') := by
      rw [show Framing.run 10 inbufSize (resume c.discarding) (c.inbuf ++ got) = _ from continues,
        hrun]
    have hstays : ∀ f ∈ frs ++ frs', (actionOf f).quits = false := fun f hf =>
      (List.mem_append.mp hf).elim (stays f) (hstays' f)
    have hthrough := through_stays hstays []
    rw [List.append_nil] at hthrough
    have hanswered : Answered c.serial (compact fd n w2).1.trace := by
      refine hreads.stop hb hserved (.of_eq ?_)
      rw [hruns, hthrough]
      exact (List.append_nil _).symm
    refine ⟨⟨_, hgot ▸ hserved⟩, hanswered, fun h => ?_, fun h => ?_⟩
    · have hgo : (compact fd n w2).2 = false := by
        rcases h with h | h
        · by_contra hdone
          rw [if_pos (by simpa using hdone)] at h
          cases h
        · cases h
      obtain ⟨c', hc', hser', hclosing', hb', hst⟩ := hlive hgo
      exact ⟨c', hc', hser'.trans (serial.trans hser), (hserved.client hc hc').2.trans hfd,
        hclosing', hb', hreads.next hb hserved (hst ▸ hruns) hstays⟩
    · dsimp only at h
      split at h <;> cases h

/-- **One turn of the loop over the reads.** -/
theorem readTurn_out {fd : Nat} {w : World} {c : ClientConnection} (hc : w.slot fd = some c)
    (hfd : c.clientFd = fd) (hclosing : c.closing = false) (hb : Buffered c)
    (hreads : Reads c.serial w.trace c) (r : ReadResult) :
    TurnOut fd w c r (readTurn fd r w) := by
  cases r with
  | eintr => exact noteRead_turn hc hfd hclosing hb hreads List.take_nil fun h => by cases h
  | eagain => exact noteRead_turn hc hfd hclosing hb hreads List.take_nil fun _ => rfl
  | error => exact noteRead_turn hc hfd hclosing hb hreads List.take_nil fun h => by cases h
  | data bytes =>
    rw [readTurn]
    dsimp only
    rw [conn_of_slot hc]
    generalize hgot : bytes.take (inbufSize - c.inlen) = got
    by_cases hnil : got = []
    · -- the end of the stream
      rw [if_pos hnil, hnil]
      exact noteRead_turn hc hfd hclosing hb hreads (r := .data bytes) (hgot.trans hnil) fun h => by
        cases h
    rw [if_neg hnil]
    have hlen : got.length ≤ inbufSize - c.inlen := by
      rw [← hgot]
      exact List.length_take_le _ _
    have hread := noteRead_served hc hb hlen
    have hs := modify_slot fd (show (noteRead fd got w).slot fd = some c from hc)
      fun c => { c with inbuf := c.inbuf ++ got }
    have hfill : Served fd c.serial [] [] (noteRead fd got w) ((noteRead fd got w).modify fd
        fun c => { c with inbuf := c.inbuf ++ got }) := .modify _ fun _ => rfl
    have htaken := hread.trans hfill
    rw [List.append_nil, List.append_nil] at htaken
    generalize ((noteRead fd got w).modify fd fun c => { c with inbuf := c.inbuf ++ got }) = w1 at *
    have hroom := hb.room
    have hsize : (c.inbuf ++ got).length ≤ inbufSize := by
      rw [List.length_append]
      have : c.inbuf.length = c.inlen := rfl
      omega
    have hle : c.scanned ≤ (c.inbuf ++ got).length := by
      rw [hb.scanned, List.length_append]
      exact Nat.le_add_right _ _
    have hcut := lineLoop_cut fd (inbufSize + 1) 0 c.scanned hs hfd hclosing hsize (Nat.zero_le _)
      hle (by rw [Nat.zero_add]; exact Nat.lt_succ_of_le hsize) (by
        rw [List.drop_zero, Nat.sub_zero, hb.scanned, ClientConnection.inlen, List.take_left]
        exact hb.unended)
    rw [conn_of_slot hs]
    dsimp only
    generalize lineLoop fd (inbufSize + 1) 0 c.scanned w1 = lines at *
    obtain ⟨w2, e⟩ := lines
    cases e with
    | returned done => exact returned_turn hgot hcut hb hreads htaken rfl rfl
    | finished n => exact finished_turn hgot hcut hfd hc hb hreads htaken rfl rfl hsize

/-- **The loop over the reads**, by induction on what they bring. -/
theorem readLoop_out (fd : Nat) : ∀ (rs : List ReadResult) {w : World} {c : ClientConnection},
    w.slot fd = some c → c.clientFd = fd → c.closing = false → Buffered c →
    Reads c.serial w.trace c → ReadOut fd c.serial w (readLoop fd rs w)
  | [], _, _, hc, hfd, hclosing, hb, hreads =>
    (readTurn_out hc hfd hclosing hb hreads .eagain).ends rfl
  | r :: rs, w, c, hc, hfd, hclosing, hb, hreads => by
    have hturn := readTurn_out hc hfd hclosing hb hreads r
    rw [readLoop]
    cases hgo : (readTurn fd r w).2 with
    | some done => exact hturn.ends hgo
    | none =>
      obtain ⟨acts, hserved⟩ := hturn.served
      obtain ⟨c', hc', hser', hfd', hclosing', hb', hreads'⟩ := hturn.goes (.inl hgo)
      rw [← hser'] at hreads'
      have hrest := readLoop_out fd rs hc' hfd' hclosing' hb' hreads'
      rw [hser'] at hrest
      exact .before hserved hrest

/-! ## 9. Events -/

/-- What is true of connection `k` between two events. -/
structure FramedAt (k : Nat) (w : World) : Prop where
  answered : Answered k w.trace
  reading : ∀ fd c, w.slot fd = some c → c.serial = k → c.closing = false →
    Buffered c ∧ Reads k w.trace c
  past : w.accepts ≤ k → actionsOn k w.trace = [] ∧ bytesFrom k w.trace = []

/-- **Every connection's bytes were answered.** -/
structure Framed (w : World) : Prop where
  housed : Housed w
  offered : Offered w.trace
  each : ∀ k, FramedAt k w

theorem reader_of_bare {c d : ClientConnection} (h : c.bare = d.bare) :
    c.closing = d.closing ∧ (Buffered d → Buffered c) ∧ stateOf c = stateOf d := by
  have hcl : c.bare.closing = d.bare.closing := congrArg _ h
  have hin : c.bare.inbuf = d.bare.inbuf := congrArg _ h
  have hsc : c.bare.scanned = d.bare.scanned := congrArg _ h
  have hdis : c.bare.discarding = d.bare.discarding := congrArg _ h
  have hin' : c.inbuf = d.inbuf := hin
  have hlen : c.inlen = d.inlen := congrArg List.length hin'
  refine ⟨hcl, fun hb => ⟨hin' ▸ hb.unended, hlen ▸ hb.room, hsc.trans (hlen ▸ hb.scanned)⟩, ?_⟩
  have hdis' : c.discarding = d.discarding := hdis
  rw [stateOf, stateOf, hin', hdis']

/-- Notes about others, while the connection keeps all but its queue. -/
theorem FramedAt.quiet {k : Nat} {w w' : World} (h : FramedAt k w) {new : List Obs}
    (htrace : w'.trace = w.trace ++ new) (ha : actionsOn k new = []) (hb : bytesFrom k new = [])
    (hacc : w.accepts ≤ w'.accepts)
    (hslots : ∀ fd c', w'.slot fd = some c' → c'.serial = k →
      ∃ c, w.slot fd = some c ∧ c'.bare = c.bare) : FramedAt k w' := by
  have hacts : actionsOn k w'.trace = actionsOn k w.trace := by
    rw [htrace, actionsOn_append, ha, List.append_nil]
  have hbytes : bytesFrom k w'.trace = bytesFrom k w.trace := by
    rw [htrace, bytesFrom_append, hb, List.append_nil]
  refine ⟨?_, fun fd c' hc' hk hcl => ?_, fun hle => ?_⟩
  · rw [Answered, hacts, hbytes]
    exact ⟨h.answered.1, fun hr => h.answered.2 (htrace ▸ hr).before⟩
  · obtain ⟨c, hc, hbare⟩ := hslots fd c' hc' hk
    obtain ⟨hcl', hbuf, hst⟩ := reader_of_bare hbare
    obtain ⟨h1, h2⟩ := h.reading fd c hc ((field_of_bare hbare).1.symm.trans hk) (hcl' ▸ hcl)
    refine ⟨hbuf h1, ?_⟩
    unfold Reads
    rw [hacts, hbytes, hst]
    exact h2
  · rw [hacts, hbytes]
    exact h.past (hacc.trans hle)

theorem Framed.quiet {w w' : World} (h : Framed w) (halike : Alike w w') {new : List Obs}
    (htrace : w'.trace = w.trace ++ new) (hnew : Notes 0 [] [] new)
    (hslots : ∀ fd c', w'.slot fd = some c' → ∃ c, w.slot fd = some c ∧ c'.bare = c.bare) :
    Framed w' := by
  refine ⟨h.housed.of_alike halike, htrace ▸ h.offered.append hnew.offered, fun k => ?_⟩
  refine (h.each k).quiet htrace ?_ ?_ (le_of_eq halike.accepts.symm) fun fd c' hc' _ =>
    hslots fd c' hc'
  · rw [hnew.actions, ite_self]
  · rw [hnew.bytes, ite_self]

/-- Another's event. -/
theorem Served.framedAt {fd k k' : Nat} {acts : List Action} {got : Bytes} {w w' : World}
    (hs : Served fd k acts got w w') {c : ClientConnection} (hc : w.slot fd = some c)
    (hk : c.serial = k) (hne : k' ≠ k) (h : FramedAt k' w) : FramedAt k' w' := by
  obtain ⟨new, hnew, hn⟩ := hs.trace
  refine h.quiet hnew (by rw [hn.actions, if_neg hne]) (by rw [hn.bytes, if_neg hne])
    (le_of_eq hs.alike.accepts.symm) fun n c' hc' hk' => ?_
  have hnf : n ≠ fd := by
    rintro rfl
    exact hne (hk'.symm.trans ((hs.client hc hc').1.trans hk))
  have ho := hs.others n hnf
  rw [hc', Option.map_some, eq_comm, Option.map_eq_some_iff] at ho
  obtain ⟨d, hd, hbare⟩ := ho
  exact ⟨d, hd, hbare.symm⟩

theorem framedAt_removeClient {k fd : Nat} {w : World} {c : ClientConnection}
    (hc : w.slot fd = some c) (h : FramedAt k w) : FramedAt k (removeClient fd w) := by
  refine h.quiet (removeClient_trace hc) rfl rfl (le_of_eq (removeClient_accepts fd w).symm)
    fun n c' hc' _ => ?_
  rw [removeClient_slot] at hc'
  split at hc'
  · cases hc'
  · exact ⟨c', hc', rfl⟩

/-- The connection that is removed. -/
theorem framedAt_removed {fd : Nat} {w : World} (hw : Housed w) {c : ClientConnection}
    (hc : w.slot fd = some c) (h : Answered c.serial w.trace) :
    FramedAt c.serial (removeClient fd w) := by
  have hb := badge_of_slot hc
  refine ⟨?_, fun n c' hc' hk _ => ?_, fun hle => ?_⟩
  · have hacts : actionsOn c.serial (w.trace ++ [.removed c.serial])
        = actionsOn c.serial w.trace := by
      simp [actionsOn, Obs.actionOn]
    have hbytes : bytesFrom c.serial (w.trace ++ [.removed c.serial])
        = bytesFrom c.serial w.trace := by
      simp [bytesFrom, Obs.bytesFrom]
    rw [removeClient_trace hc, Answered, hacts, hbytes]
    exact ⟨h.1, fun hr => h.2 hr.before⟩
  · have hb' := badge_of_slot hc'
    rw [hk] at hb'
    obtain ⟨hn, hold⟩ := badge_of_removed hb'
    exact absurd (hw.distinct _ _ _ _ _ hold hb) hn
  · rw [removeClient_accepts] at hle
    exact absurd (hw.known _ _ _ hb) (not_lt.mpr hle)

/-- **An event of a client**, with the removal at its end. -/
theorem ReadOut.framed {fd : Nat} {w : World} {r : World × Bool} {c : ClientConnection}
    (hw : Framed w) (hc : w.slot fd = some c) (h : ReadOut fd c.serial w r) :
    Framed (removeIfDone fd r) := by
  obtain ⟨acts, got, hs⟩ := h.served
  have hhouse := hw.housed.of_alike hs.alike
  have hbadge := hs.alike.badge fd
  rw [badge_of_slot hc] at hbadge
  obtain ⟨c1, hc1, hser, -⟩ := slot_of_badge hbadge
  obtain ⟨new, hnew, hn⟩ := hs.trace
  have hoff : Offered r.1.trace := hnew ▸ hw.offered.append hn.offered
  have hother : ∀ k, k ≠ c.serial → FramedAt k r.1 := fun k hk =>
    hs.framedAt hc rfl hk (hw.each k)
  unfold removeIfDone
  split
  · refine ⟨housed_removeClient hhouse hc1, ?_, fun k => ?_⟩
    · rw [removeClient_trace hc1]
      exact hoff.append (by simp [Offered])
    · by_cases hk : k = c.serial
      · rw [hk, ← hser]
        exact framedAt_removed hhouse hc1 (hser ▸ h.answered)
      · exact framedAt_removeClient hc1 (hother k hk)
  · rename_i hdone
    refine ⟨hhouse, hoff, fun k => ?_⟩
    by_cases hk : k = c.serial
    · subst hk
      refine ⟨h.answered, fun n c' hc' hk' hcl => ?_, fun hle => ?_⟩
      · have hn : n = fd := by
          have hb' := badge_of_slot hc'
          rw [hk', ← hser] at hb'
          exact hhouse.distinct _ _ _ _ _ hb' (badge_of_slot hc1)
        subst hn
        obtain ⟨c2, hc2, hread⟩ := h.reading (by simpa using hdone)
        rw [hc2, Option.some.injEq] at hc'
        subst hc'
        exact hread hcl
      · rw [hs.alike.accepts] at hle
        exact absurd (hw.housed.known _ _ _ (badge_of_slot hc)) (not_lt.mpr hle)
    · exact hother k hk

/-- An event that reads nothing. -/
theorem quiet_out {fd : Nat} {w : World} {r : World × Bool} {c c' : ClientConnection}
    (hw : Framed w) (hc : w.slot fd = some c) (hs : Served fd c.serial [] [] w r.1)
    (hc' : r.1.slot fd = some c') (hbare : c'.bare = c.bare) : ReadOut fd c.serial w r := by
  obtain ⟨new, hnew, hn⟩ := hs.trace
  have h : FramedAt c.serial r.1 := (hw.each c.serial).quiet hnew (by rw [hn.actions, ite_self])
    (by rw [hn.bytes, ite_self]) (le_of_eq hs.alike.accepts.symm) fun n d hd hk => by
      by_cases hnf : n = fd
      · subst hnf
        rw [hc', Option.some.injEq] at hd
        exact ⟨c, hc, hd ▸ hbare⟩
      · have ho := hs.others n hnf
        rw [hd, Option.map_some, eq_comm, Option.map_eq_some_iff] at ho
        obtain ⟨e, he, hbare'⟩ := ho
        exact ⟨e, he, hbare'.symm⟩
  exact ⟨⟨_, _, hs⟩, h.answered, fun _ => ⟨c', hc', fun hcl =>
    h.reading fd c' hc' (field_of_bare hbare).1 hcl⟩⟩

theorem flushClient_served (fd : Nat) (w : World) (k : Nat) :
    Served fd k [] [] w (flushClient fd w).1 := by
  have ht := tenants_of_roster (flushClient_roster fd w)
  refine ⟨⟨badge_of_tenants ht, rfl, rfl, rfl, le_of_eq (currCap_of_view ht).symm⟩, fun n _ => ?_,
    [_], trace_note _ _, .none (fun _ => rfl) (by simp)⟩
  rw [slot_view, slot_view]
  exact congrArg (fun r : List (Option ClientConnection) => r[n]?.join) (flushClient_roster fd w)

theorem serveEvent_out {ev : Kevent} {reads : List ReadResult} {w : World} {c : ClientConnection}
    (hw : Framed w) (hc : w.slot ev.ident = some c) :
    ReadOut ev.ident c.serial w (serveEvent ev reads w) := by
  have hstay : ∀ done, ReadOut ev.ident c.serial w (w, done) := fun done =>
    quiet_out hw hc (.refl w) hc rfl
  unfold serveEvent
  split
  · exact hstay true
  · split
    · obtain ⟨c', hc', hbare⟩ := slot_of_view (v := .bare) (flushClient_roster ev.ident w) hc
      exact quiet_out hw hc (flushClient_served _ _ _) hc' hbare
    · unfold communicate
      rw [conn_of_slot hc]
      split
      · exact hstay false
      · rename_i hcl
        rw [Bool.not_eq_true] at hcl
        obtain ⟨hb, hreads⟩ := (hw.each c.serial).reading _ c hc rfl hcl
        exact readLoop_out ev.ident reads hc (hw.housed.own _ _ _ (badge_of_slot hc)) hcl hb hreads

theorem framed_note_applied {w : World} (hw : Framed w) (k fd : Nat) :
    Framed (w.note (.applied k fd)) :=
  hw.quiet (alike_of_conns rfl rfl rfl rfl) (trace_note _ _) (.none (fun _ => rfl) (by simp))
    fun _ c' hc' => ⟨c', hc', rfl⟩

theorem framed_handleClientEvent {w : World} (hw : Framed w) (ev : Kevent)
    (reads : List ReadResult) : Framed (handleClientEvent ev reads w) := by
  unfold handleClientEvent
  split
  · exact hw
  · rename_i c hc
    have hnoted := framed_note_applied hw c.serial ev.ident
    have hc1 : (w.note (.applied c.serial ev.ident)).slot ev.ident = some c := hc
    exact (serveEvent_out hnoted hc1).framed hnoted hc1

/-- A new connection has read nothing. -/
theorem framed_registered {w w' : World} (hw : Framed w) {fd : Nat} (hopen : fd ∉ w.opened)
    (h : Registered w fd w') : Framed w' := by
  refine ⟨housed_registered hw.housed hopen h, ?_, fun k => ?_⟩
  · rw [h.trace]
    exact hw.offered.append (by simp [Offered])
  · have hother : k ≠ w.accepts → FramedAt k w' := fun hne =>
      (hw.each k).quiet h.trace rfl rfl (by rw [h.accepts]; omega) fun n c' hc' hk => by
        rw [h.slot] at hc'
        split at hc'
        · rw [Option.some.injEq] at hc'
          exact absurd (hk.symm.trans (hc' ▸ rfl)) hne
        · exact ⟨c', hc', rfl⟩
    by_cases hk : k = w.accepts
    · subst hk
      obtain ⟨ha, hb⟩ := (hw.each w.accepts).past (le_refl _)
      have ha' : actionsOn w.accepts w'.trace = [] := by
        rw [h.trace, actionsOn_append, ha]
        rfl
      have hb' : bytesFrom w.accepts w'.trace = [] := by
        rw [h.trace, bytesFrom_append, hb]
        rfl
      refine ⟨.of_eq (by rw [ha', hb']; rfl), fun n c' hc' hser _ => ?_, fun _ => ⟨ha', hb'⟩⟩
      rw [h.slot] at hc'
      split at hc'
      · rw [Option.some.injEq] at hc'
        subst hc'
        exact ⟨⟨by simp [ClientConnection.fresh], show (0 : Nat) < inbufSize by decide, rfl⟩, [],
          by rw [hb']; rfl, by rw [ha']; rfl, by simp⟩
      · exact absurd (hw.housed.known _ _ _ (badge_of_slot hc')) (by omega)
    · exact hother hk

theorem framed_acceptClients : ∀ (rs : List AcceptResult) {w : World}, Framed w →
    Framed (acceptClients rs w)
  | [], _, hw => hw
  | .drained :: _, _, hw => hw
  | .interrupted :: rs, _, hw => framed_acceptClients rs hw
  | .connection fd grown calloced armed :: rs, w, hw => by
    rw [acceptClients]
    split
    · exact framed_acceptClients rs hw
    · rename_i hopen
      refine framed_acceptClients rs ?_
      have hcases := acceptClient_cases hw.housed.table hopen (hw.housed.slot_none hopen) grown
        calloced armed
      split at hcases
      · exact framed_registered hw hopen hcases
      · exact hw.quiet hcases.alike (hcases.trace.trans (List.append_nil _).symm)
          (.output (by simp)) fun n c' hc' => ⟨c', hcases.slot n ▸ hc', rfl⟩

/-- **Every event leaves every connection's bytes answered.** -/
theorem framed_dispatch {w : World} (hw : Framed w) (o : Occurrence) : Framed (dispatch w o) := by
  have hsupplied : Framed { w with sock := o.sock, heap := o.heap } :=
    hw.quiet (alike_of_conns rfl rfl rfl rfl) (List.append_nil _).symm (.output (by simp))
      fun _ c' hc' => ⟨c', hc', rfl⟩
  unfold dispatch
  dsimp only
  split
  · exact framed_acceptClients _ hsupplied
  · exact framed_handleClientEvent hsupplied _ _

theorem framed_init (serverFd : Nat) (others : List Nat) : Framed (.init serverFd others) := by
  refine ⟨(owned_init serverFd others).housed, by simp [Offered, World.init], fun k => ?_⟩
  refine ⟨.of_eq rfl, fun fd c hc => ?_, fun _ => ⟨rfl, rfl⟩⟩
  rw [init_slot] at hc
  cases hc

/-- **In every run of the main loop the bytes of every connection are answered.** -/
theorem framed_run (serverFd : Nat) (others : List Nat) (os : List Occurrence) :
    Framed (Run.run dispatch (.init serverFd others) os) :=
  Run.run_invariant (I := Framed) (fun _ o h => framed_dispatch h o) os _
    (framed_init serverFd others)

/-- **Request framing does not depend on segmentation.**  In every run, whatever the reads of a
connection bring and however they are interleaved with interruptions, empty sockets and the
events of others, `read` is offered room each time; and while no reply to it fails, what was
done about the lines of a connection is what its bytes ask for, so connections with the same
bytes were done the same. -/
theorem request_framing (serverFd : Nat) (others : List Nat) (os : List Occurrence) (k : Nat) :
    let w := Run.run dispatch (.init serverFd others) os
    Offered w.trace ∧
      (RepliesSucceed k w.trace → actionsOn k w.trace = requests (bytesFrom k w.trace) ∧
        ∀ serverFd' others' os' k',
          let w' := Run.run dispatch (.init serverFd' others') os'
          RepliesSucceed k' w'.trace → bytesFrom k' w'.trace = bytesFrom k w.trace →
            actionsOn k' w'.trace = actionsOn k w.trace) := by
  have hw := framed_run serverFd others os
  refine ⟨hw.offered, fun hr => ⟨(hw.each k).answered.2 hr,
    fun serverFd' others' os' k' hr' hb => ?_⟩⟩
  have hw' := framed_run serverFd' others' os'
  rw [(hw.each k).answered.2 hr, (hw'.each k').answered.2 hr', hb]

/-- A login and a `QUIT` in four reads and two events, with a command behind the `QUIT`. -/
def splitRequests : List Occurrence :=
  [listening [5], readable 5 (lit "LOG") willing,
    { readable 5 [] willing with
      reads := [.eintr, .data (lit "IN ann\r\n\nQU"), .data (lit "IT\nBUY JNST 1 1\n")] }]

theorem request_framing_split :
    actionsOn 0 (Run.run dispatch (.init 3 []) splitRequests).trace
        = requests (bytesFrom 0 (Run.run dispatch (.init 3 []) splitRequests).trace) ∧
      requests (bytesFrom 0 (Run.run dispatch (.init 3 []) splitRequests).trace)
        = [.line (lit "LOGIN ann"), .line [], .line (lit "QUIT")] :=
  ⟨((request_framing 3 [] splitRequests 0).2 (by decide +kernel)).1, by decide +kernel⟩

end SocketExchange
