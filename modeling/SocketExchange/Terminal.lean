/-
# At the terminal

A user types lines into one of the clients and reads what it prints.  Behind it are the client's
buffers, the sockets, the kernel's notifications and the server's buffers, and the other clients.
Here is what is left of all these: the user has a conversation of the session protocol with the
server.  Each line that was typed is a request, in order; each response that is printed is the
one to its request, in order; and when everything has come to rest, every request of a program
that still runs was made, and of a socket that still takes bytes every response was printed
(`terminal`).
-/
import SocketExchange.Programs
import SocketExchange.Conversation
import SocketExchange.Wakeups

namespace SocketExchange

open CText

/-! ## 1. What is asked and what is answered -/

/-- A line of white space is not answered. -/
def Action.isBlank : Action → Bool
  | .line text => (cstr text).all isSpace
  | .tooLong => false

/-- The requests that get an answer, of the program's own command and what was typed. -/
def Program.asks (p : Program) : List Action :=
  (requests (p.first ++ Framing.joined 10 ((typedLines p.client.typed).filter isKept))).filter
    fun a => !a.isBlank

/-- The responses among what the client has printed. -/
def Client.answers (c : Client) : List Bytes :=
  (Client.responses c.shown).filter fun text => !isReport text

theorem saidByClient_eq (k : Nat) (trace : List Obs) :
    saidByClient k trace = (actionsOn k trace).filter fun a => !a.isBlank := by
  rw [saidByClient, said, List.filterMap_filterMap, actionsOn, List.filter_filterMap]
  refine List.filterMap_congr fun o _ => ?_
  cases o with
  | line k' text =>
    by_cases hk : k' = k
    · cases hblank : (cstr text).all isSpace <;>
        simp [Obs.said, Obs.actionOn, Action.isBlank, hk, hblank, Option.filter]
    · simp [Obs.said, Obs.actionOn, hk]
  | tooLong k' =>
    by_cases hk : k' = k <;> simp [Obs.said, Obs.actionOn, Action.isBlank, hk, Option.filter]
  | handed h =>
    simp only [Obs.said, Obs.actionOn]
    split <;> rfl
  | _ => rfl

theorem saidByServer_eq (k : Nat) (trace : List Obs) :
    saidByServer k trace
      = ((handedTo k trace).map Handed.msg).filter fun msg => !isReport msg := by
  rw [saidByServer, said, List.filterMap_filterMap, handedTo, List.map_filterMap,
    List.filter_filterMap]
  refine List.filterMap_congr fun o _ => ?_
  cases o with
  | handed h =>
    by_cases hk : h.receiver = k
    · cases hreport : isReport h.msg <;> simp [Obs.said, hk, hreport, Option.filter]
    · simp [Obs.said, hk]
  | line k' text =>
    rw [Obs.said]
    split <;> rfl
  | tooLong k' =>
    rw [Obs.said]
    split <;> rfl
  | _ => rfl

/-- A line is a report if its text is. -/
theorem isReport_line {m : Message} (h : m.Proper) : isReport m.line = isReport m.text := by
  rw [Message.line_eq h, isReport, isReport]
  cases m.text <;> rfl

/-- The responses among messages, as lines and as texts. -/
theorem answers_of_messages {messages : List Message} (h : ∀ m ∈ messages, m.Proper) :
    (messages.map Message.line).filter (fun msg => !isReport msg)
      = ((messages.map Message.text).filter fun text => !isReport text).map (· ++ [10]) := by
  rw [List.filter_map, List.filter_map, List.map_map]
  have hfilter : messages.filter ((fun msg => !isReport msg) ∘ Message.line)
      = messages.filter ((fun text => !isReport text) ∘ Message.text) :=
    List.filter_congr fun m hm => by
      rw [Function.comp_apply, Function.comp_apply, isReport_line (h m hm)]
  rw [hfilter]
  exact List.map_congr_left fun m hm => Message.line_eq (h m (List.mem_filter.mp hm).1)

/-! ## 2. A user of the exchange -/

/-- **The user has a conversation of the protocol with the server.**  The program may be a trader's
or a market-data client, started in any way, with any polls and reads and with writes that
return anything; the machine may be in any state that it reaches with other clients.  What the
server's socket has received is a first part of what the program sent, and what the program has
read is a first part of what the server wrote; no message to the connection has failed.  Then
there is a conversation that leads to the session the server holds, whose requests are a first
part of what the program and its user ask for, and whose responses begin with those printed.

When the machine is at rest, all that was sent has arrived, the connection is not closing and the
program is still in its loop, everything was asked for; and when the machine is at rest, the
socket still takes more and the program has read all that was written, every response is
printed. -/
theorem terminal {m : Machine} (hm : m.Reachable) {fd : Nat} {c : ClientConnection}
    (hc : m.world.slot fd = some c)
    (hall : ∀ x ∈ handedTo c.serial m.world.trace, x.failed = false) (p : Program)
    (hsent : (m.inbound fd).sent <+: p.client.sent)
    (hread : p.client.received <+: writtenTo c.serial m.world.trace) :
    ∃ xs, (Session.fresh c.serial).replay xs = some c.session ∧
      xs.map Prod.fst <+: p.asks ∧
      p.client.answers.map (· ++ [10]) <+: xs.map (fun x => x.2.text) ∧
      (m.Quiet → c.closing = false → (m.inbound fd).sent = p.client.sent →
        p.client.returned = false → xs.map Prod.fst = p.asks) ∧
      (m.Quiet → m.outbound fd ≠ [] → p.client.received = writtenTo c.serial m.world.trace →
        p.client.answers.map (· ++ [10]) = xs.map fun x => x.2.text) := by
  have hawake := Machine.awake_of_reachable hm
  have hreach := hawake.reachable
  obtain ⟨xs, s, hconv⟩ := conversed_of_reachable hreach c.serial
  have hrequests : xs.map Prod.fst
      = (actionsOn c.serial m.world.trace).filter fun a => !a.isBlank := by
    rw [← saidByClient_eq, saidByClient, hconv.spoken, saidByClient_spoken]
  obtain ⟨hpre, hfull⟩ := p.sends
  obtain ⟨-, done, rest, hproper, hmsgs, hshown, hreceived, hwritten⟩ :=
    p.heard.told_by_server hreach hc hall hread
  have hresponses : xs.map (fun x => x.2.text)
      = (((done ++ rest).map Message.text).filter fun text => !isReport text).map (· ++ [10]) := by
    rw [← answers_of_messages hproper, ← hmsgs, ← saidByServer_eq, saidByServer, hconv.spoken,
      saidByServer_spoken]
  have hanswers : p.client.answers = (done.map Message.text).filter fun text => !isReport text := by
    rw [Client.answers, hshown]
  refine ⟨xs, by rw [hconv.replayed, hconv.held fd c hc rfl], ?_, ?_, ?_, ?_⟩
  · -- what was read was sent, and what was done was asked for
    have hbytes : bytesFrom c.serial m.world.trace <+: (m.inbound fd).sent := by
      rw [(hawake.each fd c hc).read]
      exact List.take_prefix _ _
    have hasked := requests_prefix (hbytes.trans (hsent.trans hpre))
    rw [hrequests]
    exact ((hawake.framed.each c.serial).answered.1.trans hasked).filter _
  · rw [hanswers, hresponses, List.map_append, List.filter_append, List.map_append]
    exact List.prefix_append _ _
  · intro hquiet hopen harrived hloop
    obtain ⟨-, -, hacts⟩ := hquiet.handled hawake hc hopen
    rw [hrequests, hacts, harrived, hfull hloop]
    rfl
  · intro hquiet hroom hcaught
    -- nothing is queued, and nothing less than a line waits in the client
    have hempty : c.pending = [] := by
      by_contra hne
      exact hroom (hquiet.full hawake hc (Nat.pos_of_ne_zero fun h0 => hne (pending_eq_nil.mp h0)))
    rw [hempty, List.append_nil, ← hcaught, hreceived, List.map_append,
      List.flatten_append] at hwritten
    have hrest : rest = [] := by
      by_contra hne
      obtain ⟨r, rs, rfl⟩ := List.exists_cons_of_ne_nil hne
      refine p.heard.unended ?_
      rw [List.append_cancel_left hwritten, List.map_cons, List.flatten_cons,
        Message.bytes_eq (hproper r (List.mem_append_right _ List.mem_cons_self))]
      simp
    rw [hanswers, hresponses, hrest, List.append_nil]

/-- `trader_client 127.0.0.1 8080 ann`, which has read its first response. -/
def ann : Program :=
  .trader [lit "127.0.0.1", lit "8080", lit "ann"]
    { ignored := true, socket := true, known := fun _ => true, connected := fun _ _ => true
      writes := [] }
    [.ready (some (.data (lit "OK\n"))) none []]

theorem terminal_ann :
    ann.asks = [.line (lit "LOGIN ann")] ∧ ann.client.answers = [lit "OK"] ∧
      ∃ c xs, behindLogin.world.slot 5 = some c ∧
        (Session.fresh c.serial).replay xs = some c.session ∧ xs.map Prod.fst = ann.asks ∧
        ann.client.answers.map (· ++ [10]) = xs.map fun x => x.2.text := by
  have hsome : (behindLogin.world.slot 5).isSome := by decide +kernel
  obtain ⟨c, hc⟩ := Option.isSome_iff_exists.mp hsome
  have hfields : (behindLogin.world.slot 5).map (fun c => (c.closing, c.serial))
      = some (false, 0) := by
    decide +kernel
  rw [hc, Option.map_some, Option.some.injEq, Prod.mk.injEq] at hfields
  obtain ⟨hopen, hserial⟩ := hfields
  have hquiet : behindLogin.Quiet := ⟨rfl, fun _ _ _ => rfl⟩
  have hsent : (behindLogin.inbound 5).sent = ann.client.sent := by decide +kernel
  have hread : ann.client.received = writtenTo 0 behindLogin.world.trace := by decide +kernel
  rw [← hserial] at hread
  have hall : ∀ x ∈ handedTo 0 behindLogin.world.trace, x.failed = false := by decide +kernel
  obtain ⟨xs, hreplay, -, -, hasked, hanswered⟩ := terminal reachable_behindLogin hc
    (hserial ▸ hall) ann (hsent ▸ List.prefix_rfl) (hread ▸ List.prefix_rfl)
  exact ⟨by decide +kernel, by decide +kernel, c, xs, hc, hreplay,
    hasked hquiet hopen hsent (by decide +kernel), hanswered hquiet (by decide +kernel) hread⟩

end SocketExchange
