/-
# The programs: `main` of `trader_client.c` and `market_data_client.c`

Both clients take an address, a port and one more argument, for which they send a command of
their own before they listen to the user: `LOGIN` with a name, or `SUBSCRIBE` with an
instrument.  The server checks its port in the same way.

`clientMain` is what comes before `communicate`, and `Program` is a client with everything that
happens to it.  `EndToEnd` has what a client sends when its writes do not fail and nothing was
sent before; here its writes may return anything, and its own command comes first
(`program_sends`).
-/
import SocketExchange.EndToEnd

namespace SocketExchange

open CText

/-! ## 1. The port -/

/-- `PORT` -/
def defaultPort : Int := 8080

/-- The check of `argv[2]`, the same in the three programs.  Without a numeral `strtol` returns
0, which is no port. -/
def portOf (arg : Bytes) : Option Int :=
  match numeral arg with
  | none => none
  | some (n, rest) =>
    let value := saturate64 n
    if rest ≠ [] ∨ value ≤ 0 ∨ value > 65535 then none else some value

/-- **What counts as a port**: white space and an integer token from 1 to 65535, and nothing
behind it. -/
theorem portOf_eq_some {arg : Bytes} {port : Int} : portOf arg = some port ↔
    ∃ blank token, arg = blank ++ token ∧ (∀ b ∈ blank, isSpace b = true) ∧
      intToken token = some port ∧ 1 ≤ port ∧ port ≤ 65535 := by
  constructor
  · intro h
    unfold portOf at h
    split at h
    · cases h
    · rename_i n rest hnum
      dsimp only at h
      split at h
      · cases h
      · rename_i hok
        push Not at hok
        obtain ⟨rfl, hlo, hhi⟩ := hok
        obtain ⟨token, htoken, hint⟩ := signedPrefix_split hnum
        rw [List.append_nil] at htoken
        have hn : saturate64 n = n := by
          unfold saturate64 at hlo hhi ⊢
          omega
        rw [Option.some.injEq, hn] at h
        subst h
        refine ⟨arg.takeWhile isSpace, token, ?_, fun b hb => List.mem_takeWhile_imp hb, hint,
          by omega, by omega⟩
        rw [← htoken, skipSpace, List.takeWhile_append_dropWhile]
  · rintro ⟨blank, token, rfl, hblank, hint, hlo, hhi⟩
    obtain ⟨hne, hbytes⟩ := intToken_bytes hint
    have hskip : skipSpace (blank ++ token) = token := by
      obtain ⟨b, rest, rfl⟩ := List.exists_cons_of_ne_nil hne
      have hb : ¬ isSpace b = true := by simp [(hbytes b List.mem_cons_self).1]
      rw [skipSpace, List.dropWhile_append_of_pos hblank, List.dropWhile_cons_of_neg hb]
    have hnum : numeral (blank ++ token) = some (port, []) := by
      rw [numeral, hskip]
      exact signedPrefix_of_intToken hint
    have hport : saturate64 port = port := by
      unfold saturate64
      omega
    unfold portOf
    rw [hnum]
    dsimp only
    rw [hport, if_neg (by simp; omega)]

/-! ## 2. In front of the loop -/

/-- What the calls in front of the loop come to. -/
structure Setup where
  /-- `signal(SIGPIPE, SIG_IGN)` -/
  ignored : Bool
  socket : Bool
  /-- `inet_pton` knows the address -/
  known : Bytes → Bool
  connected : Bytes → Int → Bool
  /-- of `writeAll`, for the command -/
  writes : List WriteResult

/-- `SERVER_IP` -/
def serverIp : Bytes := lit "127.0.0.1"

/-- The command for the third argument. -/
def greeting (verb : Bytes) (args : List Bytes) : Bytes :=
  match args[2]? with
  | none => []
  | some arg => verb ++ lit " " ++ arg ++ lit "\n"

/-- `main` up to `communicate`; `args` is `argv` from 1 on.  Where `main` returns before, the
client has printed why. -/
def clientMain (verb : Bytes) (args : List Bytes) (s : Setup) : Client :=
  if s.ignored = false then Client.start.quit (lit "Failed to ignore SIGPIPE")
  else
    let host := args[0]?.getD serverIp
    match args[1]?.elim (some defaultPort) portOf with
    | none => Client.start.quit (lit "Invalid port: " ++ args[1]?.getD [])
    | some port =>
      if s.socket = false then Client.start.quit (lit "Failed to create socket")
      else if s.known host = false then
        Client.start.quit (lit "Invalid server address: " ++ host)
      else if s.connected host port = false then
        Client.start.quit (lit "Failed to connect to server")
      else if args[2]? = none then Client.start
      else if (greeting verb args).length ≥ bufferSize then
        Client.start.quit (lit "Failed to send " ++ verb)
      else
        let r := Client.writeAll (greeting verb args) s.writes
        let c := { Client.start with sent := r.wrote }
        if r.ok then c else c.quit (lit "Failed to send " ++ verb)

/-- A client and what happens to it: `polls` are the polls of its loop so far. -/
structure Program where
  verb : Bytes
  /-- `argv` from 1 on -/
  args : List Bytes
  setup : Setup
  polls : List Client.Poll

namespace Program

/-- `trader_client` -/
def trader (args : List Bytes) (setup : Setup) (polls : List Client.Poll) : Program :=
  { verb := lit "LOGIN", args := args, setup := setup, polls := polls }

/-- `market_data_client` -/
def marketData (args : List Bytes) (setup : Setup) (polls : List Client.Poll) : Program :=
  { verb := lit "SUBSCRIBE", args := args, setup := setup, polls := polls }

def client (p : Program) : Client :=
  Run.run Client.turn (clientMain p.verb p.args p.setup) p.polls

/-- The command it begins with. -/
def first (p : Program) : Bytes := greeting p.verb p.args

end Program

/-! ## 3. Writes that return anything -/

namespace Client

/-- `writeAll` writes a first part, and all of it if it says so. -/
theorem writeAll_wrote : ∀ (writes : List WriteResult) (data : Bytes),
    (writeAll data writes).wrote <+: data ∧
      ((writeAll data writes).ok = true → (writeAll data writes).wrote = data)
  | [], data => ⟨List.prefix_rfl, fun _ => rfl⟩
  | r :: rs, data => by
    unfold writeAll
    split
    · rename_i hnil
      exact ⟨List.nil_prefix, fun _ => hnil.symm⟩
    · cases r with
      | eintr => exact writeAll_wrote rs data
      | eagain => exact ⟨List.nil_prefix, fun h => by cases h⟩
      | error => exact ⟨List.nil_prefix, fun h => by cases h⟩
      | took n =>
        obtain ⟨hpre, hall⟩ := writeAll_wrote rs (data.drop (taken n data.length))
        have hsplit := List.take_append_drop (taken n data.length) data
        constructor
        · conv_rhs => rw [← hsplit]
          exact (List.prefix_append_right_inj _).mpr hpre
        · intro hok
          dsimp only
          rw [hall hok, hsplit]

/-- The loop over what was typed sends more. -/
theorem sendLoop_grows (fuel line : Nat) (writes : List WriteResult) (c : Client) :
    c.sent <+: (sendLoop fuel line writes c).1.sent := by
  obtain ⟨d, out, heq⟩ := sendLoop_kept fuel line writes c
  rw [heq]
  exact List.prefix_append _ _

/-- A client that had sent something before. -/
def behind (first : Bytes) (c : Client) : Client := { c with sent := first ++ c.sent }

/-- **The loop with any writes is the loop with willing ones**, as far as it does not fail, and
whatever was sent before. -/
theorem sendLoop_any (first : Bytes) : ∀ (fuel line : Nat) (writes : List WriteResult) (c : Client),
    (sendLoop fuel line writes (c.behind first)
        = ((sendLoop fuel line [] c).1.behind first, (sendLoop fuel line [] c).2)) ∨
      (sendLoop fuel line writes (c.behind first)).2 = none ∧
        (sendLoop fuel line writes (c.behind first)).1.typed = c.typed ∧
        (sendLoop fuel line writes (c.behind first)).1.sent
          <+: first ++ (sendLoop fuel line [] c).1.sent
  | 0, _, _, _ => .inl rfl
  | fuel + 1, line, writes, c => by
    have hsame : (c.behind first).inbuf = c.inbuf ∧ (c.behind first).discarding = c.discarding :=
      ⟨rfl, rfl⟩
    rw [sendLoop, sendLoop, hsame.1, hsame.2]
    cases findNewline c.inbuf line with
    | none => exact .inl rfl
    | some newline =>
      dsimp only
      by_cases hdiscarding : c.discarding = true
      · rw [if_pos hdiscarding, if_pos hdiscarding]
        exact sendLoop_any first fuel (newline + 1) writes { c with discarding := false }
      rw [if_neg hdiscarding, if_neg hdiscarding]
      by_cases hlen : newline - line + 1 > 1
      · rw [if_pos hlen, if_pos hlen]
        generalize (c.inbuf.drop line).take (newline - line + 1) = text
        have hwilling : writeAll text [] = { wrote := text, writes := [], ok := true } := rfl
        obtain ⟨hpre, hall⟩ := writeAll_wrote writes text
        rw [hwilling, if_pos rfl]
        by_cases hok : (writeAll text writes).ok = true
        · rw [if_pos hok, hall hok]
          have h := sendLoop_any first fuel (newline + 1) (writeAll text writes).writes
            { c with sent := c.sent ++ text }
          rw [behind, ← List.append_assoc] at h
          exact h
        · rw [if_neg hok]
          refine .inr ⟨rfl, rfl, ?_⟩
          have hmore := sendLoop_grows fuel (newline + 1) [] { c with sent := c.sent ++ text }
          refine List.IsPrefix.trans ?_ ((List.prefix_append_right_inj first).mpr hmore)
          rw [← List.append_assoc]
          exact (List.prefix_append_right_inj _).mpr hpre
      · rw [if_neg hlen, if_neg hlen]
        exact sendLoop_any first fuel (newline + 1) writes c

theorem sendPendingCommands_typed (writes : List WriteResult) (c : Client) :
    (sendPendingCommands writes c).1.typed = c.typed := by
  obtain ⟨d, out, heq⟩ := sendLoop_kept (c.inbuf.length + 1) 0 writes c
  unfold sendPendingCommands
  generalize sendLoop (c.inbuf.length + 1) 0 writes c = r at heq ⊢
  obtain ⟨r, stop⟩ := r
  cases heq
  cases stop with
  | none => rfl
  | some line =>
    dsimp only
    split <;> rfl

/-- So is `sendPendingCommands`. -/
theorem sendPendingCommands_any (first : Bytes) (writes : List WriteResult) {c : Client}
    (hok : (sendPendingCommands [] c).2 = true) :
    (sendPendingCommands writes (c.behind first)
        = ((sendPendingCommands [] c).1.behind first, true)) ∨
      (sendPendingCommands writes (c.behind first)).2 = false ∧
        (sendPendingCommands writes (c.behind first)).1.typed = c.typed ∧
        (sendPendingCommands writes (c.behind first)).1.sent
          <+: first ++ (sendPendingCommands [] c).1.sent := by
  have h := sendLoop_any first (c.inbuf.length + 1) 0 writes c
  unfold sendPendingCommands at hok ⊢
  rw [show (c.behind first).inbuf = c.inbuf from rfl]
  generalize sendLoop (c.inbuf.length + 1) 0 [] c = r at h hok ⊢
  generalize sendLoop (c.inbuf.length + 1) 0 writes (c.behind first) = q at h ⊢
  obtain ⟨r, stop⟩ := r
  obtain ⟨q, stop'⟩ := q
  cases stop with
  | none => cases hok
  | some line =>
    rcases h with h | ⟨h1, h2, h3⟩
    · cases h
      left
      dsimp only
      rw [show (r.behind first).inbuf = r.inbuf from rfl]
      split <;> rfl
    · dsimp only at h1 h2 h3
      subst h1
      refine .inr ⟨rfl, h2, ?_⟩
      dsimp only
      split <;> exact h3

/-- **A client that is `Typed` but for a command sent before**, or has given up on the way. -/
def Relays (first : Bytes) (c : Client) : Prop :=
  ∃ t : Client, t.Typed ∧ t.typed = c.typed ∧
    (c = t.behind first ∨ c.returned = true ∧ c.sent <+: first ++ t.sent)

theorem relays_readServer {first : Bytes} {t : Client} (h : t.Typed) (r : ReadResult) :
    Relays first (readServer r (t.behind first)) := by
  refine ⟨readServer r t, typed_readServer h r, ?_⟩
  cases r with
  | data bytes =>
    unfold readServer
    dsimp only
    rw [show (t.behind first).recvbuf = t.recvbuf from rfl]
    split
    · exact ⟨rfl, .inl rfl⟩
    · unfold drainResponses
      dsimp only
      split <;> exact ⟨rfl, .inl rfl⟩
  | _ => exact ⟨rfl, .inl rfl⟩

theorem relays_readInput {first : Bytes} {t : Client} (h : t.Typed) (r : ReadResult)
    (writes : List WriteResult) : Relays first (readInput r writes (t.behind first)) := by
  cases r with
  | data bytes =>
    unfold readInput
    dsimp only
    rw [show (t.behind first).inbuf = t.inbuf from rfl]
    split
    · exact ⟨{ t with listens := false }, h.still rfl rfl rfl rfl, rfl, .inl rfl⟩
    · generalize hgot : bytes.take (bufferSize - t.inbuf.length) = got
      have hlen : got.length ≤ bufferSize - t.inbuf.length := hgot ▸ List.length_take_le _ _
      have hwilling : Succeed [] := by simp [Succeed]
      obtain ⟨hok, htyped⟩ := typed_sendPendingCommands h hlen hwilling
      have hbehind : { t.behind first with inbuf := t.inbuf ++ got
                                           typed := (t.behind first).typed ++ got }
          = ({ t with inbuf := t.inbuf ++ got
                      typed := t.typed ++ got } : Client).behind first := rfl
      rw [hbehind]
      rcases sendPendingCommands_any first writes hok with heq | ⟨hfail, hkept, hpre⟩
      · rw [heq, if_pos rfl]
        exact ⟨_, htyped, rfl, .inl rfl⟩
      · rw [if_neg (by simp [hfail])]
        exact ⟨_, htyped, (sendPendingCommands_typed [] _).trans hkept.symm, .inr ⟨rfl, hpre⟩⟩
  | _ =>
    exact ⟨t.quit (lit "Failed to read input"), h.still rfl rfl rfl rfl, rfl, .inl rfl⟩

/-- A client that has not given up is behind nothing but its own command. -/
theorem Relays.behind_of_open {first : Bytes} {c : Client} (h : Relays first c)
    (hopen : c.returned = false) : ∃ t : Client, t.Typed ∧ c = t.behind first := by
  obtain ⟨t, ht, -, heq | ⟨hgone, -⟩⟩ := h
  · exact ⟨t, ht, heq⟩
  · rw [hopen] at hgone
    cases hgone

/-- **A turn relays**, whatever the writes return. -/
theorem relays_turn {first : Bytes} {c : Client} (h : Relays first c) (p : Poll) :
    Relays first (turn c p) := by
  unfold turn
  split
  · exact h
  · rename_i hopen
    rw [Bool.not_eq_true] at hopen
    obtain ⟨t, ht, rfl⟩ := h.behind_of_open hopen
    cases p with
    | interrupted => exact h
    | failed =>
      exact ⟨t.quit (lit "Failed to wait for input"), ht.still rfl rfl rfl rfl, rfl, .inl rfl⟩
    | ready server input writes =>
      have hinput : ∀ c' : Client, Relays first c' → ∀ r, Relays first
          (if c'.returned ∨ c'.listens = false then c' else readInput r writes c') := by
        intro c' h' r
        split
        · exact h'
        · rename_i hgo
          rw [not_or, Bool.not_eq_true] at hgo
          obtain ⟨t', ht', rfl⟩ := h'.behind_of_open hgo.1
          exact relays_readInput ht' r writes
      cases server with
      | none =>
        cases input with
        | none => exact h
        | some r => exact hinput _ h r
      | some answer =>
        have hserver : Relays first _ := relays_readServer ht answer
        cases input with
        | none => exact hserver
        | some r => exact hinput _ hserver r

end Client

/-! ## 4. A whole client -/

/-- **In front of the loop** a client reads nothing and receives nothing; it sends a first part of
its command, and all of it if it gets to the loop, and then the command is no longer than a
line that is typed. -/
theorem clientMain_cases (verb : Bytes) (args : List Bytes) (s : Setup) :
    (clientMain verb args s = Client.start.behind (greeting verb args) ∧
        (greeting verb args).length < bufferSize) ∨
      ∃ sent text, clientMain verb args s = { Client.start with sent := sent }.quit text ∧
        sent <+: greeting verb args ∧ text.head? ≠ some 83 := by
  have hstop : ∀ {text : Bytes}, text.head? ≠ some 83 → ∃ sent text',
      Client.start.quit text = { Client.start with sent := sent }.quit text' ∧
        sent <+: greeting verb args ∧ text'.head? ≠ some 83 := fun h =>
    ⟨[], _, rfl, List.nil_prefix, h⟩
  have hsend : (lit "Failed to send " ++ verb).head? ≠ some 83 := by
    simp [lit]
  unfold clientMain
  split
  · exact .inr (hstop (by decide))
  dsimp only
  split
  · exact .inr (hstop (by simp [lit]))
  split
  · exact .inr (hstop (by decide))
  split
  · exact .inr (hstop (by simp [lit]))
  split
  · exact .inr (hstop (by decide))
  split
  · rename_i hnone
    have hnil : greeting verb args = [] := by simp [greeting, hnone]
    rw [hnil]
    exact .inl ⟨rfl, Nat.zero_lt_succ _⟩
  split
  · exact .inr (hstop hsend)
  · rename_i hfits
    obtain ⟨hpre, hall⟩ := Client.writeAll_wrote s.writes (greeting verb args)
    split
    · rename_i hok
      refine .inl ⟨?_, not_le.mp hfits⟩
      rw [hall hok, Client.behind, Client.start, List.append_nil]
    · exact .inr ⟨_, _, rfl, hpre, hsend⟩

namespace Program

open Client

variable (p : Program)

theorem relays : Relays p.first p.client := by
  have hstep : ∀ c poll, Relays p.first c → Relays p.first (turn c poll) := fun _ poll h =>
    relays_turn h poll
  refine Run.run_invariant hstep p.polls _ ?_
  rcases clientMain_cases p.verb p.args p.setup with ⟨heq, -⟩ | ⟨sent, text, heq, hpre, -⟩
  · rw [heq]
    exact ⟨start, typed_start, rfl, .inl rfl⟩
  · rw [heq]
    refine ⟨start, typed_start, rfl, .inr ⟨rfl, ?_⟩⟩
    rw [show start.sent = [] from rfl, List.append_nil]
    exact hpre

theorem heard : p.client.Heard := by
  have hstep : ∀ (c : Client) poll, c.Heard → (turn c poll).Heard := fun _ poll h =>
    heard_turn h poll
  refine Run.run_invariant hstep p.polls _ ?_
  rcases clientMain_cases p.verb p.args p.setup with ⟨heq, -⟩ | ⟨sent, text, heq, -, hne⟩
  · rw [heq]
    exact heard_start.notice rfl rfl (List.append_nil _).symm (by simp) id
  · rw [heq]
    have hsent : Client.Heard { start with sent := sent } :=
      heard_start.notice rfl rfl (List.append_nil _).symm (by simp) id
    refine hsent.quit fun h => hne ?_
    rw [overlong, Shown.notice.injEq] at h
    rw [h]
    rfl

/-- A client that is in its loop has sent its command, which was no longer than a line. -/
theorem first_short (hopen : p.client.returned = false) : p.first.length < bufferSize := by
  rcases clientMain_cases p.verb p.args p.setup with ⟨-, hlen⟩ | ⟨sent, text, heq, -⟩
  · exact hlen
  · have hstep : ∀ (c : Client) poll, c.returned = true → (turn c poll).returned = true := by
      intro c poll h
      unfold turn
      rw [if_pos h]
      exact h
    have hgone : p.client.returned = true :=
      Run.run_invariant hstep p.polls _ (by rw [heq]; rfl)
    rw [hopen] at hgone
    cases hgone

end Program

/-- What a client sends: a first part of its command and of the lines that are kept of what was
typed, and all of these while it is in its loop. -/
theorem Program.sends (p : Program) :
    p.client.sent <+: p.first ++ Framing.joined 10 ((typedLines p.client.typed).filter isKept) ∧
      (p.client.returned = false → p.client.sent
        = p.first ++ Framing.joined 10 ((typedLines p.client.typed).filter isKept)) := by
  have hall : ∀ {t : Client}, t.Typed → t.typed = p.client.typed → p.first ++ t.sent
      = p.first ++ Framing.joined 10 ((typedLines p.client.typed).filter isKept) := by
    intro t ht htyped
    rw [ht.lines, keptLines_frames, htyped]
  obtain ⟨t, ht, htyped, heq | ⟨hgone, hpre⟩⟩ := p.relays
  · have hsent := (congrArg Client.sent heq).trans (hall ht htyped)
    exact ⟨hsent ▸ List.prefix_rfl, fun _ => hsent⟩
  · refine ⟨hall ht htyped ▸ hpre, fun hopen => ?_⟩
    rw [hopen] at hgone
    cases hgone

/-- A line in front is a line more. -/
theorem typedLines_line {line : Bytes} (hline : 10 ∉ line) (typed : Bytes) :
    typedLines (line ++ 10 :: typed) = line :: typedLines typed := by
  obtain ⟨lines, tail, rfl, hlines, htail⟩ : ∃ lines tail, typed = Framing.joined 10 lines ++ tail ∧
      (∀ l ∈ lines, 10 ∉ l) ∧ 10 ∉ tail := Framing.exists_joined typed
  have hjoined : line ++ 10 :: (Framing.joined 10 lines ++ tail)
      = Framing.joined 10 (line :: lines) ++ tail := by
    rw [Framing.joined_cons, List.append_assoc, List.cons_append]
  have hall : ∀ l ∈ line :: lines, 10 ∉ l := List.forall_mem_cons.mpr ⟨hline, hlines⟩
  rw [hjoined, typedLines, typedLines, Framing.splitOn_joined hall htail,
    Framing.splitOn_joined hlines htail, List.dropLast_concat, List.dropLast_concat]

/-- The third argument is as good as a line that is typed. -/
theorem Program.asked {p : Program} (hverb : p.verb ≠ [] ∧ 10 ∉ p.verb)
    (hargs : ∀ arg ∈ p.args, 10 ∉ arg) (hopen : p.client.returned = false) :
    requests p.client.sent = typedRequests (p.first ++ p.client.typed) := by
  have hsent := p.sends.2 hopen
  cases harg : p.args[2]? with
  | none =>
    have hnil : p.first = [] := by simp [first, greeting, harg]
    rw [hsent, hnil, List.nil_append, List.nil_append, requests_kept]
  | some arg =>
    obtain ⟨hne, hword⟩ := hverb
    obtain ⟨line, hfirst, hline, hnil⟩ :
        ∃ line, p.first = line ++ [10] ∧ 10 ∉ line ∧ line ≠ [] := by
      refine ⟨p.verb ++ lit " " ++ arg, by simp [first, greeting, harg, lit], ?_, by simp [hne]⟩
      simp only [List.mem_append, not_or]
      exact ⟨⟨hword, by decide⟩, hargs arg (List.mem_of_getElem? harg)⟩
    have hshort := p.first_short hopen
    rw [hfirst, List.length_append] at hshort
    have hkept : isKept line = true := decide_eq_true ⟨hnil, Nat.lt_of_succ_lt hshort⟩
    rw [hsent, hfirst, List.append_assoc, List.append_assoc, List.singleton_append,
      List.singleton_append, ← requests_kept, typedLines_line hline, List.filter_cons_of_pos hkept,
      Framing.joined_cons]

/-- **What a client sends**, whatever its arguments are and its system calls return: a first part
of its command and of the lines that are kept of what was typed, and all of these while it is in
its loop.  If its arguments have no newline the server is then asked for what it would be if
the user had typed the command before everything else. -/
theorem program_sends (p : Program) :
    let all := p.first ++ Framing.joined 10 ((typedLines p.client.typed).filter isKept)
    p.client.sent <+: all ∧
      (p.client.returned = false → p.client.sent = all ∧
        (p.verb ≠ [] ∧ 10 ∉ p.verb → (∀ arg ∈ p.args, 10 ∉ arg) →
          requests p.client.sent = typedRequests (p.first ++ p.client.typed))) :=
  ⟨p.sends.1, fun hopen => ⟨p.sends.2 hopen, fun hverb hargs => Program.asked hverb hargs hopen⟩⟩

/-- A trader whose connection breaks while it sends its second order. -/
def cutOff : Program :=
  .trader [lit "127.0.0.1", lit "8080", lit "ann"]
    { ignored := true, socket := true, known := fun _ => true, connected := fun _ _ => true
      writes := [.took 4, .eintr] }
    [.ready none (some (.data (lit "BUY JNST 4 5\n\nSELL J"))) [.took 9],
      .ready none (some (.data (lit "NST 4 5\nQUIT\n"))) [.took 5, .error]]

theorem program_sends_cutOff :
    cutOff.client.returned = true ∧ cutOff.client.sent = lit "LOGIN ann\nBUY JNST 4 5\nSELL " ∧
      cutOff.client.sent <+: lit "LOGIN ann\nBUY JNST 4 5\nSELL JNST 4 5\nQUIT\n" := by
  have hall : cutOff.first ++ Framing.joined 10 ((typedLines cutOff.client.typed).filter isKept)
      = lit "LOGIN ann\nBUY JNST 4 5\nSELL JNST 4 5\nQUIT\n" := by
    decide +kernel
  exact ⟨by decide +kernel, by decide +kernel, hall ▸ (program_sends cutOff).1⟩

end SocketExchange
