/-
# Whole tokens, and the right error for long ones

Four sizes meet on a line: the input buffer of 160 bytes, the widths of `%159s`, the 128 bytes
of a user name and the 11 of the longest command.  `Diagnosed` says what a line without a NUL
comes to, in the state it meets: too long at 160 bytes, and below that read in whole words,
of which the first may be no command, and the second too long for a name.

`handled_at` finds the state in which a run of the server handled a given line of a
connection's stream, and `whole_tokens` says that the line was diagnosed there, whatever
pieces it arrived in.
-/
import SocketExchange.Quits
import SocketExchange.Arguments

namespace SocketExchange

open CText

/-! ## 1. What a run did, and in which state -/

/-- What the server does about a line. -/
def handle (a : Action) (fd : Nat) (w : World) : World :=
  match a with
  | .line text => (processLine text fd w).1
  | .tooLong => (rejectLine fd w).1

/-- How it is noted. -/
def Action.noted (k : Nat) : Action → Obs
  | .line text => .line k text
  | .tooLong => .tooLong k

theorem handle_served {w : World} {fd : Nat} {c : ClientConnection} (hc : w.slot fd = some c)
    (hfd : c.clientFd = fd) (a : Action) : Served fd c.serial [a] [] w (handle a fd w) := by
  cases a with
  | line text => exact (processLine_served hc hfd text).1
  | tooLong => exact (rejectLine_served hc).1

/-- What an act does about a connection's lines: nothing, or one of them. -/
inductive Attends (k : Nat) (w w' : World) : Prop
  | none (h : actionsOn k w'.trace = actionsOn k w.trace)
  | one {fd : Nat} {c : ClientConnection} {a : Action} (hc : w.slot fd = some c)
      (hk : c.serial = k) (h : actionsOn k w'.trace = actionsOn k w.trace ++ [a])
      (htrace : (handle a fd w).trace <+: w'.trace)

/-- Notes that are no lines. -/
theorem Attends.of_notes {k : Nat} {w w' : World} {new : List Obs}
    (htrace : w'.trace = w.trace ++ new) (h : ∀ o ∈ new, o.actionOn k = .none) :
    Attends k w w' := by
  refine .none ?_
  have hnil : actionsOn k new = [] := List.filterMap_eq_nil_iff.mpr h
  rw [htrace, actionsOn_append, hnil, List.append_nil]

theorem actionsOn_removeIfDone (k fd : Nat) (s : World × Bool) :
    actionsOn k (removeIfDone fd s).trace = actionsOn k s.1.trace ∧
      s.1.trace <+: (removeIfDone fd s).trace := by
  obtain ⟨more, hmore, hremoved⟩ := removeIfDone_notes fd s
  have hnil : actionsOn k more = [] := by
    refine List.filterMap_eq_nil_iff.mpr fun o ho => ?_
    obtain ⟨-, c, -, rfl⟩ := hremoved o ho
    rfl
  rw [hmore, actionsOn_append, hnil, List.append_nil]
  exact ⟨rfl, List.prefix_append _ _⟩

/-- The line an act hands over is the only one it does something about. -/
theorem attends_handle {w : World} (hw : Housed w) {fd : Nat} {c : ClientConnection}
    (hc : w.slot fd = some c) (a : Action) (k : Nat) {s : World × Bool}
    (hs : s.1 = handle a fd w) : Attends k w (removeIfDone fd s) := by
  obtain ⟨hacts, hprefix⟩ := actionsOn_removeIfDone k fd s
  obtain ⟨new, hnew, hn⟩ := (handle_served hc (hw.own _ _ _ (badge_of_slot hc)) a).trace
  have hafter : actionsOn k (removeIfDone fd s).trace
      = actionsOn k w.trace ++ if k = c.serial then [a] else [] := by
    rw [hacts, hs, hnew, actionsOn_append, hn.actions]
  by_cases hk : k = c.serial
  · rw [if_pos hk] at hafter
    exact .one hc hk.symm hafter (hs ▸ hprefix)
  · rw [if_neg hk, List.append_nil] at hafter
    exact .none hafter

theorem attends_act {w : World} (hw : Housed w) (a : Act) (k : Nat) : Attends k w (act w a) := by
  cases a with
  | supply sock heap => exact .none rfl
  | accept fd grown calloced armed =>
    rw [act]
    split
    · exact .none rfl
    · rename_i hopen
      have hcases := acceptClient_cases hw.table hopen (hw.slot_none hopen) grown calloced armed
      split at hcases
      · exact .of_notes hcases.trace (by simp [Obs.actionOn])
      · exact .none (congrArg (actionsOn k) hcases.trace)
  | client fd a =>
    cases hc : w.slot fd with
    | none =>
      simp only [act, hc]
      exact .none rfl
    | some c =>
      simp only [act, hc]
      cases a with
      | applied => exact .of_notes rfl (by simp [Obs.actionOn])
      | received got =>
        have htrace : (serve fd c w (.received got)).trace
            = w.trace ++ [.read c.serial (inbufSize - c.inlen) got] := rfl
        exact .of_notes htrace (by simp [Obs.actionOn])
      | buffered f => exact .none rfl
      | command line => exact attends_handle hw hc (.line line) k rfl
      | overlong => exact attends_handle hw hc .tooLong k rfl
      | flush =>
        have htrace : (flushClient fd w).1.trace = w.trace ++ [.flushed _ _] := rfl
        refine .none ((actionsOn_removeIfDone k fd _).1.trans ?_)
        rw [htrace, actionsOn_append]
        exact List.append_nil _
      | drop => exact .of_notes (removeClient_trace hc) (by simp [Obs.actionOn])

/-- **Where a run handled a line**: everything done on a connection was done in a state the
server reached, with what came before it done and nothing else. -/
theorem handled_at {w : World} (hw : Reachable w) {k : Nat} {pre post : List Action} {a : Action}
    (h : actionsOn k w.trace = pre ++ a :: post) :
    ∃ v fd c, Reachable v ∧ v.slot fd = some c ∧ c.serial = k ∧ actionsOn k v.trace = pre ∧
      (handle a fd v).trace <+: w.trace := by
  obtain ⟨serverFd, others, as, rfl⟩ := hw
  induction as using List.reverseRecOn generalizing post with
  | nil => cases pre <;> cases h
  | append_singleton as x ih =>
    rw [Run.run_append] at h ⊢
    generalize hv : Run.run act (.init serverFd others) as = v at h ih ⊢
    have hreach : Reachable v := ⟨serverFd, others, as, hv.symm⟩
    obtain ⟨new, hnew, -⟩ := taken_act (housed_of_reachable hreach) x
    have hgrown : v.trace <+: (act v x).trace := hnew ▸ List.prefix_append _ _
    have hearlier : ∀ {post' : List Action}, actionsOn k v.trace = pre ++ a :: post' →
        ∃ v' fd c, Reachable v' ∧ v'.slot fd = some c ∧ c.serial = k ∧
          actionsOn k v'.trace = pre ∧ (handle a fd v').trace <+: (act v x).trace := by
      intro post' h'
      obtain ⟨v', fd, c, h1, h2, h3, h4, h5⟩ := ih h'
      exact ⟨v', fd, c, h1, h2, h3, h4, h5.trans hgrown⟩
    have hstep : actionsOn k (act v x).trace = pre ++ a :: post := h
    obtain hsame | ⟨hc, hk, hone, htrace⟩ := attends_act (housed_of_reachable hreach) x k
    · exact hearlier (hsame ▸ hstep)
    · rw [hone] at hstep
      rcases List.eq_nil_or_concat post with rfl | ⟨post', b, rfl⟩
      · obtain ⟨hpre, ha⟩ := List.append_inj' hstep rfl
        cases ha
        exact ⟨v, _, _, hreach, hc, hk, hpre, htrace⟩
      · rw [List.concat_eq_append, ← List.cons_append, ← List.append_assoc] at hstep
        exact hearlier (List.append_inj' hstep rfl).1

/-! ## 2. What a line comes to -/

/-- The bytes in front of a newline, as the server takes them. -/
def lineAction (line : Bytes) : Action := actionOf (Framing.closed inbufSize line)

/-- The line is answered this error, and that is all that is noted about it. -/
def OnlyError (reason line : Bytes) (fd : Nat) (v : World) : Prop :=
  ∃ h : Handed, (handle (lineAction line) fd v).trace
      = v.trace ++ [(lineAction line).noted (v.conn fd).serial, .handed h] ∧
    h.issuer = (v.conn fd).serial ∧ h.receiver = (v.conn fd).serial ∧
    h.msg = Response.text (.error reason)

/-- **How a line is diagnosed**, with `line` the bytes in front of its newline. -/
structure Diagnosed (line : Bytes) (fd : Nat) (v : World) : Prop where
  tooLong : 160 ≤ line.length → OnlyError (lit "Message too long") line fd v
  /-- the first two tokens `processLine` uses are the first two words, whole -/
  tokens : line.length < 160 → lineAction line = .line (stripReturn line) ∧
    (scanLine (cstr (stripReturn line))).cmd = (words line).headD [] ∧
    (scanLine (cstr (stripReturn line))).arg = (words line).tail.headD []
  unknown : line.length < 160 → ∀ cmd ∈ (words line).head?, 11 < cmd.length →
    OnlyError (lit "Unknown command") line fd v
  username : line.length < 160 → ∀ name, words line = [lit "LOGIN", name] → 128 ≤ name.length →
    OnlyError (lit "Username too long") line fd v
  stored : line.length < 160 → ∀ name, words line = [lit "LOGIN", name] →
    (v.conn fd).loggedIn = false → ((handle (lineAction line) fd v).conn fd).loggedIn = true →
    ((handle (lineAction line) fd v).conn fd).username = name
  /-- the two limits a name meets -/
  name : ∀ name, line = lit "LOGIN " ++ name → (∀ b ∈ name, isSpace b = false) →
    (128 ≤ name.length → name.length ≤ 153 → OnlyError (lit "Username too long") line fd v) ∧
      (154 ≤ name.length → OnlyError (lit "Message too long") line fd v)

section Diagnosis

variable {line : Bytes} {fd : Nat} {v : World}

theorem lineAction_of_lt (h : line.length < 160) : lineAction line = .line (stripReturn line) := by
  unfold lineAction Framing.closed
  rw [if_pos (show line.length < inbufSize from h)]
  rfl

theorem lineAction_of_le (h : 160 ≤ line.length) : lineAction line = .tooLong := by
  unfold lineAction Framing.closed
  rw [if_neg (show ¬ line.length < inbufSize from not_lt.mpr h)]
  rfl

theorem words_stripReturn (line : Bytes) : words (stripReturn line) = words line := by
  unfold stripReturn
  split
  · rename_i h
    obtain ⟨ys, rfl⟩ := List.getLast?_eq_some_iff.mp h
    rw [List.dropLast_concat, words_concat_space (by decide)]
  · rfl

theorem length_stripReturn_le (line : Bytes) : (stripReturn line).length ≤ line.length := by
  unfold stripReturn
  split
  · rw [List.length_dropLast]
    exact Nat.sub_le _ _
  · exact le_refl _

theorem zero_not_mem_stripReturn (h : 0 ∉ line) : 0 ∉ stripReturn line := by
  unfold stripReturn
  split
  · exact fun h0 => h (List.dropLast_subset line h0)
  · exact h

/-- **Whole words**: on a text no longer than the width of `%159s` the first two conversions
are the first two words. -/
theorem scanLine_words {s : Bytes} (hlen : s.length ≤ maxTokenLen) :
    (scanLine s).cmd = (words s).headD [] ∧ (scanLine s).arg = (words s).tail.headD [] := by
  have hpos : 0 < maxTokenLen := by decide
  cases hw : words s with
  | nil =>
    have h1 := (scanWord_eq_none hpos).mpr hw
    unfold scanLine
    rw [h1]
    exact ⟨rfl, rfl⟩
  | cons cmd ws =>
    obtain ⟨rest, h1, hrest, -, hle⟩ := scanWord_of_words hpos hlen hw
    cases ws with
    | nil =>
      have h2 := (scanWord_eq_none hpos).mpr hrest
      unfold scanLine
      rw [h1]
      dsimp only
      rw [h2]
      exact ⟨rfl, rfl⟩
    | cons arg ws =>
      obtain ⟨behind, h2, -⟩ := scanWord_of_words hpos (hle.trans hlen) hrest
      obtain ⟨hcmd, harg, -⟩ := scanLine_two h1 h2
      exact ⟨hcmd, harg⟩

/-- Two words and no more are two conversions. -/
theorem scanLine_two_words {s cmd arg : Bytes} (hlen : s.length ≤ maxTokenLen)
    (hw : words s = [cmd, arg]) :
    (scanLine s).cmd = cmd ∧ (scanLine s).arg = arg ∧ (scanLine s).matched = 2 := by
  have hpos : 0 < maxTokenLen := by decide
  obtain ⟨rest, h1, hrest, -, hle⟩ := scanWord_of_words hpos hlen hw
  obtain ⟨behind, h2, hbehind, -⟩ := scanWord_of_words hpos (hle.trans hlen) hrest
  obtain ⟨hcmd, harg, -, hm⟩ := scanLine_two h1 h2
  refine ⟨hcmd, harg, ?_⟩
  have hnone : numeral behind = none := by
    rw [numeral, words_eq_nil.mp hbehind]
    rfl
  by_contra hne
  exact hm.mpr hne hnone

theorem words_login {name : Bytes} (hspace : ∀ b ∈ name, isSpace b = false) (hne : name ≠ []) :
    words (lit "LOGIN " ++ name) = [lit "LOGIN", name] := by
  have hline : lit "LOGIN " ++ name = lit "LOGIN" ++ 32 :: name := rfl
  have hone : words (name ++ []) = [name] := by
    rw [words_append hspace hne (by simp [Blank]), words_nil]
  have hlogin : ∀ b ∈ lit "LOGIN", isSpace b = false := by
    have hall : ((lit "LOGIN").all fun b => !isSpace b) = true := rfl
    intro b hb
    simpa using List.all_eq_true.mp hall b hb
  rw [hline, words_append hlogin (by decide) (by simp [Blank]; decide),
    words_space (by decide), ← hone, List.append_nil]

/-- A line that goes to `replyError` is answered that error only. -/
theorem onlyError_of_replyError (hlen : line.length < 160) {reason : Bytes} (hr : reason ∈ reasons)
    (h : processLine (stripReturn line) fd v = replyError fd reason
      (v.note (.line (v.conn fd).serial (stripReturn line)))) : OnlyError reason line fd v := by
  rw [OnlyError, lineAction_of_lt hlen, handle, h]
  exact ⟨_, List.append_assoc _ _ _, rfl, rfl, errorText_eq hr⟩

/-- An error leaves its client logged in or not, as it was. -/
theorem loggedIn_replyError (reason : Bytes) (fd : Nat) (w : World) :
    ((replyError fd reason w).1.conn fd).loggedIn = (w.conn fd).loggedIn :=
  conn_field_of_view (v := .bare) (fun c => c.loggedIn) (fun _ => rfl) (reply_roster _ _ _)

/-- The name that is stored. -/
theorem username_of_did {username : Bytes} {fd : Nat} {w w' : World} {c : ClientConnection}
    (hc : w.slot fd = some c) (h : (Request.login username).Did fd w w') :
    (w'.conn fd).username = username.take (usernameLength - 1) := by
  have hsame : (w'.conn fd).username
      = ((w.modify fd (Request.login username).change).conn fd).username :=
    conn_field_of_view (v := .bare) (fun c => c.username) (fun _ => rfl) h.roster
  rw [hsame, conn_of_slot (modify_slot fd hc _)]
  rfl

/-- **A name that logs in is stored whole.** -/
theorem stored_whole {text name : Bytes} {fd : Nat} {v : World} {c : ClientConnection}
    (hc : v.slot fd = some c) (hlen : text.length ≤ maxTokenLen) (h0 : 0 ∉ text)
    (hw : words text = [lit "LOGIN", name]) (hout : (v.conn fd).loggedIn = false)
    (hin : ((processLine text fd v).1.conn fd).loggedIn = true) :
    ((processLine text fd v).1.conn fd).username = name := by
  have htext : cstr text = text := cstr_of_not_mem h0
  obtain ⟨hcmd, harg, hm⟩ := scanLine_two_words hlen hw
  have hdispatch : processLine text fd v = dispatchCommand (scanLine (cstr text)) fd
      (v.note (.line (v.conn fd).serial text)) :=
    processLine_dispatch (by rw [htext, hm]; decide)
  rw [hdispatch, htext] at hin ⊢
  have hc1 : (v.note (.line (v.conn fd).serial text)).slot fd = some c := hc
  have hout1 : ((v.note (.line (v.conn fd).serial text)).conn fd).loggedIn = false := hout
  generalize v.note (.line (v.conn fd).serial text) = v1 at *
  have hrefused : ∀ reason, dispatchCommand (scanLine text) fd v1 ≠ replyError fd reason v1 := by
    intro reason hr
    rw [hr, loggedIn_replyError, hout1] at hin
    cases hin
  have hof : requestOf (scanLine text).cmd (scanLine text).arg
      = if name.length > usernameLength - 1 then none else some (.login name) := by
    rw [hcmd, harg]
    exact if_pos rfl
  by_cases hlong : name.length > usernameLength - 1
  · rw [if_pos hlong] at hof
    obtain ⟨reason, hr⟩ := dispatchCommand_unfit fd v1 (by rw [hcmd]; decide) hm hof
    exact absurd hr (hrefused reason)
  · rw [if_neg hlong] at hof
    obtain ⟨-, hdid⟩ | ⟨-, reason, hr⟩ := dispatchCommand_request fd v1 hm hof
    · exact (username_of_did hc1 hdid).trans (List.take_of_length_le (not_lt.mp hlong))
    · exact absurd hr (hrefused reason)

/-- **Every line without a NUL is diagnosed**, in every state. -/
theorem diagnosed (h0 : 0 ∉ line) (fd : Nat) {v : World} {c : ClientConnection}
    (hc : v.slot fd = some c) : Diagnosed line fd v := by
  have hreject : 160 ≤ line.length → OnlyError (lit "Message too long") line fd v := by
    intro hlen
    rw [OnlyError, lineAction_of_le hlen]
    exact ⟨_, List.append_assoc _ _ _, rfl, rfl, errorText_eq (by simp [reasons])⟩
  have htext : cstr (stripReturn line) = stripReturn line :=
    cstr_of_not_mem (zero_not_mem_stripReturn h0)
  have hshort : line.length < 160 → (stripReturn line).length ≤ maxTokenLen := fun hlen =>
    (length_stripReturn_le line).trans (Nat.le_of_lt_succ hlen)
  have hname : line.length < 160 → ∀ name, words line = [lit "LOGIN", name] →
      128 ≤ name.length → OnlyError (lit "Username too long") line fd v := by
    intro hlen name hw hlong
    rw [← words_stripReturn] at hw
    obtain ⟨hcmd, harg, hm⟩ := scanLine_two_words (hshort hlen) hw
    refine onlyError_of_replyError hlen (by simp [reasons]) ?_
    rw [processLine_dispatch (by rw [htext, hm]; decide), htext, dispatchCommand, hcmd, harg, hm,
      if_neg (by decide), if_pos ⟨rfl, rfl⟩]
    exact if_pos (Nat.lt_of_lt_of_le (by decide) hlong)
  constructor
  · exact hreject
  · intro hlen
    obtain ⟨hcmd, harg⟩ := scanLine_words (hshort hlen)
    rw [words_stripReturn] at hcmd harg
    rw [htext]
    exact ⟨lineAction_of_lt hlen, hcmd, harg⟩
  · intro hlen cmd hhead hlong
    obtain ⟨ws, hw⟩ := List.head?_eq_some_iff.mp (Option.mem_def.mp hhead)
    obtain ⟨hcmd, -⟩ := scanLine_words (hshort hlen)
    rw [words_stripReturn, hw] at hcmd
    refine onlyError_of_replyError hlen (by simp [reasons]) ?_
    have hm : 1 ≤ (scanLine (stripReturn line)).matched := by
      by_contra hno
      have hall := scanLine_matched.mp (not_le.mp hno)
      have hnil := words_eq_nil.mpr (List.dropWhile_eq_nil_iff.mpr hall)
      rw [words_stripReturn, hw] at hnil
      cases hnil
    rw [processLine_dispatch (by rw [htext]; exact hm), htext, dispatchCommand, hcmd]
    exact if_pos hlong
  · exact hname
  · intro hlen name hw hout hin
    rw [← words_stripReturn] at hw
    rw [lineAction_of_lt hlen, handle] at hin ⊢
    exact stored_whole hc (hshort hlen) (zero_not_mem_stripReturn h0) hw hout hin
  · rintro name rfl hspace
    have hlen : (lit "LOGIN " ++ name).length = 6 + name.length := by
      rw [List.length_append]
      rfl
    refine ⟨fun hlo hhi => ?_, fun hlo => hreject (by omega)⟩
    exact hname (by omega) name (words_login hspace (by rintro rfl; cases hlo)) hlo

end Diagnosis

/-! ## 3. In every run -/

/-- The bytes of whole lines and one more. -/
theorem requests_lines {lines : List Bytes} (hlines : ∀ l ∈ lines, 10 ∉ l)
    (hopen : ∀ l ∈ lines, (lineAction l).quits = false) {line : Bytes} (h10 : 10 ∉ line)
    (tail : Bytes) : requests (Framing.joined 10 lines ++ (line ++ 10 :: tail))
      = lines.map lineAction ++ lineAction line ::
        if (lineAction line).quits then [] else requests tail := by
  have hnone : ∀ a ∈ lines.map lineAction, a.quits = false := by
    intro a ha
    obtain ⟨l, hl, rfl⟩ := List.mem_map.mp ha
    exact hopen l hl
  have hmap : (lines.map (Framing.closed inbufSize)).map actionOf = lines.map lineAction :=
    List.map_map
  unfold requests
  rw [Framing.frames_joined_append inbufSize hlines, Framing.frames_cons 10 inbufSize h10,
    List.map_append, List.map_cons, hmap, Framing.through_of_none hnone, Framing.through]
  rw [show actionOf (Framing.closed inbufSize line) = lineAction line from rfl]
  split <;> rfl

/-- A first part that is long enough has the element in the middle. -/
theorem prefix_middle {α : Type} {l front back : List α} {a : α} (h : l <+: front ++ a :: back)
    (hlen : front.length < l.length) : ∃ more, l = front ++ a :: more ∧ more <+: back := by
  obtain ⟨s, rfl⟩ :=
    List.prefix_of_prefix_length_le (List.prefix_append front (a :: back)) h hlen.le
  rw [List.prefix_append_right_inj] at h
  cases s with
  | nil => simp at hlen
  | cons b more =>
    obtain ⟨rfl, hmore⟩ := List.cons_prefix_cons.mp h
    exact ⟨more, rfl, hmore⟩

theorem ownFailure_of_not_succeed {k : Nat} {trace : List Obs} (h : ¬ RepliesSucceed k trace) :
    OwnFailure k trace := by
  unfold RepliesSucceed at h
  push Not at h
  obtain ⟨x, hx, hi, hr, hf⟩ := h
  exact ⟨x, hx, hi, hr, by simpa using hf⟩

/-- **Tokens are never cut, and long ones get the right error.**  In every run of the main loop,
for every line without a NUL whose newline has been read from a connection, behind any lines
that are not `QUIT` and in any pieces: the server has handled it, in a state in which it had
handled the lines in front of it and nothing else, and diagnosed it there; and it did nothing
more about it, for what it did next is what the bytes behind the newline ask for.  Otherwise a
reply to one of the lines in front has failed, behind which the connection is closed. -/
theorem whole_tokens (serverFd : Nat) (others : List Nat) (os : List Occurrence) (k : Nat)
    {lines : List Bytes} (hlines : ∀ l ∈ lines, 10 ∉ l)
    (hopen : ∀ l ∈ lines, (lineAction l).quits = false) {line tail : Bytes} (h10 : 10 ∉ line)
    (h0 : 0 ∉ line)
    (hread : bytesFrom k (Run.run dispatch (.init serverFd others) os).trace
      = Framing.joined 10 lines ++ (line ++ 10 :: tail)) :
    let w := Run.run dispatch (.init serverFd others) os
    (∃ v fd c more, Reachable v ∧ v.slot fd = some c ∧ c.serial = k ∧
        actionsOn k v.trace = lines.map lineAction ∧ Diagnosed line fd v ∧
        (handle (lineAction line) fd v).trace <+: w.trace ∧
        actionsOn k w.trace = lines.map lineAction ++ lineAction line :: more ∧
        more <+: requests tail) ∨
      OwnFailure k w.trace ∧ (actionsOn k w.trace).length ≤ lines.length := by
  intro w
  have hanswered : Answered k w.trace := ((framed_run serverFd others os).each k).answered
  rw [Answered, hread, requests_lines hlines hopen h10] at hanswered
  by_cases hreached : (lines.map lineAction).length < (actionsOn k w.trace).length
  · obtain ⟨more, hmore, hprefix⟩ := prefix_middle hanswered.1 hreached
    obtain ⟨v, fd, c, hv, hc, hk, hbefore, htrace⟩ :=
      handled_at (reachable_run serverFd others os) hmore
    refine .inl ⟨v, fd, c, more, hv, hc, hk, hbefore, diagnosed h0 fd hc, htrace, hmore, ?_⟩
    refine hprefix.trans ?_
    split
    · exact List.nil_prefix
    · exact List.prefix_rfl
  · rw [List.length_map] at hreached
    refine .inr ⟨ownFailure_of_not_succeed fun hr => hreached ?_, not_lt.mp hreached⟩
    rw [hanswered.2 hr, List.length_append, List.length_map, List.length_cons]
    omega

/-- A login, and a command with two letters too many, in three reads. -/
def longCommand : List Occurrence :=
  [listening [5],
    { readable 5 [] willing with
      reads := [.data (lit "LOGIN a"), .data (lit "nn\nUNSUBSCRI"), .data (lit "BEXX JNST\n")] }]

theorem whole_tokens_longCommand :
    ∃ v fd c, Reachable v ∧ v.slot fd = some c ∧ c.serial = 0 ∧
      OnlyError (lit "Unknown command") (lit "UNSUBSCRIBEXX JNST") fd v ∧
      actionsOn 0 v.trace = [.line (lit "LOGIN ann")] := by
  have hr : RepliesSucceed 0 (Run.run dispatch (.init 3 []) longCommand).trace := by decide +kernel
  have hlines : ∀ l ∈ [lit "LOGIN ann"], 10 ∉ l := by decide
  have hopen : ∀ l ∈ [lit "LOGIN ann"], (lineAction l).quits = false := by decide
  have hread : bytesFrom 0 (Run.run dispatch (.init 3 []) longCommand).trace
      = Framing.joined 10 [lit "LOGIN ann"] ++ (lit "UNSUBSCRIBEXX JNST" ++ 10 :: []) := by
    decide +kernel
  obtain ⟨v, fd, c, more, hv, hc, hk, hbefore, hdiag, -⟩ | ⟨hfail, -⟩ :=
    whole_tokens 3 [] longCommand 0 hlines hopen (by decide) (by decide) hread
  · exact ⟨v, fd, c, hv, hc, hk, hdiag.unknown (by decide) (lit "UNSUBSCRIBEXX") (by decide)
      (by decide), hbefore⟩
  · exact absurd hfail hr.not_failure

end SocketExchange
