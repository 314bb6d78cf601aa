/-
# How many words a session command has

`LOGIN`, `SUBSCRIBE`, `UNSUBSCRIBE` and `CANCEL` have one argument, `QUIT` has none.
`SessionLineOk` says that they take effect from a line of just these words only, and that a
line with a word more is answered with an error and changes nothing.

`processLine` counts the conversions of `sscanf`, and the third and the fourth are `%d`.  A
third word is counted if it begins with a numeral, so `LOGIN ann 5` is refused and
`LOGIN ann bob` logs in `ann`; what stands behind a NUL is never counted.  `session_lines` says
that the property holds exactly of the lines all of whose text is counted, and of those the
state refuses anyway.
-/
import SocketExchange.Responses
import SocketExchange.OrderIds
import SocketExchange.OrderLines

namespace SocketExchange

open CText

/-! ## 1. Request commands and their effects -/

/-- A session command with the argument it acts on. -/
inductive Request
  | login (username : Bytes)
  | subscribe (inst : Instrument)
  | unsubscribe (inst : Instrument)
  | quit
  | cancel (id : Int)
  deriving DecidableEq, Repr

/-- Its effect: on the connection it came from, which was `c` and is `c'`, and for `CANCEL`
in what has been noted in between. -/
def Request.Done (c c' : ClientConnection) (new : List Obs) : Request → Prop
  | .login username => c.loggedIn = false ∧ c'.loggedIn = true ∧ c'.username = username
  | .subscribe inst => c.subscribed inst = false ∧ c'.subscribed inst = true
  | .unsubscribe inst => c.subscribed inst = true ∧ c'.subscribed inst = false
  | .quit => c.closing = false ∧ c'.closing = true
  | .cancel id => ∃ ord, Obs.cancelled c.serial ord ∈ new ∧ ord.id = id

/-- The line takes effect as this command. -/
def Request.TakesEffect (s : Request) (line : Bytes) (self : Nat) (w : World) : Prop :=
  let w' := (processLine line self w).1
  s.Done (w.conn self) (w'.conn self) (w'.trace.drop w.trace.length)

/-- The line is the command and nothing else. -/
def Request.IsLine (line : Bytes) : Request → Prop
  | .login username => words line = [lit "LOGIN", username]
  | .subscribe inst => words line = [lit "SUBSCRIBE", instrumentName inst]
  | .unsubscribe inst => words line = [lit "UNSUBSCRIBE", instrumentName inst]
  | .quit => (words line).length = 1
  | .cancel id => ∃ orderIdStr, words line = [lit "CANCEL", orderIdStr] ∧
      orderIdOf orderIdStr = some id

/-- The session commands, with the number of their words. -/
def sessionCommands : List (Bytes × Nat) :=
  [(lit "LOGIN", 2), (lit "SUBSCRIBE", 2), (lit "QUIT", 1), (lit "UNSUBSCRIBE", 2),
    (lit "CANCEL", 2)]

theorem count_unique {cmd : Bytes} {m n : Nat} (hm : (cmd, m) ∈ sessionCommands)
    (hn : (cmd, n) ∈ sessionCommands) : m = n := by
  have hall : ∀ p ∈ sessionCommands, ∀ q ∈ sessionCommands, p.1 = q.1 → p.2 = q.2 := by decide
  exact hall _ hm _ hn rfl

/-- The line is answered with an error and has no effect. -/
structure RefusedLine (line : Bytes) (fd : Nat) (w : World) : Prop where
  answered : AnsweredWithError line fd w
  unchanged : OnlyOutput fd w (processLine line fd w).1

/-- **Request commands take effect only from a line of exactly their words**, and a line with
a word more is refused. -/
structure SessionLineOk (line : Bytes) (fd : Nat) (w : World) : Prop where
  whole : ∀ s : Request, s.TakesEffect line fd w → s.IsLine line
  refused : ∀ cmd n, (cmd, n) ∈ sessionCommands → (words line).head? = some cmd →
    n < (words line).length → RefusedLine line fd w

/-! ## 2. What the server reads -/

/-- The command and its argument, as the source compares and converts them. -/
def requestOf (cmd arg : Bytes) : Option Request :=
  if cmd = lit "LOGIN" then
    if arg.length > usernameLength - 1 then none else some (.login arg)
  else if cmd = lit "SUBSCRIBE" then (instrumentOf arg).map .subscribe
  else if cmd = lit "UNSUBSCRIBE" then (instrumentOf arg).map .unsubscribe
  else if cmd = lit "CANCEL" then (orderIdOf arg).map .cancel
  else none

/-- A request, and the text behind its last word. -/
structure RequestText where
  request : Request
  behind : Bytes
  deriving DecidableEq, Repr

/-- The session command at the front of a text. -/
def requestText (line : Bytes) : Option RequestText :=
  match scanWord maxTokenLen line with
  | none => none
  | some (cmd, rest) =>
    if cmd = lit "QUIT" then some { request := .quit, behind := rest }
    else
      match scanWord maxTokenLen rest with
      | none => none
      | some (arg, behind) =>
        (requestOf cmd arg).map fun s => { request := s, behind := behind }

/-- The state lets the command through. -/
def Request.Allowed (self : Nat) (w : World) : Request → Prop
  | .login username => (w.conn self).type ≠ .market ∧ (w.conn self).loggedIn = false ∧
      w.conns.any (usesName username) = false
  | .subscribe inst => (w.conn self).type ≠ .trader ∧ (w.conn self).subscribed inst = false
  | .unsubscribe inst => (w.conn self).type ≠ .trader ∧ (w.conn self).subscribed inst = true
  | .quit => True
  | .cancel id => (w.conn self).loggedIn = true ∧
      ∃ ord ∈ w.exchange.orderbook.orders, ord.id = id ∧ ord.clientFd = (w.conn self).clientFd

/-- `sscanf` converts something of the text behind: `%s` any word behind `QUIT`, `%d` a
numeral behind the argument of the others. -/
def RequestText.Counted (x : RequestText) : Prop :=
  match x.request with
  | .quit => skipSpace x.behind ≠ []
  | _ => numeral x.behind ≠ none

/-- There is no more in the line: behind an argument no word and nowhere a NUL; `QUIT` is the
line's only word, and may have a NUL in it. -/
def RequestText.Ends (line : Bytes) (x : RequestText) : Prop :=
  match x.request with
  | .quit => (words line).length = 1
  | _ => 0 ∉ line ∧ skipSpace x.behind = []

/-- **The condition on a line and a state**: if the line begins with a session command that the
state lets through, either what is behind it is counted, or nothing is. -/
def EndsOrCounts (line : Bytes) (self : Nat) (w : World) : Prop :=
  ∀ x ∈ requestText (cstr line), x.request.Allowed self w → x.Counted ∨ x.Ends line

instance (self : Nat) (w : World) (s : Request) : Decidable (s.Allowed self w) := by
  cases s <;> unfold Request.Allowed <;> infer_instance

instance (x : RequestText) : Decidable x.Counted := by
  unfold RequestText.Counted; split <;> infer_instance

instance (line : Bytes) (x : RequestText) : Decidable (x.Ends line) := by
  unfold RequestText.Ends; split <;> infer_instance

instance (line : Bytes) (self : Nat) (w : World) : Decidable (EndsOrCounts line self w) := by
  unfold EndsOrCounts; infer_instance

section RequestOf

variable {cmd arg : Bytes} {r : Request}

/-- An argument makes a request of a command with two words. -/
theorem requestOf_cases (h : requestOf cmd arg = some r) :
    cmd = lit "LOGIN" ∧ arg.length ≤ usernameLength - 1 ∧ r = .login arg ∨
    cmd = lit "SUBSCRIBE" ∧ (∃ inst, arg = instrumentName inst ∧ r = .subscribe inst) ∨
    cmd = lit "UNSUBSCRIBE" ∧ (∃ inst, arg = instrumentName inst ∧ r = .unsubscribe inst) ∨
    cmd = lit "CANCEL" ∧ ∃ id, orderIdOf arg = some id ∧ r = .cancel id := by
  unfold requestOf at h
  split at h
  · rename_i hcmd
    split at h
    · cases h
    · rename_i hlen
      exact .inl ⟨hcmd, not_lt.mp hlen, (Option.some.inj h).symm⟩
  split at h
  · rename_i hcmd
    obtain ⟨inst, hinst, rfl⟩ := Option.map_eq_some_iff.mp h
    exact .inr (.inl ⟨hcmd, inst, eq_instrumentName hinst, rfl⟩)
  split at h
  · rename_i hcmd
    obtain ⟨inst, hinst, rfl⟩ := Option.map_eq_some_iff.mp h
    exact .inr (.inr (.inl ⟨hcmd, inst, eq_instrumentName hinst, rfl⟩))
  split at h
  · rename_i hcmd
    obtain ⟨id, hid, rfl⟩ := Option.map_eq_some_iff.mp h
    exact .inr (.inr (.inr ⟨hcmd, id, hid, rfl⟩))
  · cases h

theorem mem_of_requestOf (h : requestOf cmd arg = some r) :
    (cmd, 2) ∈ sessionCommands ∧ r ≠ .quit := by
  obtain ⟨rfl, -, rfl⟩ | ⟨rfl, inst, -, rfl⟩ | ⟨rfl, inst, -, rfl⟩ | ⟨rfl, id, -, rfl⟩ :=
    requestOf_cases h <;> exact ⟨by decide, by simp⟩

theorem length_of_requestOf {username : Bytes} (h : requestOf cmd arg = some (.login username)) :
    username.length ≤ usernameLength - 1 := by
  obtain ⟨-, hlen, hr⟩ | ⟨-, inst, -, hr⟩ | ⟨-, inst, -, hr⟩ | ⟨-, id, -, hr⟩ :=
    requestOf_cases h <;> cases hr
  exact hlen

/-- The text of an order id has no NUL. -/
theorem zero_not_mem_orderIdStr {orderIdStr : Bytes} {id : Int}
    (h : orderIdOf orderIdStr = some id) : 0 ∉ orderIdStr := by
  unfold orderIdOf at h
  split at h
  · cases h
  · rename_i n rest hn
    dsimp only at h
    split at h
    · cases h
    · rename_i hrest
      have hnil : rest = [] := by
        by_contra hne
        exact hrest (.inl hne)
      obtain ⟨t, ht, htoken⟩ := signedPrefix_split hn
      rw [hnil, List.append_nil] at ht
      intro h0
      rw [← List.takeWhile_append_dropWhile (p := isSpace) (l := orderIdStr)] at h0
      rcases List.mem_append.mp h0 with h0 | h0
      · exact absurd (List.mem_takeWhile_imp h0) (by decide)
      · exact ((intToken_bytes htoken).2 0 (ht ▸ h0)).2 rfl

/-- A line of the two words is the request's own. -/
theorem isLine_of_requestOf (h : requestOf cmd arg = some r) {line : Bytes}
    (hline : words line = [cmd, arg]) : r.IsLine line := by
  obtain ⟨rfl, -, rfl⟩ | ⟨rfl, inst, rfl, rfl⟩ | ⟨rfl, inst, rfl, rfl⟩ | ⟨rfl, id, hid, rfl⟩ :=
    requestOf_cases h
  · exact hline
  · exact hline
  · exact hline
  · exact ⟨arg, hline, hid⟩

/-- Every request but `QUIT` is two words. -/
theorem two_of_isLine {line : Bytes} (hne : r ≠ .quit) (h : r.IsLine line) :
    (words line).length = 2 := by
  cases r with
  | quit => exact absurd rfl hne
  | login username => exact congrArg List.length h
  | subscribe inst => exact congrArg List.length h
  | unsubscribe inst => exact congrArg List.length h
  | cancel id =>
    obtain ⟨orderIdStr, hw, -⟩ := h
    exact congrArg List.length hw

/-- The request's own line has no NUL. -/
theorem zero_not_mem_isLine (h : requestOf cmd arg = some r) (harg : 0 ∉ arg) {line : Bytes}
    (hline : r.IsLine line) : 0 ∉ line := by
  have hplain : ∀ {a b : Bytes}, words line = [a, b] → 0 ∉ a → 0 ∉ b → 0 ∉ line := by
    intro a b hw ha hb h0
    obtain ⟨t, ht, h0t⟩ := mem_words h0 (by decide)
    rw [hw, List.mem_cons, List.mem_singleton] at ht
    rcases ht with rfl | rfl
    · exact ha h0t
    · exact hb h0t
  obtain ⟨-, -, rfl⟩ | ⟨-, inst, -, rfl⟩ | ⟨-, inst, -, rfl⟩ | ⟨-, id, -, rfl⟩ :=
    requestOf_cases h
  · exact hplain hline (by decide) harg
  · exact hplain hline (by decide) (zero_not_mem_instrumentName inst)
  · exact hplain hline (by decide) (zero_not_mem_instrumentName inst)
  · obtain ⟨orderIdStr, hw, hid⟩ := hline
    exact hplain hw (by decide) (zero_not_mem_orderIdStr hid)

end RequestOf

/-! ## 3. Refusals -/

section Refusals

variable {line : Bytes} {self : Nat} {w : World}

theorem refusedLine_of_replyError {reason : Bytes}
    (h : processLine line self w = replyError self reason
      (w.note (.line (w.conn self).serial line))) : RefusedLine line self w := by
  refine ⟨answered_of_replyError reason w.heap h, ?_⟩
  rw [h]
  exact ⟨rfl, reply_roster self _ _, fun n hn => sendLine_slot_ne _ hn _ _, rfl, rfl⟩

/-- The fields an effect is about are not the queue's. -/
theorem done_of_roster {v v' : World} (h : v'.roster = v.roster) (fd : Nat) (s : Request)
    (c : ClientConnection) (new : List Obs) :
    s.Done c (v'.conn fd) new ↔ s.Done c (v.conn fd) new := by
  have hin : (v'.conn fd).loggedIn = (v.conn fd).loggedIn :=
    conn_field_of_view (v := .bare) (fun c => c.loggedIn) (fun _ => rfl) h
  have hname : (v'.conn fd).username = (v.conn fd).username :=
    conn_field_of_view (v := .bare) (fun c => c.username) (fun _ => rfl) h
  have hclosing : (v'.conn fd).closing = (v.conn fd).closing :=
    conn_field_of_view (v := .bare) (fun c => c.closing) (fun _ => rfl) h
  have hsub : ∀ inst, (v'.conn fd).subscribed inst = (v.conn fd).subscribed inst := fun inst =>
    conn_field_of_view (v := .bare) (fun c => c.subscribed inst)
      (fun _ => by cases inst <;> rfl) h
  cases s <;> simp only [Request.Done, hin, hname, hclosing, hsub]

/-- Nothing is done to a connection that is as it was. -/
theorem not_done_self {c : ClientConnection} {new : List Obs}
    (hnew : ∀ ord, Obs.cancelled c.serial ord ∉ new) (s : Request) : ¬ s.Done c c new := by
  cases s with
  | login username => exact fun h => Bool.false_ne_true (h.1.symm.trans h.2.1)
  | subscribe inst => exact fun h => Bool.false_ne_true (h.1.symm.trans h.2)
  | unsubscribe inst => exact fun h => Bool.false_ne_true (h.2.symm.trans h.1)
  | quit => exact fun h => Bool.false_ne_true (h.1.symm.trans h.2)
  | cancel id => exact fun ⟨ord, hord, _⟩ => hnew ord hord

/-- What leaves the connections as they are and notes no cancellation has no effect. -/
structure Idle (w w' : World) : Prop where
  roster : w'.roster = w.roster
  trace : ∃ new, w'.trace = w.trace ++ new ∧ ∀ k ord, Obs.cancelled k ord ∉ new

theorem not_takesEffect_of_idle (h : Idle w (processLine line self w).1) (s : Request) :
    ¬ s.TakesEffect line self w := by
  obtain ⟨new, hnew, hno⟩ := h.trace
  unfold Request.TakesEffect
  dsimp only
  rw [hnew, List.drop_left, done_of_roster h.roster]
  exact not_done_self (hno _) s

theorem RefusedLine.idle (h : RefusedLine line self w) : Idle w (processLine line self w).1 := by
  obtain ⟨-, reason, x, htrace, -⟩ := h.answered
  exact ⟨h.unchanged.roster, _, htrace, by simp⟩

end Refusals

/-! ## 4. One command, one effect -/

/-- What the command makes of its connection. -/
def Request.change : Request → ClientConnection → ClientConnection
  | .login username, c => c.logIn username
  | .subscribe inst, c => c.subscribe inst
  | .unsubscribe inst, c => c.setSubscribed false inst
  | .quit, c => { c with closing := true }
  | .cancel _, c => c

/-- The ids it cancels. -/
def Request.cancels : Request → List Int
  | .cancel id => [id]
  | _ => []

section Effects

variable {c : ClientConnection} {new : List Obs} {s t : Request}

/-- A command has its own effect only. -/
theorem done_unique (hs : s.Done c (s.change c) new) (ht : t.Done c (s.change c) new)
    (hnew : ∀ ord, Obs.cancelled c.serial ord ∈ new → ord.id ∈ s.cancels) : t = s := by
  -- the change of one command does not set the flag of another
  have hclash : ∀ {b : Bool} {P : Prop}, b = false → b = true → P := fun h0 h1 =>
    absurd (h0.symm.trans h1) Bool.false_ne_true
  cases t with
  | login username =>
    obtain ⟨hout, hin, hname⟩ := ht
    cases s with
    | login username' => exact congrArg _ (hname.symm.trans hs.2.2)
    | subscribe inst => cases inst <;> exact hclash hout hin
    | unsubscribe inst => cases inst <;> exact hclash hout hin
    | quit => exact hclash hout hin
    | cancel id => exact hclash hout hin
  | subscribe inst =>
    obtain ⟨hout, hin⟩ := ht
    cases s with
    | subscribe inst' =>
      cases inst <;> cases inst' <;>
        first | rfl | exact hclash hout hin
    | unsubscribe inst' =>
      cases inst <;> cases inst' <;>
        first | cases hin | exact hclash hout hin
    | _ => cases inst <;> exact hclash hout hin
  | unsubscribe inst =>
    obtain ⟨hin, hout⟩ := ht
    cases s with
    | subscribe inst' =>
      cases inst <;> cases inst' <;>
        first | cases hout | exact hclash hout hin
    | unsubscribe inst' =>
      cases inst <;> cases inst' <;>
        first | rfl | exact hclash hout hin
    | _ => cases inst <;> exact hclash hout hin
  | quit =>
    obtain ⟨hout, hin⟩ := ht
    cases s with
    | quit => rfl
    | subscribe inst => cases inst <;> exact hclash hout hin
    | unsubscribe inst => cases inst <;> exact hclash hout hin
    | _ => exact hclash hout hin
  | cancel id =>
    obtain ⟨ord, hord, rfl⟩ := ht
    have hid := hnew ord hord
    cases s with
    | cancel id' => exact congrArg _ (List.mem_singleton.mp hid)
    | _ => cases hid

/-- **What a command does that is let through**: its change, a note for what it cancels, and
one reply. -/
structure Request.Did (s : Request) (fd : Nat) (w w' : World) : Prop where
  roster : w'.roster = (w.modify fd s.change).roster
  trace : ∃ (gone : List Order) (h : Handed), gone.map Order.id = s.cancels ∧
    w'.trace = w.trace ++ (gone.map (Obs.cancelled (w.conn fd).serial) ++ [.handed h])

/-- Let through, the command is done. -/
theorem done_of_allowed {self : Nat} {w : World} (hc : w.slot self = some c)
    (hopen : c.closing = false) (hname : ∀ username, s = .login username →
      username.length ≤ usernameLength - 1) (hs : s.Allowed self w)
    (hnew : ∀ id ∈ s.cancels, ∃ ord, Obs.cancelled c.serial ord ∈ new ∧ ord.id = id) :
    s.Done c (s.change c) new := by
  cases s with
  | login username =>
    rw [Request.Allowed, conn_of_slot hc] at hs
    exact ⟨hs.2.1, rfl, List.take_of_length_le (hname username rfl)⟩
  | subscribe inst =>
    rw [Request.Allowed, conn_of_slot hc] at hs
    exact ⟨hs.2, by cases inst <;> rfl⟩
  | unsubscribe inst =>
    rw [Request.Allowed, conn_of_slot hc] at hs
    exact ⟨hs.2, by cases inst <;> rfl⟩
  | quit => exact ⟨hopen, rfl⟩
  | cancel id => exact hnew id (List.mem_singleton.mpr rfl)

/-- **One command, one effect.** -/
theorem takesEffect_iff {line : Bytes} {self : Nat} {w : World} (hc : w.slot self = some c)
    (hopen : c.closing = false) (hname : ∀ username, s = .login username →
      username.length ≤ usernameLength - 1) (hs : s.Allowed self w)
    (h : s.Did self (w.note (.line c.serial line)) (processLine line self w).1) :
    t.TakesEffect line self w ↔ t = s := by
  obtain ⟨gone, x, hgone, htrace⟩ := h.trace
  rw [conn_note, conn_of_slot hc, trace_note, List.append_assoc] at htrace
  have hslot : ((w.note (.line c.serial line)).modify self s.change).conn self = s.change c :=
    conn_of_slot (modify_slot self (by exact hc) _)
  have hiff : ∀ t : Request, t.TakesEffect line self w ↔ t.Done c (s.change c)
      ([.line c.serial line] ++ (gone.map (Obs.cancelled c.serial) ++ [.handed x])) := by
    intro t
    unfold Request.TakesEffect
    dsimp only
    rw [htrace, List.drop_left, done_of_roster h.roster, hslot, conn_of_slot hc]
  have hnew : ∀ ord, Obs.cancelled c.serial ord ∈
      [.line c.serial line] ++ (gone.map (Obs.cancelled c.serial) ++ [.handed x]) ↔ ord ∈ gone := by
    intro ord
    simp
  generalize [.line c.serial line] ++ (gone.map (Obs.cancelled c.serial) ++ [.handed x]) = new
    at hiff hnew
  have hdone : s.Done c (s.change c) new := by
    refine done_of_allowed hc hopen hname hs fun id hid => ?_
    rw [← hgone] at hid
    obtain ⟨ord, hord, rfl⟩ := List.mem_map.mp hid
    exact ⟨ord, (hnew ord).mpr hord, rfl⟩
  rw [hiff]
  constructor
  · intro ht
    refine done_unique hdone ht fun ord hord => ?_
    rw [← hgone]
    exact List.mem_map_of_mem ((hnew ord).mp hord)
  · rintro rfl
    exact hdone

end Effects

/-! ## 5. What the commands do -/

section Commands

variable (self : Nat) (w : World)

/-- A reply after a change that cancels nothing. -/
theorem did_reply {s : Request} (hs : s.cancels = []) :
    s.Did self w (reply self (lit "OK\n") (w.modify self s.change)).1 :=
  ⟨reply_roster _ _ _, [], _, by rw [hs]; rfl, rfl⟩

/-- Either the state lets the command through and it does what it does, or it is refused. -/
def Handles (s : Request) (r : World × Bool) : Prop :=
  s.Allowed self w ∧ s.Did self w r.1 ∨
    ¬ s.Allowed self w ∧ ∃ reason, r = replyError self reason w

theorem loginUser_handles (username : Bytes) :
    Handles self w (.login username) (loginUser username self w) := by
  unfold loginUser
  split
  · rename_i hrole
    exact .inr ⟨fun h => h.1 hrole, _, rfl⟩
  · rename_i hrole
    split
    · rename_i hin
      exact .inr ⟨fun h => Bool.false_ne_true (h.2.1.symm.trans hin), _, rfl⟩
    · rename_i hout
      split
      · rename_i hused
        exact .inr ⟨fun h => Bool.false_ne_true (h.2.2.symm.trans hused), _, rfl⟩
      · rename_i hfree
        exact .inl ⟨⟨hrole, by simpa using hout, by simpa using hfree⟩, did_reply self w rfl⟩

theorem subscribeClient_handles {instrument : Bytes} {inst : Instrument}
    (h : instrumentOf instrument = some inst) :
    Handles self w (.subscribe inst) (subscribeClient instrument self w) := by
  unfold subscribeClient
  split
  · rename_i hrole
    exact .inr ⟨fun h => h.1 hrole, _, rfl⟩
  · rename_i hrole
    rw [h]
    dsimp only
    split
    · rename_i hsub
      exact .inr ⟨fun h => Bool.false_ne_true (h.2.symm.trans hsub), _, rfl⟩
    · rename_i hsub
      exact .inl ⟨⟨hrole, by simpa using hsub⟩, did_reply self w rfl⟩

theorem unsubscribeClient_handles {instrument : Bytes} {inst : Instrument}
    (h : instrumentOf instrument = some inst) :
    Handles self w (.unsubscribe inst) (unsubscribeClient instrument self w) := by
  unfold unsubscribeClient
  split
  · rename_i hrole
    exact .inr ⟨fun h => h.1 hrole, _, rfl⟩
  · rename_i hrole
    rw [h]
    dsimp only
    split
    · rename_i hsub
      exact .inl ⟨⟨hrole, hsub⟩, did_reply self w rfl⟩
    · rename_i hsub
      exact .inr ⟨fun h => hsub h.2, _, rfl⟩

theorem cancelUserOrder_handles (hin : (w.conn self).loggedIn = true) {orderIdStr : Bytes}
    {id : Int} (h : orderIdOf orderIdStr = some id) :
    Handles self w (.cancel id) (cancelUserOrder orderIdStr self w) := by
  unfold cancelUserOrder
  rw [h]
  dsimp only
  split
  · rename_i hnone
    refine .inr ⟨fun hs => ?_, _, rfl⟩
    obtain ⟨-, ord, hord, hmatch⟩ := hs
    exact cancelOrder_eq_none.mp (Option.map_eq_none_iff.mp hnone) ord hord hmatch
  · rename_i r hr
    obtain ⟨r', hr', rfl⟩ := Option.map_eq_some_iff.mp hr
    obtain ⟨head, pre, post, hget, -, hid, hfd⟩ := cancelOrder_eq_some hr'
    have hmem : r'.1 ∈ w.exchange.orderbook.orders :=
      LimitOrderBook.mem_orders.mpr ⟨head, by rw [hget]; simp⟩
    have hroster : (w.modify self (Request.cancel id).change).roster = w.roster :=
      congrArg World.roster (modify_id self w)
    exact .inl ⟨⟨hin, _, hmem, hid, hfd⟩, (reply_roster _ _ _).trans hroster.symm, [r'.1], _,
      congrArg (fun i => [i]) hid, List.append_assoc _ _ _⟩

/-- A request with exactly its argument goes to its command. -/
theorem dispatchCommand_request {s : Scanned} (hm : s.matched = 2) {r : Request}
    (h : requestOf s.cmd s.arg = some r) : Handles self w r (dispatchCommand s self w) := by
  unfold requestOf at h
  split at h
  · rename_i hcmd
    split at h
    · cases h
    · rename_i hlen
      cases h
      rw [dispatchCommand, hcmd, hm, if_neg (by decide), if_pos ⟨rfl, rfl⟩, if_neg hlen]
      exact loginUser_handles self w _
  split at h
  · rename_i hcmd
    obtain ⟨inst, hinst, rfl⟩ := Option.map_eq_some_iff.mp h
    rw [dispatchCommand, hcmd, hm, if_neg (by decide), if_neg (by decide), if_pos ⟨rfl, rfl⟩]
    exact subscribeClient_handles self w hinst
  split at h
  · rename_i hcmd
    obtain ⟨inst, hinst, rfl⟩ := Option.map_eq_some_iff.mp h
    rw [dispatchCommand, hcmd, hm, if_neg (by decide), if_neg (by decide), if_neg (by decide),
      if_neg (by decide), if_pos ⟨rfl, rfl⟩]
    exact unsubscribeClient_handles self w hinst
  split at h
  · rename_i hcmd
    obtain ⟨id, hid, rfl⟩ := Option.map_eq_some_iff.mp h
    cases hin : (w.conn self).loggedIn with
    | false =>
      rw [dispatchCommand, hcmd, hm, if_neg (by decide), if_neg (by decide), if_neg (by decide),
        if_neg (by decide), if_neg (by decide), if_pos hin]
      exact .inr ⟨fun hs => Bool.false_ne_true (hin.symm.trans hs.1), _, rfl⟩
    | true =>
      rw [dispatchCommand_cancel hcmd hm hin]
      exact cancelUserOrder_handles self w hin hid
  · cases h

/-- `QUIT` alone. -/
theorem dispatchCommand_quit {s : Scanned} (hcmd : s.cmd = lit "QUIT") (hm : s.matched = 1) :
    dispatchCommand s self w = quitUser self w := by
  rw [dispatchCommand, hcmd, hm, if_neg (by decide), if_neg (by decide), if_neg (by decide),
    if_pos ⟨rfl, rfl⟩]

/-- With another number of conversions it is refused. -/
theorem dispatchCommand_miscounted {s : Scanned} {n : Nat} (hcmd : (s.cmd, n) ∈ sessionCommands)
    (hm : s.matched ≠ n) : ∃ reason, dispatchCommand s self w = replyError self reason w := by
  have hword : ∀ p ∈ sessionCommands, ¬ p.1.length > maxCmdLen ∧ p.1 ≠ lit "BUY" ∧
      p.1 ≠ lit "SELL" := by decide
  have hno : ∀ p ∈ sessionCommands, ¬ (s.cmd = p.1 ∧ s.matched = p.2) := by
    rintro p hp ⟨h1, h2⟩
    exact hm (h2.trans (count_unique (h1 ▸ hp) hcmd))
  obtain ⟨hshort, hbuy, hsell⟩ := hword _ hcmd
  unfold dispatchCommand
  rw [if_neg hshort, if_neg (hno (_, 2) (by decide)), if_neg (hno (_, 2) (by decide)),
    if_neg (hno (_, 1) (by decide)), if_neg (hno (_, 2) (by decide))]
  split
  · exact ⟨_, rfl⟩
  rw [if_neg fun h => hbuy h.1, if_neg fun h => hsell h.1, if_neg (hno (_, 2) (by decide))]
  exact ⟨_, rfl⟩

/-- So it is with an argument that is none. -/
theorem dispatchCommand_unfit {s : Scanned} (hcmd : (s.cmd, 2) ∈ sessionCommands)
    (hm : s.matched = 2) (h : requestOf s.cmd s.arg = none) :
    ∃ reason, dispatchCommand s self w = replyError self reason w := by
  simp only [sessionCommands, List.mem_cons, List.not_mem_nil, or_false, Prod.mk.injEq,
    and_true, OfNat.ofNat_ne_one, and_false, false_or] at hcmd
  rcases hcmd with hcmd | hcmd | hcmd | hcmd
  · rw [requestOf, if_pos hcmd] at h
    split at h
    · rename_i hlong
      rw [dispatchCommand, hcmd, hm, if_neg (by decide), if_pos ⟨rfl, rfl⟩, if_pos hlong]
      exact ⟨_, rfl⟩
    · cases h
  · have hinst : instrumentOf s.arg = none := by
      rw [requestOf, hcmd, if_neg (by decide), if_pos rfl] at h
      exact Option.map_eq_none_iff.mp h
    rw [dispatchCommand, hcmd, hm, if_neg (by decide), if_neg (by decide), if_pos ⟨rfl, rfl⟩,
      subscribeClient, hinst]
    split <;> exact ⟨_, rfl⟩
  · have hinst : instrumentOf s.arg = none := by
      rw [requestOf, hcmd, if_neg (by decide), if_neg (by decide), if_pos rfl] at h
      exact Option.map_eq_none_iff.mp h
    rw [dispatchCommand, hcmd, hm, if_neg (by decide), if_neg (by decide), if_neg (by decide),
      if_neg (by decide), if_pos ⟨rfl, rfl⟩, unsubscribeClient, hinst]
    split <;> exact ⟨_, rfl⟩
  · have hid : orderIdOf s.arg = none := by
      rw [requestOf, hcmd, if_neg (by decide), if_neg (by decide), if_neg (by decide),
        if_pos rfl] at h
      exact Option.map_eq_none_iff.mp h
    cases hin : (w.conn self).loggedIn with
    | false =>
      rw [dispatchCommand, hcmd, hm, if_neg (by decide), if_neg (by decide), if_neg (by decide),
        if_neg (by decide), if_neg (by decide), if_pos hin]
      exact ⟨_, rfl⟩
    | true =>
      rw [dispatchCommand_cancel hcmd hm hin, cancelUserOrder, hid]
      exact ⟨_, rfl⟩

theorem idle_replyError (reason : Bytes) : Idle w (replyError self reason w).1 :=
  ⟨reply_roster _ _ _, _, rfl, by simp⟩

theorem idle_placeOrder (side : OrderSide) (instrument : Bytes) (quantity price : Int) :
    Idle w (placeOrder side instrument quantity price self w).1 := by
  unfold placeOrder
  split
  · exact idle_replyError self w _
  · dsimp only
    split
    · exact idle_replyError self w _
    · split
      · exact ⟨reply_roster _ _ _, _, rfl, by simp⟩
      · obtain ⟨hs, htrace, -⟩ := acceptOrder_trace (w.exchange.newOrder side _ quantity price
          (w.conn self).clientFd (w.conn self).serial) self { w with heap := (alloc w.heap).2 }
        exact ⟨acceptOrder_roster _ _ _, _, htrace, by simp⟩

/-- No other command has an effect on the session. -/
theorem dispatchCommand_idle {s : Scanned} (hcmd : ∀ n, (s.cmd, n) ∉ sessionCommands) :
    Idle w (dispatchCommand s self w).1 := by
  have hno : ∀ cmd n, (cmd, n) ∈ sessionCommands → s.cmd ≠ cmd := by
    rintro cmd n hmem rfl
    exact hcmd n hmem
  unfold dispatchCommand
  split
  · exact idle_replyError self w _
  rw [if_neg fun h => hno _ 2 (by decide) h.1, if_neg fun h => hno _ 2 (by decide) h.1,
    if_neg fun h => hno _ 1 (by decide) h.1, if_neg fun h => hno _ 2 (by decide) h.1]
  split
  · exact idle_replyError self w _
  split
  · exact idle_placeOrder self w _ _ _ _
  split
  · exact idle_placeOrder self w _ _ _ _
  rw [if_neg fun h => hno _ 2 (by decide) h.1]
  exact idle_replyError self w _

end Commands

/-! ## 6. What the server does with a line -/

section Lines

variable {line : Bytes} {self : Nat} {w : World}

/-- One word and no more. -/
theorem scanLine_one {s cmd rest : Bytes} (h1 : scanWord maxTokenLen s = some (cmd, rest))
    (h2 : scanWord maxTokenLen rest = none) :
    (scanLine s).cmd = cmd ∧ (scanLine s).matched = 1 := by
  unfold scanLine
  rw [h1]
  dsimp only
  rw [h2]
  exact ⟨rfl, rfl⟩

/-- Two words, and what stands behind them. -/
theorem scanLine_two {s cmd rest arg behind : Bytes}
    (h1 : scanWord maxTokenLen s = some (cmd, rest))
    (h2 : scanWord maxTokenLen rest = some (arg, behind)) :
    (scanLine s).cmd = cmd ∧ (scanLine s).arg = arg ∧ 2 ≤ (scanLine s).matched ∧
      (numeral behind ≠ none ↔ (scanLine s).matched ≠ 2) := by
  unfold scanLine scanInt
  rw [h1]
  dsimp only
  rw [h2]
  dsimp only
  cases h3 : numeral behind with
  | none => simp
  | some r3 =>
    dsimp only [Option.map_some]
    cases numeral r3.2 with
    | none => simp
    | some r4 => simp

/-- A request is scanned as its command, and what is behind it is counted if there are more
conversions than the command has words. -/
theorem scanLine_of_requestText {s : Bytes} {x : RequestText} (h : requestText s = some x) :
    ∃ n, ((scanLine s).cmd, n) ∈ sessionCommands ∧ (x.Counted ↔ (scanLine s).matched ≠ n) ∧
      (x.request = .quit ∧ n = 1 ∧ (scanLine s).cmd = lit "QUIT" ∨
        n = 2 ∧ requestOf (scanLine s).cmd (scanLine s).arg = some x.request) := by
  unfold requestText at h
  split at h
  · cases h
  · rename_i cmd rest h1
    split at h
    · rename_i hquit
      cases h
      have hcounted : RequestText.Counted { request := .quit, behind := rest } ↔
          scanWord maxTokenLen rest ≠ none := by
        rw [Ne, scanWord_eq_none (by decide), words_eq_nil]
        rfl
      cases h2 : scanWord maxTokenLen rest with
      | none =>
        obtain ⟨hc, hm⟩ := scanLine_one h1 h2
        rw [hcounted, h2, hc, hm, hquit]
        exact ⟨1, by decide, by simp, .inl ⟨rfl, rfl, rfl⟩⟩
      | some r =>
        obtain ⟨hc, -, hm, -⟩ := scanLine_two h1 h2
        rw [hcounted, h2, hc, hquit]
        exact ⟨1, by decide, ⟨fun _ => by omega, fun _ => Option.some_ne_none _⟩,
          .inl ⟨rfl, rfl, rfl⟩⟩
    · split at h
      · cases h
      · rename_i arg behind h2
        obtain ⟨r, hr, rfl⟩ := Option.map_eq_some_iff.mp h
        obtain ⟨hc, ha, -, hm⟩ := scanLine_two h1 h2
        obtain ⟨hmem, hne⟩ := mem_of_requestOf hr
        rw [hc, ha]
        refine ⟨2, hmem, ?_, .inr ⟨rfl, hr⟩⟩
        rw [← hm]
        cases r with
        | quit => exact absurd rfl hne
        | _ => exact Iff.rfl

/-- A line that begins with a session command and is no request. -/
theorem scanLine_of_no_requestText {s : Bytes} (h : requestText s = none) {n : Nat}
    (hcmd : ((scanLine s).cmd, n) ∈ sessionCommands) (hm : (scanLine s).matched = n) :
    n = 2 ∧ requestOf (scanLine s).cmd (scanLine s).arg = none := by
  have hn : n = 1 ↔ (scanLine s).cmd = lit "QUIT" := by
    have hall : ∀ p ∈ sessionCommands, p.2 = 1 ↔ p.1 = lit "QUIT" := by decide
    exact hall _ hcmd
  unfold requestText at h
  split at h
  · rename_i h1
    have hnil : (scanLine s).cmd = [] := by
      unfold scanLine
      rw [h1]
    have hne : ∀ p ∈ sessionCommands, p.1 ≠ [] := by decide
    exact absurd hnil (hne _ hcmd)
  · rename_i cmd rest h1
    split at h
    · cases h
    · rename_i hquit
      split at h
      · rename_i h2
        obtain ⟨hc, hone⟩ := scanLine_one h1 h2
        exact absurd (hc.symm.trans (hn.mp (hm.symm.trans hone))) hquit
      · rename_i arg behind h2
        obtain ⟨hc, ha, htwo, -⟩ := scanLine_two h1 h2
        rw [hc, ha]
        refine ⟨?_, Option.map_eq_none_iff.mp h⟩
        have hle : ∀ p ∈ sessionCommands, p.2 ≤ 2 := by decide
        have := hle _ hcmd
        omega

theorem processLine_dispatch (h : 1 ≤ (scanLine (cstr line)).matched) :
    processLine line self w = dispatchCommand (scanLine (cstr line)) self
      (w.note (.line (w.conn self).serial line)) := by
  unfold processLine
  exact if_neg (by omega)

/-- A line whose first word is no session command has no effect on the session. -/
theorem processLine_idle (h : ∀ n, ((scanLine (cstr line)).cmd, n) ∉ sessionCommands) :
    Idle w (processLine line self w).1 := by
  have hnoted : ∀ w', Idle (w.note (.line (w.conn self).serial line)) w' → Idle w w' := by
    intro w' hidle
    obtain ⟨new, hnew, hno⟩ := hidle.trace
    exact ⟨hidle.roster, [.line (w.conn self).serial line] ++ new,
      hnew.trans (List.append_assoc _ _ _), by simpa using hno⟩
  by_cases hm : 1 ≤ (scanLine (cstr line)).matched
  · rw [processLine_dispatch hm]
    exact hnoted _ (dispatchCommand_idle self _ h)
  · unfold processLine
    dsimp only
    rw [if_pos (by omega)]
    exact hnoted _ ⟨rfl, [], (List.append_nil _).symm, by simp⟩

theorem one_le_matched {s : Bytes} {n : Nat} (h : ((scanLine s).cmd, n) ∈ sessionCommands) :
    1 ≤ (scanLine s).matched := by
  cases h1 : scanWord maxTokenLen s with
  | none =>
    have hnil : (scanLine s).cmd = [] := by
      unfold scanLine
      rw [h1]
    have hne : ∀ p ∈ sessionCommands, p.1 ≠ [] := by decide
    exact absurd hnil (hne _ h)
  | some r => exact (scanLine_cmd h1).2.1

/-- A session command that is no request is refused. -/
theorem refusedLine_of_no_request (h : requestText (cstr line) = none) {n : Nat}
    (hcmd : ((scanLine (cstr line)).cmd, n) ∈ sessionCommands) : RefusedLine line self w := by
  have hdispatch : processLine line self w = dispatchCommand (scanLine (cstr line)) self
      (w.note (.line (w.conn self).serial line)) := processLine_dispatch (one_le_matched hcmd)
  by_cases hm : (scanLine (cstr line)).matched = n
  · obtain ⟨rfl, hnone⟩ := scanLine_of_no_requestText h hcmd hm
    obtain ⟨reason, hr⟩ := dispatchCommand_unfit self _ hcmd hm hnone
    exact refusedLine_of_replyError (hdispatch.trans hr)
  · obtain ⟨reason, hr⟩ := dispatchCommand_miscounted self _ hcmd hm
    exact refusedLine_of_replyError (hdispatch.trans hr)

/-- **What becomes of a request**: it is refused if the text behind it is counted or the state
does not let it through, and otherwise it takes effect. -/
theorem request_outcome {x : RequestText} (hx : requestText (cstr line) = some x)
    {c : ClientConnection} (hc : w.slot self = some c) (hopen : c.closing = false) :
    (x.Counted ∨ ¬ x.request.Allowed self w) ∧ RefusedLine line self w ∨
      (¬ x.Counted ∧ x.request.Allowed self w) ∧
        ∀ r : Request, r.TakesEffect line self w ↔ r = x.request := by
  obtain ⟨n, hcmd, hcounted, hwhich⟩ := scanLine_of_requestText hx
  have hdispatch : processLine line self w = dispatchCommand (scanLine (cstr line)) self
      (w.note (.line (w.conn self).serial line)) := processLine_dispatch (one_le_matched hcmd)
  rw [conn_of_slot hc] at hdispatch
  have hrefused : ∀ reason, dispatchCommand (scanLine (cstr line)) self
      (w.note (.line c.serial line)) = replyError self reason (w.note (.line c.serial line)) →
      RefusedLine line self w := by
    intro reason hr
    have hreply := hdispatch.trans hr
    rw [← conn_of_slot hc] at hreply
    exact refusedLine_of_replyError hreply
  by_cases hm : (scanLine (cstr line)).matched = n
  · have hnot : ¬ x.Counted := fun h => hcounted.mp h hm
    obtain ⟨hquit, rfl, hword⟩ | ⟨rfl, hof⟩ := hwhich
    · have hallow : x.request.Allowed self w := by
        rw [hquit]
        trivial
      refine .inr ⟨⟨hnot, hallow⟩, fun r => ?_⟩
      rw [hquit] at hallow ⊢
      refine takesEffect_iff hc hopen (by simp) hallow ?_
      rw [hdispatch, dispatchCommand_quit self _ hword hm]
      exact did_reply self _ rfl
    · obtain ⟨hallow, hdid⟩ | ⟨hallow, reason, hr⟩ :=
        dispatchCommand_request self (w.note (.line c.serial line)) hm hof
      · refine .inr ⟨⟨hnot, hallow⟩, fun r => ?_⟩
        refine takesEffect_iff hc hopen (fun username h => ?_) hallow (hdispatch ▸ hdid)
        exact length_of_requestOf (hof.trans (congrArg some h))
      · exact .inl ⟨.inr hallow, hrefused reason hr⟩
  · obtain ⟨reason, hr⟩ := dispatchCommand_miscounted self (w.note (.line c.serial line)) hcmd hm
    exact .inl ⟨.inl (hcounted.mpr hm), hrefused reason hr⟩

/-- A request on the C string of a short line is the line's own exactly if the line ends with
it. -/
theorem isLine_iff_ends (hlen : line.length ≤ maxTokenLen) {x : RequestText}
    (hx : requestText (cstr line) = some x) : x.request.IsLine line ↔ x.Ends line := by
  have hle : (cstr line).length ≤ maxTokenLen :=
    ((List.takeWhile_prefix _).length_le).trans hlen
  unfold requestText at hx
  split at hx
  · cases hx
  · rename_i cmd rest h1
    split at hx
    · cases hx
      exact Iff.rfl
    · split at hx
      · cases hx
      · rename_i arg behind h2
        obtain ⟨r, hr, rfl⟩ := Option.map_eq_some_iff.mp hx
        obtain ⟨hw1, -⟩ := words_of_scanWord hle h1
        obtain ⟨rest', h1', -, -, hl1⟩ := scanWord_of_words (by decide) hle hw1
        cases h1.symm.trans h1'
        obtain ⟨hw2, -⟩ := words_of_scanWord (hl1.trans hle) h2
        rw [hw2] at hw1
        have harg : 0 ∉ arg := fun h0 => zero_not_mem_cstr line
          ((scanWord_subset h1).2 0 ((scanWord_subset h2).1 0 h0))
        have hends : RequestText.Ends line { request := r, behind := behind } ↔
            0 ∉ line ∧ skipSpace behind = [] := by
          have hne := (mem_of_requestOf hr).2
          cases r with
          | quit => exact absurd rfl hne
          | _ => exact Iff.rfl
        rw [hends]
        constructor
        · intro hline
          have htwo := two_of_isLine (mem_of_requestOf hr).2 hline
          have h0 := zero_not_mem_isLine hr harg hline
          rw [cstr_of_not_mem h0] at hw1
          rw [hw1] at htwo
          refine ⟨h0, words_eq_nil.mp (List.length_eq_zero_iff.mp ?_)⟩
          simpa using htwo
        · rintro ⟨h0, hnil⟩
          rw [cstr_of_not_mem h0, words_eq_nil.mpr hnil] at hw1
          exact isLine_of_requestOf hr hw1

/-- **Session commands and the number of their words.**  Of a client that is connected and not
leaving, and on a line no longer than the buffer: the commands take effect only from a line of
exactly their words and a line with more is refused, if and only if the line is no request the
state lets through, or `sscanf` converts something behind it, or there is nothing behind it. -/
theorem session_lines (hlen : line.length ≤ maxTokenLen) {c : ClientConnection}
    (hc : w.slot self = some c) (hopen : c.closing = false) :
    SessionLineOk line self w ↔ EndsOrCounts line self w := by
  constructor
  · intro hok x hx hallow
    by_contra hno
    rw [not_or] at hno
    obtain ⟨⟨h | h, -⟩⟩ | ⟨-, heffect⟩ := request_outcome hx hc hopen
    · exact hno.1 h
    · exact h hallow
    · exact hno.2 ((isLine_iff_ends hlen hx).mp (hok.whole _ ((heffect _).mpr rfl)))
  · intro hcond
    constructor
    · intro r hr
      cases hx : requestText (cstr line) with
      | none =>
        exfalso
        by_cases hcmd : ∃ n, ((scanLine (cstr line)).cmd, n) ∈ sessionCommands
        · obtain ⟨n, hn⟩ := hcmd
          exact not_takesEffect_of_idle (refusedLine_of_no_request hx hn).idle r hr
        · exact not_takesEffect_of_idle (processLine_idle fun n hn => hcmd ⟨n, hn⟩) r hr
      | some x =>
        obtain ⟨-, hrefused⟩ | ⟨⟨hcount, hallow⟩, heffect⟩ := request_outcome hx hc hopen
        · exact absurd hr (not_takesEffect_of_idle hrefused.idle r)
        · rw [(heffect r).mp hr]
          exact (isLine_iff_ends hlen hx).mpr ((hcond x hx hallow).resolve_left hcount)
    · intro cmd n hcmd hhead hmore
      -- the first word is in the C string
      obtain ⟨ws, hwords⟩ := List.head?_eq_some_iff.mp hhead
      have h0 : ∀ p ∈ sessionCommands, 0 ∉ p.1 := by decide
      obtain ⟨rest, hrest⟩ := words_cstr hwords (h0 _ hcmd)
      have hle : (cstr line).length ≤ line.length := (List.takeWhile_prefix _).length_le
      obtain ⟨behind, hscan, -⟩ := scanWord_of_words (by decide) (hle.trans hlen) hrest
      have hsame : (scanLine (cstr line)).cmd = cmd := (scanLine_cmd hscan).1
      cases hx : requestText (cstr line) with
      | none => exact refusedLine_of_no_request hx (by rw [hsame]; exact hcmd)
      | some x =>
        obtain ⟨-, hrefused⟩ | ⟨⟨hcount, hallow⟩, -⟩ := request_outcome hx hc hopen
        · exact hrefused
        · exfalso
          have hline := (isLine_iff_ends hlen hx).mpr ((hcond x hx hallow).resolve_left hcount)
          obtain ⟨m, hm, -, ⟨hquit, h1, -⟩ | ⟨h2, hof⟩⟩ := scanLine_of_requestText hx
          · have hn : n = 1 := (count_unique hcmd (hsame ▸ hm)).trans h1
            rw [hquit] at hline
            have hone : (words line).length = 1 := hline
            omega
          · have hn : n = 2 := (count_unique hcmd (hsame ▸ hm)).trans h2
            have := two_of_isLine (mem_of_requestOf hof).2 hline
            omega

end Lines

/-- Three connections, and nobody is logged in: a name alone, with a number and with a word. -/
theorem session_lines_login :
    SessionLineOk (lit "LOGIN ann") 5 (Run.run act (.init 3 []) (market.take 4)) ∧
      SessionLineOk (lit "LOGIN ann 5") 5 (Run.run act (.init 3 []) (market.take 4)) ∧
      ¬ SessionLineOk (lit "LOGIN ann bob") 5 (Run.run act (.init 3 []) (market.take 4)) := by
  have hc : (Run.run act (.init 3 []) (market.take 4)).slot 5
      = some ((Run.run act (.init 3 []) (market.take 4)).conn 5) := by decide +kernel
  have hopen : ((Run.run act (.init 3 []) (market.take 4)).conn 5).closing = false := by
    decide +kernel
  refine ⟨?_, ?_, fun h => ?_⟩
  · exact (session_lines (by decide) hc hopen).mpr (by decide +kernel)
  · exact (session_lines (by decide) hc hopen).mpr (by decide +kernel)
  · exact absurd ((session_lines (by decide) hc hopen).mp h) (by decide +kernel)

/-- **A client is logged in under a part of what it sent.** -/
theorem extra_word_ignored :
    ¬ ∀ line self w c, Reachable w → line.length ≤ maxTokenLen → w.slot self = some c →
      c.closing = false → SessionLineOk line self w := by
  intro h
  have hok := h (lit "LOGIN ann bob") 5 (Run.run act (.init 3 []) (market.take 4))
    ((Run.run act (.init 3 []) (market.take 4)).conn 5) ⟨3, [], market.take 4, rfl⟩
    (by decide) (by decide +kernel) (by decide +kernel)
  have hlogin : (Request.login (lit "ann")).TakesEffect (lit "LOGIN ann bob") 5
      (Run.run act (.init 3 []) (market.take 4)) := by
    unfold Request.TakesEffect Request.Done
    decide +kernel
  have hwords : words (lit "LOGIN ann bob") = [lit "LOGIN", lit "ann"] := hok.whole _ hlogin
  exact absurd hwords (by decide)

end SocketExchange
