/-
# What a client hears after `QUIT`

The `OK` to `QUIT` is not always the last line a client gets.  While its output has not drained
the connection is in the table, and `placeOrder` notifies whoever is there: a fill of an order
the client left in the book, or a trade it subscribes to, is queued behind the `OK`
(`notified_after_ok`).

But a response is never queued there.  Every message is caused by the line of some client, and
the line of a client causes responses to that client only (`told_act`); a client that has quit
has no more lines.  `only_notices_after_ok` says so of every run of the main loop, and that
nothing is queued once the connection is removed.
-/
import SocketExchange.Quits

namespace SocketExchange

open CText

/-! ## 1. Who causes a message -/

/-- A `BOUGHT`, a `SOLD` or a `TRADE`. -/
def IsNotice (msg : Bytes) : Prop :=
  ∃ fill, msg = fillText (lit "BOUGHT") fill ∨ msg = fillText (lit "SOLD") fill ∨
    msg = fillText (lit "TRADE") fill

/-- **A message caused by a line of `k`**: what anybody else is told by it is a notice. -/
structure CausedBy (k : Nat) (w : World) (x : Handed) : Prop where
  issuer : x.issuer = k
  others : x.receiver ≠ k → IsNotice x.msg
  there : ∃ fd c, w.slot fd = some c ∧ c.serial = x.receiver

theorem caused_reply {w v : World} {self : Nat} {c : ClientConnection} (hc : w.slot self = some c)
    (hv : (v.conn self).serial = c.serial) (msg : Bytes) :
    CausedBy c.serial w (handedOf { self := self, about := none } self msg v) :=
  ⟨hv, fun hne => absurd hv hne, self, c, hc, hv.symm⟩

/-- An accepted order: the acknowledgement is its client's, and the rest are notices. -/
theorem acceptOrder_caused {w : World} {self : Nat} {c : ClientConnection}
    (hc : w.slot self = some c) (ord : Order) :
    ∃ new, (acceptOrder ord self w).1.trace = w.trace ++ new ∧
      ∀ x, .handed x ∈ new → CausedBy c.serial w x := by
  obtain ⟨hs, htrace, hwhat⟩ := acceptOrder_trace ord self w
  refine ⟨_, htrace, fun x hx => ?_⟩
  obtain ⟨y, hy, hyx⟩ := List.mem_map.mp hx
  cases hyx
  have hmem : x.what ∈ hs.map Handed.what := List.mem_map_of_mem hy
  rw [hwhat] at hmem
  obtain ⟨d, hd, hdx⟩ := List.mem_map.mp hmem
  simp only [Handed.what, Prod.mk.injEq] at hdx
  obtain ⟨hissuer, hrecv, -, hmsg⟩ := hdx
  rw [conn_of_slot hc] at hissuer
  rcases List.mem_cons.mp hd with rfl | hd
  · rw [conn_of_slot hc] at hrecv
    exact ⟨hissuer.symm, fun hne => absurd hrecv.symm hne, self, c, hc, hrecv⟩
  · obtain ⟨e, he⟩ := deliveries_live hd
    rw [conn_of_slot he] at hrecv
    refine ⟨hissuer.symm, fun _ => ?_, d.fd, e, he, hrecv⟩
    obtain ⟨fill, -, hkind⟩ := deliveries_kind hd
    rw [hmsg] at hkind
    rcases hkind with ⟨-, h⟩ | ⟨-, h⟩ | ⟨-, h, -⟩
    · exact ⟨fill, .inl h⟩
    · exact ⟨fill, .inr (.inl h)⟩
    · exact ⟨fill, .inr (.inr h)⟩

/-- **However a line is handled**, its client causes what it sends. -/
theorem Handling.caused {self : Nat} {w : World} {q : Bool} {o : Option (Order × List Bool)}
    {r : World × Bool} (h : Handling self w q o r) {c : ClientConnection}
    (hc : w.slot self = some c) :
    ∃ new, r.1.trace = w.trace ++ new ∧ ∀ x, .handed x ∈ new → CausedBy c.serial w x := by
  -- a reply to the client itself, after a change of its own fields
  have hone : ∀ {x y : Handed}, CausedBy c.serial w y → .handed x ∈ [Obs.handed y] →
      CausedBy c.serial w x := by
    intro x y hy hx
    cases List.mem_singleton.mp hx
    exact hy
  cases h with
  | silent => exact ⟨[], (List.append_nil _).symm, by simp⟩
  | replied heap f hf hrole hmsg =>
    refine ⟨_, rfl, fun x => hone (caused_reply hc ?_ _)⟩
    have hs := modify_slot (w := { w with heap := heap }) self hc f
    rw [conn_of_slot hs]
    exact congrArg Prod.fst (fields_of_plain hf c)
  | quit =>
    refine ⟨_, rfl, fun x => hone (caused_reply hc ?_ _)⟩
    rw [conn_of_slot (modify_slot self hc fun c => { c with closing := true })]
  | @accepted heap side inst quantity price hq hp hin ord hord =>
    obtain ⟨new, htrace, hnew⟩ := acceptOrder_caused (w := { w with heap := heap }) hc ord
    exact ⟨new, htrace, fun x hx => ⟨(hnew x hx).issuer, (hnew x hx).others, (hnew x hx).there⟩⟩
  | @cancelled id r h =>
    refine ⟨_, List.append_assoc _ _ _, fun x hx => ?_⟩
    rcases List.mem_cons.mp hx with hx | hx
    · cases hx
    · exact hone (caused_reply hc (by rw [← conn_of_slot hc]; rfl) _) hx

/-- **What an act notes**: messages that the client whose input it takes has caused, and behind
everything else who was removed. -/
structure Told (w : World) (a : Act) (front back : List Obs) : Prop where
  caused : ∀ x, .handed x ∈ front → ∃ fd ca c, a = .client fd ca ∧ ca.takesInput = true ∧
    w.slot fd = some c ∧ CausedBy c.serial w x
  stays : ∀ k, .removed k ∉ front
  removed : ∀ o ∈ back, ∃ k, o = .removed k ∧ k < w.accepts ∧
    ∀ n c, (act w a).slot n = some c → c.serial ≠ k

/-- Behind the removal of its client nobody has that number. -/
theorem removed_of_done {w : World} (hw : Housed w) {fd : Nat} {s : World × Bool}
    (hs : Alike w s.1) : ∃ back, (removeIfDone fd s).trace = s.1.trace ++ back ∧
      ∀ o ∈ back, ∃ k, o = .removed k ∧ k < w.accepts ∧
        ∀ n c, (removeIfDone fd s).slot n = some c → c.serial ≠ k := by
  have hw' := hw.of_alike hs
  obtain ⟨back, htrace, hback⟩ := removeIfDone_notes fd s
  refine ⟨back, htrace, fun o ho => ?_⟩
  obtain ⟨hdone, d, hd, rfl⟩ := hback o ho
  have hb := badge_of_slot hd
  refine ⟨d.serial, rfl, hs.accepts ▸ hw'.known _ _ _ hb, fun n c hc heq => ?_⟩
  rw [removeIfDone, if_pos hdone, removeClient_slot] at hc
  split at hc
  · cases hc
  · rename_i hn
    exact hn (hw'.distinct _ _ _ _ _ (heq ▸ badge_of_slot hc) hb)

theorem told_act {w : World} (hw : Housed w) (a : Act) :
    ∃ front back, (act w a).trace = w.trace ++ (front ++ back) ∧ Told w a front back := by
  have hquiet : ∀ {a : Act} {new : List Obs}, (act w a).trace = w.trace ++ new →
      (∀ o ∈ new, o.isOutput = false ∧ ∀ k, o ≠ .removed k) →
      ∃ front back, (act w a).trace = w.trace ++ (front ++ back) ∧ Told w a front back := by
    intro a new htrace hnew
    refine ⟨new, [], by rw [htrace, List.append_nil], fun x hx => ?_, fun k hk => ?_, by simp⟩
    · cases (hnew _ hx).1
    · exact (hnew _ hk).2 k rfl
  -- an act that may end with the removal of its client
  have hends : ∀ {a : Act} {fd : Nat} {s : World × Bool} {front : List Obs},
      act w a = removeIfDone fd s → Alike w s.1 → s.1.trace = w.trace ++ front →
      (∀ x, .handed x ∈ front → ∃ fd ca c, a = .client fd ca ∧ ca.takesInput = true ∧
        w.slot fd = some c ∧ CausedBy c.serial w x) → (∀ k, .removed k ∉ front) →
      ∃ front back, (act w a).trace = w.trace ++ (front ++ back) ∧ Told w a front back := by
    intro a fd s front hact halike htrace hcaused hstays
    obtain ⟨back, hback, hremoved⟩ := removed_of_done hw halike
    refine ⟨front, back, ?_, hcaused, hstays, hact ▸ hremoved⟩
    rw [hact, hback, htrace, List.append_assoc]
  cases a with
  | supply sock heap => exact @hquiet _ [] (List.append_nil _).symm (by simp)
  | accept fd grown calloced armed =>
    by_cases hopen : fd ∈ w.opened
    · exact @hquiet _ [] (by rw [act, if_pos hopen, List.append_nil]) (by simp)
    · have hcases := acceptClient_cases hw.table hopen (hw.slot_none hopen) grown calloced armed
      have hact : act w (.accept fd grown calloced armed)
          = acceptClient fd grown calloced armed w := if_neg hopen
      split at hcases
      · exact hquiet (hact ▸ hcases.trace) (by simp [Obs.isOutput])
      · exact @hquiet _ [] (by rw [hact, hcases.trace, List.append_nil]) (by simp)
  | client fd ca =>
    cases hc : w.slot fd with
    | none => exact @hquiet _ [] (by simp only [act, hc, List.append_nil]) (by simp)
    | some c =>
      have hact : act w (.client fd ca) = serve fd c w ca := by simp only [act, hc]
      cases ca with
      | applied =>
        exact @hquiet _ [.applied c.serial fd] (by rw [hact]; rfl) (by simp [Obs.isOutput])
      | received got =>
        exact @hquiet _ [.read c.serial (inbufSize - c.inlen) got] (by rw [hact]; rfl)
          (by simp [Obs.isOutput])
      | buffered f => exact @hquiet _ [] (by rw [hact, List.append_nil]; rfl) (by simp)
      | command line =>
        have hand := processLine_handling fd w line
        obtain ⟨new, htrace, hcaused⟩ := hand.caused (c := c) hc
        obtain ⟨new', htrace', hout⟩ := (processLine_kept line fd w).trace
        have hnew : new' = new := List.append_cancel_left (htrace'.symm.trans htrace)
        subst hnew
        have halike : Alike w (w.note (.line (w.conn fd).serial line)) :=
          alike_of_conns rfl rfl rfl rfl
        refine hends hact (halike.trans (processLine_kept line fd w).alike)
          (htrace.trans (List.append_assoc _ [_] _)) (fun x hx => ?_) fun k hk => ?_
        · rcases List.mem_cons.mp hx with hx | hx
          · cases hx
          · have hx' := hcaused x hx
            exact ⟨fd, _, c, rfl, rfl, hc, hx'.issuer, hx'.others, hx'.there⟩
        · rcases List.mem_cons.mp hk with hk | hk
          · cases hk
          · cases hout _ hk
      | overlong =>
        have hnoted : Alike w (w.note (.tooLong (w.conn fd).serial)) :=
          alike_of_conns rfl rfl rfl rfl
        refine hends hact (hnoted.trans (reply_kept _ _ _).alike)
          (List.append_assoc w.trace [.tooLong _] [.handed _]) (fun x hx => ?_) fun k hk => ?_
        · rcases List.mem_cons.mp hx with hx | hx
          · cases hx
          · cases List.mem_singleton.mp hx
            exact ⟨fd, _, c, rfl, rfl, hc, caused_reply hc (by rw [conn_note, conn_of_slot hc]) _⟩
        · simp at hk
      | flush =>
        have ht := tenants_of_roster (flushClient_roster fd w)
        refine hends hact ⟨badge_of_tenants ht, rfl, rfl, rfl, le_of_eq (currCap_of_view ht).symm⟩
          (trace_note _ _) (fun x hx => ?_) fun k hk => ?_
        · cases List.mem_singleton.mp hx
        · cases List.mem_singleton.mp hk
      | drop =>
        have hact' : act w (.client fd .drop) = removeIfDone fd (w, true) := hact
        exact hends hact' (.refl w) (List.append_nil _).symm (by simp) (by simp)

/-! ## 2. Behind `QUIT`, and behind the end -/

theorem mem_handedTo {k : Nat} {x : Handed} {trace : List Obs} (h : x ∈ handedTo k trace) :
    .handed x ∈ trace ∧ x.receiver = k := by
  obtain ⟨o, ho, hx⟩ := List.mem_filterMap.mp h
  cases o with
  | handed y =>
    dsimp only at hx
    split at hx
    · cases hx
      exact ⟨ho, ‹_›⟩
    · cases hx
  | _ => cases hx

/-- **The last response**: `QUIT` is answered `OK` at once, and what is handed to its connection
behind that are notices which the lines of others have caused. -/
def LastResponse (k : Nat) (trace : List Obs) : Prop :=
  ∀ pre text post, trace = pre ++ .line k text :: post → executesQuit text = true →
    ∃ ok rest, post = .handed ok :: rest ∧ ok.issuer = k ∧ ok.receiver = k ∧ ok.msg = lit "OK\n" ∧
      ∀ x ∈ handedTo k rest, x.issuer ≠ k ∧ IsNotice x.msg

/-- Nothing is handed to a connection that is removed. -/
def SilentWhenGone (k : Nat) (trace : List Obs) : Prop :=
  ∀ pre post, trace = pre ++ .removed k :: post → handedTo k post = []

structure Parting (w : World) : Prop where
  leaving : Leaving w
  last : ∀ k, LastResponse k w.trace
  silent : ∀ k, SilentWhenGone k w.trace
  gone : ∀ k, .removed k ∈ w.trace →
    k < w.accepts ∧ ∀ fd c, w.slot fd = some c → c.serial ≠ k

/-- The act that handles `QUIT`. -/
theorem quit_act {w : World} {fd : Nat} {c : ClientConnection} (hc : w.slot fd = some c)
    {text : Bytes} (hquit : executesQuit text = true) :
    ∃ ok back, (act w (.client fd (.command text))).trace
        = w.trace ++ .line c.serial text :: .handed ok :: back ∧
      ok.issuer = c.serial ∧ ok.receiver = c.serial ∧ ok.msg = lit "OK\n" ∧
      ∀ k, handedTo k back = [] := by
  have hact : act w (.client fd (.command text))
      = removeIfDone fd (quitUser fd (w.note (.line c.serial text))) := by
    simp only [act, hc, serve]
    rw [processLine_quit hquit, conn_of_slot hc]
  obtain ⟨ok, htrace, hissuer, hrecv, -, hmsg, -⟩ :=
    quitUser_ends (w := w.note (.line c.serial text)) hc
  obtain ⟨back, hback, hremoved⟩ :=
    removeIfDone_notes fd (quitUser fd (w.note (.line c.serial text)))
  refine ⟨ok, back, ?_, hissuer, hrecv, hmsg, fun k => ?_⟩
  · rw [hact, hback, htrace, trace_note, List.append_assoc, List.append_assoc]
    rfl
  · refine (quiet_notes (fun o ho => ?_) k).1
    obtain ⟨-, d, -, rfl⟩ := hremoved o ho
    rfl

theorem parting_act {w : World} (hw : Parting w) {a : Act} (ha : Attended w a) :
    Parting (act w a) := by
  have hl := leaving_act hw.leaving ha
  have hhouse := hw.leaving.roles.owned.housed
  obtain ⟨new, htrace, htaken⟩ := taken_act hhouse a
  obtain ⟨front, back, htrace', htold⟩ := told_act hhouse a
  have hnew : new = front ++ back := List.append_cancel_left (htrace.symm.trans htrace')
  subst hnew
  -- what is handed over stands in front of the removals
  have hback : ∀ k, handedTo k back = [] := fun k =>
    (quiet_notes (fun o ho => by obtain ⟨n, rfl, -⟩ := htold.removed o ho; rfl) k).1
  have hcaused : ∀ {k : Nat} {x : Handed}, x ∈ handedTo k (front ++ back) → x.receiver = k ∧
      ∃ fd ca c, a = .client fd ca ∧ ca.takesInput = true ∧ w.slot fd = some c ∧
        CausedBy c.serial w x := by
    intro k x hx
    rw [handedTo_append, hback, List.append_nil] at hx
    obtain ⟨hmem, hrecv⟩ := mem_handedTo hx
    exact ⟨hrecv, htold.caused x hmem⟩
  have hfresh : ∀ {k : Nat} {pre post : List Obs}, front ++ back = pre ++ .removed k :: post →
      handedTo k post = [] := by
    intro k pre post hsplit
    have hsub : ∀ {as : List Obs}, back = as ++ .removed k :: post → handedTo k post = [] := by
      intro as hb
      have h := hback k
      rw [hb, handedTo_append, List.append_eq_nil_iff] at h
      exact h.2
    rcases List.append_eq_append_iff.mp hsplit with ⟨as, -, hb⟩ | ⟨bs, hf, hb⟩
    · exact hsub hb
    · rcases bs with _ | ⟨x, bs⟩
      · exact @hsub [] hb.symm
      · obtain ⟨rfl, -⟩ := List.cons.inj hb
        exact absurd (by rw [hf]; simp) (htold.stays k)
  refine ⟨hl, fun k pre text post hsplit hquit => ?_, fun k pre post hsplit => ?_, fun k hk => ?_⟩
  · rw [htrace] at hsplit
    rcases htaken.split hsplit with ⟨rest, hold, rfl⟩ | ⟨rfl, -, fd, c, rfl, hc, rfl⟩
    · obtain ⟨ok, rest', rfl, hissuer, hrecv, hmsg, hrest⟩ := hw.last k pre text rest hold hquit
      refine ⟨ok, rest' ++ (front ++ back), rfl, hissuer, hrecv, hmsg, fun x hx => ?_⟩
      rw [handedTo_append] at hx
      rcases List.mem_append.mp hx with hx | hx
      · exact hrest x hx
      · -- whoever caused it takes input, so it is not the connection that has quit
        obtain ⟨hto, fd, ca, c, hact, hin, hc, hby⟩ := hcaused hx
        have hne : c.serial ≠ k := by
          intro hk
          have hopen := ha fd ca c hact hin hc
          rw [hw.leaving.closing fd c text hc (by rw [hk, hold]; simp) hquit] at hopen
          cases hopen
        exact ⟨fun h => hne (hby.issuer.symm.trans h), hby.others fun h => hne (h.symm.trans hto)⟩
    · obtain ⟨ok, more, htrace2, hissuer, hrecv, hmsg, hmore⟩ := quit_act hc hquit
      rw [htrace] at htrace2
      have hpost := List.append_cancel_left (hsplit.symm.trans htrace2)
      obtain ⟨-, rfl⟩ := List.cons.inj hpost
      exact ⟨ok, more, rfl, hissuer, hrecv, hmsg, fun x hx => by simp [hmore] at hx⟩
  · rw [htrace] at hsplit
    rcases List.append_eq_append_iff.mp hsplit with ⟨as, -, hnew⟩ | ⟨bs, hold, hrest⟩
    · exact hfresh hnew
    · rcases bs with _ | ⟨x, bs⟩
      · exact @hfresh k [] post hrest.symm
      · obtain ⟨rfl, hpost⟩ := List.cons.inj hrest
        rw [show post = bs ++ (front ++ back) from hpost, handedTo_append,
          hw.silent k pre bs hold, List.nil_append]
        refine List.eq_nil_iff_forall_not_mem.mpr fun x hx => ?_
        obtain ⟨hto, _, _, _, -, -, -, hby⟩ := hcaused hx
        obtain ⟨fd, c, hc, hser⟩ := hby.there
        exact (hw.gone k (by rw [hold]; simp)).2 fd c hc (hser.trans hto)
  · rw [htrace] at hk
    rcases List.mem_append.mp hk with hk | hk
    · obtain ⟨hlt, hgone⟩ := hw.gone k hk
      refine ⟨lt_of_lt_of_le hlt (persist_act hw.leaving.roles a).accepts, fun fd c' hc' => ?_⟩
      rcases closing_act hhouse a hc' with hnew | ⟨c, hc, hser, -⟩
      · omega
      · exact hser ▸ hgone fd c hc
    · rcases List.mem_append.mp hk with hk | hk
      · exact absurd hk (htold.stays k)
      · obtain ⟨n, hn, hlt, hgone⟩ := htold.removed _ hk
        cases hn
        exact ⟨lt_of_lt_of_le hlt (persist_act hw.leaving.roles a).accepts, hgone⟩

theorem parting_of_run (serverFd : Nat) (others : List Nat) (os : List Occurrence) :
    Parting (Run.run dispatch (.init serverFd others) os) := by
  refine (server_paced os _).invariant (fun _ _ h ha => parting_act h ha)
    ⟨leaving_init serverFd others, fun k pre text post h => ?_, fun k pre post h => ?_,
      fun k h => by (cases h)⟩
  · rcases pre with _ | ⟨x, pre⟩ <;> cases h
  · rcases pre with _ | ⟨x, pre⟩ <;> cases h

/-! ## 3. What follows the `OK`, and what does not -/

/-- **Only notices follow the `OK`** that answers `QUIT`, and nothing the end of the
connection. -/
theorem only_notices_after_ok (serverFd : Nat) (others : List Nat) (os : List Occurrence)
    (k : Nat) :
    let w := Run.run dispatch (.init serverFd others) os
    LastResponse k w.trace ∧ SilentWhenGone k w.trace :=
  ⟨(parting_of_run serverFd others os).last k, (parting_of_run serverFd others os).silent k⟩

/-- A seller quits while its socket takes nothing, and a buyer takes from the order it left. -/
def soldWhileQuitting : List Occurrence :=
  [ listening [5, 7], readable 5 (lit "LOGIN ann\nSELL JNST 10 5\n") willing,
    readable 5 (lit "QUIT\n") stuck, readable 7 (lit "LOGIN bob\nBUY JNST 4 5\n") willing,
    writable 5 willing ]

/-- **The `OK` is not the last line**: the seller is told `SOLD` behind it, and the socket gets
both. -/
theorem notified_after_ok :
    ¬ ∀ (os : List Occurrence) (k : Nat) (pre : List Obs) (text : Bytes) (ok : Handed)
      (rest : List Obs), (Run.run dispatch (.init 3 []) os).trace
        = pre ++ .line k text :: .handed ok :: rest → executesQuit text = true →
      handedTo k rest = [] := by
  intro h
  let trace := (Run.run dispatch (.init 3 []) soldWhileQuitting).trace
  let ok : Handed := { issuer := 0, receiver := 0, about := none, msg := lit "OK\n", wrote := []
                       failed := false }
  have hempty := h soldWhileQuitting 0 (trace.take 11) (lit "QUIT") ok (trace.drop 13)
    (by decide +kernel) (by decide)
  have hone : (handedTo 0 (trace.drop 13)).length = 1 := by decide +kernel
  rw [hempty] at hone
  cases hone

example : let trace := (Run.run dispatch (.init 3 []) soldWhileQuitting).trace
    (handedTo 0 trace).map Handed.msg
        = [lit "OK\n", lit "ORDER_ACCEPTED 0\n", lit "OK\n", lit "SOLD JNST 4 5\n"] ∧
      writtenTo 0 trace = lit "OK\nORDER_ACCEPTED 0\nOK\nSOLD JNST 4 5\n" := by
  decide +kernel

end SocketExchange
