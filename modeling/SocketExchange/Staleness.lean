/-
# Events of one pass

`kevent` returns an array of events, and an event carries a descriptor and nothing else.  By the
time the main loop comes to it, the connection it was generated for may be gone;
`handleClientEvent` looks whether the slot is empty and lets the event go.  But the slot may be
filled again: `accept` gives a closed descriptor to the next connection, and the event of the
listening socket can stand in between.

`NoStaleEvent` says that every event of a pass is handled on the connection that had its
descriptor when the pass began.  `stale_events` says when it does: if and only if no client's
event stands behind an event of the listening socket that registers a connection under the same
descriptor.
-/
import SocketExchange.Losses

namespace SocketExchange

/-! ## 1. A pass and its events -/

/-- What a pass adds to the trace. -/
def passTrace (w : World) (os : List Occurrence) : List Obs :=
  (Run.run dispatch w os).trace.drop w.trace.length

/-- **No stale event**: what is handled under a descriptor is handled on the connection that had
it when the pass began. -/
def NoStaleEvent (w : World) (os : List Occurrence) : Prop :=
  ∀ k fd, .applied k fd ∈ passTrace w os → ∃ c, w.slot fd = some c ∧ c.serial = k

/-- The descriptors of the connections an accept loop registers, if memory for the table is not
short. -/
def registeredFds : List AcceptResult → List Nat
  | [] => []
  | .drained :: _ => []
  | .interrupted :: rs => registeredFds rs
  | .connection clientFd _ calloced armed :: rs =>
    if calloced ∧ armed then clientFd :: registeredFds rs else registeredFds rs

/-- **The condition on a pass**: no client's event stands behind an event of the listening
socket that registers a connection under its descriptor. -/
def KeepsDescriptors (serverFd : Nat) (os : List Occurrence) : Prop :=
  os.Pairwise fun earlier later => earlier.ev.ident = serverFd → later.ev.ident ≠ serverFd →
    later.ev.ident ∉ registeredFds earlier.accepts

instance (serverFd : Nat) (os : List Occurrence) : Decidable (KeepsDescriptors serverFd os) := by
  unfold KeepsDescriptors; infer_instance

/-- `accept` returns descriptors that are not open. -/
def FreshFds : List AcceptResult → World → Prop
  | [], _ => True
  | .drained :: _, _ => True
  | .interrupted :: rs, w => FreshFds rs w
  | .connection clientFd grown calloced armed :: rs, w =>
    clientFd ∉ w.opened ∧ FreshFds rs (acceptClient clientFd grown calloced armed w)

instance decidableFreshFds : ∀ (rs : List AcceptResult) (w : World), Decidable (FreshFds rs w)
  | [], _ => .isTrue trivial
  | .drained :: _, _ => .isTrue trivial
  | .interrupted :: rs, w => decidableFreshFds rs w
  | .connection clientFd grown calloced armed :: rs, w =>
    have := decidableFreshFds rs (acceptClient clientFd grown calloced armed w)
    decidable_of_iff (clientFd ∉ w.opened ∧
      FreshFds rs (acceptClient clientFd grown calloced armed w)) Iff.rfl

/-- The same of an event of the listening socket. -/
def AcceptsFresh (w : World) (o : Occurrence) : Prop :=
  o.ev.ident = w.serverFd → FreshFds o.accepts { w with sock := o.sock, heap := o.heap }

instance (w : World) (o : Occurrence) : Decidable (AcceptsFresh w o) := by
  unfold AcceptsFresh; infer_instance

/-! ## 2. What an event of a client changes -/

/-- A note that an event was handled. -/
def Obs.isApplied : Obs → Bool
  | .applied _ _ => true
  | _ => false

/-- **One slot at most is emptied**, and no event is noted. -/
structure Confined (fd : Nat) (w w' : World) : Prop where
  others : ∀ n, n ≠ fd → w'.badge n = w.badge n
  own : w'.badge fd = w.badge fd ∨ w'.badge fd = none
  accepts : w'.accepts = w.accepts
  serverFd : w'.serverFd = w.serverFd
  currCap : w.currCap ≤ w'.currCap
  trace : ∃ new, w'.trace = w.trace ++ new ∧ ∀ o ∈ new, o.isApplied = false

theorem Confined.refl (fd : Nat) (w : World) : Confined fd w w :=
  ⟨fun _ _ => rfl, .inl rfl, rfl, rfl, le_refl _, [], (List.append_nil _).symm, by simp⟩

theorem Confined.trans {fd : Nat} {a b c : World} (h : Confined fd a b) (h' : Confined fd b c) :
    Confined fd a c := by
  obtain ⟨m, hm, hma⟩ := h.trace
  obtain ⟨n, hn, hna⟩ := h'.trace
  refine ⟨fun i hi => (h'.others i hi).trans (h.others i hi), ?_, h'.accepts.trans h.accepts,
    h'.serverFd.trans h.serverFd, h.currCap.trans h'.currCap, m ++ n, ?_, ?_⟩
  · rcases h'.own with h1 | h1
    · rw [h1]
      exact h.own
    · exact .inr h1
  · rw [hn, hm, List.append_assoc]
  · intro o ho
    exact (List.mem_append.mp ho).elim (hma o) (hna o)

theorem Alike.confined {w w' : World} (h : Alike w w') (fd : Nat) {new : List Obs}
    (htrace : w'.trace = w.trace ++ new) (hnew : ∀ o ∈ new, o.isApplied = false) :
    Confined fd w w' :=
  ⟨fun n _ => h.badge n, .inl (h.badge fd), h.accepts, h.serverFd, h.currCap, new, htrace, hnew⟩

/-- A step that leaves the table. -/
theorem confined_of_conns {w w' : World} (fd : Nat) (hconns : w'.conns = w.conns)
    (hopen : w'.opened = w.opened) (hacc : w'.accepts = w.accepts)
    (hsrv : w'.serverFd = w.serverFd) {new : List Obs} (htrace : w'.trace = w.trace ++ new)
    (hnew : ∀ o ∈ new, o.isApplied = false) : Confined fd w w' :=
  (alike_of_conns hconns hopen hacc hsrv).confined fd htrace hnew

theorem removeClient_confined {fd : Nat} {w : World} {c : ClientConnection}
    (hc : w.slot fd = some c) : Confined fd w (removeClient fd w) := by
  refine ⟨fun n hn => ?_, .inr ?_, removeClient_accepts fd w, removeClient_serverFd fd w,
    le_of_eq (removeClient_currCap fd w).symm, _, removeClient_trace hc, by simp [Obs.isApplied]⟩
  · rw [removeClient_badge, if_neg hn]
  · rw [removeClient_badge, if_pos rfl]

theorem removeIfDone_confined {fd : Nat} {w : World} {s : World × Bool} (h : Confined fd w s.1)
    {c : ClientConnection} (hc : s.1.slot fd = some c) : Confined fd w (removeIfDone fd s) := by
  unfold removeIfDone
  split
  · exact h.trans (removeClient_confined hc)
  · exact h

theorem Kept.confined {w w' : World} (h : Kept w w') (fd : Nat) : Confined fd w w' := by
  obtain ⟨new, hnew, hout⟩ := h.trace
  refine h.alike.confined fd hnew fun o ho => ?_
  have := hout o ho
  cases o <;> first | rfl | cases this

/-- **An act of a client concerns its slot only.** -/
theorem confined_act {fd : Nat} (w : World) {a : Act} (ha : OfClient fd a) :
    Confined fd w (act w a) := by
  have hnote : ∀ {v : World} (o : Obs), o.isApplied = false → Confined fd v (v.note o) := by
    intro v o ho
    refine confined_of_conns fd rfl rfl rfl rfl (trace_note v o) fun x hx => ?_
    rw [List.mem_singleton.mp hx]
    exact ho
  cases a with
  | supply sock heap => exact ha.elim
  | accept n grown calloced armed => exact ha.elim
  | client n a =>
    have hn : n = fd := by
      cases a <;> first | exact ha.elim | exact ha
    subst hn
    rw [act]
    split
    · exact .refl n w
    · rename_i c hc
      have hmod : ∀ (v : World) (f : ClientConnection → ClientConnection),
          (∀ c, ((f c).serial, (f c).clientFd) = (c.serial, c.clientFd)) →
          Confined n v (v.modify n f) := fun v f hf =>
        (alike_modify v n hf).confined n (List.append_nil _).symm (by simp)
      cases a with
      | applied => exact ha.elim
      | received got =>
        exact (hnote (.read c.serial (inbufSize - c.inlen) got) rfl).trans
          (hmod _ (fun c => { c with inbuf := c.inbuf ++ got }) fun _ => rfl)
      | buffered f =>
        exact hmod w (fun c => { c with inbuf := (f c).inbuf, scanned := (f c).scanned
                                        discarding := (f c).discarding }) fun _ => rfl
      | command line =>
        obtain ⟨c', hc', -⟩ := processLine_slot n hc line
        have h1 := hnote (v := w) (.line (w.conn n).serial line) rfl
        exact removeIfDone_confined (h1.trans ((processLine_kept line n w).confined n)) hc'
      | overlong =>
        obtain ⟨c', hc', -⟩ := rejectLine_slot n hc
        have h1 := hnote (v := w) (.tooLong (w.conn n).serial) rfl
        exact removeIfDone_confined (s := rejectLine n w)
          (h1.trans ((reply_kept _ _ _).confined n)) hc'
      | flush =>
        have ht := tenants_of_roster (flushClient_roster n w)
        obtain ⟨c', hc', -⟩ := slot_of_view (v := .bare) (flushClient_roster n w) hc
        have h1 : Alike w (flushClient n w).1 :=
          ⟨badge_of_tenants ht, rfl, rfl, rfl, le_of_eq (currCap_of_view ht).symm⟩
        exact removeIfDone_confined (h1.confined n (trace_note _ _) (by simp [Obs.isApplied])) hc'
      | drop => exact removeClient_confined hc

theorem Steps.confined {fd : Nat} {w w' : World} (h : Steps (OfClient fd) w w') :
    Confined fd w w' :=
  h.related (Confined.refl fd) Confined.trans fun w _ ha => confined_act w ha

/-- The state with the event noted, if there is a connection for it. -/
def noted (w : World) (fd : Nat) : World :=
  match w.slot fd with
  | none => w
  | some c => w.note (.applied c.serial fd)

theorem noted_alike (w : World) (fd : Nat) : Alike w (noted w fd) := by
  unfold noted
  split <;> exact alike_of_conns rfl rfl rfl rfl

/-- An event of a client is noted, and then concerns its slot only. -/
theorem dispatch_client {w : World} {o : Occurrence} (h : o.ev.ident ≠ w.serverFd) :
    Confined o.ev.ident (noted w o.ev.ident) (dispatch w o) := by
  unfold dispatch
  dsimp only
  rw [if_neg h]
  unfold handleClientEvent noted
  have hslot : World.slot { w with sock := o.sock, heap := o.heap } o.ev.ident
      = w.slot o.ev.ident := rfl
  rw [hslot]
  cases hs : w.slot o.ev.ident with
  | none =>
    exact confined_of_conns _ rfl rfl rfl rfl (List.append_nil _).symm (by simp)
  | some c =>
    have hc : World.slot ({ w with sock := o.sock, heap := o.heap }.note
        (.applied c.serial o.ev.ident)) o.ev.ident = some c := hs
    have h1 : Confined o.ev.ident (w.note (.applied c.serial o.ev.ident))
        ({ w with sock := o.sock, heap := o.heap }.note (.applied c.serial o.ev.ident)) :=
      confined_of_conns _ rfl rfl rfl rfl (List.append_nil _).symm (by simp)
    exact h1.trans (serveEvent_steps o.ev o.reads hc).confined

/-! ## 3. What an event of the listening socket changes -/

/-- **Nobody is removed**, who comes is new, and no event is noted. -/
structure Admitted (rs : List AcceptResult) (w w' : World) : Prop where
  stays : ∀ n k f, w.badge n = some (k, f) → w'.badge n = some (k, f)
  others : ∀ n, n ∉ registeredFds rs → w'.badge n = w.badge n
  comes : FreshFds rs w → ∀ n ∈ registeredFds rs, n < w.currCap →
    ∃ k f, w'.badge n = some (k, f) ∧ w.accepts ≤ k
  accepts : w.accepts ≤ w'.accepts
  serverFd : w'.serverFd = w.serverFd
  currCap : w.currCap ≤ w'.currCap
  trace : ∃ new, w'.trace = w.trace ++ new ∧ ∀ o ∈ new, o.isApplied = false

theorem Admitted.refl (w : World) {rs : List AcceptResult} (h : registeredFds rs = []) :
    Admitted rs w w := by
  refine ⟨fun _ _ _ h => h, fun _ _ => rfl, fun _ n hn => ?_, le_refl _, rfl, le_refl _, [],
    (List.append_nil _).symm, by simp⟩
  rw [h] at hn
  cases hn

/-- An accept that registers nobody, or nobody within the table, in front of others. -/
theorem Admitted.refused {w w' w'' : World} {rs rs' : List AcceptResult} (hr : Admitted rs w' w'')
    (h : Alike w w') (htrace : w'.trace = w.trace)
    (hsub : ∀ n ∈ registeredFds rs, n ∈ registeredFds rs')
    (hback : FreshFds rs' w → FreshFds rs w' ∧
      ∀ n ∈ registeredFds rs', n < w.currCap → n ∈ registeredFds rs) :
    Admitted rs' w w'' := by
  refine ⟨fun n k f hb => hr.stays n k f ((h.badge n).trans hb), fun n hn => ?_,
    fun hf n hn hlt => ?_, le_of_eq_of_le h.accepts.symm hr.accepts,
    hr.serverFd.trans h.serverFd, h.currCap.trans hr.currCap, ?_⟩
  · exact (hr.others n fun hmem => hn (hsub n hmem)).trans (h.badge n)
  · obtain ⟨hf', hb⟩ := hback hf
    rw [← h.accepts]
    exact hr.comes hf' n (hb n hn hlt) (lt_of_lt_of_le hlt h.currCap)
  · rw [← htrace]
    exact hr.trace

/-- An accept that registers a connection, in front of others. -/
theorem Admitted.registered {w w' w'' : World} {fd : Nat} {grown calloced armed : Bool}
    {rs : List AcceptResult} (hr : Admitted rs w' w'') (h : Registered w fd w')
    (hw' : w' = acceptClient fd grown calloced armed w) (hnone : w.badge fd = none)
    (hok : calloced = true ∧ armed = true) :
    Admitted (.connection fd grown calloced armed :: rs) w w'' := by
  have hfds : registeredFds (.connection fd grown calloced armed :: rs)
      = fd :: registeredFds rs := by
    rw [registeredFds, if_pos hok]
  have hbadge : ∀ n, w'.badge n = if n = fd then some (w.accepts, fd) else w.badge n := by
    intro n
    unfold World.badge
    rw [h.slot]
    split <;> rfl
  have hacc := hr.accepts
  rw [h.accepts] at hacc
  obtain ⟨new, hnew, hna⟩ := hr.trace
  refine ⟨fun n k f hb => hr.stays n k f ?_, fun n hn => ?_, fun hf n hn hlt => ?_, by omega,
    hr.serverFd.trans h.serverFd, h.currCap.trans hr.currCap, .accepted w.accepts fd :: new, ?_, ?_⟩
  · rw [hbadge, if_neg]
    · exact hb
    · rintro rfl
      rw [hnone] at hb
      cases hb
  · rw [hfds, List.mem_cons, not_or] at hn
    rw [hr.others n hn.2, hbadge, if_neg hn.1]
  · rw [hfds] at hn
    by_cases hnf : n = fd
    · exact ⟨w.accepts, fd, hr.stays n _ _ (by rw [hbadge, if_pos hnf]), le_refl _⟩
    · obtain ⟨k, f, hb, hk⟩ := hr.comes (hw' ▸ hf.2) n ((List.mem_cons.mp hn).resolve_left hnf)
        (lt_of_lt_of_le hlt h.currCap)
      rw [h.accepts] at hk
      exact ⟨k, f, hb, by omega⟩
  · rw [hnew, h.trace, List.append_assoc]
    rfl
  · intro o ho
    rcases List.mem_cons.mp ho with rfl | ho
    · rfl
    · exact hna o ho

theorem mem_registeredFds_cons {n fd : Nat} {grown calloced armed : Bool}
    {rs : List AcceptResult} :
    n ∈ registeredFds (.connection fd grown calloced armed :: rs) ↔
      (calloced = true ∧ armed = true) ∧ n = fd ∨ n ∈ registeredFds rs := by
  rw [registeredFds]
  split <;> rename_i h <;> simp [h]

theorem acceptClients_admitted : ∀ (rs : List AcceptResult) {w : World}, Housed w →
    Admitted rs w (acceptClients rs w)
  | [], w, _ => .refl w rfl
  | .drained :: _, w, _ => .refl w rfl
  | .interrupted :: rs, w, hw =>
    (acceptClients_admitted rs hw).refused (alike_of_conns rfl rfl rfl rfl) rfl
      (fun _ hn => hn) fun hf => ⟨hf, fun _ hn _ => hn⟩
  | .connection fd grown calloced armed :: rs, w, hw => by
    rw [acceptClients]
    split
    · -- an open descriptor: the answer is passed over
      rename_i hopen
      exact (acceptClients_admitted rs hw).refused (alike_of_conns rfl rfl rfl rfl) rfl
        (fun _ hn => mem_registeredFds_cons.mpr (.inr hn)) fun hf => absurd hopen hf.1
    · rename_i hopen
      have hnone := hw.slot_none hopen
      have hcases := acceptClient_cases hw.table hopen hnone grown calloced armed
      split at hcases
      · rename_i hok
        refine (acceptClients_admitted rs (housed_registered hw hopen hcases)).registered hcases
          rfl ?_ hok.2
        rw [World.badge, hnone]
        rfl
      · rename_i hno
        refine (acceptClients_admitted rs (hw.of_alike hcases.alike)).refused hcases.alike
          hcases.trace (fun _ hn => mem_registeredFds_cons.mpr (.inr hn)) fun hf =>
          ⟨hf.2, fun n hn hlt => ?_⟩
        rcases mem_registeredFds_cons.mp hn with ⟨hok, rfl⟩ | hn
        · exact absurd ⟨.inl hlt, hok⟩ hno
        · exact hn

/-! ## 4. A pass -/

/-- An event of the listening socket. -/
theorem dispatch_listening {w : World} (hw : Housed w) {o : Occurrence}
    (h : o.ev.ident = w.serverFd) :
    Admitted o.accepts { w with sock := o.sock, heap := o.heap } (dispatch w o) := by
  unfold dispatch
  dsimp only
  rw [if_pos h]
  exact acceptClients_admitted o.accepts (hw.of_alike (alike_of_conns rfl rfl rfl rfl))

theorem dispatch_serverFd {w : World} (hw : Housed w) (o : Occurrence) :
    (dispatch w o).serverFd = w.serverFd := by
  by_cases h : o.ev.ident = w.serverFd
  · exact (dispatch_listening hw h).serverFd
  · exact (dispatch_client h).serverFd.trans (noted_alike w _).serverFd

/-- **What one event is noted to be handled on**: the connection in its slot, if it is an event
of a client. -/
theorem dispatch_notes {w : World} (hw : Housed w) (o : Occurrence) :
    ∃ new, (dispatch w o).trace = w.trace ++ new ∧ ∀ k fd, .applied k fd ∈ new ↔
      o.ev.ident ≠ w.serverFd ∧ fd = o.ev.ident ∧ ∃ f, w.badge fd = some (k, f) := by
  have hno : ∀ {new : List Obs} {k fd}, (∀ x ∈ new, x.isApplied = false) →
      .applied k fd ∉ new := fun h hmem => by cases h _ hmem
  by_cases h : o.ev.ident = w.serverFd
  · obtain ⟨new, hnew, hna⟩ := (dispatch_listening hw h).trace
    exact ⟨new, hnew, fun k fd => ⟨fun hmem => absurd hmem (hno hna), fun hc => absurd h hc.1⟩⟩
  · obtain ⟨new, hnew, hna⟩ := (dispatch_client h).trace
    unfold noted at hnew
    cases hs : w.slot o.ev.ident with
    | none =>
      rw [hs] at hnew
      refine ⟨new, hnew, fun k fd => ⟨fun hmem => absurd hmem (hno hna), ?_⟩⟩
      rintro ⟨-, rfl, f, hb⟩
      rw [World.badge, hs] at hb
      cases hb
    | some c =>
      rw [hs] at hnew
      refine ⟨.applied c.serial o.ev.ident :: new,
        hnew.trans (List.append_assoc w.trace [_] new), fun k fd => ⟨fun hmem => ?_, ?_⟩⟩
      · rcases List.mem_cons.mp hmem with heq | hmem
        · cases heq
          exact ⟨h, rfl, _, badge_of_slot hs⟩
        · exact absurd hmem (hno hna)
      · rintro ⟨-, rfl, f, hb⟩
        rw [badge_of_slot hs] at hb
        cases hb
        exact List.mem_cons_self

theorem pass_trace : ∀ (os : List Occurrence) {w : World}, Reachable w →
    ∃ new, (Run.run dispatch w os).trace = w.trace ++ new
  | [], _, _ => ⟨[], (List.append_nil _).symm⟩
  | o :: os, w, hw => by
    obtain ⟨m, hm, -⟩ := dispatch_notes (housed_of_reachable hw) o
    obtain ⟨n, hn⟩ := pass_trace os (reachable_dispatch hw o)
    exact ⟨m ++ n, by rw [Run.run_cons, hn, hm, List.append_assoc]⟩

/-- The notes of a pass, event by event. -/
theorem mem_passTrace_cons {w : World} (hw : Reachable w) {o : Occurrence}
    {os : List Occurrence} {k fd : Nat} : .applied k fd ∈ passTrace w (o :: os) ↔
      (o.ev.ident ≠ w.serverFd ∧ fd = o.ev.ident ∧ ∃ f, w.badge fd = some (k, f)) ∨
        .applied k fd ∈ passTrace (dispatch w o) os := by
  obtain ⟨m, hm, hma⟩ := dispatch_notes (housed_of_reachable hw) o
  obtain ⟨n, hn⟩ := pass_trace os (reachable_dispatch hw o)
  rw [← hma]
  unfold passTrace
  rw [Run.run_cons, hn, List.drop_left, hm, List.append_assoc, List.drop_left, List.mem_append]

/-! ## 5. Where events are stale -/

/-- With nobody's descriptor given to another, slots keep their connections until they are
empty. -/
theorem applied_of_keeps {w : World} : ∀ (os : List Occurrence) {v : World}, Reachable v →
    (∀ o ∈ os, o.ev.ident ≠ v.serverFd →
      v.badge o.ev.ident = w.badge o.ev.ident ∨ v.badge o.ev.ident = none) →
    KeepsDescriptors v.serverFd os → ∀ k fd, .applied k fd ∈ passTrace v os →
      ∃ f, w.badge fd = some (k, f)
  | [], v, _, _, _, k, fd, hmem => by
    unfold passTrace at hmem
    rw [Run.run_nil, List.drop_length] at hmem
    cases hmem
  | o :: os, v, hv, hb, hkeep, k, fd, hmem => by
    have hhouse := housed_of_reachable hv
    have hsrv := dispatch_serverFd hhouse o
    obtain ⟨hhead, htail⟩ := List.pairwise_cons.mp hkeep
    rcases (mem_passTrace_cons hv).mp hmem with ⟨hne, rfl, f, hf⟩ | hmem
    · rcases hb o List.mem_cons_self hne with h1 | h1
      · exact ⟨f, h1 ▸ hf⟩
      · rw [h1] at hf
        cases hf
    · refine applied_of_keeps os (reachable_dispatch hv o) (fun o' ho' hne' => ?_)
        (hsrv.symm ▸ htail) k fd hmem
      rw [hsrv] at hne'
      have hold := hb o' (List.mem_cons_of_mem _ ho') hne'
      by_cases h : o.ev.ident = v.serverFd
      · have hsame : (dispatch v o).badge o'.ev.ident = v.badge o'.ev.ident :=
          (dispatch_listening hhouse h).others _ (hhead o' ho' h hne')
        rw [hsame]
        exact hold
      · have hconf := dispatch_client h
        have hnoted := (noted_alike v o.ev.ident).badge o'.ev.ident
        by_cases hid : o'.ev.ident = o.ev.ident
        · rw [hid] at hold hnoted ⊢
          rcases hconf.own with h1 | h1
          · rw [h1, hnoted]
            exact hold
          · exact .inr h1
        · rw [hconf.others _ hid, hnoted]
          exact hold

/-- A connection that came in the pass is found by the first event for its descriptor. -/
theorem applied_of_young {N : Nat} : ∀ (os : List Occurrence) {v : World}, Reachable v →
    ∀ {fd k f : Nat}, v.badge fd = some (k, f) → N ≤ k → fd ≠ v.serverFd →
      (∃ o ∈ os, o.ev.ident = fd) → ∃ k', N ≤ k' ∧ .applied k' fd ∈ passTrace v os
  | [], _, _, _, _, _, _, _, _, hex => by
    obtain ⟨o, ho, -⟩ := hex
    cases ho
  | o :: os, v, hv, fd, k, f, hb, hN, hsrv, hex => by
    have hhouse := housed_of_reachable hv
    by_cases hid : o.ev.ident = fd
    · subst hid
      exact ⟨k, hN, (mem_passTrace_cons hv).mpr (.inl ⟨hsrv, rfl, f, hb⟩)⟩
    · have hb' : (dispatch v o).badge fd = some (k, f) := by
        by_cases h : o.ev.ident = v.serverFd
        · exact (dispatch_listening hhouse h).stays _ _ _ hb
        · rw [(dispatch_client h).others _ (Ne.symm hid), (noted_alike v _).badge]
          exact hb
      have hex' : ∃ o' ∈ os, o'.ev.ident = fd := by
        obtain ⟨o', ho', hid'⟩ := hex
        rcases List.mem_cons.mp ho' with rfl | ho'
        · exact absurd hid' hid
        · exact ⟨o', ho', hid'⟩
      obtain ⟨k', hk', hmem⟩ := applied_of_young os (reachable_dispatch hv o) hb' hN
        ((dispatch_serverFd hhouse o).symm ▸ hsrv) hex'
      exact ⟨k', hk', (mem_passTrace_cons hv).mpr (.inr hmem)⟩

/-- If no event is handled on a connection that came in the pass, nobody's descriptor was given
to another in front of its event. -/
theorem keeps_of_applied {N : Nat} : ∀ (os : List Occurrence) {v : World}, Reachable v →
    N ≤ v.accepts → (∀ o ∈ os, o.ev.ident ≠ v.serverFd → o.ev.ident < v.currCap) →
    Run.Meets dispatch AcceptsFresh v os →
    (∀ k fd, .applied k fd ∈ passTrace v os → k < N) → KeepsDescriptors v.serverFd os
  | [], _, _, _, _, _, _ => List.Pairwise.nil
  | o :: os, v, hv, hN, hcap, hfresh, hold => by
    have hhouse := housed_of_reachable hv
    have hsrv := dispatch_serverFd hhouse o
    have hmore : v.accepts ≤ (dispatch v o).accepts ∧ v.currCap ≤ (dispatch v o).currCap := by
      by_cases h : o.ev.ident = v.serverFd
      · exact ⟨(dispatch_listening hhouse h).accepts, (dispatch_listening hhouse h).currCap⟩
      · have hc := dispatch_client h
        have ha := noted_alike v o.ev.ident
        exact ⟨le_of_eq (hc.accepts.trans ha.accepts).symm, ha.currCap.trans hc.currCap⟩
    refine List.pairwise_cons.mpr ⟨fun o' ho' hlisten hne hreg => ?_, ?_⟩
    · -- a connection came under the descriptor of an event still to come
      obtain ⟨k, f, hb, hk⟩ := (dispatch_listening hhouse hlisten).comes (hfresh.1 hlisten) _ hreg
        (hcap o' (List.mem_cons_of_mem _ ho') hne)
      have hNk : N ≤ k := hN.trans hk
      obtain ⟨k', hk', hmem⟩ := applied_of_young os (reachable_dispatch hv o) hb hNk
        (hsrv.symm ▸ hne) ⟨o', ho', rfl⟩
      have := hold k' _ ((mem_passTrace_cons hv).mpr (.inr hmem))
      omega
    · rw [← hsrv]
      refine keeps_of_applied os (reachable_dispatch hv o) (hN.trans hmore.1) ?_ hfresh.2
        fun k fd hmem => hold k fd ((mem_passTrace_cons hv).mpr (.inr hmem))
      intro o' ho' hne
      rw [hsrv] at hne
      exact lt_of_lt_of_le (hcap o' (List.mem_cons_of_mem _ ho') hne) hmore.2

/-- **When no event is stale.**  In a pass over events of connections that are there when it
begins, every event is handled on the connection it was generated for if and only if no
client's event stands behind an event of the listening socket that registers a connection under
the same descriptor. -/
theorem stale_events {w : World} (hw : Reachable w) {os : List Occurrence}
    (hlive : ∀ o ∈ os, o.ev.ident ≠ w.serverFd → (w.slot o.ev.ident).isSome = true)
    (hfresh : Run.Meets dispatch AcceptsFresh w os) :
    NoStaleEvent w os ↔ KeepsDescriptors w.serverFd os := by
  have hhouse := housed_of_reachable hw
  constructor
  · intro h
    refine keeps_of_applied os hw (le_refl _) (fun o ho hne => ?_) hfresh fun k fd hmem => ?_
    · obtain ⟨c, hc⟩ := Option.isSome_iff_exists.mp (hlive o ho hne)
      exact slot_lt hc
    · obtain ⟨c, hc, rfl⟩ := h k fd hmem
      exact hhouse.known fd _ _ (badge_of_slot hc)
  · intro h k fd hmem
    obtain ⟨f, hf⟩ := applied_of_keeps os hw (fun _ _ _ => .inl rfl) h k fd hmem
    obtain ⟨c, hc, hk, -⟩ := slot_of_badge hf
    exact ⟨c, hc, hk⟩

/-- The peer is gone, by the write filter. -/
def hangUp (fd : Nat) : Occurrence :=
  { ev := { ident := fd, filter := .write, eof := true, error := false }, reads := []
    accepts := [], sock := willing, heap := [] }

/-- The client under 5 leaves; both its events are in the pass, and between them the event of
the listening socket brings a connection under 5. -/
def reusedPass : List Occurrence := [readable 5 [] willing, listening [5], hangUp 5]

/-- The same with a connection under 8. -/
def otherPass : List Occurrence := [readable 5 [] willing, listening [8], hangUp 5]

theorem stale_events_market :
    let w := Run.run act (.init 3 []) market
    NoStaleEvent w otherPass ∧ ¬ NoStaleEvent w reusedPass := by
  intro w
  have hw : Reachable w := ⟨3, [], market, rfl⟩
  have h1 : NoStaleEvent w otherPass ↔ KeepsDescriptors w.serverFd otherPass :=
    stale_events hw (by decide +kernel) (by decide +kernel)
  have h2 : NoStaleEvent w reusedPass ↔ KeepsDescriptors w.serverFd reusedPass :=
    stale_events hw (by decide +kernel) (by decide +kernel)
  exact ⟨h1.mpr (by decide +kernel), fun h => absurd (h2.mp h) (by decide +kernel)⟩

/-- **A stale event removes a new connection.** -/
theorem stale_event_applied :
    ¬ ∀ (w : World) (os : List Occurrence), Reachable w →
      (∀ o ∈ os, o.ev.ident ≠ w.serverFd → (w.slot o.ev.ident).isSome = true) →
      Run.Meets dispatch AcceptsFresh w os → NoStaleEvent w os := by
  intro h
  have hno := h (Run.run act (.init 3 []) market) reusedPass ⟨3, [], market, rfl⟩
    (by decide +kernel) (by decide +kernel)
  obtain ⟨c, hc, hk⟩ := hno 3 5 (by decide +kernel)
  have hold : (Run.run act (.init 3 []) market).badge 5 = some (0, 5) := by decide +kernel
  rw [badge_of_slot hc, hk] at hold
  cases hold

example : (Run.run dispatch (Run.run act (.init 3 []) market) reusedPass).slot 5 = none := by
  decide +kernel

end SocketExchange
