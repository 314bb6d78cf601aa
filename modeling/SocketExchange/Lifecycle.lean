/-
# From `accept` to `close`

Of the notes a run leaves, those about one connection begin with its registration and end with
its removal: nothing is read from it, written to it or done for it before or behind (`Lives`).
What an act does to the connections is one of three things (`Course`): it serves connections
that are there, it serves and then removes one, or it registers the next.

So at the end of `main` every connection that was ever registered has been torn down once,
the descriptors open are those that were open in front of the loop, and no order in the book
names a descriptor (`lifecycle`).
-/
import SocketExchange.AfterQuit

namespace SocketExchange

open CText

/-! ## 1. The life of a connection -/

/-- The note is about this connection. -/
def Obs.about (k : Nat) : Obs → Bool
  | .accepted k' _ | .removed k' | .applied k' _ | .read k' _ _ | .line k' _ | .tooLong k'
  | .flushed k' _ | .cancelled k' _ => k' == k
  | .handed h => h.receiver == k || h.issuer == k

/-- It is neither a registration nor a removal. -/
def Obs.isService : Obs → Bool
  | .accepted _ _ | .removed _ => false
  | _ => true

inductive Stage
  | future
  | present
  | past
  deriving DecidableEq, Repr

/-- Where a connection is in its life. -/
def World.stage (w : World) (k : Nat) : Stage :=
  if k ∈ w.connected then .present else if k < w.accepts then .past else .future

/-- What is noted about a connection up to a stage. -/
def Lives (k : Nat) : Stage → List Obs → Prop
  | .future, notes => notes = []
  | .present, notes => ∃ fd during, notes = .accepted k fd :: during ∧
      ∀ o ∈ during, o.isService = true
  | .past, notes => ∃ fd during, notes = .accepted k fd :: (during ++ [.removed k]) ∧
      ∀ o ∈ during, o.isService = true

/-- A connection that is there is served. -/
theorem Lives.served {k : Nat} {notes new : List Obs} (h : Lives k .present notes)
    (hnew : ∀ o ∈ new, o.isService = true) : Lives k .present (notes ++ new) := by
  obtain ⟨fd, during, rfl, hduring⟩ := h
  refine ⟨fd, during ++ new, by rw [List.cons_append], fun o ho => ?_⟩
  exact (List.mem_append.mp ho).elim (hduring o) (hnew o)

theorem Lives.removed {k : Nat} {notes : List Obs} (h : Lives k .present notes) :
    Lives k .past (notes ++ [.removed k]) := by
  obtain ⟨fd, during, rfl, hduring⟩ := h
  exact ⟨fd, during, by rw [List.cons_append], hduring⟩

/-! ## 2. What an act does to the connections -/

/-- Notes of service to connections that are there. -/
def Serves (w : World) (new : List Obs) : Prop :=
  ∀ o ∈ new, o.isService = true ∧ ∀ k, o.about k = true → k ∈ w.connected

inductive Course (w : World) : World → Prop
  | served {w' : World} {new : List Obs} (halike : Alike w w') (htrace : w'.trace = w.trace ++ new)
      (hnew : Serves w new) : Course w w'
  | removed {v : World} {new : List Obs} {fd : Nat} {c : ClientConnection} (halike : Alike w v)
      (htrace : v.trace = w.trace ++ new) (hnew : Serves w new) (hc : v.slot fd = some c) :
      Course w (removeClient fd v)
  | registered {w' : World} {fd : Nat} (hopen : fd ∉ w.opened) (h : Registered w fd w') :
      Course w w'

theorem connected_of_slot {w : World} {fd : Nat} {c : ClientConnection} (hc : w.slot fd = some c) :
    c.serial ∈ w.connected := mem_connected.mpr ⟨fd, _, badge_of_slot hc⟩

theorem Serves.nil (w : World) : Serves w [] := fun _ h => absurd h List.not_mem_nil

/-- A note about a connection that is there. -/
theorem Serves.one {w : World} {o : Obs} {k : Nat} (hk : k ∈ w.connected)
    (hservice : o.isService = true) (habout : ∀ n, o.about n = true → n = k) : Serves w [o] := by
  intro o' ho'
  rw [List.mem_singleton.mp ho']
  exact ⟨hservice, fun n hn => habout n hn ▸ hk⟩

theorem Serves.append {w : World} {l m : List Obs} (h : Serves w l) (h' : Serves w m) :
    Serves w (l ++ m) := fun o ho => (List.mem_append.mp ho).elim (h o) (h' o)

/-- Messages that a connected client has caused. -/
theorem CausedBy.serves {w : World} {fd : Nat} {c : ClientConnection} (hc : w.slot fd = some c)
    {x : Handed} (h : CausedBy c.serial w x) : Serves w [.handed x] := by
  intro o ho
  rw [List.mem_singleton.mp ho]
  refine ⟨rfl, fun k hk => ?_⟩
  rw [Obs.about, Bool.or_eq_true, beq_iff_eq, beq_iff_eq] at hk
  rcases hk with hk | hk
  · obtain ⟨n, e, he, hserial⟩ := h.there
    rw [← hk, ← hserial]
    exact connected_of_slot he
  · rw [← hk, h.issuer]
    exact connected_of_slot hc

/-- What a line notes are messages, and a cancellation by its client. -/
theorem Handling.notes {self : Nat} {w : World} {q : Bool} {o : Option (Order × List Bool)}
    {r : World × Bool} (h : Handling self w q o r) : ∃ new, r.1.trace = w.trace ++ new ∧
      ∀ n ∈ new, (∃ x, n = .handed x) ∨ ∃ ord, n = .cancelled (w.conn self).serial ord := by
  cases h with
  | silent => exact ⟨[], (List.append_nil _).symm, by simp⟩
  | replied heap f hf hrole hmsg => exact ⟨[.handed _], rfl, by simp⟩
  | quit => exact ⟨[.handed _], rfl, by simp⟩
  | @accepted heap side inst quantity price hq hp hin ord hord =>
    obtain ⟨hs, htrace, -⟩ := acceptOrder_trace ord self { w with heap := heap }
    refine ⟨_, htrace, fun n hn => .inl ?_⟩
    obtain ⟨x, -, rfl⟩ := List.mem_map.mp hn
    exact ⟨x, rfl⟩
  | cancelled h => exact ⟨[.cancelled _ _, .handed _], List.append_assoc _ [_] [_], by simp⟩

/-- **A line serves connections that are there**, however it is handled. -/
theorem Handling.serves {self : Nat} {w : World} {q : Bool} {o : Option (Order × List Bool)}
    {r : World × Bool} (h : Handling self w q o r) {c : ClientConnection}
    (hc : w.slot self = some c) : ∃ new, r.1.trace = w.trace ++ new ∧ Serves w new := by
  obtain ⟨new, htrace, hcaused⟩ := h.caused hc
  obtain ⟨new', htrace', hnotes⟩ := h.notes
  have hnew : new' = new := List.append_cancel_left (htrace'.symm.trans htrace)
  subst hnew
  refine ⟨new', htrace, fun n hn => ?_⟩
  rcases hnotes n hn with ⟨x, rfl⟩ | ⟨ord, rfl⟩
  · exact (hcaused x hn).serves hc _ List.mem_cons_self
  · rw [conn_of_slot hc]
    exact ⟨rfl, fun k hk => beq_iff_eq.mp hk ▸ connected_of_slot hc⟩

/-- Service, and a removal if it says so. -/
theorem Course.removeIfDone {w : World} {fd : Nat} {c : ClientConnection} (hc : w.slot fd = some c)
    {s : World × Bool} {new : List Obs} (halike : Alike w s.1) (htrace : s.1.trace = w.trace ++ new)
    (hnew : Serves w new) : Course w (removeIfDone fd s) := by
  unfold SocketExchange.removeIfDone
  split
  · have hbadge := (halike.badge fd).trans (badge_of_slot hc)
    obtain ⟨c', hc', -⟩ := slot_of_badge hbadge
    exact .removed halike htrace hnew hc'
  · exact .served halike htrace hnew

/-- **Every act takes one of the three courses.** -/
theorem course_act {w : World} (hw : Housed w) (a : Act) : Course w (act w a) := by
  have hstill : Course w w := .served (.refl w) (List.append_nil _).symm (.nil w)
  cases a with
  | supply sock heap =>
    exact .served (alike_of_conns rfl rfl rfl rfl) (List.append_nil _).symm (.nil w)
  | accept fd grown calloced armed =>
    rw [act]
    split
    · exact hstill
    · rename_i hopen
      have hcases := acceptClient_cases hw.table hopen (hw.slot_none hopen) grown calloced armed
      split at hcases
      · exact .registered hopen hcases
      · exact .served hcases.alike (hcases.trace.trans (List.append_nil _).symm) (.nil w)
  | client fd a =>
    rw [act]
    split
    · exact hstill
    · rename_i c hc
      have hthere := connected_of_slot hc
      have hself : ∀ {o : Obs}, o.isService = true → (∀ k, o.about k = (c.serial == k)) →
          Serves w [o] := fun hservice habout =>
        .one hthere hservice fun k hk => (beq_iff_eq.mp (habout k ▸ hk)).symm
      cases a with
      | applied => exact .served (alike_of_conns rfl rfl rfl rfl) rfl (hself rfl fun _ => rfl)
      | received got =>
        have hnoted : Alike w (w.note (.read c.serial (inbufSize - c.inlen) got)) :=
          alike_of_conns rfl rfl rfl rfl
        exact .served (hnoted.trans (alike_modify _ fd fun _ => rfl)) rfl (hself rfl fun _ => rfl)
      | buffered f =>
        exact .served (alike_modify w fd fun _ => rfl) (List.append_nil _).symm (.nil w)
      | command line =>
        have hnoted : Alike w (w.note (.line (w.conn fd).serial line)) :=
          alike_of_conns rfl rfl rfl rfl
        obtain ⟨new, htrace, hnew⟩ := (processLine_handling fd w line).serves (c := c) hc
        have hline : Serves w [.line (w.conn fd).serial line] := by
          rw [conn_of_slot hc]
          exact hself rfl fun _ => rfl
        exact .removeIfDone hc (hnoted.trans (processLine_kept line fd w).alike)
          (htrace.trans (List.append_assoc _ [_] _)) (hline.append hnew)
      | overlong =>
        have hnoted : Alike w (w.note (.tooLong (w.conn fd).serial)) :=
          alike_of_conns rfl rfl rfl rfl
        have htoo : Serves w [.tooLong (w.conn fd).serial] := by
          rw [conn_of_slot hc]
          exact hself rfl fun _ => rfl
        refine .removeIfDone hc (hnoted.trans (reply_kept _ _ _).alike)
          (List.append_assoc w.trace [_] [.handed _]) (htoo.append (CausedBy.serves hc ?_))
        exact caused_reply hc (by rw [conn_note, conn_of_slot hc]) _
      | flush =>
        have ht := tenants_of_roster (flushClient_roster fd w)
        have hflushed : Serves w [.flushed (w.conn fd).serial
            (flushToClient (w.sock fd) (w.conn fd)).wrote] := by
          rw [conn_of_slot hc]
          exact hself rfl fun _ => rfl
        exact .removeIfDone hc
          ⟨badge_of_tenants ht, rfl, rfl, rfl, le_of_eq (currCap_of_view ht).symm⟩ (trace_note _ _)
          hflushed
      | drop => exact .removed (.refl w) (List.append_nil _).symm (.nil w) hc

/-! ## 3. Runs -/

/-- Who is there, by slot. -/
theorem badge_removeClient (fd : Nat) (w : World) (n : Nat) :
    (removeClient fd w).badge n = if n = fd then none else w.badge n := by
  unfold World.badge
  rw [removeClient_slot]
  split <;> rfl

theorem Registered.badge {w w' : World} {fd : Nat} (h : Registered w fd w') (n : Nat) :
    w'.badge n = if n = fd then some (w.accepts, fd) else w.badge n := by
  unfold World.badge
  rw [h.slot]
  split <;> rfl

theorem stage_present {w : World} {k : Nat} : w.stage k = .present ↔ k ∈ w.connected := by
  unfold World.stage
  split
  · rename_i h
    exact ⟨fun _ => h, fun _ => rfl⟩
  · rename_i h
    refine ⟨fun hs => ?_, fun hk => absurd hk h⟩
    split at hs <;> cases hs

/-- The stages of worlds with the same connections. -/
theorem stage_eq {w w' : World} {k : Nat} (hk : k ∈ w'.connected ↔ k ∈ w.connected)
    (hacc : k < w'.accepts ↔ k < w.accepts) : w'.stage k = w.stage k := by
  simp only [World.stage, hk, hacc]

theorem Alike.connected {w w' : World} (h : Alike w w') {k : Nat} :
    k ∈ w'.connected ↔ k ∈ w.connected := by
  simp only [mem_connected, h.badge]

/-- **What is so between two acts**: besides the sockets of the connections the descriptors open
are those at the start, and what is noted about a connection is its life so far. -/
structure Lively (base : List Nat) (w : World) : Prop where
  opened : w.opened.filter (fun fd => (w.badge fd).isNone) = base
  lives : ∀ k, Lives k (w.stage k) (w.trace.filter (Obs.about k))

variable {base : List Nat} {w : World}

theorem Lively.served {w' : World} (hw : Lively base w) (halike : Alike w w') {new : List Obs}
    (htrace : w'.trace = w.trace ++ new) (hnew : Serves w new) : Lively base w' := by
  refine ⟨?_, fun k => ?_⟩
  · rw [← hw.opened, halike.opened]
    exact List.filter_congr fun fd _ => by rw [halike.badge]
  · rw [stage_eq halike.connected (by rw [halike.accepts]), htrace, List.filter_append]
    by_cases hk : k ∈ w.connected
    · have h := hw.lives k
      rw [stage_present.mpr hk] at h ⊢
      exact h.served fun o ho => (hnew o (List.mem_filter.mp ho).1).1
    · have hnone : new.filter (Obs.about k) = [] := List.filter_eq_nil_iff.mpr fun o ho habout =>
        hk ((hnew o ho).2 k habout)
      rw [hnone, List.append_nil]
      exact hw.lives k

theorem Lively.removed (hw : Lively base w) (hh : Housed w) {fd : Nat} {c : ClientConnection}
    (hc : w.slot fd = some c) : Lively base (removeClient fd w) := by
  have hb := badge_of_slot hc
  refine ⟨?_, fun k => ?_⟩
  · rw [removeClient_opened, List.filter_filter, ← hw.opened]
    refine List.filter_congr fun n _ => ?_
    rw [badge_removeClient]
    by_cases hn : n = fd
    · simp [hn, hb]
    · simp [hn]
  · rw [removeClient_trace hc, List.filter_append]
    by_cases hk : c.serial = k
    · subst hk
      have hgone : c.serial ∉ (removeClient fd w).connected := by
        rw [mem_connected]
        rintro ⟨n, f, hn⟩
        rw [badge_removeClient] at hn
        split at hn
        · cases hn
        · rename_i hne
          exact hne (hh.distinct _ _ _ _ _ hn hb)
      have hpast : (removeClient fd w).stage c.serial = .past := by
        rw [World.stage, if_neg hgone, removeClient_accepts, if_pos (hh.known _ _ _ hb)]
      have h := hw.lives c.serial
      rw [stage_present.mpr (connected_of_slot hc)] at h
      rw [hpast, List.filter_cons_of_pos (by simp [Obs.about])]
      exact h.removed
    · have hsame : k ∈ (removeClient fd w).connected ↔ k ∈ w.connected := by
        rw [mem_connected, mem_connected]
        constructor
        · rintro ⟨n, f, hn⟩
          rw [badge_removeClient] at hn
          split at hn
          · cases hn
          · exact ⟨n, f, hn⟩
        · rintro ⟨n, f, hn⟩
          refine ⟨n, f, ?_⟩
          rw [badge_removeClient, if_neg ?_]
          · exact hn
          · rintro rfl
            rw [hb, Option.some.injEq, Prod.mk.injEq] at hn
            exact hk hn.1
      rw [stage_eq hsame (by rw [removeClient_accepts]),
        List.filter_cons_of_neg (by simp [Obs.about, hk]), List.filter_nil, List.append_nil]
      exact hw.lives k

theorem Lively.registered {w' : World} (hw : Lively base w) (hh : Housed w) {fd : Nat}
    (hopen : fd ∉ w.opened) (h : Registered w fd w') : Lively base w' := by
  have hfree : w.badge fd = none := by rw [World.badge, hh.slot_none hopen]; rfl
  refine ⟨?_, fun k => ?_⟩
  · rw [h.opened, List.filter_cons_of_neg (by simp [h.badge]), ← hw.opened]
    refine List.filter_congr fun n hn => ?_
    have hne : n ≠ fd := ne_of_mem_of_not_mem hn hopen
    rw [h.badge, if_neg hne]
  · rw [h.trace, List.filter_append]
    by_cases hk : w.accepts = k
    · subst hk
      have hno : w.accepts ∉ w.connected := by
        rw [mem_connected]
        rintro ⟨n, f, hn⟩
        exact lt_irrefl _ (hh.known _ _ _ hn)
      have hnow : w.accepts ∈ w'.connected :=
        mem_connected.mpr ⟨fd, fd, by rw [h.badge, if_pos rfl]⟩
      have hnone := hw.lives w.accepts
      rw [World.stage, if_neg hno, if_neg (lt_irrefl _)] at hnone
      have hnone' : w.trace.filter (Obs.about w.accepts) = [] := hnone
      rw [stage_present.mpr hnow, hnone', List.filter_cons_of_pos (by simp [Obs.about])]
      exact ⟨fd, [], rfl, by simp⟩
    · have hsame : k ∈ w'.connected ↔ k ∈ w.connected := by
        rw [mem_connected, mem_connected]
        constructor
        · rintro ⟨n, f, hn⟩
          rw [h.badge] at hn
          split at hn
          · rw [Option.some.injEq, Prod.mk.injEq] at hn
            exact absurd hn.1 hk
          · exact ⟨n, f, hn⟩
        · rintro ⟨n, f, hn⟩
          refine ⟨n, f, ?_⟩
          rw [h.badge, if_neg ?_]
          · exact hn
          · rintro rfl
            rw [hfree] at hn
            cases hn
      have hlt : k < w'.accepts ↔ k < w.accepts := by
        rw [h.accepts]
        omega
      rw [stage_eq hsame hlt, List.filter_cons_of_neg (by simp [Obs.about, hk]), List.filter_nil,
        List.append_nil]
      exact hw.lives k

/-- **An act takes every connection one step through its life**, or none. -/
theorem lively_act (hw : Lively base w) (hh : Housed w) (a : Act) : Lively base (act w a) := by
  have hcourse := course_act hh a
  generalize act w a = w' at hcourse
  cases hcourse with
  | served halike htrace hnew => exact hw.served halike htrace hnew
  | removed halike htrace hnew hc =>
    exact (hw.served halike htrace hnew).removed (hh.of_alike halike) hc
  | registered hopen h => exact hw.registered hh hopen h

theorem lively_init (serverFd : Nat) (others : List Nat) :
    Lively (serverFd :: others) (.init serverFd others) := by
  have hfree : ∀ fd, (World.init serverFd others).badge fd = none := fun fd => by
    rw [World.badge, init_slot]
    rfl
  refine ⟨List.filter_eq_self.mpr fun fd _ => by rw [hfree]; rfl, fun k => ?_⟩
  have hno : k ∉ (World.init serverFd others).connected := by
    rw [mem_connected]
    rintro ⟨fd, f, hf⟩
    rw [hfree] at hf
    cases hf
  have hfuture : (World.init serverFd others).stage k = .future := by
    rw [World.stage, if_neg hno]
    exact if_neg (Nat.not_lt_zero k)
  rw [hfuture]
  exact rfl

theorem lively_run (serverFd : Nat) (others : List Nat) (as : List Act) :
    Lively (serverFd :: others) (Run.run act (.init serverFd others) as) := by
  have hboth := Run.run_invariant
    (I := fun w : World => Reachable w ∧ Lively (serverFd :: others) w)
    (fun w a h => ⟨h.1.steps (.one (P := Any) w a trivial),
      lively_act h.2 (housed_of_reachable h.1) a⟩)
    as _ ⟨⟨serverFd, others, [], rfl⟩, lively_init serverFd others⟩
  exact hboth.2

/-- The tear-down at the end leaves nobody. -/
theorem shutdown_slot (w : World) (fd : Nat) : (shutdown w).slot fd = none := by
  have hstart : w.slot fd = none ∨ fd ∈ List.range w.currCap := by
    cases hc : w.slot fd with
    | none => exact .inl rfl
    | some c => exact .inr (List.mem_range.mpr (slot_lt hc))
  refine (Run.run_ahead (I := fun (v : World) is => v.slot fd = none ∨ fd ∈ is)
    (fun v i is h => ?_) (List.range w.currCap) hstart).resolve_right List.not_mem_nil
  by_cases hi : v.slot i = none
  · rw [if_pos hi]
    rcases h with h | h
    · exact .inl h
    · rcases List.mem_cons.mp h with rfl | h
      · exact .inl hi
      · exact .inr h
  · rw [if_neg hi, removeClient_slot]
    rcases h with h | h
    · exact .inl (by rw [h, ite_self])
    · rcases List.mem_cons.mp h with rfl | h
      · exact .inl (if_pos rfl)
      · exact .inr h

/-- **From `accept` to `close`.**  At the end of every run of the server, behind its tear-down, the
table is empty, the descriptors open are those that were open in front of the loop, and no
order names a descriptor.  The notes about each connection that was ever registered begin with
its registration and end with its one removal, with service between them; and there are none
about others. -/
theorem lifecycle (serverFd : Nat) (others : List Nat) (os : List Occurrence) :
    let w := shutdown (Run.run dispatch (.init serverFd others) os)
    (∀ fd, w.slot fd = none) ∧ w.opened = serverFd :: others ∧
      (∀ o ∈ w.exchange.orderbook.orders, o.clientFd = -1) ∧
      ∀ k, Lives k (if k < w.accepts then .past else .future) (w.trace.filter (Obs.about k)) := by
  intro w
  have hempty : ∀ fd, w.slot fd = none := shutdown_slot _
  have hfree : ∀ fd, w.badge fd = none := fun fd => by rw [World.badge, hempty]; rfl
  have hsteps : Steps Any (.init serverFd others) w :=
    (server_steps os _).trans (shutdown_steps _)
  have hreach : Reachable w := Reachable.steps ⟨serverFd, others, [], rfl⟩ hsteps
  obtain ⟨as, -, has⟩ := hsteps
  have hlively : Lively (serverFd :: others) w := has ▸ lively_run serverFd others as
  refine ⟨hempty, ?_, fun o ho => ?_, fun k => ?_⟩
  · rw [← hlively.opened]
    exact (List.filter_eq_self.mpr fun fd _ => by rw [hfree]; rfl).symm
  · rcases ((owned_of_reachable hreach).orders o ho).1 with ⟨fd, -, f, hf⟩ | ⟨hgone, -⟩
    · rw [hfree] at hf
      cases hf
    · exact hgone
  · have hno : k ∉ w.connected := by
      rw [mem_connected]
      rintro ⟨fd, f, hf⟩
      rw [hfree] at hf
      cases hf
    have hlives := hlively.lives k
    rw [World.stage, if_neg hno] at hlives
    exact hlives

end SocketExchange
