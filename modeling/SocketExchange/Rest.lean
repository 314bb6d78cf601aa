/-
# The server comes to rest

`at_rest` says what holds when nothing is reported any more.  Here is that the server gets
there: while the clients do nothing, each event of the batch can be handled (`alone_handled`: the
loop over the reads ends by itself), and whatever `kevent` returns next, and in whatever
portions, the filters that would be reported get fewer.  So the machine cannot but come to rest,
and what the clients had sent was then handled to the last complete line (`comes_to_rest`).
-/
import SocketExchange.Lib.Inevitable
import SocketExchange.Wakeups
import Mathlib.Data.Finset.Card
import Mathlib.Data.Finset.Prod

namespace SocketExchange

open CText

/-! ## 1. The reads of an event end -/

theorem Inbound.unread_taken (i : Inbound) (n : Nat) :
    Inbound.unread { i with taken := i.taken + n } = i.unread.drop n := by
  simp [Inbound.unread, List.drop_drop]

/-- An empty socket ends the loop at once. -/
theorem drains_of_empty {fd : Nat} (ready : Bool) {i : Inbound} (w : World) (h : i.unread = []) :
    ∃ rs, Drains fd (i, ready) w rs (i, ready) := by
  cases hfin : i.fin with
  | false => exact ⟨[.eagain], .last (.eagain h hfin) rfl⟩
  | true =>
    have hend : (readTurn fd (.data []) w).2 = some true := by simp [readTurn]
    exact ⟨[.data []], .last (.fin h hfin) hend⟩

/-- **The loop over the reads ends**, by induction on what the socket holds: the buffer has room
for a byte in each turn, so each turn takes something. -/
theorem exists_drains {fd : Nat} (ready : Bool) : ∀ (n : Nat) {i : Inbound} {w : World}
    {c : ClientConnection}, i.unread.length ≤ n → w.slot fd = some c → c.clientFd = fd →
    c.closing = false → Buffered c → Reads c.serial w.trace c →
    ∃ rs e, Drains fd (i, ready) w rs (e, ready) ∧ e.sent = i.sent ∧ e.fin = i.fin := by
  intro n
  induction n with
  | zero =>
    intro i w c hn hc hfd hclosing hb hreads
    obtain ⟨rs, h⟩ := @drains_of_empty fd ready i w
      (List.length_eq_zero_iff.mp (Nat.le_zero.mp hn))
    exact ⟨rs, i, h, rfl, rfl⟩
  | succ n ih =>
    intro i w c hn hc hfd hclosing hb hreads
    by_cases hnil : i.unread = []
    · obtain ⟨rs, h⟩ := @drains_of_empty fd ready i w hnil
      exact ⟨rs, i, h, rfl, rfl⟩
    have hroom : 0 < inbufSize - c.inlen := Nat.sub_pos_of_lt hb.room
    have hlen : 0 < i.unread.length := List.length_pos_iff.mpr hnil
    set got := i.unread.take (inbufSize - c.inlen) with hgot
    have hcount : got.length = min (inbufSize - c.inlen) i.unread.length := List.length_take
    have hread : i.Read (inbufSize - (w.conn fd).inlen) (.data got)
        { i with taken := i.taken + got.length } := by
      rw [conn_of_slot hc]
      refine .data (fun h => ?_) (by omega) (List.take_prefix _ _)
      rw [h, List.length_nil] at hcount
      omega
    have hout := readTurn_out hc hfd hclosing hb hreads (.data got)
    cases hturn : (readTurn fd (.data got) w).2 with
    | some done => exact ⟨_, _, .last hread hturn, rfl, rfl⟩
    | none =>
      obtain ⟨c', hc', hser', hfd', hclosing', hb', hreads'⟩ := hout.goes (.inl hturn)
      have hless : (Inbound.unread { i with taken := i.taken + got.length }).length ≤ n := by
        rw [Inbound.unread_taken, List.length_drop]
        omega
      obtain ⟨rs, e, hrest, hsent, hfin⟩ := ih hless hc' hfd' hclosing' hb' (hser'.symm ▸ hreads')
      exact ⟨_, e, .turn hread hturn hrest, hsent, hfin⟩

/-! ## 2. The server by itself -/

namespace Machine

/-- Nothing came from the clients on the way from `m` to `m'`. -/
structure Undisturbed (m m' : Machine) : Prop where
  nobody : ∀ fd, m.world.slot fd = none → m'.world.slot fd = none
  stream : ∀ fd, m'.world.slot fd ≠ none →
    (m'.inbound fd).sent = (m.inbound fd).sent ∧ (m'.inbound fd).fin = (m.inbound fd).fin
  ready : ∀ fd f, m'.world.slot fd ≠ none → m'.ready fd f = true → m.ready fd f = true

/-- A step the server takes while the clients do nothing. -/
inductive Alone (m : Machine) : Machine → Prop
  /-- `kevent` returns at least one of the filters that are ready -/
  | waited (hdone : m.batch = []) {evs : List Kevent} (hsome : evs ≠ [])
      (hready : ∀ ev ∈ evs, m.world.slot ev.ident ≠ none ∧ m.ready ev.ident ev.filter = true) :
      Alone m (m.fetch evs)
  | handled {o : Occurrence} {m' : Machine} (h : m.Handles o m') (hidle : m.Undisturbed m') :
      Alone m m'

namespace Undisturbed

variable {m m' m'' : Machine}

theorem refl (m : Machine) : m.Undisturbed m :=
  ⟨fun _ => id, fun _ _ => ⟨rfl, rfl⟩, fun _ _ _ => id⟩

theorem trans (h : m.Undisturbed m') (h' : m'.Undisturbed m'') : m.Undisturbed m'' := by
  have hmid : ∀ fd, m''.world.slot fd ≠ none → m'.world.slot fd ≠ none := fun fd hfd hnone =>
    hfd (h'.nobody fd hnone)
  refine ⟨fun fd hnone => h'.nobody fd (h.nobody fd hnone), fun fd hfd => ?_,
    fun fd f hfd hready => h.ready fd f (hmid fd hfd) (h'.ready fd f hfd hready)⟩
  obtain ⟨hsent, hfin⟩ := h.stream fd (hmid fd hfd)
  obtain ⟨hsent', hfin'⟩ := h'.stream fd hfd
  exact ⟨hsent'.trans hsent, hfin'.trans hfin⟩

end Undisturbed

theorem Alone.step {m m' : Machine} (h : m.Alone m') : m.Step m' := by
  cases h with
  | waited hdone hsome hready =>
    exact .waited hdone _ fun ev hev => .inr (hready ev hev).2
  | handled h _ => exact .handled h

theorem Alone.undisturbed {m m' : Machine} (h : m.Alone m') : m.Undisturbed m' := by
  cases h with
  | waited hdone hsome hready =>
    refine ⟨fun _ => id, fun _ _ => ⟨rfl, rfl⟩, fun fd f _ hf => ?_⟩
    exact (Bool.and_eq_true_iff.mp hf).1
  | handled _ hidle => exact hidle

/-- **The server can handle the next event by itself**: there are answers of the sockets with
which the loop over the reads ends. -/
theorem alone_handled {m : Machine} (hm : m.Awake) {ev : Kevent} {evs : List Kevent}
    (hbatch : m.batch = ev :: evs) : ∃ m', m.Alone m' := by
  let event : List ReadResult → Occurrence := fun rs =>
    { ev := ev, reads := rs, accepts := []
      sock := fun fd => { writes := m.outbound fd, mallocs := [] }, heap := [] }
  obtain ⟨rs, e, hdrains, hsent, hfin, hsame⟩ : ∃ rs e,
      (∀ c, (event []).Reads m.world c → Drains ev.ident
        (m.inbound ev.ident, m.ready ev.ident .read) (m.world.serving (event []) c) rs
        (e, m.ready ev.ident .read)) ∧
      e.sent = (m.inbound ev.ident).sent ∧ e.fin = (m.inbound ev.ident).fin ∧
      ((∀ c, ¬ (event []).Reads m.world c) → e = m.inbound ev.ident) := by
    by_cases hr : ∃ c, (event []).Reads m.world c
    · obtain ⟨c, hr⟩ := hr
      have hframed := serving_framed hm.framed (event []) c
      have hd : (m.world.serving (event []) c).slot ev.ident = some c := hr.slot
      obtain ⟨hb, hreads⟩ := (hframed.each c.serial).reading _ c hd rfl hr.reading
      have hown := hframed.housed.own _ _ _ (badge_of_slot hd)
      obtain ⟨rs, e, hdrains, hsent, hfin⟩ := exists_drains (m.ready ev.ident .read) _ le_rfl hd
        hown hr.reading hb hreads
      refine ⟨rs, e, fun c' hr' => ?_, hsent, hfin, fun hnone => absurd hr (hnone c)⟩
      have hc' : c' = c := Option.some.inj (hr'.slot.symm.trans hr.slot)
      exact hc' ▸ hdrains
    · exact ⟨[], _, fun c hc => absurd ⟨c, hc⟩ hr, rfl, rfl, fun _ => rfl⟩
  have hnobody : ∀ fd, m.world.slot fd = none → (dispatch m.world (event rs)).slot fd = none := by
    intro fd hnone
    by_cases hsrv : ev.ident = m.world.serverFd
    · have hdisp : dispatch m.world (event rs) = { m.world with
          sock := (event rs).sock, heap := (event rs).heap } := if_pos hsrv
      rw [hdisp]
      exact hnone
    · by_contra hsome
      obtain ⟨c', hc'⟩ := Option.ne_none_iff_exists'.mp hsome
      obtain ⟨c, hc, -⟩ := slot_of_dispatch hm.framed (o := event rs) hsrv hc'
      rw [hnone] at hc
      cases hc
  let m' : Machine :=
    { world := dispatch m.world (event rs)
      inbound := Function.update m.inbound ev.ident e
      outbound := fun fd => ((dispatch m.world (event rs)).sock fd).writes
      ready := m.ready, batch := evs }
  have hother : ∀ fd, fd ≠ ev.ident → m'.inbound fd = m.inbound fd := fun fd hfd =>
    Function.update_of_ne hfd _ _
  have hself : m'.inbound ev.ident = e := Function.update_self _ _ _
  refine ⟨m', .handled (o := event rs) ⟨hbatch, rfl, fun c hr => ?_, fun fd _ hnot => ?_,
    fun fd _ => .inl ⟨rfl, rfl, rfl⟩, fun fd hnone hsome => absurd (hnobody fd hnone) hsome⟩
    ⟨hnobody, fun fd _ => ?_, fun _ _ _ => id⟩⟩
  · rw [show m'.inbound (event rs).ev.ident = e from hself]
    exact hdrains c ⟨hr.client, hr.whole, hr.filter, hr.slot, hr.reading⟩
  · refine ⟨?_, rfl⟩
    by_cases hfd : fd = ev.ident
    · rw [hfd, hself]
      exact hsame fun c hr =>
        hnot c ⟨hr.client, hr.whole, hr.filter, hr.slot, hr.reading⟩ hfd
    · exact hother fd hfd
  · by_cases hfd : fd = ev.ident
    · rw [hfd, hself]
      exact ⟨hsent, hfin⟩
    · rw [hother fd hfd]
      exact ⟨rfl, rfl⟩

/-! ## 3. It takes only so many steps -/

/-- The filters of connected clients that would be reported. -/
def pending (m : Machine) : Finset (Nat × Filter) :=
  (Finset.range m.world.currCap ×ˢ {.read, .write}).filter fun i =>
    (m.world.slot i.1).isSome ∧ m.ready i.1 i.2 = true

theorem mem_pending {m : Machine} {fd : Nat} {f : Filter} :
    (fd, f) ∈ m.pending ↔ m.world.slot fd ≠ none ∧ m.ready fd f = true := by
  have hlt : m.world.slot fd ≠ none → fd < m.world.currCap := fun h => by
    obtain ⟨c, hc⟩ := Option.ne_none_iff_exists'.mp h
    exact slot_lt hc
  have hall : f = .read ∨ f = .write := by cases f <;> simp
  simp only [pending, Finset.mem_filter, Finset.mem_product, Finset.mem_range,
    Finset.mem_insert, Finset.mem_singleton, Option.isSome_iff_ne_none]
  exact ⟨fun h => h.2, fun h => ⟨⟨hlt h.1, hall⟩, h⟩⟩

theorem Undisturbed.pending_subset {m m' : Machine} (h : m.Undisturbed m') :
    m'.pending ⊆ m.pending := by
  rintro ⟨fd, f⟩ hmem
  obtain ⟨hsome, hready⟩ := mem_pending.mp hmem
  exact mem_pending.mpr ⟨fun hnone => hsome (h.nobody fd hnone), h.ready fd f hsome hready⟩

/-- What is left: filters to report, and then events to handle. -/
def variant (m : Machine) : Nat × Nat := (m.pending.card, m.batch.length)

theorem Alone.lowers {m m' : Machine} (h : m.Alone m') :
    Prod.Lex (· < ·) (· < ·) m'.variant m.variant := by
  have hle := Finset.card_le_card h.undisturbed.pending_subset
  cases h with
  | @waited hdone evs hsome hready =>
    -- the filters of the events are quiet now
    obtain ⟨ev, rest, rfl⟩ := List.exists_cons_of_ne_nil hsome
    refine .left _ _ (Finset.card_lt_card (Finset.ssubset_iff_subset_ne.mpr ⟨?_, fun heq => ?_⟩))
    · exact (Alone.waited hdone hsome hready).undisturbed.pending_subset
    · have hev := mem_pending.mpr (hready ev List.mem_cons_self)
      rw [← heq] at hev
      have hquiet := (mem_pending.mp hev).2
      simp [fetch] at hquiet
  | @handled o _ h hidle =>
    have hlen : m.batch.length = m'.batch.length + 1 := by rw [h.batch, List.length_cons]
    rcases Nat.lt_or_eq_of_le hle with hlt | heq
    · exact .left _ _ hlt
    · exact Prod.lex_def.mpr (.inr ⟨heq, by rw [variant, variant, hlen]; exact Nat.lt_succ_self _⟩)

end Machine

/-- **The server comes to rest.**  From every state it reaches with the kernel, when the clients
do nothing more, it cannot but get to a state in which no event is left and none would be
reported, in whatever portions `kevent` returns the events; and there every client that is still
connected and has not quit has had read and handled all it had sent. -/
theorem comes_to_rest {m : Machine} (hm : m.Reachable) :
    Inevitable.ComesTo Machine.Alone (fun m' => m'.Quiet ∧ ∀ fd c, m'.world.slot fd = some c →
      c.closing = false → bytesFrom c.serial m'.world.trace = (m.inbound fd).sent ∧
        actionsOn c.serial m'.world.trace = requests (m.inbound fd).sent) m := by
  refine Inevitable.comesTo_of_variant (I := fun m' => m'.Reachable ∧ m.Undisturbed m')
    (Prod.lex Nat.lt_wfRel Nat.lt_wfRel).wf Machine.variant (fun h hstep => ?_)
    (fun _ hstep => hstep.lowers) (fun {m'} h => ?_) ⟨hm, .refl m⟩
  · exact ⟨h.1.step hstep.step, h.2.trans hstep.undisturbed⟩
  obtain ⟨hreach, hidle⟩ := h
  cases hbatch : m'.batch with
  | cons ev evs => exact .inr (Machine.alone_handled (Machine.awake_of_reachable hreach) hbatch)
  | nil =>
    by_cases hready : ∃ fd f, m'.world.slot fd ≠ none ∧ m'.ready fd f = true
    · obtain ⟨fd, f, hsome, hf⟩ := hready
      let evs : List Kevent := [{ ident := fd, filter := f, eof := false, error := false }]
      refine .inr ⟨m'.fetch evs, .waited hbatch (List.cons_ne_nil _ _) fun ev hev => ?_⟩
      rw [List.mem_singleton.mp hev]
      exact ⟨hsome, hf⟩
    · have hquiet : m'.Quiet := ⟨hbatch, fun fd f hsome => by
        rw [← Bool.not_eq_true]
        exact fun hf => hready ⟨fd, f, hsome, hf⟩⟩
      refine .inl ⟨hquiet, fun fd c hc hopen => ?_⟩
      obtain ⟨-, hbytes, hacts⟩ := hquiet.handled (Machine.awake_of_reachable hreach) hc hopen
      obtain ⟨hsent, -⟩ := hidle.stream fd (by rw [hc]; simp)
      exact ⟨hbytes.trans hsent, hacts.trans (congrArg requests hsent)⟩

theorem comes_to_rest_login :
    (behindAccept.batch = [] ∧ behindAccept.ready 5 .read = true) ∧
      requests (behindAccept.inbound 5).sent = [.line (lit "LOGIN ann")] ∧
      Inevitable.ComesTo Machine.Alone (fun m => m.Quiet ∧ ∀ fd c, m.world.slot fd = some c →
        c.closing = false → bytesFrom c.serial m.world.trace = (behindAccept.inbound fd).sent ∧
          actionsOn c.serial m.world.trace = requests (behindAccept.inbound fd).sent)
        behindAccept :=
  ⟨⟨rfl, rfl⟩, by decide +kernel, comes_to_rest reachable_behindAccept⟩

end SocketExchange
