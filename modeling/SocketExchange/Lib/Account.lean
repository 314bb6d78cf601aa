/-
# An owner's account

Of what is on the tape of the ideal market an owner is told its own part: which of its offers
were taken in, what was traded for it at which key and on which side, which of its offers it
withdrew.  It is not told which of its offers a trade was with.

It need not be: no two offers that meet stand at the same time, and what is oldest goes first.
So who takes each trade off the oldest offer of its own at that key and side, holds exactly the
offers it has standing (`account_of_run`).
-/
import SocketExchange.Lib.Market

namespace Market

variable {κ ω : Type*} [DecidableEq κ] [DecidableEq ω]

/-- What an owner is told. -/
inductive Notice (κ ω : Type*)
  | accepted (o : Offer κ ω)
  | filled (key : κ) (side : Side) (n : Int)
  | withdrawn (id : Int)

/-- What an event has for an owner; the bid of a trade comes first. -/
def Event.notices (k : ω) : Event κ ω → List (Notice κ ω)
  | .submitted o => if o.owner = k then [.accepted o] else []
  | .traded maker taker n =>
    let bidder := if taker.side = .bid then taker.owner else maker.owner
    let asker := if taker.side = .bid then maker.owner else taker.owner
    (if bidder = k then [.filled taker.key .bid n] else [])
      ++ if asker = k then [.filled taker.key .ask n] else []
  | .withdrawn o => if o.owner = k then [.withdrawn o.id] else []

/-! ## 1. The account -/

/-- A trade is taken off the first offer at that key and side. -/
def fill (key : κ) (side : Side) (n : Int) : List (Offer κ ω) → List (Offer κ ω)
  | [] => []
  | a :: as =>
    if a.key = key ∧ a.side = side then
      if a.quantity - n = 0 then as else a.of (a.quantity - n) :: as
    else a :: fill key side n as

def apply (l : List (Offer κ ω)) : Notice κ ω → List (Offer κ ω)
  | .accepted o => l ++ [o]
  | .filled key side n => fill key side n l
  | .withdrawn id => l.filter fun a => decide (a.id ≠ id)

/-- The offers that are left of what an owner was told. -/
def account (ns : List (Notice κ ω)) : List (Offer κ ω) := ns.foldl apply []

/-- The offers of an owner. -/
def own (k : ω) (l : List (Offer κ ω)) : List (Offer κ ω) :=
  l.filter fun a => decide (a.owner = k)

section Own

variable (k : ω)

omit [DecidableEq κ]

@[simp] theorem own_nil : own k ([] : List (Offer κ ω)) = [] := rfl

@[simp] theorem own_append (l m : List (Offer κ ω)) : own k (l ++ m) = own k l ++ own k m :=
  List.filter_append ..

theorem own_cons (a : Offer κ ω) (l : List (Offer κ ω)) :
    own k (a :: l) = own k [a] ++ own k l := own_append k [a] l

theorem mem_own {a : Offer κ ω} {l : List (Offer κ ω)} (h : a ∈ own k l) : a ∈ l :=
  List.mem_of_mem_filter h

theorem own_of_pos {a : Offer κ ω} (h : a.owner = k) : own k [a] = [a] := by simp [own, h]

theorem own_of_neg {a : Offer κ ω} (h : a.owner ≠ k) : own k [a] = [] := by simp [own, h]

end Own

/-- What is left of an offer. -/
def rest (a : Offer κ ω) (n : Int) : List (Offer κ ω) := if n = 0 then [] else [a.of n]

omit [DecidableEq ω] in
theorem fill_append {key : κ} {side : Side} {n : Int} :
    ∀ {P : List (Offer κ ω)}, (∀ a ∈ P, ¬ (a.key = key ∧ a.side = side)) →
      ∀ L, fill key side n (P ++ L) = P ++ fill key side n L
  | [], _, _ => rfl
  | a :: P, h, L => by
    rw [List.cons_append, fill, if_neg (h a List.mem_cons_self),
      fill_append (fun b hb => h b (List.mem_cons_of_mem a hb)) L]
    rfl

/-- **A trade with one of the owner's offers**, when those in front of it are at other keys or on
the other side: what is left of the offer stands in its place. -/
theorem fill_own (k : ω) {P : List (Offer κ ω)} {a : Offer κ ω}
    (h : ∀ b ∈ P, ¬ (b.key = a.key ∧ b.side = a.side)) (n : Int) (L : List (Offer κ ω)) :
    (if a.owner = k then [Notice.filled a.key a.side n] else []).foldl apply
        (P ++ (own k [a] ++ L))
      = P ++ (own k (rest a (a.quantity - n)) ++ L) := by
  by_cases hk : a.owner = k
  · have hleft : ∀ m, own k [a.of m] = [a.of m] := fun m => own_of_pos k hk
    rw [if_pos hk, List.foldl_cons, List.foldl_nil, own_of_pos k hk, apply, fill_append h,
      List.singleton_append, fill, if_pos ⟨rfl, rfl⟩, rest]
    split
    · rfl
    · rw [hleft]
      rfl
  · have hleft : ∀ m, own k [a.of m] = [] := fun m => own_of_neg k hk
    rw [if_neg hk, List.foldl_nil, own_of_neg k hk, rest]
    split
    · rfl
    · rw [hleft]

/-! ## 2. One offer -/

/-- **One trade** of a new offer with an offer `a`, as it is told to the owners of the two. -/
theorem notices_traded (k : ω) {a o : Offer κ ω} (hm : a.Meets o) {P L : List (Offer κ ω)}
    (hP : ∀ b ∈ P, ¬ b.Meets o) (hside : ∀ b ∈ P ++ L, ¬ (b.key = o.key ∧ b.side = o.side))
    (q n : Int) :
    ((Event.traded a o n).notices k).foldl apply (P ++ (own k [a] ++ (L ++ own k [o.of q])))
      = P ++ (own k (rest a (a.quantity - n)) ++ (L ++ own k (rest o (q - n)))) := by
  have hmaker : ∀ M : List (Offer κ ω),
      (if a.owner = k then [Notice.filled o.key a.side n] else []).foldl apply
          (P ++ (own k [a] ++ M))
        = P ++ (own k (rest a (a.quantity - n)) ++ M) := fun M => by
    rw [← hm.1]
    exact fill_own k (fun b hb hsame => hP b hb ⟨hsame.1.trans hm.1, hsame.2.trans_ne hm.2⟩) n M
  have htaker : ∀ A : List (Offer κ ω), (∀ b ∈ A, b.side = a.side) →
      (if o.owner = k then [Notice.filled o.key o.side n] else []).foldl apply
          (P ++ (A ++ (L ++ own k [o.of q])))
        = P ++ (A ++ (L ++ own k (rest o (q - n)))) := by
    intro A hA
    have hfront : ∀ b ∈ P ++ (A ++ L), ¬ (b.key = (o.of q).key ∧ b.side = (o.of q).side) := by
      intro b hb
      simp only [List.mem_append] at hb hside
      rcases hb with hb | hb | hb
      · exact hside b (.inl hb)
      · exact fun hsame => hm.2 ((hA b hb).symm.trans hsame.2)
      · exact hside b (.inr hb)
    have h := fill_own k hfront n []
    simp only [List.append_nil, List.append_assoc] at h
    exact h
  have hside1 : ∀ b ∈ own k [a], b.side = a.side := fun b hb => by
    rw [List.mem_singleton.mp (mem_own k hb)]
  have hside2 : ∀ b ∈ own k (rest a (a.quantity - n)), b.side = a.side := fun b hb => by
    have hmem := mem_own k hb
    unfold rest at hmem
    split at hmem
    · cases hmem
    · rw [List.mem_singleton.mp hmem]
      rfl
  -- the bid is told first, whoever made it
  cases ho : o.side with
  | bid =>
    have ha : a.side = .ask := by
      have := hm.2
      rw [ho] at this
      cases hs : a.side with
      | bid => exact absurd hs this
      | ask => rfl
    rw [ho] at htaker
    rw [ha] at hmaker
    rw [Event.notices, if_pos ho, if_pos ho, List.foldl_append, htaker _ hside1, hmaker]
  | ask =>
    have ha : a.side = .bid := by
      have := hm.2
      rw [ho] at this
      cases hs : a.side with
      | bid => rfl
      | ask => exact absurd hs this
    have hno : ¬ o.side = .bid := by
      rw [ho]
      decide
    rw [ho] at htaker
    rw [ha] at hmaker
    rw [Event.notices, if_neg hno, if_neg hno, List.foldl_append, hmaker, htaker _ hside2]

/-- **An offer meets the standing ones**, by induction on these; `P` are the owner's offers that
it has passed.  While there is anything to meet, nothing stands at its own key and side. -/
theorem account_meet (k : ω) (o : Offer κ ω) (l : List (Offer κ ω)) {q : Int}
    {P : List (Offer κ ω)} (hq : 0 ≤ q) (hP : ∀ b ∈ P, ¬ b.Meets o)
    (hside : (∃ a ∈ l, a.Meets o) → ∀ b ∈ P ++ l, ¬ (b.key = o.key ∧ b.side = o.side)) :
    ((meet o q l).gave.flatMap fun x => (Event.traded x.1 o x.2).notices k).foldl apply
        (P ++ (own k l ++ own k (rest o q)))
      = P ++ (own k (meet o q l).standing ++ own k (rest o (meet o q l).left)) := by
  induction l generalizing q P with
  | nil => rfl
  | cons a l ih =>
    by_cases h : 0 < q ∧ a.Meets o
    · obtain ⟨hpos, hm⟩ := h
      have hnone := hside ⟨a, List.mem_cons_self, hm⟩
      have hrest : rest o q = [o.of q] := if_neg hpos.ne'
      have hbeside : ∀ b ∈ P ++ own k l, ¬ (b.key = o.key ∧ b.side = o.side) := fun b hb => by
        refine hnone b ?_
        rcases List.mem_append.mp hb with hb | hb
        · exact List.mem_append_left _ hb
        · exact List.mem_append_right _ (List.mem_cons_of_mem a (mem_own k hb))
      have hone := notices_traded k hm hP hbeside q (min q a.quantity)
      rw [meet_cons_of_meets hpos hm]
      dsimp only
      rw [List.flatMap_cons, List.foldl_append, own_cons, hrest, List.append_assoc, hone]
      by_cases hall : a.quantity - min q a.quantity = 0
      · -- it has taken all of `a`
        rw [if_pos hall, rest, if_pos hall]
        refine ih (by omega) hP fun _ b hb => hnone b ?_
        rcases List.mem_append.mp hb with hb | hb
        · exact List.mem_append_left _ hb
        · exact List.mem_append_right _ (List.mem_cons_of_mem a hb)
      · -- it has all it wanted
        have hdone : q - min q a.quantity = 0 := by omega
        rw [if_neg hall, hdone, meet_of_nonpos o le_rfl, rest, if_neg hall]
        dsimp only
        rw [List.flatMap_nil, List.foldl_nil, own_cons k (a.of _) l, List.append_assoc]
    · have hmeet : meet o q (a :: l)
          = { meet o q l with standing := a :: (meet o q l).standing } := by
        rw [meet, if_neg h]
      rw [hmeet]
      dsimp only
      by_cases hpos : 0 < q
      · have hm : ¬ a.Meets o := fun hm => h ⟨hpos, hm⟩
        have hpassed : ∀ b ∈ P ++ own k [a], ¬ b.Meets o := by
          intro b hb
          rcases List.mem_append.mp hb with hb | hb
          · exact hP b hb
          · rw [List.mem_singleton.mp (mem_own k hb)]
            exact hm
        have hahead : (∃ b ∈ l, b.Meets o) →
            ∀ c ∈ P ++ own k [a] ++ l, ¬ (c.key = o.key ∧ c.side = o.side) := by
          intro hmore c hc
          obtain ⟨b, hb, hbm⟩ := hmore
          refine hside ⟨b, List.mem_cons_of_mem a hb, hbm⟩ c ?_
          simp only [List.append_assoc, List.mem_append] at hc
          rcases hc with hc | hc | hc
          · exact List.mem_append_left _ hc
          · rw [List.mem_singleton.mp (mem_own k hc)]
            exact List.mem_append_right _ List.mem_cons_self
          · exact List.mem_append_right _ (List.mem_cons_of_mem a hc)
        have hstep := ih hq hpassed hahead
        rw [own_cons k a l, own_cons k a (meet o q l).standing]
        simp only [List.append_assoc] at hstep ⊢
        exact hstep
      · rw [meet_of_nonpos o (not_lt.mp hpos)]
        rfl

/-! ## 3. Every run -/

omit [DecidableEq ω] in
/-- A withdrawal is told for each offer it takes out; all of them have one id. -/
theorem foldl_withdrawn (id : Int) (L : List (Offer κ ω)) : ∀ ws : List (Offer κ ω),
    (∀ a ∈ ws, a.id = id) → (ws = [] → ∀ a ∈ L, a.id ≠ id) →
      (ws.map fun a => Notice.withdrawn a.id).foldl apply L
        = L.filter fun a => decide (a.id ≠ id) := by
  intro ws
  induction ws generalizing L with
  | nil =>
    intro _ hnone
    exact (List.filter_eq_self.mpr fun a ha => decide_eq_true (hnone rfl a ha)).symm
  | cons w ws ih =>
    intro hid _
    rw [List.map_cons, List.foldl_cons, apply, hid w List.mem_cons_self,
      ih _ (fun a ha => hid a (List.mem_cons_of_mem w ha)) fun _ a ha =>
        of_decide_eq_true (List.mem_filter.mp ha).2, List.filter_filter]
    exact List.filter_congr fun a _ => Bool.and_self _

/-- **A step of the market** changes an owner's offers as it is told. -/
theorem account_step (k : ω) {s : State κ ω} (hs : Sound s) {r : Request κ ω} (hr : r.Positive)
    {new : List (Event κ ω)} (hnew : (step s r).tape = s.tape ++ new) :
    (new.flatMap (Event.notices k)).foldl apply (own k s.offers) = own k (step s r).offers := by
  cases r with
  | submit o =>
    have hq : 0 < o.quantity := hr
    have htold : new = .submitted o :: (meet o o.quantity s.offers).gave.map
        fun x => .traded x.1 o x.2 := List.append_cancel_left hnew.symm
    have hsub : ((Event.submitted o).notices k).foldl apply (own k s.offers)
        = own k s.offers ++ own k (rest o o.quantity) := by
      have hrest : rest o o.quantity = [o] := if_neg hq.ne'
      rw [Event.notices, hrest]
      by_cases hk : o.owner = k
      · rw [if_pos hk, own_of_pos k hk]
        rfl
      · rw [if_neg hk, own_of_neg k hk, List.append_nil]
        rfl
    have hmeet := account_meet k o s.offers (P := []) hq.le (fun b hb => absurd hb List.not_mem_nil)
      fun ⟨a, ha, ham⟩ b hb hsame => hs.uncrossed a ha b hb
        ⟨ham.1.trans hsame.1.symm, ham.2.trans_eq hsame.2.symm⟩
    have hleft := meet_left_nonneg o s.offers hq.le
    have hrest : rest o (meet o o.quantity s.offers).left
        = if 0 < (meet o o.quantity s.offers).left then [o.of (meet o o.quantity s.offers).left]
          else [] := by
      unfold rest
      split <;> split <;> first | rfl | omega
    simp only [List.nil_append] at hmeet
    rw [htold, List.flatMap_cons, List.foldl_append, hsub, List.flatMap_map, hmeet, hrest,
      ← own_append]
    rfl
  | withdraw id owner =>
    have htold : new = (s.offers.filter fun a => a.named id owner).map .withdrawn :=
      List.append_cancel_left hnew.symm
    have hnamed : ∀ a : Offer κ ω, a.named id owner = true ↔ a.id = id ∧ a.owner = owner :=
      fun a => decide_eq_true_iff
    rw [htold, List.flatMap_map]
    by_cases hk : owner = k
    · subst hk
      have hws : (s.offers.filter fun a => a.named id owner).flatMap
          (fun a => (Event.withdrawn a).notices owner)
          = (s.offers.filter fun a => a.named id owner).map fun a => .withdrawn a.id := by
        rw [List.map_eq_flatMap]
        exact List.flatMap_congr fun a ha => if_pos ((hnamed a).mp (List.mem_filter.mp ha).2).2
      rw [hws, foldl_withdrawn id _ _ (fun a ha => ((hnamed a).mp (List.mem_filter.mp ha).2).1)]
      · refine (List.filter_filter ..).trans (Eq.trans ?_ (List.filter_filter ..).symm)
        refine List.filter_congr fun a _ => ?_
        rw [Offer.named]
        by_cases hid : a.id = id <;> simp [hid]
      · intro hnil a ha hid
        have hout : a ∈ s.offers.filter fun a => a.named id owner :=
          List.mem_filter.mpr ⟨mem_own owner ha,
            (hnamed a).mpr ⟨hid, of_decide_eq_true (List.mem_filter.mp ha).2⟩⟩
        rw [hnil] at hout
        cases hout
    · have hws : (s.offers.filter fun a => a.named id owner).flatMap
          (fun a => (Event.withdrawn a).notices k) = [] := by
        refine List.flatMap_eq_nil_iff.mpr fun a ha => ?_
        obtain ⟨-, how⟩ := (hnamed a).mp (List.mem_filter.mp ha).2
        exact if_neg (how ▸ hk)
      rw [hws, List.foldl_nil]
      refine Eq.trans ?_ (List.filter_filter ..).symm
      refine List.filter_congr fun a _ => ?_
      rw [Offer.named]
      by_cases hown : a.owner = k
      · simp [hown, Ne.symm hk]
      · simp [hown]

/-- The tape only grows. -/
theorem tape_step (s : State κ ω) (r : Request κ ω) : ∃ new, (step s r).tape = s.tape ++ new := by
  cases r with
  | submit o => exact ⟨_, rfl⟩
  | withdraw id owner => exact ⟨_, rfl⟩

/-- **What an owner was told is what it has standing**, in every run and offer by offer, in the
order in which they were made. -/
theorem account_of_run (k : ω) {rs : List (Request κ ω)} (h : ∀ r ∈ rs, r.Positive) :
    account ((Run.run step start rs).tape.flatMap (Event.notices k))
      = own k (Run.run step start rs).offers := by
  refine (Run.run_invariant_of_mem (I := fun s => Sound s ∧
    account (s.tape.flatMap (Event.notices k)) = own k s.offers) (fun s r hs hr => ?_) rs _ h
    ⟨sound_start, rfl⟩).2
  obtain ⟨hsound, hacc⟩ := hs
  obtain ⟨new, hnew⟩ := tape_step s r
  rw [account] at hacc
  rw [hnew, List.flatMap_append, account, List.foldl_append, hacc]
  exact ⟨hsound.step hr, account_step k hsound hr hnew⟩

end Market
