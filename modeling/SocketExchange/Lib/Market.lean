/-
# An ideal market

What an exchange is for, without books, lists for each side or descriptors.  The offers that
stand are one list, in the order in which they came.  A new offer trades with the offers of the
other side at its own key, first come first served; what is left of it stands behind all others.
An owner can withdraw an offer.  Everything that happens is on the tape.

`Sound.step` keeps the invariant, from which the volume at a key follows: it is the smaller of
what was offered on the two sides and not withdrawn (`Sound.volume_eq`).  `run_restrict` says that
what happens at one key does not depend on what is asked at the others.
-/
import SocketExchange.Lib.Run
import SocketExchange.Lib.Fifo

namespace Market

inductive Side
  | bid
  | ask
  deriving DecidableEq, Repr

/-- An offer by an owner; a key is what the two sides must agree on. -/
structure Offer (κ ω : Type*) where
  id : Int
  owner : ω
  key : κ
  side : Side
  quantity : Int
  deriving DecidableEq

inductive Request (κ ω : Type*)
  | submit (o : Offer κ ω)
  | withdraw (id : Int) (owner : ω)

/-- What is on the tape; a trade names the standing offer first. -/
inductive Event (κ ω : Type*)
  | submitted (o : Offer κ ω)
  | traded (maker taker : Offer κ ω) (quantity : Int)
  | withdrawn (o : Offer κ ω)

structure State (κ ω : Type*) where
  offers : List (Offer κ ω)
  tape : List (Event κ ω)

variable {κ ω : Type*}

/-- The same offer with another quantity. -/
def Offer.of (a : Offer κ ω) (n : Int) : Offer κ ω := { a with quantity := n }

@[simp] theorem Offer.of_key (a : Offer κ ω) (n : Int) : (a.of n).key = a.key := rfl

@[simp] theorem Offer.of_side (a : Offer κ ω) (n : Int) : (a.of n).side = a.side := rfl

@[simp] theorem Offer.of_quantity (a : Offer κ ω) (n : Int) : (a.of n).quantity = n := rfl

/-- The two agree on the key and stand on different sides. -/
def Offer.Meets (a b : Offer κ ω) : Prop := a.key = b.key ∧ a.side ≠ b.side

theorem Offer.Meets.symm {a b : Offer κ ω} (h : a.Meets b) : b.Meets a := ⟨h.1.symm, h.2.symm⟩

instance [DecidableEq κ] (a b : Offer κ ω) : Decidable (a.Meets b) := instDecidableAnd

/-! ## 1. Trading -/

/-- What comes of an offer that meets the standing ones. -/
structure Met (κ ω : Type*) where
  left : Int
  gave : List (Offer κ ω × Int)
  standing : List (Offer κ ω)

section Machine

variable [DecidableEq κ]

/-- The offer, with `q` of it left, meets the standing ones, oldest first. -/
def meet (o : Offer κ ω) : Int → List (Offer κ ω) → Met κ ω
  | q, [] => { left := q, gave := [], standing := [] }
  | q, a :: as =>
    if 0 < q ∧ a.Meets o then
      let g := min q a.quantity
      let m := meet o (q - g) as
      { left := m.left, gave := (a, g) :: m.gave
        standing := if a.quantity - g = 0 then m.standing else a.of (a.quantity - g) :: m.standing }
    else
      let m := meet o q as
      { m with standing := a :: m.standing }

theorem meet_cons_of_meets {o a : Offer κ ω} {q : Int} (hq : 0 < q) (h : a.Meets o)
    (as : List (Offer κ ω)) : meet o q (a :: as) =
      { left := (meet o (q - min q a.quantity) as).left
        gave := (a, min q a.quantity) :: (meet o (q - min q a.quantity) as).gave
        standing :=
          if a.quantity - min q a.quantity = 0 then (meet o (q - min q a.quantity) as).standing
          else a.of (a.quantity - min q a.quantity) ::
            (meet o (q - min q a.quantity) as).standing } := by
  rw [meet, if_pos ⟨hq, h⟩]

theorem meet_cons_of_not {o a : Offer κ ω} (h : ¬ a.Meets o) (q : Int) (as : List (Offer κ ω)) :
    meet o q (a :: as) = { meet o q as with standing := a :: (meet o q as).standing } := by
  rw [meet, if_neg fun h' => h h'.2]

/-- An offer has this id and this owner. -/
def Offer.named [DecidableEq ω] (id : Int) (owner : ω) (a : Offer κ ω) : Bool :=
  decide (a.id = id ∧ a.owner = owner)

def step [DecidableEq ω] (s : State κ ω) : Request κ ω → State κ ω
  | .submit o =>
    let m := meet o o.quantity s.offers
    { offers := m.standing ++ if 0 < m.left then [o.of m.left] else []
      tape := s.tape ++ .submitted o :: m.gave.map fun x => .traded x.1 o x.2 }
  | .withdraw id owner =>
    { offers := s.offers.filter fun a => !a.named id owner
      tape := s.tape ++ (s.offers.filter fun a => a.named id owner).map .withdrawn }

def start : State κ ω := { offers := [], tape := [] }

end Machine

/-! ## 2. Parts of the list

An offer meets the standing offers of its own kind only, so the rest of the list has no part in
it. -/

section Parts

variable [DecidableEq κ] {P : Offer κ ω → Bool} (hP : ∀ a n, P (a.of n) = P a)
include hP

/-- A part that holds all the offers it can meet. -/
theorem meet_filter {o : Offer κ ω} (hall : ∀ a, a.Meets o → P a = true) :
    ∀ (l : List (Offer κ ω)) (q : Int),
      (meet o q (l.filter P)).left = (meet o q l).left ∧
        (meet o q (l.filter P)).gave = (meet o q l).gave ∧
        (meet o q (l.filter P)).standing = (meet o q l).standing.filter P
  | [], q => ⟨rfl, rfl, rfl⟩
  | a :: l, q => by
    by_cases h : 0 < q ∧ a.Meets o
    · obtain ⟨ih1, ih2, ih3⟩ := meet_filter hall l (q - min q a.quantity)
      rw [List.filter_cons_of_pos (hall a h.2), meet, meet, if_pos h, if_pos h]
      dsimp only
      refine ⟨ih1, by rw [ih2], ?_⟩
      split
      · exact ih3
      · rw [List.filter_cons_of_pos ((hP a _).trans (hall a h.2)), ih3]
    · obtain ⟨ih1, ih2, ih3⟩ := meet_filter hall l q
      rw [meet.eq_def o q (a :: l)]
      dsimp only
      rw [if_neg h]
      by_cases hp : P a = true
      · rw [List.filter_cons_of_pos hp, meet, if_neg h]
        dsimp only
        rw [List.filter_cons_of_pos hp, ih3]
        exact ⟨ih1, ih2, rfl⟩
      · rw [List.filter_cons_of_neg hp]
        dsimp only
        rw [List.filter_cons_of_neg hp]
        exact ⟨ih1, ih2, ih3⟩

/-- A part that holds none of them. -/
theorem meet_filter_of_none {o : Offer κ ω} (hnone : ∀ a, a.Meets o → P a = false) :
    ∀ (l : List (Offer κ ω)) (q : Int), (meet o q l).standing.filter P = l.filter P
  | [], q => rfl
  | a :: l, q => by
    rw [meet]
    split
    · rename_i h
      have hno : ¬ P a = true := by rw [hnone a h.2]; exact Bool.false_ne_true
      have hno' : ¬ P (a.of (a.quantity - min q a.quantity)) = true := by rw [hP]; exact hno
      have ih := meet_filter_of_none hnone l (q - min q a.quantity)
      dsimp only
      rw [List.filter_cons_of_neg hno]
      split
      · exact ih
      · rw [List.filter_cons_of_neg hno', ih]
    · dsimp only
      rw [List.filter_cons, List.filter_cons, meet_filter_of_none hnone l q]

end Parts

/-! ## 3. What a new offer does -/

section Meeting

variable [DecidableEq κ] (o : Offer κ ω)

theorem meet_of_nonpos {q : Int} (hq : q ≤ 0) : ∀ l : List (Offer κ ω),
    meet o q l = { left := q, gave := [], standing := l }
  | [] => rfl
  | a :: l => by
    rw [meet, if_neg fun h => absurd h.1 (not_lt.mpr hq), meet_of_nonpos hq l]

/-- What is left is what was not given. -/
theorem meet_left : ∀ (l : List (Offer κ ω)) (q : Int),
    (meet o q l).left = q - Fifo.total (meet o q l).gave
  | [], q => (sub_zero q).symm
  | a :: l, q => by
    rw [meet]
    split
    · dsimp only
      rw [meet_left l, Fifo.total_cons]
      omega
    · exact meet_left l q

theorem meet_left_nonneg : ∀ (l : List (Offer κ ω)) {q : Int}, 0 ≤ q → 0 ≤ (meet o q l).left
  | [], _, hq => hq
  | a :: l, q, hq => by
    rw [meet]
    split
    · exact meet_left_nonneg l (by omega)
    · exact meet_left_nonneg l hq

theorem key_of_gave {x : Offer κ ω × Int} : ∀ {l : List (Offer κ ω)} {q : Int},
    x ∈ (meet o q l).gave → x.1.key = o.key
  | [], _, hx => absurd hx List.not_mem_nil
  | a :: l, q, hx => by
    rw [meet] at hx
    split at hx
    · rename_i h
      rcases List.mem_cons.mp hx with rfl | hx
      · exact h.2.1
      · exact key_of_gave hx
    · exact key_of_gave hx

/-- Those who give are offers it meets, and they give something. -/
theorem mem_gave {x : Offer κ ω × Int} : ∀ {l : List (Offer κ ω)} {q : Int},
    (∀ a ∈ l, 0 < a.quantity) → x ∈ (meet o q l).gave → x.1 ∈ l ∧ x.1.Meets o ∧ 0 < x.2
  | [], _, _, hx => absurd hx List.not_mem_nil
  | a :: l, q, hpos, hx => by
    have hl : ∀ b ∈ l, 0 < b.quantity := fun b hb => hpos b (List.mem_cons_of_mem a hb)
    have hrest : ∀ {q'}, x ∈ (meet o q' l).gave → x.1 ∈ a :: l ∧ x.1.Meets o ∧ 0 < x.2 :=
      fun hx' => (mem_gave hl hx').imp (List.mem_cons_of_mem a) id
    rw [meet] at hx
    split at hx
    · rename_i h
      rcases List.mem_cons.mp hx with rfl | hx
      · exact ⟨List.mem_cons_self, h.2, lt_min h.1 (hpos a List.mem_cons_self)⟩
      · exact hrest hx
    · exact hrest hx

/-- What stands stood before, with as much or less. -/
theorem mem_standing {a' : Offer κ ω} : ∀ {l : List (Offer κ ω)} {q : Int},
    (∀ a ∈ l, 0 < a.quantity) → a' ∈ (meet o q l).standing →
    0 < a'.quantity ∧ ∃ a ∈ l, a' = a.of a'.quantity
  | [], _, _, ha => absurd ha List.not_mem_nil
  | a :: l, q, hpos, ha => by
    have hl : ∀ b ∈ l, 0 < b.quantity := fun b hb => hpos b (List.mem_cons_of_mem a hb)
    have hrest : ∀ {q'}, a' ∈ (meet o q' l).standing →
        0 < a'.quantity ∧ ∃ b ∈ a :: l, a' = b.of a'.quantity := by
      intro q' ha'
      obtain ⟨h0, b, hb, heq⟩ := mem_standing hl ha'
      exact ⟨h0, b, List.mem_cons_of_mem a hb, heq⟩
    rw [meet] at ha
    split at ha
    · dsimp only at ha
      split at ha
      · exact hrest ha
      · rename_i h hne
        rcases List.mem_cons.mp ha with rfl | ha
        · have := hpos a List.mem_cons_self
          exact ⟨by rw [Offer.of_quantity]; omega, a, List.mem_cons_self, rfl⟩
        · exact hrest ha
    · rcases List.mem_cons.mp ha with rfl | ha
      · exact ⟨hpos a' List.mem_cons_self, a', List.mem_cons_self, rfl⟩
      · exact hrest ha

/-- If something is left, nothing it meets stands any more. -/
theorem not_meets_of_left : ∀ {l : List (Offer κ ω)} {q : Int}, 0 < (meet o q l).left →
    ∀ a ∈ (meet o q l).standing, ¬ a.Meets o
  | [], _, _, _, ha => absurd ha List.not_mem_nil
  | b :: l, q, hleft, a, ha => by
    rw [meet] at hleft ha
    split at hleft
    · rename_i h
      rw [if_pos h] at ha
      dsimp only at hleft ha
      split at ha
      · exact not_meets_of_left hleft a ha
      · rename_i hne
        -- `b` had more than was wanted
        have hall : min q b.quantity = q := by omega
        rw [hall, sub_self, meet_of_nonpos o le_rfl] at hleft
        exact absurd hleft (lt_irrefl 0)
    · rename_i h
      rw [if_neg h] at ha
      rcases List.mem_cons.mp ha with rfl | ha
      · intro hm
        have hq : q ≤ 0 := not_lt.mp fun hq => h ⟨hq, hm⟩
        rw [meet_of_nonpos o hq] at hleft
        exact absurd hleft (not_lt.mpr hq)
      · exact not_meets_of_left hleft a ha

/-- The quantity that stands at a key on a side. -/
def standing (l : List (Offer κ ω)) (k : κ) (s : Side) : Int :=
  (l.map fun a => if a.key = k ∧ a.side = s then a.quantity else 0).sum

@[simp] theorem standing_nil (k : κ) (s : Side) : standing ([] : List (Offer κ ω)) k s = 0 := rfl

@[simp] theorem standing_cons (a : Offer κ ω) (l : List (Offer κ ω)) (k : κ) (s : Side) :
    standing (a :: l) k s =
      (if a.key = k ∧ a.side = s then a.quantity else 0) + standing l k s := by
  simp [standing]

@[simp] theorem standing_append (l m : List (Offer κ ω)) (k : κ) (s : Side) :
    standing (l ++ m) k s = standing l k s + standing m k s := by
  simp [standing]

theorem standing_of_none {l : List (Offer κ ω)} {k : κ} {s : Side}
    (h : ∀ a ∈ l, ¬ (a.key = k ∧ a.side = s)) : standing l k s = 0 := by
  induction l with
  | nil => rfl
  | cons a l ih =>
    rw [standing_cons, if_neg (h a List.mem_cons_self), zero_add]
    exact ih fun b hb => h b (List.mem_cons_of_mem a hb)

theorem standing_filter (p : Offer κ ω → Bool) (l : List (Offer κ ω)) (k : κ) (side : Side) :
    standing (l.filter fun a => !p a) k side + standing (l.filter p) k side =
      standing l k side := by
  induction l with
  | nil => rfl
  | cons a l ih => cases h : p a <;> simp [h] <;> omega

/-- What is given comes from the other side of its key. -/
theorem standing_meet (k : κ) (s : Side) : ∀ (l : List (Offer κ ω)) (q : Int),
    standing (meet o q l).standing k s
      = standing l k s - if k = o.key ∧ s ≠ o.side then Fifo.total (meet o q l).gave else 0
  | [], q => by simp [meet]
  | a :: l, q => by
    rw [meet]
    split
    · rename_i h
      obtain ⟨-, hkey, hside⟩ := h
      have ih := standing_meet k s l (q - min q a.quantity)
      have hfirst : (a.key = k ∧ a.side = s) ↔ (k = o.key ∧ s ≠ o.side) := by
        constructor
        · rintro ⟨rfl, rfl⟩
          exact ⟨hkey, hside⟩
        · rintro ⟨rfl, hs⟩
          refine ⟨hkey, ?_⟩
          generalize a.side = b at *
          generalize o.side = c at *
          cases b <;> cases s <;> cases c <;> simp_all
      dsimp only
      rw [Fifo.total_cons, standing_cons]
      by_cases hk : k = o.key ∧ s ≠ o.side
      · rw [if_pos hk] at ih ⊢
        rw [if_pos (hfirst.mpr hk)]
        split
        · omega
        · rw [standing_cons, Offer.of_key, Offer.of_side, if_pos (hfirst.mpr hk), Offer.of_quantity]
          omega
      · rw [if_neg hk] at ih ⊢
        rw [if_neg (fun h => hk (hfirst.mp h))]
        split
        · omega
        · rw [standing_cons, Offer.of_key, Offer.of_side, if_neg fun h => hk (hfirst.mp h)]
          omega
    · have ih := standing_meet k s l q
      dsimp only
      rw [standing_cons, standing_cons, ih]
      omega

end Meeting

/-! ## 4. The columns of the tape, and the invariant -/

section Columns

variable [DecidableEq κ]

/-- What an event trades at a key. -/
def Event.volumeAt (k : κ) : Event κ ω → Int
  | .traded a _ n => if a.key = k then n else 0
  | _ => 0

/-- What it offers there on a side. -/
def Event.offersAt (k : κ) (s : Side) : Event κ ω → Int
  | .submitted o => if o.key = k ∧ o.side = s then o.quantity else 0
  | _ => 0

/-- What it withdraws. -/
def Event.withdrawsAt (k : κ) (s : Side) : Event κ ω → Int
  | .withdrawn o => if o.key = k ∧ o.side = s then o.quantity else 0
  | _ => 0

def volume (tape : List (Event κ ω)) (k : κ) : Int := (tape.map (Event.volumeAt k)).sum

def offered (tape : List (Event κ ω)) (k : κ) (s : Side) : Int :=
  (tape.map (Event.offersAt k s)).sum

def withdrawn (tape : List (Event κ ω)) (k : κ) (s : Side) : Int :=
  (tape.map (Event.withdrawsAt k s)).sum

/-- The tape of an offer that has met the standing ones. -/
def taped (o : Offer κ ω) (gave : List (Offer κ ω × Int)) : List (Event κ ω) :=
  .submitted o :: gave.map fun x => .traded x.1 o x.2

theorem volume_taped (o : Offer κ ω) (k : κ) : ∀ {gave : List (Offer κ ω × Int)},
    (∀ x ∈ gave, x.1.key = o.key) →
      volume (taped o gave) k = if k = o.key then Fifo.total gave else 0
  | [], _ => by simp [volume, taped, Event.volumeAt]
  | x :: gave, h => by
    have ih := volume_taped o k fun y hy => h y (List.mem_cons_of_mem x hy)
    have hx := h x List.mem_cons_self
    simp only [volume, taped, List.map_cons, List.sum_cons, Event.volumeAt, zero_add] at ih ⊢
    rw [ih, hx, Fifo.total_cons]
    by_cases hk : k = o.key
    · simp [hk]
    · simp [hk, Ne.symm hk]

theorem offered_taped (o : Offer κ ω) (gave : List (Offer κ ω × Int)) (k : κ) (s : Side) :
    offered (taped o gave) k s = if o.key = k ∧ o.side = s then o.quantity else 0 := by
  have hzero : ((gave.map fun x => (Event.traded x.1 o x.2 : Event κ ω)).map
      (Event.offersAt k s)).sum = 0 := by
    refine List.sum_eq_zero (List.forall_mem_map.mpr fun e he => ?_)
    obtain ⟨x, -, rfl⟩ := List.mem_map.mp he
    rfl
  rw [offered, taped, List.map_cons, List.sum_cons, hzero, add_zero]
  rfl

theorem withdrawn_taped (o : Offer κ ω) (gave : List (Offer κ ω × Int)) (k : κ) (s : Side) :
    withdrawn (taped o gave) k s = 0 := by
  refine List.sum_eq_zero (List.forall_mem_map.mpr fun e he => ?_)
  rcases List.mem_cons.mp he with rfl | he
  · rfl
  · obtain ⟨x, -, rfl⟩ := List.mem_map.mp he
    rfl

/-- The invariant of the market. -/
structure Sound (s : State κ ω) : Prop where
  positive : ∀ a ∈ s.offers, 0 < a.quantity
  /-- no two standing offers meet -/
  uncrossed : ∀ a ∈ s.offers, ∀ b ∈ s.offers, ¬ a.Meets b
  /-- what is offered is traded, withdrawn or stands -/
  balance : ∀ k side, offered s.tape k side
    = volume s.tape k + withdrawn s.tape k side + standing s.offers k side

/-- **The volume at a key** is the smaller of what the two sides offered and did not withdraw. -/
theorem Sound.volume_eq {s : State κ ω} (h : Sound s) (k : κ) :
    volume s.tape k = min (offered s.tape k .bid - withdrawn s.tape k .bid)
      (offered s.tape k .ask - withdrawn s.tape k .ask) := by
  have hbid := h.balance k .bid
  have hask := h.balance k .ask
  have hnonneg : ∀ side, 0 ≤ standing s.offers k side := by
    intro side
    refine List.sum_nonneg fun n hn => ?_
    obtain ⟨a, ha, rfl⟩ := List.mem_map.mp hn
    have := h.positive a ha
    split <;> omega
  have hbid0 := hnonneg .bid
  have hask0 := hnonneg .ask
  -- one of the sides has nothing standing
  have hone : standing s.offers k .bid = 0 ∨ standing s.offers k .ask = 0 := by
    by_cases hex : ∃ a ∈ s.offers, a.key = k ∧ a.side = .bid
    · obtain ⟨a, ha, hak, has⟩ := hex
      refine .inr (standing_of_none fun b hb hbk => h.uncrossed a ha b hb ⟨?_, ?_⟩)
      · rw [hak, hbk.1]
      · rw [has, hbk.2]
        decide
    · exact .inl (standing_of_none fun a ha hk => hex ⟨a, ha, hk⟩)
  rcases hone with h0 | h0 <;> omega

theorem sound_start : Sound (start : State κ ω) :=
  ⟨fun _ h => absurd h List.not_mem_nil, fun _ h => absurd h List.not_mem_nil, fun _ _ => rfl⟩

end Columns

section Keeping

variable [DecidableEq κ] [DecidableEq ω]

theorem Sound.submit {s : State κ ω} (h : Sound s) {o : Offer κ ω} (hq : 0 < o.quantity) :
    Sound (step s (.submit o)) := by
  have hleft0 := meet_left_nonneg o s.offers hq.le
  have hleft := meet_left o s.offers o.quantity
  have hgave : ∀ x ∈ (meet o o.quantity s.offers).gave, x.1.key = o.key :=
    fun x hx => (mem_gave o h.positive hx).2.1.1
  have hcases : ∀ a ∈ (step s (.submit o)).offers,
      a ∈ (meet o o.quantity s.offers).standing ∨
        0 < (meet o o.quantity s.offers).left ∧ a = o.of (meet o o.quantity s.offers).left := by
    intro a ha
    simp only [step, List.mem_append] at ha
    rcases ha with ha | ha
    · exact .inl ha
    · split at ha
      · rename_i hpos
        exact .inr ⟨hpos, List.mem_singleton.mp ha⟩
      · exact absurd ha List.not_mem_nil
  constructor
  · intro a ha
    rcases hcases a ha with ha | ⟨hpos, rfl⟩
    · exact (mem_standing o h.positive ha).1
    · exact hpos
  · -- what stood did not meet, and the rest of the new offer has nothing left to meet
    have hstood : ∀ a ∈ (meet o o.quantity s.offers).standing,
        ∀ b ∈ (meet o o.quantity s.offers).standing, ¬ a.Meets b := by
      intro a ha b hb hm
      obtain ⟨-, a0, ha0, haeq⟩ := mem_standing o h.positive ha
      obtain ⟨-, b0, hb0, hbeq⟩ := mem_standing o h.positive hb
      rw [haeq, hbeq] at hm
      exact h.uncrossed a0 ha0 b0 hb0 hm
    intro a ha b hb hm
    rcases hcases a ha with ha | ⟨hpos, rfl⟩ <;> rcases hcases b hb with hb | ⟨hpos', rfl⟩
    · exact hstood a ha b hb hm
    · exact not_meets_of_left o hpos' a ha hm
    · exact not_meets_of_left o hpos b hb hm.symm
    · exact hm.2 rfl
  · intro k side
    have hbal := h.balance k side
    have hstand := standing_meet o k side s.offers o.quantity
    have hrest : standing (if 0 < (meet o o.quantity s.offers).left
        then [o.of (meet o o.quantity s.offers).left] else []) k side
        = if o.key = k ∧ o.side = side then (meet o o.quantity s.offers).left else 0 := by
      split
      · rw [standing_cons, standing_nil, add_zero]
        rfl
      · rw [standing_nil]
        split <;> omega
    have htape : (step s (.submit o)).tape
        = s.tape ++ taped o (meet o o.quantity s.offers).gave := rfl
    have hvol := volume_taped o k hgave
    have hoff := offered_taped o (meet o o.quantity s.offers).gave k side
    have hwd := withdrawn_taped o (meet o o.quantity s.offers).gave k side
    have hoffers : standing (step s (.submit o)).offers k side
        = standing (meet o o.quantity s.offers).standing k side
          + if o.key = k ∧ o.side = side then (meet o o.quantity s.offers).left else 0 := by
      rw [← hrest, ← standing_append]
      rfl
    rw [htape, hoffers, hstand]
    simp only [offered, volume, withdrawn, List.map_append, List.sum_append] at hbal hvol hoff hwd ⊢
    rw [hvol, hoff, hwd, hbal]
    by_cases hk : o.key = k
    · subst hk
      by_cases hs : o.side = side
      · subst hs
        simp only [ne_eq, not_true_eq_false, and_false, and_self, if_true, if_false]
        omega
      · simp only [hs, Ne.symm hs, ne_eq, not_false_eq_true, and_true, and_false, if_true, if_false]
        omega
    · simp only [hk, Ne.symm hk, false_and, if_false]
      omega

theorem Sound.withdraw {s : State κ ω} (h : Sound s) (id : Int) (owner : ω) :
    Sound (step s (.withdraw id owner)) := by
  have hsub : ∀ a ∈ (step s (.withdraw id owner)).offers, a ∈ s.offers :=
    fun a ha => List.mem_of_mem_filter ha
  refine ⟨fun a ha => h.positive a (hsub a ha),
    fun a ha b hb => h.uncrossed a (hsub a ha) b (hsub b hb), fun k side => ?_⟩
  have hbal := h.balance k side
  have hsplit := standing_filter (fun a => a.named id owner) s.offers k side
  generalize hl : s.offers.filter (fun a => a.named id owner) = l at hsplit
  have hcol : ∀ f : Event κ ω → Int, ((l.map (Event.withdrawn (ω := ω))).map f).sum
      = (l.map fun a => f (.withdrawn a)).sum := fun f => by rw [List.map_map]; rfl
  have hzero : ∀ f : Event κ ω → Int, (∀ a, f (.withdrawn a) = 0) →
      (l.map fun a => f (.withdrawn a)).sum = 0 := fun f hf =>
    List.sum_eq_zero (List.forall_mem_map.mpr fun a _ => hf a)
  simp only [step, hl, offered, volume, withdrawn, List.map_append, List.sum_append, hcol]
    at hbal ⊢
  rw [hzero _ fun _ => rfl, hzero _ fun _ => rfl]
  have hw : (l.map fun a => Event.withdrawsAt k side (.withdrawn a)).sum = standing l k side := rfl
  omega

/-- An offer is for something. -/
def Request.Positive : Request κ ω → Prop
  | .submit o => 0 < o.quantity
  | .withdraw _ _ => True

theorem Sound.step {s : State κ ω} (h : Sound s) {r : Request κ ω} (hr : r.Positive) :
    Sound (step s r) := by
  cases r with
  | submit o => exact h.submit hr
  | withdraw id owner => exact h.withdraw id owner

/-- **Every run keeps the invariant.** -/
theorem run_sound {rs : List (Request κ ω)} (h : ∀ r ∈ rs, r.Positive) :
    Sound (Run.run Market.step start rs) :=
  Run.run_invariant_of_mem (fun _ _ hs hr => hs.step hr) rs _ h sound_start

end Keeping

/-! ## 5. One key -/

section Restriction

variable [DecidableEq κ] (k : κ)

def Event.isAt : Event κ ω → Bool
  | .submitted o => decide (o.key = k)
  | .traded a _ _ => decide (a.key = k)
  | .withdrawn o => decide (o.key = k)

/-- The request can have to do with the key: who withdraws does not say where. -/
def Request.concerns : Request κ ω → Bool
  | .submit o => decide (o.key = k)
  | .withdraw _ _ => true

/-- What is at the key. -/
def State.restrict (s : State κ ω) : State κ ω :=
  { offers := s.offers.filter fun a => decide (a.key = k), tape := s.tape.filter (Event.isAt k) }

theorem taped_isAt {o : Offer κ ω} {l : List (Offer κ ω)} {q : Int} {e : Event κ ω}
    (he : e ∈ taped o (meet o q l).gave) : e.isAt k = decide (o.key = k) := by
  rcases List.mem_cons.mp he with rfl | he
  · rfl
  · obtain ⟨x, hx, rfl⟩ := List.mem_map.mp he
    rw [Event.isAt, key_of_gave o hx]

variable [DecidableEq ω]

/-- **A step at one key**: a request elsewhere does nothing there, and one that concerns the key
does what it would do if there were nothing else. -/
theorem step_restrict (s : State κ ω) (r : Request κ ω) :
    (step s r).restrict k = if r.concerns k then step (s.restrict k) r else s.restrict k := by
  have hP : ∀ (a : Offer κ ω) n, decide ((a.of n).key = k) = decide (a.key = k) := fun _ _ => rfl
  cases r with
  | submit o =>
    have htape : (step s (.submit o)).tape
        = s.tape ++ taped o (meet o o.quantity s.offers).gave := rfl
    by_cases hk : o.key = k
    · have hall : ∀ a : Offer κ ω, a.Meets o → decide (a.key = k) = true :=
        fun a ha => decide_eq_true (ha.1.trans hk)
      obtain ⟨h1, h2, h3⟩ := meet_filter hP hall s.offers o.quantity
      rw [if_pos (show (Request.submit o).concerns k = true from decide_eq_true hk)]
      unfold State.restrict
      rw [htape]
      simp only [step, h1, h2, h3, List.filter_append]
      congr 2
      · split
        · exact List.filter_cons_of_pos (decide_eq_true hk)
        · rfl
      · refine List.filter_eq_self.mpr fun e he => ?_
        rw [taped_isAt k he]
        exact decide_eq_true hk
    · have hnone : ∀ a : Offer κ ω, a.Meets o → decide (a.key = k) = false :=
        fun a ha => decide_eq_false fun h => hk (ha.1.symm.trans h)
      have h3 := meet_filter_of_none hP hnone s.offers o.quantity
      rw [if_neg (show ¬ (Request.submit o).concerns k = true from
        fun h => hk (of_decide_eq_true h))]
      unfold State.restrict
      rw [htape]
      simp only [step, List.filter_append, h3]
      congr 1
      · rw [List.append_right_eq_self]
        split
        · exact List.filter_cons_of_neg fun h => hk (of_decide_eq_true h)
        · rfl
      · rw [List.append_right_eq_self]
        refine List.filter_eq_nil_iff.mpr fun e he => ?_
        rw [taped_isAt k he, decide_eq_false hk]
        exact Bool.false_ne_true
  | withdraw id owner =>
    have hmap : ∀ l : List (Offer κ ω), (l.map Event.withdrawn).filter (Event.isAt k)
        = (l.filter fun a => decide (a.key = k)).map (Event.withdrawn (ω := ω)) := by
      intro l
      rw [List.filter_map]
      rfl
    rw [if_pos (show (Request.withdraw id owner : Request κ ω).concerns k = true from rfl)]
    simp only [State.restrict, step, List.filter_append, hmap, List.filter_comm]

/-- **What happens at a key is what happens when nothing is asked at the others.** -/
theorem run_restrict (rs : List (Request κ ω)) :
    (Run.run step start rs).restrict k
      = Run.run step start (rs.filter fun r => r.concerns k) := by
  rw [← List.filterMap_eq_filter]
  refine Run.run_project (State.restrict k) (Option.guard fun r => r.concerns k)
    (fun _ _ (_ : True) (_ : True) => trivial) (fun s r _ _ => ?_) rs (fun _ _ => trivial) trivial
  rw [step_restrict]
  unfold Option.guard
  split <;> rfl

end Restriction

end Market
