/-
# Doubly linked lists in memory

A memory gives the node at an address, or nothing where none is allocated.  `Linked` says that
a list of cells (addresses with the data at them) is well formed and is what the links say:
following `next` from the head visits just these cells and ends, nothing is in front of the
head, and `prev` is the inverse of `next`.

`linked_iff` turns this into a `Segment`, which gives both links of every cell and composes
with `++`, so a change in the middle is a change at the ends of the two parts.  The frame rules
and the three changes of a segment (its last `next`, its first `prev`, the data of one cell) are
all that insertion and removal need.
-/
import Mathlib.Data.List.Basic
import Mathlib.Logic.Function.Basic

namespace LinkedList

variable {α δ : Type*}

structure Node (α δ : Type*) where
  next : Option α
  prev : Option α
  data : δ
  deriving DecidableEq, Repr

/-- The allocated nodes. -/
abbrev Memory (α δ : Type*) := α → Option (Node α δ)

/-- The addresses of a list of cells. -/
def addrs (l : List (α × δ)) : List α := l.map Prod.fst

@[simp] theorem addrs_nil : addrs ([] : List (α × δ)) = [] := rfl

@[simp] theorem addrs_cons (a : α) (d : δ) (l : List (α × δ)) :
    addrs ((a, d) :: l) = a :: addrs l := rfl

@[simp] theorem addrs_append (l l' : List (α × δ)) : addrs (l ++ l') = addrs l ++ addrs l' :=
  List.map_append

theorem mem_addrs {a : α} {l : List (α × δ)} : a ∈ addrs l ↔ ∃ d, (a, d) ∈ l := by
  simp [addrs]

/-! ## 1. Segments -/

/-- Where a pointer to this list points, with `n` behind it. -/
def first : List (α × δ) → Option α → Option α
  | [], n => n
  | (a, _) :: _, _ => some a

/-- The last cell, with `p` in front. -/
def last : Option α → List (α × δ) → Option α
  | p, [] => p
  | _, (a, _) :: l => last (some a) l

@[simp] theorem first_append (l l' : List (α × δ)) (n : Option α) :
    first (l ++ l') n = first l (first l' n) := by
  cases l <;> rfl

@[simp] theorem last_append (p : Option α) (l l' : List (α × δ)) :
    last p (l ++ l') = last (last p l) l' := by
  induction l generalizing p with
  | nil => rfl
  | cons c l ih => exact ih (some c.1)

/-- **A part of a list**, with `p` in front and `n` behind. -/
def Segment (m : Memory α δ) : Option α → List (α × δ) → Option α → Prop
  | _, [], _ => True
  | p, (a, d) :: l, n =>
    m a = some { next := first l n, prev := p, data := d } ∧ Segment m (some a) l n

section Segments

variable {m m' : Memory α δ} {p n : Option α} {l l' : List (α × δ)} {a : α} {d : δ}

theorem segment_append : Segment m p (l ++ l') n ↔
    Segment m p l (first l' n) ∧ Segment m (last p l) l' n := by
  induction l generalizing p with
  | nil => exact ⟨fun h => ⟨trivial, h⟩, fun h => h.2⟩
  | cons c l ih =>
    simp only [List.cons_append, Segment, ih, first_append, and_assoc]
    rfl

/-- The node of a cell. -/
theorem Segment.node (h : Segment m p (l ++ (a, d) :: l') n) :
    m a = some { next := first l' n, prev := last p l, data := d } :=
  (segment_append.mp h).2.1

theorem Segment.lastNode (h : Segment m p (l ++ [(a, d)]) n) :
    m a = some { next := n, prev := last p l, data := d } :=
  h.node

/-- **Frame**: a segment only looks at its own addresses. -/
theorem Segment.frame (h : Segment m p l n) (hm : ∀ a ∈ addrs l, m' a = m a) :
    Segment m' p l n := by
  induction l generalizing p with
  | nil => trivial
  | cons c l ih =>
    refine ⟨?_, ih h.2 fun a ha => hm a (List.mem_cons_of_mem _ ha)⟩
    rw [hm c.1 List.mem_cons_self]
    exact h.1

end Segments

/-! ## 2. Well-formed lists -/

/-- Following `next` from here visits these cells and ends. -/
def Path (m : Memory α δ) : Option α → List (α × δ) → Prop
  | h, [] => h = none
  | h, (a, d) :: l => h = some a ∧ ∃ nd, m a = some nd ∧ nd.data = d ∧ Path m nd.next l

/-- **A well-formed list at `head`.** -/
structure Linked (m : Memory α δ) (head : Option α) (l : List (α × δ)) : Prop where
  /-- acyclic, and these are its nodes -/
  path : Path m head l
  head_prev : ∀ a ∈ head, ∀ nd ∈ m a, nd.prev = none
  /-- `a->next = b` if and only if `b->prev = a` -/
  inverse : ∀ a ∈ addrs l, ∀ b ∈ addrs l, ∀ na ∈ m a, ∀ nb ∈ m b,
    na.next = some b ↔ nb.prev = some a

section Lists

variable {m : Memory α δ} {head : Option α} {l l' : List (α × δ)} {a : α} {d : δ}

/-- The nodes on a path are determined by where it starts. -/
theorem Path.unique (h : Path m head l) (h' : Path m head l') : l = l' := by
  induction l generalizing head l' with
  | nil =>
    cases l' with
    | nil => rfl
    | cons c l' => cases h.symm.trans h'.1
  | cons c l ih =>
    obtain ⟨rfl, nd, hnd, hd, hrest⟩ := h
    cases l' with
    | nil => cases h'
    | cons c' l' =>
      obtain ⟨hc, nd', hnd', hd', hrest'⟩ := h'
      rw [← Option.some.inj hc, hnd, Option.some.injEq] at hnd'
      subst hnd'
      rw [ih hrest hrest']
      exact congrArg (· :: l') (Prod.ext (Option.some.inj hc) (hd.symm.trans hd'))

/-- A path from one of its cells on. -/
theorem Path.suffix (h : Path m head (l ++ (a, d) :: l')) : Path m (some a) ((a, d) :: l') := by
  induction l generalizing head with
  | nil =>
    obtain ⟨-, hrest⟩ := h
    exact ⟨rfl, hrest⟩
  | cons c l ih =>
    obtain ⟨-, nd, -, -, hrest⟩ := h
    exact ih hrest

/-- **A path that ends visits no cell twice.** -/
theorem Path.nodup (h : Path m head l) : (addrs l).Nodup := by
  induction l generalizing head with
  | nil => exact List.nodup_nil
  | cons c l ih =>
    have hrest := h
    obtain ⟨-, nd, -, -, hnext⟩ := hrest
    refine List.nodup_cons.mpr ⟨fun hmem => ?_, ih hnext⟩
    obtain ⟨d, hd⟩ := mem_addrs.mp hmem
    obtain ⟨l1, l2, rfl⟩ := List.append_of_mem hd
    -- the two visits go on alike, so one list would be a proper part of itself
    have hfrom : Path m (some c.1) (c :: (l1 ++ (c.1, d) :: l2)) := Path.suffix (l := []) h
    have hagain : Path m (some c.1) ((c.1, d) :: l2) := Path.suffix (l := c :: l1) h
    have hlen := congrArg List.length (hfrom.unique hagain)
    simp only [List.length_cons, List.length_append] at hlen
    omega

theorem Segment.path {p : Option α} (h : Segment m p l none) : Path m (first l none) l := by
  induction l generalizing p with
  | nil => rfl
  | cons c l ih => exact ⟨rfl, _, h.1, rfl, ih h.2⟩

theorem Path.head_eq (h : Path m head l) : head = first l none := by
  cases l with
  | nil => exact h
  | cons c l => exact h.1

/-- The node of a cell on a path. -/
theorem Path.node (h : Path m head (l ++ (a, d) :: l')) :
    ∃ nd, m a = some nd ∧ nd.data = d ∧ nd.next = first l' none := by
  obtain ⟨-, nd, hnd, hd, hrest⟩ := h.suffix
  exact ⟨nd, hnd, hd, hrest.head_eq⟩

/-- **A well-formed list is a segment from its head to the end.** -/
theorem linked_iff : Linked m head l ↔ head = first l none ∧ Segment m none l none := by
  constructor
  · intro h
    refine ⟨h.path.head_eq, ?_⟩
    suffices hall : ∀ l1 l2, l = l1 ++ l2 → Segment m (last none l1) l2 none from hall [] l rfl
    intro l1 l2
    induction l2 generalizing l1 with
    | nil => exact fun _ => trivial
    | cons c l2 ih =>
      rintro rfl
      obtain ⟨a, d⟩ := c
      have hrest := ih (l1 ++ [(a, d)]) (by rw [List.append_assoc]; rfl)
      rw [last_append] at hrest
      refine ⟨?_, hrest⟩
      obtain ⟨⟨next, prev, data⟩, hnd, rfl, rfl⟩ := h.path.node
      have hprev : prev = last none l1 := by
        rcases List.eq_nil_or_concat l1 with rfl | ⟨l1, ⟨b, e⟩, rfl⟩
        · exact h.head_prev a h.path.head_eq _ hnd
        · rw [List.concat_eq_append, last_append]
          rw [List.concat_eq_append, List.append_assoc] at h
          obtain ⟨nb, hnb, -, hnext⟩ := h.path.node
          exact (h.inverse b (by simp) a (by simp) nb hnb _ hnd).mp hnext
      rw [hnd, hprev]
  · rintro ⟨rfl, h⟩
    refine ⟨h.path, ?_, ?_⟩
    · intro a ha nd hnd
      cases l with
      | nil => cases ha
      | cons c l =>
        cases ha
        cases hnd.symm.trans h.1
        rfl
    · intro a ha b hb na hna nb hnb
      constructor
      · intro hnext
        obtain ⟨da, hda⟩ := mem_addrs.mp ha
        obtain ⟨l1, l2, rfl⟩ := List.append_of_mem hda
        cases hna.symm.trans h.node
        cases l2 with
        | nil => cases hnext
        | cons c l2 =>
          cases hnext
          have hl : l1 ++ (a, da) :: c :: l2 = (l1 ++ [(a, da)]) ++ c :: l2 := by simp
          rw [hl] at h
          cases hnb.symm.trans h.node
          rw [last_append]
          rfl
      · intro hprev
        obtain ⟨db, hdb⟩ := mem_addrs.mp hb
        obtain ⟨l1, l2, rfl⟩ := List.append_of_mem hdb
        cases hnb.symm.trans h.node
        rcases List.eq_nil_or_concat l1 with rfl | ⟨l1, ⟨a', e⟩, rfl⟩
        · cases hprev
        · rw [List.concat_eq_append] at hprev h
          rw [last_append] at hprev
          cases hprev
          rw [List.append_assoc] at h
          cases hna.symm.trans h.node
          rfl

theorem Linked.nodup (h : Linked m head l) : (addrs l).Nodup := h.path.nodup

/-- A list none of whose nodes has changed. -/
theorem Linked.frame {m' : Memory α δ} (h : Linked m head l) (hm : ∀ a ∈ addrs l, m' a = m a) :
    Linked m' head l := by
  rw [linked_iff] at h ⊢
  exact ⟨h.1, h.2.frame hm⟩

/-- The addresses a pointer leads to, by any links in any order. -/
inductive Reaches (m : Memory α δ) : Option α → α → Prop
  | here (a : α) : Reaches m (some a) a
  | next {a b : α} {nd : Node α δ} (h : m a = some nd) (hb : Reaches m nd.next b) :
      Reaches m (some a) b
  | prev {a b : α} {nd : Node α δ} (h : m a = some nd) (hb : Reaches m nd.prev b) :
      Reaches m (some a) b

theorem mem_of_first (h : first l none = some a) : a ∈ addrs l := by
  cases l with
  | nil => cases h
  | cons c l =>
    cases h
    exact List.mem_cons_self

theorem mem_of_last (h : last none l = some a) : a ∈ addrs l := by
  rcases List.eq_nil_or_concat l with rfl | ⟨l, c, rfl⟩
  · cases h
  · rw [List.concat_eq_append, last_append] at h
    cases h
    rw [List.concat_eq_append, addrs_append]
    exact List.mem_append_right _ List.mem_cons_self

/-- **From the head only the list's nodes are reached**, and they are allocated. -/
theorem Linked.reaches (h : Linked m head l) (ha : Reaches m head a) :
    a ∈ addrs l ∧ (m a).isSome = true := by
  obtain ⟨rfl, hseg⟩ := linked_iff.mp h
  have hnode : ∀ b ∈ addrs l, ∃ nd, m b = some nd ∧
      (∀ c, nd.next = some c → c ∈ addrs l) ∧ ∀ c, nd.prev = some c → c ∈ addrs l := by
    intro b hb
    obtain ⟨d, hd⟩ := mem_addrs.mp hb
    obtain ⟨l1, l2, rfl⟩ := List.append_of_mem hd
    refine ⟨_, hseg.node, fun c hc => ?_, fun c hc => ?_⟩
    · have hmem := mem_of_first hc
      simp [hmem]
    · have hmem := mem_of_last hc
      simp [hmem]
  -- a pointer into the list leads to nodes of the list
  suffices hall : ∀ p, Reaches m p a → (∀ b, p = some b → b ∈ addrs l) → a ∈ addrs l by
    have hmem := hall _ ha fun b hb => mem_of_first hb
    obtain ⟨nd, hnd, -⟩ := hnode a hmem
    exact ⟨hmem, by rw [hnd]; rfl⟩
  intro p hp hin
  induction hp with
  | here a => exact hin a rfl
  | next hnd hb ih =>
    obtain ⟨nd, hnd', hnext, -⟩ := hnode _ (hin _ rfl)
    cases hnd.symm.trans hnd'
    exact ih ha hnext
  | prev hnd hb ih =>
    obtain ⟨nd, hnd', -, hprev⟩ := hnode _ (hin _ rfl)
    cases hnd.symm.trans hnd'
    exact ih ha hprev

end Lists

/-! ## 3. Writing -/

section Writing

variable [DecidableEq α] {m : Memory α δ} {p n : Option α} {l l' : List (α × δ)} {a : α} {d : δ}

/-- A write through the pointer `a`, which fails where nothing is allocated. -/
def write (m : Memory α δ) (a : α) (f : Node α δ → Node α δ) : Option (Memory α δ) :=
  (m a).map fun nd => Function.update m a (some (f nd))

/-- `free(a)` -/
def free (m : Memory α δ) (a : α) : Option (Memory α δ) :=
  (m a).map fun _ => Function.update m a none

theorem Segment.update (h : Segment m p l n) (ha : a ∉ addrs l) (x : Option (Node α δ)) :
    Segment (Function.update m a x) p l n :=
  h.frame fun _ hb => Function.update_of_ne (ne_of_mem_of_not_mem hb ha) _ _

/-- Another end for the last cell. -/
theorem Segment.setNext (h : Segment m p (l ++ [(a, d)]) n) (ha : a ∉ addrs l) (n' : Option α) :
    Segment (Function.update m a (some { next := n', prev := last p l, data := d })) p
      (l ++ [(a, d)]) n' := by
  rw [segment_append] at h ⊢
  exact ⟨h.1.update ha _, Function.update_self _ _ _, trivial⟩

/-- Another front for the first cell. -/
theorem Segment.setPrev (h : Segment m p ((a, d) :: l) n) (ha : a ∉ addrs l) (p' : Option α) :
    Segment (Function.update m a (some { next := first l n, prev := p', data := d })) p'
      ((a, d) :: l) n :=
  ⟨Function.update_self _ _ _, h.2.update ha _⟩

/-- Other data at one cell. -/
theorem Segment.setData (h : Segment m p (l ++ (a, d) :: l') n) (ha : a ∉ addrs l)
    (ha' : a ∉ addrs l') (d' : δ) :
    Segment (Function.update m a (some { next := first l' n, prev := last p l, data := d' })) p
      (l ++ (a, d') :: l') n := by
  rw [segment_append] at h ⊢
  exact ⟨h.1.update ha _, Function.update_self _ _ _, h.2.2.update ha' _⟩

end Writing

end LinkedList
