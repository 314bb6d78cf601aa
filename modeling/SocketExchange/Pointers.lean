/-
# The order book's pointers: `orderbook.c` on a heap

`OrderBook.lean` takes a linked list for the list of its orders.  Here the nodes are in memory:
`append`, `removeNode`, `addOrder`, `cancelOrder` and `detachClientOrders` read and write links
through pointers, and any access to a node that is not allocated fails, as does a walk that has
used up its fuel.

`Holds` says that the four lists of the book are well formed, share no node, and are all there
is besides some loose nodes.  Each operation has a lemma that says what it does to `Holds`; the
loop of `addOrder`, which removes and frees the node it stands on, follows the list `walk`
(`addLoop_walk`).  `linked_lists` puts this together: the operations on pointers are those on
lists, in every run, and nothing that is freed is ever reached.
-/
import SocketExchange.Matching
import SocketExchange.Lib.LinkedList

namespace SocketExchange

open LinkedList (Node Memory Linked Segment Reaches addrs first last)

/-! ## 1. Memory and the four heads -/

/-- The allocated orders, and the fields of `struct LimitOrderBook`. -/
structure Heap where
  mem : Memory Nat Order
  heads : ListHead → Option Nat

/-- A list's orders at their addresses. -/
abbrev Cells := List (Nat × Order)

namespace Heap

/-- After `initOrderbook`. -/
def init : Heap := { mem := fun _ => none, heads := fun _ => none }

/-- An order from `calloc`, filled in. -/
def calloc (s : Heap) (a : Nat) (ord : Order) : Heap :=
  { s with mem := Function.update s.mem a (some { next := none, prev := none, data := ord }) }

/-- `*head = p` -/
def setHead (s : Heap) (head : ListHead) (p : Option Nat) : Heap :=
  { s with heads := Function.update s.heads head p }

/-- `a->next = p` -/
def setNext (s : Heap) (a : Nat) (p : Option Nat) : Option Heap :=
  (LinkedList.write s.mem a fun nd => { nd with next := p }).map fun m => { s with mem := m }

/-- `a->prev = p` -/
def setPrev (s : Heap) (a : Nat) (p : Option Nat) : Option Heap :=
  (LinkedList.write s.mem a fun nd => { nd with prev := p }).map fun m => { s with mem := m }

/-- A write to another field of `*a`. -/
def setData (s : Heap) (a : Nat) (f : Order → Order) : Option Heap :=
  (LinkedList.write s.mem a fun nd => { nd with data := f nd.data }).map
    fun m => { s with mem := m }

/-- `free(a)` -/
def free (s : Heap) (a : Nat) : Option Heap :=
  (LinkedList.free s.mem a).map fun m => { s with mem := m }

/-! ## 2. The operations -/

/-- `while (cur->next != NULL) cur = cur->next;` -/
def lastNode (s : Heap) : Nat → Nat → Option Nat
  | 0, _ => none
  | fuel + 1, cur => do
    let nd ← s.mem cur
    match nd.next with
    | none => some cur
    | some nxt => lastNode s fuel nxt

def append (fuel : Nat) (head : ListHead) (ord : Nat) (s : Heap) : Option Heap := do
  let s ← s.setNext ord none
  let s ← s.setPrev ord none
  match s.heads head with
  | none => some (s.setHead head (some ord))
  | some cur =>
    let cur ← s.lastNode fuel cur
    let s ← s.setNext cur (some ord)
    s.setPrev ord (some cur)

def removeNode (head : ListHead) (node : Nat) (s : Heap) : Option Heap := do
  let nd ← s.mem node
  let s ← (match nd.prev with
    | some p => s.setNext p nd.next
    | none => some (s.setHead head nd.next))
  let nd ← s.mem node
  let s ← (match nd.next with
    | some q => s.setPrev q nd.prev
    | none => some s)
  let s ← s.setNext node none
  s.setPrev node none

/-- The loop of `addOrder`.  The variables about `*fills` are those of `Walk`, whose `ord` is the
copy of `*ord` that was read last. -/
def addLoop (opp : ListHead) (ord : Nat) : Nat → Option Nat → Heap × Walk → Option (Heap × Walk)
  | 0, _, _ => none
  | _ + 1, none, r => some r
  | fuel + 1, some cur, (s, w) => do
    let o ← s.mem ord
    if 0 < o.data.quantity then
      let c ← s.mem cur
      let nxt := c.next
      if c.data.price = o.data.price then
        let qty := tradeQuantity o.data c.data
        let s ← s.setData cur fun x => { x with quantity := x.quantity - qty }
        let s ← s.setData ord fun x => { x with quantity := x.quantity - qty }
        let o ← s.mem ord
        let x ← s.mem cur
        let w := recordFill x.data qty (growFills
          { w with ord := o.data
                   executed := w.executed ++ [{ resting := c.data, quantity := qty }] })
        if x.data.quantity = 0 then
          let s ← s.removeNode opp cur
          let s ← s.free cur
          addLoop opp ord fuel nxt (s, w)
        else addLoop opp ord fuel nxt (s, w)
      else addLoop opp ord fuel nxt (s, w)
    else some (s, w)

def addOrder (fuel ord : Nat) (heap : List Bool) (s : Heap) : Option (Heap × Walk) := do
  let o ← s.mem ord
  let own := ownList o.data
  let opp := oppList o.data
  let (s, w) ← addLoop opp ord fuel (s.heads opp) (s, .start o.data heap)
  let o ← s.mem ord
  if 0 < o.data.quantity then (s.append fuel own ord).map fun s => (s, w)
  else (s.free ord).map fun s => (s, w)

def detachIn (clientFd : Int) : Nat → Option Nat → Heap → Option Heap
  | 0, _, _ => none
  | _ + 1, none, s => some s
  | fuel + 1, some cur, s => do
    let c ← s.mem cur
    let s ← (if c.data.clientFd = clientFd then s.setData cur fun x => { x with clientFd := -1 }
      else some s)
    let c ← s.mem cur
    detachIn clientFd fuel c.next s

def detachClientOrders (fuel : Nat) (clientFd : Int) (s : Heap) : Option Heap := do
  let s ← detachIn clientFd fuel (s.heads .jnstBuyOrders) s
  let s ← detachIn clientFd fuel (s.heads .jnstSellOrders) s
  let s ← detachIn clientFd fuel (s.heads .imctBuyOrders) s
  detachIn clientFd fuel (s.heads .imctSellOrders) s

/-- The flag is the returned 1 or 0. -/
def cancelIn (head : ListHead) (id clientFd : Int) : Nat → Option Nat → Heap → Option (Bool × Heap)
  | 0, _, _ => none
  | _ + 1, none, s => some (false, s)
  | fuel + 1, some cur, s => do
    let c ← s.mem cur
    if c.data.id = id ∧ c.data.clientFd = clientFd then
      let s ← s.removeNode head cur
      let s ← s.free cur
      some (true, s)
    else cancelIn head id clientFd fuel c.next s

/-- One of the four searches, when those in front have found nothing. -/
def orCancelIn (fuel : Nat) (head : ListHead) (id clientFd : Int) (r : Bool × Heap) :
    Option (Bool × Heap) :=
  if r.1 then some r else cancelIn head id clientFd fuel (r.2.heads head) r.2

def cancelOrder (fuel : Nat) (id clientFd : Int) (s : Heap) : Option (Bool × Heap) := do
  let r ← orCancelIn fuel .jnstBuyOrders id clientFd (false, s)
  let r ← orCancelIn fuel .jnstSellOrders id clientFd r
  let r ← orCancelIn fuel .imctBuyOrders id clientFd r
  orCancelIn fuel .imctSellOrders id clientFd r

/-! ## 3. Single accesses -/

section Accesses

variable {s : Heap} {a : Nat} {n p : Option Nat} {d : Order}

theorem setNext_eq (h : s.mem a = some { next := n, prev := p, data := d }) (n' : Option Nat) :
    s.setNext a n' = some { s with
      mem := Function.update s.mem a (some { next := n', prev := p, data := d }) } := by
  rw [setNext, LinkedList.write, h]
  rfl

theorem setPrev_eq (h : s.mem a = some { next := n, prev := p, data := d }) (p' : Option Nat) :
    s.setPrev a p' = some { s with
      mem := Function.update s.mem a (some { next := n, prev := p', data := d }) } := by
  rw [setPrev, LinkedList.write, h]
  rfl

theorem setData_eq (h : s.mem a = some { next := n, prev := p, data := d }) (f : Order → Order) :
    s.setData a f = some { s with
      mem := Function.update s.mem a (some { next := n, prev := p, data := f d }) } := by
  rw [setData, LinkedList.write, h]
  rfl

theorem free_eq {nd : Node Nat Order} (h : s.mem a = some nd) :
    s.free a = some { s with mem := Function.update s.mem a none } := by
  rw [free, LinkedList.free, h]
  rfl

end Accesses

/-! ## 4. One list -/

section OneList

variable {s : Heap} {head : ListHead} {l l1 l2 : Cells} {a : Nat} {d : Order}

/-- The link in front of a node, or the head, is moved past it. -/
theorem unlink_front (hhead : s.heads head = first (l1 ++ (a, d) :: l2) none)
    (hseg : Segment s.mem none l1 (some a)) (hnd : (addrs l1).Nodup) (n : Option Nat) :
    ∃ m, (match last none l1 with
        | some p => s.setNext p n
        | none => some (s.setHead head n))
        = some { mem := m, heads := Function.update s.heads head (first l1 n) } ∧
      Segment m none l1 n ∧ ∀ b, b ∉ addrs l1 → m b = s.mem b := by
  rcases List.eq_nil_or_concat l1 with rfl | ⟨l1, ⟨b, e⟩, rfl⟩
  · exact ⟨s.mem, rfl, trivial, fun _ _ => rfl⟩
  · rw [List.concat_eq_append] at *
    rw [LinkedList.addrs_append, List.nodup_append] at hnd
    have hb : b ∉ addrs l1 := fun hmem => hnd.2.2 b hmem b (by simp) rfl
    have hsame : Function.update s.heads head (first (l1 ++ [(b, e)]) n) = s.heads := by
      refine Function.update_eq_self_iff.mpr ?_
      rw [hhead]
      cases l1 <;> rfl
    refine ⟨_, ?_, hseg.setNext hb n, fun c hc => ?_⟩
    · rw [hsame, LinkedList.last_append]
      exact setNext_eq hseg.lastNode n
    · have hne : c ≠ b := by
        rintro rfl
        exact hc (by simp)
      exact Function.update_of_ne hne _ _

/-- So is the link behind it. -/
theorem unlink_back (hseg : Segment s.mem (some a) l2 none) (hnd : (addrs l2).Nodup)
    (p : Option Nat) :
    ∃ m, (match first l2 none with
        | some q => s.setPrev q p
        | none => some s) = some { s with mem := m } ∧
      Segment m p l2 none ∧ ∀ b, b ∉ addrs l2 → m b = s.mem b := by
  cases l2 with
  | nil => exact ⟨s.mem, rfl, trivial, fun _ _ => rfl⟩
  | cons c l2 =>
    obtain ⟨q, e⟩ := c
    refine ⟨_, setPrev_eq hseg.1 p, hseg.setPrev (List.nodup_cons.mp hnd).1 p, fun b hb => ?_⟩
    have hne : b ≠ q := by
      rintro rfl
      exact hb List.mem_cons_self
    exact Function.update_of_ne hne _ _

/-- **`removeNode` on a list**: head, middle, tail or only node. -/
theorem removeNode_segment (hhead : s.heads head = first (l1 ++ (a, d) :: l2) none)
    (hseg : Segment s.mem none (l1 ++ (a, d) :: l2) none)
    (hnd : (addrs (l1 ++ (a, d) :: l2)).Nodup) :
    ∃ m, s.removeNode head a
        = some { mem := m, heads := Function.update s.heads head (first (l1 ++ l2) none) } ∧
      Segment m none (l1 ++ l2) none ∧ m a = some { next := none, prev := none, data := d } ∧
      ∀ b, b ∉ addrs (l1 ++ (a, d) :: l2) → m b = s.mem b := by
  have hnode := hseg.node
  obtain ⟨hseg1, -, hseg2⟩ := LinkedList.segment_append.mp hseg
  rw [LinkedList.addrs_append, LinkedList.addrs_cons, List.nodup_append, List.nodup_cons] at hnd
  obtain ⟨hnd1, ⟨ha2, hnd2⟩, hapart⟩ := hnd
  have ha1 : a ∉ addrs l1 := fun h => hapart a h a List.mem_cons_self rfl
  obtain ⟨m1, h1, hfront, hframe1⟩ := unlink_front hhead hseg1 hnd1 (first l2 none)
  have hnode1 : m1 a = _ := (hframe1 a ha1).trans hnode
  have hseg2' : Segment m1 (some a) l2 none := hseg2.frame fun b hb =>
    hframe1 b fun h => hapart b h b (List.mem_cons_of_mem _ hb) rfl
  obtain ⟨m2, h2, hback, hframe2⟩ :=
    unlink_back (s := ⟨m1, Function.update s.heads head (first l1 (first l2 none))⟩) hseg2' hnd2
      (last none l1)
  have hnode2 : m2 a = _ := (hframe2 a ha2).trans hnode1
  have hfront' : Segment m2 none l1 (first l2 none) := hfront.frame fun b hb =>
    hframe2 b fun h => hapart b hb b (List.mem_cons_of_mem _ h) rfl
  have hseg' : Segment m2 none (l1 ++ l2) none :=
    LinkedList.segment_append.mpr ⟨hfront', hback⟩
  have ha12 : a ∉ addrs (l1 ++ l2) := by simp [ha1, ha2]
  refine ⟨_, ?_, hseg'.update ha12 _, Function.update_self _ _ _, fun b hb => ?_⟩
  · simp only [removeNode, hnode, Option.bind_eq_bind, Option.bind_some, h1, hnode1, h2]
    rw [setNext_eq hnode2, Option.bind_some, setPrev_eq (Function.update_self _ _ _),
      Function.update_idem, LinkedList.first_append]
  · rw [LinkedList.addrs_append, LinkedList.addrs_cons, List.mem_append, List.mem_cons] at hb
    obtain ⟨hb1, hb⟩ := not_or.mp hb
    obtain ⟨hne, hb2⟩ := not_or.mp hb
    rw [Function.update_of_ne hne]
    exact (hframe2 b hb2).trans (hframe1 b hb1)

/-- The loop of `append` ends at the last node. -/
theorem lastNode_path {fuel : Nat} (h : LinkedList.Path s.mem (some a) ((a, d) :: l))
    (hfuel : l.length < fuel) : s.lastNode fuel a = last (some a) l := by
  induction l generalizing a d fuel with
  | nil =>
    obtain ⟨fuel, rfl⟩ : ∃ k, fuel = k + 1 := ⟨fuel - 1, by simp at hfuel; omega⟩
    obtain ⟨-, nd, hnd, -, hnext⟩ := h
    simp only [lastNode, hnd, Option.bind_eq_bind, Option.bind_some, hnext.head_eq]
    rfl
  | cons c l ih =>
    obtain ⟨fuel, rfl⟩ : ∃ k, fuel = k + 1 := ⟨fuel - 1, by simp at hfuel; omega⟩
    obtain ⟨-, nd, hnd, -, hnext⟩ := h
    obtain ⟨b, e⟩ := c
    have hb : nd.next = some b := hnext.1
    rw [hb] at hnext
    simp only [lastNode, hnd, Option.bind_eq_bind, Option.bind_some, hb]
    exact ih hnext (by simp at hfuel; omega)

theorem lastNode_segment {b : Nat} {e : Order} {fuel : Nat}
    (h : Segment s.mem none (l ++ [(b, e)]) none) (hfuel : (l ++ [(b, e)]).length < fuel) :
    ∃ c, first (l ++ [(b, e)]) none = some c ∧ s.lastNode fuel c = some b := by
  obtain ⟨c, x, l', hl⟩ : ∃ c x l', l ++ [(b, e)] = (c, x) :: l' := by
    cases l <;> exact ⟨_, _, _, rfl⟩
  have hlast : last none (l ++ [(b, e)]) = some b := LinkedList.last_append none l [(b, e)]
  rw [hl] at h hfuel hlast ⊢
  rw [List.length_cons] at hfuel
  exact ⟨c, rfl, (lastNode_path h.path (by omega)).trans hlast⟩

/-- **`append` on a list.** -/
theorem append_segment {fuel ord : Nat} {nd : Node Nat Order}
    (hhead : s.heads head = first l none) (hseg : Segment s.mem none l none)
    (hnd : (addrs l).Nodup) (hord : s.mem ord = some nd) (hfresh : ord ∉ addrs l)
    (hfuel : l.length < fuel) :
    ∃ m, s.append fuel head ord
        = some { mem := m
                 heads := Function.update s.heads head (first (l ++ [(ord, nd.data)]) none) } ∧
      Segment m none (l ++ [(ord, nd.data)]) none ∧
      ∀ b, b ≠ ord → b ∉ addrs l → m b = s.mem b := by
  have hclear : (s.setNext ord none).bind (fun s => s.setPrev ord none) = some { s with
      mem := Function.update s.mem ord
        (some { next := none, prev := none, data := nd.data }) } := by
    rw [setNext_eq hord, Option.bind_some, setPrev_eq (Function.update_self _ _ _),
      Function.update_idem]
  have hseg1 := hseg.update hfresh (some { next := none, prev := none, data := nd.data })
  simp only [append, Option.bind_eq_bind, ← Option.bind_assoc, hclear, Option.bind_some]
  rcases List.eq_nil_or_concat l with rfl | ⟨l, ⟨b, e⟩, rfl⟩
  · refine ⟨Function.update s.mem ord _, ?_, ⟨Function.update_self _ _ _, trivial⟩,
      fun b hb _ => Function.update_of_ne hb _ _⟩
    rw [hhead]
    rfl
  · rw [List.concat_eq_append] at *
    have hnode : Heap.mem { s with mem := Function.update s.mem ord _ } b = _ := hseg1.lastNode
    have hb : b ∉ addrs l := by
      rw [LinkedList.addrs_append, List.nodup_append] at hnd
      exact fun hmem => hnd.2.2 b hmem b (by simp) rfl
    have hne : ord ≠ b := by
      rintro rfl
      exact hfresh (by simp)
    have hlast : last none (l ++ [(b, e)]) = some b := LinkedList.last_append none l [(b, e)]
    have hseg2 := (hseg1.setNext hb (some ord)).update hfresh
      (some { next := none, prev := some b, data := nd.data })
    refine ⟨_, ?_, LinkedList.segment_append.mpr ⟨hseg2, ?_, trivial⟩, fun c hc hmem => ?_⟩
    · obtain ⟨c, hfirst, hwalk⟩ := lastNode_segment
        (s := { s with mem := Function.update s.mem ord _ }) hseg1 hfuel
      have hsame : Function.update s.heads head
          (first (l ++ [(b, e)] ++ [(ord, nd.data)]) none) = s.heads := by
        rw [LinkedList.first_append, Function.update_eq_self_iff, hhead]
        cases l <;> rfl
      simp only [hhead, hfirst, hwalk, Option.bind_some, setNext_eq hnode]
      rw [hsame]
      refine setPrev_eq (p := none) ?_ _
      exact (Function.update_of_ne hne _ _).trans (Function.update_self _ _ _)
    · rw [hlast]
      exact Function.update_self _ _ _
    · have hcb : c ≠ b := by
        rintro rfl
        exact hmem (by simp)
      rw [Function.update_of_ne hc, Function.update_of_ne hcb, Function.update_of_ne hc]

end OneList

/-! ## 5. The four lists -/

/-- **Well-formed lists**: each is acyclic from its head with `prev` the inverse of `next`, and
no node is in two. -/
structure WellFormed (s : Heap) (ls : ListHead → Cells) : Prop where
  linked : ∀ head, Linked s.mem (s.heads head) (ls head)
  apart : ∀ head head', head' ≠ head → ∀ a ∈ addrs (ls head'), a ∉ addrs (ls head)

section FourLists

variable {s : Heap} {ls : ListHead → Cells} {head : ListHead} {l1 l2 : Cells} {a : Nat} {d : Order}

theorem WellFormed.node (h : WellFormed s ls) (hl : ls head = l1 ++ (a, d) :: l2) :
    s.mem a = some { next := first l2 none, prev := last none l1, data := d } := by
  obtain ⟨-, hseg⟩ := LinkedList.linked_iff.mp (h.linked head)
  rw [hl] at hseg
  exact hseg.node

theorem WellFormed.allocated (h : WellFormed s ls) (ha : a ∈ addrs (ls head)) :
    (s.mem a).isSome = true := by
  obtain ⟨d, hd⟩ := LinkedList.mem_addrs.mp ha
  obtain ⟨l1, l2, hl⟩ := List.append_of_mem hd
  rw [h.node hl]
  rfl

/-- One list is replaced, of nodes that are in no other, and those of the others are as before. -/
theorem WellFormed.replace {m : Memory Nat Order} {l : Cells} (h : WellFormed s ls)
    (head : ListHead) (hseg : Segment m none l none)
    (hframe : ∀ head', head' ≠ head → ∀ b ∈ addrs (ls head'), m b = s.mem b)
    (hapart : ∀ head', head' ≠ head → ∀ b ∈ addrs (ls head'), b ∉ addrs l) :
    WellFormed { mem := m, heads := Function.update s.heads head (first l none) }
      (Function.update ls head l) := by
  constructor
  · intro head'
    by_cases hne : head' = head
    · subst hne
      simp only [Function.update_self]
      exact LinkedList.linked_iff.mpr ⟨rfl, hseg⟩
    · simp only [Function.update_of_ne hne]
      exact (h.linked head').frame (hframe head' hne)
  · intro h1 h2 hne b hb
    by_cases he1 : h1 = head
    · subst he1
      rw [Function.update_of_ne hne] at hb
      rw [Function.update_self]
      exact hapart h2 hne b hb
    · rw [Function.update_of_ne he1]
      by_cases he2 : h2 = head
      · subst he2
        rw [Function.update_self] at hb
        exact fun hmem => hapart h1 he1 b hmem hb
      · rw [Function.update_of_ne he2] at hb
        exact h.apart h1 h2 hne b hb

/-- **`append` keeps the lists well formed**: the node is the last one of its list, and the nodes
of the others are not touched. -/
theorem append_wellFormed {fuel ord : Nat} {nd : Node Nat Order} (h : WellFormed s ls)
    (hord : s.mem ord = some nd) (hfresh : ∀ head, ord ∉ addrs (ls head))
    (hfuel : (ls head).length < fuel) :
    ∃ s', s.append fuel head ord = some s' ∧
      WellFormed s' (Function.update ls head (ls head ++ [(ord, nd.data)])) ∧
      ∀ b, b ≠ ord → b ∉ addrs (ls head) → s'.mem b = s.mem b := by
  obtain ⟨hhead, hseg⟩ := LinkedList.linked_iff.mp (h.linked head)
  obtain ⟨m, hrun, hseg', hframe⟩ :=
    append_segment hhead hseg (h.linked head).nodup hord (hfresh head) hfuel
  refine ⟨_, hrun, h.replace head hseg' ?_ ?_, hframe⟩
  · intro head' hne b hb
    have hbord : b ≠ ord := by
      rintro rfl
      exact hfresh head' hb
    exact hframe b hbord (h.apart head head' hne b hb)
  · intro head' hne b hb hmem
    rw [LinkedList.addrs_append, List.mem_append] at hmem
    rcases hmem with hmem | hmem
    · exact h.apart head head' hne b hb hmem
    · obtain rfl : b = ord := List.mem_singleton.mp hmem
      exact hfresh head' hb

/-- **`removeNode` keeps the lists well formed**: the node is taken out of its list, wherever it
is, and the nodes of the others are not touched. -/
theorem removeNode_wellFormed (h : WellFormed s ls) (hl : ls head = l1 ++ (a, d) :: l2) :
    ∃ s', s.removeNode head a = some s' ∧
      WellFormed s' (Function.update ls head (l1 ++ l2)) ∧
      s'.mem a = some { next := none, prev := none, data := d } ∧
      ∀ b, b ∉ addrs (ls head) → s'.mem b = s.mem b := by
  obtain ⟨hhead, hseg⟩ := LinkedList.linked_iff.mp (h.linked head)
  have hnd := (h.linked head).nodup
  have hapart := h.apart head
  rw [hl] at hhead hseg hnd hapart ⊢
  obtain ⟨m, hrun, hseg', hnode, hframe⟩ := removeNode_segment hhead hseg hnd
  refine ⟨_, hrun, h.replace head hseg' ?_ ?_, hnode, hframe⟩
  · exact fun head' hne b hb => hframe b (hapart head' hne b hb)
  · intro head' hne b hb hmem
    refine hapart head' hne b hb ?_
    rw [LinkedList.addrs_append, List.mem_append] at hmem ⊢
    exact hmem.imp_right (List.mem_cons_of_mem _)

/-- A write to the data of one node of a list. -/
theorem setData_wellFormed (h : WellFormed s ls) (hl : ls head = l1 ++ (a, d) :: l2)
    (f : Order → Order) :
    ∃ s', s.setData a f = some s' ∧
      WellFormed s' (Function.update ls head (l1 ++ (a, f d) :: l2)) ∧
      ∀ b, b ≠ a → s'.mem b = s.mem b := by
  have hnode := h.node hl
  obtain ⟨hhead, hseg⟩ := LinkedList.linked_iff.mp (h.linked head)
  have hnd := (h.linked head).nodup
  have hapart := h.apart head
  rw [hl] at hhead hseg hnd hapart
  rw [LinkedList.addrs_append, LinkedList.addrs_cons, List.nodup_append, List.nodup_cons] at hnd
  have ha1 : a ∉ addrs l1 := fun hmem => hnd.2.2 a hmem a List.mem_cons_self rfl
  have hw := h.replace head (hseg.setData ha1 hnd.2.1.1 (f d)) (fun head' hne b hb => ?_) ?_
  · have hsame : Function.update s.heads head (first (l1 ++ (a, f d) :: l2) none) = s.heads := by
      rw [Function.update_eq_self_iff, hhead]
      cases l1 <;> rfl
    rw [hsame] at hw
    exact ⟨_, setData_eq hnode f, hw, fun b hb => Function.update_of_ne hb _ _⟩
  · have hne : b ≠ a := by
      rintro rfl
      exact hapart head' hne b hb (by simp)
    exact Function.update_of_ne hne _ _
  · intro head' hne b hb hmem
    refine hapart head' hne b hb ?_
    rw [LinkedList.addrs_append] at hmem ⊢
    exact hmem

/-- A change of memory beside the lists. -/
theorem WellFormed.frame {m : Memory Nat Order} (h : WellFormed s ls)
    (hm : ∀ head, ∀ b ∈ addrs (ls head), m b = s.mem b) : WellFormed { s with mem := m } ls :=
  ⟨fun head => (h.linked head).frame (hm head), h.apart⟩

end FourLists

/-! ## 6. What is allocated -/

/-- The allocated nodes are those of the four lists and the loose ones. -/
structure Holds (s : Heap) (ls : ListHead → Cells) (loose : List Nat) : Prop
    extends WellFormed s ls where
  loose_alloc : ∀ a ∈ loose, (s.mem a).isSome = true
  loose_apart : ∀ a ∈ loose, ∀ head, a ∉ addrs (ls head)
  only : ∀ a, (s.mem a).isSome = true → a ∈ loose ∨ ∃ head, a ∈ addrs (ls head)

section Allocated

variable {s s' : Heap} {ls : ListHead → Cells} {head : ListHead} {loose loose' : List Nat}
  {l l1 l2 : Cells} {a : Nat} {d : Order}

/-- Nodes change between one list and the loose ones. -/
theorem Holds.exchange (h : Holds s ls loose) (hw : WellFormed s' (Function.update ls head l))
    (halloc : ∀ b, (s'.mem b).isSome = (s.mem b).isSome)
    (hmem : ∀ b, b ∈ loose' ∨ b ∈ addrs l ↔ b ∈ loose ∨ b ∈ addrs (ls head))
    (hapart : ∀ b ∈ loose', b ∉ addrs l) : Holds s' (Function.update ls head l) loose' := by
  refine ⟨hw, ?_, ?_, ?_⟩
  · intro b hb
    rw [halloc]
    exact ((hmem b).mp (.inl hb)).elim (h.loose_alloc b) h.allocated
  · intro b hb head'
    by_cases hne : head' = head
    · subst hne
      rw [Function.update_self]
      exact hapart b hb
    · rw [Function.update_of_ne hne]
      rcases (hmem b).mp (.inl hb) with hb | hb
      · exact h.loose_apart b hb head'
      · exact h.apart head' head (Ne.symm hne) b hb
  · intro b hb
    rw [halloc] at hb
    have hin : b ∈ loose ∨ b ∈ addrs (ls head) → b ∈ loose' ∨ ∃ head', b ∈ addrs
        (Function.update ls head l head') := fun hb =>
      ((hmem b).mpr hb).imp_right fun hb => ⟨head, by rwa [Function.update_self]⟩
    rcases h.only b hb with hb | ⟨head', hb⟩
    · exact hin (.inl hb)
    · by_cases hne : head' = head
      · subst hne
        exact hin (.inr hb)
      · exact .inr ⟨head', by rwa [Function.update_of_ne hne]⟩

theorem removeNode_holds (h : Holds s ls loose) (hl : ls head = l1 ++ (a, d) :: l2) :
    ∃ s', s.removeNode head a = some s' ∧
      Holds s' (Function.update ls head (l1 ++ l2)) (a :: loose) ∧
      ∀ b, b ∉ addrs (ls head) → s'.mem b = s.mem b := by
  obtain ⟨s', hrun, hw, hnode, hframe⟩ := removeNode_wellFormed h.toWellFormed hl
  have hnd := (h.linked head).nodup
  rw [hl, LinkedList.addrs_append, LinkedList.addrs_cons, List.nodup_middle, List.nodup_cons,
    List.mem_append] at hnd
  have haddrs : ∀ b, b ∈ addrs (ls head) ↔ b = a ∨ b ∈ addrs (l1 ++ l2) := by
    intro b
    rw [hl]
    simp only [LinkedList.addrs_append, LinkedList.addrs_cons, List.mem_append, List.mem_cons]
    tauto
  refine ⟨s', hrun, h.exchange hw (fun b => ?_) (fun b => ?_) ?_, hframe⟩
  · by_cases hb : b ∈ addrs (ls head)
    · rw [h.allocated hb]
      rcases (haddrs b).mp hb with rfl | hb
      · rw [hnode]
        rfl
      · rw [← Function.update_self head (l1 ++ l2) ls] at hb
        exact hw.allocated hb
    · rw [hframe b hb]
  · rw [haddrs, List.mem_cons]
    tauto
  · intro b hb hmem
    rcases List.mem_cons.mp hb with rfl | hb
    · rw [LinkedList.addrs_append, List.mem_append] at hmem
      exact hnd.1 hmem
    · exact h.loose_apart b hb head ((haddrs b).mpr (.inr hmem))

theorem append_holds {fuel : Nat} {nd : Node Nat Order} (h : Holds s ls (a :: loose))
    (ha : s.mem a = some nd) (hloose : a ∉ loose) (hfuel : (ls head).length < fuel) :
    ∃ s', s.append fuel head a = some s' ∧
      Holds s' (Function.update ls head (ls head ++ [(a, nd.data)])) loose := by
  have hfresh := h.loose_apart a List.mem_cons_self
  obtain ⟨s', hrun, hw, hframe⟩ := append_wellFormed h.toWellFormed ha hfresh hfuel
  have haddrs : ∀ b, b ∈ addrs (ls head ++ [(a, nd.data)]) ↔ b ∈ addrs (ls head) ∨ b = a := by
    intro b
    simp
  refine ⟨s', hrun, h.exchange hw (fun b => ?_) (fun b => ?_) ?_⟩
  · by_cases hb : b ∈ addrs (ls head ++ [(a, nd.data)])
    · rcases (haddrs b).mp hb with hold | rfl
      · rw [← Function.update_self head (ls head ++ [(a, nd.data)]) ls] at hb
        rw [hw.allocated hb, h.allocated hold]
      · rw [← Function.update_self head (ls head ++ [(b, nd.data)]) ls] at hb
        rw [hw.allocated hb, ha]
        rfl
    · rw [haddrs, not_or] at hb
      rw [hframe b hb.2 hb.1]
  · rw [haddrs, List.mem_cons]
    tauto
  · intro b hb hmem
    rcases (haddrs b).mp hmem with hmem | rfl
    · exact h.loose_apart b (List.mem_cons_of_mem _ hb) head hmem
    · exact hloose hb

theorem setData_holds (h : Holds s ls loose) (hl : ls head = l1 ++ (a, d) :: l2)
    (f : Order → Order) :
    ∃ s', s.setData a f = some s' ∧
      Holds s' (Function.update ls head (l1 ++ (a, f d) :: l2)) loose ∧
      ∀ b, b ≠ a → s'.mem b = s.mem b := by
  obtain ⟨s', hrun, hw, hframe⟩ := setData_wellFormed h.toWellFormed hl f
  have haddrs : addrs (l1 ++ (a, f d) :: l2) = addrs (ls head) := by
    rw [hl, LinkedList.addrs_append, LinkedList.addrs_append]
    rfl
  refine ⟨s', hrun, h.exchange hw (fun b => ?_) (fun b => by rw [haddrs]) ?_, hframe⟩
  · by_cases hb : b ∈ addrs (ls head)
    · rw [h.allocated hb]
      rw [← haddrs, ← Function.update_self head (l1 ++ (a, f d) :: l2) ls] at hb
      exact hw.allocated hb
    · rw [hframe b]
      rintro rfl
      exact hb (by rw [hl]; simp)
  · rw [haddrs]
    exact fun b hb => h.loose_apart b hb head

/-- A write to the data of a loose node. -/
theorem setData_loose {nd : Node Nat Order} (h : Holds s ls loose) (ha : a ∈ loose)
    (hnode : s.mem a = some nd) (f : Order → Order) :
    ∃ s', s.setData a f = some s' ∧ Holds s' ls loose ∧
      s'.mem a = some { nd with data := f nd.data } ∧ ∀ b, b ≠ a → s'.mem b = s.mem b := by
  have hframe : ∀ x b, b ≠ a → Function.update s.mem a x b = s.mem b :=
    fun x b hb => Function.update_of_ne hb x s.mem
  have halloc : ∀ b, (Function.update s.mem a
      (some { nd with data := f nd.data }) b).isSome = (s.mem b).isSome := by
    intro b
    by_cases hb : b = a
    · rw [hb, Function.update_self, hnode]
      rfl
    · rw [hframe _ b hb]
  refine ⟨_, setData_eq hnode f, ⟨h.toWellFormed.frame fun head b hb => ?_, fun b hb => ?_,
    h.loose_apart, fun b hb => ?_⟩, Function.update_self _ _ _, hframe _⟩
  · have hne : b ≠ a := by
      rintro rfl
      exact h.loose_apart b ha head hb
    exact hframe _ b hne
  · exact (halloc b).trans (h.loose_alloc b hb)
  · exact h.only b ((halloc b).symm.trans hb)

theorem free_holds (h : Holds s ls (a :: loose)) (hloose : a ∉ loose) :
    ∃ s', s.free a = some s' ∧ Holds s' ls loose ∧ ∀ b, b ≠ a → s'.mem b = s.mem b := by
  obtain ⟨nd, hnode⟩ := Option.isSome_iff_exists.mp (h.loose_alloc a List.mem_cons_self)
  have hframe : ∀ b, b ≠ a → Function.update s.mem a none b = s.mem b :=
    fun b hb => Function.update_of_ne hb _ s.mem
  refine ⟨_, free_eq hnode, ⟨h.toWellFormed.frame fun head b hb => ?_, fun b hb => ?_,
    fun b hb => h.loose_apart b (List.mem_cons_of_mem _ hb), fun b hb => ?_⟩, hframe⟩
  · have hne : b ≠ a := by
      rintro rfl
      exact h.loose_apart b List.mem_cons_self head hb
    exact hframe b hne
  · simp only [hframe b (ne_of_mem_of_not_mem hb hloose)]
    exact h.loose_alloc b (List.mem_cons_of_mem _ hb)
  · by_cases hne : b = a
    · subst hne
      simp only [Function.update_self] at hb
      cases hb
    · simp only [hframe b hne] at hb
      exact (h.only b hb).imp_left fun hb => (List.mem_cons.mp hb).resolve_left hne

theorem calloc_holds (h : Holds s ls loose) (ha : s.mem a = none) :
    Holds (s.calloc a d) ls (a :: loose) := by
  have hfree : ∀ b, (s.mem b).isSome = true → b ≠ a := by
    rintro b hb rfl
    rw [ha] at hb
    cases hb
  have hframe : ∀ b, b ≠ a → (s.calloc a d).mem b = s.mem b :=
    fun b hb => Function.update_of_ne hb _ s.mem
  refine ⟨h.toWellFormed.frame fun head b hb => hframe b (hfree b (h.allocated hb)),
    fun b hb => ?_, fun b hb head hmem => ?_, fun b hb => ?_⟩
  · rcases List.mem_cons.mp hb with rfl | hb
    · simp [calloc]
    · rw [hframe b (hfree b (h.loose_alloc b hb))]
      exact h.loose_alloc b hb
  · rcases List.mem_cons.mp hb with rfl | hb
    · exact hfree b (h.allocated hmem) rfl
    · exact h.loose_apart b hb head hmem
  · by_cases hne : b = a
    · exact .inl (List.mem_cons.mpr (.inl hne))
    · rw [hframe b hne] at hb
      exact (h.only b hb).imp_left (List.mem_cons_of_mem _)

/-- **A node is taken out and freed.** -/
theorem unlink_holds (h : Holds s ls loose) (hl : ls head = l1 ++ (a, d) :: l2) :
    ∃ s1 s2, s.removeNode head a = some s1 ∧ s1.free a = some s2 ∧
      Holds s2 (Function.update ls head (l1 ++ l2)) loose ∧
      ∀ b ∈ loose, s2.mem b = s.mem b := by
  have ha : a ∈ addrs (ls head) := by
    rw [hl]
    simp
  have hloose : a ∉ loose := fun hmem => h.loose_apart a hmem head ha
  obtain ⟨s1, hrun1, h1, hframe1⟩ := removeNode_holds h hl
  obtain ⟨s2, hrun2, h2, hframe2⟩ := free_holds h1 hloose
  refine ⟨s1, s2, hrun1, hrun2, h2, fun b hb => ?_⟩
  rw [hframe2 b (ne_of_mem_of_not_mem hb hloose), hframe1 b (h.loose_apart b hb head)]

/-- The two writes of an execution. -/
theorem trade_holds {ord : Nat} {nd : Node Nat Order} (h : Holds s ls [ord])
    (hl : ls head = l1 ++ (a, d) :: l2) (hord : s.mem ord = some nd) (f g : Order → Order) :
    ∃ s1 s2, s.setData a f = some s1 ∧ s1.setData ord g = some s2 ∧
      Holds s2 (Function.update ls head (l1 ++ (a, f d) :: l2)) [ord] ∧
      s2.mem ord = some { nd with data := g nd.data } := by
  have hne : ord ≠ a := by
    rintro rfl
    exact h.loose_apart ord List.mem_cons_self head (by rw [hl]; simp)
  obtain ⟨s1, hrun1, h1, hframe⟩ := setData_holds h hl f
  obtain ⟨s2, hrun2, h2, hord2, -⟩ :=
    setData_loose h1 List.mem_cons_self ((hframe ord hne).trans hord) g
  exact ⟨s1, s2, hrun1, hrun2, h2, hord2⟩

end Allocated

/-! ## 7. The loops -/

section Loops

variable {s : Heap} {ls : ListHead → Cells} {loose : List Nat} {l1 l2 : Cells}

/-- **The loop of `addOrder`** is `walk`, from any node of the list on: it ends, reads and writes
only nodes that are allocated, and goes on from the node behind the one it has freed. -/
theorem addLoop_walk {opp : ListHead} {ord fuel : Nat} {nd : Node Nat Order} {w : Walk}
    (h : Holds s ls [ord]) (hl : ls opp = l1 ++ l2) (hord : s.mem ord = some nd)
    (hw : nd.data = w.ord) (hfuel : l2.length < fuel) :
    ∃ s' l2' nd', addLoop opp ord fuel (first l2 none) (s, w)
        = some (s', (walk (l2.map Prod.snd) w).2) ∧
      Holds s' (Function.update ls opp (l1 ++ l2')) [ord] ∧
      l2'.map Prod.snd = (walk (l2.map Prod.snd) w).1 ∧
      s'.mem ord = some nd' ∧ nd'.data = (walk (l2.map Prod.snd) w).2.ord := by
  induction l2 generalizing s ls l1 nd w fuel with
  | nil =>
    obtain ⟨fuel, rfl⟩ := Nat.exists_eq_add_one_of_ne_zero (Nat.ne_zero_of_lt hfuel)
    refine ⟨s, [], nd, rfl, ?_, rfl, hord, hw⟩
    rw [← hl, Function.update_eq_self]
    exact h
  | cons c l2 ih =>
    obtain ⟨fuel, rfl⟩ := Nat.exists_eq_add_one_of_ne_zero (Nat.ne_zero_of_lt hfuel)
    obtain ⟨cur, d⟩ := c
    have hcur := h.node hl
    have hfuel' : l2.length < fuel := by
      rw [List.length_cons] at hfuel
      omega
    -- what the rest of the loop does when this node stays, as it is or with less quantity
    have hstay : ∀ (d1 : Order) (w1 : Walk) {s1 : Heap} {nd1 : Node Nat Order},
        Holds s1 (Function.update ls opp (l1 ++ (cur, d1) :: l2)) [ord] →
        s1.mem ord = some nd1 → nd1.data = w1.ord →
        ∃ s' l2' nd', addLoop opp ord fuel (first l2 none) (s1, w1)
            = some (s', (walk (l2.map Prod.snd) w1).2) ∧
          Holds s' (Function.update ls opp (l1 ++ (cur, d1) :: l2')) [ord] ∧
          l2'.map Prod.snd = (walk (l2.map Prod.snd) w1).1 ∧
          s'.mem ord = some nd' ∧ nd'.data = (walk (l2.map Prod.snd) w1).2.ord := by
      intro d1 w1 s1 nd1 h1 hord1 hw1
      have hl1 : Function.update ls opp (l1 ++ (cur, d1) :: l2) opp
          = (l1 ++ [(cur, d1)]) ++ l2 := by
        rw [Function.update_self, List.append_assoc]
        rfl
      obtain ⟨s', l2', nd', hrun, h', hl2, hnd⟩ := ih h1 hl1 hord1 hw1 hfuel'
      rw [Function.update_idem, List.append_assoc] at h'
      exact ⟨s', l2', nd', hrun, h', hl2, hnd⟩
    rw [List.map_cons, walk]
    simp only [addLoop, first, Option.bind_eq_bind, hord, hcur, Option.bind_some, hw]
    by_cases hq : 0 < w.ord.quantity
    · by_cases hp : d.price = w.ord.price
      · obtain ⟨s1, s2, hrun1, hrun2, h2, hord2⟩ := trade_holds h hl hord
          (fun x => { x with quantity := x.quantity - tradeQuantity w.ord d })
          (fun x => { x with quantity := x.quantity - tradeQuantity w.ord d })
        have hcur2 := h2.node (Function.update_self ..)
        have hexec : { w.ord with quantity := w.ord.quantity - tradeQuantity w.ord d }
            = (execute d w).ord := by
          rw [execute_ord, tradeQuantity_eq_min]
        rw [hw] at hord2
        simp only [if_pos hq, if_pos hp, hrun1, hrun2, hord2, hcur2, Option.bind_some]
        by_cases hz : d.quantity - tradeQuantity w.ord d = 0
        · obtain ⟨s3, s4, hrun3, hrun4, h4, hframe⟩ :=
            unlink_holds h2 (Function.update_self ..)
          rw [Function.update_idem] at h4
          have hord4 := (hframe ord List.mem_cons_self).trans hord2
          simp only [if_pos hz, hrun3, hrun4, Option.bind_some]
          obtain ⟨s', l2', nd', hrun, h', hl2, hnd⟩ := ih (w := execute d w) h4
            (Function.update_self ..) hord4 hexec hfuel'
          rw [Function.update_idem] at h'
          exact ⟨s', l2', nd', hrun, h', hl2, hnd⟩
        · simp only [if_neg hz]
          obtain ⟨s', l2', nd', hrun, h', hl2, hnd⟩ :=
            hstay _ (execute d w) h2 hord2 hexec
          exact ⟨s', _ :: l2', nd', hrun, h', congrArg (_ :: ·) hl2, hnd⟩
      · simp only [if_pos hq, if_neg hp]
        obtain ⟨s', l2', nd', hrun, h', hl2, hnd⟩ := hstay d w
          (by rwa [← hl, Function.update_eq_self]) hord hw
        exact ⟨s', (cur, d) :: l2', nd', hrun, h', congrArg (d :: ·) hl2, hnd⟩
    · simp only [if_neg hq]
      refine ⟨s, (cur, d) :: l2, nd, rfl, ?_, rfl, hord, hw⟩
      rwa [← hl, Function.update_eq_self]

theorem detachIn_list {head : ListHead} {clientFd : Int} {fuel : Nat} (h : Holds s ls loose)
    (hl : ls head = l1 ++ l2) (hfuel : l2.length < fuel) :
    ∃ s' l2', detachIn clientFd fuel (first l2 none) s = some s' ∧
      Holds s' (Function.update ls head (l1 ++ l2')) loose ∧
      l2'.map Prod.snd = SocketExchange.detachIn (l2.map Prod.snd) clientFd := by
  induction l2 generalizing s ls l1 fuel with
  | nil =>
    obtain ⟨fuel, rfl⟩ := Nat.exists_eq_add_one_of_ne_zero (Nat.ne_zero_of_lt hfuel)
    refine ⟨s, [], rfl, ?_, rfl⟩
    rw [← hl, Function.update_eq_self]
    exact h
  | cons c l2 ih =>
    obtain ⟨fuel, rfl⟩ := Nat.exists_eq_add_one_of_ne_zero (Nat.ne_zero_of_lt hfuel)
    obtain ⟨cur, d⟩ := c
    rw [List.length_cons] at hfuel
    have hcur := h.node hl
    have hbody : ∃ s1, (if d.clientFd = clientFd then
          s.setData cur fun x => { x with clientFd := -1 } else some s) = some s1 ∧
        Holds s1 (Function.update ls head (l1 ++ (cur, detach clientFd d) :: l2)) loose := by
      by_cases hfd : d.clientFd = clientFd
      · obtain ⟨s1, hrun, h1, -⟩ := setData_holds h hl fun x => { x with clientFd := -1 }
        rw [detach, if_pos hfd, if_pos hfd]
        exact ⟨s1, hrun, h1⟩
      · rw [detach, if_neg hfd, if_neg hfd, ← hl, Function.update_eq_self]
        exact ⟨s, rfl, h⟩
    obtain ⟨s1, hrun1, h1⟩ := hbody
    have hcur1 := h1.node (Function.update_self ..)
    have hl1 : Function.update ls head (l1 ++ (cur, detach clientFd d) :: l2) head
        = (l1 ++ [(cur, detach clientFd d)]) ++ l2 := by
      rw [Function.update_self, List.append_assoc]
      rfl
    obtain ⟨s', l2', hrun, h', hl2⟩ := ih h1 hl1 (Nat.lt_of_succ_lt_succ hfuel)
    rw [Function.update_idem, List.append_assoc] at h'
    refine ⟨s', (cur, detach clientFd d) :: l2', ?_, h', congrArg (_ :: ·) hl2⟩
    simp only [detachIn, first, Option.bind_eq_bind, hcur, Option.bind_some, hrun1, hcur1]
    exact hrun

/-- A search that finds nothing leaves everything as it is. -/
theorem cancelIn_list {head : ListHead} {fuel : Nat} (id clientFd : Int) (h : Holds s ls loose)
    (hl : ls head = l1 ++ l2) (hfuel : l2.length < fuel) :
    (SocketExchange.cancelIn (l2.map Prod.snd) id clientFd = none ∧
      cancelIn head id clientFd fuel (first l2 none) s = some (false, s)) ∨
    ∃ r s' l2', SocketExchange.cancelIn (l2.map Prod.snd) id clientFd = some r ∧
      cancelIn head id clientFd fuel (first l2 none) s = some (true, s') ∧
      Holds s' (Function.update ls head (l1 ++ l2')) loose ∧ l2'.map Prod.snd = r.2 := by
  induction l2 generalizing l1 fuel with
  | nil =>
    obtain ⟨fuel, rfl⟩ := Nat.exists_eq_add_one_of_ne_zero (Nat.ne_zero_of_lt hfuel)
    exact .inl ⟨rfl, rfl⟩
  | cons c l2 ih =>
    obtain ⟨fuel, rfl⟩ := Nat.exists_eq_add_one_of_ne_zero (Nat.ne_zero_of_lt hfuel)
    obtain ⟨cur, d⟩ := c
    rw [List.length_cons] at hfuel
    have hcur := h.node hl
    rw [List.map_cons, SocketExchange.cancelIn]
    simp only [cancelIn, first, Option.bind_eq_bind, hcur, Option.bind_some]
    by_cases hfound : d.id = id ∧ d.clientFd = clientFd
    · obtain ⟨s1, s2, hrun1, hrun2, h2, -⟩ := unlink_holds h hl
      simp only [if_pos hfound, hrun1, hrun2, Option.bind_some]
      exact .inr ⟨_, s2, l2, rfl, rfl, h2, rfl⟩
    · simp only [if_neg hfound]
      have hl1 : ls head = (l1 ++ [(cur, d)]) ++ l2 := by
        rw [hl, List.append_assoc]
        rfl
      rcases ih hl1 (Nat.lt_of_succ_lt_succ hfuel) with
        ⟨hnone, hrun⟩ | ⟨r, s', l2', hsome, hrun, h', hl2⟩
      · exact .inl ⟨by rw [hnone]; rfl, hrun⟩
      · rw [List.append_assoc] at h'
        exact .inr ⟨(r.1, d :: r.2), s', (cur, d) :: l2', by rw [hsome]; rfl, hrun, h',
          congrArg (d :: ·) hl2⟩

end Loops

/-! ## 8. The book -/

/-- **The memory of a book**: its four lists and nothing else. -/
def Represents (s : Heap) (book : LimitOrderBook) : Prop :=
  ∃ ls, Holds s ls [] ∧ ∀ head, (ls head).map Prod.snd = book.get head

theorem init_represents : Represents init initOrderbook := by
  refine ⟨fun _ => [], ⟨⟨fun head => LinkedList.linked_iff.mpr ⟨rfl, trivial⟩, ?_⟩, ?_, ?_, ?_⟩, ?_⟩
  · rintro head head' - a ⟨⟩
  · rintro a ⟨⟩
  · rintro a ⟨⟩
  · rintro a ⟨⟩
  · intro head
    cases head <;> rfl

section Book

variable {s : Heap} {book : LimitOrderBook} {ls : ListHead → Cells} {head : ListHead} {fuel : Nat}

theorem orders_update {l : Cells} {lo : List Order}
    (hls : ∀ head, (ls head).map Prod.snd = book.get head) (hl : l.map Prod.snd = lo)
    (head' : ListHead) :
    (Function.update ls head l head').map Prod.snd = (book.set head lo).get head' := by
  by_cases hne : head' = head
  · subst hne
    rw [Function.update_self, LimitOrderBook.get_set_self, hl]
  · rw [Function.update_of_ne hne, LimitOrderBook.get_set_ne hne, hls]

theorem length_eq (hls : ∀ head, (ls head).map Prod.snd = book.get head) (head : ListHead) :
    (ls head).length = (book.get head).length := by
  rw [← hls, List.length_map]

/-- **`addOrder`**, on an order that is in no list. -/
theorem addOrder_represents {a : Nat} (ord : Order) (heap : List Bool) (h : Represents s book)
    (ha : s.mem a = none) (hfuel : ∀ head, (book.get head).length < fuel) :
    ∃ s', addOrder fuel a heap (s.calloc a ord)
        = some (s', (walk (book.get (oppList ord)) (.start ord heap)).2) ∧
      Represents s' (SocketExchange.addOrder book ord heap).book := by
  obtain ⟨ls, h, hls⟩ := h
  have h1 := calloc_holds (d := ord) h ha
  have hord : (s.calloc a ord).mem a = some { next := none, prev := none, data := ord } :=
    Function.update_self ..
  have hhead := (LinkedList.linked_iff.mp (h1.linked (oppList ord))).1
  obtain ⟨s', l, nd, hrun, h', hl, hnd, hdata⟩ := addLoop_walk (w := .start ord heap) h1
    (List.nil_append _).symm hord rfl ((length_eq hls _).trans_lt (hfuel (oppList ord)))
  rw [hls] at hrun hl hdata
  rw [List.nil_append] at h'
  have hopp : ownList ord ≠ oppList ord := (oppList_ne_ownList ord).symm
  simp only [addOrder, Option.bind_eq_bind, hord, Option.bind_some, hhead, hrun, hnd, hdata,
    SocketExchange.addOrder]
  by_cases hq : 0 < (walk (book.get (oppList ord)) (.start ord heap)).2.ord.quantity
  · have hown := (length_eq hls _).trans_lt (hfuel (ownList ord))
    rw [← Function.update_of_ne hopp l ls] at hown
    obtain ⟨s2, hrun2, h2⟩ := append_holds h' hnd List.not_mem_nil hown
    simp only [if_pos hq, hrun2, Option.map_some]
    refine ⟨s2, rfl, _, h2, orders_update (orders_update hls hl) ?_⟩
    rw [List.map_append, orders_update hls hl, SocketExchange.append, ← hdata]
    rfl
  · obtain ⟨s2, hrun2, h2, -⟩ := free_holds h' List.not_mem_nil
    simp only [if_neg hq, hrun2, Option.map_some]
    exact ⟨s2, rfl, _, h2, orders_update hls hl⟩

/-- One of the four loops of `detachClientOrders`. -/
theorem detachIn_represents {clientFd : Int} (h : Represents s book) (head : ListHead)
    (hfuel : ∀ head, (book.get head).length < fuel) :
    ∃ s', detachIn clientFd fuel (s.heads head) s = some s' ∧
      Represents s' (book.set head (SocketExchange.detachIn (book.get head) clientFd)) ∧
      ∀ head', ((book.set head (SocketExchange.detachIn (book.get head) clientFd)).get head').length
        < fuel := by
  obtain ⟨ls, h, hls⟩ := h
  obtain ⟨s', l, hrun, h', hl⟩ := detachIn_list h (List.nil_append _).symm
    ((length_eq hls head).trans_lt (hfuel head))
  rw [hls] at hl
  refine ⟨s', ?_, ⟨_, h', orders_update hls hl⟩, fun head' => ?_⟩
  · rw [(LinkedList.linked_iff.mp (h.linked head)).1]
    exact hrun
  · by_cases hne : head' = head
    · rw [hne, LimitOrderBook.get_set_self, SocketExchange.detachIn, List.length_map]
      exact hfuel head
    · rw [LimitOrderBook.get_set_ne hne]
      exact hfuel head'

theorem detachClientOrders_represents (clientFd : Int) (h : Represents s book)
    (hfuel : ∀ head, (book.get head).length < fuel) :
    ∃ s', detachClientOrders fuel clientFd s = some s' ∧
      Represents s' (SocketExchange.detachClientOrders book clientFd) := by
  obtain ⟨s1, hrun1, h1, hfuel1⟩ := detachIn_represents h .jnstBuyOrders hfuel
  obtain ⟨s2, hrun2, h2, hfuel2⟩ := detachIn_represents h1 .jnstSellOrders hfuel1
  obtain ⟨s3, hrun3, h3, hfuel3⟩ := detachIn_represents h2 .imctBuyOrders hfuel2
  obtain ⟨s4, hrun4, h4, -⟩ := detachIn_represents h3 .imctSellOrders hfuel3
  refine ⟨s4, ?_, h4⟩
  simp only [detachClientOrders, Option.bind_eq_bind, hrun1, hrun2, hrun3, hrun4,
    Option.bind_some]

theorem cancelIn_represents (id clientFd : Int) (h : Represents s book) (head : ListHead)
    (hfuel : ∀ head, (book.get head).length < fuel) :
    (SocketExchange.cancelIn (book.get head) id clientFd = none ∧
      cancelIn head id clientFd fuel (s.heads head) s = some (false, s)) ∨
    ∃ r s', SocketExchange.cancelIn (book.get head) id clientFd = some r ∧
      cancelIn head id clientFd fuel (s.heads head) s = some (true, s') ∧
      Represents s' (book.set head r.2) := by
  obtain ⟨ls, h, hls⟩ := h
  rw [(LinkedList.linked_iff.mp (h.linked head)).1, ← hls head]
  rcases cancelIn_list id clientFd h (List.nil_append _).symm
    ((length_eq hls head).trans_lt (hfuel head)) with hnone | ⟨r, s', l, hsome, hrun, h', hl⟩
  · exact .inl hnone
  · exact .inr ⟨r, s', hsome, hrun, _, h', orders_update hls hl⟩

/-- The two results of `cancelOrder`, as `cancelIn_represents` gives them for one list. -/
theorem cancelOrder_represents (id clientFd : Int) (h : Represents s book)
    (hfuel : ∀ head, (book.get head).length < fuel) :
    (SocketExchange.cancelOrder book id clientFd = none ∧
      cancelOrder fuel id clientFd s = some (false, s)) ∨
    ∃ r s', SocketExchange.cancelOrder book id clientFd = some r ∧
      cancelOrder fuel id clientFd s = some (true, s') ∧ Represents s' r.2 := by
  simp only [cancelOrder, orCancelIn, Option.bind_eq_bind, Bool.false_eq_true, if_false,
    SocketExchange.cancelOrder]
  rcases cancelIn_represents id clientFd h .jnstBuyOrders hfuel with
    ⟨hnone, hrun⟩ | ⟨r, s', hsome, hrun, h'⟩
  case inr =>
    rw [LimitOrderBook.get] at hsome
    simp only [hsome, hrun, Option.bind_some, if_true]
    exact .inr ⟨_, s', rfl, rfl, h'⟩
  rw [LimitOrderBook.get] at hnone
  simp only [hnone, hrun, Option.bind_some, Bool.false_eq_true, if_false]
  rcases cancelIn_represents id clientFd h .jnstSellOrders hfuel with
    ⟨hnone, hrun⟩ | ⟨r, s', hsome, hrun, h'⟩
  case inr =>
    rw [LimitOrderBook.get] at hsome
    simp only [hsome, hrun, Option.bind_some, if_true]
    exact .inr ⟨_, s', rfl, rfl, h'⟩
  rw [LimitOrderBook.get] at hnone
  simp only [hnone, hrun, Option.bind_some, Bool.false_eq_true, if_false]
  rcases cancelIn_represents id clientFd h .imctBuyOrders hfuel with
    ⟨hnone, hrun⟩ | ⟨r, s', hsome, hrun, h'⟩
  case inr =>
    rw [LimitOrderBook.get] at hsome
    simp only [hsome, hrun, Option.bind_some, if_true]
    exact .inr ⟨_, s', rfl, rfl, h'⟩
  rw [LimitOrderBook.get] at hnone
  simp only [hnone, hrun, Option.bind_some, Bool.false_eq_true, if_false]
  rcases cancelIn_represents id clientFd h .imctSellOrders hfuel with
    ⟨hnone, hrun⟩ | ⟨r, s', hsome, hrun, h'⟩
  · rw [LimitOrderBook.get] at hnone
    rw [hnone]
    exact .inl ⟨rfl, hrun⟩
  · rw [LimitOrderBook.get] at hsome
    rw [hsome]
    exact .inr ⟨_, s', rfl, hrun, h'⟩

end Book

end Heap

/-! ## 9. Runs -/

/-- One call of the three operations.  The address is what `calloc` returned for the order, and
the list of an `addOrder` the outcomes of its `realloc` calls. -/
inductive BookCall
  | add (addr : Nat) (ord : Order) (heap : List Bool)
  | cancel (id clientFd : Int)
  | detach (clientFd : Int)

/-- What the caller gets: `*fills` and the outcomes that are left, or the 1 or 0. -/
inductive BookReply
  | added (fills : List Fill) (heap : List Bool)
  | cancelled (found : Bool)
  | detached
  deriving DecidableEq

namespace BookCall

/-- The call on lists. -/
def onBook (book : LimitOrderBook) : BookCall → BookReply × LimitOrderBook
  | .add _ ord heap =>
    let r := addOrder book ord heap
    (.added r.fills r.heap, r.book)
  | .cancel id clientFd =>
    match cancelOrder book id clientFd with
    | some r => (.cancelled true, r.2)
    | none => (.cancelled false, book)
  | .detach clientFd => (.detached, detachClientOrders book clientFd)

/-- The call on the heap. -/
def onHeap (fuel : Nat) (s : Heap) : BookCall → Option (BookReply × Heap)
  | .add addr ord heap =>
    (Heap.addOrder fuel addr heap (s.calloc addr ord)).map fun r =>
      (.added r.2.fills r.2.heap, r.1)
  | .cancel id clientFd =>
    (Heap.cancelOrder fuel id clientFd s).map fun r => (.cancelled r.1, r.2)
  | .detach clientFd => (Heap.detachClientOrders fuel clientFd s).map fun s => (.detached, s)

/-- `calloc` returns the address of no node there is. -/
def Fresh (s : Heap) : BookCall → Prop
  | .add addr _ _ => s.mem addr = none
  | .cancel _ _ => True
  | .detach _ => True

end BookCall

def runOnBook : List BookCall → LimitOrderBook → List BookReply × LimitOrderBook
  | [], book => ([], book)
  | call :: calls, book =>
    let r := runOnBook calls (call.onBook book).2
    ((call.onBook book).1 :: r.1, r.2)

def runOnHeap (fuel : Nat) : List BookCall → Heap → Option (List BookReply × Heap)
  | [], s => some ([], s)
  | call :: calls, s => do
    let r ← call.onHeap fuel s
    let rest ← runOnHeap fuel calls r.2
    some (r.1 :: rest.1, rest.2)

/-- `calloc` keeps its promise in every call of a run. -/
def AllFresh (fuel : Nat) : List BookCall → Heap → Prop
  | [], _ => True
  | call :: calls, s =>
    call.Fresh s ∧ ∀ r ∈ call.onHeap fuel s, AllFresh fuel calls r.2

instance (s : Heap) (call : BookCall) : Decidable (call.Fresh s) :=
  match call with
  | .add addr _ _ => inferInstanceAs (Decidable (s.mem addr = none))
  | .cancel _ _ => isTrue trivial
  | .detach _ => isTrue trivial

instance AllFresh.decidable (fuel : Nat) : ∀ calls s, Decidable (AllFresh fuel calls s)
  | [], _ => isTrue trivial
  | call :: calls, s =>
    have := fun r : BookReply × Heap => AllFresh.decidable fuel calls r.2
    inferInstanceAs (Decidable (call.Fresh s ∧ ∀ r ∈ call.onHeap fuel s, AllFresh fuel calls r.2))

section Runs

variable {s : Heap} {book : LimitOrderBook} {fuel n : Nat}

theorem walk_length_le (l : List Order) (w : Walk) : (walk l w).1.length ≤ l.length := by
  induction l generalizing w with
  | nil => exact Nat.le_refl _
  | cons cur nxt ih =>
    rw [walk]
    split
    · split
      · dsimp only
        split
        · exact (ih _).trans (Nat.le_succ _)
        · exact Nat.succ_le_succ (ih _)
      · exact Nat.succ_le_succ (ih _)
    · exact Nat.le_refl _

/-- A call makes a list longer by one at most. -/
theorem onBook_length_le (call : BookCall) (h : ∀ head, (book.get head).length ≤ n)
    (head : ListHead) : ((call.onBook book).2.get head).length ≤ n + 1 := by
  cases call with
  | add addr ord heap =>
    have hopp : ∀ head', ((book.set (oppList ord)
        (walk (book.get (oppList ord)) (.start ord heap)).1).get head').length ≤ n := by
      intro head'
      by_cases hne : head' = oppList ord
      · rw [hne, LimitOrderBook.get_set_self]
        exact (walk_length_le _ _).trans (h _)
      · rw [LimitOrderBook.get_set_ne hne]
        exact h head'
    simp only [BookCall.onBook, addOrder]
    split
    · by_cases hne : head = ownList ord
      · rw [hne, LimitOrderBook.get_set_self, append, List.length_append]
        exact Nat.succ_le_succ (hopp _)
      · rw [LimitOrderBook.get_set_ne hne]
        exact (hopp head).trans (Nat.le_succ n)
    · exact (hopp head).trans (Nat.le_succ n)
  | cancel id clientFd =>
    refine Nat.le_trans ?_ ((h head).trans (Nat.le_succ n))
    simp only [BookCall.onBook]
    split
    · rename_i r hr
      obtain ⟨head', pre, post, hl, hset, -⟩ := cancelOrder_eq_some hr
      by_cases hne : head = head'
      · rw [hset, hne, LimitOrderBook.get_set_self, hl]
        simp
      · rw [hset, LimitOrderBook.get_set_ne hne]
    · exact Nat.le_refl _
  | detach clientFd =>
    simp only [BookCall.onBook, get_detachClientOrders, detachIn, List.length_map]
    exact (h head).trans (Nat.le_succ n)

/-- **One call** on the heap of a book. -/
theorem onHeap_represents {call : BookCall} (h : s.Represents book) (hfresh : call.Fresh s)
    (hfuel : ∀ head, (book.get head).length < fuel) :
    ∃ s', call.onHeap fuel s = some ((call.onBook book).1, s') ∧
      s'.Represents (call.onBook book).2 := by
  cases call with
  | add addr ord heap =>
    obtain ⟨s', hrun, h'⟩ := Heap.addOrder_represents ord heap h hfresh hfuel
    exact ⟨s', by simp only [BookCall.onHeap, hrun, Option.map_some]; rfl, h'⟩
  | cancel id clientFd =>
    rcases Heap.cancelOrder_represents id clientFd h hfuel with
      ⟨hnone, hrun⟩ | ⟨r, s', hsome, hrun, h'⟩
    · refine ⟨s, ?_, ?_⟩
      · simp only [BookCall.onHeap, BookCall.onBook, hrun, hnone, Option.map_some]
      · simp only [BookCall.onBook, hnone]
        exact h
    · refine ⟨s', ?_, ?_⟩
      · simp only [BookCall.onHeap, BookCall.onBook, hrun, hsome, Option.map_some]
      · simp only [BookCall.onBook, hsome]
        exact h'
  | detach clientFd =>
    obtain ⟨s', hrun, h'⟩ := Heap.detachClientOrders_represents clientFd h hfuel
    exact ⟨s', by simp only [BookCall.onHeap, hrun, Option.map_some]; rfl, h'⟩

theorem runOnHeap_represents {calls : List BookCall} (h : s.Represents book)
    (hfresh : AllFresh fuel calls s) (hn : ∀ head, (book.get head).length ≤ n)
    (hfuel : n + calls.length < fuel) :
    ∃ s', runOnHeap fuel calls s = some ((runOnBook calls book).1, s') ∧
      s'.Represents (runOnBook calls book).2 := by
  induction calls generalizing s book n with
  | nil => exact ⟨s, rfl, h⟩
  | cons call calls ih =>
    rw [List.length_cons] at hfuel
    have hlt : ∀ head, (book.get head).length < fuel := fun head => (hn head).trans_lt (by omega)
    obtain ⟨s1, hrun1, h1⟩ := onHeap_represents h hfresh.1 hlt
    obtain ⟨s', hrun, h'⟩ := ih h1 (hfresh.2 _ hrun1) (onBook_length_le call hn) (by omega)
    refine ⟨s', ?_, h'⟩
    simp only [runOnHeap, Option.bind_eq_bind, hrun1, hrun, Option.bind_some]
    rfl

/-- **The pointers of the book.**  On well-formed lists `append` puts a node at the end of one
list and `removeNode` takes any node out of it, and both leave the nodes of the other lists
alone.  In every run the three operations end, with the answers they have on lists and in the
memory of the book they have there, and no node the book leads to is freed. -/
theorem linked_lists :
    (∀ (s : Heap) (ls : ListHead → Cells) (head : ListHead) (ord fuel : Nat)
      (nd : Node Nat Order), s.WellFormed ls → s.mem ord = some nd →
      (∀ head', ord ∉ addrs (ls head')) → (ls head).length < fuel →
      ∃ s', s.append fuel head ord = some s' ∧
        s'.WellFormed (Function.update ls head (ls head ++ [(ord, nd.data)])) ∧
        ∀ b, b ≠ ord → b ∉ addrs (ls head) → s'.mem b = s.mem b) ∧
    (∀ (s : Heap) (ls : ListHead → Cells) (head : ListHead) (l1 l2 : Cells) (a : Nat) (d : Order),
      s.WellFormed ls → ls head = l1 ++ (a, d) :: l2 →
      ∃ s', s.removeNode head a = some s' ∧
        s'.WellFormed (Function.update ls head (l1 ++ l2)) ∧
        ∀ b, b ∉ addrs (ls head) → s'.mem b = s.mem b) ∧
    ∀ (fuel : Nat) (calls : List BookCall), AllFresh fuel calls .init → calls.length < fuel →
      ∃ s', runOnHeap fuel calls .init = some ((runOnBook calls initOrderbook).1, s') ∧
        s'.Represents (runOnBook calls initOrderbook).2 ∧
        ∀ head a, Reaches s'.mem (s'.heads head) a → (s'.mem a).isSome = true := by
  refine ⟨?_, ?_, ?_⟩
  · intro s ls head ord fuel nd h hord hfresh hfuel
    exact Heap.append_wellFormed h hord hfresh hfuel
  · intro s ls head l1 l2 a d h hl
    obtain ⟨s', hrun, h', -, hframe⟩ := Heap.removeNode_wellFormed h hl
    exact ⟨s', hrun, h', hframe⟩
  · intro fuel calls hfresh hfuel
    have hinit : ∀ head, (initOrderbook.get head).length ≤ 0 := by
      intro head
      cases head <;> exact Nat.le_refl 0
    obtain ⟨s', hrun, h'⟩ :=
      runOnHeap_represents Heap.init_represents hfresh hinit (by omega)
    refine ⟨s', hrun, h', fun head a ha => ?_⟩
    obtain ⟨ls, hls, -⟩ := h'
    exact ((hls.linked head).reaches ha).2

/-- Two resting orders, and one that takes the first away while the walk stands on it and half
of the second. -/
theorem linked_lists_walk :
    ∃ s', runOnHeap 9
        [.add 1 ⟨1, 5, 10, 4, .sell, .jnst, 0⟩ [], .add 2 ⟨2, 4, 10, 5, .sell, .jnst, 1⟩ [],
          .add 3 ⟨3, 7, 10, 6, .buy, .jnst, 2⟩ [], .detach 4, .cancel 2 5] .init
        = some ([.added [] [], .added [] [],
            .added [⟨10, 5, 6, 4, .jnst, 2, 0⟩, ⟨10, 2, 6, 5, .jnst, 2, 1⟩] [],
            .detached, .cancelled true], s') ∧
      s'.Represents initOrderbook ∧
      ∀ head a, Reaches s'.mem (s'.heads head) a → (s'.mem a).isSome = true :=
  linked_lists.2.2 9 _ (by decide) (by decide)

end Runs

end SocketExchange
