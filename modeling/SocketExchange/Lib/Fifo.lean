/-
# Serving a demand from a queue

A demand `q` is served from a queue of holders, first come first served: each holder in
turn gives the smaller of what is still wanted and what it has, until nothing is wanted.
`allocate` lists who gave how much.  The facts below are the ones any first-in-first-out
matcher rests on: who is served is a prefix of the queue, nobody gives more than it has,
everyone but the last gives all it has, and the total is the smaller of demand and supply.
-/
import Mathlib.Data.List.Basic
import Mathlib.Algebra.Order.BigOperators.Group.List
import Mathlib.Algebra.Order.Ring.Int

namespace Fifo

variable {α : Type*} (size : α → Int)

/-- Who gives how much of the demand `q`, in queue order. -/
def allocate : Int → List α → List (α × Int)
  | _, [] => []
  | q, a :: as =>
    if 0 < q then (a, min q (size a)) :: allocate (q - min q (size a)) as else []

/-- What an allocation hands over in all. -/
def total (xs : List (α × Int)) : Int := (xs.map Prod.snd).sum

@[simp] theorem total_nil : total ([] : List (α × Int)) = 0 := rfl

@[simp] theorem total_cons (x : α × Int) (xs : List (α × Int)) :
    total (x :: xs) = x.2 + total xs := by simp [total]

@[simp] theorem total_append (xs ys : List (α × Int)) :
    total (xs ++ ys) = total xs + total ys := by simp [total]

@[simp] theorem allocate_nil (q : Int) : allocate size q [] = [] := rfl

theorem allocate_cons_pos {q : Int} (hq : 0 < q) (a : α) (as : List α) :
    allocate size q (a :: as)
      = (a, min q (size a)) :: allocate size (q - min q (size a)) as := by
  simp [allocate, hq]

theorem allocate_of_nonpos {q : Int} (hq : q ≤ 0) : ∀ as : List α, allocate size q as = []
  | [] => rfl
  | a :: as => by simp [allocate, not_lt.mpr hq]

/-- Those served are the first of the queue, each once and in queue order. -/
theorem map_fst_served : ∀ (as : List α) (q : Int), (allocate size q as).map Prod.fst <+: as
  | [], _ => by simp
  | a :: as, q => by
    by_cases hq : 0 < q
    · rw [allocate_cons_pos size hq]
      exact List.cons_prefix_cons.mpr ⟨rfl, map_fst_served as _⟩
    · rw [allocate_of_nonpos size (not_lt.mp hq)]
      exact List.nil_prefix

theorem mem_of_mem_allocate {as : List α} {q : Int} {x : α × Int}
    (hx : x ∈ allocate size q as) : x.1 ∈ as :=
  (map_fst_served size as q).subset (List.mem_map_of_mem hx)

/-- Everyone served gives something, and no more than it has. -/
theorem amount_bounds : ∀ {as : List α} {q : Int}, (∀ a ∈ as, 0 < size a) →
    ∀ x ∈ allocate size q as, 0 < x.2 ∧ x.2 ≤ size x.1
  | [], _, _, _, hx => by simp at hx
  | a :: as, q, hpos, x, hx => by
    by_cases hq : 0 < q
    · rw [allocate_cons_pos size hq, List.mem_cons] at hx
      rcases hx with rfl | hx
      · have := hpos a List.mem_cons_self
        exact ⟨lt_min hq this, min_le_right _ _⟩
      · exact amount_bounds (fun b hb => hpos b (List.mem_cons_of_mem _ hb)) x hx
    · rw [allocate_of_nonpos size (not_lt.mp hq)] at hx
      simp at hx

/-- Each gives the smaller of what is still wanted when its turn comes and what it has. -/
theorem amount_eq : ∀ {as : List α} {q : Int} {xs ys : List (α × Int)} {x : α × Int},
    allocate size q as = xs ++ x :: ys →
      0 < q - total xs ∧ x.2 = min (q - total xs) (size x.1)
  | [], _, xs, _, _, h => by simp at h
  | a :: as, q, xs, ys, x, h => by
    by_cases hq : 0 < q
    · rw [allocate_cons_pos size hq] at h
      cases xs with
      | nil =>
        simp only [List.nil_append, List.cons.injEq] at h
        rw [← h.1]
        simp [hq]
      | cons y xs =>
        simp only [List.cons_append, List.cons.injEq] at h
        obtain ⟨hpos, heq⟩ := amount_eq h.2
        rw [← h.1, total_cons]
        simp only [sub_sub] at hpos heq ⊢
        exact ⟨hpos, heq⟩
    · rw [allocate_of_nonpos size (not_lt.mp hq)] at h
      simp at h

/-- Everyone before the last one served gives all it has. -/
theorem full_of_not_last {as : List α} {q : Int} {xs ys : List (α × Int)} {x y : α × Int}
    (h : allocate size q as = xs ++ x :: y :: ys) : x.2 = size x.1 := by
  obtain ⟨-, hx⟩ := amount_eq size h
  have h' : allocate size q as = (xs ++ [x]) ++ y :: ys := by simpa using h
  obtain ⟨hpos, -⟩ := amount_eq size h'
  rw [total_append, total_cons, total_nil] at hpos
  rcases min_choice (q - total xs) (size x.1) with hm | hm <;> omega

/-- The total handed over is the smaller of demand and supply. -/
theorem total_allocate : ∀ {as : List α} {q : Int}, 0 ≤ q → (∀ a ∈ as, 0 < size a) →
    total (allocate size q as) = min q (as.map size).sum
  | [], q, hq, _ => by simp [hq]
  | a :: as, q, hq, hpos => by
    have ha := hpos a List.mem_cons_self
    have has : ∀ b ∈ as, 0 < size b := fun b hb => hpos b (List.mem_cons_of_mem _ hb)
    have hs : 0 ≤ (as.map size).sum := List.sum_nonneg (by
      simp only [List.mem_map]
      rintro _ ⟨b, hb, rfl⟩
      exact le_of_lt (has b hb))
    rcases hq.eq_or_lt with rfl | hlt
    · rw [allocate_of_nonpos size le_rfl]
      simp only [total_nil, List.map_cons, List.sum_cons]
      omega
    · rw [allocate_cons_pos size hlt, total_cons, total_allocate (by omega) has]
      simp only [List.map_cons, List.sum_cons]
      omega

/-- The demand is never exceeded. -/
theorem total_le {as : List α} {q : Int} (hq : 0 ≤ q) (hpos : ∀ a ∈ as, 0 < size a) :
    total (allocate size q as) ≤ q := by
  rw [total_allocate size hq hpos]
  exact min_le_left _ _

/-- If the demand is not met, the whole queue was served and gave all it had. -/
theorem allocate_of_unmet : ∀ {as : List α} {q : Int}, (∀ a ∈ as, 0 < size a) →
    total (allocate size q as) < q → allocate size q as = as.map fun a => (a, size a)
  | [], _, _, _ => rfl
  | a :: as, q, hpos, h => by
    have ha := hpos a List.mem_cons_self
    have has : ∀ b ∈ as, 0 < size b := fun b hb => hpos b (List.mem_cons_of_mem _ hb)
    by_cases hq : 0 < q
    · rw [allocate_cons_pos size hq, total_cons] at h
      have hnn : 0 ≤ total (allocate size (q - min q (size a)) as) :=
        List.sum_nonneg (by
          simp only [List.mem_map]
          rintro _ ⟨x, hx, rfl⟩
          exact le_of_lt (amount_bounds size has x hx).1)
      have hmin : min q (size a) = size a := by omega
      rw [hmin] at h
      rw [allocate_cons_pos size hq, hmin, List.map_cons,
        allocate_of_unmet has (by omega)]
    · rw [allocate_of_nonpos size (not_lt.mp hq), total_nil] at h
      omega

/-- Holder number `k` is served when those in front of it have less than the demand. -/
theorem lt_length_allocate : ∀ {as : List α} {q : Int} {k : Nat}, (∀ a ∈ as, 0 < size a) →
    (k < (allocate size q as).length ↔ k < as.length ∧ ((as.take k).map size).sum < q)
  | [], _, _, _ => by simp
  | a :: as, q, k, hpos => by
    have ha := hpos a List.mem_cons_self
    have has : ∀ b ∈ as, 0 < size b := fun b hb => hpos b (List.mem_cons_of_mem _ hb)
    have hsum : ∀ j, 0 ≤ ((as.take j).map size).sum := fun j => List.sum_nonneg (by
      simp only [List.mem_map]
      rintro _ ⟨b, hb, rfl⟩
      exact le_of_lt (has b (List.mem_of_mem_take hb)))
    by_cases hq : 0 < q
    · rw [allocate_cons_pos size hq]
      cases k with
      | zero => simp [hq]
      | succ k =>
        have ih := lt_length_allocate (q := q - min q (size a)) (k := k) has
        have hk := hsum k
        simp only [List.length_cons, Nat.add_lt_add_iff_right, List.take_succ_cons,
          List.map_cons, List.sum_cons, ih]
        refine and_congr_right fun _ => ?_
        omega
    · rw [allocate_of_nonpos size (not_lt.mp hq)]
      cases k with
      | zero => simp [hq]
      | succ k =>
        have hk := hsum k
        simp only [List.length_nil, Nat.not_lt_zero, List.take_succ_cons, List.map_cons,
          List.sum_cons, false_iff, not_and]
        omega

end Fifo
