/-
# Edge-triggered notification

Sources come to have something for a waiter, and are *raised* when they do.  The waiter takes
some of the raised sources as a batch and handles them one after the other.  Taking a source
lowers it, whether what it has is dealt with or not, and it is raised again only when something
new comes.  So a handler that leaves something behind may never hear of it.

`Announced` is what must not be lost: whoever has something is raised, or is in the batch.
`Step` is what may happen between two looks at the board, with what each happening has to leave;
it keeps `Announced`, and when nothing is raised and the batch is done nobody has anything
(`Announced.nothing_left`).
-/
import Mathlib.Data.List.Basic

namespace Notification

variable {ι : Type*}

/-- The sources that are raised, and those taken and not handled yet. -/
structure Board (ι : Type*) where
  raised : ι → Prop
  batch : List ι

/-- Whoever has something is raised, or is in the batch. -/
def Announced (has : ι → Prop) (b : Board ι) : Prop := ∀ i, has i → b.raised i ∨ i ∈ b.batch

/-- One happening: `has` and `has'` say who has something in front of it and behind it. -/
inductive Step (has has' : ι → Prop) (b b' : Board ι) : Prop
  /-- something comes from outside, and raises its source -/
  | come (hbatch : b'.batch = b.batch) (hkept : ∀ i, b.raised i → b'.raised i)
      (hnew : ∀ i, has' i → has i ∨ b'.raised i)
  /-- the waiter takes some of the sources that are raised; the others stay raised -/
  | take (hempty : b.batch = []) (hkept : ∀ i, b.raised i → b'.raised i ∨ i ∈ b'.batch)
      (hsame : ∀ i, has' i → has i)
  /-- the first source of the batch is handled: it has nothing behind that, or was raised again,
  and of the others nobody is lowered who has something -/
  | handle (i : ι) (hbatch : b.batch = i :: b'.batch) (hdone : has' i → b'.raised i)
      (hothers : ∀ j, j ≠ i → has' j → b'.raised j ∨ has j ∧ (b.raised j → b'.raised j))

/-- **No source is overlooked**, if handlers and raises keep to their part. -/
theorem Step.announced {has has' : ι → Prop} {b b' : Board ι} (hstep : Step has has' b b')
    (h : Announced has b) : Announced has' b' := by
  intro i hi
  cases hstep with
  | come hbatch hkept hnew =>
    rcases hnew i hi with hold | hraised
    · rw [hbatch]
      exact (h i hold).imp_left (hkept i)
    · exact .inl hraised
  | take hempty hkept hsame =>
    rcases h i (hsame i hi) with hraised | hmem
    · exact hkept i hraised
    · rw [hempty] at hmem
      cases hmem
  | handle k hbatch hdone hothers =>
    by_cases hik : i = k
    · exact .inl (hik ▸ hdone (hik ▸ hi))
    rcases hothers i hik hi with hraised | ⟨hold, hkept⟩
    · exact .inl hraised
    rcases h i hold with hraised | hmem
    · exact .inl (hkept hraised)
    · rw [hbatch] at hmem
      exact .inr ((List.mem_cons.mp hmem).resolve_left hik)

/-- **At rest nobody has anything.** -/
theorem Announced.nothing_left {has : ι → Prop} {b : Board ι} (h : Announced has b)
    (hbatch : b.batch = []) {i : ι} (hlow : ¬ b.raised i) : ¬ has i := by
  intro hi
  rcases h i hi with hraised | hmem
  · exact hlow hraised
  · rw [hbatch] at hmem
    cases hmem

end Notification
