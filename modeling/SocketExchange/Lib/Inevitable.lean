/-
# What a system comes to, whichever way it goes

A system that may go on in several ways comes to `P` if it cannot avoid it: `P` holds, or
something can happen next and whatever it is, the system comes to `P` from there.  So it neither
stops before `P` nor goes on forever without it.  The rule is that of a loop with a variant:
where `P` does not hold yet there is a next step, and each step lowers the variant.
-/
import Mathlib.Order.Basic

namespace Inevitable

variable {σ α : Type*}

/-- `P` cannot be avoided from `s`. -/
inductive ComesTo (step : σ → σ → Prop) (P : σ → Prop) : σ → Prop
  | here {s : σ} (h : P s) : ComesTo step P s
  | next {s : σ} (hgo : ∃ s', step s s') (hall : ∀ s', step s s' → ComesTo step P s') :
      ComesTo step P s

/-- **The rule of the variant**: `I` is kept by the steps and lets the system go on until `P`
holds, and no sequence of steps lowers the variant forever. -/
theorem comesTo_of_variant {step : σ → σ → Prop} {P I : σ → Prop} {r : α → α → Prop}
    (hr : WellFounded r) (variant : σ → α) (hkeep : ∀ {s s'}, I s → step s s' → I s')
    (hlower : ∀ {s s'}, I s → step s s' → r (variant s') (variant s))
    (hgo : ∀ {s}, I s → P s ∨ ∃ s', step s s') {s : σ} (hs : I s) : ComesTo step P s := by
  induction hv : variant s using hr.induction generalizing s with
  | _ v ih =>
    subst hv
    rcases hgo hs with hp | hnext
    · exact .here hp
    · exact .next hnext fun s' hstep =>
        ih (variant s') (hlower hs hstep) (hkeep hs hstep) rfl

end Inevitable
