/-
# Operations that act at one place

A state is looked at through a view, one value for each key.  An operation acts at a key when
the view elsewhere stays and what it leaves and returns there depends on nothing else.  Two
operations at different keys can be done in either order: they return the same, and the views
of the two final states agree.  The states themselves need not, which is the point of the view.
-/
import Mathlib.Logic.Basic

namespace Locality

variable {σ κ ν ρ τ : Type*}

/-- On the states of `I`, the operation reads and writes the view at `k` only. -/
structure ActsAt (view : σ → κ → ν) (I : σ → Prop) (k : κ) (op : σ → σ × ρ) : Prop where
  frame : ∀ s, I s → ∀ j, j ≠ k → view (op s).1 j = view s j
  depends : ∀ s t, I s → I t → view s k = view t k →
    view (op s).1 k = view (op t).1 k ∧ (op s).2 = (op t).2

namespace ActsAt

variable {view : σ → κ → ν} {I : σ → Prop} {k l : κ} {f : σ → σ × ρ} {g : σ → σ × τ}

theorem mono {J : σ → Prop} (hf : ActsAt view I k f) (h : ∀ s, J s → I s) : ActsAt view J k f where
  frame := fun s hs => hf.frame s (h s hs)
  depends := fun s t hs ht => hf.depends s t (h s hs) (h t ht)

/-- An operation is not affected by one at another key. -/
theorem unaffected (hf : ActsAt view I k f) (hg : ActsAt view I l g) (hkl : k ≠ l) {s : σ}
    (hs : I s) (hgs : I (g s).1) :
    view (f (g s).1).1 k = view (f s).1 k ∧ (f (g s).1).2 = (f s).2 :=
  hf.depends _ _ hgs hs (hg.frame s hs k hkl)

/-- **Operations at different keys commute**, up to the view. -/
theorem commute (hf : ActsAt view I k f) (hg : ActsAt view I l g) (hkl : k ≠ l) {s : σ}
    (hs : I s) (hfs : I (f s).1) (hgs : I (g s).1) :
    (f (g s).1).2 = (f s).2 ∧ (g (f s).1).2 = (g s).2 ∧
      view (g (f s).1).1 = view (f (g s).1).1 := by
  obtain ⟨hfk, hfr⟩ := hf.unaffected hg hkl hs hgs
  obtain ⟨hgl, hgr⟩ := hg.unaffected hf hkl.symm hs hfs
  refine ⟨hfr, hgr, funext fun j => ?_⟩
  by_cases hj : j = k
  · subst hj
    rw [hg.frame _ hfs j hkl, hfk]
  · rw [hf.frame _ hgs j hj]
    by_cases hl : j = l
    · subst hl
      exact hgl
    · rw [hg.frame _ hfs j hl, hf.frame _ hs j hj, hg.frame _ hs j hl]

end ActsAt

end Locality
