/-
# Runs of a deterministic machine

A machine is a step function; what the environment decides is part of the action it is
given, so a run is a list of actions.  Everything a development needs to say "in every
state a run reaches" is here: the run itself, the induction that turns a preserved step
into a preserved run, the same under a guard on each step, and the run of what is seen of a
machine.
-/
import Mathlib.Data.List.Basic

namespace Run

variable {σ τ α β : Type*}

/-- The state reached from `s` by the actions `as`, taken in order. -/
def run (step : σ → α → σ) (s : σ) (as : List α) : σ := as.foldl step s

@[simp] theorem run_nil (step : σ → α → σ) (s : σ) : run step s [] = s := rfl

@[simp] theorem run_cons (step : σ → α → σ) (s : σ) (a : α) (as : List α) :
    run step s (a :: as) = run step (step s a) as := rfl

theorem run_append (step : σ → α → σ) (s : σ) (as bs : List α) :
    run step s (as ++ bs) = run step (run step s as) bs := List.foldl_append

/-- What holds at the start and is kept by every step holds in every state reached. -/
theorem run_invariant {step : σ → α → σ} {I : σ → Prop} (hstep : ∀ s a, I s → I (step s a)) :
    ∀ (as : List α) (s : σ), I s → I (run step s as)
  | [], _, h => h
  | a :: as, s, h => run_invariant hstep as (step s a) (hstep s a h)

/-- The same, of a run of actions of one kind. -/
theorem run_invariant_of_mem {step : σ → α → σ} {ok : α → Prop} {I : σ → Prop}
    (hstep : ∀ s a, I s → ok a → I (step s a)) :
    ∀ (as : List α) (s : σ), (∀ a ∈ as, ok a) → I s → I (run step s as)
  | [], _, _, h => h
  | a :: as, s, hok, h =>
    run_invariant_of_mem hstep as (step s a) (fun b hb => hok b (List.mem_cons_of_mem a hb))
      (hstep s a h (hok a List.mem_cons_self))

/-- The same, when the invariant looks at the actions still to come. -/
theorem run_ahead {step : σ → α → σ} {I : σ → List α → Prop}
    (hstep : ∀ s a as, I s (a :: as) → I (step s a) as) :
    ∀ (as : List α) {s : σ}, I s as → I (run step s as) []
  | [], _, h => h
  | a :: as, s, h => run_ahead hstep as (hstep s a as h)

/-- A reflexive and transitive relation that every step respects relates the two ends of
every run. -/
theorem run_related {step : σ → α → σ} {R : σ → σ → Prop} (hrefl : ∀ s, R s s)
    (htrans : ∀ {a b c}, R a b → R b c → R a c) (hstep : ∀ s a, R s (step s a)) :
    ∀ (as : List α) (s : σ), R s (run step s as)
  | [], s => hrefl s
  | a :: as, s => htrans (hstep s a) (run_related hrefl htrans hstep as (step s a))

/-! ## Runs under a guard -/

/-- Every action of the run meets `ok` in the state it is taken in. -/
def Meets (step : σ → α → σ) (ok : σ → α → Prop) : σ → List α → Prop
  | _, [] => True
  | s, a :: as => ok s a ∧ Meets step ok (step s a) as

instance decidableMeets (step : σ → α → σ) (ok : σ → α → Prop) [∀ s a, Decidable (ok s a)] :
    ∀ (s : σ) (as : List α), Decidable (Meets step ok s as)
  | _, [] => .isTrue trivial
  | s, a :: as =>
    have := decidableMeets step ok (step s a) as
    decidable_of_iff (ok s a ∧ Meets step ok (step s a) as) Iff.rfl

theorem meets_append {step : σ → α → σ} {ok : σ → α → Prop} :
    ∀ {as : List α} {bs : List α} {s : σ},
      Meets step ok s (as ++ bs) ↔ Meets step ok s as ∧ Meets step ok (run step s as) bs
  | [], bs, s => by simp [Meets]
  | a :: as, bs, s => by
    simp only [List.cons_append, Meets, run_cons, and_assoc]
    exact and_congr_right fun _ => meets_append

/-- Guards that agree wherever an invariant holds are met by the same runs. -/
theorem meets_congr {step : σ → α → σ} {ok ok' : σ → α → Prop} {I : σ → Prop}
    (hkeep : ∀ s a, I s → I (step s a)) (hiff : ∀ s a, I s → (ok s a ↔ ok' s a)) :
    ∀ (as : List α) {s : σ}, I s → (Meets step ok s as ↔ Meets step ok' s as)
  | [], _, _ => Iff.rfl
  | a :: as, s, h => and_congr (hiff s a h) (meets_congr hkeep hiff as (hkeep s a h))

/-- A guarded run keeps what its guarded steps keep. -/
theorem run_invariant_of_meets {step : σ → α → σ} {ok : σ → α → Prop} {I : σ → Prop}
    (hstep : ∀ s a, I s → ok s a → I (step s a)) :
    ∀ (as : List α) (s : σ), Meets step ok s as → I s → I (run step s as)
  | [], _, _, h => h
  | a :: as, s, hm, h =>
    run_invariant_of_meets hstep as (step s a) hm.2 (hstep s a h hm.1)

/-! ## Projection -/

/-- **What is seen of a run is the run of what is seen**, when that holds of each step: the seen
part of the state takes the seen part of the action, or stays. -/
theorem run_project {step : σ → α → σ} {step' : τ → β → τ} {ok : α → Prop} {I : σ → Prop}
    (see : σ → τ) (seen : α → Option β) (hkeep : ∀ s a, I s → ok a → I (step s a))
    (hstep : ∀ s a, I s → ok a → see (step s a) = (seen a).elim (see s) (step' (see s))) :
    ∀ (as : List α) {s : σ}, (∀ a ∈ as, ok a) → I s →
      see (run step s as) = run step' (see s) (as.filterMap seen)
  | [], _, _, _ => rfl
  | a :: as, s, hok, h => by
    have ha := hok a List.mem_cons_self
    have ih := run_project see seen hkeep hstep as (fun b hb => hok b (List.mem_cons_of_mem _ hb))
      (hkeep s a h ha)
    rw [run_cons, ih, hstep s a h ha, List.filterMap_cons]
    cases seen a <;> rfl

end Run
