import Mathlib.Data.List.Perm.Basic
import Wgx.Lib.Run

/-!
# Runs whose steps commute

A relation `R` on the states, symmetric and transitive, says which states count as the same; it need
not be reflexive, so that `R s s` can say that `s` is well formed.

* `run_respects`: a run takes states that count as the same to such states, if each step does;
* `run_perm`: so do the runs over two orders of the same events, if the events commute in pairs.
-/

namespace Machine

variable {σ ε : Type*} {step : σ → ε → σ} {R : σ → σ → Prop}

theorem run_respects (hstep : ∀ s s' e, R s s' → R (step s e) (step s' e)) (es : List ε) {s s' : σ}
    (h : R s s') : R (run step s es) (run step s' es) := by
  induction es generalizing s s' with
  | nil => exact h
  | cons e es ih => exact ih (hstep s s' e h)

theorem run_perm {apart : ε → ε → Prop} (hsymm : ∀ s s', R s s' → R s' s)
    (htrans : ∀ s s' s'', R s s' → R s' s'' → R s s'')
    (hstep : ∀ s s' e, R s s' → R (step s e) (step s' e))
    (hapart : ∀ e e', apart e e' → apart e' e)
    (hswap : ∀ s e e', R s s → apart e e' → R (step (step s e) e') (step (step s e') e))
    {es es' : List ε} (hperm : es.Perm es') (hes : es.Pairwise apart) {s s' : σ} (h : R s s') :
    R (run step s es) (run step s' es') := by
  induction hperm generalizing s s' with
  | nil => exact h
  | cons e _ ih => exact ih (List.pairwise_cons.mp hes).2 (hstep s s' e h)
  | swap e e' es =>
    have hs : R s s := htrans _ _ _ h (hsymm _ _ h)
    have hee' : apart e' e := (List.pairwise_cons.mp hes).1 e (by simp)
    refine run_respects hstep es (htrans _ _ _ (hswap s e' e hs hee') ?_)
    exact hstep _ _ _ (hstep _ _ _ h)
  | trans h₁ _ ih₁ ih₂ =>
    have hs' : R s' s' := htrans _ _ _ (hsymm _ _ h) h
    have hes' := (h₁.pairwise_iff fun {e e'} => hapart e e').mp hes
    exact htrans _ _ _ (ih₁ hes h) (ih₂ hes' hs')

end Machine
