import Mathlib.Data.List.Basic

/-!
# Runs of a machine

A machine is a step function `σ → ε → σ`: a state and an event give the next state.  `run` folds
it over a list of events, `Guarded` says that every event of a run meets a condition in the state
it finds, and `run_induction` is the invariant rule: what holds at the start and is kept by every
guarded step holds after every guarded run.
-/

namespace Machine

variable {σ ε : Type*} (step : σ → ε → σ)

/-- The state after the events `es`. -/
def run (s : σ) (es : List ε) : σ := es.foldl step s

/-- Every event of the run from `s` meets `ok` in the state it finds. -/
def Guarded (ok : σ → ε → Prop) : σ → List ε → Prop
  | _, [] => True
  | s, e :: es => ok s e ∧ Guarded ok (step s e) es

instance Guarded.decidable {ok : σ → ε → Prop} [∀ s e, Decidable (ok s e)] :
    ∀ s es, Decidable (Guarded step ok s es)
  | _, [] => isTrue trivial
  | s, e :: es => @instDecidableAnd _ _ _ (Guarded.decidable (step s e) es)

@[simp] theorem run_nil (s : σ) : run step s [] = s := rfl

@[simp] theorem run_cons (s : σ) (e : ε) (es : List ε) :
    run step s (e :: es) = run step (step s e) es := rfl

theorem run_append (s : σ) (es es' : List ε) :
    run step s (es ++ es') = run step (run step s es) es' := List.foldl_append ..

theorem run_snoc (s : σ) (es : List ε) (e : ε) :
    run step s (es ++ [e]) = step (run step s es) e := by
  rw [run_append]; rfl

theorem guarded_append {ok : σ → ε → Prop} {s : σ} {es es' : List ε} :
    Guarded step ok s (es ++ es') ↔
      Guarded step ok s es ∧ Guarded step ok (run step s es) es' := by
  induction es generalizing s with
  | nil => simp [Guarded]
  | cons e es ih => simp only [List.cons_append, Guarded, ih, run_cons, and_assoc]

/-- A run is guarded if every event of it finds its condition met. -/
theorem guarded_iff_forall_split {ok : σ → ε → Prop} {s : σ} {es : List ε} :
    Guarded step ok s es ↔ ∀ pre e post, es = pre ++ e :: post → ok (run step s pre) e := by
  constructor
  · rintro h pre e post rfl
    exact ((guarded_append step).1 h).2.1
  · intro h
    induction es generalizing s with
    | nil => trivial
    | cons e es ih =>
      refine ⟨h [] e es rfl, ih fun pre e' post hsplit => ?_⟩
      exact h (e :: pre) e' post (by rw [hsplit, List.cons_append])

/-- A condition on the events alone guards every run. -/
theorem guarded_of_forall {ok : ε → Prop} {es : List ε} (h : ∀ e ∈ es, ok e) (s : σ) :
    Guarded step (fun _ e => ok e) s es := by
  induction es generalizing s with
  | nil => trivial
  | cons e es ih =>
    rw [List.forall_mem_cons] at h
    exact ⟨h.1, ih h.2 _⟩

/-- A condition that always holds guards every run. -/
theorem guarded_of_always {ok : σ → ε → Prop} (h : ∀ s e, ok s e) (s : σ) (es : List ε) :
    Guarded step ok s es := by
  induction es generalizing s with
  | nil => trivial
  | cons e es ih => exact ⟨h s e, ih _⟩

/-- **The invariant rule**: what every guarded step keeps, every guarded run keeps. -/
theorem run_induction {ok : σ → ε → Prop} {inv : σ → Prop}
    (hstep : ∀ s e, inv s → ok s e → inv (step s e)) {s : σ} (h0 : inv s) {es : List ε}
    (hes : Guarded step ok s es) : inv (run step s es) := by
  induction es generalizing s with
  | nil => exact h0
  | cons e es ih => exact ih (hstep s e h0 hes.1) hes.2

/-- The invariant rule for machines that need no guard. -/
theorem run_induction' {inv : σ → Prop} (hstep : ∀ s e, inv s → inv (step s e)) {s : σ}
    (h0 : inv s) (es : List ε) : inv (run step s es) := by
  induction es generalizing s with
  | nil => exact h0
  | cons e es ih => exact ih (hstep s e h0)

/-- If an invariant is kept by the guarded steps and gives a property, and a step to a state with the
property is guarded, then a run is guarded exactly when the property holds in each of its states.
What the environment sees to, `env`, holds at every step. -/
theorem guarded_iff_forall_prefix_of {env ok : σ → ε → Prop} {inv P : σ → Prop}
    (hstep : ∀ s e, inv s → env s e → ok s e → inv (step s e)) (hinv : ∀ s, inv s → P s)
    (hok : ∀ s e, inv s → env s e → P (step s e) → ok s e) {s : σ} (h0 : inv s) {es : List ε}
    (hes : Guarded step env s es) :
    Guarded step ok s es ↔ ∀ pre, pre <+: es → P (run step s pre) := by
  induction es generalizing s with
  | nil =>
    refine ⟨fun _ pre hpre => ?_, fun _ => trivial⟩
    rw [List.prefix_nil.1 hpre]
    exact hinv s h0
  | cons e es ih =>
    obtain ⟨henv, hrest⟩ := hes
    constructor
    · rintro ⟨he, hes⟩ pre hpre
      rcases List.prefix_cons_iff.1 hpre with rfl | ⟨rest, rfl, hprefix⟩
      · exact hinv s h0
      · exact (ih (hstep s e h0 henv he) hrest).1 hes rest hprefix
    · intro h
      have he := hok s e h0 henv (h [e] ⟨es, rfl⟩)
      refine ⟨he, (ih (hstep s e h0 henv he) hrest).2 fun pre hpre => ?_⟩
      exact h (e :: pre) (List.cons_prefix_cons.2 ⟨rfl, hpre⟩)

theorem guarded_iff_forall_prefix {ok : σ → ε → Prop} {inv P : σ → Prop}
    (hstep : ∀ s e, inv s → ok s e → inv (step s e)) (hinv : ∀ s, inv s → P s)
    (hok : ∀ s e, inv s → P (step s e) → ok s e) {s : σ} (h0 : inv s) (es : List ε) :
    Guarded step ok s es ↔ ∀ pre, pre <+: es → P (run step s pre) :=
  @guarded_iff_forall_prefix_of _ _ step (fun _ _ => True) _ _ _ (fun s e hs _ => hstep s e hs) hinv
    (fun s e hs _ => hok s e hs) s h0 es (guarded_of_always step (fun _ _ => trivial) s es)

end Machine
