import Wgx.Lib.Run

/-!
# Queues

A queue of symbols: a list that is appended to at its end and taken from at its front.

* `Op`, `step`: the operations; `Within` says that no more is taken than there is;
* `run_eq`: the contents are what was put, less the prefix that was taken;
* `Implements`: a machine that behaves as a queue under a view of its states, with the rule
  `Implements.run` for whole runs.
-/

namespace Fifo

variable {α σ ε : Type*}

/-- An operation: symbols are put in at the end, or a number of them is taken from the front. -/
inductive Op (α : Type*)
  | put (data : List α)
  | take (n : ℕ)

/-- The queue after an operation. -/
def step (q : List α) : Op α → List α
  | .put data => q ++ data
  | .take n => q.drop n

/-- No more is taken than there is. -/
def Within (q : List α) : Op α → Prop
  | .put _ => True
  | .take n => n ≤ q.length

/-- What the operations put in. -/
def puts : List (Op α) → List α
  | [] => []
  | .put data :: ops => data ++ puts ops
  | .take _ :: ops => puts ops

/-- How much the operations take. -/
def takes : List (Op α) → ℕ
  | [] => 0
  | .put _ :: ops => takes ops
  | .take n :: ops => n + takes ops

/-- **The contents are what was put, less the prefix that was taken.** -/
theorem run_eq {q : List α} {ops : List (Op α)} (h : Machine.Guarded step Within q ops) :
    takes ops ≤ (q ++ puts ops).length ∧
      Machine.run step q ops = (q ++ puts ops).drop (takes ops) := by
  induction ops generalizing q with
  | nil => exact ⟨Nat.zero_le _, (List.append_nil q).symm⟩
  | cons op ops ih =>
    obtain ⟨hop, hrest⟩ := h
    obtain ⟨hle, hrun⟩ := ih hrest
    rw [Machine.run_cons, hrun]
    cases op with
    | put data =>
      rw [step, List.append_assoc] at hle ⊢
      exact ⟨hle, rfl⟩
    | take n =>
      have hn : n ≤ q.length := hop
      rw [step, List.length_append, List.length_drop] at hle
      refine ⟨?_, ?_⟩
      · rw [puts, takes, List.length_append]
        omega
      · rw [step, puts, takes, ← List.drop_drop, List.drop_append_of_le_length hn]

/-- A machine whose states are queues under `contents`, as long as they are `ok` and its operations
keep to `guard`; `op` says what an operation does to the queue. -/
structure Implements (machine : σ → ε → σ) (ok : σ → Prop) (guard : σ → ε → Prop)
    (contents : σ → List α) (op : ε → Op α) : Prop where
  ok_step : ∀ s e, ok s → guard s e → ok (machine s e)
  within : ∀ s e, ok s → guard s e → Within (contents s) (op e)
  contents_step : ∀ s e, ok s → guard s e → contents (machine s e) = step (contents s) (op e)

/-- A run of the machine is a run of the queue. -/
theorem Implements.run {machine : σ → ε → σ} {ok : σ → Prop} {guard : σ → ε → Prop}
    {contents : σ → List α} {op : ε → Op α} (h : Implements machine ok guard contents op) {s : σ}
    (h0 : ok s) {es : List ε} (hes : Machine.Guarded machine guard s es) :
    ok (Machine.run machine s es) ∧
      Machine.Guarded step Within (contents s) (es.map op) ∧
      contents (Machine.run machine s es) = Machine.run step (contents s) (es.map op) := by
  induction es generalizing s with
  | nil => exact ⟨h0, trivial, rfl⟩
  | cons e es ih =>
    obtain ⟨he, hrest⟩ := hes
    obtain ⟨hok, hguard, hrun⟩ := ih (h.ok_step s e h0 he) hrest
    rw [h.contents_step s e h0 he] at hguard hrun
    exact ⟨hok, ⟨h.within s e h0 he, hguard⟩, hrun⟩

/-- The contents of a machine that starts empty. -/
theorem Implements.contents_run {machine : σ → ε → σ} {ok : σ → Prop} {guard : σ → ε → Prop}
    {contents : σ → List α} {op : ε → Op α} (h : Implements machine ok guard contents op) {s : σ}
    (h0 : ok s) (hnil : contents s = []) {es : List ε} (hes : Machine.Guarded machine guard s es) :
    contents (Machine.run machine s es) = (puts (es.map op)).drop (takes (es.map op)) := by
  obtain ⟨-, hguard, hrun⟩ := h.run h0 hes
  rw [hrun, (run_eq hguard).2, hnil, List.nil_append]

end Fifo
