import Mathlib.Data.List.Nodup
import Mathlib.Logic.Function.Basic
import Mathlib.Tactic.SplitIfs

/-!
# Singly linked lists in a heap

The links of a heap are a function `next : α → Option α`; a list in the heap is known by a pointer to
its first cell.

* `Chain next p l`: the cells reached from `p` are those of `l`, and the last one points nowhere.
* `walk`, `grab` and `lastCell` are the loops that follow links.
* `Chain.cut` and `Chain.splice` say what writing one link does to the lists around it.
-/

namespace Linked

variable {α : Type*}

/-- The cells reached from `p` are those of `l`, in that order; the last one points nowhere. -/
def Chain (next : α → Option α) : Option α → List α → Prop
  | p, [] => p = none
  | p, a :: l => p = some a ∧ Chain next (next a) l

/-- Follow `k` links; `none` if the list ends before. -/
def walk (next : α → Option α) : ℕ → Option α → Option α
  | 0, p => p
  | k + 1, p => p.bind fun a => walk next k (next a)

/-- Follow links while there are any, at most `k`: the cell reached and the number of links. -/
def grab (next : α → Option α) : ℕ → α → α × ℕ
  | 0, a => (a, 0)
  | k + 1, a =>
    match next a with
    | none => (a, 0)
    | some b => ((grab next k b).1, (grab next k b).2 + 1)

/-- The last cell of the list at `a`; `none` if it is not reached within `k` cells. -/
def lastCell (next : α → Option α) : ℕ → α → Option α
  | 0, _ => none
  | k + 1, a =>
    match next a with
    | none => some a
    | some b => lastCell next k b

section Chain

variable {next next' : α → Option α} {p q : Option α} {l l' : List α}

theorem Chain.congr (h : Chain next p l) (heq : ∀ a ∈ l, next' a = next a) : Chain next' p l := by
  induction l generalizing p with
  | nil => exact h
  | cons a l ih =>
    rw [List.forall_mem_cons] at heq
    refine ⟨h.1, ?_⟩
    rw [heq.1]
    exact ih h.2 heq.2

theorem Chain.eq_head? (h : Chain next p l) : p = l.head? := by
  cases l with
  | nil => exact h
  | cons a l => exact h.1

theorem Chain.unique (h : Chain next p l) (h' : Chain next p l') : l = l' := by
  induction l generalizing p l' with
  | nil =>
    cases l' with
    | nil => rfl
    | cons a l' => cases h.symm.trans h'.1
  | cons a l ih =>
    cases l' with
    | nil => cases h.1.symm.trans h'
    | cons b l' =>
      obtain rfl : a = b := Option.some.inj (h.1.symm.trans h'.1)
      rw [ih h.2 h'.2]

theorem Chain.walk (h : Chain next p l) (k : ℕ) : walk next k p = l[k]? := by
  induction k generalizing p l with
  | zero => rw [Linked.walk, h.eq_head?, List.head?_eq_getElem?]
  | succ k ih =>
    cases l with
    | nil => rw [show p = none from h]; rfl
    | cons a l =>
      rw [h.1, List.getElem?_cons_succ, ← ih h.2]
      rfl

theorem Chain.grab {a : α} (h : Chain next (some a) (a :: l)) (k : ℕ) :
    (grab next k a).2 = min k l.length ∧ (a :: l)[min k l.length]? = some (grab next k a).1 := by
  induction k generalizing a l with
  | zero => simp [Linked.grab]
  | succ k ih =>
    cases l with
    | nil => simp [Linked.grab, show next a = none from h.2]
    | cons b l =>
      obtain ⟨hnum, hcell⟩ := ih (show Chain next (some b) (b :: l) from ⟨rfl, h.2.2⟩)
      simp only [Linked.grab, h.2.1, hnum, List.length_cons, Nat.succ_min_succ,
        List.getElem?_cons_succ, true_and]
      exact hcell

theorem Chain.lastCell {a : α} (h : Chain next (some a) (a :: l)) {k : ℕ} (hk : l.length < k) :
    ∃ front b, a :: l = front ++ [b] ∧ lastCell next k a = some b := by
  induction k generalizing a l with
  | zero => omega
  | succ k ih =>
    cases l with
    | nil => exact ⟨[], a, rfl, by simp [Linked.lastCell, show next a = none from h.2]⟩
    | cons b l =>
      obtain ⟨front, c, hsplit, hlast⟩ :=
        ih (show Chain next (some b) (b :: l) from ⟨rfl, h.2.2⟩) (Nat.lt_of_succ_lt_succ hk)
      refine ⟨a :: front, c, by rw [hsplit]; rfl, ?_⟩
      rw [← hlast, Linked.lastCell, h.2.1]

/-- Behind a cell stands the rest of its list. -/
theorem Chain.tail {a : α} (h : Chain next p (l ++ a :: l')) : Chain next (next a) l' := by
  induction l generalizing p with
  | nil => exact h.2
  | cons b l ih => exact ih h.2

end Chain

section Write

variable [DecidableEq α] {next : α → Option α} {p q : Option α} {l l' : List α} {a : α}

/-- Writing the link of a cell that is not in the list leaves the list. -/
theorem Chain.update (h : Chain next p l) (ha : a ∉ l) :
    Chain (Function.update next a q) p l := by
  refine h.congr fun b hb => ?_
  rw [Function.update_of_ne]
  rintro rfl
  exact ha hb

/-- A new first cell. -/
theorem Chain.push (h : Chain next p l) (ha : a ∉ l) :
    Chain (Function.update next a p) (some a) (a :: l) := by
  refine ⟨rfl, ?_⟩
  rw [Function.update_self]
  exact h.update ha

/-- Pointing a cell elsewhere makes the list go on there. -/
theorem Chain.splice (h : Chain next p (l ++ a :: l')) (ha : a ∉ l) {l'' : List α}
    (hq : Chain next q l'') (ha'' : a ∉ l'') :
    Chain (Function.update next a q) p (l ++ a :: l'') := by
  induction l generalizing p with
  | nil => exact ⟨h.1, by rw [Function.update_self]; exact hq.update ha''⟩
  | cons b l ih =>
    rw [List.mem_cons, not_or] at ha
    refine ⟨h.1, ?_⟩
    rw [Function.update_of_ne (Ne.symm ha.1)]
    exact ih h.2 ha.2

/-- Pointing a cell nowhere ends the list there. -/
theorem Chain.cut (h : Chain next p (l ++ a :: l')) (ha : a ∉ l) :
    Chain (Function.update next a none) p (l ++ [a]) :=
  h.splice ha (show Chain next none [] from rfl) List.not_mem_nil

end Write

end Linked
