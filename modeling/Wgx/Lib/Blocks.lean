import Mathlib.Data.List.Basic

/-!
# Gathering a message into blocks

A function `f` is folded over the blocks of a message, `n` elements each.  What has been read of the
current block is pending; a full block stays pending until the next element comes, so that the last
block of a message, full or not, is always still there at its end.

* `push`, `absorb`: one element, and a piece of a message;
* `absorb_append`, `absorb_flatten`: the pieces do not count;
* `absorb_of_le`, `absorb_block`: a piece that fits into the block, and one that fills it.
-/

namespace Blocks

variable {σ α : Type*}

/-- What has been read of a message: the blocks that are folded, and the block that is pending. -/
structure Gather (σ α : Type*) where
  acc : σ
  pending : List α

variable (n : ℕ) (f : σ → List α → σ)

/-- One more element. -/
def push (g : Gather σ α) (x : α) : Gather σ α :=
  if g.pending.length = n then ⟨f g.acc g.pending, [x]⟩ else ⟨g.acc, g.pending ++ [x]⟩

/-- One more piece of the message. -/
def absorb (g : Gather σ α) (data : List α) : Gather σ α := data.foldl (push n f) g

variable {n f}

@[simp] theorem absorb_nil (g : Gather σ α) : absorb n f g [] = g := rfl

theorem absorb_append (g : Gather σ α) (data more : List α) :
    absorb n f g (data ++ more) = absorb n f (absorb n f g data) more := List.foldl_append

/-- **The pieces of a message do not count**, only what they add up to. -/
theorem absorb_flatten (g : Gather σ α) (chunks : List (List α)) :
    chunks.foldl (absorb n f) g = absorb n f g chunks.flatten := by
  induction chunks generalizing g with
  | nil => rfl
  | cons chunk chunks ih => rw [List.foldl_cons, ih, List.flatten_cons, absorb_append]

theorem absorb_of_le {g : Gather σ α} {data : List α} (h : g.pending.length + data.length ≤ n) :
    absorb n f g data = ⟨g.acc, g.pending ++ data⟩ := by
  induction data generalizing g with
  | nil => rw [List.append_nil]; rfl
  | cons x data ih =>
    rw [List.length_cons] at h
    have hpush : push n f g x = ⟨g.acc, g.pending ++ [x]⟩ := if_neg (by omega)
    show absorb n f (push n f g x) data = _
    rw [hpush, ih (by simp; omega)]
    simp

/-- A piece that fills the block and goes on. -/
theorem absorb_block {g : Gather σ α} {data more : List α} (hn : 0 < n)
    (h : g.pending.length + data.length = n) (hmore : more ≠ []) :
    absorb n f g (data ++ more) = absorb n f ⟨f g.acc (g.pending ++ data), []⟩ more := by
  rw [absorb_append, absorb_of_le (Nat.le_of_eq h)]
  cases more with
  | nil => exact absurd rfl hmore
  | cons x more =>
    -- the first element behind the block starts the next one
    have hfull : push n f ⟨g.acc, g.pending ++ data⟩ x = ⟨f g.acc (g.pending ++ data), [x]⟩ :=
      if_pos (by simpa using h)
    have hempty : push n f ⟨f g.acc (g.pending ++ data), []⟩ x =
        ⟨f g.acc (g.pending ++ data), [x]⟩ := if_neg (Nat.ne_of_lt hn)
    show absorb n f (push n f _ x) more = absorb n f (push n f _ x) more
    rw [hfull, hempty]

end Blocks
