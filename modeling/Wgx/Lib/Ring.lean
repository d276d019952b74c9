import Mathlib.Data.Nat.ModEq
import Mathlib.Data.List.Range
import Mathlib.Tactic.SplitIfs

/-!
# Ring buffers

An array of `cap` cells is a function from positions; a ring is read from the position `head` on,
wrapping at `cap`.

* `window buf cap head n` is the list of the `n` cells from `head` on.
* `ringRead` and `ringWrite` move a list out of and into the ring with at most two block copies.
* `window_push`, `window_drop`, `window_ringWrite` and `ringRead_window` say what the queue
  operations do to the window.
-/

namespace Ring

variable {α : Type*}

/-- The `n` cells from `head` on, wrapping at `cap`. -/
def window (buf : ℕ → α) (cap head n : ℕ) : List α :=
  (List.range n).map fun i => buf ((head + i) % cap)

/-- The `n` cells from `pos` on, without wrapping. -/
def slice (buf : ℕ → α) (pos n : ℕ) : List α := (List.range n).map fun i => buf (pos + i)

/-- Copy `data` into the cells from `pos` on, without wrapping. -/
def blit (buf : ℕ → α) (pos : ℕ) (data : List α) : ℕ → α := fun i =>
  if pos ≤ i then (data[i - pos]?).getD (buf i) else buf i

/-- Read `n` cells from `pos` on: up to the end of the array, then from its start. -/
def ringRead (buf : ℕ → α) (cap pos n : ℕ) : List α :=
  let first := if cap - pos > n then n else cap - pos
  slice buf pos first ++ slice buf 0 (n - first)

/-- Write `data` from `pos` on: up to the end of the array, then from its start. -/
def ringWrite (buf : ℕ → α) (cap pos : ℕ) (data : List α) : ℕ → α :=
  let first := if cap - pos > data.length then data.length else cap - pos
  blit (blit buf pos (data.take first)) 0 (data.drop first)

@[simp] theorem length_window (buf : ℕ → α) (cap head n : ℕ) :
    (window buf cap head n).length = n := by
  simp [window]

@[simp] theorem length_slice (buf : ℕ → α) (pos n : ℕ) : (slice buf pos n).length = n := by
  simp [slice]

@[simp] theorem window_zero (buf : ℕ → α) (cap head : ℕ) : window buf cap head 0 = [] := rfl

theorem getElem?_window (buf : ℕ → α) (cap head n i : ℕ) :
    (window buf cap head n)[i]? = if i < n then some (buf ((head + i) % cap)) else none := by
  rw [window, List.getElem?_map]
  by_cases h : i < n
  · rw [List.getElem?_range h, if_pos h]; rfl
  · rw [List.getElem?_eq_none (by simpa using Nat.le_of_not_lt h), if_neg h]; rfl

theorem getElem?_slice (buf : ℕ → α) (pos n i : ℕ) :
    (slice buf pos n)[i]? = if i < n then some (buf (pos + i)) else none := by
  rw [slice, List.getElem?_map]
  by_cases h : i < n
  · rw [List.getElem?_range h, if_pos h]; rfl
  · rw [List.getElem?_eq_none (by simpa using Nat.le_of_not_lt h), if_neg h]; rfl

theorem window_succ (buf : ℕ → α) (cap head n : ℕ) :
    window buf cap head (n + 1) = window buf cap head n ++ [buf ((head + n) % cap)] := by
  simp [window, List.range_succ]

theorem window_congr {buf buf' : ℕ → α} {cap head n : ℕ}
    (h : ∀ i < n, buf ((head + i) % cap) = buf' ((head + i) % cap)) :
    window buf cap head n = window buf' cap head n := by
  simpa [window, List.map_inj_left] using h

/-- Positions of a ring that is not overfull are distinct. -/
theorem slot_inj {cap head i j : ℕ} (hi : i < cap) (hj : j < cap)
    (h : (head + i) % cap = (head + j) % cap) : i = j := by
  have hmod : Nat.ModEq cap i j := Nat.ModEq.add_left_cancel' head h
  rwa [Nat.ModEq, Nat.mod_eq_of_lt hi, Nat.mod_eq_of_lt hj] at hmod

/-- A cell written behind the window extends it. -/
theorem window_push (buf : ℕ → α) {cap head n : ℕ} (h : n < cap) (a : α) :
    window (Function.update buf ((head + n) % cap) a) cap head (n + 1) =
      window buf cap head n ++ [a] := by
  rw [window_succ, Function.update_self]
  congr 1
  apply window_congr
  intro i hi
  refine Function.update_of_ne (fun heq => ?_) _ _
  exact absurd (slot_inj (hi.trans h) h heq) hi.ne

/-- Moving the head drops the front of the window. -/
theorem window_drop (buf : ℕ → α) (cap head n k : ℕ) :
    window buf cap ((head + k) % cap) (n - k) = (window buf cap head n).drop k := by
  apply List.ext_getElem?
  intro i
  rw [List.getElem?_drop, getElem?_window, getElem?_window, Nat.mod_add_mod, Nat.add_assoc]
  exact if_congr (by omega) rfl rfl

theorem window_take (buf : ℕ → α) (cap head n k : ℕ) :
    (window buf cap head n).take k = window buf cap head (min k n) := by
  rw [window, ← List.map_take, List.take_range, window]

theorem window_cons (buf : ℕ → α) (cap head n : ℕ) :
    window buf cap head (n + 1) =
      buf (head % cap) :: window buf cap ((head + 1) % cap) n := by
  have hdrop := window_drop buf cap head (n + 1) 1
  have hhead : (window buf cap head (n + 1))[0]? = some (buf (head % cap)) := by
    rw [getElem?_window, if_pos (Nat.succ_pos n), Nat.add_zero]
  rw [Nat.add_sub_cancel] at hdrop
  rw [hdrop]
  cases hw : window buf cap head (n + 1) with
  | nil => rw [hw] at hhead; cases hhead
  | cons a l => rw [hw] at hhead; cases hhead; rfl

/-- Two block copies read the window. -/
theorem ringRead_eq (buf : ℕ → α) {cap pos n : ℕ} (hpos : pos < cap) (hn : n ≤ cap) :
    ringRead buf cap pos n = window buf cap pos n := by
  apply List.ext_getElem?
  intro i
  simp only [ringRead]
  generalize hf : (if cap - pos > n then n else cap - pos) = first
  have hfirst : first ≤ n ∧ first ≤ cap - pos ∧ (first < n → first = cap - pos) := by
    split_ifs at hf <;> omega
  rw [getElem?_window, List.getElem?_append, length_slice, getElem?_slice, getElem?_slice]
  by_cases hi : i < first
  · rw [if_pos hi, if_pos hi, if_pos (by omega), Nat.mod_eq_of_lt (by omega)]
  · rw [if_neg hi]
    by_cases hin : i < n
    · -- the second copy starts where the array wraps
      have hwrap : (pos + i) % cap = 0 + (i - first) := by
        rw [Nat.mod_eq_sub_mod (by omega), Nat.mod_eq_of_lt (by omega)]
        omega
      rw [if_pos hin, if_pos (by omega), hwrap]
    · rw [if_neg hin, if_neg (by omega)]

/-- Reading at an offset into a window reads a part of it. -/
theorem ringRead_window (buf : ℕ → α) {cap head len off n : ℕ} (hcap : 0 < cap)
    (hlen : len ≤ cap) (hoff : off + n ≤ len) :
    ringRead buf cap ((head + off) % cap) n = ((window buf cap head len).drop off).take n := by
  rw [ringRead_eq buf (Nat.mod_lt _ hcap) (by omega), ← window_drop, window_take,
    min_eq_left (by omega)]

theorem blit_apply_of_lt {buf : ℕ → α} {pos : ℕ} {data : List α} {i : ℕ}
    (h1 : pos ≤ i) (h2 : i - pos < data.length) : blit buf pos data i = data[i - pos] := by
  rw [blit, if_pos h1, List.getElem?_eq_getElem h2]
  rfl

theorem blit_apply_of_not {buf : ℕ → α} {pos : ℕ} {data : List α} {i : ℕ}
    (h : i < pos ∨ pos + data.length ≤ i) : blit buf pos data i = buf i := by
  rw [blit]
  split_ifs with hi
  · rw [List.getElem?_eq_none (by omega)]; rfl
  · rfl

theorem slice_add (buf : ℕ → α) (pos m n : ℕ) :
    slice buf pos (m + n) = slice buf pos m ++ slice buf (pos + m) n := by
  simp [slice, List.range_add, Nat.add_assoc]

/-- A block copy is read back. -/
theorem slice_blit (buf : ℕ → α) (pos : ℕ) (data : List α) :
    slice (blit buf pos data) pos data.length = data := by
  apply List.ext_getElem?
  intro i
  rw [getElem?_slice]
  split_ifs with hi
  · rw [blit_apply_of_lt (Nat.le_add_right pos i) (by omega)]
    simp only [Nat.add_sub_cancel_left]
    rw [List.getElem?_eq_getElem hi]
  · rw [List.getElem?_eq_none (Nat.le_of_not_lt hi)]

/-- The cell at distance `i` behind `pos` after a ring write. -/
theorem ringWrite_apply (buf : ℕ → α) {cap pos : ℕ} {data : List α} (hpos : pos < cap)
    (hdata : data.length ≤ cap) {i : ℕ} (hi : i < cap) :
    ringWrite buf cap pos data ((pos + i) % cap) = (data[i]?).getD (buf ((pos + i) % cap)) := by
  simp only [ringWrite]
  generalize hf : (if cap - pos > data.length then data.length else cap - pos) = first
  have hfirst : first ≤ data.length ∧ first ≤ cap - pos ∧
      (first < data.length → first = cap - pos) := by
    split_ifs at hf <;> omega
  have hlen1 : (data.take first).length = first := by simp; omega
  have hlen2 : (data.drop first).length = data.length - first := by simp
  by_cases hwrap : pos + i < cap
  · rw [Nat.mod_eq_of_lt hwrap]
    have hsecond : blit (blit buf pos (data.take first)) 0 (data.drop first) (pos + i) =
        blit buf pos (data.take first) (pos + i) :=
      blit_apply_of_not (by omega)
    rw [hsecond]
    by_cases hi2 : i < first
    · rw [blit_apply_of_lt (by omega) (by omega), List.getElem_take,
        List.getElem?_eq_getElem (by omega)]
      simp
    · rw [blit_apply_of_not (by omega), List.getElem?_eq_none (by omega)]
      rfl
  · have hmod : (pos + i) % cap = pos + i - cap := by
      rw [Nat.mod_eq_sub_mod (by omega), Nat.mod_eq_of_lt (by omega)]
    rw [hmod]
    by_cases hi2 : i < data.length
    · have hsub : first + (pos + i - cap - 0) = i := by omega
      rw [blit_apply_of_lt (Nat.zero_le _) (by omega), List.getElem_drop,
        List.getElem?_eq_getElem hi2]
      simp only [hsub, Option.getD_some]
    · rw [blit_apply_of_not (by omega), blit_apply_of_not (by omega),
        List.getElem?_eq_none (by omega)]
      rfl

/-- Writing behind the window appends to it. -/
theorem window_ringWrite (buf : ℕ → α) {cap head len : ℕ} {data : List α} (hcap : 0 < cap)
    (hfit : len + data.length ≤ cap) :
    window (ringWrite buf cap ((head + len) % cap) data) cap head (len + data.length) =
      window buf cap head len ++ data := by
  have hpos : (head + len) % cap < cap := Nat.mod_lt _ hcap
  apply List.ext_getElem?
  intro i
  rw [getElem?_window, List.getElem?_append, length_window]
  by_cases hi : i < len
  · rw [if_pos (by omega), if_pos hi, getElem?_window, if_pos hi]
    -- a cell of the old window is `cap - len + i` cells behind the write position
    have hback : (head + i) % cap = ((head + len) % cap + (cap - len + i)) % cap := by
      rw [Nat.mod_add_mod, show head + len + (cap - len + i) = head + i + cap by omega,
        Nat.add_mod_right]
    rw [hback, ringWrite_apply buf hpos (by omega) (by omega),
      List.getElem?_eq_none (by omega)]
    rfl
  · rw [if_neg hi]
    by_cases hin : i < len + data.length
    · have hfwd : (head + i) % cap = ((head + len) % cap + (i - len)) % cap := by
        rw [Nat.mod_add_mod, show head + len + (i - len) = head + i by omega]
      rw [if_pos hin, hfwd, ringWrite_apply buf hpos (by omega) (by omega),
        List.getElem?_eq_getElem (by omega)]
      rfl
    · rw [if_neg hin, List.getElem?_eq_none (by omega)]

/-- A block copied to the start of an array is its window from `0` on. -/
theorem window_blit_zero (buf : ℕ → α) {cap : ℕ} {data : List α} (hfit : data.length ≤ cap) :
    window (blit buf 0 data) cap 0 data.length = data := by
  apply List.ext_getElem?
  intro i
  rw [getElem?_window, Nat.zero_add]
  by_cases hi : i < data.length
  · rw [if_pos hi, Nat.mod_eq_of_lt (by omega), blit_apply_of_lt (Nat.zero_le _) (by omega),
      List.getElem?_eq_getElem hi]
    rfl
  · rw [if_neg hi, List.getElem?_eq_none (by omega)]

/-- A ring copied out and to the start of another array is the same queue. -/
theorem window_blit_ringRead (buf buf' : ℕ → α) {cap cap' head len : ℕ} (hhead : head < cap)
    (hlen : len ≤ cap) (hfit : len ≤ cap') :
    window (blit buf' 0 (ringRead buf cap head len)) cap' 0 len = window buf cap head len := by
  rw [ringRead_eq buf hhead hlen]
  have hcopy := @window_blit_zero _ buf' cap' (window buf cap head len)
    (by rwa [length_window])
  rwa [length_window] at hcopy

end Ring
