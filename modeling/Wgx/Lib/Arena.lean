import Mathlib.Data.List.Perm.Subperm
import Wgx.Lib.Queue

/-!
# Cells with a queue of those that wait

An arena is a growing number of cells, each with a value, and a queue of cells.  The values say
which cells wait; `Arena.Exact` says that the queue agrees with them.

* `Arena.put`, `Arena.push`, `Arena.unlink` and `Arena.drain` are what the operations of a program
  are made of: they write values and links separately.
* `Arena.move` writes a value and keeps the queue in step with it; `Arena.exact_move` is the rule
  for an operation that is shown to be a `move`.
* `Arena.exact_drain` is the rule for the callback that takes the whole queue and serves its cells.
-/

namespace Linked

variable {β : Type*}

/-- Cells `0`, …, `brk - 1` with their values, and a queue of them. -/
structure Arena (β : Type*) where
  queue : Queue ℕ
  cells : ℕ → β
  brk : ℕ

namespace Arena

/-- Without cells; `b` stands where none is. -/
def empty (b : β) : Arena β := ⟨.empty, fun _ => b, 0⟩

/-- A new cell. -/
def alloc (b : β) (s : Arena β) : Arena β :=
  { s with cells := Function.update s.cells s.brk b, brk := s.brk + 1 }

/-- Write the value of a cell. -/
def put (i : ℕ) (b : β) (s : Arena β) : Arena β := { s with cells := Function.update s.cells i b }

/-- A cell is appended to the queue. -/
def push (i : ℕ) (s : Arena β) : Arena β := { s with queue := s.queue.push i }

/-- A cell is taken off the queue, which has at most as many cells as there are. -/
def unlink (i : ℕ) (s : Arena β) : Arena β := { s with queue := s.queue.unlink s.brk i }

/-- Serve the cells from `p` on, at most `k`: the link of a cell is read and cleared before. -/
def serveFrom (serve : ℕ → Arena β → Arena β) : ℕ → Option ℕ → Arena β → Arena β
  | 0, _, s => s
  | k + 1, p, s =>
    match p with
    | none => s
    | some i =>
      serveFrom serve k (s.queue.next i) (serve i { s with queue := s.queue.setNext i none })

/-- The queue is emptied, and the cells that were on it are served. -/
def drain (serve : ℕ → Arena β → Arena β) (s : Arena β) : Arena β :=
  serveFrom serve s.brk s.queue.head { s with queue := s.queue.detach }

/-- The value of a cell changes, and the cell enters or leaves the queue if that makes it wait, or
no longer. -/
def move (waits : β → Bool) (i : ℕ) (b : β) (s : Arena β) : Arena β :=
  if waits (s.cells i) then if waits b then s.put i b else (s.unlink i).put i b
  else if waits b then (s.put i b).push i
  else s.put i b

/-- What `move` makes of the list of the cells on the queue. -/
def relist (waits : β → Bool) (i : ℕ) (b : β) (l : List ℕ) : List ℕ :=
  if waits b then if i ∈ l then l else l ++ [i] else l.erase i

/-- The cells on the queue are those of `l`: those that wait.  None of them is gone. -/
structure Exact (waits gone : β → Bool) (s : Arena β) (l : List ℕ) : Prop where
  holds : s.queue.Holds l
  mem_iff : ∀ i, i ∈ l ↔ i < s.brk ∧ waits (s.cells i) = true
  present : ∀ i ∈ l, gone (s.cells i) = false

/-! ### Values and links -/

section Move

variable {waits : β → Bool} {i : ℕ} {b b' : β} {s : Arena β}

@[simp] theorem cells_put : (s.put i b).cells = Function.update s.cells i b := rfl

@[simp] theorem cells_push : (s.push i).cells = s.cells := rfl

@[simp] theorem cells_unlink : (s.unlink i).cells = s.cells := rfl

@[simp] theorem put_put : (s.put i b).put i b' = s.put i b' := by
  unfold put
  rw [Function.update_idem]

theorem put_self : s.put i (s.cells i) = s := by
  unfold put
  rw [Function.update_eq_self]

theorem cells_move (waits : β → Bool) : (s.move waits i b).cells = Function.update s.cells i b := by
  unfold move
  split_ifs <;> rfl

theorem cells_move_self (waits : β → Bool) : (s.move waits i b).cells i = b := by
  rw [cells_move, Function.update_self]

theorem brk_move (waits : β → Bool) : (s.move waits i b).brk = s.brk := by
  unfold move
  split_ifs <;> rfl

/-- A value that makes no difference to the queue. -/
theorem move_of_eq (h : waits b = waits (s.cells i)) : s.move waits i b = s.put i b := by
  unfold move
  cases hw : waits (s.cells i) <;> rw [hw] at h <;> rw [h] <;> rfl

theorem move_of_waits (hw : waits (s.cells i) = false) (hb : waits b = true) :
    s.move waits i b = (s.put i b).push i := by
  unfold move
  rw [hw, hb]
  rfl

theorem move_of_rests (hw : waits (s.cells i) = true) (hb : waits b = false) :
    s.move waits i b = (s.unlink i).put i b := by
  unfold move
  rw [hw, hb]
  rfl

theorem move_self : s.move waits i (s.cells i) = s := by rw [move_of_eq rfl, put_self]

/-- Two changes one after the other, one of which makes no difference to the queue. -/
theorem move_move (h : waits b = waits (s.cells i) ∨ waits b' = waits b) :
    (s.move waits i b).move waits i b' = s.move waits i b' := by
  have hself : (s.put i b).cells i = b := Function.update_self ..
  rcases h with h | h
  · rw [move_of_eq h]
    unfold move
    rw [hself, h]
    split_ifs
    · exact put_put
    · exact put_put (s := s.unlink i)
    · exact congrArg (push i) put_put
    · exact put_put
  · rw [move_of_eq (h.trans (congrArg waits (cells_move_self waits).symm))]
    unfold move
    rw [h]
    split_ifs
    · exact put_put
    · exact put_put
    · exact congrArg (push i) put_put
    · exact put_put

theorem put_move (h : waits b = waits (s.cells i)) :
    (s.put i b).move waits i b' = s.move waits i b' := by
  rw [← move_of_eq h, move_move (.inl h)]

theorem move_put (h : waits b' = waits b) :
    (s.move waits i b).put i b' = s.move waits i b' := by
  have hcell : waits b' = waits ((s.move waits i b).cells i) := by
    rw [cells_move_self, h]
  exact (move_of_eq hcell).symm.trans (move_move (.inr h))

end Move

/-! ### The queue in step -/

section Exact

variable {waits gone : β → Bool} {i : ℕ} {b : β} {s : Arena β} {l : List ℕ}

theorem Exact.length_le (h : Exact waits gone s l) : l.length ≤ s.brk := by
  have hsub : l ⊆ List.range s.brk := fun i hi => List.mem_range.2 ((h.mem_iff i).1 hi).1
  have hle := (List.subperm_of_subset h.holds.nodup hsub).length_le
  rwa [List.length_range] at hle

theorem exact_empty : Exact waits gone (empty b) [] :=
  ⟨Queue.holds_empty, fun i => by simp [empty], fun i hi => absurd hi List.not_mem_nil⟩

/-- A new cell does not wait. -/
theorem exact_alloc (h : Exact waits gone s l) (hb : waits b = false) :
    Exact waits gone (s.alloc b) l := by
  have hold : ∀ i, i ≠ s.brk → (s.alloc b).cells i = s.cells i := fun i hi =>
    Function.update_of_ne hi ..
  refine ⟨h.holds, fun i => ?_, fun i hi => ?_⟩
  · rw [h.mem_iff]
    change _ ↔ i < s.brk + 1 ∧ waits ((s.alloc b).cells i) = true
    rcases eq_or_ne i s.brk with rfl | hne
    · rw [show (s.alloc b).cells s.brk = b from Function.update_self .., hb]
      simp
    · rw [hold i hne, Nat.lt_succ_iff_lt_or_eq, or_iff_left hne]
  · rw [hold i (Nat.ne_of_lt ((h.mem_iff i).1 hi).1)]
    exact h.present i hi

/-- The value of a cell changes, and the queue is that of the cells that wait afterwards. -/
theorem exact_of_update {s' : Arena β} {l' : List ℕ} (h : Exact waits gone s l)
    (hi : i < s.brk) (hcells : s'.cells = Function.update s.cells i b) (hbrk : s'.brk = s.brk)
    (hholds : s'.queue.Holds l') (hmem : ∀ j, j ≠ i → (j ∈ l' ↔ j ∈ l))
    (hself : i ∈ l' ↔ waits b = true) (hb : waits b = true → gone b = false) :
    Exact waits gone s' l' := by
  refine ⟨hholds, fun j => ?_, fun j hj => ?_⟩
  · rw [hcells, hbrk]
    rcases eq_or_ne j i with rfl | hne
    · rw [Function.update_self, hself, and_iff_right hi]
    · rw [Function.update_of_ne hne, hmem j hne, h.mem_iff]
  · rw [hcells]
    rcases eq_or_ne j i with rfl | hne
    · rw [Function.update_self]
      exact hb (hself.1 hj)
    · rw [Function.update_of_ne hne]
      exact h.present j ((hmem j hne).1 hj)

/-- **The rule for an operation**: a cell that is made to wait is not gone. -/
theorem exact_move (h : Exact waits gone s l) (hi : i < s.brk)
    (hb : waits b = true → gone b = false) :
    Exact waits gone (s.move waits i b) (relist waits i b l) := by
  have hupdate : ∀ {s' : Arena β}, s' = s.move waits i b →
      s'.cells = Function.update s.cells i b ∧ s'.brk = s.brk := by
    rintro s' rfl
    exact ⟨cells_move waits, brk_move waits⟩
  have hin : i ∈ l ↔ waits (s.cells i) = true := by rw [h.mem_iff, and_iff_right hi]
  cases hwas : waits (s.cells i) with
  | true =>
    cases hwill : waits b with
    | true =>
      have hmove := @move_of_eq _ waits i b s (hwill.trans hwas.symm)
      obtain ⟨hcells, hbrk⟩ := hupdate hmove.symm
      rw [hmove, relist, if_pos hwill, if_pos (hin.2 hwas)]
      exact exact_of_update h hi hcells hbrk h.holds (fun _ _ => Iff.rfl)
        (by rw [hin, hwas, hwill]) hb
    | false =>
      have hmove := @move_of_rests _ waits i b s hwas hwill
      obtain ⟨hcells, hbrk⟩ := hupdate hmove.symm
      rw [hmove, relist, if_neg (Bool.eq_false_iff.1 hwill)]
      refine exact_of_update h hi hcells hbrk (h.holds.unlink h.length_le)
        (fun j hj => List.mem_erase_of_ne hj) ?_ hb
      rw [hwill]
      exact ⟨fun hmem => absurd hmem h.holds.nodup.not_mem_erase, nofun⟩
  | false =>
    have hout : i ∉ l := by rw [hin, hwas]; exact Bool.false_ne_true
    cases hwill : waits b with
    | true =>
      have hmove := @move_of_waits _ waits i b s hwas hwill
      obtain ⟨hcells, hbrk⟩ := hupdate hmove.symm
      rw [hmove, relist, if_pos hwill, if_neg hout]
      refine exact_of_update h hi hcells hbrk (h.holds.push hout) (fun j hj => ?_) ?_ hb
      · rw [List.mem_append, List.mem_singleton, or_iff_left hj]
      · rw [hwill]
        exact iff_of_true (List.mem_append_right _ (List.mem_singleton_self i)) rfl
    | false =>
      have hmove := @move_of_eq _ waits i b s (hwill.trans hwas.symm)
      obtain ⟨hcells, hbrk⟩ := hupdate hmove.symm
      rw [hmove, relist, if_neg (Bool.eq_false_iff.1 hwill), List.erase_of_not_mem hout]
      exact exact_of_update h hi hcells hbrk h.holds (fun _ _ => Iff.rfl)
        (by rw [hin, hwas, hwill]) hb

/-- Serving the cells of a list one after the other, where each serves its own value. -/
theorem serveFrom_spec {serve : ℕ → Arena β → Arena β} {f : ℕ → β → β}
    (hserve : ∀ i s, serve i s = s.put i (f i (s.cells i))) {k : ℕ} {p : Option ℕ} {l : List ℕ}
    (hp : Chain s.queue.next p l) (hl : l.Nodup) (hk : l.length ≤ k) :
    (serveFrom serve k p s).queue.head = s.queue.head ∧
      (serveFrom serve k p s).queue.tail = s.queue.tail ∧
      (serveFrom serve k p s).queue.armed = s.queue.armed ∧
      (serveFrom serve k p s).brk = s.brk ∧
      ∀ i, (serveFrom serve k p s).cells i = if i ∈ l then f i (s.cells i) else s.cells i := by
  induction l generalizing k p s with
  | nil =>
    rw [show p = none from hp]
    cases k <;> exact ⟨rfl, rfl, rfl, rfl, fun i => rfl⟩
  | cons a l ih =>
    obtain ⟨k, rfl⟩ : ∃ k', k = k' + 1 := ⟨k - 1, by rw [List.length_cons] at hk; omega⟩
    rw [List.nodup_cons] at hl
    rw [hp.1, serveFrom, hserve]
    set s' := ({ s with queue := s.queue.setNext a none } : Arena β).put a (f a (s.cells a))
    obtain ⟨hhead, htail, harmed, hbrk, hcells⟩ := @ih s' k (s.queue.next a)
      (hp.2.update hl.1) hl.2 (Nat.le_of_succ_le_succ hk)
    refine ⟨hhead, htail, harmed, hbrk, fun i => ?_⟩
    refine (hcells i).trans ?_
    rcases eq_or_ne i a with rfl | hne
    · rw [if_neg hl.1, if_pos List.mem_cons_self]
      exact Function.update_self ..
    · rw [show s'.cells i = s.cells i from Function.update_of_ne hne ..]
      simp only [List.mem_cons, hne, false_or]

/-- **The rule for the callback**: a cell that was served does not wait. -/
theorem exact_drain {serve : ℕ → Arena β → Arena β} {f : ℕ → β → β}
    (hserve : ∀ i s, serve i s = s.put i (f i (s.cells i))) (h : Exact waits gone s l)
    (hrests : ∀ i ∈ l, waits (f i (s.cells i)) = false) :
    Exact waits gone (s.drain serve) [] ∧ (s.drain serve).brk = s.brk ∧
      ∀ i, (s.drain serve).cells i = if i ∈ l then f i (s.cells i) else s.cells i := by
  obtain ⟨hhead, htail, harmed, hbrk, hcells⟩ := serveFrom_spec hserve
    (s := { s with queue := s.queue.detach }) h.holds.chain h.holds.nodup h.length_le
  refine ⟨⟨⟨hhead, List.nodup_nil, htail, fun h => absurd rfl h⟩, fun i => ?_, fun i hi => ?_⟩,
    hbrk, hcells⟩
  · refine iff_of_false List.not_mem_nil ?_
    rintro ⟨hi, hwaits⟩
    rw [drain, hcells i] at hwaits
    by_cases hmem : i ∈ l
    · rw [if_pos hmem, hrests i hmem] at hwaits
      exact Bool.false_ne_true hwaits
    · rw [if_neg hmem] at hwaits
      exact hmem ((h.mem_iff i).2 ⟨hbrk ▸ hi, hwaits⟩)
  · exact absurd hi List.not_mem_nil

end Exact

end Arena

end Linked
