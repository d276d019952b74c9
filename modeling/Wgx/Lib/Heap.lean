import Wgx.Lib.Ring

/-!
# Blocks of memory

Memory is a collection of blocks, each with cells of its own; a block that is freed is not
allocated again, so a pointer to it stays dangling.

* `Heap`: the blocks; `bytes`, `memcpy`, `realloc`: what is read from them, written to them, and how
  they grow;
* `bytes_memcpy`, `bytes_realloc`: a buffer is appended to and keeps what it holds when it grows;
* `Heap.Elsewhere`: nothing happens to a block, which holds of each block but the one that is
  written to or grown.
-/

variable {α : Type*}

/-- Blocks of cells: what is in each cell, which blocks are allocated, and the first block that
never was.  A pointer is a block or `NULL`. -/
structure Heap (α : Type*) where
  cell : ℕ → ℕ → α
  live : ℕ → Bool
  next : ℕ

namespace Heap

variable {h h' h'' : Heap α} {p q : Option ℕ} {b len off : ℕ} {data : List α} {inPlace : Bool}

/-- Only blocks below the first fresh one are allocated. -/
def Ok (h : Heap α) : Prop := ∀ b, h.live b = true → b < h.next

/-- The block a pointer points to is allocated. -/
def Valid (h : Heap α) (p : Option ℕ) : Prop := ∀ b, p = some b → h.live b = true

/-- The first `len` cells of a block. -/
def bytes (h : Heap α) (p : Option ℕ) (len : ℕ) : List α :=
  match p with
  | none => []
  | some b => Ring.slice (h.cell b) 0 len

/-- `memcpy` of `data` into a block, at an offset. -/
def memcpy (h : Heap α) (p : Option ℕ) (off : ℕ) (data : List α) : Heap α :=
  match p with
  | none => h
  | some b => { h with cell := Function.update h.cell b (Ring.blit (h.cell b) off data) }

/-- `realloc`: a block grows where it is, or what it holds is moved to a fresh block. -/
def realloc (h : Heap α) (p : Option ℕ) (inPlace : Bool) : Heap α × Option ℕ :=
  match p with
  | none => ({ h with live := Function.update h.live h.next true, next := h.next + 1 }, some h.next)
  | some b =>
    if inPlace then (h, some b)
    else
      ({ cell := Function.update h.cell h.next (h.cell b)
         live := Function.update (Function.update h.live b false) h.next true
         next := h.next + 1 }, some h.next)

/-- Nothing happens to the block of `p`. -/
def Elsewhere (p : Option ℕ) (h h' : Heap α) : Prop :=
  ∀ b, p = some b → h'.cell b = h.cell b ∧ h'.live b = h.live b

theorem Elsewhere.refl (p : Option ℕ) (h : Heap α) : Elsewhere p h h := fun _ _ => ⟨rfl, rfl⟩

theorem Elsewhere.trans (h1 : Elsewhere p h h') (h2 : Elsewhere p h' h'') : Elsewhere p h h'' :=
  fun b hb => ⟨(h2 b hb).1.trans (h1 b hb).1, (h2 b hb).2.trans (h1 b hb).2⟩

theorem Elsewhere.bytes (hsame : Elsewhere p h h') (len : ℕ) : h'.bytes p len = h.bytes p len := by
  cases p with
  | none => rfl
  | some b =>
    rw [Heap.bytes, Heap.bytes]
    simp only [(hsame b rfl).1]

theorem Elsewhere.valid (hsame : Elsewhere p h h') (hvalid : h.Valid p) : h'.Valid p :=
  fun b hb => (hsame b hb).2.trans (hvalid b hb)

@[simp] theorem bytes_zero : h.bytes p 0 = [] := by
  cases p <;> rfl

@[simp] theorem length_bytes_some : (h.bytes (some b) len).length = len := by
  simp [bytes, Ring.slice]

theorem bytes_take {n : ℕ} (hle : n ≤ len) : (h.bytes p len).take n = h.bytes p n := by
  cases p with
  | none => exact List.take_nil
  | some b =>
    rw [bytes, bytes, Ring.slice, ← List.map_take, List.take_range, min_eq_left hle]
    rfl

/-! ### Writing -/

theorem ok_memcpy (hok : h.Ok) : (h.memcpy p off data).Ok := by
  cases p <;> exact hok

theorem valid_memcpy (hvalid : h.Valid q) : (h.memcpy p off data).Valid q := by
  cases p <;> exact hvalid

theorem elsewhere_memcpy (hne : ∀ b, q = some b → p ≠ some b) :
    Elsewhere q h (h.memcpy p off data) := by
  intro b hb
  cases p with
  | none => exact ⟨rfl, rfl⟩
  | some c =>
    have hcb : b ≠ c := fun heq => hne b hb (congrArg some heq.symm)
    exact ⟨Function.update_of_ne hcb _ _, rfl⟩

/-- What is copied behind the bytes of a buffer is appended to them. -/
theorem bytes_memcpy (h : Heap α) (b len : ℕ) (data : List α) :
    (h.memcpy (some b) len data).bytes (some b) (len + data.length) =
      h.bytes (some b) len ++ data := by
  show Ring.slice (Function.update h.cell b (Ring.blit (h.cell b) len data) b) 0
    (len + data.length) = Ring.slice (h.cell b) 0 len ++ data
  rw [Function.update_self, Ring.slice_add, zero_add, Ring.slice_blit]
  congr 1
  apply List.map_congr_left
  intro i hi
  exact Ring.blit_apply_of_not (Or.inl (by have := List.mem_range.1 hi; omega))

/-! ### Growing -/

theorem ok_realloc (hok : h.Ok) : (h.realloc p inPlace).1.Ok := by
  have hfresh : Heap.Ok
      { h with live := Function.update h.live h.next true, next := h.next + 1 } := by
    intro b hb
    by_cases hbn : b = h.next
    · exact hbn ▸ Nat.lt_succ_self _
    · have hlive : h.live b = true := (Function.update_of_ne hbn true h.live).symm.trans hb
      exact (hok b hlive).trans (Nat.lt_succ_self _)
  cases p with
  | none => exact hfresh
  | some c =>
    rw [realloc]
    split_ifs
    · exact hok
    · intro b hb
      by_cases hbn : b = h.next
      · exact hbn ▸ Nat.lt_succ_self _
      · refine hfresh b ?_
        simp only [Function.update_of_ne hbn] at hb ⊢
        by_cases hbc : b = c
        · rw [hbc, Function.update_self] at hb
          cases hb
        · rwa [Function.update_of_ne hbc] at hb

theorem isSome_realloc : (h.realloc p inPlace).2.isSome = true := by
  cases p with
  | none => rfl
  | some b =>
    rw [realloc]
    split_ifs <;> rfl

theorem valid_realloc (hvalid : h.Valid p) :
    (h.realloc p inPlace).1.Valid (h.realloc p inPlace).2 := by
  cases p with
  | none =>
    rintro b ⟨⟩
    exact Function.update_self ..
  | some c =>
    rw [realloc]
    split_ifs
    · exact hvalid
    · rintro b ⟨⟩
      exact Function.update_self ..

theorem elsewhere_realloc (hok : h.Ok) (hq : h.Valid q) (hne : ∀ b, q = some b → p ≠ some b) :
    Elsewhere q h (h.realloc p inPlace).1 := by
  intro b hb
  have hbn : b ≠ h.next := (hok b (hq b hb)).ne
  cases p with
  | none => exact ⟨rfl, Function.update_of_ne hbn _ _⟩
  | some c =>
    have hbc : b ≠ c := fun heq => hne b hb (congrArg some heq.symm)
    rw [realloc]
    split_ifs
    · exact ⟨rfl, rfl⟩
    · refine ⟨Function.update_of_ne hbn _ _, ?_⟩
      simp only [Function.update_of_ne hbn, Function.update_of_ne hbc]

/-- A block that grows does not become one of the others. -/
theorem realloc_ne (hok : h.Ok) (hq : h.Valid q) (hne : ∀ b, q = some b → p ≠ some b) :
    ∀ b, q = some b → (h.realloc p inPlace).2 ≠ some b := by
  intro b hb heq
  have hbn : b ≠ h.next := (hok b (hq b hb)).ne
  cases p with
  | none => exact hbn (Option.some.inj heq).symm
  | some c =>
    rw [realloc] at heq
    split_ifs at heq
    · exact hne b hb heq
    · exact hbn (Option.some.inj heq).symm

/-- A block that grows keeps what it holds. -/
theorem bytes_realloc (hlen : p = none → len = 0) :
    (h.realloc p inPlace).1.bytes (h.realloc p inPlace).2 len = h.bytes p len := by
  cases p with
  | none =>
    rw [hlen rfl]
    exact bytes_zero
  | some c =>
    rw [realloc]
    split_ifs
    · rfl
    · show Ring.slice (Function.update h.cell h.next (h.cell c) h.next) 0 len = _
      rw [Function.update_self]
      rfl

end Heap
