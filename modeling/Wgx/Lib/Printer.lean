import Mathlib.Data.List.TFAE
import Mathlib.Tactic.TFAE
import Wgx.Lib.Run

/-!
# Printing into a buffer

Texts are printed one behind the other into a buffer of fixed size, as a chain of `snprintf` calls
does that adds up the lengths: a text is cut where the buffer ends and a mark is put behind it, and
the position moves on by the whole length of the text.  Once the position has passed the end, the
size that is left wraps round, and nothing stops the next text.

* `Printer`, `Printer.append`: the buffer and one call;
* `Printer.Filled`: the buffer holds what was printed, and nothing was printed behind its end;
* `Printer.Exact`: and the mark stands behind it;
* `Printer.exact_run_tfae`: both are so exactly if there is room for the mark behind all texts.
-/

/-- A buffer, the position of the next text, and whether a call was given a size that wrapped. -/
structure Printer (α : Type*) where
  cells : List α
  pos : ℕ
  wrapped : Bool

namespace Printer

variable {α : Type*} (nul : α)

/-- An unused buffer. -/
def fresh (cells : List α) : Printer α := ⟨cells, 0, false⟩

/-- Print a text. -/
def append (b : Printer α) (text : List α) : Printer α :=
  if b.cells.length < b.pos then { b with pos := b.pos + text.length, wrapped := true }
  else if b.cells.length = b.pos then { b with pos := b.pos + text.length }
  else
    let written := text.take (b.cells.length - b.pos - 1) ++ [nul]
    { b with
      cells := b.cells.take b.pos ++ written ++ b.cells.drop (b.pos + written.length)
      pos := b.pos + text.length }

/-- The buffer holds the text, and nothing was printed behind its end. -/
structure Filled (b : Printer α) (text : List α) : Prop where
  bounded : b.wrapped = false
  pos_le : b.pos ≤ b.cells.length
  holds : b.cells.take b.pos = text

/-- The buffer holds the text and the mark behind it, and nothing was printed behind its end. -/
structure Exact (b : Printer α) (text : List α) : Prop extends b.Filled text where
  marked : b.cells[b.pos]? = some nul

variable {nul}

@[simp] theorem pos_append (b : Printer α) (text : List α) :
    (b.append nul text).pos = b.pos + text.length := by
  unfold append
  split_ifs <;> rfl

@[simp] theorem length_append (b : Printer α) (text : List α) :
    (b.append nul text).cells.length = b.cells.length := by
  unfold append
  split_ifs
  · rfl
  · rfl
  · simp only [List.length_append, List.length_take, List.length_drop, List.length_singleton]
    omega

/-- A text that fits is put behind what the buffer holds, and the mark behind it. -/
theorem Filled.append {b : Printer α} {done text : List α} (h : b.Filled done)
    (hroom : b.pos + text.length < b.cells.length) :
    (b.append nul text).Exact nul (done ++ text) := by
  have htake : text.take (b.cells.length - b.pos - 1) = text :=
    List.take_of_length_le (by omega)
  have hlen : (done ++ text).length = b.pos + text.length := by
    rw [← h.holds, List.length_append, List.length_take]
    omega
  have hcells : (b.append nul text).cells =
      (done ++ text) ++ (nul :: b.cells.drop (b.pos + (text ++ [nul]).length)) := by
    unfold Printer.append
    rw [if_neg (by omega), if_neg (by omega), htake, h.holds]
    simp only [List.append_assoc, List.singleton_append]
  refine ⟨⟨?_, by rw [pos_append, length_append]; exact Nat.le_of_lt hroom, ?_⟩, ?_⟩
  · unfold Printer.append
    rw [if_neg (by omega), if_neg (by omega)]
    exact h.bounded
  · rw [pos_append, ← hlen, hcells, List.take_left]
  · rw [pos_append, ← hlen, hcells, List.getElem?_append_right (Nat.le_refl _), Nat.sub_self]
    rfl

/-- The text that reaches the end of the buffer leaves its mark there. -/
theorem getLast_append {b : Printer α} {text : List α} (hpos : b.pos < b.cells.length)
    (hend : b.cells.length ≤ b.pos + text.length) :
    (b.append nul text).cells.getLast? = some nul := by
  unfold append
  rw [if_neg (by omega), if_neg (by omega)]
  simp only
  have hdrop : b.cells.drop (b.pos + (text.take (b.cells.length - b.pos - 1) ++ [nul]).length) = [] := by
    apply List.drop_of_length_le
    rw [List.length_append, List.length_take, List.length_singleton]
    omega
  rw [hdrop, List.append_nil, ← List.append_assoc, List.getLast?_concat]

/-- A position at the end or behind it lets nothing be written. -/
theorem cells_append {b : Printer α} (hpos : b.cells.length ≤ b.pos) (text : List α) :
    (b.append nul text).cells = b.cells := by
  unfold append
  split_ifs with h1 h2
  · rfl
  · rfl
  · omega

/-! ### Chains of calls -/

/-- Print some texts. -/
def run (nul : α) (b : Printer α) (texts : List (List α)) : Printer α :=
  Machine.run (append nul) b texts

theorem pos_run (b : Printer α) (texts : List (List α)) :
    (b.run nul texts).pos = b.pos + texts.flatten.length ∧
      (b.run nul texts).cells.length = b.cells.length := by
  induction texts generalizing b with
  | nil => exact ⟨rfl, rfl⟩
  | cons text texts ih =>
    obtain ⟨hpos, hlen⟩ := ih (b.append nul text)
    rw [pos_append] at hpos
    rw [length_append] at hlen
    rw [List.flatten_cons, List.length_append, ← Nat.add_assoc]
    exact ⟨hpos, hlen⟩

/-- Texts that fit are all there, and the mark behind the last one. -/
theorem Filled.run {b : Printer α} {done : List α} {texts : List (List α)} (h : b.Filled done)
    (hne : texts ≠ []) (hroom : b.pos + texts.flatten.length < b.cells.length) :
    (b.run nul texts).Exact nul (done ++ texts.flatten) := by
  induction texts generalizing b done with
  | nil => exact absurd rfl hne
  | cons text texts ih =>
    rw [List.flatten_cons, List.length_append] at hroom
    have hfirst : (b.append nul text).Exact nul (done ++ text) := h.append (by omega)
    rw [List.flatten_cons, ← List.append_assoc]
    by_cases hlast : texts = []
    · subst hlast
      rw [List.flatten_nil, List.append_nil]
      exact hfirst
    · refine ih hfirst.toFilled hlast ?_
      rw [pos_append, length_append]
      omega

/-- Texts that do not fit leave a mark at the end of the buffer. -/
theorem getLast_run {b : Printer α} {texts : List (List α)} (hpos : b.pos < b.cells.length)
    (hend : b.cells.length ≤ b.pos + texts.flatten.length) :
    (b.run nul texts).cells.getLast? = some nul := by
  have hkeep : ∀ (ts : List (List α)) (d : Printer α), d.cells.length ≤ d.pos →
      (d.run nul ts).cells = d.cells := by
    intro ts
    induction ts with
    | nil => exact fun d _ => rfl
    | cons t ts ih =>
      intro d hd
      refine (ih (d.append nul t) ?_).trans (cells_append hd t)
      rw [length_append, pos_append]
      omega
  induction texts generalizing b with
  | nil =>
    simp only [List.flatten_nil, List.length_nil] at hend
    omega
  | cons text texts ih =>
    rw [List.flatten_cons, List.length_append] at hend
    by_cases hcross : b.cells.length ≤ b.pos + text.length
    · refine (congrArg List.getLast? (hkeep texts (b.append nul text) ?_)).trans
        (getLast_append hpos hcross)
      rwa [length_append, pos_append]
    · refine @ih (b.append nul text) ?_ ?_
      · rw [length_append, pos_append]
        omega
      · rw [length_append, pos_append]
        omega

/-- **When a chain of calls prints everything**: exactly if the buffer has room for the mark behind
the texts, the last character of which is no mark itself. -/
theorem exact_run_tfae {cells : List α} {texts : List (List α)} {last : α}
    (hlast : texts.flatten.getLast? = some last) (hnul : last ≠ nul) :
    [((fresh cells).run nul texts).Exact nul texts.flatten,
      ((fresh cells).run nul texts).Filled texts.flatten,
      texts.flatten.length < cells.length].TFAE := by
  obtain ⟨hpos, hlen⟩ := @pos_run α nul (fresh cells) texts
  have hpos0 : (fresh cells).pos = 0 := rfl
  have hcells : (fresh cells).cells = cells := rfl
  rw [hpos0, Nat.zero_add] at hpos
  rw [hcells] at hlen
  have hne : texts.flatten ≠ [] := by
    rintro hnil
    rw [hnil] at hlast
    cases hlast
  tfae_have 1 → 2 := Exact.toFilled
  tfae_have 2 → 3 := by
    intro h
    by_contra hnot
    have hle := h.pos_le
    have htext := h.holds
    rw [List.take_of_length_le (by omega)] at htext
    have hmark := @getLast_run α nul (fresh cells) texts
      (by rw [hpos0, hcells]; have := List.length_pos_of_ne_nil hne; omega)
      (by rw [hpos0, hcells]; omega)
    rw [htext, hlast] at hmark
    exact hnul (Option.some.inj hmark)
  tfae_have 3 → 1 := by
    intro hroom
    have h0 : (fresh cells).Filled [] := ⟨rfl, Nat.zero_le _, List.take_zero⟩
    have hall : ((fresh cells).run nul texts).Exact nul ([] ++ texts.flatten) :=
      h0.run (fun hnil => hne (by rw [hnil]; rfl)) (by rw [hpos0, hcells]; omega)
    rwa [List.nil_append] at hall
  tfae_finish

end Printer
