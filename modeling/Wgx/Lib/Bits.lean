import Mathlib.Data.Nat.Bitwise

/-!
# Strings of bits

Numbers of a fixed width as strings of bits, the highest one first.

* `ofNat w n`: the `w` low bits of `n`;
* `ofNat_add`: a string is cut where the width is;
* `ofNat_inj`: the bits determine the number up to its width;
* `flatMap_inj`: symbols of one width are read off a string in one way.
-/

namespace Bits

/-- The `w` low bits of a number, the highest one first. -/
def ofNat : ℕ → ℕ → List Bool
  | 0, _ => []
  | w + 1, n => n.testBit w :: ofNat w n

@[simp] theorem ofNat_zero (n : ℕ) : ofNat 0 n = [] := rfl

@[simp] theorem length_ofNat (w n : ℕ) : (ofNat w n).length = w := by
  induction w with
  | zero => rfl
  | succ w ih => rw [ofNat, List.length_cons, ih]

/-- The high bits, and then the low ones. -/
theorem ofNat_add (a b n : ℕ) : ofNat (a + b) n = ofNat a (n / 2 ^ b) ++ ofNat b n := by
  induction a with
  | zero => rw [Nat.zero_add, ofNat_zero, List.nil_append]
  | succ a ih =>
    rw [Nat.succ_add, ofNat, ofNat, ih, Nat.testBit_div_two_pow, Nat.add_comm a b,
      List.cons_append]

/-- Only the low bits count. -/
theorem ofNat_congr {w m n : ℕ} (h : ∀ i < w, m.testBit i = n.testBit i) :
    ofNat w m = ofNat w n := by
  induction w with
  | zero => rfl
  | succ w ih =>
    rw [ofNat, ofNat, h w (Nat.lt_succ_self w), ih fun i hi => h i (Nat.lt_succ_of_lt hi)]

theorem ofNat_mod {w k n : ℕ} (h : w ≤ k) : ofNat w (n % 2 ^ k) = ofNat w n := by
  apply ofNat_congr
  intro i hi
  rw [Nat.testBit_mod_two_pow, decide_eq_true (hi.trans_le h), Bool.true_and]

theorem testBit_of_ofNat_eq {w m n : ℕ} (h : ofNat w m = ofNat w n) :
    ∀ i < w, m.testBit i = n.testBit i := by
  induction w with
  | zero => exact fun i hi => absurd hi (Nat.not_lt_zero i)
  | succ w ih =>
    rw [ofNat, ofNat, List.cons.injEq] at h
    intro i hi
    rcases Nat.lt_succ_iff_lt_or_eq.1 hi with hlt | rfl
    · exact ih h.2 i hlt
    · exact h.1

/-- The bits determine a number of their width. -/
theorem ofNat_inj {w m n : ℕ} (hm : m < 2 ^ w) (hn : n < 2 ^ w) (h : ofNat w m = ofNat w n) :
    m = n := by
  apply Nat.eq_of_testBit_eq
  intro i
  rcases Nat.lt_or_ge i w with hi | hi
  · exact testBit_of_ofNat_eq h i hi
  · have hle : 2 ^ w ≤ 2 ^ i := Nat.pow_le_pow_right (by decide) hi
    rw [Nat.testBit_lt_two_pow (hm.trans_le hle), Nat.testBit_lt_two_pow (hn.trans_le hle)]

/-- Symbols of one width are read off a string in one way. -/
theorem flatMap_inj {α β : Type*} {f : α → List β} {w : ℕ} (hlen : ∀ a, (f a).length = w)
    {l m : List α} {r s : List β} (hf : ∀ a ∈ l, ∀ b ∈ m, f a = f b → a = b)
    (hlm : l.length = m.length) (h : l.flatMap f ++ r = m.flatMap f ++ s) : l = m ∧ r = s := by
  induction l generalizing m with
  | nil =>
    rw [List.length_nil, eq_comm, List.length_eq_zero_iff] at hlm
    subst hlm
    exact ⟨rfl, h⟩
  | cons a l ih =>
    cases m with
    | nil => cases hlm
    | cons b m =>
      rw [List.flatMap_cons, List.flatMap_cons, List.append_assoc, List.append_assoc] at h
      obtain ⟨hab, hrest⟩ := List.append_inj h ((hlen a).trans (hlen b).symm)
      obtain ⟨htail, hrs⟩ := ih (fun a ha b hb => hf a (.tail _ ha) b (.tail _ hb))
        (Nat.succ.inj hlm) hrest
      exact ⟨by rw [hf a (.head _) b (.head _) hab, htail], hrs⟩

end Bits
