import Mathlib.Tactic

/-!
# Fields of packets and the internet checksum

Packets are lists of bytes with big-endian fields.

* `beBytes` and `beWord` write and read a field; `writeAt` overwrites one.
* `wordSum` adds a packet up in 16-bit words, `fold` brings a sum down to 16 bits with end-around
  carry, and `onesSum` is the one's-complement sum of a packet.
* `onesSum_writeAt`: a packet into which the complement of its sum is written has the sum `0xffff`.
-/

namespace Checksum

/-! ### Fields -/

/-- `x` as `n` bytes, the most significant first. -/
def beBytes (n x : ℕ) : List (BitVec 8) :=
  (List.range n).map fun i => BitVec.ofNat 8 (x / 256 ^ (n - 1 - i))

/-- The number that bytes spell, the most significant first. -/
def beWord (bs : List (BitVec 8)) : ℕ := bs.foldl (fun n b => 256 * n + b.toNat) 0

/-- Overwrite the bytes from `off` on. -/
def writeAt (bs : List (BitVec 8)) (off : ℕ) (src : List (BitVec 8)) : List (BitVec 8) :=
  bs.take off ++ src ++ bs.drop (off + src.length)

section Fields

variable {n x : ℕ} {a b c src : List (BitVec 8)}

@[simp] theorem length_beBytes (n x : ℕ) : (beBytes n x).length = n := by simp [beBytes]

theorem beBytes_succ (n x : ℕ) :
    beBytes (n + 1) x = BitVec.ofNat 8 (x / 256 ^ n) :: beBytes n x := by
  simp only [beBytes, List.range_succ_eq_map, List.map_cons, List.map_map]
  congr 1
  refine List.map_congr_left fun i hi => ?_
  have hexp : n + 1 - 1 - (i + 1) = n - 1 - i := by omega
  simp only [Function.comp_apply, Nat.succ_eq_add_one, hexp]

theorem foldl_beBytes (n x acc : ℕ) :
    (beBytes n x).foldl (fun n b => 256 * n + b.toNat) acc = 256 ^ n * acc + x % 256 ^ n := by
  induction n generalizing acc with
  | zero => simp [beBytes, Nat.mod_one]
  | succ n ih =>
    have hbyte : (BitVec.ofNat 8 (x / 256 ^ n)).toNat = x / 256 ^ n % 256 := BitVec.toNat_ofNat _ _
    rw [beBytes_succ, List.foldl_cons, ih, hbyte, Nat.pow_succ, Nat.mod_mul]
    generalize x / 256 ^ n % 256 = top
    generalize x % 256 ^ n = low
    ring

theorem foldl_beWord (bs : List (BitVec 8)) (acc : ℕ) :
    bs.foldl (fun n b => 256 * n + b.toNat) acc = 256 ^ bs.length * acc + beWord bs := by
  induction bs generalizing acc with
  | nil => simp [beWord]
  | cons b bs ih =>
    rw [beWord, List.foldl_cons, List.foldl_cons, ih, ih, List.length_cons, pow_succ]
    ring

theorem beWord_cons (b : BitVec 8) (bs : List (BitVec 8)) :
    beWord (b :: bs) = 256 ^ bs.length * b.toNat + beWord bs := by
  rw [beWord, List.foldl_cons, foldl_beWord, Nat.mul_zero, Nat.zero_add]

theorem beWord_lt (bs : List (BitVec 8)) : beWord bs < 256 ^ bs.length := by
  induction bs with
  | nil => exact Nat.one_pos
  | cons b bs ih =>
    rw [beWord_cons, List.length_cons, pow_succ]
    have hb : b.toNat + 1 ≤ 256 := b.isLt
    calc 256 ^ bs.length * b.toNat + beWord bs
        < 256 ^ bs.length * b.toNat + 256 ^ bs.length := by omega
      _ = 256 ^ bs.length * (b.toNat + 1) := by ring
      _ ≤ 256 ^ bs.length * 256 := Nat.mul_le_mul_left _ hb

/-- Of two fields of one width, the first byte that differs decides. -/
theorem beWord_cons_lt_cons {a b : BitVec 8} {as bs : List (BitVec 8)}
    (hlen : as.length = bs.length) :
    beWord (a :: as) < beWord (b :: bs) ↔ a < b ∨ a = b ∧ beWord as < beWord bs := by
  rw [beWord_cons, beWord_cons, hlen, BitVec.lt_def, ← BitVec.toNat_inj]
  have has : beWord as < 256 ^ bs.length := hlen ▸ beWord_lt as
  have hbs : beWord bs < 256 ^ bs.length := beWord_lt bs
  generalize beWord as = x at *
  generalize beWord bs = y at *
  generalize 256 ^ bs.length = w at *
  constructor
  · intro h
    rcases lt_trichotomy a.toNat b.toNat with hab | hab | hab
    · exact Or.inl hab
    · rw [hab] at h
      exact Or.inr ⟨hab, by omega⟩
    · have hle : w * (b.toNat + 1) ≤ w * a.toNat := Nat.mul_le_mul_left w hab
      rw [Nat.mul_add, Nat.mul_one] at hle
      omega
  · rintro (hab | ⟨hab, hxy⟩)
    · have hle : w * (a.toNat + 1) ≤ w * b.toNat := Nat.mul_le_mul_left w hab
      rw [Nat.mul_add, Nat.mul_one] at hle
      omega
    · rw [hab]
      omega

/-- A field is read back modulo its width. -/
theorem beWord_beBytes (n x : ℕ) : beWord (beBytes n x) = x % 256 ^ n := by
  rw [beWord, foldl_beBytes, Nat.mul_zero, Nat.zero_add]

theorem beWord_beBytes_of_lt (h : x < 256 ^ n) : beWord (beBytes n x) = x := by
  rw [beWord_beBytes, Nat.mod_eq_of_lt h]

/-- A field between two parts is overwritten. -/
theorem writeAt_append (hb : b.length = src.length) :
    writeAt (a ++ b ++ c) a.length src = a ++ src ++ c := by
  have hdrop : (a ++ b ++ c).drop (a.length + src.length) = c := by
    rw [← hb, ← List.length_append, List.drop_left]
  rw [writeAt, hdrop, List.append_assoc a b c, List.take_left]

end Fields

/-! ### The checksum -/

/-- The sum of the 16-bit words of a packet; an odd last byte is padded with zero. -/
def wordSum : List (BitVec 8) → ℕ
  | hi :: lo :: rest => (256 * hi.toNat + lo.toNat) + wordSum rest
  | [last] => 256 * last.toNat
  | [] => 0

/-- Add the carries back in until 16 bits are left. -/
def fold (sum : ℕ) : ℕ :=
  if h : sum / 2 ^ 16 = 0 then sum else fold (sum % 2 ^ 16 + sum / 2 ^ 16)
termination_by sum
decreasing_by omega

/-- The one's-complement sum. -/
def onesSum (bs : List (BitVec 8)) : ℕ := fold (wordSum bs)

section Checksum

variable {a b : List (BitVec 8)}

theorem wordSum_append (h : a.length % 2 = 0) : wordSum (a ++ b) = wordSum a + wordSum b := by
  induction a using wordSum.induct with
  | case1 hi lo rest ih =>
    have hrest : rest.length % 2 = 0 := by
      simp only [List.length_cons] at h
      omega
    simp only [List.cons_append, wordSum, ih hrest, Nat.add_assoc]
  | case2 last => simp at h
  | case3 => simp [wordSum]

theorem wordSum_le (a : List (BitVec 8)) : wordSum a ≤ 65535 * ((a.length + 1) / 2) := by
  induction a using wordSum.induct with
  | case1 hi lo rest ih =>
    have hhi := hi.isLt
    have hlo := lo.isLt
    simp only [wordSum, List.length_cons]
    omega
  | case2 last =>
    have hlast := last.isLt
    simp only [wordSum, List.length_cons, List.length_nil]
    omega
  | case3 => simp [wordSum]

theorem wordSum_beBytes_two {x : ℕ} (h : x < 2 ^ 16) : wordSum (beBytes 2 x) = x := by
  have hbytes : beBytes 2 x = [BitVec.ofNat 8 (x / 256), BitVec.ofNat 8 x] := by
    simp [beBytes, List.range_succ]
  simp only [hbytes, wordSum, BitVec.toNat_ofNat]
  omega

/-- End-around carry computes modulo `65535`, with `65535` for the multiples of it but zero. -/
theorem fold_eq (sum : ℕ) : fold sum = if sum = 0 then 0 else (sum - 1) % 65535 + 1 := by
  induction sum using fold.induct with
  | case1 sum h =>
    rw [fold, dif_pos h]
    split_ifs with hzero
    · exact hzero
    · omega
  | case2 sum h ih =>
    rw [fold, dif_neg h, ih]
    split_ifs <;> omega

theorem fold_le (sum : ℕ) : fold sum ≤ 65535 := by
  rw [fold_eq]
  split_ifs <;> omega

/-- A sum and its complement fold to `0xffff`. -/
theorem fold_add_complement (sum : ℕ) : fold (sum + (65535 - fold sum)) = 65535 := by
  rw [fold_eq, fold_eq]
  split_ifs <;> omega

/-- **A packet verifies** once the complement of its sum is written where it held zero. -/
theorem onesSum_writeAt {c : List (BitVec 8)} (ha : a.length % 2 = 0) :
    onesSum (writeAt (a ++ [0, 0] ++ c) a.length
      (beBytes 2 (65535 - onesSum (a ++ [0, 0] ++ c)))) = 65535 := by
  have heven : (a ++ [0, 0]).length % 2 = 0 := by
    simp only [List.length_append, List.length_cons, List.length_nil]
    omega
  have hsum : wordSum (a ++ [0, 0] ++ c) = wordSum a + wordSum c := by
    rw [wordSum_append heven, wordSum_append ha]
    rfl
  have hck : ∀ x, (a ++ beBytes 2 x).length % 2 = 0 := by
    intro x
    rw [List.length_append, length_beBytes]
    omega
  have hle := fold_le (wordSum a + wordSum c)
  rw [@writeAt_append a [0, 0] c _ (length_beBytes 2 _).symm, onesSum, onesSum, hsum,
    wordSum_append (hck _), wordSum_append ha, wordSum_beBytes_two (by omega)]
  rw [show wordSum a + (65535 - fold (wordSum a + wordSum c)) + wordSum c =
    wordSum a + wordSum c + (65535 - fold (wordSum a + wordSum c)) by omega]
  exact fold_add_complement _

end Checksum

end Checksum
