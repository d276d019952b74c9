import Mathlib.Data.List.DropRight
import Wgx.Lib.Bits
import Wgx.Uapi.Text

/-!
# Base64 keys (`conf.c`)

* `base64Decode`: the decoder of the configuration file;
* `b64Encode`: the encoding of RFC 4648;
* `bits_b64Loop`: the decoder writes out the bits of the characters it reads;
* `base64Decode_plain`: a `=` inside a string counts as `A`;
* `decodes_iff`: which strings decode to a key.
-/

namespace Wgx

/-! ### Decoding -/

/-- The first half of `b64_tbl`; everything behind it is `-1`. -/
def b64Ascii : List ℤ :=
  [-1, -1, -1, -1, -1, -1, -1, -1, -1, -1, -1, -1, -1, -1, -1, -1,
    -1, -1, -1, -1, -1, -1, -1, -1, -1, -1, -1, -1, -1, -1, -1, -1,
    -1, -1, -1, -1, -1, -1, -1, -1, -1, -1, -1, 62, -1, -1, -1, 63,
    52, 53, 54, 55, 56, 57, 58, 59, 60, 61, -1, -1, -1, 0, -1, -1,
    -1, 0, 1, 2, 3, 4, 5, 6, 7, 8, 9, 10, 11, 12, 13, 14,
    15, 16, 17, 18, 19, 20, 21, 22, 23, 24, 25, -1, -1, -1, -1, -1,
    -1, 26, 27, 28, 29, 30, 31, 32, 33, 34, 35, 36, 37, 38, 39, 40,
    41, 42, 43, 44, 45, 46, 47, 48, 49, 50, 51, -1, -1, -1, -1, -1]

/-- `b64_tbl`. -/
def b64Tbl (ch : Byte) : ℤ := b64Ascii.getD ch.toNat (-1)

/-- The loop of `base64_decode`. -/
def b64Loop (outlen : ℕ) : List Byte → BitVec 32 → ℕ → List Byte → Option (List Byte)
  | [], _, _, out => some out
  | ch :: rest, acc, bits, out =>
    if b64Tbl ch < 0 then none
    else
      let acc := acc <<< 6 ||| BitVec.ofInt 32 (b64Tbl ch)
      if bits + 6 ≥ 8 then
        if out.length ≥ outlen then none
        else b64Loop outlen rest acc (bits + 6 - 8) (out ++ [(acc >>> (bits + 6 - 8)).setWidth 8])
      else b64Loop outlen rest acc (bits + 6) out

/-- A string without the `=` at its end. -/
def b64Strip (s : List Byte) : List Byte := s.rdropWhile (· = chr '=')

/-- `base64_decode`: the bytes that it writes, or `none` for `-1`. -/
def base64Decode (s : List Byte) (outlen : ℕ) : Option (List Byte) :=
  let s := b64Strip s
  if s.length * 6 / 8 > outlen then none else b64Loop outlen s 0 0 []

theorem base64Decode_eq (s : List Byte) (outlen : ℕ) : base64Decode s outlen =
    if (b64Strip s).length * 6 / 8 > outlen then none
    else b64Loop outlen (b64Strip s) 0 0 [] := rfl

/-! ### Encoding -/

/-- The alphabet. -/
def b64Alphabet : List Byte :=
  ascii "ABCDEFGHIJKLMNOPQRSTUVWXYZabcdefghijklmnopqrstuvwxyz0123456789+/"

/-- The character for a number below 64. -/
def b64Char (v : ℕ) : Byte := b64Alphabet.getD v 0

/-- The encoding of RFC 4648: three bytes make four characters, and `=` fills up the last four. -/
def b64Encode : List Byte → List Byte
  | a :: b :: c :: rest =>
    b64Char (a.toNat / 4) :: b64Char (a.toNat % 4 * 16 + b.toNat / 16) ::
      b64Char (b.toNat % 16 * 4 + c.toNat / 64) :: b64Char (c.toNat % 64) :: b64Encode rest
  | [a, b] => [b64Char (a.toNat / 4), b64Char (a.toNat % 4 * 16 + b.toNat / 16),
      b64Char (b.toNat % 16 * 4), chr '=']
  | [a] => [b64Char (a.toNat / 4), b64Char (a.toNat % 4 * 16), chr '=', chr '=']
  | [] => []

example : b64Encode (ascii "foobar") = ascii "Zm9vYmFy" ∧ b64Encode (ascii "fooba") = ascii "Zm9vYmE=" ∧
    b64Encode (ascii "foob") = ascii "Zm9vYg==" ∧
    base64Decode (ascii "Zm9vYmE=") 5 = some (ascii "fooba") := by decide

/-! ### The alphabet -/

theorem b64Tbl_lt (ch : Byte) : b64Tbl ch < 64 := by
  have hall : ∀ v ∈ b64Ascii, v < 64 := by decide +kernel
  rcases lt_or_ge ch.toNat b64Ascii.length with h | h
  · rw [b64Tbl, List.getD_eq_getElem _ _ h]
    exact hall _ (List.getElem_mem h)
  · rw [b64Tbl, List.getD_eq_default _ _ h]
    decide

theorem b64Tbl_char : ∀ v < 64, b64Tbl (b64Char v) = v ∧ b64Char v ≠ chr '=' := by decide +kernel

theorem b64Char_range : ∀ n < 256, 0 ≤ b64Tbl (BitVec.ofNat 8 n) → BitVec.ofNat 8 n ≠ chr '=' →
    b64Char (b64Tbl (BitVec.ofNat 8 n)).toNat = BitVec.ofNat 8 n := by decide +kernel

/-- Every character with a value but `=` is that of the alphabet. -/
theorem b64Char_b64Tbl {ch : Byte} (h : 0 ≤ b64Tbl ch) (hne : ch ≠ chr '=') :
    b64Char (b64Tbl ch).toNat = ch := by
  have hall := b64Char_range ch.toNat ch.isLt
  rw [BitVec.ofNat_toNat, BitVec.setWidth_eq] at hall
  exact hall h hne

/-! ### The bits -/

/-- The bits of a byte. -/
def byteBits (b : Byte) : List Bool := Bits.ofNat 8 b.toNat

/-- The bits of a character. -/
def charBits (ch : Byte) : List Bool := Bits.ofNat 6 (b64Tbl ch).toNat

/-- What the accumulator holds when a character has come. -/
theorem bits_acc (acc : BitVec 32) {bits : ℕ} (hbits : bits < 8) {ch : Byte} (h : 0 ≤ b64Tbl ch) :
    Bits.ofNat (bits + 6) (acc <<< 6 ||| BitVec.ofInt 32 (b64Tbl ch)).toNat =
      Bits.ofNat bits acc.toNat ++ charBits ch := by
  have hlt := b64Tbl_lt ch
  obtain ⟨v, hv⟩ := Int.eq_ofNat_of_zero_le h
  have hhigh : ∀ i, v.testBit (i + 6) = false := fun i =>
    Nat.testBit_lt_two_pow (lt_of_lt_of_le (by omega : v < 2 ^ 6)
      (Nat.pow_le_pow_right (by decide) (Nat.le_add_left 6 i)))
  rw [charBits, hv, BitVec.ofInt_natCast, Int.toNat_natCast, Bits.ofNat_add]
  congr 1
  · apply Bits.ofNat_congr
    intro i hi
    rw [Nat.testBit_div_two_pow, BitVec.testBit_toNat, BitVec.testBit_toNat, BitVec.getLsbD_or,
      BitVec.getLsbD_shiftLeft, BitVec.getLsbD_ofNat, hhigh]
    simp [show i + 6 < 32 by omega]
  · apply Bits.ofNat_congr
    intro i hi
    rw [BitVec.testBit_toNat, BitVec.getLsbD_or, BitVec.getLsbD_shiftLeft, BitVec.getLsbD_ofNat]
    simp [hi, show i < 32 by omega]

/-- The byte that the accumulator gives up, and what it keeps. -/
theorem bits_emit (acc : BitVec 32) (bits : ℕ) :
    Bits.ofNat (8 + bits) acc.toNat =
      byteBits ((acc >>> bits).setWidth 8) ++ Bits.ofNat bits acc.toNat := by
  rw [Bits.ofNat_add, byteBits, BitVec.toNat_setWidth, BitVec.toNat_ushiftRight,
    Nat.shiftRight_eq_div_pow, Bits.ofNat_mod le_rfl]

/-- **The decoder writes out the bits of the characters**, but for the last ones that make no byte. -/
theorem bits_b64Loop {outlen : ℕ} {s out res : List Byte} {acc : BitVec 32} {bits : ℕ}
    (hbits : bits < 8) (h : b64Loop outlen s acc bits out = some res) :
    (∀ ch ∈ s, 0 ≤ b64Tbl ch) ∧ res.length = out.length + (bits + s.length * 6) / 8 ∧
      ∃ rest : List Bool, rest.length < 8 ∧ res.flatMap byteBits ++ rest =
        out.flatMap byteBits ++ (Bits.ofNat bits acc.toNat ++ s.flatMap charBits) := by
  induction s generalizing acc bits out with
  | nil =>
    cases h
    refine ⟨by simp, by rw [List.length_nil]; omega, Bits.ofNat bits acc.toNat, ?_, ?_⟩
    · rwa [Bits.length_ofNat]
    · rw [List.flatMap_nil, List.append_nil]
  | cons ch s ih =>
    unfold b64Loop at h
    split_ifs at h with hneg hemit hfull
    · -- a byte is complete
      have hch := not_lt.1 hneg
      obtain ⟨hall, hlen, rest, hshort, hrest⟩ := ih (by omega) h
      refine ⟨List.forall_mem_cons.2 ⟨hch, hall⟩, ?_, rest, hshort, ?_⟩
      · rw [hlen, List.length_append, List.length_singleton, List.length_cons]
        omega
      · have hsplit : bits + 6 = 8 + (bits + 6 - 8) := by omega
        have hbytes := bits_emit (acc <<< 6 ||| BitVec.ofInt 32 (b64Tbl ch)) (bits + 6 - 8)
        rw [← hsplit, bits_acc acc hbits hch] at hbytes
        rw [hrest, List.flatMap_append, List.flatMap_singleton, List.flatMap_cons,
          ← List.append_assoc (Bits.ofNat bits acc.toNat), hbytes]
        simp only [List.append_assoc]
    · have hch := not_lt.1 hneg
      obtain ⟨hall, hlen, rest, hshort, hrest⟩ := ih (by omega) h
      refine ⟨List.forall_mem_cons.2 ⟨hch, hall⟩, ?_, rest, hshort, ?_⟩
      · rw [hlen, List.length_cons]
        omega
      · rw [hrest, bits_acc acc hbits hch, List.flatMap_cons, List.append_assoc]

/-- If every character has a value and the bytes fit, the decoder succeeds. -/
theorem b64Loop_isSome {outlen : ℕ} {s out : List Byte} {acc : BitVec 32} {bits : ℕ}
    (hall : ∀ ch ∈ s, 0 ≤ b64Tbl ch) (hfit : out.length + (bits + s.length * 6) / 8 ≤ outlen) :
    (b64Loop outlen s acc bits out).isSome = true := by
  induction s generalizing acc bits out with
  | nil => rfl
  | cons ch s ih =>
    obtain ⟨hch, hall⟩ := List.forall_mem_cons.1 hall
    rw [List.length_cons] at hfit
    unfold b64Loop
    rw [if_neg (not_lt.2 hch)]
    simp only
    split_ifs with hemit hfull
    · omega
    · refine ih hall ?_
      rw [List.length_append, List.length_singleton]
      omega
    · refine ih hall ?_
      omega

/-! ### The encoding -/

/-- Three bytes are four groups of six bits. -/
theorem bits_three {a b c : ℕ} (hb : b < 256) (hc : c < 256) :
    Bits.ofNat 6 (a / 4) ++ (Bits.ofNat 6 (a % 4 * 16 + b / 16) ++
      (Bits.ofNat 6 (b % 16 * 4 + c / 64) ++ Bits.ofNat 6 (c % 64))) =
    Bits.ofNat 8 a ++ (Bits.ofNat 8 b ++ Bits.ofNat 8 c) := by
  obtain ⟨n, hn⟩ : ∃ n, n = a * 65536 + b * 256 + c := ⟨_, rfl⟩
  have hsix : Bits.ofNat 24 n = Bits.ofNat 6 (n / 2 ^ 18) ++ (Bits.ofNat 6 (n / 2 ^ 12) ++
      (Bits.ofNat 6 (n / 2 ^ 6) ++ Bits.ofNat 6 n)) := by
    rw [← Bits.ofNat_add 6 6, ← Bits.ofNat_add 6 12, ← Bits.ofNat_add 6 18]
  have height : Bits.ofNat 24 n =
      Bits.ofNat 8 (n / 2 ^ 16) ++ (Bits.ofNat 8 (n / 2 ^ 8) ++ Bits.ofNat 8 n) := by
    rw [← Bits.ofNat_add 8 8, ← Bits.ofNat_add 8 16]
  rw [← @Bits.ofNat_mod 6 6 (n / 2 ^ 12) le_rfl, ← @Bits.ofNat_mod 6 6 (n / 2 ^ 6) le_rfl,
    ← @Bits.ofNat_mod 6 6 n le_rfl] at hsix
  rw [← @Bits.ofNat_mod 8 8 (n / 2 ^ 8) le_rfl, ← @Bits.ofNat_mod 8 8 n le_rfl] at height
  rw [show a / 4 = n / 2 ^ 18 by omega, show a % 4 * 16 + b / 16 = n / 2 ^ 12 % 2 ^ 6 by omega,
    show b % 16 * 4 + c / 64 = n / 2 ^ 6 % 2 ^ 6 by omega, show c % 64 = n % 2 ^ 6 by omega, ← hsix,
    height, show n / 2 ^ 16 = a by omega, show n / 2 ^ 8 % 2 ^ 8 = b by omega,
    show n % 2 ^ 8 = c by omega]

theorem charBits_b64Char {v : ℕ} (h : v < 64) : charBits (b64Char v) = Bits.ofNat 6 v := by
  rw [charBits, (b64Tbl_char v h).1, Int.toNat_natCast]

/-- The characters of an encoding before the padding: they are those of the alphabet, and their bits
are those of the bytes, filled up with zeros. -/
structure EncodedBody (k body : List Byte) : Prop where
  valid : ∀ ch ∈ body, 0 ≤ b64Tbl ch ∧ ch ≠ chr '='
  length_eq : body.length = (k.length * 8 + 5) / 6
  encode : b64Encode k = body ++ List.replicate ((3 - k.length % 3) % 3) (chr '=')
  bits : ∃ zeros : ℕ, body.flatMap charBits = k.flatMap byteBits ++ List.replicate zeros false

theorem validChar {v : ℕ} (h : v < 64) : 0 ≤ b64Tbl (b64Char v) ∧ b64Char v ≠ chr '=' := by
  obtain ⟨hval, hne⟩ := b64Tbl_char v h
  exact ⟨by rw [hval]; exact Int.natCast_nonneg v, hne⟩

theorem exists_encodedBody (k : List Byte) : ∃ body, EncodedBody k body := by
  induction k using b64Encode.induct with
  | case1 a b c rest ih =>
    obtain ⟨body, hvalid, hlen, hencode, zeros, hbits⟩ := ih
    have ha := a.isLt
    have hb := b.isLt
    have hc := c.isLt
    refine ⟨[b64Char (a.toNat / 4), b64Char (a.toNat % 4 * 16 + b.toNat / 16),
      b64Char (b.toNat % 16 * 4 + c.toNat / 64), b64Char (c.toNat % 64)] ++ body, ?_, ?_, ?_, zeros,
      ?_⟩
    · intro ch hch
      rcases List.mem_append.1 hch with hch | hch
      · simp only [List.mem_cons, List.not_mem_nil, or_false] at hch
        rcases hch with rfl | rfl | rfl | rfl <;> exact validChar (by omega)
      · exact hvalid ch hch
    · simp only [List.length_append, List.length_cons, List.length_nil, hlen]
      omega
    · rw [b64Encode, hencode]
      simp only [List.length_cons, List.cons_append, List.nil_append]
      rw [show rest.length + 1 + 1 + 1 = rest.length + 3 from rfl, Nat.add_mod_right]
    · have hthree := @bits_three a.toNat _ _ hb hc
      simp only [List.flatMap_append, List.flatMap_cons, List.flatMap_nil, List.append_nil, hbits]
      rw [charBits_b64Char (by omega), charBits_b64Char (by omega), charBits_b64Char (by omega),
        charBits_b64Char (by omega)]
      simp only [byteBits, ← List.append_assoc] at hthree ⊢
      rw [hthree]
  | case2 a b =>
    have ha := a.isLt
    have hb := b.isLt
    refine ⟨[b64Char (a.toNat / 4), b64Char (a.toNat % 4 * 16 + b.toNat / 16),
      b64Char (b.toNat % 16 * 4)], ?_, by simp, by simp [b64Encode], 2, ?_⟩
    · intro ch hch
      simp only [List.mem_cons, List.not_mem_nil, or_false] at hch
      rcases hch with rfl | rfl | rfl <;> exact validChar (by omega)
    · have hthree := @bits_three a.toNat _ _ hb (show 0 < 256 by decide)
      simp only [List.flatMap_cons, List.flatMap_nil, List.append_nil]
      rw [charBits_b64Char (by omega), charBits_b64Char (by omega), charBits_b64Char (by omega)]
      have hzero : Bits.ofNat 8 0 = List.replicate 2 false ++ Bits.ofNat 6 (0 % 64) := by decide
      rw [hzero] at hthree
      simp only [← List.append_assoc, List.append_left_inj] at hthree
      simpa only [byteBits, ← List.append_assoc, Nat.zero_div, Nat.add_zero] using hthree
  | case3 a =>
    have ha := a.isLt
    refine ⟨[b64Char (a.toNat / 4), b64Char (a.toNat % 4 * 16)], ?_, by simp, by simp [b64Encode], 4, ?_⟩
    · intro ch hch
      simp only [List.mem_cons, List.not_mem_nil, or_false] at hch
      rcases hch with rfl | rfl <;> exact validChar (by omega)
    · have hthree := @bits_three a.toNat _ _ (show 0 < 256 by decide) (show 0 < 256 by decide)
      simp only [List.flatMap_cons, List.flatMap_nil, List.append_nil]
      rw [charBits_b64Char (by omega), charBits_b64Char (by omega)]
      have hzero : Bits.ofNat 8 0 ++ Bits.ofNat 8 0 = List.replicate 4 false ++
          (Bits.ofNat 6 (0 % 16 * 4 + 0 / 64) ++ Bits.ofNat 6 (0 % 64)) := by decide
      rw [hzero] at hthree
      simp only [← List.append_assoc, List.append_left_inj] at hthree
      simpa only [byteBits, ← List.append_assoc, Nat.zero_div, Nat.add_zero] using hthree
  | case4 => exact ⟨[], by simp, rfl, rfl, 0, rfl⟩

/-! ### Keys -/

section

variable {k s body : List Byte}

/-- The high bits of a character's value. -/
theorem charBits_split (ch : Byte) :
    charBits ch = Bits.ofNat 4 ((b64Tbl ch).toNat / 2 ^ 2) ++ Bits.ofNat 2 (b64Tbl ch).toNat :=
  Bits.ofNat_add 4 2 _

theorem charBits_inj {a b : Byte} (ha : 0 ≤ b64Tbl a ∧ a ≠ chr '=')
    (hb : 0 ≤ b64Tbl b ∧ b ≠ chr '=') (h : charBits a = charBits b) : a = b := by
  have hlta := b64Tbl_lt a
  have hltb := b64Tbl_lt b
  have hval : (b64Tbl a).toNat = (b64Tbl b).toNat :=
    Bits.ofNat_inj (show _ < 64 by omega) (show _ < 64 by omega) h
  rw [← b64Char_b64Tbl ha.1 ha.2, ← b64Char_b64Tbl hb.1 hb.2, hval]

theorem byteBits_inj {a b : Byte} (h : byteBits a = byteBits b) : a = b :=
  BitVec.eq_of_toNat_eq (Bits.ofNat_inj a.isLt b.isLt h)

theorem length_byteBits (b : Byte) : (byteBits b).length = 8 := Bits.length_ofNat 8 _

theorem length_charBits (ch : Byte) : (charBits ch).length = 6 := Bits.length_ofNat 6 _

theorem length_flatMap_bits {f : Byte → List Bool} {w : ℕ} (hf : ∀ b, (f b).length = w)
    (l : List Byte) : (l.flatMap f).length = l.length * w := by
  induction l with
  | nil => rw [List.flatMap_nil, List.length_nil, List.length_nil, Nat.zero_mul]
  | cons b l ih =>
    rw [List.flatMap_cons, List.length_append, hf, ih, List.length_cons, Nat.succ_mul, Nat.add_comm]

/-- The bits of 32 bytes are those of 42 characters and four more. -/
theorem bits_of_key {a : Byte} {r : List Bool} (hr : r.length = 2)
    (h : k.flatMap byteBits ++ r = (body ++ [a]).flatMap charBits) :
    k.flatMap byteBits =
      body.flatMap charBits ++ Bits.ofNat 4 ((b64Tbl a).toNat / 2 ^ 2) := by
  rw [List.flatMap_append, List.flatMap_singleton, charBits_split, ← List.append_assoc] at h
  exact List.append_inj_left' h (hr.trans (Bits.length_ofNat 2 _).symm)

/-- The encoding of a key: 43 characters of the alphabet and one `=`. -/
theorem exists_encode (hk : k.length = 32) : ∃ body last, b64Encode k = body ++ [last, chr '='] ∧
    body.length = 42 ∧ (∀ ch ∈ body ++ [last], 0 ≤ b64Tbl ch ∧ ch ≠ chr '=') ∧
      k.flatMap byteBits = body.flatMap charBits ++ Bits.ofNat 4 ((b64Tbl last).toNat / 2 ^ 2) := by
  obtain ⟨full, hvalid, hlen, hencode, zeros, hbits⟩ := exists_encodedBody k
  rw [hk] at hlen hencode
  obtain ⟨body, last, rfl⟩ := List.eq_nil_or_concat' full |>.resolve_left (by
    rintro rfl
    cases hlen)
  rw [List.length_append, List.length_singleton] at hlen
  have hzeros : (List.replicate zeros false).length = 2 := by
    have hcount := congrArg List.length hbits
    rw [List.length_append, length_flatMap_bits length_byteBits, hk,
      length_flatMap_bits length_charBits, List.length_append,
      List.length_singleton] at hcount
    omega
  refine ⟨body, last, ?_, by omega, hvalid, bits_of_key hzeros hbits.symm⟩
  rw [hencode, List.append_assoc]
  rfl

/-- What decodes to a key has 43 characters with its bits. -/
theorem bits_of_decode (hk : k.length = 32) (h : base64Decode s 32 = some k) :
    ∃ body last, b64Strip s = body ++ [last] ∧ body.length = 42 ∧
      (∀ ch ∈ body ++ [last], 0 ≤ b64Tbl ch) ∧
        k.flatMap byteBits = body.flatMap charBits ++ Bits.ofNat 4 ((b64Tbl last).toNat / 2 ^ 2) := by
  rw [base64Decode_eq] at h
  split_ifs at h with hlong
  obtain ⟨hall, hlen, rest, hshort, hbits⟩ := bits_b64Loop (by decide) h
  rw [hk, List.length_nil] at hlen
  rw [List.flatMap_nil, Bits.ofNat_zero, List.nil_append, List.nil_append] at hbits
  obtain ⟨body, last, hs⟩ := List.eq_nil_or_concat' (b64Strip s) |>.resolve_left (by
    intro hnil
    rw [hnil] at hlen
    cases hlen)
  rw [hs, List.length_append, List.length_singleton] at hlen
  rw [hs] at hbits hall
  have hrest : rest.length = 2 := by
    have hcount := congrArg List.length hbits
    rw [List.length_append, length_flatMap_bits length_byteBits, hk,
      length_flatMap_bits length_charBits, List.length_append,
      List.length_singleton] at hcount
    omega
  exact ⟨body, last, hs, by omega, hall, bits_of_key hrest hbits⟩

/-- Every string of 43 characters with the bits of a key decodes to it. -/
theorem decode_of_bits {last : Byte} (hk : k.length = 32) (hs : b64Strip s = body ++ [last])
    (hlen : body.length = 42) (hall : ∀ ch ∈ body ++ [last], 0 ≤ b64Tbl ch)
    (hbits : k.flatMap byteBits =
      body.flatMap charBits ++ Bits.ofNat 4 ((b64Tbl last).toNat / 2 ^ 2)) :
    base64Decode s 32 = some k := by
  have hcount : (b64Strip s).length = 43 := by
    rw [hs, List.length_append, hlen, List.length_singleton]
  obtain ⟨res, hres⟩ := Option.isSome_iff_exists.1 (@b64Loop_isSome 32 _ [] 0 0 hall (by
    rw [← hs, hcount, List.length_nil]))
  have hdecode : base64Decode s 32 = some res := by
    rw [base64Decode_eq, hcount, if_neg (by decide), hs, hres]
  have hlenres : res.length = 32 := by
    rw [(bits_b64Loop (by decide) hres).2.1, ← hs, hcount, List.length_nil]
  obtain ⟨body', last', hs', -, -, hbits'⟩ := bits_of_decode hlenres hdecode
  obtain ⟨rfl, hlast⟩ := List.append_inj' (hs.symm.trans hs') rfl
  obtain rfl := List.singleton_inj.1 hlast
  have heq := (Bits.flatMap_inj length_byteBits (fun a _ b _ => byteBits_inj)
    (hlenres.trans hk.symm) (congrArg (· ++ ([] : List Bool)) (hbits'.trans hbits.symm))).1
  rw [hdecode, heq]

/-- A string without the `=` at its end, and with `A` for those inside. -/
def b64Plain (s : List Byte) : List Byte :=
  (b64Strip s).map fun ch => if ch = chr '=' then chr 'A' else ch

/-- The loop reads `=` as `A`. -/
theorem b64Loop_map (outlen : ℕ) (s : List Byte) (acc : BitVec 32) (bits : ℕ) (out : List Byte) :
    b64Loop outlen (s.map fun ch => if ch = chr '=' then chr 'A' else ch) acc bits out =
      b64Loop outlen s acc bits out := by
  induction s generalizing acc bits out with
  | nil => rfl
  | cons ch rest ih =>
    have htbl : b64Tbl (if ch = chr '=' then chr 'A' else ch) = b64Tbl ch := by
      split_ifs with h
      · rw [h]
        decide
      · rfl
    simp only [List.map_cons, b64Loop, htbl, ih]

/-- **An `=` inside a string counts as `A`**, so that every string decodes as one without. -/
theorem base64Decode_plain (s : List Byte) (outlen : ℕ) :
    chr '=' ∉ b64Plain s ∧ base64Decode (b64Plain s) outlen = base64Decode s outlen := by
  have hnone : chr '=' ∉ b64Plain s := by
    intro hmem
    obtain ⟨ch, -, heq⟩ := List.mem_map.1 hmem
    split_ifs at heq with h
    · exact absurd heq (by decide)
    · exact h heq
  have hstrip : b64Strip (b64Plain s) = b64Plain s := by
    rw [b64Strip, List.rdropWhile_eq_self_iff]
    intro hne hlast
    exact hnone (of_decide_eq_true hlast ▸ List.getLast_mem hne)
  refine ⟨hnone, ?_⟩
  rw [base64Decode_eq, base64Decode_eq, hstrip, b64Plain, List.length_map, b64Loop_map]

/-- **The encoding of a key decodes to it, and nothing else does**, but for the `=` at the end and
the two bits of the last character that no byte holds. -/
theorem decodes_iff (hk : k.length = 32) :
    (b64Encode k).length = 44 ∧ (b64Encode k).count (chr '=') = 1 ∧
      base64Decode (b64Encode k) 32 = some k ∧
      ∀ s, chr '=' ∉ b64Strip s → (base64Decode s 32 = some k ↔
        ∃ body last last', b64Encode k = body ++ [last, chr '='] ∧ b64Strip s = body ++ [last'] ∧
          0 ≤ b64Tbl last' ∧ b64Tbl last' / 4 = b64Tbl last / 4) := by
  obtain ⟨body, last, hencode, hlen, hvalid, hbits⟩ := exists_encode hk
  have hlast : 0 ≤ b64Tbl last ∧ last ≠ chr '=' := hvalid last (by simp)
  have hstrip : b64Strip (body ++ [last, chr '=']) = body ++ [last] := by
    have hsplit : body ++ [last, chr '='] = (body ++ [last]) ++ [chr '='] := by simp
    rw [b64Strip, hsplit, List.rdropWhile_concat_pos _ _ _ (by simp),
      List.rdropWhile_concat_neg _ _ _ (by simpa using hlast.2)]
  refine ⟨?_, ?_, ?_, fun s hs => ⟨fun h => ?_, ?_⟩⟩
  · rw [hencode, List.length_append, hlen]
    rfl
  · have hnone : (body ++ [last]).count (chr '=') = 0 :=
      List.count_eq_zero.2 fun hmem => (hvalid _ hmem).2 rfl
    rw [hencode, show body ++ [last, chr '='] = (body ++ [last]) ++ [chr '='] by simp,
      List.count_append, hnone]
    rfl
  · rw [hencode]
    exact decode_of_bits hk hstrip hlen (fun ch hch => (hvalid ch hch).1) hbits
  · obtain ⟨body', last', hs', hlen', hall, hbits'⟩ := bits_of_decode hk h
    have hvalid' : ∀ ch ∈ body' ++ [last'], 0 ≤ b64Tbl ch ∧ ch ≠ chr '=' := fun ch hch =>
      ⟨hall ch hch, fun heq => hs (by rw [hs', ← heq]; exact hch)⟩
    obtain ⟨rfl, hhigh⟩ := Bits.flatMap_inj length_charBits
      (fun a ha b hb => charBits_inj (hvalid' a (List.mem_append_left _ ha))
        (hvalid b (List.mem_append_left _ hb))) (hlen'.trans hlen.symm)
      (hbits'.symm.trans hbits)
    have hlast' := hall last' (by simp)
    have hlt := b64Tbl_lt last
    have hlt' := b64Tbl_lt last'
    have hfour := Bits.ofNat_inj (show _ < 16 by omega) (show _ < 16 by omega) hhigh
    exact ⟨body', last, last', hencode, hs', hlast', by omega⟩
  · rintro ⟨body', last₁, last', hencode', hs', hlast', hhigh⟩
    obtain ⟨rfl, htail⟩ := List.append_inj' (hencode.symm.trans hencode') rfl
    obtain rfl : last = last₁ := (List.cons.inj htail).1
    have hfour : (b64Tbl last').toNat / 2 ^ 2 = (b64Tbl last).toNat / 2 ^ 2 := by omega
    refine decode_of_bits hk hs' hlen (fun ch hch => ?_) (by rw [hbits, hfour])
    rcases List.mem_append.1 hch with hch | hch
    · exact (hvalid ch (List.mem_append_left _ hch)).1
    · rwa [List.mem_singleton.1 hch]

/-- The key of zeros: its encoding, and a string without the padding whose last character has bits
that no byte holds. -/
theorem decodes_iff_zero :
    base64Decode (b64Encode (List.replicate 32 0)) 32 = some (List.replicate 32 0) ∧
      base64Decode (List.replicate 42 (chr 'A') ++ [chr 'D']) 32 = some (List.replicate 32 0) := by
  obtain ⟨-, -, hdecode, hiff⟩ := decodes_iff (@List.length_replicate Byte 32 0)
  have hencode : b64Encode (List.replicate 32 0) =
      List.replicate 42 (chr 'A') ++ [chr 'A', chr '='] := by
    decide +kernel
  have hstrip : b64Strip (List.replicate 42 (chr 'A') ++ [chr 'D']) =
      List.replicate 42 (chr 'A') ++ [chr 'D'] := by
    decide +kernel
  exact ⟨hdecode, (hiff _ (by decide +kernel)).2
    ⟨_, chr 'A', chr 'D', hencode, hstrip, by decide, by decide⟩⟩

/-- **The padding may be missing** in a string that decodes all the same. -/
theorem decodes_not_encoded : ¬ ∀ s k : List Byte, k.length = 32 → base64Decode s 32 = some k →
    s = b64Encode k := by
  intro h
  have hs : base64Decode (List.replicate 43 (chr 'A')) 32 = some (List.replicate 32 0) := by
    decide +kernel
  obtain ⟨body, last, hencode, -⟩ := exists_encode (@List.length_replicate Byte 32 0)
  have hmem : chr '=' ∈ List.replicate 43 (chr 'A') := by
    rw [h _ _ List.length_replicate hs, hencode]
    simp
  exact absurd (List.eq_of_mem_replicate hmem) (by decide)

end

end Wgx
