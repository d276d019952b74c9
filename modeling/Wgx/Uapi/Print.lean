import Wgx.Uapi.Text

/-!
# Printed text (`uapi.c`, and the C library functions it calls)

What `hex_encode`, `snprintf` and `inet_ntop` write, and that the functions of `Uapi.Text` read it
back.

* `hexEncode`, `hexDecode_hexEncode`: keys;
* `unsignedText`, `signedText`, `atoi_unsignedText`, `strtoul_unsignedText`: numbers;
* `inetNtop4`, `inetPton4_inetNtop4`: IPv4 addresses;
* `inetNtop6`, `inetPton6_inetNtop6`: IPv6 addresses, with the longest run of zeros as `::` and the
  last four bytes of a mapped address as an IPv4 address.
-/

namespace Wgx

/-! ### Keys -/

/-- The characters of `hex`. -/
def hexChar (n : ℕ) : Byte := if n < 10 then BitVec.ofNat 8 (48 + n) else BitVec.ofNat 8 (87 + n)

/-- `hex_encode`. -/
def hexEncode (bytes : List Byte) : List Byte :=
  bytes.flatMap fun b => [hexChar (b.toNat / 16), hexChar (b.toNat % 16)]

@[simp] theorem length_hexEncode (bytes : List Byte) :
    (hexEncode bytes).length = bytes.length * 2 := by
  induction bytes with
  | nil => rfl
  | cons b bytes ih =>
    rw [hexEncode, List.flatMap_cons, ← hexEncode, List.length_append, ih, List.length_cons]
    simp only [List.length_cons, List.length_nil]
    omega

theorem hexDigit_hexChar {n : ℕ} (h : n < 16) : hexDigit (hexChar n) = some n := by
  revert n
  decide

theorem hexPairs_hexEncode (bytes : List Byte) : hexPairs (hexEncode bytes) = some bytes := by
  induction bytes with
  | nil => rfl
  | cons b bytes ih =>
    have hb : b.toNat < 256 := b.isLt
    have hbyte : BitVec.ofNat 8 (16 * (b.toNat / 16) + b.toNat % 16) = b := by
      rw [Nat.div_add_mod]
      exact BitVec.eq_of_toNat_eq (Nat.mod_eq_of_lt hb)
    rw [hexEncode, List.flatMap_cons, ← hexEncode]
    simp only [List.cons_append, List.nil_append, hexPairs]
    rw [hexDigit_hexChar (by omega), hexDigit_hexChar (by omega), ih]
    simp [hbyte]

/-- **Keys are read back.** -/
theorem hexDecode_hexEncode {bytes : List Byte} {n : ℕ} (h : bytes.length = n) :
    hexDecode (hexEncode bytes) n = some bytes := by
  rw [hexDecode, length_hexEncode, h, if_neg (by simp)]
  exact hexPairs_hexEncode bytes

/-! ### Numbers -/

/-- `%u` and `%llu`. -/
def unsignedText (n : ℕ) : List Byte := (Nat.toDigits 10 n).map chr

/-- `%lld`. -/
def signedText (n : ℤ) : List Byte :=
  if n < 0 then chr '-' :: unsignedText n.natAbs else unsignedText n.toNat

theorem unsignedText_eq (n : ℕ) : unsignedText n =
    if n < 10 then [BitVec.ofNat 8 (48 + n)]
    else unsignedText (n / 10) ++ [BitVec.ofNat 8 (48 + n % 10)] := by
  have hdigit : ∀ d < 10, chr (Nat.digitChar d) = BitVec.ofNat 8 (48 + d) := by decide
  rw [unsignedText, Nat.toDigits_eq_if (by decide)]
  split_ifs with h
  · rw [List.map_singleton, hdigit n h]
  · rw [List.map_append, List.map_singleton, hdigit _ (Nat.mod_lt _ (by decide)), unsignedText]

theorem decDigit_ofNat {d : ℕ} (h : d < 10) : decDigit (BitVec.ofNat 8 (48 + d)) = some d := by
  revert d
  decide

/-- The digits of a number are read, and the reading goes on behind them. -/
theorem decimalFrom_unsignedText (n m : ℕ) (rest : List Byte) :
    decimalFrom m (unsignedText n ++ rest) =
      decimalFrom (10 ^ (unsignedText n).length * m + n) rest := by
  induction n using Nat.strong_induction_on generalizing m rest with
  | _ n ih =>
    rw [unsignedText_eq]
    split_ifs with h
    · simp only [List.cons_append, List.nil_append, decimalFrom, decDigit_ofNat h,
        List.length_singleton, pow_one]
    · have hd : n % 10 < 10 := Nat.mod_lt _ (by decide)
      rw [List.append_assoc, ih (n / 10) (by omega)]
      simp only [List.cons_append, List.nil_append, decimalFrom, decDigit_ofNat hd]
      congr 1
      rw [List.length_append, List.length_singleton, pow_succ]
      have := Nat.div_add_mod n 10
      ring_nf
      omega

/-- A number starts with a digit. -/
theorem exists_unsignedText (n : ℕ) :
    ∃ d rest, d < 10 ∧ unsignedText n = BitVec.ofNat 8 (48 + d) :: rest := by
  induction n using Nat.strong_induction_on with
  | _ n ih =>
    rw [unsignedText_eq]
    split_ifs with h
    · exact ⟨n, [], h, rfl⟩
    · obtain ⟨d, rest, hd, heq⟩ := ih (n / 10) (by omega)
      rw [heq]
      exact ⟨d, _, hd, rfl⟩

/-- Digits are no blanks and no signs. -/
theorem signedDecimal_unsignedText (n : ℕ) : signedDecimal (unsignedText n) = (false, n) := by
  have hblank : ∀ d < 10, isSpace (BitVec.ofNat 8 (48 + d)) = false ∧
      BitVec.ofNat 8 (48 + d) ≠ chr '-' ∧ BitVec.ofNat 8 (48 + d) ≠ chr '+' := by decide
  have hread := decimalFrom_unsignedText n 0 []
  rw [List.append_nil, Nat.mul_zero, Nat.zero_add] at hread
  obtain ⟨d, rest, hd, heq⟩ := exists_unsignedText n
  obtain ⟨hspace, hminus, hplus⟩ := hblank d hd
  rw [heq] at hread ⊢
  rw [signedDecimal, List.dropWhile_cons_of_neg (by simp [hspace])]
  simp only [if_neg hminus, if_neg hplus]
  rw [hread]
  rfl

/-- **Numbers are read back** by `atoi` if they fit a `long`. -/
theorem atoi_unsignedText {n : ℕ} (h : n < 2 ^ 63) : atoi (unsignedText n) = BitVec.ofNat 32 n := by
  rw [atoi, strtol, signedDecimal_unsignedText]
  have hmin : min (2 ^ 63 - 1) (n : ℤ) = n := by omega
  simp only [hmin, BitVec.ofInt_natCast]

/-- So they are by `strtoul`. -/
theorem strtoul_unsignedText {n : ℕ} (h : n < 2 ^ 64) :
    strtoul (unsignedText n) = BitVec.ofNat 64 n := by
  rw [strtoul, signedDecimal_unsignedText]
  simp only [if_neg (not_le.2 h)]
  rfl

/-! ### Characters of printed text -/

/-- A character that `hex_encode`, `%u`, `%x` or `inet_ntop` writes. -/
def Printed (ch : Byte) : Prop :=
  (hexDigit ch).isSome ∨ ch = chr '.' ∨ ch = chr ':'

instance (ch : Byte) : Decidable (Printed ch) := inferInstanceAs (Decidable (_ ∨ _ ∨ _))

theorem forall_mem_unsignedText {p : Byte → Prop} (hdigit : ∀ d < 10, p (BitVec.ofNat 8 (48 + d)))
    (n : ℕ) : ∀ ch ∈ unsignedText n, p ch := by
  induction n using Nat.strong_induction_on with
  | _ n ih =>
    rw [unsignedText_eq]
    split_ifs with h
    · simpa using hdigit n h
    · intro ch hch
      rcases List.mem_append.1 hch with hch | hch
      · exact ih _ (by omega) ch hch
      · rw [List.mem_singleton.1 hch]
        exact hdigit _ (Nat.mod_lt _ (by decide))

theorem printed_unsignedText (n : ℕ) : ∀ ch ∈ unsignedText n, Printed ch :=
  forall_mem_unsignedText (by decide) n

theorem printed_hexEncode (bytes : List Byte) : ∀ ch ∈ hexEncode bytes, Printed ch := by
  have hchar : ∀ n < 16, Printed (hexChar n) := by decide
  intro ch hch
  obtain ⟨b, -, hch⟩ := List.mem_flatMap.1 hch
  have hb : b.toNat < 256 := b.isLt
  simp only [List.mem_cons, List.not_mem_nil, or_false] at hch
  rcases hch with rfl | rfl
  · exact hchar _ (by omega)
  · exact hchar _ (by omega)

theorem length_unsignedText_le {n k : ℕ} (hk : 0 < k) (h : n < 10 ^ k) :
    (unsignedText n).length ≤ k := by
  rw [unsignedText, List.length_map]
  exact (Nat.length_toDigits_le_iff (by decide) hk).2 h

/-! ### IPv4 addresses -/

/-- `inet_ntop(AF_INET)`. -/
def inetNtop4 (addr : InAddr) : List Byte :=
  unsignedText (addr.get 0).toNat ++ chr '.' :: unsignedText (addr.get 1).toNat ++
    chr '.' :: unsignedText (addr.get 2).toNat ++ chr '.' :: unsignedText (addr.get 3).toNat

/-- An octet without leading zeros is read. -/
theorem inetPton4From_unsignedText {n : ℕ} (h : n ≤ 255) (octets rest : List Byte) :
    inetPton4From (unsignedText n ++ rest) octets 0 false =
      inetPton4From rest octets n true := by
  induction n using Nat.strong_induction_on generalizing rest with
  | _ n ih =>
    rw [unsignedText_eq]
    split_ifs with hn
    · simp only [List.cons_append, List.nil_append, inetPton4From, decDigit_ofNat hn]
      rw [if_neg (by simp), if_neg (by omega), Nat.zero_mul, Nat.zero_add]
    · have hd : n % 10 < 10 := Nat.mod_lt _ (by decide)
      rw [List.append_assoc, ih (n / 10) (by omega) (by omega)]
      simp only [List.cons_append, List.nil_append, inetPton4From, decDigit_ofNat hd]
      rw [if_neg (by omega), if_neg (by omega)]
      congr 1
      omega

/-- A point ends an octet. -/
theorem inetPton4From_point {octets : List Byte} (h : octets.length < 3) (cur : ℕ)
    (rest : List Byte) : inetPton4From (chr '.' :: rest) octets cur true =
      inetPton4From rest (octets ++ [BitVec.ofNat 8 cur]) 0 false := by
  have hpoint : decDigit (chr '.') = none := by decide
  simp only [inetPton4From, hpoint]
  rw [if_pos ⟨trivial, trivial⟩, if_neg (by omega)]

theorem inetPton4From_inetNtop4 (addr : InAddr) :
    inetPton4From (inetNtop4 addr) [] 0 false = some addr.toList := by
  have hoctet : ∀ i : Fin 4, (addr.get i).toNat ≤ 255 := fun i => Nat.le_of_lt_succ (addr.get i).isLt
  have hend : inetPton4From (unsignedText (addr.get 3).toNat)
      [addr.get 0, addr.get 1, addr.get 2] 0 false =
        some [addr.get 0, addr.get 1, addr.get 2, addr.get 3] := by
    have hlast := inetPton4From_unsignedText (hoctet 3) [addr.get 0, addr.get 1, addr.get 2] []
    rw [List.append_nil] at hlast
    rw [hlast, inetPton4From, if_pos ⟨rfl, rfl⟩]
    simp
  have hlist : addr.toList = [addr.get 0, addr.get 1, addr.get 2, addr.get 3] := by
    obtain ⟨⟨l⟩, hl⟩ := addr
    match l, hl with
    | [_, _, _, _], _ => rfl
  rw [hlist, inetNtop4]
  simp only [List.append_assoc, List.cons_append]
  rw [inetPton4From_unsignedText (hoctet 0), inetPton4From_point (by simp),
    inetPton4From_unsignedText (hoctet 1), inetPton4From_point (by simp),
    inetPton4From_unsignedText (hoctet 2), inetPton4From_point (by simp)]
  simpa using hend

theorem ofFn_getD_toList {n : ℕ} (v : Vector Byte n) :
    (Vector.ofFn fun i : Fin n => v.toList.getD i 0) = v := by
  ext i hi
  simp

/-- **IPv4 addresses are read back.** -/
theorem inetPton4_inetNtop4 (addr : InAddr) : inetPton4 (inetNtop4 addr) = some addr := by
  rw [inetPton4, inetPton4From_inetNtop4, Option.map_some, ofFn_getD_toList]

theorem printed_inetNtop4 (addr : InAddr) : ∀ ch ∈ inetNtop4 addr, Printed ch := by
  have hpoint : Printed (chr '.') := by decide
  intro ch hch
  simp only [inetNtop4, List.mem_append, List.mem_cons] at hch
  rcases hch with ((h | rfl | h) | rfl | h) | rfl | h
  · exact printed_unsignedText _ ch h
  · exact hpoint
  · exact printed_unsignedText _ ch h
  · exact hpoint
  · exact printed_unsignedText _ ch h
  · exact hpoint
  · exact printed_unsignedText _ ch h

/-- An IPv4 address takes at most 15 characters. -/
theorem length_inetNtop4_le (addr : InAddr) : (inetNtop4 addr).length ≤ 15 := by
  have hoctet : ∀ i : Fin 4, (unsignedText (addr.get i).toNat).length ≤ 3 := fun i =>
    length_unsignedText_le (by decide) (by have := (addr.get i).isLt; omega)
  have h0 := hoctet 0
  have h1 := hoctet 1
  have h2 := hoctet 2
  have h3 := hoctet 3
  simp only [inetNtop4, List.length_append, List.length_cons]
  omega

/-! ### IPv6 addresses -/

/-- `%x`. -/
def hexText (n : ℕ) : List Byte := (Nat.toDigits 16 n).map chr

/-- The 16-bit groups of an address. -/
def groups (addr : In6Addr) : List ℕ :=
  (List.range 8).map fun i =>
    (addr.toList.getD (2 * i) 0).toNat * 256 + (addr.toList.getD (2 * i + 1) 0).toNat

/-- A run of zero groups: where it starts, and how many there are. -/
structure ZeroRun where
  base : ℕ
  len : ℕ

/-- The group is in the run. -/
def ZeroRun.Inside (r : ZeroRun) (i : ℕ) : Prop := r.base ≤ i ∧ i < r.base + r.len

instance (r : ZeroRun) (i : ℕ) : Decidable (r.Inside i) := inferInstanceAs (Decidable (_ ∧ _))

/-- `if (best.base == -1 || cur.len > best.len) best = cur;`, if there is a current run. -/
def longerRun (best cur : Option ZeroRun) : Option ZeroRun :=
  match best, cur with
  | best, none => best
  | none, some c => some c
  | some b, some c => if b.len < c.len then some c else some b

/-- The loop that looks for the longest run, from group `i` on. -/
def bestRunFrom : ℕ → Option ZeroRun → Option ZeroRun → List ℕ → Option ZeroRun
  | _, best, cur, [] => longerRun best cur
  | i, best, cur, w :: ws =>
    if w = 0 then
      bestRunFrom (i + 1) best (some (cur.elim ⟨i, 1⟩ fun c => ⟨c.base, c.len + 1⟩)) ws
    else bestRunFrom (i + 1) (longerRun best cur) none ws

/-- The first of the longest runs of zeros, if it has two groups or more. -/
def bestRun (words : List ℕ) : Option ZeroRun :=
  (bestRunFrom 0 none none words).filter fun r => 2 ≤ r.len

/-- The address is printed with an IPv4 address at its end. -/
def endsInIpv4 (words : List ℕ) (run : Option ZeroRun) : Prop :=
  ∃ r ∈ run, r.base = 0 ∧ (r.len = 6 ∨ r.len = 5 ∧ words.getD 5 0 = 0xffff)

instance (words : List ℕ) (run : Option ZeroRun) : Decidable (endsInIpv4 words run) :=
  match run with
  | none => isFalse (by rintro ⟨r, hr, -⟩; cases hr)
  | some r => decidable_of_iff (r.base = 0 ∧ (r.len = 6 ∨ r.len = 5 ∧ words.getD 5 0 = 0xffff))
      ⟨fun h => ⟨r, rfl, h⟩, by rintro ⟨r, hr, h⟩; cases hr; exact h⟩

/-- The loop that prints, from group `i` on. -/
def printGroups (run : Option ZeroRun) (ipv4 : Option (List Byte)) : ℕ → List ℕ → List Byte
  | _, [] => []
  | i, w :: ws =>
    if ∃ r ∈ run, r.Inside i then
      (if ∃ r ∈ run, r.base = i then [chr ':'] else []) ++ printGroups run ipv4 (i + 1) ws
    else
      (if i ≠ 0 then [chr ':'] else []) ++
        match ipv4.filter fun _ => i = 6 with
        | some text => text
        | none => hexText w ++ printGroups run ipv4 (i + 1) ws

/-- `inet_ntop(AF_INET6)`. -/
def inetNtop6 (addr : In6Addr) : List Byte :=
  let words := groups addr
  let run := bestRun words
  let ipv4 := inetNtop4 (Vector.ofFn fun i => addr.toList.getD (12 + i) 0)
  printGroups run (if endsInIpv4 words run then some ipv4 else none) 0 words ++
    if ∃ r ∈ run, r.base + r.len = 8 then [chr ':'] else []

/-- Every group of the run is zero. -/
def ZeroRun.IsZero (words : List ℕ) (r : ZeroRun) : Prop := ∀ j, r.Inside j → words[j]? = some 0

section Runs

variable {words : List ℕ} {best cur : Option ZeroRun}

theorem isZero_longerRun (hbest : ∀ r ∈ best, r.IsZero words) (hcur : ∀ r ∈ cur, r.IsZero words) :
    ∀ r ∈ longerRun best cur, r.IsZero words := by
  cases cur with
  | none => cases best <;> exact hbest
  | some c =>
    cases best with
    | none => exact hcur
    | some b =>
      intro r hr
      rw [longerRun] at hr
      split_ifs at hr
      · exact hcur r hr
      · exact hbest r hr

/-- The runs that the loop notes are zero; the current one ends where the loop is. -/
theorem isZero_bestRunFrom {pre ws : List ℕ} (hwords : words = pre ++ ws)
    (hbest : ∀ r ∈ best, r.IsZero words)
    (hcur : ∀ r ∈ cur, r.IsZero words ∧ r.base + r.len = pre.length) :
    ∀ r ∈ bestRunFrom pre.length best cur ws, r.IsZero words := by
  induction ws generalizing pre best cur with
  | nil => exact isZero_longerRun hbest fun r hr => (hcur r hr).1
  | cons w ws ih =>
    have hsplit : words = (pre ++ [w]) ++ ws := by rw [hwords, List.append_assoc]; rfl
    have hlen : (pre ++ [w]).length = pre.length + 1 := by simp
    rw [bestRunFrom, ← hlen]
    split_ifs with hw
    · refine ih hsplit hbest ?_
      have hhere : words[pre.length]? = some 0 := by
        rw [hwords, List.getElem?_append_right (le_refl _), Nat.sub_self, List.getElem?_cons_zero,
          hw]
      intro r hr
      cases cur with
      | none =>
        obtain rfl : (⟨pre.length, 1⟩ : ZeroRun) = r := Option.some.inj hr
        refine ⟨fun j hj => ?_, hlen.symm⟩
        have hj : j = pre.length := by
          have : pre.length ≤ j ∧ j < pre.length + 1 := hj
          omega
        rw [hj, hhere]
      | some c =>
        obtain ⟨hzero, hend⟩ := hcur c rfl
        obtain rfl : (⟨c.base, c.len + 1⟩ : ZeroRun) = r := Option.some.inj hr
        refine ⟨fun j hj => ?_, by show c.base + (c.len + 1) = _; omega⟩
        have hin : c.base ≤ j ∧ j < c.base + (c.len + 1) := hj
        by_cases hj : j = pre.length
        · rw [hj, hhere]
        · exact hzero j ⟨hin.1, by omega⟩
    · exact ih hsplit (isZero_longerRun hbest fun r hr => (hcur r hr).1)
        (fun r hr => by cases hr)

theorem isZero_bestRun {r : ZeroRun} (h : bestRun words = some r) : r.IsZero words ∧ 2 ≤ r.len := by
  obtain ⟨hr, hlen⟩ := Option.filter_eq_some_iff.1 h
  refine ⟨?_, by simpa using hlen⟩
  exact @isZero_bestRunFrom words none none [] words rfl (fun r hr => by cases hr)
    (fun r hr => by cases hr) r hr

/-- A run of zeros splits the groups into those before it, the zeros and those behind it. -/
theorem ZeroRun.IsZero.split {r : ZeroRun} (h : r.IsZero words) (hlen : 0 < r.len) :
    words = words.take r.base ++ List.replicate r.len 0 ++ words.drop (r.base + r.len) ∧
      r.base + r.len ≤ words.length := by
  have hlast := h (r.base + r.len - 1) ⟨by omega, by omega⟩
  have hle : r.base + r.len ≤ words.length := by
    have := (List.getElem?_eq_some_iff.1 hlast).1
    omega
  refine ⟨?_, hle⟩
  have hmid : (words.drop r.base).take r.len = List.replicate r.len 0 := by
    refine List.eq_replicate_iff.2 ⟨by simp; omega, ?_⟩
    intro w hw
    obtain ⟨i, hi, rfl⟩ := List.mem_iff_getElem.1 hw
    rw [List.length_take, List.length_drop] at hi
    have hz := h (r.base + i) ⟨by omega, by omega⟩
    rw [List.getElem?_eq_getElem (by omega)] at hz
    simpa using hz
  rw [← hmid, List.append_assoc, ← List.drop_drop, List.take_append_drop, List.take_append_drop]

end Runs

/-! ### The text of the groups -/

/-- Groups, each behind a colon. -/
def colonGroups (ws : List ℕ) : List Byte := ws.flatMap fun w => chr ':' :: hexText w

/-- Groups with colons in between. -/
def joinGroups : List ℕ → List Byte
  | [] => []
  | w :: ws => hexText w ++ colonGroups ws

section Printing

variable {run : Option ZeroRun} {ipv4 : Option (List Byte)}

/-- Groups outside the run. -/
theorem printGroups_outside (ws vs : List ℕ) {i : ℕ} (hi : i ≠ 0)
    (hout : ∀ j, i ≤ j → j < i + ws.length → ∀ r ∈ run, ¬ r.Inside j)
    (hipv4 : ∀ j, i ≤ j → j < i + ws.length → j = 6 → ipv4 = none) :
    printGroups run ipv4 i (ws ++ vs) =
      colonGroups ws ++ printGroups run ipv4 (i + ws.length) vs := by
  induction ws generalizing i with
  | nil => rfl
  | cons w ws ih =>
    have hnot : ¬ ∃ r ∈ run, r.Inside i := by
      rintro ⟨r, hr, hin⟩
      exact hout i (le_refl _) (by simp) r hr hin
    have hnone : ipv4.filter (fun _ => decide (i = 6)) = none := by
      by_cases h6 : i = 6
      · rw [hipv4 i (le_refl _) (by simp) h6, Option.filter_none]
      · cases ipv4 <;> simp [h6]
    rw [List.cons_append, printGroups, if_neg hnot, if_pos hi, hnone]
    simp only
    rw [ih (Nat.succ_ne_zero i) (fun j h1 h2 => hout j (by omega) (by simp; omega))
      (fun j h1 h2 => hipv4 j (by omega) (by simp; omega))]
    simp only [colonGroups, List.flatMap_cons, List.cons_append, List.nil_append, List.append_assoc,
      List.length_cons]
    rw [show i.succ + ws.length = i + (ws.length + 1) by omega]

/-- Groups in the run. -/
theorem printGroups_inside {r : ZeroRun} (hr : run = some r) (zs vs : List ℕ) {i : ℕ}
    (hin : ∀ j, i ≤ j → j < i + zs.length → r.Inside j) (hi : r.base < i) :
    printGroups run ipv4 i (zs ++ vs) = printGroups run ipv4 (i + zs.length) vs := by
  subst hr
  induction zs generalizing i with
  | nil => rfl
  | cons z zs ih =>
    have hbase : ¬ ∃ r' ∈ some r, r'.base = i := by
      rintro ⟨r', hr', rfl⟩
      cases hr'
      exact lt_irrefl _ hi
    rw [List.cons_append, printGroups, if_pos ⟨r, rfl, hin i (le_refl _) (by simp)⟩, if_neg hbase,
      List.nil_append, ih (fun j h1 h2 => hin j (by omega) (by simp; omega)) (by omega)]
    congr 1
    simp only [List.length_cons]
    omega

/-- The run is a colon. -/
theorem printGroups_run {r : ZeroRun} (hr : run = some r) (hlen : 0 < r.len) (back : List ℕ) :
    printGroups run ipv4 r.base (List.replicate r.len 0 ++ back) =
      chr ':' :: printGroups run ipv4 (r.base + r.len) back := by
  obtain ⟨n, hn⟩ := Nat.exists_eq_succ_of_ne_zero hlen.ne'
  have hin : r.Inside r.base := ⟨le_refl _, by omega⟩
  have hrest := @printGroups_inside run ipv4 r hr (List.replicate n 0) back (r.base + 1)
    (fun j h1 h2 => ⟨by omega, by rw [List.length_replicate] at h2; omega⟩) (Nat.lt_succ_self _)
  rw [hn, List.replicate_succ, List.cons_append, printGroups, if_pos ⟨r, hr, hin⟩,
    if_pos ⟨r, hr, rfl⟩, hrest, List.length_replicate]
  rw [show r.base + 1 + n = r.base + n.succ by omega]
  rfl

/-- The run, the groups behind it, and the colon that is added if there are none. -/
theorem printGroups_back {r : ZeroRun} (hr : run = some r) (hlen : 0 < r.len) {back : List ℕ}
    (hback : r.base + r.len + back.length = 8) :
    printGroups run none r.base (List.replicate r.len 0 ++ back) ++
        (if ∃ r ∈ run, r.base + r.len = 8 then [chr ':'] else []) =
      chr ':' :: chr ':' :: joinGroups back := by
  have hout := @printGroups_outside run none back [] (r.base + r.len) (by omega)
    (fun j h1 _ r' hr' hin => by
      rw [hr] at hr'
      cases hr'
      exact absurd hin.2 (by omega)) (fun _ _ _ _ => rfl)
  rw [List.append_nil] at hout
  rw [printGroups_run hr hlen, hout, printGroups, List.append_nil]
  cases back with
  | nil =>
    rw [if_pos ⟨r, hr, by simpa using hback⟩]
    rfl
  | cons w ws =>
    have hnot : ¬ ∃ r ∈ run, r.base + r.len = 8 := by
      rintro ⟨r', hr', h8⟩
      rw [hr] at hr'
      cases hr'
      rw [List.length_cons] at hback
      omega
    rw [if_neg hnot, List.append_nil]
    rfl

/-- The groups before the run, if there is no IPv4 address. -/
theorem printGroups_front {front : List ℕ} (hne : front ≠ []) (vs : List ℕ)
    (hout : ∀ j < front.length, ∀ r ∈ run, ¬ r.Inside j) :
    printGroups run none 0 (front ++ vs) =
      joinGroups front ++ printGroups run none front.length vs := by
  obtain ⟨w, ws, rfl⟩ := List.exists_cons_of_ne_nil hne
  have hnot : ¬ ∃ r ∈ run, r.Inside 0 := by
    rintro ⟨r, hr, hin⟩
    exact hout 0 (by simp) r hr hin
  have hrest := @printGroups_outside run none ws vs 1 Nat.one_ne_zero
    (fun j _ h2 => hout j (by rw [List.length_cons]; omega)) (fun _ _ _ _ => rfl)
  rw [List.cons_append, printGroups, if_neg hnot, if_neg (by simp), Option.filter_none,
    List.nil_append]
  simp only
  rw [Nat.zero_add, hrest, joinGroups, List.append_assoc, List.length_cons, Nat.add_comm 1]

end Printing

/-! ### Reading the groups -/

theorem hexText_eq (n : ℕ) : hexText n =
    if n < 16 then [chr (Nat.digitChar n)]
    else hexText (n / 16) ++ [chr (Nat.digitChar (n % 16))] := by
  rw [hexText, Nat.toDigits_eq_if (by decide)]
  split_ifs with h
  · rfl
  · rw [List.map_append, List.map_singleton, hexText]

theorem hexDigit_digitChar {d : ℕ} (h : d < 16) : hexDigit (chr (Nat.digitChar d)) = some d := by
  revert d
  decide

theorem length_hexText_le {n k : ℕ} (hk : 0 < k) (h : n < 16 ^ k) : (hexText n).length ≤ k := by
  rw [hexText, List.length_map]
  exact (Nat.length_toDigits_le_iff (by decide) hk).2 h

theorem length_hexText_pos (n : ℕ) : 0 < (hexText n).length := by
  rw [hexText, List.length_map]
  exact Nat.length_toDigits_pos

/-- A group starts with a hexadecimal digit. -/
theorem exists_hexText (n : ℕ) :
    ∃ d rest, d < 16 ∧ hexText n = chr (Nat.digitChar d) :: rest := by
  induction n using Nat.strong_induction_on with
  | _ n ih =>
    rw [hexText_eq]
    split_ifs with h
    · exact ⟨n, [], h, rfl⟩
    · obtain ⟨d, rest, hd, heq⟩ := ih (n / 16) (by omega)
      rw [heq]
      exact ⟨d, _, hd, rfl⟩

section Reading

variable {out cur : List Byte} {colon : Option ℕ}

/-- The digits of a group are read. -/
theorem inetPton6From_hexText {n k : ℕ} (hk : 0 < k) (hk4 : k ≤ 4) (h : n < 16 ^ k)
    (rest : List Byte) : inetPton6From (hexText n ++ rest) cur out colon 0 0 =
      inetPton6From rest cur out colon n (hexText n).length := by
  induction k generalizing n rest with
  | zero => cases hk
  | succ k ih =>
    by_cases hn : n < 16
    · rw [hexText_eq, if_pos hn]
      simp only [List.cons_append, List.nil_append, inetPton6From, hexDigit_digitChar hn]
      rw [if_neg (by decide), Nat.mul_zero, Nat.zero_add]
      rfl
    · have hd : n % 16 < 16 := Nat.mod_lt _ (by decide)
      have hdiv : n / 16 < 16 ^ k := by
        rw [pow_succ] at h
        exact Nat.div_lt_of_lt_mul (by omega)
      have hk0 : 0 < k := by
        rcases Nat.eq_zero_or_pos k with rfl | hk0
        · rw [pow_zero] at hdiv
          omega
        · exact hk0
      have hlen := length_hexText_le hk0 hdiv
      rw [hexText_eq, if_neg hn, List.append_assoc, ih hk0 (by omega) hdiv]
      simp only [List.cons_append, List.nil_append, inetPton6From, hexDigit_digitChar hd]
      rw [if_neg (by omega), Nat.div_add_mod, List.length_append]
      rfl

/-- A colon ends a group. -/
theorem inetPton6From_group {w : ℕ} (hw : w < 65536) {rest : List Byte} (hrest : rest ≠ [])
    (hout : out.length + 2 ≤ 16) :
    inetPton6From (hexText w ++ chr ':' :: rest) cur out colon 0 0 =
      inetPton6From rest rest (out ++ groupBytes w) colon 0 0 := by
  have hcolon : hexDigit (chr ':') = none := by decide
  have hlen := length_hexText_pos w
  rw [inetPton6From_hexText (k := 4) (by decide) (by decide) hw, inetPton6From]
  simp only [hcolon]
  rw [if_pos trivial, if_neg (by omega), if_neg hrest, if_neg (by omega)]

/-- `::` is noted. -/
theorem inetPton6From_colon (rest : List Byte) :
    inetPton6From (chr ':' :: rest) cur out none 0 0 =
      inetPton6From rest rest out (some out.length) 0 0 := by
  have hcolon : hexDigit (chr ':') = none := by decide
  rw [inetPton6From]
  simp only [hcolon]
  rw [if_pos trivial, if_pos trivial, if_neg (by simp)]

theorem length_groupBytes_flatMap (ws : List ℕ) : (ws.flatMap groupBytes).length = 2 * ws.length := by
  induction ws with
  | nil => rfl
  | cons w ws ih =>
    rw [List.flatMap_cons, List.length_append, ih, List.length_cons]
    show 2 + 2 * ws.length = _
    omega

/-- Groups at the end of the text. -/
theorem inetPton6From_joinGroups {ws : List ℕ} (hws : ∀ w ∈ ws, w < 65536)
    (hout : out.length + 2 * ws.length ≤ 16) :
    inetPton6From (joinGroups ws) cur out colon 0 0 =
      inetPton6End (out ++ ws.flatMap groupBytes) colon := by
  cases ws with
  | nil =>
    rw [joinGroups, inetPton6From, if_neg (by decide)]
    simp
  | cons w ws =>
    induction ws generalizing w out cur with
    | nil =>
      have hlen := length_hexText_pos w
      have hread := @inetPton6From_hexText out cur colon w 4 (by decide) (by decide)
        (hws w (by simp)) []
      simp only [List.length_cons, List.length_nil] at hout
      simp only [joinGroups, colonGroups, List.flatMap_nil]
      rw [hread, inetPton6From, if_pos hlen, if_neg (by omega)]
      simp
    | cons v ws ih =>
      have hne : joinGroups (v :: ws) ≠ [] := by
        obtain ⟨d, rest, -, hv⟩ := exists_hexText v
        simp [joinGroups, hv]
      simp only [List.length_cons] at hout
      have hfold : joinGroups (w :: v :: ws) = hexText w ++ chr ':' :: joinGroups (v :: ws) := by
        simp [joinGroups, colonGroups]
      rw [hfold, inetPton6From_group (hws w (by simp)) hne (by omega),
        ih v (fun u hu => hws u (List.mem_cons_of_mem _ hu))
          (by simp only [List.length_append, groupBytes, List.length_cons, List.length_nil]; omega)]
      simp only [List.flatMap_cons, List.append_assoc]

/-- Groups with more text behind them. -/
theorem inetPton6From_joinGroups_colon {ws : List ℕ} (hne : ws ≠ []) (hws : ∀ w ∈ ws, w < 65536)
    (hout : out.length + 2 * ws.length ≤ 16) {rest : List Byte} (hrest : rest ≠ []) :
    inetPton6From (joinGroups ws ++ chr ':' :: rest) cur out colon 0 0 =
      inetPton6From rest rest (out ++ ws.flatMap groupBytes) colon 0 0 := by
  obtain ⟨w, ws, rfl⟩ := List.exists_cons_of_ne_nil hne
  clear hne
  induction ws generalizing w out cur with
  | nil =>
    simp only [List.length_cons, List.length_nil] at hout
    simp only [joinGroups, colonGroups, List.flatMap_nil, List.append_nil]
    rw [inetPton6From_group (hws w (by simp)) hrest (by omega)]
    simp
  | cons v ws ih =>
    simp only [List.length_cons] at hout
    have hfold : joinGroups (w :: v :: ws) ++ chr ':' :: rest =
        hexText w ++ chr ':' :: (joinGroups (v :: ws) ++ chr ':' :: rest) := by
      simp [joinGroups, colonGroups]
    rw [hfold, inetPton6From_group (hws w (by simp)) (by simp) (by omega),
      ih v (fun u hu => hws u (List.mem_cons_of_mem _ hu))
        (by simp only [List.length_append, groupBytes, List.length_cons, List.length_nil]; omega)]
    simp only [List.flatMap_cons, List.append_assoc]

/-- The digits of an octet are read as those of a group first. -/
theorem inetPton6From_unsignedText {n k : ℕ} (hk : 0 < k) (hk4 : k ≤ 4) (h : n < 10 ^ k)
    (rest : List Byte) : ∃ val digits,
      inetPton6From (unsignedText n ++ rest) cur out colon 0 0 =
        inetPton6From rest cur out colon val digits ∧ digits ≤ k := by
  have hdigit : ∀ d < 10, hexDigit (BitVec.ofNat 8 (48 + d)) = some d := by decide
  induction k generalizing n rest with
  | zero => cases hk
  | succ k ih =>
    by_cases hn : n < 10
    · refine ⟨n, 1, ?_, by omega⟩
      rw [unsignedText_eq, if_pos hn]
      simp only [List.cons_append, List.nil_append, inetPton6From, hdigit n hn]
      rw [if_neg (by decide), Nat.mul_zero, Nat.zero_add]
    · have hd : n % 10 < 10 := Nat.mod_lt _ (by decide)
      have hdiv : n / 10 < 10 ^ k := by
        rw [pow_succ] at h
        exact Nat.div_lt_of_lt_mul (by omega)
      have hk0 : 0 < k := by
        rcases Nat.eq_zero_or_pos k with rfl | hk0
        · rw [pow_zero] at hdiv
          omega
        · exact hk0
      obtain ⟨val, digits, hread, hle⟩ :=
        ih hk0 (by omega) hdiv (BitVec.ofNat 8 (48 + n % 10) :: rest)
      refine ⟨16 * val + n % 10, digits + 1, ?_, by omega⟩
      rw [unsignedText_eq, if_neg hn, List.append_assoc]
      simp only [List.cons_append, List.nil_append]
      rw [hread, inetPton6From]
      simp only [hdigit _ hd]
      rw [if_neg (by omega)]

/-- An IPv4 address at the end of the text. -/
theorem inetPton6From_inetNtop4 (addr : InAddr) (hout : out.length + 4 ≤ 16) :
    inetPton6From (inetNtop4 addr) (inetNtop4 addr) out colon 0 0 =
      inetPton6End (out ++ addr.toList) colon := by
  have hpoint : hexDigit (chr '.') = none ∧ chr '.' ≠ chr ':' := by decide
  obtain ⟨rest, htext⟩ : ∃ rest, inetNtop4 addr =
      unsignedText (addr.get 0).toNat ++ chr '.' :: rest := by
    simp only [inetNtop4, List.append_assoc, List.cons_append]
    exact ⟨_, rfl⟩
  have hoctet : (addr.get 0).toNat < 10 ^ 3 := (addr.get 0).isLt.trans (by decide)
  obtain ⟨val, digits, hread, -⟩ := @inetPton6From_unsignedText out (inetNtop4 addr) colon _ 3
    (by decide) (by decide) hoctet (chr '.' :: rest)
  rw [← htext] at hread
  rw [hread, inetPton6From]
  simp only [hpoint.1, inetPton4From_inetNtop4]
  rw [if_neg hpoint.2, if_pos ⟨trivial, hout⟩]

/-- The zeros go where `::` was. -/
theorem inetPton6End_zeros {front back : List Byte} {n : ℕ}
    (h : front.length + n + back.length = 16) (hn : 0 < n) :
    inetPton6End (front ++ back) (some front.length) =
      some (front ++ List.replicate n 0#8 ++ back) := by
  have hlen : (front ++ back).length = 16 - n := by
    rw [List.length_append]
    omega
  rw [inetPton6End]
  rw [if_neg (by omega), hlen, List.take_left, List.drop_left, show 16 - (16 - n) = n by omega]

end Reading

/-! ### The whole address -/

theorem length_groups (addr : In6Addr) : (groups addr).length = 8 := by simp [groups]

theorem groups_lt (addr : In6Addr) : ∀ w ∈ groups addr, w < 65536 := by
  intro w hw
  obtain ⟨i, -, rfl⟩ := List.mem_map.1 hw
  have h1 := (addr.toList.getD (2 * i) 0).isLt
  have h2 := (addr.toList.getD (2 * i + 1) 0).isLt
  omega

theorem groupBytes_pair (a b : Byte) : groupBytes (a.toNat * 256 + b.toNat) = [a, b] := by
  have ha := a.isLt
  have hb := b.isLt
  have hhi : (a.toNat * 256 + b.toNat) / 256 = a.toNat := by omega
  rw [groupBytes, hhi]
  refine congrArg₂ (fun x y => [x, y]) (BitVec.eq_of_toNat_eq ?_) (BitVec.eq_of_toNat_eq ?_)
  · rw [BitVec.toNat_ofNat]
    exact Nat.mod_eq_of_lt ha
  · rw [BitVec.toNat_ofNat]
    omega

/-- The groups are the bytes of the address. -/
theorem flatMap_groups (addr : In6Addr) : (groups addr).flatMap groupBytes = addr.toList := by
  obtain ⟨⟨l⟩, hl⟩ := addr
  match l, hl with
  | [_, _, _, _, _, _, _, _, _, _, _, _, _, _, _, _], _ =>
    simp only [groups, Vector.toList, List.range, List.range.loop, List.map_cons, List.map_nil,
      List.flatMap_cons, List.flatMap_nil, groupBytes_pair]
    rfl

/-- The address that stands at the end of a mapped address. -/
def lastFour (addr : In6Addr) : InAddr := Vector.ofFn fun i => addr.toList.getD (12 + i) 0

theorem toList_lastFour (addr : In6Addr) :
    (lastFour addr).toList = ((groups addr).drop 6).flatMap groupBytes := by
  obtain ⟨⟨l⟩, hl⟩ := addr
  match l, hl with
  | [_, _, _, _, _, _, _, _, _, _, _, _, _, _, _, _], _ =>
    simp only [groups, Vector.toList, List.range, List.range.loop, List.map_cons, List.map_nil,
      List.drop_succ_cons, List.drop_zero, List.flatMap_cons, List.flatMap_nil, groupBytes_pair]
    rfl

/-- An address without a run of zeros. -/
theorem inetNtop6_no_run {addr : In6Addr} (h : bestRun (groups addr) = none) :
    inetNtop6 addr = joinGroups (groups addr) := by
  have hipv4 : ¬ endsInIpv4 (groups addr) none := by rintro ⟨r, hr, -⟩; cases hr
  have hne : groups addr ≠ [] := List.ne_nil_of_length_pos (by rw [length_groups]; decide)
  have hfront := @printGroups_front none (groups addr) hne [] (fun _ _ r hr => by cases hr)
  rw [List.append_nil] at hfront
  simp only [inetNtop6, h]
  rw [if_neg hipv4, hfront, printGroups, if_neg (by simp)]
  simp

/-- An address with a run of zeros. -/
theorem inetNtop6_run {addr : In6Addr} {r : ZeroRun} (h : bestRun (groups addr) = some r)
    (hipv4 : ¬ endsInIpv4 (groups addr) (some r)) :
    inetNtop6 addr = joinGroups ((groups addr).take r.base) ++ chr ':' :: chr ':' ::
      joinGroups ((groups addr).drop (r.base + r.len)) := by
  obtain ⟨hzero, hlen⟩ := isZero_bestRun h
  obtain ⟨hsplit, hle⟩ := hzero.split (by omega)
  have hfrontlen : ((groups addr).take r.base).length = r.base := by
    rw [List.length_take]
    omega
  have hback := @printGroups_back (some r) r rfl (by omega) ((groups addr).drop (r.base + r.len))
    (by rw [List.length_drop, length_groups] at *; omega)
  have hfront : printGroups (some r) none 0 (groups addr) =
      joinGroups ((groups addr).take r.base) ++ printGroups (some r) none r.base
        (List.replicate r.len 0 ++ (groups addr).drop (r.base + r.len)) := by
    conv_lhs => rw [hsplit, List.append_assoc]
    rcases Nat.eq_zero_or_pos r.base with h0 | hpos
    · rw [h0, List.take_zero, List.nil_append]
      rfl
    · have hne : (groups addr).take r.base ≠ [] := List.ne_nil_of_length_pos (by omega)
      rw [printGroups_front hne _ ?_, hfrontlen]
      intro j hj r' hr' hin
      cases hr'
      exact absurd hin.1 (by omega)
  simp only [inetNtop6, h]
  rw [if_neg hipv4, hfront, List.append_assoc, hback]

/-- A mapped address: the six groups in front, and the IPv4 address. -/
theorem inetNtop6_mapped {addr : In6Addr} {r : ZeroRun} (h : bestRun (groups addr) = some r)
    (hipv4 : endsInIpv4 (groups addr) (some r)) :
    (inetNtop6 addr = chr ':' :: chr ':' :: inetNtop4 (lastFour addr) ∧
        groups addr = List.replicate 6 0 ++ (groups addr).drop 6) ∨
      (inetNtop6 addr =
          chr ':' :: chr ':' :: (joinGroups [0xffff] ++ chr ':' :: inetNtop4 (lastFour addr)) ∧
        groups addr = List.replicate 5 0 ++ 0xffff :: (groups addr).drop 6) := by
  obtain ⟨hzero, hlen⟩ := isZero_bestRun h
  obtain ⟨hsplit, hle⟩ := hzero.split (by omega)
  obtain ⟨r', hr', hbase, hcase⟩ := hipv4
  obtain rfl : r = r' := Option.some.inj hr'
  have hipv4 : endsInIpv4 (groups addr) (some r) := ⟨r, rfl, hbase, hcase⟩
  have hlength := length_groups addr
  rw [hbase, List.take_zero, List.nil_append, Nat.zero_add] at hsplit
  have hnot : ¬ ∃ r' ∈ some r, r'.base + r'.len = 8 := by
    rintro ⟨r', hr', h8⟩
    cases hr'
    rcases hcase with h6 | ⟨h5, -⟩ <;> omega
  have hrun := fun back => @printGroups_run (some r) (some (inetNtop4 (lastFour addr))) r rfl
    (by omega) back
  rw [hbase, Nat.zero_add] at hrun
  have hsix : ∀ ws, ws ≠ [] → printGroups (some r) (some (inetNtop4 (lastFour addr))) 6 ws =
      chr ':' :: inetNtop4 (lastFour addr) := by
    intro ws hws
    obtain ⟨w, ws, rfl⟩ := List.exists_cons_of_ne_nil hws
    have hout : ¬ ∃ r' ∈ some r, r'.Inside 6 := by
      rintro ⟨r', hr', hin⟩
      cases hr'
      have := hin.2
      rcases hcase with h6 | ⟨h5, -⟩ <;> omega
    rw [printGroups, if_neg hout, if_pos (by decide)]
    rfl
  have htext : inetNtop6 addr = printGroups (some r) (some (inetNtop4 (lastFour addr))) 0
      (groups addr) := by
    simp only [inetNtop6, h]
    rw [if_pos hipv4, if_neg hnot, List.append_nil]
    rfl
  rcases hcase with h6 | ⟨h5, hffff⟩
  · left
    have hne : (groups addr).drop 6 ≠ [] :=
      List.ne_nil_of_length_pos (by rw [List.length_drop]; omega)
    rw [h6] at hsplit hrun
    refine ⟨?_, hsplit⟩
    rw [htext, hsplit, hrun, hsix _ hne]
  · right
    rw [h5] at hsplit hrun
    have hdrop : (groups addr).drop 5 = 0xffff :: (groups addr).drop 6 := by
      rw [List.getD_eq_getElem?_getD, List.getElem?_eq_getElem (by omega)] at hffff
      rw [List.drop_eq_getElem_cons (by omega)]
      exact congrArg (· :: _) hffff
    have hne : (groups addr).drop 6 ≠ [] :=
      List.ne_nil_of_length_pos (by rw [List.length_drop]; omega)
    have hout : ¬ ∃ r' ∈ some r, r'.Inside 5 := by
      rintro ⟨r', hr', hin⟩
      cases hr'
      have := hin.2
      omega
    rw [hdrop] at hsplit
    refine ⟨?_, hsplit⟩
    rw [htext, hsplit, hrun, printGroups, if_neg hout, if_pos (by decide)]
    have hno : (some (inetNtop4 (lastFour addr))).filter (fun _ => decide (5 = 6)) = none := rfl
    rw [hno]
    simp only
    rw [hsix _ hne]
    simp [joinGroups, colonGroups]

/-- A text that starts with a group. -/
theorem inetPton6_joinGroups {ws : List ℕ} (hne : ws ≠ []) (rest : List Byte) :
    inetPton6 (joinGroups ws ++ rest) =
      (inetPton6From (joinGroups ws ++ rest) (joinGroups ws ++ rest) [] none 0 0).map
        fun out => Vector.ofFn fun i => out.getD i 0 := by
  have hcolon : ∀ d < 16, chr (Nat.digitChar d) ≠ chr ':' := by decide
  obtain ⟨w, ws, rfl⟩ := List.exists_cons_of_ne_nil hne
  obtain ⟨d, tail, hd, htext⟩ := exists_hexText w
  simp only [joinGroups, htext, List.cons_append, inetPton6, if_neg (hcolon d hd)]

/-- A text that starts with `::`. -/
theorem inetPton6_colons (rest : List Byte) :
    inetPton6 (chr ':' :: chr ':' :: rest) =
      (inetPton6From rest rest [] (some 0) 0 0).map
        fun out => Vector.ofFn fun i => out.getD i 0 := by
  simp only [inetPton6, List.head?_cons, if_true]
  rw [inetPton6From_colon]
  rfl

theorem flatMap_replicate_zero (n : ℕ) :
    (List.replicate n 0).flatMap groupBytes = List.replicate (2 * n) 0#8 := by
  induction n with
  | zero => rfl
  | succ n ih =>
    rw [List.replicate_succ, List.flatMap_cons, ih]
    rfl

/-- What is read of an address with a run of `n` zero groups, the text behind `::` being read as
`back`. -/
theorem inetPton6End_run {addr : In6Addr} {front back : List ℕ} {n : ℕ} (hn : 0 < n)
    (hsplit : groups addr = front ++ List.replicate n 0 ++ back) :
    inetPton6End (front.flatMap groupBytes ++ back.flatMap groupBytes)
      (some (front.flatMap groupBytes).length) = some addr.toList := by
  have hlength := length_groups addr
  rw [hsplit, List.length_append, List.length_append, List.length_replicate] at hlength
  have hzeros := @inetPton6End_zeros (front.flatMap groupBytes) (back.flatMap groupBytes) (2 * n)
    (by rw [length_groupBytes_flatMap, length_groupBytes_flatMap]; omega) (by omega)
  rw [hzeros, ← flatMap_groups, hsplit, List.flatMap_append, List.flatMap_append,
    flatMap_replicate_zero]

/-- **IPv6 addresses are read back.** -/
theorem inetPton6_inetNtop6 (addr : In6Addr) : inetPton6 (inetNtop6 addr) = some addr := by
  have hlength := length_groups addr
  have hlt := groups_lt addr
  cases hrun : bestRun (groups addr) with
  | none =>
    have hne : groups addr ≠ [] := List.ne_nil_of_length_pos (by omega)
    have hread := inetPton6_joinGroups hne []
    rw [List.append_nil, inetPton6From_joinGroups hlt (by rw [hlength]; decide), List.nil_append,
      flatMap_groups, inetPton6End, if_pos (by simp)] at hread
    rw [inetNtop6_no_run hrun, hread, Option.map_some, ofFn_getD_toList]
  | some r =>
    by_cases hipv4 : endsInIpv4 (groups addr) (some r)
    · have hlast := toList_lastFour addr
      rcases inetNtop6_mapped hrun hipv4 with ⟨htext, hsplit⟩ | ⟨htext, hsplit⟩
      · have hend := @inetPton6End_run addr [] ((groups addr).drop 6) 6 (by decide) hsplit
        rw [htext, inetPton6_colons, inetPton6From_inetNtop4 _ (by decide), hlast]
        rw [List.flatMap_nil, List.length_nil] at hend
        rw [hend, Option.map_some, ofFn_getD_toList]
      · have hend := @inetPton6End_run addr [] (0xffff :: (groups addr).drop 6) 5 (by decide)
          (by simpa using hsplit)
        have hne : inetNtop4 (lastFour addr) ≠ [] := by simp [inetNtop4]
        rw [List.flatMap_nil, List.length_nil, List.nil_append, List.flatMap_cons] at hend
        rw [htext, inetPton6_colons, inetPton6From_joinGroups_colon (by simp) (by simp) (by simp) hne,
          inetPton6From_inetNtop4 _ (by simp [groupBytes]), hlast, List.nil_append]
        simp only [List.flatMap_cons, List.flatMap_nil, List.append_nil]
        rw [hend, Option.map_some, ofFn_getD_toList]
    · obtain ⟨hzero, hlen⟩ := isZero_bestRun hrun
      obtain ⟨hsplit, hle⟩ := hzero.split (by omega)
      rw [inetNtop6_run hrun hipv4]
      generalize hfront : (groups addr).take r.base = front at hsplit ⊢
      generalize hback : (groups addr).drop (r.base + r.len) = back at hsplit ⊢
      have hltb : ∀ w ∈ back, w < 65536 := fun w hw => hlt w (List.mem_of_mem_drop (hback ▸ hw))
      have hltf : ∀ w ∈ front, w < 65536 := fun w hw => hlt w (List.mem_of_mem_take (hfront ▸ hw))
      have hend := inetPton6End_run (by omega) hsplit
      rw [hsplit, List.length_append, List.length_append, List.length_replicate] at hlength
      have hout : (front.flatMap groupBytes).length + 2 * back.length ≤ 16 := by
        rw [length_groupBytes_flatMap]
        omega
      by_cases hne : front = []
      · subst hne
        rw [List.flatMap_nil, List.length_nil] at hend hout
        rw [joinGroups, List.nil_append, inetPton6_colons,
          inetPton6From_joinGroups hltb (by simpa using hout), hend, Option.map_some, ofFn_getD_toList]
      · rw [inetPton6_joinGroups hne, inetPton6From_joinGroups_colon hne hltf (by simp; omega)
          (by simp), inetPton6From_colon, List.nil_append,
          inetPton6From_joinGroups hltb hout, hend, Option.map_some, ofFn_getD_toList]

theorem printed_hexText (n : ℕ) : ∀ ch ∈ hexText n, Printed ch := by
  induction n using Nat.strong_induction_on with
  | _ n ih =>
    rw [hexText_eq]
    split_ifs with h
    · simp [Printed, hexDigit_digitChar h]
    · intro ch hch
      rcases List.mem_append.1 hch with hch | hch
      · exact ih _ (by omega) ch hch
      · rw [List.mem_singleton.1 hch, Printed, hexDigit_digitChar (Nat.mod_lt _ (by decide))]
        exact Or.inl rfl

theorem printed_joinGroups (ws : List ℕ) : ∀ ch ∈ joinGroups ws, Printed ch := by
  have hcolon : Printed (chr ':') := by decide
  have hgroups : ∀ ch ∈ colonGroups ws.tail, Printed ch := by
    intro ch hch
    obtain ⟨w, -, hch⟩ := List.mem_flatMap.1 hch
    rcases List.mem_cons.1 hch with rfl | hch
    · exact hcolon
    · exact printed_hexText w ch hch
  cases ws with
  | nil => simp [joinGroups]
  | cons w ws =>
    intro ch hch
    rcases List.mem_append.1 hch with hch | hch
    · exact printed_hexText w ch hch
    · exact hgroups ch hch

theorem length_joinGroups_le {ws : List ℕ} (hws : ∀ w ∈ ws, w < 65536) :
    (joinGroups ws).length ≤ 5 * ws.length := by
  have hcolons : ∀ vs : List ℕ, (∀ w ∈ vs, w < 65536) → (colonGroups vs).length ≤ 5 * vs.length := by
    intro vs hvs
    induction vs with
    | nil => exact le_refl _
    | cons v vs ih =>
      have hv := length_hexText_le (k := 4) (by decide) (hvs v (by simp))
      have hrest := ih fun w hw => hvs w (List.mem_cons_of_mem _ hw)
      rw [colonGroups, List.flatMap_cons, ← colonGroups, List.length_append, List.length_cons,
        List.length_cons]
      omega
  cases ws with
  | nil => exact le_refl _
  | cons w ws =>
    have hw := length_hexText_le (k := 4) (by decide) (hws w (by simp))
    have hrest := hcolons ws fun v hv => hws v (List.mem_cons_of_mem _ hv)
    rw [joinGroups, List.length_append, List.length_cons]
    omega

/-- An IPv6 address takes at most 40 characters, all of them hexadecimal digits, colons and
points. -/
theorem inetNtop6_form (addr : In6Addr) :
    (inetNtop6 addr).length ≤ 40 ∧ ∀ ch ∈ inetNtop6 addr, Printed ch := by
  have hlength := length_groups addr
  have hlt := groups_lt addr
  have hcolon : Printed (chr ':') := by decide
  have hcons : ∀ {l : List Byte}, (∀ ch ∈ l, Printed ch) → ∀ ch ∈ chr ':' :: l, Printed ch := by
    intro l hl ch hch
    rcases List.mem_cons.1 hch with rfl | hch
    · exact hcolon
    · exact hl ch hch
  have happend : ∀ {l m : List Byte}, (∀ ch ∈ l, Printed ch) → (∀ ch ∈ m, Printed ch) →
      ∀ ch ∈ l ++ m, Printed ch := by
    intro l m hl hm ch hch
    exact (List.mem_append.1 hch).elim (hl ch) (hm ch)
  cases hrun : bestRun (groups addr) with
  | none =>
    rw [inetNtop6_no_run hrun]
    have hle := length_joinGroups_le hlt
    exact ⟨by omega, printed_joinGroups _⟩
  | some r =>
    by_cases hipv4 : endsInIpv4 (groups addr) (some r)
    · have h4 := length_inetNtop4_le (lastFour addr)
      have hp4 := printed_inetNtop4 (lastFour addr)
      rcases inetNtop6_mapped hrun hipv4 with ⟨htext, -⟩ | ⟨htext, -⟩
      · rw [htext]
        exact ⟨by simp only [List.length_cons]; omega, hcons (hcons hp4)⟩
      · have hffff : (joinGroups [0xffff]).length = 4 := by decide
        rw [htext]
        refine ⟨by simp only [List.length_cons, List.length_append]; omega, ?_⟩
        exact hcons (hcons (happend (printed_joinGroups _) (hcons hp4)))
    · obtain ⟨hzero, hlen⟩ := isZero_bestRun hrun
      obtain ⟨-, hle⟩ := hzero.split (by omega)
      have hfront := @length_joinGroups_le ((groups addr).take r.base)
        fun w hw => hlt w (List.mem_of_mem_take hw)
      have hback := @length_joinGroups_le ((groups addr).drop (r.base + r.len))
        fun w hw => hlt w (List.mem_of_mem_drop hw)
      rw [List.length_take] at hfront
      rw [List.length_drop] at hback
      rw [inetNtop6_run hrun hipv4]
      refine ⟨by simp only [List.length_append, List.length_cons]; omega, ?_⟩
      exact happend (printed_joinGroups _) (hcons (hcons (printed_joinGroups _)))

/-- A colon is no character of an IPv4 address. -/
theorem inetPton4From_colon {s : List Byte} (h : chr ':' ∈ s) (octets : List Byte) (cur : ℕ)
    (sawDigit : Bool) : inetPton4From s octets cur sawDigit = none := by
  induction s generalizing octets cur sawDigit with
  | nil => cases h
  | cons ch rest ih =>
    unfold inetPton4From
    rcases List.mem_cons.1 h with rfl | h
    · have hdigit : decDigit (chr ':') = none := by decide
      simp only [hdigit]
      rw [if_neg fun hno => absurd hno.1 (by decide)]
    · cases decDigit ch with
      | some d =>
        simp only
        split_ifs
        · rfl
        · rfl
        · exact ih h _ _ _
      | none =>
        simp only
        split_ifs
        · rfl
        · exact ih h _ _ _
        · rfl

theorem colon_mem_inetNtop6 (addr : In6Addr) : chr ':' ∈ inetNtop6 addr := by
  have hlength := length_groups addr
  cases hrun : bestRun (groups addr) with
  | none =>
    rw [inetNtop6_no_run hrun]
    cases hg : groups addr with
    | nil =>
      rw [hg] at hlength
      cases hlength
    | cons w ws =>
      cases ws with
      | nil =>
        rw [hg] at hlength
        cases hlength
      | cons v ws => simp [joinGroups, colonGroups]
  | some r =>
    by_cases hipv4 : endsInIpv4 (groups addr) (some r)
    · rcases inetNtop6_mapped hrun hipv4 with ⟨htext, -⟩ | ⟨htext, -⟩
      · rw [htext]
        exact List.mem_cons_self
      · rw [htext]
        exact List.mem_cons_self
    · rw [inetNtop6_run hrun hipv4]
      simp

/-- The texts of the two families are told apart. -/
theorem inetPton4_inetNtop6 (addr : In6Addr) : inetPton4 (inetNtop6 addr) = none := by
  rw [inetPton4, inetPton4From_colon (colon_mem_inetNtop6 addr), Option.map_none]

example : inetNtop6 (Vector.ofFn fun i => if i = 0 then 0xfe else if i = 1 then 0x80
    else if i = 15 then 0x1 else 0) = ascii "fe80::1" := by decide

end Wgx
