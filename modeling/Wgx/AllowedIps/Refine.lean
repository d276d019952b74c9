import Wgx.AllowedIps.Table
import Wgx.Lib.PrefixTrie
import Wgx.Lib.Run

/-!
# The AllowedIPs table refines a prefix map

The prefix of a node is the list of its first `cidr` bits.  Forgetting the byte layout turns a
table of `allowedips.c` into two path-compressed tries of the library (`toTrie`), and the code's
operations into the library's (`toTrie_insert`, `lookupFrom_eq`, `toTrie_removePeerFromTree`,
`walkTree_entries`).  The specification is a pair of partial functions from prefixes to peers
(`PrefixTable`), where the last insertion wins and removing a peer erases its entries.

`Stored v node` is the invariant of the byte layout: masked bits, lengths in range, version `v`.
-/

namespace Wgx.AllowedIps

open PrefixTrie (lcp IsLongestMatch longestMatch)

variable {P : Type*}

/-! ### Bits of bytes -/

/-- The first `n` bits of an address. -/
def bitsOf (bits : List Byte) (n : ℕ) : List Bool := (List.range n).map (bitAt bits)

@[simp] theorem length_bitsOf (bits : List Byte) (n : ℕ) : (bitsOf bits n).length = n := by
  simp [bitsOf]

theorem getD_bitsOf {bits : List Byte} {n i : ℕ} (h : i < n) :
    (bitsOf bits n).getD i false = bitAt bits i := by
  simp [bitsOf, List.getD_eq_getElem?_getD, h]

theorem take_bitsOf {bits : List Byte} {m n : ℕ} (h : m ≤ n) :
    (bitsOf bits n).take m = bitsOf bits m := by
  rw [bitsOf, ← List.map_take, List.take_range, min_eq_left h, bitsOf]

theorem bitsOf_eq_iff {a b : List Byte} {n : ℕ} :
    bitsOf a n = bitsOf b n ↔ ∀ i < n, bitAt a i = bitAt b i := by
  simp [bitsOf, List.map_inj_left]

theorem and_one_eq_one (x : Byte) : decide (x &&& 1#8 = 1#8) = x.getLsbD 0 := by
  rw [BitVec.and_one_eq_setWidth_ofBool_getLsbD]
  cases x.getLsbD 0 <;> rfl

theorem bitAt_eq (bits : List Byte) (i : ℕ) :
    bitAt bits i = (bits.getD (i / 8) 0#8).getLsbD (7 - i % 8) := by
  have hmod : i &&& 7 = i % 8 := Nat.and_two_pow_sub_one_eq_mod i 3
  rw [bitAt, and_one_eq_one, BitVec.getLsbD_ushiftRight, Nat.shiftRight_eq_div_pow, hmod,
    Nat.add_zero]

theorem getLsbD_mask {s i : ℕ} (hi : i < 8) : (0xff#8 <<< s).getLsbD i = decide (s ≤ i) := by
  rw [BitVec.getLsbD_shiftLeft, show (0xff#8) = BitVec.allOnes 8 from rfl,
    BitVec.getLsbD_allOnes]
  by_cases h : i < s
  · simp [h]
  · simp [h, hi]; omega

theorem byte_eq_iff {x y : Byte} : x = y ↔ ∀ j < 8, x.getLsbD (7 - j) = y.getLsbD (7 - j) := by
  constructor
  · rintro rfl j _; rfl
  · intro h
    apply BitVec.eq_of_getLsbD_eq
    intro i hi
    have := h (7 - i) (by omega)
    rwa [show 7 - (7 - i) = i by omega] at this

theorem masked_eq_iff {x y : Byte} {n : ℕ} (hn : n ≤ 8) :
    x &&& (0xff#8 <<< (8 - n)) = y &&& (0xff#8 <<< (8 - n)) ↔
      ∀ j < n, x.getLsbD (7 - j) = y.getLsbD (7 - j) := by
  rw [byte_eq_iff]
  constructor
  · intro h j hj
    have := h j (by omega)
    rw [BitVec.getLsbD_and, BitVec.getLsbD_and, getLsbD_mask (by omega)] at this
    simpa [show 8 - n ≤ 7 - j by omega] using this
  · intro h j hj
    rw [BitVec.getLsbD_and, BitVec.getLsbD_and, getLsbD_mask (by omega)]
    by_cases hjn : j < n
    · rw [h j hjn]
    · simp [show ¬ 8 - n ≤ 7 - j by omega]

/-- The comparison of `lookup` compares the first `cidr` bits. -/
theorem prefixMatches_iff (a b : List Byte) (cidr : ℕ) :
    prefixMatches a cidr b = true ↔ bitsOf a cidr = bitsOf b cidr := by
  have hdiv : cidr >>> 3 = cidr / 8 := Nat.shiftRight_eq_div_pow cidr 3
  have hmod : cidr &&& 7 = cidr % 8 := Nat.and_two_pow_sub_one_eq_mod cidr 3
  simp only [prefixMatches, hdiv, hmod, Bool.and_eq_true, Bool.or_eq_true, List.all_eq_true,
    List.mem_range, decide_eq_true_eq, bitsOf_eq_iff, bitAt_eq]
  rw [masked_eq_iff (by omega)]
  constructor
  · rintro ⟨hbytes, hrest⟩ i hi
    by_cases hlt : i / 8 < cidr / 8
    · rw [hbytes _ hlt]
    · have hdiv : i / 8 = cidr / 8 := by omega
      rw [hdiv]
      rcases hrest with h0 | hrest
      · omega
      · exact hrest _ (by omega)
  · intro h
    refine ⟨fun i hi => byte_eq_iff.2 fun j hj => ?_, Or.inr fun j hj => ?_⟩
    · have := h (8 * i + j) (by omega)
      rwa [show (8 * i + j) / 8 = i by omega, show (8 * i + j) % 8 = j by omega] at this
    · have := h (8 * (cidr / 8) + j) (by omega)
      rwa [show (8 * (cidr / 8) + j) / 8 = cidr / 8 by omega,
        show (8 * (cidr / 8) + j) % 8 = j by omega] at this

theorem commonBitsFrom_eq (a b : List Byte) (i n m : ℕ) :
    commonBitsFrom a b i (min n m) =
      i + lcp ((List.range' i n).map (bitAt a)) ((List.range' i m).map (bitAt b)) := by
  induction n generalizing i m with
  | zero => simp [commonBitsFrom, lcp]
  | succ n ih =>
    cases m with
    | zero => simp [commonBitsFrom, lcp]
    | succ m =>
      rw [show min (n + 1) (m + 1) = min n m + 1 by omega, List.range'_succ, List.range'_succ]
      simp only [commonBitsFrom, List.map_cons, lcp, ih]
      split_ifs <;> simp_all
      omega

/-- `common_bits` is the length of the common prefix. -/
theorem commonBits_eq_lcp (a b : List Byte) (n m : ℕ) :
    commonBits a b (if n < m then n else m) = lcp (bitsOf a n) (bitsOf b m) := by
  have hmin : (if n < m then n else m) = min n m := by split_ifs <;> omega
  rw [hmin, commonBits, commonBitsFrom_eq, Nat.zero_add, bitsOf, bitsOf, List.range_eq_range',
    List.range_eq_range']

/-! ### New nodes -/

/-- The number of bits of an address of the family. -/
def maxBits (ipVersion : ℕ) : ℕ := addrLen ipVersion * 8

theorem addrLen_le (ipVersion : ℕ) : addrLen ipVersion ≤ 16 := by
  unfold addrLen; split_ifs <;> omega

theorem getD_mapIdx {f : ℕ → Byte → Byte} (hf : ∀ i, f i 0#8 = 0#8) (l : List Byte) (i : ℕ) :
    (l.mapIdx f).getD i 0#8 = f i (l.getD i 0#8) := by
  rw [List.getD_eq_getElem?_getD, List.getElem?_mapIdx, List.getD_eq_getElem?_getD]
  cases l[i]? <;> simp [hf]

theorem getD_modify {g : Byte → Byte} (hg : g 0#8 = 0#8) (l : List Byte) (i j : ℕ) :
    (l.modify j g).getD i 0#8 = if j = i then g (l.getD i 0#8) else l.getD i 0#8 := by
  rw [List.getD_eq_getElem?_getD, List.getElem?_modify, List.getD_eq_getElem?_getD]
  split_ifs <;> cases l[i]? <;> simp [hg]

theorem length_copied (bits : List Byte) {ipVersion : ℕ} (hbits : bits.length = addrLen ipVersion) :
    (memcpy (List.replicate 16 0#8) bits (addrLen ipVersion)).length = 16 := by
  have := addrLen_le ipVersion
  simp only [memcpy, List.length_append, List.length_take, List.length_drop, List.length_replicate]
  omega

theorem getD_copied (bits : List Byte) {ipVersion : ℕ} (hbits : bits.length = addrLen ipVersion)
    (i : ℕ) : (memcpy (List.replicate 16 0#8) bits (addrLen ipVersion)).getD i 0#8 =
      if i < addrLen ipVersion then bits.getD i 0#8 else 0#8 := by
  rw [memcpy, ← hbits, List.take_length]
  split_ifs with h
  · rw [List.getD_append _ _ _ _ h]
  · rw [List.getD_append_right _ _ _ _ (by omega), List.drop_replicate]
    by_cases hi : i - bits.length < 16 - bits.length
    · rw [List.getD_replicate _ hi]
    · exact List.getD_eq_default _ _ (by simpa using by omega)

theorem length_nodeBits (bits : List Byte) (cidr : ℕ) {ipVersion : ℕ}
    (hbits : bits.length = addrLen ipVersion) : (nodeBits bits cidr ipVersion).length = 16 := by
  have hlen := length_copied bits hbits
  simp only [nodeBits]
  split_ifs <;> simp only [List.length_mapIdx, List.length_modify, hlen]

/-- Byte `i` of a new node: the address up to the last whole byte of the prefix, the masked byte
after it, zeros beyond. -/
theorem getD_nodeBits (bits : List Byte) {cidr ipVersion : ℕ}
    (hbits : bits.length = addrLen ipVersion) (hcidr : cidr ≤ maxBits ipVersion) (i : ℕ) :
    (nodeBits bits cidr ipVersion).getD i 0#8 =
      if i < cidr / 8 then bits.getD i 0#8
      else if i = cidr / 8 ∧ cidr % 8 ≠ 0 then bits.getD i 0#8 &&& (0xff#8 <<< (8 - cidr % 8))
      else 0#8 := by
  have hdiv : cidr >>> 3 = cidr / 8 := Nat.shiftRight_eq_div_pow cidr 3
  have hmod : cidr &&& 7 = cidr % 8 := Nat.and_two_pow_sub_one_eq_mod cidr 3
  have hcopied := getD_copied bits hbits
  simp only [maxBits] at hcidr
  simp only [nodeBits, hdiv, hmod]
  by_cases h1 : cidr < addrLen ipVersion * 8
  · rw [if_pos h1, getD_mapIdx (by simp)]
    by_cases h2 : cidr % 8 = 0
    · simp only [h2, ne_eq, not_true_eq_false, if_false, and_false, hcopied]
      split_ifs <;> first | rfl | omega
    · simp only [h2, ne_eq, not_false_eq_true, if_true, and_true,
        getD_modify (g := (· &&& 0xff#8 <<< (8 - cidr % 8))) (BitVec.zero_and), hcopied]
      split_ifs <;> first | rfl | omega
  · rw [if_neg h1, hcopied]
    split_ifs <;> first | rfl | omega

/-- The bits of a new node are those of the address up to `cidr`, then zeros. -/
theorem bitAt_nodeBits (bits : List Byte) {cidr ipVersion : ℕ}
    (hbits : bits.length = addrLen ipVersion) (hcidr : cidr ≤ maxBits ipVersion) (i : ℕ) :
    bitAt (nodeBits bits cidr ipVersion) i = if i < cidr then bitAt bits i else false := by
  rw [bitAt_eq, bitAt_eq, getD_nodeBits bits hbits hcidr]
  by_cases h1 : i / 8 < cidr / 8
  · rw [if_pos h1, if_pos (by omega)]
  · rw [if_neg h1]
    by_cases h2 : i / 8 = cidr / 8 ∧ cidr % 8 ≠ 0
    · rw [if_pos h2, BitVec.getLsbD_and, getLsbD_mask (by omega)]
      by_cases h3 : i < cidr
      · rw [if_pos h3, decide_eq_true (by omega), Bool.and_true]
      · rw [if_neg h3, decide_eq_false (by omega), Bool.and_false]
    · rw [if_neg h2, if_neg (by omega), BitVec.getLsbD_zero]

theorem bitsOf_nodeBits (bits : List Byte) {cidr ipVersion : ℕ}
    (hbits : bits.length = addrLen ipVersion) (hcidr : cidr ≤ maxBits ipVersion) :
    bitsOf (nodeBits bits cidr ipVersion) cidr = bitsOf bits cidr := by
  rw [bitsOf_eq_iff]
  intro i hi
  rw [bitAt_nodeBits bits hbits hcidr, if_pos hi]

/-! ### Simulation by the library's tries -/

/-- Forget the byte layout. -/
def Node.toTrie : Node P → PrefixTrie.Trie P
  | .null => .null
  | .mk cidr bits _ peer child0 child1 => .node (bitsOf bits cidr) peer child0.toTrie child1.toTrie

/-- The layout invariant of the trie of family `v`. -/
def Stored (v : ℕ) : Node P → Prop
  | .null => True
  | .mk cidr bits ipVersion _ child0 child1 =>
    cidr ≤ maxBits v ∧ bits.length = 16 ∧ (∀ i, cidr ≤ i → bitAt bits i = false) ∧
      ipVersion = v ∧ Stored v child0 ∧ Stored v child1

section Simulation

variable {v cidr : ℕ} {bits : List Byte}

theorem toTrie_nodeNew (hbits : bits.length = addrLen v) (hcidr : cidr ≤ maxBits v)
    (peer : Option P) (c0 c1 : Node P) : (nodeNew bits cidr v peer c0 c1).toTrie =
      .node (bitsOf bits cidr) peer c0.toTrie c1.toTrie := by
  rw [nodeNew, Node.toTrie, bitsOf_nodeBits bits hbits hcidr]

theorem toTrie_nodeFork (hbits : bits.length = addrLen v) (hcidr : cidr ≤ maxBits v)
    (peer : Option P) (b : Bool) (n o : Node P) : (nodeFork bits cidr v peer b n o).toTrie =
      .fork (bitsOf bits cidr) peer b n.toTrie o.toTrie := by
  cases b <;> simp [nodeFork, PrefixTrie.Trie.fork, toTrie_nodeNew hbits hcidr]

theorem stored_nodeNew (hbits : bits.length = addrLen v) (hcidr : cidr ≤ maxBits v)
    (peer : Option P) {c0 c1 : Node P} (h0 : Stored v c0) (h1 : Stored v c1) :
    Stored v (nodeNew bits cidr v peer c0 c1) := by
  refine ⟨hcidr, length_nodeBits bits cidr hbits, fun i hi => ?_, rfl, h0, h1⟩
  rw [bitAt_nodeBits bits hbits hcidr, if_neg (by omega)]

theorem stored_nodeFork (hbits : bits.length = addrLen v) (hcidr : cidr ≤ maxBits v)
    (peer : Option P) (b : Bool) {n o : Node P} (hn : Stored v n) (ho : Stored v o) :
    Stored v (nodeFork bits cidr v peer b n o) := by
  cases b
  · exact stored_nodeNew hbits hcidr peer hn ho
  · exact stored_nodeNew hbits hcidr peer ho hn

/-- `insert` keeps the layout invariant and inserts the first `cidr` bits. -/
theorem insert_simulates (hbits : bits.length = addrLen v) (hcidr : cidr ≤ maxBits v) (peer : P)
    {t : Node P} (h : Stored v t) :
    Stored v (insert bits cidr v peer t) ∧
      (insert bits cidr v peer t).toTrie = t.toTrie.insert (bitsOf bits cidr) peer := by
  induction t with
  | null =>
    exact ⟨stored_nodeNew hbits hcidr _ trivial trivial, toTrie_nodeNew hbits hcidr _ _ _⟩
  | mk c nb nv np c0 c1 ih0 ih1 =>
    obtain ⟨hc, hlen, hzero, hver, h0, h1⟩ := id h
    have hle : lcp (bitsOf nb c) (bitsOf bits cidr) ≤ cidr := by
      simpa using PrefixTrie.lcp_le_right (bitsOf nb c) (bitsOf bits cidr)
    have hlec : lcp (bitsOf nb c) (bitsOf bits cidr) ≤ c := by
      simpa using PrefixTrie.lcp_le_left (bitsOf nb c) (bitsOf bits cidr)
    simp only [insert, Node.toTrie, PrefixTrie.Trie.insert, commonBits_eq_lcp, length_bitsOf]
    generalize hm : lcp (bitsOf nb c) (bitsOf bits cidr) = m at hle hlec ⊢
    have hmmax : m ≤ maxBits v := hle.trans hcidr
    by_cases hmc : m < c
    · rw [if_pos hmc, if_pos hmc, getD_bitsOf hmc]
      by_cases hmk : m = cidr
      · rw [if_pos hmk, if_pos hmk]
        refine ⟨stored_nodeFork hbits hmmax _ _ h trivial, ?_⟩
        rw [toTrie_nodeFork hbits hmmax, hmk]
        rfl
      · rw [if_neg hmk, if_neg hmk, take_bitsOf hle]
        refine ⟨stored_nodeFork hbits hmmax _ _ h (stored_nodeNew hbits hcidr _ trivial trivial), ?_⟩
        rw [toTrie_nodeFork hbits hmmax, toTrie_nodeNew hbits hcidr]
        rfl
    · rw [if_neg hmc, if_neg hmc]
      by_cases hmk : m = cidr
      · have hcc : c = cidr := by omega
        rw [if_pos hmk, if_pos hmk, if_pos hcc]
        exact ⟨⟨hc, hlen, hzero, hver, h0, h1⟩, rfl⟩
      · rw [if_neg hmk, if_neg hmk, getD_bitsOf (by omega)]
        by_cases hb : bitAt bits c = true
        · rw [if_pos hb, if_pos hb]
          exact ⟨⟨hc, hlen, hzero, hver, h0, (ih1 h1).1⟩, by rw [Node.toTrie, (ih1 h1).2]⟩
        · rw [if_neg hb, if_neg hb]
          exact ⟨⟨hc, hlen, hzero, hver, (ih0 h0).1, h1⟩, by rw [Node.toTrie, (ih0 h0).2]⟩

theorem lookupFrom_eq {t : Node P} (h : Stored v t) (bits : List Byte) (best : Option P) :
    lookupFrom bits (maxBits v) t best = t.toTrie.lookup (bitsOf bits (maxBits v)) best := by
  induction t generalizing best with
  | null => rfl
  | mk c nb nv np c0 c1 ih0 ih1 =>
    obtain ⟨hc, -, -, -, h0, h1⟩ := h
    have hpre : prefixMatches nb c bits = (bitsOf nb c).isPrefixOf (bitsOf bits (maxBits v)) := by
      rw [Bool.eq_iff_iff, prefixMatches_iff, List.isPrefixOf_iff_prefix, List.prefix_iff_eq_take,
        length_bitsOf, take_bitsOf hc]
    simp only [lookupFrom, Node.toTrie, PrefixTrie.Trie.lookup, hpre, length_bitsOf]
    rw [if_neg (by omega)]
    by_cases hcm : c = maxBits v
    · simp only [if_pos hcm]
    · simp only [if_neg hcm, getD_bitsOf (lt_of_le_of_ne hc hcm), ih0 h0, ih1 h1]

theorem removePeerFromTree_simulates [DecidableEq P] (peer : P) {t : Node P} (h : Stored v t) :
    Stored v (removePeerFromTree peer t) ∧
      (removePeerFromTree peer t).toTrie = t.toTrie.removeValue peer := by
  induction t with
  | null => exact ⟨trivial, rfl⟩
  | mk c nb nv np c0 c1 ih0 ih1 =>
    obtain ⟨hc, hlen, hzero, hver, h0, h1⟩ := h
    refine ⟨⟨hc, hlen, hzero, hver, (ih0 h0).1, (ih1 h1).1⟩, ?_⟩
    rw [removePeerFromTree, Node.toTrie, (ih0 h0).2, (ih1 h1).2]
    rfl

/-- What a visit says: the prefix and its peer. -/
def Visit.entry (n : Visit P) : List Bool × P := (bitsOf n.bits n.cidr, n.peer)

theorem walkTree_entries (t : Node P) : (walkTree t).map Visit.entry = t.toTrie.entries := by
  induction t with
  | null => rfl
  | mk c nb nv np c0 c1 ih0 ih1 =>
    cases np <;> simp [walkTree, Node.toTrie, PrefixTrie.Trie.entries, Visit.entry, ← ih0, ← ih1]

/-- The node shown in a visit is laid out as the family's nodes are. -/
theorem walkTree_stored {t : Node P} (h : Stored v t) : ∀ n ∈ walkTree t,
    n.ipVersion = v ∧ n.cidr ≤ maxBits v ∧ n.bits.length = 16 ∧
      ∀ i, n.cidr ≤ i → bitAt n.bits i = false := by
  induction t with
  | null => simp [walkTree]
  | mk c nb nv np c0 c1 ih0 ih1 =>
    obtain ⟨hc, hlen, hzero, hver, h0, h1⟩ := h
    intro n hn
    simp only [walkTree, List.mem_append, Option.mem_toList, Option.map_eq_some_iff] at hn
    rcases hn with (⟨p, -, rfl⟩ | hn) | hn
    · exact ⟨hver, hc, hlen, hzero⟩
    · exact ih0 h0 n hn
    · exact ih1 h1 n hn

end Simulation

/-! ### The specification and the refinement -/

/-- The specification: for each family, a partial function from prefixes to peers. -/
structure PrefixTable (P : Type*) where
  v4 : List Bool → Option P
  v6 : List Bool → Option P

/-- One call on a table. -/
inductive Op (P : Type*)
  | insertV4 (addr : InAddr) (cidr : ℕ) (peer : P)
  | insertV6 (addr : In6Addr) (cidr : ℕ) (peer : P)
  | removePeer (peer : P)

/-- The empty specification. -/
def PrefixTable.empty : PrefixTable P := ⟨fun _ => none, fun _ => none⟩

/-- The table represents the specification. -/
structure Represents (t : Table P) (M : PrefixTable P) : Prop where
  stored4 : Stored 4 t.root4
  stored6 : Stored 6 t.root6
  map4 : t.root4.toTrie.Represents M.v4
  map6 : t.root6.toTrie.Represents M.v6

theorem represents_init : Represents (allowedipsInit : Table P) PrefixTable.empty :=
  ⟨trivial, trivial, PrefixTrie.Trie.represents_null, PrefixTrie.Trie.represents_null⟩

theorem Represents.lookupV4 {t : Table P} {M : PrefixTable P} (h : Represents t M)
    (addr : InAddr) : allowedipsLookupV4 t addr = longestMatch M.v4 (bitsOf addr.toList 32) := by
  rw [← h.map4.lookup]
  exact lookupFrom_eq h.stored4 _ _

theorem Represents.lookupV6 {t : Table P} {M : PrefixTable P} (h : Represents t M)
    (addr : In6Addr) : allowedipsLookupV6 t addr = longestMatch M.v6 (bitsOf addr.toList 128) := by
  rw [← h.map6.lookup]
  exact lookupFrom_eq h.stored6 _ _

/-- **The walk visits exactly the entries of the specification.** -/
theorem Represents.mem_walk {t : Table P} {M : PrefixTable P} (h : Represents t M)
    (k : List Bool) (peer : P) :
    ((∃ n ∈ allowedipsWalk t, n.ipVersion = 4 ∧ n.entry = (k, peer)) ↔ M.v4 k = some peer) ∧
      ((∃ n ∈ allowedipsWalk t, n.ipVersion = 6 ∧ n.entry = (k, peer)) ↔ M.v6 k = some peer) := by
  have mem : ∀ {r : Node P} {m : List Bool → Option P}, r.toTrie.Represents m →
      ((∃ n ∈ walkTree r, n.entry = (k, peer)) ↔ m k = some peer) := by
    intro r m hr
    rw [← hr.mem k peer, ← walkTree_entries, List.mem_map]
  have hver4 := fun n hn => (walkTree_stored h.stored4 n hn).1
  have hver6 := fun n hn => (walkTree_stored h.stored6 n hn).1
  rw [← mem h.map4, ← mem h.map6]
  constructor
  · constructor
    · rintro ⟨n, hn, hv, he⟩
      rcases List.mem_append.1 hn with hn | hn
      · exact ⟨n, hn, he⟩
      · exact absurd (hv.symm.trans (hver6 n hn)) (by decide)
    · rintro ⟨n, hn, he⟩
      exact ⟨n, List.mem_append_left _ hn, hver4 n hn, he⟩
  · constructor
    · rintro ⟨n, hn, hv, he⟩
      rcases List.mem_append.1 hn with hn | hn
      · exact absurd (hv.symm.trans (hver4 n hn)) (by decide)
      · exact ⟨n, hn, he⟩
    · rintro ⟨n, hn, he⟩
      exact ⟨n, List.mem_append_right _ hn, hver6 n hn, he⟩

/-- The family and the prefix shown in a visit. -/
def Visit.key (n : Visit P) : ℕ × List Bool := (n.ipVersion, bitsOf n.bits n.cidr)

theorem nodup_walkTree {v : ℕ} {r : Node P} {m : List Bool → Option P} (hs : Stored v r)
    (hr : r.toTrie.Represents m) : ((walkTree r).map Visit.key).Nodup := by
  have hkeys : (walkTree r).map Visit.key =
      (((walkTree r).map Visit.entry).map Prod.fst).map (Prod.mk v) := by
    rw [List.map_map, List.map_map]
    apply List.map_congr_left
    intro n hn
    show (n.ipVersion, _) = (v, _)
    rw [(walkTree_stored hs n hn).1]
    rfl
  rw [hkeys, walkTree_entries]
  exact hr.wf.nodup.map fun a b hab => (Prod.mk.inj hab).2

theorem Represents.nodup_walk {t : Table P} {M : PrefixTable P} (h : Represents t M) :
    ((allowedipsWalk t).map Visit.key).Nodup := by
  rw [allowedipsWalk, List.map_append]
  refine (nodup_walkTree h.stored4 h.map4).append (nodup_walkTree h.stored6 h.map6) ?_
  -- the two walks show different families
  intro k h4 h6
  obtain ⟨n, hn, rfl⟩ := List.mem_map.1 h4
  obtain ⟨n', hn', hk⟩ := List.mem_map.1 h6
  have h46 : n'.ipVersion = n.ipVersion := congrArg Prod.fst hk
  rw [(walkTree_stored h.stored4 n hn).1, (walkTree_stored h.stored6 n' hn').1] at h46
  exact absurd h46 (by decide)

theorem Represents.walk_layout {t : Table P} {M : PrefixTable P} (h : Represents t M) :
    ∀ n ∈ allowedipsWalk t, (n.ipVersion = 4 ∨ n.ipVersion = 6) ∧ n.cidr ≤ maxBits n.ipVersion ∧
      n.bits.length = 16 ∧ ∀ i, n.cidr ≤ i → bitAt n.bits i = false := by
  intro n hn
  rcases List.mem_append.1 hn with hn | hn
  · obtain ⟨hv, hc, hlen, hzero⟩ := walkTree_stored h.stored4 n hn
    exact ⟨Or.inl hv, hv ▸ hc, hlen, hzero⟩
  · obtain ⟨hv, hc, hlen, hzero⟩ := walkTree_stored h.stored6 n hn
    exact ⟨Or.inr hv, hv ▸ hc, hlen, hzero⟩

section Refinement

variable [DecidableEq P]

/-- The code's effect of a call. -/
def Table.step (t : Table P) : Op P → Table P
  | .insertV4 addr cidr peer => (allowedipsInsertV4 t addr cidr peer).1
  | .insertV6 addr cidr peer => (allowedipsInsertV6 t addr cidr peer).1
  | .removePeer peer => allowedipsRemovePeer t peer

/-- The specified effect of a call: the last insertion of a prefix wins, removing a peer erases
its prefixes, and a prefix length that the family does not have changes nothing. -/
def PrefixTable.step (M : PrefixTable P) : Op P → PrefixTable P
  | .insertV4 addr cidr peer =>
    if cidr ≤ 32 then { M with v4 := Function.update M.v4 (bitsOf addr.toList cidr) (some peer) }
    else M
  | .insertV6 addr cidr peer =>
    if cidr ≤ 128 then { M with v6 := Function.update M.v6 (bitsOf addr.toList cidr) (some peer) }
    else M
  | .removePeer peer =>
    ⟨fun k => if M.v4 k = some peer then none else M.v4 k,
      fun k => if M.v6 k = some peer then none else M.v6 k⟩

theorem length_toList_v4 (addr : InAddr) : addr.toList.length = addrLen 4 := by
  simp [addrLen]

theorem length_toList_v6 (addr : In6Addr) : addr.toList.length = addrLen 6 := by
  simp [addrLen]

theorem Represents.step {t : Table P} {M : PrefixTable P} (h : Represents t M) (op : Op P) :
    Represents (t.step op) (M.step op) := by
  cases op with
  | insertV4 addr cidr peer =>
    simp only [Table.step, PrefixTable.step, allowedipsInsertV4]
    by_cases hc : cidr ≤ 32
    · rw [if_neg (by omega), if_pos hc]
      obtain ⟨hs, ht⟩ := insert_simulates (length_toList_v4 addr) hc peer h.stored4
      exact ⟨hs, h.stored6, by rw [ht]; exact h.map4.insert _ _, h.map6⟩
    · rw [if_pos (by omega), if_neg hc]
      exact h
  | insertV6 addr cidr peer =>
    simp only [Table.step, PrefixTable.step, allowedipsInsertV6]
    by_cases hc : cidr ≤ 128
    · rw [if_neg (by omega), if_pos hc]
      obtain ⟨hs, ht⟩ := insert_simulates (length_toList_v6 addr) hc peer h.stored6
      exact ⟨h.stored4, hs, h.map4, by rw [ht]; exact h.map6.insert _ _⟩
    · rw [if_pos (by omega), if_neg hc]
      exact h
  | removePeer peer =>
    obtain ⟨hs4, ht4⟩ := removePeerFromTree_simulates peer h.stored4
    obtain ⟨hs6, ht6⟩ := removePeerFromTree_simulates peer h.stored6
    exact ⟨hs4, hs6, by rw [Table.step, allowedipsRemovePeer, ht4]; exact h.map4.removeValue peer,
      by rw [Table.step, allowedipsRemovePeer, ht6]; exact h.map6.removeValue peer⟩

theorem Represents.run {t : Table P} {M : PrefixTable P} (h : Represents t M) (ops : List (Op P)) :
    Represents (Machine.run Table.step t ops) (Machine.run PrefixTable.step M ops) := by
  induction ops generalizing t M with
  | nil => exact h
  | cons op ops ih => exact ih (h.step op)

/-- The table after the calls `ops` on an empty one. -/
def Table.after (ops : List (Op P)) : Table P := Machine.run Table.step allowedipsInit ops

/-- The prefix map after the calls `ops`. -/
def PrefixTable.after (ops : List (Op P)) : PrefixTable P :=
  Machine.run PrefixTable.step PrefixTable.empty ops

theorem represents_after (ops : List (Op P)) : Represents (Table.after ops) (.after ops) :=
  represents_init.run ops

/-- **The table refines a prefix map.**  After any calls on an empty table, with `M` the map in
which the last insertion wins and removed peers are erased, a lookup returns the peer of the longest
prefix of `M` that contains the address, and the walk shows each entry of `M` once, with its length
and its masked bits. -/
theorem allowedips_refines_prefix_map (ops : List (Op P)) :
    (∀ addr peer, allowedipsLookupV4 (Table.after ops) addr = some peer ↔
      IsLongestMatch (PrefixTable.after ops).v4 (bitsOf addr.toList 32) peer) ∧
    (∀ addr, allowedipsLookupV4 (Table.after ops) addr = none ↔
      ∀ p, p <+: bitsOf addr.toList 32 → (PrefixTable.after ops).v4 p = none) ∧
    (∀ addr peer, allowedipsLookupV6 (Table.after ops) addr = some peer ↔
      IsLongestMatch (PrefixTable.after ops).v6 (bitsOf addr.toList 128) peer) ∧
    (∀ addr, allowedipsLookupV6 (Table.after ops) addr = none ↔
      ∀ p, p <+: bitsOf addr.toList 128 → (PrefixTable.after ops).v6 p = none) ∧
    (∀ k peer,
      ((∃ n ∈ allowedipsWalk (Table.after ops), n.ipVersion = 4 ∧ n.entry = (k, peer)) ↔
        (PrefixTable.after ops).v4 k = some peer) ∧
      ((∃ n ∈ allowedipsWalk (Table.after ops), n.ipVersion = 6 ∧ n.entry = (k, peer)) ↔
        (PrefixTable.after ops).v6 k = some peer)) ∧
    ((allowedipsWalk (Table.after ops)).map Visit.key).Nodup ∧
    ∀ n ∈ allowedipsWalk (Table.after ops), (n.ipVersion = 4 ∨ n.ipVersion = 6) ∧
      n.cidr ≤ maxBits n.ipVersion ∧ n.bits.length = 16 ∧ ∀ i, n.cidr ≤ i → bitAt n.bits i = false := by
  have h := represents_after ops
  refine ⟨fun addr peer => ?_, fun addr => ?_, fun addr peer => ?_, fun addr => ?_, h.mem_walk,
    h.nodup_walk, h.walk_layout⟩
  · rw [h.lookupV4, PrefixTrie.longestMatch_eq_some]
  · rw [h.lookupV4, PrefixTrie.longestMatch_eq_none]
  · rw [h.lookupV6, PrefixTrie.longestMatch_eq_some]
  · rw [h.lookupV6, PrefixTrie.longestMatch_eq_none]

end Refinement

end Wgx.AllowedIps
