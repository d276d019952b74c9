import Wgx.AllowedIps.Refine

/-!
# Copies of a table

The entries that `allowedips_walk` shows, inserted into an empty table for other peers, give a table
with the same routes: wherever the first table leads to a peer, the copy leads to the peer that took
its place.

* `PrefixTable.entryAt`: the prefix map as one map on both families;
* `visitOp`: the insertion that an entry leads to;
* `longestMatch_rel`: related maps have related longest matches;
* `lookup_copy`: the lookups in a copy.
-/

namespace Wgx.AllowedIps

open PrefixTrie (longestMatch)

variable {P Q : Type*}

/-! ### Related maps -/

/-- Related maps have related longest matches. -/
theorem longestMatch_rel {R : P → Q → Prop} {M : List Bool → Option P} {N : List Bool → Option Q}
    (h : ∀ k, Option.Rel R (M k) (N k)) (addr : List Bool) :
    Option.Rel R (longestMatch M addr) (longestMatch N addr) := by
  induction addr generalizing M N with
  | nil => exact h []
  | cons b bs ih =>
    have hrest := ih fun k => h (b :: k)
    have hhere := h []
    simp only [longestMatch]
    generalize longestMatch (fun k => M (b :: k)) bs = m at hrest ⊢
    generalize longestMatch (fun k => N (b :: k)) bs = n at hrest ⊢
    cases hrest with
    | some hR => exact .some hR
    | none => simpa using hhere

/-! ### One map for both families -/

/-- The family of a key is one that `allowedips_t` has. -/
def IsFamily (v : ℕ) : Prop := v = 4 ∨ v = 6

/-- The entry at a key, of either family. -/
def PrefixTable.entryAt (M : PrefixTable P) (key : ℕ × List Bool) : Option P :=
  if key.1 = 4 then M.v4 key.2 else M.v6 key.2

/-- The insertion that an entry leads to. -/
def visitOp (peer : Q) (n : Visit P) : Op Q :=
  if n.ipVersion = 4 then .insertV4 (Vector.ofFn fun i => n.bits.getD i 0) n.cidr peer
  else .insertV6 (Vector.ofFn fun i => n.bits.getD i 0) n.cidr peer

/-- An entry of a family, with a prefix length that the family has. -/
def Visit.InFamily (n : Visit P) : Prop := IsFamily n.ipVersion ∧ n.cidr ≤ maxBits n.ipVersion

theorem Visit.InFamily.cidr_le {n : Visit P} (h : n.InFamily) : n.cidr ≤ 128 := by
  obtain ⟨hver, hcidr⟩ := h
  rcases hver with hver | hver <;> rw [hver] at hcidr
  · exact hcidr.trans (by decide)
  · exact hcidr

theorem bitsOf_ofFn_getD (bits : List Byte) {m cidr : ℕ} (h : cidr ≤ 8 * m) :
    bitsOf (Vector.ofFn fun i : Fin m => bits.getD i 0).toList cidr = bitsOf bits cidr := by
  refine List.map_congr_left fun i hi => ?_
  rw [List.mem_range] at hi
  have hbyte : i >>> 3 < m := by
    rw [Nat.shiftRight_eq_div_pow]
    omega
  simp [bitAt, List.getD_eq_getElem?_getD, hbyte]

section Insertions

variable [DecidableEq Q] {M : PrefixTable Q} {key : ℕ × List Bool} {cidr : ℕ} {n : Visit P}

/-- An insertion sets one entry. -/
theorem entryAt_insertV4 (hc : cidr ≤ 32) (hkey : IsFamily key.1) (addr : InAddr) (peer : Q) :
    (M.step (.insertV4 addr cidr peer)).entryAt key =
      if (4, bitsOf addr.toList cidr) = key then some peer else M.entryAt key := by
  obtain ⟨v, k⟩ := key
  simp only [PrefixTable.step, if_pos hc]
  rcases hkey with rfl | rfl
  · simp only [PrefixTable.entryAt, if_true, Prod.mk.injEq, true_and, Function.update_apply, eq_comm]
  · rw [if_neg (by simp)]
    rfl

theorem entryAt_insertV6 (hc : cidr ≤ 128) (hkey : IsFamily key.1) (addr : In6Addr) (peer : Q) :
    (M.step (.insertV6 addr cidr peer)).entryAt key =
      if (6, bitsOf addr.toList cidr) = key then some peer else M.entryAt key := by
  obtain ⟨v, k⟩ := key
  simp only [PrefixTable.step, if_pos hc]
  rcases hkey with rfl | rfl
  · rw [if_neg (by simp)]
    rfl
  · simp only [PrefixTable.entryAt, Prod.mk.injEq, true_and, Function.update_apply, eq_comm]
    rfl

/-- The removal of a peer clears its entries. -/
theorem entryAt_removePeer (peer : Q) :
    (M.step (.removePeer peer)).entryAt key =
      if M.entryAt key = some peer then none else M.entryAt key := by
  simp only [PrefixTable.entryAt, PrefixTable.step]
  by_cases hv : key.1 = 4
  · simp only [if_pos hv]
  · simp only [if_neg hv]

/-- The insertion that an entry leads to sets the entry at its key. -/
theorem entryAt_step_visitOp (hn : n.InFamily) (hkey : IsFamily key.1) (peer : Q) :
    (M.step (visitOp peer n)).entryAt key = if n.key = key then some peer else M.entryAt key := by
  obtain ⟨hv, hc⟩ := hn
  unfold visitOp Visit.key
  rcases hv with hv | hv <;> rw [hv] at hc
  · have hbits := bitsOf_ofFn_getD n.bits (show n.cidr ≤ 8 * 4 from hc)
    rw [if_pos hv, entryAt_insertV4 (show n.cidr ≤ 32 from hc) hkey, hbits, hv]
  · have hbits := bitsOf_ofFn_getD n.bits (show n.cidr ≤ 8 * 16 from hc)
    rw [if_neg (by omega), entryAt_insertV6 (show n.cidr ≤ 128 from hc) hkey, hbits, hv]

/-- Insertions that agree on a key set it. -/
theorem entryAt_run_visitOps {vs : List (Q × Visit P)} (hvs : ∀ v ∈ vs, v.2.InFamily)
    (hkey : IsFamily key.1) {peer : Q} (hsame : ∀ v ∈ vs, v.2.key = key → v.1 = peer) :
    (Machine.run PrefixTable.step M (vs.map fun v => visitOp v.1 v.2)).entryAt key =
      if ∃ v ∈ vs, v.2.key = key then some peer else M.entryAt key := by
  induction vs generalizing M with
  | nil => simp
  | cons v vs ih =>
    rw [List.map_cons, Machine.run_cons, ih (fun w hw => hvs w (List.mem_cons_of_mem _ hw))
      fun w hw => hsame w (List.mem_cons_of_mem _ hw),
      entryAt_step_visitOp (hvs v List.mem_cons_self) hkey]
    by_cases hrest : ∃ w ∈ vs, w.2.key = key
    · rw [if_pos hrest, if_pos (hrest.imp fun w hw => ⟨List.mem_cons_of_mem _ hw.1, hw.2⟩)]
    · rw [if_neg hrest]
      by_cases hv : v.2.key = key
      · rw [if_pos hv, if_pos ⟨v, List.mem_cons_self, hv⟩, hsame v List.mem_cons_self hv]
      · rw [if_neg hv, if_neg]
        rintro ⟨w, hw, hwkey⟩
        rcases List.mem_cons.1 hw with rfl | hw
        · exact hv hwkey
        · exact hrest ⟨w, hw, hwkey⟩

end Insertions

/-! ### Copies -/

theorem Represents.inFamily {t : Table P} {M : PrefixTable P} (h : Represents t M) :
    ∀ n ∈ allowedipsWalk t, n.InFamily := by
  intro n hn
  obtain ⟨hver, hcidr, -⟩ := h.walk_layout n hn
  exact ⟨hver, hcidr⟩

/-- The walk shows the entries of both families. -/
theorem Represents.entryAt_eq_some {t : Table P} {M : PrefixTable P} (h : Represents t M)
    {key : ℕ × List Bool} (hkey : IsFamily key.1) {peer : P} :
    M.entryAt key = some peer ↔ ∃ n ∈ allowedipsWalk t, n.key = key ∧ n.peer = peer := by
  obtain ⟨v, k⟩ := key
  have hentry : ∀ n : Visit P, n.entry = (k, peer) ↔ bitsOf n.bits n.cidr = k ∧ n.peer = peer :=
    fun n => Prod.mk.injEq _ _ _ _ ▸ Iff.rfl
  rcases hkey with rfl | rfl
  · rw [PrefixTable.entryAt, if_pos rfl, ← (h.mem_walk k peer).1]
    simp only [hentry, Visit.key, Prod.mk.injEq, and_assoc]
  · rw [PrefixTable.entryAt, if_neg (show ¬ 6 = 4 by decide), ← (h.mem_walk k peer).2]
    simp only [hentry, Visit.key, Prod.mk.injEq, and_assoc]

/-- The table has the prefix `key` for `peer`. -/
def Table.Routes (t : Table P) (key : ℕ × List Bool) (peer : P) : Prop :=
  ∃ n ∈ allowedipsWalk t, n.key = key ∧ n.peer = peer

theorem Represents.routes_iff {t : Table P} {M : PrefixTable P} (h : Represents t M)
    {key : ℕ × List Bool} {peer : P} :
    t.Routes key peer ↔ IsFamily key.1 ∧ M.entryAt key = some peer := by
  constructor
  · rintro ⟨n, hn, rfl, rfl⟩
    have hfamily : IsFamily n.key.1 := (h.inFamily n hn).1
    exact ⟨hfamily, (h.entryAt_eq_some hfamily).2 ⟨n, hn, rfl, rfl⟩⟩
  · rintro ⟨hfamily, hentry⟩
    exact (h.entryAt_eq_some hfamily).1 hentry

section Routes

variable [DecidableEq P] {t : Table P} {M : PrefixTable P} {key taken : ℕ × List Bool} {peer : P}

/-- A call that sets one entry. -/
theorem Represents.routes_insert (h : Represents t M) {op : Op P} (htaken : IsFamily taken.1)
    (hop : ∀ key, IsFamily key.1 →
      (M.step op).entryAt key = if taken = key then some peer else M.entryAt key) (q : P) :
    (t.step op).Routes key q ↔ if taken = key then q = peer else t.Routes key q := by
  rw [(h.step op).routes_iff]
  by_cases hkey : taken = key
  · subst hkey
    rw [if_pos rfl, hop taken htaken, if_pos rfl, Option.some_inj, eq_comm]
    exact and_iff_right htaken
  · rw [if_neg hkey, h.routes_iff]
    refine and_congr_right fun hfamily => ?_
    rw [hop key hfamily, if_neg hkey]

/-- The call that removes a peer. -/
theorem Represents.routes_removePeer (h : Represents t M) (q : P) :
    (t.step (.removePeer peer)).Routes key q ↔ t.Routes key q ∧ q ≠ peer := by
  rw [(h.step _).routes_iff, h.routes_iff, entryAt_removePeer, and_assoc]
  refine and_congr_right fun _ => ?_
  by_cases hkey : M.entryAt key = some peer
  · rw [if_pos hkey, hkey]
    simp [eq_comm]
  · rw [if_neg hkey]
    refine (and_iff_left_of_imp ?_).symm
    rintro hq rfl
    exact hkey hq

end Routes

/-- What `vs` lists are the entries of the table, each with the peer that takes the place of its
own. -/
structure CopyOf (R : P → Q → Prop) (t : Table P) (vs : List (Q × Visit P)) : Prop where
  entries : ∀ n, n ∈ allowedipsWalk t ↔ ∃ q, (q, n) ∈ vs
  peers : ∀ q n, (q, n) ∈ vs → R n.peer q
  unique : ∀ q q' n, (q, n) ∈ vs → (q', n) ∈ vs → q = q'

section Copies

variable [DecidableEq Q] {R : P → Q → Prop} {t : Table P} {M : PrefixTable P}
  {vs : List (Q × Visit P)}

theorem entryAt_copy (h : Represents t M) (hvs : CopyOf R t vs) {key : ℕ × List Bool}
    (hkey : IsFamily key.1) : Option.Rel R (M.entryAt key)
      ((PrefixTable.after (vs.map fun v => visitOp v.1 v.2)).entryAt key) := by
  have hlayout : ∀ v ∈ vs, v.2.InFamily := fun v hv =>
    h.inFamily v.2 ((hvs.entries v.2).2 ⟨v.1, hv⟩)
  -- a key stands in one entry only
  have hsingle : ∀ v ∈ vs, ∀ w ∈ vs, v.2.key = w.2.key → v.1 = w.1 := by
    intro v hv w hw heq
    have hn : v.2 = w.2 := List.inj_on_of_nodup_map h.nodup_walk
      ((hvs.entries v.2).2 ⟨v.1, hv⟩) ((hvs.entries w.2).2 ⟨w.1, hw⟩) heq
    exact hvs.unique v.1 w.1 v.2 hv (hn ▸ hw)
  by_cases hex : ∃ v ∈ vs, v.2.key = key
  · obtain ⟨v, hv, hvkey⟩ := hex
    have hold : M.entryAt key = some v.2.peer :=
      (h.entryAt_eq_some hkey).2 ⟨v.2, (hvs.entries v.2).2 ⟨v.1, hv⟩, hvkey, rfl⟩
    rw [hold, PrefixTable.after, entryAt_run_visitOps hlayout hkey
      fun w hw hwkey => hsingle w hw v hv (hwkey.trans hvkey.symm), if_pos ⟨v, hv, hvkey⟩]
    exact .some (hvs.peers v.1 v.2 hv)
  · have hold : M.entryAt key = none := by
      rw [Option.eq_none_iff_forall_ne_some]
      intro peer hpeer
      obtain ⟨n, hn, hnkey, -⟩ := (h.entryAt_eq_some hkey).1 hpeer
      obtain ⟨q, hq⟩ := (hvs.entries n).1 hn
      exact hex ⟨(q, n), hq, hnkey⟩
    have hnone : ∀ v ∈ vs, v.2.key ≠ key := fun v hv hvkey => hex ⟨v, hv, hvkey⟩
    have hnew : (PrefixTable.after (vs.map fun v => visitOp v.1 v.2)).entryAt key = none := by
      cases vs with
      | nil =>
        unfold PrefixTable.entryAt
        split_ifs <;> rfl
      | cons v vs =>
        rw [PrefixTable.after, @entryAt_run_visitOps _ _ _ _ _ (v :: vs) hlayout hkey v.1
          fun w hw hwkey => absurd hwkey (hnone w hw), if_neg hex]
        unfold PrefixTable.entryAt
        split_ifs <;> rfl
    rw [hold, hnew]
    exact .none

/-- **A copy has the routes of the table**: a lookup in it finds the peer that took the place of the
one that the table leads to. -/
theorem lookup_copy (h : Represents t M) (hvs : CopyOf R t vs) :
    (∀ addr, Option.Rel R (allowedipsLookupV4 t addr)
      (allowedipsLookupV4 (Table.after (vs.map fun v => visitOp v.1 v.2)) addr)) ∧
    ∀ addr, Option.Rel R (allowedipsLookupV6 t addr)
      (allowedipsLookupV6 (Table.after (vs.map fun v => visitOp v.1 v.2)) addr) := by
  have hafter := represents_after (vs.map fun v => visitOp v.1 v.2)
  constructor
  · intro addr
    rw [h.lookupV4, hafter.lookupV4]
    exact longestMatch_rel (fun k => @entryAt_copy _ _ _ _ _ _ _ h hvs (4, k) (Or.inl rfl)) _
  · intro addr
    rw [h.lookupV6, hafter.lookupV6]
    exact longestMatch_rel (fun k => @entryAt_copy _ _ _ _ _ _ _ h hvs (6, k) (Or.inr rfl)) _

end Copies

end Wgx.AllowedIps
