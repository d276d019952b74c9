import Mathlib.Data.Multiset.Filter
import Wgx.Noise.Indices

/-!
# Who owns the entries of the index table

An entry of the index table belongs to the handshake of a peer or to a keypair in one of the slots
of a peer.  `Owns t n es` says that the lookups of `t` are exactly the entries `es`, all under
different indices that are not zero, and that the keypairs they point to are all different and were
allocated below `n`.  The table is split between owners by splitting the multiset `es`: every
operation is specified on the entries of one peer, with the entries of the others as a frame.

* `Owns.delete`, `Owns.insert`, `Owns.swap`: the operations of the table;
* `Peer.entries`: the entries that belong to a peer;
* `Owns.rotateKeypairs`: the rotation of `noise_begin_session`.
-/

namespace Wgx

/-! ### Tables and entries -/

/-- The lookups of the table are exactly the entries `es`, and their keypairs are distinct records
allocated below `n`. -/
structure Owns (t : IndexTable) (n : ℕ) (es : Multiset IndexEntry) : Prop where
  sound : Sound t
  lookup : ∀ i e, indexTableLookup t i = some e ↔ e ∈ es ∧ e.index = i
  nonzero : ∀ e ∈ es, e.index ≠ 0
  distinct : (es.map IndexEntry.index).Nodup
  allocated : ∀ a ∈ es.filterMap IndexEntry.keypair, a < n
  unshared : (es.filterMap IndexEntry.keypair).Nodup

section Owns

variable {t : IndexTable} {n : ℕ} {es : Multiset IndexEntry} {e : IndexEntry}

theorem Owns.zero (h : Owns t n es) : indexTableLookup t 0 = none := by
  rw [Option.eq_none_iff_forall_ne_some]
  intro e he
  obtain ⟨hmem, hidx⟩ := (h.lookup 0 e).1 he
  exact h.nonzero e hmem hidx

theorem owns_empty (n : ℕ) : Owns (fun _ => none) n 0 where
  sound := by simp [Sound]
  lookup := by simp [indexTableLookup]
  nonzero := by simp
  distinct := by simp
  allocated := by simp
  unshared := by simp

theorem Owns.mono {m : ℕ} (h : Owns t n es) (hle : n ≤ m) : Owns t m es :=
  { h with allocated := fun a ha => (h.allocated a ha).trans_le hle }

/-- The index of an owned entry belongs to no other. -/
theorem Owns.index_ne (h : Owns t n (e ::ₘ es)) {a : IndexEntry} (ha : a ∈ es) :
    a.index ≠ e.index := by
  intro heq
  have hdistinct := h.distinct
  rw [Multiset.map_cons, Multiset.nodup_cons] at hdistinct
  exact hdistinct.1 (heq ▸ Multiset.mem_map_of_mem _ ha)

theorem Owns.delete (h : Owns t n (e ::ₘ es)) : Owns (indexTableDelete t e.index) n es where
  sound := sound_delete h.sound
  lookup := by
    intro i a
    rw [indexTableLookup_delete h.zero]
    split_ifs with hi
    · simp only [false_iff, not_and]
      rintro ha rfl
      exact h.index_ne ha hi
    · rw [h.lookup, Multiset.mem_cons]
      constructor
      · rintro ⟨rfl | ha, rfl⟩
        · exact absurd rfl hi
        · exact ⟨ha, rfl⟩
      · rintro ⟨ha, rfl⟩
        exact ⟨Or.inr ha, rfl⟩
  nonzero := fun a ha => h.nonzero a (Multiset.mem_cons_of_mem ha)
  distinct := by
    have := h.distinct
    rw [Multiset.map_cons, Multiset.nodup_cons] at this
    exact this.2
  allocated := by
    intro a ha
    apply h.allocated a
    exact Multiset.mem_of_le (Multiset.filterMap_le_filterMap _ (Multiset.le_cons_self es e)) ha
  unshared := Multiset.nodup_of_le
    (Multiset.filterMap_le_filterMap _ (Multiset.le_cons_self es e)) h.unshared

/-- A new entry of a handshake in a free slot. -/
theorem Owns.insert (h : Owns t n es) (he : e.index ≠ 0) (hkp : e.keypair = none)
    (hfree : t (indexSlot e.index) = none) :
    Owns (Function.update t (indexSlot e.index) (some e)) n (e ::ₘ es) := by
  have hnew : ∀ a ∈ es, a.index ≠ e.index := by
    intro a ha heq
    have hlook := (h.lookup a.index a).2 ⟨ha, rfl⟩
    rw [heq, indexTableLookup, hfree] at hlook
    cases hlook
  refine ⟨sound_update h.sound rfl, ?_, ?_, ?_, ?_, ?_⟩
  · intro i a
    rw [indexTableLookup_insert rfl hfree, Multiset.mem_cons]
    split_ifs with hi
    · constructor
      · rintro ⟨⟩
        exact ⟨Or.inl rfl, hi.symm⟩
      · rintro ⟨rfl | ha, hidx⟩
        · rfl
        · exact absurd (hidx.trans hi) (hnew a ha)
    · rw [h.lookup]
      constructor
      · rintro ⟨ha, rfl⟩
        exact ⟨Or.inr ha, rfl⟩
      · rintro ⟨rfl | ha, rfl⟩
        · exact absurd rfl hi
        · exact ⟨ha, rfl⟩
  · intro a ha
    rcases Multiset.mem_cons.1 ha with rfl | ha
    · exact he
    · exact h.nonzero a ha
  · rw [Multiset.map_cons, Multiset.nodup_cons]
    refine ⟨?_, h.distinct⟩
    rintro hmem
    obtain ⟨a, ha, heq⟩ := Multiset.mem_map.1 hmem
    exact hnew a ha heq
  · rw [Multiset.filterMap_cons_none _ _ hkp]
    exact h.allocated
  · rw [Multiset.filterMap_cons_none _ _ hkp]
    exact h.unshared

/-- The entry of a handshake becomes the one of the keypair that is allocated next. -/
theorem Owns.swap (h : Owns t n (e ::ₘ es)) (hkp : e.keypair = none) {kp : Keypair}
    (haddr : kp.addr = n) :
    Owns (indexTableSwapKeypair t e.index kp).1 (n + 1)
      ({ e with type := .keypair, keypair := some kp.addr } ::ₘ es) := by
  have hlook : indexTableLookup t e.index = some e :=
    (h.lookup _ _).2 ⟨Multiset.mem_cons_self e es, rfl⟩
  have hne : e.index ≠ 0 := h.nonzero e (Multiset.mem_cons_self e es)
  have halloc := h.allocated
  have hunshared := h.unshared
  rw [Multiset.filterMap_cons_none _ _ hkp] at halloc hunshared
  refine ⟨sound_swap h.sound kp, ?_, ?_, ?_, ?_, ?_⟩
  · intro i a
    rw [indexTableLookup_swap hne hlook, Multiset.mem_cons]
    split_ifs with hi
    · constructor
      · rintro ⟨⟩
        exact ⟨Or.inl rfl, hi.symm⟩
      · rintro ⟨rfl | ha, hidx⟩
        · rfl
        · exact absurd (hidx.trans hi) (h.index_ne ha)
    · rw [h.lookup, Multiset.mem_cons]
      constructor
      · rintro ⟨rfl | ha, rfl⟩
        · exact absurd rfl hi
        · exact ⟨Or.inr ha, rfl⟩
      · rintro ⟨rfl | ha, rfl⟩
        · exact absurd rfl hi
        · exact ⟨Or.inr ha, rfl⟩
  · intro a ha
    rcases Multiset.mem_cons.1 ha with rfl | ha
    · exact hne
    · exact h.nonzero a (Multiset.mem_cons_of_mem ha)
  · have := h.distinct
    rwa [Multiset.map_cons] at this ⊢
  · rw [Multiset.filterMap_cons_some IndexEntry.keypair _ _ rfl]
    intro a ha
    rcases Multiset.mem_cons.1 ha with rfl | ha
    · omega
    · exact (halloc a ha).trans (Nat.lt_succ_self n)
  · rw [Multiset.filterMap_cons_some IndexEntry.keypair _ _ rfl, Multiset.nodup_cons]
    exact ⟨fun hmem => absurd (halloc _ hmem) (by omega), hunshared⟩

/-- If no index can be picked, every slot is occupied. -/
theorem occupied_of_pick_zero {draw : ℕ → BitVec 32} (h : pickRandomIndex t draw = 0) {s : ℕ}
    (hs : s < indexTableSize) : t s ≠ none :=
  fun hnone => (pickRandomIndex_spec draw ⟨s, hs, hnone⟩).1 h

theorem pickFree_occupied (random : BitVec 32) {slot k : ℕ}
    (h : ∀ s, slot ≤ s → s < slot + k → t s ≠ none) : pickFree t random slot k = 0 := by
  induction k generalizing slot with
  | zero => rfl
  | succ k ih =>
    have hslot : (t slot).isSome := Option.isSome_iff_ne_none.2 (h slot le_rfl (by omega))
    rw [pickFree, if_pos hslot]
    exact ih fun s h1 h2 => h s (by omega) (by omega)

/-- **An allocation never overwrites a live entry**: the slot of an index that is picked is free. -/
theorem free_of_pick {draw : ℕ → BitVec 32} (h : pickRandomIndex t draw ≠ 0) :
    t (indexSlot (pickRandomIndex t draw)) = none := by
  by_cases hfree : ∃ s < indexTableSize, t s = none
  · exact (pickRandomIndex_spec draw hfree).2
  · push Not at hfree
    unfold pickRandomIndex at h ⊢
    cases hp : pickRandom t draw 0 4096 with
    | some idx => exact (pickRandom_some hp).2
    | none =>
      rw [hp] at h
      exact absurd (pickFree_occupied _ fun s _ hs => hfree s (by omega)) h

end Owns

/-! ### The entries of a peer -/

/-- The entry of a handshake of the peer at `a`, if it has an index. -/
def handshakeEntries (a : ℕ) (idx : BitVec 32) : Multiset IndexEntry :=
  if idx = 0 then 0 else {⟨.handshake, idx, a, some a, none⟩}

/-- The entry of a keypair of the peer at `a`. -/
def keypairEntry (a : ℕ) (kp : Keypair) : IndexEntry :=
  ⟨.keypair, kp.localIndex, a, some a, some kp.addr⟩

/-- The entry of a keypair in a slot, if there is one. -/
def slotEntries (a : ℕ) : Option Keypair → Multiset IndexEntry
  | none => 0
  | some kp => {keypairEntry a kp}

/-- The entries that belong to a peer. -/
def Peer.entries (peer : Peer) : Multiset IndexEntry :=
  handshakeEntries peer.addr peer.handshake.localIndex + slotEntries peer.addr peer.currentKeypair +
    slotEntries peer.addr peer.nextKeypair + slotEntries peer.addr peer.prevKeypair

theorem mem_handshakeEntries {a : ℕ} {idx : BitVec 32} {e : IndexEntry} :
    e ∈ handshakeEntries a idx ↔ idx ≠ 0 ∧ e = ⟨.handshake, idx, a, some a, none⟩ := by
  unfold handshakeEntries
  split_ifs with h
  · simp [h]
  · simp only [Multiset.mem_singleton, ne_eq, h, not_false_eq_true, true_and]

theorem mem_slotEntries {a : ℕ} {kp : Option Keypair} {e : IndexEntry} :
    e ∈ slotEntries a kp ↔ ∃ k, kp = some k ∧ e = keypairEntry a k := by
  cases kp <;> simp [slotEntries]

theorem mem_entries {peer : Peer} {e : IndexEntry} :
    e ∈ peer.entries ↔
      (peer.handshake.localIndex ≠ 0 ∧
        e = ⟨.handshake, peer.handshake.localIndex, peer.addr, some peer.addr, none⟩) ∨
      ∃ kp ∈ peer.keypairs, e = keypairEntry peer.addr kp := by
  simp only [Peer.entries, Multiset.mem_add, mem_handshakeEntries, mem_slotEntries, mem_keypairs]
  grind

section Entries

variable {t : IndexTable} {n a : ℕ} {es : Multiset IndexEntry} {idx : BitVec 32}

theorem Owns.deleteHandshake (h : Owns t n (handshakeEntries a idx + es)) :
    Owns (indexTableDelete t idx) n es := by
  unfold handshakeEntries at h
  split_ifs at h with h0
  · rw [indexTableDelete, if_pos h0]
    rwa [zero_add] at h
  · rw [Multiset.singleton_add] at h
    exact h.delete

theorem Owns.deleteKeypair {kp : Option Keypair} (h : Owns t n (slotEntries a kp + es)) :
    Owns (indexTableDeleteKeypair t kp) n es := by
  cases kp with
  | none => rwa [slotEntries, zero_add] at h
  | some kp =>
    rw [slotEntries, Multiset.singleton_add] at h
    exact h.delete

theorem Owns.newForHandshake (h : Owns t n es) (a : ℕ) (draw : ℕ → BitVec 32) :
    Owns (indexTableNewForHandshake t a draw).1 n
      (handshakeEntries a (indexTableNewForHandshake t a draw).2 + es) := by
  unfold indexTableNewForHandshake
  by_cases h0 : pickRandomIndex t draw = 0
  · simpa [h0, handshakeEntries] using h
  · simp only [ne_eq, h0, not_false_eq_true, if_true, handshakeEntries, if_false,
      Multiset.singleton_add]
    exact Owns.insert h (e := ⟨.handshake, _, a, some a, none⟩) h0 rfl (free_of_pick h0)

theorem indexTableNewForHandshake_snd (t : IndexTable) (a : ℕ) (draw : ℕ → BitVec 32) :
    (indexTableNewForHandshake t a draw).2 = pickRandomIndex t draw := by
  unfold indexTableNewForHandshake
  exact apply_ite Prod.snd _ _ _ |>.trans (ite_self _)

/-- Where the index of a handshake is to be replaced and none can be picked, there was none before
and the table stays as it is. -/
theorem Owns.newForHandshake_failed (h : Owns t n (handshakeEntries a idx + es))
    {draw : ℕ → BitVec 32}
    (hzero : (indexTableNewForHandshake (indexTableDelete t idx) a draw).2 = 0) :
    (indexTableNewForHandshake (indexTableDelete t idx) a draw).1 = t := by
  rw [indexTableNewForHandshake_snd] at hzero
  have hidx : idx = 0 := by
    -- deleting a live index would have freed its slot
    by_contra h0
    have hlook : indexTableLookup t idx = some ⟨.handshake, idx, a, some a, none⟩ := by
      apply (h.lookup _ _).2
      exact ⟨Multiset.mem_add.2 (Or.inl (mem_handshakeEntries.2 ⟨h0, rfl⟩)), rfl⟩
    have hslot : indexSlot idx < indexTableSize := by
      rw [indexSlot_eq]
      exact Nat.mod_lt _ (by decide)
    apply occupied_of_pick_zero hzero hslot
    rw [indexTableDelete, if_neg h0, hlook]
    simp
  rw [indexTableNewForHandshake, hzero, indexTableDelete, if_pos hidx]
  simp

/-- The rotation of a session start deletes the entries of the keypairs that leave the slots. -/
theorem Owns.rotateKeypairs {peer : Peer} {kp : Keypair}
    (h : Owns t n (slotEntries peer.addr (some kp) + slotEntries peer.addr peer.currentKeypair +
      slotEntries peer.addr peer.nextKeypair + slotEntries peer.addr peer.prevKeypair + es)) :
    Owns (rotateKeypairs t peer kp).1 n
      (slotEntries peer.addr (rotateKeypairs t peer kp).2.currentKeypair +
        slotEntries peer.addr (rotateKeypairs t peer kp).2.nextKeypair +
        slotEntries peer.addr (rotateKeypairs t peer kp).2.prevKeypair + es) := by
  unfold Wgx.rotateKeypairs
  split_ifs with hrole
  · cases hnext : peer.nextKeypair with
    | none =>
      rw [hnext] at h
      simp only
      apply Owns.deleteKeypair (a := peer.addr)
      convert h using 1
      simp only [slotEntries]
      abel
    | some next =>
      rw [hnext] at h
      simp only
      apply Owns.deleteKeypair (a := peer.addr)
      apply Owns.deleteKeypair (a := peer.addr)
      convert h using 1
      simp only [slotEntries]
      abel
  · simp only
    apply Owns.deleteKeypair (a := peer.addr)
    apply Owns.deleteKeypair (a := peer.addr)
    convert h using 1
    simp only [slotEntries]
    abel

end Entries

end Wgx
