import Wgx.Noise.Agreement
import Wgx.Device.Transport

/-!
# The index table of a device with one peer

The table is hashed by the low bits of an index, so what it means is what `index_table_lookup`
returns.  The first section says how each operation changes the lookups.  `Indexed t peer` is the
invariant of a device with the single peer `peer`: an entry that can be looked up belongs to the
peer's handshake or to a keypair in one of its three slots.  The table then always has room, and a
message that finds a handshake finds the one under way.
-/

namespace Wgx

/-! ### Lookups -/

/-- Every entry is in the slot of its index. -/
def Sound (t : IndexTable) : Prop := ∀ s e, t s = some e → s = indexSlot e.index

section Lookup

variable {t : IndexTable} {idx i : BitVec 32}

theorem indexTableLookup_eq_some {e : IndexEntry} :
    indexTableLookup t i = some e ↔ t (indexSlot i) = some e ∧ e.index = i := by
  unfold indexTableLookup
  cases t (indexSlot i) with
  | none => simp
  | some a =>
    simp only [Option.filter_some, decide_eq_true_eq, Option.ite_none_right_eq_some,
      Option.some.injEq]
    constructor
    · rintro ⟨h, rfl⟩; exact ⟨rfl, h⟩
    · rintro ⟨rfl, h⟩; exact ⟨h, rfl⟩

/-- A slot that holds another index, or nothing, gives nothing. -/
theorem indexTableLookup_update_of_ne {e : Option IndexEntry}
    (he : ∀ a, e = some a → a.index = idx) (hi : i ≠ idx)
    (hold : ∀ a, t (indexSlot idx) = some a → a.index = idx) :
    indexTableLookup (Function.update t (indexSlot idx) e) i = indexTableLookup t i := by
  by_cases hslot : indexSlot i = indexSlot idx
  · have hnew : indexTableLookup (Function.update t (indexSlot idx) e) i = none := by
      rw [Option.eq_none_iff_forall_ne_some]
      intro a ha
      obtain ⟨h1, h2⟩ := indexTableLookup_eq_some.1 ha
      rw [hslot, Function.update_self] at h1
      exact hi (h2.symm.trans (he a h1))
    have hwas : indexTableLookup t i = none := by
      rw [Option.eq_none_iff_forall_ne_some]
      intro a ha
      obtain ⟨h1, h2⟩ := indexTableLookup_eq_some.1 ha
      rw [hslot] at h1
      exact hi (h2.symm.trans (hold a h1))
    rw [hnew, hwas]
  · rw [indexTableLookup, indexTableLookup, Function.update_of_ne hslot]

theorem indexTableLookup_delete (h0 : indexTableLookup t 0 = none) :
    indexTableLookup (indexTableDelete t idx) i =
      if i = idx then none else indexTableLookup t i := by
  unfold indexTableDelete
  split_ifs with hz hi hsome hi hi
  · rw [hi, hz, h0]
  · rfl
  · rw [hi, Option.eq_none_iff_forall_ne_some]
    intro a ha
    have := (indexTableLookup_eq_some.1 ha).1
    rw [Function.update_self] at this
    cases this
  · obtain ⟨a, ha⟩ := Option.isSome_iff_exists.1 hsome
    apply indexTableLookup_update_of_ne (by simp) hi
    intro b hb
    obtain ⟨h1, h2⟩ := indexTableLookup_eq_some.1 ha
    rw [h1] at hb
    cases hb
    exact h2
  · rw [hi]
    simpa using hsome
  · rfl

theorem indexTableLookup_insert {e : IndexEntry} (he : e.index = idx)
    (hfree : t (indexSlot idx) = none) :
    indexTableLookup (Function.update t (indexSlot idx) (some e)) i =
      if i = idx then some e else indexTableLookup t i := by
  split_ifs with hi
  · rw [hi, indexTableLookup_update t he]
  · apply indexTableLookup_update_of_ne _ hi
    · intro a ha
      rw [hfree] at ha
      cases ha
    · intro a ha
      cases ha
      exact he

/-- Swapping turns the entry of a live index into one of the keypair. -/
theorem indexTableLookup_swap {e : IndexEntry} {kp : Keypair} (h0 : idx ≠ 0)
    (he : indexTableLookup t idx = some e) :
    indexTableLookup (indexTableSwapKeypair t idx kp).1 i =
      if i = idx then some { e with type := .keypair, keypair := some kp.addr }
      else indexTableLookup t i := by
  obtain ⟨hslot, hidx⟩ := indexTableLookup_eq_some.1 he
  rw [indexTableSwapKeypair, if_neg h0, he]
  simp only
  split_ifs with hi
  · rw [hi, indexTableLookup_update t (by exact hidx)]
  · apply indexTableLookup_update_of_ne _ hi
    · intro a ha
      rw [hslot] at ha
      cases ha
      exact hidx
    · intro a ha
      cases ha
      exact hidx

theorem sound_update (h : Sound t) {e : IndexEntry} (he : e.index = idx) :
    Sound (Function.update t (indexSlot idx) (some e)) := by
  intro s a ha
  by_cases hs : s = indexSlot idx
  · rw [hs, Function.update_self] at ha
    cases ha
    rw [hs, he]
  · rw [Function.update_of_ne hs] at ha
    exact h s a ha

theorem sound_delete (h : Sound t) : Sound (indexTableDelete t idx) := by
  unfold indexTableDelete
  split_ifs
  · exact h
  · intro s a ha
    by_cases hs : s = indexSlot idx
    · rw [hs, Function.update_self] at ha
      cases ha
    · rw [Function.update_of_ne hs] at ha
      exact h s a ha
  · exact h

theorem sound_swap (h : Sound t) (kp : Keypair) : Sound (indexTableSwapKeypair t idx kp).1 := by
  unfold indexTableSwapKeypair
  split_ifs
  · exact h
  · cases he : indexTableLookup t idx with
    | none => exact h
    | some e => exact sound_update h (indexTableLookup_eq_some.1 he).2

/-- A table with few live indices has a free slot. -/
theorem exists_free_slot (h : Sound t) {live : List (BitVec 32)}
    (hlive : ∀ i e, indexTableLookup t i = some e → i ∈ live) (hlen : live.length < indexTableSize) :
    ∃ s < indexTableSize, t s = none := by
  by_contra hfull
  push Not at hfull
  -- the slot of a live index determines it, so the slots inject into the live indices
  have hsub : List.range indexTableSize ⊆ live.map indexSlot := by
    intro s hs
    obtain ⟨e, he⟩ := Option.ne_none_iff_exists'.1 (hfull s (List.mem_range.1 hs))
    have hslot := h s e he
    refine List.mem_map.2 ⟨e.index, hlive e.index e ?_, hslot.symm⟩
    exact indexTableLookup_eq_some.2 ⟨hslot ▸ he, rfl⟩
  have hle := (List.subperm_of_subset List.nodup_range hsub).length_le
  simp only [List.length_range, List.length_map] at hle
  omega

end Lookup

/-! ### The live indices -/

/-- The live indices of handshakes satisfy `P` and those of keypairs `Q`. -/
structure Within (t : IndexTable) (P Q : BitVec 32 → Prop) : Prop where
  sound : Sound t
  zero : indexTableLookup t 0 = none
  live : ∀ i e, indexTableLookup t i = some e → e.type = .handshake ∧ P i ∨ e.type = .keypair ∧ Q i

section Within

variable {t : IndexTable} {P P' Q Q' : BitVec 32 → Prop}

theorem Within.mono (h : Within t P Q) (hP : ∀ i, P i → P' i) (hQ : ∀ i, Q i → Q' i) :
    Within t P' Q' := by
  refine ⟨h.sound, h.zero, ?_⟩
  intro i e he
  exact (h.live i e he).imp (And.imp_right (hP i)) (And.imp_right (hQ i))

theorem Within.delete (h : Within t P Q) (idx : BitVec 32) :
    Within (indexTableDelete t idx) (fun i => P i ∧ i ≠ idx) (fun i => Q i ∧ i ≠ idx) := by
  refine ⟨sound_delete h.sound, ?_, ?_⟩
  · rw [indexTableLookup_delete h.zero, h.zero, ite_self]
  · intro i e he
    rw [indexTableLookup_delete h.zero] at he
    split_ifs at he with hi
    exact (h.live i e he).imp (And.imp_right fun hp => ⟨hp, hi⟩) (And.imp_right fun hq => ⟨hq, hi⟩)

theorem Within.deleteKeypair (h : Within t P Q) (kp : Option Keypair) :
    Within (indexTableDeleteKeypair t kp) P
      (fun i => Q i ∧ ∀ k, kp = some k → i ≠ k.localIndex) := by
  cases kp with
  | none => exact h.mono (fun i hp => hp) (fun i hq => ⟨hq, by simp⟩)
  | some k =>
    refine (h.delete k.localIndex).mono (fun i hp => hp.1) (fun i hq => ⟨hq.1, ?_⟩)
    rintro k' ⟨⟩
    exact hq.2

/-- A new handshake in a free slot. -/
theorem Within.insert (h : Within t P Q) {e : IndexEntry} {idx : BitVec 32} (he : e.index = idx)
    (htype : e.type = .handshake) (hidx : idx ≠ 0) (hfree : t (indexSlot idx) = none) :
    Within (Function.update t (indexSlot idx) (some e)) (fun i => P i ∨ i = idx) Q := by
  refine ⟨sound_update h.sound he, ?_, ?_⟩
  · rw [indexTableLookup_insert he hfree, if_neg hidx.symm, h.zero]
  · intro i a ha
    rw [indexTableLookup_insert he hfree] at ha
    split_ifs at ha with hi
    · cases ha
      exact Or.inl ⟨htype, Or.inr hi⟩
    · exact (h.live i a ha).imp_left (And.imp_right Or.inl)

/-- Whether or not the index is live, no handshake has it after the swap. -/
theorem Within.swap (h : Within t P Q) (idx : BitVec 32) (kp : Keypair) :
    Within (indexTableSwapKeypair t idx kp).1 (fun i => P i ∧ i ≠ idx) (fun i => Q i ∨ i = idx) := by
  have hkeep : ∀ i e, indexTableLookup t i = some e → i ≠ idx →
      e.type = .handshake ∧ P i ∧ i ≠ idx ∨ e.type = .keypair ∧ (Q i ∨ i = idx) := by
    intro i e he hi
    exact (h.live i e he).imp (And.imp_right fun hp => ⟨hp, hi⟩) (And.imp_right Or.inl)
  cases hlook : indexTableLookup t idx with
  | none =>
    have hsame : (indexTableSwapKeypair t idx kp).1 = t := by
      unfold indexTableSwapKeypair
      rw [hlook]
      exact apply_ite Prod.fst _ _ _ |>.trans (ite_self _)
    rw [hsame]
    refine ⟨h.sound, h.zero, fun i e he => hkeep i e he ?_⟩
    rintro rfl
    rw [hlook] at he
    cases he
  | some a =>
    have hidx : idx ≠ 0 := by
      rintro rfl
      rw [h.zero] at hlook
      cases hlook
    refine ⟨sound_swap h.sound kp, ?_, ?_⟩
    · rw [indexTableLookup_swap hidx hlook, if_neg hidx.symm, h.zero]
    · intro i e he
      rw [indexTableLookup_swap hidx hlook] at he
      split_ifs at he with hi
      · cases he
        exact Or.inr ⟨rfl, Or.inr hi⟩
      · exact hkeep i e he hi

end Within

theorem mem_keypairs {peer : Peer} {kp : Keypair} :
    kp ∈ peer.keypairs ↔ peer.currentKeypair = some kp ∨ peer.nextKeypair = some kp ∨
      peer.prevKeypair = some kp := by
  simp [Peer.keypairs]

theorem length_keypairs_le (peer : Peer) : peer.keypairs.length ≤ 3 := by
  have h : ∀ o : Option Keypair, o.toList.length ≤ 1 := by
    intro o
    cases o <;> simp
  have h1 := h peer.currentKeypair
  have h2 := h peer.nextKeypair
  have h3 := h peer.prevKeypair
  simp only [Peer.keypairs, List.length_append]
  omega

/-- The index of a keypair in one of the slots. -/
def Peer.slotIndex (peer : Peer) (i : BitVec 32) : Prop := ∃ kp ∈ peer.keypairs, kp.localIndex = i

/-- Every live index is the one of the peer's handshake or of a keypair in one of its slots. -/
def Indexed (t : IndexTable) (peer : Peer) : Prop :=
  Within t (fun i => i = peer.handshake.localIndex) peer.slotIndex

section Indexed

variable {t : IndexTable} {peer : Peer}

theorem Indexed.free (h : Indexed t peer) : ∃ s < indexTableSize, t s = none := by
  have hlive : ∀ i e, indexTableLookup t i = some e →
      i ∈ peer.handshake.localIndex :: peer.keypairs.map Keypair.localIndex := by
    intro i e he
    rcases h.live i e he with ⟨-, hi⟩ | ⟨-, kp, hkp, hi⟩
    · exact hi ▸ List.mem_cons_self
    · exact List.mem_cons_of_mem _ (List.mem_map.2 ⟨kp, hkp, hi⟩)
  apply exists_free_slot h.sound hlive
  have hlen := length_keypairs_le peer
  simp only [List.length_cons, List.length_map, indexTableSize]
  omega

/-- The new index of a handshake takes the place of the old one. -/
theorem Indexed.newTable {x : Ctx} (env : Env) (h : Indexed x.dev.indexTable x.peer) :
    Within (x.newTable env) (fun i => i = x.newIndex env) x.peer.slotIndex := by
  obtain ⟨hne, hslot⟩ := pickRandomIndex_spec (env.draw x.draws).index
    (indexTableDelete_free x.peer.handshake.localIndex h.free)
  refine ((h.delete _).insert (e := ⟨.handshake, x.newIndex env, x.peer.addr, some x.peer.addr, none⟩)
    rfl rfl hne hslot).mono ?_ ?_
  · rintro i (hi | hi)
    · exact absurd hi.1 hi.2
    · exact hi
  · exact fun i hi => hi.1

theorem Within.rotateKeypairs {kp : Keypair}
    (h : Within t (fun _ => False) (fun i => peer.slotIndex i ∨ i = kp.localIndex)) :
    Within (rotateKeypairs t peer kp).1 (fun _ => False) (rotateKeypairs t peer kp).2.slotIndex := by
  have hslot : ∀ {p : Peer} {k : Keypair}, k ∈ p.keypairs → p.slotIndex k.localIndex :=
    fun hk => ⟨_, hk, rfl⟩
  unfold Wgx.rotateKeypairs
  split_ifs with hrole
  · -- an initiator: the keypair that leaves is the previous one, and the current one if there is
    -- a next one
    cases hnext : peer.nextKeypair with
    | none =>
      refine (h.deleteKeypair _).mono (fun i hi => hi) ?_
      rintro i ⟨⟨k, hk, rfl⟩ | rfl, hne⟩
      · rcases mem_keypairs.1 hk with hk | hk | hk
        · exact hslot (mem_keypairs.2 (Or.inr (Or.inr hk)))
        · rw [hnext] at hk; cases hk
        · exact absurd rfl (hne k hk)
      · exact hslot (mem_keypairs.2 (Or.inl rfl))
    | some next =>
      refine ((h.deleteKeypair _).deleteKeypair _).mono (fun i hi => hi) ?_
      rintro i ⟨⟨⟨k, hk, rfl⟩ | rfl, hne⟩, hne'⟩
      · rcases mem_keypairs.1 hk with hk | hk | hk
        · exact absurd rfl (hne k hk)
        · rw [hnext] at hk
          exact hslot (mem_keypairs.2 (Or.inr (Or.inr hk)))
        · exact absurd rfl (hne' k hk)
      · exact hslot (mem_keypairs.2 (Or.inl rfl))
  · refine ((h.deleteKeypair _).deleteKeypair _).mono (fun i hi => hi) ?_
    rintro i ⟨⟨⟨k, hk, rfl⟩ | rfl, hne⟩, hne'⟩
    · rcases mem_keypairs.1 hk with hk | hk | hk
      · exact hslot (mem_keypairs.2 (Or.inl hk))
      · exact absurd rfl (hne k hk)
      · exact absurd rfl (hne' k hk)
    · exact hslot (mem_keypairs.2 (Or.inr (Or.inl rfl)))

/-- A session start turns the index of the handshake into the one of a keypair. -/
theorem Indexed.rotated {c : Crypto} {env : Env} {x : Ctx}
    (h : Indexed x.dev.indexTable x.peer) : Indexed (x.rotated c env).1 (x.rotated c env).2 := by
  have hswap := h.swap x.peer.handshake.localIndex (x.session c env)
  refine (Within.rotateKeypairs (hswap.mono ?_ ?_)).mono (fun i hi => hi.elim) (fun i hi => hi)
  · exact fun i hi => absurd hi.1 hi.2
  · exact fun i hi => hi

/-- The promotion of the next keypair drops the previous one. -/
theorem Indexed.promoteNext {x : Ctx} (h : Indexed x.dev.indexTable x.peer) (addr : ℕ) :
    Indexed (promoteNext x addr).dev.indexTable (promoteNext x addr).peer := by
  unfold Wgx.promoteNext
  cases hnext : x.peer.nextKeypair with
  | none => exact h
  | some next =>
    simp only
    split_ifs
    · refine (h.deleteKeypair x.peer.prevKeypair).mono (fun i hi => hi) ?_
      rintro i ⟨⟨k, hk, rfl⟩, hne⟩
      rcases mem_keypairs.1 hk with hk | hk | hk
      · exact ⟨k, mem_keypairs.2 (Or.inr (Or.inr hk)), rfl⟩
      · rw [hnext] at hk
        exact ⟨k, mem_keypairs.2 (Or.inl hk), rfl⟩
      · exact absurd rfl (hne k hk)
    · exact h

end Indexed

end Wgx
