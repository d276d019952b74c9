import Wgx.Apple.Noise
import Wgx.Lib.Run
import Wgx.Noise.Agreement

/-!
# The indices of the Apple copy

Index 0 means "no index" to `index_table_delete` and `index_table_swap_keypair`, but the allocator
may return it.

* `Exact`: the table holds what the peers own, no more and no less;
* `Holding`, `Strong`: the invariant while an operation works on a peer, and between operations;
* `Faithful`: what the users of the table rely on;
* `apple_indices_faithful`: a run keeps the table faithful exactly if it never picks index 0.
-/

namespace Wgx.Apple

/-! ### Slots -/

section Slots

variable {i j : BitVec 32}

theorem toNat_masked (i : BitVec 32) : (masked i).toNat = i.toNat % 65536 := by
  rw [masked, BitVec.toNat_and]
  exact Nat.and_two_pow_sub_one_eq_mod i.toNat 16

theorem toNat_slot (i : BitVec 32) : (slot i).toNat = i.toNat % 65536 := BitVec.toNat_setWidth 16 i

theorem masked_eq_iff : masked i = i ↔ i.toNat < 65536 := by
  rw [← BitVec.toNat_inj, toNat_masked]
  omega

@[simp] theorem masked_masked (i : BitVec 32) : masked (masked i) = masked i := by
  rw [masked_eq_iff, toNat_masked]
  omega

@[simp] theorem slot_masked (i : BitVec 32) : slot (masked i) = slot i := by
  rw [← BitVec.toNat_inj, toNat_slot, toNat_slot, toNat_masked]
  omega

theorem masked_eq_zero_iff : masked i = 0 ↔ slot i = 0 := by
  rw [← BitVec.toNat_inj, ← BitVec.toNat_inj, toNat_masked, toNat_slot]
  rfl

theorem masked_zero : masked 0 = 0 := rfl

theorem slot_zero : slot 0 = 0 := rfl

theorem slot_inj (hi : masked i = i) (hj : masked j = j) (h : slot i = slot j) : i = j := by
  rw [← BitVec.toNat_inj, toNat_slot, toNat_slot] at h
  rw [masked_eq_iff] at hi hj
  rw [← BitVec.toNat_inj]
  omega

end Slots

/-! ### Who owns which index -/

/-- The entry of a handshake. -/
def hsEntry (p : ℕ) : IndexEntry := ⟨.handshake, p, some p, none⟩

/-- The entry of a keypair; it took the place of a handshake. -/
def kpEntry (p addr : ℕ) : IndexEntry := ⟨.keypair, p, some p, some addr⟩

/-- The entries of a peer whose handshake has the index `li` and which holds the keypairs `kps`. -/
def Holds (p : ℕ) (li : BitVec 32) (kps : List Keypair) (j : BitVec 32) (e : IndexEntry) : Prop :=
  (li = j ∧ j ≠ 0 ∧ e = hsEntry p) ∨ ∃ kp ∈ kps, kp.localIndex = j ∧ e = kpEntry p kp.addr

/-- The entries of a peer of the device. -/
def Owns (peers : ℕ → Option Peer) (p : ℕ) (j : BitVec 32) (e : IndexEntry) : Prop :=
  ∃ q, peers p = some q ∧ Holds p q.handshake.localIndex q.keypairs j e

/-- The entries of the peers, but those of the peer at `p` as given. -/
def Claims (peers : ℕ → Option Peer) (p : ℕ) (li : BitVec 32) (kps : List Keypair) (p' : ℕ)
    (j : BitVec 32) (e : IndexEntry) : Prop :=
  if p' = p then Holds p li kps j e else Owns peers p' j e

/-- The table holds what is claimed, and its history agrees. -/
structure Exact (t : IndexTable) (calls : List IndexCall)
    (C : ℕ → BitVec 32 → IndexEntry → Prop) : Prop where
  zero : t 0 = none
  owned : ∀ p j e, C p j e ↔ masked j = j ∧ t (slot j) = some e ∧ e.peer = p
  live : ∀ j, outstanding calls j = true ↔ masked j = j ∧ (t (slot j)).isSome

section Exact

variable {t : IndexTable} {calls : List IndexCall} {C C' : ℕ → BitVec 32 → IndexEntry → Prop}
  {i j : BitVec 32} {e e' : IndexEntry} {p p' : ℕ}

theorem outstanding_new : outstanding (calls ++ [.new i]) j =
    if i = j then true else outstanding calls j := by
  rw [outstanding, List.foldl_append]
  rfl

theorem outstanding_delete : outstanding (calls ++ [.delete i]) j =
    if i = j then false else outstanding calls j := by
  rw [outstanding, List.foldl_append]
  rfl

theorem Exact.congr (h : Exact t calls C) (hC : ∀ p j e, C' p j e ↔ C p j e) :
    Exact t calls C' :=
  ⟨h.zero, fun p j e => (hC p j e).trans (h.owned p j e), h.live⟩

theorem Exact.ne_zero (h : Exact t calls C) (hC : C p j e) : j ≠ 0 := by
  rintro rfl
  obtain ⟨-, hslot, -⟩ := (h.owned _ _ _).1 hC
  exact absurd (h.zero.symm.trans hslot) nofun

theorem Exact.unique (h : Exact t calls C) (hC : C p j e) (hC' : C p' j e') : p = p' ∧ e = e' := by
  obtain ⟨-, hslot, hpeer⟩ := (h.owned _ _ _).1 hC
  obtain ⟨-, hslot', hpeer'⟩ := (h.owned _ _ _).1 hC'
  obtain rfl : e = e' := Option.some.inj (hslot.symm.trans hslot')
  exact ⟨hpeer.symm.trans hpeer', rfl⟩

theorem Exact.delete (h : Exact t calls C) (hi : masked i = i) :
    Exact (indexTableDelete t i) (calls ++ [.delete i]) fun p j e => C p j e ∧ j ≠ i := by
  by_cases h0 : i = 0
  · rw [indexTableDelete, if_pos h0]
    refine ⟨h.zero, fun p j e => ?_, fun j => ?_⟩
    · rw [h0, ← h.owned]
      exact ⟨And.left, fun hC => ⟨hC, h.ne_zero hC⟩⟩
    · rw [outstanding_delete, h0, ← h.live]
      split_ifs with hj
      · refine iff_of_false nofun fun hlive => ?_
        rw [h.live, ← hj, show slot 0 = 0 from rfl, h.zero] at hlive
        exact absurd hlive.2 nofun
      · rfl
  · rw [indexTableDelete, if_neg h0]
    have hother : ∀ j, masked j = j → j ≠ i → slot j ≠ slot i := fun j hj hne heq =>
      hne (slot_inj hj hi heq)
    refine ⟨?_, fun p j e => ?_, fun j => ?_⟩
    · by_cases hz : slot i = 0
      · rw [hz, Function.update_self]
      · rw [Function.update_of_ne (Ne.symm hz)]
        exact h.zero
    · rw [h.owned]
      by_cases hj : j = i
      · rw [hj, Function.update_self]
        exact iff_of_false (fun hno => hno.2 rfl) (fun hno => absurd hno.2.1 nofun)
      · constructor
        · rintro ⟨⟨hmask, hslot⟩, -⟩
          rw [Function.update_of_ne (hother j hmask hj)]
          exact ⟨hmask, hslot⟩
        · rintro ⟨hmask, hslot⟩
          rw [Function.update_of_ne (hother j hmask hj)] at hslot
          exact ⟨⟨hmask, hslot⟩, hj⟩
    · rw [outstanding_delete]
      split_ifs with hj
      · rw [← hj, Function.update_self]
        exact iff_of_false nofun (fun hno => absurd hno.2 nofun)
      · rw [h.live]
        refine and_congr_right fun hmask => ?_
        rw [Function.update_of_ne (hother j hmask (Ne.symm hj))]

theorem Exact.write (h : Exact t calls C) (hi : masked i = i) (h0 : i ≠ 0) (e : IndexEntry) :
    Function.update t (slot i) (some e) 0 = none ∧ ∀ p j e',
      (masked j = j ∧ Function.update t (slot i) (some e) (slot j) = some e' ∧ e'.peer = p) ↔
        C p j e' ∧ j ≠ i ∨ (p = e.peer ∧ j = i ∧ e' = e) := by
  have hother : ∀ j, masked j = j → j ≠ i → slot j ≠ slot i := fun j hj hne heq =>
    hne (slot_inj hj hi heq)
  refine ⟨?_, fun p j e' => ?_⟩
  · have hne : (0 : BitVec 16) ≠ slot i := fun hz => h0 (slot_inj hi masked_zero hz.symm)
    rw [Function.update_of_ne hne]
    exact h.zero
  · by_cases hj : j = i
    · rw [hj, Function.update_self]
      constructor
      · rintro ⟨-, heq, hpeer⟩
        obtain rfl := Option.some.inj heq
        exact Or.inr ⟨hpeer.symm, rfl, rfl⟩
      · rintro (hno | ⟨rfl, -, rfl⟩)
        · exact absurd rfl hno.2
        · exact ⟨hi, rfl, rfl⟩
    · rw [h.owned]
      constructor
      · rintro ⟨hmask, hslot, hpeer⟩
        rw [Function.update_of_ne (hother j hmask hj)] at hslot
        exact Or.inl ⟨⟨hmask, hslot, hpeer⟩, hj⟩
      · rintro (⟨⟨hmask, hslot, hpeer⟩, -⟩ | ⟨-, hno, -⟩)
        · rw [Function.update_of_ne (hother j hmask hj)]
          exact ⟨hmask, hslot, hpeer⟩
        · exact absurd hno hj

/-- A new index: a word of the generator whose slot is free. -/
theorem pick_spec {words : List (BitVec 32)} (hpick : pickRandomIndex t words = some i) :
    masked i = i ∧ t (slot i) = none := by
  induction words with
  | nil => cases hpick
  | cons word words ih =>
    rw [pickRandomIndex] at hpick
    split_ifs at hpick with hbusy
    · exact ih hpick
    · obtain rfl := Option.some.inj hpick
      exact ⟨masked_masked word, by simpa using hbusy⟩

/-- What is picked is the first word whose slot is free. -/
theorem pickRandomIndex_eq (t : IndexTable) (words : List (BitVec 32)) :
    pickRandomIndex t words = (words.find? fun word => (t (slot word)).isNone).map masked := by
  induction words with
  | nil => rfl
  | cons word words ih =>
    rw [pickRandomIndex, List.find?_cons, ih]
    cases t (slot word) <;> rfl

theorem Exact.new (h : Exact t calls C) (hi : masked i = i) (h0 : i ≠ 0) (hfree : t (slot i) = none)
    (e : IndexEntry) :
    Exact (Function.update t (slot i) (some e)) (calls ++ [.new i])
      fun p j e' => C p j e' ∨ (p = e.peer ∧ j = i ∧ e' = e) := by
  obtain ⟨hzero, howned⟩ := h.write hi h0 e
  refine ⟨hzero, fun p j e' => ?_, fun j => ?_⟩
  · rw [howned]
    refine or_congr_left ⟨fun hC => ⟨hC, ?_⟩, And.left⟩
    rintro rfl
    exact absurd (hfree.symm.trans ((h.owned _ _ _).1 hC).2.1) nofun
  · rw [outstanding_new]
    split_ifs with hj
    · rw [← hj, Function.update_self]
      exact iff_of_true rfl ⟨hi, rfl⟩
    · rw [h.live]
      refine and_congr_right fun hmask => ?_
      rw [Function.update_of_ne fun heq => hj (slot_inj hi hmask heq.symm)]

theorem Exact.swap (h : Exact t calls C) (hi : masked i = i) (h0 : i ≠ 0)
    (hbusy : (t (slot i)).isSome) (e : IndexEntry) :
    Exact (Function.update t (slot i) (some e)) calls
      fun p j e' => C p j e' ∧ j ≠ i ∨ (p = e.peer ∧ j = i ∧ e' = e) := by
  obtain ⟨hzero, howned⟩ := h.write hi h0 e
  refine ⟨hzero, fun p j e' => (howned p j e').symm, fun j => ?_⟩
  rw [h.live]
  refine and_congr_right fun hmask => ?_
  by_cases hj : j = i
  · rw [hj, Function.update_self]
    exact iff_of_true hbusy rfl
  · rw [Function.update_of_ne fun heq => hj (slot_inj hmask hi heq)]

/-! ### The operations of one peer -/

variable {peers : ℕ → Option Peer} {li : BitVec 32} {kps kps' : List Keypair} {q : Peer}

theorem owns_eq_claims (hq : peers p = some q) :
    Owns peers = Claims peers p q.handshake.localIndex q.keypairs := by
  funext p' j e
  rw [Claims]
  split_ifs with hp
  · rw [hp, Owns, hq]
    exact propext ⟨fun ⟨_, heq, h⟩ => Option.some.inj heq ▸ h, fun h => ⟨q, rfl, h⟩⟩
  · rfl

theorem owns_update (q' : Peer) : Owns (Function.update peers p (some q')) =
    Claims peers p q'.handshake.localIndex q'.keypairs := by
  rw [owns_eq_claims (Function.update_self p (some q') peers)]
  funext p' j e
  rw [Claims, Claims]
  split_ifs with hp
  · rfl
  · rw [Owns, Function.update_of_ne hp, Owns]

theorem owns_remove : Owns (Function.update peers p none) = Claims peers p 0 [] := by
  funext p' j e
  rw [Claims]
  split_ifs with hp
  · rw [hp, Owns, Function.update_self]
    refine propext (iff_of_false (fun hno => absurd hno.choose_spec.1 nofun) ?_)
    rintro (⟨rfl, h0, -⟩ | ⟨kp, hkp, -⟩)
    · exact h0 rfl
    · cases hkp
  · rw [Owns, Function.update_of_ne hp, Owns]

theorem claims_handshake (h0 : li ≠ 0) : Claims peers p li kps p li (hsEntry p) := by
  rw [Claims, if_pos rfl]
  exact Or.inl ⟨rfl, h0, rfl⟩

theorem claims_keypair {kp : Keypair} (hkp : kp ∈ kps) :
    Claims peers p li kps p kp.localIndex (kpEntry p kp.addr) := by
  rw [Claims, if_pos rfl]
  exact Or.inr ⟨kp, hkp, rfl, rfl⟩

/-- A keypair and the handshake of its peer do not share an index. -/
theorem Exact.keypair_ne_handshake (h : Exact t calls (Claims peers p li kps)) {kp : Keypair}
    (hkp : kp ∈ kps) (h0 : li ≠ 0) : kp.localIndex ≠ li := by
  intro heq
  have hkpC : Claims peers p li kps p kp.localIndex (kpEntry p kp.addr) := claims_keypair hkp
  rw [heq] at hkpC
  have hentry := (h.unique hkpC (claims_handshake h0)).2
  cases hentry

/-- The index of a handshake needs no masking. -/
theorem Exact.masked_handshake (h : Exact t calls (Claims peers p li kps)) : masked li = li := by
  by_cases h0 : li = 0
  · rw [h0]
    rfl
  · exact ((h.owned _ _ _).1 (claims_handshake h0)).1

/-- A peer gives the index of its handshake back. -/
theorem Exact.dropHandshake (h : Exact t calls (Claims peers p li kps)) :
    Exact (indexTableDelete t li) (calls ++ [.delete li]) (Claims peers p 0 kps) := by
  refine (h.delete h.masked_handshake).congr fun p' j e => ?_
  have hli : ∀ p' j e, Claims peers p li kps p' j e → j = li → e = hsEntry p ∧ p' = p := by
    rintro p' j e hC rfl
    obtain ⟨hp, he⟩ := h.unique hC (claims_handshake (h.ne_zero hC))
    exact ⟨he, hp⟩
  by_cases hp : p' = p
  · have hself := hli p j e
    rw [hp]
    simp only [Claims, if_true] at hself ⊢
    constructor
    · rintro (⟨rfl, h0, -⟩ | hkp)
      · exact absurd rfl h0
      · refine ⟨Or.inr hkp, fun hj => ?_⟩
        have he := (hself (Or.inr hkp) hj).1
        obtain ⟨kp, -, -, rfl⟩ := hkp
        cases he
    · rintro ⟨⟨hj, -⟩ | hkp, hne⟩
      · exact absurd hj.symm hne
      · exact Or.inr hkp
  · have hother := hli p' j e
    simp only [Claims, if_neg hp] at hother ⊢
    exact ⟨fun hC => ⟨hC, fun hj => hp (hother hC hj).2⟩, And.left⟩

/-- A handshake without an index gets a new one. -/
theorem Exact.newHandshake (h : Exact t calls (Claims peers p 0 kps)) (hi : masked i = i)
    (h0 : i ≠ 0) (hfree : t (slot i) = none) :
    Exact (Function.update t (slot i) (some (hsEntry p))) (calls ++ [.new i])
      (Claims peers p i kps) := by
  refine (h.new hi h0 hfree (hsEntry p)).congr fun p' j e => ?_
  by_cases hp : p' = p
  · rw [hp]
    simp only [Claims, if_true]
    constructor
    · rintro (⟨rfl, -, rfl⟩ | hkp)
      · exact Or.inr ⟨rfl, rfl, rfl⟩
      · exact Or.inl (Or.inr hkp)
    · rintro ((⟨rfl, hno, -⟩ | hkp) | ⟨-, rfl, rfl⟩)
      · exact absurd rfl hno
      · exact Or.inr hkp
      · exact Or.inl ⟨rfl, h0, rfl⟩
  · simp only [Claims, if_neg hp]
    exact ⟨Or.inl, fun hC => hC.resolve_right fun hno => hp hno.1⟩

/-- The index of a handshake passes to a keypair. -/
theorem Exact.swapKeypair (h : Exact t calls (Claims peers p li kps)) (h0 : li ≠ 0)
    (kp : Keypair) : ∃ t' kp', indexTableSwapKeypair t li kp = (t', kp') ∧
      kp' = { kp with localIndex := li } ∧ Exact t' calls (Claims peers p 0 (kp' :: kps)) := by
  obtain ⟨hmask, hslot, -⟩ := (h.owned _ _ _).1 (claims_handshake h0)
  refine ⟨Function.update t (slot li) (some (kpEntry p kp.addr)), { kp with localIndex := li }, ?_,
    rfl, ?_⟩
  · rw [indexTableSwapKeypair, if_neg h0, hslot]
    simp only [hmask]
    rfl
  have hbusy : (t (slot li)).isSome := by
    rw [hslot]
    rfl
  refine (h.swap hmask h0 hbusy (kpEntry p kp.addr)).congr fun p' j e => ?_
  by_cases hp : p' = p
  · rw [hp]
    simp only [Claims, if_true]
    constructor
    · rintro (⟨rfl, hno, -⟩ | ⟨kp', hkp', rfl, rfl⟩)
      · exact absurd rfl hno
      · rcases List.mem_cons.1 hkp' with rfl | hkp'
        · exact Or.inr ⟨rfl, rfl, rfl⟩
        · exact Or.inl ⟨Or.inr ⟨kp', hkp', rfl, rfl⟩, h.keypair_ne_handshake hkp' h0⟩
    · rintro (⟨⟨rfl, -, -⟩ | ⟨kp', hkp', rfl, rfl⟩, hne⟩ | ⟨-, rfl, rfl⟩)
      · exact absurd rfl hne
      · exact Or.inr ⟨kp', List.mem_cons_of_mem _ hkp', rfl, rfl⟩
      · exact Or.inr ⟨_, List.mem_cons_self, rfl, rfl⟩
  · simp only [Claims, if_neg hp]
    constructor
    · intro hC
      refine Or.inl ⟨hC, ?_⟩
      rintro rfl
      have hother : Claims peers p j kps p' j e := by
        rw [Claims, if_neg hp]
        exact hC
      exact hp (h.unique hother (claims_handshake h0)).1
    · exact fun hC => (hC.resolve_right fun hno => hp hno.1).1

/-- A peer gives the index of a keypair back. -/
theorem Exact.dropKeypair {kp : Keypair} (h : Exact t calls (Claims peers p li (kp :: kps)))
    (hnew : kp.addr ∉ kps.map Keypair.addr) :
    Exact (indexTableDelete t kp.localIndex) (calls ++ [.delete kp.localIndex])
      (Claims peers p li kps) := by
  have hhead := @claims_keypair p peers li (kp :: kps) kp List.mem_cons_self
  refine (h.delete ((h.owned _ _ _).1 hhead).1).congr fun p' j e => ?_
  by_cases hp : p' = p
  · rw [hp]
    simp only [Claims, if_true]
    constructor
    · rintro (⟨rfl, h0, rfl⟩ | ⟨kp', hkp', rfl, rfl⟩)
      · refine ⟨Or.inl ⟨rfl, h0, rfl⟩, fun heq => ?_⟩
        exact h.keypair_ne_handshake List.mem_cons_self h0 heq.symm
      · have hmem := List.mem_cons_of_mem kp hkp'
        refine ⟨Or.inr ⟨kp', hmem, rfl, rfl⟩, fun heq => ?_⟩
        have hentry := (h.unique (heq ▸ claims_keypair hmem) hhead).2
        have haddr : kp'.addr = kp.addr := Option.some.inj (congrArg IndexEntry.keypair hentry)
        exact hnew (haddr ▸ List.mem_map_of_mem hkp')
    · rintro ⟨hhs | ⟨kp', hkp', rfl, rfl⟩, hne⟩
      · exact Or.inl hhs
      · rcases List.mem_cons.1 hkp' with rfl | hkp'
        · exact absurd rfl hne
        · exact Or.inr ⟨kp', hkp', rfl, rfl⟩
  · simp only [Claims, if_neg hp]
    refine ⟨fun hC => ⟨hC, ?_⟩, And.left⟩
    rintro rfl
    have hother : Claims peers p li (kp :: kps) p' kp.localIndex e := by
      rw [Claims, if_neg hp]
      exact hC
    exact hp (h.unique hother hhead).1

theorem claims_perm (hperm : kps.Perm kps') : Claims peers p li kps = Claims peers p li kps' := by
  funext p' j e
  simp only [Claims, Holds, hperm.mem_iff]

end Exact

/-! ### The invariant of a device -/

/-- The device is working on the peer at `p`, whose handshake has the index `li` and which holds the
keypairs `kps`. -/
structure Holding (d : Device) (p : ℕ) (li : BitVec 32) (kps : List Keypair) : Prop where
  exact : Exact d.indexTable d.calls (Claims d.peers p li kps)
  nodup : (kps.map Keypair.addr).Nodup

/-- A handshake under way has an index. -/
def Ready (hs : Handshake) : Prop :=
  hs.state = .zeroed ∨ hs.state = .initiationConsumed ∨ hs.localIndex ≠ 0

/-- The table holds what the peers own, and the peers and keypairs have addresses of their own. -/
structure Strong (d : Device) : Prop where
  exact : Exact d.indexTable d.calls (Owns d.peers)
  ready : ∀ p q, d.peers p = some q → Ready q.handshake
  nodup : ∀ p q, d.peers p = some q → (q.keypairs.map Keypair.addr).Nodup
  bound : ∀ p q, d.peers p = some q → ∀ kp ∈ q.keypairs, kp.addr < d.nextAddr
  fresh : ∀ p, d.nextAddr ≤ p → d.peers p = none

section Invariant

variable {c : Crypto} {env : Env} {d d' : Device} {p : ℕ} {q q' : Peer} {li i : BitVec 32}
  {kps kps' : List Keypair}

theorem Strong.holding (h : Strong d) (hq : d.peers p = some q) :
    Holding d p q.handshake.localIndex q.keypairs :=
  ⟨owns_eq_claims hq ▸ h.exact, h.nodup p q hq⟩

theorem Holding.perm (h : Holding d p li kps) (hperm : kps.Perm kps') : Holding d p li kps' :=
  ⟨claims_perm hperm ▸ h.exact, (hperm.map _).nodup_iff.1 h.nodup⟩

theorem Holding.deleteIndex (h : Holding d p li kps) : Holding (d.deleteIndex li) p 0 kps :=
  ⟨h.exact.dropHandshake, h.nodup⟩

theorem Holding.deleteKeypair {kp : Option Keypair} (h : Holding d p li (kp.toList ++ kps)) :
    Holding (d.deleteKeypair kp) p li kps := by
  cases kp with
  | none => exact h
  | some kp =>
    have hnodup := List.nodup_cons.1 h.nodup
    exact ⟨h.exact.dropKeypair hnodup.1, hnodup.2⟩

theorem deleteKeypair_frame (kp : Option Keypair) :
    (d.deleteKeypair kp).peers = d.peers ∧ (d.deleteKeypair kp).nextAddr = d.nextAddr := by
  cases kp <;> exact ⟨rfl, rfl⟩

theorem lt_nextAddr (h : Strong d) (hq : d.peers p = some q) : p < d.nextAddr := by
  by_contra hge
  rw [h.fresh p (Nat.le_of_not_lt hge)] at hq
  cases hq

/-- The peer is written back with what it holds. -/
theorem Strong.store (h : Strong d) (hq : d.peers p = some q)
    (hhold : Holding d' p q'.handshake.localIndex q'.keypairs) (hpeers : d'.peers = d.peers)
    (hnext : d.nextAddr ≤ d'.nextAddr) (hready : Ready q'.handshake)
    (hbound : ∀ kp ∈ q'.keypairs, kp.addr < d'.nextAddr) : Strong (d'.store p q') := by
  have hcases : ∀ p₁ q₁, (d'.store p q').peers p₁ = some q₁ →
      p₁ = p ∧ q₁ = q' ∨ d.peers p₁ = some q₁ := by
    intro p₁ q₁ h₁
    have h₁' : Function.update d'.peers p (some q') p₁ = some q₁ := h₁
    by_cases hp : p₁ = p
    · rw [hp, Function.update_self] at h₁'
      exact Or.inl ⟨hp, (Option.some.inj h₁').symm⟩
    · rw [Function.update_of_ne hp, hpeers] at h₁'
      exact Or.inr h₁'
  refine ⟨?_, ?_, ?_, ?_, ?_⟩
  · show Exact d'.indexTable d'.calls (Owns (Function.update d'.peers p (some q')))
    rw [owns_update]
    exact hhold.exact
  · intro p₁ q₁ h₁
    rcases hcases p₁ q₁ h₁ with ⟨-, rfl⟩ | hold
    · exact hready
    · exact h.ready p₁ q₁ hold
  · intro p₁ q₁ h₁
    rcases hcases p₁ q₁ h₁ with ⟨-, rfl⟩ | hold
    · exact hhold.nodup
    · exact h.nodup p₁ q₁ hold
  · intro p₁ q₁ h₁ kp hkp
    rcases hcases p₁ q₁ h₁ with ⟨-, rfl⟩ | hold
    · exact hbound kp hkp
    · exact (h.bound p₁ q₁ hold kp hkp).trans_le hnext
  · intro p₁ hp₁
    have hge : d.nextAddr ≤ p₁ := hnext.trans hp₁
    have hne : p₁ ≠ p := fun heq => by
      have := lt_nextAddr h hq
      omega
    show Function.update d'.peers p (some q') p₁ = none
    rw [Function.update_of_ne hne, hpeers]
    exact h.fresh p₁ hge

/-- Changes that concern neither the index nor the keypairs of a peer. -/
theorem Strong.storeSame (h : Strong d) (hq : d.peers p = some q)
    (hindex : q'.handshake.localIndex = q.handshake.localIndex) (hkps : q'.keypairs = q.keypairs)
    (hready : Ready q'.handshake) : Strong (d.store p q') := by
  refine h.store hq ?_ rfl le_rfl hready ?_
  · rw [hindex, hkps]
    exact h.holding hq
  · rw [hkps]
    exact h.bound p q hq

/-- A handshake gives its index back and gets a new one. -/
theorem renewIndex_spec (h : Strong d) (hq : d.peers p = some q) {words : List (BitVec 32)}
    (hnew : d.renewIndex p q words = some (d', i)) :
    masked i = i ∧ d'.peers = d.peers ∧ d'.nextAddr = d.nextAddr ∧
      (d'.indexTable (slot i)).isSome ∧ (i ≠ 0 → Holding d' p i q.keypairs) := by
  have hhold := (h.holding hq).deleteIndex
  obtain ⟨⟨t, j⟩, htable, heq⟩ := Option.map_eq_some_iff.1 hnew
  obtain ⟨k, hpick, hkj⟩ := Option.map_eq_some_iff.1 htable
  obtain ⟨rfl, rfl⟩ := Prod.mk.inj heq
  obtain ⟨rfl, rfl⟩ := Prod.mk.inj hkj
  obtain ⟨hmask, hfree⟩ := pick_spec hpick
  refine ⟨hmask, rfl, rfl, ?_, fun h0 => ⟨hhold.exact.newHandshake hmask h0 hfree, hhold.nodup⟩⟩
  have hself : Function.update (indexTableDelete d.indexTable q.handshake.localIndex) (slot k)
      (some (hsEntry p)) (slot k) = some (hsEntry p) := Function.update_self ..
  exact Option.isSome_iff_exists.2 ⟨_, hself⟩

theorem strong_addPeer (h : Strong d) (fresh : Peer) : Strong (deviceAddPeer d fresh) := by
  have hnone := h.fresh d.nextAddr le_rfl
  have hcases : ∀ p₁ q₁, (deviceAddPeer d fresh).peers p₁ = some q₁ →
      q₁.handshake.state = .zeroed ∧ q₁.keypairs = [] ∨ d.peers p₁ = some q₁ := by
    intro p₁ q₁ h₁
    have h₁' : Function.update d.peers d.nextAddr (some { fresh with
      handshake := noiseHandshakeInit fresh.handshake.remoteStatic fresh.handshake.psk
      currentKeypair := none, nextKeypair := none, prevKeypair := none }) p₁ = some q₁ := h₁
    by_cases hp : p₁ = d.nextAddr
    · rw [hp, Function.update_self] at h₁'
      rw [← Option.some.inj h₁']
      exact Or.inl ⟨rfl, rfl⟩
    · rw [Function.update_of_ne hp] at h₁'
      exact Or.inr h₁'
  refine ⟨?_, ?_, ?_, ?_, ?_⟩
  · show Exact d.indexTable d.calls (Owns (Function.update d.peers d.nextAddr (some _)))
    rw [owns_update]
    have hsame : Owns d.peers = Claims d.peers d.nextAddr 0 [] := by
      rw [← owns_remove, ← hnone, Function.update_eq_self]
    exact hsame ▸ h.exact
  · intro p₁ q₁ h₁
    rcases hcases p₁ q₁ h₁ with ⟨hst, -⟩ | hold
    · exact Or.inl hst
    · exact h.ready p₁ q₁ hold
  · intro p₁ q₁ h₁
    rcases hcases p₁ q₁ h₁ with ⟨-, hkps⟩ | hold
    · rw [hkps]
      exact List.nodup_nil
    · exact h.nodup p₁ q₁ hold
  · intro p₁ q₁ h₁ kp hkp
    rcases hcases p₁ q₁ h₁ with ⟨-, hkps⟩ | hold
    · rw [hkps] at hkp
      cases hkp
    · exact Nat.lt_succ_of_lt (h.bound p₁ q₁ hold kp hkp)
  · intro p₁ hp₁
    have hge : d.nextAddr + 1 ≤ p₁ := hp₁
    have hne : p₁ ≠ d.nextAddr := by omega
    show Function.update d.peers d.nextAddr (some _) p₁ = none
    rw [Function.update_of_ne hne]
    exact h.fresh p₁ (by omega)

/-- The index that an operation picks. -/
def picks (d : Device) (e : Env × HandshakeOp) : Option (BitVec 32) :=
  match e.2 with
  | .createInitiation p _ ok words =>
    (d.peers p).bind fun peer => if ok then (d.renewIndex p peer words).map Prod.snd else none
  | .createResponse p _ _ words =>
    (d.peers p).bind fun peer =>
      if peer.handshake.state = .initiationConsumed then (d.renewIndex p peer words).map Prod.snd
      else none
  | _ => none

/-- The random words that an operation has at hand, and the table in which it looks for a free slot:
the handshake has given its old index back. -/
def draws (d : Device) (e : Env × HandshakeOp) : Option (IndexTable × List (BitVec 32)) :=
  match e.2 with
  | .createInitiation p _ ok words =>
    (d.peers p).bind fun peer =>
      if ok then some (indexTableDelete d.indexTable peer.handshake.localIndex, words) else none
  | .createResponse p _ _ words =>
    (d.peers p).bind fun peer =>
      if peer.handshake.state = .initiationConsumed then
        some (indexTableDelete d.indexTable peer.handshake.localIndex, words)
      else none
  | _ => none

/-- The first random word whose slot is free does not end in 16 zero bits. -/
def DrawsNonzero (d : Device) (e : Env × HandshakeOp) : Prop :=
  ∀ t words, draws d e = some (t, words) →
    ∀ word, (words.find? fun word => (t (slot word)).isNone) = some word → slot word ≠ 0

theorem renewIndex_snd (words : List (BitVec 32)) :
    (d.renewIndex p q words).map Prod.snd =
      pickRandomIndex (indexTableDelete d.indexTable q.handshake.localIndex) words := by
  simp only [Device.renewIndex, Device.newIndex, indexTableNewForHandshake, Device.deleteIndex,
    Option.map_map]
  exact Option.map_id'

theorem picks_eq (d : Device) (e : Env × HandshakeOp) :
    picks d e = (draws d e).bind fun r => pickRandomIndex r.1 r.2 := by
  obtain ⟨env, e⟩ := e
  cases e with
  | createInitiation p secrets ok words =>
    simp only [picks, draws, renewIndex_snd, Option.bind_assoc]
    congr 1
    funext peer
    split_ifs <;> rfl
  | createResponse p secrets ok words =>
    simp only [picks, draws, renewIndex_snd, Option.bind_assoc]
    congr 1
    funext peer
    split_ifs <;> rfl
  | _ => rfl

theorem drawsNonzero_iff (d : Device) (e : Env × HandshakeOp) :
    DrawsNonzero d e ↔ picks d e ≠ some 0 := by
  rw [picks_eq, DrawsNonzero]
  simp only [pickRandomIndex_eq]
  cases draws d e with
  | none => simp
  | some r =>
    obtain ⟨t, words⟩ := r
    cases hfind : words.find? fun word => (t (slot word)).isNone with
    | none => simp [hfind]
    | some word => simpa [hfind] using (@masked_eq_zero_iff word).not.symm

theorem strong_createInitiation (h : Strong d) (hq : d.peers p = some q) (secrets : Secrets)
    (ok : Bool) (words : List (BitVec 32))
    (hpick : picks d (env, .createInitiation p secrets ok words) ≠ some 0) :
    Strong (noiseCreateInitiation p q d secrets ok words) := by
  unfold noiseCreateInitiation
  cases ok with
  | false => exact h.storeSame hq rfl rfl (h.ready p q hq)
  | true =>
    simp only [picks, hq, Option.bind_some, if_true] at hpick
    simp only [Bool.not_true, Bool.false_eq_true, if_false]
    cases hnew : d.renewIndex p q words with
    | none => exact h
    | some r =>
      obtain ⟨d', i⟩ := r
      rw [hnew] at hpick
      have h0 : i ≠ 0 := fun heq => hpick (congrArg some heq)
      obtain ⟨-, hpeers, hnext, -, hhold⟩ := renewIndex_spec h hq hnew
      refine h.store hq (hhold h0) hpeers hnext.ge (Or.inr (Or.inr h0)) fun kp hkp => ?_
      rw [hnext]
      exact h.bound p q hq kp hkp

theorem strong_createResponse (h : Strong d) (hq : d.peers p = some q) (secrets : Secrets)
    (ok : Bool) (words : List (BitVec 32))
    (hpick : picks d (env, .createResponse p secrets ok words) ≠ some 0) :
    Strong (noiseCreateResponse p q d secrets ok words) := by
  unfold noiseCreateResponse
  by_cases hst : q.handshake.state = .initiationConsumed
  · simp only [picks, hq, Option.bind_some, if_pos hst] at hpick
    rw [if_neg (not_not.2 hst)]
    cases hnew : d.renewIndex p q words with
    | none => exact h
    | some r =>
      obtain ⟨d', i⟩ := r
      rw [hnew] at hpick
      have h0 : i ≠ 0 := fun heq => hpick (congrArg some heq)
      obtain ⟨-, hpeers, hnext, -, hhold⟩ := renewIndex_spec h hq hnew
      have hbound : ∀ kp ∈ q.keypairs, kp.addr < d'.nextAddr := fun kp hkp => by
        rw [hnext]
        exact h.bound p q hq kp hkp
      cases ok with
      | true => exact h.store hq (hhold h0) hpeers hnext.ge (Or.inr (Or.inr h0)) hbound
      | false => exact h.store hq (hhold h0) hpeers hnext.ge (Or.inr (Or.inr h0)) hbound
  · rw [if_pos hst]
    exact h

theorem strong_consumeResponse (h : Strong d) (receiver sender : BitVec 32) (secrets : Secrets)
    (ok : Bool) : Strong (noiseConsumeResponse d receiver sender secrets ok) := by
  unfold noiseConsumeResponse
  cases indexTableLookup d.indexTable receiver with
  | none => exact h
  | some entry =>
    simp only
    split_ifs
    · exact h
    cases entry.handshake with
    | none => exact h
    | some p =>
      simp only
      cases hq : d.peers p with
      | none => exact h
      | some q =>
        simp only
        split_ifs with hst
        · exact h
        · push Not at hst
          refine h.storeSame hq rfl rfl (Or.inr (Or.inr ?_))
          rcases h.ready p q hq with hno | hno | hindex
          · exact absurd (hst.1.symm.trans hno) nofun
          · exact absurd (hst.1.symm.trans hno) nofun
          · exact hindex

theorem Holding.freeKeypairs (h : Holding d p li q.keypairs) :
    Holding (freeKeypairs q d) p li [] := by
  have hall : Holding d p li (q.currentKeypair.toList ++ (q.nextKeypair.toList ++
      (q.prevKeypair.toList ++ []))) := by
    rwa [List.append_nil, ← List.append_assoc]
  exact hall.deleteKeypair.deleteKeypair.deleteKeypair

theorem freeKeypairs_frame (q : Peer) :
    (freeKeypairs q d).peers = d.peers ∧ (freeKeypairs q d).nextAddr = d.nextAddr := by
  unfold freeKeypairs
  simp only [deleteKeypair_frame, and_self]

theorem strong_zeroKeyMaterial (h : Strong d) (hq : d.peers p = some q) :
    Strong (cbZeroKeyMaterial p q d) :=
  h.store hq (h.holding hq).freeKeypairs.deleteIndex (freeKeypairs_frame q).1
    (freeKeypairs_frame q).2.ge (Or.inl rfl) nofun

theorem strong_teardown (h : Strong d) (hq : d.peers p = some q) :
    Strong (peerTeardown p q d) := by
  have hhold := (h.holding hq).freeKeypairs.deleteIndex
  obtain ⟨hpeers, hnext⟩ := @freeKeypairs_frame d q
  have hold : ∀ p₁ q₁, (peerTeardown p q d).peers p₁ = some q₁ → d.peers p₁ = some q₁ := by
    intro p₁ q₁ h₁
    have h₁' : Function.update (freeKeypairs q d).peers p none p₁ = some q₁ := h₁
    by_cases hp : p₁ = p
    · rw [hp, Function.update_self] at h₁'
      cases h₁'
    · rwa [Function.update_of_ne hp, hpeers] at h₁'
  refine ⟨?_, fun p₁ q₁ h₁ => h.ready p₁ q₁ (hold p₁ q₁ h₁),
    fun p₁ q₁ h₁ => h.nodup p₁ q₁ (hold p₁ q₁ h₁), fun p₁ q₁ h₁ kp hkp => ?_, fun p₁ hp₁ => ?_⟩
  · show Exact _ _ (Owns (Function.update (freeKeypairs q d).peers p none))
    rw [owns_remove]
    exact hhold.exact
  · show kp.addr < (freeKeypairs q d).nextAddr
    rw [hnext]
    exact h.bound p₁ q₁ (hold p₁ q₁ h₁) kp hkp
  · have hge : d.nextAddr ≤ p₁ := hnext.ge.trans hp₁
    cases hsome : (peerTeardown p q d).peers p₁ with
    | none => rfl
    | some q₁ => exact absurd ((h.fresh p₁ hge).symm.trans (hold p₁ q₁ hsome)) nofun

theorem strong_promoteNext (h : Strong d) (hq : d.peers p = some q) (kpAddr : ℕ) :
    Strong (promoteNext p q d kpAddr) := by
  unfold promoteNext
  cases hnext : q.nextKeypair with
  | none => exact h
  | some kp =>
    simp only
    split_ifs
    · have hperm : q.keypairs.Perm (q.prevKeypair.toList ++
          ([kp] ++ ([] ++ q.currentKeypair.toList))) := by
        rw [Peer.keypairs, hnext, List.nil_append]
        exact List.perm_append_comm.trans (List.perm_append_comm.append_left _)
      refine h.store hq ((h.holding hq).perm hperm).deleteKeypair (deleteKeypair_frame _).1
        (deleteKeypair_frame _).2.ge (h.ready p q hq) fun kp' hkp' => ?_
      rw [(deleteKeypair_frame _).2]
      refine h.bound p q hq kp' (hperm.mem_iff.2 (List.mem_append_right _ ?_))
      exact hkp'
    · exact h

/-- The rotation gives back the indices of the keypairs that lose their slot. -/
theorem rotateKeypairs_spec {kp : Keypair} (h : Holding d p 0 (kp :: q.keypairs)) :
    ∃ d' q', rotateKeypairs p q d kp = d'.store p q' ∧ q'.handshake = q.handshake ∧
      Holding d' p 0 q'.keypairs ∧ d'.peers = d.peers ∧ d'.nextAddr = d.nextAddr ∧
      ∀ k ∈ q'.keypairs, k = kp ∨ k ∈ q.keypairs := by
  classical
  unfold rotateKeypairs
  simp only
  cases hinit : kp.isInitiator with
  | true =>
    simp only [if_true]
    cases hnext : q.nextKeypair with
    | some next =>
      have hperm : (kp :: q.keypairs).Perm (q.currentKeypair.toList ++
          (q.prevKeypair.toList ++ ([kp] ++ ([] ++ [next])))) := by
        rw [List.perm_iff_count]
        intro k
        simp only [Peer.keypairs, hnext, List.count_append, List.count_cons, List.count_nil,
          Option.toList_some]
        omega
      refine ⟨_, _, rfl, rfl, (h.perm hperm).deleteKeypair.deleteKeypair, ?_, ?_, ?_⟩
      · simp only [deleteKeypair_frame]
      · simp only [deleteKeypair_frame]
      · intro k hk
        have hk' := List.mem_append_right q.prevKeypair.toList hk
        exact List.mem_cons.1 (hperm.mem_iff.2 (List.mem_append_right _ hk'))
    | none =>
      have hperm : (kp :: q.keypairs).Perm (q.prevKeypair.toList ++
          ([kp] ++ ([] ++ q.currentKeypair.toList))) := by
        rw [List.perm_iff_count]
        intro k
        simp only [Peer.keypairs, hnext, List.count_append, List.count_cons, List.count_nil,
          Option.toList_none]
        omega
      refine ⟨_, _, rfl, rfl, (h.perm hperm).deleteKeypair, ?_, ?_, ?_⟩
      · simp only [deleteKeypair_frame]
      · simp only [deleteKeypair_frame]
      · intro k hk
        exact List.mem_cons.1 (hperm.mem_iff.2 (List.mem_append_right _ hk))
  | false =>
    have hperm : (kp :: q.keypairs).Perm (q.nextKeypair.toList ++ (q.prevKeypair.toList ++
        (q.currentKeypair.toList ++ [kp] ++ []))) := by
      rw [List.perm_iff_count]
      intro k
      simp only [Peer.keypairs, List.count_append, List.count_cons, List.count_nil]
      omega
    refine ⟨_, _, rfl, rfl, (h.perm hperm).deleteKeypair.deleteKeypair, ?_, ?_, ?_⟩
    · simp only [deleteKeypair_frame]
    · simp only [deleteKeypair_frame]
    · intro k hk
      exact List.mem_cons.1 (hperm.mem_iff.2 (List.mem_append_right _ (List.mem_append_right _ hk)))

theorem strong_beginSession (h : Strong d) (hq : d.peers p = some q) (calloc : Bool) :
    Strong (noiseBeginSession c env p q d calloc) := by
  unfold noiseBeginSession
  simp only
  split_ifs with hst
  · exact h
  · exact h
  have h0 : q.handshake.localIndex ≠ 0 := by
    rcases h.ready p q hq with hno | hno | hindex
    · exact absurd ⟨by rw [hno]; decide, by rw [hno]; decide⟩ hst
    · exact absurd ⟨by rw [hno]; decide, by rw [hno]; decide⟩ hst
    · exact hindex
  have hhold := h.holding hq
  generalize hkp : sessionKeypair c q.handshake d.nextAddr env.now = kp
  have haddr : kp.addr = d.nextAddr := by rw [← hkp]; rfl
  obtain ⟨t', kp', hswap, rfl, hexact⟩ := hhold.exact.swapKeypair h0 kp
  rw [hswap]
  simp only
  have hnew : kp.addr ∉ q.keypairs.map Keypair.addr := by
    intro hmem
    obtain ⟨k, hk, heq⟩ := List.mem_map.1 hmem
    have := h.bound p q hq k hk
    omega
  have hstart : Holding { d with indexTable := t', nextAddr := d.nextAddr + 1 } p 0
      ({ kp with localIndex := q.handshake.localIndex } :: q.keypairs) :=
    ⟨hexact, List.nodup_cons.2 ⟨hnew, hhold.nodup⟩⟩
  obtain ⟨d', q', hrotate, hhs, hhold', hpeers, hnext, hmem⟩ := @rotateKeypairs_spec _ _
    { q with handshake := noiseHandshakeClear q.handshake, lastHandshakeNs := env.clockNs } _ hstart
  rw [hrotate]
  refine h.store hq ?_ hpeers ?_ ?_ fun k hk => ?_
  · rw [hhs]
    exact hhold'
  · rw [hnext]
    exact Nat.le_succ _
  · rw [hhs]
    exact Or.inl rfl
  · rw [hnext]
    show k.addr < d.nextAddr + 1
    rcases hmem k hk with rfl | hold
    · exact Nat.lt_succ_of_le haddr.le
    · exact Nat.lt_succ_of_lt (h.bound p q hq k hold)

/-- An operation that does not pick index 0 keeps the invariant. -/
theorem strong_step (h : Strong d) (e : Env × HandshakeOp) (hpick : picks d e ≠ some 0) :
    Strong (handshakeStep c d e) := by
  obtain ⟨env, e⟩ := e
  have hpeer : ∀ (p : ℕ) (f : Peer → Device), (∀ q, d.peers p = some q → Strong (f q)) →
      Strong ((d.peers p).elim d f) := by
    intro p f hf
    cases hq : d.peers p with
    | none => exact h
    | some q => exact hf q hq
  cases e with
  | addPeer fresh => exact strong_addPeer h fresh
  | createInitiation p secrets ok words =>
    exact hpeer p _ fun q hq => strong_createInitiation h hq secrets ok words hpick
  | consumeInitiation p secrets sender timestamp =>
    exact hpeer p _ fun q hq => h.storeSame hq rfl rfl (Or.inr (Or.inl rfl))
  | createResponse p secrets ok words =>
    exact hpeer p _ fun q hq => strong_createResponse h hq secrets ok words hpick
  | consumeResponse receiver sender secrets ok =>
    exact strong_consumeResponse h receiver sender secrets ok
  | beginSession p calloc => exact hpeer p _ fun q hq => strong_beginSession h hq calloc
  | promote p kpAddr => exact hpeer p _ fun q hq => strong_promoteNext h hq kpAddr
  | zeroKeyMaterial p => exact hpeer p _ fun q hq => strong_zeroKeyMaterial h hq
  | teardown p => exact hpeer p _ fun q hq => strong_teardown h hq

/-- An operation that picks index 0 leaves an entry there. -/
theorem zero_of_picks (h : Strong d) {e : Env × HandshakeOp} (hpick : picks d e = some 0) :
    ((handshakeStep c d e).indexTable 0).isSome := by
  obtain ⟨env, e⟩ := e
  have hnew : ∀ {p q words}, d.peers p = some q →
      (d.renewIndex p q words).map Prod.snd = some 0 →
      ∃ d', d.renewIndex p q words = some (d', 0) ∧ (d'.indexTable 0).isSome := by
    intro p q words hq hsnd
    obtain ⟨⟨d', i⟩, hrenew, rfl⟩ := Option.map_eq_some_iff.1 hsnd
    exact ⟨d', hrenew, (renewIndex_spec h hq hrenew).2.2.2.1⟩
  cases e with
  | createInitiation p secrets ok words =>
    obtain ⟨q, hq, hok⟩ := Option.bind_eq_some_iff.1 hpick
    cases ok with
    | false => cases hok
    | true =>
      obtain ⟨d', hrenew, hsome⟩ := hnew hq hok
      simp only [handshakeStep, hq, Option.elim_some, noiseCreateInitiation, hrenew,
        Bool.not_true, Bool.false_eq_true, if_false]
      exact hsome
  | createResponse p secrets ok words =>
    obtain ⟨q, hq, hst⟩ := Option.bind_eq_some_iff.1 hpick
    split_ifs at hst with hconsumed
    obtain ⟨d', hrenew, hsome⟩ := hnew hq hst
    simp only [handshakeStep, hq, Option.elim_some, noiseCreateResponse, hrenew, hconsumed,
      ne_eq, not_true, if_false]
    exact hsome
  | _ => cases hpick

end Invariant

/-! ### Faithful tables -/

/-- The table does what its users rely on, as far as the low 16 bits of an index go. -/
structure Faithful (d : Device) : Prop where
  /-- An index that is in use can be deleted, and its entry given to a keypair. -/
  honoured : ∀ i e, indexTableLookup d.indexTable i = some e →
    indexTableLookup (indexTableDelete d.indexTable i) i = none ∧ ∀ kp,
      indexTableLookup (indexTableSwapKeypair d.indexTable i kp).1 i =
          some { e with type := .keypair, keypair := some kp.addr } ∧
        (indexTableSwapKeypair d.indexTable i kp).2.localIndex = masked i
  /-- The index of a keypair leads to the keypair. -/
  sessions : ∀ p q, d.peers p = some q → ∀ kp ∈ q.keypairs,
    indexTableLookup d.indexTable kp.localIndex = some (kpEntry p kp.addr)
  /-- An index that is found is one that was allocated and not deleted since, unless it differs from
  such an index in the upper 16 bits. -/
  exact : ∀ i e, indexTableLookup d.indexTable i = some e →
    (outstanding d.calls i = true ↔ i.toNat < 65536)
  /-- No entry is left of a peer that is gone. -/
  torn : ∀ i e, indexTableLookup d.indexTable i = some e → (d.peers e.peer).isSome

section Faithful

variable {d : Device}

theorem slot_ne_zero (h : Strong d) {i : BitVec 32} {e : IndexEntry}
    (he : indexTableLookup d.indexTable i = some e) : i ≠ 0 := by
  rintro rfl
  exact absurd (h.exact.zero.symm.trans he) nofun

theorem Strong.faithful (h : Strong d) : Faithful d where
  honoured i e he := by
    have h0 := slot_ne_zero h he
    have hslot : d.indexTable (slot i) = some e := he
    refine ⟨?_, fun kp => ?_⟩
    · rw [indexTableDelete, if_neg h0, indexTableLookup, Function.update_self]
    · rw [indexTableSwapKeypair, if_neg h0, hslot]
      simp only
      exact ⟨Function.update_self .., trivial⟩
  sessions p q hq kp hkp :=
    ((h.exact.owned _ _ _).1 ⟨q, hq, Or.inr ⟨kp, hkp, rfl, rfl⟩⟩).2.1
  exact i e he := by
    rw [h.exact.live, masked_eq_iff]
    exact and_iff_left (Option.isSome_iff_exists.2 ⟨e, he⟩)
  torn i e he := by
    have hslot : d.indexTable (slot (masked i)) = some e := by
      rw [slot_masked]
      exact he
    obtain ⟨q, hq, -⟩ := (h.exact.owned e.peer (masked i) e).2 ⟨masked_masked i, hslot, rfl⟩
    rw [hq]
    rfl

/-- An entry at index 0 cannot be deleted. -/
theorem Faithful.zero (h : Faithful d) : d.indexTable 0 = none := by
  cases hzero : d.indexTable 0 with
  | none => rfl
  | some e =>
    have hdeleted : indexTableLookup (indexTableDelete d.indexTable 0) 0 = none :=
      (h.honoured 0 e hzero).1
    rw [indexTableDelete, if_pos rfl, indexTableLookup, slot_zero, hzero] at hdeleted
    cases hdeleted

end Faithful

/-- A device without peers. -/
def emptyDevice (allowedips : AllowedIps.Table ℕ) : Device :=
  ⟨fun _ => none, fun _ => none, allowedips, 0, []⟩

theorem strong_emptyDevice (allowedips : AllowedIps.Table ℕ) : Strong (emptyDevice allowedips) := by
  have hnone : ∀ p q, (emptyDevice allowedips).peers p = some q → False := fun p q hq => by
    cases hq
  refine ⟨⟨rfl, fun p j e => ?_, fun j => ?_⟩, fun p q hq => (hnone p q hq).elim,
    fun p q hq => (hnone p q hq).elim, fun p q hq => (hnone p q hq).elim, fun _ _ => rfl⟩
  · refine iff_of_false (fun hno => hnone p _ hno.choose_spec.1) fun hno => ?_
    cases hno.2.1
  · refine iff_of_false Bool.false_ne_true fun hno => ?_
    cases hno.2

/-- **The indices are faithful exactly if index 0 is never picked.**  In every state of a run in
which no random word that is taken ends in 16 zero bits, an index in use can be deleted and swapped,
the index of a keypair leads to it, an index below `2 ^ 16` is found only while it is allocated, and
nothing is left of a peer that is torn down; a word that ends so breaks this at once. -/
theorem apple_indices_faithful (c : Crypto) (allowedips : AllowedIps.Table ℕ)
    (es : List (Env × HandshakeOp)) :
    Machine.Guarded (handshakeStep c) DrawsNonzero (emptyDevice allowedips) es ↔
      ∀ pre, pre <+: es →
        Faithful (Machine.run (handshakeStep c) (emptyDevice allowedips) pre) := by
  refine @Machine.guarded_iff_forall_prefix _ _ (handshakeStep c) _ Strong Faithful
    (fun d e h hdraw => strong_step h e ((drawsNonzero_iff d e).1 hdraw)) (fun d h => h.faithful)
    (fun d e h hnext => (drawsNonzero_iff d e).2 fun hpick => ?_) _ (strong_emptyDevice allowedips) es
  have hsome := @zero_of_picks c d h e hpick
  rw [hnext.zero] at hsome
  cases hsome

/-- A peer to try things on. -/
def examplePeer : Peer := toyPeer (List.replicate 32 1) (List.replicate 32 2)

/-- The secrets of a handshake, all alike. -/
def exampleSecrets : Secrets := ⟨zeroKey, zeroKey, zeroKey, zeroKey, zeroKey⟩

/-- An initiator whose random word ends in 16 zero bits, up to its session. -/
def zeroIndexRun : List (Env × HandshakeOp) :=
  [(toyEnv 5, .addPeer examplePeer),
    (toyEnv 5, .createInitiation 0 exampleSecrets true [0x50000]),
    (toyEnv 5, .consumeResponse 0 7 exampleSecrets true),
    (toyEnv 5, .beginSession 0 true)]

/-- The session of `zeroIndexRun` can never receive. -/
theorem zero_index_lost : ¬ ∀ (c : Crypto) (allowedips : AllowedIps.Table ℕ)
    (es : List (Env × HandshakeOp)) (p : ℕ) (q : Peer) (kp : Keypair),
    (Machine.run (handshakeStep c) (emptyDevice allowedips) es).peers p = some q →
      q.currentKeypair = some kp →
      ∃ e, indexTableLookup (Machine.run (handshakeStep c) (emptyDevice allowedips) es).indexTable
        kp.localIndex = some e ∧ e.type = .keypair ∧ e.keypair = some kp.addr := by
  intro h
  obtain ⟨e, hlookup, htype, -⟩ := h toyCrypto AllowedIps.allowedipsInit zeroIndexRun 0 _ _ rfl rfl
  cases hlookup
  cases htype

end Wgx.Apple
