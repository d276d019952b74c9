import Mathlib.Tactic
import Wgx.Lib.Run

/-!
# The anti-replay filter (`replay.c`)

`replay_filter_t` keeps the largest counter seen and a ring of 128 blocks of 64 bits.  A counter
`c` has its bit in block `c / 64`, stored in ring slot `(c / 64) % 128`; when the window moves
forward the blocks it enters are cleared, at most the whole ring.

* `ReplayFilter`, `replayReset`, `replayCheck`, `replayCommit`, `replayValidate`: the code;
* `Window`: the ideal window, the set of the counters accepted so far;
* `Represents f S`: the ring holds exactly the members of `S` in the blocks that it covers;
* `replayCommit_refines`: one call takes related states to related states and gives the same
  answer as the ideal window.
-/

namespace Wgx.Replay

/-- `REPLAY_RING_BLOCKS`. -/
def ringBlocks : ℕ := 128

/-- `REPLAY_WINDOW_SIZE`, that is `(REPLAY_RING_BLOCKS - 1) * REPLAY_BLOCK_BITS`. -/
def windowSize : ℕ := (ringBlocks - 1) * 64

/-- `replay_filter_t`. -/
structure ReplayFilter where
  last : BitVec 64
  ring : Fin 128 → BitVec 64

/-- `i & (REPLAY_RING_BLOCKS - 1)`. -/
def ringSlot (block : BitVec 64) : Fin 128 :=
  ⟨(block &&& 127#64).toNat, by
    rw [BitVec.toNat_and]; exact Nat.lt_of_le_of_lt Nat.and_le_right (by decide)⟩

/-- `UINT64_C(1) << (counter & 63)`. -/
def counterBit (counter : BitVec 64) : BitVec 64 := 1#64 <<< (counter &&& 63#64).toNat

/-- `replay_reset`. -/
def replayReset : ReplayFilter := ⟨0#64, fun _ => 0#64⟩

/-- `replay_check`. -/
def replayCheck (f : ReplayFilter) (counter limit : BitVec 64) : Bool :=
  if limit ≤ counter then false
  else if counter ≤ f.last then
    if windowSize < (f.last - counter).toNat then false
    else f.ring (ringSlot (counter >>> 6)) &&& counterBit counter = 0#64
  else true

/-- The clearing loop of `replay_commit`, with `n` blocks to go from block `i` on.  Its bound
`current + diff` is at most `2^58 + 128`, so the loop counter does not wrap. -/
def clearBlocks (ring : Fin 128 → BitVec 64) (i : BitVec 64) : ℕ → Fin 128 → BitVec 64
  | 0 => ring
  | n + 1 => clearBlocks (Function.update ring (ringSlot i) 0#64) (i + 1) n

/-- The window moved forward to `counter`. -/
def advance (f : ReplayFilter) (counter : BitVec 64) : ReplayFilter :=
  let current := f.last >>> 6
  let diff := counter >>> 6 - current
  let diff := if ringBlocks < diff.toNat then ringBlocks else diff.toNat
  ⟨counter, clearBlocks f.ring (current + 1) diff⟩

/-- `replay_commit`: the answer and the filter after the call. -/
def replayCommit (f : ReplayFilter) (counter limit : BitVec 64) : Bool × ReplayFilter :=
  if replayCheck f counter limit then
    let g := if f.last < counter then advance f counter else f
    let slot := ringSlot (counter >>> 6)
    (true, { g with ring := Function.update g.ring slot (g.ring slot ||| counterBit counter) })
  else (false, f)

/-- `replay_validate`. -/
def replayValidate (f : ReplayFilter) (counter limit : BitVec 64) : Bool × ReplayFilter :=
  replayCommit f counter limit

/-! ### Blocks, slots and bits -/

theorem ringSlot_val (block : BitVec 64) : (ringSlot block).val = block.toNat % 128 := by
  simp only [ringSlot, BitVec.toNat_and]
  exact Nat.and_two_pow_sub_one_eq_mod block.toNat 7

theorem toNat_block (counter : BitVec 64) : (counter >>> 6).toNat = counter.toNat / 64 := by
  rw [BitVec.toNat_ushiftRight, Nat.shiftRight_eq_div_pow]

theorem getLsbD_counterBit (counter : BitVec 64) (i : ℕ) (hi : i < 64) :
    (counterBit counter).getLsbD i = decide (i = counter.toNat % 64) := by
  have hlow : (counter &&& 63#64).toNat = counter.toNat % 64 :=
    Nat.and_two_pow_sub_one_eq_mod counter.toNat 6
  rw [counterBit, hlow, BitVec.getLsbD_shiftLeft]
  have hlt : counter.toNat % 64 < 64 := Nat.mod_lt _ (by decide)
  rcases lt_trichotomy i (counter.toNat % 64) with h | h | h
  · simp [h, h.ne]
  · subst h; simp [hlt]
  · have : i - counter.toNat % 64 ≠ 0 := by omega
    simp [hi, h.ne', this, BitVec.getLsbD_one]

theorem and_counterBit_eq_zero (w counter : BitVec 64) :
    w &&& counterBit counter = 0#64 ↔ w.getLsbD (counter.toNat % 64) = false := by
  have hlt : counter.toNat % 64 < 64 := Nat.mod_lt _ (by decide)
  constructor
  · intro h
    have hbit := congrArg (fun x => x.getLsbD (counter.toNat % 64)) h
    simpa [getLsbD_counterBit counter _ hlt] using hbit
  · intro h
    apply BitVec.eq_of_getLsbD_eq
    intro i hi
    rw [BitVec.getLsbD_and, getLsbD_counterBit counter i hi, BitVec.getLsbD_zero]
    by_cases hic : i = counter.toNat % 64
    · rw [hic, h]; rfl
    · simp [hic]

/-- The clearing loop clears the slots of the blocks it passes and no other. -/
theorem clearBlocks_apply (ring : Fin 128 → BitVec 64) (i : BitVec 64) (n : ℕ) (s : Fin 128)
    (hn : i.toNat + n < 2 ^ 64) :
    clearBlocks ring i n s =
      if ∃ k < n, (i.toNat + k) % 128 = s.val then 0#64 else ring s := by
  induction n generalizing ring i with
  | zero => simp [clearBlocks]
  | succ n ih =>
    have hi1 : (i + 1).toNat = i.toNat + 1 := by
      rw [BitVec.toNat_add]; exact Nat.mod_eq_of_lt (by simpa using by omega)
    rw [clearBlocks, ih _ _ (by omega), hi1]
    by_cases hs : i.toNat % 128 = s.val
    · have hslot : s = ringSlot i := Fin.ext (by rw [ringSlot_val, hs])
      have hex : ∃ k < n + 1, (i.toNat + k) % 128 = s.val := ⟨0, by omega, by simpa using hs⟩
      rw [if_pos hex, hslot, Function.update_self]
      split_ifs <;> rfl
    · have hne : s ≠ ringSlot i := fun h => hs (by rw [h, ringSlot_val])
      rw [Function.update_of_ne hne]
      refine if_congr ⟨?_, ?_⟩ rfl rfl
      · rintro ⟨k, hk, hks⟩
        exact ⟨k + 1, by omega, by rw [← hks]; congr 1; omega⟩
      · rintro ⟨k, hk, hks⟩
        obtain _ | k := k
        · exact absurd hks hs
        · exact ⟨k, by omega, by rw [← hks]; congr 1; omega⟩

/-! ### The ideal window -/

/-- The ideal window with the counters `S` accepted so far and the limit `L` accepts `c`. -/
def Accepts (L : ℕ) (S : Finset ℕ) (c : ℕ) : Prop :=
  c < L ∧ c ∉ S ∧ (S.sup id < c ∨ S.sup id - c ≤ windowSize)

/-- The ring of `f` holds the accepted counters `S`: `last` is their maximum, and in each of the
128 blocks up to that of `last` the set bits are the members of `S`. -/
structure Represents (f : ReplayFilter) (S : Finset ℕ) : Prop where
  last : f.last.toNat = S.sup id
  bits : ∀ c : ℕ, c / 64 ≤ f.last.toNat / 64 → f.last.toNat / 64 < c / 64 + 128 →
    ∀ s : Fin 128, s.val = c / 64 % 128 → ((f.ring s).getLsbD (c % 64) = true ↔ c ∈ S)

theorem represents_reset : Represents replayReset ∅ where
  last := rfl
  bits := by intro c _ _ s _; simp [replayReset]

theorem Represents.le_last {f : ReplayFilter} {S : Finset ℕ} (h : Represents f S) {c : ℕ}
    (hc : c ∈ S) : c ≤ f.last.toNat := by
  rw [h.last]; exact Finset.le_sup (f := id) hc

/-- `replay_check` answers as the ideal window does. -/
theorem replayCheck_iff {f : ReplayFilter} {S : Finset ℕ} (h : Represents f S)
    (counter limit : BitVec 64) :
    replayCheck f counter limit = true ↔ Accepts limit.toNat S counter.toNat := by
  have hlast := h.last
  unfold replayCheck Accepts
  split_ifs with h1 h2 h3
  · rw [BitVec.le_def] at h1
    exact ⟨fun h => (by cases h), fun ⟨h, _⟩ => absurd h (by omega)⟩
  · have hsub : (f.last - counter).toNat = f.last.toNat - counter.toNat :=
      BitVec.toNat_sub_of_le h2
    rw [BitVec.le_def] at h2
    rw [hsub] at h3
    exact ⟨fun h => (by cases h), fun ⟨_, _, h⟩ => absurd h (by omega)⟩
  · have hsub : (f.last - counter).toNat = f.last.toNat - counter.toNat :=
      BitVec.toNat_sub_of_le h2
    rw [BitVec.le_def] at h1 h2
    rw [hsub] at h3
    have hblock : f.last.toNat / 64 < counter.toNat / 64 + 128 := by
      simp only [windowSize, ringBlocks] at h3; omega
    have hbit := h.bits counter.toNat (by omega) hblock (ringSlot (counter >>> 6))
      (by rw [ringSlot_val, toNat_block])
    rw [decide_eq_true_iff, and_counterBit_eq_zero, ← Bool.not_eq_true, hbit]
    exact ⟨fun hn => ⟨by omega, hn, by omega⟩, fun ⟨_, hn, _⟩ => hn⟩
  · rw [BitVec.le_def] at h1 h2
    refine ⟨fun _ => ⟨by omega, fun hc => ?_, by omega⟩, fun _ => rfl⟩
    exact absurd (h.le_last hc) (by omega)

/-! ### One call -/

theorem getLsbD_or_counterBit (w counter : BitVec 64) (i : ℕ) (hi : i < 64) :
    (w ||| counterBit counter).getLsbD i = true ↔
      w.getLsbD i = true ∨ i = counter.toNat % 64 := by
  rw [BitVec.getLsbD_or, getLsbD_counterBit counter i hi]
  simp

/-- A counter that was committed is refused from then on. -/
theorem replayCheck_commit {f : ReplayFilter} {counter limit : BitVec 64}
    (h : replayCheck f counter limit = true) :
    replayCheck (replayCommit f counter limit).2 counter limit = false := by
  have hlimit : ¬ limit ≤ counter := by
    intro hle
    simp [replayCheck, hle] at h
  set g := if f.last < counter then advance f counter else f with hg
  have hlast : counter ≤ g.last := by
    rw [hg]
    split_ifs with hlt
    · exact BitVec.le_refl counter
    · exact BitVec.not_lt.1 hlt
  have hbit : (g.ring (ringSlot (counter >>> 6)) ||| counterBit counter) &&& counterBit counter ≠
      0#64 := by
    intro h0
    have hclear := (and_counterBit_eq_zero _ counter).1 h0
    have hset := (getLsbD_or_counterBit (g.ring (ringSlot (counter >>> 6))) counter
      (counter.toNat % 64) (Nat.mod_lt _ (by decide))).2 (Or.inr rfl)
    exact Bool.false_ne_true (hclear.symm.trans hset)
  have hcommit : (replayCommit f counter limit).2 = ⟨g.last, Function.update g.ring
      (ringSlot (counter >>> 6)) (g.ring (ringSlot (counter >>> 6)) ||| counterBit counter)⟩ := by
    rw [replayCommit, if_pos h]
  clear_value g
  rw [hcommit, replayCheck, if_neg hlimit, if_pos hlast]
  split_ifs
  · rfl
  · simp only [Function.update_self]
    exact decide_eq_false hbit

/-- Setting the bit of a counter in a block that the ring covers adds it to the set. -/
theorem Represents.setBit {f : ReplayFilter} {S : Finset ℕ} (counter : BitVec 64)
    (hle : counter.toNat ≤ f.last.toNat)
    (hblock : f.last.toNat / 64 < counter.toNat / 64 + 128)
    (hlast : f.last.toNat = (insert counter.toNat S).sup id)
    (hbits : ∀ c : ℕ, c / 64 ≤ f.last.toNat / 64 → f.last.toNat / 64 < c / 64 + 128 →
      ∀ s : Fin 128, s.val = c / 64 % 128 → ((f.ring s).getLsbD (c % 64) = true ↔ c ∈ S)) :
    Represents
      { f with ring := Function.update f.ring (ringSlot (counter >>> 6))
                (f.ring (ringSlot (counter >>> 6)) ||| counterBit counter) }
      (insert counter.toNat S) where
  last := hlast
  bits := by
    intro c h1 h2 s hs
    simp only at h1 h2 ⊢
    rw [Finset.mem_insert, ← hbits c h1 h2 s hs]
    by_cases hslot : s = ringSlot (counter >>> 6)
    · have hval : s.val = counter.toNat / 64 % 128 := by rw [hslot, ringSlot_val, toNat_block]
      -- both blocks lie in the ring's 128, so one slot means one block
      have hdiv : c / 64 = counter.toNat / 64 := by omega
      rw [hslot, Function.update_self, getLsbD_or_counterBit _ _ _ (Nat.mod_lt _ (by decide)),
        or_comm]
      exact or_congr ⟨fun h => by omega, fun h => by rw [h]⟩ Iff.rfl
    · have hne : c ≠ counter.toNat := by
        rintro rfl
        exact hslot (Fin.ext (by rw [hs, ringSlot_val, toNat_block]))
      rw [Function.update_of_ne hslot]
      simp [hne]

/-- After the window has moved forward the ring holds the same set in the blocks it now covers. -/
theorem Represents.advance_bits {f : ReplayFilter} {S : Finset ℕ} (h : Represents f S)
    {counter : BitVec 64} (hlt : f.last.toNat < counter.toNat) {c : ℕ}
    (h1 : c / 64 ≤ counter.toNat / 64) (h2 : counter.toNat / 64 < c / 64 + 128)
    {s : Fin 128} (hs : s.val = c / 64 % 128) :
    ((advance f counter).ring s).getLsbD (c % 64) = true ↔ c ∈ S := by
  have hcur := toNat_block f.last
  have hnew := toNat_block counter
  have hbound := counter.isLt
  have hdiff : (counter >>> 6 - f.last >>> 6).toNat
      = counter.toNat / 64 - f.last.toNat / 64 := by
    rw [BitVec.toNat_sub_of_le (by rw [BitVec.le_def, hcur, hnew]; omega), hcur, hnew]
  have hstart : (f.last >>> 6 + 1).toNat = f.last.toNat / 64 + 1 := by
    rw [BitVec.toNat_add, hcur]; exact Nat.mod_eq_of_lt (by simpa using by omega)
  simp only [advance, hdiff, ringBlocks]
  rw [clearBlocks_apply _ _ _ _ (by rw [hstart]; split_ifs <;> omega), hstart]
  by_cases hc : c / 64 ≤ f.last.toNat / 64
  · -- an old block: none of the entered blocks shares its slot
    rw [if_neg, h.bits c hc (by omega) s hs]
    rintro ⟨k, hk, hks⟩
    split_ifs at hk <;> omega
  · -- an entered block: cleared, and no accepted counter lies beyond `last`
    rw [if_pos]
    · refine ⟨fun h0 => by simp at h0, fun hmem => absurd (h.le_last hmem) (by omega)⟩
    · refine ⟨(c / 64 - (f.last.toNat / 64 + 1)) % 128, by split_ifs <;> omega, ?_⟩
      rw [hs]; omega

/-- **One call of `replay_commit` simulates the ideal window**: the answer is the window's, an
accepted counter joins the set and a rejected one leaves the filter as it was. -/
theorem replayCommit_refines {f : ReplayFilter} {S : Finset ℕ} (h : Represents f S)
    (counter limit : BitVec 64) :
    ((replayCommit f counter limit).1 = true ∧ Accepts limit.toNat S counter.toNat ∧
        Represents (replayCommit f counter limit).2 (insert counter.toNat S)) ∨
      (replayCommit f counter limit = (false, f) ∧ ¬ Accepts limit.toNat S counter.toNat) := by
  have hcheck := replayCheck_iff h counter limit
  unfold replayCommit
  split_ifs with hok hgt
  · refine Or.inl ⟨rfl, hcheck.1 hok, ?_⟩
    rw [BitVec.lt_def] at hgt
    refine Represents.setBit counter le_rfl (by simp only [advance]; omega) ?_
      (fun c h1 h2 s hs => h.advance_bits hgt h1 h2 hs)
    rw [Finset.sup_insert, ← h.last]
    simp only [advance, id]
    exact (max_eq_left hgt.le).symm
  · obtain ⟨_, _, hwin⟩ := hcheck.1 hok
    refine Or.inl ⟨rfl, hcheck.1 hok, ?_⟩
    have hlast := h.last
    rw [BitVec.lt_def] at hgt
    refine Represents.setBit counter (by omega) ?_ ?_ h.bits
    · simp only [windowSize, ringBlocks] at hwin; omega
    · rw [Finset.sup_insert, ← h.last]
      simp only [id]
      exact (max_eq_right (by omega)).symm
  · exact Or.inr ⟨rfl, fun ha => hok (hcheck.2 ha)⟩

/-! ### Whole histories -/

/-- The filter and the counters accepted so far. -/
structure History where
  filter : ReplayFilter
  accepted : List (BitVec 64)

/-- Pass one counter to `replay_commit` and record it if the answer is 1. -/
def commitStep (limit : BitVec 64) (h : History) (counter : BitVec 64) : History :=
  match replayCommit h.filter counter limit with
  | (true, f) => ⟨f, counter :: h.accepted⟩
  | (false, f) => ⟨f, h.accepted⟩

/-- The history of the counters `cs` after `replay_reset`. -/
def history (limit : BitVec 64) (cs : List (BitVec 64)) : History :=
  Machine.run (commitStep limit) ⟨replayReset, []⟩ cs

/-- The set of the accepted counters. -/
def History.seen (h : History) : Finset ℕ := (h.accepted.map BitVec.toNat).toFinset

/-- The invariant of a history. -/
structure HistoryInv (h : History) : Prop where
  represents : Represents h.filter h.seen
  nodup : h.accepted.Nodup

theorem mem_seen {h : History} {c : BitVec 64} : c.toNat ∈ h.seen ↔ c ∈ h.accepted := by
  simp only [History.seen, List.mem_toFinset, List.mem_map]
  exact ⟨fun ⟨a, ha, hac⟩ => BitVec.eq_of_toNat_eq hac ▸ ha, fun hc => ⟨c, hc, rfl⟩⟩

theorem historyInv_step (limit : BitVec 64) (h : History) (c : BitVec 64) (hi : HistoryInv h) :
    HistoryInv (commitStep limit h c) := by
  rcases replayCommit_refines hi.represents c limit with ⟨hok, hacc, hrep⟩ | ⟨hrej, -⟩
  · have hstep : commitStep limit h c = ⟨(replayCommit h.filter c limit).2, c :: h.accepted⟩ := by
      unfold commitStep
      rw [show replayCommit h.filter c limit = (true, (replayCommit h.filter c limit).2) from
        Prod.ext hok rfl]
    rw [hstep]
    refine ⟨?_, List.nodup_cons.2 ⟨fun hm => hacc.2.1 (mem_seen.2 hm), hi.nodup⟩⟩
    simpa [History.seen] using hrep
  · unfold commitStep
    rw [hrej]
    exact hi

theorem historyInv_history (limit : BitVec 64) (cs : List (BitVec 64)) :
    HistoryInv (history limit cs) :=
  Machine.run_induction' _ (historyInv_step limit)
    ⟨by simpa [History.seen] using represents_reset, List.nodup_nil⟩ cs

/-- **The replay filter refines the ideal window.**  After any history of counters the next
counter is accepted exactly when the ideal window over the counters accepted so far accepts it;
`replay_check` gives the same answer, a rejected call leaves the filter unchanged, and no counter
has been accepted twice. -/
theorem replay_refines_window (limit : BitVec 64) (cs : List (BitVec 64)) (c : BitVec 64) :
    ((replayCommit (history limit cs).filter c limit).1 = true ↔
      c.toNat < limit.toNat ∧ c ∉ (history limit cs).accepted ∧
        ((history limit cs).seen.sup id < c.toNat ∨
          (history limit cs).seen.sup id - c.toNat ≤ windowSize)) ∧
    replayCheck (history limit cs).filter c limit =
      (replayCommit (history limit cs).filter c limit).1 ∧
    replayValidate (history limit cs).filter c limit =
      replayCommit (history limit cs).filter c limit ∧
    ((replayCommit (history limit cs).filter c limit).1 = false →
      (replayCommit (history limit cs).filter c limit).2 = (history limit cs).filter) ∧
    (history limit cs).accepted.Nodup := by
  generalize hh : history limit cs = h
  have hinv : HistoryInv h := hh ▸ historyInv_history limit cs
  refine ⟨?_, ?_, rfl, ?_, hinv.nodup⟩
  · rw [← mem_seen]
    rcases replayCommit_refines hinv.represents c limit with ⟨hok, hacc, -⟩ | ⟨hrej, hno⟩
    · exact ⟨fun _ => hacc, fun _ => hok⟩
    · rw [hrej]
      exact ⟨fun hf => (by cases hf), fun ha => absurd ha hno⟩
  · cases hok : replayCheck h.filter c limit <;> simp [replayCommit, hok]
  · intro hf
    rcases replayCommit_refines hinv.represents c limit with ⟨hok, -⟩ | ⟨hrej, -⟩
    · rw [hok] at hf; cases hf
    · rw [hrej]

/-- The edge of the window: after counter 8129, counter 1 is still accepted and counter 0 is
not. -/
example :
    (replayCommit (history 10000#64 [8129#64]).filter 1#64 10000#64).1 = true ∧
    (replayCommit (history 10000#64 [8129#64]).filter 0#64 10000#64).1 = false := by
  decide +kernel

end Wgx.Replay
