import Wgx.Worker.Queue

/-!
# The packet pool as lists

`PoolLayout` is the pool as its users think of it: a shared list of free nodes, a cache for each
loop, and what stands in each ring.  `PoolShape` says that the links and counters of
`tcp_worker.c` represent a layout.  The operations on links and slots refine those on lists:
`poolAcquire_shape`, `poolRelease_shape`, `ringPush_shape` and `popBatch_shape`.
-/

namespace Wgx

open Linked (Chain)

/-- Where the free and the queued nodes are. -/
structure PoolLayout where
  free : List ℕ
  cached : Loop → List ℕ
  queued : Loop → List ℕ

namespace PoolLayout

/-- Take a node: the first of the cache, or the first of the shared list, and fill the cache with
the next 31. -/
def acquire (side : Loop) (L : PoolLayout) : Option ℕ × PoolLayout :=
  match L.cached side, L.free with
  | msg :: rest, _ => (some msg, { L with cached := Function.update L.cached side rest })
  | [], [] => (none, L)
  | [], msg :: rest =>
    (some msg, { L with
      free := rest.drop 31, cached := Function.update L.cached side (rest.take 31) })

/-- Give a node back: to the cache, or with all but 32 nodes of a full cache to the shared list. -/
def release (side : Loop) (msg : ℕ) (L : PoolLayout) : PoolLayout :=
  if (L.cached side).length < 64 then
    { L with cached := Function.update L.cached side (msg :: L.cached side) }
  else
    { L with
      free := msg :: ((L.cached side).drop 32 ++ L.free)
      cached := Function.update L.cached side ((L.cached side).take 32) }

/-- How often a node stands in the free lists. -/
def freeCount (L : PoolLayout) (i : ℕ) : ℕ :=
  L.free.count i + (L.cached .main).count i + (L.cached .worker).count i

theorem freeCount_eq (L : PoolLayout) (side : Loop) (i : ℕ) :
    L.freeCount i = L.free.count i + (L.cached side).count i + (L.cached side.other).count i := by
  cases side
  · rfl
  · simp only [freeCount, Loop.other]; omega

end PoolLayout

/-- The links and counters of the pool represent the layout. -/
structure PoolShape (w : TcpWorker) (L : PoolLayout) : Prop where
  free : Chain w.next w.freeList L.free
  cached : ∀ side, Chain w.next (w.cache side).freeList (L.cached side)
  count : ∀ side, (w.cache side).freeCount = (L.cached side).length
  bound : ∀ side, (L.cached side).length ≤ 64

/-- A node that occurs at most once in `l ++ a :: l'` and there in the middle is in neither part. -/
theorem not_mem_of_nodup_middle {l l' : List ℕ} {a : ℕ} (h : (l ++ a :: l').Nodup) :
    a ∉ l ∧ a ∉ l' := by
  rw [List.nodup_middle, List.nodup_cons, List.mem_append, not_or] at h
  exact h.1

theorem Loop.eq_or_eq_other (side side' : Loop) : side' = side ∨ side' = side.other := by
  cases side <;> cases side' <;> simp [Loop.other]

theorem Loop.other_ne (side : Loop) : side.other ≠ side := by cases side <;> nofun

section Distinct

variable {w : TcpWorker} {L : PoolLayout}

/-- The free lists of a layout without duplicates. -/
theorem PoolLayout.nodup_of_freeCount (h : ∀ i, L.freeCount i ≤ 1) (side : Loop) :
    L.free.Nodup ∧ (L.cached side).Nodup ∧ (∀ i ∈ L.free, i ∉ L.cached side) ∧
      ∀ i ∈ L.cached side, i ∉ L.cached side.other := by
  have hle := fun i => (L.freeCount_eq side i).symm.trans_le (h i)
  refine ⟨List.nodup_iff_count_le_one.2 fun i => ?_, List.nodup_iff_count_le_one.2 fun i => ?_,
    fun i hfree hcached => ?_, fun i hcached hother => ?_⟩
  · have := hle i
    omega
  · have := hle i
    omega
  · have := hle i
    have := List.count_pos_iff.2 hfree
    have := List.count_pos_iff.2 hcached
    omega
  · have := hle i
    have := List.count_pos_iff.2 hother
    have := List.count_pos_iff.2 hcached
    omega

theorem PoolLayout.not_mem_of_freeCount {i : ℕ} (h : L.freeCount i = 0) :
    i ∉ L.free ∧ ∀ side, i ∉ L.cached side := by
  refine ⟨List.count_eq_zero.1 ?_, fun side => List.count_eq_zero.1 ?_⟩
  · rw [freeCount] at h
    omega
  · rw [L.freeCount_eq side] at h
    omega

end Distinct

section Acquire

variable {w : TcpWorker} {L : PoolLayout} (side : Loop)

/-- What the pool operations leave alone. -/
structure PoolFrame (w w' : TcpWorker) : Prop where
  ring : w'.ring = w.ring
  async : w'.async = w.async
  stopRequested : w'.stopRequested = w.stopRequested

theorem poolAcquire_frame :
    PoolFrame w (poolAcquire side w).2 ∧ (poolAcquire side w).2.msg = w.msg := by
  unfold poolAcquire
  cases (w.cache side).freeList with
  | some msg => exact ⟨⟨rfl, rfl, rfl⟩, rfl⟩
  | none =>
    cases w.freeList with
    | none => exact ⟨⟨rfl, rfl, rfl⟩, rfl⟩
    | some msg => exact ⟨⟨rfl, rfl, rfl⟩, rfl⟩

/-- **Taking a node refines the lists**: the pointer returned is the node the lists give. -/
theorem poolAcquire_shape (h : PoolShape w L) (hone : ∀ i, L.freeCount i ≤ 1) :
    (poolAcquire side w).1 = (L.acquire side).1 ∧
      PoolShape (poolAcquire side w).2 (L.acquire side).2 := by
  obtain ⟨hnodup, -, hapart, -⟩ := L.nodup_of_freeCount hone side
  have hother := (L.nodup_of_freeCount hone side.other).2.2.1
  have hcached := h.cached side
  cases hl : L.cached side with
  | cons msg rest =>
    rw [hl] at hcached
    have hlen : (w.cache side).freeCount = rest.length + 1 := by rw [h.count side, hl]; rfl
    have hbound := h.bound side
    rw [hl, List.length_cons] at hbound
    simp only [poolAcquire, PoolLayout.acquire, hcached.1, hl]
    refine ⟨trivial, h.free, fun side' => ?_, fun side' => ?_, fun side' => ?_⟩
    all_goals rcases side.eq_or_eq_other side' with rfl | rfl
    · simpa using hcached.2
    · simpa [side.other_ne] using h.cached side.other
    · simp only [Function.update_self, hlen]
      omega
    · simpa [side.other_ne] using h.count side.other
    · simp only [Function.update_self]
      omega
    · simpa [side.other_ne] using h.bound side.other
  | nil =>
    rw [hl] at hcached
    have hfree := h.free
    cases hf : L.free with
    | nil =>
      rw [hf] at hfree
      simp only [poolAcquire, PoolLayout.acquire, show (w.cache side).freeList = none from hcached,
        show w.freeList = none from hfree, hl, hf]
      exact ⟨trivial, h⟩
    | cons msg rest =>
      rw [hf] at hfree hnodup hapart hother
      simp only [poolAcquire, PoolLayout.acquire, show (w.cache side).freeList = none from hcached,
        hfree.1, hl, hf]
      -- the links up to `curr` go to the cache, those behind it stay
      obtain ⟨hnum, hcell⟩ :=
        (show Chain w.next (some msg) (msg :: rest) from ⟨rfl, hfree.2⟩).grab 31
      generalize (Linked.grab w.next 31 msg).1 = curr at hcell
      generalize (Linked.grab w.next 31 msg).2 = grabbed at hnum
      generalize hg : min 31 rest.length = g at hnum hcell
      have htake : rest.take 31 = rest.take g := by
        rw [← hg, List.take_eq_take_iff]
        omega
      have hdrop : rest.drop 31 = rest.drop g := by
        rw [← hg]
        rcases Nat.le_total 31 rest.length with hle | hle
        · rw [min_eq_left hle]
        · rw [min_eq_right hle, List.drop_length, List.drop_eq_nil_of_le hle]
      obtain ⟨hlt, hget⟩ := List.getElem?_eq_some_iff.1 hcell
      have hsplit : msg :: rest = (msg :: rest).take g ++ curr :: rest.drop g := by
        conv_lhs =>
          rw [← List.take_append_drop g (msg :: rest), List.drop_eq_getElem_cons hlt, hget]
        rfl
      have hfront : (msg :: rest).take g ++ [curr] = msg :: rest.take g := by
        rw [← hget, ← List.take_succ_eq_append_getElem hlt, List.take_succ_cons]
      have hmsg : msg ∉ rest := (List.nodup_cons.1 hnodup).1
      have hcurr := not_mem_of_nodup_middle (hsplit ▸ hnodup)
      have hmem : curr ∈ msg :: rest := hget ▸ List.getElem_mem hlt
      have hchain : Chain w.next w.freeList ((msg :: rest).take g ++ curr :: rest.drop g) := by
        rw [← hsplit]
        exact hfree
      have hcut := hchain.cut hcurr.1
      rw [hfront] at hcut
      refine ⟨trivial, ?_, fun side' => ?_, fun side' => ?_, fun side' => ?_⟩
      · simp only [hdrop]
        exact (hchain.tail.update hcurr.2).update fun hin => hmsg (List.mem_of_mem_drop hin)
      all_goals rcases side.eq_or_eq_other side' with rfl | rfl
      · simp only [Function.update_self, htake]
        exact hcut.2.update fun hin => hmsg (List.mem_of_mem_take hin)
      · simp only [Function.update_of_ne side.other_ne]
        refine ((h.cached side.other).update ?_).update ?_
        · exact hother curr hmem
        · exact hother msg List.mem_cons_self
      · simp only [Function.update_self, hnum, List.length_take]
        omega
      · simpa [side.other_ne] using h.count side.other
      · simp only [Function.update_self, List.length_take]
        omega
      · simpa [side.other_ne] using h.bound side.other

end Acquire

section Release

variable {w : TcpWorker} {L : PoolLayout} (side : Loop) {msg : ℕ}

/-- **Giving a node back refines the lists**, and no null pointer is read through. -/
theorem poolRelease_shape (h : PoolShape w L) (hone : ∀ i, L.freeCount i ≤ 1)
    (hmsg : L.freeCount msg = 0) :
    ∃ w', poolRelease side msg w = some w' ∧ PoolShape w' (L.release side msg) ∧ PoolFrame w w' ∧
      ∀ i, i ≠ msg → w'.msg i = w.msg i := by
  obtain ⟨-, hnodup, hapart, hother⟩ := L.nodup_of_freeCount hone side
  obtain ⟨hmfree, hmcached⟩ := L.not_mem_of_freeCount hmsg
  have hcount := h.count side
  have hframe : ∀ i, i ≠ msg →
      Function.update w.msg msg { w.msg msg with len := 0 } i = w.msg i :=
    fun i hi => Function.update_of_ne hi _ _
  by_cases hroom : (L.cached side).length < 64
  · simp only [poolRelease, PoolLayout.release, hcount, if_pos hroom]
    refine ⟨_, rfl, ⟨h.free.update hmfree, fun side' => ?_, fun side' => ?_, fun side' => ?_⟩,
      ⟨rfl, rfl, rfl⟩, hframe⟩
    all_goals rcases side.eq_or_eq_other side' with rfl | rfl
    · simp only [Function.update_self]
      exact (h.cached side').push (hmcached side')
    · simp only [Function.update_of_ne side.other_ne]
      exact (h.cached side.other).update (hmcached side.other)
    · simp only [Function.update_self, List.length_cons]
    · simpa [side.other_ne] using h.count side.other
    · simp only [Function.update_self, List.length_cons]
      omega
    · simpa [side.other_ne] using h.bound side.other
  · have hlen : (L.cached side).length = 64 := le_antisymm (h.bound side) (by omega)
    simp only [poolRelease, PoolLayout.release, hcount, if_neg hroom]
    have hcached := h.cached side
    have hmem := hmcached side
    generalize hl : L.cached side = l at hcached hnodup hlen hmem hapart hother
    -- the cache is cut behind its 32nd node
    have hlt : 31 < l.length := by omega
    have hsplit : l = l.take 31 ++ l[31] :: l.drop 32 := by
      conv_lhs => rw [← List.take_append_drop 31 l, List.drop_eq_getElem_cons hlt]
    have hfront : l.take 31 ++ [l[31]] = l.take 32 := (List.take_succ_eq_append_getElem hlt).symm
    have hin : l[31] ∈ l := List.getElem_mem hlt
    rw [hcached.walk, List.getElem?_eq_getElem hlt, Option.bind_some]
    generalize l[31] = tail at hsplit hfront hin
    have hmt : msg ≠ tail := fun heq => hmem (heq ▸ hin)
    rw [hsplit] at hcached
    obtain ⟨htf, htb⟩ := not_mem_of_nodup_middle (hsplit ▸ hnodup)
    have hmb : msg ∉ l.drop 32 := fun hmb => hmem (List.mem_of_mem_drop hmb)
    have hback := (hcached.tail.update (q := none) htb).push hmb
    -- and its rest is put in front of the shared list, behind the released node
    obtain ⟨pre, last, hends, hlast⟩ := hback.lastCell
      (show (l.drop 32).length < tcpWorkerPoolSize by
        rw [List.length_drop, hlen]; decide)
    simp only [hlast, Option.bind_some]
    have hlastin : last ∈ msg :: l.drop 32 := by rw [hends]; simp
    have hlastfree : last ∉ L.free := by
      rcases List.mem_cons.1 hlastin with rfl | hd
      · exact hmfree
      · exact fun hf => hapart last hf (List.mem_of_mem_drop hd)
    have hlastfront : last ∉ l.take 32 := by
      rcases List.mem_cons.1 hlastin with rfl | hd
      · exact fun hf => hmem (List.mem_of_mem_take hf)
      · intro hf
        have hdis := List.disjoint_of_nodup_append
          ((List.take_append_drop 32 l).symm ▸ hnodup : (l.take 32 ++ l.drop 32).Nodup)
        exact hdis hf hd
    have hpre : last ∉ pre := by
      have hnd : (msg :: l.drop 32).Nodup :=
        List.nodup_cons.2 ⟨hmb, hnodup.sublist (List.drop_sublist 32 l)⟩
      rw [hends] at hnd
      exact (not_mem_of_nodup_middle hnd).1
    have htfree : tail ∉ L.free := fun hf => hapart tail hf hin
    refine ⟨_, rfl, ⟨?_, fun side' => ?_, fun side' => ?_, fun side' => ?_⟩, ⟨rfl, rfl, rfl⟩,
      hframe⟩
    · have hjoin := (hends ▸ hback).splice hpre ((h.free.update (q := none) htfree).update
        (q := w.next tail) hmfree) hlastfree
      rw [← List.cons_append, hends, List.append_assoc]
      exact hjoin
    all_goals rcases side.eq_or_eq_other side' with rfl | rfl
    · simp only [Function.update_self]
      have hcut := hcached.cut htf
      rw [hfront] at hcut
      exact (hcut.update fun hf => hmem (List.mem_of_mem_take hf)).update hlastfront
    · simp only [Function.update_of_ne side.other_ne]
      refine (((h.cached side.other).update (hother tail hin)).update
        (hmcached side.other)).update ?_
      rcases List.mem_cons.1 hlastin with rfl | hd
      · exact hmcached side.other
      · exact hother last (List.mem_of_mem_drop hd)
    · simp [hlen]
    · simpa [side.other_ne] using h.count side.other
    · simp [hlen]
    · simpa [side.other_ne] using h.bound side.other

end Release

section Conserve

variable (side : Loop) (L : PoolLayout) (i : ℕ)

/-- A node that is taken leaves the free lists; no other one does. -/
theorem PoolLayout.freeCount_acquire :
    (L.acquire side).2.freeCount i + (L.acquire side).1.toList.count i = L.freeCount i := by
  rw [(L.acquire side).2.freeCount_eq side, L.freeCount_eq side]
  unfold PoolLayout.acquire
  split
  next msg rest hl => simp [hl, side.other_ne, List.count_cons]; omega
  next hl hf => simp
  next msg rest hl hf =>
    have hparts := congrArg (List.count i) (List.take_append_drop 31 rest)
    rw [List.count_append] at hparts
    simp [hl, hf, side.other_ne, List.count_cons]
    omega

/-- A node that is given back enters the free lists; no other one does. -/
theorem PoolLayout.freeCount_release (msg : ℕ) :
    (L.release side msg).freeCount i = L.freeCount i + [msg].count i := by
  rw [(L.release side msg).freeCount_eq side, L.freeCount_eq side]
  unfold PoolLayout.release
  split_ifs
  · simp [side.other_ne, List.count_cons]
    omega
  · have hparts := congrArg (List.count i) (List.take_append_drop 32 (L.cached side))
    rw [List.count_append] at hparts
    simp [side.other_ne, List.count_cons]
    omega

theorem PoolLayout.queued_acquire : (L.acquire side).2.queued = L.queued := by
  unfold PoolLayout.acquire
  split <;> rfl

theorem PoolLayout.queued_release (msg : ℕ) : (L.release side msg).queued = L.queued := by
  unfold PoolLayout.release
  split_ifs <;> rfl

end Conserve

/-! ### The rings -/

/-- The ring holds the nodes of `l`, the oldest first. -/
structure RingShape (ring : PacketRing) (l : List ℕ) : Prop where
  window : Ring.window ring.slots tcpWorkerQueueCap ring.head ring.len = l.map some
  head : ring.head < tcpWorkerQueueCap
  bound : l.length ≤ tcpWorkerQueueCap

section Rings

variable {ring : PacketRing} {l : List ℕ}

theorem RingShape.len (h : RingShape ring l) : ring.len = l.length := by
  simpa using congrArg List.length h.window

theorem and_queueCap_sub_one (n : ℕ) : n &&& (tcpWorkerQueueCap - 1) = n % tcpWorkerQueueCap :=
  Nat.and_two_pow_sub_one_eq_mod n 13

theorem ringPush_full (h : RingShape ring l) (hfull : l.length = tcpWorkerQueueCap) (msg : ℕ) :
    (ringPush msg ring).1 = none ∧ RingShape (ringPush msg ring).2 l := by
  unfold ringPush
  rw [if_pos (h.len.trans hfull)]
  exact ⟨rfl, h.window, h.head, h.bound⟩

theorem ringPush_shape (h : RingShape ring l) (hroom : l.length ≠ tcpWorkerQueueCap) (msg : ℕ) :
    (ringPush msg ring).1 = some l.isEmpty ∧ RingShape (ringPush msg ring).2 (l ++ [msg]) := by
  have hbound := h.bound
  have hlt : ring.len < tcpWorkerQueueCap := by
    rw [h.len]
    omega
  unfold ringPush
  rw [if_neg hlt.ne]
  refine ⟨?_, ?_, h.head, ?_⟩
  · rw [h.len]
    cases l <;> rfl
  · simp only [and_queueCap_sub_one]
    rw [Ring.window_push _ hlt, h.window, List.map_append]
    rfl
  · rw [List.length_append, List.length_singleton]
    omega

theorem ringPop_nil (h : RingShape ring []) : ringPop ring = (none, ring) := by
  have hlen : ring.len = 0 := h.len
  unfold ringPop
  rw [if_pos hlen]

theorem ringPop_cons {msg : ℕ} (h : RingShape ring (msg :: l)) :
    (ringPop ring).1 = some msg ∧ RingShape (ringPop ring).2 l := by
  have hlen : ring.len = l.length + 1 := h.len
  have hbound := h.bound
  have hwindow := h.window
  rw [List.length_cons] at hbound
  rw [hlen, Ring.window_cons, List.map_cons, List.cons.injEq, Nat.mod_eq_of_lt h.head] at hwindow
  unfold ringPop
  rw [if_neg (by omega)]
  refine ⟨hwindow.1, ?_, Nat.lt_of_le_of_lt Nat.and_le_right (by decide), by omega⟩
  simp only [and_queueCap_sub_one, hlen, Nat.add_sub_cancel]
  rw [← hwindow.2]
  -- the slot that is cleared is not one of those left
  refine Ring.window_congr fun i hi => Function.update_of_ne (fun heq => ?_) _ _
  rw [Nat.mod_add_mod, Nat.add_assoc] at heq
  have hzero := @Ring.slot_inj tcpWorkerQueueCap ring.head (1 + i) 0 (by omega) (by decide)
    (by rw [heq, Nat.add_zero, Nat.mod_eq_of_lt h.head])
  omega

/-- A batch is the front of the ring. -/
theorem popBatch_shape (k : ℕ) (h : RingShape ring l) :
    (popBatch k ring).1 = l.take k ∧ RingShape (popBatch k ring).2 (l.drop k) := by
  induction k generalizing ring l with
  | zero => exact ⟨by simp [popBatch], h⟩
  | succ k ih =>
    cases l with
    | nil =>
      rw [popBatch, ringPop_nil h]
      exact ⟨by simp, h⟩
    | cons msg l =>
      obtain ⟨hmsg, hshape⟩ := ringPop_cons h
      obtain ⟨hbatch, hrest⟩ := ih hshape
      have hpop : ringPop ring = (some msg, (ringPop ring).2) := Prod.ext hmsg rfl
      rw [popBatch, hpop]
      exact ⟨congrArg (msg :: ·) hbatch, hrest⟩

theorem ringHasItems_eq (h : RingShape ring l) : ringHasItems ring = !l.isEmpty := by
  rw [ringHasItems, h.len]
  cases l <;> rfl

end Rings

end Wgx
