import Wgx.Worker.Pool

/-!
# One step of the two loops

`PairInv` is what every interleaving of the two loops keeps: a layout of the pool in which every
node is in exactly one place, the packets of each direction in the order in which they were
accepted, and somebody who looks after every ring that is not empty.  Each part of an enqueue
function or of a callback keeps it, and so does every run (`pairInv_run`).
-/

namespace Wgx

/-! ### What a thread holds and owes -/

/-- The node an enqueue function holds. -/
def Enqueue.held : Enqueue → List ℕ
  | .holding msg _ | .refused msg => [msg]
  | .returned | .signalling => []

/-- The nodes of the batch. -/
def Drain.held : Drain → List ℕ
  | .working _ _ _ _ batch => batch
  | _ => []

/-- The nodes of the batch whose packets have not been handed on. -/
def Drain.todo : Drain → List ℕ
  | .working _ _ _ inCall batch => if inCall then batch.tail else batch
  | _ => []

/-- The callback pops again, or signals its own loop, before it returns. -/
def Drain.serves : Drain → Bool
  | .idle | .halted => false
  | .popping _ => true
  | .working processed n more _ _ => decide (processed + n < tcpWorkerBatchLimit) || more
  | .returning more => more

def Thread.held (t : Thread) : List ℕ := t.enqueue.held ++ t.drain.held

/-- The packets that were put into the ring of `side`, the oldest first. -/
def acceptedPackets (side : Loop) (trace : List QueueEntry) : List (List Byte) :=
  trace.filterMap fun
    | .accepted side' pkt => if side' = side then some pkt else none
    | _ => none

/-- The packets of the ring of `side` that were handed on, the oldest first. -/
def processedPackets (side : Loop) (trace : List QueueEntry) : List (List Byte) :=
  trace.filterMap fun
    | .processed side' pkt => if side' = side then some pkt else none
    | _ => none

namespace WorkerPair

variable (s : WorkerPair) (side side' : Loop)

/-- How often the threads hold a node. -/
def heldCount (i : ℕ) : ℕ :=
  (s.thread .main).held.count i + (s.thread .worker).held.count i

theorem heldCount_eq (i : ℕ) :
    s.heldCount i = (s.thread side).held.count i + (s.thread side.other).held.count i := by
  cases side
  · rfl
  · exact Nat.add_comm _ _

@[simp] theorem thread_setEnqueue_self (e : Enqueue) :
    (s.setEnqueue side e).thread side = { s.thread side with enqueue := e } :=
  Function.update_self ..

@[simp] theorem thread_setEnqueue_other (e : Enqueue) :
    (s.setEnqueue side e).thread side.other = s.thread side.other :=
  Function.update_of_ne side.other_ne _ _

@[simp] theorem thread_setDrain_self (d : Drain) :
    (s.setDrain side d).thread side = { s.thread side with drain := d } :=
  Function.update_self ..

@[simp] theorem thread_setDrain_other (d : Drain) :
    (s.setDrain side d).thread side.other = s.thread side.other :=
  Function.update_of_ne side.other_ne _ _

@[simp] theorem drain_setEnqueue (e : Enqueue) :
    ((s.setEnqueue side e).thread side').drain = (s.thread side').drain := by
  rcases side.eq_or_eq_other side' with rfl | rfl <;> simp

@[simp] theorem enqueue_setDrain (d : Drain) :
    ((s.setDrain side d).thread side').enqueue = (s.thread side').enqueue := by
  rcases side.eq_or_eq_other side' with rfl | rfl <;> simp

@[simp] theorem worker_setEnqueue (e : Enqueue) : (s.setEnqueue side e).worker = s.worker := rfl
@[simp] theorem worker_setDrain (d : Drain) : (s.setDrain side d).worker = s.worker := rfl
@[simp] theorem worker_log (entry : QueueEntry) : (s.log entry).worker = s.worker := rfl
@[simp] theorem trace_setEnqueue (e : Enqueue) : (s.setEnqueue side e).trace = s.trace := rfl
@[simp] theorem trace_setDrain (d : Drain) : (s.setDrain side d).trace = s.trace := rfl
@[simp] theorem trace_setRing (r : PacketRing) : (s.setRing side r).trace = s.trace := rfl
@[simp] theorem trace_setAsync (b : Bool) : (s.setAsync side b).trace = s.trace := rfl
@[simp] theorem trace_fill (msg : ℕ) (pkt : List Byte) : (s.fill msg pkt).trace = s.trace := rfl
@[simp] theorem trace_log (entry : QueueEntry) : (s.log entry).trace = s.trace ++ [entry] := rfl
@[simp] theorem thread_log (entry : QueueEntry) : (s.log entry).thread = s.thread := rfl
@[simp] theorem thread_setRing (r : PacketRing) : (s.setRing side r).thread = s.thread := rfl
@[simp] theorem thread_setAsync (b : Bool) : (s.setAsync side b).thread = s.thread := rfl
@[simp] theorem thread_fill (msg : ℕ) (pkt : List Byte) : (s.fill msg pkt).thread = s.thread := rfl

@[simp] theorem async_setAsync_self (b : Bool) : (s.setAsync side b).worker.async side = b :=
  Function.update_self ..

@[simp] theorem async_setAsync_other (b : Bool) :
    (s.setAsync side b).worker.async side.other = s.worker.async side.other :=
  Function.update_of_ne side.other_ne _ _

end WorkerPair

/-! ### The invariant -/

/-- How often a node stands in the rings. -/
def PoolLayout.queuedCount (L : PoolLayout) (i : ℕ) : ℕ :=
  (L.queued .main).count i + (L.queued .worker).count i

theorem PoolLayout.queuedCount_eq (L : PoolLayout) (side : Loop) (i : ℕ) :
    L.queuedCount i = (L.queued side).count i + (L.queued side.other).count i := by
  cases side
  · rfl
  · exact Nat.add_comm _ _

/-- Every node of the pool is in exactly one place. -/
def Partitioned (s : WorkerPair) (L : PoolLayout) : Prop :=
  ∀ i, L.freeCount i + L.queuedCount i + s.heldCount i = if i < tcpWorkerPoolSize then 1 else 0

/-- The packets accepted for a ring have been handed on, or stand in the batch or the ring. -/
def InOrder (s : WorkerPair) (L : PoolLayout) (side : Loop) : Prop :=
  acceptedPackets side s.trace = processedPackets side s.trace ++
    ((s.thread side).drain.todo ++ L.queued side).map fun i => (s.worker.msg i).packet

/-- A ring that is not empty is looked after: its loop is signalled, the producer is about to signal
it, or its callback comes back to it. -/
def Served (s : WorkerPair) (L : PoolLayout) (side : Loop) : Prop :=
  L.queued side ≠ [] → s.worker.async side = true ∨
    (s.thread side.other).enqueue = .signalling ∨ (s.thread side).drain.serves = true

/-- What every interleaving keeps. -/
structure PairInv (s : WorkerPair) (L : PoolLayout) : Prop where
  pool : PoolShape s.worker L
  rings : ∀ side, RingShape (s.worker.ring side) (L.queued side)
  parts : Partitioned s L
  fault : s.fault = false
  order : ∀ side, InOrder s L side
  copied : ∀ side msg pkt, (s.thread side).enqueue = .holding msg pkt →
    (s.worker.msg msg).packet = pkt
  served : ∀ side, Served s L side

section Parts

variable {s s' : WorkerPair} {L L' : PoolLayout}

theorem Partitioned.le_one (h : Partitioned s L) (i : ℕ) :
    L.freeCount i + L.queuedCount i + s.heldCount i ≤ 1 := by
  rw [h i]
  split_ifs <;> omega

/-- What one thread and the lists exchange leaves the partition. -/
theorem Partitioned.exchange (h : Partitioned s L) (side : Loop)
    (hother : s'.thread side.other = s.thread side.other)
    (hsum : ∀ i, L'.freeCount i + L'.queuedCount i + (s'.thread side).held.count i =
      L.freeCount i + L.queuedCount i + (s.thread side).held.count i) : Partitioned s' L' := by
  intro i
  have hold := h i
  have := hsum i
  rw [s.heldCount_eq side] at hold
  rw [s'.heldCount_eq side, hother]
  omega

theorem Drain.count_todo_le (d : Drain) (i : ℕ) : d.todo.count i ≤ d.held.count i := by
  cases d with
  | working processed n more inCall batch =>
    cases inCall with
    | false => exact le_rfl
    | true => exact (List.tail_sublist batch).count_le i
  | _ => exact le_rfl

theorem Thread.count_held (t : Thread) (i : ℕ) :
    t.held.count i = t.enqueue.held.count i + t.drain.held.count i := List.count_append

/-- A node that is free, or that an enqueue function holds, is in no batch and in no ring. -/
theorem Partitioned.not_mem_of_free (h : Partitioned s L) {msg : ℕ} {side : Loop}
    (hmsg : 0 < L.freeCount msg + (s.thread side).enqueue.held.count msg) (side' : Loop) :
    msg ∉ (s.thread side').drain.todo ++ L.queued side' := by
  rw [← List.count_eq_zero, List.count_append]
  have hone := h.le_one msg
  have htodo := (s.thread side').drain.count_todo_le msg
  simp only [PoolLayout.queuedCount, WorkerPair.heldCount, Thread.count_held] at hone
  cases side <;> cases side' <;> omega

end Parts

section Frame

variable {s s' : WorkerPair} {L L' : PoolLayout} {side : Loop}

theorem InOrder.congr (h : InOrder s L side)
    (hacc : acceptedPackets side s'.trace = acceptedPackets side s.trace)
    (hproc : processedPackets side s'.trace = processedPackets side s.trace)
    (hnodes : (s'.thread side).drain.todo ++ L'.queued side =
      (s.thread side).drain.todo ++ L.queued side)
    (hmsg : ∀ i ∈ (s.thread side).drain.todo ++ L.queued side, s'.worker.msg i = s.worker.msg i) :
    InOrder s' L' side := by
  rw [InOrder, hacc, hproc, hnodes, h]
  congr 1
  refine List.map_congr_left fun i hi => ?_
  rw [hmsg i hi]

theorem Thread.waiting_eq {t : Thread} (h : t.waiting = true) :
    t.enqueue = .returned ∧ t.drain = .idle := by
  unfold Thread.waiting at h
  split at h
  next he hd => exact ⟨he, hd⟩
  next => cases h

theorem Thread.free_eq {t : Thread} (h : t.free = true) : t.enqueue = .returned := by
  unfold Thread.free at h
  split at h
  next he => exact he
  next => cases h

end Frame

/-! ### One step -/

section Steps

variable {s : WorkerPair} {L : PoolLayout} (side : Loop)

theorem pairInv_wake (h : PairInv s L) (hwait : (s.thread side).waiting = true) :
    PairInv ((s.setAsync side false).setDrain side (.popping 0)) L := by
  obtain ⟨henq, hdrain⟩ := Thread.waiting_eq hwait
  refine ⟨⟨h.pool.free, h.pool.cached, h.pool.count, h.pool.bound⟩, h.rings,
    h.parts.exchange side (by simp) fun i => ?_, h.fault, fun side' => ?_, fun side' m p hm => ?_,
    fun side' => ?_⟩
  · simp [Thread.count_held, hdrain, Drain.held]
  · refine (h.order side').congr rfl rfl ?_ fun _ _ => rfl
    rcases side.eq_or_eq_other side' with rfl | rfl
    · simp [hdrain, Drain.todo]
    · simp
  · exact h.copied side' m p (by simpa using hm)
  · rcases side.eq_or_eq_other side' with rfl | rfl
    · exact fun _ => Or.inr (Or.inr (by simp [Drain.serves]))
    · intro hne
      simpa using h.served side.other hne

theorem pairInv_stop (h : PairInv s L) :
    PairInv ({ s with worker := { s.worker with stopRequested := true } }.setAsync .worker true)
      L := by
  refine ⟨⟨h.pool.free, h.pool.cached, h.pool.count, h.pool.bound⟩, h.rings, h.parts, h.fault,
    h.order, h.copied, fun side' => ?_⟩
  cases side' with
  | main => exact h.served .main
  | worker => exact fun _ => Or.inl rfl

/-- Taking a node and filling it touches nothing that is queued. -/
theorem pairInv_enqueue (h : PairInv s L) (hfree : (s.thread side).free = true) (pkt : List Byte) :
    ∃ L', PairInv (enqueue side pkt s) L' := by
  have henq := Thread.free_eq hfree
  have hone : ∀ i, L.freeCount i ≤ 1 := fun i => by
    have := h.parts.le_one i
    omega
  unfold enqueue
  split_ifs with hlen
  · exact ⟨L, h⟩
  obtain ⟨hres, hshape⟩ := poolAcquire_shape side h.pool hone
  obtain ⟨hframe, hmsg⟩ := @poolAcquire_frame s.worker side
  have hcount := fun i => L.freeCount_acquire side i
  have hqueued := L.queued_acquire side
  refine ⟨(L.acquire side).2, ?_⟩
  generalize L.acquire side = a at hres hshape hcount hqueued
  obtain ⟨r, L'⟩ := a
  generalize poolAcquire side s.worker = b at hres hshape hframe hmsg
  obtain ⟨r', w⟩ := b
  simp only at hres hshape hframe hmsg hcount hqueued
  subst hres
  have hqcount : ∀ i, L'.queuedCount i = L.queuedCount i := fun i => by
    simp only [PoolLayout.queuedCount, hqueued]
  cases r' with
  | none =>
    refine ⟨hshape, fun side' => ?_, fun i => ?_, h.fault, fun side' => ?_, fun side' m p hm => ?_,
      fun side' => ?_⟩
    · rw [hframe.ring, hqueued]
      exact h.rings side'
    · have hold := h.parts i
      have hnew := hcount i
      rw [Option.toList_none, List.count_nil, Nat.add_zero] at hnew
      rw [hqcount, hnew]
      exact hold
    · refine (h.order side').congr rfl rfl ?_ fun i _ => congrFun hmsg i
      rw [hqueued]
    · simp only [hmsg]
      exact h.copied side' m p hm
    · intro hne
      rw [hqueued] at hne
      simpa [hframe.async] using h.served side' hne
  | some msg =>
    have hpos : 0 < L.freeCount msg := by
      have hnew := hcount msg
      simp at hnew
      omega
    have hspare := fun side' => @Partitioned.not_mem_of_free _ _ h.parts msg side
      (Nat.lt_of_lt_of_le hpos (Nat.le_add_right _ _)) side'
    refine ⟨⟨hshape.free, hshape.cached, hshape.count, hshape.bound⟩, fun side' => ?_,
      h.parts.exchange side (by simp) fun i => ?_, h.fault, fun side' => ?_,
      fun side' m p hm => ?_, fun side' => ?_⟩
    · rw [hqueued]
      exact hframe.ring ▸ h.rings side'
    · have hnew := hcount i
      rw [Option.toList_some] at hnew
      simp only [WorkerPair.thread_setEnqueue_self, WorkerPair.thread_fill, Thread.count_held,
        Enqueue.held, henq, hqcount, List.count_nil]
      omega
    · refine (h.order side').congr rfl rfl ?_ fun i hi => ?_
      · rw [hqueued]
        simp
      · have hne : i ≠ msg := fun heq => hspare side' (heq ▸ hi)
        show Function.update w.msg msg _ i = _
        rw [Function.update_of_ne hne, hmsg]
    · rcases side.eq_or_eq_other side' with rfl | rfl
      · rw [WorkerPair.thread_setEnqueue_self] at hm
        cases hm
        show PacketMsg.packet (Function.update w.msg msg _ msg) = pkt
        rw [Function.update_self]
        exact Ring.slice_blit _ 0 pkt
      · rw [WorkerPair.thread_setEnqueue_other] at hm
        have hne : m ≠ msg := by
          rintro rfl
          have hle := h.parts.le_one m
          rw [s.heldCount_eq side.other, Thread.count_held,
            show (s.thread side.other).enqueue = .holding m p from hm] at hle
          simp [Enqueue.held] at hle
          omega
        show PacketMsg.packet (Function.update w.msg msg _ m) = p
        rw [Function.update_of_ne hne, hmsg]
        exact h.copied side.other m p hm
    · intro hne
      rw [hqueued] at hne
      have hold := h.served side' hne
      rcases side.eq_or_eq_other side' with rfl | rfl
      · simpa [hframe.async, WorkerPair.fill] using hold
      · simpa [hframe.async, WorkerPair.fill, henq] using hold

theorem acceptedPackets_append (trace new : List QueueEntry) :
    acceptedPackets side (trace ++ new) =
      acceptedPackets side trace ++ acceptedPackets side new := List.filterMap_append

theorem processedPackets_append (trace new : List QueueEntry) :
    processedPackets side (trace ++ new) =
      processedPackets side trace ++ processedPackets side new := List.filterMap_append

/-- `ring_push` moves the node from the thread to the ring, and remembers to signal an empty one. -/
theorem pairInv_push (h : PairInv s L) {msg : ℕ} {pkt : List Byte}
    (henq : (s.thread side).enqueue = .holding msg pkt) :
    ∃ L', PairInv (advanceEnqueue side s) L' := by
  have hring := h.rings side.other
  unfold advanceEnqueue
  simp only [henq]
  by_cases hfull : (L.queued side.other).length = tcpWorkerQueueCap
  · obtain ⟨hres, hshape⟩ := ringPush_full hring hfull msg
    generalize ringPush msg (s.worker.ring side.other) = r at hres hshape
    obtain ⟨r, ring⟩ := r
    simp only at hres hshape
    subst hres
    refine ⟨L, ⟨h.pool.free, h.pool.cached, h.pool.count, h.pool.bound⟩, fun side' => ?_,
      h.parts.exchange side (by simp) fun i => ?_, h.fault, fun side' => ?_,
      fun side' m p hm => ?_, fun side' => ?_⟩
    · rcases side.eq_or_eq_other side' with rfl | rfl
      · simpa [WorkerPair.setRing, side'.other_ne.symm] using h.rings side'
      · simpa [WorkerPair.setRing] using hshape
    · simp [Thread.count_held, henq, Enqueue.held]
    · exact (h.order side').congr rfl rfl (by simp) fun _ _ => rfl
    · refine h.copied side' m p ?_
      rcases side.eq_or_eq_other side' with rfl | rfl
      · simp at hm
      · simpa using hm
    · intro hne
      have hold := h.served side' hne
      rcases side.eq_or_eq_other side' with rfl | rfl
      · simpa [WorkerPair.setRing] using hold
      · simpa [WorkerPair.setRing, henq] using hold
  · obtain ⟨hres, hshape⟩ := ringPush_shape hring hfull msg
    generalize ringPush msg (s.worker.ring side.other) = r at hres hshape
    obtain ⟨r, ring⟩ := r
    simp only at hres hshape
    subst hres
    refine ⟨{ L with queued := Function.update L.queued side.other (L.queued side.other ++ [msg]) },
      ⟨h.pool.free, h.pool.cached, h.pool.count, h.pool.bound⟩, fun side' => ?_,
      h.parts.exchange side (by simp) fun i => ?_, h.fault, fun side' => ?_,
      fun side' m p hm => ?_, fun side' => ?_⟩
    · rcases side.eq_or_eq_other side' with rfl | rfl
      · simpa [WorkerPair.setRing, side'.other_ne.symm] using h.rings side'
      · simpa [WorkerPair.setRing] using hshape
    · have hnone : (if (L.queued side.other).isEmpty then Enqueue.signalling
          else Enqueue.returned).held = [] := by split_ifs <;> rfl
      have hold : (Enqueue.holding msg pkt).held = [msg] := rfl
      rw [PoolLayout.queuedCount_eq _ side, PoolLayout.queuedCount_eq L side]
      simp only [PoolLayout.freeCount, Function.update_self,
        Function.update_of_ne side.other_ne.symm, List.count_append,
        WorkerPair.thread_setEnqueue_self, WorkerPair.thread_log, WorkerPair.thread_setRing,
        Thread.count_held, henq, hnone, hold, List.count_nil]
      omega
    · rcases side.eq_or_eq_other side' with rfl | rfl
      · refine (h.order side').congr ?_ ?_ ?_ fun _ _ => rfl
        · simp [acceptedPackets, side'.other_ne]
        · simp [processedPackets]
        · simp [side'.other_ne.symm]
      · -- the copy in the node is the packet that was passed in
        have hold := h.order side.other
        have hcopy := h.copied side msg pkt henq
        rw [InOrder] at hold ⊢
        simp only [WorkerPair.trace_setEnqueue, WorkerPair.trace_log, WorkerPair.trace_setRing,
          acceptedPackets_append, processedPackets_append, WorkerPair.thread_setEnqueue_other,
          WorkerPair.thread_log, WorkerPair.thread_setRing, Function.update_self]
        rw [hold, ← List.append_assoc ((s.thread side.other).drain.todo), List.map_append,
          List.map_append, List.map_append]
        simp [acceptedPackets, processedPackets, WorkerPair.setRing, hcopy]
    · refine h.copied side' m p ?_
      rcases side.eq_or_eq_other side' with rfl | rfl
      · simp only [WorkerPair.thread_setEnqueue_self] at hm
        split_ifs at hm
      · simpa using hm
    · rcases side.eq_or_eq_other side' with rfl | rfl
      · intro hne
        simpa [WorkerPair.setRing] using
          h.served side' (by simpa [side'.other_ne.symm] using hne)
      · intro _
        simp only [Loop.other_other, WorkerPair.thread_setEnqueue_self]
        cases hq : L.queued side.other with
        | nil => exact Or.inr (Or.inl rfl)
        | cons a l =>
          have hold := h.served side.other (by rw [hq]; exact List.cons_ne_nil a l)
          simpa [WorkerPair.setRing, henq] using hold

theorem pairInv_signal (h : PairInv s L) (henq : (s.thread side).enqueue = .signalling) :
    PairInv ((s.setAsync side.other true).setEnqueue side .returned) L := by
  refine ⟨⟨h.pool.free, h.pool.cached, h.pool.count, h.pool.bound⟩, h.rings,
    h.parts.exchange side (by simp) fun i => ?_, h.fault, fun side' => ?_,
    fun side' m p hm => ?_, fun side' hne => ?_⟩
  · simp [Thread.count_held, henq, Enqueue.held]
  · exact (h.order side').congr rfl rfl (by simp) fun _ _ => rfl
  · refine h.copied side' m p ?_
    rcases side.eq_or_eq_other side' with rfl | rfl
    · simp at hm
    · simpa using hm
  · rcases side.eq_or_eq_other side' with rfl | rfl
    · have hold := h.served side' hne
      have hasync := @WorkerPair.async_setAsync_other s side'.other true
      rw [Loop.other_other] at hasync
      simpa [hasync] using hold
    · exact Or.inl (by simp)

/-- A node that the thread holds and nobody waits for can be released. -/
theorem pairInv_release (h : PairInv s L) {msg : ℕ} (t : Thread)
    (hheld : ∀ i, t.held.count i + [msg].count i = (s.thread side).held.count i)
    (hspare : ∀ side', msg ∉ (s.thread side').drain.todo ++ L.queued side')
    (htodo : t.drain.todo = (s.thread side).drain.todo)
    (hcopied : ∀ m p, t.enqueue = .holding m p → (s.thread side).enqueue = .holding m p)
    (hsignal : (s.thread side).enqueue = .signalling → t.enqueue = .signalling)
    (hserves : (s.thread side).drain.serves = true → t.drain.serves = true) :
    ∃ w, poolRelease side msg s.worker = some w ∧
      ∃ L', PairInv { s with worker := w, thread := Function.update s.thread side t } L' := by
  have hone := h.parts.le_one
  have hmine : 0 < (s.thread side).held.count msg := by
    have := hheld msg
    simp at this
    omega
  have hmsg : L.freeCount msg = 0 := by
    have := hone msg
    rw [s.heldCount_eq side] at this
    omega
  obtain ⟨w, hrel, hshape, hframe, hother⟩ := poolRelease_shape side h.pool
    (fun i => by have := hone i; omega) hmsg
  have hqueued := L.queued_release side msg
  have hcount := fun i => L.freeCount_release side i msg
  refine ⟨w, hrel, L.release side msg, hshape, fun side' => ?_, ?_, h.fault, fun side' => ?_,
    fun side' m p hm => ?_, fun side' hne => ?_⟩
  · rw [hqueued, hframe.ring]
    exact h.rings side'
  · refine h.parts.exchange side (Function.update_of_ne side.other_ne _ _) fun i => ?_
    have := hheld i
    simp only [Function.update_self, PoolLayout.queuedCount, hqueued, hcount i]
    omega
  · refine (h.order side').congr rfl rfl ?_ fun i hi => ?_
    · rw [hqueued]
      rcases side.eq_or_eq_other side' with rfl | rfl
      · simp [htodo]
      · simp [side.other_ne]
    · exact hother i fun heq => hspare side' (heq ▸ hi)
  · -- a node that is held by an enqueue function is not the one released
    have hold : (s.thread side').enqueue = .holding m p := by
      rcases side.eq_or_eq_other side' with rfl | rfl
      · exact hcopied m p (by simpa using hm)
      · simpa [side.other_ne] using hm
    have hne : m ≠ msg := by
      rintro rfl
      have hle := hone m
      rw [s.heldCount_eq side] at hle
      rcases side.eq_or_eq_other side' with rfl | rfl
      · have htwo := hheld m
        rw [Thread.count_held, show t.enqueue = .holding m p by simpa using hm] at htwo
        simp [Enqueue.held] at htwo
        omega
      · rw [Thread.count_held (s.thread side.other), hold] at hle
        simp [Enqueue.held] at hle
        omega
    rw [hother m hne]
    exact h.copied side' m p hold
  · rw [hqueued] at hne
    have hold := h.served side' hne
    rw [← hframe.async] at hold
    rcases side.eq_or_eq_other side' with rfl | rfl
    · simp only [Function.update_self, Function.update_of_ne side'.other_ne]
      exact hold.imp_right (Or.imp_right hserves)
    · simp only [Loop.other_other, Function.update_self, Function.update_of_ne side.other_ne]
      rw [Loop.other_other] at hold
      exact hold.imp_right (Or.imp_left hsignal)

theorem pairInv_refused (h : PairInv s L) {msg : ℕ}
    (henq : (s.thread side).enqueue = .refused msg) :
    ∃ L', PairInv ((s.release side msg).setEnqueue side .returned) L' := by
  obtain ⟨w, hrel, L', hinv⟩ := @pairInv_release s L side h msg
    { s.thread side with enqueue := .returned }
    (fun i => by simp [Thread.count_held, henq, Enqueue.held, Nat.add_comm])
    (h.parts.not_mem_of_free (by rw [henq]; simp [Enqueue.held])) rfl nofun
    (by rw [henq]; nofun) id
  refine ⟨L', ?_⟩
  simp only [WorkerPair.release, hrel]
  exact hinv

theorem serves_afterBatch (processed n : ℕ) (more : Bool) :
    (afterBatch processed n more).serves =
      (decide (processed + n < tcpWorkerBatchLimit) || more) := by
  unfold afterBatch
  split_ifs with hlt
  · simp [Drain.serves, hlt]
  · simp [Drain.serves, hlt]

theorem held_afterBatch (processed n : ℕ) (more : Bool) :
    (afterBatch processed n more).held = [] := by
  unfold afterBatch
  split_ifs <;> rfl

theorem todo_afterBatch (processed n : ℕ) (more : Bool) :
    (afterBatch processed n more).todo = [] := by
  unfold afterBatch
  split_ifs <;> rfl

/-- A batch is popped under the lock together with the test for more. -/
theorem pairInv_pop (h : PairInv s L) {processed : ℕ}
    (hdrain : (s.thread side).drain = .popping processed) :
    ∃ L', PairInv (advanceDrain side s) L' := by
  obtain ⟨hbatch, hshape⟩ := popBatch_shape (tcpWorkerBatchLimit - processed) (h.rings side)
  have hmore := ringHasItems_eq hshape
  have hnone : (s.thread side).drain.held = [] ∧ (s.thread side).drain.todo = [] := by
    rw [hdrain]
    exact ⟨rfl, rfl⟩
  unfold advanceDrain
  simp only [hdrain]
  generalize hk : tcpWorkerBatchLimit - processed = k at hbatch hshape hmore
  generalize popBatch k (s.worker.ring side) = r at hbatch hshape hmore
  obtain ⟨batch, ring⟩ := r
  simp only at hbatch hshape hmore
  -- the drain that follows holds the batch, and comes back if anything is left
  generalize hd : (if batch.length = 0 then Drain.returning (ringHasItems ring)
    else Drain.working processed batch.length (ringHasItems ring) false batch) = d
  have hheld : d.held = batch ∧ d.todo = batch := by
    rw [← hd]
    split_ifs with hzero
    · rw [List.eq_nil_of_length_eq_zero hzero]
      exact ⟨rfl, rfl⟩
    · exact ⟨rfl, rfl⟩
  have hserves : (L.queued side).drop k ≠ [] → d.serves = true := by
    intro hne
    have hitems : ringHasItems ring = true := by
      rw [hmore]
      simpa using hne
    rw [← hd]
    split_ifs <;> simp [Drain.serves, hitems]
  refine ⟨{ L with queued := Function.update L.queued side ((L.queued side).drop k) },
    ⟨h.pool.free, h.pool.cached, h.pool.count, h.pool.bound⟩, fun side' => ?_,
    h.parts.exchange side (by simp) fun i => ?_, h.fault, fun side' => ?_,
    fun side' m p hm => h.copied side' m p (by simpa using hm), fun side' hne => ?_⟩
  · rcases side.eq_or_eq_other side' with rfl | rfl
    · simpa [WorkerPair.setRing] using hshape
    · simpa [WorkerPair.setRing, side.other_ne] using h.rings side.other
  · have hparts := congrArg (List.count i) (List.take_append_drop k (L.queued side))
    rw [List.count_append, ← hbatch] at hparts
    rw [PoolLayout.queuedCount_eq _ side, PoolLayout.queuedCount_eq L side]
    simp only [PoolLayout.freeCount, Function.update_self, Function.update_of_ne side.other_ne,
      WorkerPair.thread_setDrain_self, WorkerPair.thread_log, WorkerPair.thread_setRing,
      Thread.count_held, hnone.1, hheld.1, List.count_nil]
    omega
  · refine (h.order side').congr ?_ ?_ ?_ fun _ _ => rfl
    · simp [acceptedPackets]
    · simp [processedPackets]
    · rcases side.eq_or_eq_other side' with rfl | rfl
      · simp [hheld.2, hnone.2, hbatch]
      · simp [side.other_ne]
  · rcases side.eq_or_eq_other side' with rfl | rfl
    · refine Or.inr (Or.inr ?_)
      simpa using hserves (by simpa using hne)
    · have hold := h.served side.other (by simpa [side.other_ne] using hne)
      simpa [WorkerPair.setRing] using hold

/-- Handing the first packet of the batch on. -/
theorem pairInv_process (h : PairInv s L) {processed n msg : ℕ} {more : Bool} {batch : List ℕ}
    (hdrain : (s.thread side).drain = .working processed n more false (msg :: batch)) :
    PairInv ((s.log (.processed side (s.worker.msg msg).packet)).setDrain side
      (.working processed n more true (msg :: batch))) L := by
  refine ⟨h.pool, h.rings, h.parts.exchange side (by simp) fun i => ?_, h.fault, fun side' => ?_,
    fun side' m p hm => h.copied side' m p (by simpa using hm), fun side' hne => ?_⟩
  · simp [Thread.count_held, hdrain, Drain.held]
  · rcases side.eq_or_eq_other side' with rfl | rfl
    · have hold := h.order side'
      rw [InOrder, hdrain] at hold
      rw [InOrder]
      simp only [WorkerPair.trace_setDrain, WorkerPair.trace_log, acceptedPackets_append,
        processedPackets_append, WorkerPair.thread_setDrain_self, hold]
      simp [acceptedPackets, processedPackets, Drain.todo]
    · refine (h.order side.other).congr ?_ ?_ (by simp) fun _ _ => rfl
      · simp [acceptedPackets]
      · simp [processedPackets, side.other_ne.symm]
  · have hold := h.served side' hne
    rcases side.eq_or_eq_other side' with rfl | rfl
    · simpa [hdrain, Drain.serves] using hold
    · simpa using hold

/-- Releasing the node of a packet that has been handed on. -/
theorem pairInv_batch (h : PairInv s L) {processed n msg : ℕ} {more : Bool} {batch : List ℕ}
    (hdrain : (s.thread side).drain = .working processed n more true (msg :: batch)) :
    ∃ L', PairInv ((s.release side msg).setDrain side
      (if batch = [] then afterBatch processed n more
      else .working processed n more false batch)) L' := by
  generalize hd : (if batch = [] then afterBatch processed n more
    else Drain.working processed n more false batch) = d
  have hd' : d.held = batch ∧ d.todo = batch ∧
      d.serves = (decide (processed + n < tcpWorkerBatchLimit) || more) := by
    rw [← hd]
    split_ifs with hnil
    · rw [hnil]
      exact ⟨held_afterBatch .., todo_afterBatch .., serves_afterBatch ..⟩
    · exact ⟨rfl, rfl, rfl⟩
  have hold : (s.thread side).drain.held = msg :: batch ∧ (s.thread side).drain.todo = batch := by
    rw [hdrain]
    exact ⟨rfl, rfl⟩
  have hspare : ∀ side', msg ∉ (s.thread side').drain.todo ++ L.queued side' := by
    intro side'
    have hone := h.parts.le_one msg
    rw [← List.count_eq_zero, List.count_append]
    rw [s.heldCount_eq side, L.queuedCount_eq side, Thread.count_held, Thread.count_held, hold.1,
      List.count_cons_self] at hone
    rcases side.eq_or_eq_other side' with rfl | rfl
    · rw [hold.2]
      omega
    · have := (s.thread side.other).drain.count_todo_le msg
      omega
  obtain ⟨w, hrel, L', hinv⟩ := @pairInv_release s L side h msg { s.thread side with drain := d }
    (fun i => by
      simp only [Thread.count_held, hold.1, hd'.1, List.count_cons, List.count_nil]
      omega)
    hspare (hd'.2.1.trans hold.2.symm) (fun _ _ hm => hm) id
    (by rw [hdrain, hd'.2.2]; exact id)
  refine ⟨L', ?_⟩
  simp only [WorkerPair.release, hrel]
  exact hinv

/-- A step of the drain that neither pops, hands on nor releases. -/
theorem pairInv_goes_on (h : PairInv s L) (d : Drain) (new : List QueueEntry) (pending : Bool)
    (hacc : ∀ side', acceptedPackets side' new = [])
    (hproc : ∀ side', processedPackets side' new = [])
    (hheld : d.held = (s.thread side).drain.held) (htodo : d.todo = (s.thread side).drain.todo)
    (hserves : (s.thread side).drain.serves = true → pending = true ∨ d.serves = true)
    (hpending : s.worker.async side = true → pending = true) :
    PairInv (({ s with trace := s.trace ++ new }.setAsync side pending).setDrain side d) L := by
  refine ⟨⟨h.pool.free, h.pool.cached, h.pool.count, h.pool.bound⟩, h.rings,
    h.parts.exchange side (by simp) fun i => ?_, h.fault, fun side' => ?_,
    fun side' m p hm => h.copied side' m p (by simpa using hm), fun side' hne => ?_⟩
  · simp [Thread.count_held, hheld]
  · refine (h.order side').congr ?_ ?_ ?_ fun _ _ => rfl
    · simp [acceptedPackets_append, hacc]
    · simp [processedPackets_append, hproc]
    · rcases side.eq_or_eq_other side' with rfl | rfl
      · simp [htodo]
      · simp
  · have hold := h.served side' hne
    rcases side.eq_or_eq_other side' with rfl | rfl
    · rcases hold with hasync | hsignal | hserve
      · exact Or.inl (by simp [hpending hasync])
      · exact Or.inr (Or.inl (by simpa using hsignal))
      · rcases hserves hserve with hp | hs
        · exact Or.inl (by simp [hp])
        · exact Or.inr (Or.inr (by simpa using hs))
    · simpa using hold

theorem pairInv_advanceEnqueue (h : PairInv s L) : ∃ L', PairInv (advanceEnqueue side s) L' := by
  cases henq : (s.thread side).enqueue with
  | returned =>
    unfold advanceEnqueue
    simp only [henq]
    exact ⟨L, h⟩
  | holding msg pkt => exact pairInv_push side h henq
  | refused msg =>
    unfold advanceEnqueue
    simp only [henq]
    exact pairInv_refused side h henq
  | signalling =>
    unfold advanceEnqueue
    simp only [henq]
    exact ⟨L, pairInv_signal side h henq⟩

theorem pairInv_advanceDrain (h : PairInv s L) : ∃ L', PairInv (advanceDrain side s) L' := by
  have hsame : Function.update s.worker.async side (s.worker.async side) = s.worker.async :=
    Function.update_eq_self ..
  cases hdrain : (s.thread side).drain with
  | idle =>
    unfold advanceDrain
    simp only [hdrain]
    exact ⟨L, h⟩
  | halted =>
    unfold advanceDrain
    simp only [hdrain]
    exact ⟨L, h⟩
  | popping processed => exact pairInv_pop side h hdrain
  | working processed n more inCall batch =>
    cases batch with
    | nil =>
      have hstep := pairInv_goes_on side h (afterBatch processed n more) [] (s.worker.async side)
        (fun _ => rfl) (fun _ => rfl) (by rw [hdrain, held_afterBatch]; rfl)
        (by rw [hdrain, todo_afterBatch]; cases inCall <;> rfl)
        (by rw [hdrain, serves_afterBatch]; exact Or.inr) id
      unfold advanceDrain
      simp only [hdrain]
      rw [List.append_nil, WorkerPair.setAsync, hsame] at hstep
      exact ⟨L, hstep⟩
    | cons msg batch =>
      unfold advanceDrain
      simp only [hdrain]
      cases inCall with
      | false => exact ⟨L, pairInv_process side h hdrain⟩
      | true => exact pairInv_batch side h hdrain
  | returning more =>
    generalize hnext : (if side = .worker ∧ s.worker.stopRequested = true then Drain.halted
      else Drain.idle) = d
    have hd : d.held = [] ∧ d.todo = [] := by
      rw [← hnext]
      split_ifs <;> exact ⟨rfl, rfl⟩
    have hstep : ∀ new pending, (∀ side', acceptedPackets side' new = []) →
        (∀ side', processedPackets side' new = []) → (more = true → pending = true) →
        (s.worker.async side = true → pending = true) →
        PairInv (({ s with trace := s.trace ++ new }.setAsync side pending).setDrain side d) L :=
      fun new pending hacc hproc hmore hpending => pairInv_goes_on side h d new pending hacc hproc
        (by rw [hdrain, hd.1]; rfl) (by rw [hdrain, hd.2]; rfl)
        (by rw [hdrain]; exact fun hs => Or.inl (hmore hs)) hpending
    unfold advanceDrain
    simp only [hdrain]
    cases more with
    | false =>
      have hquiet := hstep [.returned side] (s.worker.async side) (fun _ => rfl) (fun _ => rfl)
        nofun id
      rw [WorkerPair.setAsync, hsame] at hquiet
      rw [← hnext] at hquiet
      exact ⟨L, hquiet⟩
    | true =>
      have hloud := hstep [.resignalled side, .returned side] true (fun _ => rfl) (fun _ => rfl)
        (fun _ => rfl) fun _ => rfl
      rw [← hnext] at hloud
      refine ⟨L, ?_⟩
      simpa [WorkerPair.setAsync, WorkerPair.log, WorkerPair.setDrain] using hloud

theorem pairInv_step (h : PairInv s L) (e : WorkerEvent) : ∃ L', PairInv (workerStep s e) L' := by
  cases e with
  | inbound pkt =>
    simp only [workerStep]
    split_ifs with hfree
    · exact pairInv_enqueue .main h hfree pkt
    · exact ⟨L, h⟩
  | outbound pkt =>
    simp only [workerStep]
    split_ifs with hfree
    · exact pairInv_enqueue .worker h hfree pkt
    · exact ⟨L, h⟩
  | advance side =>
    simp only [workerStep]
    split_ifs
    · exact pairInv_advanceDrain side h
    · exact pairInv_advanceEnqueue side h
  | wake side =>
    simp only [workerStep]
    split_ifs with hwake
    · rw [Bool.and_eq_true] at hwake
      exact ⟨L, pairInv_wake side h hwake.2⟩
    · exact ⟨L, h⟩
  | stop =>
    simp only [workerStep]
    split_ifs
    · exact ⟨L, pairInv_stop h⟩
    · exact ⟨L, h⟩

end Steps

/-! ### Whole runs -/

theorem poolSetup_succ (n : ℕ) (w : TcpWorker) :
    poolSetup (n + 1) w =
      { poolSetup n w with
        next := Function.update (poolSetup n w).next n (poolSetup n w).freeList
        freeList := some n } := by
  rw [poolSetup, List.range_succ, List.foldl_append]
  rfl

/-- The setup puts all nodes on the shared list and touches nothing else. -/
theorem poolSetup_spec (n : ℕ) :
    Linked.Chain (poolSetup n {}).next (poolSetup n {}).freeList (List.range n).reverse ∧
      PoolFrame {} (poolSetup n {}) ∧ (poolSetup n {}).cache = fun _ => {} := by
  induction n with
  | zero => exact ⟨rfl, ⟨rfl, rfl, rfl⟩, rfl⟩
  | succ n ih =>
    obtain ⟨hchain, hframe, hcache⟩ := ih
    rw [poolSetup_succ, List.range_succ, List.reverse_append]
    refine ⟨?_, ⟨hframe.ring, hframe.async, hframe.stopRequested⟩, hcache⟩
    exact hchain.push (by simp)

theorem poolSetup_freeList {n : ℕ} (hn : 0 < n) :
    ∃ msg, (poolSetup n {}).freeList = some msg := by
  obtain ⟨k, rfl⟩ := Nat.exists_eq_add_of_lt hn
  rw [Nat.zero_add, poolSetup_succ]
  exact ⟨k, rfl⟩

theorem count_range (n i : ℕ) : (List.range n).count i = if i < n then 1 else 0 := by
  split_ifs with hi
  · exact List.count_eq_one_of_mem List.nodup_range (List.mem_range.2 hi)
  · exact List.count_eq_zero.2 (by simpa using hi)

theorem pairInv_setup {n : ℕ} (hn : n = tcpWorkerPoolSize) :
    PairInv { worker := poolSetup n {} } ⟨(List.range n).reverse, fun _ => [], fun _ => []⟩ := by
  obtain ⟨hchain, hframe, hcache⟩ := poolSetup_spec n
  generalize poolSetup n {} = w at hchain hframe hcache
  refine ⟨⟨hchain, fun side => ?_, fun side => ?_, fun _ => Nat.zero_le _⟩, fun side => ?_,
    fun i => ?_, rfl, fun side => rfl, nofun, fun side hne => absurd rfl hne⟩
  · rw [hcache]
    rfl
  · rw [hcache]
    rfl
  · rw [hframe.ring]
    exact ⟨rfl, (show 0 < tcpWorkerQueueCap by decide), Nat.zero_le _⟩
  · simp only [PoolLayout.freeCount, PoolLayout.queuedCount, WorkerPair.heldCount,
      List.count_reverse, List.count_nil, Thread.held, Enqueue.held, Drain.held, List.append_nil,
      Nat.add_zero, ← hn]
    exact count_range n i

theorem pairInv_run (es : List WorkerEvent) : ∃ L, PairInv (workerRun es) L :=
  @Machine.run_induction' _ _ workerStep (fun s => ∃ L, PairInv s L)
    (fun _ e ⟨_, h⟩ => pairInv_step h e) _ ⟨_, pairInv_setup rfl⟩ es

end Wgx
