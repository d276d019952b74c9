import Wgx.Worker.Steps

/-!
# The worker's queues over whole runs

* `comesBack_of_serves`: a callback that has to come back to its ring does so before it returns.
* `pool_conservation`: every node is in one place, the counters are exact, and a node is missing
  only if there is none.
* `packet_delivery`: packets are processed once and in order, and no wake-up is lost.
-/

namespace Wgx

/-! ### Coming back to a ring -/

/-- Whether the callback is running. -/
def Drain.running : Drain → Bool
  | .idle | .halted => false
  | _ => true

/-- However the run goes on, the callback that runs on `side` pops or signals again before it
returns. -/
def ComesBack (side : Loop) (s : WorkerPair) : Prop :=
  ∀ es pre post, (Machine.run workerStep s es).trace = s.trace ++ (pre ++ .returned side :: post) →
    .popped side ∈ pre ∨ .resignalled side ∈ pre

/-- What a step adds to the trace while the callback of `side` has to come back. -/
def Returns (side : Loop) (new : List QueueEntry) (after : Drain) : Prop :=
  (∃ post, new = .resignalled side :: post) ∨
    .returned side ∉ new ∧ (.popped side ∈ new ∨ after.serves = true)

section Serving

variable {s : WorkerPair} {side : Loop}

theorem trace_release (msg : ℕ) :
    (s.release side msg).trace = s.trace ∧ (s.release side msg).thread = s.thread := by
  unfold WorkerPair.release
  split <;> exact ⟨rfl, rfl⟩

theorem trace_advanceEnqueue (side' : Loop) : ∃ new,
    (advanceEnqueue side' s).trace = s.trace ++ new ∧ (∀ side, .returned side ∉ new) ∧
      ∀ side, ((advanceEnqueue side' s).thread side).drain = (s.thread side).drain := by
  unfold advanceEnqueue
  split
  · exact ⟨[], by simp, by simp, fun _ => rfl⟩
  · split
    · exact ⟨[], by simp, by simp, by simp⟩
    · exact ⟨[_], rfl, by simp, by simp⟩
  · next msg _ => exact ⟨[], by simp [trace_release], by simp, by simp [trace_release]⟩
  · exact ⟨[], by simp, by simp, by simp⟩

theorem trace_enqueue (side' : Loop) (pkt : List Byte) : (enqueue side' pkt s).trace = s.trace ∧
    ∀ side, ((enqueue side' pkt s).thread side).drain = (s.thread side).drain := by
  unfold enqueue
  split_ifs
  · exact ⟨rfl, fun _ => rfl⟩
  · split
    · exact ⟨rfl, fun _ => rfl⟩
    · exact ⟨rfl, by simp⟩

theorem trace_advanceDrain (side' : Loop) : ∃ new, (advanceDrain side' s).trace = s.trace ++ new ∧
    ((s.thread side').drain.serves = true →
      Returns side' new ((advanceDrain side' s).thread side').drain) ∧
    ∀ entry ∈ new, entry ≠ .returned side'.other := by
  unfold advanceDrain
  have hne := side'.other_ne.symm
  split
  next hd => exact ⟨[], by simp, by rw [hd]; nofun, by simp⟩
  next hd => exact ⟨[], by simp, by rw [hd]; nofun, by simp⟩
  next hd => exact ⟨[.popped side'], rfl, fun _ => Or.inr ⟨by simp, Or.inl (by simp)⟩, by simp⟩
  next processed n more inCall hd =>
    refine ⟨[], by simp, fun hs => Or.inr ⟨by simp, Or.inr ?_⟩, by simp⟩
    rw [hd] at hs
    rw [WorkerPair.thread_setDrain_self, serves_afterBatch]
    exact hs
  next processed n more msg batch hd =>
    refine ⟨[_], rfl, fun hs => Or.inr ⟨by simp, Or.inr ?_⟩, by simp⟩
    rw [hd] at hs
    rw [WorkerPair.thread_setDrain_self]
    exact hs
  next processed n more msg batch hd =>
    refine ⟨[], by simp [trace_release], fun hs => Or.inr ⟨by simp, Or.inr ?_⟩, by simp⟩
    rw [hd] at hs
    simp only [WorkerPair.thread_setDrain_self]
    split_ifs
    · rw [serves_afterBatch]
      exact hs
    · exact hs
  next more hd =>
    cases more with
    | false => exact ⟨[.returned side'], rfl, by rw [hd]; nofun, by simp [hne]⟩
    | true =>
      refine ⟨[.resignalled side', .returned side'], by simp, fun _ => Or.inl ⟨_, rfl⟩, ?_⟩
      simp [hne]

/-- One step keeps the promise of a callback to come back. -/
theorem trace_workerStep (e : WorkerEvent) : ∃ new, (workerStep s e).trace = s.trace ++ new ∧
    ((s.thread side).drain.serves = true →
      Returns side new ((workerStep s e).thread side).drain) := by
  have hquiet : ∀ {s' : WorkerPair}, s'.trace = s.trace →
      (s'.thread side).drain = (s.thread side).drain → ∃ new, s'.trace = s.trace ++ new ∧
        ((s.thread side).drain.serves = true → Returns side new (s'.thread side).drain) :=
    fun htrace hdrain => ⟨[], by simp [htrace], fun hs => Or.inr ⟨by simp, Or.inr (hdrain ▸ hs)⟩⟩
  cases e with
  | inbound pkt =>
    simp only [workerStep]
    split_ifs
    · exact hquiet (trace_enqueue .main pkt).1 ((trace_enqueue .main pkt).2 side)
    · exact hquiet rfl rfl
  | outbound pkt =>
    simp only [workerStep]
    split_ifs
    · exact hquiet (trace_enqueue .worker pkt).1 ((trace_enqueue .worker pkt).2 side)
    · exact hquiet rfl rfl
  | advance side' =>
    simp only [workerStep]
    split_ifs
    · obtain ⟨new, htrace, hmine, hother⟩ := @trace_advanceDrain s side'
      refine ⟨new, htrace, ?_⟩
      rcases side'.eq_or_eq_other side with rfl | rfl
      · exact hmine
      · intro hs
        refine Or.inr ⟨fun hin => hother _ hin rfl, Or.inr ?_⟩
        -- the other thread's callback is not touched
        have hsame : (advanceDrain side' s).thread side'.other = s.thread side'.other := by
          unfold advanceDrain
          split <;> simp [trace_release]
          split_ifs <;> rfl
        rw [hsame]
        exact hs
    · obtain ⟨new, htrace, hret, hdrain⟩ := @trace_advanceEnqueue s side'
      exact ⟨new, htrace, fun hs => Or.inr ⟨hret side, Or.inr (hdrain side ▸ hs)⟩⟩
  | wake side' =>
    simp only [workerStep]
    split_ifs
    · refine ⟨[], by simp, fun hs => Or.inr ⟨by simp, Or.inr ?_⟩⟩
      rcases side'.eq_or_eq_other side with rfl | rfl
      · simp [Drain.serves]
      · simpa using hs
    · exact hquiet rfl rfl
  | stop =>
    simp only [workerStep]
    split_ifs
    · exact hquiet rfl rfl
    · exact hquiet rfl rfl

/-- Every return in `new` comes after a pop or a signal, and a callback that has done neither still
has to come back. -/
def CameBack (side : Loop) (new : List QueueEntry) (after : Drain) : Prop :=
  (∀ pre post, new = pre ++ .returned side :: post → .popped side ∈ pre ∨ .resignalled side ∈ pre) ∧
    (.popped side ∈ new ∨ .resignalled side ∈ new ∨ after.serves = true)

theorem CameBack.step {new more : List QueueEntry} {before after : Drain}
    (h : CameBack side new before) (hmore : before.serves = true → Returns side more after) :
    CameBack side (new ++ more) after := by
  obtain ⟨hpast, hnow⟩ := h
  constructor
  · intro pre post hsplit
    rcases List.append_eq_append_iff.1 hsplit with ⟨mid, rfl, hmid⟩ | ⟨mid, hnew, hmid⟩
    · -- the return is among the entries of this step
      rcases hnow with hpop | hsig | hserves
      · exact Or.inl (List.mem_append_left _ hpop)
      · exact Or.inr (List.mem_append_left _ hsig)
      · rcases hmore hserves with ⟨rest, rfl⟩ | ⟨hno, -⟩
        · cases mid with
          | nil => simp at hmid
          | cons entry mid =>
            rw [List.cons_append, List.cons.injEq] at hmid
            rw [← hmid.1]
            exact Or.inr (by simp)
        · exact absurd (by rw [hmid]; simp) hno
    · cases mid with
      | nil =>
        rw [List.append_nil] at hnew
        rw [List.nil_append] at hmid
        rcases hnow with hpop | hsig | hserves
        · exact Or.inl (hnew ▸ hpop)
        · exact Or.inr (hnew ▸ hsig)
        · rcases hmore hserves with ⟨rest, rfl⟩ | ⟨hno, -⟩
          · simp at hmid
          · exact absurd (by rw [← hmid]; simp) hno
      | cons entry mid =>
        rw [List.cons_append, List.cons.injEq] at hmid
        rw [← hmid.1] at hnew
        exact hpast pre mid hnew
  · rcases hnow with hpop | hsig | hserves
    · exact Or.inl (List.mem_append_left _ hpop)
    · exact Or.inr (Or.inl (List.mem_append_left _ hsig))
    · rcases hmore hserves with ⟨rest, rfl⟩ | ⟨-, hpop | hs⟩
      · exact Or.inr (Or.inl (by simp))
      · exact Or.inl (List.mem_append_right _ hpop)
      · exact Or.inr (Or.inr hs)

theorem cameBack_run (es : List WorkerEvent) (hs : (s.thread side).drain.serves = true) :
    ∃ new, (Machine.run workerStep s es).trace = s.trace ++ new ∧
      CameBack side new ((Machine.run workerStep s es).thread side).drain := by
  induction es using List.reverseRecOn with
  | nil => exact ⟨[], by simp, by simp, Or.inr (Or.inr hs)⟩
  | append_singleton es e ih =>
    obtain ⟨new, htrace, hans⟩ := ih
    obtain ⟨more, hstep, hret⟩ := @trace_workerStep (Machine.run workerStep s es) side e
    rw [Machine.run_snoc]
    exact ⟨new ++ more, by rw [hstep, htrace, List.append_assoc], hans.step hret⟩

theorem comesBack_of_serves (hs : (s.thread side).drain.serves = true) : ComesBack side s := by
  intro es pre post htrace
  obtain ⟨new, hnew, hans⟩ := cameBack_run es hs
  rw [hnew, List.append_cancel_left_eq] at htrace
  exact hans.1 pre post htrace

theorem Drain.running_of_serves {d : Drain} (h : d.serves = true) : d.running = true := by
  cases d <;> first | rfl | cases h

end Serving

/-- **The pool is conserved.**  After every interleaving the free list and the two caches are proper
lists with exact counters of at most 64, every node is in exactly one of the lists, the rings and
the hands of a thread, no release has run off a list, and a loop finds no node only if its cache
and the free list are both empty. -/
theorem pool_conservation (es : List WorkerEvent) :
    ∃ L : PoolLayout, PoolShape (workerRun es).worker L ∧
      RingShape (workerRun es).worker.inbound (L.queued .worker) ∧
      RingShape (workerRun es).worker.outbound (L.queued .main) ∧
      (L.free ++ L.cached .main ++ L.cached .worker ++ L.queued .worker ++ L.queued .main ++
        ((workerRun es).thread .main).held ++ ((workerRun es).thread .worker).held).Perm
          (List.range tcpWorkerPoolSize) ∧
      (workerRun es).fault = false ∧
      ((poolAcquireMain (workerRun es).worker).1 = none → L.free = [] ∧ L.cached .main = []) ∧
      ((poolAcquireWorker (workerRun es).worker).1 = none →
        L.free = [] ∧ L.cached .worker = []) := by
  obtain ⟨L, h⟩ := pairInv_run es
  have hone : ∀ i, L.freeCount i ≤ 1 := fun i => by
    have := h.parts.le_one i
    omega
  have hfails : ∀ side, (poolAcquire side (workerRun es).worker).1 = none →
      L.free = [] ∧ L.cached side = [] := by
    intro side hnone
    rw [(poolAcquire_shape side h.pool hone).1, PoolLayout.acquire] at hnone
    split at hnone
    next => cases hnone
    next hcached hfree => exact ⟨hfree, hcached⟩
    next => cases hnone
  refine ⟨L, h.pool, h.rings .worker, h.rings .main, List.perm_iff_count.2 fun i => ?_, h.fault,
    hfails .main, hfails .worker⟩
  have hparts := h.parts i
  simp only [PoolLayout.freeCount, PoolLayout.queuedCount, WorkerPair.heldCount] at hparts
  simp only [List.count_append, count_range]
  omega

/-- **Packets are delivered once, in order, and no wake-up is lost.**  After every interleaving the
packets handed on from a ring are a front part of those accepted for it, in the same order.  A ring
that is not empty has a signal pending, or its callback is running and pops or signals again
before it returns, or the enqueue that found it empty is between its `ring_push` and its
`uv_async_send`. -/
theorem packet_delivery (es : List WorkerEvent) (side : Loop) :
    processedPackets side (workerRun es).trace <+: acceptedPackets side (workerRun es).trace ∧
      (0 < ((workerRun es).worker.ring side).len →
        (workerRun es).worker.async side = true ∨
        (((workerRun es).thread side).drain.running = true ∧ ComesBack side (workerRun es)) ∨
        ((workerRun es).thread side.other).enqueue = .signalling) := by
  obtain ⟨L, h⟩ := pairInv_run es
  refine ⟨⟨_, (h.order side).symm⟩, fun hlen => ?_⟩
  have hne : L.queued side ≠ [] := by
    rw [(h.rings side).len] at hlen
    exact List.ne_nil_of_length_pos hlen
  rcases h.served side hne with hasync | hsignal | hserves
  · exact Or.inl hasync
  · exact Or.inr (Or.inr hsignal)
  · exact Or.inr (Or.inl ⟨Drain.running_of_serves hserves, comesBack_of_serves hserves⟩)

/-- A first packet that has been pushed and not yet signalled. -/
theorem pushed_first {w : TcpWorker} (hframe : PoolFrame {} w) (hcache : w.cache = fun _ => {})
    {msg : ℕ} (hmsg : w.freeList = some msg) {s : WorkerPair}
    (hs : s = workerStep (workerStep { worker := w } (.inbound [1])) (.advance .main)) :
    0 < (s.worker.ring .worker).len ∧ s.worker.async .worker = false ∧
      (s.thread .worker).drain = .idle := by
  have hring := hframe.ring
  have hasync := hframe.async
  subst hs
  simp [workerStep, Thread.free, tcpWorkerEnqueueInbound, enqueue, poolAcquire, hcache, hmsg,
    advanceEnqueue, ringPush, hring, hasync, WorkerPair.fill, WorkerPair.setRing,
    WorkerPair.setEnqueue, WorkerPair.log, Loop.other, tcpWorkerQueueCap, wgMaxMessageSize]

/-- Between the push to an empty ring and the signal nobody looks after the ring. -/
theorem push_before_signal :
    ¬ ∀ es side, 0 < ((workerRun es).worker.ring side).len →
      (workerRun es).worker.async side = true ∨
      (((workerRun es).thread side).drain.running = true ∧ ComesBack side (workerRun es)) := by
  intro hall
  obtain ⟨hframe, hcache⟩ := (poolSetup_spec tcpWorkerPoolSize).2
  obtain ⟨msg, hmsg⟩ := poolSetup_freeList (show 0 < tcpWorkerPoolSize by decide)
  have hrun : workerRun [.inbound [1], .advance .main] =
      workerStep (workerStep { worker := poolSetup tcpWorkerPoolSize {} } (.inbound [1]))
        (.advance .main) := by
    rw [workerRun, Machine.run_cons, Machine.run_cons, Machine.run_nil, WorkerPair.start]
  obtain ⟨hlen, hasync, hdrain⟩ := pushed_first hframe hcache hmsg hrun
  rcases hall _ .worker hlen with hsignal | ⟨hrunning, -⟩
  · rw [hasync] at hsignal
    cases hsignal
  · rw [hdrain] at hrunning
    cases hrunning

end Wgx
