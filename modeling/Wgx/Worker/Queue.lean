import Wgx.Basic
import Wgx.Lib.Linked
import Wgx.Lib.Ring
import Wgx.Lib.Run

/-!
# The queues between the two event loops (`tcp_worker.c`)

The device runs on the main loop, the TCP stack and the SOCKS5 server on the loop of a worker
thread. Packets go from one loop to the other through two rings of pointers to nodes of a fixed
pool; each loop keeps a cache of free nodes beside the shared free list.

* `poolAcquire`, `poolRelease`: the free lists, link by link.
* `ringPush`, `ringPop`, `popBatch`: the rings.
* `enqueue`, `advanceEnqueue`: the two enqueue functions, cut where a lock is given back.
* `advanceDrain`: the two callbacks with the batches they drain, cut in the same way.
* `workerStep`, `workerRun`: both loops, interleaved in any order.

What one loop does without touching anything the other one touches, or inside one lock region, is
one step.
-/

namespace Wgx

/-- `TCP_WORKER_QUEUE_CAP`. -/
def tcpWorkerQueueCap : ℕ := 8192

/-- `TCP_WORKER_POOL_SIZE`. -/
def tcpWorkerPoolSize : ℕ := tcpWorkerQueueCap * 2

/-- `TCP_WORKER_BATCH_LIMIT`. -/
def tcpWorkerBatchLimit : ℕ := 128

/-- The event loops, each on a thread of its own. -/
inductive Loop
  | main
  | worker
  deriving DecidableEq

/-- The loop at the other end. -/
def Loop.other : Loop → Loop
  | .main => .worker
  | .worker => .main

@[simp] theorem Loop.other_other (side : Loop) : side.other.other = side := by cases side <;> rfl

/-- `packet_msg_t` without its link. -/
structure PacketMsg where
  len : ℕ
  data : ℕ → Byte

/-- The packet in a node. -/
def PacketMsg.packet (msg : PacketMsg) : List Byte := Ring.slice msg.data 0 msg.len

/-- `packet_ring_t`: `slots` holds nodes of the pool. -/
structure PacketRing where
  slots : ℕ → Option ℕ := fun _ => none
  head : ℕ := 0
  len : ℕ := 0
  enqueued : ℕ := 0
  dequeued : ℕ := 0
  dropped : ℕ := 0
  highWater : ℕ := 0

/-- `main_free_list` and `main_free_count`, or `worker_free_list` and `worker_free_count`. -/
structure FreeCache where
  freeList : Option ℕ := none
  freeCount : ℕ := 0

/-- `struct tcp_worker`: `next i` and `msg i` are node `i` of `pool_nodes`, `cache` and `async`
belong to the loop they are taken at, and `ring` is the one that loop drains. -/
structure TcpWorker where
  next : ℕ → Option ℕ := fun _ => none
  msg : ℕ → PacketMsg := fun _ => ⟨0, fun _ => 0⟩
  freeList : Option ℕ := none
  cache : Loop → FreeCache := fun _ => {}
  ring : Loop → PacketRing := fun _ => {}
  async : Loop → Bool := fun _ => false
  stopRequested : Bool := false

/-- `worker->inbound`. -/
def TcpWorker.inbound (w : TcpWorker) : PacketRing := w.ring .worker

/-- `worker->outbound`. -/
def TcpWorker.outbound (w : TcpWorker) : PacketRing := w.ring .main

/-! ### The pool -/

/-- `pool_acquire_main` and `pool_acquire_worker`: take the first node of the loop's cache, or
refill the cache with up to 31 nodes behind the first one of the shared list. -/
def poolAcquire (side : Loop) (w : TcpWorker) : Option ℕ × TcpWorker :=
  match (w.cache side).freeList with
  | some msg =>
    (some msg, { w with
      cache := Function.update w.cache side
        ⟨w.next msg, ((w.cache side).freeCount + (2 ^ 64 - 1)) % 2 ^ 64⟩ })
  | none =>
    match w.freeList with
    | none => (none, w)
    | some msg =>
      let curr := (Linked.grab w.next 31 msg).1
      let next : ℕ → Option ℕ := Function.update w.next curr none
      (some msg, { w with
        freeList := w.next curr
        next := Function.update next msg none
        cache := Function.update w.cache side ⟨next msg, (Linked.grab w.next 31 msg).2⟩ })

/-- `pool_release_main` and `pool_release_worker`: put the node into the loop's cache; a cache of 64
keeps 32 nodes and gives the rest back, behind the released node.  `none` is a null pointer read
through, or a walk to the end of a list that has none. -/
def poolRelease (side : Loop) (msg : ℕ) (w : TcpWorker) : Option TcpWorker :=
  let w := { w with msg := Function.update w.msg msg { w.msg msg with len := 0 } }
  if (w.cache side).freeCount < 64 then
    some { w with
      next := Function.update w.next msg (w.cache side).freeList
      cache := Function.update w.cache side ⟨some msg, (w.cache side).freeCount + 1⟩ }
  else
    (Linked.walk w.next 31 (w.cache side).freeList).bind fun (tail : ℕ) =>
      let next : ℕ → Option ℕ :=
        Function.update (Function.update w.next tail none) msg (w.next tail)
      (Linked.lastCell next tcpWorkerPoolSize msg).bind fun (retTail : ℕ) =>
        some { w with
          next := Function.update next retTail w.freeList
          freeList := some msg
          cache := Function.update w.cache side ⟨(w.cache side).freeList, 32⟩ }

/-- `pool_acquire_main`. -/
def poolAcquireMain : TcpWorker → Option ℕ × TcpWorker := poolAcquire .main

/-- `pool_acquire_worker`. -/
def poolAcquireWorker : TcpWorker → Option ℕ × TcpWorker := poolAcquire .worker

/-- `pool_release_main`. -/
def poolReleaseMain : ℕ → TcpWorker → Option TcpWorker := poolRelease .main

/-- `pool_release_worker`. -/
def poolReleaseWorker : ℕ → TcpWorker → Option TcpWorker := poolRelease .worker

/-- The setup of the pool in `tcp_worker_start`: every node is put in front of the free list. -/
def poolSetup (n : ℕ) (w : TcpWorker) : TcpWorker :=
  (List.range n).foldl (fun w i =>
    { w with next := Function.update w.next i w.freeList, freeList := some i }) w

/-! ### The rings -/

/-- `ring_push`: the value returned is `was_empty`, `none` if the ring is full. -/
def ringPush (msg : ℕ) (ring : PacketRing) : Option Bool × PacketRing :=
  if ring.len = tcpWorkerQueueCap then
    (none, { ring with dropped := (ring.dropped + 1) % 2 ^ 64 })
  else
    (some (ring.len == 0), { ring with
      slots := Function.update ring.slots ((ring.head + ring.len) &&& (tcpWorkerQueueCap - 1))
        (some msg)
      len := ring.len + 1
      enqueued := (ring.enqueued + 1) % 2 ^ 64
      highWater := if ring.highWater < ring.len + 1 then ring.len + 1 else ring.highWater })

/-- `ring_pop`. -/
def ringPop (ring : PacketRing) : Option ℕ × PacketRing :=
  if ring.len = 0 then (none, ring)
  else
    (ring.slots ring.head, { ring with
      slots := Function.update ring.slots ring.head none
      head := (ring.head + 1) &&& (tcpWorkerQueueCap - 1)
      len := ring.len - 1
      dequeued := (ring.dequeued + 1) % 2 ^ 64 })

/-- `ring_has_items`. -/
def ringHasItems (ring : PacketRing) : Bool := decide (0 < ring.len)

/-- The loop over `ring_pop` inside the lock region of a drain: at most `k` nodes. -/
def popBatch : ℕ → PacketRing → List ℕ × PacketRing
  | 0, ring => ([], ring)
  | k + 1, ring =>
    match ringPop ring with
    | (none, ring) => ([], ring)
    | (some msg, ring) => (msg :: (popBatch k ring).1, (popBatch k ring).2)

/-! ### The loops -/

/-- Where a loop stands in `tcp_worker_enqueue_inbound` or `tcp_worker_enqueue_outbound`. -/
inductive Enqueue
  /-- No call is running. -/
  | returned
  /-- The argument `pkt` has been copied to `msg`; `ring_push` is next. -/
  | holding (msg : ℕ) (pkt : List Byte)
  /-- The ring was full; the release of `msg` is next. -/
  | refused (msg : ℕ)
  /-- The ring was empty; `uv_async_send` is next. -/
  | signalling

/-- Where a loop stands in `main_async_cb` or `worker_async_cb`. -/
inductive Drain
  /-- The callback is not running. -/
  | idle
  /-- The next lock region is next, after `processed` packets. -/
  | popping (processed : ℕ)
  /-- `batch` is what is left of the `n` nodes popped last; `inCall` says that the packet of its
  first node is with the stack or the device. -/
  | working (processed n : ℕ) (more inCall : Bool) (batch : List ℕ)
  /-- The test of `more` is next. -/
  | returning (more : Bool)
  /-- The worker has stopped its loop. -/
  | halted

/-- A thread: a call of an enqueue function may stand on top of the callback. -/
structure Thread where
  enqueue : Enqueue := .returned
  drain : Drain := .idle

/-- What happens to the ring that `side` drains. -/
inductive QueueEntry
  /-- `ring_push` put the packet into the ring: the enqueue function returns 0. -/
  | accepted (side : Loop) (pkt : List Byte)
  /-- The packet is handed to `tcpstack_input` or `device_send_ip_packet_local`. -/
  | processed (side : Loop) (pkt : List Byte)
  /-- The lock region of a drain. -/
  | popped (side : Loop)
  /-- The `uv_async_send` at the end of the callback. -/
  | resignalled (side : Loop)
  /-- The callback returns. -/
  | returned (side : Loop)
  deriving DecidableEq

/-- Both loops and what they share; `fault` is the result of a failed `poolRelease`. -/
structure WorkerPair where
  worker : TcpWorker := {}
  thread : Loop → Thread := fun _ => {}
  fault : Bool := false
  trace : List QueueEntry := []

namespace WorkerPair

def log (s : WorkerPair) (entry : QueueEntry) : WorkerPair :=
  { s with trace := s.trace ++ [entry] }

def setEnqueue (s : WorkerPair) (side : Loop) (enqueue : Enqueue) : WorkerPair :=
  { s with thread := Function.update s.thread side { s.thread side with enqueue } }

def setDrain (s : WorkerPair) (side : Loop) (drain : Drain) : WorkerPair :=
  { s with thread := Function.update s.thread side { s.thread side with drain } }

def setRing (s : WorkerPair) (side : Loop) (ring : PacketRing) : WorkerPair :=
  { s with worker := { s.worker with ring := Function.update s.worker.ring side ring } }

/-- `uv_async_send` to the loop `side`, or the callback's start taking the signal away. -/
def setAsync (s : WorkerPair) (side : Loop) (pending : Bool) : WorkerPair :=
  { s with worker := { s.worker with async := Function.update s.worker.async side pending } }

/-- `msg->len` and `msg->data` of an enqueue function. -/
def fill (s : WorkerPair) (msg : ℕ) (pkt : List Byte) : WorkerPair :=
  { s with worker := { s.worker with
      msg := Function.update s.worker.msg msg
        ⟨pkt.length, Ring.blit (s.worker.msg msg).data 0 pkt⟩ } }

/-- Release a node of the pool on the loop `side`. -/
def release (s : WorkerPair) (side : Loop) (msg : ℕ) : WorkerPair :=
  match poolRelease side msg s.worker with
  | none => { s with fault := true }
  | some w => { s with worker := w }

end WorkerPair

/-- The start of `tcp_worker_enqueue_inbound` (on the main loop) and of
`tcp_worker_enqueue_outbound` (on the worker's), up to the lock of the ring. -/
def enqueue (side : Loop) (pkt : List Byte) (s : WorkerPair) : WorkerPair :=
  if wgMaxMessageSize < pkt.length then s
  else
    match poolAcquire side s.worker with
    | (none, w) => { s with worker := w }
    | (some msg, w) =>
      ({ s with worker := w } |>.fill msg pkt).setEnqueue side (.holding msg pkt)

/-- `tcp_worker_enqueue_inbound`, up to the lock. -/
def tcpWorkerEnqueueInbound : List Byte → WorkerPair → WorkerPair := enqueue .main

/-- `tcp_worker_enqueue_outbound`, up to the lock. -/
def tcpWorkerEnqueueOutbound : List Byte → WorkerPair → WorkerPair := enqueue .worker

/-- The next step of the enqueue function that runs on `side`. -/
def advanceEnqueue (side : Loop) (s : WorkerPair) : WorkerPair :=
  match (s.thread side).enqueue with
  | .returned => s
  | .holding msg pkt =>
    match ringPush msg (s.worker.ring side.other) with
    | (none, ring) => (s.setRing side.other ring).setEnqueue side (.refused msg)
    | (some wasEmpty, ring) =>
      ((s.setRing side.other ring).log (.accepted side.other pkt)).setEnqueue side
        (if wasEmpty then .signalling else .returned)
  | .refused msg => (s.release side msg).setEnqueue side .returned
  | .signalling => (s.setAsync side.other true).setEnqueue side .returned

/-- The head of the drain's outer loop after a batch: pop again, or return. -/
def afterBatch (processed n : ℕ) (more : Bool) : Drain :=
  if processed + n < tcpWorkerBatchLimit then .popping (processed + n) else .returning more

/-- The next step of the callback that runs on `side`: `main_async_cb` over `drain_outbound_batch`,
`worker_async_cb` over `drain_inbound_batch`. -/
def advanceDrain (side : Loop) (s : WorkerPair) : WorkerPair :=
  match (s.thread side).drain with
  | .idle | .halted => s
  | .popping processed =>
    let ring := (popBatch (tcpWorkerBatchLimit - processed) (s.worker.ring side)).2
    let batch := (popBatch (tcpWorkerBatchLimit - processed) (s.worker.ring side)).1
    ((s.setRing side ring).log (.popped side)).setDrain side
      (if batch.length = 0 then .returning (ringHasItems ring)
      else .working processed batch.length (ringHasItems ring) false batch)
  | .working processed n more _ [] => s.setDrain side (afterBatch processed n more)
  | .working processed n more false (msg :: batch) =>
    (s.log (.processed side (s.worker.msg msg).packet)).setDrain side
      (.working processed n more true (msg :: batch))
  | .working processed n more true (msg :: batch) =>
    (s.release side msg).setDrain side
      (if batch = [] then afterBatch processed n more
      else .working processed n more false batch)
  | .returning more =>
    let s := if more then (s.setAsync side true).log (.resignalled side) else s
    -- only `worker_async_cb` looks at `stop_requested`
    (s.log (.returned side)).setDrain side
      (if side = .worker ∧ s.worker.stopRequested = true then .halted else .idle)

/-- What the two threads can do. -/
inductive WorkerEvent
  /-- The main thread calls `tcp_worker_enqueue_inbound`. -/
  | inbound (pkt : List Byte)
  /-- The worker thread calls `tcp_worker_enqueue_outbound`. -/
  | outbound (pkt : List Byte)
  /-- A thread goes on with what it is doing. -/
  | advance (side : Loop)
  /-- libuv runs the callback of a signalled loop. -/
  | wake (side : Loop)
  /-- `tcp_worker_stop`, up to the join. -/
  | stop

/-- Whether a thread is in no enqueue function. -/
def Thread.free (t : Thread) : Bool :=
  match t.enqueue with
  | .returned => true
  | _ => false

/-- Whether the callback of a thread can be started. -/
def Thread.waiting (t : Thread) : Bool :=
  match t.enqueue, t.drain with
  | .returned, .idle => true
  | _, _ => false

def workerStep (s : WorkerPair) : WorkerEvent → WorkerPair
  | .inbound pkt => if (s.thread .main).free then tcpWorkerEnqueueInbound pkt s else s
  | .outbound pkt => if (s.thread .worker).free then tcpWorkerEnqueueOutbound pkt s else s
  | .advance side =>
    if (s.thread side).free then advanceDrain side s else advanceEnqueue side s
  | .wake side =>
    if s.worker.async side && (s.thread side).waiting then
      (s.setAsync side false).setDrain side (.popping 0)
    else s
  | .stop =>
    if (s.thread .main).waiting then
      { s with worker := { s.worker with stopRequested := true } }.setAsync .worker true
    else s

/-- `tcp_worker_start`. -/
def WorkerPair.start : WorkerPair := { worker := poolSetup tcpWorkerPoolSize {} }

/-- Both loops after the events `es`. -/
def workerRun (es : List WorkerEvent) : WorkerPair := Machine.run workerStep .start es

end Wgx
