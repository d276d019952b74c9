import Wgx.Lib.Arena
import Wgx.Lib.Run
import Wgx.Tcp.Input

/-!
# The flush queue of the stack (`tcpstack.c`)

Connections with data to send wait in a list through `flush_next` for the check phase of the event
loop.

* `FlushStack`: the connections of a stack with the queue, and `schedule_flush`, `flush_remove`,
  `conn_destroy` and `flush_check_cb` on the pointers;
* `scheduleFlush_eq`, `connDestroy_eq`, `flushCheckCb_spec`: on each connection they are the
  functions of `Wgx.Tcp.Conn` and `Wgx.Tcp.Input`, and the queue keeps in step;
* `FlushStack.exact_run`: the queue is exact after every run.
-/

namespace Wgx

open Linked

/-- The connections of a `tcpstack_t`, each known by its number, with `flush_head`, `flush_tail`,
the links `flush_next` and whether `flush_check` is active. -/
abbrev FlushStack := Arena Tcp

namespace FlushStack

/-- `schedule_flush`. -/
def scheduleFlush (i : ℕ) (s : FlushStack) : FlushStack :=
  if (s.cells i).conn.beingFreed ∨ (s.cells i).conn.flushQueued then s
  else (s.put i ((s.cells i).update fun conn => { conn with flushQueued := true })).push i

/-- `flush_remove`. -/
def flushRemove (i : ℕ) (s : FlushStack) : FlushStack :=
  if !(s.cells i).conn.flushQueued then s
  else (s.unlink i).put i ((s.cells i).update fun conn => { conn with flushQueued := false })

/-- `conn_destroy`. -/
def connDestroy (i : ℕ) (s : FlushStack) : FlushStack :=
  if (s.cells i).conn.beingFreed then s
  else
    let s := s.put i ((s.cells i).update fun conn => { conn with beingFreed := true })
    let s := flushRemove i s
    s.put i ((s.cells i).update fun conn => { conn with
      retransmitTimer := false
      ackTimer := false
      closePending := conn.closePending + 2 })

/-- `flush_check_cb`; `env i` is what the connection `i` finds. -/
def flushCheckCb (env : ℕ → TcpEnv) (s : FlushStack) : FlushStack :=
  s.drain fun i s => s.put i (Wgx.flushCheckCb (env i) (s.cells i))

/-- The connection is marked as queued. -/
def queued (t : Tcp) : Bool := t.conn.flushQueued

/-- The connection is destroyed. -/
def destroyed (t : Tcp) : Bool := t.conn.beingFreed

end FlushStack

/-! ### Runs -/

/-- What happens to a stack: a connection is opened, one of the functions of the queue is called for
a connection, the check phase comes, or anything else happens to a connection. -/
inductive FlushEvent
  | opened (state : TcpState) (iss rcvNxt : Seq) (handlers : Handlers)
  | schedule (i : ℕ)
  | remove (i : ℕ)
  | destroy (i : ℕ)
  | check (env : ℕ → TcpEnv)
  | work (i : ℕ) (t : Tcp)

/-- One event.  The functions are called for connections there are, the check phase runs the
callback while the handle is active, and what else happens leaves the two flags of the connection. -/
def flushStep (s : FlushStack) : FlushEvent → FlushStack
  | .opened state iss rcvNxt handlers => s.alloc ⟨Conn.fresh state iss rcvNxt handlers, []⟩
  | .schedule i => if i < s.brk then FlushStack.scheduleFlush i s else s
  | .remove i => if i < s.brk then FlushStack.flushRemove i s else s
  | .destroy i => if i < s.brk then FlushStack.connDestroy i s else s
  | .check env => if s.queue.armed then FlushStack.flushCheckCb env s else s
  | .work i t =>
    if i < s.brk ∧ t.conn.flushQueued = (s.cells i).conn.flushQueued ∧
        t.conn.beingFreed = (s.cells i).conn.beingFreed then s.put i t
    else s

/-- A stack without connections. -/
def FlushStack.init : FlushStack :=
  .empty ⟨Conn.fresh .closed 0 0 ⟨false, false, false, false, false⟩, []⟩

/-- The stack after the events `es`. -/
def flushRun (es : List FlushEvent) : FlushStack := Machine.run flushStep .init es

namespace FlushStack

variable {i : ℕ} {s : FlushStack}

/-! ### The functions on one connection -/

theorem scheduleFlush_eq : scheduleFlush i s = s.move queued i (Wgx.scheduleFlush (s.cells i)) := by
  unfold scheduleFlush Wgx.scheduleFlush
  by_cases h : (s.cells i).conn.beingFreed ∨ (s.cells i).conn.flushQueued
  · rw [if_pos h, if_pos h, Arena.move_self]
  · rw [if_neg h, if_neg h, Arena.move_of_waits ?_ rfl]
    exact Bool.eq_false_iff.2 fun hq => h (.inr hq)

theorem update_queued {t : Tcp} (h : t.conn.flushQueued = false) :
    t.update (fun conn => { conn with flushQueued := false }) = t := by
  obtain ⟨conn, trace⟩ := t
  obtain ⟨_⟩ := conn
  cases h
  rfl

theorem flushRemove_eq : flushRemove i s =
    s.move queued i ((s.cells i).update fun conn => { conn with flushQueued := false }) := by
  unfold flushRemove
  cases hq : (s.cells i).conn.flushQueued with
  | false =>
    rw [update_queued hq, Arena.move_self]
    rfl
  | true => exact (Arena.move_of_rests hq rfl).symm

theorem connDestroy_eq : connDestroy i s = s.move queued i (Wgx.connDestroy (s.cells i)) := by
  unfold connDestroy Wgx.connDestroy
  by_cases h : (s.cells i).conn.beingFreed = true
  · rw [if_pos h, if_pos h, Arena.move_self]
  · rw [if_neg h, if_neg h]
    simp only
    set t := (s.cells i).update fun conn => { conn with beingFreed := true } with ht
    have hput : s.put i t = s.move queued i t := (@Arena.move_of_eq _ queued i t s rfl).symm
    have hcell : (s.put i t).cells i = t := Function.update_self ..
    have hremove : flushRemove i (s.put i t) =
        s.move queued i (t.update fun conn => { conn with flushQueued := false }) := by
      rw [flushRemove_eq, hcell, hput]
      exact Arena.move_move (.inl rfl)
    have hcell' : (flushRemove i (s.put i t)).cells i =
        t.update fun conn => { conn with flushQueued := false } := by
      rw [hremove, Arena.cells_move, Function.update_self]
    have hlast := @Arena.move_of_eq _ queued i (t.update fun conn => { conn with
      flushQueued := false
      retransmitTimer := false
      ackTimer := false
      closePending := conn.closePending + 2 }) (flushRemove i (s.put i t)) (by rw [hcell']; rfl)
    rw [hcell']
    refine hlast.symm.trans ?_
    rw [hremove]
    exact Arena.move_move (.inr rfl)

theorem rests_flushCheckCb (env : TcpEnv) (t : Tcp) :
    (Wgx.flushCheckCb env t).conn.flushQueued = false ∧
      (Wgx.flushCheckCb env t).conn.beingFreed = t.conn.beingFreed := by
  unfold Wgx.flushCheckCb tcpFlushPending
  simp only
  split_ifs <;> exact ⟨rfl, rfl⟩

/-- The callback does for each queued connection what it does for one, in turn, and leaves the queue
empty. -/
theorem flushCheckCb_spec {l : List ℕ} (h : s.Exact queued destroyed l) (env : ℕ → TcpEnv) :
    (flushCheckCb env s).Exact queued destroyed [] ∧ (flushCheckCb env s).brk = s.brk ∧
      ∀ i < s.brk, (flushCheckCb env s).cells i =
        if (s.cells i).conn.flushQueued then Wgx.flushCheckCb (env i) (s.cells i)
        else s.cells i := by
  obtain ⟨hexact, hbrk, hcells⟩ := Arena.exact_drain (f := fun i t => Wgx.flushCheckCb (env i) t)
    (fun _ _ => rfl) h fun i _ => (rests_flushCheckCb (env i) (s.cells i)).1
  refine ⟨hexact, hbrk, fun i hi => (hcells i).trans ?_⟩
  have hin : i ∈ l ↔ (s.cells i).conn.flushQueued = true := by
    rw [h.mem_iff, and_iff_right hi]
    rfl
  exact if_congr hin rfl rfl

/-! ### Runs -/

/-- A connection that is marked as queued is on the list, and is not destroyed. -/
theorem live_of_queued {l : List ℕ} (h : s.Exact queued destroyed l) (hi : i < s.brk)
    (hq : (s.cells i).conn.flushQueued = true) : (s.cells i).conn.beingFreed = false :=
  h.present i ((h.mem_iff i).2 ⟨hi, hq⟩)

theorem exact_flushStep {l : List ℕ} (h : s.Exact queued destroyed l) (e : FlushEvent) :
    ∃ l', (flushStep s e).Exact queued destroyed l' := by
  unfold flushStep
  cases e with
  | opened state iss rcvNxt handlers => exact ⟨l, Arena.exact_alloc h rfl⟩
  | schedule i =>
    simp only
    split_ifs with hi
    · rw [scheduleFlush_eq]
      refine ⟨_, Arena.exact_move h hi fun hwaits => ?_⟩
      by_cases hno : (s.cells i).conn.beingFreed ∨ (s.cells i).conn.flushQueued
      · rw [Wgx.scheduleFlush, if_pos hno] at hwaits ⊢
        exact live_of_queued h hi hwaits
      · rw [Wgx.scheduleFlush, if_neg hno]
        exact Bool.eq_false_iff.2 fun hfreed => hno (.inl hfreed)
    · exact ⟨l, h⟩
  | remove i =>
    simp only
    split_ifs with hi
    · rw [flushRemove_eq]
      exact ⟨_, Arena.exact_move h hi nofun⟩
    · exact ⟨l, h⟩
  | destroy i =>
    simp only
    split_ifs with hi
    · rw [connDestroy_eq]
      refine ⟨_, Arena.exact_move h hi fun hwaits => ?_⟩
      by_cases hfreed : (s.cells i).conn.beingFreed = true
      · rw [Wgx.connDestroy, if_pos hfreed] at hwaits ⊢
        exact live_of_queued h hi hwaits
      · rw [Wgx.connDestroy, if_neg hfreed] at hwaits
        exact absurd hwaits Bool.false_ne_true
    · exact ⟨l, h⟩
  | check env =>
    simp only
    split_ifs with harmed
    · exact ⟨[], (flushCheckCb_spec h env).1⟩
    · exact ⟨l, h⟩
  | work i t =>
    simp only
    split_ifs with hwork
    · obtain ⟨hi, hq, hfreed⟩ := hwork
      rw [← @Arena.move_of_eq _ queued i t s hq]
      refine ⟨_, Arena.exact_move h hi fun hwaits => ?_⟩
      exact hfreed.trans (live_of_queued h hi (hq ▸ hwaits))
    · exact ⟨l, h⟩

/-- **The queue is exact after every run.** -/
theorem exact_run (es : List FlushEvent) : ∃ l, (flushRun es).Exact queued destroyed l :=
  @Machine.run_induction' _ _ flushStep (fun s => ∃ l, s.Exact queued destroyed l)
    (fun _ e ⟨_, h⟩ => exact_flushStep h e) _ ⟨[], Arena.exact_empty⟩ es

end FlushStack

end Wgx
