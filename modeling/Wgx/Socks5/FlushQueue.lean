import Wgx.Socks5.Frame
import Wgx.Tcp.FlushQueue

/-!
# The flush queue of the SOCKS5 server (`socks5.c`)

Connections with output for their clients wait in a list through `flush_next` for the check phase of
the event loop, as those of the stack do.

* `FlushServer`: the connections of a server with the queue, and `flush_remove`,
  `schedule_client_flush`, `client_write`, `socks5_conn_close`, `write_done_cb` and
  `flush_check_cb` on the pointers;
* `flushRemove_eq` … `flushCheckCb_spec`: on each connection they are the functions of
  `Wgx.Socks5.Conn`, and the queue keeps in step;
* `FlushServer.Sound`: what `write_state` and the client's handle say about each other;
* `flush_queues_exact_iff`: in which runs the queue is exact.
-/

namespace Wgx

open Linked

/-- The connections of a `socks5_server_t`, each known by its number, with `flush_head`,
`flush_tail`, the links `flush_next` and whether `flush_check` is active. -/
abbrev FlushServer := Arena Socks

namespace FlushServer

section Functions

/-- `flush_remove`. -/
def flushRemove (i : ℕ) (s : FlushServer) : FlushServer :=
  if (s.cells i).conn.writeState ≠ .queued then s
  else (s.unlink i).put i ((s.cells i).update fun conn => { conn with writeState := .idle })

/-- `schedule_client_flush`. -/
def scheduleClientFlush (i : ℕ) (s : FlushServer) : FlushServer :=
  if (s.cells i).conn.writeState ≠ .idle then s
  else (s.put i ((s.cells i).update fun conn => { conn with writeState := .queued })).push i

variable (env : SocksEnv)

/-- What `socks5_conn_close` does behind `flush_remove`. -/
def finishClose (why : CloseReason) (t : Socks) : Socks :=
  let t := t.update fun conn => { conn with writeState := .closed }
  let t := (leaveTunnel env t).update fun conn => { conn with resolveReq := false }
  if t.conn.closing then t
  else
    (t.log (.closed why t.conn.outbuf)).update fun conn =>
      { conn with reading := false, closing := true }

/-- `socks5_conn_close`. -/
def socks5ConnClose (why : CloseReason) (i : ℕ) (s : FlushServer) : FlushServer :=
  if (s.cells i).conn.writeState = .closed then s
  else
    let s := flushRemove i s
    s.put i (finishClose env why (s.cells i))

/-- `client_flush`. -/
def clientFlush (i : ℕ) (s : FlushServer) : FlushServer :=
  if (s.cells i).conn.writeState = .closed ∨ (s.cells i).conn.writeState = .writing ∨
      (s.cells i).conn.outbuf.length = 0 then s
  else
    let s := s.put i (startWrite (s.cells i))
    if env.uvWrite < 0 then
      socks5ConnClose env .client i
        (s.put i ((s.cells i).update fun conn => { conn with writeState := .idle }))
    else s.put i ((s.cells i).update fun conn => { conn with writeReq := true })

/-- `client_write`. -/
def clientWrite (data : List Byte) (i : ℕ) (s : FlushServer) : FlushServer :=
  let s := s.put i ((s.cells i).log (.given data))
  if (s.cells i).conn.writeState = .closed ∨ data.length = 0 then s
  else
    match reserveBuf env (s.cells i).conn ((s.cells i).conn.outbuf.length + data.length) with
    | none => s.put i ((s.cells i).log (.dropped data))
    | some cap =>
      let s := s.put i ((s.cells i).update fun conn =>
        { conn with outbuf := conn.outbuf ++ data, outbufCap := cap })
      let s := s.put i (updateWgRecvWindowState env (s.cells i))
      if (s.cells i).conn.outbuf.length ≥ socks5FlushSize then clientFlush env i (flushRemove i s)
      else scheduleClientFlush i s

/-- The beginning of `write_done_cb`. -/
def endWrite (t : Socks) : Socks :=
  let t := t.update fun conn => { conn with writeReq := false, writeState := .idle, writeBuf := [] }
  if t.conn.outbufCap < t.conn.writeBufCap ∧ t.conn.outbuf.length = 0 then
    t.update fun conn => { conn with outbufCap := conn.writeBufCap, writeBufCap := conn.outbufCap }
  else t

/-- `write_done_cb`. -/
def writeDoneCb (status : ℤ) (i : ℕ) (s : FlushServer) : FlushServer :=
  let s := s.put i (endWrite (s.cells i))
  if status < 0 then socks5ConnClose env .client i s
  else
    let s := s.put i (updateWgRecvWindowState env (s.cells i))
    if 0 < (s.cells i).conn.outbuf.length then scheduleClientFlush i s else s

end Functions

/-- `flush_check_cb`; `env i` is what the connection `i` finds. -/
def flushCheckCb (env : ℕ → SocksEnv) (s : FlushServer) : FlushServer :=
  s.drain fun i s => clientFlush (env i) i (s.put i ((s.cells i).update fun conn =>
    { conn with writeState := if conn.writeState = .queued then .idle else conn.writeState }))

/-- The connection is marked as queued. -/
def queued (t : Socks) : Bool := t.conn.writeState = .queued

/-- The connection is closed, or already freed. -/
def destroyed (t : Socks) : Bool := t.conn.closing || t.conn.released

end FlushServer

/-! ### Runs -/

/-- What happens to a server: a client is accepted, one of the functions of the queue is called for
a connection, a write ends, the handle of a connection has gone, the check phase comes, or anything
else happens to a connection. -/
inductive FlushServerEvent
  | accepted
  | schedule (i : ℕ)
  | remove (i : ℕ)
  | write (env : SocksEnv) (data : List Byte) (i : ℕ)
  | close (env : SocksEnv) (why : CloseReason) (i : ℕ)
  | done (env : SocksEnv) (status : ℤ) (i : ℕ)
  | closeCb (env : SocksEnv) (i : ℕ)
  | check (env : ℕ → SocksEnv)
  | work (i : ℕ) (t : Socks)

/-- What `libuv` and the callers promise about an event: it is about memory that is still there,
output comes for connections whose handle is not closing, a write ends that was started, a handle
goes that is closing, the callback of the check phase runs while its handle is active, and what else
happens leaves the state of the write and of the handle. -/
def FlushServerEvent.enabled (s : FlushServer) : FlushServerEvent → Prop
  | .accepted => True
  | .schedule i | .write _ _ i =>
    i < s.brk ∧ (s.cells i).conn.released = false ∧ (s.cells i).conn.closing = false
  | .remove i | .close _ _ i => i < s.brk ∧ (s.cells i).conn.released = false
  | .done _ _ i =>
    i < s.brk ∧ (s.cells i).conn.released = false ∧ (s.cells i).conn.writeReq = true
  | .closeCb _ i => i < s.brk ∧ (s.cells i).conn.released = false ∧ (s.cells i).conn.closing = true
  | .check _ => s.queue.armed = true
  | .work i t => i < s.brk ∧ t.conn.writeState = (s.cells i).conn.writeState ∧
    t.conn.writeReq = (s.cells i).conn.writeReq ∧ t.conn.closing = (s.cells i).conn.closing ∧
    t.conn.released = (s.cells i).conn.released

instance FlushServerEvent.decidableEnabled (s : FlushServer) (e : FlushServerEvent) :
    Decidable (e.enabled s) := by
  cases e <;> unfold FlushServerEvent.enabled <;> infer_instance

/-- The function that an event runs. -/
def flushServerCallback (s : FlushServer) : FlushServerEvent → FlushServer
  | .accepted => s.alloc .accept
  | .schedule i => FlushServer.scheduleClientFlush i s
  | .remove i => FlushServer.flushRemove i s
  | .write env data i => FlushServer.clientWrite env data i s
  | .close env why i => FlushServer.socks5ConnClose env why i s
  | .done env status i => FlushServer.writeDoneCb env status i s
  | .closeCb env i => s.put i (clientCloseCb env (s.cells i))
  | .check env => FlushServer.flushCheckCb env s
  | .work i t => s.put i t

/-- One event. -/
def flushServerStep (s : FlushServer) (e : FlushServerEvent) : FlushServer :=
  if e.enabled s then flushServerCallback s e else s

/-- A server without connections. -/
def FlushServer.init : FlushServer := .empty .accept

/-- The server after the events `es`. -/
def flushServerRun (es : List FlushServerEvent) : FlushServer :=
  Machine.run flushServerStep .init es

/-- A write that succeeded after the connection was closed leaves nothing to write. -/
def FlushServerEvent.inTime (s : FlushServer) (e : FlushServerEvent) : Prop :=
  match e with
  | .done _ status i => e.enabled s → 0 ≤ status → (s.cells i).conn.closing = true →
    (s.cells i).conn.outbuf = []
  | _ => True

namespace FlushServer

/-! ### The functions on one connection -/

section One

variable {i : ℕ} {s : FlushServer} {t : Socks} {env : SocksEnv}

theorem not_queued_iff : queued t = false ↔ t.conn.writeState ≠ .queued := by
  rw [queued, decide_eq_false_iff_not]

theorem flushRemove_eq : flushRemove i s = s.move queued i (Wgx.flushRemove (s.cells i)) := by
  unfold flushRemove Wgx.flushRemove
  by_cases h : (s.cells i).conn.writeState = .queued
  · rw [if_neg (not_not.2 h), if_neg (not_not.2 h)]
    have hwaits : queued (s.cells i) = true := decide_eq_true h
    exact (Arena.move_of_rests hwaits rfl).symm
  · rw [if_pos h, if_pos h, Arena.move_self]

theorem scheduleClientFlush_eq :
    scheduleClientFlush i s = s.move queued i (Wgx.scheduleClientFlush (s.cells i)) := by
  unfold scheduleClientFlush Wgx.scheduleClientFlush
  by_cases h : (s.cells i).conn.writeState = .idle
  · rw [if_neg (not_not.2 h), if_neg (not_not.2 h)]
    refine (Arena.move_of_waits (not_queued_iff.2 ?_) rfl).symm
    rw [h]
    exact nofun
  · rw [if_pos h, if_pos h, Arena.move_self]

theorem queued_flushRemove (t : Socks) : queued (Wgx.flushRemove t) = false := by
  unfold Wgx.flushRemove
  by_cases h : t.conn.writeState = .queued
  · rw [if_neg (not_not.2 h)]
    rfl
  · rw [if_pos h]
    exact not_queued_iff.2 h

theorem conn_finishClose (why : CloseReason) (t : Socks) : ∃ reading,
    (finishClose env why t).conn = { t.conn with
      writeState := .closed, wgConn := none, resolveReq := false, reading := reading,
      closing := true } := by
  unfold finishClose
  simp only [Socks.update_conn, conn_leaveTunnel]
  split_ifs with hclosing
  · refine ⟨t.conn.reading, ?_⟩
    rw [Socks.update_conn, conn_leaveTunnel]
    obtain ⟨conn, trace⟩ := t
    obtain ⟨_⟩ := conn
    cases hclosing
    rfl
  · refine ⟨false, ?_⟩
    rw [Socks.update_conn, Socks.log_conn, Socks.update_conn, conn_leaveTunnel]
    rfl

theorem socks5ConnClose_of_closed (why : CloseReason) (h : t.conn.writeState = .closed) :
    Wgx.socks5ConnClose env why t = t := if_pos h

theorem socks5ConnClose_of_open (why : CloseReason) (h : t.conn.writeState ≠ .closed) :
    Wgx.socks5ConnClose env why t = finishClose env why (Wgx.flushRemove t) := if_neg h

/-- A connection that was closed does not wait. -/
theorem queued_socks5ConnClose (why : CloseReason) (t : Socks) :
    queued (Wgx.socks5ConnClose env why t) = false := by
  by_cases h : t.conn.writeState = .closed
  · rw [socks5ConnClose_of_closed why h, not_queued_iff, h]
    exact nofun
  · obtain ⟨reading, hconn⟩ := @conn_finishClose env why (Wgx.flushRemove t)
    rw [socks5ConnClose_of_open why h, not_queued_iff, hconn]
    exact nofun

theorem socks5ConnClose_eq (why : CloseReason) : socks5ConnClose env why i s =
    s.move queued i (Wgx.socks5ConnClose env why (s.cells i)) := by
  by_cases h : (s.cells i).conn.writeState = .closed
  · rw [socks5ConnClose_of_closed why h, Arena.move_self]
    exact if_pos h
  · have hcell : (flushRemove i s).cells i = Wgx.flushRemove (s.cells i) := by
      rw [flushRemove_eq, Arena.cells_move_self]
    have hrests := @queued_socks5ConnClose env why (s.cells i)
    rw [socks5ConnClose_of_open why h] at hrests ⊢
    unfold socks5ConnClose
    rw [if_neg h]
    simp only
    rw [hcell, flushRemove_eq]
    exact Arena.move_put (hrests.trans (queued_flushRemove _).symm)

theorem queued_of_idle (h : t.conn.writeState = .idle) : queued t = false := by
  rw [not_queued_iff, h]
  exact nofun

/-- A flush does not make a connection wait. -/
theorem queued_clientFlush (h : queued t = false) : queued (Wgx.clientFlush env t) = false := by
  unfold Wgx.clientFlush
  split_ifs
  · exact h
  · exact queued_socks5ConnClose ..
  · rfl

theorem clientFlush_eq (h : queued (s.cells i) = false) :
    clientFlush env i s = s.move queued i (Wgx.clientFlush env (s.cells i)) := by
  unfold clientFlush Wgx.clientFlush
  by_cases hno : (s.cells i).conn.writeState = .closed ∨ (s.cells i).conn.writeState = .writing ∨
      (s.cells i).conn.outbuf.length = 0
  · rw [if_pos hno, if_pos hno, Arena.move_self]
  rw [if_neg hno, if_neg hno]
  simp only [Arena.cells_put, Function.update_self, Arena.put_put]
  split_ifs with hfail
  · -- the close finds the connection idle, so that the queue is not touched
    rw [socks5ConnClose_eq, Arena.cells_put, Function.update_self]
    exact Arena.put_move h.symm
  · exact (Arena.move_of_eq h.symm).symm

theorem conn_updateWgRecvWindowState (env : SocksEnv) (t : Socks) : ∃ wgConn throttled,
    (updateWgRecvWindowState env t).conn =
      { t.conn with wgConn := wgConn, wgRecvWindowThrottled := throttled } := by
  unfold updateWgRecvWindowState
  cases t.conn.wgConn with
  | none => exact ⟨_, _, rfl⟩
  | some tunnel =>
    simp only
    split_ifs
    · exact ⟨_, _, rfl⟩
    · exact ⟨_, _, rfl⟩
    · exact ⟨_, _, rfl⟩
    · exact ⟨_, _, rfl⟩

theorem clientWrite_eq (data : List Byte) : clientWrite env data i s =
    s.move queued i (Wgx.clientWrite env data (s.cells i)) := by
  unfold clientWrite Wgx.clientWrite
  simp only [Arena.cells_put, Function.update_self, Arena.put_put]
  have hlog : queued ((s.cells i).log (.given data)) = queued (s.cells i) := rfl
  generalize (s.cells i).log (.given data) = u at hlog ⊢
  by_cases hno : u.conn.writeState = .closed ∨ data.length = 0
  · rw [if_pos hno, if_pos hno]
    exact (Arena.move_of_eq hlog).symm
  rw [if_neg hno, if_neg hno]
  cases reserveBuf env u.conn (u.conn.outbuf.length + data.length) with
  | none =>
    have hdrop : queued (u.log (.dropped data)) = queued (s.cells i) := hlog
    exact (Arena.move_of_eq hdrop).symm
  | some cap =>
    simp only
    obtain ⟨wgConn, throttled, hconn⟩ := conn_updateWgRecvWindowState env
      (u.update fun conn => { conn with outbuf := conn.outbuf ++ data, outbufCap := cap })
    generalize updateWgRecvWindowState env (u.update fun conn =>
      { conn with outbuf := conn.outbuf ++ data, outbufCap := cap }) = t at hconn ⊢
    have hsame : queued t = queued (s.cells i) := by
      rw [← hlog, queued, hconn]
      rfl
    have hcell : (s.put i t).cells i = t := Function.update_self ..
    split_ifs
    · have hremove : flushRemove i (s.put i t) = s.move queued i (Wgx.flushRemove t) := by
        rw [flushRemove_eq, hcell]
        exact Arena.put_move hsame
      have hcell' : (flushRemove i (s.put i t)).cells i = Wgx.flushRemove t := by
        rw [hremove, Arena.cells_move_self]
      rw [clientFlush_eq (by rw [hcell']; exact queued_flushRemove t), hcell', hremove]
      refine Arena.move_move (.inr ?_)
      rw [queued_flushRemove, queued_clientFlush (queued_flushRemove t)]
    · rw [scheduleClientFlush_eq, hcell]
      exact Arena.put_move hsame

theorem queued_endWrite (t : Socks) : queued (endWrite t) = false := by
  unfold endWrite
  simp only
  split_ifs <;> rfl

theorem writeDoneCb_eq (status : ℤ) (h : queued (s.cells i) = false) :
    writeDoneCb env status i s = s.move queued i (Wgx.writeDoneCb env status (s.cells i)) := by
  have hend : Wgx.writeDoneCb env status (s.cells i) =
      if status < 0 then Wgx.socks5ConnClose env .client (endWrite (s.cells i))
      else
        let t := updateWgRecvWindowState env (endWrite (s.cells i))
        if 0 < t.conn.outbuf.length then Wgx.scheduleClientFlush t else t := rfl
  have hsame : queued (endWrite (s.cells i)) = queued (s.cells i) := by
    rw [queued_endWrite, h]
  rw [hend]
  unfold writeDoneCb
  simp only [Arena.cells_put, Function.update_self, Arena.put_put]
  generalize ht : updateWgRecvWindowState env (endWrite (s.cells i)) = t
  have hwindow : queued t = queued (s.cells i) := by
    obtain ⟨wgConn, throttled, hconn⟩ := conn_updateWgRecvWindowState env (endWrite (s.cells i))
    rw [← hsame, ← ht, queued, hconn]
    rfl
  split_ifs
  · rw [socks5ConnClose_eq, Arena.cells_put, Function.update_self]
    exact Arena.put_move hsame
  · rw [scheduleClientFlush_eq, Arena.cells_put, Function.update_self]
    exact Arena.put_move hwindow
  · exact (Arena.move_of_eq hwindow).symm

/-- What the callback of the check phase does with a connection is `flushCheck`. -/
theorem serve_eq (env : ℕ → SocksEnv) (i : ℕ) (s : FlushServer) :
    clientFlush (env i) i (s.put i ((s.cells i).update fun conn =>
      { conn with writeState := if conn.writeState = .queued then .idle else conn.writeState })) =
    s.put i (flushCheck (env i) (s.cells i)) := by
  unfold flushCheck
  generalize ht : (s.cells i).update (fun conn =>
    { conn with writeState := if conn.writeState = .queued then .idle else conn.writeState }) = t
  have hrests : queued t = false := by
    rw [not_queued_iff, ← ht]
    simp only [Socks.update_conn]
    split_ifs with hq
    · exact nofun
    · exact hq
  have hcell : (s.put i t).cells i = t := Function.update_self ..
  rw [clientFlush_eq (hcell.symm ▸ hrests), hcell, Arena.move_of_eq, Arena.put_put]
  rw [hcell, queued_clientFlush hrests, hrests]

theorem queued_flushCheck (env : SocksEnv) (t : Socks) : queued (flushCheck env t) = false := by
  refine queued_clientFlush ?_
  rw [not_queued_iff]
  simp only [Socks.update_conn]
  split_ifs with hq
  · exact nofun
  · exact hq

/-- The callback does for each queued connection what it does for one, in turn, and leaves the queue
empty. -/
theorem flushCheckCb_spec {l : List ℕ} (h : s.Exact queued destroyed l) (env : ℕ → SocksEnv) :
    (flushCheckCb env s).Exact queued destroyed [] ∧ (flushCheckCb env s).brk = s.brk ∧
      ∀ i < s.brk, (flushCheckCb env s).cells i =
        if (s.cells i).conn.writeState = .queued then flushCheck (env i) (s.cells i)
        else s.cells i := by
  obtain ⟨hexact, hbrk, hcells⟩ := Arena.exact_drain (f := fun i t => flushCheck (env i) t)
    (serve_eq env) h fun i _ => queued_flushCheck (env i) (s.cells i)
  refine ⟨hexact, hbrk, fun i hi => (hcells i).trans ?_⟩
  have hin : i ∈ l ↔ (s.cells i).conn.writeState = .queued := by
    rw [h.mem_iff, and_iff_right hi, queued, decide_eq_true_iff]
  exact if_congr hin rfl rfl

end One

/-! ### The state of the write -/

/-- What `write_state`, `write_req` and the client's handle say about each other.  A closed
connection is marked so, or is idle behind a write that ended after the close. -/
structure Sound (c : SocksConn) : Prop where
  isOpen : c.closing = false →
    c.writeState ≠ .closed ∧ (c.writeReq = true → c.writeState = .writing)
  shut : c.closing = true → c.writeState = .closed ∨ c.writeState = .idle ∧ c.writeReq = false
  gone : c.released = true → c.closing = true

section Sound

variable {t : Socks} {env : SocksEnv}

theorem Sound.closing_of_queued (h : Sound t.conn) (hq : t.conn.writeState = .queued) :
    t.conn.closing = false := by
  by_contra hclosing
  rcases h.shut (Bool.eq_true_of_not_eq_false hclosing) with hclosed | ⟨hidle, -⟩
  · rw [hq] at hclosed
    cases hclosed
  · rw [hq] at hidle
    cases hidle

/-- A connection that waits is there. -/
theorem Sound.destroyed_of_queued (h : Sound t.conn) (hq : queued t = true) :
    destroyed t = false := by
  have hopen := h.closing_of_queued (of_decide_eq_true hq)
  rw [destroyed, hopen, Bool.false_or]
  exact Bool.eq_false_iff.2 fun hgone => Bool.false_ne_true (hopen.symm.trans (h.gone hgone))

theorem sound_accept : Sound Socks.accept.conn := ⟨fun _ => ⟨nofun, nofun⟩, nofun, nofun⟩

theorem sound_flushRemove (h : Sound t.conn) : Sound (Wgx.flushRemove t).conn := by
  unfold Wgx.flushRemove
  split_ifs with hq
  · exact h
  · rw [not_not] at hq
    refine ⟨fun hopen => ⟨nofun, fun hreq => ?_⟩, fun hclosing => ?_, h.gone⟩
    · have hwriting := (h.isOpen hopen).2 hreq
      rw [hq] at hwriting
      cases hwriting
    · exact absurd hclosing (Bool.eq_false_iff.1 (h.closing_of_queued hq))

theorem sound_scheduleClientFlush (h : Sound t.conn) (hopen : t.conn.closing = false) :
    Sound (Wgx.scheduleClientFlush t).conn := by
  unfold Wgx.scheduleClientFlush
  split_ifs with hidle
  · exact h
  · rw [not_not] at hidle
    refine ⟨fun _ => ⟨nofun, fun hreq => ?_⟩, fun hclosing => ?_, h.gone⟩
    · have hwriting := (h.isOpen hopen).2 hreq
      rw [hidle] at hwriting
      cases hwriting
    · exact absurd hclosing (Bool.eq_false_iff.1 hopen)

theorem sound_socks5ConnClose (why : CloseReason) (h : Sound t.conn) :
    Sound (Wgx.socks5ConnClose env why t).conn := by
  by_cases hclosed : t.conn.writeState = .closed
  · rw [socks5ConnClose_of_closed why hclosed]
    exact h
  · obtain ⟨reading, hconn⟩ := @conn_finishClose env why (Wgx.flushRemove t)
    rw [socks5ConnClose_of_open why hclosed, hconn]
    exact ⟨nofun, fun _ => .inl rfl, fun _ => rfl⟩

theorem sound_clientFlush (h : Sound t.conn) (hopen : t.conn.closing = false) :
    Sound (Wgx.clientFlush env t).conn := by
  unfold Wgx.clientFlush
  split_ifs with hno hfail
  · exact h
  · refine sound_socks5ConnClose _ ⟨fun _ => ⟨nofun, fun hreq => ?_⟩, fun hclosing => ?_, h.gone⟩
    · exact absurd ((h.isOpen hopen).2 hreq) fun hw => hno (.inr (.inl hw))
    · exact absurd hclosing (Bool.eq_false_iff.1 hopen)
  · refine ⟨fun _ => ⟨nofun, fun _ => rfl⟩, fun hclosing => ?_, h.gone⟩
    exact absurd hclosing (Bool.eq_false_iff.1 hopen)

/-- What leaves the marks of a connection. -/
theorem Sound.congr {c c' : SocksConn} (h : Sound c) (hw : c'.writeState = c.writeState)
    (hreq : c'.writeReq = c.writeReq) (hclosing : c'.closing = c.closing)
    (hgone : c'.released = c.released) : Sound c' := by
  refine ⟨?_, ?_, ?_⟩
  · rw [hw, hreq, hclosing]
    exact h.isOpen
  · rw [hw, hreq, hclosing]
    exact h.shut
  · rw [hclosing, hgone]
    exact h.gone

theorem closing_flushRemove (t : Socks) : (Wgx.flushRemove t).conn.closing = t.conn.closing := by
  unfold Wgx.flushRemove
  split_ifs <;> rfl

theorem sound_clientWrite (data : List Byte) (h : Sound t.conn) (hopen : t.conn.closing = false) :
    Sound (Wgx.clientWrite env data t).conn := by
  unfold Wgx.clientWrite
  simp only
  split_ifs with hno
  · exact h
  cases reserveBuf env (t.log (.given data)).conn
      ((t.log (.given data)).conn.outbuf.length + data.length) with
  | none => exact h
  | some cap =>
    simp only
    obtain ⟨wgConn, throttled, hconn⟩ := conn_updateWgRecvWindowState env
      ((t.log (.given data)).update fun conn =>
        { conn with outbuf := conn.outbuf ++ data, outbufCap := cap })
    generalize updateWgRecvWindowState env ((t.log (.given data)).update fun conn =>
      { conn with outbuf := conn.outbuf ++ data, outbufCap := cap }) = u at hconn ⊢
    have hu : Sound u.conn := by
      rw [hconn]
      exact h.congr rfl rfl rfl rfl
    have hopen' : u.conn.closing = false := by
      rw [hconn]
      exact hopen
    split_ifs
    · exact sound_clientFlush (sound_flushRemove hu) ((closing_flushRemove u).trans hopen')
    · exact sound_scheduleClientFlush hu hopen'

theorem sound_flushCheck (h : Sound t.conn) (hq : t.conn.writeState = .queued) :
    Sound (flushCheck env t).conn := by
  have hopen := h.closing_of_queued hq
  refine sound_clientFlush ⟨fun _ => ⟨?_, fun hreq => ?_⟩, fun hclosing => ?_, h.gone⟩ hopen
  · rw [Socks.update_conn, if_pos hq]
    exact nofun
  · have hwriting := (h.isOpen hopen).2 hreq
    rw [hq] at hwriting
    cases hwriting
  · exact absurd hclosing (Bool.eq_false_iff.1 hopen)

theorem conn_endWrite (t : Socks) : (endWrite t).conn.writeState = .idle ∧
    (endWrite t).conn.writeReq = false ∧ (endWrite t).conn.closing = t.conn.closing ∧
    (endWrite t).conn.released = t.conn.released ∧ (endWrite t).conn.outbuf = t.conn.outbuf := by
  unfold endWrite
  simp only
  split_ifs <;> exact ⟨rfl, rfl, rfl, rfl, rfl⟩

/-- Behind a write that succeeded. -/
theorem writeDoneCb_of_nonneg {status : ℤ} (hok : 0 ≤ status) : ∃ u : Socks,
    u.conn.writeState = .idle ∧ u.conn.writeReq = false ∧ u.conn.closing = t.conn.closing ∧
      u.conn.released = t.conn.released ∧ u.conn.outbuf = t.conn.outbuf ∧
      Wgx.writeDoneCb env status t =
        if 0 < u.conn.outbuf.length then Wgx.scheduleClientFlush u else u := by
  obtain ⟨hidle, hreq, hclosing, hgone, hout⟩ := conn_endWrite t
  obtain ⟨wgConn, throttled, hconn⟩ := conn_updateWgRecvWindowState env (endWrite t)
  refine ⟨updateWgRecvWindowState env (endWrite t), ?_, ?_, ?_, ?_, ?_, ?_⟩
  · rw [hconn]
    exact hidle
  · rw [hconn]
    exact hreq
  · rw [hconn]
    exact hclosing
  · rw [hconn]
    exact hgone
  · rw [hconn]
    exact hout
  · exact if_neg (not_lt.2 hok)

theorem sound_writeDoneCb {status : ℤ} (h : Sound t.conn)
    (htime : 0 ≤ status → t.conn.closing = true → t.conn.outbuf = []) :
    Sound (Wgx.writeDoneCb env status t).conn := by
  rcases lt_or_ge status 0 with hfail | hok
  · obtain ⟨hidle, hreq, hclosing, hgone, -⟩ := conn_endWrite t
    have hend : Sound (endWrite t).conn := by
      refine ⟨fun _ => ⟨?_, ?_⟩, fun _ => .inr ⟨hidle, hreq⟩, ?_⟩
      · rw [hidle]
        exact nofun
      · rw [hreq]
        exact nofun
      · rw [hgone, hclosing]
        exact h.gone
    have hdo : Wgx.writeDoneCb env status t = Wgx.socks5ConnClose env .client (endWrite t) :=
      if_pos hfail
    rw [hdo]
    exact sound_socks5ConnClose _ hend
  · obtain ⟨u, hidle, hreq, hclosing, hgone, hout, hdo⟩ := @writeDoneCb_of_nonneg t env status hok
    have hu : Sound u.conn := by
      refine ⟨fun _ => ⟨?_, ?_⟩, fun _ => .inr ⟨hidle, hreq⟩, ?_⟩
      · rw [hidle]
        exact nofun
      · rw [hreq]
        exact nofun
      · rw [hgone, hclosing]
        exact h.gone
    rw [hdo]
    split_ifs with hmore
    · refine sound_scheduleClientFlush hu (Bool.eq_false_iff.2 fun hshut => ?_)
      rw [hout, htime hok (hclosing ▸ hshut)] at hmore
      exact Nat.lt_irrefl 0 hmore
    · exact hu

/-- A write that succeeded makes a connection wait that has something to write, closed or not. -/
theorem queued_writeDoneCb {status : ℤ} (hok : 0 ≤ status) (hmore : t.conn.outbuf ≠ []) :
    (Wgx.writeDoneCb env status t).conn.writeState = .queued ∧
      (Wgx.writeDoneCb env status t).conn.closing = t.conn.closing ∧
      (Wgx.writeDoneCb env status t).conn.released = t.conn.released := by
  obtain ⟨u, hidle, -, hclosing, hgone, hout, hdo⟩ := @writeDoneCb_of_nonneg t env status hok
  rw [hdo, if_pos (by rw [hout]; exact List.length_pos_of_ne_nil hmore), Wgx.scheduleClientFlush,
    if_neg (not_not.2 hidle)]
  exact ⟨rfl, hclosing, hgone⟩

theorem sound_clientCloseCb (h : Sound t.conn) (hclosing : t.conn.closing = true) :
    Sound (clientCloseCb env t).conn := by
  unfold clientCloseCb
  rw [Socks.update_conn, conn_leaveTunnel]
  exact ⟨h.isOpen, h.shut, fun _ => hclosing⟩

end Sound

/-! ### Runs -/

/-- The queue is exact and the marks of every connection agree. -/
structure Inv (s : FlushServer) : Prop where
  exact : ∃ l, s.Exact queued destroyed l
  sound : ∀ i < s.brk, Sound (s.cells i).conn

section Runs

variable {s : FlushServer} {i : ℕ} {t : Socks}

theorem inv_init : Inv init := ⟨⟨[], Arena.exact_empty⟩, nofun⟩

theorem inv_move (h : Inv s) (hi : i < s.brk) (ht : Sound t.conn) : Inv (s.move queued i t) := by
  obtain ⟨l, hl⟩ := h.exact
  refine ⟨⟨_, Arena.exact_move hl hi ht.destroyed_of_queued⟩, fun j hj => ?_⟩
  rw [Arena.brk_move] at hj
  rw [Arena.cells_move]
  rcases eq_or_ne j i with rfl | hne
  · rw [Function.update_self]
    exact ht
  · rw [Function.update_of_ne hne]
    exact h.sound j hj

theorem inv_put (h : Inv s) (hi : i < s.brk) (ht : Sound t.conn)
    (hsame : t.conn.writeState = (s.cells i).conn.writeState) : Inv (s.put i t) := by
  have hqueued : queued t = queued (s.cells i) := by rw [queued, queued, hsame]
  rw [← Arena.move_of_eq hqueued]
  exact inv_move h hi ht

theorem inv_alloc (h : Inv s) (hq : queued t = false) (ht : Sound t.conn) : Inv (s.alloc t) := by
  obtain ⟨l, hl⟩ := h.exact
  refine ⟨⟨l, Arena.exact_alloc hl hq⟩, fun j hj => ?_⟩
  change Sound (Function.update s.cells s.brk t j).conn
  rcases eq_or_ne j s.brk with rfl | hne
  · rw [Function.update_self]
    exact ht
  · rw [Function.update_of_ne hne]
    exact h.sound j (Nat.lt_of_le_of_ne (Nat.le_of_lt_succ hj) hne)

theorem inv_flushCheckCb (h : Inv s) (env : ℕ → SocksEnv) : Inv (flushCheckCb env s) := by
  obtain ⟨l, hl⟩ := h.exact
  obtain ⟨hexact, hbrk, hcells⟩ := flushCheckCb_spec hl env
  refine ⟨⟨[], hexact⟩, fun j hj => ?_⟩
  rw [hbrk] at hj
  rw [hcells j hj]
  split_ifs with hq
  · exact sound_flushCheck (h.sound j hj) hq
  · exact h.sound j hj

/-- A connection whose write is not over does not wait. -/
theorem Sound.rests_of_writeReq (h : Sound t.conn) (hreq : t.conn.writeReq = true) :
    queued t = false := by
  rw [not_queued_iff]
  intro hq
  have hwriting := (h.isOpen (h.closing_of_queued hq)).2 hreq
  rw [hq] at hwriting
  cases hwriting

theorem inv_flushServerStep (h : Inv s) (e : FlushServerEvent) (htime : e.inTime s) :
    Inv (flushServerStep s e) := by
  unfold flushServerStep
  split_ifs with hen
  · cases e with
    | accepted => exact inv_alloc h rfl sound_accept
    | schedule i =>
      obtain ⟨hi, -, hopen⟩ := hen
      rw [flushServerCallback, scheduleClientFlush_eq]
      exact inv_move h hi (sound_scheduleClientFlush (h.sound i hi) hopen)
    | remove i =>
      rw [flushServerCallback, flushRemove_eq]
      exact inv_move h hen.1 (sound_flushRemove (h.sound i hen.1))
    | write env data i =>
      obtain ⟨hi, -, hopen⟩ := hen
      rw [flushServerCallback, clientWrite_eq]
      exact inv_move h hi (sound_clientWrite data (h.sound i hi) hopen)
    | close env why i =>
      rw [flushServerCallback, socks5ConnClose_eq]
      exact inv_move h hen.1 (sound_socks5ConnClose why (h.sound i hen.1))
    | done env status i =>
      have hsound := h.sound i hen.1
      rw [flushServerCallback, writeDoneCb_eq status (hsound.rests_of_writeReq hen.2.2)]
      exact inv_move h hen.1 (sound_writeDoneCb hsound (htime hen))
    | closeCb env i =>
      refine inv_put h hen.1 (sound_clientCloseCb (h.sound i hen.1) hen.2.2) ?_
      rw [clientCloseCb, Socks.update_conn, conn_leaveTunnel]
    | check env => exact inv_flushCheckCb h env
    | work i t =>
      obtain ⟨hi, hw, hreq, hclosing, hgone⟩ := hen
      exact inv_put h hi ((h.sound i hi).congr hw hreq hclosing hgone) hw
  · exact h

/-- A step behind which the queue is exact is in time. -/
theorem inTime_of_exact (h : Inv s) (e : FlushServerEvent) {l : List ℕ}
    (hl : (flushServerStep s e).Exact queued destroyed l) : e.inTime s := by
  cases e with
  | done env status i =>
    intro hen hok hclosing
    by_contra hmore
    obtain ⟨hq, hshut, -⟩ := @queued_writeDoneCb (s.cells i) env status hok hmore
    have hstep : flushServerStep s (.done env status i) =
        s.move queued i (Wgx.writeDoneCb env status (s.cells i)) := by
      rw [flushServerStep, if_pos hen]
      exact writeDoneCb_eq status ((h.sound i hen.1).rests_of_writeReq hen.2.2)
    have hcell : (flushServerStep s (.done env status i)).cells i =
        Wgx.writeDoneCb env status (s.cells i) := by
      rw [hstep, Arena.cells_move_self]
    have hmem : i ∈ l := by
      rw [hl.mem_iff, hcell, hstep, Arena.brk_move]
      exact ⟨hen.1, decide_eq_true hq⟩
    have hpresent := hl.present i hmem
    rw [hcell, destroyed, hshut, hclosing] at hpresent
    cases hpresent
  | _ => trivial

end Runs

end FlushServer

/-- **The flush queues hold the connections that wait**: that of a stack behind every run, and that
of a server behind every run in which no write that succeeded after its connection was closed leaves
something to write. -/
theorem flush_queues_exact_iff (fs : List FlushEvent) (es : List FlushServerEvent) :
    (∃ l, (flushRun fs).Exact FlushStack.queued FlushStack.destroyed l) ∧
    ((∀ pre, pre <+: es →
        ∃ l, (flushServerRun pre).Exact FlushServer.queued FlushServer.destroyed l) ↔
      Machine.Guarded flushServerStep (fun s e => e.inTime s) .init es) := by
  refine ⟨FlushStack.exact_run fs, ?_⟩
  exact (@Machine.guarded_iff_forall_prefix _ _ flushServerStep (fun s e => e.inTime s)
    FlushServer.Inv (fun s => ∃ l, s.Exact FlushServer.queued FlushServer.destroyed l)
    (fun s e h htime => FlushServer.inv_flushServerStep h e htime) (fun s h => h.exact)
    (fun s e h ⟨_, hl⟩ => FlushServer.inTime_of_exact h e hl) _ FlushServer.inv_init es).symm

/-! ### A write that ends late -/

namespace FlushServer

/-- Memory is there, and `uv_write` takes what it is given. -/
def calmEnv : SocksEnv where
  malloc _ := true
  realloc _ _ := true
  uvWrite := 0
  connect := none
  dnsCacheLookup _ := none
  dnsStartQuery _ := .pending

/-- A connection whose tunnel is up. -/
def relaying : Socks where
  conn := { Socks.accept.conn with
    state := .established
    wgConn := some ⟨Conn.fresh .established 0 0 ⟨true, true, true, true, true⟩, []⟩ }
  trace := []

/-- The tunnel brings 8192 bytes, which are passed to `uv_write` at once, and one more; the client
ends its side, only then the write reports its success, and the handle has gone. -/
def lateRun : List FlushServerEvent :=
  [.accepted, .work 0 relaying, .write calmEnv (List.replicate 8192 0) 0, .write calmEnv [0] 0,
    .close calmEnv .client 0, .done calmEnv 0 0, .closeCb calmEnv 0]

variable {t : Socks} {env : SocksEnv} {data : List Byte}

theorem clientWrite_of_room (halloc : ∀ conn n, env.realloc conn n = true)
    (hopen : t.conn.writeState ≠ .closed) (hdata : data ≠ []) : ∃ u : Socks,
    u.conn.writeState = t.conn.writeState ∧ u.conn.writeReq = t.conn.writeReq ∧
      u.conn.closing = t.conn.closing ∧ u.conn.released = t.conn.released ∧
      u.conn.outbuf = t.conn.outbuf ++ data ∧
      Wgx.clientWrite env data t =
        if u.conn.outbuf.length ≥ socks5FlushSize then Wgx.clientFlush env (Wgx.flushRemove u)
        else Wgx.scheduleClientFlush u := by
  have hroom : ∃ cap, reserveBuf env (t.log (.given data)).conn
      ((t.log (.given data)).conn.outbuf.length + data.length) = some cap := by
    unfold reserveBuf
    by_cases hcap : (t.log (.given data)).conn.outbufCap ≥
        (t.log (.given data)).conn.outbuf.length + data.length
    · rw [if_pos hcap]
      exact ⟨_, rfl⟩
    · rw [if_neg hcap]
      exact ⟨_, if_pos (halloc _ _)⟩
  obtain ⟨cap, hcap⟩ := hroom
  obtain ⟨wgConn, throttled, hconn⟩ := conn_updateWgRecvWindowState env
    ((t.log (.given data)).update fun conn =>
      { conn with outbuf := conn.outbuf ++ data, outbufCap := cap })
  refine ⟨updateWgRecvWindowState env ((t.log (.given data)).update fun conn =>
    { conn with outbuf := conn.outbuf ++ data, outbufCap := cap }), ?_, ?_, ?_, ?_, ?_, ?_⟩
  · rw [hconn]; rfl
  · rw [hconn]; rfl
  · rw [hconn]; rfl
  · rw [hconn]; rfl
  · rw [hconn]; rfl
  · unfold Wgx.clientWrite
    simp only
    rw [if_neg, hcap]
    rintro (hclosed | hnil)
    · exact hopen hclosed
    · exact hdata (List.length_eq_zero_iff.1 hnil)

/-- Much data for an idle connection is passed to `uv_write` at once. -/
theorem clientWrite_large (halloc : ∀ conn n, env.realloc conn n = true) (huv : 0 ≤ env.uvWrite)
    (hidle : t.conn.writeState = .idle) (hlen : socks5FlushSize ≤ data.length) :
    (Wgx.clientWrite env data t).conn.writeState = .writing ∧
      (Wgx.clientWrite env data t).conn.writeReq = true ∧
      (Wgx.clientWrite env data t).conn.closing = t.conn.closing ∧
      (Wgx.clientWrite env data t).conn.released = t.conn.released ∧
      (Wgx.clientWrite env data t).conn.outbuf = [] := by
  have hpos : 0 < data.length := lt_of_lt_of_le (by decide) hlen
  obtain ⟨u, hw, -, hclosing, hgone, hout, hdo⟩ := @clientWrite_of_room t env data halloc
    (by rw [hidle]; exact nofun) (List.ne_nil_of_length_pos hpos)
  have hlong : socks5FlushSize ≤ u.conn.outbuf.length := by
    rw [hout, List.length_append]
    omega
  have hremove : Wgx.flushRemove u = u := by
    rw [Wgx.flushRemove, if_pos]
    rw [hw, hidle]
    exact nofun
  rw [hdo, if_pos hlong, hremove, Wgx.clientFlush, if_neg]
  · simp only
    rw [if_neg (not_lt.2 huv)]
    exact ⟨rfl, rfl, hclosing, hgone, rfl⟩
  · rw [hw, hidle]
    rintro (h | h | h)
    · cases h
    · cases h
    · exact absurd (h ▸ hlong) (by decide)

/-- Little data for a connection whose write is not over stays where it is. -/
theorem clientWrite_small (halloc : ∀ conn n, env.realloc conn n = true)
    (hw : t.conn.writeState = .writing) (hdata : data ≠ [])
    (hlen : t.conn.outbuf.length + data.length < socks5FlushSize) :
    (Wgx.clientWrite env data t).conn.writeState = .writing ∧
      (Wgx.clientWrite env data t).conn.writeReq = t.conn.writeReq ∧
      (Wgx.clientWrite env data t).conn.closing = t.conn.closing ∧
      (Wgx.clientWrite env data t).conn.released = t.conn.released ∧
      (Wgx.clientWrite env data t).conn.outbuf = t.conn.outbuf ++ data := by
  obtain ⟨u, hw', hreq, hclosing, hgone, hout, hdo⟩ := @clientWrite_of_room t env data halloc
    (by rw [hw]; exact nofun) hdata
  rw [hdo, if_neg, Wgx.scheduleClientFlush, if_pos]
  · exact ⟨hw'.trans hw, hreq, hclosing, hgone, hout⟩
  · rw [hw', hw]
    exact nofun
  · rw [hout, List.length_append]
    exact not_le.2 hlen

/-- An event that runs a function on one connection, where the function is a `move`. -/
theorem step_eq_move {s : FlushServer} {i : ℕ} {t u : Socks} {e : FlushServerEvent}
    (ht : queued t = queued (s.cells i)) (hen : e.enabled (s.move queued i t))
    (hdo : flushServerCallback (s.move queued i t) e = (s.move queued i t).move queued i u) :
    flushServerStep (s.move queued i t) e = s.move queued i u := by
  rw [flushServerStep, if_pos hen, hdo, Arena.move_move (.inl ht)]

/-- A write that succeeded, and reports it after the close, leaves a connection on the list whose
memory is freed. -/
theorem head_of_late {s : FlushServer} {i : ℕ} {big more : List Byte}
    (hexact : s.Exact queued destroyed []) (hi : i < s.brk)
    (hidle : (s.cells i).conn.writeState = .idle) (hopen : (s.cells i).conn.closing = false)
    (hgone : (s.cells i).conn.released = false) (hbig : socks5FlushSize ≤ big.length)
    (hmore : more ≠ []) (hshort : more.length < socks5FlushSize) {s' : FlushServer}
    (hrun : Machine.run flushServerStep s [.write calmEnv big i, .write calmEnv more i,
      .close calmEnv .client i, .done calmEnv 0 i, .closeCb calmEnv i] = s') :
    s'.queue.head = some i ∧ (s'.cells i).conn.released = true := by
  have halloc : ∀ conn n, calmEnv.realloc conn n = true := fun _ _ => rfl
  have hrests : queued (s.cells i) = false := queued_of_idle hidle
  have hthere : ∀ t : Socks, i < (s.move queued i t).brk := fun t => by rwa [Arena.brk_move]
  -- the two writes
  obtain ⟨hw₁, hreq₁, hopen₁, hgone₁, hout₁⟩ :=
    @clientWrite_large (s.cells i) calmEnv big halloc le_rfl hidle hbig
  generalize ht₁ : Wgx.clientWrite calmEnv big (s.cells i) = t₁ at hw₁ hreq₁ hopen₁ hgone₁ hout₁
  have hrests₁ : queued t₁ = queued (s.cells i) := by
    rw [hrests, not_queued_iff, hw₁]
    exact nofun
  have hstep₁ : flushServerStep s (.write calmEnv big i) = s.move queued i t₁ := by
    rw [flushServerStep, if_pos ⟨hi, hgone, hopen⟩, flushServerCallback, clientWrite_eq, ht₁]
  obtain ⟨hw₂, hreq₂, hopen₂, hgone₂, hout₂⟩ := @clientWrite_small t₁ calmEnv more halloc hw₁ hmore
    (by rw [hout₁]; simpa using hshort)
  generalize ht₂ : Wgx.clientWrite calmEnv more t₁ = t₂ at hw₂ hreq₂ hopen₂ hgone₂ hout₂
  have hrests₂ : queued t₂ = queued (s.cells i) := by
    rw [hrests, not_queued_iff, hw₂]
    exact nofun
  have hstep₂ : flushServerStep (s.move queued i t₁) (.write calmEnv more i) =
      s.move queued i t₂ := by
    refine step_eq_move hrests₁ ⟨hthere t₁, ?_, ?_⟩ ?_
    · rw [Arena.cells_move_self, hgone₁, hgone]
    · rw [Arena.cells_move_self, hopen₁, hopen]
    · rw [flushServerCallback, clientWrite_eq, Arena.cells_move_self, ht₂]
  -- the close
  obtain ⟨reading, hconn⟩ := @conn_finishClose calmEnv .client (Wgx.flushRemove t₂)
  have hremove : Wgx.flushRemove t₂ = t₂ := by
    rw [Wgx.flushRemove, if_pos]
    rw [hw₂]
    exact nofun
  rw [← socks5ConnClose_of_open .client (by rw [hw₂]; exact nofun), hremove] at hconn
  generalize ht₃ : Wgx.socks5ConnClose calmEnv .client t₂ = t₃ at hconn
  have hrests₃ : queued t₃ = queued (s.cells i) := by
    rw [hrests, not_queued_iff, hconn]
    exact nofun
  have hstep₃ : flushServerStep (s.move queued i t₂) (.close calmEnv .client i) =
      s.move queued i t₃ := by
    refine step_eq_move hrests₂ ⟨hthere t₂, ?_⟩ ?_
    · rw [Arena.cells_move_self, hgone₂, hgone₁, hgone]
    · rw [flushServerCallback, socks5ConnClose_eq, Arena.cells_move_self, ht₃]
  -- the end of the write
  obtain ⟨hq₄, hshut₄, hgone₄⟩ := @queued_writeDoneCb t₃ calmEnv 0 le_rfl (by
    rw [hconn]
    simpa [hout₂, hout₁] using hmore)
  generalize ht₄ : Wgx.writeDoneCb calmEnv 0 t₃ = t₄ at hq₄ hshut₄ hgone₄
  have hstep₄ : flushServerStep (s.move queued i t₃) (.done calmEnv 0 i) = s.move queued i t₄ := by
    refine step_eq_move hrests₃ ⟨hthere t₃, ?_, ?_⟩ ?_
    · rw [Arena.cells_move_self, hconn]
      exact hgone₂.trans (hgone₁.trans hgone)
    · rw [Arena.cells_move_self, hconn]
      exact hreq₂.trans hreq₁
    · rw [flushServerCallback, writeDoneCb_eq, Arena.cells_move_self, ht₄]
      rw [Arena.cells_move_self, hrests₃, hrests]
  have hclosing : t₄.conn.closing = true := by rw [hshut₄, hconn]
  have hstep₅ : flushServerStep (s.move queued i t₄) (.closeCb calmEnv i) =
      (s.move queued i t₄).put i (clientCloseCb calmEnv t₄) := by
    rw [flushServerStep, if_pos, flushServerCallback, Arena.cells_move_self]
    refine ⟨hthere t₄, ?_, ?_⟩
    · rw [Arena.cells_move_self, hgone₄, hconn]
      exact hgone₂.trans (hgone₁.trans hgone)
    · rw [Arena.cells_move_self, hclosing]
  simp only [Machine.run_cons, Machine.run_nil, hstep₁, hstep₂, hstep₃, hstep₄, hstep₅] at hrun
  subst hrun
  constructor
  · rw [Arena.move_of_waits hrests (decide_eq_true hq₄)]
    exact (hexact.holds.push List.not_mem_nil).chain.1
  · rw [Arena.cells_put, Function.update_self]
    rfl

end FlushServer

/-- A connection is freed while it stands at the head of the list. -/
theorem freed_connection_queued :
    (flushServerRun FlushServer.lateRun).queue.head = some 0 ∧
      ((flushServerRun FlushServer.lateRun).cells 0).conn.released = true ∧
      ¬ ∃ l, (flushServerRun FlushServer.lateRun).Exact FlushServer.queued
        FlushServer.destroyed l := by
  have haccept : flushServerStep .init .accepted = FlushServer.init.alloc .accept := if_pos trivial
  have hwork : flushServerStep (FlushServer.init.alloc .accept) (.work 0 FlushServer.relaying) =
      (FlushServer.init.alloc .accept).put 0 FlushServer.relaying :=
    if_pos ⟨Nat.zero_lt_one, rfl, rfl, rfl, rfl⟩
  have hexact : ((FlushServer.init.alloc .accept).put 0 FlushServer.relaying).Exact
      FlushServer.queued FlushServer.destroyed [] := by
    refine ⟨Queue.holds_empty, fun i => iff_of_false List.not_mem_nil ?_,
      fun i hi => absurd hi List.not_mem_nil⟩
    rintro ⟨hi, hq⟩
    obtain rfl : i = 0 := Nat.lt_one_iff.1 hi
    cases hq
  obtain ⟨hhead, hgone⟩ := @FlushServer.head_of_late _ 0 (List.replicate 8192 0) [0] hexact
    Nat.zero_lt_one rfl rfl rfl (by rw [List.length_replicate]; decide) (List.cons_ne_nil 0 [])
    (by decide) _ rfl
  have hrun : flushServerRun FlushServer.lateRun = Machine.run flushServerStep
      ((FlushServer.init.alloc .accept).put 0 FlushServer.relaying)
      [.write FlushServer.calmEnv (List.replicate 8192 0) 0, .write FlushServer.calmEnv [0] 0,
        .close FlushServer.calmEnv .client 0, .done FlushServer.calmEnv 0 0,
        .closeCb FlushServer.calmEnv 0] := by
    rw [flushServerRun, FlushServer.lateRun, Machine.run_cons, haccept, Machine.run_cons, hwork]
  rw [hrun]
  refine ⟨hhead, hgone, ?_⟩
  rintro ⟨l, hl⟩
  have hmem : 0 ∈ l := List.mem_of_head? (hl.holds.chain.eq_head?.symm.trans hhead)
  have hpresent := hl.present 0 hmem
  rw [FlushServer.destroyed, hgone, Bool.or_true] at hpresent
  cases hpresent

end Wgx
