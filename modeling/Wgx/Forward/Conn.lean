import Wgx.Tcp.Input

/-!
# The TCP forwarder of the server mode (`forward.c`)

A connection that comes out of the tunnel is relayed to a local service.

* `Forward`: the relay, with its connection of the TCP stack and what it has done so far;
* `pendingAppend`, `forwardFlushPendingLocal`, `forwardFlushPendingWg`: the two pending buffers;
* `forwardOnAccept`: how a relay starts;
* `forwardLocalRead`, `forwardConnectCb`, `forwardWriteDone`: callbacks of the event loop;
* `forwardWgOnData`, `forwardWgOnWriteable`, `forwardWgOnClose`: callbacks of the tunnel;
* `forwardStep`: one of these callbacks, where it can be called.

The answers of the allocator and of the event loop's functions are the environment of an event.
-/

namespace Wgx

/-! ### Relays -/

/-- `FORWARD_PENDING_LIMIT`. -/
def forwardPendingLimit : ℕ := 512 * 1024

/-- A pending buffer: its bytes and the capacity of its memory. -/
structure PendingBuf where
  data : List Byte
  cap : ℕ
  deriving DecidableEq

/-- `forward_conn_t`: `wgConn` says that the pointer to the tunnel's connection is set, `reading` and
`connecting` are the state of the local handle. -/
structure ForwardConn where
  wgConn : Bool
  pendingWg : PendingBuf
  pendingLocal : PendingBuf
  localConnected : Bool
  localReadPaused : Bool
  localClosing : Bool
  localClosed : Bool
  wgClosed : Bool
  closing : Bool
  reading : Bool
  connecting : Bool
  deriving DecidableEq

/-- What a relay does: bytes are read from the local socket, passed to `tcp_send`, delivered by the
tunnel, or passed to `uv_write`. -/
inductive ForwardEntry
  | read (data : List Byte)
  | sent (data : List Byte)
  | delivered (data : List Byte)
  | written (data : List Byte)
  deriving DecidableEq

/-- A relay, its connection of the stack, and what it did so far. -/
structure Forward where
  conn : ForwardConn
  tcp : Tcp
  trace : List ForwardEntry

/-- The environment of one event: whether an allocation succeeds, and what the functions of the
event loop return. -/
structure ForwardEnv where
  tcpMalloc : ℕ → Bool
  malloc : Forward → ℕ → Bool
  realloc : Forward → ℕ → Bool
  uvWrite : Forward → List Byte → ℤ
  uvReadStart : Forward → ℤ
  uvTcpConnect : ℤ

/-- The environment in which a relay calls into the stack: it sets no `on_recv_window`, and no call
runs another callback. -/
def ForwardEnv.tcp (env : ForwardEnv) : TcpEnv := ⟨fun _ _ => [], fun _ => 0, env.tcpMalloc⟩

/-- Append to the trace. -/
def Forward.log (f : Forward) (e : ForwardEntry) : Forward := { f with trace := f.trace ++ [e] }

/-- Change the relay's record. -/
def Forward.update (f : Forward) (g : ForwardConn → ForwardConn) : Forward :=
  { f with conn := g f.conn }

@[simp] theorem Forward.log_conn (f : Forward) (e : ForwardEntry) : (f.log e).conn = f.conn := rfl

@[simp] theorem Forward.log_tcp (f : Forward) (e : ForwardEntry) : (f.log e).tcp = f.tcp := rfl

@[simp] theorem Forward.log_trace (f : Forward) (e : ForwardEntry) :
    (f.log e).trace = f.trace ++ [e] := rfl

@[simp] theorem Forward.update_conn (f : Forward) (g : ForwardConn → ForwardConn) :
    (f.update g).conn = g f.conn := rfl

@[simp] theorem Forward.update_tcp (f : Forward) (g : ForwardConn → ForwardConn) :
    (f.update g).tcp = f.tcp := rfl

@[simp] theorem Forward.update_trace (f : Forward) (g : ForwardConn → ForwardConn) :
    (f.update g).trace = f.trace := rfl

section Functions

variable (env : ForwardEnv)

/-! ### The end of a relay -/

/-- `forward_close_local`.  A handle that is closing is not read from any more. -/
def forwardCloseLocal (f : Forward) : Forward :=
  if f.conn.localClosing ∨ f.conn.localClosed then f
  else f.update fun conn => { conn with localClosing := true, reading := false }

/-- `forward_close`. -/
def forwardClose (f : Forward) : Forward :=
  if f.conn.closing then f
  else
    let f := f.update fun conn => { conn with closing := true }
    let f := if f.conn.wgConn ∧ !f.conn.wgClosed then { f with tcp := tcpClose env.tcp f.tcp } else f
    forwardCloseLocal f

/-! ### The pending buffers -/

/-- The doubling loop of the two append functions. -/
def forwardCapFor (need : ℕ) : ℕ → ℕ → ℕ
  | 0, cap => cap
  | fuel + 1, cap => if cap < need then forwardCapFor need fuel (cap * 2) else cap

/-- The memory of a buffer for `need` bytes, `realloc` failing where `none`. -/
def PendingBuf.reserve (buf : PendingBuf) (need : ℕ) (realloc : ℕ → Bool) : Option ℕ :=
  if need > buf.cap then
    let cap := forwardCapFor need 20 (if buf.cap ≠ 0 then buf.cap else 4096)
    if realloc cap then some cap else none
  else some buf.cap

/-- `forward_pending_append` and `forward_pending_local_append`, which differ in the buffer; `none`
is the return value `-1`. -/
def PendingBuf.append (buf : PendingBuf) (data : List Byte) (realloc : ℕ → Bool) :
    Option PendingBuf :=
  if data.length > forwardPendingLimit - buf.data.length then none
  else (buf.reserve (buf.data.length + data.length) realloc).map fun cap => ⟨buf.data ++ data, cap⟩

/-- `forward_pending_append`. -/
def forwardPendingAppend (data : List Byte) (f : Forward) : Option Forward :=
  (f.conn.pendingWg.append data (env.realloc f)).map fun buf =>
    f.update fun conn => { conn with pendingWg := buf }

/-- `forward_pending_local_append`. -/
def forwardPendingLocalAppend (data : List Byte) (f : Forward) : Option Forward :=
  (f.conn.pendingLocal.append data (env.realloc f)).map fun buf =>
    f.update fun conn => { conn with pendingLocal := buf }

/-- `tcp_send` on the relay's connection. -/
def forwardTcpSend (data : List Byte) (f : Forward) : ℤ × Forward :=
  let (ret, tcp) := tcpSend env.tcp data f.tcp
  (ret, { f with tcp := tcp }.log (.sent data))

/-- The loop of `forward_flush_pending_local`; the first component says that the relay was not closed
on the way.  Every round sends at least one byte. -/
def flushLocalLoop : ℕ → Forward → Bool × Forward
  | 0, f => (true, f)
  | fuel + 1, f =>
    if !f.conn.wgConn ∨ f.conn.pendingLocal.data.length = 0 then (true, f)
    else
      let avail := tcpSendAvailable f.tcp.conn
      if avail = 0 then (true, f)
      else
        let len := f.conn.pendingLocal.data.length
        let sendLen := if len < avail then len else avail
        let (ret, f) := forwardTcpSend env (f.conn.pendingLocal.data.take sendLen) f
        if ret < 0 then (false, forwardClose env f)
        else flushLocalLoop fuel (f.update fun conn => { conn with
          pendingLocal := ⟨conn.pendingLocal.data.drop sendLen, conn.pendingLocal.cap⟩ })

/-- `uv_read_start` on the local handle; a relay that cannot read is closed. -/
def forwardReadStart (f : Forward) : Forward :=
  if env.uvReadStart f < 0 then forwardClose env f
  else f.update fun conn => { conn with reading := true }

/-- The end of `forward_flush_pending_local`: what was paused goes on when nothing is pending. -/
def forwardResume (f : Forward) : Forward :=
  if f.conn.pendingLocal.data.length = 0 ∧ f.conn.localReadPaused ∧ f.conn.localConnected ∧
      !f.conn.localClosing ∧ !f.conn.localClosed then
    forwardReadStart env (f.update fun conn => { conn with localReadPaused := false })
  else f

/-- `forward_flush_pending_local`. -/
def forwardFlushPendingLocal (f : Forward) : Forward :=
  let (done, f) := flushLocalLoop env f.conn.pendingLocal.data.length f
  if done then forwardResume env f else f

/-- `forward_write_local`; `false` is the return value `-1`. -/
def forwardWriteLocal (data : List Byte) (f : Forward) : Bool × Forward :=
  if !env.malloc f data.length then (false, f)
  else (!decide (env.uvWrite f data < 0), f.log (.written data))

/-- `forward_flush_pending_wg`. -/
def forwardFlushPendingWg (f : Forward) : Forward :=
  if !f.conn.localConnected ∨ f.conn.pendingWg.data.length = 0 then f
  else
    let (ok, f) := forwardWriteLocal env f.conn.pendingWg.data f
    if !ok then forwardClose env f
    else f.update fun conn => { conn with pendingWg := ⟨[], conn.pendingWg.cap⟩ }

/-! ### Callbacks of the event loop -/

/-- What is left of a read goes into the pending buffer, and reading stops; a relay whose buffer is
full is closed. -/
def forwardPause (data : List Byte) (f : Forward) : Forward :=
  match forwardPendingLocalAppend env data f with
  | none => forwardClose env f
  | some f => f.update fun conn => { conn with reading := false, localReadPaused := true }

/-- `forward_local_read` on `nread` bytes of `buf`. -/
def forwardLocalRead (nread : ℤ) (buf : List Byte) (f : Forward) : Forward :=
  if nread ≤ 0 then
    if nread ≠ uvEagain then forwardClose env f else f
  else
    let data := buf.take nread.toNat
    let f := f.log (.read data)
    if !f.conn.wgConn then forwardClose env f
    else if f.conn.pendingLocal.data.length > 0 then
      match forwardPendingLocalAppend env data f with
      | none => forwardClose env f
      | some f => f
    else
      let avail := tcpSendAvailable f.tcp.conn
      if avail = 0 then forwardPause env data f
      else
        let sendLen := if data.length < avail then data.length else avail
        let (ret, f) := if 0 < sendLen then forwardTcpSend env (data.take sendLen) f else (0, f)
        if ret < 0 then forwardClose env f
        else if sendLen < data.length then forwardPause env (data.drop sendLen) f
        else f

/-- `forward_connect_cb`. -/
def forwardConnectCb (status : ℤ) (f : Forward) : Forward :=
  let f := f.update fun conn => { conn with connecting := false }
  if status < 0 then forwardClose env f
  else
    let f := f.update fun conn => { conn with localConnected := true }
    if env.uvReadStart f < 0 then forwardClose env f
    else forwardFlushPendingWg env (f.update fun conn => { conn with reading := true })

/-- `forward_write_done`. -/
def forwardWriteDone (status : ℤ) (f : Forward) : Forward :=
  if status < 0 then forwardClose env f else f

/-- `forward_local_close_cb`. -/
def forwardLocalCloseCb (f : Forward) : Forward :=
  f.update fun conn => { conn with localClosed := true }

/-! ### Callbacks of the tunnel -/

/-- `forward_wg_on_writeable`. -/
def forwardWgOnWriteable (f : Forward) : Forward :=
  if f.conn.closing then f else forwardFlushPendingLocal env f

/-- `forward_wg_on_close`. -/
def forwardWgOnClose (f : Forward) : Forward :=
  forwardCloseLocal (f.update fun conn => { conn with wgClosed := true, wgConn := false })

/-- `forward_wg_on_data`. -/
def forwardWgOnData (data : List Byte) (f : Forward) : Forward :=
  let f := f.log (.delivered data)
  if f.conn.closing then f
  else if !f.conn.localConnected then
    match forwardPendingAppend env data f with
    | none => forwardClose env f
    | some f => f
  else
    let (ok, f) := forwardWriteLocal env data (forwardFlushPendingLocal env f)
    if !ok then forwardClose env f else f

/-- A relay as `calloc` and the first assignments of `forward_on_accept` leave it. -/
def ForwardConn.fresh : ForwardConn where
  wgConn := true
  pendingWg := ⟨[], 0⟩
  pendingLocal := ⟨[], 0⟩
  localConnected := false
  localReadPaused := false
  localClosing := false
  localClosed := false
  wgClosed := false
  closing := false
  reading := false
  connecting := false

/-- The callbacks that `forward_on_accept` sets. -/
def forwardHandlers : Handlers := ⟨false, true, true, true, false⟩

/-- `forward_on_accept` with memory for the relay, on the connection `tcp`. -/
def forwardOnAccept (tcp : Tcp) : Forward :=
  let f : Forward := ⟨.fresh, tcp, []⟩
  if env.uvTcpConnect < 0 then forwardClose env f
  else f.update fun conn => { conn with connecting := true }

end Functions

/-! ### Events -/

/-- What can happen to a relay: the stack has changed its connection or calls one of its callbacks
(`on_close` for a FIN from the tunnel, or for another reason), or the event loop does. -/
inductive ForwardEvent
  | tunnel (tcp : Tcp)
  | data (data : List Byte)
  | writeable
  | close (fin : Bool)
  | connected (status : ℤ)
  | localRead (nread : ℤ) (buf : List Byte)
  | writeDone (status : ℤ)
  | localClosed

/-- When an event can happen.  The stack is done with a connection when it has called `on_close`.  The
event loop reads only between `uv_read_start` and `uv_read_stop` and completes a connect once; a
handle that is closing is not read from, its connect ends with an error, and it is closed last. -/
def ForwardEvent.enabled (e : ForwardEvent) (conn : ForwardConn) : Prop :=
  match e with
  | .tunnel _ | .data _ | .writeable | .close _ => conn.wgClosed = false
  | .connected status => conn.connecting = true ∧ (conn.localClosing = true → status < 0)
  | .localRead _ _ => conn.reading = true
  | .writeDone _ => conn.localClosed = false
  | .localClosed => conn.localClosing = true ∧ conn.localClosed = false ∧ conn.connecting = false

instance (e : ForwardEvent) (conn : ForwardConn) : Decidable (e.enabled conn) := by
  cases e <;> unfold ForwardEvent.enabled <;> infer_instance

/-- One event in its environment. -/
def forwardStep (f : Forward) (e : ForwardEnv × ForwardEvent) : Forward :=
  if e.2.enabled f.conn then
    match e.2 with
    | .tunnel tcp => { f with tcp := tcp }
    | .data data => forwardWgOnData e.1 data f
    | .writeable => forwardWgOnWriteable e.1 f
    | .close _ => forwardWgOnClose f
    | .connected status => forwardConnectCb e.1 status f
    | .localRead nread buf => forwardLocalRead e.1 nread buf f
    | .writeDone status => forwardWriteDone e.1 status f
    | .localClosed => forwardLocalCloseCb f
  else f

end Wgx
