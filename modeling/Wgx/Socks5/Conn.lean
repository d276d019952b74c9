import Wgx.Tcp.Conn
import Wgx.Tcp.Input

/-!
# Connections of the SOCKS5 server (`socks5.c`)

* `SocksConn` is `socks5_conn_t`, `Socks` a connection with the trace of what happened on it;
* `clientWrite`, `clientFlush`, `writeDoneCb`, `flushCheck`: the double-buffered writes to the
  client;
* `pendingGrow` … `pendingConsume`: the ring of client bytes that wait for the tunnel;
* `socks5ConnClose`, `clientCloseCb`: the end of a connection;
* `flushPendingToWg`, `wgOnConnect`, `wgOnData`, `wgOnWriteable`, `wgOnClose`: the tunnel's
  callbacks.

The tunnel is a connection of the TCP stack.  The answers of the allocator, of `uv_write`, of the
resolver and of `tcpstack_connect` are the environment of an event.
-/

namespace Wgx

/-! ### Constants -/

/-- `S5_VER`. -/
def s5Ver : Byte := 5

/-- `S5_ATYP_IPV4`. -/
def s5AtypIpv4 : Byte := 1

/-- `S5_REP_OK`. -/
def s5RepOk : Byte := 0

/-- `S5_REP_FAIL`. -/
def s5RepFail : Byte := 1

/-- `S5_REP_NOCONN`. -/
def s5RepNoconn : Byte := 5

/-- `SOCKS5_READ_BUFSIZE`. -/
def socks5ReadBufsize : ℕ := 16384

/-- `SOCKS5_PENDING_LIMIT`. -/
def socks5PendingLimit : ℕ := 512 * 1024

/-- `SOCKS5_CLIENT_OUTBUF_LIMIT`. -/
def socks5ClientOutbufLimit : ℕ := 2 * 1024 * 1024

/-- `SOCKS5_CLIENT_OUTBUF_RESUME`. -/
def socks5ClientOutbufResume : ℕ := socks5ClientOutbufLimit / 2

/-- The amount of output from which on `client_write` does not wait for the check phase. -/
def socks5FlushSize : ℕ := 8192

/-! ### The connection -/

/-- `socks5_state_t`. -/
inductive S5State
  | init | userpass | auth | resolving | connecting | established | closing
  deriving DecidableEq

/-- `socks5_write_state_t`. -/
inductive S5WriteState
  | idle | queued | writing | closed
  deriving DecidableEq

/-- `AF_UNSPEC`, `AF_INET` and `AF_INET6`. -/
inductive AddrFamily
  | unspec | inet | inet6
  deriving DecidableEq

/-- The ring `pending_data`, `pending_cap`, `pending_head`, `pending_len`. -/
structure Pending where
  data : ℕ → Byte
  cap : ℕ
  head : ℕ
  len : ℕ

/-- The ring without memory. -/
def Pending.empty : Pending := ⟨fun _ => 0, 0, 0, 0⟩

/-- `socks5_conn_t`.  The buffers are the bytes they hold beside their capacities; `writeReq` says
that `write_req` is in flight, `resolveReq` that the connection waits for the resolver, `reading`
and `closing` are the state of the client's handle, and `released` says that `client_close_cb` has
freed the connection. -/
structure SocksConn where
  state : S5State
  rxbuf : List Byte
  targetFamily : AddrFamily
  targetIp : InAddr
  targetIp6 : In6Addr
  targetPort : ℕ
  wgConn : Option Tcp
  pending : Pending
  outbuf : List Byte
  outbufCap : ℕ
  writeBuf : List Byte
  writeBufCap : ℕ
  writeState : S5WriteState
  writeReq : Bool
  resolveReq : Bool
  clientPaused : Bool
  wgRecvWindowThrottled : Bool
  reading : Bool
  closing : Bool
  released : Bool

/-! ### What happens on a connection -/

/-- Why `socks5_conn_close` is called. -/
inductive CloseReason
  | remote | failed | client | overflow | shutdown
  deriving DecidableEq

/-- An entry of the trace of a connection: data is read from the client, the request is complete
and the read that completed it holds the `tail` behind it, `dns_start_query` or `tcpstack_connect`
is called; data is given to `client_write`, left out by it for want of memory, or passed to
`uv_write`; `tcp_send` has taken data; the tunnel is closed and left to the stack; an address goes
into the resolver's cache; the client's handle is closed while `outbuf` holds `unsent`. -/
inductive SocksEntry
  | read (data : List Byte)
  | request (tail : List Byte)
  | query (domain : List Byte)
  | connect
  | given (data : List Byte)
  | dropped (data : List Byte)
  | written (data : List Byte)
  | sent (data : List Byte)
  | left (tunnel : Tcp)
  | cacheStore (domain : List Byte) (ip : InAddr)
  | closed (why : CloseReason) (unsent : List Byte)

/-- A connection and what happened on it so far. -/
structure Socks where
  conn : SocksConn
  trace : List SocksEntry

/-- What the resolver says: `status`, `family` and the addresses. -/
structure Answer where
  status : ℤ
  family : AddrFamily
  ip : InAddr
  ip6 : Option In6Addr

/-- What becomes of a query: it cannot be started, it waits for the resolver, or the resolver
answers at once, where `shuttingDown` is `dns_shutting_down`. -/
inductive QueryStart
  | failed
  | pending
  | answered (shuttingDown : Bool) (answer : Answer)

/-- The environment of one event: whether `malloc` of a size succeeds, whether `realloc` does for
the connection as it is, the result of `uv_write`, the initial sequence number with which
`tcpstack_connect` opens a tunnel if it does, and the resolver's cache and queries. -/
structure SocksEnv where
  malloc : ℕ → Bool
  realloc : SocksConn → ℕ → Bool
  uvWrite : ℤ
  connect : Option Seq
  dnsCacheLookup : List Byte → Option InAddr
  dnsStartQuery : List Byte → QueryStart

/-- What a server is configured to: `auth_required`, `auth_user`, `auth_pass`, and `local_ip6_set`
of its stack. -/
structure SocksServer where
  authRequired : Bool
  authUser : List Byte
  authPass : List Byte
  localIp6Set : Bool

/-- Append to the trace. -/
def Socks.log (s : Socks) (e : SocksEntry) : Socks := { s with trace := s.trace ++ [e] }

/-- Change the connection. -/
def Socks.update (s : Socks) (f : SocksConn → SocksConn) : Socks := { s with conn := f s.conn }

@[simp] theorem Socks.log_conn (s : Socks) (e : SocksEntry) : (s.log e).conn = s.conn := rfl

@[simp] theorem Socks.log_trace (s : Socks) (e : SocksEntry) :
    (s.log e).trace = s.trace ++ [e] := rfl

@[simp] theorem Socks.update_conn (s : Socks) (f : SocksConn → SocksConn) :
    (s.update f).conn = f s.conn := rfl

@[simp] theorem Socks.update_trace (s : Socks) (f : SocksConn → SocksConn) :
    (s.update f).trace = s.trace := rfl

/-! ### The tunnel's window -/

/-- `client_buffered_to_browser`. -/
def clientBufferedToBrowser (conn : SocksConn) : ℕ := conn.outbuf.length + conn.writeBuf.length

/-- `wg_recv_window`. -/
def wgRecvWindow (conn : SocksConn) : ℕ :=
  if conn.writeState = .closed then 0
  else if clientBufferedToBrowser conn ≥ socks5ClientOutbufLimit then 0
  else socks5ClientOutbufLimit - clientBufferedToBrowser conn

section Callbacks

variable (env : SocksEnv)

/-- The environment in which the connection calls into the stack: its `on_recv_window` is
`wg_recv_window`, and no call of the connection runs another callback. -/
def SocksEnv.tcp (conn : SocksConn) : TcpEnv where
  calls _ _ := []
  recvWindow _ := wgRecvWindow conn
  malloc := env.malloc

/-- `update_wg_recv_window_state`. -/
def updateWgRecvWindowState (s : Socks) : Socks :=
  match s.conn.wgConn with
  | none => s
  | some t =>
    if s.conn.writeState = .closed then s
    else if clientBufferedToBrowser s.conn ≥ socks5ClientOutbufResume then
      s.update fun conn => { conn with wgRecvWindowThrottled := true }
    else if s.conn.wgRecvWindowThrottled then
      let s := s.update fun conn => { conn with wgRecvWindowThrottled := false }
      s.update fun conn => { conn with wgConn := some (tcpUpdateRecvWindow (env.tcp conn) t) }
    else s

/-! ### The end of a connection -/

/-- `flush_remove`. -/
def flushRemove (s : Socks) : Socks :=
  if s.conn.writeState ≠ .queued then s
  else s.update fun conn => { conn with writeState := .idle }

/-- The connection lets go of its tunnel, `userdata`, `on_recv_window` and `on_writeable` of which
are cleared, and closes it. -/
def leaveTunnel (s : Socks) : Socks :=
  match s.conn.wgConn with
  | none => s
  | some t =>
    let t := t.update fun conn =>
      { conn with handlers := { conn.handlers with onRecvWindow := false, onWriteable := false } }
    (s.log (.left (tcpClose (env.tcp s.conn) t))).update fun conn => { conn with wgConn := none }

/-- `socks5_conn_close`, called for the reason `why`. -/
def socks5ConnClose (why : CloseReason) (s : Socks) : Socks :=
  if s.conn.writeState = .closed then s
  else
    let s := (flushRemove s).update fun conn => { conn with writeState := .closed }
    let s := (leaveTunnel env s).update fun conn => { conn with resolveReq := false }
    if s.conn.closing then s
    else
      (s.log (.closed why s.conn.outbuf)).update fun conn =>
        { conn with reading := false, closing := true }

/-- `client_close_cb`. -/
def clientCloseCb (s : Socks) : Socks :=
  (leaveTunnel env s).update fun conn => { conn with released := true }

/-! ### Writes to the client -/

/-- The doubling loop of `reserve_buf`. -/
def reserveCap (need : ℕ) : ℕ → ℕ → ℕ
  | 0, newCap => newCap
  | fuel + 1, newCap => if newCap < need then reserveCap need fuel (newCap * 2) else newCap

/-- `reserve_buf` on `outbuf`: its new capacity, `none` for the return value `-1`.  The doubling
starts above `0`, so `need` rounds are enough. -/
def reserveBuf (conn : SocksConn) (need : ℕ) : Option ℕ :=
  if conn.outbufCap ≥ need then some conn.outbufCap
  else
    let newCap := reserveCap need need (if conn.outbufCap ≠ 0 then conn.outbufCap else 1024)
    if env.realloc conn newCap then some newCap else none

/-- `schedule_client_flush`. -/
def scheduleClientFlush (s : Socks) : Socks :=
  if s.conn.writeState ≠ .idle then s
  else s.update fun conn => { conn with writeState := .queued }

/-- The two buffers change their roles and what was `outbuf` is passed to `uv_write`. -/
def startWrite (s : Socks) : Socks :=
  let s := s.update fun conn => { conn with
    writeBuf := conn.outbuf
    writeBufCap := conn.outbufCap
    outbuf := []
    outbufCap := conn.writeBufCap
    writeState := .writing }
  s.log (.written s.conn.writeBuf)

/-- `client_flush`. -/
def clientFlush (s : Socks) : Socks :=
  if s.conn.writeState = .closed ∨ s.conn.writeState = .writing ∨ s.conn.outbuf.length = 0 then s
  else
    let s := startWrite s
    if env.uvWrite < 0 then
      socks5ConnClose env .client (s.update fun conn => { conn with writeState := .idle })
    else s.update fun conn => { conn with writeReq := true }

/-- `client_write`. -/
def clientWrite (data : List Byte) (s : Socks) : Socks :=
  let s := s.log (.given data)
  if s.conn.writeState = .closed ∨ data.length = 0 then s
  else
    match reserveBuf env s.conn (s.conn.outbuf.length + data.length) with
    | none => s.log (.dropped data)
    | some cap =>
      let s := s.update fun conn => { conn with outbuf := conn.outbuf ++ data, outbufCap := cap }
      let s := updateWgRecvWindowState env s
      if s.conn.outbuf.length ≥ socks5FlushSize then clientFlush env (flushRemove s)
      else scheduleClientFlush s

/-- `flush_check_cb` on a queued connection. -/
def flushCheck (s : Socks) : Socks :=
  clientFlush env (s.update fun conn =>
    { conn with writeState := if conn.writeState = .queued then .idle else conn.writeState })

/-- `write_done_cb`. -/
def writeDoneCb (status : ℤ) (s : Socks) : Socks :=
  let s := s.update fun conn => { conn with writeReq := false, writeState := .idle, writeBuf := [] }
  let s :=
    if s.conn.outbufCap < s.conn.writeBufCap ∧ s.conn.outbuf.length = 0 then
      s.update fun conn =>
        { conn with outbufCap := conn.writeBufCap, writeBufCap := conn.outbufCap }
    else s
  if status < 0 then socks5ConnClose env .client s
  else
    let s := updateWgRecvWindowState env s
    if 0 < s.conn.outbuf.length then scheduleClientFlush s else s

/-- The bytes of a SOCKS5 reply. -/
def replyBytes (rep : Byte) : List Byte := [s5Ver, rep, 0, s5AtypIpv4, 0, 0, 0, 0, 0, 0]

/-- `send_reply`. -/
def sendReply (rep : Byte) (s : Socks) : Socks := clientWrite env (replyBytes rep) s

/-- Data that reports a failure is given to `client_write`, and the connection is closed. -/
def refuse (data : List Byte) (s : Socks) : Socks :=
  socks5ConnClose env .failed (clientWrite env data s)

/-! ### The ring of pending bytes -/

/-- The doubling loop of `pending_grow`. -/
def pendingCapFor (need : ℕ) : ℕ → ℕ → ℕ
  | 0, newCap => newCap
  | fuel + 1, newCap =>
    if newCap < need ∧ newCap < socks5PendingLimit then pendingCapFor need fuel (newCap * 2)
    else newCap

/-- `pending_grow`; `none` is the return value `-1`.  The doubling starts above `0` and stops at
the limit, so its number is bounded by the logarithm of that. -/
def pendingGrow (ring : Pending) (need : ℕ) : Option Pending :=
  if need ≤ ring.cap then some ring
  else
    let newCap := pendingCapFor need 19 (if ring.cap ≠ 0 then ring.cap else socks5ReadBufsize)
    let newCap := if newCap > socks5PendingLimit then socks5PendingLimit else newCap
    if newCap < need then none
    else if !env.malloc newCap then none
    else some { ring with
      data := Ring.blit (fun _ => 0) 0 (Ring.ringRead ring.data ring.cap ring.head ring.len)
      cap := newCap
      head := 0 }

/-- `pending_append`; `none` is the return value `-1`. -/
def pendingAppend (ring : Pending) (data : List Byte) : Option Pending :=
  if data.length = 0 then some ring
  else if ring.len + data.length > socks5PendingLimit then none
  else (pendingGrow env ring (ring.len + data.length)).map fun ring =>
    { ring with
      data := Ring.ringWrite ring.data ring.cap ((ring.head + ring.len) % ring.cap) data
      len := ring.len + data.length }

/-- `pending_contiguous_len`. -/
def pendingContiguousLen (ring : Pending) : ℕ :=
  if ring.len = 0 then 0
  else if ring.cap - ring.head < ring.len then ring.cap - ring.head else ring.len

/-- `pending_consume`. -/
def pendingConsume (ring : Pending) (len : ℕ) : Pending :=
  if len ≥ ring.len then { ring with head := 0, len := 0 }
  else { ring with head := (ring.head + len) % ring.cap, len := ring.len - len }

/-! ### Bytes for the tunnel -/

/-- `tcp_send` on the tunnel; what it takes is recorded. -/
def tunnelSend (t : Tcp) (data : List Byte) (s : Socks) : ℤ × Socks :=
  let (ret, t) := tcpSend (env.tcp s.conn) data t
  let s := s.update fun conn => { conn with wgConn := some t }
  if ret < 0 then (ret, s) else (ret, s.log (.sent data))

/-- The loop of `flush_pending_to_wg`.  Every round sends at least one byte. -/
def flushPendingLoop : ℕ → Socks → Socks
  | 0, s => s
  | fuel + 1, s =>
    match s.conn.wgConn with
    | none => s
    | some t =>
      if s.conn.pending.len = 0 then s
      else
        let avail := tcpSendAvailable t.conn
        if avail = 0 then s
        else
          let contig := pendingContiguousLen s.conn.pending
          let sendLen := if contig < avail then contig else avail
          let (ret, s) := tunnelSend env t
            (Ring.slice s.conn.pending.data s.conn.pending.head sendLen) s
          if ret < 0 then s
          else flushPendingLoop fuel (s.update fun conn =>
            { conn with pending := pendingConsume conn.pending sendLen })

/-- The client is read from again. -/
def resumeReading (s : Socks) : Socks :=
  s.update fun conn => { conn with clientPaused := false, reading := true }

/-- `flush_pending_to_wg`. -/
def flushPendingToWg (s : Socks) : Socks :=
  if s.conn.wgConn.isNone ∨ s.conn.state ≠ .established ∨ s.conn.pending.len = 0 then s
  else
    let s := flushPendingLoop env s.conn.pending.len s
    if s.conn.pending.len = 0 then
      let s := s.update fun conn => { conn with pending := .empty }
      if s.conn.clientPaused ∧ s.conn.writeState ≠ .closed then resumeReading s else s
    else s

/-- The direct path of `client_read_established`: what `tcp_send` takes of `data` at once. -/
def sendDirect (t : Tcp) (data : List Byte) (s : Socks) : ℕ × Socks :=
  let avail := tcpSendAvailable t.conn
  let sendLen := if data.length < avail then data.length else avail
  if 0 < sendLen then
    let (ret, s) := tunnelSend env t (data.take sendLen) s
    if ret < 0 then (0, s) else (sendLen, s)
  else (sendLen, s)

/-- Data goes into the ring; where it finds no place, the connection is closed. -/
def bufferPending (data : List Byte) (s : Socks) : Socks :=
  match pendingAppend env s.conn.pending data with
  | none => socks5ConnClose env .overflow s
  | some ring => s.update fun conn => { conn with pending := ring }

/-- Reading stops while bytes are pending or the tunnel's buffer is filling up. -/
def pauseIfFull (s : Socks) : Socks :=
  match s.conn.wgConn with
  | none => s
  | some t =>
    if 0 < s.conn.pending.len ∨ t.conn.sendbufLen > wgTcpSendbufSize * 3 / 4 then
      s.update fun conn => { conn with reading := false, clientPaused := true }
    else s

/-- `client_read_established`.  A connection that is closed on the way has no tunnel any more, so
that nothing is left to pause. -/
def clientReadEstablished (data : List Byte) (s : Socks) : Socks :=
  match s.conn.state with
  | .resolving | .connecting => bufferPending env data s
  | .established =>
    match s.conn.wgConn with
    | none => s
    | some t =>
      let (sendLen, s) := sendDirect env t data s
      pauseIfFull (bufferPending env (data.drop sendLen) s)
  | _ => s

/-! ### Callbacks of the tunnel -/

/-- `wg_on_connect`. -/
def wgOnConnect (status : ℤ) (s : Socks) : Socks :=
  if s.conn.writeState = .closed then s
  else if status < 0 then refuse env (replyBytes s5RepNoconn) s
  else
    let s := s.update fun conn => { conn with state := .established }
    let s := sendReply env s5RepOk s
    if 0 < s.conn.pending.len then flushPendingToWg env s else s

/-- `wg_on_data`. -/
def wgOnData (data : List Byte) (s : Socks) : Socks :=
  if s.conn.writeState = .closed then s else clientWrite env data s

/-- `wg_on_writeable`. -/
def wgOnWriteable (s : Socks) : Socks :=
  let s := if s.conn.writeState ≠ .closed then flushPendingToWg env s else s
  if s.conn.clientPaused ∧ s.conn.pending.len = 0 ∧ s.conn.writeState ≠ .closed then
    resumeReading s
  else s

/-- `wg_on_close`: the stack ends the tunnel, which is not closed again. -/
def wgOnClose (s : Socks) : Socks :=
  socks5ConnClose env .remote (s.update fun conn => { conn with wgConn := none })

end Callbacks

end Wgx
