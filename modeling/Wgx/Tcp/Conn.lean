import Wgx.Basic
import Wgx.Lib.Ring
import Wgx.Lib.Serial

/-!
# Connections of the userspace TCP stack (`tcpstack.h`, `tcpstack.c`)

* `Conn` is `tcp_conn_t`, `Segment` what `send_segment` puts on the wire, `Inbound` a decoded
  incoming segment;
* `Tcp` is a connection with the trace of what happened on it;
* `sendbufGrow` … `sendbufConsume`: the send ring;
* `tcpFlushPending`, `tcpAckNow`, `tcpAckData`: transmission;
* `tcpSend`, `tcpClose`, `tcpUpdateRecvWindow`: what the owner of a connection calls.

The owner's callbacks are part of the environment: `Env.calls` gives the calls into the stack that
a callback makes on the connection it is given.
-/

namespace Wgx

/-! ### Constants -/

/-- `WG_TCP_MSS`. -/
def wgTcpMss : ℕ := 1380

/-- `WG_TCP_WINDOW`. -/
def wgTcpWindow : ℕ := 65535

/-- `WG_TCP_WINDOW_SCALE`. -/
def wgTcpWindowScale : ℕ := 4

/-- `WG_TCP_SENDBUF_INITIAL_SIZE`. -/
def wgTcpSendbufInitialSize : ℕ := 32 * 1024

/-- `WG_TCP_SENDBUF_SIZE`. -/
def wgTcpSendbufSize : ℕ := 256 * 1024

/-- `WG_TCP_RECV_OOO_SIZE`. -/
def wgTcpRecvOooSize : ℕ := 2 * 1024 * 1024

/-- `WG_TCP_DELAYED_ACK_SEGMENTS`. -/
def wgTcpDelayedAckSegments : ℕ := 2

/-- `WG_TCP_MAX_SACK_BLOCKS`. -/
def wgTcpMaxSackBlocks : ℕ := 3

/-- `WG_TCP_MAX_RETRANSMIT`. -/
def wgTcpMaxRetransmit : ℕ := 6

/-! ### Sequence arithmetic -/

/-- A sequence number, `uint32_t`. -/
abbrev Seq := BitVec 32

/-- `seq_lt`. -/
def seqLt (a b : Seq) : Bool := (a - b).toInt < 0

/-- `seq_le`. -/
def seqLe (a b : Seq) : Bool := (a - b).toInt ≤ 0

/-- `seq_gt`. -/
def seqGt (a b : Seq) : Bool := 0 < (a - b).toInt

section Seq

variable {base : Seq} {i j : ℕ} (hi : i < j + 2 ^ 31) (hj : j < i + 2 ^ 31)

include hi hj

theorem toInt_seq_sub :
    (base + BitVec.ofNat 32 i - (base + BitVec.ofNat 32 j)).toInt = (i : ℤ) - j :=
  Serial.toInt_sub (by omega) (by omega)

theorem seqLt_iff :
    seqLt (base + BitVec.ofNat 32 i) (base + BitVec.ofNat 32 j) = true ↔ i < j := by
  rw [seqLt, toInt_seq_sub hi hj, decide_eq_true_iff]
  omega

theorem seqLe_iff :
    seqLe (base + BitVec.ofNat 32 i) (base + BitVec.ofNat 32 j) = true ↔ i ≤ j := by
  rw [seqLe, toInt_seq_sub hi hj, decide_eq_true_iff]
  omega

theorem seqGt_iff :
    seqGt (base + BitVec.ofNat 32 i) (base + BitVec.ofNat 32 j) = true ↔ j < i := by
  rw [seqGt, toInt_seq_sub hi hj, decide_eq_true_iff]
  omega

end Seq

/-! ### Segments -/

/-- The flags `TCPF_*` of a segment. -/
structure Flags where
  fin : Bool := false
  syn : Bool := false
  rst : Bool := false
  psh : Bool := false
  ack : Bool := false
  deriving DecidableEq

/-- An emitted segment: what `send_segment` writes behind the addresses and ports. -/
structure Segment where
  flags : Flags
  seq : Seq
  ack : Seq
  window : ℕ
  sack : List (Seq × Seq)
  data : List Byte
  deriving DecidableEq

/-- An incoming segment of a connection, decoded: `options` are the bytes between the fixed header
and the data offset. -/
structure Inbound where
  flags : Flags
  seq : Seq
  ack : Seq
  window : BitVec 16
  options : List Byte
  payload : List Byte
  deriving DecidableEq

/-! ### Connections -/

/-- `tcp_state_t`. -/
inductive TcpState
  | closed | synReceived | synSent | established | finWait | closeWait | lastAck
  deriving DecidableEq

/-- The states behind `ESTABLISHED`. -/
def TcpState.ending : TcpState → Bool
  | .closed | .finWait | .closeWait | .lastAck => true
  | .synReceived | .synSent | .established => false

/-- `tcp_ooo_seg_t`. -/
structure OooSeg where
  seq : Seq
  data : List Byte
  deriving DecidableEq

/-- The field `len` of a buffered segment. -/
def OooSeg.len (seg : OooSeg) : BitVec 32 := BitVec.ofNat 32 seg.data.length

/-- Which callbacks are set. -/
structure Handlers where
  onConnect : Bool
  onData : Bool
  onClose : Bool
  onWriteable : Bool
  onRecvWindow : Bool
  deriving DecidableEq

/-- `tcp_conn_t`.  The timers are given by whether they are active; `sendbufFreed` and `released` say
that the memory of the send ring and that of the connection were freed. -/
structure Conn where
  state : TcpState
  iss : Seq
  sndUna : Seq
  sndNxt : Seq
  sndWnd : ℕ
  sndMss : ℕ
  sndWscale : ℕ
  rcvNxt : Seq
  rcvOoo : List OooSeg
  rcvOooLen : BitVec 32
  sendbuf : ℕ → Byte
  sendbufCap : ℕ
  sendbufHead : ℕ
  sendbufLen : ℕ
  sendbufFreed : Bool
  retransmitTimer : Bool
  ackTimer : Bool
  retransmitCount : ℕ
  closePending : ℕ
  delayedAckSegments : ℕ
  delayedAckBytes : ℕ
  beingFreed : Bool
  closeNotified : Bool
  flushQueued : Bool
  handlers : Handlers
  released : Bool

/-! ### What happens on a connection -/

/-- A call of one of the owner's callbacks. -/
inductive Callback
  | connect (status : ℤ)
  | data (data : List Byte)
  | close
  | writeable
  | accept
  deriving DecidableEq

/-- A call of the owner into the stack. -/
inductive ApiCall
  | send (data : List Byte)
  | close
  | updateRecvWindow
  | setRecvWindowCb (set : Bool)
  | setWriteable (set : Bool)
  deriving DecidableEq

/-- An entry of the trace of a connection: a segment is emitted, a callback is called, `tcp_send`
has taken data, the owner calls into the stack, or the handling of a remote FIN starts.  The last
two carry the connection as they find it. -/
inductive Entry
  | segment (seg : Segment)
  | callback (cb : Callback)
  | accepted (data : List Byte)
  | call (a : ApiCall) (conn : Conn)
  | remoteFin (conn : Conn)

/-- A connection and what happened on it so far. -/
structure Tcp where
  conn : Conn
  trace : List Entry

/-- The environment of one event: the calls that a callback makes on the connection it is given,
the value of `on_recv_window`, and whether `malloc` of a size succeeds. -/
structure TcpEnv where
  calls : Callback → Conn → List ApiCall
  recvWindow : Conn → ℕ
  malloc : ℕ → Bool

/-- Append to the trace. -/
def Tcp.log (t : Tcp) (es : List Entry) : Tcp := { t with trace := t.trace ++ es }

/-- Change the connection. -/
def Tcp.update (t : Tcp) (f : Conn → Conn) : Tcp := { t with conn := f t.conn }

@[simp] theorem Tcp.log_conn (t : Tcp) (es : List Entry) : (t.log es).conn = t.conn := rfl

@[simp] theorem Tcp.log_trace (t : Tcp) (es : List Entry) :
    (t.log es).trace = t.trace ++ es := rfl

@[simp] theorem Tcp.update_conn (t : Tcp) (f : Conn → Conn) : (t.update f).conn = f t.conn := rfl

@[simp] theorem Tcp.update_trace (t : Tcp) (f : Conn → Conn) :
    (t.update f).trace = t.trace := rfl

/-! ### Emitting segments -/

section Emit

variable (env : TcpEnv)

/-- The window field of a segment. -/
def advertisedWindow (conn : Conn) (isSyn : Bool) : ℕ :=
  if isSyn then wgTcpWindow
  else
    let actualWindow :=
      if conn.handlers.onRecvWindow then env.recvWindow conn % 2 ^ 32
      else wgTcpWindow * 2 ^ wgTcpWindowScale
    let scale := 2 ^ wgTcpWindowScale
    let advertised :=
      if actualWindow = 0 then 0 else (actualWindow + scale - 1) % 2 ^ 32 / scale
    if advertised > wgTcpWindow then wgTcpWindow else advertised

/-- The blocks of the SACK option. -/
def sackBlocks (conn : Conn) (flags : Flags) (datalen : ℕ) : List (Seq × Seq) :=
  if !flags.syn ∧ datalen = 0 ∧ flags.ack then
    (conn.rcvOoo.take wgTcpMaxSackBlocks).map fun seg => (seg.seq, seg.seq + seg.len)
  else []

/-- `send_segment`: the segment it builds. -/
def segmentOf (conn : Conn) (flags : Flags) (seq ack : Seq) (data : List Byte) : Segment where
  flags := flags
  seq := seq
  ack := if flags.ack then ack else 0
  window := advertisedWindow env conn flags.syn
  sack := sackBlocks conn flags data.length
  data := data

/-- `send_segment`. -/
def sendSegment (flags : Flags) (seq ack : Seq) (data : List Byte) (t : Tcp) : Tcp :=
  t.log [.segment (segmentOf env t.conn flags seq ack data)]

end Emit

/-! ### The send ring -/

/-- The doubling loop of `sendbuf_grow`. -/
def growCap (need : ℕ) : ℕ → ℕ → ℕ
  | 0, newCap => newCap
  | fuel + 1, newCap =>
    if newCap < need ∧ newCap < wgTcpSendbufSize then growCap need fuel (newCap * 2) else newCap

/-- `sendbuf_grow`; `none` is the return value `-1`.  The doubling starts above `0` and stops at
the maximal size, so its number is bounded by the logarithm of that. -/
def sendbufGrow (env : TcpEnv) (conn : Conn) (need : ℕ) : Option Conn :=
  if need ≤ conn.sendbufCap then some conn
  else
    let start := if conn.sendbufCap ≠ 0 then conn.sendbufCap else wgTcpSendbufInitialSize
    let newCap := growCap need 18 start
    let newCap := if newCap > wgTcpSendbufSize then wgTcpSendbufSize else newCap
    if newCap < need then none
    else if !env.malloc newCap then none
    else some { conn with
      sendbuf := Ring.blit (fun _ => 0) 0
        (Ring.ringRead conn.sendbuf conn.sendbufCap conn.sendbufHead conn.sendbufLen)
      sendbufCap := newCap
      sendbufHead := 0 }

/-- `sendbuf_append`. -/
def sendbufAppend (conn : Conn) (data : List Byte) : Conn :=
  { conn with
    sendbuf := Ring.ringWrite conn.sendbuf conn.sendbufCap
      ((conn.sendbufHead + conn.sendbufLen) % conn.sendbufCap) data
    sendbufLen := conn.sendbufLen + data.length }

/-- `sendbuf_copy_out`. -/
def sendbufCopyOut (conn : Conn) (off len : ℕ) : List Byte :=
  Ring.ringRead conn.sendbuf conn.sendbufCap ((conn.sendbufHead + off) % conn.sendbufCap) len

/-- `sendbuf_consume`. -/
def sendbufConsume (conn : Conn) (len : ℕ) : Conn :=
  if len ≥ conn.sendbufLen then { conn with sendbufHead := 0, sendbufLen := 0 }
  else { conn with
    sendbufHead := (conn.sendbufHead + len) % conn.sendbufCap
    sendbufLen := conn.sendbufLen - len }

/-! ### Transmission -/

section Transmit

variable (env : TcpEnv)

/-- The segment size in use. -/
def Conn.mss (conn : Conn) : ℕ := if conn.sndMss ≠ 0 then conn.sndMss else wgTcpMss

/-- The length of the next segment of `tcp_flush_pending`, `0` if the loop breaks. -/
def Conn.flushSegLen (conn : Conn) (inFlight : ℕ) : ℕ :=
  let sendBudget := if conn.sndWnd > inFlight then conn.sndWnd - inFlight else 0
  if sendBudget = 0 then 0
  else
    let remaining := conn.sendbufLen - inFlight
    let segLen := if remaining < conn.mss then remaining else conn.mss
    if segLen > sendBudget then sendBudget else segLen

/-- The loop of `tcp_flush_pending` from `inFlight` on: the segments it emits and the final
`in_flight`.  Every round sends at least one byte. -/
def flushLoop (conn : Conn) : ℕ → ℕ → List Segment × ℕ
  | 0, inFlight => ([], inFlight)
  | fuel + 1, inFlight =>
    if inFlight < conn.sendbufLen then
      let segLen := conn.flushSegLen inFlight
      if segLen = 0 then ([], inFlight)
      else
        let seg := segmentOf env conn { ack := true, psh := true }
          (conn.sndUna + BitVec.ofNat 32 inFlight) conn.rcvNxt
          (sendbufCopyOut conn inFlight segLen)
        let (segs, done) := flushLoop conn fuel (inFlight + segLen)
        (seg :: segs, done)
    else ([], inFlight)

/-- `tcp_flush_pending`. -/
def tcpFlushPending (t : Tcp) : Tcp :=
  if t.conn.beingFreed ∨ t.conn.state ≠ .established then t
  else
    let (segs, inFlight) :=
      flushLoop env t.conn t.conn.sendbufLen (t.conn.sndNxt - t.conn.sndUna).toNat
    let t := (t.log (segs.map .segment)).update fun conn =>
      { conn with sndNxt := conn.sndUna + BitVec.ofNat 32 inFlight }
    if 0 < t.conn.sendbufLen ∧ !t.conn.retransmitTimer then
      t.update fun conn => { conn with retransmitCount := 0, retransmitTimer := true }
    else t

/-- `schedule_flush`. -/
def scheduleFlush (t : Tcp) : Tcp :=
  if t.conn.beingFreed ∨ t.conn.flushQueued then t
  else t.update fun conn => { conn with flushQueued := true }

/-- `tcp_ack_now`. -/
def tcpAckNow (t : Tcp) : Tcp :=
  if t.conn.beingFreed then t
  else
    let t := t.update fun conn =>
      { conn with ackTimer := false, delayedAckSegments := 0, delayedAckBytes := 0 }
    sendSegment env { ack := true } t.conn.sndNxt t.conn.rcvNxt [] t

/-- `tcp_ack_data`. -/
def tcpAckData (len : ℕ) (immediate : Bool) (t : Tcp) : Tcp :=
  if t.conn.beingFreed then t
  else if immediate then tcpAckNow env t
  else
    let t := t.update fun conn => { conn with
      delayedAckSegments := conn.delayedAckSegments + 1
      delayedAckBytes := conn.delayedAckBytes + len }
    if t.conn.delayedAckSegments ≥ wgTcpDelayedAckSegments ∨
        t.conn.delayedAckBytes ≥ wgTcpMss * wgTcpDelayedAckSegments then tcpAckNow env t
    else if !t.conn.ackTimer then t.update fun conn => { conn with ackTimer := true }
    else t

end Transmit

/-! ### Calls of the owner -/

/-- `conn_destroy`: off the lists, both timers stopped and closing. -/
def connDestroy (t : Tcp) : Tcp :=
  if t.conn.beingFreed then t
  else t.update fun conn => { conn with
    beingFreed := true
    flushQueued := false
    retransmitTimer := false
    ackTimer := false
    closePending := conn.closePending + 2 }

section Api

variable (env : TcpEnv)

/-- `tcp_send`; the return value is `0` or `-1`. -/
def tcpSend (data : List Byte) (t : Tcp) : ℤ × Tcp :=
  if t.conn.beingFreed then (-1, t)
  else if t.conn.state ≠ .established then (-1, t)
  else if data.length = 0 then (0, t)
  else if data.length > 2 ^ 32 - 1 then (-1, t)
  else if t.conn.sendbufLen + data.length > wgTcpSendbufSize then (-1, t)
  else
    match sendbufGrow env t.conn (t.conn.sendbufLen + data.length) with
    | none => (-1, t)
    | some grown =>
      let t := (t.update fun _ => sendbufAppend grown data).log [.accepted data]
      if data.length ≥ wgTcpMss ∨ t.conn.sendbufLen ≥ wgTcpMss then (0, tcpFlushPending env t)
      else (0, scheduleFlush t)

/-- Enter `state`, send a FIN at `snd_nxt` and count it. -/
def sendFin (state : TcpState) (t : Tcp) : Tcp :=
  let t := t.update fun conn => { conn with state := state }
  let t := sendSegment env { fin := true, ack := true } t.conn.sndNxt t.conn.rcvNxt [] t
  t.update fun conn => { conn with sndNxt := conn.sndNxt + 1 }

/-- `tcp_close`. -/
def tcpClose (t : Tcp) : Tcp :=
  if t.conn.beingFreed then t
  else
    match t.conn.state with
    | .established => sendFin env .finWait t
    | .closeWait => sendFin env .lastAck t
    | .synSent =>
      let t := t.update fun conn => { conn with state := .closed }
      connDestroy (sendSegment env { rst := true } t.conn.sndNxt 0 [] t)
    | _ => connDestroy t

/-- `tcp_send_available`. -/
def tcpSendAvailable (conn : Conn) : ℕ :=
  if conn.beingFreed ∨ conn.state ≠ .established then 0 else wgTcpSendbufSize - conn.sendbufLen

/-- `tcp_update_recv_window`. -/
def tcpUpdateRecvWindow (t : Tcp) : Tcp :=
  if t.conn.beingFreed ∨ t.conn.state ≠ .established then t else tcpAckNow env t

/-- `tcp_set_recv_window_cb`. -/
def tcpSetRecvWindowCb (set : Bool) (t : Tcp) : Tcp :=
  if t.conn.beingFreed then t
  else t.update fun conn => { conn with handlers := { conn.handlers with onRecvWindow := set } }

/-- A call of the owner, recorded with the connection it finds. -/
def apiCall (t : Tcp) (a : ApiCall) : Tcp :=
  let t := t.log [.call a t.conn]
  match a with
  | .send data => (tcpSend env data t).2
  | .close => tcpClose env t
  | .updateRecvWindow => tcpUpdateRecvWindow env t
  | .setRecvWindowCb set => tcpSetRecvWindowCb set t
  | .setWriteable set =>
    t.update fun conn => { conn with handlers := { conn.handlers with onWriteable := set } }

/-- A callback runs: it is recorded and makes its calls. -/
def runCallback (cb : Callback) (t : Tcp) : Tcp :=
  (env.calls cb t.conn).foldl (apiCall env) (t.log [.callback cb])

end Api

end Wgx
