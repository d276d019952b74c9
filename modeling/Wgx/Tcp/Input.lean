import Wgx.Lib.Run
import Wgx.Tcp.Conn

/-!
# Incoming segments and timers of a TCP connection (`tcpstack.c`)

* `Owner`: who answers the callbacks of a connection;
* `tcpOooQueue`, `tcpOooDrain`: the out-of-order list;
* `retransmitCb`, `delayedAckCb`, `timerCloseCb`, `flushCheckCb`: the event loop's callbacks;
* `parseSynOptions`, `tcpstackConnect`, `tcpstackAccept`: how a connection starts;
* `tcpstackInput`: the state machine, with the `ESTABLISHED` case cut at its three parts
  `establishedAck`, `establishedData`, `establishedFin`;
* `ownedStep`, `tcpStep`: one event of a connection.
-/

namespace Wgx

/-! ### The out-of-order list -/

/-- The first byte behind a buffered segment. -/
def OooSeg.fin (seg : OooSeg) : Seq := seg.seq + seg.len

/-- The new bytes lose what the segment around `start` already holds; `none` if nothing is left. -/
def oooTrimNew (start : Seq) (data : List Byte) : List OooSeg → Option (Seq × List Byte)
  | [] => some (start, data)
  | cur :: _ =>
    if seqLe cur.seq start ∧ seqGt cur.fin start then
      let trim := cur.fin - start
      if trim.toNat ≥ data.length then none else some (start + trim, data.drop trim.toNat)
    else some (start, data)

/-- The old segments lose what the new bytes up to `fin` hold; the second component is what their
lengths lose. -/
def oooTrimOld (fin : Seq) : List OooSeg → List OooSeg × BitVec 32
  | [] => ([], 0)
  | cur :: rest =>
    if seqLt cur.seq fin then
      if seqLe cur.fin fin then
        let (kept, removed) := oooTrimOld fin rest
        (kept, cur.len + removed)
      else
        let trim := fin - cur.seq
        (⟨cur.seq + trim, cur.data.drop trim.toNat⟩ :: rest, trim)
    else (cur :: rest, 0)

/-- The list part of `tcp_ooo_queue`: the bytes `data` from `start` on find their place, what
overlaps is trimmed, and they are linked in if they fit. -/
def oooInsert (env : TcpEnv) (start : Seq) (data : List Byte) (conn : Conn) : Conn :=
  let before := conn.rcvOoo.takeWhile fun cur => seqLe cur.fin start
  let behind := conn.rcvOoo.dropWhile fun cur => seqLe cur.fin start
  match oooTrimNew start data behind with
  | none => conn
  | some (start, data) =>
    let (kept, removed) := oooTrimOld (start + BitVec.ofNat 32 data.length) behind
    let conn := { conn with
      rcvOoo := before ++ kept
      rcvOooLen := conn.rcvOooLen - removed }
    if conn.rcvOooLen.toNat + data.length > wgTcpRecvOooSize then conn
    else if !env.malloc data.length then conn
    else { conn with
      rcvOoo := before ++ ⟨start, data⟩ :: kept
      rcvOooLen := conn.rcvOooLen + BitVec.ofNat 32 data.length }

/-- `tcp_ooo_queue`. -/
def tcpOooQueue (env : TcpEnv) (seq : Seq) (data : List Byte) (conn : Conn) : Conn :=
  if data.length = 0 then conn
  else if seqLe (seq + BitVec.ofNat 32 data.length) conn.rcvNxt then conn
  else if seqLt seq conn.rcvNxt then
    let trim := conn.rcvNxt - seq
    oooInsert env (seq + trim) (data.drop trim.toNat) conn
  else oooInsert env seq data conn

/-! ### Owners -/

/-- The owner of a connection, with a state of its own: the environment, the connection in a state,
the state after a change of the connection, and what the owner does in a callback. -/
structure Owner (τ : Type*) where
  env : TcpEnv
  tcp : τ → Tcp
  on : (Tcp → Tcp) → τ → τ
  callback : Callback → τ → τ
  tcp_on : ∀ g x, tcp (on g x) = g (tcp x)

/-- An owner that keeps nothing but the connection: in a callback it makes the calls of the
environment. -/
instance : Coe TcpEnv (Owner Tcp) :=
  ⟨fun env => ⟨env, fun t => t, fun g t => g t, runCallback env, fun _ _ => rfl⟩⟩

section Receive

variable {τ : Type*} (o : Owner τ) (env : TcpEnv)

/-- `rcv_nxt` moves past in-order bytes, which go to `on_data`. -/
def deliver (data : List Byte) (x : τ) : τ :=
  let x := o.on (fun t => t.update fun conn =>
    { conn with rcvNxt := conn.rcvNxt + BitVec.ofNat 32 data.length }) x
  if (o.tcp x).conn.handlers.onData then o.callback (.data data) x else x

/-- `tcp_ooo_drain`, at most as often as there are segments. -/
def tcpOooDrain : ℕ → τ → ℕ × τ
  | 0, x => (0, x)
  | fuel + 1, x =>
    if (o.tcp x).conn.beingFreed then (0, x)
    else
      match (o.tcp x).conn.rcvOoo with
      | [] => (0, x)
      | seg :: rest =>
        if seg.seq ≠ (o.tcp x).conn.rcvNxt then (0, x)
        else
          let x := o.on (fun t => t.update fun conn =>
            { conn with rcvOoo := rest, rcvOooLen := conn.rcvOooLen - seg.len }) x
          let (drained, x) := tcpOooDrain fuel (deliver o seg.data x)
          (seg.data.length + drained, x)

/-- In-order bytes are delivered, what they release is drained, and the whole is acknowledged. -/
def receiveInOrder (data : List Byte) (immediate : Bool) (x : τ) : τ :=
  let x := deliver o data x
  let (drained, x) := tcpOooDrain o (o.tcp x).conn.rcvOoo.length x
  o.on (tcpAckData o.env (data.length + drained) (immediate || decide (0 < drained))) x

/-! ### Timers and the flush queue -/

/-- The loop of `retransmit_cb` over the send buffer from `off` on. -/
def retransmitLoop (conn : Conn) : ℕ → ℕ → List Segment
  | 0, _ => []
  | fuel + 1, off =>
    if off < conn.sendbufLen then
      let seg := conn.sendbufLen - off
      let seg := if seg > conn.mss then conn.mss else seg
      let last := decide (off + seg = conn.sendbufLen) &&
        (conn.state = .finWait || conn.state = .lastAck)
      segmentOf env conn { ack := true, psh := true, fin := last }
        (conn.sndUna + BitVec.ofNat 32 off) conn.rcvNxt (sendbufCopyOut conn off seg) ::
        retransmitLoop conn fuel (off + seg)
    else []

/-- The segments that `retransmit_cb` sends. -/
def retransmitSegments (conn : Conn) : List Segment :=
  match conn.state with
  | .synSent => [segmentOf env conn { syn := true } conn.iss 0 []]
  | .synReceived => [segmentOf env conn { syn := true, ack := true } conn.iss conn.rcvNxt []]
  | .established | .closeWait => retransmitLoop env conn conn.sendbufLen 0
  | .finWait | .lastAck =>
    if 0 < conn.sendbufLen then retransmitLoop env conn conn.sendbufLen 0
    else [segmentOf env conn { fin := true, ack := true } (conn.sndNxt - 1) conn.rcvNxt []]
  | .closed => []

/-- The report of an abort: a failed connect if the SYN was never acknowledged, else the end of the
connection. -/
def notifyAbort (x : τ) : τ :=
  if (o.tcp x).conn.closeNotified then x
  else
    let x := o.on (fun t => t.update fun conn => { conn with closeNotified := true }) x
    if (o.tcp x).conn.handlers.onConnect ∧ (o.tcp x).conn.sndUna = (o.tcp x).conn.iss then
      o.callback (.connect (-1)) x
    else if (o.tcp x).conn.handlers.onClose then o.callback .close x
    else x

/-- The abort of `retransmit_cb` after too many attempts. -/
def retransmitAbort (x : τ) : τ :=
  o.on connDestroy
    (notifyAbort o (o.on (fun t => t.update fun conn => { conn with state := .closed }) x))

/-- `retransmit_cb`, fired by its one-shot timer. -/
def retransmitCb (x : τ) : τ :=
  if (o.tcp x).conn.beingFreed then x
  else
    let x := o.on (fun t => t.update fun conn =>
      { conn with retransmitTimer := false, retransmitCount := conn.retransmitCount + 1 }) x
    if (o.tcp x).conn.retransmitCount > wgTcpMaxRetransmit then retransmitAbort o x
    else
      o.on (fun t => (t.log ((retransmitSegments o.env t.conn).map .segment)).update fun conn =>
        { conn with retransmitTimer := true }) x

/-- `delayed_ack_cb`, fired by its one-shot timer. -/
def delayedAckCb (t : Tcp) : Tcp :=
  let t := t.update fun conn => { conn with ackTimer := false }
  if t.conn.beingFreed then t
  else if t.conn.delayedAckSegments = 0 then t
  else tcpAckNow env t

/-- Call `on_close` unless the end of the connection was notified before. -/
def notifyClose (x : τ) : τ :=
  if (o.tcp x).conn.closeNotified then x
  else
    let x := o.on (fun t => t.update fun conn => { conn with closeNotified := true }) x
    if (o.tcp x).conn.handlers.onClose then o.callback .close x else x

/-- `timer_close_cb`. -/
def timerCloseCb (x : τ) : τ :=
  let x := o.on (fun t => t.update fun conn =>
    { conn with closePending := conn.closePending - 1 }) x
  if (o.tcp x).conn.closePending > 0 then x
  else o.on (fun t => t.update fun conn =>
    { conn with sendbufFreed := true, rcvOoo := [], rcvOooLen := 0, released := true })
      (notifyClose o x)

/-- `flush_check_cb` on a queued connection. -/
def flushCheckCb (t : Tcp) : Tcp :=
  let t := t.update fun conn => { conn with flushQueued := false }
  if t.conn.beingFreed then t else tcpFlushPending env t

end Receive

/-! ### How a connection starts -/

/-- The loop of `parse_syn_options`: segment size and window scale so far, over the options left. -/
def parseOptions : ℕ → List Byte → ℕ × ℕ → ℕ × ℕ
  | 0, _, found => found
  | fuel + 1, opts, (mss, wscale) =>
    match opts with
    | [] => (mss, wscale)
    | kind :: rest =>
      if kind = 0 then (mss, wscale)
      else if kind = 1 then parseOptions fuel rest (mss, wscale)
      else
        match rest with
        | [] => (mss, wscale)
        | optlen :: body =>
          if optlen.toNat < 2 ∨ optlen.toNat > opts.length then (mss, wscale)
          else
            let found :=
              match body with
              | hi :: lo :: _ =>
                let rmss := hi.toNat * 256 + lo.toNat
                if kind = 2 ∧ optlen = 4 then
                  if 0 < rmss ∧ rmss < wgTcpMss then (rmss, wscale) else (mss, wscale)
                else if kind = 3 ∧ optlen = 3 then (mss, if hi.toNat > 14 then 14 else hi.toNat)
                else (mss, wscale)
              | [shift] =>
                if kind = 3 ∧ optlen = 3 then (mss, if shift.toNat > 14 then 14 else shift.toNat)
                else (mss, wscale)
              | [] => (mss, wscale)
            parseOptions fuel (opts.drop optlen.toNat) found

/-- `parse_syn_options`. -/
def parseSynOptions (options : List Byte) (conn : Conn) : Conn :=
  let (mss, wscale) := parseOptions options.length options (wgTcpMss, 0)
  { conn with sndMss := mss, sndWscale := wscale }

/-- A connection record as `calloc` and the assignments shared by both ways to open one leave it,
with the ring of the initial size. -/
def Conn.fresh (state : TcpState) (iss rcvNxt : Seq) (handlers : Handlers) : Conn where
  state := state
  iss := iss
  sndUna := iss
  sndNxt := iss + 1
  sndWnd := wgTcpMss
  sndMss := wgTcpMss
  sndWscale := 0
  rcvNxt := rcvNxt
  rcvOoo := []
  rcvOooLen := 0
  sendbuf := fun _ => 0
  sendbufCap := wgTcpSendbufInitialSize
  sendbufHead := 0
  sendbufLen := 0
  sendbufFreed := false
  retransmitTimer := true
  ackTimer := false
  retransmitCount := 0
  closePending := 0
  delayedAckSegments := 0
  delayedAckBytes := 0
  beingFreed := false
  closeNotified := false
  flushQueued := false
  handlers := handlers
  released := false

section Open

variable (env : TcpEnv)

/-- `tcpstack_connect` with the initial sequence number `iss`. -/
def tcpstackConnect (iss : Seq) (handlers : Handlers) : Tcp :=
  sendSegment env { syn := true } iss 0 [] ⟨Conn.fresh .synSent iss 0 handlers, []⟩

/-- The accept path of `tcpstack_input`: `on_accept` sets the callbacks `handlers`. -/
def tcpstackAccept (iss : Seq) (handlers : Handlers) (seg : Inbound) : Tcp :=
  let bare : Handlers := ⟨false, false, false, false, false⟩
  let conn := parseSynOptions seg.options (Conn.fresh .synReceived iss (seg.seq + 1) bare)
  let conn := { conn with sndWnd := seg.window.toNat * 2 ^ conn.sndWscale }
  let t := sendSegment env { syn := true, ack := true } iss conn.rcvNxt [] ⟨conn, []⟩
  runCallback env .accept (t.update fun conn => { conn with handlers := handlers })

end Open

/-! ### The state machine -/

section Input

variable {τ : Type*} (o : Owner τ) (env : TcpEnv) (seg : Inbound)

/-- An acknowledgement of something new that was sent. -/
def Inbound.advances (conn : Conn) : Bool :=
  seg.flags.ack && (seqGt seg.ack conn.sndUna && seqLe seg.ack conn.sndNxt)

/-- `ESTABLISHED`: the acknowledgement takes its bytes off the ring and lets new ones go. -/
def ackAdvance (t : Tcp) : Tcp :=
  let acked := (seg.ack - t.conn.sndUna).toNat
  let t := t.update fun conn =>
    { (if acked ≤ conn.sendbufLen then sendbufConsume conn acked else conn) with
      sndUna := seg.ack }
  if t.conn.sendbufLen = 0 then
    t.update fun conn => { conn with retransmitTimer := false, retransmitCount := 0 }
  else tcpFlushPending env t

/-- `ESTABLISHED`: process the ACK. -/
def establishedAck (x : τ) : τ :=
  if seg.advances (o.tcp x).conn then
    let x := o.on (ackAdvance o.env seg) x
    if (o.tcp x).conn.sendbufLen < wgTcpSendbufSize / 4 ∧ (o.tcp x).conn.handlers.onWriteable then
      o.callback .writeable x
    else x
  else x

/-- `ESTABLISHED`: deliver in-order data and keep a bounded buffer for later segments. -/
def establishedData (x : τ) : τ :=
  if seg.payload.length = 0 then x
  else if seg.seq = (o.tcp x).conn.rcvNxt then receiveInOrder o seg.payload false x
  else if seqGt seg.seq (o.tcp x).conn.rcvNxt then
    o.on (fun t => tcpAckNow o.env (t.update (tcpOooQueue o.env seg.seq seg.payload))) x
  else if seqLt seg.seq (o.tcp x).conn.rcvNxt then
    let already := ((o.tcp x).conn.rcvNxt - seg.seq).toNat
    if already < seg.payload.length then
      receiveInOrder o (seg.payload.drop already) true x
    else o.on (tcpAckNow o.env) x
  else x

/-- `ESTABLISHED`: a FIN from remote is counted and acknowledged. -/
def takeFin (t : Tcp) : Tcp :=
  let t := t.log [.remoteFin t.conn]
  let t := t.update fun conn => { conn with rcvNxt := conn.rcvNxt + 1, state := .closeWait }
  sendSegment env { ack := true } t.conn.sndNxt t.conn.rcvNxt [] t

/-- `ESTABLISHED`: FIN from remote, answered with our own. -/
def establishedFin (x : τ) : τ :=
  if seg.flags.fin then o.on (sendFin o.env .lastAck) (notifyClose o (o.on (takeFin o.env) x))
  else x

/-- `SYN_RECEIVED`. -/
def inputSynReceived (x : τ) : τ :=
  if seg.flags.ack ∧ seg.ack = (o.tcp x).conn.sndNxt then
    let x := o.on (fun t => t.update fun conn => { conn with
      sndUna := seg.ack, state := .established, retransmitTimer := false, retransmitCount := 0 }) x
    if 0 < seg.payload.length ∧ seg.seq = (o.tcp x).conn.rcvNxt then
      receiveInOrder o seg.payload false x
    else x
  else x

/-- `SYN_SENT`. -/
def inputSynSent (x : τ) : τ :=
  if seg.flags.syn ∧ seg.flags.ack then
    if !seqGt seg.ack (o.tcp x).conn.sndUna ∨ seqGt seg.ack (o.tcp x).conn.sndNxt then x
    else
      let x := o.on (fun t => t.update fun conn => parseSynOptions seg.options { conn with
        sndUna := seg.ack
        rcvNxt := seg.seq + 1
        state := .established
        retransmitTimer := false
        retransmitCount := 0 }) x
      let x := o.on (fun t => t.update fun conn =>
        { conn with sndWnd := seg.window.toNat * 2 ^ conn.sndWscale }) x
      let x := o.on (tcpAckNow o.env) x
      if (o.tcp x).conn.handlers.onConnect then o.callback (.connect 0) x else x
  else x

/-- `ESTABLISHED`. -/
def inputEstablished (x : τ) : τ :=
  establishedFin o seg (establishedData o seg (establishedAck o seg x))

/-- `FIN_WAIT`: process the ACK, waiting for that of our FIN. -/
def finWaitAck (t : Tcp) : Tcp :=
  if seg.advances t.conn then
    let t := t.update fun conn => { conn with sndUna := seg.ack }
    if t.conn.sndUna = t.conn.sndNxt then
      t.update fun conn => { conn with retransmitTimer := false, retransmitCount := 0 }
    else t
  else t

/-- `FIN_WAIT`. -/
def inputFinWait (t : Tcp) : Tcp :=
  let t := finWaitAck seg t
  if seg.flags.fin then
    let t := t.update fun conn => { conn with rcvNxt := conn.rcvNxt + 1 }
    let t := sendSegment env { ack := true } t.conn.sndNxt t.conn.rcvNxt [] t
    connDestroy (t.update fun conn => { conn with state := .closed })
  else t

/-- `LAST_ACK`. -/
def inputLastAck (t : Tcp) : Tcp :=
  if seg.flags.ack ∧ seg.ack = t.conn.sndNxt then
    connDestroy (t.update fun conn => { conn with retransmitTimer := false, state := .closed })
  else t

/-- The window of the remote peer; the scale is negotiated in SYN and SYN-ACK. -/
def updateSndWnd (t : Tcp) : Tcp :=
  t.update fun conn => { conn with
    sndWnd :=
      if conn.state = .synSent then seg.window.toNat
      else seg.window.toNat * 2 ^ conn.sndWscale }

/-- The switch of `tcpstack_input` over the state. -/
def inputState (x : τ) : τ :=
  match (o.tcp x).conn.state with
  | .synReceived => inputSynReceived o seg x
  | .synSent => inputSynSent o seg x
  | .established => inputEstablished o seg x
  | .finWait => o.on (inputFinWait o.env seg) x
  | .lastAck => o.on (inputLastAck seg) x
  | .closed | .closeWait => x

/-- `tcpstack_input` on a segment of the connection, which the lookup finds while it is not being
freed. -/
def tcpstackInput (x : τ) : τ :=
  if (o.tcp x).conn.beingFreed then x
  else if seg.flags.rst then
    o.on (fun t => connDestroy (t.update fun conn => { conn with state := .closed })) x
  else inputState o seg (o.on (updateSndWnd seg) x)

end Input

/-! ### Events -/

/-- What can happen to a connection: the owner calls into the stack, a segment arrives, the flush
queue is processed, a timer fires, or a closing timer handle is gone. -/
inductive TcpEvent
  | call (a : ApiCall)
  | input (seg : Inbound)
  | flush
  | retransmit
  | delayedAck
  | timerClose

/-- One event.  Timers and queues fire only when armed; nothing happens to a connection whose memory
is released. -/
def ownedStep {τ : Type*} (o : Owner τ) (e : TcpEvent) (x : τ) : τ :=
  if (o.tcp x).conn.released then x
  else
    match e with
    | .call a => o.on (fun t => apiCall o.env t a) x
    | .input seg => tcpstackInput o seg x
    | .flush => if (o.tcp x).conn.flushQueued then o.on (flushCheckCb o.env) x else x
    | .retransmit => if (o.tcp x).conn.retransmitTimer then retransmitCb o x else x
    | .delayedAck => if (o.tcp x).conn.ackTimer then o.on (delayedAckCb o.env) x else x
    | .timerClose => if 0 < (o.tcp x).conn.closePending then timerCloseCb o x else x

/-- One event in its environment. -/
def tcpStep (t : Tcp) (e : TcpEnv × TcpEvent) : Tcp := ownedStep e.1 e.2 t

theorem tcpStep_released {t : Tcp} {e : TcpEnv × TcpEvent} (hrel : t.conn.released = true) :
    tcpStep t e = t := if_pos hrel

/-- What holds before an event and after each function it may run holds after the event. -/
theorem tcpStep_cases {P : Tcp → Prop} {t : Tcp} {env : TcpEnv} {e : TcpEvent} (hidle : P t)
    (hcall : ∀ a, e = .call a → P (apiCall env t a))
    (hinput : ∀ seg, e = .input seg → P (tcpstackInput env seg t))
    (hflush : P (flushCheckCb env t))
    (hretransmit : t.conn.retransmitTimer = true → P (retransmitCb env t))
    (hdelayed : P (delayedAckCb env t))
    (htimer : 0 < t.conn.closePending → P (timerCloseCb env t)) :
    P (tcpStep t (env, e)) := by
  unfold tcpStep ownedStep
  by_cases hrel : t.conn.released = true
  · rwa [if_pos hrel]
  rw [if_neg hrel]
  cases e with
  | call a => exact hcall a rfl
  | input seg => exact hinput seg rfl
  | flush =>
    by_cases hq : t.conn.flushQueued = true
    · exact (if_pos hq).symm ▸ hflush
    · exact (if_neg hq).symm ▸ hidle
  | retransmit =>
    by_cases ht : t.conn.retransmitTimer = true
    · exact (if_pos ht).symm ▸ hretransmit ht
    · exact (if_neg ht).symm ▸ hidle
  | delayedAck =>
    by_cases ht : t.conn.ackTimer = true
    · exact (if_pos ht).symm ▸ hdelayed
    · exact (if_neg ht).symm ▸ hidle
  | timerClose =>
    by_cases hp : 0 < t.conn.closePending
    · exact (if_pos hp).symm ▸ htimer hp
    · exact (if_neg hp).symm ▸ hidle

/-- How a connection of the stack begins: `tcpstack_connect`, or a SYN at a listener. -/
inductive Opened : Tcp → Prop
  | connect (env : TcpEnv) (iss : Seq) (handlers : Handlers) :
    Opened (tcpstackConnect env iss handlers)
  | accept (env : TcpEnv) (iss : Seq) (handlers : Handlers) (seg : Inbound) :
    seg.flags.syn = true → seg.flags.ack = false → Opened (tcpstackAccept env iss handlers seg)

/-! ### A connection to try things on -/

/-- An owner whose callbacks do nothing, with memory and room to receive. -/
def exampleEnv : TcpEnv where
  calls _ _ := []
  recvWindow _ := 65536
  malloc _ := true

/-- Callbacks for everything but the window. -/
def exampleHandlers : Handlers := ⟨true, true, true, true, false⟩

/-- The SYN-ACK of a peer that starts two below the wrap of its sequence numbers. -/
def exampleSynAck : Inbound := ⟨{ syn := true, ack := true }, 0xfffffffd, 1, 1000, [], []⟩

/-- A connection opened from the sequence number `0`. -/
def exampleConn : Tcp :=
  tcpStep (tcpstackConnect exampleEnv 0 exampleHandlers) (exampleEnv, .input exampleSynAck)

end Wgx
