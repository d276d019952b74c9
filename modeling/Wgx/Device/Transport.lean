import Wgx.Device.Peers

/-!
# Timers, packets and handshakes of a device (`timers.c`, `device.c`)

* `timersDataSent` … `timersHandshakeBegin`: the timer events;
* `peerStagePacket`, `deviceSendToPeer`, `deviceInitiateHandshake`: the sending side;
* `flushStaged`: the loop that `handle_initiation` and `handle_response` end with;
* `handleInitiation`, `handleResponse`, `handleCookieReply`, `handleTransport`, `onUdpRecv`: the
  receiving side.

The flush loop calls a function that may put packets back into the queue it empties, so it is
modelled with fuel: `none` says that it is still running after that many packets.
-/

namespace Wgx

/-! ### Constants -/

/-- `REKEY_AFTER_TIME_MS`. -/
def rekeyAfterTimeMs : ℕ := 120 * 1000

/-- `REJECT_AFTER_TIME_MS`. -/
def rejectAfterTimeMs : ℕ := 180 * 1000

/-- `REKEY_TIMEOUT_MS`. -/
def rekeyTimeoutMs : ℕ := 5 * 1000

/-- `KEEPALIVE_TIMEOUT_MS`. -/
def keepaliveTimeoutMs : ℕ := 10 * 1000

/-- `REKEY_TIMEOUT_JITTER_MAX_MS`. -/
def rekeyTimeoutJitterMaxMs : ℕ := 334

/-- `REKEY_AFTER_MESSAGES`. -/
def rekeyAfterMessages : BitVec 64 := 1#64 <<< 60

/-- `REJECT_AFTER_MESSAGES`. -/
def rejectAfterMessages : BitVec 64 := BitVec.allOnes 64 - 1#64 <<< 13 - 1#64

/-- `PADDING_MULTIPLE`. -/
def paddingMultiple : ℕ := 16

/-- `MSG_TRANSPORT_HDR_SIZE`. -/
def msgTransportHdrSize : ℕ := 16

/-- `WG_AEAD_TAG_LEN`. -/
def wgAeadTagLen : ℕ := 16

/-! ### The staged queue -/

/-- The staged packets, oldest first. -/
def StagedQueue.contents (q : StagedQueue) : List (List Byte) :=
  Ring.window q.pkts peerQueueSize q.head q.count

@[simp] theorem StagedQueue.length_contents (q : StagedQueue) : q.contents.length = q.count := by
  simp [StagedQueue.contents]

/-- Write a packet at the tail. -/
def StagedQueue.push (q : StagedQueue) (pkt : List Byte) (hcount : q.count < peerQueueSize)
    (hlen : 1 ≤ pkt.length ∧ pkt.length ≤ wgDefaultMtu) : StagedQueue where
  pkts := Function.update q.pkts q.tail pkt
  head := q.head
  tail := (q.tail + 1) % peerQueueSize
  count := q.count + 1
  head_lt := q.head_lt
  count_le := hcount
  tail_eq := by rw [q.tail_eq, Nat.mod_add_mod, Nat.add_assoc]
  pkts_len := by
    rw [q.tail_eq, Ring.window_push q.pkts hcount pkt]
    intro p hp
    rcases List.mem_append.1 hp with hp | hp
    · exact q.pkts_len p hp
    · rwa [List.mem_singleton.1 hp]

theorem StagedQueue.window_eq_cons (q : StagedQueue) (hcount : 0 < q.count) :
    Ring.window q.pkts peerQueueSize q.head q.count =
      q.pkts q.head :: Ring.window q.pkts peerQueueSize ((q.head + 1) % peerQueueSize)
        (q.count - 1) := by
  obtain ⟨n, hn⟩ := Nat.exists_eq_succ_of_ne_zero hcount.ne'
  rw [hn, Ring.window_cons, Nat.mod_eq_of_lt q.head_lt]
  rfl

/-- Move the head past the oldest packet. -/
def StagedQueue.pop (q : StagedQueue) (hcount : 0 < q.count) : StagedQueue where
  pkts := q.pkts
  head := (q.head + 1) % peerQueueSize
  tail := q.tail
  count := q.count - 1
  head_lt := Nat.mod_lt _ (by decide)
  count_le := (Nat.sub_le _ _).trans q.count_le
  tail_eq := by
    rw [q.tail_eq, Nat.mod_add_mod]
    congr 1
    omega
  pkts_len := by
    intro p hp
    apply q.pkts_len p
    rw [q.window_eq_cons hcount]
    exact List.mem_cons_of_mem _ hp

/-- `peer_stage_packet`; the null packet is the empty one. -/
def peerStagePacket (peer : Peer) (pkt : List Byte) : Peer :=
  if hlen : 1 ≤ pkt.length ∧ pkt.length ≤ wgDefaultMtu then
    if hcount : peer.staged.count < peerQueueSize then
      { peer with staged := peer.staged.push pkt hcount hlen }
    else peer
  else peer

/-! ### Timers -/

/-- `uv_timer_start` without repetition: when the timer is due. -/
def uvTimerStart (env : Env) (timeout : ℕ) : Option ℕ := some (env.now.toNat + timeout)

/-- `timers_data_sent`. -/
def timersDataSent (env : Env) (peer : Peer) : Peer :=
  if !peer.timers.active then peer
  else { peer with
    timers := { peer.timers with sendKeepalive := uvTimerStart env keepaliveTimeoutMs } }

/-- `timers_data_received`. -/
def timersDataReceived (env : Env) (peer : Peer) : Peer :=
  if !peer.timers.active then peer
  else if peer.timers.sendKeepalive.isNone then
    { peer with timers := { peer.timers with sendKeepalive := uvTimerStart env keepaliveTimeoutMs } }
  else { peer with needAnotherKeepalive := true }

/-- `timers_keepalive_received`. -/
def timersKeepaliveReceived (peer : Peer) : Peer :=
  if !peer.timers.active then peer
  else { peer with timers := { peer.timers with sendKeepalive := none } }

/-- `timers_handshake_initiated`. -/
def timersHandshakeInitiated (env : Env) (x : Ctx) : Ctx :=
  if !x.peer.timers.active then x
  else
    let (d, x) := x.draw env
    let jitter := d.jitter.toNat % rekeyTimeoutJitterMaxMs
    { x with peer := { x.peer with
      timers := { x.peer.timers with
        retransmitHandshake := uvTimerStart env (rekeyTimeoutMs + jitter) } } }

/-- `timers_handshake_complete`. -/
def timersHandshakeComplete (env : Env) (peer : Peer) : Peer :=
  if !peer.timers.active then peer
  else { peer with
    handshakeAttempts := 0
    timers := { peer.timers with
      retransmitHandshake := none
      newHandshake := uvTimerStart env rekeyAfterTimeMs
      zeroKeyMaterial := uvTimerStart env (rejectAfterTimeMs * 3) } }

/-! ### Sending -/

/-- `udp_send_copy`: the datagram is recorded if the send succeeds. -/
def Ctx.udpSend (env : Env) (x : Ctx) (ep : Endpoint) (d : Datagram) : Ctx :=
  if env.udpOk then { x with sent := x.sent ++ [(ep, d)] } else x

section Send

variable (c : Crypto) (env : Env)

/-- `device_initiate_handshake_inner`; the second component is the return value `0`. -/
def deviceInitiateHandshakeInner (x : Ctx) (force : Bool) : Ctx × Bool :=
  let hs := x.peer.handshake
  if !force ∧ (env.now - hs.lastSentHandshakeMs).toNat < rekeyTimeoutMs then (x, true)
  else
    let x := x.setHandshake { hs with lastSentHandshakeMs := env.now }
    match noiseCreateInitiation c env x with
    | (x, none) => (x, false)
    | (x, some msg) =>
      match x.peer.endpoint with
      | none => (x, false)
      | some ep => (timersHandshakeInitiated env (x.udpSend env ep (.initiation msg)), env.udpOk)

/-- `device_initiate_handshake`. -/
def deviceInitiateHandshake (x : Ctx) : Ctx := (deviceInitiateHandshakeInner c env x false).1

/-- `timers_handshake_begin`. -/
def timersHandshakeBegin (x : Ctx) : Ctx :=
  if !x.peer.timers.active then x
  else if x.peer.timers.retransmitHandshake.isNone then deviceInitiateHandshake c env x
  else x

/-- `device_pad_packet`. -/
def devicePadPacket (pktlen : ℕ) : ℕ :=
  if pktlen = 0 then 0
  else
    let padded := (pktlen + paddingMultiple - 1) / paddingMultiple * paddingMultiple
    if wgDefaultMtu < padded then wgDefaultMtu else padded

/-- The nonce of a transport message: four zero bytes, then the counter. -/
def transportNonce (counter : BitVec 64) : List Byte :=
  List.replicate 4 0#8 ++ leBytes 8 counter.toNat

/-- `atomic_fetch_add(&kp->send_nonce, 1)` on the keypair that sends: the current one if there is
one, else the next one. -/
def Peer.countSend (peer : Peer) : Peer :=
  match peer.currentKeypair with
  | some kp => { peer with currentKeypair := some { kp with sendNonce := kp.sendNonce + 1 } }
  | none =>
    { peer with
      nextKeypair := peer.nextKeypair.map fun kp => { kp with sendNonce := kp.sendNonce + 1 } }

/-- Stage the packet of a call. -/
def Ctx.stage (x : Ctx) (pkt : List Byte) : Ctx := { x with peer := peerStagePacket x.peer pkt }

/-- `atomic_fetch_add(&peer->tx_bytes, total)`, if the datagram was sent. -/
def Peer.countTx (peer : Peer) (total : ℕ) : Peer :=
  if env.udpOk then { peer with txBytes := peer.txBytes + BitVec.ofNat 64 total } else peer

/-- `device_send_to_peer` from the check of the nonce on. -/
def deviceSendCounted (x : Ctx) (kp : Keypair) (pkt : List Byte) : Ctx :=
  let nonce := kp.sendNonce
  if rejectAfterMessages ≤ nonce then timersHandshakeBegin c env (x.stage pkt)
  else
    let x := if rekeyAfterMessages ≤ nonce then timersHandshakeBegin c env x else x
    let plaintext := pkt ++ List.replicate (devicePadPacket pkt.length - pkt.length) 0#8
    let content := c.aeadEncrypt kp.sendKey (transportNonce nonce) plaintext []
    match x.peer.endpoint with
    | none => x
    | some ep =>
      let x := x.udpSend env ep (.transport ⟨kp.remoteIndex, nonce, content⟩)
      let total := msgTransportHdrSize + devicePadPacket pkt.length + wgAeadTagLen
      let x := { x with peer := timersDataSent env (x.peer.countTx env total) }
      if rekeyAfterMessages ≤ nonce then timersHandshakeBegin c env x else x

/-- `device_send_to_peer`. -/
def deviceSendToPeer (x : Ctx) (pkt : List Byte) : Ctx :=
  if wgDefaultMtu < pkt.length then x
  else match x.peer.currentKeypair.or x.peer.nextKeypair with
    | none => deviceInitiateHandshake c env (x.stage pkt)
    | some kp =>
      if rejectAfterTimeMs ≤ (env.now - kp.createdAtMs).toNat then
        timersHandshakeBegin c env (x.stage pkt)
      else deviceSendCounted c env { x with peer := x.peer.countSend } kp pkt

/-- `device_send_keepalive`. -/
def deviceSendKeepalive (x : Ctx) : Ctx := deviceSendToPeer c env x []

/-- The loop over the staged packets: the state after it and the packets handed to
`device_send_to_peer`, in order. -/
def flushStaged : ℕ → Ctx → Option (Ctx × List (List Byte))
  | 0, x => if x.peer.staged.count = 0 then some (x, []) else none
  | fuel + 1, x =>
    if h : 0 < x.peer.staged.count then
      let pkt := x.peer.staged.pkts x.peer.staged.head
      let x := { x with peer := { x.peer with staged := x.peer.staged.pop h } }
      (flushStaged fuel (deviceSendToPeer c env x pkt)).map fun r => (r.1, pkt :: r.2)
    else some (x, [])

end Send

/-! ### Receiving -/

/-- What handling a datagram leaves: the device, what was sent, and what was written to the TUN
device. -/
structure Handled where
  dev : Device
  sent : List (Endpoint × Datagram)
  tun : List (List Byte)

/-- The outcome of a call on a peer. -/
def Ctx.handled (x : Ctx) : Handled := ⟨x.finish, x.sent, x.tun⟩

/-- The outcome where the datagram is dropped. -/
def Handled.drop (dev : Device) : Handled := ⟨dev, [], []⟩

section Handle

variable (c : Crypto) (env : Env)

/-- `under_load`. -/
def Device.underLoad (dev : Device) : Bool := env.now < dev.underLoadUntilMs

/-- The end of `handle_initiation`: the session is up, the staged packets are sent. -/
def responderComplete (fuel : ℕ) (x : Ctx) : Option Ctx :=
  (flushStaged c env fuel { x with peer := timersHandshakeComplete env x.peer }).map Prod.fst

/-- `handle_initiation` once the initiation is consumed and the endpoint updated. -/
def answerInitiation (fuel : ℕ) (src : Endpoint) (x : Ctx) : Option Handled :=
  match noiseCreateResponse c env x with
  | (x, none) => some x.handled
  | (x, some resp) =>
    match noiseBeginSession c env (x.udpSend env src (.response resp)) with
    | (x, false) => some x.handled
    | (x, true) => (responderComplete c env fuel x).map Ctx.handled

/-- `handle_initiation`, on a message of the right size. -/
def handleInitiation (fuel : ℕ) (dev : Device) (src : Endpoint) (msg : MsgInitiation) :
    Option Handled :=
  let (cc, macRet) := cookieValidateMacs c dev.cookieChecker src msg.beforeMac1 msg.mac1 msg.mac2
    (env.draw 0).bytes.toList env.now (dev.underLoad env)
  let dev := { dev with cookieChecker := cc }
  match macRet with
  | .invalid => some (.drop dev)
  | .needCookie =>
    let (cc, reply) := cookieCreateReply c cc src msg.mac1 msg.sender
      ((env.draw 1).bytes.toList.take 24) (env.draw 0).bytes.toList env.now
    let dev := { dev with cookieChecker := cc }
    some ⟨dev, if env.udpOk then [(src, .cookieReply reply)] else [], []⟩
  | .valid =>
    match noiseConsumeInitiation c env dev msg with
    | none => some (.drop dev)
    | some peer => answerInitiation c env fuel src (Ctx.start dev { peer with endpoint := some src })

/-- The end of `handle_response`: the staged packets are sent, or a keepalive that confirms the
session. -/
def initiatorComplete (fuel : ℕ) (x : Ctx) : Option Ctx :=
  match flushStaged c env fuel { x with peer := timersHandshakeComplete env x.peer } with
  | none => none
  | some (x, flushed) => some (if flushed.isEmpty then deviceSendKeepalive c env x else x)

/-- `handle_response` once the response is consumed and the endpoint updated. -/
def completeResponse (fuel : ℕ) (x : Ctx) : Option Handled :=
  match noiseBeginSession c env x with
  | (x, false) => some x.handled
  | (x, true) => (initiatorComplete c env fuel x).map Ctx.handled

/-- `handle_response`, on a message of the right size. -/
def handleResponse (fuel : ℕ) (dev : Device) (src : Endpoint) (msg : MsgResponse) :
    Option Handled :=
  let (cc, macRet) := cookieValidateMacs c dev.cookieChecker src msg.beforeMac1 msg.mac1 msg.mac2
    (env.draw 0).bytes.toList env.now (dev.underLoad env)
  let dev := { dev with cookieChecker := cc }
  if macRet = .invalid then some (.drop dev)
  else match noiseConsumeResponse c dev msg with
    | none => some (.drop dev)
    | some peer => completeResponse c env fuel (Ctx.start dev { peer with endpoint := some src })

/-- `handle_cookie_reply`, on a message of the right size. -/
def handleCookieReply (dev : Device) (msg : MsgCookieReply) : Device :=
  match (indexTableLookup dev.indexTable msg.receiver).bind fun e => dev.peerAt e.peer with
  | none => dev
  | some peer => dev.store { peer with cookie := cookieConsumeReply c peer.cookie msg env.now }

/-- A 16-bit field in network order. -/
def be16 (p : List Byte) (off : ℕ) : ℕ := (p.getD off 0).toNat * 256 + (p.getD (off + 1) 0).toNat

/-- `(plaintext[0] >> 4) & 0xf`. -/
def ipVersion (p : List Byte) : ℕ := (p.getD 0 0 >>> 4 &&& 0xf#8).toNat

/-- `transport_plaintext_len`: the inner length, if the headers are consistent. -/
def transportPlaintextLen (p : List Byte) : Option ℕ :=
  if p.length = 0 then some 0
  else if ipVersion p = 4 then
    if p.length < 20 then none
    else
      let ihl := (p.getD 0 0 &&& 0x0f#8).toNat * 4
      let totalLen := be16 p 2
      if ihl < 20 ∨ totalLen < ihl ∨ p.length < totalLen then none else some totalLen
  else if ipVersion p = 6 then
    if p.length < 40 then none
    else
      let totalLen := 40 + be16 p 4
      if p.length < totalLen then none else some totalLen
  else none

/-- The bytes of an IPv4 address in a packet. -/
def inAddrAt (p : List Byte) (off : ℕ) : InAddr := Vector.ofFn fun i => p.getD (off + i) 0

/-- The bytes of an IPv6 address in a packet. -/
def in6AddrAt (p : List Byte) (off : ℕ) : In6Addr := Vector.ofFn fun i => p.getD (off + i) 0

/-- The AllowedIPs check of `handle_transport` on the inner source address. -/
def transportAllowed (dev : Device) (peer : Peer) (p : List Byte) (ptlen : ℕ) : Bool :=
  if ipVersion p = 4 ∧ 20 ≤ ptlen then
    AllowedIps.allowedipsLookupV4 peer.allowedips (inAddrAt p 12) = some peer.addr ∨
      AllowedIps.allowedipsLookupV4 dev.allowedips (inAddrAt p 12) = some peer.addr
  else if ipVersion p = 6 ∧ 40 ≤ ptlen then
    AllowedIps.allowedipsLookupV6 peer.allowedips (in6AddrAt p 8) = some peer.addr ∨
      AllowedIps.allowedipsLookupV6 dev.allowedips (in6AddrAt p 8) = some peer.addr
  else false

/-- The slots of a peer. -/
def Peer.keypairs (peer : Peer) : List Keypair :=
  peer.currentKeypair.toList ++ peer.nextKeypair.toList ++ peer.prevKeypair.toList

/-- Apply `f` to the keypair allocated at `addr`, wherever it is. -/
def Peer.mapKeypair (peer : Peer) (addr : ℕ) (f : Keypair → Keypair) : Peer :=
  let g := fun kp : Keypair => if kp.addr = addr then f kp else kp
  { peer with
    currentKeypair := peer.currentKeypair.map g
    nextKeypair := peer.nextKeypair.map g
    prevKeypair := peer.prevKeypair.map g }

/-- The rotation of `handle_transport`: the next keypair becomes the current one when it is used. -/
def promoteNext (x : Ctx) (kpAddr : ℕ) : Ctx :=
  match x.peer.nextKeypair with
  | some kp =>
    if kp.addr = kpAddr then
      { x with
        dev := keypairFree x.dev x.peer.prevKeypair
        peer := { x.peer with
          prevKeypair := x.peer.currentKeypair, currentKeypair := some kp, nextKeypair := none } }
    else x
  | none => x

/-- `handle_transport` once the content of a datagram of `len` bytes has been opened and the counter
committed. -/
def transportDeliver (x : Ctx) (src : Endpoint) (kpAddr len : ℕ) (p : List Byte) : Ctx :=
  match transportPlaintextLen p with
  | none => x
  | some ptlen =>
    let x := { x with peer := { x.peer with rxBytes := x.peer.rxBytes + BitVec.ofNat 64 len } }
    let x := { x with peer := timersDataReceived env x.peer }
    let x := promoteNext x kpAddr
    let x := { x with peer := { x.peer with endpoint := some src } }
    if 0 < ptlen then
      if transportAllowed x.dev x.peer p ptlen then { x with tun := x.tun ++ [p.take ptlen] } else x
    else { x with peer := timersKeepaliveReceived x.peer }

/-- The keypair and the peer that the index of a transport message stands for. -/
def transportTarget (dev : Device) (receiver : BitVec 32) : Option (Peer × Keypair) :=
  match indexTableLookup dev.indexTable receiver with
  | none => none
  | some entry =>
    if entry.type ≠ .keypair then none
    else match entry.keypair, dev.peerAt entry.peer with
      | some kpAddr, some peer =>
        (peer.keypairs.find? fun kp => kp.addr = kpAddr).map fun kp => (peer, kp)
      | _, _ => none

/-- `handle_transport`, on a message with its type already read. -/
def handleTransport (dev : Device) (src : Endpoint) (msg : MsgTransport) : Handled :=
  if msg.content.length < 16 then .drop dev
  else match transportTarget dev msg.receiver with
    | none => .drop dev
    | some (peer, kp) =>
      if !Replay.replayCheck kp.replay msg.counter rejectAfterMessages then .drop dev
      else match c.aeadDecrypt kp.recvKey (transportNonce msg.counter) msg.content [] with
        | none => .drop dev
        | some p =>
          match Replay.replayCommit kp.replay msg.counter rejectAfterMessages with
          | (false, _) => .drop dev
          | (true, replay) =>
            let peer := peer.mapKeypair kp.addr fun kp => { kp with replay := replay }
            let len := msgTransportHdrSize + msg.content.length
            (transportDeliver env (Ctx.start dev peer) src kp.addr len p).handled

/-- `on_udp_recv`, on a datagram that is one of the four messages. -/
def onUdpRecv (fuel : ℕ) (dev : Device) (src : Endpoint) : Datagram → Option Handled
  | .initiation msg => handleInitiation c env fuel dev src msg
  | .response msg => handleResponse c env fuel dev src msg
  | .cookieReply msg => some (.drop (handleCookieReply c env dev msg))
  | .transport msg => some (handleTransport c env dev src msg)

end Handle

end Wgx
