import Wgx.Apple.Indices
import Wgx.Device.RoundTrip

/-!
# The transport path of the Apple copy (`WireGuardKitGo/wgx/device.c`)

The copy sends without the check against `WG_DEFAULT_MTU` and receives without recovering the inner
length from the IP header.

* `deviceSendToPeer`, `handleTransport`: the two functions of the copy;
* `outcome`: what is delivered when one copy sends and one receives;
* `copies_agree_iff`: the four combinations agree exactly for the packets that need no padding.
-/

namespace Wgx.Apple

/-! ### Sending -/

/-- `WG_TX_BUFFER_SIZE`. -/
def wgTxBufferSize : ℕ := msgTransportHdrSize + wgDefaultMtu + wgAeadTagLen

/-- How far a message for a packet of `n` bytes is written into its buffer: `memset` clears the
message, `memcpy` puts the packet behind the header. -/
def txExtent (n : ℕ) : ℕ :=
  max (msgTransportHdrSize + devicePadPacket n + wgAeadTagLen) (msgTransportHdrSize + n)

/-- What `device_send_to_peer` makes other parts of the device do. -/
inductive SendCall
  | stage (pkt : List Byte)
  | initiateHandshake
  | handshakeBegin
  | udpSend (ep : Endpoint) (msg : MsgTransport)
  | dataSent

/-- The peer after a call, the calls made, and how far the message buffer was written. -/
structure Sending where
  peer : Peer
  calls : List SendCall
  written : ℕ

/-- The transport messages that a call sends. -/
def Sending.datagrams (env : Env) (s : Sending) : List MsgTransport :=
  if env.udpOk then
    s.calls.filterMap fun call => match call with
      | .udpSend _ msg => some msg
      | _ => none
  else []

/-- The plaintext that is encrypted: the packet in a zeroed buffer, up to the padded length. -/
def transportPlaintext (pkt : List Byte) : List Byte :=
  (pkt ++ List.replicate (devicePadPacket pkt.length - pkt.length) 0#8).take
    (devicePadPacket pkt.length)

/-- `device_send_to_peer`.  The copy pads with the same `device_pad_packet`. -/
def deviceSendToPeer (c : Crypto) (env : Env) (peer : Peer) (pkt : List Byte) : Sending :=
  match peer.currentKeypair.or peer.nextKeypair with
  | none => ⟨peer, [.stage pkt, .initiateHandshake], 0⟩
  | some kp =>
    if rejectAfterTimeMs ≤ (env.now - kp.createdAtMs).toNat then
      ⟨peer, [.stage pkt, .handshakeBegin], 0⟩
    else
      let nonce := kp.sendNonce
      let peer := peer.countSend
      if rejectAfterMessages ≤ nonce then ⟨peer, [.stage pkt, .handshakeBegin], 0⟩
      else
        let rekey := if rekeyAfterMessages ≤ nonce then [SendCall.handshakeBegin] else []
        let content :=
          c.aeadEncrypt kp.sendKey (transportNonce nonce) (transportPlaintext pkt) []
        match peer.endpoint with
        | none => ⟨peer, rekey, txExtent pkt.length⟩
        | some ep =>
          let total := msgTransportHdrSize + devicePadPacket pkt.length + wgAeadTagLen
          ⟨peer.countTx env total,
            rekey ++ [.udpSend ep ⟨kp.remoteIndex, nonce, content⟩, .dataSent] ++ rekey,
            txExtent pkt.length⟩

/-! ### Receiving -/

/-- The AllowedIPs check of `handle_transport` on the source address of the plaintext. -/
def transportAllowed (d : Device) (p : ℕ) (peer : Peer) (plaintext : List Byte) : Bool :=
  if ipVersion plaintext = 4 ∧ 20 ≤ plaintext.length then
    AllowedIps.allowedipsLookupV4 peer.allowedips (inAddrAt plaintext 12) = some p ∨
      AllowedIps.allowedipsLookupV4 d.allowedips (inAddrAt plaintext 12) = some p
  else if ipVersion plaintext = 6 ∧ 40 ≤ plaintext.length then
    AllowedIps.allowedipsLookupV6 peer.allowedips (in6AddrAt plaintext 8) = some p ∨
      AllowedIps.allowedipsLookupV6 d.allowedips (in6AddrAt plaintext 8) = some p
  else false

/-- The peer and the keypair that the index of a transport message stands for. -/
def transportTarget (d : Device) (receiver : BitVec 32) : Option (ℕ × Peer × Keypair) :=
  match indexTableLookup d.indexTable receiver with
  | none => none
  | some entry =>
    if entry.type ≠ .keypair then none
    else match entry.keypair, d.peers entry.peer with
      | some kpAddr, some peer =>
        (peer.keypairs.find? fun kp => kp.addr = kpAddr).map fun kp => (entry.peer, peer, kp)
      | _, _ => none

/-- Change the record of the peer at `p`. -/
def Device.modify (p : ℕ) (f : Peer → Peer) (d : Device) : Device :=
  match d.peers p with
  | some peer => d.store p (f peer)
  | none => d

/-- `handle_transport` once the content of a datagram of `len` bytes has been opened and the counter
committed: the device, and what is written to the TUN device. -/
def transportDeliver (env : Env) (d : Device) (p : ℕ) (peer : Peer) (src : Endpoint)
    (kpAddr len : ℕ) (plaintext : List Byte) : Device × List (List Byte) :=
  let peer := { peer with rxBytes := peer.rxBytes + BitVec.ofNat 64 len }
  let peer := timersDataReceived env peer
  let d := (promoteNext p peer (d.store p peer) kpAddr).modify p
    fun peer => { peer with endpoint := some src }
  if 0 < plaintext.length then
    (d, if transportAllowed d p peer plaintext then [plaintext] else [])
  else (d.modify p timersKeepaliveReceived, [])

/-- `handle_transport`, on a message with its type already read. -/
def handleTransport (c : Crypto) (env : Env) (d : Device) (src : Endpoint) (msg : MsgTransport) :
    Device × List (List Byte) :=
  if msg.content.length < 16 then (d, [])
  else match transportTarget d msg.receiver with
    | none => (d, [])
    | some (p, peer, kp) =>
      if !Replay.replayCheck kp.replay msg.counter rejectAfterMessages then (d, [])
      else match c.aeadDecrypt kp.recvKey (transportNonce msg.counter) msg.content [] with
        | none => (d, [])
        | some plaintext =>
          match Replay.replayCommit kp.replay msg.counter rejectAfterMessages with
          | (false, _) => (d, [])
          | (true, replay) =>
            let peer := peer.mapKeypair kp.addr fun kp => { kp with replay := replay }
            transportDeliver env d p peer src kp.addr (msgTransportHdrSize + msg.content.length)
              plaintext

/-! ### One copy sends, one receives -/

/-- The two copies of the transport path. -/
inductive Copy
  | main
  | apple
  deriving DecidableEq

section Outcome

variable (c : Crypto) (env env' : Env) (from' : Wgx.Device) (peer : Peer) (dev : Wgx.Device)
  (d : Device) (src : Endpoint) (pkt : List Byte)

/-- The transport messages that a copy sends for a packet. -/
def sentBy : Copy → List MsgTransport
  | .main => transports (Wgx.deviceSendToPeer c env (Ctx.start from' peer) pkt).sent
  | .apple => (deviceSendToPeer c env peer pkt).datagrams env

/-- What a copy writes to the TUN device for a message. -/
def deliveredBy (msg : MsgTransport) : Copy → List (List Byte)
  | .main => (Wgx.handleTransport c env' dev src msg).tun
  | .apple => (handleTransport c env' d src msg).2

/-- How far a copy writes its message buffer. -/
def writtenBy : Copy → ℕ
  | .main =>
    if (sendEncryption c env (Ctx.start from' peer) pkt).isSome then txExtent pkt.length else 0
  | .apple => (deviceSendToPeer c env peer pkt).written

/-- What is delivered of a packet that the copy `s` sends and the copy `r` receives. -/
def outcome (s r : Copy) : List (List Byte) :=
  (sentBy c env from' peer pkt s).flatMap fun msg => deliveredBy c env' dev d src msg r

/-- All combinations of copies deliver the same, the packet itself or nothing, and no copy writes
behind its message buffer. -/
structure Agree : Prop where
  same : ∀ s r, outcome c env env' from' peer dev d src pkt s r =
    outcome c env env' from' peer dev d src pkt .main .main
  exact : ∀ s r, outcome c env env' from' peer dev d src pkt s r = [] ∨
    outcome c env env' from' peer dev d src pkt s r = [pkt]
  fits : ∀ s, writtenBy c env from' peer pkt s ≤ wgTxBufferSize

end Outcome

/-! ### The plaintext -/

/-- What `on_tun_readable` and `device_send_ip_packet` pass on: a packet of either version with room
for the fixed header and the right length field. -/
structure TunPacket (pkt : List Byte) : Prop where
  len : pkt.length ≤ wgMaxMessageSize
  header : ipVersion pkt = 4 ∧ 20 ≤ pkt.length ∧ be16 pkt 2 = pkt.length ∨
    ipVersion pkt = 6 ∧ 40 ≤ pkt.length ∧ 40 + be16 pkt 4 = pkt.length

/-- The header length of an IPv4 packet is at least that of the fixed header, and fits. -/
def HeaderFits (pkt : List Byte) : Prop :=
  ipVersion pkt = 4 → 20 ≤ (pkt.getD 0 0 &&& 0x0f#8).toNat * 4 ∧
    (pkt.getD 0 0 &&& 0x0f#8).toNat * 4 ≤ pkt.length

instance (pkt : List Byte) : Decidable (HeaderFits pkt) := inferInstanceAs (Decidable (_ → _))

/-- The packet is as long as the message that carries it. -/
def NeedsNoPadding (pkt : List Byte) : Prop :=
  pkt.length ≤ wgDefaultMtu ∧ (paddingMultiple ∣ pkt.length ∨ pkt.length = wgDefaultMtu)

section Plaintext

variable {pkt : List Byte}

theorem devicePadPacket_of_gt {n : ℕ} (h : wgDefaultMtu < n) :
    devicePadPacket n = wgDefaultMtu := by
  rw [wgDefaultMtu] at h
  have hround : wgDefaultMtu < (n + paddingMultiple - 1) / paddingMultiple * paddingMultiple := by
    rw [wgDefaultMtu, paddingMultiple]
    omega
  rw [devicePadPacket, if_neg (by omega)]
  simp only [if_pos hround]

theorem devicePadPacket_le (n : ℕ) : devicePadPacket n ≤ wgDefaultMtu := by
  by_cases h : n ≤ wgDefaultMtu
  · exact (le_devicePadPacket h).2
  · exact (devicePadPacket_of_gt (Nat.lt_of_not_le h)).le

theorem devicePadPacket_eq_self (h0 : 0 < pkt.length) :
    devicePadPacket pkt.length = pkt.length ↔ NeedsNoPadding pkt := by
  unfold NeedsNoPadding devicePadPacket
  rw [if_neg h0.ne', paddingMultiple, wgDefaultMtu]
  simp only
  split_ifs <;> omega

@[simp] theorem length_transportPlaintext :
    (transportPlaintext pkt).length = devicePadPacket pkt.length := by
  rw [transportPlaintext, List.length_take, List.length_append, List.length_replicate]
  omega

theorem transportPlaintext_of_le (h : pkt.length ≤ wgDefaultMtu) :
    transportPlaintext pkt = padded pkt := by
  have hpad := (le_devicePadPacket h).1
  refine List.take_of_length_le ?_
  rw [List.length_append, List.length_replicate]
  omega

theorem transportPlaintext_eq_self (h0 : 0 < pkt.length) :
    transportPlaintext pkt = pkt ↔ NeedsNoPadding pkt := by
  rw [← devicePadPacket_eq_self h0]
  constructor
  · intro heq
    rw [← length_transportPlaintext, heq]
  · intro heq
    rw [transportPlaintext, heq, Nat.sub_self, List.replicate_zero, List.append_nil,
      List.take_length]

/-- The headers stay where they are. -/
theorem getD_transportPlaintext {i : ℕ} (hi : i < pkt.length) (hmtu : i < wgDefaultMtu) :
    (transportPlaintext pkt).getD i 0 = pkt.getD i 0 := by
  have hpad : i < devicePadPacket pkt.length := by
    by_cases h : pkt.length ≤ wgDefaultMtu
    · exact hi.trans_le (le_devicePadPacket h).1
    · rwa [devicePadPacket_of_gt (Nat.lt_of_not_le h)]
  rw [transportPlaintext, List.getD_eq_getElem?_getD, List.getElem?_take_of_lt hpad,
    List.getElem?_append_left hi, List.getD_eq_getElem?_getD]

theorem TunPacket.length_pos (h : TunPacket pkt) : 0 < pkt.length := by
  rcases h.header with ⟨-, hmin, -⟩ | ⟨-, hmin, -⟩ <;> omega

theorem min_le_devicePadPacket (n : ℕ) : min n wgDefaultMtu ≤ devicePadPacket n := by
  by_cases h : n ≤ wgDefaultMtu
  · exact (Nat.min_le_left _ _).trans (le_devicePadPacket h).1
  · rw [devicePadPacket_of_gt (Nat.lt_of_not_le h)]
    exact Nat.min_le_right _ _

/-- The main copy finds the inner length of what the other copy encrypts, unless it is cut short. -/
theorem transportPlaintextLen_transportPlaintext (h : TunPacket pkt) :
    (HeaderFits pkt ∧ pkt.length ≤ wgDefaultMtu →
        transportPlaintextLen (transportPlaintext pkt) = some pkt.length) ∧
      (¬ (HeaderFits pkt ∧ pkt.length ≤ wgDefaultMtu) →
        transportPlaintextLen (transportPlaintext pkt) = none) := by
  have hpad : pkt.length ≤ wgDefaultMtu → pkt.length ≤ devicePadPacket pkt.length :=
    fun hle => (le_devicePadPacket hle).1
  have hcut : ¬ pkt.length ≤ wgDefaultMtu → devicePadPacket pkt.length = wgDefaultMtu :=
    fun hgt => devicePadPacket_of_gt (Nat.lt_of_not_le hgt)
  have hmtu : wgDefaultMtu = 1420 := rfl
  rcases h.header with ⟨hversion, hmin, htotal⟩ | ⟨hversion, hmin, htotal⟩
  · have hbyte : ∀ i < 20, (transportPlaintext pkt).getD i 0 = pkt.getD i 0 :=
      fun i hi => getD_transportPlaintext (by omega) (by omega)
    have hversion' : ipVersion (transportPlaintext pkt) = 4 := by
      rw [ipVersion, hbyte 0 (by omega)]
      exact hversion
    have htotal' : be16 (transportPlaintext pkt) 2 = pkt.length := by
      rw [be16, hbyte 2 (by omega), hbyte 3 (by omega)]
      exact htotal
    have hlong : 20 ≤ devicePadPacket pkt.length := by
      by_cases hle : pkt.length ≤ wgDefaultMtu
      · exact hmin.trans (hpad hle)
      · rw [hcut hle]
        decide
    have hfits : HeaderFits pkt ↔ 20 ≤ (pkt.getD 0 0 &&& 0x0f#8).toNat * 4 ∧
        (pkt.getD 0 0 &&& 0x0f#8).toNat * 4 ≤ pkt.length := by
      rw [HeaderFits]
      exact ⟨fun hf => hf hversion, fun hf _ => hf⟩
    rw [hfits]
    unfold transportPlaintextLen
    rw [length_transportPlaintext, if_neg (by omega), if_pos hversion', if_neg (by omega)]
    simp only [hbyte 0 (by omega), htotal']
    by_cases hle : pkt.length ≤ wgDefaultMtu
    · have := hpad hle
      refine ⟨fun hok => if_neg (by omega), fun hno => if_pos (by omega)⟩
    · have := hcut hle
      refine ⟨fun hok => absurd hok.2 hle, fun _ => if_pos (by omega)⟩
  · have hbyte : ∀ i < 40, (transportPlaintext pkt).getD i 0 = pkt.getD i 0 :=
      fun i hi => getD_transportPlaintext (by omega) (by omega)
    have hversion' : ipVersion (transportPlaintext pkt) = 6 := by
      rw [ipVersion, hbyte 0 (by omega)]
      exact hversion
    have htotal' : be16 (transportPlaintext pkt) 4 = be16 pkt 4 := by
      rw [be16, hbyte 4 (by omega), hbyte 5 (by omega), be16]
    have hlong : 40 ≤ devicePadPacket pkt.length := by
      by_cases hle : pkt.length ≤ wgDefaultMtu
      · exact hmin.trans (hpad hle)
      · rw [hcut hle]
        decide
    have hfits : HeaderFits pkt := fun hfour => absurd (hversion.symm.trans hfour) (by decide)
    unfold transportPlaintextLen
    rw [length_transportPlaintext, if_neg (by omega), if_neg (by omega), if_pos hversion',
      if_neg (by omega)]
    simp only [htotal', htotal]
    by_cases hle : pkt.length ≤ wgDefaultMtu
    · have := hpad hle
      exact ⟨fun _ => if_neg (by omega), fun hno => absurd ⟨hfits, hle⟩ hno⟩
    · have := hcut hle
      exact ⟨fun hok => absurd hok.2 hle, fun _ => if_pos (by omega)⟩

/-- The check of the source address does not see where the packet ends. -/
theorem transportAllowed_transportPlaintext (h : TunPacket pkt) (dev : Wgx.Device) (peer : Peer)
    {n : ℕ} (hn : min pkt.length wgDefaultMtu ≤ n) :
    Wgx.transportAllowed dev peer (transportPlaintext pkt) n =
      Wgx.transportAllowed dev peer pkt pkt.length := by
  have hmtu : wgDefaultMtu = 1420 := rfl
  have hlow : 20 ≤ pkt.length := by
    rcases h.header with ⟨-, hmin, -⟩ | ⟨-, hmin, -⟩ <;> omega
  have hversion : ipVersion (transportPlaintext pkt) = ipVersion pkt := by
    rw [ipVersion, getD_transportPlaintext (by omega) (by omega), ipVersion]
  unfold Wgx.transportAllowed
  rw [hversion]
  rcases h.header with ⟨hfour, hmin, -⟩ | ⟨hsix, hmin, -⟩
  · have haddr : inAddrAt (transportPlaintext pkt) 12 = inAddrAt pkt 12 := by
      unfold inAddrAt
      congr 1
      funext i
      exact getD_transportPlaintext (by omega) (by omega)
    rw [if_pos ⟨hfour, by omega⟩, if_pos ⟨hfour, hmin⟩, haddr]
  · have haddr : in6AddrAt (transportPlaintext pkt) 8 = in6AddrAt pkt 8 := by
      unfold in6AddrAt
      congr 1
      funext i
      exact getD_transportPlaintext (by omega) (by omega)
    have hnot : ∀ m : ℕ, ¬ (ipVersion pkt = 4 ∧ 20 ≤ m) := fun m hno => by omega
    rw [if_neg (hnot n), if_neg (hnot _), if_pos ⟨hsix, by omega⟩, if_pos ⟨hsix, hmin⟩, haddr]

end Plaintext

/-! ### What is sent -/

section Sent

variable {c : Crypto} {env : Env} {from' : Wgx.Device} {peer : Peer} {kp : Keypair}
  {pkt : List Byte}

/-- The keypair may still encrypt. -/
def Builds (env : Env) (kp : Keypair) : Prop :=
  (env.now - kp.createdAtMs).toNat < rejectAfterTimeMs ∧ kp.sendNonce < rejectAfterMessages

/-- A message can leave the device. -/
def CanSend (env : Env) (peer : Peer) : Prop := peer.endpoint.isSome ∧ env.udpOk

instance : Decidable (Builds env kp) := inferInstanceAs (Decidable (_ ∧ _))

instance : Decidable (CanSend env peer) := inferInstanceAs (Decidable (_ ∧ _))

/-- The transport message that the copy makes of a packet. -/
def sealApple (c : Crypto) (kp : Keypair) (pkt : List Byte) : MsgTransport :=
  ⟨kp.remoteIndex, kp.sendNonce,
    c.aeadEncrypt kp.sendKey (transportNonce kp.sendNonce) (transportPlaintext pkt) []⟩

theorem seal_eq (h : pkt.length ≤ wgDefaultMtu) : kp.seal c pkt = sealApple c kp pkt := by
  rw [sealApple, transportPlaintext_of_le h]
  rfl

theorem sentBy_main (hkp : peer.sender = some kp) :
    sentBy c env from' peer pkt .main =
      if Builds env kp ∧ pkt.length ≤ wgDefaultMtu ∧ CanSend env peer then [sealApple c kp pkt]
      else [] := by
  have hstart : transports (Ctx.start from' peer).sent = [] := rfl
  have hsender : (Ctx.start from' peer).peer.sender = some kp := hkp
  rw [sentBy, transports_deviceSendToPeer, hstart, List.nil_append, sendEncryption, hsender]
  simp only
  by_cases hcan : CanSend env peer
  · rw [if_pos (show (Ctx.start from' peer).peer.endpoint.isSome ∧ env.udpOk from hcan)]
    by_cases hbuilds : Builds env kp ∧ pkt.length ≤ wgDefaultMtu
    · rw [if_pos ⟨⟨hbuilds.2, hbuilds.1.1⟩, hbuilds.1.2⟩, if_pos ⟨hbuilds.1, hbuilds.2, hcan⟩,
        ← seal_eq hbuilds.2]
      rfl
    · rw [if_neg fun hno => hbuilds ⟨⟨hno.1.2, hno.2⟩, hno.1.1⟩,
        if_neg fun hno => hbuilds ⟨hno.1, hno.2.1⟩]
      rfl
  · rw [if_neg (show ¬ ((Ctx.start from' peer).peer.endpoint.isSome ∧ env.udpOk) from hcan),
      if_neg fun hno => hcan hno.2.2]

/-- What `device_send_to_peer` of the copy sends, and how far it writes. -/
theorem deviceSendToPeer_spec (hkp : peer.sender = some kp) :
    (deviceSendToPeer c env peer pkt).datagrams env =
        (if Builds env kp ∧ CanSend env peer then [sealApple c kp pkt] else []) ∧
      (deviceSendToPeer c env peer pkt).written =
        if Builds env kp then txExtent pkt.length else 0 := by
  have hsender : peer.currentKeypair.or peer.nextKeypair = some kp := hkp
  unfold deviceSendToPeer
  rw [hsender]
  simp only
  by_cases hage : rejectAfterTimeMs ≤ (env.now - kp.createdAtMs).toNat
  · have hno : ¬ Builds env kp := fun hbuilds => absurd hbuilds.1 (Nat.not_lt.2 hage)
    rw [if_pos hage, if_neg (fun h => hno h.1), if_neg hno]
    exact ⟨by simp [Sending.datagrams], rfl⟩
  rw [if_neg hage]
  by_cases hnonce : rejectAfterMessages ≤ kp.sendNonce
  · have hno : ¬ Builds env kp := fun hbuilds => absurd hbuilds.2 (BitVec.not_lt.2 hnonce)
    rw [if_pos hnonce, if_neg (fun h => hno h.1), if_neg hno]
    exact ⟨by simp [Sending.datagrams], rfl⟩
  have hbuilds : Builds env kp := ⟨Nat.lt_of_not_le hage, BitVec.not_le.1 hnonce⟩
  rw [if_neg hnonce, if_pos hbuilds, endpoint_countSend]
  cases hep : peer.endpoint with
  | none =>
    have hno : ¬ (Builds env kp ∧ CanSend env peer) := fun h => by
      rw [CanSend, hep] at h
      cases h.2.1
    rw [if_neg hno]
    refine ⟨?_, rfl⟩
    simp only [Sending.datagrams]
    split_ifs <;> rfl
  | some ep =>
    refine ⟨?_, rfl⟩
    simp only [Sending.datagrams, CanSend, hep, hbuilds, Option.isSome_some, true_and]
    split_ifs <;> rfl

theorem writtenBy_main (hkp : peer.sender = some kp) :
    writtenBy c env from' peer pkt .main =
      if Builds env kp ∧ pkt.length ≤ wgDefaultMtu then txExtent pkt.length else 0 := by
  have hsender : (Ctx.start from' peer).peer.sender = some kp := hkp
  have hencrypts : (sendEncryption c env (Ctx.start from' peer) pkt).isSome = true ↔
      Builds env kp ∧ pkt.length ≤ wgDefaultMtu := by
    rw [sendEncryption, hsender]
    simp only
    by_cases henc : Counted kp env pkt ∧ kp.sendNonce < rejectAfterMessages
    · rw [if_pos henc]
      exact iff_of_true rfl ⟨⟨henc.1.2, henc.2⟩, henc.1.1⟩
    · rw [if_neg henc]
      exact iff_of_false Bool.false_ne_true fun hno => henc ⟨⟨hno.2, hno.1.1⟩, hno.1.2⟩
  exact if_congr hencrypts rfl rfl

theorem txExtent_le_iff (n : ℕ) :
    txExtent n ≤ wgTxBufferSize ↔ n ≤ wgDefaultMtu + wgAeadTagLen := by
  have hpad := devicePadPacket_le n
  rw [txExtent, wgTxBufferSize]
  omega

end Sent

/-! ### What is delivered -/

/-- Both receivers have, under the index that the sender's keypair names, the same peer with the
other end of the session, and the same AllowedIPs. -/
structure Mirrored (dev : Wgx.Device) (d : Device) (kp : Keypair) (peer : Peer) (kp' : Keypair) :
    Prop where
  main : Wgx.transportTarget dev kp.remoteIndex = some (peer, kp')
  apple : transportTarget d kp.remoteIndex = some (peer.addr, peer, kp')
  key : kp'.recvKey = kp.sendKey
  allowedips : d.allowedips = dev.allowedips

section Delivered

variable {c : Crypto} {env env' : Env} {from' : Wgx.Device} {sender peer : Peer}
  {dev : Wgx.Device} {d : Device} {src : Endpoint} {kp kp' : Keypair} {pkt : List Byte}

theorem modify_allowedips (p : ℕ) (f : Peer → Peer) (d : Device) :
    (d.modify p f).allowedips = d.allowedips := by
  unfold Device.modify
  split <;> rfl

theorem deleteKeypair_allowedips (kp : Option Keypair) (d : Device) :
    (d.deleteKeypair kp).allowedips = d.allowedips := by
  cases kp <;> rfl

theorem promoteNext_allowedips (p : ℕ) (peer : Peer) (d : Device) (kpAddr : ℕ) :
    (promoteNext p peer d kpAddr).allowedips = d.allowedips := by
  unfold promoteNext
  split
  · split_ifs
    · exact deleteKeypair_allowedips _ _
    · rfl
  · rfl

/-- What an opened packet writes to the TUN device. -/
theorem transportDeliver_tun {p kpAddr len : ℕ} {plaintext : List Byte}
    (h0 : 0 < plaintext.length) :
    (transportDeliver env d p peer src kpAddr len plaintext).2 =
      if transportAllowed d p peer plaintext then [plaintext] else [] := by
  have hips := (timersDataReceived_frame env
    { peer with rxBytes := peer.rxBytes + BitVec.ofNat 64 len }).1
  unfold transportDeliver
  simp only [if_pos h0, transportAllowed, modify_allowedips, promoteNext_allowedips, hips]
  rfl

theorem transportAllowed_eq (hips : d.allowedips = dev.allowedips) {peer' : Peer}
    (hpeer : peer'.allowedips = peer.allowedips) (plaintext : List Byte) :
    transportAllowed d peer.addr peer' plaintext =
      Wgx.transportAllowed dev peer plaintext plaintext.length := by
  rw [transportAllowed, hips, hpeer]
  rfl

/-- A packet whose headers are not consistent is dropped by the main copy. -/
theorem handleTransport_tun_refused {msg : MsgTransport} {kp' : Keypair} {p : List Byte}
    (h : Opens c dev msg peer kp' p) (hn : transportPlaintextLen p = none) :
    (Wgx.handleTransport c env' dev src msg).tun = [] := by
  have hlen := h.content_len
  simp only [Wgx.handleTransport, if_neg (show ¬ msg.content.length < 16 by omega), h.target,
    h.fresh, h.opened, Bool.not_true, Bool.false_eq_true, if_false]
  split
  · rfl
  · simp only [Wgx.transportDeliver, hn]
    rfl

/-- The message opens to what was encrypted, if its counter is fresh. -/
def Fresh (kp kp' : Keypair) : Prop :=
  Replay.replayCheck kp'.replay kp.sendNonce rejectAfterMessages = true

instance : Decidable (Fresh kp kp') := inferInstanceAs (Decidable (_ = true))

/-- The source address of the packet is one that the peer may use. -/
def Allowed (dev : Wgx.Device) (peer : Peer) (pkt : List Byte) : Prop :=
  Wgx.transportAllowed dev peer pkt pkt.length = true

instance : Decidable (Allowed dev peer pkt) := inferInstanceAs (Decidable (_ = true))

theorem deliveredBy_apple (haead : c.AeadRoundTrip) (hexpands : c.AeadExpands)
    (hm : Mirrored dev d kp peer kp') (hpkt : TunPacket pkt) :
    deliveredBy c env' dev d src (sealApple c kp pkt) .apple =
      if Fresh kp kp' ∧ Allowed dev peer pkt then [transportPlaintext pkt] else [] := by
  have hcontent : ¬ (sealApple c kp pkt).content.length < 16 := by
    show ¬ (c.aeadEncrypt _ _ _ _).length < 16
    rw [hexpands, wgAeadTagLen]
    omega
  have hopened : c.aeadDecrypt kp'.recvKey (transportNonce (sealApple c kp pkt).counter)
      (sealApple c kp pkt).content [] = some (transportPlaintext pkt) := by
    rw [hm.key]
    exact haead _ _ _ _
  have htarget : transportTarget d (sealApple c kp pkt).receiver = some (peer.addr, peer, kp') :=
    hm.apple
  rw [deliveredBy, handleTransport, if_neg hcontent, htarget]
  simp only
  by_cases hfresh : Fresh kp kp'
  · have hcheck : Replay.replayCheck kp'.replay (sealApple c kp pkt).counter rejectAfterMessages =
        true := hfresh
    obtain ⟨f, hf⟩ : ∃ f, Replay.replayCommit kp'.replay (sealApple c kp pkt).counter
        rejectAfterMessages = (true, f) :=
      ⟨_, Prod.ext (by simp [Replay.replayCommit, hcheck]) rfl⟩
    rw [hcheck, hopened, hf]
    simp only [Bool.not_true, Bool.false_eq_true, if_false]
    have hpad := min_le_devicePadPacket pkt.length
    have hpos : 0 < (transportPlaintext pkt).length := by
      rw [length_transportPlaintext]
      have := hpkt.length_pos
      rw [wgDefaultMtu] at hpad
      omega
    rw [transportDeliver_tun hpos,
      @transportAllowed_eq peer dev d hm.allowedips (peer.mapKeypair _ _) rfl,
      transportAllowed_transportPlaintext hpkt dev peer (by rwa [length_transportPlaintext])]
    exact if_congr ⟨fun hallowed => ⟨hfresh, hallowed⟩, And.right⟩ rfl rfl
  · have hcheck : Replay.replayCheck kp'.replay (sealApple c kp pkt).counter rejectAfterMessages =
        false := Bool.eq_false_iff.2 hfresh
    rw [if_neg (show ¬ (Fresh kp kp' ∧ Allowed dev peer pkt) from fun h => hfresh h.1), hcheck]
    rfl

theorem deliveredBy_main (haead : c.AeadRoundTrip) (hexpands : c.AeadExpands)
    (hm : Mirrored dev d kp peer kp') (hpkt : TunPacket pkt) :
    deliveredBy c env' dev d src (sealApple c kp pkt) .main =
      if Fresh kp kp' ∧ Allowed dev peer pkt ∧ HeaderFits pkt ∧ pkt.length ≤ wgDefaultMtu then [pkt]
      else [] := by
  have hcontent : 16 ≤ (sealApple c kp pkt).content.length := by
    show 16 ≤ (c.aeadEncrypt _ _ _ _).length
    rw [hexpands, wgAeadTagLen]
    omega
  have hopened : c.aeadDecrypt kp'.recvKey (transportNonce (sealApple c kp pkt).counter)
      (sealApple c kp pkt).content [] = some (transportPlaintext pkt) := by
    rw [hm.key]
    exact haead _ _ _ _
  have htarget : Wgx.transportTarget dev (sealApple c kp pkt).receiver = some (peer, kp') := hm.main
  obtain ⟨hlen, hlen'⟩ := transportPlaintextLen_transportPlaintext hpkt
  by_cases hfresh : Fresh kp kp'
  · have hopens : Opens c dev (sealApple c kp pkt) peer kp' (transportPlaintext pkt) :=
      ⟨hcontent, htarget, hfresh, hopened⟩
    by_cases hfits : HeaderFits pkt ∧ pkt.length ≤ wgDefaultMtu
    · rw [deliveredBy, handleTransport_tun hopens (hlen hfits) hpkt.length_pos,
        transportAllowed_transportPlaintext hpkt dev peer (Nat.min_le_left _ _),
        transportPlaintext_of_le hfits.2, take_padded]
      exact if_congr ⟨fun hallowed => ⟨hfresh, hallowed, hfits⟩, fun h => h.2.1⟩ rfl rfl
    · rw [if_neg fun h => hfits h.2.2, deliveredBy,
        handleTransport_tun_refused hopens (hlen' hfits)]
  · have hcheck : Replay.replayCheck kp'.replay (sealApple c kp pkt).counter rejectAfterMessages =
        false := Bool.eq_false_iff.2 hfresh
    rw [if_neg fun h => hfresh h.1, deliveredBy, Wgx.handleTransport, if_neg (by omega), htarget]
    simp only [hcheck, Bool.not_false, if_true]
    rfl

/-! ### The four combinations -/

theorem outcome_eq (haead : c.AeadRoundTrip) (hexpands : c.AeadExpands)
    (hkp : sender.sender = some kp) (hm : Mirrored dev d kp peer kp') (hpkt : TunPacket pkt)
    (s r : Copy) : outcome c env env' from' sender dev d src pkt s r =
      if Builds env kp ∧ CanSend env sender ∧ Fresh kp kp' ∧ Allowed dev peer pkt then
        match s, r with
        | _, .main => if HeaderFits pkt ∧ pkt.length ≤ wgDefaultMtu then [pkt] else []
        | .main, .apple =>
          if pkt.length ≤ wgDefaultMtu then [transportPlaintext pkt] else []
        | .apple, .apple => [transportPlaintext pkt]
      else [] := by
  have hsent : sentBy c env from' sender pkt s =
      if Builds env kp ∧ CanSend env sender ∧ (s = .main → pkt.length ≤ wgDefaultMtu) then
        [sealApple c kp pkt] else [] := by
    cases s with
    | main =>
      rw [sentBy_main hkp]
      exact if_congr (by simp only [forall_const]; tauto) rfl rfl
    | apple =>
      refine (deviceSendToPeer_spec hkp).1.trans (if_congr ?_ rfl rfl)
      exact ⟨fun h => ⟨h.1, h.2, nofun⟩, fun h => ⟨h.1, h.2.1⟩⟩
  have hsingle : ∀ (P : Prop) [Decidable P], (if P then [sealApple c kp pkt] else []).flatMap
      (fun msg => deliveredBy c env' dev d src msg r) =
        if P then deliveredBy c env' dev d src (sealApple c kp pkt) r else [] := by
    intro P _
    split_ifs
    · exact List.flatMap_singleton _ _
    · rfl
  rw [outcome, hsent, hsingle]
  cases r with
  | main =>
    rw [deliveredBy_main haead hexpands hm hpkt]
    cases s <;> simp only [forall_const, reduceCtorEq, false_imp_iff] <;> split_ifs <;> tauto
  | apple =>
    rw [deliveredBy_apple haead hexpands hm hpkt]
    cases s <;> simp only [forall_const, reduceCtorEq, false_imp_iff] <;> split_ifs <;> tauto

theorem writtenBy_le_iff (hkp : sender.sender = some kp) :
    (∀ s, writtenBy c env from' sender pkt s ≤ wgTxBufferSize) ↔
      (Builds env kp → pkt.length ≤ wgDefaultMtu + wgAeadTagLen) := by
  have happle : writtenBy c env from' sender pkt .apple =
      if Builds env kp then txExtent pkt.length else 0 := (deviceSendToPeer_spec hkp).2
  constructor
  · intro h hbuilds
    have hle := h .apple
    rwa [happle, if_pos hbuilds, txExtent_le_iff] at hle
  · intro h s
    cases s with
    | main =>
      rw [writtenBy_main hkp]
      split_ifs with hmain
      · exact (txExtent_le_iff _).2 (h hmain.1)
      · exact Nat.zero_le _
    | apple =>
      rw [happle]
      split_ifs with hbuilds
      · exact (txExtent_le_iff _).2 (h hbuilds)
      · exact Nat.zero_le _

/-- **When the two copies agree.**  Let a packet with a right length field be sent by either copy
and received by either, through mirrored keypairs.  All combinations deliver the same, the packet itself
or nothing, and the message buffer holds, if and only if: a packet that the keypair encrypts has at
most 1436 bytes, and one that reaches the TUN device needs no padding and has a header that fits. -/
theorem copies_agree_iff (c : Crypto) (haead : c.AeadRoundTrip) (hexpands : c.AeadExpands)
    (env env' : Env) (from' : Wgx.Device) (sender : Peer) (kp : Keypair)
    (hkp : sender.sender = some kp) (dev : Wgx.Device) (d : Device) (src : Endpoint) (peer : Peer)
    (kp' : Keypair) (hm : Mirrored dev d kp peer kp') (pkt : List Byte) (hpkt : TunPacket pkt) :
    Agree c env env' from' sender dev d src pkt ↔
      (Builds env kp → pkt.length ≤ wgDefaultMtu + wgAeadTagLen) ∧
        (Builds env kp ∧ CanSend env sender ∧ Fresh kp kp' ∧ Allowed dev peer pkt →
          NeedsNoPadding pkt ∧ HeaderFits pkt) := by
  have hout := @outcome_eq c env env' from' sender peer dev d src kp kp' pkt haead hexpands hkp hm
    hpkt
  have hself := transportPlaintext_eq_self hpkt.length_pos
  constructor
  · intro h
    refine ⟨(writtenBy_le_iff hkp).1 h.fits, fun hreach => ?_⟩
    -- the pair of Apple copies delivers the plaintext as it was encrypted
    have happle : outcome c env env' from' sender dev d src pkt .apple .apple =
        [transportPlaintext pkt] := by rw [hout, if_pos hreach]
    have hmain := h.same .apple .apple
    rw [happle, hout, if_pos hreach] at hmain
    simp only at hmain
    split_ifs at hmain with hfits
    exact ⟨hself.1 (List.singleton_inj.1 hmain), hfits.1⟩
  · rintro ⟨hwritten, hreaches⟩
    have hcases : ∀ s r, outcome c env env' from' sender dev d src pkt s r =
        if Builds env kp ∧ CanSend env sender ∧ Fresh kp kp' ∧ Allowed dev peer pkt then [pkt]
        else [] := by
      intro s r
      rw [hout]
      by_cases hreach : Builds env kp ∧ CanSend env sender ∧ Fresh kp kp' ∧ Allowed dev peer pkt
      · obtain ⟨hpad, hfits⟩ := hreaches hreach
        rw [if_pos hreach, if_pos hreach, hself.2 hpad]
        cases s <;> cases r <;> simp only [hfits, hpad.1, and_self, if_true]
      · rw [if_neg hreach, if_neg hreach]
    refine ⟨fun s r => (hcases s r).trans (hcases .main .main).symm, fun s r => ?_,
      (writtenBy_le_iff hkp).2 hwritten⟩
    rw [hcases]
    split_ifs
    · exact Or.inr rfl
    · exact Or.inl rfl

end Delivered

/-! ### A session in both copies -/

/-- The device of the other copy with the same peers and the same indices. -/
def mirror (dev : Wgx.Device) : Device where
  peers := dev.peerAt
  indexTable s := (dev.indexTable s.toNat).map fun e => ⟨e.type, e.peer, e.handshake, e.keypair⟩
  allowedips := dev.allowedips
  nextAddr := dev.nextAddr
  calls := []

theorem mirrored_mirror {dev : Wgx.Device} {kp kp' : Keypair} {peer : Peer}
    (h : Wgx.transportTarget dev kp.remoteIndex = some (peer, kp'))
    (hkey : kp'.recvKey = kp.sendKey) : Mirrored dev (mirror dev) kp peer kp' := by
  refine ⟨h, ?_, hkey, rfl⟩
  have hslot : (slot kp.remoteIndex).toNat = indexSlot kp.remoteIndex := by
    rw [toNat_slot, indexSlot]
    exact (toNat_masked kp.remoteIndex).symm
  unfold Wgx.transportTarget at h
  cases hlookup : Wgx.indexTableLookup dev.indexTable kp.remoteIndex with
  | none =>
    rw [hlookup] at h
    cases h
  | some e =>
    have hentry := (indexTableLookup_eq_some.1 hlookup).1
    have hmirror : indexTableLookup (mirror dev).indexTable kp.remoteIndex =
        some ⟨e.type, e.peer, e.handshake, e.keypair⟩ := by
      show ((dev.indexTable (slot kp.remoteIndex).toNat).map _) = _
      rw [hslot, hentry]
      rfl
    rw [hlookup] at h
    rw [transportTarget, hmirror]
    simp only at h ⊢
    split_ifs at h ⊢ with htype
    have hpeers : (mirror dev).peers e.peer = dev.peerAt e.peer := rfl
    rw [hpeers]
    cases hkp : e.keypair with
    | none =>
      rw [hkp] at h
      cases h
    | some a =>
      rw [hkp] at h
      cases hpeer : dev.peerAt e.peer with
      | none =>
        rw [hpeer] at h
        cases h
      | some q =>
        rw [hpeer] at h
        simp only at h ⊢
        obtain ⟨k, hk, heq⟩ := Option.map_eq_some_iff.1 h
        obtain ⟨rfl, rfl⟩ := Prod.mk.inj heq
        have haddr : q.addr = e.peer := by
          have := List.find?_some hpeer
          simpa using this
        rw [hk, haddr]
        rfl

theorem overlapPacket_tunPacket : TunPacket overlapPacket :=
  ⟨by decide, Or.inl ⟨by decide, by decide, by decide⟩⟩

theorem copies_agree_iff_overlap : ∃ peer kp',
    Mirrored overlapDevice (mirror overlapDevice) overlapSender peer kp' ∧
      (Agree tagCrypto (toyEnv 5) (toyEnv 5) overlapDevice overlapSenderPeer overlapDevice
          (mirror overlapDevice) (.v4 #v[1, 2, 3, 4] 5) overlapPacket ↔
        (Builds (toyEnv 5) overlapSender → overlapPacket.length ≤ wgDefaultMtu + wgAeadTagLen) ∧
          (Builds (toyEnv 5) overlapSender ∧ CanSend (toyEnv 5) overlapSenderPeer ∧
              Fresh overlapSender kp' ∧ Allowed overlapDevice peer overlapPacket →
            NeedsNoPadding overlapPacket ∧ HeaderFits overlapPacket)) :=
  ⟨_, _, mirrored_mirror rfl rfl, copies_agree_iff tagCrypto tagCrypto_aead tagCrypto_expands
    (toyEnv 5) (toyEnv 5) overlapDevice overlapSenderPeer overlapSender rfl overlapDevice
    (mirror overlapDevice) (.v4 #v[1, 2, 3, 4] 5) _ _ (mirrored_mirror rfl rfl) overlapPacket
    overlapPacket_tunPacket⟩

/-- The other copy delivers a packet of 20 bytes with 12 zero bytes behind it. -/
theorem padding_delivered : ¬ ∀ (c : Crypto), c.AeadRoundTrip → c.AeadExpands →
    ∀ (env env' : Env) (from' : Wgx.Device) (sender : Peer) (kp : Keypair),
      sender.sender = some kp → ∀ (dev : Wgx.Device) (d : Device) (src : Endpoint) (peer : Peer)
        (kp' : Keypair), Mirrored dev d kp peer kp' → ∀ pkt, TunPacket pkt →
          Agree c env env' from' sender dev d src pkt := by
  intro h
  obtain ⟨peer, kp', hm, hfresh, hallowed⟩ : ∃ peer kp',
      Mirrored overlapDevice (mirror overlapDevice) overlapSender peer kp' ∧
        Fresh overlapSender kp' ∧ Allowed overlapDevice peer overlapPacket :=
    ⟨_, _, mirrored_mirror rfl rfl, by decide +kernel, by decide +kernel⟩
  have hagree := h tagCrypto tagCrypto_aead tagCrypto_expands (toyEnv 5) (toyEnv 5) overlapDevice
    overlapSenderPeer overlapSender rfl overlapDevice (mirror overlapDevice)
    (.v4 #v[1, 2, 3, 4] 5) peer kp' hm overlapPacket overlapPacket_tunPacket
  have hreach : Builds (toyEnv 5) overlapSender ∧ CanSend (toyEnv 5) overlapSenderPeer ∧
      Fresh overlapSender kp' ∧ Allowed overlapDevice peer overlapPacket :=
    ⟨by decide, by decide, hfresh, hallowed⟩
  have hlong : ¬ (transportPlaintext overlapPacket = overlapPacket) := by decide
  rcases hagree.exact .main .apple with hout | hout
  all_goals
    rw [outcome_eq tagCrypto_aead tagCrypto_expands rfl hm overlapPacket_tunPacket,
      if_pos hreach] at hout
    simp only [show overlapPacket.length ≤ wgDefaultMtu by decide, if_true] at hout
  · cases hout
  · exact hlong (List.singleton_inj.1 hout)

end Wgx.Apple
