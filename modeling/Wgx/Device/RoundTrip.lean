import Wgx.Device.Datagrams
import Wgx.Device.Nonce
import Wgx.Device.Routing

/-!
# A packet through a session

A packet that one side seals is what the other side delivers: header bytes, nonce, padding and the
recovery of the inner length from the IP header fit together.

* `decodeDatagram_encode`: the header is read as it was written;
* `transportPlaintextLen_pad`: the length of a padded packet is recovered;
* `transport_round_trip`: the round trip.
-/

namespace Wgx

/-- A ciphertext is `WG_AEAD_TAG_LEN` bytes longer than its plaintext. -/
def Crypto.AeadExpands (c : Crypto) : Prop :=
  ∀ key nonce plaintext aad,
    (c.aeadEncrypt key nonce plaintext aad).length = plaintext.length + wgAeadTagLen

/-- The bytes that `device_send_to_peer` writes: `msg_transport_hdr_t`, then the ciphertext. -/
def MsgTransport.encode (msg : MsgTransport) : List Byte :=
  leBytes 4 4 ++ leBytes 4 msg.receiver.toNat ++ leBytes 8 msg.counter.toNat ++ msg.content

/-- An IPv4 packet whose header fits and states its length. -/
def IsIpv4Packet (pkt : List Byte) : Prop :=
  ipVersion pkt = 4 ∧ 5 ≤ (pkt.getD 0 0 &&& 0x0f#8).toNat ∧
    (pkt.getD 0 0 &&& 0x0f#8).toNat * 4 ≤ pkt.length ∧ be16 pkt 2 = pkt.length

/-- An IPv6 packet whose header fits and states its length. -/
def IsIpv6Packet (pkt : List Byte) : Prop :=
  ipVersion pkt = 6 ∧ 40 ≤ pkt.length ∧ 40 + be16 pkt 4 = pkt.length

/-- The window has not seen the counter: it is ahead of the window, or inside it with its bit
clear. -/
def Replay.ReplayFilter.Unseen (f : Replay.ReplayFilter) (counter : BitVec 64) : Prop :=
  f.last < counter ∨ (f.last - counter).toNat ≤ Replay.windowSize ∧
    f.ring (Replay.ringSlot (counter >>> 6)) &&& Replay.counterBit counter = 0#64

/-! ### The header -/

@[simp] theorem length_leBytes (n x : ℕ) : (leBytes n x).length = n := by simp [leBytes]

theorem leWord_leBytes (n x : ℕ) : leWord (leBytes n x) = x % 256 ^ n := by
  induction n generalizing x with
  | zero => simp [leBytes, Nat.mod_one]
  | succ n ih =>
    have hrest : leBytes (n + 1) x = BitVec.ofNat 8 x :: leBytes n (x / 256) := by
      simp only [leBytes, List.range_succ_eq_map, List.map_cons, List.map_map, pow_zero,
        Nat.div_one]
      congr 1
      refine List.map_congr_left fun i _ => ?_
      simp only [Function.comp_apply, Nat.pow_succ', Nat.div_div_eq_div_mul]
    rw [hrest, leWord_cons, ih, BitVec.toNat_ofNat]
    show x % 256 + 256 * (x / 256 % 256 ^ n) = x % 256 ^ (n + 1)
    rw [Nat.pow_succ', Nat.mod_mul]

/-- A field of the header is read back. -/
theorem wordAt_append {n : ℕ} (front back : List Byte) (w : BitVec (8 * n)) :
    wordAt n (front ++ (leBytes n w.toNat ++ back)) front.length = w := by
  have hlt : w.toNat < 256 ^ n := by
    rw [show (256 : ℕ) = 2 ^ 8 from rfl, ← Nat.pow_mul]
    exact w.isLt
  rw [wordAt, bytesAt, List.drop_left, List.take_left' (length_leBytes n _), leWord_leBytes,
    Nat.mod_eq_of_lt hlt, BitVec.ofNat_toNat, BitVec.setWidth_eq]

/-- **The header is read as it was written.** -/
theorem decodeDatagram_encode (msg : MsgTransport) (hlen : 16 ≤ msg.content.length) :
    decodeDatagram msg.encode = some (.transport msg) := by
  have htype : leWord (bytesAt msg.encode 0 4) = 4 := by
    rw [bytesAt, List.drop_zero, MsgTransport.encode, List.append_assoc, List.append_assoc,
      List.take_left' (length_leBytes 4 4), leWord_leBytes]
    rfl
  have hreceiver : wordAt 4 msg.encode 4 = msg.receiver := by
    have h := @wordAt_append 4 (leBytes 4 4) (leBytes 8 msg.counter.toNat ++ msg.content)
      msg.receiver
    rw [length_leBytes] at h
    rwa [MsgTransport.encode, List.append_assoc, List.append_assoc]
  have hcounter : wordAt 8 msg.encode 8 = msg.counter := by
    have h := @wordAt_append 8 (leBytes 4 4 ++ leBytes 4 msg.receiver.toNat) msg.content msg.counter
    rw [List.length_append, length_leBytes, length_leBytes] at h
    rwa [MsgTransport.encode, List.append_assoc _ _ msg.content]
  have hcontent : msg.encode.drop 16 = msg.content :=
    List.drop_left' (by simp)
  have htotal : msg.encode.length = 16 + msg.content.length := by
    simp [MsgTransport.encode]
    omega
  unfold decodeDatagram
  rw [if_neg (by omega)]
  simp only [htype]
  rw [if_neg (by decide), if_neg (by decide), if_neg (by decide), if_pos trivial,
    if_neg (by omega)]
  rw [decodeTransport, hreceiver, hcounter, hcontent]

/-! ### Padding -/

theorem le_devicePadPacket {n : ℕ} (h : n ≤ wgDefaultMtu) :
    n ≤ devicePadPacket n ∧ devicePadPacket n ≤ wgDefaultMtu := by
  have hround : n ≤ (n + paddingMultiple - 1) / paddingMultiple * paddingMultiple := by
    rw [paddingMultiple]
    omega
  unfold devicePadPacket
  by_cases h0 : n = 0
  · rw [if_pos h0]
    omega
  · rw [if_neg h0]
    by_cases hcap : wgDefaultMtu < (n + paddingMultiple - 1) / paddingMultiple * paddingMultiple
    · simp only [if_pos hcap]
      omega
    · simp only [if_neg hcap]
      omega

/-- A packet with zero bytes behind it. -/
def padded (pkt : List Byte) : List Byte :=
  pkt ++ List.replicate (devicePadPacket pkt.length - pkt.length) 0#8

theorem getD_padded {pkt : List Byte} {i : ℕ} (hi : i < pkt.length) :
    (padded pkt).getD i 0 = pkt.getD i 0 := by
  simp [padded, List.getD_eq_getElem?_getD, List.getElem?_append_left hi]

theorem take_padded (pkt : List Byte) : (padded pkt).take pkt.length = pkt :=
  List.take_left

/-- **The length of a padded packet is recovered** from either kind of header. -/
theorem transportPlaintextLen_padded {pkt : List Byte} (hmtu : pkt.length ≤ wgDefaultMtu)
    (hpkt : pkt = [] ∨ IsIpv4Packet pkt ∨ IsIpv6Packet pkt) :
    transportPlaintextLen (padded pkt) = some pkt.length := by
  have hpad := le_devicePadPacket hmtu
  have hlen : (padded pkt).length = devicePadPacket pkt.length := by
    simp [padded]
    omega
  rcases hpkt with rfl | ⟨hversion, hihl, hfits, htotal⟩ | ⟨hversion, hmin, htotal⟩
  · rfl
  · have hbyte : ∀ i < 20, (padded pkt).getD i 0 = pkt.getD i 0 :=
      fun i hi => getD_padded (by omega)
    have hversion' : ipVersion (padded pkt) = 4 := by
      rw [ipVersion, hbyte 0 (by omega)]
      exact hversion
    have htotal' : be16 (padded pkt) 2 = pkt.length := by
      rw [be16, hbyte 2 (by omega), hbyte 3 (by omega)]
      exact htotal
    unfold transportPlaintextLen
    rw [if_neg (by omega), if_pos hversion', if_neg (by omega)]
    simp only [hbyte 0 (by omega), htotal']
    rw [if_neg (by omega)]
  · have hbyte : ∀ i < 40, (padded pkt).getD i 0 = pkt.getD i 0 :=
      fun i hi => getD_padded (by omega)
    have hversion' : ipVersion (padded pkt) = 6 := by
      rw [ipVersion, hbyte 0 (by omega)]
      exact hversion
    have htotal' : be16 (padded pkt) 4 = be16 pkt 4 := by
      rw [be16, hbyte 4 (by omega), hbyte 5 (by omega), be16]
    unfold transportPlaintextLen
    rw [if_neg (by omega), if_neg (by omega), if_pos hversion', if_neg (by omega)]
    simp only [htotal', htotal]
    rw [if_neg (by omega)]

theorem transportAllowed_padded (dev : Device) (peer : Peer) {pkt : List Byte} {n : ℕ}
    (hn : n = pkt.length) (h0 : 0 < n) :
    transportAllowed dev peer (padded pkt) n = transportAllowed dev peer pkt n := by
  have hversion : ipVersion (padded pkt) = ipVersion pkt := by
    rw [ipVersion, getD_padded (by omega), ipVersion]
  have hv4 : 20 ≤ n → inAddrAt (padded pkt) 12 = inAddrAt pkt 12 := by
    intro h
    unfold inAddrAt
    congr 1
    funext i
    exact getD_padded (by omega)
  have hv6 : 40 ≤ n → in6AddrAt (padded pkt) 8 = in6AddrAt pkt 8 := by
    intro h
    unfold in6AddrAt
    congr 1
    funext i
    exact getD_padded (by omega)
  unfold transportAllowed
  rw [hversion]
  split_ifs with h4 h6
  · rw [hv4 h4.2]
  · rw [hv6 h6.2]
  · rfl

/-! ### The round trip -/

/-- A keepalive writes nothing to the TUN device. -/
theorem handleTransport_tun_empty {c : Crypto} {env : Env} {dev : Device} {src : Endpoint}
    {msg : MsgTransport} {peer : Peer} {kp : Keypair} (h : Opens c dev msg peer kp []) :
    (handleTransport c env dev src msg).tun = [] := by
  have hlen := h.content_len
  simp only [handleTransport, if_neg (show ¬ msg.content.length < 16 by omega), h.target, h.fresh,
    h.opened, Bool.not_true, Bool.false_eq_true, if_false]
  split
  · rfl
  · exact (promoteNext_frame _ _).2.2.2

theorem Replay.ReplayFilter.Unseen.check {f : Replay.ReplayFilter} {counter : BitVec 64}
    (h : f.Unseen counter) (hlimit : counter < rejectAfterMessages) :
    Replay.replayCheck f counter rejectAfterMessages = true := by
  unfold Replay.replayCheck
  rw [if_neg (BitVec.not_le.2 hlimit)]
  rcases h with hahead | ⟨hinside, hclear⟩
  · rw [if_neg (BitVec.not_le.2 hahead)]
  · split_ifs with hle hold
    · omega
    · exact decide_eq_true hclear
    · rfl

/-- **Transport messages round-trip.**  Let `kp` be the keypair that sends, young enough and with a
counter below the limit, and let the receiver's table give, for the index that the message names, a
keypair with the same key whose window has not seen the counter.  Then for the empty packet and for
every IP packet up to the MTU the message that `device_send_to_peer` sends, put on the wire and
received, opens to the padded packet, of which exactly the packet is delivered: it goes to the TUN
device if the AllowedIPs check on it passes, and a keepalive delivers nothing. -/
theorem transport_round_trip (c : Crypto) (haead : c.AeadRoundTrip) (hexpands : c.AeadExpands)
    (env : Env) (x : Ctx) (kp : Keypair) (hkp : x.peer.sender = some kp) (pkt : List Byte)
    (hpkt : pkt = [] ∨ IsIpv4Packet pkt ∨ IsIpv6Packet pkt) (hcounted : Counted kp env pkt)
    (hnonce : kp.sendNonce < rejectAfterMessages) (env' : Env) (fuel : ℕ) (dev : Device)
    (src : Endpoint) (peer : Peer) (kp' : Keypair)
    (htarget : transportTarget dev kp.remoteIndex = some (peer, kp'))
    (hkey : kp'.recvKey = kp.sendKey) (hunseen : kp'.replay.Unseen kp.sendNonce) :
    transports (deviceSendToPeer c env x pkt).sent = transports x.sent ++
        (if x.peer.endpoint.isSome ∧ env.udpOk then [kp.seal c pkt] else []) ∧
      ∃ p r, Opens c dev (kp.seal c pkt) peer kp' p ∧
        transportPlaintextLen p = some pkt.length ∧ p.take pkt.length = pkt ∧
        onUdpRecvBytes c env' fuel dev src (kp.seal c pkt).encode = some r ∧
        r.tun = if pkt ≠ [] ∧ transportAllowed dev peer pkt pkt.length then [pkt] else [] := by
  have hcontent : 16 ≤ (kp.seal c pkt).content.length := by
    show 16 ≤ (c.aeadEncrypt _ _ _ _).length
    rw [hexpands, wgAeadTagLen]
    omega
  have hopens : Opens c dev (kp.seal c pkt) peer kp' (padded pkt) :=
    ⟨hcontent, htarget, hunseen.check hnonce, by rw [hkey]; exact haead _ _ _ _⟩
  have hplain := transportPlaintextLen_padded hcounted.1 hpkt
  refine ⟨?_, padded pkt, handleTransport c env' dev src (kp.seal c pkt), hopens, hplain,
    take_padded pkt, ?_, ?_⟩
  · rw [transports_deviceSendToPeer, sendEncryption, hkp]
    simp only [if_pos (show Counted kp env pkt ∧ kp.sendNonce < rejectAfterMessages from
      ⟨hcounted, hnonce⟩), Option.map_some, Option.toList_some]
  · rw [onUdpRecvBytes, decodeDatagram_encode _ hcontent]
    rfl
  · cases hp : pkt with
    | nil =>
      rw [hp] at hopens
      rw [handleTransport_tun_empty hopens, if_neg (by simp)]
    | cons b rest =>
      rw [← hp]
      have h0 : 0 < pkt.length := by rw [hp]; exact Nat.succ_pos _
      rw [handleTransport_tun hopens hplain h0, transportAllowed_padded dev peer rfl h0,
        take_padded]
      simp only [show pkt ≠ [] from List.ne_nil_of_length_pos h0, ne_eq, not_false_eq_true,
        true_and]

/-- The toy instance with a tag of 16 bytes behind the plaintext. -/
def tagCrypto : Crypto :=
  { toyCrypto with
    aeadEncrypt := fun key nonce plaintext aad =>
      plaintext ++ List.replicate 16 ((key ++ nonce ++ aad).foldl (· + ·) 0)
    aeadDecrypt := fun key nonce ciphertext aad =>
      if ciphertext.drop (ciphertext.length - 16) =
          List.replicate 16 ((key ++ nonce ++ aad).foldl (· + ·) 0) then
        some (ciphertext.take (ciphertext.length - 16))
      else none }

theorem tagCrypto_aead : tagCrypto.AeadRoundTrip := by
  intro key nonce plaintext aad
  simp only [tagCrypto, List.length_append, List.length_replicate, Nat.add_sub_cancel]
  rw [if_pos (List.drop_left), List.take_left]

theorem tagCrypto_expands : tagCrypto.AeadExpands := by
  intro key nonce plaintext aad
  simp [tagCrypto, wgAeadTagLen]

/-- The other end of the session of `overlapDevice`. -/
def overlapSender : Keypair := { overlapKeypair with remoteIndex := 3 }

/-- A peer with that session and an endpoint. -/
def overlapSenderPeer : Peer :=
  { toyPeer (List.replicate 32 1) (List.replicate 32 2) with
    currentKeypair := some overlapSender, endpoint := some (.v4 #v[1, 2, 3, 4] 5) }

theorem transport_round_trip_overlap :
    ∃ peer kp', transportTarget overlapDevice 3 = some (peer, kp') ∧
      (transports (deviceSendToPeer tagCrypto (toyEnv 5) (Ctx.start overlapDevice overlapSenderPeer)
          overlapPacket).sent =
        transports (Ctx.start overlapDevice overlapSenderPeer).sent ++
          (if overlapSenderPeer.endpoint.isSome ∧ (toyEnv 5).udpOk then
            [overlapSender.seal tagCrypto overlapPacket] else []) ∧
      ∃ p r, Opens tagCrypto overlapDevice (overlapSender.seal tagCrypto overlapPacket) peer kp' p ∧
        transportPlaintextLen p = some overlapPacket.length ∧
        p.take overlapPacket.length = overlapPacket ∧
        onUdpRecvBytes tagCrypto (toyEnv 5) 0 overlapDevice (.v4 #v[1, 2, 3, 4] 5)
          (overlapSender.seal tagCrypto overlapPacket).encode = some r ∧
        r.tun = if overlapPacket ≠ [] ∧
          transportAllowed overlapDevice peer overlapPacket overlapPacket.length
          then [overlapPacket] else []) :=
  ⟨_, _, rfl, transport_round_trip tagCrypto tagCrypto_aead tagCrypto_expands (toyEnv 5)
    (Ctx.start overlapDevice overlapSenderPeer) overlapSender rfl overlapPacket
    (Or.inr (Or.inl ⟨by decide, by decide, by decide, by decide⟩)) ⟨by decide, by decide⟩
    (by decide) (toyEnv 5) 0 overlapDevice (.v4 #v[1, 2, 3, 4] 5) _ _ rfl rfl
    (Or.inr ⟨by decide, by decide⟩)⟩

end Wgx
