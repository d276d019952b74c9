import Wgx.Device.Reachable

/-!
# What a call carries over

Datagrams, packets and timers work on the handshakes and keypairs of a peer.  Here is, once for all
functions, what they leave as it was: the configuration of the device and of the peer, the other
peers, the endpoint unless an authenticated datagram sets it, and of every keypair that stays in a
slot the key it receives with and its filter against replays.

* `Device.config`, `Peer.settings`: the configuration;
* `Carried`: what a call leaves as it was;
* `carried_deviceSendToPeer`, `carried_timerCallback`, …: the functions.
-/

namespace Wgx

/-! ### The configuration -/

/-- What the configuration says of a device, its list of peers apart. -/
structure DeviceConfig where
  privateKey : List Byte
  publicKey : List Byte
  listenPort : BitVec 16
  fwmark : BitVec 32
  allowedips : AllowedIps.Table ℕ

/-- The configuration of a device. -/
def Device.config (dev : Device) : DeviceConfig :=
  ⟨dev.privateKey, dev.publicKey, dev.listenPort, dev.fwmark, dev.allowedips⟩

/-- What the configuration says of a peer, its endpoint apart. -/
structure PeerSettings where
  addr : ℕ
  publicKey : List Byte
  presharedKey : List Byte
  persistentKeepaliveMs : BitVec 32
  allowedips : AllowedIps.Table ℕ

/-- The configuration of a peer. -/
def Peer.settings (p : Peer) : PeerSettings :=
  ⟨p.addr, p.publicKey, p.handshake.psk, p.persistentKeepaliveMs, p.allowedips⟩

/-- The keypair is the other one, but for the counter it sends with. -/
structure Keypair.SameFilter (kp kp' : Keypair) : Prop where
  addr : kp.addr = kp'.addr
  recvKey : kp.recvKey = kp'.recvKey
  replay : kp.replay = kp'.replay

/-- The call that led from `x` to `y` left the configuration, the endpoint and the other peers alone
and wrote nothing to the TUN device, and the keypairs in the slots are those of before or come from
a session that began since. -/
structure Carried (x y : Ctx) : Prop where
  config : y.dev.config = x.dev.config
  peers : y.dev.peers = x.dev.peers
  settings : y.peer.settings = x.peer.settings
  endpoint : y.peer.endpoint = x.peer.endpoint
  tun : y.tun = x.tun
  next : x.dev.nextAddr ≤ y.dev.nextAddr
  keypairs : ∀ kp ∈ y.peer.keypairs, (∃ kp' ∈ x.peer.keypairs, kp.SameFilter kp') ∨
    (x.dev.nextAddr ≤ kp.addr ∧ kp.replay = Replay.replayReset)

section Carried

variable {c : Crypto} {env : Env} {x y z : Ctx}

theorem Keypair.SameFilter.refl (kp : Keypair) : kp.SameFilter kp := ⟨rfl, rfl, rfl⟩

theorem Keypair.SameFilter.trans {kp kp' kp'' : Keypair} (h1 : kp.SameFilter kp')
    (h2 : kp'.SameFilter kp'') : kp.SameFilter kp'' :=
  ⟨h1.addr.trans h2.addr, h1.recvKey.trans h2.recvKey, h1.replay.trans h2.replay⟩

theorem Carried.refl (x : Ctx) : Carried x x :=
  ⟨rfl, rfl, rfl, rfl, rfl, le_rfl, fun kp hkp => Or.inl ⟨kp, hkp, .refl kp⟩⟩

theorem Carried.trans (h1 : Carried x y) (h2 : Carried y z) : Carried x z := by
  refine ⟨h2.config.trans h1.config, h2.peers.trans h1.peers, h2.settings.trans h1.settings,
    h2.endpoint.trans h1.endpoint, h2.tun.trans h1.tun, h1.next.trans h2.next, ?_⟩
  intro kp hkp
  rcases h2.keypairs kp hkp with ⟨kp', hkp', hsame⟩ | ⟨hnew, hreset⟩
  · rcases h1.keypairs kp' hkp' with ⟨kp'', hkp'', hsame'⟩ | ⟨hnew, hreset⟩
    · exact Or.inl ⟨kp'', hkp'', hsame.trans hsame'⟩
    · exact Or.inr ⟨hsame.addr ▸ hnew, hsame.replay ▸ hreset⟩
  · exact Or.inr ⟨h1.next.trans hnew, hreset⟩

/-- A call that leaves the keypairs alone. -/
theorem carried_of_eq (hconfig : y.dev.config = x.dev.config) (hpeers : y.dev.peers = x.dev.peers)
    (hnext : y.dev.nextAddr = x.dev.nextAddr) (hsettings : y.peer.settings = x.peer.settings)
    (hendpoint : y.peer.endpoint = x.peer.endpoint) (htun : y.tun = x.tun)
    (hkeypairs : y.peer.keypairs = x.peer.keypairs) : Carried x y :=
  ⟨hconfig, hpeers, hsettings, hendpoint, htun, hnext.ge,
    fun kp hkp => Or.inl ⟨kp, hkeypairs ▸ hkp, .refl kp⟩⟩

/-! ### The Noise functions -/

theorem carried_udpSend (ep : Endpoint) (d : Datagram) : Carried x (x.udpSend env ep d) := by
  unfold Ctx.udpSend
  split_ifs <;> exact carried_of_eq rfl rfl rfl rfl rfl rfl rfl

theorem carried_noiseCreateInitiation : Carried x (noiseCreateInitiation c env x).1 := by
  simp only [noiseCreateInitiation]
  split
  · exact carried_of_eq rfl rfl rfl rfl rfl rfl rfl
  · split_ifs <;> exact carried_of_eq rfl rfl rfl rfl rfl rfl rfl

theorem carried_noiseCreateResponse : Carried x (noiseCreateResponse c env x).1 := by
  simp only [noiseCreateResponse]
  split_ifs
  · exact Carried.refl x
  · exact carried_of_eq rfl rfl rfl rfl rfl rfl rfl
  · split
    · exact carried_of_eq rfl rfl rfl rfl rfl rfl rfl
    · split <;> exact carried_of_eq rfl rfl rfl rfl rfl rfl rfl

/-- A session start fills a slot with a new keypair and moves the others at most. -/
theorem carried_noiseBeginSession : Carried x (noiseBeginSession c env x).1 := by
  by_cases hstate : x.peer.handshake.state = .responseConsumed ∨
      x.peer.handshake.state = .responseCreated
  · rw [noiseBeginSession_eq hstate]
    have hslots : ∀ kp ∈ (x.rotated c env).2.keypairs,
        kp ∈ x.peer.keypairs ∨ kp = x.session c env := by
      intro kp hkp
      rw [mem_keypairs] at hkp ⊢
      simp only [Ctx.rotated, rotateKeypairs] at hkp
      split_ifs at hkp
      · cases hnext : x.peer.nextKeypair <;> simp only [hnext] at hkp <;> grind
      · grind
    obtain ⟨cur, next, prev, hpeer⟩ := rotated_frame c env x
    refine ⟨rfl, rfl, ?_, ?_, rfl, Nat.le_succ _, ?_⟩
    · simp only [hpeer]
      rfl
    · simp only [hpeer]
    · intro kp hkp
      rcases hslots kp hkp with hold | rfl
      · exact Or.inl ⟨kp, hold, .refl kp⟩
      · exact Or.inr ⟨le_refl _, rfl⟩
  · rw [not_or] at hstate
    rw [noiseBeginSession, if_pos hstate]
    exact Carried.refl x

/-! ### Sending -/

theorem carried_timersHandshakeInitiated : Carried x (timersHandshakeInitiated env x) := by
  unfold timersHandshakeInitiated
  split_ifs <;> exact carried_of_eq rfl rfl rfl rfl rfl rfl rfl

theorem carried_deviceInitiateHandshakeInner (force : Bool) :
    Carried x (deviceInitiateHandshakeInner c env x force).1 := by
  simp only [deviceInitiateHandshakeInner]
  split_ifs
  · exact Carried.refl x
  · set y := x.setHandshake { x.peer.handshake with lastSentHandshakeMs := env.now }
    have hy : Carried x y := carried_of_eq rfl rfl rfl rfl rfl rfl rfl
    have hcreate : Carried x (noiseCreateInitiation c env y).1 :=
      hy.trans carried_noiseCreateInitiation
    split
    next z hz => rwa [hz] at hcreate
    next z msg hz =>
      rw [hz] at hcreate
      split
      · exact hcreate
      · exact (hcreate.trans (carried_udpSend _ _)).trans carried_timersHandshakeInitiated

theorem carried_timersHandshakeBegin : Carried x (timersHandshakeBegin c env x) := by
  unfold timersHandshakeBegin
  split_ifs
  · exact Carried.refl x
  · exact carried_deviceInitiateHandshakeInner false
  · exact Carried.refl x

theorem carried_stage (pkt : List Byte) : Carried x (x.stage pkt) := by
  unfold Ctx.stage peerStagePacket
  split_ifs <;> exact carried_of_eq rfl rfl rfl rfl rfl rfl rfl

theorem carried_countSend : Carried x { x with peer := x.peer.countSend } := by
  have hpeer : x.peer.countSend.settings = x.peer.settings ∧
      x.peer.countSend.endpoint = x.peer.endpoint := by
    unfold Peer.countSend
    split <;> exact ⟨rfl, rfl⟩
  refine ⟨rfl, rfl, hpeer.1, hpeer.2, rfl, le_rfl, ?_⟩
  intro kp hkp
  left
  simp only [mem_keypairs, Peer.countSend] at hkp ⊢
  cases hcur : x.peer.currentKeypair with
  | some cur =>
    rw [hcur] at hkp
    rcases hkp with hkp | hkp | hkp
    · obtain rfl := Option.some.inj hkp
      exact ⟨cur, Or.inl rfl, rfl, rfl, rfl⟩
    · exact ⟨kp, Or.inr (Or.inl hkp), .refl kp⟩
    · exact ⟨kp, Or.inr (Or.inr hkp), .refl kp⟩
  | none =>
    rw [hcur] at hkp
    rcases hkp with hkp | hkp | hkp
    · cases hkp
    · obtain ⟨next, hnext, rfl⟩ := Option.map_eq_some_iff.1 hkp
      exact ⟨next, Or.inr (Or.inl hnext), rfl, rfl, rfl⟩
    · exact ⟨kp, Or.inr (Or.inr hkp), .refl kp⟩

theorem carried_timersDataSent (total : ℕ) :
    Carried x { x with peer := timersDataSent env (x.peer.countTx env total) } := by
  unfold timersDataSent Peer.countTx
  split_ifs <;> exact carried_of_eq rfl rfl rfl rfl rfl rfl rfl

theorem carried_deviceSendCounted {kp : Keypair} {pkt : List Byte} :
    Carried x (deviceSendCounted c env x kp pkt) := by
  have hbegin : ∀ y : Ctx, Carried y
      (if rekeyAfterMessages ≤ kp.sendNonce then timersHandshakeBegin c env y else y) := by
    intro y
    split_ifs
    · exact carried_timersHandshakeBegin
    · exact Carried.refl y
  simp only [deviceSendCounted]
  by_cases hreject : rejectAfterMessages ≤ kp.sendNonce
  · rw [if_pos hreject]
    exact (carried_stage pkt).trans carried_timersHandshakeBegin
  · rw [if_neg hreject]
    refine (hbegin x).trans ?_
    generalize (if rekeyAfterMessages ≤ kp.sendNonce then timersHandshakeBegin c env x else x) = y
    cases y.peer.endpoint with
    | none => exact Carried.refl y
    | some ep => exact ((carried_udpSend ep _).trans (carried_timersDataSent _)).trans (hbegin _)

theorem carried_deviceSendToPeer (pkt : List Byte) : Carried x (deviceSendToPeer c env x pkt) := by
  unfold deviceSendToPeer
  split_ifs
  · exact Carried.refl x
  · split
    · exact (carried_stage pkt).trans (carried_deviceInitiateHandshakeInner false)
    · split_ifs
      · exact (carried_stage pkt).trans carried_timersHandshakeBegin
      · exact carried_countSend.trans carried_deviceSendCounted

theorem carried_flushStaged {fuel : ℕ} {ps : List (List Byte)}
    (h : flushStaged c env fuel x = some (y, ps)) : Carried x y := by
  induction fuel generalizing x ps with
  | zero =>
    rw [flushStaged] at h
    split_ifs at h
    cases h
    exact Carried.refl _
  | succ fuel ih =>
    rw [flushStaged] at h
    split_ifs at h
    · obtain ⟨⟨z, qs⟩, hz, heq⟩ := Option.map_eq_some_iff.1 h
      cases heq
      have hpop : Carried x { x with peer := { x.peer with staged := x.peer.staged.pop ‹_› } } :=
        carried_of_eq rfl rfl rfl rfl rfl rfl rfl
      exact (hpop.trans (carried_deviceSendToPeer _)).trans (ih hz)
    · cases h
      exact Carried.refl _

/-! ### Receiving -/

theorem carried_timersHandshakeComplete :
    Carried x { x with peer := timersHandshakeComplete env x.peer } := by
  unfold timersHandshakeComplete
  split_ifs <;> exact carried_of_eq rfl rfl rfl rfl rfl rfl rfl

theorem carried_responderComplete {fuel : ℕ} (h : responderComplete c env fuel x = some y) :
    Carried x y := by
  obtain ⟨⟨z, ps⟩, hflush, rfl⟩ := Option.map_eq_some_iff.1 h
  exact carried_timersHandshakeComplete.trans (carried_flushStaged hflush)

theorem carried_initiatorComplete {fuel : ℕ} (h : initiatorComplete c env fuel x = some y) :
    Carried x y := by
  unfold initiatorComplete at h
  split at h
  · cases h
  next z flushed hflush =>
    have hz : Carried x z := carried_timersHandshakeComplete.trans (carried_flushStaged hflush)
    cases h
    split_ifs
    · exact hz.trans (carried_deviceSendToPeer [])
    · exact hz

theorem carried_answerInitiation {fuel : ℕ} {src : Endpoint} {r : Handled}
    (h : answerInitiation c env fuel src x = some r) : ∃ y, Carried x y ∧ r = y.handled := by
  unfold answerInitiation at h
  have hresp : Carried x (noiseCreateResponse c env x).1 := carried_noiseCreateResponse
  split at h
  next y hy =>
    cases h
    rw [hy] at hresp
    exact ⟨y, hresp, rfl⟩
  next y resp hy =>
    rw [hy] at hresp
    have hbegin : Carried x (noiseBeginSession c env (y.udpSend env src (.response resp))).1 :=
      (hresp.trans (carried_udpSend _ _)).trans carried_noiseBeginSession
    split at h
    next z hz =>
      cases h
      rw [hz] at hbegin
      exact ⟨z, hbegin, rfl⟩
    next z hz =>
      rw [hz] at hbegin
      obtain ⟨w, hw, rfl⟩ := Option.map_eq_some_iff.1 h
      exact ⟨w, hbegin.trans (carried_responderComplete hw), rfl⟩

theorem carried_completeResponse {fuel : ℕ} {r : Handled}
    (h : completeResponse c env fuel x = some r) : ∃ y, Carried x y ∧ r = y.handled := by
  unfold completeResponse at h
  have hbegin : Carried x (noiseBeginSession c env x).1 := carried_noiseBeginSession
  split at h
  next y hy =>
    cases h
    rw [hy] at hbegin
    exact ⟨y, hbegin, rfl⟩
  next y hy =>
    rw [hy] at hbegin
    obtain ⟨w, hw, rfl⟩ := Option.map_eq_some_iff.1 h
    exact ⟨w, hbegin.trans (carried_initiatorComplete hw), rfl⟩

/-- The promotion of the next keypair moves the keypairs between the slots. -/
theorem carried_promoteNext (addr : ℕ) : Carried x (promoteNext x addr) := by
  unfold promoteNext
  split
  next kp hkp =>
    split_ifs
    · refine ⟨rfl, rfl, rfl, rfl, rfl, le_rfl, ?_⟩
      intro k hk
      refine Or.inl ⟨k, ?_, .refl k⟩
      rw [mem_keypairs] at hk ⊢
      rcases hk with hk | hk | hk
      · exact Or.inr (Or.inl (hkp.trans hk))
      · cases hk
      · exact Or.inl hk
    · exact Carried.refl x
  · exact Carried.refl x

theorem carried_timersDataReceived (env : Env) :
    Carried x { x with peer := timersDataReceived env x.peer } := by
  unfold timersDataReceived
  split_ifs <;> exact carried_of_eq rfl rfl rfl rfl rfl rfl rfl

theorem carried_timersKeepaliveReceived :
    Carried x { x with peer := timersKeepaliveReceived x.peer } := by
  unfold timersKeepaliveReceived
  split_ifs <;> exact carried_of_eq rfl rfl rfl rfl rfl rfl rfl

/-- The check of the inner source address reads the configuration only. -/
theorem Carried.transportAllowed_eq (h : Carried x y) (p : List Byte) (n : ℕ) :
    transportAllowed y.dev y.peer p n = transportAllowed x.dev x.peer p n := by
  have hdev : y.dev.allowedips = x.dev.allowedips := congrArg DeviceConfig.allowedips h.config
  have haddr : y.peer.addr = x.peer.addr := congrArg PeerSettings.addr h.settings
  have hpeer : y.peer.allowedips = x.peer.allowedips :=
    congrArg PeerSettings.allowedips h.settings
  unfold transportAllowed
  rw [hdev, haddr, hpeer]

/-- The packet that an accepted plaintext with `n` bytes of payload writes to the TUN device. -/
def writtenPacket (dev : Device) (peer : Peer) (p : List Byte) (n : ℕ) : List (List Byte) :=
  if 0 < n ∧ transportAllowed dev peer p n then [p.take n] else []

/-- The endpoint is set and `ps` are written to the TUN device. -/
def Ctx.delivered (x : Ctx) (ep : Endpoint) (ps : List (List Byte)) : Ctx :=
  { x with peer := { x.peer with endpoint := some ep }, tun := x.tun ++ ps }

theorem Carried.delivered (h : Carried x y) (ep : Endpoint) (ps : List (List Byte)) :
    Carried (x.delivered ep ps) (y.delivered ep ps) :=
  ⟨h.config, h.peers, h.settings, rfl, congrArg (· ++ ps) h.tun, h.next, h.keypairs⟩

/-- An accepted plaintext with inconsistent headers does nothing more. -/
theorem transportDeliver_none (src : Endpoint) (addr len : ℕ) {p : List Byte}
    (h : transportPlaintextLen p = none) : transportDeliver env x src addr len p = x := by
  rw [transportDeliver, h]

/-- Any other sets the endpoint and writes its packet. -/
theorem carried_transportDeliver (src : Endpoint) (addr len : ℕ) {p : List Byte} {n : ℕ}
    (h : transportPlaintextLen p = some n) :
    Carried (x.delivered src (writtenPacket x.dev x.peer p n))
      (transportDeliver env x src addr len p) := by
  have hcount : Carried x { x with
      peer := { x.peer with rxBytes := x.peer.rxBytes + BitVec.ofNat 64 len } } :=
    carried_of_eq rfl rfl rfl rfl rfl rfl rfl
  have hrot := (hcount.trans (carried_timersDataReceived env)).trans (carried_promoteNext addr)
  have hallowed := hrot.transportAllowed_eq p n
  have hdelivered := hrot.delivered src (writtenPacket x.dev x.peer p n)
  unfold transportDeliver
  rw [h]
  simp only
  split_ifs with h0 hok
  · rw [show writtenPacket x.dev x.peer p n = [p.take n] from if_pos ⟨h0, hallowed.symm.trans hok⟩]
      at hdelivered ⊢
    exact hdelivered
  · rw [show writtenPacket x.dev x.peer p n = [] from
      if_neg fun hboth => hok (hallowed.trans hboth.2)] at hdelivered ⊢
    exact hdelivered.trans (carried_of_eq rfl rfl rfl rfl rfl (List.append_nil _).symm rfl)
  · rw [show writtenPacket x.dev x.peer p n = [] from if_neg fun hboth => h0 hboth.1]
      at hdelivered ⊢
    set y := promoteNext { x with peer := timersDataReceived env { x.peer with
      rxBytes := x.peer.rxBytes + BitVec.ofNat 64 len } } addr
    have hplain : Carried (y.delivered src []) { y with
        peer := { y.peer with endpoint := some src } } :=
      carried_of_eq rfl rfl rfl rfl rfl (List.append_nil _).symm rfl
    exact (hdelivered.trans hplain).trans carried_timersKeepaliveReceived

/-! ### Timers -/

theorem carried_setTimer (kind : TimerKind) (due : Option ℕ) : Carried x (x.setTimer kind due) := by
  cases kind <;> exact carried_of_eq rfl rfl rfl rfl rfl rfl rfl

theorem carried_timersZeroKeyMaterial : Carried x (timersZeroKeyMaterial env x) := by
  unfold timersZeroKeyMaterial
  split_ifs
  · exact Carried.refl x
  · exact carried_setTimer _ _

theorem carried_handshakeAttempts (n : BitVec 32) :
    Carried x { x with peer := { x.peer with handshakeAttempts := n } } :=
  carried_of_eq rfl rfl rfl rfl rfl rfl rfl

theorem carried_draw : Carried x (x.draw env).2 := carried_of_eq rfl rfl rfl rfl rfl rfl rfl

/-- The key material that has expired is given up. -/
theorem carried_cbZeroKeyMaterial : Carried x (cbZeroKeyMaterial x) := by
  refine ⟨rfl, rfl, rfl, rfl, rfl, le_rfl, ?_⟩
  intro kp hkp
  cases hkp

theorem carried_timerCallback (kind : TimerKind) :
    Carried x (timerCallback c env x kind) := by
  cases kind with
  | retransmitHandshake =>
    simp only [timerCallback, cbRetransmitHandshake]
    split_ifs
    · exact (((carried_handshakeAttempts _).trans (carried_setTimer _ _)).trans
        (carried_handshakeAttempts 0)).trans carried_timersZeroKeyMaterial
    · exact (((carried_handshakeAttempts _).trans (carried_deviceInitiateHandshakeInner true)).trans
        carried_draw).trans (carried_setTimer _ _)
  | sendKeepalive =>
    simp only [timerCallback, cbSendKeepalive]
    split_ifs
    · exact (carried_deviceSendToPeer []).trans (carried_of_eq rfl rfl rfl rfl rfl rfl rfl)
    · exact carried_deviceSendToPeer []
  | newHandshake => exact carried_deviceInitiateHandshakeInner false
  | zeroKeyMaterial => exact carried_cbZeroKeyMaterial
  | persistentKeepalive =>
    simp only [timerCallback, cbPersistentKeepalive]
    split_ifs
    · exact (carried_deviceSendToPeer []).trans (carried_setTimer _ _)
    · exact carried_deviceSendToPeer []

end Carried

end Wgx
