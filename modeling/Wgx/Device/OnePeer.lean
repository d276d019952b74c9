import Wgx.Device.Network

/-!
# Calls on a device with one peer

`Solo c k r psk dev peer` says that `dev` has the private key `k` and a single peer, the holder of
the private key `r`.  Each call that a network makes is described once for such devices:

* `deviceInitiateHandshake_solo`: nothing happens, or an initiation is made;
* `handleInitiation_solo`: an honest initiation is dropped, or it is answered;
* `handleResponse_solo`: a response is dropped, or it completes the handshake under way;
* `handleTransport_solo`, `handleCookieReply_solo`: the handshake is not concerned.

Of the three slots only the newest session matters (`Peer.newest`), and of its keypair only the keys
and indices (`Ends`).
-/

namespace Wgx

/-! ### The newest session -/

/-- The keys and the indices of a keypair. -/
@[ext]
structure Ends where
  sendKey : List Byte
  recvKey : List Byte
  localIndex : BitVec 32
  remoteIndex : BitVec 32

/-- The keys and indices that the other end should have. -/
def Ends.flip (e : Ends) : Ends := ⟨e.recvKey, e.sendKey, e.remoteIndex, e.localIndex⟩

@[simp] theorem Ends.flip_flip (e : Ends) : e.flip.flip = e := rfl

/-- The keys and the indices of a keypair. -/
def Keypair.ends (kp : Keypair) : Ends := ⟨kp.sendKey, kp.recvKey, kp.localIndex, kp.remoteIndex⟩

theorem mirrors_of_ends {a b : Keypair} (h : b.ends = a.ends.flip) : Mirrors a b := by
  simp only [Keypair.ends, Ends.flip, Ends.mk.injEq] at h
  exact ⟨h.2.1.symm, h.1.symm, h.2.2.1.symm, h.2.2.2⟩

/-- The keypair of the newest session: the one that waits for confirmation, else the current one. -/
def Peer.newest (peer : Peer) : Option Ends :=
  (peer.nextKeypair.or peer.currentKeypair).map Keypair.ends

theorem exists_of_newest {peer : Peer} {e : Ends} (h : peer.newest = some e) :
    ∃ kp ∈ peer.keypairs, kp.ends = e := by
  obtain ⟨kp, hkp, he⟩ := Option.map_eq_some_iff.1 h
  refine ⟨kp, mem_keypairs.2 ?_, he⟩
  rcases Option.or_eq_some_iff.1 hkp with hn | ⟨-, hc⟩
  · exact Or.inr (Or.inl hn)
  · exact Or.inl hc

/-- What the initiator of a handshake gets from the chain key and the two indices. -/
def sessionEnds (c : Crypto) (chainKey : List Byte) (localIndex remoteIndex : BitVec 32) : Ends :=
  ⟨(wgKdf2 c chainKey []).1, (wgKdf2 c chainKey []).2, localIndex, remoteIndex⟩

section Session

variable {c : Crypto} {hs : Handshake} (addr : ℕ) (now : BitVec 64)

theorem ends_initiator (h : hs.state = .responseConsumed) :
    (sessionKeypair c hs addr now).ends =
      sessionEnds c hs.chainKey hs.localIndex hs.remoteIndex := by
  simp [sessionKeypair, Keypair.ends, sessionEnds, h]

theorem ends_responder (h : hs.state = .responseCreated) :
    (sessionKeypair c hs addr now).ends =
      (sessionEnds c hs.chainKey hs.remoteIndex hs.localIndex).flip := by
  simp [sessionKeypair, Keypair.ends, sessionEnds, Ends.flip, h]

end Session

/-! ### Devices with one peer -/

/-- The device has the private key `k`, nothing staged, and the single peer `peer`, which holds the
private key `r`. -/
structure Solo (c : Crypto) (k r psk : List Byte) (dev : Device) (peer : Peer) : Prop where
  peers_eq : dev.peers = [peer]
  key_eq : dev.privateKey = k
  paired : Paired c dev peer r psk
  staged : peer.staged.count = 0
  indexed : Indexed dev.indexTable peer

section Solo

variable {c : Crypto} {k r psk : List Byte} {dev : Device} {peer : Peer}

theorem Solo.peerAt (h : Solo c k r psk dev peer) {addr : ℕ} {found : Peer}
    (hfound : dev.peerAt addr = some found) : found = peer := by
  rw [Device.peerAt, h.peers_eq] at hfound
  exact List.mem_singleton.1 (List.mem_of_find?_eq_some hfound)

theorem Solo.findPeer (h : Solo c k r psk dev peer) :
    deviceFindPeer dev (wgGeneratePublicKey c r) = some peer := by
  simp [deviceFindPeer, h.peers_eq, h.paired.peer_eq]

/-- The cookie checker plays no part. -/
theorem Solo.setChecker (h : Solo c k r psk dev peer) (cc : CookieChecker) :
    Solo c k r psk { dev with cookieChecker := cc } peer :=
  ⟨h.peers_eq, h.key_eq, { h.paired with },
    h.staged, h.indexed⟩

end Solo

/-- A call on the peer of such a device; the record in the device is the one from before the call. -/
structure Working (c : Crypto) (k r psk : List Byte) (x : Ctx) : Prop where
  stored : ∃ old : Peer, x.dev.peers = [old] ∧ old.addr = x.peer.addr
  key_eq : x.dev.privateKey = k
  paired : Paired c x.dev x.peer r psk
  staged : x.peer.staged.count = 0
  indexed : Indexed x.dev.indexTable x.peer

/-- Between two points of a call, nothing that the handshake depends on has changed. -/
structure Unmoved (x y : Ctx) : Prop where
  dev_eq : y.dev = { x.dev with indexTable := y.dev.indexTable }
  addr_eq : y.peer.addr = x.peer.addr
  publicKey_eq : y.peer.publicKey = x.peer.publicKey
  handshake_eq : y.peer.handshake = x.peer.handshake
  staged_eq : y.peer.staged = x.peer.staged
  timer_eq : y.peer.timers.retransmitHandshake = x.peer.timers.retransmitHandshake
  newest_eq : y.peer.newest = x.peer.newest
  indexed : Indexed x.dev.indexTable x.peer → Indexed y.dev.indexTable y.peer
  sent : ∀ m ∈ y.sent, m ∈ x.sent ∨ m.2.isHandshake = false

section Working

variable {c : Crypto} {k r psk : List Byte} {dev : Device} {peer : Peer} {x y z : Ctx}

theorem Solo.start (h : Solo c k r psk dev peer) : Working c k r psk (Ctx.start dev peer) :=
  ⟨⟨peer, h.peers_eq, rfl⟩, h.key_eq, h.paired, h.staged, h.indexed⟩

theorem Working.finish (h : Working c k r psk x) : Solo c k r psk x.finish x.peer := by
  obtain ⟨old, hold, haddr⟩ := h.stored
  refine ⟨?_, h.key_eq, { h.paired with },
    h.staged, h.indexed⟩
  simp [Ctx.finish, Device.store, hold, haddr]

theorem Unmoved.refl (x : Ctx) : Unmoved x x :=
  ⟨rfl, rfl, rfl, rfl, rfl, rfl, rfl, id, fun _ hm => Or.inl hm⟩

theorem Unmoved.trans (h1 : Unmoved x y) (h2 : Unmoved y z) : Unmoved x z where
  dev_eq := by rw [h2.dev_eq, h1.dev_eq]
  addr_eq := h2.addr_eq.trans h1.addr_eq
  publicKey_eq := h2.publicKey_eq.trans h1.publicKey_eq
  handshake_eq := h2.handshake_eq.trans h1.handshake_eq
  staged_eq := h2.staged_eq.trans h1.staged_eq
  timer_eq := h2.timer_eq.trans h1.timer_eq
  newest_eq := h2.newest_eq.trans h1.newest_eq
  indexed := h2.indexed ∘ h1.indexed
  sent := fun m hm => (h2.sent m hm).elim (h1.sent m) Or.inr

theorem Working.unmoved (h : Working c k r psk x) (hy : Unmoved x y) : Working c k r psk y where
  stored := by
    obtain ⟨old, hold, haddr⟩ := h.stored
    refine ⟨old, ?_, haddr.trans hy.addr_eq.symm⟩
    rw [hy.dev_eq]
    exact hold
  key_eq := by
    rw [hy.dev_eq]
    exact h.key_eq
  paired := by
    have hp := h.paired
    rw [hy.dev_eq]
    exact ⟨hp.public_eq, hp.initHash_eq, hp.initChainKey_eq, hy.publicKey_eq.trans hp.peer_eq,
      hy.handshake_eq ▸ hp.remote_eq, hy.handshake_eq ▸ hp.psk_eq, hy.handshake_eq ▸ hp.static_eq,
      hp.agree⟩
  staged := by
    rw [hy.staged_eq]
    exact h.staged
  indexed := hy.indexed h.indexed

/-- Changes of the peer's endpoint, of its other timers and of what a keypair counts. -/
theorem unmoved_peer {p : Peer} (haddr : p.addr = x.peer.addr)
    (hpub : p.publicKey = x.peer.publicKey) (hhs : p.handshake = x.peer.handshake)
    (hstaged : p.staged = x.peer.staged)
    (htimer : p.timers.retransmitHandshake = x.peer.timers.retransmitHandshake)
    (hnewest : p.newest = x.peer.newest)
    (hslots : ∀ i, x.peer.slotIndex i → p.slotIndex i) : Unmoved x { x with peer := p } where
  dev_eq := rfl
  addr_eq := haddr
  publicKey_eq := hpub
  handshake_eq := hhs
  staged_eq := hstaged
  timer_eq := htimer
  newest_eq := hnewest
  indexed := fun h => h.mono (fun i hi => hi.trans (by rw [hhs])) hslots
  sent := fun _ hm => Or.inl hm

end Working

/-! ### Transport messages -/

section Transport

variable {c : Crypto} {env : Env} {x : Ctx}

/-- A keypair that counts a message keeps its keys and indices. -/
theorem unmoved_mapKeypair (addr : ℕ) {f : Keypair → Keypair} (hf : ∀ kp, (f kp).ends = kp.ends) :
    Unmoved x { x with peer := x.peer.mapKeypair addr f } := by
  have hg : ∀ kp : Keypair, (if kp.addr = addr then f kp else kp).ends = kp.ends := by
    intro kp
    split_ifs
    · exact hf kp
    · rfl
  refine unmoved_peer rfl rfl rfl rfl rfl ?_ ?_
  · simp only [Peer.newest, Peer.mapKeypair]
    rw [← Option.map_or, Option.map_map]
    congr 1
    funext kp
    exact hg kp
  · rintro i ⟨kp, hkp, rfl⟩
    refine ⟨if kp.addr = addr then f kp else kp, mem_keypairs.2 ?_, congrArg Ends.localIndex (hg kp)⟩
    rcases mem_keypairs.1 hkp with h | h | h
    · exact Or.inl (by simp [Peer.mapKeypair, h])
    · exact Or.inr (Or.inl (by simp [Peer.mapKeypair, h]))
    · exact Or.inr (Or.inr (by simp [Peer.mapKeypair, h]))

theorem unmoved_promoteNext (addr : ℕ) : Unmoved x (promoteNext x addr) := by
  have hindexed := fun h => Indexed.promoteNext (x := x) h addr
  revert hindexed
  unfold promoteNext
  cases hnext : x.peer.nextKeypair with
  | none => exact fun _ => Unmoved.refl x
  | some next =>
    simp only
    split_ifs
    · intro hindexed
      refine ⟨rfl, rfl, rfl, rfl, rfl, rfl, ?_, hindexed, fun _ hm => Or.inl hm⟩
      simp [Peer.newest, hnext]
    · exact fun _ => Unmoved.refl x

theorem unmoved_timersDataReceived (env : Env) :
    Unmoved x { x with peer := timersDataReceived env x.peer } := by
  unfold timersDataReceived
  split_ifs
  · exact Unmoved.refl x
  · exact unmoved_peer rfl rfl rfl rfl rfl rfl fun _ hi => hi
  · exact unmoved_peer rfl rfl rfl rfl rfl rfl fun _ hi => hi

theorem unmoved_timersKeepaliveReceived :
    Unmoved x { x with peer := timersKeepaliveReceived x.peer } := by
  unfold timersKeepaliveReceived
  split_ifs
  · exact Unmoved.refl x
  · exact unmoved_peer rfl rfl rfl rfl rfl rfl fun _ hi => hi

theorem unmoved_timersDataSent (total : ℕ) :
    Unmoved x { x with peer := timersDataSent env (x.peer.countTx env total) } := by
  unfold timersDataSent Peer.countTx
  split_ifs <;> exact unmoved_peer rfl rfl rfl rfl rfl rfl fun _ hi => hi

theorem unmoved_rxBytes (rx : BitVec 64) :
    Unmoved x { x with peer := { x.peer with rxBytes := rx } } :=
  unmoved_peer rfl rfl rfl rfl rfl rfl fun _ hi => hi

theorem unmoved_endpoint (ep : Option Endpoint) :
    Unmoved x { x with peer := { x.peer with endpoint := ep } } :=
  unmoved_peer rfl rfl rfl rfl rfl rfl fun _ hi => hi

theorem unmoved_transportDeliver (src : Endpoint) (addr len : ℕ) (p : List Byte) :
    Unmoved x (transportDeliver env x src addr len p) := by
  unfold transportDeliver
  cases transportPlaintextLen p with
  | none => exact Unmoved.refl x
  | some ptlen =>
    have hcount : Unmoved x { x with
        peer := { x.peer with rxBytes := x.peer.rxBytes + BitVec.ofNat 64 len } } :=
      unmoved_rxBytes _
    have hrot := (hcount.trans (unmoved_timersDataReceived env)).trans ((unmoved_promoteNext addr).trans (unmoved_endpoint (some src)))
    simp only
    split_ifs
    · exact hrot.trans ⟨rfl, rfl, rfl, rfl, rfl, rfl, rfl, id, fun _ hm => Or.inl hm⟩
    · exact hrot
    · exact hrot.trans unmoved_timersKeepaliveReceived

theorem unmoved_udpSend (ep : Endpoint) {d : Datagram} (hd : d.isHandshake = false) :
    Unmoved x (x.udpSend env ep d) := by
  unfold Ctx.udpSend
  split_ifs
  · refine ⟨rfl, rfl, rfl, rfl, rfl, rfl, rfl, id, ?_⟩
    intro m hm
    rcases List.mem_append.1 hm with hm | hm
    · exact Or.inl hm
    · exact Or.inr (by rw [List.mem_singleton.1 hm, hd])
  · exact Unmoved.refl x

theorem unmoved_countSend {kp : Keypair} (hcur : x.peer.currentKeypair = some kp) :
    Unmoved x { x with peer := x.peer.countSend } := by
  unfold Peer.countSend
  rw [hcur]
  refine unmoved_peer rfl rfl rfl rfl rfl ?_ ?_
  · simp only [Peer.newest, hcur]
    cases x.peer.nextKeypair <;> rfl
  · rintro i ⟨k, hk, rfl⟩
    rcases mem_keypairs.1 hk with h | h | h
    · rw [hcur] at h
      cases h
      exact ⟨_, mem_keypairs.2 (Or.inl rfl), rfl⟩
    · exact ⟨k, mem_keypairs.2 (Or.inr (Or.inl h)), rfl⟩
    · exact ⟨k, mem_keypairs.2 (Or.inr (Or.inr h)), rfl⟩

/-- A keepalive under a keypair that is new starts no handshake. -/
theorem unmoved_deviceSendKeepalive {kp : Keypair} (hcur : x.peer.currentKeypair = some kp)
    (hcreated : kp.createdAtMs = env.now) (hnonce : kp.sendNonce = 0) :
    Unmoved x (deviceSendKeepalive c env x) := by
  have hage : ¬ rejectAfterTimeMs ≤ (env.now - kp.createdAtMs).toNat := by
    rw [hcreated, BitVec.sub_self]
    decide
  have hreject : ¬ rejectAfterMessages ≤ kp.sendNonce := by
    rw [hnonce]
    decide
  have hrekey : ¬ rekeyAfterMessages ≤ kp.sendNonce := by
    rw [hnonce]
    decide
  have hcount : Unmoved x { x with peer := x.peer.countSend } := unmoved_countSend hcur
  rw [deviceSendKeepalive, deviceSendToPeer, if_neg (by simp)]
  have hsender : x.peer.currentKeypair.or x.peer.nextKeypair = some kp := by
    rw [hcur]
    rfl
  rw [hsender]
  simp only [if_neg hage, deviceSendCounted, if_neg hreject, if_neg hrekey]
  cases x.peer.countSend.endpoint with
  | none => exact hcount
  | some ep => exact hcount.trans ((unmoved_udpSend ep rfl).trans (unmoved_timersDataSent _))

end Transport

/-- The handling of a datagram left the handshake, the retransmission timer and the newest session
alone, and sent no handshake message. -/
def Passed (c : Crypto) (k r psk : List Byte) (peer : Peer) (h : Handled) : Prop :=
  ∃ peer', Solo c k r psk h.dev peer' ∧ peer'.handshake = peer.handshake ∧
    peer'.timers.retransmitHandshake = peer.timers.retransmitHandshake ∧
    peer'.newest = peer.newest ∧ ∀ m ∈ h.sent, m.2.isHandshake = false

section Passed

variable {c : Crypto} {k r psk : List Byte} {dev : Device} {peer : Peer} {env : Env}

theorem passed_drop (h : Solo c k r psk dev peer) : Passed c k r psk peer (.drop dev) :=
  ⟨peer, h, rfl, rfl, rfl, by simp [Handled.drop]⟩

theorem passed_unmoved (h : Solo c k r psk dev peer) {y : Ctx}
    (hy : Unmoved (Ctx.start dev peer) y) : Passed c k r psk peer y.handled := by
  refine ⟨y.peer, (h.start.unmoved hy).finish, hy.handshake_eq, hy.timer_eq, hy.newest_eq, ?_⟩
  intro m hm
  exact (hy.sent m hm).resolve_left (by simp [Ctx.start])

theorem handleTransport_solo (env : Env) (h : Solo c k r psk dev peer) (src : Endpoint) (msg : MsgTransport) :
    Passed c k r psk peer (handleTransport c env dev src msg) := by
  unfold handleTransport
  split_ifs
  · exact passed_drop h
  · cases htarget : transportTarget dev msg.receiver with
    | none => exact passed_drop h
    | some target =>
      obtain ⟨p, kp⟩ := target
      have hp : p = peer := by
        unfold transportTarget at htarget
        split at htarget
        · cases htarget
        · split_ifs at htarget
          split at htarget
          · rename_i hat
            obtain ⟨kp', -, heq⟩ := Option.map_eq_some_iff.1 htarget
            cases heq
            exact h.peerAt hat
          · cases htarget
      subst hp
      simp only
      split_ifs
      · exact passed_drop h
      · cases c.aeadDecrypt kp.recvKey (transportNonce msg.counter) msg.content [] with
        | none => exact passed_drop h
        | some plain =>
          simp only
          split
          · exact passed_drop h
          · rename_i replay _
            have hreplay : Unmoved (Ctx.start dev p)
                (Ctx.start dev (p.mapKeypair kp.addr fun kp => { kp with replay := replay })) :=
              unmoved_mapKeypair kp.addr fun _ => rfl
            exact passed_unmoved h (hreplay.trans (unmoved_transportDeliver src kp.addr _ plain))

theorem handleCookieReply_solo (env : Env) (h : Solo c k r psk dev peer) (msg : MsgCookieReply) :
    Passed c k r psk peer (.drop (handleCookieReply c env dev msg)) := by
  unfold handleCookieReply
  split
  · exact passed_drop h
  · rename_i p hfound
    obtain ⟨e, -, hat⟩ := Option.bind_eq_some_iff.1 hfound
    rw [h.peerAt hat]
    have hcookie : Unmoved (Ctx.start dev peer) (Ctx.start dev
        { peer with cookie := cookieConsumeReply c peer.cookie msg env.now }) :=
      unmoved_peer rfl rfl rfl rfl rfl rfl fun _ hi => hi
    exact passed_unmoved h hcookie

end Passed

/-! ### Initiating -/

/-- The handshake waits for the answer to the initiation that was made under the index `idx`. -/
def Handshake.Awaits (hs : Handshake) (idx : BitVec 32) : Prop :=
  hs.state = .initiationCreated ∧ hs.localIndex = idx

/-- The handshake is where its initiation with the ephemeral `e` and the timestamp `ts` left it. -/
structure Handshake.Made (c : Crypto) (i r e ts : List Byte) (hs : Handshake) : Prop where
  priv_eq : hs.localEphemeralPriv = e
  hash_eq : hs.hash = (initiationTranscript c i r e ts).hash
  chainKey_eq : hs.chainKey = (initiationTranscript c i r e ts).chainKey

/-- What a call that makes an initiation leaves: a handshake that waits under a new index, and
perhaps the initiation. -/
structure Initiated (c : Crypto) (k r psk : List Byte) (env : Env) (dev : Device) (peer : Peer)
    (e : List Byte) (x : Ctx) : Prop where
  solo : Solo c k r psk x.finish x.peer
  drawn : x.draws ≠ 0
  awaits : x.peer.handshake.Awaits ((Ctx.start dev peer).newIndex env)
  made : x.peer.handshake.Made c k r e (env.draw 0).timestamp.toList
  lastTimestamp_eq : x.peer.handshake.lastTimestamp = peer.handshake.lastTimestamp
  newest_eq : x.peer.newest = peer.newest
  timer : peer.timers.retransmitHandshake ≠ none → x.peer.timers.retransmitHandshake ≠ none
  sent : ∀ m ∈ x.sent, ∃ msg, m.2 = .initiation msg ∧
    msg.sender = (Ctx.start dev peer).newIndex env ∧
    IsInitiation c k r e (env.draw 0).timestamp.toList msg

section Initiate

variable {c : Crypto} {k r psk : List Byte} {env : Env} {dev : Device} {peer : Peer} {x : Ctx}

theorem Working.initiated (h : Working c k r psk x) : Working c k r psk (x.initiated c env r) where
  stored := h.stored
  key_eq := h.key_eq
  paired :=
    { h.paired with }
  staged := h.staged
  indexed := h.indexed.newTable env

theorem udpSend_eq (env : Env) (x : Ctx) (ep : Endpoint) (d : Datagram) :
    x.udpSend env ep d = { x with sent := x.sent ++ if env.udpOk then [(ep, d)] else [] } := by
  unfold Ctx.udpSend
  split_ifs
  · rfl
  · rw [List.append_nil]

theorem timersHandshakeInitiated_eq (env : Env) (x : Ctx) :
    ∃ draws timers, timersHandshakeInitiated env x =
        { x with draws := draws, peer := { x.peer with timers := timers } } ∧ x.draws ≤ draws ∧
      (x.peer.timers.retransmitHandshake ≠ none → timers.retransmitHandshake ≠ none) := by
  unfold timersHandshakeInitiated
  split_ifs
  · exact ⟨x.draws, x.peer.timers, rfl, le_rfl, id⟩
  · exact ⟨x.draws + 1, _, rfl, Nat.le_succ _, fun _ => Option.some_ne_none _⟩

/-- The end of `device_initiate_handshake_inner`, once the initiation is created. -/
def Ctx.initiationSent (c : Crypto) (env : Env) (x : Ctx) (r : List Byte) : Ctx :=
  match x.peer.endpoint with
  | none => x.initiated c env r
  | some ep =>
    timersHandshakeInitiated env
      ((x.initiated c env r).udpSend env ep (.initiation (x.initiation c env r)))

theorem Working.initiationSent (h : Working c k r psk x) (env : Env) (hsent : x.sent = []) :
    Working c k r psk (x.initiationSent c env r) ∧ (x.initiationSent c env r).draws ≠ 0 ∧
      (x.initiationSent c env r).peer.handshake = (x.initiated c env r).peer.handshake ∧
      (x.initiationSent c env r).peer.newest = x.peer.newest ∧
      (x.peer.timers.retransmitHandshake ≠ none →
        (x.initiationSent c env r).peer.timers.retransmitHandshake ≠ none) ∧
      ∀ m ∈ (x.initiationSent c env r).sent, m.2 = .initiation (x.initiation c env r) := by
  have hw : Working c k r psk (x.initiated c env r) := h.initiated
  unfold Ctx.initiationSent
  cases x.peer.endpoint with
  | none =>
    refine ⟨hw, Nat.succ_ne_zero _, rfl, rfl, id, ?_⟩
    simp [Ctx.initiated, hsent]
  | some ep =>
    have hmem : ∀ m ∈ x.sent ++ (if env.udpOk then
        [(ep, Datagram.initiation (x.initiation c env r))] else []),
        m.2 = .initiation (x.initiation c env r) := by
      rw [hsent]
      cases env.udpOk <;> simp
    obtain ⟨draws, timers, heq, hdraws, htimer⟩ := timersHandshakeInitiated_eq env
      ((x.initiated c env r).udpSend env ep (.initiation (x.initiation c env r)))
    rw [udpSend_eq] at heq hdraws htimer
    simp only
    rw [udpSend_eq, heq]
    have hp := hw.paired
    exact ⟨⟨hw.stored, hw.key_eq, { hp with }, hw.staged, hw.indexed⟩,
      (Nat.succ_pos _).trans_le hdraws |>.ne', rfl, rfl, htimer, hmem⟩

/-- An initiation is refused for its rate, or it is made. -/
theorem deviceInitiateHandshake_solo (h : Solo c k r psk dev peer) (hdh : c.DhAgrees)
    (hr : r.length = 32) :
    deviceInitiateHandshake c env (Ctx.start dev peer) = Ctx.start dev peer ∨
      ∃ e, e.length = 32 ∧ Initiated c k r psk env dev peer e
        (deviceInitiateHandshake c env (Ctx.start dev peer)) := by
  by_cases hrate : (env.now - peer.handshake.lastSentHandshakeMs).toNat < rekeyTimeoutMs
  · left
    simp only [deviceInitiateHandshake, deviceInitiateHandshakeInner]
    rw [if_pos ⟨by simp, hrate⟩]
  · right
    refine ⟨(Ctx.start dev peer).ephemeral env, length_wgGeneratePrivateKey _, ?_⟩
    -- the record that the initiation is created on
    set x := (Ctx.start dev peer).setHandshake
      { peer.handshake with lastSentHandshakeMs := env.now } with hx
    have hp := h.paired
    have hwork : Working c k r psk x :=
      ⟨h.start.stored, h.key_eq, { hp with }, h.staged, h.indexed⟩
    have heq : deviceInitiateHandshake c env (Ctx.start dev peer) = x.initiationSent c env r := by
      have hcreate := noiseCreateInitiation_eq hwork.paired hwork.indexed.free
        (hdh (x.ephemeral env) _ (length_wgGeneratePrivateKey _) hr)
      simp only [deviceInitiateHandshake, deviceInitiateHandshakeInner]
      rw [if_neg (fun hc => hrate hc.2)]
      simp only [show ((Ctx.start dev peer).setHandshake { (Ctx.start dev peer).peer.handshake with
        lastSentHandshakeMs := env.now }) = x from rfl, hcreate]
      unfold Ctx.initiationSent
      rw [show (x.initiated c env r).peer.endpoint = x.peer.endpoint from rfl]
      cases x.peer.endpoint <;> rfl
    obtain ⟨hwork', hdraws, hhs, hnewest, htimer, hsent⟩ := hwork.initiationSent env rfl
    have hmsg := isInitiation_initiation c env x r
    rw [hwork.key_eq] at hmsg
    rw [heq]
    refine ⟨hwork'.finish, hdraws, hhs ▸ ⟨rfl, rfl⟩, hhs ▸ ⟨rfl, ?_, ?_⟩, hhs ▸ rfl, hnewest, htimer,
      fun m hm => ⟨_, hsent m hm, rfl, hmsg⟩⟩ <;> rw [← hwork.key_eq] <;> rfl

end Initiate

/-! ### Sessions -/

section Session

variable {c : Crypto} {k r psk : List Byte} {env : Env} {dev : Device} {peer : Peer} {x : Ctx}

/-- What a session start leaves. -/
def Ctx.begun (c : Crypto) (env : Env) (x : Ctx) : Ctx :=
  { x with
    dev := { x.dev with indexTable := (x.rotated c env).1, nextAddr := x.dev.nextAddr + 1 }
    peer := (x.rotated c env).2 }

theorem Working.begun (h : Working c k r psk x) : Working c k r psk (x.begun c env) := by
  obtain ⟨cur, next, prev, heq⟩ := rotated_frame c env x
  have hindexed : Indexed (x.rotated c env).1 (x.rotated c env).2 := h.indexed.rotated
  have hp := h.paired
  unfold Ctx.begun
  rw [heq] at hindexed ⊢
  exact ⟨h.stored, h.key_eq, { hp with }, h.staged, hindexed⟩

/-- The end of both handlers, before the staged packets are sent. -/
def Ctx.completed (c : Crypto) (env : Env) (x : Ctx) : Ctx :=
  { x.begun c env with peer := timersHandshakeComplete env (x.begun c env).peer }

theorem timersHandshakeComplete_eq (env : Env) (peer : Peer) :
    ∃ attempts timers, timersHandshakeComplete env peer =
      { peer with handshakeAttempts := attempts, timers := timers } := by
  unfold timersHandshakeComplete
  split_ifs
  · exact ⟨peer.handshakeAttempts, peer.timers, rfl⟩
  · exact ⟨0, _, rfl⟩

theorem Working.completed (h : Working c k r psk x) : Working c k r psk (x.completed c env) := by
  have hb : Working c k r psk (x.begun c env) := h.begun
  obtain ⟨attempts, timers, heq⟩ := timersHandshakeComplete_eq env (x.begun c env).peer
  have hp := hb.paired
  unfold Ctx.completed
  rw [heq]
  exact ⟨hb.stored, hb.key_eq, { hp with }, hb.staged, hb.indexed⟩

theorem completed_handshake :
    (x.completed c env).peer.handshake = noiseHandshakeClear x.peer.handshake := by
  obtain ⟨cur, next, prev, heq⟩ := rotated_frame c env x
  obtain ⟨attempts, timers, heq'⟩ := timersHandshakeComplete_eq env (x.begun c env).peer
  rw [Ctx.completed, heq', Ctx.begun, heq]

theorem completed_currentKeypair :
    (x.completed c env).peer.currentKeypair = (x.rotated c env).2.currentKeypair := by
  obtain ⟨attempts, timers, heq⟩ := timersHandshakeComplete_eq env (x.begun c env).peer
  rw [Ctx.completed, heq]
  rfl

theorem completed_newest : (x.completed c env).peer.newest = (x.rotated c env).2.newest := by
  obtain ⟨attempts, timers, heq⟩ := timersHandshakeComplete_eq env (x.begun c env).peer
  rw [Ctx.completed, heq]
  rfl

theorem newest_initiator (h : x.peer.handshake.state = .responseConsumed) :
    (x.completed c env).peer.newest = some (sessionEnds c x.peer.handshake.chainKey
      x.peer.handshake.localIndex x.peer.handshake.remoteIndex) := by
  rw [completed_newest, rotated_initiator h, ← ends_initiator x.dev.nextAddr env.now h]
  rfl

theorem newest_responder (h : x.peer.handshake.state = .responseCreated) :
    (x.completed c env).peer.newest = some (sessionEnds c x.peer.handshake.chainKey
      x.peer.handshake.remoteIndex x.peer.handshake.localIndex).flip := by
  rw [completed_newest, rotated_responder h, ← ends_responder x.dev.nextAddr env.now h]
  rfl

/-- With nothing staged, the flush loop ends at once. -/
theorem flushStaged_nil (h : x.peer.staged.count = 0) : flushStaged c env 0 x = some (x, []) :=
  if_pos h

end Session

/-! ### Initiations -/

/-- A response with the ephemeral `f` that continues an initiation: `hash` and `chainKey` are those
after the initiation, `i` and `e` the private keys of its sender, `idx` its index. -/
structure IsResponse (c : Crypto) (hash chainKey i e f psk : List Byte) (idx : BitVec 32)
    (msg : MsgResponse) : Prop where
  receiver_eq : msg.receiver = idx
  ephemeral_eq : msg.ephemeral = wgGeneratePublicKey c f
  empty_eq : msg.emptyEnc = (responseTranscript c hash chainKey i e f psk).emptyEnc

/-- What accepting an initiation leaves: the handshake is cleared, the session is the newest one,
and perhaps the response is sent.  `hash` and `chainKey` are those after the initiation, which was
made by the holder of `r` with the ephemeral `e` under the index `idx`. -/
structure Answered (c : Crypto) (k r psk hash chainKey e ts : List Byte) (idx : BitVec 32)
    (f : List Byte) (h : Handled) (peer : Peer) : Prop where
  solo : Solo c k r psk h.dev peer
  cleared : peer.handshake.state = .zeroed
  lastTimestamp_eq : peer.handshake.lastTimestamp = ts
  sent : ∀ m ∈ h.sent, ∃ resp, m.2 = .response resp ∧
    IsResponse c hash chainKey r e f psk idx resp ∧
    peer.newest = some (sessionEnds c (responseTranscript c hash chainKey r e f psk).chainKey
      idx resp.sender).flip

section Receive

variable {c : Crypto} {k r psk : List Byte} {env : Env} {dev : Device} {peer : Peer} {x : Ctx}

theorem Working.responded (h : Working c k r psk x) (e : List Byte) :
    Working c k r psk (x.responded c env r e psk) :=
  ⟨h.stored, h.key_eq, { h.paired with }, h.staged, h.indexed.newTable env⟩

theorem Solo.consumed (h : Solo c k r psk dev peer) (tr : InitiationTranscript) (ts : List Byte)
    (msg : MsgInitiation) (src : Endpoint) :
    Working c k r psk (Ctx.start dev { peer.consumed env tr ts msg with endpoint := some src }) :=
  ⟨⟨peer, h.peers_eq, rfl⟩, h.key_eq, { h.paired with }, h.staged, h.indexed⟩

/-- The response is on its way. -/
def Ctx.responseSent (c : Crypto) (env : Env) (x : Ctx) (r e psk : List Byte) (src : Endpoint) : Ctx :=
  (x.responded c env r e psk).udpSend env src (.response (x.response c env r e psk))

theorem Working.responseSent (h : Working c k r psk x) (e : List Byte) (src : Endpoint) :
    Working c k r psk (x.responseSent c env r e psk src) := by
  have hw : Working c k r psk (x.responded c env r e psk) := h.responded e
  rw [Ctx.responseSent, udpSend_eq]
  exact ⟨hw.stored, hw.key_eq, hw.paired, hw.staged, hw.indexed⟩

theorem responseSent_peer (e : List Byte) (src : Endpoint) :
    (x.responseSent c env r e psk src).peer = (x.responded c env r e psk).peer := by
  rw [Ctx.responseSent, udpSend_eq]

theorem answered_completed (h : Working c k r psk x) {e ts : List Byte} (src : Endpoint)
    (hsent : x.sent = []) (hts : x.peer.handshake.lastTimestamp = ts) :
    Answered c k r psk x.peer.handshake.hash x.peer.handshake.chainKey e ts
      x.peer.handshake.remoteIndex (x.ephemeral env)
      ((x.responseSent c env r e psk src).completed c env).handled
      ((x.responseSent c env r e psk src).completed c env).peer := by
  have hpeer : (x.responseSent c env r e psk src).peer = (x.responded c env r e psk).peer :=
    responseSent_peer e src
  have hw : Working c k r psk (x.responseSent c env r e psk src) := h.responseSent e src
  refine ⟨hw.completed.finish, ?_, ?_, ?_⟩
  · rw [completed_handshake]
    rfl
  · rw [completed_handshake, hpeer]
    exact hts
  · intro m hm
    have hm' : m ∈ (x.responseSent c env r e psk src).sent := hm
    rw [Ctx.responseSent, udpSend_eq] at hm'
    have hresp : m.2 = .response (x.response c env r e psk) := by
      revert hm'
      simp only [Ctx.responded, hsent]
      cases env.udpOk <;> simp +contextual
    refine ⟨_, hresp, ⟨rfl, rfl, rfl⟩, ?_⟩
    rw [newest_responder (by rw [hpeer]; rfl), hpeer]
    rfl

theorem answerInitiation_eq (h : Working c k r psk x) (hdh : c.DhAgrees) (hr : r.length = 32)
    {e : List Byte} (he : e.length = 32) (hstate : x.peer.handshake.state = .initiationConsumed)
    (hremote : x.peer.handshake.remoteEphemeral = wgGeneratePublicKey c e) (src : Endpoint) :
    answerInitiation c env 0 src x =
      some ((x.responseSent c env r e psk src).completed c env).handled := by
  have hcreate := noiseCreateResponse_eq h.paired hstate hremote h.indexed.free
    (hdh (x.ephemeral env) _ (length_wgGeneratePrivateKey _) he)
    (hdh (x.ephemeral env) _ (length_wgGeneratePrivateKey _) hr)
  have hw : Working c k r psk (x.responseSent c env r e psk src) := h.responseSent e src
  have hcreated : (x.responseSent c env r e psk src).peer.handshake.state = .responseCreated := by
    rw [responseSent_peer]
    rfl
  have hbegin : noiseBeginSession c env (x.responseSent c env r e psk src) =
      ((x.responseSent c env r e psk src).begun c env, true) :=
    noiseBeginSession_eq (Or.inr hcreated)
  have hcomplete : responderComplete c env 0 ((x.responseSent c env r e psk src).begun c env) =
      some ((x.responseSent c env r e psk src).completed c env) := by
    have hstaged : ((x.responseSent c env r e psk src).completed c env).peer.staged.count = 0 :=
      hw.completed.staged
    exact congrArg (Option.map Prod.fst) (flushStaged_nil hstaged)
  unfold answerInitiation
  rw [hcreate]
  simp only
  rw [← Ctx.responseSent, hbegin]
  simp only [hcomplete, Option.map_some]

/-- An honest initiation is dropped, or it is answered. -/
theorem handleInitiation_solo (env : Env) (h : Solo c k r psk dev peer) (hae : c.AeadRoundTrip)
    (hdh : c.DhAgrees) (hk : k.length = 32) (hr : r.length = 32) {e ts : List Byte}
    {msg : MsgInitiation} (he : e.length = 32) (hmsg : IsInitiation c r k e ts msg)
    (src : Endpoint) :
    ∃ hd, handleInitiation c env 0 dev src msg = some hd ∧
      (acceptsInitiation c env dev src (.initiation msg) = false ∧ Passed c k r psk peer hd ∨
        acceptsInitiation c env dev src (.initiation msg) = true ∧
          tai64nAfter ts peer.handshake.lastTimestamp = true ∧
          ∃ f peer', f.length = 32 ∧ Answered c k r psk (initiationTranscript c r k e ts).hash
            (initiationTranscript c r k e ts).chainKey e ts msg.sender f hd peer') := by
  cases hv : cookieValidateMacs c dev.cookieChecker src msg.beforeMac1 msg.mac1 msg.mac2
    (env.draw 0).bytes.toList env.now (dev.underLoad env) with
  | mk cc mac =>
    have hs := h.setChecker cc
    have hmsg' : IsInitiation c r dev.privateKey e ts msg := h.key_eq.symm ▸ hmsg
    have hconsume : noiseConsumeInitiation c env dev msg = _ := noiseConsumeInitiation_eq hae
      h.paired h.findPeer hmsg' (hdh _ _ he (h.key_eq.symm ▸ hk))
    have hconsume' : noiseConsumeInitiation c env { dev with cookieChecker := cc } msg =
        noiseConsumeInitiation c env dev msg := rfl
    simp only [handleInitiation, acceptsInitiation, hv]
    cases mac with
    | invalid => exact ⟨_, rfl, Or.inl ⟨by simp, passed_drop hs⟩⟩
    | needCookie =>
      refine ⟨_, rfl, Or.inl ⟨by simp, peer, h.setChecker _, rfl, rfl, rfl, ?_⟩⟩
      simp only
      cases env.udpOk <;> simp [Datagram.isHandshake]
    | valid =>
      simp only [hconsume', hconsume]
      by_cases hrefuse : (!tai64nAfter ts peer.handshake.lastTimestamp) = true ∨
          env.now - peer.handshake.lastInitiationConsumptionMs ≤ handshakeInitRateMs
      · simp only [if_pos hrefuse]
        exact ⟨_, rfl, Or.inl ⟨by simp, passed_drop hs⟩⟩
      · have hafter : tai64nAfter ts peer.handshake.lastTimestamp = true := by
          by_contra hn
          exact hrefuse (Or.inl (by simpa using hn))
        simp only [if_neg hrefuse]
        -- the call works on the record that the initiation was consumed into
        set x := Ctx.start { dev with cookieChecker := cc }
          { peer.consumed env (initiationTranscript c r dev.privateKey e ts) ts msg with
            endpoint := some src } with hx
        have hw : Working c k r psk x := hs.consumed _ ts msg src
        have hans : Answered c k r psk (initiationTranscript c r dev.privateKey e ts).hash
            (initiationTranscript c r dev.privateKey e ts).chainKey e ts msg.sender
            (x.ephemeral env) ((x.responseSent c env r e psk src).completed c env).handled
            ((x.responseSent c env r e psk src).completed c env).peer :=
          answered_completed hw src rfl rfl
        rw [h.key_eq] at hans
        exact ⟨_, answerInitiation_eq hw hdh hr he rfl hmsg.ephemeral_eq src,
          Or.inr ⟨by simp, hafter, _, _, length_wgGeneratePrivateKey _, hans⟩⟩

/-! ### Responses -/

/-- A response is consumed only by the handshake under way, and only under its index. -/
theorem awaits_of_noiseConsumeResponse (h : Solo c k r psk dev peer) {msg : MsgResponse}
    {peer' : Peer} (hc : noiseConsumeResponse c dev msg = some peer') :
    peer.handshake.Awaits msg.receiver ∧
      ∃ entry, indexTableLookup dev.indexTable msg.receiver = some entry ∧
        entry.type = .handshake ∧ entry.handshake.bind dev.peerAt = some peer := by
  unfold noiseConsumeResponse at hc
  split at hc
  · cases hc
  · rename_i entry hentry
    split_ifs at hc with htype
    split at hc
    · cases hc
    · rename_i found hfound
      have hpeer : found = peer := by
        obtain ⟨addr, -, hat⟩ := Option.bind_eq_some_iff.1 hfound
        exact h.peerAt hat
      subst hpeer
      simp only at hc
      split_ifs at hc with hstate
      rw [not_not] at htype hstate
      rcases h.indexed.live _ _ hentry with ⟨-, hidx⟩ | ⟨hkp, -⟩
      · exact ⟨⟨hstate, hidx.symm⟩, entry, hentry, htype, hfound⟩
      · rw [htype] at hkp
        cases hkp

/-- What completing a handshake leaves: it is cleared, and the session is the newest one. -/
structure Completed (c : Crypto) (k r psk chainKey : List Byte) (msg : MsgResponse) (peer : Peer)
    (h : Handled) (peer' : Peer) : Prop where
  solo : Solo c k r psk h.dev peer'
  cleared : peer'.handshake.state = .zeroed
  lastTimestamp_eq : peer'.handshake.lastTimestamp = peer.handshake.lastTimestamp
  newest_eq : peer'.newest = some (sessionEnds c chainKey msg.receiver msg.sender)
  sent : ∀ m ∈ h.sent, m.2.isHandshake = false

theorem completeResponse_spec (env : Env) (h : Working c k r psk x)
    (hstate : x.peer.handshake.state = .responseConsumed) :
    ∃ y, completeResponse c env 0 x = some y.handled ∧ Unmoved (x.completed c env) y := by
  have hbegin : noiseBeginSession c env x = (x.begun c env, true) :=
    noiseBeginSession_eq (Or.inl hstate)
  have hstaged : (x.completed c env).peer.staged.count = 0 := h.completed.staged
  have hcur : (x.completed c env).peer.currentKeypair = some (x.session c env) := by
    rw [completed_currentKeypair, rotated_initiator hstate]
  have hcomplete : initiatorComplete c env 0 (x.begun c env) =
      some (deviceSendKeepalive c env (x.completed c env)) := by
    unfold initiatorComplete
    rw [← Ctx.completed, flushStaged_nil hstaged]
    rfl
  refine ⟨deviceSendKeepalive c env (x.completed c env), ?_,
    unmoved_deviceSendKeepalive hcur rfl rfl⟩
  unfold completeResponse
  rw [hbegin]
  simp only [hcomplete, Option.map_some]

/-- The response `msg`, with the ephemeral `f`, continues the handshake under way. -/
structure Continues (c : Crypto) (k psk : List Byte) (hs : Handshake) (f : List Byte)
    (msg : MsgResponse) : Prop where
  ephemeral_len : f.length = 32
  priv_len : hs.localEphemeralPriv.length = 32
  response : IsResponse c hs.hash hs.chainKey k hs.localEphemeralPriv f psk msg.receiver msg

/-- The chain key after such a response. -/
def Handshake.chainKeyAfter (c : Crypto) (k psk : List Byte) (hs : Handshake) (f : List Byte) :
    List Byte :=
  (responseTranscript c hs.hash hs.chainKey k hs.localEphemeralPriv f psk).chainKey

/-- A response that is not awaited is dropped; one that continues the handshake under way is
dropped, or it completes it. -/
theorem handleResponse_solo (env : Env) (h : Solo c k r psk dev peer) (hae : c.AeadRoundTrip)
    (hdh : c.DhAgrees) (hk : k.length = 32) {msg : MsgResponse} (src : Endpoint) {f : List Byte}
    (hmsg : peer.handshake.Awaits msg.receiver → Continues c k psk peer.handshake f msg) :
    ∃ hd, handleResponse c env 0 dev src msg = some hd ∧ (Passed c k r psk peer hd ∨
      peer.handshake.Awaits msg.receiver ∧
        ∃ peer', Completed c k r psk (peer.handshake.chainKeyAfter c k psk f) msg peer hd peer') := by
  cases hv : cookieValidateMacs c dev.cookieChecker src msg.beforeMac1 msg.mac1 msg.mac2
    (env.draw 0).bytes.toList env.now (dev.underLoad env) with
  | mk cc mac =>
    have hs := h.setChecker cc
    simp only [handleResponse, hv]
    by_cases hmac : mac = .invalid
    · rw [if_pos hmac]
      exact ⟨_, rfl, Or.inl (passed_drop hs)⟩
    · rw [if_neg hmac]
      cases hc : noiseConsumeResponse c { dev with cookieChecker := cc } msg with
      | none => exact ⟨_, rfl, Or.inl (passed_drop hs)⟩
      | some peer' =>
        obtain ⟨hawaits, entry, hentry, htype, hfound⟩ := awaits_of_noiseConsumeResponse hs hc
        obtain ⟨hf, hpriv, hresp⟩ := hmsg hawaits
        have hpeer' := noiseConsumeResponse_eq hae hs.paired hentry htype hfound hawaits.1 rfl
          hresp.ephemeral_eq (hs.key_eq.symm ▸ hresp.empty_eq) (hdh _ _ hf hpriv)
          (hdh _ _ hf (hs.key_eq.symm ▸ hk))
        rw [hc, hs.key_eq] at hpeer'
        cases hpeer'
        simp only
        -- the call works on the record that the response was consumed into
        set x := Ctx.start { dev with cookieChecker := cc } { peer.responseConsumed
          (responseTranscript c peer.handshake.hash peer.handshake.chainKey k
            peer.handshake.localEphemeralPriv f psk) msg with endpoint := some src }
        have hw : Working c k r psk x :=
          ⟨⟨peer, hs.peers_eq, rfl⟩, hs.key_eq, { hs.paired with }, hs.staged, hs.indexed⟩
        obtain ⟨y, hy, hunmoved⟩ := completeResponse_spec env hw rfl
        refine ⟨_, hy, Or.inr ⟨hawaits, y.peer, ?_⟩⟩
        have hnewest : (x.completed c env).peer.newest = _ := newest_initiator rfl
        refine ⟨((hw.completed).unmoved hunmoved).finish, ?_, ?_, ?_, ?_⟩
        · rw [hunmoved.handshake_eq, completed_handshake]
          rfl
        · rw [hunmoved.handshake_eq, completed_handshake]
          rfl
        · rw [hunmoved.newest_eq, hnewest, ← hawaits.2]
          rfl
        · intro m hm
          exact (hunmoved.sent m hm).resolve_left List.not_mem_nil

end Receive

end Wgx
