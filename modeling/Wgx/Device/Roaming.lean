import Wgx.Device.Acceptance
import Wgx.Device.Carried

/-!
# Traffic does not configure

What reaches a device while nobody configures it is traffic: datagrams, packets and timers.  Here is
what traffic does to the configuration, to the endpoints and to the filters against replays.

* `movedBy`, `acceptedBy`: the endpoint that an event sets, the counter and the plaintext that it
  brings;
* `ServedBy`: one event, and `served_lifeStep`;
* `endpoints`: the sources of the authentic datagrams of a peer;
* `roaming`: in every run the configuration stays as it is, and each endpoint is the source of the
  last authentic datagram of its peer.
-/

namespace Wgx

/-! ### Traffic -/

/-- The event is no call of the configuration. -/
def LifeEvent.isTraffic : LifeEvent → Bool
  | .device (.recv ..) | .device (.send ..) | .device (.initiate ..) | .device (.timer ..) => true
  | _ => false

section Events

variable (c : Crypto)

/-- The peer that a datagram is authentic for, its inner headers being consistent. -/
def movedByDatagram (env : Env) (dev : Device) (src : Endpoint) : Datagram → Option ℕ
  | .initiation msg => (acceptedInitiation c env dev src msg).map Peer.addr
  | .response msg => (acceptedResponse c env dev src msg).map Peer.addr
  | .cookieReply _ => none
  | .transport msg => (acceptedTransport c dev msg).bind fun t =>
      if (transportPlaintextLen t.2.2).isSome then some t.1.addr else none

/-- The peer whose endpoint an event sets, and the endpoint. -/
def movedBy (dev : Device) : LifeEvent → Option (ℕ × Endpoint)
  | .device (.recv env fuel src d) =>
    if (onUdpRecv c env fuel dev src d).isSome then
      (movedByDatagram c env dev src d).map fun addr => (addr, src)
    else none
  | _ => none

/-- The endpoint that an event gives to the peer at an address. -/
def movedTo (dev : Device) (e : LifeEvent) (addr : ℕ) : Option Endpoint :=
  (movedBy c dev e).bind fun m => if m.1 = addr then some m.2 else none

/-- The keypair under which an event brings a plaintext, with the counter of the message. -/
def acceptedBy (dev : Device) : LifeEvent → Option (ℕ × BitVec 64 × List Byte)
  | .device (.recv _ _ _ (.transport msg)) =>
    (acceptedTransport c dev msg).map fun t => (t.2.1.addr, msg.counter, t.2.2)
  | _ => none

/-- What an event writes to the TUN device: the packet in an accepted plaintext, if its source is
allowed. -/
def writtenBy (dev : Device) : LifeEvent → List (List Byte)
  | .device (.recv _ _ _ (.transport msg)) =>
    match acceptedTransport c dev msg with
    | some (peer, _, p) => ((transportPlaintextLen p).map (writtenPacket dev peer p)).getD []
    | none => []
  | _ => []

/-- The filter of a keypair after the event. -/
def Keypair.filtered (dev : Device) (e : LifeEvent) (kp : Keypair) : Replay.ReplayFilter :=
  match acceptedBy c dev e with
  | some (addr, counter, _) =>
    if kp.addr = addr then (Replay.replayCommit kp.replay counter rejectAfterMessages).2
    else kp.replay
  | none => kp.replay

/-- The record that the peer `p` has after the event. -/
structure ServedPeer (dev : Device) (e : LifeEvent) (p p' : Peer) : Prop where
  settings : p'.settings = p.settings
  endpoint : p'.endpoint = (movedTo c dev e p.addr).or p.endpoint
  keypairs : ∀ kp ∈ p'.keypairs,
    (∃ kp' ∈ p.keypairs, kp.addr = kp'.addr ∧ kp.recvKey = kp'.recvKey ∧
      kp.replay = kp'.filtered c dev e) ∨
    (dev.nextAddr ≤ kp.addr ∧ kp.replay = Replay.replayReset)

/-- What traffic does: the configuration stays as it is, and each record is replaced by one of the
same peer. -/
structure ServedBy (dev : Device) (e : LifeEvent) : Prop where
  config : (lifeStep c dev e).dev.config = dev.config
  tun : (lifeStep c dev e).tun = writtenBy c dev e
  next : dev.nextAddr ≤ (lifeStep c dev e).dev.nextAddr
  peers : List.Forall₂ (ServedPeer c dev e) dev.peers (lifeStep c dev e).dev.peers

end Events

/-! ### Keypairs and their peers -/

theorem keypairs_peers (ps : List Peer) :
    ((ps.map Peer.entries).sum).filterMap IndexEntry.keypair =
      (ps.flatMap fun p => p.keypairs.map Keypair.addr : List ℕ) := by
  induction ps with
  | nil => rfl
  | cons p ps ih =>
    rw [List.map_cons, List.sum_cons, Multiset.filterMap_add, ih, keypairs_entries,
      List.flatMap_cons, Multiset.coe_add]

/-- No keypair belongs to two peers. -/
theorem DeviceInv.owner_unique {dev : Device} (h : DeviceInv dev) {p q : Peer} (hp : p ∈ dev.peers)
    (hq : q ∈ dev.peers) {kp kq : Keypair} (hkp : kp ∈ p.keypairs) (hkq : kq ∈ q.keypairs)
    (heq : kp.addr = kq.addr) : p.addr = q.addr := by
  have hnodup := h.owns.unshared
  rw [Device.entries, keypairs_peers, Multiset.coe_nodup, List.nodup_flatMap] at hnodup
  by_contra hne
  have hpq : p ≠ q := fun hpq => hne (congrArg Peer.addr hpq)
  have hsymm : Std.Symm (Function.onFun List.Disjoint fun p : Peer => p.keypairs.map Keypair.addr) :=
    ⟨fun _ _ h => List.Disjoint.symm h⟩
  have hdisj := hnodup.2.forall hp hq hpq
  exact hdisj (List.mem_map_of_mem hkp) (heq ▸ List.mem_map_of_mem hkq)

/-- The address of a keypair has been allocated. -/
theorem DeviceInv.keypair_lt {dev : Device} (h : DeviceInv dev) {p : Peer} (hp : p ∈ dev.peers)
    {kp : Keypair} (hkp : kp ∈ p.keypairs) : kp.addr < dev.nextAddr := by
  apply h.owns.allocated
  rw [Device.entries, keypairs_peers, Multiset.mem_coe]
  exact List.mem_flatMap.2 ⟨p, hp, List.mem_map_of_mem hkp⟩

section Steps

variable {c : Crypto} {env : Env} {dev : Device} {e : LifeEvent} {r : Handled} {fuel : ℕ}
  {src : Endpoint}

/-- The event is about none of the keypairs of the peer. -/
theorem filtered_of_ne {kp : Keypair}
    (h : ∀ a m, acceptedBy c dev e = some (a, m) → kp.addr ≠ a) : kp.filtered c dev e = kp.replay := by
  unfold Keypair.filtered
  cases hacc : acceptedBy c dev e with
  | none => rfl
  | some a => exact if_neg (h a.1 a.2 hacc)

/-- A peer that the event is not about. -/
theorem servedPeer_of_same {p p' : Peer} (hsettings : p'.settings = p.settings)
    (hendpoint : p'.endpoint = p.endpoint) (hkeypairs : p'.keypairs = p.keypairs)
    (hmoved : movedTo c dev e p.addr = none)
    (hacc : ∀ kp ∈ p.keypairs, ∀ a m, acceptedBy c dev e = some (a, m) → kp.addr ≠ a) :
    ServedPeer c dev e p p' := by
  refine ⟨hsettings, by rw [hmoved, hendpoint]; rfl, ?_⟩
  intro kp hkp
  rw [hkeypairs] at hkp
  exact Or.inl ⟨kp, hkp, rfl, rfl, (filtered_of_ne (hacc kp hkp)).symm⟩

/-- An event that is about no peer. -/
theorem served_of_none (hconfig : (lifeStep c dev e).dev.config = dev.config)
    (hnext : (lifeStep c dev e).dev.nextAddr = dev.nextAddr)
    (hpeers : (lifeStep c dev e).dev.peers = dev.peers)
    (htun : (lifeStep c dev e).tun = writtenBy c dev e) (hmoved : movedBy c dev e = none)
    (hacc : acceptedBy c dev e = none) : ServedBy c dev e := by
  refine ⟨hconfig, htun, hnext.ge, ?_⟩
  rw [hpeers]
  refine List.forall₂_same.2 fun p _ => servedPeer_of_same rfl rfl rfl ?_ ?_
  · rw [movedTo, hmoved]
    rfl
  · intro kp _ a m h
    rw [hacc] at h
    cases h

/-- What an event does whose handling is a call on one peer. -/
theorem served_of_carried (h : DeviceInv dev) {p : Peer} {x y : Ctx} (hp : p ∈ dev.peers)
    (hconfig : x.dev.config = dev.config) (hpeers : x.dev.peers = dev.peers)
    (hnext : x.dev.nextAddr = dev.nextAddr) (hcarried : Carried x y)
    (hr : (lifeStep c dev e).dev = y.finish) (htun : (lifeStep c dev e).tun = y.tun)
    (hwritten : x.tun = writtenBy c dev e)
    (hmoved : ∀ m, movedBy c dev e = some m → m.1 = p.addr)
    (hacc : ∀ a m, acceptedBy c dev e = some (a, m) → ∃ kp ∈ p.keypairs, kp.addr = a)
    (hx : ServedPeer c dev e p x.peer) : ServedBy c dev e := by
  refine ⟨by rw [hr]; exact hcarried.config.trans hconfig,
    htun.trans (hcarried.tun.trans hwritten), ?_, ?_⟩
  · rw [hr]
    exact hnext ▸ hcarried.next
  have hy : ServedPeer c dev e p y.peer := by
    refine ⟨hcarried.settings.trans hx.settings, hcarried.endpoint.trans hx.endpoint, ?_⟩
    intro kp hkp
    rcases hcarried.keypairs kp hkp with ⟨kp', hkp', hsame⟩ | ⟨hnew, hreset⟩
    · rcases hx.keypairs kp' hkp' with ⟨k, hk, haddr, hrecv, hreplay⟩ | ⟨hnew, hreset⟩
      · exact Or.inl ⟨k, hk, hsame.addr.trans haddr, hsame.recvKey.trans hrecv,
          hsame.replay.trans hreplay⟩
      · exact Or.inr ⟨hsame.addr ▸ hnew, hsame.replay.trans hreset⟩
    · exact Or.inr ⟨hnext ▸ hnew, hreset⟩
  have haddr : y.peer.addr = p.addr := congrArg PeerSettings.addr hy.settings
  have hlist : (lifeStep c dev e).dev.peers =
      dev.peers.map fun q => if q.addr = p.addr then y.peer else q := by
    rw [hr, Ctx.finish, Device.store, hcarried.peers, hpeers, haddr]
  rw [hlist]
  refine List.forall₂_map_right_iff.2 (List.forall₂_same.2 fun q hq => ?_)
  split_ifs with heq
  · have hqp : q = p := by
      have hat := Device.peerAt_of_mem h.nodup hp
      rw [← heq, Device.peerAt_of_mem h.nodup hq] at hat
      exact Option.some.inj hat
    rwa [hqp]
  · refine servedPeer_of_same rfl rfl rfl ?_ ?_
    · rw [movedTo]
      cases hm : movedBy c dev e with
      | none => rfl
      | some m => exact if_neg fun hqm : m.1 = q.addr => heq (hqm.symm.trans (hmoved m hm))
    · intro kp hkp a m hm hkpa
      obtain ⟨k, hk, hka⟩ := hacc a m hm
      exact heq (h.owner_unique hq hp hkp hk (hkpa.trans hka.symm))

/-- A call on the peer at an address. -/
theorem served_call (h : DeviceInv dev) {addr : ℕ} {f : Ctx → Ctx}
    (hstep : (lifeStep c dev e) = dev.call addr f) (hcarried : ∀ x, Carried x (f x))
    (hwritten : writtenBy c dev e = []) (hmoved : movedBy c dev e = none)
    (hacc : acceptedBy c dev e = none) : ServedBy c dev e := by
  cases hat : dev.peerAt addr with
  | none =>
    rw [Device.call, hat] at hstep
    exact served_of_none (by rw [hstep]; rfl) (by rw [hstep]; rfl) (by rw [hstep]; rfl)
      (by rw [hstep, hwritten]; rfl) hmoved hacc
  | some p =>
    rw [Device.call, hat] at hstep
    refine @served_of_carried c dev e h p (Ctx.start dev p) _ (Device.mem_of_peerAt hat).1 rfl rfl rfl
      (hcarried _) (by rw [hstep]; rfl) (by rw [hstep]; rfl) hwritten.symm ?_ ?_ (servedPeer_of_same rfl rfl rfl ?_ ?_)
    · intro m hm
      rw [hmoved] at hm
      cases hm
    · intro a m hm
      rw [hacc] at hm
      cases hm
    · rw [movedTo, hmoved]
      rfl
    · intro kp _ a m hm
      rw [hacc] at hm
      cases hm

/-- A record whose handshake has been updated by an authentic message, and which gets the source of
that message as its endpoint. -/
theorem servedPeer_of_handshake {p : Peer} {hs : Handshake} (hpsk : hs.psk = p.handshake.psk)
    (hmoved : movedBy c dev e = some (p.addr, src)) (hacc : acceptedBy c dev e = none) :
    ServedPeer c dev e p { p with handshake := hs, endpoint := some src } := by
  refine ⟨?_, ?_, ?_⟩
  · simp only [Peer.settings, hpsk]
  · rw [movedTo, hmoved, Option.bind_some, if_pos rfl]
    rfl
  · intro kp hkp
    exact Or.inl ⟨kp, hkp, rfl, rfl, (filtered_of_ne (by simp [hacc])).symm⟩

theorem served_initiation (h : DeviceInv dev) {msg : MsgInitiation}
    (hr : handleInitiation c env fuel dev src msg = some r) :
    ServedBy c dev (.device (.recv env fuel src (.initiation msg))) := by
  have hstep : lifeStep c dev (.device (.recv env fuel src (.initiation msg))) = r := by
    have : onUdpRecv c env fuel dev src (.initiation msg) = some r := hr
    simp [lifeStep, deviceStep, this]
  have hmoved : movedBy c dev (.device (.recv env fuel src (.initiation msg))) =
      (acceptedInitiation c env dev src msg).map fun p => (p.addr, src) := by
    have : onUdpRecv c env fuel dev src (.initiation msg) = some r := hr
    simp [movedBy, this, movedByDatagram, Function.comp_def]
  have hnone : acceptedInitiation c env dev src msg = none → r.dev.config = dev.config →
      r.dev.nextAddr = dev.nextAddr → r.dev.peers = dev.peers → r.tun = [] →
      ServedBy c dev (.device (.recv env fuel src (.initiation msg))) := by
    intro hacc hconfig hnext hpeers htun
    rw [← hstep] at hconfig hnext hpeers htun
    exact served_of_none hconfig hnext hpeers htun (by rw [hmoved, hacc]; rfl) rfl
  simp only [handleInitiation] at hr
  unfold acceptedInitiation at hnone hmoved
  simp only at hnone hmoved
  split at hr
  next hmac =>
    cases hr
    rw [hmac] at hnone
    exact hnone rfl rfl rfl rfl rfl
  next hmac =>
    cases hr
    rw [hmac] at hnone
    exact hnone rfl rfl rfl rfl rfl
  next hmac =>
    rw [hmac, if_pos rfl] at hnone hmoved
    have hsame : ∀ cc, noiseConsumeInitiation c env { dev with cookieChecker := cc } msg =
        noiseConsumeInitiation c env dev msg := fun cc => rfl
    rw [hsame] at hr
    rw [noiseConsumeInitiation_eq_open] at hr hnone hmoved
    cases ho : openInitiation c dev msg with
    | none =>
      rw [ho] at hr hnone
      cases hr
      exact hnone rfl rfl rfl rfl rfl
    | some o =>
      rw [ho, Option.bind_some] at hr hnone hmoved
      split_ifs at hr hnone hmoved with hok
      · obtain ⟨y, hy, rfl⟩ := carried_answerInitiation hr
        refine served_of_carried h (peer_mem_of_open ho) rfl rfl rfl hy (by rw [hstep]; rfl)
          (by rw [hstep]; rfl) rfl ?_ (by simp [acceptedBy]) (servedPeer_of_handshake rfl hmoved rfl)
        intro m hm
        cases hmoved.symm.trans hm
        rfl
      · cases hr
        exact hnone rfl rfl rfl rfl rfl

theorem served_response (h : DeviceInv dev) {msg : MsgResponse}
    (hr : handleResponse c env fuel dev src msg = some r) :
    ServedBy c dev (.device (.recv env fuel src (.response msg))) := by
  have hrecv : onUdpRecv c env fuel dev src (.response msg) = some r := hr
  have hstep : lifeStep c dev (.device (.recv env fuel src (.response msg))) = r := by
    simp [lifeStep, deviceStep, hrecv]
  have hmoved : movedBy c dev (.device (.recv env fuel src (.response msg))) =
      (acceptedResponse c env dev src msg).map fun p => (p.addr, src) := by
    simp [movedBy, hrecv, movedByDatagram, Function.comp_def]
  have hnone : acceptedResponse c env dev src msg = none → r.dev.config = dev.config →
      r.dev.nextAddr = dev.nextAddr → r.dev.peers = dev.peers → r.tun = [] →
      ServedBy c dev (.device (.recv env fuel src (.response msg))) := by
    intro hacc hconfig hnext hpeers htun
    rw [← hstep] at hconfig hnext hpeers htun
    exact served_of_none hconfig hnext hpeers htun (by rw [hmoved, hacc]; rfl) rfl
  simp only [handleResponse] at hr
  unfold acceptedResponse at hnone hmoved
  simp only at hnone hmoved
  split_ifs at hr hnone hmoved with hmac
  · cases hr
    exact hnone rfl rfl rfl rfl rfl
  · have hsame : ∀ cc, noiseConsumeResponse c { dev with cookieChecker := cc } msg =
        noiseConsumeResponse c dev msg := fun cc => rfl
    rw [hsame] at hr
    cases hcons : noiseConsumeResponse c dev msg with
    | none =>
      rw [hcons] at hr
      cases hr
      exact hnone hcons rfl rfl rfl rfl
    | some p =>
      rw [hcons] at hr hmoved
      rw [noiseConsumeResponse_eq_open] at hcons
      obtain ⟨peer, htarget, hcons⟩ := Option.bind_eq_some_iff.1 hcons
      split_ifs at hcons
      obtain ⟨o, -, rfl⟩ := Option.map_eq_some_iff.1 hcons
      obtain ⟨y, hy, rfl⟩ := carried_completeResponse hr
      refine served_of_carried h (h.responseTarget htarget).1 rfl rfl rfl hy (by rw [hstep]; rfl)
        (by rw [hstep]; rfl) rfl ?_ (by simp [acceptedBy]) (servedPeer_of_handshake rfl hmoved rfl)
      intro m hm
      cases hmoved.symm.trans hm
      rfl

theorem served_cookieReply (h : DeviceInv dev) (msg : MsgCookieReply) :
    ServedBy c dev (.device (.recv env fuel src (.cookieReply msg))) := by
  have hstep : (lifeStep c dev (.device (.recv env fuel src (.cookieReply msg)))).dev =
      handleCookieReply c env dev msg := rfl
  unfold handleCookieReply at hstep
  split at hstep
  · exact served_of_none (by rw [hstep]) (by rw [hstep]) (by rw [hstep]) rfl rfl rfl
  next peer hpeer =>
    obtain ⟨e, -, hat⟩ := Option.bind_eq_some_iff.1 hpeer
    refine @served_of_carried c dev _ h peer (Ctx.start dev peer)
      { Ctx.start dev peer with
        peer := { peer with cookie := cookieConsumeReply c peer.cookie msg env.now } }
      (Device.mem_of_peerAt hat).1 rfl rfl rfl (carried_of_eq rfl rfl rfl rfl rfl rfl rfl) hstep rfl rfl
      (by simp [movedBy, movedByDatagram]) (by simp [acceptedBy])
      (servedPeer_of_same rfl rfl rfl rfl ?_)
    intro kp _ a m hm
    cases hm

/-- The filter of the keypair takes the counter; every other keypair of the peer keeps its own. -/
theorem filtered_mapKeypair (h : DeviceInv dev) {peer : Peer} {kp : Keypair} {counter : BitVec 64}
    {plaintext : List Byte} {replay : Replay.ReplayFilter} (hp : peer ∈ dev.peers)
    (hkp : kp ∈ peer.keypairs) (hacc : acceptedBy c dev e = some (kp.addr, counter, plaintext))
    (hreplay : (Replay.replayCommit kp.replay counter rejectAfterMessages).2 = replay) :
    ∀ k ∈ (peer.mapKeypair kp.addr fun kp => { kp with replay := replay }).keypairs,
      ∃ k' ∈ peer.keypairs, k.addr = k'.addr ∧ k.recvKey = k'.recvKey ∧
        k.replay = k'.filtered c dev e := by
  intro k hk
  have hfrom : ∃ k' ∈ peer.keypairs,
      k = if k'.addr = kp.addr then { k' with replay := replay } else k' := by
    simp only [mem_keypairs, Peer.mapKeypair, Option.map_eq_some_iff] at hk ⊢
    rcases hk with ⟨k', hk', rfl⟩ | ⟨k', hk', rfl⟩ | ⟨k', hk', rfl⟩
    · exact ⟨k', Or.inl hk', rfl⟩
    · exact ⟨k', Or.inr (Or.inl hk'), rfl⟩
    · exact ⟨k', Or.inr (Or.inr hk'), rfl⟩
  obtain ⟨k', hk', rfl⟩ := hfrom
  refine ⟨k', hk', ?_⟩
  unfold Keypair.filtered
  rw [hacc]
  simp only
  split_ifs with heq
  · have hunique := h.keypair_unique hp hkp
    have hmem : k' ∈ peer.keypairs.filter fun k => k.addr = kp.addr :=
      List.mem_filter.2 ⟨hk', by simpa using heq⟩
    rw [hunique] at hmem
    rw [List.mem_singleton.1 hmem]
    exact ⟨rfl, rfl, hreplay.symm⟩
  · exact ⟨rfl, rfl, rfl⟩

/-- What becomes of a transport message. -/
theorem handleTransport_cases (c : Crypto) (env : Env) (dev : Device) (src : Endpoint)
    (msg : MsgTransport) :
    (acceptedTransport c dev msg = none ∧ handleTransport c env dev src msg = .drop dev) ∨
      ∃ peer kp plaintext replay, acceptedTransport c dev msg = some (peer, kp, plaintext) ∧
        peer ∈ dev.peers ∧ kp ∈ peer.keypairs ∧
        c.aeadDecrypt kp.recvKey (transportNonce msg.counter) msg.content [] = some plaintext ∧
        Replay.replayCommit kp.replay msg.counter rejectAfterMessages = (true, replay) ∧
        handleTransport c env dev src msg = (transportDeliver env
          (Ctx.start dev (peer.mapKeypair kp.addr fun kp => { kp with replay := replay })) src kp.addr
          (msgTransportHdrSize + msg.content.length) plaintext).handled := by
  unfold handleTransport acceptedTransport
  split_ifs with hlen
  · exact Or.inl ⟨rfl, rfl⟩
  · cases htarget : transportTarget dev msg.receiver with
    | none => exact Or.inl ⟨rfl, rfl⟩
    | some t =>
      obtain ⟨peer, kp⟩ := t
      simp only [Option.bind_some]
      cases hcheck : Replay.replayCheck kp.replay msg.counter rejectAfterMessages with
      | false => exact Or.inl ⟨rfl, rfl⟩
      | true =>
        simp only [Bool.not_true, Bool.false_eq_true, if_false, if_true]
        cases hopen : c.aeadDecrypt kp.recvKey (transportNonce msg.counter) msg.content [] with
        | none => exact Or.inl ⟨rfl, rfl⟩
        | some plaintext =>
          simp only [Option.bind_some]
          cases hcommit : Replay.replayCommit kp.replay msg.counter rejectAfterMessages with
          | mk ok replay =>
            cases ok with
            | false => exact Or.inl ⟨rfl, rfl⟩
            | true =>
              obtain ⟨hp, hkp⟩ := transportTarget_mem htarget
              exact Or.inr ⟨peer, kp, plaintext, replay, rfl, hp, hkp, hopen, hcommit, rfl⟩

theorem served_transport (h : DeviceInv dev) (msg : MsgTransport) :
    ServedBy c dev (.device (.recv env fuel src (.transport msg))) := by
  have hstep : lifeStep c dev (.device (.recv env fuel src (.transport msg))) =
      handleTransport c env dev src msg := rfl
  have hacc : acceptedBy c dev (.device (.recv env fuel src (.transport msg))) =
      (acceptedTransport c dev msg).map fun t => (t.2.1.addr, msg.counter, t.2.2) := rfl
  have hmoved : movedBy c dev (.device (.recv env fuel src (.transport msg))) =
      (acceptedTransport c dev msg).bind fun t =>
        if (transportPlaintextLen t.2.2).isSome then some (t.1.addr, src) else none := by
    simp only [movedBy, movedByDatagram, onUdpRecv, Option.isSome_some, if_true, Option.map_bind]
    congr 1
    funext t
    simp only [Function.comp_apply]
    split_ifs <;> rfl
  have hwritten : writtenBy c dev (.device (.recv env fuel src (.transport msg))) =
      match acceptedTransport c dev msg with
      | some (peer, _, p) => ((transportPlaintextLen p).map (writtenPacket dev peer p)).getD []
      | none => [] := rfl
  rcases handleTransport_cases c env dev src msg with
    ⟨hout, hdrop⟩ | ⟨peer, kp, plaintext, replay, haccept, hp, hkp, -, hcommit, hresult⟩
  · rw [hdrop] at hstep
    exact served_of_none (by rw [hstep]; rfl) (by rw [hstep]; rfl) (by rw [hstep]; rfl)
      (by rw [hstep, hwritten, hout]; rfl) (by rw [hmoved, hout]; rfl) (by rw [hacc, hout]; rfl)
  · rw [haccept, Option.map_some] at hacc
    rw [haccept, Option.bind_some] at hmoved
    rw [haccept] at hwritten
    simp only at hacc hmoved hwritten
    rw [hresult] at hstep
    have hslots := filtered_mapKeypair h hp hkp hacc (congrArg Prod.snd hcommit)
    have hother : ∀ a m, acceptedBy c dev (.device (.recv env fuel src (.transport msg))) =
        some (a, m) → ∃ kp ∈ peer.keypairs, kp.addr = a := by
      intro a m hm
      rw [hacc] at hm
      cases hm
      exact ⟨kp, hkp, rfl⟩
    cases hlen : transportPlaintextLen plaintext with
    | none =>
      rw [hlen] at hmoved hwritten
      refine served_of_carried h hp rfl rfl rfl (Carried.refl _)
        (by rw [hstep, transportDeliver_none src kp.addr _ hlen]; rfl)
        (by rw [hstep, transportDeliver_none src kp.addr _ hlen]; rfl) hwritten.symm
        (fun m hm => by rw [hmoved] at hm; cases hm) hother ⟨rfl, ?_, ?_⟩
      · rw [movedTo, hmoved]
        rfl
      · exact fun k hk => Or.inl (hslots k hk)
    | some n =>
      rw [hlen] at hmoved hwritten
      have hdelivered := @carried_transportDeliver env (Ctx.start dev
        (peer.mapKeypair kp.addr fun kp => { kp with replay := replay })) src kp.addr
        (msgTransportHdrSize + msg.content.length) _ _ hlen
      refine served_of_carried h hp rfl rfl rfl hdelivered (by rw [hstep]; rfl)
        (by rw [hstep]; rfl) hwritten.symm (fun m hm => by rw [hmoved] at hm; cases hm; rfl) hother ⟨rfl, ?_, ?_⟩
      · rw [movedTo, hmoved]
        simp [Ctx.delivered]
      · exact fun k hk => Or.inl (hslots k hk)

/-- **What traffic does to a device**, whatever it brings. -/
theorem served_lifeStep (h : DeviceInv dev) (htraffic : e.isTraffic) : ServedBy c dev e := by
  cases e with
  | set env stack data => cases htraffic
  | device e =>
    cases e with
    | recv env fuel src d =>
      cases hr : onUdpRecv c env fuel dev src d with
      | none =>
        have hmoved : movedBy c dev (.device (.recv env fuel src d)) = none := by
          simp [movedBy, hr]
        have hstep : lifeStep c dev (.device (.recv env fuel src d)) = .drop dev := by
          simp [lifeStep, deviceStep, hr]
        have hacc : acceptedBy c dev (.device (.recv env fuel src d)) = none ∧
            writtenBy c dev (.device (.recv env fuel src d)) = [] := by
          cases d with
          | transport msg => cases hr
          | _ => exact ⟨rfl, rfl⟩
        exact served_of_none (by rw [hstep]; rfl) (by rw [hstep]; rfl) (by rw [hstep]; rfl)
          (by rw [hstep, hacc.2]; rfl) hmoved hacc.1
      | some r =>
        cases d with
        | initiation msg => exact served_initiation h hr
        | response msg => exact served_response h hr
        | cookieReply msg => exact served_cookieReply h msg
        | transport msg => exact served_transport h msg
    | send env addr pkt =>
      exact served_call h rfl (fun x => carried_deviceSendToPeer pkt) rfl rfl rfl
    | initiate env addr force =>
      exact served_call h rfl (fun x => carried_deviceInitiateHandshakeInner force) rfl rfl rfl
    | timer env addr kind =>
      refine @served_call c dev _ h addr
        (fun x => if x.timerDue env kind then fireTimer c env x kind else x) rfl (fun x => ?_) rfl rfl rfl
      split_ifs
      · exact (carried_setTimer kind none).trans (carried_timerCallback kind)
      · exact Carried.refl x
    | _ => cases htraffic

end Steps

/-! ### Runs -/

/-- What stands in the second list has a partner in the first. -/
theorem forall₂_mem_right {α β : Type*} {R : α → β → Prop} {xs : List α} {ys : List β}
    (h : List.Forall₂ R xs ys) {y : β} (hy : y ∈ ys) : ∃ x ∈ xs, R x y := by
  induction h with
  | nil => cases hy
  | cons hR _ ih =>
    rcases List.mem_cons.1 hy with rfl | hy
    · exact ⟨_, List.mem_cons_self, hR⟩
    · obtain ⟨x, hx, hxy⟩ := ih hy
      exact ⟨x, List.mem_cons_of_mem _ hx, hxy⟩

/-- Two relations between lists, one after the other. -/
theorem forall₂_comp {α β γ : Type*} {R : α → β → Prop} {S : β → γ → Prop} {xs : List α}
    {ys : List β} {zs : List γ} (h1 : List.Forall₂ R xs ys) (h2 : List.Forall₂ S ys zs) :
    List.Forall₂ (Relation.Comp R S) xs zs := by
  induction h1 generalizing zs with
  | nil =>
    cases h2
    exact .nil
  | cons hR _ ih =>
    cases h2 with
    | cons hS h2 => exact .cons ⟨_, hR, hS⟩ (ih h2)

section Runs

variable (c : Crypto)

/-- The sources of the authentic datagrams of the peer at `addr` during a run, oldest first. -/
def endpoints (addr : ℕ) : Device → List LifeEvent → List Endpoint
  | _, [] => []
  | dev, e :: es => (movedTo c dev e addr).toList ++ endpoints addr (lifeStep c dev e).dev es

/-- The record that the peer `p` has after a run. -/
structure RoamedPeer (dev : Device) (es : List LifeEvent) (p p' : Peer) : Prop where
  settings : p'.settings = p.settings
  endpoint : p'.endpoint = (endpoints c p.addr dev es).getLast?.or p.endpoint

variable {c} {dev : Device} {es : List LifeEvent}

theorem roamed_lifeRun (h : DeviceInv dev) (htraffic : ∀ e ∈ es, e.isTraffic) :
    (lifeRun c dev es).config = dev.config ∧
      List.Forall₂ (RoamedPeer c dev es) dev.peers (lifeRun c dev es).peers := by
  induction es generalizing dev with
  | nil => exact ⟨rfl, List.forall₂_same.2 fun p _ => ⟨rfl, rfl⟩⟩
  | cons e es ih =>
    have hserved := @served_lifeStep c dev e h (htraffic e List.mem_cons_self)
    obtain ⟨hconfig, hpeers⟩ := ih (h.lifeStep e) fun e' he' => htraffic e' (List.mem_cons_of_mem _ he')
    refine ⟨hconfig.trans hserved.config, ?_⟩
    refine (forall₂_comp hserved.peers hpeers).imp ?_
    rintro p p'' ⟨p', hstep, hrun⟩
    have haddr : p'.addr = p.addr := congrArg PeerSettings.addr hstep.settings
    refine ⟨hrun.settings.trans hstep.settings, ?_⟩
    rw [hrun.endpoint, hstep.endpoint, haddr, endpoints, List.getLast?_append]
    cases movedTo c dev e p.addr <;> cases (endpoints c p.addr (lifeStep c dev e).dev es).getLast? <;>
      rfl

end Runs

/-- **Traffic does not configure a device.**  In every life of a device, datagrams, packets and
timers leave the configuration as it is, however many of them there are and whatever they contain,
and each endpoint is the source of the last authentic datagram of its peer, if there was one. -/
theorem roaming (c : Crypto) (es₀ es : List LifeEvent) (htraffic : ∀ e ∈ es, e.isTraffic) :
    (lifeRun c (deviceInit c) (es₀ ++ es)).config = (lifeRun c (deviceInit c) es₀).config ∧
      List.Forall₂ (RoamedPeer c (lifeRun c (deviceInit c) es₀) es)
        (lifeRun c (deviceInit c) es₀).peers (lifeRun c (deviceInit c) (es₀ ++ es)).peers := by
  have hrun : lifeRun c (deviceInit c) (es₀ ++ es) = lifeRun c (lifeRun c (deviceInit c) es₀) es :=
    Machine.run_append _ _ _ _
  rw [hrun]
  exact roamed_lifeRun ((deviceInv_deviceInit c).lifeRun es₀) htraffic

/-- An initiation of the peer, and the same datagram again from another address. -/
def movedOnce : List LifeEvent :=
  [.device (.recv (toyEnv 7) 0 tagSrc (.initiation (tagInitiation (toyEnv 5)))),
    .device (.recv { toyEnv 8 with now := 2000 } 0 (.v4 #v[10#8, 0, 0, 2] 51820)
      (.initiation (tagInitiation (toyEnv 5))))]

theorem roaming_once :
    ((lifeRun tagCrypto (deviceInit tagCrypto) (twoInitiations.take 2 ++ movedOnce)).peers.map
        Peer.endpoint = [some tagSrc]) ∧
      List.Forall₂ (RoamedPeer tagCrypto
          (lifeRun tagCrypto (deviceInit tagCrypto) (twoInitiations.take 2)) movedOnce)
        (lifeRun tagCrypto (deviceInit tagCrypto) (twoInitiations.take 2)).peers
        (lifeRun tagCrypto (deviceInit tagCrypto) (twoInitiations.take 2 ++ movedOnce)).peers :=
  ⟨by decide +kernel, (roaming tagCrypto (twoInitiations.take 2) movedOnce (by decide)).2⟩

end Wgx
