import Wgx.Device.Network
import Wgx.Device.Nonce
import Wgx.Device.Datagrams

/-!
# Agreement on sessions under any schedule

Two devices with any number of peers each run on as they like, and the network delivers the
responses that one of them has sent to the other late, often, never and in any order.  Whenever one
of them takes a response and starts a session, the other has started the mirrored session when it
made that response.

* `initiationAnswered`, `responseTaken`: the calls up to the session start, and
  `handleInitiation_answered`, `handleResponse_taken`: what the handlers do with them;
* `responses_onUdpRecv`: a response is sent only with a session started before the handler returns;
* `Link`, `Link.step`: the two devices and the responses they have sent;
* `session_agreement`: the sessions mirror each other.

Only responses are kept from being forged: the other datagrams that arrive are arbitrary.
-/

namespace Wgx

/-! ### Ideal primitives -/

/-- Decryption succeeds only on what was encrypted with the same key, nonce and associated data. -/
def Crypto.AeadIdeal (c : Crypto) : Prop :=
  ∀ key nonce plaintext aad key' nonce' aad' p,
    c.aeadDecrypt key' nonce' (c.aeadEncrypt key nonce plaintext aad) aad' = some p →
      key' = key ∧ nonce' = nonce ∧ aad' = aad

/-- The last output of the third KDF determines the others. -/
def Crypto.KdfInjective (c : Crypto) : Prop :=
  ∀ key input key' input', (wgKdf3 c key input).2.2 = (wgKdf3 c key' input').2.2 →
    wgKdf3 c key input = wgKdf3 c key' input'

/-! ### What the handlers do up to the session start -/

section Handlers

variable (c : Crypto) (env : Env)

/-- The device with the cookie secret that the check of the MACs of a message leaves, and the result
of the check. -/
def Device.validateMacs (dev : Device) (src : Endpoint) (body mac1 mac2 : List Byte) :
    Device × MacResult :=
  let (cc, macRet) := cookieValidateMacs c dev.cookieChecker src body mac1 mac2
    (env.draw 0).bytes.toList env.now (dev.underLoad env)
  ({ dev with cookieChecker := cc }, macRet)

/-- `handle_initiation` up to `noise_begin_session`: the state after it and the response that was
sent, if the initiation is answered. -/
def initiationAnswered (dev : Device) (src : Endpoint) (msg : MsgInitiation) :
    Option (Ctx × MsgResponse) :=
  let (dev, macRet) := dev.validateMacs c env src msg.beforeMac1 msg.mac1 msg.mac2
  if macRet ≠ .valid then none
  else (noiseConsumeInitiation c env dev msg).bind fun peer =>
    match noiseCreateResponse c env (Ctx.start dev { peer with endpoint := some src }) with
    | (_, none) => none
    | (x, some resp) => some ((noiseBeginSession c env (x.udpSend env src (.response resp))).1, resp)

/-- `handle_response` up to `noise_begin_session`: the state after it, if the response is taken. -/
def responseTaken (dev : Device) (src : Endpoint) (msg : MsgResponse) : Option Ctx :=
  let (dev, macRet) := dev.validateMacs c env src msg.beforeMac1 msg.mac1 msg.mac2
  if macRet = .invalid then none
  else (noiseConsumeResponse c dev msg).map fun peer =>
    (noiseBeginSession c env (Ctx.start dev { peer with endpoint := some src })).1

variable {c env} {dev : Device} {src : Endpoint} {x y : Ctx} {fuel : ℕ}

/-- A created response and the handshake it leaves: the indices, and the chain key that goes with the
key of the encrypted field. -/
theorem noiseCreateResponse_some {resp : MsgResponse}
    (h : noiseCreateResponse c env x = (y, some resp)) :
    y.peer.handshake.state = .responseCreated ∧ y.peer.handshake.localIndex = resp.sender ∧
      y.peer.handshake.remoteIndex = resp.receiver ∧ y.sent = x.sent ∧
      ∃ key input hash, y.peer.handshake.chainKey = (wgKdf3 c key input).1 ∧
        resp.emptyEnc = c.aeadEncrypt (wgKdf3 c key input).2.2 zeroNonce [] hash := by
  simp only [noiseCreateResponse] at h
  split_ifs at h
  · cases h
  · cases h
  · split at h
    · cases h
    · split at h
      · cases h
      · cases h
        exact ⟨rfl, rfl, rfl, rfl, _, _, _, rfl, rfl⟩

theorem sent_udpSend (ep : Endpoint) (d : Datagram) :
    (x.udpSend env ep d).sent = x.sent ++ if env.udpOk then [(ep, d)] else [] := by
  unfold Ctx.udpSend
  split_ifs <;> simp

/-- The session of an answered initiation: the keypair in the next slot comes from the chain key of
the response. -/
theorem initiationAnswered_session {msg : MsgInitiation} {resp : MsgResponse}
    (h : initiationAnswered c env dev src msg = some (y, resp)) :
    y.sent = (if env.udpOk then [(src, .response resp)] else []) ∧
      ∃ hs addr, y.peer.nextKeypair = some (sessionKeypair c hs addr env.now) ∧
        hs.state = .responseCreated ∧ hs.localIndex = resp.sender ∧
        hs.remoteIndex = resp.receiver ∧
        ∃ key input hash, hs.chainKey = (wgKdf3 c key input).1 ∧
          resp.emptyEnc = c.aeadEncrypt (wgKdf3 c key input).2.2 zeroNonce [] hash := by
  simp only [initiationAnswered] at h
  split_ifs at h
  obtain ⟨peer, -, h⟩ := Option.bind_eq_some_iff.1 h
  split at h
  · cases h
  next z resp' hz =>
    cases h
    obtain ⟨hstate, hlocal, hremote, hsent, hkeys⟩ := noiseCreateResponse_some hz
    have hpeer : (z.udpSend env src (.response resp)).peer = z.peer := peer_udpSend _ _
    have hbegun : (z.udpSend env src (.response resp)).peer.handshake.state = .responseCreated := by
      rw [hpeer, hstate]
    rw [noiseBeginSession_eq (Or.inr hbegun)]
    refine ⟨?_, z.peer.handshake, z.dev.nextAddr, ?_, hstate, hlocal, hremote, hkeys⟩
    · show (z.udpSend env src (.response resp)).sent = _
      rw [sent_udpSend, hsent]
      rfl
    · show ((z.udpSend env src (.response resp)).rotated c env).2.nextKeypair = _
      rw [rotated_responder hbegun]
      simp only [Ctx.session, hpeer]
      unfold Ctx.udpSend
      split_ifs <;> rfl

/-- `handle_initiation` after the check of the MACs. -/
theorem handleInitiation_eq (msg : MsgInitiation) :
    handleInitiation c env fuel dev src msg =
      match dev.validateMacs c env src msg.beforeMac1 msg.mac1 msg.mac2 with
      | (dev, .invalid) => some (.drop dev)
      | (dev, .needCookie) =>
        let (cc, reply) := cookieCreateReply c dev.cookieChecker src msg.mac1 msg.sender
          ((env.draw 1).bytes.toList.take 24) (env.draw 0).bytes.toList env.now
        some ⟨{ dev with cookieChecker := cc },
          if env.udpOk then [(src, .cookieReply reply)] else [], []⟩
      | (dev, .valid) =>
        match noiseConsumeInitiation c env dev msg with
        | none => some (.drop dev)
        | some peer =>
          answerInitiation c env fuel src (Ctx.start dev { peer with endpoint := some src }) := by
  unfold handleInitiation Device.validateMacs
  generalize cookieValidateMacs c dev.cookieChecker src msg.beforeMac1 msg.mac1 msg.mac2
    (env.draw 0).bytes.toList env.now (dev.underLoad env) = v
  obtain ⟨cc, macRet⟩ := v
  cases macRet <;> rfl

/-- `handle_response` after the check of the MACs. -/
theorem handleResponse_eq (msg : MsgResponse) :
    handleResponse c env fuel dev src msg =
      match dev.validateMacs c env src msg.beforeMac1 msg.mac1 msg.mac2 with
      | (dev, macRet) =>
        if macRet = .invalid then some (.drop dev)
        else match noiseConsumeResponse c dev msg with
          | none => some (.drop dev)
          | some peer =>
            completeResponse c env fuel (Ctx.start dev { peer with endpoint := some src }) := rfl

/-- The handler of an initiation that is answered goes on to send the staged packets. -/
theorem handleInitiation_answered (fuel : ℕ) {msg : MsgInitiation} {resp : MsgResponse}
    (h : initiationAnswered c env dev src msg = some (y, resp)) :
    handleInitiation c env fuel dev src msg = (responderComplete c env fuel y).map Ctx.handled := by
  rw [handleInitiation_eq]
  unfold initiationAnswered at h
  generalize dev.validateMacs c env src msg.beforeMac1 msg.mac1 msg.mac2 = v at h ⊢
  obtain ⟨dev', macRet⟩ := v
  simp only at h
  split_ifs at h with hmac
  rw [not_not] at hmac
  subst hmac
  obtain ⟨peer, hconsume, h⟩ := Option.bind_eq_some_iff.1 h
  simp only [hconsume, answerInitiation]
  rcases hz : noiseCreateResponse c env (Ctx.start dev' { peer with endpoint := some src }) with
    ⟨z, _ | resp'⟩
  · simp only [hz] at h
    cases h
  · simp only [hz] at h ⊢
    cases h
    have hstate : (z.udpSend env src (.response resp)).peer.handshake.state = .responseCreated := by
      rw [peer_udpSend]
      exact (noiseCreateResponse_some hz).1
    rw [noiseBeginSession_eq (Or.inr hstate)]

/-- The handler of a response that is taken goes on to send the staged packets. -/
theorem handleResponse_taken {msg : MsgResponse} (h : responseTaken c env dev src msg = some y) :
    handleResponse c env fuel dev src msg = (initiatorComplete c env fuel y).map Ctx.handled := by
  rw [handleResponse_eq]
  unfold responseTaken at h
  generalize dev.validateMacs c env src msg.beforeMac1 msg.mac1 msg.mac2 = v at h ⊢
  obtain ⟨dev', macRet⟩ := v
  simp only at h ⊢
  split_ifs at h with hmac
  obtain ⟨peer, hconsume, rfl⟩ := Option.map_eq_some_iff.1 h
  rw [if_neg hmac, hconsume]
  have hstate : peer.handshake.state = .responseConsumed := by
    rw [noiseConsumeResponse_eq_open] at hconsume
    obtain ⟨p, -, hp⟩ := Option.bind_eq_some_iff.1 hconsume
    split_ifs at hp
    obtain ⟨o, -, rfl⟩ := Option.map_eq_some_iff.1 hp
    rfl
  have hbegun : (Ctx.start dev' { peer with endpoint := some src }).peer.handshake.state =
      .responseConsumed := hstate
  simp only [completeResponse]
  rw [noiseBeginSession_eq (Or.inl hbegun)]

/-- The session of a response that is taken: the keypair in the current slot comes from a chain key
under which the encrypted field opens. -/
theorem responseTaken_session (hinv : DeviceInv dev) {msg : MsgResponse}
    (h : responseTaken c env dev src msg = some y) :
    ∃ hs addr, y.peer.currentKeypair = some (sessionKeypair c hs addr env.now) ∧
      hs.state = .responseConsumed ∧ hs.localIndex = msg.receiver ∧ hs.remoteIndex = msg.sender ∧
      ∃ key input hash p, hs.chainKey = (wgKdf3 c key input).1 ∧
        c.aeadDecrypt (wgKdf3 c key input).2.2 zeroNonce msg.emptyEnc hash = some p := by
  unfold responseTaken at h
  have hinv' : DeviceInv (dev.validateMacs c env src msg.beforeMac1 msg.mac1 msg.mac2).1 :=
    { hinv with }
  generalize dev.validateMacs c env src msg.beforeMac1 msg.mac1 msg.mac2 = v at h hinv'
  simp only at h
  split_ifs at h
  obtain ⟨peer, hconsume, rfl⟩ := Option.map_eq_some_iff.1 h
  rw [noiseConsumeResponse_eq_open] at hconsume
  obtain ⟨p, htarget, hp⟩ := Option.bind_eq_some_iff.1 hconsume
  split_ifs at hp
  obtain ⟨o, hopen, rfl⟩ := Option.map_eq_some_iff.1 hp
  obtain ⟨-, hlocal, -⟩ := hinv'.responseTarget htarget
  rw [noiseBeginSession_eq (Or.inl rfl), rotated_initiator rfl]
  simp only [openResponse, Option.bind_eq_some_iff] at hopen
  obtain ⟨ee, -, se, -, hopen⟩ := hopen
  obtain ⟨plain, hdecrypt, rfl⟩ := Option.map_eq_some_iff.1 hopen
  exact ⟨_, _, rfl, rfl, hlocal, rfl, _, _, _, plain, rfl, hdecrypt⟩

end Handlers

/-! ### The responses that a call sends -/

/-- The response in a datagram. -/
def Datagram.asResponse : Datagram → Option MsgResponse
  | .response msg => some msg
  | _ => none

/-- The responses among the datagrams that were sent. -/
def responses (sent : List (Endpoint × Datagram)) : List MsgResponse :=
  sent.filterMap fun m => m.2.asResponse

section Responses

variable {c : Crypto} {env : Env} {x y : Ctx} {dev : Device}

theorem responses_udpSend {ep : Endpoint} {d : Datagram} (hd : d.asResponse = none) :
    responses (x.udpSend env ep d).sent = responses x.sent := by
  rw [sent_udpSend]
  split_ifs
  · simp [responses, hd]
  · simp

theorem responses_deviceInitiateHandshakeInner (force : Bool) :
    responses (deviceInitiateHandshakeInner c env x force).1.sent = responses x.sent := by
  simp only [deviceInitiateHandshakeInner]
  split_ifs
  · rfl
  · set y := x.setHandshake { x.peer.handshake with lastSentHandshakeMs := env.now }
    have hcreate : (noiseCreateInitiation c env y).1.sent = x.sent := sent_noiseCreateInitiation
    split
    next z hz => rw [← hcreate, hz]
    next z msg hz =>
      rw [hz] at hcreate
      split
      · rw [← hcreate]
      · rw [sent_timersHandshakeInitiated, responses_udpSend rfl, ← hcreate]

theorem responses_timersHandshakeBegin :
    responses (timersHandshakeBegin c env x).sent = responses x.sent := by
  unfold timersHandshakeBegin
  split_ifs
  · rfl
  · exact responses_deviceInitiateHandshakeInner false
  · rfl

theorem responses_deviceSendCounted {kp : Keypair} {pkt : List Byte} :
    responses (deviceSendCounted c env x kp pkt).sent = responses x.sent := by
  have hbegin : ∀ y : Ctx, responses
      (if rekeyAfterMessages ≤ kp.sendNonce then timersHandshakeBegin c env y else y).sent =
        responses y.sent := by
    intro y
    split_ifs
    · exact responses_timersHandshakeBegin
    · rfl
  simp only [deviceSendCounted]
  by_cases hreject : rejectAfterMessages ≤ kp.sendNonce
  · rw [if_pos hreject]
    exact responses_timersHandshakeBegin
  · rw [if_neg hreject]
    rw [← hbegin x]
    generalize (if rekeyAfterMessages ≤ kp.sendNonce then timersHandshakeBegin c env x else x) = y
    cases y.peer.endpoint with
    | none => rfl
    | some ep =>
      simp only
      rw [hbegin]
      exact responses_udpSend rfl

theorem responses_deviceSendToPeer (pkt : List Byte) :
    responses (deviceSendToPeer c env x pkt).sent = responses x.sent := by
  unfold deviceSendToPeer
  split_ifs
  · rfl
  · split
    · exact responses_deviceInitiateHandshakeInner false
    · split_ifs
      · exact responses_timersHandshakeBegin
      · exact responses_deviceSendCounted

/-- The loop sends no response. -/
theorem responses_flushStaged {fuel : ℕ} {ps : List (List Byte)}
    (h : flushStaged c env fuel x = some (y, ps)) : responses y.sent = responses x.sent := by
  induction fuel generalizing x ps with
  | zero =>
    rw [flushStaged] at h
    split_ifs at h
    cases h
    rfl
  | succ fuel ih =>
    rw [flushStaged] at h
    split_ifs at h
    · obtain ⟨⟨z, qs⟩, hz, heq⟩ := Option.map_eq_some_iff.1 h
      cases heq
      rw [ih hz, responses_deviceSendToPeer]
    · cases h
      rfl

theorem responses_responderComplete {fuel : ℕ} (h : responderComplete c env fuel x = some y) :
    responses y.sent = responses x.sent := by
  obtain ⟨⟨z, ps⟩, hflush, rfl⟩ := Option.map_eq_some_iff.1 h
  have hsame := responses_flushStaged hflush
  exact hsame

theorem responses_initiatorComplete {fuel : ℕ} (h : initiatorComplete c env fuel x = some y) :
    responses y.sent = responses x.sent := by
  unfold initiatorComplete at h
  split at h
  · cases h
  next z flushed hflush =>
    cases h
    rw [← responses_flushStaged hflush]
    split_ifs
    · exact responses_deviceSendToPeer []
    · rfl

theorem sent_noiseBeginSession (c : Crypto) (env : Env) (x : Ctx) :
    (noiseBeginSession c env x).1.sent = x.sent := by
  simp only [noiseBeginSession]
  split_ifs <;> rfl

theorem sent_noiseCreateResponse (c : Crypto) (env : Env) (x : Ctx) :
    (noiseCreateResponse c env x).1.sent = x.sent := by
  simp only [noiseCreateResponse]
  split_ifs
  · rfl
  · rfl
  · split
    · rfl
    · split <;> rfl

theorem sent_transportDeliver (src : Endpoint) (addr len : ℕ) (p : List Byte) :
    (transportDeliver env x src addr len p).sent = x.sent := by
  have hpromote : ∀ z : Ctx, (promoteNext z addr).sent = z.sent := by
    intro z
    unfold promoteNext
    split
    · split_ifs <;> rfl
    · rfl
  unfold transportDeliver
  cases transportPlaintextLen p with
  | none => rfl
  | some ptlen =>
    simp only
    split_ifs <;> exact hpromote _

theorem responses_timerCallback (kind : TimerKind) :
    responses (timerCallback c env x kind).sent = responses x.sent := by
  cases kind with
  | retransmitHandshake =>
    simp only [timerCallback, cbRetransmitHandshake]
    split_ifs
    · unfold timersZeroKeyMaterial
      split_ifs <;> rfl
    · exact responses_deviceInitiateHandshakeInner true
  | sendKeepalive =>
    simp only [timerCallback, cbSendKeepalive]
    split_ifs <;> exact responses_deviceSendToPeer []
  | newHandshake => exact responses_deviceInitiateHandshakeInner false
  | zeroKeyMaterial => rfl
  | persistentKeepalive =>
    simp only [timerCallback, cbPersistentKeepalive]
    split_ifs <;> exact responses_deviceSendToPeer []

/-- A handler of an initiation that does not answer it sends no response. -/
theorem responses_not_answered {fuel : ℕ} {src : Endpoint} {msg : MsgInitiation} {r : Handled}
    (ha : initiationAnswered c env dev src msg = none)
    (hr : handleInitiation c env fuel dev src msg = some r) : responses r.sent = [] := by
  rw [handleInitiation_eq] at hr
  unfold initiationAnswered at ha
  generalize dev.validateMacs c env src msg.beforeMac1 msg.mac1 msg.mac2 = v at ha hr
  obtain ⟨dev', macRet⟩ := v
  cases macRet with
  | invalid =>
    cases hr
    rfl
  | needCookie =>
    cases hr
    simp only
    split_ifs <;> rfl
  | valid =>
    simp only [ne_eq, not_true_eq_false, if_false] at ha hr
    cases hconsume : noiseConsumeInitiation c env dev' msg with
    | none =>
      rw [hconsume] at hr
      cases hr
      rfl
    | some peer =>
      simp only [hconsume, Option.bind_some, answerInitiation] at ha hr
      have hsent := sent_noiseCreateResponse c env
        (Ctx.start dev' { peer with endpoint := some src })
      split at ha
      next z hz =>
        rw [hz] at hr hsent
        cases hr
        show responses z.sent = []
        rw [hsent]
        rfl
      · cases ha

/-- Taking a response sends none. -/
theorem responses_responseTaken {msg : MsgResponse} (h : responseTaken c env dev src msg = some y) :
    responses y.sent = [] := by
  unfold responseTaken at h
  generalize dev.validateMacs c env src msg.beforeMac1 msg.mac1 msg.mac2 = v at h
  obtain ⟨dev', macRet⟩ := v
  simp only at h
  split_ifs at h
  obtain ⟨peer, -, rfl⟩ := Option.map_eq_some_iff.1 h
  rw [sent_noiseBeginSession]
  rfl

/-- The response that the handling of a datagram sends belongs to a session that it has started. -/
theorem responses_onUdpRecv {fuel : ℕ} {src : Endpoint} {d : Datagram} {r : Handled}
    (hr : onUdpRecv c env fuel dev src d = some r) {resp : MsgResponse}
    (hresp : resp ∈ responses r.sent) :
    ∃ msg y, d = .initiation msg ∧ initiationAnswered c env dev src msg = some (y, resp) := by
  cases d with
  | initiation msg =>
    refine ⟨msg, ?_⟩
    cases ha : initiationAnswered c env dev src msg with
    | none =>
      rw [responses_not_answered ha hr] at hresp
      cases hresp
    | some a =>
      obtain ⟨y, resp'⟩ := a
      have hhandle := (handleInitiation_answered fuel ha).symm.trans hr
      obtain ⟨z, hz, rfl⟩ := Option.map_eq_some_iff.1 hhandle
      have hsent : responses z.sent = responses y.sent := responses_responderComplete hz
      have hresp' : resp ∈ responses z.sent := hresp
      rw [hsent, (initiationAnswered_session ha).1] at hresp'
      split_ifs at hresp'
      · have heq : resp = resp' := List.mem_singleton.1 hresp'
        exact ⟨y, rfl, by rw [heq]⟩
      · cases hresp'
  | response msg =>
    have hnone : responses r.sent = [] := by
      cases ha : responseTaken c env dev src msg with
      | none =>
        rw [onUdpRecv, handleResponse_eq] at hr
        unfold responseTaken at ha
        generalize dev.validateMacs c env src msg.beforeMac1 msg.mac1 msg.mac2 = v at hr ha
        simp only at hr ha
        split_ifs at hr ha
        · cases hr
          rfl
        · rw [Option.map_eq_none_iff.1 ha] at hr
          cases hr
          rfl
      | some y =>
        have hhandle := (handleResponse_taken ha).symm.trans hr
        obtain ⟨z, hz, rfl⟩ := Option.map_eq_some_iff.1 hhandle
        exact (responses_initiatorComplete hz).trans (responses_responseTaken ha)
    rw [hnone] at hresp
    cases hresp
  | cookieReply msg =>
    cases hr
    cases hresp
  | transport msg =>
    cases hr
    have hnone : (handleTransport c env dev src msg).sent = [] := by
      unfold handleTransport
      split_ifs
      · rfl
      · split
        · rfl
        · split_ifs
          · rfl
          · split
            · rfl
            · split
              · rfl
              · exact sent_transportDeliver _ _ _ _
    rw [hnone] at hresp
    cases hresp

theorem responses_call {addr : ℕ} {f : Ctx → Ctx}
    (hf : ∀ x, responses (f x).sent = responses x.sent) :
    responses (dev.call addr f).sent = [] := by
  unfold Device.call
  split
  · rfl
  · exact hf _

/-- No other step sends a response. -/
theorem responses_deviceStep {e : DeviceEvent} (he : ∀ env fuel src d, e ≠ .recv env fuel src d) :
    responses (deviceStep c dev e).sent = [] := by
  cases e with
  | recv env fuel src d => exact absurd rfl (he env fuel src d)
  | send env addr pkt => exact responses_call fun x => responses_deviceSendToPeer pkt
  | initiate env addr force =>
    exact responses_call fun x => responses_deviceInitiateHandshakeInner force
  | timer env addr kind =>
    apply responses_call
    intro x
    split_ifs
    · exact responses_timerCallback kind
    · rfl
  | setPrivateKey priv => rfl
  | addPeer pk => rfl
  | removePeer addr =>
    simp only [deviceStep]
    split <;> rfl
  | removeAllPeers => rfl

end Responses

/-! ### Two devices -/

/-- Two devices, and the responses that each has sent so far.  A device whose loop over the staged
packets does not come to an end is gone. -/
structure Link where
  dev : Side → Option Device
  responses : Side → List MsgResponse

/-- What can happen. -/
inductive LinkEvent
  /-- A step of one of the devices, other than the arrival of a response. -/
  | step (s : Side) (e : DeviceEvent)
  /-- The response at position `n` of those that the other device has sent arrives at `s`. -/
  | deliver (s : Side) (env : Env) (fuel : ℕ) (src : Endpoint) (n : ℕ)
  /-- The preshared key of a peer of `s` is configured. -/
  | setPsk (s : Side) (addr : ℕ) (psk : List Byte)

/-- The `preshared_key` of the peer at an address. -/
def Device.setPsk (dev : Device) (addr : ℕ) (psk : List Byte) : Device :=
  { dev with peers := dev.peers.map fun p =>
      if p.addr = addr then { p with handshake := { p.handshake with psk := psk } } else p }

/-- The outcome of a step of `s`: its device and the responses sent. -/
def Link.after (l : Link) (s : Side) (dev : Option Device) (sent : List MsgResponse) : Link where
  dev := Function.update l.dev s dev
  responses := Function.update l.responses s (l.responses s ++ sent)

section Link

variable (c : Crypto)

/-- The responses that the handling of a datagram has sent when it does not come to an end. -/
def sentBeforeLoop (env : Env) (dev : Device) (src : Endpoint) : Datagram → List MsgResponse
  | .initiation msg =>
    if env.udpOk then (initiationAnswered c env dev src msg).toList.map Prod.snd else []
  | _ => []

/-- A datagram arrives at the device of `s`. -/
def Link.receive (l : Link) (s : Side) (dev : Device) (env : Env) (fuel : ℕ) (src : Endpoint)
    (d : Datagram) : Link :=
  match onUdpRecv c env fuel dev src d with
  | some r => l.after s (some r.dev) (Wgx.responses r.sent)
  | none => l.after s none (sentBeforeLoop c env dev src d)

/-- The link after an event. -/
def Link.step (l : Link) : LinkEvent → Link
  | .step s e =>
    match l.dev s, e with
    | none, _ => l
    | some _, .recv _ _ _ (.response _) => l
    | some dev, .recv env fuel src d => l.receive c s dev env fuel src d
    | some dev, e => l.after s (some (deviceStep c dev e).dev) (Wgx.responses (deviceStep c dev e).sent)
  | .deliver s env fuel src n =>
    match l.dev s, (l.responses s.other)[n]? with
    | some dev, some msg => l.receive c s dev env fuel src (.response msg)
    | _, _ => l
  | .setPsk s addr psk => { l with dev := Function.update l.dev s ((l.dev s).map (·.setPsk addr psk)) }

/-- The link after the events `es`, from two devices that have just been started. -/
def linkRun (es : List LinkEvent) : Link :=
  Machine.run (Link.step c) ⟨fun _ => some (deviceInit c), fun _ => []⟩ es

/-- The response and the keypair of the session that the event starts at the device of `s`, which
takes an initiation. -/
def Link.responderSession (l : Link) (s : Side) : LinkEvent → Option (MsgResponse × Keypair)
  | .step t (.recv env _ src (.initiation msg)) =>
    if t = s then
      (l.dev s).bind fun dev => (initiationAnswered c env dev src msg).bind fun a =>
        a.1.peer.nextKeypair.map fun kp => (a.2, kp)
    else none
  | _ => none

/-- The response and the keypair of the session that the event starts at the device of `s`, which
takes a response. -/
def Link.initiatorSession (l : Link) (s : Side) : LinkEvent → Option (MsgResponse × Keypair)
  | .deliver t env _ src n =>
    if t = s then
      (l.dev s).bind fun dev => ((l.responses s.other)[n]?).bind fun msg =>
        (responseTaken c env dev src msg).bind fun y =>
          y.peer.currentKeypair.map fun kp => (msg, kp)
    else none
  | _ => none

variable {c} {l : Link} {s t : Side} {dev : Device} {env : Env} {fuel : ℕ} {src : Endpoint}

theorem Link.after_dev (o : Option Device) (sent : List MsgResponse) :
    (l.after t o sent).dev s = if s = t then o else l.dev s := by
  simp [Link.after, Function.update_apply]

theorem Link.after_responses (o : Option Device) (sent : List MsgResponse) :
    (l.after t o sent).responses s =
      if s = t then l.responses t ++ sent else l.responses s := by
  simp [Link.after, Function.update_apply]

theorem mem_after {o : Option Device} {sent : List MsgResponse} {resp : MsgResponse}
    (h : resp ∈ (l.after t o sent).responses s) :
    resp ∈ l.responses s ∨ s = t ∧ resp ∈ sent := by
  rw [Link.after_responses] at h
  split_ifs at h with hst
  · rcases List.mem_append.1 h with h | h
    · exact Or.inl (hst ▸ h)
    · exact Or.inr ⟨hst, h⟩
  · exact Or.inl h

/-- What a device has sent when a datagram has arrived answers an initiation. -/
theorem mem_receive {d : Datagram} {resp : MsgResponse}
    (h : resp ∈ (l.receive c t dev env fuel src d).responses s) :
    resp ∈ l.responses s ∨ s = t ∧
      ∃ msg y, d = .initiation msg ∧ initiationAnswered c env dev src msg = some (y, resp) := by
  unfold Link.receive at h
  split at h
  next r hr =>
    rcases mem_after h with h | ⟨hst, h⟩
    · exact Or.inl h
    · exact Or.inr ⟨hst, responses_onUdpRecv hr h⟩
  · rcases mem_after h with h | ⟨hst, h⟩
    · exact Or.inl h
    · cases d with
      | initiation msg =>
        simp only [sentBeforeLoop] at h
        split_ifs at h
        · obtain ⟨⟨y, resp'⟩, hmem, rfl⟩ := List.mem_map.1 h
          exact Or.inr ⟨hst, msg, y, rfl, Option.mem_toList.1 hmem⟩
        · cases h
      | response msg => cases h
      | cookieReply msg => cases h
      | transport msg => cases h

/-- A response that a step adds comes with the session that the step starts. -/
theorem mem_step {e : LinkEvent} {resp : MsgResponse} (h : resp ∈ (l.step c e).responses s) :
    resp ∈ l.responses s ∨ ∃ kp, l.responderSession c s e = some (resp, kp) := by
  cases e with
  | step t e =>
    simp only [Link.step] at h
    split at h
    · exact Or.inl h
    · exact Or.inl h
    next dev env fuel src d hne hdev =>
      rcases mem_receive h with h | ⟨rfl, msg, y, rfl, ha⟩
      · exact Or.inl h
      · obtain ⟨-, hs, addr, hkp, -⟩ := initiationAnswered_session ha
        right
        simp only [Link.responderSession, if_true, hdev, Option.bind_some, ha, hkp, Option.map_some]
        exact ⟨_, rfl⟩
    next dev hdev hne hrecv =>
      rcases mem_after h with h | ⟨-, h⟩
      · exact Or.inl h
      · rw [responses_deviceStep hrecv] at h
        cases h
  | deliver t env fuel src n =>
    simp only [Link.step] at h
    split at h
    · rcases mem_receive h with h | ⟨-, msg, y, hd, -⟩
      · exact Or.inl h
      · cases hd
    · exact Or.inl h
  | setPsk t addr psk => exact Or.inl h

/-- Every response that was sent came with a session. -/
theorem mem_linkRun {es : List LinkEvent} {resp : MsgResponse}
    (h : resp ∈ (linkRun c es).responses s) :
    ∃ es₁ e es₂ kp, es = es₁ ++ e :: es₂ ∧
      (linkRun c es₁).responderSession c s e = some (resp, kp) := by
  induction es using List.reverseRecOn with
  | nil => cases h
  | append_singleton es e ih =>
    have hrun : linkRun c (es ++ [e]) = (linkRun c es).step c e := Machine.run_snoc _ _ _ _
    rw [hrun] at h
    rcases mem_step h with h | ⟨kp, hkp⟩
    · obtain ⟨es₁, e', es₂, kp, rfl, hkp⟩ := ih h
      exact ⟨es₁, e', es₂ ++ [e], kp, by simp, hkp⟩
    · exact ⟨es, e, [], kp, rfl, hkp⟩

/-- The devices of the link keep their invariant. -/
def Link.Inv (l : Link) : Prop := ∀ s dev, l.dev s = some dev → DeviceInv dev

theorem Link.Inv.after (h : l.Inv) {o : Option Device} {sent : List MsgResponse}
    (ho : ∀ dev, o = some dev → DeviceInv dev) : (l.after t o sent).Inv := by
  intro s dev hdev
  rw [Link.after_dev] at hdev
  split_ifs at hdev
  · exact ho dev hdev
  · exact h s dev hdev

theorem Link.Inv.receive (h : l.Inv) (hdev : DeviceInv dev) (d : Datagram) :
    (l.receive c t dev env fuel src d).Inv := by
  unfold Link.receive
  split
  next r hr =>
    apply h.after
    intro dev' heq
    cases heq
    exact hdev.touched (touched_onUdpRecv hdev hr)
  · apply h.after
    intro dev' heq
    cases heq

theorem DeviceInv.setPsk (h : DeviceInv dev) (addr : ℕ) (psk : List Byte) :
    DeviceInv (dev.setPsk addr psk) := by
  refine h.map_peers (f := fun p => if p.addr = addr then
    { p with handshake := { p.handshake with psk := psk } } else p) ?_ ?_ rfl rfl rfl
  · intro p
    split_ifs <;> rfl
  · intro p
    split_ifs <;> rfl

theorem Link.Inv.step (h : l.Inv) (e : LinkEvent) : (l.step c e).Inv := by
  cases e with
  | step t e =>
    simp only [Link.step]
    split
    · exact h
    · exact h
    next dev env fuel src d hne hdev => exact h.receive (h t dev hdev) d
    next dev hdev hne hrecv =>
      apply h.after
      intro dev' heq
      cases heq
      exact (h t dev hdev).step _
  | deliver t env fuel src n =>
    simp only [Link.step]
    split
    next dev msg hdev hmsg => exact h.receive (h t dev hdev) _
    · exact h
  | setPsk t addr psk =>
    intro s dev hdev
    simp only [Link.step, Function.update_apply] at hdev
    split_ifs at hdev with hst
    · obtain ⟨dev', hdev', rfl⟩ := Option.map_eq_some_iff.1 hdev
      exact (h t dev' hdev').setPsk addr psk
    · exact h s dev hdev

theorem responderSession_eq_some {e : LinkEvent} {resp : MsgResponse} {kp : Keypair}
    (h : l.responderSession c s e = some (resp, kp)) :
    ∃ env dev src msg y, initiationAnswered c env dev src msg = some (y, resp) ∧
      y.peer.nextKeypair = some kp := by
  unfold Link.responderSession at h
  split at h
  next t env fuel src msg =>
    split_ifs at h
    simp only [Option.bind_eq_some_iff] at h
    obtain ⟨dev, -, ⟨y, resp'⟩, ha, h⟩ := h
    obtain ⟨kp', hkp, heq⟩ := Option.map_eq_some_iff.1 h
    cases heq
    exact ⟨env, dev, src, msg, y, ha, hkp⟩
  · cases h

theorem inv_linkRun (c : Crypto) (es : List LinkEvent) : (linkRun c es).Inv := by
  have hstep : ∀ l e, Link.Inv l → Link.Inv (l.step c e) := fun l e hl => hl.step e
  refine Machine.run_induction' _ hstep ?_ es
  intro s dev hdev
  cases hdev
  exact deviceInv_deviceInit c

end Link

/-- **Session agreement under any schedule.**  After any run of the two devices, whenever one of
them takes a response of the other and starts a session with the keypair `k`, the other has made
this very response in an earlier step, and the keypair it put into its next slot in that step
mirrors `k`. -/
theorem session_agreement (c : Crypto) (haead : c.AeadIdeal) (hkdf : c.KdfInjective)
    (es : List LinkEvent) (s : Side) (e : LinkEvent) (resp : MsgResponse) (k : Keypair)
    (h : (linkRun c es).initiatorSession c s e = some (resp, k)) :
    ∃ es₁ e' es₂ k', es = es₁ ++ e' :: es₂ ∧
      (linkRun c es₁).responderSession c s.other e' = some (resp, k') ∧
      k'.recvKey = k.sendKey ∧ k'.sendKey = k.recvKey ∧
      k'.localIndex = k.remoteIndex ∧ k'.remoteIndex = k.localIndex := by
  cases e with
  | step t e => cases h
  | setPsk t addr psk => cases h
  | deliver t env fuel src n =>
    simp only [Link.initiatorSession] at h
    split_ifs at h
    simp only [Option.bind_eq_some_iff] at h
    obtain ⟨dev, hdev, msg, hmsg, y, htaken, h⟩ := h
    obtain ⟨kp, hkp, heq⟩ := Option.map_eq_some_iff.1 h
    cases heq
    obtain ⟨hsA, addrA, hcur, hstateA, hlocalA, hremoteA, keyA, inputA, hashA, plain, hckA, hopen⟩ :=
      responseTaken_session (inv_linkRun c es s dev hdev) htaken
    obtain rfl : k = sessionKeypair c hsA addrA env.now := Option.some.inj (hkp.symm.trans hcur)
    obtain ⟨es₁, e', es₂, k', hsplit, hk'⟩ := mem_linkRun (List.mem_of_getElem? hmsg)
    refine ⟨es₁, e', es₂, k', hsplit, hk', ?_⟩
    obtain ⟨env', dev', src', init, z, hanswered, hnext⟩ := responderSession_eq_some hk'
    obtain ⟨-, hsB, addrB, hsession, hstateB, hlocalB, hremoteB, keyB, inputB, hashB, hckB, hempty⟩ :=
      initiationAnswered_session hanswered
    obtain rfl : k' = sessionKeypair c hsB addrB env'.now :=
      Option.some.inj (hnext.symm.trans hsession)
    -- the field opens under the key it was sealed with only, so the chain keys are the same
    rw [hempty] at hopen
    obtain ⟨hkey, -, -⟩ := haead _ _ _ _ _ _ _ _ hopen
    have hck : hsA.chainKey = hsB.chainKey := by
      rw [hckA, hckB, hkdf _ _ _ _ hkey]
    obtain ⟨h1, h2, h3, h4⟩ := mirrors_sessionKeypair c hstateA hstateB hck
      (hremoteA.trans hlocalB.symm) (hremoteB.trans hlocalA.symm) addrA addrB env.now env'.now
    exact ⟨h1.symm, h2.symm, h3.symm, h4⟩

/-! ### An instance -/

/-- A byte string in a form that shows where it ends. -/
def delimited (l : List Byte) : List Byte := l.flatMap (fun b => [1, b]) ++ [0]

theorem delimited_append_inj {a b u v : List Byte} (h : delimited a ++ u = delimited b ++ v) :
    a = b ∧ u = v := by
  induction a generalizing b with
  | nil =>
    cases b with
    | nil => exact ⟨rfl, by simpa [delimited] using h⟩
    | cons y b => simp [delimited] at h
  | cons x a ih =>
    cases b with
    | nil => simp [delimited] at h
    | cons y b =>
      have htail : x = y ∧ delimited a ++ u = delimited b ++ v := by
        simpa [delimited] using h
      obtain ⟨rfl, htail⟩ := htail
      obtain ⟨rfl, rfl⟩ := ih htail
      exact ⟨rfl, rfl⟩

/-- What a ciphertext of the instance starts with. -/
def sealTag (key nonce aad : List Byte) : List Byte :=
  delimited key ++ (delimited nonce ++ delimited aad)

/-- An instance in which a ciphertext shows its key, nonce and associated data, and a hash is the sum
of the first and the last byte. -/
def sealCrypto : Crypto where
  blake2s outlen data key :=
    List.replicate outlen ((data ++ key).headD 0 + (data ++ key).getLastD 0 + 7)
  scalarmultBase priv := priv
  scalarmult priv pub := some (1 :: List.zipWith (· + ·) priv pub)
  aeadEncrypt key nonce plaintext aad := sealTag key nonce aad ++ plaintext
  aeadDecrypt key nonce ciphertext aad :=
    if (sealTag key nonce aad).isPrefixOf ciphertext then
      some (ciphertext.drop (sealTag key nonce aad).length)
    else none
  xaeadEncrypt key nonce plaintext aad := sealTag key nonce aad ++ plaintext
  xaeadDecrypt key nonce ciphertext aad :=
    if (sealTag key nonce aad).isPrefixOf ciphertext then
      some (ciphertext.drop (sealTag key nonce aad).length)
    else none

theorem sealCrypto_aead : sealCrypto.AeadIdeal := by
  intro key nonce plaintext aad key' nonce' aad' p h
  simp only [sealCrypto] at h
  split_ifs at h with hprefix
  obtain ⟨rest, hrest⟩ := List.isPrefixOf_iff_prefix.1 hprefix
  simp only [sealTag, List.append_assoc] at hrest
  obtain ⟨hkey, hrest⟩ := delimited_append_inj hrest
  obtain ⟨hnonce, hrest⟩ := delimited_append_inj hrest
  exact ⟨hkey, hnonce, (delimited_append_inj hrest).1⟩

theorem sealCrypto_hmac (key in0 in1 : List Byte) :
    ∃ b, wgHmacBlake2s sealCrypto key in0 in1 = List.replicate 32 b := ⟨_, rfl⟩

/-- With a key of equal bytes the instance adds the last byte of the input to what the key gives. -/
theorem sealCrypto_hmac_replicate (b : Byte) (in0 : List Byte) (last : Byte) :
    wgHmacBlake2s sealCrypto (List.replicate 32 b) in0 [last] =
      List.replicate 32 ((b ^^^ 0x5c#8) + ((b ^^^ 0x36#8) + last + 7) + 7) := by
  have hlast : ∀ l : List Byte, (l ++ [last]).getLastD 0 = last := by
    intro l
    simp
  have hcat : ∀ l : List Byte, (l ++ in0 ++ [last]) ++ [] = (l ++ in0) ++ [last] := by simp
  simp only [wgHmacBlake2s, sealCrypto, hcat, hlast]
  rfl

theorem sealCrypto_kdf : sealCrypto.KdfInjective := by
  intro key input key' input' h
  obtain ⟨a, ha⟩ := sealCrypto_hmac key input []
  obtain ⟨b, hb⟩ := sealCrypto_hmac key' input' []
  have hfirst : ∀ x : Byte, wgHmacBlake2s sealCrypto (List.replicate 32 x) [0x01#8] [] =
      List.replicate 32 ((x ^^^ 0x5c#8) + ((x ^^^ 0x36#8) + 0x01#8 + 7) + 7) :=
    fun x => sealCrypto_hmac_replicate x [] 0x01#8
  simp only [wgKdf3, ha, hb, hfirst, sealCrypto_hmac_replicate] at h ⊢
  have hsum := (List.replicate_right_inj (by decide)).1 h
  have hmix : (a ^^^ 0x5c#8) + (a ^^^ 0x36#8) = (b ^^^ 0x5c#8) + (b ^^^ 0x36#8) := by
    bv_omega
  have hout : ∀ k : Byte, (a ^^^ 0x5c#8) + ((a ^^^ 0x36#8) + k + 7) + 7 =
      (b ^^^ 0x5c#8) + ((b ^^^ 0x36#8) + k + 7) + 7 := by
    intro k
    bv_omega
  rw [hout, hout, hout]

/-- Where the datagrams of the instance come from. -/
def linkSrc : Endpoint := .v4 #v[10#8, 0#8, 0#8, 1#8] 51820

/-- Both devices are configured with each other, and the one of `A` has initiated a handshake. -/
def linkSetup : List LinkEvent :=
  [.step .A (.setPrivateKey (List.replicate 32 1)), .step .A (.addPeer (List.replicate 32 2)),
    .step .B (.setPrivateKey (List.replicate 32 2)), .step .B (.addPeer (List.replicate 32 1)),
    .step .A (.initiate (toyEnv 5) 1 true)]

/-- The initiation that the device of `A` has made. -/
def linkInitiation : MsgInitiation :=
  match (linkRun sealCrypto (linkSetup.take 4)).dev .A with
  | some dev =>
    match dev.peers with
    | peer :: _ =>
      ((noiseCreateInitiation sealCrypto (toyEnv 5) (Ctx.start dev peer)).2).getD
        (decodeInitiation [])
    | [] => decodeInitiation []
  | none => decodeInitiation []

theorem session_agreement_link :
    ∃ resp k, (linkRun sealCrypto (linkSetup ++
        [.step .B (.recv (toyEnv 6) 0 linkSrc (.initiation linkInitiation))])).initiatorSession
          sealCrypto .A (.deliver .A (toyEnv 7) 0 linkSrc 0) = some (resp, k) ∧
      ∃ es₁ e' es₂ k', linkSetup ++
          [.step .B (.recv (toyEnv 6) 0 linkSrc (.initiation linkInitiation))] =
            es₁ ++ e' :: es₂ ∧
        (linkRun sealCrypto es₁).responderSession sealCrypto .B e' = some (resp, k') ∧
        k'.recvKey = k.sendKey ∧ k'.sendKey = k.recvKey ∧
        k'.localIndex = k.remoteIndex ∧ k'.remoteIndex = k.localIndex := by
  have hsome : ((linkRun sealCrypto (linkSetup ++
      [.step .B (.recv (toyEnv 6) 0 linkSrc (.initiation linkInitiation))])).initiatorSession
        sealCrypto .A (.deliver .A (toyEnv 7) 0 linkSrc 0)).isSome = true := by
    decide +kernel
  obtain ⟨⟨resp, k⟩, h⟩ := Option.isSome_iff_exists.1 hsome
  exact ⟨resp, k, h, session_agreement sealCrypto sealCrypto_aead sealCrypto_kdf _ .A _ resp k h⟩

end Wgx
