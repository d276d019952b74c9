import Wgx.Device.Reconfigured

/-!
# The turns of a peer

What each turn of a peer does to its clocks (`Turned`), and the life of a peer as a sequence of such
turns (`Lives`).  `turn_or_reconfigured` says once what an event can do to a device; every timing
rule is then a statement about `Lives`.

* `Clocks.beginSession`, `Clocks.completeHandshake`, `Clocks.dataReceived`,
  `Clocks.keepaliveReceived`: the rest of the operations;
* `Turned`: what a turn does;
* `turn_or_reconfigured`: an event is a turn of one peer or a change of the configuration;
* `lives_history`: the history of a peer is a life.
-/

namespace Wgx

/-! ### Operations -/

/-- The keypair comes from a session that just began. -/
structure Keypair.Fresh (env : Env) (kp : Keypair) : Prop where
  created : kp.createdAtMs = env.now
  unused : kp.sendNonce = 0

/-- `noise_begin_session`: the handshake is cleared and the keypairs are rotated. -/
def Clocks.beginSession (k : Clocks) (kp : Keypair) : Clocks :=
  { k with
    lastSentHandshakeMs := 0
    currentKeypair := if kp.isInitiator then some kp else k.currentKeypair
    nextKeypair := if kp.isInitiator then none else some kp
    prevKeypair := if kp.isInitiator then k.nextKeypair.or k.currentKeypair else none }

/-- `timers_handshake_complete`. -/
def Clocks.completeHandshake (env : Env) (k : Clocks) : Clocks :=
  if k.timers.active then
    let k := (k.setTimer .retransmitHandshake none).setTimer .newHandshake
      (uvTimerStart env rekeyAfterTimeMs)
    k.setTimer .zeroKeyMaterial (uvTimerStart env (rejectAfterTimeMs * 3))
  else k

/-- `timers_data_received`. -/
def Clocks.dataReceived (env : Env) (k : Clocks) : Clocks :=
  if k.timers.active then
    if k.timers.sendKeepalive.isNone then k.startTimer env .sendKeepalive keepaliveTimeoutMs
    else { k with needAnotherKeepalive := true }
  else k

/-- `timers_keepalive_received`. -/
def Clocks.keepaliveReceived (k : Clocks) : Clocks :=
  if k.timers.active then k.setTimer .sendKeepalive none else k

/-- `cb_zero_key_material`. -/
def Clocks.zeroKeyMaterial (k : Clocks) : Clocks :=
  { k with
    lastSentHandshakeMs := 0, currentKeypair := none, nextKeypair := none, prevKeypair := none }

/-- What an accepted initiation notes down. -/
def Clocks.consumed (env : Env) (timestamp : List Byte) (k : Clocks) : Clocks :=
  { k with
    lastTimestamp := timestamp
    lastInitiationConsumptionMs :=
      if k.lastInitiationConsumptionMs < env.now then env.now else k.lastInitiationConsumptionMs }

/-- The clocks are the same but for the keypairs. -/
def Clocks.SameButKeypairs (k k' : Clocks) : Prop :=
  ∃ cur next prev,
    k' = { k with currentKeypair := cur, nextKeypair := next, prevKeypair := prev }

/-- The keypair in the current slot is too old or too much used for the staged packets. -/
def Peer.Stale (env : Env) (p : Peer) : Prop :=
  ∃ kp, p.currentKeypair = some kp ∧
    ¬ (kp.Young env ∧ kp.sendNonce.toNat + p.staged.count ≤ rekeyAfterMessages.toNat)

/-! ### Turns -/

section Turned

variable (c : Crypto) (env : Env) (p : Peer)

/-- The clocks that a turn finds. -/
def Peer.found : Clocks := p.clocks []

/-- A call of `device_send_to_peer` on a packet. -/
def SentPacket (pkt : List Byte) (k k' : Clocks) : Prop :=
  Sends c env (¬ k.Calm env 1) (fun q => q = pkt ∧ p.CanSeal env) k k'

/-- A call of `device_initiate_handshake` or `device_initiate_handshake_force`. -/
def InitiatedHandshake (force : Bool) (k k' : Clocks) : Prop :=
  (force = false ∧ (env.now - k.lastSentHandshakeMs).toNat < rekeyTimeoutMs ∧ k' = k) ∨
    ((force = true ∨ rekeyTimeoutMs ≤ (env.now - k.lastSentHandshakeMs).toNat) ∧
      HandshakeBegun env k k')

/-- The callback of a timer, which is stopped already. -/
def CalledBack (k k' : Clocks) : TimerKind → Prop
  | .retransmitHandshake =>
    k' = (k.setTimer .retransmitHandshake none).startTimer env .zeroKeyMaterial 0 ∨
      ∃ k1 jitter, HandshakeBegun env k k1 ∧
        k' = k1.setTimer .retransmitHandshake (uvTimerStart env (rekeyTimeoutMs + jitter))
  | .sendKeepalive => ∃ k1, SentPacket c env p [] k k1 ∧
      k' = if k1.needAnotherKeepalive then
          { k1 with needAnotherKeepalive := false }.setTimer .sendKeepalive
            (uvTimerStart env keepaliveTimeoutMs)
        else k1
  | .newHandshake => InitiatedHandshake env false k k'
  | .zeroKeyMaterial => k' = k.zeroKeyMaterial
  | .persistentKeepalive => ∃ k1, SentPacket c env p [] k k1 ∧
      k' = if k1.persistentKeepaliveMs ≠ 0 then
          k1.setTimer .persistentKeepalive (uvTimerStart env k1.persistentKeepaliveMs.toNat)
        else k1

/-- What a turn of the peer does to its clocks. -/
def Turned (k' : Clocks) : PeerTurn → Prop
  | .sent pkt => SentPacket c env p pkt p.found k'
  | .initiated force => InitiatedHandshake env force p.found k'
  | .fired kind => (p.timers.due kind).any (· ≤ env.now.toNat) = true ∧
      CalledBack c env p (p.found.setTimer kind none) k' kind
  | .accepted timestamp _ =>
    tai64nAfter timestamp p.handshake.lastTimestamp ∧
      handshakeInitRateMs < env.now - p.handshake.lastInitiationConsumptionMs ∧
      (k' = p.found.consumed env timestamp ∨
        ∃ (src : Endpoint) (resp : MsgResponse) (kp : Keypair), kp.Fresh env ∧
          kp.isInitiator = false ∧
          Sends c env (0 < p.staged.count ∧ p.Stale env) (· ≠ [])
            ((((p.found.consumed env timestamp).udpSend env src (.response resp)).beginSession
              kp).completeHandshake env) k')
  | .completed => ∃ kp : Keypair, kp.Fresh env ∧ kp.isInitiator = true ∧
      Sends c env False (fun pkt => pkt = [] → p.staged.count = 0)
        ((p.found.beginSession kp).completeHandshake env) k'
  | .received _ plaintext =>
    match transportPlaintextLen plaintext with
    | none => p.found.SameButKeypairs k'
    | some 0 => (p.found.dataReceived env).keepaliveReceived.SameButKeypairs k'
    | some _ => (p.found.dataReceived env).SameButKeypairs k'

end Turned

/-! ### The functions of a turn -/

section Functions

variable {c : Crypto} {env : Env} {x y : Ctx}

theorem clocks_timersHandshakeComplete (p : Peer) (sent : List (Endpoint × Datagram)) :
    (timersHandshakeComplete env p).clocks sent = (p.clocks sent).completeHandshake env := by
  unfold timersHandshakeComplete Clocks.completeHandshake
  show _ = if p.timers.active then _ else _
  by_cases hact : p.timers.active = true
  · rw [if_pos hact, if_neg (by simp [hact])]
    rfl
  · rw [if_neg hact, if_pos (by simpa using hact)]

theorem clocks_timersDataReceived (p : Peer) (sent : List (Endpoint × Datagram)) :
    (timersDataReceived env p).clocks sent = (p.clocks sent).dataReceived env := by
  unfold timersDataReceived Clocks.dataReceived Clocks.startTimer
  show _ = if p.timers.active then if p.timers.sendKeepalive.isNone then
    if p.timers.active then _ else _ else _ else _
  by_cases hact : p.timers.active = true
  · rw [if_pos hact, if_neg (by simp [hact]), if_pos hact]
    split_ifs <;> rfl
  · rw [if_neg hact, if_pos (by simpa using hact)]

theorem clocks_timersKeepaliveReceived (p : Peer) (sent : List (Endpoint × Datagram)) :
    (timersKeepaliveReceived p).clocks sent = (p.clocks sent).keepaliveReceived := by
  unfold timersKeepaliveReceived Clocks.keepaliveReceived
  show _ = if p.timers.active then _ else _
  by_cases hact : p.timers.active = true
  · rw [if_pos hact, if_neg (by simp [hact])]
    rfl
  · rw [if_neg hact, if_pos (by simpa using hact)]

theorem clocks_timersZeroKeyMaterial :
    (timersZeroKeyMaterial env x).clocks = x.clocks.startTimer env .zeroKeyMaterial 0 := by
  unfold timersZeroKeyMaterial Clocks.startTimer
  show _ = if x.peer.timers.active then _ else _
  by_cases hact : x.peer.timers.active = true
  · rw [if_pos hact, if_neg (by simp [hact])]
    rfl
  · rw [if_neg hact, if_pos (by simpa using hact)]

/-- Making a response leaves the clocks alone. -/
theorem clocks_noiseCreateResponse : (noiseCreateResponse c env x).1.clocks = x.clocks := by
  simp only [noiseCreateResponse]
  split_ifs
  · rfl
  · rfl
  · split
    · rfl
    · split <;> rfl

/-- A session begins with a fresh keypair. -/
theorem clocks_noiseBeginSession (hstate : x.peer.handshake.state = .responseConsumed ∨
    x.peer.handshake.state = .responseCreated) : ∃ kp : Keypair, kp.Fresh env ∧
      (kp.isInitiator = true ↔ x.peer.handshake.state = .responseConsumed) ∧
      (noiseBeginSession c env x).2 = true ∧
      (noiseBeginSession c env x).1.clocks = x.clocks.beginSession kp := by
  have hbegin := @noiseBeginSession_eq c env x hstate
  refine ⟨x.session c env, ⟨rfl, rfl⟩, ?_, ?_, ?_⟩
  · simp [Ctx.session, sessionKeypair]
  · rw [hbegin]
  · rw [hbegin]
    rcases hstate with hstate | hstate
    · have hrole : (x.session c env).isInitiator = true := by
        simp [Ctx.session, sessionKeypair, hstate]
      simp only [rotated_initiator hstate, Clocks.beginSession, hrole, if_true]
      rfl
    · have hrole : (x.session c env).isInitiator = false := by
        simp [Ctx.session, sessionKeypair, hstate]
      simp only [rotated_responder hstate, Clocks.beginSession, hrole, Bool.false_eq_true, if_false]
      rfl

/-! ### Sending and receiving -/

theorem sentPacket_deviceSendToPeer {p : Peer} (hp : x.peer.CanSeal env → p.CanSeal env)
    (pkt : List Byte) :
    SentPacket c env p pkt x.clocks (deviceSendToPeer c env x pkt).clocks :=
  sends_deviceSendToPeer id fun h => ⟨rfl, hp h⟩

theorem initiatedHandshake_inner (force : Bool) :
    InitiatedHandshake env force x.clocks (deviceInitiateHandshakeInner c env x force).1.clocks := by
  rcases @begun_deviceInitiateHandshakeInner c env x force with ⟨hf, hrate, heq⟩ | h
  · exact Or.inl ⟨hf, hrate, by rw [heq]⟩
  · exact Or.inr h

/-- The callback of a timer that is due. -/
theorem calledBack_timerCallback (kind : TimerKind) (p : Peer)
    (hp : x.peer.CanSeal env → p.CanSeal env) :
    CalledBack c env p x.clocks (timerCallback c env x kind).clocks kind := by
  cases kind with
  | retransmitHandshake =>
    simp only [timerCallback, cbRetransmitHandshake]
    split_ifs
    · refine Or.inl ?_
      rw [clocks_timersZeroKeyMaterial]
      rfl
    · set w := (deviceInitiateHandshakeInner c env { x with
        peer := { x.peer with handshakeAttempts := x.peer.handshakeAttempts + 1 } } true).1
      refine Or.inr ⟨w.clocks, _, ?_, rfl⟩
      rcases @begun_deviceInitiateHandshakeInner c env
        { x with peer := { x.peer with handshakeAttempts := x.peer.handshakeAttempts + 1 } } true with
        ⟨hf, -⟩ | ⟨-, h⟩
      · cases hf
      · exact h
  | sendKeepalive =>
    refine ⟨_, sentPacket_deviceSendToPeer hp [], ?_⟩
    simp only [timerCallback, cbSendKeepalive]
    show _ = if (deviceSendKeepalive c env x).peer.needAnotherKeepalive then _ else _
    split_ifs <;> rfl
  | newHandshake => exact initiatedHandshake_inner false
  | zeroKeyMaterial => rfl
  | persistentKeepalive =>
    refine ⟨_, sentPacket_deviceSendToPeer hp [], ?_⟩
    simp only [timerCallback, cbPersistentKeepalive]
    show _ = if (deviceSendKeepalive c env x).peer.persistentKeepaliveMs ≠ 0 then _ else _
    split_ifs <;> rfl

/-! ### Sessions -/

theorem sender_completeHandshake (k : Clocks) : (k.completeHandshake env).sender = k.sender := by
  unfold Clocks.completeHandshake
  split_ifs <;> rfl

/-- A fresh keypair suffices for all packets that can be staged. -/
theorem calm_of_fresh {k : Clocks} {kp : Keypair} (hfresh : kp.Fresh env)
    (hsender : k.sender = some kp) {n : ℕ} (hn : n ≤ peerQueueSize) : k.Calm env n := by
  refine ⟨kp, hsender, ?_, ?_⟩
  · rw [Keypair.Young, hfresh.created, BitVec.sub_self]
    decide
  · have hlimit : peerQueueSize ≤ rekeyAfterMessages.toNat := by decide
    rw [hfresh.unused]
    exact (Nat.zero_add n).le.trans (hn.trans hlimit)

/-- After a session start as a responder, the staged packets go out without a handshake unless the
current keypair is stale. -/
theorem stale_of_not_calm {p : Peer} {k : Clocks} {kp : Keypair} (hfresh : kp.Fresh env)
    (hrole : kp.isInitiator = false) (hcur : k.currentKeypair = p.currentKeypair)
    (h : ¬ ((k.beginSession kp).completeHandshake env).Calm env p.staged.count) : p.Stale env := by
  have hsender : ((k.beginSession kp).completeHandshake env).sender =
      p.currentKeypair.or (some kp) := by
    rw [sender_completeHandshake]
    simp [Clocks.sender, Clocks.beginSession, hrole, hcur]
  cases hp : p.currentKeypair with
  | none =>
    rw [hp, Option.none_or] at hsender
    exact absurd (calm_of_fresh hfresh hsender p.staged.count_le) h
  | some cur =>
    rw [hp, Option.some_or] at hsender
    exact ⟨cur, hp, fun hgood => h ⟨cur, hsender, hgood.1, hgood.2⟩⟩

theorem staged_timersHandshakeComplete (p : Peer) :
    (timersHandshakeComplete env p).staged = p.staged := by
  unfold timersHandshakeComplete
  split_ifs <;> rfl

/-- The loop over an empty queue does nothing. -/
theorem flushStaged_empty {fuel : ℕ} {ps : List (List Byte)} (h0 : x.peer.staged.count = 0)
    (h : flushStaged c env fuel x = some (y, ps)) : y = x := by
  cases fuel with
  | zero =>
    rw [flushStaged, if_pos h0] at h
    cases h
    rfl
  | succ fuel =>
    rw [flushStaged, dif_neg (by omega)] at h
    cases h
    rfl

theorem sends_responderComplete {p : Peer} {k : Clocks} {kp : Keypair} {fuel : ℕ}
    (hk : x.clocks = k.beginSession kp) (hrole : kp.isInitiator = false) (hfresh : kp.Fresh env)
    (hcur : k.currentKeypair = p.currentKeypair) (hstaged : x.peer.staged = p.staged)
    (h : responderComplete c env fuel x = some y) :
    Sends c env (0 < p.staged.count ∧ p.Stale env) (· ≠ [])
      ((k.beginSession kp).completeHandshake env) y.clocks := by
  obtain ⟨⟨z, ps⟩, hflush, rfl⟩ := Option.map_eq_some_iff.1 h
  set x' : Ctx := { x with peer := timersHandshakeComplete env x.peer }
  have hstart : x'.clocks = (k.beginSession kp).completeHandshake env := by
    rw [← hk]
    exact clocks_timersHandshakeComplete _ _
  have hstaged' : x'.peer.staged = p.staged :=
    (staged_timersHandshakeComplete x.peer).trans hstaged
  rw [← hstart]
  refine sends_flushStaged (fun pkt hpkt => hpkt) ?_ hflush
  rw [hstaged', hstart]
  exact fun hcount hcalm => ⟨hcount, stale_of_not_calm hfresh hrole hcur hcalm⟩

theorem sends_initiatorComplete {p : Peer} {k : Clocks} {kp : Keypair} {fuel : ℕ}
    (hk : x.clocks = k.beginSession kp) (hrole : kp.isInitiator = true) (hfresh : kp.Fresh env)
    (hstaged : x.peer.staged = p.staged) (h : initiatorComplete c env fuel x = some y) :
    Sends c env False (fun pkt => pkt = [] → p.staged.count = 0)
      ((k.beginSession kp).completeHandshake env) y.clocks := by
  unfold initiatorComplete at h
  set x' : Ctx := { x with peer := timersHandshakeComplete env x.peer }
  have hstart : x'.clocks = (k.beginSession kp).completeHandshake env := by
    rw [← hk]
    exact clocks_timersHandshakeComplete _ _
  have hstaged' : x'.peer.staged = p.staged :=
    (staged_timersHandshakeComplete x.peer).trans hstaged
  have hcalm : ∀ n ≤ peerQueueSize, x'.clocks.Calm env n := by
    intro n hn
    refine calm_of_fresh hfresh ?_ hn
    rw [hstart, sender_completeHandshake]
    simp [Clocks.sender, Clocks.beginSession, hrole]
  rw [← hstart]
  split at h
  · cases h
  next z flushed hflush =>
    have hsends : Sends c env False (fun pkt => pkt = [] → p.staged.count = 0) x'.clocks
        z.clocks := by
      refine sends_flushStaged (fun pkt hpkt hnil => absurd hnil hpkt) ?_ hflush
      exact fun _ hrough => hrough (hcalm _ x'.peer.staged.count_le)
    cases h
    split_ifs with hnone
    · -- no packet was flushed, so none was staged and the loop did nothing
      have hlen := length_flushStaged hflush
      rw [List.isEmpty_iff.1 hnone] at hlen
      have hcount : x'.peer.staged.count = 0 := Nat.le_zero.1 hlen
      rw [flushStaged_empty hcount hflush]
      refine sends_deviceSendToPeer (fun hrough => hrough (hcalm 1 (by decide))) ?_
      exact fun _ _ => hstaged' ▸ hcount
    · exact hsends

theorem staged_noiseCreateResponse :
    (noiseCreateResponse c env x).1.peer.staged = x.peer.staged := by
  simp only [noiseCreateResponse]
  split_ifs
  · rfl
  · rfl
  · split
    · rfl
    · split <;> rfl

theorem state_noiseCreateResponse {resp : MsgResponse}
    (h : noiseCreateResponse c env x = (y, some resp)) :
    y.peer.handshake.state = .responseCreated := by
  simp only [noiseCreateResponse] at h
  split_ifs at h
  · cases h
  · cases h
  · split at h
    · cases h
    · split at h
      · cases h
      · cases h
        rfl

theorem staged_noiseBeginSession (hstate : x.peer.handshake.state = .responseConsumed ∨
    x.peer.handshake.state = .responseCreated) :
    (noiseBeginSession c env x).1.peer.staged = x.peer.staged := by
  obtain ⟨cur, next, prev, heq⟩ := rotated_frame c env x
  rw [noiseBeginSession_eq hstate]
  simp only [heq]

/-- What `answer_initiation` does with the accepted initiation. -/
theorem answered_answerInitiation {p : Peer} {fuel : ℕ} {src : Endpoint} {r : Handled}
    (hcur : x.clocks.currentKeypair = p.currentKeypair) (hstaged : x.peer.staged = p.staged)
    (h : answerInitiation c env fuel src x = some r) :
    ∃ y, Kept env x y ∧ r = y.handled ∧ (y.clocks = x.clocks ∨
      ∃ (src : Endpoint) (resp : MsgResponse) (kp : Keypair), kp.Fresh env ∧
        kp.isInitiator = false ∧
        Sends c env (0 < p.staged.count ∧ p.Stale env) (· ≠ [])
          (((x.clocks.udpSend env src (.response resp)).beginSession kp).completeHandshake env)
          y.clocks) := by
  have hresp : Kept env x (noiseCreateResponse c env x).1 := kept_noiseCreateResponse
  have hclocks : (noiseCreateResponse c env x).1.clocks = x.clocks := clocks_noiseCreateResponse
  have hqueue : (noiseCreateResponse c env x).1.peer.staged = x.peer.staged :=
    staged_noiseCreateResponse
  unfold answerInitiation at h
  split at h
  next y hy =>
    cases h
    rw [hy] at hresp hclocks
    exact ⟨y, hresp, rfl, Or.inl hclocks⟩
  next y resp hy =>
    rw [hy] at hresp hclocks hqueue
    have hstate := state_noiseCreateResponse hy
    set z := y.udpSend env src (.response resp) with hz
    have hpeer : z.peer = y.peer := peer_udpSend src (.response resp)
    have hkz : z.clocks = x.clocks.udpSend env src (.response resp) := by
      rw [hz, clocks_udpSend, hclocks]
    have hzstate : z.peer.handshake.state = .responseCreated := hpeer ▸ hstate
    have hidx : z.peer.handshake.localIndex ≠ 0 := hpeer ▸ localIndex_noiseCreateResponse hy
    have hkept : Kept env x (noiseBeginSession c env z).1 :=
      (hresp.trans (kept_udpSend _ _)).trans (kept_noiseBeginSession hidx)
    obtain ⟨kp, hfresh, hrole, -, hsession⟩ := @clocks_noiseBeginSession c env z (Or.inr hzstate)
    have hqz : (noiseBeginSession c env z).1.peer.staged = p.staged := by
      rw [staged_noiseBeginSession (Or.inr hzstate), hpeer, hqueue, hstaged]
    split at h
    next w hw =>
      rw [noiseBeginSession_eq (Or.inr hzstate)] at hw
      cases hw
    next w hw =>
      rw [hw] at hkept hsession hqz
      obtain ⟨v, hv, rfl⟩ := Option.map_eq_some_iff.1 h
      have hfalse : kp.isInitiator = false := by
        rw [Bool.eq_false_iff]
        exact fun htrue => HsState.noConfusion (hzstate.symm.trans (hrole.1 htrue))
      refine ⟨v, hkept.trans (kept_responderComplete hv), rfl,
        Or.inr ⟨src, resp, kp, hfresh, hfalse, ?_⟩⟩
      rw [hkz] at hsession
      refine sends_responderComplete hsession hfalse hfresh ?_ hqz hv
      rw [← hcur]
      unfold Clocks.udpSend
      split_ifs <;> rfl

/-- What `complete_response` does with the accepted response. -/
theorem completed_completeResponse {p : Peer} {fuel : ℕ} {r : Handled}
    (hstaged : x.peer.staged = p.staged) (hstate : x.peer.handshake.state = .responseConsumed)
    (hidx : x.peer.handshake.localIndex ≠ 0) (h : completeResponse c env fuel x = some r) :
    ∃ y, Kept env x y ∧ r = y.handled ∧ ∃ kp : Keypair, kp.Fresh env ∧ kp.isInitiator = true ∧
      Sends c env False (fun pkt => pkt = [] → p.staged.count = 0)
        ((x.clocks.beginSession kp).completeHandshake env) y.clocks := by
  have hkept : Kept env x (noiseBeginSession c env x).1 := kept_noiseBeginSession hidx
  obtain ⟨kp, hfresh, hrole, -, hsession⟩ := @clocks_noiseBeginSession c env x (Or.inl hstate)
  have hq : (noiseBeginSession c env x).1.peer.staged = p.staged := by
    rw [staged_noiseBeginSession (Or.inl hstate), hstaged]
  unfold completeResponse at h
  split at h
  next w hw =>
    rw [noiseBeginSession_eq (Or.inl hstate)] at hw
    cases hw
  next w hw =>
    rw [hw] at hkept hsession hq
    obtain ⟨v, hv, rfl⟩ := Option.map_eq_some_iff.1 h
    exact ⟨v, hkept.trans (kept_initiatorComplete hv), rfl, kp, hfresh, hrole.2 hstate,
      sends_initiatorComplete hsession (hrole.2 hstate) hfresh hq hv⟩

/-! ### Transport messages -/

section Keypairs

variable {k k' k'' : Clocks}

theorem Clocks.SameButKeypairs.trans (h1 : k.SameButKeypairs k') (h2 : k'.SameButKeypairs k'') :
    k.SameButKeypairs k'' := by
  obtain ⟨_, _, _, rfl⟩ := h1
  obtain ⟨cur, next, prev, rfl⟩ := h2
  exact ⟨cur, next, prev, rfl⟩

theorem Clocks.SameButKeypairs.dataReceived (h : k.SameButKeypairs k') :
    (k.dataReceived env).SameButKeypairs (k'.dataReceived env) := by
  obtain ⟨cur, next, prev, rfl⟩ := h
  refine ⟨cur, next, prev, ?_⟩
  unfold Clocks.dataReceived Clocks.startTimer
  simp only
  split_ifs <;> rfl

theorem Clocks.SameButKeypairs.keepaliveReceived (h : k.SameButKeypairs k') :
    k.keepaliveReceived.SameButKeypairs k'.keepaliveReceived := by
  obtain ⟨cur, next, prev, rfl⟩ := h
  refine ⟨cur, next, prev, ?_⟩
  unfold Clocks.keepaliveReceived
  simp only
  split_ifs <;> rfl

end Keypairs

theorem sameButKeypairs_promoteNext (kpAddr : ℕ) :
    x.clocks.SameButKeypairs (promoteNext x kpAddr).clocks := by
  unfold promoteNext
  split
  · split_ifs
    · exact ⟨_, _, _, rfl⟩
    · exact ⟨_, _, _, rfl⟩
  · exact ⟨_, _, _, rfl⟩

/-- What an accepted plaintext does to the timers. -/
theorem received_transportDeliver {p : Peer} {kp : Keypair} (src : Endpoint) (kpAddr len : ℕ)
    (plaintext : List Byte) (hx : p.found.SameButKeypairs x.clocks) :
    Turned c env p (transportDeliver env x src kpAddr len plaintext).clocks
      (.received kp plaintext) := by
  unfold transportDeliver
  simp only [Turned]
  cases hlen : transportPlaintextLen plaintext with
  | none => exact hx
  | some ptlen =>
    simp only
    set y : Ctx := { x with peer := timersDataReceived env ({ x.peer with
      rxBytes := x.peer.rxBytes + BitVec.ofNat 64 len } : Peer) }
    have hclocks : y.clocks = x.clocks.dataReceived env := clocks_timersDataReceived _ _
    have hstep : (p.found.dataReceived env).SameButKeypairs (promoteNext y kpAddr).clocks :=
      (hclocks ▸ hx.dataReceived).trans (sameButKeypairs_promoteNext kpAddr)
    cases ptlen with
    | zero =>
      rw [if_neg (lt_irrefl 0)]
      set z := promoteNext y kpAddr
      have hkeep : (timersKeepaliveReceived { z.peer with endpoint := some src }).clocks z.sent =
          z.clocks.keepaliveReceived := clocks_timersKeepaliveReceived _ _
      show (p.found.dataReceived env).keepaliveReceived.SameButKeypairs _
      refine Eq.mpr (congrArg _ hkeep) hstep.keepaliveReceived
    | succ n =>
      rw [if_pos n.succ_pos]
      split_ifs
      · exact hstep
      · exact hstep

end Functions

/-! ### Events -/

/-- Only cookie replies were sent. -/
def OnlyCookieReplies (sent : List (Endpoint × Datagram)) : Prop :=
  ∀ m ∈ sent, ∃ reply, m.2 = .cookieReply reply

/-- The turn was taken: it replaced the record of its peer, and what it did to the clocks is as
`Turned` says. -/
structure Taken (c : Crypto) (dev : Device) (r : Handled) (s : PeerStep) : Prop where
  sent : s.sent = r.sent
  next : dev.nextAddr ≤ r.dev.nextAddr
  frame : ∃ p' pre post, dev.peers = pre ++ s.before :: post ∧ r.dev.peers = pre ++ p' :: post ∧
    p'.addr = s.before.addr ∧ Turned c s.env s.before (p'.clocks s.sent) s.turn

section Events

variable {c : Crypto} {env : Env} {dev : Device} {r : Handled} {src : Endpoint} {fuel : ℕ}

theorem taken_of_called (h : DeviceInv dev) {peer : Peer} {x y : Ctx} {turn : PeerTurn}
    (hc : Called env dev y.finish peer x y) (hr : r = y.handled)
    (ht : Turned c env peer y.clocks turn) : Taken c dev r ⟨env, peer, turn, r.sent⟩ := by
  obtain ⟨pre, post, hsplit, hfinish⟩ := hc.finish h.nodup
  subst hr
  refine ⟨rfl, ?_, y.peer, pre, post, hsplit, hfinish, hc.kept.addr.trans hc.addr_eq, ht⟩
  show dev.nextAddr ≤ y.dev.nextAddr
  exact hc.next_eq ▸ hc.kept.next

/-- An initiation is a turn of its peer if it is accepted, and changes nothing else. -/
theorem taken_handleInitiation (h : DeviceInv dev) {msg : MsgInitiation}
    (hr : handleInitiation c env fuel dev src msg = some r) :
    (acceptedInitiation c env dev src msg = none ∧ Reconfigured dev r.dev ∧
        OnlyCookieReplies r.sent) ∨
      ∃ p q, acceptedInitiation c env dev src msg = some p ∧ dev.peerAt p.addr = some q ∧
        Taken c dev r ⟨env, q, .accepted p.handshake.lastTimestamp msg, r.sent⟩ := by
  simp only [handleInitiation] at hr
  unfold acceptedInitiation
  simp only
  split at hr
  next hmac =>
    cases hr
    rw [hmac]
    exact Or.inl ⟨rfl, reconfigured_of_eq rfl rfl rfl, fun m hm => by cases hm⟩
  next hmac =>
    cases hr
    rw [hmac]
    refine Or.inl ⟨rfl, reconfigured_of_eq rfl rfl rfl, fun m hm => ?_⟩
    split_ifs at hm
    · exact ⟨_, by rw [List.mem_singleton.1 hm]⟩
    · cases hm
  next hmac =>
    rw [hmac, if_pos rfl]
    have hsame : ∀ cc, noiseConsumeInitiation c env { dev with cookieChecker := cc } msg =
        noiseConsumeInitiation c env dev msg := fun cc => rfl
    rw [hsame] at hr
    rw [noiseConsumeInitiation_eq_open] at hr ⊢
    cases ho : openInitiation c dev msg with
    | none =>
      rw [ho] at hr
      cases hr
      exact Or.inl ⟨rfl, reconfigured_of_eq rfl rfl rfl, fun m hm => by cases hm⟩
    | some o =>
      rw [ho, Option.bind_some] at hr
      rw [Option.bind_some]
      split_ifs at hr ⊢ with hok
      · have hmem : o.peer ∈ dev.peers := peer_mem_of_open ho
        obtain ⟨y, hk, hy, hdone⟩ := @answered_answerInitiation c env _ o.peer fuel src r rfl rfl hr
        refine Or.inr ⟨_, o.peer, rfl, Device.peerAt_of_mem h.nodup hmem, ?_⟩
        refine taken_of_called h ⟨hmem, rfl, rfl, rfl, rfl, rfl, rfl, hk, rfl⟩ hy ?_
        exact ⟨hok.1, hok.2, hdone⟩
      · cases hr
        exact Or.inl ⟨rfl, reconfigured_of_eq rfl rfl rfl, fun m hm => by cases hm⟩

/-- So is a response. -/
theorem taken_handleResponse (h : DeviceInv dev) {msg : MsgResponse}
    (hr : handleResponse c env fuel dev src msg = some r) :
    (acceptedResponse c env dev src msg = none ∧ Reconfigured dev r.dev ∧
        OnlyCookieReplies r.sent) ∨
      ∃ p q, acceptedResponse c env dev src msg = some p ∧ dev.peerAt p.addr = some q ∧
        Taken c dev r ⟨env, q, .completed, r.sent⟩ := by
  simp only [handleResponse] at hr
  unfold acceptedResponse
  simp only
  split_ifs at hr ⊢ with hmac
  · cases hr
    exact Or.inl ⟨rfl, reconfigured_of_eq rfl rfl rfl, fun m hm => by cases hm⟩
  · have hsame : ∀ cc, noiseConsumeResponse c { dev with cookieChecker := cc } msg =
        noiseConsumeResponse c dev msg := fun cc => rfl
    rw [hsame] at hr
    cases hcons : noiseConsumeResponse c dev msg with
    | none =>
      rw [hcons] at hr
      cases hr
      exact Or.inl ⟨rfl, reconfigured_of_eq rfl rfl rfl, fun m hm => by cases hm⟩
    | some p =>
      rw [hcons] at hr
      rw [noiseConsumeResponse_eq_open] at hcons
      obtain ⟨peer, htarget, hcons⟩ := Option.bind_eq_some_iff.1 hcons
      split_ifs at hcons
      obtain ⟨o, -, rfl⟩ := Option.map_eq_some_iff.1 hcons
      obtain ⟨hmem, hlocal, h0⟩ := h.responseTarget htarget
      obtain ⟨y, hk, hy, hdone⟩ := @completed_completeResponse c env _ peer fuel r rfl rfl
        (hlocal ▸ h0) hr
      refine Or.inr ⟨_, peer, rfl, Device.peerAt_of_mem h.nodup hmem, ?_⟩
      exact taken_of_called h ⟨hmem, rfl, rfl, rfl, rfl, rfl, rfl, hk, rfl⟩ hy hdone

/-- So is a transport message. -/
theorem taken_handleTransport (h : DeviceInv dev) (msg : MsgTransport) :
    (acceptedTransport c dev msg = none ∧ handleTransport c env dev src msg = .drop dev) ∨
      ∃ peer kp plaintext, acceptedTransport c dev msg = some (peer, kp, plaintext) ∧
        dev.peerAt peer.addr = some peer ∧
        Taken c dev (handleTransport c env dev src msg)
          ⟨env, peer, .received kp plaintext, (handleTransport c env dev src msg).sent⟩ := by
  unfold handleTransport acceptedTransport
  split_ifs with hlen
  · exact Or.inl ⟨rfl, rfl⟩
  · cases htarget : transportTarget dev msg.receiver with
    | none => exact Or.inl ⟨rfl, rfl⟩
    | some t =>
      obtain ⟨peer, kp⟩ := t
      simp only [Option.bind_some]
      cases hcheck : Replay.replayCheck kp.replay msg.counter rejectAfterMessages with
      | false => exact Or.inl ⟨rfl, rfl⟩
      | true =>
        simp only [Bool.not_true, Bool.false_eq_true, if_false, if_true]
        cases hopen : c.aeadDecrypt kp.recvKey (transportNonce msg.counter) msg.content [] with
        | none => exact Or.inl ⟨rfl, rfl⟩
        | some plaintext =>
          simp only [Option.bind_some]
          cases hcommit : Replay.replayCommit kp.replay msg.counter rejectAfterMessages with
          | mk ok replay =>
            cases ok with
            | false => exact Or.inl ⟨rfl, rfl⟩
            | true =>
              have hmem := (transportTarget_mem htarget).1
              refine Or.inr ⟨peer, kp, plaintext, rfl, Device.peerAt_of_mem h.nodup hmem, ?_⟩
              have hk := (kept_mapKeypair (x := Ctx.start dev peer) kp.addr replay).trans
                (kept_transportDeliver env src kp.addr
                  (msgTransportHdrSize + msg.content.length) plaintext)
              refine taken_of_called h (called_start hmem hk) rfl ?_
              exact received_transportDeliver src kp.addr _ plaintext ⟨_, _, _, rfl⟩

theorem reconfigured_handleCookieReply (msg : MsgCookieReply) :
    Reconfigured dev (handleCookieReply c env dev msg) := by
  unfold handleCookieReply
  split
  · exact Reconfigured.refl _
  next peer hpeer =>
    obtain ⟨e, -, hat⟩ := Option.bind_eq_some_iff.1 hpeer
    have hat' : dev.peerAt peer.addr = some peer := (Device.mem_of_peerAt hat).2 ▸ hat
    exact reconfigured_store hat' rfl rfl rfl (Clocks.Reconf.refl _)

/-- The event is no turn: it changes the configuration at most. -/
def Untaken (c : Crypto) (dev : Device) (e : LifeEvent) : Prop :=
  peerStepOf c dev e = none ∧ Reconfigured dev (lifeStep c dev e).dev ∧
    OnlyCookieReplies (lifeStep c dev e).sent

/-- The event is a turn of a peer of the device. -/
def IsTaken (c : Crypto) (dev : Device) (e : LifeEvent) : Prop :=
  ∃ s, peerStepOf c dev e = some s ∧ e.env = some s.env ∧ Taken c dev (lifeStep c dev e) s

/-- A call on the peer at an address is a turn of that peer. -/
theorem turn_call (h : DeviceInv dev) {e : LifeEvent} {addr : ℕ} {f : Ctx → Ctx} {turn : PeerTurn}
    (hstep : lifeStep c dev e = dev.call addr f) (henv : e.env = some env)
    (hturn : ∀ p, dev.peerAt addr = some p → turnOf c dev e = some (env, addr, turn))
    (hnone : dev.peerAt addr = none → peerStepOf c dev e = none)
    (hkept : ∀ x, Kept env x (f x))
    (hclocks : ∀ p, dev.peerAt addr = some p →
      Turned c env p (f (Ctx.start dev p)).clocks turn) :
    Untaken c dev e ∨ IsTaken c dev e := by
  cases hat : dev.peerAt addr with
  | none =>
    refine Or.inl ⟨hnone hat, ?_, ?_⟩
    · rw [hstep, Device.call, hat]
      exact Reconfigured.refl _
    · rw [hstep, Device.call, hat]
      exact fun m hm => by cases hm
  | some p =>
    have hcall : lifeStep c dev e = (f (Ctx.start dev p)).handled := by
      rw [hstep, Device.call, hat]
    refine Or.inr ⟨⟨env, p, turn, (lifeStep c dev e).sent⟩, ?_, henv, ?_⟩
    · rw [peerStepOf, hturn p hat, Option.bind_some, hat]
      rfl
    · exact taken_of_called h (called_start (Device.mem_of_peerAt hat).1 (hkept _)) hcall
        (hclocks p hat)

/-- A datagram that is handled to the end is a turn of a peer, or changes nothing but the secret of
the cookies or a cookie. -/
theorem turn_recv (h : DeviceInv dev) {d : Datagram}
    (hr : onUdpRecv c env fuel dev src d = some r) :
    Untaken c dev (.device (.recv env fuel src d)) ∨
      IsTaken c dev (.device (.recv env fuel src d)) := by
  have hstep : lifeStep c dev (.device (.recv env fuel src d)) = r := by
    simp [lifeStep, deviceStep, hr]
  have hturn : turnOf c dev (.device (.recv env fuel src d)) =
      (recvTurn c env dev src d).map fun t => (env, t) := by
    simp [turnOf, hr]
  have hout : recvTurn c env dev src d = none → Reconfigured dev r.dev → OnlyCookieReplies r.sent →
      Untaken c dev (.device (.recv env fuel src d)) := by
    intro hnone hre hsent
    rw [Untaken, hstep, peerStepOf, hturn, hnone]
    exact ⟨rfl, hre, hsent⟩
  have htaken : ∀ {a q turn}, recvTurn c env dev src d = some (a, turn) → dev.peerAt a = some q →
      Taken c dev r ⟨env, q, turn, r.sent⟩ → IsTaken c dev (.device (.recv env fuel src d)) := by
    intro a q turn hsome hat ht
    refine ⟨⟨env, q, turn, r.sent⟩, ?_, rfl, hstep ▸ ht⟩
    rw [peerStepOf, hturn, hsome, Option.map_some, Option.bind_some, hstep, hat]
    rfl
  cases d with
  | initiation msg =>
    rcases taken_handleInitiation h hr with ⟨hnone, hre, hsent⟩ | ⟨p, q, hacc, hat, ht⟩
    · exact Or.inl (hout (by simp [recvTurn, hnone]) hre hsent)
    · exact Or.inr (htaken (by simp [recvTurn, hacc]) hat ht)
  | response msg =>
    rcases taken_handleResponse h hr with ⟨hnone, hre, hsent⟩ | ⟨p, q, hacc, hat, ht⟩
    · exact Or.inl (hout (by simp [recvTurn, hnone]) hre hsent)
    · exact Or.inr (htaken (by simp [recvTurn, hacc]) hat ht)
  | cookieReply msg =>
    cases hr
    exact Or.inl (hout rfl (reconfigured_handleCookieReply msg) fun m hm => by cases hm)
  | transport msg =>
    cases hr
    rcases @taken_handleTransport c env dev src h msg with ⟨hnone, hdrop⟩ | ⟨p, kp, q, hacc, hat, ht⟩
    · rw [hdrop] at hout
      exact Or.inl (hout (by simp [recvTurn, hnone]) (Reconfigured.refl dev) fun m hm => by cases hm)
    · exact Or.inr (htaken (by simp [recvTurn, hacc]) hat ht)

/-- **What an event can do to a device**: it is a turn of one of its peers, or it changes the
configuration at most. -/
theorem turn_or_reconfigured (h : DeviceInv dev) (e : LifeEvent) :
    Untaken c dev e ∨ IsTaken c dev e := by
  have hquiet : ∀ {dev' : Device}, peerStepOf c dev e = none → Reconfigured dev dev' →
      lifeStep c dev e = .drop dev' → Untaken c dev e := by
    intro dev' hnone hre hstep
    rw [Untaken, hstep]
    exact ⟨hnone, hre, fun m hm => by cases hm⟩
  cases e with
  | set env stack data => exact Or.inl (hquiet rfl (reconfigured_processSet stack data) rfl)
  | device e =>
    cases e with
    | recv env fuel src d =>
      cases hr : onUdpRecv c env fuel dev src d with
      | none =>
        refine Or.inl (hquiet ?_ (Reconfigured.refl dev) ?_)
        · simp [peerStepOf, turnOf, hr]
        · simp [lifeStep, deviceStep, hr]
      | some r => exact turn_recv h hr
    | send env addr pkt =>
      refine turn_call h rfl rfl (fun p hp => rfl) (fun hnone => ?_)
        (fun x => kept_deviceSendToPeer pkt) (fun p hp => ?_)
      · simp [peerStepOf, turnOf, hnone]
      · exact @sentPacket_deviceSendToPeer c env (Ctx.start dev p) p id pkt
    | initiate env addr force =>
      refine turn_call h rfl rfl (fun p hp => rfl) (fun hnone => ?_)
        (fun x => kept_deviceInitiateHandshakeInner force) (fun p hp => ?_)
      · simp [peerStepOf, turnOf, hnone]
      · exact @initiatedHandshake_inner c env (Ctx.start dev p) force
    | timer env addr kind =>
      cases hat : dev.peerAt addr with
      | none =>
        refine Or.inl (hquiet ?_ (Reconfigured.refl dev) ?_)
        · simp [peerStepOf, turnOf, hat]
        · simp [lifeStep, deviceStep, Device.call, hat]
      | some p =>
        have hp : p.addr = addr := (Device.mem_of_peerAt hat).2
        by_cases hdue : (Ctx.start dev p).timerDue env kind = true
        · refine @turn_call c env dev h _ addr _ (.fired kind) rfl rfl (fun q hq => ?_)
            (fun hnone => ?_) (kept_timer kind) (fun q hq => ?_)
          · simp [turnOf, hat, hdue]
          · cases hat.symm.trans hnone
          · cases hat.symm.trans hq
            rw [if_pos hdue]
            exact ⟨hdue, @calledBack_timerCallback c env ((Ctx.start dev p).setTimer kind none) kind
              p id⟩
        · -- a timer that is not due is left alone
          refine Or.inl (@hquiet (dev.store p) ?_ ?_ ?_)
          · simp [peerStepOf, turnOf, hat, hdue]
          · exact reconfigured_store (hp ▸ hat) rfl rfl rfl (Clocks.Reconf.refl _)
          · simp [lifeStep, deviceStep, Device.call, hat, hdue]
            rfl
    | setPrivateKey priv => exact Or.inl (hquiet rfl (reconfigured_noiseSetStaticKey priv) rfl)
    | addPeer pk => exact Or.inl (hquiet rfl (reconfigured_deviceAddPeer pk) rfl)
    | removePeer addr =>
      cases hat : dev.peerAt addr with
      | none => exact Or.inl (hquiet rfl (Reconfigured.refl dev) (by simp [lifeStep, deviceStep, hat]))
      | some p =>
        refine Or.inl (hquiet rfl (reconfigured_deviceRemovePeer (Device.mem_of_peerAt hat).1) ?_)
        simp [lifeStep, deviceStep, hat]
    | removeAllPeers => exact Or.inl (hquiet rfl reconfigured_deviceRemoveAllPeers rfl)

end Events

/-! ### Lives -/

/-- The clocks with nothing sent yet. -/
def Clocks.rest (k : Clocks) : Clocks := { k with sent := [] }

/-- The life of a peer: the turns it took and the clocks they left it with.  Between the turns its
persistent keepalive may be reconfigured. -/
inductive Lives (c : Crypto) : List PeerStep → Clocks → Prop
  | start : Lives c [] Clocks.new
  | reconf {hs : List PeerStep} {k k' : Clocks} (h : Lives c hs k) (hre : k.Reconf k') :
    Lives c hs k'
  | turn {hs : List PeerStep} {s : PeerStep} {k' : Clocks} (h : Lives c hs s.before.found)
    (hsent : k'.sent = s.sent) (ht : Turned c s.env s.before k' s.turn) :
    Lives c (hs ++ [s]) k'.rest

section Lives

variable {c : Crypto}

/-- What is known of the history of the peer at an address: it is the life of the record that is at
that address now, it is some life if the record is gone, and it is empty before there is one. -/
structure HistoryInv (c : Crypto) (addr : ℕ) (dev : Device) (hs : List PeerStep) : Prop where
  lives : ∀ p ∈ dev.peers, p.addr = addr → Lives c hs (p.clocks [])
  ended : ∃ k, Lives c hs k
  unborn : dev.nextAddr ≤ addr → hs = []

theorem HistoryInv.reconfigured {addr : ℕ} {dev dev' : Device} {hs : List PeerStep}
    (h : HistoryInv c addr dev hs) (hre : Reconfigured dev dev') :
    HistoryInv c addr dev' hs := by
  refine ⟨fun p' hp' haddr => ?_, h.ended, fun hle => h.unborn (hre.next.trans hle)⟩
  rcases hre.peers p' hp' with ⟨p, hp, heq, hclocks⟩ | ⟨hnew, hclocks⟩
  · exact (h.lives p hp (heq.trans haddr)).reconf hclocks
  · rw [h.unborn (haddr ▸ hnew)]
    exact Lives.start.reconf hclocks

theorem HistoryInv.taken {addr : ℕ} {dev : Device} {r : Handled} {s : PeerStep}
    {hs : List PeerStep} (h : HistoryInv c addr dev hs) (hdev : DeviceInv dev)
    (ht : Taken c dev r s) :
    HistoryInv c addr r.dev (hs ++ ((some s).filter fun s => s.before.addr = addr).toList) := by
  obtain ⟨p', pre, post, hsplit, hafter, haddr', hturn⟩ := ht.frame
  have hmem : s.before ∈ dev.peers := hsplit ▸ List.mem_append_right _ List.mem_cons_self
  by_cases hs' : s.before.addr = addr
  · have hfilter : ((some s).filter fun s => s.before.addr = addr).toList = [s] := by
      simp [Option.filter, hs']
    rw [hfilter]
    have hlife : Lives c (hs ++ [s]) (p'.clocks []) :=
      @Lives.turn c hs s (p'.clocks s.sent) (h.lives _ hmem hs') rfl hturn
    refine ⟨fun q hq hqaddr => ?_, ⟨_, hlife⟩, fun hle => ?_⟩
    · -- the addresses are distinct, so the record at the address is the one the turn left
      have hnodup := hdev.nodup
      rw [hsplit, List.map_append, List.map_cons] at hnodup
      obtain ⟨-, hpost, hdisj⟩ := List.nodup_append.1 hnodup
      rw [hafter] at hq
      rcases List.mem_append.1 hq with hq | hq
      · exact absurd (hqaddr.trans hs'.symm)
          (hdisj _ (List.mem_map_of_mem hq) _ List.mem_cons_self)
      · rcases List.mem_cons.1 hq with rfl | hq
        · exact hlife
        · refine absurd ?_ (List.nodup_cons.1 hpost).1
          rw [hs', ← hqaddr]
          exact List.mem_map_of_mem hq
    · exact absurd (hdev.allocated _ hmem) (not_lt.2 (hs'.symm ▸ ht.next.trans hle))
  · have hfilter : ((some s).filter fun s => s.before.addr = addr).toList = [] := by
      simp [Option.filter, hs']
    rw [hfilter, List.append_nil]
    refine ⟨fun q hq hqaddr => ?_, h.ended, fun hle => h.unborn (ht.next.trans hle)⟩
    rw [hafter] at hq
    rcases List.mem_append.1 hq with hq | hq
    · exact h.lives q (hsplit ▸ List.mem_append_left _ hq) hqaddr
    · rcases List.mem_cons.1 hq with rfl | hq
      · exact absurd (haddr'.symm.trans hqaddr) hs'
      · exact h.lives q (hsplit ▸ List.mem_append_right _ (List.mem_cons_of_mem _ hq)) hqaddr

theorem historyInv_history (addr : ℕ) (es : List LifeEvent) :
    HistoryInv c addr (lifeRun c (deviceInit c) es) (history c addr (deviceInit c) es) := by
  induction es using List.reverseRecOn with
  | nil => exact ⟨fun p hp => (nomatch hp), ⟨_, Lives.start⟩, fun _ => rfl⟩
  | append_singleton es e ih =>
    have hdev : DeviceInv (lifeRun c (deviceInit c) es) := (deviceInv_deviceInit c).lifeRun es
    rw [lifeRun_snoc, history_snoc]
    rcases @turn_or_reconfigured c _ hdev e with ⟨hnone, hre, -⟩ | ⟨s, hsome, -, ht⟩
    · rw [hnone]
      simpa using ih.reconfigured hre
    · rw [hsome]
      exact ih.taken hdev ht

/-- **The history of a peer is a life**, whatever happens to the device. -/
theorem lives_history (addr : ℕ) (es : List LifeEvent) :
    ∃ k, Lives c (history c addr (deviceInit c) es) k := (historyInv_history addr es).ended

end Lives

end Wgx
