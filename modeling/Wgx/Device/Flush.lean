import Wgx.Device.Transport
import Wgx.Noise.Agreement

/-!
# Flushing the staged packets

When a handshake completes, `handle_initiation` and `handle_response` empty the staged queue into
`device_send_to_peer`, which puts a packet back if the keypair it selects is too old or has used up
its counters.  The initiator sends with the new keypair.  The responder still sends with the current
one, if there is one, because the new keypair waits in the next slot; so an expired current keypair
makes its loop run forever, and an exhausted one makes it hand packets over more than once.

* `deviceSendToPeer_sends`, `deviceSendToPeer_stages`: the two things a send does to the queue;
* `flushesOnce_step`: what one round of the loop needs;
* `flushesOnce_iff`: the loop hands each packet over once, in order, exactly if the selected keypair
  is young enough and has enough counters left.
-/

namespace Wgx

variable {c : Crypto} {env : Env}

/-! ### What a call leaves alone -/

/-- The call that led from `x` to `y` changed nothing of the peer but the handshake, the cookie
state, the timers and the count of bytes sent. -/
def HandshakeOnly (x y : Ctx) : Prop :=
  ∃ hs ck ts tx,
    y.peer = { x.peer with handshake := hs, cookie := ck, timers := ts, txBytes := tx }

theorem HandshakeOnly.refl (x : Ctx) : HandshakeOnly x x := ⟨_, _, _, _, rfl⟩

theorem HandshakeOnly.trans {x y z : Ctx} (h1 : HandshakeOnly x y) (h2 : HandshakeOnly y z) :
    HandshakeOnly x z := by
  obtain ⟨_, _, _, _, h1⟩ := h1
  obtain ⟨hs, ck, ts, tx, h2⟩ := h2
  exact ⟨hs, ck, ts, tx, by rw [h2, h1]⟩

theorem handshakeOnly_udpSend (x : Ctx) (ep : Endpoint) (d : Datagram) :
    HandshakeOnly x (x.udpSend env ep d) := by
  unfold Ctx.udpSend
  split_ifs <;> exact ⟨_, _, _, _, rfl⟩

theorem handshakeOnly_timersDataSent (x : Ctx) (total : ℕ) :
    HandshakeOnly x { x with peer := timersDataSent env (x.peer.countTx env total) } := by
  unfold timersDataSent Peer.countTx
  split_ifs <;> exact ⟨_, _, _, _, rfl⟩

theorem handshakeOnly_timersHandshakeInitiated (x : Ctx) :
    HandshakeOnly x (timersHandshakeInitiated env x) := by
  unfold timersHandshakeInitiated
  split_ifs <;> exact ⟨_, _, _, _, rfl⟩

theorem handshakeOnly_noiseCreateInitiation (x : Ctx) :
    HandshakeOnly x (noiseCreateInitiation c env x).1 := by
  simp only [noiseCreateInitiation]
  split
  · exact ⟨_, _, _, _, rfl⟩
  · split_ifs <;> exact ⟨_, _, _, _, rfl⟩

theorem handshakeOnly_deviceInitiateHandshake (x : Ctx) :
    HandshakeOnly x (deviceInitiateHandshake c env x) := by
  simp only [deviceInitiateHandshake, deviceInitiateHandshakeInner]
  split_ifs
  · exact .refl x
  · set y := x.setHandshake { x.peer.handshake with lastSentHandshakeMs := env.now }
    have hy : HandshakeOnly x y := ⟨_, _, _, _, rfl⟩
    have hcreate : HandshakeOnly x (noiseCreateInitiation c env y).1 :=
      hy.trans (handshakeOnly_noiseCreateInitiation y)
    split
    next z hz => rwa [hz] at hcreate
    next z msg hz =>
      rw [hz] at hcreate
      split
      · exact hcreate
      · exact (hcreate.trans (handshakeOnly_udpSend _ _ _)).trans
          (handshakeOnly_timersHandshakeInitiated _)

theorem handshakeOnly_timersHandshakeBegin (x : Ctx) :
    HandshakeOnly x (timersHandshakeBegin c env x) := by
  unfold timersHandshakeBegin
  split_ifs
  · exact .refl x
  · exact handshakeOnly_deviceInitiateHandshake x
  · exact .refl x

/-! ### What a send does to the queue -/

/-- The keypair that a send selects. -/
def Peer.sender (peer : Peer) : Option Keypair := peer.currentKeypair.or peer.nextKeypair

theorem HandshakeOnly.staged {x y : Ctx} (h : HandshakeOnly x y) : y.peer.staged = x.peer.staged := by
  obtain ⟨_, _, _, _, h⟩ := h
  rw [h]

theorem HandshakeOnly.sender {x y : Ctx} (h : HandshakeOnly x y) : y.peer.sender = x.peer.sender := by
  obtain ⟨_, _, _, _, h⟩ := h
  rw [h]
  rfl

/-- The selected keypair may still send `n` packets. -/
def CanSend (env : Env) (peer : Peer) (n : ℕ) : Prop :=
  ∃ kp, peer.sender = some kp ∧ (env.now - kp.createdAtMs).toNat < rejectAfterTimeMs ∧
    kp.sendNonce.toNat + n ≤ rejectAfterMessages.toNat

theorem sender_countSend {peer : Peer} {kp : Keypair} (h : peer.sender = some kp) :
    peer.countSend.sender = some { kp with sendNonce := kp.sendNonce + 1 } := by
  unfold Peer.sender Peer.countSend at *
  cases hc : peer.currentKeypair with
  | some kp' =>
    rw [hc] at h
    cases h
    rfl
  | none =>
    rw [hc] at h
    simp only [Option.none_or] at h
    simp [h]

theorem staged_countSend (peer : Peer) : peer.countSend.staged = peer.staged := by
  unfold Peer.countSend
  split <;> rfl

/-- A packet counted against a keypair that has counters left is sent, not staged. -/
theorem handshakeOnly_deviceSendCounted {x : Ctx} {kp : Keypair} {pkt : List Byte}
    (hnonce : kp.sendNonce < rejectAfterMessages) :
    HandshakeOnly x (deviceSendCounted c env x kp pkt) := by
  have hbegin : ∀ y : Ctx, HandshakeOnly y
      (if rekeyAfterMessages ≤ kp.sendNonce then timersHandshakeBegin c env y else y) := by
    intro y
    split_ifs
    · exact handshakeOnly_timersHandshakeBegin y
    · exact .refl y
  simp only [deviceSendCounted]
  rw [if_neg (BitVec.not_le.2 hnonce)]
  refine (hbegin x).trans ?_
  generalize (if rekeyAfterMessages ≤ kp.sendNonce then timersHandshakeBegin c env x else x) = y
  cases y.peer.endpoint with
  | none => exact .refl y
  | some ep =>
    exact ((handshakeOnly_udpSend y ep _).trans (handshakeOnly_timersDataSent _ _)).trans (hbegin _)

/-- With a keypair that may send, a packet leaves the queue alone and uses up one counter. -/
theorem deviceSendToPeer_sends {x : Ctx} {pkt : List Byte} {kp : Keypair}
    (hpkt : pkt.length ≤ wgDefaultMtu) (hkp : x.peer.sender = some kp)
    (hage : (env.now - kp.createdAtMs).toNat < rejectAfterTimeMs)
    (hnonce : kp.sendNonce < rejectAfterMessages) :
    (deviceSendToPeer c env x pkt).peer.staged = x.peer.staged ∧
      (deviceSendToPeer c env x pkt).peer.sender =
        some { kp with sendNonce := kp.sendNonce + 1 } := by
  have hcall : deviceSendToPeer c env x pkt =
      deviceSendCounted c env { x with peer := x.peer.countSend } kp pkt := by
    simp only [Peer.sender] at hkp
    unfold deviceSendToPeer
    rw [if_neg (by omega)]
    simp only [hkp]
    rw [if_neg (by omega)]
  have hframe : HandshakeOnly { x with peer := x.peer.countSend }
      (deviceSendCounted c env { x with peer := x.peer.countSend } kp pkt) :=
    handshakeOnly_deviceSendCounted hnonce
  rw [hcall]
  exact ⟨hframe.staged.trans (staged_countSend _), hframe.sender.trans (sender_countSend hkp)⟩

theorem contents_pop (q : StagedQueue) (hcount : 0 < q.count) :
    q.contents = q.pkts q.head :: (q.pop hcount).contents := q.window_eq_cons hcount

/-- Without a keypair that may send, a packet goes back into the queue. -/
theorem deviceSendToPeer_stages {x : Ctx} {pkt : List Byte}
    (hlen : 1 ≤ pkt.length ∧ pkt.length ≤ wgDefaultMtu) (hcount : x.peer.staged.count < peerQueueSize)
    (hsend : ¬ CanSend env x.peer 1) :
    (deviceSendToPeer c env x pkt).peer.staged = x.peer.staged.push pkt hcount hlen := by
  have hstage : ∀ y : Ctx, y.peer.staged = x.peer.staged →
      (y.stage pkt).peer.staged = x.peer.staged.push pkt hcount hlen := by
    intro y hy
    have hcount' : y.peer.staged.count < peerQueueSize := by rw [hy]; exact hcount
    simp only [Ctx.stage, peerStagePacket, dif_pos hlen, dif_pos hcount']
    congr 1
  unfold deviceSendToPeer
  rw [if_neg (by omega)]
  cases hkp : x.peer.currentKeypair.or x.peer.nextKeypair with
  | none =>
    exact (handshakeOnly_deviceInitiateHandshake _).staged.trans (hstage x rfl)
  | some kp =>
    simp only
    split_ifs with hage
    · exact (handshakeOnly_timersHandshakeBegin _).staged.trans (hstage x rfl)
    · have hnonce : rejectAfterMessages ≤ kp.sendNonce := by
        by_contra hlt
        exact hsend ⟨kp, hkp, by omega, BitVec.lt_def.1 (BitVec.not_le.1 hlt)⟩
      rw [deviceSendCounted, if_pos hnonce]
      exact (handshakeOnly_timersHandshakeBegin _).staged.trans
        (hstage { x with peer := x.peer.countSend } (staged_countSend x.peer))

/-! ### The loop -/

variable (c env)

/-- The loop ends, and has handed each packet that was staged to `device_send_to_peer` once, in
order. -/
def FlushesOnce (x : Ctx) : Prop :=
  ∃ fuel x', flushStaged c env fuel x = some (x', x.peer.staged.contents)

/-- The state after one round of the loop. -/
def flushRound (x : Ctx) (h : 0 < x.peer.staged.count) : Ctx :=
  deviceSendToPeer c env { x with peer := { x.peer with staged := x.peer.staged.pop h } }
    (x.peer.staged.pkts x.peer.staged.head)

variable {c env}

theorem head_pkt_len (q : StagedQueue) (h : 0 < q.count) :
    1 ≤ (q.pkts q.head).length ∧ (q.pkts q.head).length ≤ wgDefaultMtu := by
  apply q.pkts_len
  rw [q.window_eq_cons h]
  exact List.mem_cons_self

theorem flushRound_sends {x : Ctx} (h : 0 < x.peer.staged.count) {kp : Keypair}
    (hkp : x.peer.sender = some kp) (hage : (env.now - kp.createdAtMs).toNat < rejectAfterTimeMs)
    (hnonce : kp.sendNonce < rejectAfterMessages) :
    (flushRound c env x h).peer.staged = x.peer.staged.pop h ∧
      (flushRound c env x h).peer.sender = some { kp with sendNonce := kp.sendNonce + 1 } :=
  deviceSendToPeer_sends (head_pkt_len _ h).2 hkp hage hnonce

theorem flushRound_stages {x : Ctx} (h : 0 < x.peer.staged.count) (hsend : ¬ CanSend env x.peer 1) :
    (flushRound c env x h).peer.staged.count = x.peer.staged.count := by
  have hcount : (x.peer.staged.pop h).count < peerQueueSize := by
    have := x.peer.staged.count_le
    show x.peer.staged.count - 1 < _
    omega
  have hround : (flushRound c env x h).peer.staged = _ :=
    deviceSendToPeer_stages (head_pkt_len _ h) hcount hsend
  rw [hround]
  show x.peer.staged.count - 1 + 1 = _
  omega

theorem canSend_one {peer : Peer} (h : CanSend env peer 1) :
    ∃ kp, peer.sender = some kp ∧ (env.now - kp.createdAtMs).toNat < rejectAfterTimeMs ∧
      kp.sendNonce < rejectAfterMessages := by
  obtain ⟨kp, hkp, hage, hnonce⟩ := h
  exact ⟨kp, hkp, hage, BitVec.lt_def.2 (by omega)⟩

/-- The loop hands over at least as many packets as were staged. -/
theorem length_flushStaged {fuel : ℕ} {x x' : Ctx} {ps : List (List Byte)}
    (h : flushStaged c env fuel x = some (x', ps)) : x.peer.staged.count ≤ ps.length := by
  induction fuel generalizing x x' ps with
  | zero =>
    rw [flushStaged] at h
    split_ifs at h with h0
    omega
  | succ fuel ih =>
    rw [flushStaged] at h
    split_ifs at h with h0
    · obtain ⟨⟨y, qs⟩, hy, heq⟩ := Option.map_eq_some_iff.1 h
      have hqs : ps = _ :: qs := (Prod.mk.inj heq).2.symm
      have hle := ih hy
      have hround : x.peer.staged.count - 1 ≤ (flushRound c env x h0).peer.staged.count := by
        by_cases hsend : CanSend env x.peer 1
        · obtain ⟨kp, hkp, hage, hnonce⟩ := canSend_one hsend
          rw [(flushRound_sends h0 hkp hage hnonce).1]
          exact le_rfl
        · rw [flushRound_stages h0 hsend]
          omega
      rw [hqs, List.length_cons]
      have : x.peer.staged.count - 1 ≤ qs.length := hround.trans hle
      omega
    · omega

/-- **One round**: the loop flushes once exactly if the first packet is sent and the loop flushes
once from there. -/
theorem flushesOnce_step {x : Ctx} (h : 0 < x.peer.staged.count) :
    FlushesOnce c env x ↔ CanSend env x.peer 1 ∧ FlushesOnce c env (flushRound c env x h) := by
  constructor
  · rintro ⟨fuel, x', hf⟩
    cases fuel with
    | zero => rw [flushStaged, if_neg (by omega)] at hf; cases hf
    | succ fuel =>
      rw [flushStaged, dif_pos h] at hf
      obtain ⟨⟨y, qs⟩, hy, heq⟩ := Option.map_eq_some_iff.1 hf
      have hqs : qs = (x.peer.staged.pop h).contents := by
        have := (Prod.mk.inj heq).2
        rw [contents_pop _ h] at this
        exact (List.cons.inj this).2
      -- a packet put back would be handed over again
      have hsend : CanSend env x.peer 1 := by
        by_contra hsend
        have hle := length_flushStaged hy
        have hstay : (flushRound c env x h).peer.staged.count = _ := flushRound_stages h hsend
        have hlen : qs.length = x.peer.staged.count - 1 := by
          rw [hqs, StagedQueue.length_contents]
          rfl
        have : x.peer.staged.count ≤ qs.length := hstay ▸ hle
        omega
      obtain ⟨kp, hkp, hage, hnonce⟩ := canSend_one hsend
      refine ⟨hsend, fuel, y, ?_⟩
      rw [(flushRound_sends h hkp hage hnonce).1, ← hqs]
      exact hy
  · rintro ⟨hsend, fuel, x', hf⟩
    obtain ⟨kp, hkp, hage, hnonce⟩ := canSend_one hsend
    rw [(flushRound_sends h hkp hage hnonce).1] at hf
    refine ⟨fuel + 1, x', ?_⟩
    rw [flushStaged, dif_pos h, contents_pop _ h]
    have hround : flushStaged c env fuel (deviceSendToPeer c env _ _) = _ := hf
    simp only [hround, Option.map_some]

/-- The loop flushes once exactly if the selected keypair may send all the staged packets. -/
theorem flushesOnce_iff (x : Ctx) :
    FlushesOnce c env x ↔ x.peer.staged.count = 0 ∨ CanSend env x.peer x.peer.staged.count := by
  generalize hn : x.peer.staged.count = n
  induction n generalizing x with
  | zero =>
    have hnil : x.peer.staged.contents = [] := List.eq_nil_of_length_eq_zero (by simp [hn])
    refine ⟨fun _ => Or.inl rfl, fun _ => ⟨0, x, ?_⟩⟩
    rw [flushStaged, if_pos hn, hnil]
  | succ n ih =>
    have h : 0 < x.peer.staged.count := by omega
    have hbound : rejectAfterMessages.toNat < 2 ^ 64 := rejectAfterMessages.isLt
    rw [flushesOnce_step h]
    constructor
    · rintro ⟨hsend, hrest⟩
      obtain ⟨kp, hkp, hage, hnonce⟩ := canSend_one hsend
      obtain ⟨hstaged, hsender⟩ := flushRound_sends (c := c) h hkp hage hnonce
      have hcount : (flushRound c env x h).peer.staged.count = n := by
        rw [hstaged]
        show x.peer.staged.count - 1 = n
        omega
      refine Or.inr ⟨kp, hkp, hage, ?_⟩
      have hlt := BitVec.lt_def.1 hnonce
      rcases (ih _ hcount).1 hrest with h0 | ⟨kp', hkp', -, hle⟩
      · omega
      · rw [hsender] at hkp'
        cases hkp'
        have hone : (kp.sendNonce + 1).toNat = kp.sendNonce.toNat + 1 := by
          rw [BitVec.toNat_add]
          exact Nat.mod_eq_of_lt (by simpa using by omega)
        have hle' : (kp.sendNonce + 1).toNat + n ≤ rejectAfterMessages.toNat := hle
        omega
    · rintro (h0 | ⟨kp, hkp, hage, hle⟩)
      · omega
      have hlt : kp.sendNonce < rejectAfterMessages := BitVec.lt_def.2 (by omega)
      obtain ⟨hstaged, hsender⟩ := flushRound_sends (c := c) h hkp hage hlt
      have hcount : (flushRound c env x h).peer.staged.count = n := by
        rw [hstaged]
        show x.peer.staged.count - 1 = n
        omega
      refine ⟨⟨kp, hkp, hage, by omega⟩, (ih _ hcount).2 (Or.inr ⟨_, hsender, hage, ?_⟩)⟩
      show (kp.sendNonce + 1).toNat + n ≤ _
      rw [BitVec.toNat_add, Nat.mod_eq_of_lt (by simpa using by omega)]
      simpa using by omega

/-- A round with an expired keypair changes neither the selected keypair nor the number of staged
packets. -/
theorem flushRound_expired {x : Ctx} (h : 0 < x.peer.staged.count) {kp : Keypair}
    (hkp : x.peer.sender = some kp)
    (hage : rejectAfterTimeMs ≤ (env.now - kp.createdAtMs).toNat) :
    (flushRound c env x h).peer.sender = some kp ∧
      (flushRound c env x h).peer.staged.count = x.peer.staged.count := by
  have hsend : ¬ CanSend env x.peer 1 := by
    rintro ⟨kp', hkp', hage', -⟩
    rw [hkp] at hkp'
    cases hkp'
    omega
  refine ⟨?_, flushRound_stages h hsend⟩
  have hstage : ∀ (y : Ctx) (pkt : List Byte), (y.stage pkt).peer.sender = y.peer.sender := by
    intro y pkt
    simp only [Ctx.stage, peerStagePacket]
    split_ifs <;> rfl
  have hlen := head_pkt_len _ h
  unfold flushRound deviceSendToPeer
  rw [if_neg (by omega)]
  simp only [Peer.sender] at hkp
  simp only [hkp]
  rw [if_pos hage]
  exact (handshakeOnly_timersHandshakeBegin _).sender.trans ((hstage _ _).trans hkp)

/-- **With an expired keypair the loop never ends.** -/
theorem flushStaged_expired {x : Ctx} (h : 0 < x.peer.staged.count) {kp : Keypair}
    (hkp : x.peer.sender = some kp) (hage : rejectAfterTimeMs ≤ (env.now - kp.createdAtMs).toNat)
    (fuel : ℕ) : flushStaged c env fuel x = none := by
  induction fuel generalizing x with
  | zero => rw [flushStaged, if_neg (by omega)]
  | succ fuel ih =>
    obtain ⟨hsender, hcount⟩ := flushRound_expired (c := c) h hkp hage
    rw [flushStaged, dif_pos h]
    have hround : flushStaged c env fuel (flushRound c env x h) = none := ih (by omega) hsender
    exact congrArg (Option.map _) hround

/-! ### After a handshake -/

variable (c env)

/-- The state in which the loop starts: the session has begun and the timers are set. -/
def handshakeCompleted (x : Ctx) : Ctx :=
  let x := (noiseBeginSession c env x).1
  { x with peer := timersHandshakeComplete env x.peer }

theorem timersHandshakeComplete_frame (peer : Peer) :
    (timersHandshakeComplete env peer).staged = peer.staged ∧
      (timersHandshakeComplete env peer).sender = peer.sender := by
  unfold timersHandshakeComplete
  split_ifs <;> exact ⟨rfl, rfl⟩

/-- A keypair derived now may send a whole queue. -/
theorem session_canSend (x : Ctx) :
    (env.now - (x.session c env).createdAtMs).toNat < rejectAfterTimeMs ∧
      (x.session c env).sendNonce.toNat + x.peer.staged.count ≤ rejectAfterMessages.toNat := by
  have hcount := x.peer.staged.count_le
  simp only [peerQueueSize] at hcount
  constructor
  · show (env.now - env.now).toNat < _
    rw [BitVec.sub_self]
    decide
  · have hreject : 512 ≤ rejectAfterMessages.toNat := by decide
    show (0 : BitVec 64).toNat + _ ≤ _
    simpa using by omega

theorem handshakeCompleted_initiator {x : Ctx} (h : x.peer.handshake.state = .responseConsumed) :
    (handshakeCompleted c env x).peer.staged = x.peer.staged ∧
      (handshakeCompleted c env x).peer.sender = some (x.session c env) := by
  obtain ⟨hstaged, hsender⟩ := timersHandshakeComplete_frame env (x.rotated c env).2
  rw [handshakeCompleted, noiseBeginSession_eq (Or.inl h)]
  rw [rotated_initiator h] at *
  exact ⟨hstaged, hsender⟩

/-- The responder still sends with its current keypair if it has one. -/
theorem handshakeCompleted_responder {x : Ctx} (h : x.peer.handshake.state = .responseCreated) :
    (handshakeCompleted c env x).peer.staged = x.peer.staged ∧
      (handshakeCompleted c env x).peer.sender =
        x.peer.currentKeypair.or (some (x.session c env)) := by
  obtain ⟨hstaged, hsender⟩ := timersHandshakeComplete_frame env (x.rotated c env).2
  rw [handshakeCompleted, noiseBeginSession_eq (Or.inr h)]
  rw [rotated_responder h] at *
  exact ⟨hstaged, hsender⟩

variable {c env}

/-- **When the staged packets are flushed once.**  After a completed handshake the loop ends and has
handed every staged packet over exactly once, in order, if and only if this side was the initiator,
or nothing was staged, or there was no current keypair, or the current keypair is younger than
`REJECT_AFTER_TIME_MS` and has a counter left for every staged packet. -/
theorem flush_after_handshake_iff (x : Ctx)
    (h : x.peer.handshake.state = .responseConsumed ∨ x.peer.handshake.state = .responseCreated) :
    FlushesOnce c env (handshakeCompleted c env x) ↔
      x.peer.handshake.state = .responseConsumed ∨ x.peer.staged.count = 0 ∨
        x.peer.currentKeypair = none ∨
        ∃ kp, x.peer.currentKeypair = some kp ∧
          (env.now - kp.createdAtMs).toNat < rejectAfterTimeMs ∧
          kp.sendNonce.toNat + x.peer.staged.count ≤ rejectAfterMessages.toNat := by
  obtain ⟨hage, hnonce⟩ := session_canSend c env x
  rw [flushesOnce_iff, CanSend]
  rcases h with h | h
  · obtain ⟨hstaged, hsender⟩ := handshakeCompleted_initiator c env h
    rw [hstaged, hsender]
    simp only [h, true_or, iff_true]
    exact Or.inr ⟨_, rfl, hage, hnonce⟩
  · obtain ⟨hstaged, hsender⟩ := handshakeCompleted_responder c env h
    rw [hstaged, hsender]
    have hne : ¬ x.peer.handshake.state = .responseConsumed := by simp [h]
    simp only [hne, false_or]
    cases x.peer.currentKeypair with
    | none => simpa using Or.inr ⟨hage, hnonce⟩
    | some kp => simp

/-- Three minutes after the start. -/
def lateEnv : Env := { toyEnv 5 with now := 180000 }

/-- A responder that has answered an initiation while its current keypair, derived at the start, has
expired and one packet of one byte is staged. -/
def lateResponder : Ctx :=
  let peer := toyPeer (List.replicate 32 1) (List.replicate 32 2)
  Ctx.start (toyDevice (List.replicate 32 1) (List.replicate 32 2))
    { peer with
      currentKeypair := some
        { addr := 9, sendNonce := 0, sendKey := zeroKey, recvKey := zeroKey,
          replay := Replay.replayReset, isInitiator := true, createdAtMs := 0, localIndex := 3,
          remoteIndex := 4 }
      staged := StagedQueue.empty.push [0x45#8] (by decide) (by decide)
      handshake := { peer.handshake with state := .responseCreated, localIndex := 8 } }

theorem flush_after_handshake_iff_late :
    lateResponder.peer.handshake.state = .responseCreated ∧
      (FlushesOnce toyCrypto lateEnv (handshakeCompleted toyCrypto lateEnv lateResponder) ↔
        lateResponder.peer.handshake.state = .responseConsumed ∨
          lateResponder.peer.staged.count = 0 ∨ lateResponder.peer.currentKeypair = none ∨
          ∃ kp, lateResponder.peer.currentKeypair = some kp ∧
            (lateEnv.now - kp.createdAtMs).toNat < rejectAfterTimeMs ∧
            kp.sendNonce.toNat + lateResponder.peer.staged.count ≤ rejectAfterMessages.toNat) :=
  ⟨rfl, flush_after_handshake_iff lateResponder (Or.inr rfl)⟩

/-- The loop of that responder never ends. -/
theorem flush_never_ends_late :
    (∀ fuel, flushStaged toyCrypto lateEnv fuel
      (handshakeCompleted toyCrypto lateEnv lateResponder) = none) ∧
    ¬ FlushesOnce toyCrypto lateEnv (handshakeCompleted toyCrypto lateEnv lateResponder) := by
  have hnone : ∀ fuel, flushStaged toyCrypto lateEnv fuel
      (handshakeCompleted toyCrypto lateEnv lateResponder) = none := by
    obtain ⟨hstaged, hsender⟩ := handshakeCompleted_responder toyCrypto lateEnv
      (show lateResponder.peer.handshake.state = .responseCreated from rfl)
    refine flushStaged_expired ?_ hsender (by decide)
    rw [hstaged]
    decide
  refine ⟨hnone, ?_⟩
  rintro ⟨fuel, x', hf⟩
  rw [hnone fuel] at hf
  cases hf

end Wgx
