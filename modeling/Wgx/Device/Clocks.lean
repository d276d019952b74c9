import Wgx.Device.Nonce
import Wgx.Device.Timers
import Mathlib.Logic.Relation

/-!
# What the timing rules look at

The rules on how often a peer sends handshakes and keepalives, how long a keypair is used and which
initiations are new depend on a few fields of its record: `Clocks`.  Here is, once for all rules,
what every function of the sending side does to them.

* `Clocks`, `Ctx.clocks`: the fields, and what was sent;
* `HandshakeBegun`: what `device_initiate_handshake_inner` does once it has decided to go on;
* `SendOp`, `Sends`: the operations that the sending functions consist of, and their chains;
* `sends_deviceSendToPeer`, `sends_flushStaged`: the sending functions are such chains.
-/

namespace Wgx

/-- The fields of a peer that the timing rules look at, and the datagrams sent so far. -/
structure Clocks where
  lastTimestamp : List Byte
  lastInitiationConsumptionMs : BitVec 64
  lastSentHandshakeMs : BitVec 64
  currentKeypair : Option Keypair
  nextKeypair : Option Keypair
  prevKeypair : Option Keypair
  timers : Timers
  needAnotherKeepalive : Bool
  persistentKeepaliveMs : BitVec 32
  sent : List (Endpoint × Datagram)

/-- The clocks of a record, with what was sent. -/
def Peer.clocks (p : Peer) (sent : List (Endpoint × Datagram)) : Clocks where
  lastTimestamp := p.handshake.lastTimestamp
  lastInitiationConsumptionMs := p.handshake.lastInitiationConsumptionMs
  lastSentHandshakeMs := p.handshake.lastSentHandshakeMs
  currentKeypair := p.currentKeypair
  nextKeypair := p.nextKeypair
  prevKeypair := p.prevKeypair
  timers := p.timers
  needAnotherKeepalive := p.needAnotherKeepalive
  persistentKeepaliveMs := p.persistentKeepaliveMs
  sent := sent

/-- The clocks during a call. -/
def Ctx.clocks (x : Ctx) : Clocks := x.peer.clocks x.sent

/-! ### Operations -/

/-- A datagram goes out if the send succeeds. -/
def Clocks.udpSend (env : Env) (k : Clocks) (ep : Endpoint) (d : Datagram) : Clocks :=
  if env.udpOk then { k with sent := k.sent ++ [(ep, d)] } else k

/-- A timer is set or stopped. -/
def Clocks.setTimer (k : Clocks) (kind : TimerKind) (due : Option ℕ) : Clocks :=
  { k with timers := k.timers.set kind due }

/-- A timer is started, unless the timers of the peer are stopped for good. -/
def Clocks.startTimer (env : Env) (k : Clocks) (kind : TimerKind) (timeout : ℕ) : Clocks :=
  if k.timers.active then k.setTimer kind (uvTimerStart env timeout) else k

/-- The keypair that sends. -/
def Clocks.sender (k : Clocks) : Option Keypair := k.currentKeypair.or k.nextKeypair

/-- The keypair that sends has used a counter. -/
def Clocks.countSend (k : Clocks) : Clocks :=
  match k.currentKeypair with
  | some kp => { k with currentKeypair := some { kp with sendNonce := kp.sendNonce + 1 } }
  | none =>
    { k with nextKeypair := k.nextKeypair.map fun kp => { kp with sendNonce := kp.sendNonce + 1 } }

/-- The keypair is younger than `REJECT_AFTER_TIME_MS`. -/
def Keypair.Young (env : Env) (kp : Keypair) : Prop :=
  (env.now - kp.createdAtMs).toNat < rejectAfterTimeMs

instance (env : Env) (kp : Keypair) : Decidable (kp.Young env) := Nat.decLt _ _

/-- The message is the packet, sealed under the keypair with one of its counters. -/
def Keypair.Seals (c : Crypto) (kp : Keypair) (pkt : List Byte) (msg : MsgTransport) : Prop :=
  ∃ n, msg = ({ kp with sendNonce := n } : Keypair).seal c pkt

/-- What is left of `device_initiate_handshake_inner` once it has decided to go on: the time is
noted, and an initiation is sent and the timer of its retransmission started, unless there is no
initiation or no endpoint. -/
inductive HandshakeBegun (env : Env) (k : Clocks) : Clocks → Prop
  | failed : HandshakeBegun env k { k with lastSentHandshakeMs := env.now }
  | launched (ep : Endpoint) (msg : MsgInitiation) (jitter : ℕ) :
    HandshakeBegun env k ((({ k with lastSentHandshakeMs := env.now } : Clocks).udpSend env ep
      (.initiation msg)).startTimer env .retransmitHandshake (rekeyTimeoutMs + jitter))

/-- The keypair that sends is young, and far from `REKEY_AFTER_MESSAGES` by `n` messages: that many
packets go out without a handshake. -/
def Clocks.Calm (env : Env) (n : ℕ) (k : Clocks) : Prop :=
  ∃ kp, k.sender = some kp ∧ kp.Young env ∧
    kp.sendNonce.toNat + n ≤ rekeyAfterMessages.toNat

/-- One operation of the sending side.  Handshakes are initiated only if `I` says so, and the
packets that are sealed are as `P` says. -/
inductive SendOp (c : Crypto) (env : Env) (I : Prop) (P : List Byte → Prop) :
    Clocks → Clocks → Prop
  /-- A handshake is initiated; the last one is old enough. -/
  | initiate {k k' : Clocks} (hI : I)
    (hrate : rekeyTimeoutMs ≤ (env.now - k.lastSentHandshakeMs).toNat)
    (h : HandshakeBegun env k k') : SendOp c env I P k k'
  /-- A counter is used. -/
  | count (k : Clocks) : SendOp c env I P k k.countSend
  /-- A packet is sealed under a young keypair and handed to UDP. -/
  | transport (k : Clocks) {kp : Keypair} {pkt : List Byte} {msg : MsgTransport} (ep : Endpoint)
    (hkp : k.sender = some kp) (hyoung : kp.Young env) (hseal : kp.Seals c pkt msg) (hpkt : P pkt) :
    SendOp c env I P k ((k.udpSend env ep (.transport msg)).startTimer env .sendKeepalive
      keepaliveTimeoutMs)

/-- A chain of operations of the sending side. -/
def Sends (c : Crypto) (env : Env) (I : Prop) (P : List Byte → Prop) : Clocks → Clocks → Prop :=
  Relation.ReflTransGen (SendOp c env I P)

section Chains

variable {c : Crypto} {env : Env} {I I' : Prop} {P Q : List Byte → Prop} {k k' k'' : Clocks}

theorem Sends.refl (k : Clocks) : Sends c env I P k k := Relation.ReflTransGen.refl

theorem Sends.trans (h1 : Sends c env I P k k') (h2 : Sends c env I P k' k'') :
    Sends c env I P k k'' := Relation.ReflTransGen.trans h1 h2

theorem SendOp.sends (h : SendOp c env I P k k') : Sends c env I P k k' :=
  Relation.ReflTransGen.single h

theorem SendOp.mono (hI : I → I') (hPQ : ∀ pkt, P pkt → Q pkt) (h : SendOp c env I P k k') :
    SendOp c env I' Q k k' := by
  cases h with
  | initiate hi hrate h => exact .initiate (hI hi) hrate h
  | count => exact .count k
  | transport ep hkp hyoung hseal hpkt => exact .transport k ep hkp hyoung hseal (hPQ _ hpkt)

theorem Sends.mono (hI : I → I') (hPQ : ∀ pkt, P pkt → Q pkt) (h : Sends c env I P k k') :
    Sends c env I' Q k k' := Relation.ReflTransGen.mono (fun _ _ => SendOp.mono hI hPQ) _ _ h

/-- **The rule of the chains**: what every operation keeps, every chain keeps. -/
theorem Sends.induct {J : Clocks → Prop} (hstep : ∀ k k', SendOp c env I P k k' → J k → J k')
    (h : Sends c env I P k k') (h0 : J k) : J k' := by
  induction h with
  | refl => exact h0
  | tail _ hlast ih => exact hstep _ _ hlast ih

end Chains

/-! ### The sending functions -/

section Functions

variable {c : Crypto} {env : Env} {I : Prop} {P : List Byte → Prop} {x y : Ctx}

@[simp] theorem clocks_udpSend (ep : Endpoint) (d : Datagram) :
    (x.udpSend env ep d).clocks = x.clocks.udpSend env ep d := by
  unfold Ctx.udpSend Clocks.udpSend
  split_ifs <;> rfl

theorem clocks_timersHandshakeInitiated : ∃ jitter,
    (timersHandshakeInitiated env x).clocks =
      x.clocks.startTimer env .retransmitHandshake (rekeyTimeoutMs + jitter) := by
  unfold timersHandshakeInitiated Clocks.startTimer
  show ∃ jitter, Ctx.clocks (if !x.peer.timers.active then _ else _) =
    if x.peer.timers.active then _ else _
  cases x.peer.timers.active
  · exact ⟨0, rfl⟩
  · exact ⟨_, rfl⟩

theorem clocks_countTx (p : Peer) (total : ℕ) (sent : List (Endpoint × Datagram)) :
    (p.countTx env total).clocks sent = p.clocks sent := by
  unfold Peer.countTx
  split_ifs <;> rfl

theorem clocks_timersDataSent (p : Peer) (sent : List (Endpoint × Datagram)) :
    (timersDataSent env p).clocks sent =
      (p.clocks sent).startTimer env .sendKeepalive keepaliveTimeoutMs := by
  unfold timersDataSent Clocks.startTimer
  show _ = if p.timers.active then _ else _
  split_ifs with hoff hon hon
  · simp [hon] at hoff
  · rfl
  · rfl
  · simp [hon] at hoff

theorem clocks_stage (pkt : List Byte) : (x.stage pkt).clocks = x.clocks := by
  unfold Ctx.stage peerStagePacket
  split_ifs <;> rfl

theorem clocks_countSend (p : Peer) (sent : List (Endpoint × Datagram)) :
    p.countSend.clocks sent = (p.clocks sent).countSend := by
  obtain ⟨_, _, _, _, cur, _, _, _, _, _, _, _, _, _, _, _, _⟩ := p
  cases cur <;> rfl

/-- Making an initiation leaves the clocks alone. -/
theorem clocks_noiseCreateInitiation : (noiseCreateInitiation c env x).1.clocks = x.clocks := by
  simp only [noiseCreateInitiation]
  split
  · rfl
  · split_ifs <;> rfl

/-- A handshake is initiated, unless the last one is too recent and the call is not forced. -/
theorem begun_deviceInitiateHandshakeInner (force : Bool) :
    (force = false ∧ (env.now - x.peer.handshake.lastSentHandshakeMs).toNat < rekeyTimeoutMs ∧
        (deviceInitiateHandshakeInner c env x force).1 = x) ∨
      ((force = true ∨
          rekeyTimeoutMs ≤ (env.now - x.peer.handshake.lastSentHandshakeMs).toNat) ∧
        HandshakeBegun env x.clocks (deviceInitiateHandshakeInner c env x force).1.clocks) := by
  simp only [deviceInitiateHandshakeInner]
  split_ifs with hrate
  · exact Or.inl ⟨by simpa using hrate.1, hrate.2, rfl⟩
  · refine Or.inr ⟨?_, ?_⟩
    · cases force with
      | true => exact Or.inl rfl
      | false => exact Or.inr (by simpa using hrate)
    · set z := x.setHandshake { x.peer.handshake with lastSentHandshakeMs := env.now }
      have hz : z.clocks = { x.clocks with lastSentHandshakeMs := env.now } := rfl
      have hcreate : (noiseCreateInitiation c env z).1.clocks = z.clocks :=
        clocks_noiseCreateInitiation
      split
      next w hw =>
        rw [hw] at hcreate
        rw [hcreate, hz]
        exact .failed
      next w msg hw =>
        rw [hw] at hcreate
        split
        · rw [hcreate, hz]
          exact .failed
        next ep hep =>
          obtain ⟨jitter, hj⟩ := @clocks_timersHandshakeInitiated env
            (w.udpSend env ep (.initiation msg))
          rw [hj, clocks_udpSend, hcreate, hz]
          exact .launched ep msg jitter

theorem sends_deviceInitiateHandshake (hI : I) :
    Sends c env I P x.clocks (deviceInitiateHandshake c env x).clocks := by
  unfold deviceInitiateHandshake
  rcases @begun_deviceInitiateHandshakeInner c env x false with ⟨-, -, heq⟩ | ⟨hrate, hinit⟩
  · rw [heq]
    exact Sends.refl _
  · refine (SendOp.initiate hI ?_ hinit).sends
    exact hrate.resolve_left Bool.false_ne_true

theorem sends_timersHandshakeBegin (hI : I) :
    Sends c env I P x.clocks (timersHandshakeBegin c env x).clocks := by
  unfold timersHandshakeBegin
  split_ifs
  · exact Sends.refl _
  · exact sends_deviceInitiateHandshake hI
  · exact Sends.refl _

/-- A packet for the peer would be sealed and handed to UDP: the keypair that sends is young and has
a counter left, and there is an endpoint. -/
def Peer.CanSeal (env : Env) (p : Peer) : Prop := CanSend env p 1 ∧ p.endpoint.isSome

/-- `device_send_to_peer` from the check of the nonce on, under a keypair that is in the slot with a
counter used. -/
theorem sends_deviceSendCounted {kp : Keypair} {n : BitVec 64} {pkt : List Byte}
    (hI : rekeyAfterMessages ≤ kp.sendNonce → I)
    (hP : kp.sendNonce < rejectAfterMessages → x.peer.endpoint.isSome → P pkt)
    (hkp : x.peer.sender = some { kp with sendNonce := n }) (hyoung : kp.Young env) :
    Sends c env I P x.clocks (deviceSendCounted c env x kp pkt).clocks := by
  have hbegin : ∀ y : Ctx, Sends c env I P y.clocks
      (if rekeyAfterMessages ≤ kp.sendNonce then timersHandshakeBegin c env y else y).clocks := by
    intro y
    split_ifs with hrekey
    · exact sends_timersHandshakeBegin (hI hrekey)
    · exact Sends.refl _
  have hsender : (if rekeyAfterMessages ≤ kp.sendNonce then timersHandshakeBegin c env x
      else x).peer.sender = some { kp with sendNonce := n } := by
    split_ifs
    · exact (handshakeOnly_timersHandshakeBegin x).sender.trans hkp
    · exact hkp
  simp only [deviceSendCounted]
  by_cases hreject : rejectAfterMessages ≤ kp.sendNonce
  · rw [if_pos hreject, ← clocks_stage pkt]
    have hrekey : rekeyAfterMessages ≤ kp.sendNonce := BitVec.le_trans (by decide) hreject
    exact sends_timersHandshakeBegin (hI hrekey)
  · rw [if_neg hreject]
    refine (hbegin x).trans ?_
    have hendpoint : (if rekeyAfterMessages ≤ kp.sendNonce then timersHandshakeBegin c env x
        else x).peer.endpoint = x.peer.endpoint := by
      split_ifs
      · exact (handshakeOnly_timersHandshakeBegin x).endpoint
      · rfl
    revert hsender hendpoint
    generalize (if rekeyAfterMessages ≤ kp.sendNonce then timersHandshakeBegin c env x else x) = y
    intro hsender hendpoint
    cases hep : y.peer.endpoint with
    | none => exact Sends.refl _
    | some ep =>
      have hpkt : P pkt := by
        refine hP (BitVec.not_le.1 hreject) ?_
        rw [← hendpoint, hep]
        rfl
      refine Sends.trans ?_ (hbegin _)
      show Sends c env I P y.clocks ((timersDataSent env _).clocks _)
      rw [clocks_timersDataSent, clocks_countTx]
      refine SendOp.sends ?_
      have hseal : ({ kp with sendNonce := n } : Keypair).Seals c pkt (kp.seal c pkt) :=
        ⟨kp.sendNonce, rfl⟩
      have hop := SendOp.transport (I := I) y.clocks ep hsender hyoung hseal hpkt
      rwa [← clocks_udpSend] at hop

/-- **`device_send_to_peer`** seals its packet at most, under a young keypair, and initiates a
handshake only if that keypair is missing, old or used up. -/
theorem sends_deviceSendToPeer {pkt : List Byte} (hI : ¬ x.clocks.Calm env 1 → I)
    (hP : x.peer.CanSeal env → P pkt) :
    Sends c env I P x.clocks (deviceSendToPeer c env x pkt).clocks := by
  unfold deviceSendToPeer
  split_ifs
  · exact Sends.refl _
  · split
    next hnone =>
      rw [← clocks_stage pkt]
      refine sends_deviceInitiateHandshake (hI ?_)
      rintro ⟨kp, hkp, -⟩
      cases hnone.symm.trans hkp
    next kp hkp =>
      split_ifs with hage
      · rw [← clocks_stage pkt]
        refine sends_timersHandshakeBegin (hI ?_)
        rintro ⟨kp', hkp', hyoung, -⟩
        cases hkp.symm.trans hkp'
        exact absurd hyoung (not_lt.2 hage)
      · refine (SendOp.count x.clocks).sends.trans ?_
        have hcount : ({ x with peer := x.peer.countSend } : Ctx).clocks = x.clocks.countSend :=
          clocks_countSend _ _
        rw [← hcount]
        refine sends_deviceSendCounted ?_ ?_ (sender_countSend hkp) (not_le.1 hage)
        · intro hrekey
          refine hI ?_
          rintro ⟨kp', hkp', -, hnonce⟩
          cases hkp.symm.trans hkp'
          exact absurd (BitVec.le_def.1 hrekey) (by omega)
        · intro hnonce hep
          rw [endpoint_countSend] at hep
          exact hP ⟨⟨kp, hkp, not_le.1 hage, BitVec.lt_def.1 hnonce⟩, hep⟩

/-- The loop over the staged packets seals staged packets only, none of which is empty, and
initiates a handshake only if the keypair that sends is missing or old, or used up by them. -/
theorem sends_flushStaged (hP : ∀ pkt, pkt ≠ [] → P pkt) {fuel : ℕ} {ps : List (List Byte)}
    (hI : 0 < x.peer.staged.count → ¬ x.clocks.Calm env x.peer.staged.count → I)
    (h : flushStaged c env fuel x = some (y, ps)) : Sends c env I P x.clocks y.clocks := by
  induction fuel generalizing x ps with
  | zero =>
    rw [flushStaged] at h
    split_ifs at h
    cases h
    exact Sends.refl _
  | succ fuel ih =>
    rw [flushStaged] at h
    split_ifs at h with hcount
    · obtain ⟨⟨z, qs⟩, hz, heq⟩ := Option.map_eq_some_iff.1 h
      cases heq
      have hne : x.peer.staged.pkts x.peer.staged.head ≠ [] :=
        List.ne_nil_of_length_pos (head_pkt_len _ hcount).1
      refine Sends.trans ?_ (ih ?_ hz)
      · refine @sends_deviceSendToPeer c env I P
          { x with peer := { x.peer with staged := x.peer.staged.pop hcount } } _ ?_
          fun _ => hP _ hne
        intro hrough
        refine hI hcount ?_
        rintro ⟨kp, hkp, hyoung, hnonce⟩
        exact hrough ⟨kp, hkp, hyoung, by omega⟩
      · -- a keypair that suffices for all packets suffices for the rest after one round
        intro hrest hrough
        refine hI hcount ?_
        rintro ⟨kp, hkp, hyoung, hnonce⟩
        have hlt : kp.sendNonce.toNat < rejectAfterMessages.toNat := by
          have : rekeyAfterMessages.toNat < rejectAfterMessages.toNat := by decide
          omega
        obtain ⟨hstaged, hsender⟩ :=
          @flushRound_sends c env x hcount kp hkp hyoung (BitVec.lt_def.2 hlt)
        refine hrough ⟨_, hsender, hyoung, ?_⟩
        have hround : (flushRound c env x hcount).peer.staged.count = x.peer.staged.count - 1 :=
          congrArg StagedQueue.count hstaged
        have hstep : (kp.sendNonce + 1).toNat = kp.sendNonce.toNat + 1 := by
          have : rejectAfterMessages.toNat < 2 ^ 64 := rejectAfterMessages.isLt
          rw [BitVec.toNat_add]
          exact Nat.mod_eq_of_lt (by simpa using by omega)
        show (kp.sendNonce + 1).toNat + (flushRound c env x hcount).peer.staged.count ≤ _
        omega
    · cases h
      exact Sends.refl _

end Functions

end Wgx
