import Wgx.Device.Flush
import Wgx.Lib.Run

/-!
# The counters of a sending keypair

`device_send_to_peer` takes the counter of a transport message by an atomic increment of
`send_nonce` and checks the limit afterwards, so that a refused packet uses up a counter too.  The
64-bit counter wraps: after `2 ^ 64` counted calls on a keypair the next ones encrypt under the
counters of the first ones again.

* `sendEncryption`: the transport message that a call encrypts, and the key it uses;
* `transports_deviceSendToPeer`: the transport messages sent are the encrypted ones;
* `counters_sendLog`: the counters that a run of calls encrypts under;
* `send_counters_distinct_iff`: they are distinct exactly if at most `2 ^ 64` calls are counted.
-/

namespace Wgx

variable (c : Crypto)

/-! ### What a call encrypts -/

/-- The call takes a counter of the keypair: the packet fits and the keypair is young enough. -/
def Counted (kp : Keypair) (env : Env) (pkt : List Byte) : Prop :=
  pkt.length ≤ wgDefaultMtu ∧ (env.now - kp.createdAtMs).toNat < rejectAfterTimeMs

instance (kp : Keypair) (env : Env) (pkt : List Byte) : Decidable (Counted kp env pkt) :=
  inferInstanceAs (Decidable (_ ∧ _))

/-- The transport message that a keypair makes of a packet. -/
def Keypair.seal (kp : Keypair) (pkt : List Byte) : MsgTransport where
  receiver := kp.remoteIndex
  counter := kp.sendNonce
  content := c.aeadEncrypt kp.sendKey (transportNonce kp.sendNonce)
    (pkt ++ List.replicate (devicePadPacket pkt.length - pkt.length) 0#8) []

/-- The key and the transport message of the encryption that `device_send_to_peer` makes, if it gets
that far; whether the message can be sent is found out later. -/
def sendEncryption (env : Env) (x : Ctx) (pkt : List Byte) : Option (List Byte × MsgTransport) :=
  match x.peer.sender with
  | none => none
  | some kp =>
    if Counted kp env pkt ∧ kp.sendNonce < rejectAfterMessages then
      some (kp.sendKey, kp.seal c pkt)
    else none

/-- The transport messages among what was sent. -/
def transports (sent : List (Endpoint × Datagram)) : List MsgTransport :=
  sent.filterMap fun m => match m.2 with
    | .transport msg => some msg
    | _ => none

section Call

variable {c} {env : Env} {x : Ctx} {pkt : List Byte} {kp : Keypair}

theorem transports_udpSend_initiation (ep : Endpoint) (msg : MsgInitiation) :
    transports (x.udpSend env ep (.initiation msg)).sent = transports x.sent := by
  unfold Ctx.udpSend
  split_ifs
  · simp [transports]
  · rfl

theorem sent_noiseCreateInitiation : (noiseCreateInitiation c env x).1.sent = x.sent := by
  simp only [noiseCreateInitiation]
  split
  · rfl
  · split_ifs <;> rfl

theorem sent_timersHandshakeInitiated : (timersHandshakeInitiated env x).sent = x.sent := by
  unfold timersHandshakeInitiated
  split_ifs <;> rfl

theorem transports_deviceInitiateHandshake :
    transports (deviceInitiateHandshake c env x).sent = transports x.sent := by
  simp only [deviceInitiateHandshake, deviceInitiateHandshakeInner]
  split_ifs
  · rfl
  · set y := x.setHandshake { x.peer.handshake with lastSentHandshakeMs := env.now }
    have hcreate : (noiseCreateInitiation c env y).1.sent = x.sent := sent_noiseCreateInitiation
    split
    next z hz => rw [← hcreate, hz]
    next z msg hz =>
      rw [hz] at hcreate
      split
      · rw [← hcreate]
      · rw [sent_timersHandshakeInitiated, transports_udpSend_initiation, ← hcreate]

theorem transports_timersHandshakeBegin :
    transports (timersHandshakeBegin c env x).sent = transports x.sent := by
  unfold timersHandshakeBegin
  split_ifs
  · rfl
  · exact transports_deviceInitiateHandshake
  · rfl

theorem transports_udpSend (ep : Endpoint) (msg : MsgTransport) :
    transports (x.udpSend env ep (.transport msg)).sent =
      transports x.sent ++ if env.udpOk then [msg] else [] := by
  unfold Ctx.udpSend
  split_ifs
  · simp [transports]
  · simp

theorem HandshakeOnly.endpoint {x y : Ctx} (h : HandshakeOnly x y) :
    y.peer.endpoint = x.peer.endpoint := by
  obtain ⟨_, _, _, _, h⟩ := h
  rw [h]

theorem endpoint_countSend (peer : Peer) : peer.countSend.endpoint = peer.endpoint := by
  unfold Peer.countSend
  split <;> rfl

/-- A counted packet that is not refused goes out as the message that the keypair seals, if there is
an endpoint and the send succeeds. -/
theorem transports_deviceSendCounted (hnonce : kp.sendNonce < rejectAfterMessages) :
    transports (deviceSendCounted c env x kp pkt).sent =
      transports x.sent ++
        if x.peer.endpoint.isSome ∧ env.udpOk then [kp.seal c pkt] else [] := by
  have hbegin : ∀ y : Ctx, transports
      (if rekeyAfterMessages ≤ kp.sendNonce then timersHandshakeBegin c env y else y).sent =
        transports y.sent := by
    intro y
    split_ifs
    · exact transports_timersHandshakeBegin
    · rfl
  have hendpoint : (if rekeyAfterMessages ≤ kp.sendNonce then timersHandshakeBegin c env x
      else x).peer.endpoint = x.peer.endpoint := by
    split_ifs
    · exact (handshakeOnly_timersHandshakeBegin x).endpoint
    · rfl
  simp only [deviceSendCounted]
  rw [if_neg (BitVec.not_le.2 hnonce), hendpoint]
  cases hep : x.peer.endpoint with
  | none => simp [hbegin]
  | some ep =>
    simp only [hbegin, transports_udpSend, Option.isSome_some, true_and]
    rfl

/-- **The transport messages sent are the encrypted ones**: a call adds to what was sent the message
that it encrypts, if there is an endpoint and the send succeeds, and no other transport message. -/
theorem transports_deviceSendToPeer :
    transports (deviceSendToPeer c env x pkt).sent =
      transports x.sent ++
        if x.peer.endpoint.isSome ∧ env.udpOk then
          ((sendEncryption c env x pkt).map Prod.snd).toList
        else [] := by
  have hsender : x.peer.currentKeypair.or x.peer.nextKeypair = x.peer.sender := rfl
  unfold deviceSendToPeer sendEncryption
  rw [hsender]
  split_ifs with hlen hep hep
  · cases x.peer.sender with
    | none => simp
    | some kp => simp [Counted, hlen.not_ge]
  · simp
  · cases hkp : x.peer.sender with
    | none => simp [transports_deviceInitiateHandshake, Ctx.stage]
    | some kp =>
      simp only
      split_ifs with hage henc henc
      · exact absurd henc.1.2 (by omega)
      · simp [transports_timersHandshakeBegin, Ctx.stage]
      · rw [transports_deviceSendCounted henc.2]
        simp [endpoint_countSend, hep]
      · have hrefused : rejectAfterMessages ≤ kp.sendNonce := by
          by_contra hlt
          exact henc ⟨⟨by omega, by omega⟩, BitVec.not_le.1 hlt⟩
        rw [deviceSendCounted, if_pos hrefused, transports_timersHandshakeBegin]
        simp [Ctx.stage]
  · cases hkp : x.peer.sender with
    | none => simp [transports_deviceInitiateHandshake, Ctx.stage]
    | some kp =>
      simp only
      split_ifs with hage
      · simp [transports_timersHandshakeBegin, Ctx.stage]
      · by_cases hnonce : kp.sendNonce < rejectAfterMessages
        · rw [transports_deviceSendCounted hnonce, endpoint_countSend, if_neg hep]
        · rw [deviceSendCounted, if_pos (BitVec.not_lt.1 hnonce), transports_timersHandshakeBegin]
          simp [Ctx.stage]

theorem sender_stage (x : Ctx) (pkt : List Byte) : (x.stage pkt).peer.sender = x.peer.sender := by
  unfold Ctx.stage peerStagePacket
  split_ifs <;> rfl

/-- A call uses up a counter of the keypair exactly if it is counted, whatever becomes of the
packet. -/
theorem sender_deviceSendToPeer (hkp : x.peer.sender = some kp) :
    (deviceSendToPeer c env x pkt).peer.sender =
      some (if Counted kp env pkt then { kp with sendNonce := kp.sendNonce + 1 } else kp) := by
  have hsender : x.peer.currentKeypair.or x.peer.nextKeypair = some kp := hkp
  unfold deviceSendToPeer
  rw [hsender]
  split_ifs with hlen hcounted hcounted
  · exact absurd hcounted.1 hlen.not_ge
  · exact hkp
  · simp only [if_neg (not_le.2 hcounted.2)]
    by_cases hnonce : kp.sendNonce < rejectAfterMessages
    · exact (handshakeOnly_deviceSendCounted hnonce).sender.trans (sender_countSend hkp)
    · rw [deviceSendCounted, if_pos (BitVec.not_lt.1 hnonce)]
      exact (handshakeOnly_timersHandshakeBegin _).sender.trans
        ((sender_stage _ _).trans (sender_countSend hkp))
  · have hage : rejectAfterTimeMs ≤ (env.now - kp.createdAtMs).toNat := by
      by_contra hlt
      exact hcounted ⟨by omega, by omega⟩
    simp only [if_pos hage]
    exact (handshakeOnly_timersHandshakeBegin _).sender.trans ((sender_stage _ _).trans hkp)

end Call

/-! ### Runs of calls on one keypair -/

/-- What happens while a keypair is the one that sends. -/
inductive SendEvent
  /-- A call of `device_send_to_peer`. -/
  | send (env : Env) (pkt : List Byte)
  /-- Anything else that leads to the state `y`. -/
  | other (y : Ctx)

/-- The state after an event. -/
def SendEvent.step (x : Ctx) : SendEvent → Ctx
  | .send env pkt => deviceSendToPeer c env x pkt
  | .other y => y

/-- What happens between the calls leaves the sending keypair as it is; it may change slots. -/
def SendEvent.KeepsSender (x : Ctx) : SendEvent → Prop
  | .send _ _ => True
  | .other y => y.peer.sender = x.peer.sender

/-- The event is a call that takes a counter of the keypair. -/
def SendEvent.TakesCounter (kp : Keypair) : SendEvent → Prop
  | .send env pkt => Counted kp env pkt
  | .other _ => False

instance (kp : Keypair) : DecidablePred (SendEvent.TakesCounter kp)
  | .send env pkt => inferInstanceAs (Decidable (Counted kp env pkt))
  | .other _ => inferInstanceAs (Decidable False)

/-- The encryptions that the calls of a run make, in order. -/
def sendLog : Ctx → List SendEvent → List (List Byte × MsgTransport)
  | _, [] => []
  | x, .send env pkt :: es =>
    (sendEncryption c env x pkt).toList ++ sendLog (deviceSendToPeer c env x pkt) es
  | _, .other y :: es => sendLog y es

/-- The key and the counter of each encryption of a run. -/
def sendCounters (x : Ctx) (es : List SendEvent) : List (List Byte × BitVec 64) :=
  (sendLog c x es).map fun e => (e.1, e.2.counter)

section Run

variable {c} {x : Ctx} {kp : Keypair} {es : List SendEvent}

theorem map_range_succ (n : BitVec 64) (k : ℕ) :
    (List.range (k + 1)).map (fun i => n + BitVec.ofNat 64 i) =
      n :: (List.range k).map (fun i => n + 1 + BitVec.ofNat 64 i) := by
  rw [List.range_succ_eq_map, List.map_cons, List.map_map]
  congr 1
  · simp
  · apply List.map_congr_left
    intro i hi
    show n + BitVec.ofNat 64 (i + 1) = n + 1 + BitVec.ofNat 64 i
    rw [Nat.add_comm, BitVec.ofNat_add, BitVec.add_assoc]
    rfl

theorem countP_takesCounter (kp : Keypair) (n : BitVec 64) (es : List SendEvent) :
    es.countP (SendEvent.TakesCounter { kp with sendNonce := n }) =
      es.countP (SendEvent.TakesCounter kp) := by
  apply List.countP_congr
  intro e he
  cases e <;> exact Iff.rfl

/-- The calls of a run encrypt under consecutive counters, less those that are refused. -/
theorem counters_sendLog (hkp : x.peer.sender = some kp)
    (hes : Machine.Guarded (SendEvent.step c) SendEvent.KeepsSender x es) :
    sendCounters c x es =
      (((List.range (es.countP (SendEvent.TakesCounter kp))).map
        fun i => kp.sendNonce + BitVec.ofNat 64 i).filter (· < rejectAfterMessages)).map
          fun n => (kp.sendKey, n) := by
  unfold sendCounters
  induction es generalizing x kp with
  | nil => rfl
  | cons e es ih =>
    obtain ⟨hok, hes⟩ := hes
    cases e with
    | other y =>
      have hnot : ¬ SendEvent.TakesCounter kp (.other y) := id
      rw [sendLog, ih (hok.trans hkp) hes, List.countP_cons_of_neg (by simpa using hnot)]
    | send env pkt =>
      have hnext : (deviceSendToPeer c env x pkt).peer.sender = _ := sender_deviceSendToPeer hkp
      rw [sendLog, List.map_append]
      by_cases hcounted : Counted kp env pkt
      · have htakes : SendEvent.TakesCounter kp (.send env pkt) := hcounted
        rw [if_pos hcounted] at hnext
        rw [ih hnext hes, countP_takesCounter, List.countP_cons_of_pos (by simpa using htakes),
          map_range_succ, List.filter_cons]
        simp only [sendEncryption, hkp, hcounted, true_and, decide_eq_true_eq]
        split_ifs <;> rfl
      · have hnot : ¬ SendEvent.TakesCounter kp (.send env pkt) := hcounted
        rw [if_neg hcounted] at hnext
        rw [ih hnext hes, List.countP_cons_of_neg (by simpa using hnot)]
        simp [sendEncryption, hkp, hcounted]

theorem pair_sublist_range {w k : ℕ} (hw : 0 < w) (hk : w < k) :
    List.Sublist [0, w] (List.range k) := by
  have hsplit : List.range k = List.range w ++ (List.range (k - w)).map (w + ·) := by
    rw [← List.range_add, Nat.add_sub_cancel' hk.le]
  rw [hsplit]
  show List.Sublist ([0] ++ [w]) _
  apply List.Sublist.append
  · exact List.singleton_sublist.2 (List.mem_range.2 hw)
  · exact List.singleton_sublist.2 (List.mem_map.2 ⟨0, List.mem_range.2 (by omega), rfl⟩)

/-- Consecutive 64-bit counters from 0 repeat one below the limit exactly from the `2 ^ 64 + 1`-st
on. -/
theorem nodup_counters_iff (key : List Byte) (k : ℕ) :
    ((((List.range k).map fun i => 0 + BitVec.ofNat 64 i).filter
      (· < rejectAfterMessages)).map fun n => (key, n)).Nodup ↔ k ≤ 2 ^ 64 := by
  constructor
  · intro h
    by_contra hk
    -- counter 0 is used by the first call and by the one that comes 2 ^ 64 calls later
    have hpair : List.Sublist [0, 2 ^ 64] (List.range k) :=
      pair_sublist_range (by norm_num) (not_le.1 hk)
    have hsub := hpair.map fun i => 0 + BitVec.ofNat 64 i
    rw [List.map_cons, List.map_singleton, show BitVec.ofNat 64 (2 ^ 64) = 0 from rfl] at hsub
    have hzero := ((hsub.filter fun n => decide (n < rejectAfterMessages)).map
      fun n => (key, n)).nodup h
    revert hzero
    simp [rejectAfterMessages]
  · intro hk
    apply List.Nodup.map (fun a b hab => (Prod.mk.inj hab).2)
    apply List.Nodup.filter
    apply List.Nodup.map_on _ List.nodup_range
    intro i hi j hj hij
    rw [List.mem_range] at hi hj
    have hmod := congrArg BitVec.toNat hij
    rw [BitVec.toNat_add, BitVec.toNat_add, BitVec.toNat_ofNat, BitVec.toNat_ofNat] at hmod
    simp at hmod
    omega

/-- **No counter is used twice, up to the wrap.**  Let a keypair that is new be the one that sends,
and consider any calls of `device_send_to_peer`, of any number and at any times, and whatever else
happens in between.  The transport messages encrypted under its key have distinct counters if and
only if at most `2 ^ 64` of the calls took a counter: those with a packet of at most
`WG_DEFAULT_MTU` bytes while the keypair was younger than `REJECT_AFTER_TIME_MS`, refused or not. -/
theorem send_counters_distinct_iff (hkp : x.peer.sender = some kp) (hnew : kp.sendNonce = 0)
    (hes : Machine.Guarded (SendEvent.step c) SendEvent.KeepsSender x es) :
    (sendCounters c x es).Nodup ↔ es.countP (SendEvent.TakesCounter kp) ≤ 2 ^ 64 := by
  rw [counters_sendLog hkp hes, hnew]
  exact nodup_counters_iff _ _

/-- A peer with a keypair that was derived one second after the start and has sent nothing. -/
def freshSender : Ctx :=
  let peer := toyPeer (List.replicate 32 1) (List.replicate 32 2)
  Ctx.start (toyDevice (List.replicate 32 1) (List.replicate 32 2))
    { peer with
      currentKeypair := some
        { addr := 9, sendNonce := 0, sendKey := zeroKey, recvKey := zeroKey,
          replay := Replay.replayReset, isInitiator := true, createdAtMs := 1000, localIndex := 3,
          remoteIndex := 4 } }

theorem send_counters_distinct_iff_keepalives :
    ∃ kp, freshSender.peer.sender = some kp ∧
      ((sendCounters toyCrypto freshSender [.send (toyEnv 5) [], .send (toyEnv 5) []]).Nodup ↔
        [SendEvent.send (toyEnv 5) [], .send (toyEnv 5) []].countP
          (SendEvent.TakesCounter kp) ≤ 2 ^ 64) :=
  ⟨_, rfl, send_counters_distinct_iff rfl rfl ⟨trivial, trivial, trivial⟩⟩

theorem guarded_replicate_send (env : Env) (pkt : List Byte) (n : ℕ) (x : Ctx) :
    Machine.Guarded (SendEvent.step c) SendEvent.KeepsSender x
      (List.replicate n (.send env pkt)) := by
  induction n generalizing x with
  | zero => trivial
  | succ n ih => exact ⟨trivial, ih _⟩

/-- `2 ^ 64 + 1` keepalives within the life of a keypair reuse a counter. -/
theorem keepalives_reuse_counter :
    ¬ (sendCounters toyCrypto freshSender
      (List.replicate (2 ^ 64 + 1) (.send (toyEnv 5) []))).Nodup := by
  rw [counters_sendLog rfl (guarded_replicate_send _ _ _ _), List.countP_replicate,
    if_pos (by decide)]
  exact fun h => absurd ((nodup_counters_iff _ _).1 h) (by norm_num)

end Run

end Wgx
