import Wgx.Device.Acceptance

/-!
# Expired keypairs

`device_send_to_peer` refuses a keypair of age `REJECT_AFTER_TIME_MS`; `handle_transport` does not
look at the age of the keypair that a message names.  Keypairs stay in their slots until the next
handshakes push them out, or until three times that age.

* `slots_sends`: whatever is sent is sealed under a young keypair of the peer;
* `handleTransport_ne_drop`: a message that opens is accepted, however old the keypair;
* `expired_keypairs_unused_iff`: when no expired keypair is used.
-/

namespace Wgx

/-! ### The sending side -/

/-- The keypairs in the three slots. -/
def Clocks.keypairs (k : Clocks) : List Keypair :=
  k.currentKeypair.toList ++ k.nextKeypair.toList ++ k.prevKeypair.toList

/-- Every transport message that was sent is sealed under a young keypair in one of the slots. -/
def Clocks.SealedYoung (c : Crypto) (env : Env) (k : Clocks) : Prop :=
  ∀ ep msg, (ep, .transport msg) ∈ k.sent →
    ∃ kp ∈ k.keypairs, kp.Young env ∧ ∃ pkt, kp.Seals c pkt msg

section Sealed

variable {c : Crypto} {env : Env} {k k' : Clocks}

/-- The slots are the same, and no transport message was sent. -/
theorem Clocks.SealedYoung.of_same (h : k.SealedYoung c env) (hslots : k'.keypairs = k.keypairs)
    (hsent : ∀ ep msg, (ep, .transport msg) ∈ k'.sent → (ep, .transport msg) ∈ k.sent) :
    k'.SealedYoung c env := by
  intro ep msg hmem
  rw [hslots]
  exact h ep msg (hsent ep msg hmem)

theorem Clocks.SealedYoung.udpSend (h : k.SealedYoung c env) {ep : Endpoint} {d : Datagram}
    (hd : ∀ msg, d = .transport msg → ∃ kp ∈ k.keypairs, kp.Young env ∧ ∃ pkt, kp.Seals c pkt msg) :
    (k.udpSend env ep d).SealedYoung c env := by
  unfold Clocks.udpSend
  split_ifs
  · intro ep' msg hmem
    rcases List.mem_append.1 hmem with hmem | hmem
    · exact h ep' msg hmem
    · exact hd msg (Prod.mk.inj (List.mem_singleton.1 hmem)).2.symm
  · exact h

theorem Clocks.SealedYoung.startTimer (h : k.SealedYoung c env) (kind : TimerKind) (timeout : ℕ) :
    (k.startTimer env kind timeout).SealedYoung c env := by
  unfold Clocks.startTimer
  split_ifs <;> exact h

theorem Clocks.SealedYoung.handshakeBegun (h : k.SealedYoung c env) (hbegun : HandshakeBegun env k k') :
    k'.SealedYoung c env := by
  cases hbegun with
  | failed => exact h
  | launched ep msg jitter =>
    refine Clocks.SealedYoung.startTimer (Clocks.SealedYoung.udpSend ?_ ?_) _ _
    · exact h
    · intro msg' heq
      cases heq

theorem mem_keypairs_sender {kp : Keypair} (h : k.sender = some kp) : kp ∈ k.keypairs := by
  unfold Clocks.sender at h
  unfold Clocks.keypairs
  cases hcur : k.currentKeypair with
  | some cur =>
    rw [hcur] at h
    cases h
    simp
  | none =>
    rw [hcur, Option.none_or] at h
    simp [h]

/-- Counting leaves every keypair with another nonce at most. -/
theorem exists_countSend {kp : Keypair} (h : kp ∈ k.keypairs) :
    ∃ n, ({ kp with sendNonce := n } : Keypair) ∈ k.countSend.keypairs := by
  unfold Clocks.keypairs Clocks.countSend at *
  cases hcur : k.currentKeypair with
  | some cur =>
    simp only [hcur, Option.toList_some, List.cons_append, List.mem_cons] at h ⊢
    rcases h with rfl | h
    · exact ⟨_, Or.inl rfl⟩
    · exact ⟨kp.sendNonce, Or.inr h⟩
  | none =>
    simp only [hcur, Option.toList_none, List.nil_append, List.mem_append, Option.mem_toList,
      Option.map_eq_some_iff] at h ⊢
    rcases h with h | h
    · exact ⟨_, Or.inl ⟨kp, h, rfl⟩⟩
    · exact ⟨kp.sendNonce, Or.inr h⟩

/-- **The sending functions seal under young keypairs only.** -/
theorem Clocks.SealedYoung.sends {I : Prop} {P : List Byte → Prop} (h : k.SealedYoung c env)
    (hs : Sends c env I P k k') : k'.SealedYoung c env := by
  refine hs.induct (J := fun k => k.SealedYoung c env) (fun k₁ k₂ hop hk => ?_) h
  cases hop with
  | initiate hI hrate hbegun => exact Clocks.SealedYoung.handshakeBegun hk hbegun
  | count =>
    intro ep msg hmem
    have hsent : k₁.countSend.sent = k₁.sent := by
      unfold Clocks.countSend
      split <;> rfl
    rw [hsent] at hmem
    obtain ⟨kp, hkp, hyoung, pkt, n, hseal⟩ := hk ep msg hmem
    obtain ⟨m, hm⟩ := exists_countSend hkp
    exact ⟨_, hm, hyoung, pkt, n, hseal⟩
  | transport ep hkp hyoung hseal hpkt =>
    refine Clocks.SealedYoung.startTimer (Clocks.SealedYoung.udpSend hk ?_) _ _
    intro msg' heq
    cases heq
    exact ⟨_, mem_keypairs_sender hkp, hyoung, _, hseal⟩

/-- Where no transport message was sent, there is nothing to check. -/
theorem sealedYoung_of_none (h : ∀ ep msg, (ep, .transport msg) ∉ k.sent) :
    k.SealedYoung c env := fun ep msg hmem => absurd hmem (h ep msg)

theorem sealedYoung_calledBack {p : Peer} {kind : TimerKind} (h : k.SealedYoung c env)
    (hcall : CalledBack c env p k k' kind) (hnone : kind = .zeroKeyMaterial → k.sent = []) :
    k'.SealedYoung c env := by
  cases kind with
  | retransmitHandshake =>
    rcases hcall with rfl | ⟨k1, jitter, hbegun, rfl⟩
    · have hstopped : (k.setTimer .retransmitHandshake none).SealedYoung c env :=
        h.of_same rfl fun _ _ hm => hm
      exact hstopped.startTimer _ _
    · exact (h.handshakeBegun hbegun).of_same rfl fun _ _ hm => hm
  | sendKeepalive =>
    obtain ⟨k1, hsent, rfl⟩ := hcall
    have hk1 := h.sends hsent
    split_ifs
    · exact hk1.of_same rfl fun _ _ hm => hm
    · exact hk1
  | newHandshake =>
    rcases hcall with ⟨-, -, rfl⟩ | ⟨-, hbegun⟩
    · exact h
    · exact h.handshakeBegun hbegun
  | zeroKeyMaterial =>
    rw [show k' = k.zeroKeyMaterial from hcall]
    refine sealedYoung_of_none fun ep msg hmem => ?_
    rw [show k.zeroKeyMaterial.sent = [] from hnone rfl] at hmem
    cases hmem
  | persistentKeepalive =>
    obtain ⟨k1, hsent, rfl⟩ := hcall
    have hk1 := h.sends hsent
    split_ifs
    · exact hk1.of_same rfl fun _ _ hm => hm
    · exact hk1

theorem sent_completeHandshake : (k.completeHandshake env).sent = k.sent := by
  unfold Clocks.completeHandshake
  split_ifs <;> rfl

theorem sent_dataReceived : (k.dataReceived env).sent = k.sent := by
  unfold Clocks.dataReceived Clocks.startTimer
  split_ifs <;> rfl

theorem sent_keepaliveReceived : k.keepaliveReceived.sent = k.sent := by
  unfold Clocks.keepaliveReceived
  split_ifs <;> rfl

/-- **Every turn seals under young keypairs only.** -/
theorem slots_sends {p : Peer} {turn : PeerTurn} (h : Turned c env p k' turn) :
    k'.SealedYoung c env := by
  have hfound : p.found.SealedYoung c env := sealedYoung_of_none fun ep msg hmem => nomatch hmem
  cases turn with
  | sent pkt => exact hfound.sends h
  | initiated force =>
    rcases h with ⟨-, -, rfl⟩ | ⟨-, hbegun⟩
    · exact hfound
    · exact hfound.handshakeBegun hbegun
  | fired kind =>
    have hstopped : (p.found.setTimer kind none).SealedYoung c env :=
      hfound.of_same (by cases kind <;> rfl) fun _ _ hm => by cases kind <;> exact hm
    exact sealedYoung_calledBack hstopped h.2 fun _ => by cases kind <;> rfl
  | accepted ts msg =>
    obtain ⟨-, -, rfl | ⟨src, resp, kp, -, -, hsends⟩⟩ := h
    · exact hfound.of_same rfl fun _ _ hm => hm
    · refine Clocks.SealedYoung.sends (sealedYoung_of_none fun ep msg' hmem => ?_) hsends
      rw [sent_completeHandshake] at hmem
      simp only [Clocks.beginSession, Clocks.udpSend] at hmem
      split_ifs at hmem
      · simp [Clocks.consumed, Peer.found, Peer.clocks] at hmem
      · cases hmem
  | completed =>
    obtain ⟨kp, -, -, hsends⟩ := h
    refine Clocks.SealedYoung.sends (sealedYoung_of_none fun ep msg' hmem => ?_) hsends
    rw [sent_completeHandshake] at hmem
    cases hmem
  | received kp plaintext =>
    refine sealedYoung_of_none fun ep msg hmem => ?_
    have hsent : k'.sent = [] := by
      simp only [Turned] at h
      split at h
      · obtain ⟨_, _, _, rfl⟩ := h
        rfl
      · obtain ⟨_, _, _, rfl⟩ := h
        exact sent_keepaliveReceived.trans sent_dataReceived
      · obtain ⟨_, _, _, rfl⟩ := h
        exact sent_dataReceived
    rw [hsent] at hmem
    cases hmem

end Sealed

/-! ### The receiving side -/

/-- Whatever the step sends in transport messages is sealed under keypairs of its peers that are
younger than `REJECT_AFTER_TIME_MS`. -/
def SendsYoung (c : Crypto) (dev : Device) (e : LifeEvent) : Prop :=
  ∀ env ep msg, e.env = some env → (ep, .transport msg) ∈ (lifeStep c dev e).sent →
    ∃ p ∈ (lifeStep c dev e).dev.peers, ∃ kp ∈ p.keypairs, kp.Young env ∧
      ∃ pkt, kp.Seals c pkt msg

/-- A transport message for a keypair of age `REJECT_AFTER_TIME_MS` changes nothing: no counter is
committed, nothing is delivered, the endpoint stays. -/
def ReceivesYoung (c : Crypto) (dev : Device) (e : LifeEvent) : Prop :=
  ∀ env fuel src msg p kp, e = .device (.recv env fuel src (.transport msg)) →
    transportTarget dev msg.receiver = some (p, kp) → ¬ kp.Young env →
    lifeStep c dev e = .drop dev

/-- The datagram is refused whatever the age of the keypair that it names: it is too short, its
counter is not new, or its content does not open. -/
def Refused (c : Crypto) (kp : Keypair) (msg : MsgTransport) : Prop :=
  msg.content.length < 16 ∨ Replay.replayCheck kp.replay msg.counter rejectAfterMessages = false ∨
    c.aeadDecrypt kp.recvKey (transportNonce msg.counter) msg.content [] = none

/-- No transport message that would be accepted arrives for an expired keypair. -/
def NoLateMessage (c : Crypto) (dev : Device) (e : LifeEvent) : Prop :=
  ∀ env fuel src msg p kp, e = .device (.recv env fuel src (.transport msg)) →
    transportTarget dev msg.receiver = some (p, kp) → ¬ kp.Young env → Refused c kp msg

section Receiving

variable {c : Crypto} {env : Env} {dev : Device}

theorem sendsYoung (h : DeviceInv dev) (e : LifeEvent) : SendsYoung c dev e := by
  intro env ep msg henv hmem
  rcases @turn_or_reconfigured c dev h e with ⟨-, -, hcookies⟩ | ⟨s, -, hs, htaken⟩
  · obtain ⟨reply, hreply⟩ := hcookies _ hmem
    cases hreply
  · obtain ⟨p', pre, post, -, hafter, -, hturn⟩ := htaken.frame
    cases henv.symm.trans hs
    have hsent : (ep, .transport msg) ∈ s.sent := htaken.sent ▸ hmem
    obtain ⟨kp, hkp, hyoung, hseal⟩ := slots_sends hturn ep msg hsent
    refine ⟨p', ?_, kp, hkp, hyoung, hseal⟩
    rw [hafter]
    exact List.mem_append_right _ List.mem_cons_self

/-- The rotation keeps the keypairs that it does not drop. -/
theorem mem_keypairs_promoteNext {x : Ctx} {addr : ℕ} {kp : Keypair}
    (h : kp ∈ (promoteNext x addr).peer.keypairs) : kp ∈ x.peer.keypairs := by
  unfold promoteNext at h
  split at h
  next next hnext =>
    split_ifs at h
    · simp only [Peer.keypairs, hnext, List.mem_append, Option.mem_toList, Option.toList_none,
        Option.toList_some, List.append_nil, List.mem_singleton] at h ⊢
      rcases h with h | h
      · exact Or.inl (Or.inr h)
      · exact Or.inl (Or.inl h)
    · exact h
  · exact h

theorem keypairs_timersDataReceived (p : Peer) :
    (timersDataReceived env p).keypairs = p.keypairs := by
  unfold timersDataReceived
  split_ifs <;> rfl

theorem keypairs_timersKeepaliveReceived (p : Peer) :
    (timersKeepaliveReceived p).keypairs = p.keypairs := by
  unfold timersKeepaliveReceived
  split_ifs <;> rfl

theorem mem_keypairs_transportDeliver {x : Ctx} {src : Endpoint} {addr len : ℕ} {p : List Byte}
    {kp : Keypair} (h : kp ∈ (transportDeliver env x src addr len p).peer.keypairs) :
    kp ∈ x.peer.keypairs := by
  unfold transportDeliver at h
  cases hlen : transportPlaintextLen p with
  | none =>
    rw [hlen] at h
    exact h
  | some n =>
    simp only [hlen] at h
    set y : Ctx := { x with peer := timersDataReceived env ({ x.peer with
      rxBytes := x.peer.rxBytes + BitVec.ofNat 64 len } : Peer) }
    have hy : kp ∈ (promoteNext y addr).peer.keypairs → kp ∈ x.peer.keypairs := by
      intro hk
      have hmem : kp ∈ y.peer.keypairs := mem_keypairs_promoteNext hk
      rwa [show y.peer.keypairs = x.peer.keypairs from keypairs_timersDataReceived _] at hmem
    split_ifs at h
    · exact hy h
    · exact hy h
    · rw [keypairs_timersKeepaliveReceived] at h
      exact hy h

theorem replay_of_mem_mapKeypair {peer : Peer} {kp : Keypair} {replay : Replay.ReplayFilter}
    (h : kp ∈ (peer.mapKeypair kp.addr fun kp => { kp with replay := replay }).keypairs) :
    kp.replay = replay := by
  have hg : ∃ kp0 : Keypair, (if kp0.addr = kp.addr then { kp0 with replay := replay } else kp0) =
      kp := by
    simp only [Peer.keypairs, Peer.mapKeypair, List.mem_append, Option.mem_toList,
      Option.map_eq_some_iff] at h
    rcases h with (⟨kp0, -, heq⟩ | ⟨kp0, -, heq⟩) | ⟨kp0, -, heq⟩
    all_goals exact ⟨kp0, heq⟩
  obtain ⟨kp0, heq⟩ := hg
  split_ifs at heq with haddr
  · rw [← heq]
  · exact absurd (congrArg Keypair.addr heq) haddr

/-- **A message that opens is accepted, however old the keypair.** -/
theorem handleTransport_ne_drop (h : DeviceInv dev) {src : Endpoint} {msg : MsgTransport}
    {peer : Peer} {kp : Keypair} (htarget : transportTarget dev msg.receiver = some (peer, kp))
    (hopens : ¬ Refused c kp msg) : handleTransport c env dev src msg ≠ .drop dev := by
  simp only [Refused, not_or] at hopens
  obtain ⟨hlen, hcheck, hopen⟩ := hopens
  obtain ⟨plaintext, hplain⟩ := Option.ne_none_iff_exists'.1 hopen
  rw [Bool.not_eq_false] at hcheck
  have hmem := transportTarget_mem htarget
  unfold handleTransport
  rw [if_neg hlen, htarget]
  simp only [hcheck, hplain, Bool.not_true, Bool.false_eq_true, if_false]
  have hspent := Replay.replayCheck_commit hcheck
  cases hcommit : Replay.replayCommit kp.replay msg.counter rejectAfterMessages with
  | mk ok replay =>
    have hok : ok = true := by
      have hfst : (Replay.replayCommit kp.replay msg.counter rejectAfterMessages).1 = true := by
        rw [Replay.replayCommit, if_pos hcheck]
      rwa [hcommit] at hfst
    subst hok
    rw [hcommit] at hspent
    simp only
    intro heq
    set z : Ctx := transportDeliver env (Ctx.start dev (peer.mapKeypair kp.addr fun kp =>
      { kp with replay := replay })) src kp.addr (msgTransportHdrSize + msg.content.length) plaintext
      with hz
    have hk := (kept_mapKeypair (x := Ctx.start dev peer) kp.addr replay).trans
      (kept_transportDeliver env src kp.addr (msgTransportHdrSize + msg.content.length) plaintext)
    obtain ⟨pre, post, hsplit, hfinish⟩ := (called_start hmem.1 hk).finish h.nodup
    have hsame : z.finish.peers = dev.peers := by
      have := congrArg (fun r : Handled => r.dev.peers) heq
      exact this
    have hpeer : z.peer = peer := by
      have hlists : pre ++ z.peer :: post = pre ++ peer :: post := by
        rw [← hsplit, ← hsame]
        exact hfinish.symm
      exact (List.cons.inj (List.append_cancel_left hlists)).1
    -- the keypair is in its slot with the counter noted
    have hin : kp ∈ (peer.mapKeypair kp.addr fun kp => { kp with replay := replay }).keypairs :=
      mem_keypairs_transportDeliver (x := Ctx.start dev _) (hz ▸ hpeer.symm ▸ hmem.2)
    have hreplay : kp.replay = replay := replay_of_mem_mapKeypair hin
    rw [← hreplay, hcheck] at hspent
    cases hspent

/-- A message that is refused changes nothing. -/
theorem handleTransport_of_refused {src : Endpoint} {msg : MsgTransport} {peer : Peer} {kp : Keypair}
    (htarget : transportTarget dev msg.receiver = some (peer, kp)) (h : Refused c kp msg) :
    handleTransport c env dev src msg = .drop dev := by
  unfold handleTransport
  rcases h with h | h | h
  · rw [if_pos h]
  · simp [htarget, h]
  · split_ifs
    · rfl
    · cases hcheck : Replay.replayCheck kp.replay msg.counter rejectAfterMessages <;>
        simp [htarget, hcheck, h]

/-- **One step**: it uses no expired keypair exactly if no late message opens. -/
theorem young_iff_noLateMessage (h : DeviceInv dev) (e : LifeEvent) :
    SendsYoung c dev e ∧ ReceivesYoung c dev e ↔ NoLateMessage c dev e := by
  constructor
  · rintro ⟨-, hreceives⟩ env fuel src msg p kp rfl htarget hold
    by_contra hopens
    exact handleTransport_ne_drop h htarget hopens
      (hreceives env fuel src msg p kp rfl htarget hold)
  · intro hlate
    refine ⟨sendsYoung h e, ?_⟩
    rintro env fuel src msg p kp rfl htarget hold
    exact handleTransport_of_refused htarget (hlate env fuel src msg p kp rfl htarget hold)

end Receiving

/-- **When no expired keypair is used.**  In a run of a device, every transport message that is sent
is sealed under a keypair younger than `REJECT_AFTER_TIME_MS`, and every message for an older one is
without effect, exactly if none of the messages that arrive for an older one would open. -/
theorem expired_keypairs_unused_iff (c : Crypto) (es : List LifeEvent) :
    (∀ pre e post, es = pre ++ e :: post →
      SendsYoung c (lifeRun c (deviceInit c) pre) e ∧
        ReceivesYoung c (lifeRun c (deviceInit c) pre) e) ↔
      Machine.Guarded (fun dev e => (lifeStep c dev e).dev) (NoLateMessage c) (deviceInit c) es := by
  rw [Machine.guarded_iff_forall_split]
  refine forall_congr' fun pre => forall_congr' fun e => forall_congr' fun post => ?_
  refine imp_congr_right fun _ => ?_
  exact young_iff_noLateMessage (DeviceInv.lifeRun (deviceInv_deviceInit c) pre) e

/-! ### A late message -/

/-- The device accepts an initiation, and a transport message for the keypair arrives when this is
`REJECT_AFTER_TIME_MS` old. -/
def lateRun : List LifeEvent :=
  [.device (.setPrivateKey (List.replicate 32 1)), .device (.addPeer (List.replicate 32 2)),
    .device (.recv (toyEnv 7) 0 tagSrc (.initiation (tagInitiation (toyEnv 5))))]

/-- The message: a keepalive under the keypair of the session. -/
def lateMessage : MsgTransport :=
  let kp := (lifeRun tagCrypto (deviceInit tagCrypto) lateRun).peers.head?.bind Peer.nextKeypair
  { receiver := (kp.map Keypair.localIndex).getD 0
    counter := 0
    content := tagCrypto.aeadEncrypt ((kp.map Keypair.recvKey).getD []) (transportNonce 0) [] [] }

/-- Its time: `uv_now` was 1000 when the keypair was made. -/
def expiredEnv : Env := { toyEnv 8 with now := 181000 }

/-- **The message is accepted.** -/
theorem expired_keypair_used :
    ¬ ∀ pre e post, lateRun ++ [.device (.recv expiredEnv 0 tagSrc (.transport lateMessage))] =
        pre ++ e :: post →
      SendsYoung tagCrypto (lifeRun tagCrypto (deviceInit tagCrypto) pre) e ∧
        ReceivesYoung tagCrypto (lifeRun tagCrypto (deviceInit tagCrypto) pre) e := by
  intro h
  have hlast := (h lateRun _ [] rfl).2
  have htarget : ((transportTarget (lifeRun tagCrypto (deviceInit tagCrypto) lateRun)
      lateMessage.receiver).any fun t => decide (¬ t.2.Young expiredEnv)) = true := by decide +kernel
  obtain ⟨t, ht, hold⟩ := (Option.any_eq_true _ _).1 htarget
  have hdrop := hlast expiredEnv 0 tagSrc lateMessage t.1 t.2 rfl ht (of_decide_eq_true hold)
  have hcount : (lifeStep tagCrypto (lifeRun tagCrypto (deviceInit tagCrypto) lateRun)
      (.device (.recv expiredEnv 0 tagSrc (.transport lateMessage)))).dev.peers.map Peer.rxBytes =
        [32] := by decide +kernel
  have hcount' : (lifeRun tagCrypto (deviceInit tagCrypto) lateRun).peers.map Peer.rxBytes = [0] := by
    decide +kernel
  rw [hdrop] at hcount
  exact absurd (hcount.symm.trans hcount') (by decide)

end Wgx
