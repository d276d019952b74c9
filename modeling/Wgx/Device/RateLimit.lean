import Wgx.Device.Acceptance

/-!
# Initiations are apart

`device_initiate_handshake` starts no handshake within `REKEY_TIMEOUT_MS` of the time in
`last_sent_handshake_ms`, and the retransmission timer waits that long.  But `noise_handshake_clear`
erases the time when a session starts and when the keys are zeroed, so that a handshake asked for
afterwards is not held back by an initiation from before.

* `initiationTimes`: when initiations were sent to a peer during a run;
* `TurnPace`: what a turn does to the time and to the timer;
* `PacedInv`: each initiation is covered by the time, or by one that was erased;
* `initiations_apart`: in which runs initiations are apart.
-/

namespace Wgx

/-! ### Initiations and what asks for them -/

/-- The datagram is an initiation. -/
def initiates (d : Endpoint × Datagram) : Bool :=
  match d.2 with
  | .initiation _ => true
  | _ => false

/-- The call of `device_initiate_handshake_force` at the start of the program. -/
def PeerStep.forced (s : PeerStep) : Bool :=
  match s.turn with
  | .initiated true => true
  | _ => false

/-- When the turn has sent initiations, the one at the start of the program not counted. -/
def PeerStep.initiations (s : PeerStep) : List ℕ :=
  if s.forced then [] else (s.sent.filter initiates).map fun _ => s.env.now.toNat

/-- When initiations were sent to the peer at `addr` during a run. -/
def initiationTimes (c : Crypto) (addr : ℕ) (es : List LifeEvent) : List ℕ :=
  (history c addr (deviceInit c) es).flatMap PeerStep.initiations

/-- The turn starts a session, or zeroes the keys. -/
def PeerStep.clears (s : PeerStep) : Bool :=
  match s.turn with
  | .accepted _ _ | .completed | .fired .zeroKeyMaterial => true
  | _ => false

/-- The turn asks for a handshake: a packet finds no keypair to go out with for a while, a handshake
is begun, or the keypair in the current slot is no good for the packets that are staged when a
session starts. -/
def PeerStep.NeedsHandshake (s : PeerStep) : Prop :=
  match s.turn with
  | .sent _ | .fired .sendKeepalive | .fired .persistentKeepalive => ¬ s.before.found.Calm s.env 1
  | .initiated force => force = false
  | .fired .newHandshake => True
  | .accepted _ _ => 0 < s.before.staged.count ∧ s.before.Stale s.env
  | _ => False

/-- If the turn `s` asks for a handshake, the times that were erased, by `s` itself or by one of the
turns `hs` before, are at least `REKEY_TIMEOUT_MS` ago. -/
def AsksInTime (hs : List PeerStep) (s : PeerStep) : Prop :=
  s.NeedsHandshake → ∀ s' ∈ hs ++ [s], s'.clears = true →
    s'.before.handshake.lastSentHandshakeMs ≠ 0 →
    s'.before.handshake.lastSentHandshakeMs.toNat + rekeyTimeoutMs ≤ s.env.now.toNat

/-- The second time is at least `REKEY_TIMEOUT_MS` after the first. -/
def Apart (t t' : ℕ) : Prop := t + rekeyTimeoutMs ≤ t'

/-! ### What the sending side does -/

/-- The initiations among what was sent. -/
def Clocks.inits (k : Clocks) : List (Endpoint × Datagram) := k.sent.filter initiates

/-- Nothing that the rate limit looks at has changed. -/
structure SamePace (k k' : Clocks) : Prop where
  stamp : k'.lastSentHandshakeMs = k.lastSentHandshakeMs
  inits : k'.inits = k.inits
  retransmit : k'.timers.retransmitHandshake = k.timers.retransmitHandshake
  active : k'.timers.active = k.timers.active

/-- A handshake was begun: the time is noted, and if an initiation went out, the retransmission
timer waits for `REKEY_TIMEOUT_MS`. -/
structure Begins (env : Env) (k k' : Clocks) : Prop where
  stamp : k'.lastSentHandshakeMs = env.now
  active : k'.timers.active = k.timers.active
  inits : (k'.inits = k.inits ∧
      k'.timers.retransmitHandshake = k.timers.retransmitHandshake) ∨
    (∃ d, k'.inits = k.inits ∨ k'.inits = k.inits ++ [d]) ∧
      ∃ due, k'.timers.retransmitHandshake = some due ∧ env.now.toNat + rekeyTimeoutMs ≤ due

section Sending

variable {c : Crypto} {env : Env} {I : Prop} {P : List Byte → Prop} {k k' k'' : Clocks}

theorem SamePace.refl (k : Clocks) : SamePace k k := ⟨rfl, rfl, rfl, rfl⟩

theorem SamePace.trans (h : SamePace k k') (h' : SamePace k' k'') : SamePace k k'' :=
  ⟨h'.stamp.trans h.stamp, h'.inits.trans h.inits, h'.retransmit.trans h.retransmit,
    h'.active.trans h.active⟩

theorem Begins.same (h : Begins env k k') (h' : SamePace k' k'') : Begins env k k'' := by
  refine ⟨h'.stamp.trans h.stamp, h'.active.trans h.active, ?_⟩
  rw [h'.inits, h'.retransmit]
  exact h.inits

theorem SamePace.begins (h : SamePace k k') (h' : Begins env k' k'') : Begins env k k'' := by
  refine ⟨h'.stamp, h'.active.trans h.active, ?_⟩
  have hinits := h'.inits
  rwa [h.inits, h.retransmit] at hinits

theorem inits_udpSend (ep : Endpoint) (d : Datagram) : (k.udpSend env ep d).inits =
    if env.udpOk ∧ initiates (ep, d) = true then k.inits ++ [(ep, d)] else k.inits := by
  unfold Clocks.udpSend Clocks.inits
  by_cases hok : env.udpOk = true
  · rw [if_pos hok]
    by_cases hd : initiates (ep, d) = true
    · rw [if_pos ⟨hok, hd⟩, List.filter_append, List.filter_singleton, hd]
      rfl
    · rw [if_neg fun h => hd h.2, List.filter_append, List.filter_singleton]
      simp [hd]
  · rw [if_neg hok, if_neg fun h => hok h.1]

theorem begins_of_begun (h : HandshakeBegun env k k') (hact : k.timers.active = true) :
    Begins env k k' := by
  cases h with
  | failed => exact ⟨rfl, rfl, .inl ⟨rfl, rfl⟩⟩
  | launched ep msg jitter =>
    have htimers : (({ k with lastSentHandshakeMs := env.now } : Clocks).udpSend env ep
        (.initiation msg)).timers = k.timers := by
      unfold Clocks.udpSend
      split_ifs <;> rfl
    have hstamp : (({ k with lastSentHandshakeMs := env.now } : Clocks).udpSend env ep
        (.initiation msg)).lastSentHandshakeMs = env.now := by
      unfold Clocks.udpSend
      split_ifs <;> rfl
    have hinits := @inits_udpSend env { k with lastSentHandshakeMs := env.now } ep (.initiation msg)
    generalize ({ k with lastSentHandshakeMs := env.now } : Clocks).udpSend env ep
      (.initiation msg) = k₁ at htimers hstamp hinits
    unfold Clocks.startTimer
    rw [if_pos (htimers ▸ hact)]
    have hactive : k₁.timers.active = k.timers.active := congrArg Timers.active htimers
    refine ⟨hstamp, hactive, .inr ⟨⟨(ep, .initiation msg), ?_⟩, _, rfl, ?_⟩⟩
    · change k₁.inits = _ ∨ k₁.inits = _
      rw [hinits]
      split_ifs
      · exact .inr rfl
      · exact .inl rfl
    · rw [← Nat.add_assoc]
      exact Nat.le_add_right _ _

/-- A keypair or a timer other than that of the retransmission changes. -/
theorem samePace_setTimer {kind : TimerKind} (hkind : kind ≠ .retransmitHandshake)
    (due : Option ℕ) : SamePace k (k.setTimer kind due) := by
  cases kind with
  | retransmitHandshake => exact absurd rfl hkind
  | _ => exact ⟨rfl, rfl, rfl, rfl⟩

theorem samePace_startTimer {kind : TimerKind} (hkind : kind ≠ .retransmitHandshake) (timeout : ℕ) :
    SamePace k (k.startTimer env kind timeout) := by
  unfold Clocks.startTimer
  split_ifs
  · exact samePace_setTimer hkind _
  · exact .refl k

theorem samePace_udpSend {ep : Endpoint} {d : Datagram} (hd : initiates (ep, d) = false) :
    SamePace k (k.udpSend env ep d) := by
  refine ⟨?_, ?_, ?_, ?_⟩
  · unfold Clocks.udpSend
    split_ifs <;> rfl
  · rw [inits_udpSend, hd, if_neg fun h => Bool.false_ne_true h.2]
  · unfold Clocks.udpSend
    split_ifs <;> rfl
  · unfold Clocks.udpSend
    split_ifs <;> rfl

theorem samePace_countSend (k : Clocks) : SamePace k k.countSend := by
  unfold Clocks.countSend
  cases k.currentKeypair <;> exact ⟨rfl, rfl, rfl, rfl⟩

/-- **The rate limit of the sending side**: at most one handshake is begun, `REKEY_TIMEOUT_MS` after
the time noted before. -/
theorem pace_sends (h : Sends c env I P k k') (hact : k.timers.active = true) :
    SamePace k k' ∨
      (I ∧ rekeyTimeoutMs ≤ (env.now - k.lastSentHandshakeMs).toNat ∧ Begins env k k') := by
  refine @Sends.induct c env I P k k' (fun k' => SamePace k k' ∨
    (I ∧ rekeyTimeoutMs ≤ (env.now - k.lastSentHandshakeMs).toNat ∧ Begins env k k'))
    (fun k₁ k₂ hop hk => ?_) h (.inl (.refl k))
  have hsame : ∀ k₃, SamePace k₁ k₃ → SamePace k k₃ ∨
      (I ∧ rekeyTimeoutMs ≤ (env.now - k.lastSentHandshakeMs).toNat ∧ Begins env k k₃) := by
    intro k₃ hsame
    rcases hk with hk | ⟨hI, hrate, hk⟩
    · exact .inl (hk.trans hsame)
    · exact .inr ⟨hI, hrate, hk.same hsame⟩
  cases hop with
  | initiate hI hrate hbegun =>
    rcases hk with hk | ⟨-, -, hk⟩
    · rw [hk.stamp] at hrate
      exact .inr ⟨hI, hrate, hk.begins (begins_of_begun hbegun (hk.active.trans hact))⟩
    · -- the time noted is now
      rw [hk.stamp, BitVec.sub_self] at hrate
      exact absurd hrate (by decide)
  | count => exact hsame _ (samePace_countSend k₁)
  | transport ep hkp hyoung hseal hpkt =>
    refine hsame _ ((samePace_udpSend rfl).trans (samePace_startTimer ?_ _))
    exact TimerKind.noConfusion

end Sending

/-! ### What a turn does -/

/-- Why a turn may send an initiation: it is the one at the start of the program, the retransmission
timer is due, or a handshake is asked for and the time noted before, or erased by this turn, is long
enough ago. -/
inductive PeerStep.MayInitiate (s : PeerStep) : Prop
  | forced (h : s.forced = true)
  | due (t : ℕ) (hdue : s.before.timers.retransmitHandshake = some t)
    (hpast : t ≤ s.env.now.toNat)
  | rate (hneeds : s.NeedsHandshake)
    (hrate : rekeyTimeoutMs ≤ (s.env.now - s.before.handshake.lastSentHandshakeMs).toNat)
  | erased (hneeds : s.NeedsHandshake) (hclears : s.clears = true)
    (hrate : rekeyTimeoutMs ≤ s.env.now.toNat)

/-- What a turn does to the time, to the retransmission timer and to what is sent. -/
structure TurnPace (s : PeerStep) (k' : Clocks) : Prop where
  stamp : k'.lastSentHandshakeMs = s.before.handshake.lastSentHandshakeMs ∨
    k'.lastSentHandshakeMs = s.env.now ∨ (k'.lastSentHandshakeMs = 0 ∧ s.clears = true)
  retransmit : k'.timers.retransmitHandshake = none ∨
    k'.timers.retransmitHandshake = s.before.timers.retransmitHandshake ∨
    ∃ due, k'.timers.retransmitHandshake = some due ∧ s.env.now.toNat + rekeyTimeoutMs ≤ due
  active : k'.timers.active = true
  inits : k'.inits = [] ∨ (∃ d, k'.inits = [d]) ∧ s.MayInitiate ∧
    k'.lastSentHandshakeMs = s.env.now ∧
    ∃ due, k'.timers.retransmitHandshake = some due ∧ s.env.now.toNat + rekeyTimeoutMs ≤ due

section Turns

variable {c : Crypto} {s : PeerStep} {k k' : Clocks}

/-- The clocks that a turn starts from, or that a session start leaves. -/
structure TurnBase (s : PeerStep) (k : Clocks) : Prop where
  stamp : k.lastSentHandshakeMs = s.before.handshake.lastSentHandshakeMs ∨
    (k.lastSentHandshakeMs = 0 ∧ s.clears = true)
  retransmit : k.timers.retransmitHandshake = none ∨
    k.timers.retransmitHandshake = s.before.timers.retransmitHandshake
  active : k.timers.active = true
  inits : k.inits = []

theorem TurnBase.same (h : TurnBase s k) (h' : SamePace k k') : TurnPace s k' := by
  refine ⟨?_, ?_, h'.active.trans h.active, .inl (h'.inits.trans h.inits)⟩
  · rw [h'.stamp]
    exact h.stamp.imp_right .inr
  · rw [h'.retransmit]
    exact h.retransmit.imp_right .inl

theorem TurnBase.begins (h : TurnBase s k) (h' : Begins s.env k k') (hmay : s.MayInitiate) :
    TurnPace s k' := by
  refine ⟨.inr (.inl h'.stamp), ?_, h'.active.trans h.active, ?_⟩
  · rcases h'.inits with ⟨-, hsame⟩ | ⟨-, hdue⟩
    · rw [hsame]
      exact h.retransmit.imp_right .inl
    · exact .inr (.inr hdue)
  · have hinits := h'.inits
    rw [h.inits] at hinits
    rcases hinits with ⟨hnone, -⟩ | ⟨⟨d, hnone | hone⟩, hdue⟩
    · exact .inl hnone
    · exact .inl hnone
    · exact .inr ⟨⟨d, hone⟩, hmay, h'.stamp, hdue⟩

/-- Whatever the sending side does behind a base. -/
theorem TurnBase.sends {I : Prop} {P : List Byte → Prop} (h : TurnBase s k)
    (hI : I → s.NeedsHandshake) (hsends : Sends c s.env I P k k') : TurnPace s k' := by
  rcases pace_sends hsends h.active with hsame | ⟨hi, hrate, hbegins⟩
  · exact h.same hsame
  · refine h.begins hbegins ?_
    rcases h.stamp with hstamp | ⟨hzero, hclears⟩
    · exact .rate (hI hi) (hstamp ▸ hrate)
    · rw [hzero, show s.env.now - (0 : BitVec 64) = s.env.now from BitVec.sub_zero _] at hrate
      exact .erased (hI hi) hclears hrate

theorem TurnPace.same (h : TurnPace s k) (h' : SamePace k k') : TurnPace s k' := by
  refine ⟨?_, ?_, h'.active.trans h.active, ?_⟩
  · rw [h'.stamp]
    exact h.stamp
  · rw [h'.retransmit]
    exact h.retransmit
  · rw [h'.stamp, h'.retransmit, h'.inits]
    exact h.inits

theorem TurnBase.pace (h : TurnBase s k) : TurnPace s k := h.same (.refl k)

theorem turnBase_found (hact : s.before.timers.active = true) : TurnBase s s.before.found :=
  ⟨.inl rfl, .inr rfl, hact, rfl⟩

/-- A timer is stopped before its callback runs. -/
theorem turnBase_stopped (hact : s.before.timers.active = true) (kind : TimerKind) :
    TurnBase s (s.before.found.setTimer kind none) := by
  cases kind with
  | retransmitHandshake => exact ⟨.inl rfl, .inl rfl, hact, rfl⟩
  | _ => exact ⟨.inl rfl, .inr rfl, hact, rfl⟩

/-- A session starts, and the handshake is complete. -/
theorem turnBase_session (h : TurnBase s k) (hclears : s.clears = true) (kp : Keypair) :
    TurnBase s ((k.beginSession kp).completeHandshake s.env) := by
  have hact : (k.beginSession kp).timers.active = true := h.active
  unfold Clocks.completeHandshake
  rw [if_pos hact]
  exact ⟨.inr ⟨rfl, hclears⟩, .inl rfl, h.active, h.inits⟩

theorem samePace_keypairs (h : k.SameButKeypairs k') : SamePace k k' := by
  obtain ⟨cur, next, prev, rfl⟩ := h
  exact ⟨rfl, rfl, rfl, rfl⟩

theorem samePace_dataReceived (env : Env) (k : Clocks) : SamePace k (k.dataReceived env) := by
  unfold Clocks.dataReceived
  split_ifs
  · exact samePace_startTimer TimerKind.noConfusion _
  · exact ⟨rfl, rfl, rfl, rfl⟩
  · exact .refl k

theorem samePace_keepaliveReceived (k : Clocks) : SamePace k k.keepaliveReceived := by
  unfold Clocks.keepaliveReceived
  split_ifs
  · exact samePace_setTimer TimerKind.noConfusion _
  · exact .refl k

/-- **What a turn does**, case by case. -/
theorem turnPace_of_turned (hact : s.before.timers.active = true)
    (ht : Turned c s.env s.before k' s.turn) : TurnPace s k' := by
  have hfound := turnBase_found hact
  cases hturn : s.turn with
  | sent pkt =>
    rw [hturn] at ht
    refine hfound.sends (fun hI => ?_) ht
    unfold PeerStep.NeedsHandshake
    rw [hturn]
    exact hI
  | initiated force =>
    rw [hturn] at ht
    rcases ht with ⟨-, -, rfl⟩ | ⟨hrate, hbegun⟩
    · exact hfound.pace
    · refine hfound.begins (begins_of_begun hbegun hact) ?_
      cases force with
      | true => exact .forced (by rw [PeerStep.forced, hturn])
      | false =>
        refine .rate ?_ (hrate.resolve_left Bool.false_ne_true)
        unfold PeerStep.NeedsHandshake
        rw [hturn]
  | fired kind =>
    rw [hturn] at ht
    obtain ⟨hdue, hcalled⟩ := ht
    have hbase := turnBase_stopped hact kind
    cases kind with
    | retransmitHandshake =>
      rcases hcalled with rfl | ⟨k₁, jitter, hbegun, rfl⟩
      · exact hbase.same (samePace_startTimer TimerKind.noConfusion _)
      · have hbegins := begins_of_begun hbegun hbase.active
        obtain ⟨t, ht, hpast⟩ := (Option.any_eq_true _ _).1 hdue
        have hwait : ∃ due, (k₁.setTimer .retransmitHandshake (uvTimerStart s.env
            (rekeyTimeoutMs + jitter))).timers.retransmitHandshake = some due ∧
              s.env.now.toNat + rekeyTimeoutMs ≤ due := by
          refine ⟨_, rfl, ?_⟩
          rw [← Nat.add_assoc]
          exact Nat.le_add_right _ _
        refine ⟨.inr (.inl hbegins.stamp), .inr (.inr hwait), hbegins.active.trans hbase.active, ?_⟩
        have hmay : s.MayInitiate := .due t ht (of_decide_eq_true hpast)
        change k₁.inits = [] ∨ (∃ d, k₁.inits = [d]) ∧ _
        have hinits := hbegins.inits
        rw [hbase.inits] at hinits
        rcases hinits with ⟨hnone, -⟩ | ⟨⟨d, hnone | hone⟩, -⟩
        · exact .inl hnone
        · exact .inl hnone
        · exact .inr ⟨⟨d, hone⟩, hmay, hbegins.stamp, hwait⟩
    | sendKeepalive =>
      obtain ⟨k₁, hsent, rfl⟩ := hcalled
      have hpace : TurnPace s k₁ := by
        refine hbase.sends (fun hI => ?_) hsent
        unfold PeerStep.NeedsHandshake
        rw [hturn]
        exact hI
      split_ifs
      · exact hpace.same ⟨rfl, rfl, rfl, rfl⟩
      · exact hpace
    | newHandshake =>
      rcases hcalled with ⟨-, -, rfl⟩ | ⟨hrate, hbegun⟩
      · exact hbase.pace
      · refine hbase.begins (begins_of_begun hbegun hbase.active)
          (.rate ?_ (hrate.resolve_left Bool.false_ne_true))
        unfold PeerStep.NeedsHandshake
        rw [hturn]
        trivial
    | zeroKeyMaterial =>
      obtain rfl : k' = _ := hcalled
      have hclears : s.clears = true := by rw [PeerStep.clears, hturn]
      exact (TurnBase.pace ⟨.inr ⟨rfl, hclears⟩, hbase.retransmit, hbase.active, hbase.inits⟩)
    | persistentKeepalive =>
      obtain ⟨k₁, hsent, rfl⟩ := hcalled
      have hpace : TurnPace s k₁ := by
        refine hbase.sends (fun hI => ?_) hsent
        unfold PeerStep.NeedsHandshake
        rw [hturn]
        exact hI
      split_ifs
      · exact hpace.same ⟨rfl, rfl, rfl, rfl⟩
      · exact hpace
  | accepted timestamp msg =>
    rw [hturn] at ht
    obtain ⟨-, -, rfl | ⟨src, resp, kp, -, -, hsends⟩⟩ := ht
    · exact hfound.same ⟨rfl, rfl, rfl, rfl⟩
    · have hclears : s.clears = true := by rw [PeerStep.clears, hturn]
      have hanswer : SamePace s.before.found
          ((s.before.found.consumed s.env timestamp).udpSend s.env src (.response resp)) :=
        @SamePace.trans _ (s.before.found.consumed s.env timestamp) _ ⟨rfl, rfl, rfl, rfl⟩
          (samePace_udpSend rfl)
      have hbase : TurnBase s
          ((s.before.found.consumed s.env timestamp).udpSend s.env src (.response resp)) :=
        ⟨.inl hanswer.stamp, .inr hanswer.retransmit, hanswer.active.trans hact, hanswer.inits⟩
      refine (turnBase_session hbase hclears kp).sends (fun hI => ?_) hsends
      unfold PeerStep.NeedsHandshake
      rw [hturn]
      exact hI
  | completed =>
    rw [hturn] at ht
    obtain ⟨kp, -, -, hsends⟩ := ht
    have hclears : s.clears = true := by rw [PeerStep.clears, hturn]
    exact (turnBase_session hfound hclears kp).sends False.elim hsends
  | received kp plaintext =>
    rw [hturn] at ht
    have hdata := samePace_dataReceived s.env s.before.found
    cases hlen : transportPlaintextLen plaintext with
    | none =>
      simp only [Turned, hlen] at ht
      exact hfound.same (samePace_keypairs ht)
    | some n =>
      cases n with
      | zero =>
        simp only [Turned, hlen] at ht
        have hkeepalive := hdata.trans (samePace_keepaliveReceived _)
        exact hfound.same (hkeepalive.trans (samePace_keypairs ht))
      | succ n =>
        simp only [Turned, hlen] at ht
        exact hfound.same (hdata.trans (samePace_keypairs ht))

end Turns

/-! ### Runs -/

/-- What the time and the timer say about the initiations of a life. -/
structure PacedInv (hs : List PeerStep) (k : Clocks) : Prop where
  apart : (hs.flatMap PeerStep.initiations).Pairwise Apart
  pos : ∀ t ∈ hs.flatMap PeerStep.initiations, 0 < t
  stamp : ∀ t ∈ hs.flatMap PeerStep.initiations, t ≤ k.lastSentHandshakeMs.toNat ∨
    ∃ s ∈ hs, s.clears = true ∧ t ≤ s.before.handshake.lastSentHandshakeMs.toNat
  timer : ∀ t ∈ hs.flatMap PeerStep.initiations,
    ∀ due ∈ k.timers.retransmitHandshake, t + rekeyTimeoutMs ≤ due
  armed : ∀ due ∈ k.timers.retransmitHandshake, rekeyTimeoutMs ≤ due
  past : ∀ now, (∀ s ∈ hs, s.env.now.toNat ≤ now) → k.lastSentHandshakeMs.toNat ≤ now
  active : k.timers.active = true

section Runs

variable {c : Crypto} {hs : List PeerStep} {s : PeerStep} {k k' : Clocks}

theorem pacedInv_start : PacedInv [] Clocks.new :=
  ⟨List.Pairwise.nil, nofun, nofun, nofun, nofun, fun _ _ => Nat.zero_le _, rfl⟩

theorem PacedInv.congr (h : PacedInv hs k) (hstamp : k'.lastSentHandshakeMs = k.lastSentHandshakeMs)
    (hret : k'.timers.retransmitHandshake = k.timers.retransmitHandshake)
    (hact : k'.timers.active = k.timers.active) : PacedInv hs k' := by
  refine ⟨h.apart, h.pos, ?_, ?_, ?_, ?_, hact.trans h.active⟩
  · rw [hstamp]
    exact h.stamp
  · rw [hret]
    exact h.timer
  · rw [hret]
    exact h.armed
  · rw [hstamp]
    exact h.past

theorem time_of_mem_initiations {t : ℕ} (h : t ∈ s.initiations) : t = s.env.now.toNat := by
  unfold PeerStep.initiations at h
  split_ifs at h
  · cases h
  · obtain ⟨d, -, rfl⟩ := List.mem_map.1 h
    rfl

/-- A turn may initiate only when all initiations before are old enough. -/
theorem PacedInv.apart_of_mayInitiate (h : PacedInv hs s.before.found)
    (hclock : ∀ t ∈ hs, t.env.now.toNat ≤ s.env.now.toNat) (hasks : AsksInTime hs s)
    (hmay : s.MayInitiate) (hforced : s.forced = false) : 0 < s.env.now.toNat ∧
      ∀ t ∈ hs.flatMap PeerStep.initiations, t + rekeyTimeoutMs ≤ s.env.now.toNat := by
  have hpos : 0 < rekeyTimeoutMs := by decide
  have hpast : s.before.handshake.lastSentHandshakeMs.toNat ≤ s.env.now.toNat := h.past _ hclock
  -- a time that was erased does not matter any more
  have herased : s.NeedsHandshake → ∀ t ∈ hs.flatMap PeerStep.initiations,
      ∀ s' ∈ hs ++ [s], s'.clears = true →
        t ≤ s'.before.handshake.lastSentHandshakeMs.toNat →
        t + rekeyTimeoutMs ≤ s.env.now.toNat := by
    intro hneeds t ht s' hs' hclears hle
    have hnonzero : s'.before.handshake.lastSentHandshakeMs ≠ 0 := by
      intro hzero
      rw [hzero] at hle
      exact absurd (h.pos t ht) (not_lt.2 hle)
    exact (Nat.add_le_add_right hle _).trans (hasks hneeds s' hs' hclears hnonzero)
  cases hmay with
  | forced hyes => exact absurd hyes (Bool.eq_false_iff.1 hforced)
  | due due hdue hle =>
    exact ⟨hpos.trans_le ((h.armed due hdue).trans hle),
      fun t ht => (h.timer t ht due hdue).trans hle⟩
  | rate hneeds hrate =>
    rw [BitVec.toNat_sub_of_le (BitVec.le_def.2 hpast)] at hrate
    refine ⟨by omega, fun t ht => ?_⟩
    rcases h.stamp t ht with hle | ⟨s', hs', hclears, hle⟩
    · have hle' : t ≤ s.before.handshake.lastSentHandshakeMs.toNat := hle
      omega
    · exact herased hneeds t ht s' (List.mem_append_left _ hs') hclears hle
  | erased hneeds hclears hrate =>
    refine ⟨hpos.trans_le hrate, fun t ht => ?_⟩
    rcases h.stamp t ht with hle | ⟨s', hs', hclears', hle⟩
    · exact herased hneeds t ht s (List.mem_append_right _ (List.mem_singleton_self s)) hclears hle
    · exact herased hneeds t ht s' (List.mem_append_left _ hs') hclears' hle

/-- **A turn** keeps initiations apart if it asks for a handshake in time. -/
theorem PacedInv.turn (h : PacedInv hs s.before.found)
    (hclock : ∀ t ∈ hs, t.env.now.toNat ≤ s.env.now.toNat) (hasks : AsksInTime hs s)
    (hsent : k'.sent = s.sent) (hpace : TurnPace s k') : PacedInv (hs ++ [s]) k' := by
  have hpast : s.before.handshake.lastSentHandshakeMs.toNat ≤ s.env.now.toNat := h.past _ hclock
  have hlist : (hs ++ [s]).flatMap PeerStep.initiations =
      hs.flatMap PeerStep.initiations ++ s.initiations := by
    rw [List.flatMap_append, List.flatMap_singleton]
  have hself : s ∈ hs ++ [s] := List.mem_append_right _ (List.mem_singleton_self s)
  -- the initiations before are covered still
  have hold : ∀ t ∈ hs.flatMap PeerStep.initiations, t ≤ k'.lastSentHandshakeMs.toNat ∨
      ∃ s' ∈ hs ++ [s], s'.clears = true ∧
        t ≤ s'.before.handshake.lastSentHandshakeMs.toNat := by
    intro t ht
    rcases h.stamp t ht with hle | ⟨s', hs', hclears, hle⟩
    · have hle' : t ≤ s.before.handshake.lastSentHandshakeMs.toNat := hle
      rcases hpace.stamp with hstamp | hstamp | ⟨-, hclears⟩
      · exact .inl (hstamp ▸ hle')
      · exact .inl (hstamp ▸ hle'.trans hpast)
      · exact .inr ⟨s, hself, hclears, hle'⟩
    · exact .inr ⟨s', List.mem_append_left _ hs', hclears, hle⟩
  have hinits : s.initiations = [] ∨ s.initiations = [s.env.now.toNat] ∧ s.MayInitiate ∧
      s.forced = false ∧ k'.lastSentHandshakeMs = s.env.now ∧
      ∃ due, k'.timers.retransmitHandshake = some due ∧
        s.env.now.toNat + rekeyTimeoutMs ≤ due := by
    unfold PeerStep.initiations
    cases hforced : s.forced with
    | true => exact .inl rfl
    | false =>
      have hk := hpace.inits
      unfold Clocks.inits at hk
      rw [hsent] at hk
      rcases hk with hnone | ⟨⟨d, hone⟩, hmay, hrest⟩
      · exact .inl (by rw [hnone]; rfl)
      · exact .inr ⟨by rw [hone]; rfl, hmay, rfl, hrest⟩
  have htimer : ∀ due ∈ k'.timers.retransmitHandshake,
      due ∈ s.before.timers.retransmitHandshake ∨ s.env.now.toNat + rekeyTimeoutMs ≤ due := by
    intro due hdue
    rcases hpace.retransmit with hret | hret | ⟨due', hret, hle⟩
    · rw [hret] at hdue
      cases hdue
    · exact .inl (hret ▸ hdue)
    · rw [hret] at hdue
      cases hdue
      exact .inr hle
  have hbefore : ∀ t ∈ hs.flatMap PeerStep.initiations, t ≤ s.env.now.toNat := by
    intro t ht
    obtain ⟨s', hs', hmem⟩ := List.mem_flatMap.1 ht
    rw [time_of_mem_initiations hmem]
    exact hclock s' hs'
  have harmed : ∀ due ∈ k'.timers.retransmitHandshake, rekeyTimeoutMs ≤ due := by
    intro due hdue
    rcases htimer due hdue with hmem | hle
    · exact h.armed due hmem
    · exact (Nat.le_add_left _ _).trans hle
  have htimer' : ∀ t ∈ hs.flatMap PeerStep.initiations,
      ∀ due ∈ k'.timers.retransmitHandshake, t + rekeyTimeoutMs ≤ due := by
    intro t ht due hdue
    rcases htimer due hdue with hmem | hle
    · exact h.timer t ht due hmem
    · exact (Nat.add_le_add_right (hbefore t ht) _).trans hle
  have hpast' : ∀ now, (∀ s' ∈ hs ++ [s], s'.env.now.toNat ≤ now) →
      k'.lastSentHandshakeMs.toNat ≤ now := by
    intro now hnow
    rcases hpace.stamp with hstamp | hstamp | ⟨hzero, -⟩
    · rw [hstamp]
      exact h.past now fun t ht => hnow t (List.mem_append_left _ ht)
    · rw [hstamp]
      exact hnow s hself
    · rw [hzero]
      exact Nat.zero_le _
  rcases hinits with hnone | ⟨hone, hmay, hforced, hstamp, due, hdue, hwait⟩
  · rw [hnone, List.append_nil] at hlist
    exact ⟨hlist ▸ h.apart, hlist ▸ h.pos, hlist ▸ hold, hlist ▸ htimer', harmed, hpast',
      hpace.active⟩
  · obtain ⟨hpos, hapart⟩ := h.apart_of_mayInitiate hclock hasks hmay hforced
    rw [hone] at hlist
    refine ⟨?_, ?_, ?_, ?_, harmed, hpast', hpace.active⟩
    · rw [hlist, List.pairwise_append]
      refine ⟨h.apart, List.pairwise_singleton _ _, fun t ht t' ht' => ?_⟩
      rw [List.mem_singleton.1 ht']
      exact hapart t ht
    · rw [hlist]
      exact List.forall_mem_append.2 ⟨h.pos, List.forall_mem_singleton.2 hpos⟩
    · rw [hlist]
      exact List.forall_mem_append.2 ⟨hold, List.forall_mem_singleton.2 (.inl (hstamp ▸ le_rfl))⟩
    · rw [hlist]
      refine List.forall_mem_append.2 ⟨htimer', List.forall_mem_singleton.2 fun due' hdue' => ?_⟩
      rw [hdue] at hdue'
      cases hdue'
      exact hwait

/-- **The invariant of a life** whose turns ask for handshakes in time. -/
theorem Lives.pacedInv (h : Lives c hs k)
    (hclock : hs.Pairwise fun s t => s.env.now.toNat ≤ t.env.now.toNat)
    (hasks : ∀ pre s post, hs = pre ++ s :: post → AsksInTime pre s) : PacedInv hs k := by
  induction h with
  | start => exact pacedInv_start
  | reconf h hre ih =>
    obtain ⟨ms, due, rfl⟩ := hre.1
    exact (ih hclock hasks).congr rfl rfl rfl
  | @turn hs s k' h hsent ht ih =>
    obtain ⟨hbefore, -, hlast⟩ := List.pairwise_append.1 hclock
    have hold := ih hbefore fun pre s' post hsplit =>
      hasks pre s' (post ++ [s]) (by rw [hsplit, List.append_assoc, List.cons_append])
    have hnew := hold.turn (fun t ht => hlast t ht s List.mem_cons_self) (hasks hs s [] rfl) hsent
      (turnPace_of_turned hold.active ht)
    exact hnew.congr rfl rfl rfl

end Runs

/-- **When initiations are apart.**  In every run of a device in which `uv_now` does not go back,
any two initiations sent to a peer are at least `REKEY_TIMEOUT_MS` apart, if a handshake is never
asked for before that time has passed since a time that was erased. -/
theorem initiations_apart (c : Crypto) (es : List LifeEvent) (hclock : Steady es) (addr : ℕ)
    (hasks : ∀ pre s post, history c addr (deviceInit c) es = pre ++ s :: post →
      AsksInTime pre s) :
    (initiationTimes c addr es).Pairwise Apart := by
  obtain ⟨k, hlife⟩ := @lives_history c addr es
  refine (hlife.pacedInv ?_ hasks).apart
  exact List.pairwise_map.1 (hclock.sublist (times_history_sublist addr (deviceInit c) es))

/-! ### An initiation too soon -/

/-- The environment of an event with its own random values, at a time in milliseconds. -/
def envAt (seed : Byte) (ms : BitVec 64) : Env := { toyEnv seed with now := ms }

/-- The other end starts a session. -/
def firstSession : List LifeEvent :=
  [.device (.setPrivateKey (List.replicate 32 1)), .device (.addPeer (List.replicate 32 2)),
    .device (.recv (envAt 7 10000) 0 tagSrc (.initiation (tagInitiation (toyEnv 5))))]

/-- The rekeying of the first session and a retransmission, at their times. -/
theorem initiations_apart_rekey :
    initiationTimes tagCrypto 1 (firstSession ++ [.device (.timer (envAt 8 130000) 1 .newHandshake),
        .device (.timer (envAt 9 135000) 1 .retransmitHandshake)]) = [130000, 135000] ∧
      (initiationTimes tagCrypto 1 (firstSession ++
        [.device (.timer (envAt 8 130000) 1 .newHandshake),
          .device (.timer (envAt 9 135000) 1 .retransmitHandshake)])).Pairwise Apart := by
  refine ⟨by decide +kernel, initiations_apart _ _ (by decide +kernel) _ ?_⟩
  -- no session start erases a time
  have hzero : ((history tagCrypto 1 (deviceInit tagCrypto) (firstSession ++
      [.device (.timer (envAt 8 130000) 1 .newHandshake),
        .device (.timer (envAt 9 135000) 1 .retransmitHandshake)])).all fun s =>
      !s.clears || s.before.handshake.lastSentHandshakeMs == 0) = true := by decide +kernel
  intro pre s post hsplit _ s' hs' hclears hne
  have hmem : s' ∈ pre ++ s :: post :=
    List.append_cons pre s post ▸ List.mem_append_left post hs'
  have hs := List.all_eq_true.1 (hsplit ▸ hzero) s' hmem
  rw [hclears, Bool.not_true, Bool.false_or] at hs
  exact absurd (eq_of_beq hs) hne

/-- A keepalive that confirms it. -/
def confirmation : MsgTransport :=
  let kp := (lifeRun tagCrypto (deviceInit tagCrypto) firstSession).peers.head?.bind
    Peer.nextKeypair
  { receiver := (kp.map Keypair.localIndex).getD 0
    counter := 0
    content := tagCrypto.aeadEncrypt ((kp.map Keypair.recvKey).getD []) (transportNonce 0) [] [] }

/-- A second session of the other end, 70 s later, is never confirmed.  The timer for a new
handshake fires 120 s after it; a second later an initiation of the other end arrives, and a second
after that a packet is to be sent, for which the first session is too old. -/
def crossedRun : List LifeEvent :=
  firstSession ++
    [.device (.recv (envAt 8 10100) 0 tagSrc (.transport confirmation)),
      .device (.recv (envAt 9 80000) 0 tagSrc (.initiation (tagInitiation (toyEnv 6)))),
      .device (.timer (envAt 10 200000) 1 .newHandshake),
      .device (.recv (envAt 11 201000) 0 tagSrc (.initiation (tagInitiation (toyEnv 7)))),
      .device (.send (envAt 12 202000) 1 [0x45])]

/-- **Two initiations are sent within two seconds.** -/
theorem initiations_too_soon :
    initiationTimes tagCrypto 1 crossedRun = [200000, 202000] ∧
      ¬ (initiationTimes tagCrypto 1 crossedRun).Pairwise Apart := by
  have htimes : initiationTimes tagCrypto 1 crossedRun = [200000, 202000] := by decide +kernel
  refine ⟨htimes, ?_⟩
  rw [htimes, List.pairwise_pair]
  unfold Apart
  decide

end Wgx
