import Wgx.Device.OnePeer

/-!
# A settled handshake means a shared session

Each device has one handshake slot for both roles.  A device that accepts an initiation gives up the
handshake it has initiated itself and stops its retransmission timer, so that two initiations that
cross can leave both devices with a session the other does not have (`crossing_initiations`).

As long as every initiation that is accepted is still awaited by its sender (`Net.Awaited`), a
settled network shares a session.  `NetInv` is the invariant of such runs:

* an initiation in flight is honest, no newer than the last one of its sender, and if its sender
  still awaits the answer, it is the last one;
* a response in flight that its receiver awaits continues the receiver's handshake, and its sender
  has the other end as its newest session;
* not both devices await responses that are in flight;
* once an initiation was accepted, one of the retransmission timers is active or the newest sessions
  mirror each other.
-/

namespace Wgx

@[simp] theorem Side.other_other (s : Side) : s.other.other = s := by
  cases s <;> rfl

theorem Side.other_ne (s : Side) : s.other ≠ s := by
  cases s <;> decide

theorem Side.eq_or_other (s t : Side) : t = s ∨ t = s.other := by
  cases s <;> cases t <;> decide

/-! ### The invariant -/

section Invariant

variable (c : Crypto) (key : Side → List Byte) (psk : List Byte)

/-- What is known of an initiation in flight, from its sender's clock and handshake. -/
def Begun (i r : List Byte) (clock : Vector Byte 12) (hs : Handshake) (msg : MsgInitiation) : Prop :=
  ∃ (e : List Byte) (ts : Vector Byte 12), e.length = 32 ∧ IsInitiation c i r e ts.toList msg ∧
    ¬ tai64nAfter ts.toList clock.toList ∧
    (hs.Awaits msg.sender → hs.Made c i r e ts.toList ∧ ts = clock)

/-- What is known of an awaited response in flight, from its receiver's clock and handshake and from
the device `other` that sent it. -/
def Expected (k : List Byte) (clock : Vector Byte 12) (hs : Handshake) (other : Peer)
    (msg : MsgResponse) : Prop :=
  ∃ f, Continues c k psk hs f msg ∧
    other.newest =
      some (sessionEnds c (hs.chainKeyAfter c k psk f) msg.receiver msg.sender).flip ∧
    other.handshake.lastTimestamp = clock.toList

/-- The newest sessions of the two devices mirror each other. -/
def Shared (p : Side → Peer) : Prop :=
  ∃ e, (p .A).newest = some e ∧ (p .B).newest = some e.flip

/-- The invariant of a network whose devices have the peers `p`. -/
structure NetInv (n : Net) (p : Side → Peer) : Prop where
  solo : ∀ s, Solo c (key s) (key s.other) psk (n.dev s) (p s)
  initiations : ∀ s msg, (s, .initiation msg) ∈ n.flight →
    Begun c (key s.other) (key s) (n.clock s.other) (p s.other).handshake msg
  responses : ∀ s msg, (s, .response msg) ∈ n.flight → (p s).handshake.Awaits msg.receiver →
    Expected c psk (key s) (n.clock s) (p s).handshake (p s.other) msg
  exclusive : ∀ s msg msg', (s, .response msg) ∈ n.flight → (s.other, .response msg') ∈ n.flight →
    (p s).handshake.Awaits msg.receiver → ¬ (p s.other).handshake.Awaits msg'.receiver
  session : n.accepted = true →
    (∃ s, (p s).timers.retransmitHandshake ≠ none) ∨ Shared p

end Invariant

section Step

variable {c : Crypto} {key : Side → List Byte} {psk : List Byte} {n : Net} {p : Side → Peer}
  {s : Side} {flight : List (Side × Datagram)} {accepted : Bool}

theorem shared_of_newest {e : Ends} (h1 : (p s).newest = some e)
    (h2 : (p s.other).newest = some e.flip) : Shared p := by
  cases s with
  | A => exact ⟨e, h1, h2⟩
  | B => exact ⟨e.flip, h2, h1⟩

theorem not_awaits_of_zeroed {hs : Handshake} (h : hs.state = .zeroed) (idx : BitVec 32) :
    ¬ hs.Awaits idx := by
  intro ha
  rw [Handshake.Awaits, h] at ha
  cases ha.1

/-- A datagram that passes by keeps the invariant. -/
theorem NetInv.passed (h : NetInv c key psk n p) {hd : Handled}
    (hp : Passed c (key s) (key s.other) psk (p s) hd)
    (hflight : ∀ m ∈ flight, m ∈ n.flight ∨ m.2.isHandshake = false)
    (hacc : accepted = true → n.accepted = true) :
    ∃ p', NetInv c key psk ⟨Function.update n.dev s hd.dev, flight, n.clock, accepted⟩ p' := by
  obtain ⟨peer, hsolo, hhs, htimer, hnewest, -⟩ := hp
  have hs' : ∀ t, (Function.update p s peer t).handshake = (p t).handshake := by
    intro t
    rcases s.eq_or_other t with rfl | rfl <;> simp [hhs, Side.other_ne]
  have ht' : ∀ t, (Function.update p s peer t).timers.retransmitHandshake =
      (p t).timers.retransmitHandshake := by
    intro t
    rcases s.eq_or_other t with rfl | rfl <;> simp [htimer, Side.other_ne]
  have hn' : ∀ t, (Function.update p s peer t).newest = (p t).newest := by
    intro t
    rcases s.eq_or_other t with rfl | rfl <;> simp [hnewest, Side.other_ne]
  have hmem : ∀ {m}, m ∈ flight → m.2.isHandshake = true → m ∈ n.flight := by
    intro m hm hhand
    exact (hflight m hm).resolve_right (by simp [hhand])
  refine ⟨Function.update p s peer, ?_, ?_, ?_, ?_, ?_⟩
  · intro t
    rcases s.eq_or_other t with rfl | rfl
    · simpa using hsolo
    · simpa [Side.other_ne] using h.solo s.other
  · intro t msg hm
    rw [hs']
    exact h.initiations t msg (hmem hm rfl)
  · intro t msg hm
    rw [hs', Expected, hs', hn']
    exact h.responses t msg (hmem hm rfl)
  · intro t msg msg' hm hm'
    rw [hs', hs']
    exact h.exclusive t msg msg' (hmem hm rfl) (hmem hm' rfl)
  · intro ha
    simp only [ht', Shared, hn']
    exact h.session (hacc ha)

/-- A call that leaves the handshake of `s` cleared: what is left to show concerns the responses to
the other device, and the session. -/
theorem NetInv.cleared (h : NetInv c key psk n p) {dev : Device} {peer : Peer}
    (hsolo : Solo c (key s) (key s.other) psk dev peer) (hzero : peer.handshake.state = .zeroed)
    (hinit : ∀ t msg, (t, .initiation msg) ∈ flight → (t, .initiation msg) ∈ n.flight)
    (hresp : ∀ msg, (s.other, .response msg) ∈ flight →
      (p s.other).handshake.Awaits msg.receiver →
      Expected c psk (key s.other) (n.clock s.other) (p s.other).handshake peer msg)
    (hsession : accepted = true →
      (∃ t, (Function.update p s peer t).timers.retransmitHandshake ≠ none) ∨
        Shared (Function.update p s peer)) :
    NetInv c key psk ⟨Function.update n.dev s dev, flight, n.clock, accepted⟩
      (Function.update p s peer) := by
  have hnot : ∀ idx, ¬ peer.handshake.Awaits idx := not_awaits_of_zeroed hzero
  refine ⟨?_, ?_, ?_, ?_, hsession⟩
  · intro t
    rcases s.eq_or_other t with rfl | rfl
    · simpa using hsolo
    · simpa [Side.other_ne] using h.solo s.other
  · intro t msg hm
    have hold := h.initiations t msg (hinit t msg hm)
    rcases s.eq_or_other t with rfl | rfl
    · simpa [Side.other_ne] using hold
    · simp only [Side.other_other, Function.update_self] at hold ⊢
      obtain ⟨e, ts, he, hmsg, hafter, -⟩ := hold
      exact ⟨e, ts, he, hmsg, hafter, fun ha => absurd ha (hnot _)⟩
  · intro t msg hm ha
    rcases s.eq_or_other t with rfl | rfl
    · rw [Function.update_self] at ha
      exact absurd ha (hnot _)
    · simp only [Side.other_other, Function.update_self, Function.update_of_ne s.other_ne] at ha ⊢
      exact hresp msg hm ha
  · intro t msg msg' hm hm' ha ha'
    rcases s.eq_or_other t with rfl | rfl
    · rw [Function.update_self] at ha
      exact hnot _ ha
    · rw [Side.other_other, Function.update_self] at ha'
      exact hnot _ ha'

/-- An initiation of `s` keeps the invariant: nothing in flight names its index. -/
theorem NetInv.initiated (h : NetInv c key psk n p) {env : Env} {e : List Byte} {x : Ctx}
    (he : e.length = 32)
    (hx : Initiated c (key s) (key s.other) psk env (n.dev s) (p s) e x)
    (hclock : ¬ tai64nAfter (n.clock s).toList (env.draw 0).timestamp.toList)
    (hfresh : ∀ m ∈ n.flight, ¬ names s ((Ctx.start (n.dev s) (p s)).newIndex env) m) :
    NetInv c key psk
      ⟨Function.update n.dev s x.finish, n.flight ++ x.sent.map fun m => (s.other, m.2),
        Function.update n.clock s (env.draw 0).timestamp, n.accepted⟩
      (Function.update p s x.peer) := by
  have hsent : ∀ t d, (t, d) ∈ n.flight ++ x.sent.map (fun m => (s.other, m.2)) →
      (t, d) ∈ n.flight ∨ t = s.other ∧ ∃ msg, d = .initiation msg ∧
        msg.sender = (Ctx.start (n.dev s) (p s)).newIndex env ∧
        IsInitiation c (key s) (key s.other) e (env.draw 0).timestamp.toList msg := by
    intro t d hm
    rcases List.mem_append.1 hm with hm | hm
    · exact Or.inl hm
    · obtain ⟨m, hmem, heq⟩ := List.mem_map.1 hm
      cases heq
      exact Or.inr ⟨rfl, hx.sent m hmem⟩
  -- so no response in flight is awaited under the new index
  have hnot : ∀ msg, (s, .response msg) ∈ n.flight → ¬ x.peer.handshake.Awaits msg.receiver := by
    intro msg hm ha
    exact hfresh _ hm ⟨rfl, ha.2.symm.trans hx.awaits.2⟩
  have hresp : ∀ t msg, (t, .response msg) ∈ n.flight ++ x.sent.map (fun m => (s.other, m.2)) →
      (t, .response msg) ∈ n.flight := by
    intro t msg hm
    rcases hsent t _ hm with hm | ⟨-, msg', heq, -⟩
    · exact hm
    · cases heq
  refine ⟨?_, ?_, ?_, ?_, ?_⟩
  · intro t
    rcases s.eq_or_other t with rfl | rfl
    · simpa using hx.solo
    · simpa [Side.other_ne] using h.solo s.other
  · intro t msg hm
    rcases hsent t _ hm with hm | ⟨rfl, msg', heq, hidx, hmsg⟩
    · have hold := h.initiations t msg hm
      rcases s.eq_or_other t with rfl | rfl
      · simpa [Side.other_ne] using hold
      · simp only [Side.other_other, Function.update_self] at hold ⊢
        obtain ⟨e', ts, he', hmsg, hafter, -⟩ := hold
        refine ⟨e', ts, he', hmsg, not_tai64nAfter_trans (by simp) (by simp) hafter hclock, ?_⟩
        intro ha
        exact absurd ⟨rfl, ha.2.symm.trans hx.awaits.2⟩ (hfresh _ hm)
    · cases heq
      simp only [Side.other_other, Function.update_self]
      exact ⟨e, (env.draw 0).timestamp, he, hmsg, not_tai64nAfter_self _,
        fun _ => ⟨hx.made, rfl⟩⟩
  · intro t msg hm ha
    have hm' := hresp t msg hm
    rcases s.eq_or_other t with rfl | rfl
    · rw [Function.update_self] at ha
      exact absurd ha (hnot msg hm')
    · simp only [Side.other_other, Function.update_self, Function.update_of_ne s.other_ne] at ha ⊢
      have hold := h.responses s.other msg hm' ha
      simp only [Side.other_other] at hold
      rw [Expected, hx.newest_eq, hx.lastTimestamp_eq]
      exact hold
  · intro t msg msg' hm hm' ha ha'
    rcases s.eq_or_other t with rfl | rfl
    · rw [Function.update_self] at ha
      exact hnot msg (hresp _ _ hm) ha
    · rw [Side.other_other] at hm' ha'
      rw [Function.update_self] at ha'
      exact hnot msg' (hresp _ _ hm') ha'
  · intro hacc
    rcases h.session hacc with ⟨t, ht⟩ | ⟨ends, hA, hB⟩
    · refine Or.inl ⟨t, ?_⟩
      rcases s.eq_or_other t with rfl | rfl
      · rw [Function.update_self]
        exact hx.timer ht
      · rwa [Function.update_of_ne s.other_ne]
    · have hn' : ∀ t, (Function.update p s x.peer t).newest = (p t).newest := by
        intro t
        rcases s.eq_or_other t with rfl | rfl <;> simp [hx.newest_eq, Side.other_ne]
      exact Or.inr ⟨ends, (hn' .A).trans hA, (hn' .B).trans hB⟩

/-- Accepting an awaited initiation keeps the invariant: the answer to it is the only response that
its sender can await. -/
theorem NetInv.answered (h : NetInv c key psk n p) {msg : MsgInitiation} {f : List Byte}
    {e : List Byte} {ts : Vector Byte 12} {hd : Handled} {peer : Peer} (he : e.length = 32)
    (hf : f.length = 32) (hnew : tai64nAfter ts.toList (p s).handshake.lastTimestamp = true)
    (hold : ¬ tai64nAfter ts.toList (n.clock s.other).toList)
    (hmade : (p s.other).handshake.Awaits msg.sender →
      (p s.other).handshake.Made c (key s.other) (key s) e ts.toList ∧ ts = n.clock s.other)
    (hans : Answered c (key s) (key s.other) psk
      (initiationTranscript c (key s.other) (key s) e ts.toList).hash
      (initiationTranscript c (key s.other) (key s) e ts.toList).chainKey e ts.toList msg.sender f
      hd peer)
    (hwait : (p s.other).timers.retransmitHandshake ≠ none)
    (hflight : ∀ m ∈ flight, m ∈ n.flight ∨ m.1 = s.other ∧ ∃ a ∈ hd.sent, a.2 = m.2) :
    NetInv c key psk ⟨Function.update n.dev s hd.dev, flight, n.clock, true⟩
      (Function.update p s peer) := by
  have hsent : ∀ m ∈ flight, m ∈ n.flight ∨ ∃ resp, m = (s.other, .response resp) ∧
      IsResponse c (initiationTranscript c (key s.other) (key s) e ts.toList).hash
        (initiationTranscript c (key s.other) (key s) e ts.toList).chainKey (key s.other) e f psk
        msg.sender resp ∧
      peer.newest = some (sessionEnds c (responseTranscript c
        (initiationTranscript c (key s.other) (key s) e ts.toList).hash
        (initiationTranscript c (key s.other) (key s) e ts.toList).chainKey (key s.other) e f
        psk).chainKey msg.sender resp.sender).flip := by
    intro m hm
    rcases hflight m hm with hm | ⟨hdest, a, ha, heq⟩
    · exact Or.inl hm
    · obtain ⟨resp, hresp, hrest⟩ := hans.sent a ha
      exact Or.inr ⟨resp, Prod.ext hdest (heq.symm.trans hresp), hrest⟩
  refine h.cleared hans.solo hans.cleared ?_ ?_ ?_
  · intro t m hm
    rcases hsent _ hm with hm | ⟨resp, heq, -⟩
    · exact hm
    · cases heq
  · intro resp hm ha
    rcases hsent _ hm with hm | ⟨resp', heq, hresp, hnewest⟩
    · -- an older answer that is still awaited would make this initiation a replay
      obtain ⟨f', -, -, hlast⟩ := h.responses s.other resp hm ha
      simp only [Side.other_other] at hlast
      rw [hlast] at hnew
      exact absurd hnew hold
    · cases heq
      rw [hresp.receiver_eq] at ha
      obtain ⟨⟨hpriv, hhash, hck⟩, hts⟩ := hmade ha
      refine ⟨f, ⟨hf, hpriv ▸ he, ?_⟩, ?_, ?_⟩
      · rw [hpriv, hhash, hck, hresp.receiver_eq]
        exact hresp
      · rw [Handshake.chainKeyAfter, hpriv, hhash, hck, hresp.receiver_eq]
        exact hnewest
      · rw [hans.lastTimestamp_eq, hts]
  · intro _
    refine Or.inl ⟨s.other, ?_⟩
    rwa [Function.update_of_ne s.other_ne]

/-- Completing a handshake keeps the invariant: the two ends of its session are the newest ones. -/
theorem NetInv.completed (h : NetInv c key psk n p) {msg : MsgResponse} {f : List Byte}
    {hd : Handled} {peer : Peer} (hmsg : (s, .response msg) ∈ n.flight)
    (hawaits : (p s).handshake.Awaits msg.receiver)
    (hother : (p s.other).newest = some (sessionEnds c
      ((p s).handshake.chainKeyAfter c (key s) psk f) msg.receiver msg.sender).flip)
    (hcomp : Completed c (key s) (key s.other) psk
      ((p s).handshake.chainKeyAfter c (key s) psk f) msg (p s) hd peer)
    (hflight : ∀ m ∈ flight, m ∈ n.flight ∨ m.2.isHandshake = false) :
    NetInv c key psk ⟨Function.update n.dev s hd.dev, flight, n.clock, n.accepted⟩
      (Function.update p s peer) := by
  refine h.cleared hcomp.solo hcomp.cleared ?_ ?_ ?_
  · intro t m hm
    exact (hflight _ hm).resolve_right (by simp [Datagram.isHandshake])
  · intro resp hm ha
    have hm' := (hflight _ hm).resolve_right (by simp [Datagram.isHandshake])
    exact absurd ha (h.exclusive s msg resp hmsg hm' hawaits)
  · intro _
    have hself := hcomp.newest_eq
    rw [← Function.update_self s peer p] at hself
    refine Or.inr (shared_of_newest hself ?_)
    rwa [Function.update_of_ne s.other_ne]

/-- What is in flight after a datagram was handled. -/
theorem mem_flight_handled {i : ℕ} {sent : List (Endpoint × Datagram)} {m : Side × Datagram}
    (hm : m ∈ n.flight.eraseIdx i ++ sent.map fun a => (s.other, a.2)) :
    m ∈ n.flight ∨ m.1 = s.other ∧ ∃ a ∈ sent, a.2 = m.2 := by
  rcases List.mem_append.1 hm with hm | hm
  · exact Or.inl (List.mem_of_mem_eraseIdx hm)
  · obtain ⟨a, ha, heq⟩ := List.mem_map.1 hm
    cases heq
    exact Or.inr ⟨rfl, a, ha, rfl⟩

theorem passed_flight {k r : List Byte} {peer : Peer} {hd : Handled}
    (hp : Passed c k r psk peer hd) {i : ℕ} :
    ∀ m ∈ n.flight.eraseIdx i ++ hd.sent.map (fun a => (s.other, a.2)),
      m ∈ n.flight ∨ m.2.isHandshake = false := by
  obtain ⟨-, -, -, -, -, hsent⟩ := hp
  intro m hm
  rcases mem_flight_handled hm with hm | ⟨-, a, ha, heq⟩
  · exact Or.inl hm
  · exact Or.inr (heq ▸ hsent a ha)

variable (hae : c.AeadRoundTrip) (hdh : c.DhAgrees) (hkey : ∀ s, (key s).length = 32)

include hdh hkey in
theorem NetInv.initiate (h : NetInv c key psk n p) {env : Env}
    (hdraws : n.DrawsOk (.initiate s env)) : ∃ p', NetInv c key psk (n.step c (.initiate s env)) p' := by
  have hsolo := h.solo s
  simp only [Net.DrawsOk, hsolo.peers_eq, List.mem_singleton, forall_eq] at hdraws
  simp only [Net.step, hsolo.peers_eq]
  rcases deviceInitiateHandshake_solo hsolo hdh (hkey _) with heq | ⟨e, he, hx⟩
  · rw [heq]
    have hpass : Passed c (key s) (key s.other) psk (p s)
        (Ctx.start (n.dev s) (p s)).handled := passed_unmoved hsolo (Unmoved.refl _)
    refine h.passed hpass (fun m hm => Or.inl ?_) id
    simpa [Net.handled, Ctx.handled, Ctx.start] using hm
  · rw [if_neg hx.drawn]
    exact ⟨_, h.initiated he hx hdraws.1 hdraws.2⟩

include hae hdh hkey in
theorem NetInv.deliver (h : NetInv c key psk n p) {i : ℕ} {src : Endpoint} {env : Env}
    (hawaited : n.Awaited c (.deliver i src env)) :
    ∃ p', NetInv c key psk (n.step c (.deliver i src env)) p' := by
  simp only [Net.step]
  cases hget : n.flight[i]? with
  | none => exact ⟨p, h⟩
  | some m =>
    obtain ⟨s, d⟩ := m
    have hmem : (s, d) ∈ n.flight := List.mem_of_getElem? hget
    have hsolo := h.solo s
    cases d with
    | initiation msg =>
      obtain ⟨e, ts, he, hmsg, hafter, hmade⟩ := h.initiations s msg hmem
      obtain ⟨hd, hhandle, hcase⟩ := handleInitiation_solo env hsolo hae hdh (hkey _)
        (hkey _) he hmsg src
      simp only [onUdpRecv, hhandle]
      rcases hcase with ⟨hacc, hpass⟩ | ⟨hacc, hnew, f, peer, hf, hans⟩
      · simp only [hacc, Bool.or_false]
        exact h.passed hpass (passed_flight hpass) id
      · have hwait := hawaited (s, .initiation msg) hget hacc
        rw [(h.solo s.other).peers_eq] at hwait
        simp only [hacc, Bool.or_true]
        exact ⟨_, h.answered he hf hnew hafter hmade hans (hwait _ (List.mem_singleton_self _))
          fun m hm => mem_flight_handled hm⟩
    | response msg =>
      simp only [onUdpRecv, acceptsInitiation, Bool.or_false]
      by_cases ha : (p s).handshake.Awaits msg.receiver
      · obtain ⟨f, hcont, hother, -⟩ := h.responses s msg hmem ha
        obtain ⟨hd, hhandle, hcase⟩ := handleResponse_solo env hsolo hae hdh (hkey _) src
          fun _ => hcont
        simp only [hhandle]
        rcases hcase with hpass | ⟨-, peer, hcomp⟩
        · exact h.passed hpass (passed_flight hpass) id
        · refine ⟨_, h.completed hmem ha hother hcomp ?_⟩
          intro m hm
          rcases mem_flight_handled hm with hm | ⟨-, a, hsent, heq⟩
          · exact Or.inl hm
          · exact Or.inr (heq ▸ hcomp.sent a hsent)
      · obtain ⟨hd, hhandle, hcase⟩ := handleResponse_solo (f := []) env hsolo hae hdh
          (hkey _) src fun ha' => absurd ha' ha
        simp only [hhandle]
        rcases hcase with hpass | ⟨ha', -⟩
        · exact h.passed hpass (passed_flight hpass) id
        · exact absurd ha' ha
    | cookieReply msg =>
      simp only [onUdpRecv, acceptsInitiation, Bool.or_false]
      have hpass := handleCookieReply_solo env hsolo msg
      exact h.passed hpass (passed_flight hpass) id
    | transport msg =>
      simp only [onUdpRecv, acceptsInitiation, Bool.or_false]
      have hpass := handleTransport_solo env hsolo src msg
      exact h.passed hpass (passed_flight hpass) id

end Step

/-! ### Runs -/

section Run

variable {c : Crypto} {key : Side → List Byte}

/-- The peer of a device that has just been configured. -/
def configuredPeer (c : Crypto) (priv remote psk : List Byte) (ep : Option Endpoint) : Peer :=
  let peer := peerNew c (noiseSetStaticKey c (deviceInit c) priv) (wgGeneratePublicKey c remote)
  { peer with endpoint := ep, handshake := { peer.handshake with psk := psk } }

theorem solo_configured {k r : List Byte} (psk : List Byte) (ep : Option Endpoint)
    (hagree : c.Agree k r) :
    Solo c k r psk (configuredDevice c k r psk ep) (configuredPeer c k r psk ep) where
  peers_eq := rfl
  key_eq := rfl
  paired := by
    refine ⟨rfl, rfl, rfl, rfl, rfl, rfl, ?_, hagree⟩
    show (wgDh c k (wgGeneratePublicKey c r)).getD zeroKey = _
    rw [hagree.dh]
    rfl
  staged := rfl
  indexed := by
    refine ⟨fun s e he => ?_, rfl, fun i e he => ?_⟩
    · cases he
    · cases he

theorem netInv_start (hdh : c.DhAgrees) (hkey : ∀ s, (key s).length = 32) (psk : List Byte)
    (ep : Side → Option Endpoint) :
    NetInv c key psk (Net.start c key psk ep)
      (fun s => configuredPeer c (key s) (key s.other) psk (ep s)) where
  solo := fun s => solo_configured psk (ep s) (hdh _ _ (hkey _) (hkey _))
  initiations := fun s msg hm => absurd hm List.not_mem_nil
  responses := fun s msg hm => absurd hm List.not_mem_nil
  exclusive := fun s msg msg' hm => absurd hm List.not_mem_nil
  session := by
    intro h
    cases h

theorem netInv_run (hae : c.AeadRoundTrip) (hdh : c.DhAgrees) (hkey : ∀ s, (key s).length = 32)
    (psk : List Byte) (ep : Side → Option Endpoint) {es : List NetEvent}
    (hes : Machine.Guarded (Net.step c) (fun n e => n.DrawsOk e ∧ n.Awaited c e)
      (Net.start c key psk ep) es) :
    ∃ p, NetInv c key psk (Machine.run (Net.step c) (Net.start c key psk ep) es) p := by
  have hstep : ∀ n e, (∃ p, NetInv c key psk n p) → n.DrawsOk e ∧ n.Awaited c e →
      ∃ p, NetInv c key psk (n.step c e) p := by
    rintro n (⟨s, env⟩ | ⟨i, src, env⟩) ⟨p, h⟩ ⟨hdraws, hawaited⟩
    · exact h.initiate hdh hkey hdraws
    · exact h.deliver hae hdh hkey hawaited
  exact Machine.run_induction (Net.step c) hstep ⟨_, netInv_start hdh hkey psk ep⟩ hes

/-- In a quiescent network the timers are off, so the newest sessions are shared. -/
theorem NetInv.shares {psk : List Byte} {n : Net} {p : Side → Peer} (h : NetInv c key psk n p)
    (hquiet : n.Quiescent) (hacc : n.accepted = true) : n.SharesSession := by
  rcases h.session hacc with ⟨s, hs⟩ | ⟨e, hA, hB⟩
  · have hoff := hquiet.2 s
    rw [(h.solo s).peers_eq] at hoff
    exact absurd (hoff _ (List.mem_singleton_self _)) hs
  · obtain ⟨kpA, hkpA, heA⟩ := exists_of_newest hA
    obtain ⟨kpB, hkpB, heB⟩ := exists_of_newest hB
    refine ⟨p .A, ?_, p .B, ?_, kpA, hkpA, kpB, hkpB, mirrors_of_ends (heA ▸ heB)⟩
    · rw [(h.solo .A).peers_eq]
      exact List.mem_singleton_self _
    · rw [(h.solo .B).peers_eq]
      exact List.mem_singleton_self _

/-- **A quiescent network shares a session.**  Two devices are each other's only peer; they initiate
at any time, and what they send arrives in any order.  If every initiation that is accepted finds
its sender still waiting for the answer, then in every state reached in which an initiation has been
accepted, no handshake message is in flight and no retransmission timer is active, the devices have
keypairs that mirror each other. -/
theorem quiescent_shares_session (hae : c.AeadRoundTrip) (hdh : c.DhAgrees)
    (hkey : ∀ s, (key s).length = 32) (psk : List Byte) (ep : Side → Option Endpoint)
    (es : List NetEvent)
    (hes : Machine.Guarded (Net.step c) (fun n e => n.DrawsOk e ∧ n.Awaited c e)
      (Net.start c key psk ep) es)
    (hquiet : (Machine.run (Net.step c) (Net.start c key psk ep) es).Quiescent)
    (hacc : (Machine.run (Net.step c) (Net.start c key psk ep) es).accepted = true) :
    (Machine.run (Net.step c) (Net.start c key psk ep) es).SharesSession := by
  obtain ⟨p, h⟩ := netInv_run hae hdh hkey psk ep hes
  exact h.shares hquiet hacc

end Run

/-! ### Initiations that cross -/

/-- Ten seconds after the start, with random values that depend on the seed. -/
def crossEnv (seed : Byte) : Env where
  now := 10000
  clockNs := 0
  udpOk := true
  draw := fun n => ⟨Vector.replicate 32 (seed + BitVec.ofNat 8 n),
    fun k => BitVec.ofNat 32 (256 * seed.toNat + k + 7), 0,
    Vector.ofFn fun i => if i.val = 0 then seed else 0⟩

/-- The private keys of the two devices. -/
def crossKey : Side → List Byte
  | .A => List.replicate 32 1
  | .B => List.replicate 32 2

/-- The address of both devices. -/
def crossAddr : Endpoint := .v4 (Vector.replicate 4 1) 51820

/-- The two devices at the start. -/
def crossStart : Net := Net.start toyCrypto crossKey zeroKey fun _ => some crossAddr

/-- One device initiates, and everything arrives: the initiation, the response, the keepalive. -/
def oneInitiation : List NetEvent :=
  [.initiate .A (crossEnv 5), .deliver 0 crossAddr (crossEnv 6), .deliver 0 crossAddr (crossEnv 7),
    .deliver 0 crossAddr (crossEnv 8)]

theorem quiescent_shares_session_one :
    (Machine.run (Net.step toyCrypto) crossStart oneInitiation).SharesSession := by
  refine quiescent_shares_session toyCrypto_aead (fun a b _ _ => toyCrypto_agree a b) ?_ zeroKey
    (fun _ => some crossAddr) oneInitiation ?_ ?_ ?_
  · decide
  · decide +kernel
  · decide +kernel
  · decide +kernel

/-- Both devices initiate, and everything arrives: the two initiations, then the two responses. -/
def crossingInitiations : List NetEvent :=
  [.initiate .A (crossEnv 5), .initiate .B (crossEnv 6), .deliver 0 crossAddr (crossEnv 7),
    .deliver 0 crossAddr (crossEnv 8), .deliver 0 crossAddr (crossEnv 9),
    .deliver 0 crossAddr (crossEnv 10)]

theorem crossing_initiations :
    (Machine.run (Net.step toyCrypto) crossStart crossingInitiations).Quiescent ∧
      (Machine.run (Net.step toyCrypto) crossStart crossingInitiations).accepted = true ∧
      ¬ (Machine.run (Net.step toyCrypto) crossStart crossingInitiations).SharesSession := by
  decide +kernel

end Wgx
