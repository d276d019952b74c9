import Wgx.Uapi.Blocks

/-!
# The life of a device

A device lives from `device_init` on: datagrams, packets and timers reach it as in `DeviceEvent`,
and SET requests change its configuration in between (`LifeEvent`).  What an event is to the peer
it is about is the *turn* of that peer (`PeerTurn`), and the turns of one peer, with the record that
each of them found, are its `history`.

* `LifeEvent`, `lifeStep`, `lifeRun`: the life of a device;
* `acceptedInitiation`, `acceptedResponse`, `acceptedTransport`: the datagrams that are accepted;
* `turnOf`, `peerStepOf`, `history`: the turns of a peer.
-/

namespace Wgx

/-! ### Events -/

/-- What can happen to a device, SET requests included.  A request comes with what the stack holds
in the place of the line buffer. -/
inductive LifeEvent
  | device (e : DeviceEvent)
  | set (env : Env) (stack data : List Byte)

/-- What the loop and the clock show while the event is handled, where the code looks at them. -/
def LifeEvent.env : LifeEvent → Option Env
  | .device (.recv env _ _ _) => some env
  | .device (.send env _ _) => some env
  | .device (.initiate env _ _) => some env
  | .device (.timer env _ _) => some env
  | .set env _ _ => some env
  | _ => none

/-- The values of `uv_now` during a run, in order. -/
def clockReadings (es : List LifeEvent) : List ℕ :=
  es.filterMap fun e => e.env.map fun env => env.now.toNat

/-- `uv_now` does not go back. -/
def Steady (es : List LifeEvent) : Prop := (clockReadings es).Pairwise (· ≤ ·)

instance (es : List LifeEvent) : Decidable (Steady es) :=
  inferInstanceAs (Decidable (List.Pairwise _ _))

section Life

variable (c : Crypto)

/-- One step in the life of a device.  After a request that makes libuv abort there is no device any
more; the device it leaves is taken to go on, so that nothing is lost by letting a run continue. -/
def lifeStep (dev : Device) : LifeEvent → Handled
  | .device e => deviceStep c dev e
  | .set env stack data => .drop (processSet c env dev stack data).dev

/-- The device after the events `es`. -/
def lifeRun (dev : Device) (es : List LifeEvent) : Device :=
  Machine.run (fun d e => (lifeStep c d e).dev) dev es

/-! ### Accepted datagrams -/

/-- The peer whose initiation is accepted, with its handshake updated: the MACs are valid and
`noise_consume_initiation` finds no fault. -/
def acceptedInitiation (env : Env) (dev : Device) (src : Endpoint) (msg : MsgInitiation) :
    Option Peer :=
  let macRet := (cookieValidateMacs c dev.cookieChecker src msg.beforeMac1 msg.mac1 msg.mac2
    (env.draw 0).bytes.toList env.now (dev.underLoad env)).2
  if macRet = .valid then noiseConsumeInitiation c env dev msg else none

/-- The peer whose response is accepted, with its handshake updated. -/
def acceptedResponse (env : Env) (dev : Device) (src : Endpoint) (msg : MsgResponse) :
    Option Peer :=
  let macRet := (cookieValidateMacs c dev.cookieChecker src msg.beforeMac1 msg.mac1 msg.mac2
    (env.draw 0).bytes.toList env.now (dev.underLoad env)).2
  if macRet = .invalid then none else noiseConsumeResponse c dev msg

/-- The peer, the keypair and the plaintext of a transport message that is accepted: its counter is
new to the keypair and its content opens. -/
def acceptedTransport (dev : Device) (msg : MsgTransport) : Option (Peer × Keypair × List Byte) :=
  if msg.content.length < 16 then none
  else (transportTarget dev msg.receiver).bind fun t =>
    if Replay.replayCheck t.2.replay msg.counter rejectAfterMessages then
      (c.aeadDecrypt t.2.recvKey (transportNonce msg.counter) msg.content []).bind fun p =>
        if (Replay.replayCommit t.2.replay msg.counter rejectAfterMessages).1 then
          some (t.1, t.2, p)
        else none
    else none

/-! ### Turns -/

/-- What an event is to the peer that it is about. -/
inductive PeerTurn
  /-- A packet is handed to `device_send_to_peer`. -/
  | sent (pkt : List Byte)
  /-- `device_initiate_handshake` or `device_initiate_handshake_force` is called. -/
  | initiated (force : Bool)
  /-- A timer is due and its callback runs. -/
  | fired (kind : TimerKind)
  /-- An initiation of the peer is accepted. -/
  | accepted (timestamp : List Byte) (msg : MsgInitiation)
  /-- A response of the peer is accepted. -/
  | completed
  /-- A transport message is accepted under a keypair. -/
  | received (kp : Keypair) (plaintext : List Byte)

/-- The peer that a datagram is about, and what it is to it. -/
def recvTurn (env : Env) (dev : Device) (src : Endpoint) : Datagram → Option (ℕ × PeerTurn)
  | .initiation msg => (acceptedInitiation c env dev src msg).map fun p =>
      (p.addr, .accepted p.handshake.lastTimestamp msg)
  | .response msg => (acceptedResponse c env dev src msg).map fun p => (p.addr, .completed)
  | .cookieReply _ => none
  | .transport msg => (acceptedTransport c dev msg).map fun t =>
      (t.1.addr, .received t.2.1 t.2.2)

/-- The peer that an event is about, and what the event is to it.  Cookie replies and the changes of
the configuration are no turn of a peer. -/
def turnOf (dev : Device) : LifeEvent → Option (Env × ℕ × PeerTurn)
  | .device (.recv env fuel src d) =>
    if (onUdpRecv c env fuel dev src d).isSome then
      (recvTurn c env dev src d).map fun t => (env, t)
    else none
  | .device (.send env addr pkt) => some (env, addr, .sent pkt)
  | .device (.initiate env addr force) => some (env, addr, .initiated force)
  | .device (.timer env addr kind) => (dev.peerAt addr).bind fun p =>
      if (Ctx.start dev p).timerDue env kind then some (env, addr, .fired kind) else none
  | _ => none

/-- A turn of a peer, with the record that it found and what the device sent. -/
structure PeerStep where
  env : Env
  before : Peer
  turn : PeerTurn
  sent : List (Endpoint × Datagram)

/-- The turn that an event is, if it is one. -/
def peerStepOf (dev : Device) (e : LifeEvent) : Option PeerStep :=
  (turnOf c dev e).bind fun t =>
    (dev.peerAt t.2.1).map fun p => ⟨t.1, p, t.2.2, (lifeStep c dev e).sent⟩

/-- The turns of the peer at `addr` during a run, oldest first. -/
def history (addr : ℕ) : Device → List LifeEvent → List PeerStep
  | _, [] => []
  | dev, e :: es =>
    ((peerStepOf c dev e).filter fun s => s.before.addr = addr).toList ++
      history addr (lifeStep c dev e).dev es

end Life

/-! ### Small facts -/

section Facts

variable {c : Crypto} {dev : Device}

theorem lifeRun_snoc (dev : Device) (es : List LifeEvent) (e : LifeEvent) :
    lifeRun c dev (es ++ [e]) = (lifeStep c (lifeRun c dev es) e).dev := Machine.run_snoc _ _ _ _

theorem history_append (addr : ℕ) (dev : Device) (es es' : List LifeEvent) :
    history c addr dev (es ++ es') =
      history c addr dev es ++ history c addr (lifeRun c dev es) es' := by
  induction es generalizing dev with
  | nil => rfl
  | cons e es ih =>
    rw [List.cons_append, history, history, ih, List.append_assoc]
    rfl

theorem history_snoc (addr : ℕ) (dev : Device) (es : List LifeEvent) (e : LifeEvent) :
    history c addr dev (es ++ [e]) = history c addr dev es ++
      ((peerStepOf c (lifeRun c dev es) e).filter fun s => s.before.addr = addr).toList := by
  rw [history_append, history, history, List.append_nil]

/-- A turn is taken at the time of its event. -/
theorem env_of_peerStepOf {e : LifeEvent} {s : PeerStep} (h : peerStepOf c dev e = some s) :
    e.env = some s.env := by
  obtain ⟨t, ht, h⟩ := Option.bind_eq_some_iff.1 h
  obtain ⟨p, -, rfl⟩ := Option.map_eq_some_iff.1 h
  rcases e with e | ⟨env, stack, data⟩
  · cases e with
    | recv env fuel src d =>
      simp only [turnOf] at ht
      split_ifs at ht
      obtain ⟨t', -, rfl⟩ := Option.map_eq_some_iff.1 ht
      rfl
    | timer env addr kind =>
      obtain ⟨q, -, ht⟩ := Option.bind_eq_some_iff.1 ht
      split_ifs at ht
      cases ht
      rfl
    | send env addr pkt =>
      cases ht
      rfl
    | initiate env addr force =>
      cases ht
      rfl
    | _ => cases ht
  · cases ht

/-- Every turn in a history is one of the events of the run. -/
theorem mem_history {addr : ℕ} {es : List LifeEvent} {s : PeerStep}
    (h : s ∈ history c addr dev es) :
    s.before.addr = addr ∧ ∃ pre e post, es = pre ++ e :: post ∧
      peerStepOf c (lifeRun c dev pre) e = some s := by
  induction es generalizing dev with
  | nil => cases h
  | cons e es ih =>
    rcases List.mem_append.1 h with h | h
    · obtain ⟨hs, haddr⟩ := Option.filter_eq_some_iff.1 (Option.mem_toList.1 h)
      exact ⟨by simpa using haddr, [], e, es, rfl, hs⟩
    · obtain ⟨haddr, pre, e', post, rfl, hs⟩ := ih h
      exact ⟨haddr, e :: pre, e', post, rfl, hs⟩

/-- The times of the turns of a peer are readings of the clock, in order. -/
theorem times_history_sublist (addr : ℕ) (dev : Device) (es : List LifeEvent) :
    ((history c addr dev es).map fun s => s.env.now.toNat).Sublist (clockReadings es) := by
  induction es generalizing dev with
  | nil => exact List.Sublist.refl _
  | cons e es ih =>
    have hhead : (((peerStepOf c dev e).filter fun s => s.before.addr = addr).toList.map
        fun s => s.env.now.toNat).Sublist (e.env.map fun env => env.now.toNat).toList := by
      cases hs : (peerStepOf c dev e).filter fun s => s.before.addr = addr with
      | none => exact List.nil_sublist _
      | some s =>
        rw [env_of_peerStepOf (Option.filter_eq_some_iff.1 hs).1]
        exact List.Sublist.refl _
    have hsplit : clockReadings (e :: es) =
        (e.env.map fun env => env.now.toNat).toList ++ clockReadings es := by
      simp only [clockReadings, List.filterMap_cons]
      cases e.env <;> rfl
    rw [history, List.map_append, hsplit]
    exact hhead.append (ih _)

end Facts

end Wgx
