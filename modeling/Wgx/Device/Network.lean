import Wgx.Noise.Indices
import Wgx.Lib.Run

/-!
# Two devices and the datagrams between them

`Net` is two devices that are each other's only peer, with the datagrams in flight.  A step is an
initiation that one of them makes (`device_initiate_handshake`) or the arrival of any one of the
datagrams in flight, in any order; what a device sends goes into flight towards the other.  A call
finds its own time, random draws and clock (`Env`), and may fail to send.

* `Net.start`, `Net.step`: the machine;
* `Net.Quiescent`, `Net.SharesSession`: what a settled handshake should mean;
* `Net.DrawsOk`, `Net.Awaited`: conditions on a step.

No packets are staged, so that the flush loops of the handlers end at once; the timers of a device
do not fire by themselves.
-/

namespace Wgx

/-- The two devices. -/
inductive Side
  | A
  | B
  deriving DecidableEq

instance : Fintype Side := ⟨{.A, .B}, fun s => by cases s <;> decide⟩

/-- The other device. -/
def Side.other : Side → Side
  | .A => .B
  | .B => .A

/-- Two devices and the datagrams in flight, each with the device it goes to. -/
structure Net where
  dev : Side → Device
  flight : List (Side × Datagram)
  /-- The timestamp of the last initiation of each device. -/
  clock : Side → Vector Byte 12
  /-- Whether an initiation was accepted so far. -/
  accepted : Bool

/-- What happens in a network. -/
inductive NetEvent
  /-- A device initiates a handshake. -/
  | initiate (s : Side) (env : Env)
  /-- The datagram at position `i` of those in flight arrives, from the address `src`. -/
  | deliver (i : ℕ) (src : Endpoint) (env : Env)

/-- The outcome of a call at `s`: what it sent is in flight to the other device. -/
def Net.handled (n : Net) (s : Side) (h : Handled) : Net :=
  { n with
    dev := Function.update n.dev s h.dev
    flight := n.flight ++ h.sent.map fun m => (s.other, m.2) }

section Machine

variable (c : Crypto)

/-- Whether `handle_initiation` accepts a datagram: it is an initiation, its MACs are valid, and
`noise_consume_initiation` finds a peer. -/
def acceptsInitiation (env : Env) (dev : Device) (src : Endpoint) : Datagram → Bool
  | .initiation msg =>
    (cookieValidateMacs c dev.cookieChecker src msg.beforeMac1 msg.mac1 msg.mac2
      (env.draw 0).bytes.toList env.now (dev.underLoad env)).2 = .valid ∧
      (noiseConsumeInitiation c env dev msg).isSome
  | _ => false

/-- The network after an event. -/
def Net.step (n : Net) : NetEvent → Net
  | .initiate s env =>
    match (n.dev s).peers with
    | [] => n
    | peer :: _ =>
      let x := deviceInitiateHandshake c env (Ctx.start (n.dev s) peer)
      -- a call that returns early has drawn nothing and read no clock
      { n.handled s x.handled with
        clock := if x.draws = 0 then n.clock
          else Function.update n.clock s (env.draw 0).timestamp }
  | .deliver i src env =>
    match n.flight[i]? with
    | none => n
    | some (s, d) =>
      let arrived := { n with
        flight := n.flight.eraseIdx i
        accepted := n.accepted || acceptsInitiation c env (n.dev s) src d }
      match onUdpRecv c env 0 (n.dev s) src d with
      | none => arrived
      | some h => arrived.handled s h

/-- A device with the private key `priv` and one peer, the holder of the private key `remote`, that
is configured with a preshared key and perhaps an endpoint. -/
def configuredDevice (priv remote psk : List Byte) (ep : Option Endpoint) : Device :=
  let dev := deviceAddPeer c (noiseSetStaticKey c (deviceInit c) priv)
    (wgGeneratePublicKey c remote)
  { dev with peers := dev.peers.map fun p =>
      { p with endpoint := ep, handshake := { p.handshake with psk := psk } } }

/-- Two devices that have just been configured with each other. -/
def Net.start (key : Side → List Byte) (psk : List Byte) (ep : Side → Option Endpoint) : Net where
  dev s := configuredDevice c (key s) (key s.other) psk (ep s)
  flight := []
  clock _ := Vector.replicate 12 0
  accepted := false

end Machine

/-! ### Settled handshakes -/

/-- A message of the handshake. -/
def Datagram.isHandshake : Datagram → Bool
  | .initiation _ | .response _ => true
  | .cookieReply _ | .transport _ => false

/-- No handshake message is in flight, and neither device waits to send one again. -/
def Net.Quiescent (n : Net) : Prop :=
  (∀ m ∈ n.flight, m.2.isHandshake = false) ∧
    ∀ s, ∀ peer ∈ (n.dev s).peers, peer.timers.retransmitHandshake = none

/-- Each device has a keypair in one of its slots that mirrors one of the other's. -/
def Net.SharesSession (n : Net) : Prop :=
  ∃ peerB ∈ (n.dev .A).peers, ∃ peerA ∈ (n.dev .B).peers,
    ∃ kpA ∈ peerB.keypairs, ∃ kpB ∈ peerA.keypairs, Mirrors kpA kpB

instance (n : Net) : Decidable n.Quiescent := inferInstanceAs (Decidable (_ ∧ _))

instance (n : Net) : Decidable n.SharesSession :=
  inferInstanceAs (Decidable (∃ peerB ∈ (n.dev .A).peers, ∃ peerA ∈ (n.dev .B).peers,
    ∃ kpA ∈ peerB.keypairs, ∃ kpB ∈ peerA.keypairs, Mirrors kpA kpB))

/-! ### Conditions on a step -/

/-- A handshake message that names the index `idx` of the device `s`. -/
def names (s : Side) (idx : BitVec 32) : Side × Datagram → Prop
  | (t, .initiation msg) => t = s.other ∧ msg.sender = idx
  | (t, .response msg) => t = s ∧ msg.receiver = idx
  | _ => False

instance (s : Side) (idx : BitVec 32) : DecidablePred (names s idx)
  | (_, .initiation _) => inferInstanceAs (Decidable (_ ∧ _))
  | (_, .response _) => inferInstanceAs (Decidable (_ ∧ _))
  | (_, .cookieReply _) => isFalse id
  | (_, .transport _) => isFalse id

/-- What the clock and the random generator give to a step: the wall clock does not run backwards
between the initiations of a device, and the index drawn for an initiation is none that a handshake
message in flight names. -/
def Net.DrawsOk (n : Net) : NetEvent → Prop
  | .initiate s env =>
    ¬ tai64nAfter (n.clock s).toList (env.draw 0).timestamp.toList ∧
      ∀ peer ∈ (n.dev s).peers, ∀ m ∈ n.flight,
        ¬ names s ((Ctx.start (n.dev s) peer).newIndex env) m
  | .deliver .. => True

/-- An initiation is accepted only while the device that made it still waits: its
`timer_retransmit_handshake` is active. -/
def Net.Awaited (c : Crypto) (n : Net) : NetEvent → Prop
  | .initiate .. => True
  | .deliver i src env =>
    ∀ m ∈ n.flight[i]?, acceptsInitiation c env (n.dev m.1) src m.2 →
      ∀ peer ∈ (n.dev m.1.other).peers, peer.timers.retransmitHandshake ≠ none

instance (n : Net) (e : NetEvent) : Decidable (n.DrawsOk e) :=
  match e with
  | .initiate s env => inferInstanceAs (Decidable (_ ∧ ∀ peer ∈ (n.dev s).peers, ∀ m ∈ n.flight,
      ¬ names s ((Ctx.start (n.dev s) peer).newIndex env) m))
  | .deliver .. => isTrue trivial

instance (c : Crypto) (n : Net) (e : NetEvent) : Decidable (n.Awaited c e) :=
  match e with
  | .initiate .. => isTrue trivial
  | .deliver i src env =>
    inferInstanceAs (Decidable (∀ m ∈ n.flight[i]?, acceptsInitiation c env (n.dev m.1) src m.2 →
      ∀ peer ∈ (n.dev m.1.other).peers, peer.timers.retransmitHandshake ≠ none))

end Wgx
