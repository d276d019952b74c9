import Wgx.Device.Transport

/-!
# The timer callbacks (`timers.c`)

libuv stops a timer that is due and then runs its callback, so a callback finds its own timer
inactive and may start it again (`fireTimer`).
-/

namespace Wgx

/-- `MAX_TIMER_HANDSHAKES`. -/
def maxTimerHandshakes : BitVec 32 := 18

/-- The timers of a peer. -/
inductive TimerKind
  | retransmitHandshake
  | sendKeepalive
  | newHandshake
  | zeroKeyMaterial
  | persistentKeepalive
  deriving DecidableEq

/-- When a timer is due, if it is active. -/
def Timers.due (timers : Timers) : TimerKind → Option ℕ
  | .retransmitHandshake => timers.retransmitHandshake
  | .sendKeepalive => timers.sendKeepalive
  | .newHandshake => timers.newHandshake
  | .zeroKeyMaterial => timers.zeroKeyMaterial
  | .persistentKeepalive => timers.persistentKeepalive

/-- `uv_timer_start` and `uv_timer_stop` on one of the timers. -/
def Timers.set (timers : Timers) (kind : TimerKind) (due : Option ℕ) : Timers :=
  match kind with
  | .retransmitHandshake => { timers with retransmitHandshake := due }
  | .sendKeepalive => { timers with sendKeepalive := due }
  | .newHandshake => { timers with newHandshake := due }
  | .zeroKeyMaterial => { timers with zeroKeyMaterial := due }
  | .persistentKeepalive => { timers with persistentKeepalive := due }

/-- Start or stop a timer of the peer. -/
def Ctx.setTimer (x : Ctx) (kind : TimerKind) (due : Option ℕ) : Ctx :=
  { x with peer := { x.peer with timers := x.peer.timers.set kind due } }

section Callbacks

variable (c : Crypto) (env : Env)

/-- `timers_zero_key_material`. -/
def timersZeroKeyMaterial (x : Ctx) : Ctx :=
  if !x.peer.timers.active then x else x.setTimer .zeroKeyMaterial (uvTimerStart env 0)

/-- `timers_persistent_keepalive_set`. -/
def timersPersistentKeepaliveSet (peer : Peer) : Peer :=
  if !peer.timers.active then peer
  else { peer with
    timers := peer.timers.set .persistentKeepalive
      (if peer.persistentKeepaliveMs ≠ 0 then uvTimerStart env peer.persistentKeepaliveMs.toNat
        else none) }

/-- `cb_retransmit_handshake`. -/
def cbRetransmitHandshake (x : Ctx) : Ctx :=
  let attempts := x.peer.handshakeAttempts
  let x := { x with peer := { x.peer with handshakeAttempts := attempts + 1 } }
  if maxTimerHandshakes ≤ attempts then
    let x := x.setTimer .retransmitHandshake none
    timersZeroKeyMaterial env { x with peer := { x.peer with handshakeAttempts := 0 } }
  else
    let x := (deviceInitiateHandshakeInner c env x true).1
    let (d, x) := x.draw env
    let jitter := d.jitter.toNat % rekeyTimeoutJitterMaxMs
    x.setTimer .retransmitHandshake (uvTimerStart env (rekeyTimeoutMs + jitter))

/-- `cb_send_keepalive`. -/
def cbSendKeepalive (x : Ctx) : Ctx :=
  let x := deviceSendKeepalive c env x
  if x.peer.needAnotherKeepalive then
    { x with peer := { x.peer with needAnotherKeepalive := false } }.setTimer .sendKeepalive
      (uvTimerStart env keepaliveTimeoutMs)
  else x

/-- `cb_new_handshake`. -/
def cbNewHandshake (x : Ctx) : Ctx := deviceInitiateHandshake c env x

/-- `cb_zero_key_material`. -/
def cbZeroKeyMaterial (x : Ctx) : Ctx :=
  let dev := keypairFree x.dev x.peer.currentKeypair
  let dev := keypairFree dev x.peer.nextKeypair
  let dev := keypairFree dev x.peer.prevKeypair
  let hs := x.peer.handshake
  let dev := { dev with indexTable := indexTableDelete dev.indexTable hs.localIndex }
  { x with
    dev := dev
    peer := { x.peer with
      currentKeypair := none, nextKeypair := none, prevKeypair := none
      handshake := noiseHandshakeClear hs } }

/-- `cb_persistent_keepalive`. -/
def cbPersistentKeepalive (x : Ctx) : Ctx :=
  let x := deviceSendKeepalive c env x
  let interval := x.peer.persistentKeepaliveMs
  if interval ≠ 0 then x.setTimer .persistentKeepalive (uvTimerStart env interval.toNat) else x

/-- The callback of a timer. -/
def timerCallback (x : Ctx) : TimerKind → Ctx
  | .retransmitHandshake => cbRetransmitHandshake c env x
  | .sendKeepalive => cbSendKeepalive c env x
  | .newHandshake => cbNewHandshake c env x
  | .zeroKeyMaterial => cbZeroKeyMaterial x
  | .persistentKeepalive => cbPersistentKeepalive c env x

/-- A timer that is due is stopped and its callback runs. -/
def fireTimer (x : Ctx) (kind : TimerKind) : Ctx :=
  timerCallback c env (x.setTimer kind none) kind

end Callbacks

end Wgx
