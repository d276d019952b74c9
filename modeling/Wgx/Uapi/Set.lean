import Wgx.Device.Timers
import Wgx.Lib.Run
import Wgx.Uapi.Text

/-!
# SET requests (`uapi.c`)

`process_set` reads a request line by line and carries four variables from line to line: the peer
that the lines of a block go to, whether that peer is to be removed when the block ends, whether all
peers are to be removed when the next block starts, and the error.

* `UapiKey`: the keys of the lines;
* `SetState`, `setLine`: the loop and its variables;
* `processSet`: the whole request.

The peer is a pointer, here an address.  A peer that is removed is unlinked at once, and its memory
is freed when the loop has closed its timers, after the call: until then the pointer can still be
used (`SetState.gone`).  Closing its timers a second time makes libuv abort (`SetState.aborted`).
-/

namespace Wgx

/-! ### Lines -/

/-- The keys of a SET request. -/
inductive UapiKey
  | privateKey
  | listenPort
  | fwmark
  | replacePeers
  | publicKey
  | remove
  | presharedKey
  | endpoint
  | persistentKeepaliveInterval
  | replaceAllowedIps
  | allowedIp
  deriving DecidableEq

/-- The text of a key. -/
def UapiKey.text : UapiKey → List Byte
  | .privateKey => ascii "private_key"
  | .listenPort => ascii "listen_port"
  | .fwmark => ascii "fwmark"
  | .replacePeers => ascii "replace_peers"
  | .publicKey => ascii "public_key"
  | .remove => ascii "remove"
  | .presharedKey => ascii "preshared_key"
  | .endpoint => ascii "endpoint"
  | .persistentKeepaliveInterval => ascii "persistent_keepalive_interval"
  | .replaceAllowedIps => ascii "replace_allowed_ips"
  | .allowedIp => ascii "allowed_ip"

/-- All keys, in the order of the comparisons. -/
def UapiKey.all : List UapiKey :=
  [.privateKey, .listenPort, .fwmark, .replacePeers, .publicKey, .remove, .presharedKey, .endpoint,
    .persistentKeepaliveInterval, .replaceAllowedIps, .allowedIp]

/-- The key with a text. -/
def UapiKey.ofText (key : List Byte) : Option UapiKey := UapiKey.all.find? fun k => k.text = key

/-- The keys of the lines that configure one peer. -/
def UapiKey.perPeer : UapiKey → Bool
  | .remove | .presharedKey | .endpoint | .persistentKeepaliveInterval | .replaceAllowedIps
  | .allowedIp => true
  | _ => false

/-- `strchr`: the position of the first occurrence. -/
def strchr (s : List Byte) (ch : Byte) : Option ℕ := s.findIdx? (· = ch)

/-- `strrchr`: the position of the last occurrence. -/
def strrchr (s : List Byte) (ch : Byte) : Option ℕ :=
  (s.reverse.findIdx? (· = ch)).map fun i => s.length - 1 - i

/-- The size of the buffer for one line. -/
def lineSize : ℕ := 256

/-- `INET_ADDRSTRLEN`. -/
def inetAddrstrlen : ℕ := 16

/-- `INET6_ADDRSTRLEN`. -/
def inet6Addrstrlen : ℕ := 46

/-- The endpoint in the value at the start of `buf`.  The port is read behind the closing bracket and
the colon, even if the value ends before. -/
def parseEndpoint (buf : List Byte) : Option Endpoint :=
  let val := cstr buf
  let portAt := fun k => (atoi (cstr (buf.drop k))).setWidth 16
  if val.head? = some (chr '[') then
    (strchr val (chr ']')).bind fun bracket =>
      if inet6Addrstrlen ≤ bracket - 1 then none
      else (inetPton6 ((val.drop 1).take (bracket - 1))).map fun addr =>
        .v6 addr (portAt (bracket + 2))
  else
    (strrchr val (chr ':')).bind fun colon =>
      if inetAddrstrlen ≤ colon then none
      else (inetPton4 (val.take colon)).map fun addr => .v4 addr (portAt (colon + 1))

/-! ### The loop -/

/-- The variables of `process_set`. -/
structure SetState where
  dev : Device
  currentPeer : Option ℕ
  /-- The peers that the call has unlinked, whose memory is still there. -/
  gone : List Peer
  replacePeers : Bool
  removePeer : Bool
  /-- The result is `EINVAL`. -/
  err : Bool
  /-- libuv has aborted the program. -/
  aborted : Bool
  /-- The buffer for the line, with what earlier lines left in it. -/
  line : List Byte

/-- `err = EINVAL`. -/
def SetState.fail (st : SetState) : SetState := { st with err := true }

/-- The record that a pointer points to. -/
def SetState.record (st : SetState) (addr : ℕ) : Option Peer :=
  (st.dev.peerAt addr).or (st.gone.find? fun p => p.addr = addr)

/-- `device_remove_peer(dev, current_peer)`, if there is a current peer. -/
def SetState.removeCurrent (st : SetState) : SetState :=
  match st.currentPeer with
  | none => st
  | some addr =>
    match st.dev.peerAt addr with
    | some peer => { st with dev := deviceRemovePeer st.dev peer, gone := peer :: st.gone }
    | none => { st with aborted := true }

/-- `device_remove_all_peers`. -/
def SetState.removeAll (st : SetState) : SetState :=
  { st with dev := deviceRemoveAllPeers st.dev, gone := st.dev.peers ++ st.gone }

/-- What a `public_key` line does before it looks at its value. -/
def SetState.endBlock (st : SetState) : SetState :=
  let st := if st.replacePeers then { st.removeAll with replacePeers := false } else st
  let st := if st.removePeer then st.removeCurrent else st
  { st with removePeer := false }

section Lines

variable (c : Crypto) (env : Env)

/-- A `public_key` line. -/
def setPublicKey (st : SetState) (val : List Byte) : SetState :=
  let st := st.endBlock
  if st.aborted then st
  else match hexDecode val 32 with
    | none => st.fail
    | some pk =>
      match deviceFindPeer st.dev pk with
      | some peer => { st with currentPeer := some peer.addr }
      | none =>
        { st with dev := deviceAddPeer c st.dev pk, currentPeer := some st.dev.nextAddr }

/-- An `allowed_ip` line. -/
def setAllowedIp (st : SetState) (peer : Peer) (val : List Byte) : SetState :=
  match strchr val (chr '/') with
  | none => st.fail
  | some slash =>
    if inet6Addrstrlen ≤ slash then st.fail
    else
      let cidr := ((atoi (val.drop (slash + 1))).setWidth 8).toNat
      match inetPton4 (val.take slash) with
      | some addr => { st with dev := applyAllowedIpV4 st.dev peer addr cidr }
      | none =>
        match inetPton6 (val.take slash) with
        | some addr => { st with dev := applyAllowedIpV6 st.dev peer addr cidr }
        | none => st.fail

/-- A line for the current peer; `buf` is the buffer from the value on. -/
def setPeerLine (st : SetState) (peer : Peer) (key : UapiKey) (val buf : List Byte) : SetState :=
  match key with
  | .remove => if val = ascii "true" then { st with removePeer := true } else st
  | .presharedKey =>
    match hexDecode val 32 with
    | some psk =>
      { st with
        dev := st.dev.store { peer with handshake := { peer.handshake with psk := psk } } }
    | none => st.fail
  | .endpoint =>
    match parseEndpoint buf with
    | some ep => { st with dev := st.dev.store { peer with endpoint := some ep } }
    | none => st.fail
  | .persistentKeepaliveInterval =>
    { st with dev := st.dev.store (timersPersistentKeepaliveSet env
        { peer with persistentKeepaliveMs := atoi val * 1000 }) }
  | .replaceAllowedIps =>
    if val = ascii "true" then { st with dev := replaceAllowedIps st.dev peer } else st
  | .allowedIp => setAllowedIp st peer val
  | _ => st

/-- A line for the device, or for the peer that it is about. -/
def setKeyLine (st : SetState) (key : UapiKey) (val buf : List Byte) : SetState :=
  match key with
  | .privateKey =>
    match hexDecode val 32 with
    | some priv => { st with dev := noiseSetStaticKey c st.dev (wgClampPrivateKey priv) }
    | none => st.fail
  | .listenPort =>
    let port := (atoi val).toInt
    if port < 0 ∨ 65535 < port then st.fail
    else if 0 < port then { st with dev := { st.dev with listenPort := BitVec.ofInt 16 port } }
    else st
  | .fwmark => { st with dev := { st.dev with fwmark := (strtoul val).setWidth 32 } }
  | .replacePeers => if val = ascii "true" then { st with replacePeers := true } else st
  | .publicKey => setPublicKey c st val
  | key =>
    match st.currentPeer.bind st.record with
    | none => st
    | some peer => setPeerLine env st peer key val buf

/-- One round of the loop, on a line that is not empty. -/
def setLine (st : SetState) (line : List Byte) : SetState :=
  if st.aborted then st
  else if lineSize ≤ line.length then st
  else
    let buf := line ++ 0#8 :: st.line.drop (line.length + 1)
    match strchr line (chr '=') with
    | none => { st with line := buf }
    | some eq =>
      let buf := buf.set eq 0#8
      let st := { st with line := buf }
      match UapiKey.ofText (line.take eq) with
      | none => st
      | some key => setKeyLine c env st key (line.drop (eq + 1)) (buf.drop (eq + 1))

/-- The variables before the first line, with what the stack holds in the place of the buffer. -/
def SetState.start (dev : Device) (stack : List Byte) : SetState :=
  ⟨dev, none, [], false, false, false, false, stack⟩

/-- The lines that the loop looks at: up to the first empty one. -/
def setLines (data : List Byte) : List (List Byte) :=
  (splitLines (cstr data)).takeWhile (· ≠ [])

/-- The variables after some lines. -/
def setRun (dev : Device) (stack : List Byte) (lines : List (List Byte)) : SetState :=
  Machine.run (setLine c env) (.start dev stack) lines

/-- The end of `process_set`. -/
def SetState.finish (st : SetState) : SetState :=
  if st.aborted then st else if st.removePeer then st.removeCurrent else st

/-- `process_set`. -/
def processSet (dev : Device) (stack data : List Byte) : SetState :=
  (setRun c env dev stack (setLines data)).finish

end Lines

end Wgx
