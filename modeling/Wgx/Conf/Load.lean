import Wgx.Conf.Base64
import Wgx.Uapi.Set

/-!
# The configuration file (`conf.c`)

`load_wg_config` reads a file with `fgets` in pieces of at most 511 bytes and takes each piece for a
line.  It carries four variables from piece to piece: the section, the peer that the lines of a
`[Peer]` section go to, whether a private key was loaded, and the device.

* `fgetsPieces`, `trim`, `strtok`: the text functions;
* `confLine`: what a piece says;
* `confPrefix`, `applyAllowedIp`, `applyEndpoint`: the values that are more than a number;
* `ConfState`, `confStep`: the loop and its variables, `loadWgConfig` the whole function.

The resolver and the allocator are the environment.
-/

namespace Wgx

/-! ### Text -/

/-- The size of the buffer `line` without its terminator. -/
def pieceSize : ℕ := 511

/-- The newline. -/
def newline : Byte := chr '\n'

/-- The pieces in which `fgets` reads a text, where `cur` was read of the first one and there is
room for `room` more bytes: each ends behind a newline, or when the buffer is full. -/
def fgetsFrom (cur : List Byte) (room : ℕ) : List Byte → List (List Byte)
  | [] => if cur = [] then [] else [cur]
  | ch :: rest =>
    if ch = newline ∨ room ≤ 1 then (cur ++ [ch]) :: fgetsFrom [] pieceSize rest
    else fgetsFrom (cur ++ [ch]) (room - 1) rest

/-- The pieces in which `fgets` reads a text. -/
def fgetsPieces (text : List Byte) : List (List Byte) := fgetsFrom [] pieceSize text

/-- `trim`. -/
def trim (s : List Byte) : List Byte := (s.dropWhile isSpace).rdropWhile isSpace

/-- `tolower`. -/
def toLower (ch : Byte) : Byte := if 65 ≤ ch.toNat ∧ ch.toNat ≤ 90 then ch + 32 else ch

/-- `strcasecmp(s, t) == 0`. -/
def strcaseEq (s t : List Byte) : Prop := s.map toLower = t.map toLower

instance (s t : List Byte) : Decidable (strcaseEq s t) :=
  inferInstanceAs (Decidable (s.map toLower = t.map toLower))

/-- A separator of the list of an `AllowedIPs` line. -/
def isListSep (ch : Byte) : Bool := ch = chr ',' ∨ ch = chr ' '

/-- The tokens that `strtok` finds in a text, where `cur` was read of the first one. -/
def strtokFrom (cur : List Byte) : List Byte → List (List Byte)
  | [] => if cur = [] then [] else [cur]
  | ch :: rest =>
    if isListSep ch then
      if cur = [] then strtokFrom [] rest else cur :: strtokFrom [] rest
    else strtokFrom (cur ++ [ch]) rest

/-- The tokens that `strtok` finds in a text. -/
def strtok (text : List Byte) : List (List Byte) := strtokFrom [] text

/-! ### Lines -/

/-- `section_t`. -/
inductive ConfSection
  | none | interface | peer
  deriving DecidableEq

/-- The keys of a configuration file. -/
inductive ConfKey
  | privateKey
  | listenPort
  | publicKey
  | presharedKey
  | endpoint
  | allowedIps
  | persistentKeepalive
  | persistentKeepaliveInterval
  deriving DecidableEq

/-- The text of a key. -/
def ConfKey.text : ConfKey → List Byte
  | .privateKey => ascii "PrivateKey"
  | .listenPort => ascii "ListenPort"
  | .publicKey => ascii "PublicKey"
  | .presharedKey => ascii "PresharedKey"
  | .endpoint => ascii "Endpoint"
  | .allowedIps => ascii "AllowedIPs"
  | .persistentKeepalive => ascii "PersistentKeepalive"
  | .persistentKeepaliveInterval => ascii "PersistentKeepaliveInterval"

/-- All keys. -/
def ConfKey.all : List ConfKey :=
  [.privateKey, .listenPort, .publicKey, .presharedKey, .endpoint, .allowedIps,
    .persistentKeepalive, .persistentKeepaliveInterval]

/-- The key with a text, upper and lower case alike. -/
def ConfKey.ofText (key : List Byte) : Option ConfKey :=
  ConfKey.all.find? fun k => strcaseEq k.text key

/-- What a piece says: nothing that counts, the start of a section, or the value of a key. -/
inductive ConfLine
  | skip
  | header (sec : ConfSection)
  | entry (key : Option ConfKey) (val : List Byte)
  deriving DecidableEq

/-- The section with a name. -/
def ConfSection.ofText (sec : List Byte) : ConfSection :=
  if strcaseEq sec (ascii "interface") then .interface
  else if strcaseEq sec (ascii "peer") then .peer
  else .none

/-- What a piece says. -/
def confLine (piece : List Byte) : ConfLine :=
  let s := trim (cstr piece)
  if s = [] ∨ s.head? = some (chr '#') then .skip
  else if s.head? = some (chr '[') then
    match strchr s (chr ']') with
    | none => .skip
    | some stop => .header (ConfSection.ofText (trim ((s.take stop).drop 1)))
  else
    match strchr s (chr '=') with
    | none => .skip
    | some eq => .entry (ConfKey.ofText (trim (s.take eq))) (trim (s.drop (eq + 1)))

/-! ### Values -/

/-- A prefix of addresses. -/
inductive Prefix
  | v4 (addr : InAddr) (cidr : ℕ)
  | v6 (addr : In6Addr) (cidr : ℕ)
  deriving DecidableEq

/-- The room in `buf` of `apply_allowed_ip`. -/
def entrySize : ℕ := 63

/-- The prefix that `apply_allowed_ip` reads in an entry. -/
def confPrefix (entry : List Byte) : Option Prefix :=
  let buf := entry.take entrySize
  let slash := strchr buf (chr '/')
  let host := match slash with | some i => buf.take i | none => buf
  let cidr := fun whole => match slash with
    | some i => ((atoi (buf.drop (i + 1))).setWidth 8).toNat
    | none => whole
  match inetPton4 host with
  | some addr => some (.v4 addr (cidr 32))
  | none => (inetPton6 host).map fun addr => .v6 addr (cidr 128)

/-- Whether the tables take a prefix. -/
def Prefix.fits : Prefix → Bool
  | .v4 _ cidr => cidr ≤ 32
  | .v6 _ cidr => cidr ≤ 128

/-- The two insertions of a prefix for a peer. -/
def Device.insertPrefix (dev : Device) (peer : Peer) : Prefix → Device
  | .v4 addr cidr => applyAllowedIpV4 dev peer addr cidr
  | .v6 addr cidr => applyAllowedIpV6 dev peer addr cidr

/-- The environment: what `getaddrinfo` finds first for a host and a port, and whether
`device_add_peer` has memory for a peer. -/
structure ConfEnv where
  getaddrinfo : List Byte → List Byte → Option Endpoint
  addPeer : ℕ → Bool

/-- The size of `host` in `apply_endpoint`. -/
def hostSize : ℕ := 256

/-- The room in `port_str` of `apply_endpoint`. -/
def portSize : ℕ := 15

/-- The endpoint that `apply_endpoint` finds. -/
def confEndpoint (cenv : ConfEnv) (val : List Byte) : Option Endpoint :=
  (strrchr val (chr ':')).bind fun colon =>
    let port := (val.drop (colon + 1)).take portSize
    let host := val.take colon
    if colon = 0 ∨ hostSize ≤ colon then none
    else
      let host :=
        if host.head? = some (chr '[') ∧ host.getLast? = some (chr ']') then
          (host.drop 1).dropLast
        else host
      cenv.getaddrinfo host port

/-! ### The loop -/

/-- The variables of `load_wg_config`, and the prefixes that were inserted so far with the peers for
which they were.  `stopped` says that the loop was left by `goto done`. -/
structure ConfState where
  dev : Device
  sec : ConfSection
  currentPeer : Option ℕ
  ok : Bool
  stopped : Bool
  inserts : List (ℕ × Prefix)

/-- `goto done`. -/
def ConfState.stop (st : ConfState) : ConfState := { st with stopped := true }

/-- The record of the current peer is written. -/
def ConfState.updatePeer (st : ConfState) (addr : ℕ) (f : Peer → Peer) : ConfState :=
  match st.dev.peerAt addr with
  | some peer => { st with dev := st.dev.store (f peer) }
  | none => st

/-- `apply_allowed_ip`. -/
def applyAllowedIp (addr : ℕ) (st : ConfState) (entry : List Byte) : ConfState :=
  match confPrefix entry, st.dev.peerAt addr with
  | some p, some peer =>
    { st with
      dev := st.dev.insertPrefix peer p
      inserts := if p.fits then st.inserts ++ [(addr, p)] else st.inserts }
  | _, _ => st

section Loop

variable (c : Crypto) (cenv : ConfEnv)

/-- A line of an `[Interface]` section. -/
def confInterface (st : ConfState) (key : ConfKey) (val : List Byte) : ConfState :=
  match key with
  | .privateKey =>
    match (base64Decode val 32).filter fun priv => priv.length = 32 with
    | none => st.stop
    | some priv => { st with dev := noiseSetStaticKey c st.dev priv, ok := true }
  | .listenPort => { st with dev := { st.dev with listenPort := (atoi val).setWidth 16 } }
  | _ => st

/-- A `PublicKey` line. -/
def confPublicKey (st : ConfState) (val : List Byte) : ConfState :=
  match (base64Decode val 32).filter fun pk => pk.length = 32 with
  | none => st.stop
  | some pk =>
    match deviceFindPeer st.dev pk with
    | some peer => { st with currentPeer := some peer.addr }
    | none =>
      if cenv.addPeer st.dev.nextAddr then
        { st with dev := deviceAddPeer c st.dev pk, currentPeer := some st.dev.nextAddr }
      else { st.stop with currentPeer := none }

/-- A `PersistentKeepalive` line. -/
def confKeepalive (st : ConfState) (addr : ℕ) (val : List Byte) : ConfState :=
  let secs := atoi val
  if 0 < secs.toInt then
    st.updatePeer addr fun peer => { peer with persistentKeepaliveMs := secs * 1000 }
  else st

/-- A line of a `[Peer]` section. -/
def confPeer (st : ConfState) (key : ConfKey) (val : List Byte) : ConfState :=
  match key, st.currentPeer with
  | .publicKey, _ => confPublicKey c cenv st val
  | .presharedKey, none => st.stop
  | .presharedKey, some addr =>
    match (base64Decode val 32).filter fun psk => psk.length = 32 with
    | none => st.stop
    | some psk =>
      st.updatePeer addr fun peer => { peer with handshake := { peer.handshake with psk := psk } }
  | .endpoint, some addr =>
    match confEndpoint cenv val with
    | some ep => st.updatePeer addr fun peer => { peer with endpoint := some ep }
    | none => st
  | .allowedIps, some addr => ((strtok val).map trim).foldl (applyAllowedIp addr) st
  | .persistentKeepalive, some addr | .persistentKeepaliveInterval, some addr =>
    confKeepalive st addr val
  | _, _ => st

/-- What a line does. -/
def confApply (st : ConfState) (line : ConfLine) : ConfState :=
  match line with
  | .skip | .entry none _ => st
  | .header sec =>
    { st with sec := sec, currentPeer := if sec = .none then st.currentPeer else none }
  | .entry (some key) val =>
    match st.sec with
    | .none => st
    | .interface => confInterface c st key val
    | .peer => confPeer c cenv st key val

/-- One round of the loop. -/
def confStep (st : ConfState) (piece : List Byte) : ConfState :=
  if st.stopped then st else confApply c cenv st (confLine piece)

/-- The variables before the first line. -/
def ConfState.start (dev : Device) : ConfState := ⟨dev, .none, none, false, false, []⟩

/-- The variables behind the label `done`. -/
def confRun (dev : Device) (text : List Byte) : ConfState :=
  Machine.run (confStep c cenv) (.start dev) (fgetsPieces text)

/-- The timers of the peers that have an endpoint and an interval are started. -/
def startKeepalives (env : Env) (dev : Device) : Device :=
  { dev with peers := dev.peers.map fun peer =>
      if 0 < peer.persistentKeepaliveMs.toNat ∧ peer.endpoint.isSome then
        timersPersistentKeepaliveSet env peer
      else peer }

/-- `load_wg_config`, on a file with the given contents, or one that cannot be opened: the device
and the result. -/
def loadWgConfig (env : Env) (dev : Device) (file : Option (List Byte)) : Device × ℤ :=
  match file with
  | none => (dev, -1)
  | some text =>
    let st := confRun c cenv dev text
    if !st.ok then (st.dev, -1) else (startKeepalives env st.dev, 0)

end Loop

end Wgx
