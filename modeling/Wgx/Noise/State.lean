import Wgx.Crypto
import Wgx.Replay
import Wgx.AllowedIps.Table
import Wgx.Lib.Ring

/-!
# The state of a device (`wg.h`)

Peers and keypairs are records in C memory that other records point to.  Here they are values that
carry the address they were allocated at (`addr`), and a pointer is such an address: the index table
and the AllowedIPs tables hold addresses of peers, and the index table also those of keypairs.  A
call that the source passes a peer to works on a `Ctx`: the device, that peer, what was sent and
written so far, and how many random draws were made; `Device.store` writes the peer back.

Locks, fields that are written and never read (`psk` of a peer, `sent_last_minute_handshake`) and
log messages are left out; allocations succeed.
-/

namespace Wgx

/-! ### Messages -/

/-- The address and port of a peer (`struct sockaddr_storage`). -/
inductive Endpoint
  | v4 (addr : InAddr) (port : BitVec 16)
  | v6 (addr : In6Addr) (port : BitVec 16)
  deriving DecidableEq

/-- `msg_initiation_t`. -/
structure MsgInitiation where
  sender : BitVec 32
  ephemeral : List Byte
  staticEnc : List Byte
  timestampEnc : List Byte
  mac1 : List Byte
  mac2 : List Byte
  deriving DecidableEq

/-- `msg_response_t`. -/
structure MsgResponse where
  sender : BitVec 32
  receiver : BitVec 32
  ephemeral : List Byte
  emptyEnc : List Byte
  mac1 : List Byte
  mac2 : List Byte
  deriving DecidableEq

/-- `msg_cookie_reply_t`. -/
structure MsgCookieReply where
  receiver : BitVec 32
  nonce : List Byte
  cookieEnc : List Byte
  deriving DecidableEq

/-- `msg_transport_hdr_t` and the encrypted content behind it. -/
structure MsgTransport where
  receiver : BitVec 32
  counter : BitVec 64
  content : List Byte
  deriving DecidableEq

/-- What a device sends in one UDP datagram. -/
inductive Datagram
  | initiation (msg : MsgInitiation)
  | response (msg : MsgResponse)
  | cookieReply (msg : MsgCookieReply)
  | transport (msg : MsgTransport)
  deriving DecidableEq

/-- The bytes of an initiation before `mac1`. -/
def MsgInitiation.beforeMac1 (m : MsgInitiation) : List Byte :=
  leBytes 4 1 ++ leBytes 4 m.sender.toNat ++ m.ephemeral ++ m.staticEnc ++ m.timestampEnc

/-- The bytes of a response before `mac1`. -/
def MsgResponse.beforeMac1 (m : MsgResponse) : List Byte :=
  leBytes 4 2 ++ leBytes 4 m.sender.toNat ++ leBytes 4 m.receiver.toNat ++ m.ephemeral ++ m.emptyEnc

/-! ### Keypairs and handshakes -/

/-- `wg_keypair_t`. -/
structure Keypair where
  addr : ℕ
  sendNonce : BitVec 64
  sendKey : List Byte
  recvKey : List Byte
  replay : Replay.ReplayFilter
  isInitiator : Bool
  createdAtMs : BitVec 64
  localIndex : BitVec 32
  remoteIndex : BitVec 32

/-- `hs_state_t`. -/
inductive HsState
  | zeroed
  | initiationCreated
  | initiationConsumed
  | responseCreated
  | responseConsumed
  deriving DecidableEq

/-- `wg_handshake_t`. -/
structure Handshake where
  state : HsState
  hash : List Byte
  chainKey : List Byte
  psk : List Byte
  localEphemeralPriv : List Byte
  localEphemeralPub : List Byte
  localIndex : BitVec 32
  remoteIndex : BitVec 32
  remoteStatic : List Byte
  remoteEphemeral : List Byte
  precomputedStaticStatic : List Byte
  lastTimestamp : List Byte
  lastInitiationConsumptionMs : BitVec 64
  lastSentHandshakeMs : BitVec 64

/-- `wg_cookie_gen_t`; `lastMac1` is `none` while `has_last_mac1` is 0. -/
structure CookieGen where
  mac1Key : List Byte
  mac2Key : List Byte
  cookie : List Byte
  cookieSetMs : BitVec 64
  lastMac1 : Option (List Byte)

/-- `wg_cookie_checker_t`. -/
structure CookieChecker where
  mac1Key : List Byte
  mac2Secret : List Byte
  mac2SecretSetMs : BitVec 64
  mac2EncryptKey : List Byte

/-! ### The index table -/

/-- The `type` of an `index_entry_t`. -/
inductive IndexType
  | handshake
  | keypair
  deriving DecidableEq

/-- `index_entry_t`; the handshake it points to is named by its peer. -/
structure IndexEntry where
  type : IndexType
  index : BitVec 32
  peer : ℕ
  handshake : Option ℕ
  keypair : Option ℕ
  deriving DecidableEq

/-- `INDEX_TABLE_SIZE`. -/
def indexTableSize : ℕ := 65536

/-- `index_table_t`: the entry of each occupied slot. -/
abbrev IndexTable := ℕ → Option IndexEntry

/-! ### Peers and devices -/

/-- `PEER_QUEUE_SIZE`. -/
def peerQueueSize : ℕ := 512

/-- The staged packets of a peer: a ring of packets of 1 to `WG_DEFAULT_MTU` bytes.  The fields
below `count` are the invariant that every operation on the ring keeps. -/
structure StagedQueue where
  pkts : ℕ → List Byte
  head : ℕ
  tail : ℕ
  count : ℕ
  head_lt : head < peerQueueSize
  count_le : count ≤ peerQueueSize
  tail_eq : tail = (head + count) % peerQueueSize
  pkts_len : ∀ pkt ∈ Ring.window pkts peerQueueSize head count,
    1 ≤ pkt.length ∧ pkt.length ≤ wgDefaultMtu

/-- The timers of a peer: when each active one is due. -/
structure Timers where
  active : Bool
  retransmitHandshake : Option ℕ
  sendKeepalive : Option ℕ
  newHandshake : Option ℕ
  zeroKeyMaterial : Option ℕ
  persistentKeepalive : Option ℕ

/-- `wg_peer_t`. -/
structure Peer where
  addr : ℕ
  publicKey : List Byte
  handshake : Handshake
  cookie : CookieGen
  currentKeypair : Option Keypair
  nextKeypair : Option Keypair
  prevKeypair : Option Keypair
  /-- The endpoint, if `endpoint_len` is not 0. -/
  endpoint : Option Endpoint
  txBytes : BitVec 64
  rxBytes : BitVec 64
  lastHandshakeNs : BitVec 64
  persistentKeepaliveMs : BitVec 32
  timers : Timers
  handshakeAttempts : BitVec 32
  needAnotherKeepalive : Bool
  staged : StagedQueue
  allowedips : AllowedIps.Table ℕ

/-- `wg_device_t`, in TUN mode. -/
structure Device where
  privateKey : List Byte
  publicKey : List Byte
  noiseInitChainKey : List Byte
  noiseInitHash : List Byte
  peers : List Peer
  listenPort : BitVec 16
  fwmark : BitVec 32
  allowedips : AllowedIps.Table ℕ
  indexTable : IndexTable
  cookieChecker : CookieChecker
  underLoadUntilMs : BitVec 64
  /-- The next address the allocator returns. -/
  nextAddr : ℕ

/-- `device_find_peer`. -/
def deviceFindPeer (dev : Device) (pk : List Byte) : Option Peer :=
  dev.peers.find? fun p => p.publicKey = pk

/-- The peer a pointer points to. -/
def Device.peerAt (dev : Device) (addr : ℕ) : Option Peer :=
  dev.peers.find? fun p => p.addr = addr

/-- Write the record of a peer back. -/
def Device.store (dev : Device) (peer : Peer) : Device :=
  { dev with peers := dev.peers.map fun p => if p.addr = peer.addr then peer else p }

/-! ### Calls -/

/-- What one use of the random generator and of the wall clock returns. -/
structure Draw where
  /-- 32 random bytes. -/
  bytes : Vector Byte 32
  /-- The random words of one `pick_random_index`. -/
  index : ℕ → BitVec 32
  jitter : BitVec 32
  /-- `tai64n_now`. -/
  timestamp : Vector Byte 12

/-- What a call finds outside the device: the loop time, the wall clock, whether UDP sends succeed,
the draws. -/
structure Env where
  now : BitVec 64
  /-- `clock_gettime(CLOCK_REALTIME)` in nanoseconds. -/
  clockNs : BitVec 64
  udpOk : Bool
  draw : ℕ → Draw

/-- What a call on a peer works on: the device, the peer, the datagrams sent and the packets
written to the TUN device so far, and the number of draws made. -/
structure Ctx where
  dev : Device
  peer : Peer
  sent : List (Endpoint × Datagram)
  tun : List (List Byte)
  draws : ℕ

/-- A call on a peer starts with nothing sent or written. -/
def Ctx.start (dev : Device) (peer : Peer) : Ctx := ⟨dev, peer, [], [], 0⟩

/-- The next draw, and the state after it. -/
def Ctx.draw (env : Env) (x : Ctx) : Draw × Ctx :=
  (env.draw x.draws, { x with draws := x.draws + 1 })

/-- Write the peer's handshake. -/
def Ctx.setHandshake (x : Ctx) (hs : Handshake) : Ctx :=
  { x with peer := { x.peer with handshake := hs } }

/-- Write the device's index table. -/
def Ctx.setIndexTable (x : Ctx) (t : IndexTable) : Ctx :=
  { x with dev := { x.dev with indexTable := t } }

/-- The device after the call. -/
def Ctx.finish (x : Ctx) : Device := x.dev.store x.peer

end Wgx
