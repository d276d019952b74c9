import Wgx.Noise.Handshake

/-!
# Devices, peers and their configuration (`device.c`, `uapi.c`, `conf.c`)

* `deviceInit`, `noiseSetStaticKey`, `deviceAddPeer`, `deviceRemovePeer`, `deviceRemoveAllPeers`:
  the device and its list of peers;
* `applyAllowedIpV4`, `applyAllowedIpV6`, `replaceAllowedIps`: what the configuration front ends do
  to the AllowedIPs tables, the device's and the peer's own.

A removed peer is unlinked at once; that its memory is freed later, when its timers have closed, is
not visible here.
-/

namespace Wgx

/-- An empty queue of staged packets. -/
def StagedQueue.empty : StagedQueue where
  pkts := fun _ => []
  head := 0
  tail := 0
  count := 0
  head_lt := by decide
  count_le := by decide
  tail_eq := rfl
  pkts_len := by simp

/-- `timers_init`. -/
def timersInit : Timers := ⟨true, none, none, none, none, none⟩

section Config

variable (c : Crypto)

/-- `device_init`, with the cookie checker of `device_start`. -/
def deviceInit : Device where
  privateKey := zeroKey
  publicKey := zeroKey
  noiseInitChainKey := noiseInitChainKey c
  noiseInitHash := noiseInitHash c
  peers := []
  listenPort := 0
  fwmark := 0
  allowedips := AllowedIps.allowedipsInit
  indexTable := fun _ => none
  cookieChecker := cookieCheckerInit c zeroKey
  underLoadUntilMs := 0
  nextAddr := 1

/-- `noise_set_static_key`, and the `cookie_checker_init` that its callers make next. -/
def noiseSetStaticKey (dev : Device) (priv : List Byte) : Device :=
  let pub := wgGeneratePublicKey c priv
  let dev := { dev with
    privateKey := priv, publicKey := pub, cookieChecker := cookieCheckerInit c pub }
  { dev with peers := dev.peers.map (noisePrecomputeStaticStatic c dev) }

/-- The record that `device_add_peer` fills in. -/
def peerNew (dev : Device) (pk : List Byte) : Peer :=
  noisePrecomputeStaticStatic c dev
    { addr := dev.nextAddr
      publicKey := pk
      handshake := noiseHandshakeInit pk zeroKey
      cookie := cookieGenInit c pk
      currentKeypair := none
      nextKeypair := none
      prevKeypair := none
      endpoint := none
      txBytes := 0
      rxBytes := 0
      lastHandshakeNs := 0
      persistentKeepaliveMs := 0
      timers := timersInit
      handshakeAttempts := 0
      needAnotherKeepalive := false
      staged := StagedQueue.empty
      allowedips := AllowedIps.allowedipsInit }

/-- `device_add_peer`; a key that has a peer already changes nothing. -/
def deviceAddPeer (dev : Device) (pk : List Byte) : Device :=
  if (deviceFindPeer dev pk).isSome then dev
  else { dev with peers := peerNew c dev pk :: dev.peers, nextAddr := dev.nextAddr + 1 }

end Config

/-- `keypair_free`, on a slot that may be empty. -/
def keypairFree (dev : Device) (kp : Option Keypair) : Device :=
  { dev with indexTable := indexTableDeleteKeypair dev.indexTable kp }

/-- What `peer_teardown` does to the device; the peer itself is gone. -/
def peerTeardown (dev : Device) (peer : Peer) : Device :=
  let dev := { dev with allowedips := AllowedIps.allowedipsRemovePeer dev.allowedips peer.addr }
  let dev := keypairFree dev peer.currentKeypair
  let dev := keypairFree dev peer.nextKeypair
  let dev := keypairFree dev peer.prevKeypair
  { dev with indexTable := indexTableDelete dev.indexTable peer.handshake.localIndex }

/-- `device_remove_peer`. -/
def deviceRemovePeer (dev : Device) (peer : Peer) : Device :=
  peerTeardown { dev with peers := dev.peers.filter fun p => p.addr ≠ peer.addr } peer

/-- `device_remove_all_peers`. -/
def deviceRemoveAllPeers (dev : Device) : Device :=
  dev.peers.foldl peerTeardown { dev with peers := [] }

/-- The effect of an `allowed_ip` line for an IPv4 prefix, and of `apply_allowed_ip`: the prefix goes
into the device's table and into the peer's own. -/
def applyAllowedIpV4 (dev : Device) (peer : Peer) (addr : InAddr) (cidr : ℕ) : Device :=
  let dev := { dev with
    allowedips := (AllowedIps.allowedipsInsertV4 dev.allowedips addr cidr peer.addr).1 }
  dev.store { peer with
    allowedips := (AllowedIps.allowedipsInsertV4 peer.allowedips addr cidr peer.addr).1 }

/-- The effect of an `allowed_ip` line for an IPv6 prefix, and of `apply_allowed_ip`. -/
def applyAllowedIpV6 (dev : Device) (peer : Peer) (addr : In6Addr) (cidr : ℕ) : Device :=
  let dev := { dev with
    allowedips := (AllowedIps.allowedipsInsertV6 dev.allowedips addr cidr peer.addr).1 }
  dev.store { peer with
    allowedips := (AllowedIps.allowedipsInsertV6 peer.allowedips addr cidr peer.addr).1 }

/-- The effect of `replace_allowed_ips=true`. -/
def replaceAllowedIps (dev : Device) (peer : Peer) : Device :=
  let dev := { dev with allowedips := AllowedIps.allowedipsRemovePeer dev.allowedips peer.addr }
  dev.store { peer with allowedips := AllowedIps.allowedipsInit }

end Wgx
