import Wgx.Device.Transport

/-!
# Handshakes and indices of the Apple copy (`WireGuardKitGo/wgx/noise.c`)

The copy keeps an older index table: the entry of an index stands in the slot of its low 16 bits
and does not record the index itself.

* `pickRandomIndex`, `indexTableNewForHandshake`, `indexTableLookup`, `indexTableDelete`,
  `indexTableSwapKeypair`: the table;
* `noiseCreateInitiation` … `noiseBeginSession`, `cbZeroKeyMaterial`, `promoteNext`,
  `peerTeardown`: the operations that touch it, over the outcomes of their cryptographic steps.
-/

namespace Wgx.Apple

/-! ### The table -/

/-- `index_entry_t`. -/
structure IndexEntry where
  type : IndexType
  peer : ℕ
  handshake : Option ℕ
  keypair : Option ℕ
  deriving DecidableEq

/-- `index_table_t`: the entry of each occupied slot. -/
abbrev IndexTable := BitVec 16 → Option IndexEntry

/-- `idx & (INDEX_TABLE_SIZE - 1)`, as a slot. -/
def slot (idx : BitVec 32) : BitVec 16 := idx.setWidth 16

/-- `idx & (INDEX_TABLE_SIZE - 1)`. -/
def masked (idx : BitVec 32) : BitVec 32 := idx &&& 0xffff#32

/-- `pick_random_index` on the words that the generator gives: the first one whose slot is free.
`none` if the loop has not ended by then. -/
def pickRandomIndex (t : IndexTable) : List (BitVec 32) → Option (BitVec 32)
  | [] => none
  | word :: words => if (t (slot word)).isSome then pickRandomIndex t words else some (masked word)

/-- `index_table_new_for_handshake`, for the handshake of the peer at `peer`. -/
def indexTableNewForHandshake (t : IndexTable) (peer : ℕ) (words : List (BitVec 32)) :
    Option (IndexTable × BitVec 32) :=
  (pickRandomIndex t words).map fun idx =>
    (Function.update t (slot idx) (some ⟨.handshake, peer, some peer, none⟩), idx)

/-- `index_table_lookup`. -/
def indexTableLookup (t : IndexTable) (idx : BitVec 32) : Option IndexEntry := t (slot idx)

/-- `index_table_delete`. -/
def indexTableDelete (t : IndexTable) (idx : BitVec 32) : IndexTable :=
  if idx = 0 then t else Function.update t (slot idx) none

/-- `index_table_swap_keypair`. -/
def indexTableSwapKeypair (t : IndexTable) (oldIdx : BitVec 32) (kp : Keypair) :
    IndexTable × Keypair :=
  if oldIdx = 0 then (t, kp)
  else match t (slot oldIdx) with
    | some e =>
      (Function.update t (slot oldIdx) (some { e with type := .keypair, keypair := some kp.addr }),
        { kp with localIndex := masked oldIdx })
    | none => (t, kp)

/-! ### The device -/

/-- A call that allocates an index or gives one back. -/
inductive IndexCall
  | new (idx : BitVec 32)
  | delete (idx : BitVec 32)

/-- The parts of `wg_device_t` that the handshakes and the transport path use; the peers by their
addresses.  `calls` records the allocations and deletions of indices so far. -/
structure Device where
  peers : ℕ → Option Peer
  indexTable : IndexTable
  allowedips : AllowedIps.Table ℕ
  nextAddr : ℕ
  calls : List IndexCall

/-- The index was allocated, and not deleted since. -/
def outstanding (calls : List IndexCall) (idx : BitVec 32) : Bool :=
  calls.foldl (fun live call =>
    match call with
    | .new i => if i = idx then true else live
    | .delete i => if i = idx then false else live) false

/-- What the cryptographic steps of a handshake function leave in the handshake. -/
structure Secrets where
  hash : List Byte
  chainKey : List Byte
  localEphemeralPriv : List Byte
  localEphemeralPub : List Byte
  remoteEphemeral : List Byte

/-- Write the results of the cryptographic steps. -/
def withSecrets (hs : Handshake) (secrets : Secrets) : Handshake :=
  { hs with
    hash := secrets.hash
    chainKey := secrets.chainKey
    localEphemeralPriv := secrets.localEphemeralPriv
    localEphemeralPub := secrets.localEphemeralPub
    remoteEphemeral := secrets.remoteEphemeral }

namespace Device

/-- Write the record of the peer at `p` back. -/
def store (p : ℕ) (peer : Peer) (d : Device) : Device :=
  { d with peers := Function.update d.peers p (some peer) }

/-- `index_table_delete` on the table of the device. -/
def deleteIndex (idx : BitVec 32) (d : Device) : Device :=
  { d with
    indexTable := indexTableDelete d.indexTable idx
    calls := d.calls ++ [.delete idx] }

/-- `index_table_delete` of a keypair that is about to be freed, if there is one. -/
def deleteKeypair (kp : Option Keypair) (d : Device) : Device :=
  match kp with
  | some kp => d.deleteIndex kp.localIndex
  | none => d

/-- `index_table_new_for_handshake` on the table of the device. -/
def newIndex (p : ℕ) (words : List (BitVec 32)) (d : Device) : Option (Device × BitVec 32) :=
  (indexTableNewForHandshake d.indexTable p words).map fun (t, idx) =>
    ({ d with indexTable := t, calls := d.calls ++ [.new idx] }, idx)

/-- The handshake of a peer gives its index back and gets a new one. -/
def renewIndex (p : ℕ) (peer : Peer) (words : List (BitVec 32)) (d : Device) :
    Option (Device × BitVec 32) :=
  (d.deleteIndex peer.handshake.localIndex).newIndex p words

end Device

/-! ### The operations -/

section Operations

variable (c : Crypto) (env : Env) (p : ℕ) (peer : Peer) (d : Device)

/-- `noise_create_initiation`: `ok` says whether the cryptographic steps, which come before the
index, all succeed. -/
def noiseCreateInitiation (secrets : Secrets) (ok : Bool) (words : List (BitVec 32)) : Device :=
  let hs := withSecrets peer.handshake secrets
  if !ok then d.store p { peer with handshake := hs }
  else
    match d.renewIndex p peer words with
    | none => d
    | some (d, sender) =>
      d.store p { peer with
        handshake := { hs with localIndex := sender, state := .initiationCreated } }

/-- `noise_consume_initiation`, of a message that is accepted. -/
def noiseConsumeInitiation (secrets : Secrets) (sender : BitVec 32) (timestamp : List Byte) :
    Device :=
  d.store p { peer with
    handshake := { withSecrets peer.handshake secrets with
      localEphemeralPriv := peer.handshake.localEphemeralPriv
      localEphemeralPub := peer.handshake.localEphemeralPub
      remoteIndex := sender
      lastTimestamp := timestamp
      lastInitiationConsumptionMs :=
        if peer.handshake.lastInitiationConsumptionMs < env.now then env.now
        else peer.handshake.lastInitiationConsumptionMs
      state := .initiationConsumed } }

/-- `noise_create_response`: `ok` says whether the cryptographic steps, which come after the
index, all succeed. -/
def noiseCreateResponse (secrets : Secrets) (ok : Bool) (words : List (BitVec 32)) : Device :=
  if peer.handshake.state ≠ .initiationConsumed then d
  else
    match d.renewIndex p peer words with
    | none => d
    | some (d, sender) =>
      let hs := withSecrets { peer.handshake with localIndex := sender } secrets
      d.store p { peer with
        handshake := if ok then { hs with state := .responseCreated } else hs }

/-- `noise_consume_response`: `ok` says whether the cryptographic steps all succeed. -/
def noiseConsumeResponse (receiver sender : BitVec 32) (secrets : Secrets) (ok : Bool) : Device :=
  match indexTableLookup d.indexTable receiver with
  | none => d
  | some entry =>
    if entry.type ≠ .handshake then d
    else match entry.handshake with
      | none => d
      | some p =>
        match d.peers p with
        | none => d
        | some peer =>
          if peer.handshake.state ≠ .initiationCreated ∨ !ok then d
          else d.store p { peer with
            handshake := { peer.handshake with
              hash := secrets.hash
              chainKey := secrets.chainKey
              remoteIndex := sender
              state := .responseConsumed } }

/-- The rotation of `noise_begin_session`. -/
def rotateKeypairs (kp : Keypair) : Device :=
  let oldPrev := peer.prevKeypair
  let oldNext := peer.nextKeypair
  let oldCur := peer.currentKeypair
  if kp.isInitiator then
    match oldNext with
    | some next =>
      ((d.deleteKeypair oldCur).deleteKeypair oldPrev).store p
        { peer with prevKeypair := some next, currentKeypair := some kp, nextKeypair := none }
    | none =>
      (d.deleteKeypair oldPrev).store p
        { peer with prevKeypair := oldCur, currentKeypair := some kp, nextKeypair := none }
  else
    ((d.deleteKeypair oldNext).deleteKeypair oldPrev).store p
      { peer with nextKeypair := some kp, prevKeypair := none }

/-- `noise_begin_session`. -/
def noiseBeginSession (calloc : Bool) : Device :=
  let hs := peer.handshake
  if hs.state ≠ .responseConsumed ∧ hs.state ≠ .responseCreated then d
  else if !calloc then d
  else
    let kp := sessionKeypair c hs d.nextAddr env.now
    let (table, kp) := indexTableSwapKeypair d.indexTable hs.localIndex kp
    rotateKeypairs p { peer with
        handshake := noiseHandshakeClear hs, lastHandshakeNs := env.clockNs }
      { d with indexTable := table, nextAddr := d.nextAddr + 1 } kp

/-- The rotation of `handle_transport`, when the keypair at `kpAddr` was used. -/
def promoteNext (kpAddr : ℕ) : Device :=
  match peer.nextKeypair with
  | some kp =>
    if kp.addr = kpAddr then
      (d.deleteKeypair peer.prevKeypair).store p
        { peer with
          prevKeypair := peer.currentKeypair, currentKeypair := some kp, nextKeypair := none }
    else d
  | none => d

/-- `keypair_free` on the slots of a peer, as in `cb_zero_key_material` and `peer_teardown`. -/
def freeKeypairs : Device :=
  ((d.deleteKeypair peer.currentKeypair).deleteKeypair peer.nextKeypair).deleteKeypair
    peer.prevKeypair

/-- `cb_zero_key_material`. -/
def cbZeroKeyMaterial : Device :=
  ((freeKeypairs peer d).deleteIndex peer.handshake.localIndex).store p
    { peer with
      currentKeypair := none, nextKeypair := none, prevKeypair := none
      handshake := noiseHandshakeClear peer.handshake }

/-- `peer_teardown`, and the peer is freed. -/
def peerTeardown : Device :=
  let d := (freeKeypairs peer d).deleteIndex peer.handshake.localIndex
  { d with peers := Function.update d.peers p none }

/-- `device_add_peer`: the new peer has no index and no keypair. -/
def deviceAddPeer (fresh : Peer) : Device :=
  (d.store d.nextAddr { fresh with
    handshake := noiseHandshakeInit fresh.handshake.remoteStatic fresh.handshake.psk
    currentKeypair := none, nextKeypair := none, prevKeypair := none }) |>
    fun d => { d with nextAddr := d.nextAddr + 1 }

end Operations

/-- The operations on the handshakes and keypairs of a device. -/
inductive HandshakeOp
  | addPeer (fresh : Peer)
  | createInitiation (p : ℕ) (secrets : Secrets) (ok : Bool) (words : List (BitVec 32))
  | consumeInitiation (p : ℕ) (secrets : Secrets) (sender : BitVec 32) (timestamp : List Byte)
  | createResponse (p : ℕ) (secrets : Secrets) (ok : Bool) (words : List (BitVec 32))
  | consumeResponse (receiver sender : BitVec 32) (secrets : Secrets) (ok : Bool)
  | beginSession (p : ℕ) (calloc : Bool)
  | promote (p : ℕ) (kpAddr : ℕ)
  | zeroKeyMaterial (p : ℕ)
  | teardown (p : ℕ)

/-- One operation.  Nothing happens to a peer that is not there, and a call that is still looking
for a free slot has not happened. -/
def handshakeStep (c : Crypto) (d : Device) (e : Env × HandshakeOp) : Device :=
  match e.2 with
  | .addPeer fresh => deviceAddPeer d fresh
  | .createInitiation p secrets ok words =>
    (d.peers p).elim d fun peer => noiseCreateInitiation p peer d secrets ok words
  | .consumeInitiation p secrets sender timestamp =>
    (d.peers p).elim d fun peer => noiseConsumeInitiation e.1 p peer d secrets sender timestamp
  | .createResponse p secrets ok words =>
    (d.peers p).elim d fun peer => noiseCreateResponse p peer d secrets ok words
  | .consumeResponse receiver sender secrets ok => noiseConsumeResponse d receiver sender secrets ok
  | .beginSession p calloc =>
    (d.peers p).elim d fun peer => noiseBeginSession c e.1 p peer d calloc
  | .promote p kpAddr => (d.peers p).elim d fun peer => promoteNext p peer d kpAddr
  | .zeroKeyMaterial p => (d.peers p).elim d fun peer => cbZeroKeyMaterial p peer d
  | .teardown p => (d.peers p).elim d fun peer => peerTeardown p peer d

end Wgx.Apple
