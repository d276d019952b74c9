import Wgx.Noise.State

/-!
# The Noise handshake (`noise.c`)

* `pickRandomIndex`, `indexTableNewForHandshake`, `indexTableLookup`, `indexTableDelete`,
  `indexTableSwapKeypair`: the index table;
* `cookieAddMacs`, `cookieValidateMacs`, `cookieCreateReply`, `cookieConsumeReply`: MACs and
  cookies;
* `noiseCreateInitiation`, `noiseConsumeInitiation`, `noiseCreateResponse`,
  `noiseConsumeResponse`, `noiseBeginSession`: the four messages' functions and the session start.

The `create` functions work on the handshake record itself, so a call that fails leaves what it had
written; the `consume` functions work on local copies and write only at the end.
-/

namespace Wgx

/-! ### The index table -/

/-- `index_slot`. -/
def indexSlot (idx : BitVec 32) : ℕ := (idx &&& BitVec.ofNat 32 (indexTableSize - 1)).toNat

/-- The first loop of `pick_random_index`, with `n` attempts to go and `k` made. -/
def pickRandom (t : IndexTable) (draw : ℕ → BitVec 32) (k : ℕ) : ℕ → Option (BitVec 32)
  | 0 => none
  | n + 1 =>
    if draw k ≠ 0 ∧ (t (indexSlot (draw k))).isNone then some (draw k)
    else pickRandom t draw (k + 1) n

/-- The second loop of `pick_random_index`, with `n` slots to go from `slot` on. -/
def pickFree (t : IndexTable) (random : BitVec 32) (slot : ℕ) : ℕ → BitVec 32
  | 0 => 0
  | n + 1 =>
    if (t slot).isSome then pickFree t random (slot + 1) n
    else
      let idx := random &&& ~~~(BitVec.ofNat 32 (indexTableSize - 1)) ||| BitVec.ofNat 32 slot
      if idx = 0 then BitVec.ofNat 32 indexTableSize else idx

/-- `pick_random_index`. -/
def pickRandomIndex (t : IndexTable) (draw : ℕ → BitVec 32) : BitVec 32 :=
  match pickRandom t draw 0 4096 with
  | some idx => idx
  | none => pickFree t (draw 4096) 0 indexTableSize

/-- `index_table_new_for_handshake`, for the handshake of the peer at `peer`. -/
def indexTableNewForHandshake (t : IndexTable) (peer : ℕ) (draw : ℕ → BitVec 32) :
    IndexTable × BitVec 32 :=
  let idx := pickRandomIndex t draw
  if idx ≠ 0 then
    (Function.update t (indexSlot idx) (some ⟨.handshake, idx, peer, some peer, none⟩), idx)
  else (t, idx)

/-- `index_table_lookup`. -/
def indexTableLookup (t : IndexTable) (idx : BitVec 32) : Option IndexEntry :=
  (t (indexSlot idx)).filter fun e => e.index = idx

/-- `index_table_delete`. -/
def indexTableDelete (t : IndexTable) (idx : BitVec 32) : IndexTable :=
  if idx = 0 then t
  else if (indexTableLookup t idx).isSome then Function.update t (indexSlot idx) none
  else t

/-- `index_table_swap_keypair`. -/
def indexTableSwapKeypair (t : IndexTable) (oldIdx : BitVec 32) (kp : Keypair) :
    IndexTable × Keypair :=
  if oldIdx = 0 then (t, kp)
  else match indexTableLookup t oldIdx with
    | some e =>
      (Function.update t (indexSlot oldIdx) (some { e with type := .keypair, keypair := some kp.addr }),
        { kp with localIndex := oldIdx })
    | none => (t, kp)

/-! ### MACs and cookies -/

/-- `COOKIE_REFRESH_TIME_MS`. -/
def cookieRefreshTimeMs : BitVec 64 := 120000

/-- `cookie_checker_init`. -/
def cookieCheckerInit (c : Crypto) (pub : List Byte) : CookieChecker where
  mac1Key := c.blake2s 32 (ascii "mac1----" ++ pub) []
  mac2EncryptKey := c.blake2s 32 (ascii "cookie--" ++ pub) []
  mac2Secret := List.replicate 32 0#8
  mac2SecretSetMs := 0

/-- `cookie_gen_init`. -/
def cookieGenInit (c : Crypto) (pub : List Byte) : CookieGen where
  mac1Key := c.blake2s 32 (ascii "mac1----" ++ pub) []
  mac2Key := c.blake2s 32 (ascii "cookie--" ++ pub) []
  cookie := List.replicate 16 0#8
  cookieSetMs := 0
  lastMac1 := none

/-- `cookie_add_macs` on a message with the bytes `body` before its `mac1`: the two MACs and the
generator after the call. -/
def cookieAddMacs (c : Crypto) (cg : CookieGen) (body : List Byte) (now : BitVec 64) :
    CookieGen × List Byte × List Byte :=
  let mac1 := wgBlake2s128Mac c cg.mac1Key body
  let cookieValid := cg.cookieSetMs ≠ 0 ∧ now - cg.cookieSetMs < cookieRefreshTimeMs
  let mac2 := if cookieValid then wgBlake2s128Mac c cg.cookie (body ++ mac1)
    else List.replicate 16 0#8
  ({ cg with lastMac1 := some mac1 }, mac1, mac2)

/-- The address bytes that `compute_cookie` hashes. -/
def Endpoint.cookieBytes : Endpoint → List Byte
  | .v4 addr port => addr.toList ++ (leBytes 2 port.toNat).reverse
  | .v6 addr port => addr.toList ++ (leBytes 2 port.toNat).reverse

/-- `compute_cookie`. -/
def computeCookie (c : Crypto) (cc : CookieChecker) (src : Endpoint) : List Byte :=
  wgBlake2s128Mac c cc.mac2Secret src.cookieBytes

/-- Draw a new cookie secret if there is none or it is too old. -/
def cookieRefreshSecret (cc : CookieChecker) (random : List Byte) (now : BitVec 64) :
    CookieChecker :=
  if cc.mac2SecretSetMs = 0 ∨ cookieRefreshTimeMs ≤ now - cc.mac2SecretSetMs then
    { cc with mac2Secret := random, mac2SecretSetMs := now }
  else cc

/-- The result of `cookie_validate_macs`: -1, 0 or 1. -/
inductive MacResult
  | invalid
  | valid
  | needCookie
  deriving DecidableEq

/-- `cookie_validate_macs` on a message with the bytes `body` before its `mac1`. -/
def cookieValidateMacs (c : Crypto) (cc : CookieChecker) (src : Endpoint)
    (body mac1 mac2 random : List Byte) (now : BitVec 64) (underLoad : Bool) :
    CookieChecker × MacResult :=
  if wgBlake2s128Mac c cc.mac1Key body ≠ mac1 then (cc, .invalid)
  else if !underLoad then (cc, .valid)
  else
    let cc := cookieRefreshSecret cc random now
    if wgBlake2s128Mac c (computeCookie c cc src) (body ++ mac1) ≠ mac2 then (cc, .needCookie)
    else (cc, .valid)

/-- `cookie_create_reply`. -/
def cookieCreateReply (c : Crypto) (cc : CookieChecker) (src : Endpoint) (lastMac1 : List Byte)
    (receiver : BitVec 32) (nonce random : List Byte) (now : BitVec 64) :
    CookieChecker × MsgCookieReply :=
  let cc := cookieRefreshSecret cc random now
  (cc, ⟨receiver, nonce,
    c.xaeadEncrypt cc.mac2EncryptKey nonce (computeCookie c cc src) lastMac1⟩)

/-- `cookie_consume_reply`. -/
def cookieConsumeReply (c : Crypto) (cg : CookieGen) (reply : MsgCookieReply) (now : BitVec 64) :
    CookieGen :=
  match cg.lastMac1 with
  | none => cg
  | some mac1 =>
    match c.xaeadDecrypt cg.mac2Key reply.nonce reply.cookieEnc mac1 with
    | none => cg
    | some cookie => { cg with cookie := cookie, cookieSetMs := now }

/-! ### Hash and chain key -/

section Messages

variable (c : Crypto)

/-- `mix_hash`. -/
def mixHash (h data : List Byte) : List Byte := c.blake2s 32 (h ++ data) []

/-- `mix_key`. -/
def mixKey (ck data : List Byte) : List Byte := wgKdf1 c ck data

/-- `noise_init_chain_key`, as `noise_init_device` computes it. -/
def noiseInitChainKey : List Byte :=
  wgBlake2s256 c (ascii "Noise_IKpsk2_25519_ChaChaPoly_BLAKE2s")

/-- `noise_init_hash`, as `noise_init_device` computes it. -/
def noiseInitHash : List Byte :=
  mixHash c (noiseInitChainKey c) (ascii "WireGuard v1 zx2c4 Jason@zx2c4.com")

/-- `zero_nonce`. -/
def zeroNonce : List Byte := List.replicate 12 0#8

/-- `noise_precompute_static_static`; a refused point leaves the field as it was. -/
def noisePrecomputeStaticStatic (dev : Device) (peer : Peer) : Peer :=
  { peer with handshake :=
      { peer.handshake with
        precomputedStaticStatic :=
          (wgDh c dev.privateKey peer.publicKey).getD peer.handshake.precomputedStaticStatic } }

/-- `noise_handshake_init` on a zeroed record. -/
def noiseHandshakeInit (remoteStatic psk : List Byte) : Handshake where
  state := .zeroed
  hash := zeroKey
  chainKey := zeroKey
  psk := psk
  localEphemeralPriv := zeroKey
  localEphemeralPub := zeroKey
  localIndex := 0
  remoteIndex := 0
  remoteStatic := remoteStatic
  remoteEphemeral := zeroKey
  precomputedStaticStatic := zeroKey
  lastTimestamp := tai64nZero
  lastInitiationConsumptionMs := 0
  lastSentHandshakeMs := 0

/-- `noise_handshake_clear`. -/
def noiseHandshakeClear (hs : Handshake) : Handshake :=
  { hs with
    hash := zeroKey, chainKey := zeroKey, localEphemeralPriv := zeroKey, localEphemeralPub := zeroKey,
    remoteEphemeral := zeroKey, localIndex := 0, remoteIndex := 0, lastSentHandshakeMs := 0,
    state := .zeroed }

/-! ### The initiation -/

/-- `noise_create_initiation`; no message is returned where the source fails. -/
def noiseCreateInitiation (env : Env) (x : Ctx) : Ctx × Option MsgInitiation :=
  let (d, x) := x.draw env
  let hs := x.peer.handshake
  let priv := wgGeneratePrivateKey d.bytes.toList
  let pub := wgGeneratePublicKey c priv
  let hash := mixHash c x.dev.noiseInitHash hs.remoteStatic
  let chainKey := mixKey c x.dev.noiseInitChainKey pub
  let hash := mixHash c hash pub
  let hs := { hs with
    localEphemeralPriv := priv, localEphemeralPub := pub, hash := hash, chainKey := chainKey }
  match wgDh c priv hs.remoteStatic with
  | none => (x.setHandshake hs, none)
  | some ss =>
    let (chainKey, key) := wgKdf2 c chainKey ss
    let staticEnc := c.aeadEncrypt key zeroNonce x.dev.publicKey hash
    let hash := mixHash c hash staticEnc
    let hs := { hs with hash := hash, chainKey := chainKey }
    if hs.precomputedStaticStatic = zeroKey then (x.setHandshake hs, none)
    else
      let (chainKey, key) := wgKdf2 c chainKey hs.precomputedStaticStatic
      let timestampEnc := c.aeadEncrypt key zeroNonce d.timestamp.toList hash
      let hs := { hs with chainKey := chainKey }
      let (table, sender) := indexTableNewForHandshake
        (indexTableDelete x.dev.indexTable hs.localIndex) x.peer.addr d.index
      let x := x.setIndexTable table
      if sender = 0 then (x.setHandshake hs, none)
      else
        let hs := { hs with
          localIndex := sender, hash := mixHash c hash timestampEnc, state := .initiationCreated }
        let msg : MsgInitiation := ⟨sender, pub, staticEnc, timestampEnc, [], []⟩
        let (cookie, mac1, mac2) := cookieAddMacs c x.peer.cookie msg.beforeMac1 env.now
        ({ x with peer := { x.peer with handshake := hs, cookie := cookie } },
          some { msg with mac1 := mac1, mac2 := mac2 })

/-- `HANDSHAKE_INIT_RATE_MS`. -/
def handshakeInitRateMs : BitVec 64 := 20

/-- `noise_consume_initiation`: the peer with its handshake updated, if the message is accepted. -/
def noiseConsumeInitiation (env : Env) (dev : Device) (msg : MsgInitiation) : Option Peer :=
  let hash := mixHash c dev.noiseInitHash dev.publicKey
  let hash := mixHash c hash msg.ephemeral
  let chainKey := mixKey c dev.noiseInitChainKey msg.ephemeral
  match wgDh c dev.privateKey msg.ephemeral with
  | none => none
  | some ss =>
    let (chainKey, key) := wgKdf2 c chainKey ss
    match c.aeadDecrypt key zeroNonce msg.staticEnc hash with
    | none => none
    | some peerPk =>
      let hash := mixHash c hash msg.staticEnc
      match deviceFindPeer dev peerPk with
      | none => none
      | some peer =>
        let hs := peer.handshake
        if hs.precomputedStaticStatic = zeroKey then none
        else
          let (chainKey, key) := wgKdf2 c chainKey hs.precomputedStaticStatic
          match c.aeadDecrypt key zeroNonce msg.timestampEnc hash with
          | none => none
          | some ts =>
            let hash := mixHash c hash msg.timestampEnc
            let replay := !tai64nAfter ts hs.lastTimestamp
            let flood := env.now - hs.lastInitiationConsumptionMs ≤ handshakeInitRateMs
            if replay ∨ flood then none
            else some { peer with
              handshake := { hs with
                hash := hash, chainKey := chainKey, remoteEphemeral := msg.ephemeral,
                remoteIndex := msg.sender,
                lastTimestamp := if tai64nAfter ts hs.lastTimestamp then ts else hs.lastTimestamp,
                lastInitiationConsumptionMs :=
                  if hs.lastInitiationConsumptionMs < env.now then env.now
                  else hs.lastInitiationConsumptionMs,
                state := .initiationConsumed } }

/-! ### The response -/

/-- `noise_create_response`; no message is returned where the source fails. -/
def noiseCreateResponse (env : Env) (x : Ctx) : Ctx × Option MsgResponse :=
  if x.peer.handshake.state ≠ .initiationConsumed then (x, none)
  else
    let (d, x) := x.draw env
    let hs := x.peer.handshake
    let (table, sender) := indexTableNewForHandshake
      (indexTableDelete x.dev.indexTable hs.localIndex) x.peer.addr d.index
    let x := x.setIndexTable table
    let hs := { hs with localIndex := sender }
    if sender = 0 then (x.setHandshake hs, none)
    else
      let priv := wgGeneratePrivateKey d.bytes.toList
      let pub := wgGeneratePublicKey c priv
      let hash := mixHash c hs.hash pub
      let chainKey := mixKey c hs.chainKey pub
      let hs := { hs with
        localEphemeralPriv := priv, localEphemeralPub := pub, hash := hash, chainKey := chainKey }
      match wgDh c priv hs.remoteEphemeral with
      | none => (x.setHandshake hs, none)
      | some ss =>
        let chainKey := mixKey c chainKey ss
        match wgDh c priv hs.remoteStatic with
        | none => (x.setHandshake { hs with chainKey := chainKey }, none)
        | some ss =>
          let chainKey := mixKey c chainKey ss
          let (chainKey, tau, key) := wgKdf3 c chainKey hs.psk
          let hash := mixHash c hash tau
          let emptyEnc := c.aeadEncrypt key zeroNonce [] hash
          let hs := { hs with
            hash := mixHash c hash emptyEnc, chainKey := chainKey, state := .responseCreated }
          let msg : MsgResponse := ⟨sender, hs.remoteIndex, pub, emptyEnc, [], []⟩
          let (cookie, mac1, mac2) := cookieAddMacs c x.peer.cookie msg.beforeMac1 env.now
          ({ x with peer := { x.peer with handshake := hs, cookie := cookie } },
            some { msg with mac1 := mac1, mac2 := mac2 })

/-- `noise_consume_response`: the peer with its handshake updated, if the message is accepted. -/
def noiseConsumeResponse (dev : Device) (msg : MsgResponse) : Option Peer :=
  match indexTableLookup dev.indexTable msg.receiver with
  | none => none
  | some entry =>
    if entry.type ≠ .handshake then none
    else match entry.handshake.bind dev.peerAt with
      | none => none
      | some peer =>
        let hs := peer.handshake
        if hs.state ≠ .initiationCreated then none
        else
          let hash := mixHash c hs.hash msg.ephemeral
          let chainKey := mixKey c hs.chainKey msg.ephemeral
          match wgDh c hs.localEphemeralPriv msg.ephemeral with
          | none => none
          | some ss =>
            let chainKey := mixKey c chainKey ss
            match wgDh c dev.privateKey msg.ephemeral with
            | none => none
            | some ss =>
              let chainKey := mixKey c chainKey ss
              let (chainKey, tau, key) := wgKdf3 c chainKey hs.psk
              let hash := mixHash c hash tau
              match c.aeadDecrypt key zeroNonce msg.emptyEnc hash with
              | none => none
              | some _ =>
                some { peer with
                  handshake := { hs with
                    hash := mixHash c hash msg.emptyEnc, chainKey := chainKey,
                    remoteIndex := msg.sender, state := .responseConsumed } }

/-! ### The session -/

/-- The keypair that `noise_begin_session` derives from the handshake, allocated at `addr`. -/
def sessionKeypair (hs : Handshake) (addr : ℕ) (now : BitVec 64) : Keypair :=
  let isInitiator : Bool := hs.state = .responseConsumed
  let (t0, t1) := wgKdf2 c hs.chainKey []
  { addr := addr
    sendNonce := 0
    sendKey := if isInitiator then t0 else t1
    recvKey := if isInitiator then t1 else t0
    replay := Replay.replayReset
    isInitiator := isInitiator
    createdAtMs := now
    localIndex := hs.localIndex
    remoteIndex := hs.remoteIndex }

/-- `index_table_delete` of a keypair that is about to be freed, if there is one. -/
def indexTableDeleteKeypair (t : IndexTable) (kp : Option Keypair) : IndexTable :=
  match kp with
  | some kp => indexTableDelete t kp.localIndex
  | none => t

/-- The rotation of `noise_begin_session`: a new initiator keypair becomes the current one and the
one it replaces the previous one; a new responder keypair waits in the next slot. -/
def rotateKeypairs (t : IndexTable) (peer : Peer) (kp : Keypair) : IndexTable × Peer :=
  let oldPrev := peer.prevKeypair
  let oldNext := peer.nextKeypair
  let oldCur := peer.currentKeypair
  if kp.isInitiator then
    let (t, prev) := match oldNext with
      | some next => (indexTableDeleteKeypair t oldCur, some next)
      | none => (t, oldCur)
    (indexTableDeleteKeypair t oldPrev,
      { peer with prevKeypair := prev, currentKeypair := some kp, nextKeypair := none })
  else
    (indexTableDeleteKeypair (indexTableDeleteKeypair t oldNext) oldPrev,
      { peer with nextKeypair := some kp, prevKeypair := none })

/-- `noise_begin_session`; the second component is the return value `0`. -/
def noiseBeginSession (env : Env) (x : Ctx) : Ctx × Bool :=
  let hs := x.peer.handshake
  if hs.state ≠ .responseConsumed ∧ hs.state ≠ .responseCreated then (x, false)
  else
    let kp := sessionKeypair c hs x.dev.nextAddr env.now
    let (table, kp) := indexTableSwapKeypair x.dev.indexTable hs.localIndex kp
    let peer := { x.peer with handshake := noiseHandshakeClear hs, lastHandshakeNs := env.clockNs }
    let (table, peer) := rotateKeypairs table peer kp
    ({ x with
      dev := { x.dev with indexTable := table, nextAddr := x.dev.nextAddr + 1 }, peer := peer },
      true)

end Messages

end Wgx
