import Wgx.Device.Peers

/-!
# An undisturbed handshake yields mirrored keys

Both sides of a handshake compute one transcript, a function of the private keys, the timestamp and
the preshared key: `initiationTranscript` for the first message, `responseTranscript` for the
second.  Each of the functions of `noise.c` is described once by these (`noiseCreateInitiation_eq`,
`noiseConsumeInitiation_eq`, `noiseCreateResponse_eq`, `noiseConsumeResponse_eq`,
`noiseBeginSession_eq`), and the agreement of the session keys follows.

`Paired c dev peer r psk` says that `dev` is set up and has configured `peer`, whose private key is
`r`, under the preshared key `psk`.
-/

namespace Wgx

variable (c : Crypto)

/-! ### Indices -/

theorem indexSlot_eq (idx : BitVec 32) : indexSlot idx = idx.toNat % indexTableSize := by
  simp only [indexSlot, indexTableSize, BitVec.toNat_and]
  exact Nat.and_two_pow_sub_one_eq_mod idx.toNat 16

theorem pickRandom_some {t : IndexTable} {draw : ℕ → BitVec 32} {k n : ℕ} {idx : BitVec 32}
    (h : pickRandom t draw k n = some idx) : idx ≠ 0 ∧ t (indexSlot idx) = none := by
  induction n generalizing k with
  | zero => cases h
  | succ n ih =>
    rw [pickRandom] at h
    split_ifs at h with hd
    · cases h
      exact ⟨hd.1, Option.isNone_iff_eq_none.1 hd.2⟩
    · exact ih h

/-- The index built in a free slot falls into that slot. -/
theorem indexSlot_in_slot (random : BitVec 32) {slot : ℕ} (hslot : slot < indexTableSize) :
    indexSlot (random &&& ~~~(BitVec.ofNat 32 (indexTableSize - 1)) ||| BitVec.ofNat 32 slot) =
      slot := by
  have hmask : BitVec.ofNat 32 slot &&& BitVec.ofNat 32 (indexTableSize - 1) =
      BitVec.ofNat 32 slot := by
    apply BitVec.eq_of_toNat_eq
    rw [BitVec.toNat_and, BitVec.toNat_ofNat, BitVec.toNat_ofNat]
    have h16 : (indexTableSize - 1) % 2 ^ 32 = 2 ^ 16 - 1 := by decide
    rw [h16, Nat.and_two_pow_sub_one_eq_mod, Nat.mod_eq_of_lt]
    exact lt_of_le_of_lt (Nat.mod_le _ _) hslot
  have hclear : random &&& ~~~(BitVec.ofNat 32 (indexTableSize - 1)) &&&
      BitVec.ofNat 32 (indexTableSize - 1) = 0 := by
    rw [BitVec.and_assoc, BitVec.and_comm (~~~_), BitVec.and_not_self]
    simp
  rw [indexSlot, BitVec.and_or_distrib_right, hclear, hmask]
  simp only [indexTableSize] at hslot
  simp only [BitVec.ofNat_eq_ofNat, BitVec.zero_or, BitVec.toNat_ofNat]
  omega

theorem pickFree_spec {t : IndexTable} (random : BitVec 32) {slot n : ℕ}
    (hn : slot + n ≤ indexTableSize) (hfree : ∃ s, slot ≤ s ∧ s < slot + n ∧ t s = none) :
    pickFree t random slot n ≠ 0 ∧ t (indexSlot (pickFree t random slot n)) = none := by
  induction n generalizing slot with
  | zero => obtain ⟨s, h1, h2, -⟩ := hfree; omega
  | succ n ih =>
    simp only [pickFree]
    by_cases hs : (t slot).isSome
    · rw [if_pos hs]
      obtain ⟨s, h1, h2, h3⟩ := hfree
      refine ih (by omega) ⟨s, ?_, by omega, h3⟩
      rcases Nat.eq_or_lt_of_le h1 with heq | hlt
      · rw [heq, h3] at hs; cases hs
      · exact hlt
    · rw [if_neg hs]
      have hnone : t slot = none := by simpa using hs
      have hin := indexSlot_in_slot random (show slot < indexTableSize by omega)
      split_ifs with h0
      · refine ⟨by decide, ?_⟩
        rw [h0] at hin
        rw [show indexSlot (BitVec.ofNat 32 indexTableSize) = indexSlot 0 by decide, hin, hnone]
      · exact ⟨h0, by rw [hin, hnone]⟩

/-- While a slot is free, an index that is not zero is picked, and its slot was free. -/
theorem pickRandomIndex_spec {t : IndexTable} (draw : ℕ → BitVec 32)
    (hfree : ∃ s < indexTableSize, t s = none) :
    pickRandomIndex t draw ≠ 0 ∧ t (indexSlot (pickRandomIndex t draw)) = none := by
  unfold pickRandomIndex
  cases hp : pickRandom t draw 0 4096 with
  | some idx => exact pickRandom_some hp
  | none =>
    obtain ⟨s, hs, hnone⟩ := hfree
    exact pickFree_spec _ (by simp) ⟨s, Nat.zero_le s, by simpa using hs, hnone⟩

theorem indexTableDelete_free {t : IndexTable} (idx : BitVec 32)
    (hfree : ∃ s < indexTableSize, t s = none) :
    ∃ s < indexTableSize, indexTableDelete t idx s = none := by
  obtain ⟨s, hs, hnone⟩ := hfree
  refine ⟨s, hs, ?_⟩
  unfold indexTableDelete
  split_ifs
  · exact hnone
  · by_cases h : s = indexSlot idx
    · rw [h, Function.update_self]
    · rw [Function.update_of_ne h, hnone]
  · exact hnone

theorem indexTableLookup_update (t : IndexTable) {e : IndexEntry} {idx : BitVec 32}
    (h : e.index = idx) :
    indexTableLookup (Function.update t (indexSlot idx) (some e)) idx = some e := by
  simp [indexTableLookup, h]

/-! ### Transcripts -/

/-- The secret two private keys agree on. -/
def Crypto.shared (a b : List Byte) : List Byte := (wgDh c a (wgGeneratePublicKey c b)).getD []

section Agree

variable {c} {a b : List Byte}

theorem Crypto.Agree.dh (h : c.Agree a b) :
    wgDh c a (wgGeneratePublicKey c b) = some (c.shared a b) := by
  obtain ⟨s, hs, -, -⟩ := h
  rw [Crypto.shared, wgDh, wgGeneratePublicKey, hs]
  rfl

theorem Crypto.Agree.dh' (h : c.Agree a b) :
    wgDh c b (wgGeneratePublicKey c a) = some (c.shared a b) := by
  obtain ⟨s, hs, hs', -⟩ := h
  rw [Crypto.shared, wgDh, wgDh, wgGeneratePublicKey, wgGeneratePublicKey, hs, hs']
  rfl

theorem Crypto.Agree.ne (h : c.Agree a b) : c.shared a b ≠ zeroKey := by
  obtain ⟨s, hs, -, hne⟩ := h
  rw [Crypto.shared, wgDh, wgGeneratePublicKey, hs]
  exact hne

theorem Crypto.Agree.symm (h : c.Agree a b) : c.Agree b a := by
  obtain ⟨s, hs, hs', hne⟩ := h
  exact ⟨s, hs', hs, hne⟩

theorem Crypto.Agree.shared_comm (h : c.Agree a b) : c.shared b a = c.shared a b :=
  Option.some.inj (h.symm.dh.symm.trans h.dh')

end Agree

/-- What the two sides have computed when the initiation is complete. -/
structure InitiationTranscript where
  staticEnc : List Byte
  timestampEnc : List Byte
  hash : List Byte
  chainKey : List Byte

/-- The first message, from the static private keys `i` of the initiator and `r` of the responder,
the ephemeral `e` and the timestamp. -/
def initiationTranscript (i r e ts : List Byte) : InitiationTranscript :=
  let pub := wgGeneratePublicKey c e
  let hash := mixHash c (mixHash c (noiseInitHash c) (wgGeneratePublicKey c r)) pub
  let ck1 := wgKdf2 c (mixKey c (noiseInitChainKey c) pub) (c.shared e r)
  let staticEnc := c.aeadEncrypt ck1.2 zeroNonce (wgGeneratePublicKey c i) hash
  let hash := mixHash c hash staticEnc
  let ck2 := wgKdf2 c ck1.1 (c.shared i r)
  let timestampEnc := c.aeadEncrypt ck2.2 zeroNonce ts hash
  ⟨staticEnc, timestampEnc, mixHash c hash timestampEnc, ck2.1⟩

/-- What the two sides have computed when the response is complete. -/
structure ResponseTranscript where
  emptyEnc : List Byte
  hash : List Byte
  chainKey : List Byte

/-- The second message, from the hash and the chain key after the first, the initiator's private
keys `i` and `e`, the responder's ephemeral `f` and the preshared key. -/
def responseTranscript (hash chainKey i e f psk : List Byte) : ResponseTranscript :=
  let pub := wgGeneratePublicKey c f
  let ck := wgKdf3 c (mixKey c (mixKey c (mixKey c chainKey pub) (c.shared f e)) (c.shared f i)) psk
  let hash := mixHash c (mixHash c hash pub) ck.2.1
  let emptyEnc := c.aeadEncrypt ck.2.2 zeroNonce [] hash
  ⟨emptyEnc, mixHash c hash emptyEnc, ck.1⟩

/-- An initiation as its transcript has it. -/
structure IsInitiation (i r e ts : List Byte) (msg : MsgInitiation) : Prop where
  ephemeral_eq : msg.ephemeral = wgGeneratePublicKey c e
  static_eq : msg.staticEnc = (initiationTranscript c i r e ts).staticEnc
  timestamp_eq : msg.timestampEnc = (initiationTranscript c i r e ts).timestampEnc

/-! ### Configured peers -/

/-- The device is set up, and `peer`, the holder of the private key `r`, is configured with the
preshared key `psk`. -/
structure Paired (dev : Device) (peer : Peer) (r psk : List Byte) : Prop where
  public_eq : dev.publicKey = wgGeneratePublicKey c dev.privateKey
  initHash_eq : dev.noiseInitHash = noiseInitHash c
  initChainKey_eq : dev.noiseInitChainKey = noiseInitChainKey c
  peer_eq : peer.publicKey = wgGeneratePublicKey c r
  remote_eq : peer.handshake.remoteStatic = wgGeneratePublicKey c r
  psk_eq : peer.handshake.psk = psk
  static_eq : peer.handshake.precomputedStaticStatic = c.shared dev.privateKey r
  agree : c.Agree dev.privateKey r

theorem Paired.static_ne {dev : Device} {peer : Peer} {r psk : List Byte}
    (h : Paired c dev peer r psk) : peer.handshake.precomputedStaticStatic ≠ zeroKey := by
  rw [h.static_eq]
  exact h.agree.ne

/-! ### The four messages -/

section Messages

variable (env : Env) (x : Ctx)

/-- The ephemeral private key that the next draw gives. -/
def Ctx.ephemeral : List Byte := wgGeneratePrivateKey (env.draw x.draws).bytes.toList

/-- The timestamp that the next draw gives. -/
def Ctx.timestamp : List Byte := (env.draw x.draws).timestamp.toList

/-- The index that replaces the one of the peer's handshake. -/
def Ctx.newIndex : BitVec 32 :=
  pickRandomIndex (indexTableDelete x.dev.indexTable x.peer.handshake.localIndex)
    (env.draw x.draws).index

/-- The index table with that index in it. -/
def Ctx.newTable : IndexTable :=
  Function.update (indexTableDelete x.dev.indexTable x.peer.handshake.localIndex)
    (indexSlot (x.newIndex env))
    (some ⟨.handshake, x.newIndex env, x.peer.addr, some x.peer.addr, none⟩)

theorem newIndex_ne (hfree : ∃ s < indexTableSize, x.dev.indexTable s = none) :
    x.newIndex env ≠ 0 :=
  (pickRandomIndex_spec _ (indexTableDelete_free _ hfree)).1

theorem indexTableNewForHandshake_eq (hfree : ∃ s < indexTableSize, x.dev.indexTable s = none) :
    indexTableNewForHandshake (indexTableDelete x.dev.indexTable x.peer.handshake.localIndex)
      x.peer.addr (env.draw x.draws).index = (x.newTable env, x.newIndex env) :=
  if_pos (newIndex_ne env x hfree)

/-- The initiation that a call creates, before its MACs. -/
def Ctx.initiationBody (r : List Byte) : MsgInitiation :=
  let tr := initiationTranscript c x.dev.privateKey r (x.ephemeral env) (x.timestamp env)
  ⟨x.newIndex env, wgGeneratePublicKey c (x.ephemeral env), tr.staticEnc, tr.timestampEnc, [], []⟩

/-- The initiation that a call creates. -/
def Ctx.initiation (r : List Byte) : MsgInitiation :=
  let macs := cookieAddMacs c x.peer.cookie (x.initiationBody c env r).beforeMac1 env.now
  { x.initiationBody c env r with mac1 := macs.2.1, mac2 := macs.2.2 }

/-- What creating an initiation leaves. -/
def Ctx.initiated (r : List Byte) : Ctx :=
  let tr := initiationTranscript c x.dev.privateKey r (x.ephemeral env) (x.timestamp env)
  { x with
    draws := x.draws + 1
    dev := { x.dev with indexTable := x.newTable env }
    peer := { x.peer with
      cookie := (cookieAddMacs c x.peer.cookie (x.initiationBody c env r).beforeMac1 env.now).1
      handshake := { x.peer.handshake with
        localEphemeralPriv := x.ephemeral env
        localEphemeralPub := wgGeneratePublicKey c (x.ephemeral env)
        hash := tr.hash
        chainKey := tr.chainKey
        localIndex := x.newIndex env
        state := .initiationCreated } } }

theorem isInitiation_initiation (r : List Byte) :
    IsInitiation c x.dev.privateKey r (x.ephemeral env) (x.timestamp env)
      (x.initiation c env r) := ⟨rfl, rfl, rfl⟩

variable {c env x} {dev : Device} {peer : Peer} {i r e f psk : List Byte}

/-- Creating an initiation succeeds while an index is free. -/
theorem noiseCreateInitiation_eq (hpair : Paired c x.dev x.peer r psk)
    (hfree : ∃ s < indexTableSize, x.dev.indexTable s = none)
    (hes : c.Agree (x.ephemeral env) r) :
    noiseCreateInitiation c env x = (x.initiated c env r, some (x.initiation c env r)) := by
  have hdh := hes.dh
  rw [← hpair.remote_eq, Ctx.ephemeral] at hdh
  simp only [noiseCreateInitiation, Ctx.draw, hdh, if_neg hpair.static_ne,
    indexTableNewForHandshake_eq env x hfree]
  rw [if_neg (newIndex_ne env x hfree)]
  simp only [hpair.initHash_eq, hpair.initChainKey_eq, hpair.remote_eq, hpair.public_eq,
    hpair.static_eq, Ctx.initiated, Ctx.initiation, Ctx.initiationBody, initiationTranscript,
    Ctx.ephemeral, Ctx.timestamp, Ctx.setIndexTable]

/-- What accepting an initiation with the timestamp `ts` leaves of the peer. -/
def Peer.consumed (env : Env) (peer : Peer) (tr : InitiationTranscript)
    (ts : List Byte) (msg : MsgInitiation) : Peer :=
  { peer with
    handshake := { peer.handshake with
      hash := tr.hash
      chainKey := tr.chainKey
      remoteEphemeral := msg.ephemeral
      remoteIndex := msg.sender
      lastTimestamp := ts
      lastInitiationConsumptionMs :=
        if peer.handshake.lastInitiationConsumptionMs < env.now then env.now
        else peer.handshake.lastInitiationConsumptionMs
      state := .initiationConsumed } }

/-- An honest initiation is refused as a replay or a flood, or it is accepted. -/
theorem noiseConsumeInitiation_eq (hae : c.AeadRoundTrip) (hpair : Paired c dev peer i psk)
    (hpeer : deviceFindPeer dev (wgGeneratePublicKey c i) = some peer) {ts : List Byte}
    {msg : MsgInitiation} (hmsg : IsInitiation c i dev.privateKey e ts msg)
    (hes : c.Agree e dev.privateKey) :
    noiseConsumeInitiation c env dev msg =
      if !tai64nAfter ts peer.handshake.lastTimestamp ∨
          env.now - peer.handshake.lastInitiationConsumptionMs ≤ handshakeInitRateMs then none
      else some (peer.consumed env (initiationTranscript c i dev.privateKey e ts) ts msg) := by
  have hss := hpair.static_ne
  rw [hpair.static_eq, hpair.agree.symm.shared_comm] at hss
  simp only [noiseConsumeInitiation, hmsg.ephemeral_eq, hmsg.static_eq, hmsg.timestamp_eq, hes.dh',
    hpair.initHash_eq, hpair.initChainKey_eq, hpair.public_eq, initiationTranscript]
  rw [hae]
  simp only [hpeer, hpair.static_eq, hpair.agree.symm.shared_comm, if_neg hss]
  rw [hae]
  by_cases hrefuse : (!tai64nAfter ts peer.handshake.lastTimestamp) = true ∨
      env.now - peer.handshake.lastInitiationConsumptionMs ≤ handshakeInitRateMs
  · simp only [if_pos hrefuse]
  · have hafter : tai64nAfter ts peer.handshake.lastTimestamp = true := by
      by_contra hn
      exact hrefuse (Or.inl (by simpa using hn))
    simp only [if_neg hrefuse]
    simp only [hafter, if_true, Peer.consumed, hmsg.ephemeral_eq, hpair.static_eq,
      hpair.agree.symm.shared_comm]

/-- The response that a call creates, before its MACs. -/
def Ctx.responseBody (c : Crypto) (env : Env) (x : Ctx) (i e psk : List Byte) : MsgResponse :=
  let hs := x.peer.handshake
  ⟨x.newIndex env, hs.remoteIndex, wgGeneratePublicKey c (x.ephemeral env),
    (responseTranscript c hs.hash hs.chainKey i e (x.ephemeral env) psk).emptyEnc, [], []⟩

/-- The response that a call creates. -/
def Ctx.response (c : Crypto) (env : Env) (x : Ctx) (i e psk : List Byte) : MsgResponse :=
  let macs := cookieAddMacs c x.peer.cookie (x.responseBody c env i e psk).beforeMac1 env.now
  { x.responseBody c env i e psk with mac1 := macs.2.1, mac2 := macs.2.2 }

/-- What creating a response leaves. -/
def Ctx.responded (c : Crypto) (env : Env) (x : Ctx) (i e psk : List Byte) : Ctx :=
  let hs := x.peer.handshake
  let tr := responseTranscript c hs.hash hs.chainKey i e (x.ephemeral env) psk
  { x with
    draws := x.draws + 1
    dev := { x.dev with indexTable := x.newTable env }
    peer := { x.peer with
      cookie := (cookieAddMacs c x.peer.cookie (x.responseBody c env i e psk).beforeMac1 env.now).1
      handshake := { hs with
        localEphemeralPriv := x.ephemeral env
        localEphemeralPub := wgGeneratePublicKey c (x.ephemeral env)
        hash := tr.hash
        chainKey := tr.chainKey
        localIndex := x.newIndex env
        state := .responseCreated } } }

/-- Answering a consumed initiation succeeds while an index is free. -/
theorem noiseCreateResponse_eq (hpair : Paired c x.dev x.peer i psk)
    (hstate : x.peer.handshake.state = .initiationConsumed)
    (hremote : x.peer.handshake.remoteEphemeral = wgGeneratePublicKey c e)
    (hfree : ∃ s < indexTableSize, x.dev.indexTable s = none)
    (hee : c.Agree (x.ephemeral env) e) (hse : c.Agree (x.ephemeral env) i) :
    noiseCreateResponse c env x = (x.responded c env i e psk, some (x.response c env i e psk)) := by
  have hdh1 := hee.dh
  have hdh2 := hse.dh
  rw [← hremote, Ctx.ephemeral] at hdh1
  rw [← hpair.remote_eq, Ctx.ephemeral] at hdh2
  simp only [noiseCreateResponse, hstate, ne_eq, not_true_eq_false, if_false, Ctx.draw,
    indexTableNewForHandshake_eq env x hfree]
  rw [if_neg (newIndex_ne env x hfree)]
  simp only [hdh1, hdh2, hpair.psk_eq, Ctx.responded, Ctx.response, Ctx.responseBody,
    responseTranscript, Ctx.ephemeral, Ctx.setIndexTable]

/-- What accepting a response with the ephemeral `f` leaves of the peer. -/
def Peer.responseConsumed (peer : Peer) (tr : ResponseTranscript) (msg : MsgResponse) : Peer :=
  { peer with
    handshake := { peer.handshake with
      hash := tr.hash
      chainKey := tr.chainKey
      remoteIndex := msg.sender
      state := .responseConsumed } }

/-- A response that continues the transcript of the receiver's initiation is accepted. -/
theorem noiseConsumeResponse_eq (hae : c.AeadRoundTrip) (hpair : Paired c dev peer r psk)
    {msg : MsgResponse} {entry : IndexEntry}
    (hentry : indexTableLookup dev.indexTable msg.receiver = some entry)
    (htype : entry.type = .handshake) (hhs : entry.handshake.bind dev.peerAt = some peer)
    (hstate : peer.handshake.state = .initiationCreated)
    (hpriv : peer.handshake.localEphemeralPriv = e)
    (hpub : msg.ephemeral = wgGeneratePublicKey c f)
    (hempty : msg.emptyEnc = (responseTranscript c peer.handshake.hash peer.handshake.chainKey
      dev.privateKey e f psk).emptyEnc)
    (hee : c.Agree f e) (hse : c.Agree f dev.privateKey) :
    noiseConsumeResponse c dev msg = some (peer.responseConsumed
      (responseTranscript c peer.handshake.hash peer.handshake.chainKey dev.privateKey e f psk)
      msg) := by
  simp only [noiseConsumeResponse, hentry, htype, ne_eq, not_true_eq_false, if_false, hhs, hstate,
    hpriv, hpub, hee.dh', hse.dh', hempty, responseTranscript, hpair.psk_eq]
  rw [hae]
  simp only [Peer.responseConsumed, hpriv, hpair.psk_eq]

end Messages

/-! ### The session -/

theorem indexTableSwapKeypair_snd (t : IndexTable) (idx : BitVec 32) (kp : Keypair)
    (h : kp.localIndex = idx) : (indexTableSwapKeypair t idx kp).2 = kp := by
  unfold indexTableSwapKeypair
  split_ifs
  · rfl
  · cases indexTableLookup t idx with
    | none => rfl
    | some e => show { kp with localIndex := idx } = kp; rw [← h]

/-- The peer after the rotation. -/
theorem rotateKeypairs_snd (t : IndexTable) (peer : Peer) (kp : Keypair) :
    (rotateKeypairs t peer kp).2 =
      if kp.isInitiator then
        { peer with
          prevKeypair := peer.nextKeypair.or peer.currentKeypair, currentKeypair := some kp,
          nextKeypair := none }
      else { peer with nextKeypair := some kp, prevKeypair := none } := by
  unfold rotateKeypairs
  cases kp.isInitiator <;> cases peer.nextKeypair <;> rfl

section Session

variable {c} {env : Env} {x : Ctx}

/-- The keypair that a session start on `x` derives. -/
def Ctx.session (c : Crypto) (env : Env) (x : Ctx) : Keypair :=
  sessionKeypair c x.peer.handshake x.dev.nextAddr env.now

/-- The slots and the index table after a session start. -/
def Ctx.rotated (c : Crypto) (env : Env) (x : Ctx) : IndexTable × Peer :=
  rotateKeypairs
    (indexTableSwapKeypair x.dev.indexTable x.peer.handshake.localIndex (x.session c env)).1
    { x.peer with
      handshake := noiseHandshakeClear x.peer.handshake, lastHandshakeNs := env.clockNs }
    (x.session c env)

/-- The session start in both roles: the keypair is the one derived from the handshake, the
handshake is cleared and the slots are rotated. -/
theorem noiseBeginSession_eq
    (h : x.peer.handshake.state = .responseConsumed ∨ x.peer.handshake.state = .responseCreated) :
    noiseBeginSession c env x =
      ({ x with
          dev := { x.dev with
            indexTable := (x.rotated c env).1, nextAddr := x.dev.nextAddr + 1 }
          peer := (x.rotated c env).2 },
        true) := by
  have hswap := indexTableSwapKeypair_snd x.dev.indexTable x.peer.handshake.localIndex
    (x.session c env) rfl
  have hstate : ¬ (x.peer.handshake.state ≠ .responseConsumed ∧
      x.peer.handshake.state ≠ .responseCreated) := by
    rcases h with h | h <;> simp [h]
  simp only [Ctx.session] at hswap
  simp only [noiseBeginSession, if_neg hstate, hswap, Ctx.rotated, Ctx.session]

theorem rotated_frame (c : Crypto) (env : Env) (x : Ctx) :
    ∃ cur next prev, (x.rotated c env).2 = { x.peer with
      handshake := noiseHandshakeClear x.peer.handshake, lastHandshakeNs := env.clockNs
      currentKeypair := cur, nextKeypair := next, prevKeypair := prev } := by
  rw [Ctx.rotated, rotateKeypairs_snd]
  split_ifs
  · exact ⟨_, _, _, rfl⟩
  · exact ⟨_, _, _, rfl⟩

theorem rotated_initiator (h : x.peer.handshake.state = .responseConsumed) :
    (x.rotated c env).2 = { x.peer with
      handshake := noiseHandshakeClear x.peer.handshake, lastHandshakeNs := env.clockNs
      prevKeypair := x.peer.nextKeypair.or x.peer.currentKeypair
      currentKeypair := some (x.session c env)
      nextKeypair := none } := by
  have hrole : (x.session c env).isInitiator = true := by simp [Ctx.session, sessionKeypair, h]
  rw [Ctx.rotated, rotateKeypairs_snd, if_pos hrole]

theorem rotated_responder (h : x.peer.handshake.state = .responseCreated) :
    (x.rotated c env).2 = { x.peer with
      handshake := noiseHandshakeClear x.peer.handshake, lastHandshakeNs := env.clockNs
      nextKeypair := some (x.session c env)
      prevKeypair := none } := by
  have hrole : ¬ (x.session c env).isInitiator = true := by simp [Ctx.session, sessionKeypair, h]
  rw [Ctx.rotated, rotateKeypairs_snd, if_neg hrole]

end Session

/-- The keypairs of the two ends of a session. -/
def Mirrors (a b : Keypair) : Prop :=
  a.sendKey = b.recvKey ∧ a.recvKey = b.sendKey ∧ a.remoteIndex = b.localIndex ∧
    b.remoteIndex = a.localIndex

instance (a b : Keypair) : Decidable (Mirrors a b) := inferInstanceAs (Decidable (_ ∧ _ ∧ _ ∧ _))

/-- Handshakes that agree on the chain key and on the indices give mirrored keypairs. -/
theorem mirrors_sessionKeypair {hsA hsB : Handshake} (hA : hsA.state = .responseConsumed)
    (hB : hsB.state = .responseCreated) (hck : hsA.chainKey = hsB.chainKey)
    (hAB : hsA.remoteIndex = hsB.localIndex) (hBA : hsB.remoteIndex = hsA.localIndex)
    (addrA addrB : ℕ) (nowA nowB : BitVec 64) :
    Mirrors (sessionKeypair c hsA addrA nowA) (sessionKeypair c hsB addrB nowB) := by
  simp [Mirrors, sessionKeypair, hA, hB, hck, hAB, hBA]

theorem Device.peerAt_store {dev : Device} {old peer : Peer}
    (h : dev.peerAt peer.addr = some old) : (dev.store peer).peerAt peer.addr = some peer := by
  unfold Device.peerAt Device.store at *
  revert h
  induction dev.peers with
  | nil => simp
  | cons p ps ih =>
    by_cases hp : p.addr = peer.addr
    · simp [hp]
    · simpa [hp] using ih

/-- The handshake of `A` with `B` runs through: each of the six calls succeeds on what the ones
before it left, the session keys and indices are mirrored, and both handshakes are cleared. -/
def HandshakeCompletes (envA envB envA' : Env) (A B : Device) (peerB : Peer) : Prop :=
  ∃ xA msg, noiseCreateInitiation c envA (Ctx.start A peerB) = (xA, some msg) ∧
  ∃ peerA', noiseConsumeInitiation c envB B msg = some peerA' ∧
  ∃ xB resp, noiseCreateResponse c envB (Ctx.start B peerA') = (xB, some resp) ∧
  ∃ xB', noiseBeginSession c envB xB = (xB', true) ∧
  ∃ peerB', noiseConsumeResponse c xA.finish resp = some peerB' ∧
  ∃ xA', noiseBeginSession c envA' (Ctx.start xA.finish peerB') = (xA', true) ∧
  ∃ kpA kpB, xA'.peer.currentKeypair = some kpA ∧ xB'.peer.nextKeypair = some kpB ∧
    Mirrors kpA kpB ∧
    xA'.peer.handshake.state = .zeroed ∧ xB'.peer.handshake.state = .zeroed

/-- **An undisturbed handshake yields mirrored session keys.**  The devices `A` and `B` are
configured as each other's peer under one preshared key, their keys agree on secrets that are not
zero, the timestamp drawn is newer than the last one `B` saw and outside the flood interval, and
both index tables have room. -/
theorem handshake_yields_mirrored_keys (hae : c.AeadRoundTrip) (envA envB envA' : Env)
    (A B : Device) (peerB peerA : Peer) (psk : List Byte)
    (hA : Paired c A peerB B.privateKey psk) (hB : Paired c B peerA A.privateKey psk)
    (hpeerB : A.peerAt peerB.addr = some peerB)
    (hpeerA : deviceFindPeer B A.publicKey = some peerA)
    (hfreeA : ∃ s < indexTableSize, A.indexTable s = none)
    (hfreeB : ∃ s < indexTableSize, B.indexTable s = none)
    (hes : c.Agree (wgGeneratePrivateKey (envA.draw 0).bytes.toList) B.privateKey)
    (hee : c.Agree (wgGeneratePrivateKey (envB.draw 0).bytes.toList)
      (wgGeneratePrivateKey (envA.draw 0).bytes.toList))
    (hse : c.Agree (wgGeneratePrivateKey (envB.draw 0).bytes.toList) A.privateKey)
    (hts : tai64nAfter (envA.draw 0).timestamp.toList peerA.handshake.lastTimestamp = true)
    (hflood : handshakeInitRateMs < envB.now - peerA.handshake.lastInitiationConsumptionMs) :
    HandshakeCompletes c envA envB envA' A B peerB := by
  rw [hA.public_eq] at hpeerA
  have hrefuse : ¬ ((!tai64nAfter ((Ctx.start A peerB).timestamp envA)
        peerA.handshake.lastTimestamp) = true ∨
      envB.now - peerA.handshake.lastInitiationConsumptionMs ≤ handshakeInitRateMs) := by
    rw [show tai64nAfter ((Ctx.start A peerB).timestamp envA) _ = true from hts]
    simpa using hflood
  have hmsg := isInitiation_initiation c envA (Ctx.start A peerB) B.privateKey
  refine ⟨_, _, noiseCreateInitiation_eq hA hfreeA hes, _,
    (noiseConsumeInitiation_eq hae hB hpeerA hmsg hes).trans (if_neg hrefuse), ?_⟩
  -- B answers the initiation it has just consumed
  set xA := (Ctx.start A peerB).initiated c envA B.privateKey
  set peerA' := peerA.consumed envB (initiationTranscript c A.privateKey B.privateKey
    ((Ctx.start A peerB).ephemeral envA) ((Ctx.start A peerB).timestamp envA))
    ((Ctx.start A peerB).timestamp envA)
    ((Ctx.start A peerB).initiation c envA B.privateKey)
  have hB' : Paired c B peerA' A.privateKey psk :=
    ⟨hB.public_eq, hB.initHash_eq, hB.initChainKey_eq, hB.peer_eq, hB.remote_eq, hB.psk_eq,
      hB.static_eq, hB.agree⟩
  refine ⟨_, _, noiseCreateResponse_eq (x := Ctx.start B peerA') hB' rfl rfl hfreeB hee hse, _,
    noiseBeginSession_eq (Or.inr rfl), ?_⟩
  -- A finds its handshake under the index that the response names
  have hA' : Paired c xA.finish xA.peer B.privateKey psk :=
    ⟨hA.public_eq, hA.initHash_eq, hA.initChainKey_eq, hA.peer_eq, hA.remote_eq, hA.psk_eq,
      hA.static_eq, hA.agree⟩
  have hstored : xA.finish.peerAt peerB.addr = some xA.peer :=
    Device.peerAt_store hpeerB
  refine ⟨_, noiseConsumeResponse_eq hae hA' (indexTableLookup_update _ rfl) rfl hstored rfl rfl rfl
    rfl hee hse, _, noiseBeginSession_eq (Or.inl rfl), ?_⟩
  rw [rotated_initiator rfl, rotated_responder rfl]
  refine ⟨_, _, rfl, rfl, ?_, rfl, rfl⟩
  apply mirrors_sessionKeypair <;> rfl

/-! ### Two devices that know each other -/

/-- Adding a peer to a device with a key configures it under the zero preshared key. -/
theorem paired_deviceAddPeer {dev : Device} {r : List Byte}
    (hpub : dev.publicKey = wgGeneratePublicKey c dev.privateKey)
    (hhash : dev.noiseInitHash = noiseInitHash c) (hck : dev.noiseInitChainKey = noiseInitChainKey c)
    (hnew : deviceFindPeer dev (wgGeneratePublicKey c r) = none) (hagree : c.Agree dev.privateKey r) :
    Paired c (deviceAddPeer c dev (wgGeneratePublicKey c r))
      (peerNew c dev (wgGeneratePublicKey c r)) r zeroKey := by
  have hdev : deviceAddPeer c dev (wgGeneratePublicKey c r) =
      { dev with
        peers := peerNew c dev (wgGeneratePublicKey c r) :: dev.peers
        nextAddr := dev.nextAddr + 1 } := by
    rw [deviceAddPeer, hnew]
    rfl
  rw [hdev]
  refine ⟨hpub, hhash, hck, rfl, rfl, rfl, ?_, hagree⟩
  show (wgDh c dev.privateKey (wgGeneratePublicKey c r)).getD zeroKey = _
  rw [hagree.dh]
  rfl

/-- A toy instance: keys add up to a shared secret, and a checksum of key, nonce and associated data
stands for the authentication tag. -/
def toyCrypto : Crypto where
  blake2s outlen data key := List.replicate outlen ((data ++ key).foldl (fun s b => 3 * s + b) 1)
  scalarmultBase priv := priv
  scalarmult priv pub := some (1 :: List.zipWith (· + ·) priv pub)
  aeadEncrypt key nonce plaintext aad := (key ++ nonce ++ aad).foldl (· + ·) 0 :: plaintext
  aeadDecrypt key nonce ciphertext aad :=
    match ciphertext with
    | tag :: plaintext => if tag = (key ++ nonce ++ aad).foldl (· + ·) 0 then some plaintext else none
    | [] => none
  xaeadEncrypt key nonce plaintext aad := (key ++ nonce ++ aad).foldl (· + ·) 0 :: plaintext
  xaeadDecrypt key nonce ciphertext aad :=
    match ciphertext with
    | tag :: plaintext => if tag = (key ++ nonce ++ aad).foldl (· + ·) 0 then some plaintext else none
    | [] => none

theorem toyCrypto_aead : toyCrypto.AeadRoundTrip := by
  intro key nonce plaintext aad
  exact if_pos rfl

theorem toyCrypto_agree (a b : List Byte) : toyCrypto.Agree a b := by
  refine ⟨1 :: List.zipWith (· + ·) a b, rfl, ?_, ?_⟩
  · show some (1 :: List.zipWith (· + ·) b a) = _
    rw [List.zipWith_comm_of_comm (fun x y => BitVec.add_comm x y)]
  · intro h
    have h0 := congrArg List.head? h
    simp [zeroKey] at h0

/-- A device with the private key `priv` and one peer with the private key `remote`. -/
def toyDevice (priv remote : List Byte) : Device :=
  deviceAddPeer toyCrypto (noiseSetStaticKey toyCrypto (deviceInit toyCrypto) priv)
    (wgGeneratePublicKey toyCrypto remote)

/-- The peer of that device. -/
def toyPeer (priv remote : List Byte) : Peer :=
  peerNew toyCrypto (noiseSetStaticKey toyCrypto (deviceInit toyCrypto) priv)
    (wgGeneratePublicKey toyCrypto remote)

theorem toyDevice_paired (priv remote : List Byte) :
    Paired toyCrypto (toyDevice priv remote) (toyPeer priv remote) remote zeroKey :=
  paired_deviceAddPeer toyCrypto rfl rfl rfl rfl (toyCrypto_agree _ _)

/-- One second after the start, with fixed random values. -/
def toyEnv (seed : Byte) : Env where
  now := 1000
  clockNs := 0
  udpOk := true
  draw := fun n => ⟨Vector.replicate 32 (seed + BitVec.ofNat 8 n), fun k => BitVec.ofNat 32 (k + 7),
    0, Vector.ofFn fun i => if i.val = 0 then seed else 0⟩

theorem handshake_yields_mirrored_keys_toy :
    HandshakeCompletes toyCrypto (toyEnv 5) (toyEnv 6) (toyEnv 7)
      (toyDevice (List.replicate 32 1) (List.replicate 32 2))
      (toyDevice (List.replicate 32 2) (List.replicate 32 1))
      (toyPeer (List.replicate 32 1) (List.replicate 32 2)) :=
  handshake_yields_mirrored_keys toyCrypto toyCrypto_aead _ _ _ _ _ _
    (toyPeer (List.replicate 32 2) (List.replicate 32 1)) zeroKey
    (toyDevice_paired _ _) (toyDevice_paired _ _) rfl rfl ⟨0, by decide, rfl⟩ ⟨0, by decide, rfl⟩
    (toyCrypto_agree _ _) (toyCrypto_agree _ _) (toyCrypto_agree _ _) (by decide) (by decide)

end Wgx
