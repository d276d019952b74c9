import Wgx.Noise.Handshake

/-!
# What it takes to accept a handshake message

The consuming functions work on local copies: first they open the encrypted fields of the message
(`openInitiation`, `openResponse`), then they check what an accepted message must satisfy and write
the handshake.  The two equations of this file separate the parts.
-/

namespace Wgx

variable (c : Crypto)

/-- What the two encrypted fields of an initiation give: the peer, the timestamp, and the hash and
the chain key after the message. -/
structure OpenedInitiation where
  peer : Peer
  timestamp : List Byte
  hash : List Byte
  chainKey : List Byte

/-- Open both encrypted fields of an initiation; the second needs the peer that the first names. -/
def openInitiation (dev : Device) (msg : MsgInitiation) : Option OpenedInitiation :=
  let hash := mixHash c (mixHash c dev.noiseInitHash dev.publicKey) msg.ephemeral
  (wgDh c dev.privateKey msg.ephemeral).bind fun ss =>
    let ck1 := wgKdf2 c (mixKey c dev.noiseInitChainKey msg.ephemeral) ss
    (c.aeadDecrypt ck1.2 zeroNonce msg.staticEnc hash).bind fun peerPk =>
      (deviceFindPeer dev peerPk).bind fun peer =>
        let hash := mixHash c hash msg.staticEnc
        if peer.handshake.precomputedStaticStatic = zeroKey then none
        else
          let ck2 := wgKdf2 c ck1.1 peer.handshake.precomputedStaticStatic
          (c.aeadDecrypt ck2.2 zeroNonce msg.timestampEnc hash).map fun ts =>
            ⟨peer, ts, mixHash c hash msg.timestampEnc, ck2.1⟩

/-- The initiation is neither a replay nor one of a flood. -/
def OpenedInitiation.Acceptable (o : OpenedInitiation) (env : Env) : Prop :=
  tai64nAfter o.timestamp o.peer.handshake.lastTimestamp ∧
    handshakeInitRateMs < env.now - o.peer.handshake.lastInitiationConsumptionMs

instance (o : OpenedInitiation) (env : Env) : Decidable (o.Acceptable env) :=
  inferInstanceAs (Decidable (_ ∧ _))

/-- The peer with its handshake updated by an accepted initiation. -/
def OpenedInitiation.accepted (o : OpenedInitiation) (env : Env) (msg : MsgInitiation) : Peer :=
  { o.peer with
    handshake := { o.peer.handshake with
      hash := o.hash, chainKey := o.chainKey, remoteEphemeral := msg.ephemeral
      remoteIndex := msg.sender, lastTimestamp := o.timestamp
      lastInitiationConsumptionMs :=
        if o.peer.handshake.lastInitiationConsumptionMs < env.now then env.now
        else o.peer.handshake.lastInitiationConsumptionMs
      state := .initiationConsumed } }

/-- `noise_consume_initiation` opens both fields, then checks the timestamp and the rate. -/
theorem noiseConsumeInitiation_eq_open (env : Env) (dev : Device) (msg : MsgInitiation) :
    noiseConsumeInitiation c env dev msg =
      (openInitiation c dev msg).bind fun o =>
        if o.Acceptable env then some (o.accepted env msg) else none := by
  simp only [noiseConsumeInitiation, openInitiation]
  cases wgDh c dev.privateKey msg.ephemeral with
  | none => rfl
  | some ss =>
    simp only [Option.bind_some]
    cases c.aeadDecrypt (wgKdf2 c (mixKey c dev.noiseInitChainKey msg.ephemeral) ss).2 zeroNonce
        msg.staticEnc (mixHash c (mixHash c dev.noiseInitHash dev.publicKey) msg.ephemeral) with
    | none => rfl
    | some peerPk =>
      simp only [Option.bind_some]
      cases deviceFindPeer dev peerPk with
      | none => rfl
      | some peer =>
        simp only [Option.bind_some]
        by_cases hstatic : peer.handshake.precomputedStaticStatic = zeroKey
        · rw [if_pos hstatic, if_pos hstatic]
          rfl
        · rw [if_neg hstatic, if_neg hstatic]
          cases c.aeadDecrypt _ zeroNonce msg.timestampEnc _ with
          | none => rfl
          | some ts =>
            simp only [Option.map_some, Option.bind_some, OpenedInitiation.Acceptable,
              OpenedInitiation.accepted]
            by_cases hts : tai64nAfter ts peer.handshake.lastTimestamp = true
            · by_cases hrate : env.now - peer.handshake.lastInitiationConsumptionMs ≤
                  handshakeInitRateMs
              · simp [hts, hrate, BitVec.not_lt.2 hrate]
              · simp [hts, hrate, BitVec.not_le.1 hrate]
            · simp [hts]

/-- Open the encrypted field of a response that answers the handshake of `peer`: the hash and the
chain key after the message. -/
def openResponse (dev : Device) (peer : Peer) (msg : MsgResponse) :
    Option (List Byte × List Byte) :=
  let hs := peer.handshake
  let hash := mixHash c hs.hash msg.ephemeral
  let chainKey := mixKey c hs.chainKey msg.ephemeral
  (wgDh c hs.localEphemeralPriv msg.ephemeral).bind fun ee =>
    (wgDh c dev.privateKey msg.ephemeral).bind fun se =>
      let ck := wgKdf3 c (mixKey c (mixKey c chainKey ee) se) hs.psk
      let hash := mixHash c hash ck.2.1
      (c.aeadDecrypt ck.2.2 zeroNonce msg.emptyEnc hash).map fun _ =>
        (mixHash c hash msg.emptyEnc, ck.1)

/-- The peer whose handshake the index of a response stands for. -/
def responseTarget (dev : Device) (receiver : BitVec 32) : Option Peer :=
  match indexTableLookup dev.indexTable receiver with
  | none => none
  | some entry => if entry.type = .handshake then entry.handshake.bind dev.peerAt else none

/-- `noise_consume_response` finds the handshake, which must wait for a response, and opens the
field. -/
theorem noiseConsumeResponse_eq_open (dev : Device) (msg : MsgResponse) :
    noiseConsumeResponse c dev msg =
      (responseTarget dev msg.receiver).bind fun peer =>
        if peer.handshake.state = .initiationCreated then
          (openResponse c dev peer msg).map fun o =>
            { peer with
              handshake := { peer.handshake with
                hash := o.1, chainKey := o.2, remoteIndex := msg.sender
                state := .responseConsumed } }
        else none := by
  unfold noiseConsumeResponse responseTarget
  cases indexTableLookup dev.indexTable msg.receiver with
  | none => rfl
  | some entry =>
    by_cases htype : entry.type = .handshake
    · simp only [ne_eq, htype, not_true_eq_false, if_false, if_true]
      cases entry.handshake.bind dev.peerAt with
      | none => rfl
      | some peer =>
        by_cases hstate : peer.handshake.state = .initiationCreated
        · simp only [hstate, not_true_eq_false, if_false, if_true, Option.bind_some, openResponse]
          cases wgDh c peer.handshake.localEphemeralPriv msg.ephemeral with
          | none => rfl
          | some ee =>
            cases wgDh c dev.privateKey msg.ephemeral with
            | none => rfl
            | some se =>
              simp only [Option.bind_some]
              cases c.aeadDecrypt _ zeroNonce msg.emptyEnc _ <;> rfl
        · simp only [hstate, not_false_eq_true, if_true, if_false, Option.bind_some]
    · simp only [ne_eq, htype, not_false_eq_true, if_true, if_false, Option.bind_none]

end Wgx
