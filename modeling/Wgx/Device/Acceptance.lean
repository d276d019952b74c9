import Wgx.Device.RoundTrip
import Wgx.Device.Turns
import Wgx.Lib.Checksum

/-!
# Accepted initiations are new

`noise_consume_initiation` accepts an initiation only if its timestamp is after the last one accepted
from the peer and the last acceptance is long enough ago.  Both notes survive everything else that
happens to the handshake: own initiations, session starts, expiry of the keys, new private keys.

* `tai64nAfter_iff`: the comparison of timestamps is the one of 96-bit big-endian numbers;
* `turned_notes`: only an acceptance changes the notes;
* `acceptances`: the initiations accepted from a peer during a run;
* `OpeningKeys`: what the device opens the initiations of a peer with, which together with the message
  determines the timestamp;
* `accepted_initiations_newer`: their timestamps increase, their times are apart, and no message is
  among them twice, unless it opens under two different sets of keys of the device.
-/

namespace Wgx

open Checksum (beWord)

/-! ### Timestamps -/

/-- `tai64n_after` compares timestamps as big-endian numbers. -/
theorem tai64nAfter_iff {a b : List Byte} (hlen : a.length = b.length) :
    tai64nAfter a b = true ↔ beWord b < beWord a := by
  unfold tai64nAfter
  induction a generalizing b with
  | nil =>
    cases b with
    | nil => simp [memcmpPos, beWord]
    | cons y bs => cases hlen
  | cons x as ih =>
    cases b with
    | nil => cases hlen
    | cons y bs =>
      have htail : as.length = bs.length := by simpa using hlen
      rw [Checksum.beWord_cons_lt_cons htail.symm, memcmpPos]
      by_cases hxy : x = y
      · subst hxy
        simp [ih htail]
      · simp [hxy, Ne.symm hxy]

/-! ### The notes -/

/-- What the handshake remembers of the last initiation it accepted. -/
def Clocks.notes (k : Clocks) : List Byte × BitVec 64 :=
  (k.lastTimestamp, k.lastInitiationConsumptionMs)

section Notes

variable {c : Crypto} {env : Env} {k k' : Clocks}

@[simp] theorem notes_udpSend (ep : Endpoint) (d : Datagram) :
    (k.udpSend env ep d).notes = k.notes := by
  unfold Clocks.udpSend
  split_ifs <;> rfl

@[simp] theorem notes_setTimer (kind : TimerKind) (due : Option ℕ) :
    (k.setTimer kind due).notes = k.notes := rfl

@[simp] theorem notes_startTimer (kind : TimerKind) (timeout : ℕ) :
    (k.startTimer env kind timeout).notes = k.notes := by
  unfold Clocks.startTimer
  split_ifs <;> rfl

theorem notes_handshakeBegun (h : HandshakeBegun env k k') : k'.notes = k.notes := by
  cases h with
  | failed => rfl
  | launched ep msg jitter =>
    rw [notes_startTimer, notes_udpSend]
    rfl

theorem notes_sends {I : Prop} {P : List Byte → Prop} (h : Sends c env I P k k') :
    k'.notes = k.notes := by
  refine h.induct (J := fun k' => k'.notes = k.notes) (fun k₁ k₂ hop hk => ?_) rfl
  rw [← hk]
  cases hop with
  | initiate hI hrate hbegun => exact notes_handshakeBegun hbegun
  | count =>
    unfold Clocks.countSend
    split <;> rfl
  | transport => rw [notes_startTimer, notes_udpSend]

theorem notes_initiatedHandshake {force : Bool} (h : InitiatedHandshake env force k k') :
    k'.notes = k.notes := by
  rcases h with ⟨-, -, rfl⟩ | ⟨-, h⟩
  · rfl
  · exact notes_handshakeBegun h

theorem notes_completeHandshake : (k.completeHandshake env).notes = k.notes := by
  unfold Clocks.completeHandshake
  split_ifs <;> rfl

theorem notes_dataReceived : (k.dataReceived env).notes = k.notes := by
  unfold Clocks.dataReceived
  split_ifs
  · exact notes_startTimer _ _
  · rfl
  · rfl

theorem notes_keepaliveReceived : k.keepaliveReceived.notes = k.notes := by
  unfold Clocks.keepaliveReceived
  split_ifs <;> rfl

theorem notes_calledBack {p : Peer} {kind : TimerKind} (h : CalledBack c env p k k' kind) :
    k'.notes = k.notes := by
  cases kind with
  | retransmitHandshake =>
    rcases h with rfl | ⟨k1, jitter, hbegun, rfl⟩
    · rw [notes_startTimer, notes_setTimer]
    · rw [notes_setTimer, notes_handshakeBegun hbegun]
  | sendKeepalive =>
    obtain ⟨k1, hsent, rfl⟩ := h
    rw [← notes_sends hsent]
    split_ifs <;> rfl
  | newHandshake => exact notes_initiatedHandshake h
  | zeroKeyMaterial =>
    rw [show k' = k.zeroKeyMaterial from h]
    rfl
  | persistentKeepalive =>
    obtain ⟨k1, hsent, rfl⟩ := h
    rw [← notes_sends hsent]
    split_ifs <;> rfl

/-- **Only an acceptance changes the notes.** -/
theorem turned_notes {p : Peer} {turn : PeerTurn} (hne : ∀ ts msg, turn ≠ .accepted ts msg)
    (h : Turned c env p k' turn) : k'.notes = p.found.notes := by
  cases turn with
  | sent pkt => exact notes_sends h
  | initiated force => exact notes_initiatedHandshake h
  | fired kind => exact (notes_calledBack h.2).trans (notes_setTimer kind none)
  | accepted ts msg => exact absurd rfl (hne ts msg)
  | completed =>
    obtain ⟨kp, -, -, hsends⟩ := h
    rw [notes_sends hsends, notes_completeHandshake]
    rfl
  | received kp plaintext =>
    simp only [Turned] at h
    split at h
    · obtain ⟨_, _, _, rfl⟩ := h
      rfl
    · obtain ⟨_, _, _, rfl⟩ := h
      exact notes_keepaliveReceived.trans notes_dataReceived
    · obtain ⟨_, _, _, rfl⟩ := h
      exact notes_dataReceived

/-- An acceptance notes down its timestamp and its time. -/
theorem accepted_notes {p : Peer} {ts : List Byte} {msg : MsgInitiation}
    (h : Turned c env p k' (.accepted ts msg)) : k'.notes = (p.found.consumed env ts).notes := by
  obtain ⟨-, -, rfl | ⟨src, resp, kp, -, -, hsends⟩⟩ := h
  · rfl
  · rw [notes_sends hsends, notes_completeHandshake]
    exact notes_udpSend (k := p.found.consumed env ts) src (.response resp)

end Notes

/-! ### Acceptances -/

/-- An initiation that was accepted, with its timestamp and the time of its acceptance. -/
structure Acceptance where
  timestamp : List Byte
  now : BitVec 64
  msg : MsgInitiation

/-- The acceptance that a turn is, if it is one. -/
def PeerStep.acceptance (s : PeerStep) : Option Acceptance :=
  match s.turn with
  | .accepted timestamp msg => some ⟨timestamp, s.env.now, msg⟩
  | _ => none

/-- The initiations accepted from the peer at `addr` during a run, oldest first. -/
def acceptances (c : Crypto) (addr : ℕ) (es : List LifeEvent) : List Acceptance :=
  (history c addr (deviceInit c) es).filterMap PeerStep.acceptance

/-- The second initiation is newer than the first, and was accepted long enough after it. -/
def Acceptance.Newer (a b : Acceptance) : Prop :=
  beWord a.timestamp < beWord b.timestamp ∧ beWord b.timestamp < 2 ^ 96 ∧
    a.now.toNat + handshakeInitRateMs.toNat < b.now.toNat

/-- A ciphertext that opens is `WG_AEAD_TAG_LEN` bytes longer than what it opens to. -/
def Crypto.AeadShrinks (c : Crypto) : Prop :=
  ∀ key nonce ciphertext aad p, c.aeadDecrypt key nonce ciphertext aad = some p →
    ciphertext.length = p.length + wgAeadTagLen

/-- What a device opens the initiations of a peer with: all that `noise_consume_initiation` reads
besides the message, until it has the timestamp. -/
structure OpeningKeys where
  noiseInitHash : List Byte
  noiseInitChainKey : List Byte
  privateKey : List Byte
  publicKey : List Byte
  staticStatic : List Byte
  deriving DecidableEq

/-- The keys for the peer at `addr`. -/
def Device.openingKeys (dev : Device) (addr : ℕ) : Option OpeningKeys :=
  (dev.peerAt addr).map fun p => ⟨dev.noiseInitHash, dev.noiseInitChainKey, dev.privateKey,
    dev.publicKey, p.handshake.precomputedStaticStatic⟩

/-- The timestamp in an initiation, if both encrypted fields open under the keys. -/
def OpeningKeys.timestampOf (c : Crypto) (keys : OpeningKeys) (msg : MsgInitiation) :
    Option (List Byte) :=
  let hash := mixHash c (mixHash c keys.noiseInitHash keys.publicKey) msg.ephemeral
  (wgDh c keys.privateKey msg.ephemeral).bind fun ss =>
    let ck1 := wgKdf2 c (mixKey c keys.noiseInitChainKey msg.ephemeral) ss
    (c.aeadDecrypt ck1.2 zeroNonce msg.staticEnc hash).bind fun _ =>
      c.aeadDecrypt (wgKdf2 c ck1.1 keys.staticStatic).2 zeroNonce msg.timestampEnc
        (mixHash c hash msg.staticEnc)

/-- No initiation that the device receives opens under two different sets of keys that it has for the
peer at `addr` during the run.  A run in which it has only one is `keysApart_of_one`. -/
def KeysApart (c : Crypto) (addr : ℕ) (es : List LifeEvent) : Prop :=
  ∀ pre pre' keys keys' env fuel src msg, pre <+: es → pre' <+: es →
    (lifeRun c (deviceInit c) pre).openingKeys addr = some keys →
    (lifeRun c (deviceInit c) pre').openingKeys addr = some keys' →
    .device (.recv env fuel src (.initiation msg)) ∈ es →
    (keys.timestampOf c msg).isSome → (keys'.timestampOf c msg).isSome → keys = keys'

theorem keysApart_of_one {c : Crypto} {addr : ℕ} {es : List LifeEvent} {keys : OpeningKeys}
    (h : ∀ pre ∈ es.inits, ∀ keys' ∈ (lifeRun c (deviceInit c) pre).openingKeys addr, keys' = keys) :
    KeysApart c addr es := by
  intro pre pre' k k' env fuel src msg hpre hpre' hk hk' _ _ _
  rw [h pre ((List.mem_inits _ _).2 hpre) k hk, h pre' ((List.mem_inits _ _).2 hpre') k' hk']

/-- A datagram that is an initiation has the size of one: the encrypted timestamp takes 28 bytes. -/
def LifeEvent.WellSized : LifeEvent → Prop
  | .device (.recv _ _ _ (.initiation msg)) => msg.timestampEnc.length = 28
  | _ => True

instance (e : LifeEvent) : Decidable e.WellSized := by
  unfold LifeEvent.WellSized
  split <;> infer_instance

section Acceptances

variable {c : Crypto} {hs : List PeerStep} {k : Clocks}

theorem opened_of_acceptedInitiation {env : Env} {dev : Device} {src : Endpoint}
    {msg : MsgInitiation} {p : Peer} (hdev : DeviceInv dev)
    (h : acceptedInitiation c env dev src msg = some p) :
    ∃ keys, dev.openingKeys p.addr = some keys ∧
      keys.timestampOf c msg = some p.handshake.lastTimestamp := by
  simp only [acceptedInitiation] at h
  split_ifs at h
  rw [noiseConsumeInitiation_eq_open] at h
  obtain ⟨o, ho, h⟩ := Option.bind_eq_some_iff.1 h
  split_ifs at h
  cases h
  simp only [openInitiation, Option.bind_eq_some_iff] at ho
  obtain ⟨ss, hss, pk, hpk, peer, hpeer, ho⟩ := ho
  split_ifs at ho
  obtain ⟨ts, hts, rfl⟩ := Option.map_eq_some_iff.1 ho
  have hat := Device.peerAt_of_mem hdev.nodup (Device.mem_of_findPeer hpeer).1
  refine ⟨_, congrArg (Option.map _) hat, ?_⟩
  simp only [OpeningKeys.timestampOf, hss, hpk, Option.bind_some]
  exact hts

/-- An accepted timestamp is what the message opens to under the keys of the device. -/
theorem opened_of_peerStepOf {dev : Device} {e : LifeEvent} {s : PeerStep} {a : Acceptance}
    (hdev : DeviceInv dev) (hs : peerStepOf c dev e = some s) (ha : s.acceptance = some a) :
    (∃ env fuel src, e = .device (.recv env fuel src (.initiation a.msg))) ∧
      ∃ keys, dev.openingKeys s.before.addr = some keys ∧
        keys.timestampOf c a.msg = some a.timestamp := by
  obtain ⟨⟨env, addr, turn⟩, hturn, hs⟩ := Option.bind_eq_some_iff.1 hs
  obtain ⟨p, hp, rfl⟩ := Option.map_eq_some_iff.1 hs
  have haddr : p.addr = addr := (Device.mem_of_peerAt hp).2
  simp only [PeerStep.acceptance] at ha
  split at ha
  next ts msg =>
    cases ha
    cases e with
    | set env stack data => cases hturn
    | device e =>
      cases e with
      | recv env fuel src d =>
        simp only [turnOf] at hturn
        split_ifs at hturn
        obtain ⟨⟨a, turn⟩, hrecv, heq⟩ := Option.map_eq_some_iff.1 hturn
        cases heq
        cases d with
        | initiation msg' =>
          obtain ⟨q, hq, heq⟩ := Option.map_eq_some_iff.1 hrecv
          cases heq
          rw [haddr]
          exact ⟨⟨env, fuel, src, rfl⟩, opened_of_acceptedInitiation hdev hq⟩
        | response msg' =>
          obtain ⟨q, -, heq⟩ := Option.map_eq_some_iff.1 hrecv
          cases heq
        | cookieReply msg' => cases hrecv
        | transport msg' =>
          obtain ⟨q, -, heq⟩ := Option.map_eq_some_iff.1 hrecv
          cases heq
      | timer env addr kind =>
        obtain ⟨q, -, hturn⟩ := Option.bind_eq_some_iff.1 hturn
        split_ifs at hturn
        cases hturn
      | _ => cases hturn
  · cases ha

theorem OpeningKeys.opens {keys : OpeningKeys} {msg : MsgInitiation} {ts : List Byte}
    (h : keys.timestampOf c msg = some ts) :
    ∃ key aad, c.aeadDecrypt key zeroNonce msg.timestampEnc aad = some ts := by
  simp only [timestampOf, Option.bind_eq_some_iff] at h
  obtain ⟨ss, -, pk, -, hts⟩ := h
  exact ⟨_, _, hts⟩

/-- What the notes say about the acceptances of a life. -/
structure NotesInv (hs : List PeerStep) (k : Clocks) : Prop where
  width : k.lastTimestamp.length = 12
  newer : (hs.filterMap PeerStep.acceptance).Pairwise Acceptance.Newer
  last : ∀ a ∈ hs.filterMap PeerStep.acceptance, beWord a.timestamp ≤ beWord k.lastTimestamp ∧
    a.now.toNat ≤ k.lastInitiationConsumptionMs.toNat
  past : ∀ now, (∀ s ∈ hs, s.env.now.toNat ≤ now) → k.lastInitiationConsumptionMs.toNat ≤ now

theorem NotesInv.of_notes {k' : Clocks} (h : NotesInv hs k) (hk : k'.notes = k.notes) :
    NotesInv hs k' := by
  have hts : k'.lastTimestamp = k.lastTimestamp := congrArg Prod.fst hk
  have hms : k'.lastInitiationConsumptionMs = k.lastInitiationConsumptionMs := congrArg Prod.snd hk
  refine ⟨hts ▸ h.width, h.newer, ?_, ?_⟩
  · rw [hts, hms]
    exact h.last
  · rw [hms]
    exact h.past

/-- A turn that is no acceptance adds nothing. -/
theorem NotesInv.idle {s : PeerStep} {k' : Clocks} (h : NotesInv hs s.before.found)
    (hnone : s.acceptance = none) (ht : Turned c s.env s.before k' s.turn) :
    NotesInv (hs ++ [s]) k' := by
  have hk : k'.notes = s.before.found.notes := by
    refine turned_notes (fun ts msg hturn => ?_) ht
    simp [PeerStep.acceptance, hturn] at hnone
  have hsame : (hs ++ [s]).filterMap PeerStep.acceptance = hs.filterMap PeerStep.acceptance := by
    simp [hnone]
  have hkeep := h.of_notes hk
  refine ⟨hkeep.width, hsame ▸ hkeep.newer, hsame ▸ hkeep.last, fun now hnow => ?_⟩
  exact hkeep.past now fun t ht => hnow t (List.mem_append_left _ ht)

/-- An acceptance is newer than all before it. -/
theorem NotesInv.accept {s : PeerStep} {k' : Clocks} {a : Acceptance}
    (h : NotesInv hs s.before.found) (ha : s.acceptance = some a)
    (hwidth : a.timestamp.length = 12) (hclock : ∀ t ∈ hs, t.env.now.toNat ≤ s.env.now.toNat)
    (ht : Turned c s.env s.before k' s.turn) : NotesInv (hs ++ [s]) k' := by
  unfold PeerStep.acceptance at ha
  split at ha
  next ts msg hturn =>
    cases ha
    rw [hturn] at ht
    have hnotes := accepted_notes ht
    obtain ⟨hafter, hrate, -⟩ := ht
    have hpast : s.before.found.lastInitiationConsumptionMs.toNat ≤ s.env.now.toNat :=
      h.past _ hclock
    have hapart : s.before.found.lastInitiationConsumptionMs.toNat + handshakeInitRateMs.toNat <
        s.env.now.toNat := by
      have hlt : handshakeInitRateMs.toNat <
          (s.env.now - s.before.found.lastInitiationConsumptionMs).toNat := BitVec.lt_def.1 hrate
      rw [BitVec.toNat_sub_of_le (BitVec.le_def.2 hpast)] at hlt
      omega
    have hts : k'.lastTimestamp = ts := congrArg Prod.fst hnotes
    have hms : k'.lastInitiationConsumptionMs = s.env.now := by
      refine (congrArg Prod.snd hnotes).trans (if_pos ?_)
      exact BitVec.lt_def.2 (by omega)
    have hnew : beWord s.before.found.lastTimestamp < beWord ts :=
      (tai64nAfter_iff (hwidth.trans h.width.symm)).1 hafter
    have hlist : (hs ++ [s]).filterMap PeerStep.acceptance =
        hs.filterMap PeerStep.acceptance ++ [⟨ts, s.env.now, msg⟩] := by
      simp [PeerStep.acceptance, hturn]
    refine ⟨hts.symm ▸ hwidth, ?_, ?_, ?_⟩
    · rw [hlist, List.pairwise_append]
      refine ⟨h.newer, List.pairwise_singleton _ _, fun b hb b' hb' => ?_⟩
      rw [List.mem_singleton.1 hb']
      obtain ⟨hold, htime⟩ := h.last b hb
      have hbound : beWord ts < 256 ^ 12 := hwidth ▸ Checksum.beWord_lt ts
      exact ⟨hold.trans_lt hnew, hbound.trans_le (by norm_num), by
        show b.now.toNat + _ < s.env.now.toNat
        omega⟩
    · rw [hlist, hts, hms]
      intro b hb
      rcases List.mem_append.1 hb with hb | hb
      · obtain ⟨hold, htime⟩ := h.last b hb
        exact ⟨(hold.trans_lt hnew).le, htime.trans hpast⟩
      · rw [List.mem_singleton.1 hb]
        exact ⟨le_rfl, le_rfl⟩
    · rw [hms]
      exact fun now hnow => hnow s (by simp)
  · cases ha

/-- **The notes of a life**: what they say of its acceptances, in every life. -/
theorem Lives.notesInv (h : Lives c hs k)
    (hclock : hs.Pairwise fun s t => s.env.now.toNat ≤ t.env.now.toNat)
    (hwidth : ∀ s ∈ hs, ∀ a ∈ s.acceptance, a.timestamp.length = 12) : NotesInv hs k := by
  induction h with
  | start =>
    refine ⟨rfl, List.Pairwise.nil, ?_, ?_⟩
    · intro a ha
      cases ha
    · intro now _
      exact Nat.zero_le _
  | reconf h hre ih =>
    obtain ⟨ms, due, rfl⟩ := hre.1
    exact (ih hclock hwidth).of_notes rfl
  | @turn hs s k' h hsent ht ih =>
    obtain ⟨hbefore, -, hlast⟩ := List.pairwise_append.1 hclock
    have hold := ih hbefore fun t ht => hwidth t (List.mem_append_left _ ht)
    have hnew : NotesInv (hs ++ [s]) k' := by
      cases ha : s.acceptance with
      | none => exact hold.idle ha ht
      | some a =>
        refine hold.accept ha (hwidth s (by simp) a ha) (fun t ht => ?_) ht
        exact hlast t ht s List.mem_cons_self
    exact hnew.of_notes rfl

theorem mem_acceptances {addr : ℕ} {es : List LifeEvent} {a : Acceptance}
    (ha : a ∈ acceptances c addr es) :
    (∃ env fuel src, .device (.recv env fuel src (.initiation a.msg)) ∈ es) ∧
      ∃ pre keys, pre <+: es ∧ (lifeRun c (deviceInit c) pre).openingKeys addr = some keys ∧
        keys.timestampOf c a.msg = some a.timestamp := by
  obtain ⟨s, hs, hacc⟩ := List.mem_filterMap.1 ha
  obtain ⟨haddr, pre, e, post, rfl, hstep⟩ := mem_history hs
  have hdev := (deviceInv_deviceInit c).lifeRun (c := c) pre
  obtain ⟨⟨env, fuel, src, rfl⟩, keys, hkeys, hopen⟩ := opened_of_peerStepOf hdev hstep hacc
  exact ⟨⟨env, fuel, src, by simp⟩, pre, keys, List.prefix_append _ _, haddr ▸ hkeys, hopen⟩

end Acceptances

/-- **Accepted initiations are strictly newer.**  In every run of a device in which `uv_now` does not
go back, the timestamps of the initiations accepted from a peer increase strictly as 96-bit
big-endian numbers, and each is accepted more than `HANDSHAKE_INIT_RATE_MS` after the one before;
so no message is accepted twice, unless it opens under two different keys that the device has had.  A
peer is named by the address of its record: one that is removed and added again is another peer. -/
theorem accepted_initiations_newer (c : Crypto) (hshrink : c.AeadShrinks) (es : List LifeEvent)
    (hclock : Steady es) (hsize : ∀ e ∈ es, e.WellSized) (addr : ℕ) :
    (acceptances c addr es).Pairwise Acceptance.Newer ∧
      (KeysApart c addr es → ((acceptances c addr es).map Acceptance.msg).Nodup) := by
  have hnewer : (acceptances c addr es).Pairwise Acceptance.Newer := by
    obtain ⟨k, hlife⟩ := @lives_history c addr es
    refine (hlife.notesInv ?_ fun s hs a ha => ?_).newer
    · exact List.pairwise_map.1 (hclock.sublist (times_history_sublist addr (deviceInit c) es))
    · have hmem : a ∈ acceptances c addr es := List.mem_filterMap.2 ⟨s, hs, ha⟩
      obtain ⟨⟨env, fuel, src, he⟩, pre, keys, -, -, hts⟩ := mem_acceptances hmem
      obtain ⟨key, aad, hopen⟩ := OpeningKeys.opens hts
      have hlen := hshrink _ _ _ _ _ hopen
      have h28 : a.msg.timestampEnc.length = 28 := hsize _ he
      rw [h28, wgAeadTagLen] at hlen
      omega
  refine ⟨hnewer, fun hapart => ?_⟩
  rw [List.Nodup, List.pairwise_map]
  refine hnewer.imp_of_mem fun {a b} ha hb hab heq => ?_
  -- under the same keys one message has one timestamp
  obtain ⟨⟨env, fuel, src, he⟩, pre, keys, hpre, hkeys, hopena⟩ := mem_acceptances ha
  obtain ⟨-, pre', keys', hpre', hkeys', hopenb⟩ := mem_acceptances hb
  rw [← heq] at hopenb
  have hsame : keys = keys' := hapart pre pre' keys keys' env fuel src a.msg hpre hpre' hkeys hkeys' he
    (Option.isSome_iff_exists.2 ⟨_, hopena⟩) (Option.isSome_iff_exists.2 ⟨_, hopenb⟩)
  have hts : a.timestamp = b.timestamp := by
    rw [hsame, hopenb] at hopena
    exact (Option.some.inj hopena).symm
  exact absurd hab.1 (hts ▸ lt_irrefl _)

/-! ### An instance -/

theorem tagCrypto_shrinks : tagCrypto.AeadShrinks := by
  intro key nonce ciphertext aad p h
  simp only [tagCrypto] at h
  split_ifs at h with htag
  cases h
  have hlen := congrArg List.length htag
  simp only [List.length_drop, List.length_replicate] at hlen
  simp only [List.length_take, wgAeadTagLen]
  omega

/-- The initiation that the other end makes in an environment. -/
def tagInitiation (env : Env) : MsgInitiation :=
  let dev := deviceAddPeer tagCrypto
    (noiseSetStaticKey tagCrypto (deviceInit tagCrypto) (List.replicate 32 2)) (List.replicate 32 1)
  match dev.peers with
  | peer :: _ => ((noiseCreateInitiation tagCrypto env (Ctx.start dev peer)).2).getD
      (decodeInitiation [])
  | [] => decodeInitiation []

/-- Where the datagrams of the other end come from. -/
def tagSrc : Endpoint := .v4 #v[10#8, 0, 0, 1] 51820

/-- The peer sends two initiations, a second apart, and the first one once more. -/
def twoInitiations : List LifeEvent :=
  [.device (.setPrivateKey (List.replicate 32 1)), .device (.addPeer (List.replicate 32 2)),
    .device (.recv (toyEnv 7) 0 tagSrc (.initiation (tagInitiation (toyEnv 5)))),
    .device (.recv { toyEnv 8 with now := 2000 } 0 tagSrc
      (.initiation (tagInitiation (toyEnv 6)))),
    .device (.recv { toyEnv 9 with now := 3000 } 0 tagSrc
      (.initiation (tagInitiation (toyEnv 5))))]

theorem keysApart_twoInitiations : KeysApart tagCrypto 1 twoInitiations := by
  have hone : ∀ pre ∈ twoInitiations.inits,
      ∀ keys ∈ (lifeRun tagCrypto (deviceInit tagCrypto) pre).openingKeys 1,
        some keys = (lifeRun tagCrypto (deviceInit tagCrypto) twoInitiations).openingKeys 1 := by
    decide +kernel
  cases hkeys : (lifeRun tagCrypto (deviceInit tagCrypto) twoInitiations).openingKeys 1 with
  | none =>
    exact absurd hkeys (by decide +kernel)
  | some keys =>
    rw [hkeys] at hone
    exact keysApart_of_one fun pre hpre keys' hkeys' => Option.some.inj (hone pre hpre keys' hkeys')

theorem accepted_initiations_newer_two :
    (acceptances tagCrypto 1 twoInitiations).length = 2 ∧
      (acceptances tagCrypto 1 twoInitiations).Pairwise Acceptance.Newer ∧
      ((acceptances tagCrypto 1 twoInitiations).map Acceptance.msg).Nodup := by
  obtain ⟨hnewer, hnodup⟩ := accepted_initiations_newer tagCrypto tagCrypto_shrinks twoInitiations
    (by decide +kernel) (by decide +kernel) 1
  exact ⟨by decide +kernel, hnewer, hnodup keysApart_twoInitiations⟩

end Wgx
