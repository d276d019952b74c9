import Wgx.Lib.Run
import Wgx.Device.Timers
import Wgx.Noise.Opening
import Wgx.Noise.Ownership

/-!
# The reachable states of a device

A device with any number of peers takes one step for each thing that can happen to it
(`DeviceEvent`): a datagram arrives, a packet is to be sent, a handshake is initiated, a timer is
due, the private key is set, peers are added and removed.  In every state it can reach the index
table holds exactly the entries of the handshakes and keypairs of its peers.

* `Kept`: what a call on one peer does to the table, with the entries of the others as a frame;
* `DeviceInv`: the invariant of the device, and `DeviceInv.step`: every step keeps it;
* `index_table_invariant`: the table and the peers in every reachable state.
-/

namespace Wgx

/-! ### Calls on one peer -/

/-- The call that led from `x` to `y` left the list of peers alone, and the entries of the index
table that belong to the peer still are the ones of its handshake and keypairs, whatever else the
table holds. -/
structure Kept (env : Env) (x y : Ctx) : Prop where
  addr : y.peer.addr = x.peer.addr
  peers : y.dev.peers = x.dev.peers
  next : x.dev.nextAddr ≤ y.dev.nextAddr
  owns : ∀ rest, Owns x.dev.indexTable x.dev.nextAddr (x.peer.entries + rest) →
    Owns y.dev.indexTable y.dev.nextAddr (y.peer.entries + rest)
  /-- A handshake gets its index from the random generator. -/
  index : y.peer.handshake.localIndex = x.peer.handshake.localIndex ∨
    y.peer.handshake.localIndex = 0 ∨
    ∃ t k, y.peer.handshake.localIndex = pickRandomIndex t (env.draw k).index

section Kept

variable {c : Crypto} {env : Env} {x y z : Ctx}

theorem Kept.refl (x : Ctx) : Kept env x x := ⟨rfl, rfl, le_rfl, fun _ h => h, Or.inl rfl⟩

theorem Kept.trans (h1 : Kept env x y) (h2 : Kept env y z) : Kept env x z := by
  refine ⟨h2.addr.trans h1.addr, h2.peers.trans h1.peers, h1.next.trans h2.next,
    fun rest h => h2.owns rest (h1.owns rest h), ?_⟩
  rcases h2.index with heq | hnew
  · rw [heq]
    exact h1.index
  · exact Or.inr hnew

/-- A call that changes neither the device nor the entries of the peer. -/
theorem kept_of_entries (hdev : y.dev = x.dev) (haddr : y.peer.addr = x.peer.addr)
    (hentries : y.peer.entries = x.peer.entries)
    (hidx : y.peer.handshake.localIndex = x.peer.handshake.localIndex) : Kept env x y := by
  refine ⟨haddr, by rw [hdev], by rw [hdev], ?_, Or.inl hidx⟩
  intro rest h
  rwa [hdev, hentries]

theorem slotEntries_map (a : ℕ) {f : Keypair → Keypair} (kp : Option Keypair)
    (haddr : ∀ k, (f k).addr = k.addr) (hidx : ∀ k, (f k).localIndex = k.localIndex) :
    slotEntries a (kp.map f) = slotEntries a kp := by
  cases kp with
  | none => rfl
  | some k => simp [slotEntries, keypairEntry, haddr, hidx]

/-! ### The Noise functions -/

theorem kept_setHandshake {hs : Handshake} (h : hs.localIndex = x.peer.handshake.localIndex) :
    Kept env x (x.setHandshake hs) :=
  kept_of_entries rfl rfl (by simp only [Ctx.setHandshake, Peer.entries, h]) h

theorem peer_udpSend (ep : Endpoint) (d : Datagram) : (x.udpSend env ep d).peer = x.peer := by
  unfold Ctx.udpSend
  split_ifs <;> rfl

theorem kept_udpSend (ep : Endpoint) (d : Datagram) : Kept env x (x.udpSend env ep d) := by
  unfold Ctx.udpSend
  split_ifs
  · exact kept_of_entries rfl rfl rfl rfl
  · exact Kept.refl x

/-- The index of the handshake is replaced by the one that is picked. -/
theorem kept_newIndex {hs : Handshake} {cookie : CookieGen} {draws k : ℕ}
    (h : hs.localIndex = (indexTableNewForHandshake
      (indexTableDelete x.dev.indexTable x.peer.handshake.localIndex) x.peer.addr
        (env.draw k).index).2) :
    Kept env x { x with
      dev := { x.dev with indexTable := (indexTableNewForHandshake
        (indexTableDelete x.dev.indexTable x.peer.handshake.localIndex) x.peer.addr
          (env.draw k).index).1 }
      peer := { x.peer with handshake := hs, cookie := cookie }
      draws := draws } := by
  have hpick := h.trans (indexTableNewForHandshake_snd _ _ _)
  refine ⟨rfl, rfl, le_rfl, ?_, Or.inr (Or.inr ⟨_, k, hpick⟩)⟩
  intro rest hrest
  simp only [Peer.entries, h, add_assoc] at hrest ⊢
  exact hrest.deleteHandshake.newForHandshake _ _

theorem kept_noiseCreateInitiation : Kept env x (noiseCreateInitiation c env x).1 := by
  simp only [noiseCreateInitiation]
  split
  · exact kept_of_entries rfl rfl rfl rfl
  · split_ifs with hstatic hsender
    · exact kept_of_entries rfl rfl rfl rfl
    · refine ⟨rfl, rfl, le_rfl, ?_, Or.inl rfl⟩
      intro rest hrest
      simp only [Peer.entries, add_assoc] at hrest ⊢
      have htable := hrest.newForHandshake_failed hsender
      simp only [Ctx.setHandshake, Ctx.setIndexTable, Ctx.draw] at htable ⊢
      rw [htable]
      exact hrest
    · exact kept_newIndex rfl

theorem kept_noiseCreateResponse : Kept env x (noiseCreateResponse c env x).1 := by
  simp only [noiseCreateResponse]
  split_ifs
  · exact Kept.refl x
  · exact kept_newIndex rfl
  · split
    · exact kept_newIndex rfl
    · split
      · exact kept_newIndex rfl
      · exact kept_newIndex rfl

/-- A session start turns the entry of the handshake into the one of the new keypair. -/
theorem kept_noiseBeginSession (hidx : x.peer.handshake.localIndex ≠ 0) :
    Kept env x (noiseBeginSession c env x).1 := by
  by_cases hstate : x.peer.handshake.state = .responseConsumed ∨
      x.peer.handshake.state = .responseCreated
  · obtain ⟨cur, next, prev, heq⟩ := rotated_frame c env x
    rw [noiseBeginSession_eq hstate]
    refine ⟨by simp only [heq], rfl, Nat.le_succ _, ?_, Or.inr (Or.inl (by simp only [heq]; rfl))⟩
    intro rest hrest
    rw [Peer.entries, handshakeEntries, if_neg hidx, Multiset.singleton_add, Multiset.cons_add,
      Multiset.cons_add, Multiset.cons_add] at hrest
    have hswap : Owns (indexTableSwapKeypair x.dev.indexTable x.peer.handshake.localIndex
        (x.session c env)).1 (x.dev.nextAddr + 1) _ := hrest.swap rfl rfl
    rw [← Multiset.singleton_add, ← add_assoc, ← add_assoc, ← add_assoc] at hswap
    have hrot : Owns (x.rotated c env).1 (x.dev.nextAddr + 1)
        (slotEntries x.peer.addr (x.rotated c env).2.currentKeypair +
          slotEntries x.peer.addr (x.rotated c env).2.nextKeypair +
          slotEntries x.peer.addr (x.rotated c env).2.prevKeypair + rest) :=
      Owns.rotateKeypairs hswap
    have haddr : (x.rotated c env).2.addr = x.peer.addr := by rw [heq]
    have hcleared : (x.rotated c env).2.handshake.localIndex = 0 := by rw [heq]; rfl
    rw [Peer.entries, haddr, hcleared, handshakeEntries, if_pos rfl, zero_add]
    exact hrot
  · rw [not_or] at hstate
    rw [noiseBeginSession, if_pos hstate]
    exact Kept.refl x

/-! ### Sending -/

theorem kept_timersHandshakeInitiated : Kept env x (timersHandshakeInitiated env x) := by
  unfold timersHandshakeInitiated
  split_ifs
  · exact Kept.refl x
  · exact kept_of_entries rfl rfl rfl rfl

theorem kept_deviceInitiateHandshakeInner (force : Bool) :
    Kept env x (deviceInitiateHandshakeInner c env x force).1 := by
  simp only [deviceInitiateHandshakeInner]
  split_ifs
  · exact Kept.refl x
  · set y := x.setHandshake { x.peer.handshake with lastSentHandshakeMs := env.now }
    have hy : Kept env x y := kept_setHandshake rfl
    have hcreate : Kept env x (noiseCreateInitiation c env y).1 := hy.trans kept_noiseCreateInitiation
    split
    next z hz => rwa [hz] at hcreate
    next z msg hz =>
      rw [hz] at hcreate
      split
      · exact hcreate
      · exact (hcreate.trans (kept_udpSend _ _)).trans kept_timersHandshakeInitiated

theorem kept_timersHandshakeBegin : Kept env x (timersHandshakeBegin c env x) := by
  unfold timersHandshakeBegin
  split_ifs
  · exact Kept.refl x
  · exact kept_deviceInitiateHandshakeInner false
  · exact Kept.refl x

theorem kept_stage (pkt : List Byte) : Kept env x (x.stage pkt) := by
  unfold Ctx.stage peerStagePacket
  split_ifs
  · exact kept_of_entries rfl rfl rfl rfl
  · exact Kept.refl x
  · exact Kept.refl x

theorem kept_countSend : Kept env x { x with peer := x.peer.countSend } := by
  unfold Peer.countSend
  cases hcur : x.peer.currentKeypair with
  | some kp =>
    refine kept_of_entries rfl rfl ?_ rfl
    simp [Peer.entries, hcur, slotEntries, keypairEntry]
  | none =>
    refine kept_of_entries rfl rfl ?_ rfl
    simp only [Peer.entries, hcur]
    rw [slotEntries_map]
    · exact fun k => rfl
    · exact fun k => rfl

theorem kept_timersDataSent (total : ℕ) :
    Kept env x { x with peer := timersDataSent env (x.peer.countTx env total) } := by
  unfold timersDataSent Peer.countTx
  split_ifs <;> exact kept_of_entries rfl rfl rfl rfl

theorem kept_deviceSendCounted {kp : Keypair} {pkt : List Byte} :
    Kept env x (deviceSendCounted c env x kp pkt) := by
  have hbegin : ∀ y : Ctx, Kept env y
      (if rekeyAfterMessages ≤ kp.sendNonce then timersHandshakeBegin c env y else y) := by
    intro y
    split_ifs
    · exact kept_timersHandshakeBegin
    · exact Kept.refl y
  simp only [deviceSendCounted]
  by_cases hreject : rejectAfterMessages ≤ kp.sendNonce
  · rw [if_pos hreject]
    exact (kept_stage pkt).trans kept_timersHandshakeBegin
  · rw [if_neg hreject]
    refine (hbegin x).trans ?_
    generalize (if rekeyAfterMessages ≤ kp.sendNonce then timersHandshakeBegin c env x else x) = y
    cases y.peer.endpoint with
    | none => exact Kept.refl y
    | some ep => exact ((kept_udpSend ep _).trans (kept_timersDataSent _)).trans (hbegin _)

theorem kept_deviceSendToPeer (pkt : List Byte) : Kept env x (deviceSendToPeer c env x pkt) := by
  unfold deviceSendToPeer
  split_ifs
  · exact Kept.refl x
  · split
    · exact (kept_stage pkt).trans (kept_deviceInitiateHandshakeInner false)
    · split_ifs
      · exact (kept_stage pkt).trans kept_timersHandshakeBegin
      · exact kept_countSend.trans kept_deviceSendCounted

/-- The loop keeps what every send keeps. -/
theorem kept_flushStaged {fuel : ℕ} {ps : List (List Byte)}
    (h : flushStaged c env fuel x = some (y, ps)) : Kept env x y := by
  induction fuel generalizing x ps with
  | zero =>
    rw [flushStaged] at h
    split_ifs at h
    cases h
    exact Kept.refl _
  | succ fuel ih =>
    rw [flushStaged] at h
    split_ifs at h
    · obtain ⟨⟨z, qs⟩, hz, heq⟩ := Option.map_eq_some_iff.1 h
      cases heq
      have hpop : Kept env x { x with peer := { x.peer with staged := x.peer.staged.pop ‹_› } } :=
        kept_of_entries rfl rfl rfl rfl
      exact (hpop.trans (kept_deviceSendToPeer _)).trans (ih hz)
    · cases h
      exact Kept.refl _

/-! ### Receiving -/

theorem kept_timersHandshakeComplete :
    Kept env x { x with peer := timersHandshakeComplete env x.peer } := by
  unfold timersHandshakeComplete
  split_ifs
  · exact Kept.refl x
  · exact kept_of_entries rfl rfl rfl rfl

theorem kept_responderComplete {fuel : ℕ} (h : responderComplete c env fuel x = some y) :
    Kept env x y := by
  obtain ⟨⟨z, ps⟩, hflush, rfl⟩ := Option.map_eq_some_iff.1 h
  exact kept_timersHandshakeComplete.trans (kept_flushStaged hflush)

theorem kept_initiatorComplete {fuel : ℕ} (h : initiatorComplete c env fuel x = some y) :
    Kept env x y := by
  unfold initiatorComplete at h
  split at h
  · cases h
  next z flushed hflush =>
    have hz : Kept env x z := kept_timersHandshakeComplete.trans (kept_flushStaged hflush)
    cases h
    split_ifs
    · exact hz.trans (kept_deviceSendToPeer [])
    · exact hz

/-- A response is only made under an index. -/
theorem localIndex_noiseCreateResponse {resp : MsgResponse}
    (h : noiseCreateResponse c env x = (y, some resp)) : y.peer.handshake.localIndex ≠ 0 := by
  simp only [noiseCreateResponse] at h
  split_ifs at h with hstate hsender
  · cases h
  · cases h
  · split at h
    · cases h
    · split at h
      · cases h
      · cases h
        exact hsender

theorem kept_answerInitiation {fuel : ℕ} {src : Endpoint} {r : Handled}
    (h : answerInitiation c env fuel src x = some r) : ∃ y, Kept env x y ∧ r = y.handled := by
  unfold answerInitiation at h
  have hresp : Kept env x (noiseCreateResponse c env x).1 := kept_noiseCreateResponse
  split at h
  next y hy =>
    cases h
    rw [hy] at hresp
    exact ⟨y, hresp, rfl⟩
  next y resp hy =>
    rw [hy] at hresp
    have hidx := localIndex_noiseCreateResponse hy
    have hsend : Kept env x (y.udpSend env src (.response resp)) := hresp.trans (kept_udpSend _ _)
    have hbegin : Kept env x (noiseBeginSession c env (y.udpSend env src (.response resp))).1 := by
      refine hsend.trans (kept_noiseBeginSession ?_)
      rw [peer_udpSend]
      exact hidx
    split at h
    next z hz =>
      cases h
      rw [hz] at hbegin
      exact ⟨z, hbegin, rfl⟩
    next z hz =>
      rw [hz] at hbegin
      obtain ⟨w, hw, rfl⟩ := Option.map_eq_some_iff.1 h
      exact ⟨w, hbegin.trans (kept_responderComplete hw), rfl⟩

theorem kept_completeResponse (hidx : x.peer.handshake.localIndex ≠ 0) {fuel : ℕ} {r : Handled}
    (h : completeResponse c env fuel x = some r) : ∃ y, Kept env x y ∧ r = y.handled := by
  unfold completeResponse at h
  have hbegin : Kept env x (noiseBeginSession c env x).1 := kept_noiseBeginSession hidx
  split at h
  next y hy =>
    cases h
    rw [hy] at hbegin
    exact ⟨y, hbegin, rfl⟩
  next y hy =>
    rw [hy] at hbegin
    obtain ⟨w, hw, rfl⟩ := Option.map_eq_some_iff.1 h
    exact ⟨w, hbegin.trans (kept_initiatorComplete hw), rfl⟩

theorem kept_mapKeypair (addr : ℕ) (replay : Replay.ReplayFilter) :
    Kept env x { x with peer := x.peer.mapKeypair addr fun kp => { kp with replay := replay } } := by
  refine kept_of_entries rfl rfl ?_ rfl
  simp only [Peer.entries, Peer.mapKeypair]
  rw [slotEntries_map, slotEntries_map, slotEntries_map]
  all_goals
    intro k
    split_ifs <;> rfl

/-- The promotion of the next keypair deletes the entry of the previous one. -/
theorem kept_promoteNext (addr : ℕ) : Kept env x (promoteNext x addr) := by
  unfold promoteNext
  split
  next kp hkp =>
    split_ifs
    · refine ⟨rfl, rfl, le_rfl, ?_, Or.inl rfl⟩
      intro rest hrest
      simp only [Peer.entries, hkp] at hrest ⊢
      apply Owns.deleteKeypair (a := x.peer.addr)
      convert hrest using 1
      · rfl
      · simp only [slotEntries]
        abel
    · exact Kept.refl x
  · exact Kept.refl x

theorem kept_endpoint (ep : Option Endpoint) :
    Kept env x { x with peer := { x.peer with endpoint := ep } } :=
  kept_of_entries rfl rfl rfl rfl

theorem kept_timersDataReceived (env : Env) :
    Kept env x { x with peer := timersDataReceived env x.peer } := by
  unfold timersDataReceived
  split_ifs <;> exact kept_of_entries rfl rfl rfl rfl

theorem kept_timersKeepaliveReceived :
    Kept env x { x with peer := timersKeepaliveReceived x.peer } := by
  unfold timersKeepaliveReceived
  split_ifs <;> exact kept_of_entries rfl rfl rfl rfl

theorem kept_transportDeliver (env : Env) (src : Endpoint) (addr len : ℕ) (p : List Byte) :
    Kept env x (transportDeliver env x src addr len p) := by
  unfold transportDeliver
  cases transportPlaintextLen p with
  | none => exact Kept.refl x
  | some ptlen =>
    have hcount : Kept env x { x with
        peer := { x.peer with rxBytes := x.peer.rxBytes + BitVec.ofNat 64 len } } :=
      kept_of_entries rfl rfl rfl rfl
    have hrot := (hcount.trans (kept_timersDataReceived env)).trans (kept_promoteNext addr)
    simp only
    split_ifs
    · exact hrot.trans (kept_of_entries rfl rfl rfl rfl)
    · exact hrot.trans (kept_of_entries rfl rfl rfl rfl)
    · exact (hrot.trans (kept_endpoint (some src))).trans kept_timersKeepaliveReceived

/-! ### Timers -/

theorem kept_setTimer (kind : TimerKind) (due : Option ℕ) : Kept env x (x.setTimer kind due) :=
  kept_of_entries rfl rfl rfl rfl

/-- Expired key material takes all the entries of the peer with it. -/
theorem kept_cbZeroKeyMaterial : Kept env x (cbZeroKeyMaterial x) := by
  refine ⟨rfl, rfl, le_rfl, ?_, Or.inr (Or.inl rfl)⟩
  intro rest hrest
  have hnone : (cbZeroKeyMaterial x).peer.entries = 0 := rfl
  rw [hnone, zero_add]
  apply Owns.deleteHandshake (a := x.peer.addr)
  apply Owns.deleteKeypair (a := x.peer.addr)
  apply Owns.deleteKeypair (a := x.peer.addr)
  apply Owns.deleteKeypair (a := x.peer.addr)
  convert hrest using 1
  · rfl
  · simp only [Peer.entries]
    abel

theorem kept_timersZeroKeyMaterial : Kept env x (timersZeroKeyMaterial env x) := by
  unfold timersZeroKeyMaterial
  split_ifs
  · exact Kept.refl x
  · exact kept_setTimer _ _

theorem kept_handshakeAttempts (n : BitVec 32) :
    Kept env x { x with peer := { x.peer with handshakeAttempts := n } } :=
  kept_of_entries rfl rfl rfl rfl

theorem kept_draw : Kept env x (x.draw env).2 := kept_of_entries rfl rfl rfl rfl

theorem kept_timerCallback (kind : TimerKind) : Kept env x (timerCallback c env x kind) := by
  cases kind with
  | retransmitHandshake =>
    simp only [timerCallback, cbRetransmitHandshake]
    split_ifs
    · exact (((kept_handshakeAttempts _).trans (kept_setTimer _ _)).trans
        (kept_handshakeAttempts 0)).trans kept_timersZeroKeyMaterial
    · exact (((kept_handshakeAttempts _).trans (kept_deviceInitiateHandshakeInner true)).trans
        kept_draw).trans (kept_setTimer _ _)
  | sendKeepalive =>
    simp only [timerCallback, cbSendKeepalive]
    split_ifs
    · exact (kept_deviceSendToPeer []).trans (kept_of_entries rfl rfl rfl rfl)
    · exact kept_deviceSendToPeer []
  | newHandshake => exact kept_deviceInitiateHandshakeInner false
  | zeroKeyMaterial => exact kept_cbZeroKeyMaterial
  | persistentKeepalive =>
    simp only [timerCallback, cbPersistentKeepalive]
    split_ifs
    · exact (kept_deviceSendToPeer []).trans (kept_setTimer _ _)
    · exact kept_deviceSendToPeer []

end Kept

/-! ### The device -/

/-- The entries that belong to the peers of a device. -/
def Device.entries (dev : Device) : Multiset IndexEntry := (dev.peers.map Peer.entries).sum

/-- The invariant of a device: its peers are distinct records, and the index table holds exactly
their entries. -/
structure DeviceInv (dev : Device) : Prop where
  nodup : (dev.peers.map Peer.addr).Nodup
  allocated : ∀ p ∈ dev.peers, p.addr < dev.nextAddr
  owns : Owns dev.indexTable dev.nextAddr dev.entries

section Device

variable {c : Crypto} {env : Env} {dev : Device} {peer : Peer}

theorem Device.mem_of_peerAt {a : ℕ} (h : dev.peerAt a = some peer) :
    peer ∈ dev.peers ∧ peer.addr = a :=
  ⟨List.mem_of_find?_eq_some h, by simpa using List.find?_some h⟩

theorem Device.mem_of_findPeer {pk : List Byte} (h : deviceFindPeer dev pk = some peer) :
    peer ∈ dev.peers ∧ peer.publicKey = pk :=
  ⟨List.mem_of_find?_eq_some h, by simpa using List.find?_some h⟩

/-- Writing one peer back changes one record of the list. -/
theorem Device.exists_frame (h : (dev.peers.map Peer.addr).Nodup) (hp : peer ∈ dev.peers) :
    ∃ pre post, dev.peers = pre ++ peer :: post ∧
      ∀ p : Peer, p.addr = peer.addr → (dev.store p).peers = pre ++ p :: post := by
  obtain ⟨pre, post, hsplit⟩ := List.append_of_mem hp
  refine ⟨pre, post, hsplit, ?_⟩
  intro p haddr
  rw [hsplit, List.map_append, List.map_cons] at h
  obtain ⟨-, hpost, hdisj⟩ := List.nodup_append.1 h
  have hother : ∀ l : List Peer, (∀ q ∈ l, q.addr ≠ peer.addr) →
      l.map (fun q => if q.addr = p.addr then p else q) = l := by
    intro l hl
    conv_rhs => rw [← List.map_id l]
    apply List.map_congr_left
    intro q hq
    rw [if_neg (haddr ▸ hl q hq), id]
  simp only [Device.store, hsplit, List.map_append, List.map_cons, haddr, if_true]
  rw [← haddr, hother pre, hother post]
  · intro q hq heq
    exact (List.nodup_cons.1 hpost).1 (heq ▸ List.mem_map_of_mem hq)
  · intro q hq heq
    exact hdisj _ (List.mem_map_of_mem hq) _ List.mem_cons_self heq

/-- The device `dev'` is what a call on the record `peer` of `dev` leaves: the call finds the device
with its peers and its table, and the record with its index and its keypairs. -/
structure Called (env : Env) (dev dev' : Device) (peer : Peer) (x y : Ctx) : Prop where
  mem : peer ∈ dev.peers
  peers_eq : x.dev.peers = dev.peers
  table_eq : x.dev.indexTable = dev.indexTable
  next_eq : x.dev.nextAddr = dev.nextAddr
  addr_eq : x.peer.addr = peer.addr
  entries_eq : x.peer.entries = peer.entries
  index_eq : x.peer.handshake.localIndex = peer.handshake.localIndex
  kept : Kept env x y
  result : dev' = y.finish

theorem Called.finish {x y : Ctx} {dev' : Device} (h : Called env dev dev' peer x y)
    (hnodup : (dev.peers.map Peer.addr).Nodup) :
    ∃ pre post, dev.peers = pre ++ peer :: post ∧ dev'.peers = pre ++ y.peer :: post := by
  have hlist : y.dev.peers = dev.peers := h.kept.peers.trans h.peers_eq
  obtain ⟨pre, post, hsplit, hstore⟩ := Device.exists_frame (hlist ▸ hnodup) (hlist ▸ h.mem)
  refine ⟨pre, post, hlist ▸ hsplit, ?_⟩
  rw [h.result]
  exact hstore y.peer (h.kept.addr.trans h.addr_eq)

/-- A call on a peer of the list, written back, keeps the invariant. -/
theorem DeviceInv.called (h : DeviceInv dev) {x y : Ctx} {dev' : Device}
    (hc : Called env dev dev' peer x y) : DeviceInv dev' := by
  obtain ⟨pre, post, hsplit, hfinish⟩ := hc.finish h.nodup
  have hy : y.peer.addr = peer.addr := hc.kept.addr.trans hc.addr_eq
  have hle : dev.nextAddr ≤ y.dev.nextAddr := hc.next_eq ▸ hc.kept.next
  have hnext : dev'.nextAddr = y.dev.nextAddr := by rw [hc.result]; rfl
  refine ⟨?_, ?_, ?_⟩
  · have hnodup := h.nodup
    rw [hsplit] at hnodup
    rw [hfinish]
    simpa [hy] using hnodup
  · intro p hmem
    rw [hfinish] at hmem
    rw [hnext]
    have hold : ∀ q ∈ pre ++ peer :: post, q.addr < dev.nextAddr := hsplit ▸ h.allocated
    rcases List.mem_append.1 hmem with hmem | hmem
    · exact (hold p (List.mem_append_left _ hmem)).trans_le hle
    · rcases List.mem_cons.1 hmem with rfl | hmem
      · exact hy ▸ (hold peer (by simp)).trans_le hle
      · exact (hold p (by simp [hmem])).trans_le hle
  · have howns := h.owns
    have hdev : dev.entries = x.peer.entries + ((pre.map Peer.entries).sum +
        (post.map Peer.entries).sum) := by
      rw [Device.entries, hsplit, hc.entries_eq]
      simp only [List.map_append, List.map_cons, List.sum_append, List.sum_cons]
      abel
    rw [← hc.table_eq, ← hc.next_eq, hdev] at howns
    have hentries : dev'.entries = y.peer.entries + ((pre.map Peer.entries).sum +
        (post.map Peer.entries).sum) := by
      rw [Device.entries, hfinish]
      simp only [List.map_append, List.map_cons, List.sum_append, List.sum_cons]
      abel
    have htable : dev'.indexTable = y.dev.indexTable := by rw [hc.result]; rfl
    rw [hentries, hnext, htable]
    exact hc.kept.owns _ howns

/-- A call from the record itself. -/
theorem called_start (hp : peer ∈ dev.peers) {y : Ctx} (hk : Kept env (Ctx.start dev peer) y) :
    Called env dev y.finish peer (Ctx.start dev peer) y :=
  ⟨hp, rfl, rfl, rfl, rfl, rfl, rfl, hk, rfl⟩

/-- An entry that can be looked up belongs to one of the peers. -/
theorem DeviceInv.lookup (h : DeviceInv dev) {i : BitVec 32} {e : IndexEntry} :
    indexTableLookup dev.indexTable i = some e ↔ e.index = i ∧ ∃ p ∈ dev.peers, e ∈ p.entries := by
  rw [h.owns.lookup, Device.entries, and_comm]
  refine and_congr_right fun _ => ?_
  generalize dev.peers = ps
  induction ps with
  | nil => simp
  | cons p ps ih => simp [ih]

theorem Device.peerAt_of_mem (h : (dev.peers.map Peer.addr).Nodup) (hp : peer ∈ dev.peers) :
    dev.peerAt peer.addr = some peer := by
  obtain ⟨pre, post, hsplit, -⟩ := Device.exists_frame h hp
  rw [hsplit, List.map_append, List.map_cons] at h
  obtain ⟨-, -, hdisj⟩ := List.nodup_append.1 h
  unfold Device.peerAt
  rw [hsplit, List.find?_append]
  have hpre : pre.find? (fun p => p.addr = peer.addr) = none := by
    rw [List.find?_eq_none]
    intro q hq
    simpa using hdisj _ (List.mem_map_of_mem hq) _ List.mem_cons_self
  rw [hpre]
  simp

/-- A handshake that the table finds is the one of a peer, under that index. -/
theorem DeviceInv.handshakeEntry (h : DeviceInv dev) {i : BitVec 32} {e : IndexEntry}
    (he : indexTableLookup dev.indexTable i = some e) (htype : e.type = .handshake) :
    i ≠ 0 ∧ ∃ p ∈ dev.peers, e = ⟨.handshake, i, p.addr, some p.addr, none⟩ ∧
      dev.peerAt p.addr = some p ∧ p.handshake.localIndex = i := by
  obtain ⟨rfl, p, hp, hmem⟩ := h.lookup.1 he
  rcases mem_entries.1 hmem with ⟨h0, heq⟩ | ⟨kp, -, heq⟩
  · rw [heq]
    exact ⟨h0, p, hp, rfl, Device.peerAt_of_mem h.nodup hp, rfl⟩
  · rw [heq] at htype
    cases htype

/-- A keypair that the table finds is in a slot of a peer, under that index. -/
theorem DeviceInv.keypairEntry (h : DeviceInv dev) {i : BitVec 32} {e : IndexEntry}
    (he : indexTableLookup dev.indexTable i = some e) (htype : e.type = .keypair) :
    i ≠ 0 ∧ ∃ p ∈ dev.peers, ∃ kp ∈ p.keypairs, e = Wgx.keypairEntry p.addr kp ∧
      dev.peerAt p.addr = some p ∧ kp.localIndex = i := by
  have h0 : i ≠ 0 := by
    rintro rfl
    rw [h.owns.zero] at he
    cases he
  obtain ⟨rfl, p, hp, hmem⟩ := h.lookup.1 he
  rcases mem_entries.1 hmem with ⟨-, heq⟩ | ⟨kp, hkp, heq⟩
  · rw [heq] at htype
    cases htype
  · rw [heq] at h0 ⊢
    exact ⟨h0, p, hp, kp, hkp, rfl, Device.peerAt_of_mem h.nodup hp, rfl⟩

/-! ### Datagrams -/

theorem peer_mem_of_open {msg : MsgInitiation} {o : OpenedInitiation}
    (h : openInitiation c dev msg = some o) : o.peer ∈ dev.peers := by
  simp only [openInitiation, Option.bind_eq_some_iff] at h
  obtain ⟨ss, -, pk, -, peer, hfind, h⟩ := h
  split_ifs at h
  obtain ⟨ts, -, rfl⟩ := Option.map_eq_some_iff.1 h
  exact (Device.mem_of_findPeer hfind).1

theorem responseTarget_eq_some {i : BitVec 32} (h : responseTarget dev i = some peer) :
    ∃ e a, indexTableLookup dev.indexTable i = some e ∧ e.type = .handshake ∧
      e.handshake = some a ∧ dev.peerAt a = some peer := by
  unfold responseTarget at h
  split at h
  · cases h
  next e he =>
    split_ifs at h with htype
    obtain ⟨a, ha, hat⟩ := Option.bind_eq_some_iff.1 h
    exact ⟨e, a, he, htype, ha, hat⟩

/-- The handshake that a response finds has the index that the response names. -/
theorem DeviceInv.responseTarget (h : DeviceInv dev) {i : BitVec 32}
    (ht : Wgx.responseTarget dev i = some peer) :
    peer ∈ dev.peers ∧ peer.handshake.localIndex = i ∧ i ≠ 0 := by
  obtain ⟨e, a, he, htype, ha, hat⟩ := responseTarget_eq_some ht
  obtain ⟨h0, q, hq, rfl, hat', hlocal⟩ := h.handshakeEntry he htype
  cases ha
  have hpeer : q = peer := Option.some.inj (hat'.symm.trans hat)
  exact hpeer ▸ ⟨hq, hlocal, h0⟩

/-- What handling a datagram does to the device: it changes the cookie secret at most, or it is a
call on one of the peers. -/
def Touched (env : Env) (dev dev' : Device) : Prop :=
  (∃ cc, dev' = { dev with cookieChecker := cc }) ∨ ∃ peer x y, Called env dev dev' peer x y

theorem DeviceInv.touched (h : DeviceInv dev) {dev' : Device} (ht : Touched env dev dev') :
    DeviceInv dev' := by
  rcases ht with ⟨cc, rfl⟩ | ⟨peer, x, y, hc⟩
  · exact { h with }
  · exact h.called hc

theorem touched_handleInitiation {fuel : ℕ} {src : Endpoint} {msg : MsgInitiation} {r : Handled}
    (hr : handleInitiation c env fuel dev src msg = some r) : Touched env dev r.dev := by
  simp only [handleInitiation] at hr
  split at hr
  · cases hr
    exact Or.inl ⟨_, rfl⟩
  · cases hr
    exact Or.inl ⟨_, rfl⟩
  · split at hr
    · cases hr
      exact Or.inl ⟨_, rfl⟩
    next p hp =>
      rw [noiseConsumeInitiation_eq_open] at hp
      obtain ⟨o, ho, hp⟩ := Option.bind_eq_some_iff.1 hp
      split_ifs at hp
      cases hp
      have hmem : o.peer ∈ dev.peers := peer_mem_of_open ho
      obtain ⟨y, hk, rfl⟩ := kept_answerInitiation hr
      exact Or.inr ⟨o.peer, _, y, hmem, rfl, rfl, rfl, rfl, rfl, rfl, hk, rfl⟩

theorem touched_handleResponse (h : DeviceInv dev) {fuel : ℕ} {src : Endpoint} {msg : MsgResponse}
    {r : Handled} (hr : handleResponse c env fuel dev src msg = some r) :
    Touched env dev r.dev := by
  simp only [handleResponse] at hr
  split_ifs at hr
  · cases hr
    exact Or.inl ⟨_, rfl⟩
  · split at hr
    · cases hr
      exact Or.inl ⟨_, rfl⟩
    next p hp =>
      rw [noiseConsumeResponse_eq_open] at hp
      obtain ⟨peer, htarget, hp⟩ := Option.bind_eq_some_iff.1 hp
      split_ifs at hp
      obtain ⟨o, -, rfl⟩ := Option.map_eq_some_iff.1 hp
      obtain ⟨hmem, hlocal, h0⟩ := h.responseTarget htarget
      obtain ⟨y, hk, rfl⟩ := kept_completeResponse (hlocal ▸ h0) hr
      exact Or.inr ⟨peer, _, y, hmem, rfl, rfl, rfl, rfl, rfl, rfl, hk, rfl⟩

theorem touched_handleCookieReply (msg : MsgCookieReply) :
    Touched env dev (handleCookieReply c env dev msg) := by
  unfold handleCookieReply
  split
  · exact Or.inl ⟨dev.cookieChecker, rfl⟩
  next peer hpeer =>
    obtain ⟨e, -, hat⟩ := Option.bind_eq_some_iff.1 hpeer
    have hk : Kept env (Ctx.start dev peer) { Ctx.start dev peer with
        peer := { peer with cookie := cookieConsumeReply c peer.cookie msg env.now } } :=
      kept_of_entries rfl rfl rfl rfl
    exact Or.inr ⟨peer, _, _, called_start (Device.mem_of_peerAt hat).1 hk⟩

theorem transportTarget_mem {i : BitVec 32} {kp : Keypair}
    (h : transportTarget dev i = some (peer, kp)) : peer ∈ dev.peers ∧ kp ∈ peer.keypairs := by
  unfold transportTarget at h
  split at h
  · cases h
  next e he =>
    split_ifs at h
    split at h
    next a p ha hp =>
      obtain ⟨k, hk, heq⟩ := Option.map_eq_some_iff.1 h
      cases heq
      exact ⟨(Device.mem_of_peerAt hp).1, List.mem_of_find?_eq_some hk⟩
    · cases h

theorem touched_handleTransport (src : Endpoint) (msg : MsgTransport) :
    Touched env dev (handleTransport c env dev src msg).dev := by
  have hdrop : Touched env dev dev := Or.inl ⟨dev.cookieChecker, rfl⟩
  unfold handleTransport
  split_ifs
  · exact hdrop
  · split
    · exact hdrop
    next peer kp htarget =>
      split_ifs
      · exact hdrop
      · split
        · exact hdrop
        next p hp =>
          split
          · exact hdrop
          next replay hreplay =>
            have hk := (kept_mapKeypair (x := Ctx.start dev peer) kp.addr replay).trans
              (kept_transportDeliver env src kp.addr (msgTransportHdrSize + msg.content.length) p)
            exact Or.inr ⟨peer, _, _, called_start (transportTarget_mem htarget).1 hk⟩

/-- Handling a datagram touches one peer at most. -/
theorem touched_onUdpRecv (h : DeviceInv dev) {fuel : ℕ} {src : Endpoint} {d : Datagram}
    {r : Handled} (hr : onUdpRecv c env fuel dev src d = some r) : Touched env dev r.dev := by
  cases d with
  | initiation msg => exact touched_handleInitiation hr
  | response msg => exact touched_handleResponse h hr
  | cookieReply msg =>
    cases hr
    exact touched_handleCookieReply msg
  | transport msg =>
    cases hr
    exact touched_handleTransport src msg

/-! ### Configuration -/

/-- The teardown of a peer deletes its entries. -/
theorem owns_peerTeardown {n : ℕ} {rest : Multiset IndexEntry}
    (h : Owns dev.indexTable n (peer.entries + rest)) :
    Owns (peerTeardown dev peer).indexTable n rest := by
  apply Owns.deleteHandshake (a := peer.addr)
  apply Owns.deleteKeypair (a := peer.addr)
  apply Owns.deleteKeypair (a := peer.addr)
  apply Owns.deleteKeypair (a := peer.addr)
  convert h using 1
  simp only [Peer.entries]
  abel

theorem DeviceInv.deviceRemovePeer (h : DeviceInv dev) (hp : peer ∈ dev.peers) :
    DeviceInv (deviceRemovePeer dev peer) := by
  obtain ⟨pre, post, hsplit, -⟩ := Device.exists_frame h.nodup hp
  have hnodup := h.nodup
  rw [hsplit, List.map_append, List.map_cons] at hnodup
  have hlist : (Wgx.deviceRemovePeer dev peer).peers = pre ++ post := by
    obtain ⟨-, hpost, hdisj⟩ := List.nodup_append.1 hnodup
    show dev.peers.filter (fun p => p.addr ≠ peer.addr) = pre ++ post
    rw [hsplit, List.filter_append, List.filter_cons_of_neg (by simp), List.filter_eq_self.2,
      List.filter_eq_self.2]
    · intro q hq
      have := (List.nodup_cons.1 hpost).1
      simp only [decide_eq_true_eq]
      exact fun heq => this (heq ▸ List.mem_map_of_mem hq)
    · intro q hq
      simpa using hdisj _ (List.mem_map_of_mem hq) _ List.mem_cons_self
  refine ⟨?_, ?_, ?_⟩
  · rw [hlist, List.map_append]
    exact hnodup.sublist (List.Sublist.append_left (List.sublist_cons_self _ _) _)
  · intro p hmem
    rw [hlist] at hmem
    apply h.allocated p
    rw [hsplit]
    exact (List.Sublist.append_left (List.sublist_cons_self _ _) pre).subset hmem
  · rw [Device.entries, hlist]
    apply owns_peerTeardown
    have howns := h.owns
    rw [Device.entries, hsplit] at howns
    convert howns using 1
    · rfl
    · simp only [List.map_append, List.map_cons, List.sum_append, List.sum_cons]
      abel

theorem foldl_peerTeardown (ps : List Peer) {n : ℕ} {rest : Multiset IndexEntry}
    (h : Owns dev.indexTable n ((ps.map Peer.entries).sum + rest)) :
    Owns (ps.foldl peerTeardown dev).indexTable n rest ∧
      (ps.foldl peerTeardown dev).nextAddr = dev.nextAddr ∧
      (ps.foldl peerTeardown dev).peers = dev.peers := by
  induction ps generalizing dev with
  | nil => exact ⟨by simpa using h, rfl, rfl⟩
  | cons p ps ih =>
    rw [List.map_cons, List.sum_cons, add_assoc] at h
    exact ih (owns_peerTeardown h)

theorem DeviceInv.deviceRemoveAllPeers (h : DeviceInv dev) :
    DeviceInv (deviceRemoveAllPeers dev) := by
  have howns : Owns { dev with peers := [] }.indexTable dev.nextAddr
      ((dev.peers.map Peer.entries).sum + 0) := by
    rw [add_zero]
    exact h.owns
  obtain ⟨htable, hnext, hpeers⟩ := foldl_peerTeardown dev.peers howns
  have hnone : (Wgx.deviceRemoveAllPeers dev).peers = [] := hpeers
  refine ⟨by rw [hnone]; simp, by rw [hnone]; simp, ?_⟩
  rw [Device.entries, hnone]
  exact hnext ▸ htable

theorem DeviceInv.deviceAddPeer (h : DeviceInv dev) (pk : List Byte) :
    DeviceInv (deviceAddPeer c dev pk) := by
  unfold Wgx.deviceAddPeer
  split_ifs
  · exact h
  · refine ⟨?_, ?_, ?_⟩
    · refine List.nodup_cons.2 ⟨?_, h.nodup⟩
      intro hmem
      obtain ⟨q, hq, heq⟩ := List.mem_map.1 hmem
      exact absurd (h.allocated q hq) (by rw [heq]; exact lt_irrefl _)
    · intro p hp
      rcases List.mem_cons.1 hp with rfl | hp
      · exact Nat.lt_succ_self _
      · exact (h.allocated p hp).trans (Nat.lt_succ_self _)
    · have hnone : (peerNew c dev pk).entries = 0 := rfl
      rw [Device.entries, List.map_cons, List.sum_cons, hnone, zero_add]
      exact h.owns.mono (Nat.le_succ _)

/-- Changes of the records that leave their addresses and entries alone keep the invariant. -/
theorem DeviceInv.map_peers (h : DeviceInv dev) {f : Peer → Peer} (haddr : ∀ p, (f p).addr = p.addr)
    (hentries : ∀ p, (f p).entries = p.entries) {d : Device} (hpeers : d.peers = dev.peers.map f)
    (htable : d.indexTable = dev.indexTable) (hnext : d.nextAddr = dev.nextAddr) : DeviceInv d := by
  refine ⟨?_, ?_, ?_⟩
  · rw [hpeers, List.map_map]
    simpa [Function.comp_def, haddr] using h.nodup
  · intro p hp
    rw [hpeers] at hp
    obtain ⟨q, hq, rfl⟩ := List.mem_map.1 hp
    rw [haddr, hnext]
    exact h.allocated q hq
  · rw [htable, hnext, Device.entries, hpeers, List.map_map]
    simpa [Function.comp_def, hentries, Device.entries] using h.owns

theorem DeviceInv.noiseSetStaticKey (h : DeviceInv dev) (priv : List Byte) :
    DeviceInv (noiseSetStaticKey c dev priv) := by
  unfold Wgx.noiseSetStaticKey
  exact h.map_peers (f := noisePrecomputeStaticStatic c _) (fun _ => rfl) (fun _ => rfl) rfl rfl rfl

end Device

/-! ### Steps -/

/-- What can happen to a device; peers are named by their addresses. -/
inductive DeviceEvent
  /-- A datagram arrives. -/
  | recv (env : Env) (fuel : ℕ) (src : Endpoint) (d : Datagram)
  /-- A packet is to be sent to a peer. -/
  | send (env : Env) (addr : ℕ) (pkt : List Byte)
  /-- A handshake is to be initiated. -/
  | initiate (env : Env) (addr : ℕ) (force : Bool)
  /-- A timer is due. -/
  | timer (env : Env) (addr : ℕ) (kind : TimerKind)
  | setPrivateKey (priv : List Byte)
  | addPeer (pk : List Byte)
  | removePeer (addr : ℕ)
  | removeAllPeers

section Steps

variable (c : Crypto)

/-- A call on the peer at an address; nothing happens if there is none. -/
def Device.call (dev : Device) (addr : ℕ) (f : Ctx → Ctx) : Handled :=
  match dev.peerAt addr with
  | none => .drop dev
  | some peer => (f (Ctx.start dev peer)).handled

/-- The timer of a peer is active and its time has come. -/
def Ctx.timerDue (env : Env) (x : Ctx) (kind : TimerKind) : Bool :=
  (x.peer.timers.due kind).any (· ≤ env.now.toNat)

/-- One step of a device: its state after the event, what it sent and what it wrote.  A datagram
whose handling does not come to an end takes it nowhere. -/
def deviceStep (dev : Device) : DeviceEvent → Handled
  | .recv env fuel src d => (onUdpRecv c env fuel dev src d).getD (.drop dev)
  | .send env addr pkt => dev.call addr fun x => deviceSendToPeer c env x pkt
  | .initiate env addr force => dev.call addr fun x => (deviceInitiateHandshakeInner c env x force).1
  | .timer env addr kind =>
    dev.call addr fun x => if x.timerDue env kind then fireTimer c env x kind else x
  | .setPrivateKey priv => .drop (noiseSetStaticKey c dev priv)
  | .addPeer pk => .drop (deviceAddPeer c dev pk)
  | .removePeer addr =>
    match dev.peerAt addr with
    | none => .drop dev
    | some peer => .drop (deviceRemovePeer dev peer)
  | .removeAllPeers => .drop (deviceRemoveAllPeers dev)

/-- The device after the events `es`. -/
def deviceRun (dev : Device) (es : List DeviceEvent) : Device :=
  Machine.run (fun d e => (deviceStep c d e).dev) dev es

variable {c} {dev : Device} {peer : Peer}

theorem deviceInv_deviceInit (c : Crypto) : DeviceInv (deviceInit c) :=
  ⟨List.nodup_nil, by simp [deviceInit], owns_empty 1⟩

/-- A call on the peer at an address touches that peer only. -/
theorem touched_call {env : Env} (addr : ℕ) {f : Ctx → Ctx} (hf : ∀ x, Kept env x (f x)) :
    Touched env dev (dev.call addr f).dev := by
  unfold Device.call
  split
  · exact Or.inl ⟨dev.cookieChecker, rfl⟩
  next peer hpeer =>
    exact Or.inr ⟨peer, _, _, called_start (Device.mem_of_peerAt hpeer).1 (hf _)⟩

theorem kept_timer {env : Env} (kind : TimerKind) (x : Ctx) :
    Kept env x (if x.timerDue env kind then fireTimer c env x kind else x) := by
  split_ifs
  · exact (kept_setTimer kind none).trans (kept_timerCallback kind)
  · exact Kept.refl x

/-- Every step keeps the invariant. -/
theorem DeviceInv.step (h : DeviceInv dev) (e : DeviceEvent) : DeviceInv (deviceStep c dev e).dev := by
  cases e with
  | recv env fuel src d =>
    simp only [deviceStep]
    cases hr : onUdpRecv c env fuel dev src d with
    | none => exact h
    | some r => exact h.touched (touched_onUdpRecv h hr)
  | send env addr pkt => exact h.touched (touched_call addr fun x => kept_deviceSendToPeer pkt)
  | initiate env addr force =>
    exact h.touched (touched_call addr fun x => kept_deviceInitiateHandshakeInner force)
  | timer env addr kind => exact h.touched (touched_call addr (kept_timer kind))
  | setPrivateKey priv => exact h.noiseSetStaticKey priv
  | addPeer pk => exact h.deviceAddPeer pk
  | removePeer addr =>
    simp only [deviceStep]
    split
    · exact h
    next peer hpeer => exact h.deviceRemovePeer (Device.mem_of_peerAt hpeer).1
  | removeAllPeers => exact h.deviceRemoveAllPeers

/-- Every run keeps the invariant. -/
theorem DeviceInv.run (h : DeviceInv dev) (es : List DeviceEvent) :
    DeviceInv (deviceRun c dev es) := by
  have hstep : ∀ d e, DeviceInv d → DeviceInv (deviceStep c d e).dev := fun _ e hd => hd.step e
  exact Machine.run_induction' _ hstep h es

theorem keypairs_entries (peer : Peer) :
    peer.entries.filterMap IndexEntry.keypair = (peer.keypairs.map Keypair.addr : List ℕ) := by
  have hhs : (handshakeEntries peer.addr peer.handshake.localIndex).filterMap IndexEntry.keypair =
      0 := by
    unfold handshakeEntries
    split_ifs <;> rfl
  have hslot : ∀ kp : Option Keypair, (slotEntries peer.addr kp).filterMap IndexEntry.keypair =
      (kp.toList.map Keypair.addr : List ℕ) := by
    intro kp
    cases kp <;> rfl
  simp [Peer.entries, Peer.keypairs, hhs, hslot]

/-- A keypair is in one slot only. -/
theorem DeviceInv.keypair_unique (h : DeviceInv dev) (hp : peer ∈ dev.peers) {kp : Keypair}
    (hkp : kp ∈ peer.keypairs) : peer.keypairs.filter (fun k => k.addr = kp.addr) = [kp] := by
  have hle : peer.entries ≤ dev.entries := by
    obtain ⟨pre, post, hsplit, -⟩ := Device.exists_frame h.nodup hp
    rw [Device.entries, hsplit]
    simp only [List.map_append, List.map_cons, List.sum_append, List.sum_cons]
    exact (Multiset.le_add_right _ _).trans (Multiset.le_add_left _ _)
  have hnodup : (peer.keypairs.map Keypair.addr).Nodup := by
    have := Multiset.nodup_of_le (Multiset.filterMap_le_filterMap _ hle) h.owns.unshared
    rwa [keypairs_entries, Multiset.coe_nodup] at this
  obtain ⟨pre, post, hsplit⟩ := List.append_of_mem hkp
  rw [hsplit, List.map_append, List.map_cons] at hnodup
  obtain ⟨-, hpost, hdisj⟩ := List.nodup_append.1 hnodup
  rw [hsplit, List.filter_append, List.filter_cons_of_pos (by simp), List.filter_eq_nil_iff.2,
    List.filter_eq_nil_iff.2]
  · rfl
  · intro q hq
    have := (List.nodup_cons.1 hpost).1
    simp only [decide_eq_true_eq]
    exact fun heq => this (heq ▸ List.mem_map_of_mem hq)
  · intro q hq
    simpa using hdisj _ (List.mem_map_of_mem hq) _ List.mem_cons_self

end Steps

/-- The entry belongs to the peer: it is the one of its handshake, or the one of a keypair that is
in exactly one of its three slots. -/
def BelongsTo (e : IndexEntry) (p : Peer) : Prop :=
  e.peer = p.addr ∧
    (e.type = .handshake ∧ e.handshake = some p.addr ∧ p.handshake.localIndex = e.index ∨
      e.type = .keypair ∧ ∃ kp : Keypair, e.keypair = some kp.addr ∧ kp.localIndex = e.index ∧
        p.keypairs.filter (fun k => k.addr = kp.addr) = [kp])

/-- The index table represents the handshakes and the keypairs of the peers. -/
structure IndexTableInv (dev : Device) : Prop where
  /-- An occupied slot holds an entry whose index is not zero and maps to that slot, and which
  belongs to a peer of the device; so no lookup returns a freed keypair or peer. -/
  occupied : ∀ s e, dev.indexTable s = some e → e.index ≠ 0 ∧ s = indexSlot e.index ∧
    ∃ p ∈ dev.peers, BelongsTo e p ∧ dev.peerAt e.peer = some p
  /-- A handshake with an index has its entry. -/
  handshake : ∀ p ∈ dev.peers, p.handshake.localIndex ≠ 0 → ∃ e,
    indexTableLookup dev.indexTable p.handshake.localIndex = some e ∧ e.type = .handshake ∧
      BelongsTo e p
  /-- A keypair in a slot has its entry. -/
  keypair : ∀ p ∈ dev.peers, ∀ kp ∈ p.keypairs, ∃ e,
    indexTableLookup dev.indexTable kp.localIndex = some e ∧ e.type = .keypair ∧
      e.keypair = some kp.addr ∧ BelongsTo e p
  /-- The slot of an index that is picked is free, also when another index was deleted before. -/
  allocation : ∀ old draw, pickRandomIndex (indexTableDelete dev.indexTable old) draw ≠ 0 →
    indexTableDelete dev.indexTable old
      (indexSlot (pickRandomIndex (indexTableDelete dev.indexTable old) draw)) = none

/-- **The index table of every reachable device.**  However datagrams, packets, timers and
configuration changes follow each other, the entries of the table are those of the handshakes and
the keypairs of the peers, no more and no fewer. -/
theorem index_table_invariant (c : Crypto) (es : List DeviceEvent) :
    IndexTableInv (deviceRun c (deviceInit c) es) := by
  have hinv : DeviceInv (deviceRun c (deviceInit c) es) := (deviceInv_deviceInit c).run es
  generalize deviceRun c (deviceInit c) es = dev at hinv
  have hbelongs : ∀ p ∈ dev.peers, ∀ e ∈ p.entries, BelongsTo e p := by
    intro p hp e he
    rcases mem_entries.1 he with ⟨h0, rfl⟩ | ⟨kp, hkp, rfl⟩
    · exact ⟨rfl, Or.inl ⟨rfl, rfl, rfl⟩⟩
    · exact ⟨rfl, Or.inr ⟨rfl, kp, rfl, rfl, hinv.keypair_unique hp hkp⟩⟩
  refine ⟨?_, ?_, ?_, fun old draw => free_of_pick⟩
  · intro s e hs
    have hslot := hinv.owns.sound s e hs
    have hlook : indexTableLookup dev.indexTable e.index = some e :=
      indexTableLookup_eq_some.2 ⟨hslot ▸ hs, rfl⟩
    obtain ⟨-, p, hp, hmem⟩ := hinv.lookup.1 hlook
    have hb := hbelongs p hp e hmem
    refine ⟨?_, hslot, p, hp, hb, ?_⟩
    · exact hinv.owns.nonzero e ((hinv.owns.lookup _ _).1 hlook).1
    · rw [hb.1]
      exact Device.peerAt_of_mem hinv.nodup hp
  · intro p hp h0
    have hmem : (⟨.handshake, p.handshake.localIndex, p.addr, some p.addr, none⟩ : IndexEntry) ∈
        p.entries := mem_entries.2 (Or.inl ⟨h0, rfl⟩)
    exact ⟨_, hinv.lookup.2 ⟨rfl, p, hp, hmem⟩, rfl, hbelongs p hp _ hmem⟩
  · intro p hp kp hkp
    have hmem : keypairEntry p.addr kp ∈ p.entries := mem_entries.2 (Or.inr ⟨kp, hkp, rfl⟩)
    exact ⟨_, hinv.lookup.2 ⟨rfl, p, hp, hmem⟩, rfl, rfl, hbelongs p hp _ hmem⟩

end Wgx
