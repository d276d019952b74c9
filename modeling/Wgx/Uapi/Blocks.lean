import Wgx.Device.Reachable
import Wgx.Uapi.Cursor
import Wgx.Uapi.Settings

/-!
# Which peer a line of a SET request is applied to

The loop of `process_set` follows the machine of `Cursor` line by line (`cursor_setLine`).  Two
things are read off it.

* `set_lines_applied_iff`: every line for a peer does what it says to the peer that the text names
  and to nothing else, and the AllowedIPs table has only peers of the device, exactly for the
  requests of `NamedRequest`.  After a malformed `public_key` line the loop keeps the peer of the
  block before;
* `replaced_peers`: after a request that replaces the peers, the peers are those whose last block is
  not marked `remove=true`.
-/

namespace Wgx

open AllowedIps (allowedipsWalk walkTree Visit Node Table)

/-! ### What a line is -/

/-- What matters of a key and its value for the list of peers. -/
def viewKey (key : UapiKey) (val : List Byte) : LineView :=
  match key with
  | .publicKey => .key (hexDecode val 32)
  | .replacePeers => if val = ascii "true" then .replacePeers else .other
  | key =>
    if key.perPeer then .peer (decide (key = .remove) && decide (val = ascii "true")) else .other

/-- What matters of a line for the list of peers. -/
def viewLine (line : List Byte) : LineView :=
  match strchr line (chr '=') with
  | none => .other
  | some eq =>
    match UapiKey.ofText (line.take eq) with
    | none => .other
    | some key =>
      if lineSize ≤ line.length then if key = .publicKey then .longKey else .other
      else viewKey key (line.drop (eq + 1))

/-- The addresses and keys of the peers. -/
def Device.ids (dev : Device) : List (ℕ × List Byte) := dev.peers.map fun p => (p.addr, p.publicKey)

/-- The variables of the loop, reduced to the list of peers. -/
def SetState.cursor (st : SetState) : Cursor :=
  ⟨st.dev.ids, st.dev.nextAddr, st.currentPeer, st.replacePeers, st.removePeer, st.aborted⟩

/-! ### The tables -/

section Tables

variable {P : Type*}

theorem mem_walkTree_nodeFork {bits : List Byte} {cidr v : ℕ} {peer : Option P} {bit : Bool}
    {s t : Node P} {x : Visit P}
    (h : x ∈ walkTree (AllowedIps.nodeFork bits cidr v peer bit s t)) :
    peer = some x.peer ∨ x ∈ walkTree s ∨ x ∈ walkTree t := by
  unfold AllowedIps.nodeFork AllowedIps.nodeNew at h
  split_ifs at h
  · simp only [walkTree, List.mem_append, Option.mem_toList, Option.map_eq_some_iff] at h
    rcases h with (⟨p, rfl, rfl⟩ | h) | h
    · exact Or.inl rfl
    · exact Or.inr (Or.inr h)
    · exact Or.inr (Or.inl h)
  · simp only [walkTree, List.mem_append, Option.mem_toList, Option.map_eq_some_iff] at h
    rcases h with (⟨p, rfl, rfl⟩ | h) | h
    · exact Or.inl rfl
    · exact Or.inr (Or.inl h)
    · exact Or.inr (Or.inr h)

theorem mem_walkTree_mk {cidr v : ℕ} {bits : List Byte} {peer : Option P} {s t : Node P}
    {x : Visit P} : x ∈ walkTree (.mk cidr bits v peer s t) ↔
      (∃ p, peer = some p ∧ x = ⟨bits, cidr, v, p⟩) ∨ x ∈ walkTree s ∨ x ∈ walkTree t := by
  simp only [walkTree, List.mem_append, Option.mem_toList, Option.map_eq_some_iff, or_assoc]
  refine or_congr ⟨?_, ?_⟩ Iff.rfl
  · rintro ⟨p, hp, rfl⟩
    exact ⟨p, hp, rfl⟩
  · rintro ⟨p, hp, rfl⟩
    exact ⟨p, hp, rfl⟩

/-- An insertion adds nodes of its peer only. -/
theorem mem_walkTree_insert {bits : List Byte} {cidr v : ℕ} {peer : P} {t : Node P} {x : Visit P}
    (h : x ∈ walkTree (AllowedIps.insert bits cidr v peer t)) :
    x.peer = peer ∨ x ∈ walkTree t := by
  have hnew : ∀ c, x ∈ walkTree (AllowedIps.nodeNew bits c v (some peer) .null .null) →
      x.peer = peer := by
    intro c hx
    rcases mem_walkTree_mk.1 hx with ⟨p, hp, rfl⟩ | hx | hx
    · exact (Option.some.inj hp).symm
    · cases hx
    · cases hx
  induction t with
  | null => exact Or.inl (hnew cidr h)
  | mk nodeCidr nodeBits nodeVersion nodePeer child0 child1 ih0 ih1 =>
    simp only [AllowedIps.insert] at h
    generalize AllowedIps.commonBits nodeBits bits (if nodeCidr < cidr then nodeCidr else cidr) =
      common at h
    split_ifs at h
    · rcases mem_walkTree_nodeFork h with h | h | h
      · exact Or.inl (Option.some.inj h).symm
      · exact Or.inr h
      · cases h
    · rcases mem_walkTree_nodeFork h with h | h | h
      · cases h
      · exact Or.inr h
      · exact Or.inl (hnew cidr h)
    · rcases mem_walkTree_mk.1 h with ⟨p, hp, rfl⟩ | h
      · exact Or.inl (Option.some.inj hp).symm
      · exact Or.inr (mem_walkTree_mk.2 (Or.inr h))
    · rcases mem_walkTree_nodeFork h with h | h | h
      · exact Or.inl (Option.some.inj h).symm
      · exact Or.inr h
      · cases h
    · rcases mem_walkTree_mk.1 h with hp | h | h
      · exact Or.inr (mem_walkTree_mk.2 (Or.inl hp))
      · exact Or.inr (mem_walkTree_mk.2 (Or.inr (Or.inl h)))
      · rcases ih1 h with h | h
        · exact Or.inl h
        · exact Or.inr (mem_walkTree_mk.2 (Or.inr (Or.inr h)))
    · rcases mem_walkTree_mk.1 h with hp | h | h
      · exact Or.inr (mem_walkTree_mk.2 (Or.inl hp))
      · rcases ih0 h with h | h
        · exact Or.inl h
        · exact Or.inr (mem_walkTree_mk.2 (Or.inr (Or.inl h)))
      · exact Or.inr (mem_walkTree_mk.2 (Or.inr (Or.inr h)))

/-- A removal leaves the nodes of the other peers. -/
theorem mem_walkTree_remove [DecidableEq P] {peer : P} {t : Node P} {x : Visit P}
    (h : x ∈ walkTree (AllowedIps.removePeerFromTree peer t)) :
    x ∈ walkTree t ∧ x.peer ≠ peer := by
  induction t with
  | null => cases h
  | mk cidr bits v nodePeer child0 child1 ih0 ih1 =>
    rw [AllowedIps.removePeerFromTree] at h
    rcases mem_walkTree_mk.1 h with ⟨p, hp, rfl⟩ | h | h
    · split_ifs at hp with hne
      exact ⟨mem_walkTree_mk.2 (Or.inl ⟨p, hp, rfl⟩), fun heq => hne (hp.trans (congrArg some heq))⟩
    · exact ⟨mem_walkTree_mk.2 (Or.inr (Or.inl (ih0 h).1)), (ih0 h).2⟩
    · exact ⟨mem_walkTree_mk.2 (Or.inr (Or.inr (ih1 h).1)), (ih1 h).2⟩

theorem mem_walk {t : Table P} {x : Visit P} :
    x ∈ allowedipsWalk t ↔ x ∈ walkTree t.root4 ∨ x ∈ walkTree t.root6 := List.mem_append

theorem mem_walk_insertV4 {t : Table P} {addr : InAddr} {cidr : ℕ} {peer : P} {x : Visit P}
    (h : x ∈ allowedipsWalk (AllowedIps.allowedipsInsertV4 t addr cidr peer).1) :
    x.peer = peer ∨ x ∈ allowedipsWalk t := by
  unfold AllowedIps.allowedipsInsertV4 at h
  split_ifs at h
  · exact Or.inr h
  · rcases mem_walk.1 h with h | h
    · rcases mem_walkTree_insert h with h | h
      · exact Or.inl h
      · exact Or.inr (mem_walk.2 (Or.inl h))
    · exact Or.inr (mem_walk.2 (Or.inr h))

theorem mem_walk_insertV6 {t : Table P} {addr : In6Addr} {cidr : ℕ} {peer : P} {x : Visit P}
    (h : x ∈ allowedipsWalk (AllowedIps.allowedipsInsertV6 t addr cidr peer).1) :
    x.peer = peer ∨ x ∈ allowedipsWalk t := by
  unfold AllowedIps.allowedipsInsertV6 at h
  split_ifs at h
  · exact Or.inr h
  · rcases mem_walk.1 h with h | h
    · exact Or.inr (mem_walk.2 (Or.inl h))
    · rcases mem_walkTree_insert h with h | h
      · exact Or.inl h
      · exact Or.inr (mem_walk.2 (Or.inr h))

theorem mem_walk_remove [DecidableEq P] {t : Table P} {peer : P} {x : Visit P}
    (h : x ∈ allowedipsWalk (AllowedIps.allowedipsRemovePeer t peer)) :
    x ∈ allowedipsWalk t ∧ x.peer ≠ peer := by
  rcases mem_walk.1 h with h | h
  · exact ⟨mem_walk.2 (Or.inl (mem_walkTree_remove h).1), (mem_walkTree_remove h).2⟩
  · exact ⟨mem_walk.2 (Or.inr (mem_walkTree_remove h).1), (mem_walkTree_remove h).2⟩

end Tables

/-! ### What a line does to the peers -/

/-- Every peer that the AllowedIPs table of the device points to is a peer of the device. -/
def Device.Pointers (dev : Device) : Prop :=
  ∀ v ∈ allowedipsWalk dev.allowedips, ∃ p ∈ dev.peers, p.addr = v.peer

/-- The device is changed at one peer only: another record of it, and nodes for it in the table. -/
inductive PeerEdit (peer : Peer) (dev : Device) : Device → Prop
  | none : PeerEdit peer dev dev
  | edit (t : Table ℕ) (p : Peer) (haddr : p.addr = peer.addr) (hkey : p.publicKey = peer.publicKey)
    (ht : ∀ v ∈ allowedipsWalk t, v.peer = peer.addr ∨ v ∈ allowedipsWalk dev.allowedips) :
    PeerEdit peer dev (Device.store { dev with allowedips := t } p)

section Edit

variable {c : Crypto} {env : Env} {dev dev' : Device} {peer : Peer} {st : SetState}
  {key : UapiKey} {val buf : List Byte}

/-- A change of the record alone. -/
theorem peerEdit_store {p : Peer} (haddr : p.addr = peer.addr) (hkey : p.publicKey = peer.publicKey) :
    PeerEdit peer dev (dev.store p) :=
  .edit dev.allowedips p haddr hkey fun _ => Or.inr

/-- The variables that a line for a peer leaves alone. -/
structure Edited (peer : Peer) (st st' : SetState) (marks : Bool) : Prop where
  dev : PeerEdit peer st.dev st'.dev
  current : st'.currentPeer = st.currentPeer
  gone : st'.gone = st.gone
  replace : st'.replacePeers = st.replacePeers
  remove : st'.removePeer = (st.removePeer || marks)
  aborted : st'.aborted = st.aborted

theorem edited_of_dev {st' : SetState} (h : PeerEdit peer st.dev st'.dev)
    (heq : st' = { st with dev := st'.dev, err := st'.err }) : Edited peer st st' false := by
  rw [heq]
  exact ⟨h, rfl, rfl, rfl, (Bool.or_false _).symm, rfl⟩

theorem edited_setAllowedIp : Edited peer st (setAllowedIp st peer val) false := by
  unfold setAllowedIp
  split
  · exact edited_of_dev .none rfl
  · split_ifs
    · exact edited_of_dev .none rfl
    · simp only
      split
      · refine edited_of_dev ?_ rfl
        exact .edit _ _ rfl rfl fun v hv => mem_walk_insertV4 hv
      · split
        · refine edited_of_dev ?_ rfl
          exact .edit _ _ rfl rfl fun v hv => mem_walk_insertV6 hv
        · exact edited_of_dev .none rfl

/-- A line for a peer edits that peer. -/
theorem edited_setPeerLine (env : Env) (st : SetState) (peer : Peer) (val buf : List Byte)
    (hkey : key.perPeer = true) :
    Edited peer st (setPeerLine env st peer key val buf)
      (decide (key = .remove) && decide (val = ascii "true")) := by
  cases key with
  | remove =>
    simp only [setPeerLine]
    split_ifs with htrue
    · exact ⟨.none, rfl, rfl, rfl, by simp [htrue], rfl⟩
    · exact ⟨.none, rfl, rfl, rfl, by simp [htrue], rfl⟩
  | presharedKey =>
    simp only [setPeerLine]
    split
    · exact edited_of_dev (peerEdit_store rfl rfl) rfl
    · exact edited_of_dev .none rfl
  | endpoint =>
    simp only [setPeerLine]
    split
    · exact edited_of_dev (peerEdit_store rfl rfl) rfl
    · exact edited_of_dev .none rfl
  | persistentKeepaliveInterval =>
    refine edited_of_dev (peerEdit_store ?_ ?_) rfl
    · unfold timersPersistentKeepaliveSet
      split_ifs <;> rfl
    · unfold timersPersistentKeepaliveSet
      split_ifs <;> rfl
  | replaceAllowedIps =>
    simp only [setPeerLine]
    split_ifs
    · refine edited_of_dev ?_ rfl
      exact .edit _ _ rfl rfl fun v hv => Or.inr (mem_walk_remove hv).1
    · exact edited_of_dev .none rfl
  | allowedIp => exact edited_setAllowedIp
  | privateKey => cases hkey
  | listenPort => cases hkey
  | fwmark => cases hkey
  | replacePeers => cases hkey
  | publicKey => cases hkey

theorem PeerEdit.ids (h : PeerEdit peer dev dev')
    (hpeer : ∀ p ∈ dev.peers, p.addr = peer.addr → p = peer) : dev'.ids = dev.ids := by
  cases h with
  | none => rfl
  | edit t p haddr hkey ht =>
    unfold Device.ids Device.store
    rw [List.map_map]
    apply List.map_congr_left
    intro q hq
    simp only [Function.comp_apply]
    split_ifs with hq'
    · rw [hpeer q hq (hq'.trans haddr), haddr, hkey]
    · rfl

theorem PeerEdit.nextAddr (h : PeerEdit peer dev dev') : dev'.nextAddr = dev.nextAddr := by
  cases h <;> rfl

theorem PeerEdit.table (h : PeerEdit peer dev dev') {v : Visit ℕ}
    (hv : v ∈ allowedipsWalk dev'.allowedips) :
    v.peer = peer.addr ∨ v ∈ allowedipsWalk dev.allowedips := by
  cases h with
  | none => exact Or.inr hv
  | edit t q haddr hkey ht => exact ht v hv

end Edit

/-! ### Removals -/

section Removals

variable {dev : Device}

theorem foldl_peerTeardown_table (ps : List Peer) (dev : Device) :
    (ps.foldl peerTeardown dev).peers = dev.peers ∧
      (ps.foldl peerTeardown dev).nextAddr = dev.nextAddr ∧
      ∀ v ∈ allowedipsWalk (ps.foldl peerTeardown dev).allowedips,
        v ∈ allowedipsWalk dev.allowedips ∧ ∀ p ∈ ps, v.peer ≠ p.addr := by
  induction ps generalizing dev with
  | nil => exact ⟨rfl, rfl, fun v hv => ⟨hv, fun p hp => by cases hp⟩⟩
  | cons p ps ih =>
    obtain ⟨hpeers, hnext, hwalk⟩ := ih (peerTeardown dev p)
    refine ⟨hpeers, hnext, fun v hv => ?_⟩
    obtain ⟨hv, hps⟩ := hwalk v hv
    obtain ⟨hv, hp⟩ := mem_walk_remove hv
    refine ⟨hv, fun q hq => ?_⟩
    rcases List.mem_cons.1 hq with rfl | hq
    · exact hp
    · exact hps q hq

theorem ids_deviceRemoveAllPeers (dev : Device) : (deviceRemoveAllPeers dev).ids = [] := by
  unfold Device.ids deviceRemoveAllPeers
  rw [(foldl_peerTeardown_table _ _).1]
  rfl

theorem nextAddr_deviceRemoveAllPeers (dev : Device) :
    (deviceRemoveAllPeers dev).nextAddr = dev.nextAddr := (foldl_peerTeardown_table _ _).2.1

theorem ids_deviceRemovePeer (dev : Device) (peer : Peer) :
    (deviceRemovePeer dev peer).ids = dev.ids.filter fun i => i.1 ≠ peer.addr := by
  show (dev.peers.filter fun p => p.addr ≠ peer.addr).map _ = _
  unfold Device.ids
  rw [List.filter_map]
  rfl

theorem peerAt_isSome {addr : ℕ} : (dev.peerAt addr).isSome ↔ addr ∈ dev.ids.map Prod.fst := by
  simp [Device.peerAt, Device.ids]

theorem find_ids (pk : List Byte) :
    (dev.ids.find? fun i => i.2 = pk).map Prod.fst = (deviceFindPeer dev pk).map Peer.addr := by
  unfold Device.ids deviceFindPeer
  rw [List.find?_map, Option.map_map]
  rfl

/-- Removing all peers empties the table. -/
theorem pointers_deviceRemoveAllPeers (h : dev.Pointers) : (deviceRemoveAllPeers dev).Pointers := by
  intro v hv
  obtain ⟨hv, hps⟩ := (foldl_peerTeardown_table dev.peers { dev with peers := [] }).2.2 v hv
  obtain ⟨p, hp, heq⟩ := h v hv
  exact absurd heq.symm (hps p hp)

theorem pointers_deviceRemovePeer {peer : Peer} (h : dev.Pointers) :
    (deviceRemovePeer dev peer).Pointers := by
  intro v hv
  obtain ⟨hv, hne⟩ := mem_walk_remove hv
  obtain ⟨p, hp, heq⟩ := h v hv
  refine ⟨p, ?_, heq⟩
  show p ∈ dev.peers.filter fun p => p.addr ≠ peer.addr
  rw [List.mem_filter]
  exact ⟨hp, by simpa [heq] using hne⟩

end Removals

/-! ### The loop follows the machine -/

/-- The peers are distinct records, and the current one is a record that is still there. -/
structure SetInv (st : SetState) : Prop where
  nodup : (st.dev.ids.map Prod.fst).Nodup
  allocated : ∀ i ∈ st.dev.ids, i.1 < st.dev.nextAddr
  current : ∀ addr, st.currentPeer = some addr →
    addr ∈ st.dev.ids.map Prod.fst ∨ ∃ p ∈ st.gone, p.addr = addr

section Loop

variable {c : Crypto} {env : Env} {st : SetState} {peer : Peer} {addr : ℕ} {key : UapiKey}
  {val buf : List Byte}

theorem map_fst_ids (dev : Device) : dev.ids.map Prod.fst = dev.peers.map Peer.addr := by
  rw [Device.ids, List.map_map]
  rfl

theorem SetInv.record (h : SetInv st) (hcur : st.currentPeer = some addr) :
    (st.record addr).isSome := by
  rw [SetState.record, Option.isSome_or, Bool.or_eq_true]
  rcases h.current addr hcur with hmem | ⟨p, hp, rfl⟩
  · exact Or.inl (peerAt_isSome.2 hmem)
  · exact Or.inr (List.find?_isSome.2 ⟨p, hp, by simp⟩)

/-- The record of a pointer has its address, and no other peer of the device has. -/
theorem SetInv.record_spec (h : SetInv st) (hr : st.record addr = some peer) :
    peer.addr = addr ∧ ∀ p ∈ st.dev.peers, p.addr = peer.addr → p = peer := by
  have hnodup := h.nodup
  rw [map_fst_ids] at hnodup
  cases hat : st.dev.peerAt addr with
  | some q =>
    rw [SetState.record, hat, Option.some_or] at hr
    cases hr
    obtain ⟨hmem, haddr⟩ := Device.mem_of_peerAt hat
    exact ⟨haddr, fun p hp heq => List.inj_on_of_nodup_map hnodup hp hmem heq⟩
  | none =>
    rw [SetState.record, hat, Option.none_or] at hr
    have haddr : peer.addr = addr := by simpa using List.find?_some hr
    refine ⟨haddr, fun p hp heq => ?_⟩
    have hnone := List.find?_eq_none.1 hat p hp
    simp only [decide_eq_true_eq] at hnone
    exact absurd (heq.trans haddr) hnone

theorem cursor_removeCurrent (st : SetState) :
    st.removeCurrent.cursor = st.cursor.removeCurrent := by
  obtain ⟨dev, current, gone, replace, remove, err, aborted, line⟩ := st
  cases current with
  | none => rfl
  | some addr =>
    simp only [SetState.removeCurrent, Cursor.removeCurrent, SetState.cursor]
    cases hat : dev.peerAt addr with
    | some peer =>
      have hmem : addr ∈ dev.ids.map Prod.fst := peerAt_isSome.1 (by rw [hat]; rfl)
      obtain ⟨-, rfl⟩ := Device.mem_of_peerAt hat
      simp only [hmem, if_true, ids_deviceRemovePeer]
      rfl
    | none =>
      have hmem : addr ∉ dev.ids.map Prod.fst := by
        rw [← peerAt_isSome, hat]
        simp
      simp only [hmem, if_false]

theorem cursor_removeAll (st : SetState) :
    ({ st.removeAll with replacePeers := false } : SetState).cursor =
      { st.cursor with ids := [], replace := false } := by
  simp only [SetState.cursor, SetState.removeAll, ids_deviceRemoveAllPeers,
    nextAddr_deviceRemoveAllPeers]

theorem cursor_endBlock (st : SetState) : st.endBlock.cursor = st.cursor.endBlock := by
  have hdone : ∀ cu cu' : Cursor, cu = cu' →
      ({ cu with remove := false } : Cursor) = { cu' with remove := false } := by
    rintro cu _ rfl
    rfl
  obtain ⟨dev, current, gone, replace, remove, err, aborted, line⟩ := st
  cases replace <;> cases remove
  · rfl
  · exact hdone _ _ (cursor_removeCurrent _)
  · exact hdone _ _ (cursor_removeAll _)
  · refine hdone _ _ ((cursor_removeCurrent _).trans ?_)
    exact congrArg Cursor.removeCurrent (cursor_removeAll _)

theorem cursor_setPublicKey (hal : st.aborted = false) :
    (setPublicKey c st val).cursor = st.cursor.step (.key (hexDecode val 32)) := by
  have hend := cursor_endBlock st
  have hal' : st.cursor.aborted ≠ true := by
    simp [SetState.cursor, hal]
  rw [Cursor.step, if_neg hal', ← hend]
  unfold setPublicKey
  generalize st.endBlock = s
  show _ = if s.aborted then s.cursor else _
  by_cases hab : s.aborted = true
  · rw [if_pos hab, if_pos hab]
  · rw [if_neg hab, if_neg hab]
    cases hexDecode val 32 with
    | none => rfl
    | some pk =>
      have hfind : s.cursor.find pk = (deviceFindPeer s.dev pk).map Peer.addr := find_ids pk
      simp only [Cursor.open, hfind]
      cases hp : deviceFindPeer s.dev pk with
      | some peer => rfl
      | none =>
        simp only [SetState.cursor, Option.map_none, deviceAddPeer, hp, Option.isSome_none,
          Bool.false_eq_true, if_false]
        rfl

theorem ids_noiseSetStaticKey (dev : Device) (priv : List Byte) :
    (noiseSetStaticKey c dev priv).ids = dev.ids := by
  simp only [Device.ids, noiseSetStaticKey, List.map_map]
  rfl

theorem cursor_setKeyLine (st : SetState) (h : SetInv st) (hal : st.aborted = false) :
    (setKeyLine c env st key val buf).cursor = st.cursor.step (viewKey key val) := by
  have hal' : st.cursor.aborted ≠ true := by
    simp [SetState.cursor, hal]
  have hpeer : key.perPeer = true → ∀ peer, st.currentPeer.bind st.record = some peer →
      (setPeerLine env st peer key val buf).cursor = st.cursor.step
        (.peer (decide (key = .remove) && decide (val = ascii "true"))) := by
    intro hkey peer hp
    obtain ⟨addr, hcur, hr⟩ := Option.bind_eq_some_iff.1 hp
    obtain ⟨hdev, hcurrent, -, hreplace, hremove, habort⟩ :=
      edited_setPeerLine env st peer val buf hkey
    have hids := hdev.ids (h.record_spec hr).2
    have hnext := hdev.nextAddr
    rw [Cursor.step, if_neg hal']
    simp only [SetState.cursor, hids, hnext, hcurrent, hreplace, hremove, habort, hcur,
      Option.isSome_some, true_and]
    split_ifs with hmark
    · rw [hmark, Bool.or_true]
    · rw [Bool.not_eq_true] at hmark
      rw [hmark, Bool.or_false]
  have hnone : ∀ marks, st.currentPeer.bind st.record = none →
      st.cursor = st.cursor.step (.peer marks) := by
    intro marks hp
    have hcur : st.currentPeer = none := by
      rw [Option.eq_none_iff_forall_ne_some]
      intro addr hcur
      have hsome := h.record hcur
      rw [hcur, Option.bind_some] at hp
      rw [hp] at hsome
      cases hsome
    rw [Cursor.step, if_neg hal']
    simp [SetState.cursor, hcur]
  have hline : key.perPeer = true → (setKeyLine c env st key val buf).cursor = st.cursor.step
      (.peer (decide (key = .remove) && decide (val = ascii "true"))) := by
    intro hkey
    cases hp : st.currentPeer.bind st.record with
    | none => rw [setKeyLine_of_none hkey hp]; exact hnone _ hp
    | some peer => rw [setKeyLine_of_some hkey hp]; exact hpeer hkey peer hp
  have hother : st.cursor = st.cursor.step .other := by
    rw [Cursor.step, if_neg hal']
  cases key with
  | publicKey => exact cursor_setPublicKey hal
  | remove => exact hline rfl
  | presharedKey => exact hline rfl
  | endpoint => exact hline rfl
  | persistentKeepaliveInterval => exact hline rfl
  | replaceAllowedIps => exact hline rfl
  | allowedIp => exact hline rfl
  | privateKey =>
    refine Eq.trans ?_ hother
    simp only [setKeyLine]
    split
    · simp only [SetState.cursor, ids_noiseSetStaticKey]
      rfl
    · rfl
  | listenPort =>
    refine Eq.trans ?_ hother
    simp only [setKeyLine]
    split_ifs <;> rfl
  | fwmark => exact hother
  | replacePeers =>
    simp only [setKeyLine, viewKey]
    split_ifs
    · rw [Cursor.step, if_neg hal']
      rfl
    · exact hother

/-- **The loop follows the machine** line by line. -/
theorem cursor_setLine (c : Crypto) (env : Env) (h : SetInv st) (line : List Byte) :
    (setLine c env st line).cursor = st.cursor.step (viewLine line) := by
  unfold setLine
  by_cases hab : st.aborted = true
  · rw [if_pos hab, Cursor.step_aborted hab]
  · rw [if_neg hab]
    rw [Bool.not_eq_true] at hab
    have hal' : st.cursor.aborted ≠ true := by
      simp [SetState.cursor, hab]
    have hother : ∀ v, v = .other ∨ v = .longKey → st.cursor = st.cursor.step v := by
      rintro v (rfl | rfl) <;> rw [Cursor.step, if_neg hal']
    unfold viewLine
    cases heq : strchr line (chr '=') with
    | none =>
      simp only
      split_ifs <;> exact hother _ (Or.inl rfl)
    | some eq =>
      cases hkey : UapiKey.ofText (line.take eq) with
      | none =>
        simp only [hkey]
        split_ifs <;> exact hother _ (Or.inl rfl)
      | some key =>
        simp only [hkey]
        by_cases hlong : lineSize ≤ line.length
        · simp only [if_pos hlong]
          split_ifs
          · exact hother _ (Or.inr rfl)
          · exact hother _ (Or.inl rfl)
        · simp only [if_neg hlong]
          exact cursor_setKeyLine { st with line := _ } { h with } hab

/-- The record at an address is a peer of the device, or was one during the call. -/
def SetState.Here (st : SetState) (addr : ℕ) : Prop :=
  addr ∈ st.dev.ids.map Prod.fst ∨ ∃ p ∈ st.gone, p.addr = addr

theorem here_removeAll (st : SetState) (h : st.Here addr) : st.removeAll.Here addr := by
  right
  rcases h with h | ⟨p, hp, heq⟩
  · rw [map_fst_ids] at h
    obtain ⟨p, hp, heq⟩ := List.mem_map.1 h
    exact ⟨p, List.mem_append_left _ hp, heq⟩
  · exact ⟨p, List.mem_append_right _ hp, heq⟩

theorem here_removeCurrent (st : SetState) (h : st.Here addr) : st.removeCurrent.Here addr := by
  unfold SetState.removeCurrent
  split
  · exact h
  next a hcur =>
    split
    next peer hat =>
      rcases h with h | ⟨p, hp, heq⟩
      · by_cases hne : addr = peer.addr
        · exact Or.inr ⟨peer, List.mem_cons_self, hne.symm⟩
        · left
          rw [ids_deviceRemovePeer]
          obtain ⟨i, hi, rfl⟩ := List.mem_map.1 h
          exact List.mem_map_of_mem (List.mem_filter.2 ⟨hi, by simpa using hne⟩)
      · exact Or.inr ⟨p, List.mem_cons_of_mem _ hp, heq⟩
    · exact h

theorem here_endBlock (h : st.Here addr) : st.endBlock.Here addr := by
  obtain ⟨dev, current, gone, replace, remove, err, aborted, line⟩ := st
  cases replace <;> cases remove
  · exact h
  · exact here_removeCurrent (.mk dev current gone false true err aborted line) h
  · exact here_removeAll (.mk dev current gone true false err aborted line) h
  · have hall := here_removeAll (.mk dev current gone true true err aborted line) h
    exact here_removeCurrent { (SetState.mk dev current gone true true err aborted
      line).removeAll with replacePeers := false } hall

theorem currentPeer_endBlock (st : SetState) : st.endBlock.currentPeer = st.currentPeer := by
  have h := congrArg Cursor.current (cursor_endBlock st)
  exact h.trans st.cursor.endBlock_frame.1

/-- The current peer of every line is a record that is still there. -/
theorem here_setKeyLine (st : SetState) (h : SetInv st)
    (hcur : (setKeyLine c env st key val buf).currentPeer = some addr) :
    (setKeyLine c env st key val buf).Here addr := by
  have hline : key.perPeer = true → (setKeyLine c env st key val buf).currentPeer = some addr →
      (setKeyLine c env st key val buf).Here addr := by
    intro hkey hcur
    cases hp : st.currentPeer.bind st.record with
    | none =>
      rw [setKeyLine_of_none hkey hp] at hcur ⊢
      exact h.current addr hcur
    | some peer =>
      rw [setKeyLine_of_some hkey hp] at hcur ⊢
      obtain ⟨a, -, hr⟩ := Option.bind_eq_some_iff.1 hp
      have hedit := edited_setPeerLine env st peer val buf hkey
      have hids := hedit.dev.ids (h.record_spec hr).2
      simp only [SetState.Here, hids, hedit.gone]
      exact h.current addr (hedit.current.symm.trans hcur)
  have hsame : ∀ s : SetState, s.dev.ids = st.dev.ids → s.gone = st.gone →
      s.currentPeer = st.currentPeer → s.currentPeer = some addr → s.Here addr := by
    intro s hids hgone hcur' hcur
    rw [SetState.Here, hids, hgone]
    exact h.current addr (hcur'.symm.trans hcur)
  cases key with
  | publicKey =>
    simp only [setKeyLine, setPublicKey] at hcur ⊢
    have hold : st.endBlock.currentPeer = some addr → st.endBlock.Here addr := by
      intro hcur
      rw [currentPeer_endBlock] at hcur
      exact here_endBlock (h.current addr hcur)
    by_cases hab : st.endBlock.aborted = true
    · rw [if_pos hab] at hcur ⊢
      exact hold hcur
    · rw [if_neg hab] at hcur ⊢
      cases hpk : hexDecode val 32 with
      | none =>
        rw [hpk] at hcur
        exact hold hcur
      | some pk =>
        rw [hpk] at hcur
        cases hp : deviceFindPeer st.endBlock.dev pk with
        | some peer =>
          simp only [hp] at hcur ⊢
          left
          cases hcur
          rw [map_fst_ids]
          exact List.mem_map_of_mem (Device.mem_of_findPeer hp).1
        | none =>
          simp only [hp] at hcur ⊢
          left
          cases hcur
          simp [deviceAddPeer, hp, Device.ids, peerNew, noisePrecomputeStaticStatic]
  | remove => exact hline rfl hcur
  | presharedKey => exact hline rfl hcur
  | endpoint => exact hline rfl hcur
  | persistentKeepaliveInterval => exact hline rfl hcur
  | replaceAllowedIps => exact hline rfl hcur
  | allowedIp => exact hline rfl hcur
  | privateKey =>
    simp only [setKeyLine] at hcur ⊢
    cases hpriv : hexDecode val 32 with
    | some priv =>
      rw [hpriv] at hcur
      exact hsame _ (ids_noiseSetStaticKey _ _) rfl rfl hcur
    | none =>
      rw [hpriv] at hcur
      exact hsame _ rfl rfl rfl hcur
  | listenPort =>
    simp only [setKeyLine] at hcur ⊢
    split_ifs at hcur ⊢ <;> exact hsame _ rfl rfl rfl hcur
  | fwmark => exact hsame _ rfl rfl rfl hcur
  | replacePeers =>
    simp only [setKeyLine] at hcur ⊢
    split_ifs at hcur ⊢ <;> exact hsame _ rfl rfl rfl hcur

theorem SetInv.setLine (h : SetInv st) (line : List Byte) : SetInv (setLine c env st line) := by
  have hcursor := cursor_setLine c env h line
  have haddrs : (st.cursor.step (viewLine line)).Addrs :=
    Cursor.Addrs.step ⟨h.nodup, h.allocated⟩ _
  rw [← hcursor] at haddrs
  refine ⟨haddrs.nodup, haddrs.fresh, fun addr hcur => ?_⟩
  unfold Wgx.setLine at hcur ⊢
  by_cases hab : st.aborted = true
  · rw [if_pos hab] at hcur ⊢
    exact h.current addr hcur
  · rw [if_neg hab] at hcur ⊢
    by_cases hlong : lineSize ≤ line.length
    · rw [if_pos hlong] at hcur ⊢
      exact h.current addr hcur
    · rw [if_neg hlong] at hcur ⊢
      cases heq : strchr line (chr '=') with
      | none =>
        simp only [heq] at hcur ⊢
        exact h.current addr hcur
      | some eq =>
        cases hkey : UapiKey.ofText (line.take eq) with
        | none =>
          simp only [heq, hkey] at hcur ⊢
          exact h.current addr hcur
        | some key =>
          simp only [heq, hkey] at hcur ⊢
          exact here_setKeyLine { st with line := _ } { h with } hcur

end Loop

/-! ### Whole requests -/

/-- The peers of the device are distinct records. -/
structure Device.Allocated (dev : Device) : Prop where
  nodup : (dev.peers.map Peer.addr).Nodup
  allocated : ∀ p ∈ dev.peers, p.addr < dev.nextAddr

/-- And the AllowedIPs table points to no other record. -/
structure Device.Linked (dev : Device) : Prop extends dev.Allocated where
  pointers : dev.Pointers

/-- Every device that the events of a run lead to is of this kind. -/
theorem DeviceInv.toAllocated {dev : Device} (h : DeviceInv dev) : dev.Allocated :=
  ⟨h.nodup, h.allocated⟩

section Requests

variable (c : Crypto) (env : Env) {dev : Device} (stack : List Byte) {lines : List (List Byte)}

theorem setInv_start (h : dev.Allocated) : SetInv (.start dev stack) := by
  refine ⟨?_, ?_, ?_⟩
  · show (dev.ids.map Prod.fst).Nodup
    rw [map_fst_ids]
    exact h.nodup
  · intro i hi
    obtain ⟨p, hp, rfl⟩ := List.mem_map.1 hi
    exact h.allocated p hp
  · intro addr hcur
    cases hcur

theorem setRun_snoc (line : List Byte) :
    setRun c env dev stack (lines ++ [line]) = setLine c env (setRun c env dev stack lines) line :=
  Machine.run_snoc _ _ _ _

theorem setInv_setRun (h : dev.Allocated) (lines : List (List Byte)) :
    SetInv (setRun c env dev stack lines) :=
  Machine.run_induction' _ (fun _ line hst => hst.setLine line) (setInv_start stack h) lines

/-- The loop after some lines is the machine after their views. -/
theorem cursor_setRun (h : dev.Allocated) (lines : List (List Byte)) :
    (setRun c env dev stack lines).cursor =
      (Cursor.start dev.ids dev.nextAddr).run (lines.map viewLine) := by
  induction lines using List.reverseRecOn with
  | nil => rfl
  | append_singleton lines line ih =>
    rw [setRun_snoc, cursor_setLine c env (setInv_setRun c env stack h lines), ih, List.map_append, List.map_singleton,
      Cursor.run_snoc]

variable {c env stack}

theorem cursor_finish (st : SetState) : st.finish.cursor = st.cursor.finish := by
  unfold SetState.finish Cursor.finish
  show _ = if st.aborted then st.cursor else if st.removePeer then _ else _
  split_ifs
  · rfl
  · exact cursor_removeCurrent st
  · rfl

/-- The peer that the lines `pre` name last, if their last `public_key` line is well formed and the
device has a peer with that key. -/
def namedPeer (dev : Device) (pre : List (List Byte)) : Option ℕ :=
  (named (pre.map viewLine)).bind fun pk => (deviceFindPeer dev pk).map Peer.addr

/-- The line is one of those that configure a peer. -/
def isPeerLine (line : List Byte) : Prop := ∃ marks, viewLine line = .peer marks

/-- A line `remove=true` of the last block was applied to the peer at the address. -/
def RemovalMarked (c : Crypto) (env : Env) (dev : Device) (stack : List Byte)
    (lines : List (List Byte)) (addr : ℕ) : Prop :=
  ∃ pre line post, lines = pre ++ line :: post ∧ viewLine line = .peer true ∧
    (∀ l ∈ post, (viewLine l).isKey = false) ∧
    namedPeer (setRun c env dev stack pre).dev pre = some addr

/-- All peers are to be replaced, or a line `remove=true` of the last block was applied to the peer at
the address. -/
def RemovalAsked (c : Crypto) (env : Env) (dev : Device) (stack : List Byte)
    (lines : List (List Byte)) (addr : ℕ) : Prop :=
  .replacePeers ∈ sinceKey (lines.map viewLine) ∨ RemovalMarked c env dev stack lines addr

/-- The lines of a request are applied to the peers that the text names. -/
structure LinesApplied (c : Crypto) (env : Env) (dev : Device) (stack data : List Byte) : Prop where
  /-- A line for a peer does what it says to the peer that is named, and to nothing else; if none is
  named, or it is no longer there, the line changes nothing. -/
  applied : ∀ pre line post, setLines data = pre ++ line :: post → isPeerLine line →
    ∀ st, st = setRun c env dev stack pre →
      st.currentPeer = namedPeer st.dev pre ∧
      (namedPeer st.dev pre = none → (setLine c env st line).dev = st.dev) ∧
      ∀ addr, namedPeer st.dev pre = some addr →
        SettingApplied env addr (lineSetting st.line line) st.dev (setLine c env st line).dev
  /-- A line removes no peer that is not to be removed. -/
  removed : ∀ pre line post, setLines data = pre ++ line :: post →
    ∀ p ∈ (setRun c env dev stack pre).dev.peers,
      (∃ q ∈ (setLine c env (setRun c env dev stack pre) line).dev.peers, q.addr = p.addr) ∨
      RemovalAsked c env dev stack pre p.addr
  /-- Nor does the end of the request. -/
  finished : ∀ p ∈ (setRun c env dev stack (setLines data)).dev.peers,
    (∃ q ∈ (processSet c env dev stack data).dev.peers, q.addr = p.addr) ∨
    RemovalAsked c env dev stack (setLines data) p.addr
  /-- A peer that a line `remove=true` was applied to is gone after the next `public_key` line. -/
  gone : ∀ pre line post, setLines data = pre ++ line :: post → (viewLine line).isKey = true →
    ∀ addr, RemovalMarked c env dev stack pre addr →
      ∀ p ∈ (setLine c env (setRun c env dev stack pre) line).dev.peers, p.addr ≠ addr
  /-- And after the end of the request. -/
  goneAtEnd : ∀ addr, RemovalMarked c env dev stack (setLines data) addr →
    ∀ p ∈ (processSet c env dev stack data).dev.peers, p.addr ≠ addr
  /-- No peer is removed that is not a peer of the device. -/
  alive : (processSet c env dev stack data).aborted = false
  /-- Every peer that the table points to is a peer of the device. -/
  pointers : (processSet c env dev stack data).dev.Pointers

theorem pointers_iff {dev : Device} : dev.Pointers ↔
    ∀ v ∈ allowedipsWalk dev.allowedips, v.peer ∈ dev.ids.map Prod.fst := by
  simp only [Device.Pointers, map_fst_ids, List.mem_map]

theorem find_cursor {st : SetState} (pk : List Byte) :
    st.cursor.find pk = (deviceFindPeer st.dev pk).map Peer.addr := find_ids pk

/-- What the text of a line for a peer is: a key of that kind and a value. -/
theorem isPeerLine_text {line : List Byte} (hline : isPeerLine line) :
    ∃ eq key, strchr line (chr '=') = some eq ∧ UapiKey.ofText (line.take eq) = some key ∧
      key.perPeer = true ∧ ¬ lineSize ≤ line.length := by
  obtain ⟨marks, hv⟩ := hline
  unfold viewLine at hv
  split at hv
  · cases hv
  next eq heq =>
    split at hv
    · cases hv
    next key hkey =>
      split_ifs at hv with hlong
      have hper : key.perPeer = true := by
        cases key <;> simp_all [viewKey, UapiKey.perPeer]; split_ifs at hv
      exact ⟨eq, key, heq, hkey, hper, hlong⟩

/-- The record of the current peer, the only one at its address. -/
theorem SetInv.exists_record {st : SetState} (h : SetInv st) {addr : ℕ}
    (hcur : st.currentPeer = some addr) :
    ∃ peer, peer.addr = addr ∧ (∀ p ∈ st.dev.peers, p.addr = peer.addr → p = peer) ∧
      st.record addr = some peer := by
  obtain ⟨peer, hr⟩ := Option.isSome_iff_exists.1 (h.record hcur)
  obtain ⟨haddr, huniq⟩ := h.record_spec hr
  exact ⟨peer, haddr, huniq, hr⟩

/-- A line for a peer, once the current one is found. -/
theorem exists_setPeerLine (c : Crypto) (env : Env) {st : SetState} (hal : st.aborted = false)
    {line : List Byte} (hline : isPeerLine line) {peer : Peer}
    (hp : st.currentPeer.bind st.record = some peer) :
    ∃ key val buf, key.perPeer = true ∧ lineSetting st.line line = PeerSetting.read key val buf ∧
      ∃ s : SetState, s.dev = st.dev ∧
        setLine c env st line = setPeerLine env s peer key val buf := by
  obtain ⟨eq, key, heq, hkey, hper, hlong⟩ := isPeerLine_text hline
  unfold setLine lineSetting
  simp only [if_neg hlong, heq, hkey, Option.bind_some, hal, Bool.false_eq_true, if_false]
  refine ⟨key, _, _, hper, rfl, _, ?_, setKeyLine_of_some hper ?_⟩
  · rfl
  · exact hp

/-- What a line for a peer does: nothing without a current peer, else it edits that peer. -/
theorem setLine_peerLine (c : Crypto) (env : Env) {st : SetState} (h : SetInv st) {line : List Byte}
    (hline : isPeerLine line) :
    (st.currentPeer = none → (setLine c env st line).dev = st.dev) ∧
      ∀ addr, st.currentPeer = some addr → ∃ peer, peer.addr = addr ∧
        (∀ p ∈ st.dev.peers, p.addr = peer.addr → p = peer) ∧
        PeerEdit peer st.dev (setLine c env st line).dev := by
  by_cases hab : st.aborted = true
  · rw [setLine, if_pos hab]
    refine ⟨fun _ => rfl, fun addr hcur => ?_⟩
    obtain ⟨peer, haddr, huniq, -⟩ := h.exists_record hcur
    exact ⟨peer, haddr, huniq, .none⟩
  · refine ⟨fun hcur => ?_, fun addr hcur => ?_⟩
    · obtain ⟨eq, key, heq, hkey, hper, hlong⟩ := isPeerLine_text hline
      simp only [setLine, if_neg hab, if_neg hlong, heq, hkey]
      rw [setKeyLine_of_none hper (by rw [hcur]; rfl)]
    · obtain ⟨peer, haddr, huniq, hr⟩ := h.exists_record hcur
      obtain ⟨key, val, buf, hper, -, s, hdev, hset⟩ := exists_setPeerLine c env
        (Bool.eq_false_iff.2 hab) hline (Option.bind_eq_some_iff.2 ⟨addr, hcur, hr⟩)
      refine ⟨peer, haddr, huniq, ?_⟩
      rw [hset, ← hdev]
      exact (edited_setPeerLine env s peer val buf hper).dev

/-- **A line for a peer does what it says** to the current peer, and nothing else. -/
theorem settingApplied_setLine (c : Crypto) (env : Env) {st : SetState} (h : SetInv st)
    (hal : st.aborted = false) {M : AllowedIps.PrefixTable ℕ}
    (hrep : AllowedIps.Represents st.dev.allowedips M) {line : List Byte} (hline : isPeerLine line)
    {addr : ℕ} (hcur : st.currentPeer = some addr) :
    SettingApplied env addr (lineSetting st.line line) st.dev (setLine c env st line).dev := by
  obtain ⟨peer, rfl, huniq, hr⟩ := h.exists_record hcur
  obtain ⟨key, val, buf, hper, hread, s, hdev, hset⟩ := exists_setPeerLine c env hal hline
    (Option.bind_eq_some_iff.2 ⟨peer.addr, hcur, hr⟩)
  rw [hset, hread, ← hdev]
  rw [← hdev] at huniq hrep
  exact settingApplied_setPeerLine hper huniq hrep

theorem pointers_removeCurrent (st : SetState) (h : st.dev.Pointers) :
    st.removeCurrent.dev.Pointers := by
  unfold SetState.removeCurrent
  split
  · exact h
  · split
    · exact pointers_deviceRemovePeer h
    · exact h

theorem pointers_endBlock {st : SetState} (h : st.dev.Pointers) : st.endBlock.dev.Pointers := by
  obtain ⟨dev, current, gone, replace, remove, err, aborted, line⟩ := st
  cases replace <;> cases remove
  · exact h
  · exact pointers_removeCurrent (.mk dev current gone false true err aborted line) h
  · exact pointers_deviceRemoveAllPeers h
  · exact pointers_removeCurrent { (SetState.mk dev current gone true true err aborted
      line).removeAll with replacePeers := false } (pointers_deviceRemoveAllPeers h)

theorem pointers_setPublicKey {st : SetState} (h : st.dev.Pointers) (val : List Byte) :
    (setPublicKey c st val).dev.Pointers := by
  have hend := pointers_endBlock h
  unfold setPublicKey
  generalize st.endBlock = s at hend ⊢
  simp only
  split_ifs
  · exact hend
  · split
    · exact hend
    next pk hpk =>
      split
      · exact hend
      · intro v hv
        unfold deviceAddPeer at hv ⊢
        split_ifs at hv ⊢
        · exact hend v hv
        · obtain ⟨p, hp, heq⟩ := hend v hv
          exact ⟨p, List.mem_cons_of_mem _ hp, heq⟩

theorem pointers_noiseSetStaticKey {dev : Device} (h : dev.Pointers) (priv : List Byte) :
    (noiseSetStaticKey c dev priv).Pointers := by
  rw [pointers_iff] at h ⊢
  rw [ids_noiseSetStaticKey]
  exact h

/-- An edit of a peer of the device leaves no pointer to another record. -/
theorem PeerEdit.pointers {peer : Peer} {dev dev' : Device} (h : PeerEdit peer dev dev')
    (hp : dev.Pointers) (hpeer : ∀ p ∈ dev.peers, p.addr = peer.addr → p = peer)
    (hmem : peer.addr ∈ dev.ids.map Prod.fst) : dev'.Pointers := by
  rw [pointers_iff] at hp ⊢
  rw [h.ids hpeer]
  intro v hv
  rcases h.table hv with heq | hv
  · rw [heq]
    exact hmem
  · exact hp v hv

/-- The table keeps pointing to peers of the device, if a line for a peer finds one of them. -/
theorem pointers_setLine {st : SetState} (h : SetInv st) (hp : st.dev.Pointers) {line : List Byte}
    (hcur : isPeerLine line → ∀ addr, st.currentPeer = some addr → addr ∈ st.dev.ids.map Prod.fst) :
    (setLine c env st line).dev.Pointers := by
  by_cases hline : isPeerLine line
  · obtain ⟨hnone, hsome⟩ := setLine_peerLine c env h hline
    cases hc : st.currentPeer with
    | none =>
      rw [hnone hc]
      exact hp
    | some addr =>
      obtain ⟨peer, rfl, huniq, hedit⟩ := hsome addr hc
      exact hedit.pointers hp huniq (hcur hline peer.addr hc)
  · unfold setLine
    split_ifs with hab hlong
    · exact hp
    · exact hp
    · cases heq : strchr line (chr '=') with
      | none => exact hp
      | some eq =>
        cases hkey : UapiKey.ofText (line.take eq) with
        | none =>
          simp only [hkey]
          exact hp
        | some key =>
          simp only [hkey]
          have hper : key.perPeer = false := by
            rw [Bool.eq_false_iff]
            intro hper
            apply hline
            unfold isPeerLine viewLine
            simp only [heq, hkey, if_neg hlong]
            cases key <;> first | exact ⟨_, rfl⟩ | cases hper
          generalize hs : ({ st with line := _ } : SetState) = s
          have hps : s.dev.Pointers := by
            rw [← hs]
            exact hp
          cases key with
          | privateKey =>
            simp only [setKeyLine]
            split
            · exact pointers_noiseSetStaticKey hps _
            · exact hps
          | listenPort =>
            simp only [setKeyLine]
            split_ifs <;> exact hps
          | fwmark => exact hps
          | replacePeers =>
            simp only [setKeyLine]
            split_ifs <;> exact hps
          | publicKey => exact pointers_setPublicKey hps _
          | remove => cases hper
          | presharedKey => cases hper
          | endpoint => cases hper
          | persistentKeepaliveInterval => cases hper
          | replaceAllowedIps => cases hper
          | allowedIp => cases hper

/-- The device has the peer as before, or its removal was asked for. -/
theorem kept_or_asked {dev' : Device} {addr : ℕ} (pk : List Byte)
    (h : (addr, pk) ∉ dev'.ids → RemovalAsked c env dev stack lines addr) :
    (∃ q ∈ dev'.peers, q.addr = addr) ∨ RemovalAsked c env dev stack lines addr := by
  by_cases hmem : (addr, pk) ∈ dev'.ids
  · obtain ⟨q, hq, heq⟩ := List.mem_map.1 hmem
    exact Or.inl ⟨q, hq, congrArg Prod.fst heq⟩
  · exact Or.inr (h hmem)

section Applied

variable {data : List Byte} (h : dev.Linked)
include h

theorem namedPeer_setRun (pre : List (List Byte)) :
    namedPeer (setRun c env dev stack pre).dev pre = (named (pre.map viewLine)).bind
      ((Cursor.start dev.ids dev.nextAddr).run (pre.map viewLine)).find := by
  rw [namedPeer, ← cursor_setRun c env stack h.toAllocated]
  congr 1
  funext pk
  exact (find_cursor pk).symm

variable (hreq : NamedRequest (lines.map viewLine))
include hreq

theorem currentPeer_eq_namedPeer {pre post : List (List Byte)} {line : List Byte}
    (hl : lines = pre ++ line :: post) (hline : isPeerLine line) :
    (setRun c env dev stack pre).currentPeer = namedPeer (setRun c env dev stack pre).dev pre := by
  obtain ⟨marks, hv⟩ := hline
  rw [namedPeer_setRun h]
  have hcur := ((applied_iff dev.ids dev.nextAddr).2 hreq).named (pre.map viewLine) marks (post.map viewLine)
    (by rw [hl, List.map_append, List.map_cons, hv])
  rw [← hcur, ← cursor_setRun c env stack h.toAllocated]
  rfl

/-- The current peer of a line for a peer is a peer of the device. -/
theorem currentPeer_mem {pre post : List (List Byte)} {line : List Byte}
    (hl : lines = pre ++ line :: post) (hline : isPeerLine line) {addr : ℕ}
    (hcur : (setRun c env dev stack pre).currentPeer = some addr) :
    addr ∈ (setRun c env dev stack pre).dev.ids.map Prod.fst := by
  rw [currentPeer_eq_namedPeer h hreq hl hline] at hcur
  obtain ⟨pk, -, hfind⟩ := Option.bind_eq_some_iff.1 hcur
  rw [← find_cursor] at hfind
  exact Cursor.mem_of_find hfind

/-- The table has only peers of the device all along the request. -/
theorem pointers_setRun {pre post : List (List Byte)} (hl : lines = pre ++ post) :
    (setRun c env dev stack pre).dev.Pointers := by
  induction pre using List.reverseRecOn generalizing post with
  | nil => exact h.pointers
  | append_singleton pre line ih =>
    rw [List.append_assoc] at hl
    rw [setRun_snoc]
    exact pointers_setLine (setInv_setRun c env stack h.toAllocated pre) (ih hl) fun hline addr hcur =>
      currentPeer_mem h hreq hl hline hcur

/-- A peer that the loop is about to remove is one whose removal was asked for. -/
theorem removalAsked_of_pending {pre post : List (List Byte)} (hl : lines = pre ++ post) {addr : ℕ}
    (hrem : (setRun c env dev stack pre).removePeer = true)
    (hcur : (setRun c env dev stack pre).currentPeer = some addr) :
    RemovalAsked c env dev stack pre addr := by
  right
  have hcu := cursor_setRun c env stack h.toAllocated pre
  have hsafe := safe_run dev.ids dev.nextAddr hreq
    (by rw [hl, List.map_append] : lines.map viewLine = pre.map viewLine ++ post.map viewLine)
  rw [← hcu] at hsafe
  have hrem' : ((Cursor.start dev.ids dev.nextAddr).run (pre.map viewLine)).remove = true := by
    rw [← hcu]
    exact hrem
  obtain ⟨vs, ws, hsplit, hkeys, hsame⟩ := marked_run hrem' (hcu ▸ hsafe.alive)
  obtain ⟨pre', rest, rfl, rfl, hrest⟩ := List.map_eq_append_iff.1 hsplit
  obtain ⟨line, post', rfl, hline, rfl⟩ := List.map_eq_cons_iff.1 hrest
  refine ⟨pre', line, post', rfl, hline, fun l hl => hkeys _ (List.mem_map_of_mem hl), ?_⟩
  rw [List.append_assoc] at hl
  rw [← currentPeer_eq_namedPeer h hreq hl ⟨true, hline⟩, ← hcur]
  rw [← hcu, ← cursor_setRun c env stack h.toAllocated] at hsame
  exact hsame

/-- And the other way round: a peer that is marked is the one that the loop is about to remove. -/
theorem pending_of_removalMarked {pre post : List (List Byte)} (hl : lines = pre ++ post) {addr : ℕ}
    (hmark : RemovalMarked c env dev stack pre addr) :
    (setRun c env dev stack pre).cursor.Pending addr := by
  obtain ⟨vs, line, ws, rfl, hline, hkeys, hnamed⟩ := hmark
  have hsafe := safe_run dev.ids dev.nextAddr hreq
    (by rw [hl, List.map_append] :
      lines.map viewLine = (vs ++ line :: ws).map viewLine ++ post.map viewLine)
  rw [List.append_assoc, List.cons_append] at hl
  have hcur : ((Cursor.start dev.ids dev.nextAddr).run (vs.map viewLine)).current = some addr := by
    rw [← cursor_setRun c env stack h.toAllocated]
    exact (currentPeer_eq_namedPeer h hreq hl ⟨true, hline⟩).trans hnamed
  rw [cursor_setRun c env stack h.toAllocated]
  have hsplit : (vs ++ line :: ws).map viewLine =
      vs.map viewLine ++ .peer true :: ws.map viewLine := by
    rw [List.map_append, List.map_cons, hline]
  refine pending_run hsafe hsplit (fun v hv => ?_) hcur
  obtain ⟨l, hl, rfl⟩ := List.mem_map.1 hv
  exact hkeys l hl

theorem removed_setLine {pre post : List (List Byte)} {line : List Byte}
    (hl : lines = pre ++ line :: post) {p : Peer}
    (hp : p ∈ (setRun c env dev stack pre).dev.peers) :
    (∃ q ∈ (setLine c env (setRun c env dev stack pre) line).dev.peers, q.addr = p.addr) ∨
      RemovalAsked c env dev stack pre p.addr := by
  refine kept_or_asked p.publicKey fun hnot => ?_
  have hstep := cursor_setLine c env (setInv_setRun c env stack h.toAllocated pre) line
  have hnot' : (p.addr, p.publicKey) ∉
      ((setRun c env dev stack pre).cursor.step (viewLine line)).ids := by
    rw [← hstep]
    exact hnot
  rcases Cursor.mem_step (List.mem_map_of_mem hp) hnot' with hrep | ⟨hrem, hcur⟩
  · left
    have hsafe := safe_run dev.ids dev.nextAddr hreq
      (by rw [hl, List.map_append] :
        lines.map viewLine = pre.map viewLine ++ (line :: post).map viewLine)
    apply (tracks_run hsafe.alive).replace.1
    rw [← cursor_setRun c env stack h.toAllocated]
    exact hrep
  · exact removalAsked_of_pending h hreq hl hrem hcur

end Applied

/-- The peers are distinct records after every request. -/
theorem Device.Allocated.processSet (h : dev.Allocated) (data : List Byte) :
    (processSet c env dev stack data).dev.Allocated := by
  have hrun := setInv_setRun c env stack h (setLines data)
  have hcu := cursor_finish (setRun c env dev stack (setLines data))
  have haddrs : (setRun c env dev stack (setLines data)).finish.cursor.Addrs := by
    rw [hcu]
    exact Cursor.Addrs.finish ⟨hrun.nodup, hrun.allocated⟩
  refine ⟨?_, fun p hp => ?_⟩
  · rw [← map_fst_ids]
    exact haddrs.nodup
  · exact haddrs.fresh (p.addr, p.publicKey) (List.mem_map_of_mem hp)

/-- **The lines of a request are applied to the peers that it names** exactly when every line for a
peer has a well-formed `public_key` line next before it, or none at all, and no peer is to be removed
both by itself and together with all others. -/
theorem set_lines_applied_iff (c : Crypto) (env : Env) (dev : Device) (stack data : List Byte)
    (h : dev.Linked) (htable : ∃ M, AllowedIps.Represents dev.allowedips M) :
    LinesApplied c env dev stack data ↔ NamedRequest ((setLines data).map viewLine) := by
  constructor
  · intro happ
    rw [← applied_iff dev.ids dev.nextAddr]
    constructor
    · intro vs marks ws hsplit
      obtain ⟨pre, rest, hl, rfl, hrest⟩ := List.map_eq_append_iff.1 hsplit
      obtain ⟨line, post, rfl, hline, rfl⟩ := List.map_eq_cons_iff.1 hrest
      obtain ⟨hcur, -⟩ := happ.applied pre line post hl ⟨marks, hline⟩ _ rfl
      rw [namedPeer_setRun h] at hcur
      rw [← hcur, ← cursor_setRun c env stack h.toAllocated]
      rfl
    · rw [← cursor_setRun c env stack h.toAllocated, ← cursor_finish]
      exact happ.alive
  · intro hreq
    have hcu := cursor_setRun c env stack h.toAllocated (setLines data)
    have hfin : (processSet c env dev stack data).cursor =
        (setRun c env dev stack (setLines data)).cursor.finish := cursor_finish _
    refine ⟨?_, fun pre line post hl p hp => removed_setLine h hreq hl hp, ?_, ?_, ?_, ?_, ?_⟩
    · rintro pre line post hl hline st rfl
      have hinv := setInv_setRun c env stack h.toAllocated pre
      have hcur : (setRun c env dev stack pre).currentPeer = _ :=
        currentPeer_eq_namedPeer h hreq hl hline
      rw [← hcur]
      refine ⟨rfl, (setLine_peerLine c env hinv hline).1, fun addr haddr => ?_⟩
      have hsafe := safe_run dev.ids dev.nextAddr hreq
        (by rw [hl, List.map_append] :
          (setLines data).map viewLine = pre.map viewLine ++ (line :: post).map viewLine)
      rw [← cursor_setRun c env stack h.toAllocated] at hsafe
      have hkeep : ∀ (t : Table ℕ) op, (∃ M, AllowedIps.Represents t M) →
          ∃ M, AllowedIps.Represents (t.step op) M := fun t op ⟨M, hM⟩ => ⟨_, hM.step op⟩
      obtain ⟨M, hM⟩ : ∃ M, AllowedIps.Represents (setRun c env dev stack pre).dev.allowedips M :=
        table_setRun hkeep htable stack pre
      exact settingApplied_setLine c env hinv hsafe.alive hM hline haddr
    · intro p hp
      refine kept_or_asked p.publicKey fun hnot => ?_
      have hnot' : (p.addr, p.publicKey) ∉
          (setRun c env dev stack (setLines data)).cursor.finish.ids := by
        rw [← hfin]
        exact hnot
      obtain ⟨hrem, hcur⟩ := Cursor.mem_finish (List.mem_map_of_mem hp) hnot'
      exact removalAsked_of_pending h hreq (List.append_nil _).symm hrem hcur
    · intro pre line post hl hkey addr hmark p hp
      have hinv := setInv_setRun c env stack h.toAllocated pre
      have hpend := pending_of_removalMarked h hreq hl hmark
      rintro rfl
      obtain ⟨k, hk⟩ := exists_key hkey
      apply hpend.step ⟨hinv.nodup, hinv.allocated⟩ k
      rw [← hk, ← cursor_setLine c env hinv]
      exact List.mem_map_of_mem (List.mem_map_of_mem hp)
    · intro addr hmark p hp
      have hpend := pending_of_removalMarked h hreq (List.append_nil _).symm hmark
      rintro rfl
      apply hpend.finish
      rw [← hfin]
      exact List.mem_map_of_mem (List.mem_map_of_mem hp)
    · have halive := ((applied_iff dev.ids dev.nextAddr).2 hreq).alive
      rw [← hcu, ← hfin] at halive
      exact halive
    · have hp : (setRun c env dev stack (setLines data)).dev.Pointers :=
        pointers_setRun h hreq (List.append_nil _).symm
      unfold processSet SetState.finish
      split_ifs
      · exact hp
      · exact pointers_removeCurrent _ hp
      · exact hp

/-- A line that names the peer with the key `0x11…11`. -/
def keyLine : List Byte := ascii "public_key=" ++ List.replicate 64 (chr '1') ++ ascii "\n"

/-- A request that names a peer and gives it an AllowedIP. -/
def plainRequest : List Byte := keyLine ++ ascii "allowed_ip=10.0.0.0/8\n\n"

theorem plainRequest_views : (setLines plainRequest).map viewLine =
    [.key (some (List.replicate 32 0x11#8)), .peer false] := by
  decide +kernel

theorem plainRequest_named : NamedRequest ((setLines plainRequest).map viewLine) := by
  rw [plainRequest_views]
  exact (wellFormedRequest_of_keep (by simp) (by simp) (by simp)).namedRequest

theorem linked_deviceInit (c : Crypto) : (deviceInit c).Linked := by
  refine ⟨(deviceInv_deviceInit c).toAllocated, fun v hv => ?_⟩
  cases hv

theorem set_lines_applied_plain : (deviceInit toyCrypto).Linked ∧
    LinesApplied toyCrypto (toyEnv 5) (deviceInit toyCrypto) [] plainRequest :=
  ⟨linked_deviceInit _,
    (set_lines_applied_iff _ _ _ _ _ (linked_deviceInit _) ⟨_, AllowedIps.represents_init⟩).2
      plainRequest_named⟩

/-- A request that names a peer and removes it, then has a malformed `public_key` line and an
AllowedIP. -/
def strayRequest : List Byte :=
  keyLine ++ ascii "remove=true\npublic_key=zz\nallowed_ip=10.0.0.0/8\n\n"

/-- The AllowedIP goes to the peer that was removed, and stays in the table without it. -/
theorem set_lines_stray :
    (setLines strayRequest).map viewLine =
      [.key (some (List.replicate 32 0x11#8)), .peer true, .key none, .peer false] ∧
    (processSet toyCrypto (toyEnv 5) (deviceInit toyCrypto) [] strayRequest).dev.peers.length = 0 ∧
    (allowedipsWalk (processSet toyCrypto (toyEnv 5) (deviceInit toyCrypto) []
      strayRequest).dev.allowedips).map Visit.peer = [1] ∧
    ¬ LinesApplied toyCrypto (toyEnv 5) (deviceInit toyCrypto) [] strayRequest := by
  have hviews : (setLines strayRequest).map viewLine =
      [.key (some (List.replicate 32 0x11#8)), .peer true, .key none, .peer false] := by
    decide +kernel
  have hpeers : (processSet toyCrypto (toyEnv 5) (deviceInit toyCrypto) []
      strayRequest).dev.peers.length = 0 := by
    decide +kernel
  have htable : (allowedipsWalk (processSet toyCrypto (toyEnv 5) (deviceInit toyCrypto) []
      strayRequest).dev.allowedips).map Visit.peer = [1] := by
    decide +kernel
  refine ⟨hviews, hpeers, htable, fun happ => ?_⟩
  have hmem : 1 ∈ (allowedipsWalk (processSet toyCrypto (toyEnv 5) (deviceInit toyCrypto) []
      strayRequest).dev.allowedips).map Visit.peer := by
    rw [htable]
    exact List.mem_singleton_self 1
  obtain ⟨v, hv, -⟩ := List.mem_map.1 hmem
  obtain ⟨p, hp, -⟩ := happ.pointers v hv
  rw [List.length_eq_zero_iff.1 hpeers] at hp
  cases hp

/-- **The peers after a request that replaces them** and names at least one: those whose last block
is not marked `remove=true`. -/
theorem replaced_peers (c : Crypto) (env : Env) (dev : Device) (stack data : List Byte)
    (h : dev.Allocated) (hreq : WellFormedRequest ((setLines data).map viewLine))
    (hrep : .replacePeers ∈ (setLines data).map viewLine)
    (hkey : ∃ v ∈ (setLines data).map viewLine, v.isKey = true) (pk : List Byte) :
    (∃ p ∈ (processSet c env dev stack data).dev.peers, p.publicKey = pk) ↔
      ∃ b, lastBlock (blocks ((setLines data).map viewLine)) pk = some b ∧ b.2 = false := by
  rw [← mem_keys_finish dev.ids dev.nextAddr hreq hrep hkey, ← cursor_setRun c env stack h,
    ← cursor_finish]
  show _ ↔ pk ∈ (processSet c env dev stack data).dev.ids.map Prod.snd
  rw [Device.ids, List.map_map, List.mem_map]
  rfl

/-- A request that replaces the peers by one, with an AllowedIP. -/
def replacingRequest : List Byte := ascii "replace_peers=true\n" ++ plainRequest

theorem replacingRequest_views : (setLines replacingRequest).map viewLine =
    [.replacePeers, .key (some (List.replicate 32 0x11#8)), .peer false] := by
  decide +kernel

theorem replacingRequest_wellFormed :
    WellFormedRequest ((setLines replacingRequest).map viewLine) := by
  rw [replacingRequest_views]
  refine ⟨by simp, by simp, ?_⟩
  intro pre post hsplit pk hmem
  rcases pre with _ | ⟨v, _ | ⟨w, _ | ⟨u, pre⟩⟩⟩ <;> simp_all

theorem replaced_peers_one :
    ∃ p ∈ (processSet toyCrypto (toyEnv 5) (deviceInit toyCrypto) [] replacingRequest).dev.peers,
      p.publicKey = List.replicate 32 0x11#8 := by
  refine (replaced_peers toyCrypto (toyEnv 5) (deviceInit toyCrypto) [] replacingRequest
    (linked_deviceInit _).toAllocated replacingRequest_wellFormed ?_ ?_ _).2 ?_
  · rw [replacingRequest_views]
    exact List.mem_cons_self
  · rw [replacingRequest_views]
    exact ⟨_, List.mem_cons_of_mem _ List.mem_cons_self, rfl⟩
  · rw [replacingRequest_views]
    exact ⟨(List.replicate 32 0x11#8, false), by decide, rfl⟩

/-- A request that replaces the peers by one, and names it again to remove it. -/
def renamedRequest : List Byte :=
  ascii "replace_peers=true\n" ++ keyLine ++ keyLine ++ ascii "remove=true\n\n"

/-- The first of the two blocks is not marked, but the second one removes the peer. -/
theorem replaced_peers_renamed :
    (setLines renamedRequest).map viewLine =
      [.replacePeers, .key (some (List.replicate 32 0x11#8)),
        .key (some (List.replicate 32 0x11#8)), .peer true] ∧
    ¬ ((∃ p ∈ (processSet toyCrypto (toyEnv 5) (deviceInit toyCrypto) [] renamedRequest).dev.peers,
        p.publicKey = List.replicate 32 0x11#8) ↔
      ∃ b ∈ blocks ((setLines renamedRequest).map viewLine),
        b.1 = List.replicate 32 0x11#8 ∧ b.2 = false) := by
  have hviews : (setLines renamedRequest).map viewLine =
      [.replacePeers, .key (some (List.replicate 32 0x11#8)),
        .key (some (List.replicate 32 0x11#8)), .peer true] := by
    decide +kernel
  have hpeers : (processSet toyCrypto (toyEnv 5) (deviceInit toyCrypto) []
      renamedRequest).dev.peers.length = 0 := by
    decide +kernel
  refine ⟨hviews, fun hiff => ?_⟩
  rw [hviews, List.length_eq_zero_iff.1 hpeers] at hiff
  obtain ⟨p, hp, -⟩ := hiff.2 ⟨(List.replicate 32 0x11#8, false), List.mem_cons_self, rfl, rfl⟩
  cases hp

end Requests

end Wgx
