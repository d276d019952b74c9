import Wgx.Device.Reconfigured
import Wgx.Device.Roaming

/-!
# Configurations of devices in use

A device that traffic and SET requests have led to has keys of the right length, one peer for each
public key, and an AllowedIPs table that insertions and removals have built.

* `Device.Keyed`: these facts;
* `keyed_processSet`: a SET request keeps them;
* `keyed_lifeRun`: so does every run of traffic and SET requests;
* `pointers_lifeRun`: and if the requests name the peers that they configure, the table leads to
  peers of the device only.
-/

namespace Wgx

open AllowedIps (Table Op)

/-! ### Keyed devices -/

/-- A key of `WG_KEY_LEN` bytes. -/
def IsKey (key : List Byte) : Prop := key.length = 32

/-- The keys have their length, the private key is clamped once it is set, no two peers have the same
key, and the AllowedIPs table was built by insertions and removals. -/
structure Device.Keyed (dev : Device) : Prop where
  privateKey : IsKey dev.privateKey
  clamped : dev.privateKey = zeroKey ∨ wgClampPrivateKey dev.privateKey = dev.privateKey
  peers : ∀ p ∈ dev.peers, IsKey p.publicKey ∧ IsKey p.handshake.psk
  distinct : (dev.peers.map Peer.publicKey).Nodup
  table : ∃ ops : List (Op ℕ), dev.allowedips = Table.after ops

/-- An event that is traffic, or a SET request that names the peers it configures. -/
def LifeEvent.InUse : LifeEvent → Prop
  | .set _ _ data => NamedRequest ((setLines data).map viewLine)
  | e => e.isTraffic = true

theorem isKey_zeroKey : IsKey zeroKey := List.length_replicate

theorem keyed_deviceInit (c : Crypto) : (deviceInit c).Keyed :=
  ⟨isKey_zeroKey, Or.inl rfl, List.forall_mem_nil _, List.nodup_nil, [], rfl⟩

section Edits

variable {c : Crypto} {env : Env} {dev : Device} {peer : Peer}

/-- Two digits make a byte. -/
theorem length_hexPairs {s out : List Byte} (h : hexPairs s = some out) :
    out.length = s.length / 2 := by
  induction s using hexPairs.induct generalizing out with
  | case1 hi lo rest ih =>
    simp only [hexPairs, Option.bind_eq_some_iff, Option.map_eq_some_iff] at h
    obtain ⟨hval, -, lval, -, tail, htail, rfl⟩ := h
    rw [List.length_cons, ih htail, List.length_cons, List.length_cons]
    omega
  | case2 s hshort =>
    rcases s with _ | ⟨hi, _ | ⟨lo, rest⟩⟩
    · cases h
      rfl
    · cases h
      exact (Nat.div_eq_of_lt (by decide : 1 < 2)).symm
    · exact (hshort hi lo rest rfl).elim

theorem isKey_of_hexDecode {val key : List Byte} (h : hexDecode val 32 = some key) : IsKey key := by
  unfold hexDecode at h
  split_ifs at h with hlen
  rw [IsKey, length_hexPairs h]
  omega

theorem wgClampPrivateKey_wgClampPrivateKey (key : List Byte) :
    wgClampPrivateKey (wgClampPrivateKey key) = wgClampPrivateKey key := by
  have hlow : ∀ b : Byte, b &&& 248#8 &&& 248#8 = b &&& 248#8 := by decide
  have hhigh : ∀ b : Byte, (b &&& 127#8 ||| 64#8) &&& 127#8 ||| 64#8 = b &&& 127#8 ||| 64#8 := by
    decide
  refine List.ext_getElem? fun i => ?_
  simp only [wgClampPrivateKey, List.getElem?_modify]
  cases key[i]? with
  | none => rfl
  | some b =>
    simp only [Option.map_eq_map, Option.map_some]
    split_ifs
    · omega
    · exact congrArg some (hhigh b)
    · exact congrArg some (hlow b)
    · rfl

theorem isKey_wgClampPrivateKey {key : List Byte} (h : IsKey key) : IsKey (wgClampPrivateKey key) := by
  simpa [IsKey, wgClampPrivateKey] using h

theorem Device.Keyed.noiseSetStaticKey (h : dev.Keyed) {priv : List Byte} (hpriv : IsKey priv) :
    (noiseSetStaticKey c dev (wgClampPrivateKey priv)).Keyed := by
  refine ⟨isKey_wgClampPrivateKey hpriv, Or.inr (wgClampPrivateKey_wgClampPrivateKey priv), ?_, ?_,
    h.table⟩
  · intro p' hp'
    obtain ⟨p, hp, rfl⟩ := List.mem_map.1 hp'
    exact h.peers p hp
  · have hkeys : (Wgx.noiseSetStaticKey c dev (wgClampPrivateKey priv)).peers.map
        Peer.publicKey = dev.peers.map Peer.publicKey := by
      rw [Wgx.noiseSetStaticKey, List.map_map]
      rfl
    rw [hkeys]
    exact h.distinct

theorem Device.Keyed.deviceAddPeer (h : dev.Keyed) {pk : List Byte} (hpk : IsKey pk) :
    (deviceAddPeer c dev pk).Keyed := by
  unfold Wgx.deviceAddPeer
  split_ifs with hfound
  · exact h
  · refine ⟨h.privateKey, h.clamped, ?_, ?_, h.table⟩
    · intro p hp
      rcases List.mem_cons.1 hp with rfl | hp
      · exact ⟨hpk, isKey_zeroKey⟩
      · exact h.peers p hp
    · rw [List.map_cons, List.nodup_cons]
      refine ⟨?_, h.distinct⟩
      intro hmem
      obtain ⟨p, hp, hkey⟩ := List.mem_map.1 hmem
      exact hfound (List.find?_isSome.2 ⟨p, hp, decide_eq_true hkey⟩)

/-- The peers and the table after some peers have been taken down. -/
theorem foldl_peerTeardown_after (ps : List Peer) {dev : Device}
    (h : ∃ ops : List (Op ℕ), dev.allowedips = Table.after ops) :
    ∃ ops : List (Op ℕ), (ps.foldl peerTeardown dev).allowedips = Table.after ops := by
  induction ps generalizing dev with
  | nil => exact h
  | cons p ps ih =>
    obtain ⟨ops, hops⟩ := h
    refine ih ⟨ops ++ [.removePeer p.addr], ?_⟩
    rw [Table.after, Machine.run_snoc, ← Table.after, ← hops]
    rfl

theorem Device.Keyed.deviceRemovePeer (h : dev.Keyed) (peer : Peer) :
    (deviceRemovePeer dev peer).Keyed := by
  refine ⟨h.privateKey, h.clamped, ?_, h.distinct.sublist (List.filter_sublist.map _), ?_⟩
  · exact fun p hp => h.peers p (List.mem_filter.1 hp).1
  · exact foldl_peerTeardown_after [peer] h.table

theorem privateKey_foldl_peerTeardown (ps : List Peer) (dev : Device) :
    (ps.foldl peerTeardown dev).privateKey = dev.privateKey := by
  induction ps generalizing dev with
  | nil => rfl
  | cons p ps ih => exact ih (peerTeardown dev p)

theorem Device.Keyed.deviceRemoveAllPeers (h : dev.Keyed) : (deviceRemoveAllPeers dev).Keyed := by
  have hpeers : (Wgx.deviceRemoveAllPeers dev).peers = [] :=
    (foldl_peerTeardown_lists dev.peers { dev with peers := [] }).2
  have hpriv : (Wgx.deviceRemoveAllPeers dev).privateKey = dev.privateKey :=
    privateKey_foldl_peerTeardown dev.peers { dev with peers := [] }
  refine ⟨hpriv ▸ h.privateKey, hpriv ▸ h.clamped, ?_, ?_,
    foldl_peerTeardown_after dev.peers h.table⟩
  · rw [hpeers]
    exact List.forall_mem_nil _
  · rw [hpeers]
    exact List.nodup_nil

/-- A call on the table, then a record of the device written back. -/
theorem Device.Keyed.edit (h : dev.Keyed) (hnodup : (dev.peers.map Peer.addr).Nodup)
    {t : Table ℕ} (ht : ∃ ops : List (Op ℕ), t = Table.after ops) {p : Peer}
    (hrecord : dev.peerAt peer.addr = some peer ∨ dev.peerAt peer.addr = none)
    (haddr : p.addr = peer.addr) (hkey : p.publicKey = peer.publicKey)
    (hpsk : IsKey peer.handshake.psk → IsKey p.handshake.psk) :
    (Device.store { dev with allowedips := t } p).Keyed := by
  have hedited : ∀ q ∈ dev.peers, q.addr = p.addr → q = peer := by
    intro q hq hqp
    have hat : dev.peerAt q.addr = some q := Device.peerAt_of_mem hnodup hq
    rw [hqp, haddr] at hat
    rcases hrecord with hsome | hnone
    · exact Option.some.inj (hat.symm.trans hsome)
    · rw [hnone] at hat
      cases hat
  have hkeys : (Device.store { dev with allowedips := t } p).peers.map Peer.publicKey =
      dev.peers.map Peer.publicKey := by
    rw [Device.store, List.map_map]
    refine List.map_congr_left fun q hq => ?_
    simp only [Function.comp_apply]
    split_ifs with hqp
    · rw [hkey, hedited q hq hqp]
    · rfl
  refine ⟨h.privateKey, h.clamped, ?_, hkeys ▸ h.distinct, ht⟩
  intro q' hq'
  obtain ⟨q, hq, rfl⟩ := List.mem_map.1 hq'
  split_ifs with hqp
  · obtain rfl := hedited q hq hqp
    rw [hkey]
    exact ⟨(h.peers q hq).1, hpsk (h.peers q hq).2⟩
  · exact h.peers q hq

end Edits

/-! ### SET requests -/

section Requests

variable {c : Crypto} {env : Env} {dev : Device} {st : SetState} {val buf : List Byte}
  {key : UapiKey} {peer : Peer}

theorem keyed_removeCurrent (h : st.dev.Keyed) : st.removeCurrent.dev.Keyed := by
  unfold SetState.removeCurrent
  split
  · exact h
  · split
    · exact h.deviceRemovePeer _
    · exact h

theorem keyed_endBlock (h : st.dev.Keyed) : st.endBlock.dev.Keyed := by
  have hall : (if st.replacePeers then { st.removeAll with replacePeers := false }
      else st).dev.Keyed := by
    split_ifs
    · exact h.deviceRemoveAllPeers
    · exact h
  simp only [SetState.endBlock]
  generalize (if st.replacePeers then { st.removeAll with replacePeers := false } else st) = st'
    at hall
  split_ifs
  · exact keyed_removeCurrent hall
  · exact hall

theorem keyed_setPublicKey (h : st.dev.Keyed) : (setPublicKey c st val).dev.Keyed := by
  unfold setPublicKey
  have hend := keyed_endBlock h
  generalize st.endBlock = st' at hend
  simp only
  split_ifs
  · exact hend
  · split
    · exact hend
    next pk hpk =>
      split
      · exact hend
      · exact hend.deviceAddPeer (isKey_of_hexDecode hpk)

/-- A line for a peer, on a record that the device has or has no more. -/
theorem keyed_setPeerLine (h : st.dev.Keyed) (hnodup : (st.dev.peers.map Peer.addr).Nodup)
    (hrecord : st.dev.peerAt peer.addr = some peer ∨ st.dev.peerAt peer.addr = none) :
    (setPeerLine env st peer key val buf).dev.Keyed := by
  obtain ⟨ops, hops⟩ := h.table
  have hsame : ∀ {p : Peer}, p.addr = peer.addr → p.publicKey = peer.publicKey →
      (IsKey peer.handshake.psk → IsKey p.handshake.psk) → (st.dev.store p).Keyed :=
    fun haddr hkey hpsk => h.edit hnodup h.table hrecord haddr hkey hpsk
  have hop : ∀ (op : Op ℕ) {p : Peer}, p.addr = peer.addr → p.publicKey = peer.publicKey →
      (IsKey peer.handshake.psk → IsKey p.handshake.psk) →
      (Device.store { st.dev with allowedips := st.dev.allowedips.step op } p).Keyed := by
    intro op p haddr hkey hpsk
    refine h.edit hnodup ⟨ops ++ [op], ?_⟩ hrecord haddr hkey hpsk
    rw [Table.after, Machine.run_snoc, ← Table.after, ← hops]
  cases key with
  | remove =>
    simp only [setPeerLine]
    split_ifs <;> exact h
  | presharedKey =>
    simp only [setPeerLine]
    split
    next psk hpsk => exact hsame rfl rfl fun _ => isKey_of_hexDecode hpsk
    · exact h
  | endpoint =>
    simp only [setPeerLine]
    split
    · exact hsame rfl rfl id
    · exact h
  | persistentKeepaliveInterval =>
    simp only [setPeerLine]
    refine hsame ?_ ?_ ?_
    all_goals
      unfold timersPersistentKeepaliveSet
      split_ifs <;> first | rfl | exact id
  | replaceAllowedIps =>
    simp only [setPeerLine]
    split_ifs
    · exact hop (.removePeer peer.addr) rfl rfl id
    · exact h
  | allowedIp =>
    simp only [setPeerLine, setAllowedIp]
    split
    · exact h
    · split_ifs
      · exact h
      · split
        next addr haddr => exact hop (.insertV4 addr _ peer.addr) rfl rfl id
        · split
          next addr haddr => exact hop (.insertV6 addr _ peer.addr) rfl rfl id
          · exact h
  | _ => exact h

theorem keyed_perPeer (h : st.dev.Keyed) (hinv : SetInv st) :
    (match st.currentPeer.bind st.record with
      | none => st
      | some peer => setPeerLine env st peer key val buf).dev.Keyed := by
  have hnodup : (st.dev.peers.map Peer.addr).Nodup := map_fst_ids st.dev ▸ hinv.nodup
  split
  · exact h
  next peer hpeer =>
    obtain ⟨a, -, hrec⟩ := Option.bind_eq_some_iff.1 hpeer
    refine keyed_setPeerLine h hnodup ?_
    have haddr := (hinv.record_spec hrec).1
    rw [haddr]
    unfold SetState.record at hrec
    cases hat : st.dev.peerAt a with
    | some q =>
      rw [hat] at hrec
      cases hrec
      exact Or.inl rfl
    | none => exact Or.inr rfl

theorem keyed_setKeyLine (h : st.dev.Keyed) (hinv : SetInv st) :
    (setKeyLine c env st key val buf).dev.Keyed := by
  cases key with
  | privateKey =>
    simp only [setKeyLine]
    split
    next priv hpriv =>
      exact h.noiseSetStaticKey (isKey_of_hexDecode hpriv)
    · exact h
  | listenPort =>
    simp only [setKeyLine]
    split_ifs
    · exact h
    · exact ⟨h.privateKey, h.clamped, h.peers, h.distinct, h.table⟩
    · exact h
  | fwmark => exact ⟨h.privateKey, h.clamped, h.peers, h.distinct, h.table⟩
  | replacePeers =>
    simp only [setKeyLine]
    split_ifs <;> exact h
  | publicKey => exact keyed_setPublicKey h
  | _ => exact keyed_perPeer h hinv

theorem keyed_setLine (h : st.dev.Keyed) (hinv : SetInv st) (line : List Byte) :
    (setLine c env st line).dev.Keyed := by
  unfold setLine
  split_ifs
  · exact h
  · exact h
  · simp only
    split
    · exact h
    · split
      · exact h
      · exact @keyed_setKeyLine c env { st with line := _ } _ _ _ h { hinv with }

/-- **A SET request** keeps the device keyed. -/
theorem keyed_processSet (h : dev.Keyed) (halloc : dev.Allocated) (stack data : List Byte) :
    (processSet c env dev stack data).dev.Keyed := by
  have hrun : (setRun c env dev stack (setLines data)).dev.Keyed := by
    generalize setLines data = lines
    induction lines using List.reverseRecOn with
    | nil => exact h
    | append_singleton lines line ih =>
      rw [setRun_snoc]
      exact keyed_setLine ih (setInv_setRun c env stack halloc lines) line
  unfold processSet SetState.finish
  split_ifs
  · exact hrun
  · exact keyed_removeCurrent hrun
  · exact hrun

end Requests

/-! ### Runs -/

section Runs

variable {c : Crypto} {dev : Device} {e : LifeEvent}

/-- What can be told from the settings of a peer. -/
theorem map_settings {α : Type} {ps ps' : List Peer} (h : List.Forall₂ (ServedPeer c dev e) ps ps')
    (f : PeerSettings → α) {g : Peer → α} (hg : ∀ p, g p = f p.settings) : ps'.map g = ps.map g := by
  induction h with
  | nil => rfl
  | cons hstep _ ih => rw [List.map_cons, List.map_cons, ih, hg, hg, hstep.settings]

theorem keyed_traffic (h : dev.Keyed) (hdev : DeviceInv dev) (he : e.isTraffic = true) :
    (lifeStep c dev e).dev.Keyed := by
  obtain ⟨hconfig, -, -, hpeers⟩ := @served_lifeStep c dev e hdev he
  have hpriv : (lifeStep c dev e).dev.privateKey = dev.privateKey :=
    congrArg DeviceConfig.privateKey hconfig
  have htable : (lifeStep c dev e).dev.allowedips = dev.allowedips :=
    congrArg DeviceConfig.allowedips hconfig
  have hkeys : (lifeStep c dev e).dev.peers.map Peer.publicKey = dev.peers.map Peer.publicKey :=
    map_settings hpeers PeerSettings.publicKey fun _ => rfl
  refine ⟨hpriv ▸ h.privateKey, hpriv ▸ h.clamped, ?_, hkeys ▸ h.distinct, htable ▸ h.table⟩
  intro p' hp'
  obtain ⟨p, hp, hstep⟩ := forall₂_mem_right hpeers hp'
  have hkey : p'.publicKey = p.publicKey := congrArg PeerSettings.publicKey hstep.settings
  have hpsk : p'.handshake.psk = p.handshake.psk := congrArg PeerSettings.presharedKey hstep.settings
  rw [hkey, hpsk]
  exact h.peers p hp

/-- **Every run of traffic and SET requests** leaves the device keyed. -/
theorem keyed_lifeRun (h : dev.Keyed) (hdev : DeviceInv dev) {es : List LifeEvent}
    (hes : ∀ e ∈ es, e.InUse) : (lifeRun c dev es).Keyed := by
  induction es generalizing dev with
  | nil => exact h
  | cons e es ih =>
    refine ih ?_ (hdev.lifeStep e) fun e' he' => hes e' (List.mem_cons_of_mem _ he')
    have huse := hes e List.mem_cons_self
    cases e with
    | set env stack data => exact keyed_processSet h hdev.toAllocated stack data
    | device e => exact keyed_traffic h hdev huse

/-- **Requests that name their peers** leave no entry of the table to another one. -/
theorem pointers_processSet {env : Env} (h : dev.Linked) (stack : List Byte) {data : List Byte}
    (hreq : NamedRequest ((setLines data).map viewLine)) :
    (processSet c env dev stack data).dev.Pointers := by
  have hrun : (setRun c env dev stack (setLines data)).dev.Pointers :=
    pointers_setRun h hreq (List.append_nil _).symm
  unfold processSet SetState.finish
  split_ifs
  · exact hrun
  · exact pointers_removeCurrent _ hrun
  · exact hrun

theorem pointers_traffic (h : dev.Pointers) (hdev : DeviceInv dev) (he : e.isTraffic = true) :
    (lifeStep c dev e).dev.Pointers := by
  obtain ⟨hconfig, -, -, hpeers⟩ := @served_lifeStep c dev e hdev he
  have htable : (lifeStep c dev e).dev.allowedips = dev.allowedips :=
    congrArg DeviceConfig.allowedips hconfig
  have haddrs : (lifeStep c dev e).dev.peers.map Peer.addr = dev.peers.map Peer.addr :=
    map_settings hpeers PeerSettings.addr fun _ => rfl
  rw [pointers_iff, map_fst_ids] at h ⊢
  rwa [htable, haddrs]

theorem pointers_lifeRun (h : dev.Pointers) (hdev : DeviceInv dev) {es : List LifeEvent}
    (hes : ∀ e ∈ es, e.InUse) : (lifeRun c dev es).Pointers := by
  induction es generalizing dev with
  | nil => exact h
  | cons e es ih =>
    refine ih ?_ (hdev.lifeStep e) fun e' he' => hes e' (List.mem_cons_of_mem _ he')
    have huse := hes e List.mem_cons_self
    cases e with
    | set env stack data => exact pointers_processSet { hdev.toAllocated with pointers := h } stack huse
    | device e => exact pointers_traffic h hdev huse

end Runs

end Wgx
