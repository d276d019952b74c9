import Wgx.Device.Clocks
import Wgx.Device.Life

/-!
# The configuration of a living device

SET requests, new keys, new peers and removals touch no clock of a peer but its persistent
keepalive, and they keep the index table in order.

* `Clocks.Reconf`: what the configuration can do to the clocks of a peer;
* `Reconfigured`: what it can do to a device; `reconfigured_processSet` for SET requests;
* `DeviceInv.lifeRun`: the invariant of the device, now with SET requests.
-/

namespace Wgx

/-! ### Clocks -/

/-- The clocks of a peer that was just added. -/
def Clocks.new : Clocks where
  lastTimestamp := tai64nZero
  lastInitiationConsumptionMs := 0
  lastSentHandshakeMs := 0
  currentKeypair := none
  nextKeypair := none
  prevKeypair := none
  timers := timersInit
  needAnotherKeepalive := false
  persistentKeepaliveMs := 0
  sent := []

/-- The timers of the peer run, and the persistent keepalive does not if it is disabled. -/
structure Clocks.InOrder (k : Clocks) : Prop where
  active : k.timers.active = true
  disabled : k.persistentKeepaliveMs = 0 → k.timers.persistentKeepalive = none

/-- The configuration changes the persistent keepalive at most. -/
def Clocks.Reconf (k k' : Clocks) : Prop :=
  (∃ ms due, k' = { k.setTimer .persistentKeepalive due with persistentKeepaliveMs := ms }) ∧
    (k.InOrder → k'.InOrder)

section Clocks

variable {k k' k'' : Clocks} {p : Peer}

theorem Clocks.Reconf.refl (k : Clocks) : k.Reconf k := ⟨⟨_, _, rfl⟩, id⟩

theorem Clocks.Reconf.trans (h1 : k.Reconf k') (h2 : k'.Reconf k'') : k.Reconf k'' := by
  obtain ⟨⟨ms1, due1, rfl⟩, hord1⟩ := h1
  obtain ⟨⟨ms2, due2, rfl⟩, hord2⟩ := h2
  exact ⟨⟨ms2, due2, rfl⟩, hord2 ∘ hord1⟩

/-- `timers_persistent_keepalive_set` after a change of the interval. -/
theorem reconf_timersPersistentKeepaliveSet (env : Env) (ms : BitVec 32) :
    (p.clocks []).Reconf
      ((timersPersistentKeepaliveSet env { p with persistentKeepaliveMs := ms }).clocks []) := by
  unfold timersPersistentKeepaliveSet
  by_cases hoff : (!p.timers.active) = true
  · rw [if_pos hoff]
    refine ⟨⟨ms, p.timers.persistentKeepalive, rfl⟩, fun h => ?_⟩
    have hactive : p.timers.active = true := h.active
    simp [hactive] at hoff
  · rw [if_neg hoff]
    refine ⟨⟨ms, _, rfl⟩, fun h => ⟨h.active, fun hms => ?_⟩⟩
    exact if_neg (not_not.2 hms)

end Clocks

/-! ### Devices -/

/-- The peers of `dev'` are peers of `dev` whose clocks were reconfigured at most, or new ones; and
the device stays in order. -/
structure Reconfigured (dev dev' : Device) : Prop where
  next : dev.nextAddr ≤ dev'.nextAddr
  peers : ∀ p' ∈ dev'.peers,
    (∃ p ∈ dev.peers, p.addr = p'.addr ∧ (p.clocks []).Reconf (p'.clocks [])) ∨
      (dev.nextAddr ≤ p'.addr ∧ Clocks.new.Reconf (p'.clocks []))
  inv : DeviceInv dev → DeviceInv dev'

section Reconfigured

variable {c : Crypto} {env : Env} {dev dev' dev'' : Device} {peer : Peer}

theorem Reconfigured.refl (dev : Device) : Reconfigured dev dev :=
  ⟨le_rfl, fun p hp => Or.inl ⟨p, hp, rfl, Clocks.Reconf.refl _⟩, id⟩

theorem Reconfigured.trans (h1 : Reconfigured dev dev') (h2 : Reconfigured dev' dev'') :
    Reconfigured dev dev'' := by
  refine ⟨h1.next.trans h2.next, fun p'' hp'' => ?_, h2.inv ∘ h1.inv⟩
  rcases h2.peers p'' hp'' with ⟨p', hp', haddr, hre⟩ | ⟨haddr, hnew⟩
  · rcases h1.peers p' hp' with ⟨p, hp, haddr', hre'⟩ | ⟨haddr', hnew⟩
    · exact Or.inl ⟨p, hp, haddr'.trans haddr, hre'.trans hre⟩
    · exact Or.inr ⟨haddr ▸ haddr', hnew.trans hre⟩
  · exact Or.inr ⟨h1.next.trans haddr, hnew⟩

/-- A change of the device that leaves the records, the table and the allocator alone. -/
theorem reconfigured_of_eq (hpeers : dev'.peers = dev.peers) (hnext : dev'.nextAddr = dev.nextAddr)
    (htable : dev'.indexTable = dev.indexTable) : Reconfigured dev dev' := by
  refine ⟨hnext.ge, fun p hp => Or.inl ⟨p, hpeers ▸ hp, rfl, Clocks.Reconf.refl _⟩, fun h => ?_⟩
  refine ⟨hpeers ▸ h.nodup, ?_, ?_⟩
  · rw [hpeers, hnext]
    exact h.allocated
  · rw [Device.entries, hpeers, htable, hnext]
    exact h.owns

/-- Writing back a record that is not in the list changes nothing. -/
theorem store_absent {p : Peer} (h : dev.peerAt p.addr = none) : dev.store p = dev := by
  have hmap : dev.peers.map (fun q => if q.addr = p.addr then p else q) = dev.peers := by
    conv_rhs => rw [← List.map_id dev.peers]
    apply List.map_congr_left
    intro q hq
    have hne : q.addr ≠ p.addr := by
      simpa using List.find?_eq_none.1 h q hq
    rw [if_neg hne, id]
  rw [Device.store, hmap]

/-- Writing back a record with the entries and, up to a reconfiguration, the clocks it had. -/
theorem reconfigured_store {p : Peer} (hat : dev.peerAt peer.addr = some peer)
    (haddr : p.addr = peer.addr) (hentries : p.entries = peer.entries)
    (hidx : p.handshake.localIndex = peer.handshake.localIndex)
    (hre : (peer.clocks []).Reconf (p.clocks [])) : Reconfigured dev (dev.store p) := by
  refine ⟨le_rfl, fun q hq => ?_, fun h => ?_⟩
  · obtain ⟨r, hr, rfl⟩ := List.mem_map.1 hq
    split_ifs with hra
    · exact Or.inl ⟨peer, (Device.mem_of_peerAt hat).1, haddr.symm, hre⟩
    · exact Or.inl ⟨r, hr, rfl, Clocks.Reconf.refl _⟩
  · have hk : Kept
        ⟨0, 0, true, fun _ => ⟨Vector.replicate 32 0, fun _ => 0, 0, Vector.replicate 12 0⟩⟩
        (Ctx.start dev peer) { Ctx.start dev peer with peer := p } :=
      kept_of_entries rfl haddr hentries hidx
    exact h.called (called_start (Device.mem_of_peerAt hat).1 hk)

theorem reconfigured_noiseSetStaticKey (priv : List Byte) :
    Reconfigured dev (noiseSetStaticKey c dev priv) := by
  refine ⟨le_rfl, fun p' hp' => ?_, fun h => h.noiseSetStaticKey priv⟩
  obtain ⟨p, hp, rfl⟩ := List.mem_map.1 hp'
  exact Or.inl ⟨p, hp, rfl, Clocks.Reconf.refl _⟩

theorem reconfigured_deviceAddPeer (pk : List Byte) :
    Reconfigured dev (deviceAddPeer c dev pk) := by
  refine ⟨?_, fun p' hp' => ?_, fun h => h.deviceAddPeer pk⟩
  · unfold deviceAddPeer
    split_ifs
    · exact le_rfl
    · exact Nat.le_succ _
  · unfold deviceAddPeer at hp'
    split_ifs at hp'
    · exact Or.inl ⟨p', hp', rfl, Clocks.Reconf.refl _⟩
    · rcases List.mem_cons.1 hp' with rfl | hp'
      · exact Or.inr ⟨le_rfl, Clocks.Reconf.refl _⟩
      · exact Or.inl ⟨p', hp', rfl, Clocks.Reconf.refl _⟩

theorem reconfigured_deviceRemovePeer (hp : peer ∈ dev.peers) :
    Reconfigured dev (deviceRemovePeer dev peer) := by
  refine ⟨le_rfl, fun p' hp' => ?_, fun h => h.deviceRemovePeer hp⟩
  exact Or.inl ⟨p', (List.mem_filter.1 hp').1, rfl, Clocks.Reconf.refl _⟩

theorem foldl_peerTeardown_lists (ps : List Peer) (dev : Device) :
    (ps.foldl peerTeardown dev).nextAddr = dev.nextAddr ∧
      (ps.foldl peerTeardown dev).peers = dev.peers := by
  induction ps generalizing dev with
  | nil => exact ⟨rfl, rfl⟩
  | cons p ps ih => exact ih (peerTeardown dev p)

theorem reconfigured_deviceRemoveAllPeers : Reconfigured dev (deviceRemoveAllPeers dev) := by
  obtain ⟨hnext, hpeers⟩ := foldl_peerTeardown_lists dev.peers { dev with peers := [] }
  refine ⟨hnext.ge, fun p' hp' => ?_, fun h => h.deviceRemoveAllPeers⟩
  have hnone : p' ∈ ([] : List Peer) := by
    rw [← show _ = ([] : List Peer) from hpeers]
    exact hp'
  cases hnone

/-- A change of the device that keeps its records, then one of them written back. -/
theorem reconfigured_edit {p : Peer} {dev' : Device} (hpeers : dev'.peers = dev.peers)
    (hnext : dev'.nextAddr = dev.nextAddr) (htable : dev'.indexTable = dev.indexTable)
    (hrecord : dev.peerAt peer.addr = some peer ∨ dev.peerAt peer.addr = none)
    (haddr : p.addr = peer.addr) (hentries : p.entries = peer.entries)
    (hidx : p.handshake.localIndex = peer.handshake.localIndex)
    (hre : (peer.clocks []).Reconf (p.clocks [])) : Reconfigured dev (dev'.store p) := by
  refine (reconfigured_of_eq hpeers hnext htable).trans ?_
  have hat : dev'.peerAt peer.addr = dev.peerAt peer.addr := by
    rw [Device.peerAt, hpeers, Device.peerAt]
  rcases hrecord with hsome | hnone
  · exact reconfigured_store (hat.trans hsome) haddr hentries hidx hre
  · rw [store_absent (by rw [haddr, hat, hnone])]
    exact Reconfigured.refl _

/-! ### SET requests -/

variable {st : SetState} {val buf : List Byte} {key : UapiKey}

theorem reconfigured_removeCurrent : Reconfigured st.dev st.removeCurrent.dev := by
  unfold SetState.removeCurrent
  split
  · exact Reconfigured.refl _
  · split
    next peer hpeer => exact reconfigured_deviceRemovePeer (Device.mem_of_peerAt hpeer).1
    · exact Reconfigured.refl _

theorem reconfigured_endBlock : Reconfigured st.dev st.endBlock.dev := by
  have hall : Reconfigured st.dev
      (if st.replacePeers then { st.removeAll with replacePeers := false } else st).dev := by
    split_ifs
    · exact reconfigured_deviceRemoveAllPeers
    · exact Reconfigured.refl _
  simp only [SetState.endBlock]
  generalize (if st.replacePeers then { st.removeAll with replacePeers := false } else st) = st'
    at hall
  split_ifs
  · exact hall.trans reconfigured_removeCurrent
  · exact hall

theorem reconfigured_setPublicKey : Reconfigured st.dev (setPublicKey c st val).dev := by
  unfold setPublicKey
  refine reconfigured_endBlock.trans ?_
  generalize st.endBlock = st'
  simp only
  split_ifs
  · exact Reconfigured.refl _
  · split
    · exact Reconfigured.refl _
    · split
      · exact Reconfigured.refl _
      · exact reconfigured_deviceAddPeer _

/-- A line for a peer, on a record that the device has or has no more. -/
theorem reconfigured_setPeerLine
    (hrecord : st.dev.peerAt peer.addr = some peer ∨ st.dev.peerAt peer.addr = none) :
    Reconfigured st.dev (setPeerLine env st peer key val buf).dev := by
  have hsame : ∀ {dev' : Device} {p : Peer}, dev'.peers = st.dev.peers →
      dev'.nextAddr = st.dev.nextAddr → dev'.indexTable = st.dev.indexTable → p.addr = peer.addr →
      p.entries = peer.entries → p.handshake.localIndex = peer.handshake.localIndex →
      p.clocks [] = peer.clocks [] → Reconfigured st.dev (dev'.store p) :=
    fun hpeers hnext htable haddr hentries hidx hclocks =>
      reconfigured_edit hpeers hnext htable hrecord haddr hentries hidx
        (hclocks ▸ Clocks.Reconf.refl _)
  cases key with
  | remove =>
    simp only [setPeerLine]
    split_ifs <;> exact Reconfigured.refl _
  | presharedKey =>
    simp only [setPeerLine]
    split
    · exact hsame rfl rfl rfl rfl rfl rfl rfl
    · exact Reconfigured.refl _
  | endpoint =>
    simp only [setPeerLine]
    split
    · exact hsame rfl rfl rfl rfl rfl rfl rfl
    · exact Reconfigured.refl _
  | persistentKeepaliveInterval =>
    simp only [setPeerLine]
    refine reconfigured_edit rfl rfl rfl hrecord ?_ ?_ ?_
      (reconf_timersPersistentKeepaliveSet env _)
    all_goals
      unfold timersPersistentKeepaliveSet
      split_ifs <;> rfl
  | replaceAllowedIps =>
    simp only [setPeerLine]
    split_ifs
    · exact hsame rfl rfl rfl rfl rfl rfl rfl
    · exact Reconfigured.refl _
  | allowedIp =>
    simp only [setPeerLine, setAllowedIp]
    split
    · exact Reconfigured.refl _
    · split_ifs
      · exact Reconfigured.refl _
      · split
        · exact hsame rfl rfl rfl rfl rfl rfl rfl
        · split
          · exact hsame rfl rfl rfl rfl rfl rfl rfl
          · exact Reconfigured.refl _
  | _ => exact Reconfigured.refl _

theorem reconfigured_perPeer {st' : SetState} :
    Reconfigured st'.dev (match st'.currentPeer.bind st'.record with
      | none => st'
      | some peer => setPeerLine env st' peer key val buf).dev := by
  split
  · exact Reconfigured.refl _
  next peer hpeer =>
    obtain ⟨a, -, hrec⟩ := Option.bind_eq_some_iff.1 hpeer
    refine reconfigured_setPeerLine ?_
    unfold SetState.record at hrec
    cases hat : st'.dev.peerAt a with
    | some q =>
      rw [hat] at hrec
      cases hrec
      exact Or.inl ((Device.mem_of_peerAt hat).2 ▸ hat)
    | none =>
      rw [hat] at hrec
      have haddr : peer.addr = a := by simpa using List.find?_some hrec
      exact Or.inr (haddr ▸ hat)

theorem reconfigured_setKeyLine : Reconfigured st.dev (setKeyLine c env st key val buf).dev := by
  cases key with
  | privateKey =>
    simp only [setKeyLine]
    split
    · exact reconfigured_noiseSetStaticKey _
    · exact Reconfigured.refl _
  | listenPort =>
    simp only [setKeyLine]
    split_ifs
    · exact Reconfigured.refl _
    · exact reconfigured_of_eq rfl rfl rfl
    · exact Reconfigured.refl _
  | fwmark => exact reconfigured_of_eq rfl rfl rfl
  | replacePeers =>
    simp only [setKeyLine]
    split_ifs <;> exact Reconfigured.refl _
  | publicKey => exact reconfigured_setPublicKey
  | _ => exact reconfigured_perPeer

theorem reconfigured_setLine (line : List Byte) :
    Reconfigured st.dev (setLine c env st line).dev := by
  unfold setLine
  split_ifs
  · exact Reconfigured.refl _
  · exact Reconfigured.refl _
  · simp only
    split
    · exact Reconfigured.refl _
    · split
      · exact Reconfigured.refl _
      next key hkey =>
        have hline : ∀ old val buf : List Byte, Reconfigured st.dev
            (setKeyLine c env { st with line := old } key val buf).dev :=
          fun old val buf => @reconfigured_setKeyLine c env { st with line := old } val buf key
        exact hline _ _ _

/-- **A SET request** changes no clock of a peer but its persistent keepalive. -/
theorem reconfigured_processSet (stack data : List Byte) :
    Reconfigured dev (processSet c env dev stack data).dev := by
  have hrun : Reconfigured dev (setRun c env dev stack (setLines data)).dev :=
    @Machine.run_induction' _ _ (setLine c env) (fun st => Reconfigured dev st.dev)
      (fun st line h => h.trans (reconfigured_setLine line)) (.start dev stack)
      (Reconfigured.refl dev) (setLines data)
  unfold processSet SetState.finish
  split_ifs
  · exact hrun
  · exact hrun.trans reconfigured_removeCurrent
  · exact hrun

end Reconfigured

/-! ### The invariant in every life -/

/-- Every step in the life of a device keeps its invariant. -/
theorem DeviceInv.lifeStep {c : Crypto} {dev : Device} (h : DeviceInv dev) (e : LifeEvent) :
    DeviceInv (lifeStep c dev e).dev := by
  cases e with
  | device e => exact h.step e
  | set env stack data => exact (reconfigured_processSet stack data).inv h

/-- **The index table in every life**: it holds exactly the entries of the handshakes and keypairs
of the peers, also when SET requests come in between. -/
theorem DeviceInv.lifeRun {c : Crypto} {dev : Device} (h : DeviceInv dev) (es : List LifeEvent) :
    DeviceInv (lifeRun c dev es) :=
  @Machine.run_induction' _ _ (fun d e => (Wgx.lifeStep c d e).dev) DeviceInv
    (fun _ e hd => hd.lifeStep e) _ h es

end Wgx
