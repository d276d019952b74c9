import Wgx.AllowedIps.Copy
import Wgx.Device.Reachable
import Wgx.Uapi.Set

/-!
# What a line for a peer says

A line for a peer says one thing about one peer: a change of its record, and of the entries that it
has in the AllowedIPs table.  Both are stated here without the loop.

* `PeerSetting`, `PeerSetting.read`: what a well-formed line says;
* `SettingApplied`: the device has the setting at one peer, and is otherwise as before;
* `settingApplied_setPeerLine`: that is what `setPeerLine` makes of it;
* `table_setLine`: a line changes the table by insertions and removals only.
-/

namespace Wgx

open AllowedIps

/-! ### Settings -/

/-- What a line says about a peer. -/
inductive PeerSetting
  | remove
  | presharedKey (psk : List Byte)
  | endpoint (ep : Endpoint)
  | persistentKeepalive (sec : BitVec 32)
  | replaceAllowedIps
  | allowedIpV4 (addr : InAddr) (cidr : ℕ)
  | allowedIpV6 (addr : In6Addr) (cidr : ℕ)
  deriving DecidableEq

/-- The prefix in a value, if it is one: the address before the slash, and a length of its family. -/
def PeerSetting.readAllowedIp (val : List Byte) : Option PeerSetting :=
  (strchr val (chr '/')).bind fun slash =>
    let cidr := ((atoi (val.drop (slash + 1))).setWidth 8).toNat
    if inet6Addrstrlen ≤ slash then none
    else match inetPton4 (val.take slash) with
      | some addr => if cidr ≤ 32 then some (.allowedIpV4 addr cidr) else none
      | none =>
        (inetPton6 (val.take slash)).bind fun addr =>
          if cidr ≤ 128 then some (.allowedIpV6 addr cidr) else none

/-- What a key and a value say, if the value is well formed; `buf` is the buffer from the value on. -/
def PeerSetting.read (key : UapiKey) (val buf : List Byte) : Option PeerSetting :=
  match key with
  | .remove => if val = ascii "true" then some .remove else none
  | .presharedKey => (hexDecode val 32).map .presharedKey
  | .endpoint => (parseEndpoint buf).map .endpoint
  | .persistentKeepaliveInterval => some (.persistentKeepalive (atoi val))
  | .replaceAllowedIps => if val = ascii "true" then some .replaceAllowedIps else none
  | .allowedIp => readAllowedIp val
  | _ => none

/-- What a line says, where `old` is what earlier lines left in the buffer. -/
def lineSetting (old line : List Byte) : Option PeerSetting :=
  (strchr line (chr '=')).bind fun eq =>
    (UapiKey.ofText (line.take eq)).bind fun key =>
      let buf := (line ++ 0#8 :: old.drop (line.length + 1)).set eq 0#8
      PeerSetting.read key (line.drop (eq + 1)) (buf.drop (eq + 1))

/-- The record of the peer with the setting.  A `remove=true` takes effect at the end of the block. -/
def PeerSetting.edit (env : Env) (p : Peer) : PeerSetting → Peer
  | .remove => p
  | .presharedKey psk => { p with handshake := { p.handshake with psk := psk } }
  | .endpoint ep => { p with endpoint := some ep }
  | .persistentKeepalive sec =>
    timersPersistentKeepaliveSet env { p with persistentKeepaliveMs := sec * 1000 }
  | .replaceAllowedIps => { p with allowedips := allowedipsInit }
  | .allowedIpV4 addr cidr =>
    { p with allowedips := p.allowedips.step (.insertV4 addr cidr p.addr) }
  | .allowedIpV6 addr cidr =>
    { p with allowedips := p.allowedips.step (.insertV6 addr cidr p.addr) }

/-- The prefix that a setting takes for its peer. -/
def PeerSetting.taken : PeerSetting → Option (ℕ × List Bool)
  | .allowedIpV4 addr cidr => some (4, bitsOf addr.toList cidr)
  | .allowedIpV6 addr cidr => some (6, bitsOf addr.toList cidr)
  | _ => none

/-- A line that says `s` has been applied to the peer at `addr`, and to nothing else. -/
structure SettingApplied (env : Env) (addr : ℕ) (s : Option PeerSetting) (dev dev' : Device) :
    Prop where
  /-- The record of the peer has the setting, the other records stay as they are. -/
  peers : dev'.peers = dev.peers.map fun p =>
    if p.addr = addr then s.elim p (PeerSetting.edit env p) else p
  /-- The peer gets the prefix that is taken, or gives up all that it had; nothing else moves. -/
  routes : ∀ key peer, dev'.allowedips.Routes key peer ↔
    if s.bind PeerSetting.taken = some key then peer = addr
    else dev.allowedips.Routes key peer ∧ (s = some .replaceAllowedIps → peer ≠ addr)
  /-- The rest of the device stays as it is. -/
  rest : dev' = { dev with peers := dev'.peers, allowedips := dev'.allowedips }

/-! ### Lines -/

section Lines

variable {env : Env} {dev : Device} {peer : Peer} {st : SetState} {key : UapiKey}
  {val buf : List Byte} {M : PrefixTable ℕ}

/-- A line that says nothing yet. -/
theorem settingApplied_same {s : Option PeerSetting} (addr : ℕ) (hs : s = none ∨ s = some .remove) :
    SettingApplied env addr s dev dev := by
  have hedit : ∀ p : Peer, s.elim p (PeerSetting.edit env p) = p := by
    rcases hs with rfl | rfl <;> exact fun _ => rfl
  refine ⟨?_, fun key q => ?_, rfl⟩
  · simp only [hedit, ite_self, List.map_id']
  · rcases hs with rfl | rfl <;> simp [PeerSetting.taken]

/-- A line that writes the record of the peer back, and may change the table. -/
theorem settingApplied_store {s : PeerSetting} {t : Table ℕ}
    (huniq : ∀ q ∈ dev.peers, q.addr = peer.addr → q = peer)
    (haddr : (s.edit env peer).addr = peer.addr)
    (ht : ∀ key q, t.Routes key q ↔
      if s.taken = some key then q = peer.addr
      else dev.allowedips.Routes key q ∧ (some s = some .replaceAllowedIps → q ≠ peer.addr)) :
    SettingApplied env peer.addr (some s) dev
      (Device.store { dev with allowedips := t } (s.edit env peer)) := by
  refine ⟨?_, ht, rfl⟩
  refine List.map_congr_left fun q hq => ?_
  rw [haddr]
  by_cases hqp : q.addr = peer.addr
  · rw [if_pos hqp, if_pos hqp, huniq q hq hqp]
    rfl
  · rw [if_neg hqp, if_neg hqp]

/-- The line changes the record only. -/
theorem settingApplied_record {s : PeerSetting}
    (huniq : ∀ q ∈ dev.peers, q.addr = peer.addr → q = peer)
    (haddr : (s.edit env peer).addr = peer.addr) (htaken : s.taken = none)
    (hkeep : s ≠ .replaceAllowedIps) :
    SettingApplied env peer.addr (some s) dev (dev.store (s.edit env peer)) := by
  refine settingApplied_store huniq haddr fun key q => ?_
  rw [htaken, if_neg (by simp)]
  exact (and_iff_left fun h => absurd (Option.some.inj h) hkeep).symm

theorem settingApplied_setAllowedIp (huniq : ∀ q ∈ st.dev.peers, q.addr = peer.addr → q = peer)
    (hrep : Represents st.dev.allowedips M) :
    SettingApplied env peer.addr (PeerSetting.readAllowedIp val) st.dev
      (setAllowedIp st peer val).dev := by
  have hnone : ∀ {t : Table ℕ}, t = st.dev.allowedips → ∀ own : Table ℕ, own = peer.allowedips →
      SettingApplied env peer.addr none st.dev
        (Device.store { st.dev with allowedips := t } { peer with allowedips := own }) := by
    rintro t rfl own rfl
    have hstore : Device.store { st.dev with allowedips := st.dev.allowedips } peer = st.dev := by
      have hpeers : (st.dev.peers.map fun q => if q.addr = peer.addr then peer else q) =
          st.dev.peers := by
        refine (List.map_congr_left fun q hq => ?_).trans (List.map_id _)
        split_ifs with hqp
        · exact (huniq q hq hqp).symm
        · rfl
      rw [Device.store, hpeers]
    have hsame := @settingApplied_same env st.dev none peer.addr (Or.inl rfl)
    exact (congrArg (SettingApplied env peer.addr none st.dev) hstore).mpr hsame
  unfold setAllowedIp PeerSetting.readAllowedIp
  cases hslash : strchr val (chr '/') with
  | none => exact settingApplied_same _ (Or.inl rfl)
  | some slash =>
    simp only [Option.bind_some]
    generalize ((atoi (val.drop (slash + 1))).setWidth 8).toNat = cidr
    by_cases hlong : inet6Addrstrlen ≤ slash
    · rw [if_pos hlong, if_pos hlong]
      exact settingApplied_same _ (Or.inl rfl)
    · rw [if_neg hlong, if_neg hlong]
      cases h4 : inetPton4 (val.take slash) with
      | some addr =>
        simp only
        by_cases hc : cidr ≤ 32
        · rw [if_pos hc]
          refine @settingApplied_store env st.dev peer (.allowedIpV4 addr cidr) _ huniq rfl
            fun key q => ?_
          simp only [PeerSetting.taken, Option.some_inj, reduceCtorEq, false_implies, and_true]
          exact hrep.routes_insert (Or.inl rfl) (fun key hkey => entryAt_insertV4 hc hkey addr peer.addr) q
        · rw [if_neg hc]
          exact hnone (by rw [allowedipsInsertV4, if_pos (by omega)]) _
            (by rw [allowedipsInsertV4, if_pos (by omega)])
      | none =>
        cases h6 : inetPton6 (val.take slash) with
        | none => exact settingApplied_same _ (Or.inl rfl)
        | some addr =>
          simp only [Option.bind_some]
          by_cases hc : cidr ≤ 128
          · rw [if_pos hc]
            refine @settingApplied_store env st.dev peer (.allowedIpV6 addr cidr) _ huniq rfl
              fun key q => ?_
            simp only [PeerSetting.taken, Option.some_inj, reduceCtorEq, false_implies, and_true]
            exact hrep.routes_insert (Or.inr rfl) (fun key hkey => entryAt_insertV6 hc hkey addr peer.addr) q
          · rw [if_neg hc]
            exact hnone (by rw [allowedipsInsertV6, if_pos (by omega)]) _
              (by rw [allowedipsInsertV6, if_pos (by omega)])

/-- **A line for a peer does what it says**, to that peer and nothing else. -/
theorem settingApplied_setPeerLine (hkey : key.perPeer = true)
    (huniq : ∀ q ∈ st.dev.peers, q.addr = peer.addr → q = peer)
    (hrep : Represents st.dev.allowedips M) :
    SettingApplied env peer.addr (PeerSetting.read key val buf) st.dev
      (setPeerLine env st peer key val buf).dev := by
  cases key with
  | remove =>
    simp only [setPeerLine, PeerSetting.read]
    split_ifs
    · exact settingApplied_same _ (Or.inr rfl)
    · exact settingApplied_same _ (Or.inl rfl)
  | presharedKey =>
    simp only [setPeerLine, PeerSetting.read]
    cases hexDecode val 32 with
    | some psk =>
      exact @settingApplied_record env st.dev peer (.presharedKey psk) huniq rfl rfl (by simp)
    | none => exact settingApplied_same _ (Or.inl rfl)
  | endpoint =>
    simp only [setPeerLine, PeerSetting.read]
    cases parseEndpoint buf with
    | some ep => exact @settingApplied_record env st.dev peer (.endpoint ep) huniq rfl rfl (by simp)
    | none => exact settingApplied_same _ (Or.inl rfl)
  | persistentKeepaliveInterval =>
    refine @settingApplied_record env st.dev peer (.persistentKeepalive (atoi val)) huniq ?_ rfl
      (by simp)
    unfold PeerSetting.edit timersPersistentKeepaliveSet
    simp only
    split_ifs <;> rfl
  | replaceAllowedIps =>
    simp only [setPeerLine, PeerSetting.read]
    split_ifs
    · refine @settingApplied_store env st.dev peer .replaceAllowedIps _ huniq rfl fun key q => ?_
      simp only [PeerSetting.taken, reduceCtorEq, if_false, true_implies]
      exact hrep.routes_removePeer q
    · exact settingApplied_same _ (Or.inl rfl)
  | allowedIp => exact settingApplied_setAllowedIp huniq hrep
  | privateKey => cases hkey
  | listenPort => cases hkey
  | fwmark => cases hkey
  | replacePeers => cases hkey
  | publicKey => cases hkey

/-- Without a current peer a line for one does nothing. -/
theorem setKeyLine_of_none {c : Crypto} (hkey : key.perPeer = true)
    (hp : st.currentPeer.bind st.record = none) : setKeyLine c env st key val buf = st := by
  cases key <;> first | exact Bool.noConfusion hkey | simp only [setKeyLine, hp]

theorem setKeyLine_of_some {c : Crypto} (hkey : key.perPeer = true)
    (hp : st.currentPeer.bind st.record = some peer) :
    setKeyLine c env st key val buf = setPeerLine env st peer key val buf := by
  cases key <;> first | exact Bool.noConfusion hkey | simp only [setKeyLine, hp]

end Lines

/-! ### The table during a request -/

section Table

variable {c : Crypto} {env : Env} {dev : Device} {peer : Peer} {st : SetState} {key : UapiKey}
  {val buf : List Byte} {P : Table ℕ → Prop} (hP : ∀ t op, P t → P (t.step op))

include hP

theorem table_foldl_peerTeardown (ps : List Peer) (h : P dev.allowedips) :
    P (ps.foldl peerTeardown dev).allowedips := by
  induction ps generalizing dev with
  | nil => exact h
  | cons p ps ih => exact @ih (peerTeardown dev p) (hP _ (.removePeer p.addr) h)

theorem table_removeCurrent (h : P st.dev.allowedips) : P st.removeCurrent.dev.allowedips := by
  unfold SetState.removeCurrent
  split
  · exact h
  · split
    next p hp =>
      exact table_foldl_peerTeardown hP [p] h
    · exact h

theorem table_endBlock (h : P st.dev.allowedips) : P st.endBlock.dev.allowedips := by
  have hall : P (if st.replacePeers then { st.removeAll with replacePeers := false }
      else st).dev.allowedips := by
    split_ifs
    · exact table_foldl_peerTeardown hP st.dev.peers h
    · exact h
  simp only [SetState.endBlock]
  generalize (if st.replacePeers then { st.removeAll with replacePeers := false } else st) = st'
    at hall
  split_ifs
  · exact table_removeCurrent hP hall
  · exact hall

theorem table_setPublicKey (h : P st.dev.allowedips) :
    P (setPublicKey c st val).dev.allowedips := by
  have hend := table_endBlock hP h
  unfold setPublicKey
  generalize st.endBlock = st' at hend
  simp only
  split_ifs
  · exact hend
  · split
    · exact hend
    · split
      · exact hend
      · unfold deviceAddPeer
        split_ifs <;> exact hend

theorem table_setPeerLine (h : P st.dev.allowedips) :
    P (setPeerLine env st peer key val buf).dev.allowedips := by
  cases key with
  | remove =>
    simp only [setPeerLine]
    split_ifs <;> exact h
  | presharedKey =>
    simp only [setPeerLine]
    split <;> exact h
  | endpoint =>
    simp only [setPeerLine]
    split <;> exact h
  | replaceAllowedIps =>
    simp only [setPeerLine]
    split_ifs
    · exact hP _ (.removePeer peer.addr) h
    · exact h
  | allowedIp =>
    simp only [setPeerLine, setAllowedIp]
    split
    · exact h
    · split_ifs
      · exact h
      · split
        next addr haddr => exact hP _ (.insertV4 addr _ peer.addr) h
        · split
          next addr haddr => exact hP _ (.insertV6 addr _ peer.addr) h
          · exact h
  | _ => exact h

theorem table_setKeyLine (h : P st.dev.allowedips) :
    P (setKeyLine c env st key val buf).dev.allowedips := by
  have hpeer : key.perPeer = true → P (setKeyLine c env st key val buf).dev.allowedips := by
    intro hkey
    cases hp : st.currentPeer.bind st.record with
    | none =>
      rw [setKeyLine_of_none hkey hp]
      exact h
    | some peer =>
      rw [setKeyLine_of_some hkey hp]
      exact table_setPeerLine hP h
  cases key with
  | privateKey =>
    simp only [setKeyLine]
    split <;> exact h
  | listenPort =>
    simp only [setKeyLine]
    split_ifs <;> exact h
  | fwmark => exact h
  | replacePeers =>
    simp only [setKeyLine]
    split_ifs <;> exact h
  | publicKey => exact table_setPublicKey hP h
  | _ => exact hpeer rfl

/-- **What every insertion and removal keeps of the table, a line keeps.** -/
theorem table_setLine (h : P st.dev.allowedips) (line : List Byte) :
    P (setLine c env st line).dev.allowedips := by
  unfold setLine
  split_ifs
  · exact h
  · exact h
  · simp only
    split
    · exact h
    · split
      · exact h
      · exact @table_setKeyLine c env { st with line := _ } _ _ _ P hP h

/-- And a request. -/
theorem table_setRun (h : P dev.allowedips) (stack : List Byte) (lines : List (List Byte)) :
    P (setRun c env dev stack lines).dev.allowedips :=
  @Machine.run_induction' _ _ (setLine c env) (fun st => P st.dev.allowedips)
    (fun _ line hst => table_setLine hP hst line) _ h lines

end Table

end Wgx
