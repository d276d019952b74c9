import Wgx.Device.Transport
import Wgx.AllowedIps.Refine
import Wgx.Noise.Agreement

/-!
# Cryptokey routing of received packets

The configuration front ends keep two AllowedIPs tables for every peer: the device-wide one, where a
prefix has one owner, and the peer's own, which only that peer's lines change.  `handle_transport`
lets a packet pass if either table gives its source address to the peer it came from.

* `ConfigOp`, `configStep`: the configuration calls, with the calls each table has received;
* `configured_run`: the tables are what those calls build;
* `transportAllowed_iff`: the check passes exactly if a prefix inserted for the peer contains the
  source address, or the device-wide longest match is the peer;
* `written_iff_routed_iff`: so receiving obeys the device-wide table exactly as long as no prefix
  that was inserted for the peer is shadowed there at the source address.
-/

namespace Wgx

open AllowedIps (Op Table PrefixTable bitsOf)
open PrefixTrie (IsLongestMatch)

/-! ### Configuration histories -/

/-- One configuration call.  A call on a key that has no peer does nothing. -/
inductive ConfigOp
  | addPeer (pk : List Byte)
  | removePeer (pk : List Byte)
  | removeAllPeers
  | allowedIpV4 (pk : List Byte) (addr : InAddr) (cidr : ℕ)
  | allowedIpV6 (pk : List Byte) (addr : In6Addr) (cidr : ℕ)
  | replaceAllowedIps (pk : List Byte)

/-- A device with the calls that its tables have received: the device-wide table since the start,
a peer's own table since it was last initialised. -/
structure Configured where
  dev : Device
  calls : List (Op ℕ)
  own : ℕ → List (Op ℕ)

section History

variable (c : Crypto)

/-- The effect of a configuration call. -/
def configStep (s : Configured) : ConfigOp → Configured
  | .addPeer pk =>
    { s with
      dev := deviceAddPeer c s.dev pk
      own := if (deviceFindPeer s.dev pk).isSome then s.own
        else Function.update s.own s.dev.nextAddr [] }
  | .removePeer pk =>
    match deviceFindPeer s.dev pk with
    | none => s
    | some peer =>
      { s with dev := deviceRemovePeer s.dev peer, calls := s.calls ++ [.removePeer peer.addr] }
  | .removeAllPeers =>
    { s with
      dev := deviceRemoveAllPeers s.dev
      calls := s.calls ++ s.dev.peers.map fun peer => .removePeer peer.addr }
  | .allowedIpV4 pk addr cidr =>
    match deviceFindPeer s.dev pk with
    | none => s
    | some peer =>
      let op := Op.insertV4 addr cidr peer.addr
      ⟨applyAllowedIpV4 s.dev peer addr cidr, s.calls ++ [op],
        Function.update s.own peer.addr (s.own peer.addr ++ [op])⟩
  | .allowedIpV6 pk addr cidr =>
    match deviceFindPeer s.dev pk with
    | none => s
    | some peer =>
      let op := Op.insertV6 addr cidr peer.addr
      ⟨applyAllowedIpV6 s.dev peer addr cidr, s.calls ++ [op],
        Function.update s.own peer.addr (s.own peer.addr ++ [op])⟩
  | .replaceAllowedIps pk =>
    match deviceFindPeer s.dev pk with
    | none => s
    | some peer =>
      ⟨replaceAllowedIps s.dev peer, s.calls ++ [.removePeer peer.addr],
        Function.update s.own peer.addr []⟩

/-- The configuration after the calls `ops` on a fresh device. -/
def configured (ops : List ConfigOp) : Configured :=
  Machine.run (configStep c) ⟨deviceInit c, [], fun _ => []⟩ ops

end History

/-- A call inserts a prefix for the peer `addr`. -/
def InsertsFor (addr : ℕ) : Op ℕ → Prop
  | .insertV4 _ _ peer => peer = addr
  | .insertV6 _ _ peer => peer = addr
  | .removePeer _ => False

/-- The tables are what the recorded calls build. -/
structure ConfiguredInv (s : Configured) : Prop where
  table_eq : s.dev.allowedips = Table.after s.calls
  own_eq : ∀ p ∈ s.dev.peers, p.allowedips = Table.after (s.own p.addr)
  addr_lt : ∀ p ∈ s.dev.peers, p.addr < s.dev.nextAddr
  inserts : ∀ addr, ∀ op ∈ s.own addr, InsertsFor addr op

theorem Table.after_snoc (ops : List (Op ℕ)) (op : Op ℕ) :
    Table.after (ops ++ [op]) = (Table.after ops).step op :=
  Machine.run_snoc _ _ _ _

theorem mem_store {dev : Device} {peer p : Peer} (h : p ∈ (dev.store peer).peers) :
    p = peer ∨ (p ∈ dev.peers ∧ p.addr ≠ peer.addr) := by
  obtain ⟨q, hq, rfl⟩ := List.mem_map.1 h
  split_ifs with haddr
  · exact Or.inl rfl
  · exact Or.inr ⟨hq, haddr⟩

theorem inserts_update {own : ℕ → List (Op ℕ)} (h : ∀ addr, ∀ op ∈ own addr, InsertsFor addr op)
    {addr : ℕ} {mine : List (Op ℕ)} (hmine : ∀ op ∈ mine, InsertsFor addr op) :
    ∀ addr', ∀ op ∈ Function.update own addr mine addr', InsertsFor addr' op := by
  intro addr' op hop
  by_cases ha : addr' = addr
  · subst ha
    rw [Function.update_self] at hop
    exact hmine op hop
  · rw [Function.update_of_ne ha] at hop
    exact h addr' op hop

/-- What a line for one peer keeps: the device-wide table gets the call `op`, and the peer's own
table becomes what the calls `mine` build. -/
theorem configuredInv_store {s : Configured} (hs : ConfiguredInv s) {peer : Peer}
    (hpeer : peer ∈ s.dev.peers) (op : Op ℕ) {mine : List (Op ℕ)}
    (hmine : ∀ op ∈ mine, InsertsFor peer.addr op) :
    ConfiguredInv ⟨Device.store { s.dev with allowedips := s.dev.allowedips.step op }
      { peer with allowedips := Table.after mine }, s.calls ++ [op],
      Function.update s.own peer.addr mine⟩ := by
  refine ⟨?_, ?_, ?_, ?_⟩
  · show s.dev.allowedips.step op = _
    rw [Table.after_snoc, hs.table_eq]
  · intro p hp
    rcases mem_store hp with rfl | ⟨hp, hne⟩
    · show Table.after mine = Table.after (Function.update s.own peer.addr mine peer.addr)
      rw [Function.update_self]
    · show p.allowedips = Table.after (Function.update s.own peer.addr mine p.addr)
      rw [Function.update_of_ne hne, hs.own_eq p hp]
  · intro p hp
    rcases mem_store hp with rfl | ⟨hp, -⟩
    · exact hs.addr_lt peer hpeer
    · exact hs.addr_lt p hp
  · exact inserts_update hs.inserts hmine

theorem mem_of_deviceFindPeer {dev : Device} {pk : List Byte} {peer : Peer}
    (h : deviceFindPeer dev pk = some peer) : peer ∈ dev.peers := List.mem_of_find?_eq_some h

theorem foldl_peerTeardown_frame (peers : List Peer) (dev : Device) :
    (peers.foldl peerTeardown dev).allowedips =
        Machine.run Table.step dev.allowedips (peers.map fun p => .removePeer p.addr) ∧
      (peers.foldl peerTeardown dev).peers = dev.peers := by
  induction peers generalizing dev with
  | nil => exact ⟨rfl, rfl⟩
  | cons p ps ih => exact ih (peerTeardown dev p)

theorem configuredInv_step (c : Crypto) (s : Configured) (op : ConfigOp) (hs : ConfiguredInv s) :
    ConfiguredInv (configStep c s op) := by
  cases op with
  | addPeer pk =>
    simp only [configStep, deviceAddPeer]
    by_cases hfind : (deviceFindPeer s.dev pk).isSome
    · simpa only [if_pos hfind] using hs
    · simp only [if_neg hfind]
      refine ⟨hs.table_eq, ?_, ?_, ?_⟩
      · intro p hp
        rcases List.mem_cons.1 hp with rfl | hp
        · show Table.after [] = Table.after (Function.update s.own s.dev.nextAddr [] s.dev.nextAddr)
          rw [Function.update_self]
        · show p.allowedips = Table.after (Function.update s.own s.dev.nextAddr [] p.addr)
          rw [Function.update_of_ne (hs.addr_lt p hp).ne, hs.own_eq p hp]
      · intro p hp
        rcases List.mem_cons.1 hp with rfl | hp
        · exact Nat.lt_succ_self _
        · exact Nat.lt_succ_of_lt (hs.addr_lt p hp)
      · exact inserts_update hs.inserts (by simp)
  | removePeer pk =>
    simp only [configStep]
    cases hfind : deviceFindPeer s.dev pk with
    | none => exact hs
    | some peer =>
      refine ⟨?_, ?_, ?_, hs.inserts⟩
      · show s.dev.allowedips.step (.removePeer peer.addr) = _
        rw [Table.after_snoc, hs.table_eq]
      · intro p hp
        exact hs.own_eq p (List.mem_filter.1 hp).1
      · intro p hp
        exact hs.addr_lt p (List.mem_filter.1 hp).1
  | removeAllPeers =>
    obtain ⟨htable, hpeers⟩ := foldl_peerTeardown_frame s.dev.peers { s.dev with peers := [] }
    refine ⟨?_, ?_, ?_, hs.inserts⟩
    · show (deviceRemoveAllPeers s.dev).allowedips = Table.after (s.calls ++ _)
      rw [deviceRemoveAllPeers, htable, Table.after, Machine.run_append]
      exact congrArg (fun t => Machine.run _ t _) hs.table_eq
    · intro p hp
      have hp' : p ∈ (deviceRemoveAllPeers s.dev).peers := hp
      rw [deviceRemoveAllPeers, hpeers] at hp'
      cases hp'
    · intro p hp
      have hp' : p ∈ (deviceRemoveAllPeers s.dev).peers := hp
      rw [deviceRemoveAllPeers, hpeers] at hp'
      cases hp'
  | allowedIpV4 pk addr cidr =>
    simp only [configStep]
    cases hfind : deviceFindPeer s.dev pk with
    | none => exact hs
    | some peer =>
      have hpeer := mem_of_deviceFindPeer hfind
      have hown : (AllowedIps.allowedipsInsertV4 peer.allowedips addr cidr peer.addr).1 =
          Table.after (s.own peer.addr ++ [.insertV4 addr cidr peer.addr]) := by
        rw [Table.after_snoc, ← hs.own_eq peer hpeer]
        rfl
      simp only [applyAllowedIpV4, hown]
      refine configuredInv_store hs hpeer (.insertV4 addr cidr peer.addr) fun op hop => ?_
      rcases List.mem_append.1 hop with hop | hop
      · exact hs.inserts _ op hop
      · rw [List.mem_singleton.1 hop]; rfl
  | allowedIpV6 pk addr cidr =>
    simp only [configStep]
    cases hfind : deviceFindPeer s.dev pk with
    | none => exact hs
    | some peer =>
      have hpeer := mem_of_deviceFindPeer hfind
      have hown : (AllowedIps.allowedipsInsertV6 peer.allowedips addr cidr peer.addr).1 =
          Table.after (s.own peer.addr ++ [.insertV6 addr cidr peer.addr]) := by
        rw [Table.after_snoc, ← hs.own_eq peer hpeer]
        rfl
      simp only [applyAllowedIpV6, hown]
      refine configuredInv_store hs hpeer (.insertV6 addr cidr peer.addr) fun op hop => ?_
      rcases List.mem_append.1 hop with hop | hop
      · exact hs.inserts _ op hop
      · rw [List.mem_singleton.1 hop]; rfl
  | replaceAllowedIps pk =>
    simp only [configStep]
    cases hfind : deviceFindPeer s.dev pk with
    | none => exact hs
    | some peer =>
      exact configuredInv_store hs (mem_of_deviceFindPeer hfind) (.removePeer peer.addr)
        (List.forall_mem_nil _)

/-- The tables of every configured device are what its calls build. -/
theorem configured_run (c : Crypto) (ops : List ConfigOp) : ConfiguredInv (configured c ops) :=
  Machine.run_induction' _ (configuredInv_step c)
    ⟨rfl, List.forall_mem_nil _, List.forall_mem_nil _, fun _ => List.forall_mem_nil _⟩ ops

/-! ### The check of a received packet -/

/-- The device-wide longest match of the inner source address is the peer `addr`. -/
def RoutedTo (M : PrefixTable ℕ) (p : List Byte) (addr : ℕ) : Prop :=
  if ipVersion p = 4 then IsLongestMatch M.v4 (bitsOf (inAddrAt p 12).toList 32) addr
  else IsLongestMatch M.v6 (bitsOf (in6AddrAt p 8).toList 128) addr

/-- One of the calls inserts a prefix that contains the inner source address. -/
def Covered (calls : List (Op ℕ)) (p : List Byte) : Prop :=
  if ipVersion p = 4 then
    ∃ addr cidr peer, .insertV4 addr cidr peer ∈ calls ∧ cidr ≤ 32 ∧
      bitsOf addr.toList cidr <+: bitsOf (inAddrAt p 12).toList 32
  else
    ∃ addr cidr peer, .insertV6 addr cidr peer ∈ calls ∧ cidr ≤ 128 ∧
      bitsOf addr.toList cidr <+: bitsOf (in6AddrAt p 8).toList 128

theorem PrefixTable.after_snoc (ops : List (Op ℕ)) (op : Op ℕ) :
    PrefixTable.after (ops ++ [op]) = (PrefixTable.after ops).step op :=
  Machine.run_snoc _ _ _ _

/-- The IPv4 map that insertions for one peer build. -/
theorem after_inserts_v4 {peer : ℕ} {ops : List (Op ℕ)} (h : ∀ op ∈ ops, InsertsFor peer op)
    (k : List Bool) :
    (∀ q, (PrefixTable.after ops).v4 k = some q → q = peer) ∧
      ((PrefixTable.after ops).v4 k ≠ none ↔
        ∃ addr cidr q, .insertV4 addr cidr q ∈ ops ∧ cidr ≤ 32 ∧ bitsOf addr.toList cidr = k) := by
  induction ops using List.reverseRecOn with
  | nil => simp [PrefixTable.after, PrefixTable.empty]
  | append_singleton ops op ih =>
    obtain ⟨ih1, ih2⟩ := ih fun op' hop => h op' (List.mem_append_left _ hop)
    have hop := h op (List.mem_append_right _ (List.mem_singleton_self op))
    rw [PrefixTable.after_snoc]
    cases op with
    | insertV4 addr cidr q =>
      simp only [List.mem_append, List.mem_singleton, Op.insertV4.injEq]
      by_cases hc : cidr ≤ 32
      · have hstep : ((PrefixTable.after ops).step (.insertV4 addr cidr q)).v4 =
            Function.update (PrefixTable.after ops).v4 (bitsOf addr.toList cidr) (some q) := by
          rw [PrefixTable.step, if_pos hc]
        rw [hstep]
        by_cases hk : k = bitsOf addr.toList cidr
        · rw [hk, Function.update_self]
          refine ⟨fun q' hq' => (Option.some.inj hq').symm.trans hop, fun _ => ?_, by simp⟩
          exact ⟨addr, cidr, q, Or.inr ⟨rfl, rfl, rfl⟩, hc, rfl⟩
        · rw [Function.update_of_ne hk]
          refine ⟨ih1, ih2.trans ⟨?_, ?_⟩⟩
          · rintro ⟨a, n, q', hmem, hn, rfl⟩
            exact ⟨a, n, q', Or.inl hmem, hn, rfl⟩
          · rintro ⟨a, n, q', hmem | ⟨rfl, rfl, rfl⟩, hn, rfl⟩
            · exact ⟨a, n, q', hmem, hn, rfl⟩
            · exact absurd rfl hk
      · rw [PrefixTable.step, if_neg hc]
        refine ⟨ih1, ih2.trans ⟨?_, ?_⟩⟩
        · rintro ⟨a, n, q', hmem, hn, rfl⟩
          exact ⟨a, n, q', Or.inl hmem, hn, rfl⟩
        · rintro ⟨a, n, q', hmem | ⟨rfl, rfl, rfl⟩, hn, rfl⟩
          · exact ⟨a, n, q', hmem, hn, rfl⟩
          · exact absurd hn hc
    | insertV6 addr cidr q =>
      have hstep : ((PrefixTable.after ops).step (.insertV6 addr cidr q)).v4 =
          (PrefixTable.after ops).v4 := by
        simp only [PrefixTable.step]
        split_ifs <;> rfl
      have hmem : ∀ a n q', (.insertV4 a n q' ∈ ops ++ [Op.insertV6 addr cidr q]) ↔
          .insertV4 a n q' ∈ ops := by simp
      simp only [hstep, hmem]
      exact ⟨ih1, ih2⟩
    | removePeer q => exact absurd hop id

/-- The IPv6 map that insertions for one peer build. -/
theorem after_inserts_v6 {peer : ℕ} {ops : List (Op ℕ)} (h : ∀ op ∈ ops, InsertsFor peer op)
    (k : List Bool) :
    (∀ q, (PrefixTable.after ops).v6 k = some q → q = peer) ∧
      ((PrefixTable.after ops).v6 k ≠ none ↔
        ∃ addr cidr q, .insertV6 addr cidr q ∈ ops ∧ cidr ≤ 128 ∧ bitsOf addr.toList cidr = k) := by
  induction ops using List.reverseRecOn with
  | nil => simp [PrefixTable.after, PrefixTable.empty]
  | append_singleton ops op ih =>
    obtain ⟨ih1, ih2⟩ := ih fun op' hop => h op' (List.mem_append_left _ hop)
    have hop := h op (List.mem_append_right _ (List.mem_singleton_self op))
    rw [PrefixTable.after_snoc]
    cases op with
    | insertV6 addr cidr q =>
      simp only [List.mem_append, List.mem_singleton, Op.insertV6.injEq]
      by_cases hc : cidr ≤ 128
      · have hstep : ((PrefixTable.after ops).step (.insertV6 addr cidr q)).v6 =
            Function.update (PrefixTable.after ops).v6 (bitsOf addr.toList cidr) (some q) := by
          rw [PrefixTable.step, if_pos hc]
        rw [hstep]
        by_cases hk : k = bitsOf addr.toList cidr
        · rw [hk, Function.update_self]
          refine ⟨fun q' hq' => (Option.some.inj hq').symm.trans hop, fun _ => ?_, by simp⟩
          exact ⟨addr, cidr, q, Or.inr ⟨rfl, rfl, rfl⟩, hc, rfl⟩
        · rw [Function.update_of_ne hk]
          refine ⟨ih1, ih2.trans ⟨?_, ?_⟩⟩
          · rintro ⟨a, n, q', hmem, hn, rfl⟩
            exact ⟨a, n, q', Or.inl hmem, hn, rfl⟩
          · rintro ⟨a, n, q', hmem | ⟨rfl, rfl, rfl⟩, hn, rfl⟩
            · exact ⟨a, n, q', hmem, hn, rfl⟩
            · exact absurd rfl hk
      · rw [PrefixTable.step, if_neg hc]
        refine ⟨ih1, ih2.trans ⟨?_, ?_⟩⟩
        · rintro ⟨a, n, q', hmem, hn, rfl⟩
          exact ⟨a, n, q', Or.inl hmem, hn, rfl⟩
        · rintro ⟨a, n, q', hmem | ⟨rfl, rfl, rfl⟩, hn, rfl⟩
          · exact ⟨a, n, q', hmem, hn, rfl⟩
          · exact absurd hn hc
    | insertV4 addr cidr q =>
      have hstep : ((PrefixTable.after ops).step (.insertV4 addr cidr q)).v6 =
          (PrefixTable.after ops).v6 := by
        simp only [PrefixTable.step]
        split_ifs <;> rfl
      have hmem : ∀ a n q', (.insertV6 a n q' ∈ ops ++ [Op.insertV4 addr cidr q]) ↔
          .insertV6 a n q' ∈ ops := by simp
      simp only [hstep, hmem]
      exact ⟨ih1, ih2⟩
    | removePeer q => exact absurd hop id

/-- A peer's own table gives it an IPv4 address exactly if one of its prefixes contains it. -/
theorem own_lookup_v4 {peer : ℕ} {ops : List (Op ℕ)} (h : ∀ op ∈ ops, InsertsFor peer op)
    (a : InAddr) :
    AllowedIps.allowedipsLookupV4 (Table.after ops) a = some peer ↔
      ∃ addr cidr q, .insertV4 addr cidr q ∈ ops ∧ cidr ≤ 32 ∧
        bitsOf addr.toList cidr <+: bitsOf a.toList 32 := by
  rw [(AllowedIps.represents_after ops).lookupV4,
    PrefixTrie.longestMatch_const fun k => (after_inserts_v4 h k).1]
  constructor
  · rintro ⟨k, hk, hne⟩
    obtain ⟨addr, cidr, q, hmem, hc, rfl⟩ := (after_inserts_v4 h k).2.1 hne
    exact ⟨addr, cidr, q, hmem, hc, hk⟩
  · rintro ⟨addr, cidr, q, hmem, hc, hk⟩
    exact ⟨_, hk, (after_inserts_v4 h _).2.2 ⟨addr, cidr, q, hmem, hc, rfl⟩⟩

/-- A peer's own table gives it an IPv6 address exactly if one of its prefixes contains it. -/
theorem own_lookup_v6 {peer : ℕ} {ops : List (Op ℕ)} (h : ∀ op ∈ ops, InsertsFor peer op)
    (a : In6Addr) :
    AllowedIps.allowedipsLookupV6 (Table.after ops) a = some peer ↔
      ∃ addr cidr q, .insertV6 addr cidr q ∈ ops ∧ cidr ≤ 128 ∧
        bitsOf addr.toList cidr <+: bitsOf a.toList 128 := by
  rw [(AllowedIps.represents_after ops).lookupV6,
    PrefixTrie.longestMatch_const fun k => (after_inserts_v6 h k).1]
  constructor
  · rintro ⟨k, hk, hne⟩
    obtain ⟨addr, cidr, q, hmem, hc, rfl⟩ := (after_inserts_v6 h k).2.1 hne
    exact ⟨addr, cidr, q, hmem, hc, hk⟩
  · rintro ⟨addr, cidr, q, hmem, hc, hk⟩
    exact ⟨_, hk, (after_inserts_v6 h _).2.2 ⟨addr, cidr, q, hmem, hc, rfl⟩⟩

/-- A packet with consistent headers is an IPv4 or an IPv6 packet with a whole header. -/
theorem transportPlaintextLen_version {p : List Byte} {n : ℕ} (h : transportPlaintextLen p = some n)
    (h0 : 0 < n) : (ipVersion p = 4 ∧ 20 ≤ n) ∨ (ipVersion p = 6 ∧ 40 ≤ n) := by
  simp only [transportPlaintextLen] at h
  split_ifs at h with hempty h4 hlen hihl h6 hlen' htotal
  · cases h; omega
  · cases h; exact Or.inl ⟨h4, by omega⟩
  · cases h; exact Or.inr ⟨h6, by omega⟩

/-- **What the check lets pass**: packets whose source address is in a prefix inserted for the peer,
and packets whose device-wide longest match is the peer. -/
theorem transportAllowed_iff {dev : Device} {peer : Peer} {calls own : List (Op ℕ)}
    (hdev : dev.allowedips = Table.after calls) (hpeer : peer.allowedips = Table.after own)
    (hown : ∀ op ∈ own, InsertsFor peer.addr op) {p : List Byte} {n : ℕ}
    (hn : transportPlaintextLen p = some n) (h0 : 0 < n) :
    transportAllowed dev peer p n = true ↔
      Covered own p ∨ RoutedTo (PrefixTable.after calls) p peer.addr := by
  have hrep := AllowedIps.represents_after calls
  rcases transportPlaintextLen_version hn h0 with ⟨hv, hle⟩ | ⟨hv, hle⟩
  · rw [transportAllowed, if_pos ⟨hv, hle⟩, Covered, if_pos hv, RoutedTo, if_pos hv,
      decide_eq_true_eq, hdev, hpeer, own_lookup_v4 hown, hrep.lookupV4,
      PrefixTrie.longestMatch_eq_some]
  · have h4 : ¬ ipVersion p = 4 := by omega
    rw [transportAllowed, if_neg fun h => h4 h.1, if_pos ⟨hv, hle⟩, Covered, if_neg h4, RoutedTo,
      if_neg h4, decide_eq_true_eq, hdev, hpeer, own_lookup_v6 hown, hrep.lookupV6,
      PrefixTrie.longestMatch_eq_some]

/-! ### Received packets -/

/-- The message is authentic and fresh: it opens, under the keypair `kp` of `peer`, to `p`. -/
structure Opens (c : Crypto) (dev : Device) (msg : MsgTransport) (peer : Peer) (kp : Keypair)
    (p : List Byte) : Prop where
  content_len : 16 ≤ msg.content.length
  target : transportTarget dev msg.receiver = some (peer, kp)
  fresh : Replay.replayCheck kp.replay msg.counter rejectAfterMessages = true
  opened : c.aeadDecrypt kp.recvKey (transportNonce msg.counter) msg.content [] = some p

theorem Opens.mem {c : Crypto} {dev : Device} {msg : MsgTransport} {peer : Peer} {kp : Keypair}
    {p : List Byte} (h : Opens c dev msg peer kp p) : peer ∈ dev.peers := by
  have ht := h.target
  unfold transportTarget at ht
  split at ht
  · cases ht
  · split_ifs at ht
    split at ht
    next hpeer =>
      obtain ⟨kp', -, heq⟩ := Option.map_eq_some_iff.1 ht
      cases heq
      exact List.mem_of_find?_eq_some hpeer
    next => cases ht

theorem promoteNext_frame (x : Ctx) (kpAddr : ℕ) :
    (promoteNext x kpAddr).dev.allowedips = x.dev.allowedips ∧
      (promoteNext x kpAddr).peer.allowedips = x.peer.allowedips ∧
      (promoteNext x kpAddr).peer.addr = x.peer.addr ∧ (promoteNext x kpAddr).tun = x.tun := by
  unfold promoteNext
  split
  · split_ifs <;> exact ⟨rfl, rfl, rfl, rfl⟩
  · exact ⟨rfl, rfl, rfl, rfl⟩

theorem timersDataReceived_frame (env : Env) (peer : Peer) :
    (timersDataReceived env peer).allowedips = peer.allowedips ∧
      (timersDataReceived env peer).addr = peer.addr := by
  unfold timersDataReceived
  split_ifs <;> exact ⟨rfl, rfl⟩

/-- What an authentic packet writes to the TUN device. -/
theorem handleTransport_tun {c : Crypto} {env : Env} {dev : Device} {src : Endpoint}
    {msg : MsgTransport} {peer : Peer} {kp : Keypair} {p : List Byte}
    (h : Opens c dev msg peer kp p) {n : ℕ} (hn : transportPlaintextLen p = some n) (h0 : 0 < n) :
    (handleTransport c env dev src msg).tun =
      if transportAllowed dev peer p n then [p.take n] else [] := by
  have hcommit : (Replay.replayCommit kp.replay msg.counter rejectAfterMessages).1 = true := by
    simp [Replay.replayCommit, h.fresh]
  obtain ⟨f, hf⟩ : ∃ f, Replay.replayCommit kp.replay msg.counter rejectAfterMessages = (true, f) :=
    ⟨_, Prod.ext hcommit rfl⟩
  have hlen := h.content_len
  simp only [handleTransport, if_neg (show ¬ msg.content.length < 16 by omega), h.target, h.fresh,
    h.opened, hf, Bool.not_true, Bool.false_eq_true, if_false]
  -- delivery changes nothing that the check reads
  set peer' : Peer := { peer.mapKeypair kp.addr fun kp => { kp with replay := f } with
    rxBytes := peer.rxBytes + BitVec.ofNat 64 (msgTransportHdrSize + msg.content.length) }
  obtain ⟨hrecv1, hrecv2⟩ := timersDataReceived_frame env peer'
  obtain ⟨hp1, hp2, hp3, hp4⟩ := promoteNext_frame
    { Ctx.start dev peer' with peer := timersDataReceived env peer' } kp.addr
  have hallowed : ∀ ep, transportAllowed
      (promoteNext { Ctx.start dev peer' with peer := timersDataReceived env peer' } kp.addr).dev
      { (promoteNext { Ctx.start dev peer' with peer := timersDataReceived env peer' } kp.addr).peer
        with endpoint := ep } p n = transportAllowed dev peer p n := by
    intro ep
    simp only [transportAllowed, hp1, hp2, hp3, hrecv1, hrecv2]
    rfl
  simp only [Ctx.handled, transportDeliver, hn, if_pos h0, Ctx.start] at *
  have hcounted : { peer.mapKeypair kp.addr (fun kp => { kp with replay := f }) with
      rxBytes := (peer.mapKeypair kp.addr fun kp => { kp with replay := f }).rxBytes +
        BitVec.ofNat 64 (msgTransportHdrSize + msg.content.length) } = peer' := rfl
  simp only [hcounted, hallowed]
  split_ifs <;> simp [hp4]

/-- The AllowedIPs of the device were built by the configuration calls `ops`. -/
def BuiltBy (c : Crypto) (ops : List ConfigOp) (dev : Device) : Prop :=
  dev.allowedips = (configured c ops).dev.allowedips ∧
    ∀ p ∈ dev.peers, ∃ q ∈ (configured c ops).dev.peers,
      q.addr = p.addr ∧ q.allowedips = p.allowedips

/-- **When receiving obeys the device-wide table.**  On a device whose AllowedIPs were built by any
configuration calls, let an authentic packet with inner length `n` come from `peer`.  It is written
exactly when the device-wide longest match of its source address is `peer`, if and only if: where a
prefix inserted for `peer` since its own table was last initialised contains that address, the
device-wide longest match is still `peer`. -/
theorem written_iff_routed_iff (c : Crypto) (env : Env) (ops : List ConfigOp) (dev : Device)
    (hdev : BuiltBy c ops dev) (src : Endpoint) (msg : MsgTransport) (peer : Peer) (kp : Keypair)
    (p : List Byte) (hopen : Opens c dev msg peer kp p) (n : ℕ)
    (hn : transportPlaintextLen p = some n) (h0 : 0 < n) :
    ((handleTransport c env dev src msg).tun = [p.take n] ↔
        RoutedTo (PrefixTable.after (configured c ops).calls) p peer.addr) ↔
      (Covered ((configured c ops).own peer.addr) p →
        RoutedTo (PrefixTable.after (configured c ops).calls) p peer.addr) := by
  have hinv := configured_run c ops
  obtain ⟨q, hq, haddr, hips⟩ := hdev.2 peer hopen.mem
  have htable : dev.allowedips = Table.after (configured c ops).calls :=
    hdev.1.trans hinv.table_eq
  have hown : peer.allowedips = Table.after ((configured c ops).own peer.addr) := by
    rw [← hips, ← haddr, hinv.own_eq q hq]
  have hallowed := transportAllowed_iff htable hown (hinv.inserts peer.addr) hn h0
  have hwritten : (handleTransport c env dev src msg).tun = [p.take n] ↔
      transportAllowed dev peer p n = true := by
    rw [handleTransport_tun hopen hn h0]
    split_ifs with h <;> simp [h]
  rw [hwritten, hallowed]
  constructor
  · intro h hcov
    exact h.1 (Or.inl hcov)
  · intro h
    exact ⟨fun h' => h'.elim h id, Or.inr⟩

/-! ### A prefix inside another peer's prefix -/

/-- Peer 1 gets 10.0.0.0/8, then peer 2 gets 10.1.0.0/16. -/
def overlapOps : List ConfigOp :=
  [.addPeer (List.replicate 32 1), .addPeer (List.replicate 32 2),
    .allowedIpV4 (List.replicate 32 1) #v[10, 0, 0, 0] 8,
    .allowedIpV4 (List.replicate 32 2) #v[10, 1, 0, 0] 16]

/-- A session of peer 1. -/
def overlapKeypair : Keypair where
  addr := 9
  sendNonce := 0
  sendKey := zeroKey
  recvKey := zeroKey
  replay := Replay.replayReset
  isInitiator := false
  createdAtMs := 0
  localIndex := 3
  remoteIndex := 4

/-- The configured device with that session. -/
def overlapDevice : Device :=
  let dev := (configured toyCrypto overlapOps).dev
  { dev with
    peers := dev.peers.map fun p =>
      if p.addr = 1 then { p with currentKeypair := some overlapKeypair } else p
    indexTable := fun s => if s = 3 then some ⟨.keypair, 3, 1, some 1, some 9⟩ else none }

/-- An IPv4 header from 10.1.0.1 to 10.9.0.1. -/
def overlapPacket : List Byte :=
  [0x45, 0, 0, 20, 0, 0, 0, 0, 64, 0, 0, 0, 10, 1, 0, 1, 10, 9, 0, 1]

/-- That packet, sent by peer 1. -/
def overlapMsg : MsgTransport :=
  ⟨3, 0, toyCrypto.aeadEncrypt zeroKey (transportNonce 0) overlapPacket []⟩

theorem overlapDevice_builtBy : BuiltBy toyCrypto overlapOps overlapDevice := by
  refine ⟨rfl, fun p hp => ?_⟩
  obtain ⟨q, hq, rfl⟩ := List.mem_map.1 hp
  refine ⟨q, hq, ?_⟩
  split_ifs <;> exact ⟨rfl, rfl⟩

theorem overlapMsg_opens :
    ∃ peer kp, peer.addr = 1 ∧ Opens toyCrypto overlapDevice overlapMsg peer kp overlapPacket :=
  ⟨_, _, rfl, by decide, rfl, by decide +kernel, by decide +kernel⟩

theorem written_iff_routed_iff_overlap :
    ∃ peer kp, peer.addr = 1 ∧ Opens toyCrypto overlapDevice overlapMsg peer kp overlapPacket ∧
      (((handleTransport toyCrypto (toyEnv 5) overlapDevice (.v4 #v[1, 2, 3, 4] 5) overlapMsg).tun =
          [overlapPacket.take 20] ↔
          RoutedTo (PrefixTable.after (configured toyCrypto overlapOps).calls) overlapPacket
            peer.addr) ↔
        (Covered ((configured toyCrypto overlapOps).own peer.addr) overlapPacket →
          RoutedTo (PrefixTable.after (configured toyCrypto overlapOps).calls) overlapPacket
            peer.addr)) := by
  obtain ⟨peer, kp, haddr, hopen⟩ := overlapMsg_opens
  exact ⟨peer, kp, haddr, hopen, written_iff_routed_iff toyCrypto (toyEnv 5) overlapOps
    overlapDevice overlapDevice_builtBy _ overlapMsg peer kp overlapPacket hopen 20 (by decide)
    (by decide)⟩

/-- Peer 1 gets a packet from an address of peer 2 written to the TUN device. -/
theorem overlap_written_not_routed :
    BuiltBy toyCrypto overlapOps overlapDevice ∧
    (∃ peer kp, peer.addr = 1 ∧ Opens toyCrypto overlapDevice overlapMsg peer kp overlapPacket) ∧
    transportPlaintextLen overlapPacket = some 20 ∧
    (handleTransport toyCrypto (toyEnv 5) overlapDevice (.v4 #v[1, 2, 3, 4] 5) overlapMsg).tun =
      [overlapPacket.take 20] ∧
    ¬ RoutedTo (PrefixTable.after (configured toyCrypto overlapOps).calls) overlapPacket 1 := by
  refine ⟨overlapDevice_builtBy, overlapMsg_opens, by decide, by decide +kernel, ?_⟩
  rw [RoutedTo, if_pos (by decide), ← PrefixTrie.longestMatch_eq_some,
    ← (AllowedIps.represents_after _).lookupV4]
  decide +kernel

end Wgx
