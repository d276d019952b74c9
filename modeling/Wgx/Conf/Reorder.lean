import Wgx.Conf.Alike
import Wgx.Noise.Agreement

/-!
# The order of the lines of a `[Peer]` section

A line of a `[Peer]` section goes to the peer of the `PublicKey` line before it; in front of that
line a `PresharedKey` ends the loop, and `Endpoint`, `AllowedIPs` and the interval are passed over.
Behind it, each line writes a field of its own.

* `Edit`, `editsOf`: what the lines behind the `PublicKey` do, write by write;
* `sameDevice_edits`: in any order;
* `ValidSection`, `aheadOfKey`: the lines of a section, and those that stand before its `PublicKey`;
* `key_order_irrelevant`: lines that stay on their side of the `PublicKey` can be permuted;
* `key_order_counts`: across it they cannot.
-/

namespace Wgx

open AllowedIps

/-! ### Writes -/

/-- A write to the configuration of a peer. -/
inductive Edit
  | psk (psk : List Byte)
  | endpoint (ep : Endpoint)
  | keepalive (ms : BitVec 32)
  | allow (p : Prefix)

/-- The key whose lines make a write. -/
def Edit.kind : Edit → ConfKey
  | .psk _ => .presharedKey
  | .endpoint _ => .endpoint
  | .keepalive _ => .persistentKeepalive
  | .allow _ => .allowedIps

/-- The device's table behind a write. -/
def Edit.table (addr : ℕ) (t : Table ℕ) : Edit → Table ℕ
  | .allow p => t.step (p.op addr)
  | _ => t

/-- The peer's record behind a write. -/
def Edit.peer (peer : Peer) : Edit → Peer
  | .psk key => { peer with handshake := { peer.handshake with psk := key } }
  | .endpoint ep => { peer with endpoint := some ep }
  | .keepalive ms => { peer with persistentKeepaliveMs := ms }
  | .allow p => { peer with allowedips := peer.allowedips.step (p.op peer.addr) }

/-- The device behind a write for the peer at an address. -/
def Edit.apply (addr : ℕ) (dev : Device) (e : Edit) : Device :=
  match dev.peerAt addr with
  | some peer =>
    Device.store { dev with allowedips := e.table peer.addr dev.allowedips } (e.peer peer)
  | none => dev

/-- Two writes that do not write the same field. -/
def Edit.Apart (e e' : Edit) : Prop := e.kind = e'.kind → e.kind = .allowedIps

theorem Edit.Apart.symm {e e' : Edit} (h : e.Apart e') : e'.Apart e := fun he => by
  rw [he]
  exact h he.symm

@[simp] theorem Edit.peer_addr (peer : Peer) (e : Edit) : (e.peer peer).addr = peer.addr := by
  cases e <;> rfl

theorem SamePeer.edit {p p' : Peer} (h : SamePeer p p') (e : Edit) :
    SamePeer (e.peer p) (e.peer p') := by
  obtain ⟨t, ht, rfl⟩ := h
  cases e with
  | allow q => exact ⟨_, ht.step _, rfl⟩
  | _ => exact ⟨t, ht, rfl⟩

theorem SameDevice.editTable {dev dev' : Device} (h : SameDevice dev dev') (addr : ℕ) (e : Edit) :
    SameDevice { dev with allowedips := e.table addr dev.allowedips }
      { dev' with allowedips := e.table addr dev'.allowedips } := by
  cases e with
  | allow p => exact h.table _
  | _ => exact h

theorem SameDevice.edit {dev dev' : Device} (h : SameDevice dev dev') (addr : ℕ) (e : Edit) :
    SameDevice (e.apply addr dev) (e.apply addr dev') := by
  have hrel := h.peerAt addr
  unfold Edit.apply
  cases hp : dev.peerAt addr <;> cases hp' : dev'.peerAt addr <;> rw [hp, hp'] at hrel <;>
    cases hrel
  · exact h
  · rename_i hpeer
    have haddr := hpeer
    obtain ⟨t, -, rfl⟩ := haddr
    exact (h.editTable _ e).store (hpeer.edit e)

/-- Writes to different fields of a record come to the same. -/
theorem SamePeer.swap {p : Peer} (h : SamePeer p p) {e e' : Edit} (hapart : e.Apart e') :
    SamePeer (e'.peer (e.peer p)) (e.peer (e'.peer p)) := by
  obtain ⟨t, ht, hp⟩ := h
  have htable : p.allowedips = t := congrArg Peer.allowedips hp
  rw [← htable] at ht
  cases e with
  | allow q =>
    cases e' with
    | allow q' => exact ⟨_, ht.step_comm _ q q', rfl⟩
    | _ => exact ⟨_, ht.step _, rfl⟩
  | psk psk =>
    cases e' with
    | psk _ => exact absurd (hapart rfl) (by simp [Edit.kind])
    | allow q => exact ⟨_, ht.step _, rfl⟩
    | _ => exact ⟨_, ht, rfl⟩
  | endpoint ep =>
    cases e' with
    | endpoint _ => exact absurd (hapart rfl) (by simp [Edit.kind])
    | allow q => exact ⟨_, ht.step _, rfl⟩
    | _ => exact ⟨_, ht, rfl⟩
  | keepalive ms =>
    cases e' with
    | keepalive _ => exact absurd (hapart rfl) (by simp [Edit.kind])
    | allow q => exact ⟨_, ht.step _, rfl⟩
    | _ => exact ⟨_, ht, rfl⟩

theorem SameTable.swap {t : Table ℕ} (h : SameTable t t) (addr : ℕ) (e e' : Edit) :
    SameTable (e'.table addr (e.table addr t)) (e.table addr (e'.table addr t)) := by
  cases e <;> cases e' <;> first
    | exact h
    | exact h.step _
    | exact h.step_comm ..

/-- Two writes one after the other. -/
theorem edit_edit {dev : Device} {addr : ℕ} {peer : Peer} (h : dev.peerAt addr = some peer)
    (e e' : Edit) : e'.apply addr (e.apply addr dev) =
      Device.store { dev with allowedips := e'.table addr (e.table addr dev.allowedips) }
        (e'.peer (e.peer peer)) := by
  have haddr : peer.addr = addr := by simpa using List.find?_some h
  subst haddr
  have hat : (e.apply peer.addr dev).peerAt peer.addr = some (e.peer peer) := by
    rw [Edit.apply, h]
    have hold : Device.peerAt { dev with allowedips := e.table peer.addr dev.allowedips }
        (e.peer peer).addr = some peer := by
      rw [Edit.peer_addr]
      exact h
    rw [← Edit.peer_addr peer e]
    exact Device.peerAt_store hold
  rw [Edit.apply, hat, Edit.apply, h]
  simp only [Edit.peer_addr, Device.store, List.map_map]
  congr 1
  refine List.map_congr_left fun p _ => ?_
  by_cases hp : p.addr = peer.addr
  · simp [hp]
  · simp [hp]

/-- **Writes to different fields commute.** -/
theorem SameDevice.swap {dev : Device} (h : SameDevice dev dev) (addr : ℕ) {e e' : Edit}
    (hapart : e.Apart e') :
    SameDevice (e'.apply addr (e.apply addr dev)) (e.apply addr (e'.apply addr dev)) := by
  have hrel := h.peerAt addr
  cases hp : dev.peerAt addr with
  | none =>
    have hnone : ∀ e : Edit, e.apply addr dev = dev := fun e => by rw [Edit.apply, hp]
    rw [hnone, hnone, hnone]
    exact h
  | some peer =>
    rw [hp] at hrel
    cases hrel with
    | some hpeer =>
      rw [edit_edit hp, edit_edit hp]
      refine SameDevice.store ?_ (hpeer.swap hapart)
      obtain ⟨t, ps, ht, hps, hdev⟩ := h
      have htable : dev.allowedips = t := congrArg Device.allowedips hdev
      have hpeers : dev.peers = ps := congrArg Device.peers hdev
      rw [← htable] at ht
      rw [← hpeers] at hps
      exact ⟨_, dev.peers, ht.swap addr e e', hps, rfl⟩

/-- **The writes of a peer's lines come to the same in any order.** -/
theorem sameDevice_edits {dev : Device} (h : SameDevice dev dev) (addr : ℕ) {es es' : List Edit}
    (hperm : es.Perm es') (hes : es.Pairwise Edit.Apart) :
    SameDevice (Machine.run (Edit.apply addr) dev es) (Machine.run (Edit.apply addr) dev es') :=
  Machine.run_perm (R := SameDevice) (fun _ _ => SameDevice.symm) (fun _ _ _ => SameDevice.trans)
    (fun _ _ e h => h.edit addr e) (fun _ _ => Edit.Apart.symm)
    (fun _ _ _ h hapart => h.swap addr hapart) hperm hes h

/-! ### Lines behind the `PublicKey` -/

/-- The two keys for the interval count as one. -/
def ConfKey.canon : ConfKey → ConfKey
  | .persistentKeepaliveInterval => .persistentKeepalive
  | key => key

/-- A `PublicKey` line. -/
def ConfLine.isPublicKey : ConfLine → Bool
  | .entry (some .publicKey) _ => true
  | _ => false

/-- A `PresharedKey` line. -/
def ConfLine.isPresharedKey : ConfLine → Bool
  | .entry (some .presharedKey) _ => true
  | _ => false

/-- A line that is about the current peer. -/
def ConfLine.needsPeer : ConfLine → Bool
  | .entry (some .presharedKey) _ | .entry (some .endpoint) _ | .entry (some .allowedIps) _
  | .entry (some .persistentKeepalive) _ | .entry (some .persistentKeepaliveInterval) _ => true
  | _ => false

/-- A line that starts a section. -/
def ConfLine.isHeader : ConfLine → Bool
  | .header _ => true
  | _ => false

/-- The writes of a line for the current peer. -/
def editsOf (cenv : ConfEnv) : ConfLine → List Edit
  | .entry (some .presharedKey) val =>
    ((base64Decode val 32).filter fun psk => psk.length = 32).toList.map .psk
  | .entry (some .endpoint) val => (confEndpoint cenv val).toList.map .endpoint
  | .entry (some .allowedIps) val => (((strtok val).map trim).filterMap confPrefix).map .allow
  | .entry (some .persistentKeepalive) val | .entry (some .persistentKeepaliveInterval) val =>
    if 0 < (atoi val).toInt then [.keepalive (atoi val * 1000)] else []
  | _ => []

theorem editsOf_of_not_needsPeer (cenv : ConfEnv) {line : ConfLine} (h : line.needsPeer = false) :
    editsOf cenv line = [] := by
  rcases line with _ | _ | ⟨_ | key, val⟩
  · rfl
  · rfl
  · rfl
  · cases key <;> first | rfl | cases h

/-- A write comes from a line with its key. -/
theorem kind_of_mem_editsOf {cenv : ConfEnv} {line : ConfLine} {e : Edit}
    (h : e ∈ editsOf cenv line) :
    ∃ key val, line = .entry (some key) val ∧ e.kind = key.canon := by
  rcases line with _ | _ | ⟨_ | key, val⟩
  · cases h
  · cases h
  · cases h
  · refine ⟨key, val, rfl, ?_⟩
    cases key with
    | privateKey | listenPort | publicKey => cases h
    | presharedKey | endpoint | allowedIps =>
      obtain ⟨_, -, rfl⟩ := List.mem_map.mp h
      rfl
    | persistentKeepalive | persistentKeepaliveInterval =>
      simp only [editsOf] at h
      split_ifs at h
      · rw [List.mem_singleton.mp h]
        rfl
      · cases h

theorem pairwise_editsOf (cenv : ConfEnv) (line : ConfLine) :
    (editsOf cenv line).Pairwise Edit.Apart := by
  rcases line with _ | _ | ⟨_ | key, val⟩
  · exact .nil
  · exact .nil
  · exact .nil
  · cases key with
    | privateKey | listenPort | publicKey => exact .nil
    | presharedKey =>
      simp only [editsOf]
      cases (base64Decode val 32).filter fun psk => psk.length = 32 <;> simp
    | endpoint =>
      simp only [editsOf]
      cases confEndpoint cenv val <;> simp
    | allowedIps =>
      simp only [editsOf, List.pairwise_map]
      exact List.pairwise_of_forall fun _ _ _ => rfl
    | persistentKeepalive | persistentKeepaliveInterval =>
      simp only [editsOf]
      split_ifs <;> simp

section Loop

variable {c : Crypto} {cenv : ConfEnv}

theorem updatePeer_edit (st : ConfState) (addr : ℕ) {f : Peer → Peer} {e : Edit}
    (hf : ∀ peer, f peer = e.peer peer) (ht : ∀ addr t, e.table addr t = t) :
    (st.updatePeer addr f).dev = e.apply addr st.dev := by
  unfold ConfState.updatePeer Edit.apply
  cases st.dev.peerAt addr with
  | none => rfl
  | some peer => simp only [hf, ht]

theorem allowedIps_edits (addr : ℕ) (st : ConfState) (entries : List (List Byte)) :
    (entries.foldl (applyAllowedIp addr) st).dev =
      Machine.run (Edit.apply addr) st.dev ((entries.filterMap confPrefix).map .allow) := by
  induction entries generalizing st with
  | nil => rfl
  | cons entry entries ih =>
    rw [List.foldl_cons, ih]
    cases hp : confPrefix entry with
    | none =>
      rw [List.filterMap_cons_none hp]
      simp only [applyAllowedIp, hp]
    | some p =>
      rw [List.filterMap_cons_some hp, List.map_cons]
      show _ = Machine.run _ (Edit.apply addr st.dev (.allow p)) _
      congr 1
      unfold applyAllowedIp Edit.apply
      rw [hp]
      cases st.dev.peerAt addr with
      | none => rfl
      | some peer => exact insertPrefix_eq st.dev peer p

/-- What a line does for the current peer. -/
theorem line_edits {st : ConfState} {addr : ℕ} {line : ConfLine} (hrun : st.stopped = false)
    (hsec : st.sec = .peer) (hpeer : st.currentPeer = some addr) (hhead : line.isHeader = false)
    (hpk : line.isPublicKey = false)
    (hpsk : ∀ val, line = .entry (some .presharedKey) val → Decodes val) :
    (lineStep c cenv st line).dev = Machine.run (Edit.apply addr) st.dev (editsOf cenv line) ∧
      SameFlow st (lineStep c cenv st line) := by
  rw [lineStep, hrun, if_neg (by decide)]
  rcases line with _ | _ | ⟨_ | key, val⟩
  · exact ⟨rfl, .refl st⟩
  · cases hhead
  · exact ⟨rfl, .refl st⟩
  · rw [confApply_peer hsec]
    cases key with
    | publicKey => cases hpk
    | privateKey | listenPort => exact ⟨rfl, .refl st⟩
    | presharedKey =>
      obtain ⟨key, hkey, hlen⟩ := hpsk val rfl
      have hdec : (base64Decode val 32).filter (fun psk => psk.length = 32) = some key := by
        rw [hkey]
        simp [hlen]
      simp only [confPeer, hpeer, editsOf, hdec]
      exact ⟨updatePeer_edit st addr (fun _ => rfl) fun _ _ => rfl, sameFlow_updatePeer ..⟩
    | endpoint =>
      simp only [confPeer, hpeer, editsOf]
      cases confEndpoint cenv val with
      | none => exact ⟨rfl, .refl st⟩
      | some ep =>
        exact ⟨updatePeer_edit st addr (fun _ => rfl) fun _ _ => rfl, sameFlow_updatePeer ..⟩
    | allowedIps =>
      simp only [confPeer, hpeer, editsOf]
      exact ⟨allowedIps_edits addr st _, sameFlow_allowedIps ..⟩
    | persistentKeepalive | persistentKeepaliveInterval =>
      simp only [confPeer, hpeer, editsOf]
      refine ⟨?_, sameFlow_keepalive ..⟩
      simp only [confKeepalive]
      split_ifs
      · exact updatePeer_edit st addr (fun _ => rfl) fun _ _ => rfl
      · rfl

/-- What some lines do for the current peer. -/
theorem lines_edits {lines : List ConfLine} (hhead : ∀ line ∈ lines, line.isHeader = false)
    (hpk : ∀ line ∈ lines, line.isPublicKey = false)
    (hpsk : ∀ val, .entry (some .presharedKey) val ∈ lines → Decodes val) {st : ConfState}
    {addr : ℕ} (hrun : st.stopped = false) (hsec : st.sec = .peer)
    (hpeer : st.currentPeer = some addr) :
    (Machine.run (lineStep c cenv) st lines).dev =
        Machine.run (Edit.apply addr) st.dev (lines.flatMap (editsOf cenv)) ∧
      SameFlow st (Machine.run (lineStep c cenv) st lines) := by
  induction lines generalizing st with
  | nil => exact ⟨rfl, .refl st⟩
  | cons line lines ih =>
    obtain ⟨hdev, hflow⟩ := @line_edits c cenv _ _ _ hrun hsec hpeer
      (hhead line (by simp)) (hpk line (by simp)) fun val h => hpsk val (by simp [h])
    obtain ⟨hdev', hflow'⟩ := ih (fun l hl => hhead l (by simp [hl]))
      (fun l hl => hpk l (by simp [hl])) (fun val h => hpsk val (by simp [h]))
      (hflow.2.2.2.trans hrun) (hflow.1.trans hsec) (hflow.2.1.trans hpeer)
    rw [List.flatMap_cons, Machine.run_append, ← hdev]
    exact ⟨hdev', hflow.trans hflow'⟩

/-- In front of the `PublicKey`, a `PresharedKey` ends the loop, and nothing else counts. -/
theorem run_ahead {lines : List ConfLine} (hhead : ∀ line ∈ lines, line.isHeader = false)
    (hpk : ∀ line ∈ lines, line.isPublicKey = false) {st : ConfState} (hrun : st.stopped = false)
    (hsec : st.sec = .peer) (hpeer : st.currentPeer = none) :
    Machine.run (lineStep c cenv) st lines =
      if lines.any ConfLine.isPresharedKey then st.stop else st := by
  induction lines with
  | nil => rfl
  | cons line lines ih =>
    have hstep : lineStep c cenv st line = if line.isPresharedKey then st.stop else st := by
      rw [lineStep, hrun, if_neg (by decide)]
      have hh := hhead line (by simp)
      have hp := hpk line (by simp)
      rcases line with _ | _ | ⟨_ | key, val⟩
      · rfl
      · cases hh
      · rfl
      · rw [confApply_peer hsec]
        cases key with
        | publicKey => cases hp
        | _ => simp [confPeer, hpeer, ConfLine.isPresharedKey]
    rw [Machine.run, List.foldl_cons, hstep, List.any_cons]
    cases line.isPresharedKey with
    | true =>
      simp only [Bool.true_or, if_true]
      exact lineStep_stopped rfl lines
    | false =>
      simp only [Bool.false_or, Bool.false_eq_true, if_false]
      exact ih (fun l hl => hhead l (by simp [hl])) fun l hl => hpk l (by simp [hl])

/-- Behind a `PublicKey` there is a current peer, or the loop has ended. -/
theorem run_publicKey {st : ConfState} {line : ConfLine} (hsec : st.sec = .peer)
    (hpk : line.isPublicKey = true) : (lineStep c cenv st line).stopped = true ∨
      (lineStep c cenv st line).stopped = false ∧ (lineStep c cenv st line).sec = .peer ∧
        ∃ addr, (lineStep c cenv st line).currentPeer = some addr := by
  rcases line with _ | _ | ⟨_ | key, val⟩ <;> try cases hpk
  cases hrun : st.stopped with
  | true =>
    refine .inl ?_
    rw [lineStep, hrun, if_pos rfl]
    exact hrun
  | false =>
    cases key <;> try cases hpk
    rw [lineStep, hrun, if_neg (by decide), confApply_peer hsec]
    simp only [confPeer, confPublicKey]
    split
    · exact .inl rfl
    · split
      · exact .inr ⟨hrun, hsec, _, rfl⟩
      · split_ifs
        · exact .inr ⟨hrun, hsec, _, rfl⟩
        · exact .inl rfl

end Loop

/-! ### Sections -/

/-- The lines of a `[Peer]` section: no line starts another section, there is at most one line for
each key but `AllowedIPs`, the two keys for the interval counting as one, and a pre-shared key
decodes. -/
structure ValidSection (lines : List ConfLine) : Prop where
  noHeader : ∀ line ∈ lines, line.isHeader = false
  once : lines.Pairwise fun line line' => ∀ key key' val val', line = .entry (some key) val →
    line' = .entry (some key') val' → key.canon = key'.canon → key = .allowedIps
  decodes : ∀ val, .entry (some .presharedKey) val ∈ lines → Decodes val

/-- The lines about a peer that stand before the `PublicKey` of the section. -/
def aheadOfKey (lines : List ConfLine) : List ConfLine :=
  (lines.takeWhile fun line => !line.isPublicKey).filter ConfLine.needsPeer

theorem canon_eq_allowedIps {key : ConfKey} (h : key.canon = .allowedIps) : key = .allowedIps := by
  cases key <;> first | rfl | cases h

/-- The writes of a section are to different fields. -/
theorem ValidSection.pairwise {lines : List ConfLine} (h : ValidSection lines) (cenv : ConfEnv) :
    (lines.flatMap (editsOf cenv)).Pairwise Edit.Apart := by
  rw [List.pairwise_flatMap]
  refine ⟨fun line _ => pairwise_editsOf cenv line, h.once.imp ?_⟩
  intro line line' hone e he e' he'
  obtain ⟨key, val, hline, hkind⟩ := kind_of_mem_editsOf he
  obtain ⟨key', val', hline', hkind'⟩ := kind_of_mem_editsOf he'
  intro hsame
  rw [hkind, hone key key' val val' hline hline' (by rw [← hkind, ← hkind', hsame])]
  rfl

theorem ValidSection.perm {lines lines' : List ConfLine} (h : ValidSection lines)
    (hperm : lines.Perm lines') : ValidSection lines' where
  noHeader line hl := h.noHeader line (hperm.mem_iff.mpr hl)
  once := by
    refine (hperm.pairwise_iff ?_).mp h.once
    intro line line' hone key key' val val' hline hline' hcanon
    have hkey' := hone key' key val' val hline' hline hcanon.symm
    refine canon_eq_allowedIps ?_
    rw [hcanon, hkey']
    rfl
  decodes val hl := h.decodes val (hperm.mem_iff.mpr hl)

theorem ValidSection.append {lines lines' : List ConfLine} (h : ValidSection (lines ++ lines')) :
    ValidSection lines ∧ ValidSection lines' := by
  refine ⟨⟨fun l hl => h.noHeader l (by simp [hl]), (List.pairwise_append.mp h.once).1,
    fun val hl => h.decodes val (by simp [hl])⟩, ⟨fun l hl => h.noHeader l (by simp [hl]),
    (List.pairwise_append.mp h.once).2.1, fun val hl => h.decodes val (by simp [hl])⟩⟩

theorem ValidSection.tail {line : ConfLine} {lines : List ConfLine}
    (h : ValidSection (line :: lines)) : ValidSection lines :=
  (@ValidSection.append [line] lines h).2

/-- A section is cut at its `PublicKey`, if it has one. -/
theorem ValidSection.split {lines : List ConfLine} (h : ValidSection lines) :
    (∀ line ∈ lines, line.isPublicKey = false) ∨ ∃ a pk b, lines = a ++ pk :: b ∧
      (∀ line ∈ a, line.isPublicKey = false) ∧ pk.isPublicKey = true ∧
      (∀ line ∈ b, line.isPublicKey = false) ∧ aheadOfKey lines = a.filter ConfLine.needsPeer := by
  have hsplit : lines = lines.takeWhile (fun line => !line.isPublicKey) ++
      lines.dropWhile (fun line => !line.isPublicKey) := List.takeWhile_append_dropWhile.symm
  have ha : ∀ line ∈ lines.takeWhile (fun line => !line.isPublicKey), line.isPublicKey = false :=
    fun line hl => by simpa using List.mem_takeWhile_imp hl
  cases hdrop : lines.dropWhile (fun line => !line.isPublicKey) with
  | nil =>
    rw [hdrop, List.append_nil] at hsplit
    exact .inl fun line hl => ha line (hsplit ▸ hl)
  | cons pk b =>
    rw [hdrop] at hsplit
    have hpk : pk.isPublicKey = true := by
      have := List.head?_dropWhile_not (fun line : ConfLine => !line.isPublicKey) lines
      rw [hdrop] at this
      simpa using this
    refine .inr ⟨_, pk, b, hsplit, ha, hpk, fun line hl => ?_, rfl⟩
    have hv := h
    rw [hsplit] at hv
    have hone := (List.pairwise_cons.mp hv.append.2.once).1 line hl
    cases hpk' : line.isPublicKey with
    | false => rfl
    | true =>
      rcases pk with _ | _ | ⟨_ | key, val⟩ <;> try cases hpk
      rcases line with _ | _ | ⟨_ | key', val'⟩ <;> try cases hpk'
      cases key <;> try cases hpk
      cases key' <;> try cases hpk'
      cases hone _ _ _ _ rfl rfl rfl

theorem flatMap_editsOf_filter (cenv : ConfEnv) (lines : List ConfLine) :
    (lines.filter ConfLine.needsPeer).flatMap (editsOf cenv) = lines.flatMap (editsOf cenv) := by
  induction lines with
  | nil => rfl
  | cons line lines ih =>
    cases h : line.needsPeer with
    | true => rw [List.filter_cons_of_pos h, List.flatMap_cons, List.flatMap_cons, ih]
    | false =>
      rw [List.filter_cons_of_neg (by simp [h]), List.flatMap_cons,
        editsOf_of_not_needsPeer cenv h, ih, List.nil_append]

theorem any_isPresharedKey_filter (lines : List ConfLine) :
    (lines.filter ConfLine.needsPeer).any ConfLine.isPresharedKey =
      lines.any ConfLine.isPresharedKey := by
  rw [List.any_filter]
  congr 1
  funext line
  rcases line with _ | _ | ⟨_ | key, val⟩
  · rfl
  · rfl
  · rfl
  · cases key <;> rfl

theorem not_needsPeer_of_isPublicKey {line : ConfLine} (h : line.isPublicKey = true) :
    line.needsPeer = false := by
  rcases line with _ | _ | ⟨_ | key, val⟩ <;> try cases h
  cases key <;> first | rfl | cases h

section Loop

variable {c : Crypto} {cenv : ConfEnv}

/-- **The lines of a section can be permuted**, if those about a peer stay on their side of the
`PublicKey`. -/
theorem sameState_section {lines lines' : List ConfLine} (h : ValidSection lines)
    (hperm : lines.Perm lines') (hahead : (aheadOfKey lines).Perm (aheadOfKey lines'))
    {st : ConfState} (hst : SameState st st) (hrun : st.stopped = false) (hsec : st.sec = .peer)
    (hpeer : st.currentPeer = none) :
    SameState (Machine.run (lineStep c cenv) st lines)
      (Machine.run (lineStep c cenv) st lines') := by
  have h' := h.perm hperm
  rcases h.split with hnone | ⟨a, pk, b, rfl, ha, hpk, hb, hA⟩
  · have hnone' : ∀ line ∈ lines', line.isPublicKey = false := fun line hl =>
      hnone line (hperm.mem_iff.mpr hl)
    rw [run_ahead h.noHeader hnone hrun hsec hpeer, run_ahead h'.noHeader hnone' hrun hsec hpeer,
      hperm.any_eq]
    split_ifs
    · exact hst.stop
    · exact hst
  · rcases h'.split with hnone' | ⟨a', pk', b', rfl, ha', hpk', hb', hA'⟩
    · have := hnone' pk (hperm.mem_iff.mp (by simp))
      rw [hpk] at this
      cases this
    · have hkey : pk' = pk := by
        have hmem : pk ∈ a' ++ pk' :: b' := hperm.mem_iff.mp (by simp)
        rw [List.mem_append, List.mem_cons] at hmem
        rcases hmem with hmem | hmem | hmem
        · rw [ha' pk hmem] at hpk
          cases hpk
        · exact hmem.symm
        · rw [hb' pk hmem] at hpk
          cases hpk
      subst hkey
      rw [hA, hA'] at hahead
      -- in front of the key
      have hfront : Machine.run (lineStep c cenv) st a' = Machine.run (lineStep c cenv) st a := by
        rw [run_ahead (fun l hl => h'.noHeader l (by simp [hl])) ha' hrun hsec hpeer,
          run_ahead (fun l hl => h.noHeader l (by simp [hl])) ha hrun hsec hpeer,
          ← any_isPresharedKey_filter a, ← any_isPresharedKey_filter a', hahead.any_eq]
      have hsec₁ : (Machine.run (lineStep c cenv) st a).sec = .peer := by
        rw [run_ahead (fun l hl => h.noHeader l (by simp [hl])) ha hrun hsec hpeer]
        split_ifs
        · exact hsec
        · exact hsec
      have hst₂ : SameState (lineStep c cenv (Machine.run (lineStep c cenv) st a) pk')
          (lineStep c cenv (Machine.run (lineStep c cenv) st a) pk') :=
        sameState_line c cenv (sameState_run c cenv a hst) pk'
      have hkeyed := @run_publicKey c cenv _ _ hsec₁ hpk
      rw [Machine.run_append, Machine.run_append, hfront]
      show SameState (Machine.run _ (lineStep c cenv _ pk') b)
        (Machine.run _ (lineStep c cenv _ pk') b')
      generalize lineStep c cenv (Machine.run (lineStep c cenv) st a) pk' = st₂ at hst₂ hkeyed ⊢
      rcases hkeyed with hstop | ⟨hrun₂, hsec₂, addr, hpeer₂⟩
      · rw [lineStep_stopped hstop, lineStep_stopped hstop]
        exact hst₂
      · -- behind the key, the lines are writes
        have hback : (b.flatMap (editsOf cenv)).Perm (b'.flatMap (editsOf cenv)) := by
          rw [← flatMap_editsOf_filter, ← flatMap_editsOf_filter cenv b']
          refine List.Perm.flatMap_right _ ?_
          have hall := hperm.filter ConfLine.needsPeer
          have hno := not_needsPeer_of_isPublicKey hpk
          rw [List.filter_append, List.filter_append, List.filter_cons_of_neg (by simp [hno]),
            List.filter_cons_of_neg (by simp [hno])] at hall
          exact (List.perm_append_left_iff _).mp ((hahead.symm.append_right _).trans hall)
        have hvb : ValidSection b := h.append.2.tail
        have hvb' : ValidSection b' := h'.append.2.tail
        obtain ⟨hdev, hflow⟩ := @lines_edits c cenv _ hvb.noHeader hb hvb.decodes _ _
          hrun₂ hsec₂ hpeer₂
        obtain ⟨hdev', hflow'⟩ := @lines_edits c cenv _ hvb'.noHeader hb' hvb'.decodes _ _
          hrun₂ hsec₂ hpeer₂
        refine ⟨?_, (SameFlow.refl st₂).square hflow hflow'⟩
        rw [hdev, hdev']
        exact sameDevice_edits hst₂.1 addr hback (hvb.pairwise cenv)

end Loop

/-! ### Files -/

/-- The two tables find the same peer for every address. -/
structure SameLookups (t t' : Table ℕ) : Prop where
  v4 : ∀ ip, allowedipsLookupV4 t ip = allowedipsLookupV4 t' ip
  v6 : ∀ ip, allowedipsLookupV6 t ip = allowedipsLookupV6 t' ip

/-- The two devices are configured alike: the same peers with the same keys, pre-shared keys,
endpoints and intervals, and the same lookups in all tables. -/
structure SameConfig (dev dev' : Device) : Prop where
  lookups : SameLookups dev.allowedips dev'.allowedips
  peers : List.Forall₂ (fun p p' => SameLookups p.allowedips p'.allowedips ∧
    p' = { p with allowedips := p'.allowedips }) dev.peers dev'.peers
  rest : dev' = { dev with allowedips := dev'.allowedips, peers := dev'.peers }

theorem SameTable.lookups {t t' : Table ℕ} (h : SameTable t t') : SameLookups t t' := by
  obtain ⟨M, ht, ht'⟩ := h
  exact ⟨fun ip => by rw [ht.lookupV4, ht'.lookupV4], fun ip => by rw [ht.lookupV6, ht'.lookupV6]⟩

theorem SameDevice.config {dev dev' : Device} (h : SameDevice dev dev') : SameConfig dev dev' := by
  obtain ⟨t, ps, ht, hps, rfl⟩ := h
  refine ⟨ht.lookups, hps.imp ?_, rfl⟩
  rintro p _ ⟨t', ht', rfl⟩
  exact ⟨ht'.lookups, rfl⟩

/-- The tables of the device and of its peers were built by insertions and removals. -/
def Tabled (dev : Device) : Prop :=
  (∃ M, Represents dev.allowedips M) ∧ ∀ p ∈ dev.peers, ∃ M, Represents p.allowedips M

theorem Tabled.same {dev : Device} (h : Tabled dev) : SameDevice dev dev := by
  obtain ⟨⟨M, hM⟩, hps⟩ := h
  refine ⟨dev.allowedips, dev.peers, ⟨M, hM, hM⟩, List.forall₂_same.mpr fun p hp => ?_, rfl⟩
  obtain ⟨M', hM'⟩ := hps p hp
  exact ⟨p.allowedips, ⟨M', hM', hM'⟩, rfl⟩

theorem tabled_deviceInit (c : Crypto) : Tabled (deviceInit c) :=
  ⟨⟨_, represents_init⟩, by simp [deviceInit]⟩

section Loop

variable {c : Crypto} {cenv : ConfEnv}

/-- **The order of the lines of a `[Peer]` section does not count**, as long as the lines about the
peer stay on their side of the `PublicKey`: the result is the same, and the configuration. -/
theorem key_order_irrelevant (c : Crypto) (cenv : ConfEnv) (env : Env) {dev : Device}
    (hdev : Tabled dev) {pre sec sec' post : List (List Byte)} {head : List Byte}
    (hlines : ∀ line ∈ pre ++ head :: (sec ++ post), IsLine line)
    (hhead : confLine head = .header .peer) (hsec : ValidSection (sec.map confLine))
    (hperm : sec.Perm sec')
    (hahead : (aheadOfKey (sec.map confLine)).Perm (aheadOfKey (sec'.map confLine))) :
    (loadWgConfig c cenv env dev (some (fileOf (pre ++ head :: (sec ++ post))))).2 =
        (loadWgConfig c cenv env dev (some (fileOf (pre ++ head :: (sec' ++ post))))).2 ∧
      SameConfig (loadWgConfig c cenv env dev (some (fileOf (pre ++ head :: (sec ++ post))))).1
        (loadWgConfig c cenv env dev (some (fileOf (pre ++ head :: (sec' ++ post))))).1 := by
  have hlines' : ∀ line ∈ pre ++ head :: (sec' ++ post), IsLine line := by
    intro line hl
    refine hlines line ?_
    simp only [List.mem_append, List.mem_cons] at hl ⊢
    rwa [hperm.mem_iff]
  have hsame : SameState (confRun c cenv dev (fileOf (pre ++ head :: (sec ++ post))))
      (confRun c cenv dev (fileOf (pre ++ head :: (sec' ++ post)))) := by
    rw [confRun_fileOf dev hlines, confRun_fileOf dev hlines']
    simp only [stateAt, List.map_append, List.map_cons, Machine.run_append]
    have hstart : SameState (.start dev) (.start dev) := ⟨hdev.same, .refl _⟩
    have hpre := sameState_line c cenv (sameState_run c cenv (pre.map confLine) hstart)
      (confLine head)
    show SameState (Machine.run _ (lineStep c cenv _ (confLine head)) (_ ++ _))
      (Machine.run _ (lineStep c cenv _ (confLine head)) (_ ++ _))
    rw [Machine.run_append, Machine.run_append]
    refine sameState_run c cenv _ ?_
    generalize Machine.run (lineStep c cenv) (.start dev) (pre.map confLine) = st at hpre ⊢
    cases hrun : st.stopped with
    | true =>
      have hstop : (lineStep c cenv st (confLine head)).stopped = true := by
        rw [lineStep, hrun, if_pos rfl]
        exact hrun
      rw [lineStep_stopped hstop, lineStep_stopped hstop]
      exact hpre
    | false =>
      refine sameState_section hsec (hperm.map confLine) hahead hpre ?_ ?_ ?_ <;>
        simp [lineStep, hrun, hhead, confApply]
  have hok : (confRun c cenv dev (fileOf (pre ++ head :: (sec' ++ post)))).ok =
      (confRun c cenv dev (fileOf (pre ++ head :: (sec ++ post)))).ok := hsame.2.2.2.1
  simp only [loadWgConfig, hok]
  split_ifs
  · exact ⟨rfl, hsame.1.config⟩
  · exact ⟨rfl, (sameDevice_startKeepalives env hsame.1).config⟩

end Loop

/-- Lines of a `[Peer]` section, with keys of zeros. -/
def publicKeyLine : List Byte := ascii "PublicKey = " ++ b64Encode (List.replicate 32 0)

def presharedKeyLine : List Byte := ascii "PresharedKey = " ++ b64Encode (List.replicate 32 0)

def allowedIpsLine : List Byte := ascii "AllowedIPs = 10.0.0.0/8"

/-- The lines before them. -/
def interfaceLines : List (List Byte) :=
  [ascii "[Interface]", ascii "PrivateKey = " ++ b64Encode (List.replicate 32 0)]

instance (line : List Byte) : Decidable (IsLine line) := inferInstanceAs (Decidable (_ ∧ _))

theorem decodes_zeros : Decodes (b64Encode (List.replicate 32 0)) :=
  ⟨List.replicate 32 0, by decide +kernel, by simp⟩

/-- The lines of the section as the loop reads them. -/
theorem map_confLine_section : [publicKeyLine, presharedKeyLine, allowedIpsLine].map confLine =
    [.entry (some .publicKey) (b64Encode (List.replicate 32 0)),
      .entry (some .presharedKey) (b64Encode (List.replicate 32 0)),
      .entry (some .allowedIps) (ascii "10.0.0.0/8")] := by decide +kernel

theorem validSection_lines :
    ValidSection ([publicKeyLine, presharedKeyLine, allowedIpsLine].map confLine) := by
  have hdec := decodes_zeros
  rw [map_confLine_section]
  generalize b64Encode (List.replicate 32 0) = key at hdec
  refine ⟨by simp [ConfLine.isHeader], ?_, ?_⟩
  · simp only [List.pairwise_cons, List.mem_cons, List.not_mem_nil, or_false, forall_eq_or_imp,
      forall_eq, IsEmpty.forall_iff, implies_true, List.Pairwise.nil, and_true]
    refine ⟨⟨?_, ?_⟩, ?_⟩ <;>
      · rintro k k' val val' h h' hcanon
        cases h
        cases h'
        cases hcanon
  · intro val hmem
    simp only [List.mem_cons, ConfLine.entry.injEq, Option.some.injEq, reduceCtorEq, false_and,
      true_and, List.not_mem_nil, or_false, false_or] at hmem
    rwa [hmem]

/-- What a file with these lines in its `[Peer]` section makes of a new device. -/
def loadSection (sec : List (List Byte)) : Device × ℤ :=
  loadWgConfig toyCrypto ⟨fun _ _ => none, fun _ => true⟩ (toyEnv 1) (deviceInit toyCrypto)
    (some (fileOf (interfaceLines ++ ascii "[Peer]" :: (sec ++ []))))

theorem key_order_irrelevant_psk :
    (loadSection [publicKeyLine, presharedKeyLine, allowedIpsLine]).2 =
        (loadSection [publicKeyLine, allowedIpsLine, presharedKeyLine]).2 ∧
      SameConfig (loadSection [publicKeyLine, presharedKeyLine, allowedIpsLine]).1
        (loadSection [publicKeyLine, allowedIpsLine, presharedKeyLine]).1 :=
  key_order_irrelevant toyCrypto ⟨fun _ _ => none, fun _ => true⟩ (toyEnv 1)
    (tabled_deviceInit toyCrypto) (by decide +kernel) (by decide) validSection_lines
    ((List.Perm.swap _ _ _).cons _) (by decide +kernel)

/-- **Across the `PublicKey` the order counts**: a `PresharedKey` in front of it ends the loop, and
the peer is missing. -/
theorem key_order_counts : ¬ ∀ (c : Crypto) (cenv : ConfEnv) (env : Env) (dev : Device)
    (pre sec sec' post : List (List Byte)) (head : List Byte), Tabled dev →
    (∀ line ∈ pre ++ head :: (sec ++ post), IsLine line) → confLine head = .header .peer →
    ValidSection (sec.map confLine) → sec.Perm sec' →
    (loadWgConfig c cenv env dev (some (fileOf (pre ++ head :: (sec ++ post))))).2 =
        (loadWgConfig c cenv env dev (some (fileOf (pre ++ head :: (sec' ++ post))))).2 ∧
      SameConfig (loadWgConfig c cenv env dev (some (fileOf (pre ++ head :: (sec ++ post))))).1
        (loadWgConfig c cenv env dev (some (fileOf (pre ++ head :: (sec' ++ post))))).1 := by
  intro h
  have hsame := (h toyCrypto ⟨fun _ _ => none, fun _ => true⟩ (toyEnv 1) (deviceInit toyCrypto)
    interfaceLines [publicKeyLine, presharedKeyLine, allowedIpsLine]
    [presharedKeyLine, publicKeyLine, allowedIpsLine] [] (ascii "[Peer]")
    (tabled_deviceInit toyCrypto) (by decide +kernel) (by decide) validSection_lines
    (.swap _ _ _)).2.peers.length_eq
  revert hsame
  decide +kernel

end Wgx
