import Wgx.AllowedIps.Refine
import Wgx.Conf.Lines
import Wgx.Lib.Commute

/-!
# Configurations that are alike

Two devices are alike when they differ only in how their AllowedIPs tables are built: the tables
stand for the same prefixes, and everything else is equal.  Every line of a configuration file takes
devices that are alike to such devices.

* `SameTable`, `SamePeer`, `SameDevice`, `SameState`: alike;
* `sameState_line`, `sameState_run`: the loop keeps it;
* `sameDevice_startKeepalives`: so does the end of `load_wg_config`.
-/

namespace Wgx

open AllowedIps

/-! ### Tables -/

/-- The two tables stand for the same prefixes. -/
def SameTable (t t' : Table ℕ) : Prop := ∃ M, Represents t M ∧ Represents t' M

/-- A table stands for one set of prefixes only. -/
theorem represents_unique {t : Table ℕ} {M M' : PrefixTable ℕ} (h : Represents t M)
    (h' : Represents t M') : M = M' := by
  obtain ⟨m4, m6⟩ := M
  obtain ⟨m4', m6'⟩ := M'
  congr 1
  · funext k
    refine Option.ext fun peer => ?_
    exact (h.mem_walk k peer).1.symm.trans (h'.mem_walk k peer).1
  · funext k
    refine Option.ext fun peer => ?_
    exact (h.mem_walk k peer).2.symm.trans (h'.mem_walk k peer).2

theorem SameTable.symm {t t' : Table ℕ} (h : SameTable t t') : SameTable t' t := by
  obtain ⟨M, ht, ht'⟩ := h
  exact ⟨M, ht', ht⟩

theorem SameTable.trans {t t' t'' : Table ℕ} (h : SameTable t t') (h' : SameTable t' t'') :
    SameTable t t'' := by
  obtain ⟨M, ht, ht'⟩ := h
  obtain ⟨M', hs, hs'⟩ := h'
  rw [represents_unique hs ht'] at hs'
  exact ⟨M, ht, hs'⟩

theorem SameTable.step {t t' : Table ℕ} (h : SameTable t t') (op : Op ℕ) :
    SameTable (t.step op) (t'.step op) := by
  obtain ⟨M, ht, ht'⟩ := h
  exact ⟨M.step op, ht.step op, ht'.step op⟩

theorem sameTable_init : SameTable (allowedipsInit : Table ℕ) allowedipsInit :=
  ⟨_, represents_init, represents_init⟩

/-- The insertion of a prefix for a peer. -/
def Prefix.op (addr : ℕ) : Prefix → Op ℕ
  | .v4 ip cidr => .insertV4 ip cidr addr
  | .v6 ip cidr => .insertV6 ip cidr addr

theorem update_comm_same {α β : Type*} [DecidableEq α] (f : α → β) (a a' : α) (b : β) :
    Function.update (Function.update f a b) a' b =
      Function.update (Function.update f a' b) a b := by
  by_cases h : a = a'
  · rw [h]
  · rw [Function.update_comm h]

/-- Two prefixes of one peer are inserted in either order. -/
theorem PrefixTable.step_comm (M : PrefixTable ℕ) (addr : ℕ) (p q : Prefix) :
    (M.step (p.op addr)).step (q.op addr) = (M.step (q.op addr)).step (p.op addr) := by
  cases p <;> cases q <;> simp only [Prefix.op, PrefixTable.step] <;> split_ifs <;>
    simp only [update_comm_same]

theorem SameTable.step_comm {t : Table ℕ} (h : SameTable t t) (addr : ℕ) (p q : Prefix) :
    SameTable ((t.step (p.op addr)).step (q.op addr)) ((t.step (q.op addr)).step (p.op addr)) := by
  obtain ⟨M, ht, -⟩ := h
  refine ⟨_, (ht.step _).step _, ?_⟩
  rw [PrefixTable.step_comm]
  exact (ht.step _).step _

/-! ### Peers and devices -/

/-- The two records differ at most in how the peer's table is built. -/
def SamePeer (p p' : Peer) : Prop :=
  ∃ t, SameTable p.allowedips t ∧ p' = { p with allowedips := t }

/-- The two devices differ at most in how the tables are built. -/
def SameDevice (dev dev' : Device) : Prop :=
  ∃ t ps, SameTable dev.allowedips t ∧ List.Forall₂ SamePeer dev.peers ps ∧
    dev' = { dev with allowedips := t, peers := ps }

theorem SamePeer.symm {p p' : Peer} (h : SamePeer p p') : SamePeer p' p := by
  obtain ⟨t, ht, rfl⟩ := h
  exact ⟨p.allowedips, ht.symm, rfl⟩

theorem SamePeer.trans {p p' p'' : Peer} (h : SamePeer p p') (h' : SamePeer p' p'') :
    SamePeer p p'' := by
  obtain ⟨t, ht, rfl⟩ := h
  obtain ⟨t', ht', rfl⟩ := h'
  exact ⟨t', ht.trans ht', rfl⟩

theorem forall₂_trans {α : Type*} {R : α → α → Prop} (h : ∀ a b c, R a b → R b c → R a c)
    {l l' l'' : List α} (hl : List.Forall₂ R l l') (hl' : List.Forall₂ R l' l'') :
    List.Forall₂ R l l'' := by
  induction hl generalizing l'' with
  | nil => exact hl'
  | cons hab _ ih =>
    cases hl' with
    | cons hbc hrest => exact .cons (h _ _ _ hab hbc) (ih hrest)

theorem SameDevice.symm {dev dev' : Device} (h : SameDevice dev dev') : SameDevice dev' dev := by
  obtain ⟨t, ps, ht, hps, rfl⟩ := h
  exact ⟨dev.allowedips, dev.peers, ht.symm, hps.flip.imp fun _ _ => SamePeer.symm, rfl⟩

theorem SameDevice.trans {dev dev' dev'' : Device} (h : SameDevice dev dev')
    (h' : SameDevice dev' dev'') : SameDevice dev dev'' := by
  obtain ⟨t, ps, ht, hps, rfl⟩ := h
  obtain ⟨t', ps', ht', hps', rfl⟩ := h'
  refine ⟨t', ps', ht.trans ht', ?_, rfl⟩
  exact forall₂_trans (R := SamePeer) (fun _ _ _ => SamePeer.trans) hps hps'

/-- A record found in one list has its like in the other. -/
theorem forall₂_find? {α : Type*} {R : α → α → Prop} {p q : α → Bool}
    (h : ∀ a b, R a b → p a = q b) {l l' : List α} (hl : List.Forall₂ R l l') :
    Option.Rel R (l.find? p) (l'.find? q) := by
  induction hl with
  | nil => exact .none
  | @cons a b l l' hab _ ih =>
    rw [List.find?_cons, List.find?_cons, ← h a b hab]
    cases p a
    · exact ih
    · exact .some hab

theorem SameDevice.findPeer {dev dev' : Device} (h : SameDevice dev dev') (pk : List Byte) :
    Option.Rel SamePeer (deviceFindPeer dev pk) (deviceFindPeer dev' pk) := by
  obtain ⟨t, ps, -, hps, rfl⟩ := h
  refine forall₂_find? ?_ hps
  rintro p _ ⟨t, -, rfl⟩
  rfl

theorem SameDevice.peerAt {dev dev' : Device} (h : SameDevice dev dev') (addr : ℕ) :
    Option.Rel SamePeer (dev.peerAt addr) (dev'.peerAt addr) := by
  obtain ⟨t, ps, -, hps, rfl⟩ := h
  refine forall₂_find? ?_ hps
  rintro p _ ⟨t, -, rfl⟩
  rfl

/-- A change of the peers that goes for both devices. -/
theorem SameDevice.map {dev dev' : Device} (h : SameDevice dev dev') {f g : Peer → Peer}
    (hfg : ∀ p p', SamePeer p p' → SamePeer (f p) (g p')) :
    SameDevice { dev with peers := dev.peers.map f } { dev' with peers := dev'.peers.map g } := by
  obtain ⟨t, ps, ht, hps, rfl⟩ := h
  refine ⟨t, ps.map g, ht, ?_, rfl⟩
  rw [List.forall₂_map_left_iff, List.forall₂_map_right_iff]
  exact hps.imp hfg

theorem SameDevice.store {dev dev' : Device} (h : SameDevice dev dev') {p p' : Peer}
    (hp : SamePeer p p') : SameDevice (dev.store p) (dev'.store p') := by
  refine h.map fun q q' hq => ?_
  have haddr : q'.addr = q.addr ∧ p'.addr = p.addr := by
    obtain ⟨t, -, rfl⟩ := hp
    obtain ⟨t', -, rfl⟩ := hq
    exact ⟨rfl, rfl⟩
  rw [haddr.1, haddr.2]
  split_ifs
  · exact hp
  · exact hq

theorem SameDevice.table {dev dev' : Device} (h : SameDevice dev dev') (op : Op ℕ) :
    SameDevice { dev with allowedips := dev.allowedips.step op }
      { dev' with allowedips := dev'.allowedips.step op } := by
  obtain ⟨t, ps, ht, hps, rfl⟩ := h
  exact ⟨t.step op, ps, ht.step op, hps, rfl⟩

/-! ### The loop -/

/-- The variables of two loops whose devices are alike. -/
def SameState (st st' : ConfState) : Prop := SameDevice st.dev st'.dev ∧ SameFlow st st'

theorem SameFlow.symm {st st' : ConfState} (h : SameFlow st st') : SameFlow st' st :=
  ⟨h.1.symm, h.2.1.symm, h.2.2.1.symm, h.2.2.2.symm⟩

/-- Steps that leave the flow as it is keep it equal. -/
theorem SameFlow.square {st st' s s' : ConfState} (h : SameFlow st st') (hs : SameFlow st s)
    (hs' : SameFlow st' s') : SameFlow s s' := (hs.symm.trans h).trans hs'

theorem SameState.stop {st st' : ConfState} (h : SameState st st') : SameState st.stop st'.stop :=
  ⟨h.1, h.2.1, h.2.2.1, h.2.2.2.1, rfl⟩

theorem SameState.updatePeer {st st' : ConfState} (h : SameState st st') (addr : ℕ)
    {f : Peer → Peer} (hf : ∀ p p', SamePeer p p' → SamePeer (f p) (f p')) :
    SameState (st.updatePeer addr f) (st'.updatePeer addr f) := by
  refine ⟨?_, h.2.square (sameFlow_updatePeer ..) (sameFlow_updatePeer ..)⟩
  have hrel := h.1.peerAt addr
  unfold ConfState.updatePeer
  cases hp : st.dev.peerAt addr <;> cases hp' : st'.dev.peerAt addr <;> rw [hp, hp'] at hrel <;>
    cases hrel
  · exact h.1
  · rename_i hpeer
    exact h.1.store (hf _ _ hpeer)

/-- The two insertions of a prefix, as operations on the tables. -/
theorem insertPrefix_eq (dev : Device) (peer : Peer) (p : Prefix) :
    dev.insertPrefix peer p =
      Device.store { dev with allowedips := dev.allowedips.step (p.op peer.addr) }
        { peer with allowedips := peer.allowedips.step (p.op peer.addr) } := by
  cases p <;> rfl

theorem SameDevice.insertPrefix {dev dev' : Device} (h : SameDevice dev dev') {peer peer' : Peer}
    (hpeer : SamePeer peer peer') (p : Prefix) :
    SameDevice (dev.insertPrefix peer p) (dev'.insertPrefix peer' p) := by
  obtain ⟨t, ht, rfl⟩ := hpeer
  rw [insertPrefix_eq, insertPrefix_eq]
  exact (h.table _).store ⟨_, ht.step _, rfl⟩

theorem sameState_applyAllowedIp {st st' : ConfState} (h : SameState st st') (addr : ℕ)
    (entry : List Byte) :
    SameState (applyAllowedIp addr st entry) (applyAllowedIp addr st' entry) := by
  refine ⟨?_, h.2.square (sameFlow_applyAllowedIp ..) (sameFlow_applyAllowedIp ..)⟩
  have hrel := h.1.peerAt addr
  unfold applyAllowedIp
  cases hp : st.dev.peerAt addr <;> cases hp' : st'.dev.peerAt addr <;> rw [hp, hp'] at hrel <;>
    cases hrel <;> cases confPrefix entry
  · exact h.1
  · exact h.1
  · exact h.1
  · rename_i hpeer p
    exact h.1.insertPrefix hpeer p

section Loop

variable (c : Crypto) (cenv : ConfEnv)

theorem sameState_privateKey {st st' : ConfState} (h : SameState st st') (val : List Byte) :
    SameState (confInterface c st .privateKey val) (confInterface c st' .privateKey val) := by
  simp only [confInterface]
  split
  · exact h.stop
  · rename_i priv _
    refine ⟨?_, h.2.1, h.2.2.1, rfl, h.2.2.2.2⟩
    obtain ⟨t, ps, ht, hps, hdev⟩ := h.1
    rw [hdev]
    refine ⟨t, ps.map _, ht, ?_, rfl⟩
    show List.Forall₂ SamePeer (List.map _ _) (List.map _ _)
    rw [List.forall₂_map_left_iff, List.forall₂_map_right_iff]
    refine hps.imp ?_
    rintro p _ ⟨t, ht, rfl⟩
    exact ⟨t, ht, rfl⟩

theorem sameState_listenPort {st st' : ConfState} (h : SameState st st') (val : List Byte) :
    SameState (confInterface c st .listenPort val) (confInterface c st' .listenPort val) := by
  refine ⟨?_, h.2.1, h.2.2.1, h.2.2.2.1, h.2.2.2.2⟩
  obtain ⟨t, ps, ht, hps, hdev⟩ := h.1
  show SameDevice { st.dev with listenPort := _ } { st'.dev with listenPort := _ }
  rw [hdev]
  exact ⟨t, ps, ht, hps, rfl⟩

theorem sameState_publicKey {st st' : ConfState} (h : SameState st st') (val : List Byte) :
    SameState (confPublicKey c cenv st val) (confPublicKey c cenv st' val) := by
  unfold confPublicKey
  split
  · exact h.stop
  · rename_i pk _
    have hrel := h.1.findPeer pk
    cases hp : deviceFindPeer st.dev pk <;> cases hp' : deviceFindPeer st'.dev pk <;>
      rw [hp, hp'] at hrel <;> cases hrel
    · have hadd : deviceAddPeer c st.dev pk =
          { st.dev with
            peers := peerNew c st.dev pk :: st.dev.peers, nextAddr := st.dev.nextAddr + 1 } := by
        simp [deviceAddPeer, hp]
      have hadd' : deviceAddPeer c st'.dev pk =
          { st'.dev with
            peers := peerNew c st'.dev pk :: st'.dev.peers, nextAddr := st'.dev.nextAddr + 1 } := by
        simp [deviceAddPeer, hp']
      obtain ⟨t, ps, ht, hps, hdev⟩ := h.1
      have hnext : st'.dev.nextAddr = st.dev.nextAddr := by rw [hdev]
      have hnew : peerNew c st'.dev pk = peerNew c st.dev pk := by
        rw [hdev]
        rfl
      simp only [hnext, hadd, hadd', hnew]
      split_ifs
      · refine ⟨⟨t, peerNew c st.dev pk :: ps, ht, .cons ⟨_, sameTable_init, rfl⟩ hps, ?_⟩,
          h.2.1, rfl, h.2.2.2.1, h.2.2.2.2⟩
        simp only [hdev]
      · exact ⟨h.1, h.2.1, rfl, h.2.2.2.1, rfl⟩
    · rename_i hpeer
      obtain ⟨t, -, rfl⟩ := hpeer
      exact ⟨h.1, h.2.1, rfl, h.2.2.2.1, h.2.2.2.2⟩

theorem sameState_keepalive {st st' : ConfState} (h : SameState st st') (addr : ℕ)
    (val : List Byte) : SameState (confKeepalive st addr val) (confKeepalive st' addr val) := by
  simp only [confKeepalive]
  split_ifs
  · refine h.updatePeer addr ?_
    rintro p _ ⟨t, ht, rfl⟩
    exact ⟨t, ht, rfl⟩
  · exact h

theorem sameState_peer {st st' : ConfState} (h : SameState st st') (key : ConfKey)
    (val : List Byte) : SameState (confPeer c cenv st key val) (confPeer c cenv st' key val) := by
  have hpeer : st'.currentPeer = st.currentPeer := h.2.2.1
  cases key with
  | publicKey => exact sameState_publicKey c cenv h val
  | privateKey | listenPort => exact h
  | presharedKey =>
    simp only [confPeer, hpeer]
    cases st.currentPeer with
    | none => exact h.stop
    | some addr =>
      simp only
      split
      · exact h.stop
      · refine h.updatePeer addr ?_
        rintro p _ ⟨t, ht, rfl⟩
        exact ⟨t, ht, rfl⟩
  | endpoint =>
    simp only [confPeer, hpeer]
    cases st.currentPeer with
    | none => exact h
    | some addr =>
      simp only
      split
      · refine h.updatePeer addr ?_
        rintro p _ ⟨t, ht, rfl⟩
        exact ⟨t, ht, rfl⟩
      · exact h
  | allowedIps =>
    simp only [confPeer, hpeer]
    cases st.currentPeer with
    | none => exact h
    | some addr =>
      simp only
      exact @Machine.run_respects _ _ (applyAllowedIp addr) SameState
        (fun s s' e h => sameState_applyAllowedIp h addr e) _ _ _ h
  | persistentKeepalive | persistentKeepaliveInterval =>
    simp only [confPeer, hpeer]
    cases st.currentPeer with
    | none => exact h
    | some addr => exact sameState_keepalive h addr val

/-- **A line takes loops that are alike to such loops.** -/
theorem sameState_line {st st' : ConfState} (h : SameState st st') (line : ConfLine) :
    SameState (lineStep c cenv st line) (lineStep c cenv st' line) := by
  have hsec : st'.sec = st.sec := h.2.1
  have hstop : st'.stopped = st.stopped := h.2.2.2.2
  unfold lineStep
  rw [hstop]
  split_ifs
  · exact h
  · cases line with
    | skip => exact h
    | header sec =>
      refine ⟨h.1, rfl, ?_, h.2.2.2.1, hstop⟩
      simp only [confApply]
      rw [h.2.2.1]
    | entry key val =>
      cases key with
      | none => exact h
      | some key =>
        simp only [confApply, hsec]
        cases st.sec with
        | none => exact h
        | interface =>
          cases key with
          | privateKey => exact sameState_privateKey c h val
          | listenPort => exact sameState_listenPort c h val
          | _ => exact h
        | peer => exact sameState_peer c cenv h key val

theorem sameState_run (lines : List ConfLine) {st st' : ConfState} (h : SameState st st') :
    SameState (Machine.run (lineStep c cenv) st lines) (Machine.run (lineStep c cenv) st' lines) :=
  Machine.run_respects (R := SameState) (fun _ _ line h => sameState_line c cenv h line) lines h

end Loop

theorem sameDevice_startKeepalives (env : Env) {dev dev' : Device} (h : SameDevice dev dev') :
    SameDevice (startKeepalives env dev) (startKeepalives env dev') := by
  refine h.map ?_
  rintro p _ ⟨t, ht, rfl⟩
  by_cases hdue : 0 < p.persistentKeepaliveMs.toNat ∧ p.endpoint.isSome
  · rw [if_pos hdue, if_pos hdue]
    unfold timersPersistentKeepaliveSet
    cases hactive : p.timers.active
    · simp only [Bool.not_false, if_true]
      exact ⟨t, ht, rfl⟩
    · simp only [Bool.not_true, Bool.false_eq_true, if_false]
      exact ⟨t, ht, rfl⟩
  · rw [if_neg hdue, if_neg hdue]
    exact ⟨t, ht, rfl⟩

end Wgx
