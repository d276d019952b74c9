import Wgx.Conf.Load

/-!
# What `load_wg_config` reports

The loop of `load_wg_config` is left at a key that does not decode, at a `PresharedKey` without a
peer, and when there is no memory for a peer.  All these ways, and the end of the file, meet in one
label, and the result there says whether a private key was loaded, whatever came behind it.

* `sectionOf`, `Keyed`, `Malformed`, `Unkeyed`: what is right and wrong about a line in its place;
* `EndsLoop`: the lines at which the loop is left;
* `Follows`: what the variables of the loop say about the lines before;
* `errors_reported_iff`: the result tells of an error if and only if no line that ends the loop
  comes behind the private key.
-/

namespace Wgx

/-! ### Lines in their places -/

/-- The lines of a file, as the loop reads them. -/
def confLines (text : List Byte) : List ConfLine := (fgetsPieces text).map confLine

/-- The section that the lines behind `pre` stand in. -/
def sectionOf (pre : List ConfLine) : ConfSection :=
  pre.foldl (fun sec line => match line with | .header s => s | _ => sec) .none

/-- The section at the end of `pre` has a `PublicKey` line. -/
def Keyed (pre : List ConfLine) : Prop :=
  ∃ before val between, pre = before ++ .entry (some .publicKey) val :: between ∧
    ∀ line ∈ between, ∀ sec, line ≠ .header sec

/-- A value that decodes to 32 bytes. -/
def Decodes (val : List Byte) : Prop := ∃ key, base64Decode val 32 = some key ∧ key.length = 32

/-- The keys whose values are keys, in the sections in which they count. -/
def IsKeyLine (sec : ConfSection) (key : ConfKey) : Prop :=
  sec = .interface ∧ key = .privateKey ∨ sec = .peer ∧ (key = .publicKey ∨ key = .presharedKey)

/-- A key that does not decode to 32 bytes. -/
def Malformed (pre : List ConfLine) (line : ConfLine) : Prop :=
  ∃ key val, line = .entry (some key) val ∧ IsKeyLine (sectionOf pre) key ∧ ¬ Decodes val

/-- A `PresharedKey` that follows no `PublicKey` of its section. -/
def Unkeyed (pre : List ConfLine) (line : ConfLine) : Prop :=
  ∃ val, line = .entry (some .presharedKey) val ∧ sectionOf pre = .peer ∧ ¬ Keyed pre

/-- Some line in `pre` is the `PrivateKey` of an `[Interface]` section. -/
def Loaded (pre : List ConfLine) : Prop :=
  ∃ before val after, pre = before ++ .entry (some .privateKey) val :: after ∧
    sectionOf before = .interface

@[simp] theorem sectionOf_header (pre : List ConfLine) (sec : ConfSection) :
    sectionOf (pre ++ [.header sec]) = sec := by
  simp [sectionOf]

@[simp] theorem sectionOf_entry (pre : List ConfLine) (key : Option ConfKey) (val : List Byte) :
    sectionOf (pre ++ [.entry key val]) = sectionOf pre := by
  simp [sectionOf]

@[simp] theorem sectionOf_skip (pre : List ConfLine) :
    sectionOf (pre ++ [.skip]) = sectionOf pre := by
  simp [sectionOf]

/-- A list that ends with an element, split at some element: at that one or before. -/
theorem concat_eq_split {α : Type*} {l : List α} {a x : α} {pre post : List α}
    (h : l ++ [a] = pre ++ x :: post) :
    (pre = l ∧ x = a ∧ post = []) ∨ ∃ post', post = post' ++ [a] ∧ l = pre ++ x :: post' := by
  rcases List.eq_nil_or_concat' post with rfl | ⟨post', b, rfl⟩
  · obtain ⟨rfl, hlast⟩ := List.append_inj' h rfl
    cases hlast
    exact .inl ⟨rfl, rfl, rfl⟩
  · rw [← List.cons_append, ← List.append_assoc] at h
    obtain ⟨rfl, hlast⟩ := List.append_inj' h rfl
    cases hlast
    exact .inr ⟨post', rfl, rfl⟩

theorem not_keyed_header (pre : List ConfLine) (sec : ConfSection) :
    ¬ Keyed (pre ++ [.header sec]) := by
  rintro ⟨before, val, between, h, hno⟩
  rcases concat_eq_split h with ⟨-, h, -⟩ | ⟨post', rfl, -⟩
  · cases h
  · exact hno (.header sec) (by simp) sec rfl

theorem keyed_publicKey (pre : List ConfLine) (val : List Byte) :
    Keyed (pre ++ [.entry (some .publicKey) val]) := ⟨pre, val, [], rfl, by simp⟩

theorem keyed_concat {pre : List ConfLine} {line : ConfLine}
    (hsec : ∀ sec, line ≠ .header sec) (hpk : ∀ val, line ≠ .entry (some .publicKey) val) :
    Keyed (pre ++ [line]) ↔ Keyed pre := by
  constructor
  · rintro ⟨before, val, between, h, hno⟩
    rcases concat_eq_split h with ⟨-, h, -⟩ | ⟨post', rfl, hpre⟩
    · exact absurd h.symm (hpk val)
    · exact ⟨before, val, post', hpre, fun l hl => hno l (by simp [hl])⟩
  · rintro ⟨before, val, between, rfl, hno⟩
    refine ⟨before, val, between ++ [line], by simp, fun l hl => ?_⟩
    rcases List.mem_append.mp hl with hl | hl
    · exact hno l hl
    · rw [List.mem_singleton.mp hl]
      exact hsec

theorem loaded_concat {pre : List ConfLine} {line : ConfLine} :
    Loaded (pre ++ [line]) ↔
      Loaded pre ∨ ∃ val, line = .entry (some .privateKey) val ∧ sectionOf pre = .interface := by
  constructor
  · rintro ⟨before, val, after, h, hsec⟩
    rcases concat_eq_split h with ⟨rfl, rfl, -⟩ | ⟨post', rfl, rfl⟩
    · exact .inr ⟨val, rfl, hsec⟩
    · exact .inl ⟨before, val, post', rfl, hsec⟩
  · rintro (⟨before, val, after, rfl, hsec⟩ | ⟨val, rfl, hsec⟩)
    · exact ⟨before, val, after ++ [line], by simp, hsec⟩
    · exact ⟨pre, val, [], rfl, hsec⟩

/-! ### The loop over the lines -/

section Loop

variable (c : Crypto) (cenv : ConfEnv)

/-- One round of the loop, on what the piece says. -/
def lineStep (st : ConfState) (line : ConfLine) : ConfState :=
  if st.stopped then st else confApply c cenv st line

/-- The variables behind some lines. -/
def stateAt (dev : Device) (pre : List ConfLine) : ConfState :=
  Machine.run (lineStep c cenv) (.start dev) pre

/-- A `PublicKey` whose peer is new, and for which there is no memory. -/
def NoRoom (dev : Device) (pre : List ConfLine) (line : ConfLine) : Prop :=
  ∃ val pk, line = .entry (some .publicKey) val ∧ sectionOf pre = .peer ∧
    base64Decode val 32 = some pk ∧ pk.length = 32 ∧
    deviceFindPeer (stateAt c cenv dev pre).dev pk = none ∧
    cenv.addPeer (stateAt c cenv dev pre).dev.nextAddr = false

/-- The lines at which the loop is left, when it comes to them. -/
def EndsLoop (dev : Device) (pre : List ConfLine) (line : ConfLine) : Prop :=
  Malformed pre line ∨ Unkeyed pre line ∨ NoRoom c cenv dev pre line

/-- No line ends the loop. -/
def Clean (dev : Device) (lines : List ConfLine) : Prop :=
  ∀ pre line post, lines = pre ++ line :: post → ¬ EndsLoop c cenv dev pre line

theorem confRun_eq (dev : Device) (text : List Byte) :
    confRun c cenv dev text = stateAt c cenv dev (confLines text) := by
  simp only [confRun, stateAt, confLines, Machine.run, List.foldl_map]
  rfl

theorem stateAt_concat (dev : Device) (pre : List ConfLine) (line : ConfLine) :
    stateAt c cenv dev (pre ++ [line]) = lineStep c cenv (stateAt c cenv dev pre) line :=
  Machine.run_snoc ..

/-- What the variables of a loop that is still running say about the lines before. -/
structure Follows (pre : List ConfLine) (st : ConfState) : Prop where
  running : st.stopped = false
  sec_eq : st.sec = sectionOf pre
  keyed : st.sec = .peer → (st.currentPeer.isSome ↔ Keyed pre)
  loaded : st.ok = true ↔ Loaded pre

/-- The variables that decide how the loop goes on are left as they are. -/
def SameFlow (st st' : ConfState) : Prop :=
  st'.sec = st.sec ∧ st'.currentPeer = st.currentPeer ∧ st'.ok = st.ok ∧ st'.stopped = st.stopped

theorem SameFlow.refl (st : ConfState) : SameFlow st st := ⟨rfl, rfl, rfl, rfl⟩

theorem SameFlow.trans {st st' st'' : ConfState} (h : SameFlow st st') (h' : SameFlow st' st'') :
    SameFlow st st'' :=
  ⟨h'.1.trans h.1, h'.2.1.trans h.2.1, h'.2.2.1.trans h.2.2.1, h'.2.2.2.trans h.2.2.2⟩

theorem sameFlow_updatePeer (st : ConfState) (addr : ℕ) (f : Peer → Peer) :
    SameFlow st (st.updatePeer addr f) := by
  unfold ConfState.updatePeer
  split <;> exact ⟨rfl, rfl, rfl, rfl⟩

theorem sameFlow_applyAllowedIp (addr : ℕ) (st : ConfState) (entry : List Byte) :
    SameFlow st (applyAllowedIp addr st entry) := by
  unfold applyAllowedIp
  split <;> exact ⟨rfl, rfl, rfl, rfl⟩

theorem sameFlow_allowedIps (addr : ℕ) (st : ConfState) (entries : List (List Byte)) :
    SameFlow st (entries.foldl (applyAllowedIp addr) st) := by
  induction entries generalizing st with
  | nil => exact .refl st
  | cons entry entries ih => exact (sameFlow_applyAllowedIp addr st entry).trans (ih _)

theorem sameFlow_keepalive (st : ConfState) (addr : ℕ) (val : List Byte) :
    SameFlow st (confKeepalive st addr val) := by
  simp only [confKeepalive]
  split_ifs
  · exact sameFlow_updatePeer ..
  · exact .refl st

variable {c cenv}

/-- A line with a key that is not one for a key leaves the flow as it is. -/
theorem sameFlow_apply {st : ConfState} {key : ConfKey} {val : List Byte}
    (h : ¬ IsKeyLine st.sec key) :
    SameFlow st (confApply c cenv st (.entry (some key) val)) := by
  cases hsec : st.sec with
  | none =>
    simp only [confApply, hsec]
    exact .refl st
  | interface =>
    simp only [confApply, hsec]
    cases key <;> first
      | exact absurd (.inl ⟨hsec, rfl⟩) h
      | exact ⟨rfl, rfl, rfl, rfl⟩
  | peer =>
    simp only [confApply, hsec]
    cases hpeer : st.currentPeer with
    | none =>
      cases key <;> first
        | exact absurd (.inr ⟨hsec, .inl rfl⟩) h
        | exact absurd (.inr ⟨hsec, .inr rfl⟩) h
        | (simp only [confPeer, hpeer]; exact .refl st)
    | some addr =>
      cases key with
      | publicKey => exact absurd (.inr ⟨hsec, .inl rfl⟩) h
      | presharedKey => exact absurd (.inr ⟨hsec, .inr rfl⟩) h
      | endpoint =>
        simp only [confPeer, hpeer]
        split
        · exact sameFlow_updatePeer ..
        · exact .refl st
      | allowedIps =>
        simp only [confPeer, hpeer]
        exact sameFlow_allowedIps ..
      | persistentKeepalive | persistentKeepaliveInterval =>
        simp only [confPeer, hpeer]
        exact sameFlow_keepalive ..
      | privateKey | listenPort =>
        simp only [confPeer]
        exact .refl st

/-- A value is decoded to a key, or it is malformed. -/
theorem decoded_cases (val : List Byte) :
    (∃ key, (base64Decode val 32).filter (fun key => key.length = 32) = some key ∧
      base64Decode val 32 = some key ∧ key.length = 32) ∨
    (base64Decode val 32).filter (fun key => key.length = 32) = none ∧ ¬ Decodes val := by
  cases hval : base64Decode val 32 with
  | none => exact .inr ⟨rfl, by simp [Decodes, hval]⟩
  | some key =>
    by_cases hlen : key.length = 32
    · exact .inl ⟨key, by simp [hlen], rfl, hlen⟩
    · exact .inr ⟨by simp [hlen], by simp [Decodes, hval, hlen]⟩

theorem sectionOf_concat {pre : List ConfLine} {line : ConfLine} (h : ∀ sec, line ≠ .header sec) :
    sectionOf (pre ++ [line]) = sectionOf pre := by
  cases line with
  | header sec => exact absurd rfl (h sec)
  | skip => exact sectionOf_skip pre
  | entry key val => exact sectionOf_entry pre key val

/-- A line that starts no section, sets no peer and loads no private key. -/
theorem Follows.concat {pre : List ConfLine} {st st' : ConfState} {line : ConfLine}
    (h : Follows pre st) (hsame : SameFlow st st') (hsec : ∀ sec, line ≠ .header sec)
    (hpk : ∀ val, line = .entry (some .publicKey) val → sectionOf pre ≠ .peer)
    (hpriv : ∀ val, line = .entry (some .privateKey) val → sectionOf pre ≠ .interface) :
    Follows (pre ++ [line]) st' where
  running := hsame.2.2.2.trans h.running
  sec_eq := by rw [sectionOf_concat hsec, hsame.1, h.sec_eq]
  keyed hpeer := by
    rw [hsame.1] at hpeer
    rw [hsame.2.1, keyed_concat hsec fun val hline => hpk val hline (h.sec_eq ▸ hpeer)]
    exact h.keyed hpeer
  loaded := by
    rw [hsame.2.2.1, h.loaded, loaded_concat]
    refine ⟨.inl, ?_⟩
    rintro (hl | ⟨val, hline, hint⟩)
    · exact hl
    · exact absurd hint (hpriv val hline)

theorem Follows.header {pre : List ConfLine} {st : ConfState} (h : Follows pre st)
    (sec : ConfSection) : Follows (pre ++ [.header sec]) (confApply c cenv st (.header sec)) where
  running := h.running
  sec_eq := (sectionOf_header pre sec).symm
  keyed hpeer := by
    have hsec : sec = .peer := hpeer
    subst hsec
    simp [confApply, not_keyed_header]
  loaded := by
    rw [loaded_concat]
    simp [confApply, h.loaded]

/-- Where the loop goes on behind a line, and where it is left. -/
structure Turns (c : Crypto) (cenv : ConfEnv) (dev : Device) (pre : List ConfLine)
    (line : ConfLine) : Prop where
  ends : EndsLoop c cenv dev pre line → (stateAt c cenv dev (pre ++ [line])).stopped = true ∧
    (stateAt c cenv dev (pre ++ [line])).ok = (stateAt c cenv dev pre).ok
  goes_on : ¬ EndsLoop c cenv dev pre line →
    Follows (pre ++ [line]) (stateAt c cenv dev (pre ++ [line]))

theorem stateAt_running {dev : Device} {pre : List ConfLine} (line : ConfLine)
    (h : Follows pre (stateAt c cenv dev pre)) :
    stateAt c cenv dev (pre ++ [line]) = confApply c cenv (stateAt c cenv dev pre) line := by
  rw [stateAt_concat, lineStep, h.running, if_neg (by decide)]

theorem confApply_interface {st : ConfState} (h : st.sec = .interface) (key : ConfKey)
    (val : List Byte) :
    confApply c cenv st (.entry (some key) val) = confInterface c st key val := by
  simp only [confApply, h]

theorem confApply_peer {st : ConfState} (h : st.sec = .peer) (key : ConfKey) (val : List Byte) :
    confApply c cenv st (.entry (some key) val) = confPeer c cenv st key val := by
  simp only [confApply, h]

theorem turns_privateKey {dev : Device} {pre : List ConfLine} {val : List Byte}
    (h : Follows pre (stateAt c cenv dev pre)) (hsec : sectionOf pre = .interface) :
    Turns c cenv dev pre (.entry (some .privateKey) val) := by
  have hst := (stateAt_running (.entry (some .privateKey) val) h).trans
    (confApply_interface (h.sec_eq.trans hsec) ..)
  simp only [confInterface] at hst
  rcases decoded_cases val with ⟨priv, hdec, hval, hlen⟩ | ⟨hdec, hbad⟩
  · rw [hdec] at hst
    refine ⟨?_, fun _ => ?_⟩
    · rintro (⟨key, v, hline, -, hno⟩ | ⟨v, hline, -⟩ | ⟨v, pk, hline, -⟩)
      · cases hline
        exact absurd ⟨priv, hval, hlen⟩ hno
      · cases hline
      · cases hline
    · rw [hst]
      refine ⟨h.running, by simpa using h.sec_eq, ?_, ?_⟩
      · intro hpeer
        rw [h.sec_eq, hsec] at hpeer
        cases hpeer
      · rw [loaded_concat]
        simp [hsec]
  · rw [hdec] at hst
    refine ⟨fun _ => by simp [hst, ConfState.stop], fun hno => ?_⟩
    exact absurd (.inl ⟨_, val, rfl, .inl ⟨hsec, rfl⟩, hbad⟩) hno

theorem turns_publicKey {dev : Device} {pre : List ConfLine} {val : List Byte}
    (h : Follows pre (stateAt c cenv dev pre)) (hsec : sectionOf pre = .peer) :
    Turns c cenv dev pre (.entry (some .publicKey) val) := by
  have hst := (stateAt_running (.entry (some .publicKey) val) h).trans
    (confApply_peer (h.sec_eq.trans hsec) ..)
  simp only [confPeer, confPublicKey] at hst
  -- behind the line, when there is a peer for it
  have hgo : ∀ st : ConfState, st.stopped = false → st.sec = (stateAt c cenv dev pre).sec →
      st.ok = (stateAt c cenv dev pre).ok → st.currentPeer.isSome →
      Follows (pre ++ [.entry (some .publicKey) val]) st := by
    intro st hrun hs hok hpeer
    refine ⟨hrun, by simpa [hs] using h.sec_eq, fun _ => ?_, ?_⟩
    · simp [hpeer, keyed_publicKey]
    · rw [hok, h.loaded, loaded_concat]
      simp
  rcases decoded_cases val with ⟨pk, hdec, hval, hlen⟩ | ⟨hdec, hbad⟩
  · rw [hdec] at hst
    simp only at hst
    have hends : EndsLoop c cenv dev pre (.entry (some .publicKey) val) →
        deviceFindPeer (stateAt c cenv dev pre).dev pk = none ∧
          cenv.addPeer (stateAt c cenv dev pre).dev.nextAddr = false := by
      rintro (⟨key, v, hline, -, hno⟩ | ⟨v, hline, -⟩ | ⟨v, pk', hline, -, hpk', -, hnew, hroom⟩)
      · cases hline
        exact absurd ⟨pk, hval, hlen⟩ hno
      · cases hline
      · cases hline
        rw [hval] at hpk'
        cases hpk'
        exact ⟨hnew, hroom⟩
    cases hfind : deviceFindPeer (stateAt c cenv dev pre).dev pk with
    | some peer =>
      rw [hfind] at hst
      refine ⟨fun he => absurd (hends he).1 (by simp [hfind]), fun _ => ?_⟩
      rw [hst]
      exact hgo _ h.running rfl rfl rfl
    | none =>
      rw [hfind] at hst
      cases hroom : cenv.addPeer (stateAt c cenv dev pre).dev.nextAddr with
      | true =>
        rw [hroom, if_pos rfl] at hst
        refine ⟨fun he => absurd (hends he).2 (by simp [hroom]), fun _ => ?_⟩
        rw [hst]
        exact hgo _ h.running rfl rfl rfl
      | false =>
        rw [hroom, if_neg (by decide)] at hst
        refine ⟨fun _ => by simp [hst, ConfState.stop], fun hno => ?_⟩
        exact absurd (.inr (.inr ⟨val, pk, rfl, hsec, hval, hlen, hfind, hroom⟩)) hno
  · rw [hdec] at hst
    refine ⟨fun _ => by simp [hst, ConfState.stop], fun hno => ?_⟩
    exact absurd (.inl ⟨_, val, rfl, .inr ⟨hsec, .inl rfl⟩, hbad⟩) hno

theorem turns_presharedKey {dev : Device} {pre : List ConfLine} {val : List Byte}
    (h : Follows pre (stateAt c cenv dev pre)) (hsec : sectionOf pre = .peer) :
    Turns c cenv dev pre (.entry (some .presharedKey) val) := by
  have hst := (stateAt_running (.entry (some .presharedKey) val) h).trans
    (confApply_peer (h.sec_eq.trans hsec) ..)
  have hkeyed := h.keyed (h.sec_eq.trans hsec)
  simp only [confPeer] at hst
  cases hpeer : (stateAt c cenv dev pre).currentPeer with
  | none =>
    rw [hpeer] at hst hkeyed
    refine ⟨fun _ => by simp [hst, ConfState.stop], fun hno => ?_⟩
    exact absurd (.inr (.inl ⟨val, rfl, hsec, fun hk => by simpa using hkeyed.mpr hk⟩)) hno
  | some addr =>
    rw [hpeer] at hst hkeyed
    rcases decoded_cases val with ⟨psk, hdec, hval, hlen⟩ | ⟨hdec, hbad⟩
    · rw [hdec] at hst
      refine ⟨?_, fun _ => ?_⟩
      · rintro (⟨key, v, hline, -, hno⟩ | ⟨v, hline, -, hno⟩ | ⟨v, pk, hline, -⟩)
        · cases hline
          exact absurd ⟨psk, hval, hlen⟩ hno
        · exact absurd (hkeyed.mp rfl) hno
        · cases hline
      · rw [hst]
        exact h.concat (sameFlow_updatePeer ..) (by simp) (by simp) (by simp)
    · rw [hdec] at hst
      refine ⟨fun _ => by simp [hst, ConfState.stop], fun hno => ?_⟩
      exact absurd (.inl ⟨_, val, rfl, .inr ⟨hsec, .inr rfl⟩, hbad⟩) hno

/-- What a line does to a loop that comes to it. -/
theorem turns {dev : Device} {pre : List ConfLine} (line : ConfLine)
    (h : Follows pre (stateAt c cenv dev pre)) : Turns c cenv dev pre line := by
  cases line with
  | skip =>
    refine ⟨?_, fun _ => ?_⟩
    · rintro (⟨_, _, hline, -⟩ | ⟨_, hline, -⟩ | ⟨_, _, hline, -⟩) <;> cases hline
    · rw [stateAt_running _ h]
      exact h.concat (.refl _) (by simp) (by simp) (by simp)
  | header sec =>
    refine ⟨?_, fun _ => ?_⟩
    · rintro (⟨_, _, hline, -⟩ | ⟨_, hline, -⟩ | ⟨_, _, hline, -⟩) <;> cases hline
    · rw [stateAt_running _ h]
      exact h.header sec
  | entry key val =>
    cases key with
    | none =>
      refine ⟨?_, fun _ => ?_⟩
      · rintro (⟨_, _, hline, -⟩ | ⟨_, hline, -⟩ | ⟨_, _, hline, -⟩) <;> cases hline
      · rw [stateAt_running _ h]
        exact h.concat (.refl _) (by simp) (by simp) (by simp)
    | some key =>
      by_cases hkey : IsKeyLine (sectionOf pre) key
      · rcases hkey with ⟨hsec, rfl⟩ | ⟨hsec, rfl | rfl⟩
        · exact turns_privateKey h hsec
        · exact turns_publicKey h hsec
        · exact turns_presharedKey h hsec
      · refine ⟨?_, fun _ => ?_⟩
        · rintro (⟨_, _, hline, hk, -⟩ | ⟨_, hline, hsec, -⟩ | ⟨_, _, hline, hsec, -⟩) <;>
            cases hline
          · exact absurd hk hkey
          · exact absurd (.inr ⟨hsec, .inr rfl⟩) hkey
          · exact absurd (.inr ⟨hsec, .inl rfl⟩) hkey
        · rw [stateAt_running _ h]
          refine h.concat (sameFlow_apply (h.sec_eq ▸ hkey)) (by simp) ?_ ?_
          · intro v hline hsec
            cases hline
            exact hkey (.inr ⟨hsec, .inl rfl⟩)
          · intro v hline hsec
            cases hline
            exact hkey (.inl ⟨hsec, rfl⟩)

/-- Behind lines of which none ends the loop, it is still running. -/
theorem follows_of_clean {dev : Device} {pre : List ConfLine} (h : Clean c cenv dev pre) :
    Follows pre (stateAt c cenv dev pre) := by
  induction pre using List.reverseRecOn with
  | nil =>
    refine ⟨rfl, rfl, nofun, ?_⟩
    simp [stateAt, ConfState.start, Machine.run, Loaded]
  | append_singleton pre line ih =>
    refine (turns line (ih fun before l post hpre => ?_)).goes_on (h pre line [] rfl)
    exact h before l (post ++ [line]) (by simp [hpre])

theorem lineStep_stopped {st : ConfState} (h : st.stopped = true) (lines : List ConfLine) :
    Machine.run (lineStep c cenv) st lines = st := by
  induction lines with
  | nil => rfl
  | cons line lines ih =>
    rw [Machine.run, List.foldl_cons, lineStep, if_pos h]
    exact ih

/-- The first line that ends the loop, if there is one. -/
theorem clean_or_ends (dev : Device) (lines : List ConfLine) :
    Clean c cenv dev lines ∨ ∃ pre line post, lines = pre ++ line :: post ∧
      Clean c cenv dev pre ∧ EndsLoop c cenv dev pre line := by
  induction lines using List.reverseRecOn with
  | nil => exact .inl (by simp [Clean])
  | append_singleton pre line ih =>
    rcases ih with h | ⟨before, l, post, rfl, hbefore, hl⟩
    · by_cases he : EndsLoop c cenv dev pre line
      · exact .inr ⟨pre, line, [], rfl, h, he⟩
      · refine .inl fun before l post hpre => ?_
        rcases concat_eq_split hpre with ⟨rfl, rfl, -⟩ | ⟨post', -, hpre'⟩
        · exact he
        · exact h before l post' hpre'
    · exact .inr ⟨before, l, post ++ [line], by simp, hbefore, hl⟩

/-- Behind the first line that ends the loop, the variables are as that line left them. -/
theorem stopped_of_ends {dev : Device} {pre post : List ConfLine} {line : ConfLine}
    (hpre : Clean c cenv dev pre) (he : EndsLoop c cenv dev pre line) :
    (stateAt c cenv dev (pre ++ line :: post)).stopped = true ∧
      ((stateAt c cenv dev (pre ++ line :: post)).ok = true ↔ Loaded pre) := by
  have h := follows_of_clean hpre
  obtain ⟨hstop, hok⟩ := (turns line h).ends he
  have hst : stateAt c cenv dev (pre ++ line :: post) = stateAt c cenv dev (pre ++ [line]) := by
    rw [show pre ++ line :: post = (pre ++ [line]) ++ post by simp, stateAt, Machine.run_append]
    exact lineStep_stopped hstop post
  rw [hst, hok]
  exact ⟨hstop, h.loaded⟩

/-- What the result of `load_wg_config` says: `0` only for a file whose keys are good and whose
lines were all processed, and `-1` when the loop stops at a malformed key. -/
structure Reported (c : Crypto) (cenv : ConfEnv) (env : Env) (dev : Device) (text : List Byte) :
    Prop where
  keys : (loadWgConfig c cenv env dev (some text)).2 = 0 →
    ∀ pre line post, confLines text = pre ++ line :: post →
      ¬ Malformed pre line ∧ ¬ Unkeyed pre line
  whole : (loadWgConfig c cenv env dev (some text)).2 = 0 →
    (confRun c cenv dev text).stopped = false
  malformed : ∀ pre line post, confLines text = pre ++ line :: post →
    (stateAt c cenv dev pre).stopped = false → Malformed pre line →
      (loadWgConfig c cenv env dev (some text)).2 = -1

theorem loadWgConfig_result (env : Env) (dev : Device) (text : List Byte) :
    (loadWgConfig c cenv env dev (some text)).2 =
      if (stateAt c cenv dev (confLines text)).ok then 0 else -1 := by
  rw [← confRun_eq, loadWgConfig]
  cases (confRun c cenv dev text).ok <;> rfl

/-- **A failure is reported** if and only if the first line that ends the loop, where there is one,
comes before every `PrivateKey` of an `[Interface]` section. -/
theorem errors_reported_iff (env : Env) (dev : Device) (text : List Byte) :
    Reported c cenv env dev text ↔
      ∀ pre line post, confLines text = pre ++ line :: post → Clean c cenv dev pre →
        EndsLoop c cenv dev pre line → ¬ Loaded pre := by
  constructor
  · intro h pre line post htext hpre he hl
    obtain ⟨hstop, hok⟩ :
        (stateAt c cenv dev (pre ++ line :: post)).stopped = true ∧ _ := stopped_of_ends hpre he
    have hres : (loadWgConfig c cenv env dev (some text)).2 = 0 := by
      rw [loadWgConfig_result, htext, if_pos (hok.mpr hl)]
    have hrun := h.whole hres
    rw [confRun_eq, htext, hstop] at hrun
    cases hrun
  · intro h
    rcases @clean_or_ends c cenv dev (confLines text) with
      hclean | ⟨pre, line, post, htext, hpre, he⟩
    · have hgood : ∀ pre line post, confLines text = pre ++ line :: post →
          ¬ Malformed pre line ∧ ¬ Unkeyed pre line := fun pre line post htext =>
        ⟨fun hbad => hclean pre line post htext (.inl hbad),
          fun hbad => hclean pre line post htext (.inr (.inl hbad))⟩
      refine ⟨fun _ => hgood, fun _ => ?_, fun pre line post htext _ hbad => ?_⟩
      · rw [confRun_eq]
        exact (follows_of_clean hclean).running
      · exact absurd hbad (hgood pre line post htext).1
    · -- the loop was left before the private key
      have hres : (loadWgConfig c cenv env dev (some text)).2 = -1 := by
        rw [loadWgConfig_result, htext,
          if_neg fun hok => h pre line post htext hpre he ((stopped_of_ends hpre he).2.mp hok)]
      refine ⟨fun h0 => ?_, fun h0 => ?_, fun _ _ _ _ _ _ => hres⟩ <;>
        · rw [hres] at h0
          cases h0

/-- A file with a good private key and a peer whose public key is cut. -/
def cutKeyFile : List Byte :=
  ascii "[Interface]\nPrivateKey = " ++ b64Encode (List.replicate 32 0) ++
    ascii "\n[Peer]\nPublicKey = AAAA\n"

theorem confLines_cutKeyFile : confLines cutKeyFile =
    [.header .interface, .entry (some .privateKey) (b64Encode (List.replicate 32 0)),
      .header .peer, .entry (some .publicKey) (ascii "AAAA")] := by
  decide +kernel

/-- **A malformed key is swallowed** when it comes behind the private key: the result is `0`, and
the peer is missing. -/
theorem malformed_key_swallowed :
    ¬ ∃ (c : Crypto) (cenv : ConfEnv) (env : Env) (dev : Device),
      Reported c cenv env dev cutKeyFile := by
  rintro ⟨c, cenv, env, dev, h⟩
  have hgood : (base64Decode (b64Encode (List.replicate 32 0)) 32).filter
      (fun key => key.length = 32) = some (List.replicate 32 0) := by decide +kernel
  have hcut : (base64Decode (ascii "AAAA") 32).filter (fun key => key.length = 32) = none := by
    decide +kernel
  have hst : (stateAt c cenv dev (confLines cutKeyFile)).ok = true ∧
      (stateAt c cenv dev (confLines cutKeyFile)).stopped = true := by
    rw [confLines_cutKeyFile]
    generalize b64Encode (List.replicate 32 0) = priv at hgood ⊢
    generalize ascii "AAAA" = cut at hcut ⊢
    simp [stateAt, Machine.run, lineStep, ConfState.start, confApply, confInterface, confPeer,
      confPublicKey, hgood, hcut, ConfState.stop]
  have hrun := h.whole (by rw [loadWgConfig_result, if_pos hst.1])
  rw [confRun_eq, hst.2] at hrun
  cases hrun

end Loop

end Wgx
