import Mathlib.Data.List.GetD
import Mathlib.Logic.Function.Iterate
import Wgx.Tcp.Packet

/-!
# The options of a SYN (`tcpstack.c`)

`parse_syn_options` walks over the options of a segment that may come from anyone: `opt` is advanced
by the lengths that stand there.

* `optStep`, `optScan`: the loop round by round, with the offsets that it reads;
* `SynOption`, `OptionsOf`: the options of an area before the first that ends the list or is
  malformed;
* `options_scan`: the rounds come to an end, and have read these options;
* `syn_options_parsed`: what the loop reads, and what it leaves.
-/

namespace Wgx

/-! ### The loop -/

/-- The loop of `parse_syn_options`: the pointer, as an offset in the TCP header, the results so
far, whether the loop was left, and the offsets that were read. -/
structure OptScan where
  opt : ℕ
  mss : ℕ
  wscale : ℕ
  done : Bool
  reads : List ℕ

/-- The bytes at some offsets are read. -/
def OptScan.read (s : OptScan) (offs : List ℕ) : OptScan := { s with reads := s.reads ++ offs }

/-- What the option at the pointer sets. -/
def optSet (tcp : ℕ → Byte) (optlen : ℕ) (s : OptScan) : OptScan :=
  if tcp s.opt = 2 ∧ optlen = 4 then
    let s := s.read [s.opt + 2, s.opt + 3]
    let rmss := (tcp (s.opt + 2)).toNat * 256 + (tcp (s.opt + 3)).toNat
    if 0 < rmss ∧ rmss < wgTcpMss then { s with mss := rmss } else s
  else if tcp s.opt = 3 ∧ optlen = 3 then
    let s := s.read [s.opt + 2]
    { s with wscale := if 14 < (tcp (s.opt + 2)).toNat then 14 else (tcp (s.opt + 2)).toNat }
  else s

/-- One round of the loop, on the header `tcp` with the options up to `fin`. -/
def optStep (tcp : ℕ → Byte) (fin : ℕ) (s : OptScan) : OptScan :=
  if s.done then s
  else if fin ≤ s.opt then { s with done := true }
  else
    let s := s.read [s.opt]
    if tcp s.opt = 0 then { s with done := true }
    else if tcp s.opt = 1 then { s with opt := s.opt + 1 }
    else if fin ≤ s.opt + 1 then { s with done := true }
    else
      let s := s.read [s.opt + 1]
      let optlen := (tcp (s.opt + 1)).toNat
      if optlen < 2 ∨ fin < s.opt + optlen then { s with done := true }
      else
        let s := optSet tcp optlen s
        { s with opt := s.opt + optlen }

/-- The loop before its first round. -/
def OptScan.start (dataOff : ℕ) : OptScan := ⟨20, wgTcpMss, 0, dataOff ≤ 20, []⟩

/-- The loop behind `n` rounds. -/
def optScan (tcp : ℕ → Byte) (dataOff n : ℕ) : OptScan := (optStep tcp dataOff)^[n] (.start dataOff)

/-- The bytes from one offset up to another. -/
def headerBytes (tcp : ℕ → Byte) (pos fin : ℕ) : List Byte := (List.range' pos (fin - pos)).map tcp

/-- The option area of a header. -/
def optionArea (tcp : ℕ → Byte) (dataOff : ℕ) : List Byte := headerBytes tcp 20 dataOff

/-! ### Option areas -/

/-- An option: its kind, and what follows its length. -/
structure SynOption where
  kind : Byte
  body : List Byte

/-- The segment size that an option gives: that of an MSS option, neither zero nor beyond ours. -/
def SynOption.mss (o : SynOption) : Option ℕ :=
  match o.body with
  | [hi, lo] =>
    if o.kind = 2 ∧ 0 < hi.toNat * 256 + lo.toNat ∧ hi.toNat * 256 + lo.toNat < wgTcpMss then
      some (hi.toNat * 256 + lo.toNat)
    else none
  | _ => none

/-- The scale that an option gives, at most 14. -/
def SynOption.wscale (o : SynOption) : Option ℕ :=
  match o.body with
  | [shift] => if o.kind = 3 then some (min shift.toNat 14) else none
  | _ => none

/-- The options of an area before the first that ends the list or is malformed. -/
inductive OptionsOf : List Byte → List SynOption → Prop
  | nil : OptionsOf [] []
  | endOfList (rest : List Byte) : OptionsOf (0 :: rest) []
  | nop {rest : List Byte} {os : List SynOption} (h : OptionsOf rest os) : OptionsOf (1 :: rest) os
  | noLength {kind : Byte} (h0 : kind ≠ 0) (h1 : kind ≠ 1) : OptionsOf [kind] []
  | badLength {kind len : Byte} {rest : List Byte} (h0 : kind ≠ 0) (h1 : kind ≠ 1)
    (hbad : len.toNat < 2 ∨ rest.length + 2 < len.toNat) : OptionsOf (kind :: len :: rest) []
  | option {kind len : Byte} {body rest : List Byte} {os : List SynOption} (h0 : kind ≠ 0)
    (h1 : kind ≠ 1) (hlen : body.length + 2 = len.toNat) (h : OptionsOf rest os) :
    OptionsOf (kind :: len :: (body ++ rest)) (⟨kind, body⟩ :: os)

/-- The last value that the options give, or else `dflt`. -/
def lastOf (f : SynOption → Option ℕ) (os : List SynOption) (dflt : ℕ) : ℕ :=
  (os.filterMap f).getLast?.getD dflt

theorem lastOf_cons (f : SynOption → Option ℕ) (o : SynOption) (os : List SynOption) (dflt : ℕ) :
    lastOf f (o :: os) dflt = lastOf f os ((f o).getD dflt) := by
  unfold lastOf
  cases ho : f o with
  | none => rw [List.filterMap_cons_none ho]; rfl
  | some v =>
    rw [List.filterMap_cons_some ho]
    cases hos : os.filterMap f with
    | nil => rfl
    | cons w ws =>
      rw [List.getLast?_cons_cons, List.getLast?_eq_some_getLast (List.cons_ne_nil w ws)]
      rfl

/-- The options of an area are determined by its bytes. -/
theorem OptionsOf.unique {area : List Byte} {os os' : List SynOption} (h : OptionsOf area os)
    (h' : OptionsOf area os') : os = os' := by
  induction h generalizing os' with
  | nil => cases h'; rfl
  | endOfList rest =>
    cases h' with
    | endOfList => rfl
    | noLength h0 _ | badLength h0 _ _ | option h0 _ _ _ => exact absurd rfl h0
  | nop _ ih =>
    cases h' with
    | nop h' => exact ih h'
    | noLength _ h1 | badLength _ h1 _ | option _ h1 _ _ => exact absurd rfl h1
  | noLength h0 h1 =>
    cases h' with
    | endOfList => rfl
    | nop => exact absurd rfl h1
    | noLength => rfl
  | @badLength kind len rest h0 h1 hbad =>
    generalize harea : kind :: len :: rest = area at h'
    cases h' with
    | nil => cases harea
    | endOfList => exact absurd (List.cons.inj harea).1 h0
    | nop => exact absurd (List.cons.inj harea).1 h1
    | noLength => rfl
    | badLength => rfl
    | option _ _ hlen _ =>
      obtain ⟨-, htail⟩ := List.cons.inj harea
      obtain ⟨rfl, rfl⟩ := List.cons.inj htail
      rw [List.length_append] at hbad
      omega
  | @option kind len body rest os h0 h1 hlen h ih =>
    generalize harea : kind :: len :: (body ++ rest) = area at h'
    cases h' with
    | nil => cases harea
    | endOfList => exact absurd (List.cons.inj harea).1 h0
    | nop => exact absurd (List.cons.inj harea).1 h1
    | noLength => cases harea
    | badLength _ _ hbad =>
      obtain ⟨-, htail⟩ := List.cons.inj harea
      obtain ⟨rfl, rfl⟩ := List.cons.inj htail
      rw [List.length_append] at hbad
      omega
    | @option kind' len' body' rest' os' _ _ hlen' h' =>
      obtain ⟨rfl, htail⟩ := List.cons.inj harea
      obtain ⟨rfl, hrest⟩ := List.cons.inj htail
      have hsame : body.length = body'.length := by omega
      obtain ⟨rfl, rfl⟩ := List.append_inj hrest hsame
      rw [ih h']

/-- The loop over the list of the options reads the options of the area. -/
theorem parseOptions_eq {area : List Byte} {os : List SynOption} (h : OptionsOf area os) {fuel : ℕ}
    (hfuel : area.length ≤ fuel) (mss wscale : ℕ) :
    parseOptions fuel area (mss, wscale) =
      (lastOf SynOption.mss os mss, lastOf SynOption.wscale os wscale) := by
  induction h generalizing fuel mss wscale with
  | nil => cases fuel <;> rfl
  | endOfList rest => cases fuel <;> rfl
  | nop h ih =>
    cases fuel with
    | zero => simp at hfuel
    | succ fuel => exact ih (by simpa using hfuel) mss wscale
  | noLength h0 h1 =>
    cases fuel with
    | zero => rfl
    | succ fuel =>
      simp only [parseOptions, if_neg h0, if_neg h1]
      rfl
  | badLength h0 h1 hbad =>
    cases fuel with
    | zero => rfl
    | succ fuel =>
      simp only [parseOptions, if_neg h0, if_neg h1]
      rw [if_pos (by simpa using hbad)]
      rfl
  | @option kind len body rest os h0 h1 hlen h ih =>
    cases fuel with
    | zero => simp at hfuel
    | succ fuel =>
      simp only [List.length_cons, List.length_append] at hfuel
      have hfits : ¬ (len.toNat < 2 ∨ len.toNat > (kind :: len :: (body ++ rest)).length) := by
        simp only [List.length_cons, List.length_append]
        omega
      have hdrop : (kind :: len :: (body ++ rest)).drop len.toNat = rest := by
        rw [← hlen]
        simp
      have hbyte : ∀ n : ℕ, n < 256 → len.toNat = n → len = BitVec.ofNat 8 n := by
        intro n hn h
        apply BitVec.eq_of_toNat_eq
        rw [h, BitVec.toNat_ofNat]
        omega
      have hne : ∀ n : ℕ, n < 256 → len.toNat ≠ n → len ≠ BitVec.ofNat 8 n := by
        rintro n hn h rfl
        rw [BitVec.toNat_ofNat] at h
        omega
      simp only [parseOptions, if_neg h0, if_neg h1, if_neg hfits, hdrop]
      rw [ih (by omega), lastOf_cons, lastOf_cons]
      have hscale : ∀ n : ℕ, (if 14 < n then 14 else n) = min n 14 := fun n => by
        split_ifs <;> omega
      -- the bodies that count have one and two bytes
      rcases body with _ | ⟨x, _ | ⟨y, _ | ⟨z, body⟩⟩⟩
      · have h4 : len ≠ 4#8 := hne 4 (by decide) (by rw [← hlen]; decide)
        have h3 : len ≠ 3#8 := hne 3 (by decide) (by rw [← hlen]; decide)
        rcases rest with _ | ⟨a, _ | ⟨b, rest⟩⟩ <;>
          simp [h3, h4, SynOption.mss, SynOption.wscale]
      · have h4 : len ≠ 4#8 := hne 4 (by decide) (by rw [← hlen]; simp)
        have h3 : len = 3#8 := hbyte 3 (by decide) (by rw [← hlen]; rfl)
        rcases rest with _ | ⟨a, rest⟩ <;> by_cases hkind : kind = 3#8 <;>
          simp [h3, hkind, hscale, SynOption.mss, SynOption.wscale]
      · have h4 : len = 4#8 := hbyte 4 (by decide) (by rw [← hlen]; rfl)
        by_cases hkind : kind = 2#8
        · simp only [SynOption.mss, SynOption.wscale, List.cons_append]
          generalize x.toNat * 256 + y.toNat = v
          by_cases hrange : 0 < v ∧ v < wgTcpMss
          · simp [h4, hkind, hrange]
          · simp [h4, hkind, hrange]
        · simp [h4, hkind, SynOption.mss, SynOption.wscale]
      · have h4 : len ≠ 4#8 := hne 4 (by decide) (by rw [← hlen]; simp)
        have h3 : len ≠ 3#8 := hne 3 (by decide) (by rw [← hlen]; simp)
        simp [h3, h4, SynOption.mss, SynOption.wscale]

/-! ### The rounds -/

section Scan

variable {tcp : ℕ → Byte} {fin : ℕ} {s : OptScan}

theorem headerBytes_nil {pos : ℕ} (h : fin ≤ pos) : headerBytes tcp pos fin = [] := by
  rw [headerBytes, Nat.sub_eq_zero_of_le h]
  rfl

theorem headerBytes_cons {pos : ℕ} (h : pos < fin) :
    headerBytes tcp pos fin = tcp pos :: headerBytes tcp (pos + 1) fin := by
  have hsub : fin - pos = (fin - (pos + 1)) + 1 := by omega
  rw [headerBytes, hsub, List.range'_succ, List.map_cons]
  rfl

theorem headerBytes_append {pos mid : ℕ} (hmid : pos ≤ mid) (hfin : mid ≤ fin) :
    headerBytes tcp pos fin = headerBytes tcp pos mid ++ headerBytes tcp mid fin := by
  have hsub : fin - pos = (mid - pos) + (fin - mid) := by omega
  rw [headerBytes, hsub, ← List.range'_append_1, List.map_append, Nat.add_sub_cancel' hmid]
  rfl

@[simp] theorem length_headerBytes (pos : ℕ) : (headerBytes tcp pos fin).length = fin - pos := by
  simp [headerBytes]

theorem optStep_done (h : s.done = true) : optStep tcp fin s = s := by
  rw [optStep, h, if_pos rfl]

/-- A loop that was left stays as it is. -/
theorem iterate_done (h : s.done = true) (n : ℕ) : (optStep tcp fin)^[n] s = s := by
  induction n with
  | zero => rfl
  | succ n ih => rw [Function.iterate_succ_apply, optStep_done h, ih]

/-- What the option at the pointer sets is what the option gives. -/
theorem optSet_spec {optlen : ℕ} (h2 : 2 ≤ optlen) :
    (optSet tcp optlen s).mss =
        (SynOption.mss ⟨tcp s.opt, headerBytes tcp (s.opt + 2) (s.opt + optlen)⟩).getD s.mss ∧
      (optSet tcp optlen s).wscale =
        (SynOption.wscale ⟨tcp s.opt, headerBytes tcp (s.opt + 2) (s.opt + optlen)⟩).getD s.wscale ∧
      (optSet tcp optlen s).opt = s.opt ∧ (optSet tcp optlen s).done = s.done := by
  have hscale : ∀ n : ℕ, (if 14 < n then 14 else n) = min n 14 := fun n => by
    split_ifs <;> omega
  rcases (by omega : optlen = 2 ∨ optlen = 3 ∨ optlen = 4 ∨ 5 ≤ optlen) with
    rfl | rfl | rfl | h5
  · rw [headerBytes_nil le_rfl]
    simp [optSet, SynOption.mss, SynOption.wscale]
  · rw [headerBytes_cons (by omega), headerBytes_nil (by omega)]
    by_cases hkind : tcp s.opt = 3#8
    · simp [optSet, OptScan.read, SynOption.mss, SynOption.wscale, hkind]
      exact hscale _
    · simp [optSet, SynOption.mss, SynOption.wscale, hkind]
  · rw [headerBytes_cons (by omega), headerBytes_cons (by omega), headerBytes_nil (by omega)]
    by_cases hkind : tcp s.opt = 2#8
    · unfold optSet
      rw [if_pos ⟨hkind, rfl⟩]
      dsimp only [OptScan.read, SynOption.mss, SynOption.wscale]
      generalize (tcp (s.opt + 2)).toNat * 256 + (tcp (s.opt + 2 + 1)).toNat = v
      by_cases hrange : 0 < v ∧ v < wgTcpMss
      · simp [hkind, hrange]
      · simp [hrange]
    · simp [optSet, SynOption.mss, SynOption.wscale, hkind]
  · have h4 : optlen ≠ 4 := by omega
    have h3 : optlen ≠ 3 := by omega
    rw [headerBytes_cons (by omega), headerBytes_cons (by omega), headerBytes_cons (by omega)]
    simp [optSet, SynOption.mss, SynOption.wscale, h3, h4]

/-- A round at an option whose length fits: it sets what the option gives, and goes on behind it. -/
theorem optStep_option {len : ℕ} (hdone : s.done = false) (hfin : s.opt + 1 < fin)
    (h0 : tcp s.opt ≠ 0) (h1 : tcp s.opt ≠ 1) (hlen : (tcp (s.opt + 1)).toNat = len) (h2 : 2 ≤ len)
    (hfits : s.opt + len ≤ fin) :
    (optStep tcp fin s).opt = s.opt + len ∧ (optStep tcp fin s).done = false ∧
      (optStep tcp fin s).mss =
        (SynOption.mss ⟨tcp s.opt, headerBytes tcp (s.opt + 2) (s.opt + len)⟩).getD s.mss ∧
      (optStep tcp fin s).wscale =
        (SynOption.wscale
          ⟨tcp s.opt, headerBytes tcp (s.opt + 2) (s.opt + len)⟩).getD s.wscale := by
  obtain ⟨hmss, hscale, hopt, hgoes⟩ :=
    @optSet_spec tcp ((s.read [s.opt]).read [s.opt + 1]) len h2
  unfold optStep
  rw [hdone, if_neg Bool.false_ne_true, if_neg (by omega)]
  dsimp only [OptScan.read] at hmss hscale hopt hgoes ⊢
  rw [if_neg h0, if_neg h1, if_neg (by omega), hlen, if_neg (by omega)]
  exact ⟨congrArg (· + len) hopt, hgoes.trans hdone, hmss, hscale⟩

/-- **The rounds come to an end**, at most one for each byte and one more, and the results are those
of the options behind the pointer. -/
theorem options_scan {k : ℕ} (hk : fin - s.opt ≤ k) (hdone : s.done = false) :
    ∃ os, OptionsOf (headerBytes tcp s.opt fin) os ∧
      ((optStep tcp fin)^[k + 1] s).done = true ∧
      ((optStep tcp fin)^[k + 1] s).mss = lastOf SynOption.mss os s.mss ∧
      ((optStep tcp fin)^[k + 1] s).wscale = lastOf SynOption.wscale os s.wscale := by
  induction k generalizing s with
  | zero =>
    refine ⟨[], ?_, ?_⟩
    · rw [headerBytes_nil (by omega)]
      exact .nil
    · rw [Function.iterate_one]
      unfold optStep
      rw [hdone, if_neg Bool.false_ne_true, if_pos (by omega)]
      exact ⟨rfl, rfl, rfl⟩
  | succ k ih =>
    rw [Function.iterate_succ_apply]
    -- a round that leaves the loop
    have hstop : ∀ s' : OptScan, optStep tcp fin s = s' → s'.done = true → s'.mss = s.mss →
        s'.wscale = s.wscale → OptionsOf (headerBytes tcp s.opt fin) [] →
        ∃ os, OptionsOf (headerBytes tcp s.opt fin) os ∧
          ((optStep tcp fin)^[k + 1] (optStep tcp fin s)).done = true ∧
          ((optStep tcp fin)^[k + 1] (optStep tcp fin s)).mss = lastOf SynOption.mss os s.mss ∧
          ((optStep tcp fin)^[k + 1] (optStep tcp fin s)).wscale =
            lastOf SynOption.wscale os s.wscale := by
      intro s' hstep hd hm hw hos
      rw [hstep, iterate_done hd]
      exact ⟨[], hos, hd, hm, hw⟩
    by_cases hend : fin ≤ s.opt
    · refine hstop { s with done := true } ?_ rfl rfl rfl ?_
      · unfold optStep
        rw [hdone, if_neg Bool.false_ne_true, if_pos hend]
      · rw [headerBytes_nil hend]
        exact .nil
    rw [not_le] at hend
    by_cases h0 : tcp s.opt = 0
    · refine hstop { s.read [s.opt] with done := true } ?_ rfl rfl rfl ?_
      · unfold optStep
        rw [hdone, if_neg Bool.false_ne_true, if_neg (by omega), if_pos (by exact h0)]
      · rw [headerBytes_cons hend, h0]
        exact .endOfList _
    by_cases h1 : tcp s.opt = 1
    · have hstep : optStep tcp fin s = { s.read [s.opt] with opt := s.opt + 1 } := by
        unfold optStep
        rw [hdone, if_neg Bool.false_ne_true, if_neg (by omega), if_neg (by exact h0),
          if_pos (by exact h1)]
        rfl
      obtain ⟨os, hos, hrun⟩ := ih (s := { s.read [s.opt] with opt := s.opt + 1 })
        (by simp only; omega) hdone
      rw [hstep]
      refine ⟨os, ?_, hrun⟩
      rw [headerBytes_cons hend, h1]
      exact .nop hos
    by_cases hlast : fin ≤ s.opt + 1
    · refine hstop { s.read [s.opt] with done := true } ?_ rfl rfl rfl ?_
      · unfold optStep
        rw [hdone, if_neg Bool.false_ne_true, if_neg (by omega), if_neg (by exact h0),
          if_neg (by exact h1), if_pos (by exact hlast)]
      · rw [headerBytes_cons hend, headerBytes_nil hlast]
        exact .noLength h0 h1
    rw [not_le] at hlast
    by_cases hbad : (tcp (s.opt + 1)).toNat < 2 ∨ fin < s.opt + (tcp (s.opt + 1)).toNat
    · refine hstop { (s.read [s.opt]).read [s.opt + 1] with done := true } ?_ rfl rfl rfl ?_
      · unfold optStep
        rw [hdone, if_neg Bool.false_ne_true, if_neg (by omega), if_neg (by exact h0),
          if_neg (by exact h1), if_neg (by exact not_le.2 hlast), if_pos (by exact hbad)]
        rfl
      · rw [headerBytes_cons hend, headerBytes_cons hlast]
        refine .badLength h0 h1 (hbad.imp_right fun h => ?_)
        rw [length_headerBytes]
        omega
    · obtain ⟨h2, hfits⟩ := not_or.1 hbad
      rw [not_lt] at h2 hfits
      obtain ⟨hopt, hgoes, hmss, hscale⟩ := optStep_option hdone hlast h0 h1 rfl h2 hfits
      obtain ⟨os, hos, hd, hm, hw⟩ := ih (s := optStep tcp fin s) (by omega) hgoes
      refine ⟨⟨tcp s.opt, headerBytes tcp (s.opt + 2) (s.opt + (tcp (s.opt + 1)).toNat)⟩ :: os,
        ?_, hd, ?_, ?_⟩
      · rw [headerBytes_cons hend, headerBytes_cons hlast, headerBytes_append (by omega) hfits]
        rw [hopt] at hos
        exact .option h0 h1 (by rw [length_headerBytes]; omega) hos
      · rw [hm, hmss, lastOf_cons]
      · rw [hw, hscale, lastOf_cons]

/-- The pointer is behind the fixed header, and all that was read is in the option area. -/
def OptScan.Inside (fin : ℕ) (s : OptScan) : Prop :=
  20 ≤ s.opt ∧ ∀ i ∈ s.reads, 20 ≤ i ∧ i < fin

theorem OptScan.Inside.read (h : s.Inside fin) {offs : List ℕ}
    (hoffs : ∀ i ∈ offs, 20 ≤ i ∧ i < fin) : (s.read offs).Inside fin :=
  ⟨h.1, fun i hi => (List.mem_append.1 hi).elim (h.2 i) (hoffs i)⟩

theorem inside_optSet {optlen : ℕ} (h : s.Inside fin) (hfits : s.opt + optlen ≤ fin) :
    (optSet tcp optlen s).Inside fin := by
  have hopt := h.1
  unfold optSet
  split_ifs with hmss hscale
  · have hread : (s.read [s.opt + 2, s.opt + 3]).Inside fin := h.read fun i hi => by
      rw [List.mem_pair] at hi
      omega
    dsimp only
    split_ifs
    · exact hread
    · exact hread
  · have hread : (s.read [s.opt + 2]).Inside fin := h.read fun i hi => by
      rw [List.mem_singleton] at hi
      omega
    exact hread
  · exact h

theorem inside_optStep (h : s.Inside fin) : (optStep tcp fin s).Inside fin := by
  have hopt := h.1
  unfold optStep
  by_cases hdone : s.done = true
  · rw [if_pos hdone]
    exact h
  rw [if_neg hdone]
  by_cases hend : fin ≤ s.opt
  · rw [if_pos hend]
    exact h
  rw [if_neg hend]
  have hkind : (s.read [s.opt]).Inside fin := h.read fun i hi => by
    rw [List.mem_singleton] at hi
    omega
  by_cases h0 : tcp s.opt = 0
  · rw [if_pos (by exact h0)]
    exact hkind
  rw [if_neg (by exact h0)]
  by_cases h1 : tcp s.opt = 1
  · rw [if_pos (by exact h1)]
    exact ⟨Nat.le_succ_of_le hopt, hkind.2⟩
  rw [if_neg (by exact h1)]
  by_cases hlast : fin ≤ s.opt + 1
  · rw [if_pos (by exact hlast)]
    exact hkind
  rw [if_neg (by exact hlast)]
  have hlen : ((s.read [s.opt]).read [s.opt + 1]).Inside fin := hkind.read fun i hi => by
    rw [List.mem_singleton] at hi
    omega
  by_cases hbad : (tcp (s.opt + 1)).toNat < 2 ∨ fin < s.opt + (tcp (s.opt + 1)).toNat
  · rw [if_pos (by exact hbad)]
    exact hlen
  rw [if_neg (by exact hbad)]
  have hset := @inside_optSet tcp _ _ _ hlen (not_lt.1 (not_or.1 hbad).2)
  exact ⟨Nat.le_add_right_of_le hset.1, hset.2⟩

/-- Whatever the bytes are, only the option area is read. -/
theorem inside_optScan (n : ℕ) : (optScan tcp fin n).Inside fin := by
  induction n with
  | zero => exact ⟨le_rfl, fun i hi => nomatch hi⟩
  | succ n ih =>
    rw [optScan, Function.iterate_succ_apply']
    exact inside_optStep ih

end Scan

/-! ### What is parsed -/

/-- The option area of a header that is there as a whole. -/
theorem optionArea_getD {tcp : List Byte} {dataOff : ℕ} (h : dataOff ≤ tcp.length) :
    optionArea (tcp.getD · 0) dataOff = (tcp.drop 20).take (dataOff - 20) := by
  apply List.ext_getElem
  · rw [optionArea, length_headerBytes, List.length_take, List.length_drop]
    omega
  · intro i hi _
    rw [optionArea, length_headerBytes] at hi
    simp only [optionArea, headerBytes, List.getElem_map, List.getElem_range', one_mul,
      List.getElem_take, List.getElem_drop]
    exact List.getD_eq_getElem _ _ _

theorem lastOf_induction {f : SynOption → Option ℕ} {p : ℕ → Prop} {os : List SynOption} {dflt : ℕ}
    (hf : ∀ o v, f o = some v → p v) (h : p dflt) : p (lastOf f os dflt) := by
  induction os generalizing dflt with
  | nil => exact h
  | cons o os ih =>
    rw [lastOf_cons]
    apply ih
    cases ho : f o with
    | none => exact h
    | some v => exact hf o v ho

theorem mss_bounds (o : SynOption) (v : ℕ) (h : o.mss = some v) : 1 ≤ v ∧ v ≤ wgTcpMss := by
  unfold SynOption.mss at h
  split at h
  · rw [Option.ite_none_right_eq_some] at h
    obtain ⟨⟨-, hpos, hlt⟩, hv⟩ := h
    rw [Option.some.injEq] at hv
    omega
  · cases h

theorem wscale_bound (o : SynOption) (v : ℕ) (h : o.wscale = some v) : v ≤ 14 := by
  unfold SynOption.wscale at h
  split at h
  · rw [Option.ite_none_right_eq_some, Option.some.injEq] at h
    omega
  · cases h

/-- The rounds on a header come to an end with the options of its area. -/
theorem optScan_spec (tcp : ℕ → Byte) {dataOff n : ℕ} (hn : dataOff - 20 < n) :
    ∃ os, OptionsOf (optionArea tcp dataOff) os ∧ (optScan tcp dataOff n).done = true ∧
      (optScan tcp dataOff n).mss = lastOf SynOption.mss os wgTcpMss ∧
      (optScan tcp dataOff n).wscale = lastOf SynOption.wscale os 0 := by
  rcases le_or_gt dataOff 20 with hle | hgt
  · have hdone : (OptScan.start dataOff).done = true := decide_eq_true hle
    rw [optScan, iterate_done hdone, optionArea, headerBytes_nil hle]
    exact ⟨[], .nil, hdone, rfl, rfl⟩
  · obtain ⟨k, rfl⟩ : ∃ k, n = k + 1 := ⟨n - 1, by omega⟩
    exact options_scan (s := .start dataOff) (Nat.le_of_lt_succ hn)
      (decide_eq_false (not_le.2 hgt))

/-- `parse_syn_options` of the stack, on the options of an area. -/
theorem parseSynOptions_eq {area : List Byte} {os : List SynOption} (h : OptionsOf area os)
    (conn : Conn) : parseSynOptions area conn =
      { conn with
        sndMss := lastOf SynOption.mss os wgTcpMss
        sndWscale := lastOf SynOption.wscale os 0 } := by
  unfold parseSynOptions
  rw [parseOptions_eq h le_rfl]

/-- The options of our own SYN, as they are in the packet. -/
theorem optionArea_tcpSegment (addr : ConnAddr) (seg : Segment) :
    optionArea ((tcpSegment addr seg).getD · 0) seg.hdrLen = seg.options := by
  obtain ⟨_, _, _, _, _, _, _, _, _, _, _, _, _, _, _, _, -, -, -, -, -, heq⟩ :=
    @tcpSegment_eq addr seg
  rw [optionArea_getD, heq, Segment.hdrLen, Nat.add_sub_cancel_left]
  · exact List.take_left
  · rw [heq, Segment.hdrLen, List.length_append, List.length_append]
    exact Nat.add_le_add_left (Nat.le_add_right _ _) 20

/-- **The options of a SYN are parsed whatever its bytes are**: the loop ends, has read nothing but
bytes between the fixed header and the data offset, and leaves the last segment size and the last
scale that the well-formed options before the first malformed one give, within their bounds.  From
our own SYN it reads our segment size and our scale. -/
theorem syn_options_parsed :
    (∀ (tcp : ℕ → Byte) (dataOff n : ℕ),
      (∀ i ∈ (optScan tcp dataOff n).reads, 20 ≤ i ∧ i < dataOff) ∧
      (dataOff - 20 < n → (optScan tcp dataOff n).done = true ∧
        (∃ os, OptionsOf (optionArea tcp dataOff) os ∧
          (∀ os', OptionsOf (optionArea tcp dataOff) os' → os' = os) ∧
          (optScan tcp dataOff n).mss = lastOf SynOption.mss os wgTcpMss ∧
          (optScan tcp dataOff n).wscale = lastOf SynOption.wscale os 0) ∧
        1 ≤ (optScan tcp dataOff n).mss ∧ (optScan tcp dataOff n).mss ≤ wgTcpMss ∧
        (optScan tcp dataOff n).wscale ≤ 14 ∧
        ∀ conn, parseSynOptions (optionArea tcp dataOff) conn =
          { conn with
            sndMss := (optScan tcp dataOff n).mss
            sndWscale := (optScan tcp dataOff n).wscale })) ∧
      ∀ (addr : ConnAddr) (seg : Segment) (n : ℕ), seg.flags.syn = true → seg.hdrLen - 20 < n →
        (optScan ((tcpSegment addr seg).getD · 0) seg.hdrLen n).wscale = wgTcpWindowScale ∧
        (optScan ((tcpSegment addr seg).getD · 0) seg.hdrLen n).mss = wgTcpMss := by
  refine ⟨fun tcp dataOff n => ⟨(inside_optScan n).2, fun hn => ?_⟩, fun addr seg n hsyn hn => ?_⟩
  · obtain ⟨os, hos, hdone, hmss, hscale⟩ := optScan_spec tcp hn
    have hbounds : 1 ≤ lastOf SynOption.mss os wgTcpMss ∧
        lastOf SynOption.mss os wgTcpMss ≤ wgTcpMss :=
      lastOf_induction mss_bounds (by decide)
    refine ⟨hdone, ⟨os, hos, fun os' hos' => hos'.unique hos, hmss, hscale⟩, ?_, ?_, ?_, ?_⟩
    · exact hmss ▸ hbounds.1
    · exact hmss ▸ hbounds.2
    · exact hscale ▸ lastOf_induction wscale_bound (Nat.zero_le 14)
    · intro conn
      rw [parseSynOptions_eq hos, hmss, hscale]
  · obtain ⟨os, hos, -, hmss, hscale⟩ := optScan_spec ((tcpSegment addr seg).getD · 0) hn
    rw [optionArea_tcpSegment] at hos
    have hparse : parseOptions seg.options.length seg.options (wgTcpMss, 0) =
        (wgTcpMss, wgTcpWindowScale) := by
      rw [Segment.options, if_pos hsyn]
      decide
    rw [parseOptions_eq hos le_rfl, Prod.mk.injEq] at hparse
    exact ⟨hscale.trans hparse.2, hmss.trans hparse.1⟩

/-- A header with the one option of 1000 bytes, read in two rounds of the five allowed. -/
theorem syn_options_parsed_mss :
    (optScan (fun i => [2, 4, 3, 232].getD (i - 20) 0) 24 5).mss = 1000 ∧
      (optScan (fun i => [2, 4, 3, 232].getD (i - 20) 0) 24 5).mss ≤ wgTcpMss :=
  ⟨by decide, ((syn_options_parsed.1 (fun i => [2, 4, 3, 232].getD (i - 20) 0) 24 5).2
    (by decide)).2.2.2.1⟩

end Wgx
