import Wgx.Lib.Run
import Wgx.Basic

/-!
# The list of peers during a SET request

What `process_set` does to the list of peers depends on little of a line (`LineView`): whether it
names a peer, configures the peer that was named, or asks for all peers to be removed.  `Cursor` is
the loop reduced to that: the addresses and keys of the peers, and the variables carried from line
to line.

* `named`, `sinceKey`: what a reader of the text takes from the lines before;
* `applied_iff`: the lines for a peer go to the peer that the text names exactly for the requests
  of `NamedRequest`;
* `mem_keys_finish`: the keys that remain when a request has replaced the peers.
-/

namespace Wgx

/-- What matters of a line for the list of peers. -/
inductive LineView
  /-- A `public_key` line, with the key if it is well formed. -/
  | key (pk : Option (List Byte))
  /-- A `public_key` line that is too long to be read. -/
  | longKey
  /-- A line for one peer, and whether it is `remove=true`. -/
  | peer (marks : Bool)
  /-- `replace_peers=true`. -/
  | replacePeers
  | other
  deriving DecidableEq

/-- A `public_key` line that is read. -/
def LineView.isKey : LineView → Bool
  | .key _ => true
  | _ => false

theorem exists_key {v : LineView} (h : v.isKey = true) : ∃ pk, v = .key pk := by
  cases v with
  | key pk => exact ⟨pk, rfl⟩
  | longKey => cases h
  | peer marks => cases h
  | replacePeers => cases h
  | other => cases h

/-! ### The text -/

/-- The key that the nearest `public_key` line names, if that line is well formed. -/
def named (vs : List LineView) : Option (List Byte) :=
  vs.foldl (fun pk v =>
    match v with
    | .key pk => pk
    | .longKey => none
    | _ => pk) none

/-- The lines since the last `public_key` line that is read, latest first. -/
def sinceKey (vs : List LineView) : List LineView := vs.reverse.takeWhile fun v => !v.isKey

/-- A well-formed `public_key` line is among the lines. -/
def HasKey (vs : List LineView) : Prop := ∃ pk, .key (some pk) ∈ vs

/-- The text is such that no line is applied to the wrong peer. -/
structure NamedRequest (vs : List LineView) : Prop where
  /-- A line for a peer has a well-formed `public_key` line next before it, or none at all. -/
  named : ∀ pre marks post, vs = pre ++ .peer marks :: post → named pre = none → ¬ HasKey pre
  /-- No peer is to be removed both by itself and together with all others. -/
  once : ∀ pre pk post, vs = pre ++ .key pk :: post → HasKey pre →
    .peer true ∈ sinceKey pre → .replacePeers ∉ sinceKey pre

theorem named_snoc (vs : List LineView) (v : LineView) :
    named (vs ++ [v]) =
      match v with
      | .key pk => pk
      | .longKey => none
      | _ => named vs := by
  simp only [named, List.foldl_append, List.foldl_cons, List.foldl_nil]

theorem sinceKey_snoc (vs : List LineView) (v : LineView) :
    sinceKey (vs ++ [v]) = if v.isKey then [] else v :: sinceKey vs := by
  unfold sinceKey
  rw [List.reverse_append, List.reverse_singleton, List.singleton_append, List.takeWhile_cons]
  cases v.isKey <;> rfl

theorem hasKey_snoc (vs : List LineView) (v : LineView) :
    HasKey (vs ++ [v]) ↔ HasKey vs ∨ ∃ pk, v = .key (some pk) := by
  simp only [HasKey, List.mem_append, List.mem_singleton]
  constructor
  · rintro ⟨pk, h | h⟩
    · exact Or.inl ⟨pk, h⟩
    · exact Or.inr ⟨pk, h.symm⟩
  · rintro (⟨pk, h⟩ | ⟨pk, h⟩)
    · exact ⟨pk, Or.inl h⟩
    · exact ⟨pk, Or.inr h.symm⟩

/-! ### The machine -/

/-- The list of peers by address and key, the next address, and the variables of the loop. -/
structure Cursor where
  ids : List (ℕ × List Byte)
  next : ℕ
  current : Option ℕ
  replace : Bool
  remove : Bool
  aborted : Bool

/-- The address of the first peer with a key. -/
def Cursor.find (cu : Cursor) (pk : List Byte) : Option ℕ :=
  (cu.ids.find? fun i => i.2 = pk).map Prod.fst

/-- The current peer is removed; it must be in the list. -/
def Cursor.removeCurrent (cu : Cursor) : Cursor :=
  match cu.current with
  | none => cu
  | some addr =>
    if addr ∈ cu.ids.map Prod.fst then { cu with ids := cu.ids.filter fun i => i.1 ≠ addr }
    else { cu with aborted := true }

/-- The end of a block. -/
def Cursor.endBlock (cu : Cursor) : Cursor :=
  let cu := if cu.replace then { cu with ids := [], replace := false } else cu
  let cu := if cu.remove then cu.removeCurrent else cu
  { cu with remove := false }

/-- The start of a block. -/
def Cursor.open (cu : Cursor) (pk : List Byte) : Cursor :=
  match cu.find pk with
  | some addr => { cu with current := some addr }
  | none =>
    { cu with ids := (cu.next, pk) :: cu.ids, next := cu.next + 1, current := some cu.next }

/-- One line. -/
def Cursor.step (cu : Cursor) (v : LineView) : Cursor :=
  if cu.aborted then cu
  else match v with
    | .key pk =>
      let cu := cu.endBlock
      if cu.aborted then cu
      else match pk with
        | none => cu
        | some pk => cu.open pk
    | .peer marks => if cu.current.isSome ∧ marks then { cu with remove := true } else cu
    | .replacePeers => { cu with replace := true }
    | .longKey | .other => cu

/-- The end of the request. -/
def Cursor.finish (cu : Cursor) : Cursor :=
  if cu.aborted then cu else if cu.remove then cu.removeCurrent else cu

/-- The state before the first line. -/
def Cursor.start (ids : List (ℕ × List Byte)) (next : ℕ) : Cursor :=
  ⟨ids, next, none, false, false, false⟩

/-- The state after some lines. -/
def Cursor.run (cu : Cursor) (vs : List LineView) : Cursor := Machine.run Cursor.step cu vs

section Machine

variable {cu : Cursor} {vs pre post : List LineView} {v : LineView} {pk : List Byte}
  {ids : List (ℕ × List Byte)} {next : ℕ}

theorem Cursor.run_snoc : cu.run (vs ++ [v]) = (cu.run vs).step v := Machine.run_snoc _ _ _ _

theorem Cursor.run_append : cu.run (pre ++ post) = (cu.run pre).run post := Machine.run_append _ _ _ _

theorem Cursor.step_aborted (h : cu.aborted) : cu.step v = cu := if_pos h

theorem Cursor.run_aborted (h : cu.aborted) (vs : List LineView) : cu.run vs = cu := by
  induction vs with
  | nil => rfl
  | cons v vs ih =>
    show (cu.step v).run vs = cu
    rw [Cursor.step_aborted h, ih]

/-- While the whole run is not aborted, no part of it is. -/
theorem Cursor.not_aborted (h : (cu.run (pre ++ post)).aborted = false) :
    (cu.run pre).aborted = false := by
  by_contra hp
  rw [Bool.not_eq_false] at hp
  rw [Cursor.run_append, Cursor.run_aborted hp, hp] at h
  cases h

theorem Cursor.removeCurrent_frame (cu : Cursor) :
    cu.removeCurrent.current = cu.current ∧ cu.removeCurrent.replace = cu.replace ∧
      cu.removeCurrent.next = cu.next := by
  unfold Cursor.removeCurrent
  split
  · exact ⟨rfl, rfl, rfl⟩
  · split_ifs <;> exact ⟨rfl, rfl, rfl⟩

/-- What the end of a block leaves of the variables. -/
theorem Cursor.endBlock_frame (cu : Cursor) :
    cu.endBlock.current = cu.current ∧ cu.endBlock.replace = false ∧ cu.endBlock.remove = false ∧
      cu.endBlock.next = cu.next := by
  obtain ⟨ids, next, current, replace, remove, aborted⟩ := cu
  cases replace <;> cases remove
  · exact ⟨rfl, rfl, rfl, rfl⟩
  · obtain ⟨h1, h2, h3⟩ := (Cursor.mk ids next current false true aborted).removeCurrent_frame
    exact ⟨h1, h2, rfl, h3⟩
  · exact ⟨rfl, rfl, rfl, rfl⟩
  · obtain ⟨h1, h2, h3⟩ := (Cursor.mk [] next current false true aborted).removeCurrent_frame
    exact ⟨h1, h2, rfl, h3⟩

theorem Cursor.open_frame (cu : Cursor) (pk : List Byte) :
    (cu.open pk).replace = cu.replace ∧ (cu.open pk).remove = cu.remove ∧
      (cu.open pk).aborted = cu.aborted := by
  unfold Cursor.open
  cases cu.find pk <;> exact ⟨rfl, rfl, rfl⟩

/-- The peer of a new block is the one that has the key. -/
theorem Cursor.open_current (cu : Cursor) (pk : List Byte) :
    (cu.open pk).current = (cu.open pk).find pk ∧ (cu.open pk).current.isSome := by
  unfold Cursor.open
  cases h : cu.find pk with
  | some addr => exact ⟨h.symm, rfl⟩
  | none => simp [Cursor.find]

/-- The peers have their own addresses, all of them allocated. -/
structure Cursor.Addrs (cu : Cursor) : Prop where
  nodup : (cu.ids.map Prod.fst).Nodup
  fresh : ∀ i ∈ cu.ids, i.1 < cu.next

theorem Cursor.Addrs.sublist {cu' : Cursor} (h : cu.Addrs) (hsub : List.Sublist cu'.ids cu.ids)
    (hnext : cu'.next = cu.next) : cu'.Addrs := by
  refine ⟨h.nodup.sublist (hsub.map _), fun i hi => ?_⟩
  rw [hnext]
  exact h.fresh i (hsub.subset hi)

theorem Cursor.removeCurrent_sublist (cu : Cursor) : List.Sublist cu.removeCurrent.ids cu.ids := by
  unfold Cursor.removeCurrent
  split
  · exact List.Sublist.refl _
  · split_ifs
    · exact List.filter_sublist
    · exact List.Sublist.refl _

theorem Cursor.endBlock_sublist (cu : Cursor) : List.Sublist cu.endBlock.ids cu.ids := by
  obtain ⟨ids, next, current, replace, remove, aborted⟩ := cu
  cases replace <;> cases remove
  · exact List.Sublist.refl _
  · exact (Cursor.mk ids next current false true aborted).removeCurrent_sublist
  · exact List.nil_sublist _
  · exact ((Cursor.mk [] next current false true aborted).removeCurrent_sublist).trans
      (List.nil_sublist _)

theorem Cursor.Addrs.open (h : cu.Addrs) (pk : List Byte) : (cu.open pk).Addrs := by
  unfold Cursor.open
  cases cu.find pk with
  | some addr => exact ⟨h.nodup, h.fresh⟩
  | none =>
    refine ⟨List.nodup_cons.2 ⟨fun hmem => ?_, h.nodup⟩, fun i hi => ?_⟩
    · obtain ⟨i, hi, heq⟩ := List.mem_map.1 hmem
      exact absurd (h.fresh i hi) (by omega)
    · rcases List.mem_cons.1 hi with rfl | hi
      · exact Nat.lt_succ_self _
      · exact (h.fresh i hi).trans (Nat.lt_succ_self _)

theorem Cursor.Addrs.step (h : cu.Addrs) (v : LineView) : (cu.step v).Addrs := by
  unfold Cursor.step
  split_ifs
  · exact h
  · cases v with
    | key k =>
      have hend : cu.endBlock.Addrs := h.sublist cu.endBlock_sublist cu.endBlock_frame.2.2.2
      simp only
      split_ifs
      · exact hend
      · cases k with
        | none => exact hend
        | some pk => exact hend.open pk
    | peer marks =>
      simp only
      split_ifs
      · exact ⟨h.nodup, h.fresh⟩
      · exact h
    | longKey => exact h
    | replacePeers => exact ⟨h.nodup, h.fresh⟩
    | other => exact h

theorem Cursor.Addrs.finish (h : cu.Addrs) : cu.finish.Addrs := by
  unfold Cursor.finish
  split_ifs
  · exact h
  · exact h.sublist cu.removeCurrent_sublist cu.removeCurrent_frame.2.2
  · exact h

/-- What the variables say about the text: a current peer means a well-formed `public_key` line, and
the pending removals are lines since the last one. -/
structure Tracks (cu : Cursor) (vs : List LineView) : Prop where
  current : cu.current.isSome ↔ HasKey vs
  replace : cu.replace = true ↔ .replacePeers ∈ sinceKey vs
  remove : cu.remove = true ↔ .peer true ∈ sinceKey vs ∧ HasKey vs
  named : ∀ pk, named vs = some pk → cu.current = cu.find pk ∧ cu.current.isSome

theorem tracks_start : Tracks (.start ids next) [] := by
  refine ⟨?_, ?_, ?_, ?_⟩
  · simp [Cursor.start, HasKey]
  · simp [Cursor.start, sinceKey]
  · simp [Cursor.start, sinceKey]
  · intro pk h
    cases h

theorem Tracks.step (h : Tracks cu vs) (hno : (cu.step v).aborted = false) :
    Tracks (cu.step v) (vs ++ [v]) := by
  have hcu : cu.aborted = false := by
    by_contra hab
    rw [Bool.not_eq_false] at hab
    rw [Cursor.step_aborted hab, hab] at hno
    cases hno
  cases v with
  | key k =>
    obtain ⟨hcur, hrep, hrem, -⟩ := cu.endBlock_frame
    have hend : cu.endBlock.aborted = false := by
      by_contra hab
      rw [Bool.not_eq_false] at hab
      rw [Cursor.step, if_neg (by simp [hcu]), if_pos hab, hab] at hno
      cases hno
    rw [Cursor.step, if_neg (by simp [hcu])]
    simp only [hend, Bool.false_eq_true, if_false]
    cases k with
    | none =>
      refine ⟨?_, ?_, ?_, ?_⟩
      · rw [hcur, h.current, hasKey_snoc]
        simp
      · simp [hrep, sinceKey_snoc, LineView.isKey]
      · simp [hrem, sinceKey_snoc, LineView.isKey]
      · intro pk hpk
        rw [named_snoc] at hpk
        cases hpk
    | some pk =>
      obtain ⟨hfind, hsome⟩ := cu.endBlock.open_current pk
      obtain ⟨hrep', hrem', -⟩ := cu.endBlock.open_frame pk
      refine ⟨?_, ?_, ?_, ?_⟩
      · rw [hasKey_snoc]
        exact ⟨fun _ => Or.inr ⟨pk, rfl⟩, fun _ => hsome⟩
      · simp [hrep', hrep, sinceKey_snoc, LineView.isKey]
      · simp [hrem', hrem, sinceKey_snoc, LineView.isKey]
      · intro pk' hpk
        rw [named_snoc] at hpk
        cases hpk
        exact ⟨hfind, hsome⟩
  | longKey =>
    rw [Cursor.step, if_neg (by simp [hcu])]
    refine ⟨?_, ?_, ?_, ?_⟩
    · simp [h.current, hasKey_snoc]
    · simp [h.replace, sinceKey_snoc, LineView.isKey]
    · simp [h.remove, sinceKey_snoc, hasKey_snoc, LineView.isKey]
    · intro pk hpk
      rw [named_snoc] at hpk
      cases hpk
  | peer marks =>
    rw [Cursor.step, if_neg (by simp [hcu])]
    have hnamed : ∀ pk, Wgx.named (vs ++ [.peer marks]) = some pk →
        cu.current = cu.find pk ∧ cu.current.isSome := by
      intro pk hpk
      rw [named_snoc] at hpk
      exact h.named pk hpk
    by_cases hm : cu.current.isSome = true ∧ marks = true
    · obtain ⟨hsome, rfl⟩ := hm
      simp only [hsome, and_self, if_true]
      refine ⟨?_, ?_, ?_, hnamed⟩
      · simp [h.current, hasKey_snoc]
      · simp [h.replace, sinceKey_snoc, LineView.isKey]
      · simp [sinceKey_snoc, hasKey_snoc, LineView.isKey, h.current.1 hsome]
    · simp only [hm, if_false]
      refine ⟨?_, ?_, ?_, hnamed⟩
      · simp [h.current, hasKey_snoc]
      · simp [h.replace, sinceKey_snoc, LineView.isKey]
      · rw [h.remove, sinceKey_snoc, hasKey_snoc]
        simp only [LineView.isKey, Bool.false_eq_true, if_false, List.mem_cons, reduceCtorEq,
          exists_const, or_false, LineView.peer.injEq]
        constructor
        · rintro ⟨h1, h2⟩
          exact ⟨Or.inr h1, h2⟩
        · rintro ⟨h1 | h1, h2⟩
          · exact absurd ⟨h.current.2 h2, h1.symm⟩ hm
          · exact ⟨h1, h2⟩
  | replacePeers =>
    rw [Cursor.step, if_neg (by simp [hcu])]
    refine ⟨?_, ?_, ?_, ?_⟩
    · simp [h.current, hasKey_snoc]
    · simp [sinceKey_snoc, LineView.isKey]
    · simp [h.remove, sinceKey_snoc, hasKey_snoc, LineView.isKey]
    · intro pk hpk
      rw [named_snoc] at hpk
      exact h.named pk hpk
  | other =>
    rw [Cursor.step, if_neg (by simp [hcu])]
    refine ⟨?_, ?_, ?_, ?_⟩
    · simp [h.current, hasKey_snoc]
    · simp [h.replace, sinceKey_snoc, LineView.isKey]
    · simp [h.remove, sinceKey_snoc, hasKey_snoc, LineView.isKey]
    · intro pk hpk
      rw [named_snoc] at hpk
      exact h.named pk hpk

/-- The variables of every run that is not aborted follow the text. -/
theorem tracks_run (h : ((Cursor.start ids next).run vs).aborted = false) :
    Tracks ((Cursor.start ids next).run vs) vs := by
  induction vs using List.reverseRecOn with
  | nil => exact tracks_start
  | append_singleton vs v ih =>
    have hvs := ih (Cursor.not_aborted h)
    rw [Cursor.run_snoc] at h ⊢
    exact hvs.step h

/-! ### Lines applied to the peer that is named -/

theorem Cursor.mem_of_find {addr : ℕ} (h : cu.find pk = some addr) : addr ∈ cu.ids.map Prod.fst := by
  obtain ⟨i, hi, rfl⟩ := Option.map_eq_some_iff.1 h
  exact List.mem_map_of_mem (List.mem_of_find?_eq_some hi)

/-- Every line for a peer finds the peer that the text names, and no peer is removed that is not in
the list. -/
structure Applied (cu : Cursor) (vs : List LineView) : Prop where
  named : ∀ pre marks post, vs = pre ++ .peer marks :: post →
    (cu.run pre).current = (Wgx.named pre).bind (cu.run pre).find
  alive : (cu.run vs).finish.aborted = false

/-- The run is not aborted, and a peer that is to be removed is in the list. -/
structure Cursor.Safe (cu : Cursor) : Prop where
  alive : cu.aborted = false
  pending : cu.remove = true → ∃ addr, cu.current = some addr ∧ addr ∈ cu.ids.map Prod.fst

/-- The end of a block is safe if not both removals are pending. -/
theorem Cursor.Safe.endBlock (h : cu.Safe) (honce : cu.remove = true → cu.replace = false) :
    cu.endBlock.aborted = false := by
  obtain ⟨ids, next, current, replace, remove, aborted⟩ := cu
  cases remove with
  | false => cases replace <;> exact h.alive
  | true =>
    obtain rfl : replace = false := honce rfl
    obtain ⟨addr, rfl, hmem⟩ := h.pending rfl
    show (Cursor.mk ids next (some addr) false true aborted).removeCurrent.aborted = false
    unfold Cursor.removeCurrent
    simp only [if_pos hmem]
    exact h.alive

theorem Cursor.Safe.step (h : cu.Safe) (ht : Tracks cu pre) (hreq : NamedRequest vs)
    (hvs : vs = pre ++ v :: post) : (cu.step v).Safe := by
  unfold Cursor.step
  rw [if_neg (by simp [h.alive])]
  cases v with
  | key k =>
    have honce : cu.remove = true → cu.replace = false := by
      intro hrem
      obtain ⟨hpeer, hopen⟩ := ht.remove.1 hrem
      rw [Bool.eq_false_iff]
      exact fun hrep => hreq.once pre k post hvs hopen hpeer (ht.replace.1 hrep)
    have hend := h.endBlock honce
    obtain ⟨-, -, hrem, -⟩ := cu.endBlock_frame
    simp only [hend, Bool.false_eq_true, if_false]
    cases k with
    | none => exact ⟨hend, by simp [hrem]⟩
    | some pk =>
      obtain ⟨-, hrem', hab⟩ := cu.endBlock.open_frame pk
      exact ⟨hab.trans hend, by simp [hrem', hrem]⟩
  | peer marks =>
    simp only
    split_ifs with hm
    · refine ⟨h.alive, fun _ => ?_⟩
      -- the text names a peer, because there is a current one
      cases hnamed : Wgx.named pre with
      | none => exact absurd (ht.current.1 hm.1) (hreq.named pre marks post hvs hnamed)
      | some pk =>
        obtain ⟨hfind, hsome⟩ := ht.named pk hnamed
        obtain ⟨addr, haddr⟩ := Option.isSome_iff_exists.1 hsome
        exact ⟨addr, haddr, Cursor.mem_of_find (hfind.symm.trans haddr)⟩
    · exact h
  | longKey => exact h
  | replacePeers => exact ⟨h.alive, h.pending⟩
  | other => exact h

/-- The runs of these requests are safe. -/
theorem safe_run (ids : List (ℕ × List Byte)) (next : ℕ) (hreq : NamedRequest vs) (hvs : vs = pre ++ post) :
    ((Cursor.start ids next).run pre).Safe := by
  induction pre using List.reverseRecOn generalizing post with
  | nil =>
    refine ⟨rfl, fun h => ?_⟩
    cases h
  | append_singleton pre v ih =>
    rw [List.append_assoc] at hvs
    have hpre := ih hvs
    rw [Cursor.run_snoc]
    exact hpre.step (tracks_run hpre.alive) hreq hvs

theorem Cursor.Safe.finish (h : cu.Safe) : cu.finish.aborted = false := by
  rw [Cursor.finish, if_neg (by simp [h.alive])]
  split_ifs with hrem
  · obtain ⟨addr, hcur, hmem⟩ := h.pending hrem
    rw [Cursor.removeCurrent, hcur]
    simp only [if_pos hmem]
    exact h.alive
  · exact h.alive

theorem Cursor.alive_of_finish (h : cu.finish.aborted = false) : cu.aborted = false := by
  by_contra hab
  rw [Bool.not_eq_false] at hab
  rw [Cursor.finish, if_pos hab, hab] at h
  cases h

/-- Both removals of one peer abort the program. -/
theorem Cursor.endBlock_twice (hrep : cu.replace = true) (hrem : cu.remove = true)
    (hcur : cu.current.isSome) : cu.endBlock.aborted = true := by
  obtain ⟨ids, next, current, replace, remove, aborted⟩ := cu
  obtain ⟨addr, rfl⟩ := Option.isSome_iff_exists.1 hcur
  obtain rfl : replace = true := hrep
  obtain rfl : remove = true := hrem
  rfl

/-- **The lines for a peer go to the peer that is named** exactly in the requests that give each of
them a well-formed `public_key` line next before it, and that do not remove a peer twice. -/
theorem applied_iff (ids : List (ℕ × List Byte)) (next : ℕ) :
    Applied (.start ids next) vs ↔ NamedRequest vs := by
  constructor
  · intro h
    have halive := Cursor.alive_of_finish h.alive
    constructor
    · intro pre marks post hvs hnamed hopen
      have hpre := tracks_run (Cursor.not_aborted (hvs ▸ halive))
      have hcur := h.named pre marks post hvs
      rw [hnamed, Option.bind_none] at hcur
      have hsome := hpre.current.2 hopen
      rw [hcur] at hsome
      cases hsome
    · intro pre k post hvs hopen hpeer hrep
      have hpre := tracks_run (Cursor.not_aborted (hvs ▸ halive))
      have hkey : ((Cursor.start ids next).run (pre ++ [.key k])).aborted = false := by
        have hall : ((Cursor.start ids next).run (pre ++ [.key k] ++ post)).aborted = false := by
          rw [List.append_assoc]
          exact hvs ▸ halive
        exact Cursor.not_aborted hall
      rw [Cursor.run_snoc, Cursor.step, if_neg (by simp [Cursor.not_aborted (hvs ▸ halive)]),
        if_pos, Cursor.endBlock_twice (hpre.replace.2 hrep) (hpre.remove.2 ⟨hpeer, hopen⟩)
          (hpre.current.2 hopen)] at hkey
      · cases hkey
      · exact Cursor.endBlock_twice (hpre.replace.2 hrep) (hpre.remove.2 ⟨hpeer, hopen⟩)
          (hpre.current.2 hopen)
  · intro h
    refine ⟨?_, (safe_run ids next h (List.append_nil vs).symm).finish⟩
    intro pre marks post hvs
    have hpre := tracks_run (safe_run ids next h hvs).alive
    cases hnamed : Wgx.named pre with
    | none =>
      have hclosed := h.named pre marks post hvs hnamed
      rw [← hpre.current, Option.not_isSome_iff_eq_none] at hclosed
      exact hclosed
    | some pk => exact (hpre.named pk hnamed).1

/-! ### Which peers are removed -/

theorem Cursor.mem_removeCurrent {i : ℕ × List Byte} (h : i ∈ cu.ids)
    (hnot : i ∉ cu.removeCurrent.ids) : cu.current = some i.1 := by
  unfold Cursor.removeCurrent at hnot
  split at hnot
  · exact absurd h hnot
  next addr hcur =>
    split_ifs at hnot
    · rw [hcur]
      by_contra hne
      apply hnot
      refine List.mem_filter.2 ⟨h, decide_eq_true fun heq => hne ?_⟩
      rw [heq]
    · exact absurd h hnot

theorem Cursor.mem_endBlock {i : ℕ × List Byte} (h : i ∈ cu.ids) (hnot : i ∉ cu.endBlock.ids) :
    cu.replace = true ∨ cu.remove = true ∧ cu.current = some i.1 := by
  obtain ⟨ids, next, current, replace, remove, aborted⟩ := cu
  cases replace with
  | true => exact Or.inl rfl
  | false =>
    cases remove with
    | false => exact absurd h hnot
    | true => exact Or.inr ⟨rfl, Cursor.mem_removeCurrent h hnot⟩

theorem Cursor.mem_open {i : ℕ × List Byte} (h : i ∈ cu.ids) (pk : List Byte) :
    i ∈ (cu.open pk).ids := by
  unfold Cursor.open
  cases cu.find pk with
  | some addr => exact h
  | none => exact List.mem_cons_of_mem _ h

/-- A line removes all peers, or the current one. -/
theorem Cursor.mem_step {i : ℕ × List Byte} (h : i ∈ cu.ids) (hnot : i ∉ (cu.step v).ids) :
    cu.replace = true ∨ cu.remove = true ∧ cu.current = some i.1 := by
  unfold Cursor.step at hnot
  split_ifs at hnot
  · exact absurd h hnot
  · cases v with
    | key k =>
      apply Cursor.mem_endBlock h
      intro hmem
      apply hnot
      simp only
      split_ifs
      · exact hmem
      · cases k with
        | none => exact hmem
        | some pk => exact Cursor.mem_open hmem pk
    | peer marks =>
      simp only at hnot
      split_ifs at hnot <;> exact absurd h hnot
    | longKey => exact absurd h hnot
    | replacePeers => exact absurd h hnot
    | other => exact absurd h hnot

theorem Cursor.mem_finish {i : ℕ × List Byte} (h : i ∈ cu.ids) (hnot : i ∉ cu.finish.ids) :
    cu.remove = true ∧ cu.current = some i.1 := by
  unfold Cursor.finish at hnot
  split_ifs at hnot with hab hrem
  · exact absurd h hnot
  · exact ⟨hrem, Cursor.mem_removeCurrent h hnot⟩
  · exact absurd h hnot

/-- A line `remove=true` of the open block, whose peer is still the current one. -/
def Cursor.MarkedBy (cu : Cursor) (vs pre post : List LineView) : Prop :=
  vs = pre ++ .peer true :: post ∧ (∀ v ∈ post, v.isKey = false) ∧
    (cu.run pre).current = (cu.run vs).current

theorem Cursor.MarkedBy.snoc (h : cu.MarkedBy vs pre post) (hkey : v.isKey = false)
    (hcur : ((cu.run vs).step v).current = (cu.run vs).current) :
    cu.MarkedBy (vs ++ [v]) pre (post ++ [v]) := by
  obtain ⟨hvs, hpost, hpre⟩ := h
  refine ⟨by rw [hvs, List.append_assoc, List.cons_append], fun w hw => ?_, ?_⟩
  · rcases List.mem_append.1 hw with hw | hw
    · exact hpost w hw
    · rw [List.mem_singleton.1 hw]
      exact hkey
  · rw [Cursor.run_snoc, hcur]
    exact hpre

/-- A pending removal comes from a line `remove=true` of the open block. -/
theorem marked_run (hrem : ((Cursor.start ids next).run vs).remove = true)
    (halive : ((Cursor.start ids next).run vs).aborted = false) :
    ∃ pre post, (Cursor.start ids next).MarkedBy vs pre post := by
  induction vs using List.reverseRecOn with
  | nil => cases hrem
  | append_singleton vs v ih =>
    have hvs := Cursor.not_aborted halive
    rw [Cursor.run_snoc] at hrem
    have hstep : ∀ v, ((Cursor.start ids next).run vs).step v = _ := fun v =>
      if_neg (by rw [hvs]; exact Bool.false_ne_true)
    -- lines that leave the variables alone
    have hkeep : v.isKey = false → (((Cursor.start ids next).run vs).step v).current =
        ((Cursor.start ids next).run vs).current → ((Cursor.start ids next).run vs).remove = true →
        ∃ pre post, (Cursor.start ids next).MarkedBy (vs ++ [v]) pre post := by
      intro hkey hcur hrem
      obtain ⟨pre, post, hmark⟩ := ih hrem hvs
      exact ⟨pre, post ++ [v], hmark.snoc hkey hcur⟩
    rw [hstep] at hrem hkeep
    cases v with
    | key k =>
      obtain ⟨-, -, hend, -⟩ := ((Cursor.start ids next).run vs).endBlock_frame
      simp only at hrem
      split_ifs at hrem
      · simp [hend] at hrem
      · cases k with
        | none => simp [hend] at hrem
        | some pk => simp [(Cursor.open_frame _ pk).2.1, hend] at hrem
    | peer marks =>
      simp only at hrem hkeep
      split_ifs at hrem hkeep with hmark
      · refine ⟨vs, [], by rw [hmark.2], ?_, ?_⟩
        · intro w hw
          cases hw
        rw [Cursor.run_snoc, hstep]
        simp only [if_pos hmark]
      · exact hkeep rfl rfl hrem
    | longKey => exact hkeep rfl rfl hrem
    | replacePeers => exact hkeep rfl rfl hrem
    | other => exact hkeep rfl rfl hrem

/-! ### Which peer a block removes -/

/-- The peer at the address is the one that the end of the block removes. -/
structure Cursor.Pending (cu : Cursor) (addr : ℕ) : Prop where
  alive : cu.aborted = false
  remove : cu.remove = true
  current : cu.current = some addr
  mem : addr ∈ cu.ids.map Prod.fst

/-- A removal stays pending up to the end of the block. -/
theorem Cursor.run_block (hrem : cu.remove = true) (hkey : ∀ v ∈ vs, v.isKey = false) :
    (cu.run vs).remove = true ∧ (cu.run vs).current = cu.current := by
  induction vs using List.reverseRecOn with
  | nil => exact ⟨hrem, rfl⟩
  | append_singleton vs v ih =>
    obtain ⟨ihrem, ihcur⟩ := ih fun w hw => hkey w (List.mem_append_left _ hw)
    have hv := hkey v (List.mem_append_right _ List.mem_cons_self)
    rw [Cursor.run_snoc, ← ihcur]
    unfold Cursor.step
    split_ifs
    · exact ⟨ihrem, rfl⟩
    · cases v with
      | key k => cases hv
      | peer marks =>
        simp only
        split_ifs
        · exact ⟨rfl, rfl⟩
        · exact ⟨ihrem, rfl⟩
      | longKey => exact ⟨ihrem, rfl⟩
      | replacePeers => exact ⟨ihrem, rfl⟩
      | other => exact ⟨ihrem, rfl⟩

/-- A line `remove=true` marks the current peer. -/
theorem pending_run {addr : ℕ} (hsafe : ((Cursor.start ids next).run vs).Safe)
    (hvs : vs = pre ++ .peer true :: post) (hkey : ∀ v ∈ post, v.isKey = false)
    (hcur : ((Cursor.start ids next).run pre).current = some addr) :
    ((Cursor.start ids next).run vs).Pending addr := by
  have halive : ((Cursor.start ids next).run pre).aborted = false :=
    Cursor.not_aborted (hvs ▸ hsafe.alive)
  have hrun : (Cursor.start ids next).run vs =
      ({ (Cursor.start ids next).run pre with remove := true } : Cursor).run post := by
    rw [hvs, Cursor.run_append]
    show (((Cursor.start ids next).run pre).step (.peer true)).run post = _
    rw [Cursor.step, if_neg (by simp [halive])]
    simp only [hcur, Option.isSome_some, and_self, if_true]
  obtain ⟨hrem, hsame⟩ := @Cursor.run_block { (Cursor.start ids next).run pre with remove := true }
    post rfl hkey
  rw [← hrun] at hrem hsame
  obtain ⟨a, ha, hmem⟩ := hsafe.pending hrem
  rw [hsame] at ha
  obtain rfl : addr = a := Option.some.inj (hcur.symm.trans ha)
  exact ⟨hsafe.alive, hrem, hsame.trans hcur, hmem⟩

theorem Cursor.notMem_removeCurrent {addr : ℕ} (h : cu.current = some addr) :
    addr ∉ cu.removeCurrent.ids.map Prod.fst := by
  unfold Cursor.removeCurrent
  rw [h]
  simp only
  split_ifs with hmem
  · simp
  · exact hmem

theorem Cursor.notMem_endBlock {addr : ℕ} (hrem : cu.remove = true) (h : cu.current = some addr) :
    addr ∉ cu.endBlock.ids.map Prod.fst := by
  obtain ⟨ids, next, current, replace, remove, aborted⟩ := cu
  obtain rfl : remove = true := hrem
  cases replace with
  | false => exact (Cursor.mk ids next current false true aborted).notMem_removeCurrent h
  | true => exact (Cursor.mk [] next current false true aborted).notMem_removeCurrent h

theorem Cursor.notMem_open {addr : ℕ} (hne : addr ≠ cu.next) (h : addr ∉ cu.ids.map Prod.fst)
    (pk : List Byte) : addr ∉ (cu.open pk).ids.map Prod.fst := by
  unfold Cursor.open
  cases cu.find pk with
  | some _ => exact h
  | none =>
    intro hmem
    rcases List.mem_cons.1 hmem with heq | hmem
    · exact hne heq
    · exact h hmem

/-- The next `public_key` line removes it: a new peer has another address. -/
theorem Cursor.Pending.step {addr : ℕ} (h : cu.Pending addr) (hids : cu.Addrs)
    (k : Option (List Byte)) : addr ∉ (cu.step (.key k)).ids.map Prod.fst := by
  have hend := Cursor.notMem_endBlock h.remove h.current
  rw [Cursor.step, if_neg (by simp [h.alive])]
  simp only
  split_ifs
  · exact hend
  · cases k with
    | none => exact hend
    | some pk =>
      obtain ⟨i, hi, rfl⟩ := List.mem_map.1 h.mem
      have hfresh := (hids.fresh i hi).ne
      rw [← cu.endBlock_frame.2.2.2] at hfresh
      exact Cursor.notMem_open hfresh hend pk

/-- And so does the end of the request. -/
theorem Cursor.Pending.finish {addr : ℕ} (h : cu.Pending addr) :
    addr ∉ cu.finish.ids.map Prod.fst := by
  rw [Cursor.finish, if_neg (by simp [h.alive]), if_pos h.remove]
  exact Cursor.notMem_removeCurrent h.current

end Machine

/-! ### Replacing the peers -/

/-- The block that the lines are in is marked `remove=true`. -/
def marked (vs : List LineView) : Bool := .peer true ∈ vs.takeWhile fun v => !v.isKey

/-- The blocks of a request: the key of each, and whether it is marked. -/
def blocks : List LineView → List (List Byte × Bool)
  | [] => []
  | .key (some pk) :: rest => (pk, marked rest) :: blocks rest
  | _ :: rest => blocks rest

/-- The last block of a key, if it has one. -/
def lastBlock (bs : List (List Byte × Bool)) (pk : List Byte) : Option (List Byte × Bool) :=
  (bs.filter fun b => b.1 = pk).getLast?

/-- All `public_key` lines are well formed, and `replace_peers` comes before them. -/
structure WellFormedRequest (vs : List LineView) : Prop where
  key : .key none ∉ vs
  short : .longKey ∉ vs
  first : ∀ pre post, vs = pre ++ .replacePeers :: post → ∀ pk, .key pk ∉ pre

/-- A request that replaces no peers. -/
theorem wellFormedRequest_of_keep {vs : List LineView} (hkey : .key none ∉ vs) (hshort : .longKey ∉ vs)
    (hkeep : .replacePeers ∉ vs) : WellFormedRequest vs := by
  refine ⟨hkey, hshort, fun pre post hvs => ?_⟩
  rw [hvs] at hkeep
  exact absurd (List.mem_append_right _ List.mem_cons_self) hkeep

/-- What comes since the last `public_key` line stands behind every one of them. -/
theorem exists_key_before {vs : List LineView} {pk : List Byte} (hkey : .key (some pk) ∈ vs)
    (hmem : .replacePeers ∈ sinceKey vs) :
    ∃ l₁ l₂, vs = l₁ ++ .replacePeers :: l₂ ∧ .key (some pk) ∈ l₁ := by
  induction vs using List.reverseRecOn with
  | nil => cases hkey
  | append_singleton vs v ih =>
    rw [sinceKey_snoc] at hmem
    split_ifs at hmem with hv
    · cases hmem
    · have hold : .key (some pk) ∈ vs := by
        rcases List.mem_append.1 hkey with hold | hlast
        · exact hold
        · rw [← List.mem_singleton.1 hlast] at hv
          exact absurd rfl hv
      rcases List.mem_cons.1 hmem with rfl | hmem
      · exact ⟨vs, [], rfl, hold⟩
      · obtain ⟨l₁, l₂, rfl, hbefore⟩ := ih hold hmem
        exact ⟨l₁, l₂ ++ [v], by simp, hbefore⟩

/-- In such a request the lines for a peer go to the peer that is named. -/
theorem WellFormedRequest.namedRequest {vs : List LineView} (h : WellFormedRequest vs) :
    NamedRequest vs := by
  constructor
  · intro pre marks post hvs
    -- the last `public_key` line decides, and it is well formed
    have hkey : .key none ∉ pre ∧ .longKey ∉ pre := by
      rw [hvs] at h
      exact ⟨fun hmem => h.key (List.mem_append_left _ hmem),
        fun hmem => h.short (List.mem_append_left _ hmem)⟩
    clear hvs h
    induction pre using List.reverseRecOn with
    | nil => exact fun _ ⟨pk, hmem⟩ => by cases hmem
    | append_singleton pre v ih =>
      simp only [List.mem_append, List.mem_singleton, not_or] at hkey
      intro hnone
      rw [named_snoc] at hnone
      rw [hasKey_snoc]
      cases v with
      | key pk =>
        obtain rfl : pk = none := hnone
        exact absurd rfl hkey.1.2
      | longKey => exact absurd rfl hkey.2.2
      | _ => simpa using ih ⟨hkey.1.1, hkey.2.1⟩ hnone
  · rintro pre pk post hvs ⟨pk', hopen⟩ - hmem
    obtain ⟨l₁, l₂, rfl, hbefore⟩ := exists_key_before hopen hmem
    exact h.first l₁ (l₂ ++ .key pk :: post) (by rw [hvs]; simp) _ hbefore

theorem marked_cons (v : LineView) (vs : List LineView) :
    marked (v :: vs) = if v.isKey then false else decide (.peer true = v) || marked vs := by
  unfold marked
  rw [List.takeWhile_cons]
  cases v.isKey with
  | true => rfl
  | false =>
    simp only [Bool.not_false, if_true, Bool.false_eq_true, if_false, List.mem_cons, Bool.decide_or]

theorem lastBlock_cons (b : List Byte × Bool) (bs : List (List Byte × Bool)) (pk : List Byte) :
    lastBlock (b :: bs) pk = (lastBlock bs pk).or (if b.1 = pk then some b else none) := by
  unfold lastBlock
  by_cases h : b.1 = pk
  · rw [List.filter_cons_of_pos (by simpa using h), List.getLast?_cons, if_pos h]
    cases (bs.filter fun b => b.1 = pk).getLast? <;> rfl
  · rw [List.filter_cons_of_neg (by simpa using h), if_neg h, Option.or_none]

/-- A key without a block is not the key of a block. -/
theorem ne_of_lastBlock_none {b : List Byte × Bool} {bs : List (List Byte × Bool)} {pk : List Byte}
    (h : lastBlock (b :: bs) pk = none) : pk ≠ b.1 := by
  rintro rfl
  rw [lastBlock_cons, if_pos rfl] at h
  cases hb : lastBlock bs b.1 <;> rw [hb] at h <;> cases h

section Replace

variable {cu : Cursor} {vs rest : List LineView} {pk pk₀ : List Byte} {addr : ℕ}

/-- The peers of the list have their own addresses and keys. -/
structure Cursor.Distinct (cu : Cursor) : Prop extends cu.Addrs where
  keys : (cu.ids.map Prod.snd).Nodup

/-- An open block: the current peer has the key of the block. -/
structure Cursor.InBlock (cu : Cursor) (pk : List Byte) : Prop extends cu.Distinct where
  alive : cu.aborted = false
  calm : cu.replace = false
  current : ∃ addr, cu.current = some addr ∧ (addr, pk) ∈ cu.ids

theorem mem_keys_filter (cu : Cursor) (h : (cu.ids.map Prod.snd).Nodup) (hfst : (cu.ids.map Prod.fst).Nodup)
    (hmem : (addr, pk₀) ∈ cu.ids) :
    pk ∈ (cu.ids.filter fun i => i.1 ≠ addr).map Prod.snd ↔ pk ∈ cu.ids.map Prod.snd ∧ pk ≠ pk₀ := by
  have haddr : ∀ i ∈ cu.ids, i.1 = addr → i = (addr, pk₀) := by
    intro i hi heq
    exact List.inj_on_of_nodup_map hfst hi hmem heq
  have hkey : ∀ i ∈ cu.ids, i.2 = pk₀ → i = (addr, pk₀) := by
    intro i hi heq
    exact List.inj_on_of_nodup_map h hi hmem heq
  simp only [List.mem_map, List.mem_filter, decide_eq_true_eq]
  constructor
  · rintro ⟨i, ⟨hi, hne⟩, rfl⟩
    exact ⟨⟨i, hi, rfl⟩, fun heq => hne (by rw [hkey i hi heq])⟩
  · rintro ⟨⟨i, hi, rfl⟩, hne⟩
    exact ⟨i, ⟨hi, fun heq => hne (by rw [haddr i hi heq])⟩, rfl⟩

/-- The end of an open block removes its key if the block is marked. -/
theorem Cursor.InBlock.endBlock (h : cu.InBlock pk₀) :
    cu.endBlock.Distinct ∧ cu.endBlock.aborted = false ∧
      ∀ pk, pk ∈ cu.endBlock.ids.map Prod.snd ↔
        pk ∈ cu.ids.map Prod.snd ∧ ¬ (cu.remove = true ∧ pk = pk₀) := by
  obtain ⟨addr, hcur, hmem⟩ := h.current
  obtain ⟨ids, next, current, replace, remove, aborted⟩ := cu
  obtain rfl : replace = false := h.calm
  obtain rfl : current = some addr := hcur
  cases remove with
  | false =>
    exact ⟨⟨⟨h.nodup, h.fresh⟩, h.keys⟩, h.alive, fun pk => by simp [Cursor.endBlock]⟩
  | true =>
    have hin : addr ∈ ids.map Prod.fst := List.mem_map_of_mem hmem
    have hids : (Cursor.mk ids next (some addr) false true aborted).endBlock =
        ⟨ids.filter fun i => i.1 ≠ addr, next, some addr, false, false, aborted⟩ := by
      simp [Cursor.endBlock, Cursor.removeCurrent, hin]
    rw [hids]
    have hsub : List.Sublist (ids.filter fun i => i.1 ≠ addr) ids := List.filter_sublist
    refine ⟨⟨h.toAddrs.sublist hsub rfl, h.keys.sublist (hsub.map _)⟩, h.alive, fun pk => ?_⟩
    rw [mem_keys_filter (.mk ids next (some addr) false true aborted) h.keys h.nodup hmem]
    simp

/-- The end of the request ends the open block. -/
theorem Cursor.InBlock.finish (h : cu.InBlock pk₀) :
    pk ∈ cu.finish.ids.map Prod.snd ↔
      pk ∈ cu.ids.map Prod.snd ∧ ¬ (cu.remove = true ∧ pk = pk₀) := by
  have hids : cu.finish.ids = cu.endBlock.ids := by
    rw [Cursor.finish, if_neg (by simp [h.alive]), Cursor.endBlock]
    simp only [h.calm, Bool.false_eq_true, if_false]
  rw [hids]
  exact h.endBlock.2.2 pk

/-- Naming a peer adds its key. -/
theorem Cursor.Distinct.open (h : cu.Distinct) (hab : cu.aborted = false) (hrep : cu.replace = false)
    (pk₀ : List Byte) :
    (cu.open pk₀).InBlock pk₀ ∧
      ∀ pk, pk ∈ (cu.open pk₀).ids.map Prod.snd ↔ pk ∈ cu.ids.map Prod.snd ∨ pk = pk₀ := by
  have haddrs := h.toAddrs.open pk₀
  unfold Cursor.open at haddrs ⊢
  cases hfind : cu.find pk₀ with
  | some addr =>
    obtain ⟨⟨a, k⟩, hi, rfl⟩ := Option.map_eq_some_iff.1 hfind
    have hk : k = pk₀ := by simpa using List.find?_some hi
    subst hk
    have hmem := List.mem_of_find?_eq_some hi
    refine ⟨⟨⟨⟨h.nodup, h.fresh⟩, h.keys⟩, hab, hrep, a, rfl, hmem⟩, fun pk => ?_⟩
    constructor
    · exact Or.inl
    · rintro (h | rfl)
      · exact h
      · exact List.mem_map_of_mem hmem
  | none =>
    have hnew : pk₀ ∉ cu.ids.map Prod.snd := by
      simp only [Cursor.find, Option.map_eq_none_iff, List.find?_eq_none, decide_eq_true_eq] at hfind
      rintro hmem
      obtain ⟨i, hi, heq⟩ := List.mem_map.1 hmem
      exact hfind i hi heq
    rw [hfind] at haddrs
    refine ⟨⟨⟨haddrs, ?_⟩, hab, hrep, cu.next, rfl, List.mem_cons_self⟩, fun pk => ?_⟩
    · exact List.nodup_cons.2 ⟨hnew, h.keys⟩
    · rw [List.map_cons, List.mem_cons, or_comm]

/-- The keys that are left at the end of the request, from an open block on: for each key its last
block decides. -/
theorem Cursor.InBlock.run (h : cu.InBlock pk₀) (hkey : LineView.key none ∉ rest)
    (hrep : LineView.replacePeers ∉ rest) :
    pk ∈ (cu.run rest).finish.ids.map Prod.snd ↔
      match lastBlock ((pk₀, cu.remove || marked rest) :: blocks rest) pk with
      | some b => b.2 = false
      | none => pk ∈ cu.ids.map Prod.snd := by
  induction rest generalizing cu pk₀ with
  | nil =>
    obtain ⟨addr, -, hmem⟩ := h.current
    have hin : pk₀ ∈ cu.ids.map Prod.snd := List.mem_map_of_mem hmem
    show pk ∈ cu.finish.ids.map Prod.snd ↔ _
    rw [h.finish, lastBlock_cons]
    by_cases heq : pk₀ = pk
    · subst heq
      simp [lastBlock, blocks, marked, hin]
    · simp [lastBlock, blocks, heq, Ne.symm heq]
  | cons v rest ih =>
    rw [List.mem_cons, not_or] at hkey hrep
    show pk ∈ ((cu.step v).run rest).finish.ids.map Prod.snd ↔ _
    have hstep : cu.aborted ≠ true := by simp [h.alive]
    cases v with
    | key k =>
      cases k with
      | none => exact absurd rfl hkey.1
      | some pk₁ =>
        obtain ⟨hdist, hab, hkeys⟩ := h.endBlock
        obtain ⟨-, hrepl, hrem, -⟩ := cu.endBlock_frame
        obtain ⟨hopen, hkeys'⟩ := hdist.open hab hrepl pk₁
        obtain ⟨-, hrem', -⟩ := cu.endBlock.open_frame pk₁
        obtain ⟨addr, -, hmem⟩ := h.current
        have hin : pk₀ ∈ cu.ids.map Prod.snd := List.mem_map_of_mem hmem
        rw [Cursor.step, if_neg hstep]
        simp only [hab, Bool.false_eq_true, if_false]
        rw [ih hopen hkey.2 hrep.2, hrem', hrem, Bool.false_or, lastBlock_cons (pk₀, _)]
        have hmark : marked (.key (some pk₁) :: rest) = false := marked_cons _ _
        rw [hmark, Bool.or_false, blocks]
        cases hlast : lastBlock ((pk₁, marked rest) :: blocks rest) pk with
        | some b => rfl
        | none =>
          have hne : pk ≠ pk₁ := ne_of_lastBlock_none hlast
          simp only [Option.none_or, hkeys', hkeys, hne, or_false]
          by_cases heq : pk₀ = pk
          · subst heq
            simp [hin]
          · simp [heq, Ne.symm heq]
    | longKey =>
      have hmark : marked (.longKey :: rest) = marked rest := marked_cons _ _
      rw [Cursor.step, if_neg hstep, hmark]
      exact ih h hkey.2 hrep.2
    | peer marks =>
      obtain ⟨addr, hcur, hmem⟩ := h.current
      cases marks with
      | false =>
        have hmark : marked (.peer false :: rest) = marked rest := marked_cons _ _
        rw [Cursor.step, if_neg hstep, hmark]
        simp only [Bool.false_eq_true, and_false, if_false]
        exact ih h hkey.2 hrep.2
      | true =>
        have hmark : marked (.peer true :: rest) = true := marked_cons _ _
        have hsome : cu.current.isSome = true := by rw [hcur]; rfl
        rw [Cursor.step, if_neg hstep, hmark]
        simp only [hsome, and_self, if_true, Bool.or_true]
        have hblock : ({ cu with remove := true } : Cursor).InBlock pk₀ :=
          ⟨⟨⟨h.nodup, h.fresh⟩, h.keys⟩, h.alive, h.calm, addr, hcur, hmem⟩
        exact ih hblock hkey.2 hrep.2
    | replacePeers => exact absurd rfl hrep.1
    | other =>
      have hmark : marked (.other :: rest) = marked rest := marked_cons _ _
      rw [Cursor.step, if_neg hstep, hmark]
      exact ih h hkey.2 hrep.2

/-- The lines before the first `public_key` line leave the list of peers alone. -/
theorem Cursor.run_before_key (cu : Cursor) (hcu : cu.aborted = false) (hrem : cu.remove = false)
    (hcur : cu.current = none) (hkey : ∀ v ∈ vs, v.isKey = false) :
    cu.run vs = { cu with replace := cu.replace || decide (.replacePeers ∈ vs) } := by
  induction vs generalizing cu with
  | nil => simp [Cursor.run]
  | cons v vs ih =>
    rw [List.forall_mem_cons] at hkey
    show (cu.step v).run vs = _
    have hstep : cu.aborted ≠ true := by simp [hcu]
    cases v with
    | key k => cases hkey.1
    | longKey =>
      rw [Cursor.step, if_neg hstep, ih cu hcu hrem hcur hkey.2]
      simp
    | peer marks =>
      have hnone : ¬ (cu.current.isSome = true ∧ marks = true) := by simp [hcur]
      rw [Cursor.step, if_neg hstep]
      simp only [if_neg hnone]
      rw [ih cu hcu hrem hcur hkey.2]
      simp
    | replacePeers =>
      rw [Cursor.step, if_neg hstep, ih { cu with replace := true } hcu hrem hcur hkey.2]
      simp
    | other =>
      rw [Cursor.step, if_neg hstep, ih cu hcu hrem hcur hkey.2]
      simp

theorem blocks_append (hkey : ∀ v ∈ vs, v.isKey = false) : blocks (vs ++ rest) = blocks rest := by
  induction vs with
  | nil => rfl
  | cons v vs ih =>
    rw [List.forall_mem_cons] at hkey
    cases v with
    | key k => cases hkey.1
    | longKey => exact ih hkey.2
    | peer marks => exact ih hkey.2
    | replacePeers => exact ih hkey.2
    | other => exact ih hkey.2

/-- **The peers that remain when a request has replaced them**: those whose last block is not marked
for removal. -/
theorem mem_keys_finish (ids : List (ℕ × List Byte)) (next : ℕ) (hreq : WellFormedRequest vs)
    (hrep : .replacePeers ∈ vs) (hkey : ∃ v ∈ vs, v.isKey = true) :
    pk ∈ ((Cursor.start ids next).run vs).finish.ids.map Prod.snd ↔
      ∃ b, lastBlock (blocks vs) pk = some b ∧ b.2 = false := by
  obtain ⟨pre, v, rest, hvs, hv, hpre⟩ : ∃ pre v rest, vs = pre ++ v :: rest ∧ v.isKey = true ∧
      ∀ u ∈ pre, u.isKey = false := by
    obtain ⟨v, hv⟩ := Option.isSome_iff_exists.1 (List.find?_isSome.2 hkey)
    obtain ⟨hv, pre, rest, hvs, hpre⟩ := List.find?_eq_some_iff_append.1 hv
    exact ⟨pre, v, rest, hvs, hv, fun u hu => by simpa using hpre u hu⟩
  obtain ⟨k, rfl⟩ := exists_key hv
  cases k with
  | none => exact absurd (hvs ▸ by simp) hreq.key
  | some pk₀ =>
    -- `replace_peers` stands before the first key and not behind it
    have hrest : LineView.replacePeers ∉ rest := by
      intro hmem
      obtain ⟨r₁, r₂, rfl⟩ := List.append_of_mem hmem
      exact hreq.first (pre ++ .key (some pk₀) :: r₁) r₂ (by rw [hvs]; simp) (some pk₀) (by simp)
    have hpend : LineView.replacePeers ∈ pre := by
      rw [hvs, List.mem_append, List.mem_cons] at hrep
      rcases hrep with h | h | h
      · exact h
      · cases h
      · exact absurd h hrest
    have hnone : LineView.key none ∉ rest := fun h => hreq.key (hvs ▸ by simp [h])
    have hbefore := Cursor.run_before_key (.start ids next) rfl rfl rfl hpre
    have hfirst : (Cursor.start ids next).run (pre ++ .key (some pk₀) :: rest) =
        (Cursor.mk [(next, pk₀)] (next + 1) (some next) false false false).run rest := by
      rw [Cursor.run_append, hbefore]
      show Cursor.run (Cursor.step _ _) rest = _
      simp [hpend, Cursor.start, Cursor.step, Cursor.endBlock, Cursor.open, Cursor.find]
    have hblock : (Cursor.mk [(next, pk₀)] (next + 1) (some next) false false false).InBlock pk₀ :=
      ⟨⟨⟨by simp, by simp⟩, by simp⟩, rfl, rfl, next, rfl, by simp⟩
    rw [hvs, hfirst, hblock.run hnone hrest, blocks_append hpre, blocks, Bool.false_or]
    cases hlast : lastBlock ((pk₀, marked rest) :: blocks rest) pk with
    | some b => simp
    | none =>
      have hne : pk ≠ pk₀ := ne_of_lastBlock_none hlast
      simp [hne]

end Replace

end Wgx
