import Mathlib.Tactic
import Mathlib.Data.List.Infix
import Mathlib.Data.List.GetD

/-!
# Prefix maps and path-compressed binary tries

A prefix map is a partial function on bit strings; its longest match at an address is the value
of the longest prefix of the address in its domain.  A path-compressed trie stores such a map:
each node carries a whole prefix, its two children extend that prefix by one bit at least, and a
node without a value is mere glue.

* `IsLongestMatch`, `longestMatch`: the longest match of a map at an address;
* `Trie`, `Trie.insert`, `Trie.lookup`, `Trie.removeValue`, `Trie.entries`;
* `Trie.WF q t`: below the prefix `q` every node extends its parent on the right side;
* `Trie.Represents`: the entries of the trie are exactly those of a map, kept by the operations.
-/

namespace PrefixTrie

variable {V : Type*}

/-! ### Longest match -/

/-- `v` is the value at the longest prefix of `addr` on which `M` is defined. -/
def IsLongestMatch (M : List Bool → Option V) (addr : List Bool) (v : V) : Prop :=
  ∃ p, p <+: addr ∧ M p = some v ∧ ∀ p', p' <+: addr → M p' ≠ none → p'.length ≤ p.length

/-- The longest match, by recursion on the address. -/
def longestMatch (M : List Bool → Option V) : List Bool → Option V
  | [] => M []
  | b :: bs => (longestMatch (fun p => M (b :: p)) bs).or (M [])

theorem longestMatch_eq_none {M : List Bool → Option V} {addr : List Bool} :
    longestMatch M addr = none ↔ ∀ p, p <+: addr → M p = none := by
  induction addr generalizing M with
  | nil => simp [longestMatch]
  | cons b bs ih =>
    simp only [longestMatch, Option.or_eq_none_iff, ih]
    constructor
    · rintro ⟨h1, h2⟩ p hp
      cases p with
      | nil => exact h2
      | cons a p =>
        obtain ⟨rfl, hp1⟩ := List.cons_prefix_cons.1 hp
        exact h1 p hp1
    · intro h
      exact ⟨fun p hp => h _ (List.cons_prefix_cons.2 ⟨rfl, hp⟩), h [] List.nil_prefix⟩

theorem longestMatch_eq_some {M : List Bool → Option V} {addr : List Bool} {v : V} :
    longestMatch M addr = some v ↔ IsLongestMatch M addr v := by
  induction addr generalizing M with
  | nil =>
    constructor
    · intro h
      exact ⟨[], List.nil_prefix, h, fun p' hp' _ => by simp [List.prefix_nil.1 hp']⟩
    · rintro ⟨p, hp, hv, -⟩
      rwa [List.prefix_nil.1 hp] at hv
  | cons b bs ih =>
    rw [longestMatch, Option.or_eq_some_iff, ih, longestMatch_eq_none]
    constructor
    · rintro (⟨p, hp, hv, hmax⟩ | ⟨hnone, hv⟩)
      · refine ⟨b :: p, List.cons_prefix_cons.2 ⟨rfl, hp⟩, hv, ?_⟩
        intro p' hp' hne
        cases p' with
        | nil => simp
        | cons a p' =>
          obtain ⟨rfl, hp1⟩ := List.cons_prefix_cons.1 hp'
          simpa using hmax p' hp1 hne
      · refine ⟨[], List.nil_prefix, hv, ?_⟩
        intro p' hp' hne
        cases p' with
        | nil => simp
        | cons a p' =>
          obtain ⟨rfl, hp1⟩ := List.cons_prefix_cons.1 hp'
          exact absurd (hnone p' hp1) hne
    · rintro ⟨p, hp, hv, hmax⟩
      cases p with
      | nil =>
        refine Or.inr ⟨fun q hq => ?_, hv⟩
        by_contra hne
        have := hmax (b :: q) (List.cons_prefix_cons.2 ⟨rfl, hq⟩) hne
        simp at this
      | cons a p =>
        obtain ⟨rfl, hp1⟩ := List.cons_prefix_cons.1 hp
        refine Or.inl ⟨p, hp1, hv, fun p' hp' hne => ?_⟩
        simpa using hmax (a :: p') (List.cons_prefix_cons.2 ⟨rfl, hp'⟩) hne

/-! ### Common prefixes -/

/-- A map with one value matches where one of its keys does. -/
theorem longestMatch_const {M : List Bool → Option V} {v : V} (h : ∀ p w, M p = some w → w = v)
    (addr : List Bool) : longestMatch M addr = some v ↔ ∃ p, p <+: addr ∧ M p ≠ none := by
  constructor
  · intro hm
    obtain ⟨p, hp, hv, -⟩ := longestMatch_eq_some.1 hm
    exact ⟨p, hp, by rw [hv]; simp⟩
  · rintro ⟨p, hp, hne⟩
    cases hm : longestMatch M addr with
    | none => exact absurd (longestMatch_eq_none.1 hm p hp) hne
    | some w =>
      obtain ⟨q, -, hw, -⟩ := longestMatch_eq_some.1 hm
      rw [h q w hw]

/-- The length of the longest common prefix of two bit strings. -/
def lcp : List Bool → List Bool → ℕ
  | a :: as, b :: bs => if a = b then lcp as bs + 1 else 0
  | _, _ => 0

theorem lcp_le_left (a b : List Bool) : lcp a b ≤ a.length := by
  fun_induction lcp a b <;> simp_all

theorem lcp_le_right (a b : List Bool) : lcp a b ≤ b.length := by
  fun_induction lcp a b <;> simp_all

theorem take_lcp (a b : List Bool) : a.take (lcp a b) = b.take (lcp a b) := by
  fun_induction lcp a b <;> simp_all

theorem le_lcp {q a b : List Bool} (ha : q <+: a) (hb : q <+: b) : q.length ≤ lcp a b := by
  induction q generalizing a b with
  | nil => exact Nat.zero_le _
  | cons x q ih =>
    obtain ⟨a, rfl⟩ := ha
    obtain ⟨b, rfl⟩ := hb
    simpa [lcp] using ih (List.prefix_append q a) (List.prefix_append q b)

theorem getElem_lcp_ne {a b : List Bool} (ha : lcp a b < a.length) (hb : lcp a b < b.length) :
    a[lcp a b] ≠ b[lcp a b] := by
  induction a generalizing b with
  | nil => simp at ha
  | cons x a ih =>
    cases b with
    | nil => simp at hb
    | cons y b =>
      by_cases hxy : x = y
      · subst hxy
        simp only [lcp, if_true, List.length_cons, add_lt_add_iff_right] at ha hb ⊢
        simpa using ih ha hb
      · simp [lcp, hxy]

/-! ### Path-compressed tries -/

/-- A path-compressed binary trie: a node carries its whole prefix. -/
inductive Trie (V : Type*)
  | null
  | node (pfx : List Bool) (val : Option V) (left right : Trie V)

namespace Trie

/-- A node with the child `t` on the side `b` and `u` on the other side. -/
def fork (pfx : List Bool) (val : Option V) (b : Bool) (t u : Trie V) : Trie V :=
  if b then node pfx val u t else node pfx val t u

/-- Bind the prefix `k` to `v`. -/
def insert (k : List Bool) (v : V) : Trie V → Trie V
  | null => node k (some v) null null
  | node p w l r =>
    let m := lcp p k
    if m < p.length then
      if m = k.length then fork k (some v) (p.getD m false) (node p w l r) null
      else fork (k.take m) none (p.getD m false) (node p w l r) (node k (some v) null null)
    else if m = k.length then node p (some v) l r
    else if k.getD p.length false then node p w l (insert k v r) else node p w (insert k v l) r

/-- The value of the longest prefix of `addr` on the path, or `best` if there is none. -/
def lookup (addr : List Bool) : Trie V → Option V → Option V
  | null, best => best
  | node p w l r, best =>
    if p.isPrefixOf addr then
      if p.length = addr.length then w.or best
      else if addr.getD p.length false then lookup addr r (w.or best) else lookup addr l (w.or best)
    else best

/-- Erase every occurrence of `v`; the nodes stay as glue. -/
def removeValue [DecidableEq V] (v : V) : Trie V → Trie V
  | null => null
  | node p w l r => node p (if w = some v then none else w) (removeValue v l) (removeValue v r)

/-- The bindings, parents before children. -/
def entries : Trie V → List (List Bool × V)
  | null => []
  | node p w l r => (w.map (fun v => (p, v))).toList ++ entries l ++ entries r

/-- The trie is well formed below the prefix `q`: every node extends `q`, and its children
extend its own prefix on their side. -/
def WF : List Bool → Trie V → Prop
  | _, null => True
  | q, node p _ l r => q <+: p ∧ WF (p ++ [false]) l ∧ WF (p ++ [true]) r

@[simp] theorem entries_null : entries (null : Trie V) = [] := rfl

theorem mem_entries_node {p : List Bool} {w : Option V} {l r : Trie V} {e : List Bool × V} :
    e ∈ entries (node p w l r) ↔
      (e.1 = p ∧ w = some e.2) ∨ e ∈ entries l ∨ e ∈ entries r := by
  obtain ⟨k, v⟩ := e
  cases w with
  | none => simp [entries]
  | some w => simp [entries, eq_comm]

theorem WF.prefix_of_mem {q : List Bool} {t : Trie V} (h : WF q t) {e : List Bool × V}
    (he : e ∈ entries t) : q <+: e.1 := by
  induction t generalizing q with
  | null => simp at he
  | node p w l r ihl ihr =>
    obtain ⟨hq, hl, hr⟩ := h
    rcases mem_entries_node.1 he with ⟨rfl, -⟩ | he | he
    · exact hq
    · exact (hq.trans (List.prefix_append _ _)).trans (ihl hl he)
    · exact (hq.trans (List.prefix_append _ _)).trans (ihr hr he)

theorem WF.prefix_of_mem_node {q p : List Bool} {w : Option V} {l r : Trie V} (h : WF q (node p w l r))
    {e : List Bool × V} (he : e ∈ entries (node p w l r)) : p <+: e.1 :=
  WF.prefix_of_mem (t := node p w l r) ⟨List.prefix_rfl, h.2⟩ he

theorem not_snoc_prefix_self {p : List Bool} {b : Bool} : ¬ p ++ [b] <+: p := by
  intro h
  have := h.length_le
  simp at this

theorem eq_of_snoc_prefix_snoc {p k : List Bool} {b c : Bool} (hb : p ++ [b] <+: k)
    (hc : p ++ [c] <+: k) : b = c := by
  have h := List.prefix_of_prefix_length_le hb hc (by simp)
  simpa using h.eq_of_length (by simp)

/-- A well-formed trie binds each prefix at most once. -/
theorem WF.nodup {q : List Bool} {t : Trie V} (h : WF q t) : (t.entries.map Prod.fst).Nodup := by
  induction t generalizing q with
  | null => simp
  | node p w l r ihl ihr =>
    obtain ⟨-, hl, hr⟩ := h
    have hp : ((w.map (fun v => (p, v))).toList.map Prod.fst).Nodup := by cases w <;> simp
    rw [entries, List.map_append, List.map_append, List.append_assoc]
    refine hp.append ((ihl hl).append (ihr hr) ?_) ?_
    · intro k hk hk'
      obtain ⟨e, he, rfl⟩ := List.mem_map.1 hk
      obtain ⟨e', he', hee⟩ := List.mem_map.1 hk'
      have h1 := hl.prefix_of_mem he
      have h2 := hr.prefix_of_mem he'
      rw [hee] at h2
      exact absurd (eq_of_snoc_prefix_snoc h1 h2) (by simp)
    · intro k hk hk'
      have hkp : k = p := by cases w <;> simp_all
      subst hkp
      rw [List.mem_append] at hk'
      rcases hk' with hk' | hk'
      · obtain ⟨e, he, rfl⟩ := List.mem_map.1 hk'
        exact not_snoc_prefix_self (hl.prefix_of_mem he)
      · obtain ⟨e, he, rfl⟩ := List.mem_map.1 hk'
        exact not_snoc_prefix_self (hr.prefix_of_mem he)

/-! ### Insertion -/

theorem wf_fork {q p : List Bool} {w : Option V} {b : Bool} {t u : Trie V} :
    WF q (fork p w b t u) ↔ q <+: p ∧ WF (p ++ [b]) t ∧ WF (p ++ [!b]) u := by
  cases b
  · exact Iff.rfl
  · exact and_congr_right fun _ => and_comm

theorem mem_entries_fork {p : List Bool} {w : Option V} {b : Bool} {t u : Trie V}
    {e : List Bool × V} : e ∈ entries (fork p w b t u) ↔
      (e.1 = p ∧ w = some e.2) ∨ e ∈ entries t ∨ e ∈ entries u := by
  cases b
  · exact mem_entries_node
  · exact mem_entries_node.trans (or_congr_right or_comm)

theorem take_snoc_prefix_self {k : List Bool} {m : ℕ} (hm : m < k.length) :
    k.take m ++ [k.getD m false] <+: k := by
  rw [List.getD_eq_getElem _ _ hm, List.take_append_getElem hm]
  exact List.take_prefix _ _

theorem prefix_of_lcp_eq {p k : List Bool} (h : ¬ lcp p k < p.length) : p <+: k := by
  have hlen : lcp p k = p.length := le_antisymm (lcp_le_left p k) (not_lt.1 h)
  have htake := take_lcp p k
  rw [hlen, List.take_length] at htake
  rw [htake]
  exact List.take_prefix _ _

theorem snoc_prefix_of_lcp {p k : List Bool} (h1 : ¬ lcp p k < p.length) (h2 : ¬ lcp p k = k.length) :
    p ++ [k.getD p.length false] <+: k := by
  have hpk := prefix_of_lcp_eq h1
  have hlen : lcp p k = p.length := le_antisymm (lcp_le_left p k) (not_lt.1 h1)
  have hlt : p.length < k.length := lt_of_le_of_ne hpk.length_le (by omega)
  have := take_snoc_prefix_self hlt
  rwa [← List.prefix_iff_eq_take.1 hpk] at this

/-- Rebinding `k` below a node: the node's own entry `a` and the other child's entries `o` stay. -/
theorem rebind_below {a o t t' e n : Prop} (ha : a → n) (ho : o → n) (ht : t' ↔ e ∨ (t ∧ n)) :
    (a ∨ o ∨ t') ↔ e ∨ ((a ∨ o ∨ t) ∧ n) := by
  rw [ht]
  constructor
  · rintro (h | h | h | ⟨h, hn⟩)
    · exact Or.inr ⟨Or.inl h, ha h⟩
    · exact Or.inr ⟨Or.inr (Or.inl h), ho h⟩
    · exact Or.inl h
    · exact Or.inr ⟨Or.inr (Or.inr h), hn⟩
  · rintro (h | ⟨h | h | h, hn⟩)
    · exact Or.inr (Or.inr (Or.inl h))
    · exact Or.inl h
    · exact Or.inr (Or.inl h)
    · exact Or.inr (Or.inr (Or.inr ⟨h, hn⟩))

/-- Insertion keeps the trie well formed and rebinds exactly the prefix `k`. -/
theorem insert_spec {q k : List Bool} (v : V) {t : Trie V} (h : WF q t) (hqk : q <+: k) :
    WF q (insert k v t) ∧
      ∀ e, e ∈ entries (insert k v t) ↔ e = (k, v) ∨ (e ∈ entries t ∧ e.1 ≠ k) := by
  induction t generalizing q with
  | null => exact ⟨⟨hqk, trivial, trivial⟩, fun e => by simp [insert, entries]⟩
  | node p w l r ihl ihr =>
    obtain ⟨hqp, hl, hr⟩ := id h
    have htake := take_lcp p k
    simp only [insert]
    split_ifs with h1 h2 h3 h4
    · -- `k` is a proper prefix of `p`
      have hk : k.take (lcp p k) = k := by rw [h2, List.take_length]
      have hpk : k ++ [p.getD (lcp p k) false] <+: p := by
        have := take_snoc_prefix_self h1
        rwa [htake, hk] at this
      refine ⟨wf_fork.2 ⟨hqk, ⟨hpk, hl, hr⟩, trivial⟩, fun e => ?_⟩
      have hne : e ∈ entries (node p w l r) → e.1 ≠ k := by
        rintro he rfl
        exact not_snoc_prefix_self (hpk.trans (h.prefix_of_mem_node he))
      rw [mem_entries_fork]
      constructor
      · rintro (⟨h5, h6⟩ | he | he)
        · exact Or.inl (Prod.ext h5 (Option.some.inj h6).symm)
        · exact Or.inr ⟨he, hne he⟩
        · simp at he
      · rintro (rfl | ⟨he, -⟩)
        · exact Or.inl ⟨rfl, rfl⟩
        · exact Or.inr (Or.inl he)
    · -- `k` and `p` part at a bit of both
      have hlt : lcp p k < k.length := lt_of_le_of_ne (lcp_le_right p k) h2
      have hbit : (!p.getD (lcp p k) false) = k.getD (lcp p k) false := by
        have hne := getElem_lcp_ne h1 hlt
        rw [List.getD_eq_getElem _ _ h1, List.getD_eq_getElem _ _ hlt]
        exact (Bool.eq_not_of_ne hne.symm).symm
      have hqm : q <+: k.take (lcp p k) := List.prefix_take_iff.2 ⟨hqk, le_lcp hqp hqk⟩
      refine ⟨wf_fork.2 ⟨hqm, ⟨?_, hl, hr⟩, ⟨?_, trivial, trivial⟩⟩, fun e => ?_⟩
      · rw [← htake]; exact take_snoc_prefix_self h1
      · rw [hbit]; exact take_snoc_prefix_self hlt
      have hne : e ∈ entries (node p w l r) → e.1 ≠ k := by
        rintro he rfl
        exact absurd (le_lcp (List.prefix_refl p) (h.prefix_of_mem_node he)) (by omega)
      rw [mem_entries_fork]
      constructor
      · rintro (⟨-, h6⟩ | he | he)
        · cases h6
        · exact Or.inr ⟨he, hne he⟩
        · exact Or.inl (by simpa [entries] using he)
      · rintro (rfl | ⟨he, -⟩)
        · exact Or.inr (Or.inr (by simp [entries]))
        · exact Or.inr (Or.inl he)
    · -- the node of `k` itself
      have hpk : p = k := (prefix_of_lcp_eq h1).eq_of_length
        (le_antisymm (prefix_of_lcp_eq h1).length_le (by have := lcp_le_left p k; omega))
      subst hpk
      refine ⟨⟨hqp, hl, hr⟩, fun e => ?_⟩
      have hnl : e ∈ entries l → e.1 ≠ p := by
        rintro he rfl; exact not_snoc_prefix_self (hl.prefix_of_mem he)
      have hnr : e ∈ entries r → e.1 ≠ p := by
        rintro he rfl; exact not_snoc_prefix_self (hr.prefix_of_mem he)
      rw [mem_entries_node, mem_entries_node]
      constructor
      · rintro (⟨h5, h6⟩ | he | he)
        · exact Or.inl (Prod.ext h5 (Option.some.inj h6).symm)
        · exact Or.inr ⟨Or.inr (Or.inl he), hnl he⟩
        · exact Or.inr ⟨Or.inr (Or.inr he), hnr he⟩
      · rintro (rfl | ⟨⟨h5, -⟩ | he | he, hne⟩)
        · exact Or.inl ⟨rfl, rfl⟩
        · exact absurd h5 hne
        · exact Or.inr (Or.inl he)
        · exact Or.inr (Or.inr he)
    · -- below, on the right
      have hstep := snoc_prefix_of_lcp h1 h3
      rw [h4] at hstep
      obtain ⟨hwf, hmem⟩ := ihr hr hstep
      refine ⟨⟨hqp, hl, hwf⟩, fun e => ?_⟩
      have hnp : e.1 = p → e.1 ≠ k := by
        rintro h5 h6; rw [← h6, h5] at hstep; exact not_snoc_prefix_self hstep
      have hnl : e ∈ entries l → e.1 ≠ k := by
        rintro he rfl
        exact absurd (eq_of_snoc_prefix_snoc (hl.prefix_of_mem he) hstep) (by simp)
      rw [mem_entries_node, mem_entries_node]
      exact rebind_below (fun h => hnp h.1) hnl (hmem e)
    · -- below, on the left
      have hstep := snoc_prefix_of_lcp h1 h3
      rw [Bool.not_eq_true] at h4
      rw [h4] at hstep
      obtain ⟨hwf, hmem⟩ := ihl hl hstep
      refine ⟨⟨hqp, hwf, hr⟩, fun e => ?_⟩
      have hnp : e.1 = p → e.1 ≠ k := by
        rintro h5 h6; rw [← h6, h5] at hstep; exact not_snoc_prefix_self hstep
      have hnr : e ∈ entries r → e.1 ≠ k := by
        rintro he rfl
        exact absurd (eq_of_snoc_prefix_snoc (hr.prefix_of_mem he) hstep) (by simp)
      rw [mem_entries_node, mem_entries_node, or_comm (a := e ∈ entries (insert k v l)),
        or_comm (a := e ∈ entries l)]
      exact rebind_below (fun h => hnp h.1) hnr (hmem e)

/-! ### Lookup -/

/-- The outcome of a lookup: the value of the longest matching entry, or `best` when no entry
matches. -/
def Outcome (addr : List Bool) (t : Trie V) (best res : Option V) : Prop :=
  (∃ e ∈ entries t, e.1 <+: addr ∧ res = some e.2 ∧
      ∀ e' ∈ entries t, e'.1 <+: addr → e'.1.length ≤ e.1.length) ∨
    ((∀ e ∈ entries t, ¬ e.1 <+: addr) ∧ res = best)

/-- A node on the path whose matching entries below lie all in `t`, one of its children. -/
theorem outcome_node {addr p : List Bool} {w best res : Option V} {l r t : Trie V}
    (hp : p <+: addr) (ht : ∀ e ∈ entries t, p.length < e.1.length)
    (hsub : ∀ e, e ∈ entries t → e ∈ entries l ∨ e ∈ entries r)
    (hcover : ∀ e, e ∈ entries l ∨ e ∈ entries r → e.1 <+: addr → e ∈ entries t)
    (h : Outcome addr t (w.or best) res) : Outcome addr (node p w l r) best res := by
  rcases h with ⟨e, he, hpre, hres, hmax⟩ | ⟨hno, hres⟩
  · refine Or.inl ⟨e, mem_entries_node.2 (Or.inr (hsub e he)), hpre, hres, ?_⟩
    intro e' he' hpre'
    rcases mem_entries_node.1 he' with ⟨rfl, -⟩ | he'
    · exact (ht e he).le
    · exact hmax e' (hcover e' he' hpre') hpre'
  · have hbelow : ∀ e, e ∈ entries l ∨ e ∈ entries r → ¬ e.1 <+: addr :=
      fun e he hpre => hno e (hcover e he hpre) hpre
    cases w with
    | some v =>
      refine Or.inl ⟨(p, v), mem_entries_node.2 (Or.inl ⟨rfl, rfl⟩), hp, by simpa using hres, ?_⟩
      intro e' he' hpre'
      rcases mem_entries_node.1 he' with ⟨rfl, -⟩ | he'
      · exact le_rfl
      · exact absurd hpre' (hbelow e' he')
    | none =>
      refine Or.inr ⟨fun e he => ?_, by simpa using hres⟩
      rcases mem_entries_node.1 he with ⟨-, hw⟩ | he
      · cases hw
      · exact hbelow e he

theorem length_lt_of_child {q : List Bool} {b : Bool} {t : Trie V} (h : WF (q ++ [b]) t)
    {e : List Bool × V} (he : e ∈ entries t) : q.length < e.1.length := by
  have := (h.prefix_of_mem he).length_le
  simp at this
  omega

theorem lookup_spec {q : List Bool} {t : Trie V} (h : WF q t) (addr : List Bool)
    (best : Option V) : Outcome addr t best (lookup addr t best) := by
  induction t generalizing q best with
  | null => exact Or.inr ⟨by simp, rfl⟩
  | node p w l r ihl ihr =>
    obtain ⟨-, hl, hr⟩ := id h
    simp only [lookup, List.isPrefixOf_iff_prefix]
    split_ifs with h1 h2 h3
    · -- the whole address is matched: nothing below can match
      have hlong : ∀ e, e ∈ entries l ∨ e ∈ entries r → ¬ e.1 <+: addr := by
        rintro e (he | he) hpre
        · exact absurd (length_lt_of_child hl he) (by have := hpre.length_le; omega)
        · exact absurd (length_lt_of_child hr he) (by have := hpre.length_le; omega)
      exact outcome_node (t := null) h1 (by simp) (by simp)
        (fun e he hpre => absurd hpre (hlong e he)) (Or.inr ⟨by simp, rfl⟩)
    · have hb : p ++ [true] <+: addr := by
        have := take_snoc_prefix_self (lt_of_le_of_ne h1.length_le h2)
        rwa [← List.prefix_iff_eq_take.1 h1, h3] at this
      refine outcome_node h1 (fun e he => length_lt_of_child hr he) (fun e => Or.inr) ?_ (ihr hr _)
      rintro e (he | he) hpre
      · exact absurd (eq_of_snoc_prefix_snoc ((hl.prefix_of_mem he).trans hpre) hb) (by simp)
      · exact he
    · have hb : p ++ [false] <+: addr := by
        have := take_snoc_prefix_self (lt_of_le_of_ne h1.length_le h2)
        rwa [← List.prefix_iff_eq_take.1 h1, Bool.not_eq_true _ |>.mp h3] at this
      refine outcome_node h1 (fun e he => length_lt_of_child hl he) (fun e => Or.inl) ?_ (ihl hl _)
      rintro e (he | he) hpre
      · exact he
      · exact absurd (eq_of_snoc_prefix_snoc ((hr.prefix_of_mem he).trans hpre) hb) (by simp)
    · exact Or.inr ⟨fun e he hpre => h1 ((h.prefix_of_mem_node he).trans hpre), rfl⟩

/-! ### Tries and maps -/

/-- The trie binds exactly what the map `M` binds. -/
structure Represents (t : Trie V) (M : List Bool → Option V) : Prop where
  wf : WF [] t
  mem : ∀ k v, (k, v) ∈ entries t ↔ M k = some v

theorem represents_null : Represents (null : Trie V) (fun _ => none) :=
  ⟨trivial, by simp⟩

theorem Represents.insert {t : Trie V} {M : List Bool → Option V} (h : Represents t M)
    (k : List Bool) (v : V) : Represents (t.insert k v) (Function.update M k (some v)) := by
  obtain ⟨hwf, hmem⟩ := insert_spec v h.wf ( List.nil_prefix : [] <+: k)
  refine ⟨hwf, fun k' v' => ?_⟩
  rw [hmem, h.mem]
  by_cases hk : k' = k
  · subst hk; simp [eq_comm]
  · simp [hk]

theorem wf_removeValue [DecidableEq V] (v : V) {q : List Bool} {t : Trie V} (h : WF q t) :
    WF q (removeValue v t) := by
  induction t generalizing q with
  | null => trivial
  | node p w l r ihl ihr => exact ⟨h.1, ihl h.2.1, ihr h.2.2⟩

theorem mem_entries_removeValue [DecidableEq V] (v : V) (t : Trie V) (e : List Bool × V) :
    e ∈ entries (removeValue v t) ↔ e ∈ entries t ∧ e.2 ≠ v := by
  induction t with
  | null => simp [removeValue]
  | node p w l r ihl ihr =>
    rw [removeValue, mem_entries_node, mem_entries_node, ihl, ihr]
    have hw : (if w = some v then none else w) = some e.2 ↔ w = some e.2 ∧ e.2 ≠ v := by
      split_ifs with hwv
      · subst hwv; simp [eq_comm]
      · exact ⟨fun h => ⟨h, fun hv => hwv (by rw [h, hv])⟩, fun h => h.1⟩
    rw [hw, ← or_and_right, ← and_assoc, ← or_and_right]

theorem Represents.removeValue [DecidableEq V] {t : Trie V} {M : List Bool → Option V}
    (h : Represents t M) (v : V) :
    Represents (t.removeValue v) (fun k => if M k = some v then none else M k) := by
  refine ⟨wf_removeValue v h.wf, fun k w => ?_⟩
  rw [mem_entries_removeValue, h.mem]
  split_ifs with hk
  · rw [hk]; simp [eq_comm]
  · exact ⟨fun hw => hw.1, fun hw => ⟨hw, fun hv => hk (hv ▸ hw)⟩⟩

/-- **Lookup in a trie is the longest match of its map.** -/
theorem Represents.lookup {t : Trie V} {M : List Bool → Option V} (h : Represents t M)
    (addr : List Bool) : t.lookup addr none = longestMatch M addr := by
  rcases lookup_spec h.wf addr none with ⟨⟨k, v⟩, he, hpre, hres, hmax⟩ | ⟨hno, hres⟩
  · rw [hres, eq_comm, longestMatch_eq_some]
    refine ⟨k, hpre, (h.mem k v).1 he, fun p' hp' hne => ?_⟩
    obtain ⟨v', hv'⟩ := Option.ne_none_iff_exists'.1 hne
    exact hmax (p', v') ((h.mem p' v').2 hv') hp'
  · rw [hres, eq_comm, longestMatch_eq_none]
    intro p hp
    by_contra hne
    obtain ⟨v', hv'⟩ := Option.ne_none_iff_exists'.1 hne
    exact hno (p, v') ((h.mem p v').2 hv') hp

end Trie

end PrefixTrie
