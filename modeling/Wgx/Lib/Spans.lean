import Mathlib.Algebra.GroupWithZero.Nat
import Mathlib.Data.List.TakeWhile
import Mathlib.Order.Interval.Finset.Nat
import Mathlib.Tactic.SplitIfs

/-!
# Spans

A span is a block of consecutive cells of one infinite line; a list of spans describes what is known
of the line.

* `Sorted`: the spans are not empty, and each ends before the next one begins;
* `Holds l i a`: cell `i` is known to be `a`;
* `above bound l` forgets the cells below `bound`, `upTo bound l` and `beyond bound l` are the spans
  that end at `bound` at the latest, and the others;
* `known`, `total_above_add_card`: which cells are known, and how many a list loses when it is cut;
* `sorted_splice`, `holds_append`, `total_append`: putting a span between two lists.
-/

namespace Spans

variable {α : Type*}

/-- Consecutive cells from `pos` on. -/
structure Span (α : Type*) where
  pos : ℕ
  data : List α

/-- The first position behind a span. -/
def Span.fin (s : Span α) : ℕ := s.pos + s.data.length

/-- What a span says of a cell. -/
def Span.at? (s : Span α) (i : ℕ) : Option α := if s.pos ≤ i then s.data[i - s.pos]? else none

theorem Span.at?_eq_some {s : Span α} {i : ℕ} {a : α} :
    s.at? i = some a ↔ s.pos ≤ i ∧ s.data[i - s.pos]? = some a := by
  unfold Span.at?
  split_ifs with h
  · simp [h]
  · simp [h]

theorem Span.bounds_of_at? {s : Span α} {i : ℕ} {a : α} (h : s.at? i = some a) :
    s.pos ≤ i ∧ i < s.fin := by
  obtain ⟨hpos, hget⟩ := Span.at?_eq_some.1 h
  obtain ⟨hlt, -⟩ := List.getElem?_eq_some_iff.1 hget
  unfold Span.fin
  omega

theorem Span.exists_at? {s : Span α} {i : ℕ} (hpos : s.pos ≤ i) (hfin : i < s.fin) :
    ∃ a, s.at? i = some a := by
  unfold Span.fin at hfin
  refine ⟨s.data.get ⟨i - s.pos, by omega⟩, Span.at?_eq_some.2 ⟨hpos, ?_⟩⟩
  exact List.getElem?_eq_getElem _

/-- The back of a span says the same of the cells that are left. -/
theorem Span.at?_drop (s : Span α) (k i : ℕ) :
    (⟨s.pos + k, s.data.drop k⟩ : Span α).at? i = if s.pos + k ≤ i then s.at? i else none := by
  unfold Span.at?
  by_cases h : s.pos + k ≤ i
  · rw [if_pos h, if_pos h, if_pos (le_trans (Nat.le_add_right _ _) h), List.getElem?_drop,
      show k + (i - (s.pos + k)) = i - s.pos by omega]
  · rw [if_neg h, if_neg h]

/-! ### Sorted lists -/

/-- The spans are not empty, and each ends before the next one begins. -/
structure Sorted (l : List (Span α)) : Prop where
  nonempty : ∀ s ∈ l, s.data ≠ []
  ordered : l.Pairwise fun s t => s.fin ≤ t.pos

/-- Cell `i` is known to be `a`. -/
def Holds (l : List (Span α)) (i : ℕ) (a : α) : Prop := ∃ s ∈ l, s.at? i = some a

/-- How many cells are known. -/
def total (l : List (Span α)) : ℕ := (l.map fun s => s.data.length).sum

@[simp] theorem total_nil : total ([] : List (Span α)) = 0 := rfl

@[simp] theorem total_cons (s : Span α) (l : List (Span α)) :
    total (s :: l) = s.data.length + total l := by
  simp [total]

@[simp] theorem total_append (l m : List (Span α)) : total (l ++ m) = total l + total m := by
  simp [total]

@[simp] theorem holds_nil (i : ℕ) (a : α) : ¬ Holds [] i a := by
  simp [Holds]

@[simp] theorem holds_cons (s : Span α) (l : List (Span α)) (i : ℕ) (a : α) :
    Holds (s :: l) i a ↔ s.at? i = some a ∨ Holds l i a := by
  simp [Holds]

@[simp] theorem holds_append (l m : List (Span α)) (i : ℕ) (a : α) :
    Holds (l ++ m) i a ↔ Holds l i a ∨ Holds m i a := by
  simp [Holds, or_and_right, exists_or]

theorem sorted_nil : Sorted ([] : List (Span α)) := ⟨by simp, List.Pairwise.nil⟩

theorem sorted_cons {s : Span α} {l : List (Span α)} :
    Sorted (s :: l) ↔ s.data ≠ [] ∧ (∀ t ∈ l, s.fin ≤ t.pos) ∧ Sorted l := by
  constructor
  · rintro ⟨hne, hord⟩
    rw [List.forall_mem_cons] at hne
    rw [List.pairwise_cons] at hord
    exact ⟨hne.1, hord.1, hne.2, hord.2⟩
  · rintro ⟨hne, hhead, hsorted⟩
    exact ⟨List.forall_mem_cons.2 ⟨hne, hsorted.nonempty⟩,
      List.pairwise_cons.2 ⟨hhead, hsorted.ordered⟩⟩

theorem Sorted.pos_lt_fin {l : List (Span α)} (h : Sorted l) {s : Span α} (hs : s ∈ l) :
    s.pos < s.fin := by
  have hlen := List.length_pos_iff.2 (h.nonempty s hs)
  unfold Span.fin
  omega

theorem Sorted.sublist {l m : List (Span α)} (h : Sorted m) (hsub : l.Sublist m) : Sorted l :=
  ⟨fun s hs => h.nonempty s (hsub.subset hs), h.ordered.sublist hsub⟩

/-- Two spans of a sorted list that share a cell are the same. -/
theorem Sorted.eq_of_mem {l : List (Span α)} (h : Sorted l) {s t : Span α} (hs : s ∈ l)
    (ht : t ∈ l) {i : ℕ} (hsi : s.pos ≤ i ∧ i < s.fin) (hti : t.pos ≤ i ∧ i < t.fin) : s = t := by
  induction l with
  | nil => cases hs
  | cons u l ih =>
    obtain ⟨-, hhead, hl⟩ := sorted_cons.1 h
    rcases List.mem_cons.1 hs with rfl | hs'
    · rcases List.mem_cons.1 ht with rfl | ht'
      · rfl
      · have := hhead t ht'
        omega
    · rcases List.mem_cons.1 ht with rfl | ht'
      · have := hhead s hs'
        omega
      · exact ih hl hs' ht'

/-- A span fits between two lists. -/
theorem sorted_splice {l m : List (Span α)} {s : Span α} (hl : Sorted l) (hm : Sorted m)
    (hs : s.data ≠ []) (hls : ∀ t ∈ l, t.fin ≤ s.pos) (hsm : ∀ t ∈ m, s.fin ≤ t.pos) :
    Sorted (l ++ s :: m) := by
  have hsfin : s.pos ≤ s.fin := Nat.le_add_right _ _
  refine ⟨?_, List.pairwise_append.2 ⟨hl.ordered, ?_, ?_⟩⟩
  · intro t ht
    rcases List.mem_append.1 ht with ht | ht
    · exact hl.nonempty t ht
    · rcases List.mem_cons.1 ht with rfl | ht
      · exact hs
      · exact hm.nonempty t ht
  · exact (sorted_cons.2 ⟨hs, hsm, hm⟩).ordered
  · intro t ht u hu
    have htop := hls t ht
    rcases List.mem_cons.1 hu with rfl | hu
    · exact htop
    · exact (htop.trans hsfin).trans (hsm u hu)

theorem sorted_append {l m : List (Span α)} (hl : Sorted l) (hm : Sorted m) {b : ℕ}
    (hlb : ∀ t ∈ l, t.fin ≤ b) (hmb : ∀ t ∈ m, b ≤ t.pos) : Sorted (l ++ m) := by
  refine ⟨?_, List.pairwise_append.2 ⟨hl.ordered, hm.ordered, ?_⟩⟩
  · intro t ht
    rcases List.mem_append.1 ht with ht | ht
    · exact hl.nonempty t ht
    · exact hm.nonempty t ht
  · exact fun t ht u hu => (hlb t ht).trans (hmb u hu)

/-! ### Cutting a list -/

/-- Forget the cells below `bound`. -/
def above (bound : ℕ) : List (Span α) → List (Span α)
  | [] => []
  | s :: l =>
    if s.pos < bound then
      if s.fin ≤ bound then above bound l else ⟨bound, s.data.drop (bound - s.pos)⟩ :: l
    else s :: l

/-- The spans at the front that end at `bound` at the latest. -/
def upTo (bound : ℕ) (l : List (Span α)) : List (Span α) := l.takeWhile fun s => s.fin ≤ bound

/-- The spans from the first one on that ends behind `bound`. -/
def beyond (bound : ℕ) (l : List (Span α)) : List (Span α) := l.dropWhile fun s => s.fin ≤ bound

section Cut

variable {l : List (Span α)} {bound : ℕ}

theorem upTo_append_beyond : upTo bound l ++ beyond bound l = l := List.takeWhile_append_dropWhile

theorem fin_le_of_mem_upTo {s : Span α} (hs : s ∈ upTo bound l) : s.fin ≤ bound := by
  have hfin := List.mem_takeWhile_imp (p := fun s : Span α => decide (s.fin ≤ bound)) hs
  exact of_decide_eq_true hfin

theorem Sorted.upTo (h : Sorted l) : Sorted (upTo bound l) := h.sublist (List.takeWhile_sublist _)

theorem Sorted.beyond (h : Sorted l) : Sorted (beyond bound l) :=
  h.sublist (List.dropWhile_sublist _)

theorem mem_of_mem_upTo {s : Span α} (hs : s ∈ upTo bound l) : s ∈ l := List.takeWhile_subset _ hs

theorem mem_of_mem_beyond {s : Span α} (hs : s ∈ beyond bound l) : s ∈ l :=
  List.dropWhile_subset _ hs

theorem lt_fin_of_mem_beyond (h : Sorted l) {s : Span α} (hs : s ∈ beyond bound l) :
    bound < s.fin := by
  unfold Spans.beyond at hs
  induction l with
  | nil => cases hs
  | cons t l ih =>
    obtain ⟨-, hhead, hl⟩ := sorted_cons.1 h
    rw [List.dropWhile_cons] at hs
    split_ifs at hs with ht
    · exact ih hl hs
    · have ht : bound < t.fin := by simpa using ht
      rcases List.mem_cons.1 hs with rfl | hs'
      · exact ht
      · have hpos := hl.pos_lt_fin hs'
        exact ht.trans ((hhead s hs').trans_lt hpos)

theorem mem_beyond {s : Span α} (hs : s ∈ l) (hfin : bound < s.fin) :
    s ∈ beyond bound l := by
  rw [← @upTo_append_beyond _ l bound] at hs
  rcases List.mem_append.1 hs with hs | hs
  · exact absurd (fin_le_of_mem_upTo hs) (by omega)
  · exact hs

theorem sorted_above (h : Sorted l) : Sorted (above bound l) := by
  induction l with
  | nil => exact sorted_nil
  | cons s l ih =>
    obtain ⟨-, hhead, hl⟩ := sorted_cons.1 h
    unfold above
    split_ifs with hlow hgone
    · exact ih hl
    · have hlen : s.pos + s.data.length = s.fin := rfl
      refine sorted_cons.2 ⟨?_, fun t ht => ?_, hl⟩
      · rw [Ne, List.drop_eq_nil_iff]
        omega
      · have := hhead t ht
        simp only [Span.fin, List.length_drop] at this ⊢
        omega
    · exact h

theorem le_pos_of_mem_above (h : Sorted l) {s : Span α} (hs : s ∈ above bound l) :
    bound ≤ s.pos := by
  induction l with
  | nil => cases hs
  | cons t l ih =>
    obtain ⟨-, hhead, hl⟩ := sorted_cons.1 h
    have htfin : t.pos ≤ t.fin := Nat.le_add_right _ _
    unfold above at hs
    split_ifs at hs with hlow hgone
    · exact ih hl hs
    · rcases List.mem_cons.1 hs with rfl | hs'
      · exact le_rfl
      · have := hhead s hs'
        omega
    · rcases List.mem_cons.1 hs with rfl | hs'
      · omega
      · have := hhead s hs'
        omega

/-- The ends of the spans that are left are ends of old ones. -/
theorem fin_of_mem_above {s : Span α} (hs : s ∈ above bound l) :
    ∃ t ∈ l, s.fin = t.fin ∧ t.pos ≤ s.pos := by
  induction l with
  | nil => cases hs
  | cons t l ih =>
    unfold above at hs
    split_ifs at hs with hlow hgone
    · obtain ⟨u, hu, hfin⟩ := ih hs
      exact ⟨u, List.mem_cons_of_mem _ hu, hfin⟩
    · rcases List.mem_cons.1 hs with rfl | hs'
      · refine ⟨t, List.mem_cons_self, ?_, hlow.le⟩
        simp only [Span.fin, List.length_drop] at hgone ⊢
        omega
      · exact ⟨s, List.mem_cons_of_mem _ hs', rfl, le_rfl⟩
    · exact ⟨s, hs, rfl, le_rfl⟩

/-- **Forgetting the cells below a bound** leaves exactly the others. -/
theorem holds_above (h : Sorted l) {i : ℕ} {a : α} :
    Holds (above bound l) i a ↔ bound ≤ i ∧ Holds l i a := by
  induction l with
  | nil => simp [above]
  | cons s l ih =>
    obtain ⟨-, hhead, hl⟩ := sorted_cons.1 h
    -- what is behind the first span is above its end
    have hrest : Holds l i a → s.fin ≤ i := by
      rintro ⟨t, ht, hta⟩
      exact (hhead t ht).trans (Span.bounds_of_at? hta).1
    unfold above
    split_ifs with hlow hgone
    · rw [ih hl, holds_cons]
      refine and_congr_right fun hi => ?_
      rw [or_iff_right]
      intro hsa
      have := Span.bounds_of_at? hsa
      omega
    · have hcut := s.at?_drop (bound - s.pos) i
      rw [Nat.add_sub_cancel' hlow.le] at hcut
      rw [holds_cons, holds_cons, hcut]
      split_ifs with hi
      · simp [hi]
      · have : ¬ Holds l i a := fun hla => by
          have := hrest hla
          omega
        simp [hi, this]
    · rw [holds_cons]
      constructor
      · intro hla
        refine ⟨?_, hla⟩
        rcases hla with hsa | hla
        · have := Span.bounds_of_at? hsa
          omega
        · have := hrest hla
          have : s.pos ≤ s.fin := Nat.le_add_right _ _
          omega
      · exact And.right

end Cut

/-! ### Counting cells -/

section Count

variable {l : List (Span α)} {s : Span α} {i : ℕ}

/-- Some span holds the cell. -/
def known (l : List (Span α)) (i : ℕ) : Bool := l.any fun s => decide (s.pos ≤ i ∧ i < s.fin)

theorem known_iff_mem : known l i = true ↔ ∃ s ∈ l, s.pos ≤ i ∧ i < s.fin := by
  simp [known]

theorem known_iff : known l i = true ↔ ∃ a, Holds l i a := by
  rw [known_iff_mem]
  constructor
  · rintro ⟨s, hs, hpos, hfin⟩
    obtain ⟨a, ha⟩ := Span.exists_at? hpos hfin
    exact ⟨a, s, hs, ha⟩
  · rintro ⟨a, s, hs, ha⟩
    exact ⟨s, hs, Span.bounds_of_at? ha⟩

theorem known_cons : known (s :: l) i = true ↔ (s.pos ≤ i ∧ i < s.fin) ∨ known l i = true := by
  simp [known]

/-- **What a list loses when it is cut** are the cells below the cut. -/
theorem total_above_add_card (h : Sorted l) {a e : ℕ} (hpos : ∀ t ∈ l, a ≤ t.pos) :
    total (above e l) + ((Finset.Ico a e).filter fun i => known l i = true).card = total l := by
  induction l generalizing a with
  | nil => simp [known, above]
  | cons s l ih =>
    obtain ⟨-, hhead, hl⟩ := sorted_cons.1 h
    have hs := hpos s List.mem_cons_self
    have hlt := h.pos_lt_fin List.mem_cons_self
    have hlen : s.pos + s.data.length = s.fin := rfl
    -- what is behind the first span is above its end
    have hrest : ∀ i, known l i = true → s.fin ≤ i := by
      intro i hi
      obtain ⟨t, ht, hti, -⟩ := known_iff_mem.1 hi
      exact (hhead t ht).trans hti
    unfold above
    split_ifs with hlow hgone
    · have hsplit : ((Finset.Ico a e).filter fun i => known (s :: l) i = true) =
          Finset.Ico s.pos s.fin ∪ (Finset.Ico s.fin e).filter fun i => known l i = true := by
        ext i
        simp only [Finset.mem_filter, Finset.mem_union, Finset.mem_Ico, known_cons]
        by_cases hi : known l i = true
        · have := hrest i hi
          simp only [hi, or_true, and_true]
          omega
        · simp only [hi, or_false, and_false, Bool.false_eq_true]
          omega
      have hdisjoint : Disjoint (Finset.Ico s.pos s.fin)
          ((Finset.Ico s.fin e).filter fun i => known l i = true) := by
        rw [Finset.disjoint_left]
        intro i hi hi'
        simp only [Finset.mem_filter, Finset.mem_Ico] at hi hi'
        omega
      have hih := ih hl hhead
      rw [hsplit, Finset.card_union_of_disjoint hdisjoint, Nat.card_Ico, total_cons]
      omega
    · have hsplit : ((Finset.Ico a e).filter fun i => known (s :: l) i = true) =
          Finset.Ico s.pos e := by
        ext i
        simp only [Finset.mem_filter, Finset.mem_Ico, known_cons]
        by_cases hi : known l i = true
        · have := hrest i hi
          simp only [hi, or_true, and_true]
          omega
        · simp only [hi, or_false, Bool.false_eq_true]
          omega
      rw [hsplit, Nat.card_Ico, total_cons, total_cons, List.length_drop]
      omega
    · have hnone : ((Finset.Ico a e).filter fun i => known (s :: l) i = true) = ∅ := by
        ext i
        simp only [Finset.mem_filter, Finset.mem_Ico, known_cons, Finset.notMem_empty, iff_false]
        rintro ⟨hi, hin | hknown⟩
        · omega
        · have := hrest i hknown
          omega
      rw [hnone, Finset.card_empty, Nat.add_zero]

end Count

end Spans
