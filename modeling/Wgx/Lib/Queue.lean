import Wgx.Lib.Linked

/-!
# Queues of linked cells

A queue is a list in a heap with a pointer to its last cell, and a flag that asks for it to be
served.  The links are in the cells, so that a cell can be on one queue only.

* `push`, `unlink` and `detach` are the operations, with the loops that follow links;
* `Queue.Holds q l`: the cells of the queue are those of `l`, and everything agrees with that.
-/

namespace Linked

variable {α : Type*}

/-- A queue: the links of the heap, the pointers to the first and the last cell, and whether it is
to be served. -/
structure Queue (α : Type*) where
  next : α → Option α
  head : Option α
  tail : Option α
  armed : Bool

/-- The link that points to `a`, from the link in `prev` on, whose value is `p`; the link `none` is
the pointer to the first cell.  `none` if no link within `k` points to `a`. -/
def seek [DecidableEq α] (next : α → Option α) (a : α) :
    ℕ → Option α → Option α → Option (Option α)
  | 0, _, _ => none
  | k + 1, prev, p =>
    match p with
    | none => none
    | some b => if b = a then some prev else seek next a k (some b) (next b)

namespace Queue

/-- No cell. -/
def empty : Queue α := ⟨fun _ => none, none, none, false⟩

/-- The whole list is taken off. -/
def detach (q : Queue α) : Queue α := { q with head := none, tail := none, armed := false }

section Operations

variable [DecidableEq α]

/-- Write the link of a cell. -/
def setNext (a : α) (p : Option α) (q : Queue α) : Queue α :=
  { q with next := Function.update q.next a p }

/-- Write a link, which may be the pointer to the first cell. -/
def store (prev p : Option α) (q : Queue α) : Queue α :=
  match prev with
  | none => { q with head := p }
  | some b => q.setNext b p

/-- A new last cell. -/
def push (a : α) (q : Queue α) : Queue α :=
  let q := q.setNext a none
  { q.store q.tail (some a) with tail := some a, armed := true }

/-- The pointer to the last cell is cleared if it points to `a`. -/
def forget (a : α) (q : Queue α) : Queue α := if q.tail = some a then { q with tail := none } else q

/-- A cell has gone: without any, the queue is not served, and without a last one, the list is
followed to its end. -/
def retail (k : ℕ) (q : Queue α) : Queue α :=
  match q.head with
  | none => { q with armed := false }
  | some b => if q.tail = none then { q with tail := lastCell q.next k b } else q

/-- A cell is taken off, where no list has more than `k` cells. -/
def unlink (k : ℕ) (a : α) (q : Queue α) : Queue α :=
  let q :=
    match seek q.next a k none q.head with
    | none => q
    | some prev => ((q.store prev (q.next a)).forget a).retail k
  q.setNext a none

end Operations

/-- The cells of the queue are those of `l`, each once; `tail` is the last one, and a queue with
cells is served. -/
structure Holds (q : Queue α) (l : List α) : Prop where
  chain : Chain q.next q.head l
  nodup : l.Nodup
  tail_eq : q.tail = l.getLast?
  armed : l ≠ [] → q.armed = true

theorem holds_empty : (empty : Queue α).Holds [] :=
  ⟨rfl, List.nodup_nil, rfl, fun h => absurd rfl h⟩

theorem Holds.unique {q : Queue α} {l l' : List α} (h : q.Holds l) (h' : q.Holds l') : l = l' :=
  h.chain.unique h'.chain

section Operations

variable [DecidableEq α] {q : Queue α} {l l₁ l₂ : List α} {a : α} {k : ℕ}

theorem seek_eq_none {next : α → Option α} {p : Option α} (h : Chain next p l) (ha : a ∉ l)
    (prev : Option α) : seek next a k prev p = none := by
  induction k generalizing p l prev with
  | zero => rfl
  | succ k ih =>
    cases l with
    | nil => rw [show p = none from h]; rfl
    | cons b l =>
      rw [List.mem_cons, not_or] at ha
      rw [h.1, seek, if_neg (Ne.symm ha.1)]
      exact ih h.2 ha.2 (some b)

theorem seek_eq_some {next : α → Option α} {p : Option α} (h : Chain next p (l₁ ++ a :: l₂))
    (ha : a ∉ l₁) (hk : l₁.length < k) (prev : Option α) :
    seek next a k prev p = some (l₁.getLast?.or prev) := by
  induction k generalizing p l₁ prev with
  | zero => omega
  | succ k ih =>
    cases l₁ with
    | nil => rw [h.1, seek, if_pos rfl]; rfl
    | cons b l₁ =>
      rw [List.mem_cons, not_or] at ha
      rw [h.1, seek, if_neg (Ne.symm ha.1), ih h.2 ha.2 (Nat.lt_of_succ_lt_succ hk)]
      cases l₁ with
      | nil => rfl
      | cons c l₁ => rw [List.getLast?_cons_cons, List.getLast?_cons]; rfl

/-- Writing the link of a cell that is not on the queue leaves it. -/
theorem Holds.setNext (h : q.Holds l) (ha : a ∉ l) (p : Option α) : (q.setNext a p).Holds l :=
  ⟨h.chain.update ha, h.nodup, h.tail_eq, h.armed⟩

theorem Holds.push (h : q.Holds l) (ha : a ∉ l) : (q.push a).Holds (l ++ [a]) := by
  refine ⟨?_, ?_, ?_, fun _ => rfl⟩
  · have hq := (h.setNext ha none).chain
    have hself : (q.setNext a none).next a = none := Function.update_self ..
    rcases List.eq_nil_or_concat' l with rfl | ⟨front, b, rfl⟩
    · have htail : (q.setNext a none).tail = none := h.tail_eq
      unfold Queue.push
      dsimp only
      rw [htail]
      exact ⟨rfl, hself⟩
    · have htail : (q.setNext a none).tail = some b := by
        rw [show (q.setNext a none).tail = q.tail from rfl, h.tail_eq, List.getLast?_concat]
      have hb : b ∉ front := fun hb =>
        (List.nodup_append.1 h.nodup).2.2 b hb b (List.mem_singleton_self b) rfl
      have hne : a ≠ b := by
        rintro rfl
        exact ha (List.mem_append_right _ (List.mem_singleton_self a))
      unfold Queue.push
      dsimp only
      rw [htail, List.append_assoc]
      refine hq.splice hb (show Chain _ (some a) [a] from ⟨rfl, hself⟩) ?_
      exact fun h => hne (List.mem_singleton.1 h).symm
  · rw [List.nodup_append]
    refine ⟨h.nodup, List.nodup_singleton a, fun b hb c hc => ?_⟩
    rw [List.mem_singleton] at hc
    rintro rfl
    exact ha (hc ▸ hb)
  · rw [List.getLast?_concat]
    rfl

theorem frame_retail (k : ℕ) (a : α) (q : Queue α) :
    ((q.forget a).retail k).next = q.next ∧ ((q.forget a).retail k).head = q.head := by
  obtain ⟨next, head, tail, armed⟩ := q
  unfold forget
  cases head with
  | none => split_ifs <;> exact ⟨rfl, rfl⟩
  | some b => cases tail <;> split_ifs <;> exact ⟨rfl, rfl⟩

theorem armed_retail (hhead : q.head ≠ none) : ((q.forget a).retail k).armed = q.armed := by
  obtain ⟨next, head, tail, armed⟩ := q
  unfold forget
  cases head with
  | none => exact absurd rfl hhead
  | some b => cases tail <;> split_ifs <;> rfl

/-- The last cell was taken off: the list is followed to its end. -/
theorem tail_retail (htail : q.tail = some a) :
    ((q.forget a).retail k).tail = q.head.bind (lastCell q.next k) := by
  obtain ⟨next, head, tail, armed⟩ := q
  unfold forget
  rw [if_pos htail]
  cases head <;> rfl

/-- Another cell was taken off: the last one stays. -/
theorem tail_retail_of_ne {b : α} (htail : q.tail = some b) (hne : b ≠ a) :
    ((q.forget a).retail k).tail = some b := by
  obtain ⟨next, head, tail, armed⟩ := q
  obtain rfl : tail = some b := htail
  unfold forget
  rw [if_neg (fun h => hne (Option.some.inj h))]
  cases head <;> rfl

/-- The queue holds what is left when a cell was taken off its list. -/
theorem holds_retail (hchain : Chain q.next q.head (l₁ ++ l₂)) (hnodup : (l₁ ++ a :: l₂).Nodup)
    (htail : q.tail = (l₁ ++ a :: l₂).getLast?) (harmed : q.armed = true)
    (hk : (l₁ ++ l₂).length ≤ k) : ((q.forget a).retail k).Holds (l₁ ++ l₂) := by
  have hsub := List.nodup_cons.1 (List.nodup_middle.1 hnodup)
  refine ⟨?_, hsub.2, ?_, fun hne => ?_⟩
  · rw [(frame_retail k a q).1, (frame_retail k a q).2]
    exact hchain
  · rcases List.eq_nil_or_concat' l₂ with rfl | ⟨front, b, rfl⟩
    · rw [List.append_nil] at hchain hk ⊢
      rw [tail_retail (htail.trans List.getLast?_concat)]
      cases l₁ with
      | nil => rw [hchain.eq_head?]; rfl
      | cons c l₁ =>
        have hhead : q.head = some c := hchain.eq_head?
        rw [hhead] at hchain ⊢
        obtain ⟨front, b, hsplit, hlast⟩ := hchain.lastCell (k := k) hk
        rw [hsplit, List.getLast?_concat]
        exact hlast
    · have hb : b ≠ a := by
        rintro rfl
        exact hsub.1 (List.mem_append_right _ (List.mem_append_right _ (List.mem_singleton_self b)))
      rw [← List.append_assoc, List.getLast?_concat]
      refine tail_retail_of_ne (htail.trans ?_) hb
      rw [← List.cons_append, ← List.append_assoc, List.getLast?_concat]
  · rw [armed_retail, harmed]
    rw [hchain.eq_head?]
    exact fun h => hne (List.head?_eq_none_iff.1 h)

theorem Holds.unlink (h : q.Holds l) (hk : l.length ≤ k) : (q.unlink k a).Holds (l.erase a) := by
  by_cases ha : a ∈ l
  · obtain ⟨l₁, l₂, rfl, ha₁⟩ := List.eq_append_cons_of_mem ha
    have ha₂ : a ∉ l₂ := (List.nodup_cons.1 (List.nodup_append.1 h.nodup).2.1).1
    have hlen : l₁.length + (l₂.length + 1) ≤ k := by
      rwa [List.length_append, List.length_cons] at hk
    have hseek : seek q.next a k none q.head = some l₁.getLast? := by
      rw [seek_eq_some h.chain ha₁ (by omega), Option.or_none]
    rw [List.erase_append_right _ ha₁, List.erase_cons_head]
    unfold Queue.unlink
    rw [hseek]
    refine Holds.setNext ?_ (by rw [List.mem_append, not_or]; exact ⟨ha₁, ha₂⟩) none
    have hrest : Chain q.next (q.next a) l₂ := h.chain.tail
    have harmed : q.armed = true := h.armed (List.append_ne_nil_of_right_ne_nil _ (by simp))
    have hshort : (l₁ ++ l₂).length ≤ k := by
      rw [List.length_append]
      omega
    -- the link to the cell is the pointer to the first one, or that of the cell before
    rcases List.eq_nil_or_concat' l₁ with rfl | ⟨front, b, rfl⟩
    · exact holds_retail hrest h.nodup h.tail_eq harmed hshort
    · rw [List.getLast?_concat]
      have hparts := List.nodup_append.1 h.nodup
      have hb : b ∉ front := fun hb =>
        (List.nodup_append.1 hparts.1).2.2 b hb b (List.mem_singleton_self b) rfl
      have hb₂ : b ∉ l₂ := fun hb₂ =>
        hparts.2.2 b (List.mem_append_right _ (List.mem_singleton_self b)) b
          (List.mem_cons_of_mem a hb₂) rfl
      refine holds_retail ?_ h.nodup h.tail_eq harmed hshort
      rw [List.append_assoc]
      have hchain : Chain q.next q.head (front ++ b :: (a :: l₂)) := by
        have hwhole := h.chain
        rwa [List.append_assoc] at hwhole
      exact hchain.splice hb hrest hb₂
  · unfold Queue.unlink
    rw [seek_eq_none h.chain ha, List.erase_of_not_mem ha]
    exact h.setNext ha none

end Operations

end Queue

end Linked
