import Wgx.Tcp.OutOfOrder

/-!
# What a buffered segment adds

`tcp_ooo_queue` is meant to add the bytes of a segment to those that are buffered.

* `Conn.buffered`, `Conn.freshBytes`: the buffered bytes, and those of a segment that are not among
  them;
* `addsFresh_inserted_iff`: when the splice of `tcp_ooo_queue` is the union, in positions;
* `losesNothing_iff`: when the call loses nothing.
-/

namespace Wgx

open Spans

/-! ### In positions -/

section Positions

variable {l : List (Span Byte)} {s : Span Byte} {malloc : ℕ → Bool}

/-- How many cells of a span no other holds. -/
def freshCells (l : List (Span Byte)) (s : Span Byte) : ℕ :=
  ((Finset.Ico s.pos s.fin).filter fun i => ¬ known l i = true).card

/-- The list `l'` holds what `l` holds and what is new of the span, if there is room for it; else
what `l` holds. -/
def AddsFresh (l l' : List (Span Byte)) (s : Span Byte) : Prop :=
  ∀ i b, Spans.Holds l' i b ↔
    if total l + freshCells l s ≤ wgTcpRecvOooSize then
      Spans.Holds l i b ∨ s.at? i = some b ∧ ∀ c, ¬ Spans.Holds l i c
    else Spans.Holds l i b

/-- A span that begins at or before `s` and reaches into it covers it to its end; and where one
begins inside, there is room and both say the same. -/
def Undisturbed (l : List (Span Byte)) (s : Span Byte) : Prop :=
  (∀ t ∈ l, t.pos ≤ s.pos → s.pos < t.fin → s.fin ≤ t.fin) ∧
    ∀ t ∈ l, s.pos < t.pos → t.pos < s.fin →
      total l + freshCells l s ≤ wgTcpRecvOooSize ∧
        ∀ i b, t.at? i = some b → i < s.fin → s.at? i = some b

/-- The three ways in which a span meets the list. -/
theorem freshPart_cases (h : Sorted l) (s : Span Byte) :
    (∃ cur ∈ l, cur.pos ≤ s.pos ∧ s.pos < cur.fin ∧ s.fin ≤ cur.fin ∧
      freshPart s (beyond s.pos l) = none) ∨
    (∃ cur ∈ l, cur.pos ≤ s.pos ∧ s.pos < cur.fin ∧ cur.fin < s.fin ∧
      freshPart s (beyond s.pos l) = some ⟨cur.fin, s.data.drop (cur.fin - s.pos)⟩) ∨
    (∀ t ∈ beyond s.pos l, s.pos < t.pos) ∧ freshPart s (beyond s.pos l) = some s := by
  have hsorted : Sorted (beyond s.pos l) := h.beyond
  have hbehind : ∀ t ∈ beyond s.pos l, t ∈ l ∧ s.pos < t.fin := fun t ht =>
    ⟨mem_of_mem_beyond ht, lt_fin_of_mem_beyond h ht⟩
  cases hlist : beyond s.pos l with
  | nil => exact Or.inr (Or.inr ⟨by simp, rfl⟩)
  | cons cur rest =>
    rw [hlist] at hsorted hbehind
    obtain ⟨hmem, hfin⟩ := hbehind cur List.mem_cons_self
    obtain ⟨-, hhead, -⟩ := sorted_cons.1 hsorted
    have hlt : cur.pos < cur.fin := h.pos_lt_fin hmem
    simp only [freshPart]
    split_ifs with hcover hall
    · exact Or.inl ⟨cur, hmem, hcover, hfin, hall, rfl⟩
    · exact Or.inr (Or.inl ⟨cur, hmem, hcover, hfin, not_le.1 hall, rfl⟩)
    · refine Or.inr (Or.inr ⟨fun t ht => ?_, rfl⟩)
      rcases List.mem_cons.1 ht with rfl | ht
      · exact not_le.1 hcover
      · exact (not_le.1 hcover).trans (hlt.trans_le (hhead t ht))

theorem holds_split (s : Span Byte) {i : ℕ} {b : Byte} :
    Spans.Holds l i b ↔ Spans.Holds (upTo s.pos l) i b ∨ Spans.Holds (beyond s.pos l) i b := by
  rw [← holds_append, upTo_append_beyond]

/-- A span that is covered adds nothing. -/
theorem addsFresh_covered {cur : Span Byte} (hcur : cur ∈ l) (hpos : cur.pos ≤ s.pos)
    (hfin : s.fin ≤ cur.fin) : AddsFresh l l s := by
  intro i b
  have hnone : ¬ (s.at? i = some b ∧ ∀ c, ¬ Spans.Holds l i c) := by
    rintro ⟨hs, hfree⟩
    obtain ⟨hlo, hhi⟩ := Span.bounds_of_at? hs
    obtain ⟨c, hc⟩ := @Span.exists_at? _ cur i (by omega) (by omega)
    exact hfree c ⟨cur, hcur, hc⟩
  split_ifs
  · rw [or_iff_left hnone]
  · rfl

/-- A span that ends inside the new one is forgotten. -/
theorem not_addsFresh_of_overlap {cur new : Span Byte} (h : Sorted l) (hcur : cur ∈ l)
    (hlo : s.pos < cur.fin) (hhi : cur.fin < s.fin)
    (hnew : cur.fin ≤ new.pos ∧ new.fin = s.fin) {l' : List (Span Byte)}
    (hl' : ∀ t ∈ l', t ∈ upTo s.pos l ∨ t = new ∨ t ∈ above new.fin (beyond s.pos l)) :
    ¬ AddsFresh l l' s := by
  intro hadds
  have hlt := h.pos_lt_fin hcur
  obtain ⟨b, hb⟩ := Span.exists_at? le_rfl hlt
  have hold : Spans.Holds l cur.pos b := ⟨cur, hcur, hb⟩
  have hnone : ¬ Spans.Holds l' cur.pos b := by
    rintro ⟨t, ht, htb⟩
    have hbounds := Span.bounds_of_at? htb
    rcases hl' t ht with hfront | rfl | hbehind
    · -- what ends before the new span is not the one that reaches into it
      have hfin := fin_le_of_mem_upTo hfront
      have heq := h.eq_of_mem (mem_of_mem_upTo hfront) hcur hbounds ⟨le_rfl, hlt⟩
      rw [heq] at hfin
      omega
    · omega
    · have := le_pos_of_mem_above h.beyond hbehind
      omega
  have hiff := hadds cur.pos b
  split_ifs at hiff
  · exact hnone (hiff.2 (Or.inl hold))
  · exact hnone (hiff.2 hold)

/-- Where nothing reaches into the span from below, what is left of the list and the span together
count what is held and what is new. -/
theorem total_splice (h : Sorted l) (hinside : ∀ t ∈ beyond s.pos l, s.pos < t.pos) :
    total (upTo s.pos l) + total (above s.fin (beyond s.pos l)) + s.data.length =
      total l + freshCells l s := by
  have hsplit : total (upTo s.pos l) + total (beyond s.pos l) = total l := by
    rw [← total_append, upTo_append_beyond]
  have hcut := @total_above_add_card _ _ h.beyond s.pos s.fin fun t ht => (hinside t ht).le
  have hknown : ((Finset.Ico s.pos s.fin).filter fun i => known (beyond s.pos l) i = true) =
      (Finset.Ico s.pos s.fin).filter fun i => known l i = true := by
    apply Finset.filter_congr
    intro i hi
    rw [known_iff, known_iff]
    refine exists_congr fun a => ?_
    rw [@holds_split l s, or_iff_right]
    rintro ⟨t, ht, hta⟩
    have := fin_le_of_mem_upTo ht
    have := Span.bounds_of_at? hta
    have := (Finset.mem_Ico.1 hi).1
    omega
  rw [hknown] at hcut
  have hcount := Finset.card_filter_add_card_filter_not (s := Finset.Ico s.pos s.fin)
    (fun i => known l i = true)
  rw [Nat.card_Ico, Span.fin] at hcount
  have hfresh : freshCells l s =
      ((Finset.Ico s.pos s.fin).filter fun i => ¬ known l i = true).card := rfl
  rw [Span.fin] at hfresh hcut ⊢
  omega

/-- What is held once the span is spliced in. -/
theorem holds_splice (h : Sorted l) {i : ℕ} {b : Byte} :
    Spans.Holds (upTo s.pos l ++ s :: above s.fin (beyond s.pos l)) i b ↔
      Spans.Holds (upTo s.pos l) i b ∨ s.at? i = some b ∨ s.fin ≤ i ∧ Spans.Holds (beyond s.pos l) i b := by
  rw [holds_append, holds_cons, holds_above h.beyond]

/-- If the span is spliced in, the list adds what is new exactly if the spans that begin inside say
the same. -/
theorem addsFresh_splice_iff (h : Sorted l) (hinside : ∀ t ∈ beyond s.pos l, s.pos < t.pos)
    (hfits : total l + freshCells l s ≤ wgTcpRecvOooSize) :
    AddsFresh l (upTo s.pos l ++ s :: above s.fin (beyond s.pos l)) s ↔
      ∀ t ∈ l, s.pos < t.pos → t.pos < s.fin →
        ∀ i b, t.at? i = some b → i < s.fin → s.at? i = some b := by
  unfold AddsFresh
  simp only [if_pos hfits, holds_splice h]
  constructor
  · intro hadds t ht hpos _ i b hb hi
    have hbounds := Span.bounds_of_at? hb
    rcases (hadds i b).2 (Or.inl ⟨t, ht, hb⟩) with ⟨u, hu, hub⟩ | hs | ⟨hle, -⟩
    · have hfin := fin_le_of_mem_upTo hu
      have := Span.bounds_of_at? hub
      omega
    · exact hs
    · omega
  · intro hagree i b
    -- a span that holds a cell of the new one begins inside
    have hsame : ∀ c, Spans.Holds (beyond s.pos l) i c → i < s.fin → s.at? i = some c := by
      rintro c ⟨t, ht, htc⟩ hi
      have hbounds := Span.bounds_of_at? htc
      exact hagree t (mem_of_mem_beyond ht) (hinside t ht) (by omega) i c htc hi
    constructor
    · rintro (hfront | hs | ⟨-, hbehind⟩)
      · exact Or.inl ((holds_split s).2 (Or.inl hfront))
      · by_cases hfree : ∀ c, ¬ Spans.Holds l i c
        · exact Or.inr ⟨hs, hfree⟩
        · push Not at hfree
          obtain ⟨c, hc⟩ := hfree
          refine Or.inl ?_
          rcases (holds_split s).1 hc with ⟨t, ht, htc⟩ | hbehind
          · have hfin := fin_le_of_mem_upTo ht
            have := Span.bounds_of_at? htc
            have := Span.bounds_of_at? hs
            omega
          · have hsc := hsame c hbehind (Span.bounds_of_at? hs).2
            rw [hs] at hsc
            cases hsc
            exact hc
      · exact Or.inl ((holds_split s).2 (Or.inr hbehind))
    · rintro (hold | ⟨hs, -⟩)
      · rcases (holds_split s).1 hold with hfront | hbehind
        · exact Or.inl hfront
        · rcases Nat.lt_or_ge i s.fin with hi | hi
          · exact Or.inr (Or.inl (hsame b hbehind hi))
          · exact Or.inr (Or.inr ⟨hi, hbehind⟩)
      · exact Or.inr (Or.inl hs)

/-- If there is no room for the span, nothing is lost exactly if no other begins inside. -/
theorem addsFresh_cut_iff (h : Sorted l) (hinside : ∀ t ∈ beyond s.pos l, s.pos < t.pos)
    (hfull : ¬ total l + freshCells l s ≤ wgTcpRecvOooSize) :
    AddsFresh l (upTo s.pos l ++ above s.fin (beyond s.pos l)) s ↔
      ∀ t ∈ l, s.pos < t.pos → ¬ t.pos < s.fin := by
  unfold AddsFresh
  simp only [if_neg hfull, holds_append, holds_above h.beyond]
  constructor
  · intro hadds t ht hpos hlt
    have htop := h.pos_lt_fin ht
    obtain ⟨b, hb⟩ := Span.exists_at? le_rfl htop
    rcases (hadds t.pos b).2 ⟨t, ht, hb⟩ with ⟨u, hu, hub⟩ | ⟨hle, -⟩
    · have hfin := fin_le_of_mem_upTo hu
      have := Span.bounds_of_at? hub
      omega
    · omega
  · intro hnone i b
    rw [@holds_split l s]
    refine or_congr_right ⟨And.right, fun hbehind => ⟨?_, hbehind⟩⟩
    obtain ⟨t, ht, htb⟩ := hbehind
    have := hnone t (mem_of_mem_beyond ht) (hinside t ht)
    have := Span.bounds_of_at? htb
    omega

/-- **When the splice is the union.** -/
theorem addsFresh_inserted_iff (h : Sorted l) (hmalloc : ∀ size, malloc size = true) :
    AddsFresh l (inserted malloc s l) s ↔ Undisturbed l s := by
  unfold inserted Undisturbed
  rcases freshPart_cases h s with ⟨cur, hcur, hpos, hlo, hhi, hfresh⟩ |
    ⟨cur, hcur, hpos, hlo, hhi, hfresh⟩ | ⟨hinside, hfresh⟩
  · -- the span is covered
    rw [hfresh]
    refine iff_of_true (addsFresh_covered hcur hpos hhi) ⟨fun t ht htpos htfin => ?_,
      fun t ht htpos htfin => ?_⟩
    · rw [h.eq_of_mem ht hcur ⟨htpos, htfin⟩ ⟨hpos, hlo⟩]
      exact hhi
    · have htop := h.pos_lt_fin ht
      have heq := h.eq_of_mem ht hcur ⟨le_rfl, htop⟩ ⟨by omega, by omega⟩
      rw [heq] at htpos
      omega
  · -- another span reaches into it from below
    rw [hfresh]
    have hnew : (⟨cur.fin, s.data.drop (cur.fin - s.pos)⟩ : Span Byte).fin = s.fin := by
      simp only [Span.fin, List.length_drop] at hlo hhi ⊢
      omega
    simp only
    refine iff_of_false ?_ fun hok => absurd (hok.1 cur hcur hpos hlo) (by omega)
    refine not_addsFresh_of_overlap h hcur hlo hhi ⟨le_rfl, hnew⟩ ?_
    intro t ht
    split_ifs at ht
    · exact (List.mem_append.1 ht).imp_right Or.inr
    · exact (List.mem_append.1 ht).imp_right Or.inr
    · exact (List.mem_append.1 ht).imp_right List.mem_cons.1
  · -- nothing reaches into it from below
    rw [hfresh]
    simp only [total_splice h hinside, hmalloc, Bool.not_true, Bool.false_eq_true, if_false]
    have hbelow : ∀ t ∈ l, t.pos ≤ s.pos → ¬ s.pos < t.fin := fun t ht hpos hfin =>
      absurd (hinside t (mem_beyond ht hfin)) (by omega)
    rw [and_iff_right fun t ht hpos hfin => absurd hfin (hbelow t ht hpos)]
    by_cases hfits : total l + freshCells l s ≤ wgTcpRecvOooSize
    · rw [if_neg (by omega), addsFresh_splice_iff h hinside hfits]
      exact forall₄_congr fun t ht hpos hlt => (and_iff_right hfits).symm
    · rw [if_pos (by omega), addsFresh_cut_iff h hinside hfits]
      exact forall₃_congr fun t ht hpos =>
        ⟨fun hnone hlt => absurd hlt hnone, fun hok hlt => hfits (hok hlt).1⟩

end Positions

/-! ### Sequence numbers and bytes -/

/-- How far a sequence number is behind `rcv_nxt`. -/
def Conn.offset (conn : Conn) (q : Seq) : ℤ := (q - conn.rcvNxt).toInt

/-- A well-formed list: `rcv_ooo_len` counts the bytes, and the segments are not empty, lie behind
`rcv_nxt` within half the number space, and each ends before the next one begins. -/
structure Conn.OooList (conn : Conn) : Prop where
  len_eq : conn.rcvOooLen.toNat = oooTotal conn.rcvOoo
  nonempty : ∀ seg ∈ conn.rcvOoo, seg.data ≠ []
  inside : ∀ seg ∈ conn.rcvOoo,
    0 ≤ conn.offset seg.seq ∧ conn.offset seg.seq + seg.data.length < 2 ^ 31
  ordered : conn.rcvOoo.Pairwise fun seg seg' =>
    conn.offset seg.seq + seg.data.length ≤ conn.offset seg'.seq

/-- The byte of a segment at a sequence number. -/
def OooSeg.byteAt? (seg : OooSeg) (q : Seq) : Option Byte := seg.data[(q - seg.seq).toNat]?

/-- The buffered bytes, each with its sequence number. -/
def Conn.buffered (conn : Conn) : Set (Seq × Byte) :=
  {p | ∃ seg ∈ conn.rcvOoo, seg.byteAt? p.1 = some p.2}

/-- Some buffered segment holds the byte of a sequence number. -/
def Conn.isBuffered (conn : Conn) (q : Seq) : Bool :=
  conn.rcvOoo.any fun seg => (seg.byteAt? q).isSome

/-- Byte `i` of a segment that begins at `seq` does not lie before `rcv_nxt` and is not buffered. -/
def Conn.FreshAt (conn : Conn) (seq : Seq) (i : ℕ) : Prop :=
  0 ≤ conn.offset seq + i ∧ conn.isBuffered (seq + BitVec.ofNat 32 i) = false

instance (conn : Conn) (seq : Seq) (i : ℕ) : Decidable (conn.FreshAt seq i) :=
  inferInstanceAs (Decidable (_ ∧ _))

/-- The bytes of a segment from `rcv_nxt` on that are not buffered. -/
def Conn.freshBytes (conn : Conn) (seq : Seq) (data : List Byte) : Set (Seq × Byte) :=
  {p | ∃ i, data[i]? = some p.2 ∧ p.1 = seq + BitVec.ofNat 32 i ∧ conn.FreshAt seq i}

/-- How many bytes of a segment from `rcv_nxt` on are not buffered. -/
def Conn.freshCount (conn : Conn) (seq : Seq) (data : List Byte) : ℕ :=
  ((Finset.range data.length).filter fun i => conn.FreshAt seq i).card

/-- The buffered bytes and the new ones stay within `WG_TCP_RECV_OOO_SIZE`. -/
def Conn.OooFits (conn : Conn) (seq : Seq) (data : List Byte) : Prop :=
  conn.rcvOooLen.toNat + conn.freshCount seq data ≤ wgTcpRecvOooSize

/-- What buffering a segment is meant to do: the bytes that are new come to the buffered ones, if
they fit; else nothing changes. -/
def LosesNothing (env : TcpEnv) (conn : Conn) (seq : Seq) (data : List Byte) : Prop :=
  (conn.OooFits seq data →
    (tcpOooQueue env seq data conn).buffered = conn.buffered ∪ conn.freshBytes seq data) ∧
  (¬ conn.OooFits seq data → (tcpOooQueue env seq data conn).buffered = conn.buffered)

/-- When it does.  For a segment that ends within half the number space: a buffered segment that
begins at or before its first byte from `rcv_nxt` on and reaches beyond that reaches to its end; and where
one begins behind that byte and before the end, the new bytes fit and those of both are the same.  A
segment that ends farther off has nothing new that fits. -/
def Conn.Spares (conn : Conn) (seq : Seq) (data : List Byte) : Prop :=
  if conn.offset seq + data.length < 2 ^ 31 then
    (∀ seg ∈ conn.rcvOoo, conn.offset seg.seq ≤ max 0 (conn.offset seq) →
      max 0 (conn.offset seq) < conn.offset seg.seq + seg.data.length →
      conn.offset seq + data.length ≤ conn.offset seg.seq + seg.data.length) ∧
    ∀ seg ∈ conn.rcvOoo, max 0 (conn.offset seq) < conn.offset seg.seq →
      conn.offset seg.seq < conn.offset seq + data.length →
      conn.OooFits seq data ∧ ∀ (i : ℕ) (b : Byte), seg.data[i]? = some b →
        conn.offset seg.seq + i < conn.offset seq + data.length →
        data[(conn.offset seg.seq + i - conn.offset seq).toNat]? = some b
  else conn.OooFits seq data → conn.freshCount seq data = 0

section Bytes

variable {conn : Conn} {seq : Seq} {data : List Byte} {env : TcpEnv}

theorem offset_range (conn : Conn) (q : Seq) :
    -2 ^ 31 ≤ conn.offset q ∧ conn.offset q < 2 ^ 31 := by
  have hlo := BitVec.le_toInt (q - conn.rcvNxt)
  have hhi := BitVec.toInt_lt (x := q - conn.rcvNxt)
  exact ⟨hlo, hhi⟩

/-- A sequence number `i` behind `q`, counted from `rcv_nxt`. -/
theorem add_ofNat_eq {i j : ℕ} (h : (j : ℤ) = conn.offset seq + i) :
    seq + BitVec.ofNat 32 i = conn.rcvNxt + BitVec.ofNat 32 j := by
  have hseq : conn.rcvNxt + BitVec.ofInt 32 (conn.offset seq) = seq := by
    rw [Conn.offset, BitVec.ofInt_toInt, BitVec.add_comm, BitVec.sub_add_cancel]
  calc seq + BitVec.ofNat 32 i
      = conn.rcvNxt + BitVec.ofInt 32 (conn.offset seq) + BitVec.ofNat 32 i := by rw [hseq]
    _ = conn.rcvNxt + BitVec.ofInt 32 (j : ℤ) := by rw [Serial.add_ofInt_ofNat, h]
    _ = conn.rcvNxt + BitVec.ofNat 32 j := by rw [BitVec.ofInt_natCast]

theorem toNat_rcvNxt_add {j : ℕ} (hj : j < 2 ^ 32) :
    (conn.rcvNxt + BitVec.ofNat 32 j - conn.rcvNxt).toNat = j := by
  rw [BitVec.add_comm, BitVec.add_sub_cancel, BitVec.toNat_ofNat, Nat.mod_eq_of_lt hj]

/-- The span of a buffered segment, counted from `rcv_nxt`. -/
def Conn.spanOf (conn : Conn) (seg : OooSeg) : Span Byte := ⟨(conn.offset seg.seq).toNat, seg.data⟩

/-- The spans of the list. -/
def Conn.spans (conn : Conn) : List (Span Byte) := conn.rcvOoo.map conn.spanOf

theorem placed_spanOf {seg : OooSeg} (h : 0 ≤ conn.offset seg.seq) :
    placed conn.rcvNxt (conn.spanOf seg) = seg := by
  have hseq := @add_ofNat_eq conn seg.seq 0 (conn.offset seg.seq).toNat (by omega)
  rw [placed, Conn.spanOf]
  simp only
  rw [← hseq]
  simp

theorem buffers_of_oooList (h : conn.OooList) :
    conn.Buffers conn.rcvNxt conn.spans := by
  have hlist : conn.rcvOoo = conn.spans.map (placed conn.rcvNxt) := by
    rw [Conn.spans, List.map_map]
    conv_lhs => rw [← List.map_id conn.rcvOoo]
    apply List.map_congr_left
    intro seg hseg
    exact (placed_spanOf (h.inside seg hseg).1).symm
  refine ⟨hlist, ⟨?_, ?_⟩, ?_⟩
  · rw [Conn.spans, List.forall_mem_map]
    exact h.nonempty
  · rw [Conn.spans, List.pairwise_map]
    refine h.ordered.imp_of_mem fun {seg seg'} hseg hseg' hle => ?_
    have := h.inside seg hseg
    have := h.inside seg' hseg'
    simp only [Conn.spanOf, Span.fin]
    omega
  · rw [h.len_eq]
    conv_lhs => rw [hlist]
    exact oooTotal_placed _

/-- The byte of a placed span is that of the span. -/
theorem byteAt_placed {irs q : Seq} {t : Span Byte} (hfin : t.fin ≤ 2 ^ 31) :
    (placed irs t).byteAt? q = t.at? (q - irs).toNat := by
  have hlt : (q - irs).toNat < 2 ^ 32 := (q - irs).isLt
  have hq : q = irs + BitVec.ofNat 32 (q - irs).toNat := (Serial.add_ofNat_toNat_sub irs q).symm
  generalize (q - irs).toNat = j at hlt hq ⊢
  have hlen : t.pos + t.data.length = t.fin := rfl
  unfold OooSeg.byteAt? Span.at?
  rw [data_placed, seq_placed, hq]
  split_ifs with hpos
  · rw [Serial.toNat_sub hpos (by omega)]
  · rw [List.getElem?_eq_none]
    rw [Serial.add_sub_add, BitVec.toNat_sub, BitVec.toNat_ofNat, BitVec.toNat_ofNat]
    omega

theorem mem_buffered {irs q : Seq} {b : Byte} {m : List (Span Byte)}
    (hlist : conn.rcvOoo = m.map (placed irs)) (hfin : ∀ t ∈ m, t.fin ≤ 2 ^ 31) :
    (q, b) ∈ conn.buffered ↔ Spans.Holds m (q - irs).toNat b := by
  show (∃ seg ∈ conn.rcvOoo, seg.byteAt? q = some b) ↔ ∃ t ∈ m, t.at? _ = some b
  rw [hlist]
  constructor
  · rintro ⟨seg, hseg, hb⟩
    obtain ⟨t, ht, rfl⟩ := List.mem_map.1 hseg
    exact ⟨t, ht, (byteAt_placed (hfin t ht)).symm.trans hb⟩
  · rintro ⟨t, ht, hb⟩
    exact ⟨placed irs t, List.mem_map_of_mem ht, (byteAt_placed (hfin t ht)).trans hb⟩

theorem isBuffered_iff {q : Seq} : conn.isBuffered q = true ↔ ∃ b, (q, b) ∈ conn.buffered := by
  show (conn.rcvOoo.any fun seg => (seg.byteAt? q).isSome) = true ↔
    ∃ b, ∃ seg ∈ conn.rcvOoo, seg.byteAt? q = some b
  rw [List.any_eq_true]
  constructor
  · rintro ⟨seg, hseg, hsome⟩
    obtain ⟨b, hb⟩ := Option.isSome_iff_exists.1 hsome
    exact ⟨b, seg, hseg, hb⟩
  · rintro ⟨b, seg, hseg, hb⟩
    exact ⟨seg, hseg, by rw [hb]; rfl⟩

theorem offset_add (conn : Conn) (seq : Seq) (n : ℕ) :
    conn.offset (seq + BitVec.ofNat 32 n) = (conn.offset seq + n).bmod (2 ^ 32) := by
  have hseq : seq = conn.rcvNxt + BitVec.ofInt 32 (conn.offset seq) := by
    rw [Conn.offset, BitVec.ofInt_toInt, BitVec.add_comm, BitVec.sub_add_cancel]
  generalize conn.offset seq = o at hseq
  rw [hseq, Serial.add_ofInt_ofNat, Conn.offset, BitVec.add_comm, BitVec.add_sub_cancel,
    BitVec.toInt_ofInt]

/-- What `tcp_ooo_queue` makes of a segment: its part from `rcv_nxt` on. -/
def Conn.freshSpan (conn : Conn) (seq : Seq) (data : List Byte) : Span Byte :=
  ⟨(max 0 (conn.offset seq)).toNat, data.drop (max 0 (conn.offset seq) - conn.offset seq).toNat⟩

theorem fin_freshSpan (h : 0 ≤ conn.offset seq + data.length) :
    ((conn.freshSpan seq data).fin : ℤ) = conn.offset seq + data.length := by
  simp only [Conn.freshSpan, Span.fin, List.length_drop]
  omega

/-- A segment that ends before `rcv_nxt`, or half the number space behind it, is left. -/
theorem tcpOooQueue_of_outside (hdata : data.length < 2 ^ 31)
    (hout : conn.offset seq + data.length ≤ 0 ∨ 2 ^ 31 ≤ conn.offset seq + data.length) :
    tcpOooQueue env seq data conn = conn := by
  have hrange := offset_range conn seq
  have hle : seqLe (seq + BitVec.ofNat 32 data.length) conn.rcvNxt = true := by
    rw [seqLe, decide_eq_true_iff]
    refine (offset_add conn seq data.length).le.trans ?_
    simp only [Int.bmod]
    split_ifs <;> omega
  unfold tcpOooQueue
  rw [hle, if_pos rfl, ite_self]

/-- Any other one goes into the list, in positions. -/
theorem rcvOoo_tcpOooQueue (h : conn.OooList) (hpos : 0 < conn.offset seq + data.length)
    (hend : conn.offset seq + data.length < 2 ^ 31) (hdata : data ≠ []) :
    (tcpOooQueue env seq data conn).rcvOoo =
      (inserted env.malloc (conn.freshSpan seq data) conn.spans).map
        (placed conn.rcvNxt) := by
  have hrange := offset_range conn seq
  have hfin := fin_freshSpan hpos.le
  have hnear : ∀ j : ℕ, j < 2 ^ 31 → Near conn.spans j := by
    intro j hj
    unfold Near
    rw [Conn.spans, List.forall_mem_map]
    intro seg hseg
    have := h.inside seg hseg
    simp only [Conn.spanOf, Span.fin]
    omega
  have hle : (conn.freshSpan seq data).pos ≤ (conn.freshSpan seq data).fin := Nat.le_add_right _ _
  rw [← rcvOoo_oooInsert (buffers_of_oooList h) (hnear _ (by omega)) (hnear _ (by omega))]
  have hgt : ¬ seqLe (seq + BitVec.ofNat 32 data.length) conn.rcvNxt = true := by
    rw [seqLe, decide_eq_true_iff, not_le]
    refine lt_of_lt_of_eq ?_ (offset_add conn seq data.length).symm
    simp only [Int.bmod]
    split_ifs <;> omega
  unfold tcpOooQueue
  rw [if_neg (by rwa [List.length_eq_zero_iff]), if_neg hgt]
  by_cases hbefore : conn.offset seq < 0
  · -- what lies before `rcv_nxt` is dropped
    have hnext := @add_ofNat_eq conn seq (-conn.offset seq).toNat 0 (by omega)
    rw [BitVec.add_zero] at hnext
    have htrim : (conn.rcvNxt - seq).toNat = (-conn.offset seq).toNat := by
      rw [← hnext, BitVec.add_comm, BitVec.add_sub_cancel, BitVec.toNat_ofNat,
        Nat.mod_eq_of_lt (by omega)]
    rw [if_pos (show seqLt seq conn.rcvNxt = true from decide_eq_true hbefore)]
    simp only [htrim, Conn.freshSpan]
    rw [max_eq_left hbefore.le, zero_sub, BitVec.add_comm, BitVec.sub_add_cancel]
    simp
  · have hnext := @add_ofNat_eq conn seq 0 (conn.offset seq).toNat (by omega)
    rw [BitVec.add_zero] at hnext
    rw [if_neg (by rwa [seqLt, decide_eq_true_iff]), Conn.freshSpan]
    simp only
    rw [max_eq_right (not_lt.1 hbefore), sub_self, ← hnext]
    rfl

/-! ### From positions to sequence numbers -/

/-- The spans of a well-formed list end within half the number space. -/
theorem fin_spanOf_lt (h : conn.OooList) : ∀ t ∈ conn.spans, t.fin < 2 ^ 31 := by
  rw [Conn.spans, List.forall_mem_map]
  intro seg hseg
  have := h.inside seg hseg
  simp only [Conn.spanOf, Span.fin]
  omega

theorem mem_buffered_spanOf (h : conn.OooList) {q : Seq} {b : Byte} :
    (q, b) ∈ conn.buffered ↔ Spans.Holds conn.spans (q - conn.rcvNxt).toNat b :=
  mem_buffered (buffers_of_oooList h).list fun t ht => (fin_spanOf_lt h t ht).le

/-- The new bytes are those that no span knows. -/
theorem freshAt_iff (h : conn.OooList) {i j : ℕ} (hj : (j : ℤ) = conn.offset seq + i)
    (hlt : j < 2 ^ 32) :
    conn.FreshAt seq i ↔ ¬ known conn.spans j = true := by
  unfold Conn.FreshAt
  rw [and_iff_right (by omega), ← Bool.not_eq_true, isBuffered_iff, known_iff, add_ofNat_eq hj]
  simp only [mem_buffered_spanOf h, toNat_rcvNxt_add hlt]

theorem pos_freshSpan (conn : Conn) (seq : Seq) (data : List Byte) :
    ((conn.freshSpan seq data).pos : ℤ) = max 0 (conn.offset seq) := by
  simp only [Conn.freshSpan]
  omega

theorem at?_freshSpan {i j : ℕ} (hj : (j : ℤ) = conn.offset seq + i)
    (hle : max 0 (conn.offset seq) ≤ j) : (conn.freshSpan seq data).at? j = data[i]? := by
  unfold Span.at? Conn.freshSpan
  simp only
  rw [if_pos (by omega), List.getElem?_drop]
  congr 1
  omega

theorem mem_freshBytes (h : conn.OooList) (hpos : 0 < conn.offset seq + data.length)
    (hend : conn.offset seq + data.length < 2 ^ 31) {q : Seq} {b : Byte} :
    (q, b) ∈ conn.freshBytes seq data ↔
      (conn.freshSpan seq data).at? (q - conn.rcvNxt).toNat = some b ∧
        ∀ c, ¬ Spans.Holds conn.spans (q - conn.rcvNxt).toNat c := by
  have hfree : ∀ j, (∀ c, ¬ Spans.Holds conn.spans j c) ↔
      ¬ known conn.spans j = true := by
    intro j
    rw [known_iff, not_exists]
  rw [hfree]
  constructor
  · rintro ⟨i, hi, hq, hfresh⟩
    obtain ⟨hlt, -⟩ := List.getElem?_eq_some_iff.1 hi
    have hle := hfresh.1
    have hj : ((conn.offset seq + i).toNat : ℤ) = conn.offset seq + i := by omega
    simp only at hq
    rw [hq, add_ofNat_eq hj, toNat_rcvNxt_add (by omega)]
    exact ⟨(at?_freshSpan hj (by omega)).trans hi, (freshAt_iff h hj (by omega)).1 hfresh⟩
  · rintro ⟨hat, hnew⟩
    have hbounds := Span.bounds_of_at? hat
    have hfin := fin_freshSpan hpos.le
    have hlow := pos_freshSpan conn seq data
    have hj : ((q - conn.rcvNxt).toNat : ℤ) =
        conn.offset seq + ((q - conn.rcvNxt).toNat - conn.offset seq).toNat := by omega
    refine ⟨_, (at?_freshSpan hj (by omega)).symm.trans hat, ?_,
      (freshAt_iff h hj (q - conn.rcvNxt).isLt).2 hnew⟩
    rw [add_ofNat_eq hj]
    exact (Serial.add_ofNat_toNat_sub _ _).symm

theorem freshCount_eq (h : conn.OooList) (hpos : 0 < conn.offset seq + data.length)
    (hend : conn.offset seq + data.length < 2 ^ 31) :
    conn.freshCount seq data =
      freshCells conn.spans (conn.freshSpan seq data) := by
  have hfin := fin_freshSpan hpos.le
  have hlow := pos_freshSpan conn seq data
  unfold Conn.freshCount freshCells
  refine Finset.card_nbij' (fun i => (conn.offset seq + i).toNat)
    (fun j => (j - conn.offset seq).toNat) ?_ ?_ ?_ ?_
  · intro i hi
    rw [Finset.mem_coe, Finset.mem_filter, Finset.mem_range] at hi
    rw [Finset.mem_coe, Finset.mem_filter, Finset.mem_Ico]
    have hle := hi.2.1
    simp only
    exact ⟨by omega, (freshAt_iff h (by omega) (by omega)).1 hi.2⟩
  · intro j hj
    rw [Finset.mem_coe, Finset.mem_filter, Finset.mem_Ico] at hj
    rw [Finset.mem_coe, Finset.mem_filter, Finset.mem_range]
    simp only
    exact ⟨by omega, (freshAt_iff h (by omega) (by omega)).2 hj.2⟩
  · intro i hi
    rw [Finset.mem_coe, Finset.mem_filter, Finset.mem_range] at hi
    have hle := hi.2.1
    simp only
    omega
  · intro j hj
    rw [Finset.mem_coe, Finset.mem_filter, Finset.mem_Ico] at hj
    simp only
    omega

theorem oooFits_iff (h : conn.OooList) (hpos : 0 < conn.offset seq + data.length)
    (hend : conn.offset seq + data.length < 2 ^ 31) :
    conn.OooFits seq data ↔ total conn.spans +
      freshCells conn.spans (conn.freshSpan seq data) ≤ wgTcpRecvOooSize := by
  rw [Conn.OooFits, (buffers_of_oooList h).len_eq, freshCount_eq h hpos hend]

/-- The condition in positions. -/
theorem spares_iff (h : conn.OooList) (hpos : 0 < conn.offset seq + data.length)
    (hend : conn.offset seq + data.length < 2 ^ 31) :
    conn.Spares seq data ↔
      Undisturbed conn.spans (conn.freshSpan seq data) := by
  have hfin := fin_freshSpan hpos.le
  have hlow := pos_freshSpan conn seq data
  have hspan : ∀ seg ∈ conn.rcvOoo, ((conn.spanOf seg).pos : ℤ) = conn.offset seg.seq ∧
      ((conn.spanOf seg).fin : ℤ) = conn.offset seg.seq + seg.data.length := by
    intro seg hseg
    have := h.inside seg hseg
    simp only [Conn.spanOf, Span.fin]
    omega
  unfold Conn.Spares Undisturbed
  rw [if_pos hend, oooFits_iff h hpos hend, Conn.spans, List.forall_mem_map, List.forall_mem_map]
  refine and_congr (forall₂_congr fun seg hseg => ?_) (forall₂_congr fun seg hseg => ?_)
  · obtain ⟨hpos', hfin'⟩ := hspan seg hseg
    exact imp_congr (by omega) (imp_congr (by omega) (by omega))
  · obtain ⟨hpos', -⟩ := hspan seg hseg
    refine imp_congr_ctx (by omega) fun hin => imp_congr (by omega) (and_congr_right fun _ => ?_)
    -- the byte that both hold, counted from the start of either
    constructor
    · intro hagree i b hb hi
      obtain ⟨hle, hget⟩ := Span.at?_eq_some.1 hb
      have hbyte := hagree (i - (conn.spanOf seg).pos) b hget (by omega)
      refine (at?_freshSpan ?_ (by omega)).trans hbyte
      omega
    · intro hagree i b hb hi
      have hbyte := hagree ((conn.spanOf seg).pos + i) b
        (Span.at?_eq_some.2 ⟨Nat.le_add_right _ _, by rwa [Nat.add_sub_cancel_left]⟩) (by omega)
      refine (at?_freshSpan ?_ (by omega)).symm.trans hbyte
      omega

/-- What two lists say at all sequence numbers is what they say at all positions, if they say
nothing beyond the number space. -/
theorem forall_offset_iff (conn : Conn) (F G : ℕ → Byte → Prop)
    (hF : ∀ i, 2 ^ 32 ≤ i → ∀ b, ¬ F i b) (hG : ∀ i, 2 ^ 32 ≤ i → ∀ b, ¬ G i b) :
    (∀ q b, F (q - conn.rcvNxt).toNat b ↔ G (q - conn.rcvNxt).toNat b) ↔
      ∀ i b, F i b ↔ G i b := by
  refine ⟨fun hall i b => ?_, fun hall q => hall _⟩
  rcases Nat.lt_or_ge i (2 ^ 32) with hi | hi
  · rw [← @toNat_rcvNxt_add conn _ hi]
    exact hall _ b
  · exact iff_of_false (hF i hi b) (hG i hi b)

/-- A list of spans that end within half the number space says nothing beyond the number space. -/
theorem not_holds_far {m : List (Span Byte)} (hfin : ∀ t ∈ m, t.fin < 2 ^ 31) {i : ℕ}
    (hi : 2 ^ 32 ≤ i) (b : Byte) : ¬ Spans.Holds m i b := by
  rintro ⟨t, ht, htb⟩
  have := hfin t ht
  have := Span.bounds_of_at? htb
  omega

/-- Where the segment goes into the list, nothing is lost exactly if the splice is the union. -/
theorem losesNothing_iff_addsFresh (h : conn.OooList)
    (hpos : 0 < conn.offset seq + data.length) (hend : conn.offset seq + data.length < 2 ^ 31)
    (hdata : data ≠ []) :
    LosesNothing env conn seq data ↔
      AddsFresh conn.spans
        (inserted env.malloc (conn.freshSpan seq data) conn.spans)
        (conn.freshSpan seq data) := by
  have hsorted := (buffers_of_oooList h).sorted
  have hspan := fin_freshSpan hpos.le
  have hfar : ∀ t ∈ inserted env.malloc (conn.freshSpan seq data) conn.spans,
      t.fin < 2 ^ 31 := by
    intro t ht
    rcases bounds_of_mem_inserted hsorted ht with ⟨u, hu, hfin, -⟩ | ⟨-, hfin⟩
    · have := fin_spanOf_lt h u hu
      omega
    · omega
  have hmem : ∀ q b, (q, b) ∈ (tcpOooQueue env seq data conn).buffered ↔
      Spans.Holds (inserted env.malloc (conn.freshSpan seq data) conn.spans)
        (q - conn.rcvNxt).toNat b := fun q b =>
    mem_buffered (rcvOoo_tcpOooQueue h hpos hend hdata) fun t ht => (hfar t ht).le
  have hold := fun i hi b => not_holds_far (fin_spanOf_lt h) hi (i := i) b
  unfold LosesNothing AddsFresh
  rw [oooFits_iff h hpos hend]
  by_cases hfits : total conn.spans +
      freshCells conn.spans (conn.freshSpan seq data) ≤ wgTcpRecvOooSize
  · rw [forall_prop_of_true hfits, and_iff_left fun hfull => absurd hfits hfull, Set.ext_iff,
      Prod.forall]
    simp only [Set.mem_union, hmem, mem_buffered_spanOf h, mem_freshBytes h hpos hend, if_pos hfits]
    refine forall_offset_iff conn (Spans.Holds _)
      (fun i b => Spans.Holds conn.spans i b ∨
        (conn.freshSpan seq data).at? i = some b ∧ ∀ c, ¬ Spans.Holds conn.spans i c)
      (fun i hi => not_holds_far hfar hi) fun i hi b => ?_
    rintro (hb | ⟨hb, -⟩)
    · exact hold i hi b hb
    · have := Span.bounds_of_at? hb
      omega
  · rw [forall_prop_of_true hfits, and_iff_right fun hroom => absurd hroom hfits, Set.ext_iff,
      Prod.forall]
    simp only [hmem, mem_buffered_spanOf h, if_neg hfits]
    exact forall_offset_iff conn (Spans.Holds _) (Spans.Holds _) (fun i hi => not_holds_far hfar hi) hold

/-- If the call does nothing, nothing is lost exactly if there is nothing new that fits. -/
theorem losesNothing_of_eq (hsame : tcpOooQueue env seq data conn = conn) :
    LosesNothing env conn seq data ↔ (conn.OooFits seq data → conn.freshCount seq data = 0) := by
  unfold LosesNothing
  rw [hsame, and_iff_left fun _ => rfl]
  refine imp_congr_right fun _ => ?_
  rw [Conn.freshCount, Finset.card_eq_zero, Finset.filter_eq_empty_iff]
  constructor
  · intro heq i hi hfresh
    have hlt := Finset.mem_range.1 hi
    have hmem : (seq + BitVec.ofNat 32 i, data[i]) ∈ conn.buffered := by
      rw [heq]
      exact Or.inr ⟨i, List.getElem?_eq_getElem hlt, rfl, hfresh⟩
    have hbuffered := isBuffered_iff.2 ⟨_, hmem⟩
    rw [hfresh.2] at hbuffered
    cases hbuffered
  · intro hnone
    refine (Set.union_eq_self_of_subset_right ?_).symm
    rintro ⟨q, b⟩ ⟨i, hi, -, hfresh⟩
    obtain ⟨hlt, -⟩ := List.getElem?_eq_some_iff.1 hi
    exact absurd hfresh (hnone (Finset.mem_range.2 hlt))

/-- **When buffering an out-of-order segment loses nothing.** -/
theorem losesNothing_iff (h : conn.OooList) (hmalloc : ∀ size, env.malloc size = true)
    (hdata : data.length < 2 ^ 31) :
    LosesNothing env conn seq data ↔ conn.Spares seq data := by
  have hrange := offset_range conn seq
  rcases lt_or_ge (conn.offset seq + data.length) (2 ^ 31) with hend | hend
  · by_cases hin : 0 < conn.offset seq + data.length ∧ data ≠ []
    · rw [losesNothing_iff_addsFresh h hin.1 hend hin.2,
        addsFresh_inserted_iff (buffers_of_oooList h).sorted hmalloc, spares_iff h hin.1 hend]
    · -- the segment brings nothing from `rcv_nxt` on
      have hsame : tcpOooQueue env seq data conn = conn := by
        by_cases hnil : data = []
        · exact if_pos (List.length_eq_zero_iff.2 hnil)
        · exact tcpOooQueue_of_outside hdata (Or.inl (not_lt.1 fun hpos => hin ⟨hpos, hnil⟩))
      have hout : data.length = 0 ∨ conn.offset seq + data.length ≤ 0 := by
        rw [not_and_or, not_not] at hin
        exact hin.elim (fun hpos => Or.inr (not_lt.1 hpos)) fun hnil =>
          Or.inl (List.length_eq_zero_iff.2 hnil)
      rw [losesNothing_of_eq hsame, Conn.Spares, if_pos hend]
      refine iff_of_true (fun _ => ?_) ⟨fun seg _ _ _ => by omega, fun seg _ _ _ => by omega⟩
      rw [Conn.freshCount, Finset.card_eq_zero, Finset.filter_eq_empty_iff]
      intro i hi hfresh
      have hlt := Finset.mem_range.1 hi
      have := hfresh.1
      omega
  · rw [losesNothing_of_eq (tcpOooQueue_of_outside hdata (Or.inr hend)), Conn.Spares,
      if_neg (not_lt.2 hend)]

end Bytes

/-! ### A list to try it on -/

/-- Ten bytes are buffered, ten behind `rcv_nxt`. -/
def tenBuffered : Conn :=
  { Conn.fresh .established 0 0 exampleHandlers with
    rcvOoo := [⟨10, List.replicate 10 1⟩]
    rcvOooLen := 10 }

theorem oooList_tenBuffered : tenBuffered.OooList where
  len_eq := rfl
  nonempty := by decide
  inside := by decide
  ordered := List.pairwise_singleton _ _

/-- A segment that follows them is buffered. -/
theorem losesNothing_iff_behind : LosesNothing exampleEnv tenBuffered 20 [2, 2, 2] := by
  refine (losesNothing_iff oooList_tenBuffered (fun _ => rfl) (by decide)).2 ?_
  rw [Conn.Spares, if_pos (by decide)]
  constructor
  · decide
  · intro seg hseg hlt
    rw [List.mem_singleton.1 hseg] at hlt
    exact absurd hlt (by decide)

/-- A segment that begins in the middle of them takes them out. -/
theorem loses_overlapped : ¬ ∀ (env : TcpEnv) (conn : Conn) (seq : Seq) (data : List Byte),
    conn.OooList → (∀ size, env.malloc size = true) → data.length < 2 ^ 31 →
      LosesNothing env conn seq data := by
  intro h
  have hunion := (h exampleEnv tenBuffered 15 (List.replicate 10 1) oooList_tenBuffered
    (fun _ => rfl) (by decide)).1 (by show 10 + _ ≤ _; decide)
  have hold : ((10 : Seq), (1 : Byte)) ∈ tenBuffered.buffered :=
    ⟨⟨10, List.replicate 10 1⟩, List.mem_singleton.2 rfl, by decide⟩
  have hmem :
      (tcpOooQueue exampleEnv 15 (List.replicate 10 1) tenBuffered).isBuffered 10 = true := by
    refine isBuffered_iff.2 ⟨1, ?_⟩
    rw [hunion]
    exact Or.inl hold
  exact absurd hmem (by decide)

end Wgx
