import Wgx.Lib.Spans
import Wgx.Tcp.Receive
import Wgx.Tcp.Timer

/-!
# The list of out-of-order segments

* `Conn.Accounted`: `rcv_ooo_len` is the sum of the buffered lengths and within its limit, whatever
  arrives (`accounted_tcpStep`);
* `placed irs s`: the segment that a span of the stream from `irs` on is; `inserted` is the list part
  of `tcp_ooo_queue` in positions of the stream (`rcvOoo_oooInsert`);
* `Reads irs len n l t`: how far a connection has read the stream, and what it buffers;
* `Reads.establishedData`: what the data of a segment does to that.
-/

namespace Wgx

open Spans

/-! ### Accounting -/

/-- The bytes of a list of buffered segments. -/
def oooTotal (segs : List OooSeg) : ℕ := (segs.map fun seg => seg.data.length).sum

@[simp] theorem oooTotal_nil : oooTotal [] = 0 := rfl

@[simp] theorem oooTotal_cons (seg : OooSeg) (segs : List OooSeg) :
    oooTotal (seg :: segs) = seg.data.length + oooTotal segs := by
  simp [oooTotal]

@[simp] theorem oooTotal_append (segs segs' : List OooSeg) :
    oooTotal (segs ++ segs') = oooTotal segs + oooTotal segs' := by
  simp [oooTotal]

/-- `rcv_ooo_len` counts the buffered bytes, which stay within `WG_TCP_RECV_OOO_SIZE`. -/
structure Conn.Accounted (conn : Conn) : Prop where
  len_eq : conn.rcvOooLen.toNat = oooTotal conn.rcvOoo
  len_le : oooTotal conn.rcvOoo ≤ wgTcpRecvOooSize

/-- A segment that starts before `fin` and ends behind it reaches as far as that. -/
theorem trim_le {seg : OooSeg} {fin : Seq} (hsmall : seg.data.length < 2 ^ 32)
    (hlt : seqLt seg.seq fin = true) (hle : ¬ seqLe seg.fin fin = true) :
    (fin - seg.seq).toNat ≤ seg.data.length := by
  have hlen : seg.len.toNat = seg.data.length := by
    rw [OooSeg.len, BitVec.toNat_ofNat, Nat.mod_eq_of_lt hsmall]
  have hfin : seg.fin = seg.seq + seg.len := rfl
  rw [← hlen]
  simp only [seqLt, seqLe, hfin, decide_eq_true_eq, BitVec.toInt_eq_toNat_cond] at hlt hle
  bv_omega

/-- What the old segments lose is what their lengths lose. -/
theorem oooTrimOld_total (fin : Seq) {segs : List OooSeg}
    (hsmall : ∀ seg ∈ segs, seg.data.length < 2 ^ 32) :
    ∃ k, (oooTrimOld fin segs).2 = BitVec.ofNat 32 k ∧
      oooTotal (oooTrimOld fin segs).1 + k = oooTotal segs := by
  induction segs with
  | nil => exact ⟨0, rfl, rfl⟩
  | cons cur rest ih =>
    obtain ⟨hcur, hrest⟩ := List.forall_mem_cons.1 hsmall
    unfold oooTrimOld
    split_ifs with hlt hle
    · obtain ⟨k, hk, htotal⟩ := ih hrest
      refine ⟨cur.data.length + k, ?_, ?_⟩
      · simp only [hk, OooSeg.len, BitVec.ofNat_add]
      · simp only [oooTotal_cons]
        omega
    · have htrim := trim_le hcur hlt hle
      refine ⟨(fin - cur.seq).toNat, ?_, ?_⟩
      · simp only [BitVec.ofNat_toNat, BitVec.setWidth_eq]
      · simp only [oooTotal_cons, List.length_drop]
        omega
    · exact ⟨0, rfl, rfl⟩

theorem oooTotal_split (segs : List OooSeg) (p : OooSeg → Bool) :
    oooTotal segs = oooTotal (segs.takeWhile p) + oooTotal (segs.dropWhile p) := by
  rw [← oooTotal_append, List.takeWhile_append_dropWhile]

theorem length_le_oooTotal {seg : OooSeg} {segs : List OooSeg} (h : seg ∈ segs) :
    seg.data.length ≤ oooTotal segs :=
  List.single_le_sum (fun _ _ => Nat.zero_le _) _ (List.mem_map_of_mem h)

section Queue

variable {env : TcpEnv} {conn : Conn}

theorem accounted_oooInsert (h : conn.Accounted) (start : Seq) (data : List Byte) :
    (oooInsert env start data conn).Accounted := by
  have hsmall : ∀ seg ∈ conn.rcvOoo.dropWhile fun cur => seqLe cur.fin start,
      seg.data.length < 2 ^ 32 := by
    intro seg hseg
    have hle := length_le_oooTotal (List.dropWhile_subset _ hseg)
    have hmax := h.len_le
    simp only [wgTcpRecvOooSize] at hmax
    omega
  have hsplit := oooTotal_split conn.rcvOoo fun cur => seqLe cur.fin start
  obtain ⟨hlen, hmax⟩ := h
  unfold oooInsert
  simp only
  split
  next => exact ⟨hlen, hmax⟩
  next start' data' _ =>
    obtain ⟨k, hk, htotal⟩ := oooTrimOld_total (start' + BitVec.ofNat 32 data'.length) hsmall
    generalize oooTrimOld _ _ = trimmed at hk htotal ⊢
    obtain ⟨kept, removed⟩ := trimmed
    simp only at hk htotal ⊢
    subst hk
    -- the lengths that are taken off are those of the list
    have hleft : (conn.rcvOooLen - BitVec.ofNat 32 k).toNat = oooTotal conn.rcvOoo - k := by
      rw [BitVec.toNat_sub_of_le, BitVec.toNat_ofNat, Nat.mod_eq_of_lt, hlen]
      · simp only [wgTcpRecvOooSize] at hmax
        omega
      · rw [BitVec.le_def, BitVec.toNat_ofNat, hlen]
        exact (Nat.mod_le _ _).trans (by omega)
    rw [hleft]
    split_ifs with hfull hmalloc
    · refine ⟨?_, ?_⟩
      · rw [hleft, oooTotal_append]
        omega
      · rw [oooTotal_append]
        omega
    · refine ⟨?_, ?_⟩
      · rw [hleft, oooTotal_append]
        omega
      · rw [oooTotal_append]
        omega
    · have hroom : oooTotal conn.rcvOoo - k + data'.length ≤ wgTcpRecvOooSize := by omega
      refine ⟨?_, ?_⟩
      · simp only [wgTcpRecvOooSize] at hroom
        rw [BitVec.toNat_add, hleft, BitVec.toNat_ofNat, oooTotal_append, oooTotal_cons]
        simp only
        omega
      · rw [oooTotal_append, oooTotal_cons]
        simp only
        omega

theorem accounted_tcpOooQueue (h : conn.Accounted) (seq : Seq) (data : List Byte) :
    (tcpOooQueue env seq data conn).Accounted := by
  unfold tcpOooQueue
  split_ifs
  · exact h
  · exact h
  · exact accounted_oooInsert h _ _
  · exact accounted_oooInsert h _ _

end Queue

/-- The list and its length are the same. -/
def SameOoo (conn conn' : Conn) : Prop :=
  conn'.rcvOoo = conn.rcvOoo ∧ conn'.rcvOooLen = conn.rcvOooLen

theorem Conn.Accounted.of_same {conn conn' : Conn} (h : conn.Accounted) (hsame : SameOoo conn conn') :
    conn'.Accounted := by
  obtain ⟨hooo, hlen⟩ := hsame
  exact ⟨by rw [hlen, hooo]; exact h.len_eq, by rw [hooo]; exact h.len_le⟩

section Moves

variable {env : TcpEnv} {seg : Inbound} {t t' : Tcp}

theorem sameOoo_connDestroy : SameOoo t.conn (connDestroy t).conn := by
  unfold connDestroy
  split_ifs <;> exact ⟨rfl, rfl⟩

theorem sameOoo_tcpFlushPending : SameOoo t.conn (tcpFlushPending env t).conn := by
  unfold tcpFlushPending
  simp only
  split_ifs <;> exact ⟨rfl, rfl⟩

theorem sameOoo_tcpAckNow : SameOoo t.conn (tcpAckNow env t).conn := by
  unfold tcpAckNow
  split_ifs <;> exact ⟨rfl, rfl⟩

/-- Three moves change the list, and each keeps the account. -/
theorem accounted_move (hm : Move env t t') (h : t.conn.Accounted) : t'.conn.Accounted := by
  cases hm with
  | flush => exact h.of_same sameOoo_tcpFlushPending
  | accept data grown hlive hst hpos hfit hgrow =>
    refine h.of_same ?_
    show SameOoo t.conn (sendbufAppend grown data)
    rw [sendbufGrow_frame hgrow]
    exact ⟨rfl, rfl⟩
  | ack => exact h.of_same sameOoo_tcpAckNow
  | reset => exact h.of_same sameOoo_connDestroy
  | destroy => exact h.of_same sameOoo_connDestroy
  | finish => exact h.of_same sameOoo_connDestroy
  | popOoo seg rest hooo hseq =>
    obtain ⟨hlen, hmax⟩ := h
    rw [hooo, oooTotal_cons] at hlen hmax
    have hsmall : seg.len.toNat = seg.data.length := by
      simp only [wgTcpRecvOooSize] at hmax
      rw [OooSeg.len, BitVec.toNat_ofNat, Nat.mod_eq_of_lt (by omega)]
    refine ⟨?_, ?_⟩
    · rw [Tcp.update_conn]
      simp only
      rw [BitVec.toNat_sub_of_le (by rw [BitVec.le_def]; omega)]
      omega
    · rw [Tcp.update_conn]
      simp only
      omega
  | queueOoo seq data hgt => exact accounted_tcpOooQueue h seq data
  | release => exact ⟨rfl, Nat.zero_le _⟩
  | _ => exact h.of_same ⟨rfl, rfl⟩

theorem accounted_path (hp : Path env t t') (h : t.conn.Accounted) : t'.conn.Accounted := by
  induction hp with
  | refl => exact h
  | tail _ hm ih => exact accounted_move hm ih

theorem accounted_acked (ha : Acked env seg t t') (h : t.conn.Accounted) : t'.conn.Accounted := by
  refine h.of_same ?_
  cases ha with
  | data =>
    simp only [Tcp.update_conn]
    split_ifs
    · rw [sendbufConsume_frame]
      exact ⟨rfl, rfl⟩
    · exact ⟨rfl, rfl⟩
  | _ => exact ⟨rfl, rfl⟩

theorem accounted_input (hi : Input env t t') (h : t.conn.Accounted) : t'.conn.Accounted := by
  cases hi with
  | path hp => exact accounted_path hp h
  | acked seg h₀ hack h₁ => exact accounted_path h₁ (accounted_acked hack (accounted_path h₀ h))

end Moves

/-- One event keeps the account. -/
theorem accounted_tcpStep {t : Tcp} (h : t.conn.Accounted) (e : TcpEnv × TcpEvent) :
    (tcpStep t e).conn.Accounted := by
  generalize heq : tcpStep t e = t'
  have hshape : StepShape e.1 e.2 t t' := heq ▸ tcpStep_shape t e
  cases hshape with
  | input hi => exact accounted_input hi h
  | fin hst hi hclose =>
    exact Conn.Accounted.of_same (accounted_path hclose
      (Conn.Accounted.of_same (accounted_input hi h) ⟨rfl, rfl⟩)) ⟨rfl, rfl⟩
  | resend => exact h.of_same ⟨rfl, rfl⟩
  | abort he hlive htimer hcount habort =>
    exact Conn.Accounted.of_same (accounted_path habort (h.of_same ⟨rfl, rfl⟩)) sameOoo_connDestroy

theorem accounted_opened {t : Tcp} (h : Opened t) : t.conn.Accounted := by
  cases h with
  | connect env iss handlers => exact ⟨rfl, Nat.zero_le _⟩
  | accept env iss handlers seg hsyn hack =>
    refine accounted_path (path_runCallback env .accept _) ⟨rfl, Nat.zero_le _⟩

/-! ### The list in positions -/

/-- The buffered segment that a span of the stream is. -/
def placed (irs : Seq) (s : Span Byte) : OooSeg := ⟨irs + BitVec.ofNat 32 s.pos, s.data⟩

/-- What is new of a span, before a list whose first span ends behind its start. -/
def freshPart (s : Span Byte) : List (Span Byte) → Option (Span Byte)
  | [] => some s
  | cur :: _ =>
    if cur.pos ≤ s.pos then
      if s.fin ≤ cur.fin then none else some ⟨cur.fin, s.data.drop (cur.fin - s.pos)⟩
    else some s

section Placed

variable {irs : Seq} {l : List (Span Byte)} {b : ℕ}

@[simp] theorem seq_placed (irs : Seq) (s : Span Byte) :
    (placed irs s).seq = irs + BitVec.ofNat 32 s.pos := rfl

@[simp] theorem data_placed (irs : Seq) (s : Span Byte) : (placed irs s).data = s.data := rfl

@[simp] theorem fin_placed (irs : Seq) (s : Span Byte) :
    (placed irs s).fin = irs + BitVec.ofNat 32 s.fin :=
  Serial.add_ofNat_add irs s.pos s.data.length

theorem oooTotal_placed (l : List (Span Byte)) : oooTotal (l.map (placed irs)) = total l := by
  induction l with
  | nil => rfl
  | cons s l ih => rw [List.map_cons, oooTotal_cons, total_cons, ih, data_placed]

/-- The spans are less than half the number space away from a position. -/
def Near (l : List (Span Byte)) (b : ℕ) : Prop := ∀ s ∈ l, b < s.pos + 2 ^ 31 ∧ s.fin < b + 2 ^ 31

theorem Near.cons {s : Span Byte} (h : Near (s :: l) b) :
    (b < s.pos + 2 ^ 31 ∧ s.fin < b + 2 ^ 31) ∧ Near l b := List.forall_mem_cons.1 h

theorem Near.subset {m : List (Span Byte)} (h : Near m b) (hsub : l ⊆ m) : Near l b :=
  fun s hs => h s (hsub hs)

theorem seqLe_fin_placed {s : Span Byte} (hlo : b < s.pos + 2 ^ 31) (hhi : s.fin < b + 2 ^ 31) :
    seqLe (placed irs s).fin (irs + BitVec.ofNat 32 b) = decide (s.fin ≤ b) := by
  have hle : s.pos ≤ s.fin := Nat.le_add_right _ _
  rw [fin_placed, Bool.eq_iff_iff, seqLe_iff hhi (by omega), decide_eq_true_iff]

theorem takeWhile_placed (h : Near l b) :
    (l.map (placed irs)).takeWhile (fun cur => seqLe cur.fin (irs + BitVec.ofNat 32 b)) =
      (upTo b l).map (placed irs) := by
  induction l with
  | nil => rfl
  | cons s l ih =>
    obtain ⟨⟨hlo, hhi⟩, hl⟩ := h.cons
    rw [List.map_cons, List.takeWhile_cons, seqLe_fin_placed hlo hhi, upTo, List.takeWhile_cons]
    split_ifs
    · rw [List.map_cons, ih hl, upTo]
    · rfl

theorem dropWhile_placed (h : Near l b) :
    (l.map (placed irs)).dropWhile (fun cur => seqLe cur.fin (irs + BitVec.ofNat 32 b)) =
      (beyond b l).map (placed irs) := by
  induction l with
  | nil => rfl
  | cons s l ih =>
    obtain ⟨⟨hlo, hhi⟩, hl⟩ := h.cons
    rw [List.map_cons, List.dropWhile_cons, seqLe_fin_placed hlo hhi, beyond, List.dropWhile_cons]
    split_ifs
    · rw [ih hl, beyond]
    · rw [List.map_cons]

/-- The front of the new bytes is trimmed as in positions. -/
theorem oooTrimNew_placed {s : Span Byte} (h : Near l s.pos) (hl : ∀ t ∈ l, s.pos < t.fin) :
    oooTrimNew (irs + BitVec.ofNat 32 s.pos) s.data (l.map (placed irs)) =
      (freshPart s l).map fun new => (irs + BitVec.ofNat 32 new.pos, new.data) := by
  cases l with
  | nil => rfl
  | cons cur l =>
    obtain ⟨⟨hlo, hhi⟩, -⟩ := h.cons
    have hfin := hl cur List.mem_cons_self
    have hle : cur.pos ≤ cur.fin := Nat.le_add_right _ _
    simp only [List.map_cons, oooTrimNew, freshPart, seq_placed, fin_placed,
      seqLe_iff (show cur.pos < s.pos + 2 ^ 31 by omega) hlo,
      seqGt_iff hhi (show s.pos < cur.fin + 2 ^ 31 by omega), hfin, and_true,
      Serial.toNat_sub hfin.le (show cur.fin < s.pos + 2 ^ 32 by omega)]
    split_ifs with hcover hall hinside
    · rfl
    · rw [Span.fin] at hinside
      omega
    · unfold Span.fin at *
      omega
    · -- the new start is the end of the span in front
      have hstart : irs + BitVec.ofNat 32 s.pos +
          (irs + BitVec.ofNat 32 cur.fin - (irs + BitVec.ofNat 32 s.pos)) =
            irs + BitVec.ofNat 32 cur.fin := by
        rw [BitVec.add_comm, BitVec.sub_add_cancel]
      rw [hstart]
      rfl
    · rfl

/-- The old segments are trimmed as in positions. -/
theorem oooTrimOld_placed (hsorted : Sorted l) (h : Near l b) :
    (oooTrimOld (irs + BitVec.ofNat 32 b) (l.map (placed irs))).1 =
      (above b l).map (placed irs) := by
  induction l with
  | nil => rfl
  | cons cur l ih =>
    obtain ⟨⟨hlo, hhi⟩, hl⟩ := h.cons
    obtain ⟨-, -, hrest⟩ := sorted_cons.1 hsorted
    have hle : cur.pos ≤ cur.fin := Nat.le_add_right _ _
    have hlt := @seqLt_iff irs cur.pos b (by omega) hlo
    rw [List.map_cons, oooTrimOld, above]
    simp only [seq_placed, hlt, seqLe_fin_placed hlo hhi, decide_eq_true_eq, data_placed]
    split_ifs with hbefore hgone
    · exact ih hrest hl
    · simp only [List.map_cons, List.cons.injEq, and_true]
      rw [Serial.toNat_sub hbefore.le (by omega), BitVec.add_comm, BitVec.sub_add_cancel]
      rfl
    · rfl

/-- The new part of a span is its back. -/
theorem freshPart_spec {s new : Span Byte} (hl : ∀ t ∈ l, s.pos < t.fin)
    (h : freshPart s l = some new) :
    new.fin = s.fin ∧ s.pos ≤ new.pos ∧ new.data = s.data.drop (new.pos - s.pos) ∧
      (s.data ≠ [] → new.data ≠ []) := by
  cases l with
  | nil =>
    cases h
    simp
  | cons cur l =>
    have hfin := hl cur List.mem_cons_self
    simp only [freshPart] at h
    split_ifs at h with hcover hall
    · cases h
      simp only [Span.fin, List.length_drop] at *
      refine ⟨by omega, by omega, trivial, fun _ => ?_⟩
      rw [Ne, List.drop_eq_nil_iff]
      omega
    · cases h
      simp

/-- `oooInsert` in positions. -/
def inserted (malloc : ℕ → Bool) (s : Span Byte) (l : List (Span Byte)) : List (Span Byte) :=
  match freshPart s (beyond s.pos l) with
  | none => l
  | some new =>
    let kept := above new.fin (beyond s.pos l)
    if total (upTo s.pos l) + total kept + new.data.length > wgTcpRecvOooSize then
      upTo s.pos l ++ kept
    else if !malloc new.data.length then upTo s.pos l ++ kept
    else upTo s.pos l ++ new :: kept

/-- The list of the connection is the span list `l` of the stream. -/
structure Conn.Buffers (irs : Seq) (conn : Conn) (l : List (Span Byte)) : Prop where
  list : conn.rcvOoo = l.map (placed irs)
  sorted : Sorted l
  len_eq : conn.rcvOooLen.toNat = total l

theorem buffers_of_accounted {conn : Conn} (hacc : conn.Accounted)
    (hlist : conn.rcvOoo = l.map (placed irs)) (hsorted : Sorted l) : conn.Buffers irs l :=
  ⟨hlist, hsorted, by rw [hacc.len_eq, hlist, oooTotal_placed]⟩

/-- **The list part of `tcp_ooo_queue` in positions.** -/
theorem rcvOoo_oooInsert {env : TcpEnv} {conn : Conn} {s : Span Byte} (h : conn.Buffers irs l)
    (hstart : Near l s.pos) (hfin : Near l s.fin) :
    (oooInsert env (irs + BitVec.ofNat 32 s.pos) s.data conn).rcvOoo =
      (inserted env.malloc s l).map (placed irs) := by
  obtain ⟨hlist, hsorted, hlen⟩ := h
  have hbehind : ∀ t ∈ beyond s.pos l, s.pos < t.fin := fun t ht => lt_fin_of_mem_beyond hsorted ht
  have hsub : beyond s.pos l ⊆ l := fun t ht => mem_of_mem_beyond ht
  have htotal : total l < 2 ^ 32 := by
    rw [← hlen]
    exact conn.rcvOooLen.isLt
  have hsplit : total (upTo s.pos l) + total (beyond s.pos l) = total l := by
    rw [← total_append, upTo_append_beyond]
  unfold oooInsert inserted
  simp only
  rw [hlist, takeWhile_placed hstart, dropWhile_placed hstart,
    oooTrimNew_placed (hstart.subset hsub) hbehind]
  cases hfresh : freshPart s (beyond s.pos l) with
  | none => exact hlist
  | some new =>
    obtain ⟨hnew, -, -, -⟩ := freshPart_spec hbehind hfresh
    have hend : irs + BitVec.ofNat 32 new.pos + BitVec.ofNat 32 new.data.length =
        irs + BitVec.ofNat 32 new.fin := Serial.add_ofNat_add irs _ _
    have hkept := @oooTrimOld_placed irs _ new.fin hsorted.beyond
      (hnew ▸ hfin.subset hsub)
    obtain ⟨k, hk, hcount⟩ := @oooTrimOld_total (irs + BitVec.ofNat 32 new.fin)
      ((beyond s.pos l).map (placed irs)) (by
        intro seg hseg
        have hle := length_le_oooTotal hseg
        rw [oooTotal_placed] at hle
        omega)
    simp only [Option.map_some, hend]
    generalize oooTrimOld (irs + BitVec.ofNat 32 new.fin) ((beyond s.pos l).map (placed irs)) = r
      at hkept hk hcount ⊢
    obtain ⟨kept, removed⟩ := r
    simp only at hkept hk hcount ⊢
    subst hkept hk
    rw [oooTotal_placed, oooTotal_placed] at hcount
    have hleft : (conn.rcvOooLen - BitVec.ofNat 32 k).toNat =
        total (upTo s.pos l) + total (above new.fin (beyond s.pos l)) := by
      rw [BitVec.toNat_sub_of_le, BitVec.toNat_ofNat, Nat.mod_eq_of_lt (by omega), hlen]
      · omega
      · rw [BitVec.le_def, BitVec.toNat_ofNat, hlen]
        exact (Nat.mod_le _ _).trans (by omega)
    rw [hleft]
    split_ifs
    · rw [List.map_append]
    · rw [List.map_append]
    · rw [List.map_append, List.map_cons]
      rfl

theorem sorted_inserted {malloc : ℕ → Bool} {s : Span Byte} (h : Sorted l) (hs : s.data ≠ []) :
    Sorted (inserted malloc s l) := by
  have hbehind : ∀ t ∈ beyond s.pos l, s.pos < t.fin := fun t ht => lt_fin_of_mem_beyond h ht
  unfold inserted
  cases hfresh : freshPart s (beyond s.pos l) with
  | none => exact h
  | some new =>
    obtain ⟨hnew, hpos, -, hne⟩ := freshPart_spec hbehind hfresh
    have hle : new.pos ≤ new.fin := Nat.le_add_right _ _
    have hkept : Sorted (above new.fin (beyond s.pos l)) := sorted_above h.beyond
    have hfar : ∀ t ∈ above new.fin (beyond s.pos l), new.fin ≤ t.pos :=
      fun t ht => le_pos_of_mem_above h.beyond ht
    have hfront : ∀ t ∈ upTo s.pos l, t.fin ≤ new.pos :=
      fun t ht => (fin_le_of_mem_upTo ht).trans hpos
    simp only
    split_ifs
    · exact sorted_append h.upTo hkept (fun t ht => (hfront t ht).trans hle) hfar
    · exact sorted_append h.upTo hkept (fun t ht => (hfront t ht).trans hle) hfar
    · exact sorted_splice h.upTo hkept (hne hs) hfront hfar

/-- What is buffered afterwards lies in what was buffered before, or in what came. -/
theorem bounds_of_mem_inserted {malloc : ℕ → Bool} {s t : Span Byte} (h : Sorted l)
    (ht : t ∈ inserted malloc s l) :
    (∃ u ∈ l, t.fin = u.fin ∧ u.pos ≤ t.pos) ∨ s.pos ≤ t.pos ∧ t.fin = s.fin := by
  have hbehind : ∀ t ∈ beyond s.pos l, s.pos < t.fin := fun t ht => lt_fin_of_mem_beyond h ht
  have hold : ∀ t ∈ l, (∃ u ∈ l, t.fin = u.fin ∧ u.pos ≤ t.pos) ∨ s.pos ≤ t.pos ∧ t.fin = s.fin :=
    fun t ht => Or.inl ⟨t, ht, rfl, le_rfl⟩
  unfold inserted at ht
  cases hfresh : freshPart s (beyond s.pos l) with
  | none =>
    rw [hfresh] at ht
    exact hold t ht
  | some new =>
    obtain ⟨hnew, hpos, -, -⟩ := freshPart_spec hbehind hfresh
    rw [hfresh] at ht
    simp only at ht
    have hkept : t ∈ above new.fin (beyond s.pos l) →
        (∃ u ∈ l, t.fin = u.fin ∧ u.pos ≤ t.pos) ∨ s.pos ≤ t.pos ∧ t.fin = s.fin := by
      intro ht
      obtain ⟨u, hu, hfin⟩ := fin_of_mem_above ht
      exact Or.inl ⟨u, mem_of_mem_beyond hu, hfin⟩
    split_ifs at ht
    · exact (List.mem_append.1 ht).elim (fun ht => hold t (mem_of_mem_upTo ht)) hkept
    · exact (List.mem_append.1 ht).elim (fun ht => hold t (mem_of_mem_upTo ht)) hkept
    · rcases List.mem_append.1 ht with ht | ht
      · exact hold t (mem_of_mem_upTo ht)
      · rcases List.mem_cons.1 ht with rfl | ht
        · exact Or.inr ⟨hpos, hnew⟩
        · exact hkept ht

end Placed

/-! ### Reading a stream -/

/-- The payload of a segment lies within the first `n` bytes of the stream that begins at `irs`; a
SYN stands before the stream and carries nothing. -/
structure Inbound.Within (irs : Seq) (n : ℕ) (seg : Inbound) : Prop where
  data : seg.payload ≠ [] →
    ∃ off, seg.seq = irs + BitVec.ofNat 32 off ∧ off + seg.payload.length ≤ n
  syn : seg.flags.syn = true → seg.seq + 1 = irs ∧ seg.payload = []

/-- Of the first `len` bytes of the stream from `irs` on, `n` were taken in order, and `l` are
buffered. -/
structure Reads (irs : Seq) (len n : ℕ) (l : List (Span Byte)) (t : Tcp) : Prop where
  rcvNxt : t.conn.rcvNxt = irs + BitVec.ofNat 32 n
  le : n ≤ len
  list : t.conn.rcvOoo = l.map (placed irs)
  sorted : Sorted l
  fits : ∀ s ∈ l, s.fin ≤ len

section Reading

variable {env : TcpEnv} {irs : Seq} {len n : ℕ} {l : List (Span Byte)} {t t' : Tcp}

theorem Reads.unread (h : Reads irs len n l t) (hq : Unread t t') : Reads irs len n l t' :=
  ⟨hq.rcvNxt.trans h.rcvNxt, h.le, hq.rcvOoo.trans h.list, h.sorted, h.fits⟩

theorem Reads.near (h : Reads irs len n l t) (hlen : len < 2 ^ 31) {b : ℕ} (hb : b ≤ len) :
    Near l b := by
  intro s hs
  have hle := h.fits s hs
  omega

/-- The owner's part in `on_data` leaves the receiving side alone. -/
theorem frame_deliver (env : TcpEnv) (data : List Byte) (t : Tcp) :
    (deliver env data t).conn.rcvNxt = t.conn.rcvNxt + BitVec.ofNat 32 data.length ∧
      (deliver env data t).conn.rcvOoo = t.conn.rcvOoo := by
  unfold deliver
  simp only
  split_ifs
  · have hq := quiet_foldl_apiCall env (env.calls (.data data) (t.update fun conn =>
      { conn with rcvNxt := conn.rcvNxt + BitVec.ofNat 32 data.length }).conn)
      ((t.update fun conn => { conn with
        rcvNxt := conn.rcvNxt + BitVec.ofNat 32 data.length }).log [.callback (.data data)])
    exact ⟨hq.rcvNxt, hq.rcvOoo⟩
  · exact ⟨rfl, rfl⟩

theorem Reads.deliver (h : Reads irs len n l t) {data : List Byte} (hfit : n + data.length ≤ len) :
    Reads irs len (n + data.length) l (deliver env data t) := by
  obtain ⟨hnxt, hooo⟩ := frame_deliver env data t
  refine ⟨?_, hfit, hooo.trans h.list, h.sorted, h.fits⟩
  rw [hnxt, h.rcvNxt, Serial.add_ofNat_add]

/-- `tcp_ooo_drain` in positions: it takes spans off the front.  If none of them starts before
`rcv_nxt` it takes all that it can; if one does it takes none. -/
theorem Reads.drain (hlen : len < 2 ^ 31) (fuel : ℕ) (h : Reads irs len n l t)
    (hfuel : l.length ≤ fuel) :
    ∃ n' l', Reads irs len n' l' (tcpOooDrain env fuel t).2 ∧ n ≤ n' ∧ l' <:+ l ∧
      ((tcpOooDrain env fuel t).2.conn.beingFreed = false → (∀ s ∈ l, n ≤ s.pos) →
        ∀ s ∈ l', n' < s.pos) ∧
      ((∃ s ∈ l, s.pos < n) → n' = n ∧ l' = l) := by
  induction fuel generalizing n l t with
  | zero =>
    have hnil : l = [] := List.length_eq_zero_iff.1 (Nat.le_zero.1 hfuel)
    subst hnil
    exact ⟨n, [], h, le_rfl, List.suffix_rfl, by simp, by simp⟩
  | succ fuel ih =>
    unfold tcpOooDrain
    by_cases hfreed : t.conn.beingFreed = true
    · rw [if_pos hfreed]
      refine ⟨n, l, h, le_rfl, List.suffix_rfl, ?_, fun _ => ⟨rfl, rfl⟩⟩
      intro hlive
      rw [hfreed] at hlive
      cases hlive
    rw [if_neg hfreed]
    cases l with
    | nil =>
      rw [h.list]
      exact ⟨n, [], h, le_rfl, List.suffix_rfl, by simp, by simp⟩
    | cons s l =>
      obtain ⟨hne, hhead, hsorted⟩ := sorted_cons.1 h.sorted
      obtain ⟨hsfit, hfits⟩ := List.forall_mem_cons.1 h.fits
      have hspos : s.pos < s.fin := h.sorted.pos_lt_fin List.mem_cons_self
      have hnle := h.le
      rw [h.list, List.map_cons]
      simp only
      split_ifs with hseq
      · -- the head is not at `rcv_nxt`
        have hpos : s.pos ≠ n := by
          rintro rfl
          exact hseq h.rcvNxt.symm
        refine ⟨n, s :: l, h, le_rfl, List.suffix_rfl, ?_, fun _ => ⟨rfl, rfl⟩⟩
        intro _ hle u hu
        rcases List.mem_cons.1 hu with rfl | hu
        · exact lt_of_le_of_ne (hle u List.mem_cons_self) hpos.symm
        · have hfirst := hle s List.mem_cons_self
          have hafter := hhead u hu
          omega
      · rw [not_not, seq_placed, h.rcvNxt] at hseq
        have hpos : s.pos = n := Serial.add_ofNat_inj (by omega) (by omega) hseq
        have hsfin : n + s.data.length = s.fin := by rw [← hpos]; rfl
        have hpopped : Reads irs len n l (t.update fun conn => { conn with
            rcvOoo := l.map (placed irs), rcvOooLen := conn.rcvOooLen - (placed irs s).len }) :=
          ⟨h.rcvNxt, h.le, rfl, hsorted, hfits⟩
        have hnext : Reads irs len (n + s.data.length) l (Wgx.deliver env s.data _) :=
          hpopped.deliver (by omega)
        obtain ⟨n', l', hreads, hle, hsuf, hclear, hblocked⟩ :=
          ih hnext (by simpa using hfuel)
        refine ⟨n', l', hreads, by omega, hsuf.trans (List.suffix_cons s l), ?_, ?_⟩
        · intro hlive _
          exact hclear hlive fun u hu => hsfin ▸ hhead u hu
        · rintro ⟨u, hu, hlow⟩
          rcases List.mem_cons.1 hu with rfl | hu
          · omega
          · have hafter := hhead u hu
            omega

theorem Reads.receive (hlen : len < 2 ^ 31) (h : Reads irs len n l t) {data : List Byte}
    (hfit : n + data.length ≤ len) (immediate : Bool) :
    ∃ n' l', Reads irs len n' l' (receiveInOrder env data immediate t) ∧ n + data.length ≤ n' ∧
      ((receiveInOrder env data immediate t).conn.beingFreed = false →
        (∀ s ∈ l, n + data.length ≤ s.pos) → ∀ s ∈ l', n' < s.pos) ∧
      ((∃ s ∈ l, s.pos < n + data.length) → n' = n + data.length ∧ l' = l) := by
  have hdeliver : Reads irs len (n + data.length) l (Wgx.deliver env data t) :=
    h.deliver hfit
  have hfuel : l.length ≤ (Wgx.deliver env data t).conn.rcvOoo.length := by
    rw [hdeliver.list, List.length_map]
  obtain ⟨n', l', hreads, hle, -, hclear, hblocked⟩ := hdeliver.drain hlen _ hfuel
  unfold receiveInOrder
  simp only
  generalize tcpOooDrain env _ (Wgx.deliver env data t) = r at hreads hclear hblocked ⊢
  have hquiet := quiet_tcpAckData env (data.length + r.1) (immediate || decide (0 < r.1)) r.2
  refine ⟨n', l', hreads.unread hquiet.toUnread, hle, ?_, hblocked⟩
  intro hlive hall
  refine hclear ?_ hall
  by_contra hfreed
  rw [Bool.not_eq_false] at hfreed
  rw [freed_path (Course.path (course_tcpAckData env _ _ r.2)) hfreed] at hlive
  cases hlive

/-- `tcp_ooo_queue` on bytes that begin behind `rcv_nxt`, in positions. -/
theorem Reads.queue (hlen : len < 2 ^ 31) (h : Reads irs len n l t) (hacc : t.conn.Accounted)
    {seq : Seq} {data : List Byte} {off : ℕ} (hseq : seq = irs + BitVec.ofNat 32 off)
    (hdata : data ≠ []) (hahead : n < off) (hfit : off + data.length ≤ len) :
    ∃ l', Reads irs len n l' (t.update (tcpOooQueue env seq data)) ∧
      ((∀ s ∈ l, n < s.pos) → ∀ s ∈ l', n < s.pos) := by
  subst hseq
  have hnle := h.le
  have hpos := List.length_pos_iff.2 hdata
  set s : Span Byte := ⟨off, data⟩ with hs
  have hsfin : s.fin = off + data.length := rfl
  -- neither early return is taken, and nothing is trimmed
  have hqueue : tcpOooQueue env (irs + BitVec.ofNat 32 off) data t.conn =
      oooInsert env (irs + BitVec.ofNat 32 s.pos) s.data t.conn := by
    unfold tcpOooQueue
    rw [if_neg hpos.ne', h.rcvNxt, Serial.add_ofNat_add,
      if_neg (by rw [seqLe_iff (by omega) (by omega)]; omega),
      if_neg (by rw [seqLt_iff (by omega) (by omega)]; omega)]
  have hbuf := buffers_of_accounted hacc h.list h.sorted
  have hstart : Near l s.pos := h.near hlen (le_trans (Nat.le_add_right _ _) hfit)
  have hfin : Near l s.fin := h.near hlen hfit
  have hlist := @rcvOoo_oooInsert irs l env t.conn s hbuf hstart hfin
  refine ⟨inserted env.malloc s l, ⟨?_, hnle, ?_, sorted_inserted h.sorted hdata, ?_⟩, ?_⟩
  · rw [Tcp.update_conn, tcpOooQueue_frame]
    exact h.rcvNxt
  · rw [Tcp.update_conn, hqueue]
    exact hlist
  · intro u hu
    rcases bounds_of_mem_inserted h.sorted hu with ⟨v, hv, hfin, -⟩ | ⟨-, hfin⟩
    · exact hfin ▸ h.fits v hv
    · omega
  · intro hclear u hu
    rcases bounds_of_mem_inserted h.sorted hu with ⟨v, hv, -, hle⟩ | ⟨hle, -⟩
    · exact (hclear v hv).trans_le hle
    · exact hahead.trans_le hle

/-- The segment brings the next bytes, and none of the buffered segments starts before its end. -/
def Inbound.PassesNone (seg : Inbound) (conn : Conn) : Prop :=
  seg.payload ≠ [] → seqLe seg.seq conn.rcvNxt = true →
    seqLt conn.rcvNxt (seg.seq + BitVec.ofNat 32 seg.payload.length) = true →
      ∀ held ∈ conn.rcvOoo, seqLe (seg.seq + BitVec.ofNat 32 seg.payload.length) held.seq = true

/-- Every buffered segment starts strictly behind `rcv_nxt`. -/
def Conn.Drained (conn : Conn) : Prop := ∀ held ∈ conn.rcvOoo, seqGt held.seq conn.rcvNxt = true

theorem Reads.drained_iff (hlen : len < 2 ^ 31) (h : Reads irs len n l t) :
    t.conn.Drained ↔ ∀ s ∈ l, n < s.pos := by
  have hnle := h.le
  unfold Conn.Drained
  rw [h.list, h.rcvNxt, List.forall_mem_map]
  refine forall₂_congr fun s hs => ?_
  have hfit := h.fits s hs
  have hpos : s.pos ≤ s.fin := Nat.le_add_right _ _
  exact seqGt_iff (by omega) (by omega)

theorem Reads.passesNone_iff (hlen : len < 2 ^ 31) (h : Reads irs len n l t) {seg : Inbound}
    {off : ℕ} (hseq : seg.seq = irs + BitVec.ofNat 32 off)
    (hfit : off + seg.payload.length ≤ len) (hdata : seg.payload ≠ []) :
    seg.PassesNone t.conn ↔
      (off ≤ n → n < off + seg.payload.length → ∀ s ∈ l, off + seg.payload.length ≤ s.pos) := by
  have hnle := h.le
  unfold Inbound.PassesNone
  rw [h.list, h.rcvNxt, List.forall_mem_map, hseq, Serial.add_ofNat_add,
    seqLe_iff (by omega) (by omega), seqLt_iff (by omega) (by omega)]
  refine ⟨fun hpass h1 h2 s hs => ?_, fun hpass _ h1 h2 s hs => ?_⟩
  · have hin := h.fits s hs
    have hpos : s.pos ≤ s.fin := Nat.le_add_right _ _
    have hle := hpass hdata h1 h2 s hs
    rwa [seq_placed, seqLe_iff (by omega) (by omega)] at hle
  · have hin := h.fits s hs
    have hpos : s.pos ≤ s.fin := Nat.le_add_right _ _
    rw [seq_placed, seqLe_iff (by omega) (by omega)]
    exact hpass h1 h2 s hs

/-- The data of a segment in positions: the list stays a list of spans, and, where the connection is
not freed meanwhile, it is drained if it was and no buffered segment is passed, and only then. -/
theorem Reads.establishedData (hlen : len < 2 ^ 31) (h : Reads irs len n l t)
    (hacc : t.conn.Accounted) {seg : Inbound} (hseg : seg.Within irs len) :
    ∃ n' l', Reads irs len n' l' (establishedData env seg t) ∧
      ((establishedData env seg t).conn.beingFreed = false → t.conn.Drained →
        seg.PassesNone t.conn → (establishedData env seg t).conn.Drained) ∧
      (¬ seg.PassesNone t.conn → ¬ (establishedData env seg t).conn.Drained) := by
  by_cases hnil : seg.payload = []
  · have hsame : Wgx.establishedData env seg t = t := by
      rw [Wgx.establishedData, if_pos (by rw [hnil]; rfl)]
    rw [hsame]
    exact ⟨n, l, h, fun _ hdrained _ => hdrained, fun hpass => absurd (fun hdata => absurd hnil hdata)
      hpass⟩
  obtain ⟨off, hseq, hfit⟩ := hseg.data hnil
  have hpos := List.length_pos_iff.2 hnil
  have hnle := h.le
  have hpasses := h.passesNone_iff hlen hseq hfit hnil
  -- bytes that are delivered, the first one at `rcv_nxt` and the last one at the segment's end
  have hreceive : ∀ (data : List Byte) (immediate : Bool), off ≤ n → n < off + seg.payload.length →
      n + data.length = off + seg.payload.length →
      ∃ n' l', Reads irs len n' l' (receiveInOrder env data immediate t) ∧
        ((receiveInOrder env data immediate t).conn.beingFreed = false → t.conn.Drained →
          seg.PassesNone t.conn → (receiveInOrder env data immediate t).conn.Drained) ∧
        (¬ seg.PassesNone t.conn → ¬ (receiveInOrder env data immediate t).conn.Drained) := by
    intro data immediate hle hlt hend
    obtain ⟨n', l', hreads, hle', hclear, hblocked⟩ :=
      h.receive hlen (show n + data.length ≤ len by omega) immediate
    refine ⟨n', l', hreads, fun hlive _ hpass => ?_, fun hpass => ?_⟩
    · rw [hreads.drained_iff hlen]
      exact hclear hlive (hend ▸ hpasses.1 hpass hle hlt)
    · rw [hpasses] at hpass
      push Not at hpass
      obtain ⟨-, -, s, hs, hlow⟩ := hpass
      obtain ⟨rfl, rfl⟩ := hblocked ⟨s, hs, hend ▸ hlow⟩
      rw [hreads.drained_iff hlen]
      push Not
      exact ⟨s, hs, by omega⟩
  have hkeep : ∀ t' : Tcp, Unread t t' → ¬ (off ≤ n ∧ n < off + seg.payload.length) →
      ∃ n' l', Reads irs len n' l' t' ∧
        (t'.conn.beingFreed = false → t.conn.Drained → seg.PassesNone t.conn → t'.conn.Drained) ∧
        (¬ seg.PassesNone t.conn → ¬ t'.conn.Drained) := by
    intro t' hq hout
    refine ⟨n, l, h.unread hq, fun _ hdrained _ => ?_, fun hpass => ?_⟩
    · unfold Conn.Drained
      rw [hq.rcvOoo, hq.rcvNxt]
      exact hdrained
    · exact absurd (hpasses.2 fun h1 h2 => absurd ⟨h1, h2⟩ hout) hpass
  unfold Wgx.establishedData
  simp only [hseq, h.rcvNxt]
  rw [if_neg hpos.ne']
  split_ifs with heq hgt hlt halready
  · have hoff : off = n := Serial.add_ofNat_inj (by omega) (by omega) heq
    exact hreceive seg.payload false hoff.le (by omega) (by omega)
  · rw [seqGt_iff (by omega) (by omega)] at hgt
    obtain ⟨l', hreads, hclear⟩ := h.queue hlen hacc rfl hnil hgt hfit
    have hreads' := hreads.unread (quiet_tcpAckNow env _).toUnread
    refine ⟨n, l', hreads', fun _ hdrained _ => ?_, fun hpass => ?_⟩
    · rw [hreads'.drained_iff hlen]
      exact hclear ((h.drained_iff hlen).1 hdrained)
    · exact absurd (hpasses.2 fun h1 _ => absurd h1 (by omega)) hpass
  · rw [seqLt_iff (by omega) (by omega)] at hlt
    simp only [Serial.toNat_sub hlt.le (show n < off + 2 ^ 32 by omega)] at halready ⊢
    refine hreceive (seg.payload.drop (n - off)) true hlt.le (by omega) ?_
    rw [List.length_drop]
    omega
  · rw [seqLt_iff (by omega) (by omega)] at hlt
    simp only [Serial.toNat_sub hlt.le (show n < off + 2 ^ 32 by omega)] at halready
    exact hkeep _ (quiet_tcpAckNow env t).toUnread (by omega)
  · rw [seqGt_iff (by omega) (by omega)] at hgt
    rw [seqLt_iff (by omega) (by omega)] at hlt
    exact absurd (by rw [show off = n by omega]) heq

end Reading

end Wgx
