import Wgx.Tcp.Input

/-!
# The send ring as a byte queue

`Conn.contents` are the bytes of the ring from its head on.  The operations of the ring are those of
a queue on them (`contents_sendbufGrow`, `contents_sendbufAppend`, `contents_sendbufConsume`,
`sendbufCopyOut_eq`), and what the transmission loops put on the wire are parts of the contents
(`flushLoop_spec`, `retransmitLoop_spec`).
-/

namespace Wgx

/-- The bytes of the send ring, oldest first. -/
def Conn.contents (conn : Conn) : List Byte :=
  Ring.window conn.sendbuf conn.sendbufCap conn.sendbufHead conn.sendbufLen

@[simp] theorem Conn.length_contents (conn : Conn) : conn.contents.length = conn.sendbufLen := by
  simp [Conn.contents]

/-- The ring is well formed. -/
structure Conn.RingOk (conn : Conn) : Prop where
  head_lt : conn.sendbufHead < conn.sendbufCap
  len_le : conn.sendbufLen ≤ conn.sendbufCap
  cap_le : conn.sendbufCap ≤ wgTcpSendbufSize

theorem Conn.RingOk.len_le_size {conn : Conn} (h : conn.RingOk) :
    conn.sendbufLen ≤ wgTcpSendbufSize := h.len_le.trans h.cap_le

theorem Conn.RingOk.cap_pos {conn : Conn} (h : conn.RingOk) : 0 < conn.sendbufCap :=
  Nat.zero_lt_of_lt h.head_lt

/-! ### Queue operations -/

/-- A grown ring holds the same bytes and has room for what it was grown for. -/
theorem sendbufGrow_spec {env : TcpEnv} {conn grown : Conn} {need : ℕ} (h : conn.RingOk)
    (hneed : conn.sendbufLen ≤ need) (hgrow : sendbufGrow env conn need = some grown) :
    grown = { conn with
        sendbuf := grown.sendbuf
        sendbufCap := grown.sendbufCap
        sendbufHead := grown.sendbufHead } ∧
      grown.RingOk ∧ need ≤ grown.sendbufCap ∧ grown.contents = conn.contents := by
  unfold sendbufGrow at hgrow
  by_cases hroom : need ≤ conn.sendbufCap
  · rw [if_pos hroom] at hgrow
    cases hgrow
    exact ⟨rfl, h, hroom, rfl⟩
  · rw [if_neg hroom] at hgrow
    simp only at hgrow
    generalize growCap need 18 _ = cap at hgrow
    generalize hclip : (if cap > wgTcpSendbufSize then wgTcpSendbufSize else cap) = newCap at hgrow
    have hmax : newCap ≤ wgTcpSendbufSize := by split_ifs at hclip <;> omega
    split_ifs at hgrow with hsmall hmalloc
    cases hgrow
    have hpos : 0 < newCap := by omega
    have hfit : conn.sendbufLen ≤ newCap := by omega
    refine ⟨rfl, ⟨hpos, hfit, hmax⟩, by simpa using hsmall, ?_⟩
    exact Ring.window_blit_ringRead conn.sendbuf _ h.head_lt h.len_le hfit

theorem contents_sendbufAppend {conn : Conn} (h : conn.RingOk) {data : List Byte}
    (hfit : conn.sendbufLen + data.length ≤ conn.sendbufCap) :
    (sendbufAppend conn data).contents = conn.contents ++ data :=
  Ring.window_ringWrite conn.sendbuf h.cap_pos hfit

theorem ringOk_sendbufAppend {conn : Conn} (h : conn.RingOk) {data : List Byte}
    (hfit : conn.sendbufLen + data.length ≤ conn.sendbufCap) :
    (sendbufAppend conn data).RingOk :=
  ⟨h.head_lt, hfit, h.cap_le⟩

theorem contents_sendbufConsume (conn : Conn) (len : ℕ) :
    (sendbufConsume conn len).contents = conn.contents.drop len := by
  unfold sendbufConsume
  split_ifs with hall
  · rw [List.drop_eq_nil_of_le (by rw [Conn.length_contents]; exact hall)]
    rfl
  · exact Ring.window_drop conn.sendbuf conn.sendbufCap conn.sendbufHead conn.sendbufLen len

theorem sendbufLen_sendbufConsume (conn : Conn) (len : ℕ) :
    (sendbufConsume conn len).sendbufLen = conn.sendbufLen - len := by
  rw [← Conn.length_contents, contents_sendbufConsume, List.length_drop, Conn.length_contents]

theorem ringOk_sendbufConsume {conn : Conn} (h : conn.RingOk) (len : ℕ) :
    (sendbufConsume conn len).RingOk := by
  unfold sendbufConsume
  split_ifs
  · exact ⟨h.cap_pos, Nat.zero_le _, h.cap_le⟩
  · exact ⟨Nat.mod_lt _ h.cap_pos, (Nat.sub_le _ _).trans h.len_le, h.cap_le⟩

theorem sendbufCopyOut_eq {conn : Conn} (h : conn.RingOk) {off len : ℕ}
    (hfit : off + len ≤ conn.sendbufLen) :
    sendbufCopyOut conn off len = (conn.contents.drop off).take len :=
  Ring.ringRead_window conn.sendbuf h.cap_pos h.len_le hfit

/-! ### What is transmitted -/

/-- A segment that carries the bytes of the ring from `off` on, at their place behind `snd_una`. -/
def FromRing (conn : Conn) (seg : Segment) (off : ℕ) : Prop :=
  seg.seq = conn.sndUna + BitVec.ofNat 32 off ∧ off + seg.data.length ≤ conn.sendbufLen ∧
    seg.data <+: conn.contents.drop off

theorem fromRing_segmentOf (env : TcpEnv) {conn : Conn} (h : conn.RingOk) {off len : ℕ}
    (hfit : off + len ≤ conn.sendbufLen) (flags : Flags) (ack : Seq) :
    FromRing conn (segmentOf env conn flags (conn.sndUna + BitVec.ofNat 32 off) ack
      (sendbufCopyOut conn off len)) off ∧
    (sendbufCopyOut conn off len).length = len := by
  have hlen : (sendbufCopyOut conn off len).length = len := by
    rw [sendbufCopyOut_eq h hfit, List.length_take, List.length_drop, Conn.length_contents]
    omega
  refine ⟨⟨rfl, ?_, ?_⟩, hlen⟩
  · simpa only [segmentOf, hlen] using hfit
  · simp only [segmentOf, sendbufCopyOut_eq h hfit]
    exact List.take_prefix _ _

theorem flushSegLen_le (conn : Conn) (inFlight : ℕ) :
    conn.flushSegLen inFlight ≤ conn.sendbufLen - inFlight := by
  unfold Conn.flushSegLen
  simp only
  split_ifs <;> omega

/-- The flush loop stays within the ring and emits parts of it without FIN. -/
theorem flushLoop_spec (env : TcpEnv) {conn : Conn} (h : conn.RingOk) (fuel : ℕ) {inFlight : ℕ}
    (hle : inFlight ≤ conn.sendbufLen) :
    (flushLoop env conn fuel inFlight).2 ≤ conn.sendbufLen ∧
      ∀ seg ∈ (flushLoop env conn fuel inFlight).1,
        seg.flags.fin = false ∧ ∃ off, FromRing conn seg off := by
  induction fuel generalizing inFlight with
  | zero => exact ⟨hle, by simp [flushLoop]⟩
  | succ fuel ih =>
    have hseg := flushSegLen_le conn inFlight
    unfold flushLoop
    simp only
    split_ifs with hmore hzero
    · exact ⟨hle, by simp⟩
    · have hnext : inFlight + conn.flushSegLen inFlight ≤ conn.sendbufLen := by omega
      obtain ⟨hend, hsegs⟩ := ih hnext
      refine ⟨hend, List.forall_mem_cons.2 ⟨⟨rfl, inFlight, ?_⟩, hsegs⟩⟩
      exact (fromRing_segmentOf env h (by omega) _ _).1
    · exact ⟨hle, by simp⟩

/-- The retransmission loop emits parts of the ring; a FIN ends with it. -/
theorem retransmitLoop_spec (env : TcpEnv) {conn : Conn} (h : conn.RingOk) (fuel off : ℕ) :
    ∀ seg ∈ retransmitLoop env conn fuel off, ∃ off < conn.sendbufLen, FromRing conn seg off ∧
      (seg.flags.fin = true → off + seg.data.length = conn.sendbufLen ∧
        (conn.state = .finWait ∨ conn.state = .lastAck)) := by
  induction fuel generalizing off with
  | zero => simp [retransmitLoop]
  | succ fuel ih =>
    unfold retransmitLoop
    by_cases hmore : off < conn.sendbufLen
    · rw [if_pos hmore]
      simp only
      generalize hlen : (if conn.sendbufLen - off > conn.mss then conn.mss
        else conn.sendbufLen - off) = len
      have hfit : off + len ≤ conn.sendbufLen := by split_ifs at hlen <;> omega
      refine List.forall_mem_cons.2 ⟨⟨off, hmore, ?_, ?_⟩, ih _⟩
      · exact (fromRing_segmentOf env h hfit _ _).1
      · intro hfin
        have hcopy := (fromRing_segmentOf env h hfit { ack := true } 0).2
        simpa [segmentOf, hcopy] using hfin
    · rw [if_neg hmore]
      simp

end Wgx
