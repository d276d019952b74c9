import Wgx.Tcp.Frame
import Wgx.Tcp.Sendbuf

/-!
# The send path transmits the accepted stream

The send stream of a connection is the concatenation of all data that `tcp_send` took; its first
byte has the sequence number `iss + 1`.

* `Sending t`: the ring holds the end of the stream, `snd_una` is the sequence number of its first
  byte, and every data segment sent so far carries the bytes of the stream at its place;
* `Finishing t`: every FIN sent so far lies right behind the stream;
* `SendInv`: the first always, the second as long as the owner closes and the remote peer ends the
  connection only when nothing accepted is still unsent (`Entry.finOk`);
* `send_aligned`, `fin_follows_data`: what this means for whole runs.
-/

namespace Wgx

/-! ### The stream and the wire -/

/-- The data that `tcp_send` took, in order. -/
def accepted : List Entry → List Byte
  | [] => []
  | .accepted data :: es => data ++ accepted es
  | _ :: es => accepted es

/-- The segments sent, in order. -/
def segments : List Entry → List Segment
  | [] => []
  | .segment seg :: es => seg :: segments es
  | _ :: es => segments es

theorem accepted_append (es es' : List Entry) :
    accepted (es ++ es') = accepted es ++ accepted es' := by
  induction es with
  | nil => rfl
  | cons e es ih => cases e <;> simp [accepted, ih]

theorem segments_append (es es' : List Entry) :
    segments (es ++ es') = segments es ++ segments es' := by
  induction es with
  | nil => rfl
  | cons e es ih => cases e <;> simp [segments, ih]

@[simp] theorem accepted_segments (segs : List Segment) : accepted (segs.map .segment) = [] := by
  induction segs with
  | nil => rfl
  | cons seg segs ih => simpa [accepted] using ih

@[simp] theorem segments_segments (segs : List Segment) :
    segments (segs.map .segment) = segs := by
  induction segs with
  | nil => rfl
  | cons seg segs ih => simpa [segments] using ih

/-- The sequence number behind the stream. -/
def Tcp.streamEnd (t : Tcp) : Seq :=
  t.conn.iss + 1 + BitVec.ofNat 32 (accepted t.trace).length

/-- The payload of a segment are the bytes of the stream at its sequence number. -/
def Carries (iss : Seq) (stream : List Byte) (seg : Segment) : Prop :=
  seg.data = [] ∨
    ∃ pos, seg.seq = iss + 1 + BitVec.ofNat 32 pos ∧ seg.data <+: stream.drop pos

theorem Carries.mono {iss : Seq} {stream more : List Byte} {seg : Segment}
    (h : Carries iss stream seg) : Carries iss (stream ++ more) seg := by
  rcases h with h | ⟨pos, hseq, hpre⟩
  · exact .inl h
  · refine .inr ⟨pos, hseq, hpre.trans ?_⟩
    rw [List.drop_append]
    exact List.prefix_append _ _

/-! ### The invariants -/

/-- The ring is the end of the accepted stream and stands at `snd_una`; what was sent are its
bytes. -/
structure Sending (t : Tcp) : Prop where
  ring : t.conn.RingOk
  held : t.conn.contents <:+ accepted t.trace
  opening : t.conn.state = .synSent ∨ t.conn.state = .synReceived →
    t.conn.sndUna = t.conn.iss ∧ t.conn.sndNxt = t.conn.iss + 1 ∧ accepted t.trace = []
  una : t.conn.state = .established ∨ 0 < t.conn.sendbufLen →
    t.conn.sndUna + BitVec.ofNat 32 t.conn.sendbufLen = t.streamEnd
  inFlight : t.conn.state = .established →
    (t.conn.sndNxt - t.conn.sndUna).toNat ≤ t.conn.sendbufLen
  carried : ∀ seg ∈ segments t.trace, Carries t.conn.iss (accepted t.trace) seg

/-- A FIN was sent. -/
def Tcp.FinSent (t : Tcp) : Prop := ∃ seg ∈ segments t.trace, seg.flags.fin = true

/-- Every FIN lies behind the stream; `snd_nxt` counts it once it is sent. -/
structure Finishing (t : Tcp) : Prop where
  fins : ∀ seg ∈ segments t.trace, seg.flags.fin = true →
    seg.seq + BitVec.ofNat 32 seg.data.length = t.streamEnd
  sent : t.FinSent → t.conn.state.ending = true ∧ t.conn.state ≠ .closeWait ∧
    t.conn.sndNxt = t.streamEnd + 1 ∧
    (t.conn.sndUna + BitVec.ofNat 32 t.conn.sendbufLen = t.streamEnd ∨
      (t.conn.sendbufLen = 0 ∧ t.conn.sndUna = t.streamEnd + 1))
  waiting : t.conn.state = .finWait ∨ t.conn.state = .lastAck → t.FinSent
  closeWait : t.conn.state = .closeWait → t.conn.sndNxt = t.streamEnd ∧
    t.conn.sndUna + BitVec.ofNat 32 t.conn.sendbufLen = t.streamEnd

/-- Nothing that was accepted is still unsent. -/
def Conn.allSent (conn : Conn) : Bool :=
  conn.sndNxt = conn.sndUna + BitVec.ofNat 32 conn.sendbufLen

/-- What makes a FIN go out in its place: `tcp_close` finds an established connection with nothing
unsent and is not called from `on_close` of a remote FIN; the handling of a remote FIN finds the
connection still established, with nothing unsent. -/
def Entry.finOk : Entry → Bool
  | .call .close conn =>
    conn.beingFreed ||
      (decide (conn.state ≠ .closeWait) && (decide (conn.state ≠ .established) || conn.allSent))
  | .remoteFin conn => decide (conn.state = .established) && conn.allSent
  | _ => true

/-- Both invariants, the second as far as the trace allows it. -/
def SendInv (t : Tcp) : Prop :=
  Sending t ∧ ((∀ x ∈ t.trace, x.finOk = true) → Finishing t)

/-! ### Steps that send nothing new -/

/-- The send ring is the same in `t` and `t'`. -/
structure SameRing (t t' : Tcp) : Prop where
  iss : t'.conn.iss = t.conn.iss
  sendbuf : t'.conn.sendbuf = t.conn.sendbuf
  sendbufCap : t'.conn.sendbufCap = t.conn.sendbufCap
  sendbufHead : t'.conn.sendbufHead = t.conn.sendbufHead
  sendbufLen : t'.conn.sendbufLen = t.conn.sendbufLen

theorem SameRing.contents {t t' : Tcp} (h : SameRing t t') :
    t'.conn.contents = t.conn.contents := by
  rw [Conn.contents, Conn.contents, h.sendbuf, h.sendbufCap, h.sendbufHead, h.sendbufLen]

theorem SameRing.ringOk {t t' : Tcp} (h : SameRing t t') (hr : t.conn.RingOk) :
    t'.conn.RingOk := by
  refine ⟨?_, ?_, ?_⟩
  · rw [h.sendbufHead, h.sendbufCap]; exact hr.head_lt
  · rw [h.sendbufLen, h.sendbufCap]; exact hr.len_le
  · rw [h.sendbufCap]; exact hr.cap_le

/-- Between `t` and `t'` the send side was not touched; only empty segments without FIN were sent. -/
structure Idle (t t' : Tcp) : Prop extends SameRing t t' where
  state : t'.conn.state = t.conn.state
  sndUna : t'.conn.sndUna = t.conn.sndUna
  sndNxt : t'.conn.sndNxt = t.conn.sndNxt
  trace : ∃ es, t'.trace = t.trace ++ es ∧ accepted es = [] ∧
    ∀ seg ∈ segments es, seg.data = [] ∧ seg.flags.fin = false

theorem SameRing.refl (t : Tcp) : SameRing t t := ⟨rfl, rfl, rfl, rfl, rfl⟩

theorem SameRing.trans {t t' t'' : Tcp} (h : SameRing t t') (h' : SameRing t' t'') :
    SameRing t t'' :=
  ⟨h'.iss.trans h.iss, h'.sendbuf.trans h.sendbuf, h'.sendbufCap.trans h.sendbufCap,
    h'.sendbufHead.trans h.sendbufHead, h'.sendbufLen.trans h.sendbufLen⟩

theorem Idle.refl (t : Tcp) : Idle t t :=
  ⟨SameRing.refl t, rfl, rfl, rfl, [], by simp, rfl, by simp [segments]⟩

theorem Idle.trans {t t' t'' : Tcp} (h : Idle t t') (h' : Idle t' t'') : Idle t t'' := by
  obtain ⟨es, hes, hacc, hseg⟩ := h.trace
  obtain ⟨es', hes', hacc', hseg'⟩ := h'.trace
  refine ⟨h.toSameRing.trans h'.toSameRing, h'.state.trans h.state, h'.sndUna.trans h.sndUna,
    h'.sndNxt.trans h.sndNxt, es ++ es', ?_, ?_, ?_⟩
  · rw [hes', hes, List.append_assoc]
  · rw [accepted_append, hacc, hacc']; rfl
  · rw [segments_append]
    exact List.forall_mem_append.2 ⟨hseg, hseg'⟩

theorem Idle.accepted {t t' : Tcp} (h : Idle t t') :
    Wgx.accepted t'.trace = Wgx.accepted t.trace := by
  obtain ⟨es, hes, hacc, -⟩ := h.trace
  rw [hes, accepted_append, hacc, List.append_nil]

theorem Idle.streamEnd {t t' : Tcp} (h : Idle t t') : t'.streamEnd = t.streamEnd := by
  rw [Tcp.streamEnd, Tcp.streamEnd, h.iss, h.accepted]

/-- The segments of `t'` that are new carry nothing. -/
theorem Idle.mem_segments {t t' : Tcp} (h : Idle t t') {seg : Segment}
    (hseg : seg ∈ segments t'.trace) :
    seg ∈ segments t.trace ∨ (seg.data = [] ∧ seg.flags.fin = false) := by
  obtain ⟨es, hes, -, hnew⟩ := h.trace
  rw [hes, segments_append, List.mem_append] at hseg
  exact hseg.imp_right (hnew seg)

theorem Idle.finSent {t t' : Tcp} (h : Idle t t') : t'.FinSent ↔ t.FinSent := by
  constructor
  · rintro ⟨seg, hseg, hfin⟩
    rcases h.mem_segments hseg with hold | ⟨-, hno⟩
    · exact ⟨seg, hold, hfin⟩
    · rw [hno] at hfin; cases hfin
  · rintro ⟨seg, hseg, hfin⟩
    obtain ⟨es, hes, -, -⟩ := h.trace
    exact ⟨seg, by rw [hes, segments_append]; exact List.mem_append_left _ hseg, hfin⟩

theorem Sending.idle {t t' : Tcp} (h : Sending t) (hi : Idle t t') : Sending t' := by
  refine ⟨hi.toSameRing.ringOk h.ring, ?_, ?_, ?_, ?_, ?_⟩
  · rw [hi.toSameRing.contents, hi.accepted]; exact h.held
  · rw [hi.state, hi.sndUna, hi.iss, hi.sndNxt, hi.accepted]; exact h.opening
  · rw [hi.state, hi.sendbufLen, hi.sndUna, hi.streamEnd]; exact h.una
  · rw [hi.state, hi.sndNxt, hi.sndUna, hi.sendbufLen]; exact h.inFlight
  · intro seg hseg
    rw [hi.iss, hi.accepted]
    rcases hi.mem_segments hseg with hold | hnew
    · exact h.carried seg hold
    · exact .inl hnew.1

theorem Finishing.idle {t t' : Tcp} (h : Finishing t) (hi : Idle t t') : Finishing t' := by
  refine ⟨?_, ?_, ?_, ?_⟩
  · intro seg hseg hfin
    rw [hi.streamEnd]
    rcases hi.mem_segments hseg with hold | ⟨-, hno⟩
    · exact h.fins seg hold hfin
    · rw [hno] at hfin; cases hfin
  · rw [hi.finSent, hi.state, hi.sndNxt, hi.streamEnd, hi.sndUna, hi.sendbufLen]; exact h.sent
  · rw [hi.finSent, hi.state]; exact h.waiting
  · rw [hi.state, hi.sndNxt, hi.streamEnd, hi.sndUna, hi.sendbufLen]; exact h.closeWait

theorem SendInv.idle {t t' : Tcp} (h : SendInv t) (hi : Idle t t') : SendInv t' := by
  refine ⟨h.1.idle hi, fun hok => (h.2 fun x hx => ?_).idle hi⟩
  obtain ⟨es, hes, -, -⟩ := hi.trace
  exact hok x (by rw [hes]; exact List.mem_append_left _ hx)

/-! ### Acknowledgements and flags -/

section Steps

variable (env : TcpEnv)

theorem idle_log (t : Tcp) {es : List Entry} (hacc : accepted es = []) (hseg : segments es = []) :
    Idle t (t.log es) :=
  ⟨{ SameRing.refl t with }, rfl, rfl, rfl, es, rfl, hacc, by simp [hseg]⟩

theorem idle_sendSegment {flags : Flags} (hfin : flags.fin = false) (seq ack : Seq) (t : Tcp) :
    Idle t (sendSegment env flags seq ack [] t) :=
  ⟨{ SameRing.refl t with }, rfl, rfl, rfl, _, rfl, rfl, by simp [segments, segmentOf, hfin]⟩

theorem idle_scheduleFlush (t : Tcp) : Idle t (scheduleFlush t) := by
  unfold scheduleFlush
  split_ifs
  · exact Idle.refl t
  · exact { Idle.refl t with }

theorem idle_connDestroy (t : Tcp) : Idle t (connDestroy t) := by
  unfold connDestroy
  split_ifs
  · exact Idle.refl t
  · exact { Idle.refl t with }

theorem idle_tcpAckNow (t : Tcp) : Idle t (tcpAckNow env t) := by
  unfold tcpAckNow
  split_ifs
  · exact Idle.refl t
  · refine Idle.trans ?_ (idle_sendSegment env rfl _ _ _)
    exact { Idle.refl t with }

theorem idle_tcpAckData (len : ℕ) (immediate : Bool) (t : Tcp) :
    Idle t (tcpAckData env len immediate t) := by
  have hcount : Idle t (t.update fun conn => { conn with
      delayedAckSegments := conn.delayedAckSegments + 1
      delayedAckBytes := conn.delayedAckBytes + len }) := { Idle.refl t with }
  unfold tcpAckData
  simp only
  split_ifs
  · exact Idle.refl t
  · exact idle_tcpAckNow env t
  · exact hcount.trans (idle_tcpAckNow env _)
  · exact { Idle.refl t with }
  · exact hcount

theorem idle_tcpUpdateRecvWindow (t : Tcp) : Idle t (tcpUpdateRecvWindow env t) := by
  unfold tcpUpdateRecvWindow
  split_ifs
  · exact Idle.refl t
  · exact idle_tcpAckNow env t

theorem idle_tcpSetRecvWindowCb (set : Bool) (t : Tcp) : Idle t (tcpSetRecvWindowCb set t) := by
  unfold tcpSetRecvWindowCb
  split_ifs
  · exact Idle.refl t
  · exact { Idle.refl t with }

/-! ### Transmission of the ring -/

/-- A part of the ring at its place behind `snd_una` is a part of the stream at its place. -/
theorem Sending.carries {t : Tcp} (h : Sending t) {seg : Segment} {off : ℕ}
    (hr : FromRing t.conn seg off) : Carries t.conn.iss (accepted t.trace) seg := by
  obtain ⟨hseq, hfit, hpre⟩ := hr
  by_cases hlen : t.conn.sendbufLen = 0
  · exact .inl (List.length_eq_zero_iff.1 (by omega))
  · obtain ⟨acked, hacked⟩ := h.held
    have huna := h.una (.inr (by omega))
    refine .inr ⟨acked.length + off, ?_, ?_⟩
    · rw [Tcp.streamEnd, ← hacked, List.length_append, Conn.length_contents,
        ← Serial.add_ofNat_add, BitVec.add_left_inj] at huna
      rw [hseq, huna, Serial.add_ofNat_add]
    · rw [← hacked, List.drop_length_add_append]
      exact hpre

/-- Before the connection ends, the invariant of the FINs says that there are none. -/
theorem finishing_of_not_sent {t : Tcp} (hno : ¬ t.FinSent)
    (hst : t.conn.state.ending = false ∨ t.conn.state = .closed) : Finishing t := by
  have hne : ∀ st : TcpState, st.ending = true → st ≠ .closed → t.conn.state ≠ st := by
    intro st hend hnc heq
    rcases hst with hst | hst
    · rw [heq, hend] at hst; cases hst
    · exact hnc (heq ▸ hst)
  refine ⟨fun seg hseg hfin => absurd ⟨seg, hseg, hfin⟩ hno, fun h => absurd h hno, ?_, ?_⟩
  · rintro (h | h)
    · exact absurd h (hne _ rfl (by decide))
    · exact absurd h (hne _ rfl (by decide))
  · intro h
    exact absurd h (hne _ rfl (by decide))

theorem Finishing.not_sent {t : Tcp} (h : Finishing t) (hst : t.conn.state.ending = false) :
    ¬ t.FinSent := by
  intro hsent
  rw [(h.sent hsent).1] at hst
  cases hst

/-- Data segments of the ring go out and `snd_nxt` moves within it. -/
theorem SendInv.transmit {t t' : Tcp} (h : SendInv t) (hst : t.conn.state = .established)
    {segs : List Segment} {inFlight : ℕ} (hle : inFlight ≤ t.conn.sendbufLen)
    (hsegs : ∀ seg ∈ segs, seg.flags.fin = false ∧ ∃ off, FromRing t.conn seg off)
    (hring : SameRing t t') (hst' : t'.conn.state = .established)
    (huna : t'.conn.sndUna = t.conn.sndUna)
    (hnxt : t'.conn.sndNxt = t.conn.sndUna + BitVec.ofNat 32 inFlight)
    (htrace : t'.trace = t.trace ++ segs.map .segment) : SendInv t' := by
  have hacc : accepted t'.trace = accepted t.trace := by
    rw [htrace, accepted_append, accepted_segments, List.append_nil]
  have hend : t'.streamEnd = t.streamEnd := by rw [Tcp.streamEnd, Tcp.streamEnd, hring.iss, hacc]
  refine ⟨⟨hring.ringOk h.1.ring, ?_, ?_, ?_, ?_, ?_⟩, ?_⟩
  · rw [hring.contents, hacc]
    exact h.1.held
  · rw [hst']
    rintro (hopen | hopen) <;> cases hopen
  · intro _
    rw [huna, hring.sendbufLen, hend]
    exact h.1.una (.inl hst)
  · intro _
    have hsize := h.1.ring.len_le_size
    have hnat : inFlight < 2 ^ 32 := by unfold wgTcpSendbufSize at hsize; omega
    rw [hnxt, huna, BitVec.add_comm t.conn.sndUna, BitVec.add_sub_cancel, BitVec.toNat_ofNat,
      Nat.mod_eq_of_lt hnat, hring.sendbufLen]
    exact hle
  · rw [hacc, hring.iss, htrace, segments_append, segments_segments]
    refine List.forall_mem_append.2 ⟨h.1.carried, fun seg hseg => ?_⟩
    obtain ⟨off, hoff⟩ := (hsegs seg hseg).2
    exact h.1.carries hoff
  · intro hok
    rw [htrace] at hok
    have hno := (h.2 fun x hx => hok x (List.mem_append_left _ hx)).not_sent (by rw [hst]; rfl)
    refine finishing_of_not_sent ?_ (.inl (by rw [hst']; rfl))
    rintro ⟨seg, hseg, hfin⟩
    rw [htrace, segments_append, segments_segments, List.mem_append] at hseg
    rcases hseg with hold | hnew
    · exact hno ⟨seg, hold, hfin⟩
    · rw [(hsegs seg hnew).1] at hfin; cases hfin

theorem SendInv.tcpFlushPending {t : Tcp} (h : SendInv t) : SendInv (tcpFlushPending env t) := by
  unfold Wgx.tcpFlushPending
  by_cases hoff : t.conn.beingFreed = true ∨ t.conn.state ≠ .established
  · rw [if_pos hoff]
    exact h
  · rw [if_neg hoff]
    push Not at hoff
    obtain ⟨hend, hsegs⟩ := flushLoop_spec env h.1.ring t.conn.sendbufLen (h.1.inFlight hoff.2)
    simp only
    split_ifs
    all_goals exact h.transmit hoff.2 hend hsegs ⟨rfl, rfl, rfl, rfl, rfl⟩ hoff.2 rfl rfl rfl

/-- `tcp_send` appends to the stream and to the ring. -/
theorem SendInv.accept {t t' : Tcp} (h : SendInv t) (hst : t.conn.state = .established)
    {data : List Byte} (hring : t'.conn.RingOk)
    (hcontents : t'.conn.contents = t.conn.contents ++ data) (hiss : t'.conn.iss = t.conn.iss)
    (hst' : t'.conn.state = .established) (huna : t'.conn.sndUna = t.conn.sndUna)
    (hnxt : t'.conn.sndNxt = t.conn.sndNxt) (htrace : t'.trace = t.trace ++ [.accepted data]) :
    SendInv t' := by
  have hacc : accepted t'.trace = accepted t.trace ++ data := by
    rw [htrace, accepted_append]
    simp [accepted]
  have hsegs : segments t'.trace = segments t.trace := by
    rw [htrace, segments_append]
    simp [segments]
  have hlen : t'.conn.sendbufLen = t.conn.sendbufLen + data.length := by
    rw [← Conn.length_contents, hcontents, List.length_append, Conn.length_contents]
  refine ⟨⟨hring, ?_, ?_, ?_, ?_, ?_⟩, ?_⟩
  · rw [hcontents, hacc]
    obtain ⟨acked, hacked⟩ := h.1.held
    exact ⟨acked, by rw [← hacked, List.append_assoc]⟩
  · rw [hst']
    rintro (hopen | hopen) <;> cases hopen
  · intro _
    have hend := h.1.una (.inl hst)
    rw [huna, hlen, Tcp.streamEnd, hiss, hacc, List.length_append, ← Serial.add_ofNat_add,
      ← Serial.add_ofNat_add, hend, Tcp.streamEnd]
  · intro _
    rw [hnxt, huna, hlen]
    exact (h.1.inFlight hst).trans (Nat.le_add_right _ _)
  · rw [hiss, hacc, hsegs]
    exact fun seg hseg => (h.1.carried seg hseg).mono
  · intro hok
    rw [htrace] at hok
    have hno := (h.2 fun x hx => hok x (List.mem_append_left _ hx)).not_sent (by rw [hst]; rfl)
    refine finishing_of_not_sent ?_ (.inl (by rw [hst']; rfl))
    rwa [Tcp.FinSent, hsegs]

theorem SendInv.tcpSend {t : Tcp} (h : SendInv t) (data : List Byte) :
    SendInv (tcpSend env data t).2 := by
  unfold Wgx.tcpSend
  split_ifs with hfreed hst hnil hhuge hfull
  iterate 5 exact h
  cases hgrow : sendbufGrow env t.conn (t.conn.sendbufLen + data.length) with
  | none => exact h
  | some grown =>
    obtain ⟨hframe, hring, hroom, hcontents⟩ :=
      sendbufGrow_spec h.1.ring (Nat.le_add_right _ _) hgrow
    rw [not_not] at hst
    have hlen : grown.sendbufLen = t.conn.sendbufLen := by rw [hframe]
    rw [← hlen] at hroom
    have happ : SendInv ((t.update fun _ => sendbufAppend grown data).log [.accepted data]) := by
      refine h.accept hst (ringOk_sendbufAppend hring hroom) ?_ ?_ ?_ ?_ ?_ rfl
      · rw [← hcontents]
        exact contents_sendbufAppend hring hroom
      all_goals
        simp only [Tcp.log_conn, Tcp.update_conn, sendbufAppend]
        rw [hframe]
      exact hst
    simp only
    split_ifs
    · exact happ.tcpFlushPending env
    · exact happ.idle (idle_scheduleFlush _)

/-! ### FINs -/

/-- The connection leaves `ESTABLISHED` or `CLOSE_WAIT`: the ring stays, and so does what was
sent. -/
theorem Sending.leave {t t' : Tcp} (h : Sending t) (hring : SameRing t t')
    (hst' : t'.conn.state.ending = true) (huna : t'.conn.sndUna = t.conn.sndUna) {es : List Entry}
    (htrace : t'.trace = t.trace ++ es) (hacc : accepted es = [])
    (hsegs : ∀ seg ∈ segments es, seg.data = []) : Sending t' := by
  have hacc' : accepted t'.trace = accepted t.trace := by
    rw [htrace, accepted_append, hacc, List.append_nil]
  have hne : t'.conn.state ≠ .established := ne_established_of_ending hst'
  refine ⟨hring.ringOk h.ring, ?_, ?_, ?_, fun hest => absurd hest hne, ?_⟩
  · rw [hring.contents, hacc']
    exact h.held
  · rintro (hopen | hopen) <;> rw [hopen] at hst' <;> cases hst'
  · rintro (hest | hpos)
    · exact absurd hest hne
    · rw [hring.sendbufLen] at hpos ⊢
      rw [huna, Tcp.streamEnd, hring.iss, hacc']
      exact h.una (.inr hpos)
  · rw [hring.iss, hacc', htrace, segments_append]
    exact List.forall_mem_append.2 ⟨h.carried, fun seg hseg => .inl (hsegs seg hseg)⟩

/-- The first FIN, sent when `snd_nxt` stands behind the stream. -/
theorem SendInv.sendFin {t : Tcp} (h : SendInv t) {state : TcpState}
    (hst : state = .finWait ∨ state = .lastAck)
    (hready : (∀ x ∈ t.trace, x.finOk = true) → ¬ t.FinSent ∧ t.conn.sndNxt = t.streamEnd ∧
      t.conn.sndUna + BitVec.ofNat 32 t.conn.sendbufLen = t.streamEnd) :
    SendInv (sendFin env state t) := by
  have hend : state.ending = true := by rcases hst with rfl | rfl <;> rfl
  have hne : state ≠ .closeWait := by rcases hst with rfl | rfl <;> decide
  refine ⟨h.1.leave ⟨rfl, rfl, rfl, rfl, rfl⟩ hend rfl rfl rfl ?_, fun hok => ?_⟩
  · simp [segments, segmentOf]
  · have hsegs : segments (Wgx.sendFin env state t).trace = segments t.trace ++
        [segmentOf env { t.conn with state := state } { fin := true, ack := true } t.conn.sndNxt
          t.conn.rcvNxt []] := segments_append t.trace _
    have hsend : (Wgx.sendFin env state t).streamEnd = t.streamEnd := by
      rw [Tcp.streamEnd, Tcp.streamEnd]
      simp [Wgx.sendFin, sendSegment, accepted_append, accepted]
    obtain ⟨hno, hnxt, huna⟩ := hready fun x hx => hok x (List.mem_append_left _ hx)
    have hsent : (Wgx.sendFin env state t).FinSent :=
      ⟨_, by rw [hsegs]; exact List.mem_append_right _ (List.mem_singleton_self _), rfl⟩
    refine ⟨?_, fun _ => ⟨hend, hne, ?_, .inl ?_⟩, fun _ => hsent, fun hcw => absurd hcw hne⟩
    · rw [hsegs, hsend]
      refine List.forall_mem_append.2 ⟨fun seg hseg hfin => absurd ⟨seg, hseg, hfin⟩ hno, ?_⟩
      simpa [segmentOf] using hnxt
    · rw [hsend, ← hnxt]; rfl
    · rw [hsend]; exact huna

/-- `conn->state = TCPS_CLOSED`, from any state. -/
theorem SendInv.closed {t : Tcp} (h : SendInv t) :
    SendInv (t.update fun conn => { conn with state := .closed }) := by
  refine ⟨h.1.leave ⟨rfl, rfl, rfl, rfl, rfl⟩ rfl rfl (t.trace.append_nil).symm rfl (by simp [segments]),
    fun hok => ?_⟩
  have hfin := h.2 hok
  refine ⟨hfin.fins, fun hsent => ?_, ?_, ?_⟩
  · obtain ⟨-, -, hnxt, huna⟩ := hfin.sent hsent
    exact ⟨rfl, by simp, hnxt, huna⟩
  · rintro (hst | hst) <;> cases hst
  · intro hst
    cases hst

/-- `tcp_close`, called on the connection that the trace records. -/
theorem SendInv.tcpClose {t : Tcp} (h : SendInv t) (hcall : .call .close t.conn ∈ t.trace) :
    SendInv (tcpClose env t) := by
  unfold Wgx.tcpClose
  by_cases hfreed : t.conn.beingFreed = true
  · rw [if_pos hfreed]
    exact h
  rw [if_neg hfreed]
  have hcallok : (∀ x ∈ t.trace, x.finOk = true) → t.conn.state ≠ .closeWait ∧
      (t.conn.state = .established →
        t.conn.sndNxt = t.conn.sndUna + BitVec.ofNat 32 t.conn.sendbufLen) := by
    intro hok
    have hthis := hok _ hcall
    simp only [Entry.finOk, Conn.allSent, hfreed, Bool.false_or, Bool.and_eq_true, Bool.or_eq_true,
      decide_eq_true_eq] at hthis
    exact ⟨hthis.1, fun hst => hthis.2.resolve_left fun hne => hne hst⟩
  cases hst : t.conn.state with
  | established =>
    refine h.sendFin env (.inl rfl) fun hok => ?_
    have huna := h.1.una (.inl hst)
    exact ⟨(h.2 hok).not_sent (by rw [hst]; rfl), ((hcallok hok).2 hst).trans huna, huna⟩
  | closeWait => exact h.sendFin env (.inr rfl) fun hok => absurd hst (hcallok hok).1
  | synSent =>
    exact (h.closed.idle (idle_sendSegment env rfl _ _ _)).idle (idle_connDestroy _)
  | closed => exact h.idle (idle_connDestroy t)
  | synReceived => exact h.idle (idle_connDestroy t)
  | finWait => exact h.idle (idle_connDestroy t)
  | lastAck => exact h.idle (idle_connDestroy t)

theorem SendInv.apiCall {t : Tcp} (h : SendInv t) (a : ApiCall) : SendInv (apiCall env t a) := by
  have hlog : SendInv (t.log [.call a t.conn]) := h.idle (idle_log t rfl rfl)
  cases a with
  | send data => exact hlog.tcpSend env data
  | close => exact hlog.tcpClose env (List.mem_append_right _ (List.mem_singleton_self _))
  | updateRecvWindow => exact hlog.idle (idle_tcpUpdateRecvWindow env _)
  | setRecvWindowCb set => exact hlog.idle (idle_tcpSetRecvWindowCb set _)
  | setWriteable set => exact hlog.idle { Idle.refl _ with }

theorem SendInv.foldl_apiCall (calls : List ApiCall) {t : Tcp} (h : SendInv t) :
    SendInv (calls.foldl (Wgx.apiCall env) t) := by
  induction calls generalizing t with
  | nil => exact h
  | cons a calls ih => exact ih (h.apiCall env a)

/-- Whatever a callback calls, the invariant is kept. -/
theorem SendInv.runCallback {t : Tcp} (h : SendInv t) (cb : Callback) :
    SendInv (runCallback env cb t) :=
  (h.idle (idle_log t rfl rfl)).foldl_apiCall env _

/-! ### Incoming data -/

theorem SendInv.deliver {t : Tcp} (h : SendInv t) (data : List Byte) :
    SendInv (deliver env data t) := by
  have hmove : SendInv (t.update fun conn =>
      { conn with rcvNxt := conn.rcvNxt + BitVec.ofNat 32 data.length }) :=
    h.idle { Idle.refl t with }
  unfold Wgx.deliver
  simp only
  split_ifs
  · exact hmove.runCallback env _
  · exact hmove

theorem SendInv.tcpOooDrain (fuel : ℕ) {t : Tcp} (h : SendInv t) :
    SendInv (tcpOooDrain env fuel t).2 := by
  induction fuel generalizing t with
  | zero => exact h
  | succ fuel ih =>
    unfold Wgx.tcpOooDrain
    split_ifs
    · exact h
    · cases t.conn.rcvOoo with
      | nil => exact h
      | cons seg rest =>
        simp only
        split_ifs
        · exact h
        · refine ih (SendInv.deliver env ?_ _)
          exact h.idle { Idle.refl t with }

theorem SendInv.receiveInOrder {t : Tcp} (h : SendInv t) (data : List Byte) (immediate : Bool) :
    SendInv (receiveInOrder env data immediate t) :=
  ((h.deliver env data).tcpOooDrain env _).idle (idle_tcpAckData env _ _ _)

theorem SendInv.establishedData {t : Tcp} (h : SendInv t) (seg : Inbound) :
    SendInv (establishedData env seg t) := by
  unfold Wgx.establishedData
  simp only
  split_ifs
  · exact h
  · exact h.receiveInOrder env _ _
  · refine SendInv.idle ?_ (idle_tcpAckNow env _)
    rw [Tcp.update, tcpOooQueue_frame]
    exact h.idle { Idle.refl t with }
  · exact h.receiveInOrder env _ _
  · exact h.idle (idle_tcpAckNow env t)
  · exact h

/-! ### Acknowledgements -/

/-- An acknowledgement that advances `snd_una` is for bytes in flight. -/
theorem advances_spec {seg : Inbound} {conn : Conn} (hadv : seg.advances conn = true)
    (hflight : (conn.sndNxt - conn.sndUna).toNat < 2 ^ 31) :
    0 < (seg.ack - conn.sndUna).toNat ∧
      (seg.ack - conn.sndUna).toNat ≤ (conn.sndNxt - conn.sndUna).toNat := by
  simp only [Inbound.advances, Bool.and_eq_true] at hadv
  obtain ⟨-, hgt, hle⟩ := hadv
  rw [seqGt, decide_eq_true_eq, BitVec.toInt_eq_toNat_cond] at hgt
  have hsmall : (seg.ack - conn.sndUna).toNat < 2 ^ 31 ∧ 0 < (seg.ack - conn.sndUna).toNat := by
    split_ifs at hgt <;> omega
  rw [← Serial.add_ofNat_toNat_sub conn.sndUna seg.ack,
    ← Serial.add_ofNat_toNat_sub conn.sndUna conn.sndNxt, seqLe_iff (by omega) (by omega)] at hle
  exact ⟨hsmall.2, hle⟩

/-- `ESTABLISHED`: `snd_una` and the head of the ring move together. -/
theorem SendInv.acked {t t' : Tcp} (h : SendInv t) (hst : t.conn.state = .established) {k : ℕ}
    (hk : k ≤ (t.conn.sndNxt - t.conn.sndUna).toNat) (hring : t'.conn.RingOk)
    (hcontents : t'.conn.contents = t.conn.contents.drop k) (hiss : t'.conn.iss = t.conn.iss)
    (hst' : t'.conn.state = .established)
    (huna : t'.conn.sndUna = t.conn.sndUna + BitVec.ofNat 32 k)
    (hnxt : t'.conn.sndNxt = t.conn.sndNxt) (htrace : t'.trace = t.trace) : SendInv t' := by
  have hflight := h.1.inFlight hst
  have hlen : t'.conn.sendbufLen = t.conn.sendbufLen - k := by
    rw [← Conn.length_contents, hcontents, List.length_drop, Conn.length_contents]
  refine ⟨⟨hring, ?_, ?_, ?_, ?_, ?_⟩, ?_⟩
  · rw [hcontents, htrace]
    exact (List.drop_suffix k _).trans h.1.held
  · rw [hst']
    rintro (hopen | hopen) <;> cases hopen
  · intro _
    rw [huna, hlen, Serial.add_ofNat_add, Nat.add_sub_cancel' (hk.trans hflight), Tcp.streamEnd,
      hiss, htrace]
    exact h.1.una (.inl hst)
  · intro _
    have hsub : (t.conn.sndNxt - (t.conn.sndUna + BitVec.ofNat 32 k)).toNat =
        (t.conn.sndNxt - t.conn.sndUna).toNat - k := by
      have hlt := (t.conn.sndNxt - t.conn.sndUna).isLt
      nth_rewrite 1 [← Serial.add_ofNat_toNat_sub t.conn.sndUna t.conn.sndNxt]
      exact Serial.toNat_sub hk (by omega)
    rw [hnxt, huna, hlen, hsub]
    omega
  · rw [hiss, htrace]
    exact h.1.carried
  · intro hok
    rw [htrace] at hok
    refine finishing_of_not_sent ?_ (.inl (by rw [hst']; rfl))
    rw [Tcp.FinSent, htrace]
    exact (h.2 hok).not_sent (by rw [hst]; rfl)

theorem SendInv.ackAdvance {t : Tcp} (h : SendInv t) (hst : t.conn.state = .established)
    {seg : Inbound} (hadv : seg.advances t.conn = true) : SendInv (ackAdvance env seg t) := by
  have hflight := h.1.inFlight hst
  have hsize := h.1.ring.len_le_size
  have hbound := (advances_spec hadv (by unfold wgTcpSendbufSize at hsize; omega)).2
  have hle : (seg.ack - t.conn.sndUna).toNat ≤ t.conn.sendbufLen := hbound.trans hflight
  have hacked : SendInv (t.update fun conn =>
      { sendbufConsume conn (seg.ack - t.conn.sndUna).toNat with sndUna := seg.ack }) := by
    refine h.acked hst hbound ?_ ?_ ?_ ?_ (Serial.add_ofNat_toNat_sub _ _).symm ?_ rfl
    · exact { ringOk_sendbufConsume h.1.ring (seg.ack - t.conn.sndUna).toNat with }
    · exact contents_sendbufConsume t.conn _
    all_goals
      simp only [Tcp.update_conn]
      rw [sendbufConsume_frame]
    exact hst
  unfold Wgx.ackAdvance
  simp only [hle, Tcp.update, if_true]
  split_ifs
  · exact hacked.idle { Idle.refl _ with }
  · exact hacked.tcpFlushPending env

theorem SendInv.establishedAck {t : Tcp} (h : SendInv t) (hst : t.conn.state = .established)
    (seg : Inbound) : SendInv (establishedAck env seg t) := by
  unfold Wgx.establishedAck
  simp only
  split_ifs with hadv
  · exact (h.ackAdvance env hst hadv).runCallback env _
  · exact h.ackAdvance env hst hadv
  · exact h

/-- The acknowledgement of our SYN opens the stream. -/
theorem SendInv.opened {t t' : Tcp} (h : SendInv t)
    (hst : t.conn.state = .synSent ∨ t.conn.state = .synReceived) (hring : SameRing t t')
    (hst' : t'.conn.state = .established) (huna : t'.conn.sndUna = t.conn.iss + 1)
    (hnxt : t'.conn.sndNxt = t.conn.sndNxt) (htrace : t'.trace = t.trace) : SendInv t' := by
  obtain ⟨-, hnxt0, hacc⟩ := h.1.opening hst
  have hlen : t.conn.sendbufLen = 0 := by
    rw [← Conn.length_contents, List.length_eq_zero_iff, ← List.suffix_nil, ← hacc]
    exact h.1.held
  refine ⟨⟨hring.ringOk h.1.ring, ?_, ?_, ?_, ?_, ?_⟩, ?_⟩
  · rw [hring.contents, htrace]
    exact h.1.held
  · rw [hst']
    rintro (hopen | hopen) <;> cases hopen
  · intro _
    rw [huna, hring.sendbufLen, hlen, Tcp.streamEnd, hring.iss, htrace, hacc]
    rfl
  · intro _
    rw [hnxt, huna, hnxt0, BitVec.sub_self]
    exact Nat.zero_le _
  · rw [hring.iss, htrace]
    exact h.1.carried
  · intro hok
    rw [htrace] at hok
    refine finishing_of_not_sent ?_ (.inl (by rw [hst']; rfl))
    rw [Tcp.FinSent, htrace]
    exact (h.2 hok).not_sent (by rcases hst with hst | hst <;> rw [hst] <;> rfl)

theorem SendInv.inputSynReceived {t : Tcp} (h : SendInv t) (hst : t.conn.state = .synReceived)
    (seg : Inbound) : SendInv (inputSynReceived env seg t) := by
  unfold Wgx.inputSynReceived
  by_cases hack : seg.flags.ack = true ∧ seg.ack = t.conn.sndNxt
  · rw [if_pos hack]
    have hopen : SendInv (t.update fun conn => { conn with
        sndUna := seg.ack, state := .established, retransmitTimer := false, retransmitCount := 0 }) :=
      h.opened (.inr hst) ⟨rfl, rfl, rfl, rfl, rfl⟩ rfl
        (hack.2.trans (h.1.opening (.inr hst)).2.1) rfl rfl
    simp only
    split_ifs
    · exact hopen.receiveInOrder env _ _
    · exact hopen
  · rw [if_neg hack]
    exact h

/-- A SYN-ACK that passes the checks acknowledges exactly our SYN. -/
theorem synAck_eq {iss ack : Seq} (hgt : seqGt ack iss = true) (hle : seqGt ack (iss + 1) = false) :
    ack = iss + 1 := by
  rw [seqGt, decide_eq_true_eq, BitVec.toInt_eq_toNat_cond] at hgt
  have hsmall : (ack - iss).toNat < 2 ^ 31 ∧ 0 < (ack - iss).toNat := by split_ifs at hgt <;> omega
  have hiff : seqGt (iss + BitVec.ofNat 32 (ack - iss).toNat) (iss + BitVec.ofNat 32 1) = true ↔
      1 < (ack - iss).toNat := seqGt_iff (by omega) (by omega)
  rw [Serial.add_ofNat_toNat_sub] at hiff
  have hone : ¬ 1 < (ack - iss).toNat := fun h => by
    have hahead := hiff.2 h
    rw [show iss + BitVec.ofNat 32 1 = iss + 1 from rfl, hle] at hahead
    cases hahead
  have heq : (ack - iss).toNat = 1 := by omega
  rw [← Serial.add_ofNat_toNat_sub iss ack, heq]
  rfl

theorem SendInv.inputSynSent {t : Tcp} (h : SendInv t) (hst : t.conn.state = .synSent)
    (seg : Inbound) : SendInv (inputSynSent env seg t) := by
  obtain ⟨huna, hnxt, -⟩ := h.1.opening (.inl hst)
  unfold Wgx.inputSynSent
  by_cases hsyn : seg.flags.syn = true ∧ seg.flags.ack = true
  · rw [if_pos hsyn]
    by_cases hack : (!seqGt seg.ack t.conn.sndUna) = true ∨ seqGt seg.ack t.conn.sndNxt = true
    · rw [if_pos hack]
      exact h
    · rw [if_neg hack]
      push Not at hack
      have heq : seg.ack = t.conn.iss + 1 :=
        synAck_eq (by simpa [huna] using hack.1) (by simpa [hnxt] using hack.2)
      have hopen : SendInv ((t.update fun conn => parseSynOptions seg.options { conn with
          sndUna := seg.ack
          rcvNxt := seg.seq + 1
          state := .established
          retransmitTimer := false
          retransmitCount := 0 }).update fun conn =>
            { conn with sndWnd := seg.window.toNat * 2 ^ conn.sndWscale }) :=
        h.opened (.inl hst) ⟨rfl, rfl, rfl, rfl, rfl⟩ rfl heq rfl rfl
      simp only
      split_ifs
      · exact (hopen.idle (idle_tcpAckNow env _)).runCallback env _
      · exact hopen.idle (idle_tcpAckNow env _)
  · rw [if_neg hsyn]
    exact h

/-! ### The remote FIN -/

/-- A remote FIN that finds nothing unsent leaves `snd_nxt` behind the stream. -/
theorem SendInv.takeFin {t : Tcp} (h : SendInv t) : SendInv (takeFin env t) := by
  obtain ⟨ackSeg, hdata, hfin, htrace⟩ : ∃ ackSeg : Segment, ackSeg.data = [] ∧
      ackSeg.flags.fin = false ∧
      (Wgx.takeFin env t).trace = t.trace ++ [Entry.remoteFin t.conn, Entry.segment ackSeg] :=
    ⟨segmentOf env (Wgx.takeFin env t).conn { ack := true } t.conn.sndNxt (t.conn.rcvNxt + 1) [],
      rfl, rfl, List.append_assoc t.trace [_] [_]⟩
  refine ⟨h.1.leave ⟨rfl, rfl, rfl, rfl, rfl⟩ rfl rfl htrace rfl (by simp [segments, hdata]),
    fun hok => ?_⟩
  rw [htrace] at hok
  have hthis := hok (.remoteFin t.conn) (by simp)
  simp only [Entry.finOk, Conn.allSent, Bool.and_eq_true, decide_eq_true_eq] at hthis
  obtain ⟨hst, hall⟩ := hthis
  have hno := (h.2 fun x hx => hok x (List.mem_append_left _ hx)).not_sent (by rw [hst]; rfl)
  have huna := h.1.una (.inl hst)
  have hend : (Wgx.takeFin env t).streamEnd = t.streamEnd := by
    rw [Tcp.streamEnd, Tcp.streamEnd, htrace, accepted_append]
    simp [accepted, Wgx.takeFin, sendSegment]
  have hno' : ¬ (Wgx.takeFin env t).FinSent := by
    rintro ⟨seg, hseg, hsegfin⟩
    rw [htrace, segments_append, List.mem_append] at hseg
    rcases hseg with hold | hnew
    · exact hno ⟨seg, hold, hsegfin⟩
    · rw [List.mem_singleton.1 hnew, hfin] at hsegfin
      cases hsegfin
  refine ⟨fun seg hseg hsegfin => absurd ⟨seg, hseg, hsegfin⟩ hno', fun hs => absurd hs hno', ?_,
    fun _ => ?_⟩
  · rintro (hst' | hst') <;> cases hst'
  · rw [hend]
    exact ⟨hall.trans huna, huna⟩

/-- Under `Entry.finOk` no call of the owner leaves `CLOSE_WAIT`. -/
theorem closeWait_apiCall {t : Tcp} (hst : t.conn.state = .closeWait) (a : ApiCall)
    (hok : ∀ x ∈ (apiCall env t a).trace, x.finOk = true) :
    (apiCall env t a).conn.state = .closeWait := by
  cases a with
  | send data =>
    have hne : t.conn.state ≠ .established := by rw [hst]; decide
    simpa [apiCall, tcpSend, hne] using hst
  | close =>
    have hmem : .call .close t.conn ∈ (apiCall env t .close).trace := by
      obtain ⟨es, hes⟩ := (quiet_tcpClose env (t.log [.call .close t.conn])).toCalm.trace
      rw [show apiCall env t .close = tcpClose env (t.log [.call .close t.conn]) from rfl, hes]
      simp
    have hfreed : t.conn.beingFreed = true := by
      have hthis := hok _ hmem
      simpa [Entry.finOk, hst] using hthis
    simpa [apiCall, tcpClose, hfreed] using hst
  | updateRecvWindow => exact (idle_tcpUpdateRecvWindow env _).state.trans hst
  | setRecvWindowCb set => exact (idle_tcpSetRecvWindowCb set _).state.trans hst
  | setWriteable set => exact hst

theorem closeWait_foldl_apiCall (calls : List ApiCall) {t : Tcp}
    (hst : t.conn.state = .closeWait)
    (hok : ∀ x ∈ (calls.foldl (apiCall env) t).trace, x.finOk = true) :
    (calls.foldl (apiCall env) t).conn.state = .closeWait := by
  induction calls generalizing t with
  | nil => exact hst
  | cons a calls ih =>
    refine ih (closeWait_apiCall env hst a fun x hx => hok x ?_) hok
    obtain ⟨es, hes⟩ := (quiet_foldl_apiCall env calls (apiCall env t a)).toCalm.trace
    rw [List.foldl_cons, hes]
    exact List.mem_append_left _ hx

theorem closeWait_notifyClose {t : Tcp} (hst : t.conn.state = .closeWait)
    (hok : ∀ x ∈ (notifyClose env t).trace, x.finOk = true) :
    (notifyClose env t).conn.state = .closeWait := by
  unfold notifyClose at hok ⊢
  simp only at hok ⊢
  split_ifs at hok ⊢
  · exact hst
  · exact closeWait_foldl_apiCall env _ (t := Tcp.log _ _) hst hok
  · exact hst

theorem SendInv.notifyClose {t : Tcp} (h : SendInv t) : SendInv (notifyClose env t) := by
  have hset : SendInv (t.update fun conn => { conn with closeNotified := true }) :=
    h.idle { Idle.refl t with }
  unfold Wgx.notifyClose
  simp only
  split_ifs
  · exact h
  · exact hset.runCallback env _
  · exact hset

theorem SendInv.establishedFin {t : Tcp} (h : SendInv t) (seg : Inbound) :
    SendInv (establishedFin env seg t) := by
  unfold Wgx.establishedFin
  split_ifs
  · have hnotify := (h.takeFin env).notifyClose env
    refine hnotify.sendFin env (.inr rfl) fun hok => ?_
    have hst := closeWait_notifyClose env (t := Wgx.takeFin env t) rfl hok
    obtain ⟨hnxt, huna⟩ := (hnotify.2 hok).closeWait hst
    exact ⟨fun hsent => ((hnotify.2 hok).sent hsent).2.1 hst, hnxt, huna⟩
  · exact h

/-! ### The closing states -/

/-- An acknowledgement that `FIN_WAIT` takes without harm: the ring is empty, or nothing is
acknowledged. -/
def AckSafe (seg : Inbound) (conn : Conn) : Prop :=
  conn.state = .finWait → seg.flags.rst = false → seg.advances conn = true → conn.sendbufLen = 0

theorem SendInv.finWaitAck {t : Tcp} (h : SendInv t) (hst : t.conn.state = .finWait)
    {seg : Inbound} (hsafe : seg.advances t.conn = true → t.conn.sendbufLen = 0) :
    SendInv (finWaitAck seg t) := by
  unfold Wgx.finWaitAck
  by_cases hadv : seg.advances t.conn = true
  · rw [if_pos hadv]
    have hlen := hsafe hadv
    have hmove : SendInv (t.update fun conn => { conn with sndUna := seg.ack }) := by
      refine ⟨⟨{ h.1.ring with }, h.1.held, ?_, ?_, ?_, h.1.carried⟩, fun hok => ?_⟩
      · rw [Tcp.update_conn, hst]
        rintro (hopen | hopen) <;> cases hopen
      · rw [Tcp.update_conn, hst]
        rintro (hopen | hpos)
        · cases hopen
        · exact absurd hpos (by rw [hlen]; exact lt_irrefl 0)
      · rw [Tcp.update_conn, hst]
        intro hopen
        cases hopen
      · have hfin := h.2 hok
        obtain ⟨hend, hne, hnxt, huna⟩ := hfin.sent (hfin.waiting (.inl hst))
        -- only the FIN is in flight, and it is what the segment acknowledges
        have hack : seg.ack = t.streamEnd + 1 := by
          rcases huna with huna | ⟨-, huna⟩
          · rw [hlen, BitVec.add_zero] at huna
            have hflight : (t.conn.sndNxt - t.conn.sndUna).toNat = 1 := by
              rw [hnxt, huna, BitVec.add_comm, BitVec.add_sub_cancel]
              rfl
            have hbound := advances_spec hadv (by omega)
            have hone : (seg.ack - t.conn.sndUna).toNat = 1 := by omega
            rw [← Serial.add_ofNat_toNat_sub t.conn.sndUna seg.ack, hone, huna]
            rfl
          · have hflight : (t.conn.sndNxt - t.conn.sndUna).toNat = 0 := by
              rw [hnxt, huna, BitVec.sub_self]
              rfl
            have hbound := advances_spec hadv (by omega)
            omega
        exact ⟨hfin.fins, fun _ => ⟨hend, hne, hnxt, .inr ⟨hlen, hack⟩⟩, hfin.waiting,
          fun hcw => absurd hcw hne⟩
    simp only
    split_ifs
    · exact hmove.idle { Idle.refl _ with }
    · exact hmove
  · rw [if_neg hadv]
    exact h

theorem SendInv.inputFinWait {t : Tcp} (h : SendInv t) (hst : t.conn.state = .finWait)
    {seg : Inbound} (hsafe : seg.advances t.conn = true → t.conn.sendbufLen = 0) :
    SendInv (inputFinWait env seg t) := by
  have hack := h.finWaitAck hst hsafe
  unfold Wgx.inputFinWait
  simp only
  split_ifs
  · refine SendInv.idle (SendInv.closed (SendInv.idle ?_ (idle_sendSegment env rfl _ _ _)))
      (idle_connDestroy _)
    exact hack.idle { Idle.refl _ with }
  · exact hack

theorem SendInv.inputLastAck {t : Tcp} (h : SendInv t) (seg : Inbound) :
    SendInv (inputLastAck seg t) := by
  unfold Wgx.inputLastAck
  split_ifs
  · refine SendInv.idle (SendInv.idle h.closed ?_) (idle_connDestroy _)
    exact { Idle.refl _ with }
  · exact h

theorem SendInv.tcpstackInput {t : Tcp} (h : SendInv t) {seg : Inbound}
    (hsafe : AckSafe seg t.conn) : SendInv (tcpstackInput env seg t) := by
  unfold Wgx.tcpstackInput
  split_ifs with hfreed hrst
  · exact h
  · exact h.closed.idle (idle_connDestroy _)
  · have hwnd : SendInv (updateSndWnd seg t) := h.idle { Idle.refl t with }
    unfold inputState
    cases hst : (updateSndWnd seg t).conn.state with
    | synReceived => exact hwnd.inputSynReceived env hst seg
    | synSent => exact hwnd.inputSynSent env hst seg
    | established =>
      exact ((hwnd.establishedAck env hst seg).establishedData env seg).establishedFin env seg
    | finWait => exact hwnd.inputFinWait env hst (hsafe hst (by simpa using hrst))
    | lastAck => exact hwnd.inputLastAck seg
    | closed => exact hwnd
    | closeWait => exact hwnd

/-! ### Retransmission -/

/-- Parts of the ring go out again, and with them the FIN that was sent before. -/
theorem SendInv.resend {t t' : Tcp} (h : SendInv t) {segs : List Segment} (hring : SameRing t t')
    (hst : t'.conn.state = t.conn.state) (huna : t'.conn.sndUna = t.conn.sndUna)
    (hnxt : t'.conn.sndNxt = t.conn.sndNxt) (htrace : t'.trace = t.trace ++ segs.map .segment)
    (hsegs : ∀ seg ∈ segs, Carries t.conn.iss (accepted t.trace) seg ∧
      (seg.flags.fin = true → Finishing t → t.FinSent ∧
        seg.seq + BitVec.ofNat 32 seg.data.length = t.streamEnd)) : SendInv t' := by
  have hacc : accepted t'.trace = accepted t.trace := by
    rw [htrace, accepted_append, accepted_segments, List.append_nil]
  have hend : t'.streamEnd = t.streamEnd := by rw [Tcp.streamEnd, Tcp.streamEnd, hring.iss, hacc]
  refine ⟨⟨hring.ringOk h.1.ring, ?_, ?_, ?_, ?_, ?_⟩, fun hok => ?_⟩
  · rw [hring.contents, hacc]; exact h.1.held
  · rw [hst, huna, hring.iss, hnxt, hacc]; exact h.1.opening
  · rw [hst, hring.sendbufLen, huna, hend]; exact h.1.una
  · rw [hst, hnxt, huna, hring.sendbufLen]; exact h.1.inFlight
  · rw [hring.iss, hacc, htrace, segments_append, segments_segments]
    exact List.forall_mem_append.2 ⟨h.1.carried, fun seg hseg => (hsegs seg hseg).1⟩
  · rw [htrace] at hok
    have hfin := h.2 fun x hx => hok x (List.mem_append_left _ hx)
    have hsent : t'.FinSent ↔ t.FinSent := by
      rw [Tcp.FinSent, htrace, segments_append, segments_segments]
      constructor
      · rintro ⟨seg, hseg, hsegfin⟩
        rcases List.mem_append.1 hseg with hold | hnew
        · exact ⟨seg, hold, hsegfin⟩
        · exact ((hsegs seg hnew).2 hsegfin hfin).1
      · rintro ⟨seg, hseg, hsegfin⟩
        exact ⟨seg, List.mem_append_left _ hseg, hsegfin⟩
    refine ⟨?_, ?_, ?_, ?_⟩
    · rw [hend, htrace, segments_append, segments_segments]
      exact List.forall_mem_append.2
        ⟨hfin.fins, fun seg hseg hsegfin => ((hsegs seg hseg).2 hsegfin hfin).2⟩
    · rw [hsent, hst, hnxt, hend, huna, hring.sendbufLen]; exact hfin.sent
    · rw [hsent, hst]; exact hfin.waiting
    · rw [hst, hnxt, hend, huna, hring.sendbufLen]; exact hfin.closeWait

/-- What the retransmission loop sends is in its place. -/
theorem Sending.retransmitLoop {t : Tcp} (h : Sending t) (fuel : ℕ) :
    ∀ seg ∈ retransmitLoop env t.conn fuel 0, Carries t.conn.iss (accepted t.trace) seg ∧
      (seg.flags.fin = true → Finishing t → t.FinSent ∧
        seg.seq + BitVec.ofNat 32 seg.data.length = t.streamEnd) := by
  intro seg hseg
  obtain ⟨off, hlt, hoff, hlast⟩ := retransmitLoop_spec env h.ring fuel 0 seg hseg
  refine ⟨h.carries hoff, fun hsegfin hfin => ?_⟩
  obtain ⟨hend, hst⟩ := hlast hsegfin
  refine ⟨hfin.waiting hst, ?_⟩
  rw [hoff.1, Serial.add_ofNat_add, hend]
  exact h.una (.inr (by omega))

/-- Empty segments without FIN are always in place. -/
theorem carries_empty {t : Tcp} {seg : Segment} (hdata : seg.data = [])
    (hfin : seg.flags.fin = false) : Carries t.conn.iss (accepted t.trace) seg ∧
      (seg.flags.fin = true → Finishing t → t.FinSent ∧
        seg.seq + BitVec.ofNat 32 seg.data.length = t.streamEnd) :=
  ⟨.inl hdata, fun h => by rw [hfin] at h; cases h⟩

theorem Sending.retransmitSegments {t : Tcp} (h : Sending t) :
    ∀ seg ∈ retransmitSegments env t.conn, Carries t.conn.iss (accepted t.trace) seg ∧
      (seg.flags.fin = true → Finishing t → t.FinSent ∧
        seg.seq + BitVec.ofNat 32 seg.data.length = t.streamEnd) := by
  -- the bare FIN goes out again at `snd_nxt - 1`
  have hbare : t.conn.state = .finWait ∨ t.conn.state = .lastAck →
      ∀ seg ∈ [segmentOf env t.conn { fin := true, ack := true } (t.conn.sndNxt - 1) t.conn.rcvNxt []],
        Carries t.conn.iss (accepted t.trace) seg ∧
        (seg.flags.fin = true → Finishing t → t.FinSent ∧
          seg.seq + BitVec.ofNat 32 seg.data.length = t.streamEnd) := by
    intro hst seg hseg
    rw [List.mem_singleton.1 hseg]
    refine ⟨.inl rfl, fun _ hfin => ?_⟩
    have hsent := hfin.waiting hst
    refine ⟨hsent, ?_⟩
    have hnxt := (hfin.sent hsent).2.2.1
    show t.conn.sndNxt - 1 + BitVec.ofNat 32 0 = t.streamEnd
    rw [BitVec.add_zero, hnxt, BitVec.add_sub_cancel]
  unfold Wgx.retransmitSegments
  cases hst : t.conn.state with
  | closed => simp
  | synSent =>
    intro seg hseg
    rw [List.mem_singleton.1 hseg]
    exact carries_empty rfl rfl
  | synReceived =>
    intro seg hseg
    rw [List.mem_singleton.1 hseg]
    exact carries_empty rfl rfl
  | established => exact h.retransmitLoop env _
  | closeWait => exact h.retransmitLoop env _
  | finWait =>
    simp only
    split_ifs
    · exact h.retransmitLoop env _
    · exact hbare (.inl hst)
  | lastAck =>
    simp only
    split_ifs
    · exact h.retransmitLoop env _
    · exact hbare (.inr hst)

theorem SendInv.notifyAbort {t : Tcp} (h : SendInv t) : SendInv (notifyAbort env t) := by
  have hset : SendInv (t.update fun conn => { conn with closeNotified := true }) :=
    h.idle { Idle.refl t with }
  unfold Wgx.notifyAbort
  simp only
  split_ifs
  · exact h
  · exact hset.runCallback env _
  · exact hset.runCallback env _
  · exact hset

theorem SendInv.retransmitCb {t : Tcp} (h : SendInv t) : SendInv (retransmitCb env t) := by
  have hcount : SendInv (t.update fun conn =>
      { conn with retransmitTimer := false, retransmitCount := conn.retransmitCount + 1 }) :=
    h.idle { Idle.refl t with }
  unfold Wgx.retransmitCb
  simp only
  split_ifs
  · exact h
  · exact (hcount.closed.notifyAbort env).idle (idle_connDestroy _)
  · exact hcount.resend ⟨rfl, rfl, rfl, rfl, rfl⟩ rfl rfl rfl rfl
      (hcount.1.retransmitSegments env)

theorem SendInv.flushCheckCb {t : Tcp} (h : SendInv t) : SendInv (flushCheckCb env t) := by
  have hoff : SendInv (t.update fun conn => { conn with flushQueued := false }) :=
    h.idle { Idle.refl t with }
  unfold Wgx.flushCheckCb
  simp only
  split_ifs
  · exact hoff
  · exact hoff.tcpFlushPending env

theorem idle_delayedAckCb (t : Tcp) : Idle t (delayedAckCb env t) := by
  have hstop : Idle t (t.update fun conn => { conn with ackTimer := false }) :=
    { Idle.refl t with }
  unfold delayedAckCb
  simp only
  split_ifs
  · exact hstop
  · exact hstop
  · exact hstop.trans (idle_tcpAckNow env _)

theorem SendInv.timerCloseCb {t : Tcp} (h : SendInv t) : SendInv (timerCloseCb env t) := by
  have hcount : SendInv (t.update fun conn =>
      { conn with closePending := conn.closePending - 1 }) := h.idle { Idle.refl t with }
  unfold Wgx.timerCloseCb
  simp only
  split_ifs
  · exact hcount
  · exact (hcount.notifyClose env).idle { Idle.refl _ with }

end Steps

/-! ### Runs -/

/-- The segment of an event is no harm to a connection in `FIN_WAIT`. -/
def TcpEvent.AckSafe (t : Tcp) : TcpEvent → Prop
  | .input seg => Wgx.AckSafe seg t.conn
  | _ => True

theorem SendInv.tcpStep {t : Tcp} (h : SendInv t) {e : TcpEnv × TcpEvent}
    (hsafe : e.2.AckSafe t) : SendInv (tcpStep t e) := by
  obtain ⟨env, e⟩ := e
  refine tcpStep_cases h (fun a _ => h.apiCall env a) ?_ (h.flushCheckCb env)
    (fun _ => h.retransmitCb env) (h.idle (idle_delayedAckCb env t)) (fun _ => h.timerCloseCb env)
  rintro seg rfl
  exact h.tcpstackInput env hsafe

/-- A connection that has accepted and sent nothing. -/
theorem sendInv_start {conn : Conn} (hst : conn.state = .synSent ∨ conn.state = .synReceived)
    (hring : conn.RingOk) (hlen : conn.sendbufLen = 0) (huna : conn.sndUna = conn.iss)
    (hnxt : conn.sndNxt = conn.iss + 1) : SendInv ⟨conn, []⟩ := by
  have hnil : conn.contents = [] := List.length_eq_zero_iff.1 (by rw [Conn.length_contents, hlen])
  have hearly : conn.state.ending = false := by rcases hst with hst | hst <;> rw [hst] <;> rfl
  refine ⟨⟨hring, ?_, fun _ => ⟨huna, hnxt, rfl⟩, ?_, ?_, by simp [segments]⟩, fun _ => ?_⟩
  · rw [hnil]; exact List.nil_suffix
  · rintro (hest | hpos)
    · rcases hst with hst | hst <;> rw [hst] at hest <;> cases hest
    · exact absurd hpos (by rw [hlen]; exact lt_irrefl 0)
  · intro hest
    rcases hst with hst | hst <;> rw [hst] at hest <;> cases hest
  · refine finishing_of_not_sent ?_ (.inl hearly)
    rintro ⟨seg, hseg, -⟩
    cases hseg

theorem ringOk_fresh (state : TcpState) (iss rcvNxt : Seq) (handlers : Handlers) :
    (Conn.fresh state iss rcvNxt handlers).RingOk := by
  refine ⟨?_, ?_, ?_⟩ <;>
    simp [Conn.fresh, wgTcpSendbufInitialSize, wgTcpSendbufSize]

theorem Opened.sendInv {t : Tcp} (h : Opened t) : SendInv t := by
  cases h with
  | connect env iss handlers =>
    refine SendInv.idle ?_ (idle_sendSegment env rfl _ _ _)
    exact sendInv_start (.inl rfl) (ringOk_fresh _ _ _ _) rfl rfl rfl
  | accept env iss handlers seg hsyn hack =>
    unfold tcpstackAccept
    apply SendInv.runCallback
    have hfin : Flags.fin { syn := true, ack := true } = false := rfl
    refine SendInv.idle (SendInv.idle ?_ (idle_sendSegment env hfin iss _ _)) { Idle.refl _ with }
    refine sendInv_start (.inr rfl) ?_ rfl rfl rfl
    exact { ringOk_fresh .synReceived iss (seg.seq + 1) ⟨false, false, false, false, false⟩ with }

theorem sendInv_run {t : Tcp} (h0 : Opened t) {es : List (TcpEnv × TcpEvent)}
    (hes : Machine.Guarded tcpStep (fun t e => e.2.AckSafe t) t es) :
    SendInv (Machine.run tcpStep t es) :=
  Machine.run_induction tcpStep (fun _ _ h hsafe => h.tcpStep hsafe) h0.sendInv hes

/-- The byte at every offset of the send ring is the byte of the stream with the sequence number
`snd_una` plus the offset, and every data segment sent carries the bytes of the stream from its
sequence number on. -/
def SendAligned (t : Tcp) : Prop :=
  (∃ pos, ∀ i < t.conn.sendbufLen,
    (accepted t.trace)[pos + i]? =
      some (t.conn.sendbuf ((t.conn.sendbufHead + i) % t.conn.sendbufCap)) ∧
    t.conn.sndUna + BitVec.ofNat 32 i = t.conn.iss + 1 + BitVec.ofNat 32 (pos + i)) ∧
  ∀ seg ∈ segments t.trace, Carries t.conn.iss (accepted t.trace) seg

theorem Sending.aligned {t : Tcp} (h : Sending t) : SendAligned t := by
  refine ⟨?_, h.carried⟩
  obtain ⟨acked, hacked⟩ := h.held
  refine ⟨acked.length, fun i hi => ⟨?_, ?_⟩⟩
  · rw [← hacked, List.getElem?_append_right (Nat.le_add_right _ _), Nat.add_sub_cancel_left,
      Conn.contents, Ring.getElem?_window, if_pos hi]
  · have huna := h.una (.inr (by omega))
    rw [Tcp.streamEnd, ← hacked, List.length_append, Conn.length_contents,
      ← Serial.add_ofNat_add, BitVec.add_left_inj] at huna
    rw [huna, Serial.add_ofNat_add]

/-- **The send ring stays aligned with `snd_una`** in every run in which no segment advances
`snd_una` in `FIN_WAIT` while the ring still holds bytes. -/
theorem send_aligned {t : Tcp} (h0 : Opened t) {es : List (TcpEnv × TcpEvent)}
    (hes : Machine.Guarded tcpStep (fun t e => e.2.AckSafe t) t es) :
    SendAligned (Machine.run tcpStep t es) :=
  (sendInv_run h0 hes).1.aligned

/-- An acknowledgement of the remote peer of `exampleConn`. -/
def exampleAck (ack : Seq) : Inbound := ⟨{ ack := true }, 0xfffffffe, ack, 1000, [], []⟩

/-- Open, send two bytes, let them go, take an acknowledgement for the first. -/
def partialAckRun : List (TcpEnv × TcpEvent) :=
  [(exampleEnv, .input exampleSynAck), (exampleEnv, .call (.send [97, 98])), (exampleEnv, .flush),
    (exampleEnv, .input (exampleAck 2)), (exampleEnv, .retransmit)]

/-- The same with `tcp_close` before the acknowledgement. -/
def closedAckRun : List (TcpEnv × TcpEvent) :=
  [(exampleEnv, .input exampleSynAck), (exampleEnv, .call (.send [97, 98])), (exampleEnv, .flush),
    (exampleEnv, .call .close), (exampleEnv, .input (exampleAck 2)), (exampleEnv, .retransmit)]

theorem send_aligned_partial :
    SendAligned (Machine.run tcpStep (tcpstackConnect exampleEnv 0 exampleHandlers)
      partialAckRun) := by
  refine send_aligned (Opened.connect _ _ _) ⟨?_, trivial, trivial, ?_, trivial, trivial⟩
  · unfold TcpEvent.AckSafe AckSafe
    decide
  · unfold TcpEvent.AckSafe AckSafe
    decide

/-- In `FIN_WAIT` the acknowledgement of the first byte leaves it in the ring: the retransmission
sends both bytes one place too late. -/
theorem finWait_ack_misaligns :
    ¬ SendAligned (Machine.run tcpStep (tcpstackConnect exampleEnv 0 exampleHandlers)
      closedAckRun) ∧
    ∃ seg ∈ segments (Machine.run tcpStep (tcpstackConnect exampleEnv 0 exampleHandlers)
      closedAckRun).trace, seg.seq = 2 ∧ seg.data = [97, 98] := by
  constructor
  · generalize hrun : Machine.run tcpStep (tcpstackConnect exampleEnv 0 exampleHandlers)
      closedAckRun = t
    have hfacts : accepted t.trace = [97, 98] ∧ t.conn.sendbufLen = 2 ∧ t.conn.sndUna = 2 ∧
        t.conn.iss = 0 ∧ t.conn.sendbuf ((t.conn.sendbufHead + 0) % t.conn.sendbufCap) = 97 := by
      rw [← hrun]
      decide
    obtain ⟨hacc, hlen, huna, hiss, hbuf⟩ := hfacts
    rintro ⟨⟨pos, hpos⟩, -⟩
    obtain ⟨hbyte, hseq⟩ := hpos 0 (by omega)
    rw [hacc, hbuf] at hbyte
    rw [huna, hiss] at hseq
    -- the first byte of the ring is the first of the stream
    rcases pos with - | - | pos
    · exact absurd hseq (by decide)
    · exact absurd hbyte (by decide)
    · simp at hbyte
  · decide

/-! ### Our FIN -/

/-- Every FIN sent lies behind all that was accepted, so every retransmission repeats the sequence
number of the first; this is `snd_una + sendbuf_len` until the FIN is acknowledged. -/
def FinInPlace (t : Tcp) : Prop :=
  ∀ seg ∈ segments t.trace, seg.flags.fin = true →
    seg.seq + BitVec.ofNat 32 seg.data.length = t.streamEnd ∧
    (seg.seq + BitVec.ofNat 32 seg.data.length =
        t.conn.sndUna + BitVec.ofNat 32 t.conn.sendbufLen ∨
      t.conn.sndUna = seg.seq + BitVec.ofNat 32 seg.data.length + 1)

theorem Finishing.inPlace {t : Tcp} (h : Finishing t) : FinInPlace t := by
  intro seg hseg hfin
  have hend := h.fins seg hseg hfin
  refine ⟨hend, ?_⟩
  rw [hend]
  obtain ⟨-, -, -, huna⟩ := h.sent ⟨seg, hseg, hfin⟩
  rcases huna with huna | ⟨-, huna⟩
  · exact .inl huna.symm
  · exact .inr huna

/-- **Our FIN follows all accepted data** in every run in which `tcp_close` and the handling of a
remote FIN find nothing unsent and start at most one FIN (`Entry.finOk`), and no segment advances
`snd_una` in `FIN_WAIT` while the ring still holds bytes. -/
theorem fin_follows_data {t : Tcp} (h0 : Opened t) {es : List (TcpEnv × TcpEvent)}
    (hes : Machine.Guarded tcpStep (fun t e => e.2.AckSafe t) t es)
    (hok : ∀ x ∈ (Machine.run tcpStep t es).trace, x.finOk = true) :
    FinInPlace (Machine.run tcpStep t es) :=
  ((sendInv_run h0 hes).2 hok).inPlace

/-- Open, send two bytes, let them go, close, retransmit. -/
def closeRun : List (TcpEnv × TcpEvent) :=
  [(exampleEnv, .input exampleSynAck), (exampleEnv, .call (.send [97, 98])), (exampleEnv, .flush),
    (exampleEnv, .call .close), (exampleEnv, .retransmit)]

theorem fin_follows_data_close :
    FinInPlace (Machine.run tcpStep (tcpstackConnect exampleEnv 0 exampleHandlers) closeRun) := by
  refine fin_follows_data (Opened.connect _ _ _) ⟨?_, trivial, trivial, trivial, trivial, trivial⟩ ?_
  · unfold TcpEvent.AckSafe AckSafe
    decide
  · decide

/-- `tcp_close` right behind `tcp_send`: the FIN takes the sequence number of the first byte, which
is still in the ring. -/
theorem close_before_flush :
    ¬ FinInPlace (Machine.run tcpStep (tcpstackConnect exampleEnv 0 exampleHandlers)
      [(exampleEnv, .input exampleSynAck), (exampleEnv, .call (.send [97, 98])),
        (exampleEnv, .call .close)]) := by
  unfold FinInPlace
  decide

end Wgx
