import Wgx.Tcp.Packet
import Wgx.Tcp.Window

/-!
# Packets and the tunnel

* `Segment.Sized n`: at most `n` bytes of data, and none beside a SYN or SACK blocks.
* `Sizing n`: what a connection sent so far is of that kind, and what it will send as long as the
  peer announces no more than `n`.
* `packets_fit`: over IPv4, or below an announced segment size of 1360, every packet fits the
  tunnel; each fits the buffer it is built in.
-/

namespace Wgx

/-! ### Sizes -/

/-- The size of the buffer `pkt` of `send_segment`. -/
def sendSegmentPktSize : ℕ := 40 + 24 + wgTcpMss

/-- At most `n` bytes of data, and none beside options. -/
structure Segment.Sized (n : ℕ) (seg : Segment) : Prop where
  data : seg.data.length ≤ n
  sack : seg.sack.length ≤ wgTcpMaxSackBlocks
  bare : seg.flags.syn = true ∨ 0 < seg.sack.length → seg.data = []

section Sizes

variable {n : ℕ} {env : TcpEnv} {conn : Conn} {flags : Flags}

theorem sized_segmentOf {seq ack : Seq} {data : List Byte} (hdata : data.length ≤ n)
    (hsyn : flags.syn = true → data = []) : (segmentOf env conn flags seq ack data).Sized n := by
  refine ⟨hdata, (shaped_segmentOf env conn flags seq ack data).sack, ?_⟩
  rintro (hflag | hsack)
  · exact hsyn hflag
  · by_contra hsome
    have hlen : data.length ≠ 0 := fun hzero => hsome (List.length_eq_zero_iff.1 hzero)
    have hnone : (sackBlocks conn flags data.length).length = 0 := by
      rw [sackBlocks, if_neg (fun hno => hlen hno.2.1)]
      rfl
    exact absurd hsack (by show ¬ 0 < (sackBlocks conn flags data.length).length; omega)

theorem sized_bare {seq ack : Seq} : (segmentOf env conn flags seq ack []).Sized n :=
  sized_segmentOf (Nat.zero_le _) fun _ => rfl

theorem length_ipPacket_le (addr : ConnAddr) {seg : Segment} (h : seg.Sized n) :
    (ipPacket addr seg).length ≤ addr.ipHdrLen + 20 + max 28 n := by
  have hsack : seg.sack.length ≤ 3 := h.sack
  have hdata := h.data
  rw [length_ipPacket, Segment.hdrLen, length_options]
  split_ifs with hsyn hnone
  · rw [h.bare (Or.inl hsyn)]
    simp only [List.length_nil]
    omega
  · omega
  · rw [h.bare (Or.inr (by omega))]
    simp only [List.length_nil]
    omega

theorem ipHdrLen_le (addr : ConnAddr) : addr.ipHdrLen ≤ 40 := by
  unfold ConnAddr.ipHdrLen
  split <;> decide

theorem Segment.Sized.fits_pkt (addr : ConnAddr) {seg : Segment} (h : seg.Sized wgTcpMss) :
    (ipPacket addr seg).length ≤ sendSegmentPktSize := by
  have hlen := length_ipPacket_le addr h
  have hhdr := ipHdrLen_le addr
  have hmax : max 28 wgTcpMss = 1380 := by decide
  rw [show sendSegmentPktSize = 1444 from rfl]
  omega

/-- **`send_segment` stays within its buffer** unless it is called for a SYN with data. -/
theorem sendSegment_fits_pkt (addr : ConnAddr) (env : TcpEnv) (conn : Conn) (seq ack : Seq)
    {data : List Byte} (hdata : data.length ≤ wgTcpMss) (hsyn : flags.syn = true → data = []) :
    (ipPacket addr (segmentOf env conn flags seq ack data)).length ≤ sendSegmentPktSize :=
  (sized_segmentOf hdata hsyn).fits_pkt addr

@[simp] theorem length_sendbufCopyOut (off len : ℕ) :
    (sendbufCopyOut conn off len).length = len := by
  rw [sendbufCopyOut, Ring.ringRead, List.length_append, Ring.length_slice, Ring.length_slice]
  split_ifs <;> omega

/-- The segment size in use is one that the peer can take. -/
def Conn.MssAtMost (conn : Conn) (n : ℕ) : Prop := 0 < conn.sndMss ∧ conn.sndMss ≤ n

theorem mss_le (h : conn.MssAtMost n) : conn.mss ≤ n := by
  rw [Conn.mss, if_pos (by have := h.1; omega)]
  exact h.2

theorem flushSegLen_le_mss (inFlight : ℕ) : conn.flushSegLen inFlight ≤ conn.mss := by
  unfold Conn.flushSegLen
  simp only
  split_ifs <;> omega

theorem sized_flushLoop (h : conn.MssAtMost n) (fuel inFlight : ℕ) :
    ∀ seg ∈ (flushLoop env conn fuel inFlight).1, seg.Sized n := by
  induction fuel generalizing inFlight with
  | zero => exact fun seg hseg => by cases hseg
  | succ fuel ih =>
    unfold flushLoop
    simp only
    split_ifs
    · exact fun seg hseg => by cases hseg
    · refine List.forall_mem_cons.2 ⟨sized_segmentOf ?_ (fun hsyn => by cases hsyn), ih _⟩
      rw [length_sendbufCopyOut]
      exact (flushSegLen_le_mss inFlight).trans (mss_le h)
    · exact fun seg hseg => by cases hseg

theorem sized_retransmitLoop (h : conn.MssAtMost n) (fuel off : ℕ) :
    ∀ seg ∈ retransmitLoop env conn fuel off, seg.Sized n := by
  induction fuel generalizing off with
  | zero => exact fun seg hseg => by cases hseg
  | succ fuel ih =>
    unfold retransmitLoop
    by_cases hmore : off < conn.sendbufLen
    · rw [if_pos hmore]
      simp only
      generalize hlen : (if conn.sendbufLen - off > conn.mss then conn.mss
        else conn.sendbufLen - off) = len
      have hmss := mss_le h
      refine List.forall_mem_cons.2 ⟨sized_segmentOf ?_ (fun hsyn => by cases hsyn), ih _⟩
      rw [length_sendbufCopyOut]
      split_ifs at hlen <;> omega
    · rw [if_neg hmore]
      exact fun seg hseg => by cases hseg

theorem sized_retransmitSegments (h : conn.MssAtMost n ∨ conn.state = .synSent ∨
    conn.state = .closed) : ∀ seg ∈ retransmitSegments env conn, seg.Sized n := by
  have hbare : ∀ flags seq ack, ∀ seg ∈ [segmentOf env conn flags seq ack []], seg.Sized n :=
    fun flags seq ack seg hseg => by
      rw [List.mem_singleton.1 hseg]
      exact sized_bare
  have hloop : conn.state ≠ .synSent → conn.state ≠ .closed →
      ∀ seg ∈ retransmitLoop env conn conn.sendbufLen 0, seg.Sized n := by
    intro hsyn hclosed
    exact sized_retransmitLoop (h.resolve_right fun hno => hno.elim hsyn hclosed) _ _
  unfold retransmitSegments
  cases hst : conn.state with
  | synSent => exact hbare _ _ _
  | synReceived => exact hbare _ _ _
  | closed => exact fun seg hseg => by cases hseg
  | established => exact hloop (by rw [hst]; decide) (by rw [hst]; decide)
  | closeWait => exact hloop (by rw [hst]; decide) (by rw [hst]; decide)
  | finWait =>
    simp only
    split_ifs
    · exact hloop (by rw [hst]; decide) (by rw [hst]; decide)
    · exact hbare _ _ _
  | lastAck =>
    simp only
    split_ifs
    · exact hloop (by rw [hst]; decide) (by rw [hst]; decide)
    · exact hbare _ _ _

end Sizes

/-! ### What a connection sends -/

/-- The segment size is negotiated and at most `n`, and so was what was sent. -/
structure Negotiated (n : ℕ) (t : Tcp) : Prop where
  mss : t.conn.MssAtMost n
  state : t.conn.state ≠ .synSent
  sent : ∀ seg ∈ segments t.trace, seg.Sized n

/-- No data can be sent yet, or none any more. -/
structure Mute (n : ℕ) (t : Tcp) : Prop where
  state : t.conn.state = .synSent ∨ t.conn.state = .closed
  sent : ∀ seg ∈ segments t.trace, seg.Sized n

/-- What a connection sends is at most `n` bytes long. -/
def Sizing (n : ℕ) (t : Tcp) : Prop := Negotiated n t ∨ Mute n t

section Sizing

variable {n : ℕ} {env : TcpEnv} {seg : Inbound} {t t' : Tcp}

theorem sent_append {es : List Entry} (h : ∀ seg ∈ segments t.trace, seg.Sized n)
    (htrace : t'.trace = t.trace ++ es) (hes : ∀ seg ∈ segments es, seg.Sized n) :
    ∀ seg ∈ segments t'.trace, seg.Sized n := by
  rw [htrace, segments_append]
  exact List.forall_mem_append.2 ⟨h, hes⟩

/-- One more segment without data. -/
theorem sent_bare {flags : Flags} {seq ack : Seq} {conn : Conn}
    (h : ∀ seg ∈ segments t.trace, seg.Sized n)
    (htrace : t'.trace = t.trace ++ [.segment (segmentOf env conn flags seq ack [])]) :
    ∀ seg ∈ segments t'.trace, seg.Sized n :=
  sent_append h htrace fun seg hseg => by
    rw [List.mem_singleton.1 hseg]
    exact sized_bare

theorem trace_connDestroy (t : Tcp) : (connDestroy t).trace = t.trace := by
  unfold connDestroy
  split_ifs <;> rfl

/-- A move sends data only in `ESTABLISHED`. -/
theorem sent_move (hm : Move env t t') (hmss : t.conn.state = .established → t.conn.MssAtMost n)
    (h : ∀ seg ∈ segments t.trace, seg.Sized n) : ∀ seg ∈ segments t'.trace, seg.Sized n := by
  cases hm with
  | note e he =>
    refine sent_append h rfl fun seg hseg => ?_
    rw [segments_note he] at hseg
    cases hseg
  | accept data => exact sent_append h rfl fun seg hseg => by cases hseg
  | flush hlive hst =>
    have hsegs : ∀ seg ∈ segments ((flushLoop env t.conn t.conn.sendbufLen
        (t.conn.sndNxt - t.conn.sndUna).toNat).1.map Entry.segment), seg.Sized n := by
      rw [segments_segments]
      exact sized_flushLoop (hmss hst) _ _
    unfold tcpFlushPending
    rw [if_neg (by simp [hlive, hst])]
    simp only
    split_ifs
    · exact sent_append h rfl hsegs
    · exact sent_append h rfl hsegs
  | ack hlive =>
    unfold tcpAckNow
    rw [if_neg (by simp [hlive])]
    exact sent_bare h rfl
  | close state hlive hst => exact sent_bare h rfl
  | reset =>
    rw [trace_connDestroy]
    exact sent_bare h rfl
  | destroy =>
    rw [trace_connDestroy]
    exact h
  | finish =>
    rw [trace_connDestroy]
    exact h
  | countFin hst => exact sent_bare h rfl
  | _ => exact h

theorem sndMss_connDestroy (t : Tcp) : (connDestroy t).conn.sndMss = t.conn.sndMss ∧
    (connDestroy t).conn.state = t.conn.state := by
  unfold connDestroy
  split_ifs <;> exact ⟨rfl, rfl⟩

/-- A move leaves the segment size alone, and enters no state but the closing ones. -/
theorem mss_move (hm : Move env t t') : t'.conn.sndMss = t.conn.sndMss ∧
    (t'.conn.state = t.conn.state ∨ t'.conn.state = .closed ∨
      (t.conn.state = .established ∧ t'.conn.state = .finWait) ∨
      (t.conn.state = .closeWait ∧ t'.conn.state = .lastAck)) := by
  cases hm with
  | accept data grown hlive hst hpos hfit hgrow =>
    have hframe := sendbufGrow_frame hgrow
    refine ⟨?_, Or.inl ?_⟩
    · rw [hframe]; rfl
    · rw [hframe]; rfl
  | flush =>
    unfold tcpFlushPending
    simp only
    split_ifs <;> exact ⟨rfl, Or.inl rfl⟩
  | ack =>
    unfold tcpAckNow
    split_ifs <;> exact ⟨rfl, Or.inl rfl⟩
  | close state hlive hst =>
    refine ⟨rfl, Or.inr (Or.inr ?_)⟩
    rcases hst with ⟨hst, rfl⟩ | ⟨hst, rfl⟩
    · exact Or.inl ⟨hst, rfl⟩
    · exact Or.inr ⟨hst, rfl⟩
  | reset =>
    obtain ⟨hmss, hst⟩ := sndMss_connDestroy (sendSegment env { rst := true } t.conn.sndNxt 0 []
      (t.update fun conn => { conn with state := .closed }))
    exact ⟨hmss, Or.inr (Or.inl hst)⟩
  | destroy =>
    obtain ⟨hmss, hst⟩ := sndMss_connDestroy t
    exact ⟨hmss, Or.inl hst⟩
  | finish =>
    obtain ⟨hmss, hst⟩ := sndMss_connDestroy (t.update fun conn => { conn with state := .closed })
    exact ⟨hmss, Or.inr (Or.inl hst)⟩
  | queueOoo seq data hgt =>
    rw [Tcp.update_conn, tcpOooQueue_frame]
    exact ⟨rfl, Or.inl rfl⟩
  | _ => exact ⟨rfl, Or.inl rfl⟩

theorem negotiated_move (h : Negotiated n t) (hm : Move env t t') : Negotiated n t' := by
  obtain ⟨hmss, hst⟩ := mss_move hm
  refine ⟨?_, ?_, sent_move hm (fun _ => h.mss) h.sent⟩
  · rw [Conn.MssAtMost, hmss]
    exact h.mss
  · rcases hst with hst | hst | ⟨-, hst⟩ | ⟨-, hst⟩
    · rw [hst]
      exact h.state
    all_goals
      rw [hst]
      decide

theorem mute_move (h : Mute n t) (hm : Move env t t') : Mute n t' := by
  have hnot : t.conn.state ≠ .established ∧ t.conn.state ≠ .closeWait := by
    rcases h.state with hst | hst <;> rw [hst] <;> decide
  refine ⟨?_, sent_move hm (fun hst => absurd hst hnot.1) h.sent⟩
  rcases (mss_move hm).2 with hst | hst | ⟨hst, -⟩ | ⟨hst, -⟩
  · rw [hst]
    exact h.state
  · exact Or.inr hst
  · exact absurd hst hnot.1
  · exact absurd hst hnot.2

theorem negotiated_path (h : Negotiated n t) (hp : Path env t t') : Negotiated n t' := by
  induction hp with
  | refl => exact h
  | tail _ hm ih => exact negotiated_move ih hm

theorem mute_path (h : Mute n t) (hp : Path env t t') : Mute n t' := by
  induction hp with
  | refl => exact h
  | tail _ hm ih => exact mute_move ih hm

/-- An acknowledgement other than that of our SYN. -/
theorem negotiated_acked (h : Negotiated n t) (ha : Acked env seg t t') : Negotiated n t' := by
  cases ha with
  | passive hst hack hnxt => exact ⟨h.mss, nofun, h.sent⟩
  | active hst => exact absurd hst h.state
  | data hst hadv =>
    have hframe : ∀ k, (if k ≤ t.conn.sendbufLen then sendbufConsume t.conn k else t.conn).sndMss =
        t.conn.sndMss ∧ (if k ≤ t.conn.sendbufLen then sendbufConsume t.conn k else t.conn).state =
          t.conn.state := by
      intro k
      split_ifs
      · rw [sendbufConsume_frame]
        exact ⟨rfl, rfl⟩
      · exact ⟨rfl, rfl⟩
    obtain ⟨hmss, hst'⟩ := hframe (seg.ack - t.conn.sndUna).toNat
    refine ⟨?_, ?_, h.sent⟩
    · show 0 < (if _ then _ else _ : Conn).sndMss ∧ (if _ then _ else _ : Conn).sndMss ≤ n
      rw [hmss]
      exact h.mss
    · show (if _ then _ else _ : Conn).state ≠ _
      rw [hst']
      exact h.state
  | fin hst hadv => exact ⟨h.mss, h.state, h.sent⟩

theorem negotiated_input (h : Negotiated n t) (hi : Input env t t') : Negotiated n t' := by
  cases hi with
  | path hp => exact negotiated_path h hp
  | acked seg h₀ hack h₁ => exact negotiated_path (negotiated_acked (negotiated_path h h₀) hack) h₁

theorem sent_resent (h : ∀ seg ∈ segments t.trace, seg.Sized n)
    (hmss : t.conn.MssAtMost n ∨ t.conn.state = .synSent ∨ t.conn.state = .closed) :
    ∀ seg ∈ segments (resent env t).trace, seg.Sized n := by
  refine sent_append h rfl ?_
  rw [segments_segments]
  exact sized_retransmitSegments hmss

theorem negotiated_tcpStep (h : Negotiated n t) (e : TcpEnv × TcpEvent) :
    Negotiated n (tcpStep t e) := by
  generalize heq : tcpStep t e = t'
  have hshape : StepShape e.1 e.2 t t' := heq ▸ tcpStep_shape t e
  cases hshape with
  | input hi => exact negotiated_input h hi
  | @fin t₂ t₃ hst hi hclose =>
    have h₂ := negotiated_input h hi
    have htake : Negotiated n (takeFin e.1 t₂) := by
      refine ⟨h₂.mss, nofun, ?_⟩
      exact sent_bare (sent_append h₂.sent (Tcp.log_trace _ _) fun seg hseg => by cases hseg) rfl
    have h₃ := negotiated_path htake hclose
    exact ⟨h₃.mss, nofun, sent_bare h₃.sent rfl⟩
  | resend => exact ⟨h.mss, h.state, sent_resent h.sent (Or.inl h.mss)⟩
  | abort he hlive htimer hcount habort =>
    have hclosed : Negotiated n ((retransmitFired t).update fun conn =>
        { conn with state := .closed }) := ⟨h.mss, nofun, h.sent⟩
    exact negotiated_path (negotiated_path hclosed habort) (path_connDestroy e.1 _)

/-! ### The announced segment size -/

/-- The loop of `parse_syn_options` keeps the segment size within bounds. -/
theorem parseOptions_bounds (fuel : ℕ) (opts : List Byte) {found : ℕ × ℕ}
    (h : 0 < found.1 ∧ found.1 ≤ wgTcpMss) :
    0 < (parseOptions fuel opts found).1 ∧ (parseOptions fuel opts found).1 ≤ wgTcpMss := by
  induction fuel generalizing opts found with
  | zero => exact h
  | succ fuel ih =>
    obtain ⟨mss, wscale⟩ := found
    unfold parseOptions
    cases opts with
    | nil => exact h
    | cons kind rest =>
      simp only
      by_cases hend : kind = 0
      · rw [if_pos hend]
        exact h
      rw [if_neg hend]
      by_cases hnop : kind = 1
      · rw [if_pos hnop]
        exact ih _ h
      rw [if_neg hnop]
      cases rest with
      | nil => exact h
      | cons optlen body =>
        simp only
        by_cases hbad : optlen.toNat < 2 ∨ optlen.toNat > (kind :: optlen :: body).length
        · rw [if_pos hbad]
          exact h
        rw [if_neg hbad]
        apply ih
        match body with
        | [] => exact h
        | [shift] =>
          simp only
          split_ifs <;> exact h
        | hi :: lo :: _ =>
          simp only
          split_ifs with _ hrange
          · exact ⟨hrange.1, hrange.2.le⟩
          all_goals exact h

/-- The size announced with a SYN or SYN-ACK is at most `n`. -/
def Inbound.AnnouncesAtMost (seg : Inbound) (n : ℕ) : Prop :=
  (parseOptions seg.options.length seg.options (wgTcpMss, 0)).1 ≤ n

/-- The event, if it opens the connection, announces at most `n`. -/
def OpensAtMost (n : ℕ) (t : Tcp) (e : TcpEnv × TcpEvent) : Prop :=
  match e.2 with
  | .input seg => t.conn.state = .synSent → seg.opens t.conn = true → seg.AnnouncesAtMost n
  | _ => True

theorem sizing_inputSynSent (h : Mute n t) (hst : t.conn.state = .synSent)
    (hok : seg.opens t.conn = true → seg.AnnouncesAtMost n) :
    Sizing n (inputSynSent env seg t) := by
  by_cases hflags : seg.flags.syn = true ∧ seg.flags.ack = true
  · by_cases hbad : (!seqGt seg.ack t.conn.sndUna) = true ∨ seqGt seg.ack t.conn.sndNxt = true
    · rw [inputSynSent, if_pos hflags, if_pos hbad]
      exact Or.inr h
    · push Not at hbad
      have hgt : seqGt seg.ack t.conn.sndUna = true := by simpa using hbad.1
      have hle : seqGt seg.ack t.conn.sndNxt = false := Bool.eq_false_iff.2 hbad.2
      have hopens : seg.opens t.conn = true := by
        simp only [Inbound.opens, hst, hflags.1, hflags.2, hgt, hle, Bool.not_false, Bool.and_self]
      obtain ⟨t₁, hack, hp⟩ := acked_inputSynSent env seg hst hflags hgt hle
      refine Or.inl (negotiated_path ?_ hp)
      cases hack with
      | active =>
        exact ⟨⟨(parseOptions_bounds _ _ ⟨by decide, le_rfl⟩).1, hok hopens⟩,
          (fun hno => by cases hno), h.sent⟩
      | passive hst' => exact absurd (hst.symm.trans hst') (by decide)
      | data hst' => exact absurd (hst.symm.trans hst') (by decide)
      | fin hst' => exact absurd (hst.symm.trans hst') (by decide)
  · rw [inputSynSent, if_neg hflags]
    exact Or.inr h

theorem mute_tcpStep (h : Mute n t) {e : TcpEnv × TcpEvent} (hok : OpensAtMost n t e) :
    Sizing n (tcpStep t e) := by
  obtain ⟨env, e⟩ := e
  have hcourse : ∀ t', Course env t t' → Sizing n t' := fun t' hc => Or.inr (mute_path h hc.path)
  refine tcpStep_cases (Or.inr h) (fun a _ => hcourse _ (course_apiCall env t a)) ?_
    (hcourse _ (course_flushCheckCb env t)) (fun _ => ?_) (hcourse _ (course_delayedAckCb env t))
    (fun _ => hcourse _ (course_timerCloseCb env t))
  · rintro seg rfl
    unfold tcpstackInput
    split_ifs with hfreed hrst
    · exact Or.inr h
    · exact Or.inr (mute_path h (@Move.finish env t (Bool.eq_false_iff.2 hfreed)).path)
    · have hwnd : Mute n (updateSndWnd seg t) := ⟨h.state, h.sent⟩
      unfold inputState
      rcases h.state with hst | hst
      · rw [show (updateSndWnd seg t).conn.state = .synSent from hst]
        exact sizing_inputSynSent hwnd hst (hok hst)
      · rw [show (updateSndWnd seg t).conn.state = .closed from hst]
        exact Or.inr hwnd
  · by_cases hfreed : t.conn.beingFreed = true
    · rw [retransmitCb, if_pos hfreed]
      exact Or.inr h
    · rw [retransmitCb_of_live (Bool.eq_false_iff.2 hfreed)]
      split_ifs
      · have hclosed : Mute n ((retransmitFired t).update fun conn =>
            { conn with state := .closed }) := ⟨Or.inr rfl, h.sent⟩
        exact Or.inr (mute_path hclosed
          ((path_notifyAbort env _).trans (path_connDestroy env _)))
      · exact Or.inr ⟨h.state, sent_resent h.sent (Or.inr h.state)⟩

theorem sizing_tcpStep (h : Sizing n t) {e : TcpEnv × TcpEvent} (hok : OpensAtMost n t e) :
    Sizing n (tcpStep t e) := by
  rcases h with h | h
  · exact Or.inl (negotiated_tcpStep h e)
  · exact mute_tcpStep h hok

theorem mss_path (hp : Path env t t') : t'.conn.sndMss = t.conn.sndMss ∧
    (t.conn.state ≠ .synSent → t'.conn.state ≠ .synSent) := by
  induction hp with
  | refl => exact ⟨rfl, id⟩
  | tail _ hm ih =>
    obtain ⟨hmss, hst⟩ := mss_move hm
    refine ⟨hmss.trans ih.1, fun hno => ?_⟩
    rcases hst with hst | hst | ⟨-, hst⟩ | ⟨-, hst⟩
    · rw [hst]
      exact ih.2 hno
    all_goals
      rw [hst]
      decide

/-- The first segment of a connection has no data. -/
theorem sent_first {conn : Conn} {flags : Flags} {seq ack : Seq} :
    ∀ seg ∈ segments (sendSegment env flags seq ack [] ⟨conn, []⟩).trace, seg.Sized n :=
  fun seg hseg => by
    rw [List.mem_singleton.1 hseg]
    exact sized_bare

/-- A connection that was just opened; if it was accepted, the SYN announced at most `n`. -/
theorem sizing_opened (h : Opened t) (hmss : t.conn.state = .synSent ∨ t.conn.sndMss ≤ n) :
    Sizing n t := by
  cases h with
  | connect env iss handlers => exact Or.inr ⟨Or.inl rfl, sent_first⟩
  | accept env iss handlers seg hsyn hack =>
    unfold tcpstackAccept at hmss ⊢
    simp only at hmss ⊢
    generalize hstart : (sendSegment _ _ _ _ _ _).update _ = start at hmss ⊢
    have hstate : start.conn.state ≠ .synSent := by
      rw [← hstart]
      exact nofun
    have hpos : 0 < start.conn.sndMss := by
      rw [← hstart]
      exact (parseOptions_bounds _ _ ⟨by decide, le_rfl⟩).1
    have hsent : ∀ seg ∈ segments start.trace, seg.Sized n := by
      rw [← hstart]
      exact @sent_first n env _ _ _ _
    have hpath := path_runCallback env .accept start
    obtain ⟨hframe, hst⟩ := mss_path hpath
    have hle := hmss.resolve_left (hst hstate)
    rw [hframe] at hle
    exact Or.inl (negotiated_path ⟨⟨hpos, hle⟩, hstate, hsent⟩ hpath)

end Sizing

/-! ### What the tunnel takes -/

section Fit

variable (addr : ConnAddr) {start : Tcp} {es : List (TcpEnv × TcpEvent)}

theorem sizing_run {n : ℕ} (hopen : Opened start)
    (hmss : start.conn.state = .synSent ∨ start.conn.sndMss ≤ n)
    (hes : Machine.Guarded tcpStep (OpensAtMost n) start es) :
    ∀ seg ∈ segments (Machine.run tcpStep start es).trace, seg.Sized n := by
  have hsizing : Sizing n (Machine.run tcpStep start es) :=
    @Machine.run_induction _ _ tcpStep (OpensAtMost n) (Sizing n)
      (fun _ _ h hok => sizing_tcpStep h hok) _ (sizing_opened hopen hmss) _ hes
  rcases hsizing with h | h
  · exact h.sent
  · exact h.sent

/-- Whatever the peer announces, no segment is longer than `WG_TCP_MSS`. -/
theorem announcesAtMost_wgTcpMss (seg : Inbound) : seg.AnnouncesAtMost wgTcpMss :=
  (parseOptions_bounds _ _ ⟨by decide, le_rfl⟩).2

theorem sized_run (hopen : Opened start) (es : List (TcpEnv × TcpEvent)) :
    ∀ seg ∈ segments (Machine.run tcpStep start es).trace, seg.Sized wgTcpMss := by
  refine sizing_run hopen ?_ (Machine.guarded_of_always _ (fun t e => ?_) start es)
  · cases hopen with
    | connect env iss handlers => exact Or.inl rfl
    | accept env iss handlers seg =>
      refine Or.inr ?_
      rw [tcpstackAccept]
      simp only
      rw [(mss_path (path_runCallback _ _ _)).1]
      exact (parseOptions_bounds _ _ ⟨by decide, le_rfl⟩).2
  · unfold OpensAtMost
    split
    · exact fun _ _ => announcesAtMost_wgTcpMss _
    · trivial

/-- **Every packet fits the tunnel** if the connection runs over IPv4, or the peer announces a
segment size of at most 1360; every packet fits the buffer that `send_segment` builds it in. -/
theorem packets_fit (hopen : Opened start)
    (hok : addr.family = .inet ∨ (start.conn.state = .synSent ∨ start.conn.sndMss ≤ 1360) ∧
      Machine.Guarded tcpStep (OpensAtMost 1360) start es) :
    ∀ seg ∈ segments (Machine.run tcpStep start es).trace,
      (ipPacket addr seg).length ≤ wgDefaultMtu ∧
        (ipPacket addr seg).length ≤ sendSegmentPktSize := by
  intro seg hseg
  have hsized := sized_run hopen es seg hseg
  have hlen := length_ipPacket_le addr hsized
  have hhdr := ipHdrLen_le addr
  have hmax : max 28 wgTcpMss = 1380 := by decide
  refine ⟨?_, hsized.fits_pkt addr⟩
  rw [show wgDefaultMtu = 1420 from rfl]
  rcases hok with hfam | ⟨hmss, hes⟩
  · have h20 : addr.ipHdrLen = 20 := by rw [ConnAddr.ipHdrLen, hfam]
    omega
  · have hsmall := length_ipPacket_le addr (sizing_run hopen hmss hes seg hseg)
    omega

end Fit

/-- An owner that sends a full segment as soon as the connection is open. -/
def fullSegment (synAck : Inbound) : List (TcpEnv × TcpEvent) :=
  [(exampleEnv, .input synAck), (exampleEnv, .call (.send (List.replicate 1380 0))),
    (exampleEnv, .flush)]

/-- The addresses of a connection over IPv6. -/
def exampleAddr6 : ConnAddr := { exampleAddr with family := .inet6 }

theorem packets_fit_small : Opened (tcpstackConnect exampleEnv 0 exampleHandlers) ∧
    ∀ seg ∈ segments (Machine.run tcpStep (tcpstackConnect exampleEnv 0 exampleHandlers)
      (fullSegment ⟨{ syn := true, ack := true }, 0xfffffffd, 1, 2000, [2, 4, 5, 0x50], []⟩)).trace,
    (ipPacket exampleAddr6 seg).length ≤ wgDefaultMtu ∧
      (ipPacket exampleAddr6 seg).length ≤ sendSegmentPktSize :=
  ⟨.connect _ _ _, packets_fit exampleAddr6 (.connect _ _ _)
    (Or.inr ⟨Or.inl rfl, fun _ _ => by unfold Inbound.AnnouncesAtMost; decide, trivial, trivial,
      trivial⟩)⟩

/-- A SYN-ACK without options lets 1380 bytes of data go out with 60 bytes of headers. -/
theorem full_segment_over_inet6 : ¬ ∀ (addr : ConnAddr) (start : Tcp)
    (es : List (TcpEnv × TcpEvent)), Opened start →
      ∀ seg ∈ segments (Machine.run tcpStep start es).trace,
        (ipPacket addr seg).length ≤ wgDefaultMtu ∧
          (ipPacket addr seg).length ≤ sendSegmentPktSize := by
  intro h
  have hrun := h exampleAddr6 _ (fullSegment
    ⟨{ syn := true, ack := true }, 0xfffffffd, 1, 2000, [], []⟩)
    (.connect exampleEnv 0 exampleHandlers)
  have hdata : ∃ seg ∈ segments (Machine.run tcpStep (tcpstackConnect exampleEnv 0 exampleHandlers)
      (fullSegment ⟨{ syn := true, ack := true }, 0xfffffffd, 1, 2000, [], []⟩)).trace,
      seg.data.length = 1380 := by decide +kernel
  obtain ⟨seg, hseg, hlen⟩ := hdata
  have hpkt := (hrun seg hseg).1
  rw [length_ipPacket, hlen, show exampleAddr6.ipHdrLen = 40 from rfl, Segment.hdrLen,
    show wgDefaultMtu = 1420 from rfl] at hpkt
  omega

end Wgx
