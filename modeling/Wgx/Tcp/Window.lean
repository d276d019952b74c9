import Wgx.Tcp.Timer

/-!
# The receive window of the peer

* `InWindow`: new data leaves only in `ESTABLISHED`, and within `snd_wnd` from `snd_una` on;
  whatever the owner and the stack do between two segments keeps to that.
* `Flow`: the positions of `snd_una` and of the right edges that the peer advertised.
* `window_respected`: no byte is sent beyond all of these edges, as long as each window that is
  stored and each retransmission stay within one of them.
-/

namespace Wgx

/-! ### Sending within the window -/

/-- The data of a segment lies in the `wnd` bytes from `una` on. -/
def Segment.Inside (seg : Segment) (una : Seq) (wnd : ℕ) : Prop :=
  ∃ j, seg.seq = una + BitVec.ofNat 32 j ∧ j + seg.data.length ≤ wnd

/-- Between `t` and `t'` data is sent only in `ESTABLISHED` and within the window, which stays where
it is. -/
structure InWindow (t t' : Tcp) : Prop where
  sndUna : t'.conn.sndUna = t.conn.sndUna
  sndWnd : t'.conn.sndWnd = t.conn.sndWnd
  state : t'.conn.state = .established → t.conn.state = .established
  sent : ∃ es, t'.trace = t.trace ++ es ∧ ∀ seg ∈ segments es, seg.data = [] ∨
    t.conn.state = .established ∧ seg.Inside t.conn.sndUna (min t.conn.sndWnd paceLimit)

section Window

variable {env : TcpEnv} {B : ℕ} {t t' t'' : Tcp}

theorem InWindow.refl (t : Tcp) : InWindow t t :=
  ⟨rfl, rfl, id, [], (List.append_nil _).symm, nofun⟩

theorem InWindow.trans (h : InWindow t t') (h' : InWindow t' t'') : InWindow t t'' := by
  obtain ⟨es, htrace, hes⟩ := h.sent
  obtain ⟨es', htrace', hes'⟩ := h'.sent
  refine ⟨h'.sndUna.trans h.sndUna, h'.sndWnd.trans h.sndWnd, fun hst => h.state (h'.state hst),
    es ++ es', by rw [htrace', htrace, List.append_assoc], ?_⟩
  rw [segments_append]
  intro seg hseg
  rcases List.mem_append.1 hseg with hseg | hseg
  · exact hes seg hseg
  · refine (hes' seg hseg).imp_right fun hsent => ⟨h.state hsent.1, ?_⟩
    rw [← h.sndUna, ← h.sndWnd]
    exact hsent.2

/-- A change that sends no data. -/
theorem within_bare (huna : t'.conn.sndUna = t.conn.sndUna)
    (hwnd : t'.conn.sndWnd = t.conn.sndWnd)
    (hst : t'.conn.state = .established → t.conn.state = .established) {es : List Entry}
    (htrace : t'.trace = t.trace ++ es) (hes : ∀ seg ∈ segments es, seg.data = []) :
    InWindow t t' :=
  ⟨huna, hwnd, hst, es, htrace, fun seg hseg => Or.inl (hes seg hseg)⟩

/-- A change that sends nothing. -/
theorem within_silent (huna : t'.conn.sndUna = t.conn.sndUna)
    (hwnd : t'.conn.sndWnd = t.conn.sndWnd)
    (hst : t'.conn.state = .established → t.conn.state = .established)
    (htrace : t'.trace = t.trace) : InWindow t t' :=
  @within_bare _ _ huna hwnd hst [] (by rw [htrace, List.append_nil]) nofun

/-- The loop of `tcp_flush_pending` never sends more than the window and the ring hold. -/
theorem flushLoop_inside (env : TcpEnv) {conn : Conn} (h : conn.RingOk) (fuel : ℕ) {n : ℕ}
    (hle : n ≤ conn.sendbufLen) : ∀ seg ∈ (flushLoop env conn fuel n).1,
      seg.Inside conn.sndUna (min conn.sndWnd conn.sendbufLen) := by
  induction fuel generalizing n with
  | zero => exact fun seg hseg => by cases hseg
  | succ fuel ih =>
    have hlen := flushSegLen_le conn n
    unfold flushLoop
    simp only
    split_ifs with hmore hzero
    · exact fun seg hseg => by cases hseg
    · have hnext : n + conn.flushSegLen n ≤ conn.sendbufLen := by omega
      have hbudget : n + conn.flushSegLen n ≤ conn.sndWnd := by
        unfold Conn.flushSegLen at hzero ⊢
        simp only at hzero ⊢
        split_ifs at hzero ⊢ <;> omega
      refine List.forall_mem_cons.2 ⟨⟨n, rfl, ?_⟩, ih hnext⟩
      have hcopy := (fromRing_segmentOf env h hnext { ack := true, psh := true } conn.rcvNxt).2
      show n + (sendbufCopyOut conn n (conn.flushSegLen n)).length ≤ _
      rw [hcopy]
      exact le_min hbudget hnext
    · exact fun seg hseg => by cases hseg

theorem within_tcpFlushPending (h : Paced B t) : InWindow t (tcpFlushPending env t) := by
  by_cases hoff : t.conn.beingFreed = true ∨ t.conn.state ≠ .established
  · rw [tcpFlushPending, if_pos hoff]
    exact .refl t
  · have hst : t.conn.state = .established := by
      by_contra hno
      exact hoff (Or.inr hno)
    have hinside := flushLoop_inside env h.ring t.conn.sendbufLen (h.inFlight hst)
    have hsmall : t.conn.sendbufLen ≤ paceLimit := h.ring.len_le_size.trans (by decide)
    unfold tcpFlushPending
    rw [if_neg hoff]
    simp only
    have hsegs : ∀ seg ∈ segments ((flushLoop env t.conn t.conn.sendbufLen
        (t.conn.sndNxt - t.conn.sndUna).toNat).1.map Entry.segment), seg.data = [] ∨
        t.conn.state = .established ∧
          seg.Inside t.conn.sndUna (min t.conn.sndWnd paceLimit) := by
      rw [segments_segments]
      intro seg hseg
      obtain ⟨j, hseq, hj⟩ := hinside seg hseg
      exact Or.inr ⟨hst, j, hseq, hj.trans (min_le_min_left _ hsmall)⟩
    split_ifs
    · exact ⟨rfl, rfl, id, _, rfl, hsegs⟩
    · exact ⟨rfl, rfl, id, _, rfl, hsegs⟩

theorem within_sendSegment (flags : Flags) (seq ack : Seq) (t : Tcp) :
    InWindow t (sendSegment env flags seq ack [] t) :=
  within_bare rfl rfl id rfl fun seg hseg => by rw [List.mem_singleton.1 hseg]; rfl

theorem within_log {es : List Entry} (hes : ∀ seg ∈ segments es, seg.data = []) :
    InWindow t (t.log es) :=
  within_bare rfl rfl id rfl hes

theorem within_connDestroy (t : Tcp) : InWindow t (connDestroy t) := by
  unfold connDestroy
  split_ifs
  · exact .refl t
  · exact within_silent rfl rfl id rfl

/-- A FIN carries no data, and ends `ESTABLISHED`. -/
theorem within_sendFin {state : TcpState} (hst : state ≠ .established) (t : Tcp) :
    InWindow t (sendFin env state t) :=
  within_bare rfl rfl (fun h => absurd h hst) rfl fun seg hseg => by
    rw [List.mem_singleton.1 hseg]; rfl

theorem within_tcpAckNow (t : Tcp) : InWindow t (tcpAckNow env t) := by
  unfold tcpAckNow
  split_ifs
  · exact .refl t
  · exact within_bare rfl rfl id rfl fun seg hseg => by rw [List.mem_singleton.1 hseg]; rfl

/-- Setting the state to `CLOSED` sends nothing. -/
theorem within_closed (t : Tcp) :
    InWindow t (t.update fun conn => { conn with state := .closed }) :=
  within_silent rfl rfl nofun rfl

theorem within_move (h : Paced B t) (hm : Move env t t') (hwnd : t'.conn.sndWnd = t.conn.sndWnd) :
    InWindow t t' := by
  cases hm with
  | note e he =>
    refine within_log fun seg hseg => ?_
    rw [segments_note he] at hseg
    cases hseg
  | accept data grown hlive hst hpos hfit hgrow =>
    have hframe := sendbufGrow_frame hgrow
    refine @within_bare _ _ ?_ hwnd ?_ [.accepted data] rfl nofun
    · rw [hframe]; rfl
    · intro _
      exact hst
  | flush => exact within_tcpFlushPending h
  | ack => exact within_tcpAckNow t
  | close state hlive hst =>
    refine within_sendFin ?_ t
    rcases hst with ⟨-, rfl⟩ | ⟨-, rfl⟩ <;> decide
  | reset =>
    exact ((within_closed t).trans (within_sendSegment _ _ _ _)).trans (within_connDestroy _)
  | destroy => exact within_connDestroy t
  | finish => exact (within_closed t).trans (within_connDestroy _)
  | queueOoo seq data hgt =>
    have hframe := tcpOooQueue_frame env seq data t.conn
    refine within_silent ?_ hwnd ?_ rfl
    · rw [Tcp.update_conn, hframe]
    · rw [Tcp.update_conn, hframe]
      exact id
  | countFin hst =>
    exact within_bare rfl rfl id rfl fun seg hseg => by rw [List.mem_singleton.1 hseg]; rfl
  | _ => exact within_silent rfl hwnd id rfl

theorem within_tcpClose (t : Tcp) : InWindow t (tcpClose env t) := by
  unfold tcpClose
  split_ifs
  · exact .refl t
  · split
    · exact within_sendFin (by decide) t
    · exact within_sendFin (by decide) t
    · exact ((within_closed t).trans (within_sendSegment _ _ _ _)).trans (within_connDestroy _)
    · exact within_connDestroy t

/-- **A course stays within the window.** -/
theorem within_course (h : Paced B t) (hB : wgTcpSendbufSize + 1 ≤ B) (hlimit : B ≤ paceLimit)
    (hc : Course env t t') : InWindow t t' := by
  induction hc with
  | refl => exact .refl t
  | tail hc hs ih =>
    have hpaced := (paces_path h hB hlimit (Course.path hc)).1
    refine ih.trans ?_
    cases hs with
    | move hm hplain => exact within_move hpaced hm hplain.sndWnd
    | close =>
      refine InWindow.trans (within_log ?_) (within_tcpClose _)
      exact fun seg hseg => by cases hseg

/-! ### Taking a segment -/

/-- The connection is `ESTABLISHED` when it has taken the segment. -/
def Inbound.opens (seg : Inbound) (conn : Conn) : Bool :=
  match conn.state with
  | .synSent => seg.flags.syn && seg.flags.ack && seqGt seg.ack conn.sndUna &&
      !seqGt seg.ack conn.sndNxt
  | .synReceived => seg.flags.ack && seg.ack == conn.sndNxt
  | .established => true
  | _ => false

/-- `snd_una` behind a segment that is taken. -/
def Inbound.unaBehind (seg : Inbound) (conn : Conn) : Seq :=
  if conn.state = .established ∧ seg.advances conn = false then conn.sndUna else seg.ack

/-- The window that is stored for a segment that is taken. -/
def Inbound.stored (seg : Inbound) (conn : Conn) : ℕ :=
  if conn.state = .synSent then
    seg.window.toNat * 2 ^ (parseSynOptions seg.options conn).sndWscale
  else seg.window.toNat * 2 ^ conn.sndWscale

/-- The segment is taken in `t₁`, and from there on everything is sent within the window. -/
structure Takes (seg : Inbound) (t t₁ t' : Tcp) : Prop where
  trace : t₁.trace = t.trace
  within : InWindow t₁ t'
  opened : t₁.conn.state = .established → seg.opens t.conn = true ∧
    t₁.conn.sndUna = seg.unaBehind t.conn ∧ t₁.conn.sndWnd = seg.stored t.conn

variable {seg : Inbound}

theorem Takes.trans {t₁ : Tcp} (h : Takes seg t t₁ t') (h' : InWindow t' t'') :
    Takes seg t t₁ t'' :=
  ⟨h.trace, h.within.trans h', h.opened⟩

/-- A segment that is not taken in `ESTABLISHED`. -/
theorem takes_ending {t₁ : Tcp} (htrace : t₁.trace = t.trace) (hst : t₁.conn.state ≠ .established)
    (h : InWindow t₁ t') : Takes seg t t₁ t' :=
  ⟨htrace, h, fun hest => absurd hest hst⟩

/-- An acknowledgement that is taken. -/
theorem takes_acked {t₁ : Tcp} (ha : Acked env seg t t₁)
    (hwnd : t.conn.state ≠ .synSent → t.conn.sndWnd = seg.stored t.conn) (h : InWindow t₁ t') :
    Takes seg t t₁ t' := by
  cases ha with
  | passive hst hack hnxt =>
    refine ⟨rfl, h, fun _ => ⟨?_, ?_, hwnd (by rw [hst]; decide)⟩⟩
    · simp only [Inbound.opens, hst, hack, hnxt, beq_self_eq_true, Bool.and_self]
    · rw [Inbound.unaBehind, if_neg (by rw [hst]; exact fun hno => nomatch hno.1)]
      rfl
  | active hst hsyn hack hgt hle =>
    refine ⟨rfl, h, fun _ => ⟨?_, ?_, ?_⟩⟩
    · simp only [Inbound.opens, hst, hsyn, hack, hgt, hle, Bool.not_false, Bool.and_self]
    · rw [Inbound.unaBehind, if_neg (by rw [hst]; exact fun hno => nomatch hno.1)]
      rfl
    · rw [Inbound.stored, if_pos hst]
      rfl
  | data hst hadv =>
    refine ⟨rfl, h, fun _ => ⟨?_, ?_, ?_⟩⟩
    · simp only [Inbound.opens, hst]
    · rw [Inbound.unaBehind, if_neg fun hno => Bool.false_ne_true (hno.2.symm.trans hadv)]
      rfl
    · rw [← hwnd (by rw [hst]; decide), Tcp.update_conn]
      show (if _ then _ else _ : Conn).sndWnd = _
      split_ifs
      · rw [sendbufConsume_frame]
      · rfl
  | fin hst hadv => exact takes_ending rfl (by rw [Tcp.update_conn, hst]; decide) h

theorem takes_inputSynReceived (h : Paced paceLimit t) (hst : t.conn.state = .synReceived)
    (hwnd : t.conn.sndWnd = seg.stored t.conn) :
    ∃ t₁, Takes seg t t₁ (inputSynReceived env seg t) := by
  unfold inputSynReceived
  simp only
  split_ifs with hack hdata
  · have hacked := @Acked.passive env seg t hst hack.1 hack.2
    obtain ⟨k, -, hpaced, -, -⟩ := acked_spec h (by decide) le_rfl hacked
    exact ⟨_, takes_acked hacked (fun _ => hwnd)
      (within_course hpaced (by decide) le_rfl (course_receiveInOrder env _ _ _))⟩
  · exact ⟨_, takes_acked (@Acked.passive env seg t hst hack.1 hack.2) (fun _ => hwnd) (.refl _)⟩
  · exact ⟨t, takes_ending rfl (by rw [hst]; decide) (.refl t)⟩

theorem takes_inputSynSent (h : Paced paceLimit t) (hst : t.conn.state = .synSent) :
    ∃ t₁, Takes seg t t₁ (inputSynSent env seg t) := by
  have hending : t.conn.state ≠ .established := by
    rw [hst]
    decide
  by_cases hflags : seg.flags.syn = true ∧ seg.flags.ack = true
  · by_cases hbad : (!seqGt seg.ack t.conn.sndUna) = true ∨ seqGt seg.ack t.conn.sndNxt = true
    · refine ⟨t, takes_ending rfl hending ?_⟩
      rw [inputSynSent, if_pos hflags, if_pos hbad]
      exact .refl _
    · have hgt : seqGt seg.ack t.conn.sndUna = true := by
        by_contra hno
        exact hbad (Or.inl (by simpa using hno))
      have hle : seqGt seg.ack t.conn.sndNxt = false :=
        Bool.eq_false_iff.2 fun hyes => hbad (Or.inr hyes)
      have hacked := @Acked.active env seg t hst hflags.1 hflags.2 hgt hle
      obtain ⟨k, -, hpaced, -, -⟩ := acked_spec h (by decide) le_rfl hacked
      refine ⟨_, takes_acked hacked (fun hno => absurd hst hno) ?_⟩
      rw [inputSynSent, if_pos hflags, if_neg hbad]
      simp only
      split_ifs
      · exact within_course hpaced (by decide) le_rfl
          ((course_tcpAckNow env _).trans (course_runCallback env _ _))
      · exact within_tcpAckNow _
  · refine ⟨t, takes_ending rfl hending ?_⟩
    rw [inputSynSent, if_neg hflags]
    exact .refl _

theorem takes_ackAdvance (h : Paced paceLimit t) (hst : t.conn.state = .established)
    (hwnd : t.conn.sndWnd = seg.stored t.conn) (hadv : seg.advances t.conn = true) :
    ∃ t₁, Takes seg t t₁ (ackAdvance env seg t) := by
  have hacked := @Acked.data env seg t hst hadv
  obtain ⟨k, -, hpaced, -, -⟩ := acked_spec h (by decide) le_rfl hacked
  refine ⟨_, takes_acked hacked (fun _ => hwnd) ?_⟩
  unfold ackAdvance
  simp only
  split_ifs
  · exact within_silent rfl rfl id rfl
  · exact within_tcpFlushPending hpaced

theorem takes_establishedAck (h : Paced paceLimit t) (hst : t.conn.state = .established)
    (hwnd : t.conn.sndWnd = seg.stored t.conn) :
    ∃ t₁, Takes seg t t₁ (establishedAck env seg t) := by
  by_cases hadv : seg.advances t.conn = true
  · obtain ⟨t₁, htakes⟩ := @takes_ackAdvance env t seg h hst hwnd hadv
    have hpaced := (sndUna_ackedThen h (acked_ackAdvance env seg hst hadv)).1
    refine ⟨t₁, ?_⟩
    unfold establishedAck
    rw [if_pos hadv]
    simp only
    split_ifs
    · exact htakes.trans (within_course hpaced (by decide) le_rfl (course_runCallback env _ _))
    · exact htakes
  · refine ⟨t, rfl, ?_, fun _ => ⟨by simp only [Inbound.opens, hst], ?_, hwnd⟩⟩
    · rw [establishedAck, if_neg hadv]
      exact .refl t
    · rw [Inbound.unaBehind, if_pos ⟨hst, Bool.eq_false_iff.2 hadv⟩]

/-- The remote FIN: no data is sent behind it. -/
theorem within_establishedFin (h : Paced (wgTcpSendbufSize + 1) t) :
    InWindow t (establishedFin env seg t) := by
  unfold establishedFin
  split_ifs
  · have htake : InWindow t (takeFin env t) := by
      refine @within_bare _ _ rfl rfl (fun hst => by cases hst) (_ :: [_])
        (List.append_assoc _ _ _) ?_
      exact fun seg hseg => by rw [List.mem_singleton.1 hseg]; rfl
    have hclose := within_course (takeFin_spec env h).1 (Nat.le_add_right _ 1) (by decide)
      (course_notifyClose env (takeFin env t))
    exact (htake.trans hclose).trans (within_sendFin (by decide) _)
  · exact .refl t

theorem takes_inputEstablished (h : Paced paceLimit t) (hst : t.conn.state = .established)
    (hwnd : t.conn.sndWnd = seg.stored t.conn) :
    ∃ t₁, Takes seg t t₁ (inputEstablished env seg t) := by
  obtain ⟨t₁, htakes⟩ := @takes_establishedAck env t seg h hst hwnd
  obtain ⟨k, -, hpaced, -⟩ := input_spec (h.tighten hst) le_rfl (by decide)
    (input_establishedAck env seg hst)
  have hdata := course_establishedData env seg (establishedAck env seg t)
  have hpaced' := (paces_path hpaced le_rfl (by decide) (Course.path hdata)).1
  exact ⟨t₁, (htakes.trans (within_course hpaced le_rfl (by decide) hdata)).trans
    (within_establishedFin hpaced')⟩

theorem takes_inputFinWait (hst : t.conn.state = .finWait) :
    ∃ t₁, Takes seg t t₁ (inputFinWait env seg t) := by
  have hack : (finWaitAck seg t).trace = t.trace ∧ (finWaitAck seg t).conn.state = .finWait := by
    unfold finWaitAck
    simp only
    split_ifs <;> exact ⟨rfl, hst⟩
  refine ⟨finWaitAck seg t, takes_ending hack.1 (by rw [hack.2]; decide) ?_⟩
  unfold inputFinWait
  simp only
  split_ifs
  · have hcount : InWindow (finWaitAck seg t) (sendSegment env { ack := true }
        (finWaitAck seg t).conn.sndNxt ((finWaitAck seg t).conn.rcvNxt + 1) []
        ((finWaitAck seg t).update fun conn => { conn with rcvNxt := conn.rcvNxt + 1 })) :=
      within_bare rfl rfl id rfl fun seg hseg => by rw [List.mem_singleton.1 hseg]; rfl
    exact (hcount.trans (within_closed _)).trans (within_connDestroy _)
  · exact .refl _

theorem within_inputLastAck (t : Tcp) : InWindow t (inputLastAck seg t) := by
  have hclosed : InWindow t (t.update fun conn =>
      { conn with retransmitTimer := false, state := .closed }) :=
    within_silent rfl rfl nofun rfl
  unfold inputLastAck
  split_ifs
  · exact hclosed.trans (within_connDestroy _)
  · exact .refl t

/-- **A segment is taken, and nothing but its window is used behind it.** -/
theorem takes_tcpstackInput (h : Paced paceLimit t) (hlive : t.conn.beingFreed = false) :
    ∃ t₁, Takes seg t t₁ (tcpstackInput env seg t) := by
  unfold tcpstackInput
  rw [if_neg (by simp [hlive])]
  split_ifs with hrst
  · exact ⟨t.update fun conn => { conn with state := .closed },
      takes_ending rfl (show TcpState.closed ≠ _ by decide) (within_connDestroy _)⟩
  · have hpaced : Paced paceLimit (updateSndWnd seg t) :=
      (paces_move h (by decide) le_rfl (@Move.window env t seg hlive)).1
    have hwnd : (updateSndWnd seg t).conn.state ≠ .synSent →
        (updateSndWnd seg t).conn.sndWnd = seg.stored (updateSndWnd seg t).conn := by
      intro hst
      have hst' : t.conn.state ≠ .synSent := hst
      rw [Inbound.stored, if_neg hst]
      show (if t.conn.state = .synSent then _ else _) = _
      rw [if_neg hst']
      rfl
    have hwhole : ∀ t₁ t', Takes seg (updateSndWnd seg t) t₁ t' → Takes seg t t₁ t' :=
      fun t₁ t' h => ⟨h.trace, h.within, h.opened⟩
    suffices hsuff : ∃ t₁, Takes seg (updateSndWnd seg t) t₁
        (inputState env seg (updateSndWnd seg t)) by
      obtain ⟨t₁, htakes⟩ := hsuff
      exact ⟨t₁, hwhole t₁ _ htakes⟩
    unfold inputState
    cases hst : (updateSndWnd seg t).conn.state with
    | synReceived => exact takes_inputSynReceived hpaced hst (hwnd (by rw [hst]; decide))
    | synSent => exact takes_inputSynSent hpaced hst
    | established => exact takes_inputEstablished hpaced hst (hwnd (by rw [hst]; decide))
    | finWait => exact takes_inputFinWait hst
    | lastAck =>
      refine ⟨updateSndWnd seg t, takes_ending rfl (by rw [hst]; decide) ?_⟩
      exact within_inputLastAck _
    | closed => exact ⟨_, takes_ending rfl (by rw [hst]; decide) (.refl _)⟩
    | closeWait => exact ⟨_, takes_ending rfl (by rw [hst]; decide) (.refl _)⟩

end Window

/-! ### The right edges -/

/-- A connection, the position of `snd_una`, the right edges that the peer advertised, and the
positions of the data bytes sent beyond every edge advertised before. -/
structure Flow where
  tcp : Tcp
  una : ℤ
  edges : List ℤ
  beyond : List ℤ

/-- The positions of the data of `segs`, where `base` is at position `una`. -/
def bytePositions (una : ℤ) (base : Seq) (segs : List Segment) : List ℤ :=
  segs.flatMap fun seg =>
    (List.range seg.data.length).map fun i : ℕ => una + (seg.seq - base).toInt + i

/-- The right edge that an event advertises: the acknowledgement and the window of a segment, where
the window of a SYN is not scaled. -/
def advertised (una : ℤ) (conn : Conn) : TcpEvent → List ℤ
  | .input seg =>
    if seg.flags.ack then
      [una + (seg.ack - conn.sndUna).toInt +
        ((if seg.flags.syn then seg.window.toNat
          else seg.window.toNat * 2 ^ conn.sndWscale : ℕ) : ℤ)]
    else []
  | _ => []

/-- The positions among `ps` that lie before no edge. -/
def beyondEdges (edges ps : List ℤ) : List ℤ := ps.filter fun pos => edges.all fun r => r ≤ pos

/-- What is known when a connection is opened. -/
def Flow.start (t : Tcp) (edges : List ℤ) : Flow :=
  ⟨t, 0, edges, beyondEdges edges (bytePositions 0 t.conn.iss (segments t.trace))⟩

/-- One event, observed. -/
def flowStep (s : Flow) (e : TcpEnv × TcpEvent) : Flow where
  tcp := tcpStep s.tcp e
  una := s.una + ((tcpStep s.tcp e).conn.sndUna - s.tcp.conn.sndUna).toNat
  edges := s.edges ++ advertised s.una s.tcp.conn e.2
  beyond := s.beyond ++ beyondEdges (s.edges ++ advertised s.una s.tcp.conn e.2)
    (bytePositions s.una s.tcp.conn.sndUna
      (segments ((tcpStep s.tcp e).trace.drop s.tcp.trace.length)))

/-- How an observation begins.  The SYN of the peer advertises from the first data byte on. -/
inductive Flow.Started : Flow → Prop
  | connect (env : TcpEnv) (iss : Seq) (handlers : Handlers) :
    Started (.start (tcpstackConnect env iss handlers) [])
  | accept (env : TcpEnv) (iss : Seq) (handlers : Handlers) (seg : Inbound) :
    seg.flags.syn = true → seg.flags.ack = false →
    Started (.start (tcpstackAccept env iss handlers seg) [1 + seg.window.toNat])

/-- The window that a segment stores, and the buffer that a retransmission sends, stay within an
edge. -/
def Flow.Fits (s : Flow) (e : TcpEnv × TcpEvent) : Prop :=
  match e.2 with
  | .input seg => s.tcp.conn.beingFreed = false → seg.flags.rst = false →
      seg.opens s.tcp.conn = true → ∃ r ∈ s.edges ++ advertised s.una s.tcp.conn e.2,
        s.una + (seg.unaBehind s.tcp.conn - s.tcp.conn.sndUna).toNat + seg.stored s.tcp.conn ≤ r
  | .retransmit => s.tcp.expires .retransmit = true →
      s.tcp.conn.retransmitCount < wgTcpMaxRetransmit → 0 < s.tcp.conn.sendbufLen →
      ∃ r ∈ s.edges, s.una + s.tcp.conn.sendbufLen ≤ r
  | _ => True

/-- In `ESTABLISHED` the window lies within an edge, and nothing was sent beyond. -/
structure Flow.Edged (s : Flow) : Prop where
  paced : Paced paceLimit s.tcp
  window : s.tcp.conn.state = .established →
    ∃ r ∈ s.edges, s.una + (s.tcp.conn.sndWnd : ℤ) ≤ r
  beyond : s.beyond = []

section Edges

variable {t t' t₁ : Tcp} {s : Flow} {e : TcpEnv × TcpEvent} {una r : ℤ}

/-- The distance of a byte from a base that lies at most `k` behind the window. -/
theorem toInt_offset {base : Seq} {k j : ℕ} (hk : k ≤ paceLimit) (hj : j ≤ paceLimit) :
    (base + BitVec.ofNat 32 k + BitVec.ofNat 32 j - base).toInt = k + j := by
  have hlt := paceLimit_lt
  have hdiff : base + BitVec.ofNat 32 k + BitVec.ofNat 32 j - base = BitVec.ofNat 32 (k + j) := by
    rw [Serial.add_ofNat_add, BitVec.add_comm, BitVec.add_sub_cancel]
  rw [hdiff, BitVec.toInt_eq_toNat_of_lt, BitVec.toNat_ofNat, Nat.mod_eq_of_lt (by omega)]
  · exact Int.natCast_add k j
  · rw [BitVec.toNat_ofNat, Nat.mod_eq_of_lt (by omega)]
    omega

/-- The bytes of a segment inside the window lie before its end. -/
theorem lt_of_inside {seg : Segment} {base : Seq} {k wnd : ℕ} (hk : k ≤ paceLimit)
    (h : seg.Inside (base + BitVec.ofNat 32 k) (min wnd paceLimit)) :
    ∀ pos ∈ bytePositions una base [seg], pos < una + k + wnd := by
  obtain ⟨j, hseq, hj⟩ := h
  intro pos hpos
  rw [bytePositions, List.flatMap_singleton, List.mem_map] at hpos
  obtain ⟨i, hi, rfl⟩ := hpos
  have hi' := List.mem_range.1 hi
  have hwnd : j + seg.data.length ≤ wnd := hj.trans (min_le_left _ _)
  have hlimit : j ≤ paceLimit := by
    have := hj.trans (min_le_right _ _)
    omega
  rw [hseq, toInt_offset hk hlimit]
  omega

theorem beyondEdges_eq_nil {edges ps : List ℤ} (h : ∀ pos ∈ ps, ∃ r ∈ edges, pos < r) :
    beyondEdges edges ps = [] := by
  rw [beyondEdges, List.filter_eq_nil_iff]
  intro pos hpos hall
  obtain ⟨r, hr, hlt⟩ := h pos hpos
  have hle := List.all_eq_true.1 hall r hr
  exact absurd (of_decide_eq_true hle) (not_le.2 hlt)

/-- What is sent within the window lies before its edge. -/
theorem mem_bytePositions {base : Seq} {segs : List Segment} {pos : ℤ} :
    pos ∈ bytePositions una base segs ↔ ∃ seg ∈ segs, pos ∈ bytePositions una base [seg] := by
  simp only [bytePositions, List.mem_flatMap, List.mem_singleton, exists_eq_left]

/-- Sending within the window from `t₁` on, where `snd_una` has moved by `k`. -/
theorem edged_of_within (h : s.Edged) (htrace : t₁.trace = s.tcp.trace)
    (hwithin : InWindow t₁ (tcpStep s.tcp e)) {k : ℕ} (hk : k ≤ paceLimit)
    (huna : (tcpStep s.tcp e).conn.sndUna = s.tcp.conn.sndUna + BitVec.ofNat 32 k)
    (hopen : t₁.conn.state = .established → ∃ r ∈ s.edges ++ advertised s.una s.tcp.conn e.2,
      s.una + k + t₁.conn.sndWnd ≤ r) : (flowStep s e).Edged := by
  have hlt := paceLimit_lt
  have hmoved : ((tcpStep s.tcp e).conn.sndUna - s.tcp.conn.sndUna).toNat = k := by
    rw [huna, BitVec.add_comm, BitVec.add_sub_cancel, BitVec.toNat_ofNat,
      Nat.mod_eq_of_lt (by omega)]
  refine ⟨(paced_tcpStep e h.paced).1, fun hst => ?_, ?_⟩
  · obtain ⟨r, hr, hle⟩ := hopen (hwithin.state hst)
    refine ⟨r, hr, ?_⟩
    show s.una + ((tcpStep s.tcp e).conn.sndUna - s.tcp.conn.sndUna).toNat +
      ((tcpStep s.tcp e).conn.sndWnd : ℤ) ≤ r
    rw [hmoved, hwithin.sndWnd]
    exact hle
  · obtain ⟨es, hes, hsent⟩ := hwithin.sent
    have hnew : beyondEdges (s.edges ++ advertised s.una s.tcp.conn e.2)
        (bytePositions s.una s.tcp.conn.sndUna
          (segments ((tcpStep s.tcp e).trace.drop s.tcp.trace.length))) = [] := by
      rw [hes, htrace, List.drop_left]
      refine beyondEdges_eq_nil fun pos hpos => ?_
      obtain ⟨seg, hseg, hpos⟩ := mem_bytePositions.1 hpos
      rcases hsent seg hseg with hempty | ⟨hst, hinside⟩
      · rw [bytePositions, List.flatMap_singleton, hempty] at hpos
        cases hpos
      · obtain ⟨r, hr, hle⟩ := hopen hst
        rw [← hwithin.sndUna, huna] at hinside
        exact ⟨r, hr, (lt_of_inside hk hinside pos hpos).trans_le hle⟩
    show s.beyond ++ _ = []
    rw [h.beyond, hnew]
    rfl

/-- Everything but a segment and a retransmission. -/
theorem edged_quiet (h : s.Edged) (hwithin : InWindow s.tcp (tcpStep s.tcp e)) :
    (flowStep s e).Edged := by
  refine edged_of_within h rfl hwithin (Nat.zero_le _) ?_ fun hst => ?_
  · rw [hwithin.sndUna]
    exact (BitVec.add_zero _).symm
  · obtain ⟨r, hr, hle⟩ := h.window hst
    refine ⟨r, List.mem_append_left _ hr, ?_⟩
    rw [Nat.cast_zero, add_zero]
    exact hle

theorem edged_input {env : TcpEnv} {seg : Inbound} (h : s.Edged)
    (hfits : s.Fits (env, .input seg)) : (flowStep s (env, .input seg)).Edged := by
  by_cases hidle : s.tcp.conn.released = true ∨ s.tcp.conn.beingFreed = true
  · have hsame : tcpStep s.tcp (env, .input seg) = s.tcp := by
      unfold tcpStep ownedStep tcpstackInput
      rcases hidle with hrel | hfreed
      · rw [if_pos hrel]
      · simp only [hfreed, if_true, ite_self]
    exact edged_quiet h (hsame.symm ▸ InWindow.refl _)
  · push Not at hidle
    have hlive := Bool.eq_false_iff.2 hidle.2
    have hstep : tcpStep s.tcp (env, .input seg) = tcpstackInput env seg s.tcp := by
      unfold tcpStep ownedStep
      rw [if_neg hidle.1]
    by_cases hrst : seg.flags.rst = true
    · have hclosed : tcpStep s.tcp (env, .input seg) =
          connDestroy (s.tcp.update fun conn => { conn with state := .closed }) := by
        rw [hstep, tcpstackInput, if_neg hidle.2, if_pos hrst]
      exact edged_quiet h (hclosed.symm ▸ (within_closed _).trans (within_connDestroy _))
    rw [Bool.not_eq_true] at hrst
    obtain ⟨t₁, htakes⟩ := @takes_tcpstackInput env s.tcp seg h.paced hlive
    rw [← hstep] at htakes
    obtain ⟨k, hk, hemits⟩ := (paced_tcpStep (env, .input seg) h.paced).2 trivial
    refine edged_of_within h htakes.trace htakes.within hk hemits.sndUna fun hst => ?_
    obtain ⟨hopens, huna, hwnd⟩ := htakes.opened hst
    obtain ⟨r, hr, hle⟩ := hfits hlive hrst hopens
    have hlt := paceLimit_lt
    have hmoved : (seg.unaBehind s.tcp.conn - s.tcp.conn.sndUna).toNat = k := by
      rw [← huna, ← htakes.within.sndUna, hemits.sndUna, BitVec.add_comm, BitVec.add_sub_cancel,
        BitVec.toNat_ofNat, Nat.mod_eq_of_lt (by omega)]
    refine ⟨r, hr, ?_⟩
    rw [hwnd, ← hmoved]
    exact hle

/-- The bytes that a retransmission sends are those of the ring. -/
theorem inside_retransmitSegments {t : Tcp} (h : t.conn.RingOk) (env : TcpEnv) :
    ∀ seg ∈ retransmitSegments env t.conn, seg.data = [] ∨
      0 < t.conn.sendbufLen ∧ seg.Inside t.conn.sndUna (min t.conn.sendbufLen paceLimit) := by
  have hloop : ∀ seg ∈ retransmitLoop env t.conn t.conn.sendbufLen 0, seg.data = [] ∨
      0 < t.conn.sendbufLen ∧ seg.Inside t.conn.sndUna (min t.conn.sendbufLen paceLimit) := by
    intro seg hseg
    obtain ⟨off, hoff, ⟨hseq, hfit, -⟩, -⟩ := retransmitLoop_spec env h _ _ seg hseg
    have hsmall : t.conn.sendbufLen ≤ paceLimit := h.len_le_size.trans (by decide)
    exact Or.inr ⟨by omega, off, hseq, le_min hfit (hfit.trans hsmall)⟩
  have hbare : ∀ flags seq ack, ∀ seg ∈ [segmentOf env t.conn flags seq ack []], seg.data = [] := by
    intro flags seq ack seg hseg
    rw [List.mem_singleton.1 hseg]
    rfl
  unfold retransmitSegments
  split
  · exact fun seg hseg => Or.inl (hbare _ _ _ seg hseg)
  · exact fun seg hseg => Or.inl (hbare _ _ _ seg hseg)
  · exact hloop
  · exact hloop
  · split_ifs
    · exact hloop
    · exact fun seg hseg => Or.inl (hbare _ _ _ seg hseg)
  · split_ifs
    · exact hloop
    · exact fun seg hseg => Or.inl (hbare _ _ _ seg hseg)
  · exact fun seg hseg => by cases hseg

theorem edged_resent {env : TcpEnv} (h : s.Edged) (hfits : s.Fits (env, .retransmit))
    (hexpires : s.tcp.expires .retransmit = true)
    (hcount : s.tcp.conn.retransmitCount < wgTcpMaxRetransmit)
    (hstep : tcpStep s.tcp (env, .retransmit) = resent env s.tcp) :
    (flowStep s (env, .retransmit)).Edged := by
  have hsame : ((tcpStep s.tcp (env, .retransmit)).conn.sndUna - s.tcp.conn.sndUna).toNat = 0 := by
    rw [hstep]
    show (s.tcp.conn.sndUna - s.tcp.conn.sndUna).toNat = 0
    rw [BitVec.sub_self]
    rfl
  refine ⟨(paced_tcpStep (env, .retransmit) h.paced).1, fun hst => ?_, ?_⟩
  · rw [show (flowStep s (env, .retransmit)).tcp = resent env s.tcp from hstep] at hst ⊢
    obtain ⟨r, hr, hle⟩ := h.window hst
    refine ⟨r, List.mem_append_left _ hr, ?_⟩
    show s.una + ((tcpStep s.tcp (env, .retransmit)).conn.sndUna - s.tcp.conn.sndUna).toNat + _ ≤ r
    rw [hsame, Nat.cast_zero, add_zero]
    exact hle
  · have hnew : beyondEdges (s.edges ++ []) (bytePositions s.una s.tcp.conn.sndUna
        (segments ((tcpStep s.tcp (env, .retransmit)).trace.drop s.tcp.trace.length))) = [] := by
      rw [hstep]
      show beyondEdges _ (bytePositions _ _ (segments ((s.tcp.trace ++ _).drop _))) = []
      rw [List.drop_left, segments_segments, List.append_nil]
      refine beyondEdges_eq_nil fun pos hpos => ?_
      obtain ⟨seg, hseg, hpos⟩ := mem_bytePositions.1 hpos
      rcases @inside_retransmitSegments (retransmitFired s.tcp) ⟨h.paced.ring.head_lt,
        h.paced.ring.len_le, h.paced.ring.cap_le⟩ env seg hseg with hempty | ⟨hpos', hinside⟩
      · rw [bytePositions, List.flatMap_singleton, hempty] at hpos
        cases hpos
      · obtain ⟨r, hr, hle⟩ := hfits hexpires hcount hpos'
        have hinside' : seg.Inside (s.tcp.conn.sndUna + BitVec.ofNat 32 0)
            (min s.tcp.conn.sendbufLen paceLimit) := by
          rw [show BitVec.ofNat 32 0 = 0#32 from rfl, BitVec.add_zero]
          exact hinside
        refine ⟨r, hr, (lt_of_inside (Nat.zero_le _) hinside' pos hpos).trans_le ?_⟩
        rw [Nat.cast_zero, add_zero]
        exact hle
    show s.beyond ++ beyondEdges (s.edges ++ []) _ = []
    rw [h.beyond, hnew]
    rfl

/-- `retransmit_cb` sends again within the edges, or sends nothing. -/
theorem edged_retransmit {env : TcpEnv} (h : s.Edged) (hfits : s.Fits (env, .retransmit)) :
    (flowStep s (env, .retransmit)).Edged := by
  by_cases hexpires : s.tcp.expires .retransmit = true
  · have hbits := hexpires
    simp only [Tcp.expires, Bool.and_eq_true, Bool.not_eq_true'] at hbits
    obtain ⟨⟨hrel, htimer⟩, hlive⟩ := hbits
    have hstep : tcpStep s.tcp (env, .retransmit) = retransmitCb env s.tcp := by
      unfold tcpStep ownedStep
      simp only [hrel, htimer, if_true, Bool.false_eq_true, if_false]
    rw [retransmitCb_of_live hlive] at hstep
    by_cases hcount : wgTcpMaxRetransmit < s.tcp.conn.retransmitCount + 1
    · rw [if_pos hcount] at hstep
      have hclosed : Paced paceLimit ((retransmitFired s.tcp).update fun conn =>
          { conn with state := .closed }) :=
        h.paced.still ⟨rfl, rfl, rfl, rfl, rfl⟩ (Or.inr rfl) rfl rfl
      have hset : InWindow s.tcp ((retransmitFired s.tcp).update fun conn =>
          { conn with state := .closed }) :=
        within_silent rfl rfl (fun hst => by cases hst) rfl
      have hnotify := within_course hclosed (by decide) le_rfl (course_notifyAbort env _)
      exact edged_quiet h (hstep.symm ▸ (hset.trans hnotify).trans (within_connDestroy _))
    · rw [if_neg hcount] at hstep
      exact edged_resent h hfits hexpires (by omega) hstep
  · have hsame : tcpStep s.tcp (env, .retransmit) = s.tcp := by
      unfold tcpStep ownedStep
      simp only
      split_ifs with hrel htimer
      · rfl
      · have hfreed : s.tcp.conn.beingFreed = true := by
          by_contra hlive
          exact hexpires (by simp [Tcp.expires, hrel, htimer, hlive])
        exact if_pos hfreed
      · rfl
    exact edged_quiet h (hsame.symm ▸ InWindow.refl _)

theorem Flow.Edged.step (h : s.Edged) (hfits : s.Fits e) : (flowStep s e).Edged := by
  obtain ⟨env, e⟩ := e
  have hcourse : ∀ t', Course env s.tcp t' → InWindow s.tcp t' :=
    fun t' hc => within_course h.paced (by decide) le_rfl hc
  cases e with
  | input seg => exact edged_input h hfits
  | retransmit => exact edged_retransmit h hfits
  | call a =>
    refine edged_quiet h ?_
    unfold tcpStep ownedStep
    simp only
    split_ifs
    · exact .refl _
    · exact hcourse _ (course_apiCall env _ a)
  | flush =>
    refine edged_quiet h ?_
    unfold tcpStep ownedStep
    simp only
    split_ifs
    · exact .refl _
    · exact hcourse _ (course_flushCheckCb env _)
    · exact .refl _
  | delayedAck =>
    refine edged_quiet h ?_
    unfold tcpStep ownedStep
    simp only
    split_ifs
    · exact .refl _
    · exact hcourse _ (course_delayedAckCb env _)
    · exact .refl _
  | timerClose =>
    refine edged_quiet h ?_
    unfold tcpStep ownedStep
    simp only
    split_ifs
    · exact .refl _
    · exact hcourse _ (course_timerCloseCb env _)
    · exact .refl _

/-- `on_accept` has run: neither the SYN-ACK nor what the owner does carries data. -/
theorem edged_accepted (env : TcpEnv) (handlers : Handlers) (edges : List ℤ)
    (h : Paced paceLimit t) (hst : t.conn.state ≠ .established)
    (hempty : ∀ seg ∈ segments t.trace, seg.data = []) :
    (Flow.start (runCallback env .accept (t.update fun conn => { conn with handlers := handlers }))
      edges).Edged := by
  have hset : Paced paceLimit (t.update fun conn => { conn with handlers := handlers }) :=
    h.still ⟨rfl, rfl, rfl, rfl, rfl⟩ (Or.inl rfl) rfl rfl
  have hcourse := course_runCallback env .accept
    (t.update fun conn => { conn with handlers := handlers })
  have hwithin := within_course hset (by decide) le_rfl hcourse
  have hpaced := (paces_path hset (by decide) le_rfl (Course.path hcourse)).1
  generalize runCallback env .accept _ = t' at hwithin hpaced ⊢
  obtain ⟨es, hes, hsent⟩ := hwithin.sent
  refine ⟨hpaced, fun hest => absurd (hwithin.state hest) hst,
    beyondEdges_eq_nil fun pos hpos => ?_⟩
  obtain ⟨seg, hseg, hpos⟩ := mem_bytePositions.1 hpos
  have hnone : seg.data = [] := by
    rw [hes, segments_append, List.mem_append] at hseg
    rcases hseg with hseg | hseg
    · exact hempty seg hseg
    · exact (hsent seg hseg).resolve_right fun hdata => hst hdata.1
  rw [bytePositions, List.flatMap_singleton, hnone] at hpos
  cases hpos

/-- No data is sent when a connection is opened. -/
theorem edged_started (h : s.Started) : s.Edged := by
  cases h with
  | connect env iss handlers =>
    exact ⟨(tracked_opened (.connect env iss handlers)).paced, nofun, rfl⟩
  | accept env iss handlers seg hsyn hack =>
    have hopen := opening_fresh (Or.inr rfl) iss (seg.seq + 1) ⟨false, false, false, false, false⟩
    unfold tcpstackAccept
    simp only
    generalize hconn : ({ parseSynOptions seg.options (Conn.fresh .synReceived iss (seg.seq + 1)
      ⟨false, false, false, false, false⟩) with sndWnd := _ } : Conn) = conn
    obtain ⟨hopen', hst, hiss⟩ : conn.Opening ∧ conn.state = .synReceived ∧ conn.iss = iss := by
      rw [← hconn]
      exact ⟨⟨{ hopen.ring with }, hopen.state, hopen.sndUna, hopen.sndNxt⟩, rfl, rfl⟩
    have hsyn' := (syn_spec env hopen' (rfl : Flags.syn { syn := true, ack := true } = _)
      (seg.seq + 1)).1
    rw [hiss] at hsyn'
    refine edged_accepted env handlers _ hsyn' ?_ ?_
    · show conn.state ≠ _
      rw [hst]
      decide
    · intro seg' hseg
      rw [List.mem_singleton.1 hseg]
      rfl

/-- **The receive window of the peer is respected** in every run whose stored windows and
retransmissions stay within the edges it advertised. -/
theorem window_respected (h : s.Started) {es : List (TcpEnv × TcpEvent)}
    (hes : Machine.Guarded flowStep Flow.Fits s es) : (Machine.run flowStep s es).beyond = [] :=
  (Machine.run_induction _ (fun _ _ hs hok => hs.step hok) (edged_started h) hes).beyond

/-- The owner of a connection opened by `exampleEnv` sends three bytes, and the timer expires
once. -/
def threeBytes (synAck : Inbound) : List (TcpEnv × TcpEvent) :=
  [(exampleEnv, .input synAck), (exampleEnv, .call (.send [1, 2, 3])), (exampleEnv, .flush),
    (exampleEnv, .retransmit)]

theorem window_respected_unscaled : (Machine.run flowStep
    (.start (tcpstackConnect exampleEnv 0 exampleHandlers) []) (threeBytes exampleSynAck)).beyond =
      [] := by
  have hes : Machine.Guarded flowStep Flow.Fits
      (.start (tcpstackConnect exampleEnv 0 exampleHandlers) []) (threeBytes exampleSynAck) :=
    ⟨fun _ _ _ => ⟨1001, by decide, by decide⟩, trivial, trivial,
      fun _ _ _ => ⟨1001, by decide, by decide⟩, trivial⟩
  exact window_respected (.connect _ _ _) hes

/-- A SYN-ACK that advertises one byte and a scale of fourteen bits opens the window by `2 ^ 14`. -/
theorem synAck_scaled : ¬ ∀ (s : Flow) (es : List (TcpEnv × TcpEvent)), s.Started →
    (Machine.run flowStep s es).beyond = [] := by
  intro h
  have hrun := h _ (threeBytes ⟨{ syn := true, ack := true }, 0xfffffffd, 1, 1, [3, 3, 14], []⟩)
    (.connect exampleEnv 0 exampleHandlers)
  exact absurd hrun (by decide)

end Edges

end Wgx
