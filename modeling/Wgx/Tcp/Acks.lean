import Wgx.Tcp.Timer

/-!
# Acknowledging what occupies sequence space

* `Acknowledges`: a segment with the resulting `rcv_nxt` leaves, or the delayed acknowledgement is
  armed, or the connection is destroyed.
* `Inbound.answered`: the segments for which the state machine sees to that.  A SYN in
  `ESTABLISHED` and everything but the last step in `FIN_WAIT` and `LAST_ACK` is passed over
  (`segment_acknowledged`).
-/

namespace Wgx

/-! ### Acknowledgements -/

/-- The segment carries payload, SYN or FIN. -/
def Inbound.occupies (seg : Inbound) : Bool :=
  decide (0 < seg.payload.length) || seg.flags.syn || seg.flags.fin

/-- Between `t` and `t'` a segment is sent that acknowledges up to the resulting `rcv_nxt`, or the
delayed acknowledgement is armed, or the connection is destroyed. -/
def Acknowledges (t t' : Tcp) : Prop :=
  (∃ es, t'.trace = t.trace ++ es ∧
    ∃ seg ∈ segments es, seg.flags.ack = true ∧ seg.ack = t'.conn.rcvNxt) ∨
  t'.conn.ackTimer = true ∨ t'.conn.beingFreed = true

section Acknowledges

variable {env : TcpEnv} {seg : Inbound} {t u u' : Tcp}

/-- The last thing sent is an acknowledgement. -/
theorem acks_last {s : Segment} (hext : ∃ es, u.trace = t.trace ++ es)
    (htrace : u'.trace = u.trace ++ [.segment s]) (hflag : s.flags.ack = true)
    (hack : s.ack = u'.conn.rcvNxt) : Acknowledges t u' := by
  obtain ⟨es, hes⟩ := hext
  refine Or.inl ⟨es ++ [.segment s], by rw [htrace, hes, List.append_assoc], s, ?_, hflag, hack⟩
  rw [segments_append]
  exact List.mem_append_right _ (List.mem_singleton_self s)

theorem acks_tcpAckNow (hext : ∃ es, u.trace = t.trace ++ es) :
    Acknowledges t (tcpAckNow env u) := by
  unfold tcpAckNow
  split_ifs with hfreed
  · exact Or.inr (Or.inr hfreed)
  · exact acks_last hext rfl rfl rfl

theorem acks_tcpAckData (len : ℕ) (immediate : Bool) (hext : ∃ es, u.trace = t.trace ++ es) :
    Acknowledges t (tcpAckData env len immediate u) := by
  unfold tcpAckData
  simp only
  split_ifs with hfreed _ _ harmed
  · exact Or.inr (Or.inr hfreed)
  · exact acks_tcpAckNow hext
  · exact acks_tcpAckNow hext
  · exact Or.inr (Or.inl rfl)
  · exact Or.inr (Or.inl (by simpa using harmed))

theorem acks_receiveInOrder (data : List Byte) (immediate : Bool)
    (hext : ∃ es, u.trace = t.trace ++ es) :
    Acknowledges t (receiveInOrder env data immediate u) := by
  obtain ⟨es, hes⟩ := hext
  obtain ⟨es', hes'⟩ := ((calm_deliver env data u).trans (calm_tcpOooDrain env
    (deliver env data u).conn.rcvOoo.length (deliver env data u))).trace
  exact acks_tcpAckData _ _ ⟨es ++ es', by rw [hes', hes, List.append_assoc]⟩

/-- New, old and future data is acknowledged. -/
theorem acks_establishedData (hdata : 0 < seg.payload.length)
    (hext : ∃ es, u.trace = t.trace ++ es) : Acknowledges t (establishedData env seg u) := by
  unfold establishedData
  simp only
  split_ifs with hnone hnext hlater hbefore
  · omega
  · exact acks_receiveInOrder _ _ hext
  · exact acks_tcpAckNow hext
  · exact acks_receiveInOrder _ _ hext
  · exact acks_tcpAckNow hext
  · -- a sequence number that is neither next nor later is old
    have hdiff : (seg.seq - u.conn.rcvNxt).toInt ≠ 0 := by
      intro hzero
      apply hnext
      rw [← BitVec.toInt_zero, BitVec.toInt_inj, BitVec.sub_eq_iff_eq_add] at hzero
      rw [hzero, BitVec.zero_add]
    rw [seqGt, decide_eq_true_iff] at hlater
    rw [seqLt, decide_eq_true_iff] at hbefore
    omega

/-- A remote FIN is acknowledged by our own. -/
theorem acks_establishedFin (hext : ∃ es, u.trace = t.trace ++ es)
    (h : seg.flags.fin = false → Acknowledges t u) : Acknowledges t (establishedFin env seg u) := by
  unfold establishedFin
  split_ifs with hfin
  · obtain ⟨es, hes⟩ := hext
    obtain ⟨es', hes', -⟩ := (unread_notifyClose env (takeFin env u)).delivered
    have htake : (takeFin env u).trace = u.trace ++ [.remoteFin u.conn] ++ [_] := rfl
    rw [htake, hes, List.append_assoc, List.append_assoc, List.append_assoc] at hes'
    exact acks_last ⟨_, hes'⟩ rfl rfl rfl
  · exact h (Bool.eq_false_iff.2 hfin)

/-! ### A delayed acknowledgement that is pending -/

theorem ackTimer_tcpFlushPending :
    (tcpFlushPending env u).conn.ackTimer = u.conn.ackTimer := by
  unfold tcpFlushPending
  simp only
  split_ifs <;> rfl

theorem ackTimer_tcpSend (data : List Byte) :
    (tcpSend env data u).2.conn.ackTimer = u.conn.ackTimer := by
  unfold tcpSend
  split_ifs
  · rfl
  · rfl
  · rfl
  · rfl
  · rfl
  · cases hgrow : sendbufGrow env u.conn (u.conn.sendbufLen + data.length) with
    | none => rfl
    | some grown =>
      have hframe : grown.ackTimer = u.conn.ackTimer := by
        rw [sendbufGrow_frame hgrow]
      simp only
      split_ifs
      · exact ackTimer_tcpFlushPending.trans hframe
      · unfold scheduleFlush
        split_ifs <;> exact hframe

/-- What the owner calls keeps a pending acknowledgement, sends it, or ends the connection. -/
theorem acks_apiCall (a : ApiCall) (h : Acknowledges t u) (hext : ∃ es, u.trace = t.trace ++ es) :
    Acknowledges t (apiCall env u a) := by
  have hquiet := quiet_apiCall env u a
  obtain ⟨es', hes'⟩ := hquiet.trace
  rcases h with ⟨es, hes, s, hs, hflag, hack⟩ | harmed | hfreed
  · refine Or.inl ⟨es ++ es', by rw [hes', hes, List.append_assoc], s, ?_, hflag, ?_⟩
    · rw [segments_append]
      exact List.mem_append_left _ hs
    · rw [hack, hquiet.rcvNxt]
  · have hlogged : ∃ es, (u.log [.call a u.conn]).trace = t.trace ++ es := by
      obtain ⟨es, hes⟩ := hext
      exact ⟨es ++ _, by rw [Tcp.log_trace, hes, List.append_assoc]⟩
    cases a with
    | send data => exact Or.inr (Or.inl ((ackTimer_tcpSend data).trans harmed))
    | close =>
      show Acknowledges t (tcpClose env (u.log [.call .close u.conn]))
      unfold tcpClose
      split_ifs with hfreed
      · exact Or.inr (Or.inr hfreed)
      · split
        · exact Or.inr (Or.inl harmed)
        · exact Or.inr (Or.inl harmed)
        · exact Or.inr (Or.inr (freed_connDestroy _))
        · exact Or.inr (Or.inr (freed_connDestroy _))
    | updateRecvWindow =>
      show Acknowledges t (tcpUpdateRecvWindow env (u.log [.call .updateRecvWindow u.conn]))
      unfold tcpUpdateRecvWindow
      split_ifs
      · exact Or.inr (Or.inl harmed)
      · exact acks_tcpAckNow hlogged
    | setRecvWindowCb set =>
      show Acknowledges t (tcpSetRecvWindowCb set (u.log [.call (.setRecvWindowCb set) u.conn]))
      unfold tcpSetRecvWindowCb
      split_ifs <;> exact Or.inr (Or.inl harmed)
    | setWriteable set => exact Or.inr (Or.inl harmed)
  · exact Or.inr (Or.inr (freed_path (Course.path (course_apiCall env u a)) hfreed))

theorem acks_foldl_apiCall (calls : List ApiCall) (h : Acknowledges t u)
    (hext : ∃ es, u.trace = t.trace ++ es) : Acknowledges t (calls.foldl (apiCall env) u) := by
  induction calls generalizing u with
  | nil => exact h
  | cons a calls ih =>
    obtain ⟨es, hes⟩ := hext
    obtain ⟨es', hes'⟩ := (quiet_apiCall env u a).trace
    exact ih (acks_apiCall a h ⟨es, hes⟩) ⟨es ++ es', by rw [hes', hes, List.append_assoc]⟩

theorem ackTimer_ackAdvance : (ackAdvance env seg u).conn.ackTimer = u.conn.ackTimer := by
  have hconsume : (if (seg.ack - u.conn.sndUna).toNat ≤ u.conn.sendbufLen then
      sendbufConsume u.conn (seg.ack - u.conn.sndUna).toNat else u.conn).ackTimer =
        u.conn.ackTimer := by
    split_ifs
    · rw [sendbufConsume_frame]
    · rfl
  unfold ackAdvance
  simp only
  split_ifs
  · exact hconsume
  · exact ackTimer_tcpFlushPending.trans hconsume

/-- The acknowledgement of the peer leaves a pending one of ours pending, or sends it. -/
theorem acks_establishedAck (harmed : u.conn.ackTimer = true)
    (hext : ∃ es, u.trace = t.trace ++ es) : Acknowledges t (establishedAck env seg u) := by
  unfold establishedAck
  simp only
  split_ifs
  · obtain ⟨es, hes⟩ := hext
    obtain ⟨es', hes'⟩ := (quiet_ackAdvance env seg u).trace
    refine acks_foldl_apiCall _ (Or.inr (Or.inl (ackTimer_ackAdvance.trans harmed))) ⟨es ++ (es' ++
      [.callback .writeable]), ?_⟩
    rw [Tcp.log_trace, hes', hes, List.append_assoc, List.append_assoc]
  · exact Or.inr (Or.inl (ackTimer_ackAdvance.trans harmed))
  · exact Or.inr (Or.inl harmed)

/-! ### The segments that are acknowledged -/

/-- The segments that the state machine acknowledges: in `ESTABLISHED` payload and FIN, in
`FIN_WAIT` the FIN, in `LAST_ACK` nothing but what ends the connection.  A pending delayed
acknowledgement serves for all. -/
def Inbound.answered (seg : Inbound) (conn : Conn) : Bool :=
  match conn.state with
  | .established => decide (0 < seg.payload.length) || seg.flags.fin || conn.ackTimer
  | .finWait => seg.flags.fin || conn.ackTimer
  | .lastAck => (seg.flags.ack && seg.ack == conn.sndNxt) || conn.ackTimer
  | _ => false

theorem acks_inputEstablished (hext : ∃ es, u.trace = t.trace ++ es)
    (h : 0 < seg.payload.length ∨ seg.flags.fin = true ∨ u.conn.ackTimer = true) :
    Acknowledges t (inputEstablished env seg u) := by
  obtain ⟨es, hes⟩ := hext
  obtain ⟨es₁, hes₁⟩ := (quiet_establishedAck env seg u).trace
  obtain ⟨es₂, hes₂⟩ := (calm_establishedData env seg (establishedAck env seg u)).trace
  have hext₁ : (establishedAck env seg u).trace = t.trace ++ (es ++ es₁) := by
    rw [hes₁, hes, List.append_assoc]
  have hext₂ : (establishedData env seg (establishedAck env seg u)).trace =
      t.trace ++ (es ++ es₁ ++ es₂) := by
    rw [hes₂, hext₁, List.append_assoc]
  refine acks_establishedFin ⟨_, hext₂⟩ fun hfin => ?_
  by_cases hdata : 0 < seg.payload.length
  · exact acks_establishedData hdata ⟨_, hext₁⟩
  · have harmed : u.conn.ackTimer = true := by
      rcases h with hdata' | hfin' | harmed
      · exact absurd hdata' hdata
      · rw [hfin] at hfin'
        cases hfin'
      · exact harmed
    rw [establishedData, if_pos (by omega)]
    exact acks_establishedAck harmed ⟨es, hes⟩

theorem not_acks (htrace : u.trace = t.trace) (harmed : u.conn.ackTimer = false)
    (hlive : u.conn.beingFreed = false) : ¬ Acknowledges t u := by
  rintro (⟨es, hes, s, hs, -⟩ | harmed' | hfreed)
  · rw [htrace, List.self_eq_append_right] at hes
    rw [hes] at hs
    cases hs
  · rw [harmed] at harmed'
    cases harmed'
  · rw [hlive] at hfreed
    cases hfreed

/-- What is taken in `ESTABLISHED` without an answer. -/
theorem not_acks_inputEstablished (hdata : ¬ 0 < seg.payload.length)
    (hfin : seg.flags.fin = false) (hadv : seg.advances u.conn = false) (htrace : u.trace = t.trace)
    (harmed : u.conn.ackTimer = false) (hlive : u.conn.beingFreed = false) :
    ¬ Acknowledges t (inputEstablished env seg u) := by
  have hsame : inputEstablished env seg u = u := by
    rw [inputEstablished, establishedFin, hfin, if_neg Bool.false_ne_true, establishedData,
      if_pos (by omega), establishedAck, hadv, if_neg Bool.false_ne_true]
  rw [hsame]
  exact not_acks htrace harmed hlive

theorem finWaitAck_frame : (finWaitAck seg u).trace = u.trace ∧
    (finWaitAck seg u).conn.ackTimer = u.conn.ackTimer ∧
    (finWaitAck seg u).conn.beingFreed = u.conn.beingFreed := by
  unfold finWaitAck
  simp only
  split_ifs <;> exact ⟨rfl, rfl, rfl⟩

theorem acks_inputFinWait (htrace : u.trace = t.trace) (hlive : u.conn.beingFreed = false) :
    Acknowledges t (inputFinWait env seg u) ↔ seg.flags.fin = true ∨ u.conn.ackTimer = true := by
  obtain ⟨htrace', htimer', hfreed'⟩ := @finWaitAck_frame seg u
  unfold inputFinWait
  simp only
  split_ifs with hfin
  · exact ⟨fun _ => Or.inl hfin, fun _ => Or.inr (Or.inr (freed_connDestroy _))⟩
  · refine ⟨fun h => ?_, fun h => Or.inr (Or.inl (htimer'.trans (h.resolve_left hfin)))⟩
    by_contra hno
    push Not at hno
    exact not_acks (htrace'.trans htrace) (htimer'.trans (Bool.eq_false_iff.2 hno.2))
      (hfreed'.trans hlive) h

theorem acks_inputLastAck (htrace : u.trace = t.trace) (hlive : u.conn.beingFreed = false) :
    Acknowledges t (inputLastAck seg u) ↔
      (seg.flags.ack = true ∧ seg.ack = u.conn.sndNxt) ∨ u.conn.ackTimer = true := by
  unfold inputLastAck
  split_ifs with hack
  · exact ⟨fun _ => Or.inl hack, fun _ => Or.inr (Or.inr (freed_connDestroy _))⟩
  · refine ⟨fun h => ?_, fun h => Or.inr (Or.inl (h.resolve_left hack))⟩
    by_contra hno
    push Not at hno
    exact not_acks htrace (Bool.eq_false_iff.2 hno.2) hlive h

/-- **What occupies sequence space is acknowledged exactly if the state machine answers it**: an
answer acknowledges, and but for an acknowledgement in `ESTABLISHED` that lets data go, nothing else
does. -/
theorem segment_acknowledged (env : TcpEnv) (seg : Inbound) (t : Tcp)
    (hlive : t.conn.beingFreed = false) (hrst : seg.flags.rst = false)
    (hst : t.conn.state = .established ∨ t.conn.state = .finWait ∨ t.conn.state = .lastAck) :
    (seg.answered t.conn = true → Acknowledges t (tcpstackInput env seg t)) ∧
    (Acknowledges t (tcpstackInput env seg t) → seg.answered t.conn = true ∨
      t.conn.state = .established ∧ seg.advances t.conn = true) := by
  have hinput : tcpstackInput env seg t = inputState env seg (updateSndWnd seg t) := by
    rw [tcpstackInput, if_neg (by simp [hlive]), if_neg (by simp [hrst])]
  rw [hinput, inputState]
  have hext : ∃ es, (updateSndWnd seg t).trace = t.trace ++ es := ⟨[], (List.append_nil _).symm⟩
  have hlive' : (updateSndWnd seg t).conn.beingFreed = false := hlive
  have htimer : (updateSndWnd seg t).conn.ackTimer = t.conn.ackTimer := rfl
  have hsame : (updateSndWnd seg t).conn.state = t.conn.state := rfl
  rcases hst with hst | hst | hst
  · rw [hsame, hst]
    simp only [Inbound.answered, hst, Bool.or_eq_true, decide_eq_true_iff, or_assoc, true_and]
    refine ⟨@acks_inputEstablished env seg t (updateSndWnd seg t) hext, fun h => ?_⟩
    by_contra hno
    push Not at hno
    obtain ⟨hdata, hfin, harmed, hadv⟩ := hno
    have hadv' : seg.advances (updateSndWnd seg t).conn = false := Bool.eq_false_iff.2 hadv
    have harmed' : (updateSndWnd seg t).conn.ackTimer = false := Bool.eq_false_iff.2 harmed
    exact @not_acks_inputEstablished env seg t (updateSndWnd seg t) (by omega)
      (Bool.eq_false_iff.2 hfin) hadv' rfl harmed' hlive' h
  · rw [hsame, hst]
    have hacks := @acks_inputFinWait env seg t (updateSndWnd seg t) rfl hlive'
    simp only [Inbound.answered, hst, Bool.or_eq_true]
    exact ⟨hacks.2, fun h => Or.inl (hacks.1 h)⟩
  · rw [hsame, hst]
    have hacks := @acks_inputLastAck seg t (updateSndWnd seg t) rfl hlive'
    simp only [Inbound.answered, hst, Bool.or_eq_true, Bool.and_eq_true, beq_iff_eq]
    exact ⟨hacks.2, fun h => Or.inl (hacks.1 h)⟩

/-- Two bytes for `exampleConn`. -/
def exampleBytes : Inbound := ⟨{ psh := true, ack := true }, 0xfffffffe, 1, 1000, [], [97, 98]⟩

theorem segment_acknowledged_bytes : exampleBytes.answered exampleConn.conn = true ∧
    Acknowledges exampleConn (tcpstackInput exampleEnv exampleBytes exampleConn) := by
  have hanswered : exampleBytes.answered exampleConn.conn = true := by decide
  exact ⟨hanswered, (segment_acknowledged exampleEnv exampleBytes exampleConn (by decide)
    (by decide) (by decide)).1 hanswered⟩

/-- The retransmitted SYN-ACK of a peer that missed our acknowledgement is passed over. -/
theorem synAck_unanswered : ¬ ∀ (t : Tcp) (es : List (TcpEnv × TcpEvent)) (env : TcpEnv)
    (seg : Inbound), Opened t → (Machine.run tcpStep t es).conn.beingFreed = false →
    (Machine.run tcpStep t es).conn.state = .established → seg.flags.rst = false →
    seg.occupies = true →
    Acknowledges (Machine.run tcpStep t es) (tcpstackInput env seg (Machine.run tcpStep t es)) := by
  intro h
  have hacks := h _ [(exampleEnv, .input exampleSynAck)] exampleEnv exampleSynAck
    (.connect exampleEnv 0 exampleHandlers) (by decide) (by decide) (by decide) (by decide)
  exact not_acks rfl (by decide) (by decide) hacks

end Acknowledges

end Wgx
