import Wgx.Tcp.Mtu
import Wgx.Tcp.Receive

/-!
# What the two ends of a connection rely on

* `tcpStep_induction`: what the elementary changes of an event keep, the event keeps;
* `Marked t`: a SYN has the initial sequence number, and only an ending connection has sent a FIN;
* `Backed iss n t`: of the accepted data only the first `n` bytes can be gone from the send ring;
* `Conn.FreedTogether`: the send ring is freed with the connection;
* `Replies irs t`: every acknowledgement sent lies in what was given to `on_data`.
-/

namespace Wgx

/-! ### An induction rule for events -/

section Induction

variable {P : Tcp → Prop} {env : TcpEnv} {t t' : Tcp}

theorem path_induction (hmove : ∀ u u', P u → Move env u u' → P u') (h : P t)
    (hp : Path env t t') : P t' := by
  induction hp with
  | refl => exact h
  | tail _ hm ih => exact hmove _ _ ih hm

/-- What holds before an event and is kept by the moves, by the acknowledgement that the segment of
the event brings, by a remote FIN and our answer to it, by a retransmission and by an abort. -/
theorem tcpStep_induction {e : TcpEvent} (hmove : ∀ u u', P u → Move env u u' → P u')
    (hack : ∀ seg, e = .input seg → ∀ u u', P u → Acked env seg u u' → P u')
    (hfin : ∀ u, P u → P (takeFin env u)) (hlast : ∀ u, P u → P (sendFin env .lastAck u))
    (hresent : P t → P (resent env t))
    (habort : P t → P ((retransmitFired t).update fun conn => { conn with state := .closed }))
    (h : P t) : P (tcpStep t (env, e)) := by
  have hcourse : ∀ {u}, Course env t u → P u := fun hc => path_induction hmove h hc.path
  refine tcpStep_cases h (fun a _ => hcourse (course_apiCall env t a)) ?_
    (hcourse (course_flushCheckCb env t)) (fun _ => ?_) (hcourse (course_delayedAckCb env t))
    (fun _ => hcourse (course_timerCloseCb env t))
  · rintro seg rfl
    unfold tcpstackInput
    split_ifs with hfreed hrst
    · exact h
    · exact hmove _ _ h (Move.finish (Bool.eq_false_iff.2 hfreed))
    · have hwnd : P (updateSndWnd seg t) :=
        hmove _ _ h (Move.window seg (Bool.eq_false_iff.2 hfreed))
      have hthen : ∀ {u u'}, P u → AckedThen env seg u u' → P u' := by
        rintro u u' hu ⟨u₁, hacked, hp⟩
        exact path_induction hmove (hack seg rfl _ _ hu hacked) hp
      unfold inputState
      cases hst : (updateSndWnd seg t).conn.state with
      | synReceived =>
        by_cases hacks : seg.flags.ack = true ∧ seg.ack = (updateSndWnd seg t).conn.sndNxt
        · exact hthen hwnd (acked_inputSynReceived env seg hst hacks)
        · simp only
          rwa [inputSynReceived, if_neg hacks]
      | synSent =>
        by_cases hflags : seg.flags.syn = true ∧ seg.flags.ack = true
        · by_cases hbad : (!seqGt seg.ack (updateSndWnd seg t).conn.sndUna) = true ∨
              seqGt seg.ack (updateSndWnd seg t).conn.sndNxt = true
          · simp only
            rwa [inputSynSent, if_pos hflags, if_pos hbad]
          · push Not at hbad
            exact hthen hwnd (acked_inputSynSent env seg hst hflags (by simpa using hbad.1)
              (Bool.eq_false_iff.2 hbad.2))
        · simp only
          rwa [inputSynSent, if_neg hflags]
      | established =>
        have hestablished : P (establishedAck env seg (updateSndWnd seg t)) := by
          by_cases hadv : seg.advances (updateSndWnd seg t).conn = true
          · exact hthen hwnd (acked_establishedAck env seg hst hadv)
          · rwa [establishedAck, if_neg hadv]
        have hdata := path_induction hmove hestablished (path_establishedData env seg _)
        simp only [inputEstablished, establishedFin]
        split_ifs
        · exact hlast _ (path_induction hmove (hfin _ hdata) (path_notifyClose env _))
        · exact hdata
      | finWait =>
        have hwait : P (finWaitAck seg (updateSndWnd seg t)) := by
          by_cases hadv : seg.advances (updateSndWnd seg t).conn = true
          · exact hthen hwnd (acked_finWaitAck env seg hst hadv)
          · rwa [finWaitAck, if_neg hadv]
        exact path_induction hmove hwait
          (path_inputFinWait env seg (Bool.eq_false_iff.2 hfreed) hst)
      | lastAck =>
        exact path_induction hmove hwnd (path_inputLastAck env seg (Bool.eq_false_iff.2 hfreed))
      | closed => exact hwnd
      | closeWait => exact hwnd
  · by_cases hfreed : t.conn.beingFreed = true
    · rwa [retransmitCb, if_pos hfreed]
    · rw [retransmitCb_of_live (Bool.eq_false_iff.2 hfreed)]
      split_ifs
      · exact path_induction hmove (habort h)
          ((path_notifyAbort env _).trans (path_connDestroy env _))
      · exact hresent h

end Induction

/-! ### The segments of an event -/

section Emitted

variable {env : TcpEnv} {conn : Conn} {seg : Segment}

theorem mem_flushLoop {fuel inFlight : ℕ} (h : seg ∈ (flushLoop env conn fuel inFlight).1) :
    ∃ seq data, seg = segmentOf env conn { ack := true, psh := true } seq conn.rcvNxt data := by
  induction fuel generalizing inFlight with
  | zero => cases h
  | succ fuel ih =>
    unfold flushLoop at h
    simp only at h
    split_ifs at h
    · cases h
    · rcases List.mem_cons.1 h with rfl | h
      · exact ⟨_, _, rfl⟩
      · exact ih h
    · cases h

/-- A segment of `retransmit_cb`: `rcv_nxt` is acknowledged, but not before the connection is
opened; a SYN has the initial sequence number, and a FIN comes from an ending connection. -/
def Resends (env : TcpEnv) (conn : Conn) (seg : Segment) : Prop :=
  ∃ flags seq ack data, seg = segmentOf env conn flags seq ack data ∧
    (flags.ack = true → ack = conn.rcvNxt ∧ conn.state ≠ .synSent ∧ conn.state ≠ .closed) ∧
    (flags.syn = true → seq = conn.iss) ∧ (flags.fin = true → conn.state.ending = true)

theorem resends_retransmitLoop (hst : conn.state ≠ .synSent ∧ conn.state ≠ .closed)
    {fuel off : ℕ} (h : seg ∈ retransmitLoop env conn fuel off) : Resends env conn seg := by
  induction fuel generalizing off with
  | zero => cases h
  | succ fuel ih =>
    unfold retransmitLoop at h
    split_ifs at h
    · rcases List.mem_cons.1 h with rfl | h
      · refine ⟨_, _, _, _, rfl, fun _ => ⟨rfl, hst⟩, fun hsyn => (by cases hsyn), fun hfin => ?_⟩
        simp only [Bool.and_eq_true, Bool.or_eq_true, decide_eq_true_eq] at hfin
        rcases hfin.2 with hstate | hstate <;> rw [hstate] <;> rfl
      · exact ih h
    · cases h

theorem resends_retransmitSegments (h : seg ∈ retransmitSegments env conn) :
    Resends env conn seg := by
  unfold retransmitSegments at h
  cases hst : conn.state <;> rw [hst] at h <;> simp only at h
  case closed => cases h
  case synSent =>
    obtain rfl := List.mem_singleton.1 h
    exact ⟨_, _, _, _, rfl, fun hack => (by cases hack), fun _ => rfl, fun hfin => by cases hfin⟩
  case synReceived =>
    obtain rfl := List.mem_singleton.1 h
    exact ⟨_, _, _, _, rfl, fun _ => ⟨rfl, by rw [hst]; decide, by rw [hst]; decide⟩, fun _ => rfl,
      fun hfin => by cases hfin⟩
  case established => exact resends_retransmitLoop (by rw [hst]; decide) h
  case closeWait => exact resends_retransmitLoop (by rw [hst]; decide) h
  all_goals
    split_ifs at h
    · exact resends_retransmitLoop (by rw [hst]; decide) h
    · obtain rfl := List.mem_singleton.1 h
      exact ⟨_, _, _, _, rfl, fun _ => ⟨rfl, by rw [hst]; decide, by rw [hst]; decide⟩,
        fun hsyn => (by cases hsyn), fun _ => by rw [hst]; rfl⟩

end Emitted

/-! ### SYN and FIN -/

/-- Every segment that was sent has the shape that `send_segment` gives it, a SYN has the initial
sequence number, and a FIN was sent only if the connection is ending. -/
structure Marked (t : Tcp) : Prop where
  shaped : ∀ seg ∈ segments t.trace, seg.Shaped
  syn : ∀ seg ∈ segments t.trace, seg.flags.syn = true → seg.seq = t.conn.iss
  fin : ∀ seg ∈ segments t.trace, seg.flags.fin = true → t.conn.state.ending = true

/-- Between `t` and `t'` segments of that kind are sent. -/
structure Marks (t t' : Tcp) : Prop where
  iss : t'.conn.iss = t.conn.iss
  ending : t.conn.state.ending = true → t'.conn.state.ending = true
  sent : ∃ es, t'.trace = t.trace ++ es ∧ ∀ seg ∈ segments es, seg.Shaped ∧
    (seg.flags.syn = true → seg.seq = t.conn.iss) ∧
    (seg.flags.fin = true → t'.conn.state.ending = true)

section Marks

variable {env : TcpEnv} {t t' t'' : Tcp}

theorem Marks.refl (t : Tcp) : Marks t t :=
  ⟨rfl, id, [], (List.append_nil _).symm, fun seg hseg => by cases hseg⟩

theorem Marks.trans (h : Marks t t') (h' : Marks t' t'') : Marks t t'' := by
  obtain ⟨es, hes, hsegs⟩ := h.sent
  obtain ⟨es', hes', hsegs'⟩ := h'.sent
  refine ⟨h'.iss.trans h.iss, fun hend => h'.ending (h.ending hend), es ++ es', ?_, ?_⟩
  · rw [hes', hes, List.append_assoc]
  · rw [segments_append]
    intro seg hseg
    rcases List.mem_append.1 hseg with hseg | hseg
    · obtain ⟨hshaped, hsyn, hfin⟩ := hsegs seg hseg
      exact ⟨hshaped, hsyn, fun hf => h'.ending (hfin hf)⟩
    · obtain ⟨hshaped, hsyn, hfin⟩ := hsegs' seg hseg
      exact ⟨hshaped, fun hs => (hsyn hs).trans h.iss, hfin⟩

theorem Marks.live (h : Marks t t') (hlive : t'.conn.state.ending = false) :
    t.conn.state.ending = false := by
  by_contra hend
  rw [h.ending (Bool.not_eq_false _ ▸ hend)] at hlive
  cases hlive

theorem Marked.marks (h : Marked t) (hm : Marks t t') : Marked t' := by
  obtain ⟨es, hes, hsegs⟩ := hm.sent
  have hmem : ∀ seg ∈ segments t'.trace, seg ∈ segments t.trace ∨ seg ∈ segments es := by
    intro seg hseg
    rw [hes, segments_append] at hseg
    exact List.mem_append.1 hseg
  refine ⟨fun seg hseg => ?_, fun seg hseg hsyn => ?_, fun seg hseg hfin => ?_⟩
  · exact (hmem seg hseg).elim (h.shaped seg) fun hnew => (hsegs seg hnew).1
  · rw [hm.iss]
    exact (hmem seg hseg).elim (fun hold => h.syn seg hold hsyn) fun hnew => (hsegs seg hnew).2.1 hsyn
  · exact (hmem seg hseg).elim (fun hold => hm.ending (h.fin seg hold hfin))
      fun hnew => (hsegs seg hnew).2.2 hfin

/-- Nothing is sent. -/
theorem marks_silent (hiss : t'.conn.iss = t.conn.iss)
    (hst : t'.conn.state = t.conn.state ∨ t'.conn.state.ending = true ∨
      t.conn.state.ending = false)
    {es : List Entry} (htrace : t'.trace = t.trace ++ es) (hes : segments es = []) :
    Marks t t' := by
  refine ⟨hiss, fun hend => ?_, es, htrace, fun seg hseg => ?_⟩
  · rcases hst with hst | hst | hst
    · rwa [hst]
    · exact hst
    · rw [hst] at hend
      cases hend
  · rw [hes] at hseg
    cases hseg

/-- One segment is sent. -/
theorem marks_sendSegment {flags : Flags} {seq ack : Seq} {data : List Byte}
    (hsyn : flags.syn = true → seq = t.conn.iss)
    (hfin : flags.fin = true → t.conn.state.ending = true) :
    Marks t (sendSegment env flags seq ack data t) := by
  refine ⟨rfl, id, _, rfl, fun seg hseg => ?_⟩
  obtain rfl := List.mem_singleton.1 hseg
  exact ⟨shaped_segmentOf _ _ _ _ _ _, hsyn, hfin⟩

theorem marks_update {f : Conn → Conn} (hiss : (f t.conn).iss = t.conn.iss)
    (hst : (f t.conn).state = t.conn.state ∨ (f t.conn).state.ending = true ∨
      t.conn.state.ending = false) : Marks t (t.update f) :=
  marks_silent hiss hst (List.append_nil _).symm rfl

theorem marks_connDestroy (t : Tcp) : Marks t (connDestroy t) := by
  unfold connDestroy
  split_ifs
  · exact Marks.refl t
  · exact marks_update rfl (Or.inl rfl)

theorem marks_sendFin {state : TcpState} (hst : state = .finWait ∨ state = .lastAck) (t : Tcp) :
    Marks t (sendFin env state t) := by
  have hend : state.ending = true := by rcases hst with rfl | rfl <;> rfl
  have hstate : Marks t (t.update fun conn => { conn with state := state }) :=
    marks_update rfl (Or.inr (Or.inl hend))
  have hsent : Marks t (sendSegment env { fin := true, ack := true } t.conn.sndNxt t.conn.rcvNxt []
      (t.update fun conn => { conn with state := state })) :=
    hstate.trans (marks_sendSegment (fun hsyn => by cases hsyn) fun _ => hend)
  exact hsent.trans
    (@marks_update _ (fun conn => { conn with sndNxt := conn.sndNxt + 1 }) rfl (Or.inl rfl))

theorem marks_tcpFlushPending (t : Tcp) : Marks t (tcpFlushPending env t) := by
  unfold tcpFlushPending
  split_ifs
  · exact Marks.refl t
  · generalize hloop : flushLoop env t.conn _ _ = loop
    obtain ⟨segs, inFlight⟩ := loop
    simp only
    have hsent : Marks t (t.log (segs.map .segment)) := by
      refine ⟨rfl, id, _, rfl, fun seg hseg => ?_⟩
      rw [segments_segments] at hseg
      obtain ⟨seq, data, rfl⟩ := @mem_flushLoop env t.conn seg _ _ (by rw [hloop]; exact hseg)
      exact ⟨shaped_segmentOf _ _ _ _ _ _, fun hsyn => (by cases hsyn), fun hfin => by cases hfin⟩
    split_ifs
    · exact (hsent.trans (marks_update rfl (Or.inl rfl))).trans (marks_update rfl (Or.inl rfl))
    · exact hsent.trans (marks_update rfl (Or.inl rfl))

theorem marks_tcpAckNow (t : Tcp) : Marks t (tcpAckNow env t) := by
  unfold tcpAckNow
  split_ifs
  · exact Marks.refl t
  · refine Marks.trans ?_ (marks_sendSegment (fun hsyn => by cases hsyn) fun hfin => by cases hfin)
    exact marks_update rfl (Or.inl rfl)

theorem marks_move (hm : Move env t t') : Marks t t' := by
  cases hm with
  | note e he => exact marks_silent rfl (Or.inl rfl) rfl (segments_note he)
  | accept data grown hlive hst hpos hfit hgrow =>
    have hgrown := sendbufGrow_frame hgrow
    refine marks_silent ?_ (Or.inl ?_) rfl rfl
    · show (sendbufAppend grown data).iss = _
      rw [hgrown]
      rfl
    · show (sendbufAppend grown data).state = _
      rw [hgrown]
      rfl
  | flush => exact marks_tcpFlushPending t
  | ack => exact marks_tcpAckNow t
  | close state hlive hst =>
    exact marks_sendFin (hst.imp And.right And.right) t
  | reset hlive hst =>
    refine Marks.trans (Marks.trans ?_ (marks_sendSegment (fun hsyn => by cases hsyn)
      fun hfin => by cases hfin)) (marks_connDestroy _)
    exact marks_update rfl (Or.inr (Or.inl rfl))
  | destroy => exact marks_connDestroy t
  | finish =>
    refine Marks.trans ?_ (marks_connDestroy _)
    exact marks_update rfl (Or.inr (Or.inl rfl))
  | queueOoo seq data =>
    have hframe := tcpOooQueue_frame env seq data t.conn
    refine marks_update ?_ (Or.inl ?_)
    · rw [hframe]
    · rw [hframe]
  | countFin =>
    refine Marks.trans ?_ (@marks_sendSegment env
      (t.update fun conn => { conn with rcvNxt := conn.rcvNxt + 1 }) _ _ _ _
      (fun hsyn => by cases hsyn) fun hfin => by cases hfin)
    exact marks_update rfl (Or.inl rfl)
  | _ => exact marks_update rfl (Or.inl rfl)

theorem marks_acked {seg : Inbound} (ha : Acked env seg t t') : Marks t t' := by
  cases ha with
  | passive hst => exact marks_update rfl (Or.inr (Or.inr (by rw [hst]; rfl)))
  | active hst =>
    exact marks_silent rfl (Or.inr (Or.inr (by rw [hst]; rfl))) (List.append_nil _).symm rfl
  | data hst =>
    refine marks_update ?_ (Or.inl ?_)
    · simp only
      split_ifs
      · rw [sendbufConsume_frame]
      · rfl
    · simp only
      split_ifs
      · rw [sendbufConsume_frame]
      · rfl
  | fin => exact marks_update rfl (Or.inl rfl)

theorem marks_takeFin (t : Tcp) : Marks t (takeFin env t) := by
  unfold takeFin
  refine Marks.trans (Marks.trans ?_ (marks_update rfl (Or.inr (Or.inl rfl))))
    (marks_sendSegment (fun hsyn => by cases hsyn) fun hfin => by cases hfin)
  exact marks_silent rfl (Or.inl rfl) rfl rfl

theorem marks_retransmitFired (t : Tcp) : Marks t (retransmitFired t) :=
  marks_update rfl (Or.inl rfl)

theorem marks_resent (t : Tcp) : Marks t (resent env t) := by
  refine Marks.trans (Marks.trans (marks_retransmitFired t) ?_) (marks_update rfl (Or.inl rfl))
  refine ⟨rfl, id, _, rfl, fun seg hseg => ?_⟩
  rw [segments_segments] at hseg
  obtain ⟨flags, seq, ack, data, rfl, -, hsyn, hfin⟩ := resends_retransmitSegments hseg
  exact ⟨shaped_segmentOf _ _ _ _ _ _, hsyn, hfin⟩

theorem marks_tcpStep (t : Tcp) (e : TcpEnv × TcpEvent) : Marks t (tcpStep t e) := by
  obtain ⟨env, e⟩ := e
  refine @tcpStep_induction (Marks t) env t e (fun _ _ h hm => h.trans (marks_move hm))
    (fun _ _ _ _ h ha => h.trans (marks_acked ha)) (fun u h => h.trans (marks_takeFin u))
    (fun u h => h.trans (marks_sendFin (Or.inr rfl) u)) (fun h => h.trans (marks_resent t))
    (fun h => ?_) (Marks.refl t)
  exact (marks_retransmitFired t).trans (marks_update rfl (Or.inr (Or.inl rfl)))

end Marks

/-! ### The send ring -/

/-- At most the first `n` accepted bytes are gone from the send ring, and in `ESTABLISHED` the
variable `snd_una` counts those that are. -/
structure Backed (iss : Seq) (n : ℕ) (t : Tcp) : Prop where
  initial : t.conn.iss = iss
  opening : t.conn.state = .synSent ∨ t.conn.state = .synReceived →
    t.conn.sendbufLen = 0 ∧ accepted t.trace = []
  una : t.conn.state = .established → ∃ a ≤ n, a + t.conn.sendbufLen = (accepted t.trace).length ∧
    t.conn.sndUna = iss + 1 + BitVec.ofNat 32 a
  backed : (accepted t.trace).length ≤ n + t.conn.sendbufLen

/-- While a connection is not ending, what is in flight are bytes of its ring. -/
def Pacing (t : Tcp) : Prop := t.conn.state.ending = false → Paced paceLimit t

/-- The acknowledgements of a segment lie in the first `n` bytes. -/
def Inbound.AcksAtMost (iss : Seq) (n : ℕ) (seg : Inbound) : Prop :=
  seg.flags.ack = true → ∃ k ≤ n, seg.ack = iss + 1 + BitVec.ofNat 32 k

section Backed

variable {env : TcpEnv} {iss : Seq} {n : ℕ} {t t' : Tcp}

theorem Backed.mono {m : ℕ} (h : Backed iss n t) (hle : n ≤ m) : Backed iss m t := by
  refine ⟨h.initial, h.opening, fun hst => ?_, h.backed.trans (Nat.add_le_add_right hle _)⟩
  obtain ⟨a, ha, hlen, huna⟩ := h.una hst
  exact ⟨a, ha.trans hle, hlen, huna⟩

/-- The ring and the accepted data are the same. -/
theorem Backed.still (h : Backed iss n t) (hiss : t'.conn.iss = t.conn.iss)
    (huna : t'.conn.sndUna = t.conn.sndUna) (hlen : t'.conn.sendbufLen = t.conn.sendbufLen)
    (hst : t'.conn.state = t.conn.state ∨ t'.conn.state.ending = true)
    (hacc : accepted t'.trace = accepted t.trace) : Backed iss n t' := by
  have hstate : ∀ {st : TcpState}, st.ending = false → t'.conn.state = st → t.conn.state = st := by
    rintro st hno rfl
    rcases hst with hst | hst
    · exact hst.symm
    · rw [hst] at hno
      cases hno
  refine ⟨hiss.trans h.initial, fun hopen => ?_, fun hest => ?_, ?_⟩
  · rw [hlen, hacc]
    exact h.opening (hopen.imp (hstate rfl) (hstate rfl))
  · rw [hlen, hacc, huna]
    exact h.una (hstate rfl hest)
  · rw [hlen, hacc]
    exact h.backed

theorem Backed.update (h : Backed iss n t) {f : Conn → Conn} (hiss : (f t.conn).iss = t.conn.iss)
    (huna : (f t.conn).sndUna = t.conn.sndUna) (hlen : (f t.conn).sendbufLen = t.conn.sendbufLen)
    (hst : (f t.conn).state = t.conn.state ∨ (f t.conn).state.ending = true) :
    Backed iss n (t.update f) :=
  h.still hiss huna hlen hst rfl

theorem Backed.log (h : Backed iss n t) {es : List Entry} (hes : accepted es = []) :
    Backed iss n (t.log es) := by
  refine h.still rfl rfl rfl (Or.inl rfl) ?_
  rw [Tcp.log_trace, accepted_append, hes, List.append_nil]

theorem Backed.connDestroy (h : Backed iss n t) : Backed iss n (connDestroy t) := by
  unfold Wgx.connDestroy
  split_ifs
  · exact h
  · exact h.update rfl rfl rfl (Or.inl rfl)

theorem Backed.sendFin (h : Backed iss n t) {state : TcpState} (hst : state.ending = true) :
    Backed iss n (sendFin env state t) := by
  have hstate : Backed iss n (t.update fun conn => { conn with state := state }) :=
    h.update rfl rfl rfl (Or.inr hst)
  exact (hstate.log (accepted_segments [_])).still rfl rfl rfl (Or.inl rfl) rfl

theorem accepted_note {e : Entry} (he : e.isNote = true) : accepted [e] = [] := by
  cases e with
  | segment seg => cases he
  | accepted data => cases he
  | callback cb => rfl
  | call a conn => rfl
  | remoteFin conn => rfl

/-- `tcp_send` takes data: it goes to the ring. -/
theorem Backed.accept (h : Backed iss n t) (hst : t.conn.state = .established) {data : List Byte}
    {grown : Conn} {need : ℕ} (hgrow : sendbufGrow env t.conn need = some grown) :
    Backed iss n ((t.update fun _ => sendbufAppend grown data).log [.accepted data]) := by
  have hgrown := sendbufGrow_frame hgrow
  have hiss : (sendbufAppend grown data).iss = t.conn.iss := by rw [hgrown]; rfl
  have hstate : (sendbufAppend grown data).state = t.conn.state := by rw [hgrown]; rfl
  have huna : (sendbufAppend grown data).sndUna = t.conn.sndUna := by rw [hgrown]; rfl
  have hlen : (sendbufAppend grown data).sendbufLen = t.conn.sendbufLen + data.length := by
    rw [hgrown]
    rfl
  have hacc : (accepted (t.trace ++ [.accepted data])).length =
      (accepted t.trace).length + data.length := by
    rw [accepted_append, List.length_append]
    simp [accepted]
  obtain ⟨a, ha, hsum, hseq⟩ := h.una hst
  refine ⟨hiss.trans h.initial, fun hopen => ?_, fun _ => ⟨a, ha, ?_, huna.trans hseq⟩, ?_⟩
  · have hopen' : t.conn.state = .synSent ∨ t.conn.state = .synReceived := hstate ▸ hopen
    rw [hst] at hopen'
    rcases hopen' with hno | hno <;> cases hno
  · show a + (sendbufAppend grown data).sendbufLen = (accepted (t.trace ++ _)).length
    rw [hlen, hacc]
    omega
  · show (accepted (t.trace ++ _)).length ≤ n + (sendbufAppend grown data).sendbufLen
    have hbacked := h.backed
    rw [hlen, hacc]
    omega

theorem Backed.tcpFlushPending (h : Backed iss n t) : Backed iss n (tcpFlushPending env t) := by
  unfold Wgx.tcpFlushPending
  split_ifs
  · exact h
  · generalize flushLoop env t.conn _ _ = loop
    obtain ⟨segs, inFlight⟩ := loop
    simp only
    have hsent : Backed iss n (t.log (segs.map .segment)) := h.log (accepted_segments _)
    split_ifs
    · exact (hsent.update rfl rfl rfl (Or.inl rfl)).update rfl rfl rfl (Or.inl rfl)
    · exact hsent.update rfl rfl rfl (Or.inl rfl)

theorem Backed.move (h : Backed iss n t) (hm : Move env t t') : Backed iss n t' := by
  cases hm with
  | note e he => exact h.log (accepted_note he)
  | accept data grown hlive hst hpos hfit hgrow => exact h.accept hst hgrow
  | flush => exact h.tcpFlushPending
  | ack hlive =>
    rw [tcpAckNow, if_neg (by simp [hlive])]
    exact Backed.log (t := t.update _) (h.update rfl rfl rfl (Or.inl rfl)) rfl
  | close state hlive hst => exact h.sendFin (by rcases hst with ⟨-, rfl⟩ | ⟨-, rfl⟩ <;> rfl)
  | reset =>
    exact ((h.update (f := fun conn => { conn with state := .closed }) rfl rfl rfl
      (Or.inr rfl)).log rfl).connDestroy
  | destroy => exact h.connDestroy
  | finish => exact (h.update rfl rfl rfl (Or.inr rfl)).connDestroy
  | queueOoo seq data =>
    have hframe := tcpOooQueue_frame env seq data t.conn
    refine h.update ?_ ?_ ?_ (Or.inl ?_) <;> rw [hframe]
  | countFin =>
    exact (h.update (f := fun conn => { conn with rcvNxt := conn.rcvNxt + 1 }) rfl rfl rfl
      (Or.inl rfl)).log rfl
  | _ => exact h.update rfl rfl rfl (Or.inl rfl)

/-- An acknowledgement takes its bytes off the ring. -/
theorem Backed.acked (h : Backed iss n t) (hpaced : Pacing t) (hn : n < 2 ^ 31) {seg : Inbound}
    (hseg : t.conn.state.ending = false → seg.AcksAtMost iss n) (ha : Acked env seg t t') :
    Backed iss n t' := by
  cases ha with
  | passive hst hack hnxt =>
    have hopen := (hpaced (by rw [hst]; rfl)).opening (Or.inr hst)
    obtain ⟨hlen, hacc⟩ := h.opening (Or.inr hst)
    refine ⟨h.initial, fun hno => (by rcases hno with hno | hno <;> cases hno),
      fun _ => ⟨0, Nat.zero_le _, ?_, ?_⟩, h.backed⟩
    · show 0 + t.conn.sendbufLen = (accepted t.trace).length
      rw [hlen, hacc]
      rfl
    · show seg.ack = _
      rw [hnxt, hopen.2, h.initial]
      exact (BitVec.add_zero _).symm
  | active hst hsyn hack hgt hle =>
    have hopen := (hpaced (by rw [hst]; rfl)).opening (Or.inl hst)
    obtain ⟨hlen, hacc⟩ := h.opening (Or.inl hst)
    rw [hopen.1] at hgt
    rw [hopen.2] at hle
    refine ⟨h.initial, fun hno => (by rcases hno with hno | hno <;> cases hno),
      fun _ => ⟨0, Nat.zero_le _, ?_, ?_⟩, h.backed⟩
    · show 0 + t.conn.sendbufLen = (accepted t.trace).length
      rw [hlen, hacc]
      rfl
    · show seg.ack = _
      rw [synAck_eq hgt hle, h.initial]
      exact (BitVec.add_zero _).symm
  | data hst hadv =>
    have hp := hpaced (by rw [hst]; rfl)
    obtain ⟨a, han, hsum, huna⟩ := h.una hst
    have hack : seg.flags.ack = true := by
      simp only [Inbound.advances, Bool.and_eq_true] at hadv
      exact hadv.1
    obtain ⟨k, hk, hseq⟩ := hseg (by rw [hst]; rfl) hack
    obtain ⟨d, hd, -, hemits, hmoved⟩ :=
      acked_spec hp (by decide) le_rfl (@Acked.data env seg t hst hadv)
    have hfit := hp.inFlight hst
    have hsize := hp.ring.len_le_size
    have hlimit : wgTcpSendbufSize = 2 ^ 18 := by decide
    -- the acknowledged bytes are those behind the `a` that are gone
    have hdist : (seg.ack - t.conn.sndUna).toNat = d := by
      have hat : seg.ack = t.conn.sndUna + BitVec.ofNat 32 d := hmoved.symm.trans hemits.sndUna
      rw [hat, BitVec.add_comm, BitVec.add_sub_cancel, BitVec.toNat_ofNat,
        Nat.mod_eq_of_lt (by omega)]
    have hat : seg.ack = iss + 1 + BitVec.ofNat 32 (a + d) := by
      rw [← Serial.add_ofNat_add, ← huna]
      exact hmoved.symm.trans hemits.sndUna
    have hle : a + d ≤ n := by
      have heq : a + d = k := Serial.add_ofNat_inj (by omega) (by omega) (hat.symm.trans hseq)
      omega
    have hring : (if (seg.ack - t.conn.sndUna).toNat ≤ t.conn.sendbufLen then
        sendbufConsume t.conn (seg.ack - t.conn.sndUna).toNat else t.conn) =
          sendbufConsume t.conn d := by
      rw [hdist, if_pos (by omega)]
    have hframe := hring.trans (sendbufConsume_frame t.conn d)
    have hlen := (congrArg Conn.sendbufLen hring).trans (sendbufLen_sendbufConsume t.conn d)
    refine ⟨(congrArg Conn.iss hframe).trans h.initial, fun hopen => ?_,
      fun _ => ⟨a + d, hle, ?_, hat⟩, ?_⟩
    · have hstate := (congrArg Conn.state hframe).trans hst
      rcases hopen with hno | hno <;> cases hstate.symm.trans hno
    · refine (congrArg (a + d + ·) hlen).trans ?_
      show a + d + (t.conn.sendbufLen - d) = (accepted t.trace).length
      omega
    · refine le_trans ?_ (congrArg (n + ·) hlen).ge
      show (accepted t.trace).length ≤ n + (t.conn.sendbufLen - d)
      omega
  | fin hst hadv =>
    exact ⟨h.initial, fun hopen => (by rcases hopen with h' | h' <;> cases hst.symm.trans h'),
      fun hest => (by cases hst.symm.trans hest), h.backed⟩

theorem Backed.takeFin (h : Backed iss n t) : Backed iss n (takeFin env t) := by
  refine h.still rfl rfl rfl (Or.inr rfl) ?_
  show accepted ((t.trace ++ [.remoteFin t.conn]) ++ [_]) = _
  rw [accepted_append, accepted_append, accepted_note rfl, List.append_nil]
  exact List.append_nil _

theorem Backed.resent (h : Backed iss n t) : Backed iss n (resent env t) := by
  refine h.still rfl rfl rfl (Or.inl rfl) ?_
  show accepted (t.trace ++ (retransmitSegments env (retransmitFired t).conn).map .segment) = _
  rw [accepted_append, accepted_segments, List.append_nil]

theorem Pacing.move (h : Pacing t) (hm : Move env t t') : Pacing t' := fun hlive =>
  (paces_move (h ((marks_move hm).live hlive)) (by decide) le_rfl hm).1

theorem Pacing.acked {seg : Inbound} (h : Pacing t) (ha : Acked env seg t t') : Pacing t' := by
  intro hlive
  obtain ⟨-, -, hpaced, -⟩ := acked_spec (h ((marks_acked ha).live hlive)) (by decide) le_rfl ha
  exact hpaced

theorem pacing_of_ending (h : t.conn.state.ending = true) : Pacing t := by
  intro hlive
  rw [h] at hlive
  cases hlive

/-- **What is gone from the ring is acknowledged.**  An event keeps that at most the first `n` bytes
are gone, if its segment acknowledges no more. -/
theorem Backed.tcpStep (h : Backed iss n t) (hpaced : Pacing t) (hn : n < 2 ^ 31) {e : TcpEvent}
    (he : ∀ seg, e = .input seg → t.conn.state.ending = false → seg.AcksAtMost iss n) :
    Backed iss n (tcpStep t (env, e)) ∧ Pacing (tcpStep t (env, e)) := by
  have hrun : Marks t (Wgx.tcpStep t (env, e)) ∧ Backed iss n (Wgx.tcpStep t (env, e)) ∧
      Pacing (Wgx.tcpStep t (env, e)) := by
    refine @tcpStep_induction (fun u => Marks t u ∧ Backed iss n u ∧ Pacing u) env t e
      (fun u u' hu hm => ?_) (fun seg hseg u u' hu ha => ?_) (fun u hu => ?_) (fun u hu => ?_)
      (fun hu => ?_) (fun hu => ?_) ⟨Marks.refl t, h, hpaced⟩
    · exact ⟨hu.1.trans (marks_move hm), hu.2.1.move hm, hu.2.2.move hm⟩
    · refine ⟨hu.1.trans (marks_acked ha), ?_, hu.2.2.acked ha⟩
      exact hu.2.1.acked hu.2.2 hn (fun hlive => he seg hseg (hu.1.live hlive)) ha
    · exact ⟨hu.1.trans (marks_takeFin u), hu.2.1.takeFin, pacing_of_ending rfl⟩
    · exact ⟨hu.1.trans (marks_sendFin (Or.inr rfl) u), hu.2.1.sendFin rfl, pacing_of_ending rfl⟩
    · exact ⟨marks_resent t, hu.2.1.resent, fun hlive => (hu.2.2 hlive).resent⟩
    · refine ⟨(marks_retransmitFired t).trans (marks_update rfl (Or.inr (Or.inl rfl))), ?_,
        pacing_of_ending rfl⟩
      exact hu.2.1.still rfl rfl rfl (Or.inr rfl) rfl
  exact hrun.2

end Backed

/-! ### The memory of the ring -/

/-- The ring is freed with the connection, and not before. -/
def Conn.FreedTogether (conn : Conn) : Prop := conn.sendbufFreed = conn.released

section Freed

variable {env : TcpEnv} {t t' : Tcp}

theorem freedTogether_connDestroy (h : t.conn.FreedTogether) : (connDestroy t).conn.FreedTogether := by
  unfold connDestroy
  split_ifs
  · exact h
  · exact h

theorem freedTogether_move (h : t.conn.FreedTogether) (hm : Move env t t') :
    t'.conn.FreedTogether := by
  cases hm with
  | accept data grown hlive hst hpos hfit hgrow =>
    show (sendbufAppend grown data).FreedTogether
    rw [sendbufGrow_frame hgrow]
    exact h
  | flush =>
    unfold tcpFlushPending
    split_ifs
    · exact h
    · simp only
      split_ifs <;> exact h
  | ack hlive =>
    rw [tcpAckNow, if_neg (by simp [hlive])]
    exact h
  | reset => exact freedTogether_connDestroy h
  | destroy => exact freedTogether_connDestroy h
  | finish => exact freedTogether_connDestroy h
  | queueOoo seq data =>
    show (tcpOooQueue env seq data t.conn).FreedTogether
    rw [tcpOooQueue_frame]
    exact h
  | release => rfl
  | _ => exact h

theorem freedTogether_acked {seg : Inbound} (h : t.conn.FreedTogether) (ha : Acked env seg t t') :
    t'.conn.FreedTogether := by
  cases ha with
  | active => exact h
  | data =>
    simp only [Tcp.update_conn]
    split_ifs
    · rw [sendbufConsume_frame]
      exact h
    · exact h
  | _ => exact h

theorem freedTogether_tcpStep (h : t.conn.FreedTogether) (e : TcpEvent) :
    (tcpStep t (env, e)).conn.FreedTogether :=
  @tcpStep_induction (fun u => u.conn.FreedTogether) env t e
    (fun _ _ hu hm => freedTogether_move hu hm) (fun _ _ _ _ hu ha => freedTogether_acked hu ha)
    (fun _ hu => hu) (fun _ hu => hu) (fun hu => hu) (fun hu => hu) h

end Freed

/-! ### Acknowledgements -/

/-- The connection is not open yet, or closed. -/
def Tcp.Inert (t : Tcp) : Prop := t.conn.state = .synSent ∨ t.conn.state = .closed

/-- The delayed acknowledgement is off until the connection is open, and once it is freed. -/
def Tcp.Off (t : Tcp) : Prop :=
  t.conn.state = .synSent ∨ t.conn.beingFreed = true → t.conn.ackTimer = false

/-- Between `t` and `t'` nothing is received.  What is sent acknowledges `rcv_nxt`, and an inert
connection acknowledges nothing; a connection that becomes closed is freed. -/
structure Speaks (t t' : Tcp) : Prop where
  onData : t'.conn.handlers.onData = t.conn.handlers.onData
  rcvNxt : t'.conn.rcvNxt = t.conn.rcvNxt
  opening : t'.conn.state = .synSent → t.conn.state = .synSent
  inert : t.Inert → t'.Inert
  freed : t.conn.beingFreed = true → t'.conn.beingFreed = true
  closed : t'.conn.state = .closed → t.conn.state = .closed ∨ t'.conn.beingFreed = true
  off : t.Off → t'.Off
  sent : ∃ es, t'.trace = t.trace ++ es ∧ delivered es = [] ∧
    ∀ seg ∈ segments es, seg.flags.ack = true → seg.ack = t.conn.rcvNxt ∧ ¬ t.Inert

/-- An inert connection sends nothing more. -/
def Tcp.Silent (t : Tcp) : Prop := t.Inert → t.conn.beingFreed = true

section Speaks

variable {env : TcpEnv} {t t' t'' : Tcp}

theorem Speaks.refl (t : Tcp) : Speaks t t :=
  ⟨rfl, rfl, id, id, id, Or.inl, id, [], (List.append_nil _).symm, rfl,
    fun seg hseg => by cases hseg⟩

theorem Speaks.trans (h : Speaks t t') (h' : Speaks t' t'') : Speaks t t'' := by
  obtain ⟨es, hes, hd, hsegs⟩ := h.sent
  obtain ⟨es', hes', hd', hsegs'⟩ := h'.sent
  refine ⟨h'.onData.trans h.onData, h'.rcvNxt.trans h.rcvNxt, fun hst => h.opening (h'.opening hst),
    fun hi => h'.inert (h.inert hi), fun hf => h'.freed (h.freed hf), fun hst => ?_,
    fun hoff => h'.off (h.off hoff), es ++ es', ?_, ?_, ?_⟩
  · rcases h'.closed hst with hst' | hf
    · exact (h.closed hst').imp_right h'.freed
    · exact Or.inr hf
  · rw [hes', hes, List.append_assoc]
  · rw [delivered_append, hd, hd']
    rfl
  · rw [segments_append]
    intro seg hseg hack
    rcases List.mem_append.1 hseg with hseg | hseg
    · exact hsegs seg hseg hack
    · obtain ⟨hval, hno⟩ := hsegs' seg hseg hack
      exact ⟨hval.trans h.rcvNxt, fun hi => hno (h.inert hi)⟩

theorem Speaks.silent (h : Speaks t t') (hs : t.Silent) : t'.Silent := by
  rintro (hst | hst)
  · exact h.freed (hs (Or.inl (h.opening hst)))
  · exact (h.closed hst).elim (fun hst' => h.freed (hs (Or.inr hst'))) id

/-- Steps that neither change the state nor arm the delayed acknowledgement. -/
theorem speaks_update {f : Conn → Conn} (hst : (f t.conn).state = t.conn.state)
    (hdata : (f t.conn).handlers.onData = t.conn.handlers.onData)
    (hnxt : (f t.conn).rcvNxt = t.conn.rcvNxt)
    (hfreed : (f t.conn).beingFreed = t.conn.beingFreed)
    (htimer : (f t.conn).ackTimer = t.conn.ackTimer ∨ (f t.conn).ackTimer = false) :
    Speaks t (t.update f) := by
  have hinert : (t.update f).Inert ↔ t.Inert := by
    simp only [Tcp.Inert, Tcp.update_conn, hst]
  refine ⟨hdata, hnxt, fun hs => hst ▸ hs, hinert.2, fun hf => hfreed.trans hf,
    fun hs => Or.inl (hst ▸ hs), fun hoff hi => ?_, [], (List.append_nil _).symm, rfl,
    fun seg hseg => by cases hseg⟩
  rcases htimer with hsame | hno
  · exact hsame.trans (hoff (hi.imp (fun hs => hst ▸ hs) fun hf => hfreed ▸ hf))
  · exact hno

theorem speaks_log {es : List Entry} (hes : delivered es = [])
    (hsegs : ∀ seg ∈ segments es, seg.flags.ack = true → seg.ack = t.conn.rcvNxt ∧ ¬ t.Inert) :
    Speaks t (t.log es) :=
  ⟨rfl, rfl, id, id, id, Or.inl, id, es, rfl, hes, hsegs⟩

theorem speaks_note {e : Entry} (he : delivered [e] = []) (hseg : segments [e] = []) :
    Speaks t (t.log [e]) :=
  speaks_log he fun seg h => by rw [hseg] at h; cases h

theorem speaks_sendSegment {flags : Flags} {seq ack : Seq} {data : List Byte}
    (h : flags.ack = true → ack = t.conn.rcvNxt ∧ ¬ t.Inert) :
    Speaks t (sendSegment env flags seq ack data t) := by
  refine speaks_log rfl fun seg hseg hack => ?_
  obtain rfl := List.mem_singleton.1 hseg
  obtain ⟨hval, hno⟩ := h hack
  refine ⟨?_, hno⟩
  show (if flags.ack then ack else 0) = _
  rw [if_pos (show flags.ack = true from hack), hval]

theorem not_inert_of_established (hst : t.conn.state = .established) : ¬ t.Inert := by
  rintro (hno | hno) <;> cases hst.symm.trans hno

theorem speaks_tcpFlushPending (t : Tcp) : Speaks t (tcpFlushPending env t) := by
  unfold tcpFlushPending
  split_ifs with hno
  · exact Speaks.refl t
  · push Not at hno
    generalize hloop : flushLoop env t.conn _ _ = loop
    obtain ⟨segs, inFlight⟩ := loop
    simp only
    have hsent : Speaks t (t.log (segs.map .segment)) := by
      refine speaks_log (delivered_segments _) fun seg hseg _ => ?_
      rw [segments_segments] at hseg
      obtain ⟨seq, data, rfl⟩ := @mem_flushLoop env t.conn seg _ _ (by rw [hloop]; exact hseg)
      exact ⟨rfl, not_inert_of_established hno.2⟩
    split_ifs
    · exact (hsent.trans (speaks_update rfl rfl rfl rfl (Or.inl rfl))).trans
        (speaks_update rfl rfl rfl rfl (Or.inl rfl))
    · exact hsent.trans (speaks_update rfl rfl rfl rfl (Or.inl rfl))

theorem speaks_scheduleFlush (t : Tcp) : Speaks t (scheduleFlush t) := by
  unfold scheduleFlush
  split_ifs
  · exact Speaks.refl t
  · exact speaks_update rfl rfl rfl rfl (Or.inl rfl)

theorem speaks_tcpAckNow (h : t.Silent) : Speaks t (tcpAckNow env t) := by
  unfold tcpAckNow
  split_ifs with hfreed
  · exact Speaks.refl t
  · have hoff : Speaks t (t.update fun conn =>
        { conn with ackTimer := false, delayedAckSegments := 0, delayedAckBytes := 0 }) :=
      speaks_update rfl rfl rfl rfl (Or.inr rfl)
    exact hoff.trans (speaks_sendSegment fun _ => ⟨rfl, fun hi => hfreed (h hi)⟩)

theorem speaks_tcpAckData (len : ℕ) (immediate : Bool) (h : t.Silent) :
    Speaks t (tcpAckData env len immediate t) := by
  unfold tcpAckData
  have hcount : Speaks t (t.update fun conn => { conn with
      delayedAckSegments := conn.delayedAckSegments + 1
      delayedAckBytes := conn.delayedAckBytes + len }) := speaks_update rfl rfl rfl rfl (Or.inl rfl)
  simp only
  split_ifs with hfreed
  · exact Speaks.refl t
  · exact speaks_tcpAckNow h
  · exact hcount.trans (speaks_tcpAckNow (hcount.silent h))
  · refine hcount.trans ⟨rfl, rfl, id, id, id, Or.inl, fun _ hi => ?_, [], (List.append_nil _).symm,
      rfl, fun seg hseg => by cases hseg⟩
    exact absurd (hi.elim (fun hst => h (Or.inl hst)) id) hfreed
  · exact hcount

theorem speaks_connDestroy (t : Tcp) : Speaks t (connDestroy t) := by
  unfold connDestroy
  split_ifs
  · exact Speaks.refl t
  · exact ⟨rfl, rfl, id, id, fun _ => rfl, Or.inl, fun _ _ => rfl, [], (List.append_nil _).symm,
      rfl, fun seg hseg => by cases hseg⟩

/-- The connection is closed and freed. -/
theorem speaks_finish (hlive : t.conn.beingFreed = false) {f : Conn → Conn}
    (hst : (f t.conn).state = .closed) (hfreed : (f t.conn).beingFreed = t.conn.beingFreed)
    (hdata : (f t.conn).handlers.onData = t.conn.handlers.onData)
    (hnxt : (f t.conn).rcvNxt = t.conn.rcvNxt) : Speaks t (connDestroy (t.update f)) := by
  rw [connDestroy, if_neg (by simp [hfreed, hlive])]
  refine ⟨hdata, hnxt, fun hs => ?_, fun _ => Or.inr hst, fun _ => rfl, fun _ => Or.inr rfl,
    fun _ _ => rfl, [], (List.append_nil _).symm, rfl, fun seg hseg => by cases hseg⟩
  cases hst.symm.trans hs

theorem speaks_tcpSend (data : List Byte) (t : Tcp) : Speaks t (tcpSend env data t).2 := by
  unfold tcpSend
  split_ifs with hfreed hst hnil hlong hfull
  · exact Speaks.refl t
  · exact Speaks.refl t
  · exact Speaks.refl t
  · exact Speaks.refl t
  · exact Speaks.refl t
  · cases hgrow : sendbufGrow env t.conn (t.conn.sendbufLen + data.length) with
    | none => exact Speaks.refl t
    | some grown =>
      have hgrown := sendbufGrow_frame hgrow
      have hstored : Speaks t ((t.update fun _ => sendbufAppend grown data).log [.accepted data]) := by
        refine Speaks.trans (speaks_update ?_ ?_ ?_ ?_ (Or.inl ?_)) (speaks_note rfl rfl) <;>
          · rw [hgrown]
            rfl
      simp only
      split_ifs
      · exact hstored.trans (speaks_tcpFlushPending _)
      · exact hstored.trans (speaks_scheduleFlush _)

theorem speaks_sendFin (hno : ¬ t.Inert) {state : TcpState}
    (hst : state = .finWait ∨ state = .lastAck) : Speaks t (sendFin env state t) := by
  have hstate : Speaks t (t.update fun conn => { conn with state := state }) := by
    refine ⟨rfl, rfl, fun hs => ?_, fun hi => absurd hi hno, id, fun hs => ?_, fun hoff hi => ?_,
      [], (List.append_nil _).symm, rfl, fun seg hseg => by cases hseg⟩
    · rcases hst with rfl | rfl <;> cases hs
    · rcases hst with rfl | rfl <;> cases hs
    · refine hoff (hi.imp_left fun hs => ?_)
      rcases hst with rfl | rfl <;> cases hs
  have hno' : ¬ (t.update fun conn => { conn with state := state }).Inert := by
    rintro (hi | hi) <;> rcases hst with rfl | rfl <;> cases hi
  have hsent : Speaks t (sendSegment env { fin := true, ack := true } t.conn.sndNxt t.conn.rcvNxt []
      (t.update fun conn => { conn with state := state })) :=
    hstate.trans (speaks_sendSegment fun _ => ⟨rfl, hno'⟩)
  exact hsent.trans (@speaks_update _ (fun conn => { conn with sndNxt := conn.sndNxt + 1 })
    rfl rfl rfl rfl (Or.inl rfl))

theorem speaks_tcpClose (t : Tcp) : Speaks t (tcpClose env t) := by
  unfold tcpClose
  split_ifs with hfreed
  · exact Speaks.refl t
  · cases hst : t.conn.state with
    | established => exact speaks_sendFin (not_inert_of_established hst) (Or.inl rfl)
    | closeWait =>
      exact speaks_sendFin (by rintro (hi | hi) <;> cases hst.symm.trans hi) (Or.inr rfl)
    | synSent =>
      simp only
      rw [connDestroy, if_neg (by simpa [sendSegment] using hfreed)]
      exact ⟨rfl, rfl, fun hs => (by cases hs), fun _ => Or.inr rfl, fun _ => rfl, fun _ => Or.inr rfl,
        fun _ _ => rfl, _, rfl, rfl, fun seg hseg hack => by
          obtain rfl := List.mem_singleton.1 hseg
          cases hack⟩
    | synReceived => exact speaks_connDestroy t
    | finWait => exact speaks_connDestroy t
    | lastAck => exact speaks_connDestroy t
    | closed => exact speaks_connDestroy t

theorem speaks_apiCall (t : Tcp) (a : ApiCall) : Speaks t (apiCall env t a) := by
  have hcall : Speaks t (t.log [.call a t.conn]) := speaks_note rfl rfl
  unfold apiCall
  cases a with
  | send data => exact hcall.trans (speaks_tcpSend data _)
  | close => exact hcall.trans (speaks_tcpClose _)
  | updateRecvWindow =>
    refine hcall.trans ?_
    simp only [tcpUpdateRecvWindow]
    split_ifs with hno
    · exact Speaks.refl _
    · push Not at hno
      exact speaks_tcpAckNow fun hi => absurd hi (not_inert_of_established hno.2)
  | setRecvWindowCb set =>
    refine hcall.trans ?_
    simp only [tcpSetRecvWindowCb]
    split_ifs
    · exact Speaks.refl _
    · exact speaks_update rfl rfl rfl rfl (Or.inl rfl)
  | setWriteable set => exact hcall.trans (speaks_update rfl rfl rfl rfl (Or.inl rfl))

theorem speaks_foldl_apiCall (calls : List ApiCall) (t : Tcp) :
    Speaks t (calls.foldl (apiCall env) t) := by
  induction calls generalizing t with
  | nil => exact Speaks.refl t
  | cons a calls ih => exact (speaks_apiCall t a).trans (ih _)

theorem speaks_runCallback {cb : Callback} (hcb : delivered [.callback cb] = []) (t : Tcp) :
    Speaks t (runCallback env cb t) :=
  (speaks_note hcb rfl).trans (speaks_foldl_apiCall _ _)

theorem speaks_notifyClose (t : Tcp) : Speaks t (notifyClose env t) := by
  have hnoted : Speaks t (t.update fun conn => { conn with closeNotified := true }) :=
    speaks_update rfl rfl rfl rfl (Or.inl rfl)
  unfold notifyClose
  simp only
  split_ifs
  · exact Speaks.refl t
  · exact hnoted.trans (speaks_runCallback rfl _)
  · exact hnoted

theorem speaks_notifyAbort (t : Tcp) : Speaks t (notifyAbort env t) := by
  have hnoted : Speaks t (t.update fun conn => { conn with closeNotified := true }) :=
    speaks_update rfl rfl rfl rfl (Or.inl rfl)
  unfold notifyAbort
  simp only
  split_ifs
  · exact Speaks.refl t
  · exact hnoted.trans (speaks_runCallback rfl _)
  · exact hnoted.trans (speaks_runCallback rfl _)
  · exact hnoted

theorem speaks_establishedAck (seg : Inbound) (t : Tcp) : Speaks t (establishedAck env seg t) := by
  have hmoved : Speaks t (t.update fun conn =>
      { (if (seg.ack - t.conn.sndUna).toNat ≤ conn.sendbufLen then
          sendbufConsume conn (seg.ack - t.conn.sndUna).toNat else conn) with
        sndUna := seg.ack }) := by
    have hframe := sendbufConsume_frame t.conn (seg.ack - t.conn.sndUna).toNat
    refine speaks_update ?_ ?_ ?_ ?_ (Or.inl ?_) <;>
      · simp only
        split_ifs
        · rw [hframe]
        · rfl
  have hadvanced : Speaks t (ackAdvance env seg t) := by
    unfold ackAdvance
    simp only
    split_ifs
    · exact hmoved.trans (speaks_update rfl rfl rfl rfl (Or.inl rfl))
    · exact hmoved.trans (speaks_tcpFlushPending _)
  unfold establishedAck
  simp only
  split_ifs
  · exact hadvanced.trans (speaks_runCallback rfl _)
  · exact hadvanced
  · exact Speaks.refl t

theorem speaks_finWaitAck (seg : Inbound) (t : Tcp) : Speaks t (finWaitAck seg t) := by
  have hmoved : Speaks t (t.update fun conn => { conn with sndUna := seg.ack }) :=
    speaks_update rfl rfl rfl rfl (Or.inl rfl)
  unfold finWaitAck
  simp only
  split_ifs
  · exact hmoved.trans (speaks_update rfl rfl rfl rfl (Or.inl rfl))
  · exact hmoved
  · exact Speaks.refl t

theorem speaks_inputLastAck (seg : Inbound) (hlive : t.conn.beingFreed = false) :
    Speaks t (inputLastAck seg t) := by
  unfold inputLastAck
  split_ifs
  · exact speaks_finish hlive rfl rfl rfl rfl
  · exact Speaks.refl t

theorem speaks_flushCheckCb (t : Tcp) : Speaks t (flushCheckCb env t) := by
  have hoff : Speaks t (t.update fun conn => { conn with flushQueued := false }) :=
    speaks_update rfl rfl rfl rfl (Or.inl rfl)
  unfold flushCheckCb
  simp only
  split_ifs
  · exact hoff
  · exact hoff.trans (speaks_tcpFlushPending _)

theorem speaks_delayedAckCb (h : t.Silent) : Speaks t (delayedAckCb env t) := by
  have hoff : Speaks t (t.update fun conn => { conn with ackTimer := false }) :=
    speaks_update rfl rfl rfl rfl (Or.inr rfl)
  unfold delayedAckCb
  simp only
  split_ifs
  · exact hoff
  · exact hoff
  · exact hoff.trans (speaks_tcpAckNow (hoff.silent h))

theorem speaks_timerCloseCb (t : Tcp) : Speaks t (timerCloseCb env t) := by
  have hgone : Speaks t (t.update fun conn => { conn with closePending := conn.closePending - 1 }) :=
    speaks_update rfl rfl rfl rfl (Or.inl rfl)
  unfold timerCloseCb
  simp only
  split_ifs
  · exact hgone
  · exact (hgone.trans (speaks_notifyClose _)).trans (speaks_update rfl rfl rfl rfl (Or.inl rfl))

theorem speaks_resent (t : Tcp) : Speaks t (resent env t) := by
  have hfired : Speaks t (retransmitFired t) := speaks_update rfl rfl rfl rfl (Or.inl rfl)
  refine (hfired.trans (speaks_log (delivered_segments _) fun seg hseg hack => ?_)).trans
    (speaks_update rfl rfl rfl rfl (Or.inl rfl))
  rw [segments_segments] at hseg
  obtain ⟨flags, seq, ack, data, rfl, hval, -⟩ := resends_retransmitSegments hseg
  obtain ⟨rfl, hsyn, hclosed⟩ := hval hack
  refine ⟨?_, fun hi => hi.elim hsyn hclosed⟩
  show (if flags.ack then (retransmitFired t).conn.rcvNxt else 0) = _
  rw [if_pos (show flags.ack = true from hack)]

/-- `retransmit_cb` gives up: the connection is closed before the owner is told. -/
theorem speaks_retransmitAbort (hlive : t.conn.beingFreed = false) :
    Speaks t (retransmitAbort env t) := by
  set closed := t.update fun conn => { conn with state := .closed }
  have htold : Speaks closed (connDestroy (notifyAbort env closed)) :=
    (speaks_notifyAbort closed).trans (speaks_connDestroy _)
  have hgone : (connDestroy (notifyAbort env closed)).conn.beingFreed = true := by
    unfold connDestroy
    split_ifs with hfreed
    · exact hfreed
    · rfl
  have hoff : closed.Off := by
    rintro (hno | hno)
    · cases hno
    · cases hlive.symm.trans hno
  obtain ⟨es, hes, hd, hsegs⟩ := htold.sent
  refine ⟨htold.onData, htold.rcvNxt, fun hst => ?_, fun _ => htold.inert (Or.inr rfl), fun _ => hgone,
    fun _ => Or.inr hgone, fun _ => htold.off hoff, es, hes, hd, fun seg hseg hack => ?_⟩
  · cases htold.opening hst
  · exact absurd (Or.inr rfl) (hsegs seg hseg hack).2

end Speaks

/-! ### Replies -/

/-- As long as no FIN arrived: every acknowledgement that was sent lies in what was given to
`on_data`, and `rcv_nxt` stands behind it; nothing is received or acknowledged before the connection
is open. -/
structure Replies (irs : Seq) (t : Tcp) : Prop where
  onData : t.conn.handlers.onData = true
  acks : ∀ seg ∈ segments t.trace, seg.flags.ack = true →
    ∃ k ≤ (delivered t.trace).length, seg.ack = irs + BitVec.ofNat 32 k
  rcvNxt : ¬ t.Inert → t.conn.rcvNxt = irs + BitVec.ofNat 32 (delivered t.trace).length
  opening : t.conn.state = .synSent →
    delivered t.trace = [] ∧ ∀ seg ∈ segments t.trace, seg.flags.ack = false
  closed : t.conn.state = .closed → t.conn.beingFreed = true
  off : t.Off

section Replies

variable {env : TcpEnv} {irs : Seq} {t t' : Tcp}

theorem Replies.silent (h : Replies irs t) (hst : t.conn.state ≠ .synSent) : t.Silent := by
  rintro (hi | hi)
  · exact absurd hi hst
  · exact h.closed hi

theorem Replies.speaks (h : Replies irs t) (hs : Speaks t t') : Replies irs t' := by
  obtain ⟨es, hes, hd, hsegs⟩ := hs.sent
  have hdel : delivered t'.trace = delivered t.trace := by
    rw [hes, delivered_append, hd, List.append_nil]
  refine ⟨hs.onData.trans h.onData, fun seg hseg hack => ?_, fun hno => ?_, fun hst => ?_,
    fun hst => ?_, hs.off h.off⟩
  · rw [hdel]
    rw [hes, segments_append] at hseg
    rcases List.mem_append.1 hseg with hold | hnew
    · exact h.acks seg hold hack
    · obtain ⟨hval, hno⟩ := hsegs seg hnew hack
      exact ⟨_, le_rfl, hval.trans (h.rcvNxt hno)⟩
  · rw [hdel, hs.rcvNxt]
    exact h.rcvNxt fun hi => hno (hs.inert hi)
  · obtain ⟨hnil, hnone⟩ := h.opening (hs.opening hst)
    refine ⟨hdel.trans hnil, fun seg hseg => ?_⟩
    rw [hes, segments_append] at hseg
    rcases List.mem_append.1 hseg with hold | hnew
    · exact hnone seg hold
    · by_contra hack
      exact (hsegs seg hnew (Bool.not_eq_false _ ▸ hack)).2 (Or.inl (hs.opening hst))
  · exact (hs.closed hst).elim (fun hst' => hs.freed (h.closed hst')) id

/-- In-order bytes are given to `on_data`. -/
theorem Replies.deliver (h : Replies irs t) (hst : t.conn.state ≠ .synSent) (data : List Byte) :
    Replies irs (deliver env data t) ∧ (deliver env data t).conn.state ≠ .synSent := by
  have hhanded : Replies irs (t.handed data) := by
    refine ⟨h.onData, fun seg hseg hack => ?_, fun hno => ?_, fun hs => absurd hs hst, h.closed,
      h.off⟩
    · obtain ⟨k, hk, hval⟩ := h.acks seg (by simpa [Tcp.handed, segments_append, segments] using hseg)
        hack
      rw [delivered_handed, List.length_append]
      exact ⟨k, by omega, hval⟩
    · rw [delivered_handed, List.length_append, ← Serial.add_ofNat_add, ← h.rcvNxt hno]
      rfl
  have hcalls : Speaks (t.handed data) (Wgx.deliver env data t) := by
    unfold Wgx.deliver
    simp only [Tcp.update_conn, h.onData, if_true]
    exact speaks_foldl_apiCall _ _
  exact ⟨hhanded.speaks hcalls, fun hs => hst (hcalls.opening hs)⟩

theorem Replies.tcpOooDrain (h : Replies irs t) (hst : t.conn.state ≠ .synSent) (fuel : ℕ) :
    Replies irs (tcpOooDrain env fuel t).2 ∧ (tcpOooDrain env fuel t).2.conn.state ≠ .synSent := by
  induction fuel generalizing t with
  | zero => exact ⟨h, hst⟩
  | succ fuel ih =>
    unfold Wgx.tcpOooDrain
    split_ifs with hfreed
    · exact ⟨h, hst⟩
    · cases hooo : t.conn.rcvOoo with
      | nil => exact ⟨h, hst⟩
      | cons seg rest =>
        simp only
        split_ifs with hseq
        · exact ⟨h, hst⟩
        · have hpop : Speaks t (t.update fun conn =>
              { conn with rcvOoo := rest, rcvOooLen := conn.rcvOooLen - seg.len }) :=
            speaks_update rfl rfl rfl rfl (Or.inl rfl)
          obtain ⟨hdel, hst'⟩ := @Replies.deliver env irs _ (h.speaks hpop) hst seg.data
          exact ih hdel hst'

theorem Replies.receiveInOrder (h : Replies irs t) (hst : t.conn.state ≠ .synSent)
    (data : List Byte) (immediate : Bool) : Replies irs (receiveInOrder env data immediate t) := by
  obtain ⟨hdel, hst'⟩ := @Replies.deliver env irs t h hst data
  obtain ⟨hdrained, hst''⟩ :=
    @Replies.tcpOooDrain env irs _ hdel hst' (Wgx.deliver env data t).conn.rcvOoo.length
  exact hdrained.speaks (speaks_tcpAckData _ _ (hdrained.silent hst''))

theorem Replies.establishedData (h : Replies irs t) (hst : t.conn.state ≠ .synSent)
    (seg : Inbound) : Replies irs (establishedData env seg t) := by
  unfold Wgx.establishedData
  simp only
  split_ifs
  · exact h
  · exact h.receiveInOrder hst _ _
  · have hqueued : Speaks t (t.update (tcpOooQueue env seg.seq seg.payload)) := by
      have hframe := tcpOooQueue_frame env seg.seq seg.payload t.conn
      refine speaks_update ?_ ?_ ?_ ?_ (Or.inl ?_) <;> rw [hframe]
    exact (h.speaks hqueued).speaks (speaks_tcpAckNow (hqueued.silent (h.silent hst)))
  · exact h.receiveInOrder hst _ _
  · exact h.speaks (speaks_tcpAckNow (h.silent hst))
  · exact h

theorem Replies.inputSynReceived (h : Replies irs t) (hst : t.conn.state = .synReceived)
    (seg : Inbound) : Replies irs (inputSynReceived env seg t) := by
  have hopened : Speaks t (t.update fun conn => { conn with
      sndUna := seg.ack, state := .established, retransmitTimer := false, retransmitCount := 0 }) :=
    ⟨rfl, rfl, fun hs => (by cases hs),
      fun hi => (by rcases hi with hi | hi <;> cases hst.symm.trans hi), id,
      fun hs => (by cases hs), fun hoff hi => hoff (Or.inr (hi.resolve_left fun hs => by cases hs)),
      [], (List.append_nil _).symm, rfl, fun seg hseg => by cases hseg⟩
  unfold Wgx.inputSynReceived
  simp only
  split_ifs
  · exact (h.speaks hopened).receiveInOrder (fun hs => by cases hs) _ _
  · exact h.speaks hopened
  · exact h

theorem Replies.inputSynSent (h : Replies irs t) (hst : t.conn.state = .synSent)
    {seg : Inbound} (hseg : seg.flags.syn = true → seg.seq + 1 = irs) :
    Replies irs (inputSynSent env seg t) := by
  obtain ⟨hnil, hnone⟩ := h.opening hst
  unfold Wgx.inputSynSent
  by_cases hflags : seg.flags.syn = true ∧ seg.flags.ack = true
  · rw [if_pos hflags]
    simp only
    generalize hopened : Tcp.update (Tcp.update _ _) _ = opened
    have hreplies : Replies irs opened := by
      rw [← hopened]
      refine ⟨h.onData, fun seg hseg hack => ?_, fun _ => ?_, fun hs => (by cases hs),
        fun hs => (by cases hs), fun _ => h.off (Or.inl hst)⟩
      · have hno : seg.flags.ack = false := hnone seg hseg
        rw [hno] at hack
        cases hack
      · show seg.seq + 1 = irs + BitVec.ofNat 32 (delivered t.trace).length
        rw [hnil, hseg hflags.1]
        exact (BitVec.add_zero _).symm
    have hest : opened.conn.state ≠ .synSent := by
      rw [← hopened]
      exact fun hs => by cases hs
    have hacked := hreplies.speaks (@speaks_tcpAckNow env _ (hreplies.silent hest))
    split_ifs
    · exact h
    · exact hacked.speaks (speaks_runCallback rfl _)
    · exact hacked
  · rwa [if_neg hflags]

theorem Replies.tcpstackInput (h : Replies irs t) {seg : Inbound} (hfin : seg.flags.fin = false)
    (hseg : seg.flags.syn = true → seg.seq + 1 = irs) : Replies irs (tcpstackInput env seg t) := by
  unfold Wgx.tcpstackInput
  split_ifs with hfreed
  · exact h
  · exact h.speaks (speaks_finish (Bool.eq_false_iff.2 hfreed) rfl rfl rfl rfl)
  · have hlive : (updateSndWnd seg t).conn.beingFreed = false := Bool.eq_false_iff.2 hfreed
    have hwnd : Replies irs (updateSndWnd seg t) :=
      h.speaks (speaks_update rfl rfl rfl rfl (Or.inl rfl))
    unfold inputState
    cases hst : (updateSndWnd seg t).conn.state with
    | synReceived => exact hwnd.inputSynReceived hst seg
    | synSent => exact hwnd.inputSynSent hst hseg
    | established =>
      have hacked := @speaks_establishedAck env seg (updateSndWnd seg t)
      simp only [inputEstablished, establishedFin, hfin, Bool.false_eq_true, if_false]
      refine (hwnd.speaks hacked).establishedData (fun hs => ?_) seg
      cases hst.symm.trans (hacked.opening hs)
    | finWait =>
      simp only [inputFinWait, hfin, Bool.false_eq_true, if_false]
      exact hwnd.speaks (speaks_finWaitAck seg _)
    | lastAck => exact hwnd.speaks (speaks_inputLastAck seg hlive)
    | closed => exact hwnd
    | closeWait => exact hwnd

/-- **Acknowledgements lie in what was delivered**: every event keeps this, if the segment it brings
has no FIN, and as a SYN has the initial sequence number of the peer. -/
theorem Replies.tcpStep (h : Replies irs t) {e : TcpEvent} (he : ∀ seg, e = .input seg →
    seg.flags.fin = false ∧ (seg.flags.syn = true → seg.seq + 1 = irs)) :
    Replies irs (tcpStep t (env, e)) := by
  unfold Wgx.tcpStep ownedStep
  by_cases hrel : t.conn.released = true
  · rwa [if_pos hrel]
  · rw [if_neg hrel]
    cases e with
    | call a => exact h.speaks (speaks_apiCall t a)
    | input seg => exact h.tcpstackInput (he seg rfl).1 (he seg rfl).2
    | flush =>
      simp only
      split_ifs
      · exact h.speaks (speaks_flushCheckCb t)
      · exact h
    | retransmit =>
      simp only
      split_ifs
      · by_cases hfreed : t.conn.beingFreed = true
        · rwa [retransmitCb, if_pos hfreed]
        · have hlive := Bool.eq_false_iff.2 hfreed
          rw [retransmitCb_of_live hlive]
          split_ifs
          · have hfired : Speaks t (retransmitFired t) := speaks_update rfl rfl rfl rfl (Or.inl rfl)
            exact (h.speaks hfired).speaks (speaks_retransmitAbort hlive)
          · exact h.speaks (speaks_resent t)
      · exact h
    | delayedAck =>
      simp only
      split_ifs with htimer
      · refine h.speaks (speaks_delayedAckCb fun hi => ?_)
        rcases hi with hst | hst
        · rw [h.off (Or.inl hst)] at htimer
          cases htimer
        · exact h.closed hst
      · exact h
    | timerClose =>
      simp only
      split_ifs
      · exact h.speaks (speaks_timerCloseCb t)
      · exact h

end Replies

end Wgx
