import Wgx.Tcp.Wire

/-!
# The retransmission timer of a TCP connection

* `Timed`: what is unacknowledged is guarded by the timer.  Every function of the stack keeps that,
  except where a FIN is sent: neither `tcp_close` nor the handling of a remote FIN starts the timer
  (`retransmit_timer_guards`).
* `retransmit_count` counts the expirations since the last progress as long as every progress resets
  it, which an acknowledgement of a part of the buffer does not (`abort_after_expirations`).
-/

namespace Wgx

/-! ### Unacknowledged data is guarded -/

/-- While something is unacknowledged the retransmission timer is running. -/
def Timed (t : Tcp) : Prop :=
  t.conn.beingFreed = false → t.conn.sndUna ≠ t.conn.sndNxt → t.conn.retransmitTimer = true

/-- A FIN of ours finds the timer running: in `tcp_close`, and where a remote FIN is answered. -/
def Entry.timerOk : Entry → Bool
  | .call .close conn =>
    conn.beingFreed || (conn.state != .established && conn.state != .closeWait) ||
      conn.retransmitTimer
  | .remoteFin conn => conn.beingFreed || conn.retransmitTimer
  | _ => true

section Timed

variable {env : TcpEnv} {t t' : Tcp}

theorem timed_of_freed (h : t.conn.beingFreed = true) : Timed t := by
  intro hlive
  rw [h] at hlive
  cases hlive

theorem timed_of_timer (h : t.conn.retransmitTimer = true) : Timed t := fun _ _ => h

theorem timed_of_eq (h : t.conn.sndUna = t.conn.sndNxt) : Timed t := fun _ hne => absurd h hne

/-- A change that neither moves `snd_una` or `snd_nxt` nor stops the timer. -/
theorem Timed.still (h : Timed t) (huna : t'.conn.sndUna = t.conn.sndUna)
    (hnxt : t'.conn.sndNxt = t.conn.sndNxt) (hfreed : t'.conn.beingFreed = t.conn.beingFreed)
    (htimer : t.conn.retransmitTimer = true →
      t'.conn.retransmitTimer = true ∨ t'.conn.beingFreed = true) : Timed t' := by
  intro hlive hne
  rw [huna, hnxt] at hne
  rcases htimer (h (hfreed ▸ hlive) hne) with ht | hgone
  · exact ht
  · rw [hlive] at hgone
    cases hgone

/-- `tcp_flush_pending` starts the timer if there is anything to send. -/
theorem timed_tcpFlushPending (h : Timed t) : Timed (tcpFlushPending env t) := by
  unfold tcpFlushPending
  simp only
  split_ifs with hoff hstart
  · exact h
  · exact timed_of_timer rfl
  · by_cases hempty : t.conn.sendbufLen = 0
    · -- nothing is sent, and `snd_nxt` is written as it was
      refine h.still rfl ?_ rfl Or.inl
      simp only [Tcp.update_conn, Tcp.log_conn, hempty, flushLoop]
      exact Serial.add_ofNat_toNat_sub _ _
    · have hrunning : t.conn.retransmitTimer = true := by
        by_contra hno
        exact hstart ⟨Nat.pos_of_ne_zero hempty, by simpa using hno⟩
      exact timed_of_timer hrunning

theorem freed_connDestroy (t : Tcp) : (connDestroy t).conn.beingFreed = true := by
  unfold connDestroy
  split_ifs with hfreed
  · exact hfreed
  · rfl

theorem timed_connDestroy : Timed (connDestroy t) := timed_of_freed (freed_connDestroy t)

/-- Our FIN is guarded if the timer is running when it is sent. -/
theorem timed_sendFin {state : TcpState} (h : t.conn.beingFreed = true ∨
    t.conn.retransmitTimer = true) : Timed (sendFin env state t) := by
  rcases h with hfreed | htimer
  · exact timed_of_freed hfreed
  · exact timed_of_timer htimer

theorem timed_tcpClose (h : Timed t) (hok : Entry.timerOk (.call .close t.conn) = true) :
    Timed (tcpClose env t) := by
  unfold tcpClose
  by_cases hfreed : t.conn.beingFreed = true
  · rw [if_pos hfreed]
    exact h
  · rw [if_neg hfreed]
    cases hst : t.conn.state with
    | established =>
      simp only [Entry.timerOk, hst, hfreed, Bool.or_eq_true] at hok
      exact timed_sendFin (Or.inr (by simpa using hok))
    | closeWait =>
      simp only [Entry.timerOk, hst, hfreed, Bool.or_eq_true] at hok
      exact timed_sendFin (Or.inr (by simpa using hok))
    | synSent => exact timed_connDestroy
    | closed => exact timed_connDestroy
    | synReceived => exact timed_connDestroy
    | finWait => exact timed_connDestroy
    | lastAck => exact timed_connDestroy

/-- A plain move keeps the guard. -/
theorem timed_move (h : Timed t) (hm : Move env t t') (hplain : Plain t t') : Timed t' := by
  cases hm with
  | flush => exact timed_tcpFlushPending h
  | accept data grown hlive hst hpos hfit hgrow =>
    have hframe := sendbufGrow_frame hgrow
    refine h.still ?_ ?_ ?_ hplain.timer
    · rw [hframe]; rfl
    · rw [hframe]; rfl
    · rw [hframe]; rfl
  | ack hlive =>
    have hack : tcpAckNow env t = sendSegment env { ack := true } t.conn.sndNxt t.conn.rcvNxt []
        (t.update fun conn =>
          { conn with ackTimer := false, delayedAckSegments := 0, delayedAckBytes := 0 }) := by
      rw [tcpAckNow, if_neg (by simp [hlive])]
      rfl
    rw [hack]
    exact h.still rfl rfl rfl Or.inl
  | close state hlive hst =>
    -- a FIN is no plain change
    obtain ⟨es, htrace, hes⟩ := hplain.fins
    have hsplit : t.trace ++ [Entry.segment (segmentOf env { t.conn with state := state }
        { fin := true, ack := true } t.conn.sndNxt t.conn.rcvNxt [])] = t.trace ++ es := htrace
    rw [List.append_cancel_left_eq] at hsplit
    have hfin := hes _ (by rw [← hsplit]; exact List.mem_singleton_self _)
    cases hfin
  | reset => exact timed_connDestroy
  | destroy => exact timed_connDestroy
  | finish => exact timed_connDestroy
  | queueOoo seq data hgt =>
    have hframe := tcpOooQueue_frame env seq data t.conn
    refine h.still ?_ ?_ ?_ hplain.timer
    · rw [Tcp.update_conn, hframe]
    · rw [Tcp.update_conn, hframe]
    · rw [Tcp.update_conn, hframe]
  | _ => exact h.still rfl rfl rfl hplain.timer

theorem trace_stride (hs : Stride env t t') : ∃ es, t'.trace = t.trace ++ es := by
  cases hs with
  | move hm hplain =>
    obtain ⟨es, htrace, -⟩ := hplain.fins
    exact ⟨es, htrace⟩
  | close =>
    obtain ⟨es, htrace⟩ := (quiet_tcpClose env (t.log [.call .close t.conn])).trace
    exact ⟨.call .close t.conn :: es, by rw [htrace]; simp⟩

theorem trace_course (hc : Course env t t') {x : Entry} (hx : x ∈ t.trace) : x ∈ t'.trace := by
  induction hc with
  | refl => exact hx
  | tail _ hs ih =>
    obtain ⟨es, htrace⟩ := trace_stride hs
    rw [htrace]
    exact List.mem_append_left es ih

/-- A connection that is being freed stays so. -/
theorem freed_move (hm : Move env t t') (h : t.conn.beingFreed = true) :
    t'.conn.beingFreed = true := by
  cases hm with
  | queueOoo seq data hgt =>
    rw [Tcp.update_conn, tcpOooQueue_frame]
    exact h
  | note | setHandlers | unschedule | ackFired | stopTimer | receive | popOoo | countFin | notify
  | timerGone | release => exact h
  | accept _ _ hlive | flush hlive | schedule hlive | ack hlive | delayAck _ hlive | armAck hlive
  | close _ hlive | reset hlive | destroy hlive | finish hlive | window _ hlive =>
    rw [h] at hlive
    cases hlive

theorem freed_path (hp : Path env t t') (h : t.conn.beingFreed = true) :
    t'.conn.beingFreed = true := by
  induction hp with
  | refl => exact h
  | tail _ hm ih => exact freed_move hm ih

/-- Over a course the timer is stopped only with the connection. -/
theorem kept_course (hc : Course env t t')
    (h : t.conn.beingFreed = true ∨ t.conn.retransmitTimer = true) :
    t'.conn.beingFreed = true ∨ t'.conn.retransmitTimer = true := by
  induction hc with
  | refl => exact h
  | tail _ hs ih =>
    cases hs with
    | move hm hplain =>
      rcases ih with hfreed | htimer
      · exact Or.inl (freed_move hm hfreed)
      · exact (hplain.timer htimer).symm
    | close =>
      unfold tcpClose
      split_ifs with hfreed
      · exact Or.inl hfreed
      · simp only
        split
        all_goals first
          | exact ih
          | exact Or.inl (freed_connDestroy _)

/-- A course keeps the guard if its calls of `tcp_close` find the timer running. -/
theorem timed_course (h : Timed t) (hc : Course env t t')
    (hok : ∀ x ∈ t'.trace, x.timerOk = true) : Timed t' := by
  induction hc with
  | refl => exact h
  | tail _ hs ih =>
    obtain ⟨es, htrace⟩ := trace_stride hs
    have hmid := ih fun x hx => hok x (by rw [htrace]; exact List.mem_append_left es hx)
    cases hs with
    | move hm hplain => exact timed_move hmid hm hplain
    | close =>
      refine timed_tcpClose (hmid.still rfl rfl rfl Or.inl) (hok _ ?_)
      obtain ⟨es', hclose⟩ := (quiet_tcpClose env (Tcp.log _ [.call .close _])).trace
      rw [hclose]
      simp

/-! ### Events -/

variable {seg : Inbound}

/-- An acknowledgement keeps the guard. -/
theorem timed_acked (h : Timed t) (hpaced : Paced paceLimit t) (ha : Acked env seg t t') :
    Timed t' := by
  obtain ⟨k, hk, -, hemits, -⟩ := acked_spec hpaced (by decide) le_rfl ha
  -- if something is unacknowledged afterwards, then so it was before
  have hbefore : t'.conn.sndNxt = t.conn.sndNxt → t'.conn.sndUna ≠ t'.conn.sndNxt →
      t.conn.sndUna ≠ t.conn.sndNxt := by
    intro hnxt hne heq
    have hzero : t.inFlight = 0 := by
      rw [Tcp.inFlight, heq, BitVec.sub_self]
      rfl
    obtain rfl : k = 0 := by omega
    exact hne (by rw [hemits.sndUna, hnxt, heq]; exact BitVec.add_zero _)
  cases ha with
  | passive hst hack hnxt => exact timed_of_eq hnxt
  | active hst hsyn hack hgt hle =>
    obtain ⟨huna, hnxt⟩ := hpaced.opening (Or.inl hst)
    refine timed_of_eq ?_
    show seg.ack = t.conn.sndNxt
    rw [huna] at hgt
    rw [hnxt] at hle ⊢
    exact synAck_eq hgt hle
  | data hst hadv =>
    have hif : ∀ n, (if n ≤ t.conn.sendbufLen then sendbufConsume t.conn n else t.conn).sndNxt =
        t.conn.sndNxt ∧ (if n ≤ t.conn.sendbufLen then sendbufConsume t.conn n
          else t.conn).retransmitTimer = t.conn.retransmitTimer ∧
        (if n ≤ t.conn.sendbufLen then sendbufConsume t.conn n else t.conn).beingFreed =
          t.conn.beingFreed := by
      intro n
      split_ifs
      · rw [sendbufConsume_frame]
        exact ⟨rfl, rfl, rfl⟩
      · exact ⟨rfl, rfl, rfl⟩
    obtain ⟨hnxt, htimer, hfreed⟩ := hif (seg.ack - t.conn.sndUna).toNat
    intro hlive hne
    exact htimer.trans (h (hfreed ▸ hlive) (hbefore hnxt hne))
  | fin hst hadv => exact fun hlive hne => h hlive (hbefore rfl hne)

/-- The guard, as long as every FIN of ours so far found the timer running. -/
def Guarding (t : Tcp) : Prop := (∀ x ∈ t.trace, x.timerOk = true) → Timed t

theorem guarding_course (h : Guarding t) (hc : Course env t t') : Guarding t' :=
  fun hok => timed_course (h fun x hx => hok x (trace_course hc hx)) hc hok

theorem guarding_acked (h : Guarding t) (hpaced : Paced paceLimit t) (ha : Acked env seg t t')
    (htrace : t'.trace = t.trace) : Guarding t' :=
  fun hok => timed_acked (h (htrace ▸ hok)) hpaced ha

theorem guarding_ackAdvance (h : Guarding t) (hpaced : Paced paceLimit t)
    (hst : t.conn.state = .established) (hadv : seg.advances t.conn = true) :
    Guarding (ackAdvance env seg t) := by
  unfold ackAdvance
  simp only
  generalize heq : t.update _ = t₁
  have hack : Acked env seg t t₁ := heq ▸ Acked.data hst hadv
  obtain ⟨k, -, hpaced', -, -⟩ := acked_spec hpaced (by decide) le_rfl hack
  have hst' : t₁.conn.state = .established := by
    rw [← heq, Tcp.update_conn, ← hst]
    split_ifs
    · rw [sendbufConsume_frame]
    · rfl
  split_ifs with hempty
  · -- the ring is empty, and all that was in flight came from it
    refine fun _ => timed_of_eq ?_
    have hzero : t₁.inFlight = 0 := by
      have hle := hpaced'.inFlight hst'
      omega
    show t₁.conn.sndUna = t₁.conn.sndNxt
    rw [sndNxt_eq, hzero]
    exact (BitVec.add_zero _).symm
  · refine guarding_course (guarding_acked h hpaced hack ?_) (course_tcpFlushPending env _)
    rw [← heq]
    rfl

theorem guarding_establishedAck (h : Guarding t) (hpaced : Paced paceLimit t)
    (hst : t.conn.state = .established) : Guarding (establishedAck env seg t) := by
  unfold establishedAck
  simp only
  split_ifs with hadv hwriteable
  · exact guarding_course (guarding_ackAdvance h hpaced hst hadv) (course_runCallback env _ _)
  · exact guarding_ackAdvance h hpaced hst hadv
  · exact h

/-- The remote FIN is answered with our own. -/
theorem guarding_establishedFin (h : Guarding t) : Guarding (establishedFin env seg t) := by
  unfold establishedFin
  split_ifs with hfin
  · intro hok
    have hclose := course_notifyClose env (takeFin env t)
    refine timed_sendFin (kept_course hclose ?_)
    have hfound : Entry.remoteFin t.conn ∈ (takeFin env t).trace := by
      show _ ∈ (t.trace ++ [Entry.remoteFin t.conn]) ++ [_]
      simp
    have hentry : Entry.timerOk (.remoteFin t.conn) = true :=
      hok _ (List.mem_append_left _ (trace_course hclose hfound))
    exact Bool.or_eq_true _ _ ▸ hentry
  · exact h

theorem guarding_inputEstablished (h : Guarding t) (hpaced : Paced paceLimit t)
    (hst : t.conn.state = .established) : Guarding (inputEstablished env seg t) :=
  guarding_establishedFin (guarding_course (guarding_establishedAck h hpaced hst)
    (course_establishedData env seg _))

theorem guarding_inputSynReceived (h : Guarding t) (hpaced : Paced paceLimit t)
    (hst : t.conn.state = .synReceived) : Guarding (inputSynReceived env seg t) := by
  unfold inputSynReceived
  simp only
  split_ifs with hack hdata
  · exact guarding_course (guarding_acked h hpaced (@Acked.passive env _ _ hst hack.1 hack.2) rfl)
      (course_receiveInOrder env _ _ _)
  · exact guarding_acked h hpaced (@Acked.passive env _ _ hst hack.1 hack.2) rfl
  · exact h

theorem guarding_inputSynSent (h : Guarding t) (hpaced : Paced paceLimit t)
    (hst : t.conn.state = .synSent) : Guarding (inputSynSent env seg t) := by
  unfold inputSynSent
  by_cases hflags : seg.flags.syn = true ∧ seg.flags.ack = true
  · by_cases hbad : (!seqGt seg.ack t.conn.sndUna) = true ∨ seqGt seg.ack t.conn.sndNxt = true
    · rw [if_pos hflags, if_pos hbad]
      exact h
    · have hgt : seqGt seg.ack t.conn.sndUna = true := by
        by_contra hno
        exact hbad (Or.inl (by simpa using hno))
      have hle : seqGt seg.ack t.conn.sndNxt = false :=
        Bool.eq_false_iff.2 fun hyes => hbad (Or.inr hyes)
      have hack := guarding_course
        (guarding_acked h hpaced (@Acked.active env _ _ hst hflags.1 hflags.2 hgt hle) rfl)
        (course_tcpAckNow env _)
      rw [if_pos hflags, if_neg hbad]
      simp only
      split_ifs
      · exact guarding_course hack (course_runCallback env _ _)
      · exact hack
  · rw [if_neg hflags]
    exact h

theorem guarding_finWaitAck (h : Guarding t) (hpaced : Paced paceLimit t)
    (hst : t.conn.state = .finWait) : Guarding (finWaitAck seg t) := by
  unfold finWaitAck
  simp only
  split_ifs with hadv hall
  · exact fun _ => timed_of_eq hall
  · exact guarding_acked h hpaced (@Acked.fin exampleEnv _ _ hst hadv) rfl
  · exact h

theorem guarding_tcpstackInput (h : Guarding t) (hpaced : Paced paceLimit t) :
    Guarding (tcpstackInput env seg t) := by
  unfold tcpstackInput
  split_ifs with hfreed hrst
  · exact h
  · exact fun _ => timed_connDestroy
  · rw [Bool.not_eq_true] at hfreed
    have hwnd : Guarding (updateSndWnd seg t) := fun hok => (h hok).still rfl rfl rfl Or.inl
    have hpaced' : Paced paceLimit (updateSndWnd seg t) :=
      (paces_move hpaced (by decide) le_rfl (@Move.window env _ seg hfreed)).1
    unfold inputState
    cases hst : (updateSndWnd seg t).conn.state with
    | synReceived => exact guarding_inputSynReceived hwnd hpaced' hst
    | synSent => exact guarding_inputSynSent hwnd hpaced' hst
    | established => exact guarding_inputEstablished hwnd hpaced' hst
    | finWait =>
      simp only [inputFinWait]
      split_ifs
      · exact fun _ => timed_connDestroy
      · exact guarding_finWaitAck hwnd hpaced' hst
    | lastAck =>
      simp only [inputLastAck]
      split_ifs
      · exact fun _ => timed_connDestroy
      · exact hwnd
    | closed => exact hwnd
    | closeWait => exact hwnd

/-- A retransmission starts the timer again, an abort frees the connection. -/
theorem guarding_retransmitCb (h : Guarding t) : Guarding (retransmitCb env t) := by
  unfold retransmitCb
  simp only
  split_ifs with hfreed hcount
  · exact h
  · exact fun _ => timed_connDestroy
  · exact fun _ => timed_of_timer rfl

theorem guarding_tcpStep (h : Guarding t) (hpaced : Paced paceLimit t) (e : TcpEnv × TcpEvent) :
    Guarding (tcpStep t e) :=
  tcpStep_cases h (fun a _ => guarding_course h (course_apiCall e.1 t a))
    (fun _ _ => guarding_tcpstackInput h hpaced) (guarding_course h (course_flushCheckCb e.1 t))
    (fun _ => guarding_retransmitCb h) (guarding_course h (course_delayedAckCb e.1 t))
    (fun _ => guarding_course h (course_timerCloseCb e.1 t))

theorem guarding_opened (h : Opened t) : Guarding t := by
  cases h with
  | connect env iss handlers => exact fun _ => timed_of_timer rfl
  | accept env iss handlers seg hsyn hack =>
    exact guarding_course (fun _ => timed_of_timer rfl) (course_runCallback env .accept _)

/-- **Unacknowledged data is guarded by the retransmission timer** in every state of a run in which
each FIN of ours found the timer running. -/
theorem retransmit_timer_guards (h : Opened t) (es : List (TcpEnv × TcpEvent))
    (hok : ∀ x ∈ (Machine.run tcpStep t es).trace, x.timerOk = true) :
    Timed (Machine.run tcpStep t es) := by
  have hrun : Paced paceLimit (Machine.run tcpStep t es) ∧ Guarding (Machine.run tcpStep t es) :=
    @Machine.run_induction' _ _ tcpStep (fun t => Paced paceLimit t ∧ Guarding t)
      (fun _ e ht => ⟨(paced_tcpStep e ht.1).1, guarding_tcpStep ht.2 ht.1 e⟩) _
      ⟨(tracked_opened h).paced, guarding_opened h⟩ es
  exact hrun.2 hok

/-- The run of `exampleConn` to which the owner gives `data` before closing. -/
def endingRun (data : List Byte) : List (TcpEnv × TcpEvent) :=
  [(exampleEnv, .input exampleSynAck), (exampleEnv, .call (.send data)), (exampleEnv, .flush),
    (exampleEnv, .call .close)]

theorem retransmit_timer_guards_sending :
    (∀ x ∈ (Machine.run tcpStep (tcpstackConnect exampleEnv 0 exampleHandlers)
      (endingRun [7])).trace, x.timerOk = true) ∧
    Timed (Machine.run tcpStep (tcpstackConnect exampleEnv 0 exampleHandlers) (endingRun [7])) :=
  ⟨by decide, retransmit_timer_guards (.connect _ _ _) _ (by decide)⟩

/-- The FIN of a connection with nothing in flight is not guarded. -/
theorem fin_unguarded : ¬ ∀ (t : Tcp) (es : List (TcpEnv × TcpEvent)), Opened t →
    Timed (Machine.run tcpStep t es) := by
  intro h
  have hrun := h _ (endingRun []) (.connect exampleEnv 0 exampleHandlers)
  exact absurd (hrun (by decide) (by decide)) (by decide)

end Timed

/-! ### Expirations without progress -/

/-- The retransmission timer of a connection that is not being freed expires. -/
def Tcp.expires (t : Tcp) : TcpEvent → Bool
  | .retransmit => !t.conn.released && t.conn.retransmitTimer && !t.conn.beingFreed
  | _ => false

/-- A connection, and the expirations of its timer since `snd_una` last moved. -/
structure Stalled where
  tcp : Tcp
  expirations : ℕ

/-- One event, counted. -/
def stalledStep (s : Stalled) (e : TcpEnv × TcpEvent) : Stalled where
  tcp := tcpStep s.tcp e
  expirations :=
    if (tcpStep s.tcp e).conn.sndUna = s.tcp.conn.sndUna then
      s.expirations + if s.tcp.expires e.2 then 1 else 0
    else 0

/-- What a run from `t` counts. -/
def stalledRun (t : Tcp) (es : List (TcpEnv × TcpEvent)) : Stalled :=
  Machine.run stalledStep ⟨t, 0⟩ es

/-- An acknowledgement of something new resets the count: there is nothing to reset, or it leaves
nothing in the buffer, or nothing in flight in `FIN_WAIT`. -/
def ProgressResets (t : Tcp) (e : TcpEnv × TcpEvent) : Prop :=
  match e.2 with
  | .input seg => seg.advances t.conn = true → t.conn.retransmitCount = 0 ∨
      (t.conn.state = .established → t.conn.sendbufLen ≤ (seg.ack - t.conn.sndUna).toNat) ∧
      (t.conn.state = .finWait → seg.ack = t.conn.sndNxt)
  | _ => True

section Progress

variable {env : TcpEnv} {seg : Inbound} {t t' : Tcp}

theorem count_tcpFlushPending :
    (tcpFlushPending env t).conn.retransmitCount ≤ t.conn.retransmitCount := by
  unfold tcpFlushPending
  simp only
  split_ifs
  · exact le_rfl
  · exact Nat.zero_le _
  · exact le_rfl

theorem count_connDestroy : (connDestroy t).conn.retransmitCount = t.conn.retransmitCount := by
  unfold connDestroy
  split_ifs <;> rfl

/-- No move counts an expiration. -/
theorem count_move (hm : Move env t t') : t'.conn.retransmitCount ≤ t.conn.retransmitCount := by
  cases hm with
  | flush => exact count_tcpFlushPending
  | accept data grown hlive hst hpos hfit hgrow =>
    show (sendbufAppend grown data).retransmitCount ≤ _
    rw [sendbufGrow_frame hgrow]
    exact le_rfl
  | ack =>
    unfold tcpAckNow
    split_ifs <;> exact le_rfl
  | reset => exact count_connDestroy.le
  | destroy => exact count_connDestroy.le
  | finish => exact count_connDestroy.le
  | stopTimer => exact Nat.zero_le _
  | queueOoo seq data hgt =>
    rw [Tcp.update_conn, tcpOooQueue_frame]
  | _ => exact le_rfl

theorem count_path (hp : Path env t t') : t'.conn.retransmitCount ≤ t.conn.retransmitCount := by
  induction hp with
  | refl => exact le_rfl
  | tail _ hm ih => exact (count_move hm).trans ih

theorem count_acked (ha : Acked env seg t t') :
    t'.conn.retransmitCount ≤ t.conn.retransmitCount := by
  cases ha with
  | passive => exact Nat.zero_le _
  | active => exact Nat.zero_le _
  | data =>
    simp only [Tcp.update_conn]
    split_ifs
    · rw [sendbufConsume_frame]
    · exact le_rfl
  | fin => exact le_rfl

theorem count_input (hi : Input env t t') : t'.conn.retransmitCount ≤ t.conn.retransmitCount := by
  cases hi with
  | path hp => exact count_path hp
  | acked seg h₀ hack h₁ =>
    exact ((count_path h₁).trans (count_acked hack)).trans (count_path h₀)

/-- An event counts at most the expiration that it is. -/
theorem count_tcpStep (t : Tcp) (e : TcpEnv × TcpEvent) : (tcpStep t e).conn.retransmitCount ≤
    t.conn.retransmitCount + if t.expires e.2 then 1 else 0 := by
  by_cases hrel : t.conn.released = true
  · rw [tcpStep_released hrel]
    exact Nat.le_add_right _ _
  rw [Bool.not_eq_true] at hrel
  generalize heq : tcpStep t e = t'
  have hshape : StepShape e.1 e.2 t t' := heq ▸ tcpStep_shape t e
  cases hshape with
  | input hi => exact (count_input hi).trans (Nat.le_add_right _ _)
  | @fin t₂ t₃ hst hi hclose =>
    have htaken : t₂.conn.retransmitCount ≤ t.conn.retransmitCount := count_input hi
    exact ((count_path hclose).trans htaken).trans (Nat.le_add_right _ _)
  | resend he _ hlive htimer hcount =>
    rw [he, Tcp.expires, hrel, hlive, htimer]
    exact le_rfl
  | abort he hlive htimer hcount habort =>
    rw [he, Tcp.expires, hrel, hlive, htimer, count_connDestroy]
    exact count_path habort

/-- What an incoming segment can do to `snd_una` and to the count. -/
def Resets (t t' : Tcp) : Prop := t'.conn.sndUna = t.conn.sndUna ∨ t'.conn.retransmitCount = 0

theorem resets_of_le (h : t.conn.retransmitCount = 0)
    (hle : t'.conn.retransmitCount ≤ t.conn.retransmitCount) : Resets t t' :=
  Or.inr (Nat.le_zero.1 (h ▸ hle))

theorem resets_path (hpaced : Paced paceLimit t) (hp : Path env t t') : Resets t t' :=
  Or.inl (sndUna_path hpaced (by decide) le_rfl hp)

/-- Nothing that follows a reset of the count undoes it. -/
theorem Resets.of_zero {t₁ : Tcp} (h : t₁.conn.retransmitCount = 0) (hp : Path env t₁ t') :
    Resets t t' :=
  Or.inr (Nat.le_zero.1 (h ▸ count_path hp))

/-- A segment without news leaves `snd_una` alone, even if it brings a FIN. -/
theorem sndUna_inputEstablished_of_not (h : Paced paceLimit t)
    (hst : t.conn.state = .established) (hadv : seg.advances t.conn = false) :
    (inputEstablished env seg t).conn.sndUna = t.conn.sndUna := by
  have hack : establishedAck env seg t = t := by
    rw [establishedAck, if_neg (by rw [hadv]; exact Bool.false_ne_true)]
  have hdata := path_establishedData env seg t
  have hpaced := (paces_path (h.tighten hst) le_rfl (by decide) hdata).1
  have huna := sndUna_path (h.tighten hst) le_rfl (by decide) hdata
  unfold inputEstablished establishedFin
  rw [hack]
  split_ifs
  · have hclose := path_notifyClose env (takeFin env (establishedData env seg t))
    have huna' := sndUna_path (takeFin_spec env hpaced).1 (Nat.le_add_right _ 1) (by decide) hclose
    exact huna'.trans huna
  · exact huna

/-- An acknowledgement of the whole buffer resets the count. -/
theorem count_ackAdvance (hall : t.conn.sendbufLen ≤ (seg.ack - t.conn.sndUna).toNat)
    (hfit : (seg.ack - t.conn.sndUna).toNat ≤ t.conn.sendbufLen) :
    (ackAdvance env seg t).conn.retransmitCount = 0 := by
  unfold ackAdvance
  simp only
  generalize heq : t.update _ = t₁
  have hempty : t₁.conn.sendbufLen = 0 := by
    rw [← heq, Tcp.update_conn]
    show (if _ then _ else _ : Conn).sendbufLen = 0
    rw [if_pos hfit, sendbufConsume, if_pos hall]
  rw [if_pos hempty]
  rfl

theorem count_inputEstablished : (inputEstablished env seg t).conn.retransmitCount ≤
    (establishedAck env seg t).conn.retransmitCount := by
  have hdata := count_path (path_establishedData env seg (establishedAck env seg t))
  unfold inputEstablished establishedFin
  split_ifs
  · exact (count_path (path_notifyClose env (takeFin env _))).trans hdata
  · exact hdata

theorem resets_inputEstablished (hpaced : Paced paceLimit t) (hst : t.conn.state = .established)
    (hok : seg.advances t.conn = true → t.conn.retransmitCount = 0 ∨
      t.conn.sendbufLen ≤ (seg.ack - t.conn.sndUna).toNat) :
    Resets t (inputEstablished env seg t) := by
  by_cases hadv : seg.advances t.conn = true
  · have hcount := @count_inputEstablished env seg t
    rcases hok hadv with hzero | hall
    · exact resets_of_le hzero (hcount.trans (count_input (input_establishedAck env seg hst)))
    · have hbound := hpaced.bound
      have hlimit := paceLimit_lt
      have hfit := (advances_spec hadv (by show t.inFlight < _; omega)).2
      have hzero := @count_ackAdvance env seg t hall (hfit.trans (hpaced.inFlight hst))
      refine Or.inr (Nat.le_zero.1 (hcount.trans ?_))
      unfold establishedAck
      rw [if_pos hadv]
      simp only
      split_ifs
      · exact (count_path (path_runCallback env _ _)).trans hzero.le
      · exact hzero.le
  · exact Or.inl (sndUna_inputEstablished_of_not hpaced hst (by simpa using hadv))

theorem resets_inputSynReceived : Resets t (inputSynReceived env seg t) := by
  unfold inputSynReceived
  simp only
  split_ifs
  · exact Or.inr (Nat.le_zero.1 (count_path (path_receiveInOrder env _ _ _)))
  · exact Or.inr rfl
  · exact Or.inl rfl

theorem resets_inputSynSent : Resets t (inputSynSent env seg t) := by
  unfold inputSynSent
  simp only
  split_ifs
  · exact Or.inl rfl
  · exact Or.inr (Nat.le_zero.1
      (count_path ((path_tcpAckNow env _).trans (path_runCallback env _ _))))
  · exact Or.inr (Nat.le_zero.1 (count_path (path_tcpAckNow env _)))
  · exact Or.inl rfl

theorem resets_inputFinWait (hpaced : Paced paceLimit t) (hlive : t.conn.beingFreed = false)
    (hst : t.conn.state = .finWait)
    (hok : seg.advances t.conn = true → t.conn.retransmitCount = 0 ∨ seg.ack = t.conn.sndNxt) :
    Resets t (inputFinWait env seg t) := by
  have hpath := path_inputFinWait env seg hlive hst
  by_cases hadv : seg.advances t.conn = true
  · rcases hok hadv with hzero | hall
    · exact resets_of_le hzero
        (count_input ((input_finWaitAck env seg hst).trans hpath))
    · have hack : (finWaitAck seg t).conn.retransmitCount = 0 := by
        unfold finWaitAck
        rw [if_pos hadv]
        simp only
        split_ifs with hno
        · rfl
        · exact absurd hall hno
      exact .of_zero hack hpath
  · have hack : finWaitAck seg t = t := by
      rw [finWaitAck, if_neg hadv]
    rw [hack] at hpath
    exact resets_path hpaced hpath

theorem resets_tcpstackInput (hpaced : Paced paceLimit t)
    (hok : ProgressResets t (env, .input seg)) : Resets t (tcpstackInput env seg t) := by
  unfold tcpstackInput
  split_ifs with hfreed hrst
  · exact Or.inl rfl
  · rw [Bool.not_eq_true] at hfreed
    exact resets_path hpaced (@Move.finish env t hfreed).path
  · rw [Bool.not_eq_true] at hfreed
    have hwnd : Move env t (updateSndWnd seg t) := Move.window seg hfreed
    have hpaced' : Paced paceLimit (updateSndWnd seg t) :=
      (paces_move hpaced (by decide) le_rfl hwnd).1
    have hlive : (updateSndWnd seg t).conn.beingFreed = false := hfreed
    have hwhole : ∀ t', Resets (updateSndWnd seg t) t' → Resets t t' := fun _ h => h
    refine hwhole _ ?_
    unfold inputState
    cases hst : (updateSndWnd seg t).conn.state with
    | synReceived => exact resets_inputSynReceived
    | synSent => exact resets_inputSynSent
    | established =>
      exact resets_inputEstablished hpaced' hst fun hadv => (hok hadv).imp_right fun h => h.1 hst
    | finWait =>
      exact resets_inputFinWait hpaced' hlive hst fun hadv =>
        (hok hadv).imp_right fun h => h.2 hst
    | lastAck => exact resets_path hpaced' (path_inputLastAck env seg hlive)
    | closed => exact Or.inl rfl
    | closeWait => exact Or.inl rfl

theorem retransmitCb_of_live (hlive : t.conn.beingFreed = false) : retransmitCb env t =
    if wgTcpMaxRetransmit < t.conn.retransmitCount + 1 then
      retransmitAbort env (retransmitFired t)
    else resent env t := by
  rw [retransmitCb, if_neg (by simp [hlive])]
  rfl

theorem sndUna_retransmitCb (hpaced : Paced paceLimit t) :
    (retransmitCb env t).conn.sndUna = t.conn.sndUna := by
  by_cases hfreed : t.conn.beingFreed = true
  · rw [retransmitCb, if_pos hfreed]
  · rw [retransmitCb_of_live (Bool.eq_false_iff.2 hfreed)]
    split_ifs
    · have hclosed : Paced paceLimit ((retransmitFired t).update fun conn =>
          { conn with state := .closed }) :=
        hpaced.still ⟨rfl, rfl, rfl, rfl, rfl⟩ (Or.inr rfl) rfl rfl
      have huna := sndUna_path hclosed (by decide) le_rfl
        ((path_notifyAbort env _).trans (path_connDestroy env _))
      exact huna
    · rfl

theorem resets_tcpStep (hpaced : Paced paceLimit t) {e : TcpEnv × TcpEvent}
    (hok : ProgressResets t e) : Resets t (tcpStep t e) := by
  obtain ⟨env, e⟩ := e
  refine tcpStep_cases (Or.inl rfl) (fun a _ => ?_) (fun seg he => ?_) ?_ (fun _ => ?_) ?_
    fun _ => ?_
  · exact resets_path hpaced (Course.path (course_apiCall env t a))
  · subst he
    exact resets_tcpstackInput hpaced hok
  · exact resets_path hpaced (Course.path (course_flushCheckCb env t))
  · exact Or.inl (sndUna_retransmitCb hpaced)
  · exact resets_path hpaced (Course.path (course_delayedAckCb env t))
  · exact resets_path hpaced (Course.path (course_timerCloseCb env t))

/-- The count of a connection is at most what is counted since `snd_una` last moved. -/
def Stalled.Counted (s : Stalled) : Prop :=
  Paced paceLimit s.tcp ∧ s.tcp.conn.retransmitCount ≤ s.expirations

theorem Stalled.Counted.step {s : Stalled} (h : s.Counted) {e : TcpEnv × TcpEvent}
    (hok : ProgressResets s.tcp e) : (stalledStep s e).Counted := by
  refine ⟨(paced_tcpStep e h.1).1, ?_⟩
  show (tcpStep s.tcp e).conn.retransmitCount ≤ if _ then _ else _
  by_cases huna : (tcpStep s.tcp e).conn.sndUna = s.tcp.conn.sndUna
  · rw [if_pos huna]
    exact (count_tcpStep s.tcp e).trans (Nat.add_le_add_right h.2 _)
  · rw [if_neg huna]
    exact ((resets_tcpStep h.1 hok).resolve_left huna).le

theorem counted_run (h : Opened t) {es : List (TcpEnv × TcpEvent)}
    (hes : Machine.Guarded tcpStep ProgressResets t es) : (stalledRun t es).Counted := by
  have hstalled : ∀ (s : Stalled) es, Machine.Guarded tcpStep ProgressResets s.tcp es →
      Machine.Guarded stalledStep (fun s e => ProgressResets s.tcp e) s es := by
    intro s es
    induction es generalizing s with
    | nil => exact id
    | cons e es ih => exact fun h => ⟨h.1, ih (stalledStep s e) h.2⟩
  refine Machine.run_induction _ (fun s e hs hok => hs.step hok)
    ⟨(tracked_opened h).paced, ?_⟩ (hstalled ⟨t, 0⟩ es hes)
  cases h with
  | connect => exact le_rfl
  | accept env => exact count_path (path_runCallback env .accept _)

theorem tcp_stalledRun (t : Tcp) (es : List (TcpEnv × TcpEvent)) :
    (stalledRun t es).tcp = Machine.run tcpStep t es := by
  induction es using List.reverseRecOn with
  | nil => rfl
  | append_singleton es e ih =>
    rw [stalledRun, Machine.run_snoc, Machine.run_snoc, ← ih]
    rfl

/-- `retransmit_cb` frees the connection only after too many expirations. -/
theorem count_of_aborted (hlive : t.conn.beingFreed = false)
    (habort : (tcpStep t (env, .retransmit)).conn.beingFreed = true) :
    wgTcpMaxRetransmit ≤ t.conn.retransmitCount ∧ t.expires .retransmit = true := by
  generalize heq : tcpStep t (env, .retransmit) = t' at habort
  unfold tcpStep ownedStep at heq
  simp only at heq
  split_ifs at heq with hrel htimer
  · rw [← heq, hlive] at habort
    cases habort
  · have hexpires : t.expires .retransmit = true := by
      rw [Tcp.expires, htimer, hlive, Bool.eq_false_iff.2 hrel]
      rfl
    refine ⟨?_, hexpires⟩
    by_contra hfew
    rw [← heq, retransmitCb_of_live hlive, if_neg (by omega)] at habort
    exact Bool.false_ne_true (hlive.symm.trans habort)
  · rw [← heq, hlive] at habort
    cases habort

/-- **A connection is aborted only after that many expirations without progress**, in every run
whose progress resets the count. -/
theorem abort_after_expirations (h : Opened t) {es : List (TcpEnv × TcpEvent)}
    (hes : Machine.Guarded tcpStep ProgressResets t es) (env : TcpEnv)
    (hlive : (Machine.run tcpStep t es).conn.beingFreed = false)
    (habort : (Machine.run tcpStep t (es ++ [(env, .retransmit)])).conn.beingFreed = true) :
    wgTcpMaxRetransmit + 1 ≤ (stalledRun t (es ++ [(env, .retransmit)])).expirations := by
  have hcounted := counted_run h hes
  rw [Machine.run_snoc] at habort
  rw [← tcp_stalledRun] at hlive habort
  obtain ⟨hcount, hexpires⟩ := count_of_aborted hlive habort
  have huna : (tcpStep (stalledRun t es).tcp (env, .retransmit)).conn.sndUna =
      (stalledRun t es).tcp.conn.sndUna := by
    unfold tcpStep ownedStep
    simp only
    split_ifs
    · rfl
    · exact sndUna_retransmitCb hcounted.1
    · rfl
  rw [stalledRun, Machine.run_snoc]
  show _ ≤ (stalledStep (stalledRun t es) (env, .retransmit)).expirations
  rw [stalledStep, if_pos huna, hexpires]
  exact Nat.add_le_add_right (hcount.trans hcounted.2) 1

/-- The owner sends a byte, which the peer never acknowledges. -/
def silentRun : List (TcpEnv × TcpEvent) :=
  [(exampleEnv, .input exampleSynAck), (exampleEnv, .call (.send [1])), (exampleEnv, .flush)] ++
    List.replicate wgTcpMaxRetransmit (exampleEnv, .retransmit)

theorem abort_after_expirations_silent : wgTcpMaxRetransmit + 1 ≤ (stalledRun
    (tcpstackConnect exampleEnv 0 exampleHandlers)
    (silentRun ++ [(exampleEnv, .retransmit)])).expirations := by
  have hes : Machine.Guarded tcpStep ProgressResets (tcpstackConnect exampleEnv 0 exampleHandlers)
      silentRun :=
    ⟨fun _ => Or.inl rfl, trivial, trivial, trivial, trivial, trivial, trivial, trivial, trivial,
      trivial⟩
  exact abort_after_expirations (.connect _ _ _) hes exampleEnv (by decide) (by decide)

/-- The owner sends eight bytes, which the peer acknowledges one at a time, each after an expiration
of the timer. -/
def uploadRun : List (TcpEnv × TcpEvent) :=
  [(exampleEnv, .input exampleSynAck), (exampleEnv, .call (.send [1, 2, 3, 4, 5, 6, 7, 8])),
    (exampleEnv, .flush)] ++
  [2, 3, 4, 5, 6, 7].flatMap fun ack =>
    [(exampleEnv, .retransmit),
      (exampleEnv, .input ⟨{ ack := true }, 0xfffffffe, ack, 1000, [], []⟩)]

theorem upload_aborted : ¬ ∀ (t : Tcp) (es : List (TcpEnv × TcpEvent)) (env : TcpEnv), Opened t →
    (Machine.run tcpStep t es).conn.beingFreed = false →
    (Machine.run tcpStep t (es ++ [(env, .retransmit)])).conn.beingFreed = true →
    wgTcpMaxRetransmit + 1 ≤ (stalledRun t (es ++ [(env, .retransmit)])).expirations := by
  intro h
  have hrun := h _ uploadRun exampleEnv (.connect exampleEnv 0 exampleHandlers)
  exact absurd (hrun (by decide) (by decide)) (by decide)

end Progress

end Wgx
