import Mathlib.Logic.Relation
import Wgx.Tcp.Frame

/-!
# The elementary changes of a TCP connection

Every event of a connection is a sequence of elementary changes (`Move`), each with the condition
under which the code makes it.  Four things happen at most once in an event and stand outside of
these: an acknowledgement moves `snd_una` (`Acked`), a remote FIN is taken and answered,
`retransmit_cb` sends again, and `retransmit_cb` gives up.

* `Path env`: the sequences of moves;
* `Course env`: those in which a FIN goes out only in the owner's `tcp_close`, and neither the remote
  window moves nor the retransmission timer is stopped;
* `course_apiCall`, `course_runCallback`, …: the functions of the stack are such sequences;
* `tcpStep_shape`: what an event does.
-/

namespace Wgx

/-- An entry of the trace that neither sends a segment nor takes data. -/
def Entry.isNote : Entry → Bool
  | .callback _ | .call _ _ | .remoteFin _ => true
  | .segment _ | .accepted _ => false

/-- The elementary changes of a connection. -/
inductive Move (env : TcpEnv) (t : Tcp) : Tcp → Prop
  /-- A callback, or a call of the owner. -/
  | note (e : Entry) (he : e.isNote = true) : Move env t (t.log [e])
  /-- The owner sets `on_writeable` or `on_recv_window`. -/
  | setHandlers (hs : Handlers) (hconnect : hs.onConnect = t.conn.handlers.onConnect)
    (hdata : hs.onData = t.conn.handlers.onData) (hclose : hs.onClose = t.conn.handlers.onClose) :
    Move env t (t.update fun conn => { conn with handlers := hs })
  /-- `tcp_send` takes data. -/
  | accept (data : List Byte) (grown : Conn) (hlive : t.conn.beingFreed = false)
    (hst : t.conn.state = .established) (hpos : data.length ≠ 0)
    (hfit : t.conn.sendbufLen + data.length ≤ wgTcpSendbufSize)
    (hgrow : sendbufGrow env t.conn (t.conn.sendbufLen + data.length) = some grown) :
    Move env t ((t.update fun _ => sendbufAppend grown data).log [.accepted data])
  | flush (hlive : t.conn.beingFreed = false) (hst : t.conn.state = .established) :
    Move env t (tcpFlushPending env t)
  | schedule (hlive : t.conn.beingFreed = false) :
    Move env t (t.update fun conn => { conn with flushQueued := true })
  | unschedule : Move env t (t.update fun conn => { conn with flushQueued := false })
  | ack (hlive : t.conn.beingFreed = false) : Move env t (tcpAckNow env t)
  /-- One more segment whose acknowledgement is delayed. -/
  | delayAck (len : ℕ) (hlive : t.conn.beingFreed = false) :
    Move env t (t.update fun conn => { conn with
      delayedAckSegments := conn.delayedAckSegments + 1
      delayedAckBytes := conn.delayedAckBytes + len })
  | armAck (hlive : t.conn.beingFreed = false) :
    Move env t (t.update fun conn => { conn with ackTimer := true })
  | ackFired : Move env t (t.update fun conn => { conn with ackTimer := false })
  /-- The owner closes the connection. -/
  | close (state : TcpState) (hlive : t.conn.beingFreed = false)
    (hst : t.conn.state = .established ∧ state = .finWait ∨
      t.conn.state = .closeWait ∧ state = .lastAck) :
    Move env t (sendFin env state t)
  /-- The owner closes a connection that was never opened. -/
  | reset (hlive : t.conn.beingFreed = false) (hst : t.conn.state = .synSent) :
    Move env t (connDestroy (sendSegment env { rst := true } t.conn.sndNxt 0 []
      (t.update fun conn => { conn with state := .closed })))
  | destroy (hlive : t.conn.beingFreed = false) : Move env t (connDestroy t)
  /-- The connection is over: a reset, the remote FIN in `FIN_WAIT`, the ACK in `LAST_ACK`. -/
  | finish (hlive : t.conn.beingFreed = false) :
    Move env t (connDestroy (t.update fun conn => { conn with state := .closed }))
  /-- The remote window. -/
  | window (seg : Inbound) (hlive : t.conn.beingFreed = false) : Move env t (updateSndWnd seg t)
  /-- Nothing is left to be retransmitted. -/
  | stopTimer (hall : t.conn.sendbufLen = 0 ∨ t.conn.sndUna = t.conn.sndNxt) :
    Move env t (t.update fun conn => { conn with retransmitTimer := false, retransmitCount := 0 })
  | receive (data : List Byte) :
    Move env t (t.update fun conn =>
      { conn with rcvNxt := conn.rcvNxt + BitVec.ofNat 32 data.length })
  /-- The next segment of the out-of-order list is in order. -/
  | popOoo (seg : OooSeg) (rest : List OooSeg) (hooo : t.conn.rcvOoo = seg :: rest)
    (hseq : seg.seq = t.conn.rcvNxt) :
    Move env t (t.update fun conn =>
      { conn with rcvOoo := rest, rcvOooLen := conn.rcvOooLen - seg.len })
  | queueOoo (seq : Seq) (data : List Byte) (hgt : seqGt seq t.conn.rcvNxt = true) :
    Move env t (t.update (tcpOooQueue env seq data))
  /-- The remote FIN in `FIN_WAIT`. -/
  | countFin (hst : t.conn.state = .finWait) :
    Move env t (sendSegment env { ack := true } t.conn.sndNxt (t.conn.rcvNxt + 1) []
      (t.update fun conn => { conn with rcvNxt := conn.rcvNxt + 1 }))
  | notify (hno : t.conn.closeNotified = false) :
    Move env t (t.update fun conn => { conn with closeNotified := true })
  | timerGone : Move env t (t.update fun conn => { conn with closePending := conn.closePending - 1 })
  | release :
    Move env t (t.update fun conn =>
      { conn with sendbufFreed := true, rcvOoo := [], rcvOooLen := 0, released := true })

/-- An incoming segment acknowledges something. -/
inductive Acked (env : TcpEnv) (seg : Inbound) (t : Tcp) : Tcp → Prop
  | passive (hst : t.conn.state = .synReceived) (hack : seg.flags.ack = true)
    (hnxt : seg.ack = t.conn.sndNxt) :
    Acked env seg t (t.update fun conn => { conn with
      sndUna := seg.ack, state := .established, retransmitTimer := false, retransmitCount := 0 })
  | active (hst : t.conn.state = .synSent) (hsyn : seg.flags.syn = true)
    (hack : seg.flags.ack = true) (hgt : seqGt seg.ack t.conn.sndUna = true)
    (hle : seqGt seg.ack t.conn.sndNxt = false) :
    Acked env seg t ((t.update fun conn => parseSynOptions seg.options { conn with
      sndUna := seg.ack
      rcvNxt := seg.seq + 1
      state := .established
      retransmitTimer := false
      retransmitCount := 0 }).update fun conn =>
        { conn with sndWnd := seg.window.toNat * 2 ^ conn.sndWscale })
  | data (hst : t.conn.state = .established) (hadv : seg.advances t.conn = true) :
    Acked env seg t (t.update fun conn =>
      { (if (seg.ack - t.conn.sndUna).toNat ≤ conn.sendbufLen then
          sendbufConsume conn (seg.ack - t.conn.sndUna).toNat else conn) with
        sndUna := seg.ack })
  | fin (hst : t.conn.state = .finWait) (hadv : seg.advances t.conn = true) :
    Acked env seg t (t.update fun conn => { conn with sndUna := seg.ack })

/-- Sequences of moves. -/
abbrev Path (env : TcpEnv) : Tcp → Tcp → Prop := Relation.ReflTransGen (Move env)

/-- A change that sends no FIN, leaves the remote window alone, and stops the retransmission timer
only with the connection. -/
structure Plain (t t' : Tcp) : Prop where
  sndWnd : t'.conn.sndWnd = t.conn.sndWnd
  timer : t.conn.retransmitTimer = true →
    t'.conn.retransmitTimer = true ∨ t'.conn.beingFreed = true
  fins : ∃ es, t'.trace = t.trace ++ es ∧ ∀ seg, .segment seg ∈ es → seg.flags.fin = false

/-- A plain move, or the owner's call of `tcp_close`. -/
inductive Stride (env : TcpEnv) (t : Tcp) : Tcp → Prop
  | move {t' : Tcp} (h : Move env t t') (hplain : Plain t t') : Stride env t t'
  | close : Stride env t (tcpClose env (t.log [.call .close t.conn]))

/-- Sequences of strides. -/
abbrev Course (env : TcpEnv) : Tcp → Tcp → Prop := Relation.ReflTransGen (Stride env)

section Plain

variable {t : Tcp}

theorem plain_update {f : Conn → Conn} (hwnd : (f t.conn).sndWnd = t.conn.sndWnd)
    (htimer : t.conn.retransmitTimer = true →
      (f t.conn).retransmitTimer = true ∨ (f t.conn).beingFreed = true) :
    Plain t (t.update f) :=
  ⟨hwnd, htimer, [], by simp, by simp⟩

theorem plain_log {es : List Entry} (hes : ∀ seg, .segment seg ∈ es → seg.flags.fin = false) :
    Plain t (t.log es) :=
  ⟨rfl, Or.inl, es, rfl, hes⟩

theorem Plain.trans {t' t'' : Tcp} (h : Plain t t') (h' : Plain t' t'')
    (hfreed : t'.conn.beingFreed = false) : Plain t t'' := by
  obtain ⟨es, htrace, hes⟩ := h.fins
  obtain ⟨es', htrace', hes'⟩ := h'.fins
  refine ⟨h'.sndWnd.trans h.sndWnd, fun ht => ?_, es ++ es', ?_, fun seg hseg => ?_⟩
  · rcases h.timer ht with ht' | hgone
    · exact h'.timer ht'
    · rw [hfreed] at hgone
      cases hgone
  · rw [htrace', htrace, List.append_assoc]
  · rcases List.mem_append.1 hseg with hin | hin
    · exact hes seg hin
    · exact hes' seg hin

theorem plain_sendSegment (env : TcpEnv) {flags : Flags} (hfin : flags.fin = false) (seq ack : Seq)
    (data : List Byte) : Plain t (sendSegment env flags seq ack data t) := by
  refine plain_log fun seg hseg => ?_
  cases List.mem_singleton.1 hseg
  exact hfin

theorem flags_flushLoop (env : TcpEnv) (conn : Conn) (fuel inFlight : ℕ) :
    ∀ seg ∈ (flushLoop env conn fuel inFlight).1, seg.flags = { ack := true, psh := true } := by
  induction fuel generalizing inFlight with
  | zero => simp [flushLoop]
  | succ fuel ih =>
    simp only [flushLoop]
    split_ifs
    · simp
    · intro seg hseg
      rcases List.mem_cons.1 hseg with rfl | hseg
      · rfl
      · exact ih _ seg hseg
    · simp

theorem plain_tcpFlushPending (env : TcpEnv) : Plain t (tcpFlushPending env t) := by
  unfold tcpFlushPending
  simp only
  have hsent : ∀ seg, Entry.segment seg ∈ ((flushLoop env t.conn t.conn.sendbufLen
      (t.conn.sndNxt - t.conn.sndUna).toNat).1.map Entry.segment) → seg.flags.fin = false := by
    intro seg hseg
    obtain ⟨seg', hmem, heq⟩ := List.mem_map.1 hseg
    cases heq
    rw [flags_flushLoop env _ _ _ seg hmem]
  split_ifs with hoff
  · exact ⟨rfl, Or.inl, [], by simp, by simp⟩
  · exact ⟨rfl, fun _ => Or.inl rfl, _, rfl, hsent⟩
  · exact ⟨rfl, Or.inl, _, rfl, hsent⟩

theorem plain_tcpAckNow (env : TcpEnv) : Plain t (tcpAckNow env t) := by
  unfold tcpAckNow
  split_ifs with hfreed
  · exact ⟨rfl, Or.inl, [], by simp, by simp⟩
  · rw [Bool.not_eq_true] at hfreed
    exact (plain_update rfl Or.inl).trans (plain_sendSegment env rfl _ _ _) hfreed

theorem plain_connDestroy : Plain t (connDestroy t) := by
  unfold connDestroy
  split_ifs with hfreed
  · exact ⟨rfl, Or.inl, [], by simp, by simp⟩
  · exact plain_update rfl fun _ => Or.inr rfl

end Plain

/-! ### The functions of the stack -/

section Paths

variable (env : TcpEnv)

theorem Move.path {env : TcpEnv} {t t' : Tcp} (h : Move env t t') : Path env t t' :=
  Relation.ReflTransGen.single h

theorem Move.course {env : TcpEnv} {t t' : Tcp} (h : Move env t t') (hplain : Plain t t') :
    Course env t t' :=
  Relation.ReflTransGen.single (.move h hplain)

theorem course_tcpFlushPending (t : Tcp) : Course env t (tcpFlushPending env t) := by
  by_cases hoff : t.conn.beingFreed = true ∨ t.conn.state ≠ .established
  · rw [tcpFlushPending, if_pos hoff]
  · push Not at hoff
    exact (Move.flush (Bool.eq_false_iff.2 hoff.1) hoff.2).course (plain_tcpFlushPending env)

theorem course_scheduleFlush (t : Tcp) : Course env t (scheduleFlush t) := by
  unfold scheduleFlush
  split_ifs with hoff
  · exact .refl
  · push Not at hoff
    exact (Move.schedule (Bool.eq_false_iff.2 hoff.1)).course (plain_update rfl Or.inl)

theorem course_tcpAckNow (t : Tcp) : Course env t (tcpAckNow env t) := by
  by_cases hfreed : t.conn.beingFreed = true
  · rw [tcpAckNow, if_pos hfreed]
  · exact (Move.ack (Bool.eq_false_iff.2 hfreed)).course (plain_tcpAckNow env)

theorem course_tcpAckData (len : ℕ) (immediate : Bool) (t : Tcp) :
    Course env t (tcpAckData env len immediate t) := by
  unfold tcpAckData
  simp only
  split_ifs with hfreed _ _ harm
  · exact .refl
  · exact course_tcpAckNow env t
  · rw [Bool.not_eq_true] at hfreed
    exact ((Move.delayAck len hfreed).course (plain_update rfl Or.inl)).trans (course_tcpAckNow env _)
  · rw [Bool.not_eq_true] at hfreed
    exact ((Move.delayAck len hfreed).course (plain_update rfl Or.inl)).tail
      (.move (Move.armAck hfreed) (plain_update rfl Or.inl))
  · rw [Bool.not_eq_true] at hfreed
    exact (Move.delayAck len hfreed).course (plain_update rfl Or.inl)

theorem course_connDestroy (t : Tcp) : Course env t (connDestroy t) := by
  by_cases hfreed : t.conn.beingFreed = true
  · rw [connDestroy, if_pos hfreed]
  · exact (Move.destroy (Bool.eq_false_iff.2 hfreed)).course plain_connDestroy

theorem course_tcpSend (data : List Byte) (t : Tcp) : Course env t (tcpSend env data t).2 := by
  unfold tcpSend
  split_ifs with hfreed hst hnil hhuge hfull
  iterate 5 exact .refl
  cases hgrow : sendbufGrow env t.conn (t.conn.sendbufLen + data.length) with
  | none => exact .refl
  | some grown =>
    rw [Bool.not_eq_true] at hfreed
    rw [not_not] at hst
    have hframe := sendbufGrow_frame hgrow
    have haccept := (Move.accept data grown hfreed hst hnil (not_lt.1 hfull) hgrow).course
      ⟨by rw [hframe]; rfl, by rw [hframe]; exact Or.inl, [.accepted data], rfl, by simp⟩
    simp only
    split_ifs
    · exact haccept.trans (course_tcpFlushPending env _)
    · exact haccept.trans (course_scheduleFlush env _)

theorem course_tcpUpdateRecvWindow (t : Tcp) : Course env t (tcpUpdateRecvWindow env t) := by
  unfold tcpUpdateRecvWindow
  split_ifs
  · exact .refl
  · exact course_tcpAckNow env t

theorem course_tcpSetRecvWindowCb (set : Bool) (t : Tcp) :
    Course env t (tcpSetRecvWindowCb set t) := by
  unfold tcpSetRecvWindowCb
  split_ifs
  · exact .refl
  · exact (Move.setHandlers { t.conn.handlers with onRecvWindow := set } rfl rfl rfl).course
      (plain_update rfl Or.inl)

theorem course_apiCall (t : Tcp) (a : ApiCall) : Course env t (apiCall env t a) := by
  have hnote : Course env t (t.log [.call a t.conn]) :=
    (Move.note _ rfl).course (plain_log (by simp))
  cases a with
  | send data => exact hnote.trans (course_tcpSend env data _)
  | close => exact Relation.ReflTransGen.single .close
  | updateRecvWindow => exact hnote.trans (course_tcpUpdateRecvWindow env _)
  | setRecvWindowCb set => exact hnote.trans (course_tcpSetRecvWindowCb env set _)
  | setWriteable set =>
    have hset : Move env (t.log [.call (.setWriteable set) t.conn])
        (apiCall env t (.setWriteable set)) :=
      Move.setHandlers { t.conn.handlers with onWriteable := set } rfl rfl rfl
    exact hnote.tail (.move hset ⟨rfl, Or.inl, [], (List.append_nil _).symm, by simp⟩)

theorem course_foldl_apiCall (calls : List ApiCall) (t : Tcp) :
    Course env t (calls.foldl (apiCall env) t) := by
  induction calls generalizing t with
  | nil => exact .refl
  | cons a calls ih => exact (course_apiCall env t a).trans (ih _)

theorem course_runCallback (cb : Callback) (t : Tcp) : Course env t (runCallback env cb t) :=
  ((Move.note (.callback cb) rfl).course (plain_log (by simp))).trans (course_foldl_apiCall env _ _)

theorem course_deliver (data : List Byte) (t : Tcp) : Course env t (deliver env data t) := by
  unfold deliver
  simp only
  split_ifs
  · exact ((Move.receive data).course (plain_update rfl Or.inl)).trans
      (course_runCallback env _ _)
  · exact (Move.receive data).course (plain_update rfl Or.inl)

theorem course_tcpOooDrain (fuel : ℕ) (t : Tcp) : Course env t (tcpOooDrain env fuel t).2 := by
  induction fuel generalizing t with
  | zero => exact .refl
  | succ fuel ih =>
    unfold tcpOooDrain
    split_ifs
    · exact .refl
    · cases hooo : t.conn.rcvOoo with
      | nil => exact .refl
      | cons seg rest =>
        simp only
        split_ifs with hseq
        · exact .refl
        · rw [not_not] at hseq
          have hpop : Course env t _ :=
            (Move.popOoo seg rest hooo hseq).course (plain_update rfl Or.inl)
          exact (hpop.trans (course_deliver env seg.data _)).trans (ih _)

theorem course_receiveInOrder (data : List Byte) (immediate : Bool) (t : Tcp) :
    Course env t (receiveInOrder env data immediate t) :=
  ((course_deliver env data t).trans (course_tcpOooDrain env _ _)).trans (course_tcpAckData env _ _ _)

theorem course_establishedData (seg : Inbound) (t : Tcp) :
    Course env t (establishedData env seg t) := by
  unfold establishedData
  simp only
  split_ifs with _ _ hgt
  · exact .refl
  · exact course_receiveInOrder env _ _ t
  · have hframe := tcpOooQueue_frame env seg.seq seg.payload t.conn
    refine Relation.ReflTransGen.trans ((Move.queueOoo seg.seq seg.payload hgt).course
      (plain_update ?_ ?_)) (course_tcpAckNow env _)
    · rw [hframe]
    · rw [hframe]
      exact Or.inl
  · exact course_receiveInOrder env _ _ t
  · exact course_tcpAckNow env t
  · exact .refl

theorem course_notifyClose (t : Tcp) : Course env t (notifyClose env t) := by
  unfold notifyClose
  simp only
  split_ifs with hdone
  · exact .refl
  · exact ((Move.notify (Bool.eq_false_iff.2 hdone)).course (plain_update rfl Or.inl)).trans
      (course_runCallback env _ _)
  · exact (Move.notify (Bool.eq_false_iff.2 hdone)).course (plain_update rfl Or.inl)

theorem course_notifyAbort (t : Tcp) : Course env t (notifyAbort env t) := by
  unfold notifyAbort
  simp only
  split_ifs with hdone
  · exact .refl
  · exact ((Move.notify (Bool.eq_false_iff.2 hdone)).course (plain_update rfl Or.inl)).trans
      (course_runCallback env _ _)
  · exact ((Move.notify (Bool.eq_false_iff.2 hdone)).course (plain_update rfl Or.inl)).trans
      (course_runCallback env _ _)
  · exact (Move.notify (Bool.eq_false_iff.2 hdone)).course (plain_update rfl Or.inl)

theorem course_flushCheckCb (t : Tcp) : Course env t (flushCheckCb env t) := by
  unfold flushCheckCb
  simp only
  split_ifs
  · exact Move.unschedule.course (plain_update rfl Or.inl)
  · exact (Move.unschedule.course (plain_update rfl Or.inl)).trans
      (course_tcpFlushPending env _)

theorem course_delayedAckCb (t : Tcp) : Course env t (delayedAckCb env t) := by
  unfold delayedAckCb
  simp only
  split_ifs
  · exact Move.ackFired.course (plain_update rfl Or.inl)
  · exact Move.ackFired.course (plain_update rfl Or.inl)
  · exact (Move.ackFired.course (plain_update rfl Or.inl)).trans
      (course_tcpAckNow env _)

theorem course_timerCloseCb (t : Tcp) : Course env t (timerCloseCb env t) := by
  unfold timerCloseCb
  simp only
  split_ifs
  · exact Move.timerGone.course (plain_update rfl Or.inl)
  · exact ((Move.timerGone.course (plain_update rfl Or.inl)).trans
      (course_notifyClose env _)).tail (.move Move.release (plain_update rfl Or.inl))

end Paths

/-! ### Courses as sequences of moves -/

section

variable (env : TcpEnv)

theorem path_tcpClose (t : Tcp) : Path env t (tcpClose env t) := by
  unfold tcpClose
  by_cases hfreed : t.conn.beingFreed = true
  · rw [if_pos hfreed]
  · rw [if_neg hfreed]
    rw [Bool.not_eq_true] at hfreed
    cases hst : t.conn.state with
    | established => exact (Move.close _ hfreed (Or.inl ⟨hst, rfl⟩)).path
    | closeWait => exact (Move.close _ hfreed (Or.inr ⟨hst, rfl⟩)).path
    | synSent => exact (Move.reset hfreed hst).path
    | closed => exact (Move.destroy hfreed).path
    | synReceived => exact (Move.destroy hfreed).path
    | finWait => exact (Move.destroy hfreed).path
    | lastAck => exact (Move.destroy hfreed).path

variable {env}

theorem Stride.path {t t' : Tcp} (h : Stride env t t') : Path env t t' := by
  cases h with
  | move h => exact h.path
  | close => exact (Move.note _ rfl).path.trans (path_tcpClose env _)

theorem Course.path {t t' : Tcp} (h : Course env t t') : Path env t t' := by
  induction h with
  | refl => exact .refl
  | tail _ hs ih => exact ih.trans hs.path

variable (env)

theorem path_connDestroy (t : Tcp) : Path env t (connDestroy t) :=
  Course.path (course_connDestroy env t)

theorem path_tcpFlushPending (t : Tcp) : Path env t (tcpFlushPending env t) :=
  Course.path (course_tcpFlushPending env t)

theorem path_tcpAckNow (t : Tcp) : Path env t (tcpAckNow env t) :=
  Course.path (course_tcpAckNow env t)

theorem path_runCallback (cb : Callback) (t : Tcp) : Path env t (runCallback env cb t) :=
  Course.path (course_runCallback env cb t)

theorem path_receiveInOrder (data : List Byte) (immediate : Bool) (t : Tcp) :
    Path env t (receiveInOrder env data immediate t) :=
  Course.path (course_receiveInOrder env data immediate t)

theorem path_establishedData (seg : Inbound) (t : Tcp) :
    Path env t (establishedData env seg t) :=
  Course.path (course_establishedData env seg t)

theorem path_notifyClose (t : Tcp) : Path env t (notifyClose env t) :=
  Course.path (course_notifyClose env t)

theorem path_notifyAbort (t : Tcp) : Path env t (notifyAbort env t) :=
  Course.path (course_notifyAbort env t)

end

/-! ### Events -/

/-- Moves, with at most one acknowledgement among them. -/
inductive Input (env : TcpEnv) (t : Tcp) : Tcp → Prop
  | path {t' : Tcp} (h : Path env t t') : Input env t t'
  | acked {t₀ t₁ t' : Tcp} (seg : Inbound) (h₀ : Path env t t₀) (hack : Acked env seg t₀ t₁)
    (h₁ : Path env t₁ t') : Input env t t'

/-- The retransmission timer has fired once more. -/
def retransmitFired (t : Tcp) : Tcp :=
  t.update fun conn =>
    { conn with retransmitTimer := false, retransmitCount := conn.retransmitCount + 1 }

/-- `retransmit_cb` sends again. -/
def resent (env : TcpEnv) (t : Tcp) : Tcp :=
  ((retransmitFired t).log ((retransmitSegments env (retransmitFired t).conn).map .segment)).update
    fun conn => { conn with retransmitTimer := true }

/-- What an event does. -/
inductive StepShape (env : TcpEnv) (e : TcpEvent) (t : Tcp) : Tcp → Prop
  | input {t' : Tcp} (h : Input env t t') : StepShape env e t t'
  /-- The remote FIN is taken, `on_close` called, and our FIN sent. -/
  | fin {t₂ t₃ : Tcp} (hst : t.conn.state = .established) (h : Input env t t₂)
    (hclose : Path env (takeFin env t₂) t₃) :
    StepShape env e t (sendFin env .lastAck t₃)
  | resend (he : e = .retransmit) (hrel : t.conn.released = false)
    (hlive : t.conn.beingFreed = false) (htimer : t.conn.retransmitTimer = true)
    (hcount : t.conn.retransmitCount + 1 ≤ wgTcpMaxRetransmit) : StepShape env e t (resent env t)
  /-- `retransmit_cb` gives up. -/
  | abort {t₃ : Tcp} (he : e = .retransmit) (hlive : t.conn.beingFreed = false)
    (htimer : t.conn.retransmitTimer = true)
    (hcount : wgTcpMaxRetransmit < t.conn.retransmitCount + 1)
    (habort : Path env ((retransmitFired t).update fun conn => { conn with state := .closed }) t₃) :
    StepShape env e t (connDestroy t₃)

theorem Input.trans {env : TcpEnv} {t t' t'' : Tcp} (h : Input env t t') (hp : Path env t' t'') :
    Input env t t'' := by
  cases h with
  | path h => exact .path (h.trans hp)
  | acked seg h₀ hack h₁ => exact .acked seg h₀ hack (h₁.trans hp)

theorem Input.head {env : TcpEnv} {t t' t'' : Tcp} (hp : Path env t t') (h : Input env t' t'') :
    Input env t t'' := by
  cases h with
  | path h => exact .path (hp.trans h)
  | acked seg h₀ hack h₁ => exact .acked seg (hp.trans h₀) hack h₁

section Events

variable (env : TcpEnv) (seg : Inbound) {e : TcpEvent}

/-- An acknowledgement is taken, and moves follow. -/
def AckedThen (env : TcpEnv) (seg : Inbound) (t t' : Tcp) : Prop :=
  ∃ t₁, Acked env seg t t₁ ∧ Path env t₁ t'

theorem AckedThen.trans {env : TcpEnv} {seg : Inbound} {t t' t'' : Tcp} (h : AckedThen env seg t t')
    (hp : Path env t' t'') : AckedThen env seg t t'' := by
  obtain ⟨t₁, hack, hp₁⟩ := h
  exact ⟨t₁, hack, hp₁.trans hp⟩

theorem AckedThen.input {env : TcpEnv} {seg : Inbound} {t t' : Tcp} (h : AckedThen env seg t t') :
    Input env t t' := by
  obtain ⟨t₁, hack, hp₁⟩ := h
  exact .acked seg .refl hack hp₁

theorem acked_ackAdvance {t : Tcp} (hst : t.conn.state = .established)
    (hadv : seg.advances t.conn = true) : AckedThen env seg t (ackAdvance env seg t) := by
  refine ⟨_, Acked.data hst hadv, ?_⟩
  unfold ackAdvance
  simp only
  split_ifs with hall
  · exact (Move.stopTimer (Or.inl hall)).path
  · exact path_tcpFlushPending env _

theorem acked_establishedAck {t : Tcp} (hst : t.conn.state = .established)
    (hadv : seg.advances t.conn = true) : AckedThen env seg t (establishedAck env seg t) := by
  have hack := acked_ackAdvance env seg hst hadv
  unfold establishedAck
  rw [if_pos hadv]
  simp only
  split_ifs
  · exact hack.trans (path_runCallback env _ _)
  · exact hack

theorem input_establishedAck {t : Tcp} (hst : t.conn.state = .established) :
    Input env t (establishedAck env seg t) := by
  by_cases hadv : seg.advances t.conn = true
  · exact (acked_establishedAck env seg hst hadv).input
  · rw [establishedAck, if_neg hadv]
    exact .path .refl

theorem shape_inputEstablished {t t' : Tcp} (hst : t.conn.state = .established)
    (hp : Path env t t') (hst' : t'.conn.state = .established) :
    StepShape env e t (inputEstablished env seg t') := by
  have hdata := (input_establishedAck env seg hst').trans (path_establishedData env seg _)
  replace hdata := hdata.head hp
  unfold inputEstablished establishedFin
  split_ifs
  · exact .fin hst hdata (path_notifyClose env _)
  · exact .input hdata

theorem acked_inputSynReceived {t : Tcp} (hst : t.conn.state = .synReceived)
    (hack : seg.flags.ack = true ∧ seg.ack = t.conn.sndNxt) :
    AckedThen env seg t (inputSynReceived env seg t) := by
  refine ⟨_, Acked.passive hst hack.1 hack.2, ?_⟩
  unfold inputSynReceived
  rw [if_pos hack]
  simp only
  split_ifs
  · exact path_receiveInOrder env _ _ _
  · exact .refl

theorem input_inputSynReceived {t : Tcp} (hst : t.conn.state = .synReceived) :
    Input env t (inputSynReceived env seg t) := by
  by_cases hack : seg.flags.ack = true ∧ seg.ack = t.conn.sndNxt
  · exact (acked_inputSynReceived env seg hst hack).input
  · rw [inputSynReceived, if_neg hack]
    exact .path .refl

theorem acked_inputSynSent {t : Tcp} (hst : t.conn.state = .synSent)
    (hflags : seg.flags.syn = true ∧ seg.flags.ack = true)
    (hgt : seqGt seg.ack t.conn.sndUna = true) (hle : seqGt seg.ack t.conn.sndNxt = false) :
    AckedThen env seg t (inputSynSent env seg t) := by
  refine ⟨_, Acked.active hst hflags.1 hflags.2 hgt hle, ?_⟩
  unfold inputSynSent
  rw [if_pos hflags, if_neg (by simp [hgt, hle])]
  simp only
  split_ifs
  · exact (path_tcpAckNow env _).trans (path_runCallback env _ _)
  · exact path_tcpAckNow env _

theorem input_inputSynSent {t : Tcp} (hst : t.conn.state = .synSent) :
    Input env t (inputSynSent env seg t) := by
  by_cases hflags : seg.flags.syn = true ∧ seg.flags.ack = true
  · by_cases hbad : (!seqGt seg.ack t.conn.sndUna) = true ∨ seqGt seg.ack t.conn.sndNxt = true
    · rw [inputSynSent, if_pos hflags, if_pos hbad]
      exact .path .refl
    · push Not at hbad
      have hgt : seqGt seg.ack t.conn.sndUna = true := by simpa using hbad.1
      exact (acked_inputSynSent env seg hst hflags hgt (Bool.eq_false_iff.2 hbad.2)).input
  · rw [inputSynSent, if_neg hflags]
    exact .path .refl

theorem acked_finWaitAck {t : Tcp} (hst : t.conn.state = .finWait)
    (hadv : seg.advances t.conn = true) : AckedThen env seg t (finWaitAck seg t) := by
  refine ⟨_, Acked.fin hst hadv, ?_⟩
  unfold finWaitAck
  rw [if_pos hadv]
  simp only
  split_ifs with hall
  · exact (Move.stopTimer (Or.inr hall)).path
  · exact .refl

theorem input_finWaitAck {t : Tcp} (hst : t.conn.state = .finWait) :
    Input env t (finWaitAck seg t) := by
  by_cases hadv : seg.advances t.conn = true
  · exact (acked_finWaitAck env seg hst hadv).input
  · rw [finWaitAck, if_neg hadv]
    exact .path .refl

theorem state_finWaitAck (t : Tcp) : (finWaitAck seg t).conn.state = t.conn.state ∧
    (finWaitAck seg t).conn.beingFreed = t.conn.beingFreed := by
  unfold finWaitAck
  simp only
  split_ifs <;> exact ⟨rfl, rfl⟩

/-- What follows the acknowledgement in `FIN_WAIT`. -/
theorem path_inputFinWait {t : Tcp} (hlive : t.conn.beingFreed = false)
    (hst : t.conn.state = .finWait) : Path env (finWaitAck seg t) (inputFinWait env seg t) := by
  obtain ⟨hst', hlive'⟩ := state_finWaitAck seg t
  unfold inputFinWait
  simp only
  split_ifs
  · refine (Move.countFin (hst'.trans hst)).path.tail ?_
    exact Move.finish (hlive'.trans hlive)
  · exact .refl

theorem path_inputLastAck {t : Tcp} (hlive : t.conn.beingFreed = false) :
    Path env t (inputLastAck seg t) := by
  unfold inputLastAck
  split_ifs
  · -- destroying the connection stops the timer as well
    have heq : connDestroy (t.update fun conn =>
        { conn with retransmitTimer := false, state := .closed }) =
        connDestroy (t.update fun conn => { conn with state := .closed }) := by
      simp [connDestroy, Tcp.update, hlive]
    rw [heq]
    exact (Move.finish hlive).path
  · exact .refl

theorem shape_tcpstackInput (t : Tcp) : StepShape env e t (tcpstackInput env seg t) := by
  unfold tcpstackInput
  split_ifs with hfreed
  · exact .input (.path .refl)
  · rw [Bool.not_eq_true] at hfreed
    exact .input (.path (Move.finish hfreed).path)
  · rw [Bool.not_eq_true] at hfreed
    have hwnd : Path env t (updateSndWnd seg t) := (Move.window seg hfreed).path
    have hlive : (updateSndWnd seg t).conn.beingFreed = false := hfreed
    unfold inputState
    cases hst : (updateSndWnd seg t).conn.state with
    | synReceived => exact .input ((input_inputSynReceived env seg hst).head hwnd)
    | synSent => exact .input ((input_inputSynSent env seg hst).head hwnd)
    | established => exact shape_inputEstablished env seg hst hwnd hst
    | finWait =>
      exact .input (((input_finWaitAck env seg hst).trans
        (path_inputFinWait env seg hlive hst)).head hwnd)
    | lastAck => exact .input (.path (hwnd.trans (path_inputLastAck env seg hlive)))
    | closed => exact .input (.path hwnd)
    | closeWait => exact .input (.path hwnd)

theorem shape_retransmitCb {t : Tcp} (hrel : t.conn.released = false)
    (htimer : t.conn.retransmitTimer = true) :
    StepShape env .retransmit t (retransmitCb env t) := by
  unfold retransmitCb
  by_cases hfreed : t.conn.beingFreed = true
  · rw [if_pos hfreed]
    exact .input (.path .refl)
  · rw [if_neg hfreed]
    rw [Bool.not_eq_true] at hfreed
    show StepShape env .retransmit t (if wgTcpMaxRetransmit < t.conn.retransmitCount + 1 then
      retransmitAbort env (retransmitFired t) else resent env t)
    split_ifs with hcount
    · exact .abort rfl hfreed htimer hcount (Course.path (course_notifyAbort env _))
    · exact .resend rfl hrel hfreed htimer (not_lt.1 hcount)

end Events

/-- **What an event does**: moves with at most one acknowledgement among them, and perhaps a remote
FIN behind them; or a retransmission; or an abort. -/
theorem tcpStep_shape (t : Tcp) (e : TcpEnv × TcpEvent) : StepShape e.1 e.2 t (tcpStep t e) := by
  obtain ⟨env, e⟩ := e
  have hpath : ∀ {t'}, Path env t t' → StepShape env e t t' := fun h => .input (.path h)
  unfold tcpStep ownedStep
  by_cases hrel : t.conn.released = true
  · rw [if_pos hrel]
    exact hpath .refl
  · rw [if_neg hrel]
    cases e with
    | call a => exact hpath (Course.path (course_apiCall env t a))
    | input seg => exact shape_tcpstackInput env seg t
    | flush =>
      simp only
      split_ifs
      · exact hpath (Course.path (course_flushCheckCb env t))
      · exact hpath .refl
    | retransmit =>
      simp only
      split_ifs with htimer
      · exact shape_retransmitCb env (Bool.eq_false_iff.2 hrel) htimer
      · exact hpath .refl
    | delayedAck =>
      simp only
      split_ifs
      · exact hpath (Course.path (course_delayedAckCb env t))
      · exact hpath .refl
    | timerClose =>
      simp only
      split_ifs
      · exact hpath (Course.path (course_timerCloseCb env t))
      · exact hpath .refl

end Wgx
