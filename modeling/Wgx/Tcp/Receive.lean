import Wgx.Tcp.Frame

/-!
# The receive path delivers the stream in order

The remote peer's segments are slices of one stream whose first byte has the sequence number `irs`.

* `Ordered irs stream t`: the bytes given to `on_data` are a prefix of the stream, `rcv_nxt` stands
  behind them, and every buffered segment is a slice of the stream;
* `in_order_delivery`: this holds after every run on slices of the stream;
* `fin_after_data_iff`: when a remote FIN ends the stream after all its data.
-/

namespace Wgx

/-! ### Slices of the stream -/

/-- The bytes `data` are those of the stream from the sequence number `seq` on. -/
def Slice (irs : Seq) (stream : List Byte) (seq : Seq) (data : List Byte) : Prop :=
  ∃ off, seq = irs + BitVec.ofNat 32 off ∧ data <+: stream.drop off

variable {irs : Seq} {stream : List Byte}

theorem Slice.drop {seq : Seq} {data : List Byte} (h : Slice irs stream seq data) (k : Seq) :
    Slice irs stream (seq + k) (data.drop k.toNat) := by
  obtain ⟨off, rfl, hpre⟩ := h
  refine ⟨off + k.toNat, ?_, ?_⟩
  · rw [← Serial.add_ofNat_add, BitVec.ofNat_toNat, BitVec.setWidth_eq]
  · rw [← List.drop_drop]; exact hpre.drop _

/-- A slice at the sequence number of position `n` starts at position `n`. -/
theorem Slice.at_position (hlen : stream.length < 2 ^ 31) {n : ℕ} (hn : n ≤ stream.length)
    {data : List Byte} (h : Slice irs stream (irs + BitVec.ofNat 32 n) data) :
    data <+: stream.drop n := by
  obtain ⟨off, heq, hpre⟩ := h
  rcases data with - | ⟨b, data⟩
  · exact List.nil_prefix
  · have hoff : off < stream.length := by
      by_contra hge
      rw [List.drop_eq_nil_of_le (by omega)] at hpre
      simp at hpre
    rwa [Serial.add_ofNat_inj (by omega) (by omega) heq]

/-- A segment of the remote peer: a slice of the stream, with a FIN only at its end. -/
def SentBy (irs : Seq) (stream : List Byte) (seg : Inbound) : Prop :=
  ∃ off ≤ stream.length, seg.seq = irs + BitVec.ofNat 32 off ∧ seg.payload <+: stream.drop off ∧
    (seg.flags.fin = true → off + seg.payload.length = stream.length)

theorem SentBy.slice {seg : Inbound} (h : SentBy irs stream seg) :
    Slice irs stream seg.seq seg.payload := by
  obtain ⟨off, -, hseq, hpre, -⟩ := h
  exact ⟨off, hseq, hpre⟩

/-! ### Ordered delivery -/

/-- What was delivered is a prefix of the stream, `rcv_nxt` stands behind it, and what is buffered
are slices of the stream. -/
structure Ordered (irs : Seq) (stream : List Byte) (t : Tcp) : Prop where
  onData : t.conn.handlers.onData = true
  delivered : delivered t.trace <+: stream
  rcvNxt : t.conn.rcvNxt = irs + BitVec.ofNat 32 (Wgx.delivered t.trace).length
  held : ∀ seg ∈ t.conn.rcvOoo, Slice irs stream seg.seq seg.data

theorem Ordered.unread {t t' : Tcp} (h : Ordered irs stream t) (hq : Unread t t') :
    Ordered irs stream t' := by
  obtain ⟨es, hes, hd⟩ := hq.delivered
  have hdel : Wgx.delivered t'.trace = Wgx.delivered t.trace := by
    rw [hes, delivered_append, hd, List.append_nil]
  refine ⟨hq.onData.trans h.onData, ?_, ?_, ?_⟩
  · rw [hdel]; exact h.delivered
  · rw [hdel, hq.rcvNxt]; exact h.rcvNxt
  · rw [hq.rcvOoo]; exact h.held

theorem Ordered.quiet {t t' : Tcp} (h : Ordered irs stream t) (hq : Quiet t t') :
    Ordered irs stream t' := h.unread hq.toUnread

/-- A change of the list of buffered segments that keeps them slices of the stream. -/
theorem Ordered.setOoo {t : Tcp} (h : Ordered irs stream t) (f : Conn → Conn)
    (hnxt : (f t.conn).rcvNxt = t.conn.rcvNxt) (hh : (f t.conn).handlers = t.conn.handlers)
    (hheld : ∀ seg ∈ (f t.conn).rcvOoo, Slice irs stream seg.seq seg.data) :
    Ordered irs stream (t.update f) :=
  ⟨by rw [Tcp.update_conn, hh]; exact h.onData, h.delivered,
    by rw [Tcp.update_conn, hnxt]; exact h.rcvNxt, hheld⟩

/-- A slice at `rcv_nxt` continues what was delivered. -/
theorem Ordered.continues (hlen : stream.length < 2 ^ 31) {t : Tcp} (h : Ordered irs stream t)
    {data : List Byte} (hdata : Slice irs stream t.conn.rcvNxt data) :
    data <+: stream.drop (Wgx.delivered t.trace).length := by
  rw [h.rcvNxt] at hdata
  exact hdata.at_position hlen h.delivered.length_le

section Receive

variable (env : TcpEnv)

/-- The connection when `on_data` is called with in-order bytes. -/
def Tcp.handed (data : List Byte) (t : Tcp) : Tcp :=
  (t.update fun conn => { conn with rcvNxt := conn.rcvNxt + BitVec.ofNat 32 data.length }).log
    [.callback (.data data)]

theorem delivered_handed (data : List Byte) (t : Tcp) :
    delivered (t.handed data).trace = delivered t.trace ++ data := by
  rw [Tcp.handed, Tcp.log_trace, Tcp.update_trace, delivered_append]
  simp [delivered]

/-- Behind the call of `on_data` the receiving side stands still. -/
theorem quiet_deliver {t : Tcp} (h : t.conn.handlers.onData = true) (data : List Byte) :
    Quiet (t.handed data) (deliver env data t) := by
  unfold deliver
  simp only [Tcp.update_conn, h, if_true]
  exact quiet_foldl_apiCall env _ _

theorem delivered_deliver {t : Tcp} (h : t.conn.handlers.onData = true) (data : List Byte) :
    delivered (deliver env data t).trace = delivered t.trace ++ data := by
  obtain ⟨es, hes, hd⟩ := (quiet_deliver env h data).delivered
  rw [hes, delivered_append, hd, delivered_handed, List.append_nil]

theorem Ordered.deliver {t : Tcp} (h : Ordered irs stream t) {data : List Byte}
    (hdata : data <+: stream.drop (Wgx.delivered t.trace).length) :
    Ordered irs stream (deliver env data t) := by
  have hhanded : Ordered irs stream (t.handed data) := by
    refine ⟨h.onData, ?_, ?_, h.held⟩
    · obtain ⟨rest, hrest⟩ := h.delivered
      rw [← hrest, List.drop_left] at hdata
      rw [delivered_handed, ← hrest]
      exact (List.prefix_append_right_inj _).2 hdata
    · rw [delivered_handed, List.length_append, ← Serial.add_ofNat_add, ← h.rcvNxt]
      rfl
  exact hhanded.quiet (quiet_deliver env h.onData data)

theorem Ordered.tcpOooDrain (hlen : stream.length < 2 ^ 31) (fuel : ℕ) {t : Tcp}
    (h : Ordered irs stream t) : Ordered irs stream (tcpOooDrain env fuel t).2 := by
  induction fuel generalizing t with
  | zero => exact h
  | succ fuel ih =>
    unfold Wgx.tcpOooDrain
    split_ifs with hfreed
    · exact h
    · cases hooo : t.conn.rcvOoo with
      | nil => exact h
      | cons seg rest =>
        simp only
        split_ifs with hseq
        · exact h
        · have hseg : Slice irs stream seg.seq seg.data := h.held seg (by simp [hooo])
          have hrest : Ordered irs stream (t.update fun conn =>
              { conn with rcvOoo := rest, rcvOooLen := conn.rcvOooLen - seg.len }) :=
            h.setOoo _ rfl rfl fun o ho => h.held o (hooo ▸ List.mem_cons_of_mem seg ho)
          rw [not_not.1 hseq] at hseg
          exact ih (hrest.deliver env (h.continues hlen hseg))

theorem Ordered.receiveInOrder (hlen : stream.length < 2 ^ 31) {t : Tcp}
    (h : Ordered irs stream t) {data : List Byte}
    (hdata : data <+: stream.drop (Wgx.delivered t.trace).length) (immediate : Bool) :
    Ordered irs stream (receiveInOrder env data immediate t) :=
  ((h.deliver env hdata).tcpOooDrain env hlen _).quiet (quiet_tcpAckData env _ _ _)

/-! ### Buffered segments -/

theorem slice_oooTrimNew {start start' : Seq} {data data' : List Byte} {segs : List OooSeg}
    (h : Slice irs stream start data) (htrim : oooTrimNew start data segs = some (start', data')) :
    Slice irs stream start' data' := by
  cases segs with
  | nil => cases htrim; exact h
  | cons cur segs =>
    simp only [oooTrimNew] at htrim
    split_ifs at htrim
    · cases htrim; exact h.drop _
    · cases htrim; exact h

theorem slice_oooTrimOld (fin : Seq) {segs : List OooSeg}
    (h : ∀ seg ∈ segs, Slice irs stream seg.seq seg.data) :
    ∀ seg ∈ (oooTrimOld fin segs).1, Slice irs stream seg.seq seg.data := by
  induction segs with
  | nil => simp [oooTrimOld]
  | cons cur rest ih =>
    rw [List.forall_mem_cons] at h
    simp only [oooTrimOld]
    split_ifs
    · exact ih h.2
    · rw [List.forall_mem_cons]
      exact ⟨h.1.drop _, h.2⟩
    · exact List.forall_mem_cons.2 h

theorem slice_oooInsert {conn : Conn} {start : Seq} {data : List Byte}
    (h : ∀ seg ∈ conn.rcvOoo, Slice irs stream seg.seq seg.data)
    (hdata : Slice irs stream start data) :
    ∀ seg ∈ (oooInsert env start data conn).rcvOoo, Slice irs stream seg.seq seg.data := by
  have hbefore : ∀ seg ∈ conn.rcvOoo.takeWhile fun cur => seqLe cur.fin start,
      Slice irs stream seg.seq seg.data := fun seg hseg => h seg (List.takeWhile_subset _ hseg)
  have hbehind : ∀ seg ∈ conn.rcvOoo.dropWhile fun cur => seqLe cur.fin start,
      Slice irs stream seg.seq seg.data := fun seg hseg => h seg (List.dropWhile_subset _ hseg)
  unfold oooInsert
  simp only
  split
  next => exact h
  next start' data' htrim =>
    have hnew := slice_oooTrimNew hdata htrim
    have hkept := slice_oooTrimOld (start' + BitVec.ofNat 32 data'.length) hbehind
    split_ifs
    · exact List.forall_mem_append.2 ⟨hbefore, hkept⟩
    · exact List.forall_mem_append.2 ⟨hbefore, hkept⟩
    · exact List.forall_mem_append.2 ⟨hbefore, List.forall_mem_cons.2 ⟨hnew, hkept⟩⟩

theorem slice_tcpOooQueue {conn : Conn} {seq : Seq} {data : List Byte}
    (h : ∀ seg ∈ conn.rcvOoo, Slice irs stream seg.seq seg.data)
    (hdata : Slice irs stream seq data) :
    ∀ seg ∈ (tcpOooQueue env seq data conn).rcvOoo, Slice irs stream seg.seq seg.data := by
  unfold tcpOooQueue
  split_ifs
  · exact h
  · exact h
  · exact slice_oooInsert env h (hdata.drop _)
  · exact slice_oooInsert env h hdata

/-! ### The state machine -/

theorem Ordered.establishedData (hlen : stream.length < 2 ^ 31) {seg : Inbound}
    (hseg : SentBy irs stream seg) {t : Tcp} (h : Ordered irs stream t) :
    Ordered irs stream (establishedData env seg t) := by
  unfold Wgx.establishedData
  simp only
  split_ifs with hnil hseq hgt hlt halready
  · exact h
  · exact h.receiveInOrder env hlen (h.continues hlen (hseq ▸ hseg.slice)) _
  · refine (h.setOoo _ ?_ ?_ ?_).quiet (quiet_tcpAckNow env _)
    · rw [tcpOooQueue_frame]
    · rw [tcpOooQueue_frame]
    · exact slice_tcpOooQueue env h.held hseg.slice
  · -- the old front of the payload ends where `rcv_nxt` stands
    have hdrop := hseg.slice.drop (t.conn.rcvNxt - seg.seq)
    rw [BitVec.add_comm seg.seq, BitVec.sub_add_cancel] at hdrop
    exact h.receiveInOrder env hlen (h.continues hlen hdrop) _
  · exact h.quiet (quiet_tcpAckNow env _)
  · exact h

theorem Ordered.tcpstackInput (hlen : stream.length < 2 ^ 31) {seg : Inbound}
    (hseg : SentBy irs stream seg) (hfin : seg.flags.fin = false) {t : Tcp} (hs : Settled t)
    (h : Ordered irs stream t) : Ordered irs stream (tcpstackInput env seg t) := by
  unfold Wgx.tcpstackInput
  split_ifs
  · exact h
  · exact h.quiet (quiet_reset t)
  · replace h := h.quiet (quiet_updateSndWnd seg t)
    replace hs := (quiet_updateSndWnd seg t).toCalm.settled hs
    unfold inputState
    cases hst : (updateSndWnd seg t).conn.state with
    | synReceived => simp [Settled, hst, TcpState.ending] at hs
    | synSent => simp [Settled, hst, TcpState.ending] at hs
    | established =>
      rw [inputEstablished, establishedFin_of_not env hfin]
      exact (h.quiet (quiet_establishedAck env seg _)).establishedData env hlen hseg
    | finWait => simpa [inputFinWait, hfin] using h.quiet (quiet_finWaitAck seg _)
    | lastAck => exact h.quiet (quiet_inputLastAck seg _)
    | closed => exact h
    | closeWait => exact h

theorem Ordered.timerCloseCb {t : Tcp} (h : Ordered irs stream t) :
    Ordered irs stream (timerCloseCb env t) := by
  have hcount : Ordered irs stream
      (t.update fun conn => { conn with closePending := conn.closePending - 1 }) := { h with }
  unfold Wgx.timerCloseCb
  simp only
  split_ifs
  · exact hcount
  · exact (hcount.unread (unread_notifyClose env _)).setOoo _ rfl rfl (by simp)

end Receive

/-! ### Runs -/

/-- The segments of an event are the remote peer's. -/
def TcpEvent.SentBy (irs : Seq) (stream : List Byte) : TcpEvent → Prop
  | .input seg => Wgx.SentBy irs stream seg
  | _ => True

theorem Ordered.tcpStep (hlen : stream.length < 2 ^ 31) {t : Tcp} (hs : Settled t)
    {e : TcpEnv × TcpEvent} (he : e.2.SentBy irs stream) (hfin : e.2.noFin = true)
    (h : Ordered irs stream t) : Ordered irs stream (tcpStep t e) := by
  obtain ⟨env, e⟩ := e
  refine tcpStep_cases h (fun a _ => h.quiet (quiet_apiCall env t a)) ?_
    (h.quiet (quiet_flushCheckCb env t)) (fun _ => h.unread (retransmitCb_spec env t).1)
    (h.quiet (quiet_delayedAckCb env t)) (fun _ => h.timerCloseCb env)
  rintro seg rfl
  exact h.tcpstackInput env hlen he (by simpa [TcpEvent.noFin] using hfin) hs

/-- A connection that has just been established: nothing received, the next byte expected is the
first of the stream. -/
structure Receiving (irs : Seq) (t : Tcp) : Prop where
  state : t.conn.state = .established
  rcvNxt : t.conn.rcvNxt = irs
  rcvOoo : t.conn.rcvOoo = []
  onData : t.conn.handlers.onData = true
  delivered : delivered t.trace = []
  live : t.conn.beingFreed = false ∧ t.conn.closeNotified = false ∧ t.conn.closePending = 0 ∧
    t.conn.released = false

theorem Receiving.ordered {t : Tcp} (h : Receiving irs t) (stream : List Byte) :
    Ordered irs stream t :=
  ⟨h.onData, by rw [h.delivered]; exact List.nil_prefix,
    by rw [h.delivered, h.rcvNxt]; simp, by simp [h.rcvOoo]⟩

theorem Receiving.settled {t : Tcp} (h : Receiving irs t) : Settled t := .inl ⟨h.state, h.live⟩

/-- **In-order delivery.**  Whatever slices of the stream arrive, in whatever order, and whatever
else happens to the connection: the bytes given to `on_data` are a prefix of the stream, and
`rcv_nxt` is the sequence number behind them. -/
theorem in_order_delivery {t : Tcp} (hlen : stream.length < 2 ^ 31) (h0 : Receiving irs t)
    {es : List (TcpEnv × TcpEvent)}
    (hes : ∀ e ∈ es, e.2.SentBy irs stream ∧ e.2.noFin = true) :
    delivered (Machine.run tcpStep t es).trace <+: stream ∧
      (Machine.run tcpStep t es).conn.rcvNxt =
        irs + BitVec.ofNat 32 (delivered (Machine.run tcpStep t es).trace).length := by
  have hstep : ∀ (s : Tcp) (e : TcpEnv × TcpEvent), Settled s ∧ Ordered irs stream s →
      e.2.SentBy irs stream ∧ e.2.noFin = true →
      Settled (tcpStep s e) ∧ Ordered irs stream (tcpStep s e) :=
    fun s e hs he => ⟨hs.1.tcpStep e, hs.2.tcpStep hlen hs.1 he.1 he.2⟩
  have hinv := Machine.run_induction tcpStep hstep ⟨h0.settled, h0.ordered stream⟩
    (Machine.guarded_of_forall tcpStep hes t)
  exact ⟨hinv.2.delivered, hinv.2.rcvNxt⟩

/-- Four bytes whose sequence numbers wrap around between the second and the third. -/
def wrapStream : List Byte := [1, 2, 3, 4]

/-- A data segment of `wrapStream` from position `off` on. -/
def wrapSegment (off len : ℕ) (fin : Bool) : Inbound :=
  ⟨{ ack := true, fin := fin }, 0xfffffffe#32 + BitVec.ofNat 32 off, 1, 100, [],
    (wrapStream.drop off).take len⟩

theorem receiving_exampleConn : Receiving 0xfffffffe exampleConn :=
  ⟨by decide, by decide, by decide, by decide, by decide, by decide, by decide, by decide,
    by decide⟩

theorem sentBy_wrapSegment (off len : ℕ) (hoff : off ≤ 4) :
    SentBy 0xfffffffe wrapStream (wrapSegment off len false) :=
  ⟨off, hoff, rfl, List.take_prefix _ _, fun h => by cases h⟩

/-- The second half arrives first. -/
def wrapRun : List (TcpEnv × TcpEvent) :=
  [(exampleEnv, .input (wrapSegment 2 2 false)), (exampleEnv, .input (wrapSegment 0 2 false))]

theorem in_order_delivery_wrap :
    (delivered (Machine.run tcpStep exampleConn wrapRun).trace <+: wrapStream ∧
      (Machine.run tcpStep exampleConn wrapRun).conn.rcvNxt = 0xfffffffe +
        BitVec.ofNat 32 (delivered (Machine.run tcpStep exampleConn wrapRun).trace).length) ∧
    delivered (Machine.run tcpStep exampleConn wrapRun).trace = wrapStream := by
  refine ⟨in_order_delivery (by decide) receiving_exampleConn ?_, by decide⟩
  simp only [wrapRun, List.forall_mem_cons, List.not_mem_nil, false_imp_iff, implies_true,
    and_true]
  exact ⟨⟨sentBy_wrapSegment 2 2 (by decide), rfl⟩, ⟨sentBy_wrapSegment 0 2 (by decide), rfl⟩⟩

/-! ### The end of the stream -/

/-- In every established state of a run on the remote peer's segments, delivery is in order. -/
theorem ordered_run (hlen : stream.length < 2 ^ 31) {t : Tcp} (h0 : Receiving irs t)
    {es : List (TcpEnv × TcpEvent)} (hes : ∀ e ∈ es, e.2.SentBy irs stream) :
    Settled (Machine.run tcpStep t es) ∧
      ((Machine.run tcpStep t es).conn.state = .established →
        Ordered irs stream (Machine.run tcpStep t es)) := by
  have hstep : ∀ (s : Tcp) (e : TcpEnv × TcpEvent),
      Settled s ∧ (s.conn.state = .established → Ordered irs stream s) →
      e.2.SentBy irs stream →
      Settled (tcpStep s e) ∧
        ((tcpStep s e).conn.state = .established → Ordered irs stream (tcpStep s e)) := by
    intro s e hs he
    refine ⟨hs.1.tcpStep e, fun hst => ?_⟩
    obtain ⟨hest, hfin⟩ := noFin_of_established hs.1 hst
    exact (hs.2 hest).tcpStep hlen hs.1 he hfin
  exact Machine.run_induction tcpStep hstep ⟨h0.settled, fun _ => h0.ordered stream⟩
    (Machine.guarded_of_forall tcpStep hes t)

/-- A connection that a FIN ended: `on_close` was called when the whole stream had been given to
`on_data`, and `rcv_nxt` stands behind the FIN. -/
def EndsAfterData (stream : List Byte) (seg : Inbound) (t t' : Tcp) : Prop :=
  (∃ es es', t'.trace = t.trace ++ es ++ .callback .close :: es' ∧
    delivered (t.trace ++ es) = stream) ∧
  t'.conn.rcvNxt = seg.seq + BitVec.ofNat 32 seg.payload.length + 1

section Fin

variable (env : TcpEnv)

theorem trace_takeFin (t : Tcp) :
    ∃ es, (takeFin env t).trace = t.trace ++ es ∧ delivered es = [] :=
  ⟨_, by rw [takeFin, sendSegment, Tcp.log_trace, Tcp.update_trace, Tcp.log_trace,
    List.append_assoc], rfl⟩

/-- The notification calls `on_close` first. -/
theorem trace_notifyClose {t : Tcp} (hclose : t.conn.handlers.onClose = true)
    (hn : t.conn.closeNotified = false) :
    ∃ es, (notifyClose env t).trace = t.trace ++ .callback .close :: es := by
  simp only [notifyClose, hn, Tcp.update_conn, hclose, if_true, Bool.false_eq_true, if_false,
    runCallback]
  obtain ⟨es, hes⟩ := (quiet_foldl_apiCall env (env.calls .close _) _).toCalm.trace
  exact ⟨es, by rw [hes, Tcp.log_trace, Tcp.update_trace, List.append_assoc]; rfl⟩

theorem establishedFin_spec {seg : Inbound} (hfin : seg.flags.fin = true) {t : Tcp}
    (hclose : t.conn.handlers.onClose = true) (hn : t.conn.closeNotified = false) :
    (∃ es es', (establishedFin env seg t).trace = t.trace ++ es ++ .callback .close :: es' ∧
      delivered es = []) ∧ (establishedFin env seg t).conn.rcvNxt = t.conn.rcvNxt + 1 := by
  rw [establishedFin, if_pos hfin]
  obtain ⟨es, hes, hd⟩ := trace_takeFin env t
  obtain ⟨es', hes'⟩ := trace_notifyClose env (t := takeFin env t) hclose hn
  have hq : Quiet (notifyClose env (takeFin env t))
      (sendFin env .lastAck (notifyClose env (takeFin env t))) := quiet_sendFin env rfl _
  obtain ⟨es'', hes''⟩ := hq.toCalm.trace
  refine ⟨⟨es, es' ++ es'', ?_, hd⟩, ?_⟩
  · rw [hes'', hes', hes, List.append_assoc _ (_ :: es'), List.cons_append]
  · rw [hq.rcvNxt, (unread_notifyClose env _).rcvNxt]
    rfl

theorem delivered_receiveInOrder {t : Tcp} (h : t.conn.handlers.onData = true) (data : List Byte)
    (immediate : Bool) :
    (delivered t.trace).length + data.length ≤
      (delivered (receiveInOrder env data immediate t).trace).length := by
  have hrest : Calm (deliver env data t) (receiveInOrder env data immediate t) :=
    (calm_tcpOooDrain env _ _).trans (quiet_tcpAckData env _ _ _).toCalm
  rw [← List.length_append, ← delivered_deliver env h]
  exact hrest.delivered_le

/-- A segment with FIN that is not ahead of `rcv_nxt` completes the stream. -/
theorem delivered_establishedData (hlen : stream.length < 2 ^ 31) {seg : Inbound}
    (hseg : SentBy irs stream seg) (hfin : seg.flags.fin = true) {t : Tcp}
    (h : Ordered irs stream t) (hle : seqLe seg.seq t.conn.rcvNxt = true) :
    delivered (establishedData env seg t).trace = stream := by
  have hord := h.establishedData env hlen hseg
  obtain ⟨off, hoff, hseq, -, hend⟩ := hseg
  have hn := h.delivered.length_le
  rw [hseq, h.rcvNxt, seqLe_iff (by omega) (by omega)] at hle
  have hend := hend hfin
  refine hord.delivered.eq_of_length_le ?_
  unfold establishedData
  simp only [hseq, h.rcvNxt]
  split_ifs with hnil heq hgt hlt halready
  · omega
  · have hlow := delivered_receiveInOrder env h.onData seg.payload false
    have hpos := Serial.add_ofNat_inj (by omega) (by omega) heq
    omega
  · rw [seqGt_iff (by omega) (by omega)] at hgt
    omega
  · -- the payload reaches from before `rcv_nxt` to the end of the stream
    rw [Serial.toNat_sub hle (by omega)] at halready ⊢
    have hlow := delivered_receiveInOrder env h.onData
      (seg.payload.drop ((delivered t.trace).length - off)) true
    rw [List.length_drop] at hlow
    omega
  · rw [Serial.toNat_sub hle (by omega)] at halready
    exact le_trans (by omega) (quiet_tcpAckNow env t).toCalm.delivered_le
  · rw [seqLt_iff (by omega) (by omega)] at hlt
    have hpos : off = (delivered t.trace).length := by omega
    exact absurd (by rw [hpos]) heq

/-- A segment ahead of `rcv_nxt` delivers nothing. -/
theorem rcvNxt_establishedData {seg : Inbound} {t : Tcp}
    (hgt : seqGt seg.seq t.conn.rcvNxt = true) :
    (establishedData env seg t).conn.rcvNxt = t.conn.rcvNxt := by
  have hne : seg.seq ≠ t.conn.rcvNxt := by
    intro heq
    simp [seqGt, heq] at hgt
  unfold establishedData
  simp only [hne, hgt, if_true, if_false]
  split_ifs
  · rfl
  · rw [(quiet_tcpAckNow env _).rcvNxt, Tcp.update_conn, tcpOooQueue_frame]

/-- **A remote FIN ends the stream after all its data exactly if its segment is not ahead of
`rcv_nxt`.**  In every established state of a run on the remote peer's segments, a segment with the
FIN of the stream makes the stack call `on_close` after the whole stream was delivered, and leaves
`rcv_nxt` behind the FIN, if and only if the segment starts at or before `rcv_nxt`. -/
theorem fin_after_data_iff {t : Tcp} (hlen : stream.length < 2 ^ 31) (h0 : Receiving irs t)
    (es : List (TcpEnv × TcpEvent)) (hes : ∀ e ∈ es, e.2.SentBy irs stream)
    (hst : (Machine.run tcpStep t es).conn.state = .established)
    (hclose : (Machine.run tcpStep t es).conn.handlers.onClose = true) {seg : Inbound}
    (hseg : SentBy irs stream seg) (hfin : seg.flags.fin = true) (hrst : seg.flags.rst = false) :
    EndsAfterData stream seg (Machine.run tcpStep t es)
        (tcpStep (Machine.run tcpStep t es) (env, .input seg)) ↔
      seqLe seg.seq (Machine.run tcpStep t es).conn.rcvNxt = true := by
  obtain ⟨hs, hord⟩ := ordered_run hlen h0 hes
  generalize Machine.run tcpStep t es = u at *
  have hord := hord hst
  rw [tcpStep_input env hrst hs hst]
  -- the connection when the data of the segment is handled
  set v := establishedAck env seg (updateSndWnd seg u) with hv
  have hq : Quiet u v := (quiet_updateSndWnd seg u).trans (quiet_establishedAck env seg _)
  have hcalm : Calm u (establishedData env seg v) := hq.toCalm.trans (calm_establishedData env seg v)
  have hnot : u.conn.closeNotified = false := by
    rcases hs with hs | hend
    · exact hs.2.2.1
    · exact absurd hst (ne_established_of_ending hend)
  obtain ⟨⟨es₁, es₂, htrace, hd⟩, hnxt⟩ := establishedFin_spec env hfin
    (t := establishedData env seg v) (hcalm.onClose.trans hclose) (hcalm.closeNotified.trans hnot)
  have hordv := hord.quiet hq
  have hord' := hordv.establishedData env hlen hseg
  have hseg' := hseg
  obtain ⟨off, hoff, hseq, -, hlast⟩ := hseg
  have hlast := hlast hfin
  have hn := hord.delivered.length_le
  rw [inputEstablished, ← hv]
  constructor
  · rintro ⟨-, hend⟩
    by_contra hahead
    rw [hseq, hord.rcvNxt, seqLe_iff (by omega) (by omega)] at hahead
    have hgt : seqGt seg.seq v.conn.rcvNxt = true := by
      rw [hq.rcvNxt, hseq, hord.rcvNxt, seqGt_iff (by omega) (by omega)]
      omega
    rw [hnxt, rcvNxt_establishedData env hgt, hq.rcvNxt, BitVec.add_left_inj, hord.rcvNxt, hseq,
      Serial.add_ofNat_add] at hend
    have hpos := Serial.add_ofNat_inj (by omega) (by omega) hend
    omega
  · intro hle
    have hall := delivered_establishedData env hlen hseg' hfin hordv (hq.rcvNxt ▸ hle)
    obtain ⟨es₀, hes₀⟩ := hcalm.trace
    refine ⟨⟨es₀ ++ es₁, es₂, ?_, ?_⟩, ?_⟩
    · rw [htrace, hes₀, List.append_assoc u.trace]
    · rw [← List.append_assoc, ← hes₀, delivered_append, hd, hall, List.append_nil]
    · rw [hnxt, hord'.rcvNxt, hall, hseq, Serial.add_ofNat_add, hlast]

end Fin

theorem fin_after_data_iff_wrap :
    EndsAfterData wrapStream (wrapSegment 0 4 true) exampleConn
        (tcpStep exampleConn (exampleEnv, .input (wrapSegment 0 4 true))) ↔
      seqLe (wrapSegment 0 4 true).seq exampleConn.conn.rcvNxt = true :=
  fin_after_data_iff exampleEnv (by decide) receiving_exampleConn [] (by simp) (by decide)
    (by decide) ⟨0, by decide, rfl, List.take_prefix _ _, fun _ => rfl⟩ rfl rfl

/-- The FIN arrives while the first two bytes are missing: the stack calls `on_close` with nothing
delivered, and counts the FIN at the place of the first byte. -/
theorem fin_ahead_ends_early :
    ¬ EndsAfterData wrapStream (wrapSegment 2 2 true) exampleConn
        (tcpStep exampleConn (exampleEnv, .input (wrapSegment 2 2 true))) ∧
    (tcpStep exampleConn (exampleEnv, .input (wrapSegment 2 2 true))).conn.state = .lastAck ∧
    (tcpStep exampleConn (exampleEnv, .input (wrapSegment 2 2 true))).conn.closeNotified = true ∧
    delivered (tcpStep exampleConn (exampleEnv, .input (wrapSegment 2 2 true))).trace = [] := by
  refine ⟨fun h => absurd h.2 ?_, by decide, by decide, by decide⟩
  decide

end Wgx
