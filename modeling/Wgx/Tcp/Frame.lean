import Wgx.Tcp.Input

/-!
# What the functions of a TCP connection leave alone

* `Unread t t'`: nothing was received or delivered;
* `Calm t t'`: the owner was not notified of the end, the connection stayed in its state or is
  ending;
* `Quiet t t'`: both, as for everything the owner can call and the whole sending side;
* `Settled`: from `ESTABLISHED` on a connection only moves towards its end
  (`tcpStep_calm_or_ending`).
-/

namespace Wgx

/-- The bytes given to `on_data`, in order. -/
def delivered : List Entry → List Byte
  | [] => []
  | .callback (.data data) :: es => data ++ delivered es
  | _ :: es => delivered es

theorem delivered_append (es es' : List Entry) :
    delivered (es ++ es') = delivered es ++ delivered es' := by
  induction es with
  | nil => rfl
  | cons e es ih =>
    cases e with
    | callback cb => cases cb <;> simp [delivered, ih]
    | _ => simp [delivered, ih]

@[simp] theorem delivered_segments (segs : List Segment) :
    delivered (segs.map .segment) = [] := by
  induction segs with
  | nil => rfl
  | cons seg segs ih => simpa [delivered] using ih

/-- Between `t` and `t'` nothing was received or delivered. -/
structure Unread (t t' : Tcp) : Prop where
  onData : t'.conn.handlers.onData = t.conn.handlers.onData
  rcvNxt : t'.conn.rcvNxt = t.conn.rcvNxt
  rcvOoo : t'.conn.rcvOoo = t.conn.rcvOoo
  delivered : ∃ es, t'.trace = t.trace ++ es ∧ delivered es = []

/-- Between `t` and `t'` the owner was not notified of the end, and the connection stayed in its
state or is ending; in `ESTABLISHED` it is not freed. -/
structure Calm (t t' : Tcp) : Prop where
  onClose : t'.conn.handlers.onClose = t.conn.handlers.onClose
  closeNotified : t'.conn.closeNotified = t.conn.closeNotified
  released : t'.conn.released = t.conn.released
  state : t'.conn.state = t.conn.state ∨ t'.conn.state.ending = true
  live : t'.conn.state = .established →
    t'.conn.beingFreed = t.conn.beingFreed ∧ t'.conn.closePending = t.conn.closePending
  trace : ∃ es, t'.trace = t.trace ++ es

/-- What the sending side and the owner's calls do. -/
structure Quiet (t t' : Tcp) : Prop extends Unread t t', Calm t t'

theorem Unread.refl (t : Tcp) : Unread t t := ⟨rfl, rfl, rfl, [], by simp, rfl⟩

theorem Unread.trans {t t' t'' : Tcp} (h : Unread t t') (h' : Unread t' t'') : Unread t t'' := by
  obtain ⟨es, hes, hd⟩ := h.delivered
  obtain ⟨es', hes', hd'⟩ := h'.delivered
  refine ⟨h'.onData.trans h.onData, h'.rcvNxt.trans h.rcvNxt, h'.rcvOoo.trans h.rcvOoo,
    es ++ es', ?_, ?_⟩
  · rw [hes', hes, List.append_assoc]
  · rw [delivered_append, hd, hd']; rfl

theorem Calm.refl (t : Tcp) : Calm t t := ⟨rfl, rfl, rfl, .inl rfl, fun _ => ⟨rfl, rfl⟩, [], by simp⟩

theorem Calm.trans {t t' t'' : Tcp} (h : Calm t t') (h' : Calm t' t'') : Calm t t'' := by
  refine ⟨h'.onClose.trans h.onClose, h'.closeNotified.trans h.closeNotified,
    h'.released.trans h.released, ?_, ?_, ?_⟩
  · rcases h'.state with hst | hst
    · rw [hst]; exact h.state
    · exact .inr hst
  · intro hest
    have hest' : t'.conn.state = .established := by
      rcases h'.state with hst | hst
      · exact hst ▸ hest
      · rw [hest] at hst; cases hst
    obtain ⟨hf, hp⟩ := h.live hest'
    obtain ⟨hf', hp'⟩ := h'.live hest
    exact ⟨hf'.trans hf, hp'.trans hp⟩
  · obtain ⟨es, hes⟩ := h.trace
    obtain ⟨es', hes'⟩ := h'.trace
    exact ⟨es ++ es', by rw [hes', hes, List.append_assoc]⟩

theorem Quiet.refl (t : Tcp) : Quiet t t := ⟨Unread.refl t, Calm.refl t⟩

theorem Quiet.trans {t t' t'' : Tcp} (h : Quiet t t') (h' : Quiet t' t'') : Quiet t t'' :=
  ⟨h.toUnread.trans h'.toUnread, h.toCalm.trans h'.toCalm⟩

/-- Steps that only write fields of the sending side, and log. -/
theorem quiet_of_eq {t t' : Tcp} (hstate : t'.conn.state = t.conn.state)
    (hhandlers : t'.conn.handlers = t.conn.handlers) (hnxt : t'.conn.rcvNxt = t.conn.rcvNxt)
    (hooo : t'.conn.rcvOoo = t.conn.rcvOoo)
    (hnotified : t'.conn.closeNotified = t.conn.closeNotified)
    (hreleased : t'.conn.released = t.conn.released)
    (hfreed : t'.conn.beingFreed = t.conn.beingFreed)
    (hpending : t'.conn.closePending = t.conn.closePending) {es : List Entry}
    (htrace : t'.trace = t.trace ++ es) (hes : delivered es = []) : Quiet t t' :=
  ⟨⟨by rw [hhandlers], hnxt, hooo, es, htrace, hes⟩,
    ⟨by rw [hhandlers], hnotified, hreleased, .inl hstate, fun _ => ⟨hfreed, hpending⟩, es,
      htrace⟩⟩

theorem quiet_log (t : Tcp) {es : List Entry} (hes : delivered es = []) : Quiet t (t.log es) :=
  quiet_of_eq rfl rfl rfl rfl rfl rfl rfl rfl rfl hes

theorem Calm.delivered_le {t t' : Tcp} (h : Calm t t') :
    (delivered t.trace).length ≤ (delivered t'.trace).length := by
  obtain ⟨es, hes⟩ := h.trace
  rw [hes, delivered_append, List.length_append]
  exact Nat.le_add_right _ _

section Frame

variable (env : TcpEnv)

/-! ### The owner's calls -/

theorem quiet_sendSegment (flags : Flags) (seq ack : Seq) (data : List Byte) (t : Tcp) :
    Quiet t (sendSegment env flags seq ack data t) :=
  quiet_log t rfl

theorem quiet_tcpFlushPending (t : Tcp) : Quiet t (tcpFlushPending env t) := by
  unfold tcpFlushPending
  simp only
  split_ifs
  · exact Quiet.refl t
  · exact quiet_of_eq rfl rfl rfl rfl rfl rfl rfl rfl rfl (delivered_segments _)
  · exact quiet_of_eq rfl rfl rfl rfl rfl rfl rfl rfl rfl (delivered_segments _)

theorem quiet_scheduleFlush (t : Tcp) : Quiet t (scheduleFlush t) := by
  unfold scheduleFlush
  split_ifs
  · exact Quiet.refl t
  · exact { Quiet.refl t with }

theorem quiet_tcpAckNow (t : Tcp) : Quiet t (tcpAckNow env t) := by
  unfold tcpAckNow
  split_ifs
  · exact Quiet.refl t
  · exact quiet_of_eq rfl rfl rfl rfl rfl rfl rfl rfl rfl rfl

theorem quiet_tcpAckData (len : ℕ) (immediate : Bool) (t : Tcp) :
    Quiet t (tcpAckData env len immediate t) := by
  have hcount : ∀ t : Tcp, Quiet t (t.update fun conn => { conn with
      delayedAckSegments := conn.delayedAckSegments + 1
      delayedAckBytes := conn.delayedAckBytes + len }) := fun t => { Quiet.refl t with }
  unfold tcpAckData
  simp only
  split_ifs
  · exact Quiet.refl t
  · exact quiet_tcpAckNow env t
  · exact (hcount t).trans (quiet_tcpAckNow env _)
  · exact { Quiet.refl t with }
  · exact hcount t

/-- Only connections outside `ESTABLISHED` are destroyed. -/
theorem quiet_connDestroy {t : Tcp} (hst : t.conn.state ≠ .established) :
    Quiet t (connDestroy t) := by
  unfold connDestroy
  split_ifs
  · exact Quiet.refl t
  · exact ⟨{ Unread.refl t with }, ⟨rfl, rfl, rfl, .inl rfl, fun h => absurd h hst, [], by simp⟩⟩

theorem quiet_tcpSend (data : List Byte) (t : Tcp) : Quiet t (tcpSend env data t).2 := by
  unfold tcpSend
  split_ifs
  iterate 5 exact Quiet.refl t
  cases hg : sendbufGrow env t.conn (t.conn.sendbufLen + data.length) with
  | none => exact Quiet.refl t
  | some grown =>
    have happ : Quiet t ((t.update fun _ => sendbufAppend grown data).log [.accepted data]) := by
      unfold sendbufGrow at hg
      simp only at hg
      split_ifs at hg <;> cases hg <;>
        exact quiet_of_eq rfl rfl rfl rfl rfl rfl rfl rfl rfl rfl
    simp only
    split_ifs
    · exact happ.trans (quiet_tcpFlushPending env _)
    · exact happ.trans (quiet_scheduleFlush _)

/-- Entering a state behind `ESTABLISHED`. -/
theorem calm_ending {t t' : Tcp} (hst : t'.conn.state.ending = true)
    (hh : t'.conn.handlers = t.conn.handlers)
    (hn : t'.conn.closeNotified = t.conn.closeNotified)
    (hr : t'.conn.released = t.conn.released) {es : List Entry}
    (htrace : t'.trace = t.trace ++ es) : Calm t t' :=
  ⟨by rw [hh], hn, hr, .inr hst, fun h => by simp [h, TcpState.ending] at hst, es, htrace⟩

theorem quiet_sendFin {state : TcpState} (hst : state.ending = true) (t : Tcp) :
    Quiet t (sendFin env state t) :=
  ⟨⟨rfl, rfl, rfl, _, rfl, rfl⟩, calm_ending hst rfl rfl rfl rfl⟩

/-- `conn->state = TCPS_CLOSED`. -/
theorem quiet_setClosed (t : Tcp) :
    Quiet t (t.update fun conn => { conn with state := .closed }) :=
  ⟨{ Unread.refl t with }, calm_ending rfl rfl rfl rfl (t.trace.append_nil).symm⟩

theorem quiet_tcpClose (t : Tcp) : Quiet t (tcpClose env t) := by
  unfold tcpClose
  split_ifs
  · exact Quiet.refl t
  · cases hst : t.conn.state with
    | established => exact quiet_sendFin env rfl t
    | closeWait => exact quiet_sendFin env rfl t
    | synSent =>
      refine Quiet.trans ?_ (quiet_connDestroy (by simp [sendSegment]))
      exact (quiet_setClosed t).trans (quiet_sendSegment env _ _ _ _ _)
    | _ => exact quiet_connDestroy (by rw [hst]; decide)

theorem quiet_tcpUpdateRecvWindow (t : Tcp) : Quiet t (tcpUpdateRecvWindow env t) := by
  unfold tcpUpdateRecvWindow
  split_ifs
  · exact Quiet.refl t
  · exact quiet_tcpAckNow env t

theorem quiet_tcpSetRecvWindowCb (set : Bool) (t : Tcp) : Quiet t (tcpSetRecvWindowCb set t) := by
  unfold tcpSetRecvWindowCb
  split_ifs
  · exact Quiet.refl t
  · exact { Quiet.refl t with }

theorem quiet_apiCall (t : Tcp) (a : ApiCall) : Quiet t (apiCall env t a) := by
  have hlog : Quiet t (t.log [.call a t.conn]) := quiet_log t rfl
  cases a with
  | send data => exact hlog.trans (quiet_tcpSend env data _)
  | close => exact hlog.trans (quiet_tcpClose env _)
  | updateRecvWindow => exact hlog.trans (quiet_tcpUpdateRecvWindow env _)
  | setRecvWindowCb set => exact hlog.trans (quiet_tcpSetRecvWindowCb set _)
  | setWriteable set => exact hlog.trans { Quiet.refl _ with }

theorem quiet_foldl_apiCall (calls : List ApiCall) (t : Tcp) :
    Quiet t (calls.foldl (apiCall env) t) := by
  induction calls generalizing t with
  | nil => exact Quiet.refl t
  | cons a calls ih => exact (quiet_apiCall env t a).trans (ih _)

/-- A callback other than `on_data` delivers nothing, whatever it calls. -/
theorem quiet_runCallback {cb : Callback} (hcb : delivered [.callback cb] = []) (t : Tcp) :
    Quiet t (runCallback env cb t) :=
  (quiet_log t hcb).trans (quiet_foldl_apiCall env _ _)

theorem calm_runCallback (cb : Callback) (t : Tcp) : Calm t (runCallback env cb t) := by
  refine Calm.trans ?_ (quiet_foldl_apiCall env _ (t.log [.callback cb])).toCalm
  exact { Calm.refl t with trace := ⟨_, rfl⟩ }

/-! ### Acknowledgements and data -/

theorem oooInsert_frame (start : Seq) (data : List Byte) (conn : Conn) :
    oooInsert env start data conn = { conn with
      rcvOoo := (oooInsert env start data conn).rcvOoo
      rcvOooLen := (oooInsert env start data conn).rcvOooLen } := by
  unfold oooInsert
  simp only
  split
  · rfl
  · split_ifs <;> rfl

/-- The queue changes nothing but the list and its length. -/
theorem tcpOooQueue_frame (seq : Seq) (data : List Byte) (conn : Conn) :
    tcpOooQueue env seq data conn = { conn with
      rcvOoo := (tcpOooQueue env seq data conn).rcvOoo
      rcvOooLen := (tcpOooQueue env seq data conn).rcvOooLen } := by
  unfold tcpOooQueue
  split_ifs
  · rfl
  · rfl
  · exact oooInsert_frame env _ _ conn
  · exact oooInsert_frame env _ _ conn

/-- Growing the ring changes nothing but the ring. -/
theorem sendbufGrow_frame {env : TcpEnv} {conn grown : Conn} {need : ℕ}
    (hgrow : sendbufGrow env conn need = some grown) :
    grown = { conn with
      sendbuf := grown.sendbuf
      sendbufCap := grown.sendbufCap
      sendbufHead := grown.sendbufHead } := by
  unfold sendbufGrow at hgrow
  by_cases hroom : need ≤ conn.sendbufCap
  · rw [if_pos hroom] at hgrow
    cases hgrow
    rfl
  · rw [if_neg hroom] at hgrow
    simp only at hgrow
    generalize growCap need 18 _ = cap at hgrow
    generalize (if cap > wgTcpSendbufSize then wgTcpSendbufSize else cap) = newCap at hgrow
    split_ifs at hgrow
    cases hgrow
    rfl

theorem sendbufConsume_frame (conn : Conn) (len : ℕ) :
    sendbufConsume conn len = { conn with
      sendbufHead := (sendbufConsume conn len).sendbufHead
      sendbufLen := (sendbufConsume conn len).sendbufLen } := by
  unfold sendbufConsume
  split_ifs <;> rfl

theorem quiet_ackAdvance (seg : Inbound) (t : Tcp) : Quiet t (ackAdvance env seg t) := by
  have hconsume : Quiet t (t.update fun conn =>
      { (if (seg.ack - t.conn.sndUna).toNat ≤ conn.sendbufLen then
          sendbufConsume conn (seg.ack - t.conn.sndUna).toNat else conn) with
        sndUna := seg.ack }) := by
    simp only [Tcp.update]
    split_ifs
    · rw [sendbufConsume_frame]; exact { Quiet.refl t with }
    · exact { Quiet.refl t with }
  unfold ackAdvance
  simp only
  split_ifs
  · exact hconsume.trans { Quiet.refl _ with }
  · exact hconsume.trans (quiet_tcpFlushPending env _)

theorem quiet_establishedAck (seg : Inbound) (t : Tcp) : Quiet t (establishedAck env seg t) := by
  unfold establishedAck
  simp only
  split_ifs
  · exact (quiet_ackAdvance env seg t).trans (quiet_runCallback env rfl _)
  · exact quiet_ackAdvance env seg t
  · exact Quiet.refl t

theorem calm_deliver (data : List Byte) (t : Tcp) : Calm t (deliver env data t) := by
  unfold deliver
  simp only
  split_ifs
  · refine Calm.trans ?_ (calm_runCallback env _ _)
    exact { Calm.refl t with }
  · exact { Calm.refl t with }

theorem calm_tcpOooDrain (fuel : ℕ) (t : Tcp) : Calm t (tcpOooDrain env fuel t).2 := by
  induction fuel generalizing t with
  | zero => exact Calm.refl t
  | succ fuel ih =>
    unfold tcpOooDrain
    split_ifs
    · exact Calm.refl t
    · cases t.conn.rcvOoo with
      | nil => exact Calm.refl t
      | cons seg rest =>
        simp only
        split_ifs
        · exact Calm.refl t
        · refine Calm.trans (Calm.trans ?_ (calm_deliver env seg.data _)) (ih _)
          exact { Calm.refl t with }

theorem calm_receiveInOrder (data : List Byte) (immediate : Bool) (t : Tcp) :
    Calm t (receiveInOrder env data immediate t) :=
  ((calm_deliver env data t).trans (calm_tcpOooDrain env _ _)).trans
    (quiet_tcpAckData env _ _ _).toCalm

theorem calm_establishedData (seg : Inbound) (t : Tcp) : Calm t (establishedData env seg t) := by
  unfold establishedData
  simp only
  split_ifs
  · exact Calm.refl t
  · exact calm_receiveInOrder env _ _ t
  · refine Calm.trans ?_ (quiet_tcpAckNow env _).toCalm
    rw [Tcp.update, tcpOooQueue_frame]
    exact { Calm.refl t with }
  · exact calm_receiveInOrder env _ _ t
  · exact (quiet_tcpAckNow env t).toCalm
  · exact Calm.refl t

/-! ### Notifications -/

/-- Until a connection is notified of its end it is established, later it is ending. -/
def Settled (t : Tcp) : Prop :=
  (t.conn.state = .established ∧ t.conn.beingFreed = false ∧ t.conn.closeNotified = false ∧
    t.conn.closePending = 0 ∧ t.conn.released = false) ∨ t.conn.state.ending = true

theorem Calm.ending {t t' : Tcp} (h : Calm t t') (hst : t.conn.state.ending = true) :
    t'.conn.state.ending = true := by
  rcases h.state with hst' | hst'
  · rw [hst']; exact hst
  · exact hst'

theorem Calm.settled {t t' : Tcp} (h : Calm t t') (hs : Settled t) : Settled t' := by
  rcases hs with ⟨hst, hf, hn, hp, hr⟩ | hst
  · rcases h.state with hst' | hst'
    · have hest := hst'.trans hst
      obtain ⟨hf', hp'⟩ := h.live hest
      exact .inl ⟨hest, hf'.trans hf, h.closeNotified.trans hn, hp'.trans hp,
        h.released.trans hr⟩
    · exact .inr hst'
  · exact .inr (h.ending hst)

theorem ne_established_of_ending {st : TcpState} (h : st.ending = true) : st ≠ .established := by
  rintro rfl
  cases h

theorem unread_notifyClose (t : Tcp) : Unread t (notifyClose env t) := by
  unfold notifyClose
  simp only
  split_ifs
  · exact Unread.refl t
  · refine Unread.trans ?_ (quiet_runCallback env rfl _).toUnread
    exact { Unread.refl t with }
  · exact { Unread.refl t with }

theorem unread_notifyAbort (t : Tcp) : Unread t (notifyAbort env t) := by
  unfold notifyAbort
  simp only
  split_ifs
  · exact Unread.refl t
  · refine Unread.trans ?_ (quiet_runCallback env rfl _).toUnread
    exact { Unread.refl t with }
  · refine Unread.trans ?_ (quiet_runCallback env rfl _).toUnread
    exact { Unread.refl t with }
  · exact { Unread.refl t with }

theorem ending_runCallback (cb : Callback) {t : Tcp} (hst : t.conn.state.ending = true) :
    (runCallback env cb t).conn.state.ending = true := (calm_runCallback env cb t).ending hst

theorem ending_notifyClose {t : Tcp} (hst : t.conn.state.ending = true) :
    (notifyClose env t).conn.state.ending = true := by
  unfold notifyClose
  simp only
  split_ifs
  · exact hst
  · exact ending_runCallback env _ hst
  · exact hst

theorem ending_notifyAbort {t : Tcp} (hst : t.conn.state.ending = true) :
    (notifyAbort env t).conn.state.ending = true := by
  unfold notifyAbort
  simp only
  split_ifs
  · exact hst
  · exact ending_runCallback env _ hst
  · exact ending_runCallback env _ hst
  · exact hst

/-! ### The cases of the state machine -/

theorem establishedFin_of_not {seg : Inbound} (hfin : seg.flags.fin = false) (t : Tcp) :
    establishedFin env seg t = t := by
  simp [establishedFin, hfin]

/-- A remote FIN ends the connection. -/
theorem state_establishedFin {seg : Inbound} (hfin : seg.flags.fin = true) (t : Tcp) :
    (establishedFin env seg t).conn.state = .lastAck := by
  rw [establishedFin, if_pos hfin]
  rfl

theorem calm_inputEstablished {seg : Inbound} (hfin : seg.flags.fin = false) (t : Tcp) :
    Calm t (inputEstablished env seg t) := by
  rw [inputEstablished, establishedFin_of_not env hfin]
  exact (quiet_establishedAck env seg t).toCalm.trans (calm_establishedData env seg _)

theorem quiet_finWaitAck (seg : Inbound) (t : Tcp) : Quiet t (finWaitAck seg t) := by
  unfold finWaitAck
  simp only
  split_ifs
  · exact { Quiet.refl t with }
  · exact { Quiet.refl t with }
  · exact Quiet.refl t

theorem calm_inputFinWait (seg : Inbound) (t : Tcp) : Calm t (inputFinWait env seg t) := by
  unfold inputFinWait
  simp only
  split_ifs
  · refine (quiet_finWaitAck seg t).toCalm.trans ?_
    refine Calm.trans ?_ (quiet_connDestroy (by simp)).toCalm
    exact calm_ending rfl rfl rfl rfl rfl
  · exact (quiet_finWaitAck seg t).toCalm

theorem quiet_inputLastAck (seg : Inbound) (t : Tcp) : Quiet t (inputLastAck seg t) := by
  unfold inputLastAck
  split_ifs
  · refine Quiet.trans ?_ (quiet_connDestroy (by simp))
    exact ⟨{ Unread.refl t with }, calm_ending rfl rfl rfl rfl (t.trace.append_nil).symm⟩
  · exact Quiet.refl t

theorem quiet_updateSndWnd (seg : Inbound) (t : Tcp) : Quiet t (updateSndWnd seg t) :=
  { Quiet.refl t with }

theorem quiet_reset (t : Tcp) :
    Quiet t (connDestroy (t.update fun conn => { conn with state := .closed })) :=
  (quiet_setClosed t).trans (quiet_connDestroy (by simp))

theorem tcpstackInput_calm_or_ending (seg : Inbound) {t : Tcp} (hs : Settled t) :
    Calm t (tcpstackInput env seg t) ∨ (tcpstackInput env seg t).conn.state.ending = true := by
  unfold tcpstackInput
  split_ifs
  · exact .inl (Calm.refl t)
  · exact .inl (quiet_reset t).toCalm
  · have hwnd := (quiet_updateSndWnd seg t).toCalm
    replace hs := hwnd.settled hs
    unfold inputState
    cases hst : (updateSndWnd seg t).conn.state with
    | synReceived => simp [Settled, hst, TcpState.ending] at hs
    | synSent => simp [Settled, hst, TcpState.ending] at hs
    | established =>
      cases hfin : seg.flags.fin with
      | true => exact .inr (by simp [inputEstablished, state_establishedFin env hfin, TcpState.ending])
      | false => exact .inl (hwnd.trans (calm_inputEstablished env hfin _))
    | finWait => exact .inl (hwnd.trans (calm_inputFinWait env seg _))
    | lastAck => exact .inl (hwnd.trans (quiet_inputLastAck seg _).toCalm)
    | closed => exact .inl hwnd
    | closeWait => exact .inl hwnd

/-! ### Timers -/

theorem quiet_flushCheckCb (t : Tcp) : Quiet t (flushCheckCb env t) := by
  unfold flushCheckCb
  simp only
  split_ifs
  · exact { Quiet.refl t with }
  · refine Quiet.trans ?_ (quiet_tcpFlushPending env _)
    exact { Quiet.refl t with }

theorem quiet_delayedAckCb (t : Tcp) : Quiet t (delayedAckCb env t) := by
  have hstop : Quiet t (t.update fun conn => { conn with ackTimer := false }) :=
    { Quiet.refl t with }
  unfold delayedAckCb
  simp only
  split_ifs
  · exact hstop
  · exact hstop
  · exact hstop.trans (quiet_tcpAckNow env _)

/-- `retransmit_cb` aborts the connection or retransmits. -/
theorem retransmitCb_spec (t : Tcp) :
    Unread t (retransmitCb env t) ∧
      (Calm t (retransmitCb env t) ∨ (retransmitCb env t).conn.state.ending = true) := by
  have hquiet : ∀ {t' : Tcp}, Quiet t t' →
      Unread t t' ∧ (Calm t t' ∨ t'.conn.state.ending = true) :=
    fun hq => ⟨hq.toUnread, .inl hq.toCalm⟩
  unfold retransmitCb
  simp only
  split_ifs
  · exact hquiet (Quiet.refl t)
  · have hend := ending_notifyAbort env
      (t := (t.update fun conn => { conn with
        retransmitTimer := false, retransmitCount := conn.retransmitCount + 1 }).update
          fun conn => { conn with state := .closed }) rfl
    have hdestroy := quiet_connDestroy (ne_established_of_ending hend)
    refine ⟨?_, .inr (hdestroy.toCalm.ending hend)⟩
    refine Unread.trans (Unread.trans ?_ (unread_notifyAbort env _)) hdestroy.toUnread
    exact { Unread.refl t with }
  · exact hquiet (quiet_of_eq rfl rfl rfl rfl rfl rfl rfl rfl rfl (delivered_segments _))

theorem ending_timerCloseCb {t : Tcp} (hst : t.conn.state.ending = true) :
    (timerCloseCb env t).conn.state.ending = true := by
  unfold timerCloseCb
  simp only
  split_ifs
  · exact hst
  · exact ending_notifyClose env hst

end Frame

/-! ### Events -/

/-- Every event keeps the state of a settled connection or ends it. -/
theorem tcpStep_calm_or_ending {t : Tcp} (hs : Settled t) (e : TcpEnv × TcpEvent) :
    Calm t (tcpStep t e) ∨ (tcpStep t e).conn.state.ending = true := by
  obtain ⟨env, e⟩ := e
  refine tcpStep_cases (P := fun t' => Calm t t' ∨ t'.conn.state.ending = true)
    (.inl (Calm.refl t)) (fun a _ => .inl (quiet_apiCall env t a).toCalm)
    (fun seg _ => tcpstackInput_calm_or_ending env seg hs) (.inl (quiet_flushCheckCb env t).toCalm)
    (fun _ => (retransmitCb_spec env t).2) (.inl (quiet_delayedAckCb env t).toCalm)
    (fun hpend => ?_)
  rcases hs with ⟨-, -, -, hzero, -⟩ | hst
  · omega
  · exact .inr (ending_timerCloseCb env hst)

theorem Settled.tcpStep {t : Tcp} (hs : Settled t) (e : TcpEnv × TcpEvent) :
    Settled (tcpStep t e) := by
  rcases tcpStep_calm_or_ending hs e with hcalm | hend
  · exact hcalm.settled hs
  · exact .inr hend

/-- The step of an established connection on a segment that is no reset. -/
theorem tcpStep_input (env : TcpEnv) {seg : Inbound} (hrst : seg.flags.rst = false) {t : Tcp}
    (hs : Settled t) (hst : t.conn.state = .established) :
    tcpStep t (env, .input seg) = inputEstablished env seg (updateSndWnd seg t) := by
  rcases hs with ⟨-, hf, -, -, hr⟩ | hend
  · simp [tcpStep, ownedStep, tcpstackInput, inputState, hf, hr, hrst, updateSndWnd, hst]
  · rw [hst] at hend; cases hend

/-- The event brings no FIN. -/
def TcpEvent.noFin : TcpEvent → Bool
  | .input seg => !seg.flags.fin
  | _ => true

/-- While the connection is established no FIN was taken. -/
theorem noFin_of_established {t : Tcp} (hs : Settled t) {e : TcpEnv × TcpEvent}
    (hst : (tcpStep t e).conn.state = .established) :
    t.conn.state = .established ∧ e.2.noFin = true := by
  have hest : t.conn.state = .established := by
    rcases hs with hs' | hend
    · exact hs'.1
    · rcases tcpStep_calm_or_ending (.inr hend) e with hcalm | hend'
      · exact absurd hst (ne_established_of_ending (hcalm.ending hend))
      · exact absurd hst (ne_established_of_ending hend')
  refine ⟨hest, ?_⟩
  obtain ⟨env, e⟩ := e
  cases e with
  | input seg =>
    by_contra hfin
    have hfin' : seg.flags.fin = true := by simpa [TcpEvent.noFin] using hfin
    cases hrst : seg.flags.rst with
    | false =>
      rw [tcpStep_input env hrst hs hest, inputEstablished, state_establishedFin env hfin'] at hst
      cases hst
    | true =>
      rcases hs with ⟨-, hf, -, -, hr⟩ | hend
      · simp [tcpStep, ownedStep, tcpstackInput, hf, hr, hrst, connDestroy] at hst
      · exact ne_established_of_ending hend hest
  | _ => rfl

end Wgx
