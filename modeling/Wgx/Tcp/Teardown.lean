import Wgx.Tcp.FlushQueue
import Wgx.Tcp.Stack
import Wgx.Tcp.Timer

/-!
# How a connection ends

The owner hears of the end of a connection in `on_connect(conn, -1)` or `on_close(conn)`.

* `Silent t t'`: between `t` and `t'` the owner did not hear of the end, the memory stayed, and no
  timer of a connection on its way out was started.  Every function of the stack is silent, but
  `notifyClose`, `notifyAbort` and the release of the memory;
* `Accountable t`: the flags `being_freed`, `close_pending`, `close_notified` and the number of
  notifications fit together (`accountable_tcpStep`);
* `lifecycleStep`: a stack with `tcpstack_free`;
* `terminal_callbacks_once`: every connection of a stack is notified once.
-/

namespace Wgx

/-! ### Notifications -/

/-- The owner is told that the connection is over. -/
def Entry.isTerminal : Entry → Bool
  | .callback .close => true
  | .callback (.connect status) => status == -1
  | _ => false

/-- How often the owner was told. -/
def terminals (es : List Entry) : ℕ := es.countP Entry.isTerminal

@[simp] theorem terminals_append (es es' : List Entry) :
    terminals (es ++ es') = terminals es + terminals es' := List.countP_append

/-- A connection on its way out has no timer running and is not queued. -/
structure Conn.Idle (conn : Conn) : Prop where
  retransmitTimer : conn.retransmitTimer = false
  ackTimer : conn.ackTimer = false
  flushQueued : conn.flushQueued = false

/-- Between `t` and `t'` the owner did not hear of the end, and the memory stayed. -/
structure Silent (t t' : Tcp) : Prop where
  notified : t'.conn.closeNotified = t.conn.closeNotified
  onClose : t'.conn.handlers.onClose = t.conn.handlers.onClose
  released : t'.conn.released = t.conn.released
  trace : ∃ es, t'.trace = t.trace ++ es ∧ terminals es = 0
  freed : t'.conn.beingFreed = t.conn.beingFreed ∧ t'.conn.closePending = t.conn.closePending ∨
    t.conn.beingFreed = false ∧ t'.conn.beingFreed = true ∧
      t'.conn.closePending = t.conn.closePending + 2
  idle : (t.conn.beingFreed = true → t.conn.Idle) → t'.conn.beingFreed = true → t'.conn.Idle

theorem Silent.refl (t : Tcp) : Silent t t :=
  ⟨rfl, rfl, rfl, ⟨[], (List.append_nil _).symm, rfl⟩, Or.inl ⟨rfl, rfl⟩, id⟩

theorem Silent.trans {t t' t'' : Tcp} (h : Silent t t') (h' : Silent t' t'') : Silent t t'' := by
  obtain ⟨es, hes, hnone⟩ := h.trace
  obtain ⟨es', hes', hnone'⟩ := h'.trace
  refine ⟨h'.notified.trans h.notified, h'.onClose.trans h.onClose, h'.released.trans h.released,
    ⟨es ++ es', ?_, ?_⟩, ?_, fun hidle => h'.idle (h.idle hidle)⟩
  · rw [hes', hes, List.append_assoc]
  · rw [terminals_append, hnone, hnone']
  · rcases h.freed with ⟨hf, hp⟩ | ⟨hf, hf', hp⟩
    · rw [← hf, ← hp]
      exact h'.freed
    · rcases h'.freed with ⟨hg, hq⟩ | ⟨hg, -, -⟩
      · exact Or.inr ⟨hf, hg.trans hf', hq.trans hp⟩
      · rw [hf'] at hg
        cases hg

section Functions

variable (env : TcpEnv) (t : Tcp)

theorem silent_log {es : List Entry} (hes : terminals es = 0) : Silent t (t.log es) :=
  ⟨rfl, rfl, rfl, ⟨es, rfl, hes⟩, Or.inl ⟨rfl, rfl⟩, id⟩

/-- A change of other fields, with the timers off where the connection is on its way out. -/
theorem silent_update {t : Tcp} {f : Conn → Conn}
    (hnotified : (f t.conn).closeNotified = t.conn.closeNotified)
    (honClose : (f t.conn).handlers.onClose = t.conn.handlers.onClose)
    (hreleased : (f t.conn).released = t.conn.released)
    (hfreed : (f t.conn).beingFreed = t.conn.beingFreed)
    (hpending : (f t.conn).closePending = t.conn.closePending)
    (hidle : t.conn.beingFreed = true → t.conn.Idle → (f t.conn).Idle) : Silent t (t.update f) :=
  ⟨hnotified, honClose, hreleased, ⟨[], (List.append_nil _).symm, rfl⟩, Or.inl ⟨hfreed, hpending⟩,
    fun h hf => hidle (hfreed ▸ hf) (h (hfreed ▸ hf))⟩

theorem silent_sendSegment (flags : Flags) (seq ack : Seq) (data : List Byte) :
    Silent t (sendSegment env flags seq ack data t) := silent_log t rfl

theorem terminals_segments (segs : List Segment) : terminals (segs.map .segment) = 0 := by
  unfold terminals
  rw [List.countP_eq_zero]
  simp [Entry.isTerminal]

theorem silent_tcpFlushPending : Silent t (tcpFlushPending env t) := by
  by_cases hoff : t.conn.beingFreed = true ∨ t.conn.state ≠ .established
  · rw [tcpFlushPending, if_pos hoff]
    exact Silent.refl t
  · push Not at hoff
    have hlive : ∀ conn : Conn, conn.beingFreed = t.conn.beingFreed → ¬ conn.beingFreed = true :=
      fun conn heq => heq ▸ hoff.1
    unfold tcpFlushPending
    rw [if_neg (by push Not; exact hoff)]
    simp only
    have hsent := terminals_segments
      (flushLoop env t.conn t.conn.sendbufLen (t.conn.sndNxt - t.conn.sndUna).toNat).1
    split_ifs
    · exact ⟨rfl, rfl, rfl, ⟨_, rfl, hsent⟩, Or.inl ⟨rfl, rfl⟩,
        fun _ hfreed => absurd hfreed (hlive _ rfl)⟩
    · exact ⟨rfl, rfl, rfl, ⟨_, rfl, hsent⟩, Or.inl ⟨rfl, rfl⟩,
        fun _ hfreed => absurd hfreed (hlive _ rfl)⟩

theorem silent_scheduleFlush : Silent t (scheduleFlush t) := by
  unfold scheduleFlush
  split_ifs with hoff
  · exact Silent.refl t
  · push Not at hoff
    exact silent_update rfl rfl rfl rfl rfl fun hfreed => absurd hfreed hoff.1

theorem silent_tcpAckNow : Silent t (tcpAckNow env t) := by
  unfold tcpAckNow
  split_ifs with hfreed
  · exact Silent.refl t
  · refine Silent.trans ?_ (silent_sendSegment env _ _ _ _ _)
    exact silent_update rfl rfl rfl rfl rfl fun h => absurd h hfreed

theorem silent_tcpAckData (len : ℕ) (immediate : Bool) :
    Silent t (tcpAckData env len immediate t) := by
  unfold tcpAckData
  by_cases hfreed : t.conn.beingFreed = true
  · rw [if_pos hfreed]
    exact Silent.refl t
  rw [if_neg hfreed]
  have hcount : Silent t (t.update fun conn => { conn with
      delayedAckSegments := conn.delayedAckSegments + 1
      delayedAckBytes := conn.delayedAckBytes + len }) :=
    silent_update rfl rfl rfl rfl rfl fun h => absurd h hfreed
  simp only
  split_ifs
  · exact silent_tcpAckNow env t
  · exact hcount.trans (silent_tcpAckNow env _)
  · exact hcount.trans (silent_update rfl rfl rfl rfl rfl fun h => absurd h hfreed)
  · exact hcount

/-- `conn_destroy` turns everything off. -/
theorem silent_connDestroy : Silent t (connDestroy t) := by
  unfold connDestroy
  split_ifs with hfreed
  · exact Silent.refl t
  · rw [Bool.not_eq_true] at hfreed
    exact ⟨rfl, rfl, rfl, ⟨[], (List.append_nil _).symm, rfl⟩, Or.inr ⟨hfreed, rfl, rfl⟩,
      fun _ _ => ⟨rfl, rfl, rfl⟩⟩

theorem silent_setState (state : TcpState) :
    Silent t (t.update fun conn => { conn with state := state }) :=
  silent_update rfl rfl rfl rfl rfl fun _ h => ⟨h.retransmitTimer, h.ackTimer, h.flushQueued⟩

theorem silent_tcpSend (data : List Byte) : Silent t (tcpSend env data t).2 := by
  unfold tcpSend
  by_cases hfreed : t.conn.beingFreed = true
  · rw [if_pos hfreed]
    exact Silent.refl t
  rw [if_neg hfreed]
  split_ifs
  iterate 4 exact Silent.refl t
  cases hgrow : sendbufGrow env t.conn (t.conn.sendbufLen + data.length) with
  | none => exact Silent.refl t
  | some grown =>
    have happend : Silent t (t.update fun _ => sendbufAppend grown data) := by
      rw [sendbufGrow_frame hgrow]
      exact silent_update rfl rfl rfl rfl rfl fun h => absurd h hfreed
    have haccept := happend.trans (@silent_log _ [.accepted data] rfl)
    simp only
    split_ifs
    · exact haccept.trans (silent_tcpFlushPending env _)
    · exact haccept.trans (silent_scheduleFlush _)

theorem silent_sendFin (state : TcpState) : Silent t (sendFin env state t) :=
  ⟨rfl, rfl, rfl, ⟨_, rfl, rfl⟩, Or.inl ⟨rfl, rfl⟩,
    fun h hfreed => ⟨(h hfreed).retransmitTimer, (h hfreed).ackTimer, (h hfreed).flushQueued⟩⟩

theorem silent_tcpClose : Silent t (tcpClose env t) := by
  unfold tcpClose
  split_ifs
  · exact Silent.refl t
  · cases t.conn.state with
    | established => exact silent_sendFin env t _
    | closeWait => exact silent_sendFin env t _
    | synSent =>
      have hreset := silent_sendSegment env (t.update fun conn => { conn with state := .closed })
        { rst := true } t.conn.sndNxt 0 []
      exact ((silent_setState t .closed).trans hreset).trans (silent_connDestroy _)
    | _ => exact silent_connDestroy t

theorem silent_apiCall (a : ApiCall) : Silent t (apiCall env t a) := by
  have hlog : Silent t (t.log [.call a t.conn]) := silent_log t rfl
  cases a with
  | send data => exact hlog.trans (silent_tcpSend env _ data)
  | close => exact hlog.trans (silent_tcpClose env _)
  | updateRecvWindow =>
    refine hlog.trans ?_
    show Silent _ (tcpUpdateRecvWindow env _)
    unfold tcpUpdateRecvWindow
    split_ifs
    · exact Silent.refl _
    · exact silent_tcpAckNow env _
  | setRecvWindowCb set =>
    refine hlog.trans ?_
    show Silent _ (tcpSetRecvWindowCb set _)
    unfold tcpSetRecvWindowCb
    split_ifs with hfreed
    · exact Silent.refl _
    · exact silent_update rfl rfl rfl rfl rfl fun h => absurd h hfreed
  | setWriteable set =>
    refine hlog.trans ?_
    exact ⟨rfl, rfl, rfl, ⟨[], (List.append_nil _).symm, rfl⟩, Or.inl ⟨rfl, rfl⟩,
      fun h hfreed => ⟨(h hfreed).retransmitTimer, (h hfreed).ackTimer, (h hfreed).flushQueued⟩⟩

theorem silent_foldl_apiCall (calls : List ApiCall) : Silent t (calls.foldl (apiCall env) t) := by
  induction calls generalizing t with
  | nil => exact Silent.refl t
  | cons a calls ih => exact (silent_apiCall env t a).trans (ih _)

/-- A callback that is not the last one is silent, whatever it calls. -/
theorem silent_runCallback {cb : Callback} (hcb : Entry.isTerminal (.callback cb) = false) :
    Silent t (runCallback env cb t) :=
  (silent_log t (by simp [terminals, hcb])).trans (silent_foldl_apiCall env _ _)

/-! ### Incoming segments -/

theorem silent_setRcvNxt (f : Conn → Seq) :
    Silent t (t.update fun conn => { conn with rcvNxt := f conn }) :=
  silent_update rfl rfl rfl rfl rfl fun _ h => ⟨h.retransmitTimer, h.ackTimer, h.flushQueued⟩

theorem silent_deliver (data : List Byte) : Silent t (deliver env data t) := by
  unfold deliver
  simp only
  split_ifs
  · exact (silent_setRcvNxt t _).trans (silent_runCallback env _ rfl)
  · exact silent_setRcvNxt t _

theorem silent_tcpOooDrain (fuel : ℕ) : Silent t (tcpOooDrain env fuel t).2 := by
  induction fuel generalizing t with
  | zero => exact Silent.refl t
  | succ fuel ih =>
    unfold tcpOooDrain
    split_ifs with hfreed
    · exact Silent.refl t
    · cases t.conn.rcvOoo with
      | nil => exact Silent.refl t
      | cons seg rest =>
        simp only
        split_ifs
        · exact Silent.refl t
        · refine Silent.trans (Silent.trans ?_ (silent_deliver env _ seg.data)) (ih _)
          exact silent_update rfl rfl rfl rfl rfl fun h => absurd h hfreed

theorem silent_receiveInOrder (data : List Byte) (immediate : Bool) :
    Silent t (receiveInOrder env data immediate t) :=
  ((silent_deliver env t data).trans (silent_tcpOooDrain env _ _)).trans
    (silent_tcpAckData env _ _ _)

theorem silent_establishedData (seg : Inbound) : Silent t (establishedData env seg t) := by
  unfold establishedData
  simp only
  split_ifs
  · exact Silent.refl t
  · exact silent_receiveInOrder env t _ _
  · refine Silent.trans ?_ (silent_tcpAckNow env _)
    rw [Tcp.update, tcpOooQueue_frame]
    exact silent_update (t := t) (f := fun conn => { conn with
      rcvOoo := (tcpOooQueue env seg.seq seg.payload t.conn).rcvOoo
      rcvOooLen := (tcpOooQueue env seg.seq seg.payload t.conn).rcvOooLen }) rfl rfl rfl rfl rfl
      fun _ h => ⟨h.retransmitTimer, h.ackTimer, h.flushQueued⟩
  · exact silent_receiveInOrder env t _ _
  · exact silent_tcpAckNow env t
  · exact Silent.refl t

theorem silent_ackAdvance (seg : Inbound) : Silent t (ackAdvance env seg t) := by
  have hconsume : Silent t (t.update fun conn =>
      { (if (seg.ack - t.conn.sndUna).toNat ≤ conn.sendbufLen then
          sendbufConsume conn (seg.ack - t.conn.sndUna).toNat else conn) with
        sndUna := seg.ack }) := by
    have hidle : ∀ conn : Conn, conn.retransmitTimer = t.conn.retransmitTimer →
        conn.ackTimer = t.conn.ackTimer → conn.flushQueued = t.conn.flushQueued →
        t.conn.beingFreed = true → t.conn.Idle → conn.Idle :=
      fun conn h1 h2 h3 _ h =>
        ⟨h1.trans h.retransmitTimer, h2.trans h.ackTimer, h3.trans h.flushQueued⟩
    by_cases hacked : (seg.ack - t.conn.sndUna).toNat ≤ t.conn.sendbufLen
    · have hframe := sendbufConsume_frame t.conn (seg.ack - t.conn.sndUna).toNat
      refine silent_update ?_ ?_ ?_ ?_ ?_ (hidle _ ?_ ?_ ?_) <;>
        · simp only [if_pos hacked]
          rw [hframe]
    · refine silent_update ?_ ?_ ?_ ?_ ?_ (hidle _ ?_ ?_ ?_) <;> simp only [if_neg hacked]
  unfold ackAdvance
  simp only
  split_ifs
  · exact hconsume.trans (silent_update rfl rfl rfl rfl rfl
      fun _ h => ⟨rfl, h.ackTimer, h.flushQueued⟩)
  · exact hconsume.trans (silent_tcpFlushPending env _)

theorem silent_establishedAck (seg : Inbound) : Silent t (establishedAck env seg t) := by
  unfold establishedAck
  simp only
  split_ifs
  · exact (silent_ackAdvance env t seg).trans (silent_runCallback env _ rfl)
  · exact silent_ackAdvance env t seg
  · exact Silent.refl t

theorem silent_takeFin : Silent t (takeFin env t) := by
  refine (@silent_log t [.remoteFin t.conn] rfl).trans ?_
  exact ⟨rfl, rfl, rfl, ⟨_, rfl, rfl⟩, Or.inl ⟨rfl, rfl⟩,
    fun h hfreed => ⟨(h hfreed).retransmitTimer, (h hfreed).ackTimer, (h hfreed).flushQueued⟩⟩

theorem silent_inputSynReceived (seg : Inbound) : Silent t (inputSynReceived env seg t) := by
  unfold inputSynReceived
  split_ifs with hack
  · have hopen : Silent t (t.update fun conn => { conn with
        sndUna := seg.ack, state := .established, retransmitTimer := false,
        retransmitCount := 0 }) :=
      silent_update rfl rfl rfl rfl rfl fun _ h => ⟨rfl, h.ackTimer, h.flushQueued⟩
    simp only
    split_ifs
    · exact hopen.trans (silent_receiveInOrder env _ _ _)
    · exact hopen
  · exact Silent.refl t

theorem silent_inputSynSent (seg : Inbound) : Silent t (inputSynSent env seg t) := by
  unfold inputSynSent
  split_ifs with hflags hbad
  · exact Silent.refl t
  · have hopen : Silent t ((t.update fun conn => parseSynOptions seg.options { conn with
        sndUna := seg.ack
        rcvNxt := seg.seq + 1
        state := .established
        retransmitTimer := false
        retransmitCount := 0 }).update fun conn =>
          { conn with sndWnd := seg.window.toNat * 2 ^ conn.sndWscale }) :=
      ⟨rfl, rfl, rfl, ⟨[], (List.append_nil _).symm, rfl⟩, Or.inl ⟨rfl, rfl⟩,
        fun h hfreed => ⟨rfl, (h hfreed).ackTimer, (h hfreed).flushQueued⟩⟩
    simp only
    split_ifs
    · exact (hopen.trans (silent_tcpAckNow env _)).trans (silent_runCallback env _ rfl)
    · exact hopen.trans (silent_tcpAckNow env _)
  · exact Silent.refl t

theorem silent_inputFinWait (seg : Inbound) : Silent t (inputFinWait env seg t) := by
  have hack : Silent t (finWaitAck seg t) := by
    unfold finWaitAck
    simp only
    split_ifs
    · exact ⟨rfl, rfl, rfl, ⟨[], (List.append_nil _).symm, rfl⟩, Or.inl ⟨rfl, rfl⟩,
        fun h hfreed => ⟨rfl, (h hfreed).ackTimer, (h hfreed).flushQueued⟩⟩
    · exact silent_update rfl rfl rfl rfl rfl
        fun _ h => ⟨h.retransmitTimer, h.ackTimer, h.flushQueued⟩
    · exact Silent.refl t
  unfold inputFinWait
  simp only
  split_ifs
  · have hcount := silent_setRcvNxt (finWaitAck seg t) fun conn => conn.rcvNxt + 1
    have hsent := hcount.trans (silent_sendSegment env _ { ack := true } (finWaitAck seg t).conn.sndNxt
      ((finWaitAck seg t).conn.rcvNxt + 1) [])
    exact ((hack.trans hsent).trans (silent_setState _ .closed)).trans (silent_connDestroy _)
  · exact hack

theorem silent_inputLastAck (seg : Inbound) : Silent t (inputLastAck seg t) := by
  unfold inputLastAck
  split_ifs
  · refine Silent.trans ?_ (silent_connDestroy _)
    exact silent_update rfl rfl rfl rfl rfl fun _ h => ⟨rfl, h.ackTimer, h.flushQueued⟩
  · exact Silent.refl t

theorem silent_flushCheckCb : Silent t (flushCheckCb env t) := by
  have hoff : Silent t (t.update fun conn => { conn with flushQueued := false }) :=
    silent_update rfl rfl rfl rfl rfl fun _ h => ⟨h.retransmitTimer, h.ackTimer, rfl⟩
  unfold flushCheckCb
  simp only
  split_ifs
  · exact hoff
  · exact hoff.trans (silent_tcpFlushPending env _)

theorem silent_delayedAckCb : Silent t (delayedAckCb env t) := by
  have hoff : Silent t (t.update fun conn => { conn with ackTimer := false }) :=
    silent_update rfl rfl rfl rfl rfl fun _ h => ⟨h.retransmitTimer, rfl, h.flushQueued⟩
  unfold delayedAckCb
  simp only
  split_ifs
  · exact hoff
  · exact hoff
  · exact hoff.trans (silent_tcpAckNow env _)

/-! ### The notification -/

/-- The owner is told once, if it wants to know and was not told before; nothing else is said. -/
structure Notifies (t t' : Tcp) : Prop where
  notified : t'.conn.closeNotified = true
  onClose : t'.conn.handlers.onClose = t.conn.handlers.onClose
  released : t'.conn.released = t.conn.released
  trace : ∃ es, t'.trace = t.trace ++ es ∧
    terminals es ≤ (if t.conn.closeNotified then 0 else 1) ∧
    (t.conn.closeNotified = false → t.conn.handlers.onClose = true → terminals es = 1)
  freed : t'.conn.beingFreed = t.conn.beingFreed ∧ t'.conn.closePending = t.conn.closePending ∨
    t.conn.beingFreed = false ∧ t'.conn.beingFreed = true ∧
      t'.conn.closePending = t.conn.closePending + 2
  idle : (t.conn.beingFreed = true → t.conn.Idle) → t'.conn.beingFreed = true → t'.conn.Idle

/-- A terminal callback behind the flag. -/
theorem notifies_runCallback {cb : Callback} (hcb : Entry.isTerminal (.callback cb) = true)
    (hno : t.conn.closeNotified = false) :
    Notifies t (runCallback env cb (t.update fun conn => { conn with closeNotified := true })) := by
  set u : Tcp := t.update fun conn => { conn with closeNotified := true }
  have hcalls := silent_foldl_apiCall env (u.log [.callback cb]) (env.calls cb u.conn)
  obtain ⟨es, hes, hnone⟩ := hcalls.trace
  have hone : terminals (.callback cb :: es) = 1 := by
    rw [terminals, List.countP_cons, hcb, if_pos rfl]
    exact congrArg (· + 1) hnone
  refine ⟨hcalls.notified, hcalls.onClose, hcalls.released, ⟨.callback cb :: es, ?_, ?_, ?_⟩,
    hcalls.freed, fun h => hcalls.idle fun hf =>
      ⟨(h hf).retransmitTimer, (h hf).ackTimer, (h hf).flushQueued⟩⟩
  · rw [runCallback, hes, Tcp.log_trace, List.append_assoc]
    rfl
  · rw [hno, hone]
    exact le_rfl
  · exact fun _ _ => hone

/-- The flag alone: the owner does not want to know. -/
theorem notifies_flag (hno : t.conn.handlers.onClose = false) :
    Notifies t (t.update fun conn => { conn with closeNotified := true }) :=
  ⟨rfl, rfl, rfl, ⟨[], (List.append_nil _).symm, Nat.zero_le _, fun _ h => by
      rw [hno] at h
      cases h⟩,
    Or.inl ⟨rfl, rfl⟩, fun h hf => ⟨(h hf).retransmitTimer, (h hf).ackTimer, (h hf).flushQueued⟩⟩

theorem notifies_done (hdone : t.conn.closeNotified = true) : Notifies t t :=
  ⟨hdone, rfl, rfl, ⟨[], (List.append_nil _).symm, Nat.zero_le _, fun h => by
      rw [hdone] at h
      cases h⟩, Or.inl ⟨rfl, rfl⟩, id⟩

theorem notifies_notifyClose : Notifies t (notifyClose env t) := by
  unfold notifyClose
  simp only
  split_ifs with hdone hclose
  · exact notifies_done t hdone
  · exact notifies_runCallback env t rfl (Bool.eq_false_iff.2 hdone)
  · exact notifies_flag t (Bool.eq_false_iff.2 hclose)

theorem notifies_notifyAbort : Notifies t (notifyAbort env t) := by
  unfold notifyAbort
  simp only
  split_ifs with hdone hconnect hclose
  · exact notifies_done t hdone
  · exact notifies_runCallback env t rfl (Bool.eq_false_iff.2 hdone)
  · exact notifies_runCallback env t rfl (Bool.eq_false_iff.2 hdone)
  · exact notifies_flag t (Bool.eq_false_iff.2 hclose)

end Functions

/-! ### The flags and the number of notifications -/

/-- The flag says whether the owner was told. -/
structure Told (t : Tcp) : Prop where
  atMost : terminals t.trace ≤ if t.conn.closeNotified then 1 else 0
  told : t.conn.closeNotified = true → t.conn.handlers.onClose = true → terminals t.trace = 1

/-- The flags of a connection and the number of notifications fit together. -/
structure Accountable (t : Tcp) : Prop extends Told t where
  live : t.conn.beingFreed = false → t.conn.closePending = 0 ∧ t.conn.released = false
  idle : t.conn.beingFreed = true → t.conn.Idle
  closing : t.conn.beingFreed = true → t.conn.released = false → 0 < t.conn.closePending
  gone : t.conn.released = true → t.conn.closePending = 0 ∧ t.conn.closeNotified = true

section Flags

variable {env : TcpEnv} {t t' : Tcp}

theorem Told.silent (h : Told t) (hs : Silent t t') : Told t' := by
  obtain ⟨es, hes, hnone⟩ := hs.trace
  have hsame : terminals t'.trace = terminals t.trace := by
    rw [hes, terminals_append, hnone, Nat.add_zero]
  refine ⟨?_, fun hdone hclose => ?_⟩
  · rw [hsame, hs.notified]
    exact h.atMost
  · rw [hsame]
    exact h.told (hs.notified ▸ hdone) (hs.onClose ▸ hclose)

theorem Told.notifies (h : Told t) (hn : Notifies t t') : Told t' := by
  obtain ⟨es, hes, hmost, hone⟩ := hn.trace
  have hsum : terminals t'.trace = terminals t.trace + terminals es := by
    rw [hes, terminals_append]
  have hbefore := h.atMost
  refine ⟨?_, fun _ hclose => ?_⟩
  · rw [hsum, hn.notified]
    cases hdone : t.conn.closeNotified <;> simp [hdone] at hmost hbefore ⊢ <;> omega
  · rw [hn.onClose] at hclose
    rw [hsum]
    cases hdone : t.conn.closeNotified with
    | true =>
      have := h.told hdone hclose
      simp [hdone] at hmost
      omega
    | false =>
      have := hone hdone hclose
      simp [hdone] at hbefore
      omega

theorem Accountable.silent (h : Accountable t) (hs : Silent t t') : Accountable t' := by
  refine ⟨h.toTold.silent hs, ?_, hs.idle h.idle, ?_, ?_⟩
  · intro hlive
    rcases hs.freed with ⟨hf, hp⟩ | ⟨-, hf, -⟩
    · rw [hp, hs.released]
      exact h.live (hf ▸ hlive)
    · rw [hlive] at hf
      cases hf
  · intro hfreed hrel
    rcases hs.freed with ⟨hf, hp⟩ | ⟨-, -, hp⟩
    · rw [hp]
      exact h.closing (hf ▸ hfreed) (hs.released ▸ hrel)
    · omega
  · intro hrel
    rw [hs.released] at hrel
    have hgone := h.gone hrel
    rcases hs.freed with ⟨-, hp⟩ | ⟨hf, -, -⟩
    · rw [hp, hs.notified]
      exact hgone
    · rw [(h.live hf).2] at hrel
      cases hrel

theorem Accountable.notifies (h : Accountable t) (hn : Notifies t t') : Accountable t' := by
  refine ⟨h.toTold.notifies hn, ?_, hn.idle h.idle, ?_, ?_⟩
  · intro hlive
    rcases hn.freed with ⟨hf, hp⟩ | ⟨-, hf, -⟩
    · rw [hp, hn.released]
      exact h.live (hf ▸ hlive)
    · rw [hlive] at hf
      cases hf
  · intro hfreed hrel
    rcases hn.freed with ⟨hf, hp⟩ | ⟨-, -, hp⟩
    · rw [hp]
      exact h.closing (hf ▸ hfreed) (hn.released ▸ hrel)
    · omega
  · intro hrel
    rw [hn.released] at hrel
    have hgone := h.gone hrel
    rcases hn.freed with ⟨-, hp⟩ | ⟨hf, -, -⟩
    · exact ⟨hp.trans hgone.1, hn.notified⟩
    · rw [(h.live hf).2] at hrel
      cases hrel

theorem accountable_establishedFin (h : Accountable t) (seg : Inbound) :
    Accountable (establishedFin env seg t) := by
  unfold establishedFin
  split_ifs
  · exact ((h.silent (silent_takeFin env t)).notifies (notifies_notifyClose env _)).silent
      (silent_sendFin env _ _)
  · exact h

theorem accountable_tcpstackInput (h : Accountable t) (seg : Inbound) :
    Accountable (tcpstackInput env seg t) := by
  unfold tcpstackInput
  split_ifs
  · exact h
  · exact h.silent ((silent_setState t .closed).trans (silent_connDestroy _))
  · have hwnd : Accountable (updateSndWnd seg t) := h.silent (silent_update rfl rfl rfl rfl rfl
      fun _ hidle => ⟨hidle.retransmitTimer, hidle.ackTimer, hidle.flushQueued⟩)
    unfold inputState
    cases (updateSndWnd seg t).conn.state with
    | synReceived => exact hwnd.silent (silent_inputSynReceived env _ seg)
    | synSent => exact hwnd.silent (silent_inputSynSent env _ seg)
    | established =>
      exact accountable_establishedFin ((hwnd.silent (silent_establishedAck env _ seg)).silent
        (silent_establishedData env _ seg)) seg
    | finWait => exact hwnd.silent (silent_inputFinWait env _ seg)
    | lastAck => exact hwnd.silent (silent_inputLastAck _ seg)
    | closed => exact hwnd
    | closeWait => exact hwnd

theorem accountable_retransmitCb (h : Accountable t) : Accountable (retransmitCb env t) := by
  by_cases hfreed : t.conn.beingFreed = true
  · rw [retransmitCb, if_pos hfreed]
    exact h
  rw [Bool.not_eq_true] at hfreed
  have hfired : Silent t (retransmitFired t) := silent_update rfl rfl rfl rfl rfl fun hf => by
    rw [hfreed] at hf
    cases hf
  rw [retransmitCb_of_live hfreed]
  split_ifs
  · have hclosed := h.silent (hfired.trans (silent_setState _ .closed))
    exact (hclosed.notifies (notifies_notifyAbort env _)).silent (silent_connDestroy _)
  · refine h.silent ⟨rfl, rfl, rfl, ⟨_, rfl, terminals_segments _⟩, Or.inl ⟨rfl, rfl⟩,
      fun _ hf => ?_⟩
    exact absurd (hfreed.symm.trans hf) (by decide)

/-- The memory goes with the last of the two timers, and the owner has been told. -/
theorem accountable_timerCloseCb (h : Accountable t) (hpend : 0 < t.conn.closePending) :
    Accountable (timerCloseCb env t) := by
  have hfreed : t.conn.beingFreed = true := by
    by_contra hlive
    have := (h.live (Bool.eq_false_iff.2 hlive)).1
    omega
  have hrel : t.conn.released = false := by
    by_contra hgone
    have := (h.gone (by simpa using hgone)).1
    omega
  have hidle := h.idle hfreed
  set u : Tcp := t.update fun conn => { conn with closePending := conn.closePending - 1 } with hu
  unfold timerCloseCb
  simp only [← hu]
  split_ifs with hmore
  · refine ⟨⟨h.atMost, h.told⟩, ?_, fun _ => ⟨hidle.retransmitTimer, hidle.ackTimer,
      hidle.flushQueued⟩, fun _ _ => hmore, ?_⟩
    · intro hlive
      exact absurd (hfreed.symm.trans hlive) (by decide)
    · intro hgone
      exact absurd (hrel.symm.trans hgone) (by decide)
  · have hn := notifies_notifyClose env u
    have hcount : Told u := ⟨h.atMost, h.told⟩
    have htold := hcount.notifies hn
    have hkept : (notifyClose env u).conn.beingFreed = true ∧
        (notifyClose env u).conn.closePending = 0 := by
      rcases hn.freed with ⟨hf, hp⟩ | ⟨hf, -, -⟩
      · exact ⟨hf.trans hfreed, hp.trans (by omega)⟩
      · exact absurd (hfreed.symm.trans hf) (by decide)
    have hoff := hn.idle (fun _ => ⟨hidle.retransmitTimer, hidle.ackTimer, hidle.flushQueued⟩)
      hkept.1
    refine ⟨⟨htold.atMost, htold.told⟩, ?_, fun _ => ⟨hoff.retransmitTimer, hoff.ackTimer,
      hoff.flushQueued⟩, ?_, fun _ => ⟨hkept.2, hn.notified⟩⟩
    · intro hlive
      exact absurd (hkept.1.symm.trans hlive) (by decide)
    · intro _ hgone
      cases hgone

/-- **Every event keeps the flags and the number of notifications together.** -/
theorem accountable_tcpStep (h : Accountable t) (e : TcpEnv × TcpEvent) :
    Accountable (tcpStep t e) := by
  obtain ⟨env, e⟩ := e
  exact tcpStep_cases h (fun a _ => h.silent (silent_apiCall env t a))
    (fun seg _ => accountable_tcpstackInput h seg) (h.silent (silent_flushCheckCb env t))
    (fun _ => accountable_retransmitCb h) (h.silent (silent_delayedAckCb env t))
    (accountable_timerCloseCb h)

theorem accountable_opened (h : Opened t) : Accountable t := by
  cases h with
  | connect env iss handlers =>
    exact ⟨⟨le_rfl, nofun⟩, fun _ => ⟨rfl, rfl⟩, nofun, nofun, nofun⟩
  | accept env iss handlers seg hsyn hack =>
    refine Accountable.silent ?_ (silent_runCallback env _ rfl)
    exact ⟨⟨le_rfl, nofun⟩, fun _ => ⟨rfl, rfl⟩, nofun, nofun, nofun⟩

end Flags

/-! ### The stack -/

namespace TcpStack

/-- `conn_destroy` on a connection of the list. -/
def destroy (s : TcpStack) (i : ℕ) : TcpStack := put i (connDestroy (s.heap i).tcp) s

/-- `tcpstack_free`. -/
def free (s : TcpStack) : TcpStack := { s.conns.foldl destroy s with conns := [], listeners := [] }

end TcpStack

open TcpStack

/-- What can happen to a stack until it is gone. -/
inductive LifecycleEvent
  | stack (e : StackEvent)
  | free

/-- A stack with its flush queue, the list from `flush_head` on. -/
structure Lifecycle where
  stack : TcpStack
  flushQueue : List ℕ

/-- `schedule_flush` puts a connection at the end of the queue, unless it is there; `flush_remove` and
`flush_check_cb` take it off. -/
def requeue (s : TcpStack) (queue : List ℕ) (i : ℕ) : List ℕ :=
  if (s.heap i).tcp.conn.flushQueued then if i ∈ queue then queue else queue ++ [i]
  else queue.erase i

/-- The stack after `tcpstack_init`. -/
def Lifecycle.init (addrs : StackAddr) : Lifecycle := ⟨TcpStack.init addrs, []⟩

/-- One event. -/
def lifecycleStep (l : Lifecycle) (e : TcpEnv × LifecycleEvent) : Lifecycle :=
  let s := match e.2 with
    | .stack e' => stackStep l.stack (e.1, e')
    | .free => l.stack.free
  ⟨s, (List.range s.brk).foldl (requeue s) l.flushQueue⟩

section Stack

variable {s : TcpStack} {i j : ℕ} {tcp : Tcp}

theorem heap_put (j : ℕ) :
    ((put i tcp s).heap j).tcp = if j = i then tcp else (s.heap j).tcp := by
  rw [put, settle_heap]
  show (Function.update s.heap i { s.heap i with tcp := tcp } j).tcp = _
  by_cases hj : j = i
  · rw [if_pos hj, hj, Function.update_self]
  · rw [if_neg hj, Function.update_of_ne hj]

theorem brk_settle : (settle i s).brk = s.brk := by
  unfold settle
  split_ifs <;> rfl

theorem brk_put : (put i tcp s).brk = s.brk := brk_settle

/-- Destroying takes the connection off the list. -/
theorem conns_destroy (s : TcpStack) (i : ℕ) : (s.destroy i).conns = s.conns.erase i := by
  rw [destroy, put, settle_conns, if_pos]
  show (Function.update s.heap i _ i).tcp.conn.beingFreed = true
  rw [Function.update_self]
  exact freed_connDestroy _

/-- What holds of a stack and is kept by destroying a connection holds when all are destroyed. -/
theorem foldl_destroy {P : TcpStack → Prop} (hstep : ∀ s i, P s → P (s.destroy i)) (l : List ℕ)
    (h : P s) : P (l.foldl destroy s) := by
  induction l generalizing s with
  | nil => exact h
  | cons i l ih => exact ih (hstep s i h)

theorem conns_foldl_destroy (l : List ℕ) (s : TcpStack) :
    (l.foldl destroy s).conns = l.foldl List.erase s.conns := by
  induction l generalizing s with
  | nil => rfl
  | cons i l ih => rw [List.foldl_cons, List.foldl_cons, ih, conns_destroy]

theorem foldl_erase_self (l : List ℕ) : l.foldl List.erase l = [] := by
  induction l with
  | nil => rfl
  | cons i l ih => rw [List.foldl_cons, List.erase_cons_head, ih]

theorem sound_free (h : s.Sound) : s.free.Sound := by
  have hall : (s.conns.foldl destroy s).Sound := foldl_destroy (fun s i h => sound_put h) _ h
  have hnil : (s.conns.foldl destroy s).conns = [] := by
    rw [conns_foldl_destroy, foldl_erase_self]
  have hsame : s.free = { s.conns.foldl destroy s with listeners := [] } := by
    rw [TcpStack.free, ← hnil]
  rw [hsame]
  exact sound_listeners hall []

/-- All the connections that were made fit together. -/
def Accounts (s : TcpStack) : Prop := ∀ i < s.brk, Accountable (s.heap i).tcp

theorem accounts_put (h : Accounts s) (htcp : i < s.brk → Accountable tcp) :
    Accounts (put i tcp s) := by
  intro j hj
  rw [brk_put] at hj
  rw [heap_put]
  split_ifs with heq
  · exact htcp (heq ▸ hj)
  · exact h j hj

theorem accounts_link (h : Accounts s) (htcp : Accountable tcp) (addr : ConnAddr) :
    Accounts (link addr tcp s) := by
  intro j hj
  rcases Nat.lt_succ_iff_lt_or_eq.1 hj with hj | rfl
  · rw [heap_link_old hj]
    exact h j hj
  · rw [heap_link_new]
    exact htcp

theorem accounts_settle (h : Accounts s) : Accounts (settle i s) := by
  intro j hj
  rw [brk_settle] at hj
  rw [settle_heap]
  exact h j hj

theorem accounts_free (h : Accounts s) : Accounts s.free := by
  have hall : Accounts (s.conns.foldl destroy s) := by
    refine foldl_destroy (P := Accounts) (fun s i h => ?_) _ h
    exact accounts_put h fun hi => (h i hi).silent (silent_connDestroy _)
  exact hall

theorem accounts_stackStep (h : Accounts s) (e : TcpEnv × StackEvent) :
    Accounts (stackStep s e) := by
  obtain ⟨env, e⟩ := e
  cases e with
  | listen family localPort calloc =>
    simp only [stackStep, TcpStack.listen]
    split_ifs <;> exact h
  | connect remote iss handlers calloc =>
    simp only [stackStep, connect]
    cases s.connectAddr remote with
    | none => simpa only [ite_self] using h
    | some addr =>
      simp only
      split_ifs
      · exact h
      · exact h
      · have hport : Accounts { s with nextPort := s.advancePort } := h
        exact accounts_link hport (accountable_opened (.connect env iss handlers)) addr
  | packet pkt iss handlers calloc =>
    simp only [stackStep, input]
    cases decodePacket s.addrs pkt with
    | none => exact h
    | some d =>
      cases hlookup : s.bucketLookup (packetAddr d) with
      | some i =>
        simp only [hlookup]
        exact accounts_put h fun hi => accountable_tcpstackInput (h i hi) d.seg
      | none =>
        simp only [hlookup]
        split_ifs with hno hmem
        · exact h
        · exact h
        · simp only [Bool.or_eq_true, Bool.not_eq_true', not_or, Bool.not_eq_false,
            Bool.not_eq_true] at hno
          exact accounts_settle (accounts_link h
            (accountable_opened (.accept env iss handlers d.seg hno.1.2 hno.2)) _)
  | conn i e =>
    have hput : Accounts (if i < s.brk then s.put i (tcpStep (s.heap i).tcp (env, e)) else s) := by
      split_ifs
      · exact accounts_put h fun hi => accountable_tcpStep (h i hi) (env, e)
      · exact h
    cases e with
    | input seg => exact h
    | _ => exact hput

/-- A connection whose memory is gone is left alone. -/
theorem heap_put_of_released (hacc : Accounts s) (hj : j < s.brk)
    (hgone : (s.heap j).tcp.conn.released = true) {f : Tcp → Tcp}
    (hf : ∀ t : Tcp, t.conn.beingFreed = true → t.conn.released = true → f t = t) :
    ((put i (f (s.heap i).tcp) s).heap j).tcp = (s.heap j).tcp := by
  rw [heap_put]
  split_ifs with heq
  · subst heq
    refine hf _ ?_ hgone
    by_contra hlive
    exact absurd (((hacc j hj).live (Bool.eq_false_iff.2 hlive)).2.symm.trans hgone) (by decide)
  · rfl

theorem connDestroy_of_freed {t : Tcp} (h : t.conn.beingFreed = true) : connDestroy t = t := by
  rw [connDestroy, if_pos h]

/-- The counter of connections only grows. -/
theorem brk_free : s.free.brk = s.brk := by
  have hall : (s.conns.foldl destroy s).brk = s.brk := by
    refine foldl_destroy (P := fun s' => s'.brk = s.brk) (fun s' i h => ?_) _ rfl
    exact brk_put.trans h
  exact hall

theorem released_stackStep (hacc : Accounts s) (hj : j < s.brk)
    (hgone : (s.heap j).tcp.conn.released = true) (e : TcpEnv × StackEvent) :
    ((stackStep s e).heap j).tcp = (s.heap j).tcp ∧ j < (stackStep s e).brk := by
  have hkeep : ∀ {i : ℕ} {f : Tcp → Tcp},
      (∀ t : Tcp, t.conn.beingFreed = true → t.conn.released = true → f t = t) →
      ((put i (f (s.heap i).tcp) s).heap j).tcp = (s.heap j).tcp ∧
        j < (put i (f (s.heap i).tcp) s).brk :=
    fun hf => ⟨heap_put_of_released hacc hj hgone hf, by rw [brk_put]; exact hj⟩
  obtain ⟨env, e⟩ := e
  cases e with
  | listen family localPort calloc =>
    simp only [stackStep, TcpStack.listen]
    split_ifs <;> exact ⟨rfl, hj⟩
  | connect remote iss handlers calloc =>
    simp only [stackStep, connect]
    cases s.connectAddr remote with
    | none =>
      simp only [ite_self]
      exact ⟨trivial, hj⟩
    | some addr =>
      simp only
      split_ifs
      · exact ⟨rfl, hj⟩
      · exact ⟨rfl, hj⟩
      · exact ⟨congrArg StackConn.tcp (heap_link_old (s := { s with nextPort := s.advancePort }) hj),
          Nat.lt_succ_of_lt hj⟩
  | packet pkt iss handlers calloc =>
    simp only [stackStep, input]
    cases decodePacket s.addrs pkt with
    | none => exact ⟨rfl, hj⟩
    | some d =>
      cases hlookup : s.bucketLookup (packetAddr d) with
      | some i =>
        simp only [hlookup]
        refine hkeep (f := tcpstackInput env d.seg) fun t hfreed _ => ?_
        rw [tcpstackInput, if_pos hfreed]
      | none =>
        simp only [hlookup]
        split_ifs
        · exact ⟨rfl, hj⟩
        · exact ⟨rfl, hj⟩
        · rw [settle_heap, heap_link_old hj, brk_settle]
          exact ⟨rfl, Nat.lt_succ_of_lt hj⟩
  | conn i e =>
    have hput : ((if i < s.brk then s.put i (tcpStep (s.heap i).tcp (env, e)) else s).heap j).tcp =
        (s.heap j).tcp ∧
        j < (if i < s.brk then s.put i (tcpStep (s.heap i).tcp (env, e)) else s).brk := by
      split_ifs
      · refine hkeep (f := fun t => tcpStep t (env, e)) fun t _ hrel => ?_
        rw [tcpStep_released hrel]
      · exact ⟨rfl, hj⟩
    cases e with
    | input seg => exact ⟨rfl, hj⟩
    | _ => exact hput

theorem released_free (hacc : Accounts s) (hj : j < s.brk)
    (hgone : (s.heap j).tcp.conn.released = true) : (s.free.heap j).tcp = (s.heap j).tcp := by
  have hall : Accounts (s.conns.foldl destroy s) ∧ j < (s.conns.foldl destroy s).brk ∧
      ((s.conns.foldl destroy s).heap j).tcp = (s.heap j).tcp := by
    refine foldl_destroy (P := fun s' => Accounts s' ∧ j < s'.brk ∧
      (s'.heap j).tcp = (s.heap j).tcp) (fun s' i h => ⟨?_, ?_, ?_⟩) _ ⟨hacc, hj, rfl⟩
    · exact accounts_put h.1 fun hi => (h.1 i hi).silent (silent_connDestroy _)
    · exact h.2.1.trans_eq brk_put.symm
    · rw [← h.2.2] at hgone ⊢
      exact heap_put_of_released h.1 h.2.1 hgone fun t hfreed _ => connDestroy_of_freed hfreed
  exact hall.2.2

/-! ### The flush queue -/

variable {queue : List ℕ}

theorem nodup_requeue (h : queue.Nodup) : (requeue s queue i).Nodup := by
  unfold requeue
  split_ifs with _ hmem
  · exact h
  · exact List.nodup_append'.2 ⟨h, List.nodup_singleton i, List.disjoint_singleton.2 hmem⟩
  · exact h.erase i

theorem mem_requeue (h : queue.Nodup) :
    j ∈ requeue s queue i ↔ if j = i then (s.heap i).tcp.conn.flushQueued = true else j ∈ queue := by
  unfold requeue
  by_cases hj : j = i
  · subst hj
    rw [if_pos rfl]
    split_ifs with hqueued hmem
    · exact iff_of_true hmem hqueued
    · exact iff_of_true (List.mem_append_right _ (List.mem_singleton_self j)) hqueued
    · exact iff_of_false h.not_mem_erase hqueued
  · rw [if_neg hj]
    split_ifs
    · exact Iff.rfl
    · simp [hj]
    · exact List.mem_erase_of_ne hj

/-- **The links follow the list**: where the pointers hold the queue, they hold it after a function
of the queue has made the connection what it is now. -/
theorem exact_requeue {f : FlushStack} (h : f.Exact FlushStack.queued FlushStack.destroyed queue)
    (hi : i < f.brk) (hlive : (s.heap i).tcp.conn.flushQueued = true →
      (s.heap i).tcp.conn.beingFreed = false) :
    (f.move FlushStack.queued i (s.heap i).tcp).Exact FlushStack.queued FlushStack.destroyed
      (requeue s queue i) :=
  Linked.Arena.exact_move h hi hlive

/-- After all the connections were looked at, the queue holds those whose flag is set. -/
theorem foldl_requeue (l : List ℕ) (h : queue.Nodup) :
    (l.foldl (requeue s) queue).Nodup ∧ ∀ j, j ∈ l.foldl (requeue s) queue ↔
      if j ∈ l then (s.heap j).tcp.conn.flushQueued = true else j ∈ queue := by
  induction l generalizing queue with
  | nil => exact ⟨h, fun j => by simp⟩
  | cons i l ih =>
    obtain ⟨hnodup, hmem⟩ := ih (nodup_requeue (s := s) (i := i) h)
    refine ⟨hnodup, fun j => ?_⟩
    rw [List.foldl_cons, hmem j]
    by_cases hj : j ∈ l
    · rw [if_pos hj, if_pos (List.mem_cons_of_mem i hj)]
    · rw [if_neg hj, mem_requeue h]
      by_cases heq : j = i
      · rw [if_pos heq, if_pos (heq ▸ List.mem_cons_self), heq]
      · rw [if_neg heq, if_neg (by simp [heq, hj])]

end Stack

/-! ### Runs -/

/-- The invariant of a stack with its flush queue. -/
structure Lifecycle.Sound (l : Lifecycle) : Prop where
  stack : l.stack.Sound
  accounts : Accounts l.stack
  nodup : l.flushQueue.Nodup
  queued : ∀ i, i ∈ l.flushQueue ↔ i < l.stack.brk ∧ (l.stack.heap i).tcp.conn.flushQueued = true

theorem brk_shape {s s' : TcpStack} {opened : Option ConnAddr} (h : Shape s opened s') :
    s.brk ≤ s'.brk := by
  cases h with
  | same ls => exact le_rfl
  | put i tcp => exact brk_put.ge
  | connect addr tcp hlive => exact Nat.le_succ _
  | accept addr tcp hnone =>
    rw [brk_settle]
    exact Nat.le_succ _

section Runs

variable {l : Lifecycle} {i : ℕ}

theorem lifecycleStep_stack (e : TcpEnv × LifecycleEvent) :
    (lifecycleStep l e).stack = match e.2 with
      | .stack e' => stackStep l.stack (e.1, e')
      | .free => l.stack.free := rfl

theorem sound_lifecycleStep (h : l.Sound) (e : TcpEnv × LifecycleEvent) :
    (lifecycleStep l e).Sound := by
  obtain ⟨env, e⟩ := e
  have hstack : (lifecycleStep l (env, e)).stack.Sound ∧ Accounts (lifecycleStep l (env, e)).stack ∧
      l.stack.brk ≤ (lifecycleStep l (env, e)).stack.brk := by
    rw [lifecycleStep_stack]
    cases e with
    | stack e =>
      have hshape := stackStep_shape l.stack (env, e)
      exact ⟨sound_shape h.stack hshape, accounts_stackStep h.accounts (env, e), brk_shape hshape⟩
    | free => exact ⟨sound_free h.stack, accounts_free h.accounts, brk_free.ge⟩
  obtain ⟨hsound, hacc, hbrk⟩ := hstack
  obtain ⟨hnodup, hmem⟩ := foldl_requeue (s := (lifecycleStep l (env, e)).stack)
    (List.range (lifecycleStep l (env, e)).stack.brk) h.nodup
  refine ⟨hsound, hacc, hnodup, fun i => (hmem i).trans ?_⟩
  split_ifs with hi
  · simp only [List.mem_range.1 hi, true_and]
  · rw [List.mem_range] at hi
    -- a connection that was not made is not queued
    refine iff_of_false (fun hold => hi ?_) fun hnew => hi hnew.1
    exact ((h.queued i).1 hold).1.trans_le hbrk

theorem sound_init (addrs : StackAddr) : (Lifecycle.init addrs).Sound :=
  ⟨linked_init addrs, fun _ h => absurd h (Nat.not_lt_zero _), List.nodup_nil,
    fun _ => iff_of_false List.not_mem_nil fun h => Nat.not_lt_zero _ h.1⟩

theorem sound_lifecycle (addrs : StackAddr) (es : List (TcpEnv × LifecycleEvent)) :
    (Machine.run lifecycleStep (Lifecycle.init addrs) es).Sound :=
  @Machine.run_induction' _ _ lifecycleStep Lifecycle.Sound (fun _ e h => sound_lifecycleStep h e) _
    (sound_init addrs) es

/-- A connection whose memory is gone hears of nothing any more. -/
theorem released_run (h : l.Sound) (hi : i < l.stack.brk)
    (hgone : (l.stack.heap i).tcp.conn.released = true) (es : List (TcpEnv × LifecycleEvent)) :
    ((Machine.run lifecycleStep l es).stack.heap i).tcp = (l.stack.heap i).tcp := by
  induction es generalizing l with
  | nil => rfl
  | cons e es ih =>
    obtain ⟨env, e⟩ := e
    have hstep : ((lifecycleStep l (env, e)).stack.heap i).tcp = (l.stack.heap i).tcp ∧
        i < (lifecycleStep l (env, e)).stack.brk := by
      rw [lifecycleStep_stack]
      cases e with
      | stack e => exact released_stackStep h.accounts hi hgone (env, e)
      | free => exact ⟨released_free h.accounts hi hgone, hi.trans_eq brk_free.symm⟩
    exact (ih (sound_lifecycleStep h (env, e)) hstep.2 (hstep.1 ▸ hgone)).trans hstep.1

end Runs

/-- What holds of a connection whose memory is gone: it was notified once, no timer runs, and it is
in no list of the stack. -/
structure Lifecycle.Gone (l : Lifecycle) (i : ℕ) : Prop where
  told : terminals (l.stack.heap i).tcp.trace = 1
  idle : (l.stack.heap i).tcp.conn.Idle
  closed : (l.stack.heap i).tcp.conn.closePending = 0
  conns : i ∉ l.stack.conns
  buckets : ∀ b, i ∉ l.stack.buckets b
  flushQueue : i ∉ l.flushQueue

/-- **Terminal callbacks fire once**: whatever happens to a stack, a connection with its callbacks
set is told at most once that it is over, and exactly once when its memory goes; from then on it is
in no list, and its callbacks are never called again. -/
theorem terminal_callbacks_once (addrs : StackAddr) (es : List (TcpEnv × LifecycleEvent)) (i : ℕ)
    (hi : i < (Machine.run lifecycleStep (Lifecycle.init addrs) es).stack.brk)
    (hset : ((Machine.run lifecycleStep (Lifecycle.init addrs) es).stack.heap
      i).tcp.conn.handlers.onClose = true) :
    terminals ((Machine.run lifecycleStep (Lifecycle.init addrs) es).stack.heap i).tcp.trace ≤ 1 ∧
    (((Machine.run lifecycleStep (Lifecycle.init addrs) es).stack.heap i).tcp.conn.released = true →
      (Machine.run lifecycleStep (Lifecycle.init addrs) es).Gone i ∧
      ∀ es', ((Machine.run lifecycleStep (Lifecycle.init addrs) (es ++ es')).stack.heap i).tcp =
        ((Machine.run lifecycleStep (Lifecycle.init addrs) es).stack.heap i).tcp) := by
  have h := sound_lifecycle addrs es
  set l := Machine.run lifecycleStep (Lifecycle.init addrs) es with hl
  have hacc := h.accounts i hi
  refine ⟨hacc.atMost.trans ?_, fun hgone => ?_⟩
  · split_ifs
    · exact le_rfl
    · exact Nat.zero_le 1
  · have hfreed : (l.stack.heap i).tcp.conn.beingFreed = true := by
      by_contra hlive
      rw [(hacc.live (Bool.eq_false_iff.2 hlive)).2] at hgone
      cases hgone
    have hconns : i ∉ l.stack.conns := fun hmem => by
      have hlive : (l.stack.heap i).tcp.conn.beingFreed = false := h.stack.live i hmem nofun
      rw [hfreed] at hlive
      cases hlive
    have hbuckets : ∀ b, i ∉ l.stack.buckets b := fun b hmem => by
      rw [h.stack.buckets b] at hmem
      exact hconns (List.mem_of_mem_filter hmem)
    have hqueue : i ∉ l.flushQueue := fun hmem => by
      rw [h.queued i, (hacc.idle hfreed).flushQueued] at hmem
      cases hmem.2
    refine ⟨⟨hacc.told (hacc.gone hgone).2 hset, hacc.idle hfreed, (hacc.gone hgone).1, hconns,
      hbuckets, hqueue⟩, fun es' => ?_⟩
    rw [Machine.run_append, ← hl]
    exact released_run h hi hgone es'

/-- A connection that is closed while its SYN is out, until both timers have closed. -/
def closedRun : List (TcpEnv × LifecycleEvent) :=
  [(exampleEnv, .stack (.connect exampleRemote 0 exampleHandlers true)),
    (exampleEnv, .stack (.conn 0 (.call .close))), (exampleEnv, .stack (.conn 0 .timerClose)),
    (exampleEnv, .stack (.conn 0 .timerClose))]

theorem terminal_callbacks_once_closed :
    ((Machine.run lifecycleStep (Lifecycle.init exampleStackAddr) closedRun).stack.heap
      0).tcp.conn.released = true ∧
    (Machine.run lifecycleStep (Lifecycle.init exampleStackAddr) closedRun).Gone 0 := by
  have hgone : ((Machine.run lifecycleStep (Lifecycle.init exampleStackAddr) closedRun).stack.heap
      0).tcp.conn.released = true := by decide +kernel
  exact ⟨hgone, ((terminal_callbacks_once exampleStackAddr closedRun 0 (by decide +kernel)
    (by decide +kernel)).2 hgone).1⟩

end Wgx
