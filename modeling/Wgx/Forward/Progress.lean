import Wgx.Forward.Relay
import Wgx.Tcp.Timer

/-!
# Does the forwarder go on?

* `forwardOwner`, `relayStep`: the relay as the owner of its connection, the callbacks of which it
  answers;
* `Waits`: what holds of the flags of a relay;
* `Forward.Supplied`: where local bytes wait, the tunnel has bytes to be acknowledged;
* `supplied_iff`: when this holds in a whole run.
-/

namespace Wgx

/-! ### The relay and its connection -/

/-- What the relay does in a callback of the stack. -/
def forwardCallback (env : ForwardEnv) (cb : Callback) (f : Forward) : Forward :=
  match cb with
  | .data data => forwardWgOnData env data f
  | .writeable => forwardWgOnWriteable env f
  | .close => forwardWgOnClose f
  | .connect _ | .accept => f

/-- The stack works on the connection of the relay. -/
def Forward.on (g : Tcp → Tcp) (f : Forward) : Forward := { f with tcp := g f.tcp }

/-- The relay answers a callback of the stack, which is recorded. -/
def forwardOn (env : ForwardEnv) (cb : Callback) (f : Forward) : Forward :=
  forwardCallback env cb (f.on fun t => t.log [.callback cb])

/-- The relay is the owner of its connection. -/
abbrev forwardOwner (env : ForwardEnv) : Owner Forward :=
  ⟨env.tcp, Forward.tcp, Forward.on, forwardOn env, fun _ _ => rfl⟩

/-- What can happen to a relay and its connection: an event of the stack, or one of the event
loop. -/
inductive RelayEvent
  | tunnel (e : TcpEvent)
  | connected (status : ℤ)
  | localRead (nread : ℤ) (buf : List Byte)
  | writeDone (status : ℤ)
  | localClosed

/-- One event in its environment.  The calls into the stack are those of the relay. -/
def relayStep (f : Forward) (e : ForwardEnv × RelayEvent) : Forward :=
  match e.2 with
  | .tunnel (.call _) => f
  | .tunnel e' => ownedStep (forwardOwner e.1) e' f
  | .connected status => forwardStep f (e.1, .connected status)
  | .localRead nread buf => forwardStep f (e.1, .localRead nread buf)
  | .writeDone status => forwardStep f (e.1, .writeDone status)
  | .localClosed => forwardStep f (e.1, .localClosed)

/-- A relay on a connection that a listener has just accepted. -/
def relayAccept (env : ForwardEnv) (iss : Seq) (seg : Inbound) : Forward :=
  forwardOnAccept env (tcpstackAccept env.tcp iss forwardHandlers seg)

/-! ### Flags -/

/-- What holds of the flags: before the local connect is done nothing is read, a relay without
connection is closing, and what is closed was closing. -/
structure ForwardConn.Waits (conn : ForwardConn) : Prop where
  pending : conn.localConnected = false → conn.pendingLocal.data = []
  paused : conn.localConnected = false → conn.localReadPaused = false
  reading : conn.localConnected = false → conn.reading = false
  wgConn : conn.wgConn = false → conn.localClosing = true
  closed : conn.localClosed = true → conn.localClosing = true

/-- Where the tunnel is established, nobody is closing, and local bytes wait or reading is paused, the
tunnel has bytes to be acknowledged. -/
def Forward.Supplied (f : Forward) : Prop :=
  f.tcp.conn.state = .established → f.tcp.conn.beingFreed = false → f.conn.closing = false →
    f.conn.localClosing = false →
      f.conn.pendingLocal.data ≠ [] ∨ f.conn.localReadPaused = true → 0 < f.tcp.conn.sendbufLen

/-! ### The connection -/

/-- The states before `ESTABLISHED`. -/
def TcpState.opening : TcpState → Bool
  | .synReceived | .synSent => true
  | _ => false

/-- The callbacks stay set, and a connection that is still being opened has nothing new to send. -/
structure Onward (t t' : Tcp) : Prop where
  handlers : t'.conn.handlers = t.conn.handlers
  opening : t'.conn.state.opening = true →
    t'.conn.state = t.conn.state ∧ t'.conn.sendbufLen = t.conn.sendbufLen

/-- Nothing has changed that a relay waits for. -/
structure SameSupply (t t' : Tcp) : Prop where
  handlers : t'.conn.handlers = t.conn.handlers
  state : t'.conn.state = t.conn.state
  beingFreed : t'.conn.beingFreed = t.conn.beingFreed
  sendbufLen : t'.conn.sendbufLen = t.conn.sendbufLen

theorem Onward.refl (t : Tcp) : Onward t t := ⟨rfl, fun _ => ⟨rfl, rfl⟩⟩

theorem Onward.trans {t t' t'' : Tcp} (h : Onward t t') (h' : Onward t' t'') : Onward t t'' := by
  refine ⟨h'.handlers.trans h.handlers, fun hst => ?_⟩
  obtain ⟨hst', hlen'⟩ := h'.opening hst
  obtain ⟨hst'', hlen⟩ := h.opening (hst' ▸ hst)
  exact ⟨hst'.trans hst'', hlen'.trans hlen⟩

theorem SameSupply.refl (t : Tcp) : SameSupply t t := ⟨rfl, rfl, rfl, rfl⟩

theorem SameSupply.trans {t t' t'' : Tcp} (h : SameSupply t t') (h' : SameSupply t' t'') :
    SameSupply t t'' :=
  ⟨h'.handlers.trans h.handlers, h'.state.trans h.state, h'.beingFreed.trans h.beingFreed,
    h'.sendbufLen.trans h.sendbufLen⟩

theorem SameSupply.onward {t t' : Tcp} (h : SameSupply t t') : Onward t t' :=
  ⟨h.handlers, fun _ => ⟨h.state, h.sendbufLen⟩⟩

/-- A connection that is not, or no longer, being opened. -/
theorem onward_of_state {t t' : Tcp} (hhandlers : t'.conn.handlers = t.conn.handlers)
    (hst : t'.conn.state.opening = false) : Onward t t' := by
  refine ⟨hhandlers, fun h => ?_⟩
  rw [hst] at h
  cases h

section Connection

variable (env : TcpEnv) (t : Tcp)

theorem sameSupply_tcpFlushPending : SameSupply t (tcpFlushPending env t) := by
  unfold tcpFlushPending
  by_cases hoff : t.conn.beingFreed = true ∨ t.conn.state ≠ .established
  · rw [if_pos hoff]
    exact .refl t
  · rw [if_neg hoff]
    simp only
    split_ifs <;> exact ⟨rfl, rfl, rfl, rfl⟩

theorem sameSupply_scheduleFlush : SameSupply t (scheduleFlush t) := by
  unfold scheduleFlush
  split_ifs <;> exact ⟨rfl, rfl, rfl, rfl⟩

theorem sameSupply_tcpAckNow : SameSupply t (tcpAckNow env t) := by
  unfold tcpAckNow
  split_ifs <;> exact ⟨rfl, rfl, rfl, rfl⟩

theorem sameSupply_tcpAckData (len : ℕ) (immediate : Bool) :
    SameSupply t (tcpAckData env len immediate t) := by
  have hcount : SameSupply t (t.update fun conn => { conn with
      delayedAckSegments := conn.delayedAckSegments + 1
      delayedAckBytes := conn.delayedAckBytes + len }) := ⟨rfl, rfl, rfl, rfl⟩
  unfold tcpAckData
  simp only
  split_ifs
  · exact .refl t
  · exact sameSupply_tcpAckNow env t
  · exact hcount.trans (sameSupply_tcpAckNow env _)
  · exact hcount.trans ⟨rfl, rfl, rfl, rfl⟩
  · exact hcount

theorem sameSupply_updateSndWnd (seg : Inbound) : SameSupply t (updateSndWnd seg t) :=
  ⟨rfl, rfl, rfl, rfl⟩

theorem sameSupply_tcpOooQueue (seq : Seq) (data : List Byte) :
    SameSupply t (t.update (tcpOooQueue env seq data)) := by
  have hframe := tcpOooQueue_frame env seq data t.conn
  refine ⟨?_, ?_, ?_, ?_⟩ <;>
    · rw [Tcp.update_conn, hframe]

theorem sameSupply_flushCheckCb : SameSupply t (flushCheckCb env t) := by
  have hoff : SameSupply t (t.update fun conn => { conn with flushQueued := false }) :=
    ⟨rfl, rfl, rfl, rfl⟩
  unfold flushCheckCb
  simp only
  split_ifs
  · exact hoff
  · exact hoff.trans (sameSupply_tcpFlushPending env _)

theorem sameSupply_delayedAckCb : SameSupply t (delayedAckCb env t) := by
  have hoff : SameSupply t (t.update fun conn => { conn with ackTimer := false }) :=
    ⟨rfl, rfl, rfl, rfl⟩
  unfold delayedAckCb
  simp only
  split_ifs
  · exact hoff
  · exact hoff
  · exact hoff.trans (sameSupply_tcpAckNow env _)

theorem onward_connDestroy : Onward t (connDestroy t) := by
  unfold connDestroy
  split_ifs
  · exact .refl t
  · exact ⟨rfl, fun _ => ⟨rfl, rfl⟩⟩

theorem onward_tcpClose : Onward t (tcpClose env t) := by
  unfold tcpClose
  split_ifs
  · exact .refl t
  · cases hst : t.conn.state with
    | established => exact onward_of_state rfl rfl
    | closeWait => exact onward_of_state rfl rfl
    | synSent =>
      have hreset : Onward t (sendSegment env { rst := true } t.conn.sndNxt 0 []
          (t.update fun conn => { conn with state := .closed })) := onward_of_state rfl rfl
      exact hreset.trans (onward_connDestroy _)
    | _ => exact onward_connDestroy t

/-- What `tcp_send` takes is in the send buffer until it is acknowledged. -/
theorem onward_tcpSend (data : List Byte) :
    Onward t (tcpSend env data t).2 ∧ (0 ≤ (tcpSend env data t).1 → data ≠ [] →
      0 < (tcpSend env data t).2.conn.sendbufLen) := by
  have hrefused : Onward t t ∧ (0 ≤ (-1 : ℤ) → data ≠ [] → 0 < t.conn.sendbufLen) :=
    ⟨.refl t, fun h => absurd h (by decide)⟩
  unfold tcpSend
  split_ifs with hfreed hst hnil
  · exact hrefused
  · exact hrefused
  · exact ⟨.refl t, fun _ hdata => absurd (List.length_eq_zero_iff.1 hnil) hdata⟩
  · exact hrefused
  · exact hrefused
  cases hgrow : sendbufGrow env t.conn (t.conn.sendbufLen + data.length) with
  | none => exact hrefused
  | some grown =>
    have hframe := sendbufGrow_frame hgrow
    rw [not_not] at hst
    have hafter : ∀ t' : Tcp, SameSupply ((t.update fun _ =>
        sendbufAppend grown data).log [.accepted data]) t' →
        Onward t t' ∧ (0 ≤ (0 : ℤ) → data ≠ [] → 0 < t'.conn.sendbufLen) := by
      intro t' hs
      have hstate : t'.conn.state = .established := by
        rw [hs.state]
        show grown.state = _
        rw [hframe]
        exact hst
      refine ⟨onward_of_state ?_ (by rw [hstate]; rfl), fun _ hdata => ?_⟩
      · rw [hs.handlers]
        show grown.handlers = _
        rw [hframe]
      · rw [hs.sendbufLen]
        have hpos := List.length_pos_iff.2 hdata
        show 0 < grown.sendbufLen + data.length
        omega
    simp only
    split_ifs
    · exact hafter _ (sameSupply_tcpFlushPending env _)
    · exact hafter _ (sameSupply_scheduleFlush _)

end Connection

section Functions

variable {env : ForwardEnv} {f f' : Forward}

theorem supplied_of_closing (h : f.conn.closing = true) : f.Supplied := by
  intro _ _ hopen
  rw [h] at hopen
  cases hopen

theorem closing_forwardClose : (forwardClose env f).conn.closing = true := by
  unfold forwardClose
  by_cases hclosing : f.conn.closing = true
  · rw [if_pos hclosing]
    exact hclosing
  · rw [if_neg hclosing]
    simp only
    unfold forwardCloseLocal
    split_ifs <;> rfl

theorem supplied_forwardClose : (forwardClose env f).Supplied :=
  supplied_of_closing closing_forwardClose

/-- The flags still fit together, and so does the connection. -/
structure Goes (f f' : Forward) : Prop where
  waits : f.conn.Waits → f'.conn.Waits
  onward : Onward f.tcp f'.tcp

theorem Goes.refl (f : Forward) : Goes f f := ⟨id, .refl _⟩

theorem Goes.trans {f'' : Forward} (h : Goes f f') (h' : Goes f' f'') : Goes f f'' :=
  ⟨fun hw => h'.waits (h.waits hw), h.onward.trans h'.onward⟩

theorem goes_update {g : ForwardConn → ForwardConn} (h : f.conn.Waits → (g f.conn).Waits) :
    Goes f (f.update g) := ⟨h, .refl _⟩

theorem goes_log (e : ForwardEntry) : Goes f (f.log e) := ⟨id, .refl _⟩

theorem goes_forwardCloseLocal : Goes f (forwardCloseLocal f) := by
  unfold forwardCloseLocal
  split_ifs
  · exact .refl f
  · exact goes_update fun h => ⟨h.pending, h.paused, fun _ => rfl, fun _ => rfl, fun _ => rfl⟩

theorem goes_forwardClose : Goes f (forwardClose env f) := by
  have hflag : Goes f (f.update fun conn => { conn with closing := true }) :=
    goes_update fun h => ⟨h.pending, h.paused, h.reading, h.wgConn, h.closed⟩
  unfold forwardClose
  simp only
  split_ifs
  · exact .refl f
  · refine Goes.trans ?_ goes_forwardCloseLocal
    exact ⟨hflag.waits, onward_tcpClose env.tcp f.tcp⟩
  · exact hflag.trans goes_forwardCloseLocal

/-! ### Flushing into the tunnel -/

theorem goes_forwardTcpSend (data : List Byte) : Goes f (forwardTcpSend env data f).2 :=
  ⟨id, (onward_tcpSend env.tcp f.tcp data).1⟩

theorem goes_flushLocalLoop (fuel : ℕ) : Goes f (flushLocalLoop env fuel f).2 := by
  induction fuel generalizing f with
  | zero => exact .refl f
  | succ fuel ih =>
    unfold flushLocalLoop
    by_cases hidle : (!f.conn.wgConn) = true ∨ f.conn.pendingLocal.data.length = 0
    · rw [if_pos hidle]
      exact .refl f
    rw [if_neg hidle]
    simp only
    by_cases havail : tcpSendAvailable f.tcp.conn = 0
    · rw [if_pos havail]
      exact .refl f
    rw [if_neg havail]
    generalize (if f.conn.pendingLocal.data.length < tcpSendAvailable f.tcp.conn then
      f.conn.pendingLocal.data.length else tcpSendAvailable f.tcp.conn) = k
    have hsend := @goes_forwardTcpSend env f (f.conn.pendingLocal.data.take k)
    split_ifs
    · exact hsend.trans goes_forwardClose
    · refine (hsend.trans (goes_update fun h => ?_)).trans ih
      exact ⟨fun hno => by rw [h.pending hno, List.drop_nil], h.paused, h.reading, h.wgConn,
        h.closed⟩

/-- The loop ends when nothing is left, or nothing fits; or the relay was closed. -/
theorem flushLocalLoop_stops (fuel : ℕ) (hfuel : f.conn.pendingLocal.data.length ≤ fuel) :
    (flushLocalLoop env fuel f).1 = false ∧ (flushLocalLoop env fuel f).2.conn.closing = true ∨
      (flushLocalLoop env fuel f).1 = true ∧
        ((flushLocalLoop env fuel f).2.conn.wgConn = false ∨
          (flushLocalLoop env fuel f).2.conn.pendingLocal.data = [] ∨
          tcpSendAvailable (flushLocalLoop env fuel f).2.tcp.conn = 0) := by
  induction fuel generalizing f with
  | zero => exact Or.inr ⟨rfl, Or.inr (Or.inl (List.length_eq_zero_iff.1 (Nat.le_zero.1 hfuel)))⟩
  | succ fuel ih =>
    unfold flushLocalLoop
    by_cases hidle : (!f.conn.wgConn) = true ∨ f.conn.pendingLocal.data.length = 0
    · rw [if_pos hidle]
      refine Or.inr ⟨rfl, hidle.elim (fun hno => Or.inl ?_) fun hnil => Or.inr (Or.inl ?_)⟩
      · simpa using hno
      · exact List.length_eq_zero_iff.1 hnil
    rw [if_neg hidle]
    simp only
    by_cases havail : tcpSendAvailable f.tcp.conn = 0
    · rw [if_pos havail]
      exact Or.inr ⟨rfl, Or.inr (Or.inr havail)⟩
    rw [if_neg havail]
    have hk : 0 < (if f.conn.pendingLocal.data.length < tcpSendAvailable f.tcp.conn then
        f.conn.pendingLocal.data.length else tcpSendAvailable f.tcp.conn) := by
      push Not at hidle
      split_ifs
      · exact Nat.pos_of_ne_zero hidle.2
      · exact Nat.pos_of_ne_zero havail
    generalize (if f.conn.pendingLocal.data.length < tcpSendAvailable f.tcp.conn then
      f.conn.pendingLocal.data.length else tcpSendAvailable f.tcp.conn) = k at hk ⊢
    split_ifs
    · exact Or.inl ⟨rfl, closing_forwardClose⟩
    · refine ih ?_
      show (f.conn.pendingLocal.data.drop k).length ≤ fuel
      rw [List.length_drop]
      omega

theorem goes_forwardReadStart (hyes : f.conn.localConnected = true) :
    Goes f (forwardReadStart env f) := by
  unfold forwardReadStart
  split_ifs
  · exact goes_forwardClose
  · refine goes_update fun h => ⟨h.pending, h.paused, fun hno => ?_, h.wgConn, h.closed⟩
    rw [show f.conn.localConnected = false from hno] at hyes
    cases hyes

theorem goes_forwardResume : Goes f (forwardResume env f) := by
  unfold forwardResume
  split_ifs with hresume
  · refine Goes.trans (goes_update fun h => ?_) (goes_forwardReadStart hresume.2.2.1)
    exact ⟨h.pending, fun _ => rfl, h.reading, h.wgConn, h.closed⟩
  · exact .refl f

theorem goes_forwardFlushPendingLocal : Goes f (forwardFlushPendingLocal env f) := by
  have hloop := @goes_flushLocalLoop env f f.conn.pendingLocal.data.length
  unfold forwardFlushPendingLocal
  simp only
  split_ifs
  · exact hloop.trans goes_forwardResume
  · exact hloop

/-- Where nothing fits into an established connection, it is full. -/
theorem sendbufLen_of_not_available {conn : Conn} (hfull : tcpSendAvailable conn = 0)
    (hst : conn.state = .established) (hlive : conn.beingFreed = false) : 0 < conn.sendbufLen := by
  rw [tcpSendAvailable, if_neg (by rw [hst, hlive]; decide)] at hfull
  have hsize : 0 < wgTcpSendbufSize := by decide
  omega

/-- What waits behind the flush waits for a full tunnel. -/
theorem supplied_forwardResume (h : f.conn.Waits) (hstop : f.conn.wgConn = false ∨
    f.conn.pendingLocal.data = [] ∨ tcpSendAvailable f.tcp.conn = 0) :
    (forwardResume env f).Supplied := by
  unfold forwardResume
  split_ifs with hresume
  · unfold forwardReadStart
    split_ifs
    · exact supplied_forwardClose
    · rintro - - - - (hpending | hpaused)
      · exact absurd (List.length_eq_zero_iff.1 hresume.1) hpending
      · cases hpaused
  · intro hst hlive _ hopen hwaits
    rcases hstop with hno | hnil | hfull
    · rw [h.wgConn hno] at hopen
      cases hopen
    · have hpaused : f.conn.localReadPaused = true := hwaits.resolve_left fun hne => hne hnil
      refine absurd ⟨List.length_eq_zero_iff.2 hnil, hpaused, ?_, by rw [hopen]; rfl, ?_⟩ hresume
      · by_contra hno
        rw [h.paused (Bool.eq_false_iff.2 hno)] at hpaused
        cases hpaused
      · cases hclosed : f.conn.localClosed with
        | false => rfl
        | true =>
          rw [h.closed hclosed] at hopen
          cases hopen
    · exact sendbufLen_of_not_available hfull hst hlive

/-- **Behind `forward_flush_pending_local` nothing waits in vain.** -/
theorem supplied_forwardFlushPendingLocal (h : f.conn.Waits) :
    (forwardFlushPendingLocal env f).Supplied := by
  have hgoes := @goes_flushLocalLoop env f f.conn.pendingLocal.data.length
  unfold forwardFlushPendingLocal
  simp only
  rcases @flushLocalLoop_stops env f _ le_rfl with ⟨hshut, hclosing⟩ | ⟨hdone, hstop⟩
  · rw [hshut, if_neg (by decide)]
    exact supplied_of_closing hclosing
  · rw [hdone, if_pos rfl]
    exact supplied_forwardResume (hgoes.waits h) hstop

/-! ### Callbacks of the relay -/

theorem forwardWriteLocal_same (data : List Byte) :
    (forwardWriteLocal env data f).2.conn = f.conn ∧ (forwardWriteLocal env data f).2.tcp = f.tcp := by
  unfold forwardWriteLocal
  split_ifs <;> exact ⟨rfl, rfl⟩

theorem Goes.of_same (hconn : f'.conn = f.conn) (htcp : f'.tcp = f.tcp) : Goes f f' :=
  ⟨fun h => hconn ▸ h, htcp ▸ .refl _⟩

/-- Where no more waits than before, and the connection is as it was. -/
theorem Forward.Supplied.of_fields (h : f.Supplied)
    (hwait : f'.conn.pendingLocal.data ≠ [] ∨ f'.conn.localReadPaused = true →
      f.conn.pendingLocal.data ≠ [] ∨ f.conn.localReadPaused = true)
    (hclosing : f.conn.closing = f'.conn.closing)
    (hlocal : f.conn.localClosing = f'.conn.localClosing) (htcp : SameSupply f.tcp f'.tcp) :
    f'.Supplied := by
  intro hst hlive hopen hopen' hwaits
  rw [htcp.sendbufLen]
  exact h (htcp.state ▸ hst) (htcp.beingFreed ▸ hlive) (hclosing.trans hopen) (hlocal.trans hopen')
    (hwait hwaits)

theorem Forward.Supplied.of_same (h : f.Supplied) (hconn : f'.conn = f.conn)
    (htcp : SameSupply f.tcp f'.tcp) : f'.Supplied :=
  h.of_fields (by rw [hconn]; exact id) (by rw [hconn]) (by rw [hconn]) htcp

theorem goes_forwardWgOnWriteable : Goes f (forwardWgOnWriteable env f) := by
  unfold forwardWgOnWriteable
  split_ifs
  · exact .refl f
  · exact goes_forwardFlushPendingLocal

theorem goes_forwardWgOnClose : Goes f (forwardWgOnClose f) := by
  unfold forwardWgOnClose forwardCloseLocal
  refine ⟨fun h => ?_, ?_⟩
  · split_ifs with hdone
    · exact ⟨h.pending, h.paused, h.reading, fun _ => hdone.elim id h.closed, h.closed⟩
    · exact ⟨h.pending, h.paused, fun _ => rfl, fun _ => rfl, fun _ => rfl⟩
  · split_ifs <;> exact .refl _

theorem goes_forwardWgOnData (data : List Byte) : Goes f (forwardWgOnData env data f) := by
  unfold forwardWgOnData
  simp only
  by_cases hclosing : (f.log (.delivered data)).conn.closing = true
  · rw [if_pos hclosing]
    exact goes_log _
  rw [if_neg hclosing]
  by_cases hno : (!(f.log (.delivered data)).conn.localConnected) = true
  · rw [if_pos hno]
    unfold forwardPendingAppend
    cases (f.log (.delivered data)).conn.pendingWg.append data (env.realloc (f.log (.delivered data)))
      with
    | none => exact (goes_log _).trans goes_forwardClose
    | some buf =>
      refine (goes_log (.delivered data)).trans (goes_update fun h => ?_)
      exact ⟨h.pending, h.paused, h.reading, h.wgConn, h.closed⟩
  · rw [if_neg hno]
    have hflush := (@goes_log f (.delivered data)).trans (@goes_forwardFlushPendingLocal env _)
    obtain ⟨hconn, htcp⟩ := @forwardWriteLocal_same env
      (forwardFlushPendingLocal env (f.log (.delivered data))) data
    have hwrite := hflush.trans (Goes.of_same hconn htcp)
    split_ifs
    · exact hwrite.trans goes_forwardClose
    · exact hwrite

/-- **Behind `forward_wg_on_data` nothing waits in vain**, whatever waited before. -/
theorem supplied_forwardWgOnData (h : f.conn.Waits) (data : List Byte) :
    (forwardWgOnData env data f).Supplied := by
  unfold forwardWgOnData
  simp only
  by_cases hclosing : (f.log (.delivered data)).conn.closing = true
  · rw [if_pos hclosing]
    exact supplied_of_closing hclosing
  rw [if_neg hclosing]
  by_cases hno : (!(f.log (.delivered data)).conn.localConnected) = true
  · rw [if_pos hno]
    have hfalse : f.conn.localConnected = false := by simpa using hno
    unfold forwardPendingAppend
    cases (f.log (.delivered data)).conn.pendingWg.append data (env.realloc (f.log (.delivered data)))
      with
    | none => exact supplied_forwardClose
    | some buf =>
      rintro - - - - (hpending | hpaused)
      · exact absurd (h.pending hfalse) hpending
      · have hoff : f.conn.localReadPaused = true := hpaused
        rw [h.paused hfalse] at hoff
        cases hoff
  · rw [if_neg hno]
    have hflush := @supplied_forwardFlushPendingLocal env (f.log (.delivered data)) h
    obtain ⟨hconn, htcp⟩ := @forwardWriteLocal_same env
      (forwardFlushPendingLocal env (f.log (.delivered data))) data
    split_ifs
    · exact supplied_forwardClose
    · exact hflush.of_same hconn (htcp ▸ .refl _)

theorem supplied_forwardWgOnWriteable (h : f.conn.Waits) :
    (forwardWgOnWriteable env f).Supplied := by
  unfold forwardWgOnWriteable
  split_ifs with hclosing
  · exact supplied_of_closing hclosing
  · exact supplied_forwardFlushPendingLocal h

theorem goes_forwardPause (hyes : f.conn.localConnected = true) (data : List Byte) :
    Goes f (forwardPause env data f) := by
  unfold forwardPause forwardPendingLocalAppend
  cases f.conn.pendingLocal.append data (env.realloc f) with
  | none => exact goes_forwardClose
  | some buf =>
    have hno : f.conn.localConnected ≠ false := by
      rw [hyes]
      decide
    exact ⟨fun h => ⟨fun hc => absurd hc hno, fun hc => absurd hc hno, fun _ => rfl, h.wgConn,
      h.closed⟩, .refl _⟩

/-- Reading is paused while the tunnel has bytes to be acknowledged. -/
theorem supplied_forwardPause (data : List Byte) (hlen : f.tcp.conn.state = .established →
    f.tcp.conn.beingFreed = false → 0 < f.tcp.conn.sendbufLen) :
    (forwardPause env data f).Supplied := by
  unfold forwardPause forwardPendingLocalAppend
  cases f.conn.pendingLocal.append data (env.realloc f) with
  | none => exact supplied_forwardClose
  | some buf => exact fun hst hlive _ _ _ => hlen hst hlive

theorem forwardLocalRead_spec (h : f.conn.Waits) (hs : f.Supplied) (hon : f.conn.reading = true)
    (nread : ℤ) (buf : List Byte) :
    Goes f (forwardLocalRead env nread buf f) ∧ (forwardLocalRead env nread buf f).Supplied := by
  have hyes : f.conn.localConnected = true := by
    by_contra hno
    rw [h.reading (Bool.eq_false_iff.2 hno)] at hon
    cases hon
  unfold forwardLocalRead
  by_cases hend : nread ≤ 0
  · rw [if_pos hend]
    split_ifs
    · exact ⟨goes_forwardClose, supplied_forwardClose⟩
    · exact ⟨.refl f, hs⟩
  rw [if_neg hend]
  generalize buf.take nread.toNat = data
  simp only
  have hg : Goes f (f.log (.read data)) := goes_log _
  have hgs : (f.log (.read data)).Supplied := hs.of_same rfl (.refl _)
  have hgyes : (f.log (.read data)).conn.localConnected = true := hyes
  have hgw : (f.log (.read data)).conn.Waits := h
  generalize f.log (.read data) = g at hg hgs hgyes hgw ⊢
  by_cases hconn : (!g.conn.wgConn) = true
  · rw [if_pos hconn]
    exact ⟨hg.trans goes_forwardClose, supplied_forwardClose⟩
  rw [if_neg hconn]
  by_cases hpending : g.conn.pendingLocal.data.length > 0
  · rw [if_pos hpending]
    unfold forwardPendingLocalAppend
    cases g.conn.pendingLocal.append data (env.realloc g) with
    | none => exact ⟨hg.trans goes_forwardClose, supplied_forwardClose⟩
    | some buf =>
      refine ⟨hg.trans (goes_update fun hw => ⟨fun hno => ?_, hw.paused, hw.reading, hw.wgConn,
        hw.closed⟩), hgs.of_fields (fun _ => Or.inl (List.length_pos_iff.1 hpending)) rfl rfl
        (.refl _)⟩
      rw [show g.conn.localConnected = false from hno] at hgyes
      cases hgyes
  rw [if_neg hpending]
  by_cases havail : tcpSendAvailable g.tcp.conn = 0
  · rw [if_pos havail]
    exact ⟨hg.trans (goes_forwardPause hgyes data),
      supplied_forwardPause data fun hst hlive => sendbufLen_of_not_available havail hst hlive⟩
  rw [if_neg havail]
  generalize hk : (if data.length < tcpSendAvailable g.tcp.conn then data.length
    else tcpSendAvailable g.tcp.conn) = k
  by_cases hpos : 0 < k
  · rw [if_pos hpos]
    obtain ⟨-, hlen⟩ := onward_tcpSend env.tcp g.tcp (data.take k)
    have hsend := @goes_forwardTcpSend env g (data.take k)
    have hnil : data.take k ≠ [] := by
      rw [← List.length_pos_iff, List.length_take]
      split_ifs at hk with hlt
      · omega
      · omega
    split_ifs with hret hrest
    · exact ⟨(hg.trans hsend).trans goes_forwardClose, supplied_forwardClose⟩
    · exact ⟨(hg.trans hsend).trans (@goes_forwardPause env (forwardTcpSend env _ g).2 hgyes _),
        supplied_forwardPause _ fun _ _ => hlen (not_lt.1 hret) hnil⟩
    · exact ⟨hg.trans hsend, fun _ _ _ _ _ => hlen (not_lt.1 hret) hnil⟩
  · rw [if_neg hpos]
    -- nothing was read
    have hempty : ¬ k < data.length := by
      split_ifs at hk with hlt
      · omega
      · omega
    rw [if_neg (show ¬ (0 : ℤ) < 0 by decide), if_neg hempty]
    exact ⟨hg, hgs⟩

theorem forwardConnectCb_spec (hs : f.Supplied) (status : ℤ) :
    Goes f (forwardConnectCb env status f) ∧ (forwardConnectCb env status f).Supplied := by
  have hfirst : Goes f (f.update fun conn => { conn with connecting := false }) :=
    goes_update fun h => ⟨h.pending, h.paused, h.reading, h.wgConn, h.closed⟩
  unfold forwardConnectCb
  simp only
  by_cases hfailed : status < 0
  · rw [if_pos hfailed]
    exact ⟨hfirst.trans goes_forwardClose, supplied_forwardClose⟩
  rw [if_neg hfailed]
  have hyes : ∀ reading : Bool, Goes f (f.update fun conn =>
      { conn with connecting := false, localConnected := true, reading := reading }) :=
    fun reading => goes_update fun h => ⟨nofun, nofun, nofun, h.wgConn, h.closed⟩
  split_ifs
  · exact ⟨(hyes f.conn.reading).trans goes_forwardClose, supplied_forwardClose⟩
  · set g := f.update fun conn =>
      { conn with connecting := false, localConnected := true, reading := true } with hg
    have hgs : g.Supplied := hs.of_fields id rfl rfl (.refl _)
    show Goes f (forwardFlushPendingWg env g) ∧ (forwardFlushPendingWg env g).Supplied
    unfold forwardFlushPendingWg
    by_cases hidle : (!g.conn.localConnected) = true ∨ g.conn.pendingWg.data.length = 0
    · rw [if_pos hidle]
      exact ⟨hyes true, hgs⟩
    rw [if_neg hidle]
    obtain ⟨hconn, htcp⟩ := @forwardWriteLocal_same env g g.conn.pendingWg.data
    have hwrite := (hyes true).trans (Goes.of_same hconn htcp)
    simp only
    split_ifs
    · exact ⟨hwrite.trans goes_forwardClose, supplied_forwardClose⟩
    · refine ⟨hwrite.trans (goes_update fun h => ⟨h.pending, h.paused, h.reading, h.wgConn,
        h.closed⟩), (hgs.of_same hconn (htcp ▸ .refl _)).of_fields id rfl rfl (.refl _)⟩

/-! ### Callbacks on a segment -/

/-- The invariant of a relay and its connection. -/
structure Relayed (f : Forward) : Prop where
  waits : f.conn.Waits
  handlers : f.tcp.conn.handlers = forwardHandlers
  opening : f.tcp.conn.state.opening = true →
    f.tcp.conn.state = .synReceived ∧ f.tcp.conn.sendbufLen = 0

theorem Relayed.goes (h : Relayed f) (hg : Goes f f') : Relayed f' := by
  refine ⟨hg.waits h.waits, hg.onward.handlers.trans h.handlers, fun hst => ?_⟩
  obtain ⟨hsame, hlen⟩ := hg.onward.opening hst
  obtain ⟨hsyn, hzero⟩ := h.opening (hsame ▸ hst)
  exact ⟨hsame.trans hsyn, hlen.trans hzero⟩

variable {seg : Inbound}

theorem goes_on {g : Tcp → Tcp} (h : Onward f.tcp (g f.tcp)) : Goes f (f.on g) := ⟨id, h⟩

theorem supplied_on {g : Tcp → Tcp} (h : f.Supplied) (hg : SameSupply f.tcp (g f.tcp)) :
    (f.on g).Supplied := h.of_same rfl hg

theorem goes_forwardOn (cb : Callback) : Goes f (forwardOn env cb f) := by
  have hlog : Goes f (f.on fun t => t.log [.callback cb]) :=
    ⟨id, SameSupply.onward ⟨rfl, rfl, rfl, rfl⟩⟩
  refine hlog.trans ?_
  show Goes _ (forwardCallback env cb _)
  cases cb with
  | data data => exact goes_forwardWgOnData data
  | writeable => exact goes_forwardWgOnWriteable
  | close => exact goes_forwardWgOnClose
  | connect status => exact .refl _
  | accept => exact .refl _

/-- Behind these two callbacks nothing waits in vain. -/
theorem supplied_forwardOn (h : f.conn.Waits) {cb : Callback}
    (hcb : cb = .writeable ∨ ∃ data, cb = .data data) :
    (forwardOn env cb f).Supplied := by
  set g := f.on fun t => t.log [.callback cb]
  show (forwardCallback env cb g).Supplied
  rcases hcb with rfl | ⟨data, rfl⟩
  · exact @supplied_forwardWgOnWriteable env g h
  · exact @supplied_forwardWgOnData env g h data

theorem goes_deliver (data : List Byte) : Goes f (deliver (forwardOwner env) data f) := by
  unfold deliver
  simp only
  have hnext : Goes f (f.on fun t => t.update fun conn =>
      { conn with rcvNxt := conn.rcvNxt + BitVec.ofNat 32 data.length }) :=
    goes_on (SameSupply.onward ⟨rfl, rfl, rfl, rfl⟩)
  split_ifs
  · exact hnext.trans (goes_forwardOn _)
  · exact hnext

/-- Data that is delivered makes the relay go on. -/
theorem supplied_deliver (h : Relayed f) (data : List Byte) :
    (deliver (forwardOwner env) data f).Supplied := by
  set q := f.on fun t => t.update fun conn =>
    { conn with rcvNxt := conn.rcvNxt + BitVec.ofNat 32 data.length } with hq
  have hset : q.tcp.conn.handlers.onData = true := by
    have hhandlers : q.tcp.conn.handlers = forwardHandlers := h.handlers
    rw [hhandlers]
    rfl
  have hdeliver : deliver (forwardOwner env) data f = forwardOn env (.data data) q := if_pos hset
  rw [hdeliver]
  exact @supplied_forwardOn env q h.waits _ (Or.inr ⟨data, rfl⟩)

theorem goesOn_tcpOooDrain (h : Relayed f) (hs : f.Supplied) (fuel : ℕ) :
    Goes f (tcpOooDrain (forwardOwner env) fuel f).2 ∧
      (tcpOooDrain (forwardOwner env) fuel f).2.Supplied := by
  induction fuel generalizing f with
  | zero => exact ⟨.refl _, hs⟩
  | succ fuel ih =>
    unfold tcpOooDrain
    by_cases hfreed : f.tcp.conn.beingFreed = true
    · rw [if_pos hfreed]
      exact ⟨.refl _, hs⟩
    rw [if_neg hfreed]
    cases f.tcp.conn.rcvOoo with
    | nil => exact ⟨.refl _, hs⟩
    | cons seg rest =>
      simp only
      split_ifs
      · exact ⟨.refl _, hs⟩
      · set q := f.on fun t => t.update fun conn =>
          { conn with rcvOoo := rest, rcvOooLen := conn.rcvOooLen - seg.len } with hq
        have hpop : Goes f q := goes_on (SameSupply.onward ⟨rfl, rfl, rfl, rfl⟩)
        have hdeliver := hpop.trans (@goes_deliver env q seg.data)
        obtain ⟨hgoes, hsupplied⟩ :=
          ih (h.goes hdeliver) (supplied_deliver (h.goes hpop) seg.data)
        exact ⟨hdeliver.trans hgoes, hsupplied⟩

/-- In-order data makes the relay go on, whatever waited before. -/
theorem goesOn_receiveInOrder (h : Relayed f) (data : List Byte) (immediate : Bool) :
    Goes f (receiveInOrder (forwardOwner env) data immediate f) ∧
      (receiveInOrder (forwardOwner env) data immediate f).Supplied := by
  unfold receiveInOrder
  simp only
  have hdeliver := @goes_deliver env f data
  set q := deliver (forwardOwner env) data f
  obtain ⟨hgoes, hsupplied⟩ := @goesOn_tcpOooDrain env q (h.goes hdeliver) (supplied_deliver h data)
    q.tcp.conn.rcvOoo.length
  have hack := sameSupply_tcpAckData env.tcp
  exact ⟨(hdeliver.trans hgoes).trans (goes_on (hack _ _ _).onward),
    supplied_on hsupplied (hack _ _ _)⟩

/-- An acknowledgement takes bytes off the send buffer. -/
theorem onward_ackAdvance (env : TcpEnv) {t : Tcp} (hst : t.conn.state = .established) :
    Onward t (ackAdvance env seg t) := by
  set u := t.update fun conn =>
    { (if (seg.ack - t.conn.sndUna).toNat ≤ conn.sendbufLen then
        sendbufConsume conn (seg.ack - t.conn.sndUna).toNat else conn) with
      sndUna := seg.ack } with hu
  have hconsume : u.conn.handlers = t.conn.handlers ∧ u.conn.state = t.conn.state := by
    have hframe := sendbufConsume_frame t.conn (seg.ack - t.conn.sndUna).toNat
    rw [hu, Tcp.update_conn]
    split_ifs
    · simp only
      rw [hframe]
      exact ⟨rfl, rfl⟩
    · exact ⟨rfl, rfl⟩
  have hafter : ∀ t', SameSupply u t' → Onward t t' := fun t' hs =>
    onward_of_state (hs.handlers.trans hconsume.1) (by rw [hs.state, hconsume.2, hst]; rfl)
  unfold ackAdvance
  simp only [← hu]
  split_ifs
  · exact hafter _ ⟨rfl, rfl, rfl, rfl⟩
  · exact hafter _ (sameSupply_tcpFlushPending env u)

theorem goesOn_establishedAck (h : Relayed f) (hs : f.Supplied)
    (hst : f.tcp.conn.state = .established) :
    Goes f (establishedAck (forwardOwner env) seg f) ∧
      (establishedAck (forwardOwner env) seg f).Supplied := by
  unfold establishedAck
  simp only
  by_cases hadvances : seg.advances f.tcp.conn = true
  · rw [if_pos hadvances]
    have hack : Goes f (f.on (ackAdvance env.tcp seg)) :=
      goes_on (onward_ackAdvance env.tcp hst)
    have hset : (f.on (ackAdvance env.tcp seg)).tcp.conn.handlers.onWriteable = true := by
      have hhandlers : (f.on (ackAdvance env.tcp seg)).tcp.conn.handlers = forwardHandlers :=
        (h.goes hack).handlers
      rw [hhandlers]
      rfl
    split_ifs with hlow
    · exact ⟨hack.trans (goes_forwardOn _),
        @supplied_forwardOn env (f.on (ackAdvance env.tcp seg)) h.waits _ (Or.inl rfl)⟩
    · refine ⟨hack, fun _ _ _ _ _ => ?_⟩
      have hmany : ¬ (f.on (ackAdvance env.tcp seg)).tcp.conn.sendbufLen < wgTcpSendbufSize / 4 :=
        fun hlt => hlow ⟨hlt, hset⟩
      have hsize : 0 < wgTcpSendbufSize / 4 := by decide
      show 0 < (f.on (ackAdvance env.tcp seg)).tcp.conn.sendbufLen
      omega
  · rw [if_neg hadvances]
    exact ⟨.refl _, hs⟩

theorem goesOn_establishedData (h : Relayed f) (hs : f.Supplied) :
    Goes f (establishedData (forwardOwner env) seg f) ∧
      (establishedData (forwardOwner env) seg f).Supplied := by
  have hsame : ∀ g : Tcp → Tcp, SameSupply f.tcp (g f.tcp) →
      Goes f (f.on g) ∧ (f.on g).Supplied :=
    fun g hg => ⟨goes_on hg.onward, supplied_on hs hg⟩
  unfold establishedData
  simp only
  split_ifs
  · exact ⟨.refl _, hs⟩
  · exact goesOn_receiveInOrder h _ _
  · exact hsame _
      ((sameSupply_tcpOooQueue env.tcp f.tcp _ _).trans (sameSupply_tcpAckNow env.tcp _))
  · exact goesOn_receiveInOrder h _ _
  · exact hsame _ (sameSupply_tcpAckNow env.tcp _)
  · exact ⟨.refl _, hs⟩

theorem goes_notifyClose : Goes f (notifyClose (forwardOwner env) f) := by
  have hflag : Goes f (f.on fun t => t.update fun conn =>
      { conn with closeNotified := true }) :=
    goes_on (SameSupply.onward ⟨rfl, rfl, rfl, rfl⟩)
  unfold notifyClose
  simp only
  split_ifs
  · exact .refl _
  · exact hflag.trans (goes_forwardOn _)
  · exact hflag

theorem supplied_of_state (hst : f.tcp.conn.state ≠ .established) : f.Supplied :=
  fun h => absurd h hst

theorem goesOn_establishedFin (hs : f.Supplied) :
    Goes f (establishedFin (forwardOwner env) seg f) ∧
      (establishedFin (forwardOwner env) seg f).Supplied := by
  unfold establishedFin
  split_ifs
  · have htake : Goes f (f.on (takeFin env.tcp)) := goes_on (onward_of_state rfl rfl)
    refine ⟨(htake.trans goes_notifyClose).trans (goes_on (onward_of_state rfl rfl)),
      supplied_of_state ?_⟩
    exact nofun
  · exact ⟨.refl _, hs⟩

theorem goesOn_inputEstablished (h : Relayed f) (hs : f.Supplied)
    (hst : f.tcp.conn.state = .established) :
    Goes f (inputEstablished (forwardOwner env) seg f) ∧
      (inputEstablished (forwardOwner env) seg f).Supplied := by
  obtain ⟨hack, hs1⟩ := @goesOn_establishedAck env f seg h hs hst
  obtain ⟨hdata, hs2⟩ := @goesOn_establishedData env _ seg (h.goes hack) hs1
  obtain ⟨hfin, hs3⟩ := @goesOn_establishedFin env _ seg hs2
  exact ⟨(hack.trans hdata).trans hfin, hs3⟩

/-! ### Events of the stack -/

/-- The segment ends the handshake, and brings no byte. -/
def Inbound.EndsHandshake (seg : Inbound) (conn : Conn) : Prop :=
  seg.flags.rst = false ∧ conn.state = .synReceived ∧ conn.beingFreed = false ∧
    conn.released = false ∧ (seg.flags.ack = true ∧ seg.ack = conn.sndNxt) ∧
      ¬ (0 < seg.payload.length ∧ seg.seq = conn.rcvNxt)

/-- A handshake that ends without a byte finds an open relay with nothing that waits. -/
def IdleAtHandshake (f : Forward) (e : ForwardEnv × RelayEvent) : Prop :=
  ∀ seg, e.2 = .tunnel (.input seg) → seg.EndsHandshake f.tcp.conn → f.conn.closing = false →
    f.conn.localClosing = false → ¬ (f.conn.pendingLocal.data ≠ [] ∨ f.conn.localReadPaused = true)

theorem goesOn_inputSynReceived (h : Relayed f) (hst : f.tcp.conn.state = .synReceived)
    (hidle : (seg.flags.ack = true ∧ seg.ack = f.tcp.conn.sndNxt) →
      ¬ (0 < seg.payload.length ∧ seg.seq = f.tcp.conn.rcvNxt) → f.conn.closing = false →
        f.conn.localClosing = false →
          ¬ (f.conn.pendingLocal.data ≠ [] ∨ f.conn.localReadPaused = true)) :
    Goes f (inputSynReceived (forwardOwner env) seg f) ∧
      (inputSynReceived (forwardOwner env) seg f).Supplied := by
  unfold inputSynReceived
  by_cases hack : seg.flags.ack = true ∧ seg.ack = f.tcp.conn.sndNxt
  · rw [if_pos hack]
    have hopen : Goes f (f.on fun t => t.update fun conn => { conn with
        sndUna := seg.ack, state := .established, retransmitTimer := false,
        retransmitCount := 0 }) := goes_on (onward_of_state rfl rfl)
    simp only
    split_ifs with hdata
    · obtain ⟨hgoes, hsupplied⟩ := @goesOn_receiveInOrder env _ (h.goes hopen) seg.payload false
      exact ⟨hopen.trans hgoes, hsupplied⟩
    · exact ⟨hopen, fun _ _ hc hl hwaits => absurd hwaits (hidle hack hdata hc hl)⟩
  · rw [if_neg hack]
    exact ⟨.refl _, supplied_of_state (by rw [hst]; decide)⟩

theorem opening_of_ending {st : TcpState} (h : st.ending = true) : st.opening = false := by
  cases st <;> first | rfl | cases h

theorem handlers_connDestroy (t : Tcp) : (connDestroy t).conn.handlers = t.conn.handlers :=
  (onward_connDestroy t).handlers

/-- The other states: the connection is on its way out. -/
theorem goesOn_ending {g : Tcp → Tcp} (hhandlers : (g f.tcp).conn.handlers = f.tcp.conn.handlers)
    (hend : (g f.tcp).conn.state.ending = true) :
    Goes f (f.on g) ∧ (f.on g).Supplied :=
  ⟨goes_on (onward_of_state hhandlers (opening_of_ending hend)),
    supplied_of_state (ne_established_of_ending hend)⟩

theorem handlers_inputFinWait (env : TcpEnv) (t : Tcp) :
    (inputFinWait env seg t).conn.handlers = t.conn.handlers := by
  have hack : (finWaitAck seg t).conn.handlers = t.conn.handlers := by
    unfold finWaitAck
    simp only
    split_ifs <;> rfl
  unfold inputFinWait
  simp only
  split_ifs
  · rw [handlers_connDestroy]
    exact hack
  · exact hack

theorem handlers_inputLastAck (t : Tcp) :
    (inputLastAck seg t).conn.handlers = t.conn.handlers := by
  unfold inputLastAck
  split_ifs
  · exact handlers_connDestroy _
  · rfl

/-- Where the connection is destroyed, nobody waits for it. -/
theorem goesOn_connDestroy (h : Goes f (f.on connDestroy)) :
    Goes f (f.on connDestroy) ∧ (f.on connDestroy).Supplied := by
  refine ⟨h, fun _ hlive => ?_⟩
  rw [show (f.on connDestroy).tcp.conn.beingFreed = true from freed_connDestroy f.tcp]
    at hlive
  cases hlive

theorem goesOn_tcpstackInput (h : Relayed f) (hs : f.Supplied)
    (hrel : f.tcp.conn.released = false)
    (hidle : IdleAtHandshake f (env, .tunnel (.input seg))) :
    Goes f (tcpstackInput (forwardOwner env) seg f) ∧
      (tcpstackInput (forwardOwner env) seg f).Supplied := by
  unfold tcpstackInput
  by_cases hfreed : f.tcp.conn.beingFreed = true
  · rw [if_pos hfreed]
    exact ⟨.refl _, hs⟩
  rw [if_neg hfreed]
  by_cases hrst : seg.flags.rst = true
  · rw [if_pos hrst]
    set q := f.on fun t => t.update fun conn => { conn with state := .closed } with hq
    have hclosed : Goes f q := goes_on (onward_of_state rfl rfl)
    obtain ⟨hgoes, hsupplied⟩ := goesOn_connDestroy (f := q) (goes_on (onward_connDestroy q.tcp))
    exact ⟨hclosed.trans hgoes, hsupplied⟩
  rw [if_neg hrst]
  have hwnd := sameSupply_updateSndWnd f.tcp seg
  set q := f.on (updateSndWnd seg) with hq
  have hgoes : Goes f q := goes_on hwnd.onward
  have hqs : q.Supplied := supplied_on hs hwnd
  have hqr := h.goes hgoes
  have hthen : ∀ q', Goes q q' ∧ q'.Supplied → Goes f q' ∧ q'.Supplied :=
    fun q' h' => ⟨hgoes.trans h'.1, h'.2⟩
  unfold inputState
  cases hst : q.tcp.conn.state with
  | synReceived =>
    refine hthen _ (goesOn_inputSynReceived hqr hst fun hack hdata => ?_)
    exact hidle seg rfl ⟨Bool.eq_false_iff.2 hrst, hst, Bool.eq_false_iff.2 hfreed, hrel, hack,
      hdata⟩
  | synSent =>
    obtain ⟨hsyn, -⟩ := hqr.opening (by rw [show q.tcp.conn.state = _ from hst]; rfl)
    rw [show q.tcp.conn.state = .synSent from hst] at hsyn
    cases hsyn
  | established => exact hthen _ (goesOn_inputEstablished hqr hqs hst)
  | finWait =>
    refine hthen _ (goesOn_ending (handlers_inputFinWait env.tcp q.tcp) ?_)
    exact (calm_inputFinWait env.tcp seg q.tcp).ending (by rw [hst]; rfl)
  | lastAck =>
    refine hthen _ (goesOn_ending (handlers_inputLastAck q.tcp) ?_)
    exact (quiet_inputLastAck seg q.tcp).toCalm.ending (by rw [hst]; rfl)
  | closed => exact hthen _ ⟨.refl _, hqs⟩
  | closeWait => exact hthen _ ⟨.refl _, hqs⟩

theorem localClosing_forwardWgOnClose (h : f.conn.Waits) :
    (forwardWgOnClose f).conn.localClosing = true := by
  unfold forwardWgOnClose forwardCloseLocal
  split_ifs with hdone
  · exact hdone.elim id h.closed
  · rfl

theorem supplied_notifyClose (h : f.conn.Waits) (hs : f.Supplied) :
    (notifyClose (forwardOwner env) f).Supplied := by
  unfold notifyClose
  simp only
  set q := f.on fun t => t.update fun conn => { conn with closeNotified := true } with hq
  split_ifs
  · exact hs
  · intro _ _ _ hopen
    have hlocal : (forwardOn env .close q).conn.localClosing = true :=
      @localClosing_forwardWgOnClose (q.on _) h
    rw [hlocal] at hopen
    cases hopen
  · exact supplied_on hs ⟨rfl, rfl, rfl, rfl⟩

theorem goes_notifyAbort : Goes f (notifyAbort (forwardOwner env) f) := by
  have hflag : Goes f (f.on fun t => t.update fun conn =>
      { conn with closeNotified := true }) :=
    goes_on (SameSupply.onward ⟨rfl, rfl, rfl, rfl⟩)
  unfold notifyAbort
  simp only
  split_ifs
  · exact .refl _
  · exact hflag.trans (goes_forwardOn _)
  · exact hflag.trans (goes_forwardOn _)
  · exact hflag

theorem goesOn_retransmitCb (hs : f.Supplied) :
    Goes f (retransmitCb (forwardOwner env) f) ∧
      (retransmitCb (forwardOwner env) f).Supplied := by
  unfold retransmitCb
  by_cases hfreed : f.tcp.conn.beingFreed = true
  · rw [if_pos hfreed]
    exact ⟨.refl _, hs⟩
  rw [if_neg hfreed]
  simp only
  set q := f.on fun t => t.update fun conn =>
    { conn with retransmitTimer := false, retransmitCount := conn.retransmitCount + 1 } with hq
  have hfired : SameSupply f.tcp q.tcp := ⟨rfl, rfl, rfl, rfl⟩
  split_ifs
  · set r := q.on fun t => t.update fun conn => { conn with state := .closed } with hr
    have hclosed : Goes f r := (goes_on hfired.onward).trans (goes_on (onward_of_state rfl rfl))
    obtain ⟨hgoes, hsupplied⟩ := goesOn_connDestroy (f := notifyAbort (forwardOwner env) r)
      (goes_on (onward_connDestroy _))
    exact ⟨(hclosed.trans goes_notifyAbort).trans hgoes, hsupplied⟩
  · have hresent : SameSupply q.tcp ((q.tcp.log ((retransmitSegments env.tcp q.tcp.conn).map
        .segment)).update fun conn => { conn with retransmitTimer := true }) :=
      ⟨rfl, rfl, rfl, rfl⟩
    have hgoes : Goes f q := goes_on hfired.onward
    exact ⟨hgoes.trans (goes_on hresent.onward),
      supplied_on (supplied_on hs hfired : q.Supplied) hresent⟩

theorem goesOn_timerCloseCb (h : f.conn.Waits) (hs : f.Supplied) :
    Goes f (timerCloseCb (forwardOwner env) f) ∧
      (timerCloseCb (forwardOwner env) f).Supplied := by
  unfold timerCloseCb
  simp only
  set q := f.on fun t => t.update fun conn =>
    { conn with closePending := conn.closePending - 1 } with hq
  have hcount : SameSupply f.tcp q.tcp := ⟨rfl, rfl, rfl, rfl⟩
  have hqs : q.Supplied := supplied_on hs hcount
  have hgoes : Goes f q := goes_on hcount.onward
  split_ifs
  · exact ⟨hgoes, hqs⟩
  · have hnotified := @supplied_notifyClose env q h hqs
    exact ⟨(hgoes.trans goes_notifyClose).trans
      (goes_on (SameSupply.onward ⟨rfl, rfl, rfl, rfl⟩)),
      supplied_on hnotified ⟨rfl, rfl, rfl, rfl⟩⟩

/-- An event of the stack. -/
theorem goesOn_ownedStep (h : Relayed f) (hs : f.Supplied) {e : TcpEvent}
    (hidle : IdleAtHandshake f (env, .tunnel e)) (hcall : ∀ a, e ≠ .call a) :
    Goes f (ownedStep (forwardOwner env) e f) ∧
      (ownedStep (forwardOwner env) e f).Supplied := by
  have hsame : ∀ g : Tcp → Tcp, SameSupply f.tcp (g f.tcp) →
      Goes f (f.on g) ∧ (f.on g).Supplied :=
    fun g hg => ⟨goes_on hg.onward, supplied_on hs hg⟩
  unfold ownedStep
  by_cases hrel : f.tcp.conn.released = true
  · rw [if_pos hrel]
    exact ⟨.refl _, hs⟩
  rw [if_neg hrel]
  cases e with
  | call a => exact absurd rfl (hcall a)
  | input seg => exact goesOn_tcpstackInput h hs (Bool.eq_false_iff.2 hrel) hidle
  | flush =>
    by_cases hq : f.tcp.conn.flushQueued = true
    · simp only [if_pos hq]
      exact hsame _ (sameSupply_flushCheckCb env.tcp _)
    · simp only [if_neg hq]
      exact ⟨.refl _, hs⟩
  | retransmit =>
    by_cases hq : f.tcp.conn.retransmitTimer = true
    · simp only [if_pos hq]
      exact goesOn_retransmitCb hs
    · simp only [if_neg hq]
      exact ⟨.refl _, hs⟩
  | delayedAck =>
    by_cases hq : f.tcp.conn.ackTimer = true
    · simp only [if_pos hq]
      exact hsame _ (sameSupply_delayedAckCb env.tcp _)
    · simp only [if_neg hq]
      exact ⟨.refl _, hs⟩
  | timerClose =>
    by_cases hq : 0 < f.tcp.conn.closePending
    · simp only [if_pos hq]
      exact goesOn_timerCloseCb h.waits hs
    · simp only [if_neg hq]
      exact ⟨.refl _, hs⟩

/-! ### Runs -/

/-- An event of the event loop. -/
theorem forwardStep_spec (h : f.conn.Waits) (hs : f.Supplied) {e : ForwardEvent}
    (he : ∀ t, e ≠ .tunnel t) :
    Goes f (forwardStep f (env, e)) ∧ (forwardStep f (env, e)).Supplied := by
  unfold forwardStep
  by_cases henabled : e.enabled f.conn
  · rw [if_pos henabled]
    cases e with
    | tunnel t => exact absurd rfl (he t)
    | data data => exact ⟨goes_forwardWgOnData data, supplied_forwardWgOnData h data⟩
    | writeable => exact ⟨goes_forwardWgOnWriteable, supplied_forwardWgOnWriteable h⟩
    | close fin =>
      refine ⟨goes_forwardWgOnClose, fun _ _ _ hopen => ?_⟩
      rw [show (forwardWgOnClose f).conn.localClosing = true from localClosing_forwardWgOnClose h]
        at hopen
      cases hopen
    | connected status => exact forwardConnectCb_spec hs status
    | localRead nread buf => exact forwardLocalRead_spec h hs henabled nread buf
    | writeDone status =>
      simp only [forwardWriteDone]
      split_ifs
      · exact ⟨goes_forwardClose, supplied_forwardClose⟩
      · exact ⟨.refl f, hs⟩
    | localClosed =>
      exact ⟨goes_update fun h => ⟨h.pending, h.paused, h.reading, h.wgConn, fun _ => henabled.1⟩,
        hs.of_fields id rfl rfl (.refl _)⟩
  · rw [if_neg henabled]
    exact ⟨.refl f, hs⟩

theorem relayStep_tunnel {e : TcpEvent} (hcall : ∀ a, e ≠ .call a) :
    relayStep f (env, .tunnel e) = ownedStep (forwardOwner env) e f := by
  cases e with
  | call a => exact absurd rfl (hcall a)
  | _ => rfl

theorem relayStep_spec (h : Relayed f) (hs : f.Supplied) (e : ForwardEnv × RelayEvent)
    (hidle : IdleAtHandshake f e) : Relayed (relayStep f e) ∧ (relayStep f e).Supplied := by
  have hgo : ∀ f', Goes f f' ∧ f'.Supplied → Relayed f' ∧ f'.Supplied :=
    fun f' h' => ⟨h.goes h'.1, h'.2⟩
  obtain ⟨env, e⟩ := e
  have hlocal : ∀ e' : ForwardEvent, (∀ t, e' ≠ .tunnel t) →
      Relayed (forwardStep f (env, e')) ∧ (forwardStep f (env, e')).Supplied :=
    fun e' he => hgo _ (forwardStep_spec h.waits hs he)
  cases e with
  | tunnel e =>
    by_cases hcall : ∀ a, e ≠ .call a
    · rw [relayStep_tunnel hcall]
      exact hgo _ (@goesOn_ownedStep env f h hs e hidle hcall)
    · push Not at hcall
      obtain ⟨a, rfl⟩ := hcall
      exact ⟨h, hs⟩
  | connected status => exact hlocal (.connected status) (fun _ => ForwardEvent.noConfusion)
  | localRead nread buf => exact hlocal (.localRead nread buf) (fun _ => ForwardEvent.noConfusion)
  | writeDone status => exact hlocal (.writeDone status) (fun _ => ForwardEvent.noConfusion)
  | localClosed => exact hlocal .localClosed (fun _ => ForwardEvent.noConfusion)

/-- If nothing waits in vain behind the handshake, nothing waited in front of it. -/
theorem idle_of_supplied (h : Relayed f) {e : ForwardEnv × RelayEvent}
    (hs : (relayStep f e).Supplied) : IdleAtHandshake f e := by
  obtain ⟨env, e⟩ := e
  rintro seg rfl ⟨hrst, hst, hfreed, hrel, hack, hdata⟩ hclosing hopen hwaits
  have hzero := (h.opening (by rw [hst]; rfl)).2
  set q := f.on (updateSndWnd seg) with hq
  have hqst : q.tcp.conn.state = .synReceived := hst
  have hinput : ownedStep (forwardOwner env) (.input seg) f =
      inputSynReceived (forwardOwner env) seg q := by
    have hstep : ownedStep (forwardOwner env) (.input seg) f =
        tcpstackInput (forwardOwner env) seg f :=
      if_neg (by rw [show f.tcp.conn.released = false from hrel]; decide)
    rw [hstep, tcpstackInput, if_neg (by rw [hfreed]; decide), if_neg (by rw [hrst]; decide)]
    show inputState (forwardOwner env) seg q = _
    rw [inputState, hqst]
  have hopened : inputSynReceived (forwardOwner env) seg q =
      q.on fun t => t.update fun conn => { conn with
        sndUna := seg.ack, state := .established, retransmitTimer := false,
        retransmitCount := 0 } := (if_pos hack).trans (if_neg hdata)
  rw [@relayStep_tunnel env f (.input seg) (fun _ => TcpEvent.noConfusion), hinput, hopened] at hs
  have hpos : 0 < f.tcp.conn.sendbufLen := hs rfl hfreed hclosing hopen hwaits
  omega

/-- A relay that has just been made. -/
theorem relayed_relayAccept (env : ForwardEnv) (iss : Seq) (seg : Inbound) :
    Relayed (relayAccept env iss seg) ∧ (relayAccept env iss seg).Supplied := by
  set tcp := tcpstackAccept env.tcp iss forwardHandlers seg with htcp
  have hst : tcp.conn.state = .synReceived := rfl
  have hfresh : Relayed ⟨.fresh, tcp, []⟩ :=
    ⟨⟨fun _ => rfl, fun _ => rfl, fun _ => rfl, nofun, nofun⟩, rfl, fun _ => ⟨hst, rfl⟩⟩
  have hidle : Forward.Supplied ⟨.fresh, tcp, []⟩ := by
    rintro - - - - (hpending | hpaused)
    · exact absurd rfl hpending
    · cases hpaused
  unfold relayAccept forwardOnAccept
  simp only [← htcp]
  split_ifs
  · exact ⟨hfresh.goes goes_forwardClose, supplied_forwardClose⟩
  · exact ⟨hfresh.goes (goes_update fun h => ⟨h.pending, h.paused, h.reading, h.wgConn, h.closed⟩),
      hidle.of_fields id rfl rfl (.refl _)⟩

end Functions

/-- **The forwarder never waits in vain**: in every state of a run, while the tunnel is established
and nobody is closing, local bytes wait or reading is paused only while the tunnel has bytes to be
acknowledged; exactly if no handshake ends, without a byte, while something waits. -/
theorem supplied_iff (env : ForwardEnv) (iss : Seq) (seg : Inbound)
    (es : List (ForwardEnv × RelayEvent)) :
    (∀ pre, pre <+: es → (Machine.run relayStep (relayAccept env iss seg) pre).Supplied) ↔
    ∀ pre e post, es = pre ++ e :: post →
      IdleAtHandshake (Machine.run relayStep (relayAccept env iss seg) pre) e := by
  rw [← Machine.guarded_iff_forall_split relayStep]
  exact (@Machine.guarded_iff_forall_prefix _ _ relayStep IdleAtHandshake
    (fun f => Relayed f ∧ f.Supplied) Forward.Supplied
    (fun f e h hidle => relayStep_spec h.1 h.2 e hidle) (fun _ h => h.2)
    (fun _ _ h hs => idle_of_supplied h.1 hs) _ (relayed_relayAccept env iss seg) es).symm

/-! ### A server that speaks first -/

/-- The SYN of a client. -/
def exampleSyn : Inbound := ⟨{ syn := true }, 0, 0, 1000, [], []⟩

/-- The local service greets before the handshake is over. -/
def earlyGreeting : List (ForwardEnv × RelayEvent) :=
  [(exampleForwardEnv, .connected 0), (exampleForwardEnv, .localRead 1 [0]),
    (exampleForwardEnv, .tunnel (.input ⟨{ ack := true }, 1, 1, 1000, [], []⟩))]

/-- The greeting waits, and there is nothing that an acknowledgement could come for. -/
theorem greeting_stuck : ¬ ∀ (env : ForwardEnv) (iss : Seq) (seg : Inbound)
    (es : List (ForwardEnv × RelayEvent)),
    (Machine.run relayStep (relayAccept env iss seg) es).Supplied := by
  intro h
  have hpos := h exampleForwardEnv 0 exampleSyn earlyGreeting (by decide +kernel)
    (by decide +kernel) (by decide +kernel) (by decide +kernel) (Or.inr (by decide +kernel))
  exact absurd hpos (by decide +kernel)

end Wgx
