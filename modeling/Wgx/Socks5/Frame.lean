import Wgx.Socks5.Handshake

/-!
# What the callbacks of a SOCKS5 connection leave alone

The functions of `socks5.c` fall into two groups.  Those that write to the client or close the
connection (`WriteSide`) leave the state, the handshake buffer and the ring of pending bytes alone;
those that move bytes towards the tunnel (`ReadSide`) leave the output buffers and the client's
handle alone.  Both kinds only add entries to the trace, each its own.
-/

namespace Wgx

/-! ### What the trace says -/

/-- The bytes of the entries that `f` selects. -/
def bytesOf (f : SocksEntry → List Byte) (trace : List SocksEntry) : List Byte := trace.flatMap f

/-- The bytes given to `client_write`. -/
def givenBytes : List SocksEntry → List Byte := bytesOf fun
  | .given data => data
  | _ => []

/-- The bytes that `client_write` left out for want of memory. -/
def droppedBytes : List SocksEntry → List Byte := bytesOf fun
  | .dropped data => data
  | _ => []

/-- The bytes passed to `uv_write`. -/
def writtenBytes : List SocksEntry → List Byte := bytesOf fun
  | .written data => data
  | _ => []

/-- The bytes read from the client. -/
def readBytes : List SocksEntry → List Byte := bytesOf fun
  | .read data => data
  | _ => []

theorem bytesOf_append (f : SocksEntry → List Byte) (l l' : List SocksEntry) :
    bytesOf f (l ++ l') = bytesOf f l ++ bytesOf f l' := List.flatMap_append

section Append

variable (l l' : List SocksEntry)

@[simp] theorem givenBytes_append : givenBytes (l ++ l') = givenBytes l ++ givenBytes l' :=
  bytesOf_append ..

@[simp] theorem droppedBytes_append :
    droppedBytes (l ++ l') = droppedBytes l ++ droppedBytes l' := bytesOf_append ..

@[simp] theorem writtenBytes_append :
    writtenBytes (l ++ l') = writtenBytes l ++ writtenBytes l' := bytesOf_append ..

@[simp] theorem readBytes_append : readBytes (l ++ l') = readBytes l ++ readBytes l' :=
  bytesOf_append ..

end Append

/-- An entry that the write side makes. -/
def SocksEntry.isWrite : SocksEntry → Bool
  | .given _ | .dropped _ | .written _ | .left _ | .closed _ _ => true
  | _ => false

/-- An entry that the write side makes, where a connection is closed only for the reasons `why`. -/
def SocksEntry.WriteFor (why : CloseReason → Prop) : SocksEntry → Prop
  | .given _ | .dropped _ | .written _ | .left _ => True
  | .closed reason _ => why reason
  | _ => False

theorem SocksEntry.WriteFor.isWrite {why : CloseReason → Prop} {e : SocksEntry}
    (h : e.WriteFor why) : e.isWrite = true := by
  cases e <;> first | rfl | exact absurd h id

theorem bytesOf_eq_nil {f : SocksEntry → List Byte} {l : List SocksEntry}
    (h : ∀ e ∈ l, f e = []) : bytesOf f l = [] := List.flatMap_eq_nil_iff.2 h

theorem readBytes_of_isWrite {l : List SocksEntry} (h : ∀ e ∈ l, e.isWrite = true) :
    readBytes l = [] := by
  refine bytesOf_eq_nil fun e he => ?_
  cases e <;> first | rfl | cases h _ he

/-! ### The two sides -/

/-- What writing to the client and closing the connection for the reasons `why` leave alone. -/
structure WriteFrame (why : CloseReason → Prop) (s s' : Socks) : Prop where
  state : s'.conn.state = s.conn.state
  rxbuf : s'.conn.rxbuf = s.conn.rxbuf
  pending : s'.conn.pending = s.conn.pending
  target : (s'.conn.targetFamily, s'.conn.targetIp, s'.conn.targetIp6, s'.conn.targetPort) =
    (s.conn.targetFamily, s.conn.targetIp, s.conn.targetIp6, s.conn.targetPort)
  paused : s'.conn.clientPaused = s.conn.clientPaused
  tunnel : s'.conn.wgConn.isSome = true → s.conn.wgConn.isSome = true
  waiting : s'.conn.resolveReq = true → s.conn.resolveReq = true
  reading : s'.conn.reading = true → s.conn.reading = true
  closing : s.conn.closing = true → s'.conn.closing = true
  stopped : s'.conn.closing = true → s.conn.closing = true ∨ s'.conn.reading = false ∧
    s'.conn.wgConn = none ∧ s'.conn.resolveReq = false
  trace : ∃ new, s'.trace = s.trace ++ new ∧ ∀ e ∈ new, e.WriteFor why

/-- The connection is not marked closed before its handle is. -/
def SocksConn.Open (conn : SocksConn) : Prop := conn.closing = false → conn.writeState ≠ .closed

/-- What the functions of the write side leave alone. -/
structure WriteSide (why : CloseReason → Prop) (s s' : Socks) : Prop extends
    WriteFrame why s s' where
  isOpen : s.conn.Open → s'.conn.Open

/-- What moving bytes to the tunnel leaves alone. -/
structure ReadSide (s s' : Socks) : Prop where
  out : (s'.conn.outbuf, s'.conn.outbufCap, s'.conn.writeBuf, s'.conn.writeBufCap) =
    (s.conn.outbuf, s.conn.outbufCap, s.conn.writeBuf, s.conn.writeBufCap)
  writeState : s'.conn.writeState = s.conn.writeState
  writeReq : s'.conn.writeReq = s.conn.writeReq
  closing : s'.conn.closing = s.conn.closing
  released : s'.conn.released = s.conn.released
  state : s'.conn.state = s.conn.state
  waiting : s'.conn.resolveReq = s.conn.resolveReq
  target : (s'.conn.targetFamily, s'.conn.targetIp, s'.conn.targetIp6, s'.conn.targetPort) =
    (s.conn.targetFamily, s.conn.targetIp, s.conn.targetIp6, s.conn.targetPort)
  trace : ∃ new, s'.trace = s.trace ++ new ∧ ∀ e ∈ new, ∃ data, e = .sent data

/-! ### The write side -/

section WriteSide

variable {why : CloseReason → Prop} {s s' s'' : Socks}

theorem WriteFrame.refl (why : CloseReason → Prop) (s : Socks) : WriteFrame why s s :=
  ⟨rfl, rfl, rfl, rfl, rfl, id, id, id, id, .inl, [], by simp, by simp⟩

theorem WriteFrame.trans (h : WriteFrame why s s') (h' : WriteFrame why s' s'') :
    WriteFrame why s s'' where
  state := h'.state.trans h.state
  rxbuf := h'.rxbuf.trans h.rxbuf
  pending := h'.pending.trans h.pending
  target := h'.target.trans h.target
  paused := h'.paused.trans h.paused
  tunnel := h.tunnel ∘ h'.tunnel
  waiting := h.waiting ∘ h'.waiting
  reading := h.reading ∘ h'.reading
  closing := h'.closing ∘ h.closing
  stopped hclosing := by
    rcases h'.stopped hclosing with hbefore | hstop
    · rcases h.stopped hbefore with hfirst | ⟨hread, htunnel, hwait⟩
      · exact .inl hfirst
      · -- what the first part has stopped, the second does not start again
        refine .inr ⟨?_, ?_, ?_⟩
        · exact Bool.eq_false_iff.2 fun hr => absurd (h'.reading hr) (by simp [hread])
        · exact Option.not_isSome_iff_eq_none.1 fun ht => absurd (h'.tunnel ht) (by simp [htunnel])
        · exact Bool.eq_false_iff.2 fun hw => absurd (h'.waiting hw) (by simp [hwait])
    · exact .inr hstop
  trace := by
    obtain ⟨new, hnew, hall⟩ := h.trace
    obtain ⟨new', hnew', hall'⟩ := h'.trace
    refine ⟨new ++ new', by rw [hnew', hnew, List.append_assoc], ?_⟩
    exact List.forall_mem_append.2 ⟨hall, hall'⟩

theorem WriteSide.refl (why : CloseReason → Prop) (s : Socks) : WriteSide why s s :=
  ⟨.refl why s, id⟩

theorem WriteSide.trans (h : WriteSide why s s') (h' : WriteSide why s' s'') :
    WriteSide why s s'' :=
  ⟨h.toWriteFrame.trans h'.toWriteFrame, h'.isOpen ∘ h.isOpen⟩

/-- An entry of the write side is added. -/
theorem WriteSide.log (s : Socks) {e : SocksEntry} (he : e.WriteFor why) :
    WriteSide why s (s.log e) :=
  ⟨⟨rfl, rfl, rfl, rfl, rfl, id, id, id, id, .inl, [e], rfl, by simpa using he⟩, id⟩

/-- The output buffers and the write state change. -/
theorem writeFrame_update (why : CloseReason → Prop) (s : Socks)
    (out : List Byte) (outCap : ℕ) (buf : List Byte) (bufCap : ℕ) (w : S5WriteState)
    (req : Bool) (rel : Bool) :
    WriteFrame why s (s.update fun conn => { conn with
      outbuf := out, outbufCap := outCap, writeBuf := buf, writeBufCap := bufCap, writeState := w,
      writeReq := req, released := rel }) :=
  ⟨rfl, rfl, rfl, rfl, rfl, id, id, id, id, .inl, [], by simp, by simp⟩

theorem writeSide_update (why : CloseReason → Prop) (s : Socks)
    (out : List Byte) (outCap : ℕ) (buf : List Byte) (bufCap : ℕ) {w : S5WriteState}
    (req : Bool) (rel : Bool) (hw : w = s.conn.writeState ∨ w ≠ .closed) :
    WriteSide why s (s.update fun conn => { conn with
      outbuf := out, outbufCap := outCap, writeBuf := buf, writeBufCap := bufCap, writeState := w,
      writeReq := req, released := rel }) := by
  refine ⟨writeFrame_update why s out outCap buf bufCap w req rel, fun hopen hclosing => ?_⟩
  rcases hw with rfl | hw
  · exact hopen hclosing
  · exact hw

theorem writeSide_flushRemove (s : Socks) : WriteSide why s (flushRemove s) := by
  unfold flushRemove
  split_ifs
  · exact .refl _ s
  · exact writeSide_update why s _ _ _ _ _ _ (.inr nofun)

theorem writeSide_scheduleClientFlush (s : Socks) :
    WriteSide why s (scheduleClientFlush s) := by
  unfold scheduleClientFlush
  split_ifs
  · exact .refl _ s
  · exact writeSide_update why s _ _ _ _ _ _ (.inr nofun)

theorem writeSide_startWrite (s : Socks) : WriteSide why s (startWrite s) := by
  have hswap := writeSide_update why s [] s.conn.writeBufCap s.conn.outbuf s.conn.outbufCap
    (w := .writing) s.conn.writeReq s.conn.released (.inr nofun)
  exact hswap.trans (.log _ trivial)

section Functions

variable (env : SocksEnv)

theorem writeSide_updateWgRecvWindowState (s : Socks) :
    WriteSide why s (updateWgRecvWindowState env s) := by
  unfold updateWgRecvWindowState
  cases htunnel : s.conn.wgConn with
  | none => exact .refl _ s
  | some t =>
    have hsome : s.conn.wgConn.isSome = true := by rw [htunnel]; rfl
    simp only
    split_ifs
    · exact .refl _ s
    · exact ⟨⟨rfl, rfl, rfl, rfl, rfl, id, id, id, id, .inl, [], by simp, by simp⟩, id⟩
    · exact ⟨⟨rfl, rfl, rfl, rfl, rfl, fun _ => hsome, id, id, id, .inl, [], by simp, by simp⟩, id⟩
    · exact .refl _ s

theorem writeFrame_leaveTunnel (s : Socks) : WriteFrame why s (leaveTunnel env s) := by
  unfold leaveTunnel
  cases s.conn.wgConn with
  | none => exact .refl _ s
  | some t =>
    exact ⟨rfl, rfl, rfl, rfl, rfl, nofun, id, id, id, .inl, _, rfl, by simp [SocksEntry.WriteFor]⟩

@[simp] theorem wgConn_leaveTunnel (s : Socks) : (leaveTunnel env s).conn.wgConn = none := by
  unfold leaveTunnel
  cases htunnel : s.conn.wgConn with
  | none => exact htunnel
  | some t => rfl

/-- Leaving the tunnel changes nothing but that. -/
theorem conn_leaveTunnel (s : Socks) :
    (leaveTunnel env s).conn = { s.conn with wgConn := none } := by
  unfold leaveTunnel
  cases htunnel : s.conn.wgConn with
  | none =>
    obtain ⟨conn, trace⟩ := s
    obtain ⟨_⟩ := conn
    cases htunnel
    rfl
  | some t => rfl

/-- A connection that is closed has its handle closed, where it was not marked before. -/
theorem closing_socks5ConnClose (reason : CloseReason) (hopen : s.conn.Open) :
    (socks5ConnClose env reason s).conn.closing = true := by
  unfold socks5ConnClose
  simp only
  split_ifs with hclosed hclosing
  · by_contra hno
    exact hopen (by simpa using hno) hclosed
  · exact hclosing
  · rfl

/-- A connection that is closed has let go of its tunnel. -/
theorem wgConn_socks5ConnClose (reason : CloseReason) (hopen : s.conn.writeState ≠ .closed) :
    (socks5ConnClose env reason s).conn.wgConn = none := by
  unfold socks5ConnClose
  simp only
  generalize (flushRemove s).update (fun conn => { conn with writeState := .closed }) = marked
  have hleft := wgConn_leaveTunnel env marked
  generalize leaveTunnel env marked = gone at hleft ⊢
  rw [if_neg hopen]
  split_ifs <;> exact hleft

theorem writeSide_socks5ConnClose {reason : CloseReason} (hreason : why reason) (s : Socks) :
    WriteSide why s (socks5ConnClose env reason s) := by
  refine ⟨?_, fun hopen hno => ?_⟩
  · unfold socks5ConnClose
    simp only
    generalize hmark : (flushRemove s).update (fun conn => { conn with writeState := .closed }) =
      marked
    have hmarked : WriteFrame why s marked := by
      rw [← hmark]
      exact (writeSide_flushRemove s).toWriteFrame.trans
        (writeFrame_update why _ _ _ _ _ .closed _ _)
    have hleft : WriteFrame why s (leaveTunnel env marked) :=
      hmarked.trans (writeFrame_leaveTunnel env marked)
    split_ifs
    · exact .refl _ s
    · refine hleft.trans ?_
      exact ⟨rfl, rfl, rfl, rfl, rfl, id, nofun, id, id, .inl, [], by simp, by simp⟩
    · refine hleft.trans ?_
      exact ⟨rfl, rfl, rfl, rfl, rfl, id, nofun, nofun, fun _ => rfl,
        fun _ => .inr ⟨rfl, wgConn_leaveTunnel env _, rfl⟩, _, rfl,
        by simpa [SocksEntry.WriteFor] using hreason⟩
  · rw [closing_socks5ConnClose env reason hopen] at hno
    cases hno

theorem writeSide_clientFlush (hclient : why .client) (s : Socks) :
    WriteSide why s (clientFlush env s) := by
  unfold clientFlush
  simp only
  split_ifs
  · exact .refl _ s
  · refine (writeSide_startWrite s).trans (.trans ?_ (writeSide_socks5ConnClose env hclient _))
    exact writeSide_update why _ _ _ _ _ _ _ (.inr nofun)
  · exact (writeSide_startWrite s).trans (writeSide_update why _ _ _ _ _ _ _ (.inl rfl))

theorem writeSide_clientWrite (hclient : why .client) (data : List Byte) (s : Socks) :
    WriteSide why s (clientWrite env data s) := by
  have hgiven : WriteSide why s (s.log (.given data)) := .log s trivial
  unfold clientWrite
  simp only
  split_ifs with hskip
  · exact hgiven
  cases reserveBuf env (s.log (.given data)).conn
      ((s.log (.given data)).conn.outbuf.length + data.length) with
  | none => exact hgiven.trans (.log _ trivial)
  | some cap =>
    have hout : WriteSide why s (updateWgRecvWindowState env
        ((s.log (.given data)).update fun conn =>
          { conn with outbuf := conn.outbuf ++ data, outbufCap := cap })) := by
      refine hgiven.trans (.trans ?_ (writeSide_updateWgRecvWindowState env _))
      exact writeSide_update why _ _ _ _ _ _ _ (.inl rfl)
    simp only
    split_ifs
    · exact hout.trans ((writeSide_flushRemove _).trans (writeSide_clientFlush env hclient _))
    · exact hout.trans (writeSide_scheduleClientFlush _)

theorem writeSide_refuse (hclient : why .client) (hfailed : why .failed) (data : List Byte)
    (s : Socks) : WriteSide why s (refuse env data s) :=
  (writeSide_clientWrite env hclient data s).trans (writeSide_socks5ConnClose env hfailed _)

theorem closing_refuse (data : List Byte) (hopen : s.conn.Open) :
    (refuse env data s).conn.closing = true :=
  closing_socks5ConnClose env _
    ((@writeSide_clientWrite (fun _ => True) env trivial data s).isOpen hopen)

theorem state_refuse (data : List Byte) (s : Socks) :
    (refuse env data s).conn.state = s.conn.state :=
  (@writeSide_refuse (fun _ => True) env trivial trivial data s).state

theorem writeSide_flushCheck (hclient : why .client) (s : Socks) :
    WriteSide why s (flushCheck env s) := by
  refine WriteSide.trans ?_ (writeSide_clientFlush env hclient _)
  refine writeSide_update why s _ _ _ _ _ _ ?_
  split_ifs
  · exact .inr nofun
  · exact .inl rfl

theorem writeSide_writeDoneCb (hclient : why .client) (status : ℤ) (s : Socks) :
    WriteSide why s (writeDoneCb env status s) := by
  have hdone : ∀ cap wcap, WriteSide why s (s.update fun conn => { conn with
      outbufCap := cap, writeBuf := [], writeBufCap := wcap, writeState := .idle,
      writeReq := false }) :=
    fun _ _ => writeSide_update why s _ _ _ _ _ _ (.inr nofun)
  unfold writeDoneCb
  simp only
  split_ifs
  · exact (hdone _ _).trans (writeSide_socks5ConnClose env hclient _)
  · exact (hdone _ _).trans (writeSide_socks5ConnClose env hclient _)
  · exact (hdone _ _).trans
      ((writeSide_updateWgRecvWindowState env _).trans (writeSide_scheduleClientFlush _))
  · exact (hdone _ _).trans (writeSide_updateWgRecvWindowState env _)
  · exact (hdone _ _).trans
      ((writeSide_updateWgRecvWindowState env _).trans (writeSide_scheduleClientFlush _))
  · exact (hdone _ _).trans (writeSide_updateWgRecvWindowState env _)

theorem writeSide_clientCloseCb (s : Socks) : WriteSide why s (clientCloseCb env s) := by
  refine ⟨(writeFrame_leaveTunnel env s).trans ?_, fun hopen => ?_⟩
  · exact writeFrame_update why _ _ _ _ _ _ _ true
  · simp only [clientCloseCb, Socks.update_conn, conn_leaveTunnel]
    exact hopen

theorem writeSide_wgOnData (hclient : why .client) (data : List Byte) (s : Socks) :
    WriteSide why s (wgOnData env data s) := by
  unfold wgOnData
  split_ifs
  · exact .refl _ s
  · exact writeSide_clientWrite env hclient data s

theorem writeSide_wgOnClose (hremote : why .remote) (s : Socks) :
    WriteSide why s (wgOnClose env s) := by
  refine WriteSide.trans ?_ (writeSide_socks5ConnClose env hremote _)
  exact ⟨⟨rfl, rfl, rfl, rfl, rfl, nofun, id, id, id, .inl, [], by simp, by simp⟩, id⟩

theorem writeSide_onClientReadEnd (hclient : why .client) (nread : ℤ) (s : Socks) :
    WriteSide why s (onClientReadEnd env nread s) := by
  unfold onClientReadEnd
  split_ifs
  · exact writeSide_socks5ConnClose env hclient s
  · exact .refl _ s

end Functions

end WriteSide

/-! ### The read side -/

theorem ReadSide.refl (s : Socks) : ReadSide s s :=
  ⟨rfl, rfl, rfl, rfl, rfl, rfl, rfl, rfl, [], by simp, by simp⟩

theorem ReadSide.trans {s s' s'' : Socks} (h : ReadSide s s') (h' : ReadSide s' s'') :
    ReadSide s s'' where
  out := h'.out.trans h.out
  writeState := h'.writeState.trans h.writeState
  writeReq := h'.writeReq.trans h.writeReq
  closing := h'.closing.trans h.closing
  released := h'.released.trans h.released
  state := h'.state.trans h.state
  waiting := h'.waiting.trans h.waiting
  target := h'.target.trans h.target
  trace := by
    obtain ⟨new, hnew, hall⟩ := h.trace
    obtain ⟨new', hnew', hall'⟩ := h'.trace
    refine ⟨new ++ new', by rw [hnew', hnew, List.append_assoc], ?_⟩
    exact List.forall_mem_append.2 ⟨hall, hall'⟩

/-- Data is sent. -/
theorem ReadSide.log (s : Socks) (data : List Byte) : ReadSide s (s.log (.sent data)) :=
  ⟨rfl, rfl, rfl, rfl, rfl, rfl, rfl, rfl, [.sent data], rfl, by simp⟩

theorem readSide_tunnelSend (env : SocksEnv) (t : Tcp) (data : List Byte) (s : Socks) :
    ReadSide s (tunnelSend env t data s).2 := by
  have htunnel : ∀ t', ReadSide s (s.update fun conn => { conn with wgConn := some t' }) :=
    fun _ => ⟨rfl, rfl, rfl, rfl, rfl, rfl, rfl, rfl, [], by simp, by simp⟩
  unfold tunnelSend
  simp only
  split_ifs
  · exact htunnel _
  · exact (htunnel _).trans (.log _ _)

theorem readSide_flushPendingLoop (env : SocksEnv) (fuel : ℕ) (s : Socks) :
    ReadSide s (flushPendingLoop env fuel s) := by
  induction fuel generalizing s with
  | zero => exact .refl s
  | succ fuel ih =>
    unfold flushPendingLoop
    cases s.conn.wgConn with
    | none => exact .refl s
    | some t =>
      have hround : ∀ data len, ReadSide s (flushPendingLoop env fuel
          ((tunnelSend env t data s).2.update fun conn =>
            { conn with pending := pendingConsume conn.pending len })) := by
        intro data len
        refine (readSide_tunnelSend env t data s).trans (ReadSide.trans ?_ (ih _))
        exact ⟨rfl, rfl, rfl, rfl, rfl, rfl, rfl, rfl, [], by simp, by simp⟩
      simp only
      split_ifs
      · exact .refl s
      · exact .refl s
      · exact readSide_tunnelSend ..
      · exact hround _ _
      · exact readSide_tunnelSend ..
      · exact hround _ _

theorem readSide_resumeReading (s : Socks) : ReadSide s (resumeReading s) :=
  ⟨rfl, rfl, rfl, rfl, rfl, rfl, rfl, rfl, [], by simp [resumeReading], by simp⟩

theorem readSide_flushPendingToWg (env : SocksEnv) (s : Socks) :
    ReadSide s (flushPendingToWg env s) := by
  have hloop := readSide_flushPendingLoop env s.conn.pending.len s
  have hfree : ∀ s : Socks, ReadSide s (s.update fun conn => { conn with pending := .empty }) :=
    fun _ => ⟨rfl, rfl, rfl, rfl, rfl, rfl, rfl, rfl, [], by simp, by simp⟩
  unfold flushPendingToWg
  simp only
  split_ifs
  · exact .refl s
  · exact hloop.trans ((hfree _).trans (readSide_resumeReading _))
  · exact hloop.trans (hfree _)
  · exact hloop

theorem readSide_wgOnWriteable (env : SocksEnv) (s : Socks) :
    ReadSide s (wgOnWriteable env s) := by
  have hflush := readSide_flushPendingToWg env s
  unfold wgOnWriteable
  simp only
  split_ifs
  · exact hflush.trans (readSide_resumeReading _)
  · exact hflush
  · exact readSide_resumeReading _
  · exact .refl s

theorem readSide_sendDirect (env : SocksEnv) (t : Tcp) (data : List Byte) (s : Socks) :
    ReadSide s (sendDirect env t data s).2 := by
  have hsend : ∀ data, ReadSide s (tunnelSend env t data s).2 :=
    fun data => readSide_tunnelSend env t data s
  unfold sendDirect
  simp only
  split_ifs <;> first | exact .refl s | exact hsend _

theorem readSide_pauseIfFull (s : Socks) : ReadSide s (pauseIfFull s) := by
  unfold pauseIfFull
  cases s.conn.wgConn with
  | none => exact .refl s
  | some t =>
    simp only
    split_ifs
    · exact ⟨rfl, rfl, rfl, rfl, rfl, rfl, rfl, rfl, [], by simp, by simp⟩
    · exact .refl s

/-- Data is pending, or the connection is closed because it finds no place. -/
theorem bufferPending_cases (env : SocksEnv) (data : List Byte) (s : Socks) :
    bufferPending env data s = socks5ConnClose env .overflow s ∨
      ReadSide s (bufferPending env data s) := by
  unfold bufferPending
  cases pendingAppend env s.conn.pending data with
  | none => exact .inl rfl
  | some ring => exact .inr ⟨rfl, rfl, rfl, rfl, rfl, rfl, rfl, rfl, [], by simp, by simp⟩

/-- A closed connection has nothing to pause. -/
theorem pauseIfFull_of_none {s : Socks} (h : s.conn.wgConn = none) : pauseIfFull s = s := by
  rw [pauseIfFull, h]

/-- Data of the client moves on, or the connection is closed because it finds no place. -/
theorem clientReadEstablished_cases (env : SocksEnv) (data : List Byte) {s : Socks}
    (hopen : s.conn.writeState ≠ .closed) :
    ∃ s1, ReadSide s s1 ∧ (clientReadEstablished env data s = s1 ∨
      clientReadEstablished env data s = socks5ConnClose env .overflow s1) := by
  have hbuffer : ∃ s1, ReadSide s s1 ∧ (bufferPending env data s = s1 ∨
      bufferPending env data s = socks5ConnClose env .overflow s1) := by
    rcases bufferPending_cases env data s with hclose | hside
    · exact ⟨s, .refl s, .inr hclose⟩
    · exact ⟨_, hside, .inl rfl⟩
  unfold clientReadEstablished
  cases s.conn.state with
  | resolving => exact hbuffer
  | connecting => exact hbuffer
  | established =>
    cases s.conn.wgConn with
    | none => exact ⟨s, .refl s, .inl rfl⟩
    | some t =>
      have hsend := readSide_sendDirect env t data s
      simp only
      rcases bufferPending_cases env (data.drop (sendDirect env t data s).1)
        (sendDirect env t data s).2 with hclose | hside
      · refine ⟨_, hsend, .inr ?_⟩
        have hopen' : (sendDirect env t data s).2.conn.writeState ≠ .closed := by
          rwa [hsend.writeState]
        rw [hclose, pauseIfFull_of_none (wgConn_socks5ConnClose env _ hopen')]
      · exact ⟨_, hsend.trans (hside.trans (readSide_pauseIfFull _)), .inl rfl⟩
  | init => exact ⟨s, .refl s, .inl rfl⟩
  | userpass => exact ⟨s, .refl s, .inl rfl⟩
  | auth => exact ⟨s, .refl s, .inl rfl⟩
  | closing => exact ⟨s, .refl s, .inl rfl⟩

/-- Behind the handshake, what is read goes to the tunnel. -/
theorem onClientRead_late (srv : SocksServer) (env : SocksEnv) (data : List Byte) {s : Socks}
    (h : s.conn.state = .established ∨ s.conn.state = .connecting ∨ s.conn.state = .resolving) :
    onClientRead srv env data s = clientReadEstablished env data (s.log (.read data)) :=
  if_pos h

end Wgx
