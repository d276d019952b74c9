import Wgx.Socks5.Gate
import Wgx.Tcp.Frame

/-!
# The reopening of the tunnel's window (`socks5.c`)

A connection tells the stack how much it still buffers for its client, and the peer of the tunnel
sees that as the window.  What is buffered changes with every write to the client and every write
that is done; the flag `wg_recv_window_throttled` remembers that the window may have been small.

* `WindowInv`: the flag is set while a mebibyte or more is buffered;
* `WindowStep`: what keeps that and takes nothing from the buffers, as all but `write_done_cb` does;
* `window_reopened`: when `write_done_cb` takes the buffers below the mark, the peer hears of it.
-/

namespace Wgx

/-- The tunnel asks the connection for its window. -/
def Tcp.Hooked (t : Tcp) : Prop := t.conn.handlers.onRecvWindow = true

/-- The window field for `room` bytes. -/
def windowField (room : ℕ) : ℕ :=
  min wgTcpWindow ((room + 2 ^ wgTcpWindowScale - 1) / 2 ^ wgTcpWindowScale)

/-- The state is one of the handshake or of the resolver. -/
def S5State.isEarly (state : S5State) : Prop := state.isShaking = true ∨ state = .resolving

/-- The state of the buffers and the tunnel.  While the connection is open, `write_buf` is empty
outside a write, and holds no more than a few replies before there is a tunnel. -/
structure WindowBase (s : Socks) : Prop where
  isOpen : s.conn.Open
  gone : s.conn.closing = true → s.conn.wgConn = none
  hooked : ∀ t, s.conn.wgConn = some t → t.Hooked
  drained : s.conn.closing = false → s.conn.writeState ≠ .writing → s.conn.writeBuf = []
  little : s.conn.closing = false → s.conn.state.isEarly → s.conn.writeBuf.length ≤ 4

/-- The bookkeeping of the window: the flag is set while much is buffered. -/
structure WindowInv (s : Socks) : Prop extends WindowBase s where
  flagged : ∀ t, s.conn.wgConn = some t →
    socks5ClientOutbufResume ≤ clientBufferedToBrowser s.conn → s.conn.wgRecvWindowThrottled = true

/-- The bookkeeping is kept, and what is buffered does not get less. -/
structure WindowStep (s s' : Socks) : Prop where
  inv : WindowInv s → WindowInv s'
  grows : WindowInv s → s'.conn.closing = false →
    clientBufferedToBrowser s.conn ≤ clientBufferedToBrowser s'.conn
  live : s'.conn.closing = false → s.conn.closing = false

section Steps

variable {s s' s'' : Socks}

theorem WindowStep.refl (s : Socks) : WindowStep s s := ⟨id, fun _ _ => le_rfl, id⟩

theorem WindowStep.trans (h : WindowStep s s') (h' : WindowStep s' s'') : WindowStep s s'' where
  inv := h'.inv ∘ h.inv
  grows hinv hlive := (h.grows hinv (h'.live hlive)).trans (h'.grows (h.inv hinv) hlive)
  live := h.live ∘ h'.live

/-- A connection that is being closed has nothing to keep. -/
theorem windowInv_gone (hclosing : s.conn.closing = true) (hnone : s.conn.wgConn = none) :
    WindowInv s where
  isOpen hno := by rw [hclosing] at hno; cases hno
  gone _ := hnone
  hooked t ht := by rw [hnone] at ht; cases ht
  drained hno := by rw [hclosing] at hno; cases hno
  little hno := by rw [hclosing] at hno; cases hno
  flagged t ht := by rw [hnone] at ht; cases ht

theorem windowStep_gone (hclosing : s'.conn.closing = true) (hnone : s'.conn.wgConn = none) :
    WindowStep s s' where
  inv _ := windowInv_gone hclosing hnone
  grows _ hno := by rw [hclosing] at hno; cases hno
  live hno := by rw [hclosing] at hno; cases hno

/-! ### The write side -/

section Functions

variable (env : SocksEnv)

theorem windowStep_log (s : Socks) (e : SocksEntry) : WindowStep s (s.log e) where
  inv h := ⟨⟨h.isOpen, h.gone, h.hooked, h.drained, h.little⟩, h.flagged⟩
  grows _ _ := le_rfl
  live := id

/-- The write state changes outside a write. -/
theorem windowStep_writeState {w : S5WriteState} (hbefore : s.conn.writeState ≠ .writing)
    (hw : w ≠ .closed) : WindowStep s (s.update fun conn => { conn with writeState := w }) where
  inv h := ⟨⟨fun _ => hw, h.gone, h.hooked, fun hlive _ => h.drained hlive hbefore, h.little⟩,
    h.flagged⟩
  grows _ _ := le_rfl
  live := id

theorem windowStep_flushRemove (s : Socks) : WindowStep s (flushRemove s) := by
  unfold flushRemove
  split_ifs with hq
  · exact .refl s
  · rw [not_not] at hq
    exact windowStep_writeState (by rw [hq]; nofun) nofun

theorem windowStep_scheduleClientFlush (s : Socks) : WindowStep s (scheduleClientFlush s) := by
  unfold scheduleClientFlush
  split_ifs with hidle
  · exact .refl s
  · rw [not_not] at hidle
    exact windowStep_writeState (by rw [hidle]; nofun) nofun

theorem windowStep_socks5ConnClose (reason : CloseReason) (s : Socks) :
    WindowStep s (socks5ConnClose env reason s) := by
  by_cases hclosed : s.conn.writeState = .closed
  · rw [socks5ConnClose, if_pos hclosed]
    exact .refl s
  · exact windowStep_gone (closing_socks5ConnClose env reason fun _ => hclosed)
      (wgConn_socks5ConnClose env reason hclosed)

/-- A connection with a tunnel is not being closed. -/
theorem WindowBase.live (h : WindowBase s) {t : Tcp} (ht : s.conn.wgConn = some t) :
    s.conn.closing = false := by
  by_contra hno
  rw [h.gone (by simpa using hno)] at ht
  cases ht

/-- What was in `outbuf` is in `write_buf`, which was empty. -/
theorem windowStep_startWrite (req : Bool) (hwriting : s.conn.writeState ≠ .writing)
    (hearly : s.conn.state.isEarly → s.conn.outbuf.length ≤ 4) :
    WindowStep s ((startWrite s).update fun conn => { conn with writeReq := req }) := by
  have hsame : WindowInv s → s.conn.closing = false →
      s.conn.outbuf.length = clientBufferedToBrowser s.conn := fun h hlive => by
    rw [clientBufferedToBrowser, h.drained hlive hwriting, List.length_nil, Nat.add_zero]
  have hbuffered : clientBufferedToBrowser
      ((startWrite s).update fun conn => { conn with writeReq := req }).conn =
        s.conn.outbuf.length := Nat.zero_add _
  refine ⟨fun h => ?_, fun h hlive => ?_, id⟩
  · refine ⟨⟨fun _ => nofun, h.gone, h.hooked, fun _ hno => absurd rfl hno, fun _ => hearly⟩,
      fun t ht hfull => h.flagged t ht ?_⟩
    rwa [hbuffered, hsame h (h.live ht)] at hfull
  · rw [hbuffered, hsame h hlive]

theorem windowStep_clientFlush (hearly : s.conn.state.isEarly → s.conn.outbuf.length ≤ 4) :
    WindowStep s (clientFlush env s) := by
  unfold clientFlush
  simp only
  split_ifs with hskip hfail
  · exact .refl s
  · exact windowStep_gone (closing_socks5ConnClose env _ fun _ => nofun)
      (wgConn_socks5ConnClose env _ nofun)
  · push Not at hskip
    exact windowStep_startWrite true hskip.2.1 hearly

theorem handlers_tcpUpdateRecvWindow (env : TcpEnv) (t : Tcp) :
    (tcpUpdateRecvWindow env t).conn.handlers = t.conn.handlers := by
  unfold tcpUpdateRecvWindow tcpAckNow
  split_ifs <;> rfl

/-- The flag is put right. -/
theorem windowInv_updateWgRecvWindowState (h : WindowBase s) (hopen : s.conn.writeState ≠ .closed) :
    WindowInv (updateWgRecvWindowState env s) := by
  unfold updateWgRecvWindowState
  cases htunnel : s.conn.wgConn with
  | none => exact ⟨h, fun t ht => by rw [htunnel] at ht; cases ht⟩
  | some t =>
    simp only
    rw [if_neg hopen]
    have hlive := h.live htunnel
    split_ifs with hfull hflag
    · exact ⟨⟨h.isOpen, h.gone, h.hooked, h.drained, h.little⟩, fun _ _ _ => rfl⟩
    · refine ⟨⟨h.isOpen, fun hno => ?_, ?_, h.drained, h.little⟩, fun _ _ hno => absurd hno hfull⟩
      · exact absurd hno (by simp [hlive])
      · intro t' ht'
        cases ht'
        exact (congrArg Handlers.onRecvWindow (handlers_tcpUpdateRecvWindow _ t)).trans
          (h.hooked t htunnel)
    · exact ⟨h, fun _ _ hno => absurd hno hfull⟩

theorem clientBufferedToBrowser_update (s : Socks) :
    clientBufferedToBrowser (updateWgRecvWindowState env s).conn =
      clientBufferedToBrowser s.conn := by
  unfold updateWgRecvWindowState
  cases s.conn.wgConn with
  | none => rfl
  | some t =>
    simp only
    split_ifs <;> rfl

/-- Data is put behind the output. -/
theorem windowStep_clientWrite (data : List Byte)
    (hearly : s.conn.state.isEarly → s.conn.outbuf.length + data.length < socks5FlushSize) :
    WindowStep s (clientWrite env data s) := by
  unfold clientWrite
  simp only
  split_ifs with hskip
  · exact windowStep_log s _
  push Not at hskip
  cases reserveBuf env (s.log (.given data)).conn
      ((s.log (.given data)).conn.outbuf.length + data.length) with
  | none => exact (windowStep_log s _).trans (windowStep_log _ _)
  | some cap =>
    simp only
    obtain ⟨s1, hs1⟩ : ∃ s1, s1 = (s.log (.given data)).update fun conn =>
        { conn with outbuf := conn.outbuf ++ data, outbufCap := cap } := ⟨_, rfl⟩
    have hside := @writeSide_updateWgRecvWindowState (fun _ => True) env s1
    have hout := @outbuf_updateWgRecvWindowState env s1
    rw [← hs1]
    have hupdate : WindowStep s (updateWgRecvWindowState env s1) := by
      refine ⟨fun h => ?_, fun _ _ => ?_, fun hlive => ?_⟩
      · refine windowInv_updateWgRecvWindowState env ?_ (by rw [hs1]; exact hskip.1)
        rw [hs1]
        exact ⟨h.isOpen, h.gone, h.hooked, h.drained, h.little⟩
      · rw [clientBufferedToBrowser_update, hs1]
        simp only [clientBufferedToBrowser, Socks.update_conn, Socks.log_conn, List.length_append]
        omega
      · by_contra hno
        have hclosing : s1.conn.closing = true := by rw [hs1]; simpa using hno
        rw [hside.closing hclosing] at hlive
        cases hlive
    split_ifs with hbig
    · refine hupdate.trans ((windowStep_flushRemove _).trans (windowStep_clientFlush env ?_))
      intro hst
      rw [(@writeSide_flushRemove (fun _ => True) _).state, hside.state, hs1] at hst
      have hsmall := hearly hst
      rw [hout, hs1, Socks.update_conn, Socks.log_conn, List.length_append] at hbig
      omega
    · exact hupdate.trans (windowStep_scheduleClientFlush _)

theorem outbuf_clientWrite_le (data : List Byte) (s : Socks) :
    (clientWrite env data s).conn.outbuf.length ≤ s.conn.outbuf.length + data.length := by
  unfold clientWrite
  simp only
  split_ifs with hskip
  · exact Nat.le_add_right _ _
  cases reserveBuf env (s.log (.given data)).conn
      ((s.log (.given data)).conn.outbuf.length + data.length) with
  | none => exact Nat.le_add_right _ _
  | some cap =>
    simp only
    split_ifs
    · refine (outbuf_clientFlush_le env _).trans ?_
      rw [outbuf_flushRemove, outbuf_updateWgRecvWindowState]
      simp
    · rw [outbuf_scheduleClientFlush, outbuf_updateWgRecvWindowState]
      simp

theorem windowStep_refuse (data : List Byte) (s : Socks)
    (hearly : s.conn.state.isEarly → s.conn.outbuf.length + data.length < socks5FlushSize) :
    WindowStep s (refuse env data s) :=
  (windowStep_clientWrite env data hearly).trans (windowStep_socks5ConnClose env _ _)

theorem windowStep_flushCheck (hearly : s.conn.state.isEarly → s.conn.outbuf.length ≤ 4) :
    WindowStep s (flushCheck env s) := by
  have hidle : WindowStep s (s.update fun conn => { conn with
      writeState := if conn.writeState = .queued then .idle else conn.writeState }) := by
    by_cases hq : s.conn.writeState = .queued
    · have hstep := @windowStep_writeState s .idle (by rw [hq]; nofun) nofun
      simpa only [Socks.update, if_pos hq] using hstep
    · simp only [Socks.update, if_neg hq]
      exact .refl s
  refine hidle.trans (windowStep_clientFlush env hearly)

/-! ### The read side -/

/-- The read side leaves the flag and the callbacks of the tunnel alone. -/
structure TunnelKept (s s' : Socks) : Prop extends ReadSide s s' where
  throttled : s'.conn.wgRecvWindowThrottled = s.conn.wgRecvWindowThrottled
  hooked : ∀ t', s'.conn.wgConn = some t' →
    ∃ t, s.conn.wgConn = some t ∧ t'.conn.handlers = t.conn.handlers

theorem TunnelKept.refl (s : Socks) : TunnelKept s s := ⟨.refl s, rfl, fun t ht => ⟨t, ht, rfl⟩⟩

theorem TunnelKept.trans (h : TunnelKept s s') (h' : TunnelKept s' s'') : TunnelKept s s'' where
  toReadSide := h.toReadSide.trans h'.toReadSide
  throttled := h'.throttled.trans h.throttled
  hooked t'' ht'' := by
    obtain ⟨t', ht', heq'⟩ := h'.hooked t'' ht''
    obtain ⟨t, ht, heq⟩ := h.hooked t' ht'
    exact ⟨t, ht, heq'.trans heq⟩

/-- Nothing but the ring and the reading changes. -/
theorem tunnelKept_update (s : Socks) (ring : Pending) (paused reading : Bool) :
    TunnelKept s (s.update fun conn =>
      { conn with pending := ring, clientPaused := paused, reading := reading }) :=
  ⟨⟨rfl, rfl, rfl, rfl, rfl, rfl, rfl, rfl, [], by simp, by simp⟩, rfl, fun t ht => ⟨t, ht, rfl⟩⟩

theorem TunnelKept.windowStep (h : TunnelKept s s') : WindowStep s s' := by
  have hbuffered : clientBufferedToBrowser s'.conn = clientBufferedToBrowser s.conn := by
    have hout := h.out
    simp only [Prod.mk.injEq] at hout
    rw [clientBufferedToBrowser, hout.1, hout.2.2.1, clientBufferedToBrowser]
  have hbuf : s'.conn.writeBuf = s.conn.writeBuf := congrArg (fun p => p.2.2.1) h.out
  refine ⟨fun hinv => ⟨⟨?_, ?_, ?_, ?_, ?_⟩, ?_⟩, fun _ _ => hbuffered.ge, fun hlive => ?_⟩
  · intro hlive
    rw [h.writeState]
    rw [h.closing] at hlive
    exact hinv.isOpen hlive
  · intro hclosing
    rw [h.closing] at hclosing
    refine Option.eq_none_iff_forall_ne_some.2 fun t' ht' => ?_
    obtain ⟨t, ht, -⟩ := h.hooked t' ht'
    rw [hinv.gone hclosing] at ht
    cases ht
  · intro t' ht'
    obtain ⟨t, ht, heq⟩ := h.hooked t' ht'
    exact (congrArg Handlers.onRecvWindow heq).trans (hinv.hooked t ht)
  · rw [h.closing, h.writeState, hbuf]
    exact hinv.drained
  · rw [h.closing, h.state, hbuf]
    exact hinv.little
  · intro t' ht'
    obtain ⟨t, ht, -⟩ := h.hooked t' ht'
    rw [hbuffered, h.throttled]
    exact hinv.flagged t ht
  · rwa [h.closing] at hlive

theorem handlers_tcpFlushPending (env : TcpEnv) (t : Tcp) :
    (tcpFlushPending env t).conn.handlers = t.conn.handlers := by
  unfold tcpFlushPending
  simp only
  split_ifs <;> rfl

theorem handlers_tcpSend (env : TcpEnv) (data : List Byte) (t : Tcp) :
    (tcpSend env data t).2.conn.handlers = t.conn.handlers := by
  unfold tcpSend
  split_ifs
  · rfl
  · rfl
  · rfl
  · rfl
  · rfl
  · cases hgrow : sendbufGrow env t.conn (t.conn.sendbufLen + data.length) with
    | none => rfl
    | some grown =>
      have hframe : (sendbufAppend grown data).handlers = t.conn.handlers := by
        rw [sendbufGrow_frame hgrow]
        rfl
      simp only
      split_ifs
      · exact (handlers_tcpFlushPending env _).trans hframe
      · unfold scheduleFlush
        split_ifs <;> exact hframe

theorem tunnelKept_tunnelSend {t : Tcp} (ht : s.conn.wgConn = some t) (data : List Byte) :
    TunnelKept s (tunnelSend env t data s).2 := by
  refine ⟨readSide_tunnelSend env t data s, ?_, fun t' ht' => ⟨t, ht, ?_⟩⟩
  · unfold tunnelSend
    simp only
    split_ifs <;> rfl
  · have heq : (tcpSend (env.tcp s.conn) data t).2 = t' := by
      unfold tunnelSend at ht'
      simp only at ht'
      split_ifs at ht' <;> exact Option.some.inj ht'
    rw [← heq]
    exact handlers_tcpSend _ data t

theorem tunnelKept_flushPendingLoop (fuel : ℕ) (s : Socks) :
    TunnelKept s (flushPendingLoop env fuel s) := by
  induction fuel generalizing s with
  | zero => exact .refl s
  | succ fuel ih =>
    unfold flushPendingLoop
    cases ht : s.conn.wgConn with
    | none => exact .refl s
    | some t =>
      have hround : ∀ data len, TunnelKept s (flushPendingLoop env fuel
          ((tunnelSend env t data s).2.update fun conn =>
            { conn with pending := pendingConsume conn.pending len })) := fun data len =>
        (tunnelKept_tunnelSend env ht data).trans ((tunnelKept_update _ _ _ _).trans (ih _))
      simp only
      split_ifs
      · exact .refl s
      · exact .refl s
      · exact tunnelKept_tunnelSend env ht _
      · exact hround _ _
      · exact tunnelKept_tunnelSend env ht _
      · exact hround _ _

theorem tunnelKept_flushPendingToWg (s : Socks) : TunnelKept s (flushPendingToWg env s) := by
  have hloop := tunnelKept_flushPendingLoop env s.conn.pending.len s
  unfold flushPendingToWg
  simp only
  split_ifs
  · exact .refl s
  · exact hloop.trans ((tunnelKept_update _ .empty _ _).trans (tunnelKept_update _ _ _ _))
  · exact hloop.trans (tunnelKept_update _ _ _ _)
  · exact hloop

theorem tunnelKept_wgOnWriteable (s : Socks) : TunnelKept s (wgOnWriteable env s) := by
  have hflush := tunnelKept_flushPendingToWg env s
  unfold wgOnWriteable
  simp only
  split_ifs
  · exact hflush.trans (tunnelKept_update _ _ _ _)
  · exact hflush
  · exact tunnelKept_update _ _ _ _
  · exact .refl s

theorem tunnelKept_sendDirect {t : Tcp} (ht : s.conn.wgConn = some t) (data : List Byte) :
    TunnelKept s (sendDirect env t data s).2 := by
  have hsend := tunnelKept_tunnelSend env ht
  unfold sendDirect
  simp only
  split_ifs <;> first | exact .refl s | exact hsend _

theorem windowStep_bufferPending (data : List Byte) (s : Socks) :
    WindowStep s (bufferPending env data s) := by
  unfold bufferPending
  cases pendingAppend env s.conn.pending data with
  | none => exact windowStep_socks5ConnClose env _ s
  | some ring => exact (tunnelKept_update s ring _ _).windowStep

theorem windowStep_pauseIfFull (s : Socks) : WindowStep s (pauseIfFull s) := by
  unfold pauseIfFull
  cases s.conn.wgConn with
  | none => exact .refl s
  | some t =>
    simp only
    split_ifs
    · exact (tunnelKept_update s _ _ _).windowStep
    · exact .refl s

theorem windowStep_clientReadEstablished (data : List Byte) (s : Socks) :
    WindowStep s (clientReadEstablished env data s) := by
  have hbuffer := windowStep_bufferPending env data s
  unfold clientReadEstablished
  cases s.conn.state with
  | resolving => exact hbuffer
  | connecting => exact hbuffer
  | established =>
    cases ht : s.conn.wgConn with
    | none => exact .refl s
    | some t =>
      exact (tunnelKept_sendDirect env ht data).windowStep.trans
        ((windowStep_bufferPending env _ _).trans (windowStep_pauseIfFull _))
  | init => exact .refl s
  | userpass => exact .refl s
  | auth => exact .refl s
  | closing => exact .refl s

/-! ### Acting upon a request -/

/-- The connection is open and has no tunnel. -/
structure Bare (conn : SocksConn) : Prop where
  isOpen : conn.writeState ≠ .closed
  noTunnel : conn.wgConn = none
  live : conn.closing = false

/-- Acting upon a request leaves the buffers alone, if it does not end the connection, and a tunnel
that comes of it asks for its window. -/
structure Dials (s s' : Socks) : Prop where
  isOpen : s'.conn.Open
  gone : s'.conn.closing = true → s'.conn.wgConn = none
  kept : s'.conn.closing = false →
    (s'.conn.outbuf, s'.conn.writeBuf, s'.conn.writeState, s'.conn.closing) =
      (s.conn.outbuf, s.conn.writeBuf, s.conn.writeState, s.conn.closing) ∧
    ∀ t, s'.conn.wgConn = some t → t.Hooked

/-- The state and the target are set before. -/
theorem Dials.after {s0 : Socks} (h : Dials s s')
    (hsame : (s.conn.outbuf, s.conn.writeBuf, s.conn.writeState, s.conn.closing) =
      (s0.conn.outbuf, s0.conn.writeBuf, s0.conn.writeState, s0.conn.closing)) : Dials s0 s' := by
  refine ⟨h.isOpen, h.gone, fun hlive => ?_⟩
  rw [← hsame]
  exact h.kept hlive

theorem dials_refuse (data : List Byte) (hs : Bare s.conn) : Dials s (refuse env data s) := by
  have hside := @writeSide_refuse (fun _ => True) env trivial trivial data s
  have hopen : s.conn.Open := fun _ => hs.isOpen
  refine ⟨hside.isOpen hopen, fun hclosing => ?_, fun hlive => ?_⟩
  · rcases hside.stopped hclosing with hbefore | hstop
    · rw [hs.live] at hbefore
      cases hbefore
    · exact hstop.2.1
  · rw [closing_refuse env data hopen] at hlive
    cases hlive

theorem dials_doConnect (hs : Bare s.conn) : Dials s (doConnect env s) := by
  unfold doConnect
  cases env.connect with
  | none => exact (dials_refuse env (s := s.log .connect) _ hs).after rfl
  | some iss =>
    refine ⟨fun _ => hs.isOpen, fun hno => ?_, fun _ => ⟨rfl, fun t ht => ?_⟩⟩
    · rw [Socks.update_conn, show (s.log .connect).conn.closing = false from hs.live] at hno
      cases hno
    · cases ht
      rfl

theorem dials_startConnect (hs : Bare s.conn) {f : SocksConn → SocksConn}
    (hf : ∀ conn : SocksConn, f conn = { conn with
      targetFamily := (f conn).targetFamily, targetIp := (f conn).targetIp,
      targetIp6 := (f conn).targetIp6 }) : Dials s (startConnect env f s) := by
  have hframe := hf s.conn
  refine Dials.after (dials_doConnect env ?_) ?_
  · rw [Socks.update_conn, hframe]
    exact ⟨hs.isOpen, hs.noTunnel, hs.live⟩
  · rw [Socks.update_conn, hframe]

variable (srv : SocksServer)

theorem dials_resolveComplete (hs : Bare s.conn) (domain : List Byte)
    (answer : Answer) : Dials s (resolveComplete srv env domain answer s) := by
  obtain ⟨status, family, ip, ip6⟩ := answer
  obtain ⟨s1, hs1⟩ : ∃ s1, s1 = s.update fun conn => { conn with targetFamily := family } :=
    ⟨_, rfl⟩
  have hsame : (s1.conn.outbuf, s1.conn.writeBuf, s1.conn.writeState, s1.conn.closing) =
      (s.conn.outbuf, s.conn.writeBuf, s.conn.writeState, s.conn.closing) := by
    rw [hs1]
    rfl
  have hbare : Bare s1.conn := by
    rw [hs1]
    exact ⟨hs.isOpen, hs.noTunnel, hs.live⟩
  have hdirect : Dials s (startConnect env id s1) :=
    (dials_startConnect env hbare fun _ => rfl).after hsame
  unfold resolveComplete
  rw [if_neg hs.isOpen]
  by_cases hfail : status < 0 ∨ family = .unspec
  · rw [if_pos hfail]
    exact dials_refuse env _ hs
  rw [if_neg hfail]
  simp only [← hs1]
  cases family with
  | unspec => exact hdirect
  | inet => exact (dials_startConnect env (s := s1.log _) hbare fun _ => rfl).after hsame
  | inet6 =>
    cases ip6 with
    | none => exact hdirect
    | some ip6 =>
      simp only
      split_ifs
      · refine Dials.after (dials_refuse env _ ?_) hsame
        exact ⟨hbare.isOpen, hbare.noTunnel, hbare.live⟩
      · refine Dials.after (dials_startConnect env ?_ fun _ => rfl) hsame
        exact ⟨hbare.isOpen, hbare.noTunnel, hbare.live⟩

theorem dials_dnsQueryFinish (hs : Bare s.conn) (shuttingDown : Bool)
    (domain : List Byte) (answer : Answer) :
    Dials s (dnsQueryFinish srv env shuttingDown domain answer s) := by
  obtain ⟨s1, hs1⟩ : ∃ s1, s1 = s.update fun conn => { conn with resolveReq := false } := ⟨_, rfl⟩
  have hbare : Bare s1.conn := by
    rw [hs1]
    exact ⟨hs.isOpen, hs.noTunnel, hs.live⟩
  unfold dnsQueryFinish
  simp only [← hs1]
  split_ifs
  · have hclosing := @closing_socks5ConnClose s1 env .shutdown fun _ => hbare.isOpen
    refine ⟨fun hno => ?_, fun _ => wgConn_socks5ConnClose env _ hbare.isOpen, fun hno => ?_⟩
    · rw [hclosing] at hno
      cases hno
    · rw [hclosing] at hno
      cases hno
  · refine (dials_resolveComplete env srv hbare domain answer).after ?_
    rw [hs1]
    rfl

theorem dials_resolveDomain (hs : Bare s.conn)
    (domain : List Byte) : Dials s (resolveDomain srv env domain s) := by
  obtain ⟨s1, hs1⟩ : ∃ s1, s1 = s.update fun conn => { conn with state := .resolving } := ⟨_, rfl⟩
  have hsame : (s1.conn.outbuf, s1.conn.writeBuf, s1.conn.writeState, s1.conn.closing) =
      (s.conn.outbuf, s.conn.writeBuf, s.conn.writeState, s.conn.closing) := by
    rw [hs1]
    rfl
  have hbare : Bare s1.conn := by
    rw [hs1]
    exact ⟨hs.isOpen, hs.noTunnel, hs.live⟩
  unfold resolveDomain
  simp only [← hs1]
  cases env.dnsCacheLookup domain with
  | some ip => exact (dials_resolveComplete env srv hbare domain _).after hsame
  | none =>
    simp only
    cases env.dnsStartQuery domain with
    | failed => exact (dials_refuse env (s := s1.log _) _ hbare).after hsame
    | pending =>
      refine ⟨fun _ => hbare.isOpen, fun _ => hbare.noTunnel, fun _ => ⟨hsame, fun t ht => ?_⟩⟩
      rw [Socks.update_conn, Socks.log_conn, hbare.noTunnel] at ht
      cases ht
    | answered shuttingDown answer =>
      exact (dials_dnsQueryFinish env srv (s := s1.log _) hbare _ domain answer).after hsame

theorem dials_dispatchRequest (hs : Bare s.conn) :
    Dials s (dispatchRequest srv env s) := by
  unfold dispatchRequest
  simp only
  split_ifs
  · exact dials_startConnect env hs fun _ => rfl
  · exact dials_resolveDomain env srv hs _
  · exact dials_refuse env _ hs
  · exact dials_startConnect env hs fun _ => rfl

/-- Acting upon a request keeps the bookkeeping. -/
theorem Dials.windowStep (h : Dials s s') (hs : Bare s.conn) (hearly : s.conn.state.isEarly)
    (hsmall : s.conn.outbuf.length ≤ 8) : WindowStep s s' := by
  refine ⟨fun hinv => ?_, fun _ hlive => ?_, fun _ => hs.live⟩
  · cases hclosing : s'.conn.closing with
    | true => exact windowInv_gone hclosing (h.gone hclosing)
    | false =>
      obtain ⟨hsame, hhooked⟩ := h.kept hclosing
      simp only [Prod.mk.injEq] at hsame
      obtain ⟨hout, hbuf, hw, -⟩ := hsame
      have hlittle := hinv.little hs.live hearly
      refine ⟨⟨h.isOpen, h.gone, hhooked, fun _ hnot => ?_, fun _ _ => ?_⟩, fun t _ hfull => ?_⟩
      · rw [hw] at hnot
        rw [hbuf]
        exact hinv.drained hs.live hnot
      · rwa [hbuf]
      · -- so early there is little to send
        rw [clientBufferedToBrowser, hout, hbuf, socks5ClientOutbufResume,
          socks5ClientOutbufLimit] at hfull
        omega
  · obtain ⟨hsame, -⟩ := h.kept hlive
    simp only [Prod.mk.injEq] at hsame
    rw [clientBufferedToBrowser, clientBufferedToBrowser, hsame.1, hsame.2.1]

/-! ### The handshake -/

theorem bare_clientWrite (hs : Bare s.conn) {data : List Byte} (hdata : data ≠ [])
    (hsmall : s.conn.outbuf.length + data.length < socks5FlushSize) :
    Bare (clientWrite env data s).conn := by
  have hadv := advanced_clientWrite env hs.isOpen hs.noTunnel hdata hsmall
  refine ⟨hadv.isOpen, ?_, ?_⟩
  · rw [hadv.conn]
    exact hs.noTunnel
  · rw [hadv.conn]
    exact hs.live

theorem windowStep_processConnectRequest (hs : Bare s.conn) (hauth : s.conn.state = .auth)
    (hsmall : s.conn.outbuf.length ≤ 8) (cut : List Byte) :
    WindowStep s (processConnectRequest srv env cut s) := by
  have hearly : s.conn.state.isEarly := .inl (by rw [hauth]; rfl)
  rw [processConnectRequest_eq]
  cases hv : parseRequest s.conn.rxbuf with
  | wait state rest => exact .refl s
  | refused state reply =>
    have hlen := ((@fits_parse srv .auth rfl s.conn.rxbuf).2 state reply hv).2
    refine windowStep_refuse env reply s fun _ => ?_
    rw [socks5FlushSize]
    omega
  | request msg rest =>
    have hdials := @dials_dispatchRequest ((s.log (.request (rest ++ cut))).update fun conn =>
      { conn with targetPort := be16 s.conn.rxbuf (msg.length - 2) }) env srv
      ⟨hs.isOpen, hs.noTunnel, hs.live⟩
    exact Dials.windowStep (s := s) (hdials.after rfl) hs hearly hsmall

theorem windowStep_connectIfReady (hs : Bare s.conn) (hsmall : s.conn.outbuf.length ≤ 8)
    (cut : List Byte) : WindowStep s (connectIfReady srv env cut s) := by
  unfold connectIfReady
  split_ifs with hready
  · exact windowStep_processConnectRequest env srv hs hready.1 hsmall cut
  · exact .refl s

/-- A reply and the message that it answers. -/
theorem windowStep_consumeMessage (len : ℕ) (state : S5State) (hearly : s.conn.state.isEarly)
    : WindowStep s (consumeMessage len state s) where
  inv h :=
    ⟨⟨h.isOpen, h.gone, h.hooked, h.drained, fun hlive _ => h.little hlive hearly⟩, h.flagged⟩
  grows _ _ := le_rfl
  live := id

theorem windowStep_userpass (hs : Bare s.conn) (huser : s.conn.state = .userpass)
    (hsmall : s.conn.outbuf.length ≤ 6) (cut : List Byte) :
    WindowStep s (connectIfReady srv env cut (processUserpassAuth srv env s)) := by
  have hearly : s.conn.state.isEarly := .inl (by rw [huser]; rfl)
  rcases processUserpassAuth_cases srv env with ⟨hdo, -⟩ | ⟨reply, -, hlen, hdo, -⟩ | ⟨len, hdo, -⟩
  · rw [hdo]
    exact windowStep_connectIfReady env srv hs (by omega) cut
  · rw [hdo, connectIfReady_of_ne srv env cut (by rw [state_refuse, huser]; nofun)]
    exact windowStep_refuse env reply s fun _ => by rw [socks5FlushSize]; omega
  · have hroom : s.conn.outbuf.length + [s5UserpassVer, 0].length < socks5FlushSize := by
      rw [socks5FlushSize, List.length_cons, List.length_singleton]
      omega
    have hwrite := bare_clientWrite env hs (by simp) hroom
    have hside := @writeSide_clientWrite (fun _ => True) env trivial [s5UserpassVer, 0] s
    have hout := outbuf_clientWrite_le env [s5UserpassVer, 0] s
    rw [List.length_cons, List.length_singleton] at hout
    rw [hdo]
    refine (windowStep_clientWrite env _ fun _ => hroom).trans ((windowStep_consumeMessage len .auth
      (by rwa [hside.state])).trans (windowStep_connectIfReady env srv ?_ ?_ cut))
    · exact ⟨hwrite.isOpen, hwrite.noTunnel, hwrite.live⟩
    · exact hout.trans (by omega)

theorem windowStep_processHandshake (hs : Bare s.conn) (hsmall : s.conn.outbuf.length ≤ 4)
    (cut : List Byte) : WindowStep s (processHandshake srv env cut s) := by
  unfold processHandshake
  cases hstate : s.conn.state with
  | init =>
    have hearly : s.conn.state.isEarly := .inl (by rw [hstate]; rfl)
    simp only
    rcases processAuthRequest_cases srv env with ⟨hdo, -⟩ | ⟨reply, -, hlen, hdo, -⟩ |
      ⟨len, selected, state, hnext, hdo, -⟩
    · rw [hdo, if_neg (by rw [hstate]; nofun)]
      exact windowStep_connectIfReady env srv hs (by omega) cut
    · have hst : (refuse env reply s).conn.state = .init := (state_refuse env reply s).trans hstate
      rw [hdo, if_neg (by rw [hst]; nofun), connectIfReady_of_ne srv env cut (by rw [hst]; nofun)]
      exact windowStep_refuse env reply s fun _ => by rw [socks5FlushSize]; omega
    · have hroom : s.conn.outbuf.length + [s5Ver, selected].length < socks5FlushSize := by
        rw [socks5FlushSize, List.length_cons, List.length_singleton]
        omega
      have hwrite := bare_clientWrite env hs (by simp) hroom
      have hside := @writeSide_clientWrite (fun _ => True) env trivial [s5Ver, selected] s
      have hout := outbuf_clientWrite_le env [s5Ver, selected] s
      rw [List.length_cons, List.length_singleton] at hout
      obtain ⟨s1, hs1⟩ : ∃ s1,
          s1 = consumeMessage len state (clientWrite env [s5Ver, selected] s) := ⟨_, rfl⟩
      have hstep : WindowStep s s1 := by
        rw [hs1]
        exact (windowStep_clientWrite env _ fun _ => hroom).trans
          (windowStep_consumeMessage len state (by rwa [hside.state]))
      have hbare : Bare s1.conn := by
        rw [hs1]
        exact ⟨hwrite.isOpen, hwrite.noTunnel, hwrite.live⟩
      have hlen : s1.conn.outbuf.length ≤ 6 := by
        rw [hs1]
        exact hout.trans (by omega)
      rw [hdo, ← hs1]
      split_ifs with huser
      · exact hstep.trans (windowStep_userpass env srv hbare huser hlen cut)
      · exact hstep.trans (windowStep_connectIfReady env srv hbare (by omega) cut)
  | userpass => exact windowStep_userpass env srv hs hstate (by omega) cut
  | auth => exact windowStep_processConnectRequest env srv hs hstate (by omega) cut
  | resolving => exact .refl s
  | connecting => exact .refl s
  | established => exact .refl s
  | closing => exact .refl s

/-! ### Events -/

theorem windowStep_onClientRead (h : SocksInv s) (hlive : s.conn.closing = false)
    (data : List Byte) : WindowStep s (onClientRead srv env data s) := by
  unfold onClientRead
  simp only
  split_ifs with hlate
  · exact (windowStep_log s _).trans (windowStep_clientReadEstablished env data _)
  · have hread : WindowStep s (s.buffered data) :=
      ⟨fun h => ⟨⟨h.isOpen, h.gone, h.hooked, h.drained, h.little⟩, h.flagged⟩,
        fun _ _ => le_rfl, id⟩
    refine hread.trans ?_
    by_cases hshake : s.conn.state.isShaking = true
    · have hearly := h.early hlive (.inl hshake)
      exact windowStep_processHandshake env srv (s := s.buffered data)
        ⟨h.isOpen hlive, hearly.1, hlive⟩ (hearly.2.trans (replyRoom_le _)) _
    · have hidle : processHandshake srv env (data.drop (rxbufSize - s.conn.rxbuf.length))
          (s.buffered data) = s.buffered data := by
        unfold processHandshake
        have hst : (s.buffered data).conn.state = s.conn.state := rfl
        rw [hst]
        cases hs : s.conn.state <;> simp_all [S5State.isShaking]
      have hsame : WindowStep (s.buffered data) (processHandshake srv env
          (data.drop (rxbufSize - s.conn.rxbuf.length)) (s.buffered data)) := by
        rw [hidle]
        exact .refl _
      exact hsame

theorem windowStep_wgOnConnect (hlate : ¬ s.conn.state.isEarly) (status : ℤ) :
    WindowStep s (wgOnConnect env status s) := by
  unfold wgOnConnect
  simp only
  split_ifs with hclosed hfail
  · exact .refl s
  · exact windowStep_refuse env _ s fun hearly => absurd hearly hlate
  all_goals
    have hest : WindowStep s (s.update fun conn => { conn with state := .established }) :=
      ⟨fun h => ⟨⟨h.isOpen, h.gone, h.hooked, h.drained, fun _ hearly => by
        rcases hearly with hno | hno <;> cases hno⟩, h.flagged⟩, fun _ _ => le_rfl, id⟩
    have hreply := hest.trans (windowStep_clientWrite env (replyBytes s5RepOk) fun hearly => by
      rcases hearly with hno | hno <;> cases hno)
  · exact hreply.trans (tunnelKept_flushPendingToWg env _).windowStep
  · exact hreply

/-- What the stack promises about the tunnel: it leaves `on_recv_window` alone. -/
def StackKeeps (s : Socks) (e : SocksEnv × SocksEvent) : Prop :=
  ∀ t t', s.conn.wgConn = some t → e.2 = .tunnel t' →
    t'.conn.handlers.onRecvWindow = t.conn.handlers.onRecvWindow

/-- All events but the end of a write keep the bookkeeping and take nothing from the buffers. -/
theorem windowStep_socksStep (h : SocksInv s) {e : SocksEnv × SocksEvent} (hstack : StackKeeps s e)
    (hdone : ∀ status, e.2 ≠ .writeDone status) : WindowStep s (socksStep srv s e) := by
  obtain ⟨env, e⟩ := e
  unfold socksStep
  split_ifs with hskip
  · exact .refl s
  have henabled : e.enabled s.conn := by
    by_contra hno
    exact hskip (.inr hno)
  cases e with
  | read data => exact windowStep_onClientRead env srv h (h.live_of_reading henabled.1) data
  | readEnd nread =>
    show WindowStep s (onClientReadEnd env nread s)
    unfold onClientReadEnd
    split_ifs
    · exact windowStep_socks5ConnClose env _ s
    · exact .refl s
  | resolved shuttingDown domain answer =>
    have hlive := h.live_of_waiting henabled
    have hearly : s.conn.state.isEarly := .inr (h.waiting henabled)
    have hbare : Bare s.conn := ⟨h.isOpen hlive, (h.early hlive hearly).1, hlive⟩
    have hroom := replyRoom_le s.conn.state
    exact (dials_dnsQueryFinish env srv hbare shuttingDown domain answer).windowStep hbare hearly
      ((h.early hlive hearly).2.trans (by omega))
  | tunnel t' =>
    obtain ⟨t, ht⟩ := Option.isSome_iff_exists.1 henabled
    refine ⟨fun hinv => ⟨⟨hinv.isOpen, fun hno => ?_, fun t'' ht'' => ?_, hinv.drained,
      hinv.little⟩, fun _ _ => hinv.flagged t ht⟩, fun _ _ => le_rfl, id⟩
    · rw [hinv.gone hno] at ht
      cases ht
    · cases ht''
      exact (hstack t t' ht rfl).trans (hinv.hooked t ht)
  | connect status => exact windowStep_wgOnConnect env (h.late_of_tunnel henabled) status
  | data data =>
    show WindowStep s (wgOnData env data s)
    unfold wgOnData
    split_ifs
    · exact .refl s
    · exact windowStep_clientWrite env data fun hearly => absurd hearly (h.late_of_tunnel henabled)
  | writeable => exact (tunnelKept_wgOnWriteable env s).windowStep
  | close =>
    have hlive := h.live_of_tunnel henabled
    exact windowStep_gone (closing_socks5ConnClose env _ fun _ => h.isOpen hlive)
      (wgConn_socks5ConnClose env _ (h.isOpen hlive))
  | check =>
    cases hclosing : s.conn.closing with
    | false =>
      exact windowStep_flushCheck env fun hearly =>
        (h.early hclosing hearly).2.trans (replyRoom_le _)
    | true =>
      have hside := @writeSide_flushCheck (fun _ => True) env trivial s
      refine windowStep_gone (hside.closing hclosing) (Option.not_isSome_iff_eq_none.1 fun ht => ?_)
      have hbefore := hside.tunnel ht
      rw [(h.stopped hclosing).2.1] at hbefore
      cases hbefore
  | writeDone status => exact absurd rfl (hdone status)
  | closeCb =>
    have hgone : (clientCloseCb env s).conn = { s.conn with wgConn := none, released := true } := by
      simp only [clientCloseCb, Socks.update_conn, conn_leaveTunnel]
    refine windowStep_gone ?_ ?_
    · exact (congrArg SocksConn.closing hgone).trans henabled
    · exact congrArg SocksConn.wgConn hgone

/-! ### The end of a write -/

/-- The connection when a write is done, before the flag is put right. -/
def Socks.written (s : Socks) (outCap bufCap : ℕ) : Socks :=
  s.update fun conn => { conn with
    writeReq := false, writeState := .idle, writeBuf := [], outbufCap := outCap,
    writeBufCap := bufCap }

theorem writeDoneCb_eq {status : ℤ} (hok : ¬ status < 0) : ∃ outCap bufCap,
    writeDoneCb env status s = updateWgRecvWindowState env (s.written outCap bufCap) ∨
      writeDoneCb env status s =
        scheduleClientFlush (updateWgRecvWindowState env (s.written outCap bufCap)) := by
  unfold writeDoneCb
  simp only
  rw [if_neg hok]
  split_ifs
  · exact ⟨s.conn.writeBufCap, s.conn.outbufCap, .inr rfl⟩
  · exact ⟨s.conn.writeBufCap, s.conn.outbufCap, .inl rfl⟩
  · exact ⟨s.conn.outbufCap, s.conn.writeBufCap, .inr rfl⟩
  · exact ⟨s.conn.outbufCap, s.conn.writeBufCap, .inl rfl⟩

/-- A failed write ends the connection. -/
theorem gone_writeDoneCb {status : ℤ} (hfail : status < 0) :
    (writeDoneCb env status s).conn.closing = true ∧
      (writeDoneCb env status s).conn.wgConn = none := by
  have hgone : ∀ s1 : Socks, s1.conn.writeState = .idle →
      (socks5ConnClose env .client s1).conn.closing = true ∧
        (socks5ConnClose env .client s1).conn.wgConn = none := fun s1 hidle =>
    have hopen : s1.conn.writeState ≠ .closed := by rw [hidle]; nofun
    ⟨closing_socks5ConnClose env _ fun _ => hopen, wgConn_socks5ConnClose env _ hopen⟩
  unfold writeDoneCb
  simp only
  rw [if_pos hfail]
  split_ifs
  · exact hgone _ rfl
  · exact hgone _ rfl

theorem windowInv_writeDoneCb (h : WindowInv s) (status : ℤ) :
    WindowInv (writeDoneCb env status s) := by
  have hside := @writeSide_writeDoneCb (fun _ => True) env trivial status s
  cases hclosing : s.conn.closing with
  | true =>
    refine windowInv_gone (hside.closing hclosing) (Option.not_isSome_iff_eq_none.1 fun ht => ?_)
    have hbefore := hside.tunnel ht
    rw [h.gone hclosing] at hbefore
    cases hbefore
  | false =>
    by_cases hfail : status < 0
    · obtain ⟨hclosing, hnone⟩ := @gone_writeDoneCb s env status hfail
      exact windowInv_gone hclosing hnone
    · obtain ⟨outCap, bufCap, hdo⟩ := @writeDoneCb_eq s env status hfail
      have hbase : WindowBase (s.written outCap bufCap) :=
        ⟨fun _ => nofun, h.gone, h.hooked, fun _ _ => rfl, fun _ _ => Nat.zero_le _⟩
      have hinv := windowInv_updateWgRecvWindowState env hbase (by nofun)
      rcases hdo with hdo | hdo
      · rwa [hdo]
      · rw [hdo]
        exact (windowStep_scheduleClientFlush _).inv hinv

theorem wgConn_scheduleClientFlush (s : Socks) :
    (scheduleClientFlush s).conn.wgConn = s.conn.wgConn ∧
      clientBufferedToBrowser (scheduleClientFlush s).conn = clientBufferedToBrowser s.conn := by
  unfold scheduleClientFlush
  split_ifs <;> exact ⟨rfl, rfl⟩

/-- If much was buffered and little is left, the stack is told. -/
theorem reopened_writeDoneCb (h : WindowInv s) {status : ℤ} {t t' : Tcp}
    (ht : s.conn.wgConn = some t)
    (hfull : socks5ClientOutbufResume ≤ clientBufferedToBrowser s.conn)
    (ht' : (writeDoneCb env status s).conn.wgConn = some t')
    (hless : clientBufferedToBrowser (writeDoneCb env status s).conn < socks5ClientOutbufResume) :
    ∃ conn : SocksConn, conn.writeState ≠ .closed ∧ clientBufferedToBrowser conn =
      clientBufferedToBrowser (writeDoneCb env status s).conn ∧
      t' = tcpUpdateRecvWindow (env.tcp conn) t := by
  have hfail : ¬ status < 0 := fun hfail => by
    rw [(@gone_writeDoneCb s env status hfail).2] at ht'
    cases ht'
  obtain ⟨outCap, bufCap, hdo⟩ := @writeDoneCb_eq s env status hfail
  obtain ⟨s2, hs2⟩ : ∃ s2, s2 = updateWgRecvWindowState env (s.written outCap bufCap) := ⟨_, rfl⟩
  have hsame : (writeDoneCb env status s).conn.wgConn = s2.conn.wgConn ∧
      clientBufferedToBrowser (writeDoneCb env status s).conn =
        clientBufferedToBrowser s2.conn := by
    rcases hdo with hdo | hdo
    · rw [hdo, hs2]
      exact ⟨rfl, rfl⟩
    · rw [hdo, hs2]
      exact wgConn_scheduleClientFlush _
  rw [hsame.1] at ht'
  rw [hsame.2] at hless ⊢
  have hbuffered : clientBufferedToBrowser s2.conn =
      clientBufferedToBrowser (s.written outCap bufCap).conn := by
    rw [hs2]
    exact clientBufferedToBrowser_update env _
  rw [hbuffered] at hless ⊢
  rw [hs2] at ht'
  unfold updateWgRecvWindowState at ht'
  rw [show (s.written outCap bufCap).conn.wgConn = some t from ht] at ht'
  simp only at ht'
  have hflag : (s.written outCap bufCap).conn.wgRecvWindowThrottled = true := h.flagged t ht hfull
  rw [if_neg (by nofun), if_neg (not_le.2 hless), if_pos hflag] at ht'
  exact ⟨_, by nofun, rfl, (Option.some.inj ht').symm⟩

/-- The bookkeeping is kept by every event. -/
theorem windowInv_socksStep (h : WindowInv s) (hinv : SocksInv s) {e : SocksEnv × SocksEvent}
    (hstack : StackKeeps s e) : WindowInv (socksStep srv s e) := by
  by_cases hdone : ∃ status, e.2 = .writeDone status
  · obtain ⟨status, hstatus⟩ := hdone
    unfold socksStep
    split_ifs
    · exact h
    · rw [hstatus]
      exact windowInv_writeDoneCb e.1 h status
  · exact (windowStep_socksStep srv hinv hstack fun status heq => hdone ⟨status, heq⟩).inv h

end Functions

end Steps

theorem windowInv_accept : WindowInv .accept := by
  have hnone : Socks.accept.conn.wgConn = none := rfl
  refine ⟨⟨socksInv_accept.isOpen, fun _ => hnone, fun t ht => ?_, fun _ _ => rfl, fun _ _ => ?_⟩,
    fun t ht => ?_⟩
  · rw [hnone] at ht
    cases ht
  · exact Nat.zero_le 4
  · rw [hnone] at ht
    cases ht

theorem windowInv_run (srv : SocksServer) {es : List (SocksEnv × SocksEvent)}
    (hstack : Machine.Guarded (socksStep srv) StackKeeps .accept es) :
    WindowInv (socksRun srv es) :=
  (@Machine.run_induction _ _ (socksStep srv) StackKeeps (fun s => SocksInv s ∧ WindowInv s)
    (fun _ e hs hok => ⟨socksInv_step srv hs.1 e, windowInv_socksStep srv hs.2 hs.1 hok⟩) .accept
    ⟨socksInv_accept, windowInv_accept⟩ es hstack).2

/-- A stack whose tunnels all ask for the window leaves `on_recv_window` alone. -/
theorem guarded_stackKeeps (srv : SocksServer) {s : Socks} (hinv : SocksInv s) (hwin : WindowInv s)
    {es : List (SocksEnv × SocksEvent)} (h : ∀ e ∈ es, ∀ t, e.2 = .tunnel t → t.Hooked) :
    Machine.Guarded (socksStep srv) StackKeeps s es := by
  induction es generalizing s with
  | nil => trivial
  | cons e es ih =>
    obtain ⟨he, hes⟩ := List.forall_mem_cons.1 h
    have hstack : StackKeeps s e := fun t t' ht heq =>
      (he t' heq).trans (hwin.hooked t ht).symm
    exact ⟨hstack, ih (socksInv_step srv hinv e) (windowInv_socksStep srv hwin hinv hstack) hes⟩

/-! ### The window that the peer sees -/

/-- The window of a segment to the peer is what the connection has room for. -/
theorem advertisedWindow_hooked (env : SocksEnv) {conn : SocksConn}
    (hopen : conn.writeState ≠ .closed)
    (hless : clientBufferedToBrowser conn < socks5ClientOutbufResume) {tcp : Conn}
    (hhooked : tcp.handlers.onRecvWindow = true) :
    advertisedWindow (env.tcp conn) tcp false =
      windowField (socks5ClientOutbufLimit - clientBufferedToBrowser conn) := by
  rw [socks5ClientOutbufResume, socks5ClientOutbufLimit] at hless
  have hroom : (env.tcp conn).recvWindow tcp = 2 * 1024 * 1024 - clientBufferedToBrowser conn := by
    show wgRecvWindow conn = _
    rw [wgRecvWindow, if_neg hopen, if_neg (by rw [socks5ClientOutbufLimit]; omega)]
    rfl
  rw [advertisedWindow, if_neg (by decide), hhooked, hroom]
  simp only [if_true, windowField, wgTcpWindow, wgTcpWindowScale, socks5ClientOutbufLimit]
  generalize clientBufferedToBrowser conn = buffered at hless
  rw [Nat.mod_eq_of_lt (show 2 * 1024 * 1024 - buffered < 2 ^ 32 by omega),
    if_neg (show ¬ 2 * 1024 * 1024 - buffered = 0 by omega),
    Nat.mod_eq_of_lt (show 2 * 1024 * 1024 - buffered + 2 ^ 4 - 1 < 2 ^ 32 by omega)]
  split_ifs <;> omega

/-- **The reopening of the window is never forgotten.**  In every state with a tunnel the flag is
set while a mebibyte or more is buffered, and the event that leaves less than that sends an
acknowledgement with the new window at once, if the tunnel is established. -/
theorem window_reopened (srv : SocksServer) (es : List (SocksEnv × SocksEvent))
    (hstack : Machine.Guarded (socksStep srv) StackKeeps .accept es) {t : Tcp}
    (ht : (socksRun srv es).conn.wgConn = some t)
    (hfull : socks5ClientOutbufResume ≤ clientBufferedToBrowser (socksRun srv es).conn) :
    (socksRun srv es).conn.wgRecvWindowThrottled = true ∧
    ∀ e t', (socksRun srv (es ++ [e])).conn.wgConn = some t' →
      clientBufferedToBrowser (socksRun srv (es ++ [e])).conn < socks5ClientOutbufResume →
      t.conn.state = .established → t.conn.beingFreed = false →
      ∃ seg : Segment, t'.trace = t.trace ++ [.segment seg] ∧ seg.flags.ack = true ∧
        seg.ack = t.conn.rcvNxt ∧ 0 < seg.window ∧
        seg.window = windowField (socks5ClientOutbufLimit -
          clientBufferedToBrowser (socksRun srv (es ++ [e])).conn) := by
  have hinv := windowInv_run srv hstack
  refine ⟨hinv.flagged t ht hfull, fun e t' ht' hless hest hfreed => ?_⟩
  have hrun : socksRun srv (es ++ [e]) = socksStep srv (socksRun srv es) e :=
    Machine.run_snoc _ _ _ _
  rw [hrun] at ht' hless ⊢
  obtain ⟨s, hs⟩ : ∃ s, s = socksRun srv es := ⟨_, rfl⟩
  rw [← hs] at hinv ht hfull ht' hless ⊢
  have hstages : SocksInv s := by
    rw [hs]
    exact socksInv_run srv es
  -- only the end of a write takes anything from the buffers
  have hwrite : ∃ status, e.2 = .writeDone status := by
    by_contra hno
    by_cases htunnel : ∃ t1, e.2 = .tunnel t1
    · obtain ⟨t1, ht1⟩ := htunnel
      have hsame : clientBufferedToBrowser (socksStep srv s e).conn =
          clientBufferedToBrowser s.conn := by
        unfold socksStep
        rw [ht1]
        split_ifs <;> rfl
      omega
    · have hstep := windowStep_socksStep srv hstages
        (fun _ t1 _ he => absurd ⟨t1, he⟩ htunnel) fun status heq => hno ⟨status, heq⟩
      have hgrows := hstep.grows hinv ((hstep.inv hinv).live ht')
      omega
  obtain ⟨status, hstatus⟩ := hwrite
  have hdo : socksStep srv s e = s ∨ socksStep srv s e = writeDoneCb e.1 status s := by
    unfold socksStep
    rw [hstatus]
    split_ifs
    · exact .inl rfl
    · exact .inr rfl
  rcases hdo with hdo | hdo
  · rw [hdo] at hless
    omega
  rw [hdo] at ht' hless ⊢
  obtain ⟨conn, hopen, hsame, rfl⟩ := reopened_writeDoneCb e.1 hinv ht hfull ht' hless
  rw [← hsame] at hless ⊢
  have hwindow := @advertisedWindow_hooked e.1 conn hopen hless
  have hhooked := hinv.hooked t ht
  refine ⟨segmentOf (e.1.tcp conn) { t.conn with
    ackTimer := false, delayedAckSegments := 0, delayedAckBytes := 0 } { ack := true }
      t.conn.sndNxt t.conn.rcvNxt [], ?_, rfl, rfl, ?_, hwindow hhooked⟩
  · rw [tcpUpdateRecvWindow, if_neg (by simp [hfreed, hest]), tcpAckNow,
      if_neg (by simp [hfreed])]
    rfl
  · refine lt_of_lt_of_eq ?_ (hwindow hhooked).symm
    rw [windowField, wgTcpWindow, wgTcpWindowScale, socks5ClientOutbufLimit]
    rw [socks5ClientOutbufResume, socks5ClientOutbufLimit] at hless
    omega

/-! ### A burst from the tunnel -/

/-- Where there is memory and the client takes it, a large write goes out at once, and the flag is
set. -/
theorem clientWrite_large {env : SocksEnv} {s : Socks} {data : List Byte} {t : Tcp}
    (ht : s.conn.wgConn = some t) (hqueued : s.conn.writeState = .queued)
    (hlarge : socks5ClientOutbufResume ≤ data.length)
    (hrealloc : ∀ conn n, env.realloc conn n = true) (huv : 0 ≤ env.uvWrite) :
    ∃ outCap bufCap, (clientWrite env data s).conn = { s.conn with
      outbuf := [], outbufCap := outCap, writeBuf := s.conn.outbuf ++ data, writeBufCap := bufCap
      writeState := .writing, writeReq := true, wgRecvWindowThrottled := true } := by
  rw [socks5ClientOutbufResume, socks5ClientOutbufLimit] at hlarge
  obtain ⟨cap, hres⟩ : ∃ cap, reserveBuf env (s.log (.given data)).conn
      ((s.log (.given data)).conn.outbuf.length + data.length) = some cap := by
    unfold reserveBuf
    simp only [hrealloc, if_true]
    split_ifs <;> exact ⟨_, rfl⟩
  have hskip : ¬ ((s.log (.given data)).conn.writeState = .closed ∨ data.length = 0) := by
    rw [not_or, Socks.log_conn, hqueued]
    exact ⟨by nofun, by omega⟩
  unfold clientWrite
  simp only
  rw [if_neg hskip, hres]
  simp only
  obtain ⟨s1, hs1⟩ : ∃ s1, s1 = (s.log (.given data)).update fun conn =>
      { conn with outbuf := conn.outbuf ++ data, outbufCap := cap } := ⟨_, rfl⟩
  have hconn1 : s1.conn = { s.conn with outbuf := s.conn.outbuf ++ data, outbufCap := cap } := by
    rw [hs1]
    rfl
  -- so much is buffered that the flag is set
  have hflag : (updateWgRecvWindowState env s1).conn =
      { s1.conn with wgRecvWindowThrottled := true } := by
    unfold updateWgRecvWindowState
    rw [show s1.conn.wgConn = some t by rw [hconn1]; exact ht]
    simp only
    rw [if_neg (by rw [hconn1, hqueued]; nofun), if_pos]
    · rfl
    · rw [hconn1, clientBufferedToBrowser, List.length_append, socks5ClientOutbufResume,
        socks5ClientOutbufLimit]
      omega
  rw [← hs1]
  generalize updateWgRecvWindowState env s1 = s2 at hflag
  rw [hconn1] at hflag
  have hbig : s2.conn.outbuf.length ≥ socks5FlushSize := by
    rw [hflag, List.length_append, socks5FlushSize]
    omega
  have hremoved : (flushRemove s2).conn = { s2.conn with writeState := .idle } := by
    unfold flushRemove
    rw [if_neg (by rw [hflag]; exact not_not.2 hqueued)]
    rfl
  rw [if_pos hbig]
  generalize flushRemove s2 = s3 at hremoved
  rw [hflag] at hremoved
  unfold clientFlush
  rw [if_neg]
  · simp only
    rw [if_neg (not_lt.2 huv)]
    simp only [startWrite, Socks.update_conn, Socks.log_conn, hremoved]
    exact ⟨_, _, rfl⟩
  · rw [hremoved, List.length_append]
    rintro (hno | hno | hno)
    · cases hno
    · cases hno
    · omega

/-- After the end of a write with nothing behind it, nothing is buffered. -/
theorem buffered_writeDoneCb {env : SocksEnv} {s : Socks} {status : ℤ} {t : Tcp}
    (hstatus : ¬ status < 0) (ht : s.conn.wgConn = some t) (hout : s.conn.outbuf = []) :
    (writeDoneCb env status s).conn.wgConn.isSome = true ∧
      clientBufferedToBrowser (writeDoneCb env status s).conn = 0 := by
  obtain ⟨outCap, bufCap, hdo⟩ := @writeDoneCb_eq s env status hstatus
  have hdone : (updateWgRecvWindowState env (s.written outCap bufCap)).conn.wgConn.isSome = true ∧
      clientBufferedToBrowser
        (updateWgRecvWindowState env (s.written outCap bufCap)).conn = 0 := by
    rw [clientBufferedToBrowser_update]
    refine ⟨?_, by rw [clientBufferedToBrowser]; exact congrArg List.length hout⟩
    unfold updateWgRecvWindowState
    rw [show (s.written outCap bufCap).conn.wgConn = some t from ht]
    simp only
    split_ifs
    · exact Option.isSome_iff_exists.2 ⟨t, ht⟩
    · exact Option.isSome_iff_exists.2 ⟨t, ht⟩
    · rfl
    · exact Option.isSome_iff_exists.2 ⟨t, ht⟩
  rcases hdo with hdo | hdo
  · rwa [hdo]
  · rw [hdo, (wgConn_scheduleClientFlush _).1, (wgConn_scheduleClientFlush _).2]
    exact hdone

/-- The tunnel of a client, when its peer has answered. -/
def answeredTunnel : Tcp :=
  tcpStep (tcpSetRecvWindowCb true (tcpstackConnect exampleEnv 0 exampleHandlers))
    (exampleEnv, .input exampleSynAck)

/-- The client asks for a tunnel and gets it. -/
def tunnelRequest : List (SocksEnv × SocksEvent) :=
  [(exampleSocksEnv, .read [5, 1, 0, 5, 1, 0, 1, 10, 0, 0, 1, 0, 80]),
    (exampleSocksEnv, .tunnel answeredTunnel), (exampleSocksEnv, .connect 0)]

/-- A mebibyte from the tunnel. -/
def mebibyte : List Byte := List.replicate (1024 * 1024) 0

theorem hooked_tunnelRequest :
    ∀ e ∈ tunnelRequest ++ [(exampleSocksEnv, .data mebibyte)], ∀ t, e.2 = .tunnel t → t.Hooked := by
  intro e he t heq
  simp only [tunnelRequest, List.cons_append, List.nil_append, List.mem_cons, List.not_mem_nil,
    or_false] at he
  rcases he with rfl | rfl | rfl | rfl
  · cases heq
  · cases heq
    exact (by decide +kernel : answeredTunnel.conn.handlers.onRecvWindow = true)
  · cases heq
  · cases heq

/-- A mebibyte from the tunnel sets the flag, and when it is written, the peer is told of the whole
window. -/
theorem window_reopened_mebibyte : ∃ t t' seg,
    let es := tunnelRequest ++ [(exampleSocksEnv, .data mebibyte)]
    let s := socksRun ⟨false, [], [], false⟩ es
    let s' := socksRun ⟨false, [], [], false⟩ (es ++ [(exampleSocksEnv, .writeDone 0)])
    s.conn.wgConn = some t ∧ s.conn.wgRecvWindowThrottled = true ∧ s'.conn.wgConn = some t' ∧
      t'.trace = t.trace ++ [.segment seg] ∧ seg.flags.ack = true ∧
      seg.window = windowField socks5ClientOutbufLimit := by
  have hlen : mebibyte.length = 1024 * 1024 := List.length_replicate
  obtain ⟨s, hs⟩ : ∃ s, s = socksRun ⟨false, [], [], false⟩ tunnelRequest := ⟨_, rfl⟩
  have hstate : s.conn.writeState = .queued ∧ s.conn.released = false ∧
      (s.conn.wgConn.map fun t => (t.conn.state, t.conn.beingFreed)) =
        some (.established, false) := by
    rw [hs]
    decide +kernel
  obtain ⟨hqueued, hlive, htunnel⟩ := hstate
  obtain ⟨t, ht, htcp⟩ := Option.map_eq_some_iff.1 htunnel
  have hopen : s.conn.writeState ≠ .closed := by rw [hqueued]; nofun
  have hdata : socksRun ⟨false, [], [], false⟩
      (tunnelRequest ++ [(exampleSocksEnv, .data mebibyte)]) =
      clientWrite exampleSocksEnv mebibyte s := by
    rw [socksRun, Machine.run_snoc, ← socksRun, ← hs]
    unfold socksStep
    rw [if_neg (by simp [hlive, SocksEvent.enabled, ht])]
    exact if_neg hopen
  obtain ⟨outCap, bufCap, hconn⟩ := @clientWrite_large exampleSocksEnv s mebibyte t ht hqueued
    (by rw [hlen]; decide) (fun _ _ => rfl) le_rfl
  have hdone : socksRun ⟨false, [], [], false⟩ (tunnelRequest ++ [(exampleSocksEnv, .data mebibyte)] ++
      [(exampleSocksEnv, .writeDone 0)]) =
      writeDoneCb exampleSocksEnv 0 (clientWrite exampleSocksEnv mebibyte s) := by
    rw [socksRun, Machine.run_snoc, ← socksRun, hdata]
    unfold socksStep
    rw [if_neg (by simp [hconn, hlive, SocksEvent.enabled])]
    rfl
  have ht1 : (clientWrite exampleSocksEnv mebibyte s).conn.wgConn = some t := by rw [hconn]; exact ht
  obtain ⟨hsome, hempty⟩ := @buffered_writeDoneCb exampleSocksEnv _ 0 t (by decide) ht1
    (by rw [hconn])
  obtain ⟨t', ht'⟩ := Option.isSome_iff_exists.1 hsome
  have hfull : socks5ClientOutbufResume ≤
      clientBufferedToBrowser (clientWrite exampleSocksEnv mebibyte s).conn := by
    rw [hconn, clientBufferedToBrowser, socks5ClientOutbufResume, socks5ClientOutbufLimit,
      List.length_append, hlen]
    omega
  rw [← hdata] at ht1 hfull
  rw [← hdone] at ht' hempty
  have hstack := guarded_stackKeeps ⟨false, [], [], false⟩ socksInv_accept windowInv_accept
    hooked_tunnelRequest
  obtain ⟨hflag, hreopen⟩ := window_reopened _ _ hstack ht1 hfull
  obtain ⟨seg, htrace, hack, -, -, hwindow⟩ := hreopen _ t' ht' (by rw [hempty]; decide)
    (congrArg Prod.fst htcp) (congrArg Prod.snd htcp)
  rw [hempty] at hwindow
  exact ⟨t, t', seg, ht1, hflag, ht', htrace, hack, hwindow⟩

end Wgx
