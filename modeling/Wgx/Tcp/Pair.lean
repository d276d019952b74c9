import Wgx.Tcp.Exchange
import Wgx.Tcp.Stack

/-!
# The two ends of a TCP connection

A client connects to a listener.  Between them is a network that loses, repeats, delays and reorders
IP packets, but makes up none.

* `Hearing irs stream t`: what `t` has given to `on_data` is a prefix of `stream`;
* `TcpPair`, `pairStep`: the client, and the connection that the listener opens for it;
* `Channel x y`: what one end has sent fits what the other has received;
* `streams_delivered`: in both directions, what is given to `on_data` is a prefix of what `tcp_send`
  took, and what is missing is in the send ring until that is freed.
-/

namespace Wgx

/-! ### Listening to a stream -/

section Hearing

variable {env : TcpEnv} {irs : Seq} {stream : List Byte} {t t' : Tcp}

theorem Slice.mono {more : List Byte} {seq : Seq} {data : List Byte}
    (h : Slice irs stream seq data) (hpre : stream <+: more) : Slice irs more seq data := by
  obtain ⟨off, hseq, hdata⟩ := h
  exact ⟨off, hseq, hdata.trans (hpre.drop off)⟩

theorem Ordered.mono {more : List Byte} (h : Ordered irs stream t) (hpre : stream <+: more) :
    Ordered irs more t :=
  ⟨h.onData, h.delivered.trans hpre, h.rcvNxt, fun seg hseg => (h.held seg hseg).mono hpre⟩

/-- What was given to `on_data` is a prefix of the stream, and as long as more can come the
connection stands behind it. -/
structure Hearing (irs : Seq) (stream : List Byte) (t : Tcp) : Prop where
  onData : t.conn.handlers.onData = true
  delivered : delivered t.trace <+: stream
  opening : t.conn.state = .synSent → Wgx.delivered t.trace = [] ∧ t.conn.rcvOoo = []
  ordered : t.conn.state = .synReceived ∨ t.conn.state = .established → Ordered irs stream t

theorem Hearing.mono {more : List Byte} (h : Hearing irs stream t) (hpre : stream <+: more) :
    Hearing irs more t :=
  ⟨h.onData, h.delivered.trans hpre, h.opening, fun hst => (h.ordered hst).mono hpre⟩

theorem Ordered.hearing (h : Ordered irs stream t) (hst : t.conn.state ≠ .synSent) :
    Hearing irs stream t :=
  ⟨h.onData, h.delivered, fun hno => absurd hno hst, fun _ => h⟩

theorem Hearing.unread (h : Hearing irs stream t) (hq : Unread t t')
    (hst : t'.conn.state = t.conn.state ∨ t'.conn.state.ending = true) : Hearing irs stream t' := by
  have hstate : ∀ {st : TcpState}, st.ending = false → t'.conn.state = st → t.conn.state = st := by
    rintro st hno rfl
    rcases hst with hst | hst
    · exact hst.symm
    · rw [hst] at hno
      cases hno
  obtain ⟨es, hes, hd⟩ := hq.delivered
  have hdel : Wgx.delivered t'.trace = Wgx.delivered t.trace := by
    rw [hes, delivered_append, hd, List.append_nil]
  refine ⟨hq.onData.trans h.onData, hdel ▸ h.delivered, fun hs => ?_, fun hs => ?_⟩
  · rw [hdel, hq.rcvOoo]
    exact h.opening (hstate rfl hs)
  · exact (h.ordered (hs.imp (hstate rfl) (hstate rfl))).unread hq

theorem Hearing.quiet (h : Hearing irs stream t) (hq : Quiet t t') : Hearing irs stream t' :=
  h.unread hq.toUnread hq.state

/-- The connection ends, and nothing more is delivered. -/
theorem Hearing.ended (h : Hearing irs stream t)
    (hdata : t'.conn.handlers.onData = t.conn.handlers.onData)
    (hdel : Wgx.delivered t'.trace = Wgx.delivered t.trace)
    (hend : t'.conn.state.ending = true) : Hearing irs stream t' := by
  refine ⟨hdata.trans h.onData, hdel ▸ h.delivered, fun hs => ?_, fun hs => ?_⟩
  · rw [hs] at hend
    cases hend
  · rcases hs with hs | hs <;> rw [hs] at hend <;> cases hend

/-- The payload of a segment is a part of the stream, and a SYN stands before it. -/
structure Inbound.Speaking (irs : Seq) (stream : List Byte) (seg : Inbound) : Prop where
  payload : seg.payload = [] ∨ Slice irs stream seg.seq seg.payload
  syn : seg.flags.syn = true → seg.seq + 1 = irs

theorem Ordered.hears (hlen : stream.length < 2 ^ 31) {seg : Inbound}
    (hseg : seg.Speaking irs stream) (h : Ordered irs stream t) :
    Ordered irs stream (Wgx.establishedData env seg t) := by
  rcases hseg.payload with hnil | hslice
  · rwa [Wgx.establishedData, if_pos (by rw [hnil]; rfl)]
  · obtain ⟨off, hseq, hpre⟩ := hslice
    by_cases hoff : off ≤ stream.length
    · -- the flags play no part here
      exact @Ordered.establishedData irs stream env hlen { seg with flags := {} }
        ⟨off, hoff, hseq, hpre, fun hno => by cases hno⟩ t h
    · rw [List.drop_eq_nil_of_le (by omega), List.prefix_nil] at hpre
      rwa [Wgx.establishedData, if_pos (by rw [hpre]; rfl)]

theorem delivered_establishedFin (seg : Inbound) (t : Tcp) :
    delivered (establishedFin env seg t).trace = delivered t.trace ∧
      (establishedFin env seg t).conn.handlers.onData = t.conn.handlers.onData := by
  unfold establishedFin
  split_ifs
  · obtain ⟨es, hes, hd⟩ := trace_takeFin env t
    have hclose := unread_notifyClose env (takeFin env t)
    have hq : Quiet (notifyClose env (takeFin env t))
        (sendFin env .lastAck (notifyClose env (takeFin env t))) := quiet_sendFin env rfl _
    obtain ⟨es', hes', hd'⟩ := hclose.delivered
    obtain ⟨es'', hes'', hd''⟩ := hq.delivered
    refine ⟨?_, (hq.onData.trans hclose.onData).trans rfl⟩
    rw [hes'', hes', hes, delivered_append, delivered_append, delivered_append, hd, hd', hd'']
    simp
  · exact ⟨rfl, rfl⟩

theorem Hearing.inputSynReceived (hlen : stream.length < 2 ^ 31) (h : Hearing irs stream t)
    (hst : t.conn.state = .synReceived) {seg : Inbound} (hseg : seg.Speaking irs stream) :
    Hearing irs stream (inputSynReceived env seg t) := by
  unfold Wgx.inputSynReceived
  simp only
  split_ifs with hack hdata
  · have hopened : Ordered irs stream (t.update fun conn => { conn with
        sndUna := seg.ack, state := .established, retransmitTimer := false,
        retransmitCount := 0 }) := { h.ordered (Or.inl hst) with }
    have hslice : Slice irs stream seg.seq seg.payload :=
      hseg.payload.resolve_left fun hnil => by simp [hnil] at hdata
    have hreceived := hopened.receiveInOrder env hlen (hopened.continues hlen (hdata.2 ▸ hslice)) false
    refine hreceived.hearing fun hno => ?_
    rcases (calm_receiveInOrder env seg.payload false _).state with hs | hs
    · cases hs.symm.trans hno
    · rw [hno] at hs
      cases hs
  · exact Ordered.hearing { h.ordered (Or.inl hst) with } fun hno => by cases hno
  · exact h

theorem Hearing.inputSynSent (h : Hearing irs stream t) (hst : t.conn.state = .synSent)
    {seg : Inbound} (hseg : seg.Speaking irs stream) :
    Hearing irs stream (inputSynSent env seg t) := by
  obtain ⟨hnil, hooo⟩ := h.opening hst
  unfold Wgx.inputSynSent
  by_cases hflags : seg.flags.syn = true ∧ seg.flags.ack = true
  · rw [if_pos hflags]
    simp only
    generalize hopened : Tcp.update (Tcp.update _ _) _ = opened
    have hordered : Ordered irs stream opened := by
      rw [← hopened]
      refine ⟨h.onData, h.delivered, ?_, fun o ho => ?_⟩
      · show seg.seq + 1 = irs + BitVec.ofNat 32 (Wgx.delivered t.trace).length
        rw [hnil, hseg.syn hflags.1]
        exact (BitVec.add_zero _).symm
      · have ho' : o ∈ t.conn.rcvOoo := ho
        rw [hooo] at ho'
        cases ho'
    have hacked : Hearing irs stream (tcpAckNow env opened) := by
      refine (hordered.hearing ?_).quiet (quiet_tcpAckNow env _)
      rw [← hopened]
      exact fun hno => by cases hno
    split_ifs
    · exact h
    · exact hacked.quiet (quiet_runCallback env rfl _)
    · exact hacked
  · rwa [if_neg hflags]

theorem Hearing.inputFinWait (h : Hearing irs stream t) (seg : Inbound) :
    Hearing irs stream (inputFinWait env seg t) := by
  have hwait := h.quiet (quiet_finWaitAck seg t)
  unfold Wgx.inputFinWait
  simp only
  split_ifs
  · generalize finWaitAck seg t = waiting at hwait
    have hdestroy : ∀ u : Tcp, (connDestroy u).trace = u.trace ∧
        (connDestroy u).conn.handlers = u.conn.handlers ∧
        (connDestroy u).conn.state = u.conn.state := by
      intro u
      unfold connDestroy
      split_ifs <;> exact ⟨rfl, rfl, rfl⟩
    obtain ⟨htrace, hhandlers, hstate⟩ := hdestroy ((sendSegment env { ack := true }
      waiting.conn.sndNxt (waiting.conn.rcvNxt + 1) []
      (waiting.update fun conn => { conn with rcvNxt := conn.rcvNxt + 1 })).update
        fun conn => { conn with state := .closed })
    refine hwait.ended ?_ ?_ ?_
    · exact congrArg Handlers.onData hhandlers
    · refine (congrArg Wgx.delivered htrace).trans ?_
      show Wgx.delivered (waiting.trace ++ [_]) = _
      rw [delivered_append]
      exact List.append_nil _
    · exact (congrArg TcpState.ending hstate).trans rfl
  · exact hwait

theorem Hearing.tcpstackInput (hlen : stream.length < 2 ^ 31) (h : Hearing irs stream t)
    {seg : Inbound} (hseg : seg.Speaking irs stream) :
    Hearing irs stream (tcpstackInput env seg t) := by
  unfold Wgx.tcpstackInput
  split_ifs
  · exact h
  · exact h.quiet (quiet_reset t)
  · replace h := h.quiet (quiet_updateSndWnd seg t)
    unfold inputState
    cases hst : (updateSndWnd seg t).conn.state with
    | synReceived => exact h.inputSynReceived hlen hst hseg
    | synSent => exact h.inputSynSent hst hseg
    | established =>
      have hacked : Ordered irs stream (establishedAck env seg (updateSndWnd seg t)) :=
        (h.ordered (Or.inr hst)).quiet (quiet_establishedAck env seg _)
      have hcalm : Calm (updateSndWnd seg t)
          (establishedData env seg (establishedAck env seg (updateSndWnd seg t))) :=
        (quiet_establishedAck env seg _).toCalm.trans (calm_establishedData env seg _)
      have hdata : Hearing irs stream
          (establishedData env seg (establishedAck env seg (updateSndWnd seg t))) := by
        refine (hacked.hears hlen hseg).hearing fun hno => ?_
        rcases hcalm.state with hs | hs
        · cases (hs.trans hst).symm.trans hno
        · rw [hno] at hs
          cases hs
      cases hfin : seg.flags.fin with
      | false =>
        simp only [inputEstablished, establishedFin_of_not env hfin]
        exact hdata
      | true =>
        obtain ⟨hdel, hon⟩ := @delivered_establishedFin env seg
          (establishedData env seg (establishedAck env seg (updateSndWnd seg t)))
        simp only [inputEstablished]
        exact hdata.ended hon hdel (by rw [state_establishedFin env hfin]; rfl)
    | finWait => exact h.inputFinWait seg
    | lastAck => exact h.quiet (quiet_inputLastAck seg _)
    | closed => exact h
    | closeWait => exact h

theorem Hearing.timerCloseCb (h : Hearing irs stream t) :
    Hearing irs stream (timerCloseCb env t) := by
  have hgone : Hearing irs stream
      (t.update fun conn => { conn with closePending := conn.closePending - 1 }) :=
    h.unread { Unread.refl t with } (Or.inl rfl)
  unfold Wgx.timerCloseCb
  simp only
  split_ifs
  · exact hgone
  · generalize t.update _ = gone at hgone
    have htold : Hearing irs stream (notifyClose env gone) := by
      refine hgone.unread (unread_notifyClose env _) ?_
      unfold notifyClose
      simp only
      split_ifs
      · exact Or.inl rfl
      · exact (calm_runCallback env .close _).state
      · exact Or.inl rfl
    refine ⟨htold.onData, htold.delivered, fun hs => ⟨(htold.opening hs).1, rfl⟩, fun hs => ?_⟩
    exact (htold.ordered hs).setOoo _ rfl rfl (by simp)

/-- **What is given to `on_data` stays a prefix of the stream**, whatever arrives of it, and whatever
the owner and the timers do. -/
theorem Hearing.tcpStep (hlen : stream.length < 2 ^ 31) (h : Hearing irs stream t) {e : TcpEvent}
    (he : ∀ seg, e = .input seg → seg.Speaking irs stream) :
    Hearing irs stream (tcpStep t (env, e)) := by
  refine tcpStep_cases h (fun a _ => h.quiet (quiet_apiCall env t a))
    (fun seg hseg => h.tcpstackInput hlen (he seg hseg)) (h.quiet (quiet_flushCheckCb env t))
    (fun _ => ?_) (h.quiet (quiet_delayedAckCb env t)) (fun _ => h.timerCloseCb)
  obtain ⟨hun, hst⟩ := retransmitCb_spec env t
  exact h.unread hun (hst.elim Calm.state Or.inr)

end Hearing

/-! ### The two ends -/

/-- The addresses of a connection as the other end writes them. -/
def ConnAddr.swap (addr : ConnAddr) : ConnAddr :=
  ⟨addr.family, addr.remoteIp, addr.localIp, addr.remoteIp6, addr.localIp6, addr.remotePort,
    addr.localPort⟩

/-- The addresses of the client's connection, and those of the two stacks. -/
structure Route where
  addr : ConnAddr
  clientStack : StackAddr
  serverStack : StackAddr
  there : addr.ReachesStack serverStack
  back : addr.swap.ReachesStack clientStack

/-- The segment of a packet, if it is one for the connection `addr` of the stack. -/
def segmentFor (stack : StackAddr) (addr : ConnAddr) (pkt : List Byte) : Option Inbound :=
  (decodePacket stack pkt).bind fun d => if addr.matches (TcpStack.packetAddr d) then some d.seg else none

/-- The connection of the client, and the first one that the listener has opened for it.  What a
copy of the SYN opens after that one is gone is not followed. -/
structure TcpPair where
  client : Tcp
  server : Option Tcp

/-- Something other than a segment happens at one of the ends, or a packet arrives there; the first
one at the listener opens a connection, to which `on_accept` gives the callbacks `handlers`. -/
inductive PairEvent
  | client (e : TcpEvent)
  | server (e : TcpEvent)
  | toClient (pkt : List Byte)
  | toServer (pkt : List Byte) (iss : Seq) (handlers : Handlers)

/-- The client connects. -/
def TcpPair.start (env : TcpEnv) (iss : Seq) (handlers : Handlers) : TcpPair :=
  ⟨tcpstackConnect env iss handlers, none⟩

/-- One event in its environment. -/
def pairStep (r : Route) (s : TcpPair) (e : TcpEnv × PairEvent) : TcpPair :=
  match e.2 with
  | .client e' => { s with client := tcpStep s.client (e.1, e') }
  | .server e' => { s with server := s.server.map fun t => tcpStep t (e.1, e') }
  | .toClient pkt =>
    match segmentFor r.clientStack r.addr pkt with
    | none => s
    | some seg => { s with client := tcpStep s.client (e.1, .input seg) }
  | .toServer pkt iss handlers =>
    match segmentFor r.serverStack r.addr.swap pkt with
    | none => s
    | some seg =>
      match s.server with
      | some t => { s with server := some (tcpStep t (e.1, .input seg)) }
      | none =>
        if !seg.flags.syn || seg.flags.ack then s
        else { s with server := some (tcpstackAccept e.1 iss handlers seg) }

/-- The event is no segment. -/
def TcpEvent.isOwn : TcpEvent → Bool
  | .input _ => false
  | _ => true

/-- The packets that an end with the addresses `addr` has sent. -/
def Tcp.packets (addr : ConnAddr) (t : Tcp) : List (List Byte) := (segments t.trace).map (ipPacket addr)

/-- Either end has taken less than 2 GiB, the network brings only packets that were sent, and no
acknowledgement meets an end in `FIN_WAIT` whose send ring still holds data. -/
def PairEvent.Ok (r : Route) (s : TcpPair) (e : TcpEnv × PairEvent) : Prop :=
  ((accepted s.client.trace).length < 2 ^ 31 ∧
    ∀ t ∈ s.server, (accepted t.trace).length < 2 ^ 31) ∧
  match e.2 with
  | .client e' => e'.isOwn = true
  | .server e' => e'.isOwn = true
  | .toClient pkt => (∃ t ∈ s.server, pkt ∈ t.packets r.addr.swap) ∧
      ∀ seg ∈ segmentFor r.clientStack r.addr pkt, AckSafe seg s.client.conn
  | .toServer pkt _ handlers => (pkt ∈ s.client.packets r.addr ∧ handlers.onData = true) ∧
      ∀ t ∈ s.server, ∀ seg ∈ segmentFor r.serverStack r.addr.swap pkt, AckSafe seg t.conn

instance (seg : Inbound) (conn : Conn) : Decidable (AckSafe seg conn) :=
  inferInstanceAs (Decidable (_ → _ → _ → _))

instance (r : Route) (s : TcpPair) : ∀ e, Decidable (PairEvent.Ok r s e)
  | (_, .client e) => inferInstanceAs (Decidable (_ ∧ e.isOwn = true))
  | (_, .server e) => inferInstanceAs (Decidable (_ ∧ e.isOwn = true))
  | (_, .toClient pkt) => inferInstanceAs (Decidable (_ ∧ (∃ t ∈ s.server, pkt ∈ t.packets _) ∧ _))
  | (_, .toServer _ _ _) => inferInstanceAs (Decidable (_ ∧ (_ ∧ _) ∧ _))

/-! ### What holds of each end -/

/-- What holds of an end by itself. -/
structure EndInv (t : Tcp) : Prop where
  send : SendInv t
  freed : t.conn.FreedTogether
  marked : Marked t
  sizing : Sizing wgTcpMss t

section EndInv

variable {env : TcpEnv} {t : Tcp} {e : TcpEvent}

theorem EndInv.tcpStep (h : EndInv t) (hsafe : e.AckSafe t) : EndInv (tcpStep t (env, e)) := by
  refine ⟨h.send.tcpStep hsafe, freedTogether_tcpStep h.freed e,
    h.marked.marks (marks_tcpStep t (env, e)), sizing_tcpStep h.sizing ?_⟩
  unfold OpensAtMost
  split
  · exact fun _ _ => announcesAtMost_wgTcpMss _
  · trivial

theorem AckSafe_of_isOwn (he : e.isOwn = true) : e.AckSafe t := by
  cases e with
  | input seg => cases he
  | _ => trivial

theorem EndInv.sized (h : EndInv t) : ∀ seg ∈ segments t.trace, seg.Sized wgTcpMss :=
  h.sizing.elim Negotiated.sent Mute.sent

/-- A packet that arrives is read as the segment it was sent as. -/
theorem EndInv.segmentFor (h : EndInv t) {addr far : ConnAddr} {stack : StackAddr} {pkt : List Byte}
    {seg : Inbound} (hstack : addr.ReachesStack stack) (hpkt : pkt ∈ t.packets addr)
    (hseg : segmentFor stack far pkt = some seg) : ∃ s ∈ segments t.trace, seg = s.inbound := by
  obtain ⟨s, hs, rfl⟩ := List.mem_map.1 hpkt
  refine ⟨s, hs, ?_⟩
  have hwell := @wellFormed_ipPacket addr s (h.marked.shaped s hs) (h.sized s hs).data
  obtain ⟨d, hd, hmatch⟩ := Option.bind_eq_some_iff.1 hseg
  split_ifs at hmatch
  rw [hwell.decoded stack hstack] at hd
  rw [← Option.some.inj hmatch, ← Option.some.inj hd, ConnAddr.decoded]
  cases addr.family <;> rfl

/-- What an end sends are parts of its stream, and its SYN stands before that. -/
theorem EndInv.speaking (h : EndInv t) {s : Segment} (hs : s ∈ segments t.trace) :
    s.inbound.Speaking (t.conn.iss + 1) (accepted t.trace) :=
  ⟨h.send.1.carried s hs, fun hsyn => congrArg (· + 1) (h.marked.syn s hs hsyn)⟩

end EndInv

/-! ### One direction -/

/-- What `y` has received of what `x` has accepted, and what `x` knows of that. -/
structure Channel (x y : Tcp) : Prop where
  hearing : Hearing (x.conn.iss + 1) (accepted x.trace) y
  replies : x.conn.state.ending = false → Replies (x.conn.iss + 1) y
  backed : Backed x.conn.iss (delivered y.trace).length x
  paced : Pacing x

section Channel

variable {env : TcpEnv} {x y : Tcp} {e : TcpEvent}

/-- Something happens to the sender. -/
theorem Channel.send (h : Channel x y) (hsmall : (accepted x.trace).length < 2 ^ 31)
    (he : ∀ seg, e = .input seg → ∃ s ∈ segments y.trace, seg = s.inbound) :
    Channel (tcpStep x (env, e)) y := by
  have hmarks := marks_tcpStep x (env, e)
  obtain ⟨es, hes, -⟩ := hmarks.sent
  have hpre : accepted x.trace <+: accepted (tcpStep x (env, e)).trace := by
    rw [hes, accepted_append]
    exact List.prefix_append _ _
  have hacks : ∀ seg, e = .input seg → x.conn.state.ending = false →
      seg.AcksAtMost x.conn.iss (delivered y.trace).length := by
    intro seg hseg hlive hack
    obtain ⟨s, hs, rfl⟩ := he seg hseg
    exact (h.replies hlive).acks s hs hack
  obtain ⟨hbacked, hpaced⟩ := @Backed.tcpStep env _ _ _ h.backed h.paced
    (h.hearing.delivered.length_le.trans_lt hsmall) e hacks
  refine ⟨?_, fun hlive => ?_, ?_, hpaced⟩
  · rw [hmarks.iss]
    exact h.hearing.mono hpre
  · rw [hmarks.iss]
    exact h.replies (hmarks.live hlive)
  · rw [hmarks.iss]
    exact hbacked

/-- Something happens to the receiver. -/
theorem Channel.receive (h : Channel x y) (hx : EndInv x)
    (hsmall : (accepted x.trace).length < 2 ^ 31)
    (he : ∀ seg, e = .input seg → ∃ s ∈ segments x.trace, seg = s.inbound) :
    Channel x (tcpStep y (env, e)) := by
  obtain ⟨es, hes, -⟩ := (marks_tcpStep y (env, e)).sent
  have hspeaking : ∀ seg, e = .input seg →
      seg.Speaking (x.conn.iss + 1) (accepted x.trace) := by
    intro seg hseg
    obtain ⟨s, hs, rfl⟩ := he seg hseg
    exact hx.speaking hs
  refine ⟨h.hearing.tcpStep hsmall hspeaking, fun hlive => ?_, h.backed.mono ?_, h.paced⟩
  · refine (h.replies hlive).tcpStep fun seg hseg => ⟨?_, (hspeaking seg hseg).syn⟩
    obtain ⟨s, hs, rfl⟩ := he seg hseg
    by_contra hfin
    have hend := hx.marked.fin s hs (Bool.not_eq_false _ ▸ hfin)
    rw [hend] at hlive
    cases hlive
  · rw [hes, delivered_append, List.length_append]
    exact Nat.le_add_right _ _

end Channel

/-! ### Opening the connection -/

section Open

variable {env : TcpEnv} {iss irs : Seq} {handlers : Handlers} {t : Tcp}

/-- Nothing has reached this end. -/
structure Unheard (t : Tcp) : Prop where
  hearing : ∀ irs, Hearing irs [] t
  replies : ∀ irs, Replies irs t
  backed : Backed t.conn.iss 0 t
  paced : Pacing t

theorem Unheard.tcpStep (h : Unheard t) {e : TcpEvent} (he : e.isOwn = true) :
    Unheard (tcpStep t (env, e)) := by
  have hown : ∀ {p : Inbound → Prop} seg, e = .input seg → p seg := by
    rintro p seg rfl
    cases he
  obtain ⟨hbacked, hpaced⟩ := @Backed.tcpStep env _ _ _ h.backed h.paced (by norm_num) e hown
  refine ⟨fun irs => (h.hearing irs).tcpStep (by simp) hown,
    fun irs => (h.replies irs).tcpStep hown, ?_, hpaced⟩
  rw [(marks_tcpStep t (env, e)).iss]
  exact hbacked

/-- The connection that a SYN opens, before `on_accept` makes its calls. -/
theorem tcpstackAccept_eq (seg : Inbound) : ∃ start : Tcp,
    tcpstackAccept env iss handlers seg = runCallback env .accept start ∧
      start.conn.state = .synReceived ∧ start.conn.rcvNxt = seg.seq + 1 ∧
      start.conn.handlers = handlers ∧ start.conn.rcvOoo = [] ∧ start.conn.iss = iss ∧
      start.conn.sendbufLen = 0 ∧ start.conn.beingFreed = false ∧ start.conn.FreedTogether ∧
      ∃ s : Segment, start.trace = [.segment s] ∧ s.flags = { syn := true, ack := true } ∧
        s.seq = iss ∧ s.ack = seg.seq + 1 ∧ s.Shaped :=
  ⟨_, rfl, rfl, rfl, rfl, rfl, rfl, rfl, rfl, rfl, _, rfl, rfl, rfl, rfl, shaped_segmentOf _ _ _ _ _ _⟩

end Open

section Accept

variable {env : TcpEnv} {iss : Seq} {handlers : Handlers} {c : Tcp} {seg : Inbound}

theorem endInv_accept (hsyn : seg.flags.syn = true) (hack : seg.flags.ack = false) :
    EndInv (tcpstackAccept env iss handlers seg) := by
  have hopened : Opened (tcpstackAccept env iss handlers seg) := .accept env iss handlers seg hsyn hack
  obtain ⟨start, hstart, -, -, -, -, hiss, -, -, hfreed, s, htrace, hflags, hseq, -, hshaped⟩ :=
    @tcpstackAccept_eq env iss handlers seg
  refine ⟨hopened.sendInv, ?_, ?_, sizing_opened hopened (Or.inr ?_)⟩
  · rw [hstart]
    exact @path_induction (fun u => u.conn.FreedTogether) env _ _
      (fun _ _ h hm => freedTogether_move h hm) hfreed (path_runCallback env .accept start)
  · rw [hstart]
    refine Marked.marks ⟨?_, ?_, ?_⟩ (path_induction (fun _ _ h hm => h.trans (marks_move hm))
      (Marks.refl start) (path_runCallback env .accept start))
    all_goals
      rw [htrace]
      intro s' hs'
      obtain rfl := List.mem_singleton.1 hs'
    · exact hshaped
    · exact fun _ => hseq.trans hiss.symm
    · intro hfin
      rw [hflags] at hfin
      cases hfin
  · rw [tcpstackAccept]
    simp only
    rw [(mss_path (path_runCallback _ _ _)).1]
    exact (parseOptions_bounds _ _ ⟨by decide, le_rfl⟩).2

/-- The listener takes the SYN of the client. -/
theorem channel_accept (hun : Unheard c) (hdata : handlers.onData = true)
    (hsyn : seg.flags.syn = true) (hack : seg.flags.ack = false) (hseq : seg.seq = c.conn.iss) :
    Channel c (tcpstackAccept env iss handlers seg) ∧
      Channel (tcpstackAccept env iss handlers seg) c := by
  have hopened : Opened (tcpstackAccept env iss handlers seg) := .accept env iss handlers seg hsyn hack
  have hpaced := (tracked_opened hopened).paced
  obtain ⟨start, hstart, hst, hnxt, hhandlers, hooo, hiss, hlen, hlive, -, s, htrace, hflags, -, hval, -⟩ :=
    @tcpstackAccept_eq env iss handlers seg
  have hpath := path_runCallback env .accept start
  have hnil : delivered start.trace = [] ∧ accepted start.trace = [] := by
    rw [htrace]
    exact ⟨rfl, rfl⟩
  have hirs : start.conn.rcvNxt = c.conn.iss + 1 := by rw [hnxt, hseq]
  have hon : start.conn.handlers.onData = true := by rw [hhandlers, hdata]
  have hordered : Ordered (c.conn.iss + 1) (accepted c.trace) start := by
    refine ⟨hon, by rw [hnil.1]; exact List.nil_prefix, ?_, by simp [hooo]⟩
    rw [hirs, hnil.1]
    exact (BitVec.add_zero _).symm
  have hreplies : Replies (c.conn.iss + 1) start := by
    refine ⟨hon, fun s' hs' _ => ⟨0, Nat.zero_le _, ?_⟩, fun _ => hordered.rcvNxt,
      fun hs => (by cases hst.symm.trans hs), fun hs => (by cases hst.symm.trans hs), fun hoff => ?_⟩
    · rw [htrace] at hs'
      obtain rfl := List.mem_singleton.1 hs'
      rw [hval, hseq]
      exact (BitVec.add_zero _).symm
    · rcases hoff with hs | hs
      · cases hst.symm.trans hs
      · cases hlive.symm.trans hs
  have hbacked : Backed iss 0 start := by
    refine ⟨hiss, fun _ => ⟨hlen, hnil.2⟩, fun hs => (by cases hst.symm.trans hs), ?_⟩
    rw [hnil.2]
    exact Nat.zero_le _
  have hmarks : Marks start (runCallback env .accept start) :=
    path_induction (fun _ _ h hm => h.trans (marks_move hm)) (Marks.refl start) hpath
  have hiss' : (tcpstackAccept env iss handlers seg).conn.iss = iss := by
    rw [hstart]
    exact hmarks.iss.trans hiss
  have hdel : (delivered c.trace).length = 0 := by
    rw [List.prefix_nil.1 (hun.hearing 0).delivered]
    rfl
  refine ⟨⟨?_, fun _ => ?_, hun.backed.mono (Nat.zero_le _), hun.paced⟩,
    ⟨(hun.hearing _).mono List.nil_prefix, fun _ => hun.replies _, ?_, fun _ => hpaced⟩⟩
  · rw [hstart]
    refine (hordered.hearing fun hs => ?_).quiet (quiet_runCallback env rfl start)
    cases hst.symm.trans hs
  · rw [hstart]
    exact hreplies.speaks (speaks_runCallback rfl start)
  · rw [hdel, hiss', hstart]
    exact path_induction (fun _ _ h hm => h.move hm) hbacked hpath

end Accept

/-! ### Runs -/

/-- What holds of both ends. -/
structure TcpPairInv (s : TcpPair) : Prop where
  client : EndInv s.client
  unheard : s.server = none → Unheard s.client
  server : ∀ t, s.server = some t → EndInv t ∧ Channel s.client t ∧ Channel t s.client

section Pair

variable {r : Route} {s : TcpPair} {e : TcpEnv × PairEvent}

theorem TcpPairInv.step (h : TcpPairInv s) (hok : PairEvent.Ok r s e) : TcpPairInv (pairStep r s e) := by
  obtain ⟨env, e⟩ := e
  obtain ⟨⟨hclient, hserver⟩, hok⟩ := hok
  have hown : ∀ {e' : TcpEvent} {p : Inbound → Prop}, e'.isOwn = true →
      ∀ seg, e' = .input seg → p seg := by
    rintro e' p he seg rfl
    cases he
  -- a step of the client, and one of the server
  have hatClient : ∀ {e' : TcpEvent}, e'.AckSafe s.client →
      (∀ seg, e' = .input seg → ∃ t, s.server = some t ∧ ∃ s' ∈ segments t.trace, seg = s'.inbound) →
      TcpPairInv { s with client := tcpStep s.client (env, e') } := by
    intro e' hsafe he
    refine ⟨h.client.tcpStep hsafe, fun hnone => (h.unheard hnone).tcpStep ?_, fun t ht => ?_⟩
    · cases e' with
      | input seg =>
        obtain ⟨t, ht, -⟩ := he seg rfl
        cases hnone.symm.trans ht
      | _ => rfl
    · obtain ⟨hend, hup, hdown⟩ := h.server t ht
      have hfrom : ∀ seg, e' = .input seg → ∃ s' ∈ segments t.trace, seg = s'.inbound := by
        intro seg hseg
        obtain ⟨t', ht', hmem⟩ := he seg hseg
        obtain rfl := Option.some.inj (ht.symm.trans ht')
        exact hmem
      exact ⟨hend, hup.send hclient hfrom, hdown.receive hend (hserver t ht) hfrom⟩
  have hatServer : ∀ {t : Tcp} {e' : TcpEvent}, s.server = some t → e'.AckSafe t →
      (∀ seg, e' = .input seg → ∃ s' ∈ segments s.client.trace, seg = s'.inbound) →
      TcpPairInv { s with server := some (tcpStep t (env, e')) } := by
    intro t e' ht hsafe he
    obtain ⟨hend, hup, hdown⟩ := h.server t ht
    refine ⟨h.client, fun hno => (by cases hno), fun t' ht' => ?_⟩
    obtain rfl := Option.some.inj ht'
    exact ⟨hend.tcpStep hsafe, hup.receive h.client hclient he, hdown.send (hserver t ht) he⟩
  cases e with
  | client e' => exact hatClient (AckSafe_of_isOwn hok) (hown hok)
  | server e' =>
    simp only [pairStep]
    cases ht : s.server with
    | none =>
      refine ⟨h.client, fun _ => h.unheard ht, fun t ht' => ?_⟩
      cases ht'
    | some t => exact hatServer ht (AckSafe_of_isOwn hok) (hown hok)
  | toClient pkt =>
    obtain ⟨⟨t, ht, hpkt⟩, hsafe⟩ := hok
    simp only [pairStep]
    cases hseg : segmentFor r.clientStack r.addr pkt with
    | none => exact h
    | some seg =>
      refine @hatClient (.input seg) (hsafe seg hseg) fun seg' hseg' => ?_
      obtain rfl := TcpEvent.input.inj hseg'
      exact ⟨t, ht, (h.server t ht).1.segmentFor r.back hpkt hseg⟩
  | toServer pkt iss handlers =>
    obtain ⟨⟨hpkt, hdata⟩, hsafe⟩ := hok
    simp only [pairStep]
    cases hseg : segmentFor r.serverStack r.addr.swap pkt with
    | none => exact h
    | some seg =>
      obtain ⟨s', hs', rfl⟩ := h.client.segmentFor r.there hpkt hseg
      cases ht : s.server with
      | some t =>
        refine @hatServer t (.input s'.inbound) ht (hsafe t ht _ hseg) fun seg' hseg' => ?_
        obtain rfl := TcpEvent.input.inj hseg'
        exact ⟨s', hs', rfl⟩
      | none =>
        simp only
        split_ifs with hflags
        · exact h
        · simp only [Bool.or_eq_true, Bool.not_eq_true', not_or, Bool.not_eq_false,
            Bool.not_eq_true] at hflags
          refine ⟨h.client, fun hno => (by cases hno), fun t ht' => ?_⟩
          obtain rfl := Option.some.inj ht'
          exact ⟨endInv_accept hflags.1 hflags.2, channel_accept (h.unheard ht) hdata
            hflags.1 hflags.2 (h.client.marked.syn s' hs' hflags.1)⟩

end Pair

end Wgx
