import Wgx.Socks5.Parser

/-!
# The stages of a SOCKS5 connection

A connection goes through its handshake, waits for the resolver, connects, is established, and ends.
`SocksInv` says what holds in each stage: there is no tunnel and little output before the request is
acted upon, and nothing comes in any more once the client's handle is closed.

* `Dispatched` is what acting upon a request, or an answer of the resolver, can do;
* `Lossy`: a refusal closes the handle before its reply has gone out;
* `socksInv_step`, `socksInv_run`: the stages are kept by every event.
-/

namespace Wgx

/-! ### A refusal loses its reply -/

/-- Wherever the new entries close the handle because a step failed or the remote has finished,
output is left, or was left out before. -/
def Lossy (new : List SocksEntry) : Prop :=
  ∀ pre post why unsent, new = pre ++ .closed why unsent :: post →
    why = .failed ∨ why = .remote → unsent ≠ [] ∨ droppedBytes pre ≠ []

theorem lossy_of_forall {new : List SocksEntry}
    (h : ∀ why unsent, .closed why unsent ∈ new → ¬ (why = .failed ∨ why = .remote)) :
    Lossy new := by
  rintro pre post why unsent rfl hwhy
  exact absurd hwhy (h why unsent (by simp))

theorem Lossy.append {new new' : List SocksEntry} (h : Lossy new) (h' : Lossy new') :
    Lossy (new ++ new') := by
  intro pre post why unsent hsplit hwhy
  rcases List.append_eq_append_iff.1 hsplit with ⟨mid, hpre, hnew'⟩ | ⟨mid, hnew, hpost⟩
  · -- the handle is closed in the second part
    rcases h' mid post why unsent hnew' hwhy with hunsent | hdrop
    · exact .inl hunsent
    · refine .inr fun hnil => hdrop ?_
      rw [hpre, droppedBytes_append, List.append_eq_nil_iff] at hnil
      exact hnil.2
  · cases mid with
    | nil =>
      rw [List.nil_append] at hpost
      rw [List.append_nil] at hnew
      rcases h' [] post why unsent hpost.symm hwhy with hunsent | hdrop
      · exact .inl hunsent
      · exact absurd rfl hdrop
    | cons e mid =>
      rw [List.cons_append, List.cons.injEq] at hpost
      obtain ⟨rfl, -⟩ := hpost
      exact h pre mid why unsent hnew hwhy

section Refuse

variable {env : SocksEnv} {s : Socks}

/-- How an open connection without a tunnel is closed. -/
theorem socks5ConnClose_eq (reason : CloseReason) (hopen : s.conn.writeState ≠ .closed)
    (htunnel : s.conn.wgConn = none) (hclosing : s.conn.closing = false) :
    socks5ConnClose env reason s = ⟨{ s.conn with
      writeState := .closed, resolveReq := false, reading := false, closing := true },
      s.trace ++ [.closed reason s.conn.outbuf]⟩ := by
  have hmark : (flushRemove s).update (fun conn => { conn with writeState := .closed }) =
      ⟨{ s.conn with writeState := .closed }, s.trace⟩ := by
    unfold flushRemove
    by_cases hq : s.conn.writeState = .queued
    · simp [hq, Socks.update]
    · simp [hq, Socks.update]
  unfold socks5ConnClose
  simp only
  rw [if_neg hopen, hmark]
  generalize hmarked : (⟨{ s.conn with writeState := .closed }, s.trace⟩ : Socks) = marked
  have hleave : leaveTunnel env marked = marked := by
    rw [leaveTunnel, ← hmarked]
    simp only [htunnel]
  have hcl : ¬ (marked.update fun conn => { conn with resolveReq := false }).conn.closing = true := by
    rw [← hmarked]
    simp [hclosing]
  rw [hleave, if_neg hcl, ← hmarked]
  rfl

/-- **A refusal loses its reply**, or the reply was left out for want of memory. -/
theorem refuse_spec {room : ℕ} {data : List Byte} (hs : Shaking s.conn room) (hdata : data ≠ [])
    (hsmall : room + data.length < socks5FlushSize) (hclosing : s.conn.closing = false) :
    ∃ new, (refuse env data s).trace = s.trace ++ new ∧ Lossy new := by
  have hlen := hs.small
  have hwrite := advanced_clientWrite env hs.isOpen hs.noTunnel hdata (by omega)
  obtain ⟨new, hnew, hall, -, hsum, -⟩ := hwrite.trace
  have hcl : (clientWrite env data s).conn.closing = false := by rw [hwrite.conn]; exact hclosing
  have htn : (clientWrite env data s).conn.wgConn = none := by rw [hwrite.conn]; exact hs.noTunnel
  have hpos : 0 < data.length := List.length_pos_iff.2 hdata
  refine ⟨new ++ [.closed .failed (clientWrite env data s).conn.outbuf], ?_, ?_⟩
  · rw [refuse, socks5ConnClose_eq _ hwrite.isOpen htn hcl, hnew, List.append_assoc]
  · -- the handle is closed by the last entry
    intro pre post why unsent hsplit _
    have hlast : pre = new ∧ unsent = (clientWrite env data s).conn.outbuf := by
      rcases List.append_eq_append_iff.1 hsplit with ⟨mid, hpre, hend⟩ | ⟨mid, hfront, hend⟩
      · cases mid with
        | nil =>
          rw [List.nil_append, List.cons.injEq] at hend
          cases hend.1
          exact ⟨by simpa using hpre, rfl⟩
        | cons e mid => simp at hend
      · cases mid with
        | nil =>
          rw [List.nil_append, List.cons.injEq] at hend
          cases hend.1
          exact ⟨by simpa using hfront.symm, rfl⟩
        | cons e mid =>
          rw [List.cons_append, List.cons.injEq] at hend
          obtain ⟨data', hgiven | hdropped⟩ := hall e (by rw [hfront]; simp)
          · rw [hgiven] at hend; cases hend.1
          · rw [hdropped] at hend; cases hend.1
    rw [hlast.1, hlast.2]
    by_contra hno
    push Not at hno
    rw [hno.1, hno.2] at hsum
    simp only [List.length_nil, List.flatten_cons, List.flatten_nil, List.append_nil] at hsum
    omega

end Refuse

/-! ### Acting upon a request -/

/-- The request can be acted upon. -/
structure Ready (conn : SocksConn) : Prop extends Shaking conn 4 where
  live : conn.closing = false
  idle : conn.resolveReq = false

/-- An entry that acting upon a request can make. -/
def SocksEntry.isDispatch : SocksEntry → Bool
  | .read _ | .request _ | .sent _ => false
  | _ => true

theorem SocksEntry.WriteFor.isDispatch {why : CloseReason → Prop} {e : SocksEntry}
    (h : e.WriteFor why) : e.isDispatch = true := by
  cases e <;> first | rfl | exact absurd h id

/-- What acting upon a request can do: the connection ends, waits for the resolver, or connects. -/
structure Dispatched (s s' : Socks) : Prop where
  pending : s'.conn.pending = s.conn.pending
  isOpen : s'.conn.Open
  stopped : s'.conn.closing = true →
    s'.conn.reading = false ∧ s'.conn.wgConn = none ∧ s'.conn.resolveReq = false
  live : s'.conn.closing = false →
    s'.conn.state = .resolving ∧ s'.conn.wgConn = none ∧ s'.conn.outbuf = s.conn.outbuf ∨
    s'.conn.state = .connecting ∧ s'.conn.resolveReq = false
  stage : s'.conn.state = s.conn.state ∨ s'.conn.state = .resolving ∨ s'.conn.state = .connecting
  trace : ∃ new, s'.trace = s.trace ++ new ∧ (∀ e ∈ new, e.isDispatch = true) ∧ Lossy new

section Dispatch

variable {s s0 s' : Socks}

/-- A change of the target or the state, and entries about them, come before. -/
theorem Dispatched.after (h : Dispatched s s') (new : List SocksEntry)
    (hstage : s.conn.state = s0.conn.state ∨ s.conn.state = .resolving ∨ s.conn.state = .connecting)
    (hpending : s.conn.pending = s0.conn.pending) (hout : s.conn.outbuf = s0.conn.outbuf)
    (htrace : s.trace = s0.trace ++ new)
    (hnew : ∀ e ∈ new, e = .connect ∨ (∃ d, e = .query d) ∨ ∃ d ip, e = .cacheStore d ip) :
    Dispatched s0 s' where
  pending := h.pending.trans hpending
  isOpen := h.isOpen
  stopped := h.stopped
  live hlive := by
    rw [← hout]
    exact h.live hlive
  stage := by
    rcases h.stage with hsame | hother
    · rwa [hsame]
    · exact .inr hother
  trace := by
    obtain ⟨more, hmore, hall, hlossy⟩ := h.trace
    refine ⟨new ++ more, by rw [hmore, htrace, List.append_assoc], ?_, ?_⟩
    · refine List.forall_mem_append.2 ⟨fun e he => ?_, hall⟩
      rcases hnew e he with rfl | ⟨d, rfl⟩ | ⟨d, ip, rfl⟩ <;> rfl
    · refine Lossy.append (lossy_of_forall fun why unsent hmem => ?_) hlossy
      rcases hnew _ hmem with h | ⟨d, h⟩ | ⟨d, ip, h⟩ <;> cases h

section Functions

variable (env : SocksEnv)

theorem dispatched_close {reason : CloseReason} (hreason : ¬ (reason = .failed ∨ reason = .remote))
    (hopen : s.conn.Open) (hlive : s.conn.closing = false) :
    Dispatched s (socks5ConnClose env reason s) := by
  have hside := @writeSide_socks5ConnClose (· = reason) env reason rfl s
  have hclosing := closing_socks5ConnClose env reason hopen
  refine ⟨hside.pending, hside.isOpen hopen, fun h => ?_, fun h => ?_, .inl hside.state, ?_⟩
  · rcases hside.stopped h with hbefore | hstop
    · rw [hlive] at hbefore
      cases hbefore
    · exact hstop
  · rw [hclosing] at h
    cases h
  · obtain ⟨new, hnew, hall⟩ := hside.trace
    refine ⟨new, hnew, fun e he => (hall e he).isDispatch, lossy_of_forall fun why unsent hmem => ?_⟩
    have hwhy : why = reason := hall _ hmem
    rw [hwhy]
    exact hreason

theorem dispatched_refuse (hs : Ready s.conn) {data : List Byte} (hdata : data ≠ [])
    (hlen : data.length ≤ 10) : Dispatched s (refuse env data s) := by
  have hside := @writeSide_refuse (fun _ => True) env trivial trivial data s
  have hopen : s.conn.Open := fun _ => hs.isOpen
  have hclosing := closing_refuse env data hopen
  have hsmall : 4 + data.length < socks5FlushSize := by
    rw [socks5FlushSize]
    omega
  obtain ⟨new, hnew, hlossy⟩ := @refuse_spec env s 4 data hs.toShaking hdata hsmall hs.live
  refine ⟨hside.pending, hside.isOpen hopen, fun h => ?_, fun h => ?_, .inl hside.state, new, hnew,
    ?_, hlossy⟩
  · rcases hside.stopped h with hbefore | hstop
    · rw [hs.live] at hbefore
      cases hbefore
    · exact hstop
  · rw [hclosing] at h
    cases h
  · obtain ⟨new', hnew', hall⟩ := hside.trace
    rw [hnew, List.append_right_inj] at hnew'
    rw [hnew']
    exact fun e he => (hall e he).isDispatch

theorem dispatched_doConnect (hs : Ready s.conn) (hstate : s.conn.state = .connecting) :
    Dispatched s (doConnect env s) := by
  have hlog : Ready (s.log .connect).conn := hs
  unfold doConnect
  cases env.connect with
  | none =>
    exact (dispatched_refuse env hlog (by simp [replyBytes]) (by simp [replyBytes])).after [.connect]
      (.inl rfl) rfl rfl rfl (by simp)
  | some iss =>
    refine ⟨rfl, fun _ => hs.isOpen, fun h => ?_, fun _ => .inr ⟨hstate, hs.idle⟩, .inl rfl,
      [.connect], rfl, by simp [SocksEntry.isDispatch], lossy_of_forall (by simp)⟩
    have hno : (s.log .connect).conn.closing = false := hs.live
    simp only [Socks.update_conn, hno] at h
    cases h

theorem dispatched_startConnect (hs : Ready s.conn) {f : SocksConn → SocksConn}
    (hf : ∀ conn : SocksConn, f conn = { conn with
      targetFamily := (f conn).targetFamily, targetIp := (f conn).targetIp,
      targetIp6 := (f conn).targetIp6 }) : Dispatched s (startConnect env f s) := by
  unfold startConnect
  have hready : Ready (s.update fun conn => { f conn with state := .connecting }).conn := by
    simp only [Socks.update_conn]
    rw [hf]
    exact ⟨⟨hs.isOpen, hs.noTunnel, hs.small⟩, hs.live, hs.idle⟩
  refine (dispatched_doConnect env hready rfl).after [] (.inr (.inr rfl)) ?_ ?_ (by simp) (by simp)
  · simp only [Socks.update_conn]
    rw [hf]
  · simp only [Socks.update_conn]
    rw [hf]

variable (srv : SocksServer)

theorem dispatched_resolveComplete (hs : Ready s.conn) (domain : List Byte) (answer : Answer) :
    Dispatched s (resolveComplete srv env domain answer s) := by
  have hreply : ∀ {s : Socks}, Ready s.conn → Dispatched s (refuse env (replyBytes s5RepFail) s) :=
    fun hs => dispatched_refuse env hs (by simp [replyBytes]) (by simp [replyBytes])
  obtain ⟨status, family, ip, ip6⟩ := answer
  have hfamily : Ready (s.update fun conn => { conn with targetFamily := family }).conn :=
    ⟨⟨hs.isOpen, hs.noTunnel, hs.small⟩, hs.live, hs.idle⟩
  have hdirect : Dispatched s (startConnect env id
      (s.update fun conn => { conn with targetFamily := family })) :=
    (dispatched_startConnect env hfamily fun _ => rfl).after [] (.inl rfl) rfl rfl (by simp) (by simp)
  unfold resolveComplete
  rw [if_neg hs.isOpen]
  by_cases hfail : status < 0 ∨ family = .unspec
  · rw [if_pos hfail]
    exact hreply hs
  rw [if_neg hfail]
  cases family with
  | unspec => exact hdirect
  | inet =>
    refine (dispatched_startConnect env ?_ fun _ => rfl).after [.cacheStore domain ip] (.inl rfl)
      rfl rfl rfl (by simp)
    exact hfamily
  | inet6 =>
    cases ip6 with
    | none => exact hdirect
    | some ip6 =>
      simp only
      split_ifs
      · refine (hreply ?_).after [] (.inl rfl) rfl rfl (by simp) (by simp)
        exact ⟨⟨hs.isOpen, hs.noTunnel, hs.small⟩, hs.live, hs.idle⟩
      · refine (dispatched_startConnect env ?_ fun _ => rfl).after [] (.inl rfl) rfl rfl (by simp) (by simp)
        exact ⟨⟨hs.isOpen, hs.noTunnel, hs.small⟩, hs.live, hs.idle⟩

theorem dispatched_dnsQueryFinish (hs : Shaking s.conn 4) (hlive : s.conn.closing = false)
    (shuttingDown : Bool) (domain : List Byte) (answer : Answer) :
    Dispatched s (dnsQueryFinish srv env shuttingDown domain answer s) := by
  have hready : Ready (s.update fun conn => { conn with resolveReq := false }).conn :=
    ⟨⟨hs.isOpen, hs.noTunnel, hs.small⟩, hlive, rfl⟩
  have hshutdown : ¬ (CloseReason.shutdown = .failed ∨ CloseReason.shutdown = .remote) := by simp
  unfold dnsQueryFinish
  simp only
  split_ifs
  · exact (dispatched_close env hshutdown (fun _ => hready.isOpen) hready.live).after [] (.inl rfl) rfl rfl
      (by simp) (by simp)
  · exact (dispatched_resolveComplete env srv hready domain answer).after [] (.inl rfl) rfl rfl (by simp)
      (by simp)

theorem dispatched_resolveDomain (hs : Ready s.conn) (domain : List Byte) :
    Dispatched s (resolveDomain srv env domain s) := by
  have hready : Ready (s.update fun conn => { conn with state := .resolving }).conn :=
    ⟨⟨hs.isOpen, hs.noTunnel, hs.small⟩, hs.live, hs.idle⟩
  unfold resolveDomain
  simp only
  cases env.dnsCacheLookup domain with
  | some ip =>
    exact (dispatched_resolveComplete env srv hready domain _).after [] (.inr (.inl rfl)) rfl rfl
      (by simp) (by simp)
  | none =>
    simp only
    cases env.dnsStartQuery domain with
    | failed =>
      refine (dispatched_refuse env ?_ ?_ ?_).after [.query domain] (.inr (.inl rfl)) rfl rfl rfl
        (by simp)
      · exact hready
      · simp [replyBytes]
      · simp [replyBytes]
    | pending =>
      refine ⟨rfl, fun _ => hs.isOpen, fun h => ?_, fun _ => .inl ⟨rfl, hs.noTunnel, rfl⟩,
        .inr (.inl rfl), [.query domain], rfl, by simp [SocksEntry.isDispatch],
        lossy_of_forall (by simp)⟩
      have hno : s.conn.closing = true := h
      rw [hs.live] at hno
      cases hno
    | answered shuttingDown answer =>
      refine (dispatched_dnsQueryFinish env srv ?_ ?_ shuttingDown domain answer).after
        [.query domain] (.inr (.inl rfl)) rfl rfl rfl (by simp)
      · exact hready.toShaking
      · exact hs.live

theorem dispatched_dispatchRequest (hs : Ready s.conn) :
    Dispatched s (dispatchRequest srv env s) := by
  unfold dispatchRequest
  simp only
  split_ifs
  · exact dispatched_startConnect env hs fun _ => rfl
  · exact dispatched_resolveDomain env srv hs _
  · exact dispatched_refuse env hs (by simp [replyBytes]) (by simp [replyBytes])
  · exact dispatched_startConnect env hs fun _ => rfl

end Functions

end Dispatch

/-! ### The invariant of the stages -/

/-- The states of the handshake. -/
def S5State.isShaking : S5State → Bool
  | .init | .userpass | .auth => true
  | _ => false

/-- The output that can have been queued when a state is reached. -/
def replyRoom : S5State → ℕ
  | .init => 0
  | .userpass => 2
  | _ => 4

theorem replyRoom_le (state : S5State) : replyRoom state ≤ 4 := by
  cases state <;> simp [replyRoom]

/-- What holds in each stage of a connection. -/
structure SocksInv (s : Socks) : Prop where
  isOpen : s.conn.Open
  stopped : s.conn.closing = true →
    s.conn.reading = false ∧ s.conn.wgConn = none ∧ s.conn.resolveReq = false
  early : s.conn.closing = false → s.conn.state.isShaking = true ∨ s.conn.state = .resolving →
    s.conn.wgConn = none ∧ s.conn.outbuf.length ≤ replyRoom s.conn.state
  waiting : s.conn.resolveReq = true → s.conn.state = .resolving

theorem socksInv_accept : SocksInv .accept where
  isOpen _ := nofun
  stopped := nofun
  early _ _ := ⟨rfl, le_rfl⟩
  waiting := nofun

section Inv

variable {s s' : Socks}

theorem SocksInv.live_of_reading (h : SocksInv s) (hread : s.conn.reading = true) :
    s.conn.closing = false := by
  by_contra hno
  have hstop := (h.stopped (by simpa using hno)).1
  rw [hread] at hstop
  cases hstop

theorem SocksInv.live_of_tunnel (h : SocksInv s) (htunnel : s.conn.wgConn.isSome = true) :
    s.conn.closing = false := by
  by_contra hno
  have hstop := (h.stopped (by simpa using hno)).2.1
  rw [hstop] at htunnel
  cases htunnel

theorem SocksInv.live_of_waiting (h : SocksInv s) (hwait : s.conn.resolveReq = true) :
    s.conn.closing = false := by
  by_contra hno
  have hstop := (h.stopped (by simpa using hno)).2.2
  rw [hwait] at hstop
  cases hstop

/-- A tunnel is there only behind the handshake and the resolver. -/
theorem SocksInv.late_of_tunnel (h : SocksInv s) (htunnel : s.conn.wgConn.isSome = true) :
    ¬ (s.conn.state.isShaking = true ∨ s.conn.state = .resolving) := by
  intro hearly
  have hnone := (h.early (h.live_of_tunnel htunnel) hearly).1
  rw [hnone] at htunnel
  cases htunnel

theorem SocksInv.shaking (h : SocksInv s) (hlive : s.conn.closing = false)
    (hearly : s.conn.state.isShaking = true ∨ s.conn.state = .resolving) :
    Shaking s.conn (replyRoom s.conn.state) :=
  ⟨h.isOpen hlive, (h.early hlive hearly).1, (h.early hlive hearly).2⟩

/-- The write side keeps the stages, where it does not add to the output of an early one. -/
theorem SocksInv.writeSide {why : CloseReason → Prop} (h : SocksInv s) (hside : WriteSide why s s')
    (hout : s.conn.state.isShaking = true ∨ s.conn.state = .resolving →
      s'.conn.outbuf.length ≤ s.conn.outbuf.length) : SocksInv s' where
  isOpen := hside.isOpen h.isOpen
  stopped hclosing := by
    rcases hside.stopped hclosing with hbefore | hstop
    · obtain ⟨hread, htunnel, hwait⟩ := h.stopped hbefore
      refine ⟨?_, ?_, ?_⟩
      · exact Bool.eq_false_iff.2 fun hr => absurd (hside.reading hr) (by simp [hread])
      · exact Option.not_isSome_iff_eq_none.1 fun ht => absurd (hside.tunnel ht) (by simp [htunnel])
      · exact Bool.eq_false_iff.2 fun hw => absurd (hside.waiting hw) (by simp [hwait])
    · exact hstop
  early hlive hearly := by
    have hbefore : s.conn.closing = false := by
      by_contra hno
      rw [hside.closing (by simpa using hno)] at hlive
      cases hlive
    rw [hside.state] at hearly ⊢
    obtain ⟨hnone, hroom⟩ := h.early hbefore hearly
    refine ⟨?_, (hout hearly).trans hroom⟩
    exact Option.not_isSome_iff_eq_none.1 fun ht => absurd (hside.tunnel ht) (by simp [hnone])
  waiting hwait := hside.state.trans (h.waiting (hside.waiting hwait))

/-- Acting upon a request keeps the stages. -/
theorem SocksInv.dispatched (h : Dispatched s s') (hsmall : s.conn.outbuf.length ≤ 4) :
    SocksInv s' where
  isOpen := h.isOpen
  stopped := h.stopped
  early hlive hearly := by
    rcases h.live hlive with ⟨hstate, hnone, hout⟩ | ⟨hstate, -⟩
    · rw [hstate, hout]
      exact ⟨hnone, hsmall⟩
    · rw [hstate] at hearly
      simp [S5State.isShaking] at hearly
  waiting hwait := by
    have hlive : s'.conn.closing = false := by
      by_contra hno
      rw [(h.stopped (by simpa using hno)).2.2] at hwait
      cases hwait
    rcases h.live hlive with ⟨hstate, -, -⟩ | ⟨-, hno⟩
    · exact hstate
    · rw [hno] at hwait
      cases hwait

end Inv

/-! ### Output that does not grow -/

section Output

variable (env : SocksEnv) (s : Socks)

theorem outbuf_updateWgRecvWindowState :
    (updateWgRecvWindowState env s).conn.outbuf = s.conn.outbuf := by
  unfold updateWgRecvWindowState
  cases s.conn.wgConn with
  | none => rfl
  | some t =>
    simp only
    split_ifs <;> rfl

theorem outbuf_flushRemove : (flushRemove s).conn.outbuf = s.conn.outbuf := by
  unfold flushRemove
  split_ifs <;> rfl

theorem outbuf_scheduleClientFlush : (scheduleClientFlush s).conn.outbuf = s.conn.outbuf := by
  unfold scheduleClientFlush
  split_ifs <;> rfl

theorem outbuf_socks5ConnClose (reason : CloseReason) :
    (socks5ConnClose env reason s).conn.outbuf = s.conn.outbuf := by
  unfold socks5ConnClose
  simp only
  split_ifs
  · rfl
  all_goals
    simp only [Socks.update_conn, Socks.log_conn, conn_leaveTunnel]
    exact outbuf_flushRemove s

theorem outbuf_clientFlush_le :
    (clientFlush env s).conn.outbuf.length ≤ s.conn.outbuf.length := by
  unfold clientFlush
  simp only
  split_ifs
  · exact le_rfl
  · rw [outbuf_socks5ConnClose]
    exact Nat.zero_le _
  · exact Nat.zero_le _

theorem outbuf_writeDoneCb (status : ℤ) :
    (writeDoneCb env status s).conn.outbuf = s.conn.outbuf := by
  unfold writeDoneCb
  simp only
  split_ifs <;>
    simp only [outbuf_socks5ConnClose, outbuf_scheduleClientFlush, outbuf_updateWgRecvWindowState,
      Socks.update_conn]

end Output

/-! ### Reads of the handshake -/

section Read

variable (srv : SocksServer) (env : SocksEnv)

/-- The replies of the parser fit the room of the state they lead to. -/
def Parsed.Fits (p : Parsed) (room : ℕ) : Prop :=
  (∀ state rest, p.verdict.At state rest → room + p.replies.flatten.length ≤ replyRoom state) ∧
    ∀ state reply, p.verdict = .refused state reply → reply ≠ [] ∧ reply.length ≤ 10

theorem fits_parseRequest (rxbuf : List Byte) {replies : List (List Byte)} {room : ℕ}
    (hroom : room + replies.flatten.length ≤ 4) :
    (⟨replies, parseRequest rxbuf⟩ : Parsed).Fits room := by
  refine ⟨fun state rest hat => ?_, fun state reply hv => ?_⟩
  · have hstate : state = .auth := by
      have hown := parseRequest_at rxbuf
      generalize parseRequest rxbuf = v at hat hown
      cases v with
      | wait st r => exact hat.1.symm.trans hown.1
      | refused st r => exact Eq.trans (Eq.symm hat) hown
      | request m r => exact hat.1
    rw [hstate]
    exact hroom
  · have hreply : reply = replyBytes s5RepFail := by
      unfold parseRequest at hv
      split_ifs at hv
      · cases hv; rfl
      · cases hlen : requestLen rxbuf with
        | none =>
          rw [hlen] at hv
          cases hv
          rfl
        | some len =>
          rw [hlen] at hv
          cases len with
          | none => cases hv
          | some needed =>
            simp only at hv
            split_ifs at hv
    rw [hreply]
    exact ⟨by simp [replyBytes], by simp [replyBytes]⟩

theorem fits_parseUserpass (rxbuf : List Byte) : (parseUserpass srv rxbuf).Fits 2 := by
  have hwait : (⟨[], .wait .userpass rxbuf⟩ : Parsed).Fits 2 := by
    refine ⟨?_, nofun⟩
    rintro state rest ⟨rfl, -⟩
    simp [replyRoom]
  have hrefused : (⟨[], .refused .userpass [s5UserpassVer, 1]⟩ : Parsed).Fits 2 := by
    refine ⟨?_, ?_⟩
    · rintro state rest rfl
      simp [replyRoom]
    · rintro state reply ⟨⟩
      simp
  unfold parseUserpass
  simp only
  split_ifs
  · exact hwait
  · exact hrefused
  · exact hrefused
  · exact hwait
  · exact hwait
  · exact fits_parseRequest _ (by simp)
  · exact hrefused

theorem Parsed.Fits.reply {p : Parsed} {room : ℕ} {reply : List Byte}
    (h : p.Fits (room + reply.length)) : (p.reply reply).Fits room := by
  refine ⟨fun state rest hat => ?_, h.2⟩
  have hle := h.1 state rest hat
  simp only [Parsed.reply, List.flatten_cons, List.length_append]
  omega

theorem fits_parse {state : S5State} (hstate : state.isShaking = true) (rxbuf : List Byte) :
    (parse srv state rxbuf).Fits (replyRoom state) := by
  cases state with
  | init =>
    rw [parse, if_pos rfl]
    unfold parseGreeting
    simp only
    have hnext := @selectMethod_ne_init srv ((rxbuf.drop 2).take (rxbuf.getD 1 0).toNat)
    generalize selectMethod srv _ = choice at hnext ⊢
    obtain ⟨selected, nextState⟩ := choice
    simp only at hnext ⊢
    have hwait : (⟨[], .wait .init rxbuf⟩ : Parsed).Fits 0 := by
      refine ⟨?_, fun _ _ hno => by cases hno⟩
      rintro state rest ⟨rfl, -⟩
      simp [replyRoom]
    split_ifs with h1 h2 hsel
    · exact hwait
    · exact hwait
    · refine ⟨?_, ?_⟩
      · rintro state rest rfl
        simp [replyRoom]
      · rintro state reply ⟨⟩
        simp
    · refine Parsed.Fits.reply ?_
      rcases hnext hsel with rfl | rfl
      · exact fits_parseUserpass srv _
      · exact fits_parseRequest _ (by simp [replyRoom])
  | userpass => exact fits_parseUserpass srv rxbuf
  | auth => exact fits_parseRequest rxbuf (by simp [replyRoom])
  | resolving => cases hstate
  | connecting => cases hstate
  | established => cases hstate
  | closing => cases hstate

/-- A read of the handshake, as `on_client_read` buffers it. -/
def Socks.buffered (s : Socks) (data : List Byte) : Socks :=
  (s.log (.read data)).update fun conn =>
    { conn with rxbuf := conn.rxbuf ++ data.take (rxbufSize - conn.rxbuf.length) }

/-- **A read of the handshake**: behind the parser's replies the connection waits, or acts upon what
is complete. -/
theorem onClientRead_shaking {s : Socks} (h : SocksInv s) (hlive : s.conn.closing = false)
    (hstate : s.conn.state.isShaking = true) (data : List Byte) :
    ∃ s2 state rest,
      Advanced env (parse srv s.conn.state (s.buffered data).conn.rxbuf).replies state rest
        (s.buffered data) s2 ∧
      (parse srv s.conn.state (s.buffered data).conn.rxbuf).verdict.At state rest ∧
      Shaking s2.conn (replyRoom state) ∧ Ready s2.conn ∧
      onClientRead srv env data s =
        conclude srv env (data.drop (rxbufSize - s.conn.rxbuf.length)) s2
          (parse srv s.conn.state (s.buffered data).conn.rxbuf).verdict := by
  have hcases : s.conn.state = .init ∨ s.conn.state = .userpass ∨ s.conn.state = .auth := by
    cases hst : s.conn.state <;> simp_all [S5State.isShaking]
  have hbefore := h.shaking hlive (.inl hstate)
  have hidle : s.conn.resolveReq = false := by
    by_contra hno
    have hres := h.waiting (by simpa using hno)
    rw [hres] at hstate
    cases hstate
  have hroom := replyRoom_le s.conn.state
  have hbuf : Shaking (s.buffered data).conn (replyRoom s.conn.state) :=
    ⟨hbefore.isOpen, hbefore.noTunnel, hbefore.small⟩
  obtain ⟨s2, state, rest, hadv, hat, hdo⟩ := @processHandshake_spec srv env
    (data.drop (rxbufSize - s.conn.rxbuf.length)) (s.buffered data) (replyRoom s.conn.state) hbuf
    (by rw [socks5FlushSize]; omega) hcases
  have hfits := (fits_parse srv hstate (s.buffered data).conn.rxbuf).1 state rest hat
  have hshake := hadv.shaking hbuf
  have hsmall : Shaking s2.conn (replyRoom state) :=
    ⟨hshake.isOpen, hshake.noTunnel, hshake.small.trans hfits⟩
  refine ⟨s2, state, rest, hadv, hat, hsmall, ⟨⟨hsmall.isOpen, hsmall.noTunnel,
    hsmall.small.trans (replyRoom_le state)⟩, ?_, ?_⟩, ?_⟩
  · rw [hadv.conn]
    exact hlive
  · rw [hadv.conn]
    exact hidle
  · refine Eq.trans ?_ hdo
    unfold onClientRead
    rw [if_neg]
    · rfl
    · rcases hcases with hc | hc | hc <;> simp [hc]

end Read

/-! ### The stages are kept -/

section Step

variable (srv : SocksServer) (env : SocksEnv) {s : Socks}

/-- Acting upon a complete request. -/
theorem dispatched_request (hs : Ready s.conn) (cut msg rest : List Byte) :
    Dispatched ((s.log (.request (rest ++ cut))).update fun conn =>
        { conn with targetPort := be16 s.conn.rxbuf (msg.length - 2) })
      (conclude srv env cut s (.request msg rest)) :=
  dispatched_dispatchRequest env srv ⟨⟨hs.isOpen, hs.noTunnel, hs.small⟩, hs.live, hs.idle⟩

theorem socksInv_shaking (h : SocksInv s) (hlive : s.conn.closing = false)
    (hstate : s.conn.state.isShaking = true) (data : List Byte) :
    SocksInv (onClientRead srv env data s) := by
  obtain ⟨s2, state, rest, hadv, hat, hshake, hready, hdo⟩ :=
    onClientRead_shaking srv env h hlive hstate data
  have hreply := (fits_parse srv hstate (s.buffered data).conn.rxbuf).2
  rw [hdo]
  cases hv : (parse srv s.conn.state (s.buffered data).conn.rxbuf).verdict with
  | wait state' rest' =>
    have hst : s2.conn.state = state := by rw [hadv.conn]
    refine ⟨fun _ => hshake.isOpen, fun hno => ?_, fun _ _ => ?_, fun hno => ?_⟩
    · rw [conclude, hready.live] at hno
      cases hno
    · rw [conclude, hst]
      exact ⟨hshake.noTunnel, hshake.small⟩
    · rw [conclude, hready.idle] at hno
      cases hno
  | refused state' reply =>
    obtain ⟨hne, hlen⟩ := hreply state' reply hv
    exact .dispatched (dispatched_refuse env hready hne hlen) hready.small
  | request msg rest' => exact .dispatched (dispatched_request srv env hready _ msg rest') hready.small

/-- What the read side leaves alone is enough for the stages, where no tunnel comes of it. -/
theorem SocksInv.readSide {s' : Socks} (h : SocksInv s) (hside : ReadSide s s')
    (hlive : s.conn.closing = false)
    (htunnel : s.conn.state.isShaking = true ∨ s.conn.state = .resolving →
      s'.conn.wgConn = s.conn.wgConn) : SocksInv s' where
  isOpen hno := by
    rw [hside.writeState]
    exact h.isOpen hlive
  stopped hno := by
    rw [hside.closing, hlive] at hno
    cases hno
  early _ hearly := by
    rw [hside.state] at hearly ⊢
    have hout : s'.conn.outbuf = s.conn.outbuf := congrArg Prod.fst hside.out
    rw [htunnel hearly, hout]
    exact h.early hlive hearly
  waiting hw := by
    rw [hside.waiting] at hw
    exact hside.state.trans (h.waiting hw)

theorem bufferPending_wgConn (env : SocksEnv) (data : List Byte) (s : Socks)
    (hside : ReadSide s (bufferPending env data s)) (hlive : s.conn.closing = false)
    (hopen : s.conn.Open) :
    (bufferPending env data s).conn.wgConn = s.conn.wgConn := by
  unfold bufferPending at hside ⊢
  cases hring : pendingAppend env s.conn.pending data with
  | none =>
    rw [hring] at hside
    have hclosing := hside.closing
    rw [closing_socks5ConnClose env .overflow hopen, hlive] at hclosing
    cases hclosing
  | some ring => rfl

theorem socksInv_onClientRead (h : SocksInv s) (hlive : s.conn.closing = false)
    (data : List Byte) : SocksInv (onClientRead srv env data s) := by
  by_cases hshake : s.conn.state.isShaking = true
  · exact socksInv_shaking srv env h hlive hshake data
  have hlog : SocksInv (s.log (.read data)) := ⟨h.isOpen, h.stopped, h.early, h.waiting⟩
  unfold onClientRead
  simp only
  split_ifs with hlate
  · -- the bytes go to the tunnel or into the ring
    have hbuffer : SocksInv (bufferPending env data (s.log (.read data))) := by
      rcases bufferPending_cases env data (s.log (.read data)) with hclose | hside
      · rw [hclose]
        refine hlog.writeSide (@writeSide_socks5ConnClose (fun _ => True) env _ trivial _) fun _ => ?_
        rw [outbuf_socks5ConnClose]
      · exact hlog.readSide hside hlive fun _ =>
          bufferPending_wgConn env data _ hside hlive hlog.isOpen
    cases hstate : s.conn.state with
    | resolving => rwa [clientReadEstablished, Socks.log_conn, hstate]
    | connecting => rwa [clientReadEstablished, Socks.log_conn, hstate]
    | established =>
      have hnot : ¬ ((s.log (.read data)).conn.state.isShaking = true ∨
          (s.log (.read data)).conn.state = .resolving) := by
        simp [hstate, S5State.isShaking]
      obtain ⟨s1, hside, hdo | hdo⟩ :=
        clientReadEstablished_cases env data (hlog.isOpen hlive)
      · rw [hdo]
        exact hlog.readSide hside hlive fun hearly => absurd hearly hnot
      · rw [hdo]
        have h1 := hlog.readSide hside hlive fun hearly => absurd hearly hnot
        refine h1.writeSide (@writeSide_socks5ConnClose (fun _ => True) env _ trivial _) fun _ => ?_
        rw [outbuf_socks5ConnClose]
    | init => simp [hstate] at hlate
    | userpass => simp [hstate] at hlate
    | auth => simp [hstate] at hlate
    | closing => simp [hstate] at hlate
  · -- nothing is read in the state `S5_CLOSING`, which is never entered
    have hstate : s.conn.state = .closing := by
      simp only [Socks.log_conn] at hlate
      cases hst : s.conn.state <;> simp_all [S5State.isShaking]
    rw [processHandshake]
    simp only [Socks.update_conn, Socks.log_conn, hstate]
    refine ⟨h.isOpen, h.stopped, fun hlive hearly => ?_, h.waiting⟩
    exact h.early hlive hearly

theorem SocksInv.established (h : SocksInv s) (htunnel : s.conn.wgConn.isSome = true) :
    SocksInv (s.update fun conn => { conn with state := .established }) where
  isOpen := h.isOpen
  stopped := h.stopped
  early _ hearly := by simp [S5State.isShaking] at hearly
  waiting hwait := absurd (h.waiting hwait) fun hres => h.late_of_tunnel htunnel (.inr hres)

theorem flushPendingToWg_of_none (hs : s.conn.wgConn = none) : flushPendingToWg env s = s := by
  rw [flushPendingToWg, if_pos (by simp [hs])]

theorem socksInv_flushPendingToWg (h : SocksInv s) (hlate : s.conn.state = .established) :
    SocksInv (flushPendingToWg env s) := by
  by_cases hlive : s.conn.closing = false
  · refine h.readSide (readSide_flushPendingToWg env s) hlive fun hearly => ?_
    rw [hlate] at hearly
    simp [S5State.isShaking] at hearly
  · rw [flushPendingToWg_of_none env (h.stopped (by simpa using hlive)).2.1]
    exact h

theorem socksInv_wgOnConnect (h : SocksInv s) (htunnel : s.conn.wgConn.isSome = true)
    (status : ℤ) : SocksInv (wgOnConnect env status s) := by
  have hlate := h.late_of_tunnel htunnel
  unfold wgOnConnect
  simp only
  split_ifs with hclosed hfail
  · exact h
  · exact h.writeSide (@writeSide_refuse (fun _ => True) env trivial trivial _ s)
      fun hearly => absurd hearly hlate
  all_goals
    have hside := @writeSide_clientWrite (fun _ => True) env trivial (replyBytes s5RepOk)
      (s.update fun conn => { conn with state := .established })
    have hreply : SocksInv (sendReply env s5RepOk
        (s.update fun conn => { conn with state := .established })) :=
      (h.established htunnel).writeSide hside fun hearly => by simp [S5State.isShaking] at hearly
  · exact socksInv_flushPendingToWg env hreply hside.state
  · exact hreply

/-- The stages are kept by every event. -/
theorem socksInv_step (h : SocksInv s) (e : SocksEnv × SocksEvent) :
    SocksInv (socksStep srv s e) := by
  obtain ⟨env, e⟩ := e
  unfold socksStep
  split_ifs with hskip
  · exact h
  have henabled : e.enabled s.conn := by
    by_contra hno
    exact hskip (.inr hno)
  cases e with
  | read data => exact socksInv_onClientRead srv env h (h.live_of_reading henabled.1) data
  | readEnd nread =>
    refine h.writeSide (@writeSide_onClientReadEnd (fun _ => True) env trivial nread s) fun _ => ?_
    simp only [socksCallback, onClientReadEnd]
    split_ifs
    · rw [outbuf_socks5ConnClose]
    · exact le_rfl
  | resolved shuttingDown domain answer =>
    have hlive := h.live_of_waiting henabled
    have hstate := h.waiting henabled
    have hshake := h.shaking hlive (.inr hstate)
    have hroom := replyRoom_le s.conn.state
    refine .dispatched (dispatched_dnsQueryFinish env srv ⟨hshake.isOpen, hshake.noTunnel, ?_⟩ hlive
      shuttingDown domain answer) ?_
    · exact hshake.small.trans hroom
    · exact hshake.small.trans hroom
  | tunnel t =>
    have hlate := h.late_of_tunnel henabled
    have hlive := h.live_of_tunnel henabled
    refine ⟨h.isOpen, fun hno => ?_, fun _ hearly => absurd hearly hlate, h.waiting⟩
    simp only [socksCallback, Socks.update_conn, hlive] at hno
    cases hno
  | connect status => exact socksInv_wgOnConnect env h henabled status
  | data data =>
    exact h.writeSide (@writeSide_wgOnData (fun _ => True) env trivial data s)
      fun hearly => absurd hearly (h.late_of_tunnel henabled)
  | writeable =>
    exact h.readSide (readSide_wgOnWriteable env s) (h.live_of_tunnel henabled)
      fun hearly => absurd hearly (h.late_of_tunnel henabled)
  | close =>
    exact h.writeSide (@writeSide_wgOnClose (fun _ => True) env trivial s)
      fun hearly => absurd hearly (h.late_of_tunnel henabled)
  | check =>
    exact h.writeSide (@writeSide_flushCheck (fun _ => True) env trivial s)
      fun _ => outbuf_clientFlush_le env _
  | writeDone status =>
    refine h.writeSide (@writeSide_writeDoneCb (fun _ => True) env trivial status s) fun _ => ?_
    simp only [socksCallback, outbuf_writeDoneCb, le_refl]
  | closeCb =>
    refine h.writeSide (@writeSide_clientCloseCb (fun _ => True) env s) fun _ => ?_
    simp only [socksCallback, clientCloseCb, Socks.update_conn, conn_leaveTunnel, le_refl]

/-- **The stages of a connection**: they are kept by every run. -/
theorem socksInv_run (es : List (SocksEnv × SocksEvent)) : SocksInv (socksRun srv es) :=
  @Machine.run_induction' _ _ (socksStep srv) SocksInv (fun _ e hs => socksInv_step srv hs e) _
    socksInv_accept es

end Step

end Wgx
