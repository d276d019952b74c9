import Wgx.Socks5.Stages

/-!
# The authentication gate of the SOCKS5 server

A server that asks for a password lets a client past the states `S5_INIT` and `S5_USERPASS` only
when it has got, behind a greeting that offers the method, the user and the password it is
configured with.

* `Authenticates` says that of the bytes of the handshake, `authenticates_of_parse` derives it from
  the parser;
* a read that the handshake buffer has no room for loses its end, so the bytes the parser sees are
  those the client sent only up to there (`KeptBytes`);
* `GateInv` is the invariant, `authentication_gate` the result.
-/

namespace Wgx

/-! ### What a client sends to be let in -/

/-- A greeting that offers `method`. -/
def IsGreeting (method : Byte) (msg : List Byte) : Prop :=
  ∃ ver methods, methods.length ≤ 255 ∧ method ∈ methods ∧
    msg = ver :: BitVec.ofNat 8 methods.length :: methods

/-- The sub-negotiation with `user` and `pass`. -/
def userpassMessage (user pass : List Byte) : List Byte :=
  s5UserpassVer :: BitVec.ofNat 8 user.length :: user ++ BitVec.ofNat 8 pass.length :: pass

/-- The bytes begin with a greeting that offers the method and the server's user and password. -/
def Authenticates (srv : SocksServer) (bytes : List Byte) : Prop :=
  srv.authUser.length ≤ 255 ∧ srv.authPass.length ≤ 255 ∧
    ∃ greeting, IsGreeting s5AuthUserpass greeting ∧
      greeting ++ userpassMessage srv.authUser srv.authPass <+: bytes

theorem Authenticates.mono {srv : SocksServer} {bytes more : List Byte}
    (h : Authenticates srv bytes) (hmore : bytes <+: more) : Authenticates srv more := by
  obtain ⟨huser, hpass, greeting, hgreet, hpre⟩ := h
  exact ⟨huser, hpass, greeting, hgreet, hpre.trans hmore⟩

/-! ### The parser lets nobody else in -/

theorem cons_cons_drop {l : List Byte} (h : 2 ≤ l.length) :
    l = l.getD 0 0 :: l.getD 1 0 :: l.drop 2 := by
  match l, h with
  | a :: b :: l, _ => rfl

/-- The length byte of a part of a message. -/
theorem ofNat_length_take {l : List Byte} {b : Byte} {i : ℕ} (h : i + b.toNat ≤ l.length) :
    BitVec.ofNat 8 ((l.drop i).take b.toNat).length = b := by
  have hlen : ((l.drop i).take b.toNat).length = b.toNat := by
    rw [List.length_take, List.length_drop]
    omega
  rw [hlen, BitVec.ofNat_toNat, BitVec.setWidth_eq]

/-- A message that begins with a version byte and counts what follows, put together again. -/
theorem counted_split {l : List Byte} (h : 2 + (l.getD 1 0).toNat ≤ l.length) :
    l = l.getD 0 0 :: BitVec.ofNat 8 ((l.drop 2).take (l.getD 1 0).toNat).length ::
      (l.drop 2).take (l.getD 1 0).toNat ++ l.drop (2 + (l.getD 1 0).toNat) := by
  have hhead := cons_cons_drop (show 2 ≤ l.length by omega)
  rw [ofNat_length_take h, List.cons_append, List.cons_append, ← List.drop_drop,
    List.take_append_drop]
  exact hhead

/-- Where the sub-negotiation is passed, it is the server's user and password, and what stands
behind it is the request. -/
theorem userpass_of_parse {srv : SocksServer} {rxbuf rest : List Byte}
    (h : (parseUserpass srv rxbuf).verdict.At .auth rest) :
    srv.authUser.length ≤ 255 ∧ srv.authPass.length ≤ 255 ∧
      ∃ more, rxbuf = userpassMessage srv.authUser srv.authPass ++ more ∧
        (parseUserpass srv rxbuf).verdict = parseRequest more := by
  unfold parseUserpass at h ⊢
  simp only at h ⊢
  split_ifs at h ⊢ with h2 hver hzero huser hpass hok
  · cases h.1
  · cases h
  · cases h
  · cases h.1
  · cases h.1
  · have hverb : rxbuf.getD 0 0 = s5UserpassVer := by simpa using hver
    generalize hub : rxbuf.getD 1 0 = ub at *
    generalize hpb : rxbuf.getD (2 + ub.toNat) 0 = pb at *
    have hulen : BitVec.ofNat 8 srv.authUser.length = ub := by
      rw [← hok.1]
      exact ofNat_length_take (by omega)
    have hplen : BitVec.ofNat 8 srv.authPass.length = pb := by
      rw [← hok.2]
      exact ofNat_length_take (by omega)
    have hu : srv.authUser.length = ub.toNat := by
      rw [← hok.1, List.length_take, List.length_drop]
      omega
    have hp : srv.authPass.length = pb.toNat := by
      rw [← hok.2, List.length_take, List.length_drop]
      omega
    have hub255 := ub.isLt
    have hpb255 := pb.isLt
    refine ⟨by omega, by omega, rxbuf.drop (3 + ub.toNat + pb.toNat), ?_, rfl⟩
    -- the message is put together again from its parts
    have hhead := counted_split (show 2 + (rxbuf.getD 1 0).toNat ≤ rxbuf.length by
      rw [hub]
      omega)
    have hmid : rxbuf.drop (2 + ub.toNat) = pb :: rxbuf.drop (3 + ub.toNat) := by
      have hlt : 2 + ub.toNat < rxbuf.length := by omega
      rw [List.drop_eq_getElem_cons hlt, ← hpb, List.getD_eq_getElem _ _ hlt]
      congr 2
      omega
    have hend : rxbuf.drop (3 + ub.toNat) =
        srv.authPass ++ rxbuf.drop (3 + ub.toNat + pb.toNat) := by
      conv_lhs => rw [← List.take_append_drop pb.toNat (rxbuf.drop (3 + ub.toNat))]
      rw [hok.2, List.drop_drop]
    rw [hverb, hub, hok.1, hmid, hend] at hhead
    conv_lhs => rw [hhead]
    rw [userpassMessage, hplen]
    simp
  · cases h

/-- The greeting is complete, and a method of it is selected. -/
def GreetingAccepted (srv : SocksServer) (rxbuf : List Byte) : Prop :=
  2 ≤ rxbuf.length ∧ 2 + (rxbuf.getD 1 0).toNat ≤ rxbuf.length ∧
    (selectMethod srv ((rxbuf.drop 2).take (rxbuf.getD 1 0).toNat)).1 ≠ s5AuthNoAcceptable

/-- The greeting is waited for or refused, or it is accepted and what stands behind it comes
next. -/
theorem parseGreeting_cases (srv : SocksServer) (rxbuf : List Byte) :
    parseGreeting srv rxbuf = ⟨[], .wait .init rxbuf⟩ ∨
    (∃ reply, parseGreeting srv rxbuf = ⟨[], .refused .init reply⟩) ∨
    GreetingAccepted srv rxbuf ∧ ∃ methods, methods.length ≤ 255 ∧
      rxbuf = rxbuf.getD 0 0 :: BitVec.ofNat 8 methods.length :: methods ++
        rxbuf.drop (2 + (rxbuf.getD 1 0).toNat) ∧
      (selectMethod srv methods).1 ≠ s5AuthNoAcceptable ∧
      (parseGreeting srv rxbuf).verdict = (parseFrom srv (selectMethod srv methods).2
        (rxbuf.drop (2 + (rxbuf.getD 1 0).toNat))).verdict := by
  unfold parseGreeting
  simp only
  split_ifs with h2 hlen hsel
  · exact .inl rfl
  · exact .inl rfl
  · exact .inr (.inl ⟨_, rfl⟩)
  · refine .inr (.inr ⟨⟨by omega, by omega, hsel⟩, _, ?_, counted_split (by omega), hsel, rfl⟩)
    have := (rxbuf.getD 1 0).isLt
    rw [List.length_take]
    omega

/-- The method that a server selects: the one it asks for, which the client offers. -/
theorem selectMethod_of_accepted {srv : SocksServer} {methods : List Byte}
    (h : (selectMethod srv methods).1 ≠ s5AuthNoAcceptable) :
    if srv.authRequired then
      s5AuthUserpass ∈ methods ∧ (selectMethod srv methods).2 = .userpass
    else s5AuthNone ∈ methods ∧ (selectMethod srv methods).2 = .auth := by
  unfold selectMethod at h ⊢
  split_ifs at h ⊢ with hreq hoffer hoffer
  · exact ⟨hoffer, rfl⟩
  · exact absurd rfl h
  · exact ⟨hoffer, rfl⟩
  · exact absurd rfl h

/-- **The parser lets nobody else in**: where it gets past the sub-negotiation of a server that asks
for one, the bytes authenticate the client. -/
theorem authenticates_of_parse {srv : SocksServer} (hreq : srv.authRequired = true)
    {bytes rest : List Byte} (h : (parse srv .init bytes).verdict.At .auth rest) :
    Authenticates srv bytes := by
  rw [parse, if_pos rfl] at h
  rcases parseGreeting_cases srv bytes with hwait | ⟨reply, hrefused⟩ |
    ⟨-, methods, hlen, hsplit, hsel, hnext⟩
  · rw [hwait] at h
    cases h.1
  · rw [hrefused] at h
    cases h
  · have hoffer := selectMethod_of_accepted hsel
    rw [if_pos hreq] at hoffer
    rw [hnext, hoffer.2] at h
    obtain ⟨huser, hpass, more, hmsg, -⟩ := userpass_of_parse h
    refine ⟨huser, hpass, _, ⟨bytes.getD 0 0, methods, hlen, hoffer.1, rfl⟩, ?_⟩
    conv_rhs => rw [hsplit, hmsg, ← List.append_assoc]
    exact List.prefix_append _ _

/-! ### The bytes that the parser sees -/

section KeptBytes

variable (cutOk : Prop)

/-- The bytes `kept` for the parser are those of the client; where reads may be cut, only up to the
size of the buffer. -/
def KeptBytes (kept bytes : List Byte) : Prop :=
  kept = bytes ∨ cutOk ∧ rxbufSize ≤ kept.length ∧ kept.take rxbufSize <+: bytes

/-- The client was let in by bytes that are its own as far as they are known to be. -/
def Admitted (srv : SocksServer) (bytes : List Byte) : Prop :=
  ∃ kept, Authenticates srv kept ∧
    (kept <+: bytes ∨ cutOk ∧ rxbufSize ≤ kept.length ∧ kept.take rxbufSize <+: bytes)

variable {cutOk} {srv : SocksServer} {kept bytes more : List Byte}

theorem Admitted.mono (h : Admitted cutOk srv bytes) (hmore : bytes <+: more) :
    Admitted cutOk srv more := by
  obtain ⟨kept, hauth, hpre | ⟨hcut, hlen, hpre⟩⟩ := h
  · exact ⟨kept, hauth, .inl (hpre.trans hmore)⟩
  · exact ⟨kept, hauth, .inr ⟨hcut, hlen, hpre.trans hmore⟩⟩

theorem KeptBytes.admitted (h : KeptBytes cutOk kept bytes) (hauth : Authenticates srv kept) :
    Admitted cutOk srv bytes := by
  rcases h with rfl | hcut
  · exact ⟨_, hauth, .inl (List.prefix_refl _)⟩
  · exact ⟨kept, hauth, .inr hcut⟩

/-- A read is appended to what was kept, as far as there is room behind `rest`. -/
theorem KeptBytes.read (h : KeptBytes cutOk kept bytes) {rest data : List Byte}
    (hrest : rest.length ≤ kept.length)
    (hfit : cutOk ∨ data.length ≤ rxbufSize - rest.length) :
    KeptBytes cutOk (kept ++ data.take (rxbufSize - rest.length)) (bytes ++ data) := by
  rcases h with rfl | ⟨hcut, hlen, hpre⟩
  · by_cases hroom : data.length ≤ rxbufSize - rest.length
    · rw [List.take_of_length_le hroom]
      exact .inl rfl
    · -- the read is cut, and fills the buffer
      have hcut := hfit.resolve_right hroom
      refine .inr ⟨hcut, ?_, ?_⟩
      · rw [List.length_append, List.length_take]
        omega
      · refine (List.take_prefix _ _).trans ?_
        exact (List.prefix_append_right_inj _).2 (List.take_prefix _ _)
  · refine .inr ⟨hcut, ?_, ?_⟩
    · rw [List.length_append]
      omega
    · rw [List.take_append_of_le_length hlen]
      exact hpre.trans (List.prefix_append _ _)

/-- Where the greeting and the sub-negotiation fit the buffer, a cut does not reach them. -/
theorem Admitted.authenticates (h : Admitted cutOk srv bytes)
    (hfit : cutOk → 5 + (bytes.getD 1 0).toNat + srv.authUser.length + srv.authPass.length ≤
      rxbufSize) : Authenticates srv bytes := by
  obtain ⟨kept, hauth, hpre | ⟨hcut, hlen, hpre⟩⟩ := h
  · exact hauth.mono hpre
  · refine Authenticates.mono ?_ hpre
    obtain ⟨huser, hpass, greeting, ⟨ver, methods, hmethods, hoffer, rfl⟩, hmsg⟩ := hauth
    refine ⟨huser, hpass, _, ⟨ver, methods, hmethods, hoffer, rfl⟩, ?_⟩
    refine List.prefix_take_iff.2 ⟨hmsg, ?_⟩
    -- the number of methods is the client's second byte
    have hsecond : (bytes.getD 1 0).toNat = methods.length := by
      obtain ⟨tail, htail⟩ := hpre
      obtain ⟨tail', htail'⟩ := hmsg
      rw [← htail, ← htail', List.getD_append]
      · simp only [List.cons_append, rxbufSize, List.take_succ_cons, List.getD_cons_succ,
          List.getD_cons_zero, BitVec.toNat_ofNat]
        exact Nat.mod_eq_of_lt (by omega)
      · rw [htail', List.length_take, rxbufSize]
        rw [rxbufSize] at hlen
        omega
    have hbound := hfit hcut
    rw [hsecond] at hbound
    simp only [userpassMessage, List.length_append, List.length_cons]
    omega

end KeptBytes

/-! ### The invariant -/

/-- The states behind the gate. -/
def S5State.isAdmitted : S5State → Bool
  | .auth | .resolving | .connecting | .established => true
  | _ => false

/-- A call of `tcpstack_connect` or `dns_start_query`. -/
def SocksEntry.isCall : SocksEntry → Bool
  | .connect | .query _ => true
  | _ => false

/-- What lies before the gate is what the parser waits for; what lies behind it, was let in. -/
structure GateInv (cutOk : Prop) (srv : SocksServer) (s : Socks) : Prop where
  before : s.conn.closing = false → s.conn.state = .init ∨ s.conn.state = .userpass →
    ∃ kept, (parse srv .init kept).verdict = .wait s.conn.state s.conn.rxbuf ∧
      KeptBytes cutOk kept (readBytes s.trace)
  behind : s.conn.state.isAdmitted = true → Admitted cutOk srv (readBytes s.trace)
  calls : ∀ pre e post, s.trace = pre ++ e :: post → e.isCall = true →
    Admitted cutOk srv (readBytes pre)
  state : s.conn.state ≠ .closing

section GateInv

variable {cutOk : Prop} {srv : SocksServer} {s s' : Socks}

theorem gateInv_accept : GateInv cutOk srv .accept where
  before _ _ := ⟨[], rfl, .inl rfl⟩
  behind := nofun
  calls pre e post hsplit := by
    have hlen := congrArg List.length hsplit
    simp [Socks.accept] at hlen
  state := nofun

/-- A trace with `new` behind it: the calls in `new` are admitted by all that was read. -/
theorem calls_append {trace new : List SocksEntry}
    (h : ∀ pre e post, trace = pre ++ e :: post → e.isCall = true →
      Admitted cutOk srv (readBytes pre))
    (hnew : ∀ pre e post, new = pre ++ e :: post → e.isCall = true →
      Admitted cutOk srv (readBytes trace)) :
    ∀ pre e post, trace ++ new = pre ++ e :: post → e.isCall = true →
      Admitted cutOk srv (readBytes pre) := by
  intro pre e post hsplit hcall
  rcases List.append_eq_append_iff.1 hsplit with ⟨mid, hpre, hmid⟩ | ⟨mid, htrace, hmid⟩
  · refine (hnew mid e post hmid hcall).mono ?_
    rw [hpre, readBytes_append]
    exact List.prefix_append _ _
  · cases mid with
    | nil =>
      rw [List.append_nil] at htrace
      rw [List.nil_append] at hmid
      rw [← htrace]
      exact hnew [] e post hmid.symm hcall
    | cons e' mid =>
      rw [List.cons_append, List.cons.injEq] at hmid
      obtain ⟨rfl, -⟩ := hmid
      exact h pre e mid htrace hcall

/-- What changes neither the state nor, before the gate, the buffer, keeps the gate. -/
theorem GateInv.frame (h : GateInv cutOk srv s) (hstate : s'.conn.state = s.conn.state)
    {new : List SocksEntry} (htrace : s'.trace = s.trace ++ new)
    (hcalls : ∀ e ∈ new, e.isCall = false)
    (hbefore : s'.conn.closing = false → s.conn.state = .init ∨ s.conn.state = .userpass →
      s.conn.closing = false ∧ s'.conn.rxbuf = s.conn.rxbuf ∧ readBytes new = []) :
    GateInv cutOk srv s' where
  before hlive hst := by
    rw [hstate] at hst ⊢
    obtain ⟨hlive', hrx, hread⟩ := hbefore hlive hst
    rw [hrx, htrace, readBytes_append, hread, List.append_nil]
    exact h.before hlive' hst
  behind hadm := by
    rw [hstate] at hadm
    rw [htrace, readBytes_append]
    exact (h.behind hadm).mono (List.prefix_append _ _)
  calls := by
    rw [htrace]
    refine calls_append h.calls fun pre e post hsplit hcall => ?_
    rw [hcalls e (by rw [hsplit]; simp)] at hcall
    cases hcall
  state := by
    rw [hstate]
    exact h.state

theorem isCall_of_isWrite {e : SocksEntry} (h : e.isWrite = true) : e.isCall = false := by
  cases e <;> first | rfl | cases h

theorem GateInv.writeSide {why : CloseReason → Prop} (h : GateInv cutOk srv s)
    (hside : WriteSide why s s') : GateInv cutOk srv s' := by
  obtain ⟨new, hnew, hall⟩ := hside.trace
  refine h.frame hside.state hnew (fun e he => isCall_of_isWrite (hall e he).isWrite)
    fun hlive _ => ⟨?_, hside.rxbuf, readBytes_of_isWrite fun e he => (hall e he).isWrite⟩
  by_contra hno
  rw [hside.closing (by simpa using hno)] at hlive
  cases hlive

theorem GateInv.readSide (h : GateInv cutOk srv s) (hside : ReadSide s s')
    (hlate : ¬ (s.conn.state = .init ∨ s.conn.state = .userpass)) : GateInv cutOk srv s' := by
  obtain ⟨new, hnew, hall⟩ := hside.trace
  refine h.frame hside.state hnew (fun e he => ?_) fun _ hst => absurd hst hlate
  obtain ⟨data, rfl⟩ := hall e he
  rfl

/-- Acting upon a request behind the gate. -/
theorem gateInv_dispatched (hside : Dispatched s s')
    (hcalls : ∀ pre e post, s.trace = pre ++ e :: post → e.isCall = true →
      Admitted cutOk srv (readBytes pre))
    (hadm : Admitted cutOk srv (readBytes s.trace))
    (hstate : s.conn.state = .auth ∨ s.conn.state = .resolving) : GateInv cutOk srv s' := by
  obtain ⟨new, hnew, hall, -⟩ := hside.trace
  have hstage : s'.conn.state = .auth ∨ s'.conn.state = .resolving ∨
      s'.conn.state = .connecting := by
    rcases hside.stage with hsame | hres | hconn
    · rw [hsame]
      exact hstate.imp_right .inl
    · exact .inr (.inl hres)
    · exact .inr (.inr hconn)
  refine ⟨fun _ hst => ?_, fun _ => ?_, ?_, ?_⟩
  · rcases hstage with hs | hs | hs <;> rw [hs] at hst <;> simp at hst
  · rw [hnew, readBytes_append]
    exact hadm.mono (List.prefix_append _ _)
  · rw [hnew]
    exact calls_append hcalls fun _ _ _ _ _ => hadm
  · rcases hstage with hs | hs | hs <;> rw [hs] <;> nofun

end GateInv

/-! ### The gate is kept -/

/-- The parser stays within the handshake. -/
theorem parse_at_isShaking (srv : SocksServer) {state state' : S5State} {rxbuf rest : List Byte}
    (hstate : state.isShaking = true) (hat : (parse srv state rxbuf).verdict.At state' rest) :
    state'.isShaking = true := by
  have hrequest : ∀ {rxbuf}, (parseRequest rxbuf).At state' rest → state'.isShaking = true := by
    intro rxbuf hat
    have hown := parseRequest_at rxbuf
    generalize parseRequest rxbuf = v at hat hown
    have hauth : state' = .auth := by
      cases v with
      | wait st r => exact hat.1.symm.trans hown.1
      | refused st r => exact Eq.trans (Eq.symm hat) hown
      | request m r => exact hat.1
    rw [hauth]
    rfl
  have huser : ∀ {rxbuf}, (parseUserpass srv rxbuf).verdict.At state' rest →
      state'.isShaking = true := by
    intro rxbuf hat
    unfold parseUserpass at hat
    simp only at hat
    split_ifs at hat
    · rw [← hat.1]; rfl
    · rw [← hat]; rfl
    · rw [← hat]; rfl
    · rw [← hat.1]; rfl
    · rw [← hat.1]; rfl
    · exact hrequest hat
    · rw [← hat]; rfl
  cases state with
  | init =>
    rw [parse, if_pos rfl] at hat
    unfold parseGreeting at hat
    simp only at hat
    have hnext := @selectMethod_ne_init srv ((rxbuf.drop 2).take (rxbuf.getD 1 0).toNat)
    generalize selectMethod srv _ = choice at hnext hat
    obtain ⟨selected, nextState⟩ := choice
    simp only at hnext hat
    split_ifs at hat with h1 h2 hsel
    · rw [← hat.1]; rfl
    · rw [← hat.1]; rfl
    · rw [← hat]; rfl
    · rcases hnext hsel with rfl | rfl
      · exact huser hat
      · exact hrequest hat
  | userpass => exact huser hat
  | auth => exact hrequest hat
  | resolving => cases hstate
  | connecting => cases hstate
  | established => cases hstate
  | closing => cases hstate

/-- What the parser waits behind is an end of what it has seen. -/
theorem parse_wait_suffix (srv : SocksServer) {state state' : S5State} {rxbuf rest : List Byte}
    (h : (parse srv state rxbuf).verdict = .wait state' rest) : rest <:+ rxbuf := by
  have hrequest : ∀ {rxbuf}, parseRequest rxbuf = .wait state' rest → rest <:+ rxbuf := by
    intro rxbuf hv
    have hown := parseRequest_at rxbuf
    rw [hv] at hown
    rw [hown.2]
  have huser : ∀ {rxbuf}, (parseUserpass srv rxbuf).verdict = .wait state' rest →
      rest <:+ rxbuf := by
    intro rxbuf hv
    unfold parseUserpass at hv
    simp only at hv
    split_ifs at hv
    · cases hv; exact List.suffix_refl _
    · cases hv; exact List.suffix_refl _
    · cases hv; exact List.suffix_refl _
    · exact (hrequest hv).trans (List.drop_suffix _ _)
  have hfrom : ∀ {state rxbuf}, (parseFrom srv state rxbuf).verdict = .wait state' rest →
      rest <:+ rxbuf := by
    intro state rxbuf hv
    cases state with
    | userpass => exact huser hv
    | auth => exact hrequest hv
    | init => cases hv; exact List.suffix_refl _
    | resolving => cases hv; exact List.suffix_refl _
    | connecting => cases hv; exact List.suffix_refl _
    | established => cases hv; exact List.suffix_refl _
    | closing => cases hv; exact List.suffix_refl _
  unfold parse at h
  split_ifs at h
  · unfold parseGreeting at h
    simp only at h
    split_ifs at h
    · cases h; exact List.suffix_refl _
    · cases h; exact List.suffix_refl _
    · exact (hfrom h).trans (List.drop_suffix _ _)
  · exact hfrom h

section Step

variable {cutOk : Prop} {srv : SocksServer} {s : Socks} (env : SocksEnv)

/-- A read that the buffer has no room for comes only where reads may be cut, or behind the gate. -/
def readFits (cutOk : Prop) (s : Socks) (e : SocksEnv × SocksEvent) : Prop :=
  cutOk ∨ ∀ data, e.2 = .read data → s.conn.state = .init ∨ s.conn.state = .userpass →
    data.length ≤ rxbufSize - s.conn.rxbuf.length

/-- The replies of a read of the handshake read nothing more. -/
theorem Advanced.readBytes {replies : List (List Byte)} {state : S5State} {rest data : List Byte}
    {s2 : Socks} (h : Advanced env replies state rest (s.buffered data) s2) :
    readBytes s2.trace = readBytes s.trace ++ data := by
  obtain ⟨new, hnew, hall, -⟩ := h.trace
  have hnewread : Wgx.readBytes new = [] := by
    refine readBytes_of_isWrite fun e he => ?_
    obtain ⟨d, rfl | rfl⟩ := hall e he <;> rfl
  rw [hnew, readBytes_append, hnewread, List.append_nil]
  simp only [Socks.buffered, Socks.update_trace, Socks.log_trace, readBytes_append]
  simp [Wgx.readBytes, bytesOf]

theorem gateInv_shaking (hreq : srv.authRequired = true) (h : GateInv cutOk srv s)
    (hinv : SocksInv s) (hlive : s.conn.closing = false) (hstate : s.conn.state.isShaking = true)
    {data : List Byte} (hfit : readFits cutOk s (env, .read data)) :
    GateInv cutOk srv (onClientRead srv env data s) := by
  obtain ⟨s2, state, rest, hadv, hat, -, hready, hdo⟩ :=
    onClientRead_shaking srv env hinv hlive hstate data
  have hreply := (fits_parse srv hstate (s.buffered data).conn.rxbuf).2
  have hst : s2.conn.state = state := by rw [hadv.conn]
  have hrx : s2.conn.rxbuf = rest := by rw [hadv.conn]
  have hshake := parse_at_isShaking srv hstate hat
  obtain ⟨new, hnew, hall, -⟩ := hadv.trace
  have hread := hadv.readBytes
  -- before the gate, the parser has seen what was kept and what the buffer has taken of the read
  have hkept : s.conn.state = .init ∨ s.conn.state = .userpass →
      ∃ kept, (parse srv .init kept).verdict =
          (parse srv s.conn.state (s.buffered data).conn.rxbuf).verdict ∧
        KeptBytes cutOk kept (readBytes s2.trace) := by
    intro hbefore
    obtain ⟨kept, hparse, hagree⟩ := h.before hlive hbefore
    refine ⟨kept ++ data.take (rxbufSize - s.conn.rxbuf.length), ?_, ?_⟩
    · rw [parse_append, Parsed.continue, hparse]
      rfl
    · rw [hread]
      refine hagree.read (parse_wait_suffix srv hparse).length_le ?_
      exact hfit.imp_right fun hroom => hroom data rfl hbefore
  have hadm : state = .auth → Admitted cutOk srv (readBytes s2.trace) := by
    rintro rfl
    by_cases hbefore : s.conn.state = .init ∨ s.conn.state = .userpass
    · obtain ⟨kept, hparse, hagree⟩ := hkept hbefore
      rw [← hparse] at hat
      exact hagree.admitted (authenticates_of_parse hreq hat)
    · have hauth : s.conn.state = .auth := by
        cases hs : s.conn.state <;> simp_all [S5State.isShaking]
      have hold := h.behind (by rw [hauth]; rfl)
      rw [hread]
      exact hold.mono (List.prefix_append _ _)
  have hcalls : ∀ pre e post, s2.trace = pre ++ e :: post → e.isCall = true →
      Admitted cutOk srv (readBytes pre) := by
    have htrace : s2.trace = s.trace ++ (.read data :: new) := by
      rw [hnew]
      simp [Socks.buffered]
    rw [htrace]
    refine calls_append h.calls fun pre e post hsplit hcall => ?_
    have hmem : e ∈ SocksEntry.read data :: new := by rw [hsplit]; simp
    rcases List.mem_cons.1 hmem with rfl | hmem
    · cases hcall
    · obtain ⟨d, rfl | rfl⟩ := hall e hmem <;> cases hcall
  rw [hdo]
  cases hv : (parse srv s.conn.state (s.buffered data).conn.rxbuf).verdict with
  | wait state' rest' =>
    rw [hv] at hat hkept
    obtain ⟨rfl, rfl⟩ := hat
    refine ⟨fun _ hbefore => ?_, fun hadmitted => ?_, hcalls, ?_⟩
    · rw [conclude, hst] at hbefore ⊢
      rw [hrx]
      refine hkept ?_
      -- the state does not go back
      by_contra hno
      have hauth : s.conn.state = .auth := by
        cases hs : s.conn.state <;> simp_all [S5State.isShaking]
      rw [hauth] at hv
      have hown := parseRequest_at (s.buffered data).conn.rxbuf
      rw [show parseRequest (s.buffered data).conn.rxbuf = .wait state' rest' from hv] at hown
      rw [hown.1] at hbefore
      simp at hbefore
    · rw [conclude, hst] at hadmitted
      refine hadm ?_
      cases state' <;> simp_all [S5State.isShaking, S5State.isAdmitted]
    · rw [conclude, hst]
      rintro rfl
      cases hshake
  | refused state' reply =>
    have hside := @writeSide_refuse (fun _ => True) env trivial trivial reply s2
    obtain ⟨more, hmore, hwrites⟩ := hside.trace
    have hmoreread : readBytes more = [] :=
      readBytes_of_isWrite fun e he => (hwrites e he).isWrite
    refine ⟨fun hno => ?_, fun hadmitted => ?_, ?_, ?_⟩
    · rw [conclude, closing_refuse env reply fun _ => hready.isOpen] at hno
      cases hno
    · rw [conclude, state_refuse, hst] at hadmitted
      rw [conclude, hmore, readBytes_append, hmoreread, List.append_nil]
      refine hadm ?_
      cases state <;> simp_all [S5State.isShaking, S5State.isAdmitted]
    · rw [conclude, hmore]
      refine calls_append hcalls fun pre e post hsplit hcall => ?_
      rw [isCall_of_isWrite (hwrites e (by rw [hsplit]; simp)).isWrite] at hcall
      cases hcall
    · rw [conclude, state_refuse, hst]
      rintro rfl
      cases hshake
  | request msg rest' =>
    rw [hv] at hat
    have hreq' := dispatched_request srv env hready
      (data.drop (rxbufSize - s.conn.rxbuf.length)) msg rest'
    refine gateInv_dispatched hreq' ?_ ?_ (.inl (hst.trans hat.1))
    · simp only [Socks.update_trace, Socks.log_trace]
      refine calls_append hcalls fun pre e post hsplit hcall => ?_
      have hmem : e ∈ [SocksEntry.request (rest' ++ data.drop (rxbufSize - s.conn.rxbuf.length))] := by
        rw [hsplit]; simp
      rw [List.mem_singleton] at hmem
      rw [hmem] at hcall
      cases hcall
    · simp only [Socks.update_trace, Socks.log_trace, readBytes_append]
      exact (hadm hat.1).mono (List.prefix_append _ _)

theorem gateInv_onClientRead (hreq : srv.authRequired = true) (h : GateInv cutOk srv s)
    (hinv : SocksInv s) (hlive : s.conn.closing = false) {data : List Byte}
    (hfit : readFits cutOk s (env, .read data)) :
    GateInv cutOk srv (onClientRead srv env data s) := by
  by_cases hshake : s.conn.state.isShaking = true
  · exact gateInv_shaking env hreq h hinv hlive hshake hfit
  have hne := h.state
  have hstate : s.conn.state = .established ∨ s.conn.state = .connecting ∨
      s.conn.state = .resolving := by
    cases hs : s.conn.state <;> simp_all [S5State.isShaking]
  have hlate : ¬ (s.conn.state = .init ∨ s.conn.state = .userpass) := by
    rcases hstate with hs | hs | hs <;> simp [hs]
  have hlog : GateInv cutOk srv (s.log (.read data)) := by
    refine h.frame rfl rfl ?_ fun _ hst => absurd hst hlate
    simp [SocksEntry.isCall]
  rw [onClientRead_late srv env data hstate]
  obtain ⟨s1, hside, hdo | hdo⟩ :=
    @clientReadEstablished_cases env data (s.log (.read data)) (hinv.isOpen hlive)
  · rw [hdo]
    exact hlog.readSide hside hlate
  · rw [hdo]
    exact (hlog.readSide hside hlate).writeSide
      (@writeSide_socks5ConnClose (fun _ => True) env _ trivial _)

/-- Behind the resolver, a tunnel has let the client in. -/
theorem GateInv.admitted_of_tunnel (h : GateInv cutOk srv s) (hinv : SocksInv s)
    (htunnel : s.conn.wgConn.isSome = true) :
    (s.conn.state = .connecting ∨ s.conn.state = .established) ∧
      Admitted cutOk srv (readBytes s.trace) := by
  have hlate := hinv.late_of_tunnel htunnel
  have hne := h.state
  have hstate : s.conn.state = .connecting ∨ s.conn.state = .established := by
    cases hs : s.conn.state <;> simp_all [S5State.isShaking]
  refine ⟨hstate, h.behind ?_⟩
  rcases hstate with hs | hs <;> rw [hs] <;> rfl

theorem gateInv_wgOnConnect (h : GateInv cutOk srv s) (hinv : SocksInv s)
    (htunnel : s.conn.wgConn.isSome = true) (status : ℤ) :
    GateInv cutOk srv (wgOnConnect env status s) := by
  obtain ⟨-, hadm⟩ := h.admitted_of_tunnel hinv htunnel
  unfold wgOnConnect
  simp only
  split_ifs with hclosed hfail
  · exact h
  · exact h.writeSide (@writeSide_refuse (fun _ => True) env trivial trivial _ s)
  all_goals
    have hest : GateInv cutOk srv (s.update fun conn => { conn with state := .established }) :=
      ⟨fun _ hst => by simp at hst, fun _ => hadm, h.calls, nofun⟩
    have hside := @writeSide_clientWrite (fun _ => True) env trivial (replyBytes s5RepOk)
      (s.update fun conn => { conn with state := .established })
  · refine (hest.writeSide hside).readSide (readSide_flushPendingToWg env _) ?_
    rw [hside.state]
    simp
  · exact hest.writeSide hside

/-- The gate is kept by every event whose read fits. -/
theorem gateInv_step (hreq : srv.authRequired = true) (h : GateInv cutOk srv s)
    (hinv : SocksInv s) {e : SocksEnv × SocksEvent} (hfit : readFits cutOk s e) :
    GateInv cutOk srv (socksStep srv s e) := by
  obtain ⟨env, e⟩ := e
  unfold socksStep
  split_ifs with hskip
  · exact h
  have henabled : e.enabled s.conn := by
    by_contra hno
    exact hskip (.inr hno)
  cases e with
  | read data => exact gateInv_onClientRead env hreq h hinv (hinv.live_of_reading henabled.1) hfit
  | readEnd nread => exact h.writeSide (@writeSide_onClientReadEnd (fun _ => True) env trivial nread s)
  | resolved shuttingDown domain answer =>
    have hlive := hinv.live_of_waiting henabled
    have hstate := hinv.waiting henabled
    have hshake := hinv.shaking hlive (.inr hstate)
    have hroom : Shaking s.conn 4 :=
      ⟨hshake.isOpen, hshake.noTunnel, hshake.small.trans (replyRoom_le _)⟩
    exact gateInv_dispatched
      (dispatched_dnsQueryFinish env srv hroom hlive shuttingDown domain answer) h.calls
      (h.behind (by rw [hstate]; rfl)) (.inr hstate)
  | tunnel t =>
    refine h.frame rfl (List.append_nil _).symm (by simp) fun hlive _ => ?_
    exact ⟨hlive, rfl, rfl⟩
  | connect status => exact gateInv_wgOnConnect env h hinv henabled status
  | data data => exact h.writeSide (@writeSide_wgOnData (fun _ => True) env trivial data s)
  | writeable =>
    refine h.readSide (readSide_wgOnWriteable env s) ?_
    rcases (h.admitted_of_tunnel hinv henabled).1 with hs | hs <;> simp [hs]
  | close => exact h.writeSide (@writeSide_wgOnClose (fun _ => True) env trivial s)
  | check => exact h.writeSide (@writeSide_flushCheck (fun _ => True) env trivial s)
  | writeDone status => exact h.writeSide (@writeSide_writeDoneCb (fun _ => True) env trivial status s)
  | closeCb => exact h.writeSide (@writeSide_clientCloseCb (fun _ => True) env s)

theorem gateInv_run (hreq : srv.authRequired = true) {es : List (SocksEnv × SocksEvent)}
    (hfit : Machine.Guarded (socksStep srv) (readFits cutOk) .accept es) :
    GateInv cutOk srv (socksRun srv es) := by
  have hboth := @Machine.run_induction _ _ (socksStep srv) (readFits cutOk)
    (fun s => SocksInv s ∧ GateInv cutOk srv s)
    (fun s e hs hok => ⟨socksInv_step srv hs.1 e, gateInv_step hreq hs.2 hs.1 hok⟩) .accept
    ⟨socksInv_accept, gateInv_accept⟩ es hfit
  exact hboth.2

end Step

/-! ### The gate -/

theorem getD_toNat_le {l l' : List Byte} (h : l <+: l') (i : ℕ) :
    (l.getD i 0).toNat ≤ (l'.getD i 0).toNat := by
  obtain ⟨tail, rfl⟩ := h
  by_cases hi : i < l.length
  · rw [List.getD_append _ _ _ _ hi]
  · rw [List.getD_eq_default _ _ (by omega)]
    exact Nat.zero_le _

/-- The reads before the gate fit the handshake buffer in every state of the run, or the greeting
and the server's credentials fit it together. -/
def HandshakeFits (srv : SocksServer) (es : List (SocksEnv × SocksEvent)) : Prop :=
  Machine.Guarded (socksStep srv) (readFits False) .accept es ∨
    5 + ((readBytes (socksRun srv es).trace).getD 1 0).toNat + srv.authUser.length +
      srv.authPass.length ≤ rxbufSize

/-- **The authentication gate.**  In every run in which the handshake fits its buffer, the state is
one behind the gate only if the client's bytes begin with a greeting that offers the method and the
server's user and password; and every call of `tcpstack_connect` and `dns_start_query` comes when
the client has sent them. -/
theorem authentication_gate (srv : SocksServer) (hreq : srv.authRequired = true)
    (es : List (SocksEnv × SocksEvent)) (hfit : HandshakeFits srv es) :
    ((socksRun srv es).conn.state.isAdmitted = true →
      Authenticates srv (readBytes (socksRun srv es).trace)) ∧
    ∀ pre e post, (socksRun srv es).trace = pre ++ e :: post → e.isCall = true →
      Authenticates srv (readBytes pre) := by
  rcases hfit with hfits | hsize
  · have hgate := gateInv_run hreq hfits
    exact ⟨fun hadm => (hgate.behind hadm).authenticates nofun,
      fun pre e post hsplit hcall => (hgate.calls pre e post hsplit hcall).authenticates nofun⟩
  · have hgate := gateInv_run hreq
      (Machine.guarded_of_always (socksStep srv) (fun _ _ => Or.inl trivial) .accept es)
    refine ⟨fun hadm => (hgate.behind hadm).authenticates fun _ => hsize,
      fun pre e post hsplit hcall => (hgate.calls pre e post hsplit hcall).authenticates fun _ => ?_⟩
    -- a call comes when the second byte was read, or before it
    have hpre : readBytes pre <+: readBytes (socksRun srv es).trace := by
      rw [hsplit, readBytes_append]
      exact List.prefix_append _ _
    have hsecond := getD_toNat_le hpre 1
    omega

/-! ### Handshakes to try it on -/

/-- An environment with memory, where nothing is cached and tunnels open at the sequence number `0`. -/
def exampleSocksEnv : SocksEnv where
  malloc _ := true
  realloc _ _ := true
  uvWrite := 0
  connect := some 0
  dnsCacheLookup _ := none
  dnsStartQuery _ := .pending

/-- A server that asks for `user` and `pass`. -/
def passwordServer (user pass : List Byte) : SocksServer := ⟨true, user, pass, false⟩

/-- A greeting with the one method, and the sub-negotiation, in one read. -/
def shortHandshake : List (SocksEnv × SocksEvent) :=
  [(exampleSocksEnv, .read ([5, 1, 2] ++ userpassMessage [117] [112]))]

/-- A client that sends its user and password is let in, and has sent them. -/
theorem authentication_gate_short :
    HandshakeFits (passwordServer [117] [112]) shortHandshake ∧
      (socksRun (passwordServer [117] [112]) shortHandshake).conn.state = .auth ∧
      Authenticates (passwordServer [117] [112])
        (readBytes (socksRun (passwordServer [117] [112]) shortHandshake).trace) := by
  have hfit : HandshakeFits (passwordServer [117] [112]) shortHandshake := .inr (by decide +kernel)
  have hstate : (socksRun (passwordServer [117] [112]) shortHandshake).conn.state = .auth := by
    decide +kernel
  exact ⟨hfit, hstate, (authentication_gate _ rfl shortHandshake hfit).1 (by rw [hstate]; rfl)⟩

/-- Where the messages stand in bytes that authenticate. -/
theorem Authenticates.message {srv : SocksServer} {bytes : List Byte} (h : Authenticates srv bytes) :
    (bytes.drop (2 + (bytes.getD 1 0).toNat)).take
      (userpassMessage srv.authUser srv.authPass).length =
        userpassMessage srv.authUser srv.authPass := by
  obtain ⟨-, -, greeting, ⟨ver, methods, hlen, -, rfl⟩, tail, rfl⟩ := h
  have hsecond : ((ver :: BitVec.ofNat 8 methods.length :: methods ++
      userpassMessage srv.authUser srv.authPass ++ tail).getD 1 0).toNat = methods.length := by
    simp only [List.cons_append, List.getD_cons_succ, List.getD_cons_zero, BitVec.toNat_ofNat]
    exact Nat.mod_eq_of_lt (by omega)
  have hhead : (ver :: BitVec.ofNat 8 methods.length :: methods).length = 2 + methods.length := by
    simp only [List.length_cons]
    omega
  rw [hsecond, ← hhead, List.append_assoc, List.drop_left, List.take_left]

/-- A user of 200 bytes and a password of 100. -/
def longServer : SocksServer := passwordServer (List.replicate 200 117) (List.replicate 100 112)

/-- The first read holds a greeting with 255 methods, as much of the sub-negotiation as the buffer
takes, and one byte more, which is lost; the second the rest of the sub-negotiation. -/
def cutHandshake : List (SocksEnv × SocksEvent) :=
  [(exampleSocksEnv, .read (5 :: 255 :: List.replicate 255 2 ++
      (userpassMessage longServer.authUser longServer.authPass).take 255 ++ [0])),
    (exampleSocksEnv, .read ((userpassMessage longServer.authUser longServer.authPass).drop 255))]

/-- The client gets in with a password that has a byte too many. -/
theorem cut_handshake_admitted :
    longServer.authRequired = true ∧ (socksRun longServer cutHandshake).conn.state = .auth ∧
      ¬ Authenticates longServer (readBytes (socksRun longServer cutHandshake).trace) := by
  refine ⟨rfl, by decide +kernel, fun hauth => ?_⟩
  have hmsg := hauth.message
  revert hmsg
  decide +kernel

end Wgx
