import Mathlib.Data.List.GetD
import Wgx.Socks5.Frame

/-!
# The SOCKS5 handshake as a parser

`parse` is the handshake without the connection around it: from a state and the bytes of the
handshake buffer to the replies that are sent and the `Verdict`: more bytes are needed, the client
is refused, or its request is complete.

* `parse_append`: how the bytes arrive does not matter to the parser;
* `processHandshake_spec`: what the read callback does is what the parser says;
* `authenticated_of_parse`: a server that asks for a password gets it before anything else.
-/

namespace Wgx

/-- What a part of the handshake leads to: the state in which more bytes are needed behind `rest`,
the state in which the client is refused, or a complete request `msg` with what stands behind
it. -/
inductive Verdict
  | wait (state : S5State) (rest : List Byte)
  | refused (state : S5State) (reply : List Byte)
  | request (msg rest : List Byte)
  deriving DecidableEq

/-- The replies on the way, and what they lead to. -/
structure Parsed where
  replies : List (List Byte)
  verdict : Verdict
  deriving DecidableEq

/-- A reply before all others. -/
def Parsed.reply (p : Parsed) (reply : List Byte) : Parsed := ⟨reply :: p.replies, p.verdict⟩

/-- The request: `process_connect_request`. -/
def parseRequest (rxbuf : List Byte) : Verdict :=
  if rxbuf.length < 4 then .wait .auth rxbuf
  else if rxbuf.getD 0 0 ≠ s5Ver ∨ rxbuf.getD 1 0 ≠ s5CmdConnect then
    .refused .auth (replyBytes s5RepFail)
  else
    match requestLen rxbuf with
    | none => .refused .auth (replyBytes s5RepFail)
    | some none => .wait .auth rxbuf
    | some (some needed) =>
      if rxbuf.length < needed then .wait .auth rxbuf
      else .request (rxbuf.take needed) (rxbuf.drop needed)

section Parser

variable (srv : SocksServer)

/-- The sub-negotiation: `process_userpass_auth`, and the request behind it. -/
def parseUserpass (rxbuf : List Byte) : Parsed :=
  if rxbuf.length < 2 then ⟨[], .wait .userpass rxbuf⟩
  else if rxbuf.getD 0 0 ≠ s5UserpassVer then ⟨[], .refused .userpass [s5UserpassVer, 1]⟩
  else
    let ulen := (rxbuf.getD 1 0).toNat
    if ulen = 0 then ⟨[], .refused .userpass [s5UserpassVer, 1]⟩
    else if rxbuf.length < 2 + ulen + 1 then ⟨[], .wait .userpass rxbuf⟩
    else
      let plen := (rxbuf.getD (2 + ulen) 0).toNat
      if rxbuf.length < 3 + ulen + plen then ⟨[], .wait .userpass rxbuf⟩
      else if (rxbuf.drop 2).take ulen = srv.authUser ∧
          (rxbuf.drop (3 + ulen)).take plen = srv.authPass then
        ⟨[[s5UserpassVer, 0]], parseRequest (rxbuf.drop (3 + ulen + plen))⟩
      else ⟨[], .refused .userpass [s5UserpassVer, 1]⟩

/-- The handshake from the state `state` on. -/
def parseFrom (state : S5State) (rxbuf : List Byte) : Parsed :=
  match state with
  | .userpass => parseUserpass srv rxbuf
  | .auth => ⟨[], parseRequest rxbuf⟩
  | state => ⟨[], .wait state rxbuf⟩

/-- The greeting: `process_auth_request`, and what stands behind it. -/
def parseGreeting (rxbuf : List Byte) : Parsed :=
  if rxbuf.length < 2 then ⟨[], .wait .init rxbuf⟩
  else
    let nmethods := (rxbuf.getD 1 0).toNat
    if rxbuf.length < 2 + nmethods then ⟨[], .wait .init rxbuf⟩
    else
      let (selected, nextState) := selectMethod srv ((rxbuf.drop 2).take nmethods)
      if selected = s5AuthNoAcceptable then ⟨[], .refused .init [s5Ver, selected]⟩
      else (parseFrom srv nextState (rxbuf.drop (2 + nmethods))).reply [s5Ver, selected]

/-- The whole handshake from the state `state` on. -/
def parse (state : S5State) (rxbuf : List Byte) : Parsed :=
  if state = .init then parseGreeting srv rxbuf else parseFrom srv state rxbuf

/-- What was parsed is continued with the bytes `more`. -/
def Parsed.continue (p : Parsed) (more : List Byte) : Parsed :=
  match p.verdict with
  | .wait state rest =>
    let q := parse srv state (rest ++ more)
    ⟨p.replies ++ q.replies, q.verdict⟩
  | .refused _ _ => p
  | .request msg rest => ⟨p.replies, .request msg (rest ++ more)⟩

/-! ### The parser does not see how its bytes arrive -/

theorem take_drop_append_of_le {l : List Byte} {i n : ℕ} (h : i + n ≤ l.length) (l' : List Byte) :
    ((l ++ l').drop i).take n = (l.drop i).take n := by
  rw [List.drop_append_of_le_length (by omega), List.take_append_of_le_length]
  rw [List.length_drop]
  omega

/-- A length that is there stays. -/
theorem requestLen_append {rxbuf : List Byte} (h : 4 ≤ rxbuf.length)
    (hlen : requestLen rxbuf ≠ some none) (more : List Byte) :
    requestLen (rxbuf ++ more) = requestLen rxbuf := by
  unfold requestLen at hlen ⊢
  simp only [List.getD_append _ _ _ _ (show 3 < rxbuf.length by omega)] at hlen ⊢
  split_ifs at hlen ⊢ with h1 h2 h3 h4 h5
  · rfl
  · exact absurd rfl hlen
  · rw [List.length_append] at h3
    omega
  · exact absurd rfl hlen
  · rw [List.getD_append _ _ _ _ (by omega)]
  · rfl
  · rfl

/-- More bytes change a verdict on a request only where they were needed. -/
theorem parseRequest_append (rxbuf more : List Byte) :
    (⟨[], parseRequest (rxbuf ++ more)⟩ : Parsed) =
      (⟨[], parseRequest rxbuf⟩ : Parsed).continue srv more := by
  -- a verdict that waits is continued by parsing the whole again
  have hwait : ∀ v, v = Verdict.wait .auth rxbuf →
      (⟨[], parseRequest (rxbuf ++ more)⟩ : Parsed) = (⟨[], v⟩ : Parsed).continue srv more := by
    rintro v rfl
    rfl
  by_cases h4 : rxbuf.length < 4
  · exact hwait _ (if_pos h4)
  have hlong : ¬ (rxbuf ++ more).length < 4 := by rw [List.length_append]; omega
  by_cases hbad : rxbuf.getD 0 0 ≠ s5Ver ∨ rxbuf.getD 1 0 ≠ s5CmdConnect
  · have hbad' : (rxbuf ++ more).getD 0 0 ≠ s5Ver ∨ (rxbuf ++ more).getD 1 0 ≠ s5CmdConnect := by
      rwa [List.getD_append _ _ _ _ (by omega), List.getD_append _ _ _ _ (by omega)]
    rw [parseRequest, parseRequest, if_neg hlong, if_pos hbad', if_neg h4, if_pos hbad]
    rfl
  have hgood : ¬ ((rxbuf ++ more).getD 0 0 ≠ s5Ver ∨ (rxbuf ++ more).getD 1 0 ≠ s5CmdConnect) := by
    rwa [List.getD_append _ _ _ _ (by omega), List.getD_append _ _ _ _ (by omega)]
  cases hlen : requestLen rxbuf with
  | none =>
    have hlen' := requestLen_append (Nat.le_of_not_lt h4) (by rw [hlen]; nofun) more
    rw [parseRequest, parseRequest, if_neg hlong, if_neg hgood, if_neg h4, if_neg hbad, hlen',
      hlen]
    rfl
  | some len =>
    cases len with
    | none =>
      refine hwait _ ?_
      rw [parseRequest, if_neg h4, if_neg hbad, hlen]
    | some needed =>
      by_cases hneed : rxbuf.length < needed
      · refine hwait _ ?_
        rw [parseRequest, if_neg h4, if_neg hbad, hlen]
        exact if_pos hneed
      · have hlen' := requestLen_append (Nat.le_of_not_lt h4) (by rw [hlen]; nofun) more
        have hneed' : ¬ (rxbuf ++ more).length < needed := by rw [List.length_append]; omega
        rw [parseRequest, parseRequest, if_neg hlong, if_neg hgood, if_neg h4, if_neg hbad, hlen',
          hlen]
        simp only [if_neg hneed, if_neg hneed', Parsed.continue]
        rw [List.take_append_of_le_length (by omega), List.drop_append_of_le_length (by omega)]

theorem Parsed.continue_reply (p : Parsed) (reply more : List Byte) :
    (p.reply reply).continue srv more = (p.continue srv more).reply reply := by
  obtain ⟨replies, verdict⟩ := p
  cases verdict <;> rfl

theorem parseUserpass_append (rxbuf more : List Byte) :
    parseUserpass srv (rxbuf ++ more) = (parseUserpass srv rxbuf).continue srv more := by
  have hwait : ∀ p, p = (⟨[], .wait .userpass rxbuf⟩ : Parsed) →
      parseUserpass srv (rxbuf ++ more) = p.continue srv more := by
    rintro p rfl
    rfl
  by_cases h2 : rxbuf.length < 2
  · exact hwait _ (if_pos h2)
  have h2' : ¬ (rxbuf ++ more).length < 2 := by rw [List.length_append]; omega
  by_cases hver : rxbuf.getD 0 0 ≠ s5UserpassVer
  · have hver' : (rxbuf ++ more).getD 0 0 ≠ s5UserpassVer := by
      rwa [List.getD_append _ _ _ _ (by omega)]
    rw [parseUserpass, parseUserpass, if_neg h2', if_pos hver', if_neg h2, if_pos hver]
    rfl
  have hver' : ¬ (rxbuf ++ more).getD 0 0 ≠ s5UserpassVer := by
    rwa [List.getD_append _ _ _ _ (by omega)]
  have hulen : (rxbuf ++ more).getD 1 0 = rxbuf.getD 1 0 := List.getD_append _ _ _ _ (by omega)
  simp only [parseUserpass, if_neg h2', if_neg hver', hulen] at hwait ⊢
  simp only [if_neg h2, if_neg hver]
  generalize (rxbuf.getD 1 0).toNat = ulen at hwait ⊢
  by_cases hzero : ulen = 0
  · rw [if_pos hzero, if_pos hzero]
    rfl
  rw [if_neg hzero] at hwait
  rw [if_neg hzero, if_neg hzero]
  by_cases huser : rxbuf.length < 2 + ulen + 1
  · rw [if_pos huser]
    exact hwait _ rfl
  have huser' : ¬ (rxbuf ++ more).length < 2 + ulen + 1 := by rw [List.length_append]; omega
  have hplen : (rxbuf ++ more).getD (2 + ulen) 0 = rxbuf.getD (2 + ulen) 0 :=
    List.getD_append _ _ _ _ (by omega)
  rw [if_neg huser', hplen] at hwait
  rw [if_neg huser', if_neg huser, hplen]
  generalize (rxbuf.getD (2 + ulen) 0).toNat = plen at hwait ⊢
  by_cases hpass : rxbuf.length < 3 + ulen + plen
  · rw [if_pos hpass]
    exact hwait _ rfl
  have hpass' : ¬ (rxbuf ++ more).length < 3 + ulen + plen := by rw [List.length_append]; omega
  rw [if_neg hpass', if_neg hpass, take_drop_append_of_le (by omega),
    take_drop_append_of_le (by omega)]
  split_ifs
  · have hrest : (rxbuf ++ more).drop (3 + ulen + plen) = rxbuf.drop (3 + ulen + plen) ++ more :=
      List.drop_append_of_le_length (by omega)
    have hreq := parseRequest_append srv (rxbuf.drop (3 + ulen + plen)) more
    rw [hrest]
    exact (congrArg (fun p => p.reply [s5UserpassVer, 0]) hreq).trans
      (Parsed.continue_reply srv _ _ _).symm
  · rfl

theorem parseFrom_append {state : S5State} (hstate : state ≠ .init) (rxbuf more : List Byte) :
    parseFrom srv state (rxbuf ++ more) = (parseFrom srv state rxbuf).continue srv more := by
  have hidle : (⟨[], .wait state (rxbuf ++ more)⟩ : Parsed) = parseFrom srv state (rxbuf ++ more) →
      parseFrom srv state (rxbuf ++ more) =
        (⟨[], .wait state rxbuf⟩ : Parsed).continue srv more := by
    intro _
    simp only [Parsed.continue, parse, if_neg hstate, List.nil_append]
  cases state with
  | init => exact absurd rfl hstate
  | userpass => exact parseUserpass_append srv rxbuf more
  | auth => exact parseRequest_append srv rxbuf more
  | resolving => exact hidle rfl
  | connecting => exact hidle rfl
  | established => exact hidle rfl
  | closing => exact hidle rfl

theorem selectMethod_ne_init {methods : List Byte}
    (h : (selectMethod srv methods).1 ≠ s5AuthNoAcceptable) :
    (selectMethod srv methods).2 = .userpass ∨ (selectMethod srv methods).2 = .auth := by
  unfold selectMethod at h ⊢
  split_ifs at h ⊢ <;> simp at h ⊢

theorem parseGreeting_append (rxbuf more : List Byte) :
    parseGreeting srv (rxbuf ++ more) = (parseGreeting srv rxbuf).continue srv more := by
  have hwait : ∀ p, p = (⟨[], .wait .init rxbuf⟩ : Parsed) →
      parseGreeting srv (rxbuf ++ more) = p.continue srv more := by
    rintro p rfl
    rfl
  by_cases h2 : rxbuf.length < 2
  · exact hwait _ (if_pos h2)
  have h2' : ¬ (rxbuf ++ more).length < 2 := by rw [List.length_append]; omega
  have hn : (rxbuf ++ more).getD 1 0 = rxbuf.getD 1 0 := List.getD_append _ _ _ _ (by omega)
  simp only [parseGreeting, if_neg h2', hn] at hwait ⊢
  simp only [if_neg h2]
  generalize (rxbuf.getD 1 0).toNat = nmethods at hwait ⊢
  by_cases hlen : rxbuf.length < 2 + nmethods
  · rw [if_pos hlen]
    exact hwait _ rfl
  have hlen' : ¬ (rxbuf ++ more).length < 2 + nmethods := by rw [List.length_append]; omega
  rw [if_neg hlen', if_neg hlen, take_drop_append_of_le (by omega)]
  have hnext := @selectMethod_ne_init srv ((rxbuf.drop 2).take nmethods)
  generalize selectMethod srv ((rxbuf.drop 2).take nmethods) = choice at hnext ⊢
  obtain ⟨selected, nextState⟩ := choice
  simp only at hnext ⊢
  split_ifs with hsel
  · rfl
  · have hstate : nextState ≠ .init := by
      rcases hnext hsel with rfl | rfl <;> nofun
    rw [List.drop_append_of_le_length (by omega), parseFrom_append srv hstate,
      Parsed.continue_reply]

/-- **The parser does not see how its bytes arrive**: what was parsed of the first bytes is
continued with the others to what is parsed of all of them. -/
theorem parse_append (state : S5State) (rxbuf more : List Byte) :
    parse srv state (rxbuf ++ more) = (parse srv state rxbuf).continue srv more := by
  by_cases hstate : state = .init
  · simp only [parse, if_pos hstate]
    exact parseGreeting_append srv rxbuf more
  · simp only [parse, if_neg hstate]
    exact parseFrom_append srv hstate rxbuf more

end Parser

/-! ### Small replies -/

/-- The connection with `data` behind its output, where there is memory for it. -/
def SocksConn.give (conn : SocksConn) (data : List Byte) : SocksConn :=
  { conn with
    outbuf := conn.outbuf ++ data
    outbufCap :=
      if conn.outbufCap ≥ conn.outbuf.length + data.length then conn.outbufCap
      else reserveCap (conn.outbuf.length + data.length) (conn.outbuf.length + data.length)
        (if conn.outbufCap ≠ 0 then conn.outbufCap else 1024)
    writeState := if conn.writeState = .idle then .queued else conn.writeState }

/-- The handshake has moved on to `state` and `rest`: replies were queued, and nothing else
happened. -/
structure Advanced (env : SocksEnv) (replies : List (List Byte)) (state : S5State)
    (rest : List Byte) (s s' : Socks) : Prop where
  conn : s'.conn = { s.conn with
    state := state, rxbuf := rest, outbuf := s'.conn.outbuf, outbufCap := s'.conn.outbufCap,
    writeState := s'.conn.writeState }
  isOpen : s'.conn.writeState ≠ .closed
  trace : ∃ new, s'.trace = s.trace ++ new ∧ (∀ e ∈ new, ∃ data, e = .given data ∨ e = .dropped data) ∧
    givenBytes new = replies.flatten ∧
    s'.conn.outbuf.length + (droppedBytes new).length =
      s.conn.outbuf.length + replies.flatten.length ∧
    (droppedBytes new = [] → s'.conn.outbuf = s.conn.outbuf ++ replies.flatten)
  exact : (∀ conn n, env.realloc conn n = true) →
    s'.conn = { replies.foldl SocksConn.give s.conn with state := state, rxbuf := rest } ∧
    s'.trace = s.trace ++ replies.map .given

section Advanced

variable {env : SocksEnv} {s s' s'' : Socks} {replies replies' : List (List Byte)}
  {state state' : S5State} {rest rest' : List Byte}

theorem Advanced.refl (hopen : s.conn.writeState ≠ .closed) :
    Advanced env [] s.conn.state s.conn.rxbuf s s where
  conn := rfl
  isOpen := hopen
  trace := ⟨[], by simp, by simp, rfl, rfl, fun _ => by simp⟩
  exact _ := ⟨rfl, by simp⟩

theorem foldl_give_state (replies : List (List Byte)) (conn : SocksConn) (state : S5State)
    (rest : List Byte) :
    replies.foldl SocksConn.give { conn with state := state, rxbuf := rest } =
      { replies.foldl SocksConn.give conn with state := state, rxbuf := rest } := by
  induction replies generalizing conn with
  | nil => rfl
  | cons reply replies ih => exact ih (conn.give reply)

theorem Advanced.trans (h : Advanced env replies state rest s s')
    (h' : Advanced env replies' state' rest' s' s'') :
    Advanced env (replies ++ replies') state' rest' s s'' where
  conn := by
    rw [h'.conn, h.conn]
  isOpen := h'.isOpen
  trace := by
    obtain ⟨new, hnew, hall, hgiven, hlen, hout⟩ := h.trace
    obtain ⟨new', hnew', hall', hgiven', hlen', hout'⟩ := h'.trace
    refine ⟨new ++ new', by rw [hnew', hnew, List.append_assoc], ?_, ?_, ?_, ?_⟩
    · exact List.forall_mem_append.2 ⟨hall, hall'⟩
    · rw [givenBytes_append, hgiven, hgiven', List.flatten_append]
    · rw [droppedBytes_append, List.length_append, List.flatten_append, List.length_append]
      omega
    · intro hdrop
      rw [droppedBytes_append, List.append_eq_nil_iff] at hdrop
      rw [hout' hdrop.2, hout hdrop.1, List.flatten_append, List.append_assoc]
  exact halloc := by
    obtain ⟨hconn, htrace⟩ := h.exact halloc
    obtain ⟨hconn', htrace'⟩ := h'.exact halloc
    refine ⟨?_, by rw [htrace', htrace, List.map_append, List.append_assoc]⟩
    rw [hconn', hconn, foldl_give_state, List.foldl_append]

/-- A message is taken off the buffer behind the replies. -/
theorem Advanced.consume (h : Advanced env replies state rest s s') (len : ℕ) :
    Advanced env replies state' (rest.drop len) s (consumeMessage len state' s') where
  conn := by
    have hrx : s'.conn.rxbuf = rest := by rw [h.conn]
    have hconn := congrArg (fun conn : SocksConn => { conn with
      state := state', rxbuf := s'.conn.rxbuf.drop len }) h.conn
    rw [← hrx]
    exact hconn
  isOpen := h.isOpen
  trace := h.trace
  exact halloc := by
    obtain ⟨hconn, htrace⟩ := h.exact halloc
    refine ⟨?_, htrace⟩
    simp only [consumeMessage, Socks.update_conn, hconn]

theorem updateWgRecvWindowState_of_none (h : s.conn.wgConn = none) :
    updateWgRecvWindowState env s = s := by
  rw [updateWgRecvWindowState, h]

/-- Data for which there is no memory is left out. -/
theorem clientWrite_of_none {data : List Byte} (hopen : s.conn.writeState ≠ .closed)
    (hdata : data ≠ [])
    (hres : reserveBuf env s.conn (s.conn.outbuf.length + data.length) = none) :
    clientWrite env data s = (s.log (.given data)).log (.dropped data) := by
  have hlen : data.length ≠ 0 := fun h => hdata (List.eq_nil_of_length_eq_zero h)
  have hskip : ¬ ((s.log (.given data)).conn.writeState = .closed ∨ data.length = 0) :=
    not_or.2 ⟨hopen, hlen⟩
  have hres' : reserveBuf env (s.log (.given data)).conn
      ((s.log (.given data)).conn.outbuf.length + data.length) = none := hres
  unfold clientWrite
  simp only
  rw [if_neg hskip, hres']

/-- Without a tunnel, a small amount of data is only queued. -/
theorem clientWrite_of_some {data : List Byte} {cap : ℕ} (hopen : s.conn.writeState ≠ .closed)
    (hdata : data ≠ []) (htunnel : s.conn.wgConn = none)
    (hsmall : s.conn.outbuf.length + data.length < socks5FlushSize)
    (hres : reserveBuf env s.conn (s.conn.outbuf.length + data.length) = some cap) :
    clientWrite env data s = ⟨{ s.conn with
      outbuf := s.conn.outbuf ++ data
      outbufCap := cap
      writeState := if s.conn.writeState = .idle then .queued else s.conn.writeState },
      s.trace ++ [.given data]⟩ := by
  have hlen : data.length ≠ 0 := fun h => hdata (List.eq_nil_of_length_eq_zero h)
  have hlt : ¬ (s.conn.outbuf ++ data).length ≥ socks5FlushSize := by
    rw [List.length_append]
    omega
  have hskip : ¬ ((s.log (.given data)).conn.writeState = .closed ∨ data.length = 0) :=
    not_or.2 ⟨hopen, hlen⟩
  have hres' : reserveBuf env (s.log (.given data)).conn
      ((s.log (.given data)).conn.outbuf.length + data.length) = some cap := hres
  unfold clientWrite
  simp only
  rw [if_neg hskip, hres']
  simp only
  generalize hgrown : ((s.log (.given data)).update fun conn =>
    { conn with outbuf := conn.outbuf ++ data, outbufCap := cap }) = grown
  have hnone : grown.conn.wgConn = none := by rw [← hgrown]; exact htunnel
  have hout : ¬ grown.conn.outbuf.length ≥ socks5FlushSize := by rw [← hgrown]; exact hlt
  rw [updateWgRecvWindowState_of_none hnone, if_neg hout, ← hgrown, scheduleClientFlush]
  by_cases hidle : s.conn.writeState = .idle
  · simp [hidle, Socks.update, Socks.log]
  · simp [hidle, Socks.update, Socks.log]

/-- A small reply without a tunnel is queued or left out. -/
theorem advanced_clientWrite (env : SocksEnv) {data : List Byte}
    (hopen : s.conn.writeState ≠ .closed) (htunnel : s.conn.wgConn = none) (hdata : data ≠ [])
    (hsmall : s.conn.outbuf.length + data.length < socks5FlushSize) :
    Advanced env [data] s.conn.state s.conn.rxbuf s (clientWrite env data s) := by
  cases hres : reserveBuf env s.conn (s.conn.outbuf.length + data.length) with
  | none =>
    rw [clientWrite_of_none hopen hdata hres]
    refine ⟨rfl, hopen, ⟨[.given data, .dropped data], by simp [Socks.log], ?_, ?_, ?_, ?_⟩, ?_⟩
    · simp
    · simp [givenBytes, bytesOf]
    · simp [droppedBytes, bytesOf]
    · intro hdrop
      exact absurd (by simpa [droppedBytes, bytesOf] using hdrop) hdata
    · intro halloc
      simp only [reserveBuf, halloc, if_true] at hres
      split_ifs at hres
  | some cap =>
    rw [clientWrite_of_some hopen hdata htunnel hsmall hres]
    refine ⟨rfl, ?_, ⟨[.given data], rfl, by simp, by simp [givenBytes, bytesOf], ?_, ?_⟩, ?_⟩
    · simp only
      split_ifs <;> simp_all
    · simp [droppedBytes, bytesOf]
    · simp
    · intro halloc
      refine ⟨?_, rfl⟩
      have hcap : cap = if s.conn.outbufCap ≥ s.conn.outbuf.length + data.length
          then s.conn.outbufCap
          else reserveCap (s.conn.outbuf.length + data.length) (s.conn.outbuf.length + data.length)
            (if s.conn.outbufCap ≠ 0 then s.conn.outbufCap else 1024) := by
        unfold reserveBuf at hres
        simp only [halloc, if_true] at hres
        split_ifs at hres ⊢ <;> exact (Option.some.inj hres).symm
      simp only [List.foldl_cons, List.foldl_nil, SocksConn.give, ← hcap]

end Advanced

/-! ### The read callback follows the parser -/

/-- What the connection does about a verdict; `cut` are the bytes of the read that the buffer had no
room for. -/
def conclude (srv : SocksServer) (env : SocksEnv) (cut : List Byte) (s : Socks) :
    Verdict → Socks
  | .wait _ _ => s
  | .refused _ reply => refuse env reply s
  | .request msg rest => dispatchRequest srv env ((s.log (.request (rest ++ cut))).update fun conn =>
      { conn with targetPort := be16 s.conn.rxbuf (msg.length - 2) })

/-- The state and the buffer with which a verdict leaves the parser. -/
def Verdict.At (state : S5State) (rest : List Byte) : Verdict → Prop
  | .wait state' rest' => state' = state ∧ rest' = rest
  | .refused state' _ => state' = state
  | .request msg rest' => state = .auth ∧ rest = msg ++ rest'

section Spec

variable (srv : SocksServer) (env : SocksEnv) (cut : List Byte) {s : Socks}

theorem processConnectRequest_eq :
    processConnectRequest srv env cut s = conclude srv env cut s (parseRequest s.conn.rxbuf) := by
  unfold processConnectRequest parseRequest
  simp only
  split_ifs with h4 hbad
  · rfl
  · rfl
  cases requestLen s.conn.rxbuf with
  | none => rfl
  | some len =>
    cases len with
    | none => rfl
    | some needed =>
      simp only
      split_ifs with hneed
      · rfl
      · have hlen : (s.conn.rxbuf.take needed).length = needed := by
          rw [List.length_take]
          omega
        simp only [conclude, hlen]

theorem parseRequest_at (rxbuf : List Byte) : (parseRequest rxbuf).At .auth rxbuf := by
  unfold parseRequest
  split_ifs with h4 hbad
  · exact ⟨rfl, rfl⟩
  · rfl
  cases requestLen rxbuf with
  | none => rfl
  | some len =>
    cases len with
    | none => exact ⟨rfl, rfl⟩
    | some needed =>
      simp only
      split_ifs with hneed
      · exact ⟨rfl, rfl⟩
      · exact ⟨rfl, (List.take_append_drop needed rxbuf).symm⟩

/-- The connection is where a handshake can be: open, without a tunnel, with little output. -/
structure Shaking (conn : SocksConn) (room : ℕ) : Prop where
  isOpen : conn.writeState ≠ .closed
  noTunnel : conn.wgConn = none
  small : conn.outbuf.length ≤ room

theorem Advanced.shaking {env : SocksEnv} {replies : List (List Byte)} {state : S5State}
    {rest : List Byte} {s s' : Socks} {room : ℕ} (h : Advanced env replies state rest s s')
    (hs : Shaking s.conn room) : Shaking s'.conn (room + replies.flatten.length) where
  isOpen := h.isOpen
  noTunnel := by rw [h.conn]; exact hs.noTunnel
  small := by
    obtain ⟨new, -, -, -, hlen, -⟩ := h.trace
    have := hs.small
    omega

/-- The request in a connection that has got there by `replies`. -/
theorem connectIfReady_spec {s s1 : Socks} {replies : List (List Byte)} {rest : List Byte}
    (h : Advanced env replies .auth rest s s1) :
    ∃ s2 state rest', Advanced env replies state rest' s s2 ∧
      (parseRequest rest).At state rest' ∧
      connectIfReady srv env cut s1 = conclude srv env cut s2 (parseRequest rest) := by
  have hstate : s1.conn.state = .auth := by rw [h.conn]
  have hrx : s1.conn.rxbuf = rest := by rw [h.conn]
  refine ⟨s1, .auth, rest, h, parseRequest_at rest, ?_⟩
  unfold connectIfReady
  split_ifs with hready
  · rw [processConnectRequest_eq, hrx]
  · have hshort : rest.length < 4 := by
      rw [hrx] at hready
      by_contra hlong
      exact hready ⟨hstate, by omega⟩
    rw [parseRequest, if_pos hshort]
    rfl

theorem connectIfReady_of_ne (h : s.conn.state ≠ .auth) : connectIfReady srv env cut s = s :=
  if_neg fun hready => h hready.1

/-- What `process_userpass_auth` does, beside what the parser says. -/
theorem processUserpassAuth_cases :
    (processUserpassAuth srv env s = s ∧
      parseUserpass srv s.conn.rxbuf = ⟨[], .wait .userpass s.conn.rxbuf⟩) ∨
    (∃ reply, reply ≠ [] ∧ reply.length ≤ 2 ∧ processUserpassAuth srv env s = refuse env reply s ∧
      parseUserpass srv s.conn.rxbuf = ⟨[], .refused .userpass reply⟩) ∨
    ∃ len, processUserpassAuth srv env s =
        consumeMessage len .auth (clientWrite env [s5UserpassVer, 0] s) ∧
      parseUserpass srv s.conn.rxbuf =
        ⟨[[s5UserpassVer, 0]], parseRequest (s.conn.rxbuf.drop len)⟩ := by
  unfold processUserpassAuth parseUserpass
  simp only
  generalize (s.conn.rxbuf.getD 1 0).toNat = ulen
  generalize (s.conn.rxbuf.getD (2 + ulen) 0).toNat = plen
  split_ifs
  · exact .inl ⟨rfl, rfl⟩
  · exact .inr (.inl ⟨_, by simp, by simp, rfl, rfl⟩)
  · exact .inr (.inl ⟨_, by simp, by simp, rfl, rfl⟩)
  · exact .inl ⟨rfl, rfl⟩
  · exact .inl ⟨rfl, rfl⟩
  · exact .inr (.inr ⟨_, rfl, rfl⟩)
  · exact .inr (.inl ⟨_, by simp, by simp, rfl, rfl⟩)

/-- What `process_auth_request` does, beside what the parser says. -/
theorem processAuthRequest_cases :
    (processAuthRequest srv env s = s ∧
      parseGreeting srv s.conn.rxbuf = ⟨[], .wait .init s.conn.rxbuf⟩) ∨
    (∃ reply, reply ≠ [] ∧ reply.length ≤ 2 ∧ processAuthRequest srv env s = refuse env reply s ∧
      parseGreeting srv s.conn.rxbuf = ⟨[], .refused .init reply⟩) ∨
    ∃ len selected state, (state = .userpass ∨ state = .auth) ∧
      processAuthRequest srv env s =
        consumeMessage len state (clientWrite env [s5Ver, selected] s) ∧
      parseGreeting srv s.conn.rxbuf =
        (parseFrom srv state (s.conn.rxbuf.drop len)).reply [s5Ver, selected] := by
  unfold processAuthRequest parseGreeting
  simp only
  generalize (s.conn.rxbuf.getD 1 0).toNat = nmethods
  have hnext := @selectMethod_ne_init srv ((s.conn.rxbuf.drop 2).take nmethods)
  generalize selectMethod srv ((s.conn.rxbuf.drop 2).take nmethods) = choice at hnext ⊢
  obtain ⟨selected, nextState⟩ := choice
  simp only at hnext ⊢
  split_ifs with h1 h2 hsel
  · exact .inl ⟨rfl, rfl⟩
  · exact .inl ⟨rfl, rfl⟩
  · exact .inr (.inl ⟨_, by simp, by simp, rfl, rfl⟩)
  · exact .inr (.inr ⟨_, _, _, hnext hsel, rfl, rfl⟩)

/-- What `process_userpass_auth` and the request behind it do is what the parser says. -/
theorem processUserpass_spec {room : ℕ} (hs : Shaking s.conn room)
    (hroom : room + 2 < socks5FlushSize) (hstate : s.conn.state = .userpass) :
    ∃ s2 state rest, Advanced env (parseUserpass srv s.conn.rxbuf).replies state rest s s2 ∧
      (parseUserpass srv s.conn.rxbuf).verdict.At state rest ∧
      connectIfReady srv env cut (processUserpassAuth srv env s) =
        conclude srv env cut s2 (parseUserpass srv s.conn.rxbuf).verdict := by
  have hne : s.conn.state ≠ .auth := by rw [hstate]; nofun
  rcases processUserpassAuth_cases srv env with ⟨hdo, hsay⟩ | ⟨reply, -, -, hdo, hsay⟩ |
    ⟨len, hdo, hsay⟩
  · rw [hdo, hsay, connectIfReady_of_ne srv env cut hne]
    exact ⟨s, _, _, .refl hs.isOpen, ⟨hstate.symm, rfl⟩, rfl⟩
  · have hne' : (refuse env reply s).conn.state ≠ .auth := by
      rwa [state_refuse]
    rw [hdo, hsay, connectIfReady_of_ne srv env cut hne']
    exact ⟨s, _, _, .refl hs.isOpen, hstate.symm, rfl⟩
  · have hsmall := hs.small
    have hwrite : Advanced env [[s5UserpassVer, 0]] s.conn.state s.conn.rxbuf s
        (clientWrite env [s5UserpassVer, 0] s) := by
      refine advanced_clientWrite env hs.isOpen hs.noTunnel (by simp) ?_
      simp only [List.length_cons, List.length_nil]
      omega
    rw [hdo, hsay]
    exact connectIfReady_spec srv env cut (hwrite.consume len)

/-- **The read callback follows the parser**: behind the parser's replies, which are queued, the
connection does what the verdict says. -/
theorem processHandshake_spec {room : ℕ} (hs : Shaking s.conn room)
    (hroom : room + 4 < socks5FlushSize)
    (hstate : s.conn.state = .init ∨ s.conn.state = .userpass ∨ s.conn.state = .auth) :
    ∃ s2 state rest,
      Advanced env (parse srv s.conn.state s.conn.rxbuf).replies state rest s s2 ∧
      (parse srv s.conn.state s.conn.rxbuf).verdict.At state rest ∧
      processHandshake srv env cut s =
        conclude srv env cut s2 (parse srv s.conn.state s.conn.rxbuf).verdict := by
  rcases hstate with hinit | huser | hauth
  · have hdef : processHandshake srv env cut s = connectIfReady srv env cut
        (if (processAuthRequest srv env s).conn.state = .userpass then
          processUserpassAuth srv env (processAuthRequest srv env s)
        else processAuthRequest srv env s) := by
      rw [processHandshake, hinit]
    have hparse : parse srv s.conn.state s.conn.rxbuf = parseGreeting srv s.conn.rxbuf := by
      rw [parse, if_pos hinit]
    rw [hdef, hparse]
    rcases @processAuthRequest_cases srv env s with ⟨hdo, hsay⟩ | ⟨reply, -, -, hdo, hsay⟩ |
      ⟨len, selected, next, hnext, hdo, hsay⟩
    · rw [hdo, hsay, if_neg (by rw [hinit]; nofun),
        connectIfReady_of_ne srv env cut (by rw [hinit]; nofun)]
      exact ⟨s, _, _, .refl hs.isOpen, ⟨hinit.symm, rfl⟩, rfl⟩
    · have hst : (refuse env reply s).conn.state = .init :=
        (state_refuse env reply s).trans hinit
      rw [hdo, hsay, if_neg (by rw [hst]; nofun),
        connectIfReady_of_ne srv env cut (by rw [hst]; nofun)]
      exact ⟨s, _, _, .refl hs.isOpen, hinit.symm, rfl⟩
    · have hsmall := hs.small
      have hwrite : Advanced env [[s5Ver, selected]] s.conn.state s.conn.rxbuf s
          (clientWrite env [s5Ver, selected] s) := by
        refine advanced_clientWrite env hs.isOpen hs.noTunnel (by simp) ?_
        simp only [List.length_cons, List.length_nil]
        omega
      rw [hdo, hsay]
      generalize hs1 : consumeMessage len next (clientWrite env [s5Ver, selected] s) = s1
      have h1 : Advanced env [[s5Ver, selected]] next (s.conn.rxbuf.drop len) s s1 :=
        hs1 ▸ hwrite.consume len
      have hst : s1.conn.state = next := by rw [h1.conn]
      have hrx : s1.conn.rxbuf = s.conn.rxbuf.drop len := by rw [h1.conn]
      rcases hnext with rfl | rfl
      · -- the sub-negotiation comes next
        obtain ⟨s2, state, rest, h2, hat, hdo2⟩ := processUserpass_spec srv env cut
          (h1.shaking hs) (by simp only [List.flatten_cons, List.flatten_nil]; simp; omega) hst
        rw [if_pos hst, hdo2]
        rw [hrx] at h2 hat ⊢
        exact ⟨s2, state, rest, h1.trans h2, hat, rfl⟩
      · rw [if_neg (by rw [hst]; nofun)]
        obtain ⟨s2, state, rest, h2, hat, hdo2⟩ := connectIfReady_spec srv env cut h1
        exact ⟨s2, state, rest, h2, hat, hdo2⟩
  · have hdef : processHandshake srv env cut s =
        connectIfReady srv env cut (processUserpassAuth srv env s) := by
      rw [processHandshake, huser]
    have hparse : parse srv s.conn.state s.conn.rxbuf = parseUserpass srv s.conn.rxbuf := by
      rw [parse, huser]; rfl
    rw [hdef, hparse]
    exact processUserpass_spec srv env cut hs (by omega) huser
  · have hdef : processHandshake srv env cut s = processConnectRequest srv env cut s := by
      rw [processHandshake, hauth]
    have hparse : parse srv s.conn.state s.conn.rxbuf = ⟨[], parseRequest s.conn.rxbuf⟩ := by
      rw [parse, hauth]; rfl
    rw [hdef, hparse]
    refine ⟨s, _, _, .refl hs.isOpen, ?_, processConnectRequest_eq srv env cut⟩
    rw [hauth]
    exact parseRequest_at s.conn.rxbuf

end Spec

end Wgx
