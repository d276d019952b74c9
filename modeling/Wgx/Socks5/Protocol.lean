import Mathlib.Data.List.TakeWhile
import Wgx.Socks5.Gate

/-!
# The protocol a SOCKS5 client is let through by

A connection gets to the resolver or to the tunnel by the bytes of the protocol only, and to the
target that these name.

* `connectRequest` is the request for a `Target`, `Asks` what a client has sent to get there;
* `request_of_parse` and `asks_of_parse` derive it from the parser;
* `Aim` is where a connection goes, `ProtocolInv` the invariant;
* the greeting's version is looked at nowhere, a domain ends at its first zero byte, and a read may
  be cut; `Orderly` says that none of this happens, `asks_for_target` is the result.
-/

namespace Wgx

/-! ### What a client sends -/

/-- What a request names: an IPv4 address, a domain, or an IPv6 address. -/
inductive Target
  | ipv4 (addr : InAddr)
  | domain (name : List Byte)
  | ipv6 (addr : In6Addr)

/-- The address type of a target and its bytes. -/
def Target.bytes : Target → List Byte
  | .ipv4 addr => s5AtypIpv4 :: addr.toList
  | .domain name => s5AtypDomain :: BitVec.ofNat 8 name.length :: name
  | .ipv6 addr => s5AtypIpv6 :: addr.toList

/-- The length of a target fits its byte. -/
def Target.Fits : Target → Prop
  | .domain name => name.length ≤ 255
  | _ => True

/-- A request of version 5 with the command CONNECT. -/
def connectRequest (rsv : Byte) (target : Target) (port : ℕ) : List Byte :=
  s5Ver :: s5CmdConnect :: rsv :: target.bytes ++
    [BitVec.ofNat 8 (port / 256), BitVec.ofNat 8 port]

/-- A greeting of version 5 with the methods of the client. -/
def greetingMessage (methods : List Byte) : List Byte :=
  s5Ver :: BitVec.ofNat 8 methods.length :: methods

/-- The method that a server selects when it is offered. -/
def SocksServer.method (srv : SocksServer) : Byte :=
  if srv.authRequired then s5AuthUserpass else s5AuthNone

/-- What stands between the greeting and the request. -/
def SocksServer.subnegotiation (srv : SocksServer) : List Byte :=
  if srv.authRequired then userpassMessage srv.authUser srv.authPass else []

/-- The bytes begin with a greeting that offers the method which the server selects, the server's
user and password if it asks for them, and the request for `target` and `port`. -/
def Asks (srv : SocksServer) (target : Target) (port : ℕ) (bytes : List Byte) : Prop :=
  ∃ methods rsv, methods.length ≤ 255 ∧ srv.method ∈ methods ∧ target.Fits ∧ port < 65536 ∧
    (srv.authRequired = true → srv.authUser.length ≤ 255 ∧ srv.authPass.length ≤ 255) ∧
    greetingMessage methods ++ srv.subnegotiation ++ connectRequest rsv target port <+: bytes

theorem Asks.mono {srv : SocksServer} {target : Target} {port : ℕ} {bytes more : List Byte}
    (h : Asks srv target port bytes) (hmore : bytes <+: more) : Asks srv target port more := by
  obtain ⟨methods, rsv, hlen, hoffer, hfits, hport, hauth, hpre⟩ := h
  exact ⟨methods, rsv, hlen, hoffer, hfits, hport, hauth, hpre.trans hmore⟩

/-! ### The request in the buffer -/

/-- What a complete request in `rxbuf` names. -/
def targetOf (rxbuf : List Byte) : Target :=
  if rxbuf.getD 3 0 = s5AtypIpv4 then .ipv4 (inAddrAt rxbuf 4)
  else if rxbuf.getD 3 0 = s5AtypDomain then
    .domain ((rxbuf.drop 5).take (rxbuf.getD 4 0).toNat)
  else .ipv6 (in6AddrAt rxbuf 4)

/-- A request is acted upon as its target says. -/
theorem dispatchRequest_eq (srv : SocksServer) (env : SocksEnv) (s : Socks) :
    dispatchRequest srv env s =
      match targetOf s.conn.rxbuf with
      | .ipv4 addr =>
        startConnect env (fun conn => { conn with targetFamily := .inet, targetIp := addr }) s
      | .domain name => resolveDomain srv env (cstr name) s
      | .ipv6 addr =>
        if !srv.localIp6Set then refuse env (replyBytes s5RepFail) s
        else startConnect env
          (fun conn => { conn with targetFamily := .inet6, targetIp6 := addr }) s := by
  unfold dispatchRequest targetOf
  simp only
  split_ifs <;> rfl

/-- The bytes of an array that was copied out of a list. -/
theorem ofFn_getD {l : List Byte} {off n : ℕ} (h : off + n ≤ l.length) :
    List.ofFn (fun i : Fin n => l.getD (off + i) 0) = (l.drop off).take n := by
  refine List.ext_getElem (by simp; omega) fun i hi _ => ?_
  rw [List.length_ofFn] at hi
  rw [List.getElem_ofFn, List.getElem_take, List.getElem_drop, List.getD_eq_getElem]

/-- The port at `off`, as the two bytes it is read from. -/
theorem be16_bytes {l : List Byte} {off : ℕ} (h : off + 2 ≤ l.length) :
    be16 l off < 65536 ∧
      [BitVec.ofNat 8 (be16 l off / 256), BitVec.ofNat 8 (be16 l off)] = (l.drop off).take 2 := by
  have hpair : (l.drop off).take 2 = [l.getD off 0, l.getD (off + 1) 0] :=
    (ofFn_getD h).symm
  have hhi := (l.getD off 0).isLt
  have hlo := (l.getD (off + 1) 0).isLt
  have hbyte : ∀ (b : Byte) (n : ℕ), n % 256 = b.toNat → BitVec.ofNat 8 n = b := by
    intro b n hn
    refine BitVec.eq_of_toNat_eq ?_
    rw [BitVec.toNat_ofNat]
    exact hn
  refine ⟨by unfold be16; omega, ?_⟩
  rw [hpair, hbyte (l.getD off 0) _ (by unfold be16; omega),
    hbyte (l.getD (off + 1) 0) _ (by unfold be16; omega)]

/-- Four bytes, those behind them, and the two at the end. -/
theorem take_request {l : List Byte} {n : ℕ} (h : 4 + n + 2 ≤ l.length) :
    l.take (4 + n + 2) = l.getD 0 0 :: l.getD 1 0 :: l.getD 2 0 :: l.getD 3 0 ::
      (l.drop 4).take n ++ (l.drop (4 + n)).take 2 := by
  have hhead : l.take 4 = [l.getD 0 0, l.getD 1 0, l.getD 2 0, l.getD 3 0] := by
    have := ofFn_getD (show 0 + 4 ≤ l.length by omega)
    rw [List.drop_zero] at this
    exact this.symm
  rw [List.take_add, List.take_add, hhead]
  simp

/-- **A request is what the parser takes for one**: a request that is complete has version 5, the
command CONNECT, and the target and port that are read out of it. -/
theorem request_of_parse {rxbuf msg rest : List Byte} (h : parseRequest rxbuf = .request msg rest) :
    rxbuf = msg ++ rest ∧ (targetOf rxbuf).Fits ∧ be16 rxbuf (msg.length - 2) < 65536 ∧
      ∃ rsv, msg = connectRequest rsv (targetOf rxbuf) (be16 rxbuf (msg.length - 2)) := by
  unfold parseRequest at h
  split_ifs at h with h4 hbad
  have hver : rxbuf.getD 0 0 = s5Ver := by
    by_contra hno
    exact hbad (.inl hno)
  have hcmd : rxbuf.getD 1 0 = s5CmdConnect := by
    by_contra hno
    exact hbad (.inr hno)
  -- what is common to the three address types, of which the target has `n` bytes behind the type
  have hwhole : ∀ n, 4 + n + 2 ≤ rxbuf.length →
      (targetOf rxbuf).bytes = rxbuf.getD 3 0 :: (rxbuf.drop 4).take n →
      (targetOf rxbuf).Fits → rxbuf.take (4 + n + 2) = msg → rxbuf.drop (4 + n + 2) = rest →
      rxbuf = msg ++ rest ∧ (targetOf rxbuf).Fits ∧ be16 rxbuf (msg.length - 2) < 65536 ∧
        ∃ rsv, msg = connectRequest rsv (targetOf rxbuf) (be16 rxbuf (msg.length - 2)) := by
    rintro n hlen hbytes hfits rfl rfl
    have hmsg : (rxbuf.take (4 + n + 2)).length - 2 = 4 + n := by
      rw [List.length_take]
      omega
    obtain ⟨hport, hpair⟩ := be16_bytes (show 4 + n + 2 ≤ rxbuf.length by omega)
    rw [hmsg]
    refine ⟨(List.take_append_drop _ _).symm, hfits, hport, rxbuf.getD 2 0, ?_⟩
    rw [connectRequest, hbytes, hpair, take_request hlen, hver, hcmd]
  cases hneed : requestLen rxbuf with
  | none => rw [hneed] at h; cases h
  | some len =>
    cases len with
    | none => rw [hneed] at h; cases h
    | some needed =>
      rw [hneed] at h
      simp only at h
      split_ifs at h with hshort
      obtain ⟨hmsg, hrest⟩ := Verdict.request.inj h
      unfold requestLen at hneed
      simp only at hneed
      split_ifs at hneed with hipv4 hdomain h5 hipv6
      · cases hneed
        refine hwhole 4 (by omega) ?_ ?_ hmsg hrest
        · rw [targetOf, if_pos hipv4, Target.bytes, ← hipv4, inAddrAt, Vector.toList_ofFn,
            ofFn_getD (by omega)]
        · rw [targetOf, if_pos hipv4]
          trivial
      · cases hneed
      · have hlen : 4 + 1 + (rxbuf.getD 4 0).toNat + 2 = 4 + (1 + (rxbuf.getD 4 0).toNat) + 2 := by
          omega
        have hcount := ofNat_length_take (show 5 + (rxbuf.getD 4 0).toNat ≤ rxbuf.length by
          have := Option.some.inj (Option.some.inj hneed)
          omega)
        cases hneed
        rw [hlen] at hmsg hrest
        refine hwhole (1 + (rxbuf.getD 4 0).toNat) (by omega) ?_ ?_ hmsg hrest
        · have htake : (rxbuf.drop 4).take (1 + (rxbuf.getD 4 0).toNat) =
              rxbuf.getD 4 0 :: (rxbuf.drop 5).take (rxbuf.getD 4 0).toNat := by
            rw [List.drop_eq_getElem_cons (show 4 < rxbuf.length by omega), Nat.add_comm 1,
              List.take_succ_cons, List.getD_eq_getElem _ _ (show 4 < rxbuf.length by omega)]
          rw [targetOf, if_neg hipv4, if_pos hdomain, Target.bytes, hcount, htake, ← hdomain]
        · rw [targetOf, if_neg hipv4, if_pos hdomain]
          have := (rxbuf.getD 4 0).isLt
          refine (List.length_take_le _ _).trans ?_
          omega
      · cases hneed
        refine hwhole 16 (by omega) ?_ ?_ hmsg hrest
        · rw [targetOf, if_neg hipv4, if_neg hdomain, Target.bytes, ← hipv6, in6AddrAt,
            Vector.toList_ofFn, ofFn_getD (by omega)]
        · rw [targetOf, if_neg hipv4, if_neg hdomain]
          trivial

/-- **The parser takes nothing else for the protocol**: behind a request that is complete, the
bytes ask for its target and port, if the greeting's version was right. -/
theorem asks_of_parse {srv : SocksServer} {bytes msg rest : List Byte}
    (h : (parse srv .init bytes).verdict = .request msg rest)
    (hver : bytes.getD 0 0 = s5Ver) :
    Asks srv (targetOf (msg ++ rest)) (be16 (msg ++ rest) (msg.length - 2)) bytes := by
  rw [parse, if_pos rfl] at h
  rcases parseGreeting_cases srv bytes with hwait | ⟨reply, hrefused⟩ |
    ⟨-, methods, hlen, hsplit, hsel, hnext⟩
  · rw [hwait] at h
    cases h
  · rw [hrefused] at h
    cases h
  generalize bytes.drop (2 + (bytes.getD 1 0).toNat) = behind at hsplit hnext
  rw [hver] at hsplit
  rw [hnext] at h
  have hoffer := selectMethod_of_accepted hsel
  -- the request stands behind the sub-negotiation, or at once
  obtain ⟨more, hmore, hreq, hauth⟩ : ∃ more, behind = srv.subnegotiation ++ more ∧
      parseRequest more = .request msg rest ∧
      (srv.authRequired = true → srv.authUser.length ≤ 255 ∧ srv.authPass.length ≤ 255) := by
    unfold SocksServer.subnegotiation
    split_ifs at hoffer ⊢ with hreq
    · rw [hoffer.2] at h
      have h : (parseUserpass srv behind).verdict = .request msg rest := h
      have hat : (parseUserpass srv behind).verdict.At .auth (msg ++ rest) := by
        rw [h]
        exact ⟨rfl, rfl⟩
      obtain ⟨huser, hpass, more, hmsg, hnext'⟩ := userpass_of_parse hat
      exact ⟨more, hmsg, hnext'.symm.trans h, fun _ => ⟨huser, hpass⟩⟩
    · rw [hoffer.2] at h
      exact ⟨behind, rfl, h, fun hno => absurd hno hreq⟩
  have hmethod : srv.method ∈ methods := by
    unfold SocksServer.method
    split_ifs at hoffer ⊢ <;> exact hoffer.1
  obtain ⟨hsplit', hfits, hport, rsv, hmsg⟩ := request_of_parse hreq
  rw [hsplit'] at hfits hport hmsg
  refine ⟨methods, rsv, hlen, hmethod, hfits, hport, hauth, rest, ?_⟩
  rw [← hmsg]
  conv_rhs => rw [hsplit, hmore, hsplit']
  simp [greetingMessage]

/-! ### Where a connection goes -/

/-- An entry about the resolver. -/
def SocksEntry.isResolver : SocksEntry → Bool
  | .query _ | .cacheStore _ _ => true
  | _ => false

/-- Where a connection goes: its state and its target, and what it had to do with the resolver. -/
structure Aim where
  state : S5State
  family : AddrFamily
  ip : InAddr
  ip6 : In6Addr
  port : ℕ
  resolver : List SocksEntry

def Socks.aim (s : Socks) : Aim where
  state := s.conn.state
  family := s.conn.targetFamily
  ip := s.conn.targetIp
  ip6 := s.conn.targetIp6
  port := s.conn.targetPort
  resolver := s.trace.filter SocksEntry.isResolver

/-- The connection goes for the target: for an address without the resolver; for a domain by queries
for this domain only, of which there was one unless the cache had its address. -/
def Aim.Hits (a : Aim) : Target → Prop
  | .ipv4 addr => a.state ≠ .resolving ∧ a.family = .inet ∧ a.ip = addr ∧ a.resolver = []
  | .domain name => (∀ d, .query d ∈ a.resolver → d = name) ∧
    (.query name ∈ a.resolver ∨
      a.state ≠ .resolving ∧ a.family = .inet ∧ a.resolver = [.cacheStore name a.ip])
  | .ipv6 addr => a.state ≠ .resolving ∧ a.family = .inet6 ∧ a.ip6 = addr ∧ a.resolver = []

theorem Aim.hits_of_stored {a : Aim} {name : List Byte} (hstate : a.state ≠ .resolving)
    (hfamily : a.family = .inet) (hstored : a.resolver = [.cacheStore name a.ip]) :
    a.Hits (.domain name) := by
  refine ⟨fun d hd => ?_, .inr ⟨hstate, hfamily, hstored⟩⟩
  rw [hstored, List.mem_singleton] at hd
  cases hd

section Aim

variable {s s' : Socks}

theorem aim_log {e : SocksEntry} (h : e.isResolver = false) (s : Socks) :
    (s.log e).aim = s.aim := by
  simp [Socks.aim, h]

/-- New entries that have nothing to do with the resolver. -/
theorem aim_of_frame (hstate : s'.conn.state = s.conn.state)
    (htarget : (s'.conn.targetFamily, s'.conn.targetIp, s'.conn.targetIp6, s'.conn.targetPort) =
      (s.conn.targetFamily, s.conn.targetIp, s.conn.targetIp6, s.conn.targetPort))
    {new : List SocksEntry} (htrace : s'.trace = s.trace ++ new)
    (hnew : ∀ e ∈ new, e.isResolver = false) : s'.aim = s.aim := by
  have hfilter : new.filter SocksEntry.isResolver = [] :=
    List.filter_eq_nil_iff.2 fun e he => by rw [hnew e he]; nofun
  simp only [Prod.mk.injEq] at htarget
  obtain ⟨hfamily, hip, hip6, hport⟩ := htarget
  rw [Socks.aim, hstate, hfamily, hip, hip6, hport, htrace, List.filter_append, hfilter,
    List.append_nil]
  rfl

theorem WriteFrame.aim {why : CloseReason → Prop} (h : WriteFrame why s s') : s'.aim = s.aim := by
  obtain ⟨new, hnew, hall⟩ := h.trace
  refine aim_of_frame h.state h.target hnew fun e he => ?_
  have hfor := hall e he
  cases e <;> first | rfl | cases hfor

theorem ReadSide.aim (h : ReadSide s s') : s'.aim = s.aim := by
  obtain ⟨new, hnew, hall⟩ := h.trace
  refine aim_of_frame h.state h.target hnew fun e he => ?_
  obtain ⟨data, rfl⟩ := hall e he
  rfl

variable (env : SocksEnv)

theorem aim_refuse (data : List Byte) (s : Socks) : (refuse env data s).aim = s.aim :=
  (@writeSide_refuse (fun _ => True) env trivial trivial data s).aim

theorem aim_doConnect (s : Socks) : (doConnect env s).aim = s.aim := by
  unfold doConnect
  cases env.connect with
  | none => exact (aim_refuse env _ _).trans (aim_log rfl s)
  | some iss => exact aim_log rfl s

theorem aim_startConnect (f : SocksConn → SocksConn) (s : Socks) :
    (startConnect env f s).aim =
      (s.update fun conn => { f conn with state := .connecting }).aim :=
  aim_doConnect env _

variable (srv : SocksServer)

/-- An address from the cache is the target. -/
theorem hits_resolveComplete_of_cached (hopen : s.conn.writeState ≠ .closed)
    (hnone : s.aim.resolver = []) (name : List Byte) (ip : InAddr) :
    (resolveComplete srv env name ⟨0, .inet, ip, none⟩ s).aim.Hits (.domain name) ∧
      (resolveComplete srv env name ⟨0, .inet, ip, none⟩ s).aim.port = s.aim.port := by
  unfold resolveComplete
  simp only
  rw [if_neg hopen, if_neg (by decide), aim_startConnect]
  refine ⟨Aim.hits_of_stored nofun rfl ?_, rfl⟩
  change (s.trace ++ [SocksEntry.cacheStore name ip]).filter SocksEntry.isResolver = [.cacheStore name ip]
  rw [List.filter_append, show s.trace.filter SocksEntry.isResolver = [] from hnone]
  rfl

/-- The resolver's answer changes neither the port nor what was asked. -/
theorem aim_resolveComplete (name : List Byte) (answer : Answer) (s : Socks) :
    (resolveComplete srv env name answer s).aim.port = s.aim.port ∧
      ∀ d, .query d ∈ (resolveComplete srv env name answer s).aim.resolver ↔
        .query d ∈ s.aim.resolver := by
  unfold resolveComplete
  by_cases hclosed : s.conn.writeState = .closed
  · rw [if_pos hclosed]
    exact ⟨rfl, fun _ => Iff.rfl⟩
  rw [if_neg hclosed]
  by_cases hfail : answer.status < 0 ∨ answer.family = .unspec
  · rw [if_pos hfail, aim_refuse]
    exact ⟨rfl, fun _ => Iff.rfl⟩
  rw [if_neg hfail]
  simp only
  split
  · rw [aim_startConnect]
    refine ⟨rfl, fun d => ?_⟩
    simp [Socks.aim, SocksEntry.isResolver]
  · split_ifs
    · rw [aim_refuse]
      exact ⟨rfl, fun _ => Iff.rfl⟩
    · rw [aim_startConnect]
      exact ⟨rfl, fun _ => Iff.rfl⟩
  · rw [aim_startConnect]
    exact ⟨rfl, fun _ => Iff.rfl⟩

theorem aim_dnsQueryFinish (shuttingDown : Bool) (name : List Byte) (answer : Answer) (s : Socks) :
    (dnsQueryFinish srv env shuttingDown name answer s).aim.port = s.aim.port ∧
      ∀ d, .query d ∈ (dnsQueryFinish srv env shuttingDown name answer s).aim.resolver ↔
        .query d ∈ s.aim.resolver := by
  unfold dnsQueryFinish
  simp only
  split_ifs
  · rw [(@writeSide_socks5ConnClose (fun _ => True) env _ trivial _).aim]
    exact ⟨rfl, fun _ => Iff.rfl⟩
  · exact aim_resolveComplete env srv name answer _

/-- The domain is looked up: nothing else is asked for. -/
theorem hits_resolveDomain (hopen : s.conn.writeState ≠ .closed) (hnone : s.aim.resolver = [])
    (name : List Byte) :
    (resolveDomain srv env name s).aim.Hits (.domain name) ∧
      (resolveDomain srv env name s).aim.port = s.aim.port := by
  unfold resolveDomain
  simp only
  cases env.dnsCacheLookup name with
  | some ip =>
    exact @hits_resolveComplete_of_cached
      (s.update fun conn => { conn with state := .resolving }) env srv hopen hnone name ip
  | none =>
    generalize hs1 : (s.update fun conn => { conn with state := .resolving }).log (.query name) = s1
    have hasked : s1.aim.resolver = [.query name] := by
      rw [← hs1]
      change (s.trace ++ [SocksEntry.query name]).filter SocksEntry.isResolver = _
      rw [List.filter_append, show s.trace.filter SocksEntry.isResolver = [] from hnone]
      rfl
    have hport : s1.aim.port = s.aim.port := by rw [← hs1]; rfl
    -- whatever becomes of the query, it is the only one
    have honly : ∀ a : Aim, (∀ d, .query d ∈ a.resolver ↔ .query d ∈ s1.aim.resolver) →
        a.Hits (.domain name) := by
      intro a ha
      refine ⟨fun d hd => ?_, .inl ((ha name).2 (by rw [hasked]; exact List.mem_singleton_self _))⟩
      have hd' := (ha d).1 hd
      rw [hasked, List.mem_singleton] at hd'
      exact SocksEntry.query.inj hd'
    cases env.dnsStartQuery name with
    | failed =>
      simp only
      rw [aim_refuse]
      exact ⟨honly _ fun _ => Iff.rfl, hport⟩
    | pending => exact ⟨honly _ fun _ => Iff.rfl, hport⟩
    | answered shuttingDown answer =>
      have hfinish := aim_dnsQueryFinish env srv shuttingDown name answer s1
      exact ⟨honly _ hfinish.2, hfinish.1.trans hport⟩

theorem cstr_of_not_mem {name : List Byte} (h : (0 : Byte) ∉ name) : cstr name = name := by
  refine List.takeWhile_eq_self_iff.2 fun b hb => ?_
  refine decide_eq_true ?_
  rintro rfl
  exact h hb

/-- **A request is aimed at its target**, unless it is refused at once or its domain is cut. -/
theorem hits_dispatchRequest (hopen : s.conn.writeState ≠ .closed) (hnone : s.aim.resolver = [])
    (hwhole : ∀ name, targetOf s.conn.rxbuf = .domain name → (0 : Byte) ∉ name)
    (hlate : (dispatchRequest srv env s).conn.state ≠ s.conn.state) :
    (dispatchRequest srv env s).aim.Hits (targetOf s.conn.rxbuf) ∧
      (dispatchRequest srv env s).aim.port = s.aim.port := by
  rw [dispatchRequest_eq] at hlate ⊢
  cases htarget : targetOf s.conn.rxbuf with
  | ipv4 addr =>
    simp only
    rw [aim_startConnect]
    exact ⟨⟨nofun, rfl, rfl, hnone⟩, rfl⟩
  | domain name =>
    simp only
    rw [cstr_of_not_mem (hwhole name htarget)]
    exact hits_resolveDomain env srv hopen hnone name
  | ipv6 addr =>
    rw [htarget] at hlate
    simp only at hlate ⊢
    split_ifs at hlate ⊢
    · exact absurd (state_refuse env _ s) hlate
    · rw [aim_startConnect]
      exact ⟨⟨nofun, rfl, rfl, hnone⟩, rfl⟩

end Aim

/-! ### The invariant -/

/-- What the read callback does not check: a read that the buffer has no room for ends the handshake
(or the client is refused), a greeting that is accepted has version 5, and the domain of a request
holds no zero byte. -/
def Orderly (srv : SocksServer) (s : Socks) (e : SocksEnv × SocksEvent) : Prop :=
  ∀ data, e.2 = .read data → s.conn.state.isShaking = true →
    (∀ state rest, (parse srv s.conn.state (s.buffered data).conn.rxbuf).verdict =
      .wait state rest → data.length ≤ rxbufSize - s.conn.rxbuf.length) ∧
    (s.conn.state = .init → GreetingAccepted srv (s.buffered data).conn.rxbuf →
      (s.buffered data).conn.rxbuf.getD 0 0 = s5Ver) ∧
    ∀ msg rest name, (parse srv s.conn.state (s.buffered data).conn.rxbuf).verdict =
      .request msg rest → targetOf (msg ++ rest) = .domain name → (0 : Byte) ∉ name

/-- Before the request is complete the parser waits for the rest of what was read, which begins with
the right version; behind it, the client has asked for where the connection goes. -/
structure ProtocolInv (srv : SocksServer) (s : Socks) : Prop where
  before : s.conn.closing = false → s.conn.state.isShaking = true →
    (parse srv .init (readBytes s.trace)).verdict = .wait s.conn.state s.conn.rxbuf ∧
    (s.conn.state ≠ .init → (readBytes s.trace).getD 0 0 = s5Ver) ∧ s.aim.resolver = []
  behind : s.conn.state.isShaking = false →
    ∃ target, Asks srv target s.conn.targetPort (readBytes s.trace) ∧ s.aim.Hits target

section Invariant

variable {srv : SocksServer} {s s' : Socks}

theorem protocolInv_accept : ProtocolInv srv .accept where
  before _ _ := ⟨rfl, fun hno => absurd rfl hno, rfl⟩
  behind := nofun

/-- What changes neither the aim nor, before the request, the buffer, keeps the invariant. -/
theorem ProtocolInv.frame (h : ProtocolInv srv s) (haim : s'.aim = s.aim)
    (hread : readBytes s.trace <+: readBytes s'.trace)
    (hbefore : s'.conn.closing = false → s.conn.state.isShaking = true →
      s.conn.closing = false ∧ s'.conn.rxbuf = s.conn.rxbuf ∧
        readBytes s'.trace = readBytes s.trace) : ProtocolInv srv s' where
  before hlive hshake := by
    have hstate : s'.conn.state = s.conn.state := congrArg Aim.state haim
    rw [hstate] at hshake ⊢
    obtain ⟨hlive', hrx, hsame⟩ := hbefore hlive hshake
    rw [hrx, hsame, haim]
    exact h.before hlive' hshake
  behind hlate := by
    have hstate : s'.conn.state = s.conn.state := congrArg Aim.state haim
    have hport : s'.conn.targetPort = s.conn.targetPort := congrArg Aim.port haim
    rw [hstate] at hlate
    obtain ⟨target, hasks, hhits⟩ := h.behind hlate
    rw [hport, haim]
    exact ⟨target, hasks.mono hread, hhits⟩

theorem ProtocolInv.writeSide {why : CloseReason → Prop} (h : ProtocolInv srv s)
    (hside : WriteSide why s s') : ProtocolInv srv s' := by
  obtain ⟨new, hnew, hall⟩ := hside.trace
  have hread : readBytes s'.trace = readBytes s.trace := by
    rw [hnew, readBytes_append, readBytes_of_isWrite fun e he => (hall e he).isWrite,
      List.append_nil]
  refine h.frame hside.aim (by rw [hread]) fun hlive _ => ⟨?_, hside.rxbuf, hread⟩
  by_contra hno
  rw [hside.closing (by simpa using hno)] at hlive
  cases hlive

theorem ProtocolInv.readSide (h : ProtocolInv srv s) (hside : ReadSide s s')
    (hlate : s.conn.state.isShaking = false) : ProtocolInv srv s' := by
  obtain ⟨new, hnew, -⟩ := hside.trace
  refine h.frame hside.aim ?_ fun _ hshake => ?_
  · rw [hnew, readBytes_append]
    exact List.prefix_append _ _
  · rw [hlate] at hshake
    cases hshake

/-- Behind the request, an event that keeps the port and the queries keeps the invariant. -/
theorem ProtocolInv.answered (h : ProtocolInv srv s) (hlate : s.conn.state = .resolving)
    (hlate' : s'.conn.state.isShaking = false) (hport : s'.aim.port = s.aim.port)
    (hasked : ∀ d, .query d ∈ s'.aim.resolver ↔ .query d ∈ s.aim.resolver)
    (hread : readBytes s.trace <+: readBytes s'.trace) : ProtocolInv srv s' where
  before _ hshake := by
    rw [hlate'] at hshake
    cases hshake
  behind _ := by
    obtain ⟨target, hasks, hhits⟩ := h.behind (by rw [hlate]; rfl)
    have hport' : s'.conn.targetPort = s.conn.targetPort := hport
    refine ⟨target, hport' ▸ hasks.mono hread, ?_⟩
    -- only a domain is waited for, and it was asked for
    cases target with
    | ipv4 addr => exact absurd hlate hhits.1
    | ipv6 addr => exact absurd hlate hhits.1
    | domain name =>
      obtain ⟨honly, hquery | ⟨hstate, -⟩⟩ := hhits
      · exact ⟨fun d hd => honly d ((hasked d).1 hd), .inl ((hasked name).2 hquery)⟩
      · exact absurd hlate hstate

theorem parseRequest_ne_wait_init {rxbuf rest : List Byte} :
    parseRequest rxbuf ≠ .wait .init rest := by
  intro h
  have hat := parseRequest_at rxbuf
  rw [h] at hat
  cases hat.1

theorem parseUserpass_ne_wait_init {rxbuf rest : List Byte} :
    (parseUserpass srv rxbuf).verdict ≠ .wait .init rest := by
  unfold parseUserpass
  simp only
  split_ifs <;> first | exact parseRequest_ne_wait_init | nofun

/-- Before the greeting is accepted, the buffer is all that was read. -/
theorem rxbuf_of_wait_init {bytes rest : List Byte}
    (h : (parse srv .init bytes).verdict = .wait .init rest) : rest = bytes := by
  rw [parse, if_pos rfl] at h
  rcases parseGreeting_cases srv bytes with hwait | ⟨reply, hrefused⟩ |
    ⟨-, methods, -, -, hsel, hnext⟩
  · rw [hwait] at h
    exact (Verdict.wait.inj h).2.symm
  · rw [hrefused] at h
    cases h
  · -- what comes behind the greeting waits in a state behind it
    rw [hnext] at h
    exfalso
    rcases selectMethod_ne_init srv hsel with hst | hst
    · rw [hst] at h
      exact parseUserpass_ne_wait_init h
    · rw [hst] at h
      exact parseRequest_ne_wait_init h

/-- A verdict behind the greeting comes with a greeting that is accepted. -/
theorem accepted_of_parse {bytes : List Byte}
    (hwait : ∀ rest, (parse srv .init bytes).verdict ≠ .wait .init rest)
    (hrefused : ∀ reply, (parse srv .init bytes).verdict ≠ .refused .init reply) :
    GreetingAccepted srv bytes := by
  rw [parse, if_pos rfl] at hwait hrefused
  rcases parseGreeting_cases srv bytes with h | ⟨reply, h⟩ | ⟨h, -⟩
  · exact absurd (congrArg Parsed.verdict h) (hwait _)
  · exact absurd (congrArg Parsed.verdict h) (hrefused _)
  · exact h

theorem getD_zero_append {l : List Byte} (h : l.getD 0 0 = s5Ver) (l' : List Byte) :
    (l ++ l').getD 0 0 = s5Ver := by
  cases l with
  | nil => cases h
  | cons b l => exact h

variable (env : SocksEnv)

/-- **A read of the handshake** keeps the invariant: the parser has seen all that was read, up to
what a read that completes the request loses. -/
theorem protocolInv_shaking (h : ProtocolInv srv s) (hinv : SocksInv s)
    (hlive : s.conn.closing = false) (hshake : s.conn.state.isShaking = true) {data : List Byte}
    (hord : Orderly srv s (env, .read data)) :
    ProtocolInv srv (onClientRead srv env data s) := by
  obtain ⟨s2, state, rest, hadv, hat, -, hready, hdo⟩ :=
    onClientRead_shaking srv env hinv hlive hshake data
  obtain ⟨hroom, hver, hname⟩ := hord data rfl hshake
  obtain ⟨hparse, hfirst, hnone⟩ := h.before hlive hshake
  have hst : s2.conn.state = state := by rw [hadv.conn]
  have hrx : s2.conn.rxbuf = rest := by rw [hadv.conn]
  have hread := hadv.readBytes
  have hquiet : s2.aim.resolver = [] := by
    obtain ⟨new, hnew, hall, -⟩ := hadv.trace
    have hfilter : new.filter SocksEntry.isResolver = [] := by
      refine List.filter_eq_nil_iff.2 fun e he => ?_
      obtain ⟨d, rfl | rfl⟩ := hall e he <;> exact Bool.false_ne_true
    change s2.trace.filter _ = []
    rw [hnew, List.filter_append, hfilter, List.append_nil]
    exact (congrArg Aim.resolver (aim_log rfl s)).trans hnone
  generalize hseen : readBytes s.trace ++ data.take (rxbufSize - s.conn.rxbuf.length) = seen
  have hsame : (parse srv .init seen).verdict =
      (parse srv s.conn.state (s.buffered data).conn.rxbuf).verdict := by
    rw [← hseen, parse_append, Parsed.continue, hparse]
    rfl
  have hbegin : (∀ rest, (parse srv .init seen).verdict ≠ .wait .init rest) →
      (∀ reply, (parse srv .init seen).verdict ≠ .refused .init reply) →
      seen.getD 0 0 = s5Ver := by
    intro hwait hrefused
    by_cases hinit : s.conn.state = .init
    · have hall : s.conn.rxbuf = readBytes s.trace := by
        rw [hinit] at hparse
        exact rxbuf_of_wait_init hparse
      have hbuf : (s.buffered data).conn.rxbuf = seen := by rw [← hseen, ← hall]; rfl
      rw [hbuf] at hver
      exact hver hinit (accepted_of_parse hwait hrefused)
    · rw [← hseen]
      exact getD_zero_append (hfirst hinit) _
  rw [← hsame] at hat hdo
  have hshake' : state.isShaking = true := parse_at_isShaking srv rfl hat
  rw [hdo]
  cases hv : (parse srv .init seen).verdict with
  | wait state' rest' =>
    rw [hv] at hat
    obtain ⟨rfl, rfl⟩ := hat
    rw [conclude]
    have hwhole : seen = readBytes s2.trace := by
      rw [hread, ← hseen, List.take_of_length_le (hroom _ _ (hsame.symm.trans hv))]
    refine ⟨fun _ _ => ?_, fun hlate => ?_⟩
    · rw [hst, hrx, ← hwhole]
      refine ⟨hv, fun hne => hbegin (fun r hr => ?_) (fun r hr => ?_), hquiet⟩
      · rw [hv] at hr
        exact hne (Verdict.wait.inj hr).1
      · rw [hv] at hr
        cases hr
    · rw [hst, hshake'] at hlate
      cases hlate
  | refused state' reply =>
    rw [conclude]
    refine ⟨fun hno => ?_, fun hlate => ?_⟩
    · rw [closing_refuse env reply fun _ => hready.isOpen] at hno
      cases hno
    · rw [state_refuse, hst, hshake'] at hlate
      cases hlate
  | request msg rest' =>
    rw [hv] at hat
    have hdone := dispatched_request srv env hready
      (data.drop (rxbufSize - s.conn.rxbuf.length)) msg rest'
    have hbuf : s2.conn.rxbuf = msg ++ rest' := hrx.trans hat.2
    have hasks := asks_of_parse hv (hbegin (fun _ hno => by cases hv.symm.trans hno)
      fun _ hno => by cases hv.symm.trans hno)
    refine ⟨fun hno hshaking => ?_, fun hlate => ⟨targetOf (msg ++ rest'), ?_⟩⟩
    · rcases hdone.live hno with ⟨hres, -⟩ | ⟨hconn, -⟩
      · rw [hres] at hshaking
        cases hshaking
      · rw [hconn] at hshaking
        cases hshaking
    · -- the request is the one that is acted upon
      generalize hs3 : ((s2.log (.request (rest' ++ data.drop (rxbufSize - s.conn.rxbuf.length)))).update
        fun conn => { conn with targetPort := be16 s2.conn.rxbuf (msg.length - 2) }) = s3 at hdone
      have hdispatch : conclude srv env (data.drop (rxbufSize - s.conn.rxbuf.length)) s2
          (.request msg rest') = dispatchRequest srv env s3 := by rw [← hs3]; rfl
      have hbuf3 : s3.conn.rxbuf = msg ++ rest' := by rw [← hs3]; exact hbuf
      have hport3 : s3.aim.port = be16 (msg ++ rest') (msg.length - 2) := by
        rw [← hs3, ← hbuf]
        rfl
      have hquiet3 : s3.aim.resolver = [] := by
        rw [← hs3]
        exact (congrArg Aim.resolver (aim_log rfl s2)).trans hquiet
      rw [hdispatch] at hlate hdone ⊢
      obtain ⟨hhits, hport⟩ := hits_dispatchRequest env srv
        (show s3.conn.writeState ≠ .closed by rw [← hs3]; exact hready.isOpen) hquiet3
        (by rw [hbuf3]; exact fun name => hname _ _ name (hsame.symm.trans hv))
        (by
          have hst3 : s3.conn.state = state := by rw [← hs3]; exact hst
          intro hsame'
          rw [hsame', hst3, hshake'] at hlate
          cases hlate)
      rw [hbuf3] at hhits
      refine ⟨?_, hhits⟩
      have hport' : (dispatchRequest srv env s3).conn.targetPort =
          be16 (msg ++ rest') (msg.length - 2) := hport.trans hport3
      rw [hport']
      refine hasks.mono ?_
      obtain ⟨new, hnew, -⟩ := hdone.trace
      rw [hnew, readBytes_append, ← hs3]
      refine List.IsPrefix.trans ?_ (List.prefix_append _ _)
      simp only [Socks.update_trace, Socks.log_trace, readBytes_append, hread, ← hseen]
      rw [List.append_assoc]
      refine (List.prefix_append_right_inj _).2 ?_
      exact (List.take_prefix _ _).trans (List.prefix_append _ _)

theorem protocolInv_onClientRead (h : ProtocolInv srv s) (hinv : SocksInv s)
    (hlive : s.conn.closing = false) {data : List Byte} (hord : Orderly srv s (env, .read data)) :
    ProtocolInv srv (onClientRead srv env data s) := by
  by_cases hshake : s.conn.state.isShaking = true
  · exact protocolInv_shaking env h hinv hlive hshake hord
  have hlate : s.conn.state.isShaking = false := by simpa using hshake
  have hlog : ProtocolInv srv (s.log (.read data)) := by
    refine h.frame (aim_log rfl s) ?_ fun _ hno => absurd hno hshake
    rw [Socks.log_trace, readBytes_append]
    exact List.prefix_append _ _
  unfold onClientRead
  simp only
  split_ifs with hstate
  · obtain ⟨s1, hside, hdo | hdo⟩ :=
      @clientReadEstablished_cases env data (s.log (.read data)) (hinv.isOpen hlive)
    · rw [hdo]
      exact hlog.readSide hside hlate
    · rw [hdo]
      exact (hlog.readSide hside hlate).writeSide
        (@writeSide_socks5ConnClose (fun _ => True) env _ trivial _)
  · -- no handshake goes on in the state `closing`
    rw [Socks.log_conn] at hstate
    have hclosing : s.conn.state = .closing := by
      cases hs : s.conn.state <;> simp_all [S5State.isShaking]
    have hidle : processHandshake srv env (data.drop (rxbufSize - s.conn.rxbuf.length))
        ((s.log (.read data)).update fun conn => { conn with
          rxbuf := conn.rxbuf ++ data.take (rxbufSize - s.conn.rxbuf.length) }) =
        (s.log (.read data)).update fun conn => { conn with
          rxbuf := conn.rxbuf ++ data.take (rxbufSize - s.conn.rxbuf.length) } := by
      unfold processHandshake
      rw [Socks.update_conn, Socks.log_conn, hclosing]
    rw [Socks.log_conn, hidle]
    exact hlog.frame rfl (List.prefix_refl _) fun _ hno => absurd hno hshake

theorem protocolInv_wgOnConnect (h : ProtocolInv srv s) (hlate : s.conn.state = .connecting ∨
    s.conn.state = .established ∨ s.conn.state = .closing) (status : ℤ) :
    ProtocolInv srv (wgOnConnect env status s) := by
  have hshake : s.conn.state.isShaking = false := by
    rcases hlate with hs | hs | hs <;> rw [hs] <;> rfl
  have hstate : s.conn.state ≠ .resolving := by
    rcases hlate with hs | hs | hs <;> rw [hs] <;> nofun
  unfold wgOnConnect
  simp only
  split_ifs with hclosed hfail
  · exact h
  · exact h.writeSide (@writeSide_refuse (fun _ => True) env trivial trivial _ s)
  all_goals
    have hest : ProtocolInv srv (s.update fun conn => { conn with state := .established }) := by
      refine ⟨fun _ => nofun, fun _ => ?_⟩
      obtain ⟨target, hasks, hhits⟩ := h.behind hshake
      refine ⟨target, hasks, ?_⟩
      cases target with
      | ipv4 addr => exact ⟨nofun, hhits.2⟩
      | ipv6 addr => exact ⟨nofun, hhits.2⟩
      | domain name => exact ⟨hhits.1, hhits.2.imp_right fun hstored => ⟨nofun, hstored.2⟩⟩
    have hside := @writeSide_clientWrite (fun _ => True) env trivial (replyBytes s5RepOk)
      (s.update fun conn => { conn with state := .established })
  · refine (hest.writeSide hside).readSide (readSide_flushPendingToWg env _) ?_
    rw [hside.state]
    rfl
  · exact hest.writeSide hside

/-- Every orderly event keeps the invariant. -/
theorem protocolInv_step (h : ProtocolInv srv s) (hinv : SocksInv s) {e : SocksEnv × SocksEvent}
    (hord : Orderly srv s e) : ProtocolInv srv (socksStep srv s e) := by
  obtain ⟨env, e⟩ := e
  unfold socksStep
  split_ifs with hskip
  · exact h
  have henabled : e.enabled s.conn := by
    by_contra hno
    exact hskip (.inr hno)
  cases e with
  | read data =>
    exact protocolInv_onClientRead env h hinv (hinv.live_of_reading henabled.1) hord
  | readEnd nread =>
    exact h.writeSide (@writeSide_onClientReadEnd (fun _ => True) env trivial nread s)
  | resolved shuttingDown domain answer =>
    have hstate := hinv.waiting henabled
    have hlive := hinv.live_of_waiting henabled
    have hshaking := hinv.shaking hlive (.inr hstate)
    have hroom : Shaking s.conn 4 :=
      ⟨hshaking.isOpen, hshaking.noTunnel, hshaking.small.trans (replyRoom_le _)⟩
    have hdone := dispatched_dnsQueryFinish env srv hroom hlive shuttingDown domain answer
    obtain ⟨hport, hasked⟩ := aim_dnsQueryFinish env srv shuttingDown domain answer s
    refine h.answered hstate ?_ hport hasked ?_
    · change (dnsQueryFinish srv env shuttingDown domain answer s).conn.state.isShaking = false
      rcases hdone.stage with hs | hs | hs
      · rw [hs, hstate]
        rfl
      · rw [hs]
        rfl
      · rw [hs]
        rfl
    · obtain ⟨new, hnew, -⟩ := hdone.trace
      change _ <+: readBytes (dnsQueryFinish srv env shuttingDown domain answer s).trace
      rw [hnew, readBytes_append]
      exact List.prefix_append _ _
  | tunnel t => exact h.frame rfl (List.prefix_refl _) fun hlive _ => ⟨hlive, rfl, rfl⟩
  | connect status =>
    have hlate := hinv.late_of_tunnel henabled
    refine protocolInv_wgOnConnect env h ?_ status
    cases hs : s.conn.state <;> simp_all [S5State.isShaking]
  | data data => exact h.writeSide (@writeSide_wgOnData (fun _ => True) env trivial data s)
  | writeable =>
    have hlate := hinv.late_of_tunnel henabled
    exact h.readSide (readSide_wgOnWriteable env s)
      (Bool.eq_false_iff.2 fun hshake => hlate (.inl hshake))
  | close => exact h.writeSide (@writeSide_wgOnClose (fun _ => True) env trivial s)
  | check => exact h.writeSide (@writeSide_flushCheck (fun _ => True) env trivial s)
  | writeDone status =>
    exact h.writeSide (@writeSide_writeDoneCb (fun _ => True) env trivial status s)
  | closeCb => exact h.writeSide (@writeSide_clientCloseCb (fun _ => True) env s)

theorem protocolInv_run {es : List (SocksEnv × SocksEvent)}
    (hord : Machine.Guarded (socksStep srv) (Orderly srv) .accept es) :
    ProtocolInv srv (socksRun srv es) := by
  have hboth := @Machine.run_induction _ _ (socksStep srv) (Orderly srv)
    (fun s => SocksInv s ∧ ProtocolInv srv s)
    (fun s e hs hok => ⟨socksInv_step srv hs.1 e, protocolInv_step hs.2 hs.1 hok⟩) .accept
    ⟨socksInv_accept, protocolInv_accept⟩ es hord
  exact hboth.2

end Invariant

/-! ### The protocol -/

/-- **The parser accepts only the protocol.**  In every run of orderly events, a connection that is
at the resolver, at the tunnel or behind them has been asked for by the client's bytes, a greeting
that offers the method, the user and password where they are asked for, and the request; and it goes
for the target and the port of that request. -/
theorem asks_for_target (srv : SocksServer) (es : List (SocksEnv × SocksEvent))
    (hord : Machine.Guarded (socksStep srv) (Orderly srv) .accept es)
    (hstate : (socksRun srv es).conn.state = .resolving ∨
      (socksRun srv es).conn.state = .connecting ∨
      (socksRun srv es).conn.state = .established) :
    ∃ target, Asks srv target (socksRun srv es).conn.targetPort
        (readBytes (socksRun srv es).trace) ∧
      (socksRun srv es).aim.Hits target := by
  refine (protocolInv_run hord).behind ?_
  rcases hstate with hs | hs | hs <;> rw [hs] <;> rfl

/-- A server that asks for no password. -/
def openServer : SocksServer := ⟨false, [], [], false⟩

/-- A greeting of version `ver` and a request for the port 80 of the domain `a.b`, in one read. -/
def greetAndAsk (ver : Byte) : List (SocksEnv × SocksEvent) :=
  [(exampleSocksEnv, .read ([ver, 1, 0] ++ connectRequest 0 (.domain [97, 46, 98]) 80))]

/-- A client of version 5 gets to the resolver with its request. -/
theorem asks_for_target_domain :
    Machine.Guarded (socksStep openServer) (Orderly openServer) .accept (greetAndAsk 5) ∧
      (socksRun openServer (greetAndAsk 5)).conn.state = .resolving ∧
      ∃ target, Asks openServer target (socksRun openServer (greetAndAsk 5)).conn.targetPort
          (readBytes (socksRun openServer (greetAndAsk 5)).trace) ∧
        (socksRun openServer (greetAndAsk 5)).aim.Hits target := by
  have hord : Machine.Guarded (socksStep openServer) (Orderly openServer) .accept
      (greetAndAsk 5) := by
    refine ⟨fun data hdata _ => ?_, trivial⟩
    cases hdata
    have hverdict : (parse openServer .init (Socks.accept.buffered ([5, 1, 0] ++
        connectRequest 0 (.domain [97, 46, 98]) 80)).conn.rxbuf).verdict =
          .request (connectRequest 0 (.domain [97, 46, 98]) 80) [] := by decide +kernel
    refine ⟨fun state rest hwait => ?_, fun _ _ => rfl, fun msg rest name hreq htarget => ?_⟩
    · rw [show Socks.accept.conn.state = .init from rfl, hverdict] at hwait
      cases hwait
    · rw [show Socks.accept.conn.state = .init from rfl, hverdict] at hreq
      cases hreq
      rw [← Target.domain.inj htarget]
      decide
  have hstate : (socksRun openServer (greetAndAsk 5)).conn.state = .resolving := by
    decide +kernel
  exact ⟨hord, hstate, asks_for_target openServer (greetAndAsk 5) hord (.inl hstate)⟩

/-- A client whose greeting has version 4 gets to the resolver too. -/
theorem version4_resolves :
    (socksRun openServer (greetAndAsk 4)).conn.state = .resolving ∧
      ¬ ∃ target, Asks openServer target (socksRun openServer (greetAndAsk 4)).conn.targetPort
        (readBytes (socksRun openServer (greetAndAsk 4)).trace) := by
  refine ⟨by decide +kernel, ?_⟩
  rintro ⟨target, methods, rsv, -, -, -, -, -, tail, hbytes⟩
  have hhead : (readBytes (socksRun openServer (greetAndAsk 4)).trace).head? = some 4 := by
    decide +kernel
  rw [← hbytes, greetingMessage] at hhead
  cases hhead

end Wgx
