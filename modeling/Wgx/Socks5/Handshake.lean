import Wgx.Socks5.Conn
import Wgx.Uapi.Text
import Wgx.Device.Transport

/-!
# The SOCKS5 handshake and the events of a connection (`socks5.c`)

* `doConnect`, `resolveComplete`, `dnsQueryFinish`: the way to a tunnel;
* `processAuthRequest`, `processUserpassAuth`, `processConnectRequest`: the parsers over `rxbuf`;
* `onClientRead`: the read callback, which chains them;
* `socksStep`: one event of a connection, `Socks.accept` a connection as `on_connection` leaves it.
-/

namespace Wgx

/-- `S5_AUTH_NONE`. -/
def s5AuthNone : Byte := 0

/-- `S5_AUTH_USERPASS`. -/
def s5AuthUserpass : Byte := 2

/-- `S5_AUTH_NO_ACCEPTABLE`. -/
def s5AuthNoAcceptable : Byte := 0xff

/-- `S5_USERPASS_VER`. -/
def s5UserpassVer : Byte := 1

/-- `S5_CMD_CONNECT`. -/
def s5CmdConnect : Byte := 1

/-- `S5_ATYP_DOMAIN`. -/
def s5AtypDomain : Byte := 3

/-- `S5_ATYP_IPV6`. -/
def s5AtypIpv6 : Byte := 4

/-- The size of `rxbuf`. -/
def rxbufSize : ℕ := 512

section Handshake

variable (srv : SocksServer) (env : SocksEnv)

/-! ### The way to a tunnel -/

/-- `do_connect`. -/
def doConnect (s : Socks) : Socks :=
  let s := s.log .connect
  match env.connect with
  | none => refuse env (replyBytes s5RepFail) s
  | some iss =>
    let t := tcpstackConnect (env.tcp s.conn) iss ⟨true, true, true, false, false⟩
    let t := t.update fun conn => { conn with handlers := { conn.handlers with onWriteable := true } }
    s.update fun conn => { conn with wgConn := some (tcpSetRecvWindowCb true t) }

/-- The target is set and the tunnel opened. -/
def startConnect (f : SocksConn → SocksConn) (s : Socks) : Socks :=
  doConnect env (s.update fun conn => { f conn with state := .connecting })

/-- `resolve_complete`. -/
def resolveComplete (domain : List Byte) (answer : Answer) (s : Socks) : Socks :=
  if s.conn.writeState = .closed then s
  else if answer.status < 0 ∨ answer.family = .unspec then refuse env (replyBytes s5RepFail) s
  else
    let s := s.update fun conn => { conn with targetFamily := answer.family }
    match answer.family, answer.ip6 with
    | .inet, _ =>
      startConnect env (fun conn => { conn with targetIp := answer.ip })
        (s.log (.cacheStore domain answer.ip))
    | .inet6, some ip6 =>
      let s := s.update fun conn =>
        { conn with targetIp := Vector.replicate 4 0, targetIp6 := ip6 }
      if !srv.localIp6Set then refuse env (replyBytes s5RepFail) s else startConnect env id s
    | _, _ => startConnect env id s

/-- `dns_query_finish` for one of the waiters. -/
def dnsQueryFinish (shuttingDown : Bool) (domain : List Byte) (answer : Answer) (s : Socks) :
    Socks :=
  let s := s.update fun conn => { conn with resolveReq := false }
  if shuttingDown then socks5ConnClose env .shutdown s
  else resolveComplete srv env domain answer s

/-! ### The parsers -/

/-- What `process_auth_request` selects among the methods of the client, with the state it leads
to. -/
def selectMethod (methods : List Byte) : Byte × S5State :=
  if srv.authRequired then
    if s5AuthUserpass ∈ methods then (s5AuthUserpass, .userpass) else (s5AuthNoAcceptable, .init)
  else if s5AuthNone ∈ methods then (s5AuthNone, .auth)
  else (s5AuthNoAcceptable, .init)

/-- A message of `len` bytes is taken off `rxbuf` and the connection goes on in `state`. -/
def consumeMessage (len : ℕ) (state : S5State) (s : Socks) : Socks :=
  s.update fun conn => { conn with state := state, rxbuf := conn.rxbuf.drop len }

/-- `process_auth_request`. -/
def processAuthRequest (s : Socks) : Socks :=
  let rxbuf := s.conn.rxbuf
  if rxbuf.length < 2 then s
  else
    let nmethods := (rxbuf.getD 1 0).toNat
    if rxbuf.length < 2 + nmethods then s
    else
      let (selected, nextState) := selectMethod srv ((rxbuf.drop 2).take nmethods)
      if selected = s5AuthNoAcceptable then refuse env [s5Ver, selected] s
      else consumeMessage (2 + nmethods) nextState (clientWrite env [s5Ver, selected] s)

/-- `process_userpass_auth`. -/
def processUserpassAuth (s : Socks) : Socks :=
  let rxbuf := s.conn.rxbuf
  if rxbuf.length < 2 then s
  else if rxbuf.getD 0 0 ≠ s5UserpassVer then refuse env [s5UserpassVer, 1] s
  else
    let ulen := (rxbuf.getD 1 0).toNat
    if ulen = 0 then refuse env [s5UserpassVer, 1] s
    else if rxbuf.length < 2 + ulen + 1 then s
    else
      let plen := (rxbuf.getD (2 + ulen) 0).toNat
      if rxbuf.length < 3 + ulen + plen then s
      else if (rxbuf.drop 2).take ulen = srv.authUser ∧
          (rxbuf.drop (3 + ulen)).take plen = srv.authPass then
        consumeMessage (3 + ulen + plen) .auth (clientWrite env [s5UserpassVer, 0] s)
      else refuse env [s5UserpassVer, 1] s

/-- The length of a request with the address type `atyp` at the front of `rxbuf`: `none` if the
type is unknown, `some none` if the length is not there yet. -/
def requestLen (rxbuf : List Byte) : Option (Option ℕ) :=
  let atyp := rxbuf.getD 3 0
  if atyp = s5AtypIpv4 then some (some (4 + 4 + 2))
  else if atyp = s5AtypDomain then
    if rxbuf.length < 5 then some none else some (some (4 + 1 + (rxbuf.getD 4 0).toNat + 2))
  else if atyp = s5AtypIpv6 then some (some (4 + 16 + 2))
  else none

/-- The domain is looked up in the cache, else a query is started. -/
def resolveDomain (domain : List Byte) (s : Socks) : Socks :=
  let s := s.update fun conn => { conn with state := .resolving }
  match env.dnsCacheLookup domain with
  | some ip => resolveComplete srv env domain ⟨0, .inet, ip, none⟩ s
  | none =>
    let s := s.log (.query domain)
    match env.dnsStartQuery domain with
    | .failed => refuse env (replyBytes s5RepFail) s
    | .pending => s.update fun conn => { conn with resolveReq := true }
    | .answered shuttingDown answer => dnsQueryFinish srv env shuttingDown domain answer s

/-- A complete request in `rxbuf` is acted upon. -/
def dispatchRequest (s : Socks) : Socks :=
  let rxbuf := s.conn.rxbuf
  if rxbuf.getD 3 0 = s5AtypIpv4 then
    startConnect env
      (fun conn => { conn with targetFamily := .inet, targetIp := inAddrAt rxbuf 4 }) s
  else if rxbuf.getD 3 0 = s5AtypDomain then
    resolveDomain srv env (cstr ((rxbuf.drop 5).take (rxbuf.getD 4 0).toNat)) s
  else if !srv.localIp6Set then refuse env (replyBytes s5RepFail) s
  else
    startConnect env
      (fun conn => { conn with targetFamily := .inet6, targetIp6 := in6AddrAt rxbuf 4 }) s

/-- `process_connect_request`.  The bytes `cut` of the read are those that `rxbuf` had no room for;
they only enter the record of what stands behind the request. -/
def processConnectRequest (cut : List Byte) (s : Socks) : Socks :=
  let rxbuf := s.conn.rxbuf
  if rxbuf.length < 4 then s
  else if rxbuf.getD 0 0 ≠ s5Ver ∨ rxbuf.getD 1 0 ≠ s5CmdConnect then
    refuse env (replyBytes s5RepFail) s
  else
    match requestLen rxbuf with
    | none => refuse env (replyBytes s5RepFail) s
    | some none => s
    | some (some needed) =>
      if rxbuf.length < needed then s
      else
        let s := s.log (.request (rxbuf.drop needed ++ cut))
        let s := s.update fun conn => { conn with targetPort := be16 rxbuf (needed - 2) }
        dispatchRequest srv env s

/-! ### The read callback -/

/-- The request is processed if it can be there already. -/
def connectIfReady (cut : List Byte) (s : Socks) : Socks :=
  if s.conn.state = .auth ∧ s.conn.rxbuf.length ≥ 4 then processConnectRequest srv env cut s else s

/-- The handshake goes on over `rxbuf`. -/
def processHandshake (cut : List Byte) (s : Socks) : Socks :=
  match s.conn.state with
  | .init =>
    let s := processAuthRequest srv env s
    let s := if s.conn.state = .userpass then processUserpassAuth srv env s else s
    connectIfReady srv env cut s
  | .userpass => connectIfReady srv env cut (processUserpassAuth srv env s)
  | .auth => processConnectRequest srv env cut s
  | _ => s

/-- `on_client_read` with `nread > 0`. -/
def onClientRead (data : List Byte) (s : Socks) : Socks :=
  let s := s.log (.read data)
  if s.conn.state = .established ∨ s.conn.state = .connecting ∨ s.conn.state = .resolving then
    clientReadEstablished env data s
  else
    let space := rxbufSize - s.conn.rxbuf.length
    processHandshake srv env (data.drop space)
      (s.update fun conn => { conn with rxbuf := conn.rxbuf ++ data.take space })

/-- `on_client_read` with `nread ≤ 0`. -/
def onClientReadEnd (nread : ℤ) (s : Socks) : Socks :=
  if nread ≠ uvEagain then socks5ConnClose env .client s else s

end Handshake

/-! ### Events -/

/-- What can happen to a connection: the client is read from, the resolver answers, the stack has
changed the tunnel or calls one of its callbacks, the check phase comes, a write is done, or the
client's handle is gone. -/
inductive SocksEvent
  | read (data : List Byte)
  | readEnd (nread : ℤ)
  | resolved (shuttingDown : Bool) (domain : List Byte) (answer : Answer)
  | tunnel (t : Tcp)
  | connect (status : ℤ)
  | data (data : List Byte)
  | writeable
  | close
  | check
  | writeDone (status : ℤ)
  | closeCb

/-- What `libuv`, the resolver and the stack promise about an event: a read comes while reading is
on and fits `read_buf`, the resolver answers who waits, the stack calls back while `userdata` is
set, the check phase finds queued connections, a write is done that was started, and a handle goes
that is closing. -/
def SocksEvent.enabled (conn : SocksConn) : SocksEvent → Prop
  | .read bytes => conn.reading = true ∧ 0 < bytes.length ∧ bytes.length ≤ socks5ReadBufsize
  | .readEnd nread => conn.reading = true ∧ nread ≤ 0
  | .resolved _ _ _ => conn.resolveReq = true
  | .tunnel _ | .connect _ | .data _ | .writeable | .close => conn.wgConn.isSome = true
  | .check => conn.writeState = .queued
  | .writeDone _ => conn.writeReq = true
  | .closeCb => conn.closing = true

instance SocksEvent.decidableEnabled (conn : SocksConn) :
    ∀ e : SocksEvent, Decidable (e.enabled conn)
  | .read _ => inferInstanceAs (Decidable (_ ∧ _ ∧ _))
  | .readEnd _ => inferInstanceAs (Decidable (_ ∧ _))
  | .resolved _ _ _ | .tunnel _ | .connect _ | .data _ | .writeable | .close | .writeDone _
  | .closeCb => inferInstanceAs (Decidable (_ = true))
  | .check => inferInstanceAs (Decidable (conn.writeState = .queued))

/-- The callback that an event runs. -/
def socksCallback (srv : SocksServer) (env : SocksEnv) (e : SocksEvent) (s : Socks) : Socks :=
  match e with
  | .read data => onClientRead srv env data s
  | .readEnd nread => onClientReadEnd env nread s
  | .resolved shuttingDown domain answer => dnsQueryFinish srv env shuttingDown domain answer s
  | .tunnel t => s.update fun conn => { conn with wgConn := some t }
  | .connect status => wgOnConnect env status s
  | .data data => wgOnData env data s
  | .writeable => wgOnWriteable env s
  | .close => wgOnClose env s
  | .check => flushCheck env s
  | .writeDone status => writeDoneCb env status s
  | .closeCb => clientCloseCb env s

/-- One event in its environment.  Nothing happens to a connection that is released. -/
def socksStep (srv : SocksServer) (s : Socks) (e : SocksEnv × SocksEvent) : Socks :=
  if s.conn.released = true ∨ ¬ e.2.enabled s.conn then s else socksCallback srv e.1 e.2 s

/-- A connection as `on_connection` leaves it. -/
def Socks.accept : Socks where
  conn := {
    state := .init
    rxbuf := []
    targetFamily := .unspec
    targetIp := Vector.replicate 4 0
    targetIp6 := Vector.replicate 16 0
    targetPort := 0
    wgConn := none
    pending := .empty
    outbuf := []
    outbufCap := 0
    writeBuf := []
    writeBufCap := 0
    writeState := .idle
    writeReq := false
    resolveReq := false
    clientPaused := false
    wgRecvWindowThrottled := false
    reading := true
    closing := false
    released := false }
  trace := []

/-- The connection after the events `es`. -/
def socksRun (srv : SocksServer) (es : List (SocksEnv × SocksEvent)) : Socks :=
  Machine.run (socksStep srv) .accept es

end Wgx
