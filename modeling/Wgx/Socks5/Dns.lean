import Mathlib.Logic.Function.Basic
import Wgx.Lib.Run
import Wgx.Socks5.Conn

/-!
# The resolver of the SOCKS5 server (`socks5.c`)

* `DnsEntry` is an entry of the cache; `dnsCacheLookup`, `dnsCacheStore` are its two loops;
* `DnsQuery` is a query in flight with the connections that wait for it, `Dns` the resolver's part
  of a server with the record of what happened;
* `dnsStartQuery`, `dnsQueryRemoveWaiter`, `dnsQueryFinish`: the life of a query;
* `onResolved`, `caresAddrinfoCb`: what the two backends make of an answer;
* `dnsStep`: a connection asks for a domain or goes, the resolver answers, the server stops.

Of a connection only what concerns the resolver is kept.  The allocator, the clock, `uv_cancel`, the
resolvers and `do_connect` are the environment of an event.
-/

namespace Wgx

/-- `SOCKS5_DNS_CACHE_SIZE`. -/
def socks5DnsCacheSize : ℕ := 64

/-- `SOCKS5_DNS_TTL_MS`. -/
def socks5DnsTtlMs : ℕ := 30 * 1000

/-- `UV_EAI_CANCELED`, which libuv gives to the callback of a `uv_getaddrinfo` that was canceled. -/
def uvEaiCanceled : ℤ := -3003

/-- `UV_EAI_NONAME`. -/
def uvEaiNoname : ℤ := -3008

/-- `ARES_ECANCELLED`. -/
def aresEcancelled : ℤ := 24

/-- What `char domain[256]` holds: no domain of a request is longer, so no copy of it is cut. -/
structure DomainName where
  bytes : List Byte
  short : bytes.length ≤ 255
  noNul : (0 : Byte) ∉ bytes
  deriving DecidableEq

/-! ### The cache -/

/-- `socks5_dns_cache_entry_t`. -/
structure DnsEntry where
  valid : Bool
  ip : InAddr
  expiresAt : ℕ
  lastUsed : ℕ
  domain : DomainName

/-- The loop of `dns_cache_lookup`: the address that is found, and the table as it is left. -/
def dnsCacheLookup (domain : DomainName) (now : ℕ) : List DnsEntry → Option InAddr × List DnsEntry
  | [] => (none, [])
  | entry :: cache =>
    let (found, rest) := dnsCacheLookup domain now cache
    if !entry.valid then (found, entry :: rest)
    else if entry.expiresAt ≤ now then (found, { entry with valid := false } :: rest)
    else if entry.domain ≠ domain then (found, entry :: rest)
    else (some entry.ip, { entry with lastUsed := now } :: cache)

/-- The loop of `dns_cache_store` from the index `i` on, where the least recently used entry so far
is at `oldest` and was used at `used`: the index of the slot, and the table as it is left. -/
def dnsCacheSlot (domain : DomainName) (now : ℕ) (i oldest used : ℕ) :
    List DnsEntry → ℕ × List DnsEntry
  | [] => (oldest, [])
  | entry :: cache =>
    let entry := if entry.valid ∧ entry.expiresAt ≤ now then { entry with valid := false } else entry
    if !entry.valid then (i, entry :: cache)
    else if entry.domain = domain then (i, entry :: cache)
    else
      let (slot, rest) :=
        if entry.lastUsed < used then dnsCacheSlot domain now (i + 1) i entry.lastUsed cache
        else dnsCacheSlot domain now (i + 1) oldest used cache
      (slot, entry :: rest)

/-- `dns_cache_store`. -/
def dnsCacheStore (domain : DomainName) (ip : InAddr) (now : ℕ) (cache : List DnsEntry) :
    List DnsEntry :=
  let (slot, cache) := dnsCacheSlot domain now 0 0 ((cache.head?.map DnsEntry.lastUsed).getD 0) cache
  cache.set slot ⟨true, ip, now + socks5DnsTtlMs, now, domain⟩

/-! ### The answers of the resolvers -/

/-- The address of an `addrinfo`. -/
inductive AddrInfo
  | inet (ip : InAddr)
  | inet6 (ip6 : In6Addr)
  | other

/-- What a resolver calls back with: its status, and its list of addresses if there is one. -/
structure ResolverResult where
  status : ℤ
  res : Option (List AddrInfo)

/-- `ai4`, or the address of `node4`. -/
def firstInet (list : List AddrInfo) : Option InAddr :=
  list.findSome? fun | .inet ip => some ip | _ => none

/-- `ai6`, or the address of `node6`. -/
def firstInet6 (list : List AddrInfo) : Option In6Addr :=
  list.findSome? fun | .inet6 ip6 => some ip6 | _ => none

/-- An answer without an address. -/
def Answer.none (status : ℤ) : Answer :=
  ⟨status, .unspec, Vector.replicate 4 0, some (Vector.replicate 16 0)⟩

/-- The address that is taken out of a list, else the status `missing`. -/
def answerFrom (status missing : ℤ) (list : List AddrInfo) : Answer :=
  match firstInet list, firstInet6 list with
  | some ip, _ => ⟨status, .inet, ip, some (Vector.replicate 16 0)⟩
  | _, some ip6 => ⟨status, .inet6, Vector.replicate 4 0, some ip6⟩
  | _, _ => .none missing

/-- `on_resolved`, up to `dns_query_finish`. -/
def onResolved (result : ResolverResult) : Answer :=
  match result.res with
  | some list =>
    if 0 ≤ result.status then answerFrom result.status uvEaiNoname list else .none result.status
  | _ => .none result.status

/-- `cares_addrinfo_cb`, up to `dns_query_finish`. -/
def caresAddrinfoCb (result : ResolverResult) : Answer :=
  match result.res with
  | some list => if result.status = 0 then answerFrom 0 (-1) list else .none (-1)
  | _ => if result.status = 0 then .none 0 else .none (-1)

/-! ### Queries -/

/-- `resolve_req_ctx_t` at the address `addr`.  `cares` is `backend`, and `canceled` says that
`uv_cancel` has taken hold of the request. -/
structure DnsQuery where
  addr : ℕ
  domain : DomainName
  cares : Bool
  waiters : List ℕ
  canceled : Bool

/-- What the backend of a query makes of its result. -/
def DnsQuery.answer (q : DnsQuery) (result : ResolverResult) : Answer :=
  if q.cares then caresAddrinfoCb result else onResolved result

/-- The result says that the request was canceled. -/
def DnsQuery.Cancels (q : DnsQuery) (result : ResolverResult) : Prop :=
  result.status = if q.cares then aresEcancelled else uvEaiCanceled

/-- What the resolver knows of a connection: whether it has asked for its domain, whether its
`write_state` is `S5W_CLOSED`, and `resolve_req`. -/
structure DnsConn where
  asked : Bool
  closed : Bool
  resolveReq : Option ℕ

/-- An entry of the record: a connection asks for a domain, and finds an address in the cache or
waits; a resolver calls back for a query; `resolve_complete` gives a connection its answer; a
connection is closed. -/
inductive DnsRecord
  | asked (sc : ℕ) (domain : DomainName) (now : ℕ)
  | hit (sc : ℕ) (domain : DomainName) (ip : InAddr) (now : ℕ)
  | waiting (sc : ℕ) (domain : DomainName)
  | answered (q : DnsQuery) (result : ResolverResult) (now : ℕ)
  | complete (sc : ℕ) (domain : DomainName) (answer : Answer)
  | closed (sc : ℕ)

/-- The fields of `socks5_server_t` that concern the resolver, the connections by their numbers, and
the record. -/
structure Dns where
  cacheEnabled : Bool
  cache : List DnsEntry
  queries : List DnsQuery
  usingCares : Bool
  shuttingDown : Bool
  conns : ℕ → DnsConn
  trace : List DnsRecord

/-- The environment of an event: `uv_now`, the address that `calloc` returns, the result of
`uv_getaddrinfo`, what `c-ares` answers at once, whether `uv_cancel` takes hold, and the connections
for which `resolve_complete` gets as far as a tunnel. -/
structure DnsEnv where
  now : ℕ
  calloc : Option ℕ
  getaddrinfo : ℤ
  sync : Option ResolverResult
  cancel : Bool
  connects : ℕ → Bool

namespace Dns

/-- Append to the record. -/
def log (d : Dns) (e : DnsRecord) : Dns := { d with trace := d.trace ++ [e] }

/-- Change a connection. -/
def updateConn (d : Dns) (sc : ℕ) (f : DnsConn → DnsConn) : Dns :=
  { d with conns := Function.update d.conns sc (f (d.conns sc)) }

variable (env : DnsEnv)

/-- A query without the waiter `sc`; with the last one, its request to `libuv` is canceled. -/
def dropWaiter (sc : ℕ) (q : DnsQuery) : DnsQuery :=
  { q with
    waiters := q.waiters.erase sc
    canceled := q.canceled || (q.waiters.erase sc).isEmpty && !q.cares && env.cancel }

/-- `dns_query_remove_waiter`. -/
def queryRemoveWaiter (addr sc : ℕ) (d : Dns) : Dns :=
  let d : Dns := { d with
    queries := d.queries.map fun q => if q.addr = addr then dropWaiter env sc q else q }
  d.updateConn sc fun conn => { conn with resolveReq := none }

/-- `socks5_conn_close`. -/
def connClose (sc : ℕ) (d : Dns) : Dns :=
  if (d.conns sc).closed then d
  else
    let d := (d.log (.closed sc)).updateConn sc fun conn => { conn with closed := true }
    match (d.conns sc).resolveReq with
    | none => d
    | some addr => d.queryRemoveWaiter env addr sc

/-- `dns_cache_store`. -/
def cacheStore (domain : DomainName) (ip : InAddr) (d : Dns) : Dns :=
  if d.cacheEnabled then { d with cache := dnsCacheStore domain ip env.now d.cache } else d

/-- `resolve_complete`. -/
def resolveComplete (sc : ℕ) (domain : DomainName) (answer : Answer) (d : Dns) : Dns :=
  if (d.conns sc).closed then d
  else
    let d := d.log (.complete sc domain answer)
    if answer.status < 0 ∨ answer.family = .unspec then d.connClose env sc
    else
      let d := if answer.family = .inet then d.cacheStore env domain answer.ip else d
      if env.connects sc then d else d.connClose env sc

/-- What `dns_query_finish` does for a waiter. -/
def finishWaiter (domain : DomainName) (answer : Answer) (d : Dns) (sc : ℕ) : Dns :=
  let d := d.updateConn sc fun conn => { conn with resolveReq := none }
  if d.shuttingDown then d.connClose env sc else d.resolveComplete env sc domain answer

/-- `dns_query_unlink`. -/
def queryUnlink (addr : ℕ) (d : Dns) : Dns :=
  { d with queries := d.queries.eraseP fun q => q.addr = addr }

/-- `dns_query_finish`, called by the resolver's callback. -/
def queryFinish (q : DnsQuery) (result : ResolverResult) (d : Dns) : Dns :=
  let d := (d.log (.answered q result env.now)).queryUnlink q.addr
  let answer := q.answer result
  let d :=
    if 0 ≤ answer.status ∧ answer.family = .inet then d.cacheStore env q.domain answer.ip else d
  q.waiters.foldl (finishWaiter env q.domain answer) d

/-- The resolver calls back for the query at `addr`. -/
def resolverCallback (addr : ℕ) (result : ResolverResult) (d : Dns) : Dns :=
  match d.queries.find? fun q => q.addr = addr with
  | some q => d.queryFinish env q result
  | none => d

/-- `dns_query_find`. -/
def queryFind (domain : DomainName) (d : Dns) : Option DnsQuery :=
  d.queries.find? fun q => q.domain = domain

/-- `dns_query_add_waiter`. -/
def queryAddWaiter (addr sc : ℕ) (d : Dns) : Dns :=
  let d : Dns := { d with
    queries := d.queries.map fun q =>
      if q.addr = addr then { q with waiters := sc :: q.waiters } else q }
  d.updateConn sc fun conn => { conn with resolveReq := some addr }

/-- A new query with its first waiter is linked. -/
def queryInsert (addr sc : ℕ) (domain : DomainName) (d : Dns) : Dns :=
  let d : Dns := { d with queries := ⟨addr, domain, d.usingCares, [sc], false⟩ :: d.queries }
  d.updateConn sc fun conn => { conn with resolveReq := some addr }

/-- `dns_start_query`, with `false` for the return value `-1`. -/
def startQuery (sc : ℕ) (domain : DomainName) (d : Dns) : Bool × Dns :=
  match d.queryFind domain with
  | some q => (true, (d.log (.waiting sc domain)).queryAddWaiter q.addr sc)
  | none =>
    match env.calloc with
    | none => (false, d)
    | some addr =>
      let d := (d.log (.waiting sc domain)).queryInsert addr sc domain
      if d.usingCares then
        match env.sync with
        | none => (true, d)
        | some result => (true, d.resolverCallback env addr result)
      else if env.getaddrinfo < 0 then
        (false, (d.queryUnlink addr).updateConn sc fun conn => { conn with resolveReq := none })
      else (true, d)

/-- The part of `process_connect_request` about a domain. -/
def request (sc : ℕ) (domain : DomainName) (d : Dns) : Dns :=
  let d := (d.log (.asked sc domain env.now)).updateConn sc fun conn => { conn with asked := true }
  let (found, cache) :=
    if d.cacheEnabled then dnsCacheLookup domain env.now d.cache else (none, d.cache)
  let d := { d with cache := cache }
  match found with
  | some ip =>
    (d.log (.hit sc domain ip env.now)).resolveComplete env sc domain ⟨0, .inet, ip, none⟩
  | none =>
    let (ok, d) := d.startQuery env sc domain
    if ok then d else d.connClose env sc

/-- `socks5_stop`: `ares_cancel` calls back for the queries of `c-ares`. -/
def stop (d : Dns) : Dns :=
  if d.usingCares then
    let d := { d with shuttingDown := true }
    let addrs := (d.queries.filter DnsQuery.cares).map DnsQuery.addr
    let d := addrs.foldl (fun d addr => d.resolverCallback env addr ⟨aresEcancelled, none⟩) d
    { d with usingCares := false }
  else d

end Dns

/-- Where the elements of a list have different keys, the key of the first one that is found goes with
it. -/
theorem not_mem_map_eraseP {α β : Type*} {f : α → β} {l : List α} {p : α → Bool} {a : α}
    (hfind : l.find? p = some a) (hnodup : (l.map f).Nodup) : f a ∉ (l.eraseP p).map f := by
  induction l with
  | nil => cases hfind
  | cons b l ih =>
    rw [List.map_cons, List.nodup_cons] at hnodup
    by_cases hp : p b = true
    · rw [List.find?_cons_of_pos hp] at hfind
      obtain rfl := Option.some.inj hfind
      rw [List.eraseP_cons_of_pos hp]
      exact hnodup.1
    · rw [List.find?_cons_of_neg hp] at hfind
      rw [List.eraseP_cons_of_neg hp, List.map_cons, List.mem_cons, not_or]
      refine ⟨fun heq => hnodup.1 ?_, ih hfind hnodup.2⟩
      rw [← heq]
      exact List.mem_map_of_mem (List.mem_of_find?_eq_some hfind)

/-! ### Events -/

/-- What can happen: a connection asks for a domain, the resolver calls back for the query at `addr`, a
connection is closed, or the server is stopped. -/
inductive DnsEvent
  | request (sc : ℕ) (domain : DomainName)
  | answer (addr : ℕ) (result : ResolverResult)
  | close (sc : ℕ)
  | stop

/-- What the connection, the allocator and the resolver promise about an event: an open connection
asks once; a new query has an address of its own; the resolver answers a query in flight, and that it
was canceled if it was and only then. -/
def DnsEvent.enabled (d : Dns) (env : DnsEnv) : DnsEvent → Prop
  | .request sc _ => (d.conns sc).closed = false ∧ (d.conns sc).asked = false ∧
    (∀ q ∈ d.queries, env.calloc ≠ some q.addr) ∧ ∀ r ∈ env.sync, r.status ≠ aresEcancelled
  | .answer addr result => ∃ q ∈ d.queries, q.addr = addr ∧
    if q.canceled then result.status = uvEaiCanceled ∧ result.res.isNone else ¬ q.Cancels result
  | .close _ | .stop => True

instance DnsEvent.decidableEnabled (d : Dns) (env : DnsEnv) :
    ∀ e : DnsEvent, Decidable (e.enabled d env)
  | .request _ _ => inferInstanceAs (Decidable (_ ∧ _ ∧ (∀ q ∈ d.queries, _) ∧ ∀ r ∈ env.sync, _))
  | .answer addr result => inferInstanceAs (Decidable (∃ q ∈ d.queries, q.addr = addr ∧
      if q.canceled then result.status = uvEaiCanceled ∧ result.res.isNone
      else ¬ result.status = if q.cares then aresEcancelled else uvEaiCanceled))
  | .close _ | .stop => inferInstanceAs (Decidable True)

/-- The callback that an event runs. -/
def dnsCallback (env : DnsEnv) (e : DnsEvent) (d : Dns) : Dns :=
  match e with
  | .request sc domain => d.request env sc domain
  | .answer addr result => d.resolverCallback env addr result
  | .close sc => d.connClose env sc
  | .stop => d.stop env

/-- One event in its environment. -/
def dnsStep (d : Dns) (e : DnsEnv × DnsEvent) : Dns :=
  if e.2.enabled d e.1 then dnsCallback e.1 e.2 d else d

/-- The resolver of a server as `socks5_start` leaves it. -/
def Dns.init (cacheEnabled usingCares : Bool) : Dns where
  cacheEnabled := cacheEnabled
  cache := List.replicate socks5DnsCacheSize
    ⟨false, Vector.replicate 4 0, 0, 0, ⟨[], by simp, by simp⟩⟩
  queries := []
  usingCares := usingCares
  shuttingDown := false
  conns _ := ⟨false, false, none⟩
  trace := []

/-- The resolver after the events `es`. -/
def dnsRun (cacheEnabled usingCares : Bool) (es : List (DnsEnv × DnsEvent)) : Dns :=
  Machine.run dnsStep (.init cacheEnabled usingCares) es

end Wgx
