import Wgx.Lib.Run
import Wgx.Tcp.Packet

/-!
# The connections of a stack (`tcpstack_t`)

A stack keeps its connections twice: in the list `conns`, and in the buckets of a hash table over
the four-tuples, where `tcpstack_input` looks for the connection of a segment.

* `TcpStack`, `bucketLookup`, `TcpStack.connect`, `TcpStack.input`, `stackStep`: the stack, with
  the connections in a heap;
* `Linked`: a bucket holds the connections of the list with its hash, in the same order;
* `tuples_distinct`: the four-tuples stay distinct, and a lookup finds the one connection of its
  tuple, exactly as long as no ephemeral port is taken for a tuple in use.
-/

namespace Wgx

/-! ### Four-tuples -/

/-- The connection and the key agree, as `bucket_lookup` compares them. -/
def ConnAddr.matches (c key : ConnAddr) : Bool :=
  c.family == key.family && (c.localPort == key.localPort && c.remotePort == key.remotePort) &&
    match key.family with
    | .inet6 => c.localIp6 == key.localIp6 && c.remoteIp6 == key.remoteIp6
    | .inet => c.localIp == key.localIp && c.remoteIp == key.remoteIp

/-- The local and the remote address of the family. -/
def ConnAddr.ends (addr : ConnAddr) : List Byte × List Byte :=
  match addr.family with
  | .inet => (addr.localIp.toList, addr.remoteIp.toList)
  | .inet6 => (addr.localIp6.toList, addr.remoteIp6.toList)

/-- The four-tuple of a connection, with its family. -/
def ConnAddr.tuple (addr : ConnAddr) :
    Family × BitVec 16 × BitVec 16 × List Byte × List Byte :=
  (addr.family, addr.localPort, addr.remotePort, addr.ends)

theorem matches_iff (c key : ConnAddr) : c.matches key = true ↔ c.tuple = key.tuple := by
  obtain ⟨family, localIp, remoteIp, localIp6, remoteIp6, localPort, remotePort⟩ := c
  obtain ⟨family', localIp', remoteIp', localIp6', remoteIp6', localPort', remotePort'⟩ := key
  cases family <;> cases family' <;>
    simp [ConnAddr.matches, ConnAddr.tuple, ConnAddr.ends, and_assoc, Vector.toList_inj]

/-! ### The hash -/

/-- `AF_INET` and `AF_INET6`, as on Linux. -/
def Family.code : Family → BitVec 32
  | .inet => 2
  | .inet6 => 10

/-- `hash_addr32`. -/
def hashAddr32 (buf : List Byte) : BitVec 32 :=
  buf.foldl (fun h b => h * 33 ^^^ b.setWidth 32) 0

/-- An IPv4 address, loaded as a little-endian `uint32_t`. -/
def loadInAddr (ip : InAddr) : BitVec 32 := ip[3] ++ ip[2] ++ ip[1] ++ ip[0]

/-- `conn_hash`: the bucket is the hash modulo `WG_TCP_CONN_BUCKETS`, which is `2 ^ 10`. -/
def connHash (addr : ConnAddr) : BitVec 10 :=
  let h : BitVec 32 := addr.family.code ^^^ (addr.localPort.setWidth 32 <<< 16) ^^^
    addr.remotePort.setWidth 32
  let h : BitVec 32 := match addr.family with
    | .inet => h ^^^ (loadInAddr addr.localIp ^^^ loadInAddr addr.remoteIp)
    | .inet6 => h ^^^ hashAddr32 addr.localIp6.toList ^^^ hashAddr32 addr.remoteIp6.toList
  (h ^^^ h >>> 16).setWidth 10

theorem connHash_congr {c key : ConnAddr} (h : c.tuple = key.tuple) :
    connHash c = connHash key := by
  obtain ⟨family, localIp, remoteIp, localIp6, remoteIp6, localPort, remotePort⟩ := c
  obtain ⟨family', localIp', remoteIp', localIp6', remoteIp6', localPort', remotePort'⟩ := key
  simp only [ConnAddr.tuple, Prod.mk.injEq] at h
  obtain ⟨rfl, rfl, rfl, hends⟩ := h
  cases family with
  | inet =>
    obtain ⟨rfl, rfl⟩ : localIp = localIp' ∧ remoteIp = remoteIp' := by
      simpa [ConnAddr.ends, Vector.toList_inj] using hends
    rfl
  | inet6 =>
    obtain ⟨rfl, rfl⟩ : localIp6 = localIp6' ∧ remoteIp6 = remoteIp6' := by
      simpa [ConnAddr.ends, Vector.toList_inj] using hends
    rfl

/-! ### The stack -/

/-- A connection with its addresses. -/
structure StackConn where
  addr : ConnAddr
  tcp : Tcp

/-- `tcpstack_t`.  A connection is known by its number: `heap` holds those allocated so far, the
numbers below `brk`. -/
structure TcpStack where
  addrs : StackAddr
  nextPort : BitVec 16
  listeners : List (Family × BitVec 16)
  conns : List ℕ
  buckets : BitVec 10 → List ℕ
  heap : ℕ → StackConn
  brk : ℕ

namespace TcpStack

/-- The connection is going away. -/
def freed (s : TcpStack) (i : ℕ) : Bool := (s.heap i).tcp.conn.beingFreed

/-- The bucket of a connection. -/
def bucketOf (s : TcpStack) (i : ℕ) : BitVec 10 := connHash (s.heap i).addr

/-- `bucket_insert`. -/
def bucketInsert (i : ℕ) (s : TcpStack) : TcpStack :=
  { s with buckets :=
      Function.update s.buckets (s.bucketOf i) (i :: s.buckets (s.bucketOf i)) }

/-- `bucket_remove`. -/
def bucketRemove (i : ℕ) (s : TcpStack) : TcpStack :=
  { s with buckets :=
      Function.update s.buckets (s.bucketOf i) ((s.buckets (s.bucketOf i)).erase i) }

/-- `bucket_lookup`. -/
def bucketLookup (s : TcpStack) (key : ConnAddr) : Option ℕ :=
  (s.buckets (connHash key)).find? fun i => !s.freed i && (s.heap i).addr.matches key

/-- `listener_lookup`. -/
def listenerLookup (s : TcpStack) (family : Family) (localPort : BitVec 16) : Bool :=
  s.listeners.any fun l => l.1 == family && l.2 == localPort

/-- `conn_destroy` takes a connection off the list and out of its bucket. -/
def settle (i : ℕ) (s : TcpStack) : TcpStack :=
  if s.freed i then bucketRemove i { s with conns := s.conns.erase i } else s

/-- What happened to a connection. -/
def put (i : ℕ) (tcp : Tcp) (s : TcpStack) : TcpStack :=
  settle i { s with heap := Function.update s.heap i { s.heap i with tcp := tcp } }

/-- A new connection enters the list and its bucket. -/
def link (addr : ConnAddr) (tcp : Tcp) (s : TcpStack) : TcpStack :=
  bucketInsert s.brk
    { s with
      heap := Function.update s.heap s.brk ⟨addr, tcp⟩
      brk := s.brk + 1
      conns := s.brk :: s.conns }

/-- `tcpstack_init`. -/
def init (addrs : StackAddr) : TcpStack where
  addrs := addrs
  nextPort := 32768
  listeners := []
  conns := []
  buckets _ := []
  heap _ := ⟨⟨.inet, Vector.replicate 4 0, Vector.replicate 4 0, Vector.replicate 16 0,
    Vector.replicate 16 0, 0, 0⟩, ⟨Conn.fresh .closed 0 0 ⟨false, false, false, false, false⟩, []⟩⟩
  brk := 0

/-- `tcpstack_listen`, for a callback that is not `NULL`. -/
def listen (family : Family) (localPort : BitVec 16) (calloc : Bool) (s : TcpStack) : TcpStack :=
  if localPort = 0 then s
  else if family = .inet6 ∧ s.addrs.localIp6 = none then s
  else if s.listenerLookup family localPort then s
  else if !calloc then s
  else { s with listeners := (family, localPort) :: s.listeners }

end TcpStack

/-- The arguments of `tcpstack_connect` that say where to connect; the address of the other family
is not used. -/
structure Remote where
  family : Family
  ip : InAddr
  ip6 : In6Addr
  port : BitVec 16

namespace TcpStack

/-- The addresses of the next connection to a remote; `none` over IPv6 without a local address. -/
def connectAddr (s : TcpStack) (remote : Remote) : Option ConnAddr :=
  match remote.family with
  | .inet6 => s.addrs.localIp6.map fun localIp6 =>
      ⟨.inet6, Vector.replicate 4 0, Vector.replicate 4 0, localIp6, remote.ip6, s.nextPort,
        remote.port⟩
  | .inet => some ⟨.inet, s.addrs.localIp, remote.ip, Vector.replicate 16 0,
      Vector.replicate 16 0, s.nextPort, remote.port⟩

/-- The ephemeral port counter moves on. -/
def advancePort (s : TcpStack) : BitVec 16 :=
  if 60000 ≤ (s.nextPort + 1).toNat then 32768 else s.nextPort + 1

/-- `tcpstack_connect`. -/
def connect (env : TcpEnv) (remote : Remote) (iss : Seq) (handlers : Handlers) (calloc : Bool)
    (s : TcpStack) : TcpStack :=
  if !calloc then s
  else
    match s.connectAddr remote with
    | none => s
    | some addr =>
      if !env.malloc wgTcpSendbufInitialSize then s
      else link addr (tcpstackConnect env iss handlers) { s with nextPort := s.advancePort }

/-- The addresses of the connection that a packet is for. -/
def packetAddr (d : Decoded) : ConnAddr :=
  ⟨d.family, d.dstIp, d.srcIp, d.dstIp6, d.srcIp6, d.dstPort, d.srcPort⟩

/-- `tcpstack_input`: the connection of a segment takes it; without one, a SYN at a listener opens
a connection, to which `on_accept` gives the callbacks `handlers`. -/
def input (env : TcpEnv) (pkt : List Byte) (iss : Seq) (handlers : Handlers) (calloc : Bool)
    (s : TcpStack) : TcpStack :=
  match decodePacket s.addrs pkt with
  | none => s
  | some d =>
    match s.bucketLookup (packetAddr d) with
    | some i => put i (tcpstackInput env d.seg (s.heap i).tcp) s
    | none =>
      if !s.listenerLookup d.family d.dstPort || !d.seg.flags.syn || d.seg.flags.ack then s
      else if !calloc || !env.malloc wgTcpSendbufInitialSize then s
      else settle s.brk (link (packetAddr d) (tcpstackAccept env iss handlers d.seg) s)

end TcpStack

/-- What can happen to a stack: its owner listens or connects, a packet arrives, or something
other than a segment happens to a connection. -/
inductive StackEvent
  | listen (family : Family) (localPort : BitVec 16) (calloc : Bool)
  | connect (remote : Remote) (iss : Seq) (handlers : Handlers) (calloc : Bool)
  | packet (pkt : List Byte) (iss : Seq) (handlers : Handlers) (calloc : Bool)
  | conn (i : ℕ) (e : TcpEvent)

/-- One event in its environment. -/
def stackStep (s : TcpStack) (e : TcpEnv × StackEvent) : TcpStack :=
  match e.2 with
  | .listen family localPort calloc => s.listen family localPort calloc
  | .connect remote iss handlers calloc => s.connect e.1 remote iss handlers calloc
  | .packet pkt iss handlers calloc => s.input e.1 pkt iss handlers calloc
  | .conn _ (.input _) => s
  | .conn i e' => if i < s.brk then s.put i (tcpStep (s.heap i).tcp (e.1, e')) else s

/-! ### List and buckets agree -/

namespace TcpStack

/-- A bucket holds the connections of the list with its hash, in the same order. -/
structure Linked (s : TcpStack) : Prop where
  bound : ∀ i ∈ s.conns, i < s.brk
  nodup : s.conns.Nodup
  buckets : ∀ b, s.buckets b = s.conns.filter fun i => s.bucketOf i = b

/-- No connection of the list is going away, but perhaps `i`. -/
def LiveBut (i : Option ℕ) (s : TcpStack) : Prop :=
  ∀ j ∈ s.conns, some j ≠ i → s.freed j = false

/-- The list and the buckets agree and hold live connections. -/
structure Sound (s : TcpStack) : Prop extends s.Linked where
  live : s.LiveBut none

section Steps

variable {s : TcpStack} {i : ℕ} {tcp : Tcp} {addr : ConnAddr}

theorem linked_init (addrs : StackAddr) : (init addrs).Sound :=
  ⟨⟨nofun, List.nodup_nil, fun _ => rfl⟩, nofun⟩

theorem settle_conns : (settle i s).conns = if s.freed i then s.conns.erase i else s.conns := by
  unfold settle
  split_ifs <;> rfl

theorem settle_heap : (settle i s).heap = s.heap := by
  unfold settle
  split_ifs <;> rfl

theorem filter_erase_self {l : List ℕ} (hl : l.Nodup) (p : ℕ → Bool) :
    (l.erase i).filter p = (l.filter p).erase i := by
  rw [hl.erase_eq_filter, (hl.filter p).erase_eq_filter, List.filter_filter, List.filter_filter]
  exact List.filter_congr fun j _ => Bool.and_comm _ _

theorem linked_settle (h : s.Linked) : (settle i s).Linked := by
  unfold settle
  split_ifs with hfreed
  · refine ⟨fun j hj => h.bound j (List.mem_of_mem_erase hj), h.nodup.erase i, fun b => ?_⟩
    show Function.update s.buckets (s.bucketOf i) ((s.buckets (s.bucketOf i)).erase i) b =
      (s.conns.erase i).filter fun j => s.bucketOf j = b
    rw [filter_erase_self h.nodup, ← h.buckets b]
    by_cases hb : b = s.bucketOf i
    · rw [hb, Function.update_self]
    · rw [Function.update_of_ne hb, List.erase_of_not_mem]
      rw [h.buckets b, List.mem_filter, not_and]
      intro _ hno
      exact hb (of_decide_eq_true hno).symm
  · exact h

theorem sound_settle (h : s.Linked) (hlive : s.LiveBut (some i)) : (settle i s).Sound := by
  refine ⟨linked_settle h, fun j hj _ => ?_⟩
  rw [settle_conns] at hj
  rw [freed, settle_heap]
  by_cases hfreed : s.freed i = true
  · rw [if_pos hfreed] at hj
    have hne : j ≠ i := fun heq => by
      rw [heq] at hj
      exact h.nodup.not_mem_erase hj
    exact hlive j (List.mem_of_mem_erase hj) (fun heq => hne (Option.some.inj heq))
  · rw [if_neg hfreed] at hj
    by_cases hji : j = i
    · rw [hji]
      exact Bool.eq_false_iff.2 hfreed
    · exact hlive j hj (fun heq => hji (Option.some.inj heq))

/-- The state of a connection can be replaced; its addresses stay. -/
theorem addr_update (j : ℕ) :
    (Function.update s.heap i { s.heap i with tcp := tcp } j).addr = (s.heap j).addr := by
  by_cases hj : j = i
  · rw [hj, Function.update_self]
  · rw [Function.update_of_ne hj]

theorem sound_put (h : s.Sound) : (put i tcp s).Sound := by
  refine sound_settle ⟨h.bound, h.nodup, fun b => ?_⟩ fun j hj hne => ?_
  · refine (h.buckets b).trans (List.filter_congr fun j _ => ?_)
    show decide (s.bucketOf j = b) = decide (connHash (Function.update s.heap i _ j).addr = b)
    rw [addr_update j]
    rfl
  · have hji : j ≠ i := fun heq => hne (congrArg some heq)
    show (Function.update s.heap i _ j).tcp.conn.beingFreed = false
    rw [Function.update_of_ne hji]
    exact h.live j hj nofun

theorem heap_link_old {j : ℕ} (hj : j < s.brk) : (link addr tcp s).heap j = s.heap j :=
  Function.update_of_ne (Nat.ne_of_lt hj) _ _

theorem heap_link_new : (link addr tcp s).heap s.brk = ⟨addr, tcp⟩ := Function.update_self ..

theorem linked_link (h : s.Linked) : (link addr tcp s).Linked := by
  refine ⟨?_, ?_, fun b => ?_⟩
  · show ∀ j ∈ s.brk :: s.conns, j < s.brk + 1
    rw [List.forall_mem_cons]
    exact ⟨Nat.lt_succ_self _, fun j hj => Nat.lt_succ_of_lt (h.bound j hj)⟩
  · exact List.nodup_cons.2 ⟨fun hmem => (h.bound _ hmem).false, h.nodup⟩
  · have hold : s.conns.filter (fun j => (link addr tcp s).bucketOf j = b) = s.buckets b := by
      rw [h.buckets b]
      refine List.filter_congr fun j hj => ?_
      rw [bucketOf, heap_link_old (h.bound j hj)]
      rfl
    show Function.update s.buckets ((link addr tcp s).bucketOf s.brk)
      (s.brk :: s.buckets ((link addr tcp s).bucketOf s.brk)) b = (s.brk :: s.conns).filter _
    rw [List.filter_cons, hold]
    by_cases hb : (link addr tcp s).bucketOf s.brk = b
    · rw [if_pos (decide_eq_true hb), hb, Function.update_self]
    · rw [if_neg (by simpa using hb), Function.update_of_ne (Ne.symm hb)]

theorem live_link (h : s.Sound) : (link addr tcp s).LiveBut (some s.brk) := by
  refine List.forall_mem_cons.2 ⟨fun hno => absurd rfl hno, fun j hj _ => ?_⟩
  rw [freed, heap_link_old (h.bound j hj)]
  exact h.live j hj nofun

/-- A connection that is not closed at once needs no settling. -/
theorem settle_of_live (hlive : s.freed i = false) : settle i s = s := by
  rw [settle, if_neg (by simp [hlive])]

theorem sound_link (h : s.Sound) (htcp : tcp.conn.beingFreed = false) :
    (link addr tcp s).Sound := by
  have hsettle := sound_settle (linked_link h.toLinked) (@live_link _ tcp addr h)
  rwa [settle_of_live (by rw [freed, heap_link_new]; exact htcp)] at hsettle

/-- The counter of the ephemeral ports does not matter to the list and the buckets. -/
theorem sound_nextPort (h : s.Sound) (port : BitVec 16) : { s with nextPort := port }.Sound :=
  ⟨⟨h.bound, h.nodup, h.buckets⟩, h.live⟩

theorem sound_listeners (h : s.Sound) (ls : List (Family × BitVec 16)) :
    { s with listeners := ls }.Sound := ⟨⟨h.bound, h.nodup, h.buckets⟩, h.live⟩

end Steps

/-! ### What an event does -/

/-- The addresses of the connection that an event makes by connecting. -/
def connects (s : TcpStack) (e : TcpEnv × StackEvent) : Option ConnAddr :=
  match e.2 with
  | .connect remote _ _ calloc =>
    if calloc && e.1.malloc wgTcpSendbufInitialSize then s.connectAddr remote else none
  | _ => none

/-- An event leaves the connections alone, replaces the state of one, or adds one. -/
inductive Shape (s : TcpStack) : Option ConnAddr → TcpStack → Prop
  | same (ls : List (Family × BitVec 16)) : Shape s none { s with listeners := ls }
  | put (i : ℕ) (tcp : Tcp) : Shape s none (put i tcp s)
  | connect (addr : ConnAddr) (tcp : Tcp) (hlive : tcp.conn.beingFreed = false) :
      Shape s (some addr) (link addr tcp { s with nextPort := s.advancePort })
  | accept (addr : ConnAddr) (tcp : Tcp) (hnone : s.bucketLookup addr = none) :
      Shape s none (settle s.brk (link addr tcp s))

section Shape

variable (s : TcpStack) (env : TcpEnv)

theorem shape_listen (family : Family) (localPort : BitVec 16) (calloc : Bool) :
    Shape s none (s.listen family localPort calloc) := by
  unfold listen
  split_ifs <;> exact .same _

theorem shape_connect (remote : Remote) (iss : Seq) (handlers : Handlers) (calloc : Bool) :
    Shape s (s.connects (env, .connect remote iss handlers calloc))
      (s.connect env remote iss handlers calloc) := by
  unfold connects connect
  simp only
  cases calloc with
  | false => exact .same _
  | true =>
    simp only [Bool.true_and, Bool.not_true, Bool.false_eq_true, if_false]
    cases haddr : s.connectAddr remote with
    | none =>
      simp only [ite_self]
      exact .same _
    | some addr =>
      cases hmalloc : env.malloc wgTcpSendbufInitialSize with
      | false => exact .same _
      | true => exact .connect addr _ rfl

theorem shape_input (pkt : List Byte) (iss : Seq) (handlers : Handlers) (calloc : Bool) :
    Shape s none (s.input env pkt iss handlers calloc) := by
  unfold input
  cases decodePacket s.addrs pkt with
  | none => exact .same _
  | some d =>
    cases hlookup : s.bucketLookup (packetAddr d) with
    | some i =>
      simp only [hlookup]
      exact .put i _
    | none =>
      simp only [hlookup]
      split_ifs
      · exact .same _
      · exact .same _
      · exact .accept _ _ hlookup

theorem stackStep_shape (e : TcpEnv × StackEvent) :
    Shape s (s.connects e) (stackStep s e) := by
  obtain ⟨env, e⟩ := e
  cases e with
  | listen family localPort calloc => exact shape_listen s family localPort calloc
  | connect remote iss handlers calloc => exact shape_connect s env remote iss handlers calloc
  | packet pkt iss handlers calloc => exact shape_input s env pkt iss handlers calloc
  | conn i e =>
    have hput : ∀ tcp : Tcp, Shape s none (if i < s.brk then s.put i tcp else s) := fun tcp => by
      split_ifs
      · exact .put i tcp
      · exact .same _
    cases e with
    | input seg => exact .same _
    | _ => exact hput _

end Shape

section Steps

variable {s s' : TcpStack} {opened : Option ConnAddr}

theorem sound_shape (h : s.Sound) (hs : Shape s opened s') : s'.Sound := by
  cases hs with
  | same ls => exact sound_listeners h ls
  | put i tcp => exact sound_put h
  | connect addr tcp hlive => exact sound_link (sound_nextPort h _) hlive
  | accept addr tcp hnone => exact sound_settle (linked_link h.toLinked) (live_link h)

/-! ### Distinct four-tuples -/

/-- The four-tuple of a connection. -/
def tupleOf (s : TcpStack) (i : ℕ) :
    Family × BitVec 16 × BitVec 16 × List Byte × List Byte := (s.heap i).addr.tuple

/-- No two connections of the list share their four-tuple. -/
def Distinct (s : TcpStack) : Prop := (s.conns.map s.tupleOf).Nodup

/-- The four-tuple is not in use. -/
def Unused (s : TcpStack) (addr : ConnAddr) : Prop := ∀ i ∈ s.conns, s.tupleOf i ≠ addr.tuple

/-- The port of a connection that is about to be made is not taken for the same remote. -/
def PortFree (s : TcpStack) (e : TcpEnv × StackEvent) : Prop :=
  ∀ addr ∈ s.connects e, s.Unused addr

theorem mem_of_lookup (h : s.Sound) {key : ConnAddr} {i : ℕ}
    (hlookup : s.bucketLookup key = some i) : i ∈ s.conns ∧ s.tupleOf i = key.tuple := by
  have hmem := List.mem_of_find?_eq_some hlookup
  rw [h.buckets, List.mem_filter] at hmem
  have hfound := List.find?_some hlookup
  rw [Bool.and_eq_true, matches_iff] at hfound
  exact ⟨hmem.1, hfound.2⟩

/-- `bucket_lookup` finds a connection of the four-tuple if there is one. -/
theorem lookup_eq_none_iff (h : s.Sound) (key : ConnAddr) :
    s.bucketLookup key = none ↔ s.Unused key := by
  rw [bucketLookup, List.find?_eq_none]
  constructor
  · intro hnone i hi htuple
    refine hnone i ?_ ?_
    · rw [h.buckets, List.mem_filter]
      exact ⟨hi, decide_eq_true (connHash_congr htuple)⟩
    · rw [h.live i hi nofun, Bool.not_false, Bool.true_and, matches_iff]
      exact htuple
  · intro hunused i hi hfound
    rw [h.buckets, List.mem_filter] at hi
    rw [Bool.and_eq_true, matches_iff] at hfound
    exact hunused i hi.1 hfound.2

/-- With distinct four-tuples, `bucket_lookup` finds the connection of the four-tuple. -/
theorem lookup_eq_some_iff (h : s.Sound) (hdistinct : s.Distinct) (key : ConnAddr) (i : ℕ) :
    s.bucketLookup key = some i ↔ i ∈ s.conns ∧ s.tupleOf i = key.tuple := by
  refine ⟨mem_of_lookup h, fun ⟨hi, htuple⟩ => ?_⟩
  cases hlookup : s.bucketLookup key with
  | none => exact absurd htuple ((lookup_eq_none_iff h key).1 hlookup i hi)
  | some j =>
    obtain ⟨hj, htuple'⟩ := mem_of_lookup h hlookup
    rw [List.inj_on_of_nodup_map hdistinct hj hi (htuple'.trans htuple.symm)]

theorem distinct_link {addr : ConnAddr} {tcp : Tcp} (h : s.Linked) :
    (link addr tcp s).Distinct ↔ s.Distinct ∧ s.Unused addr := by
  have hold : (s.conns.map (link addr tcp s).tupleOf) = s.conns.map s.tupleOf :=
    List.map_congr_left fun j hj => by rw [tupleOf, heap_link_old (h.bound j hj)]; rfl
  have hnew : (link addr tcp s).tupleOf s.brk = addr.tuple := by rw [tupleOf, heap_link_new]
  rw [Distinct, show (link addr tcp s).conns = s.brk :: s.conns from rfl, List.map_cons,
    List.nodup_cons, hold, hnew, and_comm, List.mem_map]
  refine and_congr Iff.rfl ⟨fun hno i hi heq => hno ⟨i, hi, heq⟩, ?_⟩
  rintro hunused ⟨i, hi, heq⟩
  exact hunused i hi heq

theorem distinct_settle {i : ℕ} (h : s.Distinct) : (settle i s).Distinct := by
  have htuple : (settle i s).tupleOf = s.tupleOf := funext fun j => by
    rw [tupleOf, settle_heap]; rfl
  have hsub : (settle i s).conns.Sublist s.conns := by
    rw [settle_conns]
    split_ifs
    · exact List.erase_sublist
    · exact List.Sublist.refl _
  rw [Distinct, htuple]
  exact h.sublist (hsub.map _)

theorem distinct_put {i : ℕ} {tcp : Tcp} (h : s.Distinct) : (put i tcp s).Distinct := by
  refine distinct_settle ?_
  have htuple : tupleOf { s with heap := Function.update s.heap i { s.heap i with tcp := tcp } } =
      s.tupleOf := funext fun j => congrArg ConnAddr.tuple (addr_update j)
  rw [Distinct, htuple]
  exact h

/-- An event keeps the four-tuples distinct exactly if the port it takes is free. -/
theorem distinct_shape (h : s.Sound) (hdistinct : s.Distinct) (hs : Shape s opened s') :
    (∀ addr ∈ opened, s.Unused addr) ↔ s'.Distinct := by
  cases hs with
  | same ls => exact ⟨fun _ => hdistinct, fun _ => nofun⟩
  | put i tcp => exact ⟨fun _ => distinct_put hdistinct, fun _ => nofun⟩
  | connect addr tcp hlive =>
    rw [distinct_link (sound_nextPort h _).toLinked]
    constructor
    · exact fun hunused => ⟨hdistinct, hunused addr rfl⟩
    · rintro hnext addr' heq
      cases heq
      exact hnext.2
  | accept addr tcp hnone =>
    refine ⟨fun _ => distinct_settle ?_, fun _ => nofun⟩
    rw [distinct_link h.toLinked]
    exact ⟨hdistinct, (lookup_eq_none_iff h addr).1 hnone⟩

end Steps

/-- The four-tuples are distinct, and a lookup finds the one connection of its four-tuple. -/
structure Demuxes (s : TcpStack) : Prop where
  distinct : s.Distinct
  lookup : ∀ key i, s.bucketLookup key = some i ↔ i ∈ s.conns ∧ s.tupleOf i = key.tuple

theorem demuxes_iff {s : TcpStack} (h : s.Sound) : s.Demuxes ↔ s.Distinct :=
  ⟨Demuxes.distinct, fun hdistinct => ⟨hdistinct, lookup_eq_some_iff h hdistinct⟩⟩

end TcpStack

open TcpStack

/-- **Live connections have distinct four-tuples**, and each lookup finds the one connection of its
four-tuple, in every state of a run, exactly if no connection is ever made from an ephemeral port
that is in use for the same remote. -/
theorem tuples_distinct (addrs : StackAddr) (es : List (TcpEnv × StackEvent)) :
    Machine.Guarded stackStep PortFree (init addrs) es ↔
      ∀ pre, pre <+: es → (Machine.run stackStep (init addrs) pre).Demuxes := by
  refine @Machine.guarded_iff_forall_prefix _ _ stackStep PortFree (fun s => s.Sound ∧ s.Distinct)
    Demuxes (fun s e h hfree => ?_) (fun s h => (demuxes_iff h.1).2 h.2) (fun s e h hnext => ?_) _
    ⟨linked_init addrs, List.nodup_nil⟩ es
  · have hshape := stackStep_shape s e
    exact ⟨sound_shape h.1 hshape, (distinct_shape h.1 h.2 hshape).1 hfree⟩
  · exact (distinct_shape h.1 h.2 (stackStep_shape s e)).2 hnext.distinct

/-! ### The port counter wraps -/

/-- The addresses of a stack without IPv6. -/
def exampleStackAddr : StackAddr := ⟨exampleAddr.localIp, none⟩

/-- A server that every connection below goes to. -/
def exampleRemote : Remote := ⟨.inet, exampleAddr.remoteIp, exampleAddr.remoteIp6, 80⟩

/-- A connection to the server from the `i`-th ephemeral port. -/
def exampleFlow (i : ℕ) : ConnAddr :=
  { exampleAddr with localPort := BitVec.ofNat 16 (32768 + i % 27232) }

/-- The stack after `n` calls of `tcpstack_connect`, none of which was closed. -/
def afterConnects (n : ℕ) : TcpStack :=
  Machine.run stackStep (init exampleStackAddr)
    (List.replicate n (exampleEnv, .connect exampleRemote 0 exampleHandlers true))

theorem afterConnects_succ (n : ℕ) :
    afterConnects (n + 1) = (afterConnects n).connect exampleEnv exampleRemote 0 exampleHandlers
      true := by
  rw [afterConnects, List.replicate_succ', Machine.run_snoc]
  rfl

/-- The connections of `afterConnects` and their ports. -/
theorem afterConnects_ports (n : ℕ) :
    (afterConnects n).addrs = exampleStackAddr ∧ (afterConnects n).brk = n ∧
      (afterConnects n).nextPort = BitVec.ofNat 16 (32768 + n % 27232) ∧
      ∀ i < n, i ∈ (afterConnects n).conns ∧ ((afterConnects n).heap i).addr = exampleFlow i := by
  induction n with
  | zero => exact ⟨rfl, rfl, rfl, nofun⟩
  | succ n ih =>
    obtain ⟨haddrs, hbrk, hport, hconns⟩ := ih
    have haddr : (afterConnects n).connectAddr exampleRemote = some (exampleFlow n) := by
      rw [connectAddr, haddrs, hport]
      rfl
    have hstep : afterConnects (n + 1) = link (exampleFlow n)
        (tcpstackConnect exampleEnv 0 exampleHandlers)
        { afterConnects n with nextPort := (afterConnects n).advancePort } := by
      rw [afterConnects_succ, connect, haddr]
      rfl
    generalize htcp : tcpstackConnect exampleEnv 0 exampleHandlers = tcp at hstep
    rw [hstep]
    refine ⟨haddrs, congrArg (· + 1) hbrk, ?_, fun i hi => ?_⟩
    · show (afterConnects n).advancePort = _
      rw [advancePort, hport]
      have hmod : n % 27232 < 27232 := Nat.mod_lt _ (by decide)
      have hnext : (BitVec.ofNat 16 (32768 + n % 27232) + 1).toNat = 32768 + n % 27232 + 1 := by
        rw [BitVec.toNat_add, BitVec.toNat_ofNat]
        show ((32768 + n % 27232) % 2 ^ 16 + 1) % 2 ^ 16 = _
        omega
      rw [hnext]
      split_ifs with hwrap
      · rw [show (n + 1) % 27232 = 0 by omega]
        rfl
      · refine BitVec.eq_of_toNat_eq ?_
        rw [hnext, BitVec.toNat_ofNat]
        omega
    · show i ∈ (afterConnects n).brk :: (afterConnects n).conns ∧
        (Function.update (afterConnects n).heap (afterConnects n).brk ⟨_, tcp⟩ i).addr = _
      rw [hbrk]
      by_cases hin : i = n
      · rw [hin, Function.update_self]
        exact ⟨List.mem_cons_self, rfl⟩
      · obtain ⟨hmem, hheap⟩ := hconns i (by omega)
        rw [Function.update_of_ne hin]
        exact ⟨List.mem_cons_of_mem _ hmem, hheap⟩

/-- The connection that is made when the port counter has come round has the four-tuple of the
first. -/
theorem port_reused : ¬ ∀ (addrs : StackAddr) (es : List (TcpEnv × StackEvent)),
    (Machine.run stackStep (init addrs) es).Demuxes := by
  intro h
  have hdemux : (afterConnects 27233).Demuxes := h _ _
  obtain ⟨-, -, -, hconns⟩ := afterConnects_ports 27233
  obtain ⟨hfirst, haddr⟩ := hconns 0 (by decide)
  obtain ⟨hlast, haddr'⟩ := hconns 27232 (by decide)
  have heq : (afterConnects 27233).tupleOf 0 = (afterConnects 27233).tupleOf 27232 := by
    rw [tupleOf, tupleOf, haddr, haddr']
    rfl
  exact absurd (List.inj_on_of_nodup_map hdemux.distinct hfirst hlast heq) (by decide)

end Wgx
