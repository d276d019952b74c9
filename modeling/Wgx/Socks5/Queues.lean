import Wgx.Lib.Fifo
import Wgx.Socks5.Gate
import Wgx.Tcp.Sendbuf

/-!
# The byte rings are queues

The send buffer of the TCP stack and the pending buffer of the SOCKS5 server are rings.

* `growCap_spec`, `pendingCapFor_spec`: the doubling loops reach what is needed, up to the limit;
* `sendbufStep`, `pendingStep`: the operations of the two rings, with the guards of their callers;
* `implements_sendbuf`, `implements_pending`: the rings behave as queues;
* `rings_fifo`: what this says of every sequence of operations.
-/

namespace Wgx

open Fifo

/-! ### The doubling loops -/

/-- A doubling that ends at `need` or at `limit` reaches one of them, if there are enough rounds. -/
theorem growCap_spec {need : ℕ} (fuel : ℕ) {cap : ℕ} (hfuel : wgTcpSendbufSize ≤ cap * 2 ^ fuel) :
    cap ≤ growCap need fuel cap ∧
      (need ≤ growCap need fuel cap ∨ wgTcpSendbufSize ≤ growCap need fuel cap) := by
  induction fuel generalizing cap with
  | zero =>
    rw [pow_zero, mul_one] at hfuel
    exact ⟨le_rfl, Or.inr hfuel⟩
  | succ fuel ih =>
    unfold growCap
    split_ifs with hmore
    · obtain ⟨hle, hreach⟩ := @ih (cap * 2) (by rw [pow_succ'] at hfuel; rwa [mul_assoc])
      exact ⟨by omega, hreach⟩
    · rw [not_and_or, not_lt, not_lt] at hmore
      exact ⟨le_rfl, hmore⟩

theorem pendingCapFor_spec {need : ℕ} (fuel : ℕ) {cap : ℕ}
    (hfuel : socks5PendingLimit ≤ cap * 2 ^ fuel) :
    cap ≤ pendingCapFor need fuel cap ∧
      (need ≤ pendingCapFor need fuel cap ∨ socks5PendingLimit ≤ pendingCapFor need fuel cap) := by
  induction fuel generalizing cap with
  | zero =>
    rw [pow_zero, mul_one] at hfuel
    exact ⟨le_rfl, Or.inr hfuel⟩
  | succ fuel ih =>
    unfold pendingCapFor
    split_ifs with hmore
    · obtain ⟨hle, hreach⟩ := @ih (cap * 2) (by rw [pow_succ'] at hfuel; rwa [mul_assoc])
      exact ⟨by omega, hreach⟩
    · rw [not_and_or, not_lt, not_lt] at hmore
      exact ⟨le_rfl, hmore⟩

/-! ### The send buffer -/

/-- An operation of the send buffer; `append` is what `tcp_send` does with its data. -/
inductive SendbufOp
  | grow (need : ℕ)
  | append (data : List Byte)
  | consume (len : ℕ)

/-- The connection after an operation. -/
def sendbufStep (conn : Conn) (e : TcpEnv × SendbufOp) : Conn :=
  match e.2 with
  | .grow need => (sendbufGrow e.1 conn need).getD conn
  | .append data =>
    match sendbufGrow e.1 conn (conn.sendbufLen + data.length) with
    | none => conn
    | some grown => sendbufAppend grown data
  | .consume len => sendbufConsume conn len

/-- What the callers see to: `tcp_send` checks the size, and no more is acknowledged than is there;
and there is memory. -/
def SendbufGuard (conn : Conn) (e : TcpEnv × SendbufOp) : Prop :=
  (∀ size, e.1.malloc size = true) ∧
    match e.2 with
    | .grow _ => True
    | .append data => conn.sendbufLen + data.length ≤ wgTcpSendbufSize
    | .consume len => len ≤ conn.sendbufLen

/-- What an operation does to the queue. -/
def SendbufOp.toOp : SendbufOp → Op Byte
  | .grow _ => .put []
  | .append data => .put data
  | .consume len => .take len

/-- A well-formed ring that never was smaller than the initial one. -/
structure Conn.SendbufOk (conn : Conn) : Prop extends conn.RingOk where
  initial_le : wgTcpSendbufInitialSize ≤ conn.sendbufCap

/-- With memory, the ring grows to any size within its limit. -/
theorem sendbufGrow_isSome {env : TcpEnv} {conn : Conn} {need : ℕ} (h : conn.SendbufOk)
    (hmalloc : ∀ size, env.malloc size = true) (hneed : need ≤ wgTcpSendbufSize) :
    (sendbufGrow env conn need).isSome = true := by
  have hcap := h.initial_le
  have hpos := h.cap_pos
  unfold sendbufGrow
  by_cases hroom : need ≤ conn.sendbufCap
  · rw [if_pos hroom]
    rfl
  · rw [if_neg hroom]
    simp only [if_pos hpos.ne']
    have hfuel : wgTcpSendbufSize ≤ conn.sendbufCap * 2 ^ 18 := by
      refine le_trans ?_ (Nat.mul_le_mul_right _ hcap)
      decide
    obtain ⟨-, hreach⟩ := @growCap_spec need 18 _ hfuel
    rw [if_neg (by split_ifs <;> omega), hmalloc]
    rfl

/-- The ring never shrinks. -/
theorem sendbufOk_sendbufGrow {env : TcpEnv} {conn grown : Conn} {need : ℕ} (h : conn.SendbufOk)
    (hgrow : sendbufGrow env conn need = some grown) : grown.SendbufOk := by
  by_cases hroom : need ≤ conn.sendbufCap
  · rw [sendbufGrow, if_pos hroom] at hgrow
    cases hgrow
    exact h
  · have hneed : conn.sendbufLen ≤ need := h.len_le.trans (Nat.le_of_not_le hroom)
    obtain ⟨-, hok, hle, -⟩ := sendbufGrow_spec h.toRingOk hneed hgrow
    have hcap := h.initial_le
    exact ⟨hok, by omega⟩

theorem contents_sendbufGrow {env : TcpEnv} {conn grown : Conn} {need : ℕ} (h : conn.SendbufOk)
    (hgrow : sendbufGrow env conn need = some grown) : grown.contents = conn.contents := by
  by_cases hroom : need ≤ conn.sendbufCap
  · rw [sendbufGrow, if_pos hroom] at hgrow
    cases hgrow
    rfl
  · have hneed : conn.sendbufLen ≤ need := h.len_le.trans (Nat.le_of_not_le hroom)
    exact (sendbufGrow_spec h.toRingOk hneed hgrow).2.2.2

/-- What `tcp_send` does to the ring. -/
theorem sendbufStep_append {env : TcpEnv} {conn : Conn} {data : List Byte} (h : conn.SendbufOk)
    (hguard : SendbufGuard conn (env, .append data)) :
    (sendbufStep conn (env, .append data)).SendbufOk ∧
      (sendbufStep conn (env, .append data)).contents = conn.contents ++ data := by
  obtain ⟨grown, hgrow⟩ := Option.isSome_iff_exists.1 (sendbufGrow_isSome h hguard.1 hguard.2)
  have hok := sendbufOk_sendbufGrow h hgrow
  obtain ⟨hframe, -, hle, hsame⟩ := sendbufGrow_spec h.toRingOk (Nat.le_add_right _ _) hgrow
  have hlen : grown.sendbufLen = conn.sendbufLen := by rw [hframe]
  have hfit : grown.sendbufLen + data.length ≤ grown.sendbufCap := hlen ▸ hle
  have hstep : sendbufStep conn (env, .append data) = sendbufAppend grown data := by
    simp only [sendbufStep, hgrow]
  rw [hstep]
  refine ⟨⟨ringOk_sendbufAppend hok.toRingOk hfit, hok.initial_le⟩, ?_⟩
  rw [contents_sendbufAppend hok.toRingOk hfit, hsame]

theorem implements_sendbuf :
    Implements sendbufStep Conn.SendbufOk SendbufGuard Conn.contents fun e => e.2.toOp where
  ok_step := by
    rintro conn ⟨env, op⟩ h hguard
    cases op with
    | grow need =>
      show ((sendbufGrow env conn need).getD conn).SendbufOk
      cases hgrow : sendbufGrow env conn need with
      | none => exact h
      | some grown => exact sendbufOk_sendbufGrow h hgrow
    | append data => exact (sendbufStep_append h hguard).1
    | consume len =>
      refine ⟨ringOk_sendbufConsume h.toRingOk len, ?_⟩
      show _ ≤ (sendbufConsume conn len).sendbufCap
      unfold sendbufConsume
      split_ifs <;> exact h.initial_le
  within := by
    rintro conn ⟨env, op⟩ - hguard
    cases op with
    | grow need => trivial
    | append data => trivial
    | consume len =>
      show len ≤ conn.contents.length
      rw [Conn.length_contents]
      exact hguard.2
  contents_step := by
    rintro conn ⟨env, op⟩ h hguard
    cases op with
    | grow need =>
      refine Eq.trans ?_ (List.append_nil _).symm
      show ((sendbufGrow env conn need).getD conn).contents = conn.contents
      cases hgrow : sendbufGrow env conn need with
      | none => rfl
      | some grown => exact contents_sendbufGrow h hgrow
    | append data => exact (sendbufStep_append h hguard).2
    | consume len => exact contents_sendbufConsume conn len

/-! ### The pending buffer -/

/-- The bytes of the pending ring, oldest first. -/
def Pending.contents (ring : Pending) : List Byte :=
  Ring.window ring.data ring.cap ring.head ring.len

@[simp] theorem Pending.length_contents (ring : Pending) : ring.contents.length = ring.len := by
  simp [Pending.contents]

/-- The ring is well formed: it has no memory, or at least that for one read. -/
structure Pending.Ok (ring : Pending) : Prop where
  head : ring.cap = 0 ∧ ring.head = 0 ∨ ring.head < ring.cap ∧ socks5ReadBufsize ≤ ring.cap
  len_le : ring.len ≤ ring.cap
  cap_le : ring.cap ≤ socks5PendingLimit

theorem Pending.ok_empty : Pending.empty.Ok :=
  ⟨Or.inl ⟨rfl, rfl⟩, le_rfl, Nat.zero_le _⟩

/-- An operation of the pending buffer; `release` is how `flush_pending_to_wg` ends when it has
sent everything. -/
inductive PendingOp
  | grow (need : ℕ)
  | append (data : List Byte)
  | consume (len : ℕ)
  | release

/-- The ring after an operation. -/
def pendingStep (ring : Pending) (e : SocksEnv × PendingOp) : Pending :=
  match e.2 with
  | .grow need => (pendingGrow e.1 ring need).getD ring
  | .append data => (pendingAppend e.1 ring data).getD ring
  | .consume len => pendingConsume ring len
  | .release => .empty

/-- What the callers see to: what does not fit is not appended, and no more is consumed than is
there; and there is memory. -/
def PendingGuard (ring : Pending) (e : SocksEnv × PendingOp) : Prop :=
  (∀ size, e.1.malloc size = true) ∧
    match e.2 with
    | .grow _ => True
    | .append data => ring.len + data.length ≤ socks5PendingLimit
    | .consume len => len ≤ ring.len
    | .release => ring.len = 0

/-- What an operation does to the queue. -/
def PendingOp.toOp : PendingOp → Op Byte
  | .grow _ => .put []
  | .append data => .put data
  | .consume len => .take len
  | .release => .take 0

section Pending

variable {env : SocksEnv} {ring grown : Pending} {need : ℕ}

/-- A grown ring holds the same bytes and has room for what it was grown for. -/
theorem pendingGrow_spec (h : ring.Ok) (hgrow : pendingGrow env ring need = some grown) :
    grown.Ok ∧ grown.len = ring.len ∧ need ≤ grown.cap ∧ grown.contents = ring.contents := by
  unfold pendingGrow at hgrow
  by_cases hroom : need ≤ ring.cap
  · rw [if_pos hroom] at hgrow
    cases hgrow
    exact ⟨h, rfl, hroom, rfl⟩
  rw [if_neg hroom] at hgrow
  simp only at hgrow
  generalize hstart : (if ring.cap ≠ 0 then ring.cap else socks5ReadBufsize) = start at hgrow
  have hread : socks5ReadBufsize ≤ start := by
    rcases h.head with ⟨hzero, -⟩ | ⟨hlt, hle⟩
    · rw [if_neg (not_not.2 hzero)] at hstart
      exact hstart.le
    · rw [if_pos (by omega)] at hstart
      omega
  have hfuel : socks5PendingLimit ≤ start * 2 ^ 19 :=
    le_trans (by decide) (Nat.mul_le_mul_right _ hread)
  obtain ⟨hge, -⟩ := @pendingCapFor_spec need 19 start hfuel
  generalize pendingCapFor need 19 start = cap at hgrow hge
  generalize hclip : (if cap > socks5PendingLimit then socks5PendingLimit else cap) = newCap
    at hgrow
  have hlimit : socks5ReadBufsize ≤ socks5PendingLimit := by decide
  have hmax : newCap ≤ socks5PendingLimit ∧ socks5ReadBufsize ≤ newCap := by
    split_ifs at hclip <;> omega
  split_ifs at hgrow with hsmall hmalloc
  cases hgrow
  have hpos : 0 < socks5ReadBufsize := by decide
  have hlen := h.len_le
  have hfit : ring.len ≤ newCap := by omega
  refine ⟨⟨Or.inr ⟨by show 0 < newCap; omega, hmax.2⟩, hfit, hmax.1⟩, rfl,
    by simpa using hsmall, ?_⟩
  rcases h.head with ⟨hzero, -⟩ | ⟨hlt, -⟩
  · -- a ring without memory holds nothing
    have hnil : ring.len = 0 := by omega
    rw [Pending.contents, Pending.contents]
    show Ring.window _ newCap 0 ring.len = Ring.window ring.data ring.cap ring.head ring.len
    rw [hnil, Ring.window_zero, Ring.window_zero]
  · exact Ring.window_blit_ringRead ring.data _ hlt h.len_le hfit

/-- With memory, the ring grows to any size within its limit. -/
theorem pendingGrow_isSome (h : ring.Ok) (hmalloc : ∀ size, env.malloc size = true)
    (hneed : need ≤ socks5PendingLimit) : (pendingGrow env ring need).isSome = true := by
  unfold pendingGrow
  by_cases hroom : need ≤ ring.cap
  · rw [if_pos hroom]
    rfl
  · rw [if_neg hroom]
    simp only
    have hread : socks5ReadBufsize ≤ if ring.cap ≠ 0 then ring.cap else socks5ReadBufsize := by
      rcases h.head with ⟨hzero, -⟩ | ⟨hlt, hle⟩
      · rw [if_neg (not_not.2 hzero)]
      · rwa [if_pos (by omega)]
    have hfuel := le_trans (show socks5PendingLimit ≤ socks5ReadBufsize * 2 ^ 19 by decide)
      (Nat.mul_le_mul_right (2 ^ 19) hread)
    obtain ⟨-, hreach⟩ := @pendingCapFor_spec need 19 _ hfuel
    rw [if_neg (by split_ifs at hreach ⊢ <;> omega), hmalloc]
    rfl

theorem contents_pendingConsume (ring : Pending) (len : ℕ) :
    (pendingConsume ring len).contents = ring.contents.drop len := by
  unfold pendingConsume
  split_ifs with hall
  · rw [List.drop_eq_nil_of_le (by rw [Pending.length_contents]; exact hall)]
    rfl
  · exact Ring.window_drop ring.data ring.cap ring.head ring.len len

theorem ok_pendingConsume (h : ring.Ok) (len : ℕ) : (pendingConsume ring len).Ok := by
  have hlen := h.len_le
  unfold pendingConsume
  split_ifs with hall
  · refine ⟨h.head.imp (fun hzero => ⟨hzero.1, rfl⟩) fun hlt => ⟨?_, hlt.2⟩, Nat.zero_le _,
      h.cap_le⟩
    exact Nat.zero_lt_of_lt hlt.1
  · have hpos : 0 < ring.cap := by omega
    refine ⟨Or.inr ⟨Nat.mod_lt _ hpos, ?_⟩, (Nat.sub_le _ _).trans hlen, h.cap_le⟩
    exact (h.head.resolve_left fun hzero => hpos.ne' hzero.1).2

/-- What `pending_append` does to the ring. -/
theorem pendingStep_append {data : List Byte} (h : ring.Ok)
    (hguard : PendingGuard ring (env, .append data)) :
    (pendingStep ring (env, .append data)).Ok ∧
      (pendingStep ring (env, .append data)).contents = ring.contents ++ data := by
  show ((pendingAppend env ring data).getD ring).Ok ∧
    ((pendingAppend env ring data).getD ring).contents = ring.contents ++ data
  unfold pendingAppend
  by_cases hnil : data.length = 0
  · rw [if_pos hnil, List.length_eq_zero_iff.1 hnil, List.append_nil]
    exact ⟨h, rfl⟩
  · rw [if_neg hnil, if_neg (not_lt.2 hguard.2)]
    obtain ⟨grown, hgrow⟩ := Option.isSome_iff_exists.1 (pendingGrow_isSome h hguard.1 hguard.2)
    obtain ⟨hok, hlen, hle, hsame⟩ := pendingGrow_spec h hgrow
    rw [hgrow]
    have hfit : grown.len + data.length ≤ grown.cap := hlen ▸ hle
    have hcap : 0 < grown.cap := by omega
    refine ⟨⟨hok.head, hfit, hok.cap_le⟩, ?_⟩
    show Ring.window (Ring.ringWrite grown.data grown.cap ((grown.head + grown.len) % grown.cap)
      data) grown.cap grown.head (grown.len + data.length) = ring.contents ++ data
    rw [Ring.window_ringWrite grown.data hcap hfit, ← hsame]
    rfl

end Pending

theorem implements_pending :
    Implements pendingStep Pending.Ok PendingGuard Pending.contents fun e => e.2.toOp where
  ok_step := by
    rintro ring ⟨env, op⟩ h hguard
    cases op with
    | grow need =>
      show ((pendingGrow env ring need).getD ring).Ok
      cases hgrow : pendingGrow env ring need with
      | none => exact h
      | some grown => exact (pendingGrow_spec h hgrow).1
    | append data => exact (pendingStep_append h hguard).1
    | consume len => exact ok_pendingConsume h len
    | release => exact Pending.ok_empty
  within := by
    rintro ring ⟨env, op⟩ - hguard
    cases op with
    | grow need => trivial
    | append data => trivial
    | consume len =>
      show len ≤ ring.contents.length
      rw [Pending.length_contents]
      exact hguard.2
    | release => exact Nat.zero_le _
  contents_step := by
    rintro ring ⟨env, op⟩ h hguard
    cases op with
    | grow need =>
      refine Eq.trans ?_ (List.append_nil _).symm
      show ((pendingGrow env ring need).getD ring).contents = ring.contents
      cases hgrow : pendingGrow env ring need with
      | none => rfl
      | some grown => exact (pendingGrow_spec h hgrow).2.2.2
    | append data => exact (pendingStep_append h hguard).2
    | consume len => exact contents_pendingConsume ring len
    | release =>
      have hnil : ring.contents = [] :=
        List.length_eq_zero_iff.1 ((Pending.length_contents ring).trans hguard.2)
      show [] = ring.contents.drop 0
      rw [hnil]
      rfl

/-! ### Both rings -/

/-- A read without wrapping sees the front of the window. -/
theorem slice_eq_take {buf : ℕ → Byte} {cap head len k : ℕ} (hfit : head + k ≤ cap)
    (hle : k ≤ len) : Ring.slice buf head k = (Ring.window buf cap head len).take k := by
  rw [Ring.window_take, min_eq_left hle]
  apply List.map_congr_left
  intro i hi
  rw [Nat.mod_eq_of_lt (by have := List.mem_range.1 hi; omega)]

/-- The send buffer of a connection holds the queue `q`, within its limits. -/
structure SendbufQueue (conn : Conn) (q : List Byte) : Prop where
  contents : conn.contents = q
  copy_out : ∀ off n, off + n ≤ q.length → sendbufCopyOut conn off n = (q.drop off).take n
  head_lt : conn.sendbufHead < conn.sendbufCap
  len_le : conn.sendbufLen ≤ conn.sendbufCap
  cap_le : conn.sendbufCap ≤ wgTcpSendbufSize

/-- The pending buffer holds the queue `q`, within its limits; what is read from its head without
wrapping is the front of the queue, and never nothing if there is something. -/
structure PendingQueue (ring : Pending) (q : List Byte) : Prop where
  contents : ring.contents = q
  contiguous : ∀ n ≤ pendingContiguousLen ring,
    ring.head + n ≤ ring.cap ∧ Ring.slice ring.data ring.head n = q.take n
  contiguous_le : pendingContiguousLen ring ≤ q.length
  contiguous_pos : q ≠ [] → 0 < pendingContiguousLen ring
  head_lt : ring.head < ring.cap ∨ ring.cap = 0 ∧ ring.head = 0 ∧ ring.len = 0
  len_le : ring.len ≤ ring.cap
  cap_le : ring.cap ≤ socks5PendingLimit

theorem sendbufQueue_contents {conn : Conn} (h : conn.SendbufOk) :
    SendbufQueue conn conn.contents where
  contents := rfl
  copy_out off n hfit := by
    rw [Conn.length_contents] at hfit
    exact sendbufCopyOut_eq h.toRingOk hfit
  head_lt := h.head_lt
  len_le := h.len_le
  cap_le := h.cap_le

theorem pendingQueue_contents {ring : Pending} (h : ring.Ok) :
    PendingQueue ring ring.contents := by
  have hlen := h.len_le
  have hle : pendingContiguousLen ring ≤ ring.len ∧
      (pendingContiguousLen ring ≤ ring.cap - ring.head ∨ ring.len = 0) := by
    unfold pendingContiguousLen
    split_ifs <;> omega
  refine ⟨rfl, fun n hn => ?_, ?_, fun hne => ?_, ?_, hlen, h.cap_le⟩
  · have hfit : ring.head + n ≤ ring.cap := by
      rcases h.head with hzero | hlt <;> omega
    exact ⟨hfit, slice_eq_take hfit (hn.trans hle.1)⟩
  · rw [Pending.length_contents]
    exact hle.1
  · have hpos : ring.len ≠ 0 := fun hzero =>
      hne (List.length_eq_zero_iff.1 ((Pending.length_contents ring).trans hzero))
    have hlt : ring.head < ring.cap := by rcases h.head with hzero | hlt <;> omega
    unfold pendingContiguousLen
    split_ifs <;> omega
  · rcases h.head with hzero | hlt
    · exact Or.inr ⟨hzero.1, hzero.2, by omega⟩
    · exact Or.inl hlt.1

/-- A connection as it is made, with an empty send buffer of the initial size. -/
def Conn.SendbufNew (conn : Conn) : Prop :=
  conn.sendbufCap = wgTcpSendbufInitialSize ∧ conn.sendbufHead = 0 ∧ conn.sendbufLen = 0

theorem Conn.SendbufNew.ok {conn : Conn} (h : conn.SendbufNew) : conn.SendbufOk := by
  obtain ⟨hcap, hhead, hlen⟩ := h
  have hsize : 0 < wgTcpSendbufInitialSize ∧ wgTcpSendbufInitialSize ≤ wgTcpSendbufSize := by
    decide
  exact ⟨⟨by omega, by omega, by omega⟩, hcap.ge⟩

/-- **The byte rings are queues.**  After any operations that keep to the guards of their callers,
each ring holds what was appended less what was consumed, and gives it out from its front. -/
theorem rings_fifo :
    (∀ (conn : Conn) (es : List (TcpEnv × SendbufOp)), conn.SendbufNew →
      Machine.Guarded sendbufStep SendbufGuard conn es →
      SendbufQueue (Machine.run sendbufStep conn es)
        ((puts (es.map fun e => e.2.toOp)).drop (takes (es.map fun e => e.2.toOp)))) ∧
    ∀ es : List (SocksEnv × PendingOp), Machine.Guarded pendingStep PendingGuard .empty es →
      PendingQueue (Machine.run pendingStep .empty es)
        ((puts (es.map fun e => e.2.toOp)).drop (takes (es.map fun e => e.2.toOp))) := by
  refine ⟨fun conn es hnew hes => ?_, fun es hes => ?_⟩
  · have hnil : conn.contents = [] :=
      List.length_eq_zero_iff.1 ((Conn.length_contents conn).trans hnew.2.2)
    rw [← implements_sendbuf.contents_run hnew.ok hnil hes]
    exact sendbufQueue_contents (implements_sendbuf.run hnew.ok hes).1
  · rw [← implements_pending.contents_run Pending.ok_empty rfl hes]
    exact pendingQueue_contents (implements_pending.run Pending.ok_empty hes).1

/-- Three bytes are appended to each ring and one is taken. -/
theorem rings_fifo_three :
    SendbufQueue (Machine.run sendbufStep (Conn.fresh .established 0 0 exampleHandlers)
      [(exampleEnv, .append [1, 2, 3]), (exampleEnv, .consume 1)]) [2, 3] ∧
    PendingQueue (Machine.run pendingStep .empty
      [(exampleSocksEnv, .append [1, 2, 3]), (exampleSocksEnv, .consume 1)]) [2, 3] := by
  have hmalloc : ∀ size, exampleEnv.malloc size = true := fun _ => rfl
  have hmalloc' : ∀ size, exampleSocksEnv.malloc size = true := fun _ => rfl
  constructor
  · refine rings_fifo.1 _ _ ⟨rfl, rfl, rfl⟩ ⟨⟨hmalloc, ?_⟩, ⟨hmalloc, ?_⟩, trivial⟩
    · show 0 + [1, 2, 3].length ≤ wgTcpSendbufSize
      decide
    · show 1 ≤ 0 + [1, 2, 3].length
      decide
  · refine rings_fifo.2 _ ⟨⟨hmalloc', ?_⟩, ⟨hmalloc', ?_⟩, trivial⟩
    · show 0 + [1, 2, 3].length ≤ socks5PendingLimit
      decide
    · show 1 ≤ 0 + [1, 2, 3].length
      decide

/-- Before its first byte the pending buffer has no memory, and no head below its capacity. -/
theorem pending_head_not_lt :
    ¬ ∀ es : List (SocksEnv × PendingOp), Machine.Guarded pendingStep PendingGuard .empty es →
      (Machine.run pendingStep .empty es).head < (Machine.run pendingStep .empty es).cap :=
  fun h => Nat.lt_irrefl 0 (h [] trivial)

end Wgx
