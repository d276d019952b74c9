import Wgx.Tcp.Moves
import Wgx.Tcp.Send

/-!
# What was transmitted and `snd_nxt`

The sequence numbers of a run are unwrapped against `snd_nxt`: `Wire.nxt` is the position of
`snd_nxt` in the stream of the connection, `Wire.sent` the furthest end of a segment sent so far.

* `Emits k t t'`: between `t` and `t'` the variable `snd_una` moved by `k`, `snd_nxt` only forwards,
  and no segment went beyond it;
* `Paced B t`: the bytes in flight are bytes of the ring and at most a few FINs;
* `snd_nxt_covers_iff`: `snd_nxt` covers all that was sent, and the acknowledgements of it are
  accepted, exactly in the runs in which `retransmit_cb` finds nothing in the ring that is not yet
  counted by `snd_nxt`.
-/

namespace Wgx

/-- The sequence number behind a segment. -/
def Segment.next (seg : Segment) : Seq :=
  seg.seq + BitVec.ofNat 32 (seg.data.length + if seg.flags.syn || seg.flags.fin then 1 else 0)

/-- The sequence numbers between `snd_una` and `snd_nxt`. -/
def Tcp.inFlight (t : Tcp) : ℕ := (t.conn.sndNxt - t.conn.sndUna).toNat

/-- The FINs that the owner can still cause. -/
def TcpState.finsLeft : TcpState → ℕ
  | .established | .closeWait => 1
  | _ => 0

/-- Between `t` and `t'` the variable `snd_una` moves by `k`, `snd_nxt` does not move backwards, and
the segments sent end before it. -/
structure Emits (k : ℕ) (t t' : Tcp) : Prop where
  iss : t'.conn.iss = t.conn.iss
  sndUna : t'.conn.sndUna = t.conn.sndUna + BitVec.ofNat 32 k
  inFlight : t.inFlight ≤ k + t'.inFlight
  sent : ∃ es, t'.trace = t.trace ++ es ∧ ∀ seg ∈ segments es, ∃ j ≤ k + t'.inFlight,
    seg.next = t.conn.sndUna + BitVec.ofNat 32 j

/-- What is in flight are bytes of the ring, and FINs; together with the FINs that can still come
they are at most `B`. -/
structure Paced (B : ℕ) (t : Tcp) : Prop where
  ring : t.conn.RingOk
  inFlight : t.conn.state = .established → t.inFlight ≤ t.conn.sendbufLen
  opening : t.conn.state = .synSent ∨ t.conn.state = .synReceived →
    t.conn.sndUna = t.conn.iss ∧ t.conn.sndNxt = t.conn.iss + 1
  bound : t.inFlight + t.conn.state.finsLeft ≤ B

section Emits

variable {env : TcpEnv} {k l B : ℕ} {t t' t'' : Tcp}

theorem sndNxt_eq (t : Tcp) : t.conn.sndNxt = t.conn.sndUna + BitVec.ofNat 32 t.inFlight :=
  (Serial.add_ofNat_toNat_sub _ _).symm

/-- The distance from `snd_una` is found again from `snd_nxt`. -/
theorem inFlight_of_eq {n : ℕ} (hn : n < 2 ^ 32)
    (h : t.conn.sndNxt = t.conn.sndUna + BitVec.ofNat 32 n) : t.inFlight = n := by
  rw [Tcp.inFlight, h, BitVec.add_comm, BitVec.add_sub_cancel, BitVec.toNat_ofNat,
    Nat.mod_eq_of_lt hn]

theorem Emits.refl (t : Tcp) : Emits 0 t t :=
  ⟨rfl, (BitVec.add_zero _).symm, by omega, [], (List.append_nil _).symm, fun seg hseg => by cases hseg⟩

theorem Emits.trans (h : Emits k t t') (h' : Emits l t' t'') : Emits (k + l) t t'' := by
  obtain ⟨es, hes, hsegs⟩ := h.sent
  obtain ⟨es', hes', hsegs'⟩ := h'.sent
  have hflight := h.inFlight
  have hflight' := h'.inFlight
  refine ⟨h'.iss.trans h.iss, ?_, by omega, es ++ es', ?_, ?_⟩
  · rw [h'.sndUna, h.sndUna, Serial.add_ofNat_add]
  · rw [hes', hes, List.append_assoc]
  · rw [segments_append]
    intro seg hseg
    rcases List.mem_append.1 hseg with hseg | hseg
    · obtain ⟨j, hj, hnext⟩ := hsegs seg hseg
      exact ⟨j, by omega, hnext⟩
    · obtain ⟨j, hj, hnext⟩ := hsegs' seg hseg
      refine ⟨k + j, by omega, ?_⟩
      rw [hnext, h.sndUna, Serial.add_ofNat_add]

theorem Emits.trans_zero (h : Emits k t t') (h' : Emits 0 t' t'') : Emits k t t'' := h.trans h'

/-- Steps that leave the send side alone and send only at `snd_nxt`. -/
theorem emits_still (hiss : t'.conn.iss = t.conn.iss) (huna : t'.conn.sndUna = t.conn.sndUna)
    (hnxt : t'.conn.sndNxt = t.conn.sndNxt) {es : List Entry} (hes : t'.trace = t.trace ++ es)
    (hsegs : ∀ seg ∈ segments es, seg.next = t.conn.sndNxt) : Emits 0 t t' := by
  have hflight : t'.inFlight = t.inFlight := by
    rw [Tcp.inFlight, Tcp.inFlight, hnxt, huna]
  refine ⟨hiss, huna.trans (BitVec.add_zero _).symm, by omega, es, hes, fun seg hseg => ?_⟩
  exact ⟨t.inFlight, by omega, by rw [hsegs seg hseg, sndNxt_eq]⟩

theorem Paced.still (h : Paced B t) (hring : SameRing t t')
    (hst : t'.conn.state = t.conn.state ∨ t'.conn.state = .closed)
    (huna : t'.conn.sndUna = t.conn.sndUna) (hnxt : t'.conn.sndNxt = t.conn.sndNxt) :
    Paced B t' := by
  have hflight : t'.inFlight = t.inFlight := by
    rw [Tcp.inFlight, Tcp.inFlight, hnxt, huna]
  have hbound := h.bound
  rcases hst with hst | hst
  · refine ⟨hring.ringOk h.ring, ?_, ?_, ?_⟩
    · rw [hst, hflight, hring.sendbufLen]
      exact h.inFlight
    · rw [hst, huna, hnxt, hring.iss]
      exact h.opening
    · rw [hst, hflight]
      exact hbound
  · refine ⟨hring.ringOk h.ring, ?_, ?_, ?_⟩
    · intro hst'
      rw [hst] at hst'
      cases hst'
    · rintro (hst' | hst') <;> rw [hst] at hst' <;> cases hst'
    · rw [hst, hflight]
      show t.inFlight + 0 ≤ B
      omega

/-- A step of this kind keeps what is in flight. -/
def Paces (B : ℕ) (t t' : Tcp) : Prop := Paced B t' ∧ Emits 0 t t'

theorem paces_still (h : Paced B t) (hring : SameRing t t')
    (hst : t'.conn.state = t.conn.state ∨ t'.conn.state = .closed)
    (huna : t'.conn.sndUna = t.conn.sndUna) (hnxt : t'.conn.sndNxt = t.conn.sndNxt)
    {es : List Entry} (hes : t'.trace = t.trace ++ es)
    (hsegs : ∀ seg ∈ segments es, seg.next = t.conn.sndNxt) : Paces B t t' :=
  ⟨h.still hring hst huna hnxt, emits_still hring.iss huna hnxt hes hsegs⟩

/-- Steps that only change fields outside the send side. -/
theorem paces_conn (h : Paced B t) (hring : SameRing t t')
    (hst : t'.conn.state = t.conn.state ∨ t'.conn.state = .closed)
    (huna : t'.conn.sndUna = t.conn.sndUna) (hnxt : t'.conn.sndNxt = t.conn.sndNxt)
    (htrace : t'.trace = t.trace) : Paces B t t' :=
  paces_still h hring hst huna hnxt (htrace.trans (List.append_nil _).symm)
    fun seg hseg => by cases hseg

/-! ### Moves -/

/-- The flush loop only goes forwards, and its segments end before the final `in_flight`. -/
theorem flushLoop_within (env : TcpEnv) {conn : Conn} (h : conn.RingOk) (fuel : ℕ) {n : ℕ}
    (hle : n ≤ conn.sendbufLen) :
    n ≤ (flushLoop env conn fuel n).2 ∧ ∀ seg ∈ (flushLoop env conn fuel n).1,
      ∃ j ≤ (flushLoop env conn fuel n).2, seg.next = conn.sndUna + BitVec.ofNat 32 j := by
  induction fuel generalizing n with
  | zero => exact ⟨le_rfl, fun seg hseg => by cases hseg⟩
  | succ fuel ih =>
    have hseg := flushSegLen_le conn n
    unfold flushLoop
    simp only
    split_ifs with hmore hzero
    · exact ⟨le_rfl, fun seg hseg => by cases hseg⟩
    · have hnext : n + conn.flushSegLen n ≤ conn.sendbufLen := by omega
      obtain ⟨hend, hsegs⟩ := ih hnext
      refine ⟨by omega, List.forall_mem_cons.2 ⟨⟨n + conn.flushSegLen n, hend, ?_⟩, hsegs⟩⟩
      have hlen := (fromRing_segmentOf env h hnext { ack := true, psh := true } conn.rcvNxt).2
      show conn.sndUna + BitVec.ofNat 32 n +
        BitVec.ofNat 32 ((sendbufCopyOut conn n (conn.flushSegLen n)).length + 0) = _
      rw [hlen, Nat.add_zero, Serial.add_ofNat_add]
    · exact ⟨le_rfl, fun seg hseg => by cases hseg⟩

/-- The most that can be in flight. -/
def paceLimit : ℕ := wgTcpSendbufSize + 3

theorem paceLimit_lt : paceLimit < 2 ^ 20 := by decide

theorem paces_flush (h : Paced B t) (hB : wgTcpSendbufSize + 1 ≤ B)
    (hlive : t.conn.beingFreed = false) (hst : t.conn.state = .established) :
    Paces B t (tcpFlushPending env t) := by
  have hflight := h.inFlight hst
  have hsize := h.ring.len_le_size
  have hsmall : wgTcpSendbufSize < 2 ^ 32 := by decide
  obtain ⟨hend, -⟩ := flushLoop_spec env h.ring t.conn.sendbufLen hflight
  obtain ⟨hfwd, hsegs⟩ := flushLoop_within env h.ring t.conn.sendbufLen hflight
  obtain ⟨hring, hst', huna, hnxt, htrace⟩ : SameRing t (tcpFlushPending env t) ∧
      (tcpFlushPending env t).conn.state = t.conn.state ∧
      (tcpFlushPending env t).conn.sndUna = t.conn.sndUna ∧
      (tcpFlushPending env t).conn.sndNxt = t.conn.sndUna +
        BitVec.ofNat 32 (flushLoop env t.conn t.conn.sendbufLen t.inFlight).2 ∧
      (tcpFlushPending env t).trace = t.trace ++
        (flushLoop env t.conn t.conn.sendbufLen t.inFlight).1.map .segment := by
    unfold tcpFlushPending
    rw [if_neg (by simp [hlive, hst])]
    simp only
    split_ifs <;> exact ⟨⟨rfl, rfl, rfl, rfl, rfl⟩, rfl, rfl, rfl, rfl⟩
  have hflight' : (tcpFlushPending env t).inFlight =
      (flushLoop env t.conn t.conn.sendbufLen t.inFlight).2 := by
    apply inFlight_of_eq
    · show (flushLoop env t.conn t.conn.sendbufLen t.inFlight).2 < 2 ^ 32
      exact lt_of_le_of_lt (hend.trans hsize) hsmall
    · rw [hnxt, huna]
  have hend' : (flushLoop env t.conn t.conn.sendbufLen t.inFlight).2 ≤ t.conn.sendbufLen := hend
  refine ⟨⟨hring.ringOk h.ring, ?_, ?_, ?_⟩, hring.iss, huna.trans (BitVec.add_zero _).symm, ?_, _,
    htrace, ?_⟩
  · intro _
    rw [hflight', hring.sendbufLen]
    exact hend
  · rw [hst', hst]
    rintro (hopen | hopen) <;> cases hopen
  · rw [hst', hst, hflight']
    show _ + 1 ≤ B
    omega
  · rw [hflight', Nat.zero_add]
    exact hfwd
  · rw [segments_segments, hflight', Nat.zero_add]
    exact hsegs

theorem paces_accept (h : Paced B t) (hst : t.conn.state = .established) {data : List Byte}
    {grown : Conn} (hgrow : sendbufGrow env t.conn (t.conn.sendbufLen + data.length) = some grown) :
    Paces B t ((t.update fun _ => sendbufAppend grown data).log [.accepted data]) := by
  obtain ⟨hframe, hring, hroom, -⟩ := sendbufGrow_spec h.ring (Nat.le_add_right _ _) hgrow
  have hlen : grown.sendbufLen = t.conn.sendbufLen := by rw [hframe]
  have hnxt : grown.sndNxt = t.conn.sndNxt := by rw [hframe]
  have huna : grown.sndUna = t.conn.sndUna := by rw [hframe]
  have hst' : grown.state = t.conn.state := by rw [hframe]
  have hiss : grown.iss = t.conn.iss := by rw [hframe]
  have hflight : ((t.update fun _ => sendbufAppend grown data).log [.accepted data]).inFlight =
      t.inFlight := by
    show (grown.sndNxt - grown.sndUna).toNat = _
    rw [hnxt, huna]
    rfl
  refine ⟨⟨ringOk_sendbufAppend hring (by omega), ?_, ?_, ?_⟩, ?_⟩
  · intro _
    rw [hflight]
    show _ ≤ grown.sendbufLen + data.length
    exact (h.inFlight hst).trans (by omega)
  · show grown.state = _ ∨ grown.state = _ → _
    rw [hst', hst]
    rintro (hopen | hopen) <;> cases hopen
  · rw [hflight]
    show _ + grown.state.finsLeft ≤ B
    rw [hst']
    exact h.bound
  · exact emits_still hiss huna hnxt rfl fun seg hseg => by cases hseg

/-- A FIN goes out at `snd_nxt`, which counts it. -/
theorem paces_sendFin (env : TcpEnv) (h : Paced B t) {state : TcpState} (hB : t.inFlight + 1 ≤ B)
    (hlimit : B ≤ paceLimit) (hst : state = .finWait ∨ state = .lastAck) :
    Paces B t (sendFin env state t) := by
  have hlt := paceLimit_lt
  have hflight : (sendFin env state t).inFlight = t.inFlight + 1 := by
    apply inFlight_of_eq (by omega)
    show t.conn.sndNxt + 1 = t.conn.sndUna + BitVec.ofNat 32 (t.inFlight + 1)
    rw [sndNxt_eq, ← Serial.add_ofNat_add]
    rfl
  refine ⟨⟨⟨h.ring.head_lt, h.ring.len_le, h.ring.cap_le⟩, ?_, ?_, ?_⟩, rfl,
    (BitVec.add_zero _).symm, by omega, _, rfl, ?_⟩
  · intro hest
    rcases hst with rfl | rfl <;> cases hest
  · rcases hst with rfl | rfl <;> rintro (hopen | hopen) <;> cases hopen
  · rw [hflight]
    rcases hst with rfl | rfl <;> exact hB
  · intro seg hseg
    obtain rfl := List.mem_singleton.1 hseg
    refine ⟨t.inFlight + 1, by omega, ?_⟩
    show t.conn.sndNxt + BitVec.ofNat 32 1 = _
    rw [sndNxt_eq, Serial.add_ofNat_add]

/-- A segment without data, SYN and FIN ends where it starts. -/
theorem next_bare {seg : Segment} {n : Seq} (h : (seg.seq, seg.data, seg.flags.syn, seg.flags.fin) =
    (n, [], false, false)) : ∀ s ∈ segments [.segment seg], s.next = n := by
  intro s hs
  obtain rfl := List.mem_singleton.1 hs
  simp only [Prod.mk.injEq] at h
  obtain ⟨hseq, hdata, hsyn, hfin⟩ := h
  rw [Segment.next, hseq, hdata, hsyn, hfin]
  exact BitVec.add_zero _

theorem segments_note {e : Entry} (he : e.isNote = true) : segments [e] = [] := by
  cases e with
  | segment seg => cases he
  | accepted data => cases he
  | callback cb => rfl
  | call a conn => rfl
  | remoteFin conn => rfl

/-- **A move keeps the pace** and sends nothing beyond `snd_nxt`. -/
theorem paces_move (h : Paced B t) (hB : wgTcpSendbufSize + 1 ≤ B) (hlimit : B ≤ paceLimit)
    (hm : Move env t t') : Paces B t t' := by
  have hconn : ∀ f : Conn → Conn, SameRing t (t.update f) → (f t.conn).state = t.conn.state →
      (f t.conn).sndUna = t.conn.sndUna → (f t.conn).sndNxt = t.conn.sndNxt →
      Paces B t (t.update f) :=
    fun f hring hst huna hnxt => paces_conn h hring (Or.inl hst) huna hnxt rfl
  cases hm with
  | note e he =>
    refine paces_still h ⟨rfl, rfl, rfl, rfl, rfl⟩ (Or.inl rfl) rfl rfl rfl fun seg hseg => ?_
    rw [segments_note he] at hseg
    cases hseg
  | setHandlers hs => exact hconn _ ⟨rfl, rfl, rfl, rfl, rfl⟩ rfl rfl rfl
  | accept data grown hlive hst hpos hfit hgrow => exact paces_accept h hst hgrow
  | flush hlive hst => exact paces_flush h hB hlive hst
  | schedule => exact hconn _ ⟨rfl, rfl, rfl, rfl, rfl⟩ rfl rfl rfl
  | unschedule => exact hconn _ ⟨rfl, rfl, rfl, rfl, rfl⟩ rfl rfl rfl
  | ack hlive =>
    rw [tcpAckNow, if_neg (by simp [hlive])]
    exact paces_still h ⟨rfl, rfl, rfl, rfl, rfl⟩ (Or.inl rfl) rfl rfl rfl (next_bare rfl)
  | delayAck => exact hconn _ ⟨rfl, rfl, rfl, rfl, rfl⟩ rfl rfl rfl
  | armAck => exact hconn _ ⟨rfl, rfl, rfl, rfl, rfl⟩ rfl rfl rfl
  | ackFired => exact hconn _ ⟨rfl, rfl, rfl, rfl, rfl⟩ rfl rfl rfl
  | close state hlive hst =>
    have hbound := h.bound
    rcases hst with ⟨hst, rfl⟩ | ⟨hst, rfl⟩
    · rw [hst] at hbound
      exact paces_sendFin env h hbound hlimit (Or.inl rfl)
    · rw [hst] at hbound
      exact paces_sendFin env h hbound hlimit (Or.inr rfl)
  | reset hlive hst =>
    rw [connDestroy, if_neg (by simp [sendSegment, hlive])]
    exact paces_still h ⟨rfl, rfl, rfl, rfl, rfl⟩ (Or.inr rfl) rfl rfl rfl (next_bare rfl)
  | destroy hlive =>
    rw [connDestroy, if_neg (by simp [hlive])]
    exact hconn _ ⟨rfl, rfl, rfl, rfl, rfl⟩ rfl rfl rfl
  | finish hlive =>
    rw [connDestroy, if_neg (by simp [hlive])]
    exact paces_conn h ⟨rfl, rfl, rfl, rfl, rfl⟩ (Or.inr rfl) rfl rfl rfl
  | window seg => exact hconn _ ⟨rfl, rfl, rfl, rfl, rfl⟩ rfl rfl rfl
  | stopTimer => exact hconn _ ⟨rfl, rfl, rfl, rfl, rfl⟩ rfl rfl rfl
  | receive data => exact hconn _ ⟨rfl, rfl, rfl, rfl, rfl⟩ rfl rfl rfl
  | popOoo seg rest => exact hconn _ ⟨rfl, rfl, rfl, rfl, rfl⟩ rfl rfl rfl
  | queueOoo seq data =>
    rw [Tcp.update, tcpOooQueue_frame]
    exact paces_conn h ⟨rfl, rfl, rfl, rfl, rfl⟩ (Or.inl rfl) rfl rfl rfl
  | countFin hst =>
    exact paces_still h ⟨rfl, rfl, rfl, rfl, rfl⟩ (Or.inl rfl) rfl rfl rfl (next_bare rfl)
  | notify => exact hconn _ ⟨rfl, rfl, rfl, rfl, rfl⟩ rfl rfl rfl
  | timerGone => exact hconn _ ⟨rfl, rfl, rfl, rfl, rfl⟩ rfl rfl rfl
  | release => exact hconn _ ⟨rfl, rfl, rfl, rfl, rfl⟩ rfl rfl rfl

theorem paces_path (h : Paced B t) (hB : wgTcpSendbufSize + 1 ≤ B) (hlimit : B ≤ paceLimit)
    (hp : Path env t t') : Paces B t t' := by
  induction hp with
  | refl => exact ⟨h, Emits.refl t⟩
  | tail _ hm ih =>
    obtain ⟨hpaced, hemits⟩ := paces_move ih.1 hB hlimit hm
    exact ⟨hpaced, ih.2.trans_zero hemits⟩

/-! ### Acknowledgements -/

/-- What an acknowledgement does: `snd_una` moves to it, within what was in flight. -/
theorem acked_spec {seg : Inbound} (h : Paced B t) (hB : wgTcpSendbufSize + 1 ≤ B)
    (hlimit : B ≤ paceLimit) (ha : Acked env seg t t') :
    ∃ k ≤ t.inFlight, Paced B t' ∧ Emits k t t' ∧ t'.conn.sndUna = seg.ack := by
  have hlt := paceLimit_lt
  have hbound := h.bound
  -- `snd_una` moves by `k` and the rest stays in flight
  have hmoved : ∀ k ≤ t.inFlight, t'.conn.sndUna = t.conn.sndUna + BitVec.ofNat 32 k →
      t'.conn.sndNxt = t.conn.sndNxt → t'.inFlight = t.inFlight - k := by
    intro k hk huna hnxt
    apply inFlight_of_eq (by omega)
    rw [hnxt, huna, Serial.add_ofNat_add, Nat.add_sub_cancel' hk, ← sndNxt_eq]
  have hemits : ∀ k ≤ t.inFlight, t'.conn.sndUna = t.conn.sndUna + BitVec.ofNat 32 k →
      t'.conn.sndNxt = t.conn.sndNxt → t'.conn.iss = t.conn.iss → t'.trace = t.trace →
      Emits k t t' := by
    intro k hk huna hnxt hiss htrace
    refine ⟨hiss, huna, ?_, [], by rw [htrace, List.append_nil], fun seg hseg => by cases hseg⟩
    rw [hmoved k hk huna hnxt]
    omega
  have hopen : t.conn.state = .synSent ∨ t.conn.state = .synReceived → t.inFlight = 1 := by
    intro hst
    obtain ⟨huna, hnxt⟩ := h.opening hst
    apply inFlight_of_eq (by decide)
    rw [hnxt, huna]
    rfl
  generalize heq : t' = u at ha
  cases ha with
  | passive hst hack hnxt =>
    subst heq
    have hone := hopen (Or.inr hst)
    have hmove : seg.ack = t.conn.sndUna + BitVec.ofNat 32 1 := by
      rw [hnxt, sndNxt_eq, hone]
    have hflight := hmoved 1 (by omega) hmove rfl
    refine ⟨1, by omega, ⟨⟨h.ring.head_lt, h.ring.len_le, h.ring.cap_le⟩, ?_, ?_, ?_⟩,
      hemits 1 (by omega) hmove rfl rfl rfl, rfl⟩
    · intro _
      omega
    · rintro (hst' | hst') <;> cases hst'
    · show _ + 1 ≤ B
      omega
  | active hst hsyn hack hgt hle =>
    subst heq
    have hone := hopen (Or.inl hst)
    obtain ⟨huna, hnxt⟩ := h.opening (Or.inl hst)
    have hmove : seg.ack = t.conn.sndUna + BitVec.ofNat 32 1 := by
      rw [huna] at hgt ⊢
      rw [hnxt] at hle
      exact synAck_eq hgt hle
    have hflight := hmoved 1 (by omega) hmove rfl
    refine ⟨1, by omega, ⟨⟨h.ring.head_lt, h.ring.len_le, h.ring.cap_le⟩, ?_, ?_, ?_⟩,
      hemits 1 (by omega) hmove rfl rfl rfl, rfl⟩
    · intro _
      omega
    · rintro (hst' | hst') <;> cases hst'
    · show _ + 1 ≤ B
      omega
  | data hst hadv =>
    have hle := (advances_spec hadv (by show t.inFlight < _; omega)).2
    have hring := h.inFlight hst
    have hmove : seg.ack = t.conn.sndUna + BitVec.ofNat 32 (seg.ack - t.conn.sndUna).toNat :=
      (Serial.add_ofNat_toNat_sub _ _).symm
    obtain ⟨hst', huna, hnxt, hiss, htrace, hlen, hring'⟩ : t'.conn.state = t.conn.state ∧
        t'.conn.sndUna = seg.ack ∧ t'.conn.sndNxt = t.conn.sndNxt ∧ t'.conn.iss = t.conn.iss ∧
        t'.trace = t.trace ∧ t'.conn.sendbufLen = t.conn.sendbufLen - (seg.ack - t.conn.sndUna).toNat ∧
        t'.conn.RingOk := by
      have hok := ringOk_sendbufConsume h.ring (seg.ack - t.conn.sndUna).toNat
      have hlen := sendbufLen_sendbufConsume t.conn (seg.ack - t.conn.sndUna).toNat
      rw [heq]
      have hif : (if (seg.ack - t.conn.sndUna).toNat ≤ t.conn.sendbufLen then
          sendbufConsume t.conn (seg.ack - t.conn.sndUna).toNat else t.conn) =
          sendbufConsume t.conn (seg.ack - t.conn.sndUna).toNat := if_pos (hle.trans hring)
      simp only [Tcp.update, hif]
      refine ⟨?_, trivial, ?_, ?_, trivial, hlen, hok.head_lt, hok.len_le, hok.cap_le⟩
      all_goals rw [sendbufConsume_frame]
    rw [← heq]
    have hmove' := huna.trans hmove
    have hflight := hmoved _ hle hmove' hnxt
    refine ⟨_, hle, ⟨hring', ?_, ?_, ?_⟩, hemits _ hle hmove' hnxt hiss htrace, huna⟩
    · intro _
      omega
    · rw [hst', hst]
      rintro (hst' | hst') <;> cases hst'
    · rw [hst', hst]
      rw [hst] at hbound
      omega
  | fin hst hadv =>
    subst heq
    have hle := (advances_spec hadv (by show t.inFlight < _; omega)).2
    have hmove : seg.ack = t.conn.sndUna + BitVec.ofNat 32 (seg.ack - t.conn.sndUna).toNat :=
      (Serial.add_ofNat_toNat_sub _ _).symm
    have hflight := hmoved _ hle hmove rfl
    rw [hst] at hbound
    refine ⟨_, hle, ⟨⟨h.ring.head_lt, h.ring.len_le, h.ring.cap_le⟩, ?_, ?_, ?_⟩,
      hemits _ hle hmove rfl rfl rfl, rfl⟩
    · intro hst'
      exact absurd (hst.symm.trans hst') (by decide)
    · rintro (hst' | hst')
      · exact absurd (hst.symm.trans hst') (by decide)
      · exact absurd (hst.symm.trans hst') (by decide)
    · show _ + t.conn.state.finsLeft ≤ B
      rw [hst]
      show _ + 0 ≤ B
      omega

/-- Everything an event does before a remote FIN is taken. -/
theorem input_spec (h : Paced B t) (hB : wgTcpSendbufSize + 1 ≤ B) (hlimit : B ≤ paceLimit)
    (hi : Input env t t') : ∃ k ≤ B, Paced B t' ∧ Emits k t t' := by
  cases hi with
  | path hp =>
    obtain ⟨hpaced, hemits⟩ := paces_path h hB hlimit hp
    exact ⟨0, Nat.zero_le _, hpaced, hemits⟩
  | acked seg hp hack hp' =>
    obtain ⟨hpaced₀, hemits₀⟩ := paces_path h hB hlimit hp
    obtain ⟨k, hk, hpaced₁, hemits₁, -⟩ := acked_spec hpaced₀ hB hlimit hack
    obtain ⟨hpaced₂, hemits₂⟩ := paces_path hpaced₁ hB hlimit hp'
    have hbound := hpaced₀.bound
    refine ⟨k, by omega, hpaced₂, ?_⟩
    have hemits := (hemits₀.trans hemits₁).trans_zero hemits₂
    rwa [Nat.zero_add] at hemits

/-- An established connection has only bytes of the ring in flight. -/
theorem Paced.tighten (h : Paced B t) (hst : t.conn.state = .established) :
    Paced (wgTcpSendbufSize + 1) t := by
  refine ⟨h.ring, h.inFlight, h.opening, ?_⟩
  rw [hst]
  exact Nat.add_le_add_right ((h.inFlight hst).trans h.ring.len_le_size) 1

theorem Paced.mono {B' : ℕ} (h : Paced B t) (hle : B ≤ B') : Paced B' t :=
  ⟨h.ring, h.inFlight, h.opening, h.bound.trans hle⟩

/-- The remote FIN is taken: one more FIN can come from `on_close`. -/
theorem takeFin_spec (env : TcpEnv) (h : Paced B t) :
    Paced (B + 1) (takeFin env t) ∧ Emits 0 t (takeFin env t) := by
  have hflight : (takeFin env t).inFlight = t.inFlight := rfl
  have hbound := h.bound
  refine ⟨⟨⟨h.ring.head_lt, h.ring.len_le, h.ring.cap_le⟩, ?_, ?_, ?_⟩, ?_⟩
  · intro hst
    cases hst
  · rintro (hst | hst) <;> cases hst
  · rw [hflight]
    show _ + 1 ≤ B + 1
    omega
  · refine emits_still rfl rfl rfl (List.append_assoc _ _ _) ?_
    rw [segments_append]
    exact next_bare rfl

/-! ### Retransmission -/

/-- All that `retransmit_cb` would send is counted by `snd_nxt`. -/
def Conn.retransmitFits (conn : Conn) : Bool :=
  match conn.state with
  | .established | .closeWait => conn.sendbufLen ≤ (conn.sndNxt - conn.sndUna).toNat
  | .finWait | .lastAck =>
    conn.sendbufLen = 0 || conn.sendbufLen + 1 ≤ (conn.sndNxt - conn.sndUna).toNat
  | .synSent | .synReceived | .closed => true

/-- The FIN behind the ring. -/
def Conn.finBit (conn : Conn) : ℕ := if conn.state = .finWait || conn.state = .lastAck then 1 else 0

theorem next_retransmit (env : TcpEnv) {conn : Conn} (h : conn.RingOk) {off len : ℕ}
    (hfit : off + len ≤ conn.sendbufLen) (last : Bool) :
    (segmentOf env conn { ack := true, psh := true, fin := last }
      (conn.sndUna + BitVec.ofNat 32 off) conn.rcvNxt (sendbufCopyOut conn off len)).next =
      conn.sndUna + BitVec.ofNat 32 (off + len + if last then 1 else 0) := by
  have hlen := (fromRing_segmentOf env h hfit { ack := true } conn.rcvNxt).2
  show conn.sndUna + BitVec.ofNat 32 off +
    BitVec.ofNat 32 ((sendbufCopyOut conn off len).length + if last then 1 else 0) = _
  rw [hlen, Serial.add_ofNat_add, Nat.add_assoc]

/-- The retransmission loop sends up to the end of the ring and the FIN behind it, and no further. -/
theorem retransmitLoop_next (env : TcpEnv) {conn : Conn} (h : conn.RingOk) (fuel off : ℕ) :
    (∀ seg ∈ retransmitLoop env conn fuel off, ∃ j ≤ conn.sendbufLen + conn.finBit,
      seg.next = conn.sndUna + BitVec.ofNat 32 j) ∧
    (off < conn.sendbufLen → conn.sendbufLen ≤ off + fuel → ∃ seg ∈ retransmitLoop env conn fuel off,
      seg.next = conn.sndUna + BitVec.ofNat 32 (conn.sendbufLen + conn.finBit)) := by
  induction fuel generalizing off with
  | zero =>
    refine ⟨List.forall_mem_nil _, fun hlt hle => ?_⟩
    omega
  | succ fuel ih =>
    unfold retransmitLoop
    by_cases hmore : off < conn.sendbufLen
    · rw [if_pos hmore]
      simp only
      generalize hlen : (if conn.sendbufLen - off > conn.mss then conn.mss
        else conn.sendbufLen - off) = len
      have hmss : 0 < conn.mss := by
        unfold Conn.mss wgTcpMss
        split_ifs <;> omega
      have hfit : off + len ≤ conn.sendbufLen := by split_ifs at hlen <;> omega
      have hpos : 0 < len := by split_ifs at hlen <;> omega
      obtain ⟨hall, hlast⟩ := ih (off + len)
      have hfin : off + len = conn.sendbufLen →
          (decide (off + len = conn.sendbufLen) &&
            (conn.state = .finWait || conn.state = .lastAck)) =
          (decide (conn.state = .finWait) || decide (conn.state = .lastAck)) := by
        intro hend
        rw [decide_eq_true hend, Bool.true_and]
      refine ⟨List.forall_mem_cons.2 ⟨⟨_, ?_, next_retransmit env h hfit _⟩, hall⟩, ?_⟩
      · by_cases hend : off + len = conn.sendbufLen
        · rw [hfin hend, hend]
          exact le_rfl
        · rw [decide_eq_false hend, Bool.false_and]
          simp only [Bool.false_eq_true, if_false]
          omega
      · intro _ hfuel
        by_cases hend : off + len = conn.sendbufLen
        · refine ⟨_, List.mem_cons_self, ?_⟩
          rw [next_retransmit env h hfit, hfin hend, hend]
          rfl
        · obtain ⟨seg, hseg, hnext⟩ := hlast (by omega) (by omega)
          exact ⟨seg, List.mem_cons_of_mem _ hseg, hnext⟩
    · rw [if_neg hmore]
      exact ⟨List.forall_mem_nil _, fun hlt => absurd hlt hmore⟩

theorem resent_frame (env : TcpEnv) (t : Tcp) : SameRing t (resent env t) ∧
    (resent env t).conn.state = t.conn.state ∧ (resent env t).conn.sndUna = t.conn.sndUna ∧
    (resent env t).conn.sndNxt = t.conn.sndNxt ∧ (resent env t).inFlight = t.inFlight ∧
    (resent env t).trace =
      t.trace ++ (retransmitSegments env (retransmitFired t).conn).map .segment :=
  ⟨⟨rfl, rfl, rfl, rfl, rfl⟩, rfl, rfl, rfl, rfl, rfl⟩

theorem Paced.resent (h : Paced B t) : Paced B (resent env t) := by
  obtain ⟨hring, hst, huna, hnxt, -, -⟩ := resent_frame env t
  exact h.still hring (Or.inl hst) huna hnxt

/-- What `retransmit_cb` sends ends before `snd_nxt`, or with the ring and the FIN behind it. -/
theorem retransmitSegments_next (h : Paced B t) (seg : Segment)
    (hseg : seg ∈ retransmitSegments env (retransmitFired t).conn) :
    seg.next = t.conn.sndNxt ∨ (t.conn.state ≠ .synSent ∧ t.conn.state ≠ .synReceived ∧
      t.conn.state ≠ .closed ∧ 0 < t.conn.sendbufLen ∧
      ∃ j ≤ t.conn.sendbufLen + t.conn.finBit, seg.next = t.conn.sndUna + BitVec.ofNat 32 j) := by
  have hring : (retransmitFired t).conn.RingOk := ⟨h.ring.head_lt, h.ring.len_le, h.ring.cap_le⟩
  have hst : (retransmitFired t).conn.state = t.conn.state := rfl
  have hloop := (retransmitLoop_next env hring t.conn.sendbufLen 0).1
  have hpos : ∀ seg ∈ retransmitLoop env (retransmitFired t).conn t.conn.sendbufLen 0,
      0 < t.conn.sendbufLen := by
    intro seg hseg
    rw [Nat.pos_iff_ne_zero]
    intro hzero
    rw [hzero] at hseg
    cases hseg
  unfold retransmitSegments at hseg
  cases hstate : t.conn.state with
  | synSent =>
    rw [hst, hstate] at hseg
    obtain rfl := List.mem_singleton.1 hseg
    rw [(h.opening (Or.inl hstate)).2]
    exact Or.inl rfl
  | synReceived =>
    rw [hst, hstate] at hseg
    obtain rfl := List.mem_singleton.1 hseg
    rw [(h.opening (Or.inr hstate)).2]
    exact Or.inl rfl
  | closed =>
    rw [hst, hstate] at hseg
    cases hseg
  | established =>
    rw [hst, hstate] at hseg
    exact Or.inr ⟨by simp, by simp, by simp, hpos seg hseg, hloop seg hseg⟩
  | closeWait =>
    rw [hst, hstate] at hseg
    exact Or.inr ⟨by simp, by simp, by simp, hpos seg hseg, hloop seg hseg⟩
  | finWait =>
    rw [hst, hstate] at hseg
    simp only at hseg
    split_ifs at hseg with hlen
    · exact Or.inr ⟨by simp, by simp, by simp, hlen, hloop seg hseg⟩
    · obtain rfl := List.mem_singleton.1 hseg
      exact Or.inl (BitVec.sub_add_cancel _ _)
  | lastAck =>
    rw [hst, hstate] at hseg
    simp only at hseg
    split_ifs at hseg with hlen
    · exact Or.inr ⟨by simp, by simp, by simp, hlen, hloop seg hseg⟩
    · obtain rfl := List.mem_singleton.1 hseg
      exact Or.inl (BitVec.sub_add_cancel _ _)

/-- With a ring that is not empty the condition is about its end and the FIN behind it. -/
theorem retransmitFits_iff (hlen : 0 < t.conn.sendbufLen) (hst : t.conn.state ≠ .synSent)
    (hst' : t.conn.state ≠ .synReceived) (hst'' : t.conn.state ≠ .closed) :
    t.conn.retransmitFits = true ↔ t.conn.sendbufLen + t.conn.finBit ≤ t.inFlight := by
  have hne : t.conn.sendbufLen ≠ 0 := by omega
  unfold Conn.retransmitFits Conn.finBit Tcp.inFlight
  cases hstate : t.conn.state <;> simp_all

/-- A retransmission that fits sends nothing beyond `snd_nxt`. -/
theorem emits_resent (h : Paced B t) (hfit : t.conn.retransmitFits = true) :
    Emits 0 t (resent env t) := by
  obtain ⟨hring, -, huna, hnxt, hflight, htrace⟩ := resent_frame env t
  refine ⟨hring.iss, huna.trans (BitVec.add_zero _).symm, by omega, _, htrace, fun seg hseg => ?_⟩
  rw [segments_segments] at hseg
  rcases retransmitSegments_next h seg hseg with hnext | ⟨h1, h2, h3, hlen, j, hj, hnext⟩
  · exact ⟨t.inFlight, by omega, by rw [hnext, ← sndNxt_eq]⟩
  · have hend := (retransmitFits_iff hlen h1 h2 h3).1 hfit
    exact ⟨j, by omega, hnext⟩

/-- A retransmission that does not fit sends something beyond `snd_nxt`. -/
theorem resent_beyond (env : TcpEnv) (h : Paced B t) (hfit : t.conn.retransmitFits = false) :
    ∃ seg ∈ retransmitSegments env (retransmitFired t).conn, ∃ j, t.inFlight < j ∧
      j ≤ wgTcpSendbufSize + 1 ∧ seg.next = t.conn.sndUna + BitVec.ofNat 32 j := by
  have hring : (retransmitFired t).conn.RingOk := ⟨h.ring.head_lt, h.ring.len_le, h.ring.cap_le⟩
  have hsize := h.ring.len_le_size
  have hbit : t.conn.finBit ≤ 1 := by
    unfold Conn.finBit
    split_ifs <;> omega
  obtain ⟨hlen, hst, hst', hst''⟩ : 0 < t.conn.sendbufLen ∧ t.conn.state ≠ .synSent ∧
      t.conn.state ≠ .synReceived ∧ t.conn.state ≠ .closed := by
    unfold Conn.retransmitFits at hfit
    cases hstate : t.conn.state <;> simp_all <;> omega
  have hend : t.inFlight < t.conn.sendbufLen + t.conn.finBit := by
    by_contra hge
    rw [(retransmitFits_iff hlen hst hst' hst'').2 (by omega)] at hfit
    cases hfit
  obtain ⟨seg, hseg, hnext⟩ :=
    (retransmitLoop_next env hring t.conn.sendbufLen 0).2 hlen (Nat.le_add_left _ _)
  refine ⟨seg, ?_, _, hend, by omega, hnext⟩
  have hst₀ : (retransmitFired t).conn.state = t.conn.state := rfl
  unfold retransmitSegments
  cases hstate : t.conn.state with
  | synSent => exact absurd hstate hst
  | synReceived => exact absurd hstate hst'
  | closed => exact absurd hstate hst''
  | established =>
    rw [hst₀, hstate]
    exact hseg
  | closeWait =>
    rw [hst₀, hstate]
    exact hseg
  | finWait =>
    rw [hst₀, hstate]
    exact (if_pos hlen).symm ▸ hseg
  | lastAck =>
    rw [hst₀, hstate]
    exact (if_pos hlen).symm ▸ hseg

/-! ### Events -/

/-- If the event is a retransmission, then `snd_nxt` counts all that it sends. -/
def retransmitOk (t : Tcp) (e : TcpEnv × TcpEvent) : Prop :=
  match e.2 with
  | .retransmit => t.conn.released = false → t.conn.beingFreed = false →
      t.conn.retransmitTimer = true → t.conn.retransmitCount + 1 ≤ wgTcpMaxRetransmit →
      t.conn.retransmitFits = true
  | _ => True

/-- **An event keeps the pace**, and sends nothing beyond `snd_nxt` if it is no retransmission or one
that fits. -/
theorem paced_tcpStep (e : TcpEnv × TcpEvent) (h : Paced paceLimit t) :
    Paced paceLimit (tcpStep t e) ∧
      (retransmitOk t e → ∃ k ≤ paceLimit, Emits k t (tcpStep t e)) := by
  have hB : wgTcpSendbufSize + 1 ≤ paceLimit := by decide
  generalize heq : tcpStep t e = t'
  have hshape : StepShape e.1 e.2 t t' := heq ▸ tcpStep_shape t e
  cases hshape with
  | input hi =>
    obtain ⟨k, hk, hpaced, hemits⟩ := input_spec h hB le_rfl hi
    exact ⟨hpaced, fun _ => ⟨k, hk, hemits⟩⟩
  | fin hst hi hclose =>
    have hmid : wgTcpSendbufSize + 1 + 1 ≤ paceLimit := by decide
    obtain ⟨k, hk, hpaced₂, hemits₂⟩ := input_spec (h.tighten hst) le_rfl (by decide) hi
    obtain ⟨hpaced, hemits⟩ := takeFin_spec e.1 hpaced₂
    obtain ⟨hpaced₃, hemits₃⟩ := paces_path hpaced (Nat.le_add_right _ 1) hmid hclose
    have hbound := hpaced₃.bound
    have hroom : _ + 1 ≤ paceLimit := Nat.add_le_add_right ((Nat.le_add_right _ _).trans hbound) 1
    obtain ⟨hpaced₄, hemits₄⟩ :=
      paces_sendFin e.1 (hpaced₃.mono hmid) hroom le_rfl (Or.inr (rfl : TcpState.lastAck = _))
    refine ⟨hpaced₄, fun _ => ⟨k, by omega, ?_⟩⟩
    exact ((hemits₂.trans_zero hemits).trans_zero hemits₃).trans_zero hemits₄
  | resend he hrel hlive htimer hcount =>
    refine ⟨h.resent, fun hok => ⟨0, Nat.zero_le _, emits_resent h ?_⟩⟩
    rw [retransmitOk, he] at hok
    exact hok hrel hlive htimer hcount
  | abort he hlive htimer hcount habort =>
    have hclosed : Paces paceLimit t ((retransmitFired t).update fun conn =>
        { conn with state := .closed }) :=
      paces_conn h ⟨rfl, rfl, rfl, rfl, rfl⟩ (Or.inr rfl) rfl rfl rfl
    obtain ⟨hpaced₃, hemits₃⟩ := paces_path hclosed.1 hB le_rfl habort
    obtain ⟨hpaced₄, hemits₄⟩ := paces_path hpaced₃ hB le_rfl (path_connDestroy e.1 _)
    refine ⟨hpaced₄, fun _ => ⟨0, Nat.zero_le _, ?_⟩⟩
    exact (hclosed.2.trans_zero hemits₃).trans_zero hemits₄

end Emits

/-! ### The wire -/

/-- Positions in the stream of a connection, counted from its initial sequence number. -/
structure Wire where
  /-- The position of `snd_nxt`. -/
  nxt : ℤ
  /-- The furthest end of a segment sent so far. -/
  sent : ℤ

/-- The positions after `segs` were sent and the connection is `conn`: `snd_nxt` is looked for near
its last position, the ends of the segments near `snd_nxt`. -/
def Wire.observe (w : Wire) (conn : Conn) (segs : List Segment) : Wire where
  nxt := Serial.near conn.iss w.nxt conn.sndNxt
  sent := (segs.map fun seg =>
    Serial.near conn.iss (Serial.near conn.iss w.nxt conn.sndNxt) seg.next).foldl max w.sent

/-- A connection with its positions. -/
structure Watched where
  tcp : Tcp
  wire : Wire

/-- The connection as it is opened. -/
def Watched.start (t : Tcp) : Watched := ⟨t, Wire.observe ⟨0, 0⟩ t.conn (segments t.trace)⟩

/-- One event, with what it sends. -/
def watchedStep (s : Watched) (e : TcpEnv × TcpEvent) : Watched where
  tcp := tcpStep s.tcp e
  wire := s.wire.observe (tcpStep s.tcp e).conn
    (segments ((tcpStep s.tcp e).trace.drop s.tcp.trace.length))

/-- The connection after some events. -/
def watchedRun (t : Tcp) (es : List (TcpEnv × TcpEvent)) : Watched :=
  Machine.run watchedStep (.start t) es

/-- The position of `snd_una`. -/
def Watched.una (s : Watched) : ℤ := s.wire.nxt - s.tcp.inFlight

section Wire

variable {k : ℕ} {t t' : Tcp} {w : Wire} {u : ℤ} {es : List Entry}

theorem foldl_max_le {l : List ℤ} {a b : ℤ} : l.foldl max a ≤ b ↔ a ≤ b ∧ ∀ x ∈ l, x ≤ b := by
  induction l generalizing a with
  | nil => simp
  | cons x l ih => rw [List.foldl_cons, ih, max_le_iff, List.forall_mem_cons, and_assoc]

/-- What is observed when `snd_una` was at position `u`. -/
theorem observe_nxt (h : Emits k t t') (hu : t.conn.sndUna = t.conn.iss + BitVec.ofInt 32 u)
    (hlow : w.nxt - 2 ^ 30 ≤ u + k + t'.inFlight) (hhigh : u + k + t'.inFlight ≤ w.nxt + 2 ^ 30)
    (segs : List Segment) : (w.observe t'.conn segs).nxt = u + k + t'.inFlight := by
  have hnxt : t'.conn.sndNxt =
      t'.conn.iss + BitVec.ofInt 32 (w.nxt + (u + k + t'.inFlight - w.nxt)) := by
    rw [sndNxt_eq, h.sndUna, hu, h.iss, Serial.add_ofInt_ofNat, Serial.add_ofInt_ofNat]
    congr 2
    omega
  show Serial.near t'.conn.iss w.nxt t'.conn.sndNxt = _
  rw [hnxt, Serial.near_add (by omega) (by omega)]
  omega

/-- A segment `j` behind `snd_una` is seen at its position. -/
theorem near_segment (h : Emits k t t') (hu : t.conn.sndUna = t.conn.iss + BitVec.ofInt 32 u)
    {nxt : ℤ} {seg : Segment} {j : ℕ} (hseg : seg.next = t.conn.sndUna + BitVec.ofNat 32 j)
    (hlow : nxt - 2 ^ 30 ≤ u + j) (hhigh : u + j ≤ nxt + 2 ^ 30) :
    Serial.near t'.conn.iss nxt seg.next = u + j := by
  have hnext : seg.next = t'.conn.iss + BitVec.ofInt 32 (nxt + (u + j - nxt)) := by
    rw [hseg, hu, h.iss, Serial.add_ofInt_ofNat]
    congr 2
    omega
  rw [hnext, Serial.near_add (by omega) (by omega)]
  omega

/-- Nothing sent is seen beyond `snd_nxt`. -/
theorem observe_sent (h : Emits k t t') (hu : t.conn.sndUna = t.conn.iss + BitVec.ofInt 32 u)
    (hlow : w.nxt - 2 ^ 30 ≤ u + k + t'.inFlight) (hhigh : u + k + t'.inFlight ≤ w.nxt + 2 ^ 30)
    (hsmall : k + t'.inFlight ≤ 2 ^ 30) (hsent : w.sent ≤ u + k + t'.inFlight) :
    (w.observe t'.conn (segments (t'.trace.drop t.trace.length))).sent ≤ u + k + t'.inFlight := by
  obtain ⟨es, hes, hsegs⟩ := h.sent
  have hnxt := observe_nxt h hu hlow hhigh []
  rw [hes, List.drop_left]
  refine foldl_max_le.2 ⟨hsent, fun x hx => ?_⟩
  obtain ⟨seg, hseg, rfl⟩ := List.mem_map.1 hx
  obtain ⟨j, hj, hnext⟩ := hsegs seg hseg
  show Serial.near t'.conn.iss (w.observe t'.conn []).nxt seg.next ≤ _
  rw [hnxt, near_segment h hu hnext (by omega) (by omega)]
  omega

end Wire

/-! ### The invariant of a run -/

/-- A connection that is not being freed is in one of the states it can wait in. -/
def Lively (t : Tcp) : Prop :=
  t.conn.beingFreed = true ∨ t.conn.state ≠ .closed ∧ t.conn.state ≠ .closeWait

section Runs

variable {env : TcpEnv} {t t' : Tcp} {s : Watched} {e : TcpEnv × TcpEvent}

theorem lively_of_eq (h : Lively t) (hst : t'.conn.state = t.conn.state)
    (hlive : t'.conn.beingFreed = t.conn.beingFreed) : Lively t' := by
  rw [Lively, hst, hlive]
  exact h

theorem lively_connDestroy (t : Tcp) : Lively (connDestroy t) := by
  left
  unfold connDestroy
  split_ifs with hfreed
  · exact hfreed
  · rfl

theorem lively_sendFin (env : TcpEnv) (t : Tcp) {state : TcpState}
    (hst : state = .finWait ∨ state = .lastAck) : Lively (sendFin env state t) := by
  right
  show state ≠ .closed ∧ state ≠ .closeWait
  rcases hst with rfl | rfl
  · exact ⟨by decide, by decide⟩
  · exact ⟨by decide, by decide⟩

theorem lively_move (h : Lively t) (hm : Move env t t') : Lively t' := by
  cases hm with
  | accept data grown hlive hst hpos hfit hgrow =>
    refine lively_of_eq h ?_ ?_
    all_goals
      unfold sendbufGrow at hgrow
      simp only at hgrow
      split_ifs at hgrow <;> cases hgrow <;> rfl
  | flush =>
    unfold tcpFlushPending
    simp only
    split_ifs <;> exact lively_of_eq h rfl rfl
  | ack hlive =>
    unfold tcpAckNow
    split_ifs <;> exact lively_of_eq h rfl rfl
  | close state hlive hst =>
    rcases hst with ⟨-, rfl⟩ | ⟨-, rfl⟩
    · exact lively_sendFin env t (Or.inl rfl)
    · exact lively_sendFin env t (Or.inr rfl)
  | reset => exact lively_connDestroy _
  | destroy => exact lively_connDestroy _
  | finish => exact lively_connDestroy _
  | queueOoo seq data =>
    rw [Tcp.update, tcpOooQueue_frame]
    exact lively_of_eq h rfl rfl
  | note => exact lively_of_eq h rfl rfl
  | setHandlers => exact lively_of_eq h rfl rfl
  | schedule => exact lively_of_eq h rfl rfl
  | unschedule => exact lively_of_eq h rfl rfl
  | delayAck => exact lively_of_eq h rfl rfl
  | armAck => exact lively_of_eq h rfl rfl
  | ackFired => exact lively_of_eq h rfl rfl
  | window => exact lively_of_eq h rfl rfl
  | stopTimer => exact lively_of_eq h rfl rfl
  | receive => exact lively_of_eq h rfl rfl
  | popOoo => exact lively_of_eq h rfl rfl
  | countFin => exact lively_of_eq h rfl rfl
  | notify => exact lively_of_eq h rfl rfl
  | timerGone => exact lively_of_eq h rfl rfl
  | release => exact lively_of_eq h rfl rfl

theorem lively_path (h : Lively t) (hp : Path env t t') : Lively t' := by
  induction hp with
  | refl => exact h
  | tail _ hm ih => exact lively_move ih hm

theorem lively_acked {seg : Inbound} (ha : Acked env seg t t') : Lively t' := by
  right
  generalize heq : t' = u at ha
  cases ha with
  | passive =>
    subst heq
    exact ⟨by simp, by simp⟩
  | active =>
    subst heq
    exact ⟨by simp [parseSynOptions], by simp [parseSynOptions]⟩
  | data hst hadv =>
    have hst' : t'.conn.state = t.conn.state := by
      rw [heq]
      simp only [Tcp.update]
      split_ifs
      · rw [sendbufConsume_frame]
      · rfl
    rw [← heq, hst', hst]
    exact ⟨by decide, by decide⟩
  | fin hst hadv =>
    subst heq
    simp only [Tcp.update_conn, hst]
    exact ⟨by decide, by decide⟩

theorem lively_tcpStep (h : Lively t) : Lively (tcpStep t e) := by
  generalize heq : tcpStep t e = t'
  have hshape : StepShape e.1 e.2 t t' := heq ▸ tcpStep_shape t e
  cases hshape with
  | input hi =>
    cases hi with
    | path hp => exact lively_path h hp
    | acked seg hp hack hp' => exact lively_path (lively_acked hack) hp'
  | fin => exact lively_sendFin _ _ (Or.inr rfl)
  | resend => exact lively_of_eq h rfl rfl
  | abort => exact lively_connDestroy _

/-- The positions are those of the connection, and `snd_nxt` covers what was sent. -/
structure Watched.Tracked (s : Watched) : Prop where
  paced : Paced paceLimit s.tcp
  lively : Lively s.tcp
  nxt : s.tcp.conn.sndNxt = s.tcp.conn.iss + BitVec.ofInt 32 s.wire.nxt
  covered : s.wire.sent ≤ s.wire.nxt

theorem Watched.Tracked.sndUna (h : s.Tracked) :
    s.tcp.conn.sndUna = s.tcp.conn.iss + BitVec.ofInt 32 s.una := by
  have hnxt := h.nxt
  rw [sndNxt_eq] at hnxt
  have hsplit : s.wire.nxt = s.una + s.tcp.inFlight := by
    unfold Watched.una
    omega
  rw [hsplit, ← Serial.add_ofInt_ofNat, BitVec.add_left_inj] at hnxt
  exact hnxt

theorem Watched.Tracked.step (h : s.Tracked) (hok : retransmitOk s.tcp e) :
    (watchedStep s e).Tracked := by
  obtain ⟨hpaced, hemit⟩ := paced_tcpStep e h.paced
  obtain ⟨k, hk, hemits⟩ := hemit hok
  have hbound := h.paced.bound
  have hbound' := hpaced.bound
  have hlimit := paceLimit_lt
  have hflight := hemits.inFlight
  have hcov := h.covered
  have huna : s.una = s.wire.nxt - s.tcp.inFlight := rfl
  have hnxt := observe_nxt hemits h.sndUna (by omega : s.wire.nxt - 2 ^ 30 ≤ _) (by omega)
    (segments ((tcpStep s.tcp e).trace.drop s.tcp.trace.length))
  have hsent := observe_sent hemits h.sndUna (by omega : s.wire.nxt - 2 ^ 30 ≤ _) (by omega)
    (by omega) (by omega)
  refine ⟨hpaced, lively_tcpStep h.lively, ?_, ?_⟩
  · show (tcpStep s.tcp e).conn.sndNxt = (tcpStep s.tcp e).conn.iss + BitVec.ofInt 32 _
    rw [watchedStep, hnxt, sndNxt_eq, hemits.sndUna, h.sndUna, hemits.iss, Serial.add_ofInt_ofNat,
      Serial.add_ofInt_ofNat]
  · show _ ≤ Wire.nxt _
    rw [watchedStep, hnxt]
    exact hsent

/-- A retransmission that does not fit is seen beyond `snd_nxt`. -/
theorem Watched.Tracked.beyond (h : s.Tracked) (hno : ¬ retransmitOk s.tcp e) :
    (watchedStep s e).wire.nxt < (watchedStep s e).wire.sent := by
  obtain ⟨env, e⟩ := e
  unfold retransmitOk at hno
  cases e with
  | retransmit =>
    simp only [Classical.not_imp] at hno
    obtain ⟨hrel, hlive, htimer, hcount, hfit⟩ := hno
    rw [Bool.not_eq_true] at hfit
    have hstep : tcpStep s.tcp (env, .retransmit) = resent env s.tcp := by
      unfold tcpStep ownedStep retransmitCb
      simp only [hrel, htimer, hlive, Bool.false_eq_true, if_false, if_true]
      exact if_neg (not_lt.2 hcount)
    obtain ⟨seg, hseg, j, hj, hjle, hnext⟩ := resent_beyond env h.paced hfit
    have hsmall : wgTcpSendbufSize + 1 ≤ 2 ^ 30 := by decide
    have hbound := h.paced.bound
    have hlimit := paceLimit_lt
    have huna : s.una = s.wire.nxt - s.tcp.inFlight := rfl
    -- `snd_nxt` stays, and the segment is seen behind it
    have hnxt := observe_nxt (Emits.refl s.tcp) h.sndUna (by omega : s.wire.nxt - 2 ^ 30 ≤ _)
      (by omega) (retransmitSegments env (retransmitFired s.tcp).conn)
    have hnear := near_segment (Emits.refl s.tcp) h.sndUna hnext
      (by omega : s.una + (0 : ℕ) + s.tcp.inFlight - 2 ^ 30 ≤ _) (by omega)
    rw [watchedStep, hstep, (resent_frame env s.tcp).2.2.2.2.2, List.drop_left, segments_segments]
    show Wire.nxt (s.wire.observe s.tcp.conn _) < Wire.sent (s.wire.observe s.tcp.conn _)
    rw [hnxt]
    have hle := (foldl_max_le.1 (le_refl (Wire.sent (s.wire.observe s.tcp.conn
      (retransmitSegments env (retransmitFired s.tcp).conn))))).2 _ (List.mem_map_of_mem hseg)
    refine lt_of_lt_of_le ?_ hle
    show _ < Serial.near s.tcp.conn.iss (Wire.nxt (s.wire.observe s.tcp.conn
      (retransmitSegments env (retransmitFired s.tcp).conn))) seg.next
    rw [hnxt, hnear]
    omega
  | call a => exact absurd trivial hno
  | input seg => exact absurd trivial hno
  | flush => exact absurd trivial hno
  | delayedAck => exact absurd trivial hno
  | timerClose => exact absurd trivial hno

/-- A connection record before its SYN is sent. -/
structure Conn.Opening (conn : Conn) : Prop where
  ring : conn.RingOk
  state : conn.state = .synSent ∨ conn.state = .synReceived
  sndUna : conn.sndUna = conn.iss
  sndNxt : conn.sndNxt = conn.iss + 1

theorem opening_fresh {st : TcpState} (hst : st = .synSent ∨ st = .synReceived) (iss rcvNxt : Seq)
    (handlers : Handlers) : (Conn.fresh st iss rcvNxt handlers).Opening :=
  ⟨ringOk_fresh st iss rcvNxt handlers, hst, rfl, rfl⟩

/-- The SYN is sent from `snd_una` and ends at `snd_nxt`. -/
theorem syn_spec (env : TcpEnv) {conn : Conn} (h : conn.Opening) {flags : Flags}
    (hsyn : flags.syn = true) (ack : Seq) :
    Paced paceLimit (sendSegment env flags conn.iss ack [] ⟨conn, []⟩) ∧
      Lively (sendSegment env flags conn.iss ack [] ⟨conn, []⟩) ∧
      Emits 0 ⟨conn, []⟩ (sendSegment env flags conn.iss ack [] ⟨conn, []⟩) := by
  have hflight : (sendSegment env flags conn.iss ack [] ⟨conn, []⟩).inFlight = 1 := by
    apply inFlight_of_eq (by decide)
    show conn.sndNxt = conn.sndUna + BitVec.ofNat 32 1
    rw [h.sndNxt, h.sndUna]
    rfl
  have hst : ∀ st, conn.state = st → st = .synSent ∨ st = .synReceived := fun st hst =>
    hst ▸ h.state
  refine ⟨⟨h.ring, fun hest => ?_, fun _ => ⟨h.sndUna, h.sndNxt⟩, ?_⟩, Or.inr ⟨fun hc => ?_,
    fun hc => ?_⟩, emits_still rfl rfl rfl rfl fun seg hseg => ?_⟩
  · rcases hst _ hest with h | h <;> cases h
  · rw [hflight]
    show 1 + conn.state.finsLeft ≤ paceLimit
    rcases h.state with hst | hst
    · rw [hst]
      decide
    · rw [hst]
      decide
  · rcases hst _ hc with h | h <;> cases h
  · rcases hst _ hc with h | h <;> cases h
  · obtain rfl := List.mem_singleton.1 hseg
    show conn.iss + BitVec.ofNat 32 (0 + if flags.syn || flags.fin then 1 else 0) = conn.sndNxt
    rw [h.sndNxt, hsyn]
    rfl

/-- What is observed of a connection that was just opened. -/
theorem tracked_start {conn : Conn} (hpaced : Paced paceLimit t) (hlively : Lively t)
    (hemits : Emits 0 ⟨conn, []⟩ t) (huna : conn.sndUna = conn.iss) :
    (Watched.start t).Tracked := by
  have hu : (Tcp.mk conn []).conn.sndUna =
      (Tcp.mk conn []).conn.iss + BitVec.ofInt 32 0 := by
    show conn.sndUna = conn.iss + 0#32
    rw [huna, BitVec.add_zero]
  have hbound := hpaced.bound
  have hlimit := paceLimit_lt
  have hnxt := observe_nxt hemits hu (by simp only []; omega : (Wire.mk 0 0).nxt - 2 ^ 30 ≤ _)
    (by simp only []; omega) (segments t.trace)
  have hsent := observe_sent hemits hu (by simp only []; omega : (Wire.mk 0 0).nxt - 2 ^ 30 ≤ _)
    (by simp only []; omega) (by omega) (by simp only []; omega)
  refine ⟨hpaced, hlively, ?_, ?_⟩
  · show t.conn.sndNxt = t.conn.iss + BitVec.ofInt 32 (Wire.nxt _)
    rw [Watched.start, hnxt, sndNxt_eq, hemits.sndUna, hu, hemits.iss, Serial.add_ofInt_ofNat,
      Serial.add_ofInt_ofNat]
  · show _ ≤ Wire.nxt _
    rw [Watched.start, hnxt]
    exact hsent

/-- `on_accept` has run. -/
theorem tracked_accepted (env : TcpEnv) (handlers : Handlers) {conn : Conn}
    (hpaced : Paced paceLimit t) (hlively : Lively t) (hemits : Emits 0 ⟨conn, []⟩ t)
    (huna : conn.sndUna = conn.iss) :
    (Watched.start (runCallback env .accept (t.update fun conn =>
      { conn with handlers := handlers }))).Tracked := by
  have hset : Paces paceLimit t (t.update fun conn => { conn with handlers := handlers }) :=
    paces_conn hpaced ⟨rfl, rfl, rfl, rfl, rfl⟩ (Or.inl rfl) rfl rfl rfl
  have hlively' : Lively (t.update fun conn => { conn with handlers := handlers }) :=
    lively_of_eq hlively rfl rfl
  have hpath := path_runCallback env .accept
    (t.update fun conn => { conn with handlers := handlers })
  obtain ⟨hpaced', hemits'⟩ := paces_path hset.1 (by decide) le_rfl hpath
  exact tracked_start hpaced' (lively_path hlively' hpath)
    ((hemits.trans_zero hset.2).trans_zero hemits') huna

theorem tracked_opened (h : Opened t) : (Watched.start t).Tracked := by
  cases h with
  | connect env iss handlers =>
    obtain ⟨hpaced, hlively, hemits⟩ :=
      syn_spec env (opening_fresh (Or.inl rfl) iss 0 handlers) (rfl : Flags.syn { syn := true } = _) 0
    exact tracked_start hpaced hlively hemits rfl
  | accept env iss handlers seg hsyn hack =>
    have hopen := opening_fresh (Or.inr rfl) iss (seg.seq + 1) ⟨false, false, false, false, false⟩
    unfold tcpstackAccept
    simp only
    generalize hconn : ({ parseSynOptions seg.options (Conn.fresh .synReceived iss (seg.seq + 1)
      ⟨false, false, false, false, false⟩) with sndWnd := _ } : Conn) = conn
    obtain ⟨hopen', hiss⟩ : conn.Opening ∧ conn.iss = iss := by
      rw [← hconn]
      exact ⟨⟨{ hopen.ring with }, hopen.state, hopen.sndUna, hopen.sndNxt⟩, rfl⟩
    obtain ⟨hpaced, hlively, hemits⟩ :=
      syn_spec env hopen' (rfl : Flags.syn { syn := true, ack := true } = _) (seg.seq + 1)
    rw [hiss] at hpaced hlively hemits
    exact tracked_accepted env handlers hpaced hlively hemits hopen'.sndUna

/-- Every run in which the retransmissions fit is tracked. -/
theorem tracked_run (h : Opened t) {es : List (TcpEnv × TcpEvent)}
    (hes : Machine.Guarded tcpStep retransmitOk t es) : (watchedRun t es).Tracked := by
  have hwatched : ∀ (s : Watched) es, Machine.Guarded tcpStep retransmitOk s.tcp es →
      Machine.Guarded watchedStep (fun s e => retransmitOk s.tcp e) s es := by
    intro s es
    induction es generalizing s with
    | nil => exact id
    | cons e es ih => exact fun h => ⟨h.1, ih (watchedStep s e) h.2⟩
  exact Machine.run_induction _ (fun s e hs hok => hs.step hok) (tracked_opened h)
    (hwatched (.start t) es hes)

theorem tcp_watchedRun (t : Tcp) (es : List (TcpEnv × TcpEvent)) :
    (watchedRun t es).tcp = Machine.run tcpStep t es := by
  induction es using List.reverseRecOn with
  | nil => rfl
  | append_singleton es e ih =>
    rw [watchedRun, Machine.run_snoc, Machine.run_snoc, ← ih]
    rfl

/-! ### Acknowledgements of what was sent -/

/-- An acknowledgement that a receiver of the segments sent so far can send: it ends at most where
the furthest of them ends.  The one of our SYN comes with the SYN of the remote side. -/
structure Watched.Receipt (s : Watched) (seg : Inbound) (pos : ℤ) : Prop where
  ack : seg.flags.ack = true
  rst : seg.flags.rst = false
  syn : s.tcp.conn.state = .synSent → seg.flags.syn = true
  number : seg.ack = s.tcp.conn.iss + BitVec.ofInt 32 pos
  sent : pos ≤ s.wire.sent

/-- `snd_nxt` covers what was sent; an acknowledgement of it that is new is not beyond `snd_nxt`,
and moves `snd_una` unless the connection is in `LAST_ACK` or gone. -/
structure Watched.Covers (s : Watched) : Prop where
  covered : s.wire.sent ≤ s.wire.nxt
  accepted : ∀ (env : TcpEnv) seg pos, s.Receipt seg pos → s.una < pos →
    seqLe seg.ack s.tcp.conn.sndNxt = true ∧ (s.tcp.conn.beingFreed = false →
      s.tcp.conn.state ≠ .lastAck → (tcpstackInput env seg s.tcp).conn.sndUna = seg.ack)

theorem Watched.Tracked.advances (h : s.Tracked) {seg : Inbound} {pos : ℤ}
    (hr : s.Receipt seg pos) (hpos : s.una < pos) :
    seqGt seg.ack s.tcp.conn.sndUna = true ∧ seqLe seg.ack s.tcp.conn.sndNxt = true ∧
      (s.tcp.inFlight = 1 → seg.ack = s.tcp.conn.sndNxt) := by
  have hbound := h.paced.bound
  have hlimit := paceLimit_lt
  have hcov := h.covered
  have hsent := hr.sent
  have huna : s.una = s.wire.nxt - s.tcp.inFlight := rfl
  obtain ⟨j, hj⟩ := Int.eq_ofNat_of_zero_le (by omega : 0 ≤ pos - s.una)
  have hack : seg.ack = s.tcp.conn.sndUna + BitVec.ofNat 32 j := by
    rw [hr.number, h.sndUna, Serial.add_ofInt_ofNat]
    congr 2
    omega
  refine ⟨?_, ?_, fun hone => ?_⟩
  · have hiff : seqGt (s.tcp.conn.sndUna + BitVec.ofNat 32 j)
        (s.tcp.conn.sndUna + BitVec.ofNat 32 0) = true ↔ 0 < j := seqGt_iff (by omega) (by omega)
    rw [BitVec.add_zero] at hiff
    rw [hack]
    exact hiff.2 (by omega)
  · rw [hack, sndNxt_eq]
    exact (seqLe_iff (by omega) (by omega)).2 (by omega)
  · rw [hack, sndNxt_eq, hone]
    congr 2
    omega

theorem sndUna_path {B : ℕ} (h : Paced B t) (hB : wgTcpSendbufSize + 1 ≤ B) (hlimit : B ≤ paceLimit)
    (hp : Path env t t') : t'.conn.sndUna = t.conn.sndUna := by
  rw [(paces_path h hB hlimit hp).2.sndUna]
  exact BitVec.add_zero _

/-- Once an acknowledgement is taken, `snd_una` stays there for the rest of the event. -/
theorem sndUna_ackedThen {seg : Inbound} (h : Paced paceLimit t) (ha : AckedThen env seg t t') :
    Paced paceLimit t' ∧ t'.conn.sndUna = seg.ack := by
  have hB : wgTcpSendbufSize + 1 ≤ paceLimit := by decide
  obtain ⟨t₁, hack, hp⟩ := ha
  obtain ⟨k, -, hpaced, -, huna⟩ := acked_spec h hB le_rfl hack
  refine ⟨(paces_path hpaced hB le_rfl hp).1, ?_⟩
  rw [sndUna_path hpaced hB le_rfl hp, huna]

theorem sndUna_inputEstablished {seg : Inbound} (h : Paced paceLimit t)
    (hst : t.conn.state = .established) (hadv : seg.advances t.conn = true) :
    (inputEstablished env seg t).conn.sndUna = seg.ack := by
  have hB : wgTcpSendbufSize + 1 ≤ wgTcpSendbufSize + 1 := le_rfl
  obtain ⟨t₁, hack, hp⟩ := (acked_establishedAck env seg hst hadv).trans
    (path_establishedData env seg _)
  obtain ⟨k, -, hpaced₁, -, huna⟩ := acked_spec (h.tighten hst) hB (by decide) hack
  have hpaced₂ := (paces_path hpaced₁ hB (by decide) hp).1
  have huna₂ := (sndUna_path hpaced₁ hB (by decide) hp).trans huna
  unfold inputEstablished establishedFin
  split_ifs
  · have hclose := path_notifyClose env
      (takeFin env (establishedData env seg (establishedAck env seg t)))
    have huna₃ := sndUna_path (takeFin_spec env hpaced₂).1 (Nat.le_add_right _ 1) (by decide) hclose
    exact huna₃.trans huna₂
  · exact huna₂

/-- In a tracked state the acknowledgements of what was sent are accepted. -/
theorem Watched.Tracked.covers (h : s.Tracked) : s.Covers := by
  refine ⟨h.covered, fun env seg pos hr hpos => ?_⟩
  obtain ⟨hgt, hle, hone⟩ := h.advances hr hpos
  refine ⟨hle, fun hlive hlast => ?_⟩
  have hadv : seg.advances (updateSndWnd seg s.tcp).conn = true := by
    show (seg.flags.ack && (seqGt seg.ack s.tcp.conn.sndUna && seqLe seg.ack s.tcp.conn.sndNxt)) = _
    rw [hr.ack, hgt, hle]
    rfl
  have hpaced : Paced paceLimit (updateSndWnd seg s.tcp) :=
    h.paced.still ⟨rfl, rfl, rfl, rfl, rfl⟩ (Or.inl rfl) rfl rfl
  have hst : (updateSndWnd seg s.tcp).conn.state = s.tcp.conn.state := rfl
  have hflight : s.tcp.conn.state = .synSent ∨ s.tcp.conn.state = .synReceived →
      s.tcp.inFlight = 1 := by
    intro hopen
    obtain ⟨huna, hnxt⟩ := h.paced.opening hopen
    apply inFlight_of_eq (by decide)
    rw [hnxt, huna]
    rfl
  unfold tcpstackInput
  rw [if_neg (by simp [hlive]), if_neg (by simp [hr.rst])]
  unfold inputState
  cases hstate : s.tcp.conn.state with
  | synSent =>
    rw [hst, hstate]
    have hnxt := hone (hflight (Or.inl hstate))
    have hbeyond : seqGt seg.ack s.tcp.conn.sndNxt = false := by
      rw [hnxt]
      simp [seqGt]
    exact (sndUna_ackedThen hpaced
      (acked_inputSynSent env seg hstate ⟨hr.syn hstate, hr.ack⟩ hgt hbeyond)).2
  | synReceived =>
    rw [hst, hstate]
    have hnxt := hone (hflight (Or.inr hstate))
    exact (sndUna_ackedThen hpaced (acked_inputSynReceived env seg hstate ⟨hr.ack, hnxt⟩)).2
  | established =>
    rw [hst, hstate]
    exact sndUna_inputEstablished hpaced hstate hadv
  | finWait =>
    rw [hst, hstate]
    obtain ⟨hpaced', huna⟩ := sndUna_ackedThen hpaced (acked_finWaitAck env seg hstate hadv)
    exact (sndUna_path hpaced' (by decide) le_rfl (path_inputFinWait env seg hlive hstate)).trans huna
  | lastAck => exact absurd hstate hlast
  | closed =>
    rcases h.lively with hfreed | hne
    · rw [hlive] at hfreed
      cases hfreed
    · exact absurd hstate hne.1
  | closeWait =>
    rcases h.lively with hfreed | hne
    · rw [hlive] at hfreed
      cases hfreed
    · exact absurd hstate hne.2

/-- **`snd_nxt` covers everything transmitted**, in every state of a run, exactly when no
retransmission of the run finds bytes, or a FIN, behind `snd_nxt`. -/
theorem snd_nxt_covers_iff (h : Opened t) (es : List (TcpEnv × TcpEvent)) :
    (∀ es', es' <+: es → (watchedRun t es').Covers) ↔ Machine.Guarded tcpStep retransmitOk t es := by
  constructor
  · intro hall
    induction es using List.reverseRecOn with
    | nil => trivial
    | append_singleton es e ih =>
      have hes := ih fun es' hp => hall es' (hp.trans (List.prefix_append _ _))
      refine Machine.guarded_append _ |>.2 ⟨hes, ?_, trivial⟩
      rw [← tcp_watchedRun]
      by_contra hno
      have hbeyond := (tracked_run h hes).beyond hno
      have hcov := (hall (es ++ [e]) (List.prefix_refl _)).covered
      rw [watchedRun, Machine.run_snoc] at hcov
      exact absurd hcov (not_le.2 hbeyond)
  · rintro hes es' ⟨es'', rfl⟩
    exact (tracked_run h (Machine.guarded_append _ |>.1 hes).1).covers

end Runs

/-- A peer with a window of `wnd` bytes answers the SYN, two bytes are sent and flushed, and the
retransmission timer fires. -/
def windowRun (wnd : BitVec 16) : List (TcpEnv × TcpEvent) :=
  [(exampleEnv, .input { exampleSynAck with window := wnd }), (exampleEnv, .call (.send [97, 98])),
    (exampleEnv, .flush), (exampleEnv, .retransmit)]

theorem snd_nxt_covers_wide :
    (watchedRun (tcpstackConnect exampleEnv 0 exampleHandlers) (windowRun 2)).Covers :=
  (snd_nxt_covers_iff (.connect exampleEnv 0 exampleHandlers) (windowRun 2)).2
    ⟨trivial, trivial, trivial, fun _ _ _ _ => by decide, trivial⟩ _ (List.prefix_refl _)

/-- The window admits one byte, but both are retransmitted; their acknowledgement is ignored. -/
theorem snd_nxt_covers_narrow :
    (watchedRun (tcpstackConnect exampleEnv 0 exampleHandlers) (windowRun 1)).wire.nxt = 2 ∧
    (watchedRun (tcpstackConnect exampleEnv 0 exampleHandlers) (windowRun 1)).wire.sent = 3 ∧
    (tcpstackInput exampleEnv ⟨{ ack := true }, 0xfffffffe, 3, 1, [], []⟩
      (watchedRun (tcpstackConnect exampleEnv 0 exampleHandlers) (windowRun 1)).tcp).conn.sndUna = 1 ∧
    ¬ (watchedRun (tcpstackConnect exampleEnv 0 exampleHandlers) (windowRun 1)).Covers := by
  have hnxt : (watchedRun (tcpstackConnect exampleEnv 0 exampleHandlers) (windowRun 1)).wire.nxt =
      2 := by decide
  have hsent : (watchedRun (tcpstackConnect exampleEnv 0 exampleHandlers) (windowRun 1)).wire.sent =
      3 := by decide
  refine ⟨hnxt, hsent, by decide, fun h => ?_⟩
  have hcov := h.covered
  rw [hnxt, hsent] at hcov
  exact absurd hcov (by decide)

end Wgx
