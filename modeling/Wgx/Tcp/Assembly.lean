import Wgx.Tcp.OutOfOrder
import Wgx.Tcp.Teardown

/-!
# Runs over the out-of-order list

* `Assembles irs len t`: what holds of a connection that reads a stream (`assembles_run`);
* `ooo_bounded`: the list is sorted and disjoint, and its length within its limit;
* `ooo_drained_iff`: when it is drained.
-/

namespace Wgx

open Spans

/-! ### Runs -/

/-- What holds of a connection that reads the first `len` bytes of the stream from `irs` on. -/
structure Assembles (irs : Seq) (len : ℕ) (t : Tcp) : Prop where
  accounted : t.conn.Accounted
  list : ∃ l, t.conn.rcvOoo = l.map (placed irs) ∧ Sorted l ∧ ∀ s ∈ l, s.fin ≤ len
  next : t.conn.state.ending = false → t.conn.state ≠ .synSent →
    ∃ n ≤ len, t.conn.rcvNxt = irs + BitVec.ofNat 32 n
  empty : t.conn.state = .synSent ∨ t.conn.state = .synReceived → t.conn.rcvOoo = []
  live : t.conn.state = .established → t.conn.beingFreed = false

/-- The buffered segments are drained, where the connection is established. -/
def Tcp.Drained (t : Tcp) : Prop := t.conn.state = .established → t.conn.Drained

/-- What a segment that leaves the connection established does with the buffered ones. -/
def DrainsUnlessPassed (seg : Inbound) (t t' : Tcp) : Prop :=
  t'.conn.state = .established →
    (t.Drained → seg.PassesNone t.conn → t'.conn.Drained) ∧
      (¬ seg.PassesNone t.conn → ¬ t'.conn.Drained)

section Runs

variable {env : TcpEnv} {irs : Seq} {len : ℕ} {t t' : Tcp} {seg : Inbound}

theorem Assembles.reads (h : Assembles irs len t) (hopen : t.conn.state.ending = false)
    (hsyn : t.conn.state ≠ .synSent) : ∃ n l, Reads irs len n l t := by
  obtain ⟨l, hlist, hsorted, hfits⟩ := h.list
  obtain ⟨n, hle, hnxt⟩ := h.next hopen hsyn
  exact ⟨n, l, hnxt, hle, hlist, hsorted, hfits⟩

theorem Assembles.unread (h : Assembles irs len t) (hacc : t'.conn.Accounted) (hq : Unread t t')
    (hc : Calm t t' ∨ t'.conn.state.ending = true) : Assembles irs len t' := by
  have hstate : t'.conn.state = t.conn.state ∨ t'.conn.state.ending = true := by
    rcases hc with hc | hend
    · exact hc.state
    · exact Or.inr hend
  refine ⟨hacc, ?_, ?_, ?_, ?_⟩
  · rw [hq.rcvOoo]
    exact h.list
  · intro hopen hsyn
    rcases hstate with hst | hend
    · rw [hq.rcvNxt]
      exact h.next (hst ▸ hopen) (hst ▸ hsyn)
    · rw [hopen] at hend
      cases hend
  · intro hsyn
    rcases hstate with hst | hend
    · rw [hq.rcvOoo]
      exact h.empty (hst ▸ hsyn)
    · rcases hsyn with hsyn | hsyn <;>
      · rw [hsyn] at hend
        cases hend
  · intro hest
    rcases hc with hc | hend
    · rcases hc.state with hst | hend
      · exact (hc.live hest).1.trans (h.live (hst ▸ hest))
      · exact absurd hest (ne_established_of_ending hend)
    · exact absurd hest (ne_established_of_ending hend)

/-- A connection that is over keeps its list. -/
theorem assembles_of_ending (hend : t.conn.state.ending = true) (hacc : t.conn.Accounted)
    (hlist : ∃ l, t.conn.rcvOoo = l.map (placed irs) ∧ Sorted l ∧ ∀ s ∈ l, s.fin ≤ len) :
    Assembles irs len t := by
  refine ⟨hacc, hlist, ?_, ?_, fun hest => absurd hest (ne_established_of_ending hend)⟩
  · intro hopen
    rw [hend] at hopen
    cases hopen
  · rintro (hsyn | hsyn) <;>
    · rw [hsyn] at hend
      cases hend

theorem Reads.assembles {n : ℕ} {l : List (Span Byte)} (h : Reads irs len n l t)
    (hacc : t.conn.Accounted)
    (hstate : t.conn.state = .established ∧ t.conn.beingFreed = false ∨
      t.conn.state.ending = true) : Assembles irs len t := by
  refine ⟨hacc, ⟨l, h.list, h.sorted, h.fits⟩, fun _ _ => ⟨n, h.le, h.rcvNxt⟩, ?_, ?_⟩
  · rintro (hsyn | hsyn) <;>
    · rcases hstate with ⟨hst, -⟩ | hend
      · rw [hsyn] at hst
        cases hst
      · rw [hsyn] at hend
        cases hend
  · intro hest
    rcases hstate with ⟨-, hlive⟩ | hend
    · exact hlive
    · exact absurd hest (ne_established_of_ending hend)

/-- Where an established connection goes that is left alone. -/
theorem Calm.established_or_ending (h : Calm t t') (hst : t.conn.state = .established)
    (hlive : t.conn.beingFreed = false) :
    t'.conn.state = .established ∧ t'.conn.beingFreed = false ∨ t'.conn.state.ending = true := by
  rcases h.state with hst' | hend
  · exact Or.inl ⟨hst'.trans hst, (h.live (hst'.trans hst)).1.trans hlive⟩
  · exact Or.inr hend

theorem drained_of_nil (h : t.conn.rcvOoo = []) : t.conn.Drained := by
  intro held hheld
  rw [h] at hheld
  cases hheld

theorem passesNone_of_nil (h : t.conn.rcvOoo = []) : seg.PassesNone t.conn := by
  intro _ _ _ held hheld
  rw [h] at hheld
  cases hheld

/-- The handshake of a listener's connection ends, perhaps with the first bytes. -/
theorem assembles_inputSynReceived (hlen : len < 2 ^ 31) (h : Assembles irs len t)
    (hst : t.conn.state = .synReceived) (hlive : t.conn.beingFreed = false)
    (hseg : seg.Within irs len) (hacc : (inputSynReceived env seg t).conn.Accounted) :
    Assembles irs len (inputSynReceived env seg t) ∧
      DrainsUnlessPassed seg t (inputSynReceived env seg t) := by
  have hnil := h.empty (Or.inr hst)
  unfold inputSynReceived at hacc ⊢
  by_cases hack : seg.flags.ack = true ∧ seg.ack = t.conn.sndNxt
  · rw [if_pos hack] at hacc ⊢
    simp only at hacc ⊢
    obtain ⟨n, hle, hnxt⟩ := h.next (by rw [hst]; rfl) (by rw [hst]; decide)
    set u : Tcp := t.update fun conn => { conn with
      sndUna := seg.ack, state := .established, retransmitTimer := false, retransmitCount := 0 }
    have hu : Reads irs len n [] u := ⟨hnxt, hle, hnil, sorted_nil, by simp⟩
    split_ifs at hacc ⊢ with hdata
    · obtain ⟨off, hseq, hfit⟩ := hseg.data (List.length_pos_iff.1 hdata.1)
      have heq : irs + BitVec.ofNat 32 off = irs + BitVec.ofNat 32 n := by
        rw [← hseq, hdata.2]
        exact hnxt
      have hoff : off = n := Serial.add_ofNat_inj (by omega) (by omega) heq
      obtain ⟨n', l', hreads, -, hclear, -⟩ :=
        hu.receive hlen (show n + seg.payload.length ≤ len by omega) false
      have hplace := (calm_receiveInOrder env seg.payload false u).established_or_ending rfl hlive
      refine ⟨hreads.assembles hacc hplace, fun hest => ⟨fun _ _ => ?_, fun hpass => ?_⟩⟩
      · rcases hplace with ⟨-, hfreed⟩ | hend
        · exact (hreads.drained_iff hlen).2 (hclear hfreed (by simp))
        · exact absurd hest (ne_established_of_ending hend)
      · exact absurd (passesNone_of_nil hnil) hpass
    · exact ⟨hu.assembles hacc (Or.inl ⟨rfl, hlive⟩), fun _ => ⟨fun _ _ => drained_of_nil hnil,
        fun hpass => absurd (passesNone_of_nil hnil) hpass⟩⟩
  · rw [if_neg hack] at hacc ⊢
    exact ⟨h, fun _ => ⟨fun _ _ => drained_of_nil hnil,
      fun hpass => absurd (passesNone_of_nil hnil) hpass⟩⟩

/-- The handshake of an active connection ends: the stream begins behind the SYN. -/
theorem assembles_inputSynSent (h : Assembles irs len t) (hst : t.conn.state = .synSent)
    (hlive : t.conn.beingFreed = false) (hseg : seg.Within irs len)
    (hacc : (inputSynSent env seg t).conn.Accounted) :
    Assembles irs len (inputSynSent env seg t) ∧
      DrainsUnlessPassed seg t (inputSynSent env seg t) := by
  have hnil := h.empty (Or.inl hst)
  have hsame : Assembles irs len t ∧ DrainsUnlessPassed seg t t :=
    ⟨h, fun _ => ⟨fun _ _ => drained_of_nil hnil,
      fun hpass => absurd (passesNone_of_nil hnil) hpass⟩⟩
  unfold inputSynSent at hacc ⊢
  by_cases hflags : seg.flags.syn = true ∧ seg.flags.ack = true
  · rw [if_pos hflags] at hacc ⊢
    by_cases hbad : (!seqGt seg.ack t.conn.sndUna) = true ∨ seqGt seg.ack t.conn.sndNxt = true
    · rw [if_pos hbad]
      exact hsame
    · rw [if_neg hbad] at hacc ⊢
      simp only at hacc ⊢
      set u : Tcp := (t.update fun conn => parseSynOptions seg.options { conn with
        sndUna := seg.ack
        rcvNxt := seg.seq + 1
        state := .established
        retransmitTimer := false
        retransmitCount := 0 }).update fun conn =>
          { conn with sndWnd := seg.window.toNat * 2 ^ conn.sndWscale } with hu
      have hreads : Reads irs len 0 [] u :=
        ⟨by rw [BitVec.add_zero]; exact (hseg.syn hflags.1).1,
          Nat.zero_le _, hnil, sorted_nil, by simp⟩
      have hafter : ∀ t' : Tcp, Quiet u t' → t'.conn.Accounted →
          Assembles irs len t' ∧ DrainsUnlessPassed seg t t' := by
        intro t' hq hacc
        refine ⟨(hreads.unread hq.toUnread).assembles hacc
          (hq.toCalm.established_or_ending rfl hlive), fun _ => ⟨fun _ _ => ?_, fun hpass => ?_⟩⟩
        · exact drained_of_nil (hq.rcvOoo.trans hnil)
        · exact absurd (passesNone_of_nil hnil) hpass
      split_ifs at hacc ⊢
      · exact hafter _ ((quiet_tcpAckNow env u).trans (quiet_runCallback env rfl _)) hacc
      · exact hafter _ (quiet_tcpAckNow env u) hacc
  · rw [if_neg hflags]
    exact hsame

theorem rcvOoo_establishedFin (env : TcpEnv) (seg : Inbound) (t : Tcp) :
    (establishedFin env seg t).conn.rcvOoo = t.conn.rcvOoo := by
  unfold establishedFin
  split_ifs
  · exact (unread_notifyClose env (takeFin env t)).rcvOoo
  · rfl

theorem assembles_inputEstablished (hlen : len < 2 ^ 31) (h : Assembles irs len t)
    (hst : t.conn.state = .established) (hseg : seg.Within irs len)
    (hacc : (inputEstablished env seg t).conn.Accounted)
    (hacc' : (establishedAck env seg t).conn.Accounted) :
    Assembles irs len (inputEstablished env seg t) ∧
      DrainsUnlessPassed seg t (inputEstablished env seg t) := by
  obtain ⟨n, l, hreads⟩ := h.reads (by rw [hst]; rfl) (by rw [hst]; decide)
  have hq := quiet_establishedAck env seg t
  obtain ⟨n', l', hreads', hdrains, hblocks⟩ :=
    (hreads.unread hq.toUnread).establishedData hlen hacc' hseg
  have hconn : ∀ conn : Conn, conn.rcvOoo = t.conn.rcvOoo → conn.rcvNxt = t.conn.rcvNxt →
      (seg.PassesNone conn ↔ seg.PassesNone t.conn) ∧ (conn.Drained ↔ t.conn.Drained) := by
    intro conn hooo hnxt
    simp only [Inbound.PassesNone, Conn.Drained, hooo, hnxt, and_self]
  obtain ⟨hpasses, hdrained⟩ := hconn _ hq.rcvOoo hq.rcvNxt
  unfold inputEstablished at hacc ⊢
  cases hfin : seg.flags.fin with
  | true =>
    have hend := state_establishedFin env hfin (establishedData env seg (establishedAck env seg t))
    refine ⟨assembles_of_ending (by rw [hend]; rfl) hacc ⟨l', ?_, hreads'.sorted, hreads'.fits⟩,
      fun hest => ?_⟩
    · rw [rcvOoo_establishedFin, hreads'.list]
    · rw [hend] at hest
      cases hest
  | false =>
    rw [establishedFin_of_not env hfin] at hacc ⊢
    have hplace := (hq.toCalm.trans (calm_establishedData env seg _)).established_or_ending hst
      (h.live hst)
    refine ⟨hreads'.assembles hacc hplace, fun hest => ⟨fun hdr hpass => ?_, fun hpass => ?_⟩⟩
    · rcases hplace with ⟨-, hfreed⟩ | hend
      · exact hdrains hfreed (hdrained.2 (hdr hst)) (hpasses.2 hpass)
      · exact absurd hest (ne_established_of_ending hend)
    · exact hblocks fun hpass' => hpass (hpasses.1 hpass')

theorem assembles_inputFinWait (h : Assembles irs len t) (hst : t.conn.state = .finWait)
    (hacc : (inputFinWait env seg t).conn.Accounted) :
    Assembles irs len (inputFinWait env seg t) := by
  have hcalm := calm_inputFinWait env seg t
  have hooo : (inputFinWait env seg t).conn.rcvOoo = t.conn.rcvOoo := by
    have hack := (quiet_finWaitAck seg t).rcvOoo
    unfold inputFinWait
    simp only
    split_ifs
    · rw [sameOoo_connDestroy.1]
      exact hack
    · exact hack
  refine assembles_of_ending (hcalm.ending (by rw [hst]; rfl)) hacc ?_
  rw [hooo]
  exact h.list

/-- **A segment in positions.** -/
theorem assembles_tcpstackInput (hlen : len < 2 ^ 31) (h : Assembles irs len t)
    (hseg : seg.Within irs len) (hacc : (tcpstackInput env seg t).conn.Accounted) :
    Assembles irs len (tcpstackInput env seg t) ∧
      DrainsUnlessPassed seg t (tcpstackInput env seg t) := by
  have hover : ∀ t' : Tcp, Assembles irs len t' → t'.conn.state ≠ .established →
      Assembles irs len t' ∧ DrainsUnlessPassed seg t t' :=
    fun t' ht' hne => ⟨ht', fun hest => absurd hest hne⟩
  unfold tcpstackInput at hacc ⊢
  by_cases hfreed : t.conn.beingFreed = true
  · rw [if_pos hfreed]
    refine hover t h fun hest => ?_
    rw [h.live hest] at hfreed
    cases hfreed
  rw [if_neg hfreed] at hacc ⊢
  rw [Bool.not_eq_true] at hfreed
  split_ifs at hacc ⊢ with hrst
  · have hq := quiet_reset t
    refine hover _ (h.unread hacc hq.toUnread (Or.inl hq.toCalm)) ?_
    simp [connDestroy, hfreed]
  · have hq := quiet_updateSndWnd seg t
    have hu : Assembles irs len (updateSndWnd seg t) :=
      h.unread (h.accounted.of_same ⟨rfl, rfl⟩) hq.toUnread (Or.inl hq.toCalm)
    unfold inputState at hacc ⊢
    -- the window is no part of what is asked
    change (_ : Prop) ∧ DrainsUnlessPassed seg (updateSndWnd seg t) _
    cases hst : (updateSndWnd seg t).conn.state with
    | synReceived =>
      rw [hst] at hacc
      exact assembles_inputSynReceived hlen hu hst hfreed hseg hacc
    | synSent =>
      rw [hst] at hacc
      exact assembles_inputSynSent hu hst hfreed hseg hacc
    | established =>
      rw [hst] at hacc
      exact assembles_inputEstablished hlen hu hst hseg hacc
        (accounted_input (input_establishedAck env seg hst) hu.accounted)
    | finWait =>
      rw [hst] at hacc
      refine hover _ (assembles_inputFinWait hu hst hacc) ?_
      exact ne_established_of_ending ((calm_inputFinWait env seg _).ending (by rw [hst]; rfl))
    | lastAck =>
      rw [hst] at hacc
      have hq' := quiet_inputLastAck seg (updateSndWnd seg t)
      refine hover _ (hu.unread hacc hq'.toUnread (Or.inl hq'.toCalm)) ?_
      exact ne_established_of_ending (hq'.toCalm.ending (by rw [hst]; rfl))
    | closed => exact hover _ hu (by rw [hst]; decide)
    | closeWait => exact hover _ hu (by rw [hst]; decide)

/-- The notification is a flag, and what the owner does when it hears of it. -/
theorem calm_notifyClose (env : TcpEnv) (t : Tcp) :
    ∃ notified, Calm (t.update fun conn => { conn with closeNotified := notified })
      (notifyClose env t) := by
  unfold notifyClose
  simp only
  split_ifs with hdone
  · exact ⟨t.conn.closeNotified, Calm.refl t⟩
  · exact ⟨true, calm_runCallback env .close _⟩
  · exact ⟨true, Calm.refl _⟩

theorem assembles_timerCloseCb (h : Assembles irs len t)
    (hacc : (timerCloseCb env t).conn.Accounted) : Assembles irs len (timerCloseCb env t) := by
  set u : Tcp := t.update fun conn => { conn with closePending := conn.closePending - 1 } with hu
  have hcount : Assembles irs len u := { h with accounted := h.accounted.of_same ⟨rfl, rfl⟩ }
  unfold timerCloseCb at hacc ⊢
  simp only [← hu] at hacc ⊢
  split_ifs at hacc ⊢ with hmore
  · exact hcount
  · obtain ⟨notified, hcalm⟩ := calm_notifyClose env u
    have hnotified : Assembles irs len
        (u.update fun conn => { conn with closeNotified := notified }) :=
      { hcount with accounted := hcount.accounted.of_same ⟨rfl, rfl⟩ }
    have hq : Unread (u.update fun conn => { conn with closeNotified := notified })
        (notifyClose env u) :=
      ⟨(unread_notifyClose env u).onData, (unread_notifyClose env u).rcvNxt,
        (unread_notifyClose env u).rcvOoo, (unread_notifyClose env u).delivered⟩
    have hafter := hnotified.unread (accounted_path (path_notifyClose env u) hcount.accounted) hq
      (Or.inl hcalm)
    exact ⟨hacc, ⟨[], rfl, sorted_nil, by simp⟩, hafter.next, fun _ => rfl, hafter.live⟩

/-- The segments of an event are those of the stream. -/
def TcpEvent.Within (irs : Seq) (n : ℕ) : TcpEvent → Prop
  | .input seg => seg.Within irs n
  | _ => True

theorem assembles_tcpStep (hlen : len < 2 ^ 31) (h : Assembles irs len t)
    {e : TcpEnv × TcpEvent} (he : e.2.Within irs len) : Assembles irs len (tcpStep t e) := by
  have hacc := accounted_tcpStep h.accounted e
  obtain ⟨env, e⟩ := e
  refine tcpStep_cases (P := fun t' => t'.conn.Accounted → Assembles irs len t') (fun _ => h)
    (fun a _ hacc => h.unread hacc (quiet_apiCall env t a).toUnread
      (Or.inl (quiet_apiCall env t a).toCalm)) ?_
    (fun hacc => h.unread hacc (quiet_flushCheckCb env t).toUnread
      (Or.inl (quiet_flushCheckCb env t).toCalm))
    (fun _ hacc => h.unread hacc (retransmitCb_spec env t).1 (retransmitCb_spec env t).2)
    (fun hacc => h.unread hacc (quiet_delayedAckCb env t).toUnread
      (Or.inl (quiet_delayedAckCb env t).toCalm))
    (fun _ hacc => assembles_timerCloseCb h hacc) hacc
  rintro seg rfl hacc
  exact (assembles_tcpstackInput hlen h he hacc).1

/-- How a connection that will read the stream from `irs` on begins. -/
theorem assembles_opened (h : Opened t)
    (hirs : t.conn.state = .synReceived → t.conn.rcvNxt = irs) : Assembles irs len t := by
  have hacc := accounted_opened h
  cases h with
  | connect env iss handlers =>
    exact ⟨hacc, ⟨[], rfl, sorted_nil, by simp⟩, fun _ hne => absurd rfl hne, fun _ => rfl,
      fun hest => by cases hest⟩
  | accept env iss handlers seg hsyn hack =>
    have hq : Quiet _ (tcpstackAccept env iss handlers seg) := quiet_runCallback env rfl _
    have hooo : (tcpstackAccept env iss handlers seg).conn.rcvOoo = [] := hq.rcvOoo
    have hne : (tcpstackAccept env iss handlers seg).conn.state ≠ .established := by
      intro hest
      rcases hq.state with hst | hend
      · rw [hest] at hst
        cases hst
      · exact absurd hest (ne_established_of_ending hend)
    refine ⟨hacc, ⟨[], hooo, sorted_nil, by simp⟩, fun hopen hsyn => ?_, fun _ => hooo,
      fun hest => absurd hest hne⟩
    refine ⟨0, Nat.zero_le _, ?_⟩
    rw [BitVec.add_zero]
    refine hirs ?_
    rcases hq.state with hst | hend
    · exact hst
    · rw [hopen] at hend
      cases hend

end Runs

theorem assembles_run {irs : Seq} {len : ℕ} {t : Tcp} (hlen : len < 2 ^ 31) (h : Opened t)
    (hirs : t.conn.state = .synReceived → t.conn.rcvNxt = irs) {es : List (TcpEnv × TcpEvent)}
    (hes : ∀ e ∈ es, e.2.Within irs len) : Assembles irs len (Machine.run tcpStep t es) := by
  have hstep : ∀ (s : Tcp) (e : TcpEnv × TcpEvent), Assembles irs len s → e.2.Within irs len →
      Assembles irs len (tcpStep s e) := fun s e hs he => assembles_tcpStep hlen hs he
  exact Machine.run_induction tcpStep hstep (assembles_opened h hirs)
    (Machine.guarded_of_forall tcpStep hes t)

/-! ### Subtractions -/

/-- A subtraction of sequence numbers, or of lengths. -/
inductive Subtraction
  | seq (a b : Seq)
  | len (a b : ℕ)

/-- The subtraction does not go below zero. -/
def Subtraction.Ok : Subtraction → Prop
  | .seq a b => seqLe b a = true
  | .len a b => b ≤ a

/-- The subtractions of `oooTrimNew`. -/
def oooTrimNewSubs (start : Seq) (data : List Byte) : List OooSeg → List Subtraction
  | [] => []
  | cur :: _ =>
    if seqLe cur.seq start ∧ seqGt cur.fin start then
      let trim := cur.fin - start
      .seq cur.fin start :: if trim.toNat ≥ data.length then [] else [.len data.length trim.toNat]
    else []

/-- The subtractions of `oooTrimOld`, with `total` in `rcv_ooo_len`. -/
def oooTrimOldSubs (fin : Seq) (total : BitVec 32) : List OooSeg → List Subtraction
  | [] => []
  | cur :: rest =>
    if seqLt cur.seq fin then
      if seqLe cur.fin fin then
        .len total.toNat cur.len.toNat :: oooTrimOldSubs fin (total - cur.len) rest
      else
        let trim := fin - cur.seq
        [.seq fin cur.seq, .len cur.len.toNat trim.toNat, .len total.toNat trim.toNat]
    else []

/-- The subtractions of `oooInsert`. -/
def oooInsertSubs (start : Seq) (data : List Byte) (conn : Conn) : List Subtraction :=
  let behind := conn.rcvOoo.dropWhile fun cur => seqLe cur.fin start
  oooTrimNewSubs start data behind ++
    match oooTrimNew start data behind with
    | none => []
    | some (start, data) =>
      oooTrimOldSubs (start + BitVec.ofNat 32 data.length) conn.rcvOooLen behind

/-- The subtractions of `tcp_ooo_queue`. -/
def tcpOooQueueSubs (seq : Seq) (data : List Byte) (conn : Conn) : List Subtraction :=
  if data.length = 0 then []
  else if seqLe (seq + BitVec.ofNat 32 data.length) conn.rcvNxt then []
  else if seqLt seq conn.rcvNxt then
    let trim := conn.rcvNxt - seq
    .seq conn.rcvNxt seq :: .len data.length trim.toNat ::
      oooInsertSubs (seq + trim) (data.drop trim.toNat) conn
  else oooInsertSubs seq data conn

section Subtractions

variable (env : TcpEnv)

/-- The subtractions of `tcp_ooo_drain`. -/
def tcpOooDrainSubs : ℕ → Tcp → List Subtraction
  | 0, _ => []
  | fuel + 1, t =>
    if t.conn.beingFreed then []
    else
      match t.conn.rcvOoo with
      | [] => []
      | seg :: rest =>
        if seg.seq ≠ t.conn.rcvNxt then []
        else
          let u := t.update fun conn =>
            { conn with rcvOoo := rest, rcvOooLen := conn.rcvOooLen - seg.len }
          .len t.conn.rcvOooLen.toNat seg.len.toNat :: tcpOooDrainSubs fuel (deliver env seg.data u)

/-- The subtractions that follow in-order bytes. -/
def receiveSubs (data : List Byte) (t : Tcp) : List Subtraction :=
  let t := deliver env data t
  tcpOooDrainSubs env t.conn.rcvOoo.length t

/-- The subtractions that follow the data of a segment in `ESTABLISHED`. -/
def establishedDataSubs (seg : Inbound) (t : Tcp) : List Subtraction :=
  if seg.payload.length = 0 then []
  else if seg.seq = t.conn.rcvNxt then receiveSubs env seg.payload t
  else if seqGt seg.seq t.conn.rcvNxt then tcpOooQueueSubs seg.seq seg.payload t.conn
  else
    let already := (t.conn.rcvNxt - seg.seq).toNat
    if seqLt seg.seq t.conn.rcvNxt ∧ already < seg.payload.length then
      receiveSubs env (seg.payload.drop already) t
    else []

/-- The subtractions that `tcp_ooo_queue` and `tcp_ooo_drain` make in a call of `tcpstack_input`. -/
def tcpstackInputSubs (seg : Inbound) (t : Tcp) : List Subtraction :=
  if t.conn.beingFreed ∨ seg.flags.rst then []
  else
    match t.conn.state with
    | .synReceived =>
      if (seg.flags.ack ∧ seg.ack = t.conn.sndNxt) ∧
          0 < seg.payload.length ∧ seg.seq = t.conn.rcvNxt then
        receiveSubs env seg.payload ((updateSndWnd seg t).update fun conn => { conn with
          sndUna := seg.ack, state := .established, retransmitTimer := false, retransmitCount := 0 })
      else []
    | .established => establishedDataSubs env seg (establishedAck env seg (updateSndWnd seg t))
    | _ => []

end Subtractions

/-! ### No subtraction goes below zero -/

theorem seqLe_of_seqGt {a b : Seq} (h : seqGt a b = true) : seqLe b a = true := by
  simp only [seqGt, seqLe, decide_eq_true_eq, BitVec.toInt_eq_toNat_cond] at h ⊢
  bv_omega

theorem seqLe_of_seqLt {a b : Seq} (h : seqLt a b = true) : seqLe a b = true := by
  simp only [seqLt, seqLe, decide_eq_true_eq] at h ⊢
  omega

section Subtractions

variable {env : TcpEnv} {sub : Subtraction} {segs : List OooSeg} {conn : Conn}

theorem ok_oooTrimNewSubs {start : Seq} {data : List Byte}
    (h : sub ∈ oooTrimNewSubs start data segs) : sub.Ok := by
  cases segs with
  | nil => cases h
  | cons cur rest =>
    simp only [oooTrimNewSubs] at h
    split_ifs at h with hcover hall
    · cases List.mem_singleton.1 h
      exact seqLe_of_seqGt hcover.2
    · rcases List.mem_cons.1 h with rfl | h
      · exact seqLe_of_seqGt hcover.2
      · cases List.mem_singleton.1 h
        exact (not_le.1 hall).le
    · cases h

/-- The lengths that are taken off add up to the length of the list at most. -/
theorem ok_oooTrimOldSubs {fin : Seq} {total : BitVec 32} (htotal : oooTotal segs ≤ total.toNat)
    (h : sub ∈ oooTrimOldSubs fin total segs) : sub.Ok := by
  induction segs generalizing total with
  | nil => cases h
  | cons cur rest ih =>
    rw [oooTotal_cons] at htotal
    have hbound := total.isLt
    have hsmall : cur.data.length < 2 ^ 32 := by omega
    have hlen : cur.len.toNat = cur.data.length := by
      rw [OooSeg.len, BitVec.toNat_ofNat, Nat.mod_eq_of_lt hsmall]
    simp only [oooTrimOldSubs] at h
    split_ifs at h with hlt hle
    · rcases List.mem_cons.1 h with rfl | h
      · show cur.len.toNat ≤ total.toNat
        omega
      · refine ih ?_ h
        rw [BitVec.toNat_sub_of_le (by rw [BitVec.le_def]; omega)]
        omega
    · have htrim := trim_le hsmall hlt hle
      simp only [List.mem_cons, List.not_mem_nil, or_false] at h
      rcases h with rfl | rfl | rfl
      · exact seqLe_of_seqLt hlt
      · show (fin - cur.seq).toNat ≤ cur.len.toNat
        omega
      · show (fin - cur.seq).toNat ≤ total.toNat
        omega
    · cases h

theorem ok_oooInsertSubs (hacc : conn.Accounted) {start : Seq} {data : List Byte}
    (h : sub ∈ oooInsertSubs start data conn) : sub.Ok := by
  unfold oooInsertSubs at h
  rcases List.mem_append.1 h with h | h
  · exact ok_oooTrimNewSubs h
  · split at h
    · cases h
    · refine ok_oooTrimOldSubs ?_ h
      rw [hacc.len_eq, oooTotal_split conn.rcvOoo fun cur => seqLe cur.fin start]
      exact Nat.le_add_left _ _

theorem ok_tcpOooQueueSubs (hacc : conn.Accounted) {seq : Seq} {data : List Byte}
    (hdata : data.length < 2 ^ 32) (h : sub ∈ tcpOooQueueSubs seq data conn) : sub.Ok := by
  unfold tcpOooQueueSubs at h
  split_ifs at h with hnil hold hlt
  · cases h
  · cases h
  · rcases List.mem_cons.1 h with rfl | h
    · exact seqLe_of_seqLt hlt
    · rcases List.mem_cons.1 h with rfl | h
      · exact @trim_le ⟨seq, data⟩ conn.rcvNxt hdata hlt hold
      · exact ok_oooInsertSubs hacc h
  · exact ok_oooInsertSubs hacc h

theorem accounted_deliver {t : Tcp} (h : t.conn.Accounted) (data : List Byte) :
    (deliver env data t).conn.Accounted :=
  accounted_path (Course.path (course_deliver env data t)) h

theorem ok_tcpOooDrainSubs (fuel : ℕ) {t : Tcp} (hacc : t.conn.Accounted)
    (h : sub ∈ tcpOooDrainSubs env fuel t) : sub.Ok := by
  induction fuel generalizing t with
  | zero => cases h
  | succ fuel ih =>
    unfold tcpOooDrainSubs at h
    by_cases hfreed : t.conn.beingFreed = true
    · rw [if_pos hfreed] at h
      cases h
    rw [if_neg hfreed] at h
    cases hooo : t.conn.rcvOoo with
    | nil =>
      rw [hooo] at h
      cases h
    | cons seg rest =>
      simp only [hooo] at h
      split_ifs at h with hseq
      · cases h
      · have hpop : Move env t _ := Move.popOoo seg rest hooo (not_not.1 hseq)
        rcases List.mem_cons.1 h with rfl | h
        · show seg.len.toNat ≤ t.conn.rcvOooLen.toNat
          have hmem : seg ∈ t.conn.rcvOoo := hooo ▸ List.mem_cons_self
          have hle := length_le_oooTotal hmem
          rw [hacc.len_eq, OooSeg.len, BitVec.toNat_ofNat]
          exact (Nat.mod_le _ _).trans hle
        · exact ih (accounted_deliver (accounted_move hpop hacc) seg.data) h

theorem ok_receiveSubs {t : Tcp} (hacc : t.conn.Accounted) {data : List Byte}
    (h : sub ∈ receiveSubs env data t) : sub.Ok :=
  ok_tcpOooDrainSubs _ (accounted_deliver hacc data) h

/-- **No subtraction of the two functions goes below zero**, whatever segment arrives. -/
theorem ok_tcpstackInputSubs {t : Tcp} (hacc : t.conn.Accounted) {seg : Inbound}
    (hseg : seg.payload.length < 2 ^ 32) (h : sub ∈ tcpstackInputSubs env seg t) : sub.Ok := by
  unfold tcpstackInputSubs at h
  by_cases hout : t.conn.beingFreed = true ∨ seg.flags.rst = true
  · rw [if_pos hout] at h
    cases h
  · rw [if_neg hout] at h
    cases hst : t.conn.state with
    | synReceived =>
      rw [hst] at h
      simp only at h
      split_ifs at h
      · refine ok_receiveSubs ?_ h
        exact hacc.of_same ⟨rfl, rfl⟩
      · cases h
    | established =>
      rw [hst] at h
      have hacc' : (establishedAck env seg (updateSndWnd seg t)).conn.Accounted :=
        accounted_input (input_establishedAck env seg hst) (hacc.of_same ⟨rfl, rfl⟩)
      simp only [establishedDataSubs] at h
      split_ifs at h
      · cases h
      · exact ok_receiveSubs hacc' h
      · exact ok_tcpOooQueueSubs hacc' hseg h
      · exact ok_receiveSubs hacc' h
      · cases h
    | _ =>
      rw [hst] at h
      cases h

end Subtractions

/-- **The out-of-order list is well formed and bounded.**  In every run of a connection on segments
of one stream of fewer than 2³¹ bytes, the buffered segments are spans of the stream, none of them
empty, each ending before the next one begins; `rcv_ooo_len` is the sum of their lengths and within
`WG_TCP_RECV_OOO_SIZE`; and in every further call of `tcpstack_input` no subtraction of
`tcp_ooo_queue` or `tcp_ooo_drain` goes below zero. -/
theorem ooo_bounded {irs : Seq} {len : ℕ} {t : Tcp} (hlen : len < 2 ^ 31) (h : Opened t)
    (hirs : t.conn.state = .synReceived → t.conn.rcvNxt = irs) (es : List (TcpEnv × TcpEvent))
    (hes : ∀ e ∈ es, e.2.Within irs len) :
    (∃ l, (Machine.run tcpStep t es).conn.rcvOoo = l.map (placed irs) ∧ Sorted l ∧
        ∀ s ∈ l, s.fin ≤ len) ∧
      (Machine.run tcpStep t es).conn.Accounted ∧
      ∀ env seg, seg.Within irs len →
        ∀ sub ∈ tcpstackInputSubs env seg (Machine.run tcpStep t es), sub.Ok := by
  have hrun := assembles_run hlen h hirs hes
  refine ⟨hrun.list, hrun.accounted, fun env seg hseg sub hsub => ?_⟩
  refine ok_tcpstackInputSubs hrun.accounted ?_ hsub
  by_cases hnil : seg.payload = []
  · rw [hnil]
    decide
  · obtain ⟨off, -, hfit⟩ := hseg.data hnil
    omega

/-! ### The remote peer of an instance -/

theorem opened_exampleConnect : Opened (tcpstackConnect exampleEnv 0 exampleHandlers) :=
  .connect exampleEnv 0 exampleHandlers

theorem within_exampleSynAck : exampleSynAck.Within 0xfffffffe 4 :=
  ⟨fun h => absurd rfl h, fun _ => ⟨by decide, rfl⟩⟩

theorem within_wrapSegment (off len : ℕ) (hfit : off ≤ 4) :
    (wrapSegment off len false).Within 0xfffffffe 4 := by
  refine ⟨fun _ => ⟨off, rfl, ?_⟩, fun h => by cases h⟩
  have hlen : wrapStream.length = 4 := rfl
  simp only [wrapSegment, List.length_take, List.length_drop]
  omega

/-- The handshake, and the second half of the stream. -/
def aheadRun : List (TcpEnv × TcpEvent) :=
  [(exampleEnv, .input exampleSynAck), (exampleEnv, .input (wrapSegment 2 2 false))]

/-- The first three bytes follow: they reach into the buffered ones. -/
def overlapRun : List (TcpEnv × TcpEvent) :=
  aheadRun ++ [(exampleEnv, .input (wrapSegment 0 3 false))]

theorem within_overlapRun : ∀ e ∈ overlapRun, e.2.Within 0xfffffffe 4 := by
  simp only [overlapRun, aheadRun, List.cons_append, List.nil_append, List.forall_mem_cons,
    List.not_mem_nil, false_imp_iff, implies_true, and_true]
  exact ⟨within_exampleSynAck, within_wrapSegment 2 2 (by decide),
    within_wrapSegment 0 3 (by decide)⟩

theorem ooo_bounded_overlap :
    (∃ l, (Machine.run tcpStep (tcpstackConnect exampleEnv 0 exampleHandlers)
          overlapRun).conn.rcvOoo = l.map (placed 0xfffffffe) ∧ Sorted l ∧ ∀ s ∈ l, s.fin ≤ 4) ∧
      (Machine.run tcpStep (tcpstackConnect exampleEnv 0 exampleHandlers)
        overlapRun).conn.Accounted ∧
      ∀ env seg, seg.Within 0xfffffffe 4 → ∀ sub ∈ tcpstackInputSubs env seg
        (Machine.run tcpStep (tcpstackConnect exampleEnv 0 exampleHandlers) overlapRun), sub.Ok :=
  ooo_bounded (by decide) opened_exampleConnect (by decide) overlapRun within_overlapRun

/-! ### Draining -/

section Draining

variable {irs : Seq} {len : ℕ} {t t' : Tcp}

/-- Where nothing was received, what was drained is drained. -/
theorem drained_unread (h : t.Drained) (hq : Unread t t')
    (hc : Calm t t' ∨ t'.conn.state.ending = true) : t'.Drained := by
  intro hest
  have hst : t.conn.state = .established := by
    rcases hc with hc | hend
    · rcases hc.state with hst | hend
      · exact hst ▸ hest
      · exact absurd hest (ne_established_of_ending hend)
    · exact absurd hest (ne_established_of_ending hend)
  unfold Conn.Drained
  rw [hq.rcvOoo, hq.rcvNxt]
  exact h hst

/-- Only a segment can leave the list undrained. -/
theorem drained_tcpStep {env : TcpEnv} {e : TcpEvent} (hin : ∀ seg, e ≠ .input seg)
    (h : t.Drained) : (tcpStep t (env, e)).Drained := by
  refine tcpStep_cases h
    (fun a _ => drained_unread h (quiet_apiCall env t a).toUnread
      (Or.inl (quiet_apiCall env t a).toCalm))
    (fun seg heq => absurd heq (hin seg))
    (drained_unread h (quiet_flushCheckCb env t).toUnread
      (Or.inl (quiet_flushCheckCb env t).toCalm))
    (fun _ => drained_unread h (retransmitCb_spec env t).1 (retransmitCb_spec env t).2)
    (drained_unread h (quiet_delayedAckCb env t).toUnread
      (Or.inl (quiet_delayedAckCb env t).toCalm)) (fun _ => ?_)
  -- the memory goes with the last timer, and the list with it
  unfold timerCloseCb
  simp only
  split_ifs
  · exact h
  · exact fun _ => drained_of_nil rfl

/-- A segment: `DrainsUnlessPassed`, also where it is not looked at. -/
theorem drains_tcpStep (hlen : len < 2 ^ 31) (h : Assembles irs len t) {env : TcpEnv}
    {seg : Inbound} (hseg : seg.Within irs len) (hrel : t.conn.released = false) :
    DrainsUnlessPassed seg t (tcpStep t (env, .input seg)) := by
  have hstep : tcpStep t (env, .input seg) = tcpstackInput env seg t := by
    rw [tcpStep, ownedStep, if_neg (by rw [hrel]; decide)]
  have hacc := accounted_tcpStep h.accounted (env, .input seg)
  rw [hstep] at hacc ⊢
  exact (assembles_tcpstackInput hlen h hseg hacc).2

end Draining

/-- An established connection still has its memory. -/
theorem released_of_established {irs : Seq} {len : ℕ} {t : Tcp} (h : Assembles irs len t)
    (hacc : Accountable t) (hst : t.conn.state = .established) : t.conn.released = false :=
  (hacc.live (h.live hst)).2

theorem drains_established {irs : Seq} {len : ℕ} {t : Tcp} (hlen : len < 2 ^ 31)
    (h : Assembles irs len t) (hacc : Accountable t) {env : TcpEnv} {seg : Inbound}
    (hseg : seg.Within irs len) : DrainsUnlessPassed seg t (tcpStep t (env, .input seg)) := by
  intro hest
  by_cases hrel : t.conn.released = true
  · -- nothing reaches a connection whose memory is gone
    rw [tcpStep_released hrel] at hest
    rw [released_of_established h hacc hest] at hrel
    cases hrel
  · exact drains_tcpStep hlen h hseg (Bool.eq_false_iff.2 hrel) hest

theorem accountable_run {t : Tcp} (h : Opened t) (es : List (TcpEnv × TcpEvent)) :
    Accountable (Machine.run tcpStep t es) :=
  @Machine.run_induction' _ _ tcpStep Accountable (fun _ e h => accountable_tcpStep h e) _
    (accountable_opened h) es

/-- A connection that was just made holds nothing. -/
theorem drained_opened {t : Tcp} (h : Opened t) : t.Drained := by
  cases h with
  | connect env iss handlers => exact fun _ => drained_of_nil rfl
  | accept env iss handlers seg hsyn hack =>
    have hq : Quiet _ (tcpstackAccept env iss handlers seg) := quiet_runCallback env rfl _
    exact fun _ => drained_of_nil hq.rcvOoo

/-- The segment, if the event is one and the connection is established behind it, passes none of
the buffered ones. -/
def PassesNoneStep (t : Tcp) (e : TcpEnv × TcpEvent) : Prop :=
  ∀ seg, e.2 = .input seg → (tcpStep t e).conn.state = .established → seg.PassesNone t.conn

theorem drained_step {irs : Seq} {len : ℕ} {t : Tcp} (hlen : len < 2 ^ 31)
    (h : Assembles irs len t) (hacc : Accountable t) (hdr : t.Drained) {e : TcpEnv × TcpEvent}
    (he : e.2.Within irs len) (hpass : PassesNoneStep t e) : (tcpStep t e).Drained := by
  obtain ⟨env, e⟩ := e
  by_cases hin : ∃ seg, e = .input seg
  · obtain ⟨seg, rfl⟩ := hin
    exact fun hest => (drains_established hlen h hacc he hest).1 hdr (hpass seg rfl hest)
  · exact drained_tcpStep (fun seg heq => hin ⟨seg, heq⟩) hdr

/-- **The out-of-order list is drained by every segment that leaves the connection established
exactly if none of these segments, when it brings the next bytes, reaches past the start of a
buffered one.** -/
theorem ooo_drained_iff {irs : Seq} {len : ℕ} {t : Tcp} (hlen : len < 2 ^ 31) (h : Opened t)
    (hirs : t.conn.state = .synReceived → t.conn.rcvNxt = irs) (es : List (TcpEnv × TcpEvent))
    (hes : ∀ e ∈ es, e.2.Within irs len) :
    (∀ pre env seg post, es = pre ++ (env, .input seg) :: post →
      (tcpStep (Machine.run tcpStep t pre) (env, .input seg)).conn.state = .established →
      (tcpStep (Machine.run tcpStep t pre) (env, .input seg)).conn.Drained) ↔
    ∀ pre env seg post, es = pre ++ (env, .input seg) :: post →
      (tcpStep (Machine.run tcpStep t pre) (env, .input seg)).conn.state = .established →
      seg.PassesNone (Machine.run tcpStep t pre).conn := by
  have hreads : ∀ pre e post, es = pre ++ e :: post →
      Assembles irs len (Machine.run tcpStep t pre) ∧ Accountable (Machine.run tcpStep t pre) ∧
        e.2.Within irs len := by
    rintro pre e post rfl
    rw [List.forall_mem_append, List.forall_mem_cons] at hes
    exact ⟨assembles_run hlen h hirs hes.1, accountable_run h pre, hes.2.1⟩
  constructor
  · intro hdrained pre env seg post hsplit hest
    obtain ⟨hpre, hacc, hseg⟩ := hreads pre _ post hsplit
    by_contra hpass
    exact (drains_established hlen hpre hacc hseg hest).2 hpass
      (hdrained pre env seg post hsplit hest)
  · intro hpasses pre env seg post hsplit hest
    have hguard : Machine.Guarded tcpStep (fun s e => e.2.Within irs len ∧ PassesNoneStep s e) t
        es := by
      rw [Machine.guarded_iff_forall_split]
      intro pre e post hsplit
      refine ⟨(hreads pre e post hsplit).2.2, fun seg hseg hest => ?_⟩
      obtain ⟨env, e⟩ := e
      subst hseg
      exact hpasses pre env seg post hsplit hest
    rw [hsplit, Machine.guarded_append] at hguard
    -- what was drained stays drained up to the segment, and with it
    have hrun := @Machine.run_induction _ _ tcpStep
      (fun s e => e.2.Within irs len ∧ PassesNoneStep s e)
      (fun s => Assembles irs len s ∧ Accountable s ∧ s.Drained)
      (fun s e hs he => ⟨assembles_tcpStep hlen hs.1 he.1, accountable_tcpStep hs.2.1 e,
        drained_step hlen hs.1 hs.2.1 hs.2.2 he.1 he.2⟩) t
      ⟨assembles_opened h hirs, accountable_opened h, drained_opened h⟩ pre hguard.1
    exact drained_step hlen hrun.1 hrun.2.1 hrun.2.2 hguard.2.1.1 hguard.2.1.2 hest

/-- In the run up to the second half of the stream, nothing is passed. -/
theorem ooo_drained_iff_ahead : (∀ e ∈ aheadRun, e.2.Within 0xfffffffe 4) ∧
    ∀ pre env seg post, aheadRun = pre ++ (env, .input seg) :: post →
    (tcpStep (Machine.run tcpStep (tcpstackConnect exampleEnv 0 exampleHandlers) pre)
      (env, .input seg)).conn.state = .established →
    (tcpStep (Machine.run tcpStep (tcpstackConnect exampleEnv 0 exampleHandlers) pre)
      (env, .input seg)).conn.Drained := by
  have hwithin : ∀ e ∈ aheadRun, e.2.Within 0xfffffffe 4 := fun e he =>
    within_overlapRun e (List.mem_append_left _ he)
  refine ⟨hwithin,
    (ooo_drained_iff (by decide) opened_exampleConnect (by decide) aheadRun hwithin).2 ?_⟩
  intro pre env seg post hsplit _
  refine passesNone_of_nil ?_
  match pre, hsplit with
  | [], _ => rfl
  | [e], hsplit =>
    obtain ⟨rfl, -⟩ := List.cons.inj hsplit
    decide +kernel
  | e :: e' :: pre, hsplit =>
    have := congrArg List.length hsplit
    simp [aheadRun] at this

/-- The bytes behind the third are held, and not delivered with the third. -/
theorem ooo_not_drained : ¬ ∀ (irs : Seq) (len : ℕ) (t : Tcp) (es : List (TcpEnv × TcpEvent)),
    len < 2 ^ 31 → Opened t → (t.conn.state = .synReceived → t.conn.rcvNxt = irs) →
    (∀ e ∈ es, e.2.Within irs len) → ∀ pre env seg post, es = pre ++ (env, .input seg) :: post →
      (tcpStep (Machine.run tcpStep t pre) (env, .input seg)).conn.state = .established →
      (tcpStep (Machine.run tcpStep t pre) (env, .input seg)).conn.Drained := by
  intro h
  have hdrained := h 0xfffffffe 4 _ overlapRun (by decide) opened_exampleConnect (by decide)
    within_overlapRun aheadRun exampleEnv (wrapSegment 0 3 false) [] rfl (by decide +kernel)
  have hheld : (tcpStep (Machine.run tcpStep (tcpstackConnect exampleEnv 0 exampleHandlers)
      aheadRun) (exampleEnv, .input (wrapSegment 0 3 false))).conn.rcvOoo.any
      fun held => !seqGt held.seq (tcpStep (Machine.run tcpStep
        (tcpstackConnect exampleEnv 0 exampleHandlers) aheadRun)
        (exampleEnv, .input (wrapSegment 0 3 false))).conn.rcvNxt := by
    decide +kernel
  obtain ⟨held, hmem, hbehind⟩ := List.any_eq_true.1 hheld
  rw [hdrained held hmem] at hbehind
  cases hbehind

end Wgx
