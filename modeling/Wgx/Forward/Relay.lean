import Wgx.Lib.Run
import Wgx.Forward.Conn

/-!
# Forwarding without loss

* `Forward.readBytes`, `sentBytes`, `deliveredBytes`, `writtenBytes`: the two streams at both ends;
* `ForwardConn.Sound`: what holds of the flags of a relay;
* `Outward`, `Inward`: what holds of the stream into the tunnel, and of the stream out of it;
* `relays_iff`: both streams are relayed without loss, and when the second one is.
-/

namespace Wgx

/-! ### The streams -/

/-- The bytes of the entries that `pick` takes. -/
def Forward.bytes (pick : ForwardEntry → List Byte) (f : Forward) : List Byte := f.trace.flatMap pick

/-- What was read from the local socket. -/
def Forward.readBytes : Forward → List Byte :=
  Forward.bytes fun e => match e with | .read data => data | _ => []

/-- What was passed to `tcp_send`. -/
def Forward.sentBytes : Forward → List Byte :=
  Forward.bytes fun e => match e with | .sent data => data | _ => []

/-- What the tunnel delivered. -/
def Forward.deliveredBytes : Forward → List Byte :=
  Forward.bytes fun e => match e with | .delivered data => data | _ => []

/-- What was passed to `uv_write`. -/
def Forward.writtenBytes : Forward → List Byte :=
  Forward.bytes fun e => match e with | .written data => data | _ => []

theorem Forward.bytes_of_trace {pick : ForwardEntry → List Byte} {f f' : Forward}
    (h : f'.trace = f.trace) : f'.bytes pick = f.bytes pick := congrArg (List.flatMap pick) h

theorem Forward.bytes_log (pick : ForwardEntry → List Byte) (f : Forward) (e : ForwardEntry) :
    (f.log e).bytes pick = f.bytes pick ++ pick e := by
  rw [bytes, bytes, log_trace, List.flatMap_append, List.flatMap_singleton]

/-! ### Flags -/

/-- What holds of the flags of a relay. -/
structure ForwardConn.Sound (conn : ForwardConn) : Prop where
  closing : conn.closing = true → conn.localClosing = true
  closed : conn.localClosed = true → conn.localClosing = true
  ended : conn.localClosing = true → conn.closing = true ∨ conn.wgClosed = true
  reading : conn.reading = true → conn.localClosing = false
  connected : conn.reading = true → conn.localConnected = true
  connecting : conn.connecting = true → conn.localConnected = false

theorem ForwardConn.Sound.not_reading {conn : ForwardConn} (h : conn.Sound)
    (hlocal : conn.localClosing = true) : conn.reading = false := by
  by_contra hon
  rw [h.reading (by simpa using hon)] at hlocal
  cases hlocal

/-- A relay whose local handle was closed. -/
def ForwardConn.closeLocal (conn : ForwardConn) : ForwardConn :=
  { conn with localClosing := true, reading := false }

/-- A relay that was closed. -/
def ForwardConn.shut (conn : ForwardConn) : ForwardConn := { conn.closeLocal with closing := true }

theorem ForwardConn.Sound.shut {conn : ForwardConn} (h : conn.Sound) : conn.shut.Sound :=
  ⟨fun _ => rfl, fun _ => rfl, fun _ => Or.inl rfl, nofun, nofun, h.connecting⟩

/-- A handle is closed once. -/
theorem ForwardConn.Sound.closeLocal_self {conn : ForwardConn} (h : conn.Sound)
    (hlocal : conn.localClosing = true) : conn.closeLocal = conn := by
  rw [ForwardConn.closeLocal, ← h.not_reading hlocal, ← hlocal]

section Functions

variable {env : ForwardEnv} {f f' : Forward}

theorem forwardCloseLocal_conn (hclosed : f.conn.localClosed = true → f.conn.localClosing = true)
    (hreading : f.conn.localClosing = true → f.conn.reading = false) :
    (forwardCloseLocal f).conn = f.conn.closeLocal := by
  unfold forwardCloseLocal
  split_ifs with hdone
  · have hlocal : f.conn.localClosing = true := hdone.elim id hclosed
    rw [ForwardConn.closeLocal, ← hreading hlocal, ← hlocal]
  · rfl

theorem forwardCloseLocal_trace (f : Forward) : (forwardCloseLocal f).trace = f.trace := by
  unfold forwardCloseLocal
  split_ifs <;> rfl

/-- `forward_close` does nothing to the streams. -/
theorem forwardClose_trace (env : ForwardEnv) (f : Forward) :
    (forwardClose env f).trace = f.trace := by
  unfold forwardClose
  simp only
  split_ifs
  · rfl
  · exact forwardCloseLocal_trace _
  · exact forwardCloseLocal_trace _

theorem forwardClose_conn (h : f.conn.Sound) : (forwardClose env f).conn = f.conn.shut := by
  unfold forwardClose
  by_cases hclosing : f.conn.closing = true
  · rw [if_pos hclosing, ForwardConn.shut, h.closeLocal_self (h.closing hclosing), ← hclosing]
  · rw [if_neg hclosing]
    simp only
    split_ifs
    · exact forwardCloseLocal_conn h.closed h.not_reading
    · exact forwardCloseLocal_conn h.closed h.not_reading

/-! ### The stream into the tunnel -/

/-- What holds of the bytes on their way into the tunnel. -/
structure Outward (f : Forward) : Prop where
  stream : f.sentBytes <+: f.readBytes
  hand : f.conn.localClosing = false → f.readBytes = f.sentBytes ++ f.conn.pendingLocal.data
  idle : f.conn.reading = true → f.conn.pendingLocal.data = []
  fresh : f.conn.localConnected = false → f.conn.pendingLocal.data = []

/-- The bytes on their way into the tunnel stayed where they were. -/
structure SameOutward (f f' : Forward) : Prop where
  readBytes : f'.readBytes = f.readBytes
  sentBytes : f'.sentBytes = f.sentBytes
  pendingLocal : f'.conn.pendingLocal = f.conn.pendingLocal
  reading : f'.conn.reading = true → f.conn.reading = true
  localConnected : f.conn.localConnected = true → f'.conn.localConnected = true
  localClosing : f.conn.localClosing = true → f'.conn.localClosing = true

theorem Outward.of_same (h : Outward f) (hs : SameOutward f f') : Outward f' := by
  refine ⟨?_, fun hopen => ?_, fun hon => ?_, fun hno => ?_⟩
  · rw [hs.sentBytes, hs.readBytes]
    exact h.stream
  · rw [hs.sentBytes, hs.readBytes, hs.pendingLocal]
    refine h.hand (Bool.eq_false_iff.2 fun hclosing => ?_)
    rw [hs.localClosing hclosing] at hopen
    cases hopen
  · rw [hs.pendingLocal]
    exact h.idle (hs.reading hon)
  · rw [hs.pendingLocal]
    refine h.fresh (Bool.eq_false_iff.2 fun hyes => ?_)
    rw [hs.localConnected hyes] at hno
    cases hno

/-! ### The stream out of the tunnel -/

/-- What holds of the bytes on their way to the local socket. -/
structure Inward (f : Forward) : Prop where
  stream : f.writtenBytes <+: f.deliveredBytes
  hand : f.conn.localClosing = false → f.deliveredBytes = f.writtenBytes ++ f.conn.pendingWg.data
  flushed : f.conn.localClosing = false → f.conn.localConnected = true → f.conn.pendingWg.data = []

/-- The bytes on their way to the local socket stayed where they were. -/
structure SameInward (f f' : Forward) : Prop where
  deliveredBytes : f'.deliveredBytes = f.deliveredBytes
  writtenBytes : f'.writtenBytes = f.writtenBytes
  pendingWg : f'.conn.pendingWg = f.conn.pendingWg
  localConnected : f'.conn.localConnected = f.conn.localConnected
  localClosing : f.conn.localClosing = true → f'.conn.localClosing = true

theorem SameInward.refl (f : Forward) : SameInward f f := ⟨rfl, rfl, rfl, rfl, id⟩

theorem SameInward.trans {f f' f'' : Forward} (h : SameInward f f') (h' : SameInward f' f'') :
    SameInward f f'' :=
  ⟨h'.deliveredBytes.trans h.deliveredBytes, h'.writtenBytes.trans h.writtenBytes,
    h'.pendingWg.trans h.pendingWg, h'.localConnected.trans h.localConnected,
    fun hclosing => h'.localClosing (h.localClosing hclosing)⟩

theorem Inward.of_same (h : Inward f) (hs : SameInward f f') : Inward f' := by
  have hlocal : f'.conn.localClosing = false → f.conn.localClosing = false := fun hopen =>
    Bool.eq_false_iff.2 fun hclosing => by
      rw [hs.localClosing hclosing] at hopen
      cases hopen
  refine ⟨?_, fun hopen => ?_, fun hopen hyes => ?_⟩
  · rw [hs.writtenBytes, hs.deliveredBytes]
    exact h.stream
  · rw [hs.writtenBytes, hs.deliveredBytes, hs.pendingWg]
    exact h.hand (hlocal hopen)
  · rw [hs.pendingWg]
    exact h.flushed (hlocal hopen) (hs.localConnected ▸ hyes)

/-! ### Closing -/

theorem sameInward_forwardClose (h : f.conn.Sound) : SameInward f (forwardClose env f) :=
  have htrace := forwardClose_trace env f
  ⟨Forward.bytes_of_trace htrace, Forward.bytes_of_trace htrace,
    by rw [forwardClose_conn h]; rfl, by rw [forwardClose_conn h]; rfl,
    fun _ => by rw [forwardClose_conn h]; rfl⟩

/-- A relay may be closed while bytes are on their way into the tunnel: no more than what was read
went there. -/
theorem outward_forwardClose (h : f.conn.Sound) (hstream : f.sentBytes <+: f.readBytes)
    (hfresh : f.conn.localConnected = false → f.conn.pendingLocal.data = []) :
    Outward (forwardClose env f) := by
  have htrace := forwardClose_trace env f
  have hconn : (forwardClose env f).conn = f.conn.shut := forwardClose_conn h
  refine ⟨?_, fun hopen => ?_, fun hon => ?_, fun hno => ?_⟩
  · rw [Forward.sentBytes, Forward.readBytes, Forward.bytes_of_trace htrace,
      Forward.bytes_of_trace htrace]
    exact hstream
  · rw [hconn] at hopen
    cases hopen
  · rw [hconn] at hon
    cases hon
  · rw [hconn] at hno ⊢
    exact hfresh hno

theorem inward_forwardClose (h : f.conn.Sound) (hstream : f.writtenBytes <+: f.deliveredBytes) :
    Inward (forwardClose env f) := by
  have htrace := forwardClose_trace env f
  have hconn : (forwardClose env f).conn = f.conn.shut := forwardClose_conn h
  refine ⟨?_, fun hopen => ?_, fun hopen => ?_⟩
  · rw [Forward.writtenBytes, Forward.deliveredBytes, Forward.bytes_of_trace htrace,
      Forward.bytes_of_trace htrace]
    exact hstream
  · rw [hconn] at hopen
    cases hopen
  · rw [hconn] at hopen
    cases hopen

/-! ### Flushing into the tunnel -/

/-- Bytes went into the tunnel, and nothing else happened. -/
structure Flushed (f f' : Forward) : Prop where
  sound : f'.conn.Sound
  outward : Outward f'
  inward : SameInward f f'

theorem Flushed.trans {f f' f'' : Forward} (h : Flushed f f') (h' : Flushed f' f'') :
    Flushed f f'' := ⟨h'.sound, h'.outward, h.inward.trans h'.inward⟩

theorem forwardTcpSend_bytes (env : ForwardEnv) (data : List Byte) (f : Forward) :
    (forwardTcpSend env data f).2.readBytes = f.readBytes ∧
      (forwardTcpSend env data f).2.sentBytes = f.sentBytes ++ data ∧
      SameInward f (forwardTcpSend env data f).2 := by
  refine ⟨?_, Forward.bytes_log _ _ _, ⟨?_, ?_, rfl, rfl, id⟩⟩
  · exact (Forward.bytes_log _ _ _).trans (List.append_nil _)
  · exact (Forward.bytes_log _ _ _).trans (List.append_nil _)
  · exact (Forward.bytes_log _ _ _).trans (List.append_nil _)

theorem flushed_flushLocalLoop (fuel : ℕ) (h : f.conn.Sound) (ho : Outward f)
    (hopen : f.conn.localClosing = false) :
    Flushed f (flushLocalLoop env fuel f).2 ∧
      ((flushLocalLoop env fuel f).1 = true →
        (flushLocalLoop env fuel f).2.conn.localClosing = false) := by
  induction fuel generalizing f with
  | zero => exact ⟨⟨h, ho, .refl f⟩, fun _ => hopen⟩
  | succ fuel ih =>
    unfold flushLocalLoop
    by_cases hidle : (!f.conn.wgConn) = true ∨ f.conn.pendingLocal.data.length = 0
    · rw [if_pos hidle]
      exact ⟨⟨h, ho, .refl f⟩, fun _ => hopen⟩
    rw [if_neg hidle]
    simp only
    by_cases havail : tcpSendAvailable f.tcp.conn = 0
    · rw [if_pos havail]
      exact ⟨⟨h, ho, .refl f⟩, fun _ => hopen⟩
    rw [if_neg havail]
    generalize (if f.conn.pendingLocal.data.length < tcpSendAvailable f.tcp.conn then
      f.conn.pendingLocal.data.length else tcpSendAvailable f.tcp.conn) = k
    obtain ⟨hread, hsent, hin⟩ := forwardTcpSend_bytes env (f.conn.pendingLocal.data.take k) f
    have hhand := ho.hand hopen
    set g := (forwardTcpSend env (f.conn.pendingLocal.data.take k) f).2
    have hprefix : g.sentBytes <+: g.readBytes := by
      rw [hread, hsent, hhand]
      exact (List.prefix_append_right_inj _).2 (List.take_prefix _ _)
    split_ifs
    · -- the stack refuses: the relay is closed
      have hg : g.conn.Sound := h
      refine ⟨⟨?_, outward_forwardClose hg hprefix ho.fresh,
        hin.trans (sameInward_forwardClose hg)⟩, nofun⟩
      show (forwardClose env g).conn.Sound
      rw [forwardClose_conn hg]
      exact hg.shut
    · set u := g.update fun conn => { conn with
        pendingLocal := ⟨conn.pendingLocal.data.drop k, conn.pendingLocal.cap⟩ } with hu
      have hsame : SameInward f u := ⟨hin.deliveredBytes, hin.writtenBytes, rfl, rfl, id⟩
      have huo : Outward u := by
        refine ⟨?_, fun _ => ?_, fun hon => ?_, fun hno => ?_⟩
        · exact hprefix
        · show g.readBytes = g.sentBytes ++ f.conn.pendingLocal.data.drop k
          rw [hread, hsent, hhand, List.append_assoc, List.take_append_drop]
        · show f.conn.pendingLocal.data.drop k = []
          rw [ho.idle hon, List.drop_nil]
        · show f.conn.pendingLocal.data.drop k = []
          rw [ho.fresh hno, List.drop_nil]
      have hus : u.conn.Sound :=
        ⟨h.closing, h.closed, h.ended, h.reading, h.connected, h.connecting⟩
      obtain ⟨hflushed, hdone⟩ := ih hus huo hopen
      exact ⟨⟨hflushed.sound, hflushed.outward, hsame.trans hflushed.inward⟩, hdone⟩

/-- A relay with nothing pending may read. -/
theorem flushed_forwardReadStart (h : f.conn.Sound) (ho : Outward f)
    (hopen : f.conn.localClosing = false) (hyes : f.conn.localConnected = true)
    (hnil : f.conn.pendingLocal.data = []) : Flushed f (forwardReadStart env f) := by
  unfold forwardReadStart
  split_ifs
  · refine ⟨?_, outward_forwardClose h ho.stream ho.fresh, sameInward_forwardClose h⟩
    rw [forwardClose_conn h]
    exact h.shut
  · exact ⟨⟨h.closing, h.closed, h.ended, fun _ => hopen, fun _ => hyes, h.connecting⟩,
      ⟨ho.stream, ho.hand, fun _ => hnil, ho.fresh⟩, ⟨rfl, rfl, rfl, rfl, id⟩⟩

theorem flushed_forwardResume (h : f.conn.Sound) (ho : Outward f) :
    Flushed f (forwardResume env f) := by
  unfold forwardResume
  split_ifs with hresume
  · obtain ⟨hnil, -, hyes, hopen, -⟩ := hresume
    have hu := @flushed_forwardReadStart env
      (f.update fun conn => { conn with localReadPaused := false })
      ⟨h.closing, h.closed, h.ended, h.reading, h.connected, h.connecting⟩
      ⟨ho.stream, ho.hand, ho.idle, ho.fresh⟩ (by simpa using hopen) hyes
      (List.length_eq_zero_iff.1 hnil)
    exact ⟨hu.sound, hu.outward, ⟨hu.inward.deliveredBytes, hu.inward.writtenBytes,
      hu.inward.pendingWg, hu.inward.localConnected, hu.inward.localClosing⟩⟩
  · exact ⟨h, ho, .refl f⟩

/-- `forward_flush_pending_local` moves bytes into the tunnel, and closes the relay at worst. -/
theorem flushed_forwardFlushPendingLocal (h : f.conn.Sound) (ho : Outward f)
    (hopen : f.conn.localClosing = false) : Flushed f (forwardFlushPendingLocal env f) := by
  obtain ⟨hloop, -⟩ := @flushed_flushLocalLoop env f f.conn.pendingLocal.data.length h ho hopen
  unfold forwardFlushPendingLocal
  simp only
  split_ifs
  · exact hloop.trans (flushed_forwardResume hloop.sound hloop.outward)
  · exact hloop

/-! ### Reading from the local socket -/

theorem append_data {buf buf' : PendingBuf} {data : List Byte} {realloc : ℕ → Bool}
    (h : buf.append data realloc = some buf') : buf'.data = buf.data ++ data := by
  unfold PendingBuf.append at h
  split_ifs at h
  obtain ⟨cap, -, rfl⟩ := Option.map_eq_some_iff.1 h
  rfl

/-- What does not go into the tunnel is kept, or the relay is closed. -/
theorem flushed_forwardPause {data : List Byte} (h : f.conn.Sound)
    (hyes : f.conn.localConnected = true)
    (hhand : f.readBytes = f.sentBytes ++ f.conn.pendingLocal.data ++ data) :
    Flushed f (forwardPause env data f) := by
  have hstream : f.sentBytes <+: f.readBytes := by
    rw [hhand, List.append_assoc]
    exact List.prefix_append _ _
  have hfresh : f.conn.localConnected = false → f.conn.pendingLocal.data = [] := fun hno => by
    rw [hyes] at hno
    cases hno
  unfold forwardPause forwardPendingLocalAppend
  cases happend : f.conn.pendingLocal.append data (env.realloc f) with
  | none =>
    refine ⟨?_, outward_forwardClose h hstream hfresh, sameInward_forwardClose h⟩
    show (forwardClose env f).conn.Sound
    rw [forwardClose_conn h]
    exact h.shut
  | some buf =>
    refine ⟨⟨h.closing, h.closed, h.ended, nofun, nofun, h.connecting⟩,
      ⟨hstream, fun _ => ?_, nofun, fun hno => ?_⟩, ⟨rfl, rfl, rfl, rfl, id⟩⟩
    · show f.readBytes = f.sentBytes ++ buf.data
      rw [hhand, append_data happend, List.append_assoc]
    · rw [show f.conn.localConnected = false from hno] at hyes
      cases hyes

/-- Both streams, and the flags. -/
structure Relaying (f : Forward) : Prop where
  sound : f.conn.Sound
  outward : Outward f
  inward : Inward f

theorem Relaying.flushed (h : Relaying f) (hf : Flushed f f') : Relaying f' :=
  ⟨hf.sound, hf.outward, h.inward.of_same hf.inward⟩

theorem Relaying.forwardClose (h : Relaying f) : Relaying (forwardClose env f) := by
  refine ⟨?_, outward_forwardClose h.sound h.outward.stream h.outward.fresh,
    inward_forwardClose h.sound h.inward.stream⟩
  rw [forwardClose_conn h.sound]
  exact h.sound.shut

theorem relaying_forwardLocalRead (h : Relaying f) (hon : f.conn.reading = true) (nread : ℤ)
    (buf : List Byte) : Relaying (forwardLocalRead env nread buf f) := by
  have hopen := h.sound.reading hon
  have hyes := h.sound.connected hon
  have hnil := h.outward.idle hon
  unfold forwardLocalRead
  by_cases hend : nread ≤ 0
  · rw [if_pos hend]
    split_ifs
    · exact h.forwardClose
    · exact h
  rw [if_neg hend]
  generalize buf.take nread.toNat = data
  simp only
  set g := f.log (.read data) with hg
  have hread : g.readBytes = f.sentBytes ++ data := by
    rw [Forward.readBytes, hg, Forward.bytes_log, ← Forward.readBytes, h.outward.hand hopen, hnil,
      List.append_nil]
  have hsent : g.sentBytes = f.sentBytes := (Forward.bytes_log _ _ _).trans (List.append_nil _)
  have hin : SameInward f g := ⟨(Forward.bytes_log _ _ _).trans (List.append_nil _),
    (Forward.bytes_log _ _ _).trans (List.append_nil _), rfl, rfl, id⟩
  have hgs : g.conn.Sound := h.sound
  have hgnil : g.conn.pendingLocal.data = [] := hnil
  have hstream : g.sentBytes <+: g.readBytes := by
    rw [hread, hsent]
    exact List.prefix_append _ _
  have hclose : Relaying (Wgx.forwardClose env g) := by
    refine ⟨?_, outward_forwardClose hgs hstream h.outward.fresh,
      (h.inward.of_same hin).of_same (sameInward_forwardClose hgs)⟩
    rw [forwardClose_conn hgs]
    exact hgs.shut
  by_cases hconn : (!g.conn.wgConn) = true
  · rw [if_pos hconn]
    exact hclose
  rw [if_neg hconn, if_neg (by rw [hgnil]; decide)]
  have hpause : ∀ rest : List Byte, ∀ g' : Forward, g'.conn = g.conn →
      g'.readBytes = g'.sentBytes ++ rest → SameInward f g' →
      Relaying (forwardPause env rest g') := by
    intro rest g' hconn' hhand hin'
    have hf := @flushed_forwardPause env g' rest (hconn' ▸ hgs)
      (by rw [hconn']; exact hyes) (by
        rw [hconn', hgnil, List.append_nil]
        exact hhand)
    exact ⟨hf.sound, hf.outward, (h.inward.of_same hin').of_same hf.inward⟩
  by_cases havail : tcpSendAvailable g.tcp.conn = 0
  · rw [if_pos havail]
    exact hpause data g rfl (by rw [hread, hsent]) hin
  rw [if_neg havail]
  generalize (if data.length < tcpSendAvailable g.tcp.conn then data.length
    else tcpSendAvailable g.tcp.conn) = k
  generalize hr : (if 0 < k then forwardTcpSend env (data.take k) g else (0, g)) = r
  obtain ⟨hrconn, hrread, hrsent, hrin⟩ : r.2.conn = g.conn ∧ r.2.readBytes = g.readBytes ∧
      r.2.sentBytes = f.sentBytes ++ data.take k ∧ SameInward f r.2 := by
    rw [← hr]
    split_ifs with hk
    · obtain ⟨hr1, hr2, hr3⟩ := forwardTcpSend_bytes env (data.take k) g
      exact ⟨rfl, hr1, hr2.trans (by rw [hsent]), hin.trans hr3⟩
    · refine ⟨rfl, rfl, ?_, hin⟩
      rw [Nat.eq_zero_of_not_pos hk, List.take_zero, List.append_nil]
      exact hsent
  have hrs : r.2.conn.Sound := hrconn ▸ hgs
  have hrstream : r.2.sentBytes <+: r.2.readBytes := by
    rw [hrread, hread, hrsent]
    exact (List.prefix_append_right_inj _).2 (List.take_prefix _ _)
  split_ifs with hret hrest
  · refine ⟨?_, outward_forwardClose hrs hrstream (by rw [hrconn]; exact h.outward.fresh),
      (h.inward.of_same hrin).of_same (sameInward_forwardClose hrs)⟩
    rw [forwardClose_conn hrs]
    exact hrs.shut
  · refine hpause _ r.2 hrconn ?_ hrin
    rw [hrread, hread, hrsent, List.append_assoc, List.take_append_drop]
  · have hall : r.2.readBytes = r.2.sentBytes := by
      rw [hrread, hread, hrsent, List.take_of_length_le (Nat.le_of_not_lt hrest)]
    refine ⟨hrs, ⟨hrstream, fun _ => ?_, fun _ => ?_, fun _ => ?_⟩, h.inward.of_same hrin⟩
    · rw [hrconn, hgnil, List.append_nil, hall]
    · rw [hrconn, hgnil]
    · rw [hrconn, hgnil]

/-! ### Writing to the local socket -/

/-- The bytes that the tunnel delivered behind what was written go to `uv_write`, if there is memory
for the request. -/
theorem forwardWriteLocal_spec {data : List Byte}
    (hhand : f.deliveredBytes = f.writtenBytes ++ data) :
    (forwardWriteLocal env data f).2.conn = f.conn ∧
      SameOutward f (forwardWriteLocal env data f).2 ∧
      (forwardWriteLocal env data f).2.writtenBytes <+:
        (forwardWriteLocal env data f).2.deliveredBytes ∧
      ((forwardWriteLocal env data f).1 = true → (forwardWriteLocal env data f).2.deliveredBytes =
        (forwardWriteLocal env data f).2.writtenBytes) := by
  unfold forwardWriteLocal
  split_ifs
  · refine ⟨rfl, ⟨rfl, rfl, rfl, id, id, id⟩, ?_, nofun⟩
    show f.writtenBytes <+: f.deliveredBytes
    rw [hhand]
    exact List.prefix_append _ _
  · have hwritten : (f.log (.written data)).writtenBytes = f.writtenBytes ++ data :=
      Forward.bytes_log _ _ _
    have hdelivered : (f.log (.written data)).deliveredBytes = f.deliveredBytes :=
      (Forward.bytes_log _ _ _).trans (List.append_nil _)
    have hall : (f.log (.written data)).deliveredBytes = (f.log (.written data)).writtenBytes := by
      rw [hwritten, hdelivered, hhand]
    exact ⟨rfl, ⟨(Forward.bytes_log _ _ _).trans (List.append_nil _),
      (Forward.bytes_log _ _ _).trans (List.append_nil _), rfl, id, id, id⟩,
      by rw [hall], fun _ => hall⟩

/-- A relay is closed with its second stream on the way. -/
theorem relaying_forwardClose_of (hs : f.conn.Sound) (ho : Outward f)
    (hstream : f.writtenBytes <+: f.deliveredBytes) : Relaying (forwardClose env f) := by
  refine ⟨?_, outward_forwardClose hs ho.stream ho.fresh, inward_forwardClose hs hstream⟩
  rw [forwardClose_conn hs]
  exact hs.shut

theorem relaying_forwardFlushPendingWg (hs : f.conn.Sound) (ho : Outward f)
    (hhand : f.deliveredBytes = f.writtenBytes ++ f.conn.pendingWg.data) :
    f.conn.localConnected = true → Relaying (forwardFlushPendingWg env f) := by
  intro hyes
  unfold forwardFlushPendingWg
  by_cases hidle : (!f.conn.localConnected) = true ∨ f.conn.pendingWg.data.length = 0
  · rw [if_pos hidle]
    have hnil : f.conn.pendingWg.data = [] := by
      rw [hyes] at hidle
      exact List.length_eq_zero_iff.1 (hidle.resolve_left (by decide))
    refine ⟨hs, ho, ?_, fun _ => hhand, fun _ _ => hnil⟩
    rw [hhand]
    exact List.prefix_append _ _
  · rw [if_neg hidle]
    obtain ⟨hconn, hsame, hstream, hall⟩ := @forwardWriteLocal_spec env f _ hhand
    simp only
    split_ifs with hfailed
    · exact relaying_forwardClose_of (by rw [hconn]; exact hs) (ho.of_same hsame) hstream
    · have hdone := hall (by simpa using hfailed)
      have ho' := ho.of_same hsame
      refine ⟨?_, ⟨ho'.stream, ho'.hand, ho'.idle, ho'.fresh⟩, hstream, fun _ => ?_, fun _ _ => rfl⟩
      · rw [Forward.update_conn, hconn]
        exact ⟨hs.closing, hs.closed, hs.ended, hs.reading, hs.connected, hs.connecting⟩
      · exact hdone.trans (List.append_nil _).symm

/-! ### The other callbacks -/

theorem relaying_forwardConnectCb (h : Relaying f) (hconnecting : f.conn.connecting = true)
    {status : ℤ} (hstatus : f.conn.localClosing = true → status < 0) :
    Relaying (forwardConnectCb env status f) := by
  have hno := h.sound.connecting hconnecting
  have hs := h.sound
  unfold forwardConnectCb
  simp only
  by_cases hfailed : status < 0
  · rw [if_pos hfailed]
    have hdone : Relaying (f.update fun conn => { conn with connecting := false }) :=
      ⟨⟨hs.closing, hs.closed, hs.ended, hs.reading, hs.connected, nofun⟩,
        ⟨h.outward.stream, h.outward.hand, h.outward.idle, h.outward.fresh⟩,
        ⟨h.inward.stream, h.inward.hand, h.inward.flushed⟩⟩
    exact hdone.forwardClose
  rw [if_neg hfailed]
  have hopen : f.conn.localClosing = false := by
    by_contra hlocal
    exact hfailed (hstatus (by simpa using hlocal))
  set g := (f.update fun conn => { conn with connecting := false }).update fun conn =>
    { conn with localConnected := true } with hg
  have hgs : g.conn.Sound :=
    ⟨hs.closing, hs.closed, hs.ended, hs.reading, fun _ => rfl, nofun⟩
  have hgo : Outward g := ⟨h.outward.stream, h.outward.hand, h.outward.idle, nofun⟩
  split_ifs
  · exact relaying_forwardClose_of hgs hgo h.inward.stream
  · refine relaying_forwardFlushPendingWg (f := g.update fun conn => { conn with reading := true })
      ⟨hgs.closing, hgs.closed, hgs.ended, fun _ => hopen, fun _ => rfl, nofun⟩
      ⟨hgo.stream, hgo.hand, fun _ => h.outward.fresh hno, nofun⟩ (h.inward.hand hopen) rfl

theorem relaying_forwardWgOnClose (h : Relaying f) : Relaying (forwardWgOnClose f) := by
  have hs := h.sound
  set g := f.update fun conn => { conn with wgClosed := true, wgConn := false } with hg
  have hconn : (forwardWgOnClose f).conn = g.conn.closeLocal :=
    forwardCloseLocal_conn hs.closed hs.not_reading
  have htrace : (forwardWgOnClose f).trace = f.trace := forwardCloseLocal_trace g
  have hbytes : ∀ pick, (forwardWgOnClose f).bytes pick = f.bytes pick := fun pick =>
    Forward.bytes_of_trace htrace
  refine ⟨?_, ⟨?_, ?_, ?_, ?_⟩, ⟨?_, ?_, ?_⟩⟩
  · rw [hconn]
    exact ⟨fun _ => rfl, fun _ => rfl, fun _ => Or.inr rfl, nofun, nofun, hs.connecting⟩
  · rw [Forward.sentBytes, Forward.readBytes, hbytes, hbytes]
    exact h.outward.stream
  · rw [hconn]
    nofun
  · rw [hconn]
    nofun
  · rw [hconn]
    exact h.outward.fresh
  · rw [Forward.writtenBytes, Forward.deliveredBytes, hbytes, hbytes]
    exact h.inward.stream
  · rw [hconn]
    nofun
  · rw [hconn]
    nofun

theorem relaying_forwardWgOnWriteable (h : Relaying f) (hlive : f.conn.wgClosed = false) :
    Relaying (forwardWgOnWriteable env f) := by
  unfold forwardWgOnWriteable
  split_ifs with hclosing
  · exact h
  · refine h.flushed (flushed_forwardFlushPendingLocal h.sound h.outward ?_)
    by_contra hlocal
    rcases h.sound.ended (by simpa using hlocal) with hc | hw
    · exact hclosing hc
    · rw [hlive] at hw
      cases hw

theorem relaying_forwardWgOnData (h : Relaying f) (hlive : f.conn.wgClosed = false)
    (data : List Byte) : Relaying (forwardWgOnData env data f) := by
  have hs := h.sound
  unfold forwardWgOnData
  simp only
  set g := f.log (.delivered data) with hg
  have hdelivered : g.deliveredBytes = f.deliveredBytes ++ data := Forward.bytes_log _ _ _
  have hwritten : g.writtenBytes = f.writtenBytes :=
    (Forward.bytes_log _ _ _).trans (List.append_nil _)
  have hsame : SameOutward f g := ⟨(Forward.bytes_log _ _ _).trans (List.append_nil _),
    (Forward.bytes_log _ _ _).trans (List.append_nil _), rfl, id, id, id⟩
  have hgo : Outward g := h.outward.of_same hsame
  have hstream : g.writtenBytes <+: g.deliveredBytes := by
    rw [hdelivered, hwritten]
    exact h.inward.stream.trans (List.prefix_append _ _)
  by_cases hclosing : g.conn.closing = true
  · rw [if_pos hclosing]
    have hlocal : g.conn.localClosing = true := hs.closing hclosing
    refine ⟨hs, hgo, hstream, fun hopen => ?_, fun hopen => ?_⟩
    · rw [hlocal] at hopen
      cases hopen
    · rw [hlocal] at hopen
      cases hopen
  rw [if_neg hclosing]
  have hopen : f.conn.localClosing = false := by
    by_contra hlocal
    rcases hs.ended (by simpa using hlocal) with hc | hw
    · exact hclosing hc
    · rw [hlive] at hw
      cases hw
  have hhand := h.inward.hand hopen
  by_cases hno : (!g.conn.localConnected) = true
  · rw [if_pos hno]
    -- the local connect is not done yet
    unfold forwardPendingAppend
    cases happend : g.conn.pendingWg.append data (env.realloc g) with
    | none => exact relaying_forwardClose_of hs hgo hstream
    | some buf =>
      refine ⟨⟨hs.closing, hs.closed, hs.ended, hs.reading, hs.connected, hs.connecting⟩,
        ⟨hgo.stream, hgo.hand, hgo.idle, hgo.fresh⟩, hstream, fun _ => ?_, fun _ hyes => ?_⟩
      · show g.deliveredBytes = g.writtenBytes ++ buf.data
        rw [hdelivered, hwritten, hhand, append_data happend, List.append_assoc]
        rfl
      · rw [show g.conn.localConnected = true from hyes] at hno
        cases hno
  · rw [if_neg hno]
    have hyes : f.conn.localConnected = true := by
      by_contra hnot
      have hoff : g.conn.localConnected = false := Bool.eq_false_iff.2 hnot
      exact hno (by rw [hoff]; rfl)
    have hnil := h.inward.flushed hopen hyes
    have hf := @flushed_forwardFlushPendingLocal env g hs hgo hopen
    set u := forwardFlushPendingLocal env g
    have huhand : u.deliveredBytes = u.writtenBytes ++ data := by
      rw [hf.inward.deliveredBytes, hf.inward.writtenBytes, hdelivered, hwritten, hhand, hnil,
        List.append_nil]
    obtain ⟨hconn, hsame', hstream', hall⟩ := @forwardWriteLocal_spec env u _ huhand
    have huo := hf.outward.of_same hsame'
    have hus : (forwardWriteLocal env data u).2.conn.Sound := hconn ▸ hf.sound
    split_ifs with hfailed
    · exact relaying_forwardClose_of hus huo hstream'
    · have hunil : (forwardWriteLocal env data u).2.conn.pendingWg.data = [] := by
        rw [hconn, hf.inward.pendingWg]
        exact hnil
      refine ⟨hus, huo, hstream', fun _ => ?_, fun _ _ => hunil⟩
      rw [hunil, List.append_nil]
      exact hall (by simpa using hfailed)

theorem relaying_forwardStep (h : Relaying f) (e : ForwardEnv × ForwardEvent) :
    Relaying (forwardStep f e) := by
  obtain ⟨env, e⟩ := e
  unfold forwardStep
  by_cases henabled : e.enabled f.conn
  · rw [if_pos henabled]
    have hs := h.sound
    cases e with
    | tunnel tcp =>
      exact ⟨hs, ⟨h.outward.stream, h.outward.hand, h.outward.idle, h.outward.fresh⟩,
        ⟨h.inward.stream, h.inward.hand, h.inward.flushed⟩⟩
    | data data => exact relaying_forwardWgOnData h henabled data
    | writeable => exact relaying_forwardWgOnWriteable h henabled
    | close fin => exact relaying_forwardWgOnClose h
    | connected status => exact relaying_forwardConnectCb h henabled.1 henabled.2
    | localRead nread buf => exact relaying_forwardLocalRead h henabled nread buf
    | writeDone status =>
      simp only [forwardWriteDone]
      split_ifs
      · exact h.forwardClose
      · exact h
    | localClosed =>
      exact ⟨⟨hs.closing, fun _ => henabled.1, hs.ended, hs.reading, hs.connected, hs.connecting⟩,
        ⟨h.outward.stream, h.outward.hand, h.outward.idle, h.outward.fresh⟩,
        ⟨h.inward.stream, h.inward.hand, h.inward.flushed⟩⟩
  · rw [if_neg henabled]
    exact h

theorem relaying_forwardOnAccept (env : ForwardEnv) (tcp : Tcp) :
    Relaying (forwardOnAccept env tcp) := by
  have hfresh : Relaying ⟨.fresh, tcp, []⟩ :=
    ⟨⟨nofun, nofun, nofun, nofun, nofun, nofun⟩,
      ⟨List.prefix_rfl, fun _ => rfl, nofun, fun _ => rfl⟩,
      ⟨List.prefix_rfl, fun _ => rfl, fun _ _ => rfl⟩⟩
  unfold forwardOnAccept
  simp only
  split_ifs
  · exact hfresh.forwardClose
  · exact ⟨⟨nofun, nofun, nofun, nofun, nofun, fun _ => rfl⟩,
      ⟨List.prefix_rfl, fun _ => rfl, nofun, fun _ => rfl⟩,
      ⟨List.prefix_rfl, fun _ => rfl, fun _ _ => rfl⟩⟩

theorem relaying_run (h : Relaying f) (es : List (ForwardEnv × ForwardEvent)) :
    Relaying (Machine.run forwardStep f es) :=
  @Machine.run_induction' _ _ forwardStep Relaying (fun _ e h => relaying_forwardStep h e) _ h es

end Functions

/-! ### Runs -/

/-- What an event loses: nothing that was sent or written was not read or delivered before, the end
of the local stream comes when all of it was sent, and a FIN closes the local handle when all that
was delivered was written. -/
structure Lossless (f : Forward) (e : ForwardEnv × ForwardEvent) : Prop where
  sent : (forwardStep f e).sentBytes <+: (forwardStep f e).readBytes
  written : (forwardStep f e).writtenBytes <+: (forwardStep f e).deliveredBytes
  eof : ∀ nread buf, e.2 = .localRead nread buf → nread ≤ 0 → f.conn.reading = true →
    (forwardStep f e).sentBytes = (forwardStep f e).readBytes
  fin : e.2 = .close true → f.conn.wgClosed = false → f.conn.localClosing = false →
    (forwardStep f e).writtenBytes = (forwardStep f e).deliveredBytes

/-- A FIN that closes the local handle finds no bytes that wait for the local connect. -/
def FinAfterConnect (f : Forward) (e : ForwardEnv × ForwardEvent) : Prop :=
  e.2 = .close true → f.conn.wgClosed = false → f.conn.localClosing = false →
    f.conn.localConnected = false → f.conn.pendingWg.data = []

theorem lossless_iff {f : Forward} (h : Relaying f) (e : ForwardEnv × ForwardEvent) :
    Lossless f e ↔ FinAfterConnect f e := by
  have hfin : ∀ env, f.conn.wgClosed = false →
      (forwardStep f (env, .close true)).writtenBytes = f.writtenBytes ∧
        (forwardStep f (env, .close true)).deliveredBytes = f.deliveredBytes := by
    intro env hlive
    have htrace : (forwardStep f (env, .close true)).trace = f.trace := by
      have hstep : forwardStep f (env, .close true) = forwardWgOnClose f := if_pos hlive
      rw [hstep]
      exact forwardCloseLocal_trace _
    exact ⟨Forward.bytes_of_trace htrace, Forward.bytes_of_trace htrace⟩
  obtain ⟨env, e⟩ := e
  constructor
  · rintro hl rfl hlive hopen -
    have hall := hl.fin rfl hlive hopen
    rw [(hfin env hlive).1, (hfin env hlive).2, h.inward.hand hopen] at hall
    exact List.append_right_eq_self.1 hall.symm
  · intro hconnect
    have hafter := relaying_forwardStep h (env, e)
    refine ⟨hafter.outward.stream, hafter.inward.stream, ?_, ?_⟩
    · rintro nread buf rfl hend hon
      have htrace : (forwardStep f (env, .localRead nread buf)).trace = f.trace := by
        have hstep : forwardStep f (env, .localRead nread buf) = forwardLocalRead env nread buf f :=
          if_pos hon
        rw [hstep, forwardLocalRead, if_pos hend]
        split_ifs
        · exact forwardClose_trace env f
        · rfl
      rw [Forward.sentBytes, Forward.readBytes, Forward.bytes_of_trace htrace,
        Forward.bytes_of_trace htrace, ← Forward.sentBytes, ← Forward.readBytes,
        h.outward.hand (h.sound.reading hon), h.outward.idle hon, List.append_nil]
    · rintro rfl hlive hopen
      rw [(hfin env hlive).1, (hfin env hlive).2, h.inward.hand hopen]
      cases hyes : f.conn.localConnected with
      | true => rw [h.inward.flushed hopen hyes, List.append_nil]
      | false => rw [hconnect rfl hlive hopen hyes, List.append_nil]

/-- **Both streams are relayed without loss exactly if no FIN comes out of the tunnel while bytes
wait for the local connect.** -/
theorem relays_iff (env : ForwardEnv) (tcp : Tcp) (es : List (ForwardEnv × ForwardEvent)) :
    (∀ pre e post, es = pre ++ e :: post →
      Lossless (Machine.run forwardStep (forwardOnAccept env tcp) pre) e) ↔
    ∀ pre e post, es = pre ++ e :: post →
      FinAfterConnect (Machine.run forwardStep (forwardOnAccept env tcp) pre) e := by
  have hrun := fun pre => relaying_run (relaying_forwardOnAccept env tcp) pre
  constructor
  · intro h pre e post hsplit
    exact (lossless_iff (hrun pre) e).1 (h pre e post hsplit)
  · intro h pre e post hsplit
    exact (lossless_iff (hrun pre) e).2 (h pre e post hsplit)

/-! ### A request that ends before the local connect -/

/-- Everything succeeds. -/
def exampleForwardEnv : ForwardEnv where
  tcpMalloc _ := true
  malloc _ _ := true
  realloc _ _ := true
  uvWrite _ _ := 0
  uvReadStart _ := 0
  uvTcpConnect := 0

/-- A byte comes out of the tunnel, and the FIN behind it. -/
def earlyFin : List (ForwardEnv × ForwardEvent) :=
  [(exampleForwardEnv, .data [1]), (exampleForwardEnv, .close true)]

/-- The byte is lost. -/
theorem relay_loses : ¬ ∀ (env : ForwardEnv) (tcp : Tcp) (es : List (ForwardEnv × ForwardEvent)),
    ∀ pre e post, es = pre ++ e :: post →
      Lossless (Machine.run forwardStep (forwardOnAccept env tcp) pre) e := by
  intro h
  have hfin := (h exampleForwardEnv exampleConn earlyFin [(exampleForwardEnv, .data [1])]
    (exampleForwardEnv, .close true) [] rfl).fin rfl (by decide +kernel) (by decide +kernel)
  exact absurd hfin (by decide +kernel)

end Wgx
