import Wgx.Lib.Heap
import Wgx.Socks5.Frame

/-!
# The two buffers of a client

What a SOCKS5 connection writes to its client is collected in one block of memory while `uv_write`
reads another.

* `ClientOut`: the pointers and lengths of the two buffers, and the writes in flight;
* `ClientOut.clientWrite`, `ClientOut.clientFlush`, `ClientOut.flushCheck`,
  `ClientOut.writeDoneCb`: the functions of `socks5.c` on them;
* `stream_kept_iff`: in which runs no byte is lost and no write in flight is disturbed;
* `models_clientOutStep`: the buffers hold the lists of `Wgx.Socks5.Conn`.
-/

namespace Wgx

/-! ### The model -/

/-- A call of `uv_write` that has not completed: the buffer it was given and the bytes that were in
it at the time. -/
structure Flight where
  base : Option ℕ
  len : ℕ
  sent : List Byte

/-- The client's side of a connection: the fields of `socks5_conn_t` for the two buffers, what
`uv_is_closing` says of the client's handle, the writes in flight, everything given to
`client_write` and everything passed to `uv_write` so far. -/
structure ClientOut where
  heap : Heap Byte
  outbuf : Option ℕ
  outbufLen : ℕ
  outbufCap : ℕ
  writeBuf : Option ℕ
  writeBufLen : ℕ
  writeBufCap : ℕ
  writeState : S5WriteState
  closing : Bool
  flights : List Flight
  given : List Byte
  passed : List Byte

/-- The environment of one event: whether `realloc` succeeds, and where it is, and the result of
`uv_write`. -/
structure ClientOutEnv where
  realloc : Bool
  inPlace : Bool
  uvWrite : ℤ

/-- What happens: data for the client, the turn of the connection in `flush_check_cb`, a flush, and
the end of the oldest write in flight. -/
inductive ClientOutEvent
  | write (data : List Byte)
  | check
  | flush
  | done (status : ℤ)

namespace ClientOut

variable (env : ClientOutEnv)

/-- The bytes that `outbuf` holds. -/
def out (o : ClientOut) : List Byte := o.heap.bytes o.outbuf o.outbufLen

/-- `flush_remove`. -/
def flushRemove (o : ClientOut) : ClientOut :=
  if o.writeState ≠ .queued then o else { o with writeState := .idle }

/-- `socks5_conn_close`. -/
def connClose (o : ClientOut) : ClientOut :=
  if o.writeState = .closed then o
  else { flushRemove o with writeState := .closed, closing := true }

/-- `reserve_buf` on `outbuf`; `none` is the return value `-1`. -/
def reserveBuf (o : ClientOut) (need : ℕ) : Option ClientOut :=
  if o.outbufCap ≥ need then some o
  else if env.realloc then
    some { o with
      heap := (o.heap.realloc o.outbuf env.inPlace).1
      outbuf := (o.heap.realloc o.outbuf env.inPlace).2
      outbufCap := reserveCap need need (if o.outbufCap ≠ 0 then o.outbufCap else 1024) }
  else none

/-- `schedule_client_flush`. -/
def scheduleClientFlush (o : ClientOut) : ClientOut :=
  if o.writeState ≠ .idle then o else { o with writeState := .queued }

/-- The length of a buffer as `uv_buf_init` takes it: an `unsigned int`. -/
def uvLen (len : ℕ) : ℕ := len % 2 ^ 32

/-- The two buffers change their roles. -/
def swap (o : ClientOut) : ClientOut :=
  { o with
    writeBuf := o.outbuf
    writeBufLen := o.outbufLen
    writeBufCap := o.outbufCap
    outbuf := o.writeBuf
    outbufLen := 0
    outbufCap := o.writeBufCap }

/-- What `client_flush` passes to `uv_write`. -/
def flight (o : ClientOut) : Flight where
  base := o.writeBuf
  len := uvLen o.writeBufLen
  sent := o.heap.bytes o.writeBuf (uvLen o.writeBufLen)

/-- The call of `uv_write` in `client_flush`. -/
def uvWrite (o : ClientOut) : ClientOut :=
  let o := { o with writeState := .writing, passed := o.passed ++ o.flight.sent }
  if env.uvWrite < 0 then connClose { o with writeState := .idle }
  else { o with flights := o.flights ++ [o.flight] }

/-- `client_flush`. -/
def clientFlush (o : ClientOut) : ClientOut :=
  if o.writeState = .closed ∨ o.writeState = .writing ∨ o.outbufLen = 0 then o
  else uvWrite env (swap o)

/-- The `memcpy` of `client_write`. -/
def append (data : List Byte) (o : ClientOut) : ClientOut :=
  { o with
    heap := o.heap.memcpy o.outbuf o.outbufLen data
    outbufLen := o.outbufLen + data.length }

/-- `client_write`. -/
def clientWrite (data : List Byte) (o : ClientOut) : ClientOut :=
  let o := { o with given := o.given ++ data }
  if o.writeState = .closed ∨ data.length = 0 then o
  else
    match reserveBuf env o (o.outbufLen + data.length) with
    | none => o
    | some o =>
      let o := append data o
      if o.outbufLen ≥ socks5FlushSize then clientFlush env (flushRemove o)
      else scheduleClientFlush o

/-- `flush_check_cb` on the connection. -/
def flushCheck (o : ClientOut) : ClientOut :=
  clientFlush env { o with writeState := if o.writeState = .queued then .idle else o.writeState }

/-- The end of `write_done_cb`. -/
def afterWrite (status : ℤ) (o : ClientOut) : ClientOut :=
  if status < 0 then connClose o
  else if 0 < o.outbufLen then scheduleClientFlush o
  else o

/-- The beginning of `write_done_cb`: the buffers change their roles if the one that was written is
the larger one and nothing waits in the other. -/
def endWrite (o : ClientOut) : ClientOut :=
  let o := { o with writeState := .idle, writeBufLen := 0 }
  if o.outbufCap < o.writeBufCap ∧ o.outbufLen = 0 then
    { o with
      outbuf := o.writeBuf
      outbufCap := o.writeBufCap
      writeBuf := o.outbuf
      writeBufCap := o.outbufCap }
  else o

/-- `write_done_cb`. -/
def writeDoneCb (status : ℤ) (o : ClientOut) : ClientOut := afterWrite status (endWrite o)

/-- A connection without buffers, as it is accepted. -/
def start (heap : Heap Byte) : ClientOut where
  heap := heap
  outbuf := none
  outbufLen := 0
  outbufCap := 0
  writeBuf := none
  writeBufLen := 0
  writeBufCap := 0
  writeState := .idle
  closing := false
  flights := []
  given := []
  passed := []

end ClientOut

/-- The connection after an event; only a write in flight completes. -/
def clientOutStep (o : ClientOut) (e : ClientOutEnv × ClientOutEvent) : ClientOut :=
  match e.2 with
  | .write data => o.clientWrite e.1 data
  | .check => o.flushCheck e.1
  | .flush => o.clientFlush e.1
  | .done status =>
    match o.flights with
    | [] => o
    | _ :: flights => { o with flights := flights }.writeDoneCb status

/-! ### What holds of the buffers -/

/-- Everything passed to `uv_write` followed by `outbuf` is everything given to `client_write`. -/
def ClientOut.Kept (o : ClientOut) : Prop := o.passed ++ o.out = o.given

/-- The buffers are blocks of their own with room for what they hold. -/
structure ClientOut.Sound (o : ClientOut) : Prop where
  heap_ok : o.heap.Ok
  out_valid : o.heap.Valid o.outbuf
  write_valid : o.heap.Valid o.writeBuf
  distinct : ∀ b, o.writeBuf = some b → o.outbuf ≠ some b
  out_cap : o.outbuf = none → o.outbufCap = 0
  write_cap : o.writeBuf = none → o.writeBufCap = 0
  out_le : o.outbufLen ≤ o.outbufCap
  write_le : o.writeBufLen ≤ o.writeBufCap

/-- The buffers of a connection that is not closed: the one write in flight, if there is one, is
that of `writeBuf`, and its bytes are still there. -/
structure ClientOut.Live (o : ClientOut) : Prop extends o.Sound where
  not_closed : o.writeState ≠ .closed
  flights_eq : o.flights = if o.writeState = .writing then [o.flight] else []

namespace ClientOut

variable {o : ClientOut} {env : ClientOutEnv} {data : List Byte}

theorem live_start {heap : Heap Byte} (hheap : heap.Ok) : (start heap).Live where
  heap_ok := hheap
  out_valid := nofun
  write_valid := nofun
  distinct := nofun
  out_cap _ := rfl
  write_cap _ := rfl
  out_le := le_rfl
  write_le := le_rfl
  not_closed := nofun
  flights_eq := rfl

theorem Sound.length_out (h : o.Sound) : o.out.length = o.outbufLen := by
  unfold out
  cases hbuf : o.outbuf with
  | none =>
    have hcap := h.out_cap hbuf
    have hle := h.out_le
    rw [Heap.bytes, List.length_nil]
    omega
  | some b => exact Heap.length_bytes_some

/-! ### The states of the writes -/

theorem closing_connClose (hopen : o.writeState ≠ .closed) : (connClose o).closing = true := by
  rw [connClose, if_neg hopen]

/-- While nothing is in flight, the flush of a connection may be queued or not. -/
theorem Live.retag (h : o.Live) (hidle : o.writeState ≠ .writing) {state : S5WriteState}
    (hstate : state = .idle ∨ state = .queued) : Live { o with writeState := state } where
  toSound := ⟨h.heap_ok, h.out_valid, h.write_valid, h.distinct, h.out_cap, h.write_cap, h.out_le,
    h.write_le⟩
  not_closed := by rcases hstate with rfl | rfl <;> nofun
  flights_eq := by
    have hnil := h.flights_eq
    rw [if_neg hidle] at hnil
    rw [if_neg (by rcases hstate with rfl | rfl <;> nofun)]
    exact hnil

theorem live_flushRemove (h : o.Live) : (flushRemove o).Live := by
  unfold flushRemove
  by_cases hqueued : o.writeState = .queued
  · rw [if_neg (not_not.2 hqueued)]
    exact h.retag (by rw [hqueued]; nofun) (Or.inl rfl)
  · rw [if_pos hqueued]
    exact h

theorem closing_flushRemove : (flushRemove o).closing = o.closing := by
  unfold flushRemove
  split_ifs <;> rfl

theorem outbufLen_flushRemove : (flushRemove o).outbufLen = o.outbufLen := by
  unfold flushRemove
  split_ifs <;> rfl

theorem writing_flushRemove : (flushRemove o).writeState = .writing ↔ o.writeState = .writing := by
  unfold flushRemove
  by_cases hqueued : o.writeState = .queued
  · rw [if_neg (not_not.2 hqueued), hqueued]
    exact ⟨nofun, nofun⟩
  · rw [if_pos hqueued]

theorem live_scheduleClientFlush (h : o.Live) : (scheduleClientFlush o).Live := by
  unfold scheduleClientFlush
  by_cases hidle : o.writeState = .idle
  · rw [if_neg (not_not.2 hidle)]
    exact h.retag (by rw [hidle]; nofun) (Or.inr rfl)
  · rw [if_pos hidle]
    exact h

/-! ### Passing a buffer on -/

theorem sound_swap (h : o.Sound) : (swap o).Sound where
  heap_ok := h.heap_ok
  out_valid := h.write_valid
  write_valid := h.out_valid
  distinct := fun b hb hw => h.distinct b hw hb
  out_cap := h.write_cap
  write_cap := h.out_cap
  out_le := Nat.zero_le _
  write_le := h.out_le

theorem closing_uvWrite (hret : env.uvWrite < 0) : (uvWrite env o).closing = true := by
  rw [uvWrite, if_pos hret]
  exact closing_connClose nofun

theorem live_clientFlush (h : o.Live) (hopen : (clientFlush env o).closing = false) :
    (clientFlush env o).Live := by
  unfold clientFlush at hopen ⊢
  by_cases hskip : o.writeState = .closed ∨ o.writeState = .writing ∨ o.outbufLen = 0
  · rw [if_pos hskip]
    exact h
  · rw [if_neg hskip] at hopen ⊢
    push Not at hskip
    have hswap := sound_swap h.toSound
    have hnil : o.flights = [] := by rw [h.flights_eq, if_neg hskip.2.1]
    by_cases hret : env.uvWrite < 0
    · rw [closing_uvWrite hret] at hopen
      cases hopen
    · rw [uvWrite, if_neg hret]
      refine ⟨⟨hswap.heap_ok, hswap.out_valid, hswap.write_valid, hswap.distinct, hswap.out_cap,
        hswap.write_cap, hswap.out_le, hswap.write_le⟩, nofun, ?_⟩
      show (swap o).flights ++ _ = _
      rw [if_pos rfl, show (swap o).flights = [] from hnil]
      rfl

/-- A buffer is passed whole exactly if its length fits the `unsigned int`. -/
theorem sent_eq_iff (h : o.Sound) :
    o.heap.bytes o.outbuf (uvLen o.outbufLen) = o.out ↔ o.outbufLen < 2 ^ 32 := by
  have hlen := h.length_out
  have htake : o.out.take (uvLen o.outbufLen) = o.heap.bytes o.outbuf (uvLen o.outbufLen) :=
    Heap.bytes_take (Nat.mod_le _ _)
  rw [← htake, List.take_eq_self_iff, hlen]
  constructor
  · intro hle
    exact lt_of_le_of_lt hle (Nat.mod_lt _ (by decide))
  · intro hlt
    exact (Nat.mod_eq_of_lt hlt).ge

/-- A flush keeps the stream exactly if it starts no write that is too long. -/
theorem kept_clientFlush (h : o.Live) (hkept : o.Kept) :
    ((clientFlush env o).closing = false → (clientFlush env o).Kept) ↔
      (o.closing = false → 0 ≤ env.uvWrite → o.writeState ≠ .writing → o.outbufLen < 2 ^ 32) := by
  unfold clientFlush
  by_cases hskip : o.writeState = .closed ∨ o.writeState = .writing ∨ o.outbufLen = 0
  · rw [if_pos hskip]
    refine ⟨fun _ _ _ hidle => ?_, fun _ _ => hkept⟩
    rcases hskip with hclosed | hwriting | hzero
    · exact absurd hclosed h.not_closed
    · exact absurd hwriting hidle
    · rw [hzero]
      decide
  · rw [if_neg hskip]
    push Not at hskip
    by_cases hret : env.uvWrite < 0
    · rw [closing_uvWrite hret]
      exact ⟨fun _ _ hle => absurd hret (not_lt.2 hle), nofun⟩
    · rw [uvWrite, if_neg hret]
      have hiff : (o.passed ++ o.heap.bytes o.outbuf (uvLen o.outbufLen)) ++
          o.heap.bytes o.writeBuf 0 = o.given ↔ o.outbufLen < 2 ^ 32 := by
        rw [Heap.bytes_zero, List.append_nil, ← hkept, List.append_cancel_left_eq,
          sent_eq_iff h.toSound]
      constructor
      · intro hok hopen _ _
        exact hiff.1 (hok hopen)
      · intro hok hopen
        exact hiff.2 (hok hopen (not_lt.1 hret) hskip.2.1)

/-! ### Data for the client -/

/-- The doubling loop of `reserve_buf` reaches what is needed. -/
theorem le_reserveCap {need : ℕ} (fuel : ℕ) {cap : ℕ} (hfuel : need ≤ cap * 2 ^ fuel) :
    need ≤ reserveCap need fuel cap := by
  induction fuel generalizing cap with
  | zero => simpa [reserveCap] using hfuel
  | succ fuel ih =>
    unfold reserveCap
    split_ifs with hmore
    · exact ih (by rwa [pow_succ', ← mul_assoc] at hfuel)
    · exact not_lt.1 hmore

/-- The buffer has become larger, if it had to, and nothing else has changed. -/
structure Reserved (o o' : ClientOut) (need : ℕ) : Prop where
  live : o'.Live
  fits : need ≤ o'.outbufCap
  outbufCap : o'.outbufCap = if o.outbufCap ≥ need then o.outbufCap
    else reserveCap need need (if o.outbufCap ≠ 0 then o.outbufCap else 1024)
  out : o'.out = o.out
  write : o'.heap.bytes o'.writeBuf o'.writeBufLen = o.heap.bytes o.writeBuf o.writeBufLen
  rest : (o'.outbufLen, o'.writeBufLen, o'.writeBufCap, o'.writeState, o'.closing, o'.flights,
    o'.given, o'.passed) = (o.outbufLen, o.writeBufLen, o.writeBufCap, o.writeState, o.closing,
    o.flights, o.given, o.passed)

theorem reserved_reserveBuf (h : o.Live) (hrealloc : env.realloc = true) (need : ℕ) :
    ∃ o', reserveBuf env o need = some o' ∧ Reserved o o' need := by
  unfold reserveBuf
  by_cases hroom : o.outbufCap ≥ need
  · rw [if_pos hroom]
    exact ⟨o, rfl, h, hroom, (if_pos hroom).symm, rfl, rfl, rfl⟩
  rw [if_neg hroom, if_pos hrealloc]
  have hfit : need ≤ reserveCap need need (if o.outbufCap ≠ 0 then o.outbufCap else 1024) := by
    apply le_reserveCap
    have hpos : 1 ≤ if o.outbufCap ≠ 0 then o.outbufCap else 1024 := by split_ifs <;> omega
    calc need ≤ 2 ^ need := Nat.lt_two_pow_self.le
      _ = 1 * 2 ^ need := (one_mul _).symm
      _ ≤ _ := Nat.mul_le_mul_right _ hpos
  have hother := @Heap.elsewhere_realloc _ _ o.outbuf o.writeBuf env.inPlace h.heap_ok h.write_valid
    h.distinct
  have hbytes : (o.heap.realloc o.outbuf env.inPlace).1.bytes
      (o.heap.realloc o.outbuf env.inPlace).2 o.outbufLen = o.out :=
    Heap.bytes_realloc fun hnil => by
      have hcap := h.out_cap hnil
      have hle := h.out_le
      omega
  have hsome := @Heap.isSome_realloc _ o.heap o.outbuf env.inPlace
  refine ⟨_, rfl, ⟨⟨Heap.ok_realloc h.heap_ok, Heap.valid_realloc h.out_valid,
    hother.valid h.write_valid, Heap.realloc_ne h.heap_ok h.write_valid h.distinct, fun hnil => ?_,
    h.write_cap, ?_, h.write_le⟩, h.not_closed, ?_⟩, hfit, (if_neg hroom).symm, hbytes,
    hother.bytes _, rfl⟩
  · rw [show (o.heap.realloc o.outbuf env.inPlace).2 = none from hnil] at hsome
    cases hsome
  · have hle := h.out_le
    show o.outbufLen ≤ reserveCap need need _
    omega
  · -- the write in flight is that of the other buffer
    have hsent := hother.bytes (uvLen o.writeBufLen)
    refine h.flights_eq.trans ?_
    simp only [flight, hsent]

theorem live_append (h : o.Live) (hdata : data ≠ [])
    (hfit : o.outbufLen + data.length ≤ o.outbufCap) :
    (append data o).Live ∧ (append data o).out = o.out ++ data ∧
      (append data o).heap.bytes o.writeBuf o.writeBufLen =
        o.heap.bytes o.writeBuf o.writeBufLen := by
  have hpos := List.length_pos_of_ne_nil hdata
  obtain ⟨b, hb⟩ : ∃ b, o.outbuf = some b := by
    rw [← Option.ne_none_iff_exists']
    intro hnil
    have hcap := h.out_cap hnil
    omega
  have hother := @Heap.elsewhere_memcpy _ o.heap o.outbuf o.writeBuf o.outbufLen data h.distinct
  refine ⟨⟨⟨Heap.ok_memcpy h.heap_ok, Heap.valid_memcpy h.out_valid,
    Heap.valid_memcpy h.write_valid, h.distinct, h.out_cap, h.write_cap, hfit, h.write_le⟩, h.not_closed, ?_⟩, ?_, hother.bytes _⟩
  · have hflight : (append data o).flight = o.flight := by
      rw [flight, flight]
      show Flight.mk o.writeBuf _ ((o.heap.memcpy o.outbuf o.outbufLen data).bytes o.writeBuf _) = _
      rw [hother.bytes]
      rfl
    exact h.flights_eq.trans (by rw [hflight]; rfl)
  · show (o.heap.memcpy o.outbuf o.outbufLen data).bytes o.outbuf (o.outbufLen + data.length) =
      o.heap.bytes o.outbuf o.outbufLen ++ data
    rw [hb]
    exact Heap.bytes_memcpy o.heap b o.outbufLen data

/-- A connection whose flush is no longer queued is flushed. -/
theorem kept_flush (h : o.Live) (hkept : o.Kept) :
    ((clientFlush env (flushRemove o)).closing = false →
        (clientFlush env (flushRemove o)).Kept) ↔
      (o.closing = false → 0 ≤ env.uvWrite → o.writeState ≠ .writing → o.outbufLen < 2 ^ 32) := by
  have hkept' : (flushRemove o).Kept := by
    unfold flushRemove
    split_ifs <;> exact hkept
  rw [kept_clientFlush (live_flushRemove h) hkept', closing_flushRemove, outbufLen_flushRemove,
    ne_eq, writing_flushRemove]

theorem flushCheck_eq : flushCheck env o = clientFlush env (flushRemove o) := by
  unfold flushCheck flushRemove
  by_cases hqueued : o.writeState = .queued
  · rw [if_neg (not_not.2 hqueued), if_pos hqueued]
  · rw [if_pos hqueued, if_neg hqueued]

/-- The data is in the buffer, and nothing else has changed. -/
structure Appended (o o' : ClientOut) (data : List Byte) : Prop where
  live : o'.Live
  outbufCap : o'.outbufCap = if o.outbufCap ≥ o.outbufLen + data.length then o.outbufCap
    else reserveCap (o.outbufLen + data.length) (o.outbufLen + data.length)
      (if o.outbufCap ≠ 0 then o.outbufCap else 1024)
  out : o'.out = o.out ++ data
  write : o'.heap.bytes o'.writeBuf o'.writeBufLen = o.heap.bytes o.writeBuf o.writeBufLen
  rest : (o'.outbufLen, o'.writeBufCap, o'.writeState, o'.closing, o'.flights, o'.given,
    o'.passed) = (o.outbufLen + data.length, o.writeBufCap, o.writeState, o.closing, o.flights,
    o.given ++ data, o.passed)

theorem Appended.kept {o' : ClientOut} (h : Appended o o' data) (hkept : o.Kept) : o'.Kept := by
  have hrest := h.rest
  simp only [Prod.mk.injEq] at hrest
  obtain ⟨-, -, -, -, -, hgiven, hpassed⟩ := hrest
  rw [Kept, h.out, hgiven, hpassed, ← List.append_assoc]
  exact congrArg (· ++ data) hkept

theorem Appended.outbufLen {o' : ClientOut} (h : Appended o o' data) :
    o'.outbufLen = o.outbufLen + data.length := congrArg Prod.fst h.rest

theorem Appended.writeState {o' : ClientOut} (h : Appended o o' data) :
    o'.writeState = o.writeState := congrArg (fun p => p.2.2.1) h.rest

theorem Appended.closing {o' : ClientOut} (h : Appended o o' data) : o'.closing = o.closing :=
  congrArg (fun p => p.2.2.2.1) h.rest

/-- What `client_write` does, if there is memory and something to write: the data is in the buffer,
and the buffer is flushed at once or later. -/
theorem clientWrite_eq (h : o.Live) (hrealloc : env.realloc = true) (hdata : data ≠ []) :
    ∃ o', Appended o o' data ∧ clientWrite env data o =
      if o.outbufLen + data.length ≥ socks5FlushSize then clientFlush env (flushRemove o')
      else scheduleClientFlush o' := by
  have hgiven : Live { o with given := o.given ++ data } :=
    ⟨⟨h.heap_ok, h.out_valid, h.write_valid, h.distinct, h.out_cap, h.write_cap, h.out_le,
      h.write_le⟩, h.not_closed, h.flights_eq⟩
  obtain ⟨grown, hgrown, hres⟩ :=
    reserved_reserveBuf hgiven hrealloc (o.outbufLen + data.length)
  have hrest := hres.rest
  simp only [Prod.mk.injEq] at hrest
  obtain ⟨hlen, -, hwcap, hstate, hclosing, hflights, hgave, hpassed⟩ := hrest
  obtain ⟨hlive, hout, hwrite⟩ := live_append hres.live hdata (by rw [hlen]; exact hres.fits)
  refine ⟨append data grown, ⟨hlive, hres.outbufCap, ?_, hwrite.trans hres.write, ?_⟩, ?_⟩
  · rw [hout, hres.out]
    rfl
  · simp only [append, hlen, hwcap, hstate, hclosing, hflights, hgave, hpassed]
  · have hskip : ¬ (o.writeState = .closed ∨ data.length = 0) := by
      rw [List.length_eq_zero_iff, not_or]
      exact ⟨h.not_closed, hdata⟩
    rw [clientWrite, if_neg hskip, hgrown]
    simp only [append, hlen]

theorem kept_scheduleClientFlush (hkept : o.Kept) : (scheduleClientFlush o).Kept := by
  unfold scheduleClientFlush
  split_ifs <;> exact hkept

theorem live_clientWrite (h : o.Live) (hrealloc : env.realloc = true)
    (hopen : (clientWrite env data o).closing = false) : (clientWrite env data o).Live := by
  by_cases hdata : data = []
  · rw [clientWrite, if_pos (Or.inr (List.length_eq_zero_iff.2 hdata))]
    exact ⟨⟨h.heap_ok, h.out_valid, h.write_valid, h.distinct, h.out_cap, h.write_cap, h.out_le,
      h.write_le⟩, h.not_closed, h.flights_eq⟩
  · obtain ⟨o', happ, heq⟩ := clientWrite_eq h hrealloc hdata
    rw [heq] at hopen ⊢
    by_cases hflush : o.outbufLen + data.length ≥ socks5FlushSize
    · rw [if_pos hflush] at hopen ⊢
      exact live_clientFlush (live_flushRemove happ.live) hopen
    · rw [if_neg hflush]
      exact live_scheduleClientFlush happ.live

theorem kept_clientWrite (h : o.Live) (hkept : o.Kept) (hrealloc : env.realloc = true) :
    ((clientWrite env data o).closing = false → (clientWrite env data o).Kept) ↔
      (o.closing = false → 0 ≤ env.uvWrite → o.writeState ≠ .writing → data ≠ [] →
        socks5FlushSize ≤ o.outbufLen + data.length → o.outbufLen + data.length < 2 ^ 32) := by
  by_cases hdata : data = []
  · have hsame : (clientWrite env data o).Kept := by
      rw [clientWrite, if_pos (Or.inr (List.length_eq_zero_iff.2 hdata)), hdata]
      exact hkept.trans (List.append_nil _).symm
    exact ⟨fun _ _ _ _ hne => absurd hdata hne, fun _ _ => hsame⟩
  · obtain ⟨o', happ, heq⟩ := clientWrite_eq h hrealloc hdata
    rw [heq]
    by_cases hflush : o.outbufLen + data.length ≥ socks5FlushSize
    · rw [if_pos hflush, kept_flush happ.live (happ.kept hkept), happ.outbufLen, happ.writeState,
        happ.closing]
      exact ⟨fun hok hopen hret hidle _ _ => hok hopen hret hidle,
        fun hok hopen hret hidle => hok hopen hret hidle hdata hflush⟩
    · rw [if_neg hflush]
      exact ⟨fun _ _ _ _ _ hle => absurd hle hflush,
        fun _ _ => kept_scheduleClientFlush (happ.kept hkept)⟩

/-! ### The end of a write -/

theorem live_afterWrite {status : ℤ} (h : o.Live) (hkept : o.Kept)
    (hopen : (afterWrite status o).closing = false) :
    (afterWrite status o).Live ∧ (afterWrite status o).Kept := by
  unfold afterWrite at hopen ⊢
  by_cases hfailed : status < 0
  · rw [if_pos hfailed, closing_connClose h.not_closed] at hopen
    cases hopen
  · rw [if_neg hfailed]
    split_ifs
    · exact ⟨live_scheduleClientFlush h, kept_scheduleClientFlush hkept⟩
    · exact ⟨h, hkept⟩

theorem live_endWrite (h : o.Sound) (hkept : o.Kept) (hnil : o.flights = []) :
    (endWrite o).Live ∧ (endWrite o).Kept := by
  have hzero : ∀ n : ℕ, 0 ≤ n := Nat.zero_le
  unfold endWrite
  simp only
  by_cases hswap : o.outbufCap < o.writeBufCap ∧ o.outbufLen = 0
  · rw [if_pos hswap]
    refine ⟨⟨⟨h.heap_ok, h.write_valid, h.out_valid, fun b hb hw => h.distinct b hw hb,
      h.write_cap, h.out_cap, ?_, hzero _⟩, nofun, ?_⟩, ?_⟩
    · rw [hswap.2]
      exact hzero _
    · exact hnil.trans (if_neg nofun).symm
    · have hempty : ∀ p, o.heap.bytes p o.outbufLen = [] := by
        intro p
        rw [hswap.2, Heap.bytes_zero]
      show o.passed ++ o.heap.bytes o.writeBuf o.outbufLen = o.given
      rw [← hkept, out, hempty, hempty]
  · rw [if_neg hswap]
    exact ⟨⟨⟨h.heap_ok, h.out_valid, h.write_valid, h.distinct, h.out_cap, h.write_cap, h.out_le,
      hzero _⟩, nofun, hnil.trans (if_neg nofun).symm⟩, hkept⟩

/-! ### A closed connection -/

theorem closing_of_connClose (h : o.closing = true) : (connClose o).closing = true := by
  unfold connClose
  split_ifs
  · exact h
  · rfl

theorem closing_scheduleClientFlush : (scheduleClientFlush o).closing = o.closing := by
  unfold scheduleClientFlush
  split_ifs <;> rfl

theorem closing_of_clientFlush (h : o.closing = true) : (clientFlush env o).closing = true := by
  unfold clientFlush
  split_ifs
  · exact h
  · rw [uvWrite]
    split_ifs
    · exact closing_of_connClose h
    · exact h

theorem closing_reserveBuf {grown : ClientOut} {need : ℕ}
    (hgrown : reserveBuf env o need = some grown) : grown.closing = o.closing := by
  unfold reserveBuf at hgrown
  split_ifs at hgrown <;> cases hgrown <;> rfl

theorem closing_of_clientWrite (h : o.closing = true) :
    (clientWrite env data o).closing = true := by
  unfold clientWrite
  simp only
  split_ifs
  · exact h
  · cases hgrown : reserveBuf env { o with given := o.given ++ data }
      (o.outbufLen + data.length) with
    | none => exact h
    | some grown =>
      have hclosing : (append data grown).closing = true := (closing_reserveBuf hgrown).trans h
      simp only
      split_ifs
      · exact closing_of_clientFlush (closing_flushRemove.trans hclosing)
      · exact closing_scheduleClientFlush.trans hclosing

theorem closing_of_writeDoneCb {status : ℤ} (h : o.closing = true) :
    (writeDoneCb status o).closing = true := by
  have hclosing : (endWrite o).closing = true := by
    unfold endWrite
    simp only
    split_ifs <;> exact h
  unfold writeDoneCb afterWrite
  split_ifs
  · exact closing_of_connClose hclosing
  · exact closing_scheduleClientFlush.trans hclosing
  · exact hclosing

end ClientOut

section Runs

variable {o : ClientOut} {e : ClientOutEnv × ClientOutEvent}

theorem closing_clientOutStep (h : o.closing = true) : (clientOutStep o e).closing = true := by
  obtain ⟨env, event⟩ := e
  cases event with
  | write data => exact ClientOut.closing_of_clientWrite h
  | check =>
    show (o.flushCheck env).closing = true
    rw [ClientOut.flushCheck_eq]
    exact ClientOut.closing_of_clientFlush (ClientOut.closing_flushRemove.trans h)
  | flush => exact ClientOut.closing_of_clientFlush h
  | done status =>
    unfold clientOutStep
    cases o.flights with
    | nil => exact h
    | cons f flights => exact ClientOut.closing_of_writeDoneCb h

/-! ### Runs -/

/-- A step that starts a write whose length fits the `unsigned int` of `uv_buf_init`, or starts
none: it is on a closed connection or during a write, `uv_write` refuses, or too little is written. -/
def ClientOut.BelowUvLimit (o : ClientOut) (e : ClientOutEnv × ClientOutEvent) : Prop :=
  o.closing = false → 0 ≤ e.1.uvWrite → o.writeState ≠ .writing →
    match e.2 with
    | .write data => data ≠ [] → socks5FlushSize ≤ o.outbufLen + data.length →
        o.outbufLen + data.length < 2 ^ 32
    | .check => o.outbufLen < 2 ^ 32
    | .flush => o.outbufLen < 2 ^ 32
    | .done _ => True

/-- The stream to the client is preserved: what was passed to `uv_write` and what `outbuf` holds is
what was given, and of the one write in flight the bytes are as they were passed. -/
structure ClientOut.Preserved (o : ClientOut) : Prop where
  kept : o.Kept
  one : o.flights.length ≤ 1
  unmodified : ∀ f ∈ o.flights, o.heap.Valid f.base ∧ o.heap.bytes f.base f.len = f.sent

theorem ClientOut.Live.preserved (h : o.Live) (hkept : o.Kept) : o.Preserved := by
  refine ⟨hkept, ?_, fun f hf => ?_⟩
  · rw [h.flights_eq]
    split_ifs <;> simp
  · rw [h.flights_eq] at hf
    split_ifs at hf with hwriting
    · rw [List.mem_singleton] at hf
      subst hf
      exact ⟨h.write_valid, rfl⟩
    · cases hf

/-- The buffers are in order after a step, and the stream is kept exactly if the step stays below
the limit. -/
theorem live_clientOutStep (h : o.Live) (hkept : o.Kept) (hrealloc : e.1.realloc = true) :
    ((clientOutStep o e).closing = false → (clientOutStep o e).Live) ∧
      (((clientOutStep o e).closing = false → (clientOutStep o e).Kept) ↔ o.BelowUvLimit e) := by
  obtain ⟨env, event⟩ := e
  cases event with
  | write data =>
    exact ⟨ClientOut.live_clientWrite h hrealloc,
      ClientOut.kept_clientWrite h hkept hrealloc⟩
  | check =>
    show ((o.flushCheck env).closing = false → (o.flushCheck env).Live) ∧
      (((o.flushCheck env).closing = false → (o.flushCheck env).Kept) ↔ _)
    rw [ClientOut.flushCheck_eq]
    exact ⟨ClientOut.live_clientFlush (ClientOut.live_flushRemove h),
      ClientOut.kept_flush h hkept⟩
  | flush => exact ⟨ClientOut.live_clientFlush h, ClientOut.kept_clientFlush h hkept⟩
  | done status =>
    have hdone : (clientOutStep o (env, .done status)).closing = false →
        (clientOutStep o (env, .done status)).Live ∧
          (clientOutStep o (env, .done status)).Kept := by
      unfold clientOutStep
      simp only
      have hflights := h.flights_eq
      cases hf : o.flights with
      | nil => exact fun _ => ⟨h, hkept⟩
      | cons f flights =>
        have hnil : flights = [] := by
          rw [hf] at hflights
          split_ifs at hflights
          cases hflights
          rfl
        obtain ⟨hlive, hkept'⟩ := @ClientOut.live_endWrite { o with flights := flights }
          ⟨h.heap_ok, h.out_valid, h.write_valid, h.distinct, h.out_cap, h.write_cap, h.out_le,
            h.write_le⟩ hkept hnil
        exact ClientOut.live_afterWrite hlive hkept'
    exact ⟨fun hopen => (hdone hopen).1,
      fun _ _ _ _ => trivial, fun _ hopen => (hdone hopen).2⟩

/-- **The double-buffered writes preserve the stream, up to a 32-bit length.**  In a run in which
memory does not run out the stream is preserved in all states in which the connection is not closed,
exactly if no write of `2 ^ 32` bytes or more is started. -/
theorem stream_kept_iff {heap : Heap Byte} (hheap : heap.Ok)
    (es : List (ClientOutEnv × ClientOutEvent)) (hes : ∀ e ∈ es, e.1.realloc = true) :
    (∀ pre, pre <+: es → (Machine.run clientOutStep (.start heap) pre).closing = false →
      (Machine.run clientOutStep (.start heap) pre).Preserved) ↔
    ∀ pre e post, es = pre ++ e :: post →
      (Machine.run clientOutStep (.start heap) pre).BelowUvLimit e := by
  rw [← Machine.guarded_iff_forall_split clientOutStep]
  refine (@Machine.guarded_iff_forall_prefix_of _ _ clientOutStep (fun _ e => e.1.realloc = true)
    ClientOut.BelowUvLimit (fun o => o.closing = false → o.Live ∧ o.Kept)
    (fun o => o.closing = false → o.Preserved) ?_ ?_ ?_ _ ?_ es
    (Machine.guarded_of_forall clientOutStep hes _)).symm
  · intro o e hinv hrealloc hbelow hopen
    cases hclosing : o.closing with
    | true =>
      rw [closing_clientOutStep hclosing] at hopen
      cases hopen
    | false =>
      obtain ⟨hlive, hkept⟩ := hinv hclosing
      obtain ⟨hlive', hiff⟩ := live_clientOutStep hlive hkept hrealloc
      exact ⟨hlive' hopen, hiff.2 hbelow hopen⟩
  · exact fun o hinv hopen => (hinv hopen).1.preserved (hinv hopen).2
  · intro o e hinv hrealloc hpreserved hopen
    obtain ⟨hlive, hkept⟩ := hinv hopen
    exact (live_clientOutStep hlive hkept hrealloc).2.1 (fun h => (hpreserved h).kept) hopen
  · exact fun _ => ⟨ClientOut.live_start hheap, rfl⟩

/-- A byte that is written when the loop comes round. -/
theorem stream_kept_iff_byte : (⟨fun _ _ => 0, fun _ => false, 0⟩ : Heap Byte).Ok ∧
    ∀ pre, pre <+: [(⟨true, false, 0⟩, .write [1]), (⟨true, false, 0⟩, .check)] →
    (Machine.run clientOutStep (.start ⟨fun _ _ => 0, fun _ => false, 0⟩) pre).closing = false →
    (Machine.run clientOutStep (.start ⟨fun _ _ => 0, fun _ => false, 0⟩) pre).Preserved := by
  refine ⟨by nofun, (stream_kept_iff (by nofun) _ (by simp)).2 ?_⟩
  rw [← Machine.guarded_iff_forall_split clientOutStep]
  refine ⟨fun _ _ _ _ hflush => absurd hflush (by decide), fun _ _ _ => ?_, trivial⟩
  show 1 < 2 ^ 32
  decide

/-! ### A client that does not read -/

/-- What comes for the client during a write waits in the buffer. -/
theorem run_write_replicate {env : ClientOutEnv} {data : List Byte} (hdata : data ≠ [])
    (hrealloc : env.realloc = true) (n : ℕ) {o : ClientOut} (h : o.Live) (hkept : o.Kept)
    (hwriting : o.writeState = .writing) :
    ∃ o', Machine.run clientOutStep o (List.replicate n (env, .write data)) = o' ∧ o'.Live ∧
      o'.Kept ∧ o'.writeState = .writing ∧ o'.closing = o.closing ∧
      o'.outbufLen = o.outbufLen + n * data.length := by
  induction n generalizing o with
  | zero => exact ⟨o, rfl, h, hkept, hwriting, rfl, by rw [Nat.zero_mul, Nat.add_zero]⟩
  | succ n ih =>
    obtain ⟨o1, happ, heq⟩ := ClientOut.clientWrite_eq h hrealloc hdata
    have hstate1 : o1.writeState = .writing := happ.writeState.trans hwriting
    have hstep : clientOutStep o (env, .write data) = o1 := by
      refine heq.trans ?_
      have hremove : o1.flushRemove = o1 := if_pos (by rw [hstate1]; nofun)
      rw [hremove]
      split_ifs
      · exact if_pos (Or.inr (Or.inl hstate1))
      · exact if_pos (by rw [hstate1]; nofun)
    obtain ⟨o', hrun, hlive', hkept', hstate', hclosing', hlen'⟩ :=
      ih happ.live (happ.kept hkept) hstate1
    refine ⟨o', ?_, hlive', hkept', hstate', hclosing'.trans happ.closing, ?_⟩
    · rw [List.replicate_succ, Machine.run_cons, hstep, hrun]
    · rw [hlen', happ.outbufLen, Nat.succ_mul]
      omega

/-- A write that fills the buffer starts at once. -/
theorem writing_clientOutStep {env : ClientOutEnv} {data : List Byte} (h : o.Live)
    (hrealloc : env.realloc = true) (hret : 0 ≤ env.uvWrite) (hidle : o.writeState = .idle)
    (hflush : socks5FlushSize ≤ o.outbufLen + data.length) (hdata : data ≠ []) :
    (clientOutStep o (env, .write data)).writeState = .writing ∧
      (clientOutStep o (env, .write data)).closing = o.closing ∧
      (clientOutStep o (env, .write data)).outbufLen = 0 := by
  obtain ⟨o1, happ, heq⟩ := ClientOut.clientWrite_eq h hrealloc hdata
  have hlen1 := happ.outbufLen
  have hstate1 : o1.writeState = .idle := happ.writeState.trans hidle
  have hstep : clientOutStep o (env, .write data) = o1.swap.uvWrite env := by
    refine heq.trans ?_
    have hremove : o1.flushRemove = o1 := if_pos (by rw [hstate1]; nofun)
    have hpos : o1.outbufLen ≠ 0 := by
      have hsize : 0 < socks5FlushSize := by decide
      omega
    rw [if_pos hflush, hremove, ClientOut.clientFlush, if_neg]
    rw [hstate1]
    exact not_or.2 ⟨nofun, not_or.2 ⟨nofun, hpos⟩⟩
  rw [hstep, ClientOut.uvWrite, if_neg (not_lt.2 hret)]
  exact ⟨rfl, happ.closing, rfl⟩

/-- What waited during a write is queued when the write ends. -/
theorem queued_clientOutStep {env : ClientOutEnv} (h : o.Live) (hwriting : o.writeState = .writing)
    (hpos : 0 < o.outbufLen) :
    (clientOutStep o (env, .done 0)).writeState = .queued ∧
      (clientOutStep o (env, .done 0)).closing = o.closing ∧
      (clientOutStep o (env, .done 0)).outbufLen = o.outbufLen := by
  have hflights := h.flights_eq
  rw [if_pos hwriting] at hflights
  unfold clientOutStep
  rw [hflights]
  simp only [ClientOut.writeDoneCb, ClientOut.endWrite]
  rw [if_neg (not_and_of_not_right _ hpos.ne'), ClientOut.afterWrite, if_neg (by decide),
    if_pos hpos]
  exact ⟨rfl, rfl, rfl⟩

/-- The client reads nothing while its first write is in flight, and the tunnel delivers `n`
segments with the data `chunk`; then the write ends. -/
def slowClient (first chunk : List Byte) (n : ℕ) : List (ClientOutEnv × ClientOutEvent) :=
  (⟨true, false, 0⟩, .write first) :: (List.replicate n (⟨true, false, 0⟩, .write chunk) ++
    [(⟨true, false, 0⟩, .done 0), (⟨true, false, 0⟩, .check)])

/-- Of a buffer of `2 ^ 32` bytes or more not everything is passed on. -/
theorem not_kept_slowClient {heap : Heap Byte} (hheap : heap.Ok) {first chunk : List Byte} {n : ℕ}
    (hfirst : first.length = socks5FlushSize) (hchunk : 2 ^ 32 ≤ n * chunk.length) :
    ¬ ((Machine.run clientOutStep (.start heap) (slowClient first chunk n)).closing = false →
      (Machine.run clientOutStep (.start heap) (slowClient first chunk n)).Kept) := by
  have hlive := ClientOut.live_start hheap
  have hkept : (ClientOut.start heap).Kept := rfl
  have hsize : 0 < socks5FlushSize ∧ socks5FlushSize < 2 ^ 32 := by decide
  have hlen : (ClientOut.start heap).outbufLen + first.length = socks5FlushSize := by
    rw [hfirst]
    exact Nat.zero_add _
  have hne : first ≠ [] := List.ne_nil_of_length_pos (by omega)
  have hne' : chunk ≠ [] := by
    rintro rfl
    rw [List.length_nil, Nat.mul_zero] at hchunk
    exact absurd hchunk (by decide)
  rw [slowClient, Machine.run_cons, Machine.run_append]
  -- the first write starts at once
  have hstart := @live_clientOutStep _ (⟨true, false, 0⟩, .write first) hlive hkept rfl
  obtain ⟨hwriting, hclosing, hzero⟩ :=
    @writing_clientOutStep _ ⟨true, false, 0⟩ first hlive rfl le_rfl rfl hlen.ge hne
  have hkept1 := hstart.2.2 (fun _ _ _ _ _ => hlen.trans_lt hsize.2) hclosing
  have hlive1 := hstart.1 hclosing
  generalize clientOutStep (.start heap) _ = o1 at *
  -- everything else waits behind it
  obtain ⟨o2, hrun, hlive2, hkept2, hwriting2, hclosing2, hlen2⟩ :=
    @run_write_replicate ⟨true, false, 0⟩ chunk hne' rfl n o1 hlive1 hkept1 hwriting
  rw [hrun, Machine.run_cons, Machine.run_cons, Machine.run_nil]
  have hlast := @live_clientOutStep _ (⟨true, false, 0⟩, .done 0) hlive2 hkept2 rfl
  obtain ⟨hqueued, hclosing3, hlen3⟩ :=
    @queued_clientOutStep _ ⟨true, false, 0⟩ hlive2 hwriting2 (by omega)
  have hopen : (clientOutStep o2 (⟨true, false, 0⟩, .done 0)).closing = false :=
    hclosing3.trans (hclosing2.trans hclosing)
  have hkept3 := hlast.2.2 (fun _ _ _ => trivial) hopen
  have hlive3 := hlast.1 hopen
  generalize clientOutStep o2 (⟨true, false, 0⟩, .done 0) = o3 at *
  intro hkeeps
  have hbelow : o3.outbufLen < 2 ^ 32 := (live_clientOutStep hlive3 hkept3 rfl).2.1 hkeeps hopen
    le_rfl (by rw [hqueued]; nofun)
  omega

/-- A client that reads nothing while `2 ^ 32` bytes come for it loses them. -/
theorem stream_not_kept :
    ¬ ∀ (heap : Heap Byte) (es : List (ClientOutEnv × ClientOutEvent)), heap.Ok →
      (∀ e ∈ es, e.1.realloc = true) →
      ∀ pre, pre <+: es → (Machine.run clientOutStep (.start heap) pre).closing = false →
        (Machine.run clientOutStep (.start heap) pre).Preserved := by
  intro hall
  have hheap : Heap.Ok (⟨fun _ _ => 0, fun _ => false, 0⟩ : Heap Byte) := nofun
  have hes : ∀ first chunk n, ∀ e ∈ slowClient first chunk n, e.1.realloc = true := by
    intro first chunk n e he
    rcases List.mem_cons.1 he with rfl | he
    · rfl
    · rcases List.mem_append.1 he with he | he
      · rw [List.eq_of_mem_replicate he]
      · rcases List.mem_pair.1 he with rfl | rfl <;> rfl
  refine not_kept_slowClient hheap (List.length_replicate : _ = socks5FlushSize)
    (?_ : 2 ^ 32 ≤ 2 ^ 20 * (List.replicate 4096 (0 : Byte)).length) fun hopen =>
      (hall _ (slowClient (List.replicate socks5FlushSize 0) _ _) hheap (hes _ _ _) _
        List.prefix_rfl hopen).kept
  rw [List.length_replicate]
  decide

end Runs

/-! ### The lists they hold -/

/-- The buffers hold the lists of the connection `s`. -/
structure ClientOut.Models (o : ClientOut) (s : Socks) : Prop where
  out : o.out = s.conn.outbuf
  outbufCap : o.outbufCap = s.conn.outbufCap
  write : o.heap.bytes o.writeBuf o.writeBufLen = s.conn.writeBuf
  writeBufCap : o.writeBufCap = s.conn.writeBufCap
  writeState : o.writeState = s.conn.writeState
  writeReq : (!o.flights.isEmpty) = s.conn.writeReq
  closing : o.closing = s.conn.closing
  given : o.given = givenBytes s.trace
  passed : o.passed = writtenBytes s.trace

/-- The functions on the lists, by event. -/
def socksWrite (env : SocksEnv) (s : Socks) : ClientOutEvent → Socks
  | .write data => clientWrite env data s
  | .check => flushCheck env s
  | .flush => clientFlush env s
  | .done status => if s.conn.writeReq then writeDoneCb env status s else s

section Lists

variable {o : ClientOut} {s : Socks} {env : ClientOutEnv} {socks : SocksEnv} {data : List Byte}

theorem models_updateWgRecvWindowState (h : o.Models s) :
    o.Models (updateWgRecvWindowState socks s) := by
  unfold updateWgRecvWindowState
  cases s.conn.wgConn with
  | none => exact h
  | some t =>
    simp only
    split_ifs
    · exact h
    · exact ⟨h.out, h.outbufCap, h.write, h.writeBufCap, h.writeState, h.writeReq, h.closing,
        h.given, h.passed⟩
    · exact ⟨h.out, h.outbufCap, h.write, h.writeBufCap, h.writeState, h.writeReq, h.closing,
        h.given, h.passed⟩
    · exact h

theorem models_flushRemove (h : o.Models s) : o.flushRemove.Models (flushRemove s) := by
  unfold ClientOut.flushRemove flushRemove
  rw [h.writeState]
  split_ifs
  · exact h
  · exact ⟨h.out, h.outbufCap, h.write, h.writeBufCap, rfl, h.writeReq, h.closing, h.given,
      h.passed⟩

theorem models_scheduleClientFlush (h : o.Models s) :
    o.scheduleClientFlush.Models (scheduleClientFlush s) := by
  unfold ClientOut.scheduleClientFlush scheduleClientFlush
  rw [h.writeState]
  split_ifs
  · exact h
  · exact ⟨h.out, h.outbufCap, h.write, h.writeBufCap, rfl, h.writeReq, h.closing, h.given,
      h.passed⟩

theorem models_clientFlush (hlive : o.Live) (h : o.Models s) (huv : socks.uvWrite = env.uvWrite)
    (hlimit : 0 ≤ env.uvWrite → o.writeState ≠ .writing → o.outbufLen < 2 ^ 32)
    (hopen : (o.clientFlush env).closing = false) :
    (o.clientFlush env).Models (clientFlush socks s) := by
  have hlen : o.outbufLen = s.conn.outbuf.length := by rw [← hlive.length_out, h.out]
  unfold ClientOut.clientFlush at hopen ⊢
  unfold clientFlush
  rw [← h.writeState, ← hlen]
  by_cases hskip : o.writeState = .closed ∨ o.writeState = .writing ∨ o.outbufLen = 0
  · rw [if_pos hskip, if_pos hskip]
    exact h
  · rw [if_neg hskip] at hopen ⊢
    rw [if_neg hskip]
    push Not at hskip
    by_cases hret : env.uvWrite < 0
    · rw [ClientOut.closing_uvWrite hret] at hopen
      cases hopen
    · have hsent := (ClientOut.sent_eq_iff hlive.toSound).2 (hlimit (not_lt.1 hret) hskip.2.1)
      rw [ClientOut.uvWrite, if_neg hret]
      simp only
      rw [if_neg (by rw [huv]; exact hret)]
      refine ⟨Heap.bytes_zero, h.writeBufCap, h.out, h.outbufCap, rfl, ?_, h.closing, ?_, ?_⟩
      · show (!(o.flights ++ [_]).isEmpty) = true
        simp
      · show o.given = givenBytes (s.trace ++ [.written _])
        rw [givenBytes_append, h.given]
        exact (List.append_nil _).symm
      · show o.passed ++ o.heap.bytes o.outbuf (ClientOut.uvLen o.outbufLen) =
          writtenBytes (s.trace ++ [.written s.conn.outbuf])
        rw [writtenBytes_append, h.passed, hsent, h.out]
        simp [writtenBytes, bytesOf]

/-- With memory, `reserve_buf` reaches the capacity that is needed. -/
theorem reserveBuf_eq (hrealloc : ∀ cap, socks.realloc s.conn cap = true) (need : ℕ) :
    reserveBuf socks s.conn need = some (if s.conn.outbufCap ≥ need then s.conn.outbufCap
      else reserveCap need need (if s.conn.outbufCap ≠ 0 then s.conn.outbufCap else 1024)) := by
  unfold reserveBuf
  by_cases hroom : s.conn.outbufCap ≥ need
  · rw [if_pos hroom, if_pos hroom]
  · rw [if_neg hroom, if_neg hroom]
    exact if_pos (hrealloc _)

theorem models_clientWrite (hlive : o.Live) (h : o.Models s) (hrealloc : env.realloc = true)
    (hsocks : ∀ cap, socks.realloc s.conn cap = true) (huv : socks.uvWrite = env.uvWrite)
    (hlimit : 0 ≤ env.uvWrite → o.writeState ≠ .writing → data ≠ [] →
      socks5FlushSize ≤ o.outbufLen + data.length → o.outbufLen + data.length < 2 ^ 32)
    (hopen : (o.clientWrite env data).closing = false) :
    (o.clientWrite env data).Models (clientWrite socks data s) := by
  have hgiven : ∀ l : List Byte, givenBytes (s.trace ++ [.given l]) = givenBytes s.trace ++ l := by
    intro l
    rw [givenBytes_append]
    simp [givenBytes, bytesOf]
  have hpassed : writtenBytes (s.trace ++ [.given data]) = writtenBytes s.trace := by
    rw [writtenBytes_append]
    exact List.append_nil _
  by_cases hdata : data = []
  · have hzero := List.length_eq_zero_iff.2 hdata
    rw [ClientOut.clientWrite, if_pos (Or.inr hzero), clientWrite, if_pos (Or.inr hzero)]
    refine ⟨h.out, h.outbufCap, h.write, h.writeBufCap, h.writeState, h.writeReq, h.closing, ?_, ?_⟩
    · exact ((hgiven data).trans (congrArg (· ++ data) h.given.symm)).symm
    · exact (hpassed.trans h.passed.symm).symm
  · have hskip : ¬ ((s.log (.given data)).conn.writeState = .closed ∨ data.length = 0) := by
      rw [List.length_eq_zero_iff, not_or]
      exact ⟨h.writeState ▸ hlive.not_closed, hdata⟩
    have hlen : s.conn.outbuf.length = o.outbufLen := by rw [← hlive.length_out, h.out]
    obtain ⟨o', happ, heq⟩ := ClientOut.clientWrite_eq hlive hrealloc hdata
    have hrest := happ.rest
    simp only [Prod.mk.injEq] at hrest
    obtain ⟨hlen', hwcap, hstate, hclosing, hflights, hgave, hgone⟩ := hrest
    rw [clientWrite, if_neg hskip, Socks.log_conn, reserveBuf_eq hsocks, hlen]
    simp only
    -- the data is appended in both
    generalize hcap : (if s.conn.outbufCap ≥ o.outbufLen + data.length then s.conn.outbufCap
      else _) = cap
    have hmodels : o'.Models ((s.log (.given data)).update fun conn =>
        { conn with outbuf := conn.outbuf ++ data, outbufCap := cap }) := by
      refine ⟨happ.out.trans (congrArg (· ++ data) h.out), ?_, happ.write.trans h.write,
        hwcap.trans h.writeBufCap, hstate.trans h.writeState, ?_, hclosing.trans h.closing, ?_, ?_⟩
      · rw [happ.outbufCap, h.outbufCap]
        exact hcap
      · rw [hflights]
        exact h.writeReq
      · exact hgave.trans ((congrArg (· ++ data) h.given).trans (hgiven data).symm)
      · exact hgone.trans (h.passed.trans hpassed.symm)
    have hupdated := @models_updateWgRecvWindowState _ _ socks hmodels
    generalize updateWgRecvWindowState socks _ = s' at hupdated ⊢
    have hsize : s'.conn.outbuf.length = o.outbufLen + data.length := by
      rw [← hupdated.out, happ.live.length_out, hlen']
    rw [heq] at hopen ⊢
    rw [hsize]
    by_cases hflush : o.outbufLen + data.length ≥ socks5FlushSize
    · rw [if_pos hflush] at hopen ⊢
      rw [if_pos hflush]
      refine models_clientFlush (ClientOut.live_flushRemove happ.live) (models_flushRemove hupdated)
        huv (fun hret hidle => ?_) hopen
      rw [ne_eq, ClientOut.writing_flushRemove, hstate] at hidle
      rw [ClientOut.outbufLen_flushRemove, hlen']
      exact hlimit hret hidle hdata hflush
    · rw [if_neg hflush, if_neg hflush]
      exact models_scheduleClientFlush hupdated

theorem flushCheck_eq : flushCheck socks s = clientFlush socks (flushRemove s) := by
  unfold flushCheck flushRemove Socks.update
  by_cases hqueued : s.conn.writeState = .queued
  · simp only [hqueued, ne_eq, not_true_eq_false, if_true, if_false]
  · simp only [hqueued, ne_eq, not_false_eq_true, if_true, if_false]

theorem models_afterWrite {status : ℤ} (hlive : o.Live) (h : o.Models s)
    (hopen : (o.afterWrite status).closing = false) :
    (o.afterWrite status).Models (if status < 0 then socks5ConnClose socks .client s
      else if 0 < (updateWgRecvWindowState socks s).conn.outbuf.length
        then scheduleClientFlush (updateWgRecvWindowState socks s)
      else updateWgRecvWindowState socks s) := by
  have hupdated := @models_updateWgRecvWindowState _ _ socks h
  generalize updateWgRecvWindowState socks s = s' at hupdated ⊢
  have hlen : s'.conn.outbuf.length = o.outbufLen := by rw [← hlive.length_out, hupdated.out]
  unfold ClientOut.afterWrite at hopen ⊢
  by_cases hfailed : status < 0
  · rw [if_pos hfailed, ClientOut.closing_connClose hlive.not_closed] at hopen
    cases hopen
  · rw [if_neg hfailed, if_neg hfailed, hlen]
    split_ifs
    · exact models_scheduleClientFlush hupdated
    · exact hupdated

theorem models_writeDoneCb {status : ℤ} {flights : List Flight} (hsound : o.Sound) (hkept : o.Kept)
    (h : o.Models s) (hnil : flights = [])
    (hopen : ({ o with flights := flights }.writeDoneCb status).closing = false) :
    ({ o with flights := flights }.writeDoneCb status).Models (writeDoneCb socks status s) := by
  obtain ⟨hlive, -⟩ := @ClientOut.live_endWrite { o with flights := flights }
    ⟨hsound.heap_ok, hsound.out_valid, hsound.write_valid, hsound.distinct, hsound.out_cap,
      hsound.write_cap, hsound.out_le, hsound.write_le⟩ hkept hnil
  have hlen : o.outbufLen = s.conn.outbuf.length := by rw [← hsound.length_out, h.out]
  have hreq : (!flights.isEmpty) = false := by rw [hnil]; rfl
  refine models_afterWrite hlive ?_ hopen
  unfold ClientOut.endWrite
  simp only [Socks.update_conn, ← h.outbufCap, ← h.writeBufCap, ← hlen]
  by_cases hswap : o.outbufCap < o.writeBufCap ∧ o.outbufLen = 0
  · -- both buffers are empty
    rw [if_pos hswap, if_pos hswap]
    refine ⟨?_, h.writeBufCap, Heap.bytes_zero, h.outbufCap, rfl, hreq, h.closing, h.given,
      h.passed⟩
    show o.heap.bytes o.writeBuf o.outbufLen = s.conn.outbuf
    rw [hswap.2, Heap.bytes_zero, List.length_eq_zero_iff.1 (hlen.symm.trans hswap.2)]
  · rw [if_neg hswap, if_neg hswap]
    exact ⟨h.out, h.outbufCap, Heap.bytes_zero, h.writeBufCap, rfl, hreq, h.closing, h.given,
      h.passed⟩

/-- **The buffers refine the lists.**  A step that stays below the limit and does not close the
connection does to what the buffers hold what the functions on lists say. -/
theorem models_clientOutStep {e : ClientOutEnv × ClientOutEvent} (hlive : o.Live) (hkept : o.Kept)
    (h : o.Models s) (hrealloc : e.1.realloc = true)
    (hsocks : ∀ cap, socks.realloc s.conn cap = true) (huv : socks.uvWrite = e.1.uvWrite)
    (hbelow : o.BelowUvLimit e) (hopen : (clientOutStep o e).closing = false) :
    (clientOutStep o e).Models (socksWrite socks s e.2) := by
  have hbefore : o.closing = false := by
    cases hclosing : o.closing with
    | false => rfl
    | true =>
      rw [closing_clientOutStep hclosing] at hopen
      cases hopen
  obtain ⟨env, event⟩ := e
  cases event with
  | write data => exact models_clientWrite hlive h hrealloc hsocks huv (hbelow hbefore) hopen
  | check =>
    show (o.flushCheck env).Models (flushCheck socks s)
    have hflush : (o.flushCheck env).closing = false := hopen
    rw [ClientOut.flushCheck_eq] at hflush ⊢
    rw [flushCheck_eq]
    refine models_clientFlush (ClientOut.live_flushRemove hlive) (models_flushRemove h) huv
      (fun hret hidle => ?_) hflush
    rw [ne_eq, ClientOut.writing_flushRemove] at hidle
    rw [ClientOut.outbufLen_flushRemove]
    exact hbelow hbefore hret hidle
  | flush => exact models_clientFlush hlive h huv (hbelow hbefore) hopen
  | done status =>
    have hreq := h.writeReq
    have hflights := hlive.flights_eq
    unfold clientOutStep at hopen ⊢
    unfold socksWrite
    simp only at hopen ⊢
    cases hf : o.flights with
    | nil =>
      rw [hf] at hreq
      rw [if_neg (by rw [← hreq]; nofun)]
      exact h
    | cons f flights =>
      rw [hf] at hreq hflights hopen
      rw [if_pos (show s.conn.writeReq = true from hreq.symm)]
      refine models_writeDoneCb hlive.toSound hkept h ?_ hopen
      split_ifs at hflights
      cases hflights
      rfl

end Lists

end Wgx
