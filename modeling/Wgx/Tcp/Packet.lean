import Wgx.Lib.Checksum
import Wgx.Tcp.Input

/-!
# Packets of the TCP stack (`tcpstack.c`)

* `ipPacket`: the bytes that `send_segment` writes around a segment, for both families, with the
  checksums of `cksum_add` and `cksum_fold`;
* `decodePacket`: how `tcpstack_input` reads the headers of a packet;
* `packet_well_formed`: the lengths agree, the checksums verify, and the packet is read as it was
  meant.
-/

namespace Wgx

open Checksum

/-! ### Checksums -/

/-- `cksum_add`. -/
def cksumAdd : List Byte → BitVec 32 → BitVec 32
  | hi :: lo :: rest, sum => cksumAdd rest (sum + BitVec.ofNat 32 (256 * hi.toNat + lo.toNat))
  | [last], sum => sum + BitVec.ofNat 32 (256 * last.toNat)
  | [], sum => sum

/-- `cksum_fold`, before the conversion to network byte order. -/
def cksumFold (sum : BitVec 32) : ℕ := 65535 - fold sum.toNat

/-! ### Building -/

/-- The address families of a connection. -/
inductive Family
  | inet
  | inet6
  deriving DecidableEq

/-- The addresses and ports of a `tcp_conn_t`. -/
structure ConnAddr where
  family : Family
  localIp : InAddr
  remoteIp : InAddr
  localIp6 : In6Addr
  remoteIp6 : In6Addr
  localPort : BitVec 16
  remotePort : BitVec 16
  deriving DecidableEq

/-- `TCPF_FIN` … `TCPF_ACK`. -/
def Flags.toByte (flags : Flags) : Byte :=
  BitVec.ofNat 8 ((if flags.fin then 1 else 0) + (if flags.syn then 2 else 0) +
    (if flags.rst then 4 else 0) + (if flags.psh then 8 else 0) + if flags.ack then 16 else 0)

/-- The options of a segment: MSS, SACK permitted and window scale with a SYN, else the SACK
blocks. -/
def Segment.options (seg : Segment) : List Byte :=
  if seg.flags.syn then
    [2, 4] ++ beBytes 2 wgTcpMss ++ [4, 2, 1, 3, 3, BitVec.ofNat 8 wgTcpWindowScale, 1, 1]
  else if seg.sack.length = 0 then []
  else [1, 1, 5, BitVec.ofNat 8 (2 + seg.sack.length * 8)] ++
    seg.sack.flatMap fun block => beBytes 4 block.1.toNat ++ beBytes 4 block.2.toNat

/-- `tcp_hdr_len`. -/
def Segment.hdrLen (seg : Segment) : ℕ := 20 + seg.options.length

section Build

variable (addr : ConnAddr) (seg : Segment)

/-- The TCP segment with the checksum still zero: the fixed header up to the window, the checksum
and the urgent pointer, the options and the data. -/
def tcpBytes : List Byte :=
  (beBytes 2 addr.localPort.toNat ++ beBytes 2 addr.remotePort.toNat ++ beBytes 4 seg.seq.toNat ++
    beBytes 4 seg.ack.toNat ++ [BitVec.ofNat 8 (seg.hdrLen / 4 * 16), seg.flags.toByte] ++
    beBytes 2 seg.window) ++ [0, 0] ++ ([0, 0] ++ seg.options ++ seg.data)

/-- The pseudo header of `tcp4_checksum` and `tcp6_checksum`. -/
def pseudoHeader (tcpLen : ℕ) : List Byte :=
  match addr.family with
  | .inet => addr.localIp.toList ++ addr.remoteIp.toList ++ [0, 6] ++ beBytes 2 tcpLen
  | .inet6 =>
    addr.localIp6.toList ++ addr.remoteIp6.toList ++ beBytes 4 tcpLen ++ [0, 0, 0, 6]

/-- `tcp4_checksum` and `tcp6_checksum`. -/
def tcpChecksum (tcp : List Byte) : ℕ :=
  cksumFold (cksumAdd tcp (cksumAdd (pseudoHeader addr tcp.length) 0))

/-- The TCP segment that is sent. -/
def tcpSegment : List Byte :=
  writeAt (tcpBytes addr seg) 16 (beBytes 2 (tcpChecksum addr (tcpBytes addr seg)))

/-- The IPv4 header for a segment of `tcpLen` bytes, with the checksum still zero. -/
def ip4Bytes (tcpLen : ℕ) : List Byte :=
  ([0x45, 0] ++ beBytes 2 (20 + tcpLen) ++ [0, 0, 0x40, 0, 64, 6]) ++ [0, 0] ++
    (addr.localIp.toList ++ addr.remoteIp.toList)

/-- The IP header for a segment of `tcpLen` bytes. -/
def ipHeader (tcpLen : ℕ) : List Byte :=
  match addr.family with
  | .inet => writeAt (ip4Bytes addr tcpLen) 10
      (beBytes 2 (cksumFold (cksumAdd (ip4Bytes addr tcpLen) 0)))
  | .inet6 => [0x60, 0, 0, 0] ++ beBytes 2 tcpLen ++ [6, 64] ++ addr.localIp6.toList ++
      addr.remoteIp6.toList

/-- `send_segment`: the packet around a segment. -/
def ipPacket : List Byte :=
  ipHeader addr (seg.hdrLen + seg.data.length) ++ tcpSegment addr seg

end Build

/-! ### Reading -/

/-- `n` bytes at an offset, copied into an address. -/
def addrAt (n : ℕ) (bs : List Byte) (off : ℕ) : Vector Byte n :=
  Vector.ofFn fun i => bs.getD (off + i) 0

/-- The number in the `n` bytes at an offset. -/
def fieldAt (n : ℕ) (bs : List Byte) (off : ℕ) : ℕ := beWord ((bs.drop off).take n)

/-- The flags of a byte. -/
def Flags.ofByte (b : Byte) : Flags where
  fin := b.getLsbD 0
  syn := b.getLsbD 1
  rst := b.getLsbD 2
  psh := b.getLsbD 3
  ack := b.getLsbD 4

/-- The addresses of the stack: `local_ip`, and `local_ip6` if it is set. -/
structure StackAddr where
  localIp : InAddr
  localIp6 : Option In6Addr

/-- What `tcpstack_input` reads from a packet.  The addresses of the other family are zero. -/
structure Decoded where
  family : Family
  srcIp : InAddr
  dstIp : InAddr
  srcIp6 : In6Addr
  dstIp6 : In6Addr
  srcPort : BitVec 16
  dstPort : BitVec 16
  seg : Inbound
  deriving DecidableEq

/-- The TCP header and what follows in a segment of `tcpLen` bytes: the ports and the segment. -/
def decodeTcp (tcp : List Byte) (tcpLen : ℕ) : Option (BitVec 16 × BitVec 16 × Inbound) :=
  let dataOff := (tcp.getD 12 0 >>> 4).toNat * 4
  if dataOff < 20 ∨ dataOff > tcpLen then none
  else some (BitVec.ofNat 16 (fieldAt 2 tcp 0), BitVec.ofNat 16 (fieldAt 2 tcp 2), {
    flags := Flags.ofByte (tcp.getD 13 0)
    seq := BitVec.ofNat 32 (fieldAt 4 tcp 4)
    ack := BitVec.ofNat 32 (fieldAt 4 tcp 8)
    window := BitVec.ofNat 16 (fieldAt 2 tcp 14)
    options := (tcp.drop 20).take (dataOff - 20)
    payload := (tcp.drop dataOff).take (tcpLen - dataOff) })

/-- The header decoding of `tcpstack_input`; `none` where it returns. -/
def decodePacket (stack : StackAddr) (pkt : List Byte) : Option Decoded :=
  if pkt.length < 40 then none
  else if (pkt.getD 0 0 >>> 4).toNat = 6 then
    if pkt.length < 40 + 20 then none
    else if pkt.getD 6 0 ≠ 6 then none
    else
      let tcpLen := fieldAt 2 pkt 4
      if 40 + tcpLen > pkt.length ∨ tcpLen < 20 then none
      else if stack.localIp6 ≠ some (addrAt 16 pkt 24) then none
      else (decodeTcp (pkt.drop 40) tcpLen).map fun (srcPort, dstPort, seg) =>
        ⟨.inet6, Vector.replicate 4 0, Vector.replicate 4 0, addrAt 16 pkt 8, addrAt 16 pkt 24,
          srcPort, dstPort, seg⟩
  else if (pkt.getD 0 0 >>> 4).toNat = 4 then
    let ihl := (pkt.getD 0 0 &&& 0x0f#8).toNat * 4
    if ihl < 20 ∨ ihl > pkt.length then none
    else if pkt.getD 9 0 ≠ 6 then none
    else
      let ipTotal := fieldAt 2 pkt 2
      if ipTotal > pkt.length then none
      else if addrAt 4 pkt 16 ≠ stack.localIp then none
      else
        -- `tcp_len` is a `size_t` and wraps if the total length is below the header length
        let tcpLen := (ipTotal + 2 ^ 64 - ihl) % 2 ^ 64
        if tcpLen < 20 then none
        else (decodeTcp (pkt.drop ihl) tcpLen).map fun (srcPort, dstPort, seg) =>
          ⟨.inet, addrAt 4 pkt 12, addrAt 4 pkt 16, Vector.replicate 16 0, Vector.replicate 16 0,
            srcPort, dstPort, seg⟩
  else none

/-! ### The checksums verify -/

section Checksums

variable {addr : ConnAddr} {seg : Segment} {bs : List Byte} {sum : BitVec 32} {n : ℕ}

/-- The 32-bit accumulator does not overflow on a packet. -/
theorem toNat_cksumAdd (h : sum.toNat + wordSum bs < 2 ^ 32) :
    (cksumAdd bs sum).toNat = sum.toNat + wordSum bs := by
  induction bs using wordSum.induct generalizing sum with
  | case1 hi lo rest ih =>
    have hsum : wordSum (hi :: lo :: rest) = 256 * hi.toNat + lo.toNat + wordSum rest := rfl
    have hword : (sum + BitVec.ofNat 32 (256 * hi.toNat + lo.toNat)).toNat =
        sum.toNat + (256 * hi.toNat + lo.toNat) := by
      rw [BitVec.toNat_add, BitVec.toNat_ofNat, Nat.add_mod_mod, Nat.mod_eq_of_lt (by omega)]
    rw [cksumAdd, ih (by rw [hword]; omega), hword, hsum]
    omega
  | case2 last =>
    have hsum : wordSum [last] = 256 * last.toNat := rfl
    rw [cksumAdd, BitVec.toNat_add, BitVec.toNat_ofNat, Nat.add_mod_mod, hsum,
      Nat.mod_eq_of_lt (by omega)]
  | case3 => rfl

theorem cksumFold_eq (h : bs.length < 2 ^ 16) :
    cksumFold (cksumAdd bs 0) = 65535 - onesSum bs := by
  have hle := wordSum_le bs
  have hzero : (0 : BitVec 32).toNat = 0 := rfl
  rw [cksumFold, toNat_cksumAdd (by rw [hzero]; omega), hzero, Nat.zero_add, onesSum]

theorem length_pseudoHeader : (pseudoHeader addr n).length % 2 = 0 ∧
    (pseudoHeader addr n).length ≤ 40 := by
  unfold pseudoHeader
  cases addr.family <;> simp

theorem tcpChecksum_eq (h : bs.length < 2 ^ 16) :
    tcpChecksum addr bs = 65535 - onesSum (pseudoHeader addr bs.length ++ bs) := by
  obtain ⟨heven, hshort⟩ := @length_pseudoHeader addr bs.length
  have hle := wordSum_le bs
  have hle' := wordSum_le (pseudoHeader addr bs.length)
  have hzero : (0 : BitVec 32).toNat = 0 := rfl
  have hpseudo : (cksumAdd (pseudoHeader addr bs.length) 0).toNat =
      wordSum (pseudoHeader addr bs.length) := by
    rw [toNat_cksumAdd (by rw [hzero]; omega), hzero, Nat.zero_add]
  rw [tcpChecksum, cksumFold, toNat_cksumAdd (by rw [hpseudo]; omega), hpseudo, onesSum,
    wordSum_append heven]

/-! ### Lengths -/

@[simp] theorem length_tcpBytes : (tcpBytes addr seg).length = seg.hdrLen + seg.data.length := by
  simp only [tcpBytes, Segment.hdrLen, List.length_append, length_beBytes, List.length_cons,
    List.length_nil]
  omega

theorem length_writeAt {bs src : List Byte} {off : ℕ} (h : off + src.length ≤ bs.length) :
    (writeAt bs off src).length = bs.length := by
  simp only [writeAt, List.length_append, List.length_take, List.length_drop]
  omega

@[simp] theorem length_tcpSegment :
    (tcpSegment addr seg).length = seg.hdrLen + seg.data.length := by
  rw [tcpSegment, length_writeAt, length_tcpBytes]
  rw [length_tcpBytes, length_beBytes, Segment.hdrLen]
  omega

/-- `ip_hdr_len`. -/
def ConnAddr.ipHdrLen (addr : ConnAddr) : ℕ :=
  match addr.family with
  | .inet => 20
  | .inet6 => 40

theorem length_ipHeader : (ipHeader addr n).length = addr.ipHdrLen := by
  unfold ipHeader ConnAddr.ipHdrLen
  cases addr.family with
  | inet =>
    have hlen : (ip4Bytes addr n).length = 20 := by
      simp [ip4Bytes]
    simp only
    rw [length_writeAt, hlen]
    rw [hlen, length_beBytes]
    omega
  | inet6 => simp

@[simp] theorem length_ipPacket :
    (ipPacket addr seg).length = addr.ipHdrLen + (seg.hdrLen + seg.data.length) := by
  rw [ipPacket, List.length_append, length_ipHeader, length_tcpSegment]

/-! ### Verification -/

theorem onesSum_ipHeader (h : addr.family = .inet) : onesSum (ipHeader addr n) = 0xffff := by
  have hlen : (ip4Bytes addr n).length = 20 := by
    simp [ip4Bytes]
  unfold ipHeader
  rw [h]
  simp only
  rw [cksumFold_eq (by omega)]
  exact onesSum_writeAt (a := [0x45, 0] ++ beBytes 2 (20 + n) ++ [0, 0, 0x40, 0, 64, 6]) (by simp)

theorem onesSum_tcpSegment (h : seg.hdrLen + seg.data.length < 2 ^ 16) :
    onesSum (pseudoHeader addr (tcpSegment addr seg).length ++ tcpSegment addr seg) = 0xffff := by
  have heven := (@length_pseudoHeader addr (seg.hdrLen + seg.data.length)).1
  rw [length_tcpSegment, tcpSegment, tcpChecksum_eq (by rw [length_tcpBytes]; exact h),
    length_tcpBytes]
  generalize pseudoHeader addr (seg.hdrLen + seg.data.length) = pseudo at heven ⊢
  unfold tcpBytes
  generalize hhead : (beBytes 2 addr.localPort.toNat ++ beBytes 2 addr.remotePort.toNat ++
    beBytes 4 seg.seq.toNat ++ beBytes 4 seg.ack.toNat ++
    [BitVec.ofNat 8 (seg.hdrLen / 4 * 16), seg.flags.toByte] ++ beBytes 2 seg.window) = head
  have hlen : head.length = 16 := by
    rw [← hhead]
    simp
  generalize [0, 0] ++ seg.options ++ seg.data = rest
  have hwhole := @onesSum_writeAt (pseudo ++ head) rest (by rw [List.length_append]; omega)
  rw [@writeAt_append (pseudo ++ head) [0, 0] rest _ (length_beBytes 2 _).symm] at hwhole
  rw [← hlen, @writeAt_append head [0, 0] rest _ (length_beBytes 2 _).symm]
  simp only [List.append_assoc] at hwhole ⊢
  exact hwhole

end Checksums

/-! ### Reading what was written -/

section Reading

variable {addr : ConnAddr} {seg : Segment} {n : ℕ}

theorem ofByte_toByte (flags : Flags) : Flags.ofByte flags.toByte = flags := by
  obtain ⟨fin, syn, rst, psh, ack⟩ := flags
  revert fin syn rst psh ack
  decide

theorem addrAt_append (v : Vector Byte n) (a c : List Byte) {off : ℕ} (hoff : a.length = off) :
    addrAt n (a ++ v.toList ++ c) off = v := by
  subst hoff
  refine Vector.ext fun i hi => ?_
  have hget : (a ++ v.toList ++ c).getD (a.length + i) 0 = v[i] := by
    rw [List.append_assoc, List.getD_eq_getElem?_getD, List.getElem?_append_right (by omega),
      Nat.add_sub_cancel_left, List.getElem?_append_left (by simpa using hi)]
    simp [hi]
  simpa [addrAt] using hget

/-- The options fill whole words, and the header fits its length field. -/
structure Segment.Shaped (seg : Segment) : Prop where
  sack : seg.sack.length ≤ wgTcpMaxSackBlocks
  window : seg.window < 2 ^ 16

theorem shaped_segmentOf (env : TcpEnv) (conn : Conn) (flags : Flags) (seq ack : Seq)
    (data : List Byte) : (segmentOf env conn flags seq ack data).Shaped := by
  refine ⟨?_, ?_⟩
  · show (sackBlocks conn flags data.length).length ≤ _
    unfold sackBlocks
    split_ifs
    · rw [List.length_map]
      exact List.length_take_le _ _
    · exact Nat.zero_le _
  · show advertisedWindow env conn flags.syn < _
    have hwindow : wgTcpWindow < 2 ^ 16 := by decide
    unfold advertisedWindow
    simp only
    split_ifs <;> omega

theorem length_sackBytes (blocks : List (Seq × Seq)) :
    (blocks.flatMap fun block => beBytes 4 block.1.toNat ++ beBytes 4 block.2.toNat).length =
      blocks.length * 8 := by
  induction blocks with
  | nil => rfl
  | cons block blocks ih =>
    rw [List.flatMap_cons, List.length_append, ih, List.length_append, length_beBytes,
      length_beBytes, List.length_cons]
    omega

/-- `tcp_opts_len`. -/
theorem length_options : seg.options.length =
    if seg.flags.syn then 12 else if seg.sack.length = 0 then 0 else 4 + seg.sack.length * 8 := by
  unfold Segment.options
  split_ifs
  · simp
  · rfl
  · rw [List.length_append, length_sackBytes]
    rfl

theorem hdrLen_spec (h : seg.Shaped) : seg.hdrLen ≤ 48 ∧ seg.hdrLen % 4 = 0 := by
  have hsack : seg.sack.length ≤ 3 := h.sack
  rw [Segment.hdrLen, length_options]
  split_ifs <;> omega

/-- The segment as it is meant to be received. -/
def Segment.inbound (seg : Segment) : Inbound where
  flags := seg.flags
  seq := seg.seq
  ack := seg.ack
  window := BitVec.ofNat 16 seg.window
  options := seg.options
  payload := seg.data

theorem length_eq_four {bs : List Byte} (h : bs.length = 4) : ∃ a b c d, bs = [a, b, c, d] := by
  match bs, h with
  | [a, b, c, d], _ => exact ⟨a, b, c, d, rfl⟩

/-- The bytes of a segment, the first twenty one by one. -/
theorem tcpSegment_eq : ∃ p₀ p₁ q₀ q₁ s₀ s₁ s₂ s₃ a₀ a₁ a₂ a₃ w₀ w₁ c₀ c₁ : Byte,
    beBytes 2 addr.localPort.toNat = [p₀, p₁] ∧ beBytes 2 addr.remotePort.toNat = [q₀, q₁] ∧
    beBytes 4 seg.seq.toNat = [s₀, s₁, s₂, s₃] ∧ beBytes 4 seg.ack.toNat = [a₀, a₁, a₂, a₃] ∧
    beBytes 2 seg.window = [w₀, w₁] ∧ tcpSegment addr seg =
      [p₀, p₁, q₀, q₁, s₀, s₁, s₂, s₃, a₀, a₁, a₂, a₃, BitVec.ofNat 8 (seg.hdrLen / 4 * 16),
        seg.flags.toByte, w₀, w₁, c₀, c₁, 0, 0] ++ (seg.options ++ seg.data) := by
  obtain ⟨p₀, p₁, hp⟩ := List.length_eq_two.1 (length_beBytes 2 addr.localPort.toNat)
  obtain ⟨q₀, q₁, hq⟩ := List.length_eq_two.1 (length_beBytes 2 addr.remotePort.toNat)
  obtain ⟨s₀, s₁, s₂, s₃, hs⟩ := length_eq_four (length_beBytes 4 seg.seq.toNat)
  obtain ⟨a₀, a₁, a₂, a₃, ha⟩ := length_eq_four (length_beBytes 4 seg.ack.toNat)
  obtain ⟨w₀, w₁, hw⟩ := List.length_eq_two.1 (length_beBytes 2 seg.window)
  obtain ⟨c₀, c₁, hc⟩ := List.length_eq_two.1
    (length_beBytes 2 (tcpChecksum addr (tcpBytes addr seg)))
  refine ⟨p₀, p₁, q₀, q₁, s₀, s₁, s₂, s₃, a₀, a₁, a₂, a₃, w₀, w₁, c₀, c₁, hp, hq, hs, ha, hw, ?_⟩
  rw [tcpSegment, hc, tcpBytes, hp, hq, hs, ha, hw]
  exact @writeAt_append [p₀, p₁, q₀, q₁, s₀, s₁, s₂, s₃, a₀, a₁, a₂, a₃,
    BitVec.ofNat 8 (seg.hdrLen / 4 * 16), seg.flags.toByte, w₀, w₁] [0, 0]
    ([0, 0] ++ seg.options ++ seg.data) [c₀, c₁] rfl

theorem ofNat_beWord_beBytes {w n : ℕ} (x : BitVec w) (h : 2 ^ w = 256 ^ n) :
    BitVec.ofNat w (beWord (beBytes n x.toNat)) = x := by
  rw [beWord_beBytes_of_lt (h ▸ x.isLt), BitVec.ofNat_toNat, BitVec.setWidth_eq]

/-- The data offset is read back. -/
theorem dataOff_eq (h : seg.Shaped) :
    (BitVec.ofNat 8 (seg.hdrLen / 4 * 16) >>> 4).toNat * 4 = seg.hdrLen := by
  obtain ⟨hle, hmod⟩ := hdrLen_spec h
  rw [BitVec.toNat_ushiftRight, BitVec.toNat_ofNat, Nat.shiftRight_eq_div_pow]
  omega

/-- The TCP header is read as it was written. -/
theorem decodeTcp_tcpSegment (h : seg.Shaped) :
    decodeTcp (tcpSegment addr seg) (seg.hdrLen + seg.data.length) =
      some (addr.localPort, addr.remotePort, seg.inbound) := by
  obtain ⟨p₀, p₁, q₀, q₁, s₀, s₁, s₂, s₃, a₀, a₁, a₂, a₃, w₀, w₁, c₀, c₁, hp, hq, hs, ha, hw,
    heq⟩ := @tcpSegment_eq addr seg
  have hoff : ((tcpSegment addr seg).getD 12 0 >>> 4).toNat * 4 = seg.hdrLen := by
    rw [heq]
    exact dataOff_eq h
  have hhdr : seg.hdrLen = 20 + seg.options.length := rfl
  have hrest : (tcpSegment addr seg).drop 20 = seg.options ++ seg.data := by
    rw [heq]
    rfl
  have hdata : (tcpSegment addr seg).drop seg.hdrLen = seg.data := by
    rw [hhdr, ← List.drop_drop, hrest, List.drop_left]
  have hports : fieldAt 2 (tcpSegment addr seg) 0 = beWord (beBytes 2 addr.localPort.toNat) ∧
      fieldAt 2 (tcpSegment addr seg) 2 = beWord (beBytes 2 addr.remotePort.toNat) := by
    rw [heq, hp, hq]
    exact ⟨rfl, rfl⟩
  have hnums : fieldAt 4 (tcpSegment addr seg) 4 = beWord (beBytes 4 seg.seq.toNat) ∧
      fieldAt 4 (tcpSegment addr seg) 8 = beWord (beBytes 4 seg.ack.toNat) ∧
      fieldAt 2 (tcpSegment addr seg) 14 = beWord (beBytes 2 seg.window) := by
    rw [heq, hs, ha, hw]
    exact ⟨rfl, rfl, rfl⟩
  have hflags : (tcpSegment addr seg).getD 13 0 = seg.flags.toByte := by
    rw [heq]
    rfl
  rw [decodeTcp, hoff, if_neg (by omega), hports.1, hports.2, hnums.1, hnums.2.1, hnums.2.2,
    hflags, hrest, hdata, ofByte_toByte, ofNat_beWord_beBytes _ (by rfl), ofNat_beWord_beBytes _ (by rfl),
    ofNat_beWord_beBytes _ (by rfl), ofNat_beWord_beBytes _ (by rfl),
    beWord_beBytes_of_lt (show seg.window < 256 ^ 2 from h.window), hhdr, Nat.add_sub_cancel_left,
    List.take_left, Nat.add_sub_cancel_left, List.take_length]
  rfl

/-- What the receiver of a packet is meant to read. -/
def ConnAddr.decoded (addr : ConnAddr) (seg : Segment) : Decoded :=
  match addr.family with
  | .inet => ⟨.inet, addr.localIp, addr.remoteIp, Vector.replicate 16 0, Vector.replicate 16 0,
      addr.localPort, addr.remotePort, seg.inbound⟩
  | .inet6 => ⟨.inet6, Vector.replicate 4 0, Vector.replicate 4 0, addr.localIp6, addr.remoteIp6,
      addr.localPort, addr.remotePort, seg.inbound⟩

/-- The stack at the remote end of a connection. -/
def ConnAddr.ReachesStack (addr : ConnAddr) (stack : StackAddr) : Prop :=
  match addr.family with
  | .inet => stack.localIp = addr.remoteIp
  | .inet6 => stack.localIp6 = some addr.remoteIp6

theorem ipHeader_inet (hfam : addr.family = .inet) : ∃ t₀ t₁ c₀ c₁ : Byte,
    beBytes 2 (20 + n) = [t₀, t₁] ∧ ipHeader addr n =
      [0x45, 0, t₀, t₁, 0, 0, 0x40, 0, 64, 6, c₀, c₁] ++
        (addr.localIp.toList ++ addr.remoteIp.toList) := by
  obtain ⟨t₀, t₁, ht⟩ := List.length_eq_two.1 (length_beBytes 2 (20 + n))
  obtain ⟨c₀, c₁, hc⟩ := List.length_eq_two.1
    (length_beBytes 2 (cksumFold (cksumAdd (ip4Bytes addr n) 0)))
  refine ⟨t₀, t₁, c₀, c₁, ht, ?_⟩
  unfold ipHeader
  rw [hfam]
  simp only
  rw [hc, ip4Bytes, ht]
  exact @writeAt_append [0x45, 0, t₀, t₁, 0, 0, 0x40, 0, 64, 6] [0, 0]
    (addr.localIp.toList ++ addr.remoteIp.toList) [c₀, c₁] rfl

theorem ipHeader_inet6 (hfam : addr.family = .inet6) : ∃ t₀ t₁ : Byte,
    beBytes 2 n = [t₀, t₁] ∧ ipHeader addr n =
      [0x60, 0, 0, 0, t₀, t₁, 6, 64] ++ (addr.localIp6.toList ++ addr.remoteIp6.toList) := by
  obtain ⟨t₀, t₁, ht⟩ := List.length_eq_two.1 (length_beBytes 2 n)
  refine ⟨t₀, t₁, ht, ?_⟩
  unfold ipHeader
  rw [hfam]
  simp only
  rw [ht, List.append_assoc]
  rfl

theorem decodePacket_inet {stack : StackAddr} (hfam : addr.family = .inet) (h : seg.Shaped)
    (hlen : seg.hdrLen + seg.data.length + 20 < 2 ^ 16) (hstack : stack.localIp = addr.remoteIp) :
    decodePacket stack (ipPacket addr seg) = some (addr.decoded seg) := by
  obtain ⟨t₀, t₁, c₀, c₁, ht, hhdr⟩ := @ipHeader_inet addr (seg.hdrLen + seg.data.length) hfam
  have hsize : (ipPacket addr seg).length = 20 + (seg.hdrLen + seg.data.length) := by
    rw [length_ipPacket, ConnAddr.ipHdrLen, hfam]
  have hmin : 20 ≤ seg.hdrLen := Nat.le_add_right _ _
  have hdrop : (ipPacket addr seg).drop 20 = tcpSegment addr seg := by
    refine List.drop_left' ?_
    rw [length_ipHeader, ConnAddr.ipHdrLen, hfam]
  have hfields : (ipPacket addr seg).getD 0 0 = 0x45 ∧ (ipPacket addr seg).getD 9 0 = 6 ∧
      fieldAt 2 (ipPacket addr seg) 2 = 20 + (seg.hdrLen + seg.data.length) := by
    rw [ipPacket, hhdr]
    refine ⟨rfl, rfl, ?_⟩
    rw [← beWord_beBytes_of_lt (show 20 + (seg.hdrLen + seg.data.length) < 256 ^ 2 by omega), ht]
    rfl
  have hsrc : addrAt 4 (ipPacket addr seg) 12 = addr.localIp := by
    have happ := addrAt_append addr.localIp [0x45, 0, t₀, t₁, 0, 0, 0x40, 0, 64, 6, c₀, c₁]
      (addr.remoteIp.toList ++ tcpSegment addr seg) (show _ = 12 from rfl)
    rw [ipPacket, hhdr]
    simpa only [List.append_assoc] using happ
  have hdst : addrAt 4 (ipPacket addr seg) 16 = addr.remoteIp := by
    have happ := addrAt_append addr.remoteIp
      ([0x45, 0, t₀, t₁, 0, 0, 0x40, 0, 64, 6, c₀, c₁] ++ addr.localIp.toList)
      (tcpSegment addr seg) (show _ = 16 by simp)
    rw [ipPacket, hhdr]
    simpa only [List.append_assoc] using happ
  have hversion : ((0x45 : Byte) >>> 4).toNat = 4 := by decide
  have hihl : ((0x45 : Byte) &&& 0x0f#8).toNat * 4 = 20 := by decide
  have hwrap : (20 + (seg.hdrLen + seg.data.length) + 2 ^ 64 - 20) % 2 ^ 64 =
      seg.hdrLen + seg.data.length := by
    omega
  rw [decodePacket, if_neg (by omega), hfields.1, hversion, if_neg (by decide), if_pos rfl]
  simp only
  rw [hihl, if_neg (by omega), if_neg (by rw [hfields.2.1]; decide), hfields.2.2,
    if_neg (by omega), hdst, if_neg (by rw [hstack]; exact fun hno => hno rfl), hwrap,
    if_neg (by omega), hdrop, decodeTcp_tcpSegment h, hsrc, ConnAddr.decoded, hfam]
  rfl

theorem decodePacket_inet6 {stack : StackAddr} (hfam : addr.family = .inet6) (h : seg.Shaped)
    (hlen : seg.hdrLen + seg.data.length + 40 < 2 ^ 16)
    (hstack : stack.localIp6 = some addr.remoteIp6) :
    decodePacket stack (ipPacket addr seg) = some (addr.decoded seg) := by
  obtain ⟨t₀, t₁, ht, hhdr⟩ := @ipHeader_inet6 addr (seg.hdrLen + seg.data.length) hfam
  have hsize : (ipPacket addr seg).length = 40 + (seg.hdrLen + seg.data.length) := by
    rw [length_ipPacket, ConnAddr.ipHdrLen, hfam]
  have hmin : 20 ≤ seg.hdrLen := Nat.le_add_right _ _
  have hdrop : (ipPacket addr seg).drop 40 = tcpSegment addr seg := by
    refine List.drop_left' ?_
    rw [length_ipHeader, ConnAddr.ipHdrLen, hfam]
  have hfields : (ipPacket addr seg).getD 0 0 = 0x60 ∧ (ipPacket addr seg).getD 6 0 = 6 ∧
      fieldAt 2 (ipPacket addr seg) 4 = seg.hdrLen + seg.data.length := by
    rw [ipPacket, hhdr]
    refine ⟨rfl, rfl, ?_⟩
    rw [← beWord_beBytes_of_lt (show seg.hdrLen + seg.data.length < 256 ^ 2 by omega), ht]
    rfl
  have hsrc : addrAt 16 (ipPacket addr seg) 8 = addr.localIp6 := by
    have happ := addrAt_append addr.localIp6 [0x60, 0, 0, 0, t₀, t₁, 6, 64]
      (addr.remoteIp6.toList ++ tcpSegment addr seg) (show _ = 8 from rfl)
    rw [ipPacket, hhdr]
    simpa only [List.append_assoc] using happ
  have hdst : addrAt 16 (ipPacket addr seg) 24 = addr.remoteIp6 := by
    have happ := addrAt_append addr.remoteIp6
      ([0x60, 0, 0, 0, t₀, t₁, 6, 64] ++ addr.localIp6.toList) (tcpSegment addr seg)
      (show _ = 24 by simp)
    rw [ipPacket, hhdr]
    simpa only [List.append_assoc] using happ
  have hversion : ((0x60 : Byte) >>> 4).toNat = 6 := by decide
  rw [decodePacket, if_neg (by omega), hfields.1, hversion, if_pos rfl, if_neg (by omega),
    if_neg (by rw [hfields.2.1]; decide)]
  simp only
  rw [hfields.2.2, if_neg (by omega), hdst, if_neg (by rw [hstack]; exact fun hno => hno rfl),
    hdrop, decodeTcp_tcpSegment h, hsrc, ConnAddr.decoded, hfam]
  rfl

/-- The lengths of a packet agree, its checksums verify, and the stack at the remote end reads what
was meant. -/
structure WellFormed (addr : ConnAddr) (seg : Segment) (pkt : List Byte) : Prop where
  ipLength : match addr.family with
    | .inet => fieldAt 2 pkt 2 = pkt.length
    | .inet6 => 40 + fieldAt 2 pkt 4 = pkt.length
  dataOffset : addr.ipHdrLen + (pkt.getD (addr.ipHdrLen + 12) 0 >>> 4).toNat * 4 +
    seg.data.length = pkt.length
  headerSum : addr.family = .inet → onesSum (pkt.take 20) = 0xffff
  tcpSum : onesSum (pseudoHeader addr (pkt.length - addr.ipHdrLen) ++ pkt.drop addr.ipHdrLen) =
    0xffff
  decoded : ∀ stack, addr.ReachesStack stack → decodePacket stack pkt = some (addr.decoded seg)

theorem wellFormed_ipPacket (h : seg.Shaped) (hlen : seg.data.length ≤ wgTcpMss) :
    WellFormed addr seg (ipPacket addr seg) := by
  have hmss : wgTcpMss = 1380 := rfl
  have hhdr := (hdrLen_spec h).1
  have hipLen : addr.ipHdrLen ≤ 40 := by
    unfold ConnAddr.ipHdrLen
    cases addr.family <;> simp
  have htake : (ipPacket addr seg).take addr.ipHdrLen =
      ipHeader addr (seg.hdrLen + seg.data.length) := List.take_left' length_ipHeader
  have hdrop : (ipPacket addr seg).drop addr.ipHdrLen = tcpSegment addr seg :=
    List.drop_left' length_ipHeader
  refine ⟨?_, ?_, fun hfam => ?_, ?_, fun stack hstack => ?_⟩
  · cases hfam : addr.family with
    | inet =>
      obtain ⟨t₀, t₁, c₀, c₁, ht, heq⟩ := @ipHeader_inet addr (seg.hdrLen + seg.data.length) hfam
      rw [length_ipPacket, ConnAddr.ipHdrLen, hfam, ipPacket, heq]
      simp only
      rw [← beWord_beBytes_of_lt (show 20 + (seg.hdrLen + seg.data.length) < 256 ^ 2 by omega), ht]
      rfl
    | inet6 =>
      obtain ⟨t₀, t₁, ht, heq⟩ := @ipHeader_inet6 addr (seg.hdrLen + seg.data.length) hfam
      rw [length_ipPacket, ConnAddr.ipHdrLen, hfam, ipPacket, heq]
      simp only
      rw [← beWord_beBytes_of_lt (show seg.hdrLen + seg.data.length < 256 ^ 2 by omega), ht]
      rfl
  · have hoff : (ipPacket addr seg).getD (addr.ipHdrLen + 12) 0 =
        BitVec.ofNat 8 (seg.hdrLen / 4 * 16) := by
      obtain ⟨_, _, _, _, _, _, _, _, _, _, _, _, _, _, _, _, -, -, -, -, -, heq⟩ :=
        @tcpSegment_eq addr seg
      rw [ipPacket, List.getD_eq_getElem?_getD,
        List.getElem?_append_right (by rw [length_ipHeader]; omega), length_ipHeader,
        Nat.add_sub_cancel_left, heq]
      rfl
    rw [hoff, dataOff_eq h, length_ipPacket, Nat.add_assoc]
  · have h20 : addr.ipHdrLen = 20 := by
      rw [ConnAddr.ipHdrLen, hfam]
    rw [← h20, htake]
    exact onesSum_ipHeader hfam
  · have hsum := @onesSum_tcpSegment addr seg (by omega)
    rw [length_tcpSegment] at hsum
    rw [hdrop, length_ipPacket, Nat.add_sub_cancel_left]
    exact hsum
  · unfold ConnAddr.ReachesStack at hstack
    cases hfam : addr.family with
    | inet =>
      rw [hfam] at hstack
      exact decodePacket_inet hfam h (by omega) hstack
    | inet6 =>
      rw [hfam] at hstack
      exact decodePacket_inet6 hfam h (by omega) hstack

/-- **An emitted packet is well formed and is read as it was meant**: addresses, ports, flags,
sequence number, payload, the acknowledgement if there is one, and the window. -/
theorem packet_well_formed (addr : ConnAddr) (env : TcpEnv) (conn : Conn) (flags : Flags)
    (seq ack : Seq) (data : List Byte) (hlen : data.length ≤ wgTcpMss) :
    WellFormed addr (segmentOf env conn flags seq ack data)
        (ipPacket addr (segmentOf env conn flags seq ack data)) ∧
      (segmentOf env conn flags seq ack data).inbound.flags = flags ∧
      (segmentOf env conn flags seq ack data).inbound.seq = seq ∧
      (flags.ack = true → (segmentOf env conn flags seq ack data).inbound.ack = ack) ∧
      (segmentOf env conn flags seq ack data).inbound.window.toNat =
        advertisedWindow env conn flags.syn ∧
      (segmentOf env conn flags seq ack data).inbound.payload = data := by
  have hshaped := shaped_segmentOf env conn flags seq ack data
  refine ⟨wellFormed_ipPacket hshaped hlen, rfl, rfl, fun hack => ?_, ?_, rfl⟩
  · show (if flags.ack = true then ack else 0) = ack
    rw [if_pos hack]
  · exact Nat.mod_eq_of_lt hshaped.window

/-- A connection over IPv4. -/
def exampleAddr : ConnAddr :=
  ⟨.inet, #v[10, 0, 0, 1#8], #v[10, 0, 0, 2#8], Vector.replicate 16 0, Vector.replicate 16 0, 40000, 80⟩

theorem packet_well_formed_odd :
    WellFormed exampleAddr (segmentOf exampleEnv exampleConn.conn { ack := true } 1 2 [7, 8, 9])
        (ipPacket exampleAddr
          (segmentOf exampleEnv exampleConn.conn { ack := true } 1 2 [7, 8, 9])) ∧
      (segmentOf exampleEnv exampleConn.conn { ack := true } 1 2 [7, 8, 9]).inbound.flags =
        { ack := true } ∧
      (segmentOf exampleEnv exampleConn.conn { ack := true } 1 2 [7, 8, 9]).inbound.seq = 1 ∧
      (true = true → (segmentOf exampleEnv exampleConn.conn { ack := true } 1 2
        [7, 8, 9]).inbound.ack = 2) ∧
      (segmentOf exampleEnv exampleConn.conn { ack := true } 1 2 [7, 8, 9]).inbound.window.toNat =
        advertisedWindow exampleEnv exampleConn.conn false ∧
      (segmentOf exampleEnv exampleConn.conn { ack := true } 1 2 [7, 8, 9]).inbound.payload =
        [7, 8, 9] :=
  packet_well_formed exampleAddr exampleEnv exampleConn.conn { ack := true } 1 2 [7, 8, 9]
    (by decide)

end Reading

end Wgx
