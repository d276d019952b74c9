import Mathlib.Data.List.TakeWhile
import Wgx.AllowedIps.Copy
import Wgx.Uapi.Get
import Wgx.Uapi.Keyed

/-!
# GET, then SET

The text that `build_get_response` prints is a SET request.  Given to a new device, it restores the
configuration.

* `PeerConfig`, `Device.routeV4`, `Device.routeV6`: the configuration of a peer, and where addresses
  are routed to;
* `setLine_skip`, `setLine_read`: what the loop does with a printed line;
* `Rebuilt`: the device in the middle of the request, and what each line adds to it;
* `get_set_round_trip`: the round trip, for every device in use whose response fits the buffer.
-/

namespace Wgx

open AllowedIps

/-! ### Configurations -/

/-- The configuration of a peer, its AllowedIPs apart. -/
structure PeerConfig where
  publicKey : List Byte
  presharedKey : List Byte
  endpoint : Option Endpoint
  persistentKeepaliveMs : BitVec 32

/-- The configuration in the record of a peer. -/
def Peer.peerConfig (p : Peer) : PeerConfig :=
  ⟨p.publicKey, p.handshake.psk, p.endpoint, p.persistentKeepaliveMs⟩

/-- What is left of a configuration when its interval is told in whole seconds. -/
def PeerConfig.inSeconds (pc : PeerConfig) : PeerConfig :=
  { pc with persistentKeepaliveMs := pc.persistentKeepaliveMs / 1000 * 1000 }

/-- The public key of the peer that an IPv4 address is routed to. -/
def Device.routeV4 (dev : Device) (addr : InAddr) : Option (List Byte) :=
  ((allowedipsLookupV4 dev.allowedips addr).bind dev.peerAt).map Peer.publicKey

/-- The public key of the peer that an IPv6 address is routed to. -/
def Device.routeV6 (dev : Device) (addr : In6Addr) : Option (List Byte) :=
  ((allowedipsLookupV6 dev.allowedips addr).bind dev.peerAt).map Peer.publicKey

/-! ### Texts and lines -/

/-- A character that neither ends a line nor a string. -/
def Textual (ch : Byte) : Prop := ch ≠ chr '\n' ∧ ch ≠ 0#8

instance (ch : Byte) : Decidable (Textual ch) := inferInstanceAs (Decidable (_ ∧ _))

/-- A field that `process_set` reads as it is printed. -/
structure GetField.Readable (f : GetField) : Prop where
  key : chr '=' ∉ f.key
  plain : ∀ ch ∈ f.line, Textual ch
  length : f.line.length < lineSize

section Texts

variable {f : GetField} {fs : List GetField}

theorem splitLinesFrom_line {start line : List Byte} (h : chr '\n' ∉ line) (rest : List Byte) :
    splitLinesFrom start (line ++ chr '\n' :: rest) = (start ++ line) :: splitLinesFrom [] rest := by
  induction line generalizing start with
  | nil => rw [List.nil_append, splitLinesFrom, if_pos rfl, List.append_nil]
  | cons ch line ih =>
    rw [List.mem_cons, not_or] at h
    rw [List.cons_append, splitLinesFrom, if_neg (Ne.symm h.1), ih h.2, List.append_assoc]
    rfl

/-- The lines of a printed text are those that were printed, up to the empty one. -/
theorem setLines_flatten (hfs : ∀ f ∈ fs, f.Readable) (rest : List Byte) :
    setLines ((fs.map GetField.text).flatten ++ chr '\n' :: rest) = fs.map GetField.line := by
  have hplain : ∀ ch ∈ (fs.map GetField.text).flatten, ch ≠ 0#8 := by
    intro ch hch
    obtain ⟨text, htext, hch⟩ := List.mem_flatten.1 hch
    obtain ⟨f, hf, rfl⟩ := List.mem_map.1 htext
    rcases List.mem_append.1 hch with hch | hch
    · exact ((hfs f hf).plain ch hch).2
    · rw [List.mem_singleton.1 hch]
      decide
  rw [setLines, cstr, List.takeWhile_append_of_pos fun ch hch => decide_eq_true (hplain ch hch),
    List.takeWhile_cons_of_pos (by decide)]
  clear hplain
  unfold splitLines
  induction fs with
  | nil => rfl
  | cons f fs ih =>
    have hf := hfs f List.mem_cons_self
    have hline : chr '\n' ∉ f.line := fun hch => (hf.plain _ hch).1 rfl
    have hne : f.line ≠ [] := by simp [GetField.line]
    rw [List.map_cons, List.flatten_cons, GetField.text, List.append_assoc, List.append_assoc,
      List.singleton_append, splitLinesFrom_line hline, List.nil_append,
      List.takeWhile_cons_of_pos (by simpa using hne),
      ih fun f' hf' => hfs f' (List.mem_cons_of_mem _ hf')]
    rfl

theorem cstr_terminated {val : List Byte} (h : ∀ ch ∈ val, ch ≠ 0#8) (rest : List Byte) :
    cstr (val ++ 0#8 :: rest) = val := by
  rw [cstr, List.takeWhile_append_of_pos (by simpa using h), List.takeWhile_cons_of_neg (by simp),
    List.append_nil]

theorem strchr_append {s : List Byte} {ch : Byte} (h : ch ∉ s) (rest : List Byte) :
    strchr (s ++ ch :: rest) ch = some s.length := by
  unfold strchr
  rw [List.findIdx?_append]
  have hnone : s.findIdx? (· = ch) = none := by
    rw [List.findIdx?_eq_none_iff]
    intro x hx
    simpa using fun hxc : x = ch => h (hxc ▸ hx)
  simp [hnone, List.findIdx?_cons]

theorem strrchr_append {s : List Byte} {ch : Byte} {rest : List Byte} (h : ch ∉ rest) :
    strrchr (s ++ ch :: rest) ch = some s.length := by
  have hrev := @strchr_append rest.reverse ch (by simpa using h) s.reverse
  unfold strchr at hrev
  unfold strrchr
  rw [List.reverse_append, List.reverse_cons, List.append_assoc, List.singleton_append, hrev]
  simp

end Texts

/-! ### Printed values -/

section Values

variable {key val : List Byte}

theorem not_printed_slash : ¬ Printed (chr '/') := by decide

theorem Printed.textual {ch : Byte} (h : Printed ch) : Textual ch := by
  have hall : ∀ ch : Byte, Printed ch → Textual ch := by decide
  exact hall ch h

theorem addrText_form (n : Visit ℕ) :
    (addrText n).length ≤ 40 ∧ ∀ ch ∈ addrText n, Printed ch := by
  unfold addrText
  split_ifs
  · exact ⟨(length_inetNtop4_le _).trans (by decide), printed_inetNtop4 _⟩
  · exact inetNtop6_form _

theorem setWidth_atoi_unsignedText (x : BitVec 16) :
    (atoi (unsignedText x.toNat)).setWidth 16 = x := by
  have hlt := x.isLt
  rw [atoi_unsignedText (by omega)]
  apply BitVec.eq_of_toNat_eq
  rw [BitVec.toNat_setWidth, BitVec.toNat_ofNat]
  omega

/-- What is printed of an endpoint is no longer than this. -/
theorem endpointText_form (ep : Endpoint) :
    (endpointText ep).length ≤ 48 ∧ ∀ ch ∈ endpointText ep, Textual ch := by
  have hport : ∀ port : BitVec 16, (unsignedText port.toNat).length ≤ 5 := fun port =>
    length_unsignedText_le (by decide) (port.isLt.trans (by decide))
  have hplain : ∀ (port : BitVec 16), ∀ ch ∈ unsignedText port.toNat, Textual ch := fun port ch hch =>
    (printed_unsignedText _ ch hch).textual
  cases ep with
  | v4 addr port =>
    have haddr := length_inetNtop4_le addr
    have hp := hport port
    refine ⟨by simp only [endpointText, List.length_append, List.length_cons]; omega, ?_⟩
    simp only [endpointText, List.forall_mem_append, List.forall_mem_cons]
    exact ⟨fun ch hch => (printed_inetNtop4 _ ch hch).textual, by decide, hplain port⟩
  | v6 addr port =>
    obtain ⟨haddr, hprinted⟩ := inetNtop6_form addr
    have hp := hport port
    have hclose : (ascii "]:").length = 2 := by decide
    refine ⟨by simp only [endpointText, List.length_append, List.length_cons]; omega, ?_⟩
    simp only [endpointText, List.cons_append, List.forall_mem_append, List.forall_mem_cons]
    exact ⟨by decide, ⟨fun ch hch => (hprinted ch hch).textual, by decide⟩, hplain port⟩

/-- **Endpoints are read as they are printed.** -/
theorem parseEndpoint_endpointText (ep : Endpoint) (rest : List Byte) :
    parseEndpoint (endpointText ep ++ 0#8 :: rest) = some ep := by
  have hval : cstr (endpointText ep ++ 0#8 :: rest) = endpointText ep :=
    cstr_terminated (fun ch hch => ((endpointText_form ep).2 ch hch).2) rest
  have hport : ∀ port : BitVec 16,
      cstr (unsignedText port.toNat ++ 0#8 :: rest) = unsignedText port.toNat := fun port =>
    cstr_terminated (fun ch hch => (printed_unsignedText _ ch hch).textual.2) rest
  cases ep with
  | v4 addr port =>
    have hhead : (endpointText (.v4 addr port)).head? ≠ some (chr '[') := by
      intro hhead
      have hmem := List.mem_of_mem_head? hhead
      simp only [endpointText, List.mem_append, List.mem_cons] at hmem
      rcases hmem with hmem | hmem | hmem
      · exact absurd (printed_inetNtop4 _ _ hmem) (by decide)
      · exact absurd hmem (by decide)
      · exact absurd (printed_unsignedText _ _ hmem) (by decide)
    have hcolon : strrchr (endpointText (.v4 addr port)) (chr ':') = some (inetNtop4 addr).length :=
      strrchr_append fun hmem => absurd rfl
        (@forall_mem_unsignedText (· ≠ chr ':') (by decide) port.toNat _ hmem)
    have hlen : ¬ inetAddrstrlen ≤ (inetNtop4 addr).length := by
      have hle := length_inetNtop4_le addr
      unfold inetAddrstrlen
      omega
    have htake : (endpointText (.v4 addr port)).take (inetNtop4 addr).length = inetNtop4 addr := by
      simp [endpointText]
    have hdrop : (endpointText (.v4 addr port) ++ 0#8 :: rest).drop ((inetNtop4 addr).length + 1) =
        unsignedText port.toNat ++ 0#8 :: rest := by
      rw [endpointText, List.append_assoc, List.cons_append, ← List.drop_drop, List.drop_left,
        List.drop_one, List.tail_cons]
    simp only [parseEndpoint, hval, if_neg hhead, hcolon, Option.bind_some, if_neg hlen, htake,
      inetPton4_inetNtop4, Option.map_some, hdrop, hport, setWidth_atoi_unsignedText]
  | v6 addr port =>
    obtain ⟨haddr, hprinted⟩ := inetNtop6_form addr
    have hbracket : strchr (endpointText (.v6 addr port)) (chr ']') =
        some ((inetNtop6 addr).length + 1) := by
      have hnone : chr ']' ∉ chr '[' :: inetNtop6 addr := by
        rw [List.mem_cons, not_or]
        exact ⟨by decide, fun hmem => absurd (hprinted _ hmem) (by decide)⟩
      have happend := strchr_append hnone (chr ':' :: unsignedText port.toNat)
      rw [endpointText, List.append_assoc]
      exact happend
    have hlen : ¬ inet6Addrstrlen ≤ (inetNtop6 addr).length + 1 - 1 := by
      unfold inet6Addrstrlen
      omega
    have htake : ((endpointText (.v6 addr port)).drop 1).take ((inetNtop6 addr).length + 1 - 1) =
        inetNtop6 addr := by
      simp [endpointText]
    have hdrop : (endpointText (.v6 addr port) ++ 0#8 :: rest).drop
        ((inetNtop6 addr).length + 1 + 2) = unsignedText port.toNat ++ 0#8 :: rest := by
      have hsplit : endpointText (.v6 addr port) ++ 0#8 :: rest =
          (chr '[' :: inetNtop6 addr ++ ascii "]:") ++ (unsignedText port.toNat ++ 0#8 :: rest) := by
        rw [endpointText]
        simp only [List.append_assoc]
      rw [hsplit]
      exact List.drop_left' (by simp only [List.length_append, List.length_cons]; rfl)
    simp only [parseEndpoint, hval, hbracket, Option.bind_some, if_neg hlen, htake,
      inetPton6_inetNtop6, Option.map_some, hdrop, hport, setWidth_atoi_unsignedText]
    exact if_pos rfl

/-- A short text that ends neither a key nor a line nor a string. -/
def keyOk (key : List Byte) : Bool :=
  decide (key.length ≤ 32) && key.all fun ch => ch != chr '\n' && ch != 0#8 && ch != chr '='

/-- A key and a value, neither of them long. -/
theorem readable_field (hkey : keyOk key = true) (hval : ∀ ch ∈ val, Textual ch)
    (hvallen : val.length ≤ 64) : (⟨key, val⟩ : GetField).Readable := by
  simp only [keyOk, Bool.and_eq_true, decide_eq_true_eq, List.all_eq_true, bne_iff_ne] at hkey
  obtain ⟨hkeylen, hkey⟩ := hkey
  refine ⟨fun hmem => (hkey _ hmem).2 rfl, ?_, ?_⟩
  · simp only [GetField.line, List.forall_mem_append, List.forall_mem_cons]
    exact ⟨fun ch hch => (hkey ch hch).1, by decide, hval⟩
  · simp only [GetField.line, List.length_append, List.length_cons, lineSize]
    omega

theorem readable_hexEncode {bytes : List Byte} (h : IsKey bytes) (hkey : keyOk key = true) :
    (⟨key, hexEncode bytes⟩ : GetField).Readable := by
  refine readable_field hkey (fun ch hch => (printed_hexEncode bytes ch hch).textual) ?_
  rw [length_hexEncode, h]

theorem readable_unsignedText {n : ℕ} (h : n < 2 ^ 64) (hkey : keyOk key = true) :
    (⟨key, unsignedText n⟩ : GetField).Readable := by
  refine readable_field hkey (fun ch hch => (printed_unsignedText n ch hch).textual) ?_
  exact (@length_unsignedText_le n 20 (by decide) (h.trans (by decide))).trans (by decide)

theorem readable_signedText {n : ℤ} (h : n.natAbs < 2 ^ 64) (hkey : keyOk key = true) :
    (⟨key, signedText n⟩ : GetField).Readable := by
  have hdigits : ∀ m < 2 ^ 64, (unsignedText m).length ≤ 20 ∧ ∀ ch ∈ unsignedText m, Textual ch :=
    fun m hm => ⟨length_unsignedText_le (by decide) (hm.trans (by decide)),
      fun ch hch => (printed_unsignedText m ch hch).textual⟩
  unfold signedText
  split_ifs
  · obtain ⟨hlen, hplain⟩ := hdigits n.natAbs h
    exact readable_field hkey (List.forall_mem_cons.2 ⟨by decide, hplain⟩)
      (by rw [List.length_cons]; omega)
  · obtain ⟨hlen, hplain⟩ := hdigits n.toNat (by omega)
    exact readable_field hkey hplain (by omega)

end Values

/-! ### A printed line in the loop -/

section Lines

variable {c : Crypto} {env : Env} {st : SetState} {f : GetField}

/-- The parts of a printed line, and the buffer behind its key. -/
theorem line_parts (hf : f.Readable) (rest : List Byte) :
    strchr f.line (chr '=') = some f.key.length ∧ f.line.take f.key.length = f.key ∧
      f.line.drop (f.key.length + 1) = f.val ∧
      ((f.line ++ 0#8 :: rest).set f.key.length 0#8).drop (f.key.length + 1) =
        f.val ++ 0#8 :: rest := by
  refine ⟨strchr_append hf.key f.val, by simp [GetField.line], by simp [GetField.line], ?_⟩
  rw [List.drop_set_of_lt (by omega), GetField.line, List.append_assoc, List.cons_append,
    ← List.drop_drop, List.drop_left, List.drop_one, List.tail_cons]

/-- The loop skips a line whose key it does not know. -/
theorem setLine_skip (halive : st.aborted = false) (hf : f.Readable)
    (hkey : UapiKey.ofText f.key = none) :
    ∃ old, setLine c env st f.line = { st with line := old } := by
  obtain ⟨heq, htake, -⟩ := line_parts hf (st.line.drop (f.line.length + 1))
  refine ⟨(f.line ++ 0#8 :: st.line.drop (f.line.length + 1)).set f.key.length 0#8, ?_⟩
  unfold setLine
  rw [if_neg (by simp [halive]), if_neg (not_le.2 hf.length)]
  simp only [heq, htake, hkey]

/-- What the loop does with a line whose key it knows. -/
theorem setLine_read (halive : st.aborted = false) (hf : f.Readable) {key : UapiKey}
    (hkey : UapiKey.ofText f.key = some key) : ∃ old rest,
    setLine c env st f.line =
      setKeyLine c env { st with line := old } key f.val (f.val ++ 0#8 :: rest) := by
  obtain ⟨heq, htake, hdrop, hbuf⟩ := line_parts hf (st.line.drop (f.line.length + 1))
  refine ⟨(f.line ++ 0#8 :: st.line.drop (f.line.length + 1)).set f.key.length 0#8,
    st.line.drop (f.line.length + 1), ?_⟩
  unfold setLine
  rw [if_neg (by simp [halive]), if_neg (not_le.2 hf.length)]
  simp only [heq, htake, hdrop, hbuf, hkey]

end Lines

/-! ### The device in the middle of the request -/

/-- The keys and numbers of the device itself. -/
structure DeviceHeader where
  privateKey : List Byte
  listenPort : BitVec 16
  fwmark : BitVec 32

/-- The header of a device. -/
def Device.header (dev : Device) : DeviceHeader := ⟨dev.privateKey, dev.listenPort, dev.fwmark⟩

/-- The request has restored the header `hd`, the peers `rs`, newest first, and the calls `ops` on
the table; lines for a peer go to `current`. -/
structure Rebuilt (st : SetState) (hd : DeviceHeader) (current : Option ℕ) (next : ℕ)
    (rs : List (ℕ × PeerConfig)) (ops : List (Op ℕ)) : Prop where
  alive : st.aborted = false
  err : st.err = false
  replace : st.replacePeers = false
  remove : st.removePeer = false
  currentPeer : st.currentPeer = current
  header : st.dev.header = hd
  nextAddr : st.dev.nextAddr = next
  peers : st.dev.peers.map (fun p => (p.addr, p.peerConfig)) = rs
  addrs : (rs.map Prod.fst).Nodup
  fresh : ∀ r ∈ rs, r.1 < next
  table : st.dev.allowedips = Table.after ops

section Rebuilding

variable {c : Crypto} {env : Env} {st : SetState} {hd : DeviceHeader} {current : Option ℕ}
  {next a : ℕ} {pc : PeerConfig} {rs : List (ℕ × PeerConfig)} {ops : List (Op ℕ)} {f : GetField}

/-- A field that is shown only. -/
theorem Rebuilt.ignore (h : Rebuilt st hd current next rs ops) (hf : f.Readable)
    (hkey : UapiKey.ofText f.key = none) :
    Rebuilt (setLine c env st f.line) hd current next rs ops := by
  obtain ⟨old, heq⟩ := @setLine_skip c env st f h.alive hf hkey
  rw [heq]
  exact { h with }

/-- A field that is read. -/
theorem Rebuilt.read (h : Rebuilt st hd current next rs ops) (hf : f.Readable) {key : UapiKey}
    (hkey : UapiKey.ofText f.key = some key) {hd' : DeviceHeader} {current' : Option ℕ} {next' : ℕ}
    {rs' : List (ℕ × PeerConfig)} {ops' : List (Op ℕ)}
    (hline : ∀ st rest, Rebuilt st hd current next rs ops →
      Rebuilt (setKeyLine c env st key f.val (f.val ++ 0#8 :: rest)) hd' current' next' rs' ops') :
    Rebuilt (setLine c env st f.line) hd' current' next' rs' ops' := by
  obtain ⟨old, rest, heq⟩ := @setLine_read c env st f h.alive hf key hkey
  rw [heq]
  exact hline _ rest { h with }

theorem Rebuilt.setPrivateKey (h : Rebuilt st hd current next rs ops) {priv : List Byte}
    (hpriv : IsKey priv) (buf : List Byte) :
    Rebuilt (setKeyLine c env st .privateKey (hexEncode priv) buf)
      { hd with privateKey := wgClampPrivateKey priv } current next rs ops := by
  simp only [setKeyLine, hexDecode_hexEncode hpriv]
  refine { h with header := ?_, peers := ?_ }
  · rw [← h.header]
    rfl
  · rw [← h.peers, noiseSetStaticKey, List.map_map]
    rfl

theorem Rebuilt.setListenPort (h : Rebuilt st hd current next rs ops) (port : BitVec 16)
    (hport : hd.listenPort = 0) (buf : List Byte) :
    Rebuilt (setKeyLine c env st .listenPort (unsignedText port.toNat) buf)
      { hd with listenPort := port } current next rs ops := by
  have hlt := port.isLt
  have hval : (atoi (unsignedText port.toNat)).toInt = port.toNat := by
    have hmod : port.toNat % 2 ^ 32 = port.toNat := Nat.mod_eq_of_lt (by omega)
    rw [atoi_unsignedText (by omega), BitVec.toInt_eq_toNat_of_lt (by rw [BitVec.toNat_ofNat]; omega),
      BitVec.toNat_ofNat, hmod]
  simp only [setKeyLine, hval]
  rw [if_neg (by omega)]
  split_ifs with h0
  · refine { h with header := ?_ }
    have hread : BitVec.ofInt 16 (port.toNat : ℤ) = port := by simp
    rw [← h.header, hread]
    rfl
  · have hzero : port = 0 := BitVec.eq_of_toNat_eq (by simpa using h0)
    rw [hzero, ← hport]
    exact h

theorem Rebuilt.setFwmark (h : Rebuilt st hd current next rs ops) (fwmark : BitVec 32)
    (buf : List Byte) : Rebuilt (setKeyLine c env st .fwmark (unsignedText fwmark.toNat) buf)
      { hd with fwmark := fwmark } current next rs ops := by
  have hlt := fwmark.isLt
  have hval : (strtoul (unsignedText fwmark.toNat)).setWidth 32 = fwmark := by
    rw [strtoul_unsignedText (by omega)]
    apply BitVec.eq_of_toNat_eq
    simp only [BitVec.toNat_setWidth, BitVec.toNat_ofNat]
    omega
  simp only [setKeyLine, hval]
  refine { h with header := ?_ }
  rw [← h.header]
  rfl

theorem Rebuilt.endBlock (h : Rebuilt st hd current next rs ops) : st.endBlock = st := by
  obtain ⟨dev, cur, gone, replacePeers, removePeer, err, aborted, line⟩ := st
  obtain rfl : replacePeers = false := h.replace
  obtain rfl : removePeer = false := h.remove
  rfl

/-- A key that no peer has begins a new one. -/
theorem Rebuilt.setPublicKey (h : Rebuilt st hd current next rs ops) {pk : List Byte}
    (hpk : IsKey pk) (hnew : ∀ r ∈ rs, r.2.publicKey ≠ pk) (buf : List Byte) :
    Rebuilt (setKeyLine c env st .publicKey (hexEncode pk) buf) hd (some next) (next + 1)
      ((next, ⟨pk, zeroKey, none, 0⟩) :: rs) ops := by
  have hfind : deviceFindPeer st.dev pk = none := by
    refine List.find?_eq_none.2 fun p hp => ?_
    have hmem : (p.addr, p.peerConfig) ∈ rs := h.peers ▸ List.mem_map_of_mem hp
    exact fun hkey => hnew _ hmem (of_decide_eq_true hkey)
  simp only [setKeyLine, Wgx.setPublicKey, h.endBlock, h.alive, Bool.false_eq_true, if_false,
    hexDecode_hexEncode hpk, hfind]
  have hadd : deviceAddPeer c st.dev pk =
      { st.dev with peers := peerNew c st.dev pk :: st.dev.peers, nextAddr := st.dev.nextAddr + 1 } :=
    if_neg (by simp [hfind])
  rw [hadd]
  refine ⟨rfl, h.err, h.replace, h.remove, ?_, h.header, ?_, ?_, ?_, ?_, h.table⟩
  · rw [h.nextAddr]
  · exact congrArg (· + 1) h.nextAddr
  · rw [List.map_cons, h.peers, ← h.nextAddr]
    rfl
  · rw [List.map_cons, List.nodup_cons]
    refine ⟨fun hmem => ?_, h.addrs⟩
    obtain ⟨r, hr, heq⟩ := List.mem_map.1 hmem
    exact absurd (h.fresh r hr) (by omega)
  · intro r hr
    rcases List.mem_cons.1 hr with rfl | hr
    · exact Nat.lt_succ_self _
    · exact (h.fresh r hr).trans (Nat.lt_succ_self _)

/-! ### Lines for a peer -/

/-- The current peer is the newest one. -/
theorem Rebuilt.record (h : Rebuilt st hd (some a) next ((a, pc) :: rs) ops) :
    ∃ p ps, st.dev.peers = p :: ps ∧ p.addr = a ∧ p.peerConfig = pc ∧
      st.currentPeer.bind st.record = some p := by
  have hpeers := h.peers
  cases hps : st.dev.peers with
  | nil =>
    rw [hps] at hpeers
    cases hpeers
  | cons p ps =>
    rw [hps, List.map_cons] at hpeers
    obtain ⟨hhead, -⟩ := List.cons.inj hpeers
    obtain ⟨haddr, hconfig⟩ := Prod.mk.inj hhead
    refine ⟨p, ps, rfl, haddr, hconfig, ?_⟩
    rw [h.currentPeer, Option.bind_some, SetState.record, Device.peerAt, hps,
      List.find?_cons_of_pos (by simpa using haddr), Option.some_or]

/-- A call on the table, and another record for the current peer. -/
theorem Rebuilt.edit (h : Rebuilt st hd (some a) next ((a, pc) :: rs) ops) {t : Table ℕ}
    {ops' : List (Op ℕ)} (ht : t = Table.after ops') {p : Peer} (haddr : p.addr = a) :
    Rebuilt { st with dev := Device.store { st.dev with allowedips := t } p } hd (some a) next
      ((a, p.peerConfig) :: rs) ops' := by
  obtain ⟨q, ps, hps, hq, -, -⟩ := h.record
  have hpeers := h.peers
  rw [hps, List.map_cons] at hpeers
  obtain ⟨-, htail⟩ := List.cons.inj hpeers
  refine { h with peers := ?_, fresh := ?_, table := ht }
  · show (st.dev.peers.map fun q => if q.addr = p.addr then p else q).map _ = _
    rw [hps, List.map_cons, if_pos (hq.trans haddr.symm), List.map_cons, haddr, ← htail, List.map_map]
    congr 1
    refine List.map_congr_left fun r hr => ?_
    have hmem : r.addr ∈ rs.map Prod.fst := by
      rw [← htail, List.map_map]
      exact List.mem_map_of_mem hr
    have hne : r.addr ≠ a := by
      rintro rfl
      exact (List.nodup_cons.1 h.addrs).1 hmem
    simp only [Function.comp_apply, if_neg hne]
  · intro r hr
    rcases List.mem_cons.1 hr with rfl | hr
    · exact h.fresh (a, pc) List.mem_cons_self
    · exact h.fresh r (List.mem_cons_of_mem _ hr)

theorem Rebuilt.setPresharedKey (h : Rebuilt st hd (some a) next ((a, pc) :: rs) ops)
    {psk : List Byte} (hpsk : IsKey psk) (buf : List Byte) :
    Rebuilt (setKeyLine c env st .presharedKey (hexEncode psk) buf) hd (some a) next
      ((a, { pc with presharedKey := psk }) :: rs) ops := by
  obtain ⟨p, ps, -, haddr, rfl, hrecord⟩ := h.record
  simp only [setKeyLine, hrecord, setPeerLine, hexDecode_hexEncode hpsk]
  exact @Rebuilt.edit _ hd next a p.peerConfig rs ops h _ ops h.table
    { p with handshake := { p.handshake with psk := psk } } haddr

theorem Rebuilt.setEndpoint (h : Rebuilt st hd (some a) next ((a, pc) :: rs) ops) (ep : Endpoint)
    (val rest : List Byte) (hep : parseEndpoint (val ++ 0#8 :: rest) = some ep) :
    Rebuilt (setKeyLine c env st .endpoint val (val ++ 0#8 :: rest)) hd (some a) next
      ((a, { pc with endpoint := some ep }) :: rs) ops := by
  obtain ⟨p, ps, -, haddr, rfl, hrecord⟩ := h.record
  simp only [setKeyLine, hrecord, setPeerLine, hep]
  exact @Rebuilt.edit _ hd next a p.peerConfig rs ops h _ ops h.table
    { p with endpoint := some ep } haddr

theorem Rebuilt.setPersistentKeepalive (h : Rebuilt st hd (some a) next ((a, pc) :: rs) ops)
    (ms : BitVec 32) (buf : List Byte) :
    Rebuilt (setKeyLine c env st .persistentKeepaliveInterval (unsignedText (ms.toNat / 1000)) buf)
      hd (some a) next ((a, { pc with persistentKeepaliveMs := ms / 1000 * 1000 }) :: rs) ops := by
  obtain ⟨p, ps, -, haddr, rfl, hrecord⟩ := h.record
  have hlt := ms.isLt
  have hval : atoi (unsignedText (ms.toNat / 1000)) = ms / 1000 := by
    rw [atoi_unsignedText (by omega)]
    apply BitVec.eq_of_toNat_eq
    rw [BitVec.toNat_ofNat, BitVec.toNat_udiv]
    exact Nat.mod_eq_of_lt (by omega)
  simp only [setKeyLine, hrecord, setPeerLine, hval]
  have hset : ∀ q : Peer, (timersPersistentKeepaliveSet env q).addr = q.addr ∧
      (timersPersistentKeepaliveSet env q).peerConfig = q.peerConfig := by
    intro q
    unfold timersPersistentKeepaliveSet
    split_ifs <;> exact ⟨rfl, rfl⟩
  obtain ⟨haddr', hconfig⟩ := hset { p with persistentKeepaliveMs := ms / 1000 * 1000 }
  have hedit := h.edit h.table (haddr'.trans haddr)
  rwa [hconfig] at hedit

end Rebuilding

section Blocks

variable {c : Crypto} {env : Env} {st : SetState} {hd : DeviceHeader} {current : Option ℕ}
  {next a : ℕ} {pc : PeerConfig} {rs : List (ℕ × PeerConfig)} {ops : List (Op ℕ)} {table : Table ℕ}
  {p : Peer}

theorem Rebuilt.setAllowedIp (h : Rebuilt st hd (some a) next ((a, pc) :: rs) ops) {n : Visit ℕ}
    (hn : n.InFamily) (buf : List Byte) :
    Rebuilt (setKeyLine c env st .allowedIp (prefixText n) buf) hd (some a) next ((a, pc) :: rs)
      (ops ++ [visitOp a n]) := by
  obtain ⟨p, ps, -, rfl, rfl, hrecord⟩ := h.record
  obtain ⟨hlen, hprinted⟩ := addrText_form n
  have hmax := hn.cidr_le
  have hslash : strchr (prefixText n) (chr '/') = some (addrText n).length :=
    strchr_append (fun hmem => not_printed_slash (hprinted _ hmem)) _
  have htake : (prefixText n).take (addrText n).length = addrText n := List.take_left
  have hdrop : (prefixText n).drop ((addrText n).length + 1) = unsignedText n.cidr := by
    simp [prefixText]
  have hshort : ¬ inet6Addrstrlen ≤ (addrText n).length := by
    unfold inet6Addrstrlen
    omega
  have hnum : ((atoi (unsignedText n.cidr)).setWidth 8).toNat = n.cidr := by
    rw [atoi_unsignedText (by omega), BitVec.toNat_setWidth, BitVec.toNat_ofNat]
    omega
  have hstep : (Table.after ops).step (visitOp p.addr n) = Table.after (ops ++ [visitOp p.addr n]) :=
    (Machine.run_snoc _ _ _ _).symm
  simp only [setKeyLine, hrecord, setPeerLine, Wgx.setAllowedIp, hslash, htake, hdrop, hnum,
    if_neg hshort]
  rw [← h.table] at hstep
  rcases hn.1 with hver | hver
  · have haddr : addrText n = inetNtop4 (Vector.ofFn fun i => n.bits.getD i 0) := if_pos hver
    rw [visitOp, if_pos hver] at hstep ⊢
    simp only [haddr, inetPton4_inetNtop4]
    exact @Rebuilt.edit st hd next _ _ rs ops h _ _ hstep { p with allowedips := _ } rfl
  · have hno : ¬ n.ipVersion = 4 := by omega
    have haddr : addrText n = inetNtop6 (Vector.ofFn fun i => n.bits.getD i 0) := if_neg hno
    rw [visitOp, if_neg hno] at hstep ⊢
    simp only [haddr, inetPton4_inetNtop6, inetPton6_inetNtop6]
    exact @Rebuilt.edit st hd next _ _ rs ops h _ _ hstep { p with allowedips := _ } rfl

/-! ### The block of a peer -/

/-- The entries of the table for a peer. -/
def visitsOf (table : Table ℕ) (peer : ℕ) : List (Visit ℕ) :=
  (allowedipsWalk table).filter fun n => n.peer = peer

theorem filterMap_aipWalkCb (peer : ℕ) (vs : List (Visit ℕ)) :
    vs.filterMap (aipWalkCb peer) =
      (vs.filter fun n => n.peer = peer).map fun n => ⟨ascii "allowed_ip", prefixText n⟩ := by
  induction vs with
  | nil => rfl
  | cons n vs ih =>
    by_cases hn : n.peer = peer
    · rw [List.filterMap_cons_some (b := ⟨ascii "allowed_ip", prefixText n⟩)
        (by rw [aipWalkCb, if_neg (not_not.2 hn)]), List.filter_cons_of_pos (by simpa using hn),
        List.map_cons, ih]
    · rw [List.filterMap_cons_none (by rw [aipWalkCb, if_pos hn]),
        List.filter_cons_of_neg (by simpa using hn), ih]

theorem prefixText_form {n : Visit ℕ} (hn : n.InFamily) :
    (⟨ascii "allowed_ip", prefixText n⟩ : GetField).Readable := by
  obtain ⟨hlen, hprinted⟩ := addrText_form n
  have hmax : n.cidr < 10 ^ 3 := hn.cidr_le.trans_lt (by decide)
  have hdigits := length_unsignedText_le (by decide) hmax
  refine readable_field (by decide) ?_ ?_
  · simp only [prefixText, List.forall_mem_append, List.forall_mem_cons]
    exact ⟨fun ch hch => (hprinted ch hch).textual, by decide,
      fun ch hch => (printed_unsignedText _ ch hch).textual⟩
  · rw [prefixText, List.length_append, List.length_cons]
    omega

/-- The fields of a peer can be read. -/
theorem readable_peerFields (hkeys : IsKey p.publicKey ∧ IsKey p.handshake.psk)
    (htable : ∀ n ∈ allowedipsWalk table, n.InFamily) :
    ∀ f ∈ peerFields table p, f.Readable := by
  have hns : ∀ x : BitVec 64, x.toInt.natAbs ≤ 2 ^ 63 := by
    intro x
    have h1 := BitVec.le_toInt x
    have h2 := @BitVec.toInt_lt 64 x
    omega
  have hsec : (p.lastHandshakeNs.toInt.tdiv 1000000000).natAbs < 2 ^ 64 := by
    have h := hns p.lastHandshakeNs
    rw [Int.natAbs_tdiv]
    exact (Nat.div_le_self _ _).trans_lt (by omega)
  have hnsec : (p.lastHandshakeNs.toInt.tmod 1000000000).natAbs < 2 ^ 64 := by
    have h := hns p.lastHandshakeNs
    rw [Int.natAbs_tmod]
    exact (Nat.mod_le _ _).trans_lt (by omega)
  have hms := p.persistentKeepaliveMs.isLt
  simp only [peerFields, List.cons_append, List.forall_mem_cons, List.forall_mem_append,
    filterMap_aipWalkCb, List.forall_mem_map]
  refine ⟨readable_hexEncode hkeys.1 (by decide), ⟨⟨?_, ?_⟩, ?_⟩, ?_⟩
  · split_ifs
    · exact List.forall_mem_nil _
    · exact List.forall_mem_singleton.2 (readable_hexEncode hkeys.2 (by decide))
  · intro f hf
    obtain ⟨ep, -, rfl⟩ := Option.map_eq_some_iff.1 (Option.mem_toList.1 hf)
    obtain ⟨hlen, hplain⟩ := endpointText_form ep
    exact readable_field (by decide) hplain (by omega)
  · exact ⟨readable_signedText hsec (by decide),
      readable_signedText hnsec (by decide),
      readable_unsignedText p.rxBytes.isLt (by decide),
      readable_unsignedText p.txBytes.isLt (by decide),
      readable_unsignedText (by omega) (by decide), List.forall_mem_nil _⟩
  · exact fun n hn => prefixText_form (htable n (List.mem_filter.1 hn).1)

/-- The state after the lines of some fields. -/
def readFields (c : Crypto) (env : Env) (st : SetState) (fs : List GetField) : SetState :=
  Machine.run (setLine c env) st (fs.map GetField.line)

theorem readFields_cons (f : GetField) (fs : List GetField) :
    readFields c env st (f :: fs) = readFields c env (setLine c env st f.line) fs := rfl

theorem readFields_append (fs gs : List GetField) :
    readFields c env st (fs ++ gs) = readFields c env (readFields c env st fs) gs := by
  rw [readFields, List.map_append, Machine.run_append]
  rfl

/-- The lines of a peer's AllowedIPs. -/
theorem Rebuilt.allowedIps (h : Rebuilt st hd (some a) next ((a, pc) :: rs) ops)
    {vs : List (Visit ℕ)} (hvs : ∀ n ∈ vs, n.InFamily) :
    Rebuilt (readFields c env st (vs.map fun n => ⟨ascii "allowed_ip", prefixText n⟩)) hd (some a)
      next ((a, pc) :: rs) (ops ++ vs.map (visitOp a)) := by
  induction vs generalizing st ops with
  | nil => rwa [List.map_nil, List.map_nil, List.append_nil]
  | cons n vs ih =>
    have hn := hvs n List.mem_cons_self
    have hfirst := h.read (prefixText_form hn) (show UapiKey.ofText (ascii "allowed_ip") = _ by decide)
      fun st' rest hst' => @Rebuilt.setAllowedIp c env st' hd next a pc rs ops hst' n hn _
    have hrest := ih hfirst fun m hm => hvs m (List.mem_cons_of_mem _ hm)
    rwa [List.append_assoc] at hrest

/-- The fields of a peer, read where no peer has its key. -/
theorem Rebuilt.peerBlock (h : Rebuilt st hd current next rs ops)
    (hkeys : IsKey p.publicKey ∧ IsKey p.handshake.psk)
    (hnew : ∀ r ∈ rs, r.2.publicKey ≠ p.publicKey)
    (htable : ∀ n ∈ allowedipsWalk table, n.InFamily) :
    Rebuilt (readFields c env st (peerFields table p)) hd (some next) (next + 1)
      ((next, p.peerConfig.inSeconds) :: rs)
      (ops ++ (visitsOf table p.addr).map (visitOp next)) := by
  have hread := readable_peerFields hkeys htable
  rw [peerFields, filterMap_aipWalkCb] at hread ⊢
  simp only [List.cons_append, List.forall_mem_cons, List.forall_mem_append] at hread
  obtain ⟨hpk, ⟨⟨hpsk, hep⟩, hsec, hnsec, hrx, htx, hka, -⟩, -⟩ := hread
  simp only [List.cons_append, readFields_cons, readFields_append]
  have h1 := h.read hpk (show UapiKey.ofText (ascii "public_key") = _ by decide)
    fun st' rest hst' => @Rebuilt.setPublicKey c env st' hd current next rs ops hst' _ hkeys.1 hnew _
  generalize setLine c env st _ = st₁ at h1 ⊢
  have h2 : Rebuilt (readFields c env st₁ (if p.handshake.psk = zeroKey then []
      else [⟨ascii "preshared_key", hexEncode p.handshake.psk⟩])) hd (some next) (next + 1)
      ((next, ⟨p.publicKey, p.handshake.psk, none, 0⟩) :: rs) ops := by
    split_ifs at hpsk ⊢ with hzero
    · rw [hzero]
      exact h1
    · exact h1.read (hpsk _ List.mem_cons_self)
        (show UapiKey.ofText (ascii "preshared_key") = _ by decide)
        fun st' rest hst' => hst'.setPresharedKey hkeys.2 _
  generalize readFields c env st₁ _ = st₂ at h2 ⊢
  have h3 : Rebuilt (readFields c env st₂
      (p.endpoint.map fun ep => (⟨ascii "endpoint", endpointText ep⟩ : GetField)).toList) hd
      (some next) (next + 1) ((next, ⟨p.publicKey, p.handshake.psk, p.endpoint, 0⟩) :: rs) ops := by
    cases hp : p.endpoint with
    | none => exact h2
    | some ep =>
      rw [hp] at hep
      exact h2.read (hep _ List.mem_cons_self) (show UapiKey.ofText (ascii "endpoint") = _ by decide)
        fun st' rest hst' => hst'.setEndpoint ep _ rest (parseEndpoint_endpointText ep rest)
  have h4 := @Rebuilt.ignore c env _ _ _ _ _ _ _ h3 hsec
    (show UapiKey.ofText (ascii "last_handshake_time_sec") = _ by decide)
  have h5 := @Rebuilt.ignore c env _ _ _ _ _ _ _ h4 hnsec
    (show UapiKey.ofText (ascii "last_handshake_time_nsec") = _ by decide)
  have h6 := @Rebuilt.ignore c env _ _ _ _ _ _ _ h5 hrx
    (show UapiKey.ofText (ascii "rx_bytes") = _ by decide)
  have h7 := @Rebuilt.ignore c env _ _ _ _ _ _ _ h6 htx
    (show UapiKey.ofText (ascii "tx_bytes") = _ by decide)
  have h8 := h7.read hka
    (show UapiKey.ofText (ascii "persistent_keepalive_interval") = _ by decide)
    fun st' rest hst' => @Rebuilt.setPersistentKeepalive c env _ _ _ _ _ _ _ hst'
      p.persistentKeepaliveMs _
  exact h8.allowedIps fun n hn => htable n (List.mem_filter.1 hn).1

/-- The entries of the table for some peers, with the addresses that these get. -/
def copiesOf (table : Table ℕ) (next : ℕ) (ps : List Peer) : List (ℕ × Visit ℕ) :=
  (ps.zipIdx next).flatMap fun x => (visitsOf table x.1.addr).map fun n => (x.2, n)

/-- The peers that are made for some peers, newest first. -/
def rebuiltPeers (next : ℕ) (ps : List Peer) : List (ℕ × PeerConfig) :=
  ((ps.zipIdx next).map fun x => (x.2, x.1.peerConfig.inSeconds)).reverse

/-- The fields of all peers. -/
theorem Rebuilt.peerBlocks {ps : List Peer} (h : Rebuilt st hd current next rs ops)
    (hkeys : ∀ p ∈ ps, IsKey p.publicKey ∧ IsKey p.handshake.psk)
    (hdistinct : (ps.map Peer.publicKey).Nodup)
    (hnew : ∀ p ∈ ps, ∀ r ∈ rs, r.2.publicKey ≠ p.publicKey)
    (htable : ∀ n ∈ allowedipsWalk table, n.InFamily) :
    ∃ current', Rebuilt (readFields c env st (ps.flatMap (peerFields table))) hd current'
      (next + ps.length) (rebuiltPeers next ps ++ rs)
      (ops ++ (copiesOf table next ps).map fun v => visitOp v.1 v.2) := by
  induction ps generalizing st current next rs ops with
  | nil =>
    refine ⟨current, ?_⟩
    have hops : ops ++ (copiesOf table next []).map (fun v => visitOp v.1 v.2) = ops :=
      List.append_nil ops
    rw [hops]
    exact h
  | cons p ps ih =>
    rw [List.map_cons, List.nodup_cons] at hdistinct
    have hblock := @Rebuilt.peerBlock c env st hd current next rs ops table p h
      (hkeys p List.mem_cons_self) (hnew p List.mem_cons_self) htable
    have hnew' : ∀ q ∈ ps, ∀ r ∈ (next, p.peerConfig.inSeconds) :: rs,
        r.2.publicKey ≠ q.publicKey := by
      intro q hq r hr
      rcases List.mem_cons.1 hr with rfl | hr
      · intro heq
        exact hdistinct.1 (List.mem_map.2 ⟨q, hq, heq.symm⟩)
      · exact hnew q (List.mem_cons_of_mem _ hq) r hr
    obtain ⟨current', hrest⟩ := ih hblock (fun q hq => hkeys q (List.mem_cons_of_mem _ hq))
      hdistinct.2 hnew'
    refine ⟨current', ?_⟩
    rw [List.flatMap_cons, readFields_append]
    have hpeers : rebuiltPeers (next + 1) ps ++ (next, p.peerConfig.inSeconds) :: rs =
        rebuiltPeers next (p :: ps) ++ rs := by
      simp [rebuiltPeers, List.zipIdx_cons]
    have hops : ops ++ (visitsOf table p.addr).map (visitOp next) ++
        (copiesOf table (next + 1) ps).map (fun v => visitOp v.1 v.2) =
        ops ++ (copiesOf table next (p :: ps)).map fun v => visitOp v.1 v.2 := by
      rw [List.append_assoc, copiesOf, copiesOf, List.zipIdx_cons, List.flatMap_cons, List.map_append,
        List.map_map]
      rfl
    rw [hpeers, hops] at hrest
    rwa [List.length_cons, ← Nat.add_assoc, Nat.add_right_comm]

end Blocks

/-! ### Routes -/

section Routes

variable {dev dev' : Device} {next : ℕ}

/-- Peers of one address have one place. -/
theorem zipIdx_unique {ps : List Peer} (hnodup : (ps.map Peer.addr).Nodup) {x y : Peer × ℕ}
    (hx : x ∈ ps.zipIdx next) (hy : y ∈ ps.zipIdx next) (hxy : x.1.addr = y.1.addr) : x = y := by
  induction ps generalizing next with
  | nil => cases hx
  | cons p ps ih =>
    rw [List.map_cons, List.nodup_cons] at hnodup
    rw [List.zipIdx_cons, List.mem_cons] at hx hy
    have hrest : ∀ z ∈ ps.zipIdx (next + 1), z.1.addr ≠ p.addr := by
      intro z hz heq
      exact hnodup.1 (heq ▸ List.mem_map_of_mem (List.fst_mem_of_mem_zipIdx hz))
    rcases hx with rfl | hx <;> rcases hy with rfl | hy
    · rfl
    · exact absurd hxy.symm (hrest y hy)
    · exact absurd hxy (hrest x hx)
    · exact ih hnodup.2 hx hy

/-- The peers of the device take the places of those of the other one. -/
def Replaces (next : ℕ) (ps : List Peer) (a b : ℕ) : Prop := ∃ x ∈ ps.zipIdx next, x.1.addr = a ∧ x.2 = b

theorem copyOf_copiesOf (hnodup : (dev.peers.map Peer.addr).Nodup) (hpointers : dev.Pointers)
    (next : ℕ) :
    CopyOf (Replaces next dev.peers) dev.allowedips (copiesOf dev.allowedips next dev.peers) := by
  have hmem : ∀ q n, (q, n) ∈ copiesOf dev.allowedips next dev.peers ↔
      n ∈ allowedipsWalk dev.allowedips ∧ Replaces next dev.peers n.peer q := by
    intro q n
    simp only [copiesOf, visitsOf, List.mem_flatMap, List.mem_map, List.mem_filter,
      decide_eq_true_eq, Prod.mk.injEq, Replaces]
    constructor
    · rintro ⟨x, hx, m, ⟨hm, hpeer⟩, hq, rfl⟩
      exact ⟨hm, x, hx, hpeer.symm, hq⟩
    · rintro ⟨hn, x, hx, hpeer, hq⟩
      exact ⟨x, hx, n, ⟨hn, hpeer.symm⟩, hq, rfl⟩
  refine ⟨fun n => ?_, fun q n h => ((hmem q n).1 h).2, fun q q' n h h' => ?_⟩
  · simp only [hmem]
    constructor
    · intro hn
      obtain ⟨p, hp, hpeer⟩ := hpointers n hn
      obtain ⟨i, hi⟩ := List.mem_iff_getElem?.1 hp
      exact ⟨next + i, hn, (p, next + i), List.mk_add_mem_zipIdx_iff_getElem?.2 hi, hpeer, rfl⟩
    · rintro ⟨q, hn, -⟩
      exact hn
  · obtain ⟨-, x, hx, hxpeer, rfl⟩ := (hmem q n).1 h
    obtain ⟨-, y, hy, hypeer, rfl⟩ := (hmem q' n).1 h'
    rw [zipIdx_unique hnodup hx hy (hxpeer.trans hypeer.symm)]

/-- The peer in the new place has the same key. -/
theorem key_of_replaces (hnodup : (dev.peers.map Peer.addr).Nodup)
    (hpeers : dev'.peers.map (fun p => (p.addr, p.peerConfig)) = rebuiltPeers next dev.peers)
    (haddrs : (dev'.peers.map Peer.addr).Nodup) {a b : ℕ} (h : Replaces next dev.peers a b) :
    (dev'.peerAt b).map Peer.publicKey = (dev.peerAt a).map Peer.publicKey := by
  obtain ⟨⟨p, i⟩, hx, rfl, rfl⟩ := h
  have hp : p ∈ dev.peers := List.fst_mem_of_mem_zipIdx hx
  have hmem : (i, p.peerConfig.inSeconds) ∈ dev'.peers.map fun p => (p.addr, p.peerConfig) := by
    rw [hpeers, rebuiltPeers, List.mem_reverse]
    exact List.mem_map_of_mem hx
  obtain ⟨p', hp', heq⟩ := List.mem_map.1 hmem
  obtain ⟨rfl, hconfig⟩ := Prod.mk.inj heq
  rw [Device.peerAt_of_mem haddrs hp', Device.peerAt_of_mem hnodup hp]
  exact congrArg some (congrArg PeerConfig.publicKey hconfig)

theorem route_of_rel {R : ℕ → ℕ → Prop} {o o' : Option ℕ} (h : Option.Rel R o o')
    (hR : ∀ a b, R a b → (dev'.peerAt b).map Peer.publicKey = (dev.peerAt a).map Peer.publicKey) :
    (o'.bind dev'.peerAt).map Peer.publicKey = (o.bind dev.peerAt).map Peer.publicKey := by
  cases h with
  | some hab => exact hR _ _ hab
  | none => rfl

end Routes

/-! ### The round trip -/

/-- The second device has the configuration of the first: its peers are listed the other way round,
their intervals are whole seconds, and a private key that was never set has been clamped. -/
structure Restores (dev dev' : Device) : Prop where
  privateKey : dev'.privateKey =
    if dev.privateKey = zeroKey then wgClampPrivateKey zeroKey else dev.privateKey
  listenPort : dev'.listenPort = dev.listenPort
  fwmark : dev'.fwmark = dev.fwmark
  peers : dev'.peers.map Peer.peerConfig =
    (dev.peers.map fun p => p.peerConfig.inSeconds).reverse
  routeV4 : ∀ addr, dev'.routeV4 addr = dev.routeV4 addr
  routeV6 : ∀ addr, dev'.routeV6 addr = dev.routeV6 addr

section RoundTrip

variable {c : Crypto} {env : Env} {dev : Device}

theorem rebuilt_start (c : Crypto) (stack : List Byte) :
    Rebuilt (.start (deviceInit c) stack) ⟨zeroKey, 0, 0⟩ none 1 [] [] :=
  ⟨rfl, rfl, rfl, rfl, rfl, rfl, rfl, rfl, List.nodup_nil, List.forall_mem_nil _, rfl⟩

/-- The fields of the device itself. -/
theorem rebuilt_deviceFields (hkeyed : dev.Keyed) (stack : List Byte) :
    Rebuilt (readFields c env (.start (deviceInit c) stack) (deviceFields dev))
      ⟨wgClampPrivateKey dev.privateKey, dev.listenPort, dev.fwmark⟩ none 1 [] [] := by
  have hport := dev.listenPort.isLt
  have hmark := dev.fwmark.isLt
  have h1 := @Rebuilt.read c env _ _ _ _ _ _ _ (rebuilt_start c stack)
    (readable_hexEncode hkeyed.privateKey (by decide)) _
    (show UapiKey.ofText (ascii "private_key") = _ by decide) _ _ _ _ _
    fun st' rest hst' => hst'.setPrivateKey hkeyed.privateKey _
  have h2 := @Rebuilt.read c env _ _ _ _ _ _ _ h1
    (readable_unsignedText (n := dev.listenPort.toNat) (by omega) (by decide)) _
    (show UapiKey.ofText (ascii "listen_port") = _ by decide) _ _ _ _ _
    fun st' rest hst' => hst'.setListenPort dev.listenPort rfl _
  rw [deviceFields, readFields_cons, readFields_cons]
  split_ifs with hzero
  · rw [hzero]
    exact h2
  · exact @Rebuilt.read c env _ _ _ _ _ _ _ h2
      (readable_unsignedText (n := dev.fwmark.toNat) (by omega) (by decide)) _
      (show UapiKey.ofText (ascii "fwmark") = _ by decide) _ _ _ _ _
      fun st' rest hst' => hst'.setFwmark dev.fwmark _

theorem readable_deviceFields (hkeyed : dev.Keyed) : ∀ f ∈ deviceFields dev, f.Readable := by
  have hport := dev.listenPort.isLt
  have hmark := dev.fwmark.isLt
  rw [deviceFields, List.forall_mem_cons, List.forall_mem_cons]
  refine ⟨readable_hexEncode hkeyed.privateKey (by decide),
    readable_unsignedText (by omega) (by decide), ?_⟩
  split_ifs
  · exact List.forall_mem_nil _
  · exact List.forall_mem_singleton.2 (readable_unsignedText (by omega) (by decide))

theorem readable_errnoField : errnoField.Readable :=
  readable_field (by decide) (by decide) (by decide)

/-- The table is that of some calls. -/
theorem Device.Keyed.represents (hkeyed : dev.Keyed) :
    ∃ M, Represents dev.allowedips M := by
  obtain ⟨ops, hops⟩ := hkeyed.table
  exact ⟨_, hops ▸ represents_after ops⟩

theorem Device.Keyed.inFamily (hkeyed : dev.Keyed) :
    ∀ n ∈ allowedipsWalk dev.allowedips, n.InFamily := by
  obtain ⟨M, hrep⟩ := hkeyed.represents
  exact hrep.inFamily

/-- The fields of the response can be read. -/
theorem readable_getFields (hkeyed : dev.Keyed) :
    ∀ f ∈ getFields dev ++ [errnoField], f.Readable := by
  simp only [getFields, List.forall_mem_append, List.forall_mem_singleton]
  refine ⟨⟨readable_deviceFields hkeyed, fun f hf => ?_⟩, readable_errnoField⟩
  obtain ⟨p, hp, hf⟩ := List.mem_flatMap.1 hf
  exact readable_peerFields (hkeyed.peers p hp) hkeyed.inFamily f hf

/-- The lines of the response are its fields, whatever follows it. -/
theorem setLines_getText (hkeyed : dev.Keyed) (rest : List Byte) :
    setLines (getText dev ++ rest) = (getFields dev ++ [errnoField]).map GetField.line := by
  rw [← setLines_flatten (readable_getFields hkeyed) rest, getText, getTexts, List.map_append, List.flatten_append,
    List.flatten_append, List.map_singleton, List.flatten_singleton, List.flatten_singleton]
  simp only [List.append_assoc, List.cons_append, List.nil_append]

/-- The request that a device's response is, when its lines have been read. -/
theorem rebuilt_getText (hkeyed : dev.Keyed) (stack rest : List Byte) :
    ∃ current, Rebuilt (setRun c env (deviceInit c) stack (setLines (getText dev ++ rest)))
      ⟨wgClampPrivateKey dev.privateKey, dev.listenPort, dev.fwmark⟩ current
      (1 + dev.peers.length) (rebuiltPeers 1 dev.peers)
      ((copiesOf dev.allowedips 1 dev.peers).map fun v => visitOp v.1 v.2) := by
  obtain ⟨current, hblocks⟩ := @Rebuilt.peerBlocks c env _ _ _ _ _ _ dev.allowedips dev.peers
    (@rebuilt_deviceFields c env dev hkeyed stack) hkeyed.peers hkeyed.distinct
    (fun p hp r hr => by cases hr) hkeyed.inFamily
  have hdone := @Rebuilt.ignore c env _ _ _ _ _ _ _ hblocks readable_errnoField
    (show UapiKey.ofText (ascii "errno") = _ by decide)
  rw [List.append_nil, List.nil_append] at hdone
  refine ⟨current, ?_⟩
  rw [setLines_getText hkeyed, setRun, ← readFields, getFields,
    readFields_append, readFields_append]
  exact hdone

/-- At the end of the request nothing is left to do. -/
theorem Rebuilt.finish {st : SetState} {hd : DeviceHeader} {current : Option ℕ} {next : ℕ}
    {rs : List (ℕ × PeerConfig)} {ops : List (Op ℕ)} (h : Rebuilt st hd current next rs ops) :
    st.finish = st := by
  rw [SetState.finish, h.alive, h.remove]
  rfl

/-- A device that has been rebuilt has the configuration. -/
theorem Rebuilt.restores (hkeyed : dev.Keyed) (hpointers : dev.Pointers)
    (hnodup : (dev.peers.map Peer.addr).Nodup) {st : SetState} {current : Option ℕ} {next : ℕ}
    (h : Rebuilt st ⟨wgClampPrivateKey dev.privateKey, dev.listenPort, dev.fwmark⟩ current next
      (rebuiltPeers 1 dev.peers)
      ((copiesOf dev.allowedips 1 dev.peers).map fun v => visitOp v.1 v.2)) :
    Restores dev st.dev := by
  obtain ⟨M, hrep⟩ := hkeyed.represents
  have haddrs : (st.dev.peers.map Peer.addr).Nodup := by
    have haddrs := h.addrs
    rw [← h.peers, List.map_map] at haddrs
    exact haddrs
  have hcopy := lookup_copy hrep (copyOf_copiesOf hnodup hpointers 1)
  rw [← h.table] at hcopy
  have hkeys := fun a b => @key_of_replaces dev st.dev 1 hnodup h.peers haddrs a b
  refine ⟨?_, congrArg DeviceHeader.listenPort h.header, congrArg DeviceHeader.fwmark h.header, ?_,
    fun addr => route_of_rel (hcopy.1 addr) hkeys, fun addr => route_of_rel (hcopy.2 addr) hkeys⟩
  · have hpriv := congrArg DeviceHeader.privateKey h.header
    split_ifs with hzero
    · rwa [hzero] at hpriv
    · exact hpriv.trans (hkeyed.clamped.resolve_left hzero)
  · have hconfigs := congrArg (List.map Prod.snd) h.peers
    rw [List.map_map, rebuiltPeers, List.map_reverse, List.map_map] at hconfigs
    have hplaces := congrArg (List.map fun p => p.peerConfig.inSeconds)
      (List.zipIdx_map_fst 1 dev.peers)
    rw [List.map_map] at hplaces
    exact hconfigs.trans (congrArg List.reverse hplaces)

/-- The request that a device's response is, on a new device. -/
theorem restores_getText (hkeyed : dev.Keyed) (hpointers : dev.Pointers)
    (hnodup : (dev.peers.map Peer.addr).Nodup) (stack rest : List Byte) :
    (processSet c env (deviceInit c) stack (getText dev ++ rest)).err = false ∧
      (processSet c env (deviceInit c) stack (getText dev ++ rest)).aborted = false ∧
      Restores dev (processSet c env (deviceInit c) stack (getText dev ++ rest)).dev := by
  obtain ⟨current, hdone⟩ := @rebuilt_getText c env dev hkeyed stack rest
  rw [processSet, hdone.finish]
  exact ⟨hdone.err, hdone.alive, hdone.restores hkeyed hpointers hnodup⟩

/-- **GET and SET are inverse.**  Take any device that traffic and SET requests which name their
peers have led to.  If its GET response fits the buffer, then what is in the buffer, given to
`process_set` on a new device, is taken without an error and restores the configuration, and every
address is routed to the peer with the same key. -/
theorem get_set_round_trip (c : Crypto) {es : List LifeEvent} (hes : ∀ e ∈ es, e.InUse)
    {mem : ℕ → Byte} {b : Printer Byte}
    (hget : buildGetResponse (lifeRun c (deviceInit c) es) (some mem) = some b)
    (hfits : (getText (lifeRun c (deviceInit c) es)).length <
      getBufferSize (lifeRun c (deviceInit c) es)) (env : Env) (stack : List Byte) :
    (processSet c env (deviceInit c) stack b.cells).err = false ∧
      (processSet c env (deviceInit c) stack b.cells).aborted = false ∧
      Restores (lifeRun c (deviceInit c) es) (processSet c env (deviceInit c) stack b.cells).dev := by
  have hdev := deviceInv_deviceInit c
  have hkeyed := @keyed_lifeRun c _ (keyed_deviceInit c) hdev _ hes
  have hpointers := @pointers_lifeRun c _ (fun v hv => by cases hv) hdev _ hes
  have hnodup := (@DeviceInv.lifeRun c _ hdev es).nodup
  generalize lifeRun c (deviceInit c) es = dev at *
  have hexact : b.Exact 0#8 (getText dev) :=
    Option.some.inj hget ▸ (exact_run_getTexts dev mem).2 hfits
  rw [← List.take_append_drop b.pos b.cells, hexact.holds]
  exact restores_getText hkeyed hpointers hnodup stack _

/-- A request that sets the device up and gives it two peers: one with a preshared key, an IPv4
endpoint, a keepalive interval and AllowedIPs of both families, one with an IPv6 endpoint. -/
def twoPeersRequest : List Byte :=
  ascii "private_key=" ++ List.replicate 64 (chr '4') ++
  ascii "\nlisten_port=51820\nfwmark=7\n" ++ keyLine ++
  ascii "preshared_key=" ++ List.replicate 64 (chr '2') ++
  ascii "\nendpoint=192.0.2.1:51821\npersistent_keepalive_interval=25\n" ++
  ascii "allowed_ip=10.0.0.0/8\nallowed_ip=2001:db8::/32\n" ++
  ascii "public_key=" ++ List.replicate 64 (chr '3') ++
  ascii "\nendpoint=[2001:db8::1]:51822\nallowed_ip=10.1.0.0/16\n\n"

theorem twoPeersRequest_named : NamedRequest ((setLines twoPeersRequest).map viewLine) := by
  have hviews : (setLines twoPeersRequest).map viewLine =
      [.other, .other, .other, .key (some (List.replicate 32 0x11#8)), .peer false, .peer false,
        .peer false, .peer false, .peer false, .key (some (List.replicate 32 0x33#8)),
        .peer false, .peer false] := by
    decide +kernel
  rw [hviews]
  exact (wellFormedRequest_of_keep (by simp) (by simp) (by simp)).namedRequest

/-- The device that this request makes. -/
def twoPeersDevice : Device :=
  lifeRun toyCrypto (deviceInit toyCrypto) [.set (toyEnv 5) [] twoPeersRequest]

theorem get_set_round_trip_twoPeers : twoPeersDevice.peers.length = 2 ∧
    ∃ b : Printer Byte, buildGetResponse twoPeersDevice (some fun _ => 0#8) = some b ∧
      Restores twoPeersDevice
        (processSet toyCrypto (toyEnv 5) (deviceInit toyCrypto) [] b.cells).dev := by
  have hes : ∀ e ∈ [LifeEvent.set (toyEnv 5) [] twoPeersRequest], e.InUse := by
    intro e he
    rw [List.mem_singleton.1 he]
    exact twoPeersRequest_named
  refine ⟨by decide +kernel, _, rfl, ?_⟩
  exact (@get_set_round_trip toyCrypto _ hes (fun _ => 0#8) _ rfl (by decide +kernel) (toyEnv 5)
    []).2.2

end RoundTrip

end Wgx
