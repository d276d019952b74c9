import Wgx.AllowedIps.Refine
import Wgx.Device.Peers
import Wgx.Lib.Printer
import Wgx.Uapi.Print

/-!
# GET responses (`uapi.c`)

`build_get_response` prints the state of the device line by line into a buffer whose size depends on
the number of peers only.

* `GetField`, `peerFields`, `getFields`: the lines, one `snprintf` each;
* `buildGetResponse`: what is in the buffer behind all calls;
* `get_response_exact_iff`: the buffer holds the response and a NUL exactly if the text is shorter
  than it.
-/

namespace Wgx

open AllowedIps

/-! ### Lines -/

/-- A field of the response. -/
structure GetField where
  key : List Byte
  val : List Byte

/-- The line of a field. -/
def GetField.line (f : GetField) : List Byte := f.key ++ chr '=' :: f.val

/-- The line and its newline. -/
def GetField.text (f : GetField) : List Byte := f.line ++ [chr '\n']

/-- `endpoint_len` is not 0. -/
def endpointText : Endpoint → List Byte
  | .v4 addr port => inetNtop4 addr ++ chr ':' :: unsignedText port.toNat
  | .v6 addr port => chr '[' :: inetNtop6 addr ++ ascii "]:" ++ unsignedText port.toNat

/-- The address of a node. -/
def addrText (n : Visit ℕ) : List Byte :=
  if n.ipVersion = 4 then inetNtop4 (Vector.ofFn fun i => n.bits.getD i 0)
  else inetNtop6 (Vector.ofFn fun i => n.bits.getD i 0)

/-- The prefix of a node. -/
def prefixText (n : Visit ℕ) : List Byte := addrText n ++ chr '/' :: unsignedText n.cidr

/-- `aip_walk_cb`. -/
def aipWalkCb (peer : ℕ) (n : Visit ℕ) : Option GetField :=
  if n.peer ≠ peer then none else some ⟨ascii "allowed_ip", prefixText n⟩

/-- The fields of a peer. -/
def peerFields (table : Table ℕ) (p : Peer) : List GetField :=
  ⟨ascii "public_key", hexEncode p.publicKey⟩ ::
  (if p.handshake.psk = zeroKey then []
    else [⟨ascii "preshared_key", hexEncode p.handshake.psk⟩]) ++
  (p.endpoint.map fun ep => (⟨ascii "endpoint", endpointText ep⟩ : GetField)).toList ++
  [⟨ascii "last_handshake_time_sec", signedText (p.lastHandshakeNs.toInt.tdiv 1000000000)⟩,
    ⟨ascii "last_handshake_time_nsec", signedText (p.lastHandshakeNs.toInt.tmod 1000000000)⟩,
    ⟨ascii "rx_bytes", unsignedText p.rxBytes.toNat⟩,
    ⟨ascii "tx_bytes", unsignedText p.txBytes.toNat⟩,
    ⟨ascii "persistent_keepalive_interval", unsignedText (p.persistentKeepaliveMs.toNat / 1000)⟩] ++
  (allowedipsWalk table).filterMap (aipWalkCb p.addr)

/-- The fields of the device itself. -/
def deviceFields (dev : Device) : List GetField :=
  ⟨ascii "private_key", hexEncode dev.privateKey⟩ ::
  ⟨ascii "listen_port", unsignedText dev.listenPort.toNat⟩ ::
  if dev.fwmark = 0 then [] else [⟨ascii "fwmark", unsignedText dev.fwmark.toNat⟩]

/-- All fields but the last one, in the order of the calls. -/
def getFields (dev : Device) : List GetField :=
  deviceFields dev ++ dev.peers.flatMap (peerFields dev.allowedips)

/-- The last field. -/
def errnoField : GetField := ⟨ascii "errno", ascii "0"⟩

/-- What the calls of `snprintf` print, in order. -/
def getTexts (dev : Device) : List (List Byte) :=
  (getFields dev).map GetField.text ++ [errnoField.text ++ [chr '\n']]

/-- The whole text. -/
def getText (dev : Device) : List Byte := (getTexts dev).flatten

/-- The size of the buffer. -/
def getBufferSize (dev : Device) : ℕ := 1024 + dev.peers.length * 512

/-- `build_get_response`, on memory with arbitrary contents, if `malloc` returns any. -/
def buildGetResponse (dev : Device) (mem : Option (ℕ → Byte)) : Option (Printer Byte) :=
  mem.map fun m =>
    ((Printer.fresh ((List.range (getBufferSize dev)).map m)).run 0#8 (getTexts dev))

/-! ### The response and the buffer -/

theorem getText_getLast (dev : Device) : (getText dev).getLast? = some (chr '\n') := by
  rw [getText, getTexts, List.flatten_append, List.flatten_singleton, ← List.append_assoc,
    List.getLast?_concat]

theorem exact_run_getTexts (dev : Device) (m : ℕ → Byte) :
    ((Printer.fresh ((List.range (getBufferSize dev)).map m)).run 0#8 (getTexts dev)).Exact 0#8
      (getText dev) ↔ (getText dev).length < getBufferSize dev := by
  have htfae := @Printer.exact_run_tfae Byte 0#8 ((List.range (getBufferSize dev)).map m)
    (getTexts dev) (chr '\n') (getText_getLast dev) (by decide)
  rw [List.length_map, List.length_range] at htfae
  exact htfae.out 0 2

/-- **When the response is complete and nothing is written behind the buffer**: exactly if the text
is shorter than the buffer, which then holds the text and a NUL behind it. -/
theorem get_response_exact_iff (dev : Device) (m : ℕ → Byte) :
    (∃ b, buildGetResponse dev (some m) = some b ∧ b.Exact 0#8 (getText dev)) ↔
      (getText dev).length < getBufferSize dev := by
  refine Iff.trans ?_ (exact_run_getTexts dev m)
  constructor
  · rintro ⟨b, hb, hexact⟩
    obtain rfl := Option.some.inj hb
    exact hexact
  · exact fun h => ⟨_, rfl, h⟩

end Wgx
