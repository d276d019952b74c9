import Wgx.Crypto
import Wgx.Lib.Run

/-!
# BLAKE2s (`blake2s.c`)

* `compress`: one block;
* `init`, `initKey`, `update`, `final`, `blake2s`: the hash of a message that comes in pieces, and
  of one that is there at once;
* `mixHash`, `wgHmacBlake2s`: the two functions of `noise.c` and `crypto.c` that feed it in pieces.

Words are loaded and stored in the byte order of the machine, here the little-endian one.
-/

namespace Wgx.Blake2s

/-- `uint32_t`. -/
abbrev Word := BitVec 32

/-- `BLAKE2S_BLOCKBYTES`. -/
def blockBytes : ℕ := 64

/-- `BLAKE2S_OUTBYTES`. -/
def outBytes : ℕ := 32

/-- `BLAKE2S_KEYBYTES`. -/
def keyBytes : ℕ := 32

/-- `blake2s_IV`. -/
def iv : List Word :=
  [0x6A09E667, 0xBB67AE85, 0x3C6EF372, 0xA54FF53A, 0x510E527F, 0x9B05688C, 0x1F83D9AB, 0x5BE0CD19]

/-- `blake2s_sigma`. -/
def sigma : List (List ℕ) :=
  [[0, 1, 2, 3, 4, 5, 6, 7, 8, 9, 10, 11, 12, 13, 14, 15],
    [14, 10, 4, 8, 9, 15, 13, 6, 1, 12, 0, 2, 11, 7, 5, 3],
    [11, 8, 12, 0, 5, 2, 15, 13, 10, 14, 3, 6, 7, 1, 9, 4],
    [7, 9, 3, 1, 13, 12, 11, 14, 2, 6, 5, 10, 4, 0, 15, 8],
    [9, 0, 5, 7, 2, 4, 10, 15, 14, 1, 11, 12, 6, 8, 3, 13],
    [2, 12, 6, 10, 0, 11, 8, 3, 4, 13, 7, 5, 15, 14, 1, 9],
    [12, 5, 1, 15, 14, 13, 4, 10, 0, 7, 6, 3, 9, 2, 8, 11],
    [13, 11, 7, 14, 12, 1, 3, 9, 5, 0, 15, 4, 8, 6, 2, 10],
    [6, 15, 14, 9, 11, 3, 0, 8, 12, 2, 13, 7, 1, 4, 10, 5],
    [10, 2, 8, 4, 7, 6, 1, 5, 15, 11, 9, 14, 3, 12, 13, 0]]

/-! ### One block -/

/-- `rotr32`. -/
def rotr32 (w : Word) (c : ℕ) : Word := w >>> c ||| w <<< (32 - c)

/-- `load32`. -/
def load32 (src : List Byte) : Word :=
  src.getD 3 0 ++ src.getD 2 0 ++ src.getD 1 0 ++ src.getD 0 0

/-- `store32`. -/
def store32 (w : Word) : List Byte := leBytes 4 w.toNat

/-- The macro `G`, on the message words `m` and the vector `v`. -/
def mix (m : List Word) (r i a b c d : ℕ) (v : List Word) : List Word :=
  let word := fun k => m.getD ((sigma.getD r []).getD k 0) 0
  let v := v.set a (v.getD a 0 + v.getD b 0 + word (2 * i))
  let v := v.set d (rotr32 (v.getD d 0 ^^^ v.getD a 0) 16)
  let v := v.set c (v.getD c 0 + v.getD d 0)
  let v := v.set b (rotr32 (v.getD b 0 ^^^ v.getD c 0) 12)
  let v := v.set a (v.getD a 0 + v.getD b 0 + word (2 * i + 1))
  let v := v.set d (rotr32 (v.getD d 0 ^^^ v.getD a 0) 8)
  let v := v.set c (v.getD c 0 + v.getD d 0)
  v.set b (rotr32 (v.getD b 0 ^^^ v.getD c 0) 7)

/-- The macro `ROUND`. -/
def round (m : List Word) (v : List Word) (r : ℕ) : List Word :=
  let v := mix m r 0 0 4 8 12 v
  let v := mix m r 1 1 5 9 13 v
  let v := mix m r 2 2 6 10 14 v
  let v := mix m r 3 3 7 11 15 v
  let v := mix m r 4 0 5 10 15 v
  let v := mix m r 5 1 6 11 12 v
  let v := mix m r 6 2 7 8 13 v
  mix m r 7 3 4 9 14 v

/-- The fields of `blake2s_state` but for the buffer. -/
structure Chain where
  h : List Word
  t0 : Word
  t1 : Word
  f0 : Word
  f1 : Word
  outlen : ℕ
  lastNode : Bool

/-- `blake2s_compress`, on the block at `block`. -/
def compress (s : Chain) (block : List Byte) : Chain :=
  let m := (List.range 16).map fun i => load32 (block.drop (i * 4))
  let v := s.h ++ iv.take 4 ++
    [s.t0 ^^^ iv.getD 4 0, s.t1 ^^^ iv.getD 5 0, s.f0 ^^^ iv.getD 6 0, s.f1 ^^^ iv.getD 7 0]
  let v := (List.range 10).foldl (round m) v
  { s with h := (List.range 8).map fun i => s.h.getD i 0 ^^^ v.getD i 0 ^^^ v.getD (i + 8) 0 }

/-- `blake2s_increment_counter`. -/
def incrementCounter (s : Chain) (inc : Word) : Chain :=
  let s := { s with t0 := s.t0 + inc }
  { s with t1 := s.t1 + if s.t0 < inc then 1 else 0 }

/-! ### Messages -/

/-- `blake2s_state`. -/
structure State where
  chain : Chain
  buf : List Byte
  buflen : ℕ

/-- `blake2s_init_param`, on a parameter block with the given lengths, one leaf and depth one. -/
def initParam (digestLength keyLength : ℕ) : State :=
  let p : List Byte := [BitVec.ofNat 8 digestLength, BitVec.ofNat 8 keyLength, 1, 1] ++
    List.replicate 28 0
  let h := (List.range 8).map fun i => iv.getD i 0 ^^^ load32 (p.drop (4 * i))
  ⟨⟨h, 0, 0, 0, 0, (BitVec.ofNat 8 digestLength).toNat, false⟩, List.replicate blockBytes 0, 0⟩

/-- `blake2s_init`. -/
def init (outlen : ℕ) : Option State :=
  if outlen = 0 ∨ outBytes < outlen then none else some (initParam outlen 0)

/-- The loop of `blake2s_update`; the fuel is the number of bytes. -/
def updateLoop : ℕ → Chain → List Byte → Chain × List Byte
  | 0, s, pin => (s, pin)
  | fuel + 1, s, pin =>
    if blockBytes < pin.length then
      updateLoop fuel (compress (incrementCounter s 64) (pin.take blockBytes)) (pin.drop blockBytes)
    else (s, pin)

/-- The end of `blake2s_update`: what is left goes into the buffer. -/
def State.append (s : State) (pin : List Byte) : State :=
  { s with
    buf := s.buf.take s.buflen ++ memcpy (s.buf.drop s.buflen) pin pin.length
    buflen := s.buflen + pin.length }

/-- `blake2s_update`. -/
def update (s : State) (pin : List Byte) : State :=
  if pin = [] then s
  else
    let left := s.buflen
    let fill := blockBytes - left
    if fill < pin.length then
      let buf := s.buf.take left ++ memcpy (s.buf.drop left) pin fill
      let chain := compress (incrementCounter s.chain 64) buf
      let (chain, pin) := updateLoop pin.length chain (pin.drop fill)
      State.append ⟨chain, buf, 0⟩ pin
    else s.append pin

/-- `blake2s_init_key`. -/
def initKey (outlen : ℕ) (key : List Byte) : Option State :=
  if outlen = 0 ∨ outBytes < outlen then none
  else if key = [] ∨ keyBytes < key.length then none
  else some (update (initParam outlen key.length)
    (memcpy (List.replicate blockBytes 0) key key.length))

/-- `blake2s_final`. -/
def final (s : State) (outlen : ℕ) : Option (List Byte) :=
  if outlen < s.chain.outlen then none
  else
    let chain := { s.chain with
      f0 := BitVec.allOnes 32
      f1 := if s.chain.lastNode then BitVec.allOnes 32 else s.chain.f1 }
    let chain := incrementCounter chain (BitVec.ofNat 32 s.buflen)
    let buf := s.buf.take s.buflen ++ List.replicate (blockBytes - s.buflen) 0
    let chain := compress chain buf
    some ((chain.h.flatMap store32).take chain.outlen)

/-- The state in which `blake2s` starts. -/
def start (outlen : ℕ) (key : List Byte) : Option State :=
  if 0 < key.length then initKey outlen key else init outlen

/-- `blake2s`. -/
def blake2s (outlen : ℕ) (data key : List Byte) : Option (List Byte) :=
  (start outlen key).bind fun s => final (update s data) outlen

example : blake2s 32 (ascii "abc") [] = some
    [0x50, 0x8c, 0x5e, 0x8c, 0x32, 0x7c, 0x14, 0xe2, 0xe1, 0xa7, 0x2b, 0xa3, 0x4e, 0xeb, 0x45, 0x2f,
      0x37, 0x45, 0x8b, 0x20, 0x9e, 0xd6, 0x3a, 0x29, 0x4d, 0x99, 0x9b, 0x4c, 0x86, 0x67, 0x59,
      0x82] := by
  decide +kernel

/-! ### The functions that hash in pieces -/

/-- `mix_hash`. -/
def mixHash (h data : List Byte) : Option (List Byte) :=
  (init 32).bind fun s => final (update (update s h) data) 32

/-- `wg_hmac_blake2s`; an absent second input is the empty one. -/
def wgHmacBlake2s (key in0 in1 : List Byte) : Option (List Byte) :=
  let zeros := List.replicate blockBytes 0
  (if blockBytes < key.length then (blake2s 32 key []).map fun out => memcpy zeros out 32
    else some (memcpy zeros key key.length)).bind fun k =>
  let ipad := k.map (· ^^^ 0x36#8)
  let opad := k.map (· ^^^ 0x5c#8)
  (init 32).bind fun s =>
  let s := update (update s ipad) in0
  let s := if in1 = [] then s else update s in1
  (final s 32).bind fun inner =>
  (init 32).bind fun s => final (update (update s opad) inner) 32

end Wgx.Blake2s
