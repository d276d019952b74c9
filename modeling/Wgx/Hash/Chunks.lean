import Wgx.Hash.Blake2s
import Wgx.Lib.Blocks
import Wgx.Noise.Handshake

/-!
# A message hashed in pieces

`blake2s_update` keeps a full block in the buffer until more input comes, and compresses blocks in
the middle of a long input where they stand.  What counts of its state are the chain and the bytes
that are pending in the buffer; those behind them are left over from earlier blocks.

* `State.Ok`, `State.gather`: the buffer, and what counts of a state;
* `update_gather`, `final_gather`: the functions on what counts;
* `hmac`: HMAC over a hash function;
* `hash_of_chunks`: the digest does not depend on the pieces.
-/

namespace Wgx.Blake2s

open Blocks

/-- The buffer is a block, and so is what is pending in it. -/
structure State.Ok (s : State) : Prop where
  length : s.buf.length = blockBytes
  buflen : s.buflen ≤ blockBytes

/-- What counts of a state: the chain, and the bytes that are pending. -/
def State.gather (s : State) : Gather Chain Byte := ⟨s.chain, s.buf.take s.buflen⟩

/-- A block in the middle of a message. -/
def foldBlock (s : Chain) (block : List Byte) : Chain := compress (incrementCounter s 64) block

/-- One more piece of the message. -/
abbrev gathered (g : Gather Chain Byte) (data : List Byte) : Gather Chain Byte :=
  absorb blockBytes foldBlock g data

theorem State.Ok.pending {s : State} (h : s.Ok) : s.gather.pending.length = s.buflen := by
  simp [State.gather, h.length, h.buflen]

/-- The loop takes whole blocks as long as something is left behind them. -/
theorem updateLoop_gathered {fuel : ℕ} {chain : Chain} {pin : List Byte} (hpin : pin ≠ [])
    (hfuel : pin.length ≤ fuel) :
    (updateLoop fuel chain pin).2.length ≤ blockBytes ∧
      gathered ⟨chain, []⟩ pin =
        ⟨(updateLoop fuel chain pin).1, (updateLoop fuel chain pin).2⟩ := by
  induction fuel generalizing chain pin with
  | zero => exact absurd (List.length_eq_zero_iff.mp (Nat.le_zero.mp hfuel)) hpin
  | succ fuel ih =>
    rw [updateLoop]
    by_cases hmore : blockBytes < pin.length
    · rw [if_pos hmore]
      have hrest : pin.drop blockBytes ≠ [] := by
        rw [Ne, List.drop_eq_nil_iff]
        omega
      have hlen : (pin.drop blockBytes).length ≤ fuel := by
        rw [List.length_drop, show blockBytes = 64 from rfl]
        omega
      have hblock : gathered ⟨chain, []⟩ (pin.take blockBytes ++ pin.drop blockBytes) =
          gathered ⟨foldBlock chain (pin.take blockBytes), []⟩ (pin.drop blockBytes) :=
        absorb_block (by decide) (by simp [hmore.le]) hrest
      rw [List.take_append_drop] at hblock
      rw [hblock]
      exact ih hrest hlen
    · rw [if_neg hmore]
      exact ⟨not_lt.mp hmore, absorb_of_le (by simpa using not_lt.mp hmore)⟩

/-- Bytes that fit are appended to the pending ones. -/
theorem append_gather {s : State} (h : s.Ok) {pin : List Byte}
    (hfits : s.buflen + pin.length ≤ blockBytes) :
    (s.append pin).Ok ∧ (s.append pin).gather = ⟨s.chain, s.buf.take s.buflen ++ pin⟩ := by
  have hlen := h.length
  have hle := h.buflen
  have htake : (s.buf.take s.buflen).length = s.buflen := by
    rw [List.length_take]
    omega
  refine ⟨⟨?_, hfits⟩, ?_⟩
  · simp only [State.append, memcpy, List.take_length, List.length_append, List.length_drop, htake]
    omega
  · simp only [State.gather, State.append, memcpy, List.take_length]
    congr 1
    rw [← List.append_assoc]
    exact List.take_left' (by rw [List.length_append, htake])

/-- **`blake2s_update` gathers its input**, and the buffer stays within its block. -/
theorem update_gather {s : State} (h : s.Ok) (pin : List Byte) :
    (update s pin).Ok ∧ (update s pin).gather = gathered s.gather pin := by
  by_cases hnil : pin = []
  · rw [update, if_pos hnil, hnil]
    exact ⟨h, rfl⟩
  · rw [update, if_neg hnil]
    have hle := h.buflen
    have hlen := h.length
    by_cases hfill : blockBytes - s.buflen < pin.length
    · simp only [if_pos hfill]
      have hbuf : s.buf.take s.buflen ++
          memcpy (s.buf.drop s.buflen) pin (blockBytes - s.buflen) =
            s.buf.take s.buflen ++ pin.take (blockBytes - s.buflen) := by
        rw [memcpy, List.drop_eq_nil_iff.mpr (by rw [List.length_drop, hlen]), List.append_nil]
      have hrest : pin.drop (blockBytes - s.buflen) ≠ [] := by
        rw [Ne, List.drop_eq_nil_iff]
        omega
      have hblock : gathered s.gather
          (pin.take (blockBytes - s.buflen) ++ pin.drop (blockBytes - s.buflen)) =
            gathered ⟨foldBlock s.chain
              (s.buf.take s.buflen ++ pin.take (blockBytes - s.buflen)), []⟩
              (pin.drop (blockBytes - s.buflen)) := by
        refine absorb_block (by decide) ?_ hrest
        rw [h.pending, List.length_take]
        omega
      rw [List.take_append_drop] at hblock
      have hlenbuf : (s.buf.take s.buflen ++
          pin.take (blockBytes - s.buflen)).length = blockBytes := by
        rw [List.length_append, List.length_take, List.length_take]
        omega
      rw [hbuf, hblock]
      generalize s.buf.take s.buflen ++ pin.take (blockBytes - s.buflen) = buf at hlenbuf ⊢
      obtain ⟨hfits, hloop⟩ := @updateLoop_gathered pin.length (foldBlock s.chain buf) _ hrest
        (by rw [List.length_drop]; omega)
      have hok : State.Ok ⟨(updateLoop pin.length (foldBlock s.chain buf)
          (pin.drop (blockBytes - s.buflen))).1, buf, 0⟩ := ⟨hlenbuf, Nat.zero_le _⟩
      obtain ⟨hok', hgather⟩ := append_gather hok ((Nat.zero_add _).trans_le hfits)
      exact ⟨hok', hgather.trans hloop.symm⟩
    · simp only [if_neg hfill]
      obtain ⟨hok, hgather⟩ := @append_gather s h pin (by omega)
      have hfits : s.gather.pending.length + pin.length ≤ blockBytes := by
        rw [h.pending]
        omega
      exact ⟨hok, hgather.trans (absorb_of_le hfits).symm⟩

/-- Pieces of a message, one after the other. -/
theorem run_gather {s : State} (h : s.Ok) (chunks : List (List Byte)) :
    (Machine.run update s chunks).Ok ∧
      (Machine.run update s chunks).gather = gathered s.gather chunks.flatten := by
  rw [gathered, ← absorb_flatten]
  induction chunks generalizing s with
  | nil => exact ⟨h, rfl⟩
  | cons chunk chunks ih =>
    obtain ⟨hok, hgather⟩ := update_gather h chunk
    rw [gathered] at hgather
    rw [List.foldl_cons, ← hgather]
    exact ih hok

/-- The digest is made from what counts. -/
theorem final_congr {s s' : State} (h : s.Ok) (h' : s'.Ok) (hgather : s.gather = s'.gather)
    (outlen : ℕ) : final s outlen = final s' outlen := by
  have hchain : s.chain = s'.chain := congrArg Gather.acc hgather
  have hpending : s.buf.take s.buflen = s'.buf.take s'.buflen := congrArg Gather.pending hgather
  have hlen : s.buflen = s'.buflen := by rw [← h.pending, ← h'.pending, hgather]
  rw [hlen] at hpending
  simp only [final, hchain, hpending, hlen]

/-! ### Whole messages -/

theorem ok_initParam (digestLength keyLength : ℕ) : (initParam digestLength keyLength).Ok :=
  ⟨List.length_replicate, Nat.zero_le _⟩

theorem ok_start {outlen : ℕ} {key : List Byte} {s : State} (h : start outlen key = some s) :
    s.Ok := by
  unfold start initKey init at h
  split_ifs at h
  · cases h
    exact (update_gather (ok_initParam ..) _).1
  · cases h
    exact ok_initParam ..

/-- The same digest from two ways of splitting a message. -/
theorem final_run {s : State} (h : s.Ok) {chunks chunks' : List (List Byte)}
    (hflat : chunks.flatten = chunks'.flatten) (outlen : ℕ) :
    final (Machine.run update s chunks) outlen = final (Machine.run update s chunks') outlen := by
  obtain ⟨hok, hgather⟩ := run_gather h chunks
  obtain ⟨hok', hgather'⟩ := run_gather h chunks'
  exact final_congr hok hok' (by rw [hgather, hgather', hflat]) outlen

theorem blake2s_of_chunks (outlen : ℕ) (key : List Byte) (chunks : List (List Byte)) :
    ((start outlen key).bind fun s => final (Machine.run update s chunks) outlen) =
      blake2s outlen chunks.flatten key := by
  unfold blake2s
  cases hs : start outlen key with
  | none => rw [Option.bind_none, Option.bind_none]
  | some s =>
    have hone : Machine.run update s [chunks.flatten] = update s chunks.flatten := by
      rw [Machine.run, List.foldl_cons, List.foldl_nil]
    rw [Option.bind_some, Option.bind_some, ← hone]
    exact final_run (ok_start hs) (by simp) outlen

/-- The lengths that `blake2s` takes. -/
theorem exists_start {outlen : ℕ} {key : List Byte} (hpos : 0 < outlen) (hout : outlen ≤ outBytes)
    (hkey : key.length ≤ keyBytes) : ∃ s, start outlen key = some s := by
  unfold start initKey init
  rw [if_neg (not_or.mpr ⟨hpos.ne', not_lt.mpr hout⟩)]
  by_cases hnil : key = []
  · rw [if_neg (by simp [hnil]), if_neg (not_or.mpr ⟨hpos.ne', not_lt.mpr hout⟩)]
    exact ⟨_, rfl⟩
  · rw [if_pos (List.length_pos_iff.mpr hnil), if_neg (not_or.mpr ⟨hnil, not_lt.mpr hkey⟩)]
    exact ⟨_, rfl⟩

theorem outlen_updateLoop (fuel : ℕ) (chain : Chain) (pin : List Byte) :
    (updateLoop fuel chain pin).1.outlen = chain.outlen := by
  induction fuel generalizing chain pin with
  | zero => rfl
  | succ fuel ih =>
    rw [updateLoop]
    split_ifs
    · rw [ih]
      rfl
    · rfl

theorem outlen_update (s : State) (pin : List Byte) :
    (update s pin).chain.outlen = s.chain.outlen := by
  unfold update
  split_ifs
  · rfl
  · simp only
    split_ifs
    · exact outlen_updateLoop ..
    · rfl

theorem length_final {s : State} {outlen : ℕ} (hout : s.chain.outlen ≤ outBytes)
    (h : s.chain.outlen ≤ outlen) :
    ∃ out, final s outlen = some out ∧ out.length = s.chain.outlen := by
  have hstore : ∀ ws : List Word, (ws.flatMap store32).length = 4 * ws.length := by
    intro ws
    induction ws with
    | nil => rfl
    | cons w ws ih =>
      rw [List.flatMap_cons, List.length_append, ih, List.length_cons]
      simp only [store32, leBytes, List.length_map, List.length_range]
      omega
  unfold final
  rw [if_neg (not_lt.mpr h)]
  refine ⟨_, rfl, ?_⟩
  simp only [compress, incrementCounter, List.length_take, hstore, List.length_map,
    List.length_range]
  exact min_eq_left hout

/-- The lengths that `blake2s` takes, and the length of the digest. -/
theorem exists_digest {outlen : ℕ} {key : List Byte} (hpos : 0 < outlen) (hout : outlen ≤ outBytes)
    (hkey : key.length ≤ keyBytes) (data : List Byte) :
    ∃ out, blake2s outlen data key = some out ∧ out.length = outlen := by
  obtain ⟨s, hs⟩ := exists_start hpos hout hkey
  have hbyte : (BitVec.ofNat 8 outlen).toNat = outlen := by
    rw [BitVec.toNat_ofNat]
    have : outBytes = 32 := rfl
    omega
  have hlen : s.chain.outlen = outlen := by
    unfold start initKey init at hs
    split_ifs at hs
    · cases hs
      rw [outlen_update]
      exact hbyte
    · cases hs
      exact hbyte
  obtain ⟨out, hfinal, hdigest⟩ := @length_final (update s data) outlen
    (by rw [outlen_update, hlen]; exact hout) (by rw [outlen_update, hlen])
  rw [outlen_update, hlen] at hdigest
  exact ⟨out, by rw [blake2s, hs, Option.bind_some, hfinal], hdigest⟩

/-! ### The hash of the protocol -/

/-- BLAKE2s-256 without a key. -/
def blake2s256 (msg : List Byte) : List Byte := (blake2s 32 msg []).getD []

/-- HMAC over a hash function with blocks of the given size. -/
def hmac (hash : List Byte → List Byte) (block : ℕ) (key msg : List Byte) : List Byte :=
  let key := if block < key.length then hash key else key
  let padded := key ++ List.replicate (block - key.length) 0
  hash (padded.map (· ^^^ 0x5c#8) ++ hash (padded.map (· ^^^ 0x36#8) ++ msg))

theorem blake2s_eq (msg : List Byte) :
    blake2s 32 msg [] = some (blake2s256 msg) ∧ (blake2s256 msg).length = 32 := by
  obtain ⟨out, hout, hlen⟩ := @exists_digest 32 [] (by decide) (by decide) (by decide) msg
  rw [blake2s256, hout]
  exact ⟨rfl, hlen⟩

/-- The hash of some pieces. -/
theorem final_pieces (chunks : List (List Byte)) :
    final (Machine.run update (initParam 32 0) chunks) 32 = some (blake2s256 chunks.flatten) := by
  have hstart : start 32 [] = some (initParam 32 0) := by
    rw [start, if_neg (by simp), init, if_neg (by decide)]
  have h := blake2s_of_chunks 32 [] chunks
  rw [hstart, Option.bind_some, (blake2s_eq _).1] at h
  exact h

theorem init_32 : init 32 = some (initParam 32 0) := by
  rw [init, if_neg (by decide)]

/-- **`mix_hash` is the hash of one after the other.** -/
theorem mixHash_eq (h data : List Byte) : mixHash h data = some (blake2s256 (h ++ data)) := by
  have hpieces := final_pieces [h, data]
  rw [Machine.run, List.foldl_cons, List.foldl_cons, List.foldl_nil] at hpieces
  rw [mixHash, init_32, Option.bind_some, hpieces]
  simp

/-- The key of HMAC, hashed if it is too long, and padded to a block. -/
theorem padded_key {hash : List Byte} (hlen : hash.length = 32) (key : List Byte) :
    (if blockBytes < key.length then memcpy (List.replicate blockBytes 0) hash 32
      else memcpy (List.replicate blockBytes 0) key key.length) =
      (if blockBytes < key.length then hash else key) ++ List.replicate
        (blockBytes - (if blockBytes < key.length then hash else key).length) 0 := by
  split_ifs
  · rw [memcpy, List.take_of_length_le hlen.le, List.drop_replicate, hlen]
  · rw [memcpy, List.take_length, List.drop_replicate]

/-- **`wg_hmac_blake2s` is HMAC over BLAKE2s-256**, of its two inputs one after the other. -/
theorem wgHmacBlake2s_eq (key in0 in1 : List Byte) :
    wgHmacBlake2s key in0 in1 = some (hmac blake2s256 blockBytes key (in0 ++ in1)) := by
  have hkey : (if blockBytes < key.length then
      (blake2s 32 key []).map fun out => memcpy (List.replicate blockBytes 0) out 32
      else some (memcpy (List.replicate blockBytes 0) key key.length)) =
      some ((if blockBytes < key.length then blake2s256 key else key) ++ List.replicate
        (blockBytes - (if blockBytes < key.length then blake2s256 key else key).length) 0) := by
    obtain ⟨hhash, hlen⟩ := blake2s_eq key
    rw [hhash, Option.map_some, ← padded_key hlen key]
    split_ifs <;> rfl
  have htwo : ∀ a b : List Byte, final (update (update (initParam 32 0) a) b) 32 =
      some (blake2s256 (a ++ b)) := by
    intro a b
    have hpieces := final_pieces [a, b]
    rw [Machine.run, List.foldl_cons, List.foldl_cons, List.foldl_nil] at hpieces
    rw [hpieces]
    simp
  have hthree : ∀ a b c : List Byte,
      final (if c = [] then update (update (initParam 32 0) a) b
        else update (update (update (initParam 32 0) a) b) c) 32 =
      some (blake2s256 (a ++ (b ++ c))) := by
    intro a b c
    split_ifs with hc
    · rw [htwo, hc, List.append_nil]
    · have hpieces := final_pieces [a, b, c]
      rw [Machine.run, List.foldl_cons, List.foldl_cons, List.foldl_cons, List.foldl_nil] at hpieces
      rw [hpieces]
      simp
  simp only [wgHmacBlake2s, hkey, Option.bind_some, init_32, hthree, htwo]
  rfl

/-- **The digest does not depend on the pieces** in which a message is hashed, and the buffer stays
within its block; so `mix_hash` and `wg_hmac_blake2s` hash what their inputs add up to. -/
theorem hash_of_chunks (outlen : ℕ) (key : List Byte) (chunks : List (List Byte)) :
    ((start outlen key).bind fun s => final (Machine.run update s chunks) outlen) =
        blake2s outlen chunks.flatten key ∧
      (∀ s, start outlen key = some s → ∀ pre, pre <+: chunks →
        (Machine.run update s pre).buflen ≤ blockBytes) ∧
      (0 < outlen → outlen ≤ outBytes → key.length ≤ keyBytes →
        ∃ out, blake2s outlen chunks.flatten key = some out ∧ out.length = outlen) ∧
      (∀ h data, mixHash h data = blake2s 32 (h ++ data) []) ∧
      ∀ k a b, wgHmacBlake2s k a b = some (hmac blake2s256 blockBytes k (a ++ b)) := by
  refine ⟨blake2s_of_chunks outlen key chunks, ?_, ?_, ?_, wgHmacBlake2s_eq⟩
  · intro s hs pre _
    exact (run_gather (ok_start hs) pre).1.buflen
  · intro hpos hout hkey
    exact exists_digest hpos hout hkey chunks.flatten
  · intro h data
    rw [mixHash_eq, (blake2s_eq _).1]

/-- Primitives whose hash is this one: the functions that the handshake uses are those of the
source. -/
theorem protocol_hashes {c : Crypto}
    (hc : ∀ n data key, c.blake2s n data key = (blake2s n data key).getD []) :
    (∀ h data, mixHash h data = some (Wgx.mixHash c h data)) ∧
      ∀ k a b, wgHmacBlake2s k a b = some (Wgx.wgHmacBlake2s c k a b) := by
  have hhash : ∀ msg, c.blake2s 32 msg [] = blake2s256 msg := fun msg => hc 32 msg []
  constructor
  · intro h data
    rw [mixHash_eq, Wgx.mixHash, hhash]
  · intro k a b
    have hkey := padded_key (blake2s_eq k).2 k
    simp only [wgHmacBlake2s_eq, hmac, Wgx.wgHmacBlake2s, hhash, List.append_assoc]
    rw [← hkey]
    rfl

end Wgx.Blake2s
