import Wgx.Basic

/-!
# Cryptographic primitives (`crypto.c`, `tai64n.c`)

The primitives of libsodium and the hash of `blake2s.c` are parameters (`Crypto`): nothing in the
protocol depends on what they compute.  What the code builds on them (HMAC, the three KDFs, key
clamping, the comparison of timestamps) is modelled as it stands.

libsodium is taken to initialise, so that encryption and key generation do not fail.
-/

namespace Wgx

/-- The primitives.  `scalarmult` is `none` where libsodium refuses the point, that is where the
shared secret would be zero; nothing is written to the output then. -/
structure Crypto where
  /-- `blake2s`, with the output length, the input and the key (empty for none). -/
  blake2s : (outlen : ℕ) → (data key : List Byte) → List Byte
  /-- `crypto_scalarmult_curve25519_base`. -/
  scalarmultBase : (priv : List Byte) → List Byte
  /-- `crypto_scalarmult_curve25519`. -/
  scalarmult : (priv pub : List Byte) → Option (List Byte)
  /-- `crypto_aead_chacha20poly1305_ietf_encrypt`. -/
  aeadEncrypt : (key nonce plaintext aad : List Byte) → List Byte
  /-- `crypto_aead_chacha20poly1305_ietf_decrypt`. -/
  aeadDecrypt : (key nonce ciphertext aad : List Byte) → Option (List Byte)
  /-- `crypto_aead_xchacha20poly1305_ietf_encrypt`. -/
  xaeadEncrypt : (key nonce plaintext aad : List Byte) → List Byte
  /-- `crypto_aead_xchacha20poly1305_ietf_decrypt`. -/
  xaeadDecrypt : (key nonce ciphertext aad : List Byte) → Option (List Byte)

/-- Decryption undoes encryption. -/
def Crypto.AeadRoundTrip (c : Crypto) : Prop :=
  ∀ key nonce plaintext aad,
    c.aeadDecrypt key nonce (c.aeadEncrypt key nonce plaintext aad) aad = some plaintext

/-- `WG_KEY_LEN` zero bytes. -/
def zeroKey : List Byte := List.replicate 32 0#8

/-- The two private keys agree on a secret that is not zero. -/
def Crypto.Agree (c : Crypto) (a b : List Byte) : Prop :=
  ∃ s, c.scalarmult a (c.scalarmultBase b) = some s ∧
    c.scalarmult b (c.scalarmultBase a) = some s ∧ s ≠ zeroKey

/-- Any two private keys agree. -/
def Crypto.DhAgrees (c : Crypto) : Prop :=
  ∀ a b : List Byte, a.length = 32 → b.length = 32 → c.Agree a b

section Functions

variable (c : Crypto)

/-- `wg_blake2s256`. -/
def wgBlake2s256 (data : List Byte) : List Byte := c.blake2s 32 data []

/-- `wg_blake2s128_mac`. -/
def wgBlake2s128Mac (key data : List Byte) : List Byte := c.blake2s 16 data key

/-- `wg_hmac_blake2s`; an absent second input is the empty one. -/
def wgHmacBlake2s (key in0 in1 : List Byte) : List Byte :=
  let zeros := List.replicate 64 0#8
  let k := if 64 < key.length then memcpy zeros (c.blake2s 32 key []) 32
    else memcpy zeros key key.length
  let ipad := k.map (· ^^^ 0x36#8)
  let opad := k.map (· ^^^ 0x5c#8)
  let inner := c.blake2s 32 (ipad ++ in0 ++ in1) []
  c.blake2s 32 (opad ++ inner) []

/-- `wg_kdf1`. -/
def wgKdf1 (key input : List Byte) : List Byte :=
  let prk := wgHmacBlake2s c key input []
  wgHmacBlake2s c prk [0x01#8] []

/-- `wg_kdf2`. -/
def wgKdf2 (key input : List Byte) : List Byte × List Byte :=
  let prk := wgHmacBlake2s c key input []
  let t0 := wgHmacBlake2s c prk [0x01#8] []
  let t1 := wgHmacBlake2s c prk t0 [0x02#8]
  (t0, t1)

/-- `wg_kdf3`. -/
def wgKdf3 (key input : List Byte) : List Byte × List Byte × List Byte :=
  let prk := wgHmacBlake2s c key input []
  let t0 := wgHmacBlake2s c prk [0x01#8] []
  let t1 := wgHmacBlake2s c prk t0 [0x02#8]
  let t2 := wgHmacBlake2s c prk t1 [0x03#8]
  (t0, t1, t2)

/-- `wg_clamp_private_key`. -/
def wgClampPrivateKey (priv : List Byte) : List Byte :=
  (priv.modify 0 (· &&& 248#8)).modify 31 fun b => b &&& 127#8 ||| 64#8

/-- `wg_generate_private_key`, from the random bytes drawn. -/
def wgGeneratePrivateKey (random : List Byte) : List Byte := wgClampPrivateKey random

theorem length_wgGeneratePrivateKey (random : Vector Byte 32) :
    (wgGeneratePrivateKey random.toList).length = 32 := by
  simp [wgGeneratePrivateKey, wgClampPrivateKey]

/-- `wg_generate_public_key`. -/
def wgGeneratePublicKey (priv : List Byte) : List Byte := c.scalarmultBase priv

/-- `wg_dh`. -/
def wgDh (priv pub : List Byte) : Option (List Byte) := c.scalarmult priv pub

end Functions

/-- A word in little-endian bytes. -/
def leBytes (n x : ℕ) : List Byte := (List.range n).map fun i => BitVec.ofNat 8 (x / 256 ^ i)

/-- The bytes of a string of the protocol. -/
def ascii (s : String) : List Byte := s.toList.map fun ch => BitVec.ofNat 8 ch.toNat

/-- `memcmp(a, b, n) > 0` on byte strings of one length. -/
def memcmpPos : List Byte → List Byte → Bool
  | a :: as, b :: bs => if a = b then memcmpPos as bs else b < a
  | _, _ => false

/-- `tai64n_after`. -/
def tai64nAfter (a b : List Byte) : Bool := memcmpPos a b

theorem not_tai64nAfter_self (x : List Byte) : ¬ tai64nAfter x x := by
  unfold tai64nAfter
  induction x with
  | nil => simp [memcmpPos]
  | cons a as ih => simpa [memcmpPos] using ih

/-- Among timestamps, not to be after is transitive. -/
theorem not_tai64nAfter_trans {x y z : List Byte} (hxy : x.length = y.length)
    (hyz : y.length = z.length) (h1 : ¬ tai64nAfter x y) (h2 : ¬ tai64nAfter y z) :
    ¬ tai64nAfter x z := by
  unfold tai64nAfter at *
  induction x generalizing y z with
  | nil => simp [memcmpPos]
  | cons a as ih =>
    cases y with
    | nil => cases hxy
    | cons b bs =>
      cases z with
      | nil => cases hyz
      | cons d ds =>
        simp only [List.length_cons, add_left_inj] at hxy hyz
        simp only [memcmpPos] at h1 h2 ⊢
        -- the first bytes that differ decide
        by_cases hab : a = b
        · subst hab
          simp only [if_true] at h1
          by_cases hbd : a = d
          · rw [if_pos hbd] at h2 ⊢
            exact ih hxy hyz h1 h2
          · rwa [if_neg hbd] at h2 ⊢
        · rw [if_neg hab, decide_eq_true_eq] at h1
          have had : a ≠ d := by
            rintro rfl
            rw [if_neg (Ne.symm hab), decide_eq_true_eq] at h2
            bv_omega
          rw [if_neg had, decide_eq_true_eq]
          by_cases hbd : b = d
          · exact hbd ▸ h1
          · rw [if_neg hbd, decide_eq_true_eq] at h2
            bv_omega

/-- `tai64n_zero`. -/
def tai64nZero : List Byte := List.replicate 12 0#8

end Wgx
