import Mathlib.Tactic

/-!
# Common types and constants (`wg.h`)

Bytes are `BitVec 8`, machine words `BitVec 32` and `BitVec 64`; byte strings are lists.
-/

namespace Wgx

/-- `uint8_t`. -/
abbrev Byte := BitVec 8

/-- `struct in_addr`, in network byte order. -/
abbrev InAddr := Vector Byte 4

/-- `struct in6_addr`, in network byte order. -/
abbrev In6Addr := Vector Byte 16

/-- `WG_DEFAULT_MTU`. -/
def wgDefaultMtu : ℕ := 1420

/-- `WG_MAX_MESSAGE_SIZE`. -/
def wgMaxMessageSize : ℕ := wgDefaultMtu + 80

/-- `UV_EAGAIN`. -/
def uvEagain : ℤ := -11

/-- `memcpy(dst, src, n)` into the bytes `dst`. -/
def memcpy (dst src : List Byte) (n : ℕ) : List Byte := src.take n ++ dst.drop n

end Wgx
