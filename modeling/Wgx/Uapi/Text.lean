import Wgx.Crypto

/-!
# Text (`uapi.c`, and the C library functions it calls)

Strings are lists of bytes without a terminator; `cstr` cuts a buffer at its first zero byte.

* `hexDecode`: the hexadecimal keys of the configuration protocol;
* `strtol`, `strtoul`, `atoi`: decimal numbers as the C library reads them, with a sign, blanks
  before and anything behind, saturating at the ends of a 64-bit `long`;
* `inetPton4`, `inetPton6`: the addresses that `inet_pton` accepts;
* `splitLines`: the lines of a text that end with a newline.
-/

namespace Wgx

/-- A character of the source. -/
def chr (ch : Char) : Byte := BitVec.ofNat 8 ch.toNat

/-- The C string at the start of a buffer. -/
def cstr (buf : List Byte) : List Byte := buf.takeWhile (· ≠ 0#8)

/-! ### Digits -/

/-- The value of a decimal digit. -/
def decDigit (ch : Byte) : Option ℕ :=
  if 48 ≤ ch.toNat ∧ ch.toNat ≤ 57 then some (ch.toNat - 48) else none

/-- The value of a hexadecimal digit. -/
def hexDigit (ch : Byte) : Option ℕ :=
  if 48 ≤ ch.toNat ∧ ch.toNat ≤ 57 then some (ch.toNat - 48)
  else if 97 ≤ ch.toNat ∧ ch.toNat ≤ 102 then some (ch.toNat - 97 + 10)
  else if 65 ≤ ch.toNat ∧ ch.toNat ≤ 70 then some (ch.toNat - 65 + 10)
  else none

/-- The loop of `hex_decode`. -/
def hexPairs : List Byte → Option (List Byte)
  | hi :: lo :: rest =>
    (hexDigit hi).bind fun h => (hexDigit lo).bind fun l =>
      (hexPairs rest).map fun out => BitVec.ofNat 8 (16 * h + l) :: out
  | _ => some []

/-- `hex_decode`, to `outlen` bytes. -/
def hexDecode (val : List Byte) (outlen : ℕ) : Option (List Byte) :=
  if val.length ≠ outlen * 2 then none else hexPairs val

/-! ### Decimal numbers -/

/-- `isspace`. -/
def isSpace (ch : Byte) : Bool := ch = 32#8 ∨ 9 ≤ ch.toNat ∧ ch.toNat ≤ 13

/-- The number that the digits at the start of a text stand for, after `n`. -/
def decimalFrom (n : ℕ) : List Byte → ℕ
  | [] => n
  | ch :: rest =>
    match decDigit ch with
    | some d => decimalFrom (10 * n + d) rest
    | none => n

/-- The sign and the magnitude of the number at the start of a text. -/
def signedDecimal (s : List Byte) : Bool × ℕ :=
  match s.dropWhile isSpace with
  | ch :: rest =>
    if ch = chr '-' then (true, decimalFrom 0 rest)
    else if ch = chr '+' then (false, decimalFrom 0 rest)
    else (false, decimalFrom 0 (ch :: rest))
  | [] => (false, 0)

/-- `strtol` in base 10. -/
def strtol (s : List Byte) : ℤ :=
  match signedDecimal s with
  | (true, n) => max (-(2 ^ 63)) (-(n : ℤ))
  | (false, n) => min (2 ^ 63 - 1) (n : ℤ)

/-- `strtoul` in base 10. -/
def strtoul (s : List Byte) : BitVec 64 :=
  match signedDecimal s with
  | (neg, n) =>
    if 2 ^ 64 ≤ n then BitVec.allOnes 64
    else if neg then -BitVec.ofNat 64 n
    else BitVec.ofNat 64 n

/-- `atoi`. -/
def atoi (s : List Byte) : BitVec 32 := BitVec.ofInt 32 (strtol s)

/-! ### Addresses -/

/-- The loop of `inet_pton` for IPv4, with the octets that are complete, the one that is being read,
and whether it has a digit yet. -/
def inetPton4From : List Byte → List Byte → ℕ → Bool → Option (List Byte)
  | [], octets, cur, sawDigit =>
    if sawDigit ∧ octets.length = 3 then some (octets ++ [BitVec.ofNat 8 cur]) else none
  | ch :: rest, octets, cur, sawDigit =>
    match decDigit ch with
    | some d =>
      if sawDigit ∧ cur = 0 then none
      else if 255 < cur * 10 + d then none
      else inetPton4From rest octets (cur * 10 + d) true
    | none =>
      if ch = chr '.' ∧ sawDigit then
        if octets.length = 3 then none
        else inetPton4From rest (octets ++ [BitVec.ofNat 8 cur]) 0 false
      else none

/-- `inet_pton(AF_INET)`. -/
def inetPton4 (s : List Byte) : Option InAddr :=
  (inetPton4From s [] 0 false).map fun out => Vector.ofFn fun i => out.getD i 0

/-- A 16-bit group in network order. -/
def groupBytes (val : ℕ) : List Byte := [BitVec.ofNat 8 (val / 256), BitVec.ofNat 8 val]

/-- The end of `inet_pton` for IPv6: zeros go where `::` stood. -/
def inetPton6End (out : List Byte) (colon : Option ℕ) : Option (List Byte) :=
  match colon with
  | some k =>
    if out.length = 16 then none
    else some (out.take k ++ List.replicate (16 - out.length) 0#8 ++ out.drop k)
  | none => if out.length = 16 then some out else none

/-- The loop of `inet_pton` for IPv6, with the text of the current group, the bytes written, where
`::` stood, the value of the current group and the number of its digits. -/
def inetPton6From : List Byte → List Byte → List Byte → Option ℕ → ℕ → ℕ → Option (List Byte)
  | [], _, out, colon, val, digits =>
    if 0 < digits then
      if 16 < out.length + 2 then none else inetPton6End (out ++ groupBytes val) colon
    else inetPton6End out colon
  | ch :: rest, curtok, out, colon, val, digits =>
    match hexDigit ch with
    | some d =>
      if digits = 4 then none else inetPton6From rest curtok out colon (16 * val + d) (digits + 1)
    | none =>
      if ch = chr ':' then
        if digits = 0 then
          if colon.isSome then none else inetPton6From rest rest out (some out.length) val digits
        else if rest = [] then none
        else if 16 < out.length + 2 then none
        else inetPton6From rest rest (out ++ groupBytes val) colon 0 0
      else if ch = chr '.' ∧ out.length + 4 ≤ 16 then
        match inetPton4From curtok [] 0 false with
        | some v4 => inetPton6End (out ++ v4) colon
        | none => none
      else none

/-- `inet_pton(AF_INET6)`. -/
def inetPton6 (s : List Byte) : Option In6Addr :=
  let out :=
    match s with
    | [] => none
    | ch :: rest =>
      if ch = chr ':' then
        if rest.head? = some (chr ':') then inetPton6From rest rest [] none 0 0 else none
      else inetPton6From s s [] none 0 0
  out.map fun out => Vector.ofFn fun i => out.getD i 0

/-! ### Lines -/

/-- The lines of a text that end with a newline, with the start of the first one given. -/
def splitLinesFrom (start : List Byte) : List Byte → List (List Byte)
  | [] => []
  | ch :: rest =>
    if ch = chr '\n' then start :: splitLinesFrom [] rest else splitLinesFrom (start ++ [ch]) rest

/-- The lines of a text that end with a newline. -/
def splitLines (text : List Byte) : List (List Byte) := splitLinesFrom [] text

example : atoi (ascii " -12x") = -12 ∧ strtoul (ascii "42") = 42 := by decide

example : inetPton4 (ascii "10.0.0.256") = none ∧
    (inetPton6 (ascii "fe80::1.2.3.4")).map Vector.toList =
      some [254, 128, 0, 0, 0, 0, 0, 0, 0, 0, 0, 0, 1, 2, 3, 4] := by decide

end Wgx
