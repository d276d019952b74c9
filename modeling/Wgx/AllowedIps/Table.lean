import Wgx.Basic

/-!
# The AllowedIPs table (`allowedips.c`)

One radix trie for each address family.  A node carries the masked bits of its prefix as 16 bytes
in network order, the prefix length `cidr`, and the peer the prefix belongs to (none for a node
that only splits two subtrees, or whose peer was removed).

The peer is a pointer in the source and a type parameter here.  `calloc` is taken to succeed; the
fields `parent`, `bit_at_a` and `bit_at_b`, which no function reads, are left out.
-/

namespace Wgx.AllowedIps

variable {P : Type*}

/-- `allowedip_node_t`, with `null` for the null pointer. -/
inductive Node (P : Type*)
  | null
  | mk (cidr : ℕ) (bits : List Byte) (ipVersion : ℕ) (peer : Option P) (child0 child1 : Node P)
  deriving DecidableEq

/-- `bit_at`: bit `i` of an address, the most significant bit of its first byte first. -/
def bitAt (bits : List Byte) (i : ℕ) : Bool :=
  (bits.getD (i >>> 3) 0#8 >>> (7 - (i &&& 7))) &&& 1#8 = 1#8

/-- `(ip_version == 4) ? 4 : 16`. -/
def addrLen (ipVersion : ℕ) : ℕ := if ipVersion = 4 then 4 else 16

/-- The bits of a new node: the address copied into 16 zeroed bytes, then masked beyond `cidr`. -/
def nodeBits (bits : List Byte) (cidr ipVersion : ℕ) : List Byte :=
  let addrlen := addrLen ipVersion
  let copied := memcpy (List.replicate 16 0#8) bits addrlen
  if cidr < addrlen * 8 then
    let byteCidr := cidr >>> 3
    let bitCidr := cidr &&& 7
    let masked :=
      if bitCidr ≠ 0 then copied.modify byteCidr (· &&& (0xff#8 <<< (8 - bitCidr))) else copied
    let start := byteCidr + if bitCidr ≠ 0 then 1 else 0
    masked.mapIdx fun i b => if start ≤ i ∧ i < addrlen then 0#8 else b
  else copied

/-- `node_new`, with its two children. -/
def nodeNew (bits : List Byte) (cidr ipVersion : ℕ) (peer : Option P) (child0 child1 : Node P) :
    Node P :=
  .mk cidr (nodeBits bits cidr ipVersion) ipVersion peer child0 child1

/-- The loop of `common_bits`, with `n` bits to go from bit `i` on. -/
def commonBitsFrom (a b : List Byte) (i : ℕ) : ℕ → ℕ
  | 0 => i
  | n + 1 => if bitAt a i ≠ bitAt b i then i else commonBitsFrom a b (i + 1) n

/-- `common_bits`. -/
def commonBits (a b : List Byte) (maxCidr : ℕ) : ℕ := commonBitsFrom a b 0 maxCidr

/-- `newnode->child[bit] = node; newnode->child[!bit] = other`. -/
def nodeFork (bits : List Byte) (cidr ipVersion : ℕ) (peer : Option P) (bit : Bool)
    (node other : Node P) : Node P :=
  if bit then nodeNew bits cidr ipVersion peer other node
  else nodeNew bits cidr ipVersion peer node other

/-- `insert`. -/
def insert (bits : List Byte) (cidr ipVersion : ℕ) (peer : P) : Node P → Node P
  | .null => nodeNew bits cidr ipVersion (some peer) .null .null
  | .mk nodeCidr nodeBits' nodeVersion nodePeer child0 child1 =>
    let node := Node.mk nodeCidr nodeBits' nodeVersion nodePeer child0 child1
    let common := commonBits nodeBits' bits (if nodeCidr < cidr then nodeCidr else cidr)
    if common < nodeCidr then
      if common = cidr then
        nodeFork bits common ipVersion (some peer) (bitAt nodeBits' common) node .null
      else
        nodeFork bits common ipVersion none (bitAt nodeBits' common) node
          (nodeNew bits cidr ipVersion (some peer) .null .null)
    else if common = cidr then
      if nodeCidr = cidr then .mk nodeCidr nodeBits' nodeVersion (some peer) child0 child1
      else nodeFork bits cidr ipVersion (some peer) (bitAt nodeBits' cidr) node .null
    else if bitAt bits nodeCidr then
      .mk nodeCidr nodeBits' nodeVersion nodePeer child0 (insert bits cidr ipVersion peer child1)
    else
      .mk nodeCidr nodeBits' nodeVersion nodePeer (insert bits cidr ipVersion peer child0) child1

/-- The prefix comparison of `lookup`: whole bytes, then the high bits of the next byte. -/
def prefixMatches (nodeBits' : List Byte) (nodeCidr : ℕ) (bits : List Byte) : Bool :=
  let byte := nodeCidr >>> 3
  let bit := nodeCidr &&& 7
  let mask := 0xff#8 <<< (8 - bit)
  (List.range byte).all (fun i => nodeBits'.getD i 0#8 = bits.getD i 0#8) &&
    (bit = 0 || nodeBits'.getD byte 0#8 &&& mask = bits.getD byte 0#8 &&& mask)

/-- The loop of `lookup`, with the best match so far. -/
def lookupFrom (bits : List Byte) (maxbits : ℕ) : Node P → Option P → Option P
  | .null, best => best
  | .mk nodeCidr nodeBits' _ nodePeer child0 child1, best =>
    if maxbits < nodeCidr then best
    else if prefixMatches nodeBits' nodeCidr bits then
      if nodeCidr = maxbits then nodePeer.or best
      else if bitAt bits nodeCidr then lookupFrom bits maxbits child1 (nodePeer.or best)
      else lookupFrom bits maxbits child0 (nodePeer.or best)
    else best

/-- `lookup`. -/
def lookup (node : Node P) (bits : List Byte) (addrlen : ℕ) : Option P :=
  lookupFrom bits (addrlen * 8) node none

/-- `remove_peer_from_tree`. -/
def removePeerFromTree [DecidableEq P] (peer : P) : Node P → Node P
  | .null => .null
  | .mk cidr bits ipVersion nodePeer child0 child1 =>
    .mk cidr bits ipVersion (if nodePeer = some peer then none else nodePeer)
      (removePeerFromTree peer child0) (removePeerFromTree peer child1)

/-- What `allowedips_walk` shows its callback of one node. -/
structure Visit (P : Type*) where
  bits : List Byte
  cidr : ℕ
  ipVersion : ℕ
  peer : P
  deriving DecidableEq

/-- `walk_tree`: the nodes passed to the callback, in order. -/
def walkTree : Node P → List (Visit P)
  | .null => []
  | .mk cidr bits ipVersion peer child0 child1 =>
    (peer.map fun p => ⟨bits, cidr, ipVersion, p⟩).toList ++ walkTree child0 ++ walkTree child1

/-- `allowedips_t`. -/
structure Table (P : Type*) where
  root4 : Node P
  root6 : Node P
  deriving DecidableEq

/-- `allowedips_init`, and what `allowedips_free` leaves. -/
def allowedipsInit : Table P := ⟨.null, .null⟩

/-- `allowedips_insert_v4`; the second component is the return value `0`. -/
def allowedipsInsertV4 (t : Table P) (addr : InAddr) (cidr : ℕ) (peer : P) : Table P × Bool :=
  if 32 < cidr then (t, false) else ({ t with root4 := insert addr.toList cidr 4 peer t.root4 }, true)

/-- `allowedips_insert_v6`. -/
def allowedipsInsertV6 (t : Table P) (addr : In6Addr) (cidr : ℕ) (peer : P) : Table P × Bool :=
  if 128 < cidr then (t, false)
  else ({ t with root6 := insert addr.toList cidr 6 peer t.root6 }, true)

/-- `allowedips_lookup_v4`. -/
def allowedipsLookupV4 (t : Table P) (addr : InAddr) : Option P := lookup t.root4 addr.toList 4

/-- `allowedips_lookup_v6`. -/
def allowedipsLookupV6 (t : Table P) (addr : In6Addr) : Option P := lookup t.root6 addr.toList 16

/-- `allowedips_remove_peer`. -/
def allowedipsRemovePeer [DecidableEq P] (t : Table P) (peer : P) : Table P :=
  ⟨removePeerFromTree peer t.root4, removePeerFromTree peer t.root6⟩

/-- `allowedips_walk`. -/
def allowedipsWalk (t : Table P) : List (Visit P) := walkTree t.root4 ++ walkTree t.root6

end Wgx.AllowedIps
