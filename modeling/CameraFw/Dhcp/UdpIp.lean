import CameraFw.Base.OnesComplement

/-!
# The UDP and IP headers of the DHCP client

`in_cksum`, `udpipgen` and `udpipchk` of `udpipgen.c`, on the little-endian processor of the camera.
Numbers that the source keeps in network order are the bytes of the buffer here.
-/

namespace CameraFw.Dhcp

open CameraFw.Base

def ETH_HLEN : Nat := 14
def IPPROTO_UDP : UInt8 := 17
def IPDEFTTL : UInt8 := 64

/-- `htons`: the two bytes of the low half of the number, highest first. -/
def htons (v : Nat) : List UInt8 := (toLE 2 v).reverse

def ntohs (bs : List UInt8) : Nat := le bs.reverse

/-- Both loops of `in_cksum`, the second one for the byte that may be left; `sum` is an `int`. -/
def addWords : BitVec 32 → List UInt8 → BitVec 32
  | sum, [] => sum
  | sum, [a] => sum + BitVec.ofNat 32 a.toNat
  | sum, a :: b :: bs => addWords (sum + BitVec.ofNat 32 (a.toNat + 256 * b.toNat)) bs

def inCksum (bs : List UInt8) : BitVec 16 :=
  let sum := addWords 0 bs
  let sum := sum.sshiftRight 16 + (sum &&& 0xffff)
  let sum := sum + sum.sshiftRight 16
  (~~~sum).setWidth 16

/-! ## Sending -/

/-- `struct ipovly`. Its first nine bytes are `ih_next`, `ih_prev` and `ih_x1`. -/
def ipovly (len : List UInt8) (saddr daddr : BitVec 32) : List UInt8 :=
  List.replicate 9 0 ++ IPPROTO_UDP :: (len ++ toLE 4 saddr.toNat ++ toLE 4 daddr.toNat)

/-- `struct ip` with five words, version 4, no type of service and no fragment offset. -/
def ipHeader (msglen ipId : BitVec 16) (sum : Nat) (saddr daddr : BitVec 32) : List UInt8 :=
  [0x45, 0] ++ htons (msglen.toNat + 28) ++ htons ipId.toNat ++ [0, 0, IPDEFTTL, IPPROTO_UDP] ++ toLE 2 sum ++
    toLE 4 saddr.toNat ++ toLE 4 daddr.toNat

/-- What `udpipgen` is called with, and `ip_id`. Addresses and ports are in network order. -/
structure Header where
  saddr : BitVec 32
  daddr : BitVec 32
  sport : BitVec 16
  dport : BitVec 16
  msglen : BitVec 16
  ipId : BitVec 16
  deriving DecidableEq, Repr

def udphdr (h : Header) (sum : Nat) : List UInt8 :=
  toLE 2 h.sport.toNat ++ toLE 2 h.dport.toNat ++ htons (h.msglen.toNat + 8) ++ toLE 2 sum

/-- The buffer with which the UDP checksum is computed. -/
def overlaid (m : List UInt8) (h : Header) : List UInt8 :=
  let ulen := htons (h.msglen.toNat + 8)
  store m 0 (ipovly ulen h.saddr h.daddr ++ udphdr h 0)

/-- The UDP checksum that is sent; 0 would mean that there is none. -/
def uhSum (m : List UInt8) (h : Header) : Nat :=
  let sum := inCksum (load (overlaid m h) 0 (h.msglen.toNat + 28))
  if sum = 0 then 0xffff else sum.toNat

/-- `udpipgen`. It also increments `ip_id`. -/
def udpipgen (m : List UInt8) (h : Header) : List UInt8 :=
  let m := store (overlaid m h) 26 (toLE 2 (uhSum m h))
  let m := store m 0 (ipHeader h.msglen h.ipId 0 h.saddr h.daddr)
  let sum := inCksum (ipHeader h.msglen h.ipId 0 h.saddr h.daddr)
  store m 0 (ipHeader h.msglen h.ipId sum.toNat h.saddr h.daddr)

/-! ## Checking -/

/-- A read of memory that is in the message; nothing can be said about others. -/
def fetch (f : List UInt8) (off n : Nat) : Option (List UInt8) :=
  if off + n ≤ f.length then some (load f off n) else none

/-- `ip_hl << 2` of the packet in the frame. -/
def ipHl (f : List UInt8) : Nat := (f.getD ETH_HLEN 0).toNat % 16 * 4

/-- `udpipchk` from where it looks at the UDP header on; the packet starts at `n` by then, without IP
options. -/
def udpchk (f : List UInt8) (n : Nat) (saveIp : List UInt8) : Option (Int × List UInt8) := do
  let sum ← fetch f (n + 26) 2
  if sum = [0, 0] then return (0, f)
  let ulen ← fetch f (n + 24) 2
  let f := store (store f n (List.replicate 9 0)) (n + 10) ulen
  let covered ← fetch f n (ntohs ulen + 20)
  if inCksum covered ≠ 0 then return (-2, f)
  return (0, store f ETH_HLEN saveIp)

/-- `udpipchk` on the frame, whose packet comes after the Ethernet header: its result, and what it makes
of the frame. The header is moved over the IP options. If it is said to have less than five words it is
moved the other way, with one word to where nothing is known. -/
def udpipchk (f : List UInt8) : Option (Int × List UInt8) := do
  let hl := ipHl f
  let header ← fetch f ETH_HLEN hl
  if inCksum header ≠ 0 then return (-1, f)
  let saveIp ← fetch f ETH_HLEN 20
  if ETH_HLEN + hl < 20 then none
  else udpchk (if hl ≠ 20 then store f (ETH_HLEN + hl - 20) saveIp else f) (ETH_HLEN + hl - 20) saveIp

end CameraFw.Dhcp
