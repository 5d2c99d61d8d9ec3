import StateTransition.Hash.Keccak

/-! Bloom filters of 2048 bits over addresses and topics. -/
namespace StateTransition

/-- A set of bit positions; the last byte holds positions zero to seven. -/
abbrev Bloom := BitVec 2048

namespace Bloom

/-- The three positions of a byte string: eleven bits from each of its digest's first three
pairs of bytes. -/
def positions (bs : Bytes) : List Nat :=
  let h := keccak bs
  [240, 224, 208].map fun shift => (h >>> shift).toNat % 2048

/-- Where a position lies in the bytes of a filter: the index of its byte, and that byte with this one bit. -/
def place (i : Nat) : Nat × UInt8 := (255 - i / 8, 1 <<< (i % 8).toUInt8)

/-- One of the 256 bytes of a filter, the first of which is the most significant. -/
def byteAt (b : Bloom) (k : Nat) : UInt8 := (b >>> (8 * (255 - k))).toNat.toUInt8

def setBits (b : Bloom) (k : Nat) (mask : UInt8) : Bloom :=
  b ||| (BitVec.ofNat 2048 mask.toNat <<< (8 * (255 - k)))

def add (b : Bloom) (bs : Bytes) : Bloom :=
  (positions bs).foldl (fun b i => b.setBits (place i).1 (place i).2) b

def contains (b : Bloom) (bs : Bytes) : Bool :=
  (positions bs).all fun i => b.byteAt (place i).1 &&& (place i).2 ≠ 0

def count (b : Bloom) : Nat := ((List.range 2048).filter fun i => b.getLsbD i).length

def toBytes (b : Bloom) : Bytes := Bytes.ofNatPadded 256 b.toNat

def ofBytes (bs : Bytes) : Bloom := BitVec.ofNat 2048 (Bytes.toNat bs)

def describe (b : Bloom) : String := if b = 0 then "Bloom(empty)" else s!"Bloom({b.count} bits)"

end Bloom

end StateTransition
