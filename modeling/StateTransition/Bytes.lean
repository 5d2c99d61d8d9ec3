/-! Byte strings as big-endian numbers, with the padding and slicing that the
formats below are built from. -/
namespace StateTransition

/-- A byte string; as a number its first byte is the most significant one. -/
abbrev Bytes := List UInt8

/-- The number of binary digits of `n`, zero for zero. -/
def bitLength (n : Nat) : Nat := if n = 0 then 0 else n.log2 + 1

/-- The number of base-256 digits of `n`, zero for zero. -/
def byteLength (n : Nat) : Nat := (bitLength n + 7) / 8

namespace Bytes

def toNat (bs : Bytes) : Nat := bs.foldl (fun n b => n * 256 + b.toNat) 0

/-- The last `width` base-256 digits of `n`. -/
def ofNatPadded : (width : Nat) → (n : Nat) → Bytes
  | 0, _ => []
  | k + 1, n => (n >>> (8 * k)).toUInt8 :: ofNatPadded k n

/-- The base-256 digits of `n` without leading zeros; none for zero. -/
def ofNat (n : Nat) : Bytes := ofNatPadded (byteLength n) n

@[simp] theorem length_ofNatPadded (width n : Nat) : (ofNatPadded width n).length = width := by
  induction width with
  | zero => rfl
  | succ k ih => simp [ofNatPadded, ih]

@[simp] theorem length_ofNat (n : Nat) : (ofNat n).length = byteLength n :=
  length_ofNatPadded _ n

/-- Exactly `width` bytes: cut on the right, or filled there with zeros. -/
def fit (width : Nat) (bs : Bytes) : Bytes :=
  let kept := bs.take width
  kept ++ List.replicate (width - kept.length) 0

end Bytes

/-- The byte at an index, zero past the end. -/
@[inline] def byteAt (data : ByteArray) (i : Nat) : UInt8 := if h : i < data.size then data[i] else 0

/-- The `size` bytes from `offset` on of a buffer that continues with zeros. -/
def readPadded (buffer : ByteArray) (offset size : Nat) : ByteArray :=
  let kept :=
    if offset < buffer.size then buffer.extract offset (min (offset + size) buffer.size)
    else ByteArray.empty
  kept ++ ByteArray.mk (Array.replicate (size - kept.size) 0)

/-- No buffer has as many bytes as this. -/
def bufferLimit : Nat := 0x8000000000000000

def zeroBytes (size : Nat) : ByteArray := ByteArray.mk (Array.replicate size 0)

def natOfBuffer (buffer : ByteArray) : Nat :=
  buffer.foldl (fun n b => n * 256 + b.toNat) 0

def bufferOfNat (width n : Nat) : ByteArray := (Bytes.ofNatPadded width n).toByteArray

def bytesOfBuffer (buffer : ByteArray) : Bytes := buffer.data.toList

end StateTransition
