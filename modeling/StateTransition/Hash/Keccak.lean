import StateTransition.Address

/-! Keccak-256: a sponge over 25 lanes of 64 bits that takes in 136 bytes at a time.
The message is closed by a one bit, zeros and a one bit. -/
namespace StateTransition

namespace Keccak

/-- The permutation's state, lane `(x, y)` at index `x + 5 * y`. -/
structure Lanes where
  (a0 a1 a2 a3 a4 : UInt64)
  (a5 a6 a7 a8 a9 : UInt64)
  (a10 a11 a12 a13 a14 : UInt64)
  (a15 a16 a17 a18 a19 : UInt64)
  (a20 a21 a22 a23 a24 : UInt64)
  deriving DecidableEq

def Lanes.zero : Lanes :=
  ⟨0, 0, 0, 0, 0, 0, 0, 0, 0, 0, 0, 0, 0, 0, 0, 0, 0, 0, 0, 0, 0, 0, 0, 0, 0⟩

@[inline] def rotateLeft (x : UInt64) (n : UInt64) : UInt64 := (x <<< n) ||| (x >>> (64 - n))

/-- One round: column parities, lane rotations and moves, row mixing, then the constant. -/
def round (s : Lanes) (constant : UInt64) : Lanes :=
  let c0 := s.a0 ^^^ s.a5 ^^^ s.a10 ^^^ s.a15 ^^^ s.a20
  let c1 := s.a1 ^^^ s.a6 ^^^ s.a11 ^^^ s.a16 ^^^ s.a21
  let c2 := s.a2 ^^^ s.a7 ^^^ s.a12 ^^^ s.a17 ^^^ s.a22
  let c3 := s.a3 ^^^ s.a8 ^^^ s.a13 ^^^ s.a18 ^^^ s.a23
  let c4 := s.a4 ^^^ s.a9 ^^^ s.a14 ^^^ s.a19 ^^^ s.a24
  let d0 := c4 ^^^ rotateLeft c1 1
  let d1 := c0 ^^^ rotateLeft c2 1
  let d2 := c1 ^^^ rotateLeft c3 1
  let d3 := c2 ^^^ rotateLeft c4 1
  let d4 := c3 ^^^ rotateLeft c0 1
  let b0 := s.a0 ^^^ d0
  let b10 := rotateLeft (s.a1 ^^^ d1) 1
  let b20 := rotateLeft (s.a2 ^^^ d2) 62
  let b5 := rotateLeft (s.a3 ^^^ d3) 28
  let b15 := rotateLeft (s.a4 ^^^ d4) 27
  let b16 := rotateLeft (s.a5 ^^^ d0) 36
  let b1 := rotateLeft (s.a6 ^^^ d1) 44
  let b11 := rotateLeft (s.a7 ^^^ d2) 6
  let b21 := rotateLeft (s.a8 ^^^ d3) 55
  let b6 := rotateLeft (s.a9 ^^^ d4) 20
  let b7 := rotateLeft (s.a10 ^^^ d0) 3
  let b17 := rotateLeft (s.a11 ^^^ d1) 10
  let b2 := rotateLeft (s.a12 ^^^ d2) 43
  let b12 := rotateLeft (s.a13 ^^^ d3) 25
  let b22 := rotateLeft (s.a14 ^^^ d4) 39
  let b23 := rotateLeft (s.a15 ^^^ d0) 41
  let b8 := rotateLeft (s.a16 ^^^ d1) 45
  let b18 := rotateLeft (s.a17 ^^^ d2) 15
  let b3 := rotateLeft (s.a18 ^^^ d3) 21
  let b13 := rotateLeft (s.a19 ^^^ d4) 8
  let b14 := rotateLeft (s.a20 ^^^ d0) 18
  let b24 := rotateLeft (s.a21 ^^^ d1) 2
  let b9 := rotateLeft (s.a22 ^^^ d2) 61
  let b19 := rotateLeft (s.a23 ^^^ d3) 56
  let b4 := rotateLeft (s.a24 ^^^ d4) 14
  {
    a0 := b0 ^^^ (~~~b1 &&& b2) ^^^ constant
    a1 := b1 ^^^ (~~~b2 &&& b3)
    a2 := b2 ^^^ (~~~b3 &&& b4)
    a3 := b3 ^^^ (~~~b4 &&& b0)
    a4 := b4 ^^^ (~~~b0 &&& b1)
    a5 := b5 ^^^ (~~~b6 &&& b7)
    a6 := b6 ^^^ (~~~b7 &&& b8)
    a7 := b7 ^^^ (~~~b8 &&& b9)
    a8 := b8 ^^^ (~~~b9 &&& b5)
    a9 := b9 ^^^ (~~~b5 &&& b6)
    a10 := b10 ^^^ (~~~b11 &&& b12)
    a11 := b11 ^^^ (~~~b12 &&& b13)
    a12 := b12 ^^^ (~~~b13 &&& b14)
    a13 := b13 ^^^ (~~~b14 &&& b10)
    a14 := b14 ^^^ (~~~b10 &&& b11)
    a15 := b15 ^^^ (~~~b16 &&& b17)
    a16 := b16 ^^^ (~~~b17 &&& b18)
    a17 := b17 ^^^ (~~~b18 &&& b19)
    a18 := b18 ^^^ (~~~b19 &&& b15)
    a19 := b19 ^^^ (~~~b15 &&& b16)
    a20 := b20 ^^^ (~~~b21 &&& b22)
    a21 := b21 ^^^ (~~~b22 &&& b23)
    a22 := b22 ^^^ (~~~b23 &&& b24)
    a23 := b23 ^^^ (~~~b24 &&& b20)
    a24 := b24 ^^^ (~~~b20 &&& b21) }

def roundConstants : List UInt64 :=
  [0x0000000000000001, 0x0000000000008082, 0x800000000000808A, 0x8000000080008000,
   0x000000000000808B, 0x0000000080000001, 0x8000000080008081, 0x8000000000008009,
   0x000000000000008A, 0x0000000000000088, 0x0000000080008009, 0x000000008000000A,
   0x000000008000808B, 0x800000000000008B, 0x8000000000008089, 0x8000000000008003,
   0x8000000000008002, 0x8000000000000080, 0x000000000000800A, 0x800000008000000A,
   0x8000000080008081, 0x8000000000008080, 0x0000000080000001, 0x8000000080008008]

def permute (s : Lanes) : Lanes := roundConstants.foldl round s

/-- The eight bytes at `offset` with the least significant first; bytes past the end are zero. -/
@[inline] def lane (data : ByteArray) (offset : Nat) : UInt64 :=
  let byte (i : Nat) : UInt64 := (byteAt data (offset + i)).toUInt64
  byte 0 ||| (byte 1 <<< 8) ||| (byte 2 <<< 16) ||| (byte 3 <<< 24) |||
    (byte 4 <<< 32) ||| (byte 5 <<< 40) ||| (byte 6 <<< 48) ||| (byte 7 <<< 56)

def rate : Nat := 136

def absorbBlock (block : ByteArray) (offset : Nat) (s : Lanes) : Lanes :=
  permute { s with
    a0 := s.a0 ^^^ lane block (offset + 0), a1 := s.a1 ^^^ lane block (offset + 8),
    a2 := s.a2 ^^^ lane block (offset + 16), a3 := s.a3 ^^^ lane block (offset + 24),
    a4 := s.a4 ^^^ lane block (offset + 32), a5 := s.a5 ^^^ lane block (offset + 40),
    a6 := s.a6 ^^^ lane block (offset + 48), a7 := s.a7 ^^^ lane block (offset + 56),
    a8 := s.a8 ^^^ lane block (offset + 64), a9 := s.a9 ^^^ lane block (offset + 72),
    a10 := s.a10 ^^^ lane block (offset + 80), a11 := s.a11 ^^^ lane block (offset + 88),
    a12 := s.a12 ^^^ lane block (offset + 96), a13 := s.a13 ^^^ lane block (offset + 104),
    a14 := s.a14 ^^^ lane block (offset + 112), a15 := s.a15 ^^^ lane block (offset + 120),
    a16 := s.a16 ^^^ lane block (offset + 128) }

def absorb (data : ByteArray) : (count : Nat) → (offset : Nat) → Lanes → Lanes
  | 0, _, s => s
  | k + 1, offset, s => absorb data k (offset + rate) (absorbBlock data offset s)

/-- What follows a message of `size` bytes, up to a whole number of blocks. -/
def padding (size : Nat) : ByteArray :=
  let missing := rate - size % rate
  if missing = 1 then ByteArray.mk #[0x81]
  else ByteArray.mk ((#[(0x01 : UInt8)] ++ Array.replicate (missing - 2) 0).push 0x80)

/-- A lane read with its least significant byte first. -/
def reversedBytes (x : UInt64) : Nat :=
  let byte (i : UInt64) : Nat := ((x >>> (8 * i)) &&& 0xff).toNat
  [1, 2, 3, 4, 5, 6, 7].foldl (fun n i => n * 256 + byte i) (byte 0)

def squeeze (s : Lanes) : Hash :=
  BitVec.ofNat 256
    ([s.a1, s.a2, s.a3].foldl (fun n x => n * countLimit + reversedBytes x) (reversedBytes s.a0))

end Keccak

def keccak256 (data : ByteArray) : Hash :=
  let padded := data ++ Keccak.padding data.size
  Keccak.squeeze (Keccak.absorb padded (padded.size / Keccak.rate) 0 .zero)

def keccak (bs : Bytes) : Hash := keccak256 bs.toByteArray

/-- The digest of the empty byte string, the code hash of an account without code. -/
def emptyCodeHash : Hash := 0xc5d2460186f7233c927e7db2dcc703c0e500b653ca82273b7bfad8045d85a470

/-- The digest of the encoded empty byte string, the root of an empty trie. -/
def emptyTrieRoot : Hash := 0x56e81f171bcc55a6ff8345e692c0f86e5b48e01b996cadc001622fb5e363b421

end StateTransition
