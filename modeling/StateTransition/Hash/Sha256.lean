import StateTransition.Bytes

/-! SHA-256 with its keyed form: blocks of 64 bytes, words of 32 bits, and a message
closed by a one bit, zeros and its bit length. -/
namespace StateTransition

namespace Sha256

structure Chain where
  (a b c d e f g h : UInt32)

def Chain.initial : Chain :=
  ⟨0x6a09e667, 0xbb67ae85, 0x3c6ef372, 0xa54ff53a, 0x510e527f, 0x9b05688c, 0x1f83d9ab, 0x5be0cd19⟩

def stepConstants : List UInt32 :=
  [0x428a2f98, 0x71374491, 0xb5c0fbcf, 0xe9b5dba5, 0x3956c25b, 0x59f111f1, 0x923f82a4, 0xab1c5ed5,
   0xd807aa98, 0x12835b01, 0x243185be, 0x550c7dc3, 0x72be5d74, 0x80deb1fe, 0x9bdc06a7, 0xc19bf174,
   0xe49b69c1, 0xefbe4786, 0x0fc19dc6, 0x240ca1cc, 0x2de92c6f, 0x4a7484aa, 0x5cb0a9dc, 0x76f988da,
   0x983e5152, 0xa831c66d, 0xb00327c8, 0xbf597fc7, 0xc6e00bf3, 0xd5a79147, 0x06ca6351, 0x14292967,
   0x27b70a85, 0x2e1b2138, 0x4d2c6dfc, 0x53380d13, 0x650a7354, 0x766a0abb, 0x81c2c92e, 0x92722c85,
   0xa2bfe8a1, 0xa81a664b, 0xc24b8b70, 0xc76c51a3, 0xd192e819, 0xd6990624, 0xf40e3585, 0x106aa070,
   0x19a4c116, 0x1e376c08, 0x2748774c, 0x34b0bcb5, 0x391c0cb3, 0x4ed8aa4a, 0x5b9cca4f, 0x682e6ff3,
   0x748f82ee, 0x78a5636f, 0x84c87814, 0x8cc70208, 0x90befffa, 0xa4506ceb, 0xbef9a3f7, 0xc67178f2]

@[inline] def rotateRight (x n : UInt32) : UInt32 := (x >>> n) ||| (x <<< (32 - n))

def wordAt (data : ByteArray) (offset : Nat) : UInt32 :=
  ((byteAt data offset).toUInt32 <<< 24) ||| ((byteAt data (offset + 1)).toUInt32 <<< 16) |||
    ((byteAt data (offset + 2)).toUInt32 <<< 8) ||| (byteAt data (offset + 3)).toUInt32

/-- The next word of the message schedule after the sixteen or more in `w`. -/
def extendSchedule (w : Array UInt32) : Array UInt32 :=
  let n := w.size
  let back (k : Nat) : UInt32 := w.getD (n - k) 0
  let x := back 15
  let y := back 2
  let low := rotateRight x 7 ^^^ rotateRight x 18 ^^^ (x >>> 3)
  let high := rotateRight y 17 ^^^ rotateRight y 19 ^^^ (y >>> 10)
  w.push (back 16 + low + back 7 + high)

/-- The 64 words that the block at `offset` feeds to the steps. -/
def schedule (data : ByteArray) (offset : Nat) : Array UInt32 :=
  let first := (List.range 16).foldl (fun w i => w.push (wordAt data (offset + 4 * i))) #[]
  (List.range 48).foldl (fun w _ => extendSchedule w) first

def step (s : Chain) (constant word : UInt32) : Chain :=
  let high := rotateRight s.e 6 ^^^ rotateRight s.e 11 ^^^ rotateRight s.e 25
  let choice := (s.e &&& s.f) ^^^ (~~~s.e &&& s.g)
  let t := s.h + high + choice + constant + word
  let low := rotateRight s.a 2 ^^^ rotateRight s.a 13 ^^^ rotateRight s.a 22
  let majority := (s.a &&& s.b) ^^^ (s.a &&& s.c) ^^^ (s.b &&& s.c)
  ⟨t + (low + majority), s.a, s.b, s.c, s.d + t, s.e, s.f, s.g⟩

def compress (data : ByteArray) (offset : Nat) (s : Chain) : Chain :=
  let t := (stepConstants.zip (schedule data offset).toList).foldl (fun t (k, w) => step t k w) s
  ⟨s.a + t.a, s.b + t.b, s.c + t.c, s.d + t.d, s.e + t.e, s.f + t.f, s.g + t.g, s.h + t.h⟩

def absorb (data : ByteArray) : (count : Nat) → (offset : Nat) → Chain → Chain
  | 0, _, s => s
  | k + 1, offset, s => absorb data k (offset + 64) (compress data offset s)

/-- A one bit and the zeros that bring `size` bytes to eight short of a whole block. -/
def closing (size : Nat) : ByteArray :=
  ByteArray.mk (#[(0x80 : UInt8)] ++ Array.replicate ((119 - size % 64) % 64) 0)

end Sha256

def sha256 (data : ByteArray) : ByteArray :=
  let padded := data ++ Sha256.closing data.size ++ bufferOfNat 8 (8 * data.size)
  let s := Sha256.absorb padded (padded.size / 64) 0 .initial
  ([s.a, s.b, s.c, s.d, s.e, s.f, s.g, s.h].flatMap
    fun w => Bytes.ofNatPadded 4 w.toNat).toByteArray

/-- The keyed digest of a buffer under a key of at most 64 bytes. -/
def hmacSha256 (key data : ByteArray) : ByteArray :=
  let masked (mask : UInt8) : ByteArray := ((readPadded key 0 64).data.map (· ^^^ mask)).toList.toByteArray
  sha256 (masked 0x5c ++ sha256 (masked 0x36 ++ data))

end StateTransition
