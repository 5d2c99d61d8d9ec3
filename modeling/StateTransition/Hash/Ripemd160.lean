import StateTransition.Bytes

/-! RIPEMD-160: two lines of eighty steps over each block of 64 bytes, joined at the end
of the block; words are read and written with their least significant byte first. -/
namespace StateTransition

namespace Ripemd160

structure Chain where
  (a b c d e : UInt32)

def Chain.initial : Chain := ⟨0x67452301, 0xefcdab89, 0x98badcfe, 0x10325476, 0xc3d2e1f0⟩

/-- Message words in the order in which the left line takes them. -/
def leftOrder : List Nat :=
  [0, 1, 2, 3, 4, 5, 6, 7, 8, 9, 10, 11, 12, 13, 14, 15,
   7, 4, 13, 1, 10, 6, 15, 3, 12, 0, 9, 5, 2, 14, 11, 8,
   3, 10, 14, 4, 9, 15, 8, 1, 2, 7, 0, 6, 13, 11, 5, 12,
   1, 9, 11, 10, 0, 8, 12, 4, 13, 3, 7, 15, 14, 5, 6, 2,
   4, 0, 5, 9, 7, 12, 2, 10, 14, 1, 3, 8, 11, 6, 15, 13]

def rightOrder : List Nat :=
  [5, 14, 7, 0, 9, 2, 11, 4, 13, 6, 15, 8, 1, 10, 3, 12,
   6, 11, 3, 7, 0, 13, 5, 10, 14, 15, 8, 12, 4, 9, 1, 2,
   15, 5, 1, 3, 7, 14, 6, 9, 11, 8, 12, 2, 10, 0, 4, 13,
   8, 6, 4, 1, 3, 11, 15, 0, 5, 12, 2, 13, 9, 7, 10, 14,
   12, 15, 10, 4, 1, 5, 8, 7, 6, 2, 13, 14, 0, 3, 9, 11]

def leftShifts : List UInt32 :=
  [11, 14, 15, 12, 5, 8, 7, 9, 11, 13, 14, 15, 6, 7, 9, 8,
   7, 6, 8, 13, 11, 9, 7, 15, 7, 12, 15, 9, 11, 7, 13, 12,
   11, 13, 6, 7, 14, 9, 13, 15, 14, 8, 13, 6, 5, 12, 7, 5,
   11, 12, 14, 15, 14, 15, 9, 8, 9, 14, 5, 6, 8, 6, 5, 12,
   9, 15, 5, 11, 6, 8, 13, 12, 5, 12, 13, 14, 11, 8, 5, 6]

def rightShifts : List UInt32 :=
  [8, 9, 9, 11, 13, 15, 15, 5, 7, 7, 8, 11, 14, 14, 12, 6,
   9, 13, 15, 7, 12, 8, 9, 11, 7, 7, 12, 7, 6, 15, 13, 11,
   9, 7, 15, 11, 8, 6, 6, 14, 12, 13, 5, 14, 13, 13, 7, 5,
   15, 5, 8, 11, 14, 14, 6, 14, 6, 9, 12, 9, 12, 5, 15, 8,
   8, 5, 12, 9, 12, 5, 14, 6, 8, 13, 6, 5, 15, 13, 11, 11]

/-- Constants of the left line, one for each sixteen steps. -/
def leftConstants : List UInt32 := [0x00000000, 0x5a827999, 0x6ed9eba1, 0x8f1bbcdc, 0xa953fd4e]

def rightConstants : List UInt32 := [0x50a28be6, 0x5c4dd124, 0x6d703ef3, 0x7a6d76e9, 0x00000000]

def mix (which : Nat) (x y z : UInt32) : UInt32 :=
  match which with
  | 0 => x ^^^ y ^^^ z
  | 1 => (x &&& y) ||| (~~~x &&& z)
  | 2 => (x ||| ~~~y) ^^^ z
  | 3 => (x &&& z) ||| (y &&& ~~~z)
  | _ => x ^^^ (y ||| ~~~z)

@[inline] def rotateLeft (x n : UInt32) : UInt32 := (x <<< n) ||| (x >>> (32 - n))

def step (s : Chain) (mixed constant word shift : UInt32) : Chain :=
  ⟨s.e, rotateLeft (s.a + mixed + word + constant) shift + s.e, s.b, rotateLeft s.c 10, s.d⟩

def wordAt (data : ByteArray) (offset : Nat) : UInt32 :=
  (byteAt data offset).toUInt32 ||| ((byteAt data (offset + 1)).toUInt32 <<< 8) |||
    ((byteAt data (offset + 2)).toUInt32 <<< 16) ||| ((byteAt data (offset + 3)).toUInt32 <<< 24)

/-- A line of eighty steps; `mixOf` gives the mixing function of each sixteen steps. -/
def line (data : ByteArray) (offset : Nat) (order : List Nat) (shifts constants : List UInt32)
    (mixOf : Nat → Nat) (s : Chain) : Chain :=
  ((order.zip shifts).zipIdx).foldl (fun t ((index, shift), i) =>
    step t (mix (mixOf (i / 16)) t.b t.c t.d) (constants.getD (i / 16) 0)
      (wordAt data (offset + 4 * index)) shift) s

def compress (data : ByteArray) (offset : Nat) (s : Chain) : Chain :=
  let l := line data offset leftOrder leftShifts leftConstants id s
  let r := line data offset rightOrder rightShifts rightConstants (4 - ·) s
  ⟨s.b + l.c + r.d, s.c + l.d + r.e, s.d + l.e + r.a, s.e + l.a + r.b, s.a + l.b + r.c⟩

def absorb (data : ByteArray) : (count : Nat) → (offset : Nat) → Chain → Chain
  | 0, _, s => s
  | k + 1, offset, s => absorb data k (offset + 64) (compress data offset s)

/-- A one bit and the zeros that bring `size` bytes to eight short of a whole block. -/
def closing (size : Nat) : ByteArray :=
  ByteArray.mk (#[(0x80 : UInt8)] ++ Array.replicate ((119 - size % 64) % 64) 0)

end Ripemd160

def ripemd160 (data : ByteArray) : ByteArray :=
  let length := (Bytes.ofNatPadded 8 (8 * data.size)).reverse.toByteArray
  let padded := data ++ Ripemd160.closing data.size ++ length
  let s := Ripemd160.absorb padded (padded.size / 64) 0 .initial
  ([s.a, s.b, s.c, s.d, s.e].flatMap fun w => (Bytes.ofNatPadded 4 w.toNat).reverse).toByteArray

end StateTransition
