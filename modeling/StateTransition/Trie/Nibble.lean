import StateTransition.Bytes

/-! Paths of half-bytes, and their packing into bytes with two flags in front. -/
namespace StateTransition

abbrev Nibble := Fin 16

namespace Nibble

def high (b : UInt8) : Nibble := ⟨b.toNat / 16, by have := b.toNat_lt; omega⟩

def low (b : UInt8) : Nibble := ⟨b.toNat % 16, Nat.mod_lt _ (by decide)⟩

/-- Both halves of each byte, the more significant one first. -/
def ofBytes (bs : Bytes) : List Nibble := bs.flatMap fun b => [high b, low b]

def pair (h l : Nibble) : UInt8 := UInt8.ofNat (h.val * 16 + l.val)

def pack : List Nibble → Bytes
  | h :: l :: rest => pair h l :: pack rest
  | _ => []

/-- The packed form of a path. The first half-byte says whether the path ends at a leaf and
whether its length is odd; an odd path begins in the same byte. -/
def hexPrefix (path : List Nibble) (leaf : Bool) : Bytes :=
  match path.length % 2, path with
  | 1, first :: rest => pair (if leaf then 3 else 1) first :: pack rest
  | _, path => pair (if leaf then 2 else 0) 0 :: pack path

/-- The longest common start of two paths, and what is left of each. -/
def splitCommon : List Nibble → List Nibble → List Nibble × List Nibble × List Nibble
  | x :: xs, y :: ys =>
    if x = y then
      let (common, restX, restY) := splitCommon xs ys
      (x :: common, restX, restY)
    else ([], x :: xs, y :: ys)
  | xs, ys => ([], xs, ys)

end Nibble

end StateTransition
