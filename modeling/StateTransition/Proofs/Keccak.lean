import StateTransition.Hash.Keccak
import StateTransition.Proofs.Buffer

/-! The sponge over lists: every byte is read where the list is at, so a digest can be computed inside a
proof, which the look-ups in a buffer make very slow. -/
namespace StateTransition

namespace Keccak

/-- The first eight bytes with the least significant first; bytes past the end are zero. -/
def firstLane (bs : Bytes) : UInt64 :=
  let byte (i : Nat) : UInt64 := (bs.getD i 0).toUInt64
  byte 0 ||| (byte 1 <<< 8) ||| (byte 2 <<< 16) ||| (byte 3 <<< 24) |||
    (byte 4 <<< 32) ||| (byte 5 <<< 40) ||| (byte 6 <<< 48) ||| (byte 7 <<< 56)

def absorbFirst (bs : Bytes) (s : Lanes) : Lanes :=
  permute { s with
    a0 := s.a0 ^^^ firstLane bs, a1 := s.a1 ^^^ firstLane (bs.drop 8),
    a2 := s.a2 ^^^ firstLane (bs.drop 16), a3 := s.a3 ^^^ firstLane (bs.drop 24),
    a4 := s.a4 ^^^ firstLane (bs.drop 32), a5 := s.a5 ^^^ firstLane (bs.drop 40),
    a6 := s.a6 ^^^ firstLane (bs.drop 48), a7 := s.a7 ^^^ firstLane (bs.drop 56),
    a8 := s.a8 ^^^ firstLane (bs.drop 64), a9 := s.a9 ^^^ firstLane (bs.drop 72),
    a10 := s.a10 ^^^ firstLane (bs.drop 80), a11 := s.a11 ^^^ firstLane (bs.drop 88),
    a12 := s.a12 ^^^ firstLane (bs.drop 96), a13 := s.a13 ^^^ firstLane (bs.drop 104),
    a14 := s.a14 ^^^ firstLane (bs.drop 112), a15 := s.a15 ^^^ firstLane (bs.drop 120),
    a16 := s.a16 ^^^ firstLane (bs.drop 128) }

def absorbList : (count : Nat) → Bytes → Lanes → Lanes
  | 0, _, s => s
  | k + 1, bs, s => absorbList k (bs.drop rate) (absorbFirst bs s)

def paddingList (size : Nat) : Bytes :=
  let missing := rate - size % rate
  if missing = 1 then [0x81] else 0x01 :: (List.replicate (missing - 2) 0 ++ [0x80])

def digest (bs : Bytes) : Hash :=
  let padded := bs ++ paddingList bs.length
  squeeze (absorbList (padded.length / rate) padded .zero)

private theorem lane_eq (data : ByteArray) (offset : Nat) :
    lane data offset = firstLane (data.data.toList.drop offset) := by
  simp only [lane, firstLane, byteAt_eq, bytesOfBuffer, List.getD_eq_getElem?_getD, List.getElem?_drop]

private theorem absorb_eq (data : ByteArray) (count offset : Nat) (s : Lanes) :
    absorb data count offset s = absorbList count (data.data.toList.drop offset) s := by
  induction count generalizing offset s with
  | zero => rfl
  | succ k ih =>
    rw [absorb, absorbList, ih, List.drop_drop]
    simp only [absorbBlock, absorbFirst, lane_eq, List.drop_drop, Nat.add_zero]

private theorem toList_padding (size : Nat) : (padding size).data.toList = paddingList size := by
  simp only [padding, paddingList]
  split <;> simp

theorem keccak_eq_digest (bs : Bytes) : keccak bs = digest bs := by
  have hdata : (bs.toByteArray ++ padding bs.toByteArray.size).data.toList = bs ++ paddingList bs.length := by
    simp [toList_padding]
  have hsize : (bs.toByteArray ++ padding bs.toByteArray.size).size = (bs ++ paddingList bs.length).length := by
    rw [← hdata]
    rfl
  rw [keccak, keccak256, digest, absorb_eq, List.drop_zero, hdata, hsize]

theorem keccak256_empty : keccak256 ByteArray.empty = emptyCodeHash := by
  change keccak [] = emptyCodeHash
  rw [keccak_eq_digest]
  decide +kernel

theorem keccak256_of_isEmpty {data : ByteArray} (h : data.isEmpty = true) : keccak256 data = emptyCodeHash := by
  have hnil : data = ByteArray.empty := ByteArray.size_eq_zero_iff.mp (by simpa [ByteArray.isEmpty] using h)
  rw [hnil, keccak256_empty]

end Keccak

end StateTransition
