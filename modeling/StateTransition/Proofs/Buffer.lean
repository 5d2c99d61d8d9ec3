import Mathlib.Algebra.BigOperators.Intervals
import Mathlib.Algebra.BigOperators.Ring.Finset
import StateTransition.Proofs.Numeral

/-! Buffers byte by byte: what is read of one that continues with zeros, and the number that its bytes spell. -/
namespace StateTransition

/-- The number that `size` bytes from `offset` on spell in base 256, in a buffer that continues with zeros without
end. -/
def numeralAt (buffer : ByteArray) (offset size : Nat) : Nat :=
  ∑ i ∈ Finset.range size, (byteAt buffer (offset + i)).toNat * 256 ^ (size - 1 - i)

theorem byteAt_eq (buffer : ByteArray) (i : Nat) : byteAt buffer i = (bytesOfBuffer buffer).getD i 0 := by
  rw [byteAt, bytesOfBuffer, List.getD_eq_getElem?_getD, Array.getElem?_toList]
  split
  · next h =>
    rw [Array.getElem?_eq_getElem h]
    rfl
  · next h => rw [Array.getElem?_eq_none (Nat.le_of_not_lt h), Option.getD_none]

@[simp] theorem length_bytesOfBuffer (buffer : ByteArray) : (bytesOfBuffer buffer).length = buffer.size := rfl

private theorem foldlLoop_eq {α : Type} (f : α → UInt8 → α) (buffer : ByteArray) (left i : Nat) (a : α)
    (h : i + left = buffer.size) :
    ByteArray.foldlM.loop (m := Id) (fun a b => pure (f a b)) buffer buffer.size (Nat.le_refl _) left i a =
      ((bytesOfBuffer buffer).drop i).foldl f a := by
  induction left generalizing i a with
  | zero =>
    rw [ByteArray.foldlM.loop, dif_neg (by omega), List.drop_eq_nil_of_le (by simp; omega)]
    rfl
  | succ left ih =>
    have hi : i < buffer.size := by omega
    have hdrop : (bytesOfBuffer buffer).drop i = buffer[i] :: (bytesOfBuffer buffer).drop (i + 1) :=
      List.drop_eq_getElem_cons hi
    rw [ByteArray.foldlM.loop, dif_pos hi, hdrop, List.foldl_cons]
    exact ih (i + 1) (f a buffer[i]) (by omega)

/-- The number of a buffer is that of its bytes. -/
private theorem natOfBuffer_eq (buffer : ByteArray) : natOfBuffer buffer = Bytes.toNat (bytesOfBuffer buffer) := by
  rw [natOfBuffer, ByteArray.foldl, ByteArray.foldlM]
  simp only [Nat.le_refl, dite_true]
  exact foldlLoop_eq _ buffer (buffer.size - 0) 0 0 (by omega)

namespace Bytes

theorem toNat_concat (bs : Bytes) (b : UInt8) : toNat (bs ++ [b]) = toNat bs * 256 + b.toNat := by
  rw [toNat, List.foldl_append]
  rfl

/-- Every byte counts by its distance from the last one. -/
private theorem toNat_map_range (f : Nat → UInt8) (n : Nat) :
    toNat ((List.range n).map f) = ∑ i ∈ Finset.range n, (f i).toNat * 256 ^ (n - 1 - i) := by
  induction n with
  | zero => rfl
  | succ n ih =>
    have hshift : ∀ i ∈ Finset.range n, (f i).toNat * 256 ^ (n - 1 - i) * 256 = (f i).toNat * 256 ^ (n - i) := by
      intro i hi
      have hlt := Finset.mem_range.mp hi
      have hplace : (n - 1 - i).succ = n - i := by omega
      rw [Nat.mul_assoc, ← Nat.pow_succ, hplace]
    rw [List.range_succ, List.map_append, List.map_singleton, toNat_concat, ih, Finset.sum_mul,
      Finset.sum_congr rfl hshift, Finset.sum_range_succ, Nat.add_sub_cancel, Nat.sub_self, Nat.pow_zero, Nat.mul_one]

private theorem toNat_replicate_zero (n : Nat) : toNat (List.replicate n 0) = 0 := by
  induction n with
  | zero => rfl
  | succ n ih => rw [List.replicate_succ, toNat_cons, ih, UInt8.toNat_zero, Nat.zero_mul]

private theorem fit_eq_map_range (width : Nat) (bs : Bytes) : fit width bs =
    (List.range width).map fun i => bs.getD i 0 := by
  apply List.ext_getElem
  · simp [fit]
  · intro i hi _
    simp only [fit, List.getElem_append, List.length_take, List.getElem_map, List.getElem_range]
    split
    · next h =>
      have hi : i < bs.length := by omega
      simp [List.getElem?_eq_getElem hi]
    · next h =>
      have hi : bs.length ≤ i := by
        simp [fit] at hi
        omega
      simp [List.getElem?_eq_none hi]

end Bytes

private theorem bytesOfBuffer_append (a b : ByteArray) : bytesOfBuffer
    (a ++ b) = bytesOfBuffer a ++ bytesOfBuffer b := by
  simp [bytesOfBuffer]

private theorem bytesOfBuffer_extract (buffer : ByteArray) (first past : Nat) :
    bytesOfBuffer (buffer.extract first past) = ((bytesOfBuffer buffer).drop first).take (past - first) := by
  simp [bytesOfBuffer, List.extract]

/-- What is read is cut, or filled with zeros. -/
private theorem readPadded_eq_fit (buffer : ByteArray) (offset size : Nat) :
    bytesOfBuffer (readPadded buffer offset size) = Bytes.fit size ((bytesOfBuffer buffer).drop offset) := by
  have hkept : bytesOfBuffer (if offset < buffer.size then buffer.extract offset (min (offset + size) buffer.size)
      else ByteArray.empty) = ((bytesOfBuffer buffer).drop offset).take size := by
    split
    · rw [bytesOfBuffer_extract, List.take_eq_take_iff, List.length_drop, length_bytesOfBuffer]
      omega
    · next hpast =>
      have hnone : (bytesOfBuffer buffer).drop offset = [] := List.drop_eq_nil_of_le (Nat.le_of_not_lt hpast)
      rw [hnone, List.take_nil]
      rfl
  rw [readPadded, bytesOfBuffer_append, Bytes.fit, ← hkept, length_bytesOfBuffer]
  simp [bytesOfBuffer]

/-- What is read past the end is zero. -/
private theorem bytesOfBuffer_readPadded (buffer : ByteArray) (offset size : Nat) :
    bytesOfBuffer (readPadded buffer offset size) = (List.range size).map fun i => byteAt buffer (offset + i) := by
  rw [readPadded_eq_fit, Bytes.fit_eq_map_range]
  simp only [byteAt_eq, List.getD_eq_getElem?_getD, List.getElem?_drop]

theorem natOfBuffer_readPadded (buffer : ByteArray) (offset size : Nat) :
    natOfBuffer (readPadded buffer offset size) = numeralAt buffer offset size := by
  rw [natOfBuffer_eq, bytesOfBuffer_readPadded, Bytes.toNat_map_range, numeralAt]

theorem size_readPadded (buffer : ByteArray) (offset size : Nat) : (readPadded buffer offset size).size = size := by
  rw [← length_bytesOfBuffer, bytesOfBuffer_readPadded, List.length_map, List.length_range]

theorem numeralAt_lt (buffer : ByteArray) (offset size : Nat) : numeralAt buffer offset size < 256 ^ size := by
  have hlt := Bytes.toNat_lt ((List.range size).map fun i => byteAt buffer (offset + i))
  rwa [Bytes.toNat_map_range, List.length_map, List.length_range] at hlt

/-- The number of a buffer is read from all of it. -/
theorem natOfBuffer_eq_numeralAt (buffer : ByteArray) : natOfBuffer buffer = numeralAt buffer 0 buffer.size := by
  have hbytes : bytesOfBuffer buffer = (List.range buffer.size).map fun i => byteAt buffer (0 + i) := by
    apply List.ext_getElem
    · simp
    · intro i hi _
      simp [byteAt_eq, List.getElem?_eq_getElem hi]
  rw [natOfBuffer_eq, hbytes, Bytes.toNat_map_range, numeralAt]

@[simp] theorem size_bufferOfNat (width n : Nat) : (bufferOfNat width n).size = width := by
  simp [bufferOfNat]

@[simp] theorem size_zeroBytes (size : Nat) : (zeroBytes size).size = size := by
  simp [zeroBytes, ByteArray.size]

theorem natOfBuffer_bufferOfNat (width n : Nat) : natOfBuffer (bufferOfNat width n) = n % 256 ^ width := by
  rw [natOfBuffer_eq, bufferOfNat, bytesOfBuffer, List.data_toByteArray]
  exact Bytes.toNat_ofNatPadded width n

theorem natOfBuffer_zeroBytes (size : Nat) : natOfBuffer (zeroBytes size) = 0 := by
  rw [natOfBuffer_eq, bytesOfBuffer, zeroBytes, Array.toList_replicate, Bytes.toNat_replicate_zero]

end StateTransition
