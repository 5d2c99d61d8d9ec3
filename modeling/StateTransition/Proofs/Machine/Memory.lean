import Mathlib.Algebra.Ring.Nat
import StateTransition.Proofs.Machine.Payment

/-! What memory costs a frame. The price of all words there are is a potential: whatever is charged for memory is
its growth, so that what is paid in the end depends on how far memory was used, and not on the steps to there. -/
namespace StateTransition

private theorem le_wordCount (n : Nat) : n ≤ 32 * wordCount n := by
  unfold wordCount
  omega

@[simp] theorem wordCount_mul (k : Nat) : wordCount (32 * k) = k := by
  unfold wordCount
  omega

private theorem wordCount_max (n m : Nat) : wordCount (max n m) = max (wordCount n) (wordCount m) := by
  unfold wordCount
  omega

/-! ### How far memory is used -/

namespace Gas

private theorem memory_mono {k l : Nat} (h : k ≤ l) : memory k ≤ memory l :=
  Nat.add_le_add (Nat.mul_le_mul_left _ h) (Nat.div_le_div_right (Nat.mul_le_mul h h))

/-- The end of the farthest extent that is not empty, zero if there is none. -/
def reach (extents : List (Word × Word)) : Nat :=
  ((extents.filter fun e => e.2 ≠ 0).map fun e => e.1.toNat + e.2.toNat).foldr max 0

private theorem reach_cons_empty (offset : Word) (extents : List (Word × Word)) :
    reach ((offset, 0) :: extents) = reach extents := rfl

private theorem reach_cons {offset length : Word} (h : length ≠ 0) (extents : List (Word × Word)) :
    reach ((offset, length) :: extents) = max (offset.toNat + length.toNat) (reach extents) := by
  rw [reach, List.filter_cons_of_pos (by simpa using h)]
  rfl

private theorem reach_append (l l' : List (Word × Word)) : reach (l ++ l') = max (reach l) (reach l') := by
  induction l with
  | nil => exact (Nat.zero_max _).symm
  | cons e l ih =>
    obtain ⟨offset, length⟩ := e
    by_cases h : length = 0
    · subst h
      exact ih
    · rw [List.cons_append, reach_cons h, reach_cons h, ih, Nat.max_assoc]

/-- Every extent ends within reach, unless it is empty. -/
private theorem le_reach {e : Word × Word} {extents : List (Word × Word)} (he : e ∈ extents) (h : e.2 ≠ 0) :
    e.1.toNat + e.2.toNat ≤ reach extents := by
  obtain ⟨before, after, rfl⟩ := List.append_of_mem he
  rw [reach_append, reach_cons h]
  omega

private theorem cover_ok {size newSize : Nat} {e : Word × Word} (h : cover size e = .ok newSize) :
    newSize = max size (32 * wordCount (reach [e])) := by
  obtain ⟨offset, length⟩ := e
  unfold cover at h
  dsimp only at h
  by_cases hempty : length = 0
  · rw [if_pos hempty] at h
    cases h
    rw [hempty, reach_cons_empty]
    exact (Nat.max_zero _).symm
  · rw [if_neg hempty] at h
    rw [reach_cons hempty]
    split at h
    · next hoffset hlength =>
      cases h
      cases (Option.ite_none_right_eq_some.mp hoffset).2
      cases (Option.ite_none_right_eq_some.mp hlength).2
      exact congrArg (fun n => max size (32 * wordCount n)) (Nat.max_zero _).symm
    · cases h

private theorem foldlM_cover {extents : List (Word × Word)} {size newSize : Nat}
    (h : extents.foldlM cover size = .ok newSize) : newSize = max size (32 * wordCount (reach extents)) := by
  induction extents generalizing size with
  | nil =>
    cases h
    exact (Nat.max_zero _).symm
  | cons e extents ih =>
    rw [List.foldlM_cons] at h
    obtain ⟨between, hcover, hrest⟩ := ok_of_bind h
    have happend : reach (e :: extents) = max (reach [e]) (reach extents) := reach_append [e] extents
    rw [ih hrest, cover_ok hcover, happend, wordCount_max]
    omega

/-- An extent without bytes is not looked at, wherever it is. -/
private theorem expansion_skip (size : Nat) (offset : Word) (before after : List (Word × Word)) :
    expansion size (before ++ (offset, 0) :: after) = expansion size (before ++ after) := by
  have hcover (n : Nat) : cover n (offset, 0) = .ok n := rfl
  simp only [expansion, List.foldlM_append, List.foldlM_cons, hcover]
  rfl

/-- Memory is made to cover every extent, and what it costs is what the price of its words grows by. -/
private theorem expansion_ok {k : Nat} {extents : List (Word × Word)} {x : Expansion}
    (h : expansion (32 * k) extents = .ok x) :
    x.newSize = 32 * max k (wordCount (reach extents)) ∧
      memory k + x.cost = memory (max k (wordCount (reach extents))) := by
  unfold expansion at h
  obtain ⟨newSize, hcover, h⟩ := ok_of_bind h
  have hsize : newSize = 32 * max k (wordCount (reach extents)) := by
    rw [foldlM_cover hcover]
    omega
  subst hsize
  split at h
  · next hle =>
    cases h
    have hsame : max k (wordCount (reach extents)) = k := by omega
    rw [hsame]
    exact ⟨rfl, rfl⟩
  · dsimp only at h
    split at h
    · cases h
      refine ⟨rfl, ?_⟩
      have hmono : memory k ≤ memory (max k (wordCount (reach extents))) := memory_mono (Nat.le_max_left _ _)
      dsimp only
      rw [wordCount_mul, Nat.mul_div_cancel_left _ (by decide)]
      omega
    · cases h

end Gas

/-! ### Using memory -/

namespace Memory

private theorem size_grow (m : Memory) (size : Nat) : (m.grow size).size = max m.size size := by
  unfold grow Memory.size
  split
  · simp only [ByteArray.size_append, zeroBytes]
    change _ + (Array.replicate _ _).size = _
    rw [Array.size_replicate]
    omega
  · omega

/-- What is written within memory leaves its size. -/
private theorem size_write {m : Memory} {offset : Nat} {bytes : ByteArray} (h : offset + bytes.size ≤ m.size) :
    (m.write offset bytes).size = m.size := by
  obtain ⟨data⟩ := m
  unfold write Memory.size at *
  split
  · rfl
  · simp only [Nat.not_lt.mpr h, if_false]
    simp only [ByteArray.copySlice, ByteArray.size, Array.size_append, Array.size_extract] at h ⊢
    omega

end Memory

namespace Frame

/-- Every byte of a range is in one of the extents. -/
def Covered (extents : List (Word × Word)) (offset : Word) (size : Nat) : Prop :=
  ∀ i < size, ∃ e ∈ extents, e.1.toNat ≤ offset.toNat + i ∧ offset.toNat + i < e.1.toNat + e.2.toNat

/-- What comes of a frame that pays for memory and writes to what it has paid for, with the payments that it makes:
each a price and the extents that it is for. -/
inductive UsesMemory (f : Frame) : List (Nat × List (Word × Word)) → Frame → Prop
  | start : UsesMemory f [] f
  | charge {payments : List (Nat × List (Word × Word))} {f₁ f₂ : Frame} {amount : Nat} {extents : List (Word × Word)}
      (before : UsesMemory f payments f₁) (paid : f₁.chargeWithMemory amount extents = .ok f₂) :
      UsesMemory f (payments ++ [(amount, extents)]) f₂
  | write {payments : List (Nat × List (Word × Word))} {f₁ : Frame} {offset : Word} {bytes : ByteArray}
      (before : UsesMemory f payments f₁) (within : Covered (payments.flatMap Prod.snd) offset bytes.size) :
      UsesMemory f payments (f₁.writeMemory offset bytes)

private theorem Covered.le_reach {extents : List (Word × Word)} {offset : Word} {size : Nat}
    (h : Covered extents offset size) (hsize : 0 < size) : offset.toNat + size ≤ Gas.reach extents := by
  obtain ⟨e, he, hfirst, hlast⟩ := h (size - 1) (by omega)
  have hne : e.2 ≠ 0 := by
    intro hzero
    have hlength : e.2.toNat = 0 := congrArg BitVec.toNat hzero
    omega
  have := Gas.le_reach he hne
  omega

@[simp] theorem writeMemory_gasLeft (f : Frame) (offset : Word) (bytes : ByteArray) :
    (f.writeMemory offset bytes).gasLeft = f.gasLeft := by
  unfold writeMemory
  split <;> rfl

private theorem size_writeMemory {f : Frame} {extents : List (Word × Word)} {offset : Word} {bytes : ByteArray}
    (hsize : f.memory.size = 32 * wordCount (Gas.reach extents)) (h : Covered extents offset bytes.size) :
    (f.writeMemory offset bytes).memory.size = f.memory.size := by
  unfold writeMemory
  split
  · rfl
  · next hempty =>
    have hpos : 0 < bytes.size := Nat.pos_of_ne_zero fun hzero => hempty (by simp [ByteArray.isEmpty, hzero])
    have hend := h.le_reach hpos
    have hwords := le_wordCount (Gas.reach extents)
    exact Memory.size_write (by omega)

/-- A payment makes memory cover its extents, and gas and the price of memory fall and rise together, but for what
is paid on top. -/
private theorem chargeWithMemory_memory {f f' : Frame} {amount k : Nat} {extents : List (Word × Word)}
    (hsize : f.memory.size = 32 * k) (hgas : f.gasLeft < maxCount)
    (h : f.chargeWithMemory amount extents = .ok f') :
    f'.memory.size = 32 * max k (wordCount (Gas.reach extents)) ∧
      f'.gasLeft + amount + Gas.memory (max k (wordCount (Gas.reach extents))) = f.gasLeft + Gas.memory k := by
  obtain ⟨x, hx, hle, rfl⟩ := chargeWithMemory_cases h
  rw [hsize] at hx
  obtain ⟨hnew, hcost⟩ := Gas.expansion_ok hx
  -- Who can pay has less than the greatest count, which is where the sum would have been cut off.
  have hexact : Gas.addSaturating amount x.cost = amount + x.cost := by
    unfold Gas.addSaturating at hle ⊢
    omega
  rw [hexact] at hle ⊢
  dsimp only
  rw [Memory.size_grow, hnew, hsize]
  omega

/-- Whoever has the gas for it can have memory. -/
private theorem exists_chargeWithMemory (f : Frame) (amount : Nat) (extents : List (Word × Word)) (x : Gas.Expansion)
    (hx : Gas.expansion f.memory.size extents = .ok x) (hle : Gas.addSaturating amount x.cost ≤ f.gasLeft) :
    ∃ f', f.chargeWithMemory amount extents = .ok f' ∧ f'.memory.size = max f.memory.size x.newSize ∧
      f'.gasLeft = f.gasLeft - Gas.addSaturating amount x.cost := by
  refine ⟨{ f with
    gasLeft := f.gasLeft - Gas.addSaturating amount x.cost
    memory := f.memory.grow x.newSize }, ?_, Memory.size_grow _ _, rfl⟩
  rw [chargeWithMemory, hx, ok_bind, charge, if_pos hle]
  rfl

namespace UsesMemory

/-- The invariant of using memory. -/
private theorem accounts {f f' : Frame} {payments : List (Nat × List (Word × Word))} (hempty : f.memory.size = 0)
    (hgas : f.gasLeft < maxCount) (h : f.UsesMemory payments f') :
    f'.memory.size = 32 * wordCount (Gas.reach (payments.flatMap Prod.snd)) ∧
      f'.gasLeft + (payments.map Prod.fst).sum + Gas.memory (wordCount (Gas.reach (payments.flatMap Prod.snd))) =
        f.gasLeft := by
  induction h with
  | start => exact ⟨hempty, rfl⟩
  | @charge payments f₁ f₂ amount extents before paid ih =>
    obtain ⟨hsize, hpaid⟩ := ih
    obtain ⟨hsize', hpaid'⟩ := chargeWithMemory_memory hsize (by omega) paid
    simp only [List.flatMap_append, List.flatMap_singleton, Gas.reach_append, wordCount_max, List.map_append,
      List.map_cons, List.map_nil, List.sum_append, List.sum_cons, List.sum_nil]
    exact ⟨hsize', by omega⟩
  | @write payments f₁ offset bytes before within ih =>
    obtain ⟨hsize, hpaid⟩ := ih
    rw [size_writeMemory hsize within, writeMemory_gasLeft]
    exact ⟨hsize, hpaid⟩

end UsesMemory

/-- However a frame comes to use memory, with how many payments and in what order: it has as many words as cover
the farthest byte that it has paid for, and has paid for them what that many words cost at once. Extents without
bytes make no difference to that, wherever they are, and writing to what is paid for makes memory no longer. -/
theorem memory_gas_telescopes {f f' : Frame} {payments : List (Nat × List (Word × Word))} (hempty : f.memory.size = 0)
    (hgas : f.gasLeft < maxCount) (h : f.UsesMemory payments f') :
    let extents := payments.flatMap Prod.snd
    let w := wordCount (Gas.reach extents)
    f'.memory.size = 32 * w ∧
      f.gasLeft = f'.gasLeft + ((payments.map Prod.fst).sum + (3 * w + w * w / 512)) ∧
      (∀ (amount : Nat) (offset : Word) (before after : List (Word × Word)),
        f'.chargeWithMemory amount (before ++ (offset, 0) :: after) = f'.chargeWithMemory amount (before ++ after)) ∧
      ∀ (offset : Word) (bytes : ByteArray), Covered extents offset bytes.size →
        (f'.writeMemory offset bytes).memory.size = f'.memory.size := by
  intro extents w
  obtain ⟨hsize, hpaid⟩ := h.accounts hempty hgas
  refine ⟨hsize, ?_, fun amount offset before after => ?_, fun offset bytes => size_writeMemory hsize⟩
  · rw [← hpaid, Nat.add_assoc]
    rfl
  · unfold chargeWithMemory
    rw [Gas.expansion_skip]

/-- One word is paid for, then two more by extents that share a byte, and two bytes are written across the first two;
what is paid for in the end is there already, or is an extent without bytes at the very last offset. -/
theorem memory_gas_telescopes_over_three_words :
    let m : Message :=
      { caller := 0x77, isCreation := false, target := 0x10, codeAddress := some 0x10, gas := 100, value := 0
        data := .empty, code := .empty, movesValue := true
        isStatic := false, warmAddresses := ∅, warmSlots := ∅, destroyed := ∅ }
    ∃ f, (ofMessage m).UsesMemory [(5, [(0, 32)]), (7, [(64, 1), (31, 2)]), (0, [(0, 96), (BitVec.allOnes 256, 0)])] f ∧
      f.memory.size = 96 ∧ 100 = f.gasLeft + 21 := by
  intro m
  have hempty : (ofMessage m).memory.size = 0 := rfl
  have hgas : (ofMessage m).gasLeft = 100 := rfl
  obtain ⟨f₁, hpaid₁, hsize₁, hgas₁⟩ := exists_chargeWithMemory (ofMessage m) 5 [(0, 32)] ⟨3, 32⟩
    (by rw [hempty]; rfl) (by decide)
  rw [hempty] at hsize₁
  rw [hgas] at hgas₁
  obtain ⟨f₂, hpaid₂, -, -⟩ := exists_chargeWithMemory f₁ 7 [(64, 1), (31, 2)] ⟨6, 96⟩
    (by rw [hsize₁]; rfl) (by rw [hgas₁]; decide)
  have hwithin : Covered [(0, 32), (64, 1), (31, 2)] 31 2 := by
    unfold Covered
    decide
  have huses : (ofMessage m).UsesMemory [(5, [(0, 32)]), (7, [(64, 1), (31, 2)])] (f₂.writeMemory 31 ⟨#[1, 2]⟩) :=
    .write (.charge (.charge .start hpaid₁) hpaid₂) hwithin
  obtain ⟨hsize₃, -⟩ := memory_gas_telescopes hempty (by decide) huses
  obtain ⟨f, hpaid, -, -⟩ := exists_chargeWithMemory (f₂.writeMemory 31 ⟨#[1, 2]⟩) 0
    [(0, 96), (BitVec.allOnes 256, 0)] ⟨0, 96⟩ (by rw [hsize₃]; rfl) (Nat.zero_le _)
  obtain ⟨hsize, htotal, -⟩ := memory_gas_telescopes hempty (by decide) (huses.charge hpaid)
  exact ⟨f, huses.charge hpaid, hsize, htotal⟩

end Frame

end StateTransition
