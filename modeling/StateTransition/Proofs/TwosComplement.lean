import StateTransition.Proofs.Word

/-! Operations on words against the integers that words stand for. Signed ones are those on integers in two's
complement, at the least number and for shifts past the width as well; a sum or product that is reduced afterwards loses
nothing in between. -/
namespace StateTransition

namespace Word

variable {a b n x : Word}

/-! ### Signs -/

private theorem isNegative_eq_msb (w : Word) : w.isNegative = w.msb := (BitVec.msb_eq_getLsbD_last w).symm

private theorem opposite_eq_neg (w : Word) : w.opposite = -w := (BitVec.neg_eq_not_add w).symm

private theorem magnitude_eq (w : Word) : w.magnitude = if w.msb then -w else w := by
  rw [magnitude, isNegative_eq_msb, opposite_eq_neg]

/-- The quotient of the magnitudes gets its sign from both operands. -/
private theorem sdiv_eq (h : b ≠ 0) : sdiv a b = BitVec.sdiv a b := by
  rw [sdiv, if_neg h, BitVec.sdiv_eq]
  simp only [magnitude_eq, isNegative_eq_msb, opposite_eq_neg]
  cases a.msb <;> cases b.msb <;> rfl

private theorem sdiv_eq_ofInt : sdiv a b = if b = 0 then 0 else BitVec.ofInt 256 (a.toInt.tdiv b.toInt) := by
  split
  · next h => exact if_pos h
  · next h =>
    refine BitVec.eq_of_toInt_eq ?_
    rw [sdiv_eq h, BitVec.toInt_sdiv, BitVec.toInt_ofInt]

/-- The remainder of the magnitudes gets its sign from the dividend. -/
private theorem smod_eq (h : b ≠ 0) : smod a b = BitVec.srem a b := by
  rw [smod, if_neg h, BitVec.srem_eq]
  simp only [magnitude_eq, isNegative_eq_msb, opposite_eq_neg]
  cases a.msb <;> cases b.msb <;> rfl

private theorem toInt_smod : (smod a b).toInt = if b = 0 then 0 else a.toInt.tmod b.toInt := by
  split
  · next h =>
    rw [smod, if_pos h]
    rfl
  · next h => rw [smod_eq h, BitVec.toInt_srem]

private theorem slt_iff : slt a b = true ↔ a.toInt < b.toInt := by
  have ha : a.toNat < 2 ^ 256 := a.isLt
  have hb : b.toNat < 2 ^ 256 := b.isLt
  rw [BitVec.toInt_eq_msb_cond, BitVec.toInt_eq_msb_cond, slt, isNegative_eq_msb, isNegative_eq_msb]
  cases a.msb with
  | false =>
    cases b.msb with
    | false => simp [BitVec.lt_def]
    | true => simp; omega
  | true =>
    cases b.msb with
    | false => simp; omega
    | true => simp [BitVec.lt_def]

/-! ### Bits -/

private theorem getLsbD_lowMask {k : Nat} (hk : k < 256) (i : Nat) : (((1 : Word) <<< k) - 1).getLsbD i = decide
    (i < k) := by
  have hone : ((1 : Word) <<< k).toNat = 2 ^ k := by
    rw [BitVec.toNat_shiftLeft, Nat.shiftLeft_eq]
    exact (Nat.mod_eq_of_lt ((Nat.one_mul _).symm ▸ Nat.pow_lt_pow_right (by decide) hk)).trans (Nat.one_mul _)
  have hmask : (((1 : Word) <<< k) - 1).toNat = 2 ^ k - 1 := by
    rw [BitVec.toNat_sub_of_le (BitVec.le_def.mpr (hone ▸ Nat.one_le_two_pow)), hone]
    rfl
  rw [← BitVec.testBit_toNat, hmask, Nat.testBit_two_pow_sub_one]

private theorem getLsbD_highMask {i : Nat} (hi : i < 256) (k : Nat) : (maxWord <<< k).getLsbD i = decide (k ≤ i) := by
  simp only [BitVec.getLsbD_shiftLeft, maxWord, BitVec.getLsbD_allOnes, hi]
  grind

/-- A shift brings in bits of the sign from above the word. -/
private theorem sar_eq : sar n x = x.sshiftRight n.toNat := by
  refine BitVec.eq_of_getLsbD_eq fun i hi => ?_
  rw [BitVec.getLsbD_sshiftRight, decide_eq_false (Nat.not_le_of_lt hi), Bool.not_false, Bool.true_and, sar,
    isNegative_eq_msb]
  by_cases hwide : 256 ≤ n.toNat
  · rw [if_pos hwide, if_neg (show ¬n.toNat + i < 256 by omega)]
    cases x.msb with
    | false => exact BitVec.getLsbD_zero
    | true => exact BitVec.getLsbD_allOnes.trans (decide_eq_true hi)
  · rw [if_neg hwide]
    have hfill := getLsbD_highMask hi (256 - n.toNat)
    by_cases hinside : n.toNat + i < 256
    · rw [decide_eq_false (by omega)] at hfill
      rw [if_pos hinside]
      dsimp only
      split
      · rw [BitVec.getLsbD_or, BitVec.getLsbD_ushiftRight, hfill, Bool.or_false]
      · exact BitVec.getLsbD_ushiftRight _ _ _
    · have hpos : 0 < n.toNat := by omega
      have hgone : (x >>> n.toNat).getLsbD i = false := by
        rw [BitVec.getLsbD_ushiftRight]
        exact BitVec.getLsbD_of_ge _ _ (Nat.le_of_not_lt hinside)
      rw [decide_eq_true (by omega)] at hfill
      rw [if_neg hinside, decide_eq_true hpos, Bool.and_true]
      dsimp only
      cases x.msb with
      | false => exact hgone
      | true => exact (BitVec.getLsbD_or ..).trans (by rw [hgone, hfill, Bool.false_or])

private theorem toInt_sar : (sar n x).toInt = x.toInt.fdiv (2 ^ n.toNat) := by
  rw [sar_eq, BitVec.toInt_sshiftRight, Int.shiftRight_eq_div_pow, Int.natCast_pow]
  exact (Int.fdiv_eq_ediv_of_nonneg _ (Int.pow_nonneg (by decide))).symm

/-- The mask has the bits below the sign bit of the byte, and what it takes away or puts in is the rest. -/
private theorem signextend_eq (h : b.toNat < 31) :
    signextend b x = (x.setWidth (8 * (b.toNat + 1))).signExtend 256 := by
  have hmask := getLsbD_lowMask (show 8 * b.toNat + 7 < 256 by omega)
  have hsign : (x.setWidth (8 * (b.toNat + 1))).msb = x.getLsbD (8 * b.toNat + 7) := by
    rw [BitVec.msb_setWidth, decide_eq_true (by omega : 0 < 8 * (b.toNat + 1)), Bool.true_and]
    rfl
  refine BitVec.eq_of_getLsbD_eq fun i hi => ?_
  rw [BitVec.getLsbD_signExtend, BitVec.getLsbD_setWidth, hsign, signextend, if_neg (Nat.not_le_of_lt h)]
  dsimp only
  cases hbit : x.getLsbD (8 * b.toNat + 7) with
  | false =>
    rw [if_neg (by decide), BitVec.getLsbD_and, hmask]
    rcases Nat.lt_trichotomy i (8 * b.toNat + 7) with hlt | rfl | hgt <;> grind
  | true =>
    rw [if_pos rfl, BitVec.getLsbD_or, BitVec.getLsbD_not, hmask]
    rcases Nat.lt_trichotomy i (8 * b.toNat + 7) with hlt | rfl | hgt <;> grind

private theorem toInt_signextend :
    (signextend b x).toInt = if b.toNat < 31 then (x.setWidth (8 * (b.toNat + 1))).toInt else x.toInt := by
  split
  · next h => rw [signextend_eq h, BitVec.toInt_signExtend_of_le (by omega)]
  · next h => rw [signextend, if_pos (Nat.le_of_not_lt h)]

private theorem toNat_byte : (byte n x).toNat = if n.toNat < 32 then x.toNat / 2 ^
    (8 * (31 - n.toNat)) % 256 else 0 := by
  unfold byte
  split
  · rw [BitVec.toNat_and, BitVec.toNat_ushiftRight, Nat.shiftRight_eq_div_pow]
    exact Nat.and_two_pow_sub_one_eq_mod _ 8
  · rfl

/-! ### Modular operations -/

/-- A value that is reduced modulo a word is a word. -/
private theorem toNat_narrow_mod (v : DoubleWord) (h : n ≠ 0) :
    (narrow (v % n.setWidth 512)).toNat = v.toNat % n.toNat := by
  have hpos : 0 < n.toNat := Nat.pos_of_ne_zero fun hzero => h (BitVec.eq_of_toNat_eq hzero)
  have hvalue : (v % n.setWidth 512).toNat = v.toNat % n.toNat := by
    rw [BitVec.toNat_umod, BitVec.toNat_setWidth_of_le (by decide)]
  have hlt : v.toNat % n.toNat < wordLimit := (Nat.mod_lt _ hpos).trans n.isLt
  rw [narrow, hvalue, if_pos hlt, BitVec.toNat_setWidth, hvalue]
  exact Nat.mod_eq_of_lt hlt

private theorem toNat_addmod : (addmod a b n).toNat = if n = 0 then 0 else (a.toNat + b.toNat) % n.toNat := by
  unfold addmod
  split
  · rfl
  · next h =>
    -- two words together are far from the end of a word of twice the width
    have hsum : (a.setWidth 512 + b.setWidth 512).toNat = a.toNat + b.toNat := by
      rw [BitVec.toNat_add, BitVec.toNat_setWidth_of_le (by decide), BitVec.toNat_setWidth_of_le (by decide)]
      have := a.isLt
      have := b.isLt
      omega
    rw [toNat_narrow_mod _ h, hsum]

/-- A product of two numbers fits into twice their width. -/
private theorem toNat_widened_mul {w : Nat} (a b : BitVec w) :
    (a.setWidth (w + w) * b.setWidth (w + w)).toNat = a.toNat * b.toNat := by
  have hlt : a.toNat * b.toNat < 2 ^ (w + w) := by
    rw [Nat.pow_add]
    exact Nat.mul_lt_mul'' a.isLt b.isLt
  rw [BitVec.toNat_mul, BitVec.toNat_setWidth_of_le (Nat.le_add_left w w),
    BitVec.toNat_setWidth_of_le (Nat.le_add_left w w), Nat.mod_eq_of_lt hlt]

private theorem toNat_mulmod : (mulmod a b n).toNat = if n = 0 then 0 else a.toNat * b.toNat % n.toNat := by
  unfold mulmod
  split
  · rfl
  · next h =>
    exact (toNat_narrow_mod _ h).trans (congrArg (· % n.toNat) (toNat_widened_mul a b))

private theorem toNat_exp : (exp a b).toNat = a.toNat ^ b.toNat % 2 ^ 256 := by
  rw [exp, BitVec.toNat_ofNat, powMod_eq]
  exact Nat.mod_mod _ _

/-! ### All operations -/

/-- What the operations on words are on the integers that words stand for. -/
structure OverIntegers (a b n x : Word) : Prop where
  sdiv : sdiv a b = if b = 0 then 0 else BitVec.ofInt 256 (a.toInt.tdiv b.toInt)
  smod : (smod a b).toInt = if b = 0 then 0 else a.toInt.tmod b.toInt
  slt : slt a b = decide (a.toInt < b.toInt)
  sar : (sar n x).toInt = x.toInt.fdiv (2 ^ n.toNat)
  signextend : (signextend n x).toInt = if n.toNat < 31 then (x.setWidth (8 * (n.toNat + 1))).toInt else x.toInt
  byte : (byte n x).toNat = if n.toNat < 32 then x.toNat / 2 ^ (8 * (31 - n.toNat)) % 256 else 0
  addmod : (addmod a b n).toNat = if n = 0 then 0 else (a.toNat + b.toNat) % n.toNat
  mulmod : (mulmod a b n).toNat = if n = 0 then 0 else a.toNat * b.toNat % n.toNat
  exp : (exp a b).toNat = a.toNat ^ b.toNat % 2 ^ 256

/-- Every operation on words is the one on integers, brought back to a word: truncated division with the sign of the
dividend on what is left, the order, division by a power of two toward below, the low bytes with the sign of the last of
them, one byte, and sums, products and powers modulo a number. The quotient of the least number by minus one, which is no
word, comes back as the least number. -/
theorem operations_exact :
    (∀ a b n x, OverIntegers a b n x) ∧ sdiv (BitVec.intMin 256) (-1) = BitVec.intMin 256 := by
  refine ⟨fun a b n x => ?_, by decide⟩
  exact
    { sdiv := sdiv_eq_ofInt
      smod := toInt_smod
      slt := by rw [Bool.eq_iff_iff, slt_iff, decide_eq_true_eq]
      sar := toInt_sar
      signextend := toInt_signextend
      byte := toNat_byte
      addmod := toNat_addmod
      mulmod := toNat_mulmod
      exp := toNat_exp }

end Word

end StateTransition
