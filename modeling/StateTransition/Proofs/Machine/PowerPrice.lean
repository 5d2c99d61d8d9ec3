import StateTransition.Proofs.Machine.Primitive
import StateTransition.Proofs.Numeral
import StateTransition.Proofs.Word

/-! The price of a modular power. What is too large for a word on the way is cut off there, and makes the price the
greatest count all the same: a number that has been cut off is still too large for a count after it is divided. -/
namespace StateTransition.Precompile

namespace PowerRequest

/-- The squarings that an exponent takes, over numbers without bound. -/
def unboundedIterations (p : PowerRequest) : Nat :=
  max 1 (bitLength p.exponentHead.toNat - 1 +
    if 32 < p.exponentLength.toNat then 8 * (p.exponentLength.toNat - 32) else 0)

def unboundedComplexity (length : Nat) : Nat :=
  if length ≤ 64 then length ^ 2
  else if length ≤ 1024 then length ^ 2 / 4 + 96 * length - 3072
  else length ^ 2 / 16 + 480 * length - 199680

/-- The price over numbers without bound. -/
def unboundedPrice (repriced : Bool) (p : PowerRequest) : Nat :=
  let length := max p.baseLength.toNat p.modulusLength.toNat
  if repriced then max 200 (((length + 7) / 8) ^ 2 * p.unboundedIterations / 3)
  else unboundedComplexity length * p.unboundedIterations / 20

end PowerRequest

/-- Two numbers that are the same, or both so large that a price of them is more than any count. -/
def AlikeInPrice (n m : Nat) : Prop := n = m ∨ 2 ^ 251 ≤ n ∧ 2 ^ 251 ≤ m

namespace AlikeInPrice

variable {n m n' m' : Nat}

private theorem mul (h : AlikeInPrice n m) (h' : AlikeInPrice n' m') (hn' : 0 < n') (hm' : 0 < m') :
    AlikeInPrice (n * n') (m * m') := by
  rcases h with rfl | ⟨hn, hm⟩
  · rcases h' with rfl | ⟨hle, hle'⟩
    · exact .inl rfl
    · rcases Nat.eq_zero_or_pos n with rfl | hpos
      · exact .inl (by simp only [Nat.zero_mul])
      · exact .inr ⟨hle.trans (Nat.le_mul_of_pos_left _ hpos), hle'.trans (Nat.le_mul_of_pos_left _ hpos)⟩
  · exact .inr ⟨hn.trans (Nat.le_mul_of_pos_right _ hn'), hm.trans (Nat.le_mul_of_pos_right _ hm')⟩

private theorem square (h : AlikeInPrice n m) : AlikeInPrice (n * n) (m ^ 2) := by
  rw [Nat.pow_two]
  rcases h with rfl | ⟨hn, hm⟩
  · exact .inl rfl
  · exact .inr ⟨hn.trans (Nat.le_mul_self n), hm.trans (Nat.le_mul_self m)⟩

/-- What is cut off at the greatest word is large still. -/
private theorem cut (h : AlikeInPrice n m) : AlikeInPrice (min n (wordLimit - 1)) m := by
  unfold AlikeInPrice wordLimit at *
  omega

/-- A quotient that is a count is that of the number before it was cut off. -/
private theorem div {k : Nat} (h : AlikeInPrice n m) (hk : k ≤ 20) : min (n / k) maxCount = min (m / k) maxCount := by
  rcases h with rfl | ⟨hn, hm⟩
  · rfl
  · rcases Nat.eq_zero_or_pos k with rfl | hpos
    · rw [Nat.div_zero, Nat.div_zero]
    · have hlarge : maxCount * k ≤ 2 ^ 251 := (Nat.mul_le_mul_left maxCount hk).trans (by decide)
      rw [Nat.min_eq_right ((Nat.le_div_iff_mul_le hpos).mpr (hlarge.trans hn)),
        Nat.min_eq_right ((Nat.le_div_iff_mul_le hpos).mpr (hlarge.trans hm))]

end AlikeInPrice

namespace PowerRequest

variable (p : PowerRequest)

private theorem iterations_pos : 0 < p.iterations.toNat := by
  unfold iterations
  rw [Word.toNat_larger]
  exact Nat.lt_of_lt_of_le Nat.one_pos (Nat.le_max_right _ _)

private theorem unboundedIterations_pos : 0 < p.unboundedIterations := Nat.lt_of_lt_of_le Nat.one_pos
    (Nat.le_max_left _ _)

private theorem alike_iterations : AlikeInPrice p.iterations.toNat p.unboundedIterations := by
  have hlength := p.exponentLength.isLt
  have hbits : bitLength p.exponentHead.toNat ≤ 256 := Bytes.bitLength_le_of_lt_pow p.exponentHead.isLt
  have hhead : (BitVec.ofNat 256 (bitLength p.exponentHead.toNat - 1)).toNat = bitLength p.exponentHead.toNat - 1 :=
    Nat.mod_eq_of_lt (by omega)
  have hone : (1 : Word).toNat = 1 := rfl
  unfold iterations unboundedIterations AlikeInPrice
  dsimp only
  by_cases hshort : p.exponentLength ≤ 32
  · have hle : p.exponentLength.toNat ≤ 32 := hshort
    rw [if_pos hshort, if_neg (Nat.not_lt.mpr hle), Word.toNat_larger, hhead, hone]
    omega
  · have hlt : 32 < p.exponentLength.toNat := Nat.lt_of_not_le hshort
    have hrest : (p.exponentLength - 32).toNat = p.exponentLength.toNat - 32 :=
      BitVec.toNat_sub_of_le (Nat.le_of_lt hlt)
    have height : (8 : Word).toNat = 8 := rfl
    rw [if_neg hshort, if_pos hlt, Word.toNat_larger, Word.toNat_addSaturating, Word.toNat_mulSaturating, hrest, hhead,
      hone, height]
    unfold wordLimit
    omega

private theorem alike_newComplexity (length : Word) :
    AlikeInPrice (newComplexity length).toNat (((length.toNat + 7) / 8) ^ 2) := by
  have hlength := length.isLt
  have hseven : (7 : Word).toNat = 7 := rfl
  have height : (8 : Word).toNat = 8 := rfl
  have hwords : AlikeInPrice ((length.addSaturating 7) / 8).toNat ((length.toNat + 7) / 8) := by
    rw [BitVec.toNat_udiv, Word.toNat_addSaturating, hseven, height]
    unfold AlikeInPrice wordLimit
    omega
  unfold newComplexity
  rw [Word.toNat_mulSaturating]
  exact hwords.square.cut

/-- Squares of lengths up to 1024 are far from being cut off, and so is what is taken from them. -/
private theorem toNat_middleComplexity {length : Word} (hleast : 64 < length.toNat)
    (hgreatest : length.toNat ≤ 1024) :
    (length.mulSaturating length / 4 + length * 96 - 3072).toNat =
      length.toNat ^ 2 / 4 + 96 * length.toNat - 3072 := by
  have hsquare : length.toNat * length.toNat ≤ 1024 * 1024 := Nat.mul_le_mul hgreatest hgreatest
  have hquarter : (length.mulSaturating length / 4).toNat = length.toNat ^ 2 / 4 := by
    rw [BitVec.toNat_udiv, Word.toNat_mulSaturating, Nat.pow_two]
    change min _ _ / 4 = _
    unfold wordLimit
    omega
  have hproduct : (length * 96).toNat = 96 * length.toNat := by
    rw [BitVec.toNat_mul_of_lt, Nat.mul_comm]
    · rfl
    · change length.toNat * 96 < _
      omega
  have hsum : (length.mulSaturating length / 4 + length * 96).toNat = length.toNat ^ 2 / 4 + 96 * length.toNat := by
    rw [BitVec.toNat_add_of_lt, hquarter, hproduct]
    rw [hquarter, hproduct, Nat.pow_two]
    omega
  rw [BitVec.toNat_sub_of_le, hsum]
  · rfl
  · rw [BitVec.le_def, hsum]
    change 3072 ≤ _
    omega

/-- A square that is cut off leaves a price that is more than any count. -/
private theorem alike_greatComplexity (length : Word) :
    let sum := (length.mulSaturating length / 16).addSaturating (length.mulSaturating 480)
    AlikeInPrice (sum.subSaturating 199680).toNat (length.toNat ^ 2 / 16 + 480 * length.toNat - 199680) := by
  intro sum
  have hsum : sum.toNat = min (min (length.toNat * length.toNat) (wordLimit - 1) / 16 +
      min (480 * length.toNat) (wordLimit - 1)) (wordLimit - 1) := by
    rw [Word.toNat_addSaturating, BitVec.toNat_udiv, Word.toNat_mulSaturating, Word.toNat_mulSaturating,
      Nat.mul_comm 480]
    rfl
  have hless : (199680 : Word).toNat = 199680 := rfl
  rw [Word.toNat_subSaturating, hsum, hless, Nat.pow_two]
  unfold AlikeInPrice wordLimit
  rcases Nat.lt_or_ge length.toNat (2 ^ 128) with hlt | hle
  · have hsquare : length.toNat * length.toNat < 2 ^ 128 * 2 ^ 128 := Nat.mul_lt_mul'' hlt hlt
    omega
  · have hsquare : 2 ^ 128 * 2 ^ 128 ≤ length.toNat * length.toNat := Nat.mul_le_mul hle hle
    omega

private theorem alike_oldComplexity (length : Word) :
    AlikeInPrice (oldComplexity length).toNat (unboundedComplexity length.toNat) := by
  unfold oldComplexity unboundedComplexity
  dsimp only
  by_cases hsmall : length ≤ 64
  · have hle : length.toNat ≤ 64 := hsmall
    rw [if_pos hsmall, if_pos hle, Word.toNat_mulSaturating, Nat.pow_two]
    exact .cut (.inl rfl)
  · have hlt : 64 < length.toNat := Nat.lt_of_not_le hsmall
    rw [if_neg hsmall, if_neg (Nat.not_le.mpr hlt)]
    by_cases hmiddle : length ≤ 1024
    · have hle : length.toNat ≤ 1024 := hmiddle
      rw [if_pos hmiddle, if_pos hle]
      exact .inl (toNat_middleComplexity hlt hle)
    · have hlt : 1024 < length.toNat := Nat.lt_of_not_le hmiddle
      rw [if_neg hmiddle, if_neg (Nat.not_le.mpr hlt)]
      exact alike_greatComplexity length

private theorem price_eq (repriced : Bool) (p : PowerRequest) :
    p.price repriced = min maxCount (p.unboundedPrice repriced) := by
  have hiterations := p.alike_iterations
  unfold price unboundedPrice Word.toCountSaturating
  dsimp only
  rw [← Word.toNat_larger]
  generalize p.baseLength.larger p.modulusLength = length
  cases repriced with
  | true =>
    have hquotient := ((alike_newComplexity length).mul hiterations p.iterations_pos
      p.unboundedIterations_pos).cut.div (k := 3) (by decide)
    rw [if_pos rfl, if_pos rfl, Word.toNat_larger, BitVec.toNat_udiv, Word.toNat_mulSaturating]
    change min (max (_ / 3) 200) _ = _
    omega
  | false =>
    have hquotient := ((alike_oldComplexity length).mul hiterations p.iterations_pos
      p.unboundedIterations_pos).cut.div (k := 20) (by decide)
    rw [if_neg Bool.false_ne_true, if_neg Bool.false_ne_true, BitVec.toNat_udiv, Word.toNat_mulSaturating]
    change min (_ / 20) _ = _
    rw [hquotient, Nat.min_comm]

/-- The price is the one over numbers without bound, or the greatest count where that is no count. -/
theorem price_saturates (repriced : Bool) (p : PowerRequest) :
    p.price repriced = min (2 ^ 64 - 1) (p.unboundedPrice repriced) := price_eq repriced p

/-! ### Long operands -/

variable {p}

private theorem le_unboundedIterations (h : bufferLimit ≤ p.exponentLength.toNat) :
    20 * 2 ^ 61 ≤ p.unboundedIterations := by
  unfold unboundedIterations bufferLimit at *
  rw [if_pos (by omega)]
  omega

private theorem le_unboundedComplexity {length : Nat} (h : bufferLimit ≤ length) :
    20 * 2 ^ 61 ≤ unboundedComplexity length := by
  have hsquare : bufferLimit ^ 2 ≤ length ^ 2 := Nat.pow_le_pow_left h 2
  unfold unboundedComplexity bufferLimit at *
  rw [if_neg (by omega), if_neg (by omega)]
  omega

private theorem unboundedComplexity_pos {length : Nat} (h : 0 < length) : 0 < unboundedComplexity length := by
  have hsquare : 0 < length ^ 2 := Nat.pow_pos h
  unfold unboundedComplexity
  split
  · exact hsquare
  · split <;> omega

private theorem le_mul_of_le_or_le {n c i : Nat} (hc : 0 < c) (hi : 0 < i) (h : n ≤ c ∨ n ≤ i) : n ≤ c * i := by
  rcases h with h | h
  · exact h.trans (Nat.le_mul_of_pos_right c hi)
  · exact h.trans (Nat.le_mul_of_pos_left i hc)

/-- What no buffer can hold has a price that nearly no gas can pay. -/
theorem IsLong.le_price (h : p.IsLong) (repriced : Bool) : 2 ^ 61 ≤ p.price repriced := by
  obtain ⟨hsome, hlong⟩ := h
  have hiterations := p.unboundedIterations_pos
  have hlength : 0 < max p.baseLength.toNat p.modulusLength.toNat := by
    by_contra hnone
    exact hsome ⟨BitVec.eq_of_toNat_eq (Nat.le_zero.mp (by omega)), BitVec.eq_of_toNat_eq (Nat.le_zero.mp (by omega))⟩
  have hlong : bufferLimit ≤ max p.baseLength.toNat p.modulusLength.toNat ∨
      bufferLimit ≤ p.exponentLength.toNat := by omega
  rw [price_eq]
  refine Nat.le_min.mpr ⟨by decide, ?_⟩
  unfold unboundedPrice
  generalize max p.baseLength.toNat p.modulusLength.toNat = length at *
  cases repriced with
  | true =>
    have hwords : 0 < ((length + 7) / 8) ^ 2 := Nat.pow_pos (by omega)
    have hprice := le_mul_of_le_or_le (n := 20 * 2 ^ 61) hwords hiterations <| hlong.imp
      (fun h => le_trans (by decide) (Nat.pow_le_pow_left (show bufferLimit / 8 ≤ (length + 7) / 8 by omega) 2))
      le_unboundedIterations
    dsimp only
    rw [if_pos rfl]
    omega
  | false =>
    have hprice := le_mul_of_le_or_le (unboundedComplexity_pos hlength) hiterations
      (hlong.imp le_unboundedComplexity le_unboundedIterations)
    exact (Nat.le_div_iff_mul_le (by decide)).mpr (by omega)

end PowerRequest

end StateTransition.Precompile
