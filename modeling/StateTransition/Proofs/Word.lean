import Mathlib.Data.Nat.ModEq
import Mathlib.Tactic.Ring
import StateTransition.Word

/-! Words as numbers. Arithmetic that may have no result has the exact one where that is a word, and arithmetic that
saturates gives the greatest word where the exact number is none. Squaring and multiplying gives the power. -/
namespace StateTransition

/-- The product so far is multiplied by what is left of the power. -/
private theorem powModLoop_eq (base exponent modulus acc : Nat) (hacc : acc % modulus = acc) :
    powModLoop base exponent modulus acc = acc * base ^ exponent % modulus := by
  induction exponent using Nat.strong_induction_on generalizing base acc with
  | _ exponent ih =>
    rw [powModLoop]
    split
    · next hzero => rw [hzero, Nat.pow_zero, Nat.mul_one, hacc]
    · next hpos =>
      have hhalf : exponent / 2 < exponent := by omega
      have hsplit : exponent = 2 * (exponent / 2) + exponent % 2 := (Nat.div_add_mod exponent 2).symm
      have hsquare : base * base % modulus ≡ base ^ 2 [MOD modulus] := by
        rw [Nat.pow_two]
        exact Nat.mod_modEq _ _
      split
      · next hodd =>
        rw [ih _ hhalf _ _ (Nat.mod_mod _ _)]
        calc acc * base % modulus * (base * base % modulus) ^ (exponent / 2)
            ≡ acc * base * (base ^ 2) ^ (exponent / 2) [MOD modulus] :=
              (Nat.mod_modEq _ _).mul (hsquare.pow _)
          _ = acc * base ^ (2 * (exponent / 2) + 1) := by ring
          _ = acc * base ^ exponent := by rw [← hodd, ← hsplit]
      · next heven =>
        have heven : exponent % 2 = 0 := by omega
        rw [ih _ hhalf _ _ hacc]
        calc acc * (base * base % modulus) ^ (exponent / 2)
            ≡ acc * (base ^ 2) ^ (exponent / 2) [MOD modulus] := (hsquare.pow _).mul_left acc
          _ = acc * base ^ (2 * (exponent / 2) + 0) := by ring
          _ = acc * base ^ exponent := by rw [← heven, ← hsplit]

theorem powMod_eq (base exponent modulus : Nat) : powMod base exponent modulus = base ^ exponent % modulus := by
  rw [powMod, powModLoop_eq _ _ _ _ (Nat.mod_mod 1 modulus)]
  calc 1 % modulus * (base % modulus) ^ exponent
      ≡ 1 * base ^ exponent [MOD modulus] := (Nat.mod_modEq 1 modulus).mul ((Nat.mod_modEq base modulus).pow _)
    _ = base ^ exponent := Nat.one_mul _

namespace Word

/-! ### Where there is a result -/

section

variable {x y z : Word}

theorem toNat_of_add? (h : x.add? y = some z) : z.toNat = x.toNat + y.toNat := by
  simp only [add?, Option.ite_none_right_eq_some, Option.some.injEq] at h
  obtain ⟨hlt, rfl⟩ := h
  exact (BitVec.toNat_add _ _).trans (Nat.mod_eq_of_lt hlt)

theorem toNat_of_sub? (h : x.sub? y = some z) : z.toNat + y.toNat = x.toNat := by
  simp only [sub?, Option.ite_none_right_eq_some, Option.some.injEq] at h
  obtain ⟨hle, rfl⟩ := h
  rw [BitVec.toNat_sub_of_le hle]
  exact Nat.sub_add_cancel hle

theorem toNat_of_mul? (h : x.mul? y = some z) : z.toNat = x.toNat * y.toNat := by
  simp only [mul?, Option.ite_none_right_eq_some, Option.some.injEq] at h
  obtain ⟨hlt, rfl⟩ := h
  exact (BitVec.toNat_mul _ _).trans (Nat.mod_eq_of_lt hlt)

theorem exists_add? (h : x.toNat + y.toNat < wordLimit) : ∃ z, x.add? y = some z := ⟨x + y, if_pos h⟩

theorem exists_sub? (h : y ≤ x) : ∃ z, x.sub? y = some z := ⟨x - y, if_pos h⟩

theorem toNat_of_toCount? {n : Nat} (h : x.toCount? = some n) : x.toNat = n := by
  simp only [toCount?, Option.ite_none_right_eq_some, Option.some.injEq] at h
  exact h.2

theorem toCount?_of_lt {n : Nat} (h : x.toNat = n) (hlt : n < 2 ^ 64) : x.toCount? = some n := by
  subst h
  exact if_pos hlt

end

/-! ### Saturating -/

@[simp] theorem toNat_ofNatSaturating (n : Nat) : (ofNatSaturating n).toNat = min n (wordLimit - 1) := by
  rw [ofNatSaturating, BitVec.toNat_ofNat]
  refine Nat.mod_eq_of_lt ?_
  unfold wordLimit
  omega

@[simp] theorem toNat_addSaturating (a b : Word) :
    (a.addSaturating b).toNat = min (a.toNat + b.toNat) (wordLimit - 1) :=
  toNat_ofNatSaturating _

@[simp] theorem toNat_mulSaturating (a b : Word) :
    (a.mulSaturating b).toNat = min (a.toNat * b.toNat) (wordLimit - 1) :=
  toNat_ofNatSaturating _

@[simp] theorem toNat_subSaturating (a b : Word) : (a.subSaturating b).toNat = a.toNat - b.toNat := by
  unfold subSaturating
  split
  · next h => exact BitVec.toNat_sub_of_le h
  · next h =>
    have hlt : a.toNat < b.toNat := Nat.lt_of_not_le h
    rw [Nat.sub_eq_zero_of_le (Nat.le_of_lt hlt)]
    rfl

@[simp] theorem toNat_larger (a b : Word) : (a.larger b).toNat = max a.toNat b.toNat := by
  unfold larger
  split
  · next h => exact (Nat.max_eq_right h).symm
  · next h =>
    have hlt : b.toNat < a.toNat := Nat.lt_of_not_le h
    exact (Nat.max_eq_left (Nat.le_of_lt hlt)).symm

end Word

end StateTransition
