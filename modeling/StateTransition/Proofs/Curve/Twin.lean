import StateTransition.Curve.Secp256k1
import StateTransition.Proofs.Buffer

/-! The two signatures of one message by one key, whose scalars `s` add up to the order. One of them is low, and keys are
recovered from that one, whichever is given. -/
namespace StateTransition

namespace Secp256k1

variable {as bs : Bytes} {borrow : UInt16}

/-- A digit of a difference, where what is borrowed for it from the next one is known. -/
private theorem toNat_digit (a b : UInt8) (hborrow : borrow.toNat ≤ 1) :
    let difference := a.toUInt16 - b.toUInt16 - borrow
    let next : UInt16 := if 255 < difference then 1 else 0
    difference.toUInt8.toNat + b.toNat + borrow.toNat = a.toNat + 256 * next.toNat ∧ next.toNat ≤ 1 := by
  intro difference next
  have ha := a.toNat_lt
  have hb := b.toNat_lt
  have hvalue : difference.toNat = (2 ^ 16 - borrow.toNat + (2 ^ 16 - b.toNat + a.toNat) % 2 ^ 16) % 2 ^ 16 := by
    rw [UInt16.toNat_sub, UInt16.toNat_sub, UInt8.toNat_toUInt16, UInt8.toNat_toUInt16]
  have hover : 255 < difference ↔ 255 < difference.toNat := UInt16.lt_iff_toNat_lt
  have hnext : next.toNat = if 255 < difference.toNat then 1 else 0 := by
    rw [← if_congr hover rfl rfl]
    exact apply_ite UInt16.toNat _ _ _
  rw [UInt16.toNat_toUInt8, hnext, hvalue]
  split <;> omega

/-- Digit by digit the difference comes out modulo the weight of the place after the last one. -/
private theorem toNat_subtractDigits (hlen : as.length = bs.length) (hborrow : borrow.toNat ≤ 1) :
    (subtractDigits as bs borrow).length = as.length ∧
      ∃ k, Bytes.toNat (subtractDigits as bs borrow).reverse + Bytes.toNat bs.reverse + borrow.toNat =
        Bytes.toNat as.reverse + 256 ^ as.length * k := by
  induction as generalizing bs borrow with
  | nil =>
    cases bs with
    | nil => exact ⟨rfl, borrow.toNat, by simp [subtractDigits, Bytes.toNat]⟩
    | cons b bs => cases hlen
  | cons a as ih =>
    cases bs with
    | nil => cases hlen
    | cons b bs =>
      obtain ⟨hdigit, hnext⟩ := toNat_digit a b hborrow
      obtain ⟨hlength, k, hk⟩ := ih (Nat.succ.inj hlen) hnext
      refine ⟨congrArg (· + 1) hlength, k, ?_⟩
      rw [subtractDigits, List.reverse_cons, List.reverse_cons, List.reverse_cons, Bytes.toNat_concat, Bytes.toNat_concat,
        Bytes.toNat_concat, List.length_cons, Nat.pow_succ, Nat.mul_right_comm]
      omega

/-- Nothing is borrowed in the end where the scalar is not above the order. -/
private theorem subtractFromOrder_eq {s : Bytes} (hlen : s.length = 32) (hle : Bytes.toNat s ≤ order) :
    subtractFromOrder s = Bytes.ofNatPadded 32 (order - Bytes.toNat s) := by
  have horder : order < 256 ^ 32 := by decide
  have hlengths : (Bytes.ofNatPadded 32 order).reverse.length = s.reverse.length := by
    rw [List.length_reverse, List.length_reverse, Bytes.length_ofNatPadded, hlen]
  obtain ⟨hlength, k, hk⟩ := toNat_subtractDigits hlengths (show (0 : UInt16).toNat ≤ 1 by decide)
  have hwidth : (subtractFromOrder s).length = 32 := by
    rw [subtractFromOrder, List.length_reverse, hlength, List.length_reverse, Bytes.length_ofNatPadded]
  have hlt := Bytes.toNat_lt (subtractFromOrder s)
  rw [← subtractFromOrder, List.reverse_reverse, List.reverse_reverse, List.length_reverse, Bytes.length_ofNatPadded,
    Bytes.toNat_ofNatPadded, Nat.mod_eq_of_lt horder] at hk
  rw [hwidth] at hlt
  have hzero : (0 : UInt16).toNat = 0 := rfl
  refine Bytes.eq_of_toNat_eq (hwidth.trans (Bytes.length_ofNatPadded _ _).symm) ?_
  rw [Bytes.toNat_ofNatPadded, Nat.mod_eq_of_lt (Nat.lt_of_le_of_lt (Nat.sub_le _ _) horder)]
  omega

private theorem subtractFromOrder_toBytes {s : Word} (hle : s.toNat ≤ order) :
    subtractFromOrder s.toBytes = Bytes.ofNatPadded 32 (order - s.toNat) := by
  have hlen : s.toBytes.length = 32 := Bytes.length_ofNatPadded _ _
  rw [subtractFromOrder_eq hlen (s.toNat_toBytes ▸ hle), s.toNat_toBytes]

namespace Signature

variable {sig : Signature}

private theorem isLowS_iff : sig.isLowS = true ↔ sig.s.toNat ≤ halfOrder := by
  rw [isLowS, decide_eq_true_eq, Word.toBytes_le_iff _ (by decide)]

private theorem hasValidScalars_iff :
    sig.hasValidScalars = true ↔ 0 < sig.r.toNat ∧ 0 < sig.s.toNat ∧ sig.r.toNat < order ∧ sig.s.toNat < order := by
  have hbound (w : Word) : w.toBytes < Bytes.ofNatPadded 32 order ↔ w.toNat < order := w.toBytes_lt_iff (by decide)
  simp only [hasValidScalars, Bool.and_eq_true, decide_eq_true_eq, Word.toBytes_ne_zero_iff, hbound, and_assoc]

private theorem v_cases (hv : sig.v ≤ 1) : sig.v = 0 ∨ sig.v = 1 := by
  rw [← UInt8.toNat_inj, ← UInt8.toNat_inj]
  exact Nat.le_one_iff_eq_zero_or_eq_one.mp (UInt8.le_iff_toNat_le.mp hv)

private theorem twin_v_le (hv : sig.v ≤ 1) : sig.twin.v ≤ 1 := by
  show sig.v ^^^ 1 ≤ 1
  rcases v_cases hv with h | h <;> rw [h] <;> decide

/-- The other signature has the rest of the order for its scalar, and the other parity. -/
private theorem twin_eq (hs : sig.s.toNat ≤ order) (hv : sig.v ≤ 1) :
    sig.twin = { r := sig.r, s := BitVec.ofNat 256 (order - sig.s.toNat), v := 1 - sig.v } := by
  have hscalar : Word.ofBytes (subtractFromOrder sig.s.toBytes) = BitVec.ofNat 256 (order - sig.s.toNat) := by
    have hlt : order - sig.s.toNat < 256 ^ 32 := Nat.lt_of_le_of_lt (Nat.sub_le _ _) (by decide)
    rw [subtractFromOrder_toBytes hs, Word.ofBytes, Bytes.toNat_ofNatPadded, Nat.mod_eq_of_lt hlt]
  have hparity : sig.v ^^^ 1 = 1 - sig.v := by
    rcases v_cases hv with h | h <;> rw [h] <;> rfl
  rw [twin, hscalar, hparity]

private theorem toNat_twin_s (hs : sig.s.toNat ≤ order) (hv : sig.v ≤ 1) :
    sig.twin.s.toNat = order - sig.s.toNat := by
  rw [twin_eq hs hv, BitVec.toNat_ofNat]
  exact Nat.mod_eq_of_lt (Nat.lt_of_le_of_lt (Nat.sub_le _ _) (by decide))

/-- The order is odd, so its halves do not meet. -/
private theorem isLowS_twin (hs : sig.s.toNat ≤ order) (hv : sig.v ≤ 1) : sig.twin.isLowS = !sig.isLowS := by
  have hodd : order = 2 * halfOrder + 1 := by decide
  rw [Bool.eq_iff_iff, Bool.not_eq_true', ← Bool.not_eq_true, isLowS_iff, isLowS_iff, toNat_twin_s hs hv]
  omega

private theorem twin_twin (hs : sig.s.toNat ≤ order) (hv : sig.v ≤ 1) : sig.twin.twin = sig := by
  have hscalar : sig.twin.twin.s = sig.s := by
    have hs' : sig.twin.s.toNat ≤ order := toNat_twin_s hs hv ▸ Nat.sub_le _ _
    refine BitVec.eq_of_toNat_eq ?_
    rw [toNat_twin_s hs' (twin_v_le hv), toNat_twin_s hs hv, Nat.sub_sub_self hs]
  have hparity : sig.twin.twin.v = sig.v := by
    show sig.v ^^^ 1 ^^^ 1 = sig.v
    rw [UInt8.xor_assoc, UInt8.xor_self, UInt8.xor_zero]
  show (⟨sig.r, sig.twin.twin.s, sig.twin.twin.v⟩ : Signature) = sig
  rw [hscalar, hparity]

end Signature

open Signature

variable {sig : Signature} {Key : Type}

private theorem recoverBy_of_valid (low : Hash → Signature → Except SignatureError Key) (digest : Hash)
    (hvalid : sig.hasValidScalars = true) (hv : sig.v ≤ 1) :
    recoverBy low digest sig = low digest (if sig.isLowS then sig else sig.twin) := by
  rw [recoverBy, if_neg (UInt8.not_lt.mpr hv), hvalid]
  rfl

/-- The two signatures of a message come to the same one before any key is looked for. -/
private theorem recoverBy_twin (low : Hash → Signature → Except SignatureError Key) (digest : Hash)
    (hvalid : sig.hasValidScalars = true) (hv : sig.v ≤ 1) :
    recoverBy low digest sig.twin = recoverBy low digest sig := by
  obtain ⟨hr, hs, hrlt, hslt⟩ := hasValidScalars_iff.mp hvalid
  have hle : sig.s.toNat ≤ order := Nat.le_of_lt hslt
  have hscalar := toNat_twin_s hle hv
  have hvalid' : sig.twin.hasValidScalars = true := hasValidScalars_iff.mpr ⟨hr, by omega, hrlt, by omega⟩
  rw [recoverBy_of_valid low digest hvalid hv, recoverBy_of_valid low digest hvalid' (twin_v_le hv),
    isLowS_twin hle hv, twin_twin hle hv]
  cases sig.isLowS <;> rfl

/-- A signature and the one with the rest of the order for its `s` and the other parity give the same key or the same
error, whatever finds keys for signatures with a low `s`. The rest of the order comes out of the subtraction of bytes, and
exactly one of the two has a low `s`. -/
theorem recover_twin (sig : Signature) (hr : 0 < sig.r.toNat ∧ sig.r.toNat < order)
    (hs : 0 < sig.s.toNat ∧ sig.s.toNat < order) (hv : sig.v = 0 ∨ sig.v = 1) :
    let twin : Signature := { r := sig.r, s := BitVec.ofNat 256 (order - sig.s.toNat), v := 1 - sig.v }
    (∀ (Key : Type) (low : Hash → Signature → Except SignatureError Key) (digest : Hash),
        recoverBy low digest sig = recoverBy low digest twin) ∧
      (∀ digest : Hash, recover digest sig = recover digest twin) ∧
      subtractFromOrder sig.s.toBytes = Bytes.ofNatPadded 32 (order - sig.s.toNat) ∧
      sig.isLowS = !twin.isLowS := by
  intro twin
  have hle : sig.s.toNat ≤ order := Nat.le_of_lt hs.2
  have hv' : sig.v ≤ 1 := by rcases hv with h | h <;> rw [h] <;> decide
  have htwin : sig.twin = twin := twin_eq hle hv'
  have hvalid : sig.hasValidScalars = true := hasValidScalars_iff.mpr ⟨hr.1, hs.1, hr.2, hs.2⟩
  have hsame {Key : Type} (low : Hash → Signature → Except SignatureError Key) (digest : Hash) :
      recoverBy low digest sig = recoverBy low digest twin := by
    rw [← htwin, recoverBy_twin low digest hvalid hv']
  exact ⟨fun _ => hsame, hsame _, subtractFromOrder_toBytes hle, by rw [← htwin, isLowS_twin hle hv', Bool.not_not]⟩

/-- The greatest low scalar and the least one that is not low. -/
theorem recover_twin_at_half :
    let sig : Signature := ⟨1, BitVec.ofNat 256 halfOrder, 1⟩
    let twin : Signature := ⟨1, BitVec.ofNat 256 (halfOrder + 1), 0⟩
    (0 < sig.r.toNat ∧ sig.r.toNat < order) ∧ (0 < sig.s.toNat ∧ sig.s.toNat < order) ∧
      (∀ digest, recover digest sig = recover digest twin) ∧
      subtractFromOrder sig.s.toBytes = twin.s.toBytes ∧ sig.isLowS = true ∧ sig.isLowS = !twin.isLowS := by
  intro sig twin
  have hr : 0 < sig.r.toNat ∧ sig.r.toNat < order := by decide
  have hs : 0 < sig.s.toNat ∧ sig.s.toNat < order := by decide
  obtain ⟨-, hsame, hbytes, hlow⟩ := recover_twin sig hr hs (.inr rfl)
  have hrest : order - sig.s.toNat = halfOrder + 1 := by decide
  have hscalar : twin.s.toNat = halfOrder + 1 := by decide
  have hparity : 1 - sig.v = 0 := by decide
  have hsig : sig.isLowS = true := Signature.isLowS_iff.mpr (by decide)
  rw [hrest, hparity] at hsame hlow
  rw [hrest] at hbytes
  exact ⟨hr, hs, hsame, hbytes.trans (by rw [Word.toBytes, hscalar]), hsig, hlow⟩

end Secp256k1

end StateTransition
