import StateTransition.Address
import Mathlib.Tactic.Ring

/-! Numbers in base 256: the digits of a number spell it, there are no more of them than its size
asks for, and the first one is not zero. -/
namespace StateTransition

namespace Bytes

private theorem toNat_from (n : Nat) (bs : Bytes) :
    bs.foldl (fun n b => n * 256 + b.toNat) n = n * 256 ^ bs.length + toNat bs := by
  induction bs generalizing n with
  | nil => simp [toNat]
  | cons b bs ih =>
    have hb : toNat (b :: bs) = b.toNat * 256 ^ bs.length + toNat bs := by
      rw [toNat, List.foldl_cons, ih, Nat.zero_mul, Nat.zero_add]
    rw [List.foldl_cons, ih, hb, List.length_cons]
    ring

theorem toNat_cons (b : UInt8) (bs : Bytes) : toNat (b :: bs) = b.toNat * 256 ^ bs.length + toNat bs := by
  rw [toNat, List.foldl_cons, toNat_from, Nat.zero_mul, Nat.zero_add]

/-- The last digits of a number spell what is left of it. -/
theorem toNat_ofNatPadded (width n : Nat) : toNat (ofNatPadded width n) = n % 256 ^ width := by
  induction width with
  | zero => simp [ofNatPadded, toNat, Nat.mod_one]
  | succ k ih =>
    have hb : ((n >>> (8 * k)).toUInt8).toNat = n / 256 ^ k % 256 := by
      rw [Nat.shiftRight_eq_div_pow, Nat.pow_mul]
      rfl
    rw [ofNatPadded, toNat_cons, length_ofNatPadded, ih, hb, Nat.mod_pow_succ]
    ring

private theorem lt_pow_bitLength (n : Nat) : n < 2 ^ bitLength n := by
  rw [bitLength]
  split
  · omega
  · exact Nat.lt_log2_self

theorem lt_pow_byteLength (n : Nat) : n < 256 ^ byteLength n := by
  have h : 2 ^ bitLength n ≤ 2 ^ (8 * byteLength n) := Nat.pow_le_pow_right (by decide) (by rw [byteLength]; omega)
  rw [Nat.pow_mul] at h
  exact Nat.lt_of_lt_of_le (lt_pow_bitLength n) h

theorem bitLength_le_of_lt_pow {n width : Nat} (h : n < 2 ^ width) : bitLength n ≤ width := by
  rw [bitLength]
  split
  · exact Nat.zero_le width
  · next hn => exact (Nat.log2_lt hn).mpr h

theorem byteLength_le_of_lt_pow {n width : Nat} (h : n < 256 ^ width) : byteLength n ≤ width := by
  have hle : bitLength n ≤ 8 * width := bitLength_le_of_lt_pow (by rwa [Nat.pow_mul])
  rw [byteLength]
  omega

theorem byteLength_mono {n m : Nat} (h : n ≤ m) : byteLength n ≤ byteLength m :=
  byteLength_le_of_lt_pow (Nat.lt_of_le_of_lt h (lt_pow_byteLength m))

/-- A number is spelled by its digits. -/
theorem toNat_ofNat (n : Nat) : toNat (ofNat n) = n := by
  rw [ofNat, toNat_ofNatPadded, Nat.mod_eq_of_lt (lt_pow_byteLength n)]

theorem ofNat_injective : Function.Injective ofNat := by
  intro n m h
  rw [← toNat_ofNat n, h, toNat_ofNat]

/-- The first digit of a number is not zero. -/
theorem head?_ofNat_ne_zero (n : Nat) : (ofNat n).head? ≠ some 0 := by
  intro h
  cases hb : byteLength n with
  | zero => simp [ofNat, hb, ofNatPadded] at h
  | succ k =>
    -- were it zero, the digits after it would spell the number, which takes fewer of them
    have hz : (n >>> (8 * k)).toUInt8 = 0 := by simpa [ofNat, hb, ofNatPadded] using h
    have hn := toNat_ofNat n
    rw [ofNat, hb, ofNatPadded, hz, toNat_cons, toNat_ofNatPadded] at hn
    have hlt : n < 256 ^ k := by
      rw [← hn]
      simpa using Nat.mod_lt n (Nat.pow_pos (by decide))
    have := byteLength_le_of_lt_pow hlt
    omega

theorem toNat_lt (bs : Bytes) : toNat bs < 256 ^ bs.length := by
  induction bs with
  | nil => simp [toNat]
  | cons b bs ih =>
    have hb : b.toNat < 256 := b.toNat_lt
    rw [toNat_cons, List.length_cons, Nat.pow_succ]
    calc b.toNat * 256 ^ bs.length + toNat bs
        < b.toNat * 256 ^ bs.length + 256 ^ bs.length := Nat.add_lt_add_left ih _
      _ = (b.toNat + 1) * 256 ^ bs.length := by ring
      _ ≤ 256 * 256 ^ bs.length := Nat.mul_le_mul_right _ hb
      _ = 256 ^ bs.length * 256 := Nat.mul_comm _ _

/-- Digits as many as there are spell different numbers where they differ. -/
theorem eq_of_toNat_eq {bs bs' : Bytes} (hlen : bs.length = bs'.length) (h : toNat bs = toNat bs') :
    bs = bs' := by
  induction bs generalizing bs' with
  | nil =>
    cases bs' with
    | nil => rfl
    | cons b' bs' => cases hlen
  | cons b bs ih =>
    cases bs' with
    | nil => cases hlen
    | cons b' bs' =>
      have hlen : bs.length = bs'.length := Nat.succ.inj hlen
      have hlt := toNat_lt bs
      have hlt' := toNat_lt bs'
      rw [toNat_cons, toNat_cons, ← hlen] at h
      rw [← hlen] at hlt'
      -- The first digit is the quotient by the weight of the first place, what follows the remainder.
      have hb : b.toNat = b'.toNat := by
        have hdiv := congrArg (· / 256 ^ bs.length) h
        simpa [Nat.mul_comm _ (256 ^ bs.length), Nat.mul_add_div, Nat.div_eq_of_lt hlt,
          Nat.div_eq_of_lt hlt'] using hdiv
      have hrest : toNat bs = toNat bs' := by
        rw [hb] at h
        exact Nat.add_left_cancel h
      rw [UInt8.toNat_inj.mp hb, ih hlen hrest]

/-- Digits are those of the number that they spell. -/
private theorem ofNatPadded_toNat (bs : Bytes) : ofNatPadded bs.length (toNat bs) = bs := by
  apply eq_of_toNat_eq (length_ofNatPadded _ _)
  rw [toNat_ofNatPadded, Nat.mod_eq_of_lt (toNat_lt bs)]

theorem byteLength_toNat {bs : Bytes} (h : bs.head? ≠ some 0) : byteLength (toNat bs) = bs.length := by
  apply Nat.le_antisymm (byteLength_le_of_lt_pow (toNat_lt bs))
  cases bs with
  | nil => exact Nat.zero_le _
  | cons b bs =>
    have hb : 0 < b.toNat := by
      apply Nat.pos_of_ne_zero
      intro hz
      have hzero : b = 0 := UInt8.toNat_inj.mp hz
      exact h (hzero ▸ rfl)
    have hle : 256 ^ bs.length ≤ toNat (b :: bs) := by
      rw [toNat_cons]
      exact Nat.le_add_right_of_le (Nat.le_mul_of_pos_left _ hb)
    have hlt := Nat.lt_of_le_of_lt hle (lt_pow_byteLength _)
    exact (Nat.pow_lt_pow_iff_right (by decide)).mp hlt

/-- Digits of which the first is not zero are all digits of the number that they spell. -/
theorem ofNat_toNat {bs : Bytes} (h : bs.head? ≠ some 0) : ofNat (toNat bs) = bs := by
  rw [ofNat, byteLength_toNat h, ofNatPadded_toNat]

/-- The bytes of a word of whole bytes are all the bytes of its width that spell it. -/
theorem ofNatPadded_eq_iff {width w : Nat} (hw : w = 8 * width) {x : BitVec w} {bs : Bytes} :
    ofNatPadded width x.toNat = bs ↔ bs.length = width ∧ BitVec.ofNat w (toNat bs) = x := by
  subst hw
  have hx : x.toNat < 256 ^ width := by
    have h := x.isLt
    rwa [Nat.pow_mul] at h
  constructor
  · rintro rfl
    refine ⟨length_ofNatPadded _ _, ?_⟩
    rw [toNat_ofNatPadded, Nat.mod_eq_of_lt hx, BitVec.ofNat_toNat, BitVec.setWidth_eq]
  · rintro ⟨rfl, rfl⟩
    rw [BitVec.toNat_ofNat, Nat.pow_mul, Nat.mod_eq_of_lt (toNat_lt bs), ofNatPadded_toNat]

/-- No two words of whole bytes have the same bytes. -/
private theorem ofNatPadded_toNat_injective {width w : Nat} (hw : w = 8 * width) :
    Function.Injective fun x : BitVec w => ofNatPadded width x.toNat := by
  intro x y h
  have hx := ((ofNatPadded_eq_iff hw).mp h).2
  have hy := ((ofNatPadded_eq_iff (x := y) hw).mp rfl).2
  exact hx.symm.trans hy

theorem getElem?_ofNatPadded {width k n : Nat} (hk : k < width) :
    (ofNatPadded width n)[k]? = some (n >>> (8 * (width - 1 - k))).toUInt8 := by
  induction width generalizing k with
  | zero => cases hk
  | succ width ih =>
    cases k with
    | zero => rfl
    | succ k =>
      have hwidth : width + 1 - 1 - (k + 1) = width - 1 - k := by omega
      rw [ofNatPadded, List.getElem?_cons_succ, ih (Nat.lt_of_succ_lt_succ hk), hwidth]

/-- A number of more than one digit is first compared by its first digit. -/
private theorem mul_add_lt_iff {a b p q weight : Nat} (hp : p < weight) (hq : q < weight) :
    a * weight + p < b * weight + q ↔ a < b ∨ a = b ∧ p < q := by
  rcases Nat.lt_trichotomy a b with hlt | rfl | hgt
  · have hstep : (a + 1) * weight ≤ b * weight := Nat.mul_le_mul_right _ hlt
    rw [Nat.succ_mul] at hstep
    omega
  · omega
  · have hstep : (b + 1) * weight ≤ a * weight := Nat.mul_le_mul_right _ hgt
    rw [Nat.succ_mul] at hstep
    omega

/-- Byte strings of one length compare as the numbers that they spell. -/
private theorem lt_iff_toNat_lt {as bs : Bytes} (h : as.length = bs.length) : as < bs ↔ toNat as < toNat bs := by
  induction as generalizing bs with
  | nil =>
    cases bs with
    | nil => simp
    | cons b bs => cases h
  | cons a as ih =>
    cases bs with
    | nil => cases h
    | cons b bs =>
      have hlen : as.length = bs.length := Nat.succ.inj h
      have has : toNat as < 256 ^ bs.length := hlen ▸ toNat_lt as
      rw [List.cons_lt_cons_iff, ih hlen, toNat_cons, toNat_cons, hlen, mul_add_lt_iff has (toNat_lt bs),
        UInt8.lt_iff_toNat_lt, UInt8.toNat_inj]

end Bytes

namespace Word

theorem toNat_toBytes (w : Word) : Bytes.toNat w.toBytes = w.toNat := by
  rw [toBytes, Bytes.toNat_ofNatPadded]
  exact Nat.mod_eq_of_lt w.isLt

/-- A word compares with a number as their bytes compare. -/
theorem toBytes_lt_iff (w : Word) {n : Nat} (h : n < 2 ^ 256) : w.toBytes < Bytes.ofNatPadded 32 n ↔ w.toNat < n := by
  have hlen : w.toBytes.length = (Bytes.ofNatPadded 32 n).length := by
    rw [toBytes, Bytes.length_ofNatPadded, Bytes.length_ofNatPadded]
  rw [Bytes.lt_iff_toNat_lt hlen, toNat_toBytes, Bytes.toNat_ofNatPadded, Nat.mod_eq_of_lt (show n < 256 ^ 32 from h)]

theorem toBytes_le_iff (w : Word) {n : Nat} (h : n < 2 ^ 256) : w.toBytes ≤ Bytes.ofNatPadded 32 n ↔ w.toNat ≤ n := by
  have hlen : (Bytes.ofNatPadded 32 n).length = w.toBytes.length := by
    rw [toBytes, Bytes.length_ofNatPadded, Bytes.length_ofNatPadded]
  rw [← List.not_lt, Bytes.lt_iff_toNat_lt hlen, toNat_toBytes, Bytes.toNat_ofNatPadded,
    Nat.mod_eq_of_lt (show n < 256 ^ 32 from h), Nat.not_lt]

theorem toBytes_ne_zero_iff (w : Word) : w.toBytes ≠ Bytes.ofNatPadded 32 0 ↔ 0 < w.toNat := by
  have hzero : w.toBytes = Bytes.ofNatPadded 32 0 ↔ w = 0 :=
    (Bytes.ofNatPadded_toNat_injective (show 256 = 8 * 32 from rfl)).eq_iff (b := (0 : Word))
  rw [ne_eq, hzero, Nat.pos_iff_ne_zero]
  exact not_congr BitVec.toNat_inj.symm

end Word

theorem Hash.toBytes_injective : Function.Injective Hash.toBytes := Bytes.ofNatPadded_toNat_injective rfl

theorem Address.toBytes_injective : Function.Injective Address.toBytes := Bytes.ofNatPadded_toNat_injective rfl

end StateTransition
