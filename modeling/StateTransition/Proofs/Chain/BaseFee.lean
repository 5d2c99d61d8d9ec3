import StateTransition.Proofs.Chain.Growth
import StateTransition.Proofs.Fork.Activation
import StateTransition.Proofs.Word

/-! The base fee after a block. It does not fall when the block uses more gas, it is bounded on both sides by the fee of
the block, and from the upgrade on that brings it it never falls below seven wei. -/
namespace StateTransition

/-- An eighth of the fee in proportion to a distance from the target, which is half the gas limit. -/
def feeShare (gasLimit distance fee : Nat) : Nat := fee * distance / (gasLimit / 2) / 8

def unboundedBaseFee (gasLimit gasUsed fee : Nat) : Nat :=
  if gasLimit / 2 = 0 then fee
  else if gasLimit / 2 < gasUsed then fee + max 1 (feeShare gasLimit (gasUsed - gasLimit / 2) fee)
  else fee - feeShare gasLimit (gasLimit / 2 - gasUsed) fee

variable {gasLimit gasUsed fee distance distance' : Nat}

private theorem feeShare_mono (h : distance ≤ distance') :
    feeShare gasLimit distance fee ≤ feeShare gasLimit distance' fee :=
  Nat.div_le_div_right (Nat.div_le_div_right (Nat.mul_le_mul_left fee h))

private theorem feeShare_target (h : gasLimit / 2 ≠ 0) (fee : Nat) : feeShare gasLimit
    (gasLimit / 2) fee = fee / 8 := by
  rw [feeShare, Nat.mul_div_cancel _ (Nat.pos_of_ne_zero h)]

/-- More gas used is never a lower fee: below the target less is taken off, at it nothing, above it more is added. -/
private theorem unboundedBaseFee_mono {gasUsed' : Nat} (h : gasUsed ≤ gasUsed') :
    unboundedBaseFee gasLimit gasUsed fee ≤ unboundedBaseFee gasLimit gasUsed' fee := by
  unfold unboundedBaseFee
  split
  · exact Nat.le_refl fee
  · by_cases habove : gasLimit / 2 < gasUsed
    · have hshare : feeShare gasLimit (gasUsed - gasLimit / 2) fee ≤ feeShare gasLimit (gasUsed' - gasLimit / 2) fee :=
        feeShare_mono (by omega)
      rw [if_pos habove, if_pos (by omega)]
      omega
    · rw [if_neg habove]
      by_cases habove' : gasLimit / 2 < gasUsed'
      · rw [if_pos habove']
        omega
      · have hshare : feeShare gasLimit (gasLimit / 2 - gasUsed') fee ≤
            feeShare gasLimit (gasLimit / 2 - gasUsed) fee := feeShare_mono (by omega)
        rw [if_neg habove']
        omega

private theorem unboundedBaseFee_target (gasLimit fee : Nat) : unboundedBaseFee gasLimit
    (gasLimit / 2) fee = fee := by
  simp [unboundedBaseFee, feeShare]

private theorem le_unboundedBaseFee (gasLimit gasUsed fee : Nat) :
    fee - fee / 8 ≤ unboundedBaseFee gasLimit gasUsed fee := by
  unfold unboundedBaseFee
  split
  · exact Nat.sub_le fee _
  · next htarget =>
    split
    · omega
    · have hshare : feeShare gasLimit (gasLimit / 2 - gasUsed) fee ≤ fee / 8 :=
        feeShare_target htarget fee ▸ feeShare_mono (Nat.sub_le _ _)
      omega

private theorem unboundedBaseFee_le (h : gasUsed ≤ gasLimit) (fee : Nat) :
    unboundedBaseFee gasLimit gasUsed fee ≤ fee + max 1 (feeShare gasLimit (gasLimit - gasLimit / 2) fee) := by
  unfold unboundedBaseFee
  split
  · exact Nat.le_add_right fee _
  · have hshare : feeShare gasLimit (gasUsed - gasLimit / 2) fee ≤ feeShare gasLimit (gasLimit - gasLimit / 2) fee :=
      feeShare_mono (by omega)
    split <;> omega

/-- An eighth of seven wei is less than one, and what seven eighths leave of more is no less than seven. -/
private theorem seven_le_unboundedBaseFee (h : 7 ≤ fee) : 7 ≤ unboundedBaseFee gasLimit gasUsed fee := by
  have hle := le_unboundedBaseFee gasLimit gasUsed fee
  omega

/-! ### In words -/

/-- A fee of up to 192 bits leaves room for the product with any count of gas. -/
private theorem baseFeeFits_of_lt {limit used : UInt64} {fee : Word} (hfee : fee.toNat < 2 ^ 192) :
    baseFeeFits limit.toNat used.toNat fee = true := by
  have hlimit := limit.toNat_lt
  have hused := used.toNat_lt
  have hproduct : fee.toNat * (max used.toNat (limit.toNat / 2) - min used.toNat (limit.toNat / 2)) <
      2 ^ 192 * 2 ^ 64 := Nat.mul_lt_mul'' hfee (by omega)
  have hshare := (Nat.div_le_div_right (Nat.div_le_self _ (limit.toNat / 2))).trans
    (Nat.div_le_div_right (c := 8) hproduct.le)
  simp only [baseFeeFits, Bool.or_eq_true, Bool.and_eq_true, decide_eq_true_eq]
  refine .inr ⟨hproduct, .inr ?_⟩
  unfold wordLimit
  omega

/-- The share is that over numbers without bound if its product is a word. -/
private theorem toNat_feeShare (limit : UInt64) {fee : Word} (hdistance : distance < 2 ^ 64)
    (hproduct : fee.toNat * distance < wordLimit) :
    (fee * BitVec.ofNat 256 distance / BitVec.ofNat 256 (limit.toNat / 2) / 8).toNat =
      feeShare limit.toNat distance fee.toNat := by
  have hlimit := limit.toNat_lt
  have hd : (BitVec.ofNat 256 distance).toNat = distance := Nat.mod_eq_of_lt (by omega)
  have htarget : (BitVec.ofNat 256 (limit.toNat / 2)).toNat = limit.toNat / 2 := Nat.mod_eq_of_lt (by omega)
  rw [BitVec.toNat_udiv, BitVec.toNat_udiv, BitVec.toNat_mul_of_lt (by rwa [hd]), hd, htarget]
  rfl

/-- The base fee is the one over numbers without bound if words are long enough for it. -/
private theorem toNat_nextBaseFee {limit used : UInt64} {fee : Word}
    (h : baseFeeFits limit.toNat used.toNat fee = true) :
    (nextBaseFee limit.toNat used.toNat fee).toNat = unboundedBaseFee limit.toNat used.toNat fee.toNat := by
  have hlimit := limit.toNat_lt
  have hused := used.toNat_lt
  have hone : (1 : Word).toNat = 1 := rfl
  simp only [baseFeeFits, Bool.or_eq_true, Bool.and_eq_true, decide_eq_true_eq] at h
  unfold nextBaseFee
  simp only [Bool.or_eq_true, decide_eq_true_eq]
  by_cases hzero : limit.toNat / 2 = 0
  · rw [if_pos (.inl hzero), unboundedBaseFee, if_pos hzero]
  · by_cases htarget : used.toNat = limit.toNat / 2
    · rw [if_pos (.inr htarget), htarget, unboundedBaseFee_target]
    · obtain ⟨hproduct, hsum⟩ := h.resolve_left (not_or_intro hzero htarget)
      rw [if_neg (not_or_intro hzero htarget)]
      by_cases habove : limit.toNat / 2 < used.toNat
      · rw [Nat.max_eq_left habove.le, Nat.min_eq_right habove.le] at hproduct hsum
        have hshare := toNat_feeShare limit (by omega) hproduct
        have hsum := hsum.resolve_left (Nat.not_lt.mpr habove.le)
        rw [unboundedBaseFee, if_neg hzero, if_pos habove, if_pos habove, BitVec.toNat_add_of_lt] <;>
          rw [Word.toNat_larger, hshare, hone, Nat.max_comm]
        rw [Nat.max_comm]
        exact hsum
      · rw [Nat.max_eq_right (by omega), Nat.min_eq_left (by omega)] at hproduct
        rw [if_neg habove, Word.toNat_subSaturating, toNat_feeShare limit (by omega) hproduct, unboundedBaseFee,
          if_neg hzero, if_neg habove]

/-- How the base fee after a block with a gas limit goes with the gas that the block uses. -/
structure FeeControl (limit : UInt64) (fee : Word) : Prop where
  /-- It does not fall when more gas is used. -/
  monotone : ∀ used used' : UInt64, used ≤ used' → used' ≤ limit →
    nextBaseFee limit.toNat used.toNat fee ≤ nextBaseFee limit.toNat used'.toNat fee
  /-- It stays at the target. -/
  target : nextBaseFee limit.toNat (limit.toNat / 2) fee = fee
  least : ∀ used ≤ limit, fee.toNat - fee.toNat / 8 ≤ (nextBaseFee limit.toNat used.toNat fee).toNat
  greatest : ∀ used ≤ limit, (nextBaseFee limit.toNat used.toNat fee).toNat ≤
    fee.toNat + max 1 (fee.toNat * (limit.toNat - limit.toNat / 2) / (limit.toNat / 2) / 8)

private theorem feeControl_of_lt (limit : UInt64) {fee : Word} (hfee : fee.toNat < 2 ^ 192) :
    FeeControl limit fee where
  monotone used used' hle _ := by
    rw [BitVec.le_def, toNat_nextBaseFee (baseFeeFits_of_lt hfee),
      toNat_nextBaseFee (baseFeeFits_of_lt hfee)]
    exact unboundedBaseFee_mono hle
  target := by simp [nextBaseFee]
  least used _ := by
    rw [toNat_nextBaseFee (baseFeeFits_of_lt hfee)]
    exact le_unboundedBaseFee _ _ _
  greatest used hused := by
    rw [toNat_nextBaseFee (baseFeeFits_of_lt hfee)]
    exact unboundedBaseFee_le hused _

/-! ### Along a run of headers -/

namespace Schedule

/-- Headers that are accepted one after the other, newest first, from the first block with a base fee on. None is
accepted once words are too short to compute its base fee. -/
inductive FeeRun (s : Schedule) : List Header → Prop where
  /-- A schedule may have the upgrade from the start. -/
  | genesis (g : Genesis) (world : World) (hfirst : s.isActivation .london 0 = true) : s.FeeRun [g.header s world]
  | activation {h parent : Header} (haccepted : h.validate s parent = .ok ())
    (hfirst : s.isActivation .london h.number.toNat = true) : s.FeeRun [h]
  | next {h parent : Header} {run : List Header} (before : s.FeeRun (parent :: run))
    (haccepted : h.validate s parent = .ok ()) : s.FeeRun (h :: parent :: run)

/-- A header from the upgrade on, with a base fee that is not below seven wei. -/
structure Floored (s : Schedule) (h : Header) : Prop where
  since : ∃ first, s.activation? .london = some first ∧ first ≤ h.number.toNat
  fee : ∃ fee, h.baseFee = some fee ∧ 7 ≤ fee.toNat

variable {s : Schedule} {h parent : Header} {first number : Nat}

private theorem baseFee_ofFork (f : Fork) : (Rules.ofFork f).baseFee = decide (.london ≤ f) := by cases f <;> rfl

private theorem baseFee_rulesAt (h : s.activation? .london = some first) (hle : first ≤ number) :
    (s.rulesAt number).baseFee = true := by
  rw [rulesAt, baseFee_ofFork, decide_eq_true_eq]
  exact (forkAt_spec s number).2 .london ((isInForce_iff h).mpr hle)

private theorem expectedBaseFee_activation (hfirst : s.isActivation .london number = true) :
    Header.expectedBaseFee s number parent = some initialBaseFee := by
  have hrules := baseFee_rulesAt (of_decide_eq_true hfirst) (Nat.le_refl number)
  simp only [Header.expectedBaseFee, hrules, hfirst, Bool.not_true, Bool.false_eq_true, if_false, if_true]

/-- After the first block the fee follows from the parent's, and words are long enough for that one. -/
private theorem expectedBaseFee_later {fee : Word} (hfirst : s.activation? .london = some first)
    (hlt : first < number)
    (hfee : parent.baseFee = some fee) :
    Header.expectedBaseFee s number parent =
        some (nextBaseFee parent.gasLimit.toNat parent.gasUsed.toNat fee) ∧
      Header.expectedBaseFeeFits s number parent =
        baseFeeFits parent.gasLimit.toNat parent.gasUsed.toNat fee := by
  have hrules := baseFee_rulesAt hfirst (Nat.le_of_lt hlt)
  have hnot : s.isActivation .london number = false := by
    rw [isActivation, hfirst, decide_eq_false_iff_not, Option.some.injEq]
    omega
  simp only [Header.expectedBaseFee, Header.expectedBaseFeeFits, Header.gasLimitBase, hrules, hnot, hfee, Bool.not_true,
    Bool.false_or, Option.all_some, Bool.false_eq_true, if_false, and_self]

private theorem floored_of_activation (hfirst : s.isActivation .london h.number.toNat = true)
    (hfee : h.baseFee = some initialBaseFee) : s.Floored h where
  since := ⟨h.number.toNat, of_decide_eq_true hfirst, Nat.le_refl _⟩
  fee := ⟨initialBaseFee, hfee, by decide⟩

/-- One accepted header after another. -/
private theorem Floored.next (hparent : s.Floored parent) (haccepted : h.validate s parent = .ok ()) :
    s.Floored h := by
  obtain ⟨⟨first, hfirst, hle⟩, fee, hfee, hseven⟩ := hparent
  obtain ⟨-, hnumber, -, -, -, -, -, -, hfits, hnext⟩ := Header.validate_eq_ok_iff.mp haccepted
  have hlt : first < h.number.toNat := by omega
  obtain ⟨hlater, hlaterFits⟩ := expectedBaseFee_later hfirst hlt hfee
  rw [hlater] at hnext
  refine ⟨⟨first, hfirst, by omega⟩, _, hnext, ?_⟩
  rw [toNat_nextBaseFee (hlaterFits ▸ hfits)]
  exact seven_le_unboundedBaseFee hseven

private theorem FeeRun.floored {run : List Header} (hrun : s.FeeRun run) : ∀ h ∈ run, s.Floored h := by
  induction hrun with
  | genesis g world hfirst =>
    refine List.forall_mem_singleton.mpr (floored_of_activation hfirst ?_)
    exact if_pos (baseFee_rulesAt (of_decide_eq_true hfirst) (Nat.le_refl 0))
  | activation haccepted hfirst =>
    obtain ⟨-, -, -, -, -, -, -, -, -, hfee⟩ := Header.validate_eq_ok_iff.mp haccepted
    rw [expectedBaseFee_activation hfirst] at hfee
    exact List.forall_mem_singleton.mpr (floored_of_activation hfirst hfee)
  | next _ haccepted ih => exact List.forall_mem_cons.mpr ⟨(ih _ List.mem_cons_self).next haccepted, ih⟩

end Schedule

/-- The base fee after a block with a fee of up to 192 bits does not fall when more gas is used, stays at the target,
and lies between seven eighths of the fee and the fee with what the whole limit adds to it. Along accepted headers it
never falls below seven wei, from the first block that has it on. -/
theorem baseFee_controlled :
    (∀ (limit : UInt64) (fee : Word), fee.toNat < 2 ^ 192 → FeeControl limit fee) ∧
      ∀ (s : Schedule) (run : List Header), s.FeeRun run → ∀ h ∈ run, ∃ fee, h.baseFee = some fee ∧ 7 ≤ fee.toNat :=
  ⟨fun limit _ hfee => feeControl_of_lt limit hfee, fun _ _ hrun h hh => (hrun.floored h hh).fee⟩

/-- A full block is the first with a base fee; the next one has an odd limit and is full too. -/
theorem baseFee_controlled_over_full_blocks :
    let s : Schedule :=
      { chainId := 1, block? := fun f => if f < .london then some 0 else if f = .london then some 1 else none }
    let genesis := Genesis.standard.header s .empty
    let first : Header :=
      { genesis with
        parentHash := genesis.hash, number := 1, timestamp := 10, gasLimit := 16000000, gasUsed := 16000000
        difficulty := nextDifficulty (s.rulesAt 1) 1 10 genesis, baseFee := some 1000000000 }
    let second : Header :=
      { first with
        parentHash := first.hash, number := 2, timestamp := 20, gasLimit := 16000001, gasUsed := 16000001
        difficulty := nextDifficulty (s.rulesAt 2) 2 20 first, baseFee := some 1125000000 }
    s.FeeRun [second, first] ∧ (∀ h ∈ [second, first], ∃ fee, h.baseFee = some fee ∧ 7 ≤ fee.toNat) ∧
      (1125000000 : Word).toNat < 2 ^ 192 ∧ FeeControl 16000001 1125000000 := by
  intro s genesis first second
  have hfirst : first.validate s genesis = .ok () :=
    Header.validate_eq_ok_iff.mpr ⟨rfl, rfl, by decide, by decide, by decide, by decide, by decide, rfl, by decide, by decide⟩
  have hsecond : second.validate s first = .ok () :=
    Header.validate_eq_ok_iff.mpr ⟨rfl, rfl, by decide, by decide, by decide, by decide, by decide, rfl, by decide, by decide⟩
  have hrun : s.FeeRun [second, first] := .next (.activation hfirst rfl) hsecond
  obtain ⟨hcontrol, hfloor⟩ := baseFee_controlled
  exact ⟨hrun, hfloor s _ hrun, by decide, hcontrol 16000001 1125000000 (by decide)⟩

end StateTransition
