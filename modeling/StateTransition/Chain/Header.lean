import StateTransition.Block.Basic
import StateTransition.Chain.Rejection
import StateTransition.Fork.Schedule

/-! How a header follows from its parent: gas limit, difficulty and base fee. -/
namespace StateTransition

def minimumDifficulty : Word := 131072

def minimumGasLimit : Nat := 5000

def maxExtraData : Nat := 32

def initialBaseFee : Word := 1000000000

def checkGasLimit (limit parent : Nat) : Bool :=
  let step := parent / 1024
  limit < min (parent + step) maxCount && parent - step < limit && minimumGasLimit ≤ limit

/-- The base fee after a block with a limit, its use of it, and its base fee: an eighth up or
down at most, by how far the use is from half the limit. Words are long enough to compute it only
where `baseFeeFits`; elsewhere no header is checked against it. -/
def nextBaseFee (gasLimit gasUsed : Nat) (fee : Word) : Word :=
  let target := gasLimit / 2
  let share (distance : Nat) : Word :=
    fee * BitVec.ofNat 256 distance / BitVec.ofNat 256 target / 8
  if target = 0 || gasUsed = target then fee
  else if target < gasUsed then fee + (share (gasUsed - target)).larger 1
  else fee.subSaturating (share (target - gasUsed))

/-- Whether words are long enough to compute the base fee after a block. -/
def baseFeeFits (gasLimit gasUsed : Nat) (fee : Word) : Bool :=
  let target := gasLimit / 2
  let product := fee.toNat * (max gasUsed target - min gasUsed target)
  target = 0 || gasUsed = target ||
    product < wordLimit && (gasUsed < target || fee.toNat + max (product / target / 8) 1 < wordLimit)

/-- The number of steps that the difficulty goes up, or down when negative. -/
def difficultySteps (rule : DifficultyRule) (elapsed : Nat) (hasOmmers : Bool) : Int :=
  match rule with
  | .frontier => if elapsed < 13 then 1 else -1
  | .homestead => max (1 - (min (elapsed / 10) 1000 : Nat)) (-99)
  | .byzantium =>
    let base : Int := if hasOmmers then 2 else 1
    max (base - (min (elapsed / 9) 1000 : Nat)) (-99)

/-- The part of the difficulty that doubles every hundred thousand blocks; one that needs more than
256 bits is zero. -/
def difficultyBomb (delay number : Nat) : Word :=
  let periods := (number - delay) / 100000
  if 2 ≤ periods ∧ periods < 258 then (1 : Word) <<< (periods - 2) else 0

def nextDifficulty (rules : Rules) (number timestamp : Nat) (parent : Header) : Word :=
  let steps := difficultySteps rules.difficulty (timestamp - parent.timestamp.toNat)
    (parent.ommersHash ≠ emptyOmmersHash)
  let change := parent.difficulty / 2048 * BitVec.ofNat 256 steps.natAbs
  let adjusted :=
    if 0 ≤ steps then parent.difficulty.addSaturating change
    else parent.difficulty.subSaturating change
  (adjusted.addSaturating (difficultyBomb rules.bombDelay number)).larger minimumDifficulty

namespace Header

/-- The gas limit that the limit of a block after `parent` is measured by: it doubles when blocks
start to have a base fee, for then half of it is the target. -/
def gasLimitBase (s : Schedule) (number : Nat) (parent : Header) : Nat :=
  if s.isActivation .london number then parent.gasLimit.toNat * 2 else parent.gasLimit.toNat

def expectedBaseFee (s : Schedule) (number : Nat) (parent : Header) : Option Word :=
  if !(s.rulesAt number).baseFee then none
  else if s.isActivation .london number then some initialBaseFee
  else
    match parent.baseFee with
    | some fee => some (nextBaseFee (gasLimitBase s number parent) parent.gasUsed.toNat fee)
    | none => some initialBaseFee

/-- Whether words are long enough to compute the base fee of a block after `parent`, where it is
computed at all. -/
def expectedBaseFeeFits (s : Schedule) (number : Nat) (parent : Header) : Bool :=
  !(s.rulesAt number).baseFee || s.isActivation .london number ||
    parent.baseFee.all (baseFeeFits (gasLimitBase s number parent) parent.gasUsed.toNat)

/-- Whether a header follows its parent. It is a fault and no refusal if the number after the
parent's, twice its gas limit or a step to the base fee is too large for its type. -/
def validate (s : Schedule) (h parent : Header) : Except HeaderError Unit := do
  let number := h.number.toNat
  if h.parentHash ≠ parent.hash then throw (.parentHash parent.hash h.parentHash)
  if parent.number.toNat = maxCount then throw .overflow
  if number ≠ parent.number.toNat + 1 then throw (.number (parent.number.toNat + 1) number)
  if h.gasLimit < h.gasUsed then throw (.gasUsed h.gasUsed.toNat h.gasLimit.toNat)
  let base := gasLimitBase s number parent
  if maxCount < base then throw .overflow
  if !checkGasLimit h.gasLimit.toNat base then throw (.gasLimit h.gasLimit.toNat base)
  if h.timestamp ≤ parent.timestamp then
    throw (.timestamp h.timestamp.toNat parent.timestamp.toNat)
  if maxExtraData < h.extraData.length then throw (.extraData h.extraData.length)
  let difficulty := nextDifficulty (s.rulesAt number) number h.timestamp.toNat parent
  if h.difficulty ≠ difficulty then throw (.difficulty difficulty h.difficulty)
  if !expectedBaseFeeFits s number parent then throw .overflow
  let baseFee := expectedBaseFee s number parent
  if h.baseFee ≠ baseFee then throw (.baseFee baseFee h.baseFee)

end Header

end StateTransition
