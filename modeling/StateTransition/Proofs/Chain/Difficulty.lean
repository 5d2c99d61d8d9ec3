import StateTransition.Chain.Header
import StateTransition.Proofs.Word

/-! The difficulty over integers without bound. A block has that difficulty, kept between the least one and the greatest
word, as long as the part that doubles is a word; from then on that part is lost. -/
namespace StateTransition

/-- The steps that the difficulty takes under the rules of an upgrade, however long the block took. -/
def Fork.stepsAfter (f : Fork) (elapsed : Nat) (hasOmmers : Bool) : Int :=
  if f < .homestead then if elapsed < 13 then 1 else -1
  else if f < .byzantium then max (1 - (elapsed / 10 : Nat)) (-99)
  else max ((if hasOmmers then 2 else 1) - (elapsed / 9 : Nat)) (-99)

def Fork.steppedDifficulty (f : Fork) (timestamp : Nat) (parent : Header) : Int :=
  parent.difficulty.toNat + (parent.difficulty.toNat / 2048 : Nat) *
    f.stepsAfter (timestamp - parent.timestamp.toNat) (parent.ommersHash ≠ emptyOmmersHash)

/-- The periods of a hundred thousand blocks that the bomb has been growing for. -/
def bombPeriods (delay number : Nat) : Nat := (number - delay) / 100000

/-- The part of the difficulty that doubles with every period, from the second one on. -/
def bombAfter (periods : Nat) : Nat := if 2 ≤ periods then 2 ^ (periods - 2) else 0

def boundedDifficulty (difficulty : Int) : Int := min (2 ^ 256 - 1) (max 131072 difficulty)

variable {f : Fork} {elapsed number timestamp periods : Nat} {hasOmmers : Bool} {parent : Header} {steps : Int}

private theorem difficulty_ofFork (f : Fork) :
    (Rules.ofFork f).difficulty =
      if f < .homestead then .frontier else if f < .byzantium then .homestead else .byzantium := by
  cases f <;> rfl

/-- Periods past the thousandth make no difference, for there are no more than 99 steps down. -/
private theorem difficultySteps_ofFork (f : Fork) (elapsed : Nat) (hasOmmers : Bool) :
    difficultySteps (Rules.ofFork f).difficulty elapsed hasOmmers = f.stepsAfter elapsed hasOmmers := by
  rw [difficulty_ofFork, Fork.stepsAfter]
  by_cases hfrontier : f < .homestead
  · rw [if_pos hfrontier, if_pos hfrontier, difficultySteps]
  · rw [if_neg hfrontier, if_neg hfrontier]
    by_cases hhomestead : f < .byzantium
    · rw [if_pos hhomestead, if_pos hhomestead, difficultySteps]
      omega
    · rw [if_neg hhomestead, if_neg hhomestead, difficultySteps]
      split <;> omega

private theorem stepsAfter_bounds (f : Fork) (elapsed : Nat) (hasOmmers : Bool) :
    -99 ≤ f.stepsAfter elapsed hasOmmers ∧ f.stepsAfter elapsed hasOmmers ≤ 2 := by
  unfold Fork.stepsAfter
  cases hasOmmers <;> split_ifs <;> omega

/-- At most 99 of the 2048 parts of a difficulty are a word. -/
private theorem toNat_change (d : Word) {k : Nat} (hk : k ≤ 99) :
    (d / 2048 * BitVec.ofNat 256 k).toNat = d.toNat / 2048 * k := by
  have hlt := d.isLt
  have hpart : (d / 2048).toNat = d.toNat / 2048 := BitVec.toNat_udiv
  have hcount : (BitVec.ofNat 256 k).toNat = k := Nat.mod_eq_of_lt (by omega)
  have hle : d.toNat / 2048 * k ≤ d.toNat / 2048 * 99 := Nat.mul_le_mul_left _ hk
  rw [BitVec.toNat_mul_of_lt, hpart, hcount]
  rw [hpart, hcount]
  omega

/-- The 99 parts that may be taken off a difficulty are not all of it. -/
private theorem stepped_nonneg (d : Nat) (hleast : -99 ≤ steps) : 0 ≤ (d : Int) + (d / 2048 : Nat) * steps := by
  have hdown : ((d / 2048 : Nat) : Int) * -99 ≤ (d / 2048 : Nat) * steps :=
    Int.mul_le_mul_of_nonneg_left hleast (Int.natCast_nonneg _)
  omega

/-- Steps up saturate, and steps down have no need to. -/
private theorem toNat_stepped (d : Word) (hleast : -99 ≤ steps) (hgreatest : steps ≤ 2) :
    let change := d / 2048 * BitVec.ofNat 256 steps.natAbs
    ((if 0 ≤ steps then d.addSaturating change else d.subSaturating change).toNat : Int) =
      min (2 ^ 256 - 1) (d.toNat + (d.toNat / 2048 : Nat) * steps) := by
  intro change
  have hlt := d.isLt
  have hchange : change.toNat = d.toNat / 2048 * steps.natAbs := toNat_change d (by omega)
  have hnonneg := stepped_nonneg d.toNat hleast
  split
  · next hup =>
    have hsteps : ((d.toNat / 2048 : Nat) : Int) * steps = (d.toNat / 2048 * steps.natAbs : Nat) := by
      rw [Int.natCast_mul, Int.natAbs_of_nonneg hup]
    rw [Word.toNat_addSaturating, hchange, hsteps]
    unfold wordLimit
    omega
  · next hdown =>
    have hsteps : ((d.toNat / 2048 : Nat) : Int) * steps = -(d.toNat / 2048 * steps.natAbs : Nat) := by
      rw [Int.natCast_mul, Int.ofNat_natAbs_of_nonpos (by omega), Int.mul_neg, Int.neg_neg]
    rw [Word.toNat_subSaturating, hchange, hsteps]
    omega

/-- The bomb is lost when it would be the first number that is no word. -/
private theorem toNat_difficultyBomb (delay number : Nat) :
    (difficultyBomb delay number).toNat =
      if bombPeriods delay number < 258 then bombAfter (bombPeriods delay number) else 0 := by
  unfold difficultyBomb bombAfter
  change (if 2 ≤ bombPeriods delay number ∧ bombPeriods delay number < 258 then
    (1 : Word) <<< (bombPeriods delay number - 2) else 0).toNat = _
  by_cases hfirst : 2 ≤ bombPeriods delay number
  · by_cases hlast : bombPeriods delay number < 258
    · have hpow : 2 ^ (bombPeriods delay number - 2) < 2 ^ 256 := Nat.pow_lt_pow_right (by decide) (by omega)
      rw [if_pos ⟨hfirst, hlast⟩, if_pos hlast, if_pos hfirst, BitVec.toNat_shiftLeft, Nat.shiftLeft_eq]
      change 1 * _ % _ = _
      rw [Nat.one_mul, Nat.mod_eq_of_lt hpow]
    · rw [if_neg fun h => hlast h.2, if_neg hlast]
      rfl
  · rw [if_neg fun h => hfirst h.1, if_neg hfirst, ite_self]
    rfl

private theorem le_bombAfter (h : 258 ≤ periods) : 2 ^ 256 ≤ bombAfter periods := by
  rw [bombAfter, if_pos (by omega)]
  exact Nat.pow_le_pow_right (by decide) (by omega)

private theorem steppedDifficulty_nonneg (f : Fork) (timestamp : Nat) (parent : Header) :
    0 ≤ f.steppedDifficulty timestamp parent :=
  stepped_nonneg parent.difficulty.toNat (stepsAfter_bounds f _ _).1

/-- The difficulty of a block, with the bomb that is left of it. -/
private theorem toNat_nextDifficulty (f : Fork) (number timestamp : Nat) (parent : Header) :
    ((nextDifficulty (.ofFork f) number timestamp parent).toNat : Int) =
      boundedDifficulty (f.steppedDifficulty timestamp parent +
        (difficultyBomb (Rules.ofFork f).bombDelay number).toNat) := by
  obtain ⟨hleast, hgreatest⟩ := stepsAfter_bounds f (timestamp - parent.timestamp.toNat)
    (parent.ommersHash ≠ emptyOmmersHash)
  have hstepped := toNat_stepped parent.difficulty hleast hgreatest
  have hminimum : minimumDifficulty.toNat = 131072 := rfl
  rw [nextDifficulty, difficultySteps_ofFork, Word.toNat_larger, Word.toNat_addSaturating, hminimum,
    boundedDifficulty, Fork.steppedDifficulty]
  unfold wordLimit
  omega

/-- The difficulty of a block is what the steps and the bomb give over integers without bound, not below the least
difficulty and not above the greatest word, as long as the bomb is a word: from then on there is no bomb, and the
difficulty is below the greatest word unless the steps alone come up to it. -/
theorem nextDifficulty_loses_bomb (f : Fork) (number timestamp : Nat) (parent : Header) :
    let periods := bombPeriods (Rules.ofFork f).bombDelay number
    let stepped := f.steppedDifficulty timestamp parent
    let next : Int := (nextDifficulty (.ofFork f) number timestamp parent).toNat
    next = boundedDifficulty (stepped + (if periods < 258 then bombAfter periods else 0 : Nat)) ∧
      (next = boundedDifficulty (stepped + bombAfter periods) ↔ periods < 258 ∨ 2 ^ 256 - 1 ≤ stepped) := by
  intro periods stepped next
  have hnext : next = boundedDifficulty (stepped + (if periods < 258 then bombAfter periods else 0 : Nat)) := by
    rw [← toNat_difficultyBomb]
    exact toNat_nextDifficulty f number timestamp parent
  refine ⟨hnext, ?_⟩
  rw [hnext]
  by_cases hlast : periods < 258
  · rw [if_pos hlast]
    exact iff_of_true rfl (.inl hlast)
  · have hbomb : 2 ^ 256 ≤ bombAfter periods := le_bombAfter (Nat.le_of_not_lt hlast)
    have hnonneg : 0 ≤ stepped := steppedDifficulty_nonneg f timestamp parent
    rw [if_neg hlast, or_iff_right hlast, boundedDifficulty, boundedDifficulty]
    omega

/-- At block 25800000 of the oldest rules the bomb would be the first number that is no word: the difficulty is that
of the steps alone, and not the greatest word. -/
theorem nextDifficulty_at_lost_bomb :
    let parent : Header :=
      { parentHash := 0, ommersHash := emptyOmmersHash, coinbase := 0, stateRoot := 0
        transactionsRoot := emptyTrieRoot, receiptsRoot := emptyTrieRoot, bloom := 0, difficulty := 2048000
        number := 25799999, gasLimit := 5000, gasUsed := 0, timestamp := 100, extraData := [], mixHash := 0
        nonce := 0, baseFee := none }
    let periods := bombPeriods (Rules.ofFork .frontier).bombDelay 25800000
    (nextDifficulty (.ofFork .frontier) 25800000 110 parent).toNat = 2049000 ∧
      boundedDifficulty (Fork.frontier.steppedDifficulty 110 parent + bombAfter periods) = 2 ^ 256 - 1 := by
  decide +kernel

end StateTransition
