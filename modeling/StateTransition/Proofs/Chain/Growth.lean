import Mathlib.Data.List.Chain
import StateTransition.Chain.Basic
import StateTransition.Proofs.Outcome

/-! How a chain grows: what a block that is appended has to do with the last one, and how the blocks that are
kept sit in all blocks since the genesis block. -/
namespace StateTransition

namespace Header

/-- What the validation of a header against its parent ensures. -/
structure Follows (h parent : Header) : Prop where
  parentHash : h.parentHash = parent.hash
  number : h.number.toNat = parent.number.toNat + 1
  gasUsed : h.gasUsed ≤ h.gasLimit
  timestamp : parent.timestamp < h.timestamp
  extraData : h.extraData.length ≤ maxExtraData

theorem validate_eq_ok_iff {s : Schedule} {h parent : Header} :
    h.validate s parent = .ok () ↔
      h.parentHash = parent.hash ∧ h.number.toNat = parent.number.toNat + 1 ∧ h.gasUsed ≤ h.gasLimit ∧
        gasLimitBase s h.number.toNat parent ≤ maxCount ∧
        checkGasLimit h.gasLimit.toNat (gasLimitBase s h.number.toNat parent) = true ∧
        parent.timestamp < h.timestamp ∧ h.extraData.length ≤ maxExtraData ∧
        h.difficulty = nextDifficulty (s.rulesAt h.number.toNat) h.number.toNat h.timestamp.toNat parent ∧
        expectedBaseFeeFits s h.number.toNat parent = true ∧
        h.baseFee = expectedBaseFee s h.number.toNat parent := by
  constructor
  · intro hok
    unfold validate at hok
    obtain ⟨hparent, hok⟩ := ok_of_guard hok
    obtain ⟨-, hok⟩ := ok_of_guard hok
    obtain ⟨hnumber, hok⟩ := ok_of_guard hok
    obtain ⟨hgas, hok⟩ := ok_of_guard hok
    obtain ⟨hbase, hok⟩ := ok_of_guard hok
    obtain ⟨hlimit, hok⟩ := ok_of_guard hok
    obtain ⟨htime, hok⟩ := ok_of_guard hok
    obtain ⟨hextra, hok⟩ := ok_of_guard hok
    obtain ⟨hdifficulty, hok⟩ := ok_of_guard hok
    obtain ⟨hfits, hok⟩ := ok_of_guard hok
    have hfee : ¬h.baseFee ≠ expectedBaseFee s h.number.toNat parent := fun hne => by
      rw [if_pos hne] at hok
      cases hok
    simp only [Bool.not_eq_true', Bool.not_eq_false] at hlimit hfits
    exact ⟨Decidable.not_not.mp hparent, Decidable.not_not.mp hnumber, UInt64.not_lt.mp hgas, Nat.le_of_not_lt hbase,
      hlimit, UInt64.not_le.mp htime, Nat.le_of_not_lt hextra, Decidable.not_not.mp hdifficulty, hfits,
      Decidable.not_not.mp hfee⟩
  · rintro ⟨hparent, hnumber, hgas, hbase, hlimit, htime, hextra, hdifficulty, hfits, hfee⟩
    -- A number that is one higher is a number, so that of the parent is not the last.
    have hlast : parent.number.toNat ≠ maxCount := by
      have hlt : h.number.toNat < countLimit := h.number.toNat_lt
      unfold maxCount
      omega
    have hlimit : ¬(!checkGasLimit h.gasLimit.toNat (gasLimitBase s h.number.toNat parent)) = true := by simp [hlimit]
    have hfits : ¬(!expectedBaseFeeFits s h.number.toNat parent) = true := by simp [hfits]
    unfold validate
    dsimp only
    rw [if_neg (not_not_intro hparent), if_neg hlast, if_neg (not_not_intro hnumber), if_neg (UInt64.not_lt.mpr hgas),
      if_neg (Nat.not_lt.mpr hbase), if_neg hlimit, if_neg (UInt64.not_le.mpr htime), if_neg (Nat.not_lt.mpr hextra),
      if_neg (not_not_intro hdifficulty), if_neg hfits, if_neg (not_not_intro hfee)]
    rfl

theorem validate_ok {s : Schedule} {h parent : Header} (hok : h.validate s parent = .ok ()) :
    h.Follows parent := by
  obtain ⟨hparent, hnumber, hgas, -, -, htime, hextra, -⟩ := validate_eq_ok_iff.mp hok
  exact
    { parentHash := hparent
      number := hnumber
      gasUsed := hgas
      timestamp := htime
      extraData := hextra }

end Header

namespace Chain

variable {s : Schedule} {genesis b : Block} {world : World} {c c' : Chain} {blocks : List Block}

theorem append_eq_ok_iff :
    c.append b = .ok c' ↔
      b.header.validate c.schedule c.head.header = .ok () ∧
        b.header.validateOmmers c.schedule c.recent b.ommers = .ok () ∧
        ∃ outcome world, c.execute b c.world = .ok outcome world ∧ b.checkOutcome outcome = .ok () ∧
          c' = ⟨c.schedule, b, c.recent.take (keptBlocks - 1), world⟩ := by
  constructor
  · intro h
    unfold append at h
    cases hheader : b.header.validate c.schedule c.head.header with
    | error cause =>
      rw [hheader] at h
      cases h
    | ok =>
      cases hommers : b.header.validateOmmers c.schedule c.recent b.ommers with
      | error cause =>
        rw [hheader, hommers] at h
        cases h
      | ok =>
        rw [hheader, hommers] at h
        simp only at h
        split at h
        · cases h
        · next outcome world hexecute =>
          split at h
          · cases h
          · next houtcome =>
            cases h
            exact ⟨rfl, rfl, outcome, world, hexecute, houtcome, rfl⟩
  · rintro ⟨hheader, hommers, outcome, world, hexecute, houtcome, rfl⟩
    unfold append
    rw [hheader, hommers, hexecute]
    simp only [houtcome]
    rfl

/-- What it takes to append a block, and the chain that it gives. -/
structure Extends (c : Chain) (b : Block) (c' : Chain) : Prop where
  follows : b.header.Follows c.head.header
  ommers : b.header.validateOmmers c.schedule c.recent b.ommers = .ok ()
  schedule : c'.schedule = c.schedule
  head : c'.head = b
  recent : c'.recent = (b :: c.recent).take keptBlocks

theorem append_ok (h : c.append b = .ok c') : c.Extends b c' := by
  obtain ⟨hheader, hommers, outcome, world, -, -, rfl⟩ := append_eq_ok_iff.mp h
  exact
    { follows := Header.validate_ok hheader
      ommers := hommers
      schedule := rfl
      head := rfl
      recent := rfl }

/-- The histories of a chain: it begins with its genesis block over a world, and each block that is appended
comes in front of all blocks before. -/
inductive Grown (s : Schedule) (genesis : Block) (world : World) : Chain → List Block → Prop where
  | start {c : Chain} (h : ofGenesisBlock s genesis world = .ok c) : Grown s genesis world c [genesis]
  | append {c c' : Chain} {b : Block} {blocks : List Block} (h : Grown s genesis world c blocks)
    (hb : c.append b = .ok c') : Grown s genesis world c' (b :: blocks)

theorem ofGenesisBlock_eq_ok_iff :
    ofGenesisBlock s genesis world = .ok c ↔
      genesis.header.stateRoot = world.stateRoot ∧ c = ⟨s, genesis, [], world⟩ := by
  by_cases hroot : genesis.header.stateRoot = world.stateRoot
  · rw [ofGenesisBlock, if_pos hroot, Except.ok.injEq]
    exact ⟨fun h => ⟨hroot, h.symm⟩, fun h => h.2.symm⟩
  · rw [ofGenesisBlock, if_neg hroot]
    simp only [reduceCtorEq, hroot, false_and]

/-- The chain of a beginning is that of its block. -/
theorem ofGenesisBlock_block (s : Schedule) (g : Genesis) (world : World) :
    ofGenesisBlock s (g.block s world) world = .ok (ofGenesis s g world) :=
  ofGenesisBlock_eq_ok_iff.mpr ⟨rfl, rfl⟩

namespace Grown

private theorem head_cons (h : Grown s genesis world c blocks) : ∃ before, blocks = c.head :: before := by
  cases h with
  | start h =>
    cases (ofGenesisBlock_eq_ok_iff.mp h).2
    exact ⟨[], rfl⟩
  | append h hb =>
    rw [(append_ok hb).head]
    exact ⟨_, rfl⟩

/-- The blocks that are kept are the latest of all. -/
theorem recent_eq (h : Grown s genesis world c blocks) : c.recent = blocks.take keptBlocks := by
  induction h with
  | start h =>
    cases (ofGenesisBlock_eq_ok_iff.mp h).2
    rfl
  | append _ hb ih =>
    rw [(append_ok hb).recent, ih, List.take_cons (by decide), List.take_cons (by decide), List.take_take]
    rfl

/-- Every block but the first follows the one before it. -/
theorem isChain (h : Grown s genesis world c blocks) :
    blocks.IsChain fun b parent => b.header.Follows parent.header := by
  induction h with
  | start => exact .singleton _
  | append h hb ih =>
    obtain ⟨before, rfl⟩ := h.head_cons
    exact .cons_cons (append_ok hb).follows ih

/-- The hash of every block but the last is the one that the next block has for its parent. -/
theorem hash_cons_parentHashes (h : Grown s genesis world c blocks) :
    c.head.hash :: blocks.map (fun b => b.header.parentHash) =
      blocks.map Block.hash ++ [genesis.header.parentHash] := by
  induction h with
  | start h =>
    cases (ofGenesisBlock_eq_ok_iff.mp h).2
    rfl
  | append _ hb ih =>
    have hlink := append_ok hb
    rw [hlink.head, List.map_cons, hlink.follows.parentHash, List.map_cons, List.cons_append, ← ih]
    rfl

/-- Block numbers go up by one from that of the genesis block. -/
theorem number_getElem (h : Grown s genesis world c blocks) (i : Nat) (hi : i < blocks.length) :
    blocks[i].header.number.toNat + i = c.head.header.number.toNat := by
  induction i with
  | zero =>
    obtain ⟨before, rfl⟩ := h.head_cons
    rfl
  | succ i ih =>
    have hnext := (List.isChain_iff_getElem.mp h.isChain i hi).number
    have hi := ih (by omega)
    omega

theorem length_eq (h : Grown s genesis world c blocks) :
    genesis.header.number.toNat + blocks.length = c.head.header.number.toNat + 1 := by
  induction h with
  | start h =>
    cases (ofGenesisBlock_eq_ok_iff.mp h).2
    rfl
  | append _ hb ih =>
    have hlink := append_ok hb
    have hnumber := hlink.follows.number
    rw [hlink.head, List.length_cons]
    omega

end Grown

end Chain

end StateTransition
