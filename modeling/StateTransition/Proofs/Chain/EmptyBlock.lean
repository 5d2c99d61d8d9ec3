import StateTransition.Proofs.Chain.Growth
import StateTransition.Proofs.Keccak

/-! Blocks without transactions: the header that such a block needs after a chain, and that the chain takes
it. -/
namespace StateTransition

namespace Chain

namespace Sample

variable {s : Schedule} {c : Chain} {coinbase : Address} {ommers : List Header}

/-- The header of a block without transactions after a chain, with the digests that are in it. -/
def sealedHeader (c : Chain) (coinbase : Address) (parentHash ommersHash stateRoot : Hash) : Header :=
  let parent := c.head.header
  let number := parent.number + 1
  let timestamp := parent.timestamp + 15
  { parentHash
    ommersHash
    coinbase
    stateRoot
    transactionsRoot := emptyTrieRoot
    receiptsRoot := emptyTrieRoot
    bloom := 0
    difficulty := nextDifficulty (c.schedule.rulesAt number.toNat) number.toNat timestamp.toNat parent
    number
    gasLimit := parent.gasLimit
    gasUsed := 0
    timestamp
    extraData := []
    mixHash := 0
    nonce := 0
    baseFee := Header.expectedBaseFee c.schedule number.toNat parent }

def draft (c : Chain) (coinbase : Address) (ommers : List Header) (stateRoot : Hash) : Header :=
  sealedHeader c coinbase c.head.hash (Header.hashOfOmmers ommers) stateRoot

/-- The world after such a block. -/
def paid (c : Chain) (coinbase : Address) (ommers : List Header) : World :=
  let h := draft c coinbase ommers 0
  match World.payRewards (c.schedule.rulesAt h.number.toNat) h ommers c.world with
  | .ok _ world => world
  | .error _ world => world

def child (c : Chain) (coinbase : Address) (ommers : List Header) : Block :=
  ⟨draft c coinbase ommers (paid c coinbase ommers).stateRoot, [], ommers⟩

def extended (c : Chain) (coinbase : Address) (ommers : List Header) : Chain :=
  ⟨c.schedule, child c coinbase ommers, c.recent.take (keptBlocks - 1), paid c coinbase ommers⟩

/-- What the numbers of a last block have to be for that block to come next. -/
structure Roomy (s : Schedule) (h : Header) : Prop where
  number : h.number.toNat + 1 < countLimit
  timestamp : h.timestamp.toNat + 15 < countLimit
  base : Header.gasLimitBase s (h.number.toNat + 1) h ≤ maxCount
  gasLimit : checkGasLimit h.gasLimit.toNat (Header.gasLimitBase s (h.number.toNat + 1) h) = true
  fee : Header.expectedBaseFeeFits s (h.number.toNat + 1) h = true

theorem validate_draft (h : Roomy c.schedule c.head.header) (root : Hash) :
    (draft c coinbase ommers root).validate c.schedule c.head.header = .ok () := by
  have hnumber : (c.head.header.number + 1).toNat = c.head.header.number.toNat + 1 := by
    rw [UInt64.toNat_add]
    exact Nat.mod_eq_of_lt h.number
  have htime : c.head.header.timestamp < c.head.header.timestamp + 15 := by
    have hsum : (c.head.header.timestamp + 15).toNat = c.head.header.timestamp.toNat + 15 := by
      rw [UInt64.toNat_add]
      exact Nat.mod_eq_of_lt h.timestamp
    rw [UInt64.lt_iff_toNat_lt, hsum]
    omega
  have hbase : Header.gasLimitBase c.schedule (draft c coinbase ommers root).number.toNat c.head.header ≤ maxCount := by
    simp only [draft, sealedHeader, hnumber, h.base]
  have hlimit : checkGasLimit (draft c coinbase ommers root).gasLimit.toNat
      (Header.gasLimitBase c.schedule (draft c coinbase ommers root).number.toNat c.head.header) = true := by
    simp only [draft, sealedHeader, hnumber, h.gasLimit]
  have hfee : Header.expectedBaseFeeFits c.schedule (draft c coinbase ommers root).number.toNat c.head.header =
      true := by
    simp only [draft, sealedHeader, hnumber, h.fee]
  exact Header.validate_eq_ok_iff.mpr
    ⟨rfl, hnumber, UInt64.zero_le, hbase, hlimit, htime, Nat.zero_le _, rfl, hfee, rfl⟩

/-- Who is paid how much does not depend on the state root. -/
private theorem payRewards_draft (rules : Rules) (root : Hash) :
    World.payRewards rules (draft c coinbase ommers root) ommers =
      World.payRewards rules (draft c coinbase ommers 0) ommers := rfl

private theorem draft_number (root : Hash) : (draft c coinbase ommers root).number = c.head.header.number + 1 :=
  rfl

private theorem rootHash_nil : (Trie.ofValues []).rootHash = emptyTrieRoot := by
  rw [Trie.rootHash, Trie.Node.rootHash, Keccak.keccak_eq_digest]
  decide +kernel

/-- What such a block leads to. -/
def quiet (root : Hash) : BlockOutcome where
  receipts := []
  gasUsed := 0
  bloom := 0
  transactionsRoot := emptyTrieRoot
  receiptsRoot := emptyTrieRoot
  stateRoot := root

private theorem execute_quiet {rules : Rules} {env : BlockEnv} {h : Header} {w w' : World}
    (hpaid : World.payRewards rules h ommers w = .ok () w') :
    Block.execute rules env ⟨h, [], ommers⟩ w = .ok (quiet w'.stateRoot) w' := by
  rw [quiet, ← rootHash_nil]
  simp only [Block.execute, SignedTransaction.processAll, bind, EStateM.bind, pure, EStateM.pure, hpaid]
  rfl

private theorem checkOutcome_child :
    (child c coinbase ommers).checkOutcome (quiet (paid c coinbase ommers).stateRoot) = .ok () := by
  simp only [Block.checkOutcome, child, draft, sealedHeader, quiet, ne_eq, not_true, if_false]
  rfl

/-- Such a block is accepted if its ommers are and the rewards can be paid. -/
theorem append_child (h : Roomy c.schedule c.head.header)
    (hommers : (child c coinbase ommers).header.validateOmmers c.schedule c.recent ommers = .ok ())
    (hpaid : endsWith (fun _ _ => true)
      (World.payRewards (c.schedule.rulesAt (c.head.header.number + 1).toNat) (draft c coinbase ommers 0) ommers
        c.world)) :
    c.append (child c coinbase ommers) = .ok (extended c coinbase ommers) := by
  have hworld : World.payRewards (c.schedule.rulesAt (c.head.header.number + 1).toNat)
      (draft c coinbase ommers 0) ommers c.world = .ok () (paid c coinbase ommers) := by
    obtain ⟨_, w, hw, -⟩ := exists_of_endsWith hpaid
    rw [paid, draft_number, hw]
  have hrun : c.execute (child c coinbase ommers) c.world =
      .ok (quiet (paid c coinbase ommers).stateRoot) (paid c coinbase ommers) := by
    rw [execute, child, draft_number]
    apply execute_quiet
    rw [payRewards_draft]
    exact hworld
  exact append_eq_ok_iff.mpr ⟨validate_draft h _, hommers, _, _, hrun, checkOutcome_child, rfl⟩

/-- Without ommers there is nothing to check about them. -/
theorem validateOmmers_nil (recent : List Block) :
    (child c coinbase []).header.validateOmmers s recent [] = .ok () := by
  simp only [Header.validateOmmers, child, draft, sealedHeader, ne_eq, not_true, if_false]
  rfl

private theorem grown_extended {genesis : Block} {world : World} {blocks : List Block}
    (hc : Grown s genesis world c blocks) (h : Roomy c.schedule c.head.header)
    (hpaid : endsWith (fun _ _ => true)
      (World.payRewards (c.schedule.rulesAt (c.head.header.number + 1).toNat) (draft c coinbase [] 0) []
        c.world)) :
    Grown s genesis world (extended c coinbase []) (child c coinbase [] :: blocks) :=
  hc.append (append_child h (validateOmmers_nil _) hpaid)

/-! ### A chain of three blocks -/

/-- A genesis block with the number 5. -/
def firstBlock : Block :=
  ⟨{ Genesis.standard.header (.single .frontier) .empty with number := 5, parentHash := 7 }, [], []⟩

def start : Chain := ⟨.single .frontier, firstBlock, [], .empty⟩

def second : Chain := extended start 1 []

private theorem grown_start : Grown (.single .frontier) firstBlock .empty start [firstBlock] :=
  .start (ofGenesisBlock_eq_ok_iff.mpr ⟨rfl, rfl⟩)

theorem roomy_start : Roomy start.schedule start.head.header :=
  ⟨by decide, by decide, by decide, by decide, by decide⟩

theorem grown_second : Grown (.single .frontier) firstBlock .empty second [second.head, firstBlock] :=
  grown_extended grown_start roomy_start (by decide +kernel)

theorem roomy_second : Roomy second.schedule second.head.header :=
  ⟨by decide, by decide, by decide, by decide, by decide⟩

end Sample

end Chain

end StateTransition
