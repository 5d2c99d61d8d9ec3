import StateTransition.Chain.Execution

/-! A chain: its latest blocks and the world after the last one. A block is appended whole or
not at all. -/
namespace StateTransition

structure Genesis where
  gasLimit : UInt64
  difficulty : Word
  timestamp : UInt64
  extraData : Bytes
  coinbase : Address
  mixHash : Hash
  nonce : BitVec 64
  deriving DecidableEq, Repr

namespace Genesis

def standard : Genesis where
  gasLimit := 8000000
  difficulty := 0x20000
  timestamp := 0
  extraData := []
  coinbase := 0
  mixHash := 0
  nonce := 0

def header (g : Genesis) (s : Schedule) (world : World) : Header where
  parentHash := 0
  ommersHash := emptyOmmersHash
  coinbase := g.coinbase
  stateRoot := world.stateRoot
  transactionsRoot := emptyTrieRoot
  receiptsRoot := emptyTrieRoot
  bloom := 0
  difficulty := g.difficulty
  number := 0
  gasLimit := g.gasLimit
  gasUsed := 0
  timestamp := g.timestamp
  extraData := g.extraData
  mixHash := g.mixHash
  nonce := g.nonce
  baseFee := if (s.rulesAt 0).baseFee then some initialBaseFee else none

def block (g : Genesis) (s : Schedule) (world : World) : Block := ⟨g.header s world, [], []⟩

end Genesis

structure Chain where
  schedule : Schedule
  /-- The last block. -/
  head : Block
  /-- The blocks before the last one, newest first, as far as they are kept. -/
  ancestors : List Block
  /-- The world after the last block. -/
  world : World

namespace Chain

def keptBlocks : Nat := 255

/-- The chain of a first block, whose header has to tell of the world. -/
def ofGenesisBlock (s : Schedule) (genesis : Block) (world : World) :
    Except BlockRejection Chain :=
  let stateRoot := world.stateRoot
  if genesis.header.stateRoot = stateRoot then .ok ⟨s, genesis, [], world⟩
  else .error (.stateRoot genesis.header.stateRoot stateRoot)

def ofGenesis (s : Schedule) (g : Genesis) (world : World) : Chain :=
  ⟨s, g.block s world, [], world⟩

/-- The blocks that are kept, newest first. -/
def recent (c : Chain) : List Block := c.head :: c.ancestors

/-- The hashes of the parents of all kept blocks and of the last block, oldest first. -/
def blockHashes (c : Chain) : List Hash :=
  (c.head.hash :: c.recent.map fun b => b.header.parentHash).reverse

def blockEnv (c : Chain) (h : Header) : BlockEnv where
  number := h.number
  timestamp := h.timestamp
  gasLimit := h.gasLimit
  coinbase := h.coinbase
  difficulty := h.difficulty
  chainId := c.schedule.chainId
  baseFee := h.baseFee
  blockHashes := c.blockHashes

def execute (c : Chain) (b : Block) : BlockM BlockOutcome :=
  b.execute (c.schedule.rulesAt b.header.number.toNat) (c.blockEnv b.header)

def append (c : Chain) (b : Block) : Except BlockError Chain := do
  match b.header.validate c.schedule c.head.header with
  | .error cause => throw (.rejected (.header cause))
  | .ok () => pure ()
  match b.header.validateOmmers c.schedule c.recent b.ommers with
  | .error cause => throw (.rejected (.ommer cause))
  | .ok () => pure ()
  match c.execute b c.world with
  | .error cause _ => throw cause
  | .ok outcome world =>
    match b.checkOutcome outcome with
    | .error cause => throw (.rejected cause)
    | .ok () =>
      return { c with head := b, ancestors := c.recent.take (keptBlocks - 1), world }

end Chain

end StateTransition
