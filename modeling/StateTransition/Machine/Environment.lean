import StateTransition.Fork.Rules
import StateTransition.World.Basic

/-! What code can see beside the world: the block, the transaction, and the message that
started it. -/
namespace StateTransition

/-- What code can see of the block it runs in. -/
structure BlockEnv where
  number : UInt64
  timestamp : UInt64
  gasLimit : UInt64
  coinbase : Address
  difficulty : Word
  chainId : UInt64
  baseFee : Option Word
  /-- The hashes of the blocks before, oldest first. -/
  blockHashes : List Hash
  deriving DecidableEq, Repr

/-- The hash of one of the 256 blocks before, zero for any other. -/
def BlockEnv.blockHash (env : BlockEnv) (number : Word) : Hash :=
  let back := env.number.toNat - number.toNat
  if 0 < back && back ≤ 256 && back ≤ env.blockHashes.length then
    env.blockHashes.getD (env.blockHashes.length - back) 0
  else 0

structure TransactionEnv where
  origin : Address
  gasPrice : Word
  deriving DecidableEq, Repr

/-- All that stays the same while a transaction runs. -/
structure Environment where
  rules : Rules
  block : BlockEnv
  transaction : TransactionEnv

/-- A call, or the creation of a contract. -/
structure Message where
  caller : Address
  isCreation : Bool
  /-- The account whose storage and balance the code acts on. -/
  target : Address
  /-- The account whose code runs; none for a creation. -/
  codeAddress : Option Address
  gas : Nat
  /-- What the code is told to have been sent. -/
  value : Word
  data : ByteArray
  code : ByteArray
  /-- Whether the value really moves from caller to target. -/
  movesValue : Bool
  isStatic : Bool
  warmAddresses : Std.ExtTreeSet Address
  warmSlots : Std.ExtTreeSet SlotKey
  /-- The accounts that enclosing frames have destroyed. -/
  destroyed : Std.ExtTreeSet Address

end StateTransition
