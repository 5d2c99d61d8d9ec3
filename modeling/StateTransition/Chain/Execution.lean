import StateTransition.Chain.Ommer
import StateTransition.Chain.Transaction

/-! Running a block's transactions in order, and comparing the outcome with its header. -/
namespace StateTransition

structure BlockOutcome where
  receipts : List Receipt
  gasUsed : Nat
  bloom : Bloom
  transactionsRoot : Hash
  receiptsRoot : Hash
  stateRoot : Hash

/-- Changes to the world by a block; a fault keeps what was done before. -/
abbrev BlockM := EStateM BlockError World

namespace BlockError

def ofTransaction (index : Nat) : TransactionRejection → BlockError
  | .internal cause => .internal cause
  | cause => .rejected (.transaction index cause)

end BlockError

namespace SignedTransaction

/-- Processes a transaction after `cumulativeGas` was used in its block. -/
def processInBlock (rules : Rules) (block : BlockEnv) (cumulativeGas : Nat)
    (t : SignedTransaction) : TransactionM Receipt := do
  let outcome ← t.process rules block (block.gasLimit.toNat - cumulativeGas)
  let world ← get
  let result :=
    if rules.statusReceipts then ReceiptOutcome.status outcome.failure.isNone
    else .stateRoot world.stateRoot
  return .ofLogs t.body.type result (cumulativeGas + outcome.gasUsed).toUInt64 outcome.logs

def processAll (rules : Rules) (block : BlockEnv) : (index cumulativeGas : Nat) →
    List SignedTransaction → BlockM (List Receipt)
  | _, _, [] => return []
  | index, cumulativeGas, t :: rest => fun world =>
    match t.processInBlock rules block cumulativeGas world with
    | .error cause world => .error (.ofTransaction index cause) world
    | .ok receipt world =>
      (return receipt :: (← processAll rules block (index + 1) receipt.cumulativeGas.toNat rest) :
        BlockM (List Receipt)) world

end SignedTransaction

namespace Block

def execute (rules : Rules) (env : BlockEnv) (b : Block) : BlockM BlockOutcome := do
  let receipts ← SignedTransaction.processAll rules env 0 0 b.transactions
  fun world =>
    match World.payRewards rules b.header b.ommers world with
    | .error cause world => .error (.internal cause) world
    | .ok () world =>
      .ok
        { receipts
          gasUsed := (receipts.getLast?.map fun r => r.cumulativeGas.toNat).getD 0
          bloom := receipts.foldl (fun bloom r => bloom ||| r.bloom) 0
          transactionsRoot := b.computeTransactionsRoot
          receiptsRoot := (Trie.ofValues (receipts.map Receipt.encode)).rootHash
          stateRoot := world.stateRoot }
        world

def checkOutcome (b : Block) (outcome : BlockOutcome) : Except BlockRejection Unit := do
  let h := b.header
  if h.gasUsed.toNat ≠ outcome.gasUsed then throw (.gasUsed h.gasUsed.toNat outcome.gasUsed)
  if h.transactionsRoot ≠ outcome.transactionsRoot then
    throw (.transactionsRoot h.transactionsRoot outcome.transactionsRoot)
  if h.receiptsRoot ≠ outcome.receiptsRoot then
    throw (.receiptsRoot h.receiptsRoot outcome.receiptsRoot)
  if h.bloom ≠ outcome.bloom then throw (.logsBloom h.bloom outcome.bloom)
  if h.stateRoot ≠ outcome.stateRoot then throw (.stateRoot h.stateRoot outcome.stateRoot)

end Block

end StateTransition
