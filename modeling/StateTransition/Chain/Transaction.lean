import StateTransition.Chain.Rejection
import StateTransition.Machine.Run

/-! Transactions from validation to settlement. What is refused leaves the world as it was; what
is included pays, whether its code succeeds or not. -/
namespace StateTransition

structure TransactionOutcome where
  sender : Address
  /-- What is charged, the refund deducted. -/
  gasUsed : Nat
  logs : List Log
  failure : Option Failure
  /-- The contract that a creation made. -/
  contract : Option Address

structure Admission where
  sender : Address
  /-- What is charged before any code runs. -/
  intrinsicGas : Nat
  gasPrice : Word
  deriving DecidableEq, Repr

/-- Changes to the world by a transaction; a fault keeps what was done before. -/
abbrev TransactionM := EStateM TransactionRejection World

namespace Rules

def accessPrice (a : Access) : Nat := 2400 + 1900 * a.keys.length

/-- What a transaction is charged before any code runs. -/
def intrinsicGas (rules : Rules) (t : Transaction) : Nat :=
  let zeros := t.data.count 0
  21000 + 4 * zeros + rules.gas.txDataNonzero * (t.data.length - zeros) +
    (if t.isCreation then rules.gas.txCreate else 0) +
    t.accesses.foldl (fun n a => n + accessPrice a) 0

def recoverSender (rules : Rules) (chainId : UInt64) (t : SignedTransaction) :
    Except TransactionRejection Address := do
  let type := t.body.type.number
  if !rules.supportsType type.toNat then throw (.unsupportedType type)
  match t.chainId? with
  | some id =>
    if id ≠ chainId || !rules.replayProtection then throw (.wrongChainId chainId (some id))
  | none => pure ()
  if rules.lowSSignatures && Secp256k1.halfOrder < t.s.toNat then throw .highS
  match t.sender with
  | .ok sender => return sender
  | .error cause => throw (.invalidSignature cause)

end Rules

namespace Transaction

/-- The price per gas at a base fee, unless the transaction does not offer enough. -/
def gasPrice (t : Transaction) (baseFee : Option Word) : Except TransactionRejection Word := do
  if t.maxFee < t.maxPriorityFee then throw (.priorityFeeAboveMax t.maxPriorityFee t.maxFee)
  match baseFee with
  | none => return t.maxFee
  | some baseFee =>
    if t.maxFee < baseFee then throw (.feeBelowBaseFee t.maxFee baseFee)
    let room := t.maxFee - baseFee
    return baseFee + if t.maxPriorityFee ≤ room then t.maxPriorityFee else room

def greatestCost? (t : Transaction) : Option Word := do
  (← Word.mul? (BitVec.ofNat 256 t.gasLimit.toNat) t.maxFee).add? t.value

def checkSender (t : Transaction) (sender : Address) (account : Account) :
    Except TransactionRejection Unit := do
  if account.nonce ≠ t.nonce then throw (.nonceMismatch account.nonce t.nonce)
  if account.nonce.toNat = maxCount then throw .nonceMax
  match t.greatestCost? with
  | some cost =>
    if account.balance < cost then throw (.insufficientFunds cost account.balance)
  | none => throw (.insufficientFunds maxWord account.balance)
  if account.hasCode then throw (.senderHasCode sender)

end Transaction

namespace SignedTransaction

/-- Whether a transaction may be included when the block has `gasAvailable` left. -/
def validate (rules : Rules) (block : BlockEnv) (world : World) (gasAvailable : Nat)
    (t : SignedTransaction) : Except TransactionRejection Admission := do
  let sender ← rules.recoverSender block.chainId t
  let intrinsicGas := rules.intrinsicGas t.body
  let gasLimit := t.body.gasLimit.toNat
  if gasLimit < intrinsicGas then throw (.intrinsicGas intrinsicGas gasLimit)
  if gasAvailable < gasLimit then throw (.blockGasExceeded gasLimit gasAvailable)
  let gasPrice ← t.body.gasPrice block.baseFee
  t.body.checkSender sender (world.accountOrEmpty sender)
  return { sender, intrinsicGas, gasPrice }

end SignedTransaction

namespace Transaction

/-- The accounts that are accessed for free. -/
def warmAddresses (rules : Rules) (t : Transaction) (sender target : Address) :
    Std.ExtTreeSet Address :=
  if rules.accessLists then
    .ofList (sender :: target :: rules.precompiles ++ t.accesses.map Access.address)
  else ∅

def warmSlots (rules : Rules) (t : Transaction) : Std.ExtTreeSet SlotKey :=
  if rules.accessLists then
    .ofList (t.accesses.flatMap fun a => a.keys.map (SlotKey.mk a.address))
  else ∅

/-- The message of a transaction whose sender had `nonce` before. -/
def message (rules : Rules) (world : World) (t : Transaction) (sender : Address) (nonce : UInt64)
    (gas : Nat) : Message :=
  let target := t.target.getD (Address.ofCreation sender nonce)
  let data := t.data.toByteArray
  { caller := sender
    isCreation := t.isCreation
    target
    codeAddress := t.target
    gas
    value := t.value
    data := if t.isCreation then ByteArray.empty else data
    code := if t.isCreation then data else world.code target
    movesValue := true
    isStatic := false
    warmAddresses := t.warmAddresses rules sender target
    warmSlots := t.warmSlots rules
    destroyed := ∅ }

end Transaction

def gasCost (gas : Nat) (price : Word) : Word := BitVec.ofNat 256 gas * price

namespace World

/-- Gives the coinbase its part of the fee; where empty accounts are removed, a coinbase that
gets nothing and is empty goes. -/
def payFee (rules : Rules) (coinbase : Address) (fee : Word) : WorldM Unit := do
  if !rules.stateClearing || fee ≠ 0 then addBalance coinbase fee
  else if (← get).isEmptyAccount coinbase then modify (destroyAccount coinbase)

def clearEmpty (accounts : List Address) (w : World) : World :=
  accounts.foldl (fun w a => if w.isEmptyAccount a then w.destroyAccount a else w) w

/-- Removes destroyed accounts, and touched ones that are empty where those are removed. -/
def sweep (rules : Rules) (outcome : Outcome) (w : World) : World :=
  let w := outcome.destroyed.toList.foldl (fun w a => w.destroyAccount a) w
  if rules.stateClearing then w.clearEmpty outcome.touched.toList else w

end World

namespace SignedTransaction

/-- Takes the fee for all gas from the sender, and runs the transaction's message. -/
def execute (rules : Rules) (block : BlockEnv) (t : SignedTransaction) (a : Admission) :
    WorldM Outcome := do
  modify World.beginTransaction
  World.incrementNonce a.sender
  World.subBalance a.sender (gasCost t.body.gasLimit.toNat a.gasPrice)
  let gas := t.body.gasLimit.toNat - a.intrinsicGas
  let m := t.body.message rules (← get) a.sender t.body.nonce gas
  m.execute ⟨rules, block, ⟨a.sender, a.gasPrice⟩⟩ callDepthLimit

def refundOf (rules : Rules) (gasUsed : Nat) (outcome : Outcome) : Nat :=
  min (gasUsed / rules.refundQuotient) outcome.refund

/-- Pays the sender back, gives the coinbase its part, and removes what has to go. -/
def settle (rules : Rules) (block : BlockEnv) (t : SignedTransaction) (a : Admission)
    (outcome : Outcome) : WorldM Nat := do
  let gasUsed := t.body.gasLimit.toNat - outcome.gasLeft
  let refund := refundOf rules gasUsed outcome
  let charged := gasUsed - refund
  World.addBalance a.sender (gasCost (outcome.gasLeft + refund) a.gasPrice)
  World.payFee rules block.coinbase (gasCost charged (a.gasPrice - block.baseFee.getD 0))
  modify (World.sweep rules outcome)
  return charged

def carryOut (rules : Rules) (block : BlockEnv) (t : SignedTransaction) (a : Admission) :
    WorldM TransactionOutcome := do
  let outcome ← t.execute rules block a
  let gasUsed ← t.settle rules block a outcome
  let contract :=
    if t.body.isCreation && outcome.failure.isNone then
      some (Address.ofCreation a.sender t.body.nonce)
    else none
  return { sender := a.sender, gasUsed, logs := outcome.logs, failure := outcome.failure, contract }

def process (rules : Rules) (block : BlockEnv) (gasAvailable : Nat) (t : SignedTransaction) :
    TransactionM TransactionOutcome := fun world =>
  match t.validate rules block world gasAvailable with
  | .error cause => .error cause world
  | .ok a =>
    match t.carryOut rules block a world with
    | .ok outcome world => .ok outcome world
    | .error cause world => .error (.internal cause) world

end SignedTransaction

end StateTransition
