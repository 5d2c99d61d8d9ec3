import StateTransition.Machine.Instruction

/-! The operations that send messages, create contracts and destroy the running account. A
frame at the greatest depth has no children: what it sends is refused. -/
namespace StateTransition

/-- The address of the contract that an account creates with its next nonce. -/
def Address.ofCreation (sender : Address) (nonce : UInt64) : Address :=
  Address.ofHash (keccak (Rlp.Item.list [.ofAddress sender, .ofCount nonce]).encode)

/-- The address of the contract that an account creates from code under a salt. -/
def Address.ofSaltedCreation (sender : Address) (salt : Hash) (code : ByteArray) : Address :=
  Address.ofHash <| keccak <|
    0xff :: (sender.toBytes ++ Hash.toBytes salt ++ Hash.toBytes (keccak256 code))

/-- How a frame runs the messages that it sends. -/
structure Children where
  call : Message → WorldM Frame
  create : Message → WorldM Frame

structure Request where
  /-- What the callee is given. -/
  gas : Nat
  value : Word
  caller : Address
  target : Address
  codeAddress : Address
  movesValue : Bool
  isStatic : Bool
  input : Word × Word
  output : Word × Word

structure CreationRequest where
  /-- What is set aside for the code that makes the contract. -/
  gas : Nat
  value : Word
  contract : Address
  /-- Where in memory that code is. -/
  code : Word × Word

/-- The built-in contract that stays touched when a call to it fails. -/
def stickyPrecompile : Address := Address.ofNumber 3

namespace Frame

/-- Takes over what a child that succeeded has done, gas aside. -/
def absorbSuccess (rules : Rules) (world : World) (f child : Frame) : Frame :=
  let touched := f.touched ∪ child.touched
  let target := child.message.target
  { f with
    logs := f.logs ++ child.logs
    refund := f.refund + child.refund
    destroyed := f.destroyed ∪ child.destroyed
    touched :=
      if rules.stateClearing && world.isEmptyAccount target then touched.insert target
      else touched
    warmAddresses := f.warmAddresses ∪ child.warmAddresses
    warmSlots := f.warmSlots ∪ child.warmSlots }

/-- Takes over nothing that a child did that failed; one account stays touched all the same. -/
def absorbFailure (rules : Rules) (world : World) (f child : Frame) : Frame :=
  let stays := rules.stateClearing &&
    (child.touched.contains stickyPrecompile ||
      child.message.target = stickyPrecompile && world.isEmptyAccount stickyPrecompile)
  { f with touched := if stays then f.touched.insert stickyPrecompile else f.touched }

/-- Takes over what a child has done, if it succeeded. -/
def absorb (rules : Rules) (world : World) (f child : Frame) : Frame :=
  if child.succeeded then f.absorbSuccess rules world child else f.absorbFailure rules world child

end Frame

namespace MachineM

/-- Takes over what a child leaves: its gas, and what it has done. -/
def absorb (rules : Rules) (child : Frame) : MachineM Unit := do
  giveBack child.gasLeft
  if child.succeeded then checkRefund child.refund
  let w ← world
  modifyFrame fun f => f.absorb rules w child

def runChild (rules : Rules) (run : WorldM Frame) : MachineM Frame := do
  let child ← changeWorld run
  absorb rules child
  return child

def setReturnData (data : ByteArray) : MachineM Unit :=
  modifyFrame fun f => { f with returnData := data }

/-- Gives back the gas of a message that is not sent, and tells that it failed. -/
def refuse (gas : Nat) : MachineM Unit := do
  giveBack gas
  push 0

/-- The address of a new contract, once the memory that its code is in is paid for. -/
def creationAddress (salted : Bool) (extent : Word × Word) : MachineM Address := do
  if salted then
    let salt ← pop
    chargeWithMemory (Gas.perWord Gas.sha3Word extent.2) [extent]
    return Address.ofSaltedCreation (← frame).message.target salt (← readMemory extent)
  else
    chargeWithMemory 0 [extent]
    let sender := (← frame).message.target
    return Address.ofCreation sender ((← world).accountOrEmpty sender).nonce

def reserveCreationGas (rules : Rules) : MachineM Nat := do
  let left := (← frame).gasLeft
  let gas := if rules.allButOne64th then Gas.allButOne64th left else left
  modifyFrame fun f => { f with gasLeft := f.gasLeft - gas }
  return gas

def creationMessage (f : Frame) (contract : Address) (gas : Nat) (value : Word)
    (code : ByteArray) : Message where
  caller := f.message.target
  isCreation := true
  target := contract
  codeAddress := none
  gas
  value
  data := ByteArray.empty
  code
  movesValue := true
  isStatic := false
  warmAddresses := f.warmAddresses
  warmSlots := f.warmSlots
  destroyed := f.destroyed

def creationRequest (rules : Rules) (salted : Bool) : MachineM CreationRequest := do
  let value ← pop
  let code ← popExtent
  let contract ← creationAddress salted code
  discard (warmAddress contract)
  let gas ← reserveCreationGas rules
  return { gas, value, contract, code }

/-- Creates a contract, unless the sender has too little or can send no more, or there is a
contract already. -/
def place (rules : Rules) (children : Option Children) (r : CreationRequest) : MachineM Unit := do
  setReturnData ByteArray.empty
  let sender := (← frame).message.target
  let account := (← world).accountOrEmpty sender
  match children with
  | none => refuse r.gas
  | some children =>
    if account.balance < r.value || account.nonce.toNat = maxCount then refuse r.gas
    else if (← world).hasCodeOrNonce r.contract then
      changeWorld (World.incrementNonce sender)
      push 0
    else
      let code ← readMemory r.code
      changeWorld (World.incrementNonce sender)
      let m := creationMessage (← frame) r.contract r.gas r.value code
      let child ← runChild rules (children.create m)
      if child.succeeded then push r.contract.toWord
      else
        setReturnData child.output
        push 0

def createContract (rules : Rules) (children : Option Children) (salted : Bool) :
    MachineM Unit := do
  place rules children (← creationRequest rules salted)

/-- What a call is charged for the account that it may bring into being. -/
def newAccountPrice (rules : Rules) (world : World) (target : Address) (value : Word) : Nat :=
  let isNew :=
    if rules.stateClearing then value ≠ 0 && !world.isAlive target
    else !world.hasAccount target
  if isNew then Gas.newAccount else 0

/-- What a call is charged for the value that it moves. -/
def valuePrice (value : Word) : Nat := if value = 0 then 0 else Gas.callValue

/-- Pays for a call and its memory, and tells what the callee is given. -/
def chargeCall (rules : Rules) (gas value : Word) (extents : List (Word × Word))
    (surcharge : Nat) : MachineM Nat := fun m =>
  let split := do
    let expansion ← Gas.expansion m.frame.memory.size extents
    let split ←
      Gas.splitCall rules value gas m.frame.gasLeft expansion.cost surcharge
    let f ← m.frame.charge (Gas.addSaturating split.cost expansion.cost)
    return (split.forwarded, { f with memory := f.memory.grow expansion.newSize })
  match split with
  | .ok (forwarded, frame) => .ok forwarded ⟨frame, m.world⟩
  | .error cause => .error (.failure (.halt cause)) m

def callMessage (f : Frame) (r : Request) (data code : ByteArray) : Message where
  caller := r.caller
  isCreation := false
  target := r.target
  codeAddress := some r.codeAddress
  gas := r.gas
  value := r.value
  data
  code
  movesValue := r.movesValue
  isStatic := r.isStatic || f.message.isStatic
  warmAddresses := f.warmAddresses
  warmSlots := f.warmSlots
  destroyed := f.destroyed

/-- Sends the message of a call, and copies to memory as much of its output as was asked for. -/
def send (rules : Rules) (children : Option Children) (r : Request) : MachineM Unit := do
  setReturnData ByteArray.empty
  match children with
  | none => refuse r.gas
  | some children =>
    let data ← readMemory r.input
    let code := (← world).code r.codeAddress
    let child ← runChild rules (children.call (callMessage (← frame) r data code))
    push (Word.ofBool child.succeeded)
    writeMemory r.output.1 (child.output.extract 0 (min child.output.size r.output.2.toNat))
    setReturnData child.output

/-- Sends the message of a call that moves value, unless the sender has too little. -/
def sendValue (rules : Rules) (children : Option Children) (r : Request) : MachineM Unit := do
  if (← world).balance r.caller < r.value then
    push 0
    setReturnData ByteArray.empty
    giveBack r.gas
  else send rules children r

/-- Pays for a call to another account. -/
def callRequest (rules : Rules) : MachineM Request := do
  let gas ← pop
  let target ← popAddress
  let value ← pop
  let input ← popExtent
  let output ← popExtent
  let access ← accessPrice rules target rules.gas.call
  let surcharge := access + newAccountPrice rules (← world) target value + valuePrice value
  let gas ← chargeCall rules gas value [input, output] surcharge
  let m := (← frame).message
  if m.isStatic && value ≠ 0 then halt .writeInStaticContext
  return { gas, value, caller := m.target, target, codeAddress := target, movesValue := true
           isStatic := false, input, output }

/-- Pays for a call to the running account with another's code. -/
def codeRequest (rules : Rules) : MachineM Request := do
  let gas ← pop
  let codeAddress ← popAddress
  let value ← pop
  let input ← popExtent
  let output ← popExtent
  let access ← accessPrice rules codeAddress rules.gas.call
  let gas ← chargeCall rules gas value [input, output] (access + valuePrice value)
  let m := (← frame).message
  return { gas, value, caller := m.target, target := m.target, codeAddress, movesValue := true
           isStatic := false, input, output }

/-- Pays for going on as the running message with another account's code. -/
def delegateRequest (rules : Rules) : MachineM Request := do
  let gas ← pop
  let codeAddress ← popAddress
  let input ← popExtent
  let output ← popExtent
  let access ← accessPrice rules codeAddress rules.gas.call
  let gas ← chargeCall rules gas 0 [input, output] access
  let m := (← frame).message
  return { gas, value := m.value, caller := m.caller, target := m.target, codeAddress
           movesValue := false, isStatic := false, input, output }

/-- Pays for a call to another account that may then write nothing. -/
def staticRequest (rules : Rules) : MachineM Request := do
  let gas ← pop
  let target ← popAddress
  let input ← popExtent
  let output ← popExtent
  let access ← accessPrice rules target rules.gas.call
  let gas ← chargeCall rules gas 0 [input, output] access
  let m := (← frame).message
  return { gas, value := 0, caller := m.target, target, codeAddress := target, movesValue := true
           isStatic := true, input, output }

def call (rules : Rules) (children : Option Children) : MachineM Unit := do
  sendValue rules children (← callRequest rules)

def callCode (rules : Rules) (children : Option Children) : MachineM Unit := do
  sendValue rules children (← codeRequest rules)

def delegateCall (rules : Rules) (children : Option Children) : MachineM Unit := do
  send rules children (← delegateRequest rules)

def staticCall (rules : Rules) (children : Option Children) : MachineM Unit := do
  send rules children (← staticRequest rules)

/-- What a destruction is charged for the account that it may bring into being. -/
def heirPrice (rules : Rules) (world : World) (owner heir : Address) : Nat :=
  let isNew :=
    if rules.stateClearing then !world.isAlive heir && world.balance owner ≠ 0
    else rules.allButOne64th && !world.hasAccount heir
  if isNew then Gas.newAccount else 0

def payForDestruction (rules : Rules) (owner heir : Address) : MachineM Unit := do
  let access ← do
    if rules.accessLists then
      if ← warmAddress heir then pure rules.gas.coldAccountAccess else pure 0
    else pure 0
  charge (rules.gas.selfdestruct + access + heirPrice rules (← world) owner heir)
  addRefund (if (← frame).destroyed.contains owner then 0 else rules.gas.selfdestructRefund)

/-- Leaves an account's balance to another and counts it as destroyed. -/
def bequeath (owner heir : Address) : MachineM Unit := do
  changeWorld (World.addBalance heir ((← world).balance owner))
  modifyWorld (World.setBalance owner 0)
  modifyFrame fun f => { f with destroyed := f.destroyed.insert owner }

def selfDestruct (rules : Rules) : MachineM Unit := do
  let heir ← popAddress
  let owner := (← frame).message.target
  payForDestruction rules owner heir
  bequeath owner heir
  if rules.stateClearing && (← world).isEmptyAccount heir then
    modifyFrame fun f => { f with touched := f.touched.insert heir }
  modifyFrame fun f => { f with running := false }

end MachineM

end StateTransition
