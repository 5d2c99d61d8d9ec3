import StateTransition.Machine.Basic

/-! The operations on memory, code, storage and flow that take more than one step. -/
namespace StateTransition

namespace MachineM

/-- The price of an access to an account, which is then no longer a first one. -/
def accessPrice (rules : Rules) (a : Address) (warm : Nat) : MachineM Nat := do
  if rules.accessLists then
    if ← warmAddress a then return rules.gas.coldAccountAccess
  return warm

def copyToMemory (source : ByteArray) : MachineM Unit := do
  let target ← pop
  let offset ← pop
  let length ← pop
  chargeWithMemory (Gas.perWord Gas.copyWord length) [(target, length)]
  writeMemory target (readPadded source offset.toNat length.toNat)

def hashMemory : MachineM Unit := do
  let extent ← popExtent
  chargeWithMemory (Gas.perWord Gas.sha3Word extent.2) [extent]
  push (keccak256 (← readMemory extent))

def copyCodeOf (rules : Rules) : MachineM Unit := do
  let a ← popAddress
  let target ← pop
  let offset ← pop
  let length ← pop
  let access ← accessPrice rules a rules.gas.extCode
  chargeWithMemory (Gas.addSaturating access (Gas.perWord Gas.copyWord length))
    [(target, length)]
  writeMemory target (readPadded ((← world).code a) offset.toNat length.toNat)

def copyReturnData : MachineM Unit := do
  let target ← pop
  let offset ← pop
  let length ← pop
  chargeWithMemory (Gas.perWord Gas.copyWord length) [(target, length)]
  let data := (← frame).returnData
  if data.size < offset.toNat + length.toNat then halt .outOfBounds
  writeMemory target (readPadded data offset.toNat length.toNat)

/-- What a use of a slot costs for being the first one, which the next is then no longer, or for
not being so. -/
def slotPrice (rules : Rules) (key : SlotKey) (warm : Nat) : MachineM Nat := do
  if rules.accessLists then
    if ← warmSlot key then return rules.gas.coldSload
  return warm

def loadSlot (rules : Rules) : MachineM Unit := do
  let key ← pop
  let a := (← frame).message.target
  charge (← slotPrice rules ⟨a, key⟩ rules.gas.sload)
  push ((← world).slot a key)

/-- The price of a write where it depends on what the transaction found. -/
def netWritePrice (gas : Prices) (initial current new : Word) : Nat :=
  if initial = current && current ≠ new then
    if initial = 0 then gas.sstoreSet else gas.sstoreReset
  else gas.sload

def netWriteRefund (gas : Prices) (initial current new : Word) : Int :=
  if current = new then 0
  else
    let cleared : Int := if initial ≠ 0 && current ≠ 0 && new = 0 then gas.sstoreClearRefund else 0
    let filled : Int := if initial ≠ 0 && current = 0 then gas.sstoreClearRefund else 0
    let restored : Int :=
      if initial = new then
        (if initial = 0 then gas.sstoreSet else gas.sstoreReset) - gas.sload
      else 0
    cleared - filled + restored

/-- The price of a write where it depends on the slot alone. -/
def grossWritePrice (gas : Prices) (current new : Word) : Nat :=
  if current = 0 && new ≠ 0 then gas.sstoreSet else gas.sstoreReset

def grossWriteRefund (gas : Prices) (current new : Word) : Int :=
  if current ≠ 0 && new = 0 then gas.sstoreClearRefund else 0

def writePrice (rules : Rules) (initial current new : Word) : Nat :=
  if rules.sstoreNetMetering then netWritePrice rules.gas initial current new
  else grossWritePrice rules.gas current new

/-- What a write gives back, below zero where it takes back more. -/
def writeRefund (rules : Rules) (initial current new : Word) : Int :=
  if rules.sstoreNetMetering then netWriteRefund rules.gas initial current new
  else grossWriteRefund rules.gas current new

def storeSlot (rules : Rules) : MachineM Unit := do
  let key ← pop
  let new ← pop
  if rules.sstoreSentry && (← frame).gasLeft ≤ Gas.callStipend then halt .outOfGas
  let a := (← frame).message.target
  let first ← slotPrice rules ⟨a, key⟩ 0
  let current := (← world).slot a key
  let initial := (← world).initialSlot a key
  charge (first + writePrice rules initial current new)
  addRefund (writeRefund rules initial current new)
  modifyWorld (World.setSlot a key new)

def jumpTo (target : Word) : MachineM Unit := do
  if target.toNat < countLimit && (← frame).canJump target.toNat then
    modifyFrame fun f => { f with pc := target.toNat }
  else halt (.invalidJump (target.toNat % countLimit))

/-- Pops a number of words, the first popped first. -/
def popMany : Nat → MachineM (List Word)
  | 0 => return []
  | n + 1 => do
    let w ← pop
    return w :: (← popMany n)

def record (topics : Nat) : MachineM Unit := do
  let extent ← popExtent
  let topics ← popMany topics
  chargeWithMemory (Gas.perByte Gas.logData extent.2) [extent]
  let data ← readMemory extent
  modifyFrame fun f =>
    { f with logs := f.logs ++ [⟨f.message.target, topics, bytesOfBuffer data⟩] }

def pushImmediate (size : Nat) : MachineM Unit := do
  let f ← frame
  pushNat (natOfBuffer (readPadded f.code f.pc size))
  modifyFrame fun f => { f with pc := f.pc + size }

end MachineM

end StateTransition
