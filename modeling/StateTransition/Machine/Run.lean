import StateTransition.Machine.Call
import StateTransition.Machine.Precompile

/-! Running code: single operations, frames, and the messages that start them, each behind a
checkpoint of the world that a failure goes back to. -/
namespace StateTransition

namespace MachineM

def finish : MachineM Unit := modifyFrame fun f => { f with running := false }

def setOutput : MachineM Unit := do
  let extent ← popExtent
  chargeWithMemory 0 [extent]
  let output ← readMemory extent
  modifyFrame fun f => { f with output }

/-- What an operation does once its fixed price is paid. -/
def perform (env : Environment) (children : Option Children) (op : Opcode) : MachineM Unit := do
  let rules := env.rules
  match op with
  | .stop => finish
  | .add => binary (· + ·)
  | .mul => binary (· * ·)
  | .sub => binary (· - ·)
  | .div => binary Word.div
  | .sdiv => binary Word.sdiv
  | .mod => binary Word.mod
  | .smod => binary Word.smod
  | .addmod => ternary Word.addmod
  | .mulmod => ternary Word.mulmod
  | .exp =>
    let base ← pop
    let exponent ← pop
    charge (Gas.exponentBytes rules.gas.expByte exponent)
    push (Word.exp base exponent)
  | .signextend => binary Word.signextend
  | .lt => binary fun a b => Word.ofBool (a < b)
  | .gt => binary fun a b => Word.ofBool (b < a)
  | .slt => binary fun a b => Word.ofBool (Word.slt a b)
  | .sgt => binary fun a b => Word.ofBool (Word.slt b a)
  | .eq => binary fun a b => Word.ofBool (a = b)
  | .iszero => unary fun a => Word.ofBool (a = 0)
  | .and => binary (· &&& ·)
  | .or => binary (· ||| ·)
  | .xor => binary (· ^^^ ·)
  | .not => unary (~~~ ·)
  | .byte => binary Word.byte
  | .shl => binary Word.shl
  | .shr => binary Word.shr
  | .sar => binary Word.sar
  | .keccak256 => hashMemory
  | .address => push (← frame).message.target.toWord
  | .balance =>
    let a ← popAddress
    charge (← accessPrice rules a rules.gas.balance)
    push ((← world).balance a)
  | .origin => push env.transaction.origin.toWord
  | .caller => push (← frame).message.caller.toWord
  | .callvalue => push (← frame).message.value
  | .calldataload =>
    let offset ← pop
    pushNat (natOfBuffer (readPadded (← frame).message.data offset.toNat 32))
  | .calldatasize => pushNat (← frame).message.data.size
  | .calldatacopy => copyToMemory (← frame).message.data
  | .codesize => pushNat (← frame).code.size
  | .codecopy => copyToMemory (← frame).code
  | .gasprice => push env.transaction.gasPrice
  | .extcodesize =>
    let a ← popAddress
    charge (← accessPrice rules a rules.gas.extCode)
    pushNat ((← world).code a).size
  | .extcodecopy => copyCodeOf rules
  | .returndatasize => pushNat (← frame).returnData.size
  | .returndatacopy => copyReturnData
  | .extcodehash =>
    let a ← popAddress
    charge (← accessPrice rules a rules.gas.extCodeHash)
    let w ← world
    push (if w.isAlive a then (w.accountOrEmpty a).codeHash else 0)
  | .blockhash => unary env.block.blockHash
  | .coinbase => push env.block.coinbase.toWord
  | .timestamp => pushNat env.block.timestamp.toNat
  | .number => pushNat env.block.number.toNat
  | .difficulty => push env.block.difficulty
  | .gaslimit => pushNat env.block.gasLimit.toNat
  | .chainid => pushNat env.block.chainId.toNat
  | .selfbalance => push ((← world).balance (← frame).message.target)
  | .basefee => push (env.block.baseFee.getD 0)
  | .pop => discard pop
  | .mload =>
    let offset ← pop
    chargeWithMemory 0 [(offset, 32)]
    push ((← frame).memory.load offset.toNat)
  | .mstore =>
    let offset ← pop
    let value ← pop
    chargeWithMemory 0 [(offset, 32)]
    modifyFrame fun f => { f with memory := f.memory.store offset.toNat value }
  | .mstore8 =>
    let offset ← pop
    let value ← pop
    chargeWithMemory 0 [(offset, 1)]
    modifyFrame fun f => { f with memory := f.memory.storeByte offset.toNat value.toNat.toUInt8 }
  | .sload => loadSlot rules
  | .sstore => storeSlot rules
  | .jump => jumpTo (← pop)
  | .jumpi =>
    let target ← pop
    let condition ← pop
    if condition ≠ 0 then jumpTo target
  | .pc => pushNat ((← frame).pc - 1)
  | .msize => pushNat (← frame).memory.size
  | .gas => pushNat (← frame).gasLeft
  | .jumpdest => return
  | .push size => pushImmediate (size.val + 1)
  | .dup depth => changeStack fun s => s.dup (depth.val + 1)
  | .swap depth => changeStack fun s => s.swap (depth.val + 1)
  | .log topics => record topics.val
  | .ret =>
    setOutput
    finish
  | .revert =>
    setOutput
    throw (.failure .revert)
  | .invalid => halt (.invalidOpcode op.toByte)
  | .create => createContract rules children false
  | .create2 => createContract rules children true
  | .call => call rules children
  | .callcode => callCode rules children
  | .delegatecall => delegateCall rules children
  | .staticcall => staticCall rules children
  | .selfdestruct => selfDestruct rules

def decode? (rules : Rules) (b : UInt8) : Option Opcode :=
  if rules.enables b then Opcode.ofByte? b else none

/-- Pays for an operation and does it, unless it may not write. -/
def operate (env : Environment) (children : Option Children) (op : Opcode) : MachineM Unit := do
  charge (Gas.ofOpcode op)
  if (← frame).message.isStatic && op.isStateModifying then halt .writeInStaticContext
  modifyFrame fun f => { f with pc := f.pc + 1 }
  perform env children op

def step (env : Environment) (children : Option Children) : MachineM Unit := do
  let f ← frame
  let b := byteAt f.code f.pc
  match decode? env.rules b with
  | none => halt (.invalidOpcode b)
  | some op => operate env children op

/-- Does at most `fuel` operations, ending where the frame or its code ends. -/
def steps (env : Environment) (children : Option Children) : (fuel : Nat) → MachineM Unit
  | 0 => return
  | fuel + 1 => do
    let f ← frame
    if f.running && f.pc < f.code.size then
      step env children
      steps env children fuel

/-- Runs the frame to its end. Each operation that the frame goes on after has used gas, so there
are no more of them than there is gas, and one that ends it. -/
def run (env : Environment) (children : Option Children) : MachineM Unit := do
  steps env children ((← frame).gasLeft + 1)

/-- Runs the built-in contract or the code that the frame's message is for. -/
def start (env : Environment) (children : Option Children) : MachineM Unit := do
  match (← frame).message.codeAddress with
  | some a =>
    if env.rules.isPrecompile a then Precompile.run env.rules a.toNat.toUInt8
    else run env children
  | none => run env children

end MachineM

/-- Pays for new code, and tells why it is refused if it is. -/
def Frame.chargeCode (rules : Rules) (code : ByteArray) (f : Frame) : Frame × Option Halt :=
  if rules.rejectEfCode && 0 < code.size && byteAt code 0 = 0xef then
    (f, some .invalidContractPrefix)
  else
    match f.charge (Gas.mulSaturating Gas.codeDeposit code.size) with
    | .error cause => (f, some cause)
    | .ok f => (f, if rules.maxCodeSize.any (· < code.size) then some .outOfGas else none)

namespace Message

def runCode (env : Environment) (children : Option Children) (m : Message) : WorldM Frame :=
  fun world =>
    match MachineM.start env children ⟨Frame.ofMessage m, world⟩ with
    | .ok () ⟨frame, world⟩ => .ok frame world
    | .error (.failure (.halt cause)) ⟨frame, world⟩ => .ok (frame.halt cause) world
    | .error (.failure .revert) ⟨frame, world⟩ => .ok frame.revert world
    | .error (.fault cause) ⟨_, world⟩ => .error cause world

def enter (m : Message) : WorldM Unit := do
  modify World.checkpoint
  modify (World.touch m.target)
  if m.movesValue && m.value ≠ 0 then World.transfer m.caller m.target m.value

def callWith (env : Environment) (children : Option Children) (m : Message) : WorldM Frame := do
  enter m
  let f ← runCode env children m
  if f.succeeded then World.commit else World.revert
  return f

/-- Opens a checkpoint and clears the place of a new contract. -/
def clear (rules : Rules) (m : Message) : WorldM Unit := do
  modify World.checkpoint
  modify (World.destroyStorage m.target)
  modify (World.markCreated m.target)
  if rules.stateClearing then World.incrementNonce m.target

/-- Installs what the code of a creation returned. Where it cannot be paid for, either all is undone
or there is a contract without code. -/
def install (rules : Rules) (m : Message) (f : Frame) : WorldM Frame := do
  let code := f.output
  let (f, refusal) := { f with output := ByteArray.empty }.chargeCode rules code
  match refusal with
  | none =>
    modify (World.setCode m.target code)
    World.commit
    return f
  | some cause =>
    if rules.createDepositOogFails then
      World.revert
      return f.halt cause
    else
      World.commit
      return f

def createWith (env : Environment) (children : Option Children) (m : Message) :
    WorldM Frame := do
  clear env.rules m
  let f ← callWith env children m
  if f.succeeded then install env.rules m f
  else
    World.revert
    return f

end Message

/-- The children of a frame that has room for `room` frames nested in it. -/
def Children.ofRoom (env : Environment) : (room : Nat) → Option Children
  | 0 => none
  | room + 1 => some
    { call := fun m => m.callWith env (ofRoom env room)
      create := fun m => m.createWith env (ofRoom env room) }

def callDepthLimit : Nat := 1024

/-- What the message of a transaction leaves. -/
structure Outcome where
  gasLeft : Nat
  refund : Nat
  logs : List Log
  destroyed : Std.ExtTreeSet Address
  touched : Std.ExtTreeSet Address
  output : ByteArray
  failure : Option Failure

/-- What a frame leaves; nothing but gas and output if it failed. -/
def Outcome.ofFrame (f : Frame) : Outcome :=
  match f.failure with
  | none =>
    { gasLeft := f.gasLeft, refund := f.refund.toNat, logs := f.logs, destroyed := f.destroyed
      touched := f.touched, output := f.output, failure := none }
  | some cause =>
    { gasLeft := f.gasLeft, refund := 0, logs := [], destroyed := ∅, touched := ∅
      output := f.output, failure := some cause }

namespace Message

def call (env : Environment) (room : Nat) (m : Message) : WorldM Frame :=
  m.callWith env (Children.ofRoom env room)

def create (env : Environment) (room : Nat) (m : Message) : WorldM Frame :=
  m.createWith env (Children.ofRoom env room)

/-- Runs the message of a transaction; a creation where there is a contract already fails at
once and takes all gas. -/
def execute (env : Environment) (room : Nat) (m : Message) : WorldM Outcome := do
  if m.isCreation then
    if (← get).hasCodeOrNonce m.target then
      return { gasLeft := 0, refund := 0, logs := [], destroyed := ∅, touched := ∅
               output := ByteArray.empty, failure := some (.halt .addressCollision) }
    return Outcome.ofFrame (← m.create env room)
  else
    let f ← m.call env room
    if env.rules.stateClearing && (← get).isEmptyAccount m.target then
      return Outcome.ofFrame { f with touched := f.touched.insert m.target }
    return Outcome.ofFrame f

end Message

end StateTransition
