import StateTransition.Block.Receipt
import StateTransition.Machine.Environment
import StateTransition.Machine.Gas
import StateTransition.Machine.Stack

/-! A running message: the machine's registers, and what it hands to its caller in the end. -/
namespace StateTransition

set_option linter.unusedVariables false in
/-- The positions from `i` on that hold a jump destination, skipping the bytes that belong to
the operation before them. -/
def scanJumpTargets (code : ByteArray) (i : Nat) (found : Std.ExtTreeSet Nat) :
    Std.ExtTreeSet Nat :=
  if h : i < code.size then
    let b := code[i]
    scanJumpTargets code (i + 1 + Opcode.immediateSize b)
      (if b = Opcode.jumpdest.toByte then found.insert i else found)
  else found
termination_by code.size - i
decreasing_by omega

def jumpTargets (code : ByteArray) : Std.ExtTreeSet Nat := scanJumpTargets code 0 ∅

structure Frame where
  pc : Nat
  stack : Stack
  memory : Memory
  gasLeft : Nat
  message : Message
  /-- What it returns, or reverts with. -/
  output : ByteArray
  /-- What the last message that it sent returned. -/
  returnData : ByteArray
  logs : List Log
  /-- What it gives back, below zero when it takes back more; what leaves 64 bits is a fault. -/
  refund : Int
  destroyed : Std.ExtTreeSet Address
  /-- Accounts to look at for emptiness when the transaction ends. -/
  touched : Std.ExtTreeSet Address
  warmAddresses : Std.ExtTreeSet Address
  warmSlots : Std.ExtTreeSet SlotKey
  running : Bool
  failure : Option Failure
  targets : Std.ExtTreeSet Nat

namespace Frame

def ofMessage (m : Message) : Frame where
  pc := 0
  stack := .empty
  memory := .empty
  gasLeft := m.gas
  message := m
  output := ByteArray.empty
  returnData := ByteArray.empty
  logs := []
  refund := 0
  destroyed := m.destroyed
  touched := ∅
  warmAddresses := m.warmAddresses
  warmSlots := m.warmSlots
  running := true
  failure := none
  targets := jumpTargets m.code

def code (f : Frame) : ByteArray := f.message.code

def canJump (f : Frame) (target : Nat) : Bool := f.targets.contains target

def charge (f : Frame) (amount : Nat) : Except Halt Frame :=
  if amount ≤ f.gasLeft then .ok { f with gasLeft := f.gasLeft - amount } else .error .outOfGas

def chargeWithMemory (f : Frame) (amount : Nat) (extents : List (Word × Word)) :
    Except Halt Frame := do
  let expansion ← Gas.expansion f.memory.size extents
  let f ← f.charge (Gas.addSaturating amount expansion.cost)
  return { f with memory := f.memory.grow expansion.newSize }

def readMemory (f : Frame) (extent : Word × Word) : ByteArray :=
  f.memory.read extent.1.toNat extent.2.toNat

def writeMemory (f : Frame) (offset : Word) (bytes : ByteArray) : Frame :=
  if bytes.isEmpty then f else { f with memory := f.memory.write offset.toNat bytes }

def halt (f : Frame) (cause : Halt) : Frame :=
  { f with
    gasLeft := 0, output := ByteArray.empty, running := false, failure := some (.halt cause) }

/-- Stops and keeps gas and output. -/
def revert (f : Frame) : Frame := { f with running := false, failure := some .revert }

def succeeded (f : Frame) : Bool := f.failure.isNone

/-- Whether a frame can give back so much more: what it gives back is held in 64 bits with a sign. -/
def fitsRefund (f : Frame) (amount : Int) : Bool :=
  -0x8000000000000000 ≤ f.refund + amount && f.refund + amount < 0x8000000000000000

end Frame

end StateTransition
