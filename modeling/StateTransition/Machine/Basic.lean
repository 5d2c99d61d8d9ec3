import StateTransition.Machine.Frame

/-! A frame together with the world it changes, and the steps that operations are made of.
A step that stops keeps what it has done before. -/
namespace StateTransition

structure Machine where
  frame : Frame
  world : World

abbrev MachineM := EStateM Stop Machine

namespace MachineM

/-- Stops and forfeits the gas. -/
@[inline] def halt {α : Type} (cause : Halt) : MachineM α := throw (.failure (.halt cause))

@[inline] def frame : MachineM Frame := fun m => .ok m.frame m

@[inline] def world : MachineM World := fun m => .ok m.world m

@[inline] def modifyFrame (f : Frame → Frame) : MachineM Unit :=
  fun ⟨frame, world⟩ => .ok () ⟨f frame, world⟩

@[inline] def modifyWorld (f : World → World) : MachineM Unit :=
  fun ⟨frame, world⟩ => .ok () ⟨frame, f world⟩

/-- Changes the world where that may be impossible. -/
@[inline] def changeWorld {α : Type} (change : WorldM α) : MachineM α := fun ⟨frame, world⟩ =>
  match change world with
  | .ok a world => .ok a ⟨frame, world⟩
  | .error e world => .error (.fault e) ⟨frame, world⟩

def pop : MachineM Word := fun m =>
  match m.frame.stack.pop with
  | .ok (w, stack) => .ok w { m with frame := { m.frame with stack } }
  | .error cause => .error (.failure (.halt cause)) m

def popAddress : MachineM Address := return Address.ofWord (← pop)

def popExtent : MachineM (Word × Word) := do
  let offset ← pop
  let length ← pop
  return (offset, length)

def changeStack (change : Stack → Except Halt Stack) : MachineM Unit := fun m =>
  match change m.frame.stack with
  | .ok stack => .ok () { m with frame := { m.frame with stack } }
  | .error cause => .error (.failure (.halt cause)) m

def push (w : Word) : MachineM Unit := changeStack fun s => s.push w

def pushNat (n : Nat) : MachineM Unit := push (BitVec.ofNat 256 n)

@[inline] def unary (f : Word → Word) : MachineM Unit := do
  let a ← pop
  push (f a)

@[inline] def binary (f : Word → Word → Word) : MachineM Unit := do
  let a ← pop
  let b ← pop
  push (f a b)

@[inline] def ternary (f : Word → Word → Word → Word) : MachineM Unit := do
  let a ← pop
  let b ← pop
  let c ← pop
  push (f a b c)

def charge (amount : Nat) : MachineM Unit := fun ⟨frame, world⟩ =>
  if amount ≤ frame.gasLeft then
    .ok () ⟨{ frame with gasLeft := frame.gasLeft - amount }, world⟩
  else .error (.failure (.halt .outOfGas)) ⟨frame, world⟩

def chargeWithMemory (amount : Nat) (extents : List (Word × Word)) : MachineM Unit := fun m =>
  match m.frame.chargeWithMemory amount extents with
  | .ok frame => .ok () ⟨frame, m.world⟩
  | .error cause => .error (.failure (.halt cause)) m

/-- Gets gas back, which has to leave a count. -/
def giveBack (amount : Nat) : MachineM Unit := fun ⟨frame, world⟩ =>
  if frame.gasLeft + amount < countLimit then
    .ok () ⟨{ frame with gasLeft := frame.gasLeft + amount }, world⟩
  else .error (.fault .gasOverflow) ⟨frame, world⟩

/-- Goes on only where the frame can give back so much more. -/
def checkRefund (amount : Int) : MachineM Unit := fun m =>
  if m.frame.fitsRefund amount then .ok () m else .error (.fault .overflow) m

def addRefund (amount : Int) : MachineM Unit := do
  checkRefund amount
  modifyFrame fun f => { f with refund := f.refund + amount }

def readMemory (extent : Word × Word) : MachineM ByteArray := return (← frame).readMemory extent

def writeMemory (offset : Word) (bytes : ByteArray) : MachineM Unit :=
  modifyFrame fun f => f.writeMemory offset bytes

/-- Marks an account as accessed and tells whether it was not before. -/
def warmAddress (a : Address) : MachineM Bool := do
  let cold := !(← frame).warmAddresses.contains a
  modifyFrame fun f => { f with warmAddresses := f.warmAddresses.insert a }
  return cold

/-- Marks a slot as accessed and tells whether it was not before. -/
def warmSlot (key : SlotKey) : MachineM Bool := do
  let cold := !(← frame).warmSlots.contains key
  modifyFrame fun f => { f with warmSlots := f.warmSlots.insert key }
  return cold

end MachineM

end StateTransition
