import StateTransition.Fork.Rules
import StateTransition.Machine.Failure
import StateTransition.Machine.Memory
import StateTransition.Machine.Opcode

/-! Prices in gas that no upgrade changed, and the formulas that combine them with those that
some did. -/
namespace StateTransition.Gas

def exp : Nat := 10

def sha3 : Nat := 30

def sha3Word : Nat := 6

def logData : Nat := 8

def codeDeposit : Nat := 200

def callValue : Nat := 9000

def newAccount : Nat := 25000

/-- What a call that moves value gives its callee on top. -/
def callStipend : Nat := 2300

def copyWord : Nat := 3

def memoryWord : Nat := 3

def copy (size : Nat) : Nat := copyWord * wordCount size

def hash (size : Nat) : Nat := sha3 + sha3Word * wordCount size

def log (topics size : Nat) : Nat := 375 + 375 * topics + logData * size

def exponentBytes (price : Nat) (exponent : Word) : Nat := price * byteLength exponent.toNat

def power (price : Nat) (exponent : Word) : Nat := exp + exponentBytes price exponent

def addSaturating (a b : Nat) : Nat := min (a + b) maxCount

def mulSaturating (a b : Nat) : Nat := min (a * b) maxCount

/-- The part of an operation's price that no upgrade changed; zero where another part is all. -/
def ofOpcode : Opcode → Nat
  | .address | .origin | .caller | .callvalue | .calldatasize | .codesize | .gasprice
  | .coinbase | .timestamp | .number | .difficulty | .gaslimit | .chainid
  | .returndatasize | .pop | .pc | .msize | .gas | .basefee => 2
  | .add | .sub | .not | .lt | .gt | .slt | .sgt | .eq | .iszero | .and | .or | .xor | .byte
  | .shl | .shr | .sar | .calldataload | .mload | .mstore | .mstore8
  | .calldatacopy | .codecopy | .returndatacopy | .push _ | .dup _ | .swap _ => 3
  | .mul | .div | .sdiv | .mod | .smod | .signextend | .selfbalance => 5
  | .addmod | .mulmod | .jump => 8
  | .jumpi => 10
  | .jumpdest => 1
  | .exp => exp
  | .keccak256 => hash 0
  | .blockhash => 20
  | .create | .create2 => 32000
  | .log topics => log topics.val 0
  | .stop | .ret | .revert | .invalid
  | .balance | .extcodesize | .extcodecopy | .extcodehash | .sload | .sstore
  | .call | .callcode | .delegatecall | .staticcall | .selfdestruct => 0

def memory (words : Nat) : Nat := memoryWord * words + words * words / 512

structure Expansion where
  cost : Nat
  newSize : Nat
  deriving DecidableEq, Repr

/-- The memory needed after one more use, none for a use without bytes. -/
def cover (size : Nat) (extent : Word × Word) : Except Halt Nat :=
  let (offset, length) := extent
  if length = 0 then .ok size
  else
    match offset.toCount?, length.toCount? with
    | some offset, some length => .ok (max size (32 * wordCount (offset + length)))
    | _, _ => .error .outOfGas

/-- The price of making memory cover every extent, each an offset with a length. -/
def expansion (size : Nat) (extents : List (Word × Word)) : Except Halt Expansion := do
  let newSize ← extents.foldlM cover size
  if newSize ≤ size then return ⟨0, size⟩
  let cost := memory (newSize / 32) - memory (wordCount size)
  if cost < countLimit && newSize < countLimit then return ⟨cost, newSize⟩
  throw .outOfGas

/-- A price for every word of a size, at most the greatest count. -/
def perWord (price : Nat) (size : Word) : Nat :=
  match size.toCount? with
  | some size => mulSaturating price (wordCount size)
  | none => maxCount

def perByte (price : Nat) (size : Word) : Nat :=
  match size.toCount? with
  | some size => mulSaturating price size
  | none => maxCount

def allButOne64th (gas : Nat) : Nat := gas - gas / 64

structure CallSplit where
  /-- What the caller pays, memory aside. -/
  cost : Nat
  /-- What the callee is given. -/
  forwarded : Nat
  deriving DecidableEq, Repr

/-- Splits the gas asked for by a call. Where a 64th has to stay behind, the request is capped at
the rest of what remains after memory and surcharges; otherwise it has to be a count. -/
def splitCall (rules : Rules) (value request : Word) (gasLeft memoryCost surcharge : Nat) :
    Except Halt CallSplit := do
  let stipend := if value = 0 then 0 else callStipend
  let upfront := addSaturating surcharge memoryCost
  let gas ←
    if rules.allButOne64th && upfront ≤ gasLeft then
      pure (min request.toNat (allButOne64th (gasLeft - upfront)))
    else
      match request.toCount? with
      | some gas => pure gas
      | none => throw .outOfGas
  if gas + surcharge < countLimit then return ⟨gas + surcharge, gas + stipend⟩
  throw .outOfGas

end StateTransition.Gas
