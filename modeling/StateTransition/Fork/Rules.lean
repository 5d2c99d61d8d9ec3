import StateTransition.Fork.Basic
import StateTransition.Address

/-! What an upgrade changes: prices, rewards, limits, and which operations exist. The rules of
an upgrade are those of the oldest one with every later change made in order. -/
namespace StateTransition

/-- Prices in gas that some upgrade changed. -/
structure Prices where
  /-- Reading a slot; the price of a warm one where access is listed. -/
  sload : Nat
  /-- Reading a balance; the warm price where access is listed. -/
  balance : Nat
  /-- Reading the size or bytes of another account's code; the warm price where access is listed. -/
  extCode : Nat
  /-- Reading a code hash; the warm price where access is listed. -/
  extCodeHash : Nat
  /-- Calling; the warm price where access is listed. -/
  call : Nat
  /-- Destroying the running account. -/
  selfdestruct : Nat
  /-- Each byte of an exponent. -/
  expByte : Nat
  /-- Writing a slot that is zero. -/
  sstoreSet : Nat
  /-- Writing a slot that is not zero. -/
  sstoreReset : Nat
  /-- What clearing a slot gives back. -/
  sstoreClearRefund : Nat
  /-- What destroying an account gives back. -/
  selfdestructRefund : Nat
  /-- The first read of a slot. -/
  coldSload : Nat
  /-- The first access to an account. -/
  coldAccountAccess : Nat
  /-- A transaction that creates a contract, beyond its base price. -/
  txCreate : Nat
  /-- Each byte of a transaction's data that is not zero. -/
  txDataNonzero : Nat
  /-- Adding curve points. -/
  bnAdd : Nat
  /-- Multiplying a curve point. -/
  bnMul : Nat
  /-- A pairing check without pairs. -/
  bnPairingBase : Nat
  /-- Each pair of a pairing check. -/
  bnPairingPerPair : Nat
  deriving DecidableEq, Repr

/-- How a block's difficulty follows from its parent. -/
inductive DifficultyRule where
  /-- One step up or down, at thirteen seconds. -/
  | frontier
  /-- Steps by ten seconds. -/
  | homestead
  /-- Steps by nine seconds, one more after a parent with ommers. -/
  | byzantium
  deriving DecidableEq, Repr

/-- Everything that depends on the upgrade in force. -/
structure Rules where
  fork : Fork
  gas : Prices
  /-- What the coinbase of a block without ommers is given, in wei. -/
  blockReward : Nat
  /-- Blocks by which the exponential part of the difficulty is put off. -/
  bombDelay : Nat
  difficulty : DifficultyRule
  /-- The highest address of a built-in contract. -/
  precompileCount : Nat
  /-- The part of the gas used that can be given back. -/
  refundQuotient : Nat
  maxCodeSize : Option Nat
  /-- Signatures need the lower `s`. -/
  lowSSignatures : Bool
  /-- A creation that cannot pay for its code fails. -/
  createDepositOogFails : Bool
  /-- A call leaves a 64th of the gas behind. -/
  allButOne64th : Bool
  /-- Signatures may bind the chain. -/
  replayProtection : Bool
  /-- Empty accounts are removed and new contracts start with nonce one. -/
  stateClearing : Bool
  /-- Receipts hold a status in place of a root. -/
  statusReceipts : Bool
  /-- A write is priced by what the slot held when the transaction began. -/
  sstoreNetMetering : Bool
  /-- A write needs more gas than a call's stipend. -/
  sstoreSentry : Bool
  /-- First accesses cost more, and transactions may list accesses. -/
  accessLists : Bool
  modexpRepriced : Bool
  /-- Blocks have a base fee, and transactions may name a priority fee. -/
  baseFee : Bool
  /-- New code may not begin with the byte `0xef`. -/
  rejectEfCode : Bool
  /-- Bit `n` tells whether the operation with byte `n` exists. -/
  opcodes : BitVec 256
  deriving DecidableEq, Repr

namespace Rules

def ether : Nat := 1000000000000000000

def opcodeRange (low high : Nat) : BitVec 256 :=
  (List.range (high + 1 - low)).foldl (fun set i => set ||| BitVec.twoPow 256 (low + i)) 0

def frontier : Rules where
  fork := .frontier
  gas :=
    { sload := 50, balance := 20, extCode := 20, extCodeHash := 400, call := 40
      selfdestruct := 0, expByte := 10, sstoreSet := 20000, sstoreReset := 5000
      sstoreClearRefund := 15000, selfdestructRefund := 24000, coldSload := 0
      coldAccountAccess := 0, txCreate := 0, txDataNonzero := 68, bnAdd := 500, bnMul := 40000
      bnPairingBase := 100000, bnPairingPerPair := 80000 }
  blockReward := 5 * ether
  bombDelay := 0
  difficulty := .frontier
  precompileCount := 4
  refundQuotient := 2
  maxCodeSize := none
  lowSSignatures := false
  createDepositOogFails := false
  allButOne64th := false
  replayProtection := false
  stateClearing := false
  statusReceipts := false
  sstoreNetMetering := false
  sstoreSentry := false
  accessLists := false
  modexpRepriced := false
  baseFee := false
  rejectEfCode := false
  opcodes :=
    opcodeRange 0x00 0x0b ||| opcodeRange 0x10 0x1a ||| opcodeRange 0x20 0x20 |||
      opcodeRange 0x30 0x3c ||| opcodeRange 0x40 0x45 ||| opcodeRange 0x50 0x5b |||
      opcodeRange 0x60 0xa4 ||| opcodeRange 0xf0 0xf3 ||| opcodeRange 0xff 0xff

def enable (r : Rules) (ops : List Nat) : Rules :=
  { r with opcodes := ops.foldl (fun set op => set ||| BitVec.twoPow 256 op) r.opcodes }

def apply (r : Rules) (upgrade : Fork) : Rules :=
  let r := { r with fork := upgrade }
  match upgrade with
  | .frontier => r
  | .homestead =>
    { r.enable [0xf4] with
      difficulty := .homestead, gas := { r.gas with txCreate := 32000 }
      lowSSignatures := true, createDepositOogFails := true }
  | .tangerineWhistle =>
    { r with
      gas := { r.gas with
        sload := 200, balance := 400, extCode := 700, call := 700, selfdestruct := 5000 }
      allButOne64th := true }
  | .spuriousDragon =>
    { r with
      gas := { r.gas with expByte := 50 }
      replayProtection := true, stateClearing := true, maxCodeSize := some 0x6000 }
  | .byzantium =>
    { r.enable [0x3d, 0x3e, 0xfa, 0xfd] with
      blockReward := 3 * ether, bombDelay := 3000000, difficulty := .byzantium
      precompileCount := 8, statusReceipts := true }
  | .constantinople =>
    { r.enable [0x1b, 0x1c, 0x1d, 0x3f, 0xf5] with
      blockReward := 2 * ether, bombDelay := 5000000, sstoreNetMetering := true }
  | .petersburg => { r with sstoreNetMetering := false }
  | .istanbul =>
    { r.enable [0x46, 0x47] with
      gas := { r.gas with
        sload := 800, balance := 700, extCodeHash := 700, txDataNonzero := 16, bnAdd := 150
        bnMul := 6000, bnPairingBase := 45000, bnPairingPerPair := 34000 }
      precompileCount := 9, sstoreNetMetering := true, sstoreSentry := true }
  | .muirGlacier => { r with bombDelay := 9000000 }
  | .berlin =>
    { r with
      gas := { r.gas with
        sload := 100, balance := 100, extCode := 100, extCodeHash := 100, call := 100
        coldSload := 2100, coldAccountAccess := 2600, sstoreReset := 2900 }
      accessLists := true, modexpRepriced := true }
  | .london =>
    { r.enable [0x48] with
      bombDelay := 9700000
      gas := { r.gas with sstoreClearRefund := 4800, selfdestructRefund := 0 }
      refundQuotient := 5, baseFee := true, rejectEfCode := true }
  | .arrowGlacier => { r with bombDelay := 10700000 }
  | .grayGlacier => { r with bombDelay := 11400000 }

def ofFork (f : Fork) : Rules := f.upTo.foldl apply frontier

def enables (r : Rules) (op : UInt8) : Bool := r.opcodes.getLsbD op.toNat

def isPrecompile (r : Rules) (a : Address) : Bool := 1 ≤ a.toNat && a.toNat ≤ r.precompileCount

def precompiles (r : Rules) : List Address :=
  (List.range r.precompileCount).map fun i => Address.ofNumber (i + 1)

def supportsType (r : Rules) (type : Nat) : Bool :=
  match type with
  | 0 => true
  | 1 => r.accessLists
  | 2 => r.baseFee
  | _ => false

def isAtLeast (r : Rules) (f : Fork) : Bool := f ≤ r.fork

end Rules

end StateTransition
