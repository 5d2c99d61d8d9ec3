import StateTransition.Curve.Pairing
import StateTransition.Curve.Secp256k1
import StateTransition.Hash.Ripemd160
import StateTransition.Machine.Basic
import StateTransition.Modexp

/-! The built-in contracts. Each has a price, which its input may refuse to have, and then a
result. -/
namespace StateTransition.Precompile

def wordAt (request : ByteArray) (offset : Nat) : Word :=
  BitVec.ofNat 256 (natOfBuffer (readPadded request offset 32))

/-- The account that signed a digest, left-padded to a word; nothing for a signature that no
account could have made. -/
def recoverSigner (request : ByteArray) : ByteArray :=
  let v := (wordAt request 32).toNat
  let sig : Secp256k1.Signature :=
    { r := wordAt request 64, s := wordAt request 96, v := (v - 27).toUInt8 }
  if (v = 27 || v = 28) && sig.hasValidScalars then
    match Secp256k1.recoverAddress (wordAt request 0) sig with
    | .ok a => bufferOfNat 32 a.toNat
    | .error _ => ByteArray.empty
  else ByteArray.empty

/-- What a modular power asks for: the lengths of its operands and the leading word of the
exponent. -/
structure PowerRequest where
  baseLength : Word
  exponentLength : Word
  modulusLength : Word
  exponentHead : Word
  deriving DecidableEq, Repr

namespace PowerRequest

def ofRequest (request : ByteArray) : PowerRequest :=
  let baseLength := wordAt request 0
  let exponentLength := wordAt request 32
  { baseLength
    exponentLength
    modulusLength := wordAt request 64
    exponentHead := BitVec.ofNat 256 <| natOfBuffer <|
      readPadded request (96 + baseLength.toNat) (min exponentLength.toNat 32) }

/-- The squarings that an exponent takes, at least one. -/
def iterations (p : PowerRequest) : Word :=
  let head : Word := BitVec.ofNat 256 (bitLength p.exponentHead.toNat - 1)
  let all :=
    if p.exponentLength ≤ 32 then head
    else ((8 : Word).mulSaturating (p.exponentLength - 32)).addSaturating head
  all.larger 1

def oldComplexity (length : Word) : Word :=
  let square := length.mulSaturating length
  if length ≤ 64 then square
  else if length ≤ 1024 then square / 4 + length * 96 - 3072
  else ((square / 16).addSaturating (length.mulSaturating 480)).subSaturating 199680

def newComplexity (length : Word) : Word :=
  let words := (length.addSaturating 7) / 8
  words.mulSaturating words

def price (repriced : Bool) (p : PowerRequest) : Nat :=
  let length := p.baseLength.larger p.modulusLength
  let price :=
    if repriced then ((newComplexity length).mulSaturating p.iterations / 3).larger 200
    else (oldComplexity length).mulSaturating p.iterations / 20
  price.toCountSaturating

end PowerRequest

/-- A part of a request that continues with zeros, where a buffer can hold it. -/
def operand (request : ByteArray) (offset size : Nat) : Except Stop ByteArray :=
  if size < bufferLimit then .ok (readPadded request offset size)
  else .error (.fault .bufferOverflow)

def power (request : ByteArray) : Except Stop ByteArray := do
  let p := PowerRequest.ofRequest request
  if p.baseLength = 0 && p.modulusLength = 0 then return ByteArray.empty
  match p.baseLength.toCount?, p.exponentLength.toCount?, p.modulusLength.toCount? with
  | some b, some e, some m =>
    let base ← operand request 96 b
    let exponent ← operand request (96 + b) e
    let modulus ← operand request (96 + b + e) m
    return modexp base exponent modulus
  | _, _, _ => throw (.failure (.halt .outOfGas))

def ofCurve {α : Type} : Except Bn128.RequestError α → Except Halt α
  | .ok a => .ok a
  | .error cause => .error (.precompile (.curve cause))

def ofBlake {α : Type} : Except Blake2.RequestError α → Except Halt α
  | .ok a => .ok a
  | .error cause => .error (.precompile (.blake cause))

def price (rules : Rules) (index : UInt8) (request : ByteArray) : Except Halt Nat :=
  match index with
  | 1 => .ok 3000
  | 2 => .ok (60 + 12 * wordCount request.size)
  | 3 => .ok (600 + 120 * wordCount request.size)
  | 4 => .ok (15 + 3 * wordCount request.size)
  | 5 => .ok ((PowerRequest.ofRequest request).price rules.modexpRepriced)
  | 6 => .ok rules.gas.bnAdd
  | 7 => .ok rules.gas.bnMul
  | 8 =>
    .ok <| Gas.addSaturating rules.gas.bnPairingBase <|
      Gas.mulSaturating rules.gas.bnPairingPerPair (request.size / Bn128.pairSize)
  | 9 => ofBlake (Blake2.requestedRounds request)
  | _ => .error (.precompile (.unknown index))

def orHalt {α : Type} (x : Except Halt α) : Except Stop α :=
  x.mapError fun cause => .failure (.halt cause)

def evaluate (index : UInt8) (request : ByteArray) : Except Stop ByteArray :=
  match index with
  | 1 => .ok (recoverSigner request)
  | 2 => .ok (sha256 request)
  | 3 => .ok (zeroBytes 12 ++ ripemd160 request)
  | 4 => .ok request
  | 5 => power request
  | 6 => orHalt (ofCurve (Bn128.add request))
  | 7 => orHalt (ofCurve (Bn128.mul request))
  | 8 => orHalt <| ofCurve <| (Bn128.pairing request).map fun b => bufferOfNat 32 b.toNat
  | 9 => orHalt (ofBlake (Blake2.evaluate request))
  | _ => .error (.failure (.halt (.precompile (.unknown index))))

def conclude : Except Stop ByteArray → MachineM Unit
  | .error stop => throw stop
  | .ok output => MachineM.modifyFrame fun f => { f with output, running := false }

def run (rules : Rules) (index : UInt8) : MachineM Unit := do
  let request := (← MachineM.frame).message.data
  match price rules index request with
  | .error cause => MachineM.halt cause
  | .ok amount =>
    MachineM.charge amount
    conclude (evaluate index request)

end StateTransition.Precompile
