import StateTransition.Curve.Jacobian
import StateTransition.Hash.Keccak
import StateTransition.Hash.Sha256

/-! Recoverable signatures on secp256k1: nonces drawn from the key and the digest, low `s`
on signing, and recovery that reads a high-`s` signature as its low-`s` twin. -/
namespace StateTransition

namespace Secp256k1

def fieldPrime : Nat := 0xfffffffffffffffffffffffffffffffffffffffffffffffffffffffefffffc2f

/-- The number of points, the modulus of scalars. -/
def order : Nat := 0xfffffffffffffffffffffffffffffffebaaedce6af48a03bbfd25e8cd0364141

def halfOrder : Nat := 0x7fffffffffffffffffffffffffffffff5d576e7357a4501ddfe92f46681b20a0

abbrev Coordinate := Residue fieldPrime

def constant : Coordinate := .ofNat _ 7

def generator : Curve.Jacobian Coordinate := .ofAffine <| some
  (.ofNat _ 0x79be667ef9dcbbac55a06295ce870b07029bfcdb2dce28d959f2815b16f81798,
   .ofNat _ 0x483ada7726a3c4655da4fbfc0e1108a8fd17b448a68554199c47d08ffb10d4b8)

/-- A public key, a point that is not at infinity. -/
structure PublicKey where
  x : Coordinate
  y : Coordinate
  deriving DecidableEq

def PublicKey.coordinates (k : PublicKey) : Bytes :=
  Bytes.ofNatPadded 32 k.x.val ++ Bytes.ofNatPadded 32 k.y.val

def PublicKey.uncompressed (k : PublicKey) : Bytes := 4 :: k.coordinates

def PublicKey.address (k : PublicKey) : Address := Address.ofHash (keccak k.coordinates)

def PublicKey.ofPoint? (p : Curve.Jacobian Coordinate) : Option PublicKey :=
  p.toAffine.map fun (x, y) => ⟨x, y⟩

/-- A signature with the parity `v` of the nonce point's second coordinate. -/
structure Signature where
  r : Word
  s : Word
  v : UInt8
  deriving DecidableEq

namespace Signature

/-- Both scalars are positive and below the order. Numbers of 32 bytes compare as their bytes do. -/
def hasValidScalars (sig : Signature) : Bool :=
  let zero := Bytes.ofNatPadded 32 0
  let bound := Bytes.ofNatPadded 32 order
  sig.r.toBytes ≠ zero && sig.s.toBytes ≠ zero && decide (sig.r.toBytes < bound) && decide (sig.s.toBytes < bound)

def isLowS (sig : Signature) : Bool := sig.s.toBytes ≤ Bytes.ofNatPadded 32 halfOrder

end Signature

/-- Subtraction of two digit strings with the least significant byte first. A difference below zero wraps around to more
than a byte holds, and borrows from the next one. -/
def subtractDigits : Bytes → Bytes → (borrow : UInt16) → Bytes
  | a :: as, b :: bs, borrow =>
    let difference := a.toUInt16 - b.toUInt16 - borrow
    difference.toUInt8 :: subtractDigits as bs (if 255 < difference then 1 else 0)
  | _, _, _ => []

/-- The order less a scalar, byte by byte. -/
def subtractFromOrder (s : Bytes) : Bytes :=
  (subtractDigits (Bytes.ofNatPadded 32 order).reverse s.reverse 0).reverse

/-- The signature of the same message under the other `s`. -/
def Signature.twin (sig : Signature) : Signature :=
  { r := sig.r, s := Word.ofBytes (subtractFromOrder sig.s.toBytes), v := sig.v ^^^ 1 }

inductive SignatureError where
  | invalidRecoveryId (v : UInt8)
  | invalidSignature
  | recoveryFailed
  deriving DecidableEq, Repr

def SignatureError.message : SignatureError → String
  | .invalidRecoveryId v => s!"invalid recovery id: {v.toNat}"
  | .invalidSignature => "invalid signature: r or s out of range"
  | .recoveryFailed => "public key recovery failed: signature error"

instance : ToString SignatureError := ⟨SignatureError.message⟩

/-- The point with first coordinate `x` and a second coordinate of the given parity. -/
def liftX? (x : Nat) (odd : Bool) : Option (Curve.Jacobian Coordinate) := do
  let x : Coordinate := .ofNat _ x
  let y ← ((x.mul x).mul x).add constant |>.sqrt?
  let y := if decide (y.val % 2 = 1) = odd then y else (Residue.ofNat _ 0).sub y
  return .ofAffine (some (x, y))

/-- The key under which the low-`s` signature of `digest` verifies. -/
def recoverLow? (digest : Hash) (sig : Signature) : Option PublicKey := do
  let nonce ← liftX? sig.r.toNat (sig.v = 1)
  let i := (Residue.ofNat order sig.r.toNat).inv
  let z := (Residue.ofNat order 0).sub (.ofNat order digest.toNat)
  let left := nonce.mul (i.mul (.ofNat order sig.s.toNat)).val
  let right := generator.mul (i.mul z).val
  PublicKey.ofPoint? (left.add right)

/-- The key that signed `digest`, found by a way to recover it from signatures with a low `s`. -/
def recoverBy {Key : Type} (low : Hash → Signature → Except SignatureError Key) (digest : Hash) (sig : Signature) :
    Except SignatureError Key :=
  if 1 < sig.v then .error (.invalidRecoveryId sig.v)
  else if !sig.hasValidScalars then .error .invalidSignature
  else low digest (if sig.isLowS then sig else sig.twin)

def recover : Hash → Signature → Except SignatureError PublicKey :=
  recoverBy fun digest sig =>
    match recoverLow? digest sig with
    | some key => .ok key
    | none => .error .recoveryFailed

def recoverAddress (digest : Hash) (sig : Signature) : Except SignatureError Address :=
  (recover digest sig).map PublicKey.address

structure PrivateKey where
  secret : Nat
  pos : 0 < secret
  lt_order : secret < order

/-- The private key of 32 bytes, unless they spell zero or at least the order. -/
def PrivateKey.ofWord? (w : Word) : Option PrivateKey :=
  if h : 0 < w.toNat ∧ w.toNat < order then some ⟨w.toNat, h.1, h.2⟩ else none

def PrivateKey.publicKey? (k : PrivateKey) : Option PublicKey :=
  PublicKey.ofPoint? (generator.mul k.secret)

structure Drbg where
  key : ByteArray
  value : ByteArray

namespace Drbg

def mix (d : Drbg) (marker : UInt8) (seed : ByteArray) : Drbg :=
  let key := hmacSha256 d.key (d.value ++ ByteArray.mk #[marker] ++ seed)
  ⟨key, hmacSha256 key d.value⟩

def ofSeed (secret : Nat) (digest : Hash) : Drbg :=
  let seed := bufferOfNat 32 secret ++ bufferOfNat 32 digest.toNat
  let start : Drbg := ⟨zeroBytes 32, ByteArray.mk (Array.replicate 32 1)⟩
  (start.mix 0 seed).mix 1 seed

/-- The next 32 bytes as a number, and the generator after them. -/
def next (d : Drbg) : Nat × Drbg :=
  let value := hmacSha256 d.key d.value
  (natOfBuffer value, (Drbg.mk d.key value).mix 0 ByteArray.empty)

end Drbg

/-- The first candidate that is a scalar other than zero, among `tries` of them. -/
def drawNonce : (tries : Nat) → Drbg → Option Nat
  | 0, _ => none
  | k + 1, d =>
    let (candidate, rest) := d.next
    if 0 < candidate ∧ candidate < order then some candidate else drawNonce k rest

/-- The candidates for a nonce that are looked at; one in `2 ^ 128` is refused. -/
def nonceTries : Nat := 64

/-- The signature of `digest` with a low `s` and the parity of the nonce point. -/
def sign? (digest : Hash) (key : PrivateKey) : Option Signature := do
  let nonce ← drawNonce nonceTries (.ofSeed key.secret digest)
  let (x, y) ← (generator.mul nonce).toAffine
  let r := Residue.ofNat order x.val
  let s := (Residue.ofNat order nonce).inv.mul ((Residue.ofNat order digest.toNat).add
    (r.mul (.ofNat order key.secret)))
  if r.val = 0 ∨ s.val = 0 then none
  let sig : Signature :=
    { r := BitVec.ofNat 256 r.val, s := BitVec.ofNat 256 s.val, v := (y.val % 2).toUInt8 }
  return if sig.isLowS then sig else sig.twin

end Secp256k1

end StateTransition
