import StateTransition.Curve.Jacobian

/-! The pairing-friendly curve `y² = x³ + 3`: its two groups of points, their byte forms
and addition and multiplication on the first group. -/
namespace StateTransition

namespace Bn128

def fieldPrime : Nat := 0x30644e72e131a029b85045b68181585d97816a916871ca8d3c208c16d87cfd47

def order : Nat := 0x30644e72e131a029b85045b68181585d2833e84879b9709143e1f593f0000001

abbrev Base := Residue fieldPrime

/-- A coordinate in the second group, `re + im · i` with `i² = -1`. -/
structure Quadratic where
  re : Base
  im : Base
  deriving DecidableEq

namespace Quadratic

def zero : Quadratic := ⟨.ofNat _ 0, .ofNat _ 0⟩

def one : Quadratic := ⟨.ofNat _ 1, .ofNat _ 0⟩

def add (a b : Quadratic) : Quadratic := ⟨a.re.add b.re, a.im.add b.im⟩

def sub (a b : Quadratic) : Quadratic := ⟨a.re.sub b.re, a.im.sub b.im⟩

def mul (a b : Quadratic) : Quadratic :=
  let rr := a.re.mul b.re
  let ii := a.im.mul b.im
  ⟨rr.sub ii, (((a.re.add a.im).mul (b.re.add b.im)).sub rr).sub ii⟩

def scale (k : Base) (a : Quadratic) : Quadratic := ⟨k.mul a.re, k.mul a.im⟩

/-- The inverse; zero for zero. -/
def inv (a : Quadratic) : Quadratic :=
  let n := ((a.re.mul a.re).add (a.im.mul a.im)).inv
  ⟨a.re.mul n, ((Residue.ofNat _ 0).sub a.im).mul n⟩

end Quadratic

instance : CurveField Quadratic where
  zero := .zero
  one := .one
  add := .add
  sub := .sub
  mul := .mul
  inv := .inv
  decEq := inferInstance

/-- The element `9 + i`, which has no sixth root. -/
def nonResidue : Quadratic := ⟨.ofNat _ 9, .ofNat _ 1⟩

def constant : Base := .ofNat _ 3

def twistConstant : Quadratic := nonResidue.inv.scale constant

inductive RequestError where
  | invalidFieldElement
  | invalidCurvePoint
  | invalidInputLength (got : Nat)
  deriving DecidableEq, Repr

def RequestError.message : RequestError → String
  | .invalidFieldElement => "invalid field element"
  | .invalidCurvePoint => "invalid curve point"
  | .invalidInputLength got => s!"invalid input length: {got}"

instance : ToString RequestError := ⟨RequestError.message⟩

def numberAt (data : ByteArray) (offset : Nat) : Nat := natOfBuffer (readPadded data offset 32)

def coordinateAt (data : ByteArray) (offset : Nat) : Except RequestError Base :=
  let n := numberAt data offset
  if n < fieldPrime then .ok (.ofNat _ n) else .error .invalidFieldElement

/-- The point of the first group at `offset`; two zeros stand for infinity. -/
def pointAt (data : ByteArray) (offset : Nat) : Except RequestError (Curve.Affine Base) := do
  let x ← coordinateAt data offset
  let y ← coordinateAt data (offset + 32)
  if x.val = 0 ∧ y.val = 0 then return none
  if Curve.onCurve constant x y then return some (x, y)
  throw .invalidCurvePoint

/-- The point of the second group at `offset`, imaginary parts first. -/
def twistPointAt (data : ByteArray) (offset : Nat) : Except RequestError (Curve.Affine Quadratic) := do
  let xi ← coordinateAt data offset
  let xr ← coordinateAt data (offset + 32)
  let yi ← coordinateAt data (offset + 64)
  let yr ← coordinateAt data (offset + 96)
  let x : Quadratic := ⟨xr, xi⟩
  let y : Quadratic := ⟨yr, yi⟩
  if x = .zero ∧ y = .zero then return none
  let point := Curve.Jacobian.ofAffine (some (x, y))
  if Curve.onCurve twistConstant x y && (point.mul order).isInfinity then return some (x, y)
  throw .invalidCurvePoint

def pointBytes (p : Curve.Jacobian Base) : ByteArray :=
  match p.toAffine with
  | none => zeroBytes 64
  | some (x, y) => bufferOfNat 32 x.val ++ bufferOfNat 32 y.val

def add (request : ByteArray) : Except RequestError ByteArray := do
  let p ← pointAt request 0
  let q ← pointAt request 64
  return pointBytes ((Curve.Jacobian.ofAffine p).add (.ofAffine q))

def mul (request : ByteArray) : Except RequestError ByteArray := do
  let p ← pointAt request 0
  return pointBytes ((Curve.Jacobian.ofAffine p).mul (numberAt request 64))

end Bn128

end StateTransition
