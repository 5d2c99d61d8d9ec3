import StateTransition.Curve.Residue

/-! The group of a curve `y² = x³ + b`. Sums are formed in projective coordinates
`(x / z², y / z³)`, where `z = 0` stands for the point at infinity. -/
namespace StateTransition

namespace Curve

/-- A point of the curve; `none` is the point at infinity. -/
abbrev Affine (F : Type) := Option (F × F)

structure Jacobian (F : Type) where
  (x y z : F)

variable {F : Type} [CurveField F]

local instance decEqOfField : DecidableEq F := CurveField.decEq

local instance addOfField : Add F := ⟨CurveField.add⟩

local instance subOfField : Sub F := ⟨CurveField.sub⟩

local instance mulOfField : Mul F := ⟨CurveField.mul⟩

def onCurve (b : F) (x y : F) : Bool := y * y = x * x * x + b

namespace Jacobian

def infinity : Jacobian F := ⟨CurveField.one, CurveField.one, CurveField.zero⟩

def isInfinity (p : Jacobian F) : Bool := p.z = CurveField.zero

def ofAffine : Affine F → Jacobian F
  | none => infinity
  | some (x, y) => ⟨x, y, CurveField.one⟩

def toAffine (p : Jacobian F) : Affine F :=
  if p.isInfinity then none
  else
    let i := CurveField.inv p.z
    let ii := i * i
    some (p.x * ii, p.y * (ii * i))

def double (p : Jacobian F) : Jacobian F :=
  if p.isInfinity || decide (p.y = CurveField.zero) then infinity
  else
    let a := p.x * p.x
    let b := p.y * p.y
    let c := b * b
    let e := p.x * b
    let d := (e + e) + (e + e)
    let m := a + a + a
    let x := m * m - (d + d)
    let c4 := (c + c) + (c + c)
    let yz := p.y * p.z
    ⟨x, m * (d - x) - (c4 + c4), yz + yz⟩

def add (p q : Jacobian F) : Jacobian F :=
  if p.isInfinity then q
  else if q.isInfinity then p
  else
    let pz := p.z * p.z
    let qz := q.z * q.z
    let u := p.x * qz
    let s := p.y * (qz * q.z)
    let h := q.x * pz - u
    let r := q.y * (pz * p.z) - s
    if h = CurveField.zero then
      if r = CurveField.zero then p.double else infinity
    else
      let hh := h * h
      let hhh := hh * h
      let v := u * hh
      let x := r * r - hhh - (v + v)
      ⟨x, r * (v - x) - s * hhh, p.z * q.z * h⟩

def mul (k : Nat) (p : Jacobian F) : Jacobian F :=
  (List.range (bitLength k)).reverse.foldl
    (fun acc i => if k.testBit i then acc.double.add p else acc.double) infinity

end Jacobian

end Curve

end StateTransition
