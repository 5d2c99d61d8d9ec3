import StateTransition.Curve.Bn128

/-! The pairing check: lines through multiples of a point of the first group, evaluated at a
point of the second one, multiply to an element whose final power is one or not. -/
namespace StateTransition

namespace Bn128

/-- An element of the target field, a polynomial in `w` with `w⁶ = 9 + i`. -/
structure Target where
  (c0 c1 c2 c3 c4 c5 : Quadratic)
  deriving DecidableEq

namespace Target

def one : Target := ⟨.one, .zero, .zero, .zero, .zero, .zero⟩

def mul (a b : Target) : Target :=
  let sum (xs : List (Quadratic × Quadratic)) : Quadratic :=
    xs.foldl (fun t (x, y) => t.add (x.mul y)) .zero
  let fold (low high : Quadratic) : Quadratic := low.add (nonResidue.mul high)
  { c0 := fold (a.c0.mul b.c0)
      (sum [(a.c1, b.c5), (a.c2, b.c4), (a.c3, b.c3), (a.c4, b.c2), (a.c5, b.c1)])
    c1 := fold (sum [(a.c0, b.c1), (a.c1, b.c0)])
      (sum [(a.c2, b.c5), (a.c3, b.c4), (a.c4, b.c3), (a.c5, b.c2)])
    c2 := fold (sum [(a.c0, b.c2), (a.c1, b.c1), (a.c2, b.c0)])
      (sum [(a.c3, b.c5), (a.c4, b.c4), (a.c5, b.c3)])
    c3 := fold (sum [(a.c0, b.c3), (a.c1, b.c2), (a.c2, b.c1), (a.c3, b.c0)])
      (sum [(a.c4, b.c5), (a.c5, b.c4)])
    c4 := fold (sum [(a.c0, b.c4), (a.c1, b.c3), (a.c2, b.c2), (a.c3, b.c1), (a.c4, b.c0)])
      (a.c5.mul b.c5)
    c5 := sum [(a.c0, b.c5), (a.c1, b.c4), (a.c2, b.c3), (a.c3, b.c2), (a.c4, b.c1), (a.c5, b.c0)] }

/-- The image under `w ↦ -w`, which is the power by the sixth power of the prime. -/
def conjugate (a : Target) : Target :=
  { a with c1 := Quadratic.zero.sub a.c1, c3 := Quadratic.zero.sub a.c3, c5 := Quadratic.zero.sub a.c5 }

def pow (a : Target) (k : Nat) : Target :=
  (List.range (bitLength k)).reverse.foldl
    (fun acc i => if k.testBit i then (acc.mul acc).mul a else acc.mul acc) one

end Target

/-- The line of slope `l` through `(x, y)`, at the point of the second group that is sent to
`(qx · w², qy · w³)`. -/
def line (l x y : Base) (qx qy : Quadratic) : Target :=
  { c0 := ⟨(l.mul x).sub y, .ofNat _ 0⟩, c1 := .zero
    c2 := Quadratic.zero.sub (qx.scale l), c3 := qy, c4 := .zero, c5 := .zero }

/-- Doubles `t`, and gives the tangent at `t` if it is not vertical. -/
def tangentStep (t : Curve.Affine Base) (qx qy : Quadratic) : Curve.Affine Base × Target :=
  match t with
  | none => (none, .one)
  | some (x, y) =>
    if y.val = 0 then (none, .one)
    else
      let xx := x.mul x
      let l := (xx.add (xx.add xx)).mul (y.add y).inv
      let x' := ((l.mul l).sub x).sub x
      (some (x', (l.mul (x.sub x')).sub y), line l x y qx qy)

/-- Adds `(px, py)` to `t`, and gives the chord if it is not vertical. -/
def chordStep (t : Curve.Affine Base) (px py : Base) (qx qy : Quadratic) :
    Curve.Affine Base × Target :=
  match t with
  | none => (some (px, py), .one)
  | some (x, y) =>
    if x = px then
      if y = py then tangentStep t qx qy else (none, .one)
    else
      let l := (y.sub py).mul (x.sub px).inv
      let x' := ((l.mul l).sub x).sub px
      (some (x', (l.mul (px.sub x')).sub py), line l px py qx qy)

/-- The product of the lines on the way from a point of the first group to its multiple by the
order. Vertical lines are left out: the final power sends them to one. -/
def lineProduct (px py : Base) (qx qy : Quadratic) : Target :=
  ((List.range (bitLength order - 1)).reverse.foldl
    (fun (t, f) i =>
      let (t, g) := tangentStep t qx qy
      let f := (Target.mul f f).mul g
      if order.testBit i then
        let (t, g) := chordStep t px py qx qy
        (t, f.mul g)
      else (t, f))
    ((some (px, py), Target.one) : Curve.Affine Base × Target)).2

/-- What is left of the final power after the part that divides by the conjugate. -/
def finalExponent : Nat := (Nat.pow fieldPrime 6 + 1) / order

def isTrivial (f : Target) : Bool :=
  let g := f.pow finalExponent
  g.conjugate = g

def pairingProductIsOne (pairs : List (Curve.Affine Base × Curve.Affine Quadratic)) : Bool :=
  isTrivial <| pairs.foldl
    (fun f pair =>
      match pair with
      | (some (px, py), some (qx, qy)) => f.mul (lineProduct px py qx qy)
      | _ => f)
    .one

def pairSize : Nat := 192

def pairing (request : ByteArray) : Except RequestError Bool := do
  if request.size % pairSize ≠ 0 then throw (.invalidInputLength request.size)
  let pairs ← (List.range (request.size / pairSize)).mapM fun i => do
    let p ← pointAt request (i * pairSize)
    let q ← twistPointAt request (i * pairSize + 64)
    return (p, q)
  return pairingProductIsOne pairs

end Bn128

end StateTransition
