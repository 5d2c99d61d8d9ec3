/-! Binary numbers of 53 significant bits: the nearest one to a decimal number, and the shortest
decimal numeral that is nearest to it. -/
namespace StateTransition

/-- The number `significand * 2 ^ exponent`. Every number but those below the smallest power of two
has 53 bits. -/
structure Double where
  significand : Nat
  exponent : Int
  deriving DecidableEq, Repr

namespace Double

/-- The least significand of 53 bits. -/
def leastNormal : Nat := 0x10000000000000

def leastExponent : Int := -1074

def greatestExponent : Int := 971

/-- The quotient to the nearest whole number; a half goes to the even one. -/
def roundQuotient (a b : Nat) : Nat :=
  let q := a / b
  let r := a % b
  if 2 * r < b ∨ (2 * r = b ∧ q % 2 = 0) then q else q + 1

def roundScaled (a b : Nat) (e : Int) : Nat :=
  if e < 0 then roundQuotient (a <<< (-e).toNat) b else roundQuotient a (b <<< e.toNat)

/-- The nearest number to `a / b`, or none if it is too large. -/
def ofQuotient? (a b : Nat) : Option Double :=
  if a = 0 then some ⟨0, 0⟩
  else
    let guess : Int := Nat.log2 a - Nat.log2 b - 53
    let exponent := if roundScaled a b (guess + 1) < leastNormal then guess else guess + 1
    let exponent := max exponent leastExponent
    let significand := roundScaled a b exponent
    let d : Double :=
      if significand = 2 * leastNormal then ⟨leastNormal, exponent + 1⟩ else ⟨significand, exponent⟩
    if d.exponent ≤ greatestExponent then some d else none

def toFraction (d : Double) : Nat × Nat :=
  if d.exponent < 0 then (d.significand, 1 <<< (-d.exponent).toNat)
  else (d.significand <<< d.exponent.toNat, 1)

def timesTen? (d : Double) (n : Nat) : Option Double := do
  let power ← ofQuotient? (Nat.pow 10 n) 1
  let (a, b) := d.toFraction
  let (x, y) := power.toFraction
  ofQuotient? (a * x) (b * y)

def overTen? (d : Double) (n : Nat) : Option Double := do
  let power ← ofQuotient? (Nat.pow 10 n) 1
  let (a, b) := d.toFraction
  let (x, y) := power.toFraction
  ofQuotient? (a * y) (b * x)

/-- The number `digits * 10 ^ exponent`. Each step is rounded, and a step takes at most 308
places; `steps` bounds their number. -/
def scaleTen? : (steps : Nat) → Double → (exponent : Int) → Option Double
  | 0, d, _ => some d
  | steps + 1, d, exponent =>
    if d.significand = 0 then some d
    else if 308 < exponent then none
    else if 0 ≤ exponent then d.timesTen? exponent.toNat
    else if -308 ≤ exponent then d.overTen? (-exponent).toNat
    else do scaleTen? steps (← d.overTen? 308) (exponent + 308)

def ofDecimal? (digits : Nat) (exponent : Int) : Option Double := do
  scaleTen? 4 (← ofQuotient? digits 1) exponent

/-- Whether a fraction lies where everything is rounded to `d`. -/
def isNearest (d : Double) (x y : Nat) : Bool :=
  let (a, b) := d.toFraction
  let (unit, whole) := (⟨1, d.exponent⟩ : Double).toFraction
  let below := if d.significand = leastNormal ∧ leastExponent < d.exponent then 4 else 2
  let upTo (p q : Nat) : Bool := if d.significand % 2 = 0 then p ≤ q else p < q
  upTo (x * b * whole * 2) (y * (a * whole * 2 + unit * b)) &&
    upTo (y * (a * whole * below)) (x * b * whole * below + y * (unit * b))

/-- The quotient of `a * 10 ^ -e` by `b`, as a fraction. -/
def overGrid (a b : Nat) (e : Int) : Nat × Nat :=
  if e < 0 then (a * Nat.pow 10 (-e).toNat, b) else (a, b * Nat.pow 10 e.toNat)

def decimalFraction (m : Nat) (e : Int) : Nat × Nat :=
  if e < 0 then (m, Nat.pow 10 (-e).toNat) else (m * Nat.pow 10 e.toNat, 1)

/-- Which of the two neighbours of `d` on the grid of `10 ^ e` are rounded to it: the nearer one if
both are, and the even one if they are equally near. -/
def onGrid? (d : Double) (e : Int) : Option Nat :=
  let (a, b) := d.toFraction
  let (x, y) := overGrid a b e
  let low := x / y
  let isHit (m : Nat) : Bool :=
    let (p, q) := decimalFraction m e
    d.isNearest p q
  match isHit low, isHit (low + 1) with
  | true, true => some (roundQuotient x y)
  | true, false => some low
  | false, true => some (low + 1)
  | false, false => none

/-- The shortest decimal number that is rounded to `d`, as its digits and exponent: the coarsest
grid that has one, from `10 ^ e` down. -/
def shortest (d : Double) : (grids : Nat) → (e : Int) → Nat × Int
  | 0, e => (0, e)
  | grids + 1, e =>
    match d.onGrid? e with
    | some m => (m, e)
    | none => shortest d grids (e - 1)

def zeros (count : Int) : String := String.ofList (List.replicate count.toNat '0')

/-- A decimal number as text: positional for moderate sizes, else with an exponent. -/
def writeDecimal (m : Nat) (e : Int) : String :=
  let digits := toString m
  let length : Int := digits.length
  let point := length + e
  let power := (if 0 < point then "e+" else "e") ++ toString (point - 1)
  let cut (n : Int) : String × String :=
    let (l, r) := digits.toList.splitAt n.toNat
    (String.ofList l, String.ofList r)
  if 0 ≤ e ∧ point ≤ 16 then digits ++ zeros e ++ ".0"
  else if 0 < point ∧ point ≤ 16 then (cut point).1 ++ "." ++ (cut point).2
  else if -5 < point ∧ point ≤ 0 then "0." ++ zeros (-point) ++ digits
  else if length = 1 then digits ++ power
  else (cut 1).1 ++ "." ++ (cut 1).2 ++ power

/-- The number as text, in as few digits as tell it from all others. -/
def toText (d : Double) : String :=
  if d.significand = 0 then "0.0"
  else
    let (m, e) := d.shortest 700 309
    writeDecimal m e

end Double

end StateTransition
