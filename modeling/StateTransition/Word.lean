import StateTransition.Bytes

/-! The 256-bit machine word with its signed, modular and bitwise operations.
Division by zero, shifts past the width and byte positions past the word are total. -/
namespace StateTransition

/-- A 256-bit word; signed operations read it in two's complement. -/
abbrev Word := BitVec 256

/-- A word of twice the width, for sums and products that are reduced afterwards. -/
abbrev DoubleWord := BitVec 512

def maxWord : Word := BitVec.allOnes 256

/-- The number of words, two to the power 256. -/
def wordLimit : Nat := 0x10000000000000000000000000000000000000000000000000000000000000000

/-- The number of 64-bit counts, two to the power 64. -/
def countLimit : Nat := 0x10000000000000000

def maxCount : Nat := countLimit - 1

/-- Square-and-multiply with the product so far in `acc`. -/
def powModLoop (base exponent modulus acc : Nat) : Nat :=
  if exponent = 0 then acc
  else
    powModLoop (base * base % modulus) (exponent / 2) modulus
      (if exponent % 2 = 1 then acc * base % modulus else acc)
termination_by exponent
decreasing_by omega

/-- `base ^ exponent % modulus` without the intermediate power. -/
def powMod (base exponent modulus : Nat) : Nat :=
  powModLoop (base % modulus) exponent modulus (1 % modulus)

namespace Word

def toBytes (w : Word) : Bytes := Bytes.ofNatPadded 32 w.toNat

def toBytesTrimmed (w : Word) : Bytes := Bytes.ofNat w.toNat

/-- The word of a byte string, modulo `2 ^ 256`. -/
def ofBytes (bs : Bytes) : Word := BitVec.ofNat 256 (Bytes.toNat bs)

def ofBool (b : Bool) : Word := if b then 1 else 0

def toCount? (w : Word) : Option Nat := if w.toNat < countLimit then some w.toNat else none

def toCountSaturating (w : Word) : Nat := min w.toNat maxCount

def isNegative (w : Word) : Bool := w.getLsbD 255

/-- The word of the opposite number; that of the least number is its own. -/
def opposite (w : Word) : Word := ~~~w + 1

def magnitude (w : Word) : Word := if w.isNegative then w.opposite else w

/-- Signed quotient truncated toward zero; zero when the divisor is zero. -/
def sdiv (a b : Word) : Word :=
  if b = 0 then 0
  else
    let quotient : Word := a.magnitude / b.magnitude
    if a.isNegative ≠ b.isNegative then quotient.opposite else quotient

/-- Signed remainder with the sign of the dividend; zero when the divisor is zero. -/
def smod (a b : Word) : Word :=
  if b = 0 then 0
  else
    let remainder : Word := a.magnitude % b.magnitude
    if a.isNegative then remainder.opposite else remainder

/-- Words of one sign compare as they do without it. -/
def slt (a b : Word) : Bool :=
  match a.isNegative, b.isNegative with
  | true, false => true
  | false, true => false
  | _, _ => a < b

def div (a b : Word) : Word := if b = 0 then 0 else a / b

def mod (a b : Word) : Word := if b = 0 then 0 else a % b

/-- The word of the same value, zero if there is none. -/
def narrow (v : DoubleWord) : Word := if v.toNat < wordLimit then v.setWidth 256 else 0

/-- The sum modulo `n` without losing the carry; zero when `n` is zero. -/
def addmod (a b n : Word) : Word :=
  if n = 0 then 0 else narrow ((a.setWidth 512 + b.setWidth 512) % n.setWidth 512)

/-- The product modulo `n` without losing high digits; zero when `n` is zero. -/
def mulmod (a b n : Word) : Word :=
  if n = 0 then 0 else narrow (a.setWidth 512 * b.setWidth 512 % n.setWidth 512)

def exp (base exponent : Word) : Word :=
  BitVec.ofNat 256 (powMod base.toNat exponent.toNat wordLimit)

/-- Repeats the sign bit of byte `b`, counted from the least significant, upwards. -/
def signextend (b x : Word) : Word :=
  if 31 ≤ b.toNat then x
  else
    let bit := 8 * b.toNat + 7
    let mask : Word := ((1 : Word) <<< bit) - 1
    if x.getLsbD bit then x ||| ~~~mask else x &&& mask

/-- Byte `i` counted from the most significant, zero past the word. -/
def byte (i x : Word) : Word :=
  if i.toNat < 32 then (x >>> (8 * (31 - i.toNat))) &&& 0xff else 0

def shl (shift value : Word) : Word :=
  if shift.toNat < 256 then value <<< shift.toNat else 0

def shr (shift value : Word) : Word :=
  if shift.toNat < 256 then value >>> shift.toNat else 0

/-- A shift to the right that fills up with the sign. -/
def sar (shift value : Word) : Word :=
  if 256 ≤ shift.toNat then if value.isNegative then maxWord else 0
  else
    let shifted : Word := value >>> shift.toNat
    if value.isNegative && decide (0 < shift.toNat) then shifted ||| (maxWord <<< (256 - shift.toNat))
    else shifted

def add? (a b : Word) : Option Word :=
  if a.toNat + b.toNat < wordLimit then some (a + b) else none

def sub? (a b : Word) : Option Word := if b ≤ a then some (a - b) else none

def mul? (a b : Word) : Option Word :=
  if a.toNat * b.toNat < wordLimit then some (a * b) else none

def larger (a b : Word) : Word := if a ≤ b then b else a

def ofNatSaturating (n : Nat) : Word := BitVec.ofNat 256 (min n (wordLimit - 1))

def addSaturating (a b : Word) : Word := ofNatSaturating (a.toNat + b.toNat)

def subSaturating (a b : Word) : Word := if b ≤ a then a - b else 0

def mulSaturating (a b : Word) : Word := ofNatSaturating (a.toNat * b.toNat)

end Word

end StateTransition
