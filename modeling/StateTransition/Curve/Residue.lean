import StateTransition.Word

/-! Arithmetic modulo a prime. Inverses and square roots are powers, so that zero has
inverse zero and a non-square has a root of something else. -/
namespace StateTransition

/-- A residue class modulo `m`, kept as its least representative. -/
structure Residue (m : Nat) where
  val : Nat
  deriving DecidableEq

namespace Residue

variable {m : Nat}

def ofNat (m n : Nat) : Residue m := ⟨n % m⟩

def add (a b : Residue m) : Residue m := ⟨(a.val + b.val) % m⟩

def sub (a b : Residue m) : Residue m := ⟨(a.val + (m - b.val)) % m⟩

def mul (a b : Residue m) : Residue m := ⟨a.val * b.val % m⟩

def pow (a : Residue m) (n : Nat) : Residue m := ⟨powMod a.val n m⟩

/-- The inverse for a prime modulus; zero for zero. -/
def inv (a : Residue m) : Residue m := a.pow (m - 2)

/-- A square root for a prime modulus that is three more than a multiple of four. -/
def sqrt? (a : Residue m) : Option (Residue m) :=
  let root := a.pow ((m + 1) / 4)
  if root.mul root = a then some root else none

end Residue

class CurveField (F : Type) where
  zero : F
  one : F
  add : F → F → F
  sub : F → F → F
  mul : F → F → F
  inv : F → F
  decEq : DecidableEq F

instance (m : Nat) : CurveField (Residue m) where
  zero := .ofNat m 0
  one := .ofNat m 1
  add := .add
  sub := .sub
  mul := .mul
  inv := .inv
  decEq := inferInstance

end StateTransition
