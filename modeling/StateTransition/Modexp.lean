import StateTransition.Word

/-! Modular exponentiation on byte strings. -/
namespace StateTransition

/-- The power of `base` to `exponent`, left-padded to the length of `modulus`; zeros for a
modulus of zero. -/
def modexp (base exponent modulus : ByteArray) : ByteArray :=
  let m := natOfBuffer modulus
  if m = 0 then zeroBytes modulus.size
  else bufferOfNat modulus.size (powMod (natOfBuffer base) (natOfBuffer exponent) m)

end StateTransition
