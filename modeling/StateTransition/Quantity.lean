import StateTransition.Hex
import StateTransition.Word

/-! Numbers as text: hexadecimal after `0x`, where nothing at all means zero, or decimal. -/
namespace StateTransition

namespace Quantity

def hexDigit? (c : Char) : Option Nat :=
  if '0' ≤ c ∧ c ≤ '9' then some (c.toNat - '0'.toNat)
  else if 'a' ≤ c ∧ c ≤ 'f' then some (c.toNat - 'a'.toNat + 10)
  else if 'A' ≤ c ∧ c ≤ 'F' then some (c.toNat - 'A'.toNat + 10)
  else none

def decDigit? (c : Char) : Option Nat :=
  if '0' ≤ c ∧ c ≤ '9' then some (c.toNat - '0'.toNat) else none

def ofDigits? (base : Nat) (digit? : Char → Option Nat) (cs : List Char) : Option Nat :=
  cs.foldlM (fun n c => (digit? c).map (n * base + ·)) 0

/-- A word of at most 64 hexadecimal digits, after one more optional `0x`. -/
def parseHexWord (digits : List Char) : Option Word :=
  let digits := match digits with
    | '0' :: 'x' :: rest => rest
    | cs => cs
  if (String.ofList digits).utf8ByteSize ≤ 64 then
    (ofDigits? 16 hexDigit? digits).map (BitVec.ofNat 256)
  else none

def parseDecWord (digits : List Char) : Option Word := do
  let n ← ofDigits? 10 decDigit? digits
  if n < wordLimit then some (BitVec.ofNat 256 n) else none

/-- A word as a quantity: hexadecimal after `0x`, else decimal. -/
def parse (s : String) : Option Word :=
  match s.toList with
  | '0' :: 'x' :: digits => parseHexWord digits
  | digits => parseDecWord digits

end Quantity

namespace Word

def toHex (w : Word) : String := Hex.ofNat w.toNat

end Word

end StateTransition
