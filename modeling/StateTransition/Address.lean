import StateTransition.Hex
import StateTransition.Word

/-! Account addresses and 32-byte hashes as fixed-width numbers, whose order is the order
of their bytes, and their textual forms. -/
namespace StateTransition

/-- A 20-byte account identifier. -/
abbrev Address := BitVec 160

/-- A 32-byte digest, also the name of a storage slot. -/
abbrev Hash := BitVec 256

inductive AddressError where
  | invalidHex (cause : HexError)
  | invalidLength (got : Nat)
  deriving DecidableEq, Repr

inductive HashError where
  | invalidHex (cause : HexError)
  | invalidLength (got : Nat)
  deriving DecidableEq, Repr

def AddressError.message : AddressError → String
  | .invalidHex cause => "invalid hex string: " ++ cause.message
  | .invalidLength got => s!"invalid address length: expected 20 bytes, got {got}"

instance : ToString AddressError := ⟨AddressError.message⟩

def HashError.message : HashError → String
  | .invalidHex cause => "invalid hex string: " ++ cause.message
  | .invalidLength got => s!"invalid hash length: expected 32 bytes, got {got}"

instance : ToString HashError := ⟨HashError.message⟩

namespace Address

def ofWord (w : Word) : Address := w.setWidth 160

def ofHash (h : Hash) : Address := h.setWidth 160

/-- The address whose number is `n`, as the built-in contracts have. -/
def ofNumber (n : Nat) : Address := BitVec.ofNat 160 n

def toWord (a : Address) : Word := a.setWidth 256

def toBytes (a : Address) : Bytes := Bytes.ofNatPadded 20 a.toNat

def ofBytes? (bs : Bytes) : Option Address :=
  if bs.length = 20 then some (BitVec.ofNat 160 (Bytes.toNat bs)) else none

def toHex (a : Address) : String := Hex.encode (toBytes a)

def parse (s : String) : Except AddressError Address :=
  match Hex.decode s with
  | .error cause => .error (.invalidHex cause)
  | .ok bs =>
    match ofBytes? bs with
    | some a => .ok a
    | none => .error (.invalidLength bs.length)

end Address

namespace Hash

def toBytes (h : Hash) : Bytes := Bytes.ofNatPadded 32 h.toNat

def ofBytes? (bs : Bytes) : Option Hash :=
  if bs.length = 32 then some (BitVec.ofNat 256 (Bytes.toNat bs)) else none

def toHex (h : Hash) : String := Hex.encode (toBytes h)

def parse (s : String) : Except HashError Hash :=
  match Hex.decode s with
  | .error cause => .error (.invalidHex cause)
  | .ok bs =>
    match ofBytes? bs with
    | some h => .ok h
    | none => .error (.invalidLength bs.length)

end Hash

end StateTransition
