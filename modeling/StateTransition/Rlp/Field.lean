import StateTransition.Rlp.Decode
import StateTransition.Address

/-! The forms of value that records are made of, as items: numbers without leading zeros,
byte strings of a fixed width, and lists. -/
namespace StateTransition

namespace Rlp

namespace Item

def ofNat (n : Nat) : Item := .bytes (Bytes.ofNat n)

def ofCount (n : UInt64) : Item := ofNat n.toNat

def ofWord (w : Word) : Item := .bytes w.toBytesTrimmed

def ofAddress (a : Address) : Item := .bytes a.toBytes

def ofHash (h : Hash) : Item := .bytes h.toBytes

/-- An address, or the empty byte string in its absence. -/
def ofAddress? : Option Address → Item
  | none => .bytes []
  | some a => ofAddress a

def toBytes : Item → Except Error Bytes
  | .bytes bs => .ok bs
  | .list _ => .error .expectedBytes

def toList : Item → Except Error (List Item)
  | .list items => .ok items
  | .bytes _ => .error .expectedList

def toListOf (length : Nat) (item : Item) : Except Error (List Item) := do
  let items ← item.toList
  if items.length = length then return items else throw (.listLength length items.length)

/-- The digits of a number of at most `width` bytes. -/
def toDigits (width : Nat) (item : Item) : Except Error Bytes := do
  let bs ← item.toBytes
  if bs.head? = some 0 then throw .leadingZero
  if width < bs.length then throw (.integerOverflow bs.length)
  return bs

def toCount (item : Item) : Except Error UInt64 :=
  return (Bytes.toNat (← item.toDigits 8)).toUInt64

def toWord (item : Item) : Except Error Word := return Word.ofBytes (← item.toDigits 32)

def toFixed (width : Nat) (item : Item) : Except Error Bytes := do
  let bs ← item.toBytes
  if bs.length = width then return bs else throw (.fixedLength width bs.length)

def toAddress (item : Item) : Except Error Address :=
  return BitVec.ofNat 160 (Bytes.toNat (← item.toFixed 20))

def toHash (item : Item) : Except Error Hash :=
  return BitVec.ofNat 256 (Bytes.toNat (← item.toFixed 32))

def toAddress? (item : Item) : Except Error (Option Address) := do
  if (← item.toBytes).isEmpty then return none else return some (← item.toAddress)

def toListWith {α : Type} (f : Item → Except Error α) (item : Item) : Except Error (List α) := do
  (← item.toList).mapM f

end Item

end Rlp

end StateTransition
