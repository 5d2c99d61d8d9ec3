import StateTransition.Bytes

/-! Trees of byte strings and their length-prefixed encoding. Each tree has one encoding:
lengths are written in the fewest bytes and a small single byte stands for itself. -/
namespace StateTransition

namespace Rlp

inductive Item where
  | bytes (bs : Bytes)
  | list (items : List Item)
  deriving Repr

/-- What opens a payload of `length` bytes; `base` tells byte strings from lists. -/
def opening (base length : Nat) : Bytes :=
  if length < 56 then [(base + length).toUInt8]
  else (base + 55 + byteLength length).toUInt8 :: Bytes.ofNat length

def encodeBytes (bs : Bytes) : Bytes :=
  match bs with
  | [b] => if b < 0x80 then [b] else [0x81, b]
  | _ => opening 0x80 bs.length ++ bs

def encodeList (payload : Bytes) : Bytes := opening 0xc0 payload.length ++ payload

namespace Item

def isList : Item → Bool
  | bytes _ => false
  | list _ => true

mutual

def encode : Item → Bytes
  | bytes bs => encodeBytes bs
  | list items => encodeList (encodeAll items)

def encodeAll : List Item → Bytes
  | [] => []
  | item :: rest => encode item ++ encodeAll rest

end

end Item

end Rlp

end StateTransition
