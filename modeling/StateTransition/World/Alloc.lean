import StateTransition.World.Basic
import StateTransition.Json.Basic
import StateTransition.Json.Record
import StateTransition.Quantity

/-! Allocations: the accounts that a world starts from, or ends with, as documents of JSON. -/
namespace StateTransition

structure Allotment where
  balance : Word
  nonce : UInt64
  code : Bytes
  storage : Std.ExtTreeMap Hash Word

abbrev Alloc := Std.ExtTreeMap Address Allotment

namespace Alloc

inductive TextFault where
  | address (cause : AddressError)
  | tooManyDigits (count : Nat)
  | wordDigit (byte : UInt8) (position : Nat)
  | wordLength
  | countDigit
  | countTooLarge
  | bytes (cause : HexError)
  deriving DecidableEq, Repr

def TextFault.message : TextFault → String
  | .address cause => cause.message
  | .tooManyDigits n => s!"quantity too large: {n} hex digits"
  | .wordDigit b position =>
    "FromStrRadixErr \x7b kind: InvalidCharacter, source: Some(Hex(FromHexError \x7b inner: " ++
      s!"InvalidHexCharacter \x7b c: {Hex.quotedByte b}, index: {position} \x7d \x7d)) \x7d"
  | .wordLength =>
    "FromStrRadixErr \x7b kind: InvalidLength, source: Some(Hex(FromHexError \x7b inner: " ++
      "InvalidStringLength \x7d)) \x7d"
  | .countDigit => "invalid digit found in string"
  | .countTooLarge => "number too large to fit in target type"
  | .bytes cause => cause.message

/-- A word as text: `0x` and whole bytes, at least one. -/
def writeWord (w : Word) : String := if w = 0 then "0x00" else Hex.encode w.toBytesTrimmed

/-- The word of at most 64 digits after one or two optional `0x`. A zero is put before an odd number
of digits. -/
def readWord (s : String) : Except TextFault Word :=
  let digits := Hex.stripMark s
  if 64 < digits.utf8ByteSize then .error (.tooManyDigits digits.utf8ByteSize)
  else
    let digits := Hex.stripMark digits
    let digits := if digits.utf8ByteSize % 2 = 0 then digits else "0" ++ digits
    match Hex.decodeDigits digits with
    | .ok bs => .ok (BitVec.ofNat 256 (Bytes.toNat bs))
    | .error (.invalidCharacter b position) => .error (.wordDigit b position)
    | .error .oddLength => .error .wordLength

def writeCount (n : UInt64) : String := Hex.ofNat n.toNat

def countOnto : (n : Nat) → List Char → Except TextFault Nat
  | n, [] => .ok n
  | n, c :: rest =>
    match Quantity.hexDigit? c with
    | none => .error .countDigit
    | some d =>
      if n * 16 + d < countLimit then countOnto (n * 16 + d) rest else .error .countTooLarge

/-- The 64-bit number of a text with or without `0x`, which a `+` may follow; nothing at all means
zero. -/
def readCount (s : String) : Except TextFault UInt64 :=
  match (Hex.stripMark s).toList with
  | [] => .ok 0
  | ['+'] => .error .countDigit
  | '+' :: digits => (countOnto 0 digits).map Nat.toUInt64
  | digits => (countOnto 0 digits).map Nat.toUInt64

def writeBytes (bs : Bytes) : String := Hex.encode bs

def readBytes (s : String) : Except TextFault Bytes := (Hex.decode s).mapError .bytes

def readAddress (s : String) : Except TextFault Address := (Address.parse s).mapError .address

def spelled {α : Type} (read : String → Except TextFault α) (s : String) : Except String α :=
  (read s).mapError TextFault.message

def textReader {α : Type} (read : String → Except TextFault α) : Json.Reader α := do
  Json.Reader.spelled (spelled read) (← Json.Reader.text)

def storageReader : Json.Reader (Std.ExtTreeMap Hash Word) :=
  Json.Reader.map (spelled readWord) (textReader readWord) (fun slots k v => slots.insert k v) ∅

def allotmentReader : Json.Reader Allotment :=
  Json.Reader.record "AllocAccount"
    [⟨"balance", fun a => return { a with balance := ← textReader readWord }⟩,
      ⟨"nonce", fun a => return { a with nonce := ← textReader readCount }⟩,
      ⟨"code", fun a => return { a with code := ← textReader readBytes }⟩,
      ⟨"storage", fun a => return { a with storage := ← storageReader }⟩]
    { balance := 0, nonce := 0, code := [], storage := ∅ }

def reader : Json.Reader Alloc :=
  Json.Reader.map (spelled readAddress) allotmentReader (fun alloc a r => alloc.insert a r) ∅

def parse (text : String) : Except Json.Fault Alloc := reader.run text

def allotmentToJson (a : Allotment) : Json :=
  .object
    [("balance", .string (writeWord a.balance)), ("nonce", .string (writeCount a.nonce)),
      ("code", .string (writeBytes a.code)),
      ("storage", .object (a.storage.toList.map fun (key, value) =>
        (writeWord key, .string (writeWord value))))]

def toJson (alloc : Alloc) : Json :=
  .object (alloc.toList.map fun (address, a) => (address.toHex, allotmentToJson a))

end Alloc

namespace World

def allot (a : Address) (allotment : Allotment) (w : World) : World :=
  let w := (w.setBalance a allotment.balance).setNonce a allotment.nonce
  let w := if allotment.code.isEmpty then w else w.setCode a allotment.code.toByteArray
  allotment.storage.toList.foldl (fun w (key, value) => w.setSlot a key value) w

/-- The world of an allocation. Slots that are zero are left out. -/
def ofAlloc (alloc : Alloc) : World :=
  (alloc.toList.foldl (fun w (a, allotment) => w.allot a allotment) empty).beginTransaction

def toAlloc (w : World) : Alloc :=
  w.accounts.toList.foldl (fun alloc (a, r) =>
    alloc.insert a
      { balance := r.balance, nonce := r.nonce, code := bytesOfBuffer (w.code a)
        storage := w.slots a }) ∅

end World

end StateTransition
