import StateTransition.Bytes
import StateTransition.Quoted

/-! Hexadecimal text of byte strings. Reading names the first fault it meets;
writing always uses lower-case digits after `0x`. -/
namespace StateTransition

inductive HexError where
  | oddLength
  | invalidCharacter (byte : UInt8) (position : Nat)
  deriving DecidableEq, Repr

namespace Hex

def digitChar (n : Nat) : Char := Nat.digitChar (n % 16)

/-- The value of an ASCII hexadecimal digit of either case. -/
def digit? (b : UInt8) : Option UInt8 :=
  if 0x30 ≤ b ∧ b ≤ 0x39 then some (b - 0x30)
  else if 0x61 ≤ b ∧ b ≤ 0x66 then some (b - 0x61 + 10)
  else if 0x41 ≤ b ∧ b ≤ 0x46 then some (b - 0x41 + 10)
  else none

/-- The digits of the bytes, two for each, after `rest` which is held in reverse. -/
private def digitsOnto : Bytes → List Char → List Char
  | [], acc => acc
  | b :: rest, acc =>
    digitsOnto rest (digitChar b.toNat :: digitChar (b.toNat / 16) :: acc)

def digits (bs : Bytes) : String := String.ofList (digitsOnto bs []).reverse

def encode (bs : Bytes) : String := "0x" ++ digits bs

def ofNat (n : Nat) : String := "0x" ++ String.ofList (Nat.toDigits 16 n)

def stripMark (s : String) : String :=
  match s.toList with
  | '0' :: 'x' :: rest => String.ofList rest
  | _ => s

/-- Reads the digits pair by pair; `acc` holds the bytes read so far in reverse. -/
private def decodePairs : Bytes → (position : Nat) → (acc : Bytes) → Except HexError Bytes
  | high :: low :: rest, position, acc =>
    match digit? high, digit? low with
    | some h, some l => decodePairs rest (position + 2) ((h * 16 + l) :: acc)
    | none, _ => .error (.invalidCharacter high position)
    | some _, none => .error (.invalidCharacter low (position + 1))
  | _, _, acc => .ok acc.reverse

def decodeDigits (s : String) : Except HexError Bytes :=
  let text := bytesOfBuffer s.toUTF8
  if text.length % 2 = 1 then .error .oddLength else decodePairs text 0 []

def decode (s : String) : Except HexError Bytes := decodeDigits (stripMark s)

def quotedByte (b : UInt8) : String := quoteChar (Char.ofNat b.toNat)

/-! ### Reading what was written -/

def pair (b : UInt8) : List Char := [digitChar (b.toNat / 16), digitChar b.toNat]

def digitByte (n : Nat) : UInt8 := (digitChar n).toNat.toUInt8

private theorem digitsOnto_eq (bs : Bytes) (acc : List Char) :
    digitsOnto bs acc = (bs.flatMap pair).reverse ++ acc := by
  induction bs generalizing acc with
  | nil => rfl
  | cons b bs ih => simp [digitsOnto, ih, pair]

theorem toList_digits (bs : Bytes) : (digits bs).toList = bs.flatMap pair := by
  simp [digits, digitsOnto_eq]

private theorem utf8EncodeChar_digitChar (n : Nat) : String.utf8EncodeChar (digitChar n) = [digitByte n] := by
  have h : ∀ m : Fin 16, String.utf8EncodeChar (Nat.digitChar m) = [(Nat.digitChar m).toNat.toUInt8] := by decide
  exact h ⟨n % 16, Nat.mod_lt n (by decide)⟩

private theorem digit?_digitByte (n : Nat) : digit? (digitByte n) = some (n % 16).toUInt8 := by
  have h : ∀ m : Fin 16, digit? (Nat.digitChar m).toNat.toUInt8 = some m.val.toUInt8 := by decide
  exact h ⟨n % 16, Nat.mod_lt n (by decide)⟩

private theorem bytesOfBuffer_digits (bs : Bytes) :
    bytesOfBuffer (digits bs).toUTF8 = bs.flatMap fun b => [digitByte (b.toNat / 16), digitByte b.toNat] := by
  have hdigits : digits bs = String.ofList (bs.flatMap pair) := by rw [← toList_digits, String.ofList_toList]
  simp [hdigits, bytesOfBuffer, List.utf8Encode, List.flatMap_assoc, pair, utf8EncodeChar_digitChar]

theorem length_bytesOfBuffer_digits (bs : Bytes) : (bytesOfBuffer (digits bs).toUTF8).length = 2 * bs.length := by
  rw [bytesOfBuffer_digits]
  simp [List.map_const', Nat.mul_comm]

private theorem decodePairs_flatMap (bs acc : Bytes) (position : Nat) :
    decodePairs (bs.flatMap fun b => [digitByte (b.toNat / 16), digitByte b.toNat]) position acc =
      .ok (acc.reverse ++ bs) := by
  induction bs generalizing position acc with
  | nil => simp [decodePairs]
  | cons b bs ih =>
    have hb : (b.toNat / 16 % 16).toUInt8 * 16 + (b.toNat % 16).toUInt8 = b := by
      apply UInt8.toNat_inj.mp
      have := b.toNat_lt
      simp
      omega
    simp [decodePairs, digit?_digitByte, hb, ih]

theorem decodeDigits_digits (bs : Bytes) : decodeDigits (digits bs) = .ok bs := by
  have heven : ¬(bytesOfBuffer (digits bs).toUTF8).length % 2 = 1 := by
    rw [length_bytesOfBuffer_digits]
    omega
  simp only [decodeDigits]
  rw [if_neg heven, bytesOfBuffer_digits, decodePairs_flatMap]
  rfl

end Hex

def HexError.message : HexError → String
  | .oddLength => "Odd number of digits"
  | .invalidCharacter b position =>
    s!"Invalid character {Hex.quotedByte b} at position {position}"

instance : ToString HexError := ⟨HexError.message⟩

end StateTransition
