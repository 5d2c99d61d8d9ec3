import StateTransition.Rlp.Item

/-! Reading of length-prefixed trees, which refuses every byte string that is not the one
encoding of a tree. -/
namespace StateTransition

namespace Rlp

inductive Error where
  | unexpectedEnd
  | trailingBytes (count : Nat)
  | nonCanonicalSingleByte
  | nonCanonicalLength
  | leadingZero
  | integerOverflow (length : Nat)
  | expectedBytes
  | expectedList
  | listLength (expected got : Nat)
  | fixedLength (expected got : Nat)
  | unsupportedType (byte : UInt8)
  | wrappedLegacyTransaction
  deriving DecidableEq, Repr

def Error.message : Error → String
  | .unexpectedEnd => "unexpected end of input"
  | .trailingBytes count => s!"{count} trailing bytes after rlp item"
  | .nonCanonicalSingleByte => "non-canonical single byte encoding"
  | .nonCanonicalLength => "non-canonical length prefix"
  | .leadingZero => "integer has leading zero bytes"
  | .integerOverflow length => s!"integer overflow: {length} bytes"
  | .expectedBytes => "expected byte string, found list"
  | .expectedList => "expected list, found byte string"
  | .listLength expected got => s!"expected list of {expected} items, got {got}"
  | .fixedLength expected got => s!"expected {expected} bytes, got {got}"
  | .unsupportedType byte => "unsupported transaction type " ++
      "0x" ++ String.ofList [Nat.digitChar (byte.toNat / 16), Nat.digitChar (byte.toNat % 16)]
  | .wrappedLegacyTransaction => "legacy transaction wrapped in a byte string"

instance : ToString Error := ⟨Error.message⟩

/-- What an item's first bytes announce. -/
structure Opening where
  isList : Bool
  /-- The bytes before the payload. -/
  size : Nat
  /-- The bytes of the payload. -/
  length : Nat
  deriving DecidableEq, Repr

/-- A payload length written in the first `count` bytes. -/
def readLength (count : Nat) (bs : Bytes) : Except Error Nat :=
  let digits := bs.take count
  if digits.length < count then .error .unexpectedEnd
  else if digits.head? = some 0 then .error .nonCanonicalLength
  else if Bytes.toNat digits < 56 then .error .nonCanonicalLength
  else .ok (Bytes.toNat digits)

def readOpening : Bytes → Except Error Opening
  | [] => .error .unexpectedEnd
  | first :: rest =>
    let n := first.toNat
    if n < 0x80 then .ok ⟨false, 0, 1⟩
    else if n = 0x81 then
      match rest with
      | [] => .error .unexpectedEnd
      | b :: _ => if b < 0x80 then .error .nonCanonicalSingleByte else .ok ⟨false, 1, 1⟩
    else if n < 0xb8 then .ok ⟨false, 1, n - 0x80⟩
    else if n < 0xc0 then
      (readLength (n - 0xb7) rest).map fun length => ⟨false, 1 + (n - 0xb7), length⟩
    else if n < 0xf8 then .ok ⟨true, 1, n - 0xc0⟩
    else (readLength (n - 0xf7) rest).map fun length => ⟨true, 1 + (n - 0xf7), length⟩

structure Split where
  isList : Bool
  payload : Bytes
  rest : Bytes

def split (bs : Bytes) : Except Error Split :=
  match readOpening bs with
  | .error e => .error e
  | .ok o =>
    let body := bs.drop o.size
    let payload := body.take o.length
    if payload.length = o.length then .ok ⟨o.isList, payload, body.drop o.length⟩
    else .error .unexpectedEnd

/-- An opening takes at least one byte, or announces a payload of one byte that is no list. -/
private theorem readOpening_pos {bs : Bytes} {o : Opening} (h : readOpening bs = .ok o) :
    bs ≠ [] ∧ (0 < o.size ∨ (o.isList = false ∧ o.length = 1)) := by
  cases bs with
  | nil => simp [readOpening] at h
  | cons first rest =>
    refine ⟨by simp, ?_⟩
    simp only [readOpening] at h
    split at h
    · cases h; simp
    · split at h
      · split at h
        · cases h
        · split at h <;> cases h
          simp
      · split at h
        · cases h; simp
        · split at h
          · cases hr : readLength (first.toNat - 0xb7) rest <;> rw [hr] at h <;> cases h
            left; simp only; omega
          · split at h
            · cases h; simp
            · cases hr : readLength (first.toNat - 0xf7) rest <;> rw [hr] at h <;> cases h
              left; simp only; omega

/-- What follows an item is shorter than the whole, and so is a list's payload. -/
theorem split_length {bs : Bytes} {s : Split} (h : split bs = .ok s) :
    s.rest.length < bs.length ∧ (s.isList = true → s.payload.length < bs.length) := by
  unfold split at h
  cases ho : readOpening bs with
  | error e => rw [ho] at h; cases h
  | ok o =>
    rw [ho] at h
    have hpos := readOpening_pos ho
    have hne : 0 < bs.length := List.length_pos_iff.2 hpos.1
    simp only at h
    split at h
    · cases h
      rename_i hlen
      simp only [List.length_take, List.length_drop] at hlen ⊢
      constructor
      · rcases hpos.2 with h1 | ⟨_, h2⟩ <;> omega
      · intro hl
        rcases hpos.2 with h1 | ⟨h2, _⟩
        · omega
        · rw [h2] at hl; cases hl
    · cases h

set_option linter.unusedVariables false in
def decodeAll (bs : Bytes) : Except Error (List Item) :=
  if bs = [] then .ok []
  else
    match h : split bs with
    | .error e => .error e
    | .ok s =>
      if hl : s.isList = true then
        match decodeAll s.payload with
        | .error e => .error e
        | .ok items =>
          match decodeAll s.rest with
          | .error e => .error e
          | .ok rest => .ok (.list items :: rest)
      else
        match decodeAll s.rest with
        | .error e => .error e
        | .ok rest => .ok (.bytes s.payload :: rest)
termination_by bs.length
decreasing_by
  · exact (split_length h).2 hl
  · exact (split_length h).1
  · exact (split_length h).1

namespace Item

def decodeFirst (bs : Bytes) : Except Error (Item × Bytes) :=
  match split bs with
  | .error e => .error e
  | .ok s =>
    if s.isList then
      match decodeAll s.payload with
      | .error e => .error e
      | .ok items => .ok (.list items, s.rest)
    else .ok (.bytes s.payload, s.rest)

def decodePrefix (bs : Bytes) : Except Error (Item × Nat) :=
  (decodeFirst bs).map fun (item, rest) => (item, bs.length - rest.length)

def decode (bs : Bytes) : Except Error Item :=
  match decodeFirst bs with
  | .error e => .error e
  | .ok (item, []) => .ok item
  | .ok (_, rest) => .error (.trailingBytes rest.length)

end Item

end Rlp

end StateTransition
