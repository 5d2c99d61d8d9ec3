import StateTransition.Bytes

/-! The BLAKE2b compression function with a chosen number of rounds, and the 213-byte
request in which a contract states rounds, state, message, offset and final flag. -/
namespace StateTransition

namespace Blake2

/-- The sixteen working words, four rows of four. -/
structure Work where
  (v0 v1 v2 v3 v4 v5 v6 v7 v8 v9 v10 v11 v12 v13 v14 v15 : UInt64)

/-- One column or diagonal of the working words. -/
structure Lane where
  (a b c d : UInt64)

@[inline] def rotateRight (x n : UInt64) : UInt64 := (x >>> n) ||| (x <<< (64 - n))

@[inline] def mix (l : Lane) (x y : UInt64) : Lane :=
  let a := l.a + l.b + x
  let d := rotateRight (l.d ^^^ a) 32
  let c := l.c + d
  let b := rotateRight (l.b ^^^ c) 24
  let a := a + b + y
  let d := rotateRight (d ^^^ a) 16
  let c := c + d
  let b := rotateRight (b ^^^ c) 63
  ⟨a, b, c, d⟩

/-- The orders in which ten successive rounds take the message words. -/
def orders : Array (Array Nat) :=
  #[#[0, 1, 2, 3, 4, 5, 6, 7, 8, 9, 10, 11, 12, 13, 14, 15],
    #[14, 10, 4, 8, 9, 15, 13, 6, 1, 12, 0, 2, 11, 7, 5, 3],
    #[11, 8, 12, 0, 5, 2, 15, 13, 10, 14, 3, 6, 7, 1, 9, 4],
    #[7, 9, 3, 1, 13, 12, 11, 14, 2, 6, 5, 10, 4, 0, 15, 8],
    #[9, 0, 5, 7, 2, 4, 10, 15, 14, 1, 11, 12, 6, 8, 3, 13],
    #[2, 12, 6, 10, 0, 11, 8, 3, 4, 13, 7, 5, 15, 14, 1, 9],
    #[12, 5, 1, 15, 14, 13, 4, 10, 0, 7, 6, 3, 9, 2, 8, 11],
    #[13, 11, 7, 14, 12, 1, 3, 9, 5, 0, 15, 4, 8, 6, 2, 10],
    #[6, 15, 14, 9, 11, 3, 0, 8, 12, 2, 13, 7, 1, 4, 10, 5],
    #[10, 2, 8, 4, 7, 6, 1, 5, 15, 11, 9, 14, 3, 12, 13, 0]]

def round (m : Array UInt64) (order : Array Nat) (v : Work) : Work :=
  let word (i : Nat) : UInt64 := m.getD (order.getD i 0) 0
  let p := mix ⟨v.v0, v.v4, v.v8, v.v12⟩ (word 0) (word 1)
  let q := mix ⟨v.v1, v.v5, v.v9, v.v13⟩ (word 2) (word 3)
  let r := mix ⟨v.v2, v.v6, v.v10, v.v14⟩ (word 4) (word 5)
  let s := mix ⟨v.v3, v.v7, v.v11, v.v15⟩ (word 6) (word 7)
  let w := mix ⟨p.a, q.b, r.c, s.d⟩ (word 8) (word 9)
  let x := mix ⟨q.a, r.b, s.c, p.d⟩ (word 10) (word 11)
  let y := mix ⟨r.a, s.b, p.c, q.d⟩ (word 12) (word 13)
  let z := mix ⟨s.a, p.b, q.c, r.d⟩ (word 14) (word 15)
  ⟨w.a, x.a, y.a, z.a, z.b, w.b, x.b, y.b, y.c, z.c, w.c, x.c, x.d, y.d, z.d, w.d⟩

def rounds (m : Array UInt64) : (count : Nat) → (index : Nat) → Work → Work
  | 0, _, v => v
  | k + 1, index, v => rounds m k (index + 1) (round m (orders.getD (index % 10) #[]) v)

def compress (count : Nat) (h m : Array UInt64) (low high : UInt64) (final : Bool) : List UInt64 :=
  let h (i : Nat) : UInt64 := h.getD i 0
  let v := rounds m count 0
    ⟨h 0, h 1, h 2, h 3, h 4, h 5, h 6, h 7,
      0x6a09e667f3bcc908, 0xbb67ae8584caa73b, 0x3c6ef372fe94f82b, 0xa54ff53a5f1d36f1,
      0x510e527fade682d1 ^^^ low, 0x9b05688c2b3e6c1f ^^^ high,
      if final then ~~~0x1f83d9abfb41bd6b else 0x1f83d9abfb41bd6b, 0x5be0cd19137e2179⟩
  [h 0 ^^^ v.v0 ^^^ v.v8, h 1 ^^^ v.v1 ^^^ v.v9, h 2 ^^^ v.v2 ^^^ v.v10, h 3 ^^^ v.v3 ^^^ v.v11,
    h 4 ^^^ v.v4 ^^^ v.v12, h 5 ^^^ v.v5 ^^^ v.v13, h 6 ^^^ v.v6 ^^^ v.v14, h 7 ^^^ v.v7 ^^^ v.v15]

inductive RequestError where
  | invalidInputLength (got : Nat)
  | invalidFinalFlag (flag : UInt8)
  deriving DecidableEq, Repr

def RequestError.message : RequestError → String
  | .invalidInputLength got => s!"invalid input length: {got}"
  | .invalidFinalFlag flag => s!"invalid blake2 final block flag: {flag.toNat}"

instance : ToString RequestError := ⟨RequestError.message⟩

def requestSize : Nat := 213

def wordAt (data : ByteArray) (offset : Nat) : UInt64 :=
  (Bytes.toNat (bytesOfBuffer (data.extract offset (offset + 8))).reverse).toUInt64

def requestedRounds (request : ByteArray) : Except RequestError Nat :=
  if request.size = requestSize then .ok (natOfBuffer (request.extract 0 4))
  else .error (.invalidInputLength request.size)

def finalFlag (request : ByteArray) : Except RequestError Bool :=
  match natOfBuffer (request.extract 212 213) with
  | 0 => .ok false
  | 1 => .ok true
  | flag => .error (.invalidFinalFlag flag.toUInt8)

def evaluate (request : ByteArray) : Except RequestError ByteArray := do
  let count ← requestedRounds request
  let final ← finalFlag request
  let h := (Array.range 8).map fun i => wordAt request (4 + 8 * i)
  let m := (Array.range 16).map fun i => wordAt request (68 + 8 * i)
  let result := compress count h m (wordAt request 196) (wordAt request 204) final
  return (result.flatMap fun w => (Bytes.ofNatPadded 8 w.toNat).reverse).toByteArray

end Blake2

end StateTransition
