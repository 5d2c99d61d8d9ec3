import StateTransition.Json.Value

/-! Reading of texts, counts, maps and records. A map lets the last of several equal names win. A
record may also be written as a list of its first fields, and passes over fields that it does not
know. -/
namespace StateTransition

namespace Json

namespace Reader

variable {α σ : Type}

def text : Reader String := do
  match ← peekToken with
  | none => fail (.unfinished .value)
  | some '"' => string
  | some _ => mismatch "a string"

def spelled (read : String → Except String α) (s : String) : Reader α :=
  match read s with
  | .ok a => return a
  | .error reason => refuse (.refused reason)

def count : Reader Nat := do
  match ← peekToken with
  | none => fail (.unfinished .value)
  | some c =>
    if c = '-' ∨ c.isDigit then
      located do
        match ← number with
        | .integer n =>
          if 0 ≤ n then return n.toNat else refuse (.wrongValue (.integer n) "u64")
        | found => refuse (.wrongType found "u64")
    else mismatch "u64"

def optional (r : Reader α) : Reader (Option α) := do
  match ← peekToken with
  | some 'n' =>
    advance
    word ['u', 'l', 'l']
    return none
  | _ => return some (← r)

/-- The members of an object, one after another; `fuel` bounds their number. -/
def members (step : σ → Reader σ) : (fuel : Nat) → (isFirst : Bool) → σ → Reader σ
  | 0, _, s => return s
  | fuel + 1, isFirst, s => do
    if ← hasMember isFirst then members step fuel false (← step s) else return s

def object (step : σ → Reader σ) (s : σ) : Reader σ :=
  enclosed (do members step ((← get).rest.length + 1) true s) endObject

def map {κ : Type} (key : String → Except String κ) (value : Reader α) (insert : σ → κ → α → σ)
    (s : σ) : Reader σ := do
  let step (s : σ) : Reader σ := do
    let k ← spelled key (← string)
    colon
    return insert s k (← value)
  match ← peekToken with
  | none => fail (.unfinished .value)
  | some '\x7b' => object step s
  | some _ => mismatch "a map"

structure Field (σ : Type) where
  name : String
  read : σ → Reader σ

/-- The fields of a record that is written as a list. -/
def items : List (Field σ) → (isFirst : Bool) → σ → Reader σ
  | [], _, s => return s
  | f :: fields, isFirst, s => do
    if ← hasItem isFirst then items fields false (← f.read s) else return s

/-- A member of a record, and the names of the fields so far. -/
def member (fields : List (Field σ)) (s : σ × List String) : Reader (σ × List String) := do
  let name ← string
  match fields.find? (·.name = name) with
  | none =>
    colon
    skip
    return s
  | some f =>
    if s.2.contains name then refuse (.repeatedField name)
    colon
    return (← f.read s.1, name :: s.2)

def record (type : String) (fields : List (Field σ)) (s : σ) : Reader σ := do
  match ← peekToken with
  | none => fail (.unfinished .value)
  | some '[' => enclosed (items fields true s) endList
  | some '\x7b' => return (← object (member fields) (s, [])).1
  | some _ => mismatch ("struct " ++ type)

end Reader

end Json

end StateTransition
