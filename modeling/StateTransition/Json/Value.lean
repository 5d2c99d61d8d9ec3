import StateTransition.Json.Double
import StateTransition.Json.Reader
import StateTransition.Word

/-! Reading of numbers, and of values that are not wanted or not known. -/
namespace StateTransition

namespace Json

structure Numeral where
  negative : Bool
  whole : List Char
  fraction : List Char
  exponent : Int
  deriving DecidableEq, Repr

namespace Numeral

def digitValue (c : Char) : Nat := c.toNat - 48

def greatestExponent : Nat := 0x7fffffff

/-- The number that digits spell as far as it has 64 bits, and the number of digits after that. -/
def wholeOnto : (n : Nat) → List Char → Nat × Nat
  | n, [] => (n, 0)
  | n, c :: rest =>
    let next := n * 10 + digitValue c
    if next < countLimit then wholeOnto next rest else (n, (c :: rest).length)

/-- More digits after the point, as far as the number has 64 bits; `e` is its exponent. -/
def fractionOnto : (n : Nat) → (e : Int) → List Char → Nat × Int
  | n, e, [] => (n, e)
  | n, e, c :: rest =>
    let next := n * 10 + digitValue c
    if next < countLimit then fractionOnto next (e - 1) rest else (n, e)

/-- A number written as it is shown, or none if it is too large. -/
def double? (negative : Bool) (n : Nat) (e : Int) : Option Found :=
  (Double.ofDecimal? n e).map fun d => .fraction ((if negative then "-" else "") ++ d.toText)

/-- The number that a numeral names: a whole one of 64 bits if it is written as such. -/
def value? (x : Numeral) (isWhole : Bool) : Option Found :=
  let (n, dropped) := wholeOnto 0 x.whole
  if isWhole ∧ dropped = 0 then
    if ¬ x.negative then some (.integer n)
    else if 0 < n ∧ n ≤ 0x8000000000000000 then some (.integer (-n))
    else double? true n 0
  else
    let (n, e) := fractionOnto n dropped x.fraction
    double? x.negative n (e + x.exponent)

end Numeral

namespace Reader

variable {α : Type}

/-- One digit or more; `atEnd` tells of a text that ends before them. -/
def digits (atEnd : Cause) : Reader (List Char) := do
  match ← peek with
  | none => fail atEnd
  | some c => if c.isDigit then takeWhile Char.isDigit else failNext .invalidNumber

/-- Whether the next character is one of the given ones, which is then passed over. -/
def accept (cs : List Char) : Reader Bool := do
  match ← peek with
  | some c =>
    if cs.contains c then
      advance
      return true
    else return false
  | none => return false

/-- Passes over digits, which come next, up to the one that makes an exponent too great; `n` is what
the digits before them spell. -/
def exponentOnto : (n : Nat) → List Char → Reader Nat
  | n, [] => return n
  | n, c :: rest => do
    if Numeral.greatestExponent < n then return n
    advance
    exponentOnto (n * 10 + Numeral.digitValue c) rest

/-- The exponent that one digit or more spell; `atEnd` is as in `digits`. Digits may be left over
if it is too great. -/
def exponent (atEnd : Cause) : Reader Int := do
  let isNegative := (← peek) = some '-'
  let _ ← accept ['+', '-']
  let n ← lookingAhead (digits atEnd) >>= exponentOnto 0
  return if isNegative then -(n : Int) else n

/-- The parts of a numeral, and whether it is no more than digits. A whole part of several digits
does not begin with zero. -/
def numeral (atEnd : Cause) : Reader (Numeral × Bool) := do
  let negative ← accept ['-']
  let whole ← if ← accept ['0'] then
      if (← peek).any Char.isDigit then failNext .invalidNumber
      pure ['0']
    else digits atEnd
  let hasFraction ← accept ['.']
  let fraction ← if hasFraction then digits atEnd else pure []
  let hasExponent ← accept ['e', 'E']
  let exponent ← if hasExponent then exponent atEnd else pure 0
  return (⟨negative, whole, fraction, exponent⟩, !hasFraction && !hasExponent)

/-- The number that comes next. A number that is too large is refused no later than at the digit
that makes its exponent too great; zero and what is rounded to zero are not. -/
def number : Reader Found := do
  let (x, isWhole) ← numeral (.unfinished .value)
  match x.value? isWhole with
  | some n =>
    let _ ← takeWhile Char.isDigit
    return n
  | none => fail .numberOutOfRange

def mismatch (expected : String) : Reader α := located do
  match ← peek with
  | some 'n' =>
    advance
    word ['u', 'l', 'l']
    refuse (.wrongType .null expected)
  | some 't' =>
    advance
    word ['r', 'u', 'e']
    refuse (.wrongType (.boolean true) expected)
  | some 'f' =>
    advance
    word ['a', 'l', 's', 'e']
    refuse (.wrongType (.boolean false) expected)
  | some '"' => refuse (.wrongType (.text (← string)) expected)
  | some '[' => refuse (.wrongType .list expected)
  | some '\x7b' => refuse (.wrongType .object expected)
  | some c =>
    if c = '-' ∨ c.isDigit then refuse (.wrongType (← number) expected) else failNext .valueExpected
  | none => fail .valueExpected

inductive Bracket where
  | list
  | object
  deriving DecidableEq, Repr

def Bracket.closing : Bracket → Char
  | .list => ']'
  | .object => '\x7d'

def skipName : Bracket → Reader Unit
  | .list => return
  | .object => do
    match ← peekToken with
    | some '"' => skipString
    | some _ => failNext .nameExpected
    | none => fail (.unfinished .object)
    colon

def skipScalar (c : Char) : Reader Unit := do
  match c with
  | 'n' =>
    advance
    word ['u', 'l', 'l']
  | 't' =>
    advance
    word ['r', 'u', 'e']
  | 'f' =>
    advance
    word ['a', 'l', 's', 'e']
  | '"' => skipString
  | c =>
    if c = '-' ∨ c.isDigit then
      let _ ← numeral .invalidNumber
      let _ ← takeWhile Char.isDigit
    else failNext .valueExpected

/-- How a value stands to the cursor. -/
inductive Skipping where
  | before
  | after

/-- Passes over the rest of a value, which is open in the given brackets, innermost first; `fuel`
bounds its length. -/
def skipFrom : (fuel : Nat) → Skipping → List Bracket → Reader Unit
  | 0, _, _ => fail (.unfinished .value)
  | _ + 1, .after, [] => return
  | fuel + 1, .after, b :: outer => do
    match ← peekToken with
    | some ',' =>
      advance
      skipName b
      skipFrom fuel .before (b :: outer)
    | some c =>
      if c = b.closing then
        advance
        skipFrom fuel .after outer
      else failNext (if b = .list then .listCommaOrEndExpected else .objectCommaOrEndExpected)
    | none => fail (.unfinished (if b = .list then .list else .object))
  | fuel + 1, .before, outer => do
    match ← peekToken with
    | none => fail (.unfinished .value)
    | some c =>
      let bracket := if c = '[' then some Bracket.list else if c = '\x7b' then some .object else none
      match bracket with
      | none =>
        skipScalar c
        skipFrom fuel .after outer
      | some b =>
        advance
        match ← peekToken with
        | none => fail (.unfinished (if b = .list then .list else .object))
        | some d =>
          if d = b.closing then
            advance
            skipFrom fuel .after outer
          else
            skipName b
            skipFrom fuel .before (b :: outer)

def skip : Reader Unit := do
  skipFrom ((← get).rest.length + 2) .before []

end Reader

end Json

end StateTransition
