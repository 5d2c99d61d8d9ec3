import StateTransition.Json.Fault

/-! Reading of a text from left to right: blanks, words, strings and the brackets around lists and
objects. Places are counted in bytes. -/
namespace StateTransition

namespace Json

/-- The text that is still to be read, and the number of bytes before it. -/
structure Cursor where
  rest : List Char
  offset : Nat
  deriving DecidableEq, Repr

/-- Why reading stops, and where. The place of a value that is refused is found later. -/
structure Stop where
  cause : Cause
  offset? : Option Nat
  deriving DecidableEq, Repr

abbrev Reader := EStateM Stop Cursor

def isBlank (c : Char) : Bool := c = ' ' || c = '\n' || c = '\t' || c = '\r'

def byteCount (cs : List Char) : Nat := cs.foldl (fun n c => n + c.utf8Size) 0

namespace Cursor

def ofText (text : String) : Cursor := ⟨text.toList, 0⟩

def drop (c : Cursor) (n : Nat) : Cursor :=
  ⟨c.rest.drop n, c.offset + byteCount (c.rest.take n)⟩

def dropWhile (c : Cursor) (test : Char → Bool) : Cursor :=
  c.drop (c.rest.takeWhile test).length

end Cursor

namespace Reader

variable {α : Type}

def fail (cause : Cause) : Reader α := fun c => .error ⟨cause, some c.offset⟩ c

/-- Stops after the byte that comes next. -/
def failNext (cause : Cause) : Reader α := fun c =>
  .error ⟨cause, some (if c.rest.isEmpty then c.offset else c.offset + 1)⟩ c

def refuse (cause : Cause) : Reader α := throw ⟨cause, none⟩

/-- Lets a refusal inside take place where the cursor ends up. -/
def located (r : Reader α) : Reader α := fun c =>
  match r c with
  | .error stop c => .error { stop with offset? := stop.offset? <|> some c.offset } c
  | result => result

def peek : Reader (Option Char) := return (← get).rest.head?

def advance : Reader Unit := modify (·.drop 1)

/-- Passes over blanks; then the next character. -/
def peekToken : Reader (Option Char) := do
  modify (·.dropWhile isBlank)
  peek

def takeWhile (test : Char → Bool) : Reader (List Char) := do
  let found := (← get).rest.takeWhile test
  modify (·.drop found.length)
  return found

/-- What comes next, which is not passed over. -/
def lookingAhead (r : Reader α) : Reader α := do
  let start ← get
  let found ← r
  set start
  return found

def word : List Char → Reader Unit
  | [] => return
  | c :: cs => do
    match ← peek with
    | none => fail (.unfinished .value)
    | some d =>
      if c = d then
        advance
        word cs
      else failNext .wordExpected

def hexValue? (c : Char) : Option Nat :=
  if '0' ≤ c ∧ c ≤ '9' then some (c.toNat - 48)
  else if 'a' ≤ c ∧ c ≤ 'f' then some (c.toNat - 87)
  else if 'A' ≤ c ∧ c ≤ 'F' then some (c.toNat - 55)
  else none

def codeUnit : Reader Nat := fun c =>
  let digits := c.rest.take 4
  let size := byteCount digits
  if size < 4 then .error ⟨.unfinished .string, some (c.offset + size)⟩ (c.drop 4)
  else
    match digits.mapM hexValue? with
    | some values => .ok (values.foldl (fun n value => n * 16 + value) 0) (c.drop 4)
    | none => .error ⟨.invalidEscape, some (c.offset + 4)⟩ (c.drop 4)

/-- Passes over a character that a surrogate cannot be without. -/
def surrogateMark (mark : Char) : Reader Unit := do
  match ← peek with
  | none => fail (.unfinished .string)
  | some c => if c = mark then advance else failNext .surrogateExpected

/-- The character of a code unit and, if it is the first of a pair, of the one that follows. -/
def codePoint : Reader Char := do
  let high ← codeUnit
  if high < 0xd800 ∨ 0xdfff < high then return Char.ofNat high
  if 0xdc00 ≤ high then fail .loneSurrogate
  surrogateMark '\\'
  surrogateMark 'u'
  let low ← codeUnit
  if low < 0xdc00 ∨ 0xdfff < low then fail .loneSurrogate
  return Char.ofNat (0x10000 + (high - 0xd800) * 0x400 + (low - 0xdc00))

/-- The character that a letter after a backslash stands for. -/
def escapeOf? (c : Char) : Option Char :=
  match c with
  | '"' => some '"'
  | '\\' => some '\\'
  | '/' => some '/'
  | 'b' => some (Char.ofNat 8)
  | 'f' => some (Char.ofNat 12)
  | 'n' => some '\n'
  | 'r' => some '\r'
  | 't' => some '\t'
  | _ => none

/-- What follows a backslash; `unit` reads what follows a `u`. -/
def escape (unit : Reader Char) : Reader Char := do
  match ← peek with
  | none => fail (.unfinished .string)
  | some 'u' =>
    advance
    unit
  | some c =>
    match escapeOf? c with
    | some d =>
      advance
      return d
    | none => failNext .invalidEscape

/-- The rest of a string after its opening quote; `fuel` bounds its length. -/
def stringOnto : (fuel : Nat) → (acc : List Char) → Reader String
  | 0, _ => fail (.unfinished .string)
  | fuel + 1, acc => do
    match ← peek with
    | none => fail (.unfinished .string)
    | some '"' =>
      advance
      return String.ofList acc.reverse
    | some '\\' =>
      advance
      stringOnto fuel ((← escape codePoint) :: acc)
    | some c =>
      if c.toNat < 32 then failNext .controlCharacter
      else
        advance
        stringOnto fuel (c :: acc)

def string : Reader String := do
  advance
  stringOnto ((← get).rest.length + 1) []

def skipStringFrom : (fuel : Nat) → Reader Unit
  | 0 => fail (.unfinished .string)
  | fuel + 1 => do
    match ← peek with
    | none => fail (.unfinished .string)
    | some '"' => advance
    | some '\\' =>
      advance
      let _ ← escape (Char.ofNat <$> codeUnit)
      skipStringFrom fuel
    | some c =>
      if c.toNat < 32 then fail .controlCharacter
      else
        advance
        skipStringFrom fuel

def skipString : Reader Unit := do
  advance
  skipStringFrom ((← get).rest.length + 1)

def colon : Reader Unit := do
  match ← peekToken with
  | some ':' => advance
  | some _ => failNext .colonExpected
  | none => fail (.unfinished .object)

def hasMember (isFirst : Bool) : Reader Bool := do
  match ← peekToken with
  | none => fail (.unfinished .object)
  | some '\x7d' => return false
  | some '"' => if isFirst then return true else failNext .objectCommaOrEndExpected
  | some ',' =>
    if isFirst then failNext .nameExpected
    advance
    match ← peekToken with
    | some '"' => return true
    | some '\x7d' => failNext .trailingComma
    | some _ => failNext .nameExpected
    | none => fail (.unfinished .value)
  | some _ => failNext (if isFirst then .nameExpected else .objectCommaOrEndExpected)

def hasItem (isFirst : Bool) : Reader Bool := do
  match ← peekToken with
  | none => fail (.unfinished .list)
  | some ']' => return false
  | some c =>
    if isFirst then return true
    if c ≠ ',' then failNext .listCommaOrEndExpected
    advance
    match ← peekToken with
    | some ']' => failNext .trailingComma
    | some _ => return true
    | none => fail (.unfinished .value)

def endObject : Reader Unit := do
  match ← peekToken with
  | some '\x7d' => advance
  | some ',' => failNext .trailingComma
  | some _ => failNext .trailingText
  | none => fail (.unfinished .object)

def endList : Reader Unit := do
  match ← peekToken with
  | some ']' => advance
  | some ',' =>
    advance
    match ← peekToken with
    | some ']' => failNext .trailingComma
    | _ => failNext .trailingText
  | some _ => failNext .trailingText
  | none => fail (.unfinished .list)

/-- What stands between brackets. The end is looked for even when the inside is refused, and the
refusal then takes place after it. -/
def enclosed (inside : Reader α) (close : Reader Unit) : Reader α := located do
  advance
  fun c =>
    match inside c with
    | .ok a c => (do close; return a : Reader α) c
    | .error stop c =>
      match close c with
      | .ok () c => .error stop c
      | .error _ c => .error stop c

def endText : Reader Unit := do
  if (← peekToken).isSome then failNext .trailingText

/-- The place of a byte: the line, and how many bytes into it. -/
def place (text : String) (offset : Nat) : Nat × Nat :=
  let lineOf (n : Nat) (bytes : List UInt8) := bytes.foldl
    (fun (line, column) b => if b = 10 then (line + 1, 0) else (line, column + 1)) (n, 0)
  lineOf 1 (text.toUTF8.data.toList.take offset)

def run (r : Reader α) (text : String) : Except Fault α :=
  match (do let a ← r; endText; return a : Reader α) (.ofText text) with
  | .ok a _ => .ok a
  | .error stop c =>
    let (line, column) := place text (stop.offset?.getD c.offset)
    .error ⟨stop.cause, line, column⟩

end Reader

end Json

end StateTransition
