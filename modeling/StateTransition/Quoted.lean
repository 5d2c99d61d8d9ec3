import StateTransition.Printable

/-! Characters and texts between quotes, as messages show them. -/
namespace StateTransition

/-- A character inside quotes of the given kind. One that is not printable shows as its number. -/
def escapeInQuotes (mark c : Char) : String :=
  match c.toNat with
  | 0x00 => "\\0"
  | 0x09 => "\\t"
  | 0x0a => "\\n"
  | 0x0d => "\\r"
  | 0x5c => "\\\\"
  | n =>
    if c = mark then String.ofList ['\\', c]
    else if isPrintable c then String.ofList [c]
    else "\\u\x7b" ++ String.ofList (Nat.toDigits 16 n) ++ "\x7d"

def quoteChar (c : Char) : String := "'" ++ escapeInQuotes '\'' c ++ "'"

def quoteText (s : String) : String :=
  "\"" ++ String.join (s.toList.map (escapeInQuotes '"')) ++ "\""

end StateTransition
