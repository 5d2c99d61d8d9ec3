import StateTransition.Json.Basic

/-! Answers of commands, as lines for people or as one document. -/
namespace StateTransition

namespace CommandLine

structure Report where
  headline? : Option String
  fields : List (String × Json)
  deriving Repr

namespace Report

/-- A value on a line; a text goes without quotes. -/
def fieldText : Json → String
  | .string s => s
  | j => j.compact

def toText (r : Report) : String :=
  "\n".intercalate <|
    r.headline?.toList ++ r.fields.map fun (name, value) => name ++ ": " ++ fieldText value

/-- The values in the order of their names. -/
def toJson (r : Report) : Json := .object (r.fields.mergeSort fun a b => a.1 ≤ b.1)

def render (r : Report) (json : Bool) : String := if json then r.toJson.pretty else r.toText

end Report

end CommandLine

end StateTransition
