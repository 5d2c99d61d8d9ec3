/-! The protocol's upgrades in the order in which the main network took them. -/
namespace StateTransition

/-- A named set of rules, which includes every earlier one. -/
inductive Fork where
  | frontier
  | homestead
  | tangerineWhistle
  | spuriousDragon
  | byzantium
  | constantinople
  | petersburg
  | istanbul
  | muirGlacier
  | berlin
  | london
  | arrowGlacier
  | grayGlacier
  deriving DecidableEq, Repr

namespace Fork

def index : Fork → Nat
  | frontier => 0
  | homestead => 1
  | tangerineWhistle => 2
  | spuriousDragon => 3
  | byzantium => 4
  | constantinople => 5
  | petersburg => 6
  | istanbul => 7
  | muirGlacier => 8
  | berlin => 9
  | london => 10
  | arrowGlacier => 11
  | grayGlacier => 12

instance : LE Fork := ⟨fun a b => a.index ≤ b.index⟩

instance : LT Fork := ⟨fun a b => a.index < b.index⟩

instance (a b : Fork) : Decidable (a ≤ b) := inferInstanceAs (Decidable (a.index ≤ b.index))

instance (a b : Fork) : Decidable (a < b) := inferInstanceAs (Decidable (a.index < b.index))

def all : List Fork :=
  [frontier, homestead, tangerineWhistle, spuriousDragon, byzantium, constantinople, petersburg,
    istanbul, muirGlacier, berlin, london, arrowGlacier, grayGlacier]

def upTo (f : Fork) : List Fork := all.filter (· ≤ f)

def name : Fork → String
  | frontier => "Frontier"
  | homestead => "Homestead"
  | tangerineWhistle => "TangerineWhistle"
  | spuriousDragon => "SpuriousDragon"
  | byzantium => "Byzantium"
  | constantinople => "Constantinople"
  | petersburg => "Petersburg"
  | istanbul => "Istanbul"
  | muirGlacier => "MuirGlacier"
  | berlin => "Berlin"
  | london => "London"
  | arrowGlacier => "ArrowGlacier"
  | grayGlacier => "GrayGlacier"

/-- The upgrade with the given name, or another one in use, in letters of any case. -/
def ofName? (s : String) : Option Fork :=
  let lower := s.map Char.toLower
  match lower with
  | "eip150" => some tangerineWhistle
  | "eip158" => some spuriousDragon
  | "constantinoplefix" => some petersburg
  | _ => all.find? fun f => f.name.map Char.toLower = lower

end Fork

end StateTransition
