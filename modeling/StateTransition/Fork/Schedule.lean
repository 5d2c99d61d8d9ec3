import StateTransition.Fork.Rules
import StateTransition.Json.Fault

/-! When a chain takes each upgrade. -/
namespace StateTransition

/-- A chain's number and the block from which each upgrade is in force, if it ever is. -/
structure Schedule where
  chainId : UInt64
  block? : Fork → Option Nat

namespace Schedule

/-- The first block of an upgrade; the oldest is in force from the start. -/
def activation? (s : Schedule) (f : Fork) : Option Nat :=
  match f with
  | .frontier => some 0
  | f => s.block? f

def mainnet : Schedule where
  chainId := 1
  block?
    | .frontier => none
    | .homestead => some 1150000
    | .tangerineWhistle => some 2463000
    | .spuriousDragon => some 2675000
    | .byzantium => some 4370000
    | .constantinople => some 7280000
    | .petersburg => some 7280000
    | .istanbul => some 9069000
    | .muirGlacier => some 9200000
    | .berlin => some 12244000
    | .london => some 12965000
    | .arrowGlacier => some 13773000
    | .grayGlacier => some 15050000

def single (f : Fork) : Schedule where
  chainId := 1
  block? g := if g ≤ f then some 0 else none

inductive Error where
  | malformed (cause : Json.Fault)
  | unknownFork (name : String)
  | outOfOrder (earlier : Fork) (earlierBlock : Nat) (later : Fork) (laterBlock : Nat)
  deriving DecidableEq, Repr

def Error.message : Error → String
  | .malformed cause => "invalid chain config: " ++ cause.message
  | .unknownFork name => "unknown fork: " ++ name
  | .outOfOrder earlier earlierBlock later laterBlock =>
    s!"{later.name} activates at block {laterBlock}, before {earlier.name} at {earlierBlock}"

instance : ToString Error := ⟨Error.message⟩

/-- The first upgrade of the list that activates before the last one to activate. -/
def firstOutOfOrder (s : Schedule) : List Fork → (last : Fork) → (lastBlock : Nat) → Option Error
  | [], _, _ => none
  | f :: rest, last, lastBlock =>
    match s.activation? f with
    | none => firstOutOfOrder s rest last lastBlock
    | some block =>
      if block < lastBlock then some (.outOfOrder last lastBlock f block)
      else firstOutOfOrder s rest f block

/-- Whether activation blocks never fall along the upgrades. -/
def validate (s : Schedule) : Except Error Unit :=
  match s.firstOutOfOrder (Fork.all.drop 1) .frontier 0 with
  | some e => .error e
  | none => .ok ()

def forkAt (s : Schedule) (number : Nat) : Fork :=
  (Fork.all.reverse.find? fun f => (s.activation? f).any (· ≤ number)).getD .frontier

def isActivation (s : Schedule) (f : Fork) (number : Nat) : Bool := s.activation? f = some number

def rulesAt (s : Schedule) (number : Nat) : Rules := .ofFork (s.forkAt number)

end Schedule

end StateTransition
