import StateTransition.Fork.Schedule
import StateTransition.Json.Basic
import StateTransition.Json.Record

/-! Schedules as documents of JSON, in the field names that chain configurations use. -/
namespace StateTransition

def Fork.blockField : Fork → String
  | .frontier => "frontierBlock"
  | .homestead => "homesteadBlock"
  | .tangerineWhistle => "eip150Block"
  | .spuriousDragon => "eip158Block"
  | .byzantium => "byzantiumBlock"
  | .constantinople => "constantinopleBlock"
  | .petersburg => "petersburgBlock"
  | .istanbul => "istanbulBlock"
  | .muirGlacier => "muirGlacierBlock"
  | .berlin => "berlinBlock"
  | .london => "londonBlock"
  | .arrowGlacier => "arrowGlacierBlock"
  | .grayGlacier => "grayGlacierBlock"

namespace Schedule

def scheduled : List Fork := Fork.all.drop 1

def withBlock (s : Schedule) (f : Fork) (block? : Option Nat) : Schedule :=
  { s with block? := fun g => if g = f then block? else s.block? g }

def fields : List (Json.Reader.Field Schedule) :=
  ⟨"chainId", fun s => return { s with chainId := (← Json.Reader.count).toUInt64 }⟩ ::
    scheduled.map fun f =>
      ⟨f.blockField, fun s => return s.withBlock f (← Json.Reader.optional Json.Reader.count)⟩

def reader : Json.Reader Schedule :=
  Json.Reader.record "ChainConfig" fields { chainId := 1, block? := fun _ => none }

def parse (text : String) : Except Error Schedule := do
  let s ← (reader.run text).mapError .malformed
  s.validate
  return s

def toJson (s : Schedule) : Json :=
  .object <| ("chainId", .number s.chainId.toNat) ::
    scheduled.filterMap fun f => (s.block? f).map fun block => (f.blockField, .number block)

end Schedule

end StateTransition
