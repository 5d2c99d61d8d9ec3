import StateTransition.Fork.Basic
import StateTransition.Word

/-! What a command line asks for. Options may stand in any order, each at most once; `--json` and
`--log-level` may stand before the command as well as after it. -/
namespace StateTransition

namespace CommandLine

inductive ChainSource where
  | mainnet
  | file (path : String)
  | single (fork : Fork)
  deriving DecidableEq, Repr

inductive Command where
  /-- Tells the root of an allocation. -/
  | stateRoot (alloc : String)
  /-- Applies blocks to an allocation, and may write the world after them. -/
  | apply (alloc blocks : String) (chain : ChainSource) (dump? : Option String)
  /-- Tells the rules in force at a block. -/
  | fork (number : Nat) (chain : ChainSource)
  deriving DecidableEq, Repr

structure Invocation where
  json : Bool
  command : Command
  deriving DecidableEq, Repr

inductive Argument where
  | word (text : String)
  /-- A long option, with the value after its equals sign if it has one. -/
  | option (name : String) (value? : Option String)
  /-- Two dashes, after which everything is a word. -/
  | separator
  /-- One dash and letters; there are no such options. -/
  | short
  deriving DecidableEq, Repr

/-- The form of an argument. One dash alone is a word. -/
def Argument.ofText (s : String) : Argument :=
  match s.toList with
  | ['-', '-'] => .separator
  | '-' :: '-' :: rest =>
    let name := String.ofList (rest.takeWhile (· ≠ '='))
    match rest.dropWhile (· ≠ '=') with
    | [] => .option name none
    | _ :: value => .option name (some (String.ofList value))
  | '-' :: _ :: _ => .short
  | _ => .word s

structure Found where
  flags : List String
  values : List (String × String)
  words : List String
  deriving DecidableEq, Repr

namespace Found

def empty : Found := ⟨[], [], []⟩

def addFlag? (found : Found) (name : String) : Option Found :=
  if found.flags.contains name then none else some { found with flags := name :: found.flags }

def addValue? (found : Found) (name value : String) : Option Found :=
  if (found.values.lookup name).isSome then none
  else some { found with values := (name, value) :: found.values }

def addWords (found : Found) (words : List String) : Found :=
  { found with words := found.words ++ words }

end Found

def commonFlags : List String := ["json"]

def commonOptions : List String := ["log-level"]

/-- Collects options up to the first word, and what follows from that word on. With `all`, collects
words too, up to the end. -/
def collect (options : List String) (all : Bool) :
    List String → Found → Option (Found × List String)
  | [], found => some (found, [])
  | arg :: rest, found =>
    match Argument.ofText arg with
    | .word s =>
      if all then collect options all rest (found.addWords [s]) else some (found, arg :: rest)
    | .separator => if all then some (found.addWords rest, []) else none
    | .short => none
    | .option name (some value) =>
      if options.contains name then
        (found.addValue? name value).bind (collect options all rest)
      else none
    | .option name none =>
      if commonFlags.contains name then (found.addFlag? name).bind (collect options all rest)
      else if options.contains name then
        match rest with
        | [] => none
        | value :: rest =>
          match Argument.ofText value with
          | .word s => (found.addValue? name s).bind (collect options all rest)
          | _ => none
      else none

/-- A 64-bit number in decimal digits, which a `+` may precede. -/
def count? (s : String) : Option Nat :=
  let digits := match s.toList with
    | '+' :: rest => rest
    | cs => cs
  if digits ≠ [] ∧ digits.all Char.isDigit then
    let n := digits.foldl (fun n c => n * 10 + (c.toNat - 48)) 0
    if n < countLimit then some n else none
  else none

def Found.path? (found : Found) (name : String) : Option String :=
  (found.values.lookup name).filter (· ≠ "")

def Found.optionalPath? (found : Found) (name : String) : Option (Option String) :=
  match found.values.lookup name with
  | none => some none
  | some "" => none
  | some path => some (some path)

/-- The source of the schedule: a file or an upgrade, but not both. -/
def Found.chainSource? (found : Found) : Option ChainSource := do
  match ← found.optionalPath? "chain", found.values.lookup "fork" with
  | none, none => return .mainnet
  | some path, none => return .file path
  | none, some name => return .single (← Fork.ofName? name)
  | some _, some _ => none

def Command.parse? (name : String) (args : List String) : Option (Command × Found) := do
  match name with
  | "state-root" =>
    let (found, _) ← collect ("alloc" :: commonOptions) true args .empty
    if found.words ≠ [] then none
    return (.stateRoot (← found.path? "alloc"), found)
  | "apply" =>
    let options := ["alloc", "blocks", "chain", "fork", "dump-state"] ++ commonOptions
    let (found, _) ← collect options true args .empty
    if found.words ≠ [] then none
    let alloc ← found.path? "alloc"
    let blocks ← found.path? "blocks"
    return (.apply alloc blocks (← found.chainSource?) (← found.optionalPath? "dump-state"), found)
  | "fork" =>
    let (found, _) ← collect (["timestamp", "chain", "fork"] ++ commonOptions) true args .empty
    -- Every upgrade begins at a block, so the time has to be a number and nothing more.
    let _ ← match found.values.lookup "timestamp" with
      | none => some 0
      | some time => count? time
    match found.words with
    | [number] => return (.fork (← count? number) (← found.chainSource?), found)
    | _ => none
  | _ => none

/-- What a command line asks for, or none if it is not well formed. -/
def Invocation.parse? (args : List String) : Option Invocation := do
  match ← collect commonOptions false args .empty with
  | (before, name :: rest) =>
    let (command, after) ← Command.parse? name rest
    return ⟨before.flags.contains "json" || after.flags.contains "json", command⟩
  | (_, []) => none

end CommandLine

end StateTransition
