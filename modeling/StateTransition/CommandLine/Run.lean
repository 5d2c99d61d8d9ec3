import StateTransition.Chain.Basic
import StateTransition.CommandLine.Arguments
import StateTransition.CommandLine.Failure
import StateTransition.CommandLine.Report
import StateTransition.Fork.Text
import StateTransition.World.Alloc

/-! The commands, over files that are read and written by name. -/
namespace StateTransition

namespace CommandLine

/-- How files are read and written; a failure comes with its reason. -/
structure FileSystem (m : Type → Type) where
  read : String → m (Except String String)
  write : String → String → m (Except String Unit)

structure Outcome where
  exitCode : Nat
  output : String
  errors : String
  deriving DecidableEq, Repr

abbrev CommandM (m : Type → Type) := ExceptT Failure m

def isBlank (c : Char) : Bool :=
  let n := c.toNat
  (9 ≤ n && n ≤ 13) || n = 0x20 || n = 0x85 || n = 0xa0 || n = 0x1680 ||
    (0x2000 ≤ n && n ≤ 0x200a) || n = 0x2028 || n = 0x2029 || n = 0x202f || n = 0x205f ||
    n = 0x3000

def trimBlanks (cs : List Char) : List Char :=
  ((cs.dropWhile isBlank).reverse.dropWhile isBlank).reverse

/-- The block of a line, unless the line is blank or a remark. -/
def blockOfLine (line : Nat) (text : String) : Except Failure (Option Block) :=
  match trimBlanks text.toList with
  | [] => .ok none
  | '#' :: _ => .ok none
  | cs =>
    match Hex.decode (String.ofList cs) with
    | .error cause => .error (.invalidHex line cause)
    | .ok bs =>
      match Block.decode bs with
      | .error cause => .error (.invalidBlock line cause)
      | .ok block => .ok (some block)

def blocksOfText (text : String) : Except Failure (List Block) := do
  let blocks ← ((text.splitOn "\n").zipIdx 1).mapM fun (s, line) => blockOfLine line s
  return blocks.filterMap id

/-- The chain that blocks begin: over the first of them if that one is the first of all, else over
the standard beginning. Then the blocks that are left. -/
def beginChain (s : Schedule) (world : World) (blocks : List Block) :
    Except Failure (Chain × List Block) :=
  match blocks with
  | first :: rest =>
    if first.header.number = 0 then
      match Chain.ofGenesisBlock s first world with
      | .ok chain => .ok (chain, rest)
      | .error cause => .error (.rejected 0 cause)
    else .ok (.ofGenesis s .standard world, blocks)
  | [] => .ok (.ofGenesis s .standard world, [])

def appendAll : Chain → List Block → Except Failure Chain
  | chain, [] => .ok chain
  | chain, block :: rest =>
    match chain.append block with
    | .ok chain => appendAll chain rest
    | .error cause => .error (.ofBlockError block.header.number.toNat cause)

def describeBlock (b : Block) : Json :=
  .object
    [("gas_used", .number b.header.gasUsed.toNat), ("hash", .string (Hash.toHex b.hash)),
      ("number", .number b.header.number.toNat), ("transactions", .number b.transactions.length)]

def reportChain (chain : Chain) (applied : List Block) : Report where
  headline? := some s!"Applied {applied.length} blocks"
  fields :=
    [("head_number", .number chain.head.header.number.toNat),
      ("head_hash", .string (Hash.toHex chain.head.hash)),
      ("state_root", .string (Hash.toHex chain.world.stateRoot)),
      ("blocks", .array (applied.map describeBlock))]

def reportWorld (world : World) : Report where
  headline? := none
  fields :=
    [("state_root", .string (Hash.toHex world.stateRoot)),
      ("accounts", .number world.accounts.size)]

def reportRules (s : Schedule) (number : Nat) : Report where
  headline? := none
  fields :=
    let rules := s.rulesAt number
    [("fork", .string rules.fork.name), ("chain_id", .number s.chainId.toNat),
      ("block_reward", .string (toString rules.blockReward)),
      ("precompiles", .number rules.precompileCount),
      ("replay_protection", .bool rules.replayProtection),
      ("state_clearing", .bool rules.stateClearing),
      ("status_receipts", .bool rules.statusReceipts), ("access_lists", .bool rules.accessLists),
      ("base_fee", .bool rules.baseFee)]

variable {m : Type → Type} [Monad m] {α : Type}

def CommandM.ofExcept (r : Except Failure α) : CommandM m α := ExceptT.mk (pure r)

def FileSystem.readText (files : FileSystem m) (path : String) : CommandM m String := do
  match ← files.read path with
  | .ok text => return text
  | .error reason => throw (.file path reason)

def FileSystem.writeText (files : FileSystem m) (path text : String) : CommandM m Unit := do
  match ← files.write path text with
  | .ok () => return
  | .error reason => throw (.file path reason)

def loadSchedule (files : FileSystem m) : ChainSource → CommandM m Schedule
  | .mainnet => return .mainnet
  | .single fork => return .single fork
  | .file path => do
    let text ← files.readText path
    .ofExcept ((Schedule.parse text).mapError Failure.invalidChain)

def loadWorld (files : FileSystem m) (path : String) : CommandM m World := do
  match Alloc.parse (← files.readText path) with
  | .ok alloc => return .ofAlloc alloc
  | .error cause => throw (.invalidAlloc cause)

def Command.execute (files : FileSystem m) : Command → CommandM m Report
  | .stateRoot alloc => return reportWorld (← loadWorld files alloc)
  | .fork number source => return reportRules (← loadSchedule files source) number
  | .apply alloc path source dump? => do
    let schedule ← loadSchedule files source
    let world ← loadWorld files alloc
    let blocks ← .ofExcept (blocksOfText (← files.readText path))
    let (chain, rest) ← .ofExcept (beginChain schedule world blocks)
    let chain ← .ofExcept (appendAll chain rest)
    if let some dump := dump? then files.writeText dump chain.world.toAlloc.toJson.pretty
    return reportChain chain rest

/-- What is told of a failure: a document on the output, or a line among the errors. -/
def Outcome.ofFailure (json : Bool) (e : Failure) : Outcome :=
  if json then
    let document : Json := .object [("error", .string e.message), ("success", .bool false)]
    ⟨1, document.compact ++ "\n", ""⟩
  else ⟨1, "", "Error: " ++ e.message ++ "\n"⟩

def usage : String :=
  "usage: [--json] [--log-level FILTER] COMMAND\n" ++
    "  state-root --alloc FILE\n" ++
    "  apply --alloc FILE --blocks FILE [--chain FILE | --fork NAME] [--dump-state FILE]\n" ++
    "  fork NUMBER [--timestamp NUMBER] [--chain FILE | --fork NAME]\n"

def run (files : FileSystem m) (args : List String) : m Outcome := do
  match Invocation.parse? args with
  | none => return ⟨2, "", usage⟩
  | some invocation =>
    match ← (invocation.command.execute files).run with
    | .ok report => return ⟨0, report.render invocation.json ++ "\n", ""⟩
    | .error e => return .ofFailure invocation.json e

/-- The files of an empty folder and what is put there, each with its text. -/
abbrev FileTable := List (String × String)

def FileSystem.inMemory : FileSystem (StateM FileTable) where
  read path := return match (← get).lookup path with
    | some text => .ok text
    | none => .error "No such file or directory (os error 2)"
  write path text := do
    modify ((path, text) :: ·)
    return .ok ()

end CommandLine

end StateTransition
