import StateTransition.Chain.Header

/-! Ommers: which ones a block may include, and what it and they are paid. -/
namespace StateTransition

def maxOmmers : Nat := 2

def maxOmmerAge : Nat := 6

/-- The first hash of a list that comes again later in it, told where it comes again. -/
def firstRepeat : (seen : List Hash) → List Hash → Option Hash
  | _, [] => none
  | seen, h :: rest => if h ∈ seen then some h else firstRepeat (h :: seen) rest

namespace Header

def checkOmmer (s : Schedule) (recent : List Block) (h ommer : Header) :
    Except OmmerError Unit := do
  let hash := ommer.hash
  let age := h.number.toNat - ommer.number.toNat
  if age < 1 || maxOmmerAge < age then throw (.age hash age)
  match recent[age]? with
  | none => throw (.unknownParent hash)
  | some parent =>
    match ommer.validate s parent.header with
    | .error cause => throw (.header hash cause)
    | .ok () => pure ()
  let canonical := recent.take (maxOmmerAge + 1)
  let hashes := canonical.map Block.hash
  if hash = h.hash || hash ∈ hashes then throw (.canonical hash)
  if hash ∈ canonical.flatMap fun b => b.ommers.map Header.hash then throw (.alreadyIncluded hash)
  if ommer.parentHash ∉ hashes then throw (.unknownParent hash)
  if ommer.parentHash = h.parentHash then throw (.sibling hash)

/-- Whether a block may include its ommers, given the latest blocks before it, newest first. -/
def validateOmmers (s : Schedule) (recent : List Block) (h : Header) (ommers : List Header) :
    Except OmmerError Unit := do
  let ommersHash := hashOfOmmers ommers
  if ommersHash ≠ h.ommersHash then throw (.hash ommersHash h.ommersHash)
  if maxOmmers < ommers.length then throw (.tooMany ommers.length)
  match firstRepeat [] (ommers.map Header.hash) with
  | some hash => throw (.duplicate hash)
  | none => pure ()
  ommers.forM (checkOmmer s recent h)

end Header

/-- What the coinbase of an ommer is given, an eighth less for every block in between. -/
def ommerReward (blockReward age : Nat) : Nat := blockReward * (8 - age) / 8

namespace World

/-- Pays the coinbase of an ommer. It is a fault if the ommer's number is above the block's, for
then its age is below zero. -/
def payOmmer (rules : Rules) (h ommer : Header) : WorldM Unit :=
  if h.number < ommer.number then throw .overflow
  else
    let age := h.number.toNat - ommer.number.toNat
    addBalance ommer.coinbase (BitVec.ofNat 256 (ommerReward rules.blockReward age))

/-- Pays a block's coinbase and those of its ommers. -/
def payRewards (rules : Rules) (h : Header) (ommers : List Header) : WorldM Unit := do
  let reward := rules.blockReward
  addBalance h.coinbase (BitVec.ofNat 256 (reward + reward / 32 * ommers.length))
  ommers.forM (payOmmer rules h)

end World

end StateTransition
