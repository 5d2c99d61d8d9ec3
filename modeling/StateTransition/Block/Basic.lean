import StateTransition.Block.Receipt
import StateTransition.Trie.Basic

/-! Headers and blocks. -/
namespace StateTransition

structure Header where
  parentHash : Hash
  ommersHash : Hash
  coinbase : Address
  stateRoot : Hash
  transactionsRoot : Hash
  receiptsRoot : Hash
  bloom : Bloom
  difficulty : Word
  number : UInt64
  gasLimit : UInt64
  gasUsed : UInt64
  timestamp : UInt64
  extraData : Bytes
  mixHash : Hash
  nonce : BitVec 64
  /-- The price per gas that is burnt, where blocks have one. -/
  baseFee : Option Word
  deriving DecidableEq, Repr

structure Block where
  header : Header
  transactions : List SignedTransaction
  ommers : List Header
  deriving DecidableEq, Repr

/-- The digest of the encoded empty list. -/
def emptyOmmersHash : Hash := 0x1dcc4de8dec75d7aab85b567b6ccd41ad312451b948a7413f0a142fd40d49347

namespace Header

def fieldCount : Nat := 15

def toItem (h : Header) : Rlp.Item :=
  .list <|
    [.ofHash h.parentHash, .ofHash h.ommersHash, .ofAddress h.coinbase, .ofHash h.stateRoot,
      .ofHash h.transactionsRoot, .ofHash h.receiptsRoot, .bytes h.bloom.toBytes,
      .ofWord h.difficulty, .ofCount h.number, .ofCount h.gasLimit, .ofCount h.gasUsed,
      .ofCount h.timestamp, .bytes h.extraData, .ofHash h.mixHash,
      .bytes (Bytes.ofNatPadded 8 h.nonce.toNat)] ++ (h.baseFee.map Rlp.Item.ofWord).toList

def encode (h : Header) : Bytes := h.toItem.encode

def hash (h : Header) : Hash := keccak h.encode

/-- The base fee among the fields past the common ones. -/
def baseFeeOf : List Rlp.Item → Except Rlp.Error (Option Word)
  | [] => .ok none
  | [fee] => fee.toWord.map some
  | rest => .error (.listLength fieldCount (fieldCount + rest.length))

def ofItem (item : Rlp.Item) : Except Rlp.Error Header := do
  let fields ← item.toList
  if fields.length ≠ fieldCount ∧ fields.length ≠ fieldCount + 1 then
    throw (.listLength fieldCount fields.length)
  match fields with
  | parentHash :: ommersHash :: coinbase :: stateRoot :: transactionsRoot :: receiptsRoot ::
      bloom :: difficulty :: number :: gasLimit :: gasUsed :: timestamp :: extraData :: mixHash ::
      nonce :: rest =>
    let parentHash ← parentHash.toHash
    let ommersHash ← ommersHash.toHash
    let coinbase ← coinbase.toAddress
    let stateRoot ← stateRoot.toHash
    let transactionsRoot ← transactionsRoot.toHash
    let receiptsRoot ← receiptsRoot.toHash
    let bloom ← bloom.toFixed 256
    let difficulty ← difficulty.toWord
    let number ← number.toCount
    let gasLimit ← gasLimit.toCount
    let gasUsed ← gasUsed.toCount
    let timestamp ← timestamp.toCount
    let extraData ← extraData.toBytes
    let mixHash ← mixHash.toHash
    let nonce ← nonce.toFixed 8
    let baseFee ← baseFeeOf rest
    return {
      parentHash, ommersHash, coinbase, stateRoot, transactionsRoot, receiptsRoot
      bloom := Bloom.ofBytes bloom, difficulty, number, gasLimit, gasUsed, timestamp, extraData
      mixHash, nonce := BitVec.ofNat 64 (Bytes.toNat nonce), baseFee }
  | fields => throw (.listLength fieldCount fields.length)

def decode (bs : Bytes) : Except Rlp.Error Header := do ofItem (← Rlp.Item.decode bs)

def hashOfOmmers (ommers : List Header) : Hash := keccak (Rlp.Item.list (ommers.map toItem)).encode

end Header

namespace Block

def hash (b : Block) : Hash := b.header.hash

def computeTransactionsRoot (b : Block) : Hash :=
  (Trie.ofValues (b.transactions.map SignedTransaction.encode)).rootHash

def computeOmmersHash (b : Block) : Hash := Header.hashOfOmmers b.ommers

def toItem (b : Block) : Rlp.Item :=
  .list [b.header.toItem, .list (b.transactions.map SignedTransaction.toItem),
    .list (b.ommers.map Header.toItem)]

def encode (b : Block) : Bytes := b.toItem.encode

def ofItem (item : Rlp.Item) : Except Rlp.Error Block := do
  match ← item.toListOf 3 with
  | [header, transactions, ommers] =>
    let header ← Header.ofItem header
    let transactions ← transactions.toListWith SignedTransaction.ofItem
    let ommers ← ommers.toListWith Header.ofItem
    return { header, transactions, ommers }
  | fields => throw (.listLength 3 fields.length)

def decode (bs : Bytes) : Except Rlp.Error Block := do ofItem (← Rlp.Item.decode bs)

end Block

end StateTransition
