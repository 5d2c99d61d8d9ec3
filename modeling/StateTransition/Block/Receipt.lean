import StateTransition.Block.Bloom
import StateTransition.Transaction

/-! Logs and receipts. -/
namespace StateTransition

structure Log where
  address : Address
  topics : List Hash
  data : Bytes
  deriving DecidableEq, Repr

namespace Log

def bloom (l : Log) : Bloom :=
  l.topics.foldl (fun b topic => b.add topic.toBytes) (Bloom.add 0 l.address.toBytes)

def bloomOf (logs : List Log) : Bloom := logs.foldl (fun b l => b ||| l.bloom) 0

def toItem (l : Log) : Rlp.Item :=
  .list [.ofAddress l.address, .list (l.topics.map .ofHash), .bytes l.data]

def ofItem (item : Rlp.Item) : Except Rlp.Error Log := do
  match ← item.toListOf 3 with
  | [address, topics, data] =>
    let address ← address.toAddress
    let topics ← topics.toListWith Rlp.Item.toHash
    let data ← data.toBytes
    return { address, topics, data }
  | fields => throw (.listLength 3 fields.length)

end Log

/-- What a receipt says of its transaction: the root after it, or later whether it succeeded. -/
inductive ReceiptOutcome where
  | stateRoot (root : Hash)
  | status (success : Bool)
  deriving DecidableEq, Repr

structure Receipt where
  type : TransactionType
  outcome : ReceiptOutcome
  cumulativeGas : UInt64
  bloom : Bloom
  logs : List Log
  deriving DecidableEq, Repr

namespace ReceiptOutcome

def toItem : ReceiptOutcome → Rlp.Item
  | stateRoot root => .ofHash root
  | status true => .bytes [1]
  | status false => .bytes []

def ofItem (item : Rlp.Item) : Except Rlp.Error ReceiptOutcome := do
  match ← item.toBytes with
  | [] => return status false
  | [1] => return status true
  | _ => return stateRoot (← item.toHash)

end ReceiptOutcome

namespace Receipt

def ofLogs (type : TransactionType) (outcome : ReceiptOutcome) (cumulativeGas : UInt64)
    (logs : List Log) : Receipt :=
  { type, outcome, cumulativeGas, bloom := Log.bloomOf logs, logs }

def success? (r : Receipt) : Option Bool :=
  match r.outcome with
  | .stateRoot _ => none
  | .status success => some success

def payload (r : Receipt) : Rlp.Item :=
  .list [r.outcome.toItem, .ofCount r.cumulativeGas, .bytes r.bloom.toBytes,
    .list (r.logs.map Log.toItem)]

def encode (r : Receipt) : Bytes := r.type.envelop r.payload.encode

def ofPayload (type : TransactionType) (item : Rlp.Item) : Except Rlp.Error Receipt := do
  match ← item.toListOf 4 with
  | [outcome, cumulativeGas, bloom, logs] =>
    let outcome ← ReceiptOutcome.ofItem outcome
    let cumulativeGas ← cumulativeGas.toCount
    let bloom ← bloom.toFixed 256
    let logs ← logs.toListWith Log.ofItem
    return { type, outcome, cumulativeGas, bloom := Bloom.ofBytes bloom, logs }
  | fields => throw (.listLength 4 fields.length)

def decode (bs : Bytes) : Except Rlp.Error Receipt := TransactionType.openEnvelope ofPayload bs

end Receipt

end StateTransition
