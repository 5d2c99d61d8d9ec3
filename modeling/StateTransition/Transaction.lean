import StateTransition.Rlp.Field
import StateTransition.Hash.Keccak
import StateTransition.Curve.Secp256k1

/-! Signed transactions of the three types, their envelopes and their senders. -/
namespace StateTransition

/-- An account and some of its slots that a transaction announces. -/
structure Access where
  address : Address
  keys : List Hash
  deriving DecidableEq, Repr

/-- What sets the types of transaction apart. -/
inductive TransactionKind where
  | legacy (gasPrice : Word)
  | accessList (chainId : UInt64) (gasPrice : Word) (accesses : List Access)
  | dynamicFee (chainId : UInt64) (maxPriorityFee maxFee : Word) (accesses : List Access)
  deriving DecidableEq, Repr

inductive TransactionType where
  | legacy
  | accessList
  | dynamicFee
  deriving DecidableEq, Repr

/-- A transaction before it is signed. Without a target it creates a contract. -/
structure Transaction where
  nonce : UInt64
  gasLimit : UInt64
  target : Option Address
  value : Word
  data : Bytes
  kind : TransactionKind
  deriving DecidableEq, Repr

/-- A transaction with its signature. The first component holds the parity, and for legacy
transactions possibly the chain. -/
structure SignedTransaction where
  body : Transaction
  v : UInt64
  r : Word
  s : Word
  deriving DecidableEq, Repr

namespace Access

def toItem (a : Access) : Rlp.Item := .list [.ofAddress a.address, .list (a.keys.map .ofHash)]

def ofItem (item : Rlp.Item) : Except Rlp.Error Access := do
  match ← item.toListOf 2 with
  | [address, keys] =>
    return { address := ← address.toAddress, keys := ← keys.toListWith Rlp.Item.toHash }
  | fields => throw (.listLength 2 fields.length)

end Access

namespace TransactionType

def number : TransactionType → UInt8
  | legacy => 0
  | accessList => 1
  | dynamicFee => 2

/-- The type that begins an envelope; legacy envelopes have no such byte. -/
def ofByte (b : UInt8) : Except Rlp.Error TransactionType :=
  if b = 1 then .ok accessList else if b = 2 then .ok dynamicFee else .error (.unsupportedType b)

def envelop (t : TransactionType) (encoded : Bytes) : Bytes :=
  match t with
  | legacy => encoded
  | t => t.number :: encoded

def openEnvelope {α : Type} (read : TransactionType → Rlp.Item → Except Rlp.Error α) (bs : Bytes) :
    Except Rlp.Error α :=
  match bs with
  | [] => .error .unexpectedEnd
  | first :: rest =>
    if 0xc0 ≤ first then do read .legacy (← Rlp.Item.decode bs)
    else do
      let t ← ofByte first
      read t (← Rlp.Item.decode rest)

end TransactionType

namespace Transaction

def type (t : Transaction) : TransactionType :=
  match t.kind with
  | .legacy _ => .legacy
  | .accessList _ _ _ => .accessList
  | .dynamicFee _ _ _ _ => .dynamicFee

def accesses (t : Transaction) : List Access :=
  match t.kind with
  | .legacy _ => []
  | .accessList _ _ accesses => accesses
  | .dynamicFee _ _ _ accesses => accesses

def maxFee (t : Transaction) : Word :=
  match t.kind with
  | .legacy gasPrice => gasPrice
  | .accessList _ gasPrice _ => gasPrice
  | .dynamicFee _ _ maxFee _ => maxFee

def maxPriorityFee (t : Transaction) : Word :=
  match t.kind with
  | .legacy gasPrice => gasPrice
  | .accessList _ gasPrice _ => gasPrice
  | .dynamicFee _ maxPriorityFee _ _ => maxPriorityFee

/-- The price per gas at a base fee, unless the highest price is below that. -/
def effectiveGasPrice? (t : Transaction) (baseFee : Option Word) : Option Word :=
  match t.kind, baseFee with
  | .dynamicFee _ maxPriorityFee maxFee _, some baseFee =>
    if maxFee < baseFee then none
    else
      let room := maxFee - baseFee
      some (baseFee + if maxPriorityFee ≤ room then maxPriorityFee else room)
  | _, _ => some t.maxFee

def isCreation (t : Transaction) : Bool := t.target.isNone

def fields (t : Transaction) : List Rlp.Item :=
  match t.kind with
  | .legacy gasPrice =>
    [.ofCount t.nonce, .ofWord gasPrice, .ofCount t.gasLimit, .ofAddress? t.target, .ofWord t.value,
      .bytes t.data]
  | .accessList chainId gasPrice accesses =>
    [.ofCount chainId, .ofCount t.nonce, .ofWord gasPrice, .ofCount t.gasLimit,
      .ofAddress? t.target, .ofWord t.value, .bytes t.data, .list (accesses.map Access.toItem)]
  | .dynamicFee chainId maxPriorityFee maxFee accesses =>
    [.ofCount chainId, .ofCount t.nonce, .ofWord maxPriorityFee, .ofWord maxFee,
      .ofCount t.gasLimit, .ofAddress? t.target, .ofWord t.value, .bytes t.data,
      .list (accesses.map Access.toItem)]

end Transaction

namespace SignedTransaction

def chainId? (t : SignedTransaction) : Option UInt64 :=
  match t.body.kind with
  | .legacy _ => if 35 ≤ t.v then some ((t.v - 35) / 2) else none
  | .accessList chainId _ _ => some chainId
  | .dynamicFee chainId _ _ _ => some chainId

def parity? (t : SignedTransaction) : Option UInt8 :=
  match t.body.type with
  | .legacy =>
    if t.v = 27 ∨ t.v = 28 then some (t.v - 27).toUInt8
    else if 35 ≤ t.v then some ((t.v - 35) % 2).toUInt8
    else none
  | _ => if t.v ≤ 1 then some t.v.toUInt8 else none

/-- The bytes whose digest is signed. A legacy transaction bound to a chain adds it. -/
def signingPayload (t : SignedTransaction) : Bytes :=
  let bound : List Rlp.Item :=
    match t.body.type, t.chainId? with
    | .legacy, some chainId => [.ofCount chainId, .ofNat 0, .ofNat 0]
    | _, _ => []
  t.body.type.envelop (Rlp.Item.list (t.body.fields ++ bound)).encode

def signingHash (t : SignedTransaction) : Hash := keccak t.signingPayload

def sender (t : SignedTransaction) : Except Secp256k1.SignatureError Address :=
  match t.parity? with
  | none => .error (.invalidRecoveryId (if t.v ≤ 255 then t.v.toUInt8 else 255))
  | some v => Secp256k1.recoverAddress t.signingHash { r := t.r, s := t.s, v }

def payload (t : SignedTransaction) : Rlp.Item :=
  .list (t.body.fields ++ [.ofCount t.v, .ofWord t.r, .ofWord t.s])

/-- The envelope: the list of fields after the type. -/
def encode (t : SignedTransaction) : Bytes := t.body.type.envelop t.payload.encode

def hash (t : SignedTransaction) : Hash := keccak t.encode

/-- A transaction as it stands in a block: a legacy one as its list, others as their envelope. -/
def toItem (t : SignedTransaction) : Rlp.Item :=
  match t.body.type with
  | .legacy => t.payload
  | _ => .bytes t.encode

def ofLegacyPayload (item : Rlp.Item) : Except Rlp.Error SignedTransaction := do
  match ← item.toListOf 9 with
  | [nonce, gasPrice, gasLimit, target, value, data, v, r, s] =>
    let nonce ← nonce.toCount
    let gasPrice ← gasPrice.toWord
    let gasLimit ← gasLimit.toCount
    let target ← target.toAddress?
    let value ← value.toWord
    let data ← data.toBytes
    let v ← v.toCount
    let r ← r.toWord
    let s ← s.toWord
    return { body := { nonce, gasLimit, target, value, data, kind := .legacy gasPrice }, v, r, s }
  | fields => throw (.listLength 9 fields.length)

def ofAccessListPayload (item : Rlp.Item) : Except Rlp.Error SignedTransaction := do
  match ← item.toListOf 11 with
  | [chainId, nonce, gasPrice, gasLimit, target, value, data, accesses, v, r, s] =>
    let chainId ← chainId.toCount
    let nonce ← nonce.toCount
    let gasPrice ← gasPrice.toWord
    let gasLimit ← gasLimit.toCount
    let target ← target.toAddress?
    let value ← value.toWord
    let data ← data.toBytes
    let accesses ← accesses.toListWith Access.ofItem
    let v ← v.toCount
    let r ← r.toWord
    let s ← s.toWord
    let kind := .accessList chainId gasPrice accesses
    return { body := { nonce, gasLimit, target, value, data, kind }, v, r, s }
  | fields => throw (.listLength 11 fields.length)

def ofDynamicFeePayload (item : Rlp.Item) : Except Rlp.Error SignedTransaction := do
  match ← item.toListOf 12 with
  | [chainId, nonce, maxPriorityFee, maxFee, gasLimit, target, value, data, accesses, v, r, s] =>
    let chainId ← chainId.toCount
    let nonce ← nonce.toCount
    let maxPriorityFee ← maxPriorityFee.toWord
    let maxFee ← maxFee.toWord
    let gasLimit ← gasLimit.toCount
    let target ← target.toAddress?
    let value ← value.toWord
    let data ← data.toBytes
    let accesses ← accesses.toListWith Access.ofItem
    let v ← v.toCount
    let r ← r.toWord
    let s ← s.toWord
    let kind := .dynamicFee chainId maxPriorityFee maxFee accesses
    return { body := { nonce, gasLimit, target, value, data, kind }, v, r, s }
  | fields => throw (.listLength 12 fields.length)

def ofPayload : TransactionType → Rlp.Item → Except Rlp.Error SignedTransaction
  | .legacy => ofLegacyPayload
  | .accessList => ofAccessListPayload
  | .dynamicFee => ofDynamicFeePayload

def decode (bs : Bytes) : Except Rlp.Error SignedTransaction := TransactionType.openEnvelope ofPayload bs

def ofItem : Rlp.Item → Except Rlp.Error SignedTransaction
  | .list fields => ofLegacyPayload (.list fields)
  | .bytes [] => .error .wrappedLegacyTransaction
  | .bytes (first :: rest) =>
    if first < 0xc0 then decode (first :: rest) else .error .wrappedLegacyTransaction

end SignedTransaction

end StateTransition
