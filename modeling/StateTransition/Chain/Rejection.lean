import StateTransition.Block.Bloom
import StateTransition.Curve.Secp256k1
import StateTransition.World.Basic

/-! Why transactions, headers, ommers and blocks are refused. -/
namespace StateTransition

inductive TransactionRejection where
  | unsupportedType (type : UInt8)
  | wrongChainId (expected : UInt64) (got : Option UInt64)
  | invalidSignature (cause : Secp256k1.SignatureError)
  | highS
  | intrinsicGas (intrinsic gasLimit : Nat)
  | blockGasExceeded (gasLimit available : Nat)
  | priorityFeeAboveMax (priority maxFee : Word)
  | feeBelowBaseFee (maxFee baseFee : Word)
  | nonceMismatch (expected got : UInt64)
  | nonceMax
  | insufficientFunds (required available : Word)
  | senderHasCode (sender : Address)
  /-- Not a refusal: the world could not be changed as it had to be. -/
  | internal (cause : WorldError)
  deriving DecidableEq, Repr

inductive HeaderError where
  | parentHash (expected got : Hash)
  | number (expected got : Nat)
  | gasUsed (used limit : Nat)
  | gasLimit (limit parent : Nat)
  | timestamp (timestamp parent : Nat)
  | extraData (length : Nat)
  | difficulty (expected got : Word)
  | baseFee (expected got : Option Word)
  /-- Not a refusal: a number, limit or fee that the header is measured by does not fit its type. -/
  | overflow
  deriving DecidableEq, Repr

inductive OmmerError where
  | hash (expected got : Hash)
  | tooMany (count : Nat)
  | duplicate (hash : Hash)
  | age (hash : Hash) (age : Nat)
  | header (hash : Hash) (cause : HeaderError)
  | canonical (hash : Hash)
  | alreadyIncluded (hash : Hash)
  | unknownParent (hash : Hash)
  | sibling (hash : Hash)
  deriving DecidableEq, Repr

inductive BlockRejection where
  | header (cause : HeaderError)
  | ommer (cause : OmmerError)
  | transaction (index : Nat) (cause : TransactionRejection)
  | gasUsed (header computed : Nat)
  | transactionsRoot (header computed : Hash)
  | receiptsRoot (header computed : Hash)
  | logsBloom (header computed : Bloom)
  | stateRoot (header computed : Hash)
  deriving DecidableEq, Repr

/-- Why a block is not applied: it is refused, or the world could not be changed. -/
inductive BlockError where
  | rejected (cause : BlockRejection)
  | internal (cause : WorldError)
  deriving DecidableEq, Repr

def describeOption : Option Nat → String
  | none => "None"
  | some n => s!"Some({n})"

def TransactionRejection.message : TransactionRejection → String
  | .unsupportedType type => s!"transaction type {type.toNat} not supported"
  | .wrongChainId expected got =>
    let got := describeOption (got.map UInt64.toNat)
    s!"wrong chain id: expected {expected.toNat}, got {got}"
  | .invalidSignature cause => "invalid signature: " ++ cause.message
  | .highS => "signature s value too high"
  | .intrinsicGas intrinsic gasLimit =>
    s!"intrinsic gas too low: need {intrinsic}, limit {gasLimit}"
  | .blockGasExceeded gasLimit available =>
    s!"block gas exceeded: need {gasLimit}, available {available}"
  | .priorityFeeAboveMax priority maxFee =>
    s!"max priority fee {priority.toNat} above max fee {maxFee.toNat}"
  | .feeBelowBaseFee maxFee baseFee =>
    s!"max fee {maxFee.toNat} below base fee {baseFee.toNat}"
  | .nonceMismatch expected got =>
    s!"nonce mismatch: expected {expected.toNat}, got {got.toNat}"
  | .nonceMax => "nonce at maximum"
  | .insufficientFunds required available =>
    s!"insufficient funds: need {required.toNat}, have {available.toNat}"
  | .senderHasCode sender => s!"sender {sender.toHex} has code"
  | .internal cause => cause.message

instance : ToString TransactionRejection := ⟨TransactionRejection.message⟩

def HeaderError.message : HeaderError → String
  | .parentHash expected got =>
    s!"parent hash mismatch: expected {Hash.toHex expected}, got {Hash.toHex got}"
  | .number expected got => s!"block number mismatch: expected {expected}, got {got}"
  | .gasUsed used limit => s!"gas used {used} above gas limit {limit}"
  | .gasLimit limit parent => s!"gas limit {limit} invalid for parent limit {parent}"
  | .timestamp time parent => s!"timestamp {time} not after parent {parent}"
  | .extraData length => s!"extra data too long: {length} bytes"
  | .difficulty expected got =>
    s!"difficulty mismatch: expected {expected.toNat}, got {got.toNat}"
  | .baseFee expected got =>
    let expected := describeOption (expected.map BitVec.toNat)
    let got := describeOption (got.map BitVec.toNat)
    s!"base fee mismatch: expected {expected}, got {got}"
  | .overflow => "arithmetic overflow"

instance : ToString HeaderError := ⟨HeaderError.message⟩

def OmmerError.message : OmmerError → String
  | .hash expected got =>
    s!"ommers hash mismatch: expected {Hash.toHex expected}, got {Hash.toHex got}"
  | .tooMany count => s!"too many ommers: {count}"
  | .duplicate h => s!"duplicate ommer {Hash.toHex h}"
  | .age h years => s!"ommer {Hash.toHex h} has invalid age {years}"
  | .header h cause => s!"ommer {Hash.toHex h} has invalid header: {cause.message}"
  | .canonical h => s!"ommer {Hash.toHex h} is a canonical block"
  | .alreadyIncluded h => s!"ommer {Hash.toHex h} already included"
  | .unknownParent h => s!"ommer {Hash.toHex h} has unknown parent"
  | .sibling h => s!"ommer {Hash.toHex h} shares the block's parent"

instance : ToString OmmerError := ⟨OmmerError.message⟩

def BlockRejection.message : BlockRejection → String
  | .header cause => "invalid header: " ++ cause.message
  | .ommer cause => "invalid ommers: " ++ cause.message
  | .transaction index cause => s!"invalid transaction {index}: {cause.message}"
  | .gasUsed told computed => s!"gas used mismatch: header {told}, computed {computed}"
  | .transactionsRoot told computed =>
    s!"transactions root mismatch: header {Hash.toHex told}, computed {Hash.toHex computed}"
  | .receiptsRoot told computed =>
    s!"receipts root mismatch: header {Hash.toHex told}, computed {Hash.toHex computed}"
  | .logsBloom told computed =>
    s!"logs bloom mismatch: header {told.describe}, computed {computed.describe}"
  | .stateRoot told computed =>
    s!"state root mismatch: header {Hash.toHex told}, computed {Hash.toHex computed}"

instance : ToString BlockRejection := ⟨BlockRejection.message⟩

def BlockError.message : BlockError → String
  | .rejected cause => cause.message
  | .internal cause => "internal error: " ++ cause.message

instance : ToString BlockError := ⟨BlockError.message⟩

end StateTransition
