import StateTransition.Chain.Rejection
import StateTransition.Fork.Schedule
import StateTransition.Rlp.Item

/-! Why commands fail, told from the outermost cause to the innermost. -/
namespace StateTransition

def OmmerError.causes : OmmerError → List String
  | .header h cause => [message (.header h cause), cause.message]
  | e => [e.message]

def TransactionRejection.causes : TransactionRejection → List String
  | .invalidSignature cause => [message (.invalidSignature cause), cause.message]
  | e => [e.message]

def BlockRejection.causes : BlockRejection → List String
  | .header cause => [message (.header cause), cause.message]
  | .ommer cause => message (.ommer cause) :: cause.causes
  | .transaction index cause => message (.transaction index cause) :: cause.causes
  | e => [e.message]

def Schedule.Error.causes : Schedule.Error → List String
  | .malformed cause => [message (.malformed cause), cause.message]
  | e => [e.message]

namespace CommandLine

inductive Failure where
  | invalidHex (line : Nat) (cause : HexError)
  | invalidBlock (line : Nat) (cause : Rlp.Error)
  | invalidAlloc (cause : Json.Fault)
  | invalidChain (cause : Schedule.Error)
  | rejected (number : Nat) (cause : BlockRejection)
  | internal (number : Nat) (cause : WorldError)
  | file (path reason : String)
  deriving DecidableEq, Repr

namespace Failure

/-- A failure with a prefix of its own before its first cause. -/
def under (context : String) : List String → List String
  | [] => [context]
  | cause :: rest => (context ++ cause) :: cause :: rest

/-- The causes of a failure. A cause that quotes the next one is followed by it all the same. -/
def causes : Failure → List String
  | .invalidHex line cause => [s!"Invalid hex on line {line}: {cause.message}"]
  | .invalidBlock line cause => under s!"Invalid block on line {line}: " [cause.message]
  | .invalidAlloc cause =>
    under "State error: " ["snapshot error: " ++ cause.message, cause.message]
  | .invalidChain cause => under "Invalid chain config: " cause.causes
  | .rejected number cause => under s!"Block {number} rejected: " cause.causes
  | .internal number cause => under s!"Internal error at block {number}: " [cause.message]
  | .file path reason => under (path ++ ": ") [reason]

def message (e : Failure) : String := ": ".intercalate e.causes

instance : ToString Failure := ⟨message⟩

def ofBlockError (number : Nat) : BlockError → Failure
  | .rejected cause => rejected number cause
  | .internal cause => internal number cause

end Failure

end CommandLine

end StateTransition
