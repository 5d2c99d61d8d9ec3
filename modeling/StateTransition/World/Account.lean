import StateTransition.Hash.Keccak
import StateTransition.Rlp.Field

/-! Account records. -/
namespace StateTransition

/-- What the world holds for an account beside its storage. -/
structure Account where
  nonce : UInt64
  balance : Word
  codeHash : Hash
  deriving DecidableEq, Repr

namespace Account

def empty : Account := ⟨0, 0, emptyCodeHash⟩

def isEmpty (a : Account) : Bool := a.nonce = 0 && a.balance = 0 && a.codeHash = emptyCodeHash

def hasCode (a : Account) : Bool := a.codeHash ≠ emptyCodeHash

def toItem (a : Account) (storageRoot : Hash) : Rlp.Item :=
  .list [.ofCount a.nonce, .ofWord a.balance, .ofHash storageRoot, .ofHash a.codeHash]

end Account

end StateTransition
