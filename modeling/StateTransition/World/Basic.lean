import StateTransition.World.Account
import StateTransition.Trie.Basic
import Std.Data.ExtTreeMap
import Std.Data.ExtTreeSet

/-! The state of all accounts, with nested checkpoints over a journal of undo records. A slot that
holds zero is not stored, and what a transaction found is remembered until the next one begins. -/
namespace StateTransition

instance Address.transOrd : Std.TransOrd Address := inferInstanceAs (Std.TransOrd (BitVec 160))

instance Hash.transOrd : Std.TransOrd Hash := inferInstanceAs (Std.TransOrd (BitVec 256))

/-- The slots of one account that are not zero. -/
abbrev Slots := Std.ExtTreeMap Hash Word

structure SlotKey where
  owner : Address
  key : Hash
  deriving DecidableEq, Repr

namespace SlotKey

instance : Ord SlotKey := ⟨compareLex (compareOn owner) (compareOn key)⟩

instance : Std.TransOrd SlotKey :=
  inferInstanceAs (Std.TransCmp (compareLex (compareOn owner) (compareOn key)))

instance : Std.LawfulEqOrd SlotKey where
  eq_of_compare {a b} h := by
    have h := compareLex_eq_eq.1 h
    cases a
    cases b
    simp_all [compareOn]

end SlotKey

/-- What takes one change back. -/
inductive Undo where
  /-- The record that an account had, if it had one. -/
  | account (address : Address) (previous : Option Account)
  /-- What a slot held. -/
  | slot (owner : Address) (key : Hash) (previous : Word)
  /-- The slots that an account had when all of them were cleared. -/
  | slots (owner : Address) (previous : Slots)

structure World where
  accounts : Std.ExtTreeMap Address Account
  /-- The slots of each account that has any. -/
  storage : Std.ExtTreeMap Address Slots
  /-- Every code ever installed, by its digest. -/
  codes : Std.ExtTreeMap Hash ByteArray
  /-- What takes back the changes made under open checkpoints, newest first. -/
  journal : List Undo
  /-- How long the journal was at each open checkpoint, innermost first. -/
  checkpoints : List Nat
  /-- What the slots written since the transaction began held before. -/
  initial : Std.ExtTreeMap SlotKey Word
  /-- The accounts created since the transaction began. -/
  created : Std.ExtTreeSet Address

/-- A change to the world that cannot be made, or a run over it that cannot go on. -/
inductive WorldError where
  | nonceOverflow (address : Address)
  | insufficientBalance (address : Address) (needed available : Word)
  | balanceOverflow (address : Address)
  | noCheckpoint
  /-- Gas that a frame got back was too much for a count. -/
  | gasOverflow
  /-- A sum or difference of another kind did not fit the number that holds it. -/
  | overflow
  /-- A buffer was to be longer than one can be. -/
  | bufferOverflow
  deriving DecidableEq, Repr

def WorldError.message : WorldError → String
  | .nonceOverflow address => s!"nonce overflow for {address.toHex}"
  | .insufficientBalance address needed available =>
    s!"insufficient balance for {address.toHex}: need {needed.toNat}, have {available.toNat}"
  | .balanceOverflow address => s!"balance overflow for {address.toHex}"
  | .noCheckpoint => "no open checkpoint"
  | .gasOverflow | .overflow => "arithmetic overflow"
  | .bufferOverflow => "capacity overflow"

instance : ToString WorldError := ⟨WorldError.message⟩

/-- Changes to the world; one that fails keeps what was done before. -/
abbrev WorldM := EStateM WorldError World

namespace World

def empty : World := ⟨∅, ∅, ∅, [], [], ∅, ∅⟩

/-- Forgets checkpoints and what the last transaction found. -/
def beginTransaction (w : World) : World :=
  { w with journal := [], checkpoints := [], initial := ∅, created := ∅ }

def slots (w : World) (a : Address) : Slots := w.storage[a]?.getD ∅

/-- Puts a record in place or removes it, with no note of what was there. -/
def putAccount (a : Address) (record : Option Account) (w : World) : World :=
  match record with
  | some r => { w with accounts := w.accounts.insert a r }
  | none => { w with accounts := w.accounts.erase a }

/-- Puts all slots of an account in place, with no note of what was there. -/
def putSlots (a : Address) (slots : Slots) (w : World) : World :=
  { w with storage := if slots.isEmpty then w.storage.erase a else w.storage.insert a slots }

/-- Writes a slot without remembering what it held. -/
def writeSlot (a : Address) (k : Hash) (value : Word) (w : World) : World :=
  w.putSlots a (if value = 0 then (w.slots a).erase k else (w.slots a).insert k value)

/-- Notes how to take a change back, while a checkpoint is open. -/
def record (u : Undo) (w : World) : World :=
  if w.checkpoints.isEmpty then w else { w with journal := u :: w.journal }

def undo (w : World) : Undo → World
  | .account a previous => w.putAccount a previous
  | .slot a k previous => w.writeSlot a k previous
  | .slots a previous => w.putSlots a previous

/-- Takes back, newest first, all changes but the oldest `mark` of the journal. -/
def unwind (mark : Nat) (w : World) : World :=
  let undone := w.journal.length - mark
  { (w.journal.take undone).foldl undo w with journal := w.journal.drop undone }

def checkpoint (w : World) : World := { w with checkpoints := w.journal.length :: w.checkpoints }

/-- Takes back every change since the innermost checkpoint, and closes it. -/
def revert : WorldM Unit := do
  let w ← get
  match w.checkpoints with
  | [] => throw .noCheckpoint
  | mark :: rest => set (unwind mark { w with checkpoints := rest })

/-- Closes the innermost checkpoint and keeps what was done since; the changes count as made under
the next one, and are beyond recall if there is none. -/
def commit : WorldM Unit := do
  let w ← get
  match w.checkpoints with
  | [] => throw .noCheckpoint
  | [_] => set { w with checkpoints := [], journal := [] }
  | _ :: rest => set { w with checkpoints := rest }

def account? (w : World) (a : Address) : Option Account := w.accounts[a]?

def accountOrEmpty (w : World) (a : Address) : Account := (w.account? a).getD .empty

def hasAccount (w : World) (a : Address) : Bool := (w.account? a).isSome

def isAlive (w : World) (a : Address) : Bool := (w.account? a).any fun r => !r.isEmpty

def isEmptyAccount (w : World) (a : Address) : Bool := (w.account? a).any Account.isEmpty

/-- Whether an account stands in the way of a creation at its address. -/
def hasCodeOrNonce (w : World) (a : Address) : Bool :=
  (w.account? a).any fun r => r.nonce ≠ 0 || r.hasCode

/-- Replaces or removes a record; the storage stays. -/
def setAccount (a : Address) (record : Option Account) (w : World) : World :=
  (w.putAccount a record).record (.account a (w.account? a))

def updateAccount (a : Address) (f : Account → Account) (w : World) : World :=
  w.setAccount a (some (f (w.accountOrEmpty a)))

/-- Gives an account without a record an empty one. -/
def touch (a : Address) (w : World) : World :=
  if w.hasAccount a then w else w.setAccount a (some .empty)

/-- Remembers what a slot held, unless that is known already. -/
def rememberSlot (a : Address) (k : Hash) (value : Word) (w : World) : World :=
  { w with initial := w.initial.insertIfNew ⟨a, k⟩ value }

def destroyStorage (a : Address) (w : World) : World :=
  match w.storage[a]? with
  | none => w
  | some slots =>
    let w := slots.toList.foldl (fun w (k, value) => w.rememberSlot a k value) w
    { w with storage := w.storage.erase a }.record (.slots a slots)

def destroyAccount (a : Address) (w : World) : World := (w.destroyStorage a).setAccount a none

def markCreated (a : Address) (w : World) : World := { w with created := w.created.insert a }

def isCreated (w : World) (a : Address) : Bool := w.created.contains a

def incrementNonce (a : Address) : WorldM Unit := do
  let r := (← get).accountOrEmpty a
  if r.nonce.toNat + 1 < countLimit then
    modify (setAccount a (some { r with nonce := r.nonce + 1 }))
  else throw (.nonceOverflow a)

def setNonce (a : Address) (nonce : UInt64) (w : World) : World :=
  w.updateAccount a fun r => { r with nonce }

def balance (w : World) (a : Address) : Word := (w.accountOrEmpty a).balance

def setBalance (a : Address) (balance : Word) (w : World) : World :=
  w.updateAccount a fun r => { r with balance }

def addBalance (a : Address) (amount : Word) : WorldM Unit := do
  match ((← get).balance a).add? amount with
  | some sum => modify (setBalance a sum)
  | none => throw (.balanceOverflow a)

def subBalance (a : Address) (amount : Word) : WorldM Unit := do
  let available := (← get).balance a
  match available.sub? amount with
  | some rest => modify (setBalance a rest)
  | none => throw (.insufficientBalance a amount available)

def transfer (source target : Address) (amount : Word) : WorldM Unit := do
  subBalance source amount
  addBalance target amount

def codeOfHash (w : World) (h : Hash) : ByteArray :=
  if h = emptyCodeHash then ByteArray.empty else w.codes[h]?.getD ByteArray.empty

def code (w : World) (a : Address) : ByteArray :=
  match w.account? a with
  | some r => w.codeOfHash r.codeHash
  | none => ByteArray.empty

def setCode (a : Address) (code : ByteArray) (w : World) : World :=
  let codeHash := keccak256 code
  let w := if code.isEmpty then w else { w with codes := w.codes.insertIfNew codeHash code }
  w.updateAccount a fun r => { r with codeHash }

def slot (w : World) (a : Address) (k : Hash) : Word := (w.slots a)[k]?.getD 0

/-- What a slot held when the transaction began; zero for an account created since. -/
def initialSlot (w : World) (a : Address) (k : Hash) : Word :=
  if w.isCreated a then 0 else w.initial[(⟨a, k⟩ : SlotKey)]?.getD (w.slot a k)

def setSlot (a : Address) (k : Hash) (value : Word) (w : World) : World :=
  let previous := w.slot a k
  ((w.rememberSlot a k previous).writeSlot a k value).record (.slot a k previous)

def storageRoot (w : World) (a : Address) : Hash :=
  (Trie.ofListHashed ((w.slots a).toList.map fun (k, value) =>
    (k.toBytes, (Rlp.Item.ofWord value).encode))).rootHash

def stateRoot (w : World) : Hash :=
  (Trie.ofListHashed (w.accounts.toList.map fun (a, r) =>
    (a.toBytes, (r.toItem (w.storageRoot a)).encode))).rootHash

end World

end StateTransition
