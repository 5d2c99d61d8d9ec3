import StateTransition.Trie.Node

/-! A finite map of byte strings as a hash tree. Every operation leaves the one tree of its
entries: extensions are never empty and stand above branches, branches have two entries. -/
namespace StateTransition

namespace Trie

namespace Node

def get? : Node → List Nibble → Option Bytes
  | empty, _ => none
  | leaf own value, path => if own = path then some value else none
  | extension own child, path =>
    match Nibble.splitCommon own path with
    | (_, [], rest) => child.get? rest
    | _ => none
  | branch _ value, [] => value
  | branch children _, nibble :: rest => (children nibble).get? rest

def setChild (children : Nibble → Node) (nibble : Nibble) (child : Node) : Nibble → Node :=
  fun i => if i = nibble then child else children i

@[noinline] def ofTable (table : Vector Node 16) (value : Option Bytes) : Node :=
  branch (fun i => table[i]) value

def tabulated (children : Nibble → Node) (value : Option Bytes) : Node :=
  ofTable (Vector.ofFn children) value

@[simp] theorem tabulated_eq_branch (children : Nibble → Node) (value : Option Bytes) :
    tabulated children value = branch children value := by
  simp [tabulated, ofTable]

/-- A branch with one more entry, at a place where it has none. -/
def addEntry (children : Nibble → Node) (value : Option Bytes) (path : List Nibble)
    (entry : Bytes) : Node :=
  match path with
  | [] => tabulated children (some entry)
  | nibble :: rest => tabulated (setChild children nibble (leaf rest entry)) value

/-- A node below a path, with no extension for the empty path. -/
def under (path : List Nibble) (n : Node) : Node :=
  match path with
  | [] => n
  | path => extension path n

/-- The two-entry branch of different paths, below what they have in common. -/
def fork (common ownRest : List Nibble) (ownValue : Bytes) (rest : List Nibble) (value : Bytes) :
    Node :=
  under common <|
    match ownRest with
    | [] => addEntry (fun _ => empty) (some ownValue) rest value
    | nibble :: ownRest =>
      addEntry (setChild (fun _ => empty) nibble (leaf ownRest ownValue)) none rest value

def insert : Node → List Nibble → Bytes → Node
  | empty, path, value => leaf path value
  | leaf own ownValue, path, value =>
    match Nibble.splitCommon own path with
    | (_, [], []) => leaf own value
    | (common, ownRest, rest) => fork common ownRest ownValue rest value
  | extension own child, path, value =>
    match Nibble.splitCommon own path with
    | (_, [], rest) => extension own (child.insert rest value)
    | (common, nibble :: ownRest, rest) =>
      under common (addEntry (setChild (fun _ => empty) nibble (under ownRest child)) none rest value)
  | branch children _, [], value => branch children (some value)
  | branch children own, nibble :: rest, value =>
    tabulated (setChild children nibble ((children nibble).insert rest value)) own

/-- A tree below a path, the path joined to one that the tree begins with. -/
def merge (path : List Nibble) : Node → Node
  | empty => empty
  | leaf own value => leaf (path ++ own) value
  | extension own child => extension (path ++ own) child
  | branch children value => extension path (branch children value)

/-- A branch, or what takes its place when fewer than two entries are left. -/
def collapse (children : Nibble → Node) (value : Option Bytes) : Node :=
  match (List.finRange 16).filter (fun i => !(children i).isEmpty), value with
  | [], none => empty
  | [], some value => leaf [] value
  | [nibble], none => merge [nibble] (children nibble)
  | _, value => tabulated children value

def erase : Node → List Nibble → Node
  | empty, _ => empty
  | leaf own value, path => if own = path then empty else leaf own value
  | extension own child, path =>
    match Nibble.splitCommon own path with
    | (_, [], rest) => merge own (child.erase rest)
    | _ => extension own child
  | branch children _, [] => collapse children none
  | branch children value, nibble :: rest =>
    collapse (setChild children nibble ((children nibble).erase rest)) value

end Node

end Trie

structure Trie where
  root : Trie.Node

namespace Trie

def empty : Trie := ⟨.empty⟩

def isEmpty (t : Trie) : Bool := t.root.isEmpty

def get? (t : Trie) (key : Bytes) : Option Bytes := t.root.get? (Nibble.ofBytes key)

def erase (t : Trie) (key : Bytes) : Trie := ⟨t.root.erase (Nibble.ofBytes key)⟩

/-- The map with the value of a key set; the empty value removes the key. -/
def insert (t : Trie) (key value : Bytes) : Trie :=
  if value.isEmpty then t.erase key else ⟨t.root.insert (Nibble.ofBytes key) value⟩

def rootHash (t : Trie) : Hash := t.root.rootHash

/-- The map of the listed entries, a later one in place of an earlier one. -/
def ofList (entries : List (Bytes × Bytes)) : Trie :=
  entries.foldl (fun t (key, value) => t.insert key value) empty

/-- The name under which a key is entered when keys are hashed. -/
def hashedKey (key : Bytes) : Bytes := (keccak key).toBytes

def ofListHashed (entries : List (Bytes × Bytes)) : Trie :=
  ofList (entries.map fun (key, value) => (hashedKey key, value))

/-- The map that enters each value under its encoded position. -/
def ofValues (values : List Bytes) : Trie :=
  ofList (values.zipIdx.map fun (value, i) => ((Rlp.Item.ofNat i).encode, value))

end Trie

end StateTransition
