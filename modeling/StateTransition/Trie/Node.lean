import StateTransition.Trie.Nibble
import StateTransition.Rlp.Field
import StateTransition.Hash.Keccak

/-! Nodes of the hash tree and their encoding, in which a child takes the place of its digest
while its own encoding is shorter than one. -/
namespace StateTransition

namespace Trie

inductive Node where
  | empty
  | leaf (path : List Nibble) (value : Bytes)
  | extension (path : List Nibble) (child : Node)
  | branch (children : Nibble → Node) (value : Option Bytes)

namespace Node

def isEmpty : Node → Bool
  | empty => true
  | _ => false

/-- The item that stands for a node in its parent. -/
def reference (item : Rlp.Item) : Rlp.Item :=
  let encoded := item.encode
  if encoded.length < 32 then item else .ofHash (keccak encoded)

def toItem : Node → Rlp.Item
  | empty => .bytes []
  | leaf path value => .list [.bytes (Nibble.hexPrefix path true), .bytes value]
  | extension path child =>
    .list [.bytes (Nibble.hexPrefix path false), reference child.toItem]
  | branch children value =>
    .list ((List.finRange 16).map (fun i => reference (children i).toItem) ++ [.bytes (value.getD [])])

def encode (n : Node) : Bytes := n.toItem.encode

/-- The digest of a node, also of one that is shorter than a digest. -/
def rootHash (n : Node) : Hash := keccak n.encode

end Node

end Trie

end StateTransition
