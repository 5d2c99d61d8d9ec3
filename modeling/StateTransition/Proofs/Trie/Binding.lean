import StateTransition.Proofs.Trie.History
import StateTransition.Proofs.Rlp.Field

/-! The digest of a tree binds its entries. Trees with one digest hold the same entries, or two of
their nodes have different encodings with the same digest. -/
namespace StateTransition

namespace Trie

namespace Node

/-- The nodes of a tree: its root, and those of the trees below. -/
inductive Within : Node → Node → Prop where
  | root (n : Node) : Within n n
  | extension {n child : Node} (path : List Nibble) (h : Within n child) : Within n (extension path child)
  | branch {n : Node} {children : Nibble → Node} (i : Nibble) (value : Option Bytes)
      (h : Within n (children i)) : Within n (branch children value)

/-- The encodings of all nodes have lengths of at most eight bytes. -/
def Bounded (n : Node) : Prop := ∀ a, Within a n → a.encode.length < countLimit

/-- Two different encodings, of a node of either tree, have the same digest. -/
def Collide (n m : Node) : Prop :=
  ∃ a b, Within a n ∧ Within b m ∧ a.encode ≠ b.encode ∧ keccak a.encode = keccak b.encode

variable {n m child child' : Node} {children children' : Nibble → Node}

private theorem Collide.extension (path path' : List Nibble) (h : Collide child child') :
    Collide (extension path child) (extension path' child') := by
  obtain ⟨a, b, ha, hb, hc⟩ := h
  exact ⟨a, b, ha.extension path, hb.extension path', hc⟩

private theorem Collide.branch (i : Nibble) (value value' : Option Bytes) (h : Collide (children i) (children' i)) :
    Collide (branch children value) (branch children' value') := by
  obtain ⟨a, b, ha, hb, hc⟩ := h
  exact ⟨a, b, ha.branch i value, hb.branch i value', hc⟩

/-- What stands for a node in its parent tells the node, unless digests collide. -/
private theorem reference_cases {x y : Rlp.Item} (hx : x.encode.length < countLimit) (h : reference x = reference y) :
    x = y ∨ (x.encode ≠ y.encode ∧ keccak x.encode = keccak y.encode) := by
  by_cases hs : x.encode.length < 32 <;> by_cases hs' : y.encode.length < 32
  · left
    simpa only [reference, hs, hs', if_true] using h
  · simp only [reference, hs, hs', if_true, if_false] at h
    rw [h, Rlp.Item.length_encode_ofHash] at hs
    omega
  · simp only [reference, hs, hs', if_true, if_false] at h
    rw [← h, Rlp.Item.length_encode_ofHash] at hs'
    omega
  · simp only [reference, hs, hs', if_false, Rlp.Item.ofHash, Rlp.Item.bytes.injEq] at h
    have hk := Hash.toBytes_injective h
    by_cases he : x.encode = y.encode
    · exact Or.inl (Rlp.encode_injective hx he)
    · exact Or.inr ⟨he, hk⟩

/-- What stands for a child is settled by the items of the child's own tree. -/
private theorem child_cases (hb : Bounded child) (h : reference child.toItem = reference child'.toItem)
    (ih : child.toItem = child'.toItem → child = child' ∨ Collide child child') :
    child = child' ∨ Collide child child' := by
  rcases reference_cases (hb child (.root child)) h with he | ⟨hne, hk⟩
  · exact ih he
  · exact Or.inr ⟨child, child', .root child, .root child', hne, hk⟩

private theorem value_eq_of_getD {value value' : Option Bytes} (h : value ≠ some []) (h' : value' ≠ some [])
    (he : value.getD [] = value'.getD []) : value = value' := by
  cases value <;> cases value' <;> simp_all

private theorem branch_items {f g : Nibble → Rlp.Item} {x y : Rlp.Item}
    (h : (List.finRange 16).map f ++ [x] = (List.finRange 16).map g ++ [y]) : (∀ i, f i = g i) ∧ x = y := by
  obtain ⟨hm, hx⟩ := List.append_inj h (by simp)
  exact ⟨fun i => List.map_inj_left.mp hm i (List.mem_finRange i), List.singleton_inj.mp hx⟩

/-- Canonical trees with one item are the same, unless digests of nodes below collide. -/
private theorem eq_or_collide (hn : n.Canonical) (hm : m.Canonical) (hb : Bounded n) (h : n.toItem = m.toItem) :
    n = m ∨ Collide n m := by
  induction n generalizing m with
  | empty =>
    cases m with
    | empty => exact Or.inl rfl
    | leaf path value => simp [toItem] at h
    | extension path child => simp [toItem] at h
    | branch children value => simp [toItem] at h
  | leaf path value =>
    cases m with
    | empty => simp [toItem] at h
    | leaf path' value' =>
      simp only [toItem, Rlp.Item.list.injEq, List.cons.injEq, Rlp.Item.bytes.injEq, and_true] at h
      left
      rw [(Nibble.hexPrefix_injective h.1).1, h.2]
    | extension path' child =>
      simp only [toItem, Rlp.Item.list.injEq, List.cons.injEq, Rlp.Item.bytes.injEq] at h
      cases (Nibble.hexPrefix_injective h.1).2
    | branch children value' =>
      have hl := congrArg List.length (Rlp.Item.list.inj h)
      simp at hl
  | extension path child ih =>
    cases m with
    | empty => simp [toItem] at h
    | leaf path' value' =>
      simp only [toItem, Rlp.Item.list.injEq, List.cons.injEq, Rlp.Item.bytes.injEq] at h
      cases (Nibble.hexPrefix_injective h.1).2
    | extension path' child' =>
      simp only [toItem, Rlp.Item.list.injEq, List.cons.injEq, Rlp.Item.bytes.injEq, and_true] at h
      have hbc : Bounded child := fun a ha => hb a (ha.extension path)
      rcases child_cases hbc h.2 (ih hn.2.2 hm.2.2 hbc) with hc | hc
      · left
        rw [(Nibble.hexPrefix_injective h.1).1, hc]
      · exact Or.inr (hc.extension path path')
    | branch children value' =>
      have hl := congrArg List.length (Rlp.Item.list.inj h)
      simp at hl
  | branch children value ih =>
    cases m with
    | empty => simp [toItem] at h
    | leaf path' value' =>
      have hl := congrArg List.length (Rlp.Item.list.inj h)
      simp at hl
    | extension path' child' =>
      have hl := congrArg List.length (Rlp.Item.list.inj h)
      simp at hl
    | branch children' value' =>
      obtain ⟨hr, hv⟩ := branch_items (Rlp.Item.list.inj h)
      have hv : value = value' := value_eq_of_getD hn.2.1 hm.2.1 (Rlp.Item.bytes.inj hv)
      have hc : ∀ i, children i = children' i ∨ Collide (children i) (children' i) := by
        intro i
        have hbc : Bounded (children i) := fun a ha => hb a (ha.branch i value)
        exact child_cases hbc (hr i) (ih i (hn.1 i) (hm.1 i) hbc)
      by_cases hall : ∀ i, children i = children' i
      · left
        rw [hv, funext hall]
      · obtain ⟨i, hi⟩ := not_forall.mp hall
        exact Or.inr (((hc i).resolve_left hi).branch i value value')

theorem eq_or_collide_of_rootHash (hn : n.Canonical) (hm : m.Canonical) (hb : Bounded n)
    (h : n.rootHash = m.rootHash) : n = m ∨ Collide n m := by
  by_cases he : n.encode = m.encode
  · exact eq_or_collide hn hm hb (Rlp.encode_injective (hb n (.root n)) he)
  · exact Or.inr ⟨n, m, .root n, .root m, he, h⟩

end Node

/-- Two runs of edits that end in one digest leave the same value for every key, or a node of either
tree is encoded in different bytes with the same digest. -/
theorem get?_eq_of_rootHash_eq (edits edits' : List Edit) (hb : (ofEdits edits).root.Bounded)
    (h : (ofEdits edits).rootHash = (ofEdits edits').rootHash) :
    (∀ key, (ofEdits edits).get? key = (ofEdits edits').get? key) ∨
      Node.Collide (ofEdits edits).root (ofEdits edits').root := by
  rcases Node.eq_or_collide_of_rootHash (represents_ofEdits edits).canonical
    (represents_ofEdits edits').canonical hb h with he | hc
  · left
    intro key
    rw [get?, he, get?]
  · exact Or.inr hc

/-- Two keys entered in two orders, one of them by way of a third key that is removed again. -/
theorem get?_eq_of_two_orders :
    let edits := [Edit.insert [0x12] [1], .insert [0x34] [2]]
    let edits' := [Edit.insert [0x34] [2], .insert [0x56] [7], .insert [0x12] [1], .erase [0x56]]
    (ofEdits edits).root.Bounded ∧ (ofEdits edits).rootHash = (ofEdits edits').rootHash ∧
      ((∀ key, (ofEdits edits).get? key = (ofEdits edits').get? key) ∨
        Node.Collide (ofEdits edits).root (ofEdits edits').root) := by
  intro edits edits'
  have hm : entriesOf edits = entriesOf edits' := by
    apply Std.ExtTreeMap.ext_getElem?
    intro key
    change (((∅ : Entries).insert [0x12] [1]).insert [0x34] [2])[key]? =
      ((((∅ : Entries).insert [0x34] [2]).insert [0x56] [7]).insert [0x12] [1] |>.erase [0x56])[key]?
    simp only [Std.ExtTreeMap.getElem?_insert, Std.ExtTreeMap.getElem?_erase, Std.compare_eq_iff_eq]
    grind
  have hr : (ofEdits edits).root = (ofEdits edits').root :=
    (represents_ofEdits edits).root_eq (hm ▸ represents_ofEdits edits')
  have hb : (ofEdits edits).root.Bounded := by
    have he : (ofEdits edits).root = .branch (Node.setChild (Node.setChild (fun _ => .empty) 1 (.leaf [2] [1])) 3
        (.leaf [4] [2])) none := by
      simp [edits, ofEdits, Edit.apply, insert, empty, Node.insert, Nibble.ofBytes, Nibble.high, Nibble.low,
        Nibble.splitCommon, Node.fork, Node.addEntry, Node.under]
    rw [he]
    intro a ha
    cases ha with
    | root => decide
    | branch i _ h =>
      by_cases h3 : i = 3
      · rw [h3, Node.setChild_self] at h
        cases h
        decide
      · rw [Node.setChild_of_ne h3] at h
        by_cases h1 : i = 1
        · rw [h1, Node.setChild_self] at h
          cases h
          decide
        · rw [Node.setChild_of_ne h1] at h
          cases h
          decide
  have hh : (ofEdits edits).rootHash = (ofEdits edits').rootHash := by rw [rootHash, hr, rootHash]
  exact ⟨hb, hh, get?_eq_of_rootHash_eq edits edits' hb hh⟩

end Trie

end StateTransition
