import StateTransition.Proofs.Trie.Hashed
import StateTransition.Proofs.World.Operation

/-! The state root and the state. Worlds with the same accounts, and the same slots of these, have one
root; worlds with one root have the same, or two of the byte strings that go into it have one digest. -/
namespace StateTransition

namespace Account

variable {r r' : Account} {root root' : Hash}

private theorem length_encode_toItem_le (r : Account) (root : Hash) : (r.toItem root).encode.length ≤ 173 := by
  have hnonce := Rlp.Item.length_encode_ofCount_le r.nonce
  have hbalance := Rlp.Item.length_encode_ofWord_le r.balance
  have hroot := Rlp.Item.length_encode_ofHash root
  have hcode := Rlp.Item.length_encode_ofHash r.codeHash
  have hfields : ∀ item ∈ [.ofCount r.nonce, .ofWord r.balance, .ofHash root, .ofHash r.codeHash],
      (item : Rlp.Item).encode.length ≤ 41 := by
    simp only [List.forall_mem_cons]
    exact ⟨by omega, by omega, by omega, by omega, by simp⟩
  exact Rlp.Item.length_encode_list_le hfields (by simp [countLimit])

/-- The entry of an account tells its record and the root of its slots. -/
private theorem encode_toItem_inj (h : (r.toItem root).encode = (r'.toItem root').encode) :
    r = r' ∧ root = root' := by
  have hlen := length_encode_toItem_le r root
  have hitem := Rlp.encode_injective (by rw [countLimit]; omega) h
  simp only [toItem, Rlp.Item.list.injEq, List.cons.injEq, and_true] at hitem
  obtain ⟨hnonce, hbalance, hroot, hcode⟩ := hitem
  have hnonce := Rlp.Item.injective_of_eq_ok_iff Rlp.Item.toCount_eq_ok_iff hnonce
  have hbalance := Rlp.Item.injective_of_eq_ok_iff Rlp.Item.toWord_eq_ok_iff hbalance
  have hroot := Rlp.Item.injective_of_eq_ok_iff Rlp.Item.toHash_eq_ok_iff hroot
  have hcode := Rlp.Item.injective_of_eq_ok_iff Rlp.Item.toHash_eq_ok_iff hcode
  cases r
  cases r'
  exact ⟨by simp_all, hroot⟩

end Account

namespace World

variable {w w' : World} {a : Address} {s : Set Bytes}

def slotEntries (w : World) (a : Address) : List (Bytes × Bytes) :=
  (w.slots a).toList.map fun e => (e.1.toBytes, (Rlp.Item.ofWord e.2).encode)

def accountEntries (w : World) : List (Bytes × Bytes) :=
  w.accounts.toList.map fun e => (e.1.toBytes, (e.2.toItem (w.storageRoot e.1)).encode)

/-- The byte strings that the state root is made of: the names of accounts and of their slots, and the
nodes of the tree of accounts and of the trees of slots that the accounts have. -/
inductive Committed (w : World) : Bytes → Prop where
  | address {a : Address} (h : w.hasAccount a = true) : Committed w a.toBytes
  | slotKey {a : Address} {k : Hash} (h : w.hasAccount a = true) (hk : w.slot a k ≠ 0) : Committed w k.toBytes
  | accountNode {n : Trie.Node} (h : Trie.Node.Within n (Trie.ofListHashed w.accountEntries).root) :
    Committed w n.encode
  | slotNode {a : Address} {n : Trie.Node} (h : w.hasAccount a = true)
    (hn : Trie.Node.Within n (Trie.ofListHashed (w.slotEntries a)).root) : Committed w n.encode

structure SameState (w w' : World) : Prop where
  accounts : ∀ a, w.account? a = w'.account? a
  slots : ∀ a k, w.hasAccount a = true → w.slot a k = w'.slot a k

private theorem storageRoot_eq (w : World) (a : Address) :
    w.storageRoot a = (Trie.ofListHashed (w.slotEntries a)).rootHash := rfl

private theorem stateRoot_eq (w : World) : w.stateRoot = (Trie.ofListHashed w.accountEntries).rootHash := rfl

private theorem mem_slotEntries {e : Bytes × Bytes} :
    e ∈ w.slotEntries a ↔
      ∃ (k : Hash) (v : Word), (w.slots a)[k]? = some v ∧ (k.toBytes, (Rlp.Item.ofWord v).encode) = e := by
  rw [slotEntries, List.mem_map, Prod.exists]
  simp only [Std.ExtTreeMap.mem_toList_iff_getElem?_eq_some]

private theorem mem_accountEntries {e : Bytes × Bytes} :
    e ∈ w.accountEntries ↔
      ∃ a r, w.account? a = some r ∧ (a.toBytes, (r.toItem (w.storageRoot a)).encode) = e := by
  rw [accountEntries, List.mem_map, Prod.exists]
  simp only [Std.ExtTreeMap.mem_toList_iff_getElem?_eq_some, account?]

private theorem hasAccount_iff : w.hasAccount a = true ↔ ∃ r, w.account? a = some r := Option.isSome_iff_exists

private theorem listing_slotEntries (w : World) (a : Address) : Trie.Listing (w.slotEntries a) := by
  apply Trie.listing_of_map _ Hash.toBytes_injective
  intro e
  exact Nat.lt_of_le_of_lt (Rlp.Item.length_encode_ofWord_le e.2) (by decide)

private theorem listing_accountEntries (w : World) : Trie.Listing w.accountEntries := by
  apply Trie.listing_of_map _ Address.toBytes_injective
  intro e
  exact Nat.lt_of_le_of_lt (e.2.length_encode_toItem_le (w.storageRoot e.1)) (by decide)

private theorem covers_slotEntries (hw : w.Tidy) (h : ∀ bs, Committed w bs → bs ∈ s) (ha : w.hasAccount a = true) :
    Trie.Covers s (w.slotEntries a) where
  keys := by
    intro e he
    obtain ⟨k, v, hk, rfl⟩ := mem_slotEntries.mp he
    have hv : v ≠ 0 := fun hv => hw.nonZero a k (hv ▸ hk)
    have hslot : w.slot a k = v := by rw [slot, hk, Option.getD_some]
    exact h _ (.slotKey ha (hslot ▸ hv))
  nodes n hn := h _ (.slotNode ha hn)

private theorem covers_accountEntries (h : ∀ bs, Committed w bs → bs ∈ s) : Trie.Covers s w.accountEntries where
  keys := by
    intro e he
    obtain ⟨a, r, ha, rfl⟩ := mem_accountEntries.mp he
    exact h _ (.address (hasAccount_iff.mpr ⟨r, ha⟩))
  nodes n hn := h _ (.accountNode hn)

/-! ### From the state to its root -/

/-- Slots without zeros are a function of what they hold, so both roots are of trees of the same lists. -/
theorem SameState.stateRoot_eq (hw : w.Tidy) (hw' : w'.Tidy) (h : SameState w w') :
    w.stateRoot = w'.stateRoot := by
  have haccounts : w.accounts = w'.accounts := Std.ExtTreeMap.ext_getElem? h.accounts
  have hentries : w.accountEntries = w'.accountEntries := by
    rw [accountEntries, accountEntries, ← haccounts]
    apply List.map_congr_left
    intro e he
    have ha : w.hasAccount e.1 = true :=
      hasAccount_iff.mpr ⟨e.2, Std.ExtTreeMap.mem_toList_iff_getElem?_eq_some.mp he⟩
    have hslots : w.slots e.1 = w'.slots e.1 :=
      (hw.nonZero e.1).ext (hw'.nonZero e.1) fun k => h.slots e.1 k ha
    rw [storageRoot_eq, storageRoot_eq, slotEntries, slotEntries, hslots]
  rw [World.stateRoot_eq, World.stateRoot_eq, hentries]

/-! ### From the root to the state -/

section Binding

variable (hs : Set.InjOn keccak s) (h : ∀ bs, Committed w bs → bs ∈ s) (h' : ∀ bs, Committed w' bs → bs ∈ s)

include hs h h'

/-- An account is found under its address in the other world's tree, so with the same entry there. -/
private theorem account?_of_stateRoot_eq (hroot : w.stateRoot = w'.stateRoot) {r : Account}
    (ha : w.account? a = some r) :
    w'.account? a = some r ∧ w.storageRoot a = w'.storageRoot a := by
  rw [stateRoot_eq, stateRoot_eq] at hroot
  have hmem := (listing_accountEntries w).mem_of_rootHash_eq hs (covers_accountEntries h)
    (listing_accountEntries w') (covers_accountEntries h') hroot (mem_accountEntries.mpr ⟨a, r, ha, rfl⟩)
  obtain ⟨b, r', hb, he⟩ := mem_accountEntries.mp hmem
  obtain ⟨hkey, hvalue⟩ := Prod.mk.inj he
  obtain rfl := Address.toBytes_injective hkey
  obtain ⟨rfl, hstorage⟩ := Account.encode_toItem_inj hvalue
  exact ⟨hb, hstorage.symm⟩

private theorem slots_of_storageRoot_eq (hw : w.Tidy) (hw' : w'.Tidy) (ha : w.hasAccount a = true)
    (ha' : w'.hasAccount a = true) (hroot : w.storageRoot a = w'.storageRoot a) {k : Hash} {v : Word}
    (hk : (w.slots a)[k]? = some v) : (w'.slots a)[k]? = some v := by
  rw [storageRoot_eq, storageRoot_eq] at hroot
  have hmem := (listing_slotEntries w a).mem_of_rootHash_eq hs (covers_slotEntries hw h ha)
    (listing_slotEntries w' a) (covers_slotEntries hw' h' ha') hroot (mem_slotEntries.mpr ⟨k, v, hk, rfl⟩)
  obtain ⟨q, v', hq, he⟩ := mem_slotEntries.mp hmem
  obtain ⟨hkey, hvalue⟩ := Prod.mk.inj he
  obtain rfl := Hash.toBytes_injective hkey
  have hlen := Rlp.Item.length_encode_ofWord_le v'
  have hitem := Rlp.encode_injective (by rw [countLimit]; omega) hvalue
  obtain rfl := Rlp.Item.injective_of_eq_ok_iff Rlp.Item.toWord_eq_ok_iff hitem
  exact hq

private theorem sameState_of_stateRoot_eq (hw : w.Tidy) (hw' : w'.Tidy) (hroot : w.stateRoot = w'.stateRoot) :
    SameState w w' where
  accounts := by
    intro a
    apply Option.ext
    intro r
    constructor
    · intro ha
      exact (account?_of_stateRoot_eq hs h h' hroot ha).1
    · intro ha
      exact (account?_of_stateRoot_eq hs h' h hroot.symm ha).1
  slots := by
    intro a k ha
    obtain ⟨r, hr⟩ := hasAccount_iff.mp ha
    obtain ⟨hr', hstorage⟩ := account?_of_stateRoot_eq hs h h' hroot hr
    have ha' : w'.hasAccount a = true := hasAccount_iff.mpr ⟨r, hr'⟩
    have hk : (w.slots a)[k]? = (w'.slots a)[k]? := by
      apply Option.ext
      intro v
      constructor
      · exact slots_of_storageRoot_eq hs h h' hw hw' ha ha' hstorage
      · exact slots_of_storageRoot_eq hs h' h hw' hw ha' ha hstorage.symm
    rw [slot, slot, hk]

end Binding

/-- Worlds that operations lead to have one state root if they have the same accounts and the same slots of
them. If they have one root they have the same accounts and slots, or among the names of accounts and slots
and the encoded nodes of either world two different byte strings have the same digest. -/
theorem stateRoot_commits (hw : Reachable w) (hw' : Reachable w') :
    (SameState w w' → w.stateRoot = w'.stateRoot) ∧
      (w.stateRoot = w'.stateRoot →
        SameState w w' ∨ Trie.Collision {bs | Committed w bs ∨ Committed w' bs}) := by
  have ht := hw.wellFormed.tidy
  have ht' := hw'.wellFormed.tidy
  refine ⟨SameState.stateRoot_eq ht ht', fun hroot => ?_⟩
  by_cases hc : Trie.Collision {bs | Committed w bs ∨ Committed w' bs}
  · exact Or.inr hc
  · left
    have hs := Trie.injOn_of_not_collision hc
    exact sameState_of_stateRoot_eq hs (fun _ => Or.inl) (fun _ => Or.inr) ht ht' hroot

/-- One state reached in two ways, the second over a slot that is cleared again and a destruction that is
reverted; and a state beside it that differs in one slot. -/
theorem stateRoot_commits_of_two_ways :
    let w := [Operation.setBalance 1 7, .setBalance 2 5, .setSlot 1 1 4].foldl Operation.run empty
    let w' := [Operation.setBalance 2 5, .setSlot 1 2 9, .checkpoint, .setSlot 1 1 3, .destroyAccount 2, .revert,
      .setBalance 1 7, .setSlot 1 2 0, .setSlot 1 1 4].foldl Operation.run empty
    let u := (Operation.setSlot 1 1 5).run w
    Reachable w ∧ Reachable w' ∧ SameState w w' ∧ w.stateRoot = w'.stateRoot ∧
      (w.stateRoot = u.stateRoot → Trie.Collision {bs | Committed w bs ∨ Committed u bs}) := by
  intro w w' u
  have hw : Reachable w := Reachable.empty.foldl (fun op h => h.run op) _
  have hw' : Reachable w' := Reachable.empty.foldl (fun op h => h.run op) _
  have hu : Reachable u := hw.run _
  have haccounts : w.accounts = w'.accounts := by decide +kernel
  have hstorage : w.storage = w'.storage := by decide +kernel
  have hsame : SameState w w' :=
    { accounts := fun a => by rw [account?, account?, haccounts]
      slots := fun a k _ => by rw [slot, slots, slot, slots, hstorage] }
  refine ⟨hw, hw', hsame, (stateRoot_commits hw hw').1 hsame, fun hroot => ?_⟩
  rcases (stateRoot_commits hw hu).2 hroot with hsame | hcollision
  · have hslot := hsame.slots 1 1 (by decide +kernel)
    have hne : w.slot 1 1 ≠ u.slot 1 1 := by decide +kernel
    exact absurd hslot hne
  · exact hcollision

end World

end StateTransition
