import StateTransition.Proofs.Trie.Binding

/-! Trees of listed entries. A tree holds just the entries of its list, and trees under hashed keys with
one digest were made of the same entries, unless digests collide. -/
namespace StateTransition

namespace Trie

namespace Node

variable {n m : Node}

/-- All entries have paths and values far below the greatest length that can be encoded. -/
def Short (n : Node) : Prop :=
  ∀ path value, n.get? path = some value → path.length < 2 ^ 32 ∧ value.length < 2 ^ 32

/-- All entries have short paths, and values that leave room for what opens them and for other items. -/
def Storable (n : Node) : Prop :=
  ∀ path value, n.get? path = some value → path.length < 2 ^ 32 ∧ value.length < 2 ^ 63

private theorem Short.storable (h : n.Short) : n.Storable := by
  intro path value hpath
  obtain ⟨hlen, hvalue⟩ := h path value hpath
  exact ⟨hlen, by omega⟩

private theorem Within.canonical (h : Within m n) (hn : n.Canonical) : m.Canonical := by
  induction h with
  | root => exact hn
  | extension path _ ih => exact ih hn.2.2
  | branch i value _ ih => exact ih (hn.1 i)

/-- The entries of a node below go on from the path that leads to it. -/
private theorem Within.storable (h : Within m n) (hn : n.Storable) : m.Storable := by
  induction h with
  | root => exact hn
  | extension path _ ih =>
    apply ih
    intro q value hq
    obtain ⟨hpath, hvalue⟩ := hn (path ++ q) value (by rw [get?_extension_append, hq])
    rw [List.length_append] at hpath
    exact ⟨by omega, hvalue⟩
  | branch i own _ ih =>
    apply ih
    intro q value hq
    obtain ⟨hpath, hvalue⟩ := hn (i :: q) value (by rw [get?_branch_cons, hq])
    rw [List.length_cons] at hpath
    exact ⟨by omega, hvalue⟩

private theorem length_encode_reference_le (item : Rlp.Item) : (reference item).encode.length ≤ 33 := by
  rw [reference]
  split
  · omega
  · rw [Rlp.Item.length_encode_ofHash]

private theorem length_encode_hexPrefix_le {path : List Nibble} (h : path.length < 2 ^ 32) (leaf : Bool) :
    (Rlp.Item.bytes (Nibble.hexPrefix path leaf)).encode.length ≤ 2 ^ 33 := by
  have hpath := Nibble.length_hexPrefix_le path leaf
  have hbytes := Rlp.Item.length_encode_bytes_le (Nibble.hexPrefix path leaf) (by rw [countLimit]; omega)
  omega

private theorem length_encode_value_le {value : Bytes} (h : value.length < 2 ^ 63) :
    (Rlp.Item.bytes value).encode.length ≤ 2 ^ 63 + 9 := by
  have hbytes := Rlp.Item.length_encode_bytes_le value (by rw [countLimit]; omega)
  omega

/-- A node's item ends with its value or its one child, and only this last item may be long. -/
private theorem length_encode_list_lt (front : List Rlp.Item) (last : Rlp.Item) (hcount : front.length ≤ 16)
    (h : ∀ item ∈ front, item.encode.length ≤ 2 ^ 33) (hlast : last.encode.length ≤ 2 ^ 63 + 9) :
    (Rlp.Item.list (front ++ [last])).encode.length < countLimit := by
  have hfront := Rlp.Item.length_encodeAll_le h
  have hopening := Rlp.Item.length_opening_le 0xc0 (n := (Rlp.Item.encodeAll (front ++ [last])).length)
  rw [Rlp.Item.encodeAll_concat, List.length_append] at hopening
  rw [Rlp.Item.encode, Rlp.encodeList, Rlp.Item.encodeAll_concat, List.length_append, List.length_append]
  rw [countLimit] at *
  omega

/-- The encoding of a node with storable entries has a length of at most eight bytes. -/
private theorem length_encode_lt (hn : n.Canonical) (h : n.Storable) : n.encode.length < countLimit := by
  cases n with
  | empty => decide
  | leaf path value =>
    obtain ⟨hpath, hvalue⟩ := h path value (by rw [get?_leaf, if_pos rfl])
    apply length_encode_list_lt [_] _ (by simp)
    · simpa using length_encode_hexPrefix_le hpath true
    · exact length_encode_value_le hvalue
  | extension path child =>
    -- there is an entry below, and its path begins with the extension's own
    obtain ⟨q, value, hq⟩ := exists_entry hn.2.2 (ne_empty_of_isBranch hn.2.1)
    obtain ⟨hpath, -⟩ := h (path ++ q) value (by rw [get?_extension_append, hq])
    rw [List.length_append] at hpath
    have href := length_encode_reference_le child.toItem
    apply length_encode_list_lt [_] _ (by simp)
    · simpa using length_encode_hexPrefix_le (by omega) false
    · omega
  | branch children value =>
    have hvalue : (value.getD []).length < 2 ^ 63 := by
      cases value with
      | none => decide
      | some value => exact (h [] value rfl).2
    apply length_encode_list_lt _ _ (by simp)
    · intro item hitem
      obtain ⟨i, -, rfl⟩ := List.mem_map.mp hitem
      have href := length_encode_reference_le (children i).toItem
      omega
    · exact length_encode_value_le hvalue

theorem bounded_of_storable (hn : n.Canonical) (h : n.Storable) : n.Bounded := by
  intro m hm
  exact length_encode_lt (hm.canonical hn) (hm.storable h)

end Node

/-! ### Listed entries -/

variable {entries entries' : List (Bytes × Bytes)} {key value : Bytes}

private theorem ofList_concat (entries : List (Bytes × Bytes)) (e : Bytes × Bytes) :
    ofList (entries ++ [e]) = (ofList entries).insert e.1 e.2 := by
  rw [ofList, List.foldl_append]
  rfl

/-- The tree of a list is one that edits lead to. -/
theorem ofList_eq_ofEdits (entries : List (Bytes × Bytes)) :
    ofList entries = ofEdits (entries.map fun e => .insert e.1 e.2) := by
  rw [ofEdits, List.foldl_map]
  rfl

/-- Where keys differ, the tree of a list holds its entries and no others. -/
theorem get?_ofList_eq_some_iff (hkeys : (entries.map Prod.fst).Nodup) (hvalues : ∀ e ∈ entries, e.2 ≠ []) :
    (ofList entries).get? key = some value ↔ (key, value) ∈ entries := by
  induction entries using List.reverseRecOn with
  | nil => simp [ofList, empty, get?, Node.get?_empty]
  | append_singleton entries e ih =>
    rw [List.map_append, List.nodup_append] at hkeys
    obtain ⟨hkeys, -, hnew⟩ := hkeys
    have ih := ih hkeys fun e he => hvalues e (List.mem_append_left _ he)
    have hnone : (e.1, value) ∉ entries := fun he =>
      hnew e.1 (List.mem_map.mpr ⟨_, he, rfl⟩) e.1 (by simp) rfl
    rw [ofList_concat, get?_insert _ _ (hvalues e (by simp)), List.mem_append, List.mem_singleton]
    by_cases hk : key = e.1
    · subst hk
      rw [if_pos rfl, Option.some.injEq]
      constructor
      · rintro rfl
        exact Or.inr rfl
      · rintro (he | he)
        · exact absurd he hnone
        · rw [← he]
    · rw [if_neg hk, ih]
      constructor
      · exact Or.inl
      · rintro (he | he)
        · exact he
        · exact absurd (congrArg Prod.fst he) hk

/-- Entries with different keys, and with values that are neither empty nor too long. -/
structure Listing (entries : List (Bytes × Bytes)) : Prop where
  nodup : (entries.map Prod.fst).Nodup
  ne_nil : ∀ e ∈ entries, e.2 ≠ []
  short : ∀ e ∈ entries, e.2.length < 2 ^ 32

/-- The entries of a plain map, where no two keys are written alike and no value is long. -/
theorem listing_of_map {α β : Type} [Ord α] [Std.TransOrd α] [Std.LawfulEqOrd α] (m : Std.ExtTreeMap α β)
    {name : α → Bytes} (hname : Function.Injective name) {write : α × β → Rlp.Item}
    (hwrite : ∀ e, (write e).encode.length < 2 ^ 32) :
    Listing (m.toList.map fun e => (name e.1, (write e).encode)) where
  nodup := by
    rw [List.map_map]
    apply List.pairwise_map.mpr
    refine (Std.ExtTreeMap.distinct_keys_toList (t := m)).imp ?_
    intro e e' hne he
    exact hne (by rw [hname he, Std.compare_self])
  ne_nil := by
    intro e he
    obtain ⟨e, -, rfl⟩ := List.mem_map.mp he
    exact Rlp.encode_ne_nil _
  short := by
    intro e he
    obtain ⟨e, -, rfl⟩ := List.mem_map.mp he
    exact hwrite e

/-! ### Hashed keys -/

/-- Two different byte strings among given ones have the same digest. -/
def Collision (s : Set Bytes) : Prop := ∃ x ∈ s, ∃ y ∈ s, x ≠ y ∧ keccak x = keccak y

def underHashes (entries : List (Bytes × Bytes)) : List (Bytes × Bytes) :=
  entries.map fun e => (hashedKey e.1, e.2)

/-- Given byte strings have among them all keys of entries and the encodings of all nodes of their tree. -/
structure Covers (s : Set Bytes) (entries : List (Bytes × Bytes)) : Prop where
  keys : ∀ e ∈ entries, e.1 ∈ s
  nodes : ∀ n, Node.Within n (ofListHashed entries).root → n.encode ∈ s

variable {s : Set Bytes}

theorem injOn_of_not_collision (h : ¬ Collision s) : Set.InjOn keccak s := by
  intro x hx y hy hk
  by_contra hne
  exact h ⟨x, hx, y, hy, hne, hk⟩

private theorem injOn_hashedKey (hs : Set.InjOn keccak s) : Set.InjOn hashedKey s := by
  intro x hx y hy hk
  exact hs hx hy (Hash.toBytes_injective hk)

private theorem ofListHashed_eq (entries : List (Bytes × Bytes)) : ofListHashed entries = ofList
    (underHashes entries) := rfl

private theorem canonical_ofListHashed (entries : List (Bytes × Bytes)) : (ofListHashed entries).root.Canonical := by
  rw [ofListHashed_eq, ofList_eq_ofEdits]
  exact (represents_ofEdits _).canonical

namespace Listing

/-- Keys of different digests make a listing of their digests. -/
private theorem hashed (h : Listing entries) (hs : Set.InjOn keccak s) (hkeys : ∀ e ∈ entries, e.1 ∈ s) :
    Listing (underHashes entries) where
  nodup := by
    have hmap : (underHashes entries).map Prod.fst = (entries.map Prod.fst).map hashedKey := by
      simp [underHashes]
    rw [hmap]
    apply h.nodup.map_on
    intro x hx y hy
    obtain ⟨e, he, rfl⟩ := List.mem_map.mp hx
    obtain ⟨e', he', rfl⟩ := List.mem_map.mp hy
    exact injOn_hashedKey hs (hkeys e he) (hkeys e' he')
  ne_nil := by
    intro e he
    obtain ⟨e, hmem, rfl⟩ := List.mem_map.mp he
    exact h.ne_nil e hmem
  short := by
    intro e he
    obtain ⟨e, hmem, rfl⟩ := List.mem_map.mp he
    exact h.short e hmem

private theorem get?_iff (h : Listing entries) : (ofList entries).get? key = some value ↔ (key, value) ∈ entries :=
  get?_ofList_eq_some_iff h.nodup h.ne_nil

variable (h : Listing entries) (hs : Set.InjOn keccak s) (hc : Covers s entries)

include h hs hc

/-- A key is looked up under its digest. -/
private theorem get?_hashedKey_iff (hkey : key ∈ s) :
    (ofListHashed entries).get? (hashedKey key) = some value ↔ (key, value) ∈ entries := by
  rw [ofListHashed_eq, (h.hashed hs hc.keys).get?_iff]
  constructor
  · intro hmem
    obtain ⟨e, he, heq⟩ := List.mem_map.mp hmem
    obtain ⟨hk, rfl⟩ := Prod.mk.inj heq
    rw [← injOn_hashedKey hs (hc.keys e he) hkey hk]
    exact he
  · intro hmem
    exact List.mem_map.mpr ⟨_, hmem, rfl⟩

private theorem short_root : (ofListHashed entries).root.Short := by
  intro path value hpath
  have hget := hpath
  rw [ofListHashed_eq, ofList_eq_ofEdits] at hpath
  obtain ⟨key, rfl⟩ := (represents_ofEdits _).whole path value hpath
  have hmem := (h.hashed hs hc.keys).get?_iff.mp hget
  obtain ⟨e, he, heq⟩ := List.mem_map.mp hmem
  obtain ⟨rfl, rfl⟩ := Prod.mk.inj heq
  refine ⟨?_, h.short e he⟩
  rw [Nibble.length_ofBytes, hashedKey, Hash.toBytes, Bytes.length_ofNatPadded]
  decide

/-- Where no digests collide, trees with one digest were made of the same entries. -/
theorem mem_of_rootHash_eq (h' : Listing entries') (hc' : Covers s entries')
    (hroot : (ofListHashed entries).rootHash = (ofListHashed entries').rootHash) {e : Bytes × Bytes}
    (he : e ∈ entries) : e ∈ entries' := by
  have hbounded := Node.bounded_of_storable (canonical_ofListHashed entries) (h.short_root hs hc).storable
  have hsame : (ofListHashed entries).root = (ofListHashed entries').root := by
    rcases Node.eq_or_collide_of_rootHash (canonical_ofListHashed entries) (canonical_ofListHashed entries')
      hbounded hroot with hsame | ⟨n, m, hn, hm, hne, hk⟩
    · exact hsame
    · exact absurd (hs (hc.nodes n hn) (hc'.nodes m hm) hk) hne
  have hkey := hc.keys e he
  rw [← h'.get?_hashedKey_iff hs hc' hkey, get?, ← hsame]
  exact (h.get?_hashedKey_iff hs hc hkey).mpr he

end Listing

end Trie

end StateTransition
