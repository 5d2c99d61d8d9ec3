import StateTransition.Proofs.Trie.Hashed

/-! Trees of values under their encoded positions. Positions are encoded differently, however many there
are, so a tree holds just the values of its list, each at its place. -/
namespace StateTransition

namespace Trie

variable {values values' : List Bytes}

/-- The name under which the value at a position is entered. -/
def positionKey (i : Nat) : Bytes := (Rlp.Item.ofNat i).encode

private theorem positionKey_eq (i : Nat) : positionKey i = Rlp.encodeBytes (Bytes.ofNat i) := by
  rw [positionKey, Rlp.Item.ofNat, Rlp.Item.encode]

/-- No two positions are encoded alike. -/
private theorem positionKey_injective : Function.Injective positionKey := by
  intro i j h
  rw [positionKey_eq, positionKey_eq] at h
  exact Bytes.ofNat_injective (Rlp.encodeBytes_injective h)

def positioned (values : List Bytes) : List (Bytes × Bytes) :=
  values.zipIdx.map fun e => (positionKey e.2, e.1)

private theorem ofValues_eq (values : List Bytes) : ofValues values = ofList (positioned values) := rfl

private theorem mem_positioned {key value : Bytes} :
    (key, value) ∈ positioned values ↔ ∃ i, key = positionKey i ∧ values[i]? = some value := by
  rw [positioned, List.mem_map]
  constructor
  · rintro ⟨⟨found, i⟩, hmem, he⟩
    obtain ⟨rfl, rfl⟩ := Prod.mk.inj he
    exact ⟨i, rfl, List.mem_zipIdx_iff_getElem?.mp hmem⟩
  · rintro ⟨i, rfl, hi⟩
    exact ⟨(value, i), List.mem_zipIdx_iff_getElem?.mpr hi, rfl⟩

private theorem nodup_positioned (values : List Bytes) : ((positioned values).map Prod.fst).Nodup := by
  have hkeys : (positioned values).map Prod.fst = (values.zipIdx.map Prod.snd).map positionKey := by
    rw [positioned, List.map_map, List.map_map]
    rfl
  rw [hkeys, List.zipIdx_map_snd]
  exact List.Nodup.map positionKey_injective List.nodup_range'

private theorem ne_nil_of_mem_positioned (h : ∀ value ∈ values, value ≠ []) {e : Bytes × Bytes}
    (he : e ∈ positioned values) : e.2 ≠ [] := by
  obtain ⟨i, -, hi⟩ := mem_positioned.mp he
  exact h e.2 (List.mem_of_getElem? hi)

/-- The tree holds each value at its position and nothing else. -/
theorem get?_ofValues (h : ∀ value ∈ values, value ≠ []) {key value : Bytes} :
    (ofValues values).get? key = some value ↔ ∃ i, key = positionKey i ∧ values[i]? = some value := by
  rw [ofValues_eq, get?_ofList_eq_some_iff (nodup_positioned values) fun e he => ne_nil_of_mem_positioned h he]
  exact mem_positioned

theorem get?_ofValues_positionKey (h : ∀ value ∈ values, value ≠ []) (i : Nat) :
    (ofValues values).get? (positionKey i) = values[i]? := by
  apply Option.ext
  intro value
  rw [get?_ofValues h]
  constructor
  · rintro ⟨j, hj, hvalue⟩
    rwa [positionKey_injective hj]
  · intro hvalue
    exact ⟨i, rfl, hvalue⟩

private theorem canonical_ofValues (values : List Bytes) : (ofValues values).root.Canonical := by
  rw [ofValues_eq, ofList_eq_ofEdits]
  exact (represents_ofEdits _).canonical

private theorem length_positionKey_le {i : Nat} (h : i < countLimit) : (positionKey i).length ≤ 17 := by
  have hdigits : (Bytes.ofNat i).length ≤ 8 := by
    rw [Bytes.length_ofNat]
    exact Bytes.byteLength_le_of_lt_pow h
  have hkey := Rlp.Item.length_encode_bytes_le (Bytes.ofNat i) (by rw [countLimit]; omega)
  rw [positionKey, Rlp.Item.ofNat]
  omega

private theorem storable_ofValues (h : ∀ value ∈ values, value ≠ []) (hcount : values.length ≤ countLimit)
    (hlen : ∀ value ∈ values, value.length < 2 ^ 63) : (ofValues values).root.Storable := by
  intro path value hpath
  have hget := hpath
  rw [ofValues_eq, ofList_eq_ofEdits] at hpath
  obtain ⟨key, rfl⟩ := (represents_ofEdits _).whole path value hpath
  obtain ⟨i, rfl, hi⟩ := (get?_ofValues h).mp hget
  obtain ⟨hlt, -⟩ := List.getElem?_eq_some_iff.mp hi
  have hkey := length_positionKey_le (Nat.lt_of_lt_of_le hlt hcount)
  refine ⟨?_, hlen value (List.mem_of_getElem? hi)⟩
  rw [Nibble.length_ofBytes]
  omega

/-- Trees with one digest were made of the same values in the same order, unless digests of nodes
collide. -/
theorem ofValues_eq_or_collide (h : ∀ value ∈ values, value ≠ []) (h' : ∀ value ∈ values', value ≠ [])
    (hcount : values.length ≤ countLimit) (hlen : ∀ value ∈ values, value.length < 2 ^ 63)
    (hroot : (ofValues values).rootHash = (ofValues values').rootHash) :
    values = values' ∨ Node.Collide (ofValues values).root (ofValues values').root := by
  have hbounded := Node.bounded_of_storable (canonical_ofValues values) (storable_ofValues h hcount hlen)
  rcases Node.eq_or_collide_of_rootHash (canonical_ofValues values) (canonical_ofValues values') hbounded hroot
    with hsame | hcollide
  · left
    apply List.ext_getElem?
    intro i
    rw [← get?_ofValues_positionKey h, ← get?_ofValues_positionKey h', get?, hsame, get?]
  · exact Or.inr hcollide

end Trie

end StateTransition
