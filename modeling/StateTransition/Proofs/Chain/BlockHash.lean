import StateTransition.Proofs.Chain.EmptyBlock

/-! The hashes that code can ask for: those of the last 256 blocks, though only 255 blocks are kept. The oldest
one is told by the oldest block that is kept, which has it for its parent. -/
namespace StateTransition

/-- A hash is looked up from the end of the list. -/
private theorem BlockEnv.blockHash_of_reverse {env : BlockEnv} {hashes : List Hash}
    (h : env.blockHashes = hashes.reverse) {n : Word} (hlt : n.toNat < env.number.toNat)
    (hle : env.number.toNat ≤ n.toNat + 256) :
    env.blockHash n = hashes.getD (env.number.toNat - 1 - n.toNat) 0 := by
  rw [blockHash, h, List.length_reverse]
  split
  · next hback =>
    simp only [Bool.and_eq_true, decide_eq_true_eq] at hback
    rw [List.getD_eq_getElem?_getD, List.getElem?_reverse (by omega), List.getD_eq_getElem?_getD]
    congr 2
    omega
  · next hback =>
    simp only [Bool.and_eq_true, decide_eq_true_eq] at hback
    rw [List.getD_eq_getElem?_getD, List.getElem?_eq_none (by omega), Option.getD_none]

private theorem BlockEnv.blockHash_of_far {env : BlockEnv} {n : Word}
    (h : env.number.toNat ≤ n.toNat ∨ n.toNat + 256 < env.number.toNat) : env.blockHash n = 0 := by
  rw [blockHash, if_neg]
  simp only [Bool.and_eq_true, decide_eq_true_eq]
  omega

namespace Chain

variable {s : Schedule} {genesis : Block} {world : World} {c : Chain} {blocks : List Block} {h : Header}

/-- The hashes of all blocks of a history, newest first, and that of the parent of the first one. -/
def allHashes (genesis : Block) (blocks : List Block) : List Hash :=
  blocks.map Block.hash ++ [genesis.header.parentHash]

namespace Grown

private theorem blockHashes_eq (hc : Grown s genesis world c blocks) :
    c.blockHashes = ((allHashes genesis blocks).take 256).reverse := by
  rw [blockHashes, hc.recent_eq, allHashes, ← hc.hash_cons_parentHashes, List.take_succ_cons, List.map_take]
  rfl

/-- Code in the block that comes next finds the hash of a block by how far it is back. -/
private theorem blockHash_near (hc : Grown s genesis world c blocks)
    (hnext : h.number.toNat = c.head.header.number.toNat + 1) {n : Word} (hlt : n.toNat < h.number.toNat)
    (hle : h.number.toNat ≤ n.toNat + 256) :
    (c.blockEnv h).blockHash n = (allHashes genesis blocks).getD (c.head.header.number.toNat - n.toNat) 0 := by
  have hback : h.number.toNat - 1 - n.toNat = c.head.header.number.toNat - n.toNat := by omega
  rw [BlockEnv.blockHash_of_reverse hc.blockHashes_eq hlt hle, List.getD_eq_getElem?_getD,
    List.getElem?_take_of_lt (by change h.number.toNat - 1 - n.toNat < 256; omega),
    List.getD_eq_getElem?_getD]
  change ((allHashes genesis blocks)[h.number.toNat - 1 - n.toNat]?).getD 0 = _
  rw [hback]

/-- The block of a history that is so far back. -/
private theorem number_eq_iff (hc : Grown s genesis world c blocks) {b : Block} (hb : b ∈ blocks) {i : Nat}
    (hi : i < blocks.length) : b.header.number.toNat + i = c.head.header.number.toNat ↔ b = blocks[i] := by
  constructor
  · intro hnumber
    obtain ⟨j, hj, rfl⟩ := List.getElem_of_mem hb
    have := hc.number_getElem j hj
    obtain rfl : j = i := by omega
    rfl
  · rintro rfl
    exact hc.number_getElem i hi

end Grown

/-- Code in the block that comes after a chain finds, under every number of one of the 256 blocks before it, the
hash of the block of the whole history with that number; under the number before the genesis block's, if that is
not further back either, the hash that the genesis block has for its parent; and under all others zero. A block with
the greatest number has none after it. -/
theorem blockHash_exact (hc : Grown s genesis world c blocks)
    (hnext : h.number.toNat = c.head.header.number.toNat + 1) (n : Word) :
    (genesis.header.number.toNat ≤ n.toNat → n.toNat < h.number.toNat → h.number.toNat ≤ n.toNat + 256 →
        ∃ b ∈ blocks, (∀ b' ∈ blocks, b'.header.number.toNat = n.toNat ↔ b' = b) ∧
          (c.blockEnv h).blockHash n = b.hash) ∧
      (n.toNat + 1 = genesis.header.number.toNat → h.number.toNat ≤ n.toNat + 256 →
        (c.blockEnv h).blockHash n = genesis.header.parentHash) ∧
      (n.toNat + 1 < genesis.header.number.toNat ∨ h.number.toNat ≤ n.toNat ∨
          n.toNat + 256 < h.number.toNat →
        (c.blockEnv h).blockHash n = 0) := by
  have hlength := hc.length_eq
  have hall : (allHashes genesis blocks).length = blocks.length + 1 := by simp [allHashes]
  refine ⟨fun hg hlt hle => ?_, fun hg hle => ?_, fun hfar => ?_⟩
  · have hi : c.head.header.number.toNat - n.toNat < blocks.length := by omega
    refine ⟨blocks[c.head.header.number.toNat - n.toNat], List.getElem_mem hi, fun b' hb' => ?_, ?_⟩
    · rw [← hc.number_eq_iff hb' hi]
      omega
    · rw [hc.blockHash_near hnext hlt hle, List.getD_eq_getElem?_getD, allHashes,
        List.getElem?_append_left (by rwa [List.length_map]), List.getElem?_map,
        List.getElem?_eq_getElem hi]
      rfl
  · have hi : c.head.header.number.toNat - n.toNat = blocks.length := by omega
    rw [hc.blockHash_near hnext (by omega) hle, List.getD_eq_getElem?_getD, hi, allHashes,
      List.getElem?_append_right (by rw [List.length_map]), List.length_map, Nat.sub_self]
    rfl
  · by_cases hnear : n.toNat < h.number.toNat ∧ h.number.toNat ≤ n.toNat + 256
    · rw [hc.blockHash_near hnext hnear.1 hnear.2, List.getD_eq_getElem?_getD,
        List.getElem?_eq_none (by omega), Option.getD_none]
    · exact BlockEnv.blockHash_of_far (by change h.number.toNat ≤ _ ∨ _ < h.number.toNat; omega)

open Sample

/-- In a block numbered 7 on a chain that begins with one numbered 5. -/
theorem blockHash_exact_of_third_block :
    let h := (child second 1 []).header
    h.number.toNat = second.head.header.number.toNat + 1 ∧
      (second.blockEnv h).blockHash 6 = second.head.hash ∧ (second.blockEnv h).blockHash 5 = firstBlock.hash ∧
      (second.blockEnv h).blockHash 4 = firstBlock.header.parentHash ∧
      (second.blockEnv h).blockHash 3 = 0 ∧ (second.blockEnv h).blockHash 7 = 0 := by
  intro h
  have hnext : h.number.toNat = second.head.header.number.toNat + 1 := by decide
  have hexact := blockHash_exact grown_second hnext
  obtain ⟨b, -, hb, hhash⟩ := (hexact 6).1 (by decide) (by decide) (by decide)
  obtain rfl : second.head = b := (hb _ (.head _)).mp (by decide)
  obtain ⟨b', -, hb', hhash'⟩ := (hexact 5).1 (by decide) (by decide) (by decide)
  obtain rfl : firstBlock = b' := (hb' _ (.tail _ (.head _))).mp (by decide)
  exact ⟨hnext, hhash, hhash', (hexact 4).2.1 (by decide) (by decide), (hexact 3).2.2 (.inl (by decide)),
    (hexact 7).2.2 (.inr (.inl (by decide)))⟩

end Chain

end StateTransition
