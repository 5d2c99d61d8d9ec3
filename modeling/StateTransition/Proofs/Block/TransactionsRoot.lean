import StateTransition.Block.Basic
import StateTransition.Proofs.Trie.Ordered
import StateTransition.Proofs.Block.Envelope

/-! The root of a block's transactions binds their list: which they are, in which order, and how many. -/
namespace StateTransition

namespace SignedTransaction

private theorem map_encode_injective {ts ts' : List SignedTransaction}
    (hlen : ∀ t ∈ ts, t.encode.length < countLimit) (h : ts.map encode = ts'.map encode) : ts = ts' := by
  induction ts generalizing ts' with
  | nil => exact (List.map_eq_nil_iff.mp h.symm).symm
  | cons t ts ih =>
    cases ts' with
    | nil => cases h
    | cons t' ts' =>
      obtain ⟨hhead, htail⟩ := List.cons.inj h
      rw [encode_injective (hlen t List.mem_cons_self) hhead,
        ih (fun t ht => hlen t (List.mem_cons_of_mem _ ht)) htail]

private theorem ne_nil_of_mem_map_encode (ts : List SignedTransaction) : ∀ value ∈ ts.map encode, value ≠ [] := by
  intro value hvalue
  obtain ⟨t, -, rfl⟩ := List.mem_map.mp hvalue
  exact encode_ne_nil t

end SignedTransaction

namespace Block

/-- Blocks with the same transactions have the same root of them. Blocks with the same root have the same
transactions, unless two encodings of nodes of their trees collide. Here a list has at most 2 ^ 64 members
and an envelope less than 2 ^ 63 bytes, as no buffer is longer. The tree of any values, none of which is
empty, has at the encoded position of each just this value and nothing anywhere else. -/
theorem transactionsRoot_commits (b b' : Block) (hcount : b.transactions.length ≤ countLimit)
    (hlen : ∀ t ∈ b.transactions, t.encode.length < 2 ^ 63) :
    (b.transactions = b'.transactions → b.computeTransactionsRoot = b'.computeTransactionsRoot) ∧
      (b.computeTransactionsRoot = b'.computeTransactionsRoot →
        b.transactions = b'.transactions ∨
          Trie.Node.Collide (Trie.ofValues (b.transactions.map SignedTransaction.encode)).root
            (Trie.ofValues (b'.transactions.map SignedTransaction.encode)).root) ∧
      ∀ values : List Bytes, (∀ value ∈ values, value ≠ []) →
        (∀ i, (Trie.ofValues values).get? (Rlp.Item.ofNat i).encode = values[i]?) ∧
          ∀ key value, (Trie.ofValues values).get? key = some value ↔
            ∃ i, key = (Rlp.Item.ofNat i).encode ∧ values[i]? = some value := by
  refine ⟨fun h => by rw [computeTransactionsRoot, h, computeTransactionsRoot], fun h => ?_,
    fun values hvalues => ?_⟩
  · have hvalues : ∀ value ∈ b.transactions.map SignedTransaction.encode, value.length < 2 ^ 63 := by
      intro value hvalue
      obtain ⟨t, ht, rfl⟩ := List.mem_map.mp hvalue
      exact hlen t ht
    have hcount : (b.transactions.map SignedTransaction.encode).length ≤ countLimit := by rwa [List.length_map]
    rcases Trie.ofValues_eq_or_collide (SignedTransaction.ne_nil_of_mem_map_encode _)
      (SignedTransaction.ne_nil_of_mem_map_encode _) hcount hvalues h with hsame | hcollide
    · left
      refine SignedTransaction.map_encode_injective (fun t ht => ?_) hsame
      have hbound := hlen t ht
      rw [countLimit]
      omega
    · exact Or.inr hcollide
  · exact ⟨Trie.get?_ofValues_positionKey hvalues, fun key value => Trie.get?_ofValues hvalues⟩

/-- Two transactions in one order and in the other. -/
theorem transactionsRoot_commits_to_order :
    let header : Header :=
      { parentHash := 1, ommersHash := emptyOmmersHash, coinbase := 0x2a, stateRoot := emptyTrieRoot
        transactionsRoot := emptyTrieRoot, receiptsRoot := emptyTrieRoot, bloom := 0, difficulty := 0x80
        number := 6, gasLimit := 5000, gasUsed := 0, timestamp := 0x100, extraData := [0], mixHash := 0
        nonce := 0x42, baseFee := none }
    let typed : SignedTransaction :=
      { body := { nonce := 0, gasLimit := 53000, target := none, value := 0x80, data := [0x7f]
                  kind := .dynamicFee 1 0 maxWord [⟨0x2a, [0, 0x80]⟩] }
        v := 1, r := 1, s := maxWord }
    let legacy : SignedTransaction :=
      { body := { nonce := 1, gasLimit := 21000, target := some 0x2a, value := 0, data := []
                  kind := .legacy 7 }
        v := 37, r := 1, s := 1 }
    let b : Block := ⟨header, [typed, legacy], []⟩
    let b' : Block := ⟨header, [legacy, typed], []⟩
    b.transactions.length ≤ countLimit ∧ (∀ t ∈ b.transactions, t.encode.length < 2 ^ 63) ∧
      b.transactions ≠ b'.transactions ∧
      (b.computeTransactionsRoot = b'.computeTransactionsRoot →
        Trie.Node.Collide (Trie.ofValues (b.transactions.map SignedTransaction.encode)).root
          (Trie.ofValues (b'.transactions.map SignedTransaction.encode)).root) := by
  intro header typed legacy b b'
  have hcount : b.transactions.length ≤ countLimit := by decide
  have hlen : ∀ t ∈ b.transactions, t.encode.length < 2 ^ 63 := by decide +kernel
  have hne : b.transactions ≠ b'.transactions := by decide +kernel
  obtain ⟨-, hroot, -⟩ := transactionsRoot_commits b b' hcount hlen
  exact ⟨hcount, hlen, hne, fun h => (hroot h).resolve_left hne⟩

end Block

end StateTransition
