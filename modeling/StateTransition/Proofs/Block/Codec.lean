import StateTransition.Block.Basic
import StateTransition.Proofs.Block.Receipt

/-! Headers and blocks as items and back. The hash of a header that was read is the digest of the very
bytes that it was read from. -/
namespace StateTransition

open Rlp.Item

namespace Header

/-- Past the common fields there is a base fee or nothing. -/
private theorem baseFeeOf_eq_ok_iff {rest : List Rlp.Item} {fee : Option Word} :
    baseFeeOf rest = .ok fee ↔ rest = (fee.map ofWord).toList := by
  match rest with
  | [] => cases fee <;> simp [baseFeeOf]
  | [item] =>
    cases fee with
    | none => cases h : item.toWord <;> simp [baseFeeOf, h, Except.map]
    | some fee =>
      have hfee : item.toWord = .ok fee ↔ item = ofWord fee := toWord_eq_ok_iff
      cases h : item.toWord <;> simp_all [baseFeeOf, Except.map]
  | _ :: _ :: _ => cases fee <;> simp [baseFeeOf]

private theorem ofItem_eq_ok_iff {item : Rlp.Item} {h : Header} : ofItem item = .ok h ↔ item = h.toItem := by
  simp only [ofItem, bind_eq_ok_iff, toList_eq_ok_iff]
  constructor
  · rintro ⟨fields, rfl, hread⟩
    split at hread
    · cases hread
    split at hread
    · simp only [bind_eq_ok_iff, toCount_eq_ok_iff, toWord_eq_ok_iff, toAddress_eq_ok_iff, toHash_eq_ok_iff,
        toBytes_eq_ok_iff, toFixed_eq_ok_iff, baseFeeOf_eq_ok_iff, pure_eq_ok_iff] at hread
      obtain ⟨parentHash, rfl, ommersHash, rfl, coinbase, rfl, stateRoot, rfl, transactionsRoot, rfl,
        receiptsRoot, rfl, bloom, ⟨rfl, hbloom⟩, difficulty, rfl, number, rfl, gasLimit, rfl, gasUsed, rfl,
        timestamp, rfl, extraData, rfl, mixHash, rfl, nonce, ⟨rfl, hnonce⟩, baseFee, rfl, rfl⟩ := hread
      have hb : (Bloom.ofBytes bloom).toBytes = bloom := Bloom.toBytes_eq_iff.mpr ⟨hbloom, rfl⟩
      have hn : Bytes.ofNatPadded 8 (BitVec.ofNat 64 (Bytes.toNat nonce)).toNat = nonce :=
        (Bytes.ofNatPadded_eq_iff rfl).mpr ⟨hnonce, rfl⟩
      simp only [toItem, hb, hn, List.cons_append, List.nil_append]
    · cases hread
  · rintro rfl
    have hfee : baseFeeOf (h.baseFee.map ofWord).toList = .ok h.baseFee := baseFeeOf_eq_ok_iff.mpr rfl
    obtain ⟨hwidth, hnonce⟩ : (Bytes.ofNatPadded 8 h.nonce.toNat).length = 8 ∧
        BitVec.ofNat 64 (Bytes.toNat (Bytes.ofNatPadded 8 h.nonce.toNat)) = h.nonce :=
      (Bytes.ofNatPadded_eq_iff rfl).mp rfl
    have hfixed : (bytes (Bytes.ofNatPadded 8 h.nonce.toNat)).toFixed 8 = _ := toFixed_eq_ok_iff.mpr ⟨rfl, hwidth⟩
    refine ⟨_, rfl, ?_⟩
    rw [if_neg (by cases h.baseFee <;> simp [fieldCount])]
    simp only [List.cons_append, List.nil_append, toHash_ofHash, toAddress_ofAddress, toWord_ofWord,
      toCount_ofCount, toBytes_bytes, Bloom.toFixed_toBytes, hfee, hfixed, ok_bind, Bloom.ofBytes_toBytes, hnonce]
    rfl

private theorem decode_encode (h : Header) (hlen : h.encode.length < countLimit) : decode h.encode = .ok h := by
  have hread : ofItem h.toItem = .ok h := by rw [ofItem_eq_ok_iff]
  rw [decode, encode, Rlp.Item.decode_encode _ hlen]
  exact hread

private theorem encode_of_decode {bs : Bytes} {h : Header} (hread : decode bs = .ok h) : h.encode = bs := by
  obtain ⟨item, hitem, hread⟩ := ok_of_bind hread
  rw [ofItem_eq_ok_iff] at hread
  rw [encode, ← hread, Rlp.Item.encode_of_decode hitem]

/-- Only what a header adds of its own has no bound; short additions leave it short enough to be read back. -/
private theorem length_encode_lt {h : Header} (hextra : h.extraData.length < 2 ^ 32) :
    h.encode.length < countLimit := by
  have hhash (x : Hash) : (ofHash x).encode.length ≤ 2 ^ 33 := by
    rw [length_encode_ofHash]
    decide
  have hcount (n : UInt64) : (ofCount n).encode.length ≤ 2 ^ 33 :=
    (length_encode_ofCount_le n).trans (by decide)
  have hword (x : Word) : (ofWord x).encode.length ≤ 2 ^ 33 := (length_encode_ofWord_le x).trans (by decide)
  have hbytes (bs : Bytes) (hbs : bs.length < 2 ^ 32) : (bytes bs).encode.length ≤ 2 ^ 33 := by
    have := length_encode_bytes_le bs (by rw [countLimit]; omega)
    omega
  have hpadded (width n : Nat) (hwidth : width < 2 ^ 32) : (Bytes.ofNatPadded width n).length < 2 ^ 32 := by
    rwa [Bytes.length_ofNatPadded]
  have hcommon : ∀ item ∈ [.ofHash h.parentHash, .ofHash h.ommersHash, .ofAddress h.coinbase, .ofHash h.stateRoot,
      .ofHash h.transactionsRoot, .ofHash h.receiptsRoot, .bytes h.bloom.toBytes, .ofWord h.difficulty,
      .ofCount h.number, .ofCount h.gasLimit, .ofCount h.gasUsed, .ofCount h.timestamp, .bytes h.extraData,
      .ofHash h.mixHash, .bytes (Bytes.ofNatPadded 8 h.nonce.toNat)],
      (item : Rlp.Item).encode.length ≤ 2 ^ 33 := by
    simp only [List.forall_mem_cons, hhash, hcount, hword, true_and]
    exact ⟨hbytes _ (hpadded 20 _ (by decide)), hbytes _ (hpadded 256 _ (by decide)), hbytes _ hextra,
      hbytes _ (hpadded 8 _ (by decide)), by simp⟩
  have hfee : ∀ item ∈ (h.baseFee.map ofWord).toList, item.encode.length ≤ 2 ^ 33 := by
    intro item hitem
    obtain ⟨fee, -, rfl⟩ := Option.map_eq_some_iff.mp (Option.mem_toList.mp hitem)
    exact hword fee
  have hfew : (h.baseFee.map ofWord).toList.length ≤ 1 := by cases h.baseFee <;> simp
  have hall := length_encode_list_le (List.forall_mem_append.mpr ⟨hcommon, hfee⟩)
    (by rw [List.length_append, countLimit]; simp only [List.length_cons, List.length_nil]; omega)
  rw [List.length_append] at hall
  simp only [List.length_cons, List.length_nil] at hall
  rw [encode, toItem, countLimit]
  simp only [List.cons_append, List.nil_append] at hall ⊢
  omega

/-- Headers with one encoding are the same if one of them adds little of its own. -/
theorem eq_of_encode_eq {h h' : Header} (hextra : h.extraData.length < 2 ^ 32) (heq : h.encode = h'.encode) :
    h = h' := by
  have hlen := length_encode_lt hextra
  have hread := decode_encode h hlen
  rw [heq] at hlen hread
  rw [decode_encode h' hlen] at hread
  exact (Except.ok.inj hread).symm

end Header

namespace Block

variable {item : Rlp.Item} {b : Block} {bs : Bytes}

private theorem eq_toItem_of_ofItem (h : ofItem item = .ok b) : item = b.toItem := by
  simp only [ofItem, bind_eq_ok_iff, toListOf_eq_ok_iff] at h
  obtain ⟨fields, ⟨rfl, -⟩, h⟩ := h
  split at h
  · simp only [bind_eq_ok_iff, Header.ofItem_eq_ok_iff, toListWith_eq_ok_iff Header.ofItem_eq_ok_iff,
      pure_eq_ok_iff] at h
    obtain ⟨header, rfl, transactions, htransactions, ommers, rfl, rfl⟩ := h
    rw [eq_of_toListWith SignedTransaction.eq_toItem_of_ofItem htransactions]
    rfl
  · cases h

/-- A block is read back from its item if its transactions have envelopes that can be read back. -/
private theorem ofItem_toItem (b : Block) (h : ∀ t ∈ b.transactions, t.encode.length < countLimit) :
    ofItem b.toItem = .ok b := by
  have hheader (h : Header) : Header.ofItem h.toItem = .ok h := by rw [Header.ofItem_eq_ok_iff]
  have htransactions := toListWith_map fun t ht => SignedTransaction.ofItem_toItem t (h t ht)
  have hommers : (list (b.ommers.map Header.toItem)).toListWith Header.ofItem = .ok b.ommers :=
    toListWith_map fun h _ => hheader h
  simp only [ofItem, bind_eq_ok_iff, toListOf_eq_ok_iff]
  refine ⟨_, ⟨rfl, rfl⟩, ?_⟩
  simp only [hheader, htransactions, hommers]
  rfl

private theorem length_encode_le {t : SignedTransaction} (h : t ∈ b.transactions) :
    t.encode.length ≤ b.encode.length :=
  calc t.encode.length
      ≤ t.toItem.encode.length := t.length_encode_le_toItem
    _ ≤ (Rlp.Item.list (b.transactions.map SignedTransaction.toItem)).encode.length :=
        length_le_encode_list (List.mem_map_of_mem h)
    _ ≤ b.encode.length := length_le_encode_list (by simp)

private theorem decode_encode (b : Block) (h : b.encode.length < countLimit) : decode b.encode = .ok b := by
  rw [decode, encode, Rlp.Item.decode_encode _ h]
  exact ofItem_toItem b fun t ht => Nat.lt_of_le_of_lt (length_encode_le ht) h

private theorem encode_of_decode (h : decode bs = .ok b) : b.encode = bs := by
  obtain ⟨item, hitem, h⟩ := ok_of_bind h
  rw [encode, ← eq_toItem_of_ofItem h, Rlp.Item.encode_of_decode hitem]

/-- Blocks and headers whose encoding takes less than 2 ^ 64 bytes (a length beyond has no opening) are read
back, and whatever is read as one is its encoding; so the hash of a header that was read is the digest of the
bytes it was read from. -/
theorem block_exact :
    (∀ b : Block, b.encode.length < countLimit → decode b.encode = .ok b) ∧
      (∀ bs b, decode bs = .ok b → b.encode = bs) ∧
      (∀ h : Header, h.encode.length < countLimit → Header.decode h.encode = .ok h) ∧
      ∀ bs h, Header.decode bs = .ok h → h.encode = bs ∧ h.hash = keccak bs := by
  refine ⟨decode_encode, fun bs b h => encode_of_decode h, Header.decode_encode, fun bs h hread => ?_⟩
  have hbs := Header.encode_of_decode hread
  exact ⟨hbs, by rw [Header.hash, hbs]⟩

/-- A header with a base fee over a typed and a legacy transaction, and an ommer from before base fees. -/
theorem block_exact_of_two_types :
    let ommer : Header :=
      { parentHash := 1, ommersHash := emptyOmmersHash, coinbase := 0x2a, stateRoot := emptyTrieRoot
        transactionsRoot := emptyTrieRoot, receiptsRoot := emptyTrieRoot, bloom := 0, difficulty := 0x80
        number := 6, gasLimit := 5000, gasUsed := 0, timestamp := 0x100, extraData := [0], mixHash := 0
        nonce := 0x42, baseFee := none }
    let typed : SignedTransaction :=
      { body := { nonce := 0, gasLimit := 53000, target := none, value := 0x80, data := [0x7f]
                  kind := .dynamicFee 1 0 maxWord [⟨0x2a, [0, 0x80]⟩] }
        v := 1, r := 1, s := maxWord }
    let legacy : SignedTransaction :=
      { body := { nonce := 1, gasLimit := 21000, target := some 0x2a, value := 0, data := []
                  kind := .legacy 7 }
        v := 37, r := 1, s := 1 }
    let b : Block := ⟨{ ommer with number := 7, baseFee := some 0 }, [typed, legacy], [ommer]⟩
    b.encode.length < countLimit ∧ decode b.encode = .ok b ∧ (∀ bs, decode bs = .ok b → b.encode = bs) ∧
      ommer.encode.length < countLimit ∧ Header.decode ommer.encode = .ok ommer ∧
      ommer.hash = keccak ommer.encode := by
  intro ommer typed legacy b
  have hlen : b.encode.length < countLimit := by decide +kernel
  have hommer : ommer.encode.length < countLimit := by decide +kernel
  obtain ⟨hblock, honly, hheader, hhash⟩ := block_exact
  have hread := hheader ommer hommer
  exact ⟨hlen, hblock b hlen, fun bs => honly bs b, hommer, hread, (hhash _ ommer hread).2⟩

end Block

end StateTransition
