import StateTransition.Transaction
import StateTransition.Proofs.Rlp.Field

/-! Transactions and their envelopes. Each of the three lists of fields is read back as its transaction
and no other list is read as that; the first byte of an envelope tells which list follows. -/
namespace StateTransition

open Rlp.Item

private theorem Access.ofItem_eq_ok_iff {item : Rlp.Item} {a : Access} :
    Access.ofItem item = .ok a ↔ item = a.toItem := by
  simp only [Access.ofItem, bind_eq_ok_iff, toListOf_eq_ok_iff]
  constructor
  · rintro ⟨fields, ⟨rfl, -⟩, h⟩
    split at h
    · simp only [bind_eq_ok_iff, toAddress_eq_ok_iff, toListWith_eq_ok_iff toHash_eq_ok_iff,
        pure_eq_ok_iff] at h
      obtain ⟨address, rfl, keys, rfl, rfl⟩ := h
      rfl
    · cases h
  · rintro rfl
    have hkeys : (list (a.keys.map ofHash)).toListWith toHash = .ok a.keys :=
      toListWith_map fun k _ => toHash_ofHash k
    refine ⟨_, ⟨rfl, rfl⟩, ?_⟩
    simp only [toAddress_ofAddress, hkeys]
    rfl

namespace SignedTransaction

variable {item : Rlp.Item} {t : SignedTransaction}

private theorem toListWith_accesses (accesses : List Access) :
    (list (accesses.map Access.toItem)).toListWith Access.ofItem = .ok accesses :=
  toListWith_map fun _ _ => Access.ofItem_eq_ok_iff.mpr rfl

private theorem ofLegacyPayload_eq_ok_iff :
    ofLegacyPayload item = .ok t ↔ t.body.type = .legacy ∧ item = t.payload := by
  simp only [ofLegacyPayload, bind_eq_ok_iff, toListOf_eq_ok_iff]
  constructor
  · rintro ⟨fields, ⟨rfl, -⟩, h⟩
    split at h
    · simp only [bind_eq_ok_iff, toCount_eq_ok_iff, toWord_eq_ok_iff, toAddress?_eq_ok_iff,
        toBytes_eq_ok_iff, pure_eq_ok_iff] at h
      obtain ⟨nonce, rfl, gasPrice, rfl, gasLimit, rfl, target, rfl, value, rfl, data, rfl, v, rfl,
        r, rfl, s, rfl, rfl⟩ := h
      exact ⟨rfl, rfl⟩
    · cases h
  · rintro ⟨htype, rfl⟩
    obtain ⟨⟨nonce, gasLimit, target, value, data, kind⟩, v, r, s⟩ := t
    cases kind with
    | legacy gasPrice =>
      refine ⟨_, ⟨rfl, rfl⟩, ?_⟩
      simp only [Transaction.fields, List.cons_append, List.nil_append, toCount_ofCount, toWord_ofWord,
        toAddress?_ofAddress?, toBytes_bytes]
      rfl
    | accessList _ _ _ => cases htype
    | dynamicFee _ _ _ _ => cases htype

private theorem ofAccessListPayload_eq_ok_iff :
    ofAccessListPayload item = .ok t ↔ t.body.type = .accessList ∧ item = t.payload := by
  simp only [ofAccessListPayload, bind_eq_ok_iff, toListOf_eq_ok_iff]
  constructor
  · rintro ⟨fields, ⟨rfl, -⟩, h⟩
    split at h
    · simp only [bind_eq_ok_iff, toCount_eq_ok_iff, toWord_eq_ok_iff, toAddress?_eq_ok_iff,
        toBytes_eq_ok_iff, toListWith_eq_ok_iff Access.ofItem_eq_ok_iff, pure_eq_ok_iff] at h
      obtain ⟨chainId, rfl, nonce, rfl, gasPrice, rfl, gasLimit, rfl, target, rfl, value, rfl, data, rfl,
        accesses, rfl, v, rfl, r, rfl, s, rfl, rfl⟩ := h
      exact ⟨rfl, rfl⟩
    · cases h
  · rintro ⟨htype, rfl⟩
    obtain ⟨⟨nonce, gasLimit, target, value, data, kind⟩, v, r, s⟩ := t
    cases kind with
    | legacy _ => cases htype
    | accessList chainId gasPrice accesses =>
      refine ⟨_, ⟨rfl, rfl⟩, ?_⟩
      simp only [Transaction.fields, List.cons_append, List.nil_append, toCount_ofCount, toWord_ofWord,
        toAddress?_ofAddress?, toBytes_bytes, toListWith_accesses]
      rfl
    | dynamicFee _ _ _ _ => cases htype

private theorem ofDynamicFeePayload_eq_ok_iff :
    ofDynamicFeePayload item = .ok t ↔ t.body.type = .dynamicFee ∧ item = t.payload := by
  simp only [ofDynamicFeePayload, bind_eq_ok_iff, toListOf_eq_ok_iff]
  constructor
  · rintro ⟨fields, ⟨rfl, -⟩, h⟩
    split at h
    · simp only [bind_eq_ok_iff, toCount_eq_ok_iff, toWord_eq_ok_iff, toAddress?_eq_ok_iff,
        toBytes_eq_ok_iff, toListWith_eq_ok_iff Access.ofItem_eq_ok_iff, pure_eq_ok_iff] at h
      obtain ⟨chainId, rfl, nonce, rfl, maxPriorityFee, rfl, maxFee, rfl, gasLimit, rfl, target, rfl,
        value, rfl, data, rfl, accesses, rfl, v, rfl, r, rfl, s, rfl, rfl⟩ := h
      exact ⟨rfl, rfl⟩
    · cases h
  · rintro ⟨htype, rfl⟩
    obtain ⟨⟨nonce, gasLimit, target, value, data, kind⟩, v, r, s⟩ := t
    cases kind with
    | legacy _ => cases htype
    | accessList _ _ _ => cases htype
    | dynamicFee chainId maxPriorityFee maxFee accesses =>
      refine ⟨_, ⟨rfl, rfl⟩, ?_⟩
      simp only [Transaction.fields, List.cons_append, List.nil_append, toCount_ofCount, toWord_ofWord,
        toAddress?_ofAddress?, toBytes_bytes, toListWith_accesses]
      rfl

theorem ofPayload_eq_ok_iff {type : TransactionType} :
    ofPayload type item = .ok t ↔ t.body.type = type ∧ item = t.payload := by
  cases type with
  | legacy => exact ofLegacyPayload_eq_ok_iff
  | accessList => exact ofAccessListPayload_eq_ok_iff
  | dynamicFee => exact ofDynamicFeePayload_eq_ok_iff

end SignedTransaction

/-! ### Envelopes -/

namespace TransactionType

variable {α : Type} {read : TransactionType → Rlp.Item → Except Rlp.Error α} {x : α} {bs : Bytes}

private theorem ofByte_eq_ok_iff {b : UInt8} {t : TransactionType} :
    ofByte b = .ok t ↔ t ≠ .legacy ∧ b = t.number := by
  unfold ofByte
  cases t <;> by_cases h1 : b = 1 <;> by_cases h2 : b = 2 <;> simp_all [number]

private theorem length_le_envelop (t : TransactionType) (encoded : Bytes) :
    encoded.length ≤ (t.envelop encoded).length := by
  cases t <;> simp [envelop]

/-- An envelope is opened to what its list of fields is read as. -/
theorem openEnvelope_envelop {t : TransactionType} {fields : List Rlp.Item}
    (hlen : (t.envelop (Rlp.Item.list fields).encode).length < countLimit) (h : read t (.list fields) = .ok x) :
    openEnvelope read (t.envelop (Rlp.Item.list fields).encode) = .ok x := by
  have hlen := Nat.lt_of_le_of_lt (length_le_envelop t _) hlen
  have hdecode := decode_encode (.list fields) hlen
  have htyped : t ≠ .legacy → openEnvelope read (t.number :: (Rlp.Item.list fields).encode) = .ok x := by
    intro ht
    have hsmall : ¬ 0xc0 ≤ t.number := by cases t <;> decide
    rw [openEnvelope, if_neg hsmall, ofByte_eq_ok_iff.mpr ⟨ht, rfl⟩, hdecode]
    exact h
  cases t with
  | legacy =>
    obtain ⟨first, rest, he, hfirst⟩ := le_head_encode_list hlen
    rw [envelop, he, openEnvelope, if_pos hfirst, ← he, hdecode]
    exact h
  | accessList => exact htyped (by decide)
  | dynamicFee => exact htyped (by decide)

/-- What is opened is the envelope of the item that is read, and begins with a list exactly if it has no
type in front. -/
theorem openEnvelope_ok (h : openEnvelope read bs = .ok x) :
    ∃ t item first rest, read t item = .ok x ∧ t.envelop item.encode = bs ∧ bs = first :: rest ∧
      (t = .legacy ↔ 0xc0 ≤ first) := by
  unfold openEnvelope at h
  split at h
  · cases h
  next first rest =>
  split at h
  · next hfirst =>
    obtain ⟨item, hitem, hread⟩ := ok_of_bind h
    exact ⟨.legacy, item, first, rest, hread, encode_of_decode hitem, rfl, by simp [hfirst]⟩
  · next hfirst =>
    obtain ⟨t, ht, hrest⟩ := ok_of_bind h
    obtain ⟨item, hitem, hread⟩ := ok_of_bind hrest
    obtain ⟨hne, rfl⟩ := ofByte_eq_ok_iff.mp ht
    refine ⟨t, item, t.number, rest, hread, ?_, rfl, by simp [hne, hfirst]⟩
    rw [encode_of_decode hitem]
    cases t with
    | legacy => exact absurd rfl hne
    | accessList => rfl
    | dynamicFee => rfl

end TransactionType

namespace SignedTransaction

variable {item : Rlp.Item} {t t' : SignedTransaction} {bs : Bytes}

private theorem encode_of_decode (h : decode bs = .ok t) :
    t.encode = bs ∧ ∃ first rest, bs = first :: rest ∧ (t.body.type = .legacy ↔ 0xc0 ≤ first) := by
  obtain ⟨type, item, first, rest, hread, hbs, hcons, hfirst⟩ := TransactionType.openEnvelope_ok h
  obtain ⟨rfl, rfl⟩ := ofPayload_eq_ok_iff.mp hread
  exact ⟨hbs, first, rest, hcons, hfirst⟩

private theorem decode_encode (t : SignedTransaction) (h : t.encode.length < countLimit) :
    decode t.encode = .ok t := by
  have hread : ofPayload t.body.type t.payload = .ok t := ofPayload_eq_ok_iff.mpr ⟨rfl, rfl⟩
  exact TransactionType.openEnvelope_envelop h hread

theorem encode_injective (hlen : t.encode.length < countLimit) (h : t.encode = t'.encode) : t = t' := by
  have hread := decode_encode t hlen
  rw [h, decode_encode t' (h ▸ hlen)] at hread
  exact (Except.ok.inj hread).symm

theorem encode_ne_nil (t : SignedTransaction) : t.encode ≠ [] := by
  have hpayload := List.length_pos_iff.mpr (Rlp.encode_ne_nil t.payload)
  have hlen := TransactionType.length_le_envelop t.body.type t.payload.encode
  rw [encode, ← List.length_pos_iff]
  omega

/-- The item of a block that is read as a transaction is the one that it is written as. -/
theorem eq_toItem_of_ofItem (h : ofItem item = .ok t) : item = t.toItem := by
  unfold ofItem at h
  split at h
  · obtain ⟨htype, hitem⟩ := ofLegacyPayload_eq_ok_iff.mp h
    rw [hitem, toItem, htype]
  · cases h
  next first rest =>
  split at h
  · next hfirst =>
    obtain ⟨hbs, first', rest', hcons, htype⟩ := encode_of_decode h
    cases hcons
    have hne : t.body.type ≠ .legacy := fun hl => UInt8.not_le.mpr hfirst (htype.mp hl)
    rw [toItem, hbs]
    cases ht : t.body.type <;> simp_all
  · cases h

theorem ofItem_toItem (t : SignedTransaction) (h : t.encode.length < countLimit) : ofItem t.toItem = .ok t := by
  have hdecode := decode_encode t h
  obtain ⟨-, first, rest, hcons, htype⟩ := encode_of_decode hdecode
  have henvelope : t.body.type ≠ .legacy → ofItem (.bytes t.encode) = .ok t := by
    intro hne
    have hfirst : first < 0xc0 := UInt8.not_le.mp fun hle => hne (htype.mpr hle)
    rw [hcons] at hdecode ⊢
    rw [ofItem, if_pos hfirst, hdecode]
  rw [toItem]
  cases ht : t.body.type with
  | legacy => exact ofLegacyPayload_eq_ok_iff.mpr ⟨ht, rfl⟩
  | accessList => exact henvelope (by simp [ht])
  | dynamicFee => exact henvelope (by simp [ht])

/-- The item of a block takes no less than the envelope. -/
theorem length_encode_le_toItem (t : SignedTransaction) : t.encode.length ≤ t.toItem.encode.length := by
  rw [toItem]
  cases ht : t.body.type with
  | legacy =>
    rw [encode, ht]
    exact Nat.le_refl _
  | accessList => exact length_le_encode_bytes t.encode
  | dynamicFee => exact length_le_encode_bytes t.encode

/-- Envelopes of less than 2 ^ 64 bytes (a buffer holds no more, and a length beyond has no opening) are read
back, on their own and from the item of a block, and whatever is read as a transaction is its envelope, so that
no two byte strings are read as the same one. Transactions with one hash are the same, or their envelopes
differ and have the same digest. -/
theorem envelope_exact (t : SignedTransaction) :
    (t.encode.length < countLimit → decode t.encode = .ok t) ∧
      (t.toItem.encode.length < countLimit → (Rlp.Item.decode t.toItem.encode >>= ofItem) = .ok t) ∧
      (∀ bs, decode bs = .ok t → t.encode = bs) ∧
      (∀ bs bs', decode bs = .ok t → decode bs' = .ok t → bs = bs') ∧
      ∀ t' : SignedTransaction, t.encode.length < countLimit → t.hash = t'.hash →
        t = t' ∨ (t.encode ≠ t'.encode ∧ keccak t.encode = keccak t'.encode) := by
  refine ⟨decode_encode t, fun h => ?_, fun bs h => (encode_of_decode h).1, fun bs bs' h h' => ?_,
    fun t' hlen h => ?_⟩
  · rw [Rlp.Item.decode_encode _ h]
    exact ofItem_toItem t (Nat.lt_of_le_of_lt (length_encode_le_toItem t) h)
  · rw [← (encode_of_decode h).1, (encode_of_decode h').1]
  · by_cases he : t.encode = t'.encode
    · exact Or.inl (encode_injective hlen he)
    · exact Or.inr ⟨he, h⟩

/-- A creation with an announced account, a value that takes an opening of its own and the greatest fee. -/
theorem envelope_exact_of_creation :
    let t : SignedTransaction :=
      { body := { nonce := 0, gasLimit := 53000, target := none, value := 0x80, data := [0x7f]
                  kind := .dynamicFee 1 0 maxWord [⟨0x2a, [0, 0x80]⟩, ⟨0, []⟩] }
        v := 1, r := 1, s := maxWord }
    t.toItem.encode.length < countLimit ∧ decode t.encode = .ok t ∧
      (Rlp.Item.decode t.toItem.encode >>= ofItem) = .ok t ∧ ∀ bs, decode bs = .ok t → t.encode = bs := by
  intro t
  have hlen : t.toItem.encode.length < countLimit := by decide +kernel
  obtain ⟨henvelope, hitem, honly, -⟩ := envelope_exact t
  exact ⟨hlen, henvelope (Nat.lt_of_le_of_lt (length_encode_le_toItem t) hlen), hitem hlen, honly⟩

end SignedTransaction

end StateTransition
