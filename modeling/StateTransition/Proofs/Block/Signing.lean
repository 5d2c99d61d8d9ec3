import StateTransition.Proofs.Block.Envelope

/-! What is signed binds the transaction. The bytes whose digest is signed tell the type, all fields and
the chain, across the three types and for legacy transactions with and without a chain. -/
namespace StateTransition

namespace Transaction

variable {t t' : Transaction}

/-- Transactions of one type with the same fields are the same. -/
private theorem eq_of_fields_eq (htype : t.type = t'.type) (h : t.fields = t'.fields) : t = t' := by
  -- the lists that are read back are those of signed transactions, so both get the same signature
  have hpayload : SignedTransaction.payload ⟨t, 0, 0, 0⟩ = SignedTransaction.payload ⟨t', 0, 0, 0⟩ := by
    rw [SignedTransaction.payload, SignedTransaction.payload, h]
  have hread : SignedTransaction.ofPayload t.type (SignedTransaction.payload ⟨t, 0, 0, 0⟩) = .ok ⟨t, 0, 0, 0⟩ :=
    SignedTransaction.ofPayload_eq_ok_iff.mpr ⟨rfl, rfl⟩
  rw [SignedTransaction.ofPayload_eq_ok_iff.mpr ⟨htype.symm, hpayload⟩] at hread
  exact (congrArg SignedTransaction.body (Except.ok.inj hread)).symm

private theorem length_fields_of_legacy (h : t.type = .legacy) : t.fields.length = 6 := by
  rw [type] at h
  rw [fields]
  split at h
  · rfl
  · cases h
  · cases h

end Transaction

namespace SignedTransaction

variable {t t' : SignedTransaction}

/-- What a legacy transaction bound to a chain adds to the fields that are signed. -/
def binding (t : SignedTransaction) : List Rlp.Item :=
  match t.body.type, t.chainId? with
  | .legacy, some chainId => [.ofCount chainId, .ofNat 0, .ofNat 0]
  | _, _ => []

private theorem signingPayload_eq (t : SignedTransaction) :
    t.signingPayload = t.body.type.envelop (Rlp.Item.list (t.body.fields ++ t.binding)).encode := rfl

private theorem binding_of_ne_legacy (h : t.body.type ≠ .legacy) : t.binding = [] := by
  rw [binding]
  split
  · next htype _ => exact absurd htype h
  · rfl

/-- What is added tells whether there is a chain, and which. -/
private theorem chainId?_eq_of_binding_eq (htype : t.body.type = .legacy) (htype' : t'.body.type = .legacy)
    (h : t.binding = t'.binding) : t.chainId? = t'.chainId? := by
  rw [binding, binding, htype, htype'] at h
  cases hc : t.chainId? with
  | none =>
    cases hc' : t'.chainId? with
    | none => rfl
    | some chainId' => simp [hc, hc'] at h
  | some chainId =>
    cases hc' : t'.chainId? with
    | none => simp [hc, hc'] at h
    | some chainId' =>
      simp only [hc, hc', List.cons.injEq, and_true] at h
      rw [Rlp.Item.injective_of_eq_ok_iff Rlp.Item.toCount_eq_ok_iff h]

private theorem chainId?_eq_of_body_eq (htype : t.body.type ≠ .legacy) (h : t.body = t'.body) :
    t.chainId? = t'.chainId? := by
  rw [chainId?, chainId?, ← h]
  cases hkind : t.body.kind with
  | legacy gasPrice =>
    rw [Transaction.type, hkind] at htype
    exact absurd rfl htype
  | accessList chainId gasPrice accesses => rfl
  | dynamicFee chainId maxPriorityFee maxFee accesses => rfl

private theorem openEnvelope_signingPayload (hlen : t.signingPayload.length < countLimit) :
    TransactionType.openEnvelope (fun type item => .ok (type, item)) t.signingPayload =
      .ok (t.body.type, .list (t.body.fields ++ t.binding)) := by
  rw [signingPayload_eq] at hlen ⊢
  exact TransactionType.openEnvelope_envelop hlen rfl

/-- The bytes that are signed tell the type and the list that follows it. -/
private theorem fields_eq_of_signingPayload_eq (hlen : t.signingPayload.length < countLimit)
    (h : t.signingPayload = t'.signingPayload) :
    t.body.type = t'.body.type ∧ t.body.fields ++ t.binding = t'.body.fields ++ t'.binding := by
  have hread := openEnvelope_signingPayload hlen
  rw [h] at hlen hread
  rw [openEnvelope_signingPayload hlen] at hread
  obtain ⟨htype, hitem⟩ := Prod.mk.inj (Except.ok.inj hread)
  exact ⟨htype.symm, (Rlp.Item.list.inj hitem).symm⟩

private theorem signed_eq_of_signingPayload_eq (hlen : t.signingPayload.length < countLimit)
    (h : t.signingPayload = t'.signingPayload) : t.body = t'.body ∧ t.chainId? = t'.chainId? := by
  obtain ⟨htype, hfields⟩ := fields_eq_of_signingPayload_eq hlen h
  by_cases hlegacy : t.body.type = .legacy
  · -- the six fields come first, so what is added begins at the same place
    have hlegacy' := htype.symm.trans hlegacy
    have hsix : t.body.fields.length = t'.body.fields.length := by
      rw [Transaction.length_fields_of_legacy hlegacy, Transaction.length_fields_of_legacy hlegacy']
    obtain ⟨hbody, hbinding⟩ := List.append_inj hfields hsix
    exact ⟨Transaction.eq_of_fields_eq htype hbody, chainId?_eq_of_binding_eq hlegacy hlegacy' hbinding⟩
  · rw [binding_of_ne_legacy hlegacy, binding_of_ne_legacy (htype ▸ hlegacy), List.append_nil,
      List.append_nil] at hfields
    have hbody := Transaction.eq_of_fields_eq htype hfields
    exact ⟨hbody, chainId?_eq_of_body_eq hlegacy hbody⟩

/-- What is signed is the same for just those transactions that have the same body, which tells the type,
every field and the access list, and that are bound to the same chain or both to none. Where the digests
that are signed are the same, either this holds or two different byte strings have one digest. The bytes
are fewer than 2 ^ 64, as a buffer holds no more. -/
theorem signingHash_binds (t t' : SignedTransaction) (hlen : t.signingPayload.length < countLimit) :
    (t.signingPayload = t'.signingPayload ↔
      t.body.type = t'.body.type ∧ t.body = t'.body ∧ t.chainId? = t'.chainId?) ∧
      (t.signingHash = t'.signingHash →
        (t.signingPayload ≠ t'.signingPayload ∧ keccak t.signingPayload = keccak t'.signingPayload) ∨
          (t.body.type = t'.body.type ∧ t.body = t'.body ∧ t.chainId? = t'.chainId?)) := by
  have hbinds : t.signingPayload = t'.signingPayload →
      t.body.type = t'.body.type ∧ t.body = t'.body ∧ t.chainId? = t'.chainId? := by
    intro h
    obtain ⟨hbody, hchain⟩ := signed_eq_of_signingPayload_eq hlen h
    exact ⟨by rw [hbody], hbody, hchain⟩
  refine ⟨⟨hbinds, ?_⟩, ?_⟩
  · rintro ⟨-, hbody, hchain⟩
    rw [signingPayload, signingPayload, hbody, hchain]
  · intro h
    by_cases he : t.signingPayload = t'.signingPayload
    · exact Or.inr (hbinds he)
    · exact Or.inl ⟨he, h⟩

/-- One legacy transaction without a chain, and for the chain zero. -/
theorem signingHash_binds_chain_zero :
    let body : Transaction :=
      { nonce := 1, gasLimit := 21000, target := some 0x2a, value := 0, data := [], kind := .legacy 7 }
    let t : SignedTransaction := { body, v := 28, r := 1, s := 1 }
    let t' : SignedTransaction := { body, v := 36, r := 1, s := 1 }
    t.signingPayload.length < countLimit ∧ t.chainId? = none ∧ t'.chainId? = some 0 ∧
      t.signingPayload ≠ t'.signingPayload ∧
      (t.signingHash = t'.signingHash →
        t.signingPayload ≠ t'.signingPayload ∧ keccak t.signingPayload = keccak t'.signingPayload) := by
  intro body t t'
  have hlen : t.signingPayload.length < countLimit := by decide +kernel
  have hchain : t.chainId? ≠ t'.chainId? := by decide +kernel
  obtain ⟨hpayload, hhash⟩ := signingHash_binds t t' hlen
  refine ⟨hlen, by decide +kernel, by decide +kernel, fun h => hchain (hpayload.mp h).2.2, fun h => ?_⟩
  exact (hhash h).resolve_right fun hsame => hchain hsame.2.2

end SignedTransaction

end StateTransition
