import StateTransition.Chain.Transaction
import StateTransition.Proofs.World.Evolution
import StateTransition.Proofs.World.Total

/-! What the validation of a transaction ensures: its gas covers the intrinsic part and fits the block,
its price lies between the base fee and what it offers, and no product of its gas and that is too much
for a word. -/
namespace StateTransition

namespace Transaction

variable {t : Transaction} {price : Word} {baseFee : Option Word}

/-- The price per gas is what is offered at most, and pays the base fee. -/
private theorem gasPrice_bounds (h : t.gasPrice baseFee = .ok price) :
    (baseFee.getD 0).toNat ≤ price.toNat ∧ price.toNat ≤ t.maxFee.toNat := by
  unfold gasPrice at h
  cases baseFee with
  | none =>
    obtain ⟨-, h⟩ := ok_of_guard h
    cases h
    exact ⟨Nat.zero_le _, Nat.le_refl _⟩
  | some baseFee =>
    obtain ⟨-, h⟩ := ok_of_guard h
    obtain ⟨hle, h⟩ := ok_of_guard h
    cases h
    simp only [Option.getD_some]
    split <;> bv_omega

/-- What an account is whose transaction is allowed: it has the nonce of the transaction, which can be
raised, enough to pay all gas at the greatest fee and the value, and no code. -/
structure Allowed (t : Transaction) (account : Account) : Prop where
  nonce : account.nonce = t.nonce
  nonce_ne : account.nonce.toNat ≠ maxCount
  affords : t.gasLimit.toNat * t.maxFee.toNat + t.value.toNat ≤ account.balance.toNat
  plain : account.hasCode = false

private theorem checkSender_ok {sender : Address} {account : Account} (h : t.checkSender sender account = .ok ()) :
    t.Allowed account := by
  unfold checkSender at h
  obtain ⟨hnonce, h⟩ := ok_of_guard h
  obtain ⟨hmax, h⟩ := ok_of_guard h
  cases hcost : t.greatestCost? with
  | none =>
    rw [hcost] at h
    cases h
  | some cost =>
    rw [hcost] at h
    obtain ⟨hbalance, h⟩ := ok_of_guard h
    obtain ⟨fee, hfee, hsum⟩ := Option.bind_eq_some_iff.mp hcost
    have hlimit : (BitVec.ofNat 256 t.gasLimit.toNat).toNat = t.gasLimit.toNat :=
      Nat.mod_eq_of_lt (Nat.lt_trans t.gasLimit.toNat_lt (by decide))
    have hproduct := Word.toNat_of_mul? hfee
    have hcost := Word.toNat_of_add? hsum
    have hle : cost.toNat ≤ account.balance.toNat := BitVec.not_lt.mp hbalance
    rw [hlimit] at hproduct
    refine ⟨Decidable.not_not.mp hnonce, hmax, by omega, ?_⟩
    cases hcode : account.hasCode with
    | false => rfl
    | true =>
      rw [hcode] at h
      cases h

end Transaction

namespace SignedTransaction

variable {t : SignedTransaction} {rules : Rules} {block : BlockEnv} {w : World} {gasAvailable : Nat}
  {a : Admission}

/-- Who sent a transaction is told by the transaction alone. -/
theorem sender_of_recoverSender {chainId : UInt64} {sender : Address}
    (h : rules.recoverSender chainId t = .ok sender) : t.sender = .ok sender := by
  unfold Rules.recoverSender at h
  obtain ⟨-, h⟩ := ok_of_guard h
  cases hs : t.sender with
  | ok found =>
    rw [hs] at h
    cases hid : t.chainId? with
    | none =>
      rw [hid] at h
      cases (ok_of_guard h).2
      rfl
    | some id =>
      rw [hid] at h
      cases (ok_of_guard (ok_of_guard h).2).2
      rfl
  | error cause =>
    rw [hs] at h
    cases hid : t.chainId? with
    | none =>
      rw [hid] at h
      cases (ok_of_guard h).2
    | some id =>
      rw [hid] at h
      cases (ok_of_guard (ok_of_guard h).2).2

/-- What an admission to a block tells. -/
structure Admitted (t : SignedTransaction) (rules : Rules) (block : BlockEnv) (w : World)
    (gasAvailable : Nat) (a : Admission) : Prop where
  sender : t.sender = .ok a.sender
  intrinsicGas : a.intrinsicGas = rules.intrinsicGas t.body
  gas : a.intrinsicGas ≤ t.body.gasLimit.toNat
  available : t.body.gasLimit.toNat ≤ gasAvailable
  baseFee : (block.baseFee.getD 0).toNat ≤ a.gasPrice.toNat
  maxFee : a.gasPrice.toNat ≤ t.body.maxFee.toNat
  allowed : t.body.Allowed (w.accountOrEmpty a.sender)

theorem validate_ok (h : t.validate rules block w gasAvailable = .ok a) :
    t.Admitted rules block w gasAvailable a := by
  obtain ⟨sender, hrecovered, h⟩ := ok_of_bind h
  obtain ⟨hgas, h⟩ := ok_of_guard h
  obtain ⟨havailable, h⟩ := ok_of_guard h
  obtain ⟨price, hprice, h⟩ := ok_of_bind h
  obtain ⟨⟨⟩, hsender, h⟩ := ok_of_bind h
  cases h
  obtain ⟨hbase, hmax⟩ := Transaction.gasPrice_bounds hprice
  exact
    { sender := sender_of_recoverSender hrecovered
      intrinsicGas := rfl
      gas := Nat.le_of_not_lt hgas
      available := Nat.le_of_not_lt havailable
      baseFee := hbase
      maxFee := hmax
      allowed := Transaction.checkSender_ok hsender }

/-- All gas can be paid in words at the price per gas. -/
theorem Admitted.fits (h : t.Admitted rules block w gasAvailable a) :
    t.body.gasLimit.toNat * a.gasPrice.toNat < wordLimit := by
  have hle : t.body.gasLimit.toNat * a.gasPrice.toNat ≤ t.body.gasLimit.toNat * t.body.maxFee.toNat :=
    Nat.mul_le_mul_left _ h.maxFee
  have hbalance : (w.accountOrEmpty a.sender).balance.toNat < wordLimit := BitVec.isLt _
  have := h.allowed.affords
  omega

end SignedTransaction

end StateTransition
