import StateTransition.Proofs.Chain.Admission
import StateTransition.Proofs.Machine.Nesting

/-! What a transaction does to the sum of all balances and to gas, from the fee that is taken first to
what is paid back and paid out in the end. -/
namespace StateTransition

namespace World

variable {w w' : World}

theorem total_beginTransaction (w : World) : w.beginTransaction.total = w.total := rfl

/-- The coinbase is paid, or where empty accounts are removed and there is no fee, it goes if it is empty. -/
theorem payFee_cases {rules : Rules} {coinbase : Address} {fee : Word}
    (h : payFee rules coinbase fee w = .ok () w') :
    (rules.stateClearing = true → fee ≠ 0) ∧ addBalance coinbase fee w = .ok () w' ∨
      fee = 0 ∧ (w' = w ∨ w.isEmptyAccount coinbase = true ∧ w' = w.destroyAccount coinbase) := by
  unfold payFee at h
  split at h
  · next hfee => exact .inl ⟨fun hclearing => by simpa [hclearing] using hfee, h⟩
  · next hfee =>
    have hzero : rules.stateClearing = true ∧ fee = 0 := by simpa using hfee
    obtain ⟨w₁, w₂, hget, h⟩ := of_bind_ok h
    cases hget
    split at h
    · next hempty =>
      cases h
      exact .inr ⟨hzero.2, .inr ⟨hempty, rfl⟩⟩
    · cases h
      exact .inr ⟨hzero.2, .inl rfl⟩

/-- The coinbase gets its fee in either way, as the one without a fee gets none. -/
private theorem total_payFee {rules : Rules} {coinbase : Address} {fee : Word}
    (h : payFee rules coinbase fee w = .ok () w') : w'.total = w.total + fee.toNat := by
  rcases payFee_cases h with ⟨-, hadd⟩ | ⟨rfl, rfl | ⟨hempty, rfl⟩⟩
  · exact total_addBalance hadd
  · rfl
  · exact total_destroyAccount_of_isEmpty hempty

private theorem total_clearEmpty (accounts : List Address) (w : World) :
    (w.clearEmpty accounts).total = w.total := by
  induction accounts generalizing w with
  | nil => rfl
  | cons a accounts ih =>
    rw [clearEmpty, List.foldl_cons]
    refine (ih _).trans ?_
    split
    · next h => exact total_destroyAccount_of_isEmpty h
    · rfl

/-- What is swept away are single accounts. -/
private theorem exists_clearEmpty_eq (accounts : List Address) (w : World) :
    ∃ l : List Address, w.clearEmpty accounts = l.foldl (fun w a => w.destroyAccount a) w := by
  induction accounts generalizing w with
  | nil => exact ⟨[], rfl⟩
  | cons a accounts ih =>
    rw [clearEmpty, List.foldl_cons]
    split
    · obtain ⟨l, hl⟩ := ih (w.destroyAccount a)
      exact ⟨a :: l, hl⟩
    · exact ih w

theorem exists_sweep_eq (rules : Rules) (o : Outcome) (w : World) :
    ∃ l : List Address, w.sweep rules o = l.foldl (fun w a => w.destroyAccount a) w := by
  unfold sweep
  dsimp only
  split
  · obtain ⟨l, hl⟩ := exists_clearEmpty_eq o.touched.toList (o.destroyed.toList.foldl _ w)
    exact ⟨o.destroyed.toList ++ l, by rw [hl, List.foldl_append]⟩
  · exact ⟨o.destroyed.toList, rfl⟩

private theorem change_sweep (rules : Rules) (o : Outcome) (w : World) : Change w (w.sweep rules o) := by
  obtain ⟨l, hl⟩ := exists_sweep_eq rules o w
  rw [hl]
  clear hl
  induction l generalizing w with
  | nil => exact .refl w
  | cons b l ih => exact (Change.destroyAccount b w).trans (ih _)

private theorem change_payFee {rules : Rules} {coinbase : Address} {fee : Word}
    (h : payFee rules coinbase fee w = .ok () w') : Change w w' := by
  rcases payFee_cases h with ⟨-, hadd⟩ | ⟨-, rfl | ⟨-, rfl⟩⟩
  · exact .of_addBalance hadd
  · exact .refl w'
  · exact .destroyAccount coinbase w

private theorem total_foldl_destroyAccount_le (accounts : List Address) (w : World) :
    (accounts.foldl (fun w a => w.destroyAccount a) w).total ≤ w.total := by
  induction accounts generalizing w with
  | nil => exact Nat.le_refl _
  | cons a accounts ih =>
    have ha : (w.destroyAccount a).total ≤ w.total := Nat.le.intro (total_destroyAccount a w)
    exact Nat.le_trans (ih _) ha

private theorem total_sweep (rules : Rules) (o : Outcome) (w : World) :
    (w.sweep rules o).total = (o.destroyed.toList.foldl (fun w a => w.destroyAccount a) w).total := by
  unfold sweep
  dsimp only
  split
  · exact total_clearEmpty _ _
  · rfl

theorem total_sweep_le (rules : Rules) (o : Outcome) (w : World) :
    (w.sweep rules o).total ≤ w.total :=
  total_sweep rules o w ▸ total_foldl_destroyAccount_le _ w

theorem total_sweep_of_none (rules : Rules) {o : Outcome} (h : o.destroyed = ∅) (w : World) :
    (w.sweep rules o).total = w.total := by
  rw [total_sweep, h]
  rfl

end World

namespace SignedTransaction

variable {t : SignedTransaction} {rules : Rules} {block : BlockEnv} {w w₁ w' : World}
  {gasAvailable : Nat} {a : Admission} {o : Outcome}

theorem toNat_gasCost {gas limit : Nat} {price : Word} (hle : gas ≤ limit)
    (hfits : limit * price.toNat < wordLimit) (hlimit : limit < countLimit) :
    (gasCost gas price).toNat = gas * price.toNat := by
  have hgas : gas < 2 ^ 256 := Nat.lt_of_le_of_lt hle (Nat.lt_trans hlimit (by decide))
  rw [gasCost, BitVec.toNat_mul, BitVec.toNat_ofNat, Nat.mod_eq_of_lt hgas]
  exact Nat.mod_eq_of_lt (Nat.lt_of_le_of_lt (Nat.mul_le_mul_right _ hle) hfits)

/-- What a transaction has come to that took the fee for all its gas and ran its message. -/
structure Executed (t : SignedTransaction) (a : Admission) (w : World) (o : Outcome) (w₁ : World) :
    Prop where
  gas : o.gasLeft ≤ t.body.gasLimit.toNat - a.intrinsicGas
  failed : o.failure ≠ none → o.destroyed = ∅
  total_le : w.WellFormed →
    w₁.total + (gasCost t.body.gasLimit.toNat a.gasPrice).toNat ≤ w.total
  total_eq : w.WellFormed → o.destroyed = ∅ →
    w₁.total + (gasCost t.body.gasLimit.toNat a.gasPrice).toNat = w.total

/-- A transaction raises its sender's nonce and takes the fee for all gas, and then its message runs. -/
theorem execute_cases (h : t.execute rules block a w = .ok o w₁) :
    ∃ w₂ w₃, World.incrementNonce a.sender w.beginTransaction = .ok () w₂ ∧
      World.subBalance a.sender (gasCost t.body.gasLimit.toNat a.gasPrice) w₂ = .ok () w₃ ∧
      (t.body.message rules w₃ a.sender t.body.nonce (t.body.gasLimit.toNat - a.intrinsicGas)).execute
        ⟨rules, block, ⟨a.sender, a.gasPrice⟩⟩ callDepthLimit w₃ = .ok o w₁ := by
  obtain ⟨⟨⟩, w₂, hbegin, h⟩ := World.of_bind_ok h
  cases hbegin
  obtain ⟨⟨⟩, w₃, hnonce, h⟩ := World.of_bind_ok h
  obtain ⟨⟨⟩, w₄, hfee, h⟩ := World.of_bind_ok h
  obtain ⟨w₅, w₆, hget, h⟩ := World.of_bind_ok h
  cases hget
  exact ⟨w₃, w₄, hnonce, hfee, h⟩

theorem execute_ok (h : t.execute rules block a w = .ok o w₁) : t.Executed a w o w₁ := by
  obtain ⟨w₃, w₄, hnonce, hfee, h⟩ := execute_cases h
  have hm := Message.execute_ok h
  have hn : w₃.total = w.beginTransaction.total := World.total_incrementNonce hnonce
  have hbegin := World.total_beginTransaction w
  have ht := World.total_subBalance hfee
  have hw : w.WellFormed → w₄.WellFormed := fun hw =>
    (World.Evolves.subBalance hfee).wellFormed
      ((World.Evolves.incrementNonce hnonce).wellFormed hw.beginTransaction)
  exact
    { gas := hm.gas
      failed := hm.failed
      total_le := fun h => by
        have := hm.total_le (hw h)
        omega
      total_eq := fun h hd => by
        have := hm.total_eq (hw h) hd
        omega }

/-- The sender is paid back, the coinbase is paid, and then accounts are swept. -/
theorem settle_cases {charged : Nat} (h : t.settle rules block a o w₁ = .ok charged w') :
    ∃ refund w₂ w₃, refund = refundOf rules (t.body.gasLimit.toNat - o.gasLeft) o ∧
      charged = t.body.gasLimit.toNat - o.gasLeft - refund ∧
      World.addBalance a.sender (gasCost (o.gasLeft + refund) a.gasPrice) w₁ = .ok () w₂ ∧
      World.payFee rules block.coinbase (gasCost charged (a.gasPrice - block.baseFee.getD 0)) w₂ = .ok () w₃ ∧
      w' = w₃.sweep rules o := by
  obtain ⟨⟨⟩, w₂, hback, h⟩ := World.of_bind_ok h
  obtain ⟨⟨⟩, w₃, hfee, h⟩ := World.of_bind_ok h
  obtain ⟨⟨⟩, w₄, hsweep, h⟩ := World.of_bind_ok h
  cases hsweep
  cases h
  exact ⟨_, w₂, w₃, rfl, rfl, hback, hfee, rfl⟩

theorem settle_change {charged : Nat} (h : t.settle rules block a o w₁ = .ok charged w') : World.Change w₁ w' := by
  obtain ⟨refund, w₂, w₃, -, -, hback, hfee, rfl⟩ := settle_cases h
  exact (World.Change.of_addBalance hback).trans ((World.change_payFee hfee).trans (World.change_sweep _ _ _))

/-- What is charged, and what becomes of it: the sender gets back the price of the rest, and the
coinbase gets the part of the price over the base fee. -/
theorem settle_ok {charged : Nat} (h : t.settle rules block a o w₁ = .ok charged w') :
    ∃ refund, refund = refundOf rules (t.body.gasLimit.toNat - o.gasLeft) o ∧
      charged = t.body.gasLimit.toNat - o.gasLeft - refund ∧
      ∃ w₂ : World, w₂.total = w₁.total + (gasCost (o.gasLeft + refund) a.gasPrice).toNat +
        (gasCost charged (a.gasPrice - block.baseFee.getD 0)).toNat ∧ w' = w₂.sweep rules o := by
  obtain ⟨refund, w₂, w₃, hrefund, hcharged, hback, hfee, hsweep⟩ := settle_cases h
  refine ⟨refund, hrefund, hcharged, w₃, ?_, hsweep⟩
  rw [World.total_payFee hfee, World.total_addBalance hback]

theorem process_of_valid {outcome : TransactionOutcome}
    (hvalid : t.validate rules block w gasAvailable = .ok a)
    (h : t.carryOut rules block a w = .ok outcome w') :
    t.process rules block gasAvailable w = .ok outcome w' := by
  simp only [process, hvalid, h]

/-- A transaction that is included was admitted and carried out. -/
theorem exists_carryOut {outcome : TransactionOutcome}
    (h : t.process rules block gasAvailable w = .ok outcome w') :
    ∃ a, t.validate rules block w gasAvailable = .ok a ∧ t.carryOut rules block a w = .ok outcome w' ∧
      outcome.sender = a.sender := by
  unfold process at h
  split at h
  · cases h
  · next a hvalid =>
    split at h
    · next hcarry =>
      cases h
      refine ⟨a, hvalid, hcarry, ?_⟩
      obtain ⟨o, w₁, -, hcarry⟩ := World.of_bind_ok hcarry
      obtain ⟨charged, w₂, -, hcarry⟩ := World.of_bind_ok hcarry
      cases hcarry
      rfl
    · cases h

/-- What is carried out was executed and settled. -/
theorem process_ok {outcome : TransactionOutcome}
    (h : t.process rules block gasAvailable w = .ok outcome w') :
    ∃ a o w₁, t.validate rules block w gasAvailable = .ok a ∧ t.execute rules block a w = .ok o w₁ ∧
      t.settle rules block a o w₁ = .ok outcome.gasUsed w' ∧ outcome.failure = o.failure ∧
      outcome.sender = a.sender ∧ outcome.logs = o.logs := by
  obtain ⟨a, hvalid, hcarry, -⟩ := exists_carryOut h
  obtain ⟨o, w₁, hexecute, hcarry⟩ := World.of_bind_ok hcarry
  obtain ⟨charged, w₂, hsettle, hcarry⟩ := World.of_bind_ok hcarry
  cases hcarry
  exact ⟨a, o, w₁, hvalid, hexecute, hsettle, rfl, rfl, rfl⟩

end SignedTransaction

end StateTransition
