import StateTransition.Proofs.Chain.Admission

/-! The price per gas, found from a transaction alone and found when it is admitted. Both rules give the same price, which
leaves the coinbase no more than it was offered, and neither ever adds up to more than a word or takes more than there
is. -/
namespace StateTransition

namespace Transaction

/-- The price that `gasPrice` finds, or nothing where a sum or a difference is not a word. -/
def gasPriceChecked? (t : Transaction) (baseFee : Option Word) : Option (Except TransactionRejection Word) :=
  if t.maxFee < t.maxPriorityFee then some (.error (.priorityFeeAboveMax t.maxPriorityFee t.maxFee))
  else
    match baseFee with
    | none => some (.ok t.maxFee)
    | some baseFee =>
      if t.maxFee < baseFee then some (.error (.feeBelowBaseFee t.maxFee baseFee))
      else do
        let room ← t.maxFee.sub? baseFee
        let price ← baseFee.add? (if t.maxPriorityFee ≤ room then t.maxPriorityFee else room)
        return .ok price

/-- The price that `effectiveGasPrice?` finds, or nothing where a sum or a difference is not a word. -/
def effectiveGasPriceChecked? (t : Transaction) (baseFee : Option Word) : Option (Option Word) :=
  match t.kind, baseFee with
  | .dynamicFee _ maxPriorityFee maxFee _, some baseFee =>
    if maxFee < baseFee then some none
    else do
      let room ← maxFee.sub? baseFee
      let price ← baseFee.add? (if maxPriorityFee ≤ room then maxPriorityFee else room)
      return some price
  | _, _ => some (some t.maxFee)

variable {t : Transaction} {maxFee baseFee price : Word}

/-! ### The tip -/

/-- A tip that is cut to the room above the base fee. It makes no more than the greatest fee together with that. -/
private theorem tip_fits (tip : Word) (h : ¬maxFee < baseFee) :
    let room := maxFee - baseFee
    let cut := if tip ≤ room then tip else room
    maxFee.sub? baseFee = some room ∧ baseFee.add? cut = some (baseFee + cut) := by
  intro room cut
  have hle : baseFee ≤ maxFee := BitVec.not_lt.mp h
  have hroom : room.toNat = maxFee.toNat - baseFee.toNat := BitVec.toNat_sub_of_le hle
  have hcut : cut.toNat ≤ room.toNat := by
    dsimp only [cut]
    split
    · next hle => exact hle
    · exact Nat.le_refl _
  have hfee : maxFee.toNat < wordLimit := maxFee.isLt
  refine ⟨if_pos hle, if_pos ?_⟩
  rw [BitVec.le_def] at hle
  omega

/-- With checks the price comes out as without them. -/
private theorem tip_checked {α : Type} (tip : Word) (f : Word → α) (h : ¬maxFee < baseFee) :
    (do
      let room ← maxFee.sub? baseFee
      let price ← baseFee.add? (if tip ≤ room then tip else room)
      return f price) = some (f (baseFee + if tip ≤ maxFee - baseFee then tip else maxFee - baseFee)) := by
  obtain ⟨hroom, hsum⟩ := tip_fits tip h
  rw [hroom, Option.bind_eq_bind, Option.bind_some, hsum]
  rfl

private theorem tip_bounds (tip : Word) (h : ¬maxFee < baseFee) :
    let room := maxFee - baseFee
    let price := baseFee + if tip ≤ room then tip else room
    price ≤ maxFee ∧ baseFee ≤ price ∧ price - baseFee ≤ tip := by
  intro room price
  dsimp only [price, room]
  split <;> bv_omega

/-- With one fee for all a tip takes the room above any base fee. -/
theorem add_tip_of_eq (h : ¬maxFee < baseFee) :
    (baseFee + if maxFee ≤ maxFee - baseFee then maxFee else maxFee - baseFee) = maxFee := by
  split <;> bv_omega

/-! ### The two rules -/

private theorem gasPrice_none (h : t.gasPrice none = .ok price) : price = t.maxFee := by
  unfold gasPrice at h
  obtain ⟨-, h⟩ := ok_of_guard h
  exact (Except.ok.inj h).symm

private theorem gasPrice_some (h : t.gasPrice (some baseFee) = .ok price) :
    ¬t.maxFee < baseFee ∧ price = baseFee +
      if t.maxPriorityFee ≤ t.maxFee - baseFee then t.maxPriorityFee else t.maxFee - baseFee := by
  unfold gasPrice at h
  obtain ⟨-, h⟩ := ok_of_guard h
  obtain ⟨hbase, h⟩ := ok_of_guard h
  exact ⟨hbase, (Except.ok.inj h).symm⟩

private theorem effectiveGasPrice?_none (t : Transaction) : t.effectiveGasPrice? none = some t.maxFee := by
  unfold effectiveGasPrice?
  cases t.kind <;> rfl

/-- A transaction with one price has it for its tip as well. -/
private theorem effectiveGasPrice?_some (h : ¬t.maxFee < baseFee) :
    t.effectiveGasPrice? (some baseFee) = some (baseFee +
      if t.maxPriorityFee ≤ t.maxFee - baseFee then t.maxPriorityFee else t.maxFee - baseFee) := by
  obtain ⟨nonce, gasLimit, target, value, data, kind⟩ := t
  cases kind with
  | legacy gasPrice => exact congrArg some (add_tip_of_eq h).symm
  | accessList chainId gasPrice accesses => exact congrArg some (add_tip_of_eq h).symm
  | dynamicFee chainId maxPriorityFee maxFee accesses => exact if_neg h

private theorem gasPriceChecked?_eq (t : Transaction) (baseFee : Option Word) :
    t.gasPriceChecked? baseFee = some (t.gasPrice baseFee) := by
  unfold gasPriceChecked? gasPrice
  by_cases htip : t.maxFee < t.maxPriorityFee
  · rw [if_pos htip, if_pos htip]
    rfl
  · rw [if_neg htip, if_neg htip]
    cases baseFee with
    | none => rfl
    | some baseFee =>
      dsimp only
      by_cases hbase : t.maxFee < baseFee
      · rw [if_pos hbase, if_pos hbase]
        rfl
      · rw [if_neg hbase, if_neg hbase]
        exact tip_checked t.maxPriorityFee _ hbase

private theorem effectiveGasPriceChecked?_eq (t : Transaction) (baseFee : Option Word) :
    t.effectiveGasPriceChecked? baseFee = some (t.effectiveGasPrice? baseFee) := by
  unfold effectiveGasPriceChecked? effectiveGasPrice?
  cases t.kind with
  | legacy | accessList => rfl
  | dynamicFee chainId maxPriorityFee maxFee accesses =>
    cases baseFee with
    | none => rfl
    | some baseFee =>
      dsimp only
      by_cases hbase : maxFee < baseFee
      · rw [if_pos hbase, if_pos hbase]
      · rw [if_neg hbase, if_neg hbase]
        exact tip_checked maxPriorityFee _ hbase

end Transaction

namespace SignedTransaction

/-- The price at which a transaction is admitted is the one that it offers by itself. It is not above the greatest fee nor
below the base fee, and leaves the coinbase no more than the transaction offers. With any fees, neither rule takes a
difference below zero or a sum that is no word. -/
theorem fee_rules_agree (t : SignedTransaction) (baseFee : Option Word) :
    (∀ price, t.body.gasPrice baseFee = .ok price →
      t.body.effectiveGasPrice? baseFee = some price ∧ price ≤ t.body.maxFee ∧
        ∀ base, baseFee = some base → base ≤ price ∧ price - base ≤ t.body.maxPriorityFee) ∧
      t.body.gasPriceChecked? baseFee = some (t.body.gasPrice baseFee) ∧
      t.body.effectiveGasPriceChecked? baseFee = some (t.body.effectiveGasPrice? baseFee) := by
  refine ⟨fun price h => ?_, t.body.gasPriceChecked?_eq baseFee, t.body.effectiveGasPriceChecked?_eq baseFee⟩
  cases baseFee with
  | none =>
    obtain rfl := Transaction.gasPrice_none h
    exact ⟨t.body.effectiveGasPrice?_none, BitVec.le_refl _, fun _ hbase => by cases hbase⟩
  | some base =>
    obtain ⟨hbase, rfl⟩ := Transaction.gasPrice_some h
    obtain ⟨hmax, hmin, htip⟩ := Transaction.tip_bounds t.body.maxPriorityFee hbase
    refine ⟨Transaction.effectiveGasPrice?_some hbase, hmax, ?_⟩
    rintro base' ⟨⟩
    exact ⟨hmin, htip⟩

/-- The greatest fee of all leaves room for a tip of one. -/
theorem fee_rules_agree_at_greatest :
    let body : Transaction :=
      { nonce := 0, gasLimit := 21000, target := none, value := 0, data := []
        kind := .dynamicFee 1 (maxWord - 1) maxWord [] }
    let t : SignedTransaction := ⟨body, 0, 1, 1⟩
    body.gasPrice (some (maxWord - 1)) = .ok maxWord ∧
      body.effectiveGasPrice? (some (maxWord - 1)) = some maxWord ∧ maxWord ≤ t.body.maxFee ∧
      maxWord - 1 ≤ maxWord ∧ maxWord - (maxWord - 1) ≤ t.body.maxPriorityFee := by
  intro body t
  have hprice : body.gasPrice (some (maxWord - 1)) = .ok maxWord := by decide
  obtain ⟨hagree, -⟩ := fee_rules_agree t (some (maxWord - 1))
  obtain ⟨hsame, hmax, hbase⟩ := hagree maxWord hprice
  exact ⟨hprice, hsame, hmax, hbase _ rfl⟩

end SignedTransaction

end StateTransition
