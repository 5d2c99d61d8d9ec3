import StateTransition.Proofs.World.Evolution
import StateTransition.Proofs.World.Total

/-! When wei can be moved: a balance can be lowered by what is there, and raised where the sum of all
balances leaves room. -/
namespace StateTransition

namespace World

variable {w w' : World} {a b : Address} {amount : Word} {cause : WorldError}

theorem balance_le_total (a : Address) (w : World) : (w.balance a).toNat ≤ w.total := by
  rw [total_eq a]
  exact Nat.le_add_right _ _

/-! ### What leaves balances as they are -/

theorem accountOrEmpty_congr (h : w'.accounts = w.accounts) (b : Address) :
    w'.accountOrEmpty b = w.accountOrEmpty b := by
  rw [accountOrEmpty, accountOrEmpty, account?, account?, h]

theorem balance_congr (h : w'.accounts = w.accounts) (b : Address) : w'.balance b = w.balance b := by
  rw [balance, balance, accountOrEmpty_congr h]

private theorem balance_setAccount_of_balance {r : Option Account} (h : (r.getD .empty).balance = w.balance a)
    (b : Address) : (w.setAccount a r).balance b = w.balance b := by
  rw [balance, accountOrEmpty, account?_setAccount]
  split
  · next hab => rw [h, hab]
  · rfl

theorem balance_touch (a : Address) (w : World) (b : Address) : (w.touch a).balance b = w.balance b := by
  unfold touch
  split
  · rfl
  · next h =>
    refine balance_setAccount_of_balance ?_ b
    exact (balance_of_not_hasAccount (by simpa using h)).symm

theorem balance_incrementNonce (h : (incrementNonce a).run w = .ok () w') (b : Address) :
    w'.balance b = w.balance b := by
  rw [run_incrementNonce] at h
  split at h
  · cases h
    refine balance_setAccount_of_balance ?_ b
    rfl
  · cases h

/-! ### Moving wei -/

theorem addBalance_eq_ok_iff : addBalance a amount w = .ok () w' ↔
    ∃ sum, (w.balance a).add? amount = some sum ∧ w' = w.setBalance a sum := by
  change (addBalance a amount).run w = _ ↔ _
  rw [run_addBalance]
  cases (w.balance a).add? amount with
  | none => simp
  | some sum => simp [eq_comm]

theorem subBalance_eq_ok_iff : subBalance a amount w = .ok () w' ↔
    ∃ rest, (w.balance a).sub? amount = some rest ∧ w' = w.setBalance a rest := by
  change (subBalance a amount).run w = _ ↔ _
  rw [run_subBalance]
  cases (w.balance a).sub? amount with
  | none => simp
  | some rest => simp [eq_comm]

theorem incrementNonce_ok (h : incrementNonce a w = .ok () w') :
    (w.accountOrEmpty a).nonce.toNat + 1 < countLimit ∧
      w' = w.setAccount a (some { w.accountOrEmpty a with nonce := (w.accountOrEmpty a).nonce + 1 }) := by
  have hrun := run_incrementNonce a w
  rw [EStateM.run, h] at hrun
  split at hrun
  · next hlt =>
    cases hrun
    exact ⟨hlt, rfl⟩
  · cases hrun

theorem exists_addBalance (h : (w.balance a).toNat + amount.toNat < wordLimit) :
    ∃ w', addBalance a amount w = .ok () w' := by
  obtain ⟨sum, hsum⟩ := Word.exists_add? h
  have hrun := run_addBalance a amount w
  rw [hsum] at hrun
  exact ⟨_, hrun⟩

theorem exists_subBalance (h : amount ≤ w.balance a) : ∃ w', subBalance a amount w = .ok () w' := by
  obtain ⟨rest, hrest⟩ := Word.exists_sub? h
  have hrun := run_subBalance a amount w
  rw [hrest] at hrun
  exact ⟨_, hrun⟩

theorem addBalance_error (h : addBalance a amount w = .error cause w') :
    wordLimit ≤ (w.balance a).toNat + amount.toNat ∧ cause = .balanceOverflow a ∧ w' = w := by
  have hfits : ¬(w.balance a).toNat + amount.toNat < wordLimit := fun hlt => by
    obtain ⟨w₁, hok⟩ := exists_addBalance hlt
    rw [hok] at h
    cases h
  have hrun := run_addBalance a amount w
  rw [EStateM.run, h] at hrun
  split at hrun <;> cases hrun
  exact ⟨Nat.le_of_not_lt hfits, rfl, rfl⟩

theorem subBalance_error (h : subBalance a amount w = .error cause w') :
    w.balance a < amount ∧ cause = .insufficientBalance a amount (w.balance a) ∧ w' = w := by
  have hfits : ¬amount ≤ w.balance a := fun hle => by
    obtain ⟨w₁, hok⟩ := exists_subBalance hle
    rw [hok] at h
    cases h
  have hrun := run_subBalance a amount w
  rw [EStateM.run, h] at hrun
  split at hrun <;> cases hrun
  exact ⟨BitVec.not_le.mp hfits, rfl, rfl⟩

theorem incrementNonce_error (h : incrementNonce a w = .error cause w') : w' = w := by
  have hrun := run_incrementNonce a w
  rw [EStateM.run, h] at hrun
  split at hrun <;> cases hrun
  rfl

/-- Where all balances together are a word, what one account loses another one can get. -/
theorem exists_transfer {source target : Address} (h : amount ≤ w.balance source)
    (ht : w.total < wordLimit) : ∃ w', transfer source target amount w = .ok () w' := by
  obtain ⟨w₁, hsub⟩ := exists_subBalance h
  have htotal := total_subBalance hsub
  have hle := balance_le_total target w₁
  have hroom : (w₁.balance target).toNat + amount.toNat < wordLimit := by omega
  obtain ⟨w₂, hadd⟩ := exists_addBalance hroom
  have hrun : transfer source target amount w = addBalance target amount w₁ := by
    simp only [transfer, bind, EStateM.bind, hsub]
  exact ⟨w₂, hrun.trans hadd⟩

/-- What is left where a balance was lowered. -/
theorem toNat_balance_subBalance (h : (subBalance a amount).run w = .ok () w') :
    (w'.balance a).toNat + amount.toNat = (w.balance a).toNat := by
  rw [run_subBalance] at h
  split at h
  · next rest hrest =>
    cases h
    rw [balance_setBalance, if_pos rfl]
    exact Word.toNat_of_sub? hrest
  · cases h

end World

end StateTransition
