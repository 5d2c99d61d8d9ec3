import StateTransition.Proofs.Word
import StateTransition.Proofs.World.Operation

/-! The sum of all balances, in unbounded numbers. An operation changes it by what it adds to one
account or takes from it; moving wei leaves it as it was. -/
namespace StateTransition

namespace World

variable {w w' : World} {a b : Address}

def sumBalances (accounts : Std.ExtTreeMap Address Account) : Nat :=
  accounts.toList.foldr (fun e sum => e.2.balance.toNat + sum) 0

def total (w : World) : Nat := sumBalances w.accounts

def totalBeside (a : Address) (w : World) : Nat := sumBalances (w.accounts.erase a)

private theorem nodup_toList (m : Std.ExtTreeMap Address Account) : m.toList.Nodup :=
  (Std.ExtTreeMap.distinct_keys_toList (t := m)).imp fun h he => h (by rw [he, Std.compare_self])

private theorem toList_perm_cons_erase {m : Std.ExtTreeMap Address Account} {r : Account}
    (h : m[a]? = some r) : m.toList.Perm ((a, r) :: (m.erase a).toList) := by
  have hnot : (a, r) ∉ (m.erase a).toList := by
    rw [Std.ExtTreeMap.mem_toList_iff_getElem?_eq_some]
    simp
  refine (List.perm_ext_iff_of_nodup (nodup_toList m)
    (List.nodup_cons.mpr ⟨hnot, nodup_toList _⟩)).mpr fun ⟨b, s⟩ => ?_
  rw [List.mem_cons, Std.ExtTreeMap.mem_toList_iff_getElem?_eq_some,
    Std.ExtTreeMap.mem_toList_iff_getElem?_eq_some, Std.ExtTreeMap.getElem?_erase, Prod.mk.injEq]
  by_cases hab : a = b
  · subst hab
    simp [h, eq_comm]
  · simp [hab, Ne.symm hab]

theorem total_eq (a : Address) (w : World) :
    w.total = (w.balance a).toNat + w.totalBeside a := by
  cases h : w.accounts[a]? with
  | none =>
    have he : w.accounts.erase a = w.accounts := by
      apply Std.ExtTreeMap.ext_getElem?
      intro b
      rw [Std.ExtTreeMap.getElem?_erase]
      split
      · next hab => rw [← Std.compare_eq_iff_eq.mp hab, h]
      · rfl
    simp [total, totalBeside, balance, accountOrEmpty, account?, h, he, Account.empty]
  | some r =>
    have hp := (toList_perm_cons_erase h).foldr_eq' (f := fun e sum => e.2.balance.toNat + sum)
      (fun _ _ _ _ _ => Nat.add_left_comm _ _ _) 0
    rw [total, sumBalances, hp, List.foldr_cons, totalBeside, sumBalances]
    simp [balance, accountOrEmpty, account?, h]

theorem total_congr (h : w'.accounts = w.accounts) : w'.total = w.total := by
  rw [total, total, h]

private theorem totalBeside_putAccount (a : Address) (r : Option Account) (w : World) :
    (w.putAccount a r).totalBeside a = w.totalBeside a := by
  have he : (w.putAccount a r).accounts.erase a = w.accounts.erase a := by
    apply Std.ExtTreeMap.ext_getElem?
    intro b
    cases r <;> simp only [putAccount, Std.ExtTreeMap.getElem?_erase, Std.ExtTreeMap.getElem?_insert]
      <;> split <;> rfl
  rw [totalBeside, totalBeside, he]

private theorem balance_putAccount_self (a : Address) (r : Option Account) (w : World) :
    (w.putAccount a r).balance a = (r.getD .empty).balance := by
  rw [balance, accountOrEmpty, account?_putAccount, if_pos rfl]

theorem record_accounts (u : Undo) (w : World) : (w.record u).accounts = w.accounts :=
  (Agrees.record u w).accounts

theorem account?_setAccount (a : Address) (r : Option Account) (w : World) (b : Address) :
    (w.setAccount a r).account? b = if a = b then r else w.account? b := by
  rw [setAccount, account?, record_accounts]
  exact account?_putAccount a r w b

/-- Putting a record in place exchanges one balance for another. -/
private theorem total_setAccount (a : Address) (r : Option Account) (w : World) :
    (w.setAccount a r).total + (w.balance a).toNat = w.total + (r.getD .empty).balance.toNat := by
  rw [setAccount, total_congr (record_accounts _ _), total_eq a, totalBeside_putAccount,
    balance_putAccount_self, total_eq a w]
  omega

private theorem total_setAccount_of_balance {r : Option Account}
    (h : (r.getD .empty).balance = w.balance a) : (w.setAccount a r).total = w.total := by
  have ht := total_setAccount a r w
  rw [h] at ht
  omega

/-! ### Operations that move nothing -/

theorem balance_of_not_hasAccount (h : w.hasAccount a = false) : w.balance a = 0 := by
  have hnone : w.account? a = none := by simpa [hasAccount] using h
  rw [balance, accountOrEmpty, hnone]
  rfl

theorem total_touch (a : Address) (w : World) : (w.touch a).total = w.total := by
  unfold touch
  split
  · rfl
  · next h => exact total_setAccount_of_balance (balance_of_not_hasAccount (by simpa using h)).symm

theorem destroyStorage_accounts (a : Address) (w : World) :
    (w.destroyStorage a).accounts = w.accounts := by
  unfold destroyStorage
  split
  · rfl
  · next s hs =>
    obtain ⟨initial, he⟩ := Change.foldl_rememberSlot a s.toList w
    simp only [he]
    exact record_accounts _ _

private theorem total_destroyStorage (a : Address) (w : World) : (w.destroyStorage a).total = w.total :=
  total_congr (destroyStorage_accounts a w)

theorem setSlot_accounts (a : Address) (k : Hash) (value : Word) (w : World) :
    (w.setSlot a k value).accounts = w.accounts :=
  record_accounts _ _

theorem total_setSlot (a : Address) (k : Hash) (value : Word) (w : World) :
    (w.setSlot a k value).total = w.total :=
  total_congr (setSlot_accounts a k value w)

theorem total_setCode (a : Address) (code : ByteArray) (w : World) :
    (w.setCode a code).total = w.total := by
  unfold setCode updateAccount
  split <;> exact total_setAccount_of_balance rfl

theorem total_incrementNonce (h : (incrementNonce a).run w = .ok () w') : w'.total = w.total := by
  rw [run_incrementNonce] at h
  split at h
  · cases h
    exact total_setAccount_of_balance rfl
  · cases h

theorem total_commit (h : commit.run w = .ok () w') : w'.total = w.total := by
  rw [run_commit] at h
  split at h
  · cases h
  · cases h
    rfl
  · cases h
    rfl

/-! ### Operations on balances -/

theorem total_setBalance (a : Address) (balance : Word) (w : World) :
    (w.setBalance a balance).total + (w.balance a).toNat = w.total + balance.toNat :=
  total_setAccount a _ w

theorem total_addBalance {amount : Word} (h : (addBalance a amount).run w = .ok () w') :
    w'.total = w.total + amount.toNat := by
  rw [run_addBalance] at h
  split at h
  · next sum hsum =>
    cases h
    have ht := total_setBalance a sum w
    have hs := Word.toNat_of_add? hsum
    omega
  · cases h

theorem balance_setBalance (a : Address) (amount : Word) (w : World) (b : Address) :
    (w.setBalance a amount).balance b = if a = b then amount else w.balance b := by
  rw [setBalance, updateAccount, balance, accountOrEmpty, account?_setAccount]
  split <;> rfl

/-- Raising one balance lowers none. -/
theorem balance_le_addBalance {amount : Word} (h : (addBalance a amount).run w = .ok () w')
    (b : Address) : (w.balance b).toNat ≤ (w'.balance b).toNat := by
  rw [run_addBalance] at h
  split at h
  · next sum hsum =>
    cases h
    rw [balance_setBalance]
    split
    · next hab =>
      subst hab
      rw [Word.toNat_of_add? hsum]
      omega
    · exact Nat.le_refl _
  · cases h

theorem total_subBalance {amount : Word} (h : (subBalance a amount).run w = .ok () w') :
    w'.total + amount.toNat = w.total := by
  rw [run_subBalance] at h
  split at h
  · next rest hrest =>
    cases h
    have ht := total_setBalance a rest w
    have hr := Word.toNat_of_sub? hrest
    omega
  · cases h

theorem total_transfer {source target : Address} {amount : Word}
    (h : (transfer source target amount).run w = .ok () w') : w'.total = w.total := by
  rw [transfer, EStateM.run_bind] at h
  split at h
  · next u w₁ hsub =>
    have hs := total_subBalance hsub
    have ha := total_addBalance h
    omega
  · cases h

/-- What an account has is gone with its record. -/
theorem total_destroyAccount (a : Address) (w : World) :
    (w.destroyAccount a).total + (w.balance a).toNat = w.total := by
  have hb : (w.destroyStorage a).balance a = w.balance a := by
    rw [balance, accountOrEmpty, account?, destroyStorage_accounts]
    rfl
  have ht := total_setAccount a none (w.destroyStorage a)
  rw [hb, total_destroyStorage] at ht
  simpa [destroyAccount, Account.empty] using ht

theorem total_destroyAccount_of_isEmpty (h : w.isEmptyAccount a) :
    (w.destroyAccount a).total = w.total := by
  have ht := total_destroyAccount a w
  have hb : w.balance a = 0 := by
    unfold isEmptyAccount at h
    cases hr : w.account? a with
    | none => simp [hr] at h
    | some r => simp_all [Account.isEmpty, balance, accountOrEmpty]
  rw [hb] at ht
  simpa using ht

end World

end StateTransition
