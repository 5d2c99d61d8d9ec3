import StateTransition.Proofs.World.Evolution
import StateTransition.Proofs.World.Balance

/-! Worlds to which nothing was written. An account without a record counts as an empty one, so a record
that is empty may be added while every account has the balance, code and storage that it had. -/
namespace StateTransition

namespace World

variable {w w' w'' u u' : World} {a source target : Address} {amount : Word}

/-- All but the accounts is as it was. -/
structure SameBesideAccounts (w w' : World) : Prop where
  storage : w'.storage = w.storage
  codes : w'.codes = w.codes
  initial : w'.initial = w.initial
  created : w'.created = w.created

/-- All is as it was, but that accounts without a record may have got an empty one. -/
structure Unwritten (w w' : World) : Prop extends SameBesideAccounts w w' where
  account : ∀ a, w'.account? a = w.account? a ∨ (w.account? a = none ∧ w'.account? a = some .empty)

namespace SameBesideAccounts

theorem refl (w : World) : SameBesideAccounts w w := ⟨rfl, rfl, rfl, rfl⟩

private theorem symm (h : SameBesideAccounts w w') : SameBesideAccounts w' w :=
  ⟨h.storage.symm, h.codes.symm, h.initial.symm, h.created.symm⟩

theorem trans (h : SameBesideAccounts w w') (h' : SameBesideAccounts w' w'') : SameBesideAccounts w w'' :=
  ⟨h'.storage.trans h.storage, h'.codes.trans h.codes, h'.initial.trans h.initial, h'.created.trans h.created⟩

theorem slot (h : SameBesideAccounts w w') (a : Address) (k : Hash) : w'.slot a k = w.slot a k := by
  rw [World.slot, World.slot, slots, slots, h.storage]

theorem setAccount (a : Address) (r : Option Account) (w : World) :
    SameBesideAccounts w (w.setAccount a r) := by
  unfold World.setAccount record
  cases r <;> split <;> exact ⟨rfl, rfl, rfl, rfl⟩

theorem transfer (h : World.transfer source target amount w = .ok () w') : SameBesideAccounts w w' := by
  obtain ⟨⟨⟩, w₁, hsub, hadd⟩ := of_bind_ok h
  obtain ⟨rest, -, rfl⟩ := subBalance_eq_ok_iff.mp hsub
  obtain ⟨sum, -, rfl⟩ := addBalance_eq_ok_iff.mp hadd
  exact (setAccount source _ w).trans (setAccount target _ _)

/-- A revert takes back what was written to accounts and slots, and this is all that was written. -/
theorem reverted (h : SameBesideAccounts w w') (hr : World.revert w' = .ok () w'') (hagrees : Agrees w'' w) :
    Unwritten w w'' := by
  have hrun := run_revert w'
  rw [EStateM.run, hr] at hrun
  split at hrun
  · cases hrun
  · next mark rest _ =>
    cases hrun
    obtain ⟨accounts, storage, hundo⟩ := foldl_undo_eq (w'.journal.take (w'.journal.length - mark))
      { w' with checkpoints := rest }
    have hinitial : (unwind mark { w' with checkpoints := rest }).initial = w'.initial := by rw [unwind, hundo]
    have hcreated : (unwind mark { w' with checkpoints := rest }).created = w'.created := by rw [unwind, hundo]
    refine ⟨⟨hagrees.storage, ?_, hinitial.trans h.initial, hcreated.trans h.created⟩, fun a => .inl ?_⟩
    · rw [unwind_codes]
      exact h.codes
    · rw [account?, hagrees.accounts, account?]

end SameBesideAccounts

namespace Unwritten

theorem refl (w : World) : Unwritten w w := ⟨.refl w, fun _ => .inl rfl⟩

theorem trans (h : Unwritten w w') (h' : Unwritten w' w'') : Unwritten w w'' where
  toSameBesideAccounts := h.toSameBesideAccounts.trans h'.toSameBesideAccounts
  account a := by
    rcases h.account a with he | ⟨hnone, hempty⟩ <;> rcases h'.account a with he' | ⟨hnone', hempty'⟩
    · exact .inl (he'.trans he)
    · exact .inr ⟨he.symm.trans hnone', hempty'⟩
    · exact .inr ⟨hnone, he'.trans hempty⟩
    · rw [hempty] at hnone'
      cases hnone'

theorem accountOrEmpty (h : Unwritten w w') (a : Address) : w'.accountOrEmpty a = w.accountOrEmpty a := by
  rw [World.accountOrEmpty, World.accountOrEmpty]
  rcases h.account a with he | ⟨hnone, hempty⟩
  · rw [he]
  · rw [hnone, hempty]
    rfl

private theorem balance (h : Unwritten w w') (a : Address) : w'.balance a = w.balance a := by
  rw [World.balance, World.balance, h.accountOrEmpty]

theorem checkpoint (w : World) : Unwritten w w.checkpoint := ⟨⟨rfl, rfl, rfl, rfl⟩, fun _ => .inl rfl⟩

theorem touch (a : Address) (w : World) : Unwritten w (w.touch a) := by
  unfold World.touch
  split
  · exact refl w
  · next hnone =>
    refine ⟨.setAccount a _ w, fun b => ?_⟩
    rw [account?_setAccount]
    split
    · next hb =>
      subst hb
      exact .inr ⟨by simpa [hasAccount] using hnone, rfl⟩
    · exact .inl rfl

theorem commit (h : World.commit w = .ok () w') : Unwritten w w' := by
  have hrun := run_commit w
  rw [EStateM.run, h] at hrun
  split at hrun <;> cases hrun <;> exact ⟨⟨rfl, rfl, rfl, rfl⟩, fun _ => .inl rfl⟩

/-! ### Moved balances -/

/-- The same record in the same place leaves nothing to tell apart. -/
private theorem setAccount (h : Unwritten w u) (a : Address) (r : Option Account) :
    Unwritten (w.setAccount a r) (u.setAccount a r) where
  toSameBesideAccounts :=
    (SameBesideAccounts.setAccount a r w).symm.trans (h.toSameBesideAccounts.trans (.setAccount a r u))
  account b := by
    rw [account?_setAccount, account?_setAccount]
    split
    · exact .inl rfl
    · exact h.account b

private theorem setBalance (h : Unwritten w u) (a : Address) (amount : Word) :
    Unwritten (w.setBalance a amount) (u.setBalance a amount) := by
  rw [World.setBalance, World.setBalance, updateAccount, updateAccount, h.accountOrEmpty]
  exact h.setAccount a _

private theorem addBalance (h : Unwritten w u) (hadd : World.addBalance a amount u = .ok () u') :
    ∃ w', World.addBalance a amount w = .ok () w' ∧ Unwritten w' u' := by
  obtain ⟨sum, hsum, rfl⟩ := addBalance_eq_ok_iff.mp hadd
  rw [h.balance] at hsum
  exact ⟨_, addBalance_eq_ok_iff.mpr ⟨sum, hsum, rfl⟩, h.setBalance a sum⟩

private theorem subBalance (h : Unwritten w u) (hsub : World.subBalance a amount u = .ok () u') :
    ∃ w', World.subBalance a amount w = .ok () w' ∧ Unwritten w' u' := by
  obtain ⟨rest, hrest, rfl⟩ := subBalance_eq_ok_iff.mp hsub
  rw [h.balance] at hrest
  exact ⟨_, subBalance_eq_ok_iff.mpr ⟨rest, hrest, rfl⟩, h.setBalance a rest⟩

/-- A transfer does the same whether or not empty records were added. -/
theorem transfer (h : Unwritten w u) (ht : World.transfer source target amount u = .ok () u') :
    ∃ w', World.transfer source target amount w = .ok () w' ∧ Unwritten w' u' := by
  obtain ⟨⟨⟩, u₁, hsub, hadd⟩ := of_bind_ok ht
  obtain ⟨w₁, hsub', h₁⟩ := h.subBalance hsub
  obtain ⟨w', hadd', h'⟩ := h₁.addBalance hadd
  refine ⟨w', ?_, h'⟩
  simp only [World.transfer, bind, EStateM.bind, hsub', hadd']

/-- A balance that is set to another one and back is part of the record that there was. -/
private theorem setBalance_back (a : Address) (rest : Word) (w : World) :
    (w.setBalance a rest).setBalance a (w.balance a) =
      (w.setBalance a rest).setAccount a (some (w.accountOrEmpty a)) := by
  have hrecord : (w.setBalance a rest).accountOrEmpty a = { w.accountOrEmpty a with balance := rest } := by
    rw [World.accountOrEmpty, World.setBalance, updateAccount, account?_setAccount, if_pos rfl]
    rfl
  change (w.setBalance a rest).setAccount a
    (some { (w.setBalance a rest).accountOrEmpty a with balance := w.balance a }) = _
  rw [hrecord]
  rfl

/-- A record that is replaced by the one that counted before leaves all as it was. -/
private theorem setAccount_back (a : Address) (r : Option Account) (w : World) :
    Unwritten w ((w.setAccount a r).setAccount a (some (w.accountOrEmpty a))) where
  toSameBesideAccounts := (SameBesideAccounts.setAccount a r w).trans (.setAccount a _ _)
  account b := by
    rw [account?_setAccount, account?_setAccount]
    split
    · next hb =>
      subst hb
      rw [World.accountOrEmpty]
      cases hr : w.account? a with
      | none => exact .inr ⟨rfl, rfl⟩
      | some r => exact .inl rfl
    · exact .inl rfl

/-- An account that sends to itself ends with what it had. -/
theorem transfer_self (h : World.transfer a a amount w = .ok () w') : Unwritten w w' := by
  obtain ⟨⟨⟩, w₁, hsub, hadd⟩ := of_bind_ok h
  obtain ⟨rest, hrest, rfl⟩ := subBalance_eq_ok_iff.mp hsub
  obtain ⟨sum, hsum, rfl⟩ := addBalance_eq_ok_iff.mp hadd
  rw [balance_setBalance, if_pos rfl] at hsum
  have hback : sum = w.balance a := by
    apply BitVec.eq_of_toNat_eq
    rw [Word.toNat_of_add? hsum, Word.toNat_of_sub? hrest]
  rw [hback, setBalance_back]
  exact setAccount_back a _ w

end Unwritten

end World

end StateTransition
