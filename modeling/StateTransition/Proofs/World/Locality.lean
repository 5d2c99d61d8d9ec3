import Mathlib.Data.Set.Insert
import StateTransition.Proofs.World.Unwritten

/-! Changes to few accounts. What is done to the accounts of a set leaves the records and the storage of
all others as they were. -/
namespace StateTransition

namespace World

variable {w w' w'' : World} {a : Address} {amount : Word} {s : Set Address}

/-- Accounts outside a set have the record and the storage that they had. -/
structure UnchangedBeside (s : Set Address) (w w' : World) : Prop where
  account : ∀ a ∉ s, w'.account? a = w.account? a
  slots : ∀ a ∉ s, w'.slots a = w.slots a

theorem slots_setAccount (a : Address) (r : Option Account) (w : World) (b : Address) :
    (w.setAccount a r).slots b = w.slots b := by
  rw [slots, slots, (SameBesideAccounts.setAccount a r w).storage]

namespace UnchangedBeside

theorem of_agrees (h : Agrees w' w) : UnchangedBeside s w w' where
  account a _ := by rw [account?, account?, h.accounts]
  slots a _ := by rw [World.slots, World.slots, h.storage]

theorem refl (w : World) : UnchangedBeside s w w := of_agrees (.refl w)

theorem trans (h : UnchangedBeside s w w') (h' : UnchangedBeside s w' w'') : UnchangedBeside s w w'' where
  account a ha := (h'.account a ha).trans (h.account a ha)
  slots a ha := (h'.slots a ha).trans (h.slots a ha)

theorem accountOrEmpty (h : UnchangedBeside s w w') (ha : a ∉ s) : w'.accountOrEmpty a = w.accountOrEmpty a := by
  rw [World.accountOrEmpty, World.accountOrEmpty, h.account a ha]

theorem balance (h : UnchangedBeside s w w') (ha : a ∉ s) : w'.balance a = w.balance a := by
  rw [World.balance, World.balance, h.accountOrEmpty ha]

/-! ### Single changes -/

theorem setAccount (a : Address) (r : Option Account) (w : World) :
    UnchangedBeside {a} w (w.setAccount a r) where
  account b hb := by
    rw [account?_setAccount, if_neg fun h => hb h.symm]
  slots b _ := slots_setAccount a r w b

theorem setBalance (a : Address) (amount : Word) (w : World) : UnchangedBeside {a} w (w.setBalance a amount) :=
  setAccount a _ w

theorem incrementNonce (h : World.incrementNonce a w = .ok () w') : UnchangedBeside {a} w w' := by
  obtain ⟨-, rfl⟩ := incrementNonce_ok h
  exact setAccount a _ w

theorem addBalance (h : World.addBalance a amount w = .ok () w') : UnchangedBeside {a} w w' := by
  obtain ⟨sum, -, rfl⟩ := addBalance_eq_ok_iff.mp h
  exact setBalance a sum w

theorem subBalance (h : World.subBalance a amount w = .ok () w') : UnchangedBeside {a} w w' := by
  obtain ⟨rest, -, rfl⟩ := subBalance_eq_ok_iff.mp h
  exact setBalance a rest w

end UnchangedBeside

theorem storage_destroyStorage (a : Address) (w : World) :
    (w.destroyStorage a).storage = w.storage.erase a := by
  unfold destroyStorage
  split
  · next hnone =>
    apply Std.ExtTreeMap.ext_getElem?
    intro b
    rw [Std.ExtTreeMap.getElem?_erase]
    split
    · next hb => rw [← Std.compare_eq_iff_eq.mp hb, hnone]
    · rfl
  · next slots _ =>
    obtain ⟨initial, he⟩ := Change.foldl_rememberSlot a slots.toList w
    rw [(Agrees.record _ _).storage]
    simp only [he]

theorem slots_destroyStorage (a : Address) (w : World) (b : Address) :
    (w.destroyStorage a).slots b = if a = b then ∅ else w.slots b := by
  rw [slots, storage_destroyStorage, Std.ExtTreeMap.getElem?_erase]
  simp only [Std.compare_eq_iff_eq]
  split <;> rfl

theorem account?_destroyAccount (a : Address) (w : World) (b : Address) :
    (w.destroyAccount a).account? b = if a = b then none else w.account? b := by
  rw [destroyAccount, account?_setAccount, account?, account?, destroyStorage_accounts]

theorem slots_destroyAccount (a : Address) (w : World) (b : Address) :
    (w.destroyAccount a).slots b = if a = b then ∅ else w.slots b := by
  rw [destroyAccount, slots_setAccount, slots_destroyStorage]

theorem UnchangedBeside.destroyAccount (a : Address) (w : World) :
    UnchangedBeside {a} w (w.destroyAccount a) where
  account b hb := by rw [account?_destroyAccount, if_neg fun h => hb h.symm]
  slots b hb := by rw [slots_destroyAccount, if_neg fun h => hb h.symm]

end World

end StateTransition
