import Mathlib.Data.Set.Basic
import StateTransition.Proofs.World.Balance

/-! Which accounts become empty. An account of which a record is written may be empty after that, all
others are as they were; a nonce once raised keeps its account from being empty. -/
namespace StateTransition

namespace World

variable {w w' w'' : World} {a b source target : Address} {amount : Word} {s t : Set Address}

def NoEmpty (w : World) : Prop := ∀ a, w.isEmptyAccount a = false

/-- Accounts have become empty only among given ones, and no nonce has fallen. -/
structure EmptiesWithin (s : Set Address) (w w' : World) : Prop where
  nonce : ∀ a, (w.accountOrEmpty a).nonce.toNat ≤ (w'.accountOrEmpty a).nonce.toNat
  empty : ∀ a, w'.isEmptyAccount a = true → w.isEmptyAccount a = true ∨ a ∈ s

theorem isEmptyAccount_congr (h : w'.accounts = w.accounts) (a : Address) :
    w'.isEmptyAccount a = w.isEmptyAccount a := by
  rw [isEmptyAccount, isEmptyAccount, account?, account?, h]

theorem isEmptyAccount_setAccount (a : Address) (r : Option Account) (w : World) (b : Address) :
    (w.setAccount a r).isEmptyAccount b = if a = b then r.any Account.isEmpty else w.isEmptyAccount b := by
  rw [isEmptyAccount, account?_setAccount]
  split <;> rfl

theorem accountOrEmpty_setAccount (a : Address) (r : Option Account) (w : World) (b : Address) :
    (w.setAccount a r).accountOrEmpty b = if a = b then r.getD .empty else w.accountOrEmpty b := by
  rw [accountOrEmpty, account?_setAccount]
  split <;> rfl

theorem toNat_nonce_incrementNonce (h : incrementNonce a w = .ok () w') :
    (w'.accountOrEmpty a).nonce.toNat = (w.accountOrEmpty a).nonce.toNat + 1 := by
  obtain ⟨hlt, rfl⟩ := incrementNonce_ok h
  rw [accountOrEmpty_setAccount, if_pos rfl, Option.getD_some, UInt64.toNat_add]
  exact Nat.mod_eq_of_lt hlt

/-- An account with a nonce is not empty. -/
theorem isEmptyAccount_of_nonce_ne_zero (h : (w.accountOrEmpty a).nonce.toNat ≠ 0) :
    w.isEmptyAccount a = false := by
  rw [isEmptyAccount]
  rw [accountOrEmpty] at h
  cases hr : w.account? a with
  | none => rfl
  | some r =>
    rw [hr] at h
    have hnonce : r.nonce ≠ 0 := fun h0 => h (by rw [Option.getD_some, h0]; rfl)
    simp [Account.isEmpty, hnonce]

namespace EmptiesWithin

theorem of_accounts (h : w'.accounts = w.accounts) : EmptiesWithin s w w' where
  nonce a := Nat.le_of_eq (by rw [accountOrEmpty_congr h])
  empty a ha := .inl (isEmptyAccount_congr h a ▸ ha)

theorem refl (w : World) : EmptiesWithin s w w := of_accounts rfl

theorem trans (h : EmptiesWithin s w w') (h' : EmptiesWithin s w' w'') : EmptiesWithin s w w'' where
  nonce a := Nat.le_trans (h.nonce a) (h'.nonce a)
  empty a ha := (h'.empty a ha).elim (h.empty a) .inr

/-- Of the given accounts those that are not empty in the end do not matter. -/
theorem restrict (h : EmptiesWithin s w w') (hs : ∀ a ∈ s, w'.isEmptyAccount a = true → a ∈ t) :
    EmptiesWithin t w w' where
  nonce := h.nonce
  empty a ha := (h.empty a ha).imp_right fun hmem => hs a hmem ha

theorem mono (h : EmptiesWithin s w w') (hs : s ⊆ t) : EmptiesWithin t w w' := h.restrict fun _ ha _ => hs ha

private theorem setAccount {r : Account} (hnonce : (w.accountOrEmpty a).nonce.toNat ≤ r.nonce.toNat)
    (ha : r.isEmpty = true → a ∈ s) : EmptiesWithin s w (w.setAccount a (some r)) where
  nonce b := by
    rw [accountOrEmpty_setAccount]
    split
    · next hab =>
      subst hab
      exact hnonce
    · exact Nat.le_refl _
  empty b hb := by
    rw [isEmptyAccount_setAccount] at hb
    split at hb
    · next hab =>
      subst hab
      exact .inr (ha hb)
    · exact .inl hb

theorem touch (ha : a ∈ s) (w : World) : EmptiesWithin s w (w.touch a) := by
  unfold World.touch
  split
  · exact refl w
  · next hnone =>
    refine setAccount ?_ fun _ => ha
    have hrecord : w.account? a = none := by simpa [hasAccount] using hnone
    rw [accountOrEmpty, hrecord]
    exact Nat.le_refl _

theorem setBalance (ha : a ∈ s) (amount : Word) (w : World) : EmptiesWithin s w (w.setBalance a amount) :=
  setAccount (Nat.le_refl _) fun _ => ha

theorem setCode (ha : a ∈ s) (code : ByteArray) (w : World) : EmptiesWithin s w (w.setCode a code) := by
  unfold World.setCode
  dsimp only
  split
  · exact setAccount (Nat.le_refl _) fun _ => ha
  · have hknown : EmptiesWithin s w { w with codes := w.codes.insertIfNew (keccak256 code) code } :=
      of_accounts rfl
    exact hknown.trans (setAccount (Nat.le_refl _) fun _ => ha)

theorem incrementNonce (h : World.incrementNonce a w = .ok () w') :
    EmptiesWithin s w w' ∧ (w'.accountOrEmpty a).nonce.toNat ≠ 0 := by
  have hraised := toNat_nonce_incrementNonce h
  obtain ⟨-, rfl⟩ := incrementNonce_ok h
  rw [accountOrEmpty_setAccount, if_pos rfl, Option.getD_some] at hraised
  have hnonce : (w.accountOrEmpty a).nonce + 1 ≠ 0 := by
    intro h0
    rw [h0] at hraised
    cases hraised
  refine ⟨setAccount (by rw [hraised]; omega) fun hempty => ?_, ?_⟩
  · simp [Account.isEmpty, hnonce] at hempty
  · rw [accountOrEmpty_setAccount, if_pos rfl, Option.getD_some, hraised]
    omega

theorem addBalance (ha : a ∈ s) (h : World.addBalance a amount w = .ok () w') : EmptiesWithin s w w' := by
  obtain ⟨sum, -, rfl⟩ := addBalance_eq_ok_iff.mp h
  exact setBalance ha sum w

theorem subBalance (ha : a ∈ s) (h : World.subBalance a amount w = .ok () w') : EmptiesWithin s w w' := by
  obtain ⟨rest, -, rfl⟩ := subBalance_eq_ok_iff.mp h
  exact setBalance ha rest w

theorem transfer (hsource : source ∈ s) (htarget : target ∈ s)
    (h : World.transfer source target amount w = .ok () w') : EmptiesWithin s w w' := by
  obtain ⟨⟨⟩, w₁, hsub, hadd⟩ := of_bind_ok h
  exact (subBalance hsource hsub).trans (addBalance htarget hadd)

/-- What is given to an account keeps it from being empty. -/
theorem addBalance_of_ne_zero (hamount : amount ≠ 0) (h : World.addBalance a amount w = .ok () w') :
    EmptiesWithin s w w' := by
  obtain ⟨sum, hsum, rfl⟩ := addBalance_eq_ok_iff.mp h
  have hne : sum ≠ 0 := by
    rintro rfl
    have hzero := Word.toNat_of_add? hsum
    have hpos : amount.toNat ≠ 0 := fun h0 => hamount (BitVec.eq_of_toNat_eq h0)
    simp only [BitVec.ofNat_eq_ofNat, BitVec.toNat_ofNat, Nat.zero_mod] at hzero
    omega
  refine setAccount (Nat.le_refl _) fun hempty => ?_
  simp only [Account.isEmpty, Bool.and_eq_true, decide_eq_true_eq] at hempty
  exact absurd hempty.1.2 hne

end EmptiesWithin

/-- Where none was empty and none can have become empty, none is. -/
theorem NoEmpty.of_emptiesWithin (h : w.NoEmpty) (he : EmptiesWithin ∅ w w') : w'.NoEmpty := by
  intro a
  rw [← Bool.not_eq_true]
  intro ha
  rcases he.empty a ha with hbefore | hmem
  · rw [h a] at hbefore
    cases hbefore
  · exact hmem

theorem commit_accounts (h : commit w = .ok () w') : w'.accounts = w.accounts := by
  have hrun := run_commit w
  rw [EStateM.run, h] at hrun
  split at hrun <;> cases hrun <;> rfl

end World

end StateTransition
