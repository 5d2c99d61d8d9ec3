import StateTransition.Proofs.World.Emptiness
import StateTransition.Proofs.World.Locality

/-! Changes that can fail. One that concerns a single record is made as a whole or not at all; moving wei is two of
them, and where the second cannot be made the first is not taken back. -/
namespace StateTransition

namespace World

variable {w w' w'' : World} {a source target : Address} {amount : Word} {s t : Set Address} {cause : WorldError}

/-- A change that does all that it is to do or leaves the accounts as they were. -/
def AllOrNothing (change : WorldM Unit) (w : World) (Done : World → Prop) : Prop :=
  match change w with
  | .ok _ w' => Done w'
  | .error _ w' => w'.accounts = w.accounts

/-- All but the balances is as it was, and so are the records outside of a set. -/
structure Rebalanced (s : Set Address) (w w' : World) : Prop extends SameBesideAccounts w w' where
  account : ∀ b ∉ s, w'.account? b = w.account? b
  nonce : ∀ b, (w'.accountOrEmpty b).nonce = (w.accountOrEmpty b).nonce
  codeHash : ∀ b, (w'.accountOrEmpty b).codeHash = (w.accountOrEmpty b).codeHash

/-- What an account gives or gets where `party`, if any, does. -/
def share (party : Option Address) (amount : Word) (b : Address) : Nat :=
  match party with
  | none => 0
  | some a => if a = b then amount.toNat else 0

/-- What all accounts together give or get. -/
def shareOfAll (party : Option Address) (amount : Word) : Nat :=
  match party with
  | none => 0
  | some _ => amount.toNat

/-- Wei were taken from one account, if any, and given to another, if any, and nothing else was done. -/
structure Moved (source target : Option Address) (amount : Word) (w w' : World) : Prop
    extends Rebalanced {b | source = some b ∨ target = some b} w w' where
  balance : ∀ b, (w'.balance b).toNat + share source amount b = (w.balance b).toNat + share target amount b
  total : w'.total + shareOfAll source amount = w.total + shareOfAll target amount

/-- The nonce of an account was raised, and nothing else was done. -/
structure Counted (a : Address) (w w' : World) : Prop extends SameBesideAccounts w w' where
  account : ∀ b ≠ a, w'.account? b = w.account? b
  nonce : (w'.accountOrEmpty a).nonce.toNat = (w.accountOrEmpty a).nonce.toNat + 1
  codeHash : (w'.accountOrEmpty a).codeHash = (w.accountOrEmpty a).codeHash
  balance : (w'.accountOrEmpty a).balance = (w.accountOrEmpty a).balance
  total : w'.total = w.total

/-- What the source has can be taken from it, but the target cannot hold it. -/
def Overflows (source target : Address) (amount : Word) (w : World) : Prop :=
  source ≠ target ∧ amount ≤ w.balance source ∧ wordLimit ≤ (w.balance target).toNat + amount.toNat

/-! ### Changes to one record -/

namespace Rebalanced

private theorem mono (h : Rebalanced s w w') (hst : s ⊆ t) : Rebalanced t w w' where
  toSameBesideAccounts := h.toSameBesideAccounts
  account b hb := h.account b fun hs => hb (hst hs)
  nonce := h.nonce
  codeHash := h.codeHash

private theorem trans (h : Rebalanced s w w') (h' : Rebalanced s w' w'') : Rebalanced s w w'' where
  toSameBesideAccounts := h.toSameBesideAccounts.trans h'.toSameBesideAccounts
  account b hb := (h'.account b hb).trans (h.account b hb)
  nonce b := (h'.nonce b).trans (h.nonce b)
  codeHash b := (h'.codeHash b).trans (h.codeHash b)

private theorem setBalance (a : Address) (value : Word) (w : World) : Rebalanced {a} w (w.setBalance a value) where
  toSameBesideAccounts := .setAccount a _ w
  account := (UnchangedBeside.setBalance a value w).account
  nonce b := by
    rw [World.setBalance, updateAccount, accountOrEmpty_setAccount]
    split
    · next hb => rw [← hb, Option.getD_some]
    · rfl
  codeHash b := by
    rw [World.setBalance, updateAccount, accountOrEmpty_setAccount]
    split
    · next hb => rw [← hb, Option.getD_some]
    · rfl

end Rebalanced

namespace Moved

private theorem subBalance (h : World.subBalance a amount w = .ok () w') : Moved (some a) none amount w w' := by
  have htotal := total_subBalance h
  obtain ⟨rest, hrest, rfl⟩ := subBalance_eq_ok_iff.mp h
  refine ⟨(Rebalanced.setBalance a rest w).mono (by simp), fun b => ?_, htotal⟩
  rw [balance_setBalance, share, share]
  split
  · next hb => rw [← hb, Word.toNat_of_sub? hrest, Nat.add_zero]
  · rfl

private theorem addBalance (h : World.addBalance a amount w = .ok () w') : Moved none (some a) amount w w' := by
  have htotal := total_addBalance h
  obtain ⟨sum, hsum, rfl⟩ := addBalance_eq_ok_iff.mp h
  refine ⟨(Rebalanced.setBalance a sum w).mono (by simp), fun b => ?_, htotal⟩
  rw [balance_setBalance, share, share]
  split
  · next hb => rw [← hb, Word.toNat_of_add? hsum, Nat.add_zero]
  · rfl

/-- What is taken first is given afterwards. -/
private theorem join {source target : Option Address} (h : Moved source none amount w w')
    (h' : Moved none target amount w' w'') : Moved source target amount w w'' where
  toRebalanced := (h.toRebalanced.mono (by simp +contextual)).trans (h'.toRebalanced.mono (by simp +contextual))
  balance b := by
    have htaken : _ = _ + 0 := h.balance b
    have hgiven : _ + 0 = _ := h'.balance b
    omega
  total := by
    have htaken : _ = _ + 0 := h.total
    have hgiven : _ + 0 = _ := h'.total
    omega

/-- Wei that are only taken are missing. -/
private theorem accounts_ne (h : Moved (some a) none amount w w') (hamount : amount.toNat ≠ 0) :
    w'.accounts ≠ w.accounts := by
  intro he
  have hbalance := h.balance a
  rw [balance_congr he, share, share, if_pos rfl] at hbalance
  omega

end Moved

private theorem Counted.incrementNonce (h : World.incrementNonce a w = .ok () w') : Counted a w w' := by
  have htotal := total_incrementNonce h
  have hnonce := toNat_nonce_incrementNonce h
  obtain ⟨-, rfl⟩ := incrementNonce_ok h
  refine ⟨.setAccount a _ w, fun b hb => (UnchangedBeside.setAccount a _ w).account b hb, hnonce, ?_, ?_, htotal⟩
  · rw [accountOrEmpty_setAccount, if_pos rfl, Option.getD_some]
  · rw [accountOrEmpty_setAccount, if_pos rfl, Option.getD_some]

namespace AllOrNothing

variable {change : WorldM Unit} {Done : World → Prop}

private theorem of_cases (hok : ∀ w', change w = .ok () w' → Done w')
    (herror : ∀ cause w', change w = .error cause w' → w'.accounts = w.accounts) : AllOrNothing change w Done := by
  unfold AllOrNothing
  split
  · next hrun => exact hok _ hrun
  · next hrun => exact herror _ _ hrun

private theorem addBalance (a : Address) (amount : Word) (w : World) :
    AllOrNothing (addBalance a amount) w (Moved none (some a) amount w) :=
  of_cases (fun _ => Moved.addBalance) fun _ _ h => congrArg accounts (addBalance_error h).2.2

private theorem subBalance (a : Address) (amount : Word) (w : World) :
    AllOrNothing (subBalance a amount) w (Moved (some a) none amount w) :=
  of_cases (fun _ => Moved.subBalance) fun _ _ h => congrArg accounts (subBalance_error h).2.2

private theorem incrementNonce (a : Address) (w : World) : AllOrNothing (incrementNonce a) w (Counted a w) :=
  of_cases (fun _ => Counted.incrementNonce) fun _ _ h => congrArg accounts (incrementNonce_error h)

end AllOrNothing

/-! ### Moving wei -/

/-- A transfer is made, or stopped before or after the wei are taken. -/
private theorem transfer_cases (source target : Address) (amount : Word) (w : World) :
    (∃ w', transfer source target amount w = .ok () w' ∧ amount ≤ w.balance source ∧
      ¬Overflows source target amount w ∧ Moved (some source) (some target) amount w w') ∨
    (w.balance source < amount ∧
      transfer source target amount w = .error (.insufficientBalance source amount (w.balance source)) w) ∨
    ∃ w', transfer source target amount w = .error (.balanceOverflow target) w' ∧
      Overflows source target amount w ∧ Moved (some source) none amount w w' := by
  have hrun : transfer source target amount w = (subBalance source amount >>= fun _ => addBalance target amount) w := rfl
  simp only [bind, EStateM.bind] at hrun
  cases hsub : subBalance source amount w with
  | error cause w₁ =>
    obtain ⟨hlt, rfl, rfl⟩ := subBalance_error hsub
    rw [hsub] at hrun
    exact .inr (.inl ⟨hlt, hrun⟩)
  | ok u w₁ =>
    have htaken := Moved.subBalance hsub
    have hle : amount ≤ w.balance source := by
      obtain ⟨rest, hrest, -⟩ := subBalance_eq_ok_iff.mp hsub
      exact (Option.ite_none_right_eq_some.mp hrest).1
    -- What the target has at the second change is less than what it had, if it is the source.
    have htarget : (w₁.balance target).toNat + share (some source) amount target = (w.balance target).toNat :=
      htaken.balance target
    rw [hsub] at hrun
    cases hadd : addBalance target amount w₁ with
    | ok u w' =>
      refine .inl ⟨w', hrun.trans hadd, hle, fun ⟨hne, _, hlimit⟩ => ?_, htaken.join (.addBalance hadd)⟩
      obtain ⟨sum, hsum, -⟩ := addBalance_eq_ok_iff.mp hadd
      have hfits := (Option.ite_none_right_eq_some.mp hsum).1
      rw [share, if_neg hne] at htarget
      omega
    | error cause w' =>
      obtain ⟨hlimit, rfl, rfl⟩ := addBalance_error hadd
      refine .inr (.inr ⟨w', hrun.trans hadd, ⟨fun hsame => ?_, hle, ?_⟩, htaken⟩)
      · have hlt : (w.balance target).toNat < wordLimit := (w.balance target).isLt
        rw [share, if_pos hsame] at htarget
        omega
      · omega

private theorem Overflows.toNat_ne_zero (h : Overflows source target amount w) : amount.toNat ≠ 0 := by
  have hlt : (w.balance target).toNat < wordLimit := (w.balance target).isLt
  have hlimit := h.2.2
  omega

namespace AllOrNothing

private theorem transfer_iff (source target : Address) (amount : Word) (w : World) :
    AllOrNothing (transfer source target amount) w (Moved (some source) (some target) amount w) ↔
      ¬Overflows source target amount w := by
  unfold AllOrNothing
  rcases transfer_cases source target amount w with
    ⟨w', hrun, -, hroom, hmoved⟩ | ⟨hlt, hrun⟩ | ⟨w', hrun, hover, htaken⟩
  · rw [hrun]
    exact iff_of_true hmoved hroom
  · rw [hrun]
    exact iff_of_true rfl fun hover => BitVec.not_le.mpr hlt hover.2.1
  · rw [hrun]
    exact iff_of_false (htaken.accounts_ne hover.toNat_ne_zero) (not_not_intro hover)

end AllOrNothing

/-- Raising or lowering a balance and raising a nonce are all or nothing in any world. So is moving wei, but where the
source has them and the target cannot hold them: then they are taken from the source, and nobody gets them. -/
theorem transfer_keeps_debit (a source target : Address) (amount : Word) (w : World) :
    AllOrNothing (addBalance a amount) w (Moved none (some a) amount w) ∧
    AllOrNothing (subBalance a amount) w (Moved (some a) none amount w) ∧
    AllOrNothing (incrementNonce a) w (Counted a w) ∧
    ((∃ w', transfer source target amount w = .ok () w' ∧ amount ≤ w.balance source ∧
        ¬Overflows source target amount w ∧ Moved (some source) (some target) amount w w') ∨
      (w.balance source < amount ∧
        transfer source target amount w = .error (.insufficientBalance source amount (w.balance source)) w) ∨
      ∃ w', transfer source target amount w = .error (.balanceOverflow target) w' ∧
        Overflows source target amount w ∧ Moved (some source) none amount w w') ∧
    (AllOrNothing (transfer source target amount) w (Moved (some source) (some target) amount w) ↔
      ¬Overflows source target amount w) :=
  ⟨.addBalance a amount w, .subBalance a amount w, .incrementNonce a w, transfer_cases source target amount w,
    AllOrNothing.transfer_iff source target amount w⟩

/-- The second account has as much as it can hold, so the one wei of the first is lost. -/
theorem transfer_loses_wei :
    let w := (empty.putAccount 1 (some ⟨0, 1, emptyCodeHash⟩)).putAccount 2 (some ⟨0, maxWord, emptyCodeHash⟩)
    ¬AllOrNothing (transfer 1 2 1) w (Moved (some 1) (some 2) 1 w) := by
  intro w
  rw [AllOrNothing.transfer_iff, not_not]
  exact ⟨by decide, by decide +kernel, by decide +kernel⟩

end World

end StateTransition
