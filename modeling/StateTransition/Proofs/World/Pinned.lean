import StateTransition.Proofs.World.Evolution
import StateTransition.Proofs.World.Records

/-! Accounts that have sent a transaction: they have no code, and a nonce that no revert takes back, as
it stands in every record of theirs that the journal holds. -/
namespace StateTransition

def Account.Plain (n : Nat) (record : Option Account) : Prop :=
  ∃ r, record = some r ∧ r.nonce.toNat = n ∧ r.hasCode = false

namespace World

/-- An account's record has a nonce and no code, and would have them after every revert. -/
structure Pinned (a : Address) (n : Nat) (w : World) : Prop where
  account : Account.Plain n (w.account? a)
  journal : ∀ record, Undo.account a record ∈ w.journal → Account.Plain n record

variable {a b : Address} {n : Nat} {w w' : World}

/-- An account is pinned where each of its records is plain. -/
private theorem pinned_iff : w.Pinned a n ↔ w.Records fun b record => b = a → Account.Plain n record where
  mp h := ⟨fun _ hb => hb ▸ h.account, fun _ record hr hb => h.journal record (hb ▸ hr)⟩
  mpr h := ⟨h.account a rfl, fun record hr => h.journal a record hr rfl⟩

namespace Pinned

private theorem exists_nonce_ne_zero (h : w.Pinned a n) (hn : n ≠ 0) : ∃ r, w.account? a = some r ∧ r.nonce ≠ 0 := by
  obtain ⟨r, hr, hnonce, -⟩ := h.account
  refine ⟨r, hr, fun h0 => hn ?_⟩
  rw [← hnonce, h0]
  rfl

/-- A pinned account is not empty, whatever it has. -/
theorem ne_of_isEmptyAccount (h : w.Pinned a n) (hn : n ≠ 0) (hempty : w.isEmptyAccount b) : b ≠ a := by
  rintro rfl
  obtain ⟨r, hr, hnonce⟩ := h.exists_nonce_ne_zero hn
  simp [isEmptyAccount, hr, Account.isEmpty, hnonce] at hempty

/-- The place of a pinned account is not free for a contract. -/
theorem ne_of_free (h : w.Pinned a n) (hn : n ≠ 0) (hfree : w.hasCodeOrNonce b = false) : b ≠ a := by
  rintro rfl
  obtain ⟨r, hr, hnonce⟩ := h.exists_nonce_ne_zero hn
  simp [hasCodeOrNonce, hr, hnonce] at hfree

theorem code_eq_empty (h : w.Pinned a n) : w.code a = ByteArray.empty := by
  obtain ⟨r, hr, -, hcode⟩ := h.account
  exact World.code_eq_empty hr (by simpa [Account.hasCode] using hcode)

theorem nonce_eq (h : w.Pinned a n) : (w.accountOrEmpty a).nonce.toNat = n := by
  obtain ⟨r, hr, hnonce, -⟩ := h.account
  rw [accountOrEmpty, hr]
  exact hnonce

/-! ### Single changes -/

private theorem setAccount (h : w.Pinned a n) {record : Option Account}
    (hr : b = a → Account.Plain n record) : (w.setAccount b record).Pinned a n :=
  pinned_iff.mpr ((pinned_iff.mp h).setAccount hr)

/-- Where no checkpoint is open nothing is noted of the record that was there. -/
theorem of_setAccount {record : Option Account} (hr : Account.Plain n record) (hc : w.checkpoints = [])
    (hj : w.journal = []) : (w.setAccount a record).Pinned a n where
  account := by
    rw [account?_setAccount, if_pos rfl]
    exact hr
  journal previous hp := by simp [World.setAccount, World.record, hc, hj] at hp

/-- Balances do not matter. -/
theorem setBalance (h : w.Pinned a n) (b : Address) (balance : Word) :
    (w.setBalance b balance).Pinned a n :=
  h.setAccount fun hb => by
    subst hb
    obtain ⟨r, hr, hnonce, hcode⟩ := h.account
    rw [accountOrEmpty, hr]
    exact ⟨_, rfl, hnonce, hcode⟩

theorem touch (h : w.Pinned a n) (b : Address) : (w.touch b).Pinned a n := by
  unfold World.touch
  split
  · exact h
  · next hnone =>
    refine h.setAccount fun hb => ?_
    obtain ⟨r, hr, -⟩ := h.account
    simp [hasAccount, hb, hr] at hnone

theorem setCode (h : w.Pinned a n) (hb : b ≠ a) (code : ByteArray) : (w.setCode b code).Pinned a n := by
  have hinstalled : Pinned a n { w with codes := w.codes.insertIfNew (keccak256 code) code } :=
    ⟨h.account, h.journal⟩
  unfold World.setCode updateAccount
  split
  · exact h.setAccount fun he => absurd he hb
  · exact hinstalled.setAccount fun he => absurd he hb

theorem setSlot (h : w.Pinned a n) (b : Address) (k : Hash) (value : Word) :
    (w.setSlot b k value).Pinned a n :=
  pinned_iff.mpr ((pinned_iff.mp h).setSlot b k value)

theorem destroyStorage (h : w.Pinned a n) (b : Address) : (w.destroyStorage b).Pinned a n :=
  pinned_iff.mpr ((pinned_iff.mp h).destroyStorage b)

theorem markCreated (h : w.Pinned a n) (b : Address) : (w.markCreated b).Pinned a n := ⟨h.account, h.journal⟩

theorem beginTransaction (h : w.Pinned a n) : w.beginTransaction.Pinned a n :=
  ⟨h.account, fun _ hr => nomatch hr⟩

theorem checkpoint (h : w.Pinned a n) : w.checkpoint.Pinned a n := ⟨h.account, h.journal⟩

theorem destroyAccount (h : w.Pinned a n) (hb : b ≠ a) : (w.destroyAccount b).Pinned a n :=
  (h.destroyStorage b).setAccount fun he => absurd he hb

end Pinned

/-! ### Computations -/

/-- An account is pinned where a computation ended, also if it failed, and the result is of a kind. -/
def EndsPinned {α : Type} (a : Address) (n : Nat) (P : α → Prop) :
    EStateM.Result WorldError World α → Prop
  | .ok b w => w.Pinned a n ∧ P b
  | .error _ w => w.Pinned a n

def Pins {α : Type} (a : Address) (n : Nat) (P : α → Prop) (x : WorldM α) : Prop :=
  ∀ w : World, w.Pinned a n → EndsPinned a n P (x.run w)

variable {α β : Type} {P : α → Prop} {Q : β → Prop}

theorem EndsPinned.bind {x : WorldM α} {f : α → WorldM β} (hx : EndsPinned a n P (x.run w))
    (hf : ∀ b, P b → Pins a n Q (f b)) : EndsPinned a n Q ((x >>= f).run w) := by
  rw [EStateM.run_bind]
  match hr : x.run w with
  | .ok b w' =>
    rw [hr] at hx
    exact hf b hx.2 w' hx.1
  | .error cause w' =>
    rw [hr] at hx
    exact hx

namespace Pins

theorem ok {x : WorldM α} (h : Pins a n P x) (hw : w.Pinned a n) {b : α} (hx : x w = .ok b w') :
    w'.Pinned a n ∧ P b := by
  have hr := h w hw
  rwa [EStateM.run, hx] at hr

theorem error {x : WorldM α} (h : Pins a n P x) (hw : w.Pinned a n) {cause : WorldError}
    (hx : x w = .error cause w') : w'.Pinned a n := by
  have hr := h w hw
  rwa [EStateM.run, hx] at hr

theorem after {x : WorldM Unit} (h : Pins a n (fun _ => True) x) (hw : w.Pinned a n) :
    (World.after x w).Pinned a n := by
  have hends := h w hw
  unfold World.after
  split
  · next hr =>
    rw [hr] at hends
    exact hends.1
  · next hr =>
    rw [hr] at hends
    exact hends

theorem pure {b : β} (h : Q b) : Pins a n Q (pure b) := fun _ hw => ⟨hw, h⟩

theorem get : Pins a n (fun w => w.Pinned a n) get := fun _ hw => ⟨hw, hw⟩

theorem modify {f : World → World} (h : ∀ w : World, w.Pinned a n → (f w).Pinned a n) :
    Pins a n (fun _ => True) (modify f) := fun w hw => ⟨h w hw, trivial⟩

theorem bind {x : WorldM α} {f : α → WorldM β} (hx : Pins a n P x) (hf : ∀ b, P b → Pins a n Q (f b)) :
    Pins a n Q (x >>= f) := fun w hw => (hx w hw).bind hf

theorem next {x : WorldM α} {f : α → WorldM β} (hx : Pins a n (fun _ => True) x)
    (hf : ∀ b, Pins a n Q (f b)) : Pins a n Q (x >>= f) := hx.bind fun b _ => hf b

theorem ite {c : Prop} [Decidable c] {x y : WorldM α} (hx : c → Pins a n P x) (hy : ¬ c → Pins a n P y) :
    Pins a n P (if c then x else y) := by
  split
  · next h => exact hx h
  · next h => exact hy h

theorem incrementNonce (hb : b ≠ a) : Pins a n (fun _ => True) (incrementNonce b) := fun w hw => by
  rw [run_incrementNonce]
  by_cases hlt : (w.accountOrEmpty b).nonce.toNat + 1 < countLimit
  · rw [if_pos hlt]
    exact ⟨hw.setAccount fun he => absurd he hb, trivial⟩
  · rw [if_neg hlt]
    exact hw

theorem addBalance (b : Address) (amount : Word) : Pins a n (fun _ => True) (addBalance b amount) :=
  fun w hw => by
  rw [run_addBalance]
  cases (w.balance b).add? amount with
  | some sum => exact ⟨hw.setBalance b sum, trivial⟩
  | none => exact hw

theorem subBalance (b : Address) (amount : Word) : Pins a n (fun _ => True) (subBalance b amount) :=
  fun w hw => by
  rw [run_subBalance]
  cases (w.balance b).sub? amount with
  | some rest => exact ⟨hw.setBalance b rest, trivial⟩
  | none => exact hw

theorem transfer (source target : Address) (amount : Word) :
    Pins a n (fun _ => True) (transfer source target amount) :=
  .next (.subBalance source amount) fun _ => .addBalance target amount

private theorem of_after {x : WorldM Unit} (h : ∀ w : World, w.Pinned a n → (World.after x w).Pinned a n) :
    Pins a n (fun _ => True) x := fun w hw => by
  have hafter := h w hw
  unfold World.after at hafter
  cases hr : x.run w with
  | ok b w' =>
    rw [hr] at hafter
    exact ⟨hafter, trivial⟩
  | error cause w' =>
    rw [hr] at hafter
    exact hafter

theorem commit : Pins a n (fun _ => True) commit :=
  of_after fun _ hw => pinned_iff.mpr (pinned_iff.mp hw).commit

theorem revert : Pins a n (fun _ => True) revert :=
  of_after fun _ hw => pinned_iff.mpr (pinned_iff.mp hw).revert

end Pins

end World

end StateTransition
