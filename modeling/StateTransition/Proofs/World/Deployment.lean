import StateTransition.Fork.Rules
import StateTransition.Proofs.Keccak
import StateTransition.Proofs.World.Emptiness
import StateTransition.Proofs.World.Unwritten

/-! How code gets into the world. Codes are kept under their digests, and are never forgotten; while code
runs no nonce falls, and an account gets code only if it had none and the code is allowed. -/
namespace StateTransition

/-- Code that a contract may get. -/
structure Rules.AllowsCode (rules : Rules) (code : ByteArray) : Prop where
  size : ∀ limit ∈ rules.maxCodeSize, code.size ≤ limit
  opening : rules.rejectEfCode = true → 0 < code.size → byteAt code 0 ≠ 0xef

theorem Account.hasCode_congr {r r' : Account} (h : r'.codeHash = r.codeHash) : r'.hasCode = r.hasCode := by
  rw [hasCode, hasCode, h]

namespace World

variable {rules : Rules} {w w₁ w' w'' : World} {a source target : Address} {amount : Word} {code : ByteArray}

/-! ### Known codes -/

theorem codes_setAccount (a : Address) (r : Option Account) (w : World) : (w.setAccount a r).codes = w.codes :=
  (SameBesideAccounts.setAccount a r w).codes

private theorem codes_touch (a : Address) (w : World) : (w.touch a).codes = w.codes :=
  (Unwritten.touch a w).codes

theorem codes_destroyStorage (a : Address) (w : World) : (w.destroyStorage a).codes = w.codes := by
  unfold destroyStorage
  split
  · rfl
  · next slots _ =>
    obtain ⟨initial, he⟩ := Change.foldl_rememberSlot a slots.toList w
    simp only [he, record_codes]

theorem codes_destroyAccount (a : Address) (w : World) : (w.destroyAccount a).codes = w.codes := by
  rw [destroyAccount, codes_setAccount, codes_destroyStorage]

private theorem codes_revert (h : revert w = .ok () w') : w'.codes = w.codes := by
  have hrun := run_revert w
  rw [EStateM.run, h] at hrun
  split at hrun
  · cases hrun
  · cases hrun
    exact unwind_codes _ _

theorem codes_setCode (a : Address) (code : ByteArray) (w : World) :
    (w.setCode a code).codes =
      if code.isEmpty then w.codes else w.codes.insertIfNew (keccak256 code) code := by
  rw [setCode, updateAccount, codes_setAccount]
  split <;> rfl

/-- The codes that are known are those from before and the new one, which is under its digest. -/
theorem eq_of_mem_codes_setCode {known : ByteArray} {d : Hash} (h : (w.setCode a code).codes[d]? = some known) :
    w.codes[d]? = some known ∨ known = code ∧ keccak256 code = d := by
  rw [codes_setCode] at h
  split at h
  · exact .inl h
  · rw [Std.ExtTreeMap.getElem?_insertIfNew] at h
    split at h
    · next hnew =>
      cases h
      exact .inr ⟨rfl, Std.compare_eq_iff_eq.mp hnew.1⟩
    · exact .inl h

private theorem accountOrEmpty_setCode (a : Address) (code : ByteArray) (w : World) (b : Address) :
    (w.setCode a code).accountOrEmpty b =
      if a = b then { w.accountOrEmpty a with codeHash := keccak256 code } else w.accountOrEmpty b := by
  rw [setCode, updateAccount, accountOrEmpty_setAccount]
  cases code.isEmpty <;> rfl

/-- Every code that is known is kept under its digest. -/
def CodesSound (w : World) : Prop :=
  ∀ (h : Hash) (code : ByteArray), w.codes[h]? = some code → keccak256 code = h

namespace CodesSound

private theorem congr (h : w.CodesSound) (hc : w'.codes = w.codes) : w'.CodesSound := by
  rw [CodesSound, hc]
  exact h

private theorem setCode (h : w.CodesSound) (a : Address) (code : ByteArray) : (w.setCode a code).CodesSound := by
  intro d known hd
  rcases eq_of_mem_codes_setCode hd with hbefore | ⟨rfl, hdigest⟩
  · exact h d known hbefore
  · exact hdigest

end CodesSound

private theorem codes_after_incrementNonce (a : Address) (w : World) :
    (after (incrementNonce a) w).codes = w.codes := by
  rw [after, run_incrementNonce]
  by_cases h : (w.accountOrEmpty a).nonce.toNat + 1 < countLimit
  · rw [if_pos h]
    exact codes_setAccount a _ w
  · rw [if_neg h]

private theorem codes_after_addBalance (a : Address) (amount : Word) (w : World) :
    (after (addBalance a amount) w).codes = w.codes := by
  rw [after, run_addBalance]
  cases (w.balance a).add? amount with
  | some sum => exact codes_setAccount a _ w
  | none => rfl

private theorem codes_after_subBalance (a : Address) (amount : Word) (w : World) :
    (after (subBalance a amount) w).codes = w.codes := by
  rw [after, run_subBalance]
  cases (w.balance a).sub? amount with
  | some rest => exact codes_setAccount a _ w
  | none => rfl

private theorem codes_after_transfer (source target : Address) (amount : Word) (w : World) :
    (after (transfer source target amount) w).codes = w.codes := by
  have hsub := codes_after_subBalance source amount w
  rcases after_transfer source target amount w with he | he
  · rwa [he]
  · rw [he, codes_after_addBalance, hsub]

theorem codes_after_commit (w : World) : (after commit w).codes = w.codes := by
  rw [after, run_commit]
  rcases w.checkpoints with _ | ⟨mark, _ | ⟨mark', rest⟩⟩ <;> rfl

theorem codes_after_revert (w : World) : (after revert w).codes = w.codes := by
  rw [after, run_revert]
  cases w.checkpoints with
  | nil => rfl
  | cons mark rest => exact unwind_codes _ _

private theorem CodesSound.run (h : w.CodesSound) (op : Operation) : (op.run w).CodesSound := by
  cases op with
  | setAccount a record => exact h.congr (codes_setAccount a record w)
  | touch a => exact h.congr (codes_touch a w)
  | destroyAccount a => exact h.congr (codes_destroyAccount a w)
  | destroyStorage a => exact h.congr (codes_destroyStorage a w)
  | incrementNonce a => exact h.congr (codes_after_incrementNonce a w)
  | setNonce a nonce => exact h.congr (codes_setAccount a _ w)
  | setBalance a balance => exact h.congr (codes_setAccount a _ w)
  | addBalance a amount => exact h.congr (codes_after_addBalance a amount w)
  | subBalance a amount => exact h.congr (codes_after_subBalance a amount w)
  | transfer source target amount => exact h.congr (codes_after_transfer source target amount w)
  | setCode a code => exact h.setCode a code
  | setSlot a k value => exact h.congr (record_codes _ _)
  | commit => exact h.congr (codes_after_commit w)
  | revert => exact h.congr (codes_after_revert w)
  | markCreated | checkpoint | beginTransaction => exact h

theorem Reachable.codesSound (h : Reachable w) : w.CodesSound := by
  induction h with
  | empty => exact fun d code hd => by simp [World.empty] at hd
  | run _ op ih => exact ih.run op

/-! ### The code of an account -/

theorem code_congr (ha : w'.account? a = w.account? a) (hc : w'.codes = w.codes) : w'.code a = w.code a := by
  rw [World.code, World.code, ha]
  cases w.account? a with
  | none => rfl
  | some r =>
    dsimp only
    rw [codeOfHash, codeOfHash, hc]

/-- Code is looked up by the digest in the account's record. -/
private theorem code_of_hasCode (h : (w.accountOrEmpty a).hasCode = true) :
    w.code a = w.codes[(w.accountOrEmpty a).codeHash]?.getD ByteArray.empty := by
  unfold accountOrEmpty at h ⊢
  rw [World.code]
  cases hr : w.account? a with
  | none =>
    rw [hr] at h
    cases h
  | some r =>
    rw [hr] at h
    have hne : r.codeHash ≠ emptyCodeHash := by simpa [Account.hasCode] using h
    exact if_neg hne

private theorem CodeKnown.exists_code (hknown : w.CodeKnown a) (h : (w.accountOrEmpty a).hasCode = true) :
    ∃ code, w.codes[(w.accountOrEmpty a).codeHash]? = some code := by
  unfold accountOrEmpty at h ⊢
  cases hr : w.account? a with
  | none =>
    rw [hr] at h
    cases h
  | some r =>
    rw [hr] at h
    have hne : r.codeHash ≠ emptyCodeHash := by simpa [Account.hasCode] using h
    exact ⟨_, Std.ExtTreeMap.getElem?_eq_some_getElem ((hknown r hr).resolve_left hne)⟩

/-! ### What running code does to accounts and codes -/

/-- An account has code that was installed under the rules. -/
structure Deployed (rules : Rules) (w : World) (a : Address) (code : ByteArray) : Prop where
  allowed : rules.AllowsCode code
  codeHash : (w.accountOrEmpty a).codeHash = keccak256 code
  known : code.isEmpty = false → keccak256 code ∈ w.codes
  nonce : rules.stateClearing = true → (w.accountOrEmpty a).nonce.toNat ≠ 0

private theorem Deployed.mono (h : w.Deployed rules a code)
    (hcodes : ∀ (d : Hash) (known : ByteArray), w.codes[d]? = some known → w'.codes[d]? = some known)
    (hnonce : (w.accountOrEmpty a).nonce.toNat ≤ (w'.accountOrEmpty a).nonce.toNat)
    (hhash : (w'.accountOrEmpty a).codeHash = (w.accountOrEmpty a).codeHash) : w'.Deployed rules a code where
  allowed := h.allowed
  codeHash := hhash.trans h.codeHash
  known hne := by
    have hd := Std.ExtTreeMap.getElem?_eq_some_getElem (h.known hne)
    rw [Std.ExtTreeMap.mem_iff_isSome_getElem?, hcodes _ _ hd]
    rfl
  nonce hclearing := by
    have hpos := h.nonce hclearing
    omega

/-- What is looked up for an account is kept under the digest of the code that was installed. -/
private theorem Deployed.codes_getElem? (h : w.Deployed rules a code) (hcode : (w.accountOrEmpty a).hasCode = true) :
    w.codes[keccak256 code]? = some (w.code a) := by
  have hne : code.isEmpty = false := by
    rw [← Bool.not_eq_true]
    intro hempty
    rw [Account.hasCode, h.codeHash, Keccak.keccak256_of_isEmpty hempty] at hcode
    simp at hcode
  have hd := Std.ExtTreeMap.getElem?_eq_some_getElem (h.known hne)
  rw [code_of_hasCode hcode, h.codeHash, hd, Option.getD_some]

/-- No nonce has fallen, no code is forgotten and what is new among the codes is allowed, and all accounts
have the code that they had but those without any that were made contracts. -/
structure Deploys (rules : Rules) (w w' : World) : Prop where
  codes : ∀ (h : Hash) (code : ByteArray), w.codes[h]? = some code → w'.codes[h]? = some code
  fresh : ∀ (h : Hash) (code : ByteArray), w'.codes[h]? = some code →
    w.codes[h]? = some code ∨ rules.AllowsCode code ∧ keccak256 code = h
  nonce : ∀ a, (w.accountOrEmpty a).nonce.toNat ≤ (w'.accountOrEmpty a).nonce.toNat
  codeHash : ∀ a, (w'.accountOrEmpty a).codeHash = (w.accountOrEmpty a).codeHash ∨
    (w.accountOrEmpty a).hasCode = false ∧ ∃ code, w'.Deployed rules a code

namespace Deploys

theorem of_accounts (ha : w'.accounts = w.accounts) (hc : w'.codes = w.codes) : Deploys rules w w' where
  codes d code hd := hc ▸ hd
  fresh d code hd := .inl (hc ▸ hd)
  nonce a := Nat.le_of_eq (by rw [accountOrEmpty_congr ha])
  codeHash a := .inl (by rw [accountOrEmpty_congr ha])

theorem refl (w : World) : Deploys rules w w := of_accounts rfl rfl

theorem trans (h : Deploys rules w w') (h' : Deploys rules w' w'') : Deploys rules w w'' where
  codes d code hd := h'.codes d code (h.codes d code hd)
  fresh d code hd := (h'.fresh d code hd).elim (h.fresh d code) .inr
  nonce a := Nat.le_trans (h.nonce a) (h'.nonce a)
  codeHash a := by
    rcases h.codeHash a with hsame | ⟨hplain, code, hcode⟩ <;>
      rcases h'.codeHash a with hsame' | ⟨hplain', hdeployed⟩
    · exact .inl (hsame'.trans hsame)
    · exact .inr ⟨Account.hasCode_congr hsame ▸ hplain', hdeployed⟩
    · exact .inr ⟨hplain, code, hcode.mono h'.codes (h'.nonce a) hsame'⟩
    · exact .inr ⟨hplain, hdeployed⟩

private theorem setAccount {r : Account} (hnonce : (w.accountOrEmpty a).nonce.toNat ≤ r.nonce.toNat)
    (hcode : r.codeHash = (w.accountOrEmpty a).codeHash) : Deploys rules w (w.setAccount a (some r)) where
  codes d code hd := codes_setAccount a _ w ▸ hd
  fresh d code hd := .inl (codes_setAccount a _ w ▸ hd)
  nonce b := by
    rw [accountOrEmpty_setAccount]
    split
    · next hb => exact hb ▸ hnonce
    · exact Nat.le_refl _
  codeHash b := by
    rw [accountOrEmpty_setAccount]
    split
    · next hb => exact .inl (hb ▸ hcode)
    · exact .inl rfl

theorem touch (a : Address) (w : World) : Deploys rules w (w.touch a) := by
  unfold World.touch
  split
  · exact refl w
  · next hnone =>
    have hempty : w.accountOrEmpty a = .empty := by
      rw [accountOrEmpty, Option.not_isSome_iff_eq_none.mp hnone]
      rfl
    exact setAccount (by rw [hempty]) (by rw [hempty])

theorem setBalance (a : Address) (amount : Word) (w : World) : Deploys rules w (w.setBalance a amount) :=
  setAccount (Nat.le_refl _) rfl

theorem incrementNonce (h : World.incrementNonce a w = .ok () w') : Deploys rules w w' := by
  have hraised := toNat_nonce_incrementNonce h
  obtain ⟨-, rfl⟩ := incrementNonce_ok h
  rw [accountOrEmpty_setAccount, if_pos rfl, Option.getD_some] at hraised
  exact setAccount (by omega) rfl

theorem addBalance (h : World.addBalance a amount w = .ok () w') : Deploys rules w w' := by
  obtain ⟨sum, -, rfl⟩ := addBalance_eq_ok_iff.mp h
  exact setBalance a sum w

theorem subBalance (h : World.subBalance a amount w = .ok () w') : Deploys rules w w' := by
  obtain ⟨rest, -, rfl⟩ := subBalance_eq_ok_iff.mp h
  exact setBalance a rest w

theorem transfer (h : World.transfer source target amount w = .ok () w') : Deploys rules w w' := by
  obtain ⟨⟨⟩, w₁, hsub, hadd⟩ := of_bind_ok h
  exact (subBalance hsub).trans (addBalance hadd)

theorem setSlot (a : Address) (k : Hash) (value : Word) (w : World) : Deploys rules w (w.setSlot a k value) :=
  of_accounts (record_accounts _ _) (record_codes _ _)

theorem commit (h : World.commit w = .ok () w') : Deploys rules w w' :=
  of_accounts (commit_accounts h) (Unwritten.commit h).codes

/-- What is undone leaves no trace but codes that are known. -/
theorem reverted (h : Deploys rules w w₁) (hr : World.revert w₁ = .ok () w') (hagrees : Agrees w' w) :
    Deploys rules w w' where
  codes d code hd := codes_revert hr ▸ h.codes d code hd
  fresh d code hd := h.fresh d code (codes_revert hr ▸ hd)
  nonce a := Nat.le_of_eq (by rw [accountOrEmpty_congr hagrees.accounts])
  codeHash a := .inl (by rw [accountOrEmpty_congr hagrees.accounts])

/-- An account may get code that had none at first, whatever it has got since. -/
theorem setCode (h : Deploys rules w w₁) (hplain : (w.accountOrEmpty a).hasCode = false)
    (hallowed : rules.AllowsCode code)
    (hnonce : rules.stateClearing = true → (w₁.accountOrEmpty a).nonce.toNat ≠ 0) :
    Deploys rules w (w₁.setCode a code) := by
  have hcodes := (Change.setCode a code w₁).codes
  refine ⟨fun d known hd => hcodes d known (h.codes d known hd), fun d known hd => ?_, fun b => ?_, fun b => ?_⟩
  · rcases eq_of_mem_codes_setCode hd with hbefore | ⟨rfl, hdigest⟩
    · exact h.fresh d known hbefore
    · exact .inr ⟨hallowed, hdigest⟩
  · rw [accountOrEmpty_setCode]
    split
    · next hb => exact hb ▸ h.nonce a
    · exact h.nonce b
  · by_cases hb : a = b
    · subst hb
      have hrecord := accountOrEmpty_setCode a code w₁ a
      rw [if_pos rfl] at hrecord
      refine .inr ⟨hplain, code, hallowed, by rw [hrecord], fun hne => ?_, fun hclearing => ?_⟩
      · rw [codes_setCode, hne]
        exact Std.ExtTreeMap.mem_insertIfNew_self
      · rw [hrecord]
        exact hnonce hclearing
    · have hrecord : (w₁.setCode a code).accountOrEmpty b = w₁.accountOrEmpty b := by
        rw [accountOrEmpty_setCode, if_neg hb]
      rcases h.codeHash b with hsame | ⟨hplain', known, hdeployed⟩
      · exact .inl (by rw [hrecord, hsame])
      · exact .inr ⟨hplain', known, hdeployed.mono hcodes (by rw [hrecord]) (by rw [hrecord])⟩

theorem code_kept (h : Deploys rules w w') (hcode : (w.accountOrEmpty a).hasCode = true) :
    (w'.accountOrEmpty a).codeHash = (w.accountOrEmpty a).codeHash ∧
      (w.accountOrEmpty a).nonce.toNat ≤ (w'.accountOrEmpty a).nonce.toNat ∧
      (w.CodeKnown a → w'.code a = w.code a) := by
  have hhash : (w'.accountOrEmpty a).codeHash = (w.accountOrEmpty a).codeHash :=
    (h.codeHash a).resolve_right fun hnew => by simp [hnew.1] at hcode
  have hcode' := (Account.hasCode_congr hhash).trans hcode
  refine ⟨hhash, h.nonce a, fun hknown => ?_⟩
  obtain ⟨code, hd⟩ := hknown.exists_code hcode
  rw [code_of_hasCode hcode, code_of_hasCode hcode', hhash, hd, h.codes _ _ hd]

theorem code_gained (h : Deploys rules w w') (hw : w.CodesSound) (hplain : (w.accountOrEmpty a).hasCode = false)
    (hcode : (w'.accountOrEmpty a).hasCode = true) :
    (rules.stateClearing = true → 1 ≤ (w'.accountOrEmpty a).nonce.toNat) ∧
      (rules.AllowsCode (w'.code a) ∨ ∃ code, rules.AllowsCode code ∧ code ≠ w'.code a ∧
        keccak256 code = keccak256 (w'.code a) ∧ w.codes[keccak256 code]? = some (w'.code a)) := by
  rcases h.codeHash a with hhash | ⟨-, code, hnew⟩
  · rw [Account.hasCode_congr hhash, hplain] at hcode
    cases hcode
  · refine ⟨fun hclearing => Nat.one_le_iff_ne_zero.mpr (hnew.nonce hclearing), ?_⟩
    by_cases hc : code = w'.code a
    · exact .inl (hc ▸ hnew.allowed)
    · rcases h.fresh _ _ (hnew.codes_getElem? hcode) with hbefore | ⟨hallowed, -⟩
      · exact .inr ⟨code, hnew.allowed, hc, (hw _ _ hbefore).symm, hbefore⟩
      · exact .inl hallowed

end Deploys

end World

end StateTransition
