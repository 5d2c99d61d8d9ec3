import StateTransition.Proofs.Chain.Failure
import StateTransition.Proofs.Machine.Deployment

/-! Code in the world from one transaction to the next. What is deployed is not replaced: a contract keeps
its code until it is removed with all its storage, and code that is new is code that the rules allow. -/
namespace StateTransition

open World (Deploys)

variable {rules : Rules} {block : BlockEnv} {w w₁ w' w'' : World} {a : Address}

namespace World

/-! ### Removing accounts -/

/-- Some accounts are removed with their storage, and all others are as they were. -/
structure Removes (w w' : World) : Prop where
  codes : w'.codes = w.codes
  account : ∀ a, w'.account? a = w.account? a ∧ w'.slots a = w.slots a ∨
    w'.account? a = none ∧ w'.slots a = ∅

namespace Removes

private theorem refl (w : World) : Removes w w := ⟨rfl, fun _ => .inl ⟨rfl, rfl⟩⟩

private theorem trans (h : Removes w w') (h' : Removes w' w'') : Removes w w'' where
  codes := h'.codes.trans h.codes
  account a := by
    rcases h'.account a with ⟨haccount, hslots⟩ | hgone
    · rw [haccount, hslots]
      exact h.account a
    · exact .inr hgone

private theorem destroyAccount (a : Address) (w : World) : Removes w (w.destroyAccount a) where
  codes := codes_destroyAccount a w
  account b := by
    rw [account?_destroyAccount, slots_destroyAccount]
    split
    · exact .inr ⟨rfl, rfl⟩
    · exact .inl ⟨rfl, rfl⟩

private theorem sweep (rules : Rules) (o : Outcome) (w : World) : Removes w (w.sweep rules o) := by
  obtain ⟨l, hl⟩ := exists_sweep_eq rules o w
  rw [hl]
  clear hl
  induction l generalizing w with
  | nil => exact refl w
  | cons b l ih => exact (destroyAccount b w).trans (ih _)

end Removes

private theorem removes_of_payFee {coinbase : Address} {fee : Word} (h : payFee rules coinbase fee w = .ok () w') :
    ∃ w₁, w.Deploys rules w₁ ∧ w₁.Removes w' := by
  rcases payFee_cases h with ⟨-, hadd⟩ | ⟨-, rfl | ⟨-, rfl⟩⟩
  · exact ⟨w', .addBalance hadd, .refl w'⟩
  · exact ⟨w', .refl w', .refl w'⟩
  · exact ⟨w, .refl w, .destroyAccount coinbase w⟩

end World

namespace SignedTransaction

variable {t : SignedTransaction} {gasAvailable : Nat} {adm : Admission} {o : Outcome}

private theorem execute_deploys (hw : w.WellFormed) (h : t.execute rules block adm w = .ok o w') :
    w.Deploys rules w' := by
  obtain ⟨w₂, w₃, hnonce, hfee, hrun⟩ := execute_cases h
  have hbegun : w.Deploys rules w.beginTransaction := .of_accounts rfl rfl
  have hw₃ := (prepaid_of_ok hnonce hfee).wellFormed hw
  exact ((hbegun.trans (.incrementNonce hnonce)).trans (.subBalance hfee)).trans
    (Message.execute_deploys hw₃ hrun)

/-- A transaction deploys code, and then it removes accounts. -/
private theorem process_deploys (hw : w.WellFormed) {outcome : TransactionOutcome}
    (h : t.process rules block gasAvailable w = .ok outcome w') :
    ∃ w₁, w.Deploys rules w₁ ∧ w₁.Removes w' := by
  obtain ⟨adm, o, u, -, hexecute, hsettle, -⟩ := process_ok h
  obtain ⟨refund, w₂, w₃, -, -, hback, hfee, rfl⟩ := settle_cases hsettle
  obtain ⟨w₁, hpaid, hremoved⟩ := World.removes_of_payFee hfee
  exact ⟨w₁, ((execute_deploys hw hexecute).trans (.addBalance hback)).trans hpaid,
    hremoved.trans (.sweep rules o w₃)⟩

/-- An account with code has the same code after a transaction and no lower nonce, unless it was removed with
all its storage. One that had no code before and has some now has code that the rules allow, unless other
code of the same digest was known before, and where empty accounts are removed it has a nonce. -/
theorem code_immutable (hw : World.Reachable w) {outcome : TransactionOutcome}
    (h : t.process rules block gasAvailable w = .ok outcome w') (a : Address) :
    ((w.accountOrEmpty a).hasCode = true →
      ((w'.accountOrEmpty a).codeHash = (w.accountOrEmpty a).codeHash ∧
          (w.accountOrEmpty a).nonce.toNat ≤ (w'.accountOrEmpty a).nonce.toNat ∧
          (w.CodeKnown a → w'.code a = w.code a)) ∨
        w'.account? a = none ∧ w'.slots a = ∅) ∧
      ((w.accountOrEmpty a).hasCode = false → (w'.accountOrEmpty a).hasCode = true →
        (rules.stateClearing = true → 1 ≤ (w'.accountOrEmpty a).nonce.toNat) ∧
          (rules.AllowsCode (w'.code a) ∨ ∃ code, rules.AllowsCode code ∧ code ≠ w'.code a ∧
            keccak256 code = keccak256 (w'.code a) ∧ w.codes[keccak256 code]? = some (w'.code a))) := by
  obtain ⟨w₁, hdeploys, hremoves⟩ := process_deploys hw.wellFormed h
  rcases hremoves.account a with ⟨hsame, -⟩ | hgone
  · have hrecord : w'.accountOrEmpty a = w₁.accountOrEmpty a := by
      rw [World.accountOrEmpty, World.accountOrEmpty, hsame]
    rw [hrecord, World.code_congr hsame hremoves.codes]
    exact ⟨fun hcode => .inl (hdeploys.code_kept hcode), hdeploys.code_gained hw.codesSound⟩
  · refine ⟨fun _ => .inr hgone, fun _ hcode => ?_⟩
    rw [World.accountOrEmpty, hgone.1] at hcode
    cases hcode

/-! ### A creation -/

namespace Sample

/-- A creation of a contract whose code is one byte of zero, signed by the payer. -/
def creation : SignedTransaction where
  body :=
    { nonce := 0, gasLimit := 60000, target := none, value := 0, data := [0x60, 1, 0x60, 0, 0xf3]
      kind := .dynamicFee 1 2 10 [] }
  v := 0
  r := 89565891926547004231252920425935692360644145829622209833684329913297188986597
  s := 50370702475679021952788724836928777681847375724771487630026888482253557803961

/-- Where that contract is made. -/
def contract : Address := 1386621896605064455585312431868615197199104358747

private theorem validate_creation : creation.validate (Rules.ofFork .london) londonBlock loggingWorld 100000 =
    .ok ⟨payer, 53068, 9⟩ :=
  validate_of_numbers (by decide +kernel)

private theorem eq_loggingCode {d : Hash} {code : ByteArray} (h : loggingWorld.codes[d]? = some code) :
    code = loggingCode := by
  rcases World.eq_of_mem_codes_setCode h with hbefore | ⟨hcode, -⟩
  · rw [world, World.Operation.run, World.setBalance, World.updateAccount, World.codes_setAccount] at hbefore
    simp [World.empty] at hbefore
  · exact hcode

end Sample

open Sample

/-- A contract is made beside one that has code already. -/
theorem code_immutable_of_creation :
    ∃ outcome w', creation.process (Rules.ofFork .london) londonBlock 100000 loggingWorld = .ok outcome w' ∧
      outcome.contract = some contract ∧ (w'.accountOrEmpty 0x10).codeHash = loggingHash ∧
      (w'.accountOrEmpty contract).hasCode = true ∧ 1 ≤ (w'.accountOrEmpty contract).nonce.toNat ∧
      (Rules.ofFork .london).AllowsCode (w'.code contract) := by
  have hrun : endsWith (fun outcome w' => outcome.contract = some contract ∧ w'.hasAccount 0x10 = true ∧
      (w'.accountOrEmpty contract).hasCode = true ∧ w'.code contract ≠ loggingCode)
      (creation.carryOut (Rules.ofFork .london) londonBlock ⟨payer, 53068, 9⟩ loggingWorld) := by
    rw [loggingWorld_eq]
    decide +kernel
  have hbefore : (loggingWorld.accountOrEmpty 0x10).codeHash = loggingHash ∧
      (loggingWorld.accountOrEmpty 0x10).hasCode = true ∧
      (loggingWorld.accountOrEmpty contract).hasCode = false := by
    rw [loggingWorld_eq]
    decide +kernel
  obtain ⟨outcome, w', h, htest⟩ := exists_of_endsWith hrun
  obtain ⟨hcontract, hkept, hcode, hother⟩ := of_decide_eq_true htest
  obtain ⟨hhash, hdeployed, hplain⟩ := hbefore
  have hprocess := process_of_valid validate_creation h
  have hw : World.Reachable loggingWorld := .run (.run .empty _) _
  obtain ⟨hnonce, hallowed⟩ := (code_immutable hw hprocess contract).2 hplain hcode
  have hallowed := hallowed.resolve_right fun ⟨_, _, _, _, hknown⟩ => hother (eq_loggingCode hknown)
  rcases (code_immutable hw hprocess 0x10).1 hdeployed with ⟨hsame, -⟩ | ⟨hgone, -⟩
  · exact ⟨outcome, w', hprocess, hcontract, hsame.trans hhash, hcode, hnonce rfl, hallowed⟩
  · rw [World.hasAccount, hgone] at hkept
    cases hkept

end SignedTransaction

end StateTransition
