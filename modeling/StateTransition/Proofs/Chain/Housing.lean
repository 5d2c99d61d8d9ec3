import StateTransition.Proofs.Chain.Clearing
import StateTransition.Proofs.Chain.Failure
import StateTransition.Proofs.Machine.Housing

/-! Storage from one transaction to the next. No account leaves storage behind when it is removed, so one that is made
anew in its place finds none. -/
namespace StateTransition

variable {rules : Rules} {block : BlockEnv} {gasAvailable : Nat} {t : SignedTransaction} {w w' : World} {a : Address}

namespace World

private theorem housed_of_addBalance {amount : Word} (hw : w.Housed) (h : addBalance a amount w = .ok () w') :
    w'.Housed ∧ w.Notes w' :=
  ⟨after_eq h ▸ hw.addBalance a amount, (Houses.addBalance h).toNotes⟩

private theorem housed_of_payFee {coinbase : Address} {fee : Word} (hw : w.Housed)
    (h : payFee rules coinbase fee w = .ok () w') : w'.Housed ∧ w.Notes w' := by
  rcases payFee_cases h with ⟨-, hadd⟩ | ⟨-, rfl | ⟨-, rfl⟩⟩
  · exact housed_of_addBalance hw hadd
  · exact ⟨hw, .of_spares (.refl w')⟩
  · exact ⟨hw.destroyAccount coinbase, .destroyAccount coinbase w⟩

private theorem housed_sweep (hw : w.Housed) (rules : Rules) (o : Outcome) :
    (w.sweep rules o).Housed ∧ w.Notes (w.sweep rules o) := by
  obtain ⟨l, hl⟩ := exists_sweep_eq rules o w
  rw [hl]
  exact ⟨hw.foldl_destroyAccount l, .foldl_destroyAccount l w⟩

/-- Rewards are given to accounts that have a record from then on, also if they cannot all be paid. -/
private theorem Housed.payRewards (hw : w.Housed) (rules : Rules) (h : Header) (ommers : List Header) :
    (after (World.payRewards rules h ommers) w).Housed := by
  refine after_bind (hw.addBalance _ _) fun w' hw' => ?_
  clear hw
  induction ommers generalizing w' with
  | nil => exact hw'
  | cons ommer ommers ih => exact after_bind (after_payOmmer hw' (hw'.addBalance _ _)) ih

end World

namespace SignedTransaction

variable {adm : Admission} {o : Outcome}

private theorem execute_houses (hw : w.Tidy) (h : t.execute rules block adm w = .ok o w') :
    w.beginTransaction.Houses w' ∧ w'.Tidy := by
  obtain ⟨w₁, w₂, hnonce, hfee, hrun⟩ := execute_cases h
  have hw₂ : w₂.WellFormed := (World.Evolves.subBalance hfee).wellFormed
    ((World.Evolves.incrementNonce hnonce).wellFormed hw.wellFormed_beginTransaction)
  have hprepaid := (World.Houses.incrementNonce hnonce).trans (.subBalance hfee)
  exact ⟨hprepaid.trans (Message.execute_houses hw₂ hrun), ((Message.execute_evolves hrun).wellFormed hw₂).tidy⟩

/-- A transaction that is included leaves no storage without an owner, and changes no slots but those remembered. -/
private theorem process_housed (hw : w.Housed) {outcome : TransactionOutcome}
    (h : t.process rules block gasAvailable w = .ok outcome w') : w'.Housed ∧ w.beginTransaction.Notes w' := by
  obtain ⟨adm, o, w₁, -, hexecute, hsettle, -⟩ := process_ok h
  obtain ⟨hhouses, htidy⟩ := execute_houses hw.tidy hexecute
  have hbegun : w.beginTransaction.Housed := ⟨hw.tidy.wellFormed_beginTransaction.tidy, hw.record⟩
  obtain ⟨refund, w₂, w₃, -, -, hback, hfee, rfl⟩ := settle_cases hsettle
  obtain ⟨hw₂, hnotes₂⟩ := World.housed_of_addBalance (hbegun.houses hhouses htidy) hback
  obtain ⟨hw₃, hnotes₃⟩ := World.housed_of_payFee hw₂ hfee
  obtain ⟨hswept, hnotes⟩ := World.housed_sweep hw₃ rules o
  exact ⟨hswept, ((hhouses.toNotes.trans hnotes₂).trans hnotes₃).trans hnotes⟩

end SignedTransaction

/-! ### Runs -/

namespace World

/-- A transaction that is taken or refused under any rules, or rewards as far as they can be paid. -/
inductive Turn : World → World → Prop where
  | transaction {rules : Rules} {block : BlockEnv} {gasAvailable : Nat} {t : SignedTransaction}
      {outcome : TransactionOutcome} {w w' : World} (h : t.process rules block gasAvailable w = .ok outcome w') :
      Turn w w'
  | refused {rules : Rules} {block : BlockEnv} {gasAvailable : Nat} {t : SignedTransaction}
      {cause : TransactionRejection} {w w' : World} (hcause : ∀ c, cause ≠ .internal c)
      (h : t.process rules block gasAvailable w = .error cause w') : Turn w w'
  | rewards (rules : Rules) (h : Header) (ommers : List Header) (w : World) :
      Turn w (after (payRewards rules h ommers) w)

private theorem Turn.housed (h : Turn w w') (hw : w.Housed) : w'.Housed := by
  cases h with
  | transaction h => exact (SignedTransaction.process_housed hw h).1
  | refused hcause h =>
    rw [SignedTransaction.process_refused hcause h]
    exact hw
  | rewards rules h ommers => exact hw.payRewards rules h ommers

/-- Where every account with storage has a record and no zero is stored, that stays so from one transaction to the
next. An account without a record holds zero in all slots, and if it is made anew later, what it holds at the end of
that transaction was written in it. A creation begins with no slots, whatever there was in its place. -/
theorem no_orphan_storage (hw : w.Housed) (h : Relation.ReflTransGen Turn w w') :
    w'.Housed ∧
      (∀ a, w'.hasAccount a = false →
        (∀ k, w'.slot a k = 0) ∧
        ∀ (rules : Rules) (block : BlockEnv) (gasAvailable : Nat) (t : SignedTransaction) (outcome : TransactionOutcome)
          (w₁ : World), t.process rules block gasAvailable w' = .ok outcome w₁ →
            ∀ k, w₁.slot a k ≠ 0 → (⟨a, k⟩ : SlotKey) ∈ w₁.initial) ∧
      ∀ (rules : Rules) (m : Message) (w₁ w₂ : World), m.clear rules w₁ = .ok () w₂ → w₂.slots m.target = ∅ := by
  have hw' : w'.Housed := by
    induction h with
    | refl => exact hw
    | tail _ hlast ih => exact hlast.housed ih
  refine ⟨hw', fun a ha => ⟨hw'.slot_eq_zero ha, fun rules block gasAvailable t outcome w₁ hprocess k hne => ?_⟩,
    fun rules m w₁ w₂ hclear => (Message.clear_houses hclear).2⟩
  have hnotes := (SignedTransaction.process_housed hw' hprocess).2
  exact hnotes.written a k fun hsame => hne (hsame.trans (hw'.slot_eq_zero ha k))

open SignedTransaction

/-- An account that stores a 7 is called and destroys itself, and then rewards are paid. -/
theorem no_orphan_storage_of_destruction :
    let header : Header := ⟨0, 0, 0x99, 0, 0, 0, 0, 0, 2, 8000000, 21000, 0, [], 0, 0, some 7⟩
    let w : World := { (Sample.world.putAccount 0x10 (some ⟨1, 0, 1⟩)).writeSlot 0x10 0 7 with
      codes := (∅ : Std.ExtTreeMap Hash ByteArray).insert 1 ⟨#[0x33, 0xff]⟩ }
    w.Housed ∧ w.slot 0x10 0 = 7 ∧
      ∃ outcome w₁, Sample.transfer.process (Rules.ofFork .london) Sample.londonBlock 100000 w = .ok outcome w₁ ∧
        ∀ k, (after (payRewards (Rules.ofFork .london) header []) w₁).slot 0x10 k = 0 := by
  intro header w
  have hworld : Sample.world.Tidy := (Reachable.run .empty _).wellFormed.tidy
  have htidy : w.Tidy := ((hworld.putAccount 0x10 (some ⟨1, 0, 1⟩)).writeSlot 0x10 0 7).congr rfl
  have hw : w.Housed := by
    refine ⟨htidy, fun a hne => ?_⟩
    by_cases ha : a = 0x10
    · rw [ha]
      decide +kernel
    · refine absurd ?_ hne
      change (writeSlot 0x10 0 7 _).slots a = ∅
      rw [writeSlot, slots_putSlots, if_neg (Ne.symm ha)]
      rfl
  have hvalid : Sample.transfer.validate (Rules.ofFork .london) Sample.londonBlock w 100000 =
      .ok ⟨Sample.payer, 21000, 9⟩ := by
    refine validate_congr Sample.validate_transfer ?_
    decide +kernel
  have hrun : endsWith (fun _ w₁ => (after (payRewards (Rules.ofFork .london) header []) w₁).hasAccount 0x10 = false)
      (Sample.transfer.carryOut (Rules.ofFork .london) Sample.londonBlock ⟨Sample.payer, 21000, 9⟩ w) := by
    decide +kernel
  obtain ⟨outcome, w₁, hcarry, hgone⟩ := exists_of_endsWith hrun
  have hprocess := process_of_valid hvalid hcarry
  have hturns : Relation.ReflTransGen Turn w (after (payRewards (Rules.ofFork .london) header []) w₁) :=
    .tail (.single (.transaction hprocess)) (.rewards _ header [] w₁)
  obtain ⟨-, hnone, -⟩ := no_orphan_storage hw hturns
  exact ⟨hw, by decide +kernel, outcome, w₁, hprocess, (hnone 0x10 (of_decide_eq_true hgone)).1⟩

end World

end StateTransition
