import StateTransition.Proofs.Chain.Course
import StateTransition.Proofs.Machine.Clearing

/-! Where empty accounts are removed none is left. Each account that a transaction makes empty is swept at
its end, and the sender, which has a nonce, is not empty; what rewards are paid to is not empty either. -/
namespace StateTransition

open World (EmptiesWithin)

variable {rules : Rules} {block : BlockEnv} {w w₁ w' : World} {a : Address}

/-! ### Sweeping -/

namespace World

structure Cleared (w : World) : Prop where
  wellFormed : w.WellFormed
  noEmpty : w.NoEmpty

private theorem isEmptyAccount_of_destroyAccount {b : Address} (h : (w.destroyAccount b).isEmptyAccount a = true) :
    w.isEmptyAccount a = true ∧ a ≠ b := by
  rw [destroyAccount, isEmptyAccount_setAccount] at h
  split at h
  · cases h
  · next hne => exact ⟨isEmptyAccount_congr (destroyStorage_accounts b w) a ▸ h, Ne.symm hne⟩

private theorem isEmptyAccount_of_clearEmpty {l : List Address} (h : (w.clearEmpty l).isEmptyAccount a = true) :
    w.isEmptyAccount a = true ∧ a ∉ l := by
  induction l generalizing w with
  | nil => exact ⟨h, List.not_mem_nil⟩
  | cons b l ih =>
    rw [clearEmpty, List.foldl_cons] at h
    obtain ⟨hempty, hl⟩ := ih h
    rw [List.mem_cons, not_or]
    split at hempty
    · obtain ⟨hempty, hne⟩ := isEmptyAccount_of_destroyAccount hempty
      exact ⟨hempty, hne, hl⟩
    · next hb =>
      refine ⟨hempty, ?_, hl⟩
      rintro rfl
      exact hb hempty

private theorem isEmptyAccount_of_foldl_destroyAccount {l : List Address}
    (h : (l.foldl (fun w b => w.destroyAccount b) w).isEmptyAccount a = true) :
    w.isEmptyAccount a = true := by
  induction l generalizing w with
  | nil => exact h
  | cons b l ih => exact (isEmptyAccount_of_destroyAccount (ih h)).1

private theorem isEmptyAccount_of_sweep {o : Outcome} (hclearing : rules.stateClearing = true)
    (h : (w.sweep rules o).isEmptyAccount a = true) : w.isEmptyAccount a = true ∧ a ∉ o.touched := by
  unfold sweep at h
  dsimp only at h
  rw [if_pos hclearing] at h
  obtain ⟨hempty, hl⟩ := isEmptyAccount_of_clearEmpty h
  exact ⟨isEmptyAccount_of_foldl_destroyAccount hempty, fun hmem => hl (Std.ExtTreeSet.mem_toList.mpr hmem)⟩

/-- A coinbase that gets something is not empty, and one that gets nothing is removed if it is. -/
private theorem isEmptyAccount_of_payFee {coinbase : Address} {fee : Word} (hclearing : rules.stateClearing = true)
    (hpay : payFee rules coinbase fee w = .ok () w') (h : w'.isEmptyAccount a = true) :
    w.isEmptyAccount a = true := by
  rcases payFee_cases hpay with ⟨hfee, hadd⟩ | ⟨-, rfl | ⟨-, rfl⟩⟩
  · have hpaid : EmptiesWithin ∅ w w' := .addBalance_of_ne_zero (hfee hclearing) hadd
    exact (hpaid.empty a h).resolve_right (Set.notMem_empty a)
  · exact h
  · exact (isEmptyAccount_of_destroyAccount h).1

end World

/-! ### Transactions -/

namespace SignedTransaction

variable {t : SignedTransaction} {adm : Admission} {o : Outcome} {gasAvailable : Nat}

/-- While a transaction runs no account becomes empty but its sender and those that it touches. -/
private theorem execute_empties (hclearing : rules.stateClearing = true) (hw : w.WellFormed)
    (h : t.execute rules block adm w = .ok o w') :
    w'.WellFormed ∧
      (w'.isEmptyAccount a = true → w.isEmptyAccount a = true ∨ a ∈ o.touched ∨ a = adm.sender) := by
  obtain ⟨w₂, w₃, hnonce, hfee, h⟩ := execute_cases h
  have hw₃ : w₃.WellFormed := (World.Evolves.subBalance hfee).wellFormed
    ((World.Evolves.incrementNonce hnonce).wellFormed hw.beginTransaction)
  refine ⟨(Message.execute_evolves h).wellFormed hw₃, fun ha => ?_⟩
  have hbegun : w.EmptiesWithin { adm.sender } w.beginTransaction := .of_accounts rfl
  have htaken := (hbegun.trans (EmptiesWithin.incrementNonce hnonce).1).trans (.subBalance rfl hfee)
  rcases Message.execute_empties hclearing hw₃ h ha with hbefore | hmem | hsender
  · exact (htaken.empty a hbefore).imp_right .inr
  · exact .inr (.inl hmem)
  · exact .inr (.inr hsender)

/-- When a transaction is settled no account becomes empty but its sender, and those that were touched are
not left empty. -/
private theorem settle_empties {charged : Nat} (hclearing : rules.stateClearing = true)
    (h : t.settle rules block adm o w = .ok charged w') :
    w.Evolves w' ∧
      (w'.isEmptyAccount a = true → (w.isEmptyAccount a = true ∨ a = adm.sender) ∧ a ∉ o.touched) := by
  refine ⟨.of_change (settle_change h), fun ha => ?_⟩
  obtain ⟨refund, w₁, w₂, -, -, hback, hfee, rfl⟩ := settle_cases h
  obtain ⟨hempty, htouched⟩ := World.isEmptyAccount_of_sweep hclearing ha
  have hpaid : w.EmptiesWithin { adm.sender } w₁ := .addBalance rfl hback
  exact ⟨hpaid.empty a (World.isEmptyAccount_of_payFee hclearing hfee hempty), htouched⟩

/-- An included transaction leaves no empty account where there was none. -/
private theorem process_cleared {outcome : TransactionOutcome} (hclearing : rules.stateClearing = true)
    (hw : w.Cleared) (h : t.process rules block gasAvailable w = .ok outcome w') : w'.Cleared := by
  obtain ⟨-, -, hpinned⟩ := process_pinned h
  obtain ⟨adm, o, w₁, -, hexecute, hsettle, -, hsender, -⟩ := process_ok h
  rw [hsender] at hpinned
  have hw₁ := (execute_empties (a := 0) hclearing hw.wellFormed hexecute).1
  refine ⟨(settle_empties (a := 0) hclearing hsettle).1.wellFormed hw₁, fun a => ?_⟩
  rw [← Bool.not_eq_true]
  intro ha
  -- only the sender is left, which has a nonce
  have hother : a ≠ adm.sender := hpinned.ne_of_isEmptyAccount (Nat.succ_ne_zero _) ha
  obtain ⟨hempty, htouched⟩ := (settle_empties hclearing hsettle).2 ha
  have hsuspect := (execute_empties hclearing hw.wellFormed hexecute).2 (hempty.resolve_right hother)
  rcases hsuspect with hbefore | hmem | hsame
  · rw [hw.noEmpty a] at hbefore
    cases hbefore
  · exact htouched hmem
  · exact hother hsame

/-- A transaction that is refused leaves the world as it was. -/
theorem process_refused {cause : TransactionRejection} (hcause : ∀ c, cause ≠ .internal c)
    (h : t.process rules block gasAvailable w = .error cause w') : w' = w := by
  unfold process at h
  split at h
  · cases h
    rfl
  · split at h
    · cases h
    · cases h
      exact absurd rfl (hcause _)

end SignedTransaction

/-! ### Rewards -/

theorem Rules.blockReward_bounds (fork : Fork) :
    8 ≤ (ofFork fork).blockReward ∧ (ofFork fork).blockReward < countLimit := by
  cases fork <;> decide

private theorem Rules.stateClearing_iff (fork : Fork) :
    (ofFork fork).stateClearing = true ↔ Fork.spuriousDragon ≤ fork := by
  cases fork <;> decide

theorem ommerReward_le (blockReward age : Nat) : ommerReward blockReward age ≤ blockReward :=
  Nat.div_le_of_le_mul (Nat.mul_comm 8 _ ▸ Nat.mul_le_mul_left _ (Nat.sub_le 8 age))

private theorem ommerReward_pos {blockReward age : Nat} (hreward : 8 ≤ blockReward) (hage : age ≤ 7) :
    0 < ommerReward blockReward age := by
  have hlow : blockReward * 1 ≤ blockReward * (8 - age) := Nat.mul_le_mul_left _ (by omega)
  rw [ommerReward]
  omega

private theorem ofNat_ne_zero {n : Nat} (hpos : 0 < n) (hlt : n < wordLimit) :
    (BitVec.ofNat 256 n : Word) ≠ 0 := by
  intro h
  have hn := congrArg BitVec.toNat h
  rw [BitVec.toNat_ofNat, Nat.mod_eq_of_lt] at hn
  · exact Nat.ne_of_gt hpos hn
  · exact hlt

namespace World

/-- Whoever is given something is not empty, and where that cannot be given nothing changes. -/
private theorem Cleared.addBalance {amount : Word} (hw : w.Cleared) (hamount : amount ≠ 0) :
    (after (World.addBalance a amount) w).Cleared := by
  rw [after]
  cases hrun : (World.addBalance a amount).run w with
  | ok u w' =>
    exact ⟨(Evolves.addBalance hrun).wellFormed hw.wellFormed,
      hw.noEmpty.of_emptiesWithin (.addBalance_of_ne_zero hamount hrun)⟩
  | error cause w' =>
    rw [run_addBalance] at hrun
    split at hrun <;> cases hrun
    exact hw

/-- All ommers are of an age that rewards are for. -/
def OmmersDue (h : Header) (ommers : List Header) : Prop :=
  ∀ ommer ∈ ommers, 1 ≤ h.number.toNat - ommer.number.toNat ∧ h.number.toNat - ommer.number.toNat ≤ 7

/-- Rewards leave no empty account where there was none, also if they cannot all be paid. -/
private theorem Cleared.payRewards {fork : Fork} {h : Header} {ommers : List Header} (hw : w.Cleared)
    (hcount : ommers.length < countLimit) (hdue : OmmersDue h ommers) :
    (after (World.payRewards (Rules.ofFork fork) h ommers) w).Cleared := by
  obtain ⟨hlow, hhigh⟩ := Rules.blockReward_bounds fork
  have hshare : (Rules.ofFork fork).blockReward / 32 * ommers.length ≤ countLimit * countLimit :=
    Nat.mul_le_mul (by omega) (by omega)
  -- the word that the coinbase gets does not wrap to zero
  have hlimit : 2 * (countLimit * countLimit) < wordLimit ∧ countLimit ≤ countLimit * countLimit := by decide
  refine after_bind (hw.addBalance (ofNat_ne_zero (by omega) (by omega))) fun w' hw' => ?_
  clear hshare hcount hw
  induction ommers generalizing w' with
  | nil => exact hw'
  | cons ommer ommers ih =>
    have hpos := ommerReward_pos hlow (hdue ommer List.mem_cons_self).2
    have hle := ommerReward_le (Rules.ofFork fork).blockReward (h.number.toNat - ommer.number.toNat)
    refine after_bind (after_payOmmer hw' (hw'.addBalance (ofNat_ne_zero hpos (by omega)))) ?_
    exact ih fun ommer hmem => hdue ommer (List.mem_cons_of_mem _ hmem)

end World

/-! ### Blocks -/

namespace SignedTransaction

variable {t : SignedTransaction} {ts : List SignedTransaction} {index gas : Nat}

private theorem processAll_cleared {receipts : List Receipt} (hclearing : rules.stateClearing = true) (hw : w.Cleared)
    (h : processAll rules block index gas ts w = .ok receipts w') : w'.Cleared :=
  processAll_preserves (fun hw => process_cleared hclearing hw) hw h

/-- Where a transaction is refused the world is left as those before it made it. -/
private theorem processAll_cleared_of_rejected {cause : BlockRejection} (hclearing : rules.stateClearing = true)
    (hw : w.Cleared) (h : processAll rules block index gas ts w = .error (.rejected cause) w') :
    w'.Cleared := by
  induction ts generalizing index gas w with
  | nil => cases h
  | cons t ts ih =>
    simp only [processAll] at h
    split at h
    · next refusal w₁ hfirst =>
      have hcause : ∀ c, refusal ≠ .internal c := by
        rintro c rfl
        cases h
      rcases World.of_bind_error hfirst with hfirst | ⟨outcome, w₂, -, hfirst⟩
      · obtain ⟨-, rfl⟩ := EStateM.Result.error.inj h
        rw [process_refused hcause hfirst]
        exact hw
      · cases hfirst
    · next receipt w₁ hfirst =>
      obtain ⟨gasAvailable, outcome, hprocess⟩ := exists_process hfirst
      rcases World.of_bind_error h with hrest | ⟨rest, w₃, -, h⟩
      · exact ih (process_cleared hclearing hw hprocess) hrest
      · cases h

end SignedTransaction

namespace Block

variable {b : Block} {fork : Fork}

private theorem execute_cleared {outcome : BlockOutcome} (hclearing : (Rules.ofFork fork).stateClearing = true)
    (hcount : b.ommers.length < countLimit) (hdue : World.OmmersDue b.header b.ommers) (hw : w.Cleared)
    (h : b.execute (Rules.ofFork fork) block w = .ok outcome w') : w'.Cleared := by
  obtain ⟨w₁, hall, hpay, -⟩ := execute_ok h
  have hpaid : (World.after (World.payRewards (Rules.ofFork fork) b.header b.ommers) w₁).Cleared :=
    (SignedTransaction.processAll_cleared hclearing hw hall).payRewards hcount hdue
  rwa [World.after, EStateM.run, hpay] at hpaid

private theorem execute_cleared_of_rejected {cause : BlockRejection} (hclearing : rules.stateClearing = true)
    (hw : w.Cleared) (h : b.execute rules block w = .error (.rejected cause) w') : w'.Cleared := by
  rcases World.of_bind_error h with hall | ⟨receipts, w₁, -, h⟩
  · exact SignedTransaction.processAll_cleared_of_rejected hclearing hw hall
  · split at h <;> cases h

end Block

/-! ### Runs -/

namespace World

/-- One step of a chain since Spurious Dragon: transactions and blocks are taken or refused, under the
rules of any fork from then on. -/
inductive ClearingStep : World → World → Prop where
  | transaction {fork : Fork} {block : BlockEnv} {gasAvailable : Nat} {t : SignedTransaction}
      {outcome : TransactionOutcome} {w w' : World} (hfork : .spuriousDragon ≤ fork)
      (h : t.process (Rules.ofFork fork) block gasAvailable w = .ok outcome w') : ClearingStep w w'
  | refusedTransaction {fork : Fork} {block : BlockEnv} {gasAvailable : Nat} {t : SignedTransaction}
      {cause : TransactionRejection} {w w' : World} (hfork : .spuriousDragon ≤ fork)
      (hcause : ∀ c, cause ≠ .internal c)
      (h : t.process (Rules.ofFork fork) block gasAvailable w = .error cause w') : ClearingStep w w'
  | rewards {fork : Fork} {h : Header} {ommers : List Header} {w : World} (hfork : .spuriousDragon ≤ fork)
      (hcount : ommers.length < countLimit) (hdue : OmmersDue h ommers) :
      ClearingStep w (after (payRewards (Rules.ofFork fork) h ommers) w)
  | block {fork : Fork} {env : BlockEnv} {b : Block} {outcome : BlockOutcome} {w w' : World}
      (hfork : .spuriousDragon ≤ fork) (hcount : b.ommers.length < countLimit)
      (hdue : OmmersDue b.header b.ommers) (h : b.execute (Rules.ofFork fork) env w = .ok outcome w') :
      ClearingStep w w'
  | refusedBlock {fork : Fork} {env : BlockEnv} {b : Block} {cause : BlockRejection} {w w' : World}
      (hfork : .spuriousDragon ≤ fork)
      (h : b.execute (Rules.ofFork fork) env w = .error (.rejected cause) w') : ClearingStep w w'

private theorem ClearingStep.cleared (h : ClearingStep w w') (hw : w.Cleared) : w'.Cleared := by
  cases h with
  | transaction hfork h =>
    exact SignedTransaction.process_cleared ((Rules.stateClearing_iff _).mpr hfork) hw h
  | refusedTransaction _ hcause h =>
    rw [SignedTransaction.process_refused hcause h]
    exact hw
  | rewards _ hcount hdue => exact hw.payRewards hcount hdue
  | block hfork hcount hdue h =>
    exact Block.execute_cleared ((Rules.stateClearing_iff _).mpr hfork) hcount hdue hw h
  | refusedBlock hfork h =>
    exact Block.execute_cleared_of_rejected ((Rules.stateClearing_iff _).mpr hfork) hw h

private theorem cleared_of_steps (h : Relation.ReflTransGen ClearingStep w w') (hw : w.Cleared) : w'.Cleared := by
  induction h with
  | refl => exact hw
  | tail _ hlast ih => exact hlast.cleared ih

/-- Where empty accounts are removed and there is none, none is left by an included transaction, nor by the
rewards for ommers of any age that is paid, nor by any run of transactions and blocks since Spurious
Dragon, the fork from which on they are removed. A list has fewer members than can be counted. -/
theorem clearing_complete {fork : Fork} (hclearing : (Rules.ofFork fork).stateClearing = true)
    (hw : Reachable w) (hempty : w.NoEmpty) :
    (∀ (block : BlockEnv) (gasAvailable : Nat) (t : SignedTransaction) (outcome : TransactionOutcome)
        (w' : World), t.process (Rules.ofFork fork) block gasAvailable w = .ok outcome w' → w'.NoEmpty) ∧
      (∀ (h : Header) (ommers : List Header), ommers.length < countLimit → OmmersDue h ommers →
        (after (payRewards (Rules.ofFork fork) h ommers) w).NoEmpty) ∧
      Fork.spuriousDragon ≤ fork ∧ ∀ w', Relation.ReflTransGen ClearingStep w w' → w'.NoEmpty := by
  have hcleared : w.Cleared := ⟨hw.wellFormed, hempty⟩
  refine ⟨fun block gasAvailable t outcome w' h => ?_, fun h ommers hcount hdue => ?_,
    (Rules.stateClearing_iff fork).mp hclearing, fun w' h => ?_⟩
  · exact (SignedTransaction.process_cleared hclearing hcleared h).noEmpty
  · exact (hcleared.payRewards hcount hdue).noEmpty
  · exact (cleared_of_steps h hcleared).noEmpty

open SignedTransaction

/-- A transfer, and after it the rewards of a block with one ommer. -/
theorem clearing_complete_of_transfer :
    let header : Header := ⟨0, 0, 0x99, 0, 0, 0, 0, 0, 2, 8000000, 21000, 0, [], 0, 0, some 7⟩
    let ommer : Header := { header with number := 1, coinbase := 0x98 }
    let w := Sample.world
    (Rules.ofFork .london).stateClearing = true ∧ Reachable w ∧ w.NoEmpty ∧ OmmersDue header [ommer] ∧
      ∃ outcome w', Sample.transfer.process (Rules.ofFork .london) Sample.londonBlock 100000 w = .ok outcome w' ∧
        w'.NoEmpty ∧ (after (payRewards (Rules.ofFork .london) header [ommer]) w).NoEmpty ∧
        (after (payRewards (Rules.ofFork .grayGlacier) header [ommer]) w').NoEmpty := by
  intro header ommer w
  have hw : Reachable w := .run .empty _
  have hne : w.NoEmpty := fun a => by
    have hset : w = World.empty.setAccount Sample.payer (some { Account.empty with balance := 1000000 }) := rfl
    rw [hset, isEmptyAccount_setAccount]
    split
    · decide
    · rfl
  have hdue : OmmersDue header [ommer] := by
    intro h hmem
    rw [List.mem_singleton.mp hmem]
    decide
  have hcount : [ommer].length < countLimit := by decide
  have hrun : endsWith (fun _ _ => true)
      (Sample.transfer.carryOut (Rules.ofFork .london) Sample.londonBlock ⟨Sample.payer, 21000, 9⟩ w) := by
    decide +kernel
  obtain ⟨outcome, w', hcarry, -⟩ := exists_of_endsWith hrun
  have hprocess := process_of_valid Sample.validate_transfer hcarry
  have hclearing : (Rules.ofFork .london).stateClearing = true := rfl
  obtain ⟨hprocessed, hrewarded, -, hruns⟩ := clearing_complete hclearing hw hne
  refine ⟨hclearing, hw, hne, hdue, outcome, w', hprocess, hprocessed _ _ _ _ _ hprocess,
    hrewarded header [ommer] hcount hdue, ?_⟩
  exact hruns _ (.tail (.single (.transaction (by decide) hprocess)) (.rewards (by decide) hcount hdue))

end World

end StateTransition
