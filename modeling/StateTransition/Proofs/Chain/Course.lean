import StateTransition.Proofs.Chain.Growth
import StateTransition.Proofs.Chain.Replay
import StateTransition.Proofs.Machine.Course

/-! What transactions and blocks do to the world: routine operations. So the world of a chain can be reached by
operations if the one that it began with can. -/
namespace StateTransition

open World (Leads Proceeds Reachable)

variable {rules : Rules} {block : BlockEnv}

/-! ### Settlement -/

namespace World

private theorem leads_sweep (o : Outcome) (w : World) : Leads w (w.sweep rules o) := by
  obtain ⟨l, hl⟩ := exists_sweep_eq rules o w
  rw [hl]
  exact .foldl (fun w a => .single (.destroyAccount a) trivial w) l w

private theorem proceeds_payFee (coinbase : Address) (fee : Word) : Proceeds (payFee rules coinbase fee) :=
  .ite (.addBalance _ _)
    (.bind .get fun _ => .ite (.modify (.single (.destroyAccount coinbase) trivial)) (.pure _))

private theorem proceeds_payOmmer (h ommer : Header) : Proceeds (payOmmer rules h ommer) := by
  obtain heq | heq := payOmmer_eq rules h ommer
  · exact heq ▸ fun _ => .refl
  · exact heq ▸ .addBalance _ _

private theorem proceeds_payRewards (h : Header) (ommers : List Header) : Proceeds (payRewards rules h ommers) := by
  refine .bind (.addBalance _ _) fun _ => ?_
  induction ommers with
  | nil => exact .pure _
  | cons ommer ommers ih => exact .bind (proceeds_payOmmer h ommer) fun _ => ih

end World

/-! ### Transactions -/

namespace SignedTransaction

variable {adm : Admission} (t : SignedTransaction)

private theorem proceeds_execute : Proceeds (t.execute rules block adm) :=
  .bind (.modify (.single .beginTransaction trivial)) fun _ => .bind (.incrementNonce _) fun _ =>
    .bind (.subBalance _ _) fun _ => .bind .get fun _ => Message.proceeds_execute _ _

private theorem proceeds_settle (o : Outcome) : Proceeds (t.settle rules block adm o) :=
  .bind (.addBalance _ _) fun _ => .bind (World.proceeds_payFee _ _) fun _ =>
    .bind (.modify (World.leads_sweep o)) fun _ => .pure _

private theorem proceeds_carryOut : Proceeds (t.carryOut rules block adm) :=
  .bind (proceeds_execute t) fun o => .bind (proceeds_settle t o) fun _ => .pure _

theorem proceeds_process (gasAvailable : Nat) : Proceeds (t.process rules block gasAvailable) := fun w => by
  unfold process
  split
  · exact .refl
  · split
    · next hr => exact (proceeds_carryOut t).ok hr
    · next hr => exact (proceeds_carryOut t).error hr

private theorem proceeds_processInBlock (cumulativeGas : Nat) : Proceeds
    (t.processInBlock rules block cumulativeGas) :=
  .bind (proceeds_process t _) fun _ => .bind (fun _ => .refl) fun _ => .pure _

private theorem proceeds_processAll (ts : List SignedTransaction) (index cumulativeGas : Nat) :
    Proceeds (processAll rules block index cumulativeGas ts) := by
  induction ts generalizing index cumulativeGas with
  | nil => exact .pure _
  | cons t ts ih =>
    intro w
    unfold processAll
    split
    · next hr => exact (proceeds_processInBlock t _).error hr
    · next receipt w₁ hr =>
      have hrest := (ih (index + 1) receipt.cumulativeGas.toNat).bind fun receipts => .pure (receipt :: receipts)
      exact ((proceeds_processInBlock t _).ok hr).trans (hrest w₁)

variable {t : SignedTransaction} {ts : List SignedTransaction} {w w' : World} {index cumulativeGas : Nat}

theorem exists_process {receipt : Receipt} (h : t.processInBlock rules block cumulativeGas w = .ok receipt w') :
    ∃ gasAvailable outcome, t.process rules block gasAvailable w = .ok outcome w' := by
  obtain ⟨outcome, w₁, hprocess, h⟩ := World.of_bind_ok h
  cases h
  exact ⟨_, outcome, hprocess⟩

/-- What every transaction that is included keeps holds when all of a block are. -/
theorem processAll_preserves {P : World → Prop} {receipts : List Receipt}
    (hstep : ∀ {t : SignedTransaction} {gasAvailable : Nat} {outcome : TransactionOutcome} {w w' : World}, P w →
      t.process rules block gasAvailable w = .ok outcome w' → P w')
    (hw : P w) (h : processAll rules block index cumulativeGas ts w = .ok receipts w') : P w' := by
  induction ts generalizing index cumulativeGas w receipts with
  | nil =>
    cases h
    exact hw
  | cons t ts ih =>
    unfold processAll at h
    split at h
    · cases h
    · next receipt w₁ hfirst =>
      obtain ⟨gasAvailable, outcome, hprocess⟩ := exists_process hfirst
      obtain ⟨rest, w₂, hrest, h⟩ := World.of_bind_ok h
      cases h
      exact ih (hstep hw hprocess) hrest

end SignedTransaction

theorem World.Event.leads (e : World.Event) (w : World) : Leads w (e.run w) := by
  cases e with
  | transaction rules block gasAvailable t =>
    have h : Proceeds (t.process rules block gasAvailable) := t.proceeds_process gasAvailable
    simp only [run]
    split
    · next hr => exact h.ok hr
    · next hr => exact h.error hr
  | rewards rules h ommers =>
    rw [run, ← World.left_eq_after]
    exact World.proceeds_payRewards h ommers w

/-! ### Blocks -/

namespace Block

variable {b : Block} {w w' : World} {outcome : BlockOutcome}

/-- A block that was run: its transactions were included one after another, and its rewards paid. -/
theorem execute_ok (h : b.execute rules block w = .ok outcome w') :
    ∃ w₁, SignedTransaction.processAll rules block 0 0 b.transactions w = .ok outcome.receipts w₁ ∧
      World.payRewards rules b.header b.ommers w₁ = .ok () w' ∧
      outcome.gasUsed = (outcome.receipts.getLast?.map fun r => r.cumulativeGas.toNat).getD 0 ∧
      outcome.bloom = outcome.receipts.foldl (fun bloom r => bloom ||| r.bloom) 0 ∧
      outcome.transactionsRoot = b.computeTransactionsRoot ∧ outcome.stateRoot = w'.stateRoot := by
  obtain ⟨receipts, w₁, hall, h⟩ := World.of_bind_ok h
  split at h
  · cases h
  · next hpay =>
    cases h
    exact ⟨w₁, hall, hpay, rfl, rfl, rfl, rfl⟩

private theorem leads_of_execute (h : b.execute rules block w = .ok outcome w') : Leads w w' := by
  obtain ⟨w₁, hall, hpay, -⟩ := execute_ok h
  exact ((SignedTransaction.proceeds_processAll _ _ _).ok hall).trans ((World.proceeds_payRewards _ _).ok hpay)

end Block

namespace Chain

variable {s : Schedule} {genesis b : Block} {world : World} {c c' : Chain} {blocks : List Block}

private theorem leads_of_append (h : c.append b = .ok c') : Leads c.world c'.world := by
  obtain ⟨-, -, outcome, w, hrun, -, rfl⟩ := append_eq_ok_iff.mp h
  exact Block.leads_of_execute hrun

theorem Grown.leads (hc : Grown s genesis world c blocks) : Leads world c.world := by
  induction hc with
  | start h =>
    obtain ⟨-, rfl⟩ := ofGenesisBlock_eq_ok_iff.mp h
    exact .refl
  | append _ h ih => exact ih.trans (leads_of_append h)

end Chain

end StateTransition
