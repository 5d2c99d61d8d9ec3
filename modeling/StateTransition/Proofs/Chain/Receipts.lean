import StateTransition.Proofs.Block.Receipt
import StateTransition.Proofs.Chain.Course
import StateTransition.Proofs.Chain.Failure
import StateTransition.Proofs.Chain.Gas

/-! What the receipts of a block tell of gas and logs. Every transaction is charged for some gas, and for no more
than the block has left, so that the sums that the receipts tell grow from one to the next and fit in a count. -/
namespace StateTransition

variable {f : Fork} {rules : Rules} {block : BlockEnv}

namespace Rules

/-- At most one half of the gas used is given back. -/
private theorem two_le_refundQuotient (f : Fork) : 2 ≤ (ofFork f).refundQuotient := by
  cases f <;> decide

private theorem le_intrinsicGas (rules : Rules) (t : Transaction) : 21000 ≤ rules.intrinsicGas t := by
  unfold intrinsicGas
  dsimp only
  omega

end Rules

namespace SignedTransaction

/-- Transactions that are included one after another in a block, where `cumulativeGas` was used before, with what
each of them led to and its receipt. The sums of gas are of numbers without a bound. -/
inductive Included (rules : Rules) (block : BlockEnv) : (cumulativeGas : Nat) → World → List SignedTransaction →
    List TransactionOutcome → List Receipt → World → Prop
  | nil (cumulativeGas : Nat) (w : World) : Included rules block cumulativeGas w [] [] [] w
  | cons {cumulativeGas : Nat} {w w₁ w₂ : World} {t : SignedTransaction} {ts : List SignedTransaction}
    {outcome : TransactionOutcome} {outcomes : List TransactionOutcome} {receipt : Receipt} {receipts : List Receipt}
    (hprocess : t.process rules block (block.gasLimit.toNat - cumulativeGas) w = .ok outcome w₁)
    (htype : receipt.type = t.body.type) (hlogs : receipt.logs = outcome.logs)
    (hgas : receipt.cumulativeGas.toNat = cumulativeGas + outcome.gasUsed)
    (hrest : Included rules block (cumulativeGas + outcome.gasUsed) w₁ ts outcomes receipts w₂) :
    Included rules block cumulativeGas w (t :: ts) (outcome :: outcomes) (receipt :: receipts) w₂

variable {w w₁ w' : World} {t : SignedTransaction} {ts : List SignedTransaction} {outcome : TransactionOutcome}
  {outcomes : List TransactionOutcome} {receipt : Receipt} {receipts : List Receipt} {index cumulativeGas : Nat}

private theorem gasUsed_pos {gasAvailable : Nat}
    (h : t.process (Rules.ofFork f) block gasAvailable w = .ok outcome w') :
    0 < outcome.gasUsed := by
  have hleast := (gasUsed_bounds h).1
  have hintrinsic := (Rules.ofFork f).le_intrinsicGas t.body
  have hhalf : (Rules.ofFork f).intrinsicGas t.body / (Rules.ofFork f).refundQuotient ≤
      (Rules.ofFork f).intrinsicGas t.body / 2 :=
    Nat.div_le_div_left (Rules.two_le_refundQuotient f) (by decide)
  omega

/-- What is charged in a block stays within its limit. -/
private theorem add_gasUsed_le (hle : cumulativeGas ≤ block.gasLimit.toNat)
    (h : t.process rules block (block.gasLimit.toNat - cumulativeGas) w = .ok outcome w') :
    cumulativeGas + outcome.gasUsed ≤ block.gasLimit.toNat := by
  obtain ⟨-, hused, havailable⟩ := gasUsed_bounds h
  omega

private theorem processInBlock_ok (h : t.processInBlock rules block cumulativeGas w = .ok receipt w') :
    ∃ outcome result, t.process rules block (block.gasLimit.toNat - cumulativeGas) w = .ok outcome w' ∧
      receipt = .ofLogs t.body.type result (cumulativeGas + outcome.gasUsed).toUInt64 outcome.logs := by
  obtain ⟨outcome, w₁, hprocess, h⟩ := World.of_bind_ok h
  cases h
  exact ⟨outcome, _, hprocess, rfl⟩

private theorem processAll_cons_ok (h : processAll rules block index cumulativeGas (t :: ts) w = .ok receipts w') :
    ∃ receipt rest w₁, t.processInBlock rules block cumulativeGas w = .ok receipt w₁ ∧
      processAll rules block (index + 1) receipt.cumulativeGas.toNat ts w₁ = .ok rest w' ∧
      receipts = receipt :: rest := by
  unfold processAll at h
  split at h
  · cases h
  · next receipt w₁ hfirst =>
    obtain ⟨rest, w₂, hrest, h⟩ := World.of_bind_ok h
    cases h
    exact ⟨receipt, rest, w₁, hfirst, hrest, rfl⟩

private theorem processInBlock_of_process (hstatus : rules.statusReceipts = true)
    (h : t.process rules block (block.gasLimit.toNat - cumulativeGas) w = .ok outcome w') :
    t.processInBlock rules block cumulativeGas w = .ok (.ofLogs t.body.type (.status outcome.failure.isNone)
      (cumulativeGas + outcome.gasUsed).toUInt64 outcome.logs) w' := by
  simp only [processInBlock, bind, EStateM.bind, h, hstatus]
  rfl

private theorem processAll_cons_of_ok (hfirst : t.processInBlock rules block cumulativeGas w = .ok receipt w₁)
    (hrest : processAll rules block (index + 1) receipt.cumulativeGas.toNat ts w₁ = .ok receipts w') :
    processAll rules block index cumulativeGas (t :: ts) w = .ok (receipt :: receipts) w' := by
  simp only [processAll, hfirst, bind, EStateM.bind, hrest]
  rfl

/-- No sum of gas is too much for a count, since a block's limit is none. -/
private theorem included_of_processAll (hle : cumulativeGas ≤ block.gasLimit.toNat)
    (h : processAll rules block index cumulativeGas ts w = .ok receipts w') :
    (∃ outcomes, Included rules block cumulativeGas w ts outcomes receipts w') ∧
      ∀ r ∈ receipts, r.bloom = Log.bloomOf r.logs := by
  induction ts generalizing index cumulativeGas w receipts with
  | nil =>
    cases h
    exact ⟨⟨[], .nil _ _⟩, List.forall_mem_nil _⟩
  | cons t ts ih =>
    obtain ⟨receipt, rest, w₁, hfirst, hrest, rfl⟩ := processAll_cons_ok h
    obtain ⟨outcome, result, hprocess, rfl⟩ := processInBlock_ok hfirst
    have hfits := add_gasUsed_le hle hprocess
    have hgas : (cumulativeGas + outcome.gasUsed).toUInt64.toNat = cumulativeGas + outcome.gasUsed :=
      UInt64.toNat_ofNat_of_lt' (Nat.lt_of_le_of_lt hfits block.gasLimit.toNat_lt)
    have hsum : (Receipt.ofLogs t.body.type result (cumulativeGas + outcome.gasUsed).toUInt64
        outcome.logs).cumulativeGas.toNat = cumulativeGas + outcome.gasUsed := hgas
    rw [hsum] at hrest
    obtain ⟨⟨outcomes, hincluded⟩, hblooms⟩ := ih hfits hrest
    exact ⟨⟨outcome :: outcomes, .cons hprocess rfl rfl hgas hincluded⟩, List.forall_mem_cons.mpr ⟨rfl, hblooms⟩⟩

namespace Included

private theorem length_eq (h : Included rules block cumulativeGas w ts outcomes receipts w') :
    receipts.length = ts.length := by
  induction h with
  | nil => rfl
  | cons _ _ _ _ _ ih => exact congrArg (· + 1) ih

private theorem increasing (h : Included (Rules.ofFork f) block cumulativeGas w ts outcomes receipts w') :
    (cumulativeGas :: receipts.map fun r => r.cumulativeGas.toNat).Pairwise (· < ·) := by
  induction h with
  | nil => exact List.pairwise_singleton _ _
  | @cons cumulativeGas _ _ _ _ _ outcome _ _ _ hprocess _ _ hgas _ ih =>
    have hpos := gasUsed_pos hprocess
    rw [List.map_cons, hgas]
    refine List.pairwise_cons.mpr ⟨fun n hn => ?_, ih⟩
    rcases List.mem_cons.mp hn with rfl | hlater
    · omega
    · have hnext := (List.pairwise_cons.mp ih).1 n hlater
      omega

/-- The last receipt tells of the gas of all transactions, or there is none. -/
private theorem last_eq (h : Included rules block cumulativeGas w ts outcomes receipts w') :
    (receipts.getLast?.map fun r => r.cumulativeGas.toNat).getD cumulativeGas =
      cumulativeGas + (outcomes.map TransactionOutcome.gasUsed).sum := by
  induction h with
  | nil => rfl
  | cons _ _ _ hgas _ ih =>
    rw [List.getLast?_cons, Option.map_some, Option.getD_some, List.map_cons, List.sum_cons, ← Nat.add_assoc, ← ih,
      ← hgas, Option.getD_map]

private theorem sum_le (h : Included rules block cumulativeGas w ts outcomes receipts w')
    (hle : cumulativeGas ≤ block.gasLimit.toNat) :
    cumulativeGas + (outcomes.map TransactionOutcome.gasUsed).sum ≤ block.gasLimit.toNat := by
  induction h with
  | nil => exact hle
  | cons hprocess _ _ _ _ ih =>
    rw [List.map_cons, List.sum_cons, ← Nat.add_assoc]
    exact ih (add_gasUsed_le hle hprocess)

end Included

end SignedTransaction

namespace Block

open SignedTransaction

variable {b : Block} {w w' : World} {result : BlockOutcome}

private theorem execute_of_ok {receipts : List Receipt} {w₁ : World}
    (hall : processAll rules block 0 0 b.transactions w = .ok receipts w₁)
    (hpay : World.payRewards rules b.header b.ommers w₁ = .ok () w') :
    ∃ result, b.execute rules block w = .ok result w' ∧ result.receipts = receipts := by
  simp only [execute, bind, EStateM.bind, hall, hpay]
  exact ⟨_, rfl, rfl⟩

/-! ### Two transfers -/

namespace Sample

open SignedTransaction.Sample

/-- The same transfer once more. -/
def secondTransfer : SignedTransaction where
  body := { transfer.body with nonce := 1 }
  v := 1
  r := 89565891926547004231252920425935692360644145829622209833684329913297188986597
  s := 24597618188175670954364320051942134531439346955168573634552833649634464415230

/-- A world in which the transfers go to an account whose code writes a log. -/
def recordingWorld : World :=
  { World.empty with
    accounts := (World.empty.accounts.insert payer ⟨0, 1000000, emptyCodeHash⟩).insert 0x10 ⟨0, 0, 1⟩
    codes := World.empty.codes.insert 1 ⟨#[0x60, 0, 0x60, 0, 0xa0]⟩ }

/-- What is left of the payer after the first transfer. -/
def payerBetween : Account := ⟨1, 807566, emptyCodeHash⟩

/-- A block of both. -/
def transfers : Block where
  header := ⟨0, 0, 0x99, 0, 0, 0, 0, 0, 1, 100000, 42762, 0, [], 0, 0, some 7⟩
  transactions := [transfer, secondTransfer]
  ommers := []

def smallBlock : BlockEnv := { londonBlock with gasLimit := 100000 }

private theorem validate_transfer_recording :
    transfer.validate (Rules.ofFork .london) smallBlock recordingWorld 100000 = .ok ⟨payer, 21000, 9⟩ :=
  validate_congr validate_transfer (by decide +kernel)

private theorem validate_secondTransfer {w : World} (hw : w.accountOrEmpty payer = payerBetween) :
    secondTransfer.validate (Rules.ofFork .london) smallBlock w 78619 = .ok ⟨payer, 21000, 9⟩ := by
  have hplain : secondTransfer.validate (Rules.ofFork .london) smallBlock
      (World.empty.setAccount payer (some payerBetween)) 78619 = .ok ⟨payer, 21000, 9⟩ :=
    validate_of_numbers (by decide +kernel)
  refine validate_congr hplain ?_
  rw [hw, World.accountOrEmpty_setAccount, if_pos rfl]
  rfl

end Sample

/-- Under the rules of every upgrade: a block that is run has one receipt for each transaction, in order. What the
receipts tell of gas begins above zero, grows strictly, each time by what the next transaction is charged, and ends
with what the block used, which is within its limit. The block's filter is that of all logs of its receipts. -/
theorem receipts_account (h : b.execute (Rules.ofFork f) block w = .ok result w') :
    (∃ outcomes w₁, Included (Rules.ofFork f) block 0 w b.transactions outcomes result.receipts w₁ ∧
        result.gasUsed = (outcomes.map TransactionOutcome.gasUsed).sum) ∧
      result.receipts.length = b.transactions.length ∧
      (0 :: result.receipts.map fun r => r.cumulativeGas.toNat).Pairwise (· < ·) ∧
      result.gasUsed = (result.receipts.getLast?.map fun r => r.cumulativeGas.toNat).getD 0 ∧
      result.gasUsed ≤ block.gasLimit.toNat ∧
      result.bloom = Log.bloomOf (result.receipts.flatMap Receipt.logs) := by
  obtain ⟨w₁, hall, -, hused, hbloom, -⟩ := execute_ok h
  obtain ⟨⟨outcomes, hincluded⟩, hblooms⟩ := included_of_processAll (Nat.zero_le _) hall
  have hsum : result.gasUsed = (outcomes.map TransactionOutcome.gasUsed).sum := by
    rw [hused, hincluded.last_eq, Nat.zero_add]
  have hlimit := hincluded.sum_le (Nat.zero_le _)
  refine ⟨⟨outcomes, w₁, hincluded, hsum⟩, hincluded.length_eq, hincluded.increasing, hused, by omega, ?_⟩
  rw [hbloom, ← Log.bloomOf_flatMap]
  exact List.foldl_ext _ _ _ fun bloom r hr => by rw [hblooms r hr]

open Sample SignedTransaction.Sample

/-- Two transfers to an account whose code writes a log, each of which is charged 381 beyond the least. -/
theorem receipts_account_of_two_transfers :
    ∃ result w', transfers.execute (Rules.ofFork .london) smallBlock recordingWorld = .ok result w' ∧
      result.receipts.map (fun r => (r.cumulativeGas.toNat, r.logs.length)) = [(21381, 1), (42762, 1)] ∧
      result.gasUsed = 42762 ∧ result.gasUsed ≤ smallBlock.gasLimit.toNat ∧
      result.bloom = Log.bloomOf (result.receipts.flatMap Receipt.logs) := by
  have hrun : endsWith (fun (first, between, second) _ => between.accountOrEmpty payer = payerBetween ∧
      first.gasUsed = 21381 ∧ second.gasUsed = 21381 ∧ first.logs.length = 1 ∧ second.logs.length = 1) ((do
        let first ← transfer.carryOut (Rules.ofFork .london) smallBlock ⟨payer, 21000, 9⟩
        let between ← get
        let second ← secondTransfer.carryOut (Rules.ofFork .london) smallBlock ⟨payer, 21000, 9⟩
        World.payRewards (Rules.ofFork .london) transfers.header []
        return (first, between, second) : WorldM _) recordingWorld) := by
    decide +kernel
  obtain ⟨⟨first, between, second⟩, w', hends, htest⟩ := exists_of_endsWith hrun
  obtain ⟨hpayer, hgas₁, hgas₂, hlogs₁, hlogs₂⟩ := of_decide_eq_true htest
  obtain ⟨_, w₁, hfirst, hends⟩ := World.of_bind_ok hends
  obtain ⟨_, w₂, hget, hends⟩ := World.of_bind_ok hends
  cases hget
  obtain ⟨_, w₃, hsecond, hends⟩ := World.of_bind_ok hends
  obtain ⟨_, w₄, hpay, hends⟩ := World.of_bind_ok hends
  cases hends
  have hprocess₁ : transfer.process (Rules.ofFork .london) smallBlock (smallBlock.gasLimit.toNat - 0)
      recordingWorld = .ok first between := process_of_valid validate_transfer_recording hfirst
  have hprocess₂ : secondTransfer.process (Rules.ofFork .london) smallBlock (smallBlock.gasLimit.toNat - 21381)
      between = .ok second w₃ := process_of_valid (validate_secondTransfer hpayer) hsecond
  have hincluded₁ := processInBlock_of_process rfl hprocess₁
  have hincluded₂ := processInBlock_of_process rfl hprocess₂
  rw [hgas₁] at hincluded₁
  rw [hgas₂] at hincluded₂
  have hnone : processAll (Rules.ofFork .london) smallBlock 2 42762 [] w₃ = .ok [] w₃ := rfl
  have hall := processAll_cons_of_ok hincluded₁ (processAll_cons_of_ok hincluded₂ hnone)
  obtain ⟨result, hresult, hreceipts⟩ := execute_of_ok (b := transfers) hall hpay
  obtain ⟨-, -, -, hlast, hlimit, hbloom⟩ := receipts_account hresult
  rw [hreceipts] at hlast
  refine ⟨result, w', hresult, ?_, hlast, hlimit, hbloom⟩
  rw [hreceipts]
  simp [Receipt.ofLogs, hlogs₁, hlogs₂]

end Block

end StateTransition
