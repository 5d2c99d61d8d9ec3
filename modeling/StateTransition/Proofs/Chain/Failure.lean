import StateTransition.Proofs.Chain.Conservation
import StateTransition.Proofs.Keccak
import StateTransition.Proofs.Machine.Undone
import StateTransition.Proofs.World.Emptiness
import StateTransition.Proofs.World.Locality

/-! Transactions that fail. Whatever their code did, only the fee is left of it: the sender has paid for the
gas that is charged, the coinbase has its part of that, and no other account is touched. -/
namespace StateTransition

variable {rules : Rules} {block : BlockEnv} {w w₁ w' : World}

namespace World

variable {a coinbase : Address} {amount fee : Word}

private theorem code_of_plain (h : (w.accountOrEmpty a).hasCode = false) : w.code a = ByteArray.empty := by
  unfold accountOrEmpty at h
  cases hr : w.account? a with
  | none => rw [code, hr]
  | some r =>
    rw [hr] at h
    exact code_eq_empty hr (by simpa [Account.hasCode] using h)

private theorem toNat_balance_addBalance (h : addBalance a amount w = .ok () w') :
    (w'.balance a).toNat = (w.balance a).toNat + amount.toNat := by
  obtain ⟨sum, hsum, rfl⟩ := addBalance_eq_ok_iff.mp h
  rw [balance_setBalance, if_pos rfl]
  exact Word.toNat_of_add? hsum

private theorem balance_of_isEmptyAccount (h : w.isEmptyAccount a = true) : w.balance a = 0 := by
  rw [balance, accountOrEmpty]
  cases hr : w.account? a with
  | none => rfl
  | some r =>
    have hempty : (r.nonce = 0 ∧ r.balance = 0) ∧ r.codeHash = emptyCodeHash := by
      simpa [isEmptyAccount, hr, Account.isEmpty] using h
    exact hempty.1.2

/-! ### Paying the coinbase -/

private theorem UnchangedBeside.payFee (h : World.payFee rules coinbase fee w = .ok () w') :
    UnchangedBeside {coinbase} w w' := by
  rcases payFee_cases h with ⟨-, hadd⟩ | ⟨-, rfl | ⟨-, rfl⟩⟩
  · exact .addBalance hadd
  · exact .refl w'
  · exact .destroyAccount coinbase w

private theorem toNat_balance_payFee (h : payFee rules coinbase fee w = .ok () w') :
    (w'.balance coinbase).toNat = (w.balance coinbase).toNat + fee.toNat := by
  rcases payFee_cases h with ⟨-, hadd⟩ | ⟨rfl, rfl | ⟨hempty, rfl⟩⟩
  · exact toNat_balance_addBalance hadd
  · rfl
  · rw [balance_of_isEmptyAccount hempty, balance, accountOrEmpty, account?_destroyAccount, if_pos rfl]
    rfl

/-- Where nothing was destroyed and nothing is touched there is nothing to remove. -/
private theorem sweep_of_undone {o : Outcome} {w₀ : World} (h : o.Undone w₀ w₁) : w.sweep rules o = w := by
  unfold sweep
  rw [h.destroyed, h.touched]
  dsimp only
  split <;> rfl

/-! ### The sender -/

/-- An account has sent a transaction and has paid a fee for it. Its code and its storage are as they
were. -/
structure Sent (a : Address) (fee : Nat) (w w' : World) : Prop where
  nonce : (w'.accountOrEmpty a).nonce.toNat = (w.accountOrEmpty a).nonce.toNat + 1
  balance : (w'.balance a).toNat + fee = (w.balance a).toNat
  codeHash : (w'.accountOrEmpty a).codeHash = (w.accountOrEmpty a).codeHash
  slots : w'.slots a = w.slots a

namespace Sent

variable {paid : Nat} {s : Set Address}

private theorem of_ok (hnonce : incrementNonce a w = .ok () w₁) (hfee : subBalance a fee w₁ = .ok () w') :
    Sent a fee.toNat w w' where
  nonce := by
    rw [← toNat_nonce_incrementNonce hnonce]
    obtain ⟨rest, -, rfl⟩ := subBalance_eq_ok_iff.mp hfee
    rw [setBalance, updateAccount, accountOrEmpty_setAccount, if_pos rfl]
    rfl
  balance := by rw [toNat_balance_subBalance hfee, balance_incrementNonce hnonce]
  codeHash := by
    obtain ⟨-, rfl⟩ := incrementNonce_ok hnonce
    obtain ⟨rest, -, rfl⟩ := subBalance_eq_ok_iff.mp hfee
    rw [setBalance, updateAccount, accountOrEmpty_setAccount, if_pos rfl, accountOrEmpty_setAccount, if_pos rfl]
    rfl
  slots := by
    obtain ⟨-, rfl⟩ := incrementNonce_ok hnonce
    obtain ⟨rest, -, rfl⟩ := subBalance_eq_ok_iff.mp hfee
    rw [setBalance, updateAccount, slots_setAccount, slots_setAccount]

private theorem unchanged (h : Sent a paid w w₁) (hu : w₁.UnchangedBeside s w') (ha : a ∉ s) : Sent a paid w w' where
  nonce := by rw [hu.accountOrEmpty ha, h.nonce]
  balance := by rw [hu.balance ha, h.balance]
  codeHash := by rw [hu.accountOrEmpty ha, h.codeHash]
  slots := by rw [hu.slots a ha, h.slots]

/-- A part of the fee is paid back. -/
private theorem payBack {rest : Nat} (h : Sent a (rest + amount.toNat) w w₁)
    (hback : addBalance a amount w₁ = .ok () w') :
    Sent a rest w w' := by
  have hbalance := h.balance
  have hadded := toNat_balance_addBalance hback
  obtain ⟨sum, -, rfl⟩ := addBalance_eq_ok_iff.mp hback
  have hrecord : (w₁.setBalance a sum).accountOrEmpty a = { w₁.accountOrEmpty a with balance := sum } := by
    rw [setBalance, updateAccount, accountOrEmpty_setAccount, if_pos rfl]
    rfl
  refine ⟨by rw [hrecord, h.nonce], by omega, by rw [hrecord, h.codeHash], ?_⟩
  rw [setBalance, updateAccount, slots_setAccount, h.slots]

end Sent

end World

namespace SignedTransaction

variable {t : SignedTransaction} {gasAvailable charged : Nat} {a : Admission} {o : Outcome}

private theorem gasPrice_of_validate (h : t.validate rules block w gasAvailable = .ok a) :
    t.body.gasPrice block.baseFee = .ok a.gasPrice := by
  obtain ⟨sender, -, h⟩ := ok_of_bind h
  obtain ⟨-, h⟩ := ok_of_guard h
  obtain ⟨-, h⟩ := ok_of_guard h
  obtain ⟨price, hprice, h⟩ := ok_of_bind h
  obtain ⟨⟨⟩, -, h⟩ := ok_of_bind h
  cases h
  exact hprice

/-- A world in which the sender has paid for all gas of a transaction, and nothing else is new. -/
structure Prepaid (t : SignedTransaction) (a : Admission) (w w' : World) : Prop where
  wellFormed : w.WellFormed → w'.WellFormed
  sent : w.Sent a.sender (gasCost t.body.gasLimit.toNat a.gasPrice).toNat w'
  others : w.UnchangedBeside {a.sender} w'

theorem prepaid_of_ok {w₂ : World} (hnonce : World.incrementNonce a.sender w.beginTransaction = .ok () w₂)
    (hfee : World.subBalance a.sender (gasCost t.body.gasLimit.toNat a.gasPrice) w₂ = .ok () w₁) :
    t.Prepaid a w w₁ := by
  have hbegun : w.UnchangedBeside {a.sender} w.beginTransaction := .of_agrees ⟨rfl, rfl⟩
  have hsent : w.beginTransaction.Sent a.sender (gasCost t.body.gasLimit.toNat a.gasPrice).toNat w₁ :=
    .of_ok hnonce hfee
  refine ⟨fun hw => ?_, ?_, ?_⟩
  · exact (World.Evolves.subBalance hfee).wellFormed
      ((World.Evolves.incrementNonce hnonce).wellFormed hw.beginTransaction)
  · exact ⟨hsent.nonce, hsent.balance, hsent.codeHash, hsent.slots⟩
  · exact (hbegun.trans (.incrementNonce hnonce)).trans (.subBalance hfee)

/-- Where nothing is left of a message the sender gets back the price of the gas that is left, and the
coinbase is paid for the rest. -/
private theorem settle_undone {w₀ : World} (hundone : o.Undone w₀ w₁)
    (h : t.settle rules block a o w₁ = .ok charged w') :
    charged = t.body.gasLimit.toNat - o.gasLeft ∧
      ∃ w₂, World.addBalance a.sender (gasCost o.gasLeft a.gasPrice) w₁ = .ok () w₂ ∧
        World.payFee rules block.coinbase (gasCost charged (a.gasPrice - block.baseFee.getD 0)) w₂ =
          .ok () w' := by
  obtain ⟨refund, w₂, w₃, hrefund, hcharged, hback, hfee, rfl⟩ := settle_cases h
  rw [refundOf, hundone.refund, Nat.min_zero] at hrefund
  subst hrefund
  rw [World.sweep_of_undone hundone]
  exact ⟨hcharged, w₂, hback, hfee⟩

/-- A transaction that failed has changed the accounts of its sender and of the coinbase alone. If these
are two, the sender has the next nonce and has paid for the gas that is charged at the price per gas, its
code and storage are as they were, and the coinbase has got for that gas what the price is above the base
fee. There are no logs, and all gas is charged where the code came to a halt. -/
theorem failure_costs_fee (hw : World.Reachable w) {outcome : TransactionOutcome}
    (h : t.process rules block gasAvailable w = .ok outcome w') (hfailed : outcome.failure ≠ none) :
    ∃ price : Word, t.body.gasPrice block.baseFee = .ok price ∧
      (∀ b, b ≠ outcome.sender → b ≠ block.coinbase →
        w'.account? b = w.account? b ∧ w'.slots b = w.slots b) ∧
      (outcome.sender ≠ block.coinbase →
        w.Sent outcome.sender (outcome.gasUsed * price.toNat) w' ∧
          w'.code outcome.sender = w.code outcome.sender ∧
          (block.baseFee.getD 0).toNat ≤ price.toNat ∧
          (w'.balance block.coinbase).toNat = (w.balance block.coinbase).toNat +
            outcome.gasUsed * (price.toNat - (block.baseFee.getD 0).toNat)) ∧
      outcome.logs = [] ∧
      ∀ cause, outcome.failure = some (.halt cause) → outcome.gasUsed = t.body.gasLimit.toNat := by
  obtain ⟨a, o, w₁, hvalid, hexecute, hsettle, hfailure, hsender, hlogs⟩ := process_ok h
  have hadmitted := validate_ok hvalid
  obtain ⟨u, w₀, hnonce, htaken, hran⟩ := execute_cases hexecute
  have hprepaid : t.Prepaid a w w₀ := prepaid_of_ok hnonce htaken
  have hundone := Message.execute_undone (hprepaid.wellFormed hw.wellFormed) hran (hfailure ▸ hfailed)
  have hleft : o.gasLeft ≤ t.body.gasLimit.toNat :=
    Nat.le_trans (Message.execute_ok hran).gas (Nat.sub_le _ _)
  obtain ⟨hcharged, w₂, hback, hfee⟩ := settle_undone hundone hsettle
  have hundo : ∀ s, w₀.UnchangedBeside s w₁ := fun s => .of_agrees hundone.agrees
  have hothers : w.UnchangedBeside {a.sender} w₂ :=
    (hprepaid.others.trans (hundo _)).trans (.addBalance hback)
  have hpaid : w₂.UnchangedBeside {block.coinbase} w' := .payFee hfee
  rw [hsender, hlogs, hfailure]
  refine ⟨a.gasPrice, gasPrice_of_validate hvalid, fun b hb hcoinbase => ?_, fun hne => ?_, hundone.logs,
    fun cause hcause => ?_⟩
  · exact ⟨(hpaid.account b hcoinbase).trans (hothers.account b hb),
      (hpaid.slots b hcoinbase).trans (hothers.slots b hb)⟩
  · have hlimit := t.body.gasLimit.toNat_lt
    have hle : outcome.gasUsed ≤ t.body.gasLimit.toNat := hcharged ▸ Nat.sub_le _ _
    have hsum : t.body.gasLimit.toNat = outcome.gasUsed + o.gasLeft := by omega
    have hsent := hprepaid.sent.unchanged (hundo ∅) (Set.notMem_empty _)
    -- the price of all gas is that of the gas charged and of the gas left
    rw [toNat_gasCost (Nat.le_refl _) hadmitted.fits hlimit, hsum, Nat.add_mul,
      ← toNat_gasCost hleft hadmitted.fits hlimit] at hsent
    have hsent := (hsent.payBack hback).unchanged hpaid hne
    have hplain := hadmitted.allowed.plain
    have hplain' := (Account.hasCode_congr hsent.codeHash).trans hplain
    refine ⟨hsent, ?_, hadmitted.baseFee, ?_⟩
    · rw [World.code_of_plain hplain, World.code_of_plain hplain']
    · rw [World.toNat_balance_payFee hfee, hothers.balance (Ne.symm hne),
        toNat_gasCost_sub hle hadmitted.fits hlimit hadmitted.baseFee]
  · rw [hcharged, hundone.gas cause hcause, Nat.sub_zero]

/-! ### A call that halts -/

/-- Of the world only the sender's account matters to whether a transaction is admitted. -/
theorem validate_congr {u : World} (h : t.validate rules block w gasAvailable = .ok a)
    (hu : u.accountOrEmpty a.sender = w.accountOrEmpty a.sender) :
    t.validate rules block u gasAvailable = .ok a := by
  have hsender := (validate_ok h).sender
  unfold validate at h ⊢
  cases hr : rules.recoverSender block.chainId t with
  | error cause =>
    rw [hr] at h
    cases h
  | ok sender =>
    rw [sender_of_recoverSender hr] at hsender
    cases hsender
    rw [hr] at h
    simp only [bind, Except.bind] at h ⊢
    rwa [hu]

namespace Sample

/-- Code that writes a log and halts. -/
def loggingCode : ByteArray := ⟨#[0x60, 0, 0x60, 0, 0xa0, 0xfe]⟩

/-- The world with such code where the transfer goes. -/
def loggingWorld : World := (World.Operation.setCode 0x10 loggingCode).run world

def loggingHash : Hash := 0xfbbc7610910636e94f7ef8f43dbc91e2e0b05826fc11d797d62ba34d52065224

private theorem keccak256_loggingCode : keccak256 loggingCode = loggingHash := by
  change keccak [0x60, 0, 0x60, 0, 0xa0, 0xfe] = loggingHash
  rw [Keccak.keccak_eq_digest]
  decide +kernel

theorem loggingWorld_eq : loggingWorld = World.setAccount 0x10 (some ⟨0, 0, loggingHash⟩)
    { world with codes := world.codes.insertIfNew loggingHash loggingCode } := by
  rw [loggingWorld, World.Operation.run, World.setCode, keccak256_loggingCode]
  rfl

private theorem validate_logging : transfer.validate (Rules.ofFork .london) londonBlock loggingWorld 100000 =
    .ok ⟨payer, 21000, 9⟩ := by
  refine validate_congr validate_transfer ?_
  rw [loggingWorld_eq, World.accountOrEmpty_setAccount, if_neg (by decide)]
  rfl

end Sample

open Sample

/-- A call whose code writes a log and halts takes all 30000 gas. Of the price of 9 wei 7 are burnt. -/
theorem failure_costs_fee_of_log :
    ∃ outcome w', transfer.process (Rules.ofFork .london) londonBlock 100000 loggingWorld = .ok outcome w' ∧
      outcome.failure = some (.halt (.invalidOpcode 0xfe)) ∧ outcome.gasUsed = 30000 ∧ outcome.logs = [] ∧
      (w'.balance payer).toNat + 270000 = 1000000 ∧ (w'.balance 0x99).toNat = 60000 ∧
      w'.account? 0x10 = loggingWorld.account? 0x10 := by
  have hrun : endsWith (fun outcome _ =>
      outcome.sender = payer ∧ outcome.failure = some (.halt (.invalidOpcode 0xfe)))
      (transfer.carryOut (Rules.ofFork .london) londonBlock ⟨payer, 21000, 9⟩ loggingWorld) := by
    rw [loggingWorld_eq]
    decide +kernel
  have hpayer : (loggingWorld.balance payer).toNat = 1000000 := by
    rw [loggingWorld_eq]
    decide +kernel
  have hcoinbase : (loggingWorld.balance 0x99).toNat = 0 := by
    rw [loggingWorld_eq]
    decide +kernel
  obtain ⟨outcome, w', h, htest⟩ := exists_of_endsWith hrun
  obtain ⟨hsender, hfailure⟩ := of_decide_eq_true htest
  have hprocess := process_of_valid validate_logging h
  have hw : World.Reachable loggingWorld := .run (.run .empty _) _
  obtain ⟨price, hprice, hothers, hmoved, hlogs, hgas⟩ := failure_costs_fee hw hprocess (by simp [hfailure])
  rw [hsender] at hothers hmoved
  have hnine : transfer.body.gasPrice londonBlock.baseFee = .ok 9 := by decide
  rw [hnine] at hprice
  cases hprice
  have hused : outcome.gasUsed = 30000 := hgas _ hfailure
  rw [hused] at hmoved
  obtain ⟨hsent, -, -, hpaid⟩ := hmoved (by decide)
  exact ⟨outcome, w', hprocess, hfailure, hused, hlogs, hsent.balance.trans hpayer,
    hpaid.trans (congrArg (· + 60000) hcoinbase), (hothers 0x10 (by decide) (by decide)).1⟩

end SignedTransaction

end StateTransition
