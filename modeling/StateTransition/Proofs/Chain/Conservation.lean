import StateTransition.Proofs.Chain.Settlement

/-! Transactions make no wei. What the sender pays is what the coinbase gets and the base fee, which is
burnt; beside that, only accounts that destroyed themselves can take wei with them. -/
namespace StateTransition

namespace SignedTransaction

variable {t : SignedTransaction} {rules : Rules} {block : BlockEnv} {w w₁ w' : World}
  {gasAvailable : Nat} {a : Admission} {o : Outcome}

theorem refundOf_le (rules : Rules) (gasUsed : Nat) (o : Outcome) : refundOf rules gasUsed o ≤ gasUsed :=
  Nat.le_trans (Nat.min_le_left _ _) (Nat.div_le_self _ _)

theorem toNat_gasCost_sub {gas limit : Nat} {price base : Word} (hle : gas ≤ limit)
    (hfits : limit * price.toNat < wordLimit) (hlimit : limit < countLimit)
    (hbase : base.toNat ≤ price.toNat) :
    (gasCost gas (price - base)).toNat = gas * (price.toNat - base.toNat) := by
  have hdiff : (price - base).toNat = price.toNat - base.toNat := BitVec.toNat_sub_of_le hbase
  have hfits' : limit * (price - base).toNat < wordLimit :=
    Nat.lt_of_le_of_lt (Nat.mul_le_mul_left _ (hdiff ▸ Nat.sub_le _ _)) hfits
  rw [toNat_gasCost hle hfits' hlimit, hdiff]

/-- The price of all gas is what is paid back, what the coinbase gets, and what is burnt. -/
theorem toNat_gasCost_split {limit left refund charged : Nat} {price base : Word}
    (hfits : limit * price.toNat < wordLimit) (hlimit : limit < countLimit)
    (hbase : base.toNat ≤ price.toNat) (hsum : left + refund + charged = limit) :
    (gasCost (left + refund) price).toNat + (gasCost charged (price - base)).toNat +
      base.toNat * charged = (gasCost limit price).toNat := by
  rw [toNat_gasCost (Nat.le_refl _) hfits hlimit, toNat_gasCost (by omega) hfits hlimit,
    toNat_gasCost_sub (by omega) hfits hlimit hbase]
  calc (left + refund) * price.toNat + charged * (price.toNat - base.toNat) + base.toNat * charged
      = (left + refund) * price.toNat + charged * (price.toNat - base.toNat + base.toNat) := by
        rw [Nat.add_assoc, Nat.mul_comm base.toNat, ← Nat.mul_add]
    _ = (left + refund + charged) * price.toNat := by
        rw [Nat.sub_add_cancel hbase, ← Nat.add_mul]
    _ = limit * price.toNat := by rw [hsum]

/-- What is paid back, paid out and burnt is not more than the fee for all gas, and is that fee if no account
was destroyed. -/
private theorem settle_total (hadmitted : t.Admitted rules block w gasAvailable a)
    (hgas : o.gasLeft ≤ t.body.gasLimit.toNat)
    {charged : Nat} (h : t.settle rules block a o w₁ = .ok charged w') :
    let fee := (gasCost t.body.gasLimit.toNat a.gasPrice).toNat
    w'.total + (block.baseFee.getD 0).toNat * charged ≤ w₁.total + fee ∧
      (o.destroyed = ∅ → w'.total + (block.baseFee.getD 0).toNat * charged = w₁.total + fee) := by
  obtain ⟨refund, hrefund, hcharged, w₂, htotal, rfl⟩ := settle_ok h
  have hle : refund ≤ t.body.gasLimit.toNat - o.gasLeft := hrefund ▸ refundOf_le _ _ _
  have hsum : o.gasLeft + refund + charged = t.body.gasLimit.toNat := by omega
  have hcost := toNat_gasCost_split hadmitted.fits t.body.gasLimit.toNat_lt hadmitted.baseFee hsum
  have hafter := World.total_sweep_le rules o w₂
  refine ⟨by omega, fun hd => ?_⟩
  rw [World.total_sweep_of_none rules hd w₂]
  omega

theorem process_total_le (hw : w.WellFormed) {outcome : TransactionOutcome}
    (h : t.process rules block gasAvailable w = .ok outcome w') : w'.total ≤ w.total := by
  obtain ⟨a, o, w₁, hvalid, hexecute, hsettle, -⟩ := process_ok h
  have hexecuted := execute_ok hexecute
  have hbefore := hexecuted.total_le hw
  have hafter := (settle_total (validate_ok hvalid) (hexecuted.gas.trans (Nat.sub_le _ _)) hsettle).1
  omega

/-- The sum of all balances after a transaction, and the base fee that it burnt, are not more than
the sum before. They are the same if no account was destroyed, as when the transaction failed. -/
theorem total_conserved (hw : World.Reachable w) {outcome : TransactionOutcome}
    (h : t.process rules block gasAvailable w = .ok outcome w') :
    w'.total + (block.baseFee.getD 0).toNat * outcome.gasUsed ≤ w.total ∧
      (outcome.failure ≠ none →
        w'.total + (block.baseFee.getD 0).toNat * outcome.gasUsed = w.total) ∧
      ∃ a o w₁, t.validate rules block w gasAvailable = .ok a ∧ t.execute rules block a w = .ok o w₁ ∧
        t.settle rules block a o w₁ = .ok outcome.gasUsed w' ∧
        (o.destroyed = ∅ →
          w'.total + (block.baseFee.getD 0).toNat * outcome.gasUsed = w.total) := by
  obtain ⟨a, o, w₁, hvalid, hexecute, hsettle, hfailure, -⟩ := process_ok h
  have hadmitted := validate_ok hvalid
  have hexecuted := execute_ok hexecute
  obtain ⟨hle, heq⟩ := settle_total hadmitted (hexecuted.gas.trans (Nat.sub_le _ _)) hsettle
  have hbefore := hexecuted.total_le hw.wellFormed
  have hsame : o.destroyed = ∅ →
      w'.total + (block.baseFee.getD 0).toNat * outcome.gasUsed = w.total := fun hd => by
    rw [heq hd, hexecuted.total_eq hw.wellFormed hd]
  exact ⟨by omega, fun hf => hsame (hexecuted.failed (hfailure ▸ hf)), a, o, w₁, hvalid, hexecute, hsettle, hsame⟩

/-! ### A transfer -/

namespace Sample

/-- The account of the least private key. -/
def payer : Address := 721457446580647751014191829380889690493307935711

/-- A transfer of 5 wei that offers 2 wei per gas beyond the base fee, signed with that key. -/
def transfer : SignedTransaction where
  body :=
    { nonce := 0, gasLimit := 30000, target := some 0x10, value := 5, data := []
      kind := .dynamicFee 1 2 10 [] }
  v := 0
  r := 21723422285945534300095108450100539342309850345224422073102312748065181937495
  s := 34937406905306652865471714808358533336715721952182198096776578074102307697540

def londonBlock : BlockEnv := ⟨1, 0, 8000000, 0x99, 0, 1, some 7, []⟩

/-- The world in which the payer has a million wei. -/
def world : World := (World.Operation.setBalance payer 1000000).run .empty

/-- An admission is known by its numbers: the sender is a long computation that must not be done twice. -/
theorem validate_of_numbers {t : SignedTransaction} {sender : Address} {gas : Nat} {price : Word}
    (h : (t.validate rules block w gasAvailable).toOption.any fun a =>
      a.sender.toNat = sender.toNat ∧ a.intrinsicGas = gas ∧ a.gasPrice.toNat = price.toNat) :
    t.validate rules block w gasAvailable = .ok ⟨sender, gas, price⟩ := by
  cases hv : t.validate rules block w gasAvailable with
  | ok a =>
    rw [hv] at h
    obtain ⟨hs, hgas, hp⟩ := of_decide_eq_true h
    have hsender : a.sender = sender := BitVec.eq_of_toNat_eq hs
    have hprice : a.gasPrice = price := BitVec.eq_of_toNat_eq hp
    rw [← hsender, ← hgas, ← hprice]
  | error cause =>
    rw [hv] at h
    cases h

theorem validate_transfer :
    transfer.validate (Rules.ofFork .london) londonBlock world 100000 = .ok ⟨payer, 21000, 9⟩ :=
  validate_of_numbers (by decide +kernel)

end Sample

open Sample

/-- The coinbase gets 42000 wei of the price of a transfer, and 147000 are burnt. -/
theorem total_conserved_by_transfer :
    ∃ outcome w', transfer.process (Rules.ofFork .london) londonBlock 100000 world = .ok outcome w' ∧
      outcome.gasUsed = 21000 ∧ w'.balance payer = 810995 ∧ w'.balance 0x10 = 5 ∧
      w'.balance 0x99 = 42000 ∧ w'.total + 147000 ≤ world.total := by
  have hrun : endsWith (fun outcome w' => outcome.gasUsed = 21000 ∧ w'.balance payer = 810995 ∧
      w'.balance 0x10 = 5 ∧ w'.balance 0x99 = 42000)
      (transfer.carryOut (Rules.ofFork .london) londonBlock ⟨payer, 21000, 9⟩ world) := by
    decide +kernel
  have hburnt : (londonBlock.baseFee.getD 0).toNat * 21000 = 147000 := by decide
  obtain ⟨outcome, w', h, htest⟩ := exists_of_endsWith hrun
  obtain ⟨hgas, hpayer, htarget, hcoinbase⟩ := of_decide_eq_true htest
  have hprocess := process_of_valid validate_transfer h
  have hw : World.Reachable world := .run .empty _
  have htotal := (total_conserved hw hprocess).1
  rw [hgas, hburnt] at htotal
  exact ⟨outcome, w', hprocess, hgas, hpayer, htarget, hcoinbase, htotal⟩

end SignedTransaction

end StateTransition
