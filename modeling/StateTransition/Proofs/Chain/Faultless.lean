import StateTransition.Proofs.Chain.Conservation
import StateTransition.Proofs.Chain.Gas
import StateTransition.Proofs.Machine.Budget
import StateTransition.Proofs.Machine.Solvent

/-! A transaction is refused for what it is or carried out to its end. What its sender has was checked to
pay for all that is taken, and what is paid in the end was taken before. -/
namespace StateTransition

open World (Supports)

variable {rules : Rules} {block : BlockEnv} {w w₁ w' : World}

/-! ### Refusals -/

/-- A check that comes upon no fault of the world. -/
def Refuses {α : Type} (x : Except TransactionRejection α) : Prop :=
  ∀ fault, x ≠ .error (.internal fault)

namespace Refuses

variable {α β : Type}

private theorem ok (a : α) : Refuses (.ok a) := fun _ h => by cases h

private theorem error {cause : TransactionRejection} (h : ∀ fault, cause ≠ .internal fault) :
    Refuses (.error cause : Except TransactionRejection α) := fun fault he => by
  cases he
  exact h fault rfl

private theorem bind {x : Except TransactionRejection α} {f : α → Except TransactionRejection β} (hx : Refuses x)
    (hf : ∀ a, Refuses (f a)) : Refuses (x >>= f) := fun fault h => by
  cases x with
  | ok a => exact hf a fault h
  | error cause =>
    cases h
    exact hx fault rfl

private theorem guard {c : Prop} [Decidable c] {cause : TransactionRejection}
    {x : Unit → Except TransactionRejection α} (h : ∀ fault, cause ≠ .internal fault)
    (hx : Refuses (x ())) : Refuses (if c then throw cause >>= x else x ()) := by
  split
  · exact .error h
  · exact hx

end Refuses

private theorem Rules.refuses_recoverSender (rules : Rules) (chainId : UInt64) (t : SignedTransaction) :
    Refuses (rules.recoverSender chainId t) := by
  unfold recoverSender
  refine .guard (by simp) ?_
  cases t.sender with
  | ok sender =>
    cases t.chainId? with
    | none => exact .guard (by simp) (.ok sender)
    | some id => exact .guard (by simp) (.guard (by simp) (.ok sender))
  | error cause =>
    cases t.chainId? with
    | none => exact .guard (by simp) (.error (by simp))
    | some id => exact .guard (by simp) (.guard (by simp) (.error (by simp)))

private theorem Transaction.refuses_gasPrice (t : Transaction) (baseFee : Option Word) :
    Refuses (t.gasPrice baseFee) := by
  unfold gasPrice
  refine .guard (by simp) ?_
  cases baseFee with
  | none => exact .ok _
  | some baseFee => exact .guard (by simp) (.ok _)

private theorem Transaction.refuses_checkSender (t : Transaction) (sender : Address) (account : Account) :
    Refuses (t.checkSender sender account) := by
  unfold checkSender
  refine .guard (by simp) (.guard (by simp) ?_)
  cases t.greatestCost? with
  | none => exact .error (by simp)
  | some cost => exact .guard (by simp) (.guard (by simp) (.ok ()))

namespace SignedTransaction

variable {t : SignedTransaction} {gasAvailable : Nat} {a : Admission} {o : Outcome}

private theorem refuses_validate (t : SignedTransaction) (rules : Rules) (block : BlockEnv) (w : World)
    (gasAvailable : Nat) : Refuses (t.validate rules block w gasAvailable) := by
  unfold validate
  refine .bind (rules.refuses_recoverSender block.chainId t) fun sender => ?_
  refine .guard (by simp) (.guard (by simp) (.bind (t.body.refuses_gasPrice block.baseFee) fun price => ?_))
  exact .bind (t.body.refuses_checkSender sender _) fun _ => .ok _

/-! ### Execution -/

private theorem supports_execute (h : t.Admitted rules block w gasAvailable a) (hw : w.Bounded) :
    w.Supports (t.execute rules block a) := by
  have hcost := toNat_gasCost (Nat.le_refl _) h.fits t.body.gasLimit.toNat_lt
  have hmost : t.body.gasLimit.toNat * a.gasPrice.toNat ≤ t.body.gasLimit.toNat * t.body.maxFee.toNat :=
    Nat.mul_le_mul_left _ h.maxFee
  have hafford := h.allowed.affords
  refine .bind (.of_exists ⟨_, rfl⟩) fun _ w₁ hw₁ => ?_
  cases hw₁
  refine .bind (.of_exists (World.exists_incrementNonce h.allowed.nonce_ne)) fun ⟨⟩ w₂ hraise => ?_
  have hbalance : w₂.balance a.sender = (w.accountOrEmpty a.sender).balance :=
    World.balance_incrementNonce hraise a.sender
  have htotal : w₂.total = w.beginTransaction.total := World.total_incrementNonce hraise
  have hbegin := World.total_beginTransaction w
  have hfee : gasCost t.body.gasLimit.toNat a.gasPrice ≤ w₂.balance a.sender := by
    rw [hbalance]
    change BitVec.toNat _ ≤ BitVec.toNat _
    omega
  refine .bind (.of_exists (World.exists_subBalance hfee)) fun ⟨⟩ w₃ hpaid => ?_
  have hleft := World.toNat_balance_subBalance hpaid
  have hless := World.total_subBalance hpaid
  have hbounded := hw.total_lt
  refine .bind .get fun w₄ w₅ hget => ?_
  cases hget
  have hevolves := (World.Evolves.incrementNonce hraise).trans (.subBalance hpaid)
  refine Message.supports_execute ⟨hevolves.wellFormed hw.wellFormed.beginTransaction, by omega⟩ ?_ _
  -- The sender could pay all gas at the greatest fee, so the value is there when the price is taken.
  intro _
  change t.body.value.toNat ≤ (w₃.balance a.sender).toNat
  rw [hbalance] at hleft
  omega

/-! ### Settlement -/

private theorem supports_payFee {coinbase : Address} {fee : Word} (h : w.total + fee.toNat < wordLimit) :
    w.Supports (World.payFee rules coinbase fee) := by
  have hle := World.balance_le_total coinbase w
  refine .ite (fun _ => .of_exists (World.exists_addBalance (by omega))) fun _ => ?_
  exact .bind .get fun _ _ _ => .ite (fun _ => .of_exists ⟨_, rfl⟩) fun _ => .pure

/-- All that is paid was taken from the sender before. -/
private theorem supports_settle (h : t.Admitted rules block w gasAvailable a) (hw : w.Bounded)
    (hx : t.execute rules block a w = .ok o w₁) : w₁.Supports (t.settle rules block a o) := by
  have hexecuted := execute_ok hx
  have htaken := hexecuted.total_le hw.wellFormed
  have hbounded := hw.total_lt
  let used := t.body.gasLimit.toNat - o.gasLeft
  let refund := refundOf rules used o
  have hsum : o.gasLeft + refund + (used - refund) = t.body.gasLimit.toNat := by
    have hrefund : refund ≤ used := refundOf_le rules used o
    have hgas := hexecuted.gas
    omega
  have hsplit := toNat_gasCost_split h.fits t.body.gasLimit.toNat_lt h.baseFee hsum
  have hsender := World.balance_le_total a.sender w₁
  have hback : (w₁.balance a.sender).toNat + (gasCost (o.gasLeft + refund) a.gasPrice).toNat < wordLimit := by
    omega
  refine .bind (.of_exists (World.exists_addBalance hback)) fun ⟨⟩ w₂ hpaid => ?_
  have htotal : w₂.total = w₁.total + (gasCost (o.gasLeft + refund) a.gasPrice).toNat :=
    World.total_addBalance hpaid
  have hfee : w₂.total + (gasCost (used - refund) (a.gasPrice - block.baseFee.getD 0)).toNat < wordLimit := by
    omega
  exact .bind (supports_payFee hfee) fun _ _ _ => .bind (.of_exists ⟨_, rfl⟩) fun _ _ _ => .pure

/-- A number that is too large for its type or a buffer that is too long ends it without an outcome. -/
def Overflows (t : SignedTransaction) (rules : Rules) (block : BlockEnv) (gasAvailable : Nat) (w : World) : Prop :=
  ∃ cause w', t.process rules block gasAvailable w = .error (.internal cause) w' ∧
    (cause = .overflow ∨ cause = .bufferOverflow)

/-- Nothing else ends an admitted transaction without an outcome. -/
private theorem carryOut_succeeds (hvalid : t.validate rules block w gasAvailable = .ok a) (hw : w.Bounded)
    (hfits : ¬t.Overflows rules block gasAvailable w) : ∃ outcome w', t.carryOut rules block a w = .ok outcome w' := by
  have h := validate_ok hvalid
  have hsupports : w.Supports (t.carryOut rules block a) :=
    .bind (supports_execute h hw) fun o w₁ hx => .bind (supports_settle h hw hx) fun _ _ _ => .pure
  cases hr : t.carryOut rules block a w with
  | ok outcome w' => exact ⟨outcome, w', rfl⟩
  | error cause w' =>
    have hprocess : t.process rules block gasAvailable w = .error (.internal cause) w' := by
      rw [process, hvalid]
      dsimp only
      rw [hr]
    obtain rfl | hcause := WorldError.isOverflow_iff.mp (hsupports cause w' hr)
    · exact absurd hr (t.carryOut_ne_gasOverflow rules block a w w')
    · exact absurd ⟨cause, w', hprocess, hcause⟩ hfits

private theorem gasLimit_of_overflows {f : Fork} (h : t.Overflows (.ofFork f) block gasAvailable w) :
    2 ^ 48 ≤ t.body.gasLimit.toNat := by
  obtain ⟨cause, w', hprocess, hcause⟩ := h
  unfold process at hprocess
  split at hprocess
  · next refusal hvalid =>
    cases hprocess
    exact absurd hvalid (t.refuses_validate _ block w gasAvailable cause)
  · next a _ =>
    split at hprocess
    · cases hprocess
    · next hr =>
      cases hprocess
      have hmuch : World.OverflowsIf (fun _ => 2 ^ 48 ≤ t.body.gasLimit.toNat - a.intrinsicGas)
          (t.carryOut (.ofFork f) block a) :=
        overflowsIf_carryOut fun _ _ _ => Message.runCode_fits f block _ _ _
      exact (hmuch cause _ _ hr (WorldError.isOverflow_iff.mpr (.inr hcause))).trans (Nat.sub_le _ _)

/-- The numbers of an admitted transaction, without bounds: nothing is taken from what is less, and no sum
and no product is too much for its type. -/
structure Exact (t : SignedTransaction) (rules : Rules) (block : BlockEnv) (w : World) (a : Admission)
    (o : Outcome) : Prop where
  nonce : (w.accountOrEmpty a.sender).nonce.toNat + 1 < countLimit
  gasPrice : (block.baseFee.getD 0).toNat ≤ a.gasPrice.toNat ∧ a.gasPrice.toNat ≤ t.body.maxFee.toNat
  intrinsicGas : a.intrinsicGas ≤ t.body.gasLimit.toNat
  taken : (gasCost t.body.gasLimit.toNat a.gasPrice).toNat = t.body.gasLimit.toNat * a.gasPrice.toNat
  gasLeft : o.gasLeft ≤ t.body.gasLimit.toNat
  refund : refundOf rules (t.body.gasLimit.toNat - o.gasLeft) o ≤ t.body.gasLimit.toNat - o.gasLeft
  gasBack : o.gasLeft + refundOf rules (t.body.gasLimit.toNat - o.gasLeft) o < countLimit
  back :
    let gas := o.gasLeft + refundOf rules (t.body.gasLimit.toNat - o.gasLeft) o
    (gasCost gas a.gasPrice).toNat = gas * a.gasPrice.toNat
  fee :
    let used := t.body.gasLimit.toNat - o.gasLeft
    let charged := used - refundOf rules used o
    (gasCost charged (a.gasPrice - block.baseFee.getD 0)).toNat =
      charged * (a.gasPrice.toNat - (block.baseFee.getD 0).toNat)

private theorem Admitted.exact (h : t.Admitted rules block w gasAvailable a) (hx : t.Executed a w o w₁) :
    t.Exact rules block w a o := by
  have hlimit : t.body.gasLimit.toNat < countLimit := t.body.gasLimit.toNat_lt
  have hrefund := refundOf_le rules (t.body.gasLimit.toNat - o.gasLeft) o
  have hgas := hx.gas
  have hnonce := h.allowed.nonce_ne
  have hlt : (w.accountOrEmpty a.sender).nonce.toNat < countLimit := UInt64.toNat_lt _
  have hmax : maxCount = countLimit - 1 := rfl
  exact
    { nonce := by omega
      gasPrice := ⟨h.baseFee, h.maxFee⟩
      intrinsicGas := h.gas
      taken := toNat_gasCost (Nat.le_refl _) h.fits hlimit
      gasLeft := by omega
      refund := hrefund
      gasBack := by omega
      back := toNat_gasCost (by omega) h.fits hlimit
      fee := toNat_gasCost_sub (by omega) h.fits hlimit h.baseFee }

/-- Under the rules of every upgrade, where all balances together are less than half of what a word can
hold: a transaction that is not included is refused and leaves the world as it was, with no fault of the
world, and one that is admitted is executed and settled in exact numbers. Only a gas limit of `2 ^ 48` or more
lets code come to a number that is too large for its type or to a buffer that is too long; then there is no answer. -/
theorem process_faultless (f : Fork) (hw : World.Reachable w) (htotal : 2 * w.total < wordLimit)
    (block : BlockEnv) (gasAvailable : Nat) (t : SignedTransaction) :
    let rules := Rules.ofFork f
    (t.Overflows rules block gasAvailable w → 2 ^ 48 ≤ t.body.gasLimit.toNat) ∧
      (¬t.Overflows rules block gasAvailable w →
        (∀ cause w', t.process rules block gasAvailable w = .error cause w' →
          w' = w ∧ ∀ fault, cause ≠ .internal fault) ∧
        ∀ a, t.validate rules block w gasAvailable = .ok a →
          ∃ o w₁ outcome w', t.execute rules block a w = .ok o w₁ ∧
            t.settle rules block a o w₁ = .ok outcome.gasUsed w' ∧
            t.process rules block gasAvailable w = .ok outcome w' ∧ t.Exact rules block w a o) := by
  intro rules
  have hbounded : w.Bounded := ⟨hw.wellFormed, htotal⟩
  refine ⟨gasLimit_of_overflows, fun hfits => ?_⟩
  have hsucceeds : ∀ a, t.validate rules block w gasAvailable = .ok a →
      ∃ outcome w', t.process rules block gasAvailable w = .ok outcome w' := fun a hvalid => by
    obtain ⟨outcome, w', hcarry⟩ := carryOut_succeeds hvalid hbounded hfits
    exact ⟨outcome, w', process_of_valid hvalid hcarry⟩
  refine ⟨fun cause w' h => ?_, fun a hvalid => ?_⟩
  · cases hvalid : t.validate rules block w gasAvailable with
    | ok a =>
      obtain ⟨outcome, w'', hok⟩ := hsucceeds a hvalid
      rw [hok] at h
      cases h
    | error refusal =>
      rw [process, hvalid] at h
      cases h
      exact ⟨rfl, fun fault hf => t.refuses_validate rules block w gasAvailable fault (hf ▸ hvalid)⟩
  · obtain ⟨outcome, w', hprocess⟩ := hsucceeds a hvalid
    obtain ⟨a', o, w₁, hvalid', hexecute, hsettle, -⟩ := process_ok hprocess
    rw [hvalid] at hvalid'
    cases hvalid'
    have hexact := (validate_ok hvalid).exact (execute_ok hexecute)
    exact ⟨o, w₁, outcome, w', hexecute, hsettle, hprocess, hexact⟩

open Sample

/-- A transfer is refused where its type is not known yet, and carried out where it is. -/
theorem process_faultless_for_transfer :
    2 * world.total < wordLimit ∧
      (∃ cause, transfer.process (Rules.ofFork .frontier) londonBlock 100000 world = .error cause world ∧
        ∀ fault, cause ≠ .internal fault) ∧
      ∃ o outcome w', transfer.process (Rules.ofFork .london) londonBlock 100000 world = .ok outcome w' ∧
        transfer.Exact (Rules.ofFork .london) londonBlock world ⟨payer, 21000, 9⟩ o := by
  have hw : World.Reachable world := .run .empty _
  have htotal : 2 * world.total < wordLimit := by decide +kernel
  have hlimit : ¬2 ^ 48 ≤ transfer.body.gasLimit.toNat := by decide
  have hstop : stopsWith (fun _ => true)
      (transfer.process (Rules.ofFork .frontier) londonBlock 100000 world) := by decide +kernel
  obtain ⟨cause, w', hrefused, -⟩ := exists_of_stopsWith hstop
  obtain ⟨hmuch, hrest⟩ := process_faultless .frontier hw htotal londonBlock 100000 transfer
  obtain ⟨hsame, hcause⟩ := (hrest fun h => hlimit (hmuch h)).1 cause w' hrefused
  obtain ⟨hmuch, hrest⟩ := process_faultless .london hw htotal londonBlock 100000 transfer
  obtain ⟨o, -, outcome, w'', -, -, hprocess, hexact⟩ := (hrest fun h => hlimit (hmuch h)).2 _ validate_transfer
  exact ⟨htotal, ⟨cause, hsame ▸ hrefused, hcause⟩, o, outcome, w'', hprocess, hexact⟩

end SignedTransaction

end StateTransition
