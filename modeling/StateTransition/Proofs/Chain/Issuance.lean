import Mathlib.Algebra.Order.BigOperators.Group.List
import StateTransition.Proofs.Chain.Clearing
import StateTransition.Proofs.Chain.Ommer

/-! How much comes into being with a block. Transactions make no wei, so that the rewards are a bound; they depend
on how many ommers there are and how old those are, of which the check of ommers lets through only so much. -/
namespace StateTransition

variable {rules : Rules} {block : BlockEnv} {w w' : World}

/-! ### Rewards -/

def totalReward (blockReward number : Nat) (ommers : List Header) : Nat :=
  blockReward + ommers.length * (blockReward / 32) +
    (ommers.map fun o => ommerReward blockReward (number - o.number.toNat)).sum

/-- An ommer is at least one block older than the block that includes it. -/
private theorem ommerReward_le_of_pos {age : Nat} (blockReward : Nat) (hage : 1 ≤ age) :
    ommerReward blockReward age ≤ 7 * blockReward / 8 := by
  rw [Nat.mul_comm 7]
  exact Nat.div_le_div_right (Nat.mul_le_mul_left _ (by omega))

private theorem totalReward_le (blockReward number : Nat) {ommers : List Header} (hfew : ommers.length ≤ maxOmmers)
    (hold : ∀ o ∈ ommers, o.number.toNat < number) :
    totalReward blockReward number ommers ≤
      blockReward + 2 * (blockReward / 32) + 2 * (7 * blockReward / 8) := by
  have hshare : ommers.length * (blockReward / 32) ≤ 2 * (blockReward / 32) := Nat.mul_le_mul_right _ hfew
  have hsum : (ommers.map fun o => ommerReward blockReward (number - o.number.toNat)).sum ≤
      ommers.length * (7 * blockReward / 8) := by
    refine (List.sum_le_card_nsmul _ (7 * blockReward / 8) fun x hx => ?_).trans_eq ?_
    · obtain ⟨o, ho, rfl⟩ := List.mem_map.mp hx
      exact ommerReward_le_of_pos _ (Nat.sub_pos_of_lt (hold o ho))
    · rw [List.length_map]
      rfl
  have hommers : ommers.length * (7 * blockReward / 8) ≤ 2 * (7 * blockReward / 8) := Nat.mul_le_mul_right _ hfew
  rw [totalReward]
  omega

namespace World

private theorem total_addBalance_ofNat {a : Address} {n : Nat} (hn : n < wordLimit)
    (h : addBalance a (BitVec.ofNat 256 n) w = .ok () w') : w'.total = w.total + n := by
  have hfits : n % 2 ^ 256 = n := Nat.mod_eq_of_lt hn
  rw [total_addBalance h, BitVec.toNat_ofNat, hfits]

private theorem total_payRewards {h : Header} {ommers : List Header} (hreward : rules.blockReward < countLimit)
    (hfew : ommers.length ≤ maxOmmers) (hpay : payRewards rules h ommers w = .ok () w') :
    w'.total = w.total + totalReward rules.blockReward h.number.toNat ommers := by
  have hlimit : 2 * countLimit < wordLimit := by decide
  have hshare : rules.blockReward / 32 * ommers.length ≤ rules.blockReward / 32 * 2 := Nat.mul_le_mul_left _ hfew
  obtain ⟨⟨⟩, w₁, hbase, hrest⟩ := of_bind_ok hpay
  have htotal : w₁.total = w.total + (rules.blockReward + rules.blockReward / 32 * ommers.length) :=
    total_addBalance_ofNat (by omega) hbase
  have hommers : w'.total =
      w₁.total + (ommers.map fun o => ommerReward rules.blockReward (h.number.toNat - o.number.toNat)).sum := by
    clear hpay hfew hshare hbase htotal
    induction ommers generalizing w₁ with
    | nil =>
      cases hrest
      rfl
    | cons ommer ommers ih =>
      obtain ⟨⟨⟩, w₂, hommer, hrest⟩ := of_bind_ok hrest
      have hle := ommerReward_le rules.blockReward (h.number.toNat - ommer.number.toNat)
      rw [ih w₂ hrest, total_addBalance_ofNat (by omega) (payOmmer_ok hommer), List.map_cons, List.sum_cons, Nat.add_assoc]
  rw [hommers, htotal, totalReward, Nat.mul_comm ommers.length]
  omega

end World

/-! ### Blocks -/

namespace SignedTransaction

private theorem processAll_total_le {ts : List SignedTransaction} {index cumulativeGas : Nat}
    {receipts : List Receipt}
    (hw : w.WellFormed) (h : processAll rules block index cumulativeGas ts w = .ok receipts w') :
    w'.total ≤ w.total := by
  have hincluded : w'.WellFormed ∧ w'.total ≤ w.total :=
    processAll_preserves (P := fun w₁ => w₁.WellFormed ∧ w₁.total ≤ w.total)
      (fun ⟨hw₁, hle⟩ hprocess => ⟨((proceeds_process _ _).ok hprocess).wellFormed hw₁,
        (process_total_le hw₁ hprocess).trans hle⟩) ⟨hw, Nat.le_refl _⟩ h
  exact hincluded.2

end SignedTransaction

private theorem Block.execute_total {b : Block} {outcome : BlockOutcome} (hw : w.WellFormed)
    (hreward : rules.blockReward < countLimit) (hfew : b.ommers.length ≤ maxOmmers)
    (h : b.execute rules block w = .ok outcome w') :
    let reward := totalReward rules.blockReward b.header.number.toNat b.ommers
    w'.total ≤ w.total + reward ∧ (b.transactions = [] → w'.total = w.total + reward) := by
  obtain ⟨w₁, hall, hpay, -⟩ := execute_ok h
  have hpaid := World.total_payRewards hreward hfew hpay
  have hran := SignedTransaction.processAll_total_le hw hall
  refine ⟨by omega, fun hnone => ?_⟩
  rw [hnone] at hall
  obtain ⟨-, rfl⟩ := EStateM.Result.ok.inj hall
  exact hpaid

namespace Chain

variable {s : Schedule} {genesis b : Block} {world : World} {c c' : Chain} {blocks : List Block}

/-- The sum of all balances grows with a block by at most the block's reward, two shares of a 32nd of it and two
of seven eighths; and by what is due exactly where the block has no transactions. -/
theorem issuance_capped (hc : Grown s genesis world c blocks) (hw : World.Reachable world)
    (h : c.append b = .ok c') :
    let R := (c.schedule.rulesAt b.header.number.toNat).blockReward
    c'.world.total ≤ c.world.total + (R + 2 * (R / 32) + 2 * (7 * R / 8)) ∧
      (b.transactions = [] →
        c'.world.total = c.world.total + (R + b.ommers.length * (R / 32) +
          (b.ommers.map fun o => R * (8 - (b.header.number.toNat - o.number.toNat)) / 8).sum)) := by
  intro R
  have hincludes := Header.validateOmmers_ok (append_ok h).ommers
  obtain ⟨-, -, outcome, w', hrun, -, rfl⟩ := append_eq_ok_iff.mp h
  have hreward : R < countLimit := (Rules.blockReward_bounds (c.schedule.forkAt b.header.number.toNat)).2
  obtain ⟨hle, heq⟩ := Block.execute_total (hc.leads.reachable hw).wellFormed hreward hincludes.few hrun
  have hcap : totalReward R b.header.number.toNat b.ommers ≤ R + 2 * (R / 32) + 2 * (7 * R / 8) :=
    totalReward_le R _ hincludes.few fun o ho => (hincludes.each o ho).number_lt
  exact ⟨hle.trans (Nat.add_le_add_left hcap _), heq⟩

open Sample

/-- A block with one ommer, from the block before: beside 5 ether it is paid a 32nd of that for the ommer, whose
coinbase gets seven eighths. -/
theorem issuance_capped_of_ommer :
    Grown (.single .frontier) firstBlock .empty second [second.head, firstBlock] ∧ World.Reachable .empty ∧
      second.append third.head = .ok third ∧ third.head.transactions = [] ∧ third.head.ommers = [uncle] ∧
      third.world.total = second.world.total + 9531250000000000000 := by
  have hreward : (second.schedule.rulesAt third.head.header.number.toNat).blockReward = 5000000000000000000 := rfl
  have hage : third.head.header.number.toNat - uncle.number.toNat = 1 := rfl
  have htotal := (issuance_capped grown_second .empty append_third).2 rfl
  refine ⟨grown_second, .empty, append_third, rfl, rfl, ?_⟩
  rw [htotal, hreward]
  show _ + (_ + [uncle].length * _ + ([uncle].map _).sum) = _
  rw [List.map_singleton, List.sum_singleton, hage]
  rfl

end Chain

end StateTransition
