import StateTransition.Proofs.Machine.Preserve

/-! The gas of a call. The caller pays for all that the callee is given, and where a 64th has to stay behind it can
always do so once memory and surcharges are paid for. -/
namespace StateTransition

namespace Gas

variable {rules : Rules} {value request : Word} {gasLeft memoryCost surcharge : Nat} {split : CallSplit}

private theorem stipend_le_of_callValue_le (h : value ≠ 0 → callValue ≤ surcharge) : stipend value ≤ surcharge := by
  unfold stipend
  split
  · exact Nat.zero_le _
  · next hvalue =>
    have hle : callStipend ≤ callValue := by decide
    exact Nat.le_trans hle (h hvalue)

private theorem allButOne64th_add (gas : Nat) : allButOne64th gas + gas / 64 = gas :=
  Nat.sub_add_cancel (Nat.div_le_self gas 64)

/-- Where memory and surcharges can be paid for, the request is cut to all but a 64th of the rest. -/
private theorem splitCall_of_affordable (hrule : rules.allButOne64th) (hupfront : surcharge + memoryCost ≤ gasLeft)
    (hcount : gasLeft < countLimit) :
    let gas := min request.toNat (allButOne64th (gasLeft - surcharge - memoryCost))
    splitCall rules value request gasLeft memoryCost surcharge = .ok ⟨gas + surcharge, gas + stipend value⟩ := by
  intro gas
  have hsum : addSaturating surcharge memoryCost = surcharge + memoryCost :=
    Nat.min_eq_left (Nat.le_sub_one_of_lt (Nat.lt_of_le_of_lt hupfront hcount))
  have hgas : gas ≤ gasLeft - surcharge - memoryCost :=
    Nat.le_trans (Nat.min_le_right _ _) (Nat.sub_le _ _)
  have hfits : gas + surcharge < countLimit := by omega
  have hguard : (rules.allButOne64th && decide (surcharge + memoryCost ≤ gasLeft)) = true := by
    rw [hrule, decide_eq_true hupfront, Bool.and_self]
  unfold splitCall
  simp only [hsum, hguard, if_true, ← Nat.sub_sub]
  exact if_pos hfits

end Gas

def Request.moved (r : Request) : Word := if r.movesValue then r.value else 0

/-- What the price of a call depends on in a frame. -/
def Frame.means (f : Frame) : Nat × Memory := (f.gasLeft, f.memory)

namespace MachineM

variable {α : Type} {rules : Rules} {wanted value : Word} {input output : Word × Word} {surcharge : Nat}

/-- Calls that are paid for have their gas split off that of the frame, beside memory for input and output and under a
surcharge that has the price of the value in it. -/
def SplitsGas (rules : Rules) (request : MachineM Request) : Prop :=
  ∀ (s s' : Machine) (r : Request), request s = .ok r s' → ∃ wanted surcharge expansion split,
    (r.moved ≠ 0 → Gas.callValue ≤ surcharge) ∧
      Gas.expansion s.frame.memory.size [r.input, r.output] = .ok expansion ∧
      Gas.splitCall rules r.moved wanted s.frame.gasLeft expansion.cost surcharge = .ok split ∧
      r.gas = split.forwarded ∧
      s'.frame.gasLeft + Gas.addSaturating split.cost expansion.cost = s.frame.gasLeft

/-! ### Before a call is paid for -/

private theorem preserves_pop : Preserves Frame.means pop := fun s _ _ h => by
  unfold pop at h
  split at h <;> cases h
  rfl

private theorem preserves_popAddress : Preserves Frame.means popAddress := .next preserves_pop fun _ => .pure _

private theorem preserves_popExtent : Preserves Frame.means popExtent :=
  .next preserves_pop fun _ => .next preserves_pop fun _ => .pure _

private theorem preserves_accessPrice (rules : Rules) (a : Address) (warm : Nat) :
    Preserves Frame.means (accessPrice rules a warm) :=
  .ite (.next (.next .frame fun _ => .next (.modifyFrame fun _ => rfl) fun _ => .pure _) fun _ =>
    .ite (.pure _) (.pure _)) (.pure _)

private theorem callValue_le_valuePrice (h : value ≠ 0) : Gas.callValue ≤ valuePrice value := by
  rw [valuePrice, if_neg h]

namespace SplitsGas

private theorem next {x : MachineM α} {f : α → MachineM Request} (hx : Preserves Frame.means x)
    (hf : ∀ a, SplitsGas rules (f a)) : SplitsGas rules (x >>= f) := by
  intro s s' r h
  obtain ⟨a, s₁, hfirst, hrest⟩ := ok_of_next h
  obtain ⟨hgas, hmemory⟩ := Prod.mk.inj (hx _ _ _ hfirst)
  have hsplit := hf a s₁ s' r hrest
  rwa [hgas, hmemory] at hsplit

/-- The request that is made once gas and memory are paid for. -/
private theorem charged {f : Nat → MachineM Request} (hvalue : value ≠ 0 → Gas.callValue ≤ surcharge)
    (hgas : ∀ gas, Preserves Frame.gasLeft (f gas))
    (hrequest : ∀ gas, Yields (fun r => r.gas = gas ∧ r.moved = value ∧ r.input = input ∧ r.output = output) (f gas)) :
    SplitsGas rules (chargeCall rules wanted value [input, output] surcharge >>= f) := by
  intro s s' r h
  obtain ⟨gas, s₁, hcharge, hrest⟩ := ok_of_next h
  obtain ⟨rfl, rfl, rfl, rfl⟩ := hrequest gas _ _ _ hrest
  have hleft : s'.frame.gasLeft = s₁.frame.gasLeft := hgas _ _ _ _ hrest
  obtain ⟨expansion, split, hexpansion, hsplit, hforwarded, hle, rfl⟩ := chargeCall_ok hcharge
  refine ⟨wanted, surcharge, expansion, split, hvalue, hexpansion, hsplit, hforwarded, ?_⟩
  rw [hleft]
  exact Nat.sub_add_cancel hle

private theorem callRequest (rules : Rules) : SplitsGas rules (callRequest rules) := by
  refine .next preserves_pop fun wanted => .next preserves_popAddress fun target => ?_
  refine .next preserves_pop fun value => .next preserves_popExtent fun input => ?_
  refine .next preserves_popExtent fun output => .next (preserves_accessPrice rules target _) fun access => ?_
  refine .next .world fun w => .charged (fun hvalue => ?_) (fun gas => ?_) fun gas => ?_
  · exact Nat.le_trans (callValue_le_valuePrice hvalue) (Nat.le_add_left _ _)
  · exact .next .frame fun _ => .haltIf (.pure _)
  · exact .next fun _ => .ite (.next fun _ => .pure ⟨rfl, rfl, rfl, rfl⟩) (.pure ⟨rfl, rfl, rfl, rfl⟩)

private theorem codeRequest (rules : Rules) : SplitsGas rules (codeRequest rules) := by
  refine .next preserves_pop fun wanted => .next preserves_popAddress fun codeAddress => ?_
  refine .next preserves_pop fun value => .next preserves_popExtent fun input => ?_
  refine .next preserves_popExtent fun output => .next (preserves_accessPrice rules codeAddress _) fun access => ?_
  refine .charged (fun hvalue => ?_) (fun gas => ?_) fun gas => ?_
  · exact Nat.le_trans (callValue_le_valuePrice hvalue) (Nat.le_add_left _ _)
  · exact .next .frame fun _ => .pure _
  · exact .next fun _ => .pure ⟨rfl, rfl, rfl, rfl⟩

private theorem delegateRequest (rules : Rules) : SplitsGas rules (delegateRequest rules) := by
  refine .next preserves_pop fun wanted => .next preserves_popAddress fun codeAddress => ?_
  refine .next preserves_popExtent fun input => .next preserves_popExtent fun output => ?_
  refine .next (preserves_accessPrice rules codeAddress _) fun access => ?_
  refine .charged (fun hvalue => absurd rfl hvalue) (fun gas => ?_) fun gas => ?_
  · exact .next .frame fun _ => .pure _
  · exact .next fun _ => .pure ⟨rfl, rfl, rfl, rfl⟩

private theorem staticRequest (rules : Rules) : SplitsGas rules (staticRequest rules) := by
  refine .next preserves_pop fun wanted => .next preserves_popAddress fun target => ?_
  refine .next preserves_popExtent fun input => .next preserves_popExtent fun output => ?_
  refine .next (preserves_accessPrice rules target _) fun access => ?_
  refine .charged (fun hvalue => absurd rfl hvalue) (fun gas => ?_) fun gas => ?_
  · exact .next .frame fun _ => .pure _
  · exact .next fun _ => .pure ⟨rfl, rfl, rfl, rfl⟩

end SplitsGas

end MachineM

namespace Gas

/-- Under a surcharge that has the price of the value in it, as in every operation that calls, the callee is given no
more than the caller is charged, and both are counts. Where a 64th has to stay behind, whoever can pay for memory and
surcharge can pay for the call and keeps a 64th of the rest, and the callee is given what was asked for, as far as that
allows, with its stipend. -/
theorem splitCall_leaves_64th (rules : Rules) :
    (∀ (value wanted : Word) (gasLeft memoryCost surcharge : Nat), (value ≠ 0 → callValue ≤ surcharge) →
      (∀ split, splitCall rules value wanted gasLeft memoryCost surcharge = .ok split →
        (∃ gas, split = ⟨gas + surcharge, gas + stipend value⟩) ∧
          split.forwarded ≤ split.cost ∧ split.cost < countLimit) ∧
      (rules.allButOne64th → surcharge + memoryCost ≤ gasLeft → gasLeft < countLimit →
        ∃ split, splitCall rules value wanted gasLeft memoryCost surcharge = .ok split ∧
          split.cost + memoryCost ≤ gasLeft ∧
          (gasLeft - surcharge - memoryCost) / 64 ≤ gasLeft - (split.cost + memoryCost) ∧
          split.forwarded =
            min wanted.toNat (allButOne64th (gasLeft - surcharge - memoryCost)) + stipend value)) ∧
    MachineM.SplitsGas rules (MachineM.callRequest rules) ∧ MachineM.SplitsGas rules (MachineM.codeRequest rules) ∧
    MachineM.SplitsGas rules (MachineM.delegateRequest rules) ∧
    MachineM.SplitsGas rules (MachineM.staticRequest rules) := by
  refine ⟨fun value wanted gasLeft memoryCost surcharge hvalue => ⟨fun split h => ?_, fun hrule hupfront hcount => ?_⟩,
    ?_⟩
  · obtain ⟨gas, hcost, hforwarded, hle⟩ := splitCall_ok h
    have hstipend := stipend_le_of_callValue_le hvalue
    have hmax : maxCount < countLimit := by decide
    refine ⟨⟨gas, ?_⟩, by omega, by omega⟩
    rw [← hcost, ← hforwarded]
  · have hkept := allButOne64th_add (gasLeft - surcharge - memoryCost)
    refine ⟨_, splitCall_of_affordable hrule hupfront hcount, ?_, ?_, rfl⟩
    · dsimp only
      omega
    · dsimp only
      omega
  · exact ⟨.callRequest rules, .codeRequest rules, .delegateRequest rules, .staticRequest rules⟩

/-- A frame with all the gas there can be asks for all of it, to move a wei to a new account. -/
theorem splitCall_leaves_64th_of_greatest :
    let rules := Rules.ofFork .tangerineWhistle
    (1 : Word) ≠ 0 ∧ callValue ≤ 34700 ∧ rules.allButOne64th ∧ 34700 + 3 ≤ maxCount ∧
      ∃ split, splitCall rules 1 maxWord maxCount 3 34700 = .ok split ∧ split.cost + 3 ≤ maxCount ∧
        split.forwarded = 18158513697557808011 := by
  intro rules
  obtain ⟨split, hsplit, hpaid, -, hforwarded⟩ := ((splitCall_leaves_64th rules).1 1 maxWord maxCount 3 34700
    (fun _ => by decide)).2 (by decide) (by decide) (by decide)
  refine ⟨by decide, by decide, by decide, by decide, split, hsplit, hpaid, ?_⟩
  rw [hforwarded]
  decide

end Gas

end StateTransition
