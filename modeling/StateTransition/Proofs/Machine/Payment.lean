import StateTransition.Proofs.Machine.Primitive

/-! What operations pay at least: for memory, for accounts that they access, and for the gas that a
call hands on. -/
namespace StateTransition

namespace Gas

def stipend (value : Word) : Nat := if value = 0 then 0 else callStipend

/-- The least that a use costs which may be a first one. -/
def least (rules : Rules) (warm first : Nat) : Nat :=
  if rules.accessLists then min warm first else warm

def leastAccess (rules : Rules) (warm : Nat) : Nat := least rules warm rules.gas.coldAccountAccess

theorem min_le_addSaturating (a b : Nat) : min a maxCount ≤ addSaturating a b := by
  unfold addSaturating
  omega

theorem splitCall_ok {rules : Rules} {value request : Word} {gasLeft memoryCost surcharge : Nat}
    {split : CallSplit} (h : splitCall rules value request gasLeft memoryCost surcharge = .ok split) :
    ∃ gas, split.cost = gas + surcharge ∧ split.forwarded = gas + stipend value ∧
      split.cost ≤ maxCount := by
  have hend : ∀ gas, (if gas + surcharge < countLimit then
      (.ok ⟨gas + surcharge, gas + stipend value⟩ : Except Halt CallSplit)
      else .error .outOfGas) = .ok split → split.cost = gas + surcharge ∧
        split.forwarded = gas + stipend value ∧ split.cost ≤ maxCount := by
    intro gas hg
    split at hg
    · next hlt =>
      cases hg
      exact ⟨rfl, rfl, Nat.le_sub_one_of_lt hlt⟩
    · cases hg
  unfold splitCall at h
  dsimp only at h
  split at h
  · exact ⟨_, hend _ h⟩
  · split at h
    · exact ⟨_, hend _ h⟩
    · cases h

end Gas

namespace Frame

theorem charge_ok {f f' : Frame} {amount : Nat} (h : f.charge amount = .ok f') :
    amount ≤ f.gasLeft ∧ f' = { f with gasLeft := f.gasLeft - amount } := by
  unfold charge at h
  split at h
  · next hle =>
    cases h
    exact ⟨hle, rfl⟩
  · cases h

/-- What is paid for is memory as well, and it is there afterwards. -/
theorem chargeWithMemory_cases {f f' : Frame} {amount : Nat} {extents : List (Word × Word)}
    (h : f.chargeWithMemory amount extents = .ok f') :
    ∃ expansion, Gas.expansion f.memory.size extents = .ok expansion ∧
      Gas.addSaturating amount expansion.cost ≤ f.gasLeft ∧
      f' = { f with
        gasLeft := f.gasLeft - Gas.addSaturating amount expansion.cost
        memory := f.memory.grow expansion.newSize } := by
  unfold chargeWithMemory at h
  obtain ⟨expansion, hexpansion, h⟩ := ok_of_bind h
  obtain ⟨f₁, hpaid, h⟩ := ok_of_bind h
  obtain ⟨hle, rfl⟩ := charge_ok hpaid
  cases h
  exact ⟨expansion, hexpansion, hle, rfl⟩

private theorem chargeWithMemory_ok {f f' : Frame} {amount : Nat} {extents : List (Word × Word)}
    (h : f.chargeWithMemory amount extents = .ok f') :
    f'.message = f.message ∧ f'.destroyed = f.destroyed ∧
      f'.gasLeft + min amount maxCount ≤ f.gasLeft := by
  obtain ⟨expansion, -, hle, rfl⟩ := chargeWithMemory_cases h
  have := Gas.min_le_addSaturating amount expansion.cost
  refine ⟨rfl, rfl, ?_⟩
  dsimp only
  omega

end Frame

namespace MachineM

variable {rules : Rules}

theorem Yields.pure {α : Type} {P : α → Prop} {a : α} (h : P a) : Yields P (pure a) := by
  intro m m' b hb
  cases hb
  exact h

theorem Yields.next {α β : Type} {P : β → Prop} {x : MachineM α} {f : α → MachineM β}
    (hf : ∀ a, Yields P (f a)) : Yields P (x >>= f) := by
  intro m m' b hb
  match hr : x m with
  | .ok a m₁ =>
    rw [bind_of_ok hr] at hb
    exact hf a _ _ _ hb
  | .error stop m₁ =>
    rw [bind_of_error hr] at hb
    cases hb

theorem Yields.ite {α : Type} {P : α → Prop} {c : Prop} [Decidable c] {x y : MachineM α} (hx : Yields P x)
    (hy : Yields P y) : Yields P (if c then x else y) := by
  split
  · exact hx
  · exact hy

/-- A price that depends on whether a use is the first one. -/
private theorem yields_least {cold : MachineM Bool} (rules : Rules) (warm first : Nat) :
    Yields (Gas.least rules warm first ≤ ·) (if rules.accessLists then
      cold >>= fun c => if c then pure first else pure warm else pure warm : MachineM Nat) := by
  unfold Gas.least
  by_cases hl : rules.accessLists
  · simp only [hl, if_true]
    refine Yields.next fun cold => ?_
    cases cold
    · exact Yields.pure (Nat.min_le_left _ _)
    · exact Yields.pure (Nat.min_le_right _ _)
  · simp only [hl]
    exact Yields.pure (Nat.le_refl _)

theorem yields_accessPrice (rules : Rules) (a : Address) (warm : Nat) :
    Yields (Gas.leastAccess rules warm ≤ ·) (accessPrice rules a warm) :=
  yields_least rules warm _

theorem yields_slotPrice (rules : Rules) (key : SlotKey) (warm : Nat) :
    Yields (Gas.least rules warm rules.gas.coldSload ≤ ·) (slotPrice rules key warm) :=
  yields_least rules warm _

/-- A call that is paid for. -/
theorem chargeCall_ok {gas value : Word} {extents : List (Word × Word)} {surcharge forwarded : Nat} {m m' : Machine}
    (h : chargeCall rules gas value extents surcharge m = .ok forwarded m') :
    ∃ expansion split, Gas.expansion m.frame.memory.size extents = .ok expansion ∧
      Gas.splitCall rules value gas m.frame.gasLeft expansion.cost surcharge = .ok split ∧
      forwarded = split.forwarded ∧ Gas.addSaturating split.cost expansion.cost ≤ m.frame.gasLeft ∧
      m' = ⟨{ m.frame with
        gasLeft := m.frame.gasLeft - Gas.addSaturating split.cost expansion.cost
        memory := m.frame.memory.grow expansion.newSize }, m.world⟩ := by
  unfold chargeCall at h
  dsimp only at h
  split at h
  · next hsplit =>
    obtain ⟨expansion, hexpansion, hsplit⟩ := ok_of_bind hsplit
    obtain ⟨split, hcall, hsplit⟩ := ok_of_bind hsplit
    obtain ⟨f, hpaid, hsplit⟩ := ok_of_bind hsplit
    obtain ⟨hle, rfl⟩ := Frame.charge_ok hpaid
    cases hsplit
    cases h
    exact ⟨expansion, split, hexpansion, hcall, rfl, hle, rfl⟩
  · cases h

/-- A call that is not paid for leaves all as it was. -/
theorem chargeCall_error {gas value : Word} {extents : List (Word × Word)} {surcharge : Nat} {m m' : Machine}
    {stop : Stop} (h : chargeCall rules gas value extents surcharge m = .error stop m') :
    ∃ cause, stop = .failure (.halt cause) ∧ m' = m := by
  unfold chargeCall at h
  dsimp only at h
  split at h
  · cases h
  · next cause _ =>
    cases h
    exact ⟨cause, rfl, rfl⟩

/-- The heir is accessed as in a call, but for free where no accesses are listed. -/
theorem payForDestruction_eq (rules : Rules) (owner heir : Address) :
    payForDestruction rules owner heir = (do
      let access ← accessPrice rules heir 0
      charge (rules.gas.selfdestruct + access + heirPrice rules (← world) owner heir)
      addRefund (if (← frame).destroyed.contains owner then 0 else rules.gas.selfdestructRefund)) := by
  unfold payForDestruction accessPrice
  by_cases hlists : rules.accessLists
  · simp only [hlists, if_true, bind_assoc]
    congr 1
    funext cold
    cases cold <;> rfl
  · simp only [hlists]
    rfl

theorem bequeath_of_ok {owner heir : Address} {m : Machine} {w : World}
    (h : World.addBalance heir (m.world.balance owner) m.world = .ok () w) :
    bequeath owner heir m = .ok ()
      ⟨{ m.frame with destroyed := m.frame.destroyed.insert owner }, w.setBalance owner 0⟩ := by
  rw [bequeath, world_bind, bind_of_ok (changeWorld_of_ok h)]
  rfl

theorem bequeath_of_error {owner heir : Address} {m : Machine} {cause : WorldError} {w : World}
    (h : World.addBalance heir (m.world.balance owner) m.world = .error cause w) :
    bequeath owner heir m = .error (.fault cause) ⟨m.frame, w⟩ := by
  rw [bequeath, world_bind, bind_of_error (changeWorld_of_error h)]

namespace Takes

theorem accessPrice (a : Address) (warm : Nat) :
    Takes (fun _ => 0) 0 (accessPrice rules a warm) :=
  .ite (fun _ => .next (.warmAddress a) fun _ =>
    .ite (fun _ => .pure (Int.le_refl 0)) fun _ => .pure (Int.le_refl 0)) fun _ =>
    .pure (Int.le_refl 0)

theorem slotPrice (key : SlotKey) (warm : Nat) :
    Takes (fun _ => 0) 0 (slotPrice rules key warm) :=
  .ite (fun _ => .next (.warmSlot key) fun _ =>
    .ite (fun _ => .pure (Int.le_refl 0)) fun _ => .pure (Int.le_refl 0)) fun _ =>
    .pure (Int.le_refl 0)

theorem chargeWithMemory (amount : Nat) (extents : List (Word × Word)) :
    Takes (fun _ => (min amount maxCount : Nat)) 0 (chargeWithMemory amount extents) := fun m => by
  unfold MachineM.chargeWithMemory
  cases h : m.frame.chargeWithMemory amount extents with
  | error cause => exact ⟨.refl m, by simp⟩
  | ok f =>
    obtain ⟨hm, hd, hg⟩ := Frame.chargeWithMemory_ok h
    refine ⟨.of_frame hm hd, ?_⟩
    dsimp only
    omega

theorem payWithMemory (amount : Nat) (extents : List (Word × Word)) :
    Takes (fun _ => 0) 0 (MachineM.chargeWithMemory amount extents) :=
  (chargeWithMemory amount extents).mono (fun _ => by omega) (by omega)

/-- A call pays for the gas that it hands on, the stipend aside. -/
theorem chargeCall (gas value : Word) (extents : List (Word × Word)) (surcharge : Nat) :
    Takes (fun forwarded => (forwarded + surcharge : Nat) - (Gas.stipend value : Int)) 0
      (chargeCall rules gas value extents surcharge) := fun m => by
  cases h : MachineM.chargeCall rules gas value extents surcharge m with
  | error stop m' =>
    obtain ⟨cause, rfl, rfl⟩ := chargeCall_error h
    exact ⟨.refl _, by simp⟩
  | ok forwarded m' =>
    obtain ⟨expansion, split, -, hsplit, rfl, hpaid, rfl⟩ := chargeCall_ok h
    obtain ⟨gas, hcost, hforwarded, hle⟩ := Gas.splitCall_ok hsplit
    have := Gas.min_le_addSaturating split.cost expansion.cost
    refine ⟨.of_frame rfl rfl, ?_⟩
    dsimp only
    omega

end Takes

end MachineM

end StateTransition
