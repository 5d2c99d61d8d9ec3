import StateTransition.Proofs.Machine.Nesting

/-! Every step after which a frame goes on has used gas, under the prices of every upgrade, so that
the loop of a frame ends by itself. -/
namespace StateTransition

/-- Whether no frame goes on after an operation. -/
def Opcode.ends : Opcode → Bool
  | stop | ret | revert | invalid | selfdestruct => true
  | _ => false

namespace Gas

/-- No upgrade made an operation free that a frame goes on after. -/
theorem leastPrice_pos (f : Fork) {op : Opcode} (h : op.ends = false) :
    0 < leastPrice (Rules.ofFork f) op := by
  -- An operation without a fixed price has one in the schedule of every upgrade.
  have hcharge : ∀ op ∈ [Opcode.balance, .extcodesize, .extcodecopy, .extcodehash, .sload, .sstore,
      .call, .callcode, .delegatecall, .staticcall], 0 < leastCharge (Rules.ofFork f) op := by
    cases f <;> decide
  unfold leastPrice
  cases op with
  | stop | ret | revert | invalid | selfdestruct => cases h
  | balance | extcodesize | extcodecopy | extcodehash | sload | sstore | call | callcode
  | delegatecall | staticcall => exact Nat.add_pos_right _ (hcharge _ (by simp))
  | log topics =>
    simp only [ofOpcode, log]
    omega
  | _ => exact Nat.add_pos_left (Nat.zero_lt_succ _) _

end Gas

namespace MachineM

variable {α : Type} {env : Environment} {children : Option Children} {m m' : Machine}

def Ends (x : MachineM Unit) : Prop := ∀ m m' : Machine, x m = .ok () m' → m'.frame.running = false

namespace Ends

private theorem next {x : MachineM α} {f : α → MachineM Unit} (hf : ∀ a, Ends (f a)) : Ends (x >>= f) := by
  intro m m' h
  match hr : x m with
  | .ok a m₁ =>
    rw [bind_of_ok hr] at h
    exact hf a _ _ h
  | .error stop m₁ =>
    rw [bind_of_error hr] at h
    cases h

private theorem ite {c : Prop} [Decidable c] {x y : MachineM Unit} (hx : Ends x) (hy : Ends y) :
    Ends (if c then x else y) := by
  split
  · exact hx
  · exact hy

private theorem modifyFrame {g : Frame → Frame} (h : ∀ f, (g f).running = false) : Ends (modifyFrame g) :=
  fun m m' hm => by
    cases hm
    exact h m.frame

private theorem finish : Ends finish := modifyFrame fun _ => rfl

private theorem throw (stop : Stop) : Ends (throw stop) := fun m m' h => by cases h

private theorem perform {op : Opcode} (h : op.ends) : Ends (perform env children op) := by
  cases op with
  | stop => exact finish
  | ret => exact .next fun _ => finish
  | revert => exact .next fun _ => .throw _
  | invalid => exact .throw _
  | selfdestruct =>
    exact .next fun _ => .next fun _ => .next fun _ => .next fun _ => .next fun _ =>
      .ite (.next fun _ => .modifyFrame fun _ => rfl) (.modifyFrame fun _ => rfl)
  | _ => cases h

private theorem operate {op : Opcode} (h : op.ends) : Ends (operate env children op) :=
  .next fun _ => .next fun _ => .ite (.next fun _ => .next fun _ => .perform h)
    (.next fun _ => .perform h)

end Ends

/-- The frame goes on only after operations that do not end it. -/
theorem ends_eq_false {op : Opcode} (h : operate env children op m = .ok () m') (hr : m'.frame.running = true) :
    op.ends = false := by
  cases he : op.ends with
  | false => rfl
  | true =>
    rw [Ends.operate he _ _ h] at hr
    cases hr

theorem step_eq (env : Environment) (children : Option Children) (m : Machine) :
    step env children m =
      match decode? env.rules (byteAt m.frame.code m.frame.pc) with
      | none => .error (.failure (.halt (.invalidOpcode (byteAt m.frame.code m.frame.pc)))) m
      | some op => operate env children op m := by
  rw [step, frame_bind]
  cases decode? env.rules (byteAt m.frame.code m.frame.pc) <;> rfl

/-- A step after which the frame goes on has used gas. -/
theorem gasLeft_lt_of_step {f : Fork} (henv : env.rules = Rules.ofFork f)
    (hc : ∀ c ∈ children, c.Lawful) (h : step env children m = .ok () m') (hr : m'.frame.running) :
    m'.frame.gasLeft < m.frame.gasLeft := by
  rw [step_eq] at h
  split at h
  · cases h
  · next op _ =>
    have hpos := Gas.leastPrice_pos f (ends_eq_false h hr)
    obtain ⟨-, hgas⟩ := (Takes.operate hc op).ok h
    rw [henv] at hgas
    omega

/-! ### The loop -/

def Continues (m : Machine) : Bool := m.frame.running && m.frame.pc < m.frame.code.size

/-- What the loop of a frame comes to that is not bounded. -/
inductive Loop (env : Environment) (children : Option Children) :
    Machine → EStateM.Result Stop Machine Unit → Prop
  | done {m : Machine} (h : Continues m = false) : Loop env children m (.ok () m)
  | stop {m m' : Machine} {stop : Stop} (h : Continues m) (hstep : step env children m = .error stop m') :
    Loop env children m (.error stop m')
  | next {m m' : Machine} {r : EStateM.Result Stop Machine Unit} (h : Continues m)
    (hstep : step env children m = .ok () m') (hloop : Loop env children m' r) : Loop env children m r

theorem steps_succ (env : Environment) (children : Option Children) (fuel : Nat) (m : Machine) :
    steps env children (fuel + 1) m =
      if Continues m then (step env children >>= fun _ => steps env children fuel) m else .ok () m := by
  rw [steps, frame_bind]
  unfold Continues
  split <;> rfl

theorem steps_of_not_continues (h : Continues m = false) (fuel : Nat) : steps env children fuel m = .ok () m := by
  cases fuel with
  | zero => rfl
  | succ fuel => rw [steps_succ, if_neg (by simp [h])]

/-- As many steps as there is gas, and one more, are all steps of the loop. -/
theorem loop_steps {f : Fork} (henv : env.rules = Rules.ofFork f) (hc : ∀ c ∈ children, c.Lawful)
    (fuel : Nat) (h : m.frame.gasLeft < fuel) : Loop env children m (steps env children fuel m) := by
  -- Each step that the frame goes on after takes one from both sides of the bound.
  induction fuel generalizing m with
  | zero => omega
  | succ fuel ih =>
    rw [steps_succ]
    split
    · next hcont =>
      match hs : step env children m with
      | .error stop m₁ =>
        rw [bind_of_error hs]
        exact .stop hcont hs
      | .ok () m₁ =>
        rw [bind_of_ok hs]
        refine .next hcont hs ?_
        by_cases hr : m₁.frame.running
        · have := gasLeft_lt_of_step henv hc hs hr
          exact ih (by omega)
        · have hdone : Continues m₁ = false := by simp [Continues, hr]
          rw [steps_of_not_continues hdone]
          exact .done hdone
    · next hcont => exact .done (by simpa using hcont)

end MachineM

end StateTransition
