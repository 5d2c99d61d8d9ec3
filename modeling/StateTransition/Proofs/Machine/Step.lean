import StateTransition.Proofs.Machine.Operation

/-! What steps take, and what a frame's run takes from its first step to its end. -/
namespace StateTransition

namespace Gas

def leastPrice (rules : Rules) (op : Opcode) : Nat := ofOpcode op + leastCharge rules op

end Gas

namespace MachineM.Takes

variable {env : Environment} {children : Option Children}

theorem operate (hc : ∀ c ∈ children, c.Lawful) (op : Opcode) :
    Takes (fun _ => (Gas.leastPrice env.rules op : Nat)) 0 (operate env children op) := by
  refine (charge (Gas.ofOpcode op)).bind fun _ => ?_
  have hrest : Takes (fun _ => (Gas.leastCharge env.rules op : Nat)) 0 (do
      if (← MachineM.frame).message.isStatic && op.isStateModifying then
        MachineM.halt .writeInStaticContext
      MachineM.modifyFrame fun f => { f with pc := f.pc + 1 }
      MachineM.perform env children op) :=
    .next .frame fun _ => .haltIf (Int.le_refl 0) <|
      .next (.modifyFrame fun _ => ⟨rfl, rfl, rfl⟩) fun _ => perform hc op
  refine hrest.mono (fun _ => ?_) (by omega)
  simp only [Gas.leastPrice]
  omega

theorem step (hc : ∀ c ∈ children, c.Lawful) : Takes (fun _ => 0) 0 (step env children) :=
  .next .frame fun f => by
    dsimp only
    split
    · exact .halt (Int.le_refl 0) _
    · exact (operate hc _).mono (fun _ => by omega) (Int.le_refl 0)

private theorem steps (hc : ∀ c ∈ children, c.Lawful) (fuel : Nat) :
    Takes (fun _ => 0) 0 (steps env children fuel) := by
  induction fuel with
  | zero => exact .pure (Int.le_refl 0)
  | succ fuel ih =>
    exact .next .frame fun _ => .ite (fun _ => .next (step hc) fun _ => ih) fun _ =>
      .pure (Int.le_refl 0)

private theorem run (hc : ∀ c ∈ children, c.Lawful) : Takes (fun _ => 0) 0 (run env children) :=
  .next .frame fun _ => steps hc _

private theorem conclude (index : UInt8) (request : ByteArray) :
    Takes (fun _ => 0) 0 (Precompile.conclude (Precompile.evaluate index request)) := by
  match h : Precompile.evaluate index request with
  | .error stop =>
    obtain ⟨cause, rfl⟩ | ⟨rfl, -⟩ := Precompile.evaluate_error h
    · exact halt (Int.le_refl 0) cause
    · exact fun m => nofun
  | .ok output =>
    have hset : Takes (fun _ => 0) 0
        (MachineM.modifyFrame fun f => { f with output, running := false }) :=
      .modifyFrame fun _ => ⟨rfl, rfl, rfl⟩
    exact hset

private theorem precompile (rules : Rules) (index : UInt8) :
    Takes (fun _ => 0) 0 (Precompile.run rules index) :=
  .next .frame fun f => by
    dsimp only
    split
    · exact .halt (Int.le_refl 0) _
    · exact .next (.pay _) fun _ => .conclude _ _

theorem start (hc : ∀ c ∈ children, c.Lawful) : Takes (fun _ => 0) 0 (start env children) :=
  .next .frame fun f => by
    split
    · exact .ite (fun _ => .precompile _ _) fun _ => .run hc
    · exact .run hc

end MachineM.Takes

end StateTransition
