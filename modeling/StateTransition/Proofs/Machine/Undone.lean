import StateTransition.Proofs.Machine.Behaviour
import StateTransition.Proofs.Machine.Nesting

/-! Messages that fail. A halt takes all gas of its frame, however it comes about, and the message of a
transaction that failed leaves nothing beside the gas that a revert spared. -/
namespace StateTransition

variable {env : Environment} {rules : Rules} {children : Option Children}

private theorem Frame.absorb_failure (rules : Rules) (w : World) (f child : Frame) :
    (f.absorb rules w child).failure = f.failure := by
  unfold absorb
  split <;> rfl

/-- A frame that halted has no gas left. -/
def Frame.Forfeits (f : Frame) : Prop := ∀ cause, f.failure = some (.halt cause) → f.gasLeft = 0

private theorem Frame.Forfeits.of_ok {f : Frame} (hok : f.failure = none) : f.Forfeits := fun cause h => by
  rw [hok] at h
  cases h

private theorem Frame.forfeits_halt (f : Frame) (cause : Halt) : (f.halt cause).Forfeits := fun _ _ => rfl

namespace Machine

variable {s s' : Machine}

private theorem Effect.failure (h : Effect rules children s s') : s'.frame.failure = s.frame.failure := by
  cases h with
  | frame h => exact h.failure
  | child gasLeft hopen hrun => exact Frame.absorb_failure ..
  | log | write | collide | destroy => rfl

/-- A frame fails only by its own end, and not by what it does. -/
private theorem Effects.failure (h : Effects rules children s s') : s'.frame.failure = s.frame.failure := by
  induction h with
  | refl => rfl
  | tail _ hlast ih => exact hlast.failure.trans ih

end Machine

namespace Message

variable {m : Message} {w w' : World} {f f' : Frame}

private theorem runCode_forfeits (h : m.runCode env children w = .ok f w') : f.Forfeits := by
  obtain ⟨f₁, heffects, rfl | ⟨cause, rfl⟩ | rfl⟩ := runCode_effects h
  · exact .of_ok heffects.failure
  · exact f₁.forfeits_halt cause
  · exact fun cause h => by cases h

private theorem callWith_forfeits (h : m.callWith env children w = .ok f w') : f.Forfeits := by
  obtain ⟨w₁, w₂, -, hrun, -⟩ := callWith_cases h
  exact runCode_forfeits hrun

private theorem install_forfeits (hok : f.failure = none) (h : m.install rules f w = .ok f' w') : f'.Forfeits := by
  obtain ⟨gasLeft, -, ⟨-, rfl, -⟩ | ⟨rfl, -⟩ | ⟨cause, rfl, -⟩⟩ := install_ok h
  · exact .of_ok hok
  · exact .of_ok hok
  · exact Frame.forfeits_halt _ cause

private theorem createWith_forfeits (h : m.createWith env children w = .ok f w') : f.Forfeits := by
  obtain ⟨w₁, f₁, w₂, -, hcall, ⟨hok, hinstall⟩ | ⟨-, rfl, -⟩⟩ := createWith_cases h
  · exact install_forfeits hok hinstall
  · exact callWith_forfeits hcall

end Message

/-- What the message of a transaction leaves that failed: accounts and storage as they were, and at most
gas that is to be paid back. -/
structure Outcome.Undone (o : Outcome) (w w' : World) : Prop where
  agrees : World.Agrees w' w
  refund : o.refund = 0
  logs : o.logs = []
  destroyed : o.destroyed = ∅
  touched : o.touched = ∅
  gas : ∀ cause, o.failure = some (.halt cause) → o.gasLeft = 0

namespace Message

variable {m : Message} {w w' : World} {f : Frame} {o : Outcome} {room : Nat}

private theorem Leaves.undone (h : m.Leaves w f w') (hw : w.WellFormed) (hforfeits : f.Forfeits)
    (touched : Std.ExtTreeSet Address) (hfailed : (Outcome.ofFrame { f with touched }).failure ≠ none) :
    (Outcome.ofFrame { f with touched }).Undone w w' := by
  unfold Outcome.ofFrame at hfailed ⊢
  cases hf : f.failure with
  | none =>
    rw [hf] at hfailed
    exact absurd rfl hfailed
  | some cause =>
    have hne : f.failure ≠ none := by simp [hf]
    exact ⟨h.restored hw hne, rfl, rfl, rfl, rfl, fun c hc => hforfeits c (hf.trans hc)⟩

/-- The message of a transaction leaves nothing behind if it fails, be it that it comes upon a contract. -/
theorem execute_undone (hw : w.WellFormed) (h : m.execute env room w = .ok o w') (hfailed : o.failure ≠ none) :
    o.Undone w w' := by
  rcases execute_cases h with ⟨rfl, rfl⟩ | ⟨f, -, hcreate, rfl⟩ | ⟨f, hcall, rfl⟩
  · exact ⟨.refl w', rfl, rfl, rfl, rfl, fun _ _ => rfl⟩
  · exact ((runs_create env room m).leaves hcreate).undone hw (createWith_forfeits hcreate) f.touched hfailed
  · exact ((runs_call env room m).leaves hcall).undone hw (callWith_forfeits hcall) _ hfailed

end Message

end StateTransition
