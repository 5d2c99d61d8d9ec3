import StateTransition.Proofs.Machine.Progress

/-! What a frame is seen as does not change in most steps that operations are made of, whatever is looked at beside
what the steps are for. -/
namespace StateTransition

/-- A view of a frame that leaves out its stack, its memory, its gas and what its last child returned. -/
class Frame.Aside {γ : Type} (p : Frame → γ) : Prop where
  same : ∀ (f : Frame) (stack : Stack) (memory : Memory) (gasLeft : Nat) (returnData : ByteArray),
    p { f with stack, memory, gasLeft, returnData } = p f

namespace MachineM

variable {α β γ : Type} {p : Frame → γ} {rules : Rules} {m m' : Machine}

theorem ok_of_next {x : MachineM α} {f : α → MachineM β} {b : β} (h : (x >>= f) m = .ok b m') :
    ∃ a m₁, x m = .ok a m₁ ∧ f a m₁ = .ok b m' := by
  match hx : x m with
  | .ok a m₁ => exact ⟨a, m₁, rfl, by rwa [bind_of_ok hx] at h⟩
  | .error stop m₁ =>
    rw [bind_of_error hx] at h
    cases h

/-- A computation after which a view of the frame is the same, if it comes to an end. -/
def Preserves (p : Frame → γ) (x : MachineM α) : Prop :=
  ∀ (m m' : Machine) (a : α), x m = .ok a m' → p m'.frame = p m.frame

namespace Preserves

theorem pure (a : α) : Preserves p (pure a) := fun _ _ _ h => by
  cases h
  rfl

theorem next {x : MachineM α} {f : α → MachineM β} (hx : Preserves p x) (hf : ∀ a, Preserves p (f a)) :
    Preserves p (x >>= f) := fun m m' b h => by
  obtain ⟨a, m₁, hfirst, hrest⟩ := ok_of_next h
  exact (hf a _ _ _ hrest).trans (hx _ _ _ hfirst)

theorem ite {c : Prop} [Decidable c] {x y : MachineM α} (hx : Preserves p x) (hy : Preserves p y) :
    Preserves p (if c then x else y) := by
  split
  · exact hx
  · exact hy

theorem frame : Preserves p frame := fun _ _ _ h => by
  cases h
  rfl

theorem world : Preserves p world := fun _ _ _ h => by
  cases h
  rfl

theorem throw (stop : Stop) : Preserves p (throw stop : MachineM α) := fun _ _ _ h => by cases h

theorem haltIf {c : Prop} [Decidable c] {cause : Halt} {x : MachineM α} (hx : Preserves p x) :
    Preserves p (if c then (MachineM.halt cause : MachineM Unit) >>= fun _ => x else x) :=
  .ite (.next (.throw _) fun _ => hx) hx

theorem modifyFrame {g : Frame → Frame} (h : ∀ f, p (g f) = p f) : Preserves p (modifyFrame g) := fun m _ _ hm => by
  cases hm
  exact h m.frame

theorem checkRefund (amount : Int) : Preserves p (checkRefund amount) := fun m _ _ h => by
  unfold MachineM.checkRefund at h
  split at h
  · cases h
    rfl
  · cases h

theorem addRefund {amount : Int} (h : ∀ f : Frame, p { f with refund := f.refund + amount } = p f) :
    Preserves p (addRefund amount) :=
  .next (.checkRefund amount) fun _ => .modifyFrame h

theorem modifyWorld (g : World → World) : Preserves p (modifyWorld g) := fun _ _ _ h => by
  cases h
  rfl

theorem changeWorld (change : WorldM α) : Preserves p (changeWorld change) := fun m _ _ h => by
  obtain ⟨w, -, rfl⟩ := changeWorld_ok h
  rfl

theorem readMemory (extent : Word × Word) : Preserves p (readMemory extent) := .next .frame fun _ => .pure _

variable [Frame.Aside p]

theorem charge (amount : Nat) : Preserves p (charge amount) := fun m _ _ h => by
  unfold MachineM.charge at h
  dsimp only at h
  split at h
  · cases h
    exact Frame.Aside.same m.frame m.frame.stack m.frame.memory _ m.frame.returnData
  · cases h

theorem giveBack (amount : Nat) : Preserves p (giveBack amount) := fun m _ _ h => by
  unfold MachineM.giveBack at h
  dsimp only at h
  split at h
  · cases h
    exact Frame.Aside.same m.frame m.frame.stack m.frame.memory _ m.frame.returnData
  · cases h

theorem pop : Preserves p pop := fun m _ _ h => by
  unfold MachineM.pop at h
  split at h
  · cases h
    exact Frame.Aside.same m.frame _ m.frame.memory m.frame.gasLeft m.frame.returnData
  · cases h

theorem popExtent : Preserves p popExtent := .next .pop fun _ => .next .pop fun _ => .pure _

theorem changeStack (change : Stack → Except Halt Stack) : Preserves p (changeStack change) := fun m _ _ h => by
  unfold MachineM.changeStack at h
  split at h
  · cases h
    exact Frame.Aside.same m.frame _ m.frame.memory m.frame.gasLeft m.frame.returnData
  · cases h

theorem push (w : Word) : Preserves p (push w) := changeStack _

theorem writeMemory (offset : Word) (bytes : ByteArray) : Preserves p (writeMemory offset bytes) :=
  .modifyFrame fun f => by
    unfold Frame.writeMemory
    split
    · rfl
    · exact Frame.Aside.same f f.stack _ f.gasLeft f.returnData

theorem setReturnData (data : ByteArray) : Preserves p (setReturnData data) :=
  .modifyFrame fun f => Frame.Aside.same f f.stack f.memory f.gasLeft data

theorem chargeWithMemory (amount : Nat) (extents : List (Word × Word)) :
    Preserves p (chargeWithMemory amount extents) := fun m _ _ h => by
  unfold MachineM.chargeWithMemory at h
  split at h
  · next hpaid =>
    cases h
    obtain ⟨expansion, -, -, rfl⟩ := Frame.chargeWithMemory_cases hpaid
    exact Frame.Aside.same m.frame m.frame.stack _ _ m.frame.returnData
  · cases h

theorem chargeCall (gas value : Word) (extents : List (Word × Word)) (surcharge : Nat) :
    Preserves p (chargeCall rules gas value extents surcharge) := fun m _ _ h => by
  obtain ⟨expansion, split, -, -, -, -, rfl⟩ := chargeCall_ok h
  exact Frame.Aside.same m.frame m.frame.stack _ _ m.frame.returnData

theorem refuse (gas : Nat) : Preserves p (refuse gas) := .next (.giveBack gas) fun _ => .push 0

end Preserves

end MachineM

end StateTransition
