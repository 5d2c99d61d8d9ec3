import StateTransition.Machine.Run
import StateTransition.Proofs.Machine.Advance
import StateTransition.Proofs.Outcome
import StateTransition.Proofs.Word

/-! What the steps take that operations are made of. -/
namespace StateTransition

namespace Precompile

variable {request : ByteArray} {stop : Stop}

private theorem orHalt_error {α : Type} {x : Except Halt α} (h : orHalt x = .error stop) :
    ∃ cause, stop = .failure (.halt cause) := by
  cases x with
  | error cause =>
    cases h
    exact ⟨cause, rfl⟩
  | ok => cases h

/-- There is a base or a modulus, and an operand that no buffer can hold. -/
def PowerRequest.IsLong (p : PowerRequest) : Prop :=
  ¬(p.baseLength = 0 ∧ p.modulusLength = 0) ∧
    (bufferLimit ≤ p.baseLength.toNat ∨ bufferLimit ≤ p.exponentLength.toNat ∨ bufferLimit ≤ p.modulusLength.toNat)

private theorem operand_error {offset size : Nat} (h : operand request offset size = .error stop) :
    stop = .fault .bufferOverflow ∧ bufferLimit ≤ size := by
  unfold operand at h
  split at h
  · cases h
  · next hlong =>
    cases h
    exact ⟨rfl, Nat.le_of_not_lt hlong⟩

private theorem power_error (h : power request = .error stop) :
    (∃ cause, stop = .failure (.halt cause)) ∨
      stop = .fault .bufferOverflow ∧ (PowerRequest.ofRequest request).IsLong := by
  unfold power at h
  dsimp only at h
  split at h
  · cases h
  · next hsome =>
    have hsome : ¬((PowerRequest.ofRequest request).baseLength = 0 ∧
        (PowerRequest.ofRequest request).modulusLength = 0) := by simpa using hsome
    split at h
    · next hbase hexponent hmodulus =>
      obtain rfl := Word.toNat_of_toCount? hbase
      obtain rfl := Word.toNat_of_toCount? hexponent
      obtain rfl := Word.toNat_of_toCount? hmodulus
      obtain h | ⟨_, -, h⟩ := error_of_bind h
      · exact .inr ⟨(operand_error h).1, hsome, .inl (operand_error h).2⟩
      · obtain h | ⟨_, -, h⟩ := error_of_bind h
        · exact .inr ⟨(operand_error h).1, hsome, .inr (.inl (operand_error h).2)⟩
        · obtain h | ⟨_, -, h⟩ := error_of_bind h
          · exact .inr ⟨(operand_error h).1, hsome, .inr (.inr (operand_error h).2)⟩
          · cases h
    · cases h
      exact .inl ⟨_, rfl⟩

/-- A built-in contract without an answer stops the frame, but for buffers that are too long. -/
theorem evaluate_error {index : UInt8} (h : evaluate index request = .error stop) :
    (∃ cause, stop = .failure (.halt cause)) ∨
      stop = .fault .bufferOverflow ∧ index = 5 ∧ (PowerRequest.ofRequest request).IsLong := by
  unfold evaluate at h
  split at h
  · cases h
  · cases h
  · cases h
  · cases h
  · exact (power_error h).imp_right fun ⟨hstop, hlong⟩ => ⟨hstop, rfl, hlong⟩
  · exact .inl (orHalt_error h)
  · exact .inl (orHalt_error h)
  · exact .inl (orHalt_error h)
  · exact .inl (orHalt_error h)
  · cases h
    exact .inl ⟨_, rfl⟩

end Precompile

namespace MachineM

variable {α β : Type} {k l : α → Int} {e : Int} {rules : Rules}

def Yields (P : α → Prop) (x : MachineM α) : Prop :=
  ∀ (m m' : Machine) (a : α), x m = .ok a m' → P a

theorem frame_bind (f : Frame → MachineM α) (m : Machine) : (frame >>= f) m = f m.frame m :=
  bind_of_ok rfl

theorem world_bind (f : World → MachineM α) (m : Machine) : (world >>= f) m = f m.world m :=
  bind_of_ok rfl

private theorem checkRefund_of_fits {amount : Int} {m : Machine} (h : m.frame.fitsRefund amount = true) :
    checkRefund amount m = .ok () m := if_pos h

private theorem checkRefund_of_not_fits {amount : Int} {m : Machine} (h : ¬m.frame.fitsRefund amount = true) :
    checkRefund amount m = .error (.fault .overflow) m := if_neg h

theorem addRefund_of_fits {amount : Int} {m : Machine} (h : m.frame.fitsRefund amount = true) :
    addRefund amount m = .ok () ⟨{ m.frame with refund := m.frame.refund + amount }, m.world⟩ := by
  rw [addRefund, bind_of_ok (checkRefund_of_fits h)]
  rfl

theorem addRefund_of_not_fits {amount : Int} {m : Machine} (h : ¬m.frame.fitsRefund amount = true) :
    addRefund amount m = .error (.fault .overflow) m := by
  rw [addRefund, bind_of_error (checkRefund_of_not_fits h)]

theorem discard_eq (x : MachineM α) : Functor.discard x = x >>= fun _ => pure () := by
  rw [Functor.discard, LawfulFunctor.map_const, Function.comp_apply, map_eq_pure_bind]

theorem changeWorld_of_ok {change : WorldM α} {m : Machine} {a : α} {w : World}
    (h : change m.world = .ok a w) : changeWorld change m = .ok a ⟨m.frame, w⟩ := by
  simp only [changeWorld, h]

theorem changeWorld_ok {change : WorldM α} {m m' : Machine} {a : α} (h : changeWorld change m = .ok a m') :
    ∃ w, change m.world = .ok a w ∧ m' = ⟨m.frame, w⟩ := by
  match hchange : change m.world with
  | .ok b w =>
    rw [changeWorld_of_ok hchange] at h
    cases h
    exact ⟨w, rfl, rfl⟩
  | .error cause w => simp only [changeWorld, hchange, reduceCtorEq] at h

theorem changeWorld_of_error {change : WorldM α} {m : Machine} {cause : WorldError} {w : World}
    (h : change m.world = .error cause w) :
    changeWorld change m = .error (.fault cause) ⟨m.frame, w⟩ := by
  simp only [changeWorld, h]

namespace Takes

/-- What is known of a result may be used for what follows. -/
theorem nextOf {P : α → Prop} {l : β → Int} {x : MachineM α} {f : α → MachineM β}
    (hx : Takes (fun _ => 0) e x) (hP : Yields P x) (hf : ∀ a, P a → Takes l e (f a)) :
    Takes l e (x >>= f) := by
  intro m
  match hr : x m with
  | .error (.failure cause) m₁ =>
    rw [bind_of_error hr]
    exact hx.failure hr
  | .error (.fault cause) m₁ =>
    rw [bind_of_error hr]
    rintro rfl
    exact hx.overflow hr
  | .ok a m₁ =>
    have hb := (hx.next fun _ => hf a (hP m m₁ a hr)) m
    rwa [bind_of_ok hr] at hb ⊢

/-- Once something is paid the rest may be free. -/
theorem paid {price least : Nat} {x : MachineM α} {f : α → MachineM β}
    (hx : Takes (fun _ => (price : Int)) 0 x) (hle : least ≤ price)
    (hf : ∀ a, Takes (fun _ => 0) 0 (f a)) : Takes (fun _ => (least : Int)) 0 (x >>= f) :=
  hx.bind fun a => (hf a).mono (fun _ => by omega) (by omega)

theorem ite {c : Prop} [Decidable c] {x y : MachineM α} (hx : c → Takes k e x)
    (hy : ¬ c → Takes k e y) : Takes k e (if c then x else y) := by
  split
  · next h => exact hx h
  · next h => exact hy h

theorem discard {x : MachineM α} (hx : Takes (fun _ => 0) e x) :
    Takes (fun _ => 0) e (Functor.discard x) := by
  rw [discard_eq]
  exact hx.next fun _ => .pure (Int.le_refl 0)

/-! ### Reading and stopping -/

theorem frame : Takes (fun _ => 0) e frame := fun m => ⟨.refl m, by simp⟩

theorem world : Takes (fun _ => 0) e world := fun m => ⟨.refl m, by simp⟩

theorem throw (he : e ≤ 0) (cause : Failure) : Takes k e (throw (.failure cause) : MachineM α) :=
  fun m => ⟨.refl m, by omega⟩

theorem halt (he : e ≤ 0) (cause : Halt) : Takes k e (halt cause : MachineM α) := throw he _

/-- A condition that stops the frame where it does not hold. -/
theorem haltIf {c : Prop} [Decidable c] {cause : Halt} {x : MachineM α} (he : e ≤ 0)
    (hx : Takes k e x) :
    Takes k e (if c then (MachineM.halt cause : MachineM Unit) >>= fun _ => x else x) :=
  .ite (fun _ => .next (.halt he cause) fun _ => hx) fun _ => hx

theorem readMemory (extent : Word × Word) : Takes (fun _ => 0) e (readMemory extent) :=
  .next .frame fun _ => .pure (Int.le_refl 0)

/-! ### Changing the frame -/

theorem modifyFrame {g : Frame → Frame}
    (h : ∀ f, (g f).message = f.message ∧ (g f).destroyed = f.destroyed ∧
      (g f).gasLeft = f.gasLeft) : Takes (fun _ => 0) e (modifyFrame g) := fun m => by
  obtain ⟨hm, hd, hg⟩ := h m.frame
  exact ⟨.of_frame hm hd, by simp [hg]⟩

theorem giveBack (amount : Nat) :
    Takes (fun _ => -(amount : Int)) (-amount) (giveBack amount) := fun m => by
  unfold MachineM.giveBack
  by_cases h : m.frame.gasLeft + amount < countLimit
  · simp only [if_pos h]
    refine ⟨.of_frame rfl rfl, ?_⟩
    dsimp only
    omega
  · simp only [if_neg h]
    intro _
    omega

private theorem checkRefund (amount : Int) : Takes (fun _ => 0) 0 (checkRefund amount) := fun m => by
  unfold MachineM.checkRefund
  split
  · exact ⟨.refl m, by simp⟩
  · exact nofun

theorem addRefund (amount : Int) : Takes (fun _ => 0) 0 (addRefund amount) :=
  .next (.checkRefund amount) fun _ => .modifyFrame fun _ => ⟨rfl, rfl, rfl⟩

theorem charge (amount : Nat) : Takes (fun _ => (amount : Int)) 0 (charge amount) := fun m => by
  unfold MachineM.charge
  by_cases h : amount ≤ m.frame.gasLeft
  · simp only [if_pos h]
    refine ⟨.of_frame rfl rfl, ?_⟩
    dsimp only
    omega
  · simp only [if_neg h]
    exact ⟨.refl m, by simp⟩

theorem pay (amount : Nat) : Takes (fun _ => 0) 0 (MachineM.charge amount) :=
  (charge amount).mono (fun _ => by omega) (by omega)

theorem pop : Takes (fun _ => 0) 0 pop := fun m => by
  unfold MachineM.pop
  split
  · exact ⟨.of_frame rfl rfl, by simp⟩
  · exact ⟨.refl m, by omega⟩

theorem popAddress : Takes (fun _ => 0) 0 popAddress :=
  .next .pop fun _ => .pure (Int.le_refl 0)

theorem popExtent : Takes (fun _ => 0) 0 popExtent :=
  .next .pop fun _ => .next .pop fun _ => .pure (Int.le_refl 0)

theorem popMany (n : Nat) : Takes (fun _ => 0) 0 (popMany n) := by
  induction n with
  | zero => exact .pure (Int.le_refl 0)
  | succ n ih => exact .next .pop fun _ => .next ih fun _ => .pure (Int.le_refl 0)

theorem changeStack (change : Stack → Except Halt Stack) :
    Takes (fun _ => 0) 0 (changeStack change) := fun m => by
  unfold MachineM.changeStack
  split
  · exact ⟨.of_frame rfl rfl, by simp⟩
  · exact ⟨.refl m, by omega⟩

theorem push (w : Word) : Takes (fun _ => 0) 0 (push w) := changeStack _

theorem pushNat (n : Nat) : Takes (fun _ => 0) 0 (pushNat n) := push _

theorem unary (f : Word → Word) : Takes (fun _ => 0) 0 (unary f) := .next .pop fun _ => .push _

theorem binary (f : Word → Word → Word) : Takes (fun _ => 0) 0 (binary f) :=
  .next .pop fun _ => .next .pop fun _ => .push _

theorem ternary (f : Word → Word → Word → Word) : Takes (fun _ => 0) 0 (ternary f) :=
  .next .pop fun _ => .next .pop fun _ => .next .pop fun _ => .push _

theorem writeMemory (offset : Word) (bytes : ByteArray) :
    Takes (fun _ => 0) e (writeMemory offset bytes) :=
  .modifyFrame fun f => by
    unfold Frame.writeMemory
    split <;> exact ⟨rfl, rfl, rfl⟩

theorem setReturnData (data : ByteArray) : Takes (fun _ => 0) e (setReturnData data) :=
  .modifyFrame fun _ => ⟨rfl, rfl, rfl⟩

theorem warmAddress (a : Address) : Takes (fun _ => 0) e (warmAddress a) :=
  .next .frame fun _ => .next (.modifyFrame fun _ => ⟨rfl, rfl, rfl⟩) fun _ => .pure (Int.le_refl 0)

theorem warmSlot (key : SlotKey) : Takes (fun _ => 0) e (warmSlot key) :=
  .next .frame fun _ => .next (.modifyFrame fun _ => ⟨rfl, rfl, rfl⟩) fun _ => .pure (Int.le_refl 0)

/-! ### Changing the world -/

theorem modifyWorld {g : World → World} (he : ∀ w : World, w.Evolves (g w))
    (ht : ∀ w, (g w).total = w.total) :
    Takes (fun _ => 0) e (modifyWorld g) := fun m => ⟨.of_world (he m.world) (ht m.world), by simp⟩

theorem incrementNonce (a : Address) :
    Takes (fun _ => 0) e (changeWorld (World.incrementNonce a)) := fun m => by
  match hr : World.incrementNonce a m.world with
  | .ok () w' =>
    rw [changeWorld_of_ok hr]
    exact ⟨.of_world (.incrementNonce hr) (World.total_incrementNonce hr), by simp⟩
  | .error cause w' =>
    rw [changeWorld_of_error hr]
    rintro rfl
    exact World.OverflowsIf.incrementNonce (p := fun _ => _) a _ _ _ hr rfl

end Takes

end MachineM

end StateTransition
