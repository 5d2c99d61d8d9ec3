import StateTransition.Machine.Call
import StateTransition.Proofs.World.Evolution
import StateTransition.Proofs.World.Total

/-! What the steps of a machine have in common: they answer the same message, keep every open
checkpoint, and make no wei. How much gas each takes is counted beside. -/
namespace StateTransition

/-- What happens to a frame and the world while operations are done. Wei may only get lost, and only
if an account was destroyed. -/
structure Machine.Advance (m m' : Machine) : Prop where
  message : m'.frame.message = m.frame.message
  evolves : m.world.Evolves m'.world
  destroyed : m'.frame.destroyed = ∅ → m.frame.destroyed = ∅
  total_le : m.world.WellFormed → m'.world.total ≤ m.world.total
  total_eq : m.world.WellFormed → m'.frame.destroyed = ∅ → m'.world.total = m.world.total

namespace Machine.Advance

variable {m m' m'' : Machine}

theorem trans (h : m.Advance m') (h' : m'.Advance m'') : m.Advance m'' where
  message := h'.message.trans h.message
  evolves := h.evolves.trans h'.evolves
  destroyed hd := h.destroyed (h'.destroyed hd)
  total_le hw := Nat.le_trans (h'.total_le (h.evolves.wellFormed hw)) (h.total_le hw)
  total_eq hw hd := (h'.total_eq (h.evolves.wellFormed hw) hd).trans (h.total_eq hw (h'.destroyed hd))

/-- A step that leaves the world alone. -/
theorem of_frame {f f' : Frame} {w : World} (hm : f'.message = f.message)
    (hd : f'.destroyed = f.destroyed) : Advance ⟨f, w⟩ ⟨f', w⟩ where
  message := hm
  evolves := .refl w
  destroyed h := hd ▸ h
  total_le _ := Nat.le_refl _
  total_eq _ _ := rfl

theorem refl (m : Machine) : m.Advance m := of_frame rfl rfl

/-- A step that leaves the frame alone and moves no wei. -/
theorem of_world {f : Frame} {w w' : World} (he : w.Evolves w') (ht : w'.total = w.total) :
    Advance ⟨f, w⟩ ⟨f, w'⟩ where
  message := rfl
  evolves := he
  destroyed := id
  total_le _ := Nat.le_of_eq ht
  total_eq _ _ := ht

/-- An account is destroyed and leaves its balance. What the heir is given the owner has lost, and at
least so much where both are one. -/
theorem of_destruction {f f' : Frame} {w w₁ : World} {owner heir : Address}
    (hm : f'.message = f.message) (hd : f'.destroyed = f.destroyed.insert owner)
    (hgive : World.addBalance heir (w.balance owner) w = .ok () w₁) :
    Advance ⟨f, w⟩ ⟨f', w₁.setBalance owner 0⟩ where
  message := hm
  evolves := (World.Evolves.addBalance hgive).trans (.of_change (.setAccount owner _ w₁))
  destroyed h := absurd (hd ▸ h) Std.ExtTreeSet.insert_ne_empty
  total_le _ := by
    have hadd := World.total_addBalance hgive
    have hset := World.total_setBalance owner 0 w₁
    have hown := World.balance_le_addBalance hgive owner
    have hzero : (0 : Word).toNat = 0 := rfl
    dsimp only
    omega
  -- The owner is destroyed, so wei may be lost here, as they are when the owner is its own heir.
  total_eq _ h := absurd (hd ▸ h) Std.ExtTreeSet.insert_ne_empty

end Machine.Advance

namespace MachineM

variable {α β : Type} {k j : α → Int} {e : Int}

/-- Where a computation may lead that takes `k` gas or more if it goes on and `e` or more if it
stops; what is below zero is given back. A fault ends the transaction, so that nothing is asked of
the machine, but gas is too much for a count only if it was from the start. -/
def Bounds (m : Machine) (k : α → Int) (e : Int) : EStateM.Result Stop Machine α → Prop
  | .ok a m' => m.Advance m' ∧ m'.frame.gasLeft + k a ≤ m.frame.gasLeft
  | .error (.failure _) m' => m.Advance m' ∧ m'.frame.gasLeft + e ≤ m.frame.gasLeft
  | .error (.fault cause) _ => cause = .gasOverflow → countLimit ≤ m.frame.gasLeft - e

/-- A computation that takes `k` gas or more if it goes on, and `e` or more if it stops. -/
def Takes (k : α → Int) (e : Int) (x : MachineM α) : Prop := ∀ m, Bounds m k e (x m)

theorem bind_of_ok {x : MachineM α} {f : α → MachineM β} {m m' : Machine} {a : α}
    (h : x m = .ok a m') : (x >>= f) m = f a m' := by
  simp only [bind, EStateM.bind, h]

theorem bind_of_error {x : MachineM α} {f : α → MachineM β} {m m' : Machine} {stop : Stop}
    (h : x m = .error stop m') : (x >>= f) m = .error stop m' := by
  simp only [bind, EStateM.bind, h]

theorem bind_congr_left {x y : MachineM α} {m : Machine} (f : α → MachineM β) (h : x m = y m) :
    (x >>= f) m = (y >>= f) m := by
  simp only [bind, EStateM.bind, h]

theorem bind_congr_of_ok {x : MachineM α} {f g : α → MachineM β} {m : Machine}
    (h : ∀ a m', x m = .ok a m' → f a m' = g a m') : (x >>= f) m = (x >>= g) m := by
  match hr : x m with
  | .ok a m' => rw [bind_of_ok hr, bind_of_ok hr, h a m' hr]
  | .error stop m' => rw [bind_of_error hr, bind_of_error hr]

namespace Takes

theorem ok {x : MachineM α} (h : Takes k e x) {m m' : Machine} {a : α} (hx : x m = .ok a m') :
    m.Advance m' ∧ m'.frame.gasLeft + k a ≤ m.frame.gasLeft := by
  have hm := h m
  rwa [hx] at hm

theorem failure {x : MachineM α} (h : Takes k e x) {m m' : Machine} {cause : Failure}
    (hx : x m = .error (.failure cause) m') :
    m.Advance m' ∧ m'.frame.gasLeft + e ≤ m.frame.gasLeft := by
  have hm := h m
  rwa [hx] at hm

theorem overflow {x : MachineM α} (h : Takes k e x) {m m' : Machine}
    (hx : x m = .error (.fault .gasOverflow) m') : countLimit ≤ m.frame.gasLeft - e := by
  have hm := h m
  rw [hx] at hm
  exact hm rfl

theorem mono {k' : α → Int} {e' : Int} {x : MachineM α} (h : Takes k e x) (hk : ∀ a, k' a ≤ k a)
    (he : e' ≤ e) : Takes k' e' x := by
  intro m
  match hx : x m with
  | .ok a m' =>
    have hm := h.ok hx
    have := hk a
    exact ⟨hm.1, by omega⟩
  | .error (.failure cause) m' =>
    have hm := h.failure hx
    exact ⟨hm.1, by omega⟩
  | .error (.fault cause) m' =>
    rintro rfl
    have := h.overflow hx
    omega

theorem pure {a : α} (h : k a ≤ 0) : Takes k e (pure a) :=
  fun m => ⟨.refl m, by omega⟩

theorem bind {l : β → Int} {x : MachineM α} {f : α → MachineM β} (hx : Takes j e x)
    (hf : ∀ a, Takes (fun b => l b - j a) (e - j a) (f a)) : Takes l e (x >>= f) := by
  intro m
  match hr : x m with
  | .error (.failure cause) m₁ =>
    rw [bind_of_error hr]
    exact hx.failure hr
  | .error (.fault cause) m₁ =>
    rw [bind_of_error hr]
    rintro rfl
    exact hx.overflow hr
  | .ok a m₁ =>
    rw [bind_of_ok hr]
    obtain ⟨hadv, hgas⟩ := hx.ok hr
    match hr₁ : f a m₁ with
    | .error (.failure cause) m₂ =>
      obtain ⟨hadv₁, hgas₁⟩ := (hf a).failure hr₁
      exact ⟨hadv.trans hadv₁, by omega⟩
    | .error (.fault cause) m₂ =>
      rintro rfl
      have := (hf a).overflow hr₁
      omega
    | .ok b m₂ =>
      obtain ⟨hadv₁, hgas₁⟩ := (hf a).ok hr₁
      exact ⟨hadv.trans hadv₁, by omega⟩

/-- What is free at first leaves all to be counted for what follows. -/
theorem next {l : β → Int} {x : MachineM α} {f : α → MachineM β} (hx : Takes (fun _ => 0) e x)
    (hf : ∀ a, Takes l e (f a)) : Takes l e (x >>= f) :=
  hx.bind fun a => by simpa only [Int.sub_zero] using hf a

end Takes

end MachineM

end StateTransition
