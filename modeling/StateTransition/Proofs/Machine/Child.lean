import StateTransition.Proofs.Machine.Payment

/-! What a frame may rely on of the messages that it sends, and what it takes to send them. -/
namespace StateTransition

/-- What a message leaves that was run to its end. -/
structure Message.Leaves (m : Message) (w : World) (f : Frame) (w' : World) : Prop where
  gas : f.gasLeft ≤ m.gas
  evolves : w.Evolves w'
  checkpoints : w.WellFormed → w'.checkpoints = w.checkpoints
  restored : w.WellFormed → f.failure ≠ none → World.Agrees w' w
  total_le : w.WellFormed → w'.total ≤ w.total
  total_eq : w.WellFormed → f.destroyed = ∅ → w'.total = w.total

/-- A way to run a message to its end or to a fault, which is for gas only if the message had more
than a count. -/
structure Message.Runs (m : Message) (run : WorldM Frame) : Prop where
  leaves : ∀ {w w' : World} {f : Frame}, run w = .ok f w' → m.Leaves w f w'
  overflow : ∀ {w w' : World}, run w = .error .gasOverflow w' → countLimit ≤ m.gas

structure Children.Lawful (c : Children) : Prop where
  call : ∀ m : Message, m.Runs (c.call m)
  create : ∀ m : Message, m.Runs (c.create m)

namespace Frame

variable {f child : Frame} {rules : Rules} {w : World}

private theorem absorb_gasLeft (rules : Rules) (w : World) (f child : Frame) :
    (f.absorb rules w child).gasLeft = f.gasLeft := by
  unfold absorb
  split <;> rfl

theorem absorb_message (rules : Rules) (w : World) (f child : Frame) :
    (f.absorb rules w child).message = f.message := by
  unfold absorb
  split <;> rfl

theorem absorb_of_failed (h : child.failure ≠ none) :
    f.absorb rules w child = f.absorbFailure rules w child := by
  rw [absorb, if_neg]
  simpa [succeeded] using h

theorem absorb_destroyed_of_failed (h : child.failure ≠ none) :
    (f.absorb rules w child).destroyed = f.destroyed := by
  rw [absorb_of_failed h]
  rfl

/-- Where nothing was destroyed in the end, nothing had been destroyed by either. -/
private theorem destroyed_of_absorb (h : (f.absorb rules w child).destroyed = ∅) :
    f.destroyed = ∅ ∧ (child.failure = none → child.destroyed = ∅) := by
  by_cases hc : child.failure = none
  · have hu : f.destroyed ∪ child.destroyed = ∅ := by
      rwa [absorb, if_pos (by simp [succeeded, hc])] at h
    rw [← Std.ExtTreeSet.isEmpty_iff, Std.ExtTreeSet.isEmpty_union, Bool.and_eq_true,
      Std.ExtTreeSet.isEmpty_iff, Std.ExtTreeSet.isEmpty_iff] at hu
    exact ⟨hu.1, fun _ => hu.2⟩
  · exact ⟨absorb_destroyed_of_failed hc ▸ h, fun he => absurd he hc⟩

end Frame

theorem Message.Leaves.advance {m : Message} {f f' child : Frame} {w w' : World}
    (h : m.Leaves w child w') (rules : Rules) (hm : f'.message = f.message)
    (hd : f'.destroyed = f.destroyed) :
    Machine.Advance ⟨f, w⟩ ⟨f'.absorb rules w' child, w'⟩ where
  message := (Frame.absorb_message rules w' f' child).trans hm
  evolves := h.evolves
  destroyed h := hd ▸ (Frame.destroyed_of_absorb h).1
  total_le := h.total_le
  total_eq hw hd := by
    by_cases hc : child.failure = none
    · exact h.total_eq hw ((Frame.destroyed_of_absorb hd).2 hc)
    · exact World.total_congr (h.restored hw hc).accounts

namespace MachineM

variable {α β : Type} {rules : Rules} {children : Option Children}

/-- A child that gives back more than a frame can is not absorbed, nor one with more gas than a count. -/
theorem absorb_eq (rules : Rules) (child : Frame) (m : Machine) :
    absorb rules child m =
      if m.frame.gasLeft + child.gasLeft < countLimit then
        if child.failure = none ∧ ¬m.frame.fitsRefund child.refund = true then
          .error (.fault .overflow) ⟨{ m.frame with gasLeft := m.frame.gasLeft + child.gasLeft }, m.world⟩
        else
          .ok () ⟨({ m.frame with gasLeft := m.frame.gasLeft + child.gasLeft } : Frame).absorb
            rules m.world child, m.world⟩
      else .error (.fault .gasOverflow) m := by
  by_cases hlt : m.frame.gasLeft + child.gasLeft < countLimit
  · have hback : giveBack child.gasLeft m =
        .ok () ⟨{ m.frame with gasLeft := m.frame.gasLeft + child.gasLeft }, m.world⟩ := if_pos hlt
    rw [if_pos hlt, absorb, bind_of_ok hback]
    by_cases hok : child.failure = none
    · have hs : child.succeeded = true := by simp [Frame.succeeded, hok]
      rw [if_pos hs]
      by_cases hroom : m.frame.fitsRefund child.refund = true
      · have hcheck : checkRefund child.refund ⟨{ m.frame with gasLeft := m.frame.gasLeft + child.gasLeft }, m.world⟩ =
            .ok () ⟨{ m.frame with gasLeft := m.frame.gasLeft + child.gasLeft }, m.world⟩ := if_pos hroom
        rw [if_neg fun h => h.2 hroom, bind_of_ok hcheck]
        rfl
      · have hcheck : checkRefund child.refund ⟨{ m.frame with gasLeft := m.frame.gasLeft + child.gasLeft }, m.world⟩ =
            .error (.fault .overflow) ⟨{ m.frame with gasLeft := m.frame.gasLeft + child.gasLeft }, m.world⟩ :=
          if_neg hroom
        rw [if_pos ⟨hok, hroom⟩, bind_of_error hcheck]
    · have hs : ¬child.succeeded = true := by simpa [Frame.succeeded] using hok
      rw [if_neg hs, if_neg fun h => hok h.1]
      rfl
  · have hback : giveBack child.gasLeft m = .error (.fault .gasOverflow) m := if_neg hlt
    rw [if_neg hlt, absorb, bind_of_error hback]

theorem runChild_of_ok {run : WorldM Frame} {m : Machine} {child : Frame} {w : World}
    (h : run m.world = .ok child w) :
    runChild rules run m =
      if m.frame.gasLeft + child.gasLeft < countLimit then
        if child.failure = none ∧ ¬m.frame.fitsRefund child.refund = true then
          .error (.fault .overflow) ⟨{ m.frame with gasLeft := m.frame.gasLeft + child.gasLeft }, w⟩
        else
          .ok child ⟨({ m.frame with gasLeft := m.frame.gasLeft + child.gasLeft } : Frame).absorb
            rules w child, w⟩
      else .error (.fault .gasOverflow) ⟨m.frame, w⟩ := by
  rw [runChild, bind_of_ok (changeWorld_of_ok h)]
  have habsorb := absorb_eq rules child ⟨m.frame, w⟩
  split at habsorb
  · next hlt =>
    rw [if_pos hlt]
    split at habsorb
    · next hover => rw [if_pos hover, bind_of_error habsorb]
    · next hover =>
      rw [if_neg hover, bind_of_ok habsorb]
      rfl
  · next hlt => rw [if_neg hlt, bind_of_error habsorb]

/-- A child that a frame goes on from is absorbed. -/
theorem runChild_ok {run : WorldM Frame} {m m' : Machine} {child a : Frame} {w : World}
    (h : run m.world = .ok child w) (hm : runChild rules run m = .ok a m') :
    a = child ∧ m.frame.gasLeft + child.gasLeft < countLimit ∧
      m' = ⟨({ m.frame with gasLeft := m.frame.gasLeft + child.gasLeft } : Frame).absorb rules w child, w⟩ := by
  rw [runChild_of_ok h] at hm
  split at hm
  · next hlt =>
    split at hm
    · cases hm
    · injection hm with ha hm
      exact ⟨ha.symm, hlt, hm.symm⟩
  · cases hm

theorem runChild_of_error {run : WorldM Frame} {m : Machine} {cause : WorldError} {w : World}
    (h : run m.world = .error cause w) :
    runChild rules run m = .error (.fault cause) ⟨m.frame, w⟩ := by
  rw [runChild, bind_of_error (changeWorld_of_error h)]

namespace Takes

/-- Once gas was given back, what follows may be free. -/
private theorem gained {gas : Nat} {x : MachineM α} {f : α → MachineM β}
    (hx : Takes (fun _ => -(gas : Int)) (-gas) x) (hf : ∀ a, Takes (fun _ => 0) 0 (f a)) :
    Takes (fun _ => -(gas : Int)) (-gas) (x >>= f) :=
  hx.bind fun a => (hf a).mono (fun _ => by omega) (by omega)

private theorem free {gas : Nat} {x : MachineM α} (hx : Takes (fun _ => 0) 0 x) :
    Takes (fun _ => -(gas : Int)) (-gas) x :=
  hx.mono (fun _ => by omega) (by omega)

private theorem refuse (gas : Nat) : Takes (fun _ => -(gas : Int)) (-gas) (refuse gas) :=
  .gained (.giveBack gas) fun _ => .push 0

/-- A child gives back what is left of its message's gas at most. -/
private theorem runChild {m : Message} {run : WorldM Frame} (h : m.Runs run) :
    Takes (fun _ => -(m.gas : Int)) (-m.gas) (runChild rules run) := fun s => by
  match hr : run s.world with
  | .ok child w' =>
    have hgas := (h.leaves hr).gas
    rw [runChild_of_ok hr]
    split
    · split
      · exact nofun
      · refine ⟨(h.leaves hr).advance rules rfl rfl, ?_⟩
        simp only [Frame.absorb_gasLeft]
        omega
    · intro _
      omega
  | .error cause w' =>
    rw [runChild_of_error hr]
    rintro rfl
    have := h.overflow hr
    omega

theorem send (hc : ∀ c ∈ children, c.Lawful) (r : Request) :
    Takes (fun _ => -(r.gas : Int)) (-r.gas) (send rules children r) :=
  .next (.setReturnData _) fun _ => by
    cases children with
    | none => exact .refuse r.gas
    | some c =>
      refine .next (.readMemory _) fun data => .next .world fun w => .next .frame fun f => ?_
      refine .gained (.runChild ((hc c rfl).call (callMessage f r data (w.code r.codeAddress))))
        fun child => ?_
      exact .next (.push _) fun _ => .next (.writeMemory _ _) fun _ => .setReturnData _

theorem sendValue (hc : ∀ c ∈ children, c.Lawful) (r : Request) :
    Takes (fun _ => -(r.gas : Int)) (-r.gas) (sendValue rules children r) :=
  .next .world fun _ => .ite
    (fun _ => .next ((push 0).mono (fun _ => Int.le_refl 0) (by omega)) fun _ =>
      .next (.setReturnData _) fun _ => .giveBack r.gas)
    fun _ => .send hc r

theorem place (hc : ∀ c ∈ children, c.Lawful) (r : CreationRequest) :
    Takes (fun _ => -(r.gas : Int)) (-r.gas) (place rules children r) :=
  .next (.setReturnData _) fun _ => .next .frame fun f => .next .world fun w => by
    cases children with
    | none => exact .refuse r.gas
    | some c =>
      refine .ite (fun _ => .refuse r.gas) fun _ => .next .world fun _ => .ite (fun _ => ?_) fun _ => ?_
      · exact .next (.incrementNonce _) fun _ => .free (.push 0)
      · refine .next (.readMemory _) fun code => .next (.incrementNonce _) fun _ =>
          .next .frame fun f => ?_
        refine .gained (.runChild
          ((hc c rfl).create (creationMessage f r.contract r.gas r.value code))) fun child => ?_
        exact .ite (fun _ => .push _) fun _ => .next (.setReturnData _) fun _ => .push 0

end Takes

end MachineM

end StateTransition
