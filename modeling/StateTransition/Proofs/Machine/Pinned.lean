import StateTransition.Proofs.Machine.Behaviour
import StateTransition.Proofs.Machine.Nesting
import StateTransition.Proofs.World.Pinned

/-! No code takes the nonce of an account back that has sent a transaction: none runs for that account,
none is put in its place, and it is never destroyed. -/
namespace StateTransition

open World (Pins)

variable {a : Address} {n : Nat} {rules : Rules} {env : Environment} {children : Option Children}

structure Children.Spare (a : Address) (n : Nat) (c : Children) : Prop where
  call : ∀ m : Message, a ∉ m.destroyed → (m.target = a → m.code = ByteArray.empty) →
    Pins a n (fun f => a ∉ f.destroyed) (c.call m)
  create : ∀ m : Message, a ∉ m.destroyed → m.target ≠ a →
    Pins a n (fun f => a ∉ f.destroyed) (c.create m)

namespace Machine

/-- A frame of another account, that leaves a pinned account alone. -/
structure Spares (a : Address) (n : Nat) (m : Machine) : Prop where
  world : m.world.Pinned a n
  target : m.frame.message.target ≠ a
  destroyed : a ∉ m.frame.destroyed

variable {m m' : Machine} {w₁ w' : World} {run : WorldM Frame} {cause : WorldError}

/-- A call runs the code of its target, or some code for the frame's own account. -/
private theorem code_eq_empty_of_target {msg : Message} {w : World} {r : Request} (hr : r.From msg w)
    (hw : w.Pinned a n) (ht : msg.target ≠ a) (ha : r.target = a) :
    w.code r.codeAddress = ByteArray.empty := by
  cases hr with
  | call | static =>
    cases ha
    exact hw.code_eq_empty
  | code | delegate => exact absurd ha ht

private theorem Opens.pins (h : Opens children m run w₁) (hc : ∀ c ∈ children, c.Spare a n) (hn : n ≠ 0)
    (hm : m.Spares a n) : w₁.Pinned a n ∧ Pins a n (fun f => a ∉ f.destroyed) run := by
  cases h with
  | call hmem hr =>
    exact ⟨hm.world, (hc _ hmem).call _ hm.destroyed fun ha =>
      code_eq_empty_of_target hr hm.world hm.target ha⟩
  | create hmem _ _ hfree hraise =>
    exact ⟨((Pins.incrementNonce hm.target).ok hm.world hraise).1,
      (hc _ hmem).create _ hm.destroyed (hm.world.ne_of_free hn hfree)⟩

private theorem not_mem_absorb {f child : Frame} {w : World} (hf : a ∉ f.destroyed) (hchild : a ∉ child.destroyed) :
    a ∉ (f.absorb rules w child).destroyed := by
  unfold Frame.absorb
  split
  · rw [Frame.absorbSuccess, Std.ExtTreeSet.mem_union_iff]
    exact fun h => h.elim hf hchild
  · exact hf

private theorem Effect.spares (h : Effect rules children m m') (hc : ∀ c ∈ children, c.Spare a n) (hn : n ≠ 0)
    (hm : m.Spares a n) : m'.Spares a n := by
  cases h with
  | frame h => exact ⟨hm.world, h.message ▸ hm.target, h.destroyed ▸ hm.destroyed⟩
  | log => exact ⟨hm.world, hm.target, hm.destroyed⟩
  | write key new => exact ⟨hm.world.setSlot _ key new, hm.target, hm.destroyed⟩
  | collide _ _ hraise =>
    exact ⟨((Pins.incrementNonce hm.target).ok hm.world hraise).1, hm.target, hm.destroyed⟩
  | child gasLeft hopen hrun =>
    obtain ⟨hw₁, hpins⟩ := hopen.pins hc hn hm
    obtain ⟨hw₂, hchild⟩ := hpins.ok hw₁ hrun
    refine ⟨hw₂, ?_, not_mem_absorb hm.destroyed hchild⟩
    rw [Frame.absorb_message]
    exact hm.target
  | destroy heir _ hgive =>
    obtain ⟨hw₁, -⟩ := (Pins.addBalance heir _).ok hm.world hgive
    refine ⟨hw₁.setBalance _ 0, hm.target, fun h => ?_⟩
    rcases Std.ExtTreeSet.mem_insert.mp h with h | h
    · exact hm.target (Std.compare_eq_iff_eq.mp h)
    · exact hm.destroyed h

private theorem Effects.spares (h : Effects rules children m m') (hc : ∀ c ∈ children, c.Spare a n) (hn : n ≠ 0)
    (hm : m.Spares a n) : m'.Spares a n := by
  induction h with
  | refl => exact hm
  | tail _ hlast ih => exact hlast.spares hc hn ih

private theorem Fault.pinned (h : Fault children m cause w') (hc : ∀ c ∈ children, c.Spare a n) (hn : n ≠ 0)
    (hm : m.Spares a n) : w'.Pinned a n := by
  cases h with
  | overflow => exact hm.world
  | childOverflow _ hopen hrun =>
    obtain ⟨hw₁, hpins⟩ := hopen.pins hc hn hm
    exact (hpins.ok hw₁ hrun).1
  | child hopen hrun =>
    obtain ⟨hw₁, hpins⟩ := hopen.pins hc hn hm
    exact hpins.error hw₁ hrun
  | heir heir hgive => exact (Pins.addBalance heir _).error hm.world hgive

end Machine

namespace MachineM

/-- An end that leaves a frame and a world as they are, but for what the frame computes with. -/
def Idle (f : Frame) (w : World) (r : EStateM.Result Stop Machine Unit) : Prop :=
  ∃ f' : Frame, f'.destroyed = f.destroyed ∧
    (r = .ok () ⟨f', w⟩ ∨ (∃ cause, r = .error (.failure (.halt cause)) ⟨f', w⟩) ∨
      r = .error (.fault .bufferOverflow) ⟨f', w⟩)

/-- A built-in contract has no effect on the world, and destroys nothing. -/
private theorem idle_precompile (rules : Rules) (index : UInt8) (s : Machine) :
    Idle s.frame s.world (Precompile.run rules index s) := by
  rw [Precompile.run, frame_bind]
  cases Precompile.price rules index s.frame.message.data with
  | error cause => exact ⟨s.frame, rfl, .inr (.inl ⟨cause, rfl⟩)⟩
  | ok amount =>
    dsimp only
    by_cases hpaid : amount ≤ s.frame.gasLeft
    · rw [bind_of_ok (if_pos hpaid)]
      match h : Precompile.evaluate index s.frame.message.data with
      | .error stop =>
        refine ⟨{ s.frame with gasLeft := s.frame.gasLeft - amount }, rfl, .inr ?_⟩
        obtain ⟨cause, rfl⟩ | ⟨rfl, -⟩ := Precompile.evaluate_error h
        · exact .inl ⟨cause, rfl⟩
        · exact .inr rfl
      | .ok output =>
        exact ⟨{ s.frame with gasLeft := s.frame.gasLeft - amount, output, running := false }, rfl,
          .inl rfl⟩
    · rw [bind_of_error (if_neg hpaid)]
      exact ⟨s.frame, rfl, .inr (.inl ⟨_, rfl⟩)⟩

/-- Where there is no code nothing happens to the world. -/
private theorem idle_start (env : Environment) (children : Option Children) {f : Frame} (w : World)
    (h : f.code = ByteArray.empty) : Idle f w (start env children ⟨f, w⟩) := by
  have hrun : run env children ⟨f, w⟩ = .ok () ⟨f, w⟩ := by
    rw [run, frame_bind, steps, frame_bind, if_neg]
    · rfl
    · simp [h]
  rw [start, frame_bind]
  cases f.message.codeAddress with
  | none => exact ⟨f, rfl, .inl hrun⟩
  | some b =>
    dsimp only
    split
    · exact idle_precompile env.rules _ ⟨f, w⟩
    · exact ⟨f, rfl, .inl hrun⟩

end MachineM

namespace Message

variable {m : Message}

private theorem runCode_of_empty (env : Environment) (children : Option Children) (w : World)
    (h : m.code = ByteArray.empty) :
    (∃ f, m.runCode env children w = .ok f w ∧ f.destroyed = m.destroyed) ∨
      m.runCode env children w = .error .bufferOverflow w := by
  have hcode : (Frame.ofMessage m).code = ByteArray.empty := h
  obtain ⟨f, hd, hs | ⟨cause, hs⟩ | hs⟩ := MachineM.idle_start env children w hcode
  · exact .inl ⟨f, by rw [runCode, hs], hd⟩
  · exact .inl ⟨f.halt cause, by rw [runCode, hs], hd⟩
  · exact .inr (by rw [runCode, hs])

private theorem pins_runCode (hc : ∀ c ∈ children, c.Spare a n) (hn : n ≠ 0) (hd : a ∉ m.destroyed)
    (hcode : m.target = a → m.code = ByteArray.empty) :
    Pins a n (fun f => a ∉ f.destroyed) (m.runCode env children) := fun w hw => by
  by_cases ht : m.target = a
  · obtain ⟨f, hrun, hf⟩ | hrun := runCode_of_empty env children w (hcode ht)
    · have hspared : a ∉ f.destroyed := hf ▸ hd
      rw [EStateM.run, hrun]
      exact ⟨hw, hspared⟩
    · rw [EStateM.run, hrun]
      exact hw
  · have hm : Machine.Spares a n ⟨.ofMessage m, w⟩ := ⟨hw, ht, hd⟩
    match hrun : (m.runCode env children).run w with
    | .ok f w' =>
      obtain ⟨f₁, heffects, hf⟩ := runCode_effects hrun
      have hf₁ := heffects.spares hc hn hm
      refine ⟨hf₁.world, ?_⟩
      rcases hf with rfl | ⟨cause, rfl⟩ | rfl <;> exact hf₁.destroyed
    | .error cause w' =>
      obtain ⟨s, heffects, hfault⟩ := runCode_fault hrun
      exact hfault.pinned hc hn (heffects.spares hc hn hm)

private theorem pins_enter (m : Message) : Pins a n (fun _ => True) m.enter :=
  .next (.modify fun _ hw => hw.checkpoint) fun _ => .next (.modify fun _ hw => hw.touch m.target) fun _ =>
    .ite (fun _ => .transfer _ _ _) fun _ => .pure trivial

private theorem pins_callWith (hc : ∀ c ∈ children, c.Spare a n) (hn : n ≠ 0) (hd : a ∉ m.destroyed)
    (hcode : m.target = a → m.code = ByteArray.empty) :
    Pins a n (fun f => a ∉ f.destroyed) (m.callWith env children) :=
  .next (pins_enter m) fun _ => .bind (pins_runCode hc hn hd hcode) fun _ hf =>
    .ite (fun _ => .next .commit fun _ => .pure hf) fun _ => .next .revert fun _ => .pure hf

private theorem pins_clear (ht : m.target ≠ a) : Pins a n (fun _ => True) (m.clear rules) :=
  .next (.modify fun _ hw => hw.checkpoint) fun _ =>
    .next (.modify fun _ hw => hw.destroyStorage m.target) fun _ =>
      .next (.modify fun _ hw => hw.markCreated m.target) fun _ =>
        .ite (fun _ => .incrementNonce ht) fun _ => .pure trivial

private theorem pins_install (ht : m.target ≠ a) {f : Frame} (hf : a ∉ f.destroyed) :
    Pins a n (fun f => a ∉ f.destroyed) (m.install rules f) := by
  obtain ⟨gasLeft, -, ⟨-, hi⟩ | hi | ⟨cause, hi⟩⟩ := install_cases rules m f
  · exact hi ▸ .next (.modify fun _ hw => hw.setCode ht _) fun _ => .next .commit fun _ => .pure hf
  · exact hi ▸ .next .commit fun _ => .pure hf
  · exact hi ▸ .next .revert fun _ => .pure hf

private theorem pins_createWith (hc : ∀ c ∈ children, c.Spare a n) (hn : n ≠ 0) (hd : a ∉ m.destroyed)
    (ht : m.target ≠ a) : Pins a n (fun f => a ∉ f.destroyed) (m.createWith env children) :=
  .next (pins_clear ht) fun _ => .bind (pins_callWith hc hn hd fun h => absurd h ht) fun _ hf =>
    .ite (fun _ => pins_install ht hf) fun _ => .next .revert fun _ => .pure hf

end Message

private theorem Children.spare_ofRoom (hn : n ≠ 0) (env : Environment) (room : Nat) :
    ∀ c ∈ Children.ofRoom env room, c.Spare a n :=
  ofRoom_induction env (fun _ hc =>
    ⟨fun _ hd hcode => Message.pins_callWith hc hn hd hcode,
      fun _ hd ht => Message.pins_createWith hc hn hd ht⟩) room

/-- The message of a transaction leaves an account pinned, whose code is not run, and does not destroy
it. -/
theorem Message.pins_execute {m : Message} (hn : n ≠ 0) (hd : a ∉ m.destroyed)
    (hcode : m.isCreation = false → m.target = a → m.code = ByteArray.empty) (room : Nat) :
    Pins a n (fun o => a ∉ o.destroyed) (m.execute env room) := by
  have hc := Children.spare_ofRoom (a := a) hn env room
  have hleaves : ∀ f : Frame, a ∉ f.destroyed → a ∉ (Outcome.ofFrame f).destroyed := fun f hf => by
    unfold Outcome.ofFrame
    split
    · exact hf
    · exact Std.ExtTreeSet.not_mem_empty
  unfold execute
  split
  · refine .bind .get fun w hw => .ite (fun _ => .pure Std.ExtTreeSet.not_mem_empty) fun hfree => ?_
    have ht := hw.ne_of_free hn (by simpa using hfree)
    exact .bind (pins_createWith hc hn hd ht) fun f hf => .pure (hleaves f hf)
  · next hcall =>
    refine .bind (pins_callWith hc hn hd (hcode (by simpa using hcall))) fun f hf => ?_
    exact .bind .get fun _ _ => .ite (fun _ => .pure (hleaves _ hf)) fun _ => .pure (hleaves f hf)

end StateTransition
