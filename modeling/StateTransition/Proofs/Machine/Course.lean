import StateTransition.Proofs.Machine.Behaviour
import StateTransition.Proofs.Machine.Nesting
import StateTransition.Proofs.World.Course

/-! What code does to the world, with all that it calls: routine operations, also where it fails or ends in a
fault. -/
namespace StateTransition

open World (Leads Proceeds)

variable {rules : Rules} {env : Environment} {children : Option Children} {m : Message}

structure Children.Proceed (c : Children) : Prop where
  call : ∀ m : Message, Proceeds (c.call m)
  create : ∀ m : Message, Proceeds (c.create m)

namespace Machine

variable {m m' : Machine} {w₁ w' : World} {run : WorldM Frame} {cause : WorldError}

private theorem Opens.leads (h : Opens children m run w₁) (hc : ∀ c ∈ children, c.Proceed) :
    Leads m.world w₁ ∧ Proceeds run := by
  cases h with
  | call hmem => exact ⟨.refl, (hc _ hmem).call _⟩
  | create hmem _ _ _ hraise => exact ⟨(Proceeds.incrementNonce _).ok hraise, (hc _ hmem).create _⟩

private theorem Effect.leads (h : Effect rules children m m') (hc : ∀ c ∈ children, c.Proceed) :
    Leads m.world m'.world := by
  cases h with
  | frame | log => exact .refl
  | write key new => exact .single (.setSlot _ key new) trivial _
  | collide _ _ hraise => exact (Proceeds.incrementNonce _).ok hraise
  | child gasLeft hopen hrun =>
    obtain ⟨hw₁, hproceeds⟩ := hopen.leads hc
    exact hw₁.trans (hproceeds.ok hrun)
  | destroy heir _ hgive => exact ((Proceeds.addBalance heir _).ok hgive).run (.setBalance _ 0) trivial

private theorem Effects.leads (h : Effects rules children m m') (hc : ∀ c ∈ children, c.Proceed) :
    Leads m.world m'.world := by
  induction h with
  | refl => exact .refl
  | tail _ hlast ih => exact ih.trans (hlast.leads hc)

private theorem Fault.leads (h : Fault children m cause w') (hc : ∀ c ∈ children, c.Proceed) : Leads m.world w' := by
  cases h with
  | overflow => exact .refl
  | childOverflow _ hopen hrun =>
    obtain ⟨hw₁, hproceeds⟩ := hopen.leads hc
    exact hw₁.trans (hproceeds.ok hrun)
  | child hopen hrun =>
    obtain ⟨hw₁, hproceeds⟩ := hopen.leads hc
    exact hw₁.trans (hproceeds.error hrun)
  | heir heir hgive => exact (Proceeds.addBalance heir _).error hgive

end Machine

namespace Message

private theorem proceeds_runCode (hc : ∀ c ∈ children, c.Proceed) (m : Message) : Proceeds (m.runCode env children) :=
  fun w => by
  match hrun : m.runCode env children w with
  | .ok f w' =>
    obtain ⟨f₁, heffects, -⟩ := runCode_effects hrun
    exact heffects.leads hc
  | .error cause w' =>
    obtain ⟨s, heffects, hfault⟩ := runCode_fault hrun
    exact (heffects.leads hc).trans (hfault.leads hc)

private theorem proceeds_enter (m : Message) : Proceeds m.enter :=
  .bind (.modify (.single .checkpoint trivial)) fun _ =>
    .bind (.modify (.single (.touch m.target) trivial)) fun _ => .ite (.transfer _ _ _) (.pure _)

private theorem proceeds_callWith (hc : ∀ c ∈ children, c.Proceed) (m : Message) : Proceeds
    (m.callWith env children) :=
  .bind (proceeds_enter m) fun _ => .bind (proceeds_runCode hc m) fun _ =>
    .ite (.bind .commit fun _ => .pure _) (.bind .revert fun _ => .pure _)

private theorem proceeds_clear (m : Message) : Proceeds (m.clear rules) :=
  .bind (.modify (.single .checkpoint trivial)) fun _ =>
    .bind (.modify (.single (.destroyStorage m.target) trivial)) fun _ =>
      .bind (.modify (.single (.markCreated m.target) trivial)) fun _ => .ite (.incrementNonce _) (.pure _)

private theorem proceeds_install (m : Message) (f : Frame) : Proceeds (m.install rules f) := by
  obtain ⟨gasLeft, -, ⟨-, hi⟩ | hi | ⟨cause, hi⟩⟩ := install_cases rules m f
  · exact hi ▸ .bind (.modify (.single (.setCode m.target f.output) trivial)) fun _ => .bind .commit fun _ => .pure _
  · exact hi ▸ .bind .commit fun _ => .pure _
  · exact hi ▸ .bind .revert fun _ => .pure _

private theorem proceeds_createWith (hc : ∀ c ∈ children, c.Proceed) (m : Message) :
    Proceeds (m.createWith env children) :=
  .bind (proceeds_clear m) fun _ => .bind (proceeds_callWith hc m) fun f =>
    .ite (proceeds_install m f) (.bind .revert fun _ => .pure _)

end Message

private theorem Children.proceed_ofRoom (env : Environment) (room : Nat) :
    ∀ c ∈ Children.ofRoom env room, c.Proceed :=
  ofRoom_induction env (fun _ hc => ⟨Message.proceeds_callWith hc, Message.proceeds_createWith hc⟩) room

/-- All that the message of a transaction does comes to routine operations. -/
theorem Message.proceeds_execute (room : Nat) (m : Message) : Proceeds (m.execute env room) :=
  have hc := Children.proceed_ofRoom env room
  .ite (.bind .get fun _ => .ite (.pure _) (.bind (proceeds_createWith hc m) fun _ => .pure _))
    (.bind (proceeds_callWith hc m) fun _ => .bind .get fun _ => .ite (.pure _) (.pure _))

end StateTransition
