import StateTransition.Proofs.World.Revert
import StateTransition.Proofs.Outcome

/-! Longer ways between two worlds, on which checkpoints are opened and closed again. Whatever was
open before can still be reverted to. -/
namespace StateTransition

/-- Whether a number or a buffer was too short, which says nothing of a world. -/
def WorldError.isOverflow : WorldError → Bool
  | .gasOverflow | .overflow | .bufferOverflow => true
  | _ => false

theorem WorldError.isOverflow_iff {cause : WorldError} :
    cause.isOverflow = true ↔ cause = .gasOverflow ∨ cause = .overflow ∨ cause = .bufferOverflow := by
  cases cause <;> simp [isOverflow]

namespace World

variable {w w' w'' : World}

/-- A way from one world to another that closes just the checkpoints that it opens. -/
structure Evolves (w w' : World) : Prop where
  wellFormed : w.WellFormed → w'.WellFormed
  since : ∀ {start : World} {depth : Nat}, Since start depth w → Since start depth w'

theorem after_eq {m : WorldM Unit} (h : m.run w = .ok () w') : after m w = w' := by
  rw [after, h]

namespace Change

variable {a source target : Address} {amount : Word}

theorem of_incrementNonce (h : (World.incrementNonce a).run w = .ok () w') : Change w w' :=
  after_eq h ▸ Change.incrementNonce a w

theorem of_addBalance (h : (World.addBalance a amount).run w = .ok () w') : Change w w' :=
  after_eq h ▸ Change.addBalance a amount w

theorem of_subBalance (h : (World.subBalance a amount).run w = .ok () w') : Change w w' :=
  after_eq h ▸ Change.subBalance a amount w

private theorem of_transfer (h : (World.transfer source target amount).run w = .ok () w') : Change w w' :=
  after_eq h ▸ Change.transfer source target amount w

end Change

namespace Evolves

theorem refl (w : World) : Evolves w w := ⟨id, id⟩

theorem trans (h : Evolves w w') (h' : Evolves w' w'') : Evolves w w'' :=
  ⟨fun hw => h'.wellFormed (h.wellFormed hw), fun hs => h'.since (h.since hs)⟩

theorem of_change (h : Change w w') : Evolves w w' :=
  ⟨h.wellFormed, fun hs => hs.change h⟩

theorem incrementNonce {a : Address} (h : (World.incrementNonce a).run w = .ok () w') :
    Evolves w w' :=
  of_change (.of_incrementNonce h)

theorem addBalance {a : Address} {amount : Word} (h : (World.addBalance a amount).run w = .ok () w') :
    Evolves w w' :=
  of_change (.of_addBalance h)

theorem subBalance {a : Address} {amount : Word} (h : (World.subBalance a amount).run w = .ok () w') :
    Evolves w w' :=
  of_change (.of_subBalance h)

theorem transfer {source target : Address} {amount : Word}
    (h : (World.transfer source target amount).run w = .ok () w') : Evolves w w' :=
  of_change (.of_transfer h)

/-! ### Around a checkpoint -/

variable {w₁ : World}

/-- The checkpoint that was opened is the innermost one at the end. -/
private theorem opened (h : Evolves w.checkpoint w₁) (hw : w.WellFormed) : Since w 0 w₁ :=
  h.since (Since.opened hw)

theorem committed (h : Evolves w.checkpoint w₁) (hc : commit.run w₁ = .ok () w') : Evolves w w' where
  wellFormed hw := after_eq hc ▸ (h.wellFormed hw.checkpoint).commit
  since hs := after_eq hc ▸ (h.since hs.checkpoint).commit

theorem reverted (h : Evolves w.checkpoint w₁) (hr : revert.run w₁ = .ok () w') : Evolves w w' where
  wellFormed hw := after_eq hr ▸ (h.wellFormed hw.checkpoint).revert
  since hs := after_eq hr ▸ (h.since hs.checkpoint).revert

/-- The checkpoint that was opened can be closed in both ways. -/
theorem exists_commit (h : Evolves w.checkpoint w₁) (hw : w.WellFormed) :
    ∃ w', commit w₁ = .ok () w' := by
  obtain ⟨inner, hc, -⟩ := (h.opened hw).checkpoints
  have hrun := run_commit w₁
  rw [hc] at hrun
  split at hrun
  · next hnil => exact absurd hnil (by simp)
  · exact ⟨_, hrun⟩
  · exact ⟨_, hrun⟩

theorem exists_revert (h : Evolves w.checkpoint w₁) (hw : w.WellFormed) :
    ∃ w', revert w₁ = .ok () w' := by
  obtain ⟨w', hrun, -⟩ := (h.opened hw).restore
  exact ⟨w', hrun⟩

theorem commit_checkpoints (h : Evolves w.checkpoint w₁) (hw : w.WellFormed)
    (hc : commit.run w₁ = .ok () w') : w'.checkpoints = w.checkpoints := by
  obtain ⟨inner, hi, hlen⟩ := (h.opened hw).checkpoints
  rw [List.length_eq_zero_iff.mp hlen, List.nil_append] at hi
  rw [run_commit, hi] at hc
  cases hrest : w.checkpoints with
  | nil =>
    rw [hrest] at hc
    cases hc
    rfl
  | cons mark rest =>
    rw [hrest] at hc
    cases hc
    rfl

theorem revert_agrees (h : Evolves w.checkpoint w₁) (hw : w.WellFormed)
    (hr : revert.run w₁ = .ok () w') : Agrees w' w ∧ w'.checkpoints = w.checkpoints := by
  obtain ⟨w'', hr', hagrees, hcheckpoints, -⟩ := (h.opened hw).restore
  rw [hr'] at hr
  cases hr
  exact ⟨hagrees, hcheckpoints⟩

end Evolves

/-! ### Computations in sequence -/

variable {α β ε : Type} {p : WorldError → Prop}

theorem of_bind_ok {x : EStateM ε World α} {f : α → EStateM ε World β} {b : β} (h : (x >>= f) w = .ok b w'') :
    ∃ a w', x w = .ok a w' ∧ f a w' = .ok b w'' := by
  simp only [bind, EStateM.bind] at h
  split at h
  · next a w' hx => exact ⟨a, w', hx, h⟩
  · cases h

theorem of_bind_error {x : EStateM ε World α} {f : α → EStateM ε World β} {cause : ε}
    (h : (x >>= f) w = .error cause w'') :
    x w = .error cause w'' ∨ ∃ a w', x w = .ok a w' ∧ f a w' = .error cause w'' := by
  simp only [bind, EStateM.bind] at h
  split at h
  · next a w' hx => exact .inr ⟨a, w', hx, h⟩
  · next hx =>
    cases h
    exact .inl hx

/-- A computation that a number or a buffer is too short for only if `p`. -/
def OverflowsIf (p : WorldError → Prop) (x : WorldM α) : Prop :=
  ∀ (cause : WorldError) (w w' : World), x w = .error cause w' → cause.isOverflow = true → p cause

namespace OverflowsIf

theorem pure (a : α) : OverflowsIf p (pure a : WorldM α) := fun _ _ _ h => by cases h

theorem modify (f : World → World) : OverflowsIf p (modify f : WorldM Unit) := fun _ _ _ h => by cases h

theorem get : OverflowsIf p (get : WorldM World) := fun _ _ _ h => by cases h

theorem bind {x : WorldM α} {f : α → WorldM β} (hx : OverflowsIf p x)
    (hf : ∀ a, OverflowsIf p (f a)) : OverflowsIf p (x >>= f) := fun cause w w' h hcause => by
  rcases of_bind_error h with hx' | ⟨a, w₁, -, hrest⟩
  · exact hx _ _ _ hx' hcause
  · exact hf a _ _ _ hrest hcause

theorem ite {c : Prop} [Decidable c] {x y : WorldM α} (hx : OverflowsIf p x) (hy : OverflowsIf p y) :
    OverflowsIf p (if c then x else y) := by
  split
  · exact hx
  · exact hy

theorem incrementNonce (a : Address) : OverflowsIf p (World.incrementNonce a) := fun _ w w' h hcause => by
  change (World.incrementNonce a).run w = _ at h
  rw [run_incrementNonce] at h
  split at h <;> cases h
  cases hcause

theorem addBalance (a : Address) (amount : Word) : OverflowsIf p (World.addBalance a amount) :=
  fun _ w w' h hcause => by
  change (World.addBalance a amount).run w = _ at h
  rw [run_addBalance] at h
  split at h <;> cases h
  cases hcause

theorem subBalance (a : Address) (amount : Word) : OverflowsIf p (World.subBalance a amount) :=
  fun _ w w' h hcause => by
  change (World.subBalance a amount).run w = _ at h
  rw [run_subBalance] at h
  split at h <;> cases h
  cases hcause

theorem transfer (source target : Address) (amount : Word) :
    OverflowsIf p (World.transfer source target amount) :=
  .bind (.subBalance _ _) fun _ => .addBalance _ _

theorem commit : OverflowsIf p World.commit := fun _ w w' h hcause => by
  change World.commit.run w = _ at h
  rw [run_commit] at h
  split at h <;> cases h
  cases hcause

theorem revert : OverflowsIf p World.revert := fun _ w w' h hcause => by
  change World.revert.run w = _ at h
  rw [run_revert] at h
  split at h <;> cases h
  cases hcause

end OverflowsIf

end World

end StateTransition
