import StateTransition.Proofs.World.Course

/-! While no checkpoint is open the journal stays empty: nothing is noted then, and the oldest of the open
checkpoints was opened over an empty journal. -/
namespace StateTransition

namespace World

variable {w w' : World}

/-- The mark of the oldest open checkpoint is zero; while none is open the journal is empty. -/
def Anchored (w : World) : Prop := w.checkpoints.getLastD w.journal.length = 0

structure Settled (w : World) : Prop where
  checkpoints : w.checkpoints = []
  journal : w.journal = []

theorem Settled.anchored (h : w.Settled) : w.Anchored := by
  rw [Anchored, h.checkpoints, h.journal]
  rfl

theorem Settled.change (h : w.Settled) (hw : Change w w') : w'.Settled where
  checkpoints := hw.checkpoints.trans h.checkpoints
  journal := (hw.idle h.checkpoints).trans h.journal

namespace Anchored

theorem settled (h : w.Anchored) (hc : w.checkpoints = []) : w.Settled := by
  rw [Anchored, hc] at h
  exact ⟨hc, List.length_eq_zero_iff.mp h⟩

private theorem change (h : w.Anchored) (hw : Change w w') : w'.Anchored := by
  rw [Anchored, hw.checkpoints]
  cases hc : w.checkpoints with
  | nil => rw [hw.idle hc, ← hc, h]
  | cons mark rest =>
    rw [Anchored, hc, List.getLastD_cons] at h
    rwa [List.getLastD_cons]

private theorem checkpoint (h : w.Anchored) : w.checkpoint.Anchored := by
  rw [Anchored, World.checkpoint, List.getLastD_cons]
  exact h

private theorem beginTransaction (w : World) : w.beginTransaction.Anchored := rfl

private theorem commit (h : w.Anchored) : (after World.commit w).Anchored := by
  rw [after, run_commit]
  rcases hc : w.checkpoints with _ | ⟨mark, _ | ⟨mark', rest⟩⟩
  · exact h
  · rfl
  · rw [Anchored, hc, List.getLastD_cons, List.getLastD_cons] at h
    rwa [Anchored, List.getLastD_cons]

/-- Where the last checkpoint is closed, the journal is cut back to the mark of the oldest. -/
private theorem revert (h : w.Anchored) (hw : w.WellFormed) : (after World.revert w).Anchored := by
  rw [after, run_revert]
  cases hc : w.checkpoints with
  | nil => exact h
  | cons mark rest =>
    have hmarks := hw.marks
    rw [hc, List.pairwise_cons] at hmarks
    have hle : mark ≤ w.journal.length := hmarks.1 mark List.mem_cons_self
    have hlen : w.journal.length - (w.journal.length - mark) = mark := by omega
    rw [Anchored, hc, List.getLastD_cons] at h
    rw [Anchored, unwind_checkpoints, unwind_journal, List.length_drop, hlen]
    exact h

private theorem run (h : w.Anchored) (hw : w.WellFormed) (op : Operation) : (op.run w).Anchored := by
  cases op with
  | checkpoint => exact h.checkpoint
  | commit => exact h.commit
  | revert => exact h.revert hw
  | beginTransaction => exact .beginTransaction w
  | _ => exact h.change (Operation.change (d := 0) _ rfl w)

end Anchored

theorem Leads.anchored (h : Leads w w') (hw : w.WellFormed) (ha : w.Anchored) : w'.Anchored :=
  (h.preserves (P := fun w => w.WellFormed ∧ w.Anchored)
    (fun _ op _ hw => ⟨hw.1.run op, hw.2.run hw.1 op⟩) ⟨hw, ha⟩).2

end World

end StateTransition
