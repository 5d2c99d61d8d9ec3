import StateTransition.Proofs.Machine.Nesting

/-! Failed frames. Whatever a frame did to accounts and storage is undone when it fails, and its
parent takes over only its gas. -/
namespace StateTransition

namespace MachineM

variable {rules : Rules} {child : Frame} {s s' : Machine}

/-- Of a child that failed a frame takes over its gas, and touches one account at most. -/
private theorem absorb_failed (h : absorb rules child s = .ok () s') (hf : child.failure ≠ none) :
    ∃ touched, (touched = s.frame.touched ∨ touched = s.frame.touched.insert stickyPrecompile) ∧
      s' = ⟨{ s.frame with gasLeft := s.frame.gasLeft + child.gasLeft, touched }, s.world⟩ := by
  rw [absorb_eq, Frame.absorb_of_failed hf, Frame.absorbFailure] at h
  rw [if_neg (c := child.failure = none ∧ _) fun hok => hf hok.1] at h
  split at h
  · cases h
    refine ⟨_, ?_, rfl⟩
    split
    · exact .inr rfl
    · exact .inl rfl
  · cases h

end MachineM

namespace Message

/-- A call or a creation that fails leaves the accounts and the storage that there were, and whether
it fails or not the same checkpoints are open. Of a child that failed its parent takes over gas, and
beside that only one account may be new among those it has touched. -/
theorem failure_restores {w w' : World} {f : Frame} (hw : World.Reachable w) (env : Environment)
    (room : Nat) (m : Message)
    (h : m.call env room w = .ok f w' ∨ m.create env room w = .ok f w') :
    (f.failure ≠ none → w'.accounts = w.accounts ∧ w'.storage = w.storage) ∧
      w'.checkpoints = w.checkpoints ∧
      ∀ (child : Frame) (s s' : Machine), child.failure ≠ none →
        MachineM.absorb env.rules child s = .ok () s' →
        ∃ touched,
          (touched = s.frame.touched ∨ touched = s.frame.touched.insert (Address.ofNumber 3)) ∧
          s' = ⟨{ s.frame with gasLeft := s.frame.gasLeft + child.gasLeft, touched }, s.world⟩ := by
  have hl : m.Leaves w f w' :=
    h.elim (fun h => (m.runs_call env room).leaves h) fun h => (m.runs_create env room).leaves h
  refine ⟨fun hf => ?_, hl.checkpoints hw.wellFormed, fun child s s' hf habsorb => ?_⟩
  · obtain ⟨ha, hs⟩ := hl.restored hw.wellFormed hf
    exact ⟨ha, hs⟩
  · exact MachineM.absorb_failed habsorb hf

/-- An account of 100 wei runs code that sends 7 of them to another account, writes a slot, and then
reverts with gas left. -/
theorem failure_restores_after_transfer :
    let code : ByteArray := ⟨#[0x60, 0, 0x60, 0, 0x60, 0, 0x60, 0, 0x60, 7, 0x60, 0x20, 0x61, 0x20, 0x00,
      0xf1, 0x60, 5, 0x60, 1, 0x55, 0x60, 0, 0x60, 0, 0xfd]⟩
    let env : Environment := ⟨Rules.ofFork .berlin, ⟨1, 0, 8000000, 0x99, 0, 1, none, []⟩, ⟨0x77, 1⟩⟩
    let m : Message :=
      { caller := 0x77, isCreation := false, target := 0x10, codeAddress := some 0x10, gas := 100000
        value := 0, data := .empty, code, movesValue := true, isStatic := false, warmAddresses := ∅
        warmSlots := ∅, destroyed := ∅ }
    let w := (World.Operation.setBalance 0x10 100).run .empty
    ∃ f w', m.call env 3 w = .ok f w' ∧ f.failure = some .revert ∧ f.gasLeft = 43567 ∧
      w'.accounts = w.accounts ∧ w'.storage = w.storage ∧ w'.checkpoints = w.checkpoints := by
  intro code env m w
  have hrun : endsWith (fun f _ => f.failure = some .revert ∧ f.gasLeft = 43567)
      (m.call env 3 w) := by decide +kernel
  obtain ⟨f, w', hr, htest⟩ := exists_of_endsWith hrun
  obtain ⟨hf, hgas⟩ := of_decide_eq_true htest
  obtain ⟨hrestored, hcheckpoints, -⟩ := failure_restores (.run .empty _) env 3 m (.inl hr)
  obtain ⟨ha, hs⟩ := hrestored (by simp [hf])
  exact ⟨f, w', hr, hf, hgas, ha, hs, hcheckpoints⟩

end Message

end StateTransition
