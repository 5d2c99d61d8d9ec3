import StateTransition.Proofs.World.Operation

/-! Reverting to a checkpoint. Whatever was done since, nested checkpoints included, the part of the
journal written since leads back to the accounts and slots that there were. -/
namespace StateTransition

namespace World

variable {start w w' : World} {depth : Nat}

/-- A world that a run has come to from `start` over a checkpoint opened there, with `depth` more
checkpoints open inside. -/
structure Since (start : World) (depth : Nat) (w : World) : Prop where
  wellFormed : w.WellFormed
  codes : ∀ (h : Hash) (code : ByteArray), start.codes[h]? = some code → w.codes[h]? = some code
  /-- The journal's new part leads back. -/
  log : ∃ undos, w.journal = undos ++ start.journal ∧ Agrees (undos.foldl undo w) start
  checkpoints : ∃ inner, w.checkpoints = inner ++ start.journal.length :: start.checkpoints ∧
    inner.length = depth

namespace Since

theorem opened (h : start.WellFormed) : Since start 0 start.checkpoint where
  wellFormed := h.checkpoint
  codes _ _ hd := hd
  log := ⟨[], rfl, rfl, rfl⟩
  checkpoints := ⟨[], rfl, rfl⟩

theorem change (h : Since start depth w) (hw : Change w w') : Since start depth w' where
  wellFormed := hw.wellFormed h.wellFormed
  codes d code hd := hw.codes d code (h.codes d code hd)
  log := by
    obtain ⟨undos, hj, hback⟩ := h.log
    obtain ⟨undos', hj', hback'⟩ := hw.log
    obtain ⟨inner, hc, -⟩ := h.checkpoints
    have hw' : Agrees (undos'.foldl undo w') w := hback' h.wellFormed (by simp [hc])
    exact ⟨undos' ++ undos, by rw [hj', hj, List.append_assoc], hw'.foldl_undo_append hback⟩
  checkpoints := by rw [hw.checkpoints]; exact h.checkpoints

theorem checkpoint (h : Since start depth w) : Since start (depth + 1) w.checkpoint where
  wellFormed := h.wellFormed.checkpoint
  codes := h.codes
  log := by
    obtain ⟨undos, hj, hback⟩ := h.log
    have hw : Agrees w.checkpoint w := ⟨rfl, rfl⟩
    exact ⟨undos, hj, (hw.foldl_undo undos).trans hback⟩
  checkpoints := by
    obtain ⟨inner, hc, hd⟩ := h.checkpoints
    exact ⟨w.journal.length :: inner, by rw [World.checkpoint, hc, List.cons_append], by simp [hd]⟩

/-- Closing an inner checkpoint leaves its changes in the journal, for the next one. -/
theorem commit (h : Since start (depth + 1) w) : Since start depth (after World.commit w) := by
  obtain ⟨undos, hj, hback⟩ := h.log
  obtain ⟨_ | ⟨mark, inner⟩, hc, hd⟩ := h.checkpoints
  · cases hd
  · have hrun : after World.commit w =
        { w with checkpoints := inner ++ start.journal.length :: start.checkpoints } := by
      rw [after, run_commit, hc]
      cases inner <;> rfl
    have hw : Agrees (after World.commit w) w := by
      rw [hrun]
      exact ⟨rfl, rfl⟩
    refine ⟨h.wellFormed.commit, ?_, ⟨undos, ?_, (hw.foldl_undo undos).trans hback⟩, inner, ?_, ?_⟩
    · rw [hrun]
      exact h.codes
    · rw [hrun]
      exact hj
    · rw [hrun]
    · simpa using hd

/-- Going back to a mark inside takes back the newest of the new part of the journal; the rest still
leads back. -/
private theorem unwind {mark : Nat} {undos : List Undo} (hj : w.journal = undos ++ start.journal)
    (hback : Agrees (undos.foldl undo w) start) (hle : start.journal.length ≤ mark) :
    ∃ rest, (w.unwind mark).journal = rest ++ start.journal ∧
      Agrees (rest.foldl undo (w.unwind mark)) start := by
  have hn : w.journal.length - mark ≤ undos.length := by
    rw [hj, List.length_append]
    omega
  have hdrop : ∀ n ≤ undos.length, w.journal.drop n = undos.drop n ++ start.journal := fun n h => by
    rw [hj, List.drop_append_of_le_length h]
  have htake : ∀ n ≤ undos.length, w.journal.take n = undos.take n := fun n h => by
    rw [hj, List.take_append_of_le_length h]
  have hw := Agrees.unwind mark w
  rw [htake _ hn] at hw
  refine ⟨undos.drop (w.journal.length - mark), hdrop _ hn, (hw.foldl_undo _).trans ?_⟩
  rw [← List.foldl_append, List.take_append_drop]
  exact hback

theorem revert (h : Since start (depth + 1) w) : Since start depth (after World.revert w) := by
  obtain ⟨undos, hj, hback⟩ := h.log
  obtain ⟨_ | ⟨mark, inner⟩, hc, hd⟩ := h.checkpoints
  · cases hd
  · have hle : start.journal.length ≤ mark := by
      have hm := h.wellFormed.marks
      rw [hc, List.cons_append, List.pairwise_cons, List.pairwise_cons] at hm
      exact hm.2.1 _ (by simp)
    have hrun : after World.revert w = World.unwind mark
        { w with checkpoints := inner ++ start.journal.length :: start.checkpoints } := by
      rw [after, run_revert, hc]
      rfl
    have hw : Agrees { w with checkpoints := inner ++ start.journal.length :: start.checkpoints } w :=
      ⟨rfl, rfl⟩
    refine ⟨h.wellFormed.revert, ?_, ?_, inner, ?_, by simpa using hd⟩
    · rw [hrun, unwind_codes]
      exact h.codes
    · rw [hrun]
      exact unwind hj ((hw.foldl_undo undos).trans hback) hle
    · rw [hrun, unwind_checkpoints]

private theorem run {depth' : Nat} (h : Since start depth w) (op : Operation)
    (hd : op.depth depth = some depth') : Since start depth' (op.run w) := by
  cases op with
  | checkpoint =>
    cases hd
    exact h.checkpoint
  | commit =>
    cases depth with
    | zero => cases hd
    | succ depth =>
      cases hd
      exact h.commit
  | revert =>
    cases depth with
    | zero => cases hd
    | succ depth =>
      cases hd
      exact h.revert
  | beginTransaction => cases hd
  | _ =>
    cases hd
    exact h.change (Operation.change (d := 0) _ rfl w)

private theorem foldl {depth' : Nat} (h : Since start depth w) (ops : List Operation)
    (hd : ops.foldlM Operation.depth depth = some depth') :
    Since start depth' (ops.foldl Operation.run w) := by
  induction ops generalizing depth w with
  | nil =>
    cases hd
    exact h
  | cons op ops ih =>
    rw [List.foldlM_cons, Option.bind_eq_bind, Option.bind_eq_some_iff] at hd
    obtain ⟨d, hop, hrest⟩ := hd
    exact ih (h.run op hop) hrest

theorem restore (h : Since start 0 w) :
    ∃ w', World.revert.run w = .ok () w' ∧ Agrees w' start ∧ w'.checkpoints = start.checkpoints ∧
      w'.journal = start.journal ∧ w'.codes = w.codes := by
  obtain ⟨undos, hj, hback⟩ := h.log
  obtain ⟨inner, hc, hd⟩ := h.checkpoints
  rw [List.length_eq_zero_iff.mp hd, List.nil_append] at hc
  have hw : Agrees { w with checkpoints := start.checkpoints } w := ⟨rfl, rfl⟩
  obtain ⟨rest, hj', hback'⟩ := unwind (w := { w with checkpoints := start.checkpoints }) hj
    ((hw.foldl_undo undos).trans hback) (Nat.le_refl _)
  have hrest : rest = [] := by
    have hlen := congrArg List.length hj'
    simp only [unwind_journal, List.length_drop, List.length_append, hj] at hlen
    exact List.length_eq_zero_iff.mp (by omega)
  subst hrest
  have hrun : World.revert.run w = .ok () (World.unwind start.journal.length
      { w with checkpoints := start.checkpoints }) := by
    rw [run_revert, hc]
  exact ⟨_, hrun, hback', unwind_checkpoints _ _, hj', unwind_codes _ _⟩

end Since

theorem code_eq_empty {a : Address} {r : Account} (ha : w.account? a = some r) (h : r.codeHash = emptyCodeHash) :
    w.code a = ByteArray.empty := by
  rw [code, ha]
  exact if_pos h

/-- Whether the code that an account's record names is there, if it names any. -/
def CodeKnown (w : World) (a : Address) : Prop :=
  ∀ r, w.account? a = some r → r.codeHash = emptyCodeHash ∨ r.codeHash ∈ w.codes

private theorem CodeKnown.code_eq {a : Address} (h : w.CodeKnown a) (ha : w'.accounts = w.accounts)
    (hcodes : ∀ (d : Hash) (code : ByteArray), w.codes[d]? = some code → w'.codes[d]? = some code) :
    w'.code a = w.code a := by
  have hr : w'.account? a = w.account? a := by rw [account?, account?, ha]
  rw [code, code, hr]
  cases hw : w.account? a with
  | none => rfl
  | some r =>
    change w'.codeOfHash r.codeHash = w.codeOfHash r.codeHash
    rw [codeOfHash, codeOfHash]
    rcases h r hw with he | hmem
    · rw [if_pos he, if_pos he]
    · have hd : w.codes[r.codeHash]? = some w.codes[r.codeHash] :=
        Std.ExtTreeMap.getElem?_eq_some_getElem hmem
      rw [hd, hcodes _ _ hd]

/-- From any world that operations lead to, whatever run of operations follows the opening of a
checkpoint, if it closes just the checkpoints it opens: to revert succeeds, and puts the very accounts
and storage back, without slots of zero and empty maps, the checkpoints and journal, and all code that
was known. -/
theorem revert_restores (hw : Reachable w) {ops : List Operation} (hn : Nested ops) :
    ∃ w', revert.run (ops.foldl Operation.run w.checkpoint) = .ok () w' ∧
      w'.accounts = w.accounts ∧ w'.storage = w.storage ∧ w'.Tidy ∧
      w'.checkpoints = w.checkpoints ∧ w'.journal = w.journal ∧
      ∀ a, w.CodeKnown a → w'.code a = w.code a := by
  have h : Since w 0 (ops.foldl Operation.run w.checkpoint) := (Since.opened hw.wellFormed).foldl ops hn
  obtain ⟨w', hrun, hagrees, hcheckpoints, hjournal, hcodes⟩ := h.restore
  refine ⟨w', hrun, hagrees.accounts, hagrees.storage, hagrees.tidy hw.wellFormed.tidy,
    hcheckpoints, hjournal, fun a ha => ha.code_eq hagrees.accounts fun d code hd => ?_⟩
  rw [hcodes]
  exact h.codes d code hd

/-- Under an outer checkpoint, over a transfer that succeeds and one that does not, a slot cleared and
an account destroyed inside two more checkpoints, of which the outer is reverted. -/
theorem revert_restores_over_nested :
    let w := [Operation.setBalance 1 100, .setSlot 1 1 7, .checkpoint, .setSlot 1 2 5].foldl
      Operation.run empty
    let ops := [Operation.transfer 1 2 40, .transfer 1 2 1000, .checkpoint, .setSlot 1 1 0, .checkpoint,
      .destroyAccount 1, .commit, .revert, .setSlot 1 2 0, .setCode 1 ⟨#[0]⟩]
    w.balance 1 = 100 ∧ w.slot 1 1 = 7 ∧ w.slot 1 2 = 5 ∧
      ∃ w', revert.run (ops.foldl Operation.run w.checkpoint) = .ok () w' ∧
        w'.accounts = w.accounts ∧ w'.storage = w.storage := by
  intro w ops
  have hw : Reachable w := Reachable.empty.foldl (fun op h => h.run op) _
  have hn : Nested ops := by decide
  obtain ⟨w', hrun, ha, hs, -⟩ := revert_restores hw hn
  exact ⟨by decide +kernel, by decide +kernel, by decide +kernel, w', hrun, ha, hs⟩

end World

end StateTransition
