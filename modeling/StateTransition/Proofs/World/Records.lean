import StateTransition.Proofs.World.Total

/-! Properties of records that no revert can break: they hold of every record that an account has, and of
every one that the journal would put back. -/
namespace StateTransition

namespace World

/-- Every record has a property, also each that the journal holds. -/
structure Records (P : Address → Option Account → Prop) (w : World) : Prop where
  account : ∀ a, P a (w.account? a)
  journal : ∀ a record, Undo.account a record ∈ w.journal → P a record

variable {P Q : Address → Option Account → Prop} {w w' : World}

theorem mem_journal_record {u v : Undo} (h : v ∈ (w.record u).journal) : v = u ∨ v ∈ w.journal := by
  unfold record at h
  split at h
  · exact .inr h
  · exact List.mem_cons.mp h

namespace Records

theorem mono (h : w.Records P) (hPQ : ∀ a record, P a record → Q a record) : w.Records Q :=
  ⟨fun a => hPQ a _ (h.account a), fun a record hr => hPQ a record (h.journal a record hr)⟩

/-- A change that leaves the accounts alone, and the records of accounts in the journal. -/
theorem of_accounts (h : w.Records P) (ha : w'.accounts = w.accounts)
    (hj : ∀ a record, Undo.account a record ∈ w'.journal → Undo.account a record ∈ w.journal) :
    w'.Records P where
  account a := by
    rw [account?, ha]
    exact h.account a
  journal a record hr := h.journal a record (hj a record hr)

theorem setAccount (h : w.Records P) {a : Address} {record : Option Account} (hr : P a record) :
    (w.setAccount a record).Records P where
  account b := by
    rw [account?_setAccount]
    split
    · next hb => exact hb ▸ hr
    · exact h.account b
  journal b previous hp := by
    rcases mem_journal_record hp with hp | hp
    · cases hp
      exact h.account a
    · exact h.journal b previous (by simpa using hp)

theorem setSlot (h : w.Records P) (a : Address) (k : Hash) (value : Word) : (w.setSlot a k value).Records P :=
  h.of_accounts (record_accounts _ _) fun _ _ hr => (mem_journal_record hr).resolve_left fun he => by
    cases he

theorem destroyStorage (h : w.Records P) (a : Address) : (w.destroyStorage a).Records P := by
  refine h.of_accounts (destroyStorage_accounts a w) fun b record hr => ?_
  unfold World.destroyStorage at hr
  split at hr
  · exact hr
  · next slots _ =>
    obtain ⟨initial, he⟩ := Change.foldl_rememberSlot a slots.toList w
    simp only [he] at hr
    exact (mem_journal_record hr).resolve_left fun he => by cases he

theorem checkpoint (h : w.Records P) : w.checkpoint.Records P := h.of_accounts rfl fun _ _ hr => hr

theorem beginTransaction (h : w.Records P) : w.beginTransaction.Records P :=
  h.of_accounts rfl fun _ _ hr => absurd hr List.not_mem_nil

/-! ### Ends of checkpoints -/

theorem commit (h : w.Records P) : (after World.commit w).Records P := by
  rw [after, run_commit]
  rcases w.checkpoints with _ | ⟨mark, _ | ⟨mark', rest⟩⟩
  · exact h
  · exact h.of_accounts rfl fun _ _ hr => absurd hr List.not_mem_nil
  · exact h.of_accounts rfl fun _ _ hr => hr

private theorem foldl_undo {undos : List Undo} (h : ∀ a, P a (w.account? a))
    (hu : ∀ a record, Undo.account a record ∈ undos → P a record) (a : Address) :
    P a ((undos.foldl undo w).account? a) := by
  induction undos generalizing w with
  | nil => exact h a
  | cons u undos ih =>
    refine ih (fun b => ?_) fun b record hr => hu b record (List.mem_cons_of_mem u hr)
    cases u with
    | account c previous =>
      rw [undo, account?_putAccount]
      split
      · next hb => exact hb ▸ hu c previous List.mem_cons_self
      · exact h b
    | slot | slots => exact h b

private theorem unwind (h : w.Records P) (mark : Nat) : (w.unwind mark).Records P where
  account := foldl_undo h.account fun a record hr => h.journal a record (List.mem_of_mem_take hr)
  journal a record hr := h.journal a record (List.mem_of_mem_drop hr)

theorem revert (h : w.Records P) : (after World.revert w).Records P := by
  rw [after, run_revert]
  cases w.checkpoints with
  | nil => exact h
  | cons mark rest =>
    have hclosed : Records P { w with checkpoints := rest } := h.of_accounts rfl fun _ _ hr => hr
    exact hclosed.unwind mark

end Records

end World

end StateTransition
