import StateTransition.World.Basic

/-! Taking single changes of the world back. In a tidy storage what a slot holds says whether it is
stored, so undoing a write leads to the very maps there were, with no slot of zero and no empty map. -/
namespace StateTransition

namespace World

variable {w w' w'' : World}

def NonZero (s : Slots) : Prop := ∀ k : Hash, s[k]? ≠ some 0

/-- Only accounts that have slots are in the storage, and no slot in it holds zero. -/
structure Tidy (w : World) : Prop where
  ne_empty : ∀ (a : Address) (s : Slots), w.storage[a]? = some s → s ≠ ∅
  nonZero : ∀ a, NonZero (w.slots a)

/-- The same accounts with the same slots. -/
structure Agrees (w w' : World) : Prop where
  accounts : w.accounts = w'.accounts
  storage : w.storage = w'.storage

/-! ### What is put in place -/

@[simp] theorem putAccount_storage (a : Address) (r : Option Account) (w : World) :
    (w.putAccount a r).storage = w.storage := by cases r <;> rfl

@[simp] theorem putAccount_codes (a : Address) (r : Option Account) (w : World) :
    (w.putAccount a r).codes = w.codes := by cases r <;> rfl

@[simp] theorem putAccount_journal (a : Address) (r : Option Account) (w : World) :
    (w.putAccount a r).journal = w.journal := by cases r <;> rfl

@[simp] theorem putAccount_checkpoints (a : Address) (r : Option Account) (w : World) :
    (w.putAccount a r).checkpoints = w.checkpoints := by cases r <;> rfl

theorem account?_putAccount (a : Address) (r : Option Account) (w : World) (b : Address) :
    (w.putAccount a r).account? b = if a = b then r else w.account? b := by
  cases r with
  | none => simp [putAccount, account?, Std.ExtTreeMap.getElem?_erase]
  | some r => simp [putAccount, account?, Std.ExtTreeMap.getElem?_insert]

private theorem storage_putSlots (a : Address) (s : Slots) (w : World) (b : Address) :
    (w.putSlots a s).storage[b]? =
      if a = b then (if s = ∅ then none else some s) else w.storage[b]? := by
  by_cases hs : s = ∅
  · simp [putSlots, hs, Std.ExtTreeMap.getElem?_erase]
  · have hs' : s.isEmpty = false := Std.ExtTreeMap.isEmpty_eq_false_iff.mpr hs
    simp [putSlots, hs, hs', Std.ExtTreeMap.getElem?_insert]

theorem slots_putSlots (a : Address) (s : Slots) (w : World) (b : Address) :
    (w.putSlots a s).slots b = if a = b then s else w.slots b := by
  simp only [slots, storage_putSlots]
  by_cases hab : a = b
  · by_cases hs : s = ∅ <;> simp [hab, hs]
  · simp [hab]

theorem slot_writeSlot (a : Address) (k : Hash) (value : Word) (w : World) (b : Address) (q : Hash) :
    (w.writeSlot a k value).slot b q = if a = b ∧ k = q then value else w.slot b q := by
  rw [slot, writeSlot, slots_putSlots]
  by_cases hab : a = b
  · subst hab
    rw [if_pos rfl]
    by_cases hv : value = 0
    · rw [if_pos hv, Std.ExtTreeMap.getElem?_erase]
      by_cases hkq : k = q <;> simp [hkq, hv, slot]
    · rw [if_neg hv, Std.ExtTreeMap.getElem?_insert]
      by_cases hkq : k = q <;> simp [hkq, slot]
  · simp [hab, slot]

private theorem NonZero.write {s : Slots} (h : NonZero s) (k : Hash) (value : Word) :
    NonZero (if value = 0 then s.erase k else s.insert k value) := by
  intro q
  by_cases hv : value = 0
  · rw [if_pos hv, Std.ExtTreeMap.getElem?_erase]
    split
    · simp
    · exact h q
  · rw [if_neg hv, Std.ExtTreeMap.getElem?_insert]
    split
    · simpa using hv
    · exact h q

/-- Slots without zeros are a function of what they hold. -/
theorem NonZero.ext {s s' : Slots} (h : NonZero s) (h' : NonZero s')
    (hk : ∀ k : Hash, s[k]?.getD 0 = s'[k]?.getD 0) : s = s' := by
  apply Std.ExtTreeMap.ext_getElem?
  intro k
  have hs := h k
  have hs' := h' k
  have he := hk k
  cases hv : s[k]? <;> cases hv' : s'[k]? <;> simp_all

namespace Tidy

theorem putAccount (h : w.Tidy) (a : Address) (r : Option Account) : (w.putAccount a r).Tidy where
  ne_empty := by simpa using h.ne_empty
  nonZero := by simpa [slots] using h.nonZero

theorem putSlots (h : w.Tidy) (a : Address) {s : Slots} (hs : NonZero s) : (w.putSlots a s).Tidy where
  ne_empty b t ht := by
    rw [storage_putSlots] at ht
    split at ht
    · split at ht
      · cases ht
      · next hne =>
        cases ht
        exact hne
    · exact h.ne_empty b t ht
  nonZero b := by
    rw [slots_putSlots]
    split
    · exact hs
    · exact h.nonZero b

theorem writeSlot (h : w.Tidy) (a : Address) (k : Hash) (value : Word) :
    (w.writeSlot a k value).Tidy :=
  h.putSlots a ((h.nonZero a).write k value)

private theorem undo (h : w.Tidy) {u : Undo} (hu : ∀ a s, u = .slots a s → NonZero s) : (w.undo u).Tidy := by
  cases u with
  | account a previous => exact h.putAccount a previous
  | slot a k previous => exact h.writeSlot a k previous
  | slots a previous => exact h.putSlots a (hu a previous rfl)

theorem foldl_undo {undos : List Undo} (h : w.Tidy) (hu : ∀ a s, Undo.slots a s ∈ undos → NonZero s) :
    (undos.foldl World.undo w).Tidy := by
  induction undos generalizing w with
  | nil => exact h
  | cons u undos ih =>
    have hw : (w.undo u).Tidy := h.undo fun a s he => hu a s (he ▸ List.mem_cons_self)
    exact ih hw fun a s hs => hu a s (List.mem_cons_of_mem u hs)

/-- A tidy storage is a function of what the slots hold. -/
private theorem storage_eq (h : w.Tidy) (h' : w'.Tidy) (hk : ∀ a k, w.slot a k = w'.slot a k) :
    w.storage = w'.storage := by
  apply Std.ExtTreeMap.ext_getElem?
  intro a
  have ha : w.storage[a]?.getD ∅ = w'.storage[a]?.getD ∅ := (h.nonZero a).ext (h'.nonZero a) (hk a)
  cases hw : w.storage[a]? with
  | none =>
    cases hw' : w'.storage[a]? with
    | none => rfl
    | some s' =>
      rw [hw, hw'] at ha
      exact absurd ha.symm (h'.ne_empty a s' hw')
  | some s =>
    cases hw' : w'.storage[a]? with
    | none =>
      rw [hw, hw'] at ha
      exact absurd ha (h.ne_empty a s hw)
    | some s' =>
      rw [hw, hw'] at ha
      exact congrArg some ha

end Tidy

/-! ### Taking one change back -/

namespace Agrees

theorem refl (w : World) : Agrees w w := ⟨rfl, rfl⟩

theorem trans (h : Agrees w w') (h' : Agrees w' w'') : Agrees w w'' :=
  ⟨h.accounts.trans h'.accounts, h.storage.trans h'.storage⟩

theorem tidy (h : Agrees w w') (hw : w'.Tidy) : w.Tidy where
  ne_empty := by simpa [h.storage] using hw.ne_empty
  nonZero := by simpa [slots, h.storage] using hw.nonZero

theorem undo (h : Agrees w w') (u : Undo) : Agrees (w.undo u) (w'.undo u) := by
  cases u with
  | account a previous =>
    refine ⟨?_, by simp [World.undo, h.storage]⟩
    cases previous <;> simp [World.undo, putAccount, h.accounts]
  | slot a k previous =>
    exact ⟨h.accounts, by simp [World.undo, writeSlot, putSlots, slots, h.storage]⟩
  | slots a previous => exact ⟨h.accounts, by simp [World.undo, putSlots, h.storage]⟩

theorem foldl_undo (h : Agrees w w') (undos : List Undo) :
    Agrees (undos.foldl World.undo w) (undos.foldl World.undo w') := by
  induction undos generalizing w w' with
  | nil => exact h
  | cons u undos ih => exact ih (h.undo u)

/-- Two steps are taken back by what takes back the second, then the first. -/
theorem foldl_undo_append {undos undos' : List Undo} (h' : Agrees (undos'.foldl World.undo w'') w')
    (h : Agrees (undos.foldl World.undo w') w) :
    Agrees ((undos' ++ undos).foldl World.undo w'') w := by
  rw [List.foldl_append]
  exact (h'.foldl_undo undos).trans h

theorem putAccount_back (a : Address) (r : Option Account) (w : World) :
    Agrees ((w.putAccount a r).putAccount a (w.account? a)) w where
  accounts := by
    apply Std.ExtTreeMap.ext_getElem?
    intro b
    change ((w.putAccount a r).putAccount a (w.account? a)).account? b = w.account? b
    rw [account?_putAccount, account?_putAccount]
    split
    · next hab => rw [hab]
    · rfl
  storage := by simp

theorem putSlots_back (h : w.Tidy) (a : Address) {s : Slots} (hs : NonZero s) :
    Agrees ((w.putSlots a s).putSlots a (w.slots a)) w where
  accounts := rfl
  storage := by
    refine ((h.putSlots a hs).putSlots a (h.nonZero a)).storage_eq h fun b k => ?_
    rw [slot, slots_putSlots, slots_putSlots, slot]
    split
    · next hab => rw [hab]
    · rfl

/-- A slot that held zero is not stored, so to write what it held puts back the very map. -/
theorem writeSlot_back (h : w.Tidy) (a : Address) (k : Hash) (value : Word) :
    Agrees ((w.writeSlot a k value).writeSlot a k (w.slot a k)) w where
  accounts := rfl
  storage := by
    refine ((h.writeSlot a k value).writeSlot a k _).storage_eq h fun b q => ?_
    rw [slot_writeSlot, slot_writeSlot]
    split
    · next hbq => rw [hbq.1, hbq.2]
    · rfl

end Agrees

@[simp] theorem record_codes (u : Undo) (w : World) : (w.record u).codes = w.codes := by
  unfold record
  split <;> rfl

@[simp] theorem record_checkpoints (u : Undo) (w : World) :
    (w.record u).checkpoints = w.checkpoints := by
  unfold record
  split <;> rfl

theorem Agrees.record (u : Undo) (w : World) : Agrees (w.record u) w := by
  unfold World.record
  split <;> exact ⟨rfl, rfl⟩

/-! ### Taking changes back to a mark -/

theorem undo_eq (w : World) (u : Undo) :
    w.undo u = { w with accounts := (w.undo u).accounts, storage := (w.undo u).storage } := by
  cases u with
  | account a previous => cases previous <;> rfl
  | slot a k previous => rfl
  | slots a previous => rfl

/-- Taking changes back touches accounts and slots only. -/
theorem foldl_undo_eq (undos : List Undo) (w : World) :
    ∃ accounts storage, undos.foldl undo w = { w with accounts, storage } := by
  induction undos generalizing w with
  | nil => exact ⟨w.accounts, w.storage, rfl⟩
  | cons u undos ih =>
    rw [List.foldl_cons, undo_eq]
    exact ih _

@[simp] theorem unwind_codes (mark : Nat) (w : World) : (w.unwind mark).codes = w.codes := by
  obtain ⟨accounts, storage, h⟩ := foldl_undo_eq (w.journal.take (w.journal.length - mark)) w
  simp only [unwind, h]

@[simp] theorem unwind_checkpoints (mark : Nat) (w : World) :
    (w.unwind mark).checkpoints = w.checkpoints := by
  obtain ⟨accounts, storage, h⟩ := foldl_undo_eq (w.journal.take (w.journal.length - mark)) w
  simp only [unwind, h]

theorem unwind_journal (mark : Nat) (w : World) :
    (w.unwind mark).journal = w.journal.drop (w.journal.length - mark) := rfl

theorem Agrees.unwind (mark : Nat) (w : World) :
    Agrees (w.unwind mark) ((w.journal.take (w.journal.length - mark)).foldl World.undo w) :=
  ⟨rfl, rfl⟩

end World

end StateTransition
