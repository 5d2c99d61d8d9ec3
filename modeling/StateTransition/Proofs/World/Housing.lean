import StateTransition.Proofs.World.Emptiness
import StateTransition.Proofs.World.Initial

/-! Storage and the records of accounts, which are kept apart. While code runs no record is lost but by taking back
what made it, and slots are written for accounts only that have a record, so that no storage is without an owner. -/
namespace StateTransition

namespace World

variable {w w' w'' : World} {a source target : Address} {amount : Word}

/-- Every account that has slots has a record, and the storage holds no zeros and no empty maps. -/
structure Housed (w : World) : Prop where
  tidy : w.Tidy
  record : ∀ a, w.slots a ≠ ∅ → w.hasAccount a = true

/-- Slots that have changed are remembered, and so are those that were before. -/
structure Notes (w w' : World) : Prop where
  initial : ∀ key ∈ w.initial, key ∈ w'.initial
  written : ∀ a k, w'.slot a k ≠ w.slot a k → (⟨a, k⟩ : SlotKey) ∈ w'.initial

/-- Records are not lost, and an account without one has no slots but those that it had. -/
structure Houses (w w' : World) : Prop extends Notes w w' where
  record : ∀ a, w.hasAccount a = true → w'.hasAccount a = true
  slots : ∀ a, w'.hasAccount a = false → w'.slots a = w.slots a ∨ w'.slots a = ∅

/-- Nothing is to be read where there is no account. -/
private theorem Housed.slots_eq_empty (h : w.Housed) (ha : w.hasAccount a = false) : w.slots a = ∅ := by
  by_contra hne
  rw [h.record a hne] at ha
  cases ha

theorem Housed.slot_eq_zero (h : w.Housed) (ha : w.hasAccount a = false) (k : Hash) : w.slot a k = 0 := by
  rw [slot, h.slots_eq_empty ha]
  rfl

theorem Housed.houses (hw : w.Housed) (h : w.Houses w') (htidy : w'.Tidy) : w'.Housed where
  tidy := htidy
  record a hne := by
    by_contra hnone
    have hnone : w'.hasAccount a = false := by simpa using hnone
    rcases h.slots a hnone with hsame | hempty
    · have hbefore := h.record a (hw.record a (hsame ▸ hne))
      rw [hnone] at hbefore
      cases hbefore
    · exact hne hempty

/-- Where nothing is open and nothing noted, a tidy storage is all that it takes. -/
theorem Tidy.wellFormed_beginTransaction (h : w.Tidy) : w.beginTransaction.WellFormed where
  tidy := ⟨h.ne_empty, h.nonZero⟩
  journal := by simp [World.beginTransaction]
  marks := by simp [World.beginTransaction]

theorem hasAccount_setAccount (a : Address) (r : Account) (w : World) (b : Address) :
    (w.setAccount a (some r)).hasAccount b = (decide (a = b) || w.hasAccount b) := by
  rw [hasAccount, account?_setAccount]
  by_cases hab : a = b <;> simp [hab, hasAccount]

/-- Slots that are cleared are remembered. -/
private theorem mem_initial_destroyStorage {key : SlotKey} :
    key ∈ (w.destroyStorage a).initial ↔ (∃ k ∈ w.slots a, key = ⟨a, k⟩) ∨ key ∈ w.initial := by
  unfold World.destroyStorage World.slots
  cases w.storage[a]? with
  | none => simp
  | some slots =>
    have hmem := @mem_initial_foldl_rememberSlot a key slots.toList w
    obtain ⟨initial, he⟩ := Change.foldl_rememberSlot a slots.toList w
    rw [he] at hmem
    simp only [he, record_initial, hmem, Option.getD_some]
    refine or_congr_left ⟨fun ⟨e, hin, hkey⟩ => ⟨e.1, ?_, hkey⟩, fun ⟨k, hin, hkey⟩ => ?_⟩
    · rw [Std.ExtTreeMap.mem_iff_isSome_getElem?, Std.ExtTreeMap.mem_toList_iff_getElem?_eq_some.mp hin]
      rfl
    · exact ⟨(k, slots[k]), Std.ExtTreeMap.mem_toList_iff_getElem?_eq_some.mpr
        (Std.ExtTreeMap.getElem?_eq_some_getElem hin), hkey⟩

private theorem initial_revert (h : World.revert w = .ok () w') : w'.initial = w.initial := by
  have hrun := run_revert w
  rw [EStateM.run, h] at hrun
  split at hrun
  · cases hrun
  · cases hrun
    exact unwind_initial _ _

namespace Notes

/-- What is taken back leaves nothing but what is remembered. -/
private theorem of_storage (hs : w'.storage = w.storage) (hi : ∀ key ∈ w.initial, key ∈ w'.initial) : Notes w w' where
  initial := hi
  written a k hne := absurd (slot_congr hs a k) hne

theorem trans (h : Notes w w') (h' : Notes w' w'') : Notes w w'' where
  initial key hkey := h'.initial key (h.initial key hkey)
  written a k hne := by
    by_cases hlast : w''.slot a k = w'.slot a k
    · exact h'.initial _ (h.written a k (hlast ▸ hne))
    · exact h'.written a k hlast

theorem of_spares (h : SparesSlots w w') : Notes w w' := of_storage h.storage fun _ hkey => h.initial ▸ hkey

private theorem setSlot (a : Address) (k : Hash) (value : Word) (w : World) : Notes w (w.setSlot a k value) where
  initial key hkey := by
    rw [World.setSlot, record_initial]
    exact mem_initial_rememberSlot.mpr (.inr hkey)
  written b q hne := by
    rw [World.setSlot, record_initial]
    refine mem_initial_rememberSlot.mpr (.inl ?_)
    by_contra hother
    refine hne ?_
    rw [World.setSlot, slot_congr (Agrees.record _ _).storage, slot_writeSlot, if_neg]
    · rfl
    · rintro ⟨rfl, rfl⟩
      exact hother rfl

private theorem destroyStorage (a : Address) (w : World) : Notes w (w.destroyStorage a) where
  initial key hkey := mem_initial_destroyStorage.mpr (.inr hkey)
  written b q hne := by
    rw [mem_initial_destroyStorage]
    rw [slot, slots_destroyStorage] at hne
    split at hne
    · next hb =>
      subst hb
      refine .inl ⟨q, ?_, rfl⟩
      -- a slot that is not stored held zero before as well
      by_contra hnone
      exact hne (by rw [slot, Std.ExtTreeMap.getElem?_eq_none hnone]; rfl)
    · exact absurd rfl hne

theorem destroyAccount (a : Address) (w : World) : Notes w (w.destroyAccount a) :=
  (destroyStorage a w).trans (.of_spares (.setAccount a none _))

theorem foldl_destroyAccount (l : List Address) (w : World) : Notes w (l.foldl (fun w a => w.destroyAccount a) w) := by
  induction l generalizing w with
  | nil => exact .of_spares (.refl w)
  | cons a l ih => exact (destroyAccount a w).trans (ih _)

end Notes

namespace Houses

private theorem of_agrees (h : Agrees w' w) (hi : ∀ key ∈ w.initial, key ∈ w'.initial) : Houses w w' where
  toNotes := .of_storage h.storage hi
  record a ha := by rwa [hasAccount, account?, h.accounts]
  slots a _ := .inl (by rw [World.slots, World.slots, h.storage])

theorem refl (w : World) : Houses w w := of_agrees (.refl w) fun _ => id

theorem trans (h : Houses w w') (h' : Houses w' w'') : Houses w w'' where
  toNotes := h.toNotes.trans h'.toNotes
  record a ha := h'.record a (h.record a ha)
  slots a ha := by
    have hbefore : w'.hasAccount a = false := by
      by_contra hsome
      rw [h'.record a (by simpa using hsome)] at ha
      cases ha
    rcases h'.slots a ha with hsame | hempty
    · rw [hsame]
      exact h.slots a hbefore
    · exact .inr hempty

/-- A change to no slot. -/
private theorem of_spares (h : SparesSlots w w') (hr : ∀ a, w.hasAccount a = true → w'.hasAccount a = true) :
    Houses w w' where
  toNotes := .of_spares h
  record := hr
  slots a _ := .inl (by rw [World.slots, World.slots, h.storage])

private theorem setAccount (a : Address) (r : Account) (w : World) : Houses w (w.setAccount a (some r)) :=
  of_spares (.setAccount a _ w) fun b hb => by rw [hasAccount_setAccount, hb, Bool.or_true]

theorem touch (a : Address) (w : World) : Houses w (w.touch a) := by
  unfold World.touch
  split
  · exact refl w
  · exact setAccount a _ w

theorem setBalance (a : Address) (amount : Word) (w : World) : Houses w (w.setBalance a amount) := setAccount a _ w

theorem incrementNonce (h : World.incrementNonce a w = .ok () w') : Houses w w' := by
  obtain ⟨-, rfl⟩ := incrementNonce_ok h
  exact setAccount a _ w

theorem addBalance (h : World.addBalance a amount w = .ok () w') : Houses w w' := by
  obtain ⟨sum, -, rfl⟩ := addBalance_eq_ok_iff.mp h
  exact setBalance a sum w

theorem subBalance (h : World.subBalance a amount w = .ok () w') : Houses w w' := by
  obtain ⟨rest, -, rfl⟩ := subBalance_eq_ok_iff.mp h
  exact setBalance a rest w

theorem transfer (h : World.transfer source target amount w = .ok () w') : Houses w w' := by
  obtain ⟨⟨⟩, w₁, hsub, hadd⟩ := of_bind_ok h
  exact (subBalance hsub).trans (addBalance hadd)

theorem setCode (a : Address) (code : ByteArray) (w : World) : Houses w (w.setCode a code) := by
  refine of_spares (.setCode a code w) fun b hb => ?_
  rw [World.setCode, updateAccount, hasAccount_setAccount, Bool.or_eq_true]
  split
  · exact .inr hb
  · exact .inr hb

theorem checkpoint (w : World) : Houses w w.checkpoint := of_spares (.checkpoint w) fun _ => id

theorem markCreated (a : Address) (w : World) : Houses w (w.markCreated a) := of_agrees ⟨rfl, rfl⟩ fun _ => id

theorem commit (h : World.commit w = .ok () w') : Houses w w' :=
  of_agrees ⟨commit_accounts h, (Unwritten.commit h).storage⟩ fun _ hkey => (Unwritten.commit h).initial ▸ hkey

theorem reverted (h : Houses w w') (hr : World.revert w' = .ok () w'') (hagrees : Agrees w'' w) : Houses w w'' :=
  of_agrees hagrees fun key hkey => initial_revert hr ▸ h.initial key hkey

/-- A slot is written for an account that has a record. -/
theorem setSlot (k : Hash) (value : Word) (h : w.hasAccount a = true) : Houses w (w.setSlot a k value) where
  toNotes := .setSlot a k value w
  record b hb := by rwa [hasAccount, account?, World.setSlot, record_accounts]
  slots b hb := by
    have hb : w.hasAccount b = false := by rwa [hasAccount, account?, World.setSlot, record_accounts] at hb
    have hab : a ≠ b := by
      rintro rfl
      rw [h] at hb
      cases hb
    refine .inl ?_
    rw [World.setSlot, World.slots, (Agrees.record _ _).storage]
    change (writeSlot a k value _).slots b = w.slots b
    rw [writeSlot, slots_putSlots, if_neg hab]
    rfl

theorem destroyStorage (a : Address) (w : World) : Houses w (w.destroyStorage a) where
  toNotes := .destroyStorage a w
  record b hb := by rwa [hasAccount, account?, destroyStorage_accounts]
  slots b _ := by
    rw [slots_destroyStorage]
    split
    · exact .inr rfl
    · exact .inl rfl

end Houses

/-! ### Where no code runs -/

theorem Tidy.congr (h : w.Tidy) (hs : w'.storage = w.storage) : w'.Tidy where
  ne_empty := by
    rw [hs]
    exact h.ne_empty
  nonZero a := by
    rw [slots, hs]
    exact h.nonZero a

private theorem Tidy.destroyStorage (h : w.Tidy) (a : Address) : (w.destroyStorage a).Tidy := by
  have hput := h.putSlots a (s := ∅) (by simp [NonZero])
  refine hput.congr ?_
  rw [storage_destroyStorage]
  simp [World.putSlots]

namespace Housed

private theorem setAccount (h : w.Housed) (a : Address) (r : Account) : (w.setAccount a (some r)).Housed :=
  h.houses (.setAccount a r w) (h.tidy.congr (SameBesideAccounts.setAccount a _ w).storage)

theorem addBalance (h : w.Housed) (a : Address) (amount : Word) : (after (World.addBalance a amount) w).Housed := by
  rw [after, run_addBalance]
  cases (w.balance a).add? amount with
  | some sum => exact h.setAccount a _
  | none => exact h

/-- An account goes with all that it has stored. -/
theorem destroyAccount (h : w.Housed) (a : Address) : (w.destroyAccount a).Housed where
  tidy := (h.tidy.destroyStorage a).congr (SameBesideAccounts.setAccount a none _).storage
  record b hne := by
    rw [slots_destroyAccount] at hne
    rw [hasAccount, account?_destroyAccount]
    split at hne
    · exact absurd rfl hne
    · next hab =>
      rw [if_neg hab]
      exact h.record b hne

theorem foldl_destroyAccount (h : w.Housed) (l : List Address) :
    (l.foldl (fun w a => w.destroyAccount a) w).Housed := by
  induction l generalizing w with
  | nil => exact h
  | cons a l ih => exact ih (h.destroyAccount a)

end Housed

end World

end StateTransition
