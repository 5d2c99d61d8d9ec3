import StateTransition.Proofs.World.Allocation
import StateTransition.Proofs.World.Locality
import StateTransition.Proofs.World.Records

/-! What the slots held when a transaction began. A slot is remembered before its first change, and stays so
when the change is taken back; every other slot holds what it held then, and whatever the journal would put
back into it is that too. -/
namespace StateTransition

/-- What an entry of the journal puts back into a slot that is not remembered was there at the start. -/
def Undo.Recalls (start : World) (initial : Std.ExtTreeMap SlotKey Word) : Undo → Prop
  | .account _ _ => True
  | .slot a k _ => ⟨a, k⟩ ∈ initial
  | .slots a previous => ∀ k, ⟨a, k⟩ ∉ initial → previous[k]?.getD 0 = start.slot a k

private theorem Undo.Recalls.mono {start : World} {initial initial' : Std.ExtTreeMap SlotKey Word} {u : Undo}
    (h : u.Recalls start initial) (hle : ∀ key ∈ initial, key ∈ initial') : u.Recalls start initial' := by
  cases u with
  | account a previous => trivial
  | slot a k previous => exact hle _ h
  | slots a previous => exact fun k hk => h k fun hmem => hk (hle _ hmem)

namespace World

variable {start w w' w'' : World} {a : Address} {k : Hash} {value : Word}

/-- What is remembered was there at the start, and all that is not remembered still is. -/
structure Remembers (start w : World) : Prop where
  initial : ∀ a k value, w.initial[(⟨a, k⟩ : SlotKey)]? = some value → value = start.slot a k
  slot : ∀ a k, (⟨a, k⟩ : SlotKey) ∉ w.initial → w.slot a k = start.slot a k
  journal : ∀ u ∈ w.journal, u.Recalls start w.initial

/-- A change that touches no slot and notes nothing about one. -/
structure SparesSlots (w w' : World) : Prop where
  storage : w'.storage = w.storage
  initial : w'.initial = w.initial
  created : w'.created = w.created
  journal : ∀ u ∈ w'.journal, u ∈ w.journal ∨ ∃ a previous, u = .account a previous

theorem slot_congr (h : w'.storage = w.storage) (a : Address) (k : Hash) : w'.slot a k = w.slot a k := by
  rw [slot, slot, slots, slots, h]

@[simp] theorem record_initial (u : Undo) (w : World) : (w.record u).initial = w.initial := by
  unfold record
  split <;> rfl

@[simp] theorem record_created (u : Undo) (w : World) : (w.record u).created = w.created := by
  unfold record
  split <;> rfl

theorem isCreated_setSlot (a : Address) (k : Hash) (value : Word) (w : World) (b : Address) :
    (w.setSlot a k value).isCreated b = w.isCreated b := congrArg (·.contains b) (record_created _ _)

theorem destroyStorage_created (a : Address) (w : World) : (w.destroyStorage a).created = w.created := by
  unfold destroyStorage
  split
  · rfl
  · next slots _ =>
    obtain ⟨initial, he⟩ := Change.foldl_rememberSlot a slots.toList w
    simp only [he, record_created]

theorem unwind_initial (mark : Nat) (w : World) : (w.unwind mark).initial = w.initial := by
  obtain ⟨accounts, storage, he⟩ := foldl_undo_eq (w.journal.take (w.journal.length - mark)) w
  rw [unwind, he]

private theorem unwind_created (mark : Nat) (w : World) : (w.unwind mark).created = w.created := by
  obtain ⟨accounts, storage, he⟩ := foldl_undo_eq (w.journal.take (w.journal.length - mark)) w
  rw [unwind, he]

theorem after_revert_created (w : World) : (after revert w).created = w.created := by
  rw [after, run_revert]
  cases w.checkpoints with
  | nil => rfl
  | cons mark rest => exact unwind_created mark _

/-! ### Changes to no slot -/

namespace SparesSlots

theorem refl (w : World) : SparesSlots w w := ⟨rfl, rfl, rfl, fun _ hu => .inl hu⟩

theorem trans (h : SparesSlots w w') (h' : SparesSlots w' w'') : SparesSlots w w'' where
  storage := h'.storage.trans h.storage
  initial := h'.initial.trans h.initial
  created := h'.created.trans h.created
  journal u hu := (h'.journal u hu).elim (h.journal u) .inr

theorem setAccount (a : Address) (r : Option Account) (w : World) : SparesSlots w (w.setAccount a r) := by
  have hsame := SameBesideAccounts.setAccount a r w
  refine ⟨hsame.storage, hsame.initial, hsame.created, fun u hu => ?_⟩
  rcases mem_journal_record hu with rfl | hu
  · exact .inr ⟨a, _, rfl⟩
  · exact .inl (by simpa using hu)

theorem touch (a : Address) (w : World) : SparesSlots w (w.touch a) := by
  unfold World.touch
  split
  · exact refl w
  · exact setAccount a _ w

theorem setCode (a : Address) (code : ByteArray) (w : World) : SparesSlots w (w.setCode a code) := by
  unfold World.setCode updateAccount
  split
  · exact setAccount a _ w
  · have hcodes : SparesSlots w { w with codes := w.codes.insertIfNew (keccak256 code) code } :=
      ⟨rfl, rfl, rfl, fun _ hu => .inl hu⟩
    exact hcodes.trans (setAccount a _ _)

theorem incrementNonce (a : Address) (w : World) : SparesSlots w (after (World.incrementNonce a) w) := by
  rw [after, run_incrementNonce]
  by_cases hlt : (w.accountOrEmpty a).nonce.toNat + 1 < countLimit
  · rw [if_pos hlt]
    exact setAccount a _ w
  · rw [if_neg hlt]
    exact refl w

theorem addBalance (a : Address) (amount : Word) (w : World) :
    SparesSlots w (after (World.addBalance a amount) w) := by
  rw [after, run_addBalance]
  cases (w.balance a).add? amount with
  | some sum => exact setAccount a _ w
  | none => exact refl w

private theorem subBalance (a : Address) (amount : Word) (w : World) :
    SparesSlots w (after (World.subBalance a amount) w) := by
  rw [after, run_subBalance]
  cases (w.balance a).sub? amount with
  | some rest => exact setAccount a _ w
  | none => exact refl w

theorem transfer (source target : Address) (amount : Word) (w : World) :
    SparesSlots w (after (World.transfer source target amount) w) := by
  have hsub := subBalance source amount w
  rcases after_transfer source target amount w with he | he
  · rwa [he]
  · rw [he]
    exact hsub.trans (addBalance target amount _)

theorem checkpoint (w : World) : SparesSlots w w.checkpoint := ⟨rfl, rfl, rfl, fun _ hu => .inl hu⟩

theorem commit (w : World) : SparesSlots w (after World.commit w) := by
  rw [after, run_commit]
  rcases w.checkpoints with _ | ⟨mark, _ | ⟨mark', rest⟩⟩
  · exact refl w
  · exact ⟨rfl, rfl, rfl, fun _ hu => absurd hu List.not_mem_nil⟩
  · exact ⟨rfl, rfl, rfl, fun _ hu => .inl hu⟩

end SparesSlots

/-! ### Slots that are remembered -/

theorem mem_initial_rememberSlot {key : SlotKey} :
    key ∈ (w.rememberSlot a k value).initial ↔ key = ⟨a, k⟩ ∨ key ∈ w.initial := by
  rw [rememberSlot, Std.ExtTreeMap.mem_insertIfNew, Std.compare_eq_iff_eq, eq_comm]

theorem mem_initial_foldl_rememberSlot {key : SlotKey} (l : List (Hash × Word)) (w : World) :
    key ∈ (l.foldl (fun w (k, value) => w.rememberSlot a k value) w).initial ↔
      (∃ e ∈ l, key = ⟨a, e.1⟩) ∨ key ∈ w.initial := by
  induction l generalizing w with
  | nil => simp
  | cons e l ih =>
    rw [List.foldl_cons, ih, mem_initial_rememberSlot]
    simp [or_assoc, or_left_comm]

/-- Where the slots of a map are remembered, one that is not remembered is not in the map. -/
private theorem getElem?_of_not_remembered {slots : Std.ExtTreeMap Hash Word}
    (hk : (⟨a, k⟩ : SlotKey) ∉ (slots.toList.foldl (fun w (k, value) => w.rememberSlot a k value) w).initial) :
    slots[k]? = none := by
  by_contra hsome
  obtain ⟨value, hvalue⟩ := Option.ne_none_iff_exists'.mp hsome
  have he := Std.ExtTreeMap.mem_toList_iff_getElem?_eq_some.mpr hvalue
  exact hk ((mem_initial_foldl_rememberSlot _ w).mpr (.inl ⟨_, he, rfl⟩))

namespace Remembers

private theorem refl (h₀ : start.initial = ∅) (hj : start.journal = []) : Remembers start start where
  initial a k value h := by simp [h₀] at h
  slot _ _ _ := rfl
  journal := by simp [hj]

theorem initialSlot (h : Remembers start w) (ha : w.isCreated a = false) (k : Hash) :
    w.initialSlot a k = start.slot a k := by
  rw [World.initialSlot, ha, if_neg Bool.false_ne_true]
  cases hk : w.initial[(⟨a, k⟩ : SlotKey)]? with
  | none => exact h.slot a k fun hmem => by simp [Std.ExtTreeMap.mem_iff_isSome_getElem?, hk] at hmem
  | some value => exact h.initial a k value hk

theorem spared (h : Remembers start w) (hw : SparesSlots w w') : Remembers start w' where
  initial := by
    rw [hw.initial]
    exact h.initial
  slot a k hk := (slot_congr hw.storage a k).trans (h.slot a k (hw.initial ▸ hk))
  journal u hu := by
    rw [hw.initial]
    rcases hw.journal u hu with hu | ⟨a, previous, rfl⟩
    · exact h.journal u hu
    · trivial

theorem markCreated (h : Remembers start w) (a : Address) : Remembers start (w.markCreated a) :=
  ⟨h.initial, h.slot, h.journal⟩

/-! ### Changed slots -/

/-- To remember what a slot holds now is right, as it is done only where nothing was remembered before. -/
private theorem rememberSlot (h : Remembers start w) (a : Address) (k : Hash) :
    Remembers start (w.rememberSlot a k (w.slot a k)) where
  initial b q value hq := by
    rw [World.rememberSlot, Std.ExtTreeMap.getElem?_insertIfNew] at hq
    split at hq
    · next hnew =>
      obtain ⟨heq, hnew⟩ := hnew
      cases Std.compare_eq_iff_eq.mp heq
      cases hq
      exact h.slot a k hnew
    · exact h.initial b q value hq
  slot b q hq := h.slot b q fun hmem => hq (mem_initial_rememberSlot.mpr (.inr hmem))
  journal u hu := (h.journal u hu).mono fun _ hmem => mem_initial_rememberSlot.mpr (.inr hmem)

private theorem foldl_rememberSlot (h : Remembers start w) {l : List (Hash × Word)}
    (hl : ∀ e ∈ l, w.slot a e.1 = e.2) :
    Remembers start (l.foldl (fun w (k, value) => w.rememberSlot a k value) w) := by
  induction l generalizing w with
  | nil => exact h
  | cons e l ih =>
    obtain ⟨he, hl⟩ := List.forall_mem_cons.mp hl
    have hfirst := h.rememberSlot a e.1
    rw [he] at hfirst
    exact ih hfirst hl

/-- A change to slots that are remembered, and is taken back as it should. -/
private theorem recorded {u : Undo} (h : Remembers start w) (hi : w'.initial = w.initial)
    (hj : w'.journal = w.journal)
    (hs : ∀ b q, (⟨b, q⟩ : SlotKey) ∉ w.initial → w'.slot b q = w.slot b q) (hu : u.Recalls start w.initial) :
    Remembers start (w'.record u) where
  initial := by
    rw [record_initial, hi]
    exact h.initial
  slot b q hq := by
    rw [record_initial, hi] at hq
    rw [slot_congr (Agrees.record u w').storage, hs b q hq]
    exact h.slot b q hq
  journal v hv := by
    rw [record_initial, hi]
    rcases mem_journal_record hv with rfl | hv
    · exact hu
    · exact h.journal v (hj ▸ hv)

theorem setSlot (h : Remembers start w) (a : Address) (k : Hash) (value : Word) :
    Remembers start (w.setSlot a k value) := by
  have hknown : (⟨a, k⟩ : SlotKey) ∈ (w.rememberSlot a k (w.slot a k)).initial :=
    mem_initial_rememberSlot.mpr (.inl rfl)
  refine (h.rememberSlot a k).recorded rfl rfl (fun b q hq => ?_) hknown
  rw [slot_writeSlot, if_neg]
  rintro ⟨rfl, rfl⟩
  exact hq hknown

/-- Slots that are not stored hold zero, and so stay what they were when the others are cleared. -/
theorem destroyStorage (h : Remembers start w) (a : Address) : Remembers start (w.destroyStorage a) := by
  unfold World.destroyStorage
  split
  · exact h
  · next slots hslots =>
    have hslot (k : Hash) : w.slot a k = slots[k]?.getD 0 := by rw [World.slot, World.slots, hslots, Option.getD_some]
    have hl : ∀ e ∈ slots.toList, w.slot a e.1 = e.2 := fun e he => by
      rw [hslot, Std.ExtTreeMap.mem_toList_iff_getElem?_eq_some.mp he, Option.getD_some]
    have hknown := h.foldl_rememberSlot hl
    have hzero (k : Hash) := @getElem?_of_not_remembered w a k slots
    obtain ⟨initial, he⟩ := Change.foldl_rememberSlot a slots.toList w
    rw [he] at hknown hzero
    simp only [he]
    have hput : w.storage.erase a = (w.putSlots a ∅).storage := by simp [putSlots]
    refine hknown.recorded rfl rfl (fun b q hq => ?_) fun k hk => ?_
    · rw [slot_congr (w := w.putSlots a ∅) hput, World.slot, slots_putSlots]
      split
      · next hb =>
        subst hb
        have hw := hslot q
        rw [hzero q hq] at hw
        exact hw.symm
      · rfl
    · rw [← hslot]
      exact hknown.slot a k hk

private theorem destroyAccount (h : Remembers start w) (a : Address) : Remembers start (w.destroyAccount a) :=
  (h.destroyStorage a).spared (.setAccount a none _)

/-! ### Ends of checkpoints -/

/-- To take a change back alters slots that are remembered, and others only to what they were. -/
private theorem slot_undo {u : Undo} (hu : u.Recalls start w.initial) (hk : (⟨a, k⟩ : SlotKey) ∉ w.initial)
    (hw : w.slot a k = start.slot a k) : (w.undo u).slot a k = start.slot a k := by
  cases u with
  | account b previous => exact (slot_congr (putAccount_storage b previous w) a k).trans hw
  | slot b q previous =>
    rw [undo, slot_writeSlot, if_neg]
    · exact hw
    · rintro ⟨rfl, rfl⟩
      exact hk hu
  | slots b previous =>
    rw [undo, World.slot, slots_putSlots]
    split
    · next hb =>
      subst hb
      exact hu k hk
    · exact hw

private theorem slot_foldl_undo {undos : List Undo} (hu : ∀ u ∈ undos, u.Recalls start w.initial)
    (hk : (⟨a, k⟩ : SlotKey) ∉ w.initial) (hw : w.slot a k = start.slot a k) :
    (undos.foldl undo w).slot a k = start.slot a k := by
  induction undos generalizing w with
  | nil => exact hw
  | cons u undos ih =>
    have hinitial : (w.undo u).initial = w.initial := by rw [undo_eq]
    have hfirst := hu u List.mem_cons_self
    refine ih (fun v hv => ?_) (hinitial ▸ hk) (slot_undo hfirst hk hw)
    rw [hinitial]
    exact hu v (List.mem_cons_of_mem u hv)

private theorem unwind (h : Remembers start w) (mark : Nat) : Remembers start (w.unwind mark) := by
  refine ⟨?_, fun a k hk => ?_, fun u hu => ?_⟩
  · rw [unwind_initial]
    exact h.initial
  · rw [unwind_initial] at hk
    exact slot_foldl_undo (fun u hu => h.journal u (List.mem_of_mem_take hu)) hk (h.slot a k hk)
  · rw [unwind_initial]
    exact h.journal u (List.mem_of_mem_drop hu)

theorem revert (h : Remembers start w) : Remembers start (after World.revert w) := by
  rw [after, run_revert]
  cases w.checkpoints with
  | nil => exact h
  | cons mark rest =>
    have hclosed : Remembers start { w with checkpoints := rest } :=
      h.spared ⟨rfl, rfl, rfl, fun _ hu => .inl hu⟩
    exact hclosed.unwind mark

/-! ### Operations of a transaction -/

private theorem run (h : Remembers start w) {op : Operation} (hop : op ≠ .beginTransaction) : Remembers start
    (op.run w) := by
  cases op with
  | setAccount a record => exact h.spared (.setAccount a record w)
  | touch a => exact h.spared (.touch a w)
  | destroyAccount a => exact h.destroyAccount a
  | destroyStorage a => exact h.destroyStorage a
  | markCreated a => exact h.markCreated a
  | incrementNonce a => exact h.spared (.incrementNonce a w)
  | setNonce a nonce => exact h.spared (.setAccount a _ w)
  | setBalance a balance => exact h.spared (.setAccount a _ w)
  | addBalance a amount => exact h.spared (.addBalance a amount w)
  | subBalance a amount => exact h.spared (.subBalance a amount w)
  | transfer source target amount => exact h.spared (.transfer source target amount w)
  | setCode a code => exact h.spared (.setCode a code w)
  | setSlot a k value => exact h.setSlot a k value
  | checkpoint => exact h.spared (.checkpoint w)
  | commit => exact h.spared (.commit w)
  | revert => exact h.revert
  | beginTransaction => exact absurd rfl hop

private theorem foldl (h : Remembers start w) {ops : List Operation} (hops : .beginTransaction ∉ ops) :
    Remembers start (ops.foldl Operation.run w) := by
  induction ops generalizing w with
  | nil => exact h
  | cons op ops ih =>
    obtain ⟨hop, hops⟩ := not_or.mp fun hmem => hops (List.mem_cons.mpr hmem)
    exact ih (h.run fun he => hop he.symm) hops

end Remembers

private theorem isCreated_run {op : Operation} (hop : op ≠ .beginTransaction) (ha : op ≠ .markCreated a) (w : World) :
    (op.run w).isCreated a = w.isCreated a := by
  have hspared {w' : World} (h : SparesSlots w w') : w'.isCreated a = w.isCreated a := by
    rw [isCreated, isCreated, h.created]
  cases op with
  | setAccount b record => exact hspared (.setAccount b record w)
  | touch b => exact hspared (.touch b w)
  | destroyAccount b =>
    change ((w.destroyStorage b).setAccount b none).created.contains a = w.created.contains a
    rw [(SparesSlots.setAccount b none _).created, destroyStorage_created]
  | destroyStorage b => exact congrArg (·.contains a) (destroyStorage_created b w)
  | markCreated b =>
    have hb : b ≠ a := fun he => ha (he ▸ rfl)
    simp [Operation.run, World.markCreated, isCreated, Std.ExtTreeSet.contains_insert, hb]
  | incrementNonce b => exact hspared (.incrementNonce b w)
  | setNonce b nonce => exact hspared (.setAccount b _ w)
  | setBalance b balance => exact hspared (.setAccount b _ w)
  | addBalance b amount => exact hspared (.addBalance b amount w)
  | subBalance b amount => exact hspared (.subBalance b amount w)
  | transfer source target amount => exact hspared (.transfer source target amount w)
  | setCode b code => exact hspared (.setCode b code w)
  | setSlot b k value => exact isCreated_setSlot b k value w a
  | checkpoint => exact hspared (.checkpoint w)
  | commit => exact hspared (.commit w)
  | revert => exact congrArg (·.contains a) (after_revert_created w)
  | beginTransaction => exact absurd rfl hop

private theorem isCreated_foldl {ops : List Operation} (hops : .beginTransaction ∉ ops) (ha : .markCreated a ∉ ops)
    (w : World) : (ops.foldl Operation.run w).isCreated a = w.isCreated a := by
  induction ops generalizing w with
  | nil => rfl
  | cons op ops ih =>
    obtain ⟨hop, hops⟩ := not_or.mp fun hmem => hops (List.mem_cons.mpr hmem)
    obtain ⟨hmark, ha⟩ := not_or.mp fun hmem => ha (List.mem_cons.mpr hmem)
    rw [List.foldl_cons, ih hops ha, isCreated_run (fun he => hop he.symm) (fun he => hmark he.symm)]

theorem Remembers.beginTransaction (w : World) : Remembers w.beginTransaction w.beginTransaction :=
  .refl rfl rfl

/-- Whatever a transaction does, what counts as held by a slot when it began is what the slot held then, unless
the account was created in between. That is so although changes are taken back while what is remembered stays,
and storage may be cleared and written again. -/
theorem initialSlot_eq_slot_beginTransaction {ops : List Operation} (hops : .beginTransaction ∉ ops)
    (ha : .markCreated a ∉ ops) (w : World) (k : Hash) :
    (ops.foldl Operation.run w.beginTransaction).initialSlot a k = w.beginTransaction.slot a k := by
  have h := (Remembers.beginTransaction w).foldl hops
  refine h.initialSlot ?_ k
  rw [isCreated_foldl hops ha]
  exact Std.ExtTreeSet.contains_empty

/-- A slot that is cleared with all others of its account, written anew and cleared again with the account, under
checkpoints of which the outer is reverted: it counts as holding what it did when the transaction began. -/
theorem initialSlot_eq_slot_beginTransaction_after_revert :
    let w := [Operation.setBalance 1 100, .setSlot 1 1 7, .setSlot 2 1 5].foldl Operation.run empty
    let ops := [Operation.markCreated 3, .setSlot 1 2 9, .checkpoint, .destroyStorage 1, .setSlot 1 1 8, .checkpoint,
      .destroyAccount 1, .commit, .revert, .setSlot 1 1 0]
    (ops.foldl Operation.run w.beginTransaction).initialSlot 1 1 = 7 ∧
      (ops.foldl Operation.run w.beginTransaction).initialSlot 1 2 = 0 ∧
      (ops.foldl Operation.run w.beginTransaction).slot 1 1 = 0 ∧
      (ops.foldl Operation.run w.beginTransaction).slot 1 2 = 9 := by
  intro w ops
  have hops : .beginTransaction ∉ ops := by simp [ops]
  have hcreated : .markCreated 1 ∉ ops := by simp [ops]
  rw [initialSlot_eq_slot_beginTransaction hops hcreated, initialSlot_eq_slot_beginTransaction hops hcreated]
  exact ⟨by decide +kernel, by decide +kernel, by decide +kernel, by decide +kernel⟩

end World

end StateTransition
