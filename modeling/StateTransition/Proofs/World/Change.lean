import StateTransition.Proofs.World.Undo

/-! What the operations on a world have in common between two openings or closings of checkpoints:
they keep it well formed, forget no code and leave a record that leads back. -/
namespace StateTransition

namespace World

variable {w w' w'' : World}

/-- The storage is tidy, the journal puts back no zeros, and at no checkpoint was it longer than at
the next one inside, or than it is. -/
structure WellFormed (w : World) : Prop where
  tidy : w.Tidy
  journal : ∀ a s, Undo.slots a s ∈ w.journal → NonZero s
  marks : (w.journal.length :: w.checkpoints).Pairwise (· ≥ ·)

theorem wellFormed_empty : empty.WellFormed where
  tidy := ⟨by simp [empty], by simp [empty, slots, NonZero]⟩
  journal := by simp [empty]
  marks := by simp [empty]

/-- A step between two worlds with the same open checkpoints, which is noted only while one is open. -/
structure Change (w w' : World) : Prop where
  wellFormed : w.WellFormed → w'.WellFormed
  checkpoints : w'.checkpoints = w.checkpoints
  codes : ∀ (h : Hash) (code : ByteArray), w.codes[h]? = some code → w'.codes[h]? = some code
  idle : w.checkpoints = [] → w'.journal = w.journal
  log : ∃ undos, w'.journal = undos ++ w.journal ∧
    (w.WellFormed → w.checkpoints ≠ [] → Agrees (undos.foldl undo w') w)

namespace Change

theorem trans (h : Change w w') (h' : Change w' w'') : Change w w'' where
  wellFormed hw := h'.wellFormed (h.wellFormed hw)
  checkpoints := h'.checkpoints.trans h.checkpoints
  codes d code hd := h'.codes d code (h.codes d code hd)
  idle hn := (h'.idle (h.checkpoints.trans hn)).trans (h.idle hn)
  log := by
    obtain ⟨undos, hj, hback⟩ := h.log
    obtain ⟨undos', hj', hback'⟩ := h'.log
    refine ⟨undos' ++ undos, by rw [hj', hj, List.append_assoc], fun hw hc => ?_⟩
    have hw' : Agrees (undos'.foldl undo w'') w' :=
      hback' (h.wellFormed hw) (by rwa [h.checkpoints])
    exact hw'.foldl_undo_append (hback hw hc)

/-- A step that touches neither accounts nor slots needs no record. -/
private theorem of_agrees (ha : Agrees w' w) (hj : w'.journal = w.journal)
    (hc : w'.checkpoints = w.checkpoints)
    (hcodes : ∀ (h : Hash) (code : ByteArray), w.codes[h]? = some code → w'.codes[h]? = some code) :
    Change w w' where
  wellFormed hw := by
    refine ⟨ha.tidy hw.tidy, ?_, ?_⟩
    · simpa only [hj] using hw.journal
    · simpa only [hj, hc] using hw.marks
  checkpoints := hc
  codes := hcodes
  idle _ := hj
  log := ⟨[], by simp [hj], fun _ _ => ha⟩

theorem refl (w : World) : Change w w :=
  of_agrees (.refl w) rfl rfl fun _ _ h => h

/-- A step noted in the journal together with what takes it back. -/
private theorem recorded {u : Undo} (hj : w'.journal = w.journal) (hc : w'.checkpoints = w.checkpoints)
    (hcodes : w'.codes = w.codes) (ht : w.Tidy → w'.Tidy)
    (hu : w.Tidy → ∀ a s, u = .slots a s → NonZero s)
    (hback : w.Tidy → Agrees (w'.undo u) w) : Change w (w'.record u) where
  wellFormed hw := by
    have htidy : (w'.record u).Tidy := (Agrees.record u w').tidy (ht hw.tidy)
    by_cases hn : w.checkpoints = []
    · have hr : w'.record u = w' := by simp [record, hc, hn]
      refine ⟨htidy, ?_, ?_⟩
      · simpa only [hr, hj] using hw.journal
      · simpa only [hr, hj, hc] using hw.marks
    · have hr : (w'.record u).journal = u :: w.journal := by simp [record, hc, hn, hj]
      have hm := hw.marks
      refine ⟨htidy, fun a s hs => ?_, ?_⟩
      · rw [hr, List.mem_cons] at hs
        rcases hs with hs | hs
        · exact hu hw.tidy a s hs.symm
        · exact hw.journal a s hs
      · rw [List.pairwise_cons] at hm
        rw [record_checkpoints, hc, hr, List.pairwise_cons, List.length_cons]
        exact ⟨fun m hmem => Nat.le_succ_of_le (hm.1 m hmem), hm.2⟩
  checkpoints := by rw [record_checkpoints, hc]
  codes d code hd := by rw [record_codes, hcodes, hd]
  idle hn := by simp [record, hc, hn, hj]
  log := by
    by_cases hn : w.checkpoints = []
    · have hr : w'.record u = w' := by simp [record, hc, hn]
      exact ⟨[], by simp [hr, hj], fun _ hne => absurd hn hne⟩
    · refine ⟨[u], by simp [record, hc, hn, hj], fun hw _ => ?_⟩
      exact ((Agrees.record u w').undo u).trans (hback hw.tidy)

theorem setAccount (a : Address) (r : Option Account) (w : World) : Change w (w.setAccount a r) :=
  recorded (putAccount_journal a r w) (putAccount_checkpoints a r w) (putAccount_codes a r w)
    (fun h => h.putAccount a r) (fun _ _ _ hu => by cases hu)
    (fun _ => Agrees.putAccount_back a r w)

theorem setSlot (a : Address) (k : Hash) (value : Word) (w : World) :
    Change w (w.setSlot a k value) := by
  refine recorded rfl rfl rfl (fun h => ?_) (fun _ _ _ hu => by cases hu) (fun h => ?_)
  · have ht := h.writeSlot a k value
    exact ⟨ht.ne_empty, ht.nonZero⟩
  · have hb := Agrees.writeSlot_back h a k value
    exact ⟨hb.accounts, hb.storage⟩

/-- What is remembered of the slots cleared is no part of what a checkpoint restores. -/
theorem foldl_rememberSlot (a : Address) (l : List (Hash × Word)) (w : World) :
    ∃ initial, l.foldl (fun w (k, value) => w.rememberSlot a k value) w = { w with initial } := by
  induction l generalizing w with
  | nil => exact ⟨w.initial, rfl⟩
  | cons e l ih => exact ih (w.rememberSlot a e.1 e.2)

theorem destroyStorage (a : Address) (w : World) : Change w (w.destroyStorage a) := by
  unfold World.destroyStorage
  split
  · exact refl w
  · next s hs =>
    have hw : w.slots a = s := by rw [slots, hs, Option.getD_some]
    obtain ⟨initial, he⟩ := foldl_rememberSlot a s.toList w
    have hput : w.storage.erase a = (w.putSlots a ∅).storage := by simp [putSlots]
    simp only [he]
    refine recorded rfl rfl rfl (fun h => ?_) (fun h b t ht => ?_) (fun h => ?_)
    · have ht := h.putSlots a (s := ∅) (by simp [NonZero])
      rw [hput]
      exact ⟨ht.ne_empty, ht.nonZero⟩
    · cases ht
      exact hw ▸ h.nonZero a
    · have hb := Agrees.putSlots_back h a (s := ∅) (by simp [NonZero])
      rw [hw] at hb
      rw [hput]
      exact ⟨hb.accounts, hb.storage⟩

theorem destroyAccount (a : Address) (w : World) : Change w (w.destroyAccount a) :=
  (destroyStorage a w).trans (setAccount a none _)

theorem touch (a : Address) (w : World) : Change w (w.touch a) := by
  unfold World.touch
  split
  · exact refl w
  · exact setAccount a _ w

theorem markCreated (a : Address) (w : World) : Change w (w.markCreated a) :=
  of_agrees ⟨rfl, rfl⟩ rfl rfl fun _ _ h => h

private theorem installCode (d : Hash) (code : ByteArray) (w : World) :
    Change w { w with codes := w.codes.insertIfNew d code } := by
  refine of_agrees ⟨rfl, rfl⟩ rfl rfl fun d' code' h => ?_
  have hmem : d' ∈ w.codes := by simp [Std.ExtTreeMap.mem_iff_isSome_getElem?, h]
  rw [Std.ExtTreeMap.getElem?_insertIfNew, if_neg, h]
  rintro ⟨hd, hnew⟩
  rw [Std.compare_eq_iff_eq] at hd
  exact hnew (hd ▸ hmem)

theorem setCode (a : Address) (code : ByteArray) (w : World) : Change w (w.setCode a code) := by
  unfold World.setCode updateAccount
  split
  · exact setAccount a _ w
  · exact (installCode _ code w).trans (setAccount a _ _)

end Change

end World

end StateTransition
