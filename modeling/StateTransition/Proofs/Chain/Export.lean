import StateTransition.Proofs.Chain.Course
import StateTransition.Proofs.World.Allocation
import StateTransition.Proofs.World.Commitment
import StateTransition.Proofs.World.KnownCode
import StateTransition.Proofs.World.Text

/-! Worlds written as allocations and read back. Records name codes by their digests, so what is read back has
the records, the codes and the slots that were written, and with them the state root. -/
namespace StateTransition

private theorem toByteArray_bytesOfBuffer (buffer : ByteArray) : (bytesOfBuffer buffer).toByteArray = buffer := by
  ext1
  simp [bytesOfBuffer]

namespace World

variable {w : World} {a : Address} {r : Account}

/-! ### Worlds read back -/

section Reload

variable (hw : Leads empty w)

include hw

private theorem record_listing (ha : w.account? a = some r) : (w.listing a r).record = r := by
  have hdigest := keccak256_code (hw.allKnown allKnown_empty) (hw.reachable .empty).codesSound ha
  rw [Allotment.record, listing, toByteArray_bytesOfBuffer, hdigest]

private theorem account?_ofAlloc_toAlloc (a : Address) : (ofAlloc w.toAlloc).account? a = w.account? a := by
  rw [account?_ofAlloc, getElem?_toAlloc]
  cases ha : w.account? a with
  | none => rfl
  | some r => exact congrArg some (record_listing hw ha)

private theorem slots_ofAlloc_toAlloc (a : Address) :
    (ofAlloc w.toAlloc).slots a = if w.hasAccount a then w.slots a else ∅ := by
  have htidy := (hw.reachable .empty).wellFormed.tidy
  have htidy' := (reachable_ofAlloc w.toAlloc).wellFormed.tidy
  have hslot (k : Hash) : ((ofAlloc w.toAlloc).slots a)[k]?.getD 0 = _ := slot_ofAlloc w.toAlloc a k
  rw [getElem?_toAlloc] at hslot
  rw [hasAccount]
  cases ha : w.account? a with
  | none =>
    refine (htidy'.nonZero a).ext (by simp [NonZero]) fun k => ?_
    rw [hslot, ha]
    simp
  | some r =>
    refine (htidy'.nonZero a).ext (htidy.nonZero a) fun k => ?_
    rw [hslot, ha]
    rfl

private theorem sameState_ofAlloc_toAlloc : SameState (ofAlloc w.toAlloc) w where
  accounts := account?_ofAlloc_toAlloc hw
  slots a k ha := by
    rw [hasAccount, account?_ofAlloc_toAlloc hw] at ha
    rw [slot, slots_ofAlloc_toAlloc hw, hasAccount, if_pos ha, slot]

/-- An account's code is read back under its own digest, so it is the code of that digest. -/
private theorem code_of_mem_codes_ofAlloc {d : Hash} {code : ByteArray}
    (h : (ofAlloc w.toAlloc).codes[d]? = some code) :
    w.codes[d]? = some code := by
  obtain ⟨a, listed, ha, hne, rfl, hdigest⟩ := eq_of_mem_codes_ofAlloc h
  rw [getElem?_toAlloc, Option.map_eq_some_iff] at ha
  obtain ⟨r, hr, rfl⟩ := ha
  have hcode : (w.listing a r).code.toByteArray = w.code a := toByteArray_bytesOfBuffer (w.code a)
  have hrecord := congrArg Account.codeHash (record_listing hw hr)
  rw [hcode] at hdigest ⊢
  rw [Allotment.record, hcode, hdigest] at hrecord
  subst hrecord
  apply code_of_codeHash_ne (hw.allKnown allKnown_empty) hr
  intro hempty
  rw [listing, code_eq_empty hr hempty] at hne
  cases hne

private theorem code_ofAlloc_toAlloc (a : Address) : (ofAlloc w.toAlloc).code a = w.code a := by
  have ha := account?_ofAlloc_toAlloc hw a
  cases hr : w.account? a with
  | none => rw [World.code, World.code, ha, hr]
  | some r =>
    by_cases he : r.codeHash = emptyCodeHash
    · simp only [World.code, ha, hr, codeOfHash, if_pos he]
    · have hknown := (leads_ofAlloc w.toAlloc).allKnown allKnown_empty
      have hcode := code_of_codeHash_ne (hw.allKnown allKnown_empty) hr he
      have hcode' := code_of_mem_codes_ofAlloc hw (code_of_codeHash_ne hknown (ha.trans hr) he)
      exact Option.some.inj (hcode'.symm.trans hcode)

end Reload

end World

/-- Whatever events a world made from an allocation goes through, the world made from its own allocation has
the same accounts with their codes and slots, none of which is zero, and the same root. Words, counts and byte
strings are read back from their texts, so distinct slots are written under distinct names. -/
theorem World.ofAlloc_toAlloc (alloc : Alloc) (events : List World.Event) :
    let w := events.foldl World.Event.run (ofAlloc alloc)
    let w' := ofAlloc w.toAlloc
    w'.accounts = w.accounts ∧ (∀ a, w'.code a = w.code a) ∧
      (∀ a, w'.slots a = if w.hasAccount a then w.slots a else ∅) ∧ (∀ a, NonZero (w.slots a)) ∧
      w'.stateRoot = w.stateRoot ∧
      Alloc.Inverts Alloc.readWord Alloc.writeWord ∧ Alloc.Inverts Alloc.readCount Alloc.writeCount ∧
      Alloc.Inverts Alloc.readBytes Alloc.writeBytes ∧ Function.Injective Alloc.writeWord := by
  intro w w'
  have hw : Leads empty w := (leads_ofAlloc alloc).trans (.foldl (fun w e => e.leads w) events (ofAlloc alloc))
  have htidy := (hw.reachable .empty).wellFormed.tidy
  have htidy' := (reachable_ofAlloc w.toAlloc).wellFormed.tidy
  have hwords := Alloc.Inverts.of_read Alloc.readWord_writeWord
  exact ⟨Std.ExtTreeMap.ext_getElem? (account?_ofAlloc_toAlloc hw), code_ofAlloc_toAlloc hw,
    slots_ofAlloc_toAlloc hw, htidy.nonZero, (sameState_ofAlloc_toAlloc hw).stateRoot_eq htidy' htidy,
    hwords, .of_read Alloc.readCount_writeCount, .of_read Alloc.readBytes_writeBytes, hwords.injective⟩

end StateTransition
