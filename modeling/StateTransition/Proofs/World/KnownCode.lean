import StateTransition.Proofs.World.Course
import StateTransition.Proofs.World.Deployment
import StateTransition.Proofs.World.Records

/-! Known codes. Codes outlive the accounts that named them, so whatever record a revert puts back, the code
that it names is still there, under its digest. -/
namespace StateTransition

namespace World

variable {u w w' : World} {a : Address} {r : Account}

/-- Whether the code that a record names is known, if it names any. -/
def Knows (w : World) (record : Option Account) : Prop :=
  ∀ r, record = some r → r.codeHash = emptyCodeHash ∨ r.codeHash ∈ w.codes

/-- All codes are known that records name, also those in the journal. -/
def AllKnown (w : World) : Prop := w.Records fun _ => w.Knows

private theorem knows_some : w.Knows (some r) ↔ r.codeHash = emptyCodeHash ∨ r.codeHash ∈ w.codes := by simp [Knows]

private theorem knows_none (w : World) : w.Knows none := fun _ h => nomatch h

private theorem codes_run {d : Hash} {code : ByteArray} (op : Operation) (h : w.codes[d]? = some code) :
    (op.run w).codes[d]? = some code := by
  cases op with
  | checkpoint | beginTransaction => exact h
  | commit => rwa [Operation.run, codes_after_commit]
  | revert => rwa [Operation.run, codes_after_revert]
  | _ => exact (Operation.change (d := 0) _ rfl w).codes d code h

private theorem mem_codes_run {d : Hash} (op : Operation) (h : d ∈ w.codes) : d ∈ (op.run w).codes := by
  rw [Std.ExtTreeMap.mem_iff_isSome_getElem?, codes_run op (Std.ExtTreeMap.getElem?_eq_some_getElem h)]
  rfl

private theorem mem_codes_setCode (a : Address) {code : ByteArray} (h : code.isEmpty = false) (w : World) :
    keccak256 code ∈ (w.setCode a code).codes := by
  rw [codes_setCode, h, if_neg Bool.false_ne_true]
  simp

/-! ### Steps -/

namespace Records

variable (h : w.Records fun _ => u.Knows)

include h

private theorem codeHash_accountOrEmpty (a : Address) :
    (w.accountOrEmpty a).codeHash = emptyCodeHash ∨ (w.accountOrEmpty a).codeHash ∈ u.codes := by
  have ha := h.account a
  rw [accountOrEmpty]
  cases hr : w.account? a with
  | none => exact .inl rfl
  | some r => exact ha r hr

/-- A record that names the code that it did. -/
private theorem update (hr : r.codeHash = (w.accountOrEmpty a).codeHash) :
    (w.setAccount a (some r)).Records fun _ => u.Knows := by
  apply h.setAccount
  rw [knows_some, hr]
  exact h.codeHash_accountOrEmpty a

private theorem addBalance (a : Address) (amount : Word) :
    (after (World.addBalance a amount) w).Records fun _ => u.Knows := by
  rw [after, run_addBalance]
  cases (w.balance a).add? amount with
  | some sum => exact h.update rfl
  | none => exact h

private theorem subBalance (a : Address) (amount : Word) :
    (after (World.subBalance a amount) w).Records fun _ => u.Knows := by
  rw [after, run_subBalance]
  cases (w.balance a).sub? amount with
  | some rest => exact h.update rfl
  | none => exact h

private theorem run (op : Operation) (hop : op.Routine)
    (hcode : ∀ a code, op = .setCode a code → code.isEmpty = false → keccak256 code ∈ u.codes) :
    (op.run w).Records fun _ => u.Knows := by
  cases op with
  | setAccount a record => exact hop.elim
  | touch a =>
    rw [Operation.run, touch]
    split
    · exact h
    · exact h.setAccount (knows_some.mpr (.inl rfl))
  | destroyAccount a => exact (h.destroyStorage a).setAccount (knows_none u)
  | destroyStorage a => exact h.destroyStorage a
  | incrementNonce a =>
    rw [Operation.run, after, run_incrementNonce]
    by_cases hlt : (w.accountOrEmpty a).nonce.toNat + 1 < countLimit
    · rw [if_pos hlt]
      exact h.update rfl
    · rwa [if_neg hlt]
  | setNonce a nonce => exact h.update rfl
  | setBalance a balance => exact h.update rfl
  | addBalance a amount => exact h.addBalance a amount
  | subBalance a amount => exact h.subBalance a amount
  | transfer source target amount =>
    rw [Operation.run]
    rcases after_transfer source target amount w with he | he
    · rw [he]
      exact h.subBalance source amount
    · rw [he]
      exact (h.subBalance source amount).addBalance target amount
  | setCode a code =>
    have hinstalled : Records (fun _ => u.Knows)
        (if code.isEmpty then w else { w with codes := w.codes.insertIfNew (keccak256 code) code }) := by
      split
      · exact h
      · exact h.of_accounts rfl fun _ _ hr => hr
    refine hinstalled.setAccount (knows_some.mpr ?_)
    cases hempty : code.isEmpty with
    | true => exact .inl (Keccak.keccak256_of_isEmpty hempty)
    | false => exact .inr (hcode a code rfl hempty)
  | setSlot a k value => exact h.setSlot a k value
  | markCreated a => exact h.of_accounts rfl fun _ _ hr => hr
  | checkpoint => exact h.checkpoint
  | commit => exact h.commit
  | revert => exact h.revert
  | beginTransaction => exact h.beginTransaction

end Records

private theorem AllKnown.run (h : w.AllKnown) (op : Operation) (hop : op.Routine) : (op.run w).AllKnown := by
  have hafter : w.Records fun _ => (op.run w).Knows :=
    h.mono fun _ record hr r he => (hr r he).imp_right (mem_codes_run op)
  refine hafter.run op hop fun a code he hne => ?_
  subst he
  exact mem_codes_setCode a hne w

theorem Leads.allKnown (h : Leads w w') (hw : w.AllKnown) : w'.AllKnown :=
  h.preserves (fun _ op hop hw => hw.run op hop) hw

theorem allKnown_empty : empty.AllKnown :=
  ⟨fun _ _ h => by simp [World.empty, account?] at h, fun _ _ h => nomatch h⟩

/-- Code that is looked up is kept under the digest in the record, and is not empty. -/
theorem code_of_codeHash_ne (hknown : w.AllKnown) (ha : w.account? a = some r) (hne : r.codeHash ≠ emptyCodeHash) :
    w.codes[r.codeHash]? = some (w.code a) := by
  have hmem := (hknown.account a r ha).resolve_left hne
  have hcode : w.code a = w.codes[r.codeHash]?.getD ByteArray.empty := by
    rw [World.code, ha]
    exact if_neg hne
  rw [hcode, Std.ExtTreeMap.getElem?_eq_some_getElem hmem, Option.getD_some]

/-- A record holds the digest of the account's code. -/
theorem keccak256_code (hknown : w.AllKnown) (hsound : w.CodesSound) (ha : w.account? a = some r) :
    keccak256 (w.code a) = r.codeHash := by
  by_cases he : r.codeHash = emptyCodeHash
  · rw [code_eq_empty ha he, he, Keccak.keccak256_empty]
  · exact hsound _ _ (code_of_codeHash_ne hknown ha he)

end World

end StateTransition
