import StateTransition.Proofs.World.Change

/-! Runs of the operations on a world, from the one without accounts. Every world that a run reaches
is well formed. -/
namespace StateTransition

namespace World

variable {w w' : World}

def after (m : WorldM Unit) (w : World) : World :=
  match m.run w with
  | .ok _ w' => w'
  | .error _ w' => w'

inductive Operation where
  | setAccount (a : Address) (record : Option Account)
  | touch (a : Address)
  | destroyAccount (a : Address)
  | destroyStorage (a : Address)
  | markCreated (a : Address)
  | incrementNonce (a : Address)
  | setNonce (a : Address) (nonce : UInt64)
  | setBalance (a : Address) (balance : Word)
  | addBalance (a : Address) (amount : Word)
  | subBalance (a : Address) (amount : Word)
  | transfer (source target : Address) (amount : Word)
  | setCode (a : Address) (code : ByteArray)
  | setSlot (a : Address) (k : Hash) (value : Word)
  | checkpoint
  | commit
  | revert
  | beginTransaction

def Operation.run (w : World) : Operation → World
  | setAccount a record => w.setAccount a record
  | touch a => w.touch a
  | destroyAccount a => w.destroyAccount a
  | destroyStorage a => w.destroyStorage a
  | markCreated a => w.markCreated a
  | incrementNonce a => after (World.incrementNonce a) w
  | setNonce a nonce => w.setNonce a nonce
  | setBalance a balance => w.setBalance a balance
  | addBalance a amount => after (World.addBalance a amount) w
  | subBalance a amount => after (World.subBalance a amount) w
  | transfer source target amount => after (World.transfer source target amount) w
  | setCode a code => w.setCode a code
  | setSlot a k value => w.setSlot a k value
  | checkpoint => w.checkpoint
  | commit => after World.commit w
  | revert => after World.revert w
  | beginTransaction => w.beginTransaction

/-- The worlds that operations lead to. -/
inductive Reachable : World → Prop where
  | empty : Reachable empty
  | run {w : World} (h : Reachable w) (op : Operation) : Reachable (op.run w)

/-- How many checkpoints opened in a run are open after one more operation, if that neither closes
one from before the run nor forgets them all. -/
def Operation.depth (d : Nat) : Operation → Option Nat
  | checkpoint => some (d + 1)
  | commit | revert => match d with
    | 0 => none
    | d + 1 => some d
  | beginTransaction => none
  | _ => some d

/-- Runs that close just the checkpoints that they open. -/
def Nested (ops : List Operation) : Prop := ops.foldlM Operation.depth 0 = some 0

instance : DecidablePred Nested := fun _ => inferInstanceAs (Decidable (_ = _))

/-! ### Operations that can fail -/

theorem run_incrementNonce (a : Address) (w : World) :
    (incrementNonce a).run w =
      if (w.accountOrEmpty a).nonce.toNat + 1 < countLimit then
        .ok () (w.setAccount a
          (some { w.accountOrEmpty a with nonce := (w.accountOrEmpty a).nonce + 1 }))
      else .error (.nonceOverflow a) w := by
  by_cases h : (w.accountOrEmpty a).nonce.toNat + 1 < countLimit <;> simp [incrementNonce, h]

/-- A nonce that is not the greatest can be raised. -/
theorem exists_incrementNonce {a : Address} (h : (w.accountOrEmpty a).nonce.toNat ≠ maxCount) :
    ∃ w', incrementNonce a w = .ok () w' := by
  have hlt : (w.accountOrEmpty a).nonce.toNat < countLimit := UInt64.toNat_lt _
  have hmax : maxCount = countLimit - 1 := rfl
  have hrun := run_incrementNonce a w
  rw [if_pos (by omega)] at hrun
  exact ⟨_, hrun⟩

theorem run_addBalance (a : Address) (amount : Word) (w : World) :
    (addBalance a amount).run w =
      match (w.balance a).add? amount with
      | some sum => .ok () (w.setBalance a sum)
      | none => .error (.balanceOverflow a) w := by
  cases h : (w.balance a).add? amount <;> simp [addBalance, h]

theorem run_subBalance (a : Address) (amount : Word) (w : World) :
    (subBalance a amount).run w =
      match (w.balance a).sub? amount with
      | some rest => .ok () (w.setBalance a rest)
      | none => .error (.insufficientBalance a amount (w.balance a)) w := by
  cases h : (w.balance a).sub? amount <;> simp [subBalance, h]

theorem run_commit (w : World) :
    commit.run w =
      match w.checkpoints with
      | [] => .error .noCheckpoint w
      | [_] => .ok () { w with checkpoints := [], journal := [] }
      | _ :: rest => .ok () { w with checkpoints := rest } := by
  rcases h : w.checkpoints with _ | ⟨mark, _ | ⟨mark', rest⟩⟩ <;> simp [commit, h]

theorem run_revert (w : World) :
    revert.run w =
      match w.checkpoints with
      | [] => .error .noCheckpoint w
      | mark :: rest => .ok () (unwind mark { w with checkpoints := rest }) := by
  cases h : w.checkpoints <;> simp [revert, h]

/-- A transfer that fails may have lowered a balance. -/
theorem after_transfer (source target : Address) (amount : Word) (w : World) :
    after (transfer source target amount) w = after (subBalance source amount) w ∨
      after (transfer source target amount) w = after (addBalance target amount) (after (subBalance source amount) w) := by
  simp only [after, transfer, EStateM.run_bind]
  cases (subBalance source amount).run w with
  | ok u w' => exact .inr rfl
  | error cause w' => exact .inl rfl

/-- What holds after a change and is kept by the next holds after both, also where one of them fails. -/
theorem after_bind {P : World → Prop} {x y : WorldM Unit} (hx : P (after x w))
    (hy : ∀ w' : World, P w' → P (after y w')) : P (after (x >>= fun _ => y) w) := by
  rw [after] at hx
  rw [after, EStateM.run_bind]
  cases hrun : x.run w with
  | ok u w' =>
    rw [hrun] at hx
    exact hy w' hx
  | error cause w' =>
    rw [hrun] at hx
    exact hx

namespace Change

theorem incrementNonce (a : Address) (w : World) : Change w (after (World.incrementNonce a) w) := by
  rw [after, run_incrementNonce]
  by_cases h : (w.accountOrEmpty a).nonce.toNat + 1 < countLimit
  · rw [if_pos h]
    exact setAccount a _ w
  · rw [if_neg h]
    exact refl w

theorem addBalance (a : Address) (amount : Word) (w : World) :
    Change w (after (World.addBalance a amount) w) := by
  rw [after, run_addBalance]
  cases (w.balance a).add? amount with
  | some sum => exact setAccount a _ w
  | none => exact refl w

theorem subBalance (a : Address) (amount : Word) (w : World) :
    Change w (after (World.subBalance a amount) w) := by
  rw [after, run_subBalance]
  cases (w.balance a).sub? amount with
  | some rest => exact setAccount a _ w
  | none => exact refl w

theorem transfer (source target : Address) (amount : Word) (w : World) :
    Change w (after (World.transfer source target amount) w) := by
  have hsub := subBalance source amount w
  rcases after_transfer source target amount w with he | he
  · rwa [he]
  · rw [he]
    exact hsub.trans (addBalance target amount _)

end Change

/-- An operation that opens and closes no checkpoint is a single step, whatever it does. -/
theorem Operation.change {d : Nat} (op : Operation) (h : op.depth d = some d) (w : World) :
    Change w (op.run w) := by
  cases op with
  | setAccount a record => exact .setAccount a record w
  | touch a => exact .touch a w
  | destroyAccount a => exact .destroyAccount a w
  | destroyStorage a => exact .destroyStorage a w
  | markCreated a => exact .markCreated a w
  | incrementNonce a => exact .incrementNonce a w
  | setNonce a nonce => exact .setAccount a _ w
  | setBalance a balance => exact .setAccount a _ w
  | addBalance a amount => exact .addBalance a amount w
  | subBalance a amount => exact .subBalance a amount w
  | transfer source target amount => exact .transfer source target amount w
  | setCode a code => exact .setCode a code w
  | setSlot a k value => exact .setSlot a k value w
  | checkpoint => simp [depth] at h
  | commit => cases d <;> simp [depth] at h
  | revert => cases d <;> simp [depth] at h
  | beginTransaction => cases h

/-! ### Well-formed worlds -/

namespace WellFormed

theorem checkpoint (h : w.WellFormed) : w.checkpoint.WellFormed where
  tidy := ⟨h.tidy.ne_empty, h.tidy.nonZero⟩
  journal := h.journal
  marks := by
    have hm := h.marks
    simp only [World.checkpoint, List.pairwise_cons] at hm ⊢
    exact ⟨by simpa using hm.1, hm⟩

theorem beginTransaction (h : w.WellFormed) : w.beginTransaction.WellFormed where
  tidy := ⟨h.tidy.ne_empty, h.tidy.nonZero⟩
  journal := by simp [World.beginTransaction]
  marks := by simp [World.beginTransaction]

theorem commit (h : w.WellFormed) : (after World.commit w).WellFormed := by
  rw [after, run_commit]
  have hm := h.marks
  rcases hc : w.checkpoints with _ | ⟨mark, _ | ⟨mark', rest⟩⟩
  · exact h
  · exact ⟨⟨h.tidy.ne_empty, h.tidy.nonZero⟩, by simp, by simp⟩
  · rw [hc, List.pairwise_cons, List.pairwise_cons] at hm
    refine ⟨⟨h.tidy.ne_empty, h.tidy.nonZero⟩, h.journal, List.pairwise_cons.mpr ⟨?_, hm.2.2⟩⟩
    exact fun m hmem => hm.1 m (List.mem_cons_of_mem _ hmem)

theorem revert (h : w.WellFormed) : (after World.revert w).WellFormed := by
  rw [after, run_revert]
  have hm := h.marks
  cases hc : w.checkpoints with
  | nil => exact h
  | cons mark rest =>
    rw [hc, List.pairwise_cons] at hm
    have hle : mark ≤ w.journal.length := hm.1 mark List.mem_cons_self
    have hlen : w.journal.length - (w.journal.length - mark) = mark := by omega
    refine ⟨(Agrees.unwind mark _).tidy (Tidy.foldl_undo ⟨h.tidy.ne_empty, h.tidy.nonZero⟩ ?_), ?_, ?_⟩
    · exact fun a s hs => h.journal a s (List.mem_of_mem_take hs)
    · rw [unwind_journal]
      exact fun a s hs => h.journal a s (List.mem_of_mem_drop hs)
    · rw [unwind_journal, unwind_checkpoints, List.length_drop, hlen]
      exact hm.2

theorem run (h : w.WellFormed) (op : Operation) : (op.run w).WellFormed := by
  cases op with
  | checkpoint => exact h.checkpoint
  | commit => exact h.commit
  | revert => exact h.revert
  | beginTransaction => exact h.beginTransaction
  | _ => exact (Operation.change (d := 0) _ rfl w).wellFormed h

end WellFormed

theorem Reachable.wellFormed (h : Reachable w) : w.WellFormed := by
  induction h with
  | empty => exact wellFormed_empty
  | run _ op ih => exact ih.run op

theorem Reachable.foldl {α : Type} {f : World → α → World}
    (hf : ∀ {w : World} (x : α), Reachable w → Reachable (f w x)) (h : Reachable w) (l : List α) :
    Reachable (l.foldl f w) := by
  induction l generalizing w with
  | nil => exact h
  | cons x l ih => exact ih (hf x h)

end World

end StateTransition
