import StateTransition.World.Alloc
import StateTransition.Proofs.World.Operation

/-! Computations on a world as operations one after another. What every operation keeps, a computation
keeps too, and so does one that fails on its way. -/
namespace StateTransition

namespace World

variable {w w' w'' : World}

/-- The operations that code and settlement come down to. A record is put in place only as it comes of the
one that was there: no code hash is taken from elsewhere. -/
def Operation.Routine : Operation → Prop
  | setAccount _ _ => False
  | _ => True

/-- Routine operations one after another lead from a world to another. -/
inductive Leads (w : World) : World → Prop where
  | refl : Leads w w
  | run {w' : World} (h : Leads w w') (op : Operation) (hop : op.Routine) : Leads w (op.run w')

namespace Leads

theorem single (op : Operation) (hop : op.Routine) (w : World) : Leads w (op.run w) := .run .refl op hop

theorem trans (h : Leads w w') (h' : Leads w' w'') : Leads w w'' := by
  induction h' with
  | refl => exact h
  | run _ op hop ih => exact ih.run op hop

theorem foldl {α : Type} {f : World → α → World} (hf : ∀ w x, Leads w (f w x)) (l : List α) (w : World) :
    Leads w (l.foldl f w) := by
  induction l generalizing w with
  | nil => exact .refl
  | cons x l ih => exact (hf w x).trans (ih (f w x))

/-- What every routine operation keeps holds at the end of a run. -/
theorem preserves {P : World → Prop} (hP : ∀ w (op : Operation), op.Routine → P w → P (op.run w))
    (h : Leads w w') (hw : P w) : P w' := by
  induction h with
  | refl => exact hw
  | run _ op hop ih => exact hP _ op hop ih

theorem wellFormed (h : Leads w w') (hw : w.WellFormed) : w'.WellFormed :=
  h.preserves (fun _ op _ hw => hw.run op) hw

theorem reachable (h : Leads w w') (hw : Reachable w) : Reachable w' :=
  h.preserves (fun _ op _ hw => hw.run op) hw

end Leads

/-! ### Allocations -/

private theorem leads_allot (a : Address) (r : Allotment) (w : World) : Leads w (w.allot a r) := by
  have hset : Leads w ((w.setBalance a r.balance).setNonce a r.nonce) :=
    (Leads.single (.setBalance a r.balance) trivial w).run (.setNonce a r.nonce) trivial
  have hslots (w : World) : Leads w (r.storage.toList.foldl _ w) :=
    .foldl (fun w (e : Hash × Word) => .single (.setSlot a e.1 e.2) trivial w) _ w
  unfold World.allot
  split
  · exact hset.trans (hslots _)
  · exact (hset.run (.setCode a r.code.toByteArray) trivial).trans (hslots _)

/-- Worlds made from an allocation are made by operations. -/
theorem leads_ofAlloc (alloc : Alloc) : Leads empty (ofAlloc alloc) := by
  have h : Leads empty (alloc.toList.foldl _ empty) :=
    .foldl (fun w (e : Address × Allotment) => leads_allot e.1 e.2 w) _ _
  exact h.run .beginTransaction trivial

theorem reachable_ofAlloc (alloc : Alloc) : Reachable (ofAlloc alloc) := (leads_ofAlloc alloc).reachable .empty

/-! ### Computations -/

variable {ε α β : Type} {a : α}

def left : EStateM.Result ε World α → World
  | .ok _ w => w
  | .error _ w => w

theorem left_eq_after (m : WorldM Unit) (w : World) : left (m w) = after m w := by
  unfold left after
  split
  · next hr => simp [EStateM.run, hr]
  · next hr => simp [EStateM.run, hr]

/-- A computation that comes to routine operations, whatever world it begins in. -/
def Proceeds (x : EStateM ε World α) : Prop := ∀ w, Leads w (left (x w))

namespace Proceeds

theorem ok {x : EStateM ε World α} (h : Proceeds x) (hx : x w = .ok a w') : Leads w w' := by
  have hw := h w
  rwa [hx] at hw

theorem error {x : EStateM ε World α} (h : Proceeds x) {cause : ε} (hx : x w = .error cause w') : Leads w w' := by
  have hw := h w
  rwa [hx] at hw

theorem pure (a : α) : Proceeds (pure a : EStateM ε World α) := fun _ => .refl

theorem get : Proceeds (get : WorldM World) := fun _ => .refl

theorem modify {f : World → World} (h : ∀ w, Leads w (f w)) : Proceeds (modify f : WorldM Unit) := fun w => h w

theorem bind {x : EStateM ε World α} {f : α → EStateM ε World β} (hx : Proceeds x) (hf : ∀ a, Proceeds (f a)) :
    Proceeds (x >>= f) := fun w => by
  simp only [Bind.bind, EStateM.bind]
  split
  · next hr => exact (hx.ok hr).trans (hf _ _)
  · next hr => exact hx.error hr

theorem ite {c : Prop} [Decidable c] {x y : EStateM ε World α} (hx : Proceeds x) (hy : Proceeds y) :
    Proceeds (if c then x else y) := by
  split
  · exact hx
  · exact hy

private theorem of_operation {m : WorldM Unit} (op : Operation) (hop : op.Routine) (h : ∀ w, op.run w = after m w) :
    Proceeds m := fun w => by
  rw [left_eq_after, ← h]
  exact .single op hop w

theorem incrementNonce (a : Address) : Proceeds (World.incrementNonce a) :=
  of_operation (.incrementNonce a) trivial fun _ => rfl

theorem addBalance (a : Address) (amount : Word) : Proceeds (World.addBalance a amount) :=
  of_operation (.addBalance a amount) trivial fun _ => rfl

theorem subBalance (a : Address) (amount : Word) : Proceeds (World.subBalance a amount) :=
  of_operation (.subBalance a amount) trivial fun _ => rfl

theorem transfer (source target : Address) (amount : Word) : Proceeds (World.transfer source target amount) :=
  of_operation (.transfer source target amount) trivial fun _ => rfl

theorem commit : Proceeds World.commit := of_operation .commit trivial fun _ => rfl

theorem revert : Proceeds World.revert := of_operation .revert trivial fun _ => rfl

end Proceeds

end World

end StateTransition
