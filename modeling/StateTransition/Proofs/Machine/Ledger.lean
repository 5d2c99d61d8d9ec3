import Mathlib.Algebra.BigOperators.Group.Finset.Piecewise
import Mathlib.Algebra.Order.BigOperators.Group.Finset
import StateTransition.Proofs.Machine.Behaviour
import StateTransition.Proofs.World.Initial

/-! What writes give back. To clear a slot gives a refund, which writes to a slot that is cleared may take back;
a slot that the transaction found in use and that is clear has at least the refund of one clearing to its
credit, and so no slot ever comes to less than nothing. -/
namespace StateTransition

/-- A write of a slot, with what the transaction found there and what was there just before. -/
structure SlotWrite where
  slot : SlotKey
  initial : Word
  current : Word
  new : Word

def World.slotWrite (w : World) (a : Address) (k : Hash) (new : Word) : SlotWrite :=
  ⟨⟨a, k⟩, w.initialSlot a k, w.slot a k, new⟩

def SlotWrite.refund (rules : Rules) (x : SlotWrite) : Int :=
  MachineM.writeRefund rules x.initial x.current x.new

/-- Writes, oldest first. -/
abbrev Ledger := List SlotWrite

namespace Ledger

variable {rules : Rules} {l l' : Ledger} {x : SlotWrite} {key : SlotKey}

def refund (rules : Rules) : Ledger → Int
  | [] => 0
  | x :: l => x.refund rules + refund rules l

def refundOf (rules : Rules) (l : Ledger) (key : SlotKey) : Int := refund rules (l.filter (·.slot = key))

theorem refund_append (rules : Rules) (l l' : Ledger) : refund rules (l ++ l') = refund rules l + refund rules l' := by
  induction l with
  | nil => simp [refund]
  | cons x l ih => rw [List.cons_append, refund, refund, ih, Int.add_assoc]

private theorem refundOf_append (rules : Rules) (l l' : Ledger) (key : SlotKey) :
    refundOf rules (l ++ l') key = refundOf rules l key + refundOf rules l' key := by
  rw [refundOf, List.filter_append, refund_append]
  rfl

private theorem refundOf_singleton (rules : Rules) (x : SlotWrite) (key : SlotKey) :
    refundOf rules [x] key = if x.slot = key then x.refund rules else 0 := by
  by_cases hx : x.slot = key <;> simp [refundOf, refund, hx]

/-- All refunds are those of the slots that are written. -/
private theorem refund_eq_sum (rules : Rules) {l : Ledger} {slots : Finset SlotKey} (h : ∀ x ∈ l, x.slot ∈ slots) :
    refund rules l = ∑ key ∈ slots, refundOf rules l key := by
  induction l with
  | nil => simp [refund, refundOf]
  | cons x l ih =>
    obtain ⟨hx, hl⟩ := List.forall_mem_cons.mp h
    have hsplit (key : SlotKey) :
        refundOf rules (x :: l) key = (if x.slot = key then x.refund rules else 0) + refundOf rules l key := by
      rw [← refundOf_singleton, ← refundOf_append]
      rfl
    simp only [hsplit, Finset.sum_add_distrib, Finset.sum_ite_eq, hx, if_true, ← ih hl]
    rfl

theorem refund_nonneg (h : ∀ key, 0 ≤ refundOf rules l key) : 0 ≤ refund rules l := by
  have hslots : ∀ x ∈ l, x.slot ∈ (l.map SlotWrite.slot).toFinset := fun x hx =>
    List.mem_toFinset.mpr (List.mem_map_of_mem hx)
  rw [refund_eq_sum rules hslots]
  exact Finset.sum_nonneg fun key _ => h key

end Ledger

/-! ### The credit of a slot -/

namespace Rules

/-- What a slot is to have to its credit: the refund of a clearing if it was in use and is clear. -/
def credit (rules : Rules) (initial current : Word) : Int :=
  if initial ≠ 0 ∧ current = 0 then rules.gas.sstoreClearRefund else 0

theorem credit_nonneg (rules : Rules) (initial current : Word) : 0 ≤ rules.credit initial current := by
  unfold credit
  split <;> omega

theorem credit_self (rules : Rules) (value : Word) : rules.credit value value = 0 :=
  if_neg fun h => h.1 h.2

private theorem credit_zero (rules : Rules) (current : Word) : rules.credit 0 current = 0 :=
  if_neg fun h => h.1 rfl

/-- Reading costs no more than any write. -/
private theorem sload_le (f : Fork) :
    (ofFork f).gas.sload ≤ (ofFork f).gas.sstoreSet ∧ (ofFork f).gas.sload ≤ (ofFork f).gas.sstoreReset := by
  cases f <;> decide

/-- Where a write's refund depends on what the transaction found, it is what the slot's credit gains by it, and
more where the slot is back at what was found. -/
private theorem credit_netWrite {rules : Rules} (hset : rules.gas.sload ≤ rules.gas.sstoreSet)
    (hreset : rules.gas.sload ≤ rules.gas.sstoreReset) (initial current new : Word) :
    rules.credit initial new ≤
      rules.credit initial current + MachineM.netWriteRefund rules.gas initial current new := by
  unfold MachineM.netWriteRefund
  by_cases hsame : current = new
  · rw [if_pos hsame, hsame]
    omega
  · rw [if_neg hsame]
    have hmoved : rules.credit initial new = rules.credit initial current +
        (if initial ≠ 0 && current ≠ 0 && new = 0 then (rules.gas.sstoreClearRefund : Int) else 0) -
        (if initial ≠ 0 && current = 0 then (rules.gas.sstoreClearRefund : Int) else 0) := by
      unfold credit
      by_cases hcurrent : current = 0 <;> by_cases hnew : new = 0 <;> simp_all
    have hrestored : 0 ≤ if initial = new then
        ((if initial = 0 then rules.gas.sstoreSet else rules.gas.sstoreReset : Nat) : Int) - rules.gas.sload
        else 0 := by
      split
      · split <;> omega
      · exact Int.le_refl 0
    dsimp only
    omega

private theorem credit_grossWrite (rules : Rules) (initial current new : Word) :
    rules.credit initial new ≤ rules.credit initial current + MachineM.grossWriteRefund rules.gas current new := by
  unfold credit MachineM.grossWriteRefund
  by_cases hinitial : initial = 0 <;> by_cases hcurrent : current = 0 <;> by_cases hnew : new = 0 <;> simp_all

/-- What a slot's credit gains by a write the write gives back, under the rules of every upgrade. -/
private theorem credit_write (f : Fork) (initial current new : Word) :
    (ofFork f).credit initial new ≤
      (ofFork f).credit initial current + MachineM.writeRefund (ofFork f) initial current new := by
  obtain ⟨hset, hreset⟩ := sload_le f
  unfold MachineM.writeRefund
  split
  · exact credit_netWrite hset hreset initial current new
  · exact credit_grossWrite _ initial current new

end Rules

namespace World

variable {rules : Rules} {l l' : Ledger} {w w' w'' : World}

/-- From one world to another the credit of every slot grows by no more than what the writes to it give back, and
accounts that count as created stay so. -/
structure Books (rules : Rules) (l : Ledger) (w w' : World) : Prop where
  created : ∀ a, w.isCreated a = true → w'.isCreated a = true
  credit : ∀ a k, rules.credit (w'.initialSlot a k) (w'.slot a k) ≤
    rules.credit (w.initialSlot a k) (w.slot a k) + l.refundOf rules ⟨a, k⟩

private theorem initialSlot_of_created {a : Address} (h : w.isCreated a = true) (k : Hash) :
    w.initialSlot a k = 0 := by
  rw [initialSlot, if_pos h]

private theorem initialSlot_setSlot (a : Address) (k : Hash) (value : Word) (w : World) (b : Address) (q : Hash) :
    (w.setSlot a k value).initialSlot b q = w.initialSlot b q := by
  have hinitial : (w.setSlot a k value).initial = (w.rememberSlot a k (w.slot a k)).initial := record_initial _ _
  have hfound : (w.setSlot a k value).initial[(⟨b, q⟩ : SlotKey)]?.getD ((w.setSlot a k value).slot b q) =
      w.initial[(⟨b, q⟩ : SlotKey)]?.getD (w.slot b q) := by
    rw [hinitial, rememberSlot, slot_setSlot, Std.ExtTreeMap.getElem?_insertIfNew]
    simp only [Std.compare_eq_iff_eq, SlotKey.mk.injEq]
    by_cases hkey : a = b ∧ k = q
    · obtain ⟨rfl, rfl⟩ := hkey
      by_cases hmem : (⟨a, k⟩ : SlotKey) ∈ w.initial
      · rw [if_neg fun h => h.2 hmem, Std.ExtTreeMap.getElem?_eq_some_getElem hmem]
        rfl
      · rw [if_pos ⟨⟨rfl, rfl⟩, hmem⟩, Std.ExtTreeMap.getElem?_eq_none hmem]
        rfl
    · rw [if_neg fun h => hkey h.1, if_neg hkey]
  rw [initialSlot, initialSlot, isCreated_setSlot, hfound]

namespace Books

theorem trans (h : Books rules l w w') (h' : Books rules l' w' w'') : Books rules (l ++ l') w w'' where
  created a ha := h'.created a (h.created a ha)
  credit a k := by
    have hfirst := h.credit a k
    have hrest := h'.credit a k
    rw [Ledger.refundOf_append]
    omega

/-- Where no slot is changed but those of accounts created. -/
theorem quiet {start : World} (hw : Remembers start w) (hw' : Remembers start w')
    (hcreated : ∀ a, w.isCreated a = true → w'.isCreated a = true)
    (hslots : ∀ a k, w'.isCreated a = false → w'.slot a k = w.slot a k) : Books rules [] w w' where
  created := hcreated
  credit a k := by
    have hempty : Ledger.refundOf rules [] ⟨a, k⟩ = 0 := rfl
    cases ha : w'.isCreated a with
    | true =>
      have hcredit := rules.credit_nonneg (w.initialSlot a k) (w.slot a k)
      rw [initialSlot_of_created ha, Rules.credit_zero]
      omega
    | false =>
      have ha₀ : w.isCreated a = false := by
        cases h₀ : w.isCreated a with
        | true => rw [hcreated a h₀] at ha; cases ha
        | false => rfl
      rw [hw'.initialSlot ha, hw.initialSlot ha₀, hslots a k ha]
      omega

theorem spared (h : SparesSlots w w') : Books rules [] w w' where
  created a ha := by rwa [isCreated, h.created]
  credit a k := by
    have hinitial : w'.initialSlot a k = w.initialSlot a k := by
      rw [initialSlot, initialSlot, isCreated, isCreated, h.created, h.initial, slot_congr h.storage]
    have hempty : Ledger.refundOf rules [] ⟨a, k⟩ = 0 := rfl
    rw [hinitial, slot_congr h.storage]
    omega

theorem trans_spared (h : Books rules l w w') (hw : SparesSlots w' w'') : Books rules l w w'' := by
  have hboth := h.trans (.spared hw)
  rwa [List.append_nil] at hboth

/-- A write is booked with what it gives back. -/
theorem write (f : Fork) (w : World) (a : Address) (k : Hash) (new : Word) :
    Books (Rules.ofFork f) [w.slotWrite a k new] w (w.setSlot a k new) where
  created b hb := by rwa [isCreated_setSlot]
  credit b q := by
    have hslot : (w.slotWrite a k new).slot = ⟨a, k⟩ := rfl
    rw [initialSlot_setSlot, slot_setSlot, Ledger.refundOf_singleton, hslot]
    by_cases hkey : a = b ∧ k = q
    · obtain ⟨rfl, rfl⟩ := hkey
      rw [if_pos ⟨rfl, rfl⟩, if_pos rfl]
      exact Rules.credit_write f _ _ new
    · rw [if_neg hkey, if_neg fun h => hkey ⟨congrArg SlotKey.owner h, congrArg SlotKey.key h⟩]
      omega

end Books

end World

end StateTransition
