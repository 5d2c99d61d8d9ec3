import StateTransition.World.Alloc
import StateTransition.Proofs.World.Deployment
import StateTransition.Proofs.World.Locality

/-! Allocations and worlds. The world of an allocation has just the accounts, codes and slots that the
allocation lists, and the allocation of a world lists just the accounts that it has. -/
namespace StateTransition

/-! ### Folds over the entries of a map -/

section Folds

variable {κ β σ γ : Type} (step : σ → κ × β → σ) (look : σ → κ → γ) (put : κ → β → γ → γ)

private theorem look_foldl_of_not_mem (hother : ∀ s e k, e.1 ≠ k → look (step s e) k = look s k) {l : List (κ × β)}
    {k : κ}
    (hk : ∀ e ∈ l, e.1 ≠ k) (s : σ) : look (l.foldl step s) k = look s k := by
  induction l generalizing s with
  | nil => rfl
  | cons e l ih =>
    have hrest := ih (fun e' he' => hk e' (List.mem_cons_of_mem e he')) (step s e)
    rw [List.foldl_cons, hrest, hother s e k (hk e List.mem_cons_self)]

private theorem look_foldl_of_mem (hown : ∀ s k v, look (step s (k, v)) k = put k v (look s k))
    (hother : ∀ s e k, e.1 ≠ k → look (step s e) k = look s k) {l : List (κ × β)}
    (hl : l.Pairwise fun e e' => e.1 ≠ e'.1) {k : κ} {v : β} (hk : (k, v) ∈ l) (s : σ) :
    look (l.foldl step s) k = put k v (look s k) := by
  induction l generalizing s with
  | nil => cases hk
  | cons e l ih =>
    obtain ⟨hhead, htail⟩ := List.pairwise_cons.mp hl
    rw [List.foldl_cons]
    rcases List.mem_cons.mp hk with rfl | hmem
    · rw [look_foldl_of_not_mem step look hother fun e he => (hhead e he).symm, hown]
    · rw [ih htail hmem, hother s e k (hhead _ hmem)]

variable [Ord κ] [Std.TransOrd κ] [Std.LawfulEqOrd κ]

/-- Where each step changes what is at its own key only, what is at a key in the end depends on the entry at
that key and on what was there. -/
private theorem look_foldl_toList (hown : ∀ s k v, look (step s (k, v)) k = put k v (look s k))
    (hother : ∀ s e k, e.1 ≠ k → look (step s e) k = look s k) (m : Std.ExtTreeMap κ β) (s : σ) (k : κ) :
    look (m.toList.foldl step s) k = (m[k]?.map fun v => put k v (look s k)).getD (look s k) := by
  cases hk : m[k]? with
  | none =>
    apply look_foldl_of_not_mem step look hother
    rintro ⟨k', v⟩ he rfl
    rw [Std.ExtTreeMap.mem_toList_iff_getElem?_eq_some, hk] at he
    cases he
  | some v =>
    have hdistinct : m.toList.Pairwise fun e e' => e.1 ≠ e'.1 :=
      Std.ExtTreeMap.distinct_keys_toList.imp fun h he => h (by rw [he, Std.compare_self])
    exact look_foldl_of_mem step look put hown hother hdistinct (Std.ExtTreeMap.mem_toList_iff_getElem?_eq_some.mpr hk) s

end Folds

def Allotment.record (r : Allotment) : Account := ⟨r.nonce, r.balance, keccak256 r.code.toByteArray⟩

/-- What an allocation lists of an account. -/
def World.listing (w : World) (a : Address) (r : Account) : Allotment where
  balance := r.balance
  nonce := r.nonce
  code := bytesOfBuffer (w.code a)
  storage := w.slots a

namespace World

variable {w w' : World} {a b : Address} {r : Allotment}

/-! ### From a world to an allocation -/

theorem getElem?_toAlloc (w : World) (a : Address) : w.toAlloc[a]? = (w.account? a).map (w.listing a) := by
  have hlook := look_foldl_toList (fun (alloc : Alloc) e => alloc.insert e.1 (w.listing e.1 e.2))
    (fun alloc a => alloc[a]?) (fun a r _ => some (w.listing a r))
    (fun alloc a r => Std.ExtTreeMap.getElem?_insert_self)
    (fun alloc e a he => by rw [Std.ExtTreeMap.getElem?_insert, if_neg (by simpa using he)]) w.accounts ∅ a
  refine hlook.trans ?_
  rw [account?]
  cases w.accounts[a]? <;> simp

/-! ### From an allocation to a world -/

theorem slot_setSlot (a : Address) (k : Hash) (value : Word) (w : World) (b : Address) (q : Hash) :
    (w.setSlot a k value).slot b q = if a = b ∧ k = q then value else w.slot b q := by
  rw [← slot_writeSlot, slot, slot, slots, slots, setSlot, (Agrees.record _ _).storage]
  rfl

/-- The world before the slots of an account are written. -/
def allotRecord (a : Address) (r : Allotment) (w : World) : World :=
  if r.code.isEmpty then (w.setBalance a r.balance).setNonce a r.nonce
  else ((w.setBalance a r.balance).setNonce a r.nonce).setCode a r.code.toByteArray

def allotSlots (a : Address) (slots : Slots) (w : World) : World :=
  slots.toList.foldl (fun w (e : Hash × Word) => w.setSlot a e.1 e.2) w

private theorem allot_eq (a : Address) (r : Allotment) (w : World) :
    w.allot a r = (w.allotRecord a r).allotSlots a r.storage := rfl

private theorem allotSlots_accounts (a : Address) (slots : Slots) (w : World) :
    (w.allotSlots a slots).accounts = w.accounts := by
  refine List.foldlRecOn (motive := fun w' : World => w'.accounts = w.accounts) _ _ rfl fun w' h e _ => ?_
  exact (setSlot_accounts a e.1 e.2 w').trans h

private theorem allotSlots_codes (a : Address) (slots : Slots) (w : World) :
    (w.allotSlots a slots).codes = w.codes := by
  refine List.foldlRecOn (motive := fun w' : World => w'.codes = w.codes) _ _ rfl fun w' h e _ => ?_
  exact (record_codes _ _).trans h

private theorem slot_allotSlots (a : Address) (slots : Slots) (w : World) (b : Address) (k : Hash) :
    (w.allotSlots a slots).slot b k = if a = b then slots[k]?.getD (w.slot b k) else w.slot b k := by
  have hlook := look_foldl_toList (fun (w : World) (e : Hash × Word) => w.setSlot a e.1 e.2)
    (fun w k => w.slot b k) (fun _ value previous => if a = b then value else previous)
    (fun w k value => by simp [slot_setSlot])
    (fun w e k he => by rw [slot_setSlot, if_neg fun h => he h.2]) slots w k
  refine hlook.trans ?_
  cases slots[k]? <;> simp

private theorem account?_updateAccount (a : Address) (f : Account → Account) (w : World) (b : Address) :
    (w.updateAccount a f).account? b = if a = b then some (f (w.accountOrEmpty a)) else w.account? b :=
  account?_setAccount a _ w b

private theorem account?_setCode (a : Address) (code : ByteArray) (w : World) (b : Address) :
    (w.setCode a code).account? b =
      if a = b then some { w.accountOrEmpty a with codeHash := keccak256 code } else w.account? b := by
  rw [setCode, account?_updateAccount]
  cases code.isEmpty <;> rfl

private theorem account?_allot (a : Address) (r : Allotment) (w : World) (b : Address) :
    (w.allot a r).account? b =
      if a = b then
        some ⟨r.nonce, r.balance,
          if r.code.isEmpty then (w.accountOrEmpty a).codeHash else keccak256 r.code.toByteArray⟩
      else w.account? b := by
  have hset (b : Address) : ((w.setBalance a r.balance).setNonce a r.nonce).account? b =
      if a = b then some ⟨r.nonce, r.balance, (w.accountOrEmpty a).codeHash⟩ else w.account? b := by
    rw [setNonce, account?_updateAccount, accountOrEmpty, setBalance, account?_updateAccount,
      account?_updateAccount, if_pos rfl]
    split <;> rfl
  rw [allot_eq, account?, allotSlots_accounts, ← account?, allotRecord]
  split
  · exact hset b
  · rw [account?_setCode, accountOrEmpty, hset, hset, if_pos rfl]
    split <;> rfl

private theorem slot_setCode (a : Address) (code : ByteArray) (w : World) (b : Address) (k : Hash) :
    (w.setCode a code).slot b k = w.slot b k := by
  rw [setCode, updateAccount, (SameBesideAccounts.setAccount _ _ _).slot]
  cases code.isEmpty <;> rfl

private theorem slot_allot (a : Address) (r : Allotment) (w : World) (b : Address) (k : Hash) :
    (w.allot a r).slot b k = if a = b then r.storage[k]?.getD (w.slot b k) else w.slot b k := by
  have hset : SameBesideAccounts w ((w.setBalance a r.balance).setNonce a r.nonce) :=
    (SameBesideAccounts.setAccount a _ w).trans (.setAccount a _ _)
  have hrecord : (w.allotRecord a r).slot b k = w.slot b k := by
    rw [allotRecord]
    split
    · exact hset.slot b k
    · rw [slot_setCode, hset.slot]
  rw [allot_eq, slot_allotSlots, hrecord]

private theorem eq_of_mem_codes_allot {d : Hash} {code : ByteArray} (h : (w.allot a r).codes[d]? = some code) :
    w.codes[d]? = some code ∨ r.code.isEmpty = false ∧ code = r.code.toByteArray ∧ keccak256 code = d := by
  have hset : ((w.setBalance a r.balance).setNonce a r.nonce).codes = w.codes :=
    (codes_setAccount a _ _).trans (codes_setAccount a _ w)
  rw [allot_eq, allotSlots_codes, allotRecord] at h
  split at h
  · exact .inl (hset ▸ h)
  · next hne =>
    rcases eq_of_mem_codes_setCode h with hbefore | ⟨rfl, hdigest⟩
    · exact .inl (hset ▸ hbefore)
    · exact .inr ⟨Bool.not_eq_true _ ▸ hne, rfl, hdigest⟩

theorem account?_ofAlloc (alloc : Alloc) (a : Address) :
    (ofAlloc alloc).account? a = alloc[a]?.map Allotment.record := by
  have hlook := look_foldl_toList (fun (w : World) (e : Address × Allotment) => w.allot e.1 e.2) account?
    (fun _ (r : Allotment) previous => some ⟨r.nonce, r.balance,
      if r.code.isEmpty then (previous.getD .empty).codeHash else keccak256 r.code.toByteArray⟩)
    (fun w a r => by rw [account?_allot, if_pos rfl]; rfl)
    (fun w e a he => by rw [account?_allot, if_neg he]) alloc empty a
  refine hlook.trans ?_
  have hnone : empty.account? a = none := by simp [empty, account?]
  cases alloc[a]? with
  | none => exact hnone
  | some r =>
    simp only [Option.map_some, Option.getD_some, hnone, Option.getD_none, Allotment.record]
    split
    · next hempty =>
      rw [List.isEmpty_iff.mp hempty]
      exact congrArg (fun h => some (Account.mk r.nonce r.balance h)) Keccak.keccak256_empty.symm
    · rfl

theorem slot_ofAlloc (alloc : Alloc) (a : Address) (k : Hash) :
    (ofAlloc alloc).slot a k = ((alloc[a]?).bind fun r => r.storage[k]?).getD 0 := by
  have hlook := look_foldl_toList (fun (w : World) (e : Address × Allotment) => w.allot e.1 e.2)
    (fun w a => w.slot a k) (fun _ (r : Allotment) previous => r.storage[k]?.getD previous)
    (fun w a r => by rw [slot_allot, if_pos rfl])
    (fun w e a he => by rw [slot_allot, if_neg he]) alloc empty a
  refine hlook.trans ?_
  have hzero : empty.slot a k = 0 := by simp [empty, slot, slots]
  cases alloc[a]? <;> simp [hzero]

/-- The codes of a world made from an allocation are those that the allocation lists. -/
theorem eq_of_mem_codes_ofAlloc {alloc : Alloc} {d : Hash} {code : ByteArray}
    (h : (ofAlloc alloc).codes[d]? = some code) :
    ∃ (a : Address) (r : Allotment), alloc[a]? = some r ∧ r.code.isEmpty = false ∧
      code = r.code.toByteArray ∧ keccak256 code = d := by
  refine List.foldlRecOn (motive := fun w : World => w.codes[d]? = some code → _)
    alloc.toList (fun w (e : Address × Allotment) => w.allot e.1 e.2) (fun hempty => ?_) (fun w ih e he hcode => ?_) h
  · simp [empty] at hempty
  · rcases eq_of_mem_codes_allot hcode with hbefore | hnew
    · exact ih hbefore
    · exact ⟨e.1, e.2, Std.ExtTreeMap.mem_toList_iff_getElem?_eq_some.mp he, hnew⟩

end World

end StateTransition
