import StateTransition.Proofs.Trie.Lookup
import Mathlib.Data.Fintype.Option
import Mathlib.Data.Finset.Card

/-! The canonical form of a tree. Every operation keeps it, and no two canonical trees hold the
same entries. -/
namespace StateTransition

namespace Trie

namespace Node

def isBranch : Node → Bool
  | branch _ _ => true
  | _ => false

/-- Extensions have a path and stand above branches, branches have at least two entries among their
children and their value, and no value is the empty byte string. -/
def Canonical : Node → Prop
  | empty => True
  | leaf _ value => value ≠ []
  | extension path child => path ≠ [] ∧ child.isBranch = true ∧ child.Canonical
  | branch children value =>
    (∀ nibble, (children nibble).Canonical) ∧ value ≠ some [] ∧
      2 ≤ (Finset.univ.filter fun place => occupied children value place = true).card

private theorem canonical_empty : empty.Canonical := trivial

private theorem canonical_leaf {value : Bytes} (h : value ≠ []) (path : List Nibble) :
    (leaf path value).Canonical := h

private theorem isBranch_iff {n : Node} : n.isBranch = true ↔ ∃ children value, n = branch children value := by
  cases n <;> simp [isBranch]

theorem ne_empty_of_isBranch {n : Node} (h : n.isBranch = true) : n ≠ empty := by
  rintro rfl
  cases h

private theorem canonical_branch_iff {children : Nibble → Node} {value : Option Bytes} :
    (branch children value).Canonical ↔ (∀ i, (children i).Canonical) ∧ value ≠ some [] ∧
      ∃ p q, p ≠ q ∧ occupied children value p = true ∧ occupied children value q = true := by
  have h : 2 ≤ (Finset.univ.filter fun place => occupied children value place = true).card ↔
      ∃ p q, p ≠ q ∧ occupied children value p = true ∧ occupied children value q = true := by
    rw [Nat.succ_le_iff, Finset.one_lt_card_iff]
    simp only [Finset.mem_filter, Finset.mem_univ, true_and]
    exact exists₂_congr fun p q => by tauto
  rw [Canonical, h]

private theorem canonical_setChild {children : Nibble → Node} (h : ∀ j, (children j).Canonical)
    (i : Nibble) {child : Node} (hc : child.Canonical) (j : Nibble) :
    (setChild children i child j).Canonical := by
  by_cases hj : j = i
  · rwa [hj, setChild_self]
  · rw [setChild_of_ne hj]
    exact h j

private theorem canonical_entryChildren {children : Nibble → Node} (h : ∀ j, (children j).Canonical)
    (path : List Nibble) {entry : Bytes} (he : entry ≠ []) (j : Nibble) :
    (entryChildren children path entry j).Canonical := by
  cases path with
  | nil => exact h j
  | cons i rest => exact canonical_setChild h i (canonical_leaf he rest) j

private theorem entryValue_ne {value : Option Bytes} (h : value ≠ some []) (path : List Nibble)
    {entry : Bytes} (he : entry ≠ []) : entryValue value path entry ≠ some [] := by
  cases path with
  | nil => simpa [entryValue] using he
  | cons i rest => exact h

/-- A branch that has an entry is canonical once it has another one. -/
private theorem canonical_addEntry {children : Nibble → Node} {value : Option Bytes} {path : List Nibble}
    {entry : Bytes} (h : ∀ i, (children i).Canonical) (hv : value ≠ some []) (he : entry ≠ [])
    (hfree : occupied children value path.head? = false) (hone : ∃ p, occupied children value p = true) :
    (addEntry children value path entry).Canonical := by
  obtain ⟨p, hp⟩ := hone
  rw [addEntry_eq, canonical_branch_iff]
  refine ⟨canonical_entryChildren h path he, entryValue_ne hv path he, p, path.head?, ?_, ?_, ?_⟩
  · rintro rfl
    rw [hp] at hfree
    cases hfree
  · rw [occupied_entry, hp, Bool.or_true]
  · simp [occupied_entry]

private theorem canonical_under {n : Node} (h : n.Canonical) (hb : n.isBranch = true) (path : List Nibble) :
    (under path n).Canonical := by
  cases path with
  | nil => exact h
  | cons i path => exact ⟨by simp, hb, h⟩

private theorem addEntry_isBranch (children : Nibble → Node) (value : Option Bytes) (path : List Nibble)
    (entry : Bytes) : (addEntry children value path entry).isBranch = true := by
  rw [addEntry_eq]
  rfl

private theorem canonical_fork {ownRest rest : List Nibble} (h : ownRest.head? ≠ rest.head?)
    {ownValue value : Bytes} (ho : ownValue ≠ []) (hv : value ≠ []) (common : List Nibble) :
    (fork common ownRest ownValue rest value).Canonical := by
  rw [fork_eq]
  refine canonical_under (canonical_addEntry ?_ ?_ hv ?_ ?_) (addEntry_isBranch _ _ _ _) common
  · exact canonical_entryChildren (fun _ => canonical_empty) ownRest ho
  · exact entryValue_ne (by simp) ownRest ho
  · rw [occupied_entry, occupied_nothing]
    simpa using h.symm
  · exact ⟨ownRest.head?, by simp [occupied_entry]⟩

private theorem insert_ne_empty (n : Node) (path : List Nibble) (value : Bytes) : n.insert path value ≠ empty := by
  intro h
  have := get?_insert n path value path
  rw [h, get?_empty, if_pos rfl] at this
  cases this

private theorem insert_isBranch {n : Node} (h : n.isBranch = true) (path : List Nibble) (value : Bytes) :
    (n.insert path value).isBranch = true := by
  obtain ⟨children, own, rfl⟩ := isBranch_iff.mp h
  cases path with
  | nil => rfl
  | cons i rest => simp [insert, isBranch]

private theorem occupied_setValue {children : Nibble → Node} {own : Option Bytes} {value : Bytes}
    {place : Option Nibble} (h : occupied children own place = true) :
    occupied children (some value) place = true := by
  cases place with
  | none => rfl
  | some i => exact h

/-- A place that was taken before stays so when a child is replaced by a tree with entries. -/
private theorem occupied_setChild {children : Nibble → Node} {value : Option Bytes} {i : Nibble}
    {child : Node} (hc : child ≠ empty) {place : Option Nibble} (h : occupied children value place = true) :
    occupied (setChild children i child) value place = true := by
  cases place with
  | none => exact h
  | some j =>
    rw [occupied_some] at h ⊢
    by_cases hj : j = i
    · rwa [hj, setChild_self]
    · rwa [setChild_of_ne hj]

theorem canonical_insert {n : Node} (h : n.Canonical) (path : List Nibble) {value : Bytes}
    (hv : value ≠ []) : (n.insert path value).Canonical := by
  induction n generalizing path with
  | empty => exact hv
  | leaf own ownValue =>
    by_cases hp : own = path
    · subst hp
      rw [insert_leaf_self]
      exact hv
    · obtain ⟨common, ownRest, rest, rfl, rfl, hd, he⟩ := insert_leaf_of_ne hp ownValue value
      rw [he]
      exact canonical_fork hd h hv common
  | extension own child ih =>
    obtain ⟨ho, hb, hc⟩ := h
    by_cases hp : own <+: path
    · obtain ⟨rest, rfl⟩ := hp
      rw [insert_extension_append]
      exact ⟨ho, insert_isBranch hb rest value, ih hc rest⟩
    · obtain ⟨common, i, ownRest, rest, rfl, rfl, hd, he⟩ := insert_extension_of_not_initial hp child value
      rw [he]
      have hbelow : (under ownRest child).Canonical := canonical_under hc hb ownRest
      refine canonical_under (canonical_addEntry ?_ (by simp) hv ?_ ?_) (addEntry_isBranch _ _ _ _) common
      · exact canonical_setChild (fun _ => canonical_empty) i hbelow
      · exact occupied_only_child hd _
      · refine ⟨some i, occupied_some.mpr ?_⟩
        rw [setChild_self]
        exact under_ne_empty (ne_empty_of_isBranch hb) ownRest
  | branch children own ih =>
    obtain ⟨hc, ho, p, q, hpq, hp, hq⟩ := canonical_branch_iff.mp h
    cases path with
    | nil =>
      simp only [insert]
      exact canonical_branch_iff.mpr ⟨hc, by simpa using hv, p, q, hpq,
        occupied_setValue hp, occupied_setValue hq⟩
    | cons i rest =>
      have hne := insert_ne_empty (children i) rest value
      simp only [insert, tabulated_eq_branch]
      exact canonical_branch_iff.mpr ⟨canonical_setChild hc i (ih i (hc i) rest), ho, p, q, hpq,
        occupied_setChild hne hp, occupied_setChild hne hq⟩

private theorem canonical_merge {path : List Nibble} (hp : path ≠ []) {n : Node} (h : n.Canonical) :
    (merge path n).Canonical := by
  cases n with
  | empty => exact canonical_empty
  | leaf own value => exact canonical_leaf h _
  | extension own child => exact ⟨by simp [hp], h.2⟩
  | branch children value => exact ⟨hp, rfl, h⟩

private theorem canonical_collapse {children : Nibble → Node} {value : Option Bytes}
    (h : ∀ i, (children i).Canonical) (hv : value ≠ some []) : (collapse children value).Canonical := by
  rcases collapse_cases children value with ⟨_, _, he⟩ | ⟨own, rfl, _, he⟩ | ⟨i, _, _, _, he⟩ | ⟨ht, he⟩
  · rw [he]
    exact canonical_empty
  · rw [he]
    exact canonical_leaf (by simpa using hv) []
  · rw [he]
    exact canonical_merge (by simp) (h i)
  · rw [he]
    exact canonical_branch_iff.mpr ⟨h, hv, ht⟩

theorem canonical_erase {n : Node} (h : n.Canonical) (path : List Nibble) : (n.erase path).Canonical := by
  induction n generalizing path with
  | empty => exact canonical_empty
  | leaf own value =>
    rw [erase]
    split
    · exact canonical_empty
    · exact h
  | extension own child ih =>
    by_cases hp : own <+: path
    · obtain ⟨rest, rfl⟩ := hp
      rw [erase_extension_append]
      exact canonical_merge h.1 (ih h.2.2 rest)
    · rw [erase_extension_of_not_initial hp]
      exact h
  | branch children value ih =>
    obtain ⟨hc, hv, _⟩ := h
    cases path with
    | nil => exact canonical_collapse hc (by simp)
    | cons i rest => exact canonical_collapse (canonical_setChild hc i (ih i (hc i) rest)) hv

/-- A canonical tree that is not empty holds something. -/
theorem exists_entry {n : Node} (h : n.Canonical) (hn : n ≠ empty) : ∃ q value, n.get? q = some value := by
  induction n with
  | empty => exact absurd rfl hn
  | leaf own value => exact ⟨own, value, by simp [get?_leaf]⟩
  | extension own child ih =>
    obtain ⟨q, value, hq⟩ := ih h.2.2 (ne_empty_of_isBranch h.2.1)
    exact ⟨own ++ q, value, by rw [get?_extension_append, hq]⟩
  | branch children value ih =>
    obtain ⟨hc, _, p, _, _, hp, _⟩ := canonical_branch_iff.mp h
    cases p with
    | none =>
      obtain ⟨own, rfl⟩ := Option.isSome_iff_exists.mp hp
      exact ⟨[], own, rfl⟩
    | some i =>
      obtain ⟨q, value, hq⟩ := ih i (hc i) (occupied_some.mp hp)
      exact ⟨i :: q, value, hq⟩

/-- A place that is taken leads to an entry. -/
private theorem exists_entry_at {children : Nibble → Node} {value : Option Bytes} (h : ∀ i, (children i).Canonical)
    {place : Option Nibble} (hp : occupied children value place = true) :
    ∃ q entry, (branch children value).get? q = some entry ∧ q.head? = place := by
  cases place with
  | none =>
    obtain ⟨own, rfl⟩ := Option.isSome_iff_exists.mp hp
    exact ⟨[], own, rfl, rfl⟩
  | some i =>
    obtain ⟨q, entry, hq⟩ := exists_entry (h i) (occupied_some.mp hp)
    exact ⟨i :: q, entry, hq, rfl⟩

/-- Whatever place of a branch is left out, it holds an entry at another one. -/
private theorem exists_entry_elsewhere {n : Node} (h : n.Canonical) (hb : n.isBranch = true) (place : Option Nibble) :
    ∃ q entry, n.get? q = some entry ∧ q.head? ≠ place := by
  obtain ⟨children, value, rfl⟩ := isBranch_iff.mp hb
  obtain ⟨hc, _, p, p', hne, hp, hp'⟩ := canonical_branch_iff.mp h
  by_cases hplace : p = place
  · obtain ⟨q, entry, hq, hh⟩ := exists_entry_at hc hp'
    exact ⟨q, entry, hq, by rw [hh, ← hplace]; exact hne.symm⟩
  · obtain ⟨q, entry, hq, hh⟩ := exists_entry_at hc hp
    exact ⟨q, entry, hq, by rwa [hh]⟩

/-- A path that all entries of an extension begin with is no longer than its own. -/
private theorem prefix_of_entries {own path : List Nibble} {child : Node} (h : (extension own child).Canonical)
    (hall : ∀ q entry, (extension own child).get? q = some entry → path <+: q) : path <+: own := by
  obtain ⟨_, hb, hc⟩ := h
  -- entries of the child begin in at least two ways, so none of them is common to all
  obtain ⟨q, entry, hq, _⟩ := exists_entry_elsewhere hc hb none
  have hpq := hall (own ++ q) entry (by rw [get?_extension_append, hq])
  rcases List.prefix_or_prefix_of_prefix hpq (List.prefix_append own q) with hp | hp
  · exact hp
  · obtain ⟨rest, rfl⟩ := hp
    cases rest with
    | nil => simp
    | cons i rest =>
      obtain ⟨q', entry', hq', hi⟩ := exists_entry_elsewhere hc hb (some i)
      have hp' := hall (own ++ q') entry' (by rw [get?_extension_append, hq'])
      rw [List.prefix_append_right_inj] at hp'
      obtain ⟨below, rfl⟩ := hp'
      exact absurd rfl hi

private theorem eq_empty_of_get? {n : Node} (h : n.Canonical) (hn : ∀ q, n.get? q = none) : n = empty := by
  by_contra hne
  obtain ⟨q, entry, hq⟩ := exists_entry h hne
  rw [hn q] at hq
  cases hq

/-- Below a branch there are two entries, so a leaf holds less. -/
private theorem leaf_ne_of_branching (own : List Nibble) (value : Bytes) (path : List Nibble) {n : Node}
    (h : n.Canonical) (hb : n.isBranch = true) (he : ∀ q, (leaf own value).get? (path ++ q) = n.get? q) : False := by
  obtain ⟨q, entry, hq, _⟩ := exists_entry_elsewhere h hb none
  obtain ⟨q', entry', hq', hne⟩ := exists_entry_elsewhere h hb q.head?
  have hs : ∀ q entry, n.get? q = some entry → path ++ q = own := by
    intro q entry hq
    rw [← he q, get?_leaf] at hq
    by_contra hn
    rw [if_neg hn] at hq
    cases hq
  have hqq : q' = q := List.append_cancel_left ((hs q' entry' hq').trans (hs q entry hq).symm)
  exact hne (by rw [hqq])

private theorem extension_ne_branch {own : List Nibble} {child : Node} {children : Nibble → Node}
    {value : Option Bytes} (h : (extension own child).Canonical) (h' : (branch children value).Canonical)
    (he : ∀ q, (extension own child).get? q = (branch children value).get? q) : False := by
  cases own with
  | nil => exact h.1 rfl
  | cons i own =>
    obtain ⟨q, entry, hq, hi⟩ := exists_entry_elsewhere h' rfl (some i)
    have hp : ¬ (i :: own) <+: q := by
      rintro ⟨rest, rfl⟩
      exact hi rfl
    rw [← he q, get?_extension_of_not_initial hp] at hq
    cases hq

/-- A canonical tree is determined by the entries that it holds. -/
theorem eq_of_get?_eq {n m : Node} (hn : n.Canonical) (hm : m.Canonical) (h : ∀ q, n.get? q = m.get? q) :
    n = m := by
  induction n generalizing m with
  | empty => exact (eq_empty_of_get? hm (fun q => (h q).symm)).symm
  | leaf own value =>
    cases m with
    | empty => exact eq_empty_of_get? hn h
    | leaf own' value' =>
      have hown := h own
      rw [get?_leaf, if_pos rfl, get?_leaf] at hown
      split at hown
      · next he => rw [he, Option.some.inj hown]
      · cases hown
    | extension own' child =>
      refine (leaf_ne_of_branching own value own' hm.2.2 hm.2.1 fun q => ?_).elim
      rw [h, get?_extension_append]
    | branch children value' => exact (leaf_ne_of_branching own value [] hm rfl h).elim
  | extension own child ih =>
    cases m with
    | empty => exact eq_empty_of_get? hn h
    | leaf own' value =>
      refine (leaf_ne_of_branching own' value own hn.2.2 hn.2.1 fun q => ?_).elim
      rw [← h, get?_extension_append]
    | extension own' child' =>
      have hp : own' <+: own := prefix_of_entries hn fun q entry hq => by
        by_contra hne
        rw [h q, get?_extension_of_not_initial hne] at hq
        cases hq
      have hp' : own <+: own' := prefix_of_entries hm fun q entry hq => by
        by_contra hne
        rw [← h q, get?_extension_of_not_initial hne] at hq
        cases hq
      obtain rfl : own' = own := hp.eq_of_length_le hp'.length_le
      have hc : child = child' := ih hn.2.2 hm.2.2 fun q => by
        have hq := h (own' ++ q)
        rwa [get?_extension_append, get?_extension_append] at hq
      rw [hc]
    | branch children value => exact (extension_ne_branch hn hm h).elim
  | branch children value ih =>
    cases m with
    | empty => exact eq_empty_of_get? hn h
    | leaf own value' => exact (leaf_ne_of_branching own value' [] hn rfl fun q => (h q).symm).elim
    | extension own child => exact (extension_ne_branch hm hn fun q => (h q).symm).elim
    | branch children' value' =>
      have hv : value = value' := h []
      have hc : children = children' := by
        funext i
        exact ih i (hn.1 i) (hm.1 i) fun q => h (i :: q)
      rw [hv, hc]

end Node

end Trie

end StateTransition
