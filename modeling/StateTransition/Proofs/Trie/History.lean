import StateTransition.Proofs.Trie.Canonical
import Std.Data.ExtTreeMap

/-! Hash trees as finite maps. After any edits a tree answers as a plain map does after the same
edits, and its shape is a function of that map alone. -/
namespace StateTransition

namespace Trie

abbrev Entries := Std.ExtTreeMap Bytes Bytes

inductive Edit where
  | insert (key value : Bytes)
  | erase (key : Bytes)

def Edit.apply (t : Trie) : Edit → Trie
  | insert key value => t.insert key value
  | erase key => t.erase key

/-- A plain map after one change; the empty value removes the key. -/
def Edit.applyPlain (m : Entries) : Edit → Entries
  | insert key value => if value.isEmpty then m.erase key else m.insert key value
  | erase key => m.erase key

def ofEdits (edits : List Edit) : Trie := edits.foldl Edit.apply empty

def entriesOf (edits : List Edit) : Entries := edits.foldl Edit.applyPlain ∅

private theorem get?_erase (t : Trie) (key q : Bytes) :
    (t.erase key).get? q = if q = key then none else t.get? q := by
  rw [get?, erase, Node.get?_erase]
  simp only [Nibble.ofBytes_injective.eq_iff]
  rfl

theorem get?_insert (t : Trie) (key : Bytes) {value : Bytes} (h : value ≠ []) (q : Bytes) :
    (t.insert key value).get? q = if q = key then some value else t.get? q := by
  have h : value.isEmpty = false := by simpa using h
  simp only [get?, insert, h, Bool.false_eq_true, if_false, Node.get?_insert,
    Nibble.ofBytes_injective.eq_iff]

/-- A tree in canonical form whose entries are those of a plain map. -/
structure Represents (t : Trie) (m : Entries) : Prop where
  canonical : t.root.Canonical
  get?_eq : ∀ key, t.get? key = m[key]?
  /-- Paths that are no key lead nowhere. -/
  whole : ∀ path value, t.root.get? path = some value → ∃ key, path = Nibble.ofBytes key

namespace Represents

variable {t t' : Trie} {m : Entries}

private theorem empty : Represents Trie.empty ∅ where
  canonical := trivial
  get?_eq key := by simp [Trie.empty, get?, Node.get?_empty]
  whole path value h := by cases h

private theorem erase (h : Represents t m) (key : Bytes) : Represents (t.erase key) (m.erase key) where
  canonical := Node.canonical_erase h.canonical _
  get?_eq q := by
    rw [get?_erase, h.get?_eq, Std.ExtTreeMap.getElem?_erase]
    simp only [Std.compare_eq_iff_eq, eq_comm (a := key)]
  whole path value hp := by
    rw [Trie.erase, Node.get?_erase] at hp
    split at hp
    · cases hp
    · exact h.whole path value hp

private theorem insert (h : Represents t m) (key : Bytes) {value : Bytes} (hv : value ≠ []) :
    Represents (t.insert key value) (m.insert key value) where
  canonical := by
    have he : value.isEmpty = false := by simpa using hv
    simp only [Trie.insert, he]
    exact Node.canonical_insert h.canonical _ hv
  get?_eq q := by
    rw [get?_insert t key hv, h.get?_eq, Std.ExtTreeMap.getElem?_insert]
    simp only [Std.compare_eq_iff_eq, eq_comm (a := key)]
  whole path entry hp := by
    have he : value.isEmpty = false := by simpa using hv
    simp only [Trie.insert, he, Bool.false_eq_true, if_false, Node.get?_insert] at hp
    split at hp
    · next hk => exact ⟨key, hk⟩
    · exact h.whole path entry hp

private theorem apply (h : Represents t m) (e : Edit) : Represents (e.apply t) (e.applyPlain m) := by
  cases e with
  | erase key => exact h.erase key
  | insert key value =>
    cases value with
    | nil => exact h.erase key
    | cons b value => exact h.insert key (by simp)

private theorem foldl (h : Represents t m) (edits : List Edit) :
    Represents (edits.foldl Edit.apply t) (edits.foldl Edit.applyPlain m) := by
  induction edits generalizing t m with
  | nil => exact h
  | cons e edits ih => exact ih (h.apply e)

/-- A plain map is represented by one tree only. -/
theorem root_eq (h : Represents t m) (h' : Represents t' m) : t.root = t'.root := by
  have hget : ∀ key, t.get? key = t'.get? key := fun key => (h.get?_eq key).trans (h'.get?_eq key).symm
  apply Node.eq_of_get?_eq h.canonical h'.canonical
  intro path
  by_cases hk : ∃ key, path = Nibble.ofBytes key
  · obtain ⟨key, rfl⟩ := hk
    exact hget key
  · have hn : ∀ {u : Trie}, Represents u m → u.root.get? path = none := by
      intro u hu
      by_contra hne
      obtain ⟨value, hv⟩ := Option.ne_none_iff_exists'.mp hne
      exact hk (hu.whole path value hv)
    rw [hn h, hn h']

private theorem isEmpty_iff (h : Represents t m) : t.isEmpty = true ↔ m = ∅ := by
  rw [isEmpty, Node.isEmpty_iff]
  constructor
  · intro ht
    apply Std.ExtTreeMap.ext_getElem?
    intro key
    rw [← h.get?_eq, get?, ht, Node.get?_empty, Std.ExtTreeMap.getElem?_empty]
  · rintro rfl
    exact h.root_eq empty

end Represents

theorem represents_ofEdits (edits : List Edit) : Represents (ofEdits edits) (entriesOf edits) :=
  Represents.empty.foldl edits

/-- After any edits a hash tree gives for every key what a plain map gives after the same edits, and
it is empty exactly if the plain map is. -/
theorem get?_ofEdits (edits : List Edit) :
    (∀ key, (ofEdits edits).get? key = (entriesOf edits)[key]?) ∧
      ((ofEdits edits).isEmpty = true ↔ entriesOf edits = ∅) :=
  ⟨(represents_ofEdits edits).get?_eq, (represents_ofEdits edits).isEmpty_iff⟩

/-- Every run of edits leaves a canonical tree, and runs that leave the same plain map leave the same
tree, so the same digest. -/
theorem root_eq_of_entries_eq :
    (∀ edits, (ofEdits edits).root.Canonical) ∧
      ∀ edits edits', entriesOf edits = entriesOf edits' →
        (ofEdits edits).root = (ofEdits edits').root ∧
          (ofEdits edits).rootHash = (ofEdits edits').rootHash := by
  refine ⟨fun edits => (represents_ofEdits edits).canonical, fun edits edits' h => ?_⟩
  have hr : (ofEdits edits).root = (ofEdits edits').root :=
    (represents_ofEdits edits).root_eq (h ▸ represents_ofEdits edits')
  exact ⟨hr, by rw [rootHash, hr, rootHash]⟩

/-- Keys that begin one another, entered in two orders, one of them by way of a key that is removed
again. -/
theorem root_eq_of_two_orders :
    let edits := [Edit.insert [] [1], .insert [0x12] [2], .insert [0x12, 0x34] [3], .insert [0x12] []]
    let edits' := [Edit.insert [0x12, 0x34] [3], .insert [] [1]]
    entriesOf edits = entriesOf edits' ∧ (ofEdits edits).root = (ofEdits edits').root := by
  intro edits edits'
  have h : entriesOf edits = entriesOf edits' := by
    apply Std.ExtTreeMap.ext_getElem?
    intro key
    change ((((∅ : Entries).insert [] [1]).insert [0x12] [2] |>.insert [0x12, 0x34] [3]).erase [0x12])[key]? =
      (((∅ : Entries).insert [0x12, 0x34] [3]).insert [] [1])[key]?
    simp only [Std.ExtTreeMap.getElem?_insert, Std.ExtTreeMap.getElem?_erase, Std.compare_eq_iff_eq]
    by_cases hk : [0x12] = key
    · subst hk
      simp
    · by_cases hk' : [] = key
      · subst hk'
        simp
      · simp [hk, hk']
  exact ⟨h, (root_eq_of_entries_eq.2 edits edits' h).1⟩

end Trie

end StateTransition
