import StateTransition.Trie.Basic
import StateTransition.Proofs.Trie.Path

/-! What each operation makes of a node, case by case: which of the seventeen places of a branch
are taken, where a new entry goes, and what is left of a branch that lost one. -/
namespace StateTransition

namespace Trie

namespace Node

/-- Whether a place of a branch is taken: that of its own value, or that of a child. -/
def occupied (children : Nibble → Node) (value : Option Bytes) : Option Nibble → Bool
  | none => value.isSome
  | some nibble => !(children nibble).isEmpty

/-- The children of a branch after an entry was added. -/
def entryChildren (children : Nibble → Node) (path : List Nibble) (entry : Bytes) : Nibble → Node :=
  match path with
  | [] => children
  | nibble :: rest => setChild children nibble (leaf rest entry)

/-- The value of a branch after an entry was added. -/
def entryValue (value : Option Bytes) (path : List Nibble) (entry : Bytes) : Option Bytes :=
  match path with
  | [] => some entry
  | _ => value

theorem isEmpty_iff {n : Node} : n.isEmpty = true ↔ n = empty := by cases n <;> simp [isEmpty]

private theorem isEmpty_eq_false_iff {n : Node} : n.isEmpty = false ↔ n ≠ empty := by cases n <;> simp [isEmpty]

theorem occupied_some {children : Nibble → Node} {value : Option Bytes} {i : Nibble} :
    occupied children value (some i) = true ↔ children i ≠ empty := by
  simp [occupied, isEmpty_eq_false_iff]

theorem occupied_some_eq_false {children : Nibble → Node} {value : Option Bytes} {i : Nibble} :
    occupied children value (some i) = false ↔ children i = empty := by simp [occupied, isEmpty_iff]

theorem setChild_self (children : Nibble → Node) (i : Nibble) (child : Node) :
    setChild children i child i = child := by simp [setChild]

theorem setChild_of_ne {i j : Nibble} (h : j ≠ i) (children : Nibble → Node) (child : Node) :
    setChild children i child j = children j := by simp [setChild, h]

theorem addEntry_eq (children : Nibble → Node) (value : Option Bytes) (path : List Nibble)
    (entry : Bytes) : addEntry children value path entry =
      branch (entryChildren children path entry) (entryValue value path entry) := by
  cases path <;> simp [addEntry, entryChildren, entryValue]

/-- An entry takes the place that the first half-byte of its path names, and no other. -/
theorem occupied_entry (children : Nibble → Node) (value : Option Bytes) (path : List Nibble)
    (entry : Bytes) (place : Option Nibble) :
    occupied (entryChildren children path entry) (entryValue value path entry) place =
      (place = path.head? || occupied children value place) := by
  cases path with
  | nil => cases place <;> simp [occupied, entryChildren, entryValue]
  | cons i rest =>
    cases place with
    | none => simp [occupied, entryValue]
    | some j =>
      by_cases h : j = i
      · subst h
        simp [occupied, entryChildren, setChild_self, isEmpty]
      · simp [occupied, entryChildren, setChild_of_ne h, h]

theorem occupied_only_child {i : Nibble} {place : Option Nibble} (h : place ≠ some i) (child : Node) :
    occupied (setChild (fun _ => empty) i child) none place = false := by
  cases place with
  | none => rfl
  | some j => exact occupied_some_eq_false.mpr (setChild_of_ne (fun hj => h (by rw [hj])) _ _)

theorem occupied_nothing (place : Option Nibble) : occupied (fun _ => empty) none place = false := by
  cases place <;> rfl

/-- Two different paths make a branch to which both entries were added, one after the other. -/
theorem fork_eq (common ownRest : List Nibble) (ownValue : Bytes) (rest : List Nibble) (value : Bytes) :
    fork common ownRest ownValue rest value =
      under common (addEntry (entryChildren (fun _ => empty) ownRest ownValue)
        (entryValue none ownRest ownValue) rest value) := by cases ownRest <;> rfl

theorem under_ne_empty {n : Node} (h : n ≠ empty) (path : List Nibble) : under path n ≠ empty := by
  cases path with
  | nil => exact h
  | cons i path => simp [under]

theorem insert_leaf_self (own : List Nibble) (ownValue value : Bytes) :
    (leaf own ownValue).insert own value = leaf own value := by
  have h := Nibble.splitCommon_append own []
  rw [List.append_nil] at h
  simp only [insert, h]

/-- A leaf off the path becomes a branch where the two paths part. -/
theorem insert_leaf_of_ne {own path : List Nibble} (h : own ≠ path) (ownValue value : Bytes) :
    ∃ common ownRest rest, own = common ++ ownRest ∧ path = common ++ rest ∧
      ownRest.head? ≠ rest.head? ∧
      (leaf own ownValue).insert path value = fork common ownRest ownValue rest value := by
  rcases hs : Nibble.splitCommon own path with ⟨common, ownRest, rest⟩
  obtain ⟨rfl, rfl, hd⟩ := Nibble.splitCommon_spec hs
  refine ⟨common, ownRest, rest, rfl, rfl, fun he => ?_, ?_⟩
  · obtain ⟨rfl, rfl⟩ := hd he
    exact h rfl
  · simp only [insert, hs]
    cases ownRest with
    | nil =>
      cases rest with
      | nil => exact absurd rfl h
      | cons i rest => rfl
    | cons i ownRest => rfl

theorem insert_extension_append (own rest : List Nibble) (child : Node) (value : Bytes) :
    (extension own child).insert (own ++ rest) value = extension own (child.insert rest value) := by
  simp only [insert, Nibble.splitCommon_append]

/-- An extension off the path is cut where the two paths part. -/
theorem insert_extension_of_not_initial {own path : List Nibble} (h : ¬ own <+: path) (child : Node)
    (value : Bytes) : ∃ common nibble ownRest rest, own = common ++ nibble :: ownRest ∧
      path = common ++ rest ∧ rest.head? ≠ some nibble ∧
      (extension own child).insert path value =
        under common (addEntry (setChild (fun _ => empty) nibble (under ownRest child)) none rest value) := by
  obtain ⟨common, nibble, ownRest, rest, hs, ho, hp, hd⟩ := Nibble.splitCommon_of_not_initial h
  exact ⟨common, nibble, ownRest, rest, ho, hp, hd, by simp only [insert, hs]⟩

theorem erase_extension_append (own rest : List Nibble) (child : Node) :
    (extension own child).erase (own ++ rest) = merge own (child.erase rest) := by
  simp only [erase, Nibble.splitCommon_append]

theorem erase_extension_of_not_initial {own path : List Nibble} (h : ¬ own <+: path) (child : Node) :
    (extension own child).erase path = extension own child := by
  obtain ⟨common, nibble, ownRest, rest, hs, _⟩ := Nibble.splitCommon_of_not_initial h
  simp only [erase, hs]

private def kept (children : Nibble → Node) : List Nibble :=
  (List.finRange 16).filter fun i => !(children i).isEmpty

private theorem mem_kept {children : Nibble → Node} {i : Nibble} : i ∈ kept children ↔ children i ≠ empty := by
  simp [kept, isEmpty_eq_false_iff]

private theorem kept_nodup (children : Nibble → Node) : (kept children).Nodup :=
  (List.nodup_finRange 16).filter _

/-- A branch with no entry vanishes, one with a single entry hands it on, and any other stays. -/
theorem collapse_cases (children : Nibble → Node) (value : Option Bytes) :
    (value = none ∧ (∀ i, children i = empty) ∧ collapse children value = empty) ∨
    (∃ own, value = some own ∧ (∀ i, children i = empty) ∧ collapse children value = leaf [] own) ∨
    (∃ i, value = none ∧ children i ≠ empty ∧ (∀ j, j ≠ i → children j = empty) ∧
      collapse children value = merge [i] (children i)) ∨
    ((∃ p q, p ≠ q ∧ occupied children value p = true ∧ occupied children value q = true) ∧
      collapse children value = branch children value) := by
  have hk : ∀ i, i ∉ kept children → children i = empty := fun i hi => not_not.mp (mt mem_kept.mpr hi)
  have ho : ∀ i, i ∈ kept children → occupied children value (some i) = true :=
    fun i hi => occupied_some.mpr (mem_kept.mp hi)
  have hn := kept_nodup children
  unfold collapse
  rw [show (List.finRange 16).filter (fun i => !(children i).isEmpty) = kept children from rfl]
  generalize kept children = l at hk ho hn
  match l, value with
  | [], none => exact Or.inl ⟨rfl, fun i => hk i (by simp), rfl⟩
  | [], some own => exact Or.inr (Or.inl ⟨own, rfl, fun i => hk i (by simp), rfl⟩)
  | [i], none =>
    have hi := occupied_some.mp (ho i (by simp))
    exact Or.inr (Or.inr (Or.inl ⟨i, rfl, hi, fun j hj => hk j (by simpa using hj), rfl⟩))
  | [i], some own => exact Or.inr (Or.inr (Or.inr ⟨⟨some i, none, by simp, ho i (by simp), rfl⟩, by simp⟩))
  | i :: j :: l, value =>
    have hij : i ≠ j := fun he => by simp [he] at hn
    exact Or.inr (Or.inr (Or.inr ⟨⟨some i, some j, by simpa using hij, ho i (by simp), ho j (by simp)⟩, by simp⟩))

end Node

end Trie

end StateTransition
