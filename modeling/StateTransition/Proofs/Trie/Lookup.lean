import StateTransition.Proofs.Trie.Operations

/-! Reading after every change of a tree. A change at a path is seen at that path and nowhere else,
in trees of any shape. -/
namespace StateTransition

namespace Trie

namespace Node

theorem get?_empty (q : List Nibble) : empty.get? q = none := rfl

theorem get?_leaf (own : List Nibble) (value : Bytes) (q : List Nibble) :
    (leaf own value).get? q = if q = own then some value else none := by simp [get?, eq_comm]

theorem get?_branch_cons (children : Nibble → Node) (value : Option Bytes) (i : Nibble) (q : List Nibble) :
    (branch children value).get? (i :: q) = (children i).get? q := rfl

theorem get?_extension_append (own rest : List Nibble) (child : Node) :
    (extension own child).get? (own ++ rest) = child.get? rest := by
  simp only [get?, Nibble.splitCommon_append]

theorem get?_extension_of_not_initial {own q : List Nibble} (h : ¬ own <+: q) (child : Node) :
    (extension own child).get? q = none := by
  obtain ⟨common, i, ownRest, rest, hs, _⟩ := Nibble.splitCommon_of_not_initial h
  simp only [get?, hs]

private theorem get?_under_append (path rest : List Nibble) (n : Node) :
    (under path n).get? (path ++ rest) = n.get? rest := by
  cases path with
  | nil => rfl
  | cons i path => exact get?_extension_append _ _ _

private theorem get?_under_of_not_initial {path q : List Nibble} (h : ¬ path <+: q) (n : Node) :
    (under path n).get? q = none := by
  cases path with
  | nil => exact absurd (List.nil_prefix) h
  | cons i path => exact get?_extension_of_not_initial h _

/-- A tree below a path is told by what it holds there, and by holding nothing elsewhere. -/
private theorem get?_under_eq {path : List Nibble} {n : Node} {f : List Nibble → Option Bytes}
    (h : ∀ q, n.get? q = f (path ++ q)) (hn : ∀ q, ¬ path <+: q → f q = none) (q : List Nibble) :
    (under path n).get? q = f q := by
  by_cases hq : path <+: q
  · obtain ⟨rest, rfl⟩ := hq
    rw [get?_under_append, h]
  · rw [get?_under_of_not_initial hq, hn q hq]

/-- An extension of the empty path too holds what its child holds. -/
private theorem get?_extension (path : List Nibble) (child : Node) (q : List Nibble) :
    (extension path child).get? q = (under path child).get? q := by
  cases path with
  | nil => exact get?_extension_append [] q child
  | cons i path => rfl

private theorem get?_under_drop (common rest : List Nibble) (n : Node) (q : List Nibble) :
    (under (common ++ rest) n).get? (common ++ q) = (under rest n).get? q := by
  symm
  apply get?_under_eq
  · intro q
    rw [← List.append_assoc, get?_under_append]
  · intro q hq
    rw [get?_under_of_not_initial]
    rwa [List.prefix_append_right_inj]

private theorem get?_under_under (path rest : List Nibble) (n : Node) (q : List Nibble) :
    (under path (under rest n)).get? q = (under (path ++ rest) n).get? q := by
  apply get?_under_eq
  · exact fun q => (get?_under_drop path rest n q).symm
  · exact fun q hq => get?_under_of_not_initial (fun h => hq ((List.prefix_append _ _).trans h)) n

/-- Joining paths keeps what is below them. -/
private theorem get?_merge (path : List Nibble) (n : Node) (q : List Nibble) :
    (merge path n).get? q = (under path n).get? q := by
  cases n with
  | empty =>
    symm
    exact get?_under_eq (fun q => rfl) (fun q _ => rfl) q
  | leaf own value =>
    symm
    apply get?_under_eq
    · intro q
      simp [merge, get?_leaf]
    · intro q hq
      rw [merge, get?_leaf, if_neg]
      rintro rfl
      exact hq (List.prefix_append _ _)
  | extension own child =>
    rw [merge, get?_extension, ← get?_under_under]
    apply get?_under_eq
    · intro q
      rw [get?_under_append, get?_extension]
    · exact fun q hq => get?_under_of_not_initial hq _
  | branch children value => rw [merge, get?_extension]

/-- An entry that takes a free place of a branch is seen at its path. -/
private theorem get?_addEntry {children : Nibble → Node} {value : Option Bytes} {path : List Nibble}
    (h : occupied children value path.head? = false) (entry : Bytes) (q : List Nibble) :
    (addEntry children value path entry).get? q =
      if q = path then some entry else (branch children value).get? q := by
  rw [addEntry_eq]
  cases path with
  | nil => cases q <;> simp [entryChildren, entryValue, get?]
  | cons i rest =>
    cases q with
    | nil => simp [entryValue, get?]
    | cons j q =>
      simp only [entryChildren, get?_branch_cons, List.cons.injEq]
      by_cases hj : j = i
      · subst hj
        rw [setChild_self, get?_leaf, occupied_some_eq_false.mp h, get?_empty]
        simp
      · simp [setChild_of_ne hj, hj]

private theorem get?_nothing (q : List Nibble) : (branch (fun _ => empty) none).get? q = none := by cases q <;> rfl

/-- Two entries whose paths part are both seen, and nothing else. -/
private theorem get?_fork {ownRest rest : List Nibble} (h : ownRest.head? ≠ rest.head?) (common : List Nibble)
    (ownValue value : Bytes) (q : List Nibble) :
    (fork common ownRest ownValue rest value).get? q =
      if q = common ++ rest then some value
      else if q = common ++ ownRest then some ownValue else none := by
  rw [fork_eq]
  have hfree : occupied (entryChildren (fun _ => empty) ownRest ownValue)
      (entryValue none ownRest ownValue) rest.head? = false := by
    rw [occupied_entry, occupied_nothing]
    simpa using h.symm
  apply get?_under_eq
  · intro q
    rw [get?_addEntry hfree, ← addEntry_eq, get?_addEntry (occupied_nothing _), get?_nothing]
    simp
  · intro q hq
    have hne : ∀ rest, q ≠ common ++ rest := by
      rintro rest rfl
      exact hq (List.prefix_append _ _)
    simp [hne]

/-- A branch with a single child holds what the child holds. -/
private theorem get?_only_child {children : Nibble → Node} {i : Nibble} (h : ∀ j, j ≠ i → children j = empty)
    (q : List Nibble) : (branch children none).get? q = (under [i] (children i)).get? q := by
  symm
  apply get?_under_eq (fun q => rfl)
  intro q hq
  cases q with
  | nil => rfl
  | cons j q =>
    have hj : j ≠ i := fun hj => hq (by simp [hj])
    rw [get?_branch_cons, h j hj, get?_empty]

/-- Setting the value of a path is seen at that path only. -/
theorem get?_insert (n : Node) (path : List Nibble) (value : Bytes) (q : List Nibble) :
    (n.insert path value).get? q = if q = path then some value else n.get? q := by
  induction n generalizing path q with
  | empty => rw [insert, get?_leaf, get?_empty]
  | leaf own ownValue =>
    by_cases h : own = path
    · subst h
      rw [insert_leaf_self, get?_leaf, get?_leaf]
      split <;> rfl
    · obtain ⟨common, ownRest, rest, rfl, rfl, hd, he⟩ := insert_leaf_of_ne h ownValue value
      rw [he, get?_fork hd, get?_leaf]
  | extension own child ih =>
    by_cases h : own <+: path
    · obtain ⟨rest, rfl⟩ := h
      rw [insert_extension_append]
      by_cases hq : own <+: q
      · obtain ⟨q, rfl⟩ := hq
        rw [get?_extension_append, get?_extension_append, ih]
        simp
      · have hne : q ≠ own ++ rest := by
          rintro rfl
          exact hq (List.prefix_append _ _)
        rw [get?_extension_of_not_initial hq, get?_extension_of_not_initial hq, if_neg hne]
    · obtain ⟨common, i, ownRest, rest, rfl, rfl, hd, he⟩ := insert_extension_of_not_initial h child value
      rw [he]
      apply get?_under_eq
      · intro q
        rw [get?_addEntry (occupied_only_child hd _), get?_only_child (fun j hj => setChild_of_ne hj _ _),
          setChild_self, get?_under_under, get?_extension, get?_under_drop]
        simp
      · intro q hq
        have hne : q ≠ common ++ rest := by
          rintro rfl
          exact hq (List.prefix_append _ _)
        rw [if_neg hne, get?_extension_of_not_initial]
        exact fun h => hq ((List.prefix_append _ _).trans h)
  | branch children own ih =>
    cases path with
    | nil => cases q <;> simp [insert, get?]
    | cons i rest =>
      cases q with
      | nil => simp [insert, get?]
      | cons j q =>
        simp only [insert, tabulated_eq_branch, get?_branch_cons, List.cons.injEq]
        by_cases hj : j = i
        · subst hj
          simp [setChild_self, ih]
        · simp [setChild_of_ne hj, hj]

/-- A branch with too few entries hands on what it held. -/
private theorem get?_collapse (children : Nibble → Node) (value : Option Bytes) (q : List Nibble) :
    (collapse children value).get? q = (branch children value).get? q := by
  rcases collapse_cases children value with ⟨rfl, h, he⟩ | ⟨own, rfl, h, he⟩ | ⟨i, rfl, _, h, he⟩ | ⟨_, he⟩
  · rw [he]
    cases q with
    | nil => rfl
    | cons i q =>
      rw [get?_branch_cons, h]
      rfl
  · rw [he, get?_leaf]
    cases q with
    | nil => rfl
    | cons i q => simp [get?_branch_cons, h, get?_empty]
  · rw [he, get?_merge, get?_only_child h]
  · rw [he]

/-- Removing the entry of a path is seen at that path only. -/
theorem get?_erase (n : Node) (path q : List Nibble) :
    (n.erase path).get? q = if q = path then none else n.get? q := by
  induction n generalizing path q with
  | empty => simp [erase, get?_empty]
  | leaf own value =>
    rw [erase]
    by_cases h : own = path
    · subst h
      simp [get?_empty, get?_leaf]
    · by_cases hq : q = path
      · subst hq
        simp [h, get?_leaf, Ne.symm h]
      · simp [h, hq]
  | extension own child ih =>
    by_cases h : own <+: path
    · obtain ⟨rest, rfl⟩ := h
      rw [erase_extension_append, get?_merge]
      apply get?_under_eq
      · intro q
        rw [ih, get?_extension_append]
        simp
      · intro q hq
        rw [get?_extension_of_not_initial hq, ite_self]
    · rw [erase_extension_of_not_initial h]
      split
      · next hq => rw [hq, get?_extension_of_not_initial h]
      · rfl
  | branch children value ih =>
    cases path with
    | nil =>
      rw [erase, get?_collapse]
      cases q <;> simp [get?]
    | cons i rest =>
      rw [erase, get?_collapse]
      cases q with
      | nil => simp [get?]
      | cons j q =>
        simp only [get?_branch_cons, List.cons.injEq]
        by_cases hj : j = i
        · subst hj
          simp [setChild_self, ih]
        · simp [setChild_of_ne hj, hj]

end Node

end Trie

end StateTransition
