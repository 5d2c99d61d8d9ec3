import StateTransition.Trie.Nibble
import Mathlib.Data.List.Infix

/-! Paths of half-bytes determine what they were made from: bytes and their halves, a packed path
with its two flags, and two paths with the start they share. -/
namespace StateTransition

namespace Nibble

private theorem pair_high_low (b : UInt8) : pair (high b) (low b) = b := by
  have h : b.toNat / 16 * 16 + b.toNat % 16 = b.toNat := by omega
  simp [pair, high, low, h]

private theorem pair_injective {h l h' l' : Nibble} (he : pair h l = pair h' l') : h = h' ∧ l = l' := by
  have hn := congrArg UInt8.toNat he
  have := h.isLt
  have := l.isLt
  have := h'.isLt
  have := l'.isLt
  simp only [pair, UInt8.toNat_ofNat'] at hn
  exact ⟨Fin.ext (by omega), Fin.ext (by omega)⟩

private theorem ofBytes_nil : ofBytes [] = [] := rfl

private theorem ofBytes_cons (b : UInt8) (bs : Bytes) : ofBytes (b :: bs) = high b :: low b :: ofBytes bs := rfl

theorem length_ofBytes (bs : Bytes) : (ofBytes bs).length = 2 * bs.length := by
  induction bs with
  | nil => rfl
  | cons b bs ih =>
    rw [ofBytes_cons, List.length_cons, List.length_cons, List.length_cons, ih]
    omega

/-- No two byte strings have the same halves. -/
theorem ofBytes_injective : Function.Injective ofBytes := by
  intro bs
  induction bs with
  | nil =>
    intro bs' h
    cases bs' with
    | nil => rfl
    | cons b bs' => simp [ofBytes_nil, ofBytes_cons] at h
  | cons b bs ih =>
    intro bs' h
    cases bs' with
    | nil => simp [ofBytes_nil, ofBytes_cons] at h
    | cons b' bs' =>
      simp only [ofBytes_cons, List.cons.injEq] at h
      obtain ⟨hh, hl, hr⟩ := h
      rw [← pair_high_low b, ← pair_high_low b', hh, hl, ih hr]

private theorem pack_injective : ∀ {path path' : List Nibble}, path.length % 2 = 0 →
    path'.length % 2 = 0 → pack path = pack path' → path = path'
  | [], [], _, _, _ => rfl
  | [], [_], _, h, _ => by simp at h
  | [], _ :: _ :: _, _, _, h => by simp [pack] at h
  | [_], _, h, _, _ => by simp at h
  | _ :: _ :: _, [], _, _, h => by simp [pack] at h
  | _ :: _ :: _, [_], _, h, _ => by simp at h
  | a :: b :: path, c :: d :: path', he, he', h => by
    simp only [pack, List.cons.injEq] at h
    obtain ⟨hp, hr⟩ := h
    obtain ⟨rfl, rfl⟩ := pair_injective hp
    simp only [List.length_cons] at he he'
    rw [pack_injective (by omega) (by omega) hr]

private theorem hexPrefix_even {path : List Nibble} (h : path.length % 2 = 0) (leaf : Bool) :
    hexPrefix path leaf = pair (if leaf then 2 else 0) 0 :: pack path := by
  simp [hexPrefix, h]

private theorem hexPrefix_odd {path : List Nibble} (first : Nibble) (h : path.length % 2 = 0) (leaf : Bool) :
    hexPrefix (first :: path) leaf = pair (if leaf then 3 else 1) first :: pack path := by
  have h : (first :: path).length % 2 = 1 := by simp only [List.length_cons]; omega
  simp only [hexPrefix, h]

private theorem even_or_odd (path : List Nibble) :
    path.length % 2 = 0 ∨ ∃ first rest, path = first :: rest ∧ rest.length % 2 = 0 := by
  cases path with
  | nil => exact Or.inl rfl
  | cons first rest =>
    simp only [List.length_cons]
    rcases Nat.mod_two_eq_zero_or_one rest.length with h | h
    · exact Or.inr ⟨first, rest, rfl, h⟩
    · exact Or.inl (by omega)

private theorem length_pack_le : ∀ path : List Nibble, (pack path).length ≤ path.length
  | [] => Nat.le_refl _
  | [_] => Nat.zero_le _
  | h :: l :: rest => by
    have ih := length_pack_le rest
    simp only [pack, List.length_cons]
    omega

theorem length_hexPrefix_le (path : List Nibble) (leaf : Bool) : (hexPrefix path leaf).length ≤ path.length + 1 := by
  rcases even_or_odd path with hp | ⟨first, rest, rfl, hp⟩
  · rw [hexPrefix_even hp]
    exact Nat.succ_le_succ (length_pack_le path)
  · rw [hexPrefix_odd first hp]
    have hrest := length_pack_le rest
    simp only [List.length_cons]
    omega

/-- A packed path tells the path, and whether it ends at a leaf. -/
theorem hexPrefix_injective {path path' : List Nibble} {leaf leaf' : Bool}
    (h : hexPrefix path leaf = hexPrefix path' leaf') : path = path' ∧ leaf = leaf' := by
  rcases even_or_odd path with hp | ⟨first, rest, rfl, hp⟩ <;>
    rcases even_or_odd path' with hp' | ⟨first', rest', rfl, hp'⟩
  · rw [hexPrefix_even hp, hexPrefix_even hp', List.cons.injEq] at h
    have hflag := (pair_injective h.1).1
    exact ⟨pack_injective hp hp' h.2, by cases leaf <;> cases leaf' <;> simp_all⟩
  · rw [hexPrefix_even hp, hexPrefix_odd _ hp', List.cons.injEq] at h
    have hflag := (pair_injective h.1).1
    cases leaf <;> cases leaf' <;> simp at hflag
  · rw [hexPrefix_odd _ hp, hexPrefix_even hp', List.cons.injEq] at h
    have hflag := (pair_injective h.1).1
    cases leaf <;> cases leaf' <;> simp at hflag
  · rw [hexPrefix_odd _ hp, hexPrefix_odd _ hp', List.cons.injEq] at h
    obtain ⟨hflag, hfirst⟩ := pair_injective h.1
    exact ⟨by rw [hfirst, pack_injective hp hp' h.2], by cases leaf <;> cases leaf' <;> simp_all⟩

/-- Two paths continue from the start they share in different directions, unless they are equal. -/
theorem splitCommon_spec : ∀ {xs ys common restX restY : List Nibble},
    splitCommon xs ys = (common, restX, restY) →
      xs = common ++ restX ∧ ys = common ++ restY ∧
        (restX.head? = restY.head? → restX = [] ∧ restY = [])
  | [], ys, _, _, _, h => by
    simp only [splitCommon, Prod.mk.injEq] at h
    obtain ⟨rfl, rfl, rfl⟩ := h
    simp [eq_comm]
  | x :: xs, [], _, _, _, h => by
    simp only [splitCommon, Prod.mk.injEq] at h
    obtain ⟨rfl, rfl, rfl⟩ := h
    simp
  | x :: xs, y :: ys, _, _, _, h => by
    by_cases hxy : x = y
    · subst hxy
      simp only [splitCommon, if_true, Prod.mk.injEq] at h
      obtain ⟨rfl, rfl, rfl⟩ := h
      obtain ⟨hx, hy, hd⟩ := @splitCommon_spec xs ys _ _ _ rfl
      exact ⟨by rw [List.cons_append, ← hx], by rw [List.cons_append, ← hy], hd⟩
    · simp only [splitCommon, hxy, if_false, Prod.mk.injEq] at h
      obtain ⟨rfl, rfl, rfl⟩ := h
      simp [hxy]

/-- A path that begins with another one shares all of it. -/
theorem splitCommon_append (xs rest : List Nibble) : splitCommon xs (xs ++ rest) = (xs, [], rest) := by
  induction xs with
  | nil => cases rest <;> rfl
  | cons x xs ih => simp [splitCommon, ih]

/-- A path that does not begin with another one leaves it at some half-byte. -/
theorem splitCommon_of_not_initial {xs ys : List Nibble} (h : ¬ xs <+: ys) :
    ∃ common x restX restY, splitCommon xs ys = (common, x :: restX, restY) ∧
      xs = common ++ x :: restX ∧ ys = common ++ restY ∧ restY.head? ≠ some x := by
  rcases hs : splitCommon xs ys with ⟨common, restX, restY⟩
  obtain ⟨rfl, rfl, hd⟩ := splitCommon_spec hs
  cases restX with
  | nil => exact absurd (by simp) h
  | cons x restX => exact ⟨common, x, restX, restY, rfl, rfl, rfl, fun he => by simp [he] at hd⟩

end Nibble

end StateTransition
