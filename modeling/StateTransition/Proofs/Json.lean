import StateTransition.Json.Basic
import StateTransition.Json.Record

/-! Strings of a document: what stands between quotes, with the characters escaped that cannot stand there,
is read back as it was. -/
namespace StateTransition

namespace Json

namespace Reader

variable {α : Type} {c : Char}

private theorem peek_cons (c : Char) (rest : List Char) (offset : Nat) :
    peek ⟨c :: rest, offset⟩ = .ok (some c) ⟨c :: rest, offset⟩ := rfl

private theorem advance_cons (c : Char) (rest : List Char) (offset : Nat) :
    advance ⟨c :: rest, offset⟩ = .ok () ⟨rest, offset + c.utf8Size⟩ := by
  have hsize : byteCount [c] = c.utf8Size := Nat.zero_add _
  change EStateM.Result.ok () (Cursor.mk rest (offset + byteCount [c])) = _
  rw [hsize]

/-! ### Control characters -/

private theorem hexValue?_digitChar (n : Nat) : hexValue? (Nat.digitChar (n % 16)) = some (n % 16) := by
  have h : ∀ m : Fin 16, hexValue? (Nat.digitChar m) = some m.val := by decide
  exact h ⟨n % 16, Nat.mod_lt n (by decide)⟩

private theorem utf8Size_digitChar (n : Nat) : (Nat.digitChar (n % 16)).utf8Size = 1 := by
  have h : ∀ m : Fin 16, (Nat.digitChar m).utf8Size = 1 := by decide
  exact h ⟨n % 16, Nat.mod_lt n (by decide)⟩

private theorem codeUnit_unitDigits {n : Nat} (hn : n < 65536) (rest : List Char) (offset : Nat) :
    codeUnit ⟨unitDigits n ++ rest, offset⟩ = .ok n ⟨rest, offset + 4⟩ := by
  have hsize : byteCount (unitDigits n) = 4 := by simp [byteCount, unitDigits, utf8Size_digitChar]
  have hvalues : (unitDigits n).mapM hexValue? = some [n / 4096 % 16, n / 256 % 16, n / 16 % 16, n % 16] := by
    simp [unitDigits, hexValue?_digitChar]
  have htake : (unitDigits n ++ rest).take 4 = unitDigits n := rfl
  have hdrop : (unitDigits n ++ rest).drop 4 = rest := rfl
  simp only [codeUnit, Cursor.drop, htake, hdrop, hsize, hvalues]
  simp
  omega

private theorem codePoint_unitDigits (hc : c.toNat < 32) (rest : List Char) (offset : Nat) :
    codePoint ⟨unitDigits c.toNat ++ rest, offset⟩ = .ok c ⟨rest, offset + 4⟩ := by
  have hlow : c.toNat < 0xd800 ∨ 0xdfff < c.toNat := by omega
  simp only [codePoint, bind, EStateM.bind, codeUnit_unitDigits (show c.toNat < 65536 by omega)]
  rw [if_pos hlow, Char.ofNat_toNat]
  rfl

/-! ### Strings -/

/-- One turn of the loop reads one character as it is written in a string. -/
private theorem stringOnto_escape (fuel : Nat) (acc : List Char) (c : Char) (rest : List Char) (offset : Nat) :
    ∃ offset', stringOnto (fuel + 1) acc ⟨Json.escape c ++ rest, offset⟩ =
      stringOnto fuel (c :: acc) ⟨rest, offset'⟩ := by
  unfold Json.escape
  split
  · exact ⟨_, rfl⟩
  · exact ⟨_, rfl⟩
  · exact ⟨_, rfl⟩
  · exact ⟨_, rfl⟩
  · exact ⟨_, rfl⟩
  split
  · next hbackspace =>
    obtain rfl : c = Char.ofNat 8 := by rw [← hbackspace, Char.ofNat_toNat]
    exact ⟨_, rfl⟩
  split
  · next hformFeed =>
    obtain rfl : c = Char.ofNat 12 := by rw [← hformFeed, Char.ofNat_toNat]
    exact ⟨_, rfl⟩
  split
  · next hcontrol =>
    refine ⟨offset + '\\'.utf8Size + 'u'.utf8Size + 4, ?_⟩
    rw [stringOnto]
    simp only [bind, EStateM.bind, List.cons_append, peek_cons, advance_cons, escape,
      codePoint_unitDigits hcontrol]
  · next hplain =>
    refine ⟨offset + c.utf8Size, ?_⟩
    rw [stringOnto]
    simp only [bind, EStateM.bind, List.cons_append, List.nil_append, peek_cons, advance_cons, if_neg hplain]

private theorem stringOnto_flatMap_escape {fuel : Nat} {cs : List Char} (hfuel : cs.length < fuel) (acc : List Char)
    (rest : List Char) (offset : Nat) :
    ∃ offset', stringOnto fuel acc ⟨cs.flatMap Json.escape ++ '"' :: rest, offset⟩ =
      .ok (String.ofList (acc.reverse ++ cs)) ⟨rest, offset'⟩ := by
  induction cs generalizing fuel acc offset with
  | nil =>
    obtain ⟨fuel, rfl⟩ := Nat.exists_eq_add_one_of_ne_zero (Nat.ne_zero_of_lt hfuel)
    refine ⟨offset + '"'.utf8Size, ?_⟩
    simp [stringOnto, bind, EStateM.bind, peek_cons, advance_cons, pure, EStateM.pure]
  | cons c cs ih =>
    obtain ⟨fuel, rfl⟩ := Nat.exists_eq_add_one_of_ne_zero (Nat.ne_zero_of_lt hfuel)
    obtain ⟨between, hstep⟩ := stringOnto_escape fuel acc c (cs.flatMap Json.escape ++ '"' :: rest) offset
    obtain ⟨offset', hrest⟩ := ih (Nat.lt_of_succ_lt_succ hfuel) (c :: acc) between
    refine ⟨offset', ?_⟩
    rw [List.flatMap_cons, List.append_assoc, hstep, hrest, List.reverse_cons, List.append_assoc]
    rfl

private theorem length_le_flatMap_escape (cs : List Char) : cs.length ≤ (cs.flatMap Json.escape).length := by
  induction cs with
  | nil => exact Nat.le_refl _
  | cons c cs ih =>
    have hc : Json.escape c ≠ [] := by
      unfold Json.escape
      repeat' split
      all_goals exact List.cons_ne_nil _ _
    have hpos := List.length_pos_iff.mpr hc
    rw [List.flatMap_cons, List.length_append, List.length_cons]
    omega

/-- A text is read back from between its quotes, up to what follows them. -/
theorem text_quote (s : String) (rest : List Char) (offset : Nat) :
    ∃ offset', text ⟨(quote s).toList ++ rest, offset⟩ = .ok s ⟨rest, offset'⟩ := by
  have hlist : (quote s).toList ++ rest = '"' :: (s.toList.flatMap Json.escape ++ '"' :: rest) := by
    simp [quote]
  have hfuel : s.toList.length < (s.toList.flatMap Json.escape ++ '"' :: rest).length + 1 := by
    have := length_le_flatMap_escape s.toList
    simp only [List.length_append]
    omega
  obtain ⟨offset', hstring⟩ := stringOnto_flatMap_escape hfuel [] rest (offset + '"'.utf8Size)
  rw [List.reverse_nil, List.nil_append, String.ofList_toList] at hstring
  have htoken : peekToken ⟨'"' :: (s.toList.flatMap Json.escape ++ '"' :: rest), offset⟩ =
      .ok (some '"') ⟨'"' :: (s.toList.flatMap Json.escape ++ '"' :: rest), offset⟩ := rfl
  have hget (c : Cursor) : (get : Reader Cursor) c = .ok c c := rfl
  refine ⟨offset', ?_⟩
  rw [hlist]
  simp only [text, bind, EStateM.bind, htoken, string, advance_cons, hget, hstring]

/-- A reader that comes to the end of a text has read the text. -/
theorem run_eq_ok {r : Reader α} {s : String} {a : α} {offset : Nat} (h : r (.ofText s) = .ok a ⟨[], offset⟩) :
    r.run s = .ok a := by
  have hend : endText ⟨[], offset⟩ = .ok () ⟨[], offset⟩ := rfl
  simp only [run, bind, EStateM.bind, h, hend, pure, EStateM.pure]

end Reader

end Json

end StateTransition
