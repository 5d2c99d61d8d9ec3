import StateTransition.Rlp.Field
import StateTransition.Proofs.Outcome
import StateTransition.Proofs.Rlp.Canonical

/-! Values as items and back. What is read as a value is the one item that the value is written as,
for single fields and for lists of them. -/
namespace StateTransition

namespace Rlp

namespace Item

variable {item : Item} {bs : Bytes}

theorem toBytes_eq_ok_iff : item.toBytes = .ok bs ↔ item = .bytes bs := by
  cases item <;> simp [toBytes]

theorem toList_eq_ok_iff {items : List Item} : item.toList = .ok items ↔ item = .list items := by
  cases item <;> simp [toList]

theorem toListOf_eq_ok_iff {length : Nat} {items : List Item} :
    item.toListOf length = .ok items ↔ item = .list items ∧ items.length = length := by
  simp only [toListOf, bind_eq_ok_iff, toList_eq_ok_iff]
  constructor
  · rintro ⟨found, rfl, h⟩
    split at h
    · next hlen =>
      cases h
      exact ⟨rfl, hlen⟩
    · cases h
  · rintro ⟨rfl, hlen⟩
    exact ⟨items, rfl, if_pos hlen⟩

private theorem toDigits_eq_ok_iff {width : Nat} :
    item.toDigits width = .ok bs ↔ item = .bytes bs ∧ bs.head? ≠ some 0 ∧ bs.length ≤ width := by
  simp only [toDigits, bind_eq_ok_iff, toBytes_eq_ok_iff]
  constructor
  · rintro ⟨found, rfl, h⟩
    split at h
    · cases h
    · next hhead =>
      split at h
      · cases h
      · next hlen =>
        cases h
        exact ⟨rfl, hhead, Nat.le_of_not_lt hlen⟩
  · rintro ⟨rfl, hhead, hlen⟩
    refine ⟨bs, rfl, ?_⟩
    rw [if_neg hhead]
    exact if_neg (Nat.not_lt.mpr hlen)

theorem toFixed_eq_ok_iff {width : Nat} :
    item.toFixed width = .ok bs ↔ item = .bytes bs ∧ bs.length = width := by
  simp only [toFixed, bind_eq_ok_iff, toBytes_eq_ok_iff]
  constructor
  · rintro ⟨found, rfl, h⟩
    split at h
    · next hlen =>
      cases h
      exact ⟨rfl, hlen⟩
    · cases h
  · rintro ⟨rfl, hlen⟩
    exact ⟨bs, rfl, if_pos hlen⟩

private theorem toNat_lt_of_length_le {width : Nat} (h : bs.length ≤ width) : Bytes.toNat bs < 256 ^ width :=
  Nat.lt_of_lt_of_le (Bytes.toNat_lt bs) (Nat.pow_le_pow_right (by decide) h)

/-- A count is read from the digits of its number, and from no others. -/
theorem toCount_eq_ok_iff {n : UInt64} : item.toCount = .ok n ↔ item = ofCount n := by
  simp only [toCount, bind_eq_ok_iff, pure_eq_ok_iff, toDigits_eq_ok_iff]
  constructor
  · rintro ⟨bs, ⟨rfl, hhead, hlen⟩, rfl⟩
    have hn : (Bytes.toNat bs).toUInt64.toNat = Bytes.toNat bs :=
      UInt64.toNat_ofNat_of_lt' (toNat_lt_of_length_le hlen)
    rw [ofCount, ofNat, hn, Bytes.ofNat_toNat hhead]
  · rintro rfl
    have hlen : byteLength n.toNat ≤ 8 := Bytes.byteLength_le_of_lt_pow n.toNat_lt
    refine ⟨_, ⟨rfl, Bytes.head?_ofNat_ne_zero _, by rwa [Bytes.length_ofNat]⟩, ?_⟩
    rw [Bytes.toNat_ofNat]
    exact UInt64.ofNat_toNat

theorem toWord_eq_ok_iff {w : Word} : item.toWord = .ok w ↔ item = ofWord w := by
  simp only [toWord, bind_eq_ok_iff, pure_eq_ok_iff, toDigits_eq_ok_iff]
  constructor
  · rintro ⟨bs, ⟨rfl, hhead, hlen⟩, rfl⟩
    have hn : (Word.ofBytes bs).toNat = Bytes.toNat bs :=
      Nat.mod_eq_of_lt (toNat_lt_of_length_le hlen)
    rw [ofWord, Word.toBytesTrimmed, hn, Bytes.ofNat_toNat hhead]
  · rintro rfl
    have hlen : byteLength w.toNat ≤ 32 := Bytes.byteLength_le_of_lt_pow w.isLt
    refine ⟨_, ⟨rfl, Bytes.head?_ofNat_ne_zero _, ?_⟩, ?_⟩
    · rwa [Word.toBytesTrimmed, Bytes.length_ofNat]
    · rw [Word.ofBytes, Word.toBytesTrimmed, Bytes.toNat_ofNat, BitVec.ofNat_toNat, BitVec.setWidth_eq]

/-- A number of a fixed width is read from all its digits. -/
private theorem toFixed_ofNat_iff {width w : Nat} (hw : w = 8 * width) {x : BitVec w} :
    (∃ bs, item.toFixed width = .ok bs ∧ BitVec.ofNat w (Bytes.toNat bs) = x) ↔
      item = .bytes (Bytes.ofNatPadded width x.toNat) := by
  simp only [toFixed_eq_ok_iff, and_assoc, ← Bytes.ofNatPadded_eq_iff hw]
  constructor
  · rintro ⟨bs, rfl, rfl⟩
    rfl
  · rintro rfl
    exact ⟨_, rfl, rfl⟩

theorem toAddress_eq_ok_iff {a : Address} : item.toAddress = .ok a ↔ item = ofAddress a := by
  simp only [toAddress, bind_eq_ok_iff, pure_eq_ok_iff]
  exact toFixed_ofNat_iff rfl

theorem toHash_eq_ok_iff {h : Hash} : item.toHash = .ok h ↔ item = ofHash h := by
  simp only [toHash, bind_eq_ok_iff, pure_eq_ok_iff]
  exact toFixed_ofNat_iff rfl

theorem toAddress?_eq_ok_iff {a : Option Address} : item.toAddress? = .ok a ↔ item = ofAddress? a := by
  simp only [toAddress?, bind_eq_ok_iff, toBytes_eq_ok_iff]
  constructor
  · rintro ⟨bs, rfl, h⟩
    split at h
    · next hnil =>
      cases h
      rw [List.isEmpty_iff.mp hnil]
      rfl
    · obtain ⟨address, haddress, h⟩ := bind_eq_ok_iff.mp h
      cases h
      exact toAddress_eq_ok_iff.mp haddress
  · rintro rfl
    cases a with
    | none => exact ⟨[], rfl, rfl⟩
    | some a =>
      have hne : ¬ a.toBytes.isEmpty = true := by
        rw [List.isEmpty_iff_length_eq_zero, Address.toBytes, Bytes.length_ofNatPadded]
        decide
      refine ⟨a.toBytes, rfl, ?_⟩
      rw [if_neg hne, bind_eq_ok_iff]
      exact ⟨a, toAddress_eq_ok_iff.mpr rfl, rfl⟩

/-- Values that are read back from what they are written as are written differently. -/
theorem injective_of_eq_ok_iff {α : Type} {read : Item → Except Error α} {write : α → Item}
    (h : ∀ {item x}, read item = .ok x ↔ item = write x) : Function.Injective write := by
  intro x y he
  have hx : read (write x) = .ok x := h.mpr rfl
  rw [h.mpr he] at hx
  exact (Except.ok.inj hx).symm

@[simp] theorem toCount_ofCount (n : UInt64) : (ofCount n).toCount = .ok n := toCount_eq_ok_iff.mpr rfl

@[simp] theorem toWord_ofWord (w : Word) : (ofWord w).toWord = .ok w := toWord_eq_ok_iff.mpr rfl

@[simp] theorem toAddress_ofAddress (a : Address) : (ofAddress a).toAddress = .ok a :=
  toAddress_eq_ok_iff.mpr rfl

@[simp] theorem toHash_ofHash (h : Hash) : (ofHash h).toHash = .ok h := toHash_eq_ok_iff.mpr rfl

@[simp] theorem toAddress?_ofAddress? (a : Option Address) : (ofAddress? a).toAddress? = .ok a :=
  toAddress?_eq_ok_iff.mpr rfl

@[simp] theorem toBytes_bytes (bs : Bytes) : (bytes bs).toBytes = .ok bs := rfl

/-! ### Lists of one form -/

variable {α : Type} {read : Item → Except Error α} {write : α → Item} {xs : List α}

/-- Items that are read back one by one are read back as a list. -/
theorem toListWith_map (h : ∀ x ∈ xs, read (write x) = .ok x) :
    (list (xs.map write)).toListWith read = .ok xs := by
  rw [toListWith, toList, bind_eq_ok_iff]
  refine ⟨xs.map write, rfl, ?_⟩
  induction xs with
  | nil => rfl
  | cons x xs ih =>
    rw [List.map_cons, List.mapM_cons, h x List.mem_cons_self, bind_eq_ok_iff]
    refine ⟨x, rfl, ?_⟩
    rw [ih fun y hy => h y (List.mem_cons_of_mem x hy)]
    rfl

/-- Where each item is the one that its value is written as, a list is the one of those items. -/
theorem eq_of_toListWith (h : ∀ {item x}, read item = .ok x → item = write x)
    (hl : item.toListWith read = .ok xs) : item = .list (xs.map write) := by
  rw [toListWith, bind_eq_ok_iff] at hl
  obtain ⟨items, hitem, hl⟩ := hl
  rw [toList_eq_ok_iff.mp hitem]
  clear hitem
  congr 1
  induction items generalizing xs with
  | nil =>
    cases hl
    rfl
  | cons head items ih =>
    rw [List.mapM_cons, bind_eq_ok_iff] at hl
    obtain ⟨x, hx, hl⟩ := hl
    obtain ⟨rest, hrest, hl⟩ := bind_eq_ok_iff.mp hl
    cases hl
    rw [List.map_cons, ← h hx, ← ih hrest]

theorem toListWith_eq_ok_iff (h : ∀ {item x}, read item = .ok x ↔ item = write x) :
    item.toListWith read = .ok xs ↔ item = .list (xs.map write) := by
  refine ⟨eq_of_toListWith h.mp, ?_⟩
  rintro rfl
  exact toListWith_map fun x _ => h.mpr rfl

/-! ### Whole encodings -/

theorem decode_encode (item : Item) (h : item.encode.length < countLimit) : decode item.encode = .ok item := by
  have hfirst := decodeFirst_encode item h []
  rw [List.append_nil] at hfirst
  rw [decode, hfirst]

theorem length_le_encode_bytes (bs : Bytes) : bs.length ≤ (bytes bs).encode.length := by
  rw [encode]
  by_cases h1 : bs.length = 1
  · obtain ⟨b, rfl⟩ := List.length_eq_one_iff.mp h1
    rw [encodeBytes]
    split <;> simp
  · rw [encodeBytes_of_ne h1, List.length_append]
    exact Nat.le_add_left _ _

private theorem length_le_encodeAll {items : List Item} (h : item ∈ items) :
    item.encode.length ≤ (encodeAll items).length := by
  induction items with
  | nil => cases h
  | cons head items ih =>
    rw [encodeAll, List.length_append]
    rcases List.mem_cons.mp h with rfl | h
    · exact Nat.le_add_right _ _
    · exact Nat.le_add_left_of_le (ih h)

/-- The encoding of a list takes no less than that of an item in it. -/
theorem length_le_encode_list {items : List Item} (h : item ∈ items) :
    item.encode.length ≤ (list items).encode.length := by
  rw [encode, encodeList, List.length_append]
  exact Nat.le_add_left_of_le (length_le_encodeAll h)

theorem length_opening_le (base : Nat) {n : Nat} (h : n < countLimit) : (opening base n).length ≤ 9 := by
  have hlen : byteLength n ≤ 8 := Bytes.byteLength_le_of_lt_pow h
  rw [opening]
  split
  · simp
  · rw [List.length_cons, Bytes.length_ofNat]
    exact Nat.succ_le_succ hlen

theorem length_encode_bytes_le (bs : Bytes) (h : bs.length < countLimit) : (bytes bs).encode.length ≤ bs.length + 9 := by
  rw [encode]
  by_cases h1 : bs.length = 1
  · obtain ⟨b, rfl⟩ := List.length_eq_one_iff.mp h1
    rw [encodeBytes]
    split <;> simp
  · have hopening := length_opening_le 0x80 h
    rw [encodeBytes_of_ne h1, List.length_append]
    omega

theorem length_encode_ofHash (h : Hash) : (ofHash h).encode.length = 33 := by
  have hlen : h.toBytes.length = 32 := Bytes.length_ofNatPadded 32 h.toNat
  have h1 : h.toBytes.length ≠ 1 := by omega
  rw [ofHash, encode, encodeBytes_of_ne h1, List.length_append, hlen]
  rfl

theorem length_encode_ofCount_le (n : UInt64) : (ofCount n).encode.length ≤ 17 := by
  have hlen : (Bytes.ofNat n.toNat).length ≤ 8 := by
    rw [Bytes.length_ofNat]
    exact Bytes.byteLength_le_of_lt_pow n.toNat_lt
  have h := length_encode_bytes_le (Bytes.ofNat n.toNat) (by rw [countLimit]; omega)
  rw [ofCount, ofNat]
  omega

theorem length_encode_ofWord_le (w : Word) : (ofWord w).encode.length ≤ 41 := by
  have hlen : w.toBytesTrimmed.length ≤ 32 := by
    rw [Word.toBytesTrimmed, Bytes.length_ofNat]
    exact Bytes.byteLength_le_of_lt_pow w.isLt
  have h := length_encode_bytes_le w.toBytesTrimmed (by rw [countLimit]; omega)
  rw [ofWord]
  omega

theorem encodeAll_concat (items : List Item) (item : Item) :
    encodeAll (items ++ [item]) = encodeAll items ++ item.encode := by
  induction items with
  | nil => simp [encodeAll]
  | cons head items ih => rw [List.cons_append, encodeAll, encodeAll, ih, List.append_assoc]

theorem length_encodeAll_le {items : List Item} {bound : Nat} (h : ∀ item ∈ items, item.encode.length ≤ bound) :
    (encodeAll items).length ≤ items.length * bound := by
  induction items with
  | nil => exact Nat.zero_le _
  | cons head items ih =>
    have hhead := h head List.mem_cons_self
    have hrest := ih fun item hitem => h item (List.mem_cons_of_mem head hitem)
    rw [encodeAll, List.length_append, List.length_cons, Nat.add_one_mul]
    omega

theorem length_encode_list_le {items : List Item} {bound : Nat} (h : ∀ item ∈ items, item.encode.length ≤ bound)
    (hlt : items.length * bound < countLimit) : (list items).encode.length ≤ items.length * bound + 9 := by
  have hall := length_encodeAll_le h
  have hopening := length_opening_le 0xc0 (Nat.lt_of_le_of_lt hall hlt)
  rw [encode, encodeList, List.length_append]
  omega

private theorem le_toUInt8 {n : Nat} (h : 0xc0 ≤ n) (hn : n < 256) : 0xc0 ≤ n.toUInt8 := by
  rw [UInt8.le_iff_toNat_le]
  simpa [Nat.mod_eq_of_lt hn] using h

private theorem le_head_opening {n : Nat} (h : n < countLimit) :
    ∃ first rest, opening 0xc0 n = first :: rest ∧ 0xc0 ≤ first := by
  have hlen : byteLength n ≤ 8 := Bytes.byteLength_le_of_lt_pow h
  rw [opening]
  split
  · exact ⟨_, _, rfl, le_toUInt8 (by omega) (by omega)⟩
  · exact ⟨_, _, rfl, le_toUInt8 (by omega) (by omega)⟩

/-- The first byte tells a list from the types that begin an envelope. -/
theorem le_head_encode_list {items : List Item} (h : (list items).encode.length < countLimit) :
    ∃ first rest, (list items).encode = first :: rest ∧ 0xc0 ≤ first := by
  rw [encode, encodeList] at h ⊢
  rw [List.length_append] at h
  obtain ⟨first, rest, ho, hfirst⟩ := le_head_opening (n := (encodeAll items).length) (by omega)
  exact ⟨first, rest ++ encodeAll items, by rw [ho, List.cons_append], hfirst⟩

end Item

end Rlp

end StateTransition
