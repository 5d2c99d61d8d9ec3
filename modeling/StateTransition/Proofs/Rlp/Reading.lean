import StateTransition.Rlp.Decode
import StateTransition.Proofs.Numeral

/-! Reading back what was written. An encoding shorter than 2 ^ 64 bytes tells its item and where it
ends, whatever follows, so no two items share one. -/
namespace StateTransition

namespace Rlp

def Item.payload : Item → Bytes
  | bytes bs => bs
  | list items => encodeAll items

private theorem byteLength_le_eight {n : Nat} (h : n < countLimit) : byteLength n ≤ 8 :=
  Bytes.byteLength_le_of_lt_pow h

private theorem byteLength_pos {n : Nat} (h : 56 ≤ n) : 0 < byteLength n := by
  have hn := Bytes.lt_pow_byteLength n
  by_contra h0
  rw [Nat.eq_zero_of_not_pos h0] at hn
  omega

/-- A length of more than one byte's worth is read back from its digits. -/
private theorem readLength_ofNat {n : Nat} (h : 56 ≤ n) (rest : Bytes) :
    readLength (byteLength n) (Bytes.ofNat n ++ rest) = .ok n := by
  have htake : (Bytes.ofNat n ++ rest).take (byteLength n) = Bytes.ofNat n := by
    rw [List.take_append_of_le_length (by simp), List.take_of_length_le (by simp)]
  simp only [readLength, htake, Bytes.length_ofNat, Nat.lt_irrefl, if_false, Bytes.head?_ofNat_ne_zero,
    Bytes.toNat_ofNat, Nat.not_lt.mpr h]

private theorem toNat_toUInt8 {n : Nat} (h : n < 256) : n.toUInt8.toNat = n := by
  simp [Nat.mod_eq_of_lt h]

/-- What opens a byte string is read back, but for the single byte, which has a form of its own. -/
private theorem readOpening_bytes {n : Nat} (h : n < countLimit) (h1 : n ≠ 1) (rest : Bytes) :
    readOpening (opening 0x80 n ++ rest) = .ok ⟨false, (opening 0x80 n).length, n⟩ := by
  by_cases hn : n < 56
  · have hb := toNat_toUInt8 (n := 0x80 + n) (by omega)
    simp only [opening, hn, if_true, List.cons_append, readOpening, hb]
    rw [if_neg (by omega), if_neg (by omega), if_pos (by omega)]
    simp
  · have hle := byteLength_le_eight h
    have hpos := byteLength_pos (n := n) (by omega)
    have hb := toNat_toUInt8 (n := 0x80 + 55 + byteLength n) (by omega)
    simp only [opening, hn, if_false, List.cons_append, readOpening, hb]
    rw [if_neg (by omega), if_neg (by omega), if_neg (by omega), if_pos (by omega),
      show 0x80 + 55 + byteLength n - 0xb7 = byteLength n by omega, readLength_ofNat (by omega)]
    simp [Except.map, Nat.add_comm]

private theorem readOpening_list {n : Nat} (h : n < countLimit) (rest : Bytes) :
    readOpening (opening 0xc0 n ++ rest) = .ok ⟨true, (opening 0xc0 n).length, n⟩ := by
  by_cases hn : n < 56
  · have hb := toNat_toUInt8 (n := 0xc0 + n) (by omega)
    simp only [opening, hn, if_true, List.cons_append, readOpening, hb]
    rw [if_neg (by omega), if_neg (by omega), if_neg (by omega), if_neg (by omega), if_pos (by omega)]
    simp
  · have hle := byteLength_le_eight h
    have hpos := byteLength_pos (n := n) (by omega)
    have hb := toNat_toUInt8 (n := 0xc0 + 55 + byteLength n) (by omega)
    simp only [opening, hn, if_false, List.cons_append, readOpening, hb]
    rw [if_neg (by omega), if_neg (by omega), if_neg (by omega), if_neg (by omega), if_neg (by omega),
      show 0xc0 + 55 + byteLength n - 0xf7 = byteLength n by omega, readLength_ofNat (by omega)]
    simp [Except.map, Nat.add_comm]

theorem encodeBytes_of_ne {bs : Bytes} (h : bs.length ≠ 1) :
    encodeBytes bs = opening 0x80 bs.length ++ bs := by
  match bs with
  | [] => rfl
  | [_] => exact absurd rfl h
  | _ :: _ :: _ => rfl

/-- The encoding of a byte string is what opens it and the byte string. -/
private theorem encodeBytes_eq {bs : Bytes} (h : (encodeBytes bs).length < countLimit) :
    ∃ front : Bytes, encodeBytes bs = front ++ bs ∧
      ∀ rest, readOpening (encodeBytes bs ++ rest) = .ok ⟨false, front.length, bs.length⟩ := by
  by_cases h1 : bs.length = 1
  · obtain ⟨b, rfl⟩ := List.length_eq_one_iff.mp h1
    rw [encodeBytes]
    split
    · next hb =>
      have hb : b.toNat < 0x80 := hb
      exact ⟨[], rfl, fun rest => by simp [readOpening, hb]⟩
    · next hb => exact ⟨[0x81], rfl, fun rest => by simp [readOpening, hb]⟩
  · rw [encodeBytes_of_ne h1] at h ⊢
    rw [List.length_append] at h
    refine ⟨opening 0x80 bs.length, rfl, fun rest => ?_⟩
    rw [List.append_assoc, readOpening_bytes (by omega) h1]

/-- An encoding is what opens it and the payload that this announces. -/
private theorem encode_eq (item : Item) (h : item.encode.length < countLimit) :
    ∃ front : Bytes, item.encode = front ++ item.payload ∧
      ∀ rest, readOpening (item.encode ++ rest) = .ok ⟨item.isList, front.length, item.payload.length⟩ := by
  cases item with
  | bytes bs =>
    rw [Item.encode] at h ⊢
    exact encodeBytes_eq h
  | list items =>
    rw [Item.encode, encodeList] at h ⊢
    rw [List.length_append] at h
    refine ⟨opening 0xc0 (Item.encodeAll items).length, rfl, fun rest => ?_⟩
    rw [List.append_assoc, readOpening_list (by omega)]
    rfl

/-- The first item is cut off where its encoding ends. -/
private theorem split_encode (item : Item) (h : item.encode.length < countLimit) (rest : Bytes) :
    split (item.encode ++ rest) = .ok ⟨item.isList, item.payload, rest⟩ := by
  obtain ⟨front, he, ho⟩ := encode_eq item h
  have hdrop : (item.encode ++ rest).drop front.length = item.payload ++ rest := by
    rw [he, List.append_assoc, List.drop_left]
  simp only [split, ho, hdrop, List.take_left, List.drop_left, if_true]

private theorem length_opening_pos (base n : Nat) : 0 < (opening base n).length := by
  rw [opening]
  split <;> simp

private theorem encodeBytes_ne_nil (bs : Bytes) : encodeBytes bs ≠ [] := by
  by_cases h : bs.length = 1
  · obtain ⟨b, rfl⟩ := List.length_eq_one_iff.mp h
    rw [encodeBytes]
    split <;> simp
  · have hopening := length_opening_pos 0x80 bs.length
    rw [encodeBytes_of_ne h, ← List.length_pos_iff, List.length_append]
    omega

/-- Something is written for every item. -/
theorem encode_ne_nil (item : Item) : item.encode ≠ [] := by
  cases item with
  | bytes bs =>
    rw [Item.encode]
    exact encodeBytes_ne_nil bs
  | list items =>
    have hopening := length_opening_pos 0xc0 (Item.encodeAll items).length
    rw [Item.encode, encodeList, ← List.length_pos_iff, List.length_append]
    omega

/-- Items are read one after another. -/
theorem decodeAll_of_ne_nil {bs : Bytes} (h : bs ≠ []) :
    decodeAll bs = match Item.decodeFirst bs with
      | .error e => .error e
      | .ok (item, rest) => (decodeAll rest).map (item :: ·) := by
  rw [decodeAll, if_neg h, Item.decodeFirst]
  split
  · next e hs => rw [hs]
  · next s hs =>
    rw [hs]
    by_cases hl : s.isList = true
    · simp only [hl, dite_true, if_true]
      cases decodeAll s.payload with
      | error e => rfl
      | ok items => cases hr : decodeAll s.rest <;> simp only [hr, Except.map]
    · simp only [hl, Bool.false_eq_true, dite_false, if_false]
      cases hr : decodeAll s.rest <;> rfl

private theorem decodeAll_cons {bs rest : Bytes} {item : Item} {items : List Item} (hne : bs ≠ [])
    (hf : Item.decodeFirst bs = .ok (item, rest)) (hr : decodeAll rest = .ok items) :
    decodeAll bs = .ok (item :: items) := by
  rw [decodeAll_of_ne_nil hne, hf]
  simp only [hr, Except.map]

private theorem decodeFirst_encode_bytes {bs : Bytes} (h : (Item.bytes bs).encode.length < countLimit)
    (rest : Bytes) : Item.decodeFirst ((Item.bytes bs).encode ++ rest) = .ok (.bytes bs, rest) := by
  rw [Item.decodeFirst, split_encode _ h]
  rfl

private theorem decodeFirst_encode_list {items : List Item}
    (h : (Item.list items).encode.length < countLimit)
    (hp : decodeAll (Item.encodeAll items) = .ok items) (rest : Bytes) :
    Item.decodeFirst ((Item.list items).encode ++ rest) = .ok (.list items, rest) := by
  rw [Item.decodeFirst, split_encode _ h]
  simp only [Item.isList, Item.payload, if_true, hp]

private theorem encodeAll_length_lt {items : List Item}
    (h : (Item.list items).encode.length < countLimit) :
    (Item.encodeAll items).length < countLimit := by
  rw [Item.encode, encodeList, List.length_append] at h
  omega

/-- The payload of a list is read back as its items. -/
private theorem decodeAll_encodeAll : ∀ items : List Item, (Item.encodeAll items).length < countLimit →
    decodeAll (Item.encodeAll items) = .ok items
  | [], _ => by
    rw [Item.encodeAll, decodeAll]
    rfl
  | .bytes bs :: rest, h => by
    rw [Item.encodeAll] at h ⊢
    rw [List.length_append] at h
    have hi : (Item.bytes bs).encode.length < countLimit := by omega
    exact decodeAll_cons (by simp [encode_ne_nil]) (decodeFirst_encode_bytes hi _)
      (decodeAll_encodeAll rest (by omega))
  | .list items :: rest, h => by
    rw [Item.encodeAll] at h ⊢
    rw [List.length_append] at h
    have hi : (Item.list items).encode.length < countLimit := by omega
    have hp := decodeAll_encodeAll items (encodeAll_length_lt hi)
    exact decodeAll_cons (by simp [encode_ne_nil]) (decodeFirst_encode_list hi hp _)
      (decodeAll_encodeAll rest (by omega))

/-- An encoding is read back as its item, and what follows is left. -/
theorem decodeFirst_encode (item : Item) (h : item.encode.length < countLimit) (rest : Bytes) :
    Item.decodeFirst (item.encode ++ rest) = .ok (item, rest) := by
  cases item with
  | bytes bs => exact decodeFirst_encode_bytes h rest
  | list items =>
    exact decodeFirst_encode_list h (decodeAll_encodeAll items (encodeAll_length_lt h)) rest

/-- No two items have the same encoding. -/
theorem encode_injective {item item' : Item} (h : item.encode.length < countLimit)
    (he : item.encode = item'.encode) : item = item' := by
  have hr := decodeFirst_encode item h []
  rw [he, decodeFirst_encode item' (he ▸ h)] at hr
  cases hr
  rfl

private theorem length_opening_mono (base : Nat) {n m : Nat} (h : n ≤ m) :
    (opening base n).length ≤ (opening base m).length := by
  have hdigits := Bytes.byteLength_mono h
  rw [opening, opening]
  split
  · split <;> simp
  · rw [if_neg (by omega), List.length_cons, List.length_cons, Bytes.length_ofNat, Bytes.length_ofNat]
    omega

private theorem encodeBytes_singleton_ne {b : UInt8} {bs : Bytes} (h : bs.length ≠ 1) :
    encodeBytes [b] ≠ encodeBytes bs := by
  intro he
  cases bs with
  | nil =>
    have hb : b = 0x80 := by
      simp only [encodeBytes] at he
      split at he <;> cases he
      rfl
    subst hb
    cases he
  | cons c bs =>
    have hone : (encodeBytes [b]).length ≤ 2 := by
      rw [encodeBytes]
      split <;> simp
    have hopening := length_opening_pos 0x80 (c :: bs).length
    rw [he, encodeBytes_of_ne h, List.length_append] at hone
    rw [List.length_cons] at h hone hopening
    omega

/-- No two byte strings have the same encoding, however long they are. -/
theorem encodeBytes_injective : Function.Injective encodeBytes := by
  intro bs bs' he
  by_cases h : bs.length = 1 <;> by_cases h' : bs'.length = 1
  · obtain ⟨b, rfl⟩ := List.length_eq_one_iff.mp h
    obtain ⟨b', rfl⟩ := List.length_eq_one_iff.mp h'
    simp only [encodeBytes] at he
    split at he <;> split at he <;> simp_all
  · obtain ⟨b, rfl⟩ := List.length_eq_one_iff.mp h
    exact absurd he (encodeBytes_singleton_ne h')
  · obtain ⟨b', rfl⟩ := List.length_eq_one_iff.mp h'
    exact absurd he.symm (encodeBytes_singleton_ne h)
  · rw [encodeBytes_of_ne h, encodeBytes_of_ne h'] at he
    have hlen := congrArg List.length he
    rw [List.length_append, List.length_append] at hlen
    -- the longer of the two has no shorter opening, so neither is longer
    have hle := length_opening_mono 0x80 (n := bs.length) (m := bs'.length)
    have hge := length_opening_mono 0x80 (n := bs'.length) (m := bs.length)
    have hsame : bs.length = bs'.length := by omega
    rw [hsame] at he
    exact List.append_cancel_left he

namespace Item

/-- Where an encoding ends is told from the encoding alone, so it can be read before anything else and
on its own. -/
theorem decodePrefix_encode (item : Item) (h : item.encode.length < countLimit) (s : Bytes) :
    decodePrefix (item.encode ++ s) = .ok (item, item.encode.length) ∧
      decode item.encode = .ok item := by
  constructor
  · rw [decodePrefix, decodeFirst_encode item h s, List.length_append]
    simp only [Except.map, Nat.add_sub_cancel]
  · have hall := decodeFirst_encode item h []
    rw [List.append_nil] at hall
    rw [decode, hall]

/-- Both single bytes at which an opening becomes necessary, both empty items, and a payload of the
first length that is written in digits, with an item's beginning after them. -/
theorem decodePrefix_encode_of_nested :
    let item : Item := .list [.bytes [0x7f], .bytes [0x80], .list [.bytes [], .list []],
      .bytes (List.replicate 56 0xff)]
    decodePrefix (item.encode ++ [0xc1]) = .ok (item, 66) ∧ decode item.encode = .ok item :=
  decodePrefix_encode
    (.list [.bytes [0x7f], .bytes [0x80], .list [.bytes [], .list []],
      .bytes (List.replicate 56 0xff)]) (by decide) [0xc1]

end Item

end Rlp

end StateTransition
