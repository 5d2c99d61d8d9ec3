import StateTransition.Proofs.Rlp.Reading

/-! Writing back what was read. Bytes that are accepted are the very encoding of the item that they are
read as, so that no item has a second one. -/
namespace StateTransition

namespace Rlp

/-- A length of more than one byte's worth is read from its digits, and from no others. -/
private theorem readLength_ok {count n : Nat} {bs : Bytes} (h : readLength count bs = .ok n) :
    56 ≤ n ∧ byteLength n = count ∧ bs.take count = Bytes.ofNat n := by
  unfold readLength at h
  dsimp only at h
  split at h
  · cases h
  · next hlen =>
    split at h
    · cases h
    · next hhead =>
      split at h
      · cases h
      · next hn =>
        cases h
        have hcount : (bs.take count).length = count :=
          Nat.le_antisymm (List.length_take_le _ _) (Nat.le_of_not_lt hlen)
        exact ⟨Nat.le_of_not_lt hn, (Bytes.byteLength_toNat hhead).trans hcount,
          (Bytes.ofNat_toNat hhead).symm⟩

/-- What opens a payload, by the kind of its item. -/
private def openingOf (isList : Bool) (length : Nat) : Bytes :=
  opening (if isList then 0xc0 else 0x80) length

private theorem toUInt8_toNat (b : UInt8) : b.toNat.toUInt8 = b := by simp

private theorem openingOf_short {isList : Bool} {n : Nat} {first : UInt8}
    (h : first.toNat = (if isList then 0xc0 else 0x80) + n) (hn : n < 56) :
    openingOf isList n = [first] := by
  rw [openingOf, opening, if_pos hn, ← h, toUInt8_toNat]

private theorem openingOf_long {isList : Bool} {count n : Nat} {first : UInt8} {rest : Bytes}
    (h : first.toNat = (if isList then 0xc0 else 0x80) + 55 + count)
    (hl : readLength count rest = .ok n) :
    (first :: rest).take (1 + count) = openingOf isList n ∧ 1 + count = (openingOf isList n).length ∧
      n ≠ 1 := by
  obtain ⟨hn, hcount, hdigits⟩ := readLength_ok hl
  have ho : openingOf isList n = first :: rest.take count := by
    rw [openingOf, opening, if_neg (Nat.not_lt.mpr hn), hcount, ← h, toUInt8_toNat, hdigits]
  refine ⟨?_, ?_, by omega⟩
  · rw [ho, Nat.add_comm, List.take_succ_cons]
  · rw [ho, hdigits, List.length_cons, Bytes.length_ofNat, hcount, Nat.add_comm]

/-- Either a small byte stands for itself, or bytes are opened as their payload would be written, and a
payload of one byte is not a small one. -/
private theorem readOpening_ok {bs : Bytes} {o : Opening} (h : readOpening bs = .ok o) :
    (o = ⟨false, 0, 1⟩ ∧ ∃ b rest, bs = b :: rest ∧ b < 0x80) ∨
      (bs.take o.size = openingOf o.isList o.length ∧ o.size = (openingOf o.isList o.length).length ∧
        (o.isList = false → o.length = 1 → ∃ b rest, bs.drop o.size = b :: rest ∧ ¬ b < 0x80)) := by
  cases bs with
  | nil => cases h
  | cons first rest =>
    have hfirst : first.toNat < 256 := first.toNat_lt
    simp only [readOpening] at h
    split at h
    · next hsmall =>
      cases h
      exact .inl ⟨rfl, first, rest, rfl, hsmall⟩
    right
    split at h
    · next h81 =>
      cases rest with
      | nil => cases h
      | cons b rest =>
        dsimp only at h
        split at h
        · cases h
        · next hb =>
          cases h
          have ho : openingOf false 1 = [first] := openingOf_short h81 (by decide)
          exact ⟨ho ▸ rfl, ho ▸ rfl, fun _ _ => ⟨b, rest, rfl, hb⟩⟩
    split at h
    · cases h
      have ho : openingOf false (first.toNat - 0x80) = [first] :=
        openingOf_short (by rw [if_neg (by decide)]; omega) (by omega)
      exact ⟨ho ▸ rfl, ho ▸ rfl, fun _ hone => by dsimp only at hone; omega⟩
    split at h
    · cases hl : readLength (first.toNat - 0xb7) rest with
      | error e => rw [hl] at h; cases h
      | ok n =>
        rw [hl] at h
        cases h
        have hn : first.toNat = 0x80 + 55 + (first.toNat - 0xb7) := by omega
        obtain ⟨htake, hsize, hne⟩ : _ ∧ _ = (openingOf false n).length ∧ _ := openingOf_long hn hl
        exact ⟨htake, hsize, fun _ hone => absurd hone hne⟩
    split at h
    · cases h
      have ho : openingOf true (first.toNat - 0xc0) = [first] :=
        openingOf_short (by rw [if_pos rfl]; omega) (by omega)
      exact ⟨ho ▸ rfl, ho ▸ rfl, fun hl => by cases hl⟩
    · cases hl : readLength (first.toNat - 0xf7) rest with
      | error e => rw [hl] at h; cases h
      | ok n =>
        rw [hl] at h
        cases h
        have hn : first.toNat = 0xc0 + 55 + (first.toNat - 0xf7) := by omega
        obtain ⟨htake, hsize, -⟩ : _ ∧ _ = (openingOf true n).length ∧ _ := openingOf_long hn hl
        exact ⟨htake, hsize, fun h => by cases h⟩

/-- What stands before a payload is there. -/
theorem readOpening_size_le {bs : Bytes} {o : Opening} (h : readOpening bs = .ok o) :
    o.size ≤ bs.length := by
  rcases readOpening_ok h with ⟨rfl, -⟩ | ⟨htake, hsize, -⟩
  · exact Nat.zero_le _
  · have hlen := congrArg List.length htake
    rw [List.length_take] at hlen
    omega

def Split.front (s : Split) : Bytes := if s.isList then encodeList s.payload else encodeBytes s.payload

private theorem encodeBytes_of_opened {payload : Bytes}
    (h : payload.length = 1 → ∃ b rest, payload = b :: rest ∧ ¬ b < 0x80) :
    encodeBytes payload = opening 0x80 payload.length ++ payload := by
  by_cases hone : payload.length = 1
  · obtain ⟨b, rest, rfl, hb⟩ := h hone
    obtain rfl : rest = [] := List.length_eq_zero_iff.mp (Nat.succ.inj hone)
    rw [encodeBytes, if_neg hb]
    rfl
  · exact encodeBytes_of_ne hone

/-- What is cut off is an encoding, and nothing is lost of what follows. -/
private theorem split_ok {bs : Bytes} {s : Split} (h : split bs = .ok s) : bs = s.front ++ s.rest := by
  unfold split at h
  cases ho : readOpening bs with
  | error e => rw [ho] at h; cases h
  | ok o =>
    rw [ho] at h
    dsimp only at h
    split at h
    · next hlen =>
      cases h
      rcases readOpening_ok ho with ⟨rfl, b, rest, rfl, hb⟩ | ⟨htake, hsize, hone⟩
      · simp [Split.front, encodeBytes, hb]
      · have hbs : bs = openingOf o.isList o.length ++
            ((bs.drop o.size).take o.length ++ (bs.drop o.size).drop o.length) := by
          rw [← htake, List.take_append_drop, List.take_append_drop]
        have hfront : Split.front ⟨o.isList, (bs.drop o.size).take o.length, (bs.drop o.size).drop o.length⟩ =
            openingOf o.isList o.length ++ (bs.drop o.size).take o.length := by
          cases hl : o.isList with
          | true => simp [Split.front, encodeList, openingOf, hlen]
          | false =>
            have hpayload : ((bs.drop o.size).take o.length).length = 1 →
                ∃ b rest, (bs.drop o.size).take o.length = b :: rest ∧ ¬ b < 0x80 := fun h1 => by
              obtain ⟨b, rest, hdrop, hb⟩ := hone hl (hlen ▸ h1)
              exact ⟨b, [], by rw [hdrop, ← hlen, h1]; rfl, hb⟩
            simp [Split.front, openingOf, encodeBytes_of_opened hpayload, hlen]
        rw [hfront, List.append_assoc, ← hbs]
    · cases h

/-- Items that were read one after another are written back as the bytes that they were read from. -/
private theorem encodeAll_of_decodeAll {bs : Bytes} {items : List Item} (h : decodeAll bs = .ok items) :
    Item.encodeAll items = bs := by
  -- Along the reading itself: a list's payload and what follows an item are read in the same way.
  fun_induction decodeAll bs generalizing items with
  | case1 =>
    cases h
    rfl
  | case2 | case3 | case4 | case6 => cases h
  | case5 bs hne s hs hl inner hinner rest hrest ihinner ihrest =>
    cases h
    rw [Item.encodeAll, Item.encode, ihinner hinner, ihrest hrest, split_ok hs, Split.front, if_pos hl]
  | case7 bs hne s hs hl rest hrest ihrest =>
    cases h
    rw [Item.encodeAll, Item.encode, ihrest hrest, split_ok hs, Split.front, if_neg hl]

namespace Item

/-- The first item is written back as the bytes before those that follow it, of which there is one. -/
theorem decodeFirst_ok {bs rest : Bytes} {item : Item} (h : decodeFirst bs = .ok (item, rest)) :
    bs = item.encode ++ rest ∧ rest.length < bs.length := by
  unfold decodeFirst at h
  cases hs : split bs with
  | error e => rw [hs] at h; cases h
  | ok s =>
    rw [hs] at h
    have hbs := split_ok hs
    have hlen := (split_length hs).1
    dsimp only at h
    split at h
    · next hl =>
      cases hp : decodeAll s.payload with
      | error e => rw [hp] at h; cases h
      | ok items =>
        rw [hp] at h
        cases h
        rw [Split.front, if_pos hl, ← encodeAll_of_decodeAll hp] at hbs
        exact ⟨hbs, hlen⟩
    · next hl =>
      cases h
      rw [Split.front, if_neg hl] at hbs
      exact ⟨hbs, hlen⟩

theorem decodePrefix_ok {bs : Bytes} {item : Item} {n : Nat} (h : decodePrefix bs = .ok (item, n)) :
    1 ≤ n ∧ n ≤ bs.length ∧ item.encode = bs.take n := by
  unfold decodePrefix at h
  cases hf : decodeFirst bs with
  | error e => rw [hf] at h; cases h
  | ok found =>
    obtain ⟨item', rest⟩ := found
    rw [hf] at h
    cases h
    obtain ⟨hbs, hlen⟩ := decodeFirst_ok hf
    have hn : bs.length - rest.length = item.encode.length := by
      rw [hbs, List.length_append, Nat.add_sub_cancel]
    refine ⟨by omega, Nat.sub_le _ _, ?_⟩
    rw [hn, hbs, List.take_left]

theorem encode_of_decode {bs : Bytes} {item : Item} (h : decode bs = .ok item) : item.encode = bs := by
  unfold decode at h
  cases hf : decodeFirst bs with
  | error e => rw [hf] at h; cases h
  | ok found =>
    obtain ⟨item', _ | ⟨b, rest⟩⟩ := found
    · rw [hf] at h
      cases h
      simpa using (decodeFirst_ok hf).1.symm
    · rw [hf] at h
      cases h

end Item

end Rlp

end StateTransition
