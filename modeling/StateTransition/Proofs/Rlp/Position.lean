import StateTransition.Proofs.Rlp.Canonical

/-! Reading by positions: an offset moves through the payload of a list, and bytes are looked up by
their index. To look past the end, or to go on for longer than a bound, is an outcome of its own here.
With a bound of twice the number of bytes neither happens, and what is read is what `decodePrefix` and
`decode` read. -/
namespace StateTransition

namespace Rlp

namespace Position

/-- What ends a reading by positions before there is a result. -/
inductive Interruption where
  | refused (cause : Error)
  | outOfRange (position : Nat)
  | outOfFuel
  deriving DecidableEq, Repr

/-- The byte at a position, where there has to be one. -/
def byte (bs : Bytes) (i : Nat) : Except Interruption UInt8 :=
  match bs[i]? with
  | some b => .ok b
  | none => .error (.outOfRange i)

/-- The bytes from a position on, which may not lie past the end. -/
def suffixFrom (bs : Bytes) (i : Nat) : Except Interruption Bytes :=
  if i ≤ bs.length then .ok (bs.drop i) else .error (.outOfRange i)

/-- The bytes between two positions, refused where there are fewer. -/
def slice (bs : Bytes) (start stop : Nat) : Except Interruption Bytes :=
  if stop ≤ bs.length then .ok ((bs.take stop).drop start) else .error (.refused .unexpectedEnd)

def readLength (count : Nat) (bs : Bytes) : Except Interruption Nat := do
  let digits ← slice bs 0 count
  if (← byte digits 0) = 0 then throw (.refused .nonCanonicalLength)
  if Bytes.toNat digits < 56 then throw (.refused .nonCanonicalLength)
  return Bytes.toNat digits

def readOpening (bs : Bytes) : Except Interruption Opening :=
  match bs[0]? with
  | none => .error (.refused .unexpectedEnd)
  | some first =>
    let n := first.toNat
    if n < 0x80 then .ok ⟨false, 0, 1⟩
    else if n = 0x81 then
      match bs[1]? with
      | none => .error (.refused .unexpectedEnd)
      | some b => if b < 0x80 then .error (.refused .nonCanonicalSingleByte) else .ok ⟨false, 1, 1⟩
    else if n < 0xb8 then .ok ⟨false, 1, n - 0x80⟩
    else if n < 0xc0 then do
      return ⟨false, 1 + (n - 0xb7), ← readLength (n - 0xb7) (← suffixFrom bs 1)⟩
    else if n < 0xf8 then .ok ⟨true, 1, n - 0xc0⟩
    else do return ⟨true, 1 + (n - 0xf7), ← readLength (n - 0xf7) (← suffixFrom bs 1)⟩

mutual

def decodePrefix : (fuel : Nat) → Bytes → Except Interruption (Item × Nat)
  | 0, _ => .error .outOfFuel
  | fuel + 1, bs => do
    let o ← readOpening bs
    let stop := o.size + o.length
    let payload ← slice bs o.size stop
    if o.isList then return (.list (← decodeItems fuel payload 0), stop)
    return (.bytes payload, stop)

def decodeItems : (fuel : Nat) → (payload : Bytes) → (offset : Nat) → Except Interruption (List Item)
  | 0, _, _ => .error .outOfFuel
  | fuel + 1, payload, offset =>
    if offset < payload.length then do
      let (item, used) ← decodePrefix fuel (← suffixFrom payload offset)
      return item :: (← decodeItems fuel payload (offset + used))
    else .ok []

end

def decode (fuel : Nat) (bs : Bytes) : Except Interruption Item := do
  let (item, used) ← decodePrefix fuel bs
  if bs.length < used then throw (.outOfRange used)
  if used < bs.length then throw (.refused (.trailingBytes (bs.length - used)))
  return item

/-! ### The two ways of reading -/

private theorem readLength_eq {count : Nat} (hcount : 0 < count) (bs : Bytes) :
    readLength count bs = (Rlp.readLength count bs).mapError .refused := by
  have hlen := List.length_take (i := count) (l := bs)
  unfold readLength Rlp.readLength slice
  by_cases h : count ≤ bs.length
  · have hne : 0 < (bs.take count).length := by omega
    obtain ⟨first, rest, hd⟩ := List.exists_cons_of_length_pos hne
    have hge : ¬ (first :: rest).length < count := by rw [← hd]; omega
    have hbyte : byte (first :: rest) 0 = .ok first := rfl
    simp only [if_pos h, List.drop_zero, hd, if_neg hge, List.head?_cons, Option.some.injEq,
      bind, Except.bind, hbyte]
    by_cases hz : first = 0
    · simp only [hz, if_true]
      rfl
    · simp only [hz, if_false]
      by_cases hn : Bytes.toNat (first :: rest) < 56
      · simp only [hn, if_true]
        rfl
      · simp only [hn, if_false]
        rfl
  · simp only [if_neg h, show (bs.take count).length < count by omega, if_true]
    rfl

private theorem readOpening_eq (bs : Bytes) : readOpening bs = (Rlp.readOpening bs).mapError .refused := by
  cases bs with
  | nil => rfl
  | cons first rest =>
    have hsuffix : suffixFrom (first :: rest) 1 = .ok rest := rfl
    have hlong : ∀ (isList : Bool) (count : Nat), 0 < count →
        (do return ⟨isList, 1 + count, ← readLength count (← suffixFrom (first :: rest) 1)⟩ :
          Except Interruption Opening) =
        ((Rlp.readLength count rest).map fun n => (⟨isList, 1 + count, n⟩ : Opening)).mapError
          .refused := by
      intro isList count hcount
      simp only [hsuffix, bind, Except.bind, readLength_eq hcount]
      cases Rlp.readLength count rest <;> rfl
    simp only [readOpening, Rlp.readOpening, List.getElem?_cons_zero, List.getElem?_cons_succ]
    split
    · rfl
    split
    · cases rest with
      | nil => rfl
      | cons b rest =>
        simp only [List.getElem?_cons_zero]
        split <;> rfl
    split
    · rfl
    split
    · exact hlong false _ (by omega)
    split
    · rfl
    · exact hlong true _ (by omega)

/-- The payload between two positions is the one that is cut off. -/
private theorem slice_eq {bs : Bytes} {o : Opening} (h : Rlp.readOpening bs = .ok o) :
    slice bs o.size (o.size + o.length) = ((split bs).map Split.payload).mapError .refused := by
  have hsize := readOpening_size_le h
  have hlen : ((bs.drop o.size).take o.length).length = min o.length (bs.length - o.size) := by
    rw [List.length_take, List.length_drop]
  unfold slice split
  simp only [h]
  by_cases hle : o.size + o.length ≤ bs.length
  · rw [if_pos hle, if_pos (by omega), List.drop_take, Nat.add_sub_cancel_left]
    rfl
  · rw [if_neg hle, if_neg (by omega)]
    rfl

private theorem split_stop {bs : Bytes} {o : Opening} {s : Split} (h : Rlp.readOpening bs = .ok o)
    (hs : split bs = .ok s) : s.isList = o.isList ∧ o.size + o.length = bs.length - s.rest.length := by
  unfold split at hs
  rw [h] at hs
  dsimp only at hs
  split at hs
  · next hlen =>
    cases hs
    rw [List.length_take, List.length_drop] at hlen
    refine ⟨rfl, ?_⟩
    have hsize := readOpening_size_le h
    rw [List.length_drop, List.length_drop]
    omega
  · cases hs

private theorem decodePrefix_eq_of_items {fuel : Nat} {bs : Bytes}
    (ih : ∀ payload : Bytes, payload.length < bs.length →
      decodeItems fuel payload 0 = (decodeAll payload).mapError .refused) :
    decodePrefix (fuel + 1) bs = (Item.decodePrefix bs).mapError .refused := by
  rw [decodePrefix, readOpening_eq, Item.decodePrefix, Item.decodeFirst]
  cases ho : Rlp.readOpening bs with
  | error e =>
    have hs : split bs = .error e := by rw [split, ho]
    rw [hs]
    rfl
  | ok o =>
    cases hs : split bs with
    | error e =>
      have hslice : slice bs o.size (o.size + o.length) = .error (.refused e) := by
        rw [slice_eq ho, hs]
        rfl
      simp only [Except.mapError, bind, Except.bind, hslice]
      rfl
    | ok s =>
      obtain ⟨hlist, hstop⟩ := split_stop ho hs
      have hslice : slice bs o.size (o.size + o.length) = .ok s.payload := by
        rw [slice_eq ho, hs]
        rfl
      simp only [Except.mapError, bind, Except.bind, hslice, ← hlist]
      cases hl : s.isList with
      | false =>
        rw [hstop]
        rfl
      | true =>
        rw [if_pos rfl, ih s.payload ((split_length hs).2 hl), hstop]
        cases decodeAll s.payload <;> rfl

/-- Where there is more fuel than two for each byte, an item or the rest of a payload is read by
positions just as it is read without. -/
private theorem decode_eq (fuel : Nat) :
    (∀ bs : Bytes, 2 * bs.length < fuel →
      decodePrefix fuel bs = (Item.decodePrefix bs).mapError .refused) ∧
    ∀ (payload : Bytes) (offset : Nat), offset ≤ payload.length →
      2 * (payload.length - offset) + 1 < fuel →
      decodeItems fuel payload offset = (decodeAll (payload.drop offset)).mapError .refused := by
  -- One turn takes one from the fuel. A list's payload has a byte less than the list, and each item of
  -- a payload takes a byte at least from what is left of it.
  induction fuel with
  | zero => exact ⟨fun bs h => absurd h (Nat.not_lt_zero _), fun payload offset _ h =>
      absurd h (Nat.not_lt_zero _)⟩
  | succ fuel ih =>
    obtain ⟨ihPrefix, ihItems⟩ := ih
    constructor
    · intro bs hfuel
      refine decodePrefix_eq_of_items fun payload hlen => ?_
      exact ihItems payload 0 (Nat.zero_le _) (by omega)
    · intro payload offset hoffset hfuel
      have hrest : (payload.drop offset).length = payload.length - offset := List.length_drop
      rw [decodeItems]
      split
      · next hlt =>
        have hne : payload.drop offset ≠ [] := by
          intro hnil
          rw [hnil, List.length_nil] at hrest
          omega
        have hsuffix : suffixFrom payload offset = .ok (payload.drop offset) := if_pos hoffset
        have hread := ihPrefix (payload.drop offset) (by omega)
        rw [decodeAll_of_ne_nil hne, hsuffix]
        rw [Item.decodePrefix] at hread
        cases hf : Item.decodeFirst (payload.drop offset) with
        | error e =>
          rw [hf] at hread
          simp only [bind, Except.bind, hread]
          rfl
        | ok found =>
          obtain ⟨item, rest⟩ := found
          obtain ⟨hbs, hlen⟩ := Item.decodeFirst_ok hf
          have hdrop : payload.drop (offset + ((payload.drop offset).length - rest.length)) = rest := by
            rw [← List.drop_drop, hbs, List.length_append, Nat.add_sub_cancel, List.drop_left]
          have hitems := ihItems payload (offset + ((payload.drop offset).length - rest.length))
            (by omega) (by omega)
          rw [hdrop] at hitems
          rw [hf] at hread
          simp only [bind, Except.bind, hread, Except.map, Except.mapError, hitems]
          cases decodeAll rest <;> rfl
      · next hge =>
        have hnil : payload.drop offset = [] := List.drop_eq_nil_of_le (Nat.le_of_not_lt hge)
        rw [hnil, decodeAll, if_pos rfl]
        rfl

private theorem decode_eq_of_prefix {fuel : Nat} {bs : Bytes}
    (h : decodePrefix fuel bs = (Item.decodePrefix bs).mapError .refused) :
    decode fuel bs = (Item.decode bs).mapError .refused := by
  rw [decode, h, Item.decode, Item.decodePrefix]
  cases hf : Item.decodeFirst bs with
  | error e => rfl
  | ok found =>
    obtain ⟨item, rest⟩ := found
    have hlen := (Item.decodeFirst_ok hf).2
    have hused : bs.length - (bs.length - rest.length) = rest.length := by omega
    simp only [Except.map, Except.mapError, bind, Except.bind,
      Nat.not_lt.mpr (Nat.sub_le bs.length rest.length), if_false, hused]
    cases rest with
    | nil =>
      rw [List.length_nil, Nat.sub_zero, if_neg (Nat.lt_irrefl _)]
      rfl
    | cons b rest =>
      have hpos : 0 < (b :: rest).length := Nat.succ_pos _
      rw [if_pos (by omega)]
      rfl

end Position

namespace Item

/-- What is read is written back as the very bytes that it was read from, at least one and at most all;
so are all bytes where all are read, and no others are read as the same item. To read them takes no
access past the end of the bytes or of a payload, and no more turns than two for each byte. -/
theorem reads_only_encodings (bs : Bytes) :
    (∀ item n, decodePrefix bs = .ok (item, n) →
      1 ≤ n ∧ n ≤ bs.length ∧ item.encode = bs.take n) ∧
    (∀ item, decode bs = .ok item →
      item.encode = bs ∧ ∀ bs', decode bs' = .ok item → bs' = bs) ∧
    ∀ fuel, 2 * bs.length < fuel →
      Position.decodePrefix fuel bs = (decodePrefix bs).mapError .refused ∧
        Position.decode fuel bs = (decode bs).mapError .refused := by
  refine ⟨fun item n h => decodePrefix_ok h, fun item h => ?_, fun fuel hfuel => ?_⟩
  · have hbs := encode_of_decode h
    refine ⟨hbs, fun bs' h' => ?_⟩
    rw [← encode_of_decode h', hbs]
  · have hread := (Position.decode_eq fuel).1 bs hfuel
    exact ⟨hread, Position.decode_eq_of_prefix hread⟩

/-- A list of a byte that needs an opening, one that needs none, and an empty list, with one more byte
after it; and a list cut off inside its only item. -/
theorem reads_only_encodings_of_nested :
    let bs : Bytes := [0xc4, 0x81, 0x80, 0x7f, 0xc0]
    let item : Item := .list [.bytes [0x80], .bytes [0x7f], .list []]
    decodePrefix (bs ++ [0xff]) = .ok (item, 5) ∧ item.encode = (bs ++ [0xff]).take 5 ∧
      decode bs = .ok item ∧ (∀ bs', decode bs' = .ok item → bs' = bs) ∧
      decode [0xc1, 0x81] = .error .unexpectedEnd := by
  intro bs item
  have hfirst : ∀ rest, decodeFirst (bs ++ rest) = .ok (item, rest) := decodeFirst_encode item (by decide)
  have hread : decodePrefix (bs ++ [0xff]) = .ok (item, 5) := by
    rw [decodePrefix, hfirst]
    rfl
  have hall : decode bs = .ok item := by
    rw [decode, ← List.append_nil bs, hfirst]
  obtain ⟨-, -, htake⟩ := (reads_only_encodings (bs ++ [0xff])).1 item 5 hread
  obtain ⟨-, honly⟩ := (reads_only_encodings bs).2.1 item hall
  obtain ⟨-, hcut⟩ := (reads_only_encodings [0xc1, 0x81]).2.2 5 (by decide)
  have hrefused : Position.decode 5 [0xc1, 0x81] = .error (.refused .unexpectedEnd) := rfl
  refine ⟨hread, htake, hall, honly, ?_⟩
  rw [hrefused] at hcut
  cases hd : decode [0xc1, 0x81] with
  | error cause =>
    rw [hd] at hcut
    cases hcut
    rfl
  | ok item =>
    rw [hd] at hcut
    cases hcut

end Item

end Rlp

end StateTransition
