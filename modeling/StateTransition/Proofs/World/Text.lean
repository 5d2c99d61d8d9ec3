import StateTransition.World.Alloc
import StateTransition.Proofs.Json
import StateTransition.Proofs.Numeral

/-! The texts of an allocation: words, counts and byte strings are read back as they were written, so no two
of them are written alike. -/
namespace StateTransition

namespace Hex

private theorem stripMark_mark (s : String) : stripMark ("0x" ++ s) = s := by simp [stripMark]

private theorem stripMark_encode (bs : Bytes) : stripMark (encode bs) = digits bs := stripMark_mark _

private theorem digitChar_ne (n : Nat) : digitChar n ≠ 'x' := by
  have h : ∀ m : Fin 16, Nat.digitChar m ≠ 'x' := by decide
  exact h ⟨n % 16, Nat.mod_lt n (by decide)⟩

private theorem stripMark_digits (bs : Bytes) : stripMark (digits bs) = digits bs := by
  unfold stripMark
  split
  · next rest h =>
    rw [toList_digits] at h
    cases bs with
    | nil => cases h
    | cons b bs => exact absurd (List.cons.inj (List.cons.inj h).2).1 (digitChar_ne b.toNat)
  · rfl

private theorem utf8ByteSize_digits (bs : Bytes) : (digits bs).utf8ByteSize = 2 * bs.length := by
  rw [← length_bytesOfBuffer_digits bs]
  rfl

private theorem decode_encode (bs : Bytes) : decode (encode bs) = .ok bs := by
  rw [decode, stripMark_encode, decodeDigits_digits]

end Hex

private theorem Quantity.hexDigit?_digitChar {n : Nat} (h : n < 16) : hexDigit? (Nat.digitChar n) = some n := by
  have hdigits : ∀ m : Fin 16, hexDigit? (Nat.digitChar m) = some m.val := by decide
  exact hdigits ⟨n, h⟩

private theorem Word.length_toBytesTrimmed_le (w : Word) : w.toBytesTrimmed.length ≤ 32 := by
  rw [toBytesTrimmed, Bytes.length_ofNat]
  exact Bytes.byteLength_le_of_lt_pow w.isLt

namespace Alloc

theorem readWord_writeWord (w : Word) : readWord (writeWord w) = .ok w := by
  rw [writeWord]
  split
  · next hzero =>
    subst hzero
    decide +kernel
  · have hlen := w.length_toBytesTrimmed_le
    have hfew : ¬64 < (Hex.digits w.toBytesTrimmed).utf8ByteSize := by
      rw [Hex.utf8ByteSize_digits]
      omega
    have heven : (Hex.digits w.toBytesTrimmed).utf8ByteSize % 2 = 0 := by
      rw [Hex.utf8ByteSize_digits]
      omega
    simp only [readWord, Hex.stripMark_encode, Hex.stripMark_digits, if_neg hfew, if_pos heven,
      Hex.decodeDigits_digits]
    rw [Word.toBytesTrimmed, Bytes.toNat_ofNat, BitVec.ofNat_toNat, BitVec.setWidth_eq]

private theorem countOnto_append (n : Nat) (cs cs' : List Char) :
    countOnto n (cs ++ cs') = countOnto n cs >>= fun m => countOnto m cs' := by
  induction cs generalizing n with
  | nil => rfl
  | cons c cs ih =>
    rw [List.cons_append, countOnto, countOnto]
    cases Quantity.hexDigit? c with
    | none => rfl
    | some d =>
      dsimp only
      split
      · exact ih _
      · rfl

/-- The last digit of a numeral comes after the numeral of all but the last. -/
private theorem countOnto_toDigits {n : Nat} (h : n < countLimit) : countOnto 0 (Nat.toDigits 16 n) = .ok n := by
  induction n using Nat.strongRecOn with
  | ind n ih =>
    rw [Nat.toDigits_eq_if (by decide)]
    split
    · next hsmall => simp [countOnto, Quantity.hexDigit?_digitChar hsmall, h]
    · next hlarge =>
      have hlast : n % 16 < 16 := Nat.mod_lt n (by decide)
      have hsum : n / 16 * 16 + n % 16 = n := by omega
      rw [countOnto_append, ih (n / 16) (by omega) (by omega)]
      simp [bind, Except.bind, countOnto, Quantity.hexDigit?_digitChar hlast, hsum, h]

private theorem readCount_of_countOnto {s : String} {n : Nat} (h : countOnto 0 (Hex.stripMark s).toList = .ok n) :
    readCount s = .ok n.toUInt64 := by
  unfold readCount
  split
  · next hs =>
    rw [hs] at h
    cases h
    rfl
  · next hs =>
    rw [hs] at h
    cases h
  · next hs =>
    rw [hs] at h
    cases h
  · rw [h]
    rfl

theorem readCount_writeCount (n : UInt64) : readCount (writeCount n) = .ok n := by
  have hdigits : (Hex.stripMark (writeCount n)).toList = Nat.toDigits 16 n.toNat := by
    rw [writeCount, Hex.ofNat, Hex.stripMark_mark, String.toList_ofList]
  rw [readCount_of_countOnto (hdigits ▸ countOnto_toDigits n.toNat_lt), Nat.toUInt64, UInt64.ofNat_toNat]

theorem readBytes_writeBytes (bs : Bytes) : readBytes (writeBytes bs) = .ok bs := by
  rw [readBytes, writeBytes, Hex.decode_encode]
  rfl

/-! ### Texts in documents -/

section Documents

variable {α : Type} {read : String → Except TextFault α} {write : α → String}

/-- What is written of a value is read as that value, also where it stands in a document. -/
def Inverts (read : String → Except TextFault α) (write : α → String) : Prop :=
  ∀ a, read (write a) = .ok a ∧ (textReader read).run (Json.string (write a)).compact = .ok a

private theorem run_textReader {s : String} {a : α} (h : read s = .ok a) :
    (textReader read).run (Json.string s).compact = .ok a := by
  obtain ⟨offset, htext⟩ := Json.Reader.text_quote s [] 0
  rw [List.append_nil] at htext
  have hspelled : spelled read s = .ok a := by
    rw [spelled, h]
    rfl
  apply Json.Reader.run_eq_ok
  simp only [Json.compact, Json.Cursor.ofText, textReader, bind, EStateM.bind, htext, Json.Reader.spelled, hspelled]
  rfl

namespace Inverts

theorem of_read (h : ∀ a, read (write a) = .ok a) : Inverts read write := fun a => ⟨h a, run_textReader (h a)⟩

theorem injective (h : Inverts read write) : Function.Injective write := fun a b hab => by
  have ha := (h a).1
  rw [hab, (h b).1] at ha
  exact (Except.ok.inj ha).symm

end Inverts

end Documents

end Alloc

end StateTransition
