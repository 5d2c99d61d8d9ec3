import Mathlib.Data.Nat.Bitwise
import StateTransition.Proofs.Block.Receipt

/-! Bloom filters as sets of positions. A position is put in as one bit of one byte and looked up there. The filter of logs
has the positions of their addresses and topics and no others, so it does not matter how the logs are ordered or grouped. -/
namespace StateTransition

namespace Bloom

variable {b c : Bloom} {i j : Nat} {x : Bytes}

/-! ### Positions in bytes -/

private theorem lt_of_mem_positions (h : i ∈ positions x) : i < 2048 := by
  obtain ⟨shift, -, rfl⟩ := List.mem_map.mp h
  exact Nat.mod_lt _ (by decide)

private theorem toNat_bit : ∀ r < 8, ((1 : UInt8) <<< r.toUInt8).toNat = 2 ^ r := by decide

private theorem toNat_place (i : Nat) : (place i).2.toNat = 2 ^ (i % 8) := toNat_bit _ (Nat.mod_lt _ (by decide))

/-- The byte of a position counted from the last one. -/
private theorem sub_place (h : i < 2048) : 255 - (place i).1 = i / 8 := by
  dsimp only [place]
  omega

private theorem getLsbD_setBits_place (hi : i < 2048) :
    (b.setBits (place i).1 (place i).2).getLsbD j = true ↔ b.getLsbD j = true ∨ j = i := by
  have hbit : (BitVec.ofNat 2048 (2 ^ (i % 8)) <<< (8 * (i / 8))).getLsbD j = true ↔ j = i := by
    simp only [BitVec.getLsbD_shiftLeft, BitVec.getLsbD_ofNat, Nat.testBit_two_pow, Bool.and_eq_true,
      Bool.not_eq_true', decide_eq_true_eq, decide_eq_false_iff_not]
    omega
  rw [setBits, BitVec.getLsbD_or, Bool.or_eq_true, toNat_place, sub_place hi, hbit]

private theorem toNat_byteAt (b : Bloom) (k : Nat) : (b.byteAt k).toNat = (b >>> (8 * (255 - k))).toNat % 2 ^ 8 := rfl

/-- The mask of a position leaves of its byte the bit at the position. -/
private theorem byteAt_place (hi : i < 2048) : b.byteAt (place i).1 &&& (place i).2 ≠ 0 ↔ b.getLsbD i = true := by
  have hmod : i % 8 < 8 := Nat.mod_lt _ (by decide)
  have hbyte : (b.byteAt (place i).1 &&& (place i).2).toNat = (b.getLsbD i).toNat * 2 ^ (i % 8) := by
    rw [UInt8.toNat_and, toNat_place, Nat.and_two_pow, toNat_byteAt, sub_place hi, Nat.testBit_mod_two_pow,
      decide_eq_true hmod, Bool.true_and, BitVec.testBit_toNat, BitVec.getLsbD_ushiftRight, Nat.div_add_mod]
  rw [← UInt8.toNat_inj.ne, hbyte]
  cases b.getLsbD i <;> simp

private theorem getElem?_toBytes {k : Nat} (hk : k < 256) : b.toBytes[k]? = some (b.byteAt k) := by
  rw [toBytes, Bytes.getElem?_ofNatPadded hk, byteAt, BitVec.toNat_ushiftRight]

/-- Filters are put together byte by byte. -/
private theorem byteAt_or (b c : Bloom) (k : Nat) : (b ||| c).byteAt k = b.byteAt k ||| c.byteAt k := by
  rw [← UInt8.toNat_inj, UInt8.toNat_or, toNat_byteAt, toNat_byteAt, toNat_byteAt, BitVec.ushiftRight_or_distrib,
    BitVec.toNat_or, Nat.or_mod_two_pow]

/-! ### Filters as sets -/

private theorem contains_iff : b.contains x = true ↔ ∀ i ∈ positions x, b.getLsbD i = true := by
  rw [contains, List.all_eq_true]
  refine forall₂_congr fun i hi => ?_
  rw [decide_eq_true_eq, byteAt_place (lt_of_mem_positions hi)]

private theorem getLsbD_foldl_setBits {is : List Nat} (h : ∀ i ∈ is, i < 2048) :
    (is.foldl (fun b i => b.setBits (place i).1 (place i).2) b).getLsbD j = true ↔ b.getLsbD j = true ∨ j ∈ is := by
  induction is generalizing b with
  | nil => simp
  | cons i is ih =>
    obtain ⟨hi, his⟩ := List.forall_mem_cons.mp h
    rw [List.foldl_cons, ih his, getLsbD_setBits_place hi, List.mem_cons, or_assoc]

private theorem getLsbD_add : (b.add x).getLsbD j = true ↔ b.getLsbD j = true ∨ j ∈ positions x :=
  getLsbD_foldl_setBits fun _ => lt_of_mem_positions

private theorem getLsbD_foldl_add {xs : List Bytes} :
    (xs.foldl add b).getLsbD j = true ↔ b.getLsbD j = true ∨ ∃ x ∈ xs, j ∈ positions x := by
  induction xs generalizing b with
  | nil => simp
  | cons x xs ih => simp only [List.foldl_cons, ih, getLsbD_add, List.mem_cons, exists_eq_or_imp, or_assoc]

private theorem getLsbD_foldl_or {α : Type} {f : α → Bloom} {l : List α} :
    (l.foldl (fun b a => b ||| f a) b).getLsbD j = true ↔ b.getLsbD j = true ∨ ∃ a ∈ l, (f a).getLsbD j = true := by
  induction l generalizing b with
  | nil => simp
  | cons a l ih =>
    simp only [List.foldl_cons, ih, BitVec.getLsbD_or, Bool.or_eq_true, List.mem_cons, exists_eq_or_imp, or_assoc]

private theorem eq_of_positions (h : ∀ i, b.getLsbD i = true ↔ c.getLsbD i = true) : b = c :=
  BitVec.eq_of_getLsbD_eq fun i _ => Bool.eq_iff_iff.mpr (h i)

/-- The filter with byte strings and other filters put in, one after the other. -/
def extend (b : Bloom) (steps : List (Bytes ⊕ Bloom)) : Bloom :=
  steps.foldl (fun b step => step.elim b.add (b ||| ·)) b

/-- What may have been added stays so. -/
private theorem contains_extend (h : b.contains x = true) (steps : List (Bytes ⊕ Bloom)) :
    (b.extend steps).contains x = true := by
  induction steps generalizing b with
  | nil => exact h
  | cons step steps ih =>
    refine ih (contains_iff.mpr fun i hi => ?_)
    have hbit := contains_iff.mp h i hi
    cases step with
    | inl y => exact getLsbD_add.mpr (.inl hbit)
    | inr c => exact (BitVec.getLsbD_or ..).trans (Bool.or_eq_true_iff.mpr (.inl hbit))

end Bloom

namespace Log

open Bloom

def entries (l : Log) : List Bytes := l.address.toBytes :: l.topics.map Hash.toBytes

private theorem bloom_eq (l : Log) : l.bloom = l.entries.foldl Bloom.add 0 := by
  rw [bloom, entries, List.foldl_cons, List.foldl_map]

/-- The positions of a filter of logs are those of what the logs enter. -/
private theorem getLsbD_bloomOf {logs : List Log} {j : Nat} :
    (bloomOf logs).getLsbD j = true ↔ ∃ l ∈ logs, ∃ x ∈ l.entries, j ∈ positions x := by
  have hlog (l : Log) : l.bloom.getLsbD j = true ↔ ∃ x ∈ l.entries, j ∈ positions x := by
    rw [bloom_eq, getLsbD_foldl_add]
    simp
  rw [bloomOf, getLsbD_foldl_or]
  simp [hlog]

private theorem contains_bloomOf {logs : List Log} {l : Log} {x : Bytes} (hl : l ∈ logs) (hx : x ∈ l.entries) :
    (bloomOf logs).contains x = true :=
  contains_iff.mpr fun _ hi => getLsbD_bloomOf.mpr ⟨l, hl, x, hx, hi⟩

private theorem bloomOf_perm {logs logs' : List Log} (h : logs.Perm logs') : bloomOf logs = bloomOf logs' := by
  refine eq_of_positions fun i => ?_
  simp only [getLsbD_bloomOf, h.mem_iff]

private theorem bloomOf_flatten (groups : List (List Log)) :
    bloomOf groups.flatten = groups.foldl (fun b logs => b ||| bloomOf logs) 0 :=
  (congrArg bloomOf List.flatMap_id).symm.trans (bloomOf_flatMap id groups).symm

/-- A bit in the bytes of a filter of logs is where a position of an entry lies. -/
private theorem place_of_bit {logs : List Log} {k r : Nat} {byte : UInt8}
    (hbyte : (bloomOf logs).toBytes[k]? = some byte)
    (hr : r < 8) (hbit : byte &&& 1 <<< r.toUInt8 ≠ 0) :
    ∃ l ∈ logs, ∃ x ∈ l.entries, ∃ i ∈ positions x, place i = (k, 1 <<< r.toUInt8) := by
  obtain ⟨hk, -⟩ := List.getElem?_eq_some_iff.mp hbyte
  rw [toBytes, Bytes.length_ofNatPadded] at hk
  rw [getElem?_toBytes hk, Option.some.injEq] at hbyte
  have hplace : place (8 * (255 - k) + r) = (k, 1 <<< r.toUInt8) := by
    rw [place, Prod.mk.injEq, Nat.mul_add_mod, Nat.mod_eq_of_lt hr]
    exact ⟨by omega, rfl⟩
  have hset : (bloomOf logs).getLsbD (8 * (255 - k) + r) = true := by
    rwa [← byteAt_place (by omega), hplace, hbyte]
  obtain ⟨l, hl, x, hx, hi⟩ := getLsbD_bloomOf.mp hset
  exact ⟨l, hl, x, hx, _, hi, hplace⟩

/-- The filter of logs may contain the address and every topic of each of them, and each bit of its bytes is where a
position of one of these lies. Filters of parts are put together byte by byte to the filter of all, in whatever order and
grouping. What a filter may contain it may contain after anything was added. -/
theorem bloom_exact :
    (∀ logs : List Log, ∀ l ∈ logs, ∀ x ∈ l.entries, (bloomOf logs).contains x = true) ∧
      (∀ logs logs' : List Log, bloomOf (logs ++ logs') = bloomOf logs ||| bloomOf logs') ∧
      (∀ (b c : Bloom) (k : Nat), (b ||| c).byteAt k = b.byteAt k ||| c.byteAt k) ∧
      (∀ logs logs' : List Log, logs.Perm logs' → bloomOf logs = bloomOf logs') ∧
      (∀ groups : List (List Log), bloomOf groups.flatten = groups.foldl (fun b logs => b ||| bloomOf logs) 0) ∧
      (∀ (logs : List Log) (k r : Nat) (byte : UInt8), (bloomOf logs).toBytes[k]? = some byte → r < 8 →
        byte &&& 1 <<< r.toUInt8 ≠ 0 →
        ∃ l ∈ logs, ∃ x ∈ l.entries, ∃ i ∈ positions x, place i = (k, 1 <<< r.toUInt8)) ∧
      ∀ (b : Bloom) (x : Bytes), b.contains x = true → ∀ steps, (b.extend steps).contains x = true :=
  ⟨fun _ _ hl _ hx => contains_bloomOf hl hx, bloomOf_append, byteAt_or, fun _ _ => bloomOf_perm, bloomOf_flatten,
    fun _ _ _ _ => place_of_bit, fun _ _ => contains_extend⟩

/-- The fourth bit of the twelfth byte is where a position of the first address lies. -/
theorem bloom_exact_of_two_logs :
    let first : Log := ⟨0x2a, [1], [0x7f, 2]⟩
    let second : Log := ⟨7, [], []⟩
    let b := bloomOf [first, second]
    b.contains (Hash.toBytes 1) = true ∧ bloomOf [second, first] = b ∧
      (b.extend [.inl [3], .inr 0]).contains (Hash.toBytes 1) = true ∧
      b.toBytes[11]? = some (b.byteAt 11) ∧ b.byteAt 11 &&& 1 <<< (3 : Nat).toUInt8 ≠ 0 ∧
      ∃ l ∈ [first, second], ∃ x ∈ l.entries, ∃ i ∈ positions x, place i = (11, 1 <<< (3 : Nat).toUInt8) := by
  intro first second b
  obtain ⟨hmember, -, -, hperm, -, hbits, hlater⟩ := bloom_exact
  have hposition : 1955 ∈ positions first.address.toBytes := by decide +kernel
  have htopic : b.contains (Hash.toBytes 1) = true := hmember [first, second] first (.head _) _ (.tail _ (.head _))
  have hbyte : b.toBytes[11]? = some (b.byteAt 11) := getElem?_toBytes (by decide)
  have hplace : place 1955 = (11, 1 <<< (3 : Nat).toUInt8) := by decide
  have hset : b.getLsbD 1955 = true := getLsbD_bloomOf.mpr ⟨first, .head _, _, .head _, hposition⟩
  have hbit : b.byteAt 11 &&& 1 <<< (3 : Nat).toUInt8 ≠ 0 := by
    rwa [← byteAt_place (by decide), hplace] at hset
  exact ⟨htopic, hperm _ _ (.swap first second []), hlater b _ htopic _, hbyte, hbit,
    hbits [first, second] 11 3 _ hbyte (by decide) hbit⟩

end Log

end StateTransition
