import StateTransition.Block.Receipt
import StateTransition.Proofs.Block.Envelope

/-! Logs and receipts as items and back. The first field of a receipt tells its outcome: nothing for a
failure, one for a success, and a digest for the root of a state. -/
namespace StateTransition

open Rlp.Item

theorem Bloom.toBytes_eq_iff {b : Bloom} {bs : Bytes} : b.toBytes = bs ↔ bs.length = 256 ∧ ofBytes bs = b :=
  Bytes.ofNatPadded_eq_iff rfl

@[simp] theorem Bloom.ofBytes_toBytes (b : Bloom) : ofBytes b.toBytes = b := (toBytes_eq_iff.mp rfl).2

@[simp] theorem Bloom.toFixed_toBytes (b : Bloom) : (bytes b.toBytes).toFixed 256 = .ok b.toBytes :=
  toFixed_eq_ok_iff.mpr ⟨rfl, (toBytes_eq_iff.mp rfl).1⟩

/-- Filters that are put together on top of another one are put together first. -/
private theorem Bloom.foldl_or {α : Type} (f : α → Bloom) (l : List α) (b : Bloom) :
    l.foldl (fun b x => b ||| f x) b = b ||| l.foldl (fun b x => b ||| f x) 0 := by
  induction l generalizing b with
  | nil => exact BitVec.or_zero.symm
  | cons x l ih =>
    have hfirst : 0 ||| f x = f x := BitVec.zero_or
    rw [List.foldl_cons, ih, List.foldl_cons, ih (0 ||| f x), hfirst, BitVec.or_assoc]

theorem Log.bloomOf_append (l l' : List Log) : bloomOf (l ++ l') = bloomOf l ||| bloomOf l' := by
  rw [bloomOf, List.foldl_append]
  exact Bloom.foldl_or Log.bloom l' _

theorem Log.bloomOf_flatMap {α : Type} (f : α → List Log) (l : List α) :
    l.foldl (fun b x => b ||| bloomOf (f x)) 0 = bloomOf (l.flatMap f) := by
  induction l with
  | nil => rfl
  | cons x l ih =>
    have hfirst : 0 ||| bloomOf (f x) = bloomOf (f x) := BitVec.zero_or
    rw [List.foldl_cons, Bloom.foldl_or, hfirst, ih, List.flatMap_cons, bloomOf_append]

private theorem Log.ofItem_eq_ok_iff {item : Rlp.Item} {l : Log} : ofItem item = .ok l ↔ item = l.toItem := by
  simp only [ofItem, bind_eq_ok_iff, toListOf_eq_ok_iff]
  constructor
  · rintro ⟨fields, ⟨rfl, -⟩, h⟩
    split at h
    · simp only [bind_eq_ok_iff, toAddress_eq_ok_iff, toListWith_eq_ok_iff toHash_eq_ok_iff,
        toBytes_eq_ok_iff, pure_eq_ok_iff] at h
      obtain ⟨address, rfl, topics, rfl, data, rfl, rfl⟩ := h
      rfl
    · cases h
  · rintro rfl
    have htopics : (list (l.topics.map ofHash)).toListWith toHash = .ok l.topics :=
      toListWith_map fun topic _ => toHash_ofHash topic
    refine ⟨_, ⟨rfl, rfl⟩, ?_⟩
    simp only [toAddress_ofAddress, htopics, toBytes_bytes]
    rfl

/-- No byte string stands for two outcomes, since a digest is neither empty nor a single byte. -/
private theorem ReceiptOutcome.ofItem_eq_ok_iff {item : Rlp.Item} {o : ReceiptOutcome} :
    ofItem item = .ok o ↔ item = o.toItem := by
  simp only [ofItem, bind_eq_ok_iff, toBytes_eq_ok_iff]
  constructor
  · rintro ⟨bs, rfl, h⟩
    split at h
    · cases h
      rfl
    · cases h
      rfl
    · obtain ⟨root, hroot, h⟩ := ok_of_bind h
      cases h
      exact toHash_eq_ok_iff.mp hroot
  · rintro rfl
    cases o with
    | stateRoot root =>
      have hlen : root.toBytes.length = 32 := Bytes.length_ofNatPadded _ _
      refine ⟨root.toBytes, rfl, ?_⟩
      split
      · next hnil => simp [hnil] at hlen
      · next hone => simp [hone] at hlen
      · exact bind_eq_ok_iff.mpr ⟨root, toHash_ofHash root, rfl⟩
    | status success =>
      cases success with
      | false => exact ⟨[], rfl, rfl⟩
      | true => exact ⟨[1], rfl, rfl⟩

private theorem ReceiptOutcome.toItem_injective : Function.Injective toItem :=
  injective_of_eq_ok_iff ofItem_eq_ok_iff

/-- The outcomes and their three forms, of which the last has the length of a digest. -/
private theorem ReceiptOutcome.toItem_cases (o : ReceiptOutcome) :
    o.toItem = .bytes [] ∨ o.toItem = .bytes [1] ∨
      ∃ digest : Bytes, digest.length = 32 ∧ o.toItem = .bytes digest := by
  cases o with
  | stateRoot root => exact Or.inr (Or.inr ⟨root.toBytes, Bytes.length_ofNatPadded _ _, rfl⟩)
  | status success =>
    cases success with
    | false => exact Or.inl rfl
    | true => exact Or.inr (Or.inl rfl)

namespace Receipt

private theorem ofPayload_eq_ok_iff {item : Rlp.Item} {type : TransactionType} {r : Receipt} :
    ofPayload type item = .ok r ↔ r.type = type ∧ item = r.payload := by
  simp only [ofPayload, bind_eq_ok_iff, toListOf_eq_ok_iff]
  constructor
  · rintro ⟨fields, ⟨rfl, -⟩, h⟩
    split at h
    · simp only [bind_eq_ok_iff, ReceiptOutcome.ofItem_eq_ok_iff, toCount_eq_ok_iff, toFixed_eq_ok_iff,
        toListWith_eq_ok_iff Log.ofItem_eq_ok_iff, pure_eq_ok_iff] at h
      obtain ⟨outcome, rfl, cumulativeGas, rfl, bloom, ⟨rfl, hbloom⟩, logs, rfl, rfl⟩ := h
      have hb : (Bloom.ofBytes bloom).toBytes = bloom := Bloom.toBytes_eq_iff.mpr ⟨hbloom, rfl⟩
      exact ⟨rfl, by rw [payload, hb]⟩
    · cases h
  · rintro ⟨rfl, rfl⟩
    have houtcome := ReceiptOutcome.ofItem_eq_ok_iff.mpr (rfl : r.outcome.toItem = _)
    have hlogs : (list (r.logs.map Log.toItem)).toListWith Log.ofItem = .ok r.logs :=
      toListWith_map fun _ _ => Log.ofItem_eq_ok_iff.mpr rfl
    refine ⟨_, ⟨rfl, rfl⟩, ?_⟩
    simp only [houtcome, toCount_ofCount, Bloom.toFixed_toBytes, hlogs, ok_bind, Bloom.ofBytes_toBytes]
    rfl

private theorem decode_encode (r : Receipt) (h : r.encode.length < countLimit) : decode r.encode = .ok r := by
  have hread : ofPayload r.type r.payload = .ok r := ofPayload_eq_ok_iff.mpr ⟨rfl, rfl⟩
  exact TransactionType.openEnvelope_envelop h hread

private theorem encode_of_decode {bs : Bytes} {r : Receipt} (h : decode bs = .ok r) : r.encode = bs := by
  obtain ⟨type, item, -, -, hread, hbs, -, -⟩ := TransactionType.openEnvelope_ok h
  obtain ⟨rfl, rfl⟩ := ofPayload_eq_ok_iff.mp hread
  exact hbs

/-- The first field of a list that is read as a receipt is the item of its outcome. -/
private theorem outcome_toItem_of_ofPayload {type : TransactionType} {first : Rlp.Item} {rest : List Rlp.Item}
    {r : Receipt} (h : ofPayload type (.list (first :: rest)) = .ok r) : r.outcome.toItem = first := by
  obtain ⟨-, hitem⟩ := ofPayload_eq_ok_iff.mp h
  exact (List.cons.inj (Rlp.Item.list.inj hitem)).1.symm

/-- Receipts whose envelope takes less than 2 ^ 64 bytes (a buffer holds no more, and a length beyond has no
opening) are read back, and whatever is read as a receipt is its envelope. A list of fields is accepted only
if its first is empty, the byte one or as long as a digest, and each of these is read as one outcome: a
failure, a success, or the root with that digest. -/
theorem receipt_exact :
    (∀ r : Receipt, r.encode.length < countLimit → decode r.encode = .ok r) ∧
      (∀ bs r, decode bs = .ok r → r.encode = bs) ∧
      ∀ type first rest r, ofPayload type (.list (first :: rest)) = .ok r →
        (first = .bytes [] ∨ first = .bytes [1] ∨ ∃ digest : Bytes, digest.length = 32 ∧ first = .bytes digest) ∧
          (first = .bytes [] ↔ r.outcome = .status false) ∧
          (first = .bytes [1] ↔ r.outcome = .status true) ∧
          ∀ root : Hash, first = .bytes root.toBytes ↔ r.outcome = .stateRoot root := by
  refine ⟨decode_encode, fun bs r h => encode_of_decode h, fun type first rest r h => ?_⟩
  obtain rfl := outcome_toItem_of_ofPayload h
  have hinj : ∀ o : ReceiptOutcome, r.outcome.toItem = o.toItem ↔ r.outcome = o :=
    fun _ => ReceiptOutcome.toItem_injective.eq_iff
  exact ⟨r.outcome.toItem_cases, hinj (.status false), hinj (.status true), fun root => hinj (.stateRoot root)⟩

/-- A root that as a number is one, and a log without topics beside one with a topic. -/
theorem receipt_exact_of_root :
    let r : Receipt := .ofLogs .accessList (.stateRoot 1) 0x80 [⟨0x2a, [0], [0x7f]⟩, ⟨0, [], []⟩]
    r.encode.length < countLimit ∧ decode r.encode = .ok r ∧ (∀ bs, decode bs = .ok r → r.encode = bs) ∧
      ∀ type first rest, ofPayload type (.list (first :: rest)) = .ok r →
        first = .bytes (Hash.toBytes 1) ∧ first ≠ .bytes [1] := by
  intro r
  have hlen : r.encode.length < countLimit := by decide +kernel
  obtain ⟨hread, honly, hfirst⟩ := receipt_exact
  refine ⟨hlen, hread r hlen, fun bs => honly bs r, fun type first rest h => ?_⟩
  obtain ⟨-, -, hone, hroot⟩ := hfirst type first rest r h
  exact ⟨(hroot 1).mpr rfl, fun h1 => ReceiptOutcome.noConfusion (hone.mp h1)⟩

end Receipt

end StateTransition
