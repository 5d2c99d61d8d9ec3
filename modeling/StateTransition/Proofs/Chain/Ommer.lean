import StateTransition.Proofs.Block.Codec
import StateTransition.Proofs.Chain.EmptyBlock
import StateTransition.Proofs.Keccak
import StateTransition.Proofs.Trie.Hashed

/-! Ommers over the whole history of a chain. A block looks for an ommer among the last seven blocks and what
they include; an ommer cannot be further back than six blocks, and its number tells how far it is. -/
namespace StateTransition

/-- Nothing comes again in a list in which nothing was found to. -/
private theorem nodup_of_firstRepeat {seen hashes : List Hash} (h : firstRepeat seen hashes = none) :
    hashes.Nodup ∧ ∀ x ∈ hashes, x ∉ seen := by
  induction hashes generalizing seen with
  | nil => exact ⟨List.nodup_nil, by simp⟩
  | cons x rest ih =>
    rw [firstRepeat] at h
    split at h
    · cases h
    · next hx =>
      obtain ⟨hnodup, hseen⟩ := ih h
      refine ⟨List.nodup_cons.mpr ⟨fun hmem => hseen x hmem (.head _), hnodup⟩, ?_⟩
      rw [List.forall_mem_cons]
      exact ⟨hx, fun y hy hmem => hseen y hy (.tail _ hmem)⟩

namespace Header

variable {s : Schedule} {recent : List Block} {h ommer : Header} {ommers : List Header}

private theorem checkOmmer_eq_ok_iff :
    checkOmmer s recent h ommer = .ok () ↔
      1 ≤ h.number.toNat - ommer.number.toNat ∧ h.number.toNat - ommer.number.toNat ≤ maxOmmerAge ∧
        (∃ parent, recent[h.number.toNat - ommer.number.toNat]? = some parent ∧
          ommer.validate s parent.header = .ok ()) ∧
        ommer.hash ≠ h.hash ∧ ommer.hash ∉ (recent.take (maxOmmerAge + 1)).map Block.hash ∧
        (ommer.hash ∉ (recent.take (maxOmmerAge + 1)).flatMap fun b => b.ommers.map Header.hash) ∧
        ommer.parentHash ∈ (recent.take (maxOmmerAge + 1)).map Block.hash ∧ ommer.parentHash ≠ h.parentHash := by
  constructor
  · intro hok
    unfold checkOmmer at hok
    obtain ⟨hage, hok⟩ := ok_of_guard hok
    simp only [Bool.or_eq_true, decide_eq_true_eq, not_or, Nat.not_lt] at hage
    cases hparent : recent[h.number.toNat - ommer.number.toNat]? with
    | none =>
      rw [hparent] at hok
      cases hok
    | some parent =>
      rw [hparent] at hok
      cases hvalid : ommer.validate s parent.header with
      | error cause =>
        simp only [hvalid] at hok
        cases hok
      | ok =>
        simp only [hvalid] at hok
        obtain ⟨hcanonical, hok⟩ := ok_of_guard hok
        obtain ⟨hincluded, hok⟩ := ok_of_guard hok
        obtain ⟨hknown, hok⟩ := ok_of_guard hok
        simp only [Bool.or_eq_true, decide_eq_true_eq, not_or] at hcanonical
        refine ⟨hage.1, hage.2, ⟨parent, rfl, hvalid⟩, hcanonical.1, hcanonical.2, hincluded,
          Decidable.not_not.mp hknown, fun hsibling => ?_⟩
        rw [if_pos hsibling] at hok
        cases hok
  · rintro ⟨hpos, hage, ⟨parent, hparent, hvalid⟩, hother, hcanonical, hincluded, hknown, hsibling⟩
    unfold checkOmmer
    refine (if_neg (by simp only [Bool.or_eq_true, decide_eq_true_eq]; omega)).trans ?_
    rw [hparent]
    simp only [hvalid]
    refine (if_neg (by simp only [Bool.or_eq_true, decide_eq_true_eq, hother, hcanonical]; decide)).trans ?_
    exact (if_neg hincluded).trans ((if_neg (not_not.mpr hknown)).trans (if_neg hsibling))

/-- What the check of one ommer of a block ensures. -/
structure Includable (recent : List Block) (h ommer : Header) : Prop where
  number_lt : ommer.number.toNat < h.number.toNat
  number_le : h.number.toNat ≤ ommer.number.toNat + maxOmmerAge
  extraData : ommer.extraData.length ≤ maxExtraData
  other : ommer.hash ≠ h.hash
  notCanonical : ∀ b ∈ recent.take (maxOmmerAge + 1), ommer.hash ≠ b.hash
  notIncluded : ∀ b ∈ recent.take (maxOmmerAge + 1), ∀ o ∈ b.ommers, ommer.hash ≠ o.hash

private theorem checkOmmer_ok (hok : checkOmmer s recent h ommer = .ok ()) : Includable recent h ommer := by
  obtain ⟨hpos, hage, ⟨parent, -, hvalid⟩, hother, hcanonical, hincluded, -, -⟩ := checkOmmer_eq_ok_iff.mp hok
  simp only [List.mem_map, List.mem_flatMap, not_exists, not_and] at hcanonical hincluded
  exact
    { number_lt := by omega
      number_le := by omega
      extraData := (validate_ok hvalid).extraData
      other := hother
      notCanonical := fun b hb heq => hcanonical b hb heq.symm
      notIncluded := fun b hb o ho heq => hincluded b hb o ho heq.symm }

/-- What the check of all ommers of a block ensures. -/
structure Includes (recent : List Block) (h : Header) (ommers : List Header) : Prop where
  hash : h.ommersHash = hashOfOmmers ommers
  few : ommers.length ≤ maxOmmers
  nodup : (ommers.map Header.hash).Nodup
  each : ∀ ommer ∈ ommers, Includable recent h ommer

theorem validateOmmers_ok (hok : h.validateOmmers s recent ommers = .ok ()) : Includes recent h ommers := by
  unfold validateOmmers at hok
  obtain ⟨hhash, hok⟩ := ok_of_guard hok
  obtain ⟨hfew, hok⟩ := ok_of_guard hok
  cases hrepeat : firstRepeat [] (ommers.map Header.hash) with
  | some x =>
    rw [hrepeat] at hok
    cases hok
  | none =>
    rw [hrepeat] at hok
    exact
      { hash := (Decidable.not_not.mp hhash).symm
        few := Nat.le_of_not_lt hfew
        nodup := (nodup_of_firstRepeat hrepeat).1
        each := fun ommer hmem => checkOmmer_ok (ok_of_forM hok ommer hmem) }

/-- What the hash of an ommer is a digest of tells the header. -/
private theorem eq_of_hash_eq {S : Set Bytes} (hS : Set.InjOn keccak S) {h h' : Header} (hmem : h.encode ∈ S)
    (hmem' : h'.encode ∈ S) (hextra : h.extraData.length ≤ maxExtraData) (heq : h.hash = h'.hash) : h = h' :=
  eq_of_encode_eq (Nat.lt_of_le_of_lt hextra (by decide)) (hS hmem hmem' heq)

end Header

namespace Chain

variable {s : Schedule} {genesis b : Block} {world : World} {c c' : Chain} {blocks : List Block} {S : Set Bytes}

def headerEncodings (blocks : List Block) : Set Bytes :=
  {bs | ∃ b ∈ blocks, bs = b.header.encode ∨ ∃ o ∈ b.ommers, bs = o.encode}

def ommerHashes (blocks : List Block) : List Hash := blocks.flatMap fun b => b.ommers.map Header.hash

namespace Grown

/-- A block of the history that is few enough blocks back is among the latest that are kept. -/
private theorem mem_recent_take (hc : Grown s genesis world c blocks) (hb : b ∈ blocks) {k : Nat}
    (hk : k ≤ keptBlocks)
    (hnear : c.head.header.number.toNat < b.header.number.toNat + k) : b ∈ c.recent.take k := by
  obtain ⟨i, hi, rfl⟩ := List.getElem_of_mem hb
  have hnumber := hc.number_getElem i hi
  rw [hc.recent_eq, List.take_take, Nat.min_eq_left hk]
  exact List.mem_take_iff_getElem.mpr ⟨i, by omega, rfl⟩

private theorem number_le (hc : Grown s genesis world c blocks) (hb : b ∈ blocks) :
    b.header.number.toNat ≤ c.head.header.number.toNat := by
  obtain ⟨i, hi, rfl⟩ := List.getElem_of_mem hb
  have := hc.number_getElem i hi
  omega

/-- Every ommer is at least one block and at most six blocks older than the block that includes it. -/
private theorem ommer_age (hc : Grown s genesis world c blocks) (hgenesis : genesis.ommers = []) :
    ∀ b ∈ blocks, ∀ o ∈ b.ommers, o.number.toNat < b.header.number.toNat ∧
      b.header.number.toNat ≤ o.number.toNat + maxOmmerAge ∧ o.extraData.length ≤ maxExtraData := by
  induction hc with
  | start => simp [hgenesis]
  | append _ hb ih =>
    refine List.forall_mem_cons.mpr ⟨fun o ho => ?_, ih⟩
    have hincludable := (Header.validateOmmers_ok (append_ok hb).ommers).each o ho
    exact ⟨hincludable.number_lt, hincludable.number_le, hincludable.extraData⟩

/-! ### Without two headers of one hash -/

section

variable (hc : Grown s genesis world c blocks) (hb : c.append b = .ok c') (hS : Set.InjOn keccak S)
  (hmem : headerEncodings (b :: blocks) ⊆ S)

include hc hb hS hmem

private theorem ommer_not_canonical {o : Header} (ho : o ∈ b.ommers) {b' : Block} (hb' : b' ∈ blocks) :
    o.hash ≠ b'.hash := by
  intro heq
  have hlink := append_ok hb
  have hincludable := (Header.validateOmmers_ok hlink.ommers).each o ho
  have heq' := Header.eq_of_hash_eq hS (hmem ⟨b, .head _, .inr ⟨o, ho, rfl⟩⟩)
    (hmem ⟨b', .tail _ hb', .inl rfl⟩) hincludable.extraData heq
  have hnumber := hlink.follows.number
  have hle := hincludable.number_le
  rw [heq'] at hle
  exact hincludable.notCanonical b' (hc.mem_recent_take hb' (by decide) (by omega)) heq

variable (hgenesis : genesis.ommers = [])

include hgenesis

/-- The earlier block that included it would be among the last seven: its number is above that of the ommer,
and this is within six of the new block's. -/
private theorem ommer_not_included {o : Header} (ho : o ∈ b.ommers) {b' : Block} (hb' : b' ∈ blocks) {o' : Header}
    (ho' : o' ∈ b'.ommers) : o.hash ≠ o'.hash := by
  intro heq
  have hlink := append_ok hb
  have hincludable := (Header.validateOmmers_ok hlink.ommers).each o ho
  obtain rfl := Header.eq_of_hash_eq hS (hmem ⟨b, .head _, .inr ⟨o, ho, rfl⟩⟩)
    (hmem ⟨b', .tail _ hb', .inr ⟨o', ho', rfl⟩⟩) hincludable.extraData heq
  have hold := hc.ommer_age hgenesis b' hb' o ho'
  have hnumber := hlink.follows.number
  have hle := hincludable.number_le
  exact hincludable.notIncluded b' (hc.mem_recent_take hb' (by decide) (by omega)) o ho' rfl

/-- An ommer of an earlier block has too low a number to be the new block. -/
private theorem block_not_ommer {b' : Block} (hb' : b' ∈ blocks) {o : Header} (ho : o ∈ b'.ommers) :
    o.hash ≠ b.hash := by
  intro heq
  obtain ⟨hlt, -, hextra⟩ := hc.ommer_age hgenesis b' hb' o ho
  have heq' := Header.eq_of_hash_eq hS (hmem ⟨b', .tail _ hb', .inr ⟨o, ho, rfl⟩⟩)
    (hmem ⟨b, .head _, .inl rfl⟩) hextra heq
  have hnumber := (append_ok hb).follows.number
  have hle := hc.number_le hb'
  rw [heq'] at hlt
  omega

end

private theorem mem_ommerHashes {x : Hash} : x ∈ ommerHashes blocks ↔ ∃ b ∈ blocks, ∃ o ∈ b.ommers, o.hash = x := by
  simp only [ommerHashes, List.mem_flatMap, List.mem_map]

private theorem ommerHashes_distinct (hc : Grown s genesis world c blocks) (hgenesis : genesis.ommers = [])
    (hS : Set.InjOn keccak S) (hmem : headerEncodings blocks ⊆ S) :
    (ommerHashes blocks).Nodup ∧ ∀ b ∈ blocks, b.hash ∉ ommerHashes blocks := by
  induction hc with
  | start => simp [ommerHashes, hgenesis]
  | @append c c' b blocks hc hb ih =>
    have hbefore : headerEncodings blocks ⊆ S := fun bs ⟨b', hb', h⟩ => hmem ⟨b', .tail _ hb', h⟩
    obtain ⟨hnodup, hcanonical⟩ := ih hbefore
    obtain ⟨-, -, hown, hincludable⟩ := Header.validateOmmers_ok (append_ok hb).ommers
    constructor
    · apply List.nodup_append.mpr
      refine ⟨hown, hnodup, fun x hx y hy heq => ?_⟩
      obtain ⟨o, ho, rfl⟩ := List.mem_map.mp hx
      obtain ⟨b', hb', o', ho', rfl⟩ := mem_ommerHashes.mp hy
      exact ommer_not_included hc hb hS hmem hgenesis ho hb' ho' heq
    · intro b' hb' hx
      obtain ⟨b'', hb'', o, ho, heq⟩ := mem_ommerHashes.mp hx
      rcases List.mem_cons.mp hb'' with rfl | hold'' <;> rcases List.mem_cons.mp hb' with rfl | hold'
      · exact (hincludable o ho).other heq
      · exact ommer_not_canonical hc hb hS hmem ho hold' heq
      · exact block_not_ommer hc hb hS hmem hgenesis hold'' ho heq
      · exact hcanonical b' hold' (mem_ommerHashes.mpr ⟨b'', hold'', o, ho, heq⟩)

end Grown

/-- Over the whole history of a chain that began without ommers, every ommer is one to six blocks older than the
block that includes it; and no ommer is included twice or is a block of the chain itself, or two of the headers
have one digest. -/
theorem ommers_once (hc : Grown s genesis world c blocks) (hgenesis : genesis.ommers = []) :
    (∀ b ∈ blocks, ∀ o ∈ b.ommers, ∃ age, 1 ≤ age ∧ age ≤ 6 ∧
        o.number.toNat + age = b.header.number.toNat) ∧
      ((ommerHashes blocks).Nodup ∧ (∀ b ∈ blocks, b.hash ∉ ommerHashes blocks) ∨
        Trie.Collision (headerEncodings blocks)) := by
  constructor
  · intro b hb o ho
    obtain ⟨hlt, hle, -⟩ := hc.ommer_age hgenesis b hb o ho
    rw [maxOmmerAge] at hle
    exact ⟨b.header.number.toNat - o.number.toNat, by omega, by omega, by omega⟩
  · by_cases hcollision : Trie.Collision (headerEncodings blocks)
    · exact .inr hcollision
    · exact .inl (hc.ommerHashes_distinct hgenesis (Trie.injOn_of_not_collision hcollision) Set.Subset.rfl)

/-! ### An ommer -/

namespace Sample

/-- The header of a block that might have come second. -/
def uncle : Header := draft start 2 [] 0

def third : Chain := extended second 1 [uncle]

private theorem validateOmmers_child_of_one {recent : List Block} {coinbase : Address} {o : Header}
    (hok : Header.checkOmmer s recent (child c coinbase [o]).header o = .ok ()) :
    (child c coinbase [o]).header.validateOmmers s recent [o] = .ok () := by
  have hhash : (child c coinbase [o]).header.ommersHash = Header.hashOfOmmers [o] := by
    simp only [child, draft, sealedHeader]
  rw [Header.validateOmmers, hhash]
  refine (if_neg (not_not.mpr rfl)).trans ((if_neg (by rw [List.length_singleton]; decide)).trans ?_)
  exact bind_eq_ok_iff.mpr ⟨(), hok, rfl⟩

/-- The digests of the blocks before the third one. -/
private theorem hashes_before : Header.hashOfOmmers [] = emptyOmmersHash ∧
    start.head.hash = 4684357441653689751367633612013009913843834845411079447108370120515611569721#256 ∧
    second.head.hash =
      95347384418122664088364835890644651944792867405126785317971490282611794750531#256 := by
  have hnil : Header.hashOfOmmers [] = emptyOmmersHash := by
    rw [Header.hashOfOmmers, Keccak.keccak_eq_digest]
    decide +kernel
  have hroot : World.empty.stateRoot = emptyTrieRoot := by
    rw [World.stateRoot, Trie.rootHash, Trie.Node.rootHash, Keccak.keccak_eq_digest]
    decide +kernel
  have hheader : start.head.header = { firstBlock.header with stateRoot := emptyTrieRoot } := by
    rw [← hroot]
    rfl
  have hstart : start.head.hash =
      4684357441653689751367633612013009913843834845411079447108370120515611569721#256 := by
    rw [Block.hash, Header.hash, hheader, Keccak.keccak_eq_digest]
    decide +kernel
  have hpaid : (paid start 1 []).stateRoot =
      100502531957418976484991097605048481390578461580867634436761043145402582064396#256 := by
    simp only [World.stateRoot, World.storageRoot, Trie.ofListHashed, Trie.hashedKey, Trie.rootHash,
      Trie.Node.rootHash, Keccak.keccak_eq_digest]
    decide +kernel
  refine ⟨hnil, hstart, ?_⟩
  rw [second, extended, child, Block.hash, Header.hash, draft, hstart, hnil, hpaid, Keccak.keccak_eq_digest]
  decide +kernel

/-- The digests of the third block and of its ommer. -/
private theorem hashes_third :
    uncle.hash = 40238369465696662550600657906873481793645795432672699318089409697987580601631#256 ∧
      third.head.hash =
        79806390372141560437796459004143963895399217265026363169071466113625266359675#256 := by
  obtain ⟨hnil, hstart, hsecond⟩ := hashes_before
  have huncle : uncle.hash =
      40238369465696662550600657906873481793645795432672699318089409697987580601631#256 := by
    rw [uncle, Header.hash, draft, hstart, hnil, Keccak.keccak_eq_digest]
    decide +kernel
  have hommers : Header.hashOfOmmers [uncle] =
      86909268315889032813242721607680408024593683946718559294895070401960348300608#256 := by
    rw [Header.hashOfOmmers, uncle, draft, hstart, hnil, Keccak.keccak_eq_digest]
    decide +kernel
  have hpaid : (paid second 1 [uncle]).stateRoot =
      30038237540424734193012790599846676269660644697263148842952386100892714330005#256 := by
    simp only [World.stateRoot, World.storageRoot, Trie.ofListHashed, Trie.hashedKey, Trie.rootHash,
      Trie.Node.rootHash, Keccak.keccak_eq_digest]
    decide +kernel
  refine ⟨huncle, ?_⟩
  rw [third, extended, child, Block.hash, Header.hash, draft, hsecond, hommers, hpaid, Keccak.keccak_eq_digest]
  decide +kernel

private theorem checkOmmer_uncle :
    Header.checkOmmer (.single .frontier) second.recent third.head.header uncle = .ok () := by
  have hhashes : (second.recent.take (maxOmmerAge + 1)).map Block.hash = [second.head.hash, start.head.hash] := rfl
  have hnone : (second.recent.take (maxOmmerAge + 1)).flatMap (fun b => b.ommers.map Header.hash) = [] := rfl
  have hthird : third.head.header.hash = third.head.hash := rfl
  have hparent : uncle.parentHash = start.head.hash := rfl
  have hsibling : third.head.header.parentHash = second.head.hash := rfl
  obtain ⟨-, hstart, hsecond⟩ := hashes_before
  obtain ⟨huncle, hthirdHash⟩ := hashes_third
  apply Header.checkOmmer_eq_ok_iff.mpr
  rw [hhashes, hnone, hthird, hparent, hsibling, huncle, hthirdHash, hsecond, hstart]
  exact ⟨by decide, by decide, ⟨firstBlock, rfl, validate_draft roomy_start 0⟩, by decide, by decide,
    by decide, by decide, by decide⟩

theorem append_third : second.append third.head = .ok third :=
  append_child roomy_second (validateOmmers_child_of_one checkOmmer_uncle) (by decide +kernel)

private theorem grown_third : Grown (.single .frontier) firstBlock .empty third
    [third.head, second.head, firstBlock] :=
  grown_second.append append_third

end Sample

open Sample

/-- A block numbered 7 that includes one numbered 6. -/
theorem ommers_once_of_uncle :
    Grown (.single .frontier) firstBlock .empty third [third.head, second.head, firstBlock] ∧
      firstBlock.ommers = [] ∧ ommerHashes [third.head, second.head, firstBlock] = [uncle.hash] ∧
      (∃ age, 1 ≤ age ∧ age ≤ 6 ∧ uncle.number.toNat + age = third.head.header.number.toNat) ∧
      (uncle.hash ∉ [third.head, second.head, firstBlock].map Block.hash ∨
        Trie.Collision (headerEncodings [third.head, second.head, firstBlock])) := by
  obtain ⟨hage, hdistinct⟩ := ommers_once grown_third rfl
  have hhashes : ommerHashes [third.head, second.head, firstBlock] = [uncle.hash] := rfl
  refine ⟨grown_third, rfl, hhashes, hage third.head (.head _) uncle (.head _), ?_⟩
  refine hdistinct.imp_left fun ⟨_, hcanonical⟩ hmem => ?_
  obtain ⟨b, hb, heq⟩ := List.mem_map.mp hmem
  apply hcanonical b hb
  rw [hhashes, heq]
  exact .head _

end Chain

end StateTransition
