import StateTransition.Proofs.Chain.Course
import StateTransition.Proofs.Chain.Ommer
import StateTransition.Proofs.World.Journal

/-! What holds of a chain however blocks were offered to it: its latest blocks follow one another, their headers
tell of their bodies, the last one tells of the world, and the world is ready for the next transaction. -/
namespace StateTransition

variable {rules : Rules} {block : BlockEnv} {w w' : World}

/-! ### Checkpoints -/

namespace World

private theorem change_payRewards {h : Header} {ommers : List Header}
    (hpay : payRewards rules h ommers w = .ok () w') :
    Change w w' := by
  obtain ⟨⟨⟩, w₁, hbase, hrest⟩ := of_bind_ok hpay
  refine (Change.of_addBalance hbase).trans ?_
  clear hpay hbase
  induction ommers generalizing w₁ with
  | nil =>
    cases hrest
    exact .refl w'
  | cons ommer ommers ih =>
    obtain ⟨⟨⟩, w₂, hommer, hrest⟩ := of_bind_ok hrest
    exact (Change.of_addBalance (payOmmer_ok hommer)).trans (ih w₂ hrest)

end World

namespace SignedTransaction

variable {t : SignedTransaction} {gasAvailable : Nat}

/-- A transaction forgets the checkpoints that it finds, and closes those that it opens. -/
private theorem process_settled (hw : w.WellFormed) {outcome : TransactionOutcome}
    (h : t.process rules block gasAvailable w = .ok outcome w') : w'.Settled := by
  obtain ⟨adm, o, w₁, -, hexecute, hsettle, -⟩ := process_ok h
  obtain ⟨w₂, w₃, hnonce, hfee, hmessage⟩ := execute_cases hexecute
  have hbegun : World.Settled w.beginTransaction := ⟨rfl, rfl⟩
  have hw₃ : w₃.WellFormed :=
    (World.Change.of_subBalance hfee).wellFormed ((World.Change.of_incrementNonce hnonce).wellFormed hw.beginTransaction)
  have htaken : w₃.Settled := (hbegun.change (.of_incrementNonce hnonce)).change (.of_subBalance hfee)
  have hrun : World.Leads w₃ w₁ := (Message.proceeds_execute callDepthLimit _).ok hmessage
  have hclosed : w₁.checkpoints = [] := (Message.execute_checkpoints hw₃ hmessage).trans htaken.checkpoints
  exact ((hrun.anchored hw₃ htaken.anchored).settled hclosed).change (settle_change hsettle)

end SignedTransaction

namespace Block

variable {b : Block} {outcome : BlockOutcome}

private theorem execute_settled (hw : w.WellFormed) (hs : w.Settled) (h : b.execute rules block w = .ok outcome w') :
    w'.Settled := by
  obtain ⟨w₁, hall, hpay, -⟩ := execute_ok h
  have hincluded : w₁.WellFormed ∧ w₁.Settled :=
    SignedTransaction.processAll_preserves (P := fun w => w.WellFormed ∧ w.Settled)
      (fun ⟨hw, _⟩ hprocess => ⟨((SignedTransaction.proceeds_process _ _).ok hprocess).wellFormed hw,
        SignedTransaction.process_settled hw hprocess⟩) ⟨hw, hs⟩ hall
  exact hincluded.2.change (World.change_payRewards hpay)

/-! ### Headers -/

/-- The header of a block tells of the block's body, and of no more gas than its limit. -/
structure Committed (b : Block) : Prop where
  transactionsRoot : b.header.transactionsRoot = b.computeTransactionsRoot
  ommersHash : b.header.ommersHash = b.computeOmmersHash
  gasUsed : b.header.gasUsed ≤ b.header.gasLimit

private theorem checkOutcome_ok (h : b.checkOutcome outcome = .ok ()) :
    b.header.transactionsRoot = outcome.transactionsRoot ∧ b.header.stateRoot = outcome.stateRoot := by
  unfold checkOutcome at h
  obtain ⟨-, h⟩ := ok_of_guard h
  obtain ⟨htransactions, h⟩ := ok_of_guard h
  obtain ⟨-, h⟩ := ok_of_guard h
  obtain ⟨-, h⟩ := ok_of_guard h
  refine ⟨Decidable.not_not.mp htransactions, Decidable.byContradiction fun hroot => ?_⟩
  rw [if_pos hroot] at h
  cases h

end Block

namespace Chain

variable {s : Schedule} {genesis b : Block} {world : World} {c c' c₀ : Chain} {blocks : List Block}

private theorem committed_of_append (h : c.append b = .ok c') :
    b.Committed ∧ c'.head.header.stateRoot = c'.world.stateRoot := by
  have hfollows := (append_ok h).follows
  obtain ⟨-, hommers, outcome, w, hrun, houtcome, rfl⟩ := append_eq_ok_iff.mp h
  obtain ⟨w₁, -, -, -, -, htransactions, hroot⟩ := Block.execute_ok hrun
  obtain ⟨htold, hstate⟩ := Block.checkOutcome_ok houtcome
  exact
    ⟨{ transactionsRoot := htold.trans htransactions
       ommersHash := (Header.validateOmmers_ok hommers).hash
       gasUsed := hfollows.gasUsed }, hstate.trans hroot⟩

namespace Grown

private theorem stateRoot (hc : Grown s genesis world c blocks) : c.head.header.stateRoot = c.world.stateRoot := by
  cases hc with
  | start h =>
    obtain ⟨hroot, rfl⟩ := ofGenesisBlock_eq_ok_iff.mp h
    exact hroot
  | append _ hb => exact (committed_of_append hb).2

private theorem committed (hc : Grown s genesis world c blocks) : ∀ b ∈ blocks, b = genesis ∨ b.Committed := by
  induction hc with
  | start => exact fun b hb => .inl (List.mem_singleton.mp hb)
  | append _ hb ih => exact List.forall_mem_cons.mpr ⟨.inr (committed_of_append hb).1, ih⟩

private theorem settled (hc : Grown s genesis world c blocks) (hw : World.Reachable world) (hs : world.Settled) :
    c.world.Settled := by
  induction hc with
  | start h =>
    obtain ⟨-, rfl⟩ := ofGenesisBlock_eq_ok_iff.mp h
    exact hs
  | append hc hb ih =>
    obtain ⟨-, -, outcome, w, hrun, -, rfl⟩ := append_eq_ok_iff.mp hb
    exact Block.execute_settled (hc.leads.reachable hw).wellFormed ih hrun

end Grown

/-! ### Offers -/

/-- The ways in which a chain begins over a world: with a block that tells of the world, or with one that is made
for it. -/
inductive Begins (s : Schedule) (world : World) : Chain → Prop where
  | block {genesis : Block} {c : Chain} (h : ofGenesisBlock s genesis world = .ok c) : Begins s world c
  | genesis (g : Genesis) : Begins s world (ofGenesis s g world)

/-- The chain after a block was offered to it. A block that is refused leaves it as it was. -/
def offer (c : Chain) (b : Block) : Chain :=
  match c.append b with
  | .ok c' => c'
  | .error _ => c

/-- The latest block is refused when it is offered again. -/
private theorem offer_head (c : Chain) : c.offer c.head = c := by
  unfold offer
  split
  · next hb => exact absurd (append_ok hb).follows.number (Nat.succ_ne_self _).symm
  · rfl

private theorem Begins.grown (h : Begins s world c) : Grown s c.head world c [c.head] := by
  cases h with
  | block h =>
    obtain ⟨-, rfl⟩ := ofGenesisBlock_eq_ok_iff.mp h
    exact .start h
  | genesis g => exact .start (ofGenesisBlock_block s g world)

private theorem Grown.offers (hc : Grown s genesis world c blocks) (offered : List Block) :
    ∃ blocks', Grown s genesis world (offered.foldl offer c) blocks' := by
  induction offered generalizing c blocks with
  | nil => exact ⟨blocks, hc⟩
  | cons b offered ih =>
    rw [List.foldl_cons, offer]
    split
    · next hb => exact ih (hc.append hb)
    · exact ih hc

/-- However a chain begins and whatever blocks are offered to it, accepted or refused: it keeps between one and
255 blocks, newest first, and each follows the next one; the last header tells of the world, and every header but
the first tells of its body; and no checkpoint is open and nothing noted, if that was so in the beginning. No block
is taken after one with the greatest number, which has none after it. -/
theorem invariant (hstart : Begins s world c₀) (offered : List Block) :
    let c := offered.foldl offer c₀
    c.recent ≠ [] ∧ c.recent.length ≤ 255 ∧
      (c.recent.IsChain fun b parent => b.header.Follows parent.header) ∧
      c.head.header.stateRoot = c.world.stateRoot ∧
      (∀ b ∈ c.recent, b ≠ c₀.head → b.Committed) ∧
      (World.Reachable world → world.checkpoints = [] → world.journal = [] →
        c.world.checkpoints = [] ∧ c.world.journal = []) := by
  intro c
  obtain ⟨blocks, hc⟩ : ∃ blocks, Grown s c₀.head world c blocks := hstart.grown.offers offered
  have hrecent : c.recent = blocks.take keptBlocks := hc.recent_eq
  refine ⟨List.cons_ne_nil _ _, ?_, ?_, hc.stateRoot, fun b hb hne => ?_, fun hw hclosed hempty => ?_⟩
  · rw [hrecent, List.length_take]
    exact Nat.min_le_left _ _
  · rw [hrecent]
    exact hc.isChain.take _
  · rw [hrecent] at hb
    exact (hc.committed b (List.mem_of_mem_take hb)).resolve_left hne
  · have hsettled := hc.settled hw ⟨hclosed, hempty⟩
    exact ⟨hsettled.checkpoints, hsettled.journal⟩

open Sample

/-- A block that is offered twice, and refused the second time. -/
theorem invariant_of_repeated_block :
    Begins (.single .frontier) .empty start ∧ [second.head, second.head].foldl offer start = second ∧
      World.Reachable .empty ∧ second.recent = [second.head, firstBlock] ∧
      second.head.header.Follows firstBlock.header ∧ second.head.header.stateRoot = second.world.stateRoot ∧
      second.head ≠ start.head ∧ second.head.Committed ∧ second.world.checkpoints = [] ∧
      second.world.journal = [] := by
  have hfirst : ofGenesisBlock (.single .frontier) firstBlock .empty = .ok start :=
    ofGenesisBlock_eq_ok_iff.mpr ⟨rfl, rfl⟩
  have hstart : Begins (.single .frontier) .empty start := .block hfirst
  have hnumber : start.head.header.number.toNat + 1 = second.head.header.number.toNat := rfl
  have htaken : start.offer second.head = second := by
    have happend : start.append second.head = .ok second :=
      append_child roomy_start (validateOmmers_nil _) (by decide +kernel)
    rw [offer, happend]
  have hoffers : [second.head, second.head].foldl offer start = second := by
    rw [List.foldl_cons, htaken, List.foldl_cons, offer_head, List.foldl_nil]
  have hne : second.head ≠ start.head := fun heq => by
    rw [heq] at hnumber
    omega
  obtain ⟨-, -, hlinked, hroot, hcommitted, hworld⟩ := invariant hstart [second.head, second.head]
  rw [hoffers] at hlinked hroot hcommitted hworld
  obtain ⟨hclosed, hempty⟩ := hworld .empty rfl rfl
  exact ⟨hstart, hoffers, .empty, rfl, (List.isChain_cons_cons.mp hlinked).1, hroot, hne,
    hcommitted _ (.head _) hne, hclosed, hempty⟩

end Chain

end StateTransition
