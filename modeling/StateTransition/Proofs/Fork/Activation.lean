import StateTransition.Proofs.Fork.Schedule

/-! When upgrades are in force. A schedule is accepted if no upgrade begins before an earlier one, and then each
upgrade of the schedule is in force from its first block on. -/
namespace StateTransition

namespace Fork

variable {f g : Fork}

private theorem index_lt (f : Fork) : f.index < all.length := by cases f <;> decide

private theorem get_all (f : Fork) : all.get ⟨f.index, f.index_lt⟩ = f := by cases f <;> rfl

/-- A relation holds along the upgrades in their order if it holds between any two of which one is the earlier. -/
private theorem pairwise_all_iff {R : Fork → Fork → Prop} : all.Pairwise R ↔ ∀ f g : Fork, f < g → R f g := by
  constructor
  · intro h f g hlt
    have hpair := List.pairwise_iff_getElem.mp h f.index g.index f.index_lt g.index_lt hlt
    change R (all.get ⟨f.index, f.index_lt⟩) (all.get ⟨g.index, g.index_lt⟩) at hpair
    rwa [get_all, get_all] at hpair
  · intro h
    have hordered : all.Pairwise (· < ·) := by decide
    exact hordered.imp fun {f g} => h f g

end Fork

namespace Schedule

variable {s : Schedule} {f g last : Fork} {block lastBlock number : Nat}

/-- Of two upgrades that each have a first block the second does not begin before the first. -/
def Ordered (s : Schedule) (f g : Fork) : Prop :=
  ∀ b ∈ s.activation? f, ∀ c ∈ s.activation? g, b ≤ c

/-- Where every upgrade of a list is compared with the last one before it that is ever in force, all are compared. -/
private theorem firstOutOfOrder_eq_none_iff (s : Schedule) (forks : List Fork) (last : Fork) (lastBlock : Nat) :
    s.firstOutOfOrder forks last lastBlock = none ↔
      (∀ f ∈ forks, ∀ b ∈ s.activation? f, lastBlock ≤ b) ∧ forks.Pairwise s.Ordered := by
  induction forks generalizing last lastBlock with
  | nil => simp [firstOutOfOrder]
  | cons f forks ih =>
    rw [firstOutOfOrder, List.pairwise_cons, List.forall_mem_cons]
    cases hf : s.activation? f with
    | none =>
      have hfree : ∀ g ∈ forks, s.Ordered f g := fun g _ b hb => by simp [hf] at hb
      simp only [ih]
      exact ⟨fun ⟨hlast, hrest⟩ => ⟨⟨nofun, hlast⟩, hfree, hrest⟩, fun ⟨⟨_, hlast⟩, _, hrest⟩ => ⟨hlast, hrest⟩⟩
    | some block =>
      have hfrom : (∀ g ∈ forks, s.Ordered f g) ↔ ∀ g ∈ forks, ∀ c ∈ s.activation? g, block ≤ c := by
        simp [Ordered, hf]
      dsimp only
      split
      · next hbefore =>
        refine ⟨nofun, fun ⟨⟨hfirst, _⟩, _⟩ => ?_⟩
        have hle := hfirst block rfl
        omega
      · next hnot =>
        rw [ih, hfrom]
        refine ⟨fun ⟨hlater, hrest⟩ => ⟨⟨?_, fun g hg c hc => ?_⟩, hlater, hrest⟩,
          fun ⟨_, hlater, hrest⟩ => ⟨hlater, hrest⟩⟩
        · rintro b ⟨⟩
          omega
        · have hle := hlater g hg c hc
          omega

private theorem validate_eq_ok_iff : s.validate = .ok () ↔ ∀ f g : Fork, f < g → s.Ordered f g := by
  have hall : Fork.all = .frontier :: Fork.all.drop 1 := rfl
  have hfirst : ∀ f ∈ Fork.all.drop 1, s.Ordered .frontier f := by
    rintro f - b ⟨⟩ c -
    exact Nat.zero_le c
  have hnone : s.validate = .ok () ↔ s.firstOutOfOrder (Fork.all.drop 1) .frontier 0 = none := by
    unfold validate
    cases s.firstOutOfOrder (Fork.all.drop 1) .frontier 0 <;> simp
  rw [hnone, firstOutOfOrder_eq_none_iff, ← Fork.pairwise_all_iff, hall, List.pairwise_cons]
  exact ⟨fun ⟨_, hrest⟩ => ⟨hfirst, hrest⟩, fun ⟨_, hrest⟩ => ⟨fun _ _ _ _ => Nat.zero_le _, hrest⟩⟩

theorem isInForce_iff (h : s.activation? f = some block) : s.isInForce number f = true ↔ block ≤ number := by
  simp [isInForce, h]

private theorem isInForce_mono {later : Nat} (hle : number ≤ later) (h : s.isInForce number f = true) :
    s.isInForce later f = true := by
  unfold isInForce at h ⊢
  cases hf : s.activation? f with
  | none => simp [hf] at h
  | some block =>
    simp only [hf, Option.any_some, decide_eq_true_eq] at h ⊢
    omega

/-- What is in force at a block stays so. -/
private theorem forkAt_mono (s : Schedule) {number later : Nat} (hle : number ≤ later) :
    s.forkAt number ≤ s.forkAt later :=
  (forkAt_spec s later).2 _ (isInForce_mono hle (forkAt_spec s number).1)

private theorem le_forkAt_iff (hordered : ∀ f g : Fork, f < g → s.Ordered f g) (h : s.activation? f = some block) :
    f ≤ s.forkAt number ↔ block ≤ number := by
  obtain ⟨hlatest, hbefore⟩ := forkAt_spec s number
  refine ⟨fun hle => ?_, fun hle => hbefore f ((isInForce_iff h).mpr hle)⟩
  rcases Nat.lt_or_eq_of_le hle with hlt | heq
  · -- the latest upgrade has a first block of its own, which is no earlier
    cases hg : s.activation? (s.forkAt number) with
    | none => simp [isInForce, hg] at hlatest
    | some first =>
      have hfirst := (isInForce_iff hg).mp hlatest
      exact Nat.le_trans (hordered _ _ hlt block h first hg) hfirst
  · have hsame : f = s.forkAt number := Fork.eq_of_le_of_le hle (Nat.le_of_eq heq.symm)
    exact (isInForce_iff h).mp (hsame ▸ hlatest)

/-- A schedule is accepted just where no upgrade of it begins before an earlier one. In an accepted schedule an
upgrade that has a first block is reached just from that block on, and no later block has an earlier upgrade. -/
theorem forkAt_from_activation (s : Schedule) :
    (s.validate = .ok () ↔ ∀ f g : Fork, f < g → ∀ b c, s.activation? f = some b → s.activation? g = some c → b ≤ c) ∧
      (s.validate = .ok () → ∀ f block, s.activation? f = some block →
        ∀ number, f ≤ s.forkAt number ↔ block ≤ number) ∧
      ∀ number later, number ≤ later → s.forkAt number ≤ s.forkAt later := by
  refine ⟨validate_eq_ok_iff.trans ?_, fun hvalid f block hf number => ?_, fun _ _ => forkAt_mono s⟩
  · exact ⟨fun h f g hlt b c hb hc => h f g hlt b hb c hc, fun h f g hlt b hb c hc => h f g hlt b c hb hc⟩
  · exact le_forkAt_iff (validate_eq_ok_iff.mp hvalid) hf

/-- The main network has Constantinople and Petersburg from one block on. -/
theorem forkAt_from_activation_mainnet :
    mainnet.validate = .ok () ∧ mainnet.activation? .constantinople = some 7280000 ∧
      mainnet.activation? .petersburg = some 7280000 ∧ ¬.constantinople ≤ mainnet.forkAt 7279999 ∧
      .constantinople ≤ mainnet.forkAt 7280000 ∧ .petersburg ≤ mainnet.forkAt 7280000 := by
  have hvalid : mainnet.validate = .ok () := rfl
  obtain ⟨-, hreached, -⟩ := forkAt_from_activation mainnet
  refine ⟨hvalid, rfl, rfl, fun hle => ?_, ?_, ?_⟩
  · have hfrom := (hreached hvalid .constantinople 7280000 rfl 7279999).mp hle
    omega
  · exact (hreached hvalid .constantinople 7280000 rfl 7280000).mpr (Nat.le_refl _)
  · exact (hreached hvalid .petersburg 7280000 rfl 7280000).mpr (Nat.le_refl _)

end Schedule

end StateTransition
