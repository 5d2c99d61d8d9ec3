import StateTransition.Fork.Schedule

/-! The upgrades in force at a block and the rules there. The rules are those of the latest upgrade in force,
which include every earlier one, so an upgrade that a schedule leaves out comes with the next one. -/
namespace StateTransition

namespace Fork

variable {f g latest : Fork}

private theorem mem_all (f : Fork) : f ∈ all := by cases f <;> decide

private theorem pairwise_all : all.Pairwise (· ≤ ·) := by decide

private theorem mem_upTo : f ∈ latest.upTo ↔ f ≤ latest := by simp [upTo, mem_all]

private theorem le_refl (f : Fork) : f ≤ f := Nat.le_refl f.index

theorem eq_of_le_of_le (h : f ≤ g) (h' : g ≤ f) : f = g := by
  have hindex : f.index = g.index := Nat.le_antisymm h h'
  cases f <;> cases g <;> first | rfl | cases hindex

private theorem le_grayGlacier (f : Fork) : f ≤ grayGlacier := by cases f <;> decide

/-- The upgrade that changes again all that another one changed. -/
def overrider? : Fork → Option Fork
  | petersburg => some istanbul
  | muirGlacier => some london
  | arrowGlacier => some grayGlacier
  | _ => none

private theorem not_overrider_le (h : f.overrider? = some g) : ¬g ≤ f := by
  cases f <;> cases h
  all_goals decide

private theorem overrider?_overrider (h : f.overrider? = some g) : g.overrider? = none := by
  cases f <;> cases h
  all_goals rfl

end Fork

/-! ### Upgrades in force -/

namespace Schedule

variable {s : Schedule} {number : Nat} {f : Fork}

def isInForce (s : Schedule) (number : Nat) (f : Fork) : Bool := (s.activation? f).any (· ≤ number)

def inForce (s : Schedule) (number : Nat) : List Fork := Fork.all.filter (s.isInForce number)

private theorem mem_inForce : f ∈ s.inForce number ↔ s.isInForce number f = true := by simp [inForce, Fork.mem_all]

private theorem isInForce_frontier (s : Schedule) (number : Nat) : s.isInForce number .frontier = true := by
  simp [isInForce, activation?]

/-- The upgrade at a block is in force there, and all that are in force come before it. -/
theorem forkAt_spec (s : Schedule) (number : Nat) :
    s.isInForce number (s.forkAt number) = true ∧ ∀ f, s.isInForce number f = true → f ≤ s.forkAt number := by
  cases hfind : Fork.all.reverse.find? (s.isInForce number) with
  | none =>
    have hnot := List.find?_eq_none.mp hfind .frontier (List.mem_reverse.mpr (Fork.mem_all _))
    exact absurd (isInForce_frontier s number) hnot
  | some latest =>
    have hlatest : s.forkAt number = latest := congrArg (fun found => found.getD Fork.frontier) hfind
    obtain ⟨hin, later, earlier, hsplit, hlater⟩ := List.find?_eq_some_iff_append.mp hfind
    rw [hlatest]
    refine ⟨hin, fun f hf => ?_⟩
    have hmem : f ∈ later ++ latest :: earlier := hsplit ▸ List.mem_reverse.mpr (Fork.mem_all f)
    have hordered : (later ++ latest :: earlier).Pairwise (· ≥ ·) :=
      hsplit ▸ List.pairwise_reverse.mpr Fork.pairwise_all
    rcases List.mem_append.mp hmem with hf' | hf'
    · have hnot := hlater f hf'
      rw [hf] at hnot
      cases hnot
    · rcases List.mem_cons.mp hf' with rfl | hearlier
      · exact Fork.le_refl f
      · exact (List.pairwise_cons.mp (List.pairwise_append.mp hordered).2.1).1 f hearlier

private theorem inForce_eq (s : Schedule) (number : Nat) :
    s.inForce number = (s.forkAt number).upTo.filter (s.isInForce number) := by
  rw [inForce, Fork.upTo, List.filter_filter]
  apply List.filter_congr
  intro f _
  cases hf : s.isInForce number f with
  | false => simp
  | true => simp [(forkAt_spec s number).2 f hf]

end Schedule

/-! ### What upgrades leave behind -/

namespace Rules

variable {r : Rules} {f latest : Fork} {upgrades : List Fork} {mark : Rules → Bool}

def ofUpgrades (upgrades : List Fork) : Rules := upgrades.foldl apply frontier

/-- A change that an upgrade makes, and that no other makes or takes back. -/
def mark? : Fork → Option (Rules → Bool)
  | .homestead => some createDepositOogFails
  | .tangerineWhistle => some allButOne64th
  | .spuriousDragon => some stateClearing
  | .byzantium => some statusReceipts
  | .constantinople => some fun r => r.enables 0x1b
  | .istanbul => some sstoreSentry
  | .berlin => some accessLists
  | .london => some baseFee
  | _ => none

private theorem mark_apply (hm : mark? f = some mark) (r : Rules) (upgrade : Fork) :
    mark (r.apply upgrade) = (upgrade = f || mark r) := by
  cases f with
  | constantinople =>
    cases hm
    cases upgrade <;> simp [enables, apply, enable]
  | frontier | petersburg | muirGlacier | arrowGlacier | grayGlacier => cases hm
  | _ =>
    cases hm
    cases upgrade <;> rfl

private theorem mark_foldl (hm : mark? f = some mark) (r : Rules) (upgrades : List Fork) :
    mark (upgrades.foldl apply r) = (decide (f ∈ upgrades) || mark r) := by
  induction upgrades generalizing r with
  | nil => rfl
  | cons upgrade upgrades ih =>
    rw [List.foldl_cons, ih, mark_apply hm]
    by_cases h : f = upgrade
    · simp [h]
    · simp [h, Ne.symm h]

/-- Rules bear the marks of the upgrades that they are made of. -/
private theorem mark_ofUpgrades (hm : mark? f = some mark) (upgrades : List Fork) :
    mark (ofUpgrades upgrades) = decide (f ∈ upgrades) := by
  have hnone : mark frontier = false := by
    cases f <;> cases hm
    all_goals decide
  rw [ofUpgrades, mark_foldl hm, hnone, Bool.or_false]

private theorem mem_iff_of_ofUpgrades_eq {upgrades' : List Fork} (h : ofUpgrades upgrades = ofUpgrades upgrades')
    (hm : mark? f = some mark) : f ∈ upgrades ↔ f ∈ upgrades' := by
  have hmark := congrArg mark h
  rw [mark_ofUpgrades hm, mark_ofUpgrades hm] at hmark
  exact decide_eq_decide.mp hmark

/-- Muir Glacier puts the difficulty off for longer than any other upgrade up to Berlin. -/
private theorem bombDelay_ofUpgrades_le (h : ∀ f ∈ upgrades, f ≤ .berlin ∧ f ≠ .muirGlacier) :
    (ofUpgrades upgrades).bombDelay ≤ 5000000 := by
  refine List.foldlRecOn (motive := fun r : Rules => r.bombDelay ≤ 5000000) _ _ (by decide) fun r hr f hf => ?_
  obtain ⟨hle, hne⟩ := h f hf
  cases f with
  | muirGlacier => exact absurd rfl hne
  | london | arrowGlacier | grayGlacier => exact absurd hle (by decide)
  | byzantium =>
    change 3000000 ≤ 5000000
    decide
  | constantinople =>
    change 5000000 ≤ 5000000
    decide
  | _ => exact hr

/-! ### What later upgrades override -/

/-- An upgrade without a mark of its own is the oldest or the latest one, or is overridden, but for Muir Glacier
with Berlin as the latest. -/
private theorem overridden_of_mark?_eq_none (hle : f ≤ latest) (hm : mark? f = none) :
    f = .frontier ∨ f = latest ∨ f = .muirGlacier ∧ latest = .berlin ∨ ∃ g ≤ latest, f.overrider? = some g := by
  have hnext {g : Fork} (hg : f.overrider? = some g) (hindex : g.index = f.index + 1) :
      f = latest ∨ ∃ g ≤ latest, f.overrider? = some g := by
    by_cases h : g ≤ latest
    · exact .inr ⟨g, h, hg⟩
    · have hlt : latest.index < f.index + 1 := hindex ▸ Nat.lt_of_not_le h
      exact .inl (Fork.eq_of_le_of_le hle (Nat.le_of_lt_succ hlt))
  cases f with
  | frontier => exact .inl rfl
  | petersburg => exact .inr ((hnext rfl rfl).imp_right .inr)
  | muirGlacier =>
    cases latest with
    | muirGlacier => exact .inr (.inl rfl)
    | berlin => exact .inr (.inr (.inl ⟨rfl, rfl⟩))
    | london | arrowGlacier | grayGlacier => exact .inr (.inr (.inr ⟨.london, by decide, rfl⟩))
    | _ => exact absurd hle (by decide)
  | arrowGlacier => exact .inr ((hnext rfl rfl).imp_right .inr)
  | grayGlacier => exact .inr (.inl (Fork.eq_of_le_of_le hle (Fork.le_grayGlacier latest)))
  | _ => cases hm

private theorem apply_sstoreNetMetering (r : Rules) (g f : Fork) (metering : Bool) :
    { r with fork := g, sstoreNetMetering := metering }.apply f = r.apply f ∨
      f ≠ .istanbul ∧ { r with fork := g, sstoreNetMetering := metering }.apply f =
        { r.apply f with fork := f, sstoreNetMetering := metering } := by
  cases f with
  | constantinople | petersburg | istanbul => exact .inl rfl
  | _ => exact .inr ⟨by decide, rfl⟩

private theorem foldl_apply_sstoreNetMetering (h : .istanbul ∈ upgrades) (r : Rules) (g : Fork) (metering : Bool) :
    upgrades.foldl apply { r with fork := g, sstoreNetMetering := metering } = upgrades.foldl apply r := by
  induction upgrades generalizing r g with
  | nil => cases h
  | cons f upgrades ih =>
    rw [List.foldl_cons, List.foldl_cons]
    rcases apply_sstoreNetMetering r g f metering with he | ⟨hf, he⟩
    · rw [he]
    · rw [he, ih (List.mem_of_ne_of_mem hf.symm h)]

private theorem apply_bombDelay (r : Rules) (g f : Fork) (delay : Nat) :
    { r with fork := g, bombDelay := delay }.apply f = r.apply f ∨
      (f ≠ .london ∧ f ≠ .grayGlacier) ∧ { r with fork := g, bombDelay := delay }.apply f =
        { r.apply f with fork := f, bombDelay := delay } := by
  cases f with
  | byzantium | constantinople | muirGlacier | london | arrowGlacier | grayGlacier => exact .inl rfl
  | _ => exact .inr ⟨by decide, rfl⟩

private theorem foldl_apply_bombDelay (h : .london ∈ upgrades ∨ .grayGlacier ∈ upgrades) (r : Rules) (g : Fork)
    (delay : Nat) : upgrades.foldl apply { r with fork := g, bombDelay := delay } = upgrades.foldl apply r := by
  induction upgrades generalizing r g with
  | nil => simp at h
  | cons f upgrades ih =>
    rw [List.foldl_cons, List.foldl_cons]
    rcases apply_bombDelay r g f delay with he | ⟨⟨hlondon, hgray⟩, he⟩
    · rw [he]
    · rw [he, ih (h.imp (List.mem_of_ne_of_mem hlondon.symm) (List.mem_of_ne_of_mem hgray.symm))]

private theorem foldl_apply_overridden {f g : Fork} (hg : f.overrider? = some g) (h : g ∈ upgrades) (r : Rules) :
    upgrades.foldl apply (r.apply f) = upgrades.foldl apply r := by
  cases f with
  | petersburg =>
    cases hg
    exact foldl_apply_sstoreNetMetering h r .petersburg false
  | muirGlacier =>
    cases hg
    exact foldl_apply_bombDelay (.inl h) r .muirGlacier 9000000
  | arrowGlacier =>
    cases hg
    exact foldl_apply_bombDelay (.inr h) r .arrowGlacier 10700000
  | _ => cases hg

/-- An upgrade may be left out where one that overrides it comes later. -/
private theorem foldl_filter {taken : Fork → Bool} {upgrades : List Fork}
    (h : ∀ before f after, upgrades = before ++ f :: after →
      taken f = true ∨ ∃ g ∈ after, taken g = true ∧ f.overrider? = some g) (r : Rules) :
    (upgrades.filter taken).foldl apply r = upgrades.foldl apply r := by
  induction upgrades generalizing r with
  | nil => rfl
  | cons f upgrades ih =>
    have hrest (r : Rules) := ih (fun before f' after he => h (f :: before) f' after (by rw [he]; rfl)) r
    cases ht : taken f with
    | true => rw [List.filter_cons_of_pos ht, List.foldl_cons, List.foldl_cons, hrest]
    | false =>
      obtain ⟨g, hg, hgt, hover⟩ := (h [] f upgrades rfl).resolve_left (by simp [ht])
      rw [List.filter_cons_of_neg (by simp [ht]), List.foldl_cons, ← hrest]
      exact (foldl_apply_overridden hover (List.mem_filter.mpr ⟨hg, hgt⟩) r).symm

private theorem ofUpgrades_filter_upTo {taken : Fork → Bool}
    (h : ∀ f ≤ latest, taken f = true ∨ ∃ g ≤ latest, f.overrider? = some g) :
    ofUpgrades (latest.upTo.filter taken) = ofUpgrades latest.upTo := by
  refine foldl_filter (fun before f after he => ?_) frontier
  have hmem {g : Fork} (hg : g ≤ latest) : g ∈ before ++ f :: after := he ▸ Fork.mem_upTo.mpr hg
  have hf : f ≤ latest := Fork.mem_upTo.mp (he ▸ List.mem_append_right before List.mem_cons_self)
  refine (h f hf).imp_right fun ⟨g, hg, hover⟩ => ?_
  have hordered : (before ++ f :: after).Pairwise (· ≤ ·) := he ▸ Fork.pairwise_all.filter _
  have htaken : taken g = true :=
    (h g hg).resolve_right fun ⟨_, _, hg'⟩ => by simp [Fork.overrider?_overrider hover] at hg'
  refine ⟨g, ?_, htaken, hover⟩
  have hlater := Fork.not_overrider_le hover
  rcases List.mem_append.mp (hmem hg) with hbefore | hafter
  · exact absurd ((List.pairwise_append.mp hordered).2.2 g hbefore f List.mem_cons_self) hlater
  · rcases List.mem_cons.mp hafter with rfl | hafter
    · exact absurd (Fork.le_refl g) hlater
    · exact hafter

end Rules

/-! ### The rules at a block -/

namespace Schedule

private theorem forkAt_mem_inForce (s : Schedule) (number : Nat) : s.forkAt number ∈ s.inForce number :=
  mem_inForce.mpr (forkAt_spec s number).1

/-- With Berlin as the latest upgrade the rules show whether Muir Glacier is among those they are made of. -/
private theorem muirGlacier_mem_inForce {s : Schedule} {number : Nat} (hlatest : s.forkAt number = .berlin)
    (h : Rules.ofUpgrades (s.forkAt number).upTo = Rules.ofUpgrades (s.inForce number)) :
    .muirGlacier ∈ s.inForce number := by
  apply Decidable.byContradiction
  intro hnot
  have hle : (Rules.ofUpgrades (s.inForce number)).bombDelay ≤ 5000000 := by
    refine Rules.bombDelay_ofUpgrades_le fun f hf => ⟨?_, fun he => hnot (he ▸ hf)⟩
    exact hlatest ▸ (forkAt_spec s number).2 f (mem_inForce.mp hf)
  have hdelay : (Rules.ofUpgrades (Fork.upTo .berlin)).bombDelay = 9000000 := rfl
  rw [← h, hlatest, hdelay] at hle
  omega

/-- The rules at a block are those of all upgrades up to the latest in force. They are those of the upgrades in
force alone just where every upgrade before the latest is in force, or is overridden by one that the rules include. -/
theorem rulesAt_cumulative (s : Schedule) (number : Nat) :
    s.rulesAt number = Rules.ofUpgrades (s.forkAt number).upTo ∧
      (s.rulesAt number = Rules.ofUpgrades (s.inForce number) ↔
        ∀ f ≤ s.forkAt number, f ∈ s.inForce number ∨ ∃ g ≤ s.forkAt number, f.overrider? = some g) := by
  refine ⟨rfl, fun h f hf => ?_, fun h => ?_⟩
  · have h : Rules.ofUpgrades (s.forkAt number).upTo = Rules.ofUpgrades (s.inForce number) := h
    cases hm : Rules.mark? f with
    | some mark => exact .inl ((Rules.mem_iff_of_ofUpgrades_eq h hm).mp (Fork.mem_upTo.mpr hf))
    | none =>
      rcases Rules.overridden_of_mark?_eq_none hf hm with rfl | rfl | ⟨rfl, hlatest⟩ | hover
      · exact .inl (mem_inForce.mpr (isInForce_frontier s number))
      · exact .inl (forkAt_mem_inForce s number)
      · exact .inl (muirGlacier_mem_inForce hlatest h)
      · exact .inr hover
  · rw [inForce_eq]
    exact (Rules.ofUpgrades_filter_upTo fun f hf => (h f hf).imp_left mem_inForce.mp).symm

/-- A schedule that leaves Tangerine Whistle out, with later upgrades in force from the start, is accepted; the
rules have the price that Tangerine Whistle set. -/
theorem rulesAt_of_gap :
    let s : Schedule :=
      { chainId := 1
        block? := fun f => if f = .homestead ∨ f = .spuriousDragon ∨ f = .byzantium then some 0 else none }
    s.validate = .ok () ∧ s.activation? .tangerineWhistle = none ∧ (s.rulesAt 0).gas.sload = 200 ∧
      (Rules.ofUpgrades (s.inForce 0)).gas.sload = 50 ∧ s.rulesAt 0 ≠ Rules.ofUpgrades (s.inForce 0) := by
  intro s
  have hsload : (s.rulesAt 0).gas.sload ≠ (Rules.ofUpgrades (s.inForce 0)).gas.sload := by decide
  exact ⟨rfl, rfl, by decide, by decide, fun h => hsload (by rw [h])⟩

end Schedule

end StateTransition
