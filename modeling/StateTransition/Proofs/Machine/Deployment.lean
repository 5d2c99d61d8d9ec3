import StateTransition.Proofs.Machine.Solvent

/-! Contracts that code makes. A creation is for a place without code, so that through calls and creations
nested to any depth code is only put where there was none, and only code that the rules allow. -/
namespace StateTransition

open World (Deploys)

variable {env : Environment} {rules : Rules} {children : Option Children}

structure Children.Deploying (rules : Rules) (c : Children) : Prop where
  lawful : c.Lawful
  call : ∀ {m : Message} {w w' : World} {f : Frame},
    w.WellFormed → c.call m w = .ok f w' → w.Deploys rules w'
  create : ∀ {m : Message} {w w' : World} {f : Frame},
    w.WellFormed → (w.accountOrEmpty m.target).hasCode = false → c.create m w = .ok f w' → w.Deploys rules w'

private theorem Children.lawful_of_deploying (hc : ∀ c ∈ children, c.Deploying rules) : ∀ c ∈ children, c.Lawful :=
  fun c h => (hc c h).lawful

namespace World

variable {w w' : World} {a b : Address}

/-- No code is in the way of a creation. -/
private theorem hasCode_of_free (h : w.hasCodeOrNonce a = false) : (w.accountOrEmpty a).hasCode = false := by
  unfold hasCodeOrNonce at h
  rw [accountOrEmpty]
  cases hr : w.account? a with
  | none => rfl
  | some r =>
    rw [hr] at h
    have hfree : r.nonce = 0 ∧ r.hasCode = false := by simpa using h
    exact hfree.2

private theorem hasCode_incrementNonce (h : incrementNonce a w = .ok () w') (b : Address) :
    (w'.accountOrEmpty b).hasCode = (w.accountOrEmpty b).hasCode := by
  obtain ⟨-, rfl⟩ := incrementNonce_ok h
  rw [accountOrEmpty_setAccount]
  split
  · next hb => exact hb ▸ rfl
  · rfl

end World

/-! ### Frames -/

namespace Machine

variable {s s' : Machine} {run : WorldM Frame} {w₁ w₂ : World} {child : Frame}

private theorem Opens.deploys (h : Opens children s run w₁) (hc : ∀ c ∈ children, c.Deploying rules)
    (hw : w₁.WellFormed) (hrun : run w₁ = .ok child w₂) : s.world.Deploys rules w₂ := by
  cases h with
  | call hmem => exact (hc _ hmem).call hw hrun
  | create hmem _ _ hfree hraise =>
    have hplain := (World.hasCode_incrementNonce hraise _).trans (World.hasCode_of_free hfree)
    exact (Deploys.incrementNonce hraise).trans ((hc _ hmem).create hw hplain hrun)

private theorem Effect.deploys (h : Effect rules children s s') (hc : ∀ c ∈ children, c.Deploying rules)
    (hw : s.world.WellFormed) : s.world.Deploys rules s'.world := by
  cases h with
  | frame | log => exact .refl _
  | write key new => exact .setSlot _ key new _
  | collide _ _ hraise => exact .incrementNonce hraise
  | child gasLeft hopen hrun => exact hopen.deploys hc (hopen.advance.evolves.wellFormed hw) hrun
  | destroy heir _ hgive => exact (Deploys.addBalance hgive).trans (.setBalance _ 0 _)

private theorem Effects.deploys (h : Effects rules children s s') (hc : ∀ c ∈ children, c.Deploying rules)
    (hw : s.world.WellFormed) : s.world.Deploys rules s'.world := by
  induction h with
  | refl => exact .refl _
  | tail hfirst hlast ih =>
    have hevolves := (Effects.advance hfirst (Children.lawful_of_deploying hc)).evolves
    exact ih.trans (hlast.deploys hc (hevolves.wellFormed hw))

end Machine

/-! ### Messages -/

namespace Message

variable {m : Message} {w w₁ w' : World} {f f' : Frame}

private theorem enter_deploys (h : m.enter w = .ok () w') : w.Deploys rules w' := by
  obtain ⟨⟨⟩, w₁, hcheckpoint, h⟩ := World.of_bind_ok h
  cases hcheckpoint
  obtain ⟨⟨⟩, w₂, htouch, h⟩ := World.of_bind_ok h
  cases htouch
  have hopened : w.Deploys rules w.checkpoint := .of_accounts rfl rfl
  have htouched := hopened.trans (.touch m.target w.checkpoint)
  split at h
  · exact htouched.trans (.transfer h)
  · cases h
    exact htouched

private theorem runCode_deploys (hc : ∀ c ∈ children, c.Deploying env.rules) (hw : w.WellFormed)
    (h : m.runCode env children w = .ok f w') : w.Deploys env.rules w' := by
  obtain ⟨f₁, heffects, -⟩ := runCode_effects h
  exact heffects.deploys hc hw

private theorem callWith_deploys (hc : ∀ c ∈ children, c.Deploying env.rules) (hw : w.WellFormed)
    (h : m.callWith env children w = .ok f w') : w.Deploys env.rules w' := by
  have hleaves := callWith_leaves (Children.lawful_of_deploying hc) h
  obtain ⟨w₁, w₂, henter, hrun, hend⟩ := callWith_cases h
  have hw₁ := (enter_ok henter).1.wellFormed hw.checkpoint
  have hran := (enter_deploys henter).trans (runCode_deploys hc hw₁ hrun)
  rcases hend with ⟨-, hcommit⟩ | ⟨hfailed, hrevert⟩
  · exact hran.trans (.commit hcommit)
  · exact hran.reverted hrevert (hleaves.restored hw hfailed)

/-- The place of a new contract has a nonce where empty accounts are removed. -/
private theorem clear_deploys (h : m.clear rules w = .ok () w') :
    w.Deploys rules w' ∧ (rules.stateClearing = true → (w'.accountOrEmpty m.target).nonce.toNat ≠ 0) := by
  obtain ⟨⟨⟩, w₁, hcheckpoint, h⟩ := World.of_bind_ok h
  cases hcheckpoint
  obtain ⟨⟨⟩, w₂, hdestroy, h⟩ := World.of_bind_ok h
  cases hdestroy
  obtain ⟨⟨⟩, w₃, hcreated, h⟩ := World.of_bind_ok h
  cases hcreated
  have hcleared : w.Deploys rules ((w.checkpoint.destroyStorage m.target).markCreated m.target) :=
    .of_accounts (World.destroyStorage_accounts m.target w.checkpoint)
      (World.codes_destroyStorage m.target w.checkpoint)
  split at h
  · have hraised := World.toNat_nonce_incrementNonce h
    exact ⟨hcleared.trans (.incrementNonce h), fun _ => by omega⟩
  · next hclearing =>
    cases h
    exact ⟨hcleared, fun hc => absurd hc hclearing⟩

/-- Code that is installed comes to a place that had none when the creation began. -/
private theorem install_deploys (hdeploys : w.Deploys rules w₁) (hplain : (w.accountOrEmpty m.target).hasCode = false)
    (hnonce : rules.stateClearing = true → (w₁.accountOrEmpty m.target).nonce.toNat ≠ 0)
    (hrestored : f'.failure ≠ none → World.Agrees w' w) (h : m.install rules f w₁ = .ok f' w') :
    w.Deploys rules w' := by
  obtain ⟨gasLeft, -, ⟨hallowed, rfl, hcommit⟩ | ⟨rfl, hcommit⟩ | ⟨cause, rfl, hrevert⟩⟩ := install_ok h
  · exact (hdeploys.setCode hplain hallowed hnonce).trans (.commit hcommit)
  · exact hdeploys.trans (.commit hcommit)
  · exact hdeploys.reverted hrevert (hrestored nofun)

private theorem createWith_deploys (hc : ∀ c ∈ children, c.Deploying env.rules) (hw : w.WellFormed)
    (hplain : (w.accountOrEmpty m.target).hasCode = false) (h : m.createWith env children w = .ok f w') :
    w.Deploys env.rules w' := by
  have hleaves := createWith_leaves (Children.lawful_of_deploying hc) h
  obtain ⟨w₁, f₁, w₂, hclear, hcall, hend⟩ := createWith_cases h
  have hw₁ := (clear_ok hclear).1.wellFormed hw.checkpoint
  obtain ⟨hcleared, hnonce⟩ := clear_deploys hclear
  have hcalled := callWith_deploys hc hw₁ hcall
  have hran := hcleared.trans hcalled
  rcases hend with ⟨-, hinstall⟩ | ⟨hfailed, rfl, hrevert⟩
  · refine install_deploys hran hplain (fun hclearing => ?_) (hleaves.restored hw) hinstall
    -- the nonce has not fallen since it was raised
    have hpos := hnonce hclearing
    have hle := hcalled.nonce m.target
    omega
  · exact hran.reverted hrevert (hleaves.restored hw hfailed)

end Message

private theorem Children.deploying_ofRoom (env : Environment) (room : Nat) :
    ∀ c ∈ Children.ofRoom env room, c.Deploying env.rules :=
  ofRoom_induction env (fun _ hc =>
    have hl := lawful_of_deploying hc
    ⟨⟨Message.runs_callWith hl, Message.runs_createWith hl⟩,
      fun hw h => Message.callWith_deploys hc hw h,
      fun hw hplain h => Message.createWith_deploys hc hw hplain h⟩) room

/-- Whatever the message of a transaction comes to, code is only put where there was none. -/
theorem Message.execute_deploys {m : Message} {w w' : World} {o : Outcome} {room : Nat} (hw : w.WellFormed)
    (h : m.execute env room w = .ok o w') : w.Deploys env.rules w' := by
  have hc := Children.deploying_ofRoom env room
  rcases execute_cases h with ⟨rfl, -⟩ | ⟨f, hfree, hcreate, -⟩ | ⟨f, hcall, -⟩
  · exact .refl w'
  · exact createWith_deploys hc hw (World.hasCode_of_free hfree) hcreate
  · exact callWith_deploys hc hw hcall

end StateTransition
