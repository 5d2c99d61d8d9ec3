import StateTransition.Proofs.Machine.Solvent
import StateTransition.Proofs.World.Housing

/-! Storage while code runs. A frame writes to the storage of its own account alone, which has a record from the
time that the message is entered, and what is undone takes the slots with the records. -/
namespace StateTransition

open World (Houses)

variable {env : Environment} {rules : Rules} {children : Option Children}

structure Children.Housing (c : Children) : Prop where
  lawful : c.Lawful
  call : ∀ {m : Message} {w w' : World} {f : Frame}, w.WellFormed → c.call m w = .ok f w' → w.Houses w'
  create : ∀ {m : Message} {w w' : World} {f : Frame}, w.WellFormed → c.create m w = .ok f w' → w.Houses w'

private theorem Children.lawful_of_housing (hc : ∀ c ∈ children, c.Housing) : ∀ c ∈ children, c.Lawful :=
  fun c h => (hc c h).lawful

namespace Machine

variable {s s' : Machine} {run : WorldM Frame} {w₁ w₂ : World} {child : Frame}

private theorem Opens.houses (h : Opens children s run w₁) (hc : ∀ c ∈ children, c.Housing) (hw : w₁.WellFormed)
    (hrun : run w₁ = .ok child w₂) : s.world.Houses w₂ := by
  cases h with
  | call hmem => exact (hc _ hmem).call hw hrun
  | create hmem _ _ _ hraise => exact (Houses.incrementNonce hraise).trans ((hc _ hmem).create hw hrun)

private theorem Effect.houses (h : Effect rules children s s') (hc : ∀ c ∈ children, c.Housing)
    (hw : s.world.WellFormed)
    (htarget : s.world.hasAccount s.frame.message.target = true) : s.world.Houses s'.world := by
  cases h with
  | frame | log => exact .refl _
  | write key new => exact .setSlot key new htarget
  | collide _ _ hraise => exact .incrementNonce hraise
  | child gasLeft hopen hrun => exact hopen.houses hc (hopen.advance.evolves.wellFormed hw) hrun
  | destroy heir _ hgive => exact (Houses.addBalance hgive).trans (.setBalance _ 0 _)

private theorem Effects.houses (h : Effects rules children s s') (hc : ∀ c ∈ children, c.Housing)
    (hw : s.world.WellFormed)
    (htarget : s.world.hasAccount s.frame.message.target = true) : s.world.Houses s'.world := by
  induction h with
  | refl => exact .refl _
  | tail hfirst hlast ih =>
    have hevolves := (Effects.advance hfirst (Children.lawful_of_housing hc)).evolves
    refine ih.trans (hlast.houses hc (hevolves.wellFormed hw) ?_)
    rw [Effects.message hfirst]
    exact ih.record _ htarget

end Machine

namespace Message

variable {m : Message} {w w₁ w' : World} {f f' : Frame}

/-- Who is sent a message has a record from then on. -/
private theorem enter_houses (h : m.enter w = .ok () w') : w.Houses w' ∧ w'.hasAccount m.target = true := by
  obtain ⟨⟨⟩, w₁, hcheckpoint, h⟩ := World.of_bind_ok h
  cases hcheckpoint
  obtain ⟨⟨⟩, w₂, htouch, h⟩ := World.of_bind_ok h
  cases htouch
  have htouched := (Houses.checkpoint w).trans (.touch m.target w.checkpoint)
  have htarget : (w.checkpoint.touch m.target).hasAccount m.target = true := by
    unfold World.touch
    split
    · next hsome => exact hsome
    · rw [World.hasAccount_setAccount, decide_eq_true rfl, Bool.true_or]
  split at h
  · have hmoved := Houses.transfer h
    exact ⟨htouched.trans hmoved, hmoved.record _ htarget⟩
  · cases h
    exact ⟨htouched, htarget⟩

private theorem callWith_houses (hc : ∀ c ∈ children, c.Housing) (hw : w.WellFormed)
    (h : m.callWith env children w = .ok f w') : w.Houses w' := by
  have hleaves := callWith_leaves (Children.lawful_of_housing hc) h
  obtain ⟨w₁, w₂, henter, hrun, hend⟩ := callWith_cases h
  have hw₁ := (enter_ok henter).1.wellFormed hw.checkpoint
  obtain ⟨hentered, htarget⟩ := enter_houses henter
  obtain ⟨f₁, heffects, -⟩ := runCode_effects hrun
  have hran := hentered.trans (heffects.houses hc hw₁ htarget)
  rcases hend with ⟨-, hcommit⟩ | ⟨hfailed, hrevert⟩
  · exact hran.trans (.commit hcommit)
  · exact hran.reverted hrevert (hleaves.restored hw hfailed)

/-- What may have been stored at the place of a new contract is removed. -/
theorem clear_houses (h : m.clear rules w = .ok () w') : w.Houses w' ∧ w'.slots m.target = ∅ := by
  obtain ⟨⟨⟩, w₁, hcheckpoint, h⟩ := World.of_bind_ok h
  cases hcheckpoint
  obtain ⟨⟨⟩, w₂, hdestroy, h⟩ := World.of_bind_ok h
  cases hdestroy
  obtain ⟨⟨⟩, w₃, hcreated, h⟩ := World.of_bind_ok h
  cases hcreated
  have hcleared := ((Houses.checkpoint w).trans (.destroyStorage m.target _)).trans (.markCreated m.target _)
  have hempty : ((w.checkpoint.destroyStorage m.target).markCreated m.target).slots m.target = ∅ :=
    (World.slots_destroyStorage m.target w.checkpoint m.target).trans (if_pos rfl)
  split at h
  · refine ⟨hcleared.trans (.incrementNonce h), ?_⟩
    obtain ⟨-, rfl⟩ := World.incrementNonce_ok h
    rw [World.slots_setAccount, hempty]
  · cases h
    exact ⟨hcleared, hempty⟩

private theorem createWith_houses (hc : ∀ c ∈ children, c.Housing) (hw : w.WellFormed)
    (h : m.createWith env children w = .ok f w') : w.Houses w' := by
  have hleaves := createWith_leaves (Children.lawful_of_housing hc) h
  obtain ⟨w₁, f₁, w₂, hclear, hcall, hend⟩ := createWith_cases h
  have hran := (clear_houses hclear).1.trans (callWith_houses hc ((clear_ok hclear).1.wellFormed hw.checkpoint) hcall)
  rcases hend with ⟨-, hinstall⟩ | ⟨hfailed, rfl, hrevert⟩
  · obtain ⟨gasLeft, -, ⟨-, -, hcommit⟩ | ⟨-, hcommit⟩ | ⟨cause, rfl, hrevert⟩⟩ := install_ok hinstall
    · exact (hran.trans (.setCode m.target _ _)).trans (.commit hcommit)
    · exact hran.trans (.commit hcommit)
    · exact hran.reverted hrevert (hleaves.restored hw nofun)
  · exact hran.reverted hrevert (hleaves.restored hw hfailed)

end Message

private theorem Children.housing_ofRoom (env : Environment) (room : Nat) :
    ∀ c ∈ Children.ofRoom env room, c.Housing :=
  ofRoom_induction env (fun _ hc =>
    have hl := lawful_of_housing hc
    ⟨⟨Message.runs_callWith hl, Message.runs_createWith hl⟩, Message.callWith_houses hc,
      Message.createWith_houses hc⟩) room

/-- Whatever the message of a transaction comes to, it leaves no storage without an owner. -/
theorem Message.execute_houses {m : Message} {w w' : World} {o : Outcome} {room : Nat} (hw : w.WellFormed)
    (h : m.execute env room w = .ok o w') : w.Houses w' := by
  have hc := Children.housing_ofRoom env room
  rcases execute_cases h with ⟨rfl, -⟩ | ⟨f, -, hcreate, -⟩ | ⟨f, hcall, -⟩
  · exact .refl w'
  · exact createWith_houses hc hw hcreate
  · exact callWith_houses hc hw hcall

end StateTransition
