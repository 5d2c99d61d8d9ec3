import StateTransition.Proofs.Machine.Solvent
import StateTransition.Proofs.World.Emptiness

/-! Empty accounts do not get lost. Where empty accounts are removed, each that code has made empty is
the one it ran for or among those that its frame has touched, through calls nested to any depth. -/
namespace StateTransition

open World (EmptiesWithin)

variable {env : Environment} {rules : Rules} {children : Option Children}

/-- The accounts of a frame that may have become empty while it ran. -/
def Frame.suspects (f : Frame) : Set Address := { a | a ∈ f.touched ∨ a = f.message.target }

/-- The accounts that a message may have left empty: those that its frame has touched, and those that it
moved value between. -/
def Message.suspects (m : Message) (touched : Std.ExtTreeSet Address) : Set Address :=
  { a | a ∈ touched ∨ a = m.target ∨ (m.movesValue = true ∧ a = m.caller) }

/-- What the frame of a message tells about accounts that have become empty, if it succeeded. -/
structure Message.Accounts (m : Message) (w : World) (f : Frame) (w' : World) : Prop where
  message : f.message = m
  world : f.failure = none → w.EmptiesWithin (m.suspects f.touched) w'

structure Children.Accountable (c : Children) : Prop where
  lawful : c.Lawful
  call : ∀ {m : Message} {w w' : World} {f : Frame},
    w.WellFormed → c.call m w = .ok f w' → m.Accounts w f w'
  create : ∀ {m : Message} {w w' : World} {f : Frame},
    w.WellFormed → c.create m w = .ok f w' → m.Accounts w f w'

private theorem Children.lawful_of_accountable (hc : ∀ c ∈ children, c.Accountable) : ∀ c ∈ children, c.Lawful :=
  fun c h => (hc c h).lawful

namespace Frame

variable {f child : Frame} {w : World} {a : Address}

private theorem mem_touched_absorb (h : a ∈ f.touched) : a ∈ (f.absorb rules w child).touched := by
  unfold absorb
  split
  · have hunion : a ∈ f.touched ∪ child.touched := Std.ExtTreeSet.mem_union_iff.mpr (.inl h)
    simp only [absorbSuccess]
    split
    · exact Std.ExtTreeSet.mem_insert.mpr (.inr hunion)
    · exact hunion
  · simp only [absorbFailure]
    split
    · exact Std.ExtTreeSet.mem_insert.mpr (.inr h)
    · exact h

/-- Of a child that succeeded a frame takes over what it touched, and the child's account if that is
empty. -/
private theorem mem_touched_absorb_of_child (hclearing : rules.stateClearing = true) (hok : child.failure = none)
    (h : a ∈ child.touched ∨ (a = child.message.target ∧ w.isEmptyAccount a = true)) :
    a ∈ (f.absorb rules w child).touched := by
  rw [absorb, if_pos (by simp [succeeded, hok])]
  simp only [absorbSuccess, hclearing, Bool.true_and]
  rcases h with h | ⟨rfl, hempty⟩
  · have hunion : a ∈ f.touched ∪ child.touched := Std.ExtTreeSet.mem_union_iff.mpr (.inr h)
    split
    · exact Std.ExtTreeSet.mem_insert.mpr (.inr hunion)
    · exact hunion
  · rw [if_pos hempty]
    exact Std.ExtTreeSet.mem_insert_self

private theorem suspects_subset_absorb (gasLeft : Nat) :
    f.suspects ⊆ (({ f with gasLeft } : Frame).absorb rules w child).suspects := by
  rintro a (h | rfl)
  · exact .inl (mem_touched_absorb h)
  · exact .inr (congrArg Message.target (absorb_message rules w { f with gasLeft } child).symm)

end Frame

/-! ### Frames -/

namespace Machine

/-- Between two machines accounts have become empty only among the suspects of the frame, of which there
are no fewer. -/
structure Tells (s s' : Machine) : Prop where
  world : s.world.EmptiesWithin s'.frame.suspects s'.world
  suspects : s.frame.suspects ⊆ s'.frame.suspects

variable {s s' s'' : Machine} {run : WorldM Frame} {w₁ w₂ : World} {child : Frame}

private theorem Tells.refl (s : Machine) : s.Tells s := ⟨.refl _, subset_rfl⟩

private theorem Tells.trans (h : s.Tells s') (h' : s'.Tells s'') : s.Tells s'' :=
  ⟨(h.world.mono h'.suspects).trans h'.world, h.suspects.trans h'.suspects⟩

/-- The message of a child comes from the frame's own account, and a creation has raised a nonce. -/
private theorem Opens.accounts (h : Opens children s run w₁) (hc : ∀ c ∈ children, c.Accountable) (hw : w₁.WellFormed)
    (hrun : run w₁ = .ok child w₂) :
    (∀ t, s.world.EmptiesWithin t w₁) ∧
      ∃ m : Message, m.Accounts w₁ child w₂ ∧ (m.movesValue = true → m.caller = s.frame.message.target) := by
  cases h with
  | call hmem hr =>
    refine ⟨fun t => .refl _, _, (hc _ hmem).call hw hrun, ?_⟩
    cases hr with
    | call | code | static => exact fun _ => rfl
    | delegate => exact fun hmoves => by cases hmoves
  | create hmem _ _ _ hraise =>
    exact ⟨fun t => (EmptiesWithin.incrementNonce hraise).1, _, (hc _ hmem).create hw hrun, fun _ => rfl⟩

private theorem Effect.tells (h : Effect rules children s s') (hc : ∀ c ∈ children, c.Accountable)
    (hclearing : rules.stateClearing = true) (hw : s.world.WellFormed) : s.Tells s' := by
  have hl := Children.lawful_of_accountable hc
  cases h with
  | frame h =>
    refine ⟨.refl _, ?_⟩
    rintro a (ha | ha)
    · exact .inl (h.touched ▸ ha)
    · exact .inr (h.message ▸ ha)
  | log => exact ⟨.refl _, subset_rfl⟩
  | write => exact ⟨.of_accounts (World.setSlot_accounts _ _ _ _), subset_rfl⟩
  | collide _ _ hraise => exact ⟨(EmptiesWithin.incrementNonce hraise).1, subset_rfl⟩
  | @child _ w₁ w₂ run child gasLeft hopen hrun =>
    have hw₁ := hopen.advance.evolves.wellFormed hw
    obtain ⟨hbefore, m, haccounts, hcaller⟩ := hopen.accounts hc hw₁ hrun
    obtain ⟨msg, hleaves⟩ := hopen.leaves hl hrun
    refine ⟨(hbefore _).trans ?_, Frame.suspects_subset_absorb gasLeft⟩
    by_cases hok : child.failure = none
    · refine (haccounts.world hok).restrict ?_
      rintro a (ha | rfl | ⟨hmoves, rfl⟩) hempty
      · exact .inl (Frame.mem_touched_absorb_of_child hclearing hok (.inl ha))
      · exact .inl (Frame.mem_touched_absorb_of_child hclearing hok (.inr ⟨by rw [haccounts.message], hempty⟩))
      · refine .inr ?_
        rw [Frame.absorb_message]
        exact hcaller hmoves
    · exact .of_accounts (hleaves.restored hw₁ hok).accounts
  | @destroy f w w₁ heir _ hgive =>
    constructor
    · have hgiven : w.EmptiesWithin { a | a = heir ∨ a = f.message.target } w₁ := .addBalance (.inl rfl) hgive
      refine (hgiven.trans (.setBalance (.inr rfl) 0 w₁)).restrict ?_
      rintro a (rfl | rfl) hempty
      · left
        simp only [hclearing, Bool.true_and, hempty, if_true]
        exact Std.ExtTreeSet.mem_insert_self
      · exact .inr rfl
    · rintro a (ha | ha)
      · left
        dsimp only
        split
        · exact Std.ExtTreeSet.mem_insert.mpr (.inr ha)
        · exact ha
      · exact .inr ha

private theorem Effects.tells (h : Effects rules children s s') (hc : ∀ c ∈ children, c.Accountable)
    (hclearing : rules.stateClearing = true) (hw : s.world.WellFormed) : s.Tells s' := by
  induction h with
  | refl => exact .refl s
  | tail hfirst hlast ih =>
    have hevolves := (Effects.advance hfirst (Children.lawful_of_accountable hc)).evolves
    exact ih.trans (hlast.tells hc hclearing (hevolves.wellFormed hw))

end Machine

/-! ### Messages -/

namespace Message

variable {m : Message} {w w₁ w' : World} {f f' : Frame}

/-- A message that begins may leave empty where its value comes from and where it goes. -/
private theorem enter_emptiesWithin (touched : Std.ExtTreeSet Address) (h : m.enter w = .ok () w') :
    w.EmptiesWithin (m.suspects touched) w' := by
  obtain ⟨⟨⟩, w₁, hcheckpoint, h⟩ := World.of_bind_ok h
  cases hcheckpoint
  obtain ⟨⟨⟩, w₂, htouch, h⟩ := World.of_bind_ok h
  cases htouch
  have hopened : w.EmptiesWithin (m.suspects touched) w.checkpoint := .of_accounts rfl
  have htouched := hopened.trans (.touch (.inr (.inl rfl)) w.checkpoint)
  split at h
  · next hmoves =>
    have hmoves : m.movesValue = true ∧ m.value ≠ 0 := by simpa using hmoves
    exact htouched.trans (.transfer (.inr (.inr ⟨hmoves.1, rfl⟩)) (.inr (.inl rfl)) h)
  · cases h
    exact htouched

private theorem runCode_accounts (hc : ∀ c ∈ children, c.Accountable) (hclearing : env.rules.stateClearing = true)
    (hw : w.WellFormed) (h : m.runCode env children w = .ok f w') : m.Accounts w f w' := by
  obtain ⟨f₁, heffects, hf⟩ := runCode_effects h
  have hmessage : f₁.message = m := Machine.Effects.message heffects
  have htells := heffects.tells hc hclearing hw
  have hworld : w.EmptiesWithin (m.suspects f₁.touched) w' := by
    refine htells.world.mono ?_
    rintro a (ha | ha)
    · exact .inl ha
    · exact .inr (.inl (hmessage ▸ ha))
  rcases hf with rfl | ⟨cause, rfl⟩ | rfl <;> exact ⟨hmessage, fun _ => hworld⟩

private theorem callWith_accounts (hc : ∀ c ∈ children, c.Accountable) (hclearing : env.rules.stateClearing = true)
    (hw : w.WellFormed) (h : m.callWith env children w = .ok f w') : m.Accounts w f w' := by
  obtain ⟨w₁, w₂, henter, hrun, hend⟩ := callWith_cases h
  have hw₁ := (enter_ok henter).1.wellFormed hw.checkpoint
  obtain ⟨hmessage, hworld⟩ := runCode_accounts hc hclearing hw₁ hrun
  refine ⟨hmessage, fun hok => ?_⟩
  rcases hend with ⟨-, hcommit⟩ | ⟨hfailed, -⟩
  · exact ((enter_emptiesWithin f.touched henter).trans (hworld hok)).trans
      (.of_accounts (World.commit_accounts hcommit))
  · exact absurd hok hfailed

/-- The place of a new contract gets a nonce. -/
private theorem clear_emptiesWithin (hclearing : rules.stateClearing = true) (h : m.clear rules w = .ok () w') :
    (∀ s, w.EmptiesWithin s w') ∧ (w'.accountOrEmpty m.target).nonce.toNat ≠ 0 := by
  obtain ⟨⟨⟩, w₁, hcheckpoint, h⟩ := World.of_bind_ok h
  cases hcheckpoint
  obtain ⟨⟨⟩, w₂, hdestroy, h⟩ := World.of_bind_ok h
  cases hdestroy
  obtain ⟨⟨⟩, w₃, hcreated, h⟩ := World.of_bind_ok h
  cases hcreated
  rw [if_pos hclearing] at h
  have haccounts : ((w.checkpoint.destroyStorage m.target).markCreated m.target).accounts = w.accounts :=
    World.destroyStorage_accounts m.target w.checkpoint
  exact ⟨fun s => (EmptiesWithin.of_accounts haccounts).trans (EmptiesWithin.incrementNonce h).1,
    (EmptiesWithin.incrementNonce (s := ∅) h).2⟩

/-- A contract that is installed is suspect as before. -/
private theorem install_accounts (hworld : w.EmptiesWithin (m.suspects f.touched) w₁)
    (hmessage : f.message = m) (h : m.install rules f w₁ = .ok f' w') : m.Accounts w f' w' := by
  obtain ⟨gasLeft, -, ⟨-, rfl, hcommit⟩ | ⟨rfl, hcommit⟩ | ⟨cause, rfl, -⟩⟩ := install_ok h
  · have hinstalled : w₁.EmptiesWithin (m.suspects f.touched) (w₁.setCode m.target f.output) :=
      .setCode (.inr (.inl rfl)) _ _
    exact ⟨hmessage, fun _ => (hworld.trans hinstalled).trans (.of_accounts (World.commit_accounts hcommit))⟩
  · exact ⟨hmessage, fun _ => hworld.trans (.of_accounts (World.commit_accounts hcommit))⟩
  · exact ⟨hmessage, nofun⟩

/-- A contract that was made has a nonce. -/
private theorem createWith_accounts (hc : ∀ c ∈ children, c.Accountable) (hclearing : env.rules.stateClearing = true)
    (hw : w.WellFormed) (h : m.createWith env children w = .ok f w') :
    m.Accounts w f w' ∧ (f.failure = none → (w'.accountOrEmpty m.target).nonce.toNat ≠ 0) := by
  obtain ⟨w₁, f₁, w₂, hclear, hcall, hend⟩ := createWith_cases h
  have hw₁ := (clear_ok hclear).1.wellFormed hw.checkpoint
  obtain ⟨hbefore, hnonce⟩ := clear_emptiesWithin hclearing hclear
  obtain ⟨hmessage, hworld⟩ := callWith_accounts hc hclearing hw₁ hcall
  rcases hend with ⟨hok, hinstall⟩ | ⟨hfailed, rfl, -⟩
  · refine ⟨install_accounts ((hbefore _).trans (hworld hok)) hmessage hinstall, fun hnone => ?_⟩
    -- from where the nonce was raised on, none has fallen
    have hraised := ((install_accounts (hworld hok) hmessage hinstall).world hnone).nonce m.target
    omega
  · exact ⟨⟨hmessage, fun hok => absurd hok hfailed⟩, fun hok => absurd hok hfailed⟩

end Message

private theorem Children.accountable_ofRoom (hclearing : env.rules.stateClearing = true) (room : Nat) :
    ∀ c ∈ Children.ofRoom env room, c.Accountable :=
  ofRoom_induction env (fun _ hc =>
    have hl := lawful_of_accountable hc
    ⟨⟨Message.runs_callWith hl, Message.runs_createWith hl⟩,
      fun hw h => Message.callWith_accounts hc hclearing hw h,
      fun hw h => (Message.createWith_accounts hc hclearing hw h).1⟩) room

namespace Message

variable {m : Message} {w w' : World} {f : Frame} {o : Outcome}

private theorem ofFrame_touched (hok : f.failure = none) (touched : Std.ExtTreeSet Address) :
    (Outcome.ofFrame { f with touched }).touched = touched := by
  rw [Outcome.ofFrame, hok]

/-- Of a message that failed no account is left empty that was not so before. -/
private theorem Accounts.suspect (h : m.Accounts w f w') (hl : m.Leaves w f w') (hw : w.WellFormed) {a : Address}
    (ha : w'.isEmptyAccount a = true) :
    w.isEmptyAccount a = true ∨ f.failure = none ∧ (a ∈ f.touched ∨ a = m.target ∨ a = m.caller) := by
  by_cases hok : f.failure = none
  · rcases (h.world hok).empty a ha with hbefore | hmem | htarget | ⟨-, hcaller⟩
    · exact .inl hbefore
    · exact .inr ⟨hok, .inl hmem⟩
    · exact .inr ⟨hok, .inr (.inl htarget)⟩
    · exact .inr ⟨hok, .inr (.inr hcaller)⟩
  · exact .inl (World.isEmptyAccount_congr (hl.restored hw hok).accounts a ▸ ha)

/-- The message of a transaction leaves no account empty but its sender and those that it has touched. -/
theorem execute_empties (hclearing : env.rules.stateClearing = true) (hw : w.WellFormed) {room : Nat}
    (h : m.execute env room w = .ok o w') {a : Address} (ha : w'.isEmptyAccount a = true) :
    w.isEmptyAccount a = true ∨ a ∈ o.touched ∨ a = m.caller := by
  have hc := Children.accountable_ofRoom hclearing room
  rcases execute_cases h with ⟨rfl, -⟩ | ⟨f, -, hcreate, rfl⟩ | ⟨f, hcall, rfl⟩
  · exact .inl ha
  · obtain ⟨haccounts, hnonce⟩ := createWith_accounts hc hclearing hw hcreate
    have hleaves := (runs_create env room m).leaves hcreate
    rcases haccounts.suspect hleaves hw ha with hbefore | ⟨hok, hmem | rfl | hcaller⟩
    · exact .inl hbefore
    · exact .inr (.inl (ofFrame_touched hok f.touched ▸ hmem))
    · rw [World.isEmptyAccount_of_nonce_ne_zero (hnonce hok)] at ha
      cases ha
    · exact .inr (.inr hcaller)
  · have haccounts := callWith_accounts hc hclearing hw hcall
    have hleaves := (runs_call env room m).leaves hcall
    rcases haccounts.suspect hleaves hw ha with hbefore | ⟨hok, hmem | rfl | hcaller⟩
    · exact .inl hbefore
    · rw [ofFrame_touched hok]
      refine .inr (.inl ?_)
      split
      · exact Std.ExtTreeSet.mem_insert.mpr (.inr hmem)
      · exact hmem
    · rw [ofFrame_touched hok, hclearing, ha]
      exact .inr (.inl Std.ExtTreeSet.mem_insert_self)
    · exact .inr (.inr hcaller)

end Message

end StateTransition
