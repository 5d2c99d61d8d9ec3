import StateTransition.Proofs.Machine.Step
import StateTransition.Proofs.World.Deployment

/-! Messages behind their checkpoints, nested to any depth. -/
namespace StateTransition

namespace Message

variable {env : Environment} {children : Option Children} {m : Message} {w w' : World} {f : Frame}

/-- Where the code of a message leads. -/
theorem runCode_ok (hc : ∀ c ∈ children, c.Lawful) (h : m.runCode env children w = .ok f w') :
    Machine.Advance ⟨Frame.ofMessage m, w⟩ ⟨f, w'⟩ ∧ f.gasLeft ≤ m.gas := by
  unfold runCode at h
  split at h
  · next f₁ w₁ hs =>
    cases h
    obtain ⟨hadv, hgas⟩ := (MachineM.Takes.start hc).ok hs
    exact ⟨hadv, by simpa [Frame.ofMessage] using hgas⟩
  · next cause f₁ w₁ hs =>
    cases h
    exact ⟨((MachineM.Takes.start hc).failure hs).1.trans (.of_frame rfl rfl), Nat.zero_le _⟩
  · next f₁ w₁ hs =>
    cases h
    obtain ⟨hadv, hgas⟩ := (MachineM.Takes.start hc).failure hs
    exact ⟨hadv.trans (.of_frame rfl rfl), by simpa [Frame.ofMessage, Frame.revert] using hgas⟩
  · cases h

theorem runCode_overflow (hc : ∀ c ∈ children, c.Lawful) :
    World.OverflowsIf (fun cause => cause = .gasOverflow → countLimit ≤ m.gas) (m.runCode env children) :=
  fun cause w w' h _ => by
  rintro rfl
  unfold runCode at h
  split at h
  · cases h
  · cases h
  · cases h
  · next hs =>
    cases h
    have := (MachineM.Takes.start hc).overflow hs
    simpa [Frame.ofMessage] using this

/-! ### Closing the checkpoint -/

variable {w₁ w₂ : World} {f' : Frame}

/-- What a message has led to behind a checkpoint that is still open. -/
structure Pending (m : Message) (w : World) (f : Frame) (w₁ : World) : Prop where
  gas : f.gasLeft ≤ m.gas
  evolves : w.checkpoint.Evolves w₁
  total_le : w.WellFormed → w₁.total ≤ w.total
  total_eq : w.WellFormed → f.destroyed = ∅ → w₁.total = w.total

namespace Pending

private theorem commit (h : m.Pending w f w₁) (hok : f.failure = none) (hc : World.commit w₁ = .ok () w') :
    m.Leaves w f w' where
  gas := h.gas
  evolves := h.evolves.committed hc
  checkpoints hw := h.evolves.commit_checkpoints hw hc
  restored _ hf := absurd hok hf
  total_le hw := World.total_commit hc ▸ h.total_le hw
  total_eq hw hd := (World.total_commit hc).trans (h.total_eq hw hd)

private theorem revert (h : m.Pending w f w₁) (hr : World.revert w₁ = .ok () w') : m.Leaves w f w' where
  gas := h.gas
  evolves := h.evolves.reverted hr
  checkpoints hw := (h.evolves.revert_agrees hw hr).2
  restored hw _ := (h.evolves.revert_agrees hw hr).1
  total_le hw := Nat.le_of_eq (World.total_congr (h.evolves.revert_agrees hw hr).1.accounts)
  total_eq hw _ := World.total_congr (h.evolves.revert_agrees hw hr).1.accounts

private theorem withFrame (h : m.Pending w f w₁) (f' : Frame) (hg : f'.gasLeft ≤ f.gasLeft)
    (hd : f'.destroyed = f.destroyed) : m.Pending w f' w₁ where
  gas := Nat.le_trans hg h.gas
  evolves := h.evolves
  total_le := h.total_le
  total_eq hw hd' := h.total_eq hw (hd ▸ hd')

private theorem withWorld (h : m.Pending w f w₁) (he : w₁.Evolves w₂) (ht : w₂.total = w₁.total) :
    m.Pending w f w₂ where
  gas := h.gas
  evolves := h.evolves.trans he
  total_le hw := ht ▸ h.total_le hw
  total_eq hw hd := ht.trans (h.total_eq hw hd)

end Pending

/-! ### Calls -/

theorem enter_ok (h : m.enter w = .ok () w') :
    w.checkpoint.Evolves w' ∧ w'.total = w.total := by
  have htouch : w.checkpoint.Evolves (w.checkpoint.touch m.target) := .of_change (.touch _ _)
  have htotal := World.total_touch m.target w.checkpoint
  obtain ⟨⟨⟩, w₁, h₁, h⟩ := World.of_bind_ok h
  cases h₁
  obtain ⟨⟨⟩, w₂, h₂, h⟩ := World.of_bind_ok h
  cases h₂
  split at h
  · exact ⟨htouch.trans (.transfer h), (World.total_transfer h).trans htotal⟩
  · cases h
    exact ⟨htouch, htotal⟩

/-- What the code of a message has led to is kept if it succeeded, and undone if not. -/
theorem callWith_cases (h : m.callWith env children w = .ok f w') :
    ∃ w₁ w₂, m.enter w = .ok () w₁ ∧ m.runCode env children w₁ = .ok f w₂ ∧
      (f.failure = none ∧ World.commit w₂ = .ok () w' ∨ f.failure ≠ none ∧ World.revert w₂ = .ok () w') := by
  obtain ⟨⟨⟩, w₁, henter, h⟩ := World.of_bind_ok h
  obtain ⟨f₁, w₂, hrun, h⟩ := World.of_bind_ok h
  dsimp only at h
  split at h
  · next hs =>
    obtain ⟨⟨⟩, w₃, hcommit, h⟩ := World.of_bind_ok h
    cases h
    exact ⟨w₁, w₂, henter, hrun, .inl ⟨by simpa [Frame.succeeded] using hs, hcommit⟩⟩
  · next hs =>
    obtain ⟨⟨⟩, w₃, hrevert, h⟩ := World.of_bind_ok h
    cases h
    exact ⟨w₁, w₂, henter, hrun, .inr ⟨by simpa [Frame.succeeded] using hs, hrevert⟩⟩

theorem callWith_leaves (hc : ∀ c ∈ children, c.Lawful) (h : m.callWith env children w = .ok f w') :
    m.Leaves w f w' := by
  obtain ⟨w₁, w₂, henter, hrun, hend⟩ := callWith_cases h
  obtain ⟨he, ht⟩ := enter_ok henter
  obtain ⟨hadv, hgas⟩ := runCode_ok hc hrun
  have hpending : m.Pending w f w₂ :=
    { gas := hgas
      evolves := he.trans hadv.evolves
      total_le := fun hw => ht ▸ hadv.total_le (he.wellFormed hw.checkpoint)
      total_eq := fun hw hd => (hadv.total_eq (he.wellFormed hw.checkpoint) hd).trans ht }
  rcases hend with ⟨hok, hcommit⟩ | ⟨-, hrevert⟩
  · exact hpending.commit hok hcommit
  · exact hpending.revert hrevert

theorem overflowsIf_callWith {p : WorldError → Prop} (h : World.OverflowsIf p (m.runCode env children)) :
    World.OverflowsIf p (m.callWith env children) :=
  .bind (.bind (.modify _) fun _ => .bind (.modify _) fun _ => .ite (.transfer _ _ _) (.pure _)) fun _ =>
    .bind h fun _ => .ite (.bind .commit fun _ => .pure _) (.bind .revert fun _ => .pure _)

theorem runs_callWith (hc : ∀ c ∈ children, c.Lawful) (m : Message) :
    m.Runs (m.callWith env children) where
  leaves := callWith_leaves hc
  overflow h := overflowsIf_callWith (runCode_overflow hc) _ _ _ h rfl rfl

/-! ### Creations -/

variable {rules : Rules}

theorem clear_ok (h : m.clear rules w = .ok () w') :
    w.checkpoint.Evolves w' ∧ w'.total = w.total ∧ ∀ a, w'.balance a = w.balance a := by
  have hclear : w.checkpoint.Evolves ((w.checkpoint.destroyStorage m.target).markCreated m.target) :=
    (World.Evolves.of_change (.destroyStorage _ _)).trans (.of_change (.markCreated _ _))
  have haccounts : ((w.checkpoint.destroyStorage m.target).markCreated m.target).accounts = w.accounts :=
    World.destroyStorage_accounts m.target w.checkpoint
  have htotal := World.total_congr haccounts
  have hbalance := World.balance_congr haccounts
  obtain ⟨⟨⟩, w₁, h₁, h⟩ := World.of_bind_ok h
  cases h₁
  obtain ⟨⟨⟩, w₂, h₂, h⟩ := World.of_bind_ok h
  cases h₂
  obtain ⟨⟨⟩, w₃, h₃, h⟩ := World.of_bind_ok h
  cases h₃
  split at h
  · exact ⟨hclear.trans (.incrementNonce h), (World.total_incrementNonce h).trans htotal,
      fun a => (World.balance_incrementNonce h a).trans (hbalance a)⟩
  · cases h
    exact ⟨hclear, htotal, hbalance⟩

/-- New code costs gas, and nothing else of the frame. What is not refused is allowed. -/
private theorem chargeCode_spec {code : ByteArray} {refusal : Option Halt}
    (h : f.chargeCode rules code = (f', refusal)) :
    (refusal = none → rules.AllowsCode code) ∧ ∃ gasLeft ≤ f.gasLeft, f' = { f with gasLeft } := by
  unfold Frame.chargeCode at h
  split at h
  · cases h
    exact ⟨nofun, f.gasLeft, Nat.le_refl _, rfl⟩
  · next hopening =>
    split at h
    · cases h
      exact ⟨nofun, f.gasLeft, Nat.le_refl _, rfl⟩
    · next hf =>
      obtain ⟨-, rfl⟩ := Frame.charge_ok hf
      cases h
      refine ⟨fun hnone => ⟨fun limit hlimit => ?_, fun hreject hpos hef => ?_⟩, _, Nat.sub_le _ _, rfl⟩
      · have hsize : rules.maxCodeSize.any (· < code.size) = false := by simpa using hnone
        rw [Option.mem_def.mp hlimit] at hsize
        simpa using hsize
      · simp [hreject, hpos, hef] at hopening

/-- A creation that succeeded pays for the code, which is installed if it is allowed; where it is not or
cannot be paid for there is a contract without code, or all is undone. -/
theorem install_cases (rules : Rules) (m : Message) (f : Frame) :
    ∃ gasLeft ≤ f.gasLeft,
      rules.AllowsCode f.output ∧ m.install rules f = (do
          modify (World.setCode m.target f.output)
          World.commit
          return { f with gasLeft, output := ByteArray.empty }) ∨
        m.install rules f = (do
          World.commit
          return { f with gasLeft, output := ByteArray.empty }) ∨
        ∃ cause, m.install rules f = (do
          World.revert
          return ({ f with gasLeft, output := ByteArray.empty } : Frame).halt cause) := by
  rcases hcharge : Frame.chargeCode rules f.output { f with output := ByteArray.empty } with ⟨f₁, refusal⟩
  obtain ⟨hallowed, gasLeft, hgas, rfl⟩ := chargeCode_spec hcharge
  refine ⟨gasLeft, hgas, ?_⟩
  simp only [install, hcharge]
  cases refusal with
  | none => exact .inl ⟨hallowed rfl, rfl⟩
  | some cause =>
    cases rules.createDepositOogFails with
    | true => exact .inr (.inr ⟨cause, rfl⟩)
    | false => exact .inr (.inl rfl)

/-- Where the installation of what was returned leads, if it does not come to a fault. -/
theorem install_ok (h : m.install rules f w = .ok f' w') :
    ∃ gasLeft ≤ f.gasLeft,
      (rules.AllowsCode f.output ∧ f' = { f with gasLeft, output := ByteArray.empty } ∧
          World.commit (w.setCode m.target f.output) = .ok () w') ∨
        (f' = { f with gasLeft, output := ByteArray.empty } ∧ World.commit w = .ok () w') ∨
        ∃ cause, f' = ({ f with gasLeft, output := ByteArray.empty } : Frame).halt cause ∧
          World.revert w = .ok () w' := by
  obtain ⟨gasLeft, hgas, ⟨hallowed, hi⟩ | hi | ⟨cause, hi⟩⟩ := install_cases rules m f
  · rw [hi] at h
    obtain ⟨⟨⟩, w₂, hset, h⟩ := World.of_bind_ok h
    cases hset
    obtain ⟨⟨⟩, w₃, hcommit, h⟩ := World.of_bind_ok h
    cases h
    exact ⟨gasLeft, hgas, .inl ⟨hallowed, rfl, hcommit⟩⟩
  · rw [hi] at h
    obtain ⟨⟨⟩, w₂, hcommit, h⟩ := World.of_bind_ok h
    cases h
    exact ⟨gasLeft, hgas, .inr (.inl ⟨rfl, hcommit⟩)⟩
  · rw [hi] at h
    obtain ⟨⟨⟩, w₂, hrevert, h⟩ := World.of_bind_ok h
    cases h
    exact ⟨gasLeft, hgas, .inr (.inr ⟨cause, rfl, hrevert⟩)⟩

private theorem Pending.install (hp : m.Pending w f w₁) (hok : f.failure = none)
    (h : m.install rules f w₁ = .ok f' w') : m.Leaves w f' w' := by
  obtain ⟨gasLeft, hgas, ⟨-, rfl, hcommit⟩ | ⟨rfl, hcommit⟩ | ⟨cause, rfl, hrevert⟩⟩ := install_ok h
  all_goals have hp₁ := hp.withFrame { f with gasLeft, output := ByteArray.empty } hgas rfl
  · exact (hp₁.withWorld (.of_change (.setCode _ _ _)) (World.total_setCode _ _ _)).commit hok hcommit
  · exact hp₁.commit hok hcommit
  · exact (hp₁.withFrame (Frame.halt _ cause) (Nat.zero_le _) rfl).revert hrevert

/-- What a creation has returned is installed if it succeeded, and all is undone if not. -/
theorem createWith_cases (h : m.createWith env children w = .ok f w') :
    ∃ w₁ f₁ w₂, m.clear env.rules w = .ok () w₁ ∧ m.callWith env children w₁ = .ok f₁ w₂ ∧
      (f₁.failure = none ∧ m.install env.rules f₁ w₂ = .ok f w' ∨
        f₁.failure ≠ none ∧ f = f₁ ∧ World.revert w₂ = .ok () w') := by
  obtain ⟨⟨⟩, w₁, hclear, h⟩ := World.of_bind_ok h
  obtain ⟨f₁, w₂, hcall, h⟩ := World.of_bind_ok h
  refine ⟨w₁, f₁, w₂, hclear, hcall, ?_⟩
  split at h
  · next hs => exact .inl ⟨by simpa [Frame.succeeded] using hs, h⟩
  · next hs =>
    obtain ⟨⟨⟩, w₃, hrevert, h⟩ := World.of_bind_ok h
    cases h
    exact .inr ⟨by simpa [Frame.succeeded] using hs, rfl, hrevert⟩

theorem createWith_leaves (hc : ∀ c ∈ children, c.Lawful)
    (h : m.createWith env children w = .ok f w') : m.Leaves w f w' := by
  obtain ⟨w₁, f₁, w₂, hclear, hcall, hend⟩ := createWith_cases h
  obtain ⟨he, ht, -⟩ := clear_ok hclear
  have hcall := callWith_leaves hc hcall
  have hpending : m.Pending w f₁ w₂ :=
    { gas := hcall.gas
      evolves := he.trans hcall.evolves
      total_le := fun hw => ht ▸ hcall.total_le (he.wellFormed hw.checkpoint)
      total_eq := fun hw hd => (hcall.total_eq (he.wellFormed hw.checkpoint) hd).trans ht }
  rcases hend with ⟨hok, hinstall⟩ | ⟨-, rfl, hrevert⟩
  · exact hpending.install hok hinstall
  · exact hpending.revert hrevert

private theorem overflowsIf_install {p : WorldError → Prop} (f : Frame) : World.OverflowsIf p
    (m.install rules f) := by
  obtain ⟨gasLeft, -, ⟨-, hi⟩ | hi | ⟨cause, hi⟩⟩ := install_cases rules m f
  · exact hi ▸ .bind (.modify _) fun _ => .bind .commit fun _ => .pure _
  · exact hi ▸ .bind .commit fun _ => .pure _
  · exact hi ▸ .bind .revert fun _ => .pure _

theorem overflowsIf_createWith {p : WorldError → Prop} (h : World.OverflowsIf p (m.callWith env children)) :
    World.OverflowsIf p (m.createWith env children) :=
  .bind (.bind (.modify _) fun _ => .bind (.modify _) fun _ => .bind (.modify _) fun _ =>
      .ite (.incrementNonce _) (.pure _)) fun _ =>
    .bind h fun f => .ite (overflowsIf_install f) (.bind .revert fun _ => .pure _)

theorem runs_createWith (hc : ∀ c ∈ children, c.Lawful) (m : Message) :
    m.Runs (m.createWith env children) where
  leaves := createWith_leaves hc
  overflow h := overflowsIf_createWith (overflowsIf_callWith (runCode_overflow hc)) _ _ _ h rfl rfl

end Message

/-! ### All depths -/

/-- A frame relies on its children alone, which have less room. -/
theorem Children.ofRoom_induction {P : Children → Prop} (env : Environment)
    (h : ∀ children : Option Children, (∀ c ∈ children, P c) →
      P ⟨fun m => m.callWith env children, fun m => m.createWith env children⟩) (room : Nat) :
    ∀ c ∈ Children.ofRoom env room, P c := by
  induction room with
  | zero => exact fun c hc => nomatch hc
  | succ room ih =>
    rintro c ⟨⟩
    exact h _ ih

theorem Children.lawful_ofRoom (env : Environment) (room : Nat) :
    ∀ c ∈ Children.ofRoom env room, c.Lawful :=
  ofRoom_induction env (fun _ hc => ⟨Message.runs_callWith hc, Message.runs_createWith hc⟩) room

theorem Message.runs_call (env : Environment) (room : Nat) (m : Message) : m.Runs (m.call env room) :=
  runs_callWith (Children.lawful_ofRoom env room) m

theorem Message.runs_create (env : Environment) (room : Nat) (m : Message) :
    m.Runs (m.create env room) :=
  runs_createWith (Children.lawful_ofRoom env room) m

/-! ### The message of a transaction -/

def Outcome.collision : Outcome where
  gasLeft := 0
  refund := 0
  logs := []
  destroyed := ∅
  touched := ∅
  output := ByteArray.empty
  failure := some (.halt .addressCollision)

namespace Message

variable {env : Environment} {room : Nat} {m : Message} {w w' : World} {f : Frame} {o : Outcome}

/-- What the message of a transaction leaves. -/
structure Concludes (m : Message) (w : World) (o : Outcome) (w' : World) : Prop where
  gas : o.gasLeft ≤ m.gas
  failed : o.failure ≠ none → o.destroyed = ∅
  total_le : w.WellFormed → w'.total ≤ w.total
  total_eq : w.WellFormed → o.destroyed = ∅ → w'.total = w.total

private theorem Leaves.concludes (h : m.Leaves w f w') (touched : Std.ExtTreeSet Address) :
    m.Concludes w (Outcome.ofFrame { f with touched }) w' := by
  unfold Outcome.ofFrame
  cases hf : f.failure with
  | none => exact ⟨h.gas, fun hn => absurd rfl hn, h.total_le, h.total_eq⟩
  | some cause =>
    have hw : w.WellFormed → w'.total = w.total := fun hw =>
      World.total_congr (h.restored hw (by simp [hf])).accounts
    exact ⟨h.gas, fun _ => rfl, h.total_le, fun h _ => hw h⟩

/-- The message of a transaction is refused as its place is taken, or it creates or calls. -/
theorem execute_cases (h : m.execute env room w = .ok o w') :
    (w' = w ∧ o = Outcome.collision) ∨
      (∃ f, w.hasCodeOrNonce m.target = false ∧ m.create env room w = .ok f w' ∧ o = Outcome.ofFrame f) ∨
      ∃ f, m.call env room w = .ok f w' ∧ o = Outcome.ofFrame { f with
        touched := if env.rules.stateClearing && w'.isEmptyAccount m.target then f.touched.insert m.target
          else f.touched } := by
  unfold execute at h
  split at h
  · obtain ⟨w₁, w₂, hget, h⟩ := World.of_bind_ok h
    cases hget
    split at h
    · cases h
      exact .inl ⟨rfl, rfl⟩
    · next hfree =>
      obtain ⟨f, w₁, hcreate, h⟩ := World.of_bind_ok h
      cases h
      exact .inr (.inl ⟨f, by simpa using hfree, hcreate, rfl⟩)
  · obtain ⟨f, w₁, hcall, h⟩ := World.of_bind_ok h
    obtain ⟨w₂, w₃, hget, h⟩ := World.of_bind_ok h
    cases hget
    refine .inr (.inr ⟨f, ?_⟩)
    split at h
    · next hempty =>
      cases h
      exact ⟨hcall, by rw [if_pos hempty]⟩
    · next hempty =>
      cases h
      exact ⟨hcall, by rw [if_neg hempty]⟩

theorem execute_ok (h : m.execute env room w = .ok o w') : m.Concludes w o w' := by
  rcases execute_cases h with ⟨rfl, rfl⟩ | ⟨f, -, hcreate, rfl⟩ | ⟨f, hcall, rfl⟩
  · exact ⟨Nat.zero_le _, fun _ => rfl, fun _ => Nat.le_refl _, fun _ _ => rfl⟩
  · exact ((runs_create env room m).leaves hcreate).concludes f.touched
  · exact ((runs_call env room m).leaves hcall).concludes _

theorem execute_evolves (h : m.execute env room w = .ok o w') : w.Evolves w' := by
  rcases execute_cases h with ⟨rfl, -⟩ | ⟨f, -, hcreate, -⟩ | ⟨f, hcall, -⟩
  · exact .refl w'
  · exact ((runs_create env room m).leaves hcreate).evolves
  · exact ((runs_call env room m).leaves hcall).evolves

/-- The checkpoints that a message opens are closed when it ends. -/
theorem execute_checkpoints (hw : w.WellFormed) (h : m.execute env room w = .ok o w') :
    w'.checkpoints = w.checkpoints := by
  rcases execute_cases h with ⟨rfl, -⟩ | ⟨f, -, hcreate, -⟩ | ⟨f, hcall, -⟩
  · rfl
  · exact ((runs_create env room m).leaves hcreate).checkpoints hw
  · exact ((runs_call env room m).leaves hcall).checkpoints hw

theorem overflowsIf_execute {p : WorldError → Prop}
    (h : World.OverflowsIf p (m.runCode env (Children.ofRoom env room))) :
    World.OverflowsIf p (m.execute env room) :=
  have hcall := overflowsIf_callWith h
  .ite (.bind .get fun _ => .ite (.pure _) (.bind (overflowsIf_createWith hcall) fun _ => .pure _))
    (.bind hcall fun _ => .bind .get fun _ => .ite (.pure _) (.pure _))

end Message

end StateTransition
