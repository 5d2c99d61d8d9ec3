import StateTransition.Proofs.Machine.Solvent
import StateTransition.Proofs.World.Unwritten

/-! Static messages. Their code writes nothing, nor does any that it calls: a call for a static frame is
static again and sends no value away, and the other effects are refused. -/
namespace StateTransition

open World (Unwritten SameBesideAccounts)

variable {env : Environment} {rules : Rules} {children : Option Children}

def Message.pay (m : Message) : WorldM Unit :=
  if m.movesValue && m.value ≠ 0 then World.transfer m.caller m.target m.value else pure ()

/-- No value goes from one account to another by the message itself. -/
def Message.Stays (m : Message) : Prop := m.movesValue = false ∨ m.value = 0 ∨ m.caller = m.target

/-- The frame hands over nothing that was written in it. -/
structure Message.Quiet (m : Message) (f : Frame) : Prop where
  logs : f.logs = []
  refund : f.refund = 0
  destroyed : f.destroyed = m.destroyed

structure Children.Quiet (c : Children) : Prop where
  lawful : c.Lawful
  call : ∀ {m : Message} {w w' : World} {f : Frame}, w.WellFormed → m.isStatic = true → m.Stays →
    c.call m w = .ok f w' → m.Quiet f ∧ w.Unwritten w'

private theorem Children.lawful_of_quiet (hc : ∀ c ∈ children, c.Quiet) : ∀ c ∈ children, c.Lawful :=
  fun c h => (hc c h).lawful

theorem World.Unwritten.pay {m : Message} {w w' : World} (hm : m.Stays) (h : m.pay w = .ok () w') :
    Unwritten w w' := by
  unfold Message.pay at h
  split at h
  · next hmoves =>
    have hmoves : m.movesValue = true ∧ m.value ≠ 0 := by simpa using hmoves
    rcases hm with hm | hm | hm
    · rw [hmoves.1] at hm
      cases hm
    · exact absurd hm hmoves.2
    · rw [hm] at h
      exact transfer_self h
  · cases h
    exact .refl w

namespace Frame

variable {f child : Frame} {w : World}

/-- A frame that takes over nothing written hands over what it did before. -/
private theorem absorb_quiet (rules : Rules) (w : World) (hlogs : child.logs = []) (hrefund : child.refund = 0)
    (hdestroyed : child.destroyed = f.destroyed) :
    (f.absorb rules w child).logs = f.logs ∧ (f.absorb rules w child).refund = f.refund ∧
      (f.absorb rules w child).destroyed = f.destroyed := by
  unfold absorb
  split
  · simp only [absorbSuccess]
    refine ⟨by rw [hlogs, List.append_nil], by rw [hrefund, Int.add_zero], ?_⟩
    rw [hdestroyed]
    exact Std.ExtTreeSet.ext_mem fun a => by rw [Std.ExtTreeSet.mem_union_iff, or_self]
  · exact ⟨rfl, rfl, rfl⟩

end Frame

/-! ### Static frames -/

namespace Machine

structure Still (s s' : Machine) : Prop where
  world : s.world.Unwritten s'.world
  logs : s'.frame.logs = s.frame.logs
  refund : s'.frame.refund = s.frame.refund
  destroyed : s'.frame.destroyed = s.frame.destroyed

variable {s s' s'' : Machine}

private theorem Still.refl (s : Machine) : s.Still s := ⟨.refl _, rfl, rfl, rfl⟩

private theorem Still.trans (h : s.Still s') (h' : s'.Still s'') : s.Still s'' :=
  ⟨h.world.trans h'.world, h'.logs.trans h.logs, h'.refund.trans h.refund, h'.destroyed.trans h.destroyed⟩

private theorem isStatic_callMessage {f : Frame} (r : Request) (hstatic : f.message.isStatic = true)
    (data code : ByteArray) : (MachineM.callMessage f r data code).isStatic = true := by
  change (r.isStatic || f.message.isStatic) = true
  rw [hstatic, Bool.or_true]

/-- The calls of a static frame send no value away. -/
private theorem stays_of_from {f : Frame} {w : World} {r : Request} (hr : r.From f.message w)
    (hstatic : f.message.isStatic = true) (data code : ByteArray) :
    (MachineM.callMessage f r data code).Stays := by
  cases hr with
  | call _ hzero => exact .inr (.inl (hzero hstatic))
  | code => exact .inr (.inr rfl)
  | delegate => exact .inl rfl
  | static => exact .inr (.inl rfl)

private theorem Effect.still (h : Effect rules children s s') (hc : ∀ c ∈ children, c.Quiet) (hw : s.world.WellFormed)
    (hstatic : s.frame.message.isStatic = true) : s.Still s' := by
  cases h with
  | frame h => exact ⟨.refl _, h.logs, h.refund, h.destroyed⟩
  | child gasLeft hopen hrun =>
    cases hopen with
    | @call c f _ _ _ hmem hr =>
      obtain ⟨hquiet, hworld⟩ := (hc _ hmem).call hw (isStatic_callMessage _ hstatic _ _)
        (stays_of_from hr hstatic _ _) hrun
      obtain ⟨hlogs, hrefund, hdestroyed⟩ :=
        Frame.absorb_quiet (f := { f with gasLeft }) rules _ hquiet.logs hquiet.refund hquiet.destroyed
      exact ⟨hworld, hlogs, hrefund, hdestroyed⟩
    | create _ hwrites =>
      rw [hstatic] at hwrites
      cases hwrites
  | log _ _ hwrites | write _ _ hwrites | collide hwrites | destroy _ hwrites =>
    rw [hstatic] at hwrites
    cases hwrites

private theorem Effects.still (h : Effects rules children s s') (hc : ∀ c ∈ children, c.Quiet)
    (hw : s.world.WellFormed)
    (hstatic : s.frame.message.isStatic = true) : s.Still s' := by
  induction h with
  | refl => exact .refl s
  | tail hfirst hlast ih =>
    have hevolves := (Effects.advance hfirst (Children.lawful_of_quiet hc)).evolves
    have hmessage := Effects.message hfirst
    exact ih.trans (hlast.still hc (hevolves.wellFormed hw) (hmessage ▸ hstatic))

end Machine

/-! ### Static messages -/

namespace Message

variable {m : Message} {w w' : World} {f : Frame}

private theorem runCode_quiet (hc : ∀ c ∈ children, c.Quiet) (hw : w.WellFormed) (hstatic : m.isStatic = true)
    (h : m.runCode env children w = .ok f w') : m.Quiet f ∧ w.Unwritten w' := by
  obtain ⟨f₁, heffects, hf⟩ := runCode_effects h
  have hstill := heffects.still hc hw hstatic
  refine ⟨?_, hstill.world⟩
  rcases hf with rfl | ⟨cause, rfl⟩ | rfl <;> exact ⟨hstill.logs, hstill.refund, hstill.destroyed⟩

/-- Beside an empty record of the target's, a message that begins has moved its value. -/
private theorem pay_of_enter (h : m.enter w = .ok () w') : ∃ w₁, m.pay w = .ok () w₁ ∧ w₁.Unwritten w' := by
  obtain ⟨⟨⟩, u, hcheckpoint, h⟩ := World.of_bind_ok h
  cases hcheckpoint
  obtain ⟨⟨⟩, u, htouch, h⟩ := World.of_bind_ok h
  cases htouch
  have hbefore : w.Unwritten (w.checkpoint.touch m.target) := (Unwritten.checkpoint w).trans (.touch _ _)
  unfold pay
  split at h
  · next hmoves =>
    rw [if_pos hmoves]
    exact hbefore.transfer h
  · next hmoves =>
    rw [if_neg hmoves]
    cases h
    exact ⟨w, rfl, hbefore⟩

private theorem sameBesideAccounts_of_pay (h : m.pay w = .ok () w') : w.SameBesideAccounts w' := by
  unfold pay at h
  split at h
  · exact .transfer h
  · cases h
    exact .refl w

/-- A static message has moved its value if it succeeded, and nothing at all if it failed. -/
private theorem callWith_quiet (hc : ∀ c ∈ children, c.Quiet) (hw : w.WellFormed) (hstatic : m.isStatic = true)
    (h : m.callWith env children w = .ok f w') :
    m.Quiet f ∧ (f.failure ≠ none → w.Unwritten w') ∧
      (f.failure = none → ∃ w₁, m.pay w = .ok () w₁ ∧ w₁.Unwritten w') := by
  have hleaves := callWith_leaves (Children.lawful_of_quiet hc) h
  obtain ⟨w₁, w₂, henter, hrun, hend⟩ := callWith_cases h
  obtain ⟨u, hpay, hentered⟩ := pay_of_enter henter
  have hw₁ := (enter_ok henter).1.wellFormed hw.checkpoint
  obtain ⟨hquiet, hran⟩ := runCode_quiet hc hw₁ hstatic hrun
  have hpaid : u.Unwritten w₂ := hentered.trans hran
  rcases hend with ⟨hok, hcommit⟩ | ⟨hfailed, hrevert⟩
  · exact ⟨hquiet, fun hf => absurd hok hf, fun _ => ⟨u, hpay, hpaid.trans (.commit hcommit)⟩⟩
  · have hbeside := (sameBesideAccounts_of_pay hpay).trans hpaid.toSameBesideAccounts
    have hworld : w.Unwritten w' := hbeside.reverted hrevert (hleaves.restored hw hfailed)
    exact ⟨hquiet, fun _ => hworld, fun hok => absurd hok hfailed⟩

private theorem callWith_unwritten (hc : ∀ c ∈ children, c.Quiet) (hw : w.WellFormed) (hstatic : m.isStatic = true)
    (hm : m.Stays) (h : m.callWith env children w = .ok f w') : m.Quiet f ∧ w.Unwritten w' := by
  obtain ⟨hquiet, hfailed, hok⟩ := callWith_quiet hc hw hstatic h
  refine ⟨hquiet, ?_⟩
  by_cases hf : f.failure = none
  · obtain ⟨w₁, hpay, hworld⟩ := hok hf
    exact (Unwritten.pay hm hpay).trans hworld
  · exact hfailed hf

end Message

private theorem Children.quiet_ofRoom (env : Environment) (room : Nat) : ∀ c ∈ Children.ofRoom env room, c.Quiet :=
  ofRoom_induction env (fun _ hc =>
    ⟨⟨Message.runs_callWith (lawful_of_quiet hc), Message.runs_createWith (lawful_of_quiet hc)⟩,
      fun hw hstatic hm h => Message.callWith_unwritten hc hw hstatic hm h⟩) room

namespace Message

/-- A static message hands over nothing that was written, and leaves all slots as they were. Unless it
moves value to another account itself, no account is another than it was, and at most records that are
empty are new. If it moves value and succeeds, accounts are as that transfer leaves them. -/
theorem static_call_writes_nothing {w w' : World} {f : Frame} {m : Message} (hw : World.Reachable w)
    (env : Environment) (room : Nat) (hstatic : m.isStatic = true) (h : m.call env room w = .ok f w') :
    f.logs = [] ∧ f.refund = 0 ∧ f.destroyed = m.destroyed ∧ (∀ a k, w'.slot a k = w.slot a k) ∧
      (m.movesValue = false ∨ m.value = 0 ∨ m.caller = m.target ∨ f.failure ≠ none →
        (∀ a, w'.accountOrEmpty a = w.accountOrEmpty a) ∧ w.Unwritten w') ∧
      (m.movesValue = true → m.value ≠ 0 → f.failure = none →
        ∃ w₁, World.transfer m.caller m.target m.value w = .ok () w₁ ∧
          (∀ a, w'.accountOrEmpty a = w₁.accountOrEmpty a) ∧ w₁.Unwritten w') := by
  have hc := Children.quiet_ofRoom env room
  obtain ⟨hquiet, hfailed, hok⟩ := callWith_quiet hc hw.wellFormed hstatic h
  have hstays :
      m.movesValue = false ∨ m.value = 0 ∨ m.caller = m.target ∨ f.failure ≠ none → w.Unwritten w' := by
    rintro (hm | hm | hm | hf)
    · exact (callWith_unwritten hc hw.wellFormed hstatic (.inl hm) h).2
    · exact (callWith_unwritten hc hw.wellFormed hstatic (.inr (.inl hm)) h).2
    · exact (callWith_unwritten hc hw.wellFormed hstatic (.inr (.inr hm)) h).2
    · exact hfailed hf
  have hslots : ∀ a k, w'.slot a k = w.slot a k := by
    intro a k
    by_cases hf : f.failure = none
    · obtain ⟨w₁, hpay, hworld⟩ := hok hf
      exact (hworld.slot a k).trans ((sameBesideAccounts_of_pay hpay).slot a k)
    · exact (hfailed hf).slot a k
  refine ⟨hquiet.logs, hquiet.refund, hquiet.destroyed, hslots, fun hm => ?_, fun hmoves hvalue hf => ?_⟩
  · exact ⟨(hstays hm).accountOrEmpty, hstays hm⟩
  · obtain ⟨w₁, hpay, hworld⟩ := hok hf
    rw [pay, if_pos (by simpa [hmoves] using hvalue)] at hpay
    exact ⟨w₁, hpay, hworld.accountOrEmpty, hworld⟩

/-- A static message of 5 wei, that is not sent by code, moves them. -/
theorem static_call_moves_value :
    let env : Environment := ⟨Rules.ofFork .london, ⟨1, 0, 30000000, 0, 0, 0, none, []⟩, ⟨0, 0⟩⟩
    let m : Message :=
      { caller := 0x10, isCreation := false, target := 0x20, codeAddress := some 0x20, gas := 100000
        value := 5, data := .empty, code := .empty, movesValue := true, isStatic := true, warmAddresses := ∅
        warmSlots := ∅, destroyed := ∅ }
    let w := (World.Operation.setBalance 0x20 1).run ((World.Operation.setBalance 0x10 100).run .empty)
    World.Reachable w ∧ m.isStatic = true ∧ ∃ f w', m.call env callDepthLimit w = .ok f w' ∧ f.failure = none ∧
      w'.accountOrEmpty 0x10 ≠ w.accountOrEmpty 0x10 ∧ w'.accountOrEmpty 0x20 ≠ w.accountOrEmpty 0x20 := by
  intro env m w
  have hrun : endsWith (fun f w' => f.failure = none ∧ w'.accountOrEmpty 0x10 ≠ w.accountOrEmpty 0x10 ∧
      w'.accountOrEmpty 0x20 ≠ w.accountOrEmpty 0x20) (m.call env callDepthLimit w) := by decide +kernel
  obtain ⟨f, w', hr, htest⟩ := exists_of_endsWith hrun
  exact ⟨.run (.run .empty _) _, rfl, f, w', hr, of_decide_eq_true htest⟩

/-- Static code sends 5 wei to itself with another's code, and a call to an account without a record, which
has an empty one then. -/
theorem static_call_writes_nothing_of_calls :
    let code : ByteArray := ⟨#[0x60, 0, 0x60, 0, 0x60, 0, 0x60, 0, 0x60, 5, 0x60, 0x30, 0x5a, 0xf2,
      0x60, 0, 0x60, 0, 0x60, 0, 0x60, 0, 0x60, 0, 0x60, 0x40, 0x5a, 0xf1]⟩
    let env : Environment := ⟨Rules.ofFork .berlin, ⟨1, 0, 8000000, 0x99, 0, 1, none, []⟩, ⟨0x77, 1⟩⟩
    let m : Message :=
      { caller := 0x77, isCreation := false, target := 0x10, codeAddress := some 0x10, gas := 100000
        value := 0, data := .empty, code, movesValue := true, isStatic := true, warmAddresses := ∅
        warmSlots := ∅, destroyed := ∅ }
    let w := (World.Operation.setBalance 0x10 100).run .empty
    World.Reachable w ∧ m.isStatic = true ∧ ∃ f w', m.call env 3 w = .ok f w' ∧ f.failure = none ∧
      w.hasAccount 0x40 = false ∧ w'.hasAccount 0x40 = true ∧ f.logs = [] ∧ f.refund = 0 ∧ f.destroyed = ∅ ∧
      (∀ a k, w'.slot a k = w.slot a k) ∧ ∀ a, w'.accountOrEmpty a = w.accountOrEmpty a := by
  intro code env m w
  have hw : World.Reachable w := .run .empty _
  have hrun : endsWith (fun f w' => f.failure = none ∧ w.hasAccount 0x40 = false ∧ w'.hasAccount 0x40 = true)
      (m.call env 3 w) := by decide +kernel
  obtain ⟨f, w', hr, htest⟩ := exists_of_endsWith hrun
  obtain ⟨hf, hbefore, hafter⟩ := of_decide_eq_true htest
  obtain ⟨hlogs, hrefund, hdestroyed, hslots, haccounts, -⟩ := static_call_writes_nothing hw env 3 rfl hr
  exact ⟨hw, rfl, f, w', hr, hf, hbefore, hafter, hlogs, hrefund, hdestroyed, hslots,
    (haccounts (.inr (.inl rfl))).1⟩

end Message

end StateTransition
