import StateTransition.Proofs.Machine.Behaviour
import StateTransition.Proofs.Machine.Nesting
import StateTransition.Proofs.Machine.Place

/-! What is warm, from frame to frame. A frame only ever adds to what it was given. A child begins with what is warm in
its parent, so that taking over what a child that succeeded adds comes to having what the child ended with. -/
namespace StateTransition

variable {env : Environment} {rules : Rules} {children : Option Children}

/-- What costs more when it is used for the first time. -/
inductive Entry where
  | account (a : Address)
  | slot (key : SlotKey)
  deriving DecidableEq

namespace Frame

variable {f f' f'' child : Frame}

def isWarm (f : Frame) : Entry → Bool
  | .account a => f.warmAddresses.contains a
  | .slot key => f.warmSlots.contains key

/-- What is warm in a frame, and the message that it is for. -/
def warmth (f : Frame) : Std.ExtTreeSet Address × Std.ExtTreeSet SlotKey × Message :=
  (f.warmAddresses, f.warmSlots, f.message)

instance : Frame.Aside warmth := ⟨fun _ _ _ _ _ => rfl⟩

def StaysWarm (f f' : Frame) : Prop := ∀ e, f.isWarm e = true → f'.isWarm e = true

structure SameWarmth (f f' : Frame) : Prop where
  addresses : f'.warmAddresses = f.warmAddresses
  slots : f'.warmSlots = f.warmSlots

/-- A child was given what was warm in a frame, and the frame has come out of it with what is warm in the child if that
succeeded, and as it was if it failed. -/
structure Inherits (f f' child : Frame) : Prop where
  given : f.StaysWarm child
  failed : child.failure ≠ none → f.SameWarmth f'
  succeeded : child.failure = none → child.SameWarmth f'

private theorem SameWarmth.trans (h : f.SameWarmth f') (h' : f'.SameWarmth f'') : f.SameWarmth f'' :=
  ⟨h'.addresses.trans h.addresses, h'.slots.trans h.slots⟩

theorem SameWarmth.isWarm (h : f.SameWarmth f') (e : Entry) : f'.isWarm e = f.isWarm e := by
  cases e with
  | account a => exact congrArg (·.contains a) h.addresses
  | slot key => exact congrArg (·.contains key) h.slots

private theorem Inherits.trans (h : f.Inherits f' child) (h' : f'.SameWarmth f'') : f.Inherits f'' child :=
  ⟨h.given, fun hfailed => (h.failed hfailed).trans h', fun hok => (h.succeeded hok).trans h'⟩

private theorem SameWarmth.inherits (h : f.SameWarmth f') (hi : f'.Inherits f'' child) : f.Inherits f'' child :=
  ⟨fun e he => hi.given e ((h.isWarm e).trans he), fun hfailed => h.trans (hi.failed hfailed), hi.succeeded⟩

namespace StaysWarm

theorem refl (f : Frame) : f.StaysWarm f := fun _ => id

theorem trans (h : f.StaysWarm f') (h' : f'.StaysWarm f'') : f.StaysWarm f'' := fun e he => h' e (h e he)

theorem of_same (h : f.SameWarmth f') : f.StaysWarm f' := fun e he => (h.isWarm e).trans he

theorem cold {e : Entry} (h : f.StaysWarm f') (hcold : f'.isWarm e = false) : f.isWarm e = false :=
  Bool.eq_false_of_not_eq_true fun hwarm => Bool.false_ne_true (hcold.symm.trans (h e hwarm))

private theorem iff : f.StaysWarm f' ↔
    (∀ a ∈ f.warmAddresses, a ∈ f'.warmAddresses) ∧ ∀ key ∈ f.warmSlots, key ∈ f'.warmSlots := by
  simp only [← Std.ExtTreeSet.contains_iff_mem]
  exact ⟨fun h => ⟨fun a => h (.account a), fun key => h (.slot key)⟩,
    fun h e => match e with
      | .account a => h.1 a
      | .slot key => h.2 key⟩

/-- What a child ended with is what its parent has with it, as the child began with what the parent has. -/
private theorem union (h : f.StaysWarm child) :
    f.warmAddresses ∪ child.warmAddresses = child.warmAddresses ∧ f.warmSlots ∪ child.warmSlots = child.warmSlots := by
  obtain ⟨haddresses, hslots⟩ := iff.mp h
  constructor
  · apply Std.ExtTreeSet.ext_mem
    intro a
    rw [Std.ExtTreeSet.mem_union_iff]
    exact or_iff_right_of_imp (haddresses a)
  · apply Std.ExtTreeSet.ext_mem
    intro key
    rw [Std.ExtTreeSet.mem_union_iff]
    exact or_iff_right_of_imp (hslots key)

theorem absorb (rules : Rules) (w : World) (f child : Frame) : f.StaysWarm (f.absorb rules w child) := by
  unfold Frame.absorb
  split
  · refine iff.mpr ⟨fun a ha => ?_, fun key hkey => ?_⟩
    · exact Std.ExtTreeSet.mem_union_iff.mpr (.inl ha)
    · exact Std.ExtTreeSet.mem_union_iff.mpr (.inl hkey)
  · exact of_same ⟨rfl, rfl⟩

end StaysWarm

private theorem inherits_absorb (rules : Rules) (w : World) (gasLeft : Nat) (h : f.StaysWarm child) :
    f.Inherits (({ f with gasLeft } : Frame).absorb rules w child) child where
  given := h
  failed hfailed := by
    rw [absorb_of_failed hfailed]
    exact ⟨rfl, rfl⟩
  succeeded hok := by
    rw [absorb, if_pos (by simp [Frame.succeeded, hok])]
    exact ⟨h.union.1, h.union.2⟩

end Frame

/-! ### Within a frame -/

namespace Machine

variable {s s' : Machine}

private theorem Effect.staysWarm (h : Effect rules children s s') : s.frame.StaysWarm s'.frame := by
  cases h with
  | frame h => exact Frame.StaysWarm.iff.mpr ⟨h.warmAddresses, h.warmSlots⟩
  | child gasLeft hopen hrun => exact Frame.StaysWarm.absorb rules _ { s.frame with gasLeft } _
  | log | write | collide | destroy => exact .refl _

private theorem Effects.staysWarm (h : Effects rules children s s') : s.frame.StaysWarm s'.frame := by
  induction h with
  | refl => exact .refl _
  | tail _ hlast ih => exact ih.trans hlast.staysWarm

end Machine

namespace MachineM

open Machine

variable {α β : Type} {a : α} {m m' : Machine} {cause : Failure} {P : α → Prop} {msg : Message}

theorem Does.staysWarm {x : MachineM α} (h : Does rules children msg P x) (hm : m.frame.message = msg)
    (hx : x m = .ok a m') : m.frame.StaysWarm m'.frame := by
  have hdoes := h m hm
  rw [hx] at hdoes
  exact Effects.staysWarm hdoes.1

theorem Does.staysWarm_of_failure {x : MachineM α} (h : Does rules children msg P x) (hm : m.frame.message = msg)
    (hx : x m = .error (.failure cause) m') : m.frame.StaysWarm m'.frame := by
  have hdoes := h m hm
  rw [hx] at hdoes
  exact Effects.staysWarm hdoes

end MachineM

/-! ### From a message to the frame that it leaves -/

structure Children.Warming (c : Children) : Prop where
  call : ∀ {m : Message} {w w' : World} {f : Frame}, c.call m w = .ok f w' → (Frame.ofMessage m).StaysWarm f
  create : ∀ {m : Message} {w w' : World} {f : Frame}, c.create m w = .ok f w' → (Frame.ofMessage m).StaysWarm f

namespace Message

variable {m : Message} {w w' : World} {f f' : Frame}

private theorem runCode_staysWarm (h : m.runCode env children w = .ok f w') : (Frame.ofMessage m).StaysWarm f := by
  obtain ⟨f₁, heffects, hend⟩ := runCode_effects h
  refine Frame.StaysWarm.trans heffects.staysWarm (.of_same ?_)
  rcases hend with rfl | ⟨cause, rfl⟩ | rfl <;> exact ⟨rfl, rfl⟩

private theorem callWith_staysWarm (h : m.callWith env children w = .ok f w') : (Frame.ofMessage m).StaysWarm f := by
  obtain ⟨w₁, w₂, -, hrun, -⟩ := callWith_cases h
  exact runCode_staysWarm hrun

private theorem install_sameWarmth (h : m.install rules f w = .ok f' w') : f.SameWarmth f' := by
  obtain ⟨gasLeft, -, ⟨-, rfl, -⟩ | ⟨rfl, -⟩ | ⟨cause, rfl, -⟩⟩ := install_ok h <;> exact ⟨rfl, rfl⟩

private theorem createWith_staysWarm (h : m.createWith env children w = .ok f w') :
    (Frame.ofMessage m).StaysWarm f := by
  obtain ⟨w₁, f₁, w₂, -, hcall, ⟨-, hinstall⟩ | ⟨-, rfl, -⟩⟩ := createWith_cases h
  · exact (callWith_staysWarm hcall).trans (.of_same (install_sameWarmth hinstall))
  · exact callWith_staysWarm hcall

end Message

theorem Children.warming_ofRoom (env : Environment) (room : Nat) : ∀ c ∈ Children.ofRoom env room, c.Warming :=
  ofRoom_induction env (fun _ _ => ⟨Message.callWith_staysWarm, Message.createWith_staysWarm⟩) room

/-! ### From a child to its parent -/

/-- What a creation needs that is paid for: its sender has the value and can send more, and there is no contract. -/
def CreationRequest.proceeds (r : CreationRequest) (sender : Address) (w : World) : Bool :=
  !((w.accountOrEmpty sender).balance < r.value || (w.accountOrEmpty sender).nonce.toNat = maxCount) &&
    !w.hasCodeOrNonce r.contract

namespace MachineM

variable {α β : Type} {c : Children} {m m' : Machine}

abbrev SparesWarmth (x : MachineM α) : Prop := Preserves Frame.warmth x

theorem SparesWarmth.sameWarmth {x : MachineM α} {a : α} (hx : SparesWarmth x) (h : x m = .ok a m') :
    m.frame.SameWarmth m'.frame ∧ m'.frame.message = m.frame.message := by
  have hsame := hx _ _ _ h
  simp only [Frame.warmth, Prod.mk.injEq] at hsame
  exact ⟨⟨hsame.1, hsame.2.1⟩, hsame.2.2⟩

theorem sameWarmth_of_ok {x : MachineM α} {a : α} (h : x m = .ok a m') (hx : SparesWarmth x) :
    m.frame.SameWarmth m'.frame := (hx.sameWarmth h).1

private theorem runChild_inherits {run : WorldM Frame} {child : Frame}
    (hgiven : ∀ w', run m.world = .ok child w' → m.frame.StaysWarm child) (h : runChild rules run m = .ok child m') :
    (∃ w', run m.world = .ok child w') ∧ m.frame.Inherits m'.frame child := by
  match hrun : run m.world with
  | .ok child' w' =>
    obtain ⟨rfl, -, rfl⟩ := runChild_ok hrun h
    exact ⟨⟨w', rfl⟩, Frame.inherits_absorb rules w' _ (hgiven w' hrun)⟩
  | .error cause w' =>
    rw [runChild_of_error hrun] at h
    cases h

/-- A call that is sent comes to the frame of its callee, which was given what was warm before. -/
theorem send_inherits (hc : c.Warming) {r : Request} (h : send rules (some c) r m = .ok () m') :
    ∃ child w', c.call (callMessage m.frame r (m.frame.readMemory r.input) (m.world.code r.codeAddress)) m.world =
        .ok child w' ∧ m.frame.Inherits m'.frame child := by
  let m₁ : Machine := ⟨{ m.frame with returnData := ByteArray.empty }, m.world⟩
  have hset : setReturnData ByteArray.empty m = .ok () m₁ := rfl
  have hread : readMemory r.input m₁ = .ok (m₁.frame.readMemory r.input) m₁ := rfl
  rw [send, bind_of_ok hset] at h
  dsimp only at h
  rw [bind_of_ok hread, world_bind, frame_bind] at h
  obtain ⟨child, m₂, hrun, hrest⟩ := ok_of_next h
  obtain ⟨⟨w', hcall⟩, hinherits⟩ := runChild_inherits (fun w' hcall => hc.call hcall) hrun
  have hspared := sameWarmth_of_ok hrest <| .next (.push _) fun _ => .next (.writeMemory _ _) fun _ => .setReturnData _
  have hcleared : m.frame.SameWarmth m₁.frame := ⟨rfl, rfl⟩
  exact ⟨child, w', hcall, hcleared.inherits (hinherits.trans hspared)⟩

/-- A creation whose sender has the value and can send more, and which finds no contract, comes to the frame of the code
that makes one; any other warms nothing. -/
theorem place_inherits (hc : c.Warming) {r : CreationRequest} (h : place rules (some c) r m = .ok () m') :
    if r.proceeds m.frame.message.target m.world then
      ∃ w₁ child w', World.incrementNonce m.frame.message.target m.world = .ok () w₁ ∧
        c.create (creationMessage m.frame r.contract r.gas r.value (m.frame.readMemory r.code)) w₁ = .ok child w' ∧
          m.frame.Inherits m'.frame child
    else m.frame.SameWarmth m'.frame := by
  let m₁ : Machine := ⟨{ m.frame with returnData := ByteArray.empty }, m.world⟩
  have hset : setReturnData ByteArray.empty m = .ok () m₁ := rfl
  have hread : readMemory r.code m₁ = .ok (m₁.frame.readMemory r.code) m₁ := rfl
  rw [place, bind_of_ok hset, frame_bind, world_bind] at h
  dsimp only at h
  have hcleared : m.frame.SameWarmth m₁.frame := ⟨rfl, rfl⟩
  split at h
  · next hrefused =>
    have hstays : r.proceeds m.frame.message.target m.world = false := by
      rw [CreationRequest.proceeds, show (_ || _) = true from hrefused, Bool.not_true, Bool.false_and]
    rw [if_neg (Bool.eq_false_iff.mp hstays)]
    exact hcleared.trans (sameWarmth_of_ok h (.refuse r.gas))
  · next hsent =>
    rw [world_bind] at h
    split at h
    · next htaken =>
      have hstays : r.proceeds m.frame.message.target m.world = false := by
        rw [CreationRequest.proceeds, show m.world.hasCodeOrNonce r.contract = true from htaken, Bool.not_true,
          Bool.and_false]
      rw [if_neg (Bool.eq_false_iff.mp hstays)]
      exact hcleared.trans (sameWarmth_of_ok h (.next (.changeWorld _) fun _ => .push 0))
    · next hfree =>
      have hproceeds : r.proceeds m.frame.message.target m.world = true := by
        rw [CreationRequest.proceeds, show (_ || _) = false from Bool.eq_false_of_not_eq_true hsent,
          show m.world.hasCodeOrNonce r.contract = false from Bool.eq_false_of_not_eq_true hfree]
        rfl
      rw [if_pos hproceeds]
      rw [bind_of_ok hread] at h
      obtain ⟨⟨⟩, m₂, hraise, h⟩ := ok_of_next h
      obtain ⟨w₁, hraised, rfl⟩ := changeWorld_ok hraise
      rw [frame_bind] at h
      obtain ⟨child, m₃, hrun, hrest⟩ := ok_of_next h
      obtain ⟨⟨w', hcreate⟩, hinherits⟩ := runChild_inherits (fun w' hcreate => hc.create hcreate) hrun
      have hspared := sameWarmth_of_ok hrest <| .ite (.push _) <| .next (.setReturnData _) fun _ => .push 0
      exact ⟨w₁, child, w', hraised, hcreate, hcleared.inherits (hinherits.trans hspared)⟩

end MachineM

end StateTransition
