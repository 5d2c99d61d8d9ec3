import StateTransition.Proofs.Machine.Effect

/-! What every operation does, and so what the code of a message does from its first operation to its
last. -/
namespace StateTransition

namespace MachineM

open Machine

variable {α : Type} {rules : Rules} {children : Option Children} {msg : Message} {m : Machine}
  {P : α → Prop}

namespace Does

private theorem of {x : MachineM α} (h : Computes msg P x) : Does rules children msg P x := fun m hm => by
  have hkept := h m hm
  match hr : x m with
  | .ok a m' =>
    obtain ⟨hkeeps, hworld, ha⟩ := h.ok hm hr
    obtain ⟨f, w⟩ := m'
    cases hworld
    exact ⟨.single (.frame hkeeps), ha⟩
  | .error (.failure cause) m' =>
    rw [hr] at hkept
    obtain ⟨hkeeps, hworld⟩ := hkept
    obtain ⟨f, w⟩ := m'
    cases hworld
    exact .single (.frame hkeeps)
  | .error (.fault cause) m' => exact (h.not_fault hm hr).elim

/-- A condition that stops the frame where it does not hold. -/
private theorem haltIf {c : Prop} [Decidable c] {cause : Halt} {x : MachineM α}
    (hx : ¬ c → Does rules children msg P x) :
    Does rules children msg P (if c then (MachineM.halt cause : MachineM Unit) >>= fun _ => x else x) :=
  .ite (fun _ => .bind (P := fun _ => False) (.of (.halt cause)) fun _ h => h.elim) hx

private theorem giveBack (amount : Nat) : Does rules children msg (fun _ => True) (giveBack amount) := fun m _ => by
  unfold MachineM.giveBack
  by_cases h : m.frame.gasLeft + amount < countLimit
  · simp only [if_pos h]
    exact ⟨.single (.frame (.registers ..)), trivial⟩
  · simp only [if_neg h]
    exact ⟨m, .refl, .overflow m rfl⟩

/-- A write is paid for and refunded by what the slot holds and held in the world that it is made in. -/
private theorem paidWrite (hstatic : m.frame.message.isStatic = false) (amount : Nat) (key new : Word) :
    Follows rules children m (fun _ => True) ((do
      MachineM.charge amount
      addRefund (writeRefund rules (m.world.initialSlot m.frame.message.target key)
        (m.world.slot m.frame.message.target key) new)
      MachineM.modifyWorld (World.setSlot m.frame.message.target key new) : MachineM Unit) m) := by
  by_cases hpaid : amount ≤ m.frame.gasLeft
  · let m₁ : Machine := ⟨{ m.frame with gasLeft := m.frame.gasLeft - amount }, m.world⟩
    have hpay : Effects rules children m m₁ := .single (.frame (.registers ..))
    rw [bind_of_ok (if_pos hpaid)]
    by_cases hfits : m₁.frame.fitsRefund (writeRefund rules (m.world.initialSlot m.frame.message.target key)
        (m.world.slot m.frame.message.target key) new) = true
    · rw [bind_of_ok (addRefund_of_fits (m := m₁) hfits)]
      exact ⟨.tail hpay (.write key new hstatic), trivial⟩
    · rw [bind_of_error (addRefund_of_not_fits (m := m₁) hfits)]
      exact ⟨m₁, hpay, .overflow m₁ rfl⟩
  · rw [bind_of_error (if_neg hpaid)]
    exact .refl

private theorem storeSlot (hstatic : msg.isStatic = false) :
    Does rules children msg (fun _ => True) (storeSlot rules) := by
  refine .next (.of .pop) fun key => .next (.of .pop) fun new => .bind (.of .frame) fun _ _ => .haltIf fun _ => ?_
  refine .bind (.of .frame) fun f hf => .next (.of (.slotPrice _ _)) fun first m hm => ?_
  rw [world_bind, world_bind, hf, ← hm]
  exact paidWrite (hm ▸ hstatic) _ key new

private theorem record (hstatic : msg.isStatic = false) (topics : Nat) :
    Does rules children msg (fun _ => True) (record topics) :=
  .next (.of .popExtent) fun _ => .next (.of (.popMany topics)) fun _ => .next (.of (.chargeWithMemory _ _)) fun _ =>
    .next (.of (.readMemory _)) fun _ _ hm => ⟨.single (.log _ _ (hm ▸ hstatic)), trivial⟩

/-! ### Sending messages -/

private theorem refuse (gas : Nat) : Does rules children msg (fun _ => True) (refuse gas) :=
  .next (.giveBack gas) fun _ => .of (.push 0)

/-- The gas that a child leaves is got back before what it has done is taken over. -/
private theorem runChild {run : WorldM Frame} {w₁ : World} (hopen : Opens children m run w₁) :
    Follows rules children m (fun _ => True) (runChild rules run ⟨m.frame, w₁⟩) := by
  match hrun : run w₁ with
  | .ok child w₂ =>
    rw [runChild_of_ok (m := ⟨m.frame, w₁⟩) hrun]
    split
    · split
      · exact ⟨m, .refl, .childOverflow rfl hopen hrun⟩
      · exact ⟨.single (.child _ hopen hrun), trivial⟩
    · exact ⟨m, .refl, .childOverflow rfl hopen hrun⟩
  | .error cause w₂ =>
    rw [runChild_of_error (m := ⟨m.frame, w₁⟩) hrun]
    exact ⟨m, .refl, .child hopen hrun⟩

private theorem send {r : Request} (hm : m.frame.message = msg) (hr : r.From msg m.world) :
    Follows rules children m (fun _ => True) (send rules children r m) := by
  let m₁ : Machine := ⟨{ m.frame with returnData := ByteArray.empty }, m.world⟩
  have hset : Effects rules children m m₁ := .single (.frame (.registers ..))
  have hset' : MachineM.setReturnData ByteArray.empty m = .ok () m₁ := rfl
  unfold MachineM.send
  rw [bind_of_ok hset']
  refine .after hset ?_
  cases children with
  | none => exact refuse r.gas m₁ hm
  | some c =>
    have hopen : Opens (some c) m₁
        (c.call (callMessage m₁.frame r (m₁.frame.readMemory r.input) (m₁.world.code r.codeAddress)))
        m₁.world := .call rfl (hm ▸ hr)
    have hread : MachineM.readMemory r.input m₁ = .ok (m₁.frame.readMemory r.input) m₁ := rfl
    dsimp only
    rw [bind_of_ok hread, world_bind, frame_bind]
    exact (runChild hopen).bind hm fun child _ =>
      .of (.next (.push _) fun _ => .next (.writeMemory _ _) fun _ => .setReturnData _)

private theorem sendValue {r : Request} (hr : ∀ w : World, r.value ≤ w.balance r.caller → r.From msg w) :
    Does rules children msg (fun _ => True) (sendValue rules children r) := fun m hm => by
  rw [MachineM.sendValue, world_bind]
  split
  · have hrest : Does rules children msg (fun _ => True) (do
        MachineM.push 0
        MachineM.setReturnData ByteArray.empty
        MachineM.giveBack r.gas) :=
      .next (.of (.push 0)) fun _ => .next (.of (.setReturnData _)) fun _ => .giveBack r.gas
    exact hrest m hm
  · next hvalue => exact send hm (hr m.world (BitVec.not_lt.mp hvalue))

/-- Where the nonce can be raised, it is raised before the address is found taken, or before the
contract is created. -/
private theorem place (hstatic : msg.isStatic = false) (r : CreationRequest) :
    Does rules children msg (fun _ => True) (place rules children r) := by
  refine .next (.of (.setReturnData _)) fun _ m hm => ?_
  rw [frame_bind, world_bind]
  cases children with
  | none => exact refuse r.gas m hm
  | some c =>
    dsimp only
    split
    · exact refuse r.gas m hm
    · next hmay =>
      simp only [Bool.or_eq_true, decide_eq_true_eq, not_or, BitVec.not_lt] at hmay
      obtain ⟨hvalue, hnonce⟩ := hmay
      obtain ⟨w₁, hraise⟩ := World.exists_incrementNonce hnonce
      have hraised := changeWorld_of_ok (m := m) hraise
      rw [world_bind]
      split
      · next htaken =>
        rw [bind_of_ok hraised]
        exact .after (.single (.collide (hm ▸ hstatic) htaken hraise)) (of (.push 0) ⟨m.frame, w₁⟩ hm)
      · next hfree =>
        have hopen : Opens (some c) m (c.create
            (creationMessage m.frame r.contract r.gas r.value (m.frame.readMemory r.code))) w₁ :=
          .create rfl (hm ▸ hstatic) hvalue (by simpa using hfree) hraise
        have hread : MachineM.readMemory r.code m = .ok (m.frame.readMemory r.code) m := rfl
        rw [bind_of_ok hread, bind_of_ok hraised, frame_bind]
        exact (runChild hopen).bind hm fun child _ =>
          .of (.ite (fun _ => .push _) fun _ => .next (.setReturnData _) fun _ => .push 0)

private theorem createContract (hstatic : msg.isStatic = false) (salted : Bool) :
    Does rules children msg (fun _ => True) (createContract rules children salted) :=
  .next (.of (.creationRequest salted)) fun r => .place hstatic r

/-! ### Destroying the running account -/

/-- Once a destruction is paid for, the account is destroyed unless its heir would have too much. -/
private theorem paidDestruction (hstatic : m.frame.message.isStatic = false) (amount : Nat)
    (heir : Address) :
    Follows rules children m (fun _ => True) ((do
      MachineM.charge amount
      addRefund (if (← MachineM.frame).destroyed.contains m.frame.message.target then 0
        else rules.gas.selfdestructRefund)
      bequeath m.frame.message.target heir
      if rules.stateClearing && (← MachineM.world).isEmptyAccount heir then
        MachineM.modifyFrame fun f => { f with touched := f.touched.insert heir }
      MachineM.modifyFrame fun f => { f with running := false } : MachineM Unit) m) := by
  by_cases hpaid : amount ≤ m.frame.gasLeft
  · let f : Frame := { m.frame with gasLeft := m.frame.gasLeft - amount }
    have hpay : Effects rules children m ⟨f, m.world⟩ := .single (.frame (.registers ..))
    rw [bind_of_ok (if_pos hpaid)]
    refine .after hpay ?_
    rw [frame_bind]
    change Follows rules children ⟨f, m.world⟩ (fun _ => True)
      ((addRefund (f.destructionRefund rules) >>= _) ⟨f, m.world⟩)
    by_cases hfits : f.fitsRefund (f.destructionRefund rules) = true
    swap
    · rw [bind_of_error (addRefund_of_not_fits (m := ⟨f, m.world⟩) hfits)]
      exact ⟨⟨f, m.world⟩, .refl, .overflow _ rfl⟩
    let f₁ : Frame := { f with refund := f.refund + f.destructionRefund rules }
    rw [bind_of_ok (addRefund_of_fits (m := ⟨f, m.world⟩) hfits)]
    match hgive : World.addBalance heir (m.world.balance m.frame.message.target) m.world with
    | .error cause w₁ =>
      rw [bind_of_error (bequeath_of_error (m := ⟨f₁, m.world⟩) hgive)]
      exact ⟨⟨f, m.world⟩, .refl, .heir heir hgive⟩
    | .ok () w₁ =>
      have hdestroy : Effect rules children ⟨f, m.world⟩ _ := .destroy heir hstatic hgive
      rw [bind_of_ok (bequeath_of_ok (m := ⟨f₁, m.world⟩) hgive), world_bind]
      have hsame : f.message.target = m.frame.message.target := rfl
      dsimp only
      rw [hsame] at hdestroy
      split at hdestroy
      · next hempty =>
        rw [if_pos hempty]
        exact ⟨.tail (.single hdestroy) (.frame (.registers ..)), trivial⟩
      · next hempty =>
        rw [if_neg hempty]
        exact ⟨.tail (.single hdestroy) (.frame (.registers ..)), trivial⟩
  · rw [bind_of_error (if_neg hpaid)]
    exact .refl

private theorem selfDestruct (hstatic : msg.isStatic = false) :
    Does rules children msg (fun _ => True) (selfDestruct rules) := by
  refine .next (.of .popAddress) fun heir => .bind (.of .frame) fun f hf => ?_
  simp only [payForDestruction_eq, bind_assoc]
  refine .next (.of (.accessPrice heir 0)) fun access m hm => ?_
  rw [world_bind, hf, ← hm]
  exact paidDestruction (hm ▸ hstatic) _ heir

/-! ### All operations -/

private theorem perform {env : Environment} (op : Opcode)
    (hstatic : op.isStateModifying → msg.isStatic = false) :
    Does env.rules children msg (fun _ => True) (perform env children op) := by
  by_cases hop : op.isComputation = true
  · exact .of (.perform hop)
  · cases op with
    | sstore => exact .storeSlot (hstatic rfl)
    | log topics => exact .record (hstatic rfl) _
    | create | create2 => exact .createContract (hstatic rfl) _
    | call => exact .bind (.of .callRequest) fun _ hr => .sendValue hr
    | callcode => exact .bind (.of .codeRequest) fun _ hr => .sendValue hr
    | delegatecall => exact .bind (.of .delegateRequest) fun _ hr m hm => send hm (hr m.world)
    | staticcall => exact .bind (.of .staticRequest) fun _ hr m hm => send hm (hr m.world)
    | selfdestruct => exact .selfDestruct (hstatic rfl)
    | _ => exact absurd rfl hop

/-- An operation that may write is stopped before it does anything where nothing may be written. -/
private theorem operate {env : Environment} (op : Opcode) :
    Does env.rules children msg (fun _ => True) (operate env children op) :=
  .next (.of (.charge _)) fun _ => .bind (.of .frame) fun f hf => .haltIf fun hmay =>
    .next (.of (.modifyFrame fun _ => .registers ..)) fun _ => .perform op fun hop => by
      simpa [hop, hf] using hmay

theorem step {env : Environment} : Does env.rules children msg (fun _ => True) (step env children) :=
  .bind (.of .frame) fun f _ => by
    dsimp only
    split
    · exact .of (.halt _)
    · exact .operate _

private theorem steps {env : Environment} (fuel : Nat) :
    Does env.rules children msg (fun _ => True) (steps env children fuel) := by
  induction fuel with
  | zero => exact .pure trivial
  | succ fuel ih =>
    exact .bind (.of .frame) fun _ _ => .ite (fun _ => .next .step fun _ => ih) fun _ => .pure trivial

private theorem run {env : Environment} : Does env.rules children msg (fun _ => True) (run env children) :=
  .bind (.of .frame) fun _ _ => .steps _

private theorem precompile (index : UInt8) :
    Does rules children msg (fun _ => True) (Precompile.run rules index) :=
  .bind (.of .frame) fun f _ => by
    dsimp only
    split
    · exact .of (.halt _)
    · refine .next (.of (.charge _)) fun _ => ?_
      match h : Precompile.evaluate index f.message.data with
      | .error stop =>
        obtain ⟨cause, rfl⟩ | ⟨rfl, -⟩ := Precompile.evaluate_error h
        · exact of (.halt cause)
        · exact fun m _ => ⟨m, .refl, .overflow m rfl⟩
      | .ok output =>
        have hset : Does rules children msg (fun _ => True)
            (MachineM.modifyFrame fun f => { f with output, running := false }) :=
          .of (.modifyFrame fun _ => .registers ..)
        exact hset

private theorem start {env : Environment} : Does env.rules children msg (fun _ => True) (start env children) :=
  .bind (.of .frame) fun f _ => by
    split
    · exact .ite (fun _ => .precompile _) fun _ => .run
    · exact .run

end Does

end MachineM

namespace Message

open Machine

variable {env : Environment} {children : Option Children} {m : Message} {w w' : World} {f : Frame}

/-- The frame that code leaves has had its effects, and was halted or reverted in the end at most. -/
theorem runCode_effects (h : m.runCode env children w = .ok f w') :
    ∃ f₁, Effects env.rules children ⟨.ofMessage m, w⟩ ⟨f₁, w'⟩ ∧
      (f = f₁ ∨ (∃ cause, f = f₁.halt cause) ∨ f = f₁.revert) := by
  have hdoes : MachineM.Follows env.rules children ⟨.ofMessage m, w⟩ (fun _ => True) _ :=
    MachineM.Does.start ⟨.ofMessage m, w⟩ rfl
  unfold runCode at h
  split at h
  · next hs =>
    cases h
    rw [hs] at hdoes
    exact ⟨f, hdoes.1, .inl rfl⟩
  · next cause f₁ w₁ hs =>
    cases h
    rw [hs] at hdoes
    exact ⟨f₁, hdoes, .inr (.inl ⟨cause, rfl⟩)⟩
  · next f₁ w₁ hs =>
    cases h
    rw [hs] at hdoes
    exact ⟨f₁, hdoes, .inr (.inr rfl)⟩
  · cases h

theorem runCode_fault {cause : WorldError} (h : m.runCode env children w = .error cause w') :
    ∃ s, Effects env.rules children ⟨.ofMessage m, w⟩ s ∧ Fault children s cause w' := by
  have hdoes : MachineM.Follows env.rules children ⟨.ofMessage m, w⟩ (fun _ => True) _ :=
    MachineM.Does.start ⟨.ofMessage m, w⟩ rfl
  unfold runCode at h
  split at h
  · cases h
  · cases h
  · cases h
  · next hs =>
    cases h
    rw [hs] at hdoes
    exact hdoes

end Message

end StateTransition
