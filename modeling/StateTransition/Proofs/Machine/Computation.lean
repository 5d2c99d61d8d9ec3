import StateTransition.Proofs.Machine.Payment

/-! Operations that only compute: they use up gas, stack and memory, and may warm what they look at. What a frame has
done and the world are left alone, and there is no fault. -/
namespace StateTransition

/-- What a frame has done is left as it is; more may be warm. -/
structure Frame.Keeps (f f' : Frame) : Prop where
  message : f'.message = f.message
  logs : f'.logs = f.logs
  refund : f'.refund = f.refund
  destroyed : f'.destroyed = f.destroyed
  touched : f'.touched = f.touched
  failure : f'.failure = f.failure
  warmAddresses : ∀ a ∈ f.warmAddresses, a ∈ f'.warmAddresses
  warmSlots : ∀ key ∈ f.warmSlots, key ∈ f'.warmSlots

namespace Frame.Keeps

variable {f f' f'' : Frame}

/-- A change of what code computes with. -/
theorem registers (f : Frame) (pc : Nat) (stack : Stack) (memory : Memory) (gasLeft : Nat)
    (output returnData : ByteArray) (running : Bool) :
    f.Keeps { f with pc, stack, memory, gasLeft, output, returnData, running } :=
  ⟨rfl, rfl, rfl, rfl, rfl, rfl, fun _ h => h, fun _ h => h⟩

private theorem refl (f : Frame) : f.Keeps f := registers ..

private theorem trans (h : f.Keeps f') (h' : f'.Keeps f'') : f.Keeps f'' where
  message := h'.message.trans h.message
  logs := h'.logs.trans h.logs
  refund := h'.refund.trans h.refund
  destroyed := h'.destroyed.trans h.destroyed
  touched := h'.touched.trans h.touched
  failure := h'.failure.trans h.failure
  warmAddresses a ha := h'.warmAddresses a (h.warmAddresses a ha)
  warmSlots key hkey := h'.warmSlots key (h.warmSlots key hkey)

end Frame.Keeps

/-- The calls that a frame makes for its message, by the four operations that there are for them. -/
inductive Request.From (m : Message) (w : World) : Request → Prop
  | call {gas : Nat} {value : Word} {target : Address} {input output : Word × Word}
    (hvalue : value ≤ w.balance m.target) (hstatic : m.isStatic → value = 0) :
    From m w ⟨gas, value, m.target, target, target, true, false, input, output⟩
  | code {gas : Nat} {value : Word} {codeAddress : Address} {input output : Word × Word}
    (hvalue : value ≤ w.balance m.target) :
    From m w ⟨gas, value, m.target, m.target, codeAddress, true, false, input, output⟩
  | delegate {gas : Nat} {codeAddress : Address} {input output : Word × Word} :
    From m w ⟨gas, m.value, m.caller, m.target, codeAddress, false, false, input, output⟩
  | static {gas : Nat} {target : Address} {input output : Word × Word} :
    From m w ⟨gas, 0, m.target, target, target, true, true, input, output⟩

/-- The operations that only compute; a call does what its callee does. -/
def Opcode.isComputation : Opcode → Bool
  | sstore | log _ | create | create2 | call | callcode | delegatecall | staticcall | selfdestruct => false
  | _ => true

namespace MachineM

variable {α β : Type} {rules : Rules} {children : Option Children} {msg : Message} {m m' : Machine} {P : α → Prop}
  {Q : β → Prop}

/-- What has changed since a machine when a computation ends, if only that what frames compute with. -/
def Kept (m : Machine) (P : α → Prop) : EStateM.Result Stop Machine α → Prop
  | .ok a m' => m.frame.Keeps m'.frame ∧ m'.world = m.world ∧ P a
  | .error (.failure _) m' => m.frame.Keeps m'.frame ∧ m'.world = m.world
  | .error (.fault _) _ => False

/-- A computation that only computes, in frames with a message. -/
def Computes (msg : Message) (P : α → Prop) (x : MachineM α) : Prop := ∀ m, m.frame.message = msg → Kept m P (x m)

namespace Computes

theorem ok {x : MachineM α} {a : α} (hx : Computes msg P x) (hm : m.frame.message = msg) (h : x m = .ok a m') :
    m.frame.Keeps m'.frame ∧ m'.world = m.world ∧ P a := by
  have hkept := hx m hm
  rwa [h] at hkept

theorem not_fault {x : MachineM α} {cause : WorldError} (hx : Computes msg P x) (hm : m.frame.message = msg) :
    x m ≠ .error (.fault cause) m' := fun h => by
  have hkept := hx m hm
  rwa [h] at hkept

private theorem pure {a : α} (h : P a) : Computes msg P (pure a) := fun m _ => ⟨.refl m.frame, rfl, h⟩

private theorem bind {x : MachineM α} {f : α → MachineM β} (hx : Computes msg P x)
    (hf : ∀ a, P a → Computes msg Q (f a)) :
    Computes msg Q (x >>= f) := fun m hm => by
  have hkept := hx m hm
  match hr : x m with
  | .error (.failure cause) m₁ =>
    rw [bind_of_error hr]
    rwa [hr] at hkept
  | .error (.fault cause) m₁ => exact (hx.not_fault hm hr).elim
  | .ok a m₁ =>
    obtain ⟨hkeeps, hworld, ha⟩ := hx.ok hm hr
    have hrest := hf a ha m₁ (hkeeps.message.trans hm)
    rw [bind_of_ok hr]
    match hr₁ : f a m₁ with
    | .error (.fault cause) m₂ => exact ((hf a ha).not_fault (hkeeps.message.trans hm) hr₁).elim
    | .error (.failure cause) m₂ =>
      rw [hr₁] at hrest
      exact ⟨hkeeps.trans hrest.1, hrest.2.trans hworld⟩
    | .ok b m₂ =>
      rw [hr₁] at hrest
      exact ⟨hkeeps.trans hrest.1, hrest.2.1.trans hworld, hrest.2.2⟩

/-- Where nothing is asked of the result. -/
theorem next {x : MachineM α} {f : α → MachineM β} (hx : Computes msg (fun _ => True) x)
    (hf : ∀ a, Computes msg Q (f a)) : Computes msg Q (x >>= f) :=
  hx.bind fun a _ => hf a

theorem ite {c : Prop} [Decidable c] {x y : MachineM α} (hx : c → Computes msg P x) (hy : ¬ c → Computes msg P y) :
    Computes msg P (if c then x else y) := by
  split
  · next h => exact hx h
  · next h => exact hy h

private theorem discard {x : MachineM α} (hx : Computes msg (fun _ => True) x) :
    Computes msg (fun _ => True) (Functor.discard x) := by
  rw [discard_eq]
  exact hx.next fun _ => .pure trivial

/-! ### Reading and stopping -/

theorem frame : Computes msg (fun f => f.message = msg) frame := fun m hm => ⟨.refl m.frame, rfl, hm⟩

theorem world : Computes msg (fun _ => True) world := fun m _ => ⟨.refl m.frame, rfl, trivial⟩

theorem readMemory (extent : Word × Word) : Computes msg (fun _ => True) (readMemory extent) :=
  fun m _ => ⟨.refl m.frame, rfl, trivial⟩

private theorem throw (cause : Failure) : Computes msg P (throw (.failure cause) : MachineM α) :=
  fun m _ => ⟨.refl m.frame, rfl⟩

theorem halt (cause : Halt) : Computes msg P (halt cause : MachineM α) := throw _

/-- A condition that stops the frame where it does not hold. -/
private theorem haltIf {c : Prop} [Decidable c] {cause : Halt} {x : MachineM α}
    (hx : ¬ c → Computes msg P x) :
    Computes msg P
      (if c then (MachineM.halt cause : MachineM Unit) >>= fun _ => x else x) :=
  .ite (fun _ => .bind (P := fun _ => False) (.halt cause) fun _ h => h.elim) hx

/-! ### Changing the frame -/

theorem modifyFrame {g : Frame → Frame} (h : ∀ f : Frame, f.Keeps (g f)) :
    Computes msg (fun _ => True) (modifyFrame g) :=
  fun m _ => ⟨h m.frame, rfl, trivial⟩

theorem charge (amount : Nat) : Computes msg (fun _ => True) (charge amount) := fun m _ => by
  unfold MachineM.charge
  by_cases h : amount ≤ m.frame.gasLeft
  · simp only [if_pos h]
    exact ⟨.registers .., rfl, trivial⟩
  · simp only [if_neg h]
    exact ⟨.refl m.frame, rfl⟩

theorem pop : Computes msg (fun _ => True) pop := fun m _ => by
  unfold MachineM.pop
  split
  · exact ⟨.registers .., rfl, trivial⟩
  · exact ⟨.refl m.frame, rfl⟩

theorem popAddress : Computes msg (fun _ => True) popAddress :=
  .next .pop fun _ => .pure trivial

theorem popExtent : Computes msg (fun _ => True) popExtent :=
  .next .pop fun _ => .next .pop fun _ => .pure trivial

theorem popMany (n : Nat) : Computes msg (fun _ => True) (popMany n) := by
  induction n with
  | zero => exact .pure trivial
  | succ n ih => exact .next .pop fun _ => .next ih fun _ => .pure trivial

private theorem changeStack (change : Stack → Except Halt Stack) :
    Computes msg (fun _ => True) (changeStack change) := fun m _ => by
  unfold MachineM.changeStack
  split
  · exact ⟨.registers .., rfl, trivial⟩
  · exact ⟨.refl m.frame, rfl⟩

theorem push (w : Word) : Computes msg (fun _ => True) (push w) := changeStack _

private theorem pushNat (n : Nat) : Computes msg (fun _ => True) (pushNat n) := push _

private theorem unary (f : Word → Word) : Computes msg (fun _ => True) (unary f) :=
  .next .pop fun _ => .push _

private theorem binary (f : Word → Word → Word) : Computes msg (fun _ => True) (binary f) :=
  .next .pop fun _ => .next .pop fun _ => .push _

private theorem ternary (f : Word → Word → Word → Word) : Computes msg (fun _ => True) (ternary f) :=
  .next .pop fun _ => .next .pop fun _ => .next .pop fun _ => .push _

theorem writeMemory (offset : Word) (bytes : ByteArray) :
    Computes msg (fun _ => True) (writeMemory offset bytes) :=
  .modifyFrame fun f => by
    unfold Frame.writeMemory
    split <;> exact .registers ..

theorem setReturnData (data : ByteArray) : Computes msg (fun _ => True) (setReturnData data) :=
  .modifyFrame fun _ => .registers ..

theorem chargeWithMemory (amount : Nat) (extents : List (Word × Word)) :
    Computes msg (fun _ => True) (chargeWithMemory amount extents) := fun m _ => by
  unfold MachineM.chargeWithMemory
  cases h : m.frame.chargeWithMemory amount extents with
  | error cause => exact ⟨.refl m.frame, rfl⟩
  | ok f =>
    obtain ⟨expansion, -, -, rfl⟩ := Frame.chargeWithMemory_cases h
    exact ⟨.registers .., rfl, trivial⟩

private theorem chargeCall (gas value : Word) (extents : List (Word × Word)) (surcharge : Nat) :
    Computes msg (fun _ => True) (chargeCall rules gas value extents surcharge) := fun m _ => by
  cases h : MachineM.chargeCall rules gas value extents surcharge m with
  | error stop m' =>
    obtain ⟨cause, rfl, rfl⟩ := chargeCall_error h
    exact ⟨.refl _, rfl⟩
  | ok forwarded m' =>
    obtain ⟨expansion, split, -, -, -, -, rfl⟩ := chargeCall_ok h
    exact ⟨.registers .., rfl, trivial⟩

private theorem warmAddress (a : Address) : Computes msg (fun _ => True) (warmAddress a) :=
  .bind .frame fun _ _ => .next
    (.modifyFrame fun _ => ⟨rfl, rfl, rfl, rfl, rfl, rfl,
      fun _ h => Std.ExtTreeSet.mem_insert.mpr (.inr h), fun _ h => h⟩) fun _ => .pure trivial

private theorem warmSlot (key : SlotKey) : Computes msg (fun _ => True) (warmSlot key) :=
  .bind .frame fun _ _ => .next
    (.modifyFrame fun _ => ⟨rfl, rfl, rfl, rfl, rfl, rfl, fun _ h => h,
      fun _ h => Std.ExtTreeSet.mem_insert.mpr (.inr h)⟩) fun _ => .pure trivial

theorem accessPrice (a : Address) (warm : Nat) :
    Computes msg (fun _ => True) (accessPrice rules a warm) :=
  .ite (fun _ => .next (.warmAddress a) fun _ =>
    .ite (fun _ => .pure trivial) fun _ => .pure trivial) fun _ => .pure trivial

theorem slotPrice (key : SlotKey) (warm : Nat) :
    Computes msg (fun _ => True) (slotPrice rules key warm) :=
  .ite (fun _ => .next (.warmSlot key) fun _ =>
    .ite (fun _ => .pure trivial) fun _ => .pure trivial) fun _ => .pure trivial

/-! ### Operations -/

private theorem copyToMemory (source : ByteArray) :
    Computes msg (fun _ => True) (copyToMemory source) :=
  .next .pop fun _ => .next .pop fun _ => .next .pop fun _ => .next (.chargeWithMemory _ _) fun _ =>
    .writeMemory _ _

private theorem hashMemory : Computes msg (fun _ => True) hashMemory :=
  .next .popExtent fun _ => .next (.chargeWithMemory _ _) fun _ => .next (.readMemory _) fun _ =>
    .push _

private theorem copyCodeOf : Computes msg (fun _ => True) (copyCodeOf rules) :=
  .next .popAddress fun _ => .next .pop fun _ => .next .pop fun _ => .next .pop fun _ =>
    .next (.accessPrice _ _) fun _ => .next (.chargeWithMemory _ _) fun _ => .next .world fun _ =>
      .writeMemory _ _

private theorem copyReturnData : Computes msg (fun _ => True) copyReturnData :=
  .next .pop fun _ => .next .pop fun _ => .next .pop fun _ => .next (.chargeWithMemory _ _) fun _ =>
    .bind .frame fun _ _ => .haltIf fun _ => .writeMemory _ _

private theorem loadSlot : Computes msg (fun _ => True) (loadSlot rules) :=
  .next .pop fun _ => .bind .frame fun _ _ => .next (.slotPrice _ _) fun _ => .next (.charge _) fun _ =>
    .next .world fun _ => .push _

private theorem jumpTo (target : Word) : Computes msg (fun _ => True) (jumpTo target) :=
  .bind .frame fun _ _ => .ite (fun _ => .modifyFrame fun _ => .registers ..) fun _ => .halt _

private theorem pushImmediate (size : Nat) : Computes msg (fun _ => True) (pushImmediate size) :=
  .bind .frame fun _ _ => .next (.pushNat _) fun _ => .modifyFrame fun _ => .registers ..

private theorem finish : Computes msg (fun _ => True) finish := .modifyFrame fun _ => .registers ..

private theorem setOutput : Computes msg (fun _ => True) setOutput :=
  .next .popExtent fun _ => .next (.chargeWithMemory _ _) fun _ => .next (.readMemory _) fun _ =>
    .modifyFrame fun _ => .registers ..

/-- An operation that pays for the access to an account, and then only reads. -/
private theorem accessed {f : Address → MachineM Unit} (warm : Nat)
    (hf : ∀ a, Computes msg (fun _ => True) (f a)) :
    Computes msg (fun _ => True) (do
      let a ← MachineM.popAddress
      MachineM.charge (← MachineM.accessPrice rules a warm)
      f a) :=
  .next .popAddress fun a => .next (.accessPrice a warm) fun _ => .next (.charge _) fun _ => hf a

theorem callRequest : Computes msg
    (fun r => ∀ w : World, r.value ≤ w.balance r.caller → r.From msg w) (callRequest rules) := by
  refine .next .pop fun _ => .next .popAddress fun _ => .next .pop fun value => ?_
  refine .next .popExtent fun _ => .next .popExtent fun _ => .next (.accessPrice _ _) fun _ => ?_
  refine .next .world fun _ => .next (.chargeCall _ _ _ _) fun _ => .bind .frame fun f hf => ?_
  refine .haltIf fun hstatic => .pure fun w hvalue => ?_
  subst hf
  exact .call hvalue fun h => by simpa [h] using hstatic

theorem codeRequest : Computes msg
    (fun r => ∀ w : World, r.value ≤ w.balance r.caller → r.From msg w) (codeRequest rules) := by
  refine .next .pop fun _ => .next .popAddress fun _ => .next .pop fun value => ?_
  refine .next .popExtent fun _ => .next .popExtent fun _ => .next (.accessPrice _ _) fun _ => ?_
  refine .next (.chargeCall _ _ _ _) fun _ => .bind .frame fun f hf => .pure fun w hvalue => ?_
  subst hf
  exact .code hvalue

theorem delegateRequest : Computes msg (fun r => ∀ w : World, r.From msg w)
    (delegateRequest rules) := by
  refine .next .pop fun _ => .next .popAddress fun _ => .next .popExtent fun _ => ?_
  refine .next .popExtent fun _ => .next (.accessPrice _ _) fun _ => ?_
  refine .next (.chargeCall _ _ _ _) fun _ => .bind .frame fun f hf => .pure fun w => ?_
  subst hf
  exact .delegate

theorem staticRequest : Computes msg (fun r => ∀ w : World, r.From msg w)
    (staticRequest rules) := by
  refine .next .pop fun _ => .next .popAddress fun _ => .next .popExtent fun _ => ?_
  refine .next .popExtent fun _ => .next (.accessPrice _ _) fun _ => ?_
  refine .next (.chargeCall _ _ _ _) fun _ => .bind .frame fun f hf => .pure fun w => ?_
  subst hf
  exact .static

private theorem creationAddress (salted : Bool) (extent : Word × Word) :
    Computes msg (fun _ => True) (creationAddress salted extent) :=
  .ite (fun _ => .next .pop fun _ => .next (.chargeWithMemory _ _) fun _ => .bind .frame fun _ _ =>
      .next (.readMemory _) fun _ => .pure trivial) fun _ =>
    .next (.chargeWithMemory _ _) fun _ => .bind .frame fun _ _ => .next .world fun _ => .pure trivial

private theorem reserveCreationGas : Computes msg (fun _ => True) (reserveCreationGas rules) :=
  .bind .frame fun _ _ => .next (.modifyFrame fun _ => .registers ..) fun _ => .pure trivial

theorem creationRequest (salted : Bool) :
    Computes msg (fun _ => True) (creationRequest rules salted) :=
  .next .pop fun _ => .next .popExtent fun _ => .next (.creationAddress _ _) fun _ =>
    .next (.discard (.warmAddress _)) fun _ => .next .reserveCreationGas fun _ => .pure trivial

theorem perform {env : Environment} {op : Opcode} (hop : op.isComputation = true) :
    Computes msg (fun _ => True) (perform env children op) := by
  cases op with
  | add | mul | sub | div | sdiv | mod | smod | signextend | lt | gt | slt | sgt | eq
  | and | or | xor | byte | shl | shr | sar => exact .binary _
  | iszero | not | blockhash => exact .unary _
  | addmod | mulmod => exact .ternary _
  | stop => exact .finish
  | exp => exact .next .pop fun _ => .next .pop fun _ => .next (.charge _) fun _ => .push _
  | keccak256 => exact .hashMemory
  | origin | gasprice | coinbase | difficulty | basefee => exact .push _
  | timestamp | number | gaslimit | chainid => exact .pushNat _
  | address | caller | callvalue => exact .bind .frame fun _ _ => .push _
  | calldatasize | codesize | returndatasize | pc | msize | gas =>
    exact .bind .frame fun _ _ => .pushNat _
  | selfbalance => exact .next .world fun _ => .bind .frame fun _ _ => .push _
  | balance | extcodehash => exact .accessed _ fun _ => .next .world fun _ => .push _
  | extcodesize => exact .accessed _ fun _ => .next .world fun _ => .pushNat _
  | extcodecopy => exact .copyCodeOf
  | calldataload => exact .next .pop fun _ => .bind .frame fun _ _ => .pushNat _
  | calldatacopy | codecopy => exact .bind .frame fun _ _ => .copyToMemory _
  | returndatacopy => exact .copyReturnData
  | pop => exact .discard .pop
  | mload =>
    exact .next .pop fun _ => .next (.chargeWithMemory _ _) fun _ => .bind .frame fun _ _ => .push _
  | mstore | mstore8 =>
    exact .next .pop fun _ => .next .pop fun _ => .next (.chargeWithMemory _ _) fun _ =>
      .modifyFrame fun _ => .registers ..
  | sload => exact .loadSlot
  | jump => exact .next .pop fun target => .jumpTo target
  | jumpi =>
    exact .next .pop fun target => .next .pop fun _ =>
      .ite (fun _ => .jumpTo target) fun _ => .pure trivial
  | jumpdest => exact .pure trivial
  | push size => exact .pushImmediate _
  | dup depth => exact .changeStack fun s => s.dup (depth.val + 1)
  | swap depth => exact .changeStack fun s => s.swap (depth.val + 1)
  | ret => exact .next .setOutput fun _ => .finish
  | revert => exact .next .setOutput fun _ => .throw _
  | invalid => exact .halt _
  | sstore | log _ | create | create2 | call | callcode | delegatecall | staticcall | selfdestruct => cases hop

end Computes

end MachineM

end StateTransition
