import StateTransition.Proofs.Machine.Preserve

/-! Where a frame stands in its code. Operations leave the place alone, but for those that jump or step over
the bytes that belong to them; what is called or created runs in a frame of its own. -/
namespace StateTransition

/-- A position in the code of a message, and the positions that may be jumped to. -/
structure Place where
  pc : Nat
  targets : Std.ExtTreeSet Nat
  message : Message

/-- Whether an operation goes on elsewhere than behind its own byte. -/
def Opcode.moves : Opcode → Bool
  | jump | jumpi | push _ => true
  | _ => false

private theorem Opcode.pushSize_of_not_moves {op : Opcode} (h : op.moves = false) : op.pushSize = 0 := by
  cases op with
  | push size => cases h
  | _ => rfl

def Frame.place (f : Frame) : Place := ⟨f.pc, f.targets, f.message⟩

instance : Frame.Aside Frame.place := ⟨fun _ _ _ _ _ => rfl⟩

namespace MachineM

variable {α β : Type} {rules : Rules} {env : Environment} {children : Option Children} {m m' : Machine}

/-- A computation that leaves the frame at its place if it comes to an end. -/
def Stays (x : MachineM α) : Prop := ∀ (m m' : Machine) (a : α), x m = .ok a m' → m'.frame.place = m.frame.place

namespace Stays

private theorem pure (a : α) : Stays (pure a) := Preserves.pure a

private theorem next {x : MachineM α} {f : α → MachineM β} (hx : Stays x) (hf : ∀ a, Stays (f a)) : Stays (x >>= f) :=
  Preserves.next hx hf

private theorem ite {c : Prop} [Decidable c] {x y : MachineM α} (hx : Stays x) (hy : Stays y) :
    Stays (if c then x else y) :=
  Preserves.ite hx hy

private theorem discard {x : MachineM α} (hx : Stays x) : Stays (Functor.discard x) := by
  rw [discard_eq]
  exact hx.next fun _ => .pure ()

private theorem frame : Stays frame := Preserves.frame

private theorem world : Stays world := Preserves.world

private theorem throw (stop : Stop) : Stays (throw stop : MachineM α) := Preserves.throw stop

private theorem halt (cause : Halt) : Stays (halt cause : MachineM α) := throw _

private theorem haltIf {c : Prop} [Decidable c] {cause : Halt} {x : MachineM α} (hx : Stays x) :
    Stays (if c then (MachineM.halt cause : MachineM Unit) >>= fun _ => x else x) :=
  Preserves.haltIf hx

private theorem modifyFrame {g : Frame → Frame}
    (h : ∀ f, (g f).pc = f.pc ∧ (g f).targets = f.targets ∧ (g f).message = f.message) : Stays (modifyFrame g) :=
  Preserves.modifyFrame fun f => by
    obtain ⟨hpc, htargets, hmessage⟩ := h f
    simp only [Frame.place, hpc, htargets, hmessage]

private theorem checkRefund (amount : Int) : Stays (checkRefund amount) := Preserves.checkRefund amount

private theorem addRefund (amount : Int) : Stays (addRefund amount) := Preserves.addRefund fun _ => rfl

private theorem modifyWorld (g : World → World) : Stays (modifyWorld g) := Preserves.modifyWorld g

private theorem changeWorld (change : WorldM α) : Stays (changeWorld change) := Preserves.changeWorld change

private theorem charge (amount : Nat) : Stays (charge amount) := Preserves.charge amount

private theorem giveBack (amount : Nat) : Stays (giveBack amount) := Preserves.giveBack amount

private theorem pop : Stays pop := Preserves.pop

private theorem popAddress : Stays popAddress := .next .pop fun _ => .pure _

private theorem popExtent : Stays popExtent := Preserves.popExtent

private theorem popMany (n : Nat) : Stays (popMany n) := by
  induction n with
  | zero => exact .pure _
  | succ n ih => exact .next .pop fun _ => .next ih fun _ => .pure _

private theorem changeStack (change : Stack → Except Halt Stack) : Stays
    (changeStack change) := Preserves.changeStack change

private theorem push (w : Word) : Stays (push w) := Preserves.push w

private theorem pushNat (n : Nat) : Stays (pushNat n) := push _

private theorem unary (f : Word → Word) : Stays (unary f) := .next .pop fun _ => .push _

private theorem binary (f : Word → Word → Word) : Stays (binary f) := .next .pop fun _ => .next .pop fun _ => .push _

private theorem ternary (f : Word → Word → Word → Word) : Stays (ternary f) :=
  .next .pop fun _ => .next .pop fun _ => .next .pop fun _ => .push _

private theorem readMemory (extent : Word × Word) : Stays (readMemory extent) := Preserves.readMemory extent

private theorem writeMemory (offset : Word) (bytes : ByteArray) : Stays (writeMemory offset bytes) :=
  Preserves.writeMemory offset bytes

private theorem setReturnData (data : ByteArray) : Stays (setReturnData data) := Preserves.setReturnData data

private theorem chargeWithMemory (amount : Nat) (extents : List (Word × Word)) : Stays
    (chargeWithMemory amount extents) :=
  Preserves.chargeWithMemory amount extents

private theorem chargeCall (gas value : Word) (extents : List (Word × Word)) (surcharge : Nat) :
    Stays (chargeCall rules gas value extents surcharge) :=
  Preserves.chargeCall gas value extents surcharge

private theorem warmAddress (a : Address) : Stays (warmAddress a) :=
  .next .frame fun _ => .next (.modifyFrame fun _ => ⟨rfl, rfl, rfl⟩) fun _ => .pure _

private theorem warmSlot (key : SlotKey) : Stays (warmSlot key) :=
  .next .frame fun _ => .next (.modifyFrame fun _ => ⟨rfl, rfl, rfl⟩) fun _ => .pure _

private theorem accessPrice (a : Address) (warm : Nat) : Stays (accessPrice rules a warm) :=
  .ite (.next (.warmAddress a) fun _ => .ite (.pure _) (.pure _)) (.pure _)

private theorem slotPrice (key : SlotKey) (warm : Nat) : Stays (slotPrice rules key warm) :=
  .ite (.next (.warmSlot key) fun _ => .ite (.pure _) (.pure _)) (.pure _)

/-! ### Operations on accounts, memory and storage -/

private theorem accessed {f : Address → MachineM Unit} (warm : Nat) (hf : ∀ a, Stays (f a)) :
    Stays (do
      let a ← MachineM.popAddress
      MachineM.charge (← MachineM.accessPrice rules a warm)
      f a) :=
  .next .popAddress fun a => .next (.accessPrice a warm) fun _ => .next (.charge _) fun _ => hf a

private theorem copyToMemory (source : ByteArray) : Stays (copyToMemory source) :=
  .next .pop fun _ => .next .pop fun _ => .next .pop fun _ => .next (.chargeWithMemory _ _) fun _ => .writeMemory _ _

private theorem hashMemory : Stays hashMemory :=
  .next .popExtent fun _ => .next (.chargeWithMemory _ _) fun _ => .next (.readMemory _) fun _ => .push _

private theorem copyCodeOf : Stays (copyCodeOf rules) :=
  .next .popAddress fun _ => .next .pop fun _ => .next .pop fun _ => .next .pop fun _ =>
    .next (.accessPrice _ _) fun _ => .next (.chargeWithMemory _ _) fun _ => .next .world fun _ => .writeMemory _ _

private theorem copyReturnData : Stays copyReturnData :=
  .next .pop fun _ => .next .pop fun _ => .next .pop fun _ => .next (.chargeWithMemory _ _) fun _ =>
    .next .frame fun _ => .haltIf (.writeMemory _ _)

private theorem loadSlot : Stays (loadSlot rules) :=
  .next .pop fun _ => .next .frame fun _ => .next (.slotPrice _ _) fun _ => .next (.charge _) fun _ =>
    .next .world fun _ => .push _

private theorem storeSlot : Stays (storeSlot rules) :=
  .next .pop fun _ => .next .pop fun _ => .next .frame fun _ => .haltIf <| .next .frame fun _ =>
    .next (.slotPrice _ _) fun _ => .next .world fun _ => .next .world fun _ => .next (.charge _) fun _ =>
      .next (.addRefund _) fun _ => .modifyWorld _

private theorem record (topics : Nat) : Stays (record topics) :=
  .next .popExtent fun _ => .next (.popMany topics) fun _ => .next (.chargeWithMemory _ _) fun _ =>
    .next (.readMemory _) fun _ => .modifyFrame fun _ => ⟨rfl, rfl, rfl⟩

private theorem finish : Stays finish := .modifyFrame fun _ => ⟨rfl, rfl, rfl⟩

private theorem setOutput : Stays setOutput :=
  .next .popExtent fun _ => .next (.chargeWithMemory _ _) fun _ => .next (.readMemory _) fun _ =>
    .modifyFrame fun _ => ⟨rfl, rfl, rfl⟩

/-! ### Messages and destruction -/

private theorem refuse (gas : Nat) : Stays (refuse gas) := Preserves.refuse gas

private theorem absorb (child : Frame) : Stays (absorb rules child) :=
  have hrest : Stays (do
      let w ← MachineM.world
      MachineM.modifyFrame fun f => f.absorb rules w child) :=
    .next .world fun w => .modifyFrame fun f => by
      unfold Frame.absorb
      split <;> exact ⟨rfl, rfl, rfl⟩
  .next (.giveBack _) fun _ => .ite (.next (.checkRefund _) fun _ => hrest) hrest

private theorem runChild (run : WorldM Frame) : Stays (runChild rules run) :=
  .next (.changeWorld run) fun child => .next (.absorb child) fun _ => .pure _

private theorem send (r : Request) : Stays (send rules children r) := by
  refine .next (.setReturnData _) fun _ => ?_
  cases children with
  | none => exact .refuse _
  | some c =>
    exact .next (.readMemory _) fun _ => .next .world fun _ => .next .frame fun _ => .next (.runChild _) fun _ =>
      .next (.push _) fun _ => .next (.writeMemory _ _) fun _ => .setReturnData _

private theorem sendValue (r : Request) : Stays (sendValue rules children r) :=
  .next .world fun _ => .ite (.next (.push _) fun _ => .next (.setReturnData _) fun _ => .giveBack _) (.send r)

private theorem callRequest : Stays (callRequest rules) :=
  .next .pop fun _ => .next .popAddress fun _ => .next .pop fun _ => .next .popExtent fun _ =>
    .next .popExtent fun _ => .next (.accessPrice _ _) fun _ => .next .world fun _ =>
      .next (.chargeCall _ _ _ _) fun _ => .next .frame fun _ => .haltIf (.pure _)

private theorem codeRequest : Stays (codeRequest rules) :=
  .next .pop fun _ => .next .popAddress fun _ => .next .pop fun _ => .next .popExtent fun _ =>
    .next .popExtent fun _ => .next (.accessPrice _ _) fun _ => .next (.chargeCall _ _ _ _) fun _ =>
      .next .frame fun _ => .pure _

private theorem delegateRequest : Stays (delegateRequest rules) :=
  .next .pop fun _ => .next .popAddress fun _ => .next .popExtent fun _ => .next .popExtent fun _ =>
    .next (.accessPrice _ _) fun _ => .next (.chargeCall _ _ _ _) fun _ => .next .frame fun _ => .pure _

private theorem staticRequest : Stays (staticRequest rules) :=
  .next .pop fun _ => .next .popAddress fun _ => .next .popExtent fun _ => .next .popExtent fun _ =>
    .next (.accessPrice _ _) fun _ => .next (.chargeCall _ _ _ _) fun _ => .next .frame fun _ => .pure _

private theorem creationAddress (salted : Bool) (extent : Word × Word) : Stays (creationAddress salted extent) :=
  .ite (.next .pop fun _ => .next (.chargeWithMemory _ _) fun _ => .next .frame fun _ =>
      .next (.readMemory _) fun _ => .pure _)
    (.next (.chargeWithMemory _ _) fun _ => .next .frame fun _ => .next .world fun _ => .pure _)

private theorem creationRequest (salted : Bool) : Stays (creationRequest rules salted) :=
  .next .pop fun _ => .next .popExtent fun _ => .next (.creationAddress _ _) fun _ =>
    .next (.discard (.warmAddress _)) fun _ =>
      .next (.next .frame fun _ => .next (.modifyFrame fun _ => ⟨rfl, rfl, rfl⟩) fun _ => .pure _) fun _ => .pure _

private theorem place (r : CreationRequest) : Stays (place rules children r) := by
  refine .next (.setReturnData _) fun _ => .next .frame fun _ => .next .world fun _ => ?_
  cases children with
  | none => exact .refuse _
  | some c =>
    exact .ite (.refuse _) <| .next .world fun _ =>
      .ite (.next (.changeWorld _) fun _ => .push _) <| .next (.readMemory _) fun _ =>
        .next (.changeWorld _) fun _ => .next .frame fun _ => .next (.runChild _) fun _ =>
          .ite (.push _) (.next (.setReturnData _) fun _ => .push _)

private theorem createContract (salted : Bool) : Stays (createContract rules children salted) :=
  .next (.creationRequest salted) fun r => .place r

private theorem bequeath (owner heir : Address) : Stays (bequeath owner heir) :=
  .next .world fun _ => .next (.changeWorld _) fun _ => .next (.modifyWorld _) fun _ =>
    .modifyFrame fun _ => ⟨rfl, rfl, rfl⟩

private theorem payForDestruction (owner heir : Address) : Stays (payForDestruction rules owner heir) := by
  rw [payForDestruction_eq]
  exact .next (.accessPrice heir 0) fun _ => .next .world fun _ => .next (.charge _) fun _ =>
    .next .frame fun _ => .addRefund _

private theorem selfDestruct : Stays (selfDestruct rules) :=
  .next .popAddress fun heir => .next .frame fun f => .next (.payForDestruction f.message.target heir) fun _ =>
    .next (.bequeath f.message.target heir) fun _ => .next .world fun _ =>
      .ite (.next (.modifyFrame fun _ => ⟨rfl, rfl, rfl⟩) fun _ => .finish) .finish

/-! ### All operations but those that move on -/

private theorem perform {op : Opcode} (hop : op.moves = false) : Stays (perform env children op) := by
  cases op with
  | add | mul | sub | div | sdiv | mod | smod | signextend | lt | gt | slt | sgt | eq
  | and | or | xor | byte | shl | shr | sar => exact .binary _
  | iszero | not | blockhash => exact .unary _
  | addmod | mulmod => exact .ternary _
  | stop => exact .finish
  | exp => exact .next .pop fun _ => .next .pop fun _ => .next (.charge _) fun _ => .push _
  | keccak256 => exact .hashMemory
  | origin | gasprice | coinbase | difficulty | basefee => exact .push _
  | timestamp | number | gaslimit | chainid => exact .pushNat _
  | address | caller | callvalue => exact .next .frame fun _ => .push _
  | calldatasize | codesize | returndatasize | pc | msize | gas =>
    exact .next .frame fun _ => .pushNat _
  | selfbalance => exact .next .world fun _ => .next .frame fun _ => .push _
  | balance | extcodehash => exact .accessed _ fun _ => .next .world fun _ => .push _
  | extcodesize => exact .accessed _ fun _ => .next .world fun _ => .pushNat _
  | extcodecopy => exact .copyCodeOf
  | calldataload => exact .next .pop fun _ => .next .frame fun _ => .pushNat _
  | calldatacopy | codecopy => exact .next .frame fun _ => .copyToMemory _
  | returndatacopy => exact .copyReturnData
  | pop => exact .discard .pop
  | mload =>
    exact .next .pop fun _ => .next (.chargeWithMemory _ _) fun _ => .next .frame fun _ => .push _
  | mstore | mstore8 =>
    exact .next .pop fun _ => .next .pop fun _ => .next (.chargeWithMemory _ _) fun _ =>
      .modifyFrame fun _ => ⟨rfl, rfl, rfl⟩
  | sload => exact .loadSlot
  | sstore => exact .storeSlot
  | jump | jumpi | push => cases hop
  | jumpdest => exact .pure _
  | dup depth => exact .changeStack fun s => s.dup (depth.val + 1)
  | swap depth => exact .changeStack fun s => s.swap (depth.val + 1)
  | log topics => exact .record _
  | ret => exact .next .setOutput fun _ => .finish
  | revert => exact .next .setOutput fun _ => .throw _
  | invalid => exact .halt _
  | create | create2 => exact .createContract _
  | call => exact .next .callRequest fun r => .sendValue r
  | callcode => exact .next .codeRequest fun r => .sendValue r
  | delegatecall => exact .next .delegateRequest fun r => .send r
  | staticcall => exact .next .staticRequest fun r => .send r
  | selfdestruct => exact .selfDestruct

end Stays

/-! ### Operations that move on -/

private theorem place_of_jumpTo {target : Word} (h : jumpTo target m = .ok () m') :
    m'.frame.place = { m.frame.place with pc := target.toNat } ∧ target.toNat ∈ m.frame.place.targets := by
  rw [jumpTo, frame_bind] at h
  split at h
  · next hmay =>
    cases h
    simp only [Bool.and_eq_true, Frame.canJump, Std.ExtTreeSet.contains_iff_mem] at hmay
    exact ⟨rfl, hmay.2⟩
  · cases h

private theorem place_of_pushImmediate {size : Nat} (h : pushImmediate size m = .ok () m') :
    m'.frame.place = { m.frame.place with pc := m.frame.place.pc + size } := by
  rw [pushImmediate, frame_bind] at h
  obtain ⟨⟨⟩, m₁, hpush, h⟩ := ok_of_next h
  rw [← Stays.pushNat _ _ _ _ hpush]
  cases h
  rfl

/-- An operation goes on behind the bytes that belong to it, or where the code may jump to. -/
private theorem place_of_perform {op : Opcode} (h : perform env children op m = .ok () m') :
    ∃ pc, m'.frame.place = { m.frame.place with pc } ∧
      (pc = m.frame.place.pc + op.pushSize ∨ pc ∈ m.frame.place.targets) := by
  by_cases hmoves : op.moves
  · cases op with
    | jump =>
      obtain ⟨target, m₁, hpop, h⟩ := ok_of_next h
      rw [← Stays.pop _ _ _ hpop]
      obtain ⟨hjump, hmay⟩ := place_of_jumpTo h
      exact ⟨target.toNat, hjump, .inr hmay⟩
    | jumpi =>
      obtain ⟨target, m₁, hpop, h⟩ := ok_of_next h
      obtain ⟨condition, m₂, hpop', h⟩ := ok_of_next h
      rw [← Stays.pop _ _ _ hpop, ← Stays.pop _ _ _ hpop']
      split at h
      · obtain ⟨hjump, hmay⟩ := place_of_jumpTo h
        exact ⟨target.toNat, hjump, .inr hmay⟩
      · cases h
        exact ⟨m'.frame.pc, rfl, .inl rfl⟩
    | push size => exact ⟨_, place_of_pushImmediate h, .inl rfl⟩
    | _ => cases hmoves
  · have hmoves : op.moves = false := by simpa using hmoves
    refine ⟨m.frame.pc, Stays.perform hmoves _ _ _ h, .inl ?_⟩
    rw [Opcode.pushSize_of_not_moves hmoves]
    rfl

theorem place_of_operate {op : Opcode} (h : operate env children op m = .ok () m') :
    ∃ pc, m'.frame.place = { m.frame.place with pc } ∧
      (pc = m.frame.place.pc + 1 + op.pushSize ∨ pc ∈ m.frame.place.targets) := by
  obtain ⟨⟨⟩, m₁, hpaid, h⟩ := ok_of_next h
  rw [← Stays.charge _ _ _ _ hpaid]
  rw [frame_bind] at h
  split at h
  · obtain ⟨⟨⟩, m₂, hhalt, -⟩ := ok_of_next h
    cases hhalt
  · obtain ⟨⟨⟩, m₂, hmove, h⟩ := ok_of_next h
    cases hmove
    exact place_of_perform h

end MachineM

end StateTransition
