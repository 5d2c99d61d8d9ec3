import StateTransition.Proofs.Machine.Child

/-! What every operation takes. An operation whose price is fixed takes it before it does anything;
the others take a price here, of which a least amount is known. -/
namespace StateTransition

namespace Gas

/-- What an operation is charged at least beside its fixed price. -/
def leastCharge (rules : Rules) : Opcode → Nat
  | .balance => leastAccess rules rules.gas.balance
  | .extcodesize => leastAccess rules rules.gas.extCode
  | .extcodecopy => min (leastAccess rules rules.gas.extCode) maxCount
  | .extcodehash => leastAccess rules rules.gas.extCodeHash
  | .sload => least rules rules.gas.sload rules.gas.coldSload
  | .sstore => min rules.gas.sload (min rules.gas.sstoreSet rules.gas.sstoreReset)
  | .call | .callcode | .delegatecall | .staticcall => leastAccess rules rules.gas.call
  | _ => 0

private theorem stipend_le_valuePrice (value : Word) : stipend value ≤ MachineM.valuePrice value := by
  unfold stipend MachineM.valuePrice
  split
  · exact Nat.le_refl 0
  · decide

end Gas

namespace MachineM

variable {rules : Rules} {env : Environment} {children : Option Children}

namespace Takes

/-! ### Operations on accounts, memory, code, storage and flow -/

/-- An operation that pays for the access to an account, and then is free. -/
private theorem accessed {f : Address → MachineM Unit} (warm : Nat) (hf : ∀ a, Takes (fun _ => 0) 0 (f a)) :
    Takes (fun _ => (Gas.leastAccess rules warm : Nat)) 0 (do
      let a ← MachineM.popAddress
      MachineM.charge (← MachineM.accessPrice rules a warm)
      f a) :=
  .next .popAddress fun a =>
    .nextOf (.accessPrice a warm) (yields_accessPrice rules a warm) fun price hle =>
      .paid (.charge price) hle fun _ => hf a

private theorem copyToMemory (source : ByteArray) : Takes (fun _ => 0) 0 (copyToMemory source) :=
  .next .pop fun _ => .next .pop fun _ => .next .pop fun _ => .next (.payWithMemory _ _) fun _ =>
    .writeMemory _ _

private theorem hashMemory : Takes (fun _ => 0) 0 hashMemory :=
  .next .popExtent fun _ => .next (.payWithMemory _ _) fun _ => .next (.readMemory _) fun _ =>
    .push _

private theorem copyCodeOf (rules : Rules) :
    Takes (fun _ => (min (Gas.leastAccess rules rules.gas.extCode) maxCount : Nat)) 0
      (copyCodeOf rules) := by
  refine .next .popAddress fun a => .next .pop fun _ => .next .pop fun _ => .next .pop fun length => ?_
  refine .nextOf (.accessPrice a _) (yields_accessPrice rules a _) fun access hle => ?_
  refine .paid (.chargeWithMemory _ _) ?_ fun _ => .next .world fun _ => .writeMemory _ _
  have hprice := Gas.min_le_addSaturating access (Gas.perWord Gas.copyWord length)
  omega

private theorem copyReturnData : Takes (fun _ => 0) 0 copyReturnData :=
  .next .pop fun _ => .next .pop fun _ => .next .pop fun _ => .next (.payWithMemory _ _) fun _ =>
    .next .frame fun _ => .haltIf (Int.le_refl 0) (.writeMemory _ _)

private theorem loadSlot (rules : Rules) :
    Takes (fun _ => (Gas.least rules rules.gas.sload rules.gas.coldSload : Nat)) 0 (loadSlot rules) :=
  .next .pop fun _ => .next .frame fun _ =>
    .nextOf (.slotPrice _ _) (yields_slotPrice rules _ _) fun price hle =>
      .paid (.charge price) hle fun _ => .next .world fun _ => .push _

theorem least_le_writePrice (rules : Rules) (initial current new : Word) :
    min rules.gas.sload (min rules.gas.sstoreSet rules.gas.sstoreReset) ≤
      writePrice rules initial current new := by
  unfold writePrice netWritePrice grossWritePrice
  repeat' split
  all_goals omega

private theorem storeSlot (rules : Rules) :
    Takes (fun _ => (min rules.gas.sload (min rules.gas.sstoreSet rules.gas.sstoreReset) : Nat)) 0
      (storeSlot rules) := by
  refine .next .pop fun _ => .next .pop fun _ => .next .frame fun _ => .haltIf (Int.le_refl 0) ?_
  refine .next .frame fun _ => .next (.slotPrice _ _) fun first => ?_
  refine .next .world fun _ => .next .world fun _ => .paid (.charge _) ?_ fun _ => ?_
  · exact Nat.le_trans (least_le_writePrice rules _ _ _) (Nat.le_add_left _ first)
  · exact .next (.addRefund _) fun _ =>
      .modifyWorld (fun w => .of_change (.setSlot _ _ _ w)) (World.total_setSlot _ _ _)

private theorem jumpTo (target : Word) : Takes (fun _ => 0) 0 (jumpTo target) :=
  .next .frame fun _ => .ite (fun _ => .modifyFrame fun _ => ⟨rfl, rfl, rfl⟩)
    fun _ => .halt (Int.le_refl 0) _

private theorem record (topics : Nat) : Takes (fun _ => 0) 0 (record topics) :=
  .next .popExtent fun _ => .next (.popMany topics) fun _ => .next (.payWithMemory _ _) fun _ =>
    .next (.readMemory _) fun _ => .modifyFrame fun _ => ⟨rfl, rfl, rfl⟩

private theorem pushImmediate (size : Nat) : Takes (fun _ => 0) 0 (pushImmediate size) :=
  .next .frame fun _ => .next (.pushNat _) fun _ => .modifyFrame fun _ => ⟨rfl, rfl, rfl⟩

private theorem finish : Takes (fun _ => 0) 0 finish := .modifyFrame fun _ => ⟨rfl, rfl, rfl⟩

private theorem setOutput : Takes (fun _ => 0) 0 setOutput :=
  .next .popExtent fun _ => .next (.payWithMemory _ _) fun _ => .next (.readMemory _) fun _ =>
    .modifyFrame fun _ => ⟨rfl, rfl, rfl⟩

/-! ### Sending messages -/

/-- A call that is paid for has paid for the gas that it hands on and for the access. -/
private theorem chargedCall {f : Nat → MachineM Request} {gas value : Word} {extents : List (Word × Word)}
    {surcharge least : Nat} (h : Gas.stipend value + least ≤ surcharge)
    (hf : ∀ forwarded : Nat,
      Takes (fun r => (r.gas : Int) - forwarded) (-(forwarded : Int)) (f forwarded)) :
    Takes (fun r => (r.gas + least : Nat)) 0
      (MachineM.chargeCall rules gas value extents surcharge >>= f) :=
  (chargeCall gas value extents surcharge).bind fun forwarded =>
    (hf forwarded).mono (fun _ => by omega) (by omega)

theorem callRequest (rules : Rules) :
    Takes (fun r => (r.gas + Gas.leastAccess rules rules.gas.call : Nat)) 0 (callRequest rules) := by
  refine .next .pop fun _ => .next .popAddress fun target => .next .pop fun value => ?_
  refine .next .popExtent fun _ => .next .popExtent fun _ => ?_
  refine .nextOf (.accessPrice target _) (yields_accessPrice rules target _) fun access hle => ?_
  refine .next .world fun w => .chargedCall ?_ fun _ => ?_
  · have hstipend := Gas.stipend_le_valuePrice value
    omega
  · exact .next .frame fun _ => .haltIf (by omega) (.pure (by simp))

theorem codeRequest (rules : Rules) :
    Takes (fun r => (r.gas + Gas.leastAccess rules rules.gas.call : Nat)) 0 (codeRequest rules) := by
  refine .next .pop fun _ => .next .popAddress fun codeAddress => .next .pop fun value => ?_
  refine .next .popExtent fun _ => .next .popExtent fun _ => ?_
  refine .nextOf (.accessPrice codeAddress _) (yields_accessPrice rules codeAddress _)
    fun access hle => .chargedCall ?_ fun _ => .next .frame fun _ => .pure (by simp)
  have hstipend := Gas.stipend_le_valuePrice value
  omega

theorem delegateRequest (rules : Rules) :
    Takes (fun r => (r.gas + Gas.leastAccess rules rules.gas.call : Nat)) 0
      (delegateRequest rules) := by
  refine .next .pop fun _ => .next .popAddress fun codeAddress => ?_
  refine .next .popExtent fun _ => .next .popExtent fun _ => ?_
  refine .nextOf (.accessPrice codeAddress _) (yields_accessPrice rules codeAddress _)
    fun access hle => .chargedCall ?_ fun _ => .next .frame fun _ => .pure (by simp)
  -- No value is moved, so there is no stipend.
  simpa [Gas.stipend] using hle

theorem staticRequest (rules : Rules) :
    Takes (fun r => (r.gas + Gas.leastAccess rules rules.gas.call : Nat)) 0
      (staticRequest rules) := by
  refine .next .pop fun _ => .next .popAddress fun target => ?_
  refine .next .popExtent fun _ => .next .popExtent fun _ => ?_
  refine .nextOf (.accessPrice target _) (yields_accessPrice rules target _)
    fun access hle => .chargedCall ?_ fun _ => .next .frame fun _ => .pure (by simp)
  simpa [Gas.stipend] using hle

/-- A request that is paid for, and then a message that gives back what it was given at most. -/
private theorem sent {least : Nat} {request : MachineM Request} {f : Request → MachineM Unit}
    (hr : Takes (fun r => (r.gas + least : Nat)) 0 request)
    (hf : ∀ r, Takes (fun _ => -(r.gas : Int)) (-r.gas) (f r)) :
    Takes (fun _ => (least : Int)) 0 (request >>= f) :=
  hr.bind fun r => (hf r).mono (fun _ => by omega) (by omega)

private theorem creationAddress (salted : Bool) (extent : Word × Word) :
    Takes (fun _ => 0) 0 (creationAddress salted extent) :=
  .ite (fun _ => .next .pop fun _ => .next (.payWithMemory _ _) fun _ => .next .frame fun _ =>
      .next (.readMemory _) fun _ => .pure (Int.le_refl 0)) fun _ =>
    .next (.payWithMemory _ _) fun _ => .next .frame fun _ => .next .world fun _ =>
      .pure (Int.le_refl 0)

private theorem reserveCreationGas (rules : Rules) :
    Takes (fun gas : Nat => (gas : Int)) 0 (reserveCreationGas rules) := fun m => by
  have hle : (if rules.allButOne64th then Gas.allButOne64th m.frame.gasLeft else m.frame.gasLeft) ≤
      m.frame.gasLeft := by
    unfold Gas.allButOne64th
    split <;> omega
  refine ⟨.of_frame rfl rfl, ?_⟩
  dsimp only
  omega

theorem creationRequest (rules : Rules) (salted : Bool) :
    Takes (fun r => (r.gas : Int)) 0 (creationRequest rules salted) :=
  .next .pop fun _ => .next .popExtent fun code => .next (.creationAddress salted code) fun contract =>
    .next (.discard (.warmAddress contract)) fun _ =>
      (reserveCreationGas rules).bind fun _ => .pure (by simp)

private theorem createContract (hc : ∀ c ∈ children, c.Lawful) (salted : Bool) :
    Takes (fun _ => 0) 0 (createContract rules children salted) :=
  (creationRequest rules salted).bind fun r => (place hc r).mono (fun _ => by omega) (by omega)

/-! ### Destroying the running account -/

private theorem payForDestruction (rules : Rules) (owner heir : Address) :
    Takes (fun _ => 0) 0 (payForDestruction rules owner heir) := by
  rw [payForDestruction_eq]
  exact .next (.accessPrice heir 0) fun _ => .next .world fun _ => .next (.pay _) fun _ =>
    .next .frame fun _ => .addRefund _

private theorem bequeath (owner heir : Address) : Takes (fun _ => 0) 0 (bequeath owner heir) := fun m => by
  match hr : World.addBalance heir (m.world.balance owner) m.world with
  | .ok () w' =>
    rw [bequeath_of_ok hr]
    exact ⟨.of_destruction rfl rfl hr, by simp⟩
  | .error cause w' =>
    rw [bequeath_of_error hr]
    rintro rfl
    exact World.OverflowsIf.addBalance (p := fun _ => _) heir _ _ _ _ hr rfl

private theorem selfDestruct (rules : Rules) : Takes (fun _ => 0) 0 (selfDestruct rules) :=
  .next .popAddress fun heir => .next .frame fun f =>
    .next (.payForDestruction rules f.message.target heir) fun _ =>
      .next (.bequeath f.message.target heir) fun _ => .next .world fun _ =>
        .ite (fun _ => .next (.modifyFrame fun _ => ⟨rfl, rfl, rfl⟩) fun _ =>
          .modifyFrame fun _ => ⟨rfl, rfl, rfl⟩) fun _ => .modifyFrame fun _ => ⟨rfl, rfl, rfl⟩

/-! ### All operations -/

/-- An operation takes the least charge that is known of it, or more. -/
theorem perform (hc : ∀ c ∈ children, c.Lawful) (op : Opcode) :
    Takes (fun _ => (Gas.leastCharge env.rules op : Nat)) 0 (perform env children op) := by
  cases op with
  | add | mul | sub | div | sdiv | mod | smod | signextend | lt | gt | slt | sgt | eq
  | and | or | xor | byte | shl | shr | sar => exact .binary _
  | iszero | not | blockhash => exact .unary _
  | addmod | mulmod => exact .ternary _
  | stop => exact .finish
  | exp => exact .next .pop fun _ => .next .pop fun _ => .next (.pay _) fun _ => .push _
  | keccak256 => exact .hashMemory
  | origin | gasprice | coinbase | difficulty | basefee => exact .push _
  | timestamp | number | gaslimit | chainid => exact .pushNat _
  | address | caller | callvalue => exact .next .frame fun _ => .push _
  | calldatasize | codesize | returndatasize | pc | msize | gas =>
    exact .next .frame fun _ => .pushNat _
  | selfbalance => exact .next .world fun _ => .next .frame fun _ => .push _
  | balance | extcodehash => exact .accessed _ fun _ => .next .world fun _ => .push _
  | extcodesize => exact .accessed _ fun _ => .next .world fun _ => .pushNat _
  | extcodecopy => exact .copyCodeOf _
  | calldataload => exact .next .pop fun _ => .next .frame fun _ => .pushNat _
  | calldatacopy | codecopy => exact .next .frame fun _ => .copyToMemory _
  | returndatacopy => exact .copyReturnData
  | pop => exact .discard .pop
  | mload =>
    exact .next .pop fun _ => .next (.payWithMemory _ _) fun _ => .next .frame fun _ => .push _
  | mstore | mstore8 =>
    exact .next .pop fun _ => .next .pop fun _ => .next (.payWithMemory _ _) fun _ =>
      .modifyFrame fun _ => ⟨rfl, rfl, rfl⟩
  | sload => exact .loadSlot _
  | sstore => exact .storeSlot _
  | jump => exact .next .pop fun target => .jumpTo target
  | jumpi =>
    exact .next .pop fun target => .next .pop fun _ =>
      .ite (fun _ => .jumpTo target) fun _ => .pure (Int.le_refl 0)
  | jumpdest => exact .pure (Int.le_refl 0)
  | push size => exact .pushImmediate _
  | dup depth => exact .changeStack fun s => s.dup (depth.val + 1)
  | swap depth => exact .changeStack fun s => s.swap (depth.val + 1)
  | log topics => exact .record _
  | ret => exact .next .setOutput fun _ => .finish
  | revert => exact .next .setOutput fun _ => .throw (Int.le_refl 0) _
  | invalid => exact .halt (Int.le_refl 0) _
  | create | create2 => exact .createContract hc _
  | call => exact .sent (.callRequest _) fun r => .sendValue hc r
  | callcode => exact .sent (.codeRequest _) fun r => .sendValue hc r
  | delegatecall => exact .sent (.delegateRequest _) fun r => .send hc r
  | staticcall => exact .sent (.staticRequest _) fun r => .send hc r
  | selfdestruct => exact .selfDestruct _

end Takes

end MachineM

end StateTransition
