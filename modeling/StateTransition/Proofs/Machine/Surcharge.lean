import StateTransition.Proofs.Machine.Boundary
import StateTransition.Proofs.Machine.Warmth

/-! First uses. An operation uses one account or one slot at most. If that is cold it is paid
more for, and is warm once the frame goes on. The prices of first uses make no other difference to an operation. -/
namespace StateTransition

variable {env : Environment} {rules : Rules} {children : Option Children} {account slot : Nat}

/-- Rules under which first uses have other prices. -/
def Rules.withColdPrices (rules : Rules) (account slot : Nat) : Rules :=
  { rules with gas := { rules.gas with coldAccountAccess := account, coldSload := slot } }

def Environment.withColdPrices (env : Environment) (account slot : Nat) : Environment :=
  { env with rules := env.rules.withColdPrices account slot }

def Entry.coldPrice (rules : Rules) : Entry → Nat
  | .account _ => rules.gas.coldAccountAccess
  | .slot _ => rules.gas.coldSload

namespace Frame

def accountAt (n : Nat) (f : Frame) : Option Entry := f.stack.items[n]?.map fun w => .account (Address.ofWord w)

def slotOnTop (f : Frame) : Option Entry := f.stack.items[0]?.map fun key => .slot ⟨f.message.target, key⟩

/-- What an operation uses that may be cold. -/
def used? (f : Frame) : Opcode → Option Entry
  | .balance | .extcodesize | .extcodecopy | .extcodehash | .selfdestruct => f.accountAt 0
  | .call | .callcode | .delegatecall | .staticcall => f.accountAt 1
  | .sload | .sstore => f.slotOnTop
  | _ => none

end Frame

/-- What the next operation of a frame has to pay more for, as it is used for the first time. -/
def Machine.surcharge? (rules : Rules) (s : Machine) : Option Entry :=
  if rules.accessLists then
    ((MachineM.decode? rules (byteAt s.frame.code s.frame.pc)).bind s.frame.used?).filter fun e => !s.frame.isWarm e
  else none

namespace MachineM

variable {α β : Type} {s s' : Machine} {entry : Frame → Option Entry} {e : Entry}

/-! ### Computations that leave warm what is warm -/

def KeepsWarm (x : MachineM α) : Prop := ∀ (s s' : Machine) (a : α), x s = .ok a s' → s.frame.StaysWarm s'.frame

namespace KeepsWarm

private theorem of_spares {x : MachineM α} (hx : SparesWarmth x) : KeepsWarm x := fun _ _ _ h =>
  .of_same (hx.sameWarmth h).1

private theorem next {x : MachineM α} {f : α → MachineM β} (hx : KeepsWarm x) (hf : ∀ a, KeepsWarm (f a)) :
    KeepsWarm (x >>= f) := fun s s' b h => by
  obtain ⟨a, s₁, hfirst, hrest⟩ := ok_of_next h
  exact (hx _ _ _ hfirst).trans (hf a _ _ _ hrest)

private theorem ite {p : Prop} [Decidable p] {x y : MachineM α} (hx : KeepsWarm x) (hy : KeepsWarm y) :
    KeepsWarm (if p then x else y) := by
  split
  · exact hx
  · exact hy

private theorem runChild (run : WorldM Frame) : KeepsWarm (runChild rules run) := fun s _ _ h => by
  match hrun : run s.world with
  | .ok child w =>
    obtain ⟨-, -, rfl⟩ := runChild_ok hrun h
    exact Frame.StaysWarm.absorb rules w { s.frame with gasLeft := s.frame.gasLeft + child.gasLeft } child
  | .error cause w =>
    rw [runChild_of_error hrun] at h
    cases h

private theorem send (r : Request) : KeepsWarm (send rules children r) := by
  refine .next (.of_spares (.setReturnData _)) fun _ => ?_
  cases children with
  | none => exact .of_spares (.refuse _)
  | some c =>
    refine .next (.of_spares (.readMemory _)) fun _ => .next (.of_spares .world) fun _ => ?_
    refine .next (.of_spares .frame) fun _ => .next (.runChild _) fun child => .of_spares ?_
    exact .next (.push _) fun _ => .next (.writeMemory _ _) fun _ => .setReturnData _

private theorem sendValue (r : Request) : KeepsWarm (sendValue rules children r) :=
  .next (.of_spares .world) fun _ =>
    .ite (.of_spares (.next (.push _) fun _ => .next (.setReturnData _) fun _ => .giveBack _)) (.send r)

end KeepsWarm

/-! ### Computations that use an entry -/

/-- A computation that uses one entry at most, which the frame tells, and what it is under other prices for first
uses: the same where the entry is warm or costs what it did. In any case it is warm in the end. -/
structure Uses (rules : Rules) (account slot : Nat) (entry : Frame → Option Entry) (x x' : MachineM α) : Prop where
  same : ∀ s : Machine, (rules.accessLists = true → ∀ e ∈ entry s.frame, s.frame.isWarm e = false →
    e.coldPrice (rules.withColdPrices account slot) = e.coldPrice rules) → x' s = x s
  warms : ∀ (s s' : Machine) (a : α), rules.accessLists = true → x s = .ok a s' →
    ∀ e ∈ entry s.frame, s'.frame.isWarm e = true

def OfMessage (entry : Frame → Option Entry) : Prop := ∀ f f' : Frame, f'.message = f.message → entry f' = entry f

private theorem OfMessage.const (e : Option Entry) : OfMessage fun _ => e := fun _ _ _ => rfl

private theorem spares_bequeath (owner heir : Address) : SparesWarmth (bequeath owner heir) :=
  .next .world fun _ => .next (.changeWorld _) fun _ => .next (.modifyWorld _) fun _ => .modifyFrame fun _ => rfl

private theorem pop_ok {w : Word} (h : pop s = .ok w s') : s'.frame.message = s.frame.message ∧
    ∃ rest, s.frame.stack.items = w :: rest ∧ s'.frame.stack.items = rest := by
  obtain ⟨f, w'⟩ := s
  obtain ⟨pc, ⟨_ | ⟨top, rest⟩, size, hsize, hle⟩⟩ := f
  · cases h
  · cases h
    exact ⟨rfl, rest, rfl, rfl⟩

private theorem accessPrice_apply (rules : Rules) (a : Address) (warm : Nat) (s : Machine) :
    accessPrice rules a warm s =
      if rules.accessLists then
        .ok (if s.frame.warmAddresses.contains a then warm else rules.gas.coldAccountAccess)
          ⟨{ s.frame with warmAddresses := s.frame.warmAddresses.insert a }, s.world⟩
      else .ok warm s := by
  have hwarm : warmAddress a s = .ok (!s.frame.warmAddresses.contains a)
    ⟨{ s.frame with warmAddresses := s.frame.warmAddresses.insert a }, s.world⟩ := rfl
  unfold accessPrice
  by_cases hlists : rules.accessLists = true
  · rw [if_pos hlists, if_pos hlists, bind_of_ok hwarm]
    cases s.frame.warmAddresses.contains a <;> rfl
  · rw [if_neg hlists, if_neg hlists]
    rfl

private theorem slotPrice_apply (rules : Rules) (key : SlotKey) (warm : Nat) (s : Machine) :
    slotPrice rules key warm s =
      if rules.accessLists then
        .ok (if s.frame.warmSlots.contains key then warm else rules.gas.coldSload)
          ⟨{ s.frame with warmSlots := s.frame.warmSlots.insert key }, s.world⟩
      else .ok warm s := by
  have hwarm : warmSlot key s = .ok (!s.frame.warmSlots.contains key)
    ⟨{ s.frame with warmSlots := s.frame.warmSlots.insert key }, s.world⟩ := rfl
  unfold slotPrice
  by_cases hlists : rules.accessLists = true
  · rw [if_pos hlists, if_pos hlists, bind_of_ok hwarm]
    cases s.frame.warmSlots.contains key <;> rfl
  · rw [if_neg hlists, if_neg hlists]
    rfl

namespace Uses

/-- What is used is warm from then on, and the price of first uses is asked for only if it was not warm before. -/
private theorem accessPrice (a : Address) (warm : Nat) : Uses rules account slot (fun _ => some (.account a))
    (accessPrice rules a warm) (MachineM.accessPrice (rules.withColdPrices account slot) a warm) where
  same s hprice := by
    rw [accessPrice_apply, accessPrice_apply]
    by_cases hlists : rules.accessLists = true
    · refine ((if_pos hlists).trans ?_).trans (if_pos hlists).symm
      match hknown : s.frame.warmAddresses.contains a with
      | true => rfl
      | false =>
        have hsame : account = rules.gas.coldAccountAccess := hprice hlists _ rfl hknown
        rw [hsame]
        rfl
    · exact (if_neg hlists).trans (if_neg hlists).symm
  warms s s' price hlists h := by
    rintro _ ⟨⟩
    rw [accessPrice_apply, if_pos hlists] at h
    cases h
    exact Std.ExtTreeSet.contains_insert_self

private theorem slotPrice (key : SlotKey) (warm : Nat) : Uses rules account slot (fun _ => some (.slot key))
    (slotPrice rules key warm) (MachineM.slotPrice (rules.withColdPrices account slot) key warm) where
  same s hprice := by
    rw [slotPrice_apply, slotPrice_apply]
    by_cases hlists : rules.accessLists = true
    · refine ((if_pos hlists).trans ?_).trans (if_pos hlists).symm
      match hknown : s.frame.warmSlots.contains key with
      | true => rfl
      | false =>
        have hsame : slot = rules.gas.coldSload := hprice hlists _ rfl hknown
        rw [hsame]
        rfl
    · exact (if_neg hlists).trans (if_neg hlists).symm
  warms s s' price hlists h := by
    rintro _ ⟨⟩
    rw [slotPrice_apply, if_pos hlists] at h
    cases h
    exact Std.ExtTreeSet.contains_insert_self

private theorem nothing (x : MachineM α) : Uses rules account slot (fun _ => none) x x where
  same _ _ := rfl
  warms _ _ _ _ _ := nofun

private theorem bind {x x' : MachineM α} {f : α → MachineM β} (hx : Uses rules account slot entry x x')
    (hf : ∀ a, KeepsWarm (f a)) : Uses rules account slot entry (x >>= f) (x' >>= f) where
  same s hprice := bind_congr_left f (hx.same s hprice)
  warms s s' b hlists h e he := by
    obtain ⟨a, s₁, hfirst, hrest⟩ := ok_of_next h
    exact hf a _ _ _ hrest e (hx.warms _ _ _ hlists hfirst e he)

private theorem after {y : MachineM α} {f f' : α → MachineM β} (hentry : OfMessage entry) (hy : SparesWarmth y)
    (hf : ∀ a, Uses rules account slot entry (f a) (f' a)) : Uses rules account slot entry (y >>= f) (y >>= f') where
  same s hprice := bind_congr_of_ok fun a s₁ h => by
    obtain ⟨hsame, hmessage⟩ := hy.sameWarmth h
    exact (hf a).same s₁ fun hlists e he hcold =>
      hprice hlists e (hentry _ _ hmessage ▸ he) ((hsame.isWarm e).symm.trans hcold)
  warms s s' b hlists h e he := by
    obtain ⟨a, s₁, hfirst, hrest⟩ := ok_of_next h
    obtain ⟨hsame, hmessage⟩ := hy.sameWarmth hfirst
    exact (hf a).warms _ _ _ hlists hrest e (hentry _ _ hmessage ▸ he)

private theorem ofFrame {g g' : Frame → MachineM α}
    (hg : ∀ f, Uses rules account slot (fun _ => entry f) (g f) (g' f)) :
    Uses rules account slot entry (frame >>= g) (frame >>= g') where
  same s hprice := (hg s.frame).same s hprice
  warms s s' a hlists h := (hg s.frame).warms s s' a hlists h

private theorem haltIf {p : Prop} [Decidable p] {cause : Halt} {x x' : MachineM α}
    (hx : Uses rules account slot entry x x') :
    Uses rules account slot entry (if p then (halt cause : MachineM Unit) >>= fun _ => x else x)
      (if p then (halt cause : MachineM Unit) >>= fun _ => x' else x') := by
  split
  · exact ⟨fun _ _ => rfl, fun _ _ _ _ h => by cases h⟩
  · exact hx

/-- What is used may be told by the stack, which has another item on top before the pop than after it. -/
private theorem popping (entry' : Word → Frame → Option Entry) {g g' : Word → MachineM α}
    (hentry : ∀ (f f' : Frame) (w : Word) (rest : List Word), f.stack.items = w :: rest → f'.stack.items = rest →
      f'.message = f.message → entry f = entry' w f')
    (hg : ∀ w, Uses rules account slot (entry' w) (g w) (g' w)) :
    Uses rules account slot entry (pop >>= g) (pop >>= g') where
  same s hprice := bind_congr_of_ok fun w s₁ h => by
    obtain ⟨hmessage, rest, htop, hrest⟩ := pop_ok h
    have hsame := sameWarmth_of_ok h .pop
    refine (hg w).same s₁ fun hlists e he hcold => hprice hlists e ?_ ((hsame.isWarm e).symm.trans hcold)
    rwa [hentry _ _ w rest htop hrest hmessage]
  warms s s' b hlists h e he := by
    obtain ⟨w, s₁, hpop, hrest⟩ := ok_of_next h
    obtain ⟨hmessage, rest, htop, hleft⟩ := pop_ok hpop
    exact (hg w).warms _ _ _ hlists hrest e (hentry _ _ w rest htop hleft hmessage ▸ he)

private theorem below {n : Nat} {g g' : Word → MachineM α}
    (hg : ∀ w, Uses rules account slot (Frame.accountAt n) (g w) (g' w)) :
    Uses rules account slot (Frame.accountAt (n + 1)) (pop >>= g) (pop >>= g') := by
  refine popping (fun _ => Frame.accountAt n) (fun f f' w rest htop hrest _ => ?_) hg
  rw [Frame.accountAt, Frame.accountAt, htop, hrest, List.getElem?_cons_succ]

private theorem onTop {g g' : Address → MachineM α}
    (hg : ∀ a, Uses rules account slot (fun _ => some (.account a)) (g a) (g' a)) :
    Uses rules account slot (Frame.accountAt 0) (popAddress >>= g) (popAddress >>= g') := by
  rw [popAddress, bind_assoc, bind_assoc]
  simp only [pure_bind]
  refine popping (fun w _ => some (.account (Address.ofWord w))) (fun f f' w rest htop _ _ => ?_)
    fun w => hg (Address.ofWord w)
  rw [Frame.accountAt, htop, List.getElem?_cons_zero, Option.map_some]

private theorem slotOnTop {g g' : Word → MachineM α}
    (hg : ∀ key, Uses rules account slot (fun f => some (.slot ⟨f.message.target, key⟩)) (g key) (g' key)) :
    Uses rules account slot Frame.slotOnTop (pop >>= g) (pop >>= g') := by
  refine popping (fun key f => some (.slot ⟨f.message.target, key⟩)) (fun f f' key rest htop _ hmessage => ?_)
    hg
  rw [Frame.slotOnTop, htop, hmessage, List.getElem?_cons_zero, Option.map_some]

/-- An operation that pays for the account on top of the stack before anything else. -/
private theorem accessed {warm : Nat} {rest : Address → MachineM Unit} (hrest : ∀ a, SparesWarmth (rest a)) :
    Uses rules account slot (Frame.accountAt 0)
      (popAddress >>= fun a => MachineM.accessPrice rules a warm >>= fun price => charge price >>= fun _ => rest a)
      (popAddress >>= fun a => MachineM.accessPrice (rules.withColdPrices account slot) a warm >>= fun price =>
        charge price >>= fun _ => rest a) :=
  .onTop fun a => .bind (.accessPrice a warm) fun price => .of_spares (.next (.charge price) fun _ => hrest a)

private theorem copyCodeOf : Uses rules account slot (Frame.accountAt 0) (copyCodeOf rules)
    (MachineM.copyCodeOf (rules.withColdPrices account slot)) :=
  .onTop fun a => .after (.const _) .pop fun _ => .after (.const _) .pop fun _ =>
    .after (.const _) .pop fun _ => .bind (.accessPrice a _) fun _ => .of_spares <|
      .next (.chargeWithMemory _ _) fun _ => .next .world fun _ => .writeMemory _ _

private theorem loadSlot : Uses rules account slot Frame.slotOnTop (loadSlot rules)
    (MachineM.loadSlot (rules.withColdPrices account slot)) :=
  .slotOnTop fun key => .ofFrame fun f => .bind (.slotPrice ⟨f.message.target, key⟩ _) fun _ => .of_spares <|
    .next (.charge _) fun _ => .next .world fun _ => .push _

private theorem storeSlot : Uses rules account slot Frame.slotOnTop (storeSlot rules)
    (MachineM.storeSlot (rules.withColdPrices account slot)) :=
  .slotOnTop fun key => .after (fun _ _ h => by rw [h]) .pop fun new => .after (fun _ _ h => by rw [h]) .frame fun _ =>
    .haltIf <| .ofFrame fun f => .bind (.slotPrice ⟨f.message.target, key⟩ _) fun _ => .of_spares <|
      .next .world fun _ => .next .world fun _ => .next (.charge _) fun _ =>
        .next (.addRefund fun _ => rfl) fun _ => .modifyWorld _

private theorem callRequest : Uses rules account slot (Frame.accountAt 1) (callRequest rules)
    (MachineM.callRequest (rules.withColdPrices account slot)) :=
  .below fun _ => .onTop fun target => .after (.const _) .pop fun _ => .after (.const _) .popExtent
    fun _ => .after (.const _) .popExtent fun _ => .bind (.accessPrice target _) fun _ => .of_spares <|
      .next .world fun _ => .next (.chargeCall _ _ _ _) fun _ => .next .frame fun _ => .haltIf (.pure _)

private theorem codeRequest : Uses rules account slot (Frame.accountAt 1) (codeRequest rules)
    (MachineM.codeRequest (rules.withColdPrices account slot)) :=
  .below fun _ => .onTop fun codeAddress => .after (.const _) .pop fun _ => .after (.const _) .popExtent
    fun _ => .after (.const _) .popExtent fun _ => .bind (.accessPrice codeAddress _) fun _ => .of_spares <|
      .next (.chargeCall _ _ _ _) fun _ => .next .frame fun _ => .pure _

private theorem delegateRequest : Uses rules account slot (Frame.accountAt 1) (delegateRequest rules)
    (MachineM.delegateRequest (rules.withColdPrices account slot)) :=
  .below fun _ => .onTop fun codeAddress => .after (.const _) .popExtent fun _ =>
    .after (.const _) .popExtent fun _ => .bind (.accessPrice codeAddress _) fun _ => .of_spares <|
      .next (.chargeCall _ _ _ _) fun _ => .next .frame fun _ => .pure _

private theorem staticRequest : Uses rules account slot (Frame.accountAt 1) (staticRequest rules)
    (MachineM.staticRequest (rules.withColdPrices account slot)) :=
  .below fun _ => .onTop fun target => .after (.const _) .popExtent fun _ =>
    .after (.const _) .popExtent fun _ => .bind (.accessPrice target _) fun _ => .of_spares <|
      .next (.chargeCall _ _ _ _) fun _ => .next .frame fun _ => .pure _

private theorem payForDestruction (owner heir : Address) : Uses rules account slot (fun _ => some (.account heir))
    (payForDestruction rules owner heir)
    (MachineM.payForDestruction (rules.withColdPrices account slot) owner heir) := by
  rw [payForDestruction_eq, payForDestruction_eq]
  exact .bind (.accessPrice heir 0) fun _ => .of_spares <| .next .world fun _ => .next (.charge _) fun _ =>
    .next .frame fun _ => .addRefund fun _ => rfl

private theorem selfDestruct : Uses rules account slot (Frame.accountAt 0) (selfDestruct rules)
    (MachineM.selfDestruct (rules.withColdPrices account slot)) := by
  have hstop : SparesWarmth (modifyFrame fun f => { f with running := false }) :=
    .modifyFrame fun _ => rfl
  exact .onTop fun heir => .ofFrame fun f => .bind (.payForDestruction f.message.target heir) fun _ => .of_spares <|
    .next (spares_bequeath _ heir) fun _ => .next .world fun _ =>
      .ite (.next (.modifyFrame fun _ => rfl) fun _ => hstop) hstop

private theorem perform (op : Opcode) (account slot : Nat) : Uses env.rules account slot (fun f => f.used? op)
    (perform env children op) (MachineM.perform (env.withColdPrices account slot) children op) := by
  cases op with
  | balance => exact .accessed fun _ => .next .world fun _ => .push _
  | extcodesize => exact .accessed fun _ => .next .world fun _ => .push _
  | extcodehash => exact .accessed fun _ => .next .world fun _ => .push _
  | extcodecopy => exact .copyCodeOf
  | sload => exact .loadSlot
  | sstore => exact .storeSlot
  | call => exact .bind .callRequest fun r => .sendValue r
  | callcode => exact .bind .codeRequest fun r => .sendValue r
  | delegatecall => exact .bind .delegateRequest fun r => .send r
  | staticcall => exact .bind .staticRequest fun r => .send r
  | selfdestruct => exact .selfDestruct
  | _ => exact .nothing _

end Uses

private theorem Uses.operate (op : Opcode) (account slot : Nat) : Uses env.rules account slot (fun f => f.used? op)
    (operate env children op) (MachineM.operate (env.withColdPrices account slot) children op) where
  same s hprice := by
    rw [operate_eq, operate_eq, (Uses.perform op account slot).same (paid op s) hprice]
  warms s s' a hlists h := by
    rw [operate_eq] at h
    split at h
    · split at h
      · cases h
      · exact (Uses.perform op account slot).warms (paid op s) s' a hlists h
    · cases h

/-! ### Steps -/

private theorem surcharge?_eq_some : s.surcharge? env.rules = some e ↔ env.rules.accessLists = true ∧
    ∃ op, decode? env.rules (byteAt s.frame.code s.frame.pc) = some op ∧ s.frame.used? op = some e ∧
      s.frame.isWarm e = false := by
  unfold Machine.surcharge?
  split
  · next hlists =>
    rw [Option.filter_eq_some_iff, Option.bind_eq_some_iff, Bool.not_eq_true']
    exact ⟨fun ⟨⟨op, hop, he⟩, hcold⟩ => ⟨hlists, op, hop, he, hcold⟩, fun ⟨_, op, hop, he, hcold⟩ =>
      ⟨⟨op, hop, he⟩, hcold⟩⟩
  · next hlists => simp [hlists]

/-- Of what first uses cost, only the price of the one that is due makes a difference to a step. -/
private theorem step_withColdPrices (children : Option Children) (account slot : Nat)
    (h : ∀ e ∈ s.surcharge? env.rules, e.coldPrice (env.rules.withColdPrices account slot) = e.coldPrice env.rules) :
    step (env.withColdPrices account slot) children s = step env children s := by
  rw [step_eq, step_eq]
  change (match decode? env.rules (byteAt s.frame.code s.frame.pc) with | _ => _) = _
  match hop : decode? env.rules (byteAt s.frame.code s.frame.pc) with
  | none => rfl
  | some op =>
    refine (Uses.operate op account slot).same s fun hlists e he hcold => h e ?_
    exact surcharge?_eq_some.mpr ⟨hlists, op, hop, he, hcold⟩

private theorem isWarm_of_surcharge (h : s.surcharge? env.rules = some e) (hstep : step env children s = .ok () s') :
    s'.frame.isWarm e = true := by
  obtain ⟨hlists, op, hop, he, -⟩ := surcharge?_eq_some.mp h
  rw [step_eq, hop] at hstep
  exact (Uses.operate op 0 0).warms s s' () hlists hstep e he

/-- What the steps of a frame pay more for, one after another. -/
inductive Surcharges (env : Environment) (children : Option Children) (s : Machine) : List Entry → Machine → Prop
  | start : Surcharges env children s [] s
  | next {paid : List Entry} {s₁ s₂ : Machine} (h : Surcharges env children s paid s₁) (hcontinues : Continues s₁)
    (hstep : step env children s₁ = .ok () s₂) :
    Surcharges env children s (paid ++ (s₁.surcharge? env.rules).toList) s₂

private theorem Iterates.exists_surcharges (h : Iterates env children s s') :
    ∃ paid, Surcharges env children s paid s' := by
  induction h with
  | start => exact ⟨[], .start⟩
  | next _ hcontinues hstep ih =>
    obtain ⟨paid, hpaid⟩ := ih
    exact ⟨_, hpaid.next hcontinues hstep⟩

private theorem Iterates.staysWarm (h : Iterates env children s s') : s.frame.StaysWarm s'.frame := by
  induction h with
  | start => exact .refl _
  | next _ _ hstep ih => exact ih.trans (Does.step.staysWarm rfl hstep)

namespace Surcharges

variable {paid : List Entry}

private theorem iterates (h : Surcharges env children s paid s') : Iterates env children s s' := by
  induction h with
  | start => exact .start
  | next _ hcontinues hstep ih => exact ih.next hcontinues hstep

/-- What was paid more for was cold to begin with, and is warm by now. -/
private theorem warmed (h : Surcharges env children s paid s') (he : e ∈ paid) :
    s.frame.isWarm e = false ∧ s'.frame.isWarm e = true := by
  induction h with
  | start => cases he
  | @next paid s₁ s₂ h _ hstep ih =>
    rcases List.mem_append.mp he with he | he
    · exact ⟨(ih he).1, Does.step.staysWarm rfl hstep e (ih he).2⟩
    · have hdue : s₁.surcharge? env.rules = some e := by simpa using he
      obtain ⟨-, op, -, -, hcold⟩ := surcharge?_eq_some.mp hdue
      exact ⟨h.iterates.staysWarm.cold hcold, isWarm_of_surcharge hdue hstep⟩

/-- What is still to be paid more for has not been so far. -/
private theorem fresh (h : Surcharges env children s paid s') (hdue : s'.surcharge? env.rules = some e) :
    e ∉ paid ∧ s.frame.isWarm e = false := by
  obtain ⟨-, op, -, -, hcold⟩ := surcharge?_eq_some.mp hdue
  refine ⟨fun he => ?_, h.iterates.staysWarm.cold hcold⟩
  exact Bool.false_ne_true (hcold.symm.trans (h.warmed he).2)

private theorem nodup (h : Surcharges env children s paid s') : paid.Nodup := by
  induction h with
  | start => exact .nil
  | @next paid s₁ s₂ h _ _ ih =>
    match hdue : s₁.surcharge? env.rules with
    | none => simpa using ih
    | some e =>
      refine List.nodup_append.mpr ⟨ih, by simp, fun e' he' e'' he'' => ?_⟩
      obtain rfl := List.mem_singleton.mp he''
      exact ne_of_mem_of_not_mem he' (h.fresh hdue).1

end Surcharges

/-- In every frame and in what is nested in it: nothing that is warm goes cold, neither from step to step, nor where a
failure ends the frame, nor from a message to the frame that it leaves. A call or a creation that comes to a child
leaves what is warm as it was if the child failed, and as the child ended with it if that succeeded, which is all that
it was given, and more. So a frame pays more for first uses of different accounts and slots only, none of which was
warm when it began, or when it came out of a child: what first uses cost makes no difference to a step but for the
price of the one that is due, if one is. -/
theorem warmth_follows_frames (env : Environment) (room : Nat) :
    let children := Children.ofRoom env room
    (∀ s s' : Machine, Iterates env children s s' → s.frame.StaysWarm s'.frame) ∧
    (∀ (s s' : Machine) (cause : Failure), step env children s = .error (.failure cause) s' →
      s.frame.StaysWarm s'.frame) ∧
    (∀ c ∈ children,
      (∀ (m : Message) (w w' : World) (f : Frame), c.call m w = .ok f w' ∨ c.create m w = .ok f w' →
        (Frame.ofMessage m).StaysWarm f) ∧
      (∀ (r : Request) (s s' : Machine), send env.rules children r s = .ok () s' → ∃ child w',
        c.call (callMessage s.frame r (s.frame.readMemory r.input) (s.world.code r.codeAddress)) s.world =
          .ok child w' ∧ s.frame.Inherits s'.frame child) ∧
      ∀ (r : CreationRequest) (s s' : Machine), place env.rules children r s = .ok () s' →
        if r.proceeds s.frame.message.target s.world then
          ∃ w₁ child w', World.incrementNonce s.frame.message.target s.world = .ok () w₁ ∧
            c.create (creationMessage s.frame r.contract r.gas r.value (s.frame.readMemory r.code)) w₁ = .ok child w' ∧
              s.frame.Inherits s'.frame child
        else s.frame.SameWarmth s'.frame) ∧
    (∀ s s' : Machine, Iterates env children s s' ↔ ∃ paid, Surcharges env children s paid s') ∧
    (∀ (s s' : Machine) (paid : List Entry), Surcharges env children s paid s' →
      paid.Nodup ∧ (∀ e ∈ paid, s.frame.isWarm e = false) ∧
        ∀ e ∈ s'.surcharge? env.rules, e ∉ paid ∧ s.frame.isWarm e = false) ∧
    ∀ (s : Machine) (account slot : Nat),
      (∀ e ∈ s.surcharge? env.rules, e.coldPrice (env.rules.withColdPrices account slot) = e.coldPrice env.rules) →
        step (env.withColdPrices account slot) children s = step env children s := by
  intro children
  refine ⟨fun s s' h => h.staysWarm, fun s s' cause h => Does.step.staysWarm_of_failure rfl h, fun c hc => ?_,
    fun s s' => ⟨Iterates.exists_surcharges, fun ⟨paid, h⟩ => h.iterates⟩, fun s s' paid h => ?_,
    fun s account slot h => step_withColdPrices children account slot h⟩
  · have hwarming : c.Warming := Children.warming_ofRoom env room c hc
    have hsome : children = some c := hc
    rw [hsome]
    refine ⟨fun m w w' f h => ?_, fun r s s' => send_inherits hwarming, fun r s s' => place_inherits hwarming⟩
    rcases h with h | h
    · exact hwarming.call h
    · exact hwarming.create h
  · exact ⟨h.nodup, fun e he => (h.warmed he).1, fun e hdue => h.fresh hdue⟩

/-- A frame calls an account that looks up the balance of another, and then looks that up itself. -/
theorem warmth_follows_frames_out_of_call :
    let env : Environment := ⟨Rules.ofFork .berlin, ⟨1, 0, 8000000, 0x99, 0, 1, none, []⟩, ⟨0x77, 1⟩⟩
    let m : Message :=
      { caller := 0x77, isCreation := false, target := 0x10, codeAddress := some 0x10, gas := 100000, value := 0
        data := .empty
        code := ⟨#[0x60, 0, 0x60, 0, 0x60, 0, 0x60, 0, 0x60, 0, 0x60, 0x20, 0x61, 0xff, 0xff, 0xf1, 0x60, 0x33, 0x31]⟩
        movesValue := true, isStatic := false, warmAddresses := ∅, warmSlots := ∅, destroyed := ∅ }
    let w : World := { World.empty.putAccount 0x20 (some ⟨1, 0, 1⟩) with
      codes := (∅ : Std.ExtTreeMap Hash ByteArray).insert 1 ⟨#[0x60, 0x33, 0x31]⟩ }
    ∃ s paid, Surcharges env (Children.ofRoom env 1) ⟨.ofMessage m, w⟩ paid s ∧ paid.Nodup ∧
      decode? env.rules (byteAt s.frame.code s.frame.pc) = some .balance ∧
      s.frame.accountAt 0 = some (.account 0x33) ∧ (Frame.ofMessage m).isWarm (.account 0x33) = false ∧
      step (env.withColdPrices 1000000 0) (Children.ofRoom env 1) s = step env (Children.ofRoom env 1) s := by
  intro env m w
  have hrun : endsWith (fun _ s => decode? env.rules (byteAt s.frame.code s.frame.pc) = some .balance ∧
      s.frame.accountAt 0 = some (.account 0x33) ∧ s.surcharge? env.rules = none)
        (steps env (Children.ofRoom env 1) 9 ⟨.ofMessage m, w⟩) := by
    decide +kernel
  obtain ⟨⟨⟩, s, hs, htest⟩ := exists_of_endsWith hrun
  obtain ⟨hop, hused, hnone⟩ := of_decide_eq_true htest
  obtain ⟨-, -, -, hiterates, honce, hsame⟩ := warmth_follows_frames env 1
  have hran : Ran env (Children.ofRoom env 1) ⟨.ofMessage m, w⟩ (.ok () s) := hs ▸ Iterates.start.ran_steps 9
  obtain ⟨paid, hpaid⟩ := (hiterates _ _).mp hran
  exact ⟨s, paid, hpaid, (honce _ _ _ hpaid).1, hop, hused, by decide +kernel, hsame s 1000000 0 (by simp [hnone])⟩

end MachineM

end StateTransition
