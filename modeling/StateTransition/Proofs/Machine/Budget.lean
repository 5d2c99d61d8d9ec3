import StateTransition.Proofs.Machine.Computation
import StateTransition.Proofs.Machine.PowerPrice
import StateTransition.Proofs.Machine.Progress

/-! How large the numbers of a frame become. A step gives back or takes back 24000 at most, and each step but the last
uses gas, so no number is too large for its type and no buffer too long where there is little gas. -/
namespace StateTransition

private theorem Rules.writeRefund_le (f : Fork) (initial current new : Word) :
    (MachineM.writeRefund (ofFork f) initial current new).natAbs ≤ 24000 := by
  have hclear : (ofFork f).gas.sstoreClearRefund ≤ 24000 := by cases f <;> decide
  have hset : (ofFork f).gas.sload ≤ (ofFork f).gas.sstoreSet ∧ (ofFork f).gas.sstoreSet ≤ 24000 := by
    cases f <;> decide
  have hreset : (ofFork f).gas.sload ≤ (ofFork f).gas.sstoreReset ∧ (ofFork f).gas.sstoreReset ≤ 24000 := by
    cases f <;> decide
  unfold MachineM.writeRefund
  split
  · unfold MachineM.netWriteRefund
    split
    · decide
    · dsimp only
      by_cases hclears : (initial ≠ 0 && current ≠ 0 && new = 0) = true
      · -- What was in use when found is not restored by the write that clears it.
        have hnew : ¬initial = new := by
          rintro rfl
          simp only [Bool.and_eq_true, decide_eq_true_eq] at hclears
          exact hclears.1.1 hclears.2
        rw [if_pos hclears, if_neg hnew]
        split <;> omega
      · rw [if_neg hclears]
        have hrestored : (ofFork f).gas.sload ≤
              (if initial = 0 then (ofFork f).gas.sstoreSet else (ofFork f).gas.sstoreReset) ∧
            (if initial = 0 then (ofFork f).gas.sstoreSet else (ofFork f).gas.sstoreReset) ≤ 24000 := by
          split <;> omega
        split <;> split <;> omega
  · unfold MachineM.grossWriteRefund
    split <;> omega

private theorem Rules.selfdestructRefund_le (f : Fork) : (ofFork f).gas.selfdestructRefund ≤ 24000 := by
  cases f <;> decide

/-- What a frame could give back in the end, if each unit of its gas bought it the most that one step can. -/
def Frame.worth (f : Frame) : Nat := 24000 * f.gasLeft + f.refund.natAbs

private theorem Frame.worth_ofMessage (m : Message) : (ofMessage m).worth = 24000 * m.gas := rfl

private theorem Frame.le_of_not_fitsRefund {f : Frame} {amount : Int} (h : ¬f.fitsRefund amount = true) :
    2 ^ 63 ≤ f.refund.natAbs + amount.natAbs := by
  simp only [fitsRefund, Bool.and_eq_true, decide_eq_true_eq] at h
  omega

/-- A way to run a message that leaves no more than the message's gas and one last step are worth. -/
structure Message.Thrifty (m : Message) (run : WorldM Frame) : Prop where
  gas : ∀ {w w' : World} {f : Frame}, run w = .ok f w' → f.gasLeft ≤ m.gas
  worth : ∀ {w w' : World} {f : Frame}, run w = .ok f w' → f.failure = none → f.worth ≤ 24000 * (m.gas + 1)
  overflow : World.OverflowsIf (fun _ => 2 ^ 63 ≤ 24000 * (m.gas + 1)) run

structure Children.Thrifty (c : Children) : Prop where
  call : ∀ m : Message, m.Thrifty (c.call m)
  create : ∀ m : Message, m.Thrifty (c.create m)

/-- What a child is worth is worth no less in the frame that absorbs it. -/
private theorem Frame.worth_absorb_le {f child : Frame} {rules : Rules} {w : World} {gas : Nat}
    (hgas : child.gasLeft ≤ gas)
    (h : child.failure = none → child.worth ≤ 24000 * (gas + 1)) :
    ({ f with gasLeft := f.gasLeft + child.gasLeft }.absorb rules w child).worth ≤ f.worth + 24000 * (gas + 1) := by
  by_cases hok : child.failure = none
  · have hworth := h hok
    have hs : child.succeeded = true := by simp [succeeded, hok]
    rw [absorb, if_pos hs]
    unfold worth absorbSuccess at *
    dsimp only
    omega
  · rw [absorb_of_failed hok]
    unfold worth absorbFailure
    dsimp only
    omega

namespace MachineM

variable {α β : Type} {j k : α → Int} {e : Int} {rules : Rules} {children : Option Children} {P : Message → α → Prop}

/-- Where a computation may lead that takes `k` gas or more out of what its frame is worth. A number or a buffer is
too short for it only if the frame was worth that much before, less `e` gas. -/
def Spends (m : Machine) (k : α → Int) (e : Int) : EStateM.Result Stop Machine α → Prop
  | .ok a m' => m'.frame.worth + 24000 * k a ≤ m.frame.worth
  | .error (.failure _) _ => True
  | .error (.fault cause) _ => cause.isOverflow = true → 2 ^ 63 ≤ m.frame.worth - 24000 * e

def Within (k : α → Int) (e : Int) (x : MachineM α) : Prop := ∀ m, Spends m k e (x m)

private theorem Spends.of_le {m m' : Machine} {r : EStateM.Result Stop Machine α} (h : Spends m' k e r)
    (hle : m'.frame.worth ≤ m.frame.worth) : Spends m k e r := by
  match r with
  | .ok a m₁ =>
    unfold Spends at *
    omega
  | .error (.failure _) _ => trivial
  | .error (.fault _) _ =>
    intro hcause
    have := h hcause
    omega

namespace Within

private theorem ok {x : MachineM α} (h : Within k e x) {m m' : Machine} {a : α} (hx : x m = .ok a m') :
    m'.frame.worth + 24000 * k a ≤ m.frame.worth := by
  have hm := h m
  rwa [hx] at hm

private theorem overflow {x : MachineM α} (h : Within k e x) {m m' : Machine} {cause : WorldError}
    (hx : x m = .error (.fault cause) m') (hcause : cause.isOverflow = true) :
    2 ^ 63 ≤ m.frame.worth - 24000 * e := by
  have hm := h m
  rw [hx] at hm
  exact hm hcause

private theorem mono {k' : α → Int} {e' : Int} {x : MachineM α} (h : Within k e x) (hk : ∀ a, k' a ≤ k a)
    (he : e' ≤ e) : Within k' e' x := fun m => by
  match hx : x m with
  | .ok a m' =>
    have hspent := h.ok hx
    have hless := hk a
    unfold Spends
    omega
  | .error (.failure cause) m' => trivial
  | .error (.fault cause) m' =>
    intro hcause
    have := h.overflow hx hcause
    omega

private theorem pure {a : α} (h : k a ≤ 0) : Within k e (pure a) := fun m => by
  change (m.frame.worth : Int) + 24000 * k a ≤ m.frame.worth
  omega

private theorem bind {l : β → Int} {x : MachineM α} {f : α → MachineM β} (hx : Within j e x)
    (hf : ∀ a, Within (fun b => l b - j a) (e - j a) (f a)) : Within l e (x >>= f) := fun m => by
  match hr : x m with
  | .error (.failure cause) m₁ =>
    rw [bind_of_error hr]
    trivial
  | .error (.fault cause) m₁ =>
    rw [bind_of_error hr]
    exact hx.overflow hr
  | .ok a m₁ =>
    have hspent := hx.ok hr
    rw [bind_of_ok hr]
    match hr₁ : f a m₁ with
    | .error (.failure cause) m₂ => trivial
    | .error (.fault cause) m₂ =>
      intro hcause
      have := (hf a).overflow hr₁ hcause
      omega
    | .ok b m₂ =>
      have hrest := (hf a).ok hr₁
      dsimp only [Spends] at hrest ⊢
      omega

/-- What is free at first leaves all to be counted for what follows. -/
private theorem next {l : β → Int} {x : MachineM α} {f : α → MachineM β} (hx : Within (fun _ => 0) e x)
    (hf : ∀ a, Within l e (f a)) : Within l e (x >>= f) :=
  hx.bind fun a => by simpa only [Int.sub_zero] using hf a

private theorem ite {c : Prop} [Decidable c] {x y : MachineM α} (hx : Within k e x) (hy : Within k e y) :
    Within k e (if c then x else y) := by
  split
  · exact hx
  · exact hy

/-- What only computes leaves the refund alone and comes to no fault. -/
private theorem of {e' : Int} {x : MachineM α} (hx : ∀ msg, Computes msg (P msg) x) (ht : Takes k e' x) :
    Within k e x :=
  fun m => by
  match hr : x m with
  | .ok a m' =>
    have hrefund := ((hx _).ok rfl hr).1.refund
    have hgas := (ht.ok hr).2
    dsimp only [Spends, Frame.worth]
    rw [hrefund]
    omega
  | .error (.failure cause) m' => trivial
  | .error (.fault cause) m' => exact ((hx _).not_fault rfl hr).elim

private theorem throw (cause : Failure) : Within k e (throw (.failure cause) : MachineM α) := fun _ => trivial

/-- A condition that stops the frame where it does not hold. -/
private theorem haltIf {c : Prop} [Decidable c] {cause : Halt} {x : MachineM α} (hx : Within k e x) :
    Within k e (if c then (MachineM.halt cause : MachineM Unit) >>= fun _ => x else x) :=
  .ite (.next (.throw _) fun _ => hx) hx

private theorem frame : Within (fun _ => 0) e frame := .of (fun _ => .frame) (.frame (e := 0))

private theorem world : Within (fun _ => 0) e world := .of (fun _ => .world) (.world (e := 0))

private theorem pop : Within (fun _ => 0) e pop := .of (fun _ => .pop) .pop

private theorem push (w : Word) : Within (fun _ => 0) e (push w) := .of (fun _ => .push w) (.push w)

private theorem charge (amount : Nat) : Within (fun _ => (amount : Int)) e (charge amount) :=
  .of (fun _ => .charge amount) (.charge amount)

private theorem readMemory (extent : Word × Word) : Within (fun _ => 0) e (readMemory extent) :=
  .of (fun _ => .readMemory extent) (.readMemory (e := 0) extent)

private theorem writeMemory (offset : Word) (bytes : ByteArray) : Within (fun _ => 0) e (writeMemory offset bytes) :=
  .of (fun _ => .writeMemory offset bytes) (.writeMemory (e := 0) offset bytes)

private theorem setReturnData (data : ByteArray) : Within (fun _ => 0) e (setReturnData data) :=
  .of (fun _ => .setReturnData data) (.setReturnData (e := 0) data)

private theorem modifyFrame {g : Frame → Frame} (h : ∀ f, (g f).worth = f.worth) : Within (fun _ => 0) e
    (modifyFrame g) :=
  fun m => by
  change ((g m.frame).worth : Int) + 24000 * 0 ≤ m.frame.worth
  rw [h]
  omega

private theorem modifyWorld (g : World → World) : Within (fun _ => 0) e (modifyWorld g) := fun m => by
  change (m.frame.worth : Int) + 24000 * 0 ≤ m.frame.worth
  omega

private theorem changeWorld {change : WorldM α} (h : World.OverflowsIf (fun _ => False) change) :
    Within (fun _ => 0) e (changeWorld change) := fun m => by
  match hr : change m.world with
  | .ok a w =>
    rw [changeWorld_of_ok hr]
    dsimp only [Spends]
    omega
  | .error cause w =>
    rw [changeWorld_of_error hr]
    exact fun hcause => (h _ _ _ hr hcause).elim

private theorem giveBack (amount : Nat) : Within (fun _ => -(amount : Int)) (-amount) (giveBack amount) := fun m => by
  unfold MachineM.giveBack
  by_cases h : m.frame.gasLeft + amount < countLimit
  · simp only [if_pos h]
    dsimp only [Spends, Frame.worth]
    omega
  · simp only [if_neg h]
    intro _
    unfold countLimit at h
    unfold Frame.worth
    omega

private theorem addRefund {amount : Int} (h : amount.natAbs ≤ 24000) : Within (fun _ => -1) (-1) (addRefund amount) :=
  fun m => by
  by_cases hfits : m.frame.fitsRefund amount = true
  · rw [addRefund_of_fits hfits]
    dsimp only [Spends, Frame.worth]
    omega
  · rw [addRefund_of_not_fits hfits]
    intro _
    have := Frame.le_of_not_fitsRefund hfits
    unfold Frame.worth
    omega

/-! ### Operations -/

variable {f : Fork} {env : Environment}

/-- What is paid first may be given back by what comes last. -/
private theorem paid {price least : Nat} {x : MachineM α} {g : α → MachineM β}
    (hx : Within (fun _ => (price : Int)) (-1) x)
    (hle : least ≤ price) (hg : ∀ a, Within (fun _ => -1) (-1) (g a)) :
    Within (fun _ => (least : Int) - 1) (-1) (x >>= g) :=
  hx.bind fun a => (hg a).mono (fun _ => by omega) (by omega)

/-- Only the last of two computations is free. -/
private theorem last {x : MachineM α} {g : α → MachineM β} (hx : Within (fun _ => -1) (-1) x)
    (hg : ∀ a, Within (fun _ => 0) 0 (g a)) : Within (fun _ => -1) (-1) (x >>= g) :=
  hx.bind fun a => (hg a).mono (fun _ => by omega) (by omega)

private theorem storeSlot (hrules : rules = .ofFork f) :
    Within (fun _ => (Gas.leastCharge rules .sstore : Int) - 1) (-1) (storeSlot rules) := by
  subst hrules
  refine .next .pop fun _ => .next .pop fun _ => .next .frame fun _ => .haltIf (.next .frame fun _ => ?_)
  refine .next (.of (fun _ => .slotPrice _ _) (.slotPrice _ _)) fun first => .next .world fun _ => .next .world fun _ => ?_
  refine .paid (.charge _) ?_ fun _ => .last (.addRefund (Rules.writeRefund_le f _ _ _)) fun _ => .modifyWorld _
  exact Nat.le_trans (Takes.least_le_writePrice _ _ _ _) (Nat.le_add_left _ first)

private theorem record (topics : Nat) : Within (fun _ => 0) e (record topics) :=
  .next (.of (fun _ => .popExtent) .popExtent) fun _ => .next (.of (fun _ => .popMany topics) (.popMany topics))
    fun _ => .next (.of (fun _ => .chargeWithMemory _ _) (.payWithMemory _ _)) fun _ =>
      .next (.readMemory _) fun _ => .modifyFrame fun _ => rfl

/-- Once gas was given back, what follows may be free. -/
private theorem gained {gas : Int} {x : MachineM α} {g : α → MachineM β} (hx : Within (fun _ => -gas) (-gas) x)
    (hg : ∀ a, Within (fun _ => 0) 0 (g a)) : Within (fun _ => -gas) (-gas) (x >>= g) :=
  hx.bind fun a => (hg a).mono (fun _ => by omega) (by omega)

private theorem giveBackAll (gas : Nat) : Within (fun _ => -(gas + 1 : Int)) (-(gas + 1)) (MachineM.giveBack gas) :=
  (giveBack gas).mono (fun _ => by omega) (by omega)

private theorem refuse (gas : Nat) : Within (fun _ => -(gas + 1 : Int)) (-(gas + 1)) (refuse gas) :=
  .gained (.giveBackAll gas) fun _ => .push 0

/-- A child gives back no more than its message was worth. -/
private theorem runChild {m : Message} {run : WorldM Frame} (h : m.Thrifty run) :
    Within (fun _ => -(m.gas + 1 : Int)) (-(m.gas + 1)) (runChild rules run) := fun s => by
  match hr : run s.world with
  | .error cause w =>
    rw [runChild_of_error hr]
    intro hcause
    have := h.overflow _ _ _ hr hcause
    omega
  | .ok child w =>
    have hgas := h.gas hr
    rw [runChild_of_ok hr]
    split
    · split
      · next hover =>
        intro _
        have hworth := h.worth hr hover.1
        have hmuch := Frame.le_of_not_fitsRefund hover.2
        unfold Frame.worth at hworth ⊢
        omega
      · have habsorbed : (Frame.absorb rules w _ child).worth ≤ s.frame.worth + _ :=
          Frame.worth_absorb_le hgas (h.worth hr)
        dsimp only [Spends]
        omega
    · next hmuch =>
      intro _
      unfold countLimit at hmuch
      unfold Frame.worth
      omega

private theorem send (hc : ∀ c ∈ children, c.Thrifty) (r : Request) :
    Within (fun _ => -(r.gas + 1 : Int)) (-(r.gas + 1)) (send rules children r) :=
  .next (.setReturnData _) fun _ => by
    cases children with
    | none => exact .refuse r.gas
    | some c =>
      refine .next (.readMemory _) fun data => .next .world fun w => .next .frame fun f => ?_
      refine .gained (.runChild ((hc c rfl).call (callMessage f r data (w.code r.codeAddress)))) fun child => ?_
      exact .next (.push _) fun _ => .next (.writeMemory _ _) fun _ => .setReturnData _

private theorem sendValue (hc : ∀ c ∈ children, c.Thrifty) (r : Request) :
    Within (fun _ => -(r.gas + 1 : Int)) (-(r.gas + 1)) (sendValue rules children r) :=
  .next .world fun _ => .ite
    (.next (.push 0) fun _ => .next (.setReturnData _) fun _ =>
      .giveBackAll r.gas)
    (.send hc r)

private theorem place (hc : ∀ c ∈ children, c.Thrifty) (r : CreationRequest) :
    Within (fun _ => -(r.gas + 1 : Int)) (-(r.gas + 1)) (place rules children r) :=
  .next (.setReturnData _) fun _ => .next .frame fun f => .next .world fun w => by
    cases children with
    | none => exact .refuse r.gas
    | some c =>
      refine .ite (.refuse r.gas) (.next .world fun _ => .ite ?_ ?_)
      · exact .next (.changeWorld (.incrementNonce _)) fun _ =>
          (push (e := 0) 0).mono (fun _ => by omega) (by omega)
      · refine .next (.readMemory _) fun code => .next (.changeWorld (.incrementNonce _)) fun _ =>
          .next .frame fun f => ?_
        refine .gained (.runChild ((hc c rfl).create (creationMessage f r.contract r.gas r.value code))) fun child => ?_
        exact .ite (.push _) (.next (.setReturnData _) fun _ => .push 0)

/-- A message is paid for with what it can give back. -/
private theorem sent {P : Message → Request → Prop} {least : Nat} {request : MachineM Request}
    {g : Request → MachineM Unit}
    (hx : ∀ msg, Computes msg (P msg) request) (ht : Takes (fun r => (r.gas + least : Nat)) 0 request)
    (hg : ∀ r, Within (fun _ => -(r.gas + 1 : Int)) (-(r.gas + 1)) (g r)) :
    Within (fun _ => (least : Int) - 1) (-1) (request >>= g) :=
  .bind (j := fun r => (r.gas + least : Nat)) (.of hx ht) fun r => (hg r).mono (fun _ => by omega) (by omega)

private theorem createContract (hc : ∀ c ∈ children, c.Thrifty) (salted : Bool) :
    Within (fun _ => -1) (-1) (createContract rules children salted) :=
  .bind (j := fun r => (r.gas : Int)) (.of (fun _ => .creationRequest salted) (.creationRequest rules salted))
    fun r => (place hc r).mono (fun _ => by omega) (by omega)

private theorem payForDestruction (hrules : rules = .ofFork f) (owner heir : Address) :
    Within (fun _ => -1) (-1) (payForDestruction rules owner heir) := by
  subst hrules
  rw [payForDestruction_eq]
  refine .next (.of (fun _ => .accessPrice heir 0) (.accessPrice heir 0)) fun _ => .next .world fun _ => ?_
  refine .next ((charge _).mono (fun _ => by omega) (Int.le_refl _)) fun _ => .next .frame fun _ => .addRefund ?_
  have := Rules.selfdestructRefund_le f
  split <;> omega

private theorem bequeath (owner heir : Address) : Within (fun _ => 0) e (bequeath owner heir) :=
  .next .world fun _ => .next (.changeWorld (.addBalance _ _)) fun _ => .next (.modifyWorld _) fun _ =>
    .modifyFrame fun _ => rfl

private theorem selfDestruct (hrules : rules = .ofFork f) : Within (fun _ => -1) (-1) (selfDestruct rules) :=
  .next (.of (fun _ => .popAddress) .popAddress) fun heir => .next .frame fun frame =>
    .last (.payForDestruction hrules frame.message.target heir) fun _ =>
      .next (.bequeath frame.message.target heir) fun _ => .next .world fun _ =>
        .ite (.next (.modifyFrame fun _ => rfl) fun _ => .modifyFrame fun _ => rfl) (.modifyFrame fun _ => rfl)

/-- What a buffer is too short for has a price that nearly no gas can pay. -/
private theorem conclude {index : UInt8} {request : ByteArray} {amount : Nat}
    (h : Precompile.price rules index request = .ok amount) :
    Within (fun _ => 0) (-amount) (Precompile.conclude (Precompile.evaluate index request)) := by
  match hanswer : Precompile.evaluate index request with
  | .ok output => exact modifyFrame (g := fun f => { f with output, running := false }) fun _ => rfl
  | .error stop =>
    obtain ⟨cause, rfl⟩ | ⟨rfl, rfl, hlong⟩ := Precompile.evaluate_error hanswer
    · exact .throw _
    · intro m _
      cases h
      have := hlong.le_price rules.modexpRepriced
      omega

private theorem precompile (rules : Rules) (index : UInt8) : Within (fun _ => 0) 0 (Precompile.run rules index) :=
  .next .frame fun f => by
    dsimp only
    split
    · exact .throw _
    · next amount hprice =>
      exact (charge amount).bind fun _ => (conclude hprice).mono (fun _ => by omega) (by omega)

section

variable (henv : env.rules = .ofFork f) (hl : ∀ c ∈ children, c.Lawful) (hc : ∀ c ∈ children, c.Thrifty)
include henv hl hc

/-- An operation is charged for all that it gives back, but for what one step gives back. -/
private theorem perform (op : Opcode) :
    Within (fun _ => (Gas.leastCharge env.rules op : Int) - 1) (-1) (perform env children op) := by
  cases op with
  | sstore => exact .storeSlot henv
  | log topics => exact (record (e := 0) _).mono (fun _ => by simp [Gas.leastCharge]) (by decide)
  | create | create2 => exact .createContract hc _
  | call => exact .sent (fun _ => .callRequest) (.callRequest _) fun r => .sendValue hc r
  | callcode => exact .sent (fun _ => .codeRequest) (.codeRequest _) fun r => .sendValue hc r
  | delegatecall => exact .sent (fun _ => .delegateRequest) (.delegateRequest _) fun r => .send hc r
  | staticcall => exact .sent (fun _ => .staticRequest) (.staticRequest _) fun r => .send hc r
  | selfdestruct => exact .selfDestruct henv
  | _ =>
    refine Within.mono (.of (fun _ => .perform rfl) (.perform hl _)) (fun _ => ?_) (Int.le_refl _)
    omega

private theorem operate (op : Opcode) :
    Within (fun _ => (Gas.leastPrice env.rules op : Int) - 1) (-1) (operate env children op) := by
  refine (charge (Gas.ofOpcode op)).bind fun _ => ?_
  have hrest : Within (fun _ => (Gas.leastCharge env.rules op : Int) - 1) (-1) (do
      if (← MachineM.frame).message.isStatic && op.isStateModifying then
        MachineM.halt .writeInStaticContext
      MachineM.modifyFrame fun f => { f with pc := f.pc + 1 }
      MachineM.perform env children op) :=
    .next .frame fun _ => .haltIf <| .next (.modifyFrame fun _ => rfl) fun _ => perform henv hl hc op
  refine hrest.mono (fun _ => ?_) (by omega)
  simp only [Gas.leastPrice]
  omega

/-! ### Frames -/

variable {m m' : Machine}

private theorem step : Within (fun _ => -1) (-1) (step env children) :=
  .next .frame fun _ => by
    dsimp only
    split
    · exact .throw _
    · exact (operate henv hl hc _).mono (fun _ => by omega) (Int.le_refl _)

/-- A step after which the frame goes on has paid for all that it gives back. -/
private theorem worth_le_of_step (h : MachineM.step env children m = .ok () m') (hr : m'.frame.running = true) :
    m'.frame.worth ≤ m.frame.worth := by
  rw [step_eq] at h
  split at h
  · cases h
  · next op _ =>
    have hpos := Gas.leastPrice_pos f (ends_eq_false h hr)
    have hspent := (operate henv hl hc op).ok h
    rw [henv] at hspent
    omega

private theorem steps (fuel : Nat) : Within (fun _ => -1) (-1) (steps env children fuel) := by
  -- Only the last step may give back more than it paid for.
  induction fuel with
  | zero => exact .pure (by decide)
  | succ fuel ih =>
    intro m
    rw [steps_succ]
    split
    · match hs : MachineM.step env children m with
      | .error stop m₁ =>
        rw [bind_of_error hs, ← hs]
        exact step henv hl hc m
      | .ok () m₁ =>
        rw [bind_of_ok hs]
        by_cases hr : m₁.frame.running = true
        · exact (ih m₁).of_le (worth_le_of_step henv hl hc hs hr)
        · rw [steps_of_not_continues (by simp [Continues, hr]), ← hs]
          exact step henv hl hc m
    · exact pure (by decide) m

private theorem run : Within (fun _ => -1) (-1) (run env children) :=
  .next .frame fun _ => .steps henv hl hc _

private theorem start : Within (fun _ => -1) (-1) (start env children) :=
  .next .frame fun _ => by
    split
    · exact .ite ((precompile _ _).mono (fun _ => by decide) (by decide)) (.run henv hl hc)
    · exact .run henv hl hc

end

end Within

end MachineM

/-! ### Messages -/

namespace Message

variable {f : Fork} {env : Environment} {children : Option Children} {m : Message} {w w' : World} {frame : Frame}

private theorem worth_le_of_install {f' : Frame} (h : m.install env.rules frame w = .ok f' w')
    (hok : f'.failure = none) :
    f'.worth ≤ frame.worth := by
  obtain ⟨gasLeft, hgas, ⟨-, rfl, -⟩ | ⟨rfl, -⟩ | ⟨cause, rfl, -⟩⟩ := install_ok h
  · exact Nat.add_le_add_right (Nat.mul_le_mul_left _ hgas) _
  · exact Nat.add_le_add_right (Nat.mul_le_mul_left _ hgas) _
  · cases hok

variable (henv : env.rules = .ofFork f) (hl : ∀ c ∈ children, c.Lawful) (hc : ∀ c ∈ children, c.Thrifty)
include henv hl hc

private theorem worth_le_of_runCode (h : m.runCode env children w = .ok frame w') (hok : frame.failure = none) :
    frame.worth ≤ 24000 * (m.gas + 1) := by
  unfold runCode at h
  split at h
  · next hs =>
    cases h
    have hspent := (MachineM.Within.start henv hl hc).ok hs
    dsimp only at hspent
    rw [Frame.worth_ofMessage] at hspent
    omega
  · cases h
    cases hok
  · cases h
    cases hok
  · cases h

private theorem overflowsIf_runCode :
    World.OverflowsIf (fun _ => 2 ^ 63 ≤ 24000 * (m.gas + 1)) (m.runCode env children) := fun cause w w' h hcause => by
  unfold runCode at h
  split at h
  · cases h
  · cases h
  · cases h
  · next hs =>
    cases h
    have hmuch := (MachineM.Within.start henv hl hc).overflow hs hcause
    rw [Frame.worth_ofMessage] at hmuch
    omega

theorem thrifty_callWith (m : Message) : m.Thrifty (m.callWith env children) where
  gas h := (callWith_leaves hl h).gas
  worth h hok := by
    obtain ⟨w₁, w₂, -, hrun, -⟩ := callWith_cases h
    exact worth_le_of_runCode henv hl hc hrun hok
  overflow := overflowsIf_callWith (overflowsIf_runCode henv hl hc)

theorem thrifty_createWith (m : Message) : m.Thrifty (m.createWith env children) where
  gas h := (createWith_leaves hl h).gas
  worth h hok := by
    obtain ⟨w₁, f₁, w₂, -, hcall, ⟨hok₁, hinstall⟩ | ⟨hfail, rfl, -⟩⟩ := createWith_cases h
    · exact (worth_le_of_install hinstall hok).trans ((thrifty_callWith henv hl hc m).worth hcall hok₁)
    · exact absurd hok hfail
  overflow := overflowsIf_createWith (overflowsIf_callWith (overflowsIf_runCode henv hl hc))

end Message

theorem Children.thrifty_ofRoom {f : Fork} {env : Environment} (henv : env.rules = .ofFork f) (room : Nat) :
    ∀ c ∈ Children.ofRoom env room, c.Thrifty := fun c hc =>
  (ofRoom_induction (P := fun c => c.Lawful ∧ c.Thrifty) env (fun _ hc =>
    ⟨⟨Message.runs_callWith fun c h => (hc c h).1, Message.runs_createWith fun c h => (hc c h).1⟩,
      Message.thrifty_callWith henv (fun c h => (hc c h).1) fun c h => (hc c h).2,
      Message.thrifty_createWith henv (fun c h => (hc c h).1) fun c h => (hc c h).2⟩) room c hc).2

/-- Under the rules of every upgrade a message with less than `2 ^ 48` gas comes to no number that is too large for
its type and to no buffer that is too long. -/
theorem Message.runCode_fits (f : Fork) (block : BlockEnv) (transaction : TransactionEnv) (room : Nat) (m : Message) :
    let env : Environment := ⟨.ofFork f, block, transaction⟩
    World.OverflowsIf (fun _ => 2 ^ 48 ≤ m.gas) (m.runCode env (Children.ofRoom env room)) :=
  fun cause w w' h hcause => by
  have := overflowsIf_runCode rfl (Children.lawful_ofRoom _ room) (Children.thrifty_ofRoom rfl room) cause w w' h hcause
  omega

end StateTransition
