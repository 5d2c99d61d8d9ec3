import StateTransition.Proofs.Machine.Progress

/-! The nesting of messages ends by itself too. A step hands over only messages with less gas than
its frame had, so that what would become of any other message makes no difference. -/
namespace StateTransition

/-- Children that do the same with every message of less gas than `bound`. -/
def Children.AgreeBelow (bound : Nat) : Option Children → Option Children → Prop
  | none, none => True
  | some c, some c' => ∀ m : Message, m.gas < bound → c.call m = c'.call m ∧ c.create m = c'.create m
  | _, _ => False

private theorem Children.AgreeBelow.mono {bound bound' : Nat} {children children' : Option Children}
    (h : AgreeBelow bound children children') (hle : bound' ≤ bound) :
    AgreeBelow bound' children children' :=
  match children, children', h with
  | none, none, _ => trivial
  | some _, some _, h => fun m hm => h m (Nat.lt_of_lt_of_le hm hle)

namespace MachineM

variable {α β : Type} {env : Environment} {rules : Rules} {children children' : Option Children}
  {m m' : Machine} {bound : Nat}

private theorem send_congr (h : Children.AgreeBelow bound children children') {r : Request}
    (hr : r.gas < bound) : send rules children r = send rules children' r :=
  match children, children', h with
  | none, none, _ => rfl
  | some c, some c', h => by
    have hcall : ∀ f data code, c.call (callMessage f r data code) = c'.call (callMessage f r data code) :=
      fun f data code => (h (callMessage f r data code) hr).1
    simp only [send, hcall]

private theorem sendValue_congr (h : Children.AgreeBelow bound children children') {r : Request}
    (hr : r.gas < bound) : sendValue rules children r = sendValue rules children' r := by
  simp only [sendValue, send_congr h hr]

private theorem place_congr (h : Children.AgreeBelow bound children children') {r : CreationRequest}
    (hr : r.gas < bound) : place rules children r = place rules children' r :=
  match children, children', h with
  | none, none, _ => rfl
  | some c, some c', h => by
    have hcreate : ∀ f code, c.create (creationMessage f r.contract r.gas r.value code) =
        c'.create (creationMessage f r.contract r.gas r.value code) :=
      fun f code => (h (creationMessage f r.contract r.gas r.value code) hr).2
    simp only [place, hcreate]

/-- A request is paid for before it is sent. -/
private theorem sent_congr {least : Nat} {request : MachineM Request} {f g : Request → MachineM Unit}
    (hreq : Takes (fun r => (r.gas + least : Nat)) 0 request)
    (hgas : ∀ gas, gas + least ≤ m.frame.gasLeft → gas < bound)
    (hfg : ∀ r : Request, r.gas < bound → f r = g r) : (request >>= f) m = (request >>= g) m :=
  bind_congr_of_ok fun r m' hr => by
    have := (hreq.ok hr).2
    rw [hfg r (hgas r.gas (by omega))]

private theorem createContract_congr (h : Children.AgreeBelow bound children children') (salted : Bool)
    (hgas : ∀ gas, gas ≤ m.frame.gasLeft → gas < bound) :
    createContract rules children salted m = createContract rules children' salted m :=
  bind_congr_of_ok fun r m' hr => by
    have := ((Takes.creationRequest rules salted).ok hr).2
    rw [place_congr h (hgas r.gas (by omega))]

/-- Only six operations have to do with children, and these hand over less than they were charged. -/
private theorem perform_congr (h : Children.AgreeBelow bound children children') (op : Opcode)
    (hgas : op.ends = false → ∀ gas, gas + Gas.leastCharge env.rules op ≤ m.frame.gasLeft → gas < bound) :
    perform env children op m = perform env children' op m := by
  cases op with
  | create | create2 => exact createContract_congr h _ (hgas rfl)
  | call => exact sent_congr (.callRequest _) (hgas rfl) fun r hr => sendValue_congr h hr
  | callcode => exact sent_congr (.codeRequest _) (hgas rfl) fun r hr => sendValue_congr h hr
  | delegatecall => exact sent_congr (.delegateRequest _) (hgas rfl) fun r hr => send_congr h hr
  | staticcall => exact sent_congr (.staticRequest _) (hgas rfl) fun r hr => send_congr h hr
  | _ => rfl

private theorem operate_congr {f : Fork} (henv : env.rules = Rules.ofFork f)
    (h : Children.AgreeBelow m.frame.gasLeft children children') (op : Opcode) :
    operate env children op m = operate env children' op m := by
  refine bind_congr_of_ok fun _ m₁ h₁ => ?_
  have hpaid := ((Takes.charge _).ok h₁).2
  have hgas : op.ends = false → ∀ gas, gas + Gas.leastCharge env.rules op ≤ m₁.frame.gasLeft →
      gas < m.frame.gasLeft := fun hends gas hle => by
    have hpos := Gas.leastPrice_pos f hends
    rw [← henv, Gas.leastPrice] at hpos
    omega
  have hrest : (modifyFrame (fun f => { f with pc := f.pc + 1 }) >>= fun _ => perform env children op) m₁ =
      (modifyFrame (fun f => { f with pc := f.pc + 1 }) >>= fun _ => perform env children' op) m₁ := by
    refine bind_congr_of_ok fun _ m₂ h₂ => ?_
    cases h₂
    exact perform_congr h op hgas
  rw [frame_bind, frame_bind]
  dsimp only
  split
  · rfl
  · exact hrest

/-- What would become of messages with as much gas as the frame has makes no difference to a step. -/
private theorem step_congr {f : Fork} (henv : env.rules = Rules.ofFork f)
    (h : Children.AgreeBelow m.frame.gasLeft children children') :
    step env children m = step env children' m := by
  rw [step_eq, step_eq]
  split
  · rfl
  · exact operate_congr henv h _

private theorem steps_congr {f : Fork} (henv : env.rules = Rules.ofFork f) (hc : ∀ c ∈ children, c.Lawful)
    (h : Children.AgreeBelow bound children children') (fuel : Nat) (hle : m.frame.gasLeft ≤ bound) :
    steps env children fuel m = steps env children' fuel m := by
  induction fuel generalizing m with
  | zero => rfl
  | succ fuel ih =>
    rw [steps_succ, steps_succ]
    split
    · have hstep := step_congr henv (h.mono hle)
      match hs : step env children m with
      | .error stop m₁ => rw [bind_of_error hs, bind_of_error (hstep ▸ hs)]
      | .ok () m₁ =>
        rw [bind_of_ok hs, bind_of_ok (hstep ▸ hs)]
        have hgas := ((Takes.step hc).ok hs).2
        exact ih (by omega)
    · rfl

private theorem start_congr {f : Fork} (henv : env.rules = Rules.ofFork f) (hc : ∀ c ∈ children, c.Lawful)
    (h : Children.AgreeBelow m.frame.gasLeft children children') :
    start env children m = start env children' m := by
  have hrun : run env children m = run env children' m := by
    rw [run, run, frame_bind, frame_bind]
    exact steps_congr henv hc h _ (Nat.le_refl _)
  rw [start, start, frame_bind, frame_bind]
  cases m.frame.message.codeAddress with
  | none => exact hrun
  | some a =>
    dsimp only
    split
    · rfl
    · exact hrun

end MachineM

/-! ### All depths -/

namespace Message

variable {env : Environment} {children children' : Option Children} {m : Message}

private theorem callWith_congr {f : Fork} (henv : env.rules = Rules.ofFork f) (hc : ∀ c ∈ children, c.Lawful)
    (h : Children.AgreeBelow m.gas children children') :
    m.callWith env children = m.callWith env children' := by
  have hrun : m.runCode env children = m.runCode env children' := by
    funext w
    have hstart : MachineM.start env children ⟨Frame.ofMessage m, w⟩ =
        MachineM.start env children' ⟨Frame.ofMessage m, w⟩ := MachineM.start_congr henv hc h
    simp only [runCode, hstart]
  rw [callWith, callWith, hrun]

private theorem createWith_congr {f : Fork} (henv : env.rules = Rules.ofFork f) (hc : ∀ c ∈ children, c.Lawful)
    (h : Children.AgreeBelow m.gas children children') :
    m.createWith env children = m.createWith env children' := by
  rw [createWith, createWith, callWith_congr henv hc h]

end Message

/-- Children for `fuel` levels at most, below which messages are left to `deeper`. -/
def Children.fueled (env : Environment) (deeper : Children) : (fuel room : Nat) → Option Children
  | _, 0 => none
  | 0, _ + 1 => some deeper
  | fuel + 1, room + 1 => some
    { call := fun m => m.callWith env (fueled env deeper fuel room)
      create := fun m => m.createWith env (fueled env deeper fuel room) }

/-- Messages with no more gas than there are levels never get below these. -/
private theorem Children.agreeBelow_fueled {env : Environment} {f : Fork} (henv : env.rules = Rules.ofFork f)
    (deeper : Children) (fuel room : Nat) :
    AgreeBelow fuel (ofRoom env room) (fueled env deeper fuel room) := by
  -- A message of at most `fuel` gas sends only messages of less, so one level less is enough for these.
  induction fuel generalizing room with
  | zero =>
    cases room with
    | zero => trivial
    | succ room => exact fun m hm => absurd hm (Nat.not_lt_zero _)
  | succ fuel ih =>
    cases room with
    | zero => trivial
    | succ room =>
      intro m hm
      have h := (ih room).mono (Nat.le_of_lt_succ hm)
      have hc := lawful_ofRoom env room
      exact ⟨Message.callWith_congr henv hc h, Message.createWith_congr henv hc h⟩

/-- Under the rules of every upgrade, in every state: a step after which the frame goes on has used
gas; to every message with as much gas as the frame has a step is blind, whatever would become of it;
the steps of a frame's run are those of an unbounded loop; and as many levels of nested messages are
enough as a message has gas. -/
theorem MachineM.run_terminates (f : Fork) (block : BlockEnv) (transaction : TransactionEnv) (room : Nat) :
    let env : Environment := ⟨Rules.ofFork f, block, transaction⟩
    let children := Children.ofRoom env room
    (∀ s s' : Machine, step env children s = .ok () s' → s'.frame.running →
      s'.frame.gasLeft < s.frame.gasLeft) ∧
    (∀ (s : Machine) (children' : Option Children),
      Children.AgreeBelow s.frame.gasLeft children children' →
      step env children s = step env children' s) ∧
    (∀ s : Machine, Loop env children s (run env children s)) ∧
    ∀ (deeper : Children) (m : Message) (fuel : Nat), m.gas ≤ fuel →
      m.call env room = m.callWith env (Children.fueled env deeper fuel room) ∧
      m.create env room = m.createWith env (Children.fueled env deeper fuel room) := by
  intro env children
  have hc := Children.lawful_ofRoom env room
  refine ⟨fun s s' h hr => gasLeft_lt_of_step rfl hc h hr, fun s children' h => step_congr rfl h,
    fun s => ?_, fun deeper m fuel hle => ?_⟩
  · rw [run, frame_bind]
    exact loop_steps rfl hc _ (Nat.lt_succ_self _)
  · have henv : env.rules = Rules.ofFork f := rfl
    have h := (Children.agreeBelow_fueled henv deeper fuel room).mono hle
    exact ⟨Message.callWith_congr henv hc h, Message.createWith_congr henv hc h⟩

/-- Code that jumps back to its start for ever, with 100 gas: its first step takes gas, and the loop
comes to an end without any. -/
theorem MachineM.run_terminates_on_endless_code :
    let env : Environment := ⟨Rules.ofFork .frontier, ⟨1, 0, 8000000, 0x99, 0, 1, none, []⟩, ⟨0x77, 1⟩⟩
    let m : Message :=
      { caller := 0x77, isCreation := false, target := 0x10, codeAddress := some 0x10, gas := 100
        value := 0, data := .empty, code := ⟨#[0x5b, 0x60, 0, 0x56]⟩, movesValue := true
        isStatic := false, warmAddresses := ∅, warmSlots := ∅, destroyed := ∅ }
    let s : Machine := ⟨Frame.ofMessage m, .empty⟩
    (∃ s', step env none s = .ok () s' ∧ s'.frame.running ∧ s'.frame.gasLeft < s.frame.gasLeft) ∧
      ∃ s', Loop env none s (.error (.failure (.halt .outOfGas)) s') := by
  intro env m s
  obtain ⟨hstep, -, hloop, -⟩ := run_terminates .frontier env.block env.transaction 0
  have hfirst : endsWith (fun _ s' => s'.frame.running) (step env none s) := by decide +kernel
  have hlast : stopsWith (fun stop => stop = .failure (.halt .outOfGas)) (run env none s) := by
    decide +kernel
  obtain ⟨⟨⟩, s₁, hs, hr⟩ := exists_of_endsWith hfirst
  obtain ⟨stop, s₂, hstop, htest⟩ := exists_of_stopsWith hlast
  obtain rfl : stop = .failure (.halt .outOfGas) := of_decide_eq_true htest
  exact ⟨⟨s₁, hs, hr, hstep s s₁ hs hr⟩, s₂, hstop ▸ hloop s⟩

end StateTransition
