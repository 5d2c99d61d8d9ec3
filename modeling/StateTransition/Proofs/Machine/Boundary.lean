import StateTransition.Proofs.Machine.Place

/-! Where in its code a frame may stand. The scan for jump destinations and the loop over the operations skip the
same bytes, so neither a run nor a jump ever lands in bytes that belong to the operation before. -/
namespace StateTransition

/-- The positions reached from `i` by stepping over operations and the bytes that belong to them. -/
inductive Walk (code : ByteArray) (i : Nat) : Nat → Prop
  | refl : Walk code i i
  | next {j : Nat} (h : Walk code i j) (hj : j < code.size) :
    Walk code i (j + 1 + Opcode.immediateSize (byteAt code j))

def Boundary (code : ByteArray) (i : Nat) : Prop := Walk code 0 i

/-- A position in the code at which an operation begins that may be jumped to. -/
structure IsTarget (code : ByteArray) (i : Nat) : Prop where
  boundary : Boundary code i
  lt : i < code.size
  jumpdest : byteAt code i = 0x5b

private theorem walk_iff {code : ByteArray} {i d : Nat} :
    Walk code i d ↔
      d = i ∨ i < code.size ∧ Walk code (i + 1 + Opcode.immediateSize (byteAt code i)) d := by
  constructor
  · intro h
    induction h with
    | refl => exact .inl rfl
    | next _ hj ih =>
      rcases ih with rfl | ⟨hi, h⟩
      · exact .inr ⟨hj, .refl⟩
      · exact .inr ⟨hi, h.next hj⟩
  · rintro (rfl | ⟨hi, h⟩)
    · exact .refl
    · induction h with
      | refl => exact .next .refl hi
      | next _ hj ih => exact ih.next hj

private theorem mem_addTarget {code : ByteArray} {i d : Nat} {found : Std.ExtTreeSet Nat} :
    (d ∈ if byteAt code i = Opcode.jumpdest.toByte then found.insert i else found) ↔
      d ∈ found ∨ d = i ∧ byteAt code d = 0x5b := by
  split
  · next hdest =>
    rw [Std.ExtTreeSet.mem_insert, Std.compare_eq_iff_eq]
    constructor
    · rintro (rfl | hd)
      · exact .inr ⟨rfl, hdest⟩
      · exact .inl hd
    · rintro (hd | ⟨rfl, -⟩)
      · exact .inr hd
      · exact .inl rfl
  · next hdest =>
    refine ⟨.inl, fun h => h.resolve_right ?_⟩
    rintro ⟨rfl, hd⟩
    exact hdest hd

private theorem mem_scanJumpTargets {code : ByteArray} {i d : Nat} {found : Std.ExtTreeSet Nat} :
    d ∈ scanJumpTargets code i found ↔
      d ∈ found ∨ Walk code i d ∧ d < code.size ∧ byteAt code d = 0x5b := by
  induction i, found using scanJumpTargets.induct code with
  | case1 i found hi b ih =>
    have hb : b = byteAt code i := by rw [byteAt, dif_pos hi]
    simp only [dite_eq_ite] at ih
    rw [scanJumpTargets, dif_pos hi]
    refine ih.trans ?_
    rw [hb, mem_addTarget, walk_iff (i := i), or_assoc]
    refine or_congr_right ⟨?_, ?_⟩
    · rintro (⟨rfl, hd⟩ | ⟨hwalk, hd⟩)
      · exact ⟨.inl rfl, hi, hd⟩
      · exact ⟨.inr ⟨hi, hwalk⟩, hd⟩
    · rintro ⟨rfl | ⟨-, hwalk⟩, hlt, hd⟩
      · exact .inl ⟨rfl, hd⟩
      · exact .inr ⟨hwalk, hlt, hd⟩
  | case2 i found hi =>
    rw [scanJumpTargets, dif_neg hi]
    refine ⟨.inl, ?_⟩
    rintro (h | ⟨hwalk, hd, -⟩)
    · exact h
    · rcases walk_iff.mp hwalk with rfl | ⟨hi', -⟩
      · exact absurd hd hi
      · exact absurd hi' hi

/-- The scan finds just the operations that may be jumped to. -/
private theorem mem_jumpTargets {code : ByteArray} {d : Nat} : d ∈ jumpTargets code ↔ IsTarget code d := by
  rw [jumpTargets, mem_scanJumpTargets]
  exact ⟨fun h => (h.resolve_left Std.ExtTreeSet.not_mem_empty).elim fun hr h => ⟨hr, h.1, h.2⟩,
    fun h => .inr ⟨h.boundary, h.lt, h.jumpdest⟩⟩

/-! ### Operations and their bytes -/

/-- What belongs to an operation is what the scan skips behind its byte. -/
private theorem Opcode.pushSize_of_ofByte? {b : UInt8} {op : Opcode} (h : ofByte? b = some op) :
    op.pushSize = immediateSize b := by
  have hall : ∀ n : Fin 256, ∀ op ∈ ofByte? (UInt8.ofNat n), op.pushSize = immediateSize (UInt8.ofNat n) := by
    decide +kernel
  have hb : UInt8.ofNat b.toFin.val = b := by simp
  exact hb ▸ hall b.toFin op (by rw [hb, h]; rfl)

/-- A jump that is due: it is paid for, has what it takes on the stack, and its condition holds. -/
inductive Jumps (rules : Rules) (f : Frame) (target : Word) : Prop
  | always {rest : List Word} (hop : MachineM.decode? rules (byteAt f.code f.pc) = some .jump)
    (hgas : Gas.ofOpcode .jump ≤ f.gasLeft) (hstack : f.stack.items = target :: rest)
  | conditional {condition : Word} {rest : List Word}
    (hop : MachineM.decode? rules (byteAt f.code f.pc) = some .jumpi) (hgas : Gas.ofOpcode .jumpi ≤ f.gasLeft)
    (hstack : f.stack.items = target :: condition :: rest) (hcondition : condition ≠ 0)

namespace MachineM

variable {env : Environment} {children : Option Children} {m : Message} {w : World} {s s' : Machine}

/-- The machines that the loop of a frame comes by. -/
inductive Iterates (env : Environment) (children : Option Children) (s : Machine) : Machine → Prop
  | start : Iterates env children s s
  | next {s₁ s₂ : Machine} (h : Iterates env children s s₁) (hcontinues : Continues s₁)
    (hstep : step env children s₁ = .ok () s₂) : Iterates env children s s₂

/-! ### Steps -/

private theorem place_of_step (h : step env children s = .ok () s') :
    ∃ pc, s'.frame.place = { s.frame.place with pc } ∧
      (pc = s.frame.pc + 1 + Opcode.immediateSize (byteAt s.frame.code s.frame.pc) ∨ pc ∈ s.frame.targets) := by
  rw [step_eq] at h
  split at h
  · cases h
  · next op hop =>
    have hbyte : Opcode.ofByte? (byteAt s.frame.code s.frame.pc) = some op := by
      unfold decode? at hop
      split at hop
      · exact hop
      · cases hop
    rw [← Opcode.pushSize_of_ofByte? hbyte]
    exact place_of_operate h

private theorem Iterates.place (h : Iterates env children ⟨.ofMessage m, w⟩ s) :
    ∃ pc, s.frame.place = ⟨pc, jumpTargets m.code, m⟩ ∧ Boundary m.code pc := by
  induction h with
  | start => exact ⟨0, rfl, .refl⟩
  | @next s₁ s₂ _ hcontinues hstep ih =>
    obtain ⟨pc, hplace, hboundary⟩ := ih
    obtain ⟨pc', hplace', hpc'⟩ := place_of_step hstep
    have hpc : s₁.frame.pc = pc := congrArg Place.pc hplace
    have htargets : s₁.frame.targets = jumpTargets m.code := congrArg Place.targets hplace
    have hmessage : s₁.frame.message = m := congrArg Place.message hplace
    refine ⟨pc', by rw [hplace', hplace], ?_⟩
    rw [htargets, Frame.code, hmessage, hpc] at hpc'
    rcases hpc' with rfl | htarget
    · have hlt : pc < m.code.size := by
        simp only [Continues, Frame.code, hpc, hmessage, Bool.and_eq_true, decide_eq_true_eq] at hcontinues
        exact hcontinues.2
      exact hboundary.next hlt
    · exact (mem_jumpTargets.mp htarget).boundary

/-- How a loop ends that comes by machines from `root` on. -/
def Ran (env : Environment) (children : Option Children) (root : Machine) : EStateM.Result Stop Machine Unit → Prop
  | .ok _ s' => Iterates env children root s'
  | .error stop s' => ∃ s, Iterates env children root s ∧ Continues s ∧ step env children s = .error stop s'

theorem Iterates.ran_steps {root : Machine} (h : Iterates env children root s) (fuel : Nat) :
    Ran env children root (steps env children fuel s) := by
  induction fuel generalizing s with
  | zero => exact h
  | succ fuel ih =>
    rw [steps_succ]
    split
    · next hcontinues =>
      match hstep : step env children s with
      | .ok () s₁ =>
        rw [bind_of_ok hstep]
        exact ih (h.next hcontinues hstep)
      | .error stop s₁ =>
        rw [bind_of_error hstep]
        exact ⟨s, h, hcontinues, hstep⟩
    · exact h

private theorem ran_run (env : Environment) (children : Option Children) (s : Machine) :
    Ran env children s (run env children s) :=
  Iterates.start.ran_steps _

/-! ### Jumps -/

private theorem jumpTo_of_mem {target : Word} (hlt : target.toNat < countLimit) (h : target.toNat ∈ s.frame.targets) :
    jumpTo target s = .ok () ⟨{ s.frame with pc := target.toNat }, s.world⟩ := by
  rw [jumpTo, frame_bind, if_pos (by simp [hlt, Frame.canJump, h])]
  rfl

private theorem jumpTo_of_not_mem {target : Word} (h : target.toNat ∉ s.frame.targets) :
    jumpTo target s = .error (.failure (.halt (.invalidJump (target.toNat % countLimit)))) s := by
  rw [jumpTo, frame_bind, if_neg (by simp [Frame.canJump, h])]
  rfl

private theorem exists_pop {top : Word} {rest : List Word} (h : s.frame.stack.items = top :: rest) :
    ∃ s₁, s₁.frame.stack.items = rest ∧ s₁.frame.targets = s.frame.targets ∧ pop s = .ok top s₁ := by
  obtain ⟨f, w⟩ := s
  obtain ⟨pc, ⟨items, size, hsize, hle⟩⟩ := f
  cases h
  refine ⟨_, ?_, ?_, rfl⟩ <;> rfl

/-- A frame that has paid for an operation and moved behind its byte. -/
def paid (op : Opcode) (s : Machine) : Machine :=
  ⟨{ s.frame with gasLeft := s.frame.gasLeft - Gas.ofOpcode op, pc := s.frame.pc + 1 }, s.world⟩

theorem operate_eq (env : Environment) (children : Option Children) (op : Opcode) (s : Machine) :
    operate env children op s =
      if Gas.ofOpcode op ≤ s.frame.gasLeft then
        if s.frame.message.isStatic && op.isStateModifying then
          .error (.failure (.halt .writeInStaticContext))
            ⟨{ s.frame with gasLeft := s.frame.gasLeft - Gas.ofOpcode op }, s.world⟩
        else perform env children op (paid op s)
      else .error (.failure (.halt .outOfGas)) s := by
  by_cases hgas : Gas.ofOpcode op ≤ s.frame.gasLeft
  · rw [if_pos hgas, operate, bind_of_ok (if_pos hgas), frame_bind]
    dsimp only
    split <;> rfl
  · rw [if_neg hgas, operate, bind_of_error (if_neg hgas)]

private theorem operate_of_paid {op : Opcode} (hwrites : op.isStateModifying = false)
    (hgas : Gas.ofOpcode op ≤ s.frame.gasLeft) :
    operate env children op s = perform env children op (paid op s) := by
  rw [operate_eq, if_pos hgas, hwrites, Bool.and_false, if_neg Bool.false_ne_true]

/-- A jump that is due comes down to the jump itself. -/
private theorem step_of_jumps (children : Option Children) {target : Word} (h : Jumps env.rules s.frame target) :
    ∃ s₁, s₁.frame.targets = s.frame.targets ∧ step env children s = jumpTo target s₁ := by
  rw [step_eq]
  cases h with
  | always hop hgas hstack =>
    obtain ⟨s₁, -, htargets, hpop⟩ := exists_pop (s := paid .jump s) hstack
    rw [hop]
    refine ⟨s₁, htargets, ?_⟩
    dsimp only
    rw [operate_of_paid rfl hgas, perform, bind_of_ok hpop]
  | conditional hop hgas hstack hcondition =>
    obtain ⟨s₁, hrest, htargets, hpop⟩ := exists_pop (s := paid .jumpi s) hstack
    obtain ⟨s₂, -, htargets', hpop'⟩ := exists_pop hrest
    rw [hop]
    refine ⟨s₂, htargets'.trans htargets, ?_⟩
    dsimp only
    rw [operate_of_paid rfl hgas, perform, bind_of_ok hpop, bind_of_ok hpop', if_pos hcondition]

/-- From the first operation of a message on, whatever code it runs and whatever its children do: the loop only
comes by machines that stand where an operation begins, and ends or is stopped at one of them. A jump that is due
leads to where it says if an operation begins there that may be jumped to; else the frame is halted for it. (No code
is longer than what a count can tell.) -/
theorem run_keeps_boundaries (env : Environment) (children : Option Children) (m : Message) (w : World) :
    Ran env children ⟨.ofMessage m, w⟩ (run env children ⟨.ofMessage m, w⟩) ∧
      ∀ s, Iterates env children ⟨.ofMessage m, w⟩ s →
        Boundary m.code s.frame.pc ∧
        (m.code.size ≤ countLimit → ∀ target : Word, Jumps env.rules s.frame target →
          (IsTarget m.code target.toNat → ∃ s', step env children s = .ok () s' ∧ s'.frame.pc = target.toNat) ∧
          (¬ IsTarget m.code target.toNat → ∃ s', step env children s =
            .error (.failure (.halt (.invalidJump (target.toNat % countLimit)))) s')) := by
  refine ⟨ran_run env children _, fun s hs => ?_⟩
  obtain ⟨pc, hplace, hboundary⟩ := hs.place
  have hpc : s.frame.pc = pc := congrArg Place.pc hplace
  have htargets : s.frame.targets = jumpTargets m.code := congrArg Place.targets hplace
  refine ⟨hpc ▸ hboundary, fun hsize target hjumps => ?_⟩
  obtain ⟨s₁, htargets₁, hstep⟩ := step_of_jumps children hjumps
  have hmem : target.toNat ∈ s₁.frame.targets ↔ IsTarget m.code target.toNat := by
    rw [htargets₁, htargets, mem_jumpTargets]
  rw [hstep]
  refine ⟨fun htarget => ?_, fun htarget => ?_⟩
  · exact ⟨_, jumpTo_of_mem (Nat.lt_of_lt_of_le htarget.lt hsize) (hmem.mpr htarget), rfl⟩
  · exact ⟨_, jumpTo_of_not_mem fun h => htarget (hmem.mp h)⟩

/-- Code that jumps to the destination behind another one, and code that jumps to the byte of one that belongs to
a push, which is cut off by the end of the code. -/
theorem run_keeps_boundaries_beside_push_data :
    let env : Environment := ⟨Rules.ofFork .berlin, ⟨1, 0, 8000000, 0x99, 0, 1, none, []⟩, ⟨0x77, 1⟩⟩
    let m (target : UInt8) : Message :=
      { caller := 0x77, isCreation := false, target := 0x10, codeAddress := some 0x10, gas := 100, value := 0
        data := .empty, code := ⟨#[0x60, target, 0x56, 0x5b, 0x5b, 0x61, 0x5b]⟩, movesValue := true
        isStatic := false, warmAddresses := ∅, warmSlots := ∅, destroyed := ∅ }
    (∃ s, run env none ⟨.ofMessage (m 4), .empty⟩ = .ok () s ∧ s.frame.pc = 8 ∧ Boundary (m 4).code 8) ∧
      (∃ s s', Iterates env none ⟨.ofMessage (m 4), .empty⟩ s ∧ step env none s = .ok () s' ∧ s'.frame.pc = 4) ∧
      ∃ s s', Iterates env none ⟨.ofMessage (m 6), .empty⟩ s ∧
        step env none s = .error (.failure (.halt (.invalidJump 6))) s' := by
  intro env m
  have hdue (target : UInt8) (h : endsWith (fun _ s =>
      decode? env.rules (byteAt s.frame.code s.frame.pc) = some .jump ∧ Gas.ofOpcode .jump ≤ s.frame.gasLeft ∧
        s.frame.stack.items = [BitVec.ofNat 256 target.toNat]) (step env none ⟨.ofMessage (m target), .empty⟩)) :
      ∃ s, Iterates env none ⟨.ofMessage (m target), .empty⟩ s ∧ Jumps env.rules s.frame target.toNat := by
    obtain ⟨⟨⟩, s, hstep, htest⟩ := exists_of_endsWith h
    obtain ⟨hop, hgas, hstack⟩ := of_decide_eq_true htest
    exact ⟨s, .next .start rfl hstep, .always hop hgas hstack⟩
  refine ⟨?_, ?_, ?_⟩
  · have hrun : endsWith (fun _ s => s.frame.pc = 8) (run env none ⟨.ofMessage (m 4), .empty⟩) := by decide +kernel
    obtain ⟨⟨⟩, s, hs, hpc⟩ := exists_of_endsWith hrun
    obtain ⟨hran, hloop⟩ := run_keeps_boundaries env none (m 4) .empty
    rw [hs] at hran
    have hpc : s.frame.pc = 8 := of_decide_eq_true hpc
    exact ⟨s, hs, hpc, hpc ▸ (hloop s hran).1⟩
  · obtain ⟨s, hs, hjumps⟩ := hdue 4 (by decide +kernel)
    obtain ⟨-, hloop⟩ := run_keeps_boundaries env none (m 4) .empty
    have htarget : IsTarget (m 4).code 4 := mem_jumpTargets.mp (by decide +kernel)
    obtain ⟨s', hstep, hpc⟩ := ((hloop s hs).2 (by decide) _ hjumps).1 htarget
    exact ⟨s, s', hs, hstep, hpc⟩
  · obtain ⟨s, hs, hjumps⟩ := hdue 6 (by decide +kernel)
    obtain ⟨-, hloop⟩ := run_keeps_boundaries env none (m 6) .empty
    have htarget : ¬ IsTarget (m 6).code 6 := fun h => absurd (mem_jumpTargets.mpr h) (by decide +kernel)
    obtain ⟨s', hstep⟩ := ((hloop s hs).2 (by decide) _ hjumps).2 htarget
    exact ⟨s, s', hs, hstep⟩

end MachineM

end StateTransition
