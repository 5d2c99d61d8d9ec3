import StateTransition.Proofs.Chain.Settlement

/-! Gas is only used. No frame gives back more than its message had, no sum of gas is too much for a
count, and a transaction is charged what its gas limit allows at most. -/
namespace StateTransition

namespace SignedTransaction

variable {t : SignedTransaction} {rules : Rules} {block : BlockEnv} {w w' : World} {gasAvailable : Nat}

/-- A part that is taken off grows no faster than the whole. -/
private theorem sub_div_le_sub_div {n m : Nat} (h : n ≤ m) (q : Nat) : n - n / q ≤ m - m / q := by
  obtain ⟨d, rfl⟩ := Nat.le.dest h
  rcases Nat.eq_zero_or_pos q with rfl | hq
  · simp
  · have hdiv : (n + d) / q ≤ n / q + d := by
      rw [← Nat.add_mul_div_left n d hq]
      exact Nat.div_le_div_right (Nat.add_le_add_left (Nat.le_mul_of_pos_left d hq) n)
    omega

theorem gasUsed_bounds {outcome : TransactionOutcome}
    (h : t.process rules block gasAvailable w = .ok outcome w') :
    rules.intrinsicGas t.body - rules.intrinsicGas t.body / rules.refundQuotient ≤ outcome.gasUsed ∧
      outcome.gasUsed ≤ t.body.gasLimit.toNat ∧ t.body.gasLimit.toNat ≤ gasAvailable := by
  obtain ⟨a, o, w₁, hvalid, hexecute, hsettle, -⟩ := process_ok h
  have hadmitted := validate_ok hvalid
  have hgas := (execute_ok hexecute).gas
  obtain ⟨refund, hrefund, hcharged, -⟩ := settle_ok hsettle
  have hused : rules.intrinsicGas t.body ≤ t.body.gasLimit.toNat - o.gasLeft := by
    rw [← hadmitted.intrinsicGas]
    have := hadmitted.gas
    omega
  have hpart := sub_div_le_sub_div hused rules.refundQuotient
  have hle : refund ≤ (t.body.gasLimit.toNat - o.gasLeft) / rules.refundQuotient :=
    hrefund ▸ Nat.min_le_left _ _
  refine ⟨?_, ?_, hadmitted.available⟩ <;> omega

private theorem overflowsIf_settle {p : WorldError → Prop} (a : Admission) (o : Outcome) :
    World.OverflowsIf p (t.settle rules block a o) :=
  .bind (.addBalance _ _) fun _ => .bind
    (.ite (.addBalance _ _) (.bind .get fun _ => .ite (.modify _) (.pure _)))
    fun _ => .bind (.modify _) fun _ => .pure _

/-- An admitted transaction comes to no overflow but in the code that it runs. -/
theorem overflowsIf_carryOut {p : WorldError → Prop} {a : Admission}
    (h : ∀ w, let m := t.body.message rules w a.sender t.body.nonce (t.body.gasLimit.toNat - a.intrinsicGas)
      ∀ (transaction : TransactionEnv) (room : Nat), let env : Environment := ⟨rules, block, transaction⟩
        World.OverflowsIf p (m.runCode env (Children.ofRoom env room))) :
    World.OverflowsIf p (t.carryOut rules block a) := by
  have hexecute : World.OverflowsIf p (t.execute rules block a) :=
    .bind (.modify _) fun _ => .bind (.incrementNonce _) fun _ => .bind (.subBalance _ _) fun _ =>
      .bind .get fun w => Message.overflowsIf_execute (h w _ _)
  exact .bind hexecute fun o => .bind (overflowsIf_settle a o) fun _ => .pure _

/-- No admitted transaction comes to a sum of gas that is too much for a count. -/
theorem carryOut_ne_gasOverflow (t : SignedTransaction) (rules : Rules) (block : BlockEnv) (a : Admission)
    (w w' : World) : t.carryOut rules block a w ≠ .error .gasOverflow w' := fun h => by
  have hlimit : countLimit ≤ t.body.gasLimit.toNat - a.intrinsicGas :=
    overflowsIf_carryOut
      (p := fun cause => cause = .gasOverflow → countLimit ≤ t.body.gasLimit.toNat - a.intrinsicGas)
      (fun _ _ _ => Message.runCode_overflow (Children.lawful_ofRoom _ _)) _ _ _ h rfl rfl
  have hlt : t.body.gasLimit.toNat < countLimit := t.body.gasLimit.toNat_lt
  omega

end SignedTransaction

/-- Under the rules of every upgrade: a frame gives back no more gas than its message had, and if that
was a count no gas that a frame gets back, then or in a frame nested in it, leaves more than a count.
A transaction that is included is charged all its intrinsic gas but the part that may be refunded, and
no more than its gas limit, which the block has room for. -/
theorem gas_not_created (f : Fork) (block : BlockEnv) :
    let rules := Rules.ofFork f
    (∀ (transaction : TransactionEnv) (room : Nat) (m : Message) (w : World),
      let env : Environment := ⟨rules, block, transaction⟩
      ∀ run ∈ [m.runCode env (Children.ofRoom env room), m.call env room, m.create env room],
        (∀ frame w', run w = .ok frame w' → frame.gasLeft ≤ m.gas) ∧
        (m.gas < countLimit → ∀ w', run w ≠ .error .gasOverflow w')) ∧
    (∀ (t : SignedTransaction) (a : Admission) (w w' : World),
      t.carryOut rules block a w ≠ .error .gasOverflow w') ∧
    ∀ (t : SignedTransaction) (gasAvailable : Nat) (w w' : World) (outcome : TransactionOutcome),
      t.process rules block gasAvailable w = .ok outcome w' →
      rules.intrinsicGas t.body - rules.intrinsicGas t.body / rules.refundQuotient ≤ outcome.gasUsed ∧
        outcome.gasUsed ≤ t.body.gasLimit.toNat ∧ t.body.gasLimit.toNat ≤ gasAvailable := by
  intro rules
  refine ⟨?_, fun t a w w' h => t.carryOut_ne_gasOverflow rules block a w w' h,
    fun t gasAvailable w w' outcome h => SignedTransaction.gasUsed_bounds h⟩
  intro transaction room m w env run hrun
  have hc := Children.lawful_ofRoom env room
  simp only [List.mem_cons, List.not_mem_nil, or_false] at hrun
  rcases hrun with rfl | rfl | rfl
  · exact ⟨fun frame w' h => (Message.runCode_ok hc h).2,
      fun hlt w' h => absurd (Message.runCode_overflow hc _ _ _ h rfl rfl) (Nat.not_le_of_lt hlt)⟩
  · exact ⟨fun frame w' h => ((m.runs_call env room).leaves h).gas,
      fun hlt w' h => absurd ((m.runs_call env room).overflow h) (Nat.not_le_of_lt hlt)⟩
  · exact ⟨fun frame w' h => ((m.runs_create env room).leaves h).gas,
      fun hlt w' h => absurd ((m.runs_create env room).overflow h) (Nat.not_le_of_lt hlt)⟩

/-- An account without wei asks to send 7 with 8192 gas: it gets these back with the stipend. -/
theorem gas_not_created_by_refused_call :
    let code : ByteArray := ⟨#[0x60, 0, 0x60, 0, 0x60, 0, 0x60, 0, 0x60, 7, 0x60, 0x20, 0x61, 0x20, 0x00,
      0xf1]⟩
    let env : Environment := ⟨Rules.ofFork .berlin, ⟨1, 0, 8000000, 0x99, 0, 1, none, []⟩, ⟨0x77, 1⟩⟩
    let m : Message :=
      { caller := 0x77, isCreation := false, target := 0x10, codeAddress := some 0x10, gas := 100000
        value := 0, data := .empty, code, movesValue := true, isStatic := false, warmAddresses := ∅
        warmSlots := ∅, destroyed := ∅ }
    ∃ f w', m.call env 3 .empty = .ok f w' ∧ f.failure = none ∧ f.gasLeft = 65679 ∧
      f.gasLeft ≤ m.gas := by
  intro code env m
  have hrun : endsWith (fun f _ => f.failure = none ∧ f.gasLeft = 65679)
      (m.call env 3 .empty) := by decide +kernel
  obtain ⟨f, w', hr, htest⟩ := exists_of_endsWith hrun
  obtain ⟨hf, hgas⟩ := of_decide_eq_true htest
  obtain ⟨hframes, -⟩ := gas_not_created .berlin env.block
  have hle := (hframes env.transaction 3 m .empty (m.call env 3) (.tail _ (.head _))).1 f w' hr
  exact ⟨f, w', hr, hf, hgas, hle⟩

end StateTransition
