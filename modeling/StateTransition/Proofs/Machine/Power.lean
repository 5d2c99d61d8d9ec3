import StateTransition.Machine.Precompile
import StateTransition.Proofs.Buffer
import StateTransition.Proofs.Machine.Primitive
import StateTransition.Proofs.Word

/-! The built-in modular power. A request goes on with zeros without end, so its operands may lie past what is given of
it; the result has as many bytes as the modulus and spells the power. -/
namespace StateTransition

private theorem size_modexp (base exponent modulus : ByteArray) :
    (modexp base exponent modulus).size = modulus.size := by
  unfold modexp
  dsimp only
  split
  · exact size_zeroBytes _
  · exact size_bufferOfNat _ _

/-- The power is below the modulus, so it is not cut. -/
private theorem natOfBuffer_modexp (base exponent modulus : ByteArray) :
    natOfBuffer (modexp base exponent modulus) =
      if natOfBuffer modulus = 0 then 0 else natOfBuffer base ^ natOfBuffer exponent % natOfBuffer modulus := by
  unfold modexp
  dsimp only
  split
  · exact natOfBuffer_zeroBytes _
  · next hmodulus =>
    have hlt : natOfBuffer base ^ natOfBuffer exponent % natOfBuffer modulus < natOfBuffer modulus :=
      Nat.mod_lt _ (Nat.pos_of_ne_zero hmodulus)
    have hfits : natOfBuffer modulus < 256 ^ modulus.size := natOfBuffer_eq_numeralAt modulus ▸ numeralAt_lt modulus 0 _
    rw [natOfBuffer_bufferOfNat, powMod_eq, Nat.mod_eq_of_lt (hlt.trans hfits)]

namespace Precompile

variable {rules : Rules} {request : ByteArray}

private theorem toNat_wordAt (request : ByteArray) (offset : Nat) :
    (wordAt request offset).toNat = numeralAt request offset 32 := by
  rw [wordAt, BitVec.toNat_ofNat, natOfBuffer_readPadded]
  exact Nat.mod_eq_of_lt (numeralAt_lt request offset 32)

private theorem operand_of_lt {offset size : Nat} (h : size < 2 ^ 63) :
    operand request offset size = .ok (readPadded request offset size) := if_pos h

/-- What is read of a request whose lengths are counts, unless it has neither base nor modulus. -/
private theorem power_eq_operands {b e m : Nat} (hb : (wordAt request 0).toNat = b)
    (he : (wordAt request 32).toNat = e)
    (hm : (wordAt request 64).toNat = m) (hbase : b < 2 ^ 64) (hexponent : e < 2 ^ 64) (hmodulus : m < 2 ^ 64)
    (hsome : ¬(b = 0 ∧ m = 0)) :
    power request = do
      let base ← operand request 96 b
      let exponent ← operand request (96 + b) e
      let modulus ← operand request (96 + b + e) m
      return modexp base exponent modulus := by
  have hempty : ¬(wordAt request 0 = 0 && wordAt request 64 = 0) = true := by
    simp only [Bool.and_eq_true, decide_eq_true_eq]
    rintro ⟨hnone, hnone'⟩
    rw [hnone] at hb
    rw [hnone'] at hm
    exact hsome ⟨hb.symm, hm.symm⟩
  unfold power PowerRequest.ofRequest
  dsimp only
  rw [if_neg hempty, Word.toCount?_of_lt hb hbase, Word.toCount?_of_lt he hexponent, Word.toCount?_of_lt hm hmodulus]

/-- A request whose lengths leave room in a buffer, or without base and modulus, is answered. -/
private theorem power_eq
    (hlengths : (numeralAt request 0 32 < 2 ^ 63 ∧ numeralAt request 32 32 < 2 ^ 63 ∧ numeralAt request 64 32 < 2 ^ 63) ∨
      numeralAt request 0 32 = 0 ∧ numeralAt request 64 32 = 0) :
    let b := numeralAt request 0 32
    let e := numeralAt request 32 32
    let m := numeralAt request 64 32
    ∃ output, power request = .ok output ∧ output.size = m ∧
      natOfBuffer output =
        if numeralAt request (96 + b + e) m = 0 then 0
        else numeralAt request 96 b ^ numeralAt request (96 + b) e % numeralAt request (96 + b + e) m := by
  have hb := toNat_wordAt request 0
  have he := toNat_wordAt request 32
  have hm := toNat_wordAt request 64
  generalize numeralAt request 0 32 = b at *
  generalize numeralAt request 32 32 = e at *
  generalize numeralAt request 64 32 = m at *
  by_cases hempty : b = 0 ∧ m = 0
  · -- neither base nor modulus has a byte, and the exponent is not even read
    obtain ⟨rfl, rfl⟩ := hempty
    have hbase : wordAt request 0 = 0 := BitVec.eq_of_toNat_eq hb
    have hmodulus : wordAt request 64 = 0 := BitVec.eq_of_toNat_eq hm
    exact ⟨ByteArray.empty, if_pos (by simp [PowerRequest.ofRequest, hbase, hmodulus]), rfl, rfl⟩
  · obtain ⟨hbase, hexponent, hmodulus⟩ := hlengths.resolve_right hempty
    refine ⟨modexp (readPadded request 96 b) (readPadded request (96 + b) e) (readPadded request (96 + b + e) m),
      ?_, ?_, ?_⟩
    · rw [power_eq_operands hb he hm (by omega) (by omega) (by omega) hempty, operand_of_lt hbase,
        operand_of_lt hexponent, operand_of_lt hmodulus]
      rfl
    · rw [size_modexp, size_readPadded]
    · rw [natOfBuffer_modexp, natOfBuffer_readPadded, natOfBuffer_readPadded, natOfBuffer_readPadded]

/-- With gas for its price a built-in contract comes to its answer. -/
private theorem run_of_paid {index : UInt8} {machine : Machine} {amount : Nat}
    (hprice : price rules index machine.frame.message.data = .ok amount) (hgas : amount ≤ machine.frame.gasLeft) :
    run rules index machine = conclude (evaluate index machine.frame.message.data) { machine with
      frame := { machine.frame with gasLeft := machine.frame.gasLeft - amount } } := by
  obtain ⟨frame, world⟩ := machine
  have hpaid : MachineM.charge amount ⟨frame, world⟩ =
      .ok () ⟨{ frame with gasLeft := frame.gasLeft - amount }, world⟩ := if_pos hgas
  rw [run, MachineM.frame_bind]
  dsimp only at hprice ⊢
  rw [hprice]
  exact MachineM.bind_of_ok hpaid

/-- The modular power of a request whose lengths leave room in a buffer, or that has neither base nor modulus, with gas
for its price: the result has as many bytes as the modulus, and spells the power of the base modulo the modulus, or zero
for a modulus of zero. Operands are read from the request with zeros after it without end. -/
theorem power_exact (rules : Rules) (machine : Machine) (data : ByteArray) (hdata : machine.frame.message.data = data)
    (hlengths : (numeralAt data 0 32 < 2 ^ 63 ∧ numeralAt data 32 32 < 2 ^ 63 ∧ numeralAt data 64 32 < 2 ^ 63) ∨
      numeralAt data 0 32 = 0 ∧ numeralAt data 64 32 = 0)
    (hgas : (PowerRequest.ofRequest data).price rules.modexpRepriced ≤ machine.frame.gasLeft) :
    let b := numeralAt data 0 32
    let e := numeralAt data 32 32
    let m := numeralAt data 64 32
    let base := numeralAt data 96 b
    let exponent := numeralAt data (96 + b) e
    let modulus := numeralAt data (96 + b + e) m
    ∃ output, run rules 5 machine = .ok () { machine with
        frame := { machine.frame with
          gasLeft := machine.frame.gasLeft - (PowerRequest.ofRequest data).price rules.modexpRepriced
          output, running := false } } ∧
      output.size = m ∧ numeralAt output 0 m = if modulus = 0 then 0 else base ^ exponent % modulus := by
  subst hdata
  intro b e m base exponent modulus
  obtain ⟨output, houtput, hsize, hvalue⟩ := power_eq hlengths
  refine ⟨output, ?_, hsize, ?_⟩
  · rw [run_of_paid rfl hgas, evaluate, houtput]
    rfl
  · rw [← hvalue, natOfBuffer_eq_numeralAt, hsize]

/-- The request asks for two bytes of modulus and ends after the first of them, a one: the fifth power of three modulo
256. -/
theorem power_exact_past_the_end :
    let data : ByteArray := bufferOfNat 32 1 ++ bufferOfNat 32 1 ++ bufferOfNat 32 2 ++ ⟨#[3, 5, 1]⟩
    let m : Message :=
      { caller := 0x77, isCreation := false, target := 0x10, codeAddress := some 5, gas := 100, value := 0
        data, code := .empty, movesValue := false, isStatic := false, warmAddresses := ∅, warmSlots := ∅
        destroyed := ∅ }
    let machine : Machine := ⟨.ofMessage m, .empty⟩
    (numeralAt data 0 32 < 2 ^ 63 ∧ numeralAt data 32 32 < 2 ^ 63 ∧ numeralAt data 64 32 < 2 ^ 63) ∧
      (PowerRequest.ofRequest data).price (Rules.ofFork .byzantium).modexpRepriced ≤ 100 ∧
    ∃ output machine', run (.ofFork .byzantium) 5 machine = .ok () machine' ∧ machine'.frame.output = output ∧
      output.size = 2 ∧ numeralAt output 0 2 = 243 := by
  intro data m machine
  have hb : numeralAt data 0 32 = 1 := by decide +kernel
  have he : numeralAt data 32 32 = 1 := by decide +kernel
  have hm : numeralAt data 64 32 = 2 := by decide +kernel
  have hlengths : numeralAt data 0 32 < 2 ^ 63 ∧ numeralAt data 32 32 < 2 ^ 63 ∧ numeralAt data 64 32 < 2 ^ 63 := by
    rw [hb, he, hm]
    decide
  have hgas : (PowerRequest.ofRequest data).price (Rules.ofFork .byzantium).modexpRepriced ≤ 100 := by decide +kernel
  have hpower : (if numeralAt data 98 2 = 0 then 0
      else numeralAt data 96 1 ^ numeralAt data 97 1 % numeralAt data 98 2) = 243 := by decide +kernel
  obtain ⟨output, hrun, hsize, hvalue⟩ :=
    power_exact (.ofFork .byzantium) machine data rfl (.inl hlengths) hgas
  rw [hb, he, hm] at hvalue
  exact ⟨hlengths, hgas, output, _, hrun, rfl, hsize.trans hm, hvalue.trans hpower⟩

/-- One byte of base and modulus, and an exponent of more bytes than a buffer can have: the price is paid, and there is
no answer. -/
theorem power_stops_at_long_exponent :
    let data : ByteArray := bufferOfNat 32 1 ++ bufferOfNat 32 (2 ^ 63) ++ bufferOfNat 32 1
    let m : Message :=
      { caller := 0x77, isCreation := false, target := 0x10, codeAddress := some 5, gas := 3689348814741910310, value := 0
        data, code := .empty, movesValue := false, isStatic := false, warmAddresses := ∅, warmSlots := ∅
        destroyed := ∅ }
    let machine : Machine := ⟨.ofMessage m, .empty⟩
    (numeralAt data 0 32 < 2 ^ 64 ∧ numeralAt data 32 32 < 2 ^ 64 ∧ numeralAt data 64 32 < 2 ^ 64) ∧
      (PowerRequest.ofRequest data).price (Rules.ofFork .byzantium).modexpRepriced ≤ machine.frame.gasLeft ∧
      (∃ machine', run (.ofFork .byzantium) 5 machine = .error (.fault .bufferOverflow) machine') ∧
      ¬∃ machine', run (.ofFork .byzantium) 5 machine = .ok () machine' := by
  intro data m machine
  have hb : numeralAt data 0 32 = 1 := by decide +kernel
  have he : numeralAt data 32 32 = 2 ^ 63 := by decide +kernel
  have hm : numeralAt data 64 32 = 1 := by decide +kernel
  have hgas : (PowerRequest.ofRequest data).price (Rules.ofFork .byzantium).modexpRepriced ≤ machine.frame.gasLeft := by
    decide +kernel
  have hpower : power data = .error (.fault .bufferOverflow) := by
    rw [power_eq_operands ((toNat_wordAt data 0).trans hb) ((toNat_wordAt data 32).trans he)
      ((toNat_wordAt data 64).trans hm) (by decide) (by decide) (by decide) (by decide), operand_of_lt (by decide)]
    rfl
  have hrun : ∃ machine', run (.ofFork .byzantium) 5 machine = .error (.fault .bufferOverflow) machine' := by
    have hanswer : evaluate 5 machine.frame.message.data = .error (.fault .bufferOverflow) := hpower
    rw [run_of_paid rfl hgas, hanswer]
    exact ⟨_, rfl⟩
  refine ⟨?_, hgas, hrun, ?_⟩
  · rw [hb, he, hm]
    decide
  · obtain ⟨_, hrun⟩ := hrun
    rintro ⟨_, hok⟩
    cases hrun.symm.trans hok

end Precompile

end StateTransition
