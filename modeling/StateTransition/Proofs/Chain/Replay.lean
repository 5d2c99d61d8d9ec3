import StateTransition.Chain.Ommer
import StateTransition.Proofs.Chain.Conservation
import StateTransition.Proofs.Machine.Pinned

/-! A transaction is included once. Whatever is done after it, its sender's nonce stays above its own. -/
namespace StateTransition

open World (Pins EndsPinned)

variable {a : Address} {n : Nat} {rules : Rules} {block : BlockEnv} {w w' : World}

/-! ### Settlement -/

namespace World

private theorem Pinned.foldl_destroyAccount {l : List Address} (h : w.Pinned a n) (hl : a ∉ l) :
    (l.foldl (fun w b => w.destroyAccount b) w).Pinned a n := by
  induction l generalizing w with
  | nil => exact h
  | cons b l ih =>
    rw [List.mem_cons, not_or] at hl
    exact ih (h.destroyAccount (Ne.symm hl.1)) hl.2

private theorem Pinned.clearEmpty (h : w.Pinned a n) (hn : n ≠ 0) (l : List Address) :
    (w.clearEmpty l).Pinned a n := by
  induction l generalizing w with
  | nil => exact h
  | cons b l ih =>
    rw [World.clearEmpty, List.foldl_cons]
    refine ih ?_
    split
    · next hempty => exact h.destroyAccount (h.ne_of_isEmptyAccount hn hempty)
    · exact h

private theorem Pinned.sweep (h : w.Pinned a n) (hn : n ≠ 0) {o : Outcome} (ho : a ∉ o.destroyed) :
    (w.sweep rules o).Pinned a n := by
  have hl : a ∉ o.destroyed.toList := fun hmem => ho (Std.ExtTreeSet.mem_toList.mp hmem)
  have hd := h.foldl_destroyAccount hl
  unfold World.sweep
  dsimp only
  split
  · exact hd.clearEmpty hn _
  · exact hd

private theorem pins_payFee (hn : n ≠ 0) (coinbase : Address) (fee : Word) :
    Pins a n (fun _ => True) (payFee rules coinbase fee) :=
  .ite (fun _ => .addBalance _ _) fun _ => .bind .get fun _ hw => .ite
    (fun hempty => .modify fun _ h => h.destroyAccount (hw.ne_of_isEmptyAccount hn hempty))
    fun _ => .pure trivial

/-- Paying for an ommer leaves the world alone, or gives its coinbase something. -/
theorem payOmmer_eq (rules : Rules) (h ommer : Header) :
    payOmmer rules h ommer = throw .overflow ∨
      payOmmer rules h ommer = addBalance ommer.coinbase
        (BitVec.ofNat 256 (ommerReward rules.blockReward (h.number.toNat - ommer.number.toNat))) :=
  (Decidable.em (h.number < ommer.number)).imp (fun hlt => if_pos hlt) fun hle => if_neg hle

theorem payOmmer_ok {h ommer : Header} (hpay : payOmmer rules h ommer w = .ok () w') :
    addBalance ommer.coinbase
      (BitVec.ofNat 256 (ommerReward rules.blockReward (h.number.toNat - ommer.number.toNat))) w = .ok () w' := by
  obtain heq | heq := payOmmer_eq rules h ommer
  · rw [heq] at hpay
    cases hpay
  · exact heq ▸ hpay

theorem after_payOmmer {P : World → Prop} {h ommer : Header} (hw : P w)
    (hpaid : P (after (addBalance ommer.coinbase
      (BitVec.ofNat 256 (ommerReward rules.blockReward (h.number.toNat - ommer.number.toNat)))) w)) :
    P (after (payOmmer rules h ommer) w) := by
  obtain heq | heq := payOmmer_eq rules h ommer
  · rw [heq]
    exact hw
  · rw [heq]
    exact hpaid

private theorem pins_payOmmer (h ommer : Header) : Pins a n (fun _ => True) (payOmmer rules h ommer) := by
  obtain heq | heq := payOmmer_eq rules h ommer
  · exact heq ▸ fun _ hw => hw
  · exact heq ▸ .addBalance _ _

private theorem pins_payRewards (h : Header) (ommers : List Header) :
    Pins a n (fun _ => True) (payRewards rules h ommers) := by
  refine .next (.addBalance _ _) fun _ => ?_
  induction ommers with
  | nil => exact .pure trivial
  | cons ommer ommers ih => exact .next (pins_payOmmer h ommer) fun _ => ih

end World

namespace SignedTransaction

variable {t : SignedTransaction} {adm : Admission} {o : Outcome} {gasAvailable : Nat}

private theorem pins_settle (hn : n ≠ 0) (ho : a ∉ o.destroyed) :
    Pins a n (fun _ => True) (t.settle rules block adm o) :=
  .next (.addBalance _ _) fun _ => .next (World.pins_payFee hn _ _) fun _ =>
    .next (.modify fun _ h => h.sweep hn ho) fun _ => .pure trivial

/-- The message of a transaction runs the code of its target, if it is no creation. -/
private theorem code_eq_empty_of_message (hw : w.Pinned a n) {sender : Address} {nonce : UInt64} {gas : Nat} :
    let m := t.body.message rules w sender nonce gas
    m.isCreation = false → m.target = a → m.code = ByteArray.empty := by
  intro m hcall htarget
  have hcode : m.code = if m.isCreation then t.body.data.toByteArray else w.code m.target := rfl
  rw [hcode, hcall, htarget]
  exact hw.code_eq_empty

/-- Once the sender's nonce is raised, an account stays pinned. -/
private theorem carryOut_endsPinned (hn : n ≠ 0)
    (hraise : EndsPinned a n (fun _ => True) ((World.incrementNonce adm.sender).run w.beginTransaction)) :
    EndsPinned a n (fun _ => True) ((t.carryOut rules block adm).run w) := by
  have hexecute : EndsPinned a n (fun o => a ∉ o.destroyed) ((t.execute rules block adm).run w) := by
    refine hraise.bind fun _ _ => .next (.subBalance _ _) fun _ => .bind .get fun w₁ hw₁ => ?_
    exact Message.pins_execute hn Std.ExtTreeSet.not_mem_empty (code_eq_empty_of_message hw₁) _
  exact hexecute.bind fun o ho => .next (pins_settle hn ho) fun _ => .pure trivial

/-- A sender whose nonce is raised is pinned, as the journal is empty and has no older record of it. -/
private theorem raise_endsPinned_self (hallowed : t.body.Allowed (w.accountOrEmpty a)) :
    EndsPinned a (t.body.nonce.toNat + 1) (fun _ => True)
      ((World.incrementNonce a).run w.beginTransaction) := by
  have hlt : (w.accountOrEmpty a).nonce.toNat + 1 < countLimit := by
    have hle : (w.accountOrEmpty a).nonce.toNat < countLimit := UInt64.toNat_lt _
    have hne := hallowed.nonce_ne
    have hmax : maxCount = countLimit - 1 := rfl
    omega
  have hsum : ((w.accountOrEmpty a).nonce + 1).toNat = t.body.nonce.toNat + 1 := by
    rw [← hallowed.nonce, UInt64.toNat_add]
    exact Nat.mod_eq_of_lt hlt
  have hsame : w.beginTransaction.accountOrEmpty a = w.accountOrEmpty a := rfl
  rw [World.run_incrementNonce, hsame, if_pos hlt]
  exact ⟨.of_setAccount ⟨_, rfl, hsum, hallowed.plain⟩ rfl rfl, trivial⟩

end SignedTransaction

/-! ### Runs -/

inductive World.Event where
  | transaction (rules : Rules) (block : BlockEnv) (gasAvailable : Nat) (t : SignedTransaction)
  | rewards (rules : Rules) (h : Header) (ommers : List Header)

namespace World.Event

/-- The world that an event leaves. A transaction that is refused leaves one as well, and so does what
ends in a fault. -/
def run (w : World) : Event → World
  | transaction rules block gasAvailable t =>
    match t.process rules block gasAvailable w with
    | .ok _ w' => w'
    | .error _ w' => w'
  | rewards rules h ommers => after (payRewards rules h ommers) w

private theorem run_of_valid {t : SignedTransaction} {gasAvailable : Nat} {adm : Admission}
    (h : t.validate rules block w gasAvailable = .ok adm)
    (hends : EndsPinned a n (fun _ => True) ((t.carryOut rules block adm).run w)) :
    ((transaction rules block gasAvailable t).run w).Pinned a n := by
  simp only [run, SignedTransaction.process, h]
  cases hr : t.carryOut rules block adm w with
  | ok outcome w' =>
    rw [EStateM.run, hr] at hends
    exact hends.1
  | error cause w' =>
    rw [EStateM.run, hr] at hends
    exact hends

/-- An event raises the nonce of a pinned account or leaves it. -/
private theorem pinned (hw : w.Pinned a n) (hn : n ≠ 0) (e : Event) : ∃ n', n ≤ n' ∧ (e.run w).Pinned a n' := by
  cases e with
  | transaction rules block gasAvailable t =>
    cases hv : t.validate rules block w gasAvailable with
    | error cause =>
      refine ⟨n, Nat.le_refl n, ?_⟩
      simp only [run, SignedTransaction.process, hv]
      exact hw
    | ok adm =>
      by_cases hs : adm.sender = a
      · subst hs
        have hallowed := (SignedTransaction.validate_ok hv).allowed
        have hnonce : n = t.body.nonce.toNat := by rw [← hw.nonce_eq, hallowed.nonce]
        exact ⟨n + 1, Nat.le_succ n, run_of_valid hv (SignedTransaction.carryOut_endsPinned (Nat.succ_ne_zero n)
          (hnonce ▸ SignedTransaction.raise_endsPinned_self hallowed))⟩
      · have hraise := Pins.incrementNonce hs _ hw.beginTransaction
        exact ⟨n, Nat.le_refl n, run_of_valid hv (SignedTransaction.carryOut_endsPinned hn hraise)⟩
  | rewards rules h ommers => exact ⟨n, Nat.le_refl n, (pins_payRewards h ommers).after hw⟩

private theorem pinned_foldl (hw : w.Pinned a n) (hn : n ≠ 0) (events : List Event) :
    ∃ n', n ≤ n' ∧ (events.foldl run w).Pinned a n' := by
  induction events generalizing w n with
  | nil => exact ⟨n, Nat.le_refl n, hw⟩
  | cons e events ih =>
    obtain ⟨n₁, hle, hw₁⟩ := e.pinned hw hn
    obtain ⟨n₂, hle', hw₂⟩ := ih hw₁ (by omega)
    exact ⟨n₂, Nat.le_trans hle hle', hw₂⟩

end World.Event

namespace SignedTransaction

variable {t : SignedTransaction} {gasAvailable : Nat} {outcome : TransactionOutcome}

theorem process_pinned (h : t.process rules block gasAvailable w = .ok outcome w') :
    t.sender = .ok outcome.sender ∧ (w.accountOrEmpty outcome.sender).nonce = t.body.nonce ∧
      w'.Pinned outcome.sender (t.body.nonce.toNat + 1) := by
  obtain ⟨adm, hvalid, hcarry, hsender⟩ := exists_carryOut h
  have hadmitted := validate_ok hvalid
  have hends : EndsPinned adm.sender (t.body.nonce.toNat + 1) (fun _ => True)
      ((t.carryOut rules block adm).run w) :=
    carryOut_endsPinned (Nat.succ_ne_zero _) (raise_endsPinned_self hadmitted.allowed)
  rw [EStateM.run, hcarry] at hends
  rw [hsender]
  exact ⟨hadmitted.sender, hadmitted.allowed.nonce, hends.1⟩

/-- After a transaction was included its sender's nonce is one higher. However transactions are tried
and rewards are paid after it, the nonce never falls, and the transaction is refused. -/
theorem not_replayed (h : t.process rules block gasAvailable w = .ok outcome w') :
    (w'.accountOrEmpty outcome.sender).nonce.toNat =
        (w.accountOrEmpty outcome.sender).nonce.toNat + 1 ∧
      ∀ before after : List World.Event,
        let between := before.foldl World.Event.run w'
        let later := after.foldl World.Event.run between
        (between.accountOrEmpty outcome.sender).nonce.toNat ≤
            (later.accountOrEmpty outcome.sender).nonce.toNat ∧
          ∀ (rules : Rules) (block : BlockEnv) (gasAvailable : Nat),
            ∃ cause, t.process rules block gasAvailable later = .error cause later := by
  obtain ⟨hsender, hnonce, hw'⟩ := process_pinned h
  refine ⟨by rw [hw'.nonce_eq, hnonce], fun before after => ?_⟩
  intro between later
  obtain ⟨n₁, hle₁, hbetween⟩ : ∃ n, t.body.nonce.toNat + 1 ≤ n ∧ between.Pinned outcome.sender n :=
    World.Event.pinned_foldl hw' (Nat.succ_ne_zero _) before
  obtain ⟨n, hle, hlater⟩ : ∃ n, n₁ ≤ n ∧ later.Pinned outcome.sender n :=
    World.Event.pinned_foldl hbetween (by omega) after
  refine ⟨by rwa [hbetween.nonce_eq, hlater.nonce_eq], fun rules block gasAvailable => ?_⟩
  cases hv : t.validate rules block later gasAvailable with
  | error cause => exact ⟨cause, by simp only [process, hv]⟩
  | ok adm =>
    -- Whoever is found to be the sender is the one found before, whose nonce is above the transaction's.
    have hadmitted := validate_ok hv
    have hsame : adm.sender = outcome.sender := by
      have hs := hadmitted.sender.symm.trans hsender
      exact Except.ok.inj hs
    have hat := hadmitted.allowed.nonce
    rw [hsame] at hat
    have hfound := hlater.nonce_eq
    rw [hat] at hfound
    omega

open Sample

/-- A transfer is tried again in its own block, and in the next one after the reward was paid. -/
theorem not_replayed_of_transfer :
    let header : Header := ⟨0, 0, 0x99, 0, 0, 0, 0, 0, 1, 8000000, 21000, 0, [], 0, 0, some 7⟩
    ∃ outcome w', transfer.process (Rules.ofFork .london) londonBlock 100000 world = .ok outcome w' ∧
      (w'.accountOrEmpty outcome.sender).nonce.toNat =
        (world.accountOrEmpty outcome.sender).nonce.toNat + 1 ∧
      (∃ cause, transfer.process (Rules.ofFork .london) londonBlock 79000 w' = .error cause w') ∧
      let later := [World.Event.rewards (Rules.ofFork .london) header []].foldl World.Event.run w'
      ∃ cause, transfer.process (Rules.ofFork .grayGlacier) { londonBlock with number := 2 } 8000000 later =
        .error cause later := by
  intro header
  have hrun : endsWith (fun _ _ => true)
      (transfer.carryOut (Rules.ofFork .london) londonBlock ⟨payer, 21000, 9⟩ world) := by
    decide +kernel
  obtain ⟨outcome, w', hcarry, -⟩ := exists_of_endsWith hrun
  have hprocess := process_of_valid validate_transfer hcarry
  obtain ⟨hnonce, hlater⟩ := not_replayed hprocess
  obtain ⟨-, hsame⟩ := hlater [] []
  obtain ⟨-, hnext⟩ := hlater [] [.rewards (Rules.ofFork .london) header []]
  exact ⟨outcome, w', hprocess, hnonce, hsame (Rules.ofFork .london) londonBlock 79000,
    hnext (Rules.ofFork .grayGlacier) { londonBlock with number := 2 } 8000000⟩

end SignedTransaction

end StateTransition
