import StateTransition.Proofs.Machine.Behaviour
import StateTransition.Proofs.Machine.Nesting

/-! No code ends a transaction with a fault of the world. Whatever a message moves was found to be there,
a nonce is raised where it can be, all balances together fit a word twice over, and the checkpoint that a
frame closes is its own. What is left is gas that is too much for a count. -/
namespace StateTransition

namespace World

/-- A well-formed world with so little wei that no two balances together are too much for a word. -/
structure Bounded (w : World) : Prop where
  wellFormed : w.WellFormed
  total_lt : 2 * w.total < wordLimit

/-- A computation that this world does not stop, unless gas is too much for a count. -/
def Supports {α : Type} (w : World) (x : WorldM α) : Prop :=
  ∀ cause w', x w = .error cause w' → cause.isOverflow = true

variable {α β : Type} {w w₁ : World} {a b : Address}

namespace Supports

theorem of_exists {x : WorldM Unit} (h : ∃ w', x w = .ok () w') : w.Supports x := fun _ _ herror => by
  obtain ⟨w', hok⟩ := h
  rw [hok] at herror
  cases herror

theorem pure {x : α} : w.Supports (pure x : WorldM α) := fun _ _ h => by cases h

theorem get : w.Supports (get : WorldM World) := fun _ _ h => by cases h

theorem bind {x : WorldM α} {f : α → WorldM β} (hx : w.Supports x)
    (hf : ∀ a w', x w = .ok a w' → w'.Supports (f a)) : w.Supports (x >>= f) := fun cause w'' h => by
  rcases of_bind_error h with herror | ⟨a, w', hok, herror⟩
  · exact hx cause w'' herror
  · exact hf a w' hok cause w'' herror

theorem ite {c : Prop} [Decidable c] {x y : WorldM α} (hx : c → w.Supports x) (hy : ¬ c → w.Supports y) :
    w.Supports (if c then x else y) := by
  split
  · next h => exact hx h
  · next h => exact hy h

end Supports

private theorem Bounded.opened (h : w.Bounded) (he : w.checkpoint.Evolves w₁) (ht : w₁.total = w.total) :
    w₁.Bounded where
  wellFormed := he.wellFormed h.wellFormed.checkpoint
  total_lt := ht ▸ h.total_lt

private theorem nonce_eq_zero_of_free (h : w.hasCodeOrNonce a = false) : (w.accountOrEmpty a).nonce = 0 := by
  unfold hasCodeOrNonce at h
  unfold accountOrEmpty
  cases hr : w.account? a with
  | none => rfl
  | some r =>
    rw [hr, Option.any_some, Bool.or_eq_false_iff] at h
    simpa using h.1

/-- Where a contract may be created the nonce is still one at most when the creator's was raised. -/
private theorem nonce_le_one_of_free (hfree : w.hasCodeOrNonce b = false)
    (hraise : incrementNonce a w = .ok () w₁) : (w₁.accountOrEmpty b).nonce.toNat ≤ 1 := by
  have hzero := nonce_eq_zero_of_free hfree
  have hrun := run_incrementNonce a w
  rw [EStateM.run, hraise] at hrun
  split at hrun
  · cases hrun
    rw [accountOrEmpty, account?_setAccount]
    split
    · next hab =>
      change ((w.accountOrEmpty a).nonce + 1).toNat ≤ 1
      rw [hab, hzero]
      decide
    · change (w.accountOrEmpty b).nonce.toNat ≤ 1
      rw [hzero]
      decide
  · cases hrun

end World

open World (Supports)

variable {env : Environment} {rules : Rules} {children : Option Children}

/-- The value that a message moves is there. -/
def Message.Covered (m : Message) (w : World) : Prop := m.movesValue → m.value ≤ w.balance m.caller

structure Children.Solvent (c : Children) : Prop where
  lawful : c.Lawful
  call : ∀ {m : Message} {w : World}, w.Bounded → m.Covered w → w.Supports (c.call m)
  create : ∀ {m : Message} {w : World}, w.Bounded → m.Covered w →
    (w.accountOrEmpty m.target).nonce.toNat ≤ 1 → w.Supports (c.create m)

private theorem Children.lawful_of_solvent (hc : ∀ c ∈ children, c.Solvent) : ∀ c ∈ children, c.Lawful :=
  fun c h => (hc c h).lawful

namespace Machine

variable {m m' : Machine} {run : WorldM Frame} {w₁ w' : World} {cause : WorldError}

private theorem Advance.bounded (h : m.Advance m') (hw : m.world.Bounded) : m'.world.Bounded where
  wellFormed := h.evolves.wellFormed hw.wellFormed
  total_lt := Nat.lt_of_le_of_lt (Nat.mul_le_mul_left 2 (h.total_le hw.wellFormed)) hw.total_lt

/-- A child begins where its parent is, but for the nonce that a creation has raised. -/
theorem Opens.advance (h : Opens children m run w₁) : m.Advance ⟨m.frame, w₁⟩ := by
  cases h with
  | call => exact .refl _
  | create _ _ _ _ hraise =>
    exact .of_world (.incrementNonce hraise) (World.total_incrementNonce hraise)

theorem Opens.leaves {child : Frame} (h : Opens children m run w₁) (hl : ∀ c ∈ children, c.Lawful)
    (hrun : run w₁ = .ok child w') : ∃ msg : Message, msg.Leaves w₁ child w' := by
  cases h with
  | call hmem => exact ⟨_, ((hl _ hmem).call _).leaves hrun⟩
  | create hmem => exact ⟨_, ((hl _ hmem).create _).leaves hrun⟩

private theorem Effect.advance (h : Effect rules children m m') (hl : ∀ c ∈ children, c.Lawful) :
    m.Advance m' := by
  cases h with
  | frame h => exact .of_frame h.message h.destroyed
  | log => exact .of_frame rfl rfl
  | @write f w key new =>
    have htotal := World.total_setSlot f.message.target key new w
    exact ⟨rfl, .of_change (.setSlot _ _ _ _), id, fun _ => Nat.le_of_eq htotal, fun _ _ => htotal⟩
  | collide _ _ hraise =>
    exact .of_world (.incrementNonce hraise) (World.total_incrementNonce hraise)
  | child gasLeft hopen hrun =>
    obtain ⟨msg, hleaves⟩ := hopen.leaves hl hrun
    exact hopen.advance.trans (hleaves.advance rules rfl rfl)
  | destroy heir _ hgive => exact .of_destruction rfl rfl hgive

theorem Effects.advance (h : Effects rules children m m') (hl : ∀ c ∈ children, c.Lawful) :
    m.Advance m' := by
  induction h with
  | refl => exact .refl m
  | tail _ hlast ih => exact ih.trans (hlast.advance hl)

/-- A request is for value that is there, or moves none. -/
private theorem covered_of_from {f : Frame} {w : World} {r : Request} (hr : r.From f.message w)
    (data code : ByteArray) : (MachineM.callMessage f r data code).Covered w := by
  intro hmoves
  cases hr with
  | call hvalue | code hvalue => exact hvalue
  | delegate => cases hmoves
  | static => exact Nat.zero_le _

private theorem Opens.supports (h : Opens children m run w₁) (hc : ∀ c ∈ children, c.Solvent)
    (hw : m.world.Bounded) : w₁.Supports run := by
  have hw₁ := h.advance.bounded hw
  cases h with
  | call hmem hr => exact (hc _ hmem).call hw (covered_of_from hr _ _)
  | create hmem _ hvalue hfree hraise =>
    refine (hc _ hmem).create hw₁ (fun _ => ?_) (World.nonce_le_one_of_free hfree hraise)
    rw [World.balance_incrementNonce hraise]
    exact hvalue

/-- An heir can be given what another account has. -/
private theorem Fault.cause_eq (h : Fault children m cause w') (hc : ∀ c ∈ children, c.Solvent)
    (hw : m.world.Bounded) : cause.isOverflow = true := by
  cases h with
  | overflow _ hcause | childOverflow hcause => exact hcause
  | child hopen hrun => exact hopen.supports hc hw _ _ hrun
  | @heir f w w₁ cause heir hgive =>
    have hheir := World.balance_le_total heir w
    have howner := World.balance_le_total f.message.target w
    have htotal : 2 * w.total < wordLimit := hw.total_lt
    have hroom : (w.balance heir).toNat + (w.balance f.message.target).toNat < wordLimit := by omega
    obtain ⟨w₂, hgiven⟩ := World.exists_addBalance hroom
    rw [hgiven] at hgive
    cases hgive

end Machine

namespace Message

variable {m : Message} {w w₁ : World}

private theorem supports_runCode (hc : ∀ c ∈ children, c.Solvent) (hw : w.Bounded) :
    w.Supports (m.runCode env children) := fun cause w' h => by
  obtain ⟨s, heffects, hfault⟩ := runCode_fault h
  exact hfault.cause_eq hc ((heffects.advance (Children.lawful_of_solvent hc)).bounded hw)

private theorem exists_enter (hw : w.Bounded) (hm : m.Covered w) : ∃ w₁, m.enter w = .ok () w₁ := by
  let w₁ := w.checkpoint.touch m.target
  have hrun : m.enter w =
      (if m.movesValue && m.value ≠ 0 then World.transfer m.caller m.target m.value
        else pure () : WorldM Unit) w₁ := rfl
  rw [hrun]
  split
  · next hmoves =>
    have hmoves : m.movesValue = true ∧ m.value ≠ 0 := by simpa using hmoves
    have htotal : w₁.total = w.total := World.total_touch m.target w.checkpoint
    have hbalance : w₁.balance m.caller = w.balance m.caller :=
      World.balance_touch m.target w.checkpoint m.caller
    refine World.exists_transfer (hbalance ▸ hm hmoves.1) ?_
    have hlt := hw.total_lt
    omega
  · exact ⟨w₁, rfl⟩

private theorem supports_callWith (hc : ∀ c ∈ children, c.Solvent) (hw : w.Bounded) (hm : m.Covered w) :
    w.Supports (m.callWith env children) := by
  refine .bind (.of_exists (exists_enter hw hm)) fun _ w₁ henter => ?_
  obtain ⟨he, ht⟩ := enter_ok henter
  have hw₁ : w₁.Bounded := hw.opened he ht
  refine .bind (supports_runCode hc hw₁) fun f w₂ hrun => ?_
  have hopen := he.trans (runCode_ok (Children.lawful_of_solvent hc) hrun).1.evolves
  exact .ite (fun _ => .bind (.of_exists (hopen.exists_commit hw.wellFormed)) fun _ _ _ => .pure)
    fun _ => .bind (.of_exists (hopen.exists_revert hw.wellFormed)) fun _ _ _ => .pure

private theorem exists_clear (hnonce : (w.accountOrEmpty m.target).nonce.toNat ≤ 1) :
    ∃ w₁, m.clear rules w = .ok () w₁ := by
  let w₁ := (w.checkpoint.destroyStorage m.target).markCreated m.target
  have hrun : m.clear rules w =
      (if rules.stateClearing then World.incrementNonce m.target else pure () : WorldM Unit) w₁ := rfl
  rw [hrun]
  split
  · have hsame : w₁.accountOrEmpty m.target = w.accountOrEmpty m.target :=
      World.accountOrEmpty_congr (World.destroyStorage_accounts m.target w.checkpoint) m.target
    have hmax : 1 < maxCount := by decide
    exact World.exists_incrementNonce (by rw [hsame]; omega)
  · exact ⟨w₁, rfl⟩

private theorem supports_install (h : w.checkpoint.Evolves w₁) (hw : w.WellFormed) (f : Frame) :
    w₁.Supports (m.install rules f) := by
  obtain ⟨gasLeft, -, ⟨-, hi⟩ | hi | ⟨cause, hi⟩⟩ := install_cases rules m f
  · rw [hi]
    refine .bind (.of_exists ⟨_, rfl⟩) fun _ w₂ hset => ?_
    cases hset
    have hinstalled := h.trans (.of_change (.setCode m.target f.output w₁))
    exact .bind (.of_exists (hinstalled.exists_commit hw)) fun _ _ _ => .pure
  · exact hi ▸ .bind (.of_exists (h.exists_commit hw)) fun _ _ _ => .pure
  · exact hi ▸ .bind (.of_exists (h.exists_revert hw)) fun _ _ _ => .pure

private theorem supports_createWith (hc : ∀ c ∈ children, c.Solvent) (hw : w.Bounded) (hm : m.Covered w)
    (hnonce : (w.accountOrEmpty m.target).nonce.toNat ≤ 1) : w.Supports (m.createWith env children) := by
  refine .bind (.of_exists (exists_clear hnonce)) fun _ w₁ hclear => ?_
  obtain ⟨he, ht, hbalance⟩ := clear_ok hclear
  have hw₁ : w₁.Bounded := hw.opened he ht
  have hm₁ : m.Covered w₁ := fun hmoves => hbalance m.caller ▸ hm hmoves
  refine .bind (supports_callWith hc hw₁ hm₁) fun f w₂ hcall => ?_
  have hopen := he.trans (callWith_leaves (Children.lawful_of_solvent hc) hcall).evolves
  exact .ite (fun _ => supports_install hopen hw.wellFormed f) fun _ =>
    .bind (.of_exists (hopen.exists_revert hw.wellFormed)) fun _ _ _ => .pure

end Message

private theorem Children.solvent_ofRoom (env : Environment) (room : Nat) :
    ∀ c ∈ Children.ofRoom env room, c.Solvent :=
  ofRoom_induction env (fun _ hc =>
    have hl := lawful_of_solvent hc
    ⟨⟨Message.runs_callWith hl, Message.runs_createWith hl⟩,
      fun hw hm => Message.supports_callWith hc hw hm,
      fun hw hm hnonce => Message.supports_createWith hc hw hm hnonce⟩) room

/-- A bounded world supports the message of a transaction, if the value that it moves is there. -/
theorem Message.supports_execute {m : Message} {w : World} (hw : w.Bounded) (hm : m.Covered w)
    (room : Nat) : w.Supports (m.execute env room) := by
  have hc := Children.solvent_ofRoom env room
  unfold execute
  refine .ite (fun _ => ?_) fun _ => ?_
  · refine .bind .get fun w₁ w₂ hget => ?_
    cases hget
    refine .ite (fun _ => .pure) fun hfree => ?_
    have hzero := World.nonce_eq_zero_of_free (by simpa using hfree)
    have hnonce : (w.accountOrEmpty m.target).nonce.toNat ≤ 1 := by
      rw [hzero]
      decide
    exact .bind (supports_createWith hc hw hm hnonce) fun _ _ _ => .pure
  · exact .bind (supports_callWith hc hw hm) fun _ _ _ => .bind .get fun _ _ _ =>
      .ite (fun _ => .pure) fun _ => .pure

end StateTransition
