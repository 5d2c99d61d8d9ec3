import Mathlib.Tactic.Ring
import StateTransition.Proofs.Machine.Budget
import StateTransition.Proofs.Machine.Ledger
import StateTransition.Proofs.Machine.Solvent

/-! The refund that a frame ends with. It is what the writes give back that last, and what the accounts do that
were destroyed. A child may end below zero where it undoes what its parent did, but a child that fails takes its
writes and its refund with it, so that what the whole message ends with is never below zero. -/
namespace StateTransition

open World (Books Remembers SparesSlots)

mutual

/-- The writes that last of what a frame does: its own, and those of the children that succeeded. -/
inductive Machine.Posts (env : Environment) : (room : Nat) → Machine → Ledger → Machine → Prop
  | start {room : Nat} {s : Machine} : Machine.Posts env room s [] s
  | write {room : Nat} {s : Machine} {l : Ledger} {f : Frame} {w : World} (h : Machine.Posts env room s l ⟨f, w⟩)
    (key : Hash) (new : Word) :
    Machine.Posts env room s (l ++ [w.slotWrite f.message.target key new])
      ⟨{ f with refund := f.refund + (w.slotWrite f.message.target key new).refund env.rules },
        w.setSlot f.message.target key new⟩
  | child {room : Nat} {s s₁ : Machine} {l past : Ledger} {w₁ w₂ : World} {run : WorldM Frame} {child : Frame}
    (h : Machine.Posts env room s l s₁) (gasLeft : Nat) (hopen : Machine.Opens (Children.ofRoom env room) s₁ run w₁)
    (hrun : run w₁ = .ok child w₂) (hok : child.failure = none) (hpast : Message.Settles env room run w₁ past) :
    Machine.Posts env room s (l ++ past) ⟨({ s₁.frame with gasLeft } : Frame).absorb env.rules w₂ child, w₂⟩
  | failed {room : Nat} {s s₁ : Machine} {l : Ledger} {w₁ w₂ : World} {run : WorldM Frame} {child : Frame}
    (h : Machine.Posts env room s l s₁) (gasLeft : Nat) (hopen : Machine.Opens (Children.ofRoom env room) s₁ run w₁)
    (hrun : run w₁ = .ok child w₂) (hfailed : child.failure ≠ none) :
    Machine.Posts env room s l ⟨({ s₁.frame with gasLeft } : Frame).absorb env.rules w₂ child, w₂⟩
  /-- What is done without a child and writes no slot. -/
  | other {room : Nat} {s s₁ s₂ : Machine} {l : Ledger} (h : Machine.Posts env room s l s₁)
    (heffect : Machine.Effect env.rules none s₁ s₂) (hstorage : s₂.world.storage = s₁.world.storage) :
    Machine.Posts env room s l s₂

/-- The writes that last of a message that succeeded. -/
inductive Message.Settles (env : Environment) : (room : Nat) → WorldM Frame → World → Ledger → Prop
  | call {room : Nat} {m : Message} {w w₁ w₂ : World} {l : Ledger} {f : Frame} (henter : m.enter w = .ok () w₁)
    (hrun : m.runCode env (Children.ofRoom env room) w₁ = .ok f w₂)
    (h : Machine.Posts env room ⟨.ofMessage m, w₁⟩ l ⟨f, w₂⟩) :
    Message.Settles env (room + 1) (m.call env room) w l
  | create {room : Nat} {m : Message} {w w₁ : World} {l : Ledger} (hclear : m.clear env.rules w = .ok () w₁)
    (h : Message.Settles env (room + 1) (m.call env room) w₁ l) :
    Message.Settles env (room + 1) (m.create env room) w l

end

/-- The refund of a frame grows by what writes give back and accounts that are destroyed. -/
structure Frame.Tally (rules : Rules) (l : Ledger) (f f' : Frame) : Prop where
  destroyed : ∀ a ∈ f.destroyed, a ∈ f'.destroyed
  size : f.destroyed.size ≤ f'.destroyed.size
  refund : f'.refund = f.refund + l.refund rules +
    rules.gas.selfdestructRefund * (f'.destroyed.size - f.destroyed.size : Int)

namespace Frame.Tally

variable {rules : Rules} {l l' : Ledger} {f f' f'' child : Frame}

private theorem same (hd : f'.destroyed = f.destroyed) (hr : f'.refund = f.refund) : Tally rules [] f f' := by
  refine ⟨fun a ha => hd ▸ ha, Nat.le_of_eq (by rw [hd]), ?_⟩
  rw [hd, hr]
  simp [Ledger.refund]

private theorem trans (h : Tally rules l f f') (h' : Tally rules l' f' f'') : Tally rules (l ++ l') f f'' where
  destroyed a ha := h'.destroyed a (h.destroyed a ha)
  size := Nat.le_trans h.size h'.size
  refund := by
    rw [h'.refund, h.refund, Ledger.refund_append]
    ring

/-- What a child counts that began with the accounts that its parent had destroyed, the parent counts too. -/
private theorem absorb {w : World} {m : Message} (h : Tally rules l (.ofMessage m) child)
    (hm : m.destroyed = f.destroyed)
    (hok : child.failure = none) : Tally rules l f (f.absorb rules w child) := by
  have hunion : f.destroyed ∪ child.destroyed = child.destroyed := by
    apply Std.ExtTreeSet.ext_mem
    intro a
    rw [Std.ExtTreeSet.mem_union_iff]
    have hchild (ha : a ∈ f.destroyed) : a ∈ child.destroyed := h.destroyed a (by rwa [ofMessage, hm])
    exact ⟨fun ha => ha.elim hchild id, .inr⟩
  have habsorb : f.absorb rules w child = f.absorbSuccess rules w child := by
    rw [Frame.absorb, if_pos (by simp [succeeded, hok])]
  have hd : (f.absorb rules w child).destroyed = child.destroyed := by rw [habsorb, absorbSuccess, hunion]
  have hr : (f.absorb rules w child).refund = f.refund + child.refund := by rw [habsorb, absorbSuccess]
  have hsize := h.size
  have hrefund := h.refund
  simp only [ofMessage, hm] at hsize hrefund
  refine ⟨fun a ha => ?_, ?_, ?_⟩
  · rw [hd, ← hunion, Std.ExtTreeSet.mem_union_iff]
    exact .inl ha
  · rw [hd]
    exact hsize
  · rw [hd, hr, hrefund]
    ring

private theorem write (x : SlotWrite) (f : Frame) : Tally rules [x] f
    { f with refund := f.refund + x.refund rules } where
  destroyed _ ha := ha
  size := Nat.le_refl _
  refund := by simp [Ledger.refund]

private theorem destroy (rules : Rules) (f : Frame) (touched : Std.ExtTreeSet Address) :
    Tally rules [] f { f with
      refund := f.refund + f.destructionRefund rules
      destroyed := f.destroyed.insert f.message.target
      touched } where
  destroyed a ha := Std.ExtTreeSet.mem_insert.mpr (.inr ha)
  size := by
    simp only [Std.ExtTreeSet.size_insert]
    split <;> omega
  refund := by
    simp only [Std.ExtTreeSet.size_insert, destructionRefund, Ledger.refund]
    split <;> simp

end Frame.Tally

/-! ### Frames -/

namespace Machine

variable {f : Fork} {env : Environment} {room : Nat} {start : World} {l l' : Ledger} {s s₁ s' : Machine}

/-- What is kept of a frame on its way: the writes that last are booked and counted. -/
structure Balances (env : Environment) (room : Nat) (start : World) (l : Ledger) (s s' : Machine) : Prop where
  posts : ∀ {s₀ : Machine} {l₀ : Ledger}, Posts env room s₀ l₀ s → Posts env room s₀ (l₀ ++ l) s'
  remembers : Remembers start s'.world
  books : Books env.rules l s.world s'.world
  tally : s.frame.Tally env.rules l s'.frame

namespace Balances

private theorem refl (hs : Remembers start s.world) : Balances env room start [] s s where
  posts h := by rwa [List.append_nil]
  remembers := hs
  books := .spared (.refl _)
  tally := .same rfl rfl

private theorem trans (h : Balances env room start l s s₁) (h' : Balances env room start l' s₁ s') :
    Balances env room start (l ++ l') s s' where
  posts hs := by
    rw [← List.append_assoc]
    exact h'.posts (h.posts hs)
  remembers := h'.remembers
  books := h.books.trans h'.books
  tally := h.tally.trans h'.tally

/-- An effect of the frame itself that touches no slot. -/
private theorem spared (hs : Remembers start s.world) (h : Effect env.rules none s s')
    (hw : SparesSlots s.world s'.world)
    (ht : s.frame.Tally env.rules [] s'.frame) : Balances env room start [] s s' where
  posts hposts := by
    rw [List.append_nil]
    exact .other hposts h hw.storage
  remembers := hs.spared hw
  books := .spared hw
  tally := ht

end Balances

end Machine

/-- What a message leads to, and if it succeeds what it counts. -/
structure Message.Settled (env : Environment) (room : Nat) (start : World) (m : Message) (run : WorldM Frame)
    (w : World) (f : Frame) (w' : World) : Prop where
  remembers : Remembers start w'
  created : ∀ a, w.isCreated a = true → w'.isCreated a = true
  ledger : f.failure = none → ∃ l, Settles env room run w l ∧ Books env.rules l w w' ∧
    (Frame.ofMessage m).Tally env.rules l f

structure Children.Settling (env : Environment) (room : Nat) (start : World) (c : Children) : Prop where
  call : ∀ {m : Message} {w w' : World} {f : Frame}, w.WellFormed → Remembers start w →
    c.call m w = .ok f w' → m.Settled env room start (c.call m) w f w'
  create : ∀ {m : Message} {w w' : World} {f : Frame}, w.WellFormed → Remembers start w →
    c.create m w = .ok f w' → m.Settled env room start (c.create m) w f w'

namespace World

variable {start w w' : World} {a source target : Address} {amount : Word}

theorem SparesSlots.of_incrementNonce (h : World.incrementNonce a w = .ok () w') : SparesSlots w w' :=
  after_eq h ▸ incrementNonce a w

theorem SparesSlots.of_addBalance (h : World.addBalance a amount w = .ok () w') : SparesSlots w w' :=
  after_eq h ▸ addBalance a amount w

theorem SparesSlots.of_transfer (h : World.transfer source target amount w = .ok () w') : SparesSlots w w' :=
  after_eq h ▸ transfer source target amount w

theorem SparesSlots.of_commit (h : World.commit w = .ok () w') : SparesSlots w w' :=
  after_eq h ▸ commit w

private theorem Remembers.of_revert (hw : Remembers start w) (h : World.revert w = .ok () w') : Remembers start w' :=
  after_eq h ▸ hw.revert

/-- Accounts stay marked as created where all else is taken back. -/
private theorem isCreated_of_revert (h : World.revert w = .ok () w') (a : Address) :
    w'.isCreated a = w.isCreated a := by
  have he : after World.revert w = w' := after_eq h
  rw [isCreated, isCreated, ← he, after_revert_created]

end World

namespace Machine

variable {f : Fork} {env : Environment} {room : Nat} {start : World} {l l' : Ledger} {s s' : Machine}
  {w₁ w₂ : World} {run : WorldM Frame} {child : Frame}

private theorem Opens.spares {children : Option Children} (h : Opens children s run w₁) : SparesSlots s.world w₁ := by
  cases h with
  | call => exact .refl _
  | create _ _ _ _ hraise => exact .of_incrementNonce hraise

private theorem Opens.settled {children : Option Children} (h : Opens children s run w₁)
    (hc : ∀ c ∈ children, c.Settling env room start) (hw : w₁.WellFormed) (hr : Remembers start w₁)
    (hrun : run w₁ = .ok child w₂) :
    ∃ m : Message, m.destroyed = s.frame.destroyed ∧ m.Settled env room start run w₁ child w₂ := by
  cases h with
  | call hmem => exact ⟨_, rfl, (hc _ hmem).call hw hr hrun⟩
  | create hmem => exact ⟨_, rfl, (hc _ hmem).create hw hr hrun⟩

/-- A child that succeeds adds its writes to those of its parent. -/
private theorem Opens.balances_of_succeeded (hopen : Opens (Children.ofRoom env room) s run w₁)
    (hc : ∀ c ∈ Children.ofRoom env room, c.Settling env room start) (hw : s.world.WellFormed)
    (hs : Remembers start s.world) (hrun : run w₁ = .ok child w₂) (gasLeft : Nat) (hok : child.failure = none) :
    ∃ l, Balances env room start l s ⟨({ s.frame with gasLeft } : Frame).absorb env.rules w₂ child, w₂⟩ := by
  have hw₁ := hopen.advance.evolves.wellFormed hw
  obtain ⟨m, hm, hsettled⟩ := hopen.settled hc hw₁ (hs.spared hopen.spares) hrun
  obtain ⟨l, hsettles, hbooks, htally⟩ := hsettled.ledger hok
  have hgas : s.frame.Tally env.rules [] { s.frame with gasLeft } := .same rfl rfl
  have habsorbed := hgas.trans (htally.absorb (f := { s.frame with gasLeft }) (w := w₂) hm hok)
  exact ⟨l, fun h => h.child gasLeft hopen hrun hok hsettles, hsettled.remembers,
    (Books.spared hopen.spares).trans hbooks, habsorbed⟩

/-- What a child has written that failed is restored, while accounts stay marked as created. -/
private theorem Opens.balances_of_failed (hopen : Opens (Children.ofRoom env room) s run w₁)
    (hc : ∀ c ∈ Children.ofRoom env room, c.Settling env room start) (hw : s.world.WellFormed)
    (hs : Remembers start s.world) (hrun : run w₁ = .ok child w₂) (gasLeft : Nat) (hfailed : child.failure ≠ none) :
    Balances env room start [] s ⟨({ s.frame with gasLeft } : Frame).absorb env.rules w₂ child, w₂⟩ := by
  have hw₁ := hopen.advance.evolves.wellFormed hw
  obtain ⟨m, -, hsettled⟩ := hopen.settled hc hw₁ (hs.spared hopen.spares) hrun
  obtain ⟨msg, hleaves⟩ := hopen.leaves (Children.lawful_ofRoom env room) hrun
  have hstorage : w₂.storage = s.world.storage :=
    (hleaves.restored hw₁ hfailed).storage.trans hopen.spares.storage
  have hcreated (a : Address) (ha : s.world.isCreated a = true) : w₂.isCreated a = true :=
    hsettled.created a (by rwa [World.isCreated, hopen.spares.created])
  refine ⟨fun h => ?_, hsettled.remembers, ?_, .same ?_ ?_⟩
  · rw [List.append_nil]
    exact h.failed gasLeft hopen hrun hfailed
  · exact .quiet hs hsettled.remembers hcreated fun a k _ => World.slot_congr hstorage a k
  · exact Frame.absorb_destroyed_of_failed hfailed
  · rw [Frame.absorb_of_failed hfailed]
    rfl

private theorem Effect.balances (henv : env.rules = Rules.ofFork f)
    (hc : ∀ c ∈ Children.ofRoom env room, c.Settling env room start)
    (h : Effect env.rules (Children.ofRoom env room) s s') (hw : s.world.WellFormed)
    (hs : Remembers start s.world) : ∃ l, Balances env room start l s s' := by
  cases h with
  | frame h => exact ⟨[], .spared hs (.frame h) (.refl _) (.same h.destroyed h.refund)⟩
  | log topics data hstatic => exact ⟨[], .spared hs (.log topics data hstatic) (.refl _) (.same rfl rfl)⟩
  | collide hstatic htaken hraise =>
    exact ⟨[], .spared hs (.collide hstatic htaken hraise) (.of_incrementNonce hraise) (.same rfl rfl)⟩
  | @destroy f w w₁ heir hstatic hgive =>
    have hspared : SparesSlots w (w₁.setBalance f.message.target 0) :=
      (SparesSlots.of_addBalance hgive).trans (.setAccount _ _ w₁)
    exact ⟨[], .spared hs (.destroy heir hstatic hgive) hspared (.destroy ..)⟩
  | @write f w key new hstatic =>
    refine ⟨[w.slotWrite f.message.target key new], fun h => h.write key new, hs.setSlot _ _ _, ?_, ?_⟩
    · rw [henv]
      exact .write _ w _ key new
    · exact .write (w.slotWrite f.message.target key new) f
  | @child _ w₁ w₂ run child gasLeft hopen hrun =>
    by_cases hok : child.failure = none
    · exact hopen.balances_of_succeeded hc hw hs hrun gasLeft hok
    · exact ⟨[], hopen.balances_of_failed hc hw hs hrun gasLeft hok⟩

private theorem Effects.balances (henv : env.rules = Rules.ofFork f)
    (hc : ∀ c ∈ Children.ofRoom env room, c.Settling env room start)
    (h : Effects env.rules (Children.ofRoom env room) s s') (hw : s.world.WellFormed)
    (hs : Remembers start s.world) : ∃ l, Balances env room start l s s' := by
  induction h with
  | refl => exact ⟨[], .refl hs⟩
  | tail hfirst hlast ih =>
    obtain ⟨l, hbalances⟩ := ih
    have hw₁ := (Effects.advance hfirst (Children.lawful_ofRoom env room)).evolves.wellFormed hw
    obtain ⟨l', hbalances'⟩ := hlast.balances henv hc hw₁ hbalances.remembers
    exact ⟨l ++ l', hbalances.trans hbalances'⟩

end Machine

/-! ### Messages -/

namespace Message

variable {f : Fork} {env : Environment} {room : Nat} {start : World} {m : Message} {w w' : World} {frame : Frame}

private theorem enter_spares (h : m.enter w = .ok () w') : SparesSlots w w' := by
  obtain ⟨⟨⟩, w₁, hcheckpoint, h⟩ := World.of_bind_ok h
  cases hcheckpoint
  obtain ⟨⟨⟩, w₂, htouch, h⟩ := World.of_bind_ok h
  cases htouch
  have htouched : SparesSlots w (w.checkpoint.touch m.target) :=
    (SparesSlots.checkpoint w).trans (.touch m.target w.checkpoint)
  split at h
  · exact htouched.trans (.of_transfer h)
  · cases h
    exact htouched

private theorem runCode_balances (henv : env.rules = Rules.ofFork f)
    (hc : ∀ c ∈ Children.ofRoom env room, c.Settling env room start) (hw : w.WellFormed) (hs : Remembers start w)
    (h : m.runCode env (Children.ofRoom env room) w = .ok frame w') :
    ∃ f₁ l, Machine.Balances env room start l ⟨.ofMessage m, w⟩ ⟨f₁, w'⟩ ∧ (frame.failure = none → frame = f₁) := by
  obtain ⟨f₁, heffects, hend⟩ := runCode_effects h
  obtain ⟨l, hbalances⟩ := heffects.balances henv hc hw hs
  refine ⟨f₁, l, hbalances, fun hok => ?_⟩
  rcases hend with rfl | ⟨cause, rfl⟩ | rfl
  · rfl
  · cases hok
  · cases hok

/-- A message that failed counts nothing, and only what is marked as created outlasts it. -/
private theorem Settled.of_revert {run : WorldM Frame} {w₁ : World} (hfailed : frame.failure ≠ none)
    (hs : Remembers start w₁) (hcreated : ∀ a, w.isCreated a = true → w₁.isCreated a = true)
    (h : World.revert w₁ = .ok () w') : m.Settled env room start run w frame w' where
  remembers := hs.of_revert h
  created a ha := by
    rw [World.isCreated_of_revert h]
    exact hcreated a ha
  ledger hok := absurd hok hfailed

private theorem callWith_settled (henv : env.rules = Rules.ofFork f)
    (hc : ∀ c ∈ Children.ofRoom env room, c.Settling env room start) (hw : w.WellFormed) (hs : Remembers start w)
    (h : m.callWith env (Children.ofRoom env room) w = .ok frame w') :
    m.Settled env (room + 1) start (m.call env room) w frame w' := by
  obtain ⟨w₁, w₂, henter, hrun, hend⟩ := callWith_cases h
  have hw₁ := (enter_ok henter).1.wellFormed hw.checkpoint
  have hspared := enter_spares henter
  obtain ⟨f₁, l, hbalances, hsame⟩ := runCode_balances henv hc hw₁ (hs.spared hspared) hrun
  have hopened : Books env.rules l w w₂ := (Books.spared hspared).trans hbalances.books
  rcases hend with ⟨hok, hcommit⟩ | ⟨hfailed, hrevert⟩
  · have hclosed := SparesSlots.of_commit hcommit
    have hbooks := hopened.trans_spared hclosed
    refine ⟨hbalances.remembers.spared hclosed, hbooks.created, fun _ => ⟨l, ?_, hbooks, ?_⟩⟩
    · rw [hsame hok] at hrun
      exact .call henter hrun (hbalances.posts .start)
    · rw [hsame hok]
      exact hbalances.tally
  · exact .of_revert hfailed hbalances.remembers hopened.created hrevert

/-- The place of a new contract is cleared, and counts as created whatever follows. -/
private theorem clear_quiet {rules : Rules} (hs : Remembers start w) (h : m.clear rules w = .ok () w') :
    Remembers start w' ∧ Books rules [] w w' := by
  obtain ⟨⟨⟩, w₁, hcheckpoint, h⟩ := World.of_bind_ok h
  cases hcheckpoint
  obtain ⟨⟨⟩, w₂, hdestroy, h⟩ := World.of_bind_ok h
  cases hdestroy
  obtain ⟨⟨⟩, w₃, hmark, h⟩ := World.of_bind_ok h
  cases hmark
  have hopened := hs.spared (.checkpoint w)
  have hcleared := (hopened.destroyStorage m.target).markCreated m.target
  have hcreated (a : Address) : ((w.checkpoint.destroyStorage m.target).markCreated m.target).isCreated a = true ↔
      m.target = a ∨ w.isCreated a = true := by
    rw [World.isCreated, World.markCreated, World.destroyStorage_created, Std.ExtTreeSet.contains_insert]
    simp [World.isCreated, World.checkpoint]
  have hbooks : Books rules [] w ((w.checkpoint.destroyStorage m.target).markCreated m.target) := by
    refine .quiet hs hcleared (fun a ha => (hcreated a).mpr (.inr ha)) fun a k ha => ?_
    have hne : m.target ≠ a := fun he => by
      rw [(hcreated a).mpr (.inl he)] at ha
      cases ha
    change (w.checkpoint.destroyStorage m.target).slot a k = w.slot a k
    rw [World.slot, World.slots_destroyStorage, if_neg hne]
    rfl
  split at h
  · have hraised := SparesSlots.of_incrementNonce h
    exact ⟨hcleared.spared hraised, hbooks.trans_spared hraised⟩
  · cases h
    exact ⟨hcleared, hbooks⟩

private theorem createWith_settled (henv : env.rules = Rules.ofFork f)
    (hc : ∀ c ∈ Children.ofRoom env room, c.Settling env room start) (hw : w.WellFormed) (hs : Remembers start w)
    (h : m.createWith env (Children.ofRoom env room) w = .ok frame w') :
    m.Settled env (room + 1) start (m.create env room) w frame w' := by
  obtain ⟨w₁, f₁, w₂, hclear, hcall, hend⟩ := createWith_cases h
  obtain ⟨hs₁, hbooks₁⟩ := clear_quiet hs hclear
  have hw₁ := (clear_ok hclear).1.wellFormed hw.checkpoint
  have hsettled := callWith_settled henv hc hw₁ hs₁ hcall
  have hcreated (a : Address) (ha : w.isCreated a = true) : w₂.isCreated a = true :=
    hsettled.created a (hbooks₁.created a ha)
  rcases hend with ⟨hok, hinstall⟩ | ⟨hfailed, rfl, hrevert⟩
  · obtain ⟨l, hsettles, hbooks, htally⟩ := hsettled.ledger hok
    have hinstalled {w₃ : World} (hspared : SparesSlots w₂ w₃) (gasLeft : Nat) :
        m.Settled env (room + 1) start (m.create env room) w
          { f₁ with gasLeft, output := ByteArray.empty } w₃ := by
      have hall : Books env.rules l w w₃ := (hbooks₁.trans hbooks).trans_spared hspared
      have hpaid : Frame.Tally env.rules [] f₁ { f₁ with gasLeft, output := ByteArray.empty } := .same rfl rfl
      have hcounted := htally.trans hpaid
      rw [List.append_nil] at hcounted
      exact ⟨hsettled.remembers.spared hspared, hall.created,
        fun _ => ⟨l, .create hclear hsettles, hall, hcounted⟩⟩
    obtain ⟨gasLeft, -, ⟨-, rfl, hcommit⟩ | ⟨rfl, hcommit⟩ | ⟨cause, rfl, hrevert⟩⟩ := install_ok hinstall
    · exact hinstalled ((SparesSlots.setCode m.target f₁.output w₂).trans (.of_commit hcommit)) gasLeft
    · exact hinstalled (.of_commit hcommit) gasLeft
    · exact .of_revert nofun hsettled.remembers hcreated hrevert
  · exact .of_revert hfailed hsettled.remembers hcreated hrevert

end Message

private theorem Children.settling_ofRoom {f : Fork} {env : Environment} (henv : env.rules = Rules.ofFork f)
    (start : World)
    (room : Nat) : ∀ c ∈ Children.ofRoom env room, c.Settling env room start := by
  induction room with
  | zero => exact fun c hc => nomatch hc
  | succ room ih =>
    rintro c ⟨⟩
    exact ⟨Message.callWith_settled henv ih, Message.createWith_settled henv ih⟩

/-! ### The message of a transaction -/

namespace Message

variable {f : Fork} {env : Environment} {room : Nat} {m : Message} {w w' : World} {o : Outcome} {frame : Frame}

/-- The frame of a transaction's message. -/
def outermost (env : Environment) (room : Nat) (m : Message) : WorldM Frame :=
  if m.isCreation then m.create env room else m.call env room

private theorem ofFrame_refund (h : (Outcome.ofFrame frame).failure = none) :
    frame.failure = none ∧ (Outcome.ofFrame frame).refund = frame.refund.toNat := by
  unfold Outcome.ofFrame at h ⊢
  cases hf : frame.failure with
  | none => exact ⟨rfl, rfl⟩
  | some cause =>
    rw [hf] at h
    cases h

private theorem execute_outermost (h : m.execute env room w = .ok o w') (ho : o.failure = none) :
    ∃ frame, m.outermost env room w = .ok frame w' ∧ frame.failure = none ∧ o.refund = frame.refund.toNat := by
  unfold execute at h
  unfold outermost
  split at h
  · next hcreation =>
    obtain ⟨w₁, w₂, hget, h⟩ := World.of_bind_ok h
    cases hget
    split at h
    · cases h
      cases ho
    · obtain ⟨frame, w₁, hcreate, h⟩ := World.of_bind_ok h
      cases h
      exact ⟨frame, by rwa [if_pos hcreation], ofFrame_refund ho⟩
  · next hcreation =>
    obtain ⟨frame, w₁, hcall, h⟩ := World.of_bind_ok h
    obtain ⟨w₂, w₃, hget, h⟩ := World.of_bind_ok h
    cases hget
    rw [if_neg hcreation]
    split at h
    · cases h
      exact ⟨frame, hcall, @ofFrame_refund { frame with touched := frame.touched.insert m.target } ho⟩
    · cases h
      exact ⟨frame, hcall, ofFrame_refund ho⟩

private theorem outermost_settled {start : World} (henv : env.rules = Rules.ofFork f) (hw : w.WellFormed)
    (hs : Remembers start w) (h : m.outermost env room w = .ok frame w') :
    m.Settled env (room + 1) start (m.outermost env room) w frame w' := by
  have hc := Children.settling_ofRoom henv start room
  unfold outermost at h ⊢
  by_cases hcreation : m.isCreation
  · rw [if_pos hcreation] at h ⊢
    exact createWith_settled henv hc hw hs h
  · rw [if_neg hcreation] at h ⊢
    exact callWith_settled henv hc hw hs h

private theorem outermost_refund_le (henv : env.rules = Rules.ofFork f) (h : m.outermost env room w = .ok frame w')
    (hok : frame.failure = none) : frame.refund ≤ 24000 * (m.gas + 1 : Nat) := by
  have hl := Children.lawful_ofRoom env room
  have hc := Children.thrifty_ofRoom henv room
  have hworth : frame.worth ≤ 24000 * (m.gas + 1) := by
    unfold outermost at h
    split at h
    · exact (thrifty_createWith henv hl hc m).worth h hok
    · exact (thrifty_callWith henv hl hc m).worth h hok
  unfold Frame.worth at hworth
  omega

/-- Whatever the message of a transaction does that succeeds: its refund is just what the writes give back that
last and what the accounts do that were destroyed, and is not below zero, so that nothing is cut off. Each slot of
an account not created since has given back the refund of a clearing at least if it was in use and is clear, and
never took any. A refund that leaves 64 bits on the way is a fault, but 24000 for each unit of gas is the most that
there can be. -/
theorem refund_covers_cleared_slots (henv : env.rules = Rules.ofFork f) (hw : World.Reachable w)
    (h : m.execute env room w.beginTransaction = .ok o w') (ho : o.failure = none) :
    ∃ frame l, m.outermost env room w.beginTransaction = .ok frame w' ∧ frame.failure = none ∧
      Settles env (room + 1) (m.outermost env room) w.beginTransaction l ∧
      frame.refund = l.refund env.rules +
        env.rules.gas.selfdestructRefund * (frame.destroyed.size - m.destroyed.size : Int) ∧
      0 ≤ frame.refund ∧ frame.refund ≤ 24000 * (m.gas + 1 : Nat) ∧ (o.refund : Int) = frame.refund ∧
      ∀ a k, (if w'.initialSlot a k ≠ 0 ∧ w'.slot a k = 0 then (env.rules.gas.sstoreClearRefund : Int) else 0) ≤
          l.refundOf env.rules ⟨a, k⟩ ∧
        (w'.isCreated a = false → w'.initialSlot a k = w.beginTransaction.slot a k) := by
  obtain ⟨frame, hrun, hok, hrefund⟩ := execute_outermost h ho
  have hstart := Remembers.beginTransaction w
  have hsettled := outermost_settled henv hw.wellFormed.beginTransaction hstart hrun
  obtain ⟨l, hsettles, hbooks, htally⟩ := hsettled.ledger hok
  have hcredit (a : Address) (k : Hash) :
      env.rules.credit (w'.initialSlot a k) (w'.slot a k) ≤ l.refundOf env.rules ⟨a, k⟩ := by
    -- at first every slot holds what was found in it, and so has no credit
    have hbooked := hbooks.credit a k
    have hnone : w.beginTransaction.isCreated a = false := Std.ExtTreeSet.contains_empty
    rw [hstart.initialSlot hnone, Rules.credit_self] at hbooked
    omega
  have hwrites : 0 ≤ l.refund env.rules := Ledger.refund_nonneg fun key =>
    Int.le_trans (env.rules.credit_nonneg _ _) (hcredit key.owner key.key)
  have hcounted : frame.refund = l.refund env.rules +
      env.rules.gas.selfdestructRefund * (frame.destroyed.size - m.destroyed.size : Int) := by
    have hsum := htally.refund
    simpa [Frame.ofMessage] using hsum
  have hgrown : (0 : Int) ≤ frame.destroyed.size - m.destroyed.size := by
    have hsize : m.destroyed.size ≤ frame.destroyed.size := htally.size
    omega
  have hnonneg : 0 ≤ frame.refund := by
    rw [hcounted]
    exact Int.add_nonneg hwrites (Int.mul_nonneg (Int.natCast_nonneg _) hgrown)
  have hmost := outermost_refund_le henv hrun hok
  refine ⟨frame, l, hrun, hok, hsettles, hcounted, hnonneg, hmost, ?_, fun a k => ⟨hcredit a k, fun ha => ?_⟩⟩
  · rw [hrefund, Int.toNat_of_nonneg hnonneg]
  · exact hsettled.remembers.initialSlot ha k

/-- An account clears a slot, which another's code fills again that it runs as its own; more code clears a third
slot and reverts, and the account clears a second one, for which it has the refund. -/
theorem refund_covers_cleared_slots_of_child :
    let code : ByteArray := ⟨#[0x60, 0, 0x60, 1, 0x55,
      0x60, 0, 0x60, 0, 0x60, 0, 0x60, 0, 0x60, 0x30, 0x61, 0x75, 0x30, 0xf4,
      0x60, 0, 0x60, 0, 0x60, 0, 0x60, 0, 0x60, 0x40, 0x61, 0x75, 0x30, 0xf4, 0x60, 0, 0x60, 2, 0x55]⟩
    let env : Environment := ⟨Rules.ofFork .berlin, ⟨1, 0, 8000000, 0x99, 0, 1, none, []⟩, ⟨0x77, 1⟩⟩
    let m : Message :=
      { caller := 0x77, isCreation := false, target := 0x10, codeAddress := some 0x10, gas := 100000
        value := 0, data := .empty, code, movesValue := true, isStatic := false, warmAddresses := ∅
        warmSlots := ∅, destroyed := ∅ }
    let w := [World.Operation.setSlot 0x10 1 7, .setSlot 0x10 2 5, .setSlot 0x10 3 6,
      .setCode 0x30 ⟨#[0x60, 9, 0x60, 1, 0x55]⟩,
      .setCode 0x40 ⟨#[0x60, 0, 0x60, 3, 0x55, 0x60, 0, 0x60, 0, 0xfd]⟩].foldl World.Operation.run .empty
    ∃ o w', m.execute env 3 w.beginTransaction = .ok o w' ∧ o.failure = none ∧ o.refund = 15000 ∧
      w'.slot 0x10 1 = 9 ∧ w'.slot 0x10 2 = 0 ∧ w'.slot 0x10 3 = 6 ∧
      ∃ frame l, m.outermost env 3 w.beginTransaction = .ok frame w' ∧ frame.refund = 15000 ∧
        15000 ≤ Ledger.refundOf env.rules l ⟨0x10, 2⟩ ∧ 0 ≤ Ledger.refundOf env.rules l ⟨0x10, 1⟩ := by
  intro code env m w
  have hw : World.Reachable w := World.Reachable.empty.foldl (fun op h => h.run op) _
  have hrun : endsWith (fun o w' => o.failure = none ∧ o.refund = 15000 ∧ w'.slot 0x10 1 = 9 ∧ w'.slot 0x10 2 = 0 ∧
      w'.slot 0x10 3 = 6 ∧ w'.initialSlot 0x10 2 = 5) (m.execute env 3 w.beginTransaction) := by decide +kernel
  obtain ⟨o, w', hr, htest⟩ := exists_of_endsWith hrun
  obtain ⟨ho, hrefund, hfirst, hsecond, hthird, hfound⟩ := of_decide_eq_true htest
  obtain ⟨frame, l, hframe, -, -, -, -, -, hsame, hslots⟩ := refund_covers_cleared_slots rfl hw hr ho
  have hcleared := (hslots 0x10 2).1
  rw [if_pos ⟨by rw [hfound]; decide, hsecond⟩] at hcleared
  have hfilled := (hslots 0x10 1).1
  rw [if_neg fun hclear => absurd (hfirst.symm.trans hclear.2) (by decide)] at hfilled
  exact ⟨o, w', hr, ho, hrefund, hfirst, hsecond, hthird, frame, l, hframe, by rw [← hsame, hrefund]; rfl,
    hcleared, hfilled⟩

end Message

end StateTransition
