import Mathlib.Logic.Relation
import StateTransition.Proofs.Machine.Child
import StateTransition.Proofs.Machine.Computation

/-! What operations do beside using up gas, stack and memory. Whatever code runs comes to effects of a
few kinds one after another, each under the conditions that are checked before it, and may end in a
fault of a few kinds. -/
namespace StateTransition

/-- What a frame gets back for destroying its account, which it does once. -/
def Frame.destructionRefund (rules : Rules) (f : Frame) : Int :=
  if f.destroyed.contains f.message.target then 0 else rules.gas.selfdestructRefund

namespace Machine

/-- The children that a frame runs, and the world that each begins in. -/
inductive Opens (children : Option Children) : Machine → WorldM Frame → World → Prop
  | call {c : Children} {f : Frame} {w : World} {r : Request} {data : ByteArray} (hc : c ∈ children)
    (hr : r.From f.message w) :
    Opens children ⟨f, w⟩ (c.call (MachineM.callMessage f r data (w.code r.codeAddress))) w
  | create {c : Children} {f : Frame} {w w₁ : World} {contract : Address} {gas : Nat} {value : Word}
    {code : ByteArray} (hc : c ∈ children) (hstatic : f.message.isStatic = false)
    (hvalue : value ≤ w.balance f.message.target) (hfree : w.hasCodeOrNonce contract = false)
    (hraise : World.incrementNonce f.message.target w = .ok () w₁) :
    Opens children ⟨f, w⟩ (c.create (MachineM.creationMessage f contract gas value code)) w₁

/-- One effect on a frame and the world. -/
inductive Effect (rules : Rules) (children : Option Children) : Machine → Machine → Prop
  | frame {f f' : Frame} {w : World} (h : f.Keeps f') : Effect rules children ⟨f, w⟩ ⟨f', w⟩
  | log {f : Frame} {w : World} (topics : List Word) (data : Bytes)
    (hstatic : f.message.isStatic = false) :
    Effect rules children ⟨f, w⟩ ⟨{ f with logs := f.logs ++ [⟨f.message.target, topics, data⟩] }, w⟩
  | write {f : Frame} {w : World} (key : Hash) (new : Word) (hstatic : f.message.isStatic = false) :
    Effect rules children ⟨f, w⟩
      ⟨{ f with
          refund := f.refund + MachineM.writeRefund rules (w.initialSlot f.message.target key)
            (w.slot f.message.target key) new },
        w.setSlot f.message.target key new⟩
  /-- A creation that comes upon a contract. -/
  | collide {f : Frame} {w w' : World} {contract : Address} (hstatic : f.message.isStatic = false)
    (htaken : w.hasCodeOrNonce contract)
    (hraise : World.incrementNonce f.message.target w = .ok () w') :
    Effect rules children ⟨f, w⟩ ⟨f, w'⟩
  | child {m : Machine} {w₁ w₂ : World} {run : WorldM Frame} {child : Frame} (gasLeft : Nat)
    (hopen : Opens children m run w₁) (hrun : run w₁ = .ok child w₂) :
    Effect rules children m ⟨({ m.frame with gasLeft } : Frame).absorb rules w₂ child, w₂⟩
  | destroy {f : Frame} {w w₁ : World} (heir : Address) (hstatic : f.message.isStatic = false)
    (hgive : World.addBalance heir (w.balance f.message.target) w = .ok () w₁) :
    Effect rules children ⟨f, w⟩
      ⟨{ f with
          refund := f.refund + f.destructionRefund rules
          destroyed := f.destroyed.insert f.message.target
          touched :=
            if rules.stateClearing && (w₁.setBalance f.message.target 0).isEmptyAccount heir then
              f.touched.insert heir
            else f.touched },
        w₁.setBalance f.message.target 0⟩

/-- Effects one after another. -/
abbrev Effects (rules : Rules) (children : Option Children) : Machine → Machine → Prop :=
  Relation.ReflTransGen (Effect rules children)

/-- How an operation ends the whole transaction, and the world that it leaves. -/
inductive Fault (children : Option Children) : Machine → WorldError → World → Prop
  | overflow {cause : WorldError} (m : Machine) (hcause : cause.isOverflow) : Fault children m cause m.world
  /-- What a child leaves does not fit what its parent has. -/
  | childOverflow {m : Machine} {w₁ w₂ : World} {run : WorldM Frame} {child : Frame} {cause : WorldError}
    (hcause : cause.isOverflow) (hopen : Opens children m run w₁) (hrun : run w₁ = .ok child w₂) :
    Fault children m cause w₂
  | child {m : Machine} {w₁ w₂ : World} {run : WorldM Frame} {cause : WorldError}
    (hopen : Opens children m run w₁) (hrun : run w₁ = .error cause w₂) : Fault children m cause w₂
  | heir {f : Frame} {w w₁ : World} {cause : WorldError} (heir : Address)
    (hgive : World.addBalance heir (w.balance f.message.target) w = .error cause w₁) :
    Fault children ⟨f, w⟩ cause w₁

private theorem Effect.message {rules : Rules} {children : Option Children} {m m' : Machine}
    (h : Effect rules children m m') : m'.frame.message = m.frame.message := by
  cases h with
  | frame h => exact h.message
  | child gasLeft hopen hrun => exact Frame.absorb_message ..
  | log | write | collide | destroy => rfl

theorem Effects.message {rules : Rules} {children : Option Children} {m m' : Machine}
    (h : Effects rules children m m') : m'.frame.message = m.frame.message := by
  induction h with
  | refl => rfl
  | tail _ hlast ih => exact hlast.message.trans ih

end Machine

namespace MachineM

open Machine

variable {α β : Type} {rules : Rules} {children : Option Children} {msg : Message} {m m₁ m' : Machine}
  {P : α → Prop} {Q : β → Prop}

/-- What has come to pass since a machine when a computation ends. -/
def Follows (rules : Rules) (children : Option Children) (m : Machine) (P : α → Prop) :
    EStateM.Result Stop Machine α → Prop
  | .ok a m' => Effects rules children m m' ∧ P a
  | .error (.failure _) m' => Effects rules children m m'
  | .error (.fault cause) m' => ∃ m₁, Effects rules children m m₁ ∧ Fault children m₁ cause m'.world

/-- A computation that comes to nothing but effects, or a fault after some, in frames with a message. -/
def Does (rules : Rules) (children : Option Children) (msg : Message) (P : α → Prop) (x : MachineM α) :
    Prop :=
  ∀ m, m.frame.message = msg → Follows rules children m P (x m)

namespace Follows

theorem after {r : EStateM.Result Stop Machine α} (h : Effects rules children m m₁)
    (hr : Follows rules children m₁ P r) : Follows rules children m P r := by
  match r, hr with
  | .ok a m', ⟨hr, ha⟩ => exact ⟨h.trans hr, ha⟩
  | .error (.failure _) m', hr => exact h.trans hr
  | .error (.fault _) m', ⟨m₂, hr, hfault⟩ => exact ⟨m₂, h.trans hr, hfault⟩

theorem bind {x : MachineM α} {f : α → MachineM β} (hm : m.frame.message = msg)
    (hx : Follows rules children m P (x m₁)) (hf : ∀ a, P a → Does rules children msg Q (f a)) :
    Follows rules children m Q ((x >>= f) m₁) := by
  match hr : x m₁ with
  | .ok a m' =>
    rw [hr] at hx
    rw [bind_of_ok hr]
    exact after hx.1 (hf a hx.2 m' (hx.1.message.trans hm))
  | .error (.failure cause) m' =>
    rw [hr] at hx
    rw [bind_of_error hr]
    exact hx
  | .error (.fault cause) m' =>
    rw [hr] at hx
    rw [bind_of_error hr]
    exact hx

end Follows

namespace Does

theorem pure {a : α} (h : P a) : Does rules children msg P (pure a) := fun _ _ => ⟨.refl, h⟩

theorem bind {x : MachineM α} {f : α → MachineM β} (hx : Does rules children msg P x)
    (hf : ∀ a, P a → Does rules children msg Q (f a)) : Does rules children msg Q (x >>= f) :=
  fun m hm => (hx m hm).bind hm hf

/-- Where nothing is asked of the result. -/
theorem next {x : MachineM α} {f : α → MachineM β} (hx : Does rules children msg (fun _ => True) x)
    (hf : ∀ a, Does rules children msg Q (f a)) : Does rules children msg Q (x >>= f) :=
  hx.bind fun a _ => hf a

theorem ite {c : Prop} [Decidable c] {x y : MachineM α} (hx : c → Does rules children msg P x)
    (hy : ¬ c → Does rules children msg P y) : Does rules children msg P (if c then x else y) := by
  split
  · next h => exact hx h
  · next h => exact hy h

end Does

end MachineM

end StateTransition
