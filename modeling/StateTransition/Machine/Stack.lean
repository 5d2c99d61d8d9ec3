import StateTransition.Machine.Failure
import StateTransition.Address

/-! The operand stack of the machine, which holds no more than a fixed number of words. -/
namespace StateTransition

def stackLimit : Nat := 1024

/-- A stack with its top first; its size is at hand. -/
structure Stack where
  items : List Word
  size : Nat
  size_eq : size = items.length
  size_le : size ≤ stackLimit

namespace Stack

def empty : Stack := ⟨[], 0, rfl, by decide⟩

def push (s : Stack) (w : Word) : Except Halt Stack :=
  if h : s.size < stackLimit then .ok ⟨w :: s.items, s.size + 1, by simp [s.size_eq], h⟩
  else .error .stackOverflow

def pop (s : Stack) : Except Halt (Word × Stack) :=
  match s with
  | ⟨[], _, _, _⟩ => .error .stackUnderflow
  | ⟨w :: rest, size, size_eq, size_le⟩ =>
    .ok (w, ⟨rest, size - 1, by simp [size_eq], by omega⟩)

/-- The item with `depth` others above it. -/
def peek (s : Stack) (depth : Nat) : Except Halt Word :=
  match s.items[depth]? with
  | some w => .ok w
  | none => .error .stackUnderflow

/-- Exchanges the top with the item that has `depth` others above it, the top itself excluded. -/
def swap (s : Stack) (depth : Nat) : Except Halt Stack :=
  match s.items[0]?, s.items[depth]? with
  | some top, some other =>
    if depth = 0 then .error .stackUnderflow
    else
      .ok ⟨(s.items.set 0 other).set depth top, s.size, by simp [s.size_eq], s.size_le⟩
  | _, _ => .error .stackUnderflow

/-- Repeats an item, counted from one at the top. -/
def dup (s : Stack) (depth : Nat) : Except Halt Stack :=
  if depth = 0 then .error .stackUnderflow
  else
    match s.items[depth - 1]? with
    | some w => s.push w
    | none => .error .stackUnderflow

end Stack

end StateTransition
