/-! # Scopes

The bindings in force while lambdas are applied: one stack of bindings, the
newest first, with a mark for every open frame.

- `push`, `pop` — open a frame, close the innermost one; closing with no frame
  open changes nothing.
- `get?` — the newest binding of a key, so that inner frames shadow outer ones.
-/

namespace Recast

structure Scope (κ ν : Type) where
  bindings : List (κ × ν) := []
  /-- How many bindings there were when each open frame was opened, innermost first. -/
  marks : List Nat := []

namespace Scope

variable {κ ν : Type}

def empty : Scope κ ν := {}

def push (s : Scope κ ν) (frame : List (κ × ν)) : Scope κ ν :=
  { bindings := frame.reverse ++ s.bindings, marks := s.bindings.length :: s.marks }

def pop (s : Scope κ ν) : Scope κ ν :=
  match s.marks with
  | [] => s
  | mark :: marks => { bindings := s.bindings.drop (s.bindings.length - mark), marks := marks }

def depth (s : Scope κ ν) : Nat := s.marks.length

def get? [BEq κ] (s : Scope κ ν) (key : κ) : Option ν :=
  (s.bindings.find? (·.1 == key)).map (·.2)

/-- Opening a frame and closing it again changes nothing. -/
@[simp] theorem pop_push (s : Scope κ ν) (frame : List (κ × ν)) : (s.push frame).pop = s := by
  cases s
  simp [push, pop]

@[simp] theorem depth_push (s : Scope κ ν) (frame : List (κ × ν)) :
    (s.push frame).depth = s.depth + 1 := rfl

end Scope

end Recast
