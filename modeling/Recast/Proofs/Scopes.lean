import Mathlib.Data.List.Induction
import Recast.Proofs.EvalDepth

/-! # Nested scopes

The bindings of all open frames are kept as one stack with a mark for each frame.  What a
reader of it sees is a list of frames, the innermost first: a key has the value that was
bound last in the innermost frame with a binding of it.

- `Frames` — the open frames one by one.
- `Frames.toScope` — the stack that holds them.
- `ScopeCall` — opening, closing and reading, and what each answers.
- `Scope.answers_nested` — the stack answers any calls as the frames do, and an evaluation
  gives it back as it was.
-/

namespace Recast

/-- The open frames, the innermost first, each with its bindings as they were made. -/
abbrev Frames (κ ν : Type) := List (List (κ × ν))

/-- Opening a frame, closing the innermost one, and reading a key. -/
inductive ScopeCall (κ ν : Type) where
  | push (frame : List (κ × ν))
  | pop
  | get (key : κ)

variable {κ ν : Type}

section Calls

variable [BEq κ]

/-! ## §1  Frames -/

namespace Frames

/-- The last binding of a key in a frame. -/
def lastOf? (key : κ) (frame : List (κ × ν)) : Option ν :=
  frame.foldl (fun found b => if b.1 == key then some b.2 else found) none

/-- A key in the innermost frame that binds it. -/
def get? (key : κ) : Frames κ ν → Option ν
  | [] => none
  | frame :: frames => (lastOf? key frame).or (get? key frames)

/-- The frames after a call, and what was read. -/
def perform (frames : Frames κ ν) : ScopeCall κ ν → Frames κ ν × Option ν
  | .push frame => (frame :: frames, none)
  | .pop => (frames.tail, none)
  | .get key => (frames, get? key frames)

/-- How many frames are open after each call, and what it read. -/
def answers (frames : Frames κ ν) : List (ScopeCall κ ν) → List (Nat × Option ν)
  | [] => []
  | call :: calls =>
    let (frames, read) := frames.perform call
    (frames.length, read) :: answers frames calls

end Frames

/-! ## §2  The stack -/

namespace Scope

/-- The stack after a call, and what was read. -/
def perform (s : Scope κ ν) : ScopeCall κ ν → Scope κ ν × Option ν
  | .push frame => (s.push frame, none)
  | .pop => (s.pop, none)
  | .get key => (s, s.get? key)

/-- The depth after each call, and what it read. -/
def answers (s : Scope κ ν) : List (ScopeCall κ ν) → List (Nat × Option ν)
  | [] => []
  | call :: calls =>
    let (s, read) := s.perform call
    (s.depth, read) :: answers s calls

end Scope

end Calls

namespace Frames

/-- The stack that opening the frames leads to. -/
def toScope : Frames κ ν → Scope κ ν
  | [] => .empty
  | frame :: frames => (toScope frames).push frame

theorem depth_toScope (frames : Frames κ ν) : (toScope frames).depth = frames.length := by
  induction frames with
  | nil => rfl
  | cons frame frames ih => rw [toScope, Scope.depth_push, ih, List.length_cons]

variable [BEq κ] {key : κ}

/-- The first binding of a key in a frame that is read backwards is the last one. -/
theorem find?_reverse_eq_lastOf? (frame : List (κ × ν)) :
    (frame.reverse.find? (·.1 == key)).map (·.2) = lastOf? key frame := by
  induction frame using List.reverseRecOn with
  | nil => rfl
  | append_singleton frame b ih =>
      rw [lastOf?, List.foldl_append, ← lastOf?, ← ih, List.reverse_append,
        List.reverse_singleton, List.singleton_append, List.find?_cons]
      by_cases hkey : b.1 == key <;> simp [hkey]

theorem get?_push (s : Scope κ ν) (frame : List (κ × ν)) :
    (s.push frame).get? key = (lastOf? key frame).or (s.get? key) := by
  rw [← find?_reverse_eq_lastOf?, Scope.get?, Scope.push, List.find?_append, Option.map_or]
  rfl

theorem get?_toScope (frames : Frames κ ν) : (toScope frames).get? key = get? key frames := by
  induction frames with
  | nil => rfl
  | cons frame frames ih => rw [toScope, get?_push, ih, get?]

/-- A call does to the stack what it does to the frames, and reads the same. -/
theorem perform_toScope (frames : Frames κ ν) (call : ScopeCall κ ν) :
    (toScope frames).perform call =
      (toScope (frames.perform call).1, (frames.perform call).2) := by
  cases call with
  | push frame => rfl
  | pop =>
      cases frames with
      | nil => rfl
      | cons frame frames =>
          rw [toScope, Scope.perform, Scope.pop_push]
          rfl
  | get key => rw [Scope.perform, get?_toScope, perform]

theorem answers_toScope (calls : List (ScopeCall κ ν)) :
    ∀ frames : Frames κ ν, (toScope frames).answers calls = frames.answers calls := by
  induction calls with
  | nil => exact fun _ => rfl
  | cons call calls ih =>
      intro frames
      rw [Scope.answers, answers, perform_toScope]
      dsimp only
      rw [depth_toScope, ih]

end Frames

/-! ## §3  Evaluation -/

/-- **One stack stands for nested scopes.**  Whatever is called on an empty stack, each call reads
what it reads in the frames that are open, and the depth is their number.  An evaluation that
follows to any depth leaves the stack as it found it, whether it succeeds or not, and so does
applying a lambda. -/
theorem Scope.answers_nested :
    (∀ {κ ν : Type} [BEq κ] (calls : List (ScopeCall κ ν)),
      (Scope.empty : Scope κ ν).answers calls = Frames.answers [] calls) ∧
    ∀ (r : Registry) (n : Nat) (env : Env),
      (∀ e, ((r.eval n e).run env).2 = env) ∧
      ∀ lambda args, ((applyLambda (r.eval n) lambda args).run env).2 = env := by
  refine ⟨fun calls => Frames.answers_toScope calls [], fun r n env => ⟨fun e => ?_, ?_⟩⟩
  · exact (r.eval_deepens (Nat.le_refl n) e).restores env
  · intro lambda args
    exact (applyLambda_deepens (r.eval_deepens (Nat.le_refl n)) lambda args).restores env

end Recast
