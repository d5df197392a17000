import Abacus.Slots

/-!
Control frames, one for each open block, and the stack that holds them. The stack counts its
frames; past its limit a push still happens, and the stack is then overfull.
-/

namespace Abacus

/-- A loop remembers its `while` and the variable it tests; a chain of branches remembers
whether one of them was taken. -/
inductive Frame where
  | loop (returnTo : Nat) (slot : Slot)
  | chain (resolved : Bool)
deriving DecidableEq

/-- A stack of frames, the innermost first. -/
structure Stack where
  frames : List Frame := []
  depth : Nat := 0
  depth_eq : frames.length = depth := by rfl

namespace Stack

def limit : Nat := 65535

def empty : Stack := {}

def isEmpty (stack : Stack) : Bool := stack.frames.isEmpty

def push (stack : Stack) (frame : Frame) : Stack where
  frames := frame :: stack.frames
  depth := stack.depth + 1
  depth_eq := by simp [stack.depth_eq]

def top? (stack : Stack) : Option Frame := stack.frames.head?

def pop (stack : Stack) : Stack where
  frames := stack.frames.tail
  depth := stack.depth - 1
  depth_eq := by simp [stack.depth_eq]

/-- Puts a frame in place of the top one; an empty stack stays empty. -/
def replaceTop (stack : Stack) (frame : Frame) : Stack :=
  if stack.isEmpty then stack else stack.pop.push frame

def overfull (stack : Stack) : Bool := limit < stack.depth

def overflow (place : Fault.Place) : Fault := ⟨.outOfMemory, place, .nestingTooDeep⟩

@[ext] theorem ext {left right : Stack} (same : left.frames = right.frames) : left = right := by
  obtain ⟨frames, depth, depth_eq⟩ := left
  obtain ⟨others, size, size_eq⟩ := right
  subst same depth_eq size_eq
  rfl

@[simp] theorem frames_push (stack : Stack) (frame : Frame) :
    (stack.push frame).frames = frame :: stack.frames := rfl

@[simp] theorem frames_pop (stack : Stack) : stack.pop.frames = stack.frames.tail := rfl

@[simp] theorem pop_push (stack : Stack) (frame : Frame) : (stack.push frame).pop = stack := by
  ext1
  simp

theorem frames_of_top? {stack : Stack} {frame : Frame} (top : stack.top? = some frame) :
    stack.frames = frame :: stack.pop.frames := by
  obtain ⟨rest, shape⟩ := List.head?_eq_some_iff.1 top
  simp [shape]

theorem frames_replaceTop {stack : Stack} {top : Frame} (found : stack.top? = some top)
    (frame : Frame) : (stack.replaceTop frame).frames = frame :: stack.pop.frames := by
  obtain ⟨rest, shape⟩ := List.head?_eq_some_iff.1 found
  simp [replaceTop, isEmpty, shape]

theorem overfull_iff {stack : Stack} : stack.overfull = true ↔ limit < stack.frames.length := by
  simp [overfull, stack.depth_eq]

end Stack

end Abacus
