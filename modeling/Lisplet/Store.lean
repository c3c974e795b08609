/-
# Stores of frames

A frame holds bindings and the number of the frame around it, if there is one.
A store holds all frames that were ever created, in order; frames are only
added, and a frame is made around an older one, so the frames around a frame
form a chain of falling numbers (`Store.chain`).  A symbol means what the
nearest frame of the chain that binds it binds it to.
-/

import Lisplet.Bindings
import Lisplet.Value.Text

namespace Lisplet

/-- Bindings and the frame around them. -/
structure Frame where
  /-- What the frame itself binds. -/
  bindings : Bindings
  /-- The frame around this one. -/
  outer : Option FrameId

/-- All frames, in the order of their creation. -/
structure Store where
  /-- The frames; the place of a frame is its number. -/
  frames : Array Frame

namespace Store

/-- No frames. -/
def empty : Store := ⟨#[]⟩

/-- The frame of a number. -/
def frame? (s : Store) (f : FrameId) : Option Frame := s.frames[f]?

/-- The number of the next frame. -/
def next (s : Store) : FrameId := s.frames.size

/-- The store with one more frame. -/
def push (s : Store) (frame : Frame) : Store := ⟨s.frames.push frame⟩

/-- The bindings of a frame; a frame that does not exist binds nothing. -/
def bindings (s : Store) (f : FrameId) : Bindings :=
  match s.frame? f with
  | some frame => frame.bindings
  | none => .empty

/-- The frame around a frame. -/
def outer? (s : Store) (f : FrameId) : Option FrameId := (s.frame? f).bind Frame.outer

/-- The store with a symbol bound in a frame. -/
def define (s : Store) (f : FrameId) (x : Symbol) (v : Value) : Store :=
  ⟨s.frames.modify f fun frame => { frame with bindings := frame.bindings.insert x v }⟩

/-- The first `fuel` frames of the chain of a frame, the innermost first. -/
def chainFrom (s : Store) : Nat → FrameId → List FrameId
  | 0, _ => []
  | fuel + 1, f =>
    match s.frame? f with
    | none => []
    | some frame =>
      f :: match frame.outer with
        | none => []
        | some g => chainFrom s fuel g

/-- A frame and the frames around it, the innermost first.  Since numbers fall
along the way, a frame has at most as many frames around it as its number says. -/
def chain (s : Store) (f : FrameId) : List FrameId := s.chainFrom (f + 1) f

/-- The nearest frame of a chain that binds a symbol. -/
def find? (s : Store) (f : FrameId) (x : Symbol) : Option FrameId :=
  (s.chain f).find? fun g => (s.bindings g).binds x

/-- The value of a symbol in a frame. -/
def lookup? (s : Store) (f : FrameId) (x : Symbol) : Option Value :=
  (s.find? f x).bind fun g => (s.bindings g).get? x

/-- Whether a name is visible in a frame; only symbols are. -/
def contains (s : Store) (f : FrameId) (name : Value) : Bool :=
  match name.symbol? with
  | some x => (s.find? f x).isSome
  | none => false

/-- How many frames there are around a frame. -/
def depth (s : Store) (f : FrameId) : Nat := (s.chain f).length - 1

@[simp] theorem next_push (s : Store) (frame : Frame) : (s.push frame).next = s.next + 1 := by
  simp [next, push]

@[simp] theorem next_define (s : Store) (f : FrameId) (x : Symbol) (v : Value) :
    (s.define f x v).next = s.next := by
  simp [next, define]

@[simp] theorem frame?_push_next (s : Store) (frame : Frame) :
    (s.push frame).frame? s.next = some frame := by
  simp [frame?, push, next]

/-- A new frame changes no old one. -/
theorem frame?_push_of_lt {s : Store} {frame : Frame} {f : FrameId} (h : f < s.next) :
    (s.push frame).frame? f = s.frame? f := by
  have hne : f ≠ s.frames.size := Nat.ne_of_lt h
  simp [frame?, push, Array.getElem?_push, hne]

/-- The frames that exist are those with numbers below the next one. -/
theorem frame?_isSome_iff {s : Store} {f : FrameId} : (s.frame? f).isSome = true ↔ f < s.next := by
  simp [frame?, next]

theorem frame?_eq_none {s : Store} {f : FrameId} (h : s.next ≤ f) : s.frame? f = none :=
  Option.not_isSome_iff_eq_none.1 fun hf => Nat.not_lt.2 h (frame?_isSome_iff.1 hf)

/-- A definition adds to the bindings of its own frame. -/
theorem frame?_define (s : Store) (f g : FrameId) (x : Symbol) (v : Value) :
    (s.define f x v).frame? g =
      if g = f then (s.frame? g).map fun frame =>
        { frame with bindings := frame.bindings.insert x v }
      else s.frame? g := by
  simp only [frame?, define, Array.getElem?_modify]
  by_cases hfg : f = g
  · simp [hfg]
  · simp [hfg, Ne.symm hfg]

/-- A definition changes the bindings of its own frame alone. -/
theorem bindings_define (s : Store) (f g : FrameId) (x : Symbol) (v : Value) :
    (s.define f x v).bindings g =
      if g = f ∧ f < s.next then (s.bindings f).insert x v else s.bindings g := by
  simp only [bindings, define, frame?, next, Array.getElem?_modify]
  by_cases hfg : f = g
  · subst hfg
    by_cases hlt : f < s.frames.size
    · simp [hlt]
    · simp [hlt]
  · simp [hfg, Ne.symm hfg]

/-- A definition moves no frame. -/
theorem outer?_define (s : Store) (f g : FrameId) (x : Symbol) (v : Value) :
    (s.define f x v).outer? g = s.outer? g := by
  simp only [outer?, define, frame?, Array.getElem?_modify]
  by_cases hfg : f = g
  · simp [hfg]
    cases s.frames[g]? <;> rfl
  · simp [hfg]

theorem chainFrom_define (s : Store) (g : FrameId) (x : Symbol) (v : Value) (n : Nat)
    (f : FrameId) : (s.define g x v).chainFrom n f = s.chainFrom n f := by
  induction n generalizing f with
  | zero => rfl
  | succ n ih =>
    rw [chainFrom, chainFrom, frame?_define]
    rcases s.frame? f with _ | frame
    · rw [Option.map_none, ite_self]
    · by_cases hfg : f = g
      · simp only [if_pos hfg, Option.map_some, ih]
      · simp only [if_neg hfg, ih]

/-- A definition changes no chain. -/
theorem chain_define (s : Store) (g : FrameId) (x : Symbol) (v : Value) (f : FrameId) :
    (s.define g x v).chain f = s.chain f := chainFrom_define ..

/-- A new frame has its own bindings, the old ones keep theirs. -/
theorem bindings_push (s : Store) (frame : Frame) (g : FrameId) :
    (s.push frame).bindings g = if g = s.next then frame.bindings else s.bindings g := by
  simp only [bindings, frame?, push, next, Array.getElem?_push]
  by_cases hg : g = s.frames.size
  · simp [hg]
  · simp [hg]

/-- A new frame moves no old one. -/
theorem outer?_push (s : Store) (frame : Frame) (g : FrameId) :
    (s.push frame).outer? g = if g = s.next then frame.outer else s.outer? g := by
  simp only [outer?, frame?, push, next, Array.getElem?_push]
  by_cases hg : g = s.frames.size
  · simp [hg]
  · simp [hg]

/-- The text of the bindings of a frame. -/
def bindingsText (b : Bindings) : String :=
  let entryText (entry : Symbol × Value) : String := entry.1.name ++ ": " ++ entry.2.inspect
  "\x7b" ++ String.intercalate ", " (b.entries.map entryText) ++ "\x7d"

/-- The text of a frame: its bindings, and a hint if there is a frame around it. -/
def frameText (s : Store) (f : FrameId) : String :=
  bindingsText (s.bindings f) ++ if (s.outer? f).isSome then " -> ..." else ""

/-- The text of a frame with all frames around it. -/
def chainText (s : Store) (f : FrameId) : String :=
  let frames := (s.chain f).map fun g => bindingsText (s.bindings g)
  "<Environment chain: " ++ String.intercalate " -> " frames ++ ">"

end Store
end Lisplet
