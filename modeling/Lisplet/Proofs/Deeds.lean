/-
# What evaluation does to a store

Without host functions an evaluation does two things to a store: a definition binds a
symbol in the frame of the evaluation, and a lambda that gets as many arguments as it has
parameters gets a new frame, in which its body goes on doing such things.  A `Deed` is one
of these, with all that its body did inside of it, so that what an evaluation does is a row
of trees.

A row of deeds can be done again on a store (`Deed.replayAll`), and it has the events that
a machine records (`Deed.rowEvents`).  The lemmas here tie the two: of the frames that
existed before, the row changes the frame of the evaluation alone, by the bindings at the
top of its trees (`Deed.frame?_replayAll`), and these are what is recorded if that frame
has no outer one (`Deed.defined?_rowEvents`); and the new frames are, in order, those of
the recorded calls (`Deed.next_replayAll`, `Deed.isFrameOf_replayAll`).
-/

import Mathlib.Data.List.Basic
import Lisplet.Machine

namespace Lisplet

/-- Something that is done to a store. -/
inductive Deed where
  /-- A definition binds a symbol in the frame of the evaluation. -/
  | bound (x : Symbol) (v : Value)
  /-- A lambda is applied to as many arguments as it has parameters, and then its body does
  the deeds `inner` in the new frame. -/
  | applied (formals : List Symbol) (body : Value) (captured : FrameId) (args : List Value)
    (fits : args.length = formals.length) (inner : List Deed)

namespace Event

/-- The form that an event says was started. -/
def started? : Event → Option Value
  | .started form => some form
  | _ => none

/-- The symbol that an event says was bound. -/
def defined? : Event → Option Symbol
  | .defined x => some x
  | _ => none

/-- The parameters and the arguments of the call that an event tells of. -/
def call? : Event → Option (List Symbol × List Value)
  | .applied formals _ args => some (formals, args)
  | _ => none

end Event

namespace Deed

mutual

/-- The events of a deed; a binding has one only in a root, a frame that has no outer one,
and the frame of a call is none. -/
def events : Bool → Deed → List Event
  | root, .bound x _ => if root then [.defined x] else []
  | _, .applied formals body _ args _ inner => .applied formals body args :: rowEvents false inner

/-- The events of a row of deeds. -/
def rowEvents : Bool → List Deed → List Event
  | _, [] => []
  | root, d :: ds => d.events root ++ rowEvents root ds

end

mutual

/-- Does a deed in a frame. -/
def replay : FrameId → Deed → Store → Store
  | f, .bound x v, s => s.define f x v
  | _, .applied formals _ captured args _ inner, s =>
    replayAll s.next inner (s.push ⟨Bindings.empty.insertAll (formals.zip args), some captured⟩)

/-- Does a row of deeds in a frame, one after another. -/
def replayAll : FrameId → List Deed → Store → Store
  | _, [], s => s
  | f, d :: ds, s => replayAll f ds (d.replay f s)

end

/-- The binding that a deed makes in the frame of the evaluation. -/
def binding? : Deed → Option (Symbol × Value)
  | .bound x v => some (x, v)
  | .applied .. => none

/-- The bindings that a row of deeds makes in the frame of the evaluation. -/
def made (ds : List Deed) : List (Symbol × Value) := ds.filterMap binding?

variable {f g : FrameId} {s : Store} {root : Bool}

theorem rowEvents_append (root : Bool) (ds es : List Deed) :
    rowEvents root (ds ++ es) = rowEvents root ds ++ rowEvents root es := by
  induction ds with
  | nil => rfl
  | cons d ds ih => rw [List.cons_append, rowEvents, rowEvents, ih, List.append_assoc]

theorem replayAll_append (f : FrameId) (ds es : List Deed) : ∀ s,
    replayAll f (ds ++ es) s = replayAll f es (replayAll f ds s) := by
  induction ds with
  | nil => exact fun _ => rfl
  | cons d ds ih => exact fun s => ih (d.replay f s)

/-! ### Which events there are -/

mutual

/-- No deed starts a form of a text. -/
theorem started?_events : ∀ (root : Bool) (d : Deed),
    (d.events root).filterMap Event.started? = []
  | true, .bound _ _ | false, .bound _ _ => rfl
  | _, .applied _ _ _ _ _ inner => started?_rowEvents false inner

theorem started?_rowEvents : ∀ (root : Bool) (ds : List Deed),
    (rowEvents root ds).filterMap Event.started? = []
  | _, [] => rfl
  | root, d :: ds => by
    rw [rowEvents, List.filterMap_append, started?_events root d, started?_rowEvents root ds,
      List.append_nil]

end

mutual

/-- Bindings are recorded in a root alone, and those of a call in no case. -/
theorem defined?_events : ∀ (root : Bool) (d : Deed),
    (d.events root).filterMap Event.defined? =
      if root then d.binding?.toList.map Prod.fst else []
  | true, .bound _ _ | false, .bound _ _ => rfl
  | root, .applied _ _ _ _ _ inner => by
    have hinner := defined?_rowEvents false inner
    simpa [events, Event.defined?, binding?] using hinner

theorem defined?_rowEvents : ∀ (root : Bool) (ds : List Deed),
    (rowEvents root ds).filterMap Event.defined? = if root then (made ds).map Prod.fst else []
  | root, [] => by cases root <;> rfl
  | root, d :: ds => by
    have hd := defined?_events root d
    have hds := defined?_rowEvents root ds
    rw [rowEvents, List.filterMap_append, hd, hds]
    cases root with
    | false => rfl
    | true => cases d <;> rfl

end

/-! ### Calls -/

mutual

/-- The calls that are recorded had as many arguments as parameters. -/
theorem length_of_call?_events : ∀ (root : Bool) (d : Deed),
    ∀ call ∈ (d.events root).filterMap Event.call?, call.2.length = call.1.length
  | true, .bound _ _ | false, .bound _ _ => nofun
  | _, .applied _ _ _ _ fits inner =>
    List.forall_mem_cons.2 ⟨fits, length_of_call?_rowEvents false inner⟩

theorem length_of_call?_rowEvents : ∀ (root : Bool) (ds : List Deed),
    ∀ call ∈ (rowEvents root ds).filterMap Event.call?, call.2.length = call.1.length
  | _, [] => nofun
  | root, d :: ds => by
    rw [rowEvents, List.filterMap_append]
    exact List.forall_mem_append.2
      ⟨length_of_call?_events root d, length_of_call?_rowEvents root ds⟩

end

mutual

/-- A deed makes as many frames as calls are recorded of it. -/
theorem next_replay : ∀ (root : Bool) (f : FrameId) (d : Deed) (s : Store),
    (d.replay f s).next = s.next + ((d.events root).filterMap Event.call?).length
  | true, f, .bound x v, s | false, f, .bound x v, s => Store.next_define s f x v
  | _, _, .applied _ _ _ _ _ inner, s => by
    rw [replay, next_replayAll false, Store.next_push, Nat.add_right_comm]
    rfl

theorem next_replayAll : ∀ (root : Bool) (f : FrameId) (ds : List Deed) (s : Store),
    (replayAll f ds s).next = s.next + ((rowEvents root ds).filterMap Event.call?).length
  | _, _, [], _ => rfl
  | root, f, d :: ds, s => by
    have hd := next_replay root f d s
    have hds := next_replayAll root f ds (d.replay f s)
    rw [replayAll, hds, hd, rowEvents, List.filterMap_append, List.length_append, Nat.add_assoc]

end

theorem next_le_replay (f : FrameId) (d : Deed) (s : Store) : s.next ≤ (d.replay f s).next := by
  rw [next_replay false]
  exact Nat.le_add_right _ _

theorem next_le_replayAll (f : FrameId) (ds : List Deed) (s : Store) :
    s.next ≤ (replayAll f ds s).next := by
  rw [next_replayAll false]
  exact Nat.le_add_right _ _

/-! ### Frames that existed before -/

mutual

/-- Of the frames that existed before, a deed changes the frame of the evaluation alone. -/
theorem frame?_replay : ∀ {f g : FrameId} {s : Store} (d : Deed), g < s.next →
    (d.replay f s).frame? g = if g = f then (s.frame? g).map fun frame =>
      { frame with bindings := frame.bindings.insertAll d.binding?.toList } else s.frame? g
  | f, g, s, .bound x v, _ => Store.frame?_define s f g x v
  | f, g, s, .applied _ _ _ _ _ inner, hg => by
    -- the body works in the new frame, which is no earlier one
    have hlt : g < s.next + 1 := Nat.lt_succ_of_lt hg
    rw [replay, frame?_replayAll inner (by rwa [Store.next_push]), if_neg (Nat.ne_of_lt hg),
      Store.frame?_push_of_lt hg]
    simp [binding?, Bindings.insertAll]

theorem frame?_replayAll : ∀ {f g : FrameId} {s : Store} (ds : List Deed), g < s.next →
    (replayAll f ds s).frame? g = if g = f then (s.frame? g).map fun frame =>
      { frame with bindings := frame.bindings.insertAll (made ds) } else s.frame? g
  | f, g, s, [], _ => by simp [replayAll, made, Bindings.insertAll]
  | f, g, s, d :: ds, hg => by
    have hd := frame?_replay (f := f) d hg
    have hds := frame?_replayAll (f := f) ds (Nat.lt_of_lt_of_le hg (next_le_replay f d s))
    rw [replayAll, hds, hd]
    by_cases hgf : g = f
    · simp only [if_pos hgf, Option.map_map]
      congr 1
      funext frame
      cases d <;> simp [made, binding?, Bindings.insertAll, List.filterMap_cons]
    · simp only [if_neg hgf]

end

theorem outer?_replayAll (f : FrameId) (ds : List Deed) (hg : g < s.next) :
    (replayAll f ds s).outer? g = s.outer? g := by
  rw [Store.outer?, Store.outer?, frame?_replayAll ds hg]
  split
  · cases s.frame? g <;> rfl
  · rfl

/-- The frame of the evaluation gets the bindings of the row, one after another. -/
theorem bindings_replayAll (ds : List Deed) (hf : f < s.next) :
    (replayAll f ds s).bindings f = (s.bindings f).insertAll (made ds) := by
  obtain ⟨frame, hframe⟩ := Option.isSome_iff_exists.1 (Store.frame?_isSome_iff.2 hf)
  rw [Store.bindings, Store.bindings, frame?_replayAll ds hf, if_pos rfl, hframe]
  rfl

/-! ### New frames -/

/-- A frame was made for a call: it lies inside another one, it binds the parameters to the
arguments, and later definitions went on from there. -/
def IsFrameOf (call : List Symbol × List Value) (s : Store) (g : FrameId) : Prop :=
  ∃ captured later, s.frame? g =
    some ⟨(Bindings.empty.insertAll (call.1.zip call.2)).insertAll later, some captured⟩

theorem isFrameOf_push (formals : List Symbol) (args : List Value) (captured : FrameId)
    (s : Store) :
    IsFrameOf (formals, args)
      (s.push ⟨Bindings.empty.insertAll (formals.zip args), some captured⟩) s.next :=
  ⟨captured, [], Store.frame?_push_next ..⟩

/-- A frame of a call stays one. -/
theorem IsFrameOf.replayAll {call : List Symbol × List Value} (h : IsFrameOf call s g)
    (f : FrameId) (ds : List Deed) : IsFrameOf call (replayAll f ds s) g := by
  obtain ⟨captured, later, hframe⟩ := h
  have hg : g < s.next := Store.frame?_isSome_iff.1 (by rw [hframe]; rfl)
  by_cases hgf : g = f
  · refine ⟨captured, later ++ made ds, ?_⟩
    rw [frame?_replayAll ds hg, if_pos hgf, hframe]
    simp [Bindings.insertAll]
  · refine ⟨captured, later, ?_⟩
    rw [frame?_replayAll ds hg, if_neg hgf, hframe]

mutual

/-- The frames that a deed makes are, in order, those of the calls that are recorded. -/
theorem isFrameOf_replay : ∀ (root : Bool) (f : FrameId) (d : Deed) (s : Store) {i : Nat}
    {call : List Symbol × List Value}, ((d.events root).filterMap Event.call?)[i]? = some call →
    IsFrameOf call (d.replay f s) (s.next + i)
  | true, _, .bound _ _, _, _, _, h | false, _, .bound _ _, _, _, _, h => nomatch h
  | _, _, .applied formals _ captured args _ inner, s, 0, _, h => by
    obtain rfl := Option.some.inj h
    exact (isFrameOf_push formals args captured s).replayAll s.next inner
  | _, _, .applied formals _ captured args _ inner, s, i + 1, call, h => by
    have hinner := isFrameOf_replayAll false s.next inner
      (s.push ⟨Bindings.empty.insertAll (formals.zip args), some captured⟩) (i := i) h
    rw [Store.next_push, Nat.add_assoc, Nat.add_comm 1] at hinner
    exact hinner

theorem isFrameOf_replayAll : ∀ (root : Bool) (f : FrameId) (ds : List Deed) (s : Store) {i : Nat}
    {call : List Symbol × List Value},
    ((rowEvents root ds).filterMap Event.call?)[i]? = some call →
    IsFrameOf call (replayAll f ds s) (s.next + i)
  | _, _, [], _, _, _, h => nomatch h
  | root, f, d :: ds, s, i, call, h => by
    rw [rowEvents, List.filterMap_append] at h
    by_cases hi : i < ((d.events root).filterMap Event.call?).length
    · rw [List.getElem?_append_left hi] at h
      exact (isFrameOf_replay root f d s h).replayAll f ds
    · rw [List.getElem?_append_right (Nat.le_of_not_lt hi)] at h
      have hds := isFrameOf_replayAll root f ds (d.replay f s) h
      rwa [next_replay root, Nat.add_assoc, Nat.add_sub_cancel' (Nat.le_of_not_lt hi)] at hds

end

end Deed
end Lisplet
