/-
# The frame of a call

A lambda that gets as many arguments as it has parameters is evaluated in a new frame
inside the frame it was created in.  The new frame binds the parameters alone, in the
order in which they first stand (`Bindings.names_insertAll`); a parameter that stands
more than once is bound to the argument at its last place
(`Bindings.get?_insertAll_zip`).  All other symbols mean there what they mean in the
frame of creation (`Store.lookup?_push`), and the frame of the call has no part in it.

With any other number of arguments nothing is made and nothing recorded, and the error is
one of arity.  Its message shows the body of the lambda, so if the body cannot be written
the error is that of its writing (`unwritable_body_refused`).
-/

import Mathlib.Data.List.Induction
import Lisplet.Proofs.Grounded
import Lisplet.Proofs.WriteSet

namespace Lisplet

/-! ### Parameters and arguments -/

namespace Bindings

/-- A row of pairs binds its symbols in the order in which they first stand in it. -/
theorem names_insertAll (pairs : List (Symbol × Value)) :
    (empty.insertAll pairs).names = (pairs.map Prod.fst).eraseDups := by
  induction pairs using List.reverseRecOn with
  | nil => rfl
  | append_singleton pairs pair ih =>
    have hlast : empty.insertAll (pairs ++ [pair]) =
        (empty.insertAll pairs).insert pair.1 pair.2 := List.foldl_append ..
    rw [hlast, names_insert, ih, List.map_append, List.eraseDups_append]
    by_cases hmem : pair.1 ∈ pairs.map Prod.fst
    · simp only [List.mem_eraseDups, hmem, List.removeAll, List.map_cons]
      simp [hmem]
    · simp [hmem, List.removeAll, List.eraseDups_cons]

/-- Of several pairs with one symbol the last one counts. -/
theorem get?_insertAll_append_cons (b : Bindings) (front : List (Symbol × Value)) {x : Symbol}
    (v : Value) {back : List (Symbol × Value)} (hx : x ∉ back.map Prod.fst) :
    (b.insertAll (front ++ (x, v) :: back)).get? x = some v := by
  have hback : ∀ pair ∈ back, pair.1 ≠ x := fun pair hpair heq =>
    hx (heq ▸ List.mem_map_of_mem hpair)
  have hfront : b.insertAll (front ++ (x, v) :: back) =
      ((b.insertAll front).insert x v).insertAll back := List.foldl_append ..
  rw [hfront, Writes.get?_insertAll_of_notMem hback, get?_insert, if_pos rfl]

variable {formals : List Symbol} {args : List Value} {x : Symbol} {a : Value}

/-- A parameter is bound to the argument at its last place. -/
theorem get?_insertAll_zip {i : Nat} (hlength : args.length = formals.length)
    (hx : formals[i]? = some x) (ha : args[i]? = some a) (hlast : x ∉ formals.drop (i + 1)) :
    (empty.insertAll (formals.zip args)).get? x = some a := by
  have hpair : (formals.zip args)[i]? = some (x, a) := List.getElem?_zip_eq_some.2 ⟨hx, ha⟩
  obtain ⟨hi, hget⟩ := List.getElem?_eq_some_iff.1 hpair
  have hback : x ∉ ((formals.zip args).drop (i + 1)).map Prod.fst := by
    rwa [List.map_drop, List.map_fst_zip (Nat.le_of_eq hlength.symm)]
  have hsplit : formals.zip args =
      (formals.zip args).take i ++ (x, a) :: (formals.zip args).drop (i + 1) := by
    rw [← hget, ← List.drop_eq_getElem_cons hi, List.take_append_drop]
  rw [hsplit]
  exact get?_insertAll_append_cons _ _ _ hback

/-- Nothing but parameters is bound. -/
theorem get?_insertAll_zip_of_notMem (hx : x ∉ formals) :
    (empty.insertAll (formals.zip args)).get? x = none := by
  refine Writes.get?_insertAll_of_notMem (fun pair hpair heq => hx ?_) empty
  exact heq ▸ (List.of_mem_zip hpair).1

end Bindings

/-! ### A frame inside another one -/

namespace Store

variable {s : Store} {frame : Frame} {f : FrameId}

/-- **A new frame changes no meaning in the old ones.** -/
theorem lookup?_push (hs : ∀ {f o}, s.outer? f = some o → o < f)
    (hs' : ∀ {f o}, (s.push frame).outer? f = some o → o < f) (hf : f < s.next) (x : Symbol) :
    (s.push frame).lookup? f x = s.lookup? f x := by
  induction f using Nat.strong_induction_on with
  | _ f ih =>
    have hne : f ≠ s.next := Nat.ne_of_lt hf
    rw [lookup?_eq hs', lookup?_eq hs, bindings_push, if_neg hne, outer?_push, if_neg hne]
    cases ho : s.outer? f with
    | none => rfl
    | some o =>
      have hlt : o < f := hs ho
      rw [Option.bind_some, Option.bind_some, ih o hlt (Nat.lt_trans hlt hf)]

/-- **In a new frame a symbol has the value that the frame binds it to, or else the one
that it has in the frame around it.** -/
theorem lookup?_push_next {b : Bindings} {o : FrameId}
    (hs : ∀ {f o}, s.outer? f = some o → o < f) (ho : o < s.next) (x : Symbol) :
    (s.push ⟨b, some o⟩).lookup? s.next x = (b.get? x).or (s.lookup? o x) := by
  have hs' : ∀ {g p}, (s.push ⟨b, some o⟩).outer? g = some p → p < g :=
    outer_lt_push hs (by rintro _ ⟨⟩; exact ho)
  rw [lookup?_eq hs', bindings_push, if_pos rfl, outer?_push, if_pos rfl, Option.bind_some,
    lookup?_push hs hs' ho]

end Store

/-! ### Calls -/

namespace Evaluate

open Eval

/-- The class of the error for a wrong number of arguments. -/
theorem kind_argumentCount (formals : List Symbol) (body : Value) (given : Nat) :
    (Error.argumentCount formals body given).kind =
      if body.isWritable = true then .arity else .writing := by
  rw [Error.kind_of_shown_eq rfl]
  rfl

/-- A frame for a call cannot be made just if the arguments are not as many as the
parameters. -/
theorem exists_error_extend (formals : List Symbol) (body : Value) (captured : FrameId)
    (args : List Value) (m : Machine) (kind : ErrorKind) :
    (∃ e, (outcome (extend formals body captured args) m).1 = .error e ∧ e.kind = kind) ↔
      args.length ≠ formals.length ∧
        (Error.argumentCount formals body args.length).kind = kind := by
  by_cases hlength : args.length = formals.length
  · simp [outcome_extend hlength, hlength]
  · simp [outcome_extend_of_ne hlength, hlength]

/-- **What a call of a lambda binds.**  If there are not as many arguments as parameters,
the call fails, and nothing is changed or recorded; the error is one of arity if the body
can be written, and that of writing it if not.  Otherwise there is one frame more; it
lies inside the frame that the lambda was created in, and the other frames stay as they
are.  It binds the parameters, in the order in which they first stand, each to the argument
at its last place; any other symbol has there the meaning that it has in the frame of
creation.  Then the call is recorded and the body evaluated in the new frame.

From which frame the lambda is called makes no difference. -/
theorem call_binds (host : Host) {m : Machine} {captured : FrameId}
    (hs : ∀ f o, m.store.outer? f = some o → o < f) (hcaptured : captured < m.store.next)
    (formals : List Symbol) (body : Value) (args : List Value) :
    let call (eval : Evaluator) (frame : FrameId) : Eval Value :=
      apply host eval frame (.lambda formals body captured) args
    ((∃ e, (outcome (extend formals body captured args) m).1 = .error e ∧ e.kind = .arity) ↔
      args.length ≠ formals.length ∧ body.isWritable = true) ∧
    ((∃ e, (outcome (extend formals body captured args) m).1 = .error e ∧ e.kind = .writing) ↔
      args.length ≠ formals.length ∧ body.isWritable = false) ∧
    (args.length ≠ formals.length →
      outcome (extend formals body captured args) m =
        (.error (.argumentCount formals body args.length), m) ∧
      ∀ eval frame,
        outcome (call eval frame) m = (.error (.argumentCount formals body args.length), m)) ∧
    (args.length = formals.length → ∃ m', let inner := m.store.next
      outcome (extend formals body captured args) m = (.ok inner, m') ∧
      m'.tracing = m.tracing ∧ m'.trace = m.trace ∧
      m'.store.next = inner + 1 ∧ m'.store.outer? inner = some captured ∧
      (∀ f < inner, m'.store.frame? f = m.store.frame? f) ∧
      (m'.store.bindings inner).names = formals.eraseDups ∧
      (∀ i x a, formals[i]? = some x → args[i]? = some a → x ∉ formals.drop (i + 1) →
        outcome (lookup inner x) m' = (.ok a, m')) ∧
      (∀ x, x ∉ formals →
        outcome (lookup inner x) m' = ((outcome (lookup captured x) m).1, m')) ∧
      ∀ eval frame, outcome (call eval frame) m =
        outcome (record (.applied formals body args) >>= fun _ => eval body inner) m') ∧
    ∀ eval frame frame', outcome (call eval frame) m = outcome (call eval frame') m := by
  intro call
  have hcall : ∀ eval frame, call eval frame = extend formals body captured args >>=
      fun inner => record (.applied formals body args) >>= fun _ => eval body inner :=
    fun _ _ => rfl
  refine ⟨?_, ?_, fun hne => ?_, fun hlength => ⟨_, outcome_extend hlength body captured m, rfl,
    rfl, Store.next_push .., ?_, fun f hf => Store.frame?_push_of_lt hf, ?_, ?_, ?_, ?_⟩,
    fun _ _ _ => rfl⟩
  · rw [exists_error_extend, kind_argumentCount]
    cases body.isWritable <;> simp
  · rw [exists_error_extend, kind_argumentCount]
    cases body.isWritable <;> simp
  · have hextend := outcome_extend_of_ne hne body captured m
    refine ⟨hextend, fun eval frame => ?_⟩
    rw [hcall, outcome_bind, hextend]
  · rw [Store.outer?_push, if_pos rfl]
  · rw [Store.bindings_push, if_pos rfl, Bindings.names_insertAll,
      List.map_fst_zip (Nat.le_of_eq hlength.symm)]
  · intro i x a hx ha hlast
    rw [outcome_lookup, Store.lookup?_push_next (hs _ _) hcaptured,
      Bindings.get?_insertAll_zip hlength hx ha hlast]
    rfl
  · intro x hx
    rw [outcome_lookup, Store.lookup?_push_next (hs _ _) hcaptured,
      Bindings.get?_insertAll_zip_of_notMem hx, Option.none_or, outcome_lookup]
  · intro eval frame
    rw [hcall, outcome_bind, outcome_extend hlength]

/-- A parameter that stands twice and one between them: the first two places of the new
frame are theirs, the last argument counts, and what is no parameter is looked up in the
frame of creation. -/
theorem call_binds_repeated :
    let a : Symbol := ⟨"a"⟩
    let b : Symbol := ⟨"b"⟩
    let m : Machine := ⟨⟨#[⟨.insert .empty ⟨"y"⟩ .unit, none⟩]⟩, .off, #[]⟩
    ∃ m', outcome (extend [a, b, a] .null 0 [.int 1, .int 2, .int 3]) m = (.ok 1, m') ∧
      m'.store.outer? 1 = some 0 ∧ (m'.store.bindings 1).names = [a, b] ∧
      outcome (lookup 1 a) m' = (.ok (.int 3), m') ∧
      outcome (lookup 1 ⟨"y"⟩) m' = (.ok .unit, m') := by
  intro a b m
  have hs : ∀ f o, m.store.outer? f = some o → o < f := by
    intro f o ho
    cases f <;> cases ho
  obtain ⟨m', hm', -, -, -, houter, -, hnames, hformals, hothers, -⟩ :=
    (call_binds .standard hs (by decide : 0 < m.store.next) [a, b, a] .null
      [.int 1, .int 2, .int 3]).2.2.2.1 rfl
  exact ⟨m', hm', houter, hnames, hformals 2 a _ rfl rfl (by decide), hothers ⟨"y"⟩ (by decide)⟩

/-- A lambda without parameters whose body is a number of too many digits refuses an
argument, but not with an error of arity: its message cannot be written. -/
theorem unwritable_body_refused :
    ¬ ∀ (formals : List Symbol) (body : Value) (captured : FrameId) (args : List Value)
      (m : Machine), args.length ≠ formals.length →
      ∃ e, outcome (extend formals body captured args) m = (.error e, m) ∧ e.kind = .arity := by
  intro h
  obtain ⟨e, he, hkind⟩ := h [] (.int Numeral.bound) 0 [.int 1] ⟨.empty, .off, #[]⟩ (by decide)
  obtain rfl : Error.argumentCount [] (.int Numeral.bound) 1 = e :=
    Except.error.inj (Prod.mk.inj he).1
  have hw : (Value.int Numeral.bound).isWritable = false := Numeral.not_isWritable_bound
  rw [kind_argumentCount, hw] at hkind
  cases hkind

end Evaluate
end Lisplet
