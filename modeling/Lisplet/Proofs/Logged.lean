/-
# What computations record

A computation does not look at the trace, so what it records can be told once for all
machines: `Eval.Logs x s r s' events` says that `x` takes the store `s` to the result `r`
and the store `s'` whatever is done about events, and puts `events` at the end of the trace
of a machine that keeps them.  A machine that writes its trace is spoken of only if all of
the events can be written (`Tracing.Accepts`).

So the result and the store are those on a machine without a trace (`Eval.ends`), and the
events of a sequence are those of its parts, one after the other (`Eval.Logs.bind`).
-/

import Lisplet.Proofs.Outcome

namespace Lisplet

namespace Tracing

/-- What is kept of events. -/
def taken : Tracing → List Event → List Event
  | .off, _ => []
  | .kept, events | .written, events => events

/-- No event is refused: if they are written, all of them can be. -/
def Accepts (t : Tracing) (events : List Event) : Prop :=
  t = .written → ∀ event ∈ events, event.isWritable = true

@[simp] theorem taken_nil (t : Tracing) : t.taken [] = [] := by
  cases t <;> rfl

theorem taken_append (t : Tracing) (front back : List Event) :
    t.taken (front ++ back) = t.taken front ++ t.taken back := by
  cases t <;> rfl

theorem accepts_append {t : Tracing} {front back : List Event} :
    t.Accepts (front ++ back) ↔ t.Accepts front ∧ t.Accepts back := by
  simp only [Accepts, List.forall_mem_append, ← imp_and]

end Tracing

namespace Machine

/-- The machine with another store and with further events recorded. -/
def advance (m : Machine) (s : Store) (events : List Event) : Machine :=
  { m with store := s, trace := m.trace ++ (m.tracing.taken events).toArray }

theorem advance_nil (m : Machine) (s : Store) : m.advance s [] = { m with store := s } := by
  simp [advance]

theorem advance_advance (m : Machine) (s₁ s₂ : Store) (front back : List Event) :
    (m.advance s₁ front).advance s₂ back = m.advance s₂ (front ++ back) := by
  simp [advance, Tracing.taken_append]

end Machine

namespace Eval

variable {α β : Type} {x : Eval α} {k : α → Eval β} {s s₁ s₂ : Store}
variable {events front back : List Event}

/-- A computation takes a store to a result and a store and records events, on every
machine that refuses none of them. -/
def Logs (x : Eval α) (s : Store) (r : Except Error α) (s' : Store) (events : List Event) :
    Prop :=
  ∀ m : Machine, m.store = s → m.tracing.Accepts events → outcome x m = (r, m.advance s' events)

/-- What a computation ends in on a machine without a trace, and the store that it
leaves. -/
def ends (x : Eval α) (s : Store) : Except Error α × Store :=
  let (r, m) := outcome x ⟨s, .off, #[]⟩
  (r, m.store)

/-- The result and the store do not depend on what is done about events. -/
theorem Logs.ends {r : Except Error α} (h : Logs x s r s₁ events) : x.ends s = (r, s₁) := by
  rw [Eval.ends, h ⟨s, .off, #[]⟩ rfl nofun]
  rfl

theorem outcome_of_ends {r : Except Error α} (h : x.ends s = (r, s₁)) :
    ∃ m', outcome x ⟨s, .off, #[]⟩ = (r, m') ∧ m'.store = s₁ := by
  obtain ⟨rfl, rfl⟩ := Prod.mk.inj h
  exact ⟨_, rfl, rfl⟩

/-! ### Operations that record nothing -/

/-- What leaves the trace of every machine alone records nothing. -/
theorem Logs.of_outcome {r : Except Error α}
    (h : ∀ m : Machine, m.store = s → outcome x m = (r, { m with store := s₁ })) :
    Logs x s r s₁ [] := by
  intro m hm _
  rw [h m hm, Machine.advance_nil]

theorem logs_pure (a : α) (s : Store) : Logs (pure a) s (.ok a) s [] :=
  .of_outcome (by rintro m rfl; exact outcome_pure a m)

theorem logs_throw (e : Error) (s : Store) : Logs (throw e : Eval α) s (.error e) s [] :=
  .of_outcome (by rintro m rfl; exact outcome_throw e m)

theorem logs_ofExcept (r : Except Error α) (s : Store) : Logs (ofExcept r) s r s [] :=
  .of_outcome (by rintro m rfl; exact outcome_ofExcept r m)

theorem logs_assign (f : FrameId) (y : Symbol) (v : Value) (s : Store) :
    Logs (assign f y v) s (.ok ()) (s.define f y v) [] :=
  .of_outcome (by rintro m rfl; exact outcome_assign f y v m)

theorem logs_lookup (f : FrameId) (y : Symbol) (s : Store) :
    Logs (lookup f y) s ((s.lookup? f y).elim (.error (.unbound y)) .ok) s [] := by
  refine .of_outcome ?_
  rintro m rfl
  rw [outcome_lookup]
  cases m.store.lookup? f y <;> rfl

theorem logs_extend {formals : List Symbol} {args : List Value}
    (h : args.length = formals.length) (body : Value) (captured : FrameId) (s : Store) :
    Logs (extend formals body captured args) s (.ok s.next)
      (s.push ⟨Bindings.empty.insertAll (formals.zip args), some captured⟩) [] :=
  .of_outcome (by rintro m rfl; exact outcome_extend h body captured m)

theorem logs_extend_of_ne {formals : List Symbol} {args : List Value}
    (h : args.length ≠ formals.length) (body : Value) (captured : FrameId) (s : Store) :
    Logs (extend formals body captured args) s
      (.error (.argumentCount formals body args.length)) s [] :=
  .of_outcome (by rintro m rfl; exact outcome_extend_of_ne h body captured m)

/-! ### Recording -/

theorem logs_record (event : Event) (s : Store) : Logs (record event) s (.ok ()) s [event] := by
  rintro ⟨_, t, trace⟩ rfl ht
  cases t with
  | off => rfl
  | kept => rfl
  | written =>
    have hw : event.isWritable = true := ht rfl event (List.mem_singleton_self event)
    simp [record, outcome_get_bind, hw, keep, Machine.advance, Tracing.taken]

/-! ### Sequences -/

/-- Looking at the machine comes to looking at its store, if that settles what comes
next. -/
theorem Logs.get_bind {r : Except Error α} {next : Machine → Eval α}
    (hnext : ∀ m : Machine, m.store = s → next m = x) (h : Logs x s r s₁ events) :
    Logs (get >>= next) s r s₁ events := by
  intro m hm ht
  rw [outcome_get_bind, hnext m hm]
  exact h m hm ht

/-- A sequence records what its parts record. -/
theorem Logs.bind {a : α} {r : Except Error β} (h : Logs x s (.ok a) s₁ front)
    (hk : Logs (k a) s₁ r s₂ back) : Logs (x >>= k) s r s₂ (front ++ back) := by
  intro m hm ht
  obtain ⟨hfront, hback⟩ := Tracing.accepts_append.1 ht
  rw [outcome_bind, h m hm hfront]
  simp only
  rw [hk (m.advance s₁ front) rfl hback, Machine.advance_advance]

/-- After a value a sequence ends as its second part does. -/
theorem Logs.ends_bind {a : α} (h : Logs x s (.ok a) s₁ events) :
    (x >>= k).ends s = (k a).ends s₁ := by
  rw [Eval.ends, Eval.ends, outcome_bind, h ⟨s, .off, #[]⟩ rfl nofun]
  rfl

/-- After an error nothing more is recorded. -/
theorem Logs.bind_error {e : Error} (h : Logs x s (.error e) s₁ events) :
    Logs (x >>= k) s (.error e) s₁ events := by
  intro m hm ht
  rw [outcome_bind, h m hm ht]

end Eval
end Lisplet
