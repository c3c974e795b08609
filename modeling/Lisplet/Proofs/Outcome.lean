/-
# How computations end

A computation takes a machine to a value or an error and to the machine that it
leaves.  `Eval.outcome` is that pair, and `Eval.outcome_bind` says that an error
ends a sequence at once while the machine stays as it was left
(`Eval.outcome_bind_cases` reads the same backwards).

The trace has no part in what is computed unless it is written while it grows,
so a computation can be described by what it does to the store alone:
`Eval.Yields x s r s'` says that `x` takes the store `s` to the result `r` and
the store `s'` on every machine that does not write its trace.
-/

import Lisplet.Machine

namespace Lisplet
namespace Eval

variable {α β : Type} {m m' : Machine}

/-- What a computation ends in on a machine, and the machine that it leaves. -/
def outcome (x : Eval α) (m : Machine) : Except Error α × Machine :=
  match x.run m with
  | .ok a m' => (.ok a, m')
  | .error e m' => (.error e, m')

@[simp] theorem outcome_pure (a : α) (m : Machine) :
    outcome (pure a : Eval α) m = (.ok a, m) := rfl

@[simp] theorem outcome_throw (e : Error) (m : Machine) :
    outcome (throw e : Eval α) m = (.error e, m) := rfl

theorem outcome_get_bind (k : Machine → Eval α) (m : Machine) :
    outcome (get >>= k) m = outcome (k m) m := rfl

@[simp] theorem outcome_modify (f : Machine → Machine) (m : Machine) :
    outcome (modify f : Eval Unit) m = (.ok (), f m) := rfl

@[simp] theorem outcome_ofExcept (r : Except Error α) (m : Machine) :
    outcome (ofExcept r) m = (r, m) := by
  cases r <;> rfl

/-- A sequence goes on after a value, on the machine left by it, and ends with an
error at once. -/
theorem outcome_bind (x : Eval α) (k : α → Eval β) (m : Machine) :
    outcome (x >>= k) m =
      match outcome x m with
      | (.ok a, m') => outcome (k a) m'
      | (.error e, m') => (.error e, m') := by
  unfold outcome
  rw [EStateM.run_bind]
  cases x.run m <;> rfl

/-- A sequence either went on after a value or ended with the error of its first
part. -/
theorem outcome_bind_cases {x : Eval α} {k : α → Eval β} {r : Except Error β}
    (h : outcome (x >>= k) m = (r, m')) :
    (∃ a m₁, outcome x m = (.ok a, m₁) ∧ outcome (k a) m₁ = (r, m')) ∨
      ∃ e, outcome x m = (.error e, m') ∧ r = .error e := by
  rw [outcome_bind] at h
  rcases hx : outcome x m with ⟨e | a, m₁⟩
  · rw [hx] at h
    obtain ⟨rfl, rfl⟩ := Prod.mk.inj h
    exact .inr ⟨e, rfl, rfl⟩
  · rw [hx] at h
    exact .inl ⟨a, m₁, rfl, h⟩

/-! ### The operations of a machine -/

@[simp] theorem outcome_assign (f : FrameId) (x : Symbol) (v : Value) (m : Machine) :
    outcome (assign f x v) m = (.ok (), { m with store := m.store.define f x v }) := rfl

@[simp] theorem outcome_newFrame (b : Bindings) (outer : Option FrameId) (m : Machine) :
    outcome (newFrame b outer) m =
      (.ok m.store.next, { m with store := m.store.push ⟨b, outer⟩ }) := rfl

theorem outcome_lookup (f : FrameId) (x : Symbol) (m : Machine) :
    outcome (lookup f x) m =
      (match m.store.lookup? f x with
        | some v => .ok v
        | none => .error (.unbound x), m) := by
  unfold lookup
  rw [outcome_get_bind]
  cases m.store.lookup? f x <;> rfl

/-- A lambda that gets as many arguments as it has parameters gets a new frame. -/
theorem outcome_extend {formals : List Symbol} {args : List Value}
    (h : args.length = formals.length) (body : Value) (captured : FrameId) (m : Machine) :
    outcome (extend formals body captured args) m =
      (.ok m.store.next, { m with
        store := m.store.push ⟨Bindings.empty.insertAll (formals.zip args), some captured⟩ }) := by
  rw [extend, if_pos h, outcome_newFrame]

/-- Otherwise nothing changes. -/
theorem outcome_extend_of_ne {formals : List Symbol} {args : List Value}
    (h : args.length ≠ formals.length) (body : Value) (captured : FrameId) (m : Machine) :
    outcome (extend formals body captured args) m =
      (.error (.argumentCount formals body args.length), m) := by
  rw [extend, if_neg h, outcome_throw]

/-- Recording changes nothing but the trace, and it fails only on a machine that
writes its trace and with an event that cannot be written. -/
theorem outcome_record (event : Event) (m : Machine) :
    ∃ trace, outcome (record event) m = (.ok (), { m with trace }) ∨
      m.tracing = .written ∧ event.isWritable = false ∧
        outcome (record event) m = (.error .unwritable, { m with trace }) := by
  unfold record
  rw [outcome_get_bind]
  cases ht : m.tracing with
  | off => exact ⟨m.trace, .inl (by rw [outcome_pure, ← ht])⟩
  | kept => exact ⟨m.trace.push event, .inl (by rw [keep, outcome_modify, ← ht])⟩
  | written =>
    cases hw : event.isWritable with
    | true => exact ⟨m.trace.push event, .inl (by simp [keep, ← ht])⟩
    | false => exact ⟨m.trace, .inr ⟨rfl, rfl, by simp [← ht]⟩⟩

/-! ### Computations seen through the store -/

/-- A computation takes a store to a result and a store, on every machine that does
not write its trace. -/
def Yields (x : Eval α) (s : Store) (r : Except Error α) (s' : Store) : Prop :=
  ∀ m : Machine, m.store = s → m.tracing ≠ .written →
    ∃ trace, outcome x m = (r, { m with store := s', trace })

variable {x : Eval α} {k : α → Eval β} {s s₁ s₂ : Store}

theorem yields_pure (a : α) (s : Store) : Yields (pure a) s (.ok a) s := by
  rintro m rfl -
  exact ⟨m.trace, rfl⟩

theorem yields_throw (e : Error) (s : Store) : Yields (throw e : Eval α) s (.error e) s := by
  rintro m rfl -
  exact ⟨m.trace, rfl⟩

theorem yields_ofExcept (r : Except Error α) (s : Store) : Yields (ofExcept r) s r s := by
  rintro m rfl -
  exact ⟨m.trace, outcome_ofExcept r m⟩

theorem yields_record (event : Event) (s : Store) : Yields (record event) s (.ok ()) s := by
  rintro m rfl hm
  obtain ⟨trace, h | ⟨h, -⟩⟩ := outcome_record event m
  · exact ⟨trace, h⟩
  · exact absurd h hm

theorem Yields.bind {a : α} {r : Except Error β} (h : Yields x s (.ok a) s₁)
    (hk : Yields (k a) s₁ r s₂) : Yields (x >>= k) s r s₂ := by
  rintro m rfl hm
  obtain ⟨trace, hx⟩ := h m rfl hm
  obtain ⟨trace', hk⟩ := hk { m with store := s₁, trace } rfl hm
  exact ⟨trace', by rw [outcome_bind, hx]; exact hk⟩

theorem Yields.bind_error {e : Error} (h : Yields x s (.error e) s₁) :
    Yields (x >>= k) s (.error e) s₁ := by
  rintro m rfl hm
  obtain ⟨trace, hx⟩ := h m rfl hm
  exact ⟨trace, by rw [outcome_bind, hx]⟩

end Eval
end Lisplet
