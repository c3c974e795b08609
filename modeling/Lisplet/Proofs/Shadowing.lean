/-
# What a binding changes

From a frame one sees, for each symbol, its chain up to the nearest frame that binds
the symbol; what lies behind is shadowed.  So a frame in which a symbol is bound anew
is *in sight* of some frames and out of sight of others (`Store.InSight`), and it is
the former alone for which the symbol has another meaning than before
(`Store.find?_define`, `Store.lookup?_define`).

A binding of something else than a symbol is refused and changes nothing, and a row of
bindings stops there with those before it made (`Eval.outcome_update_append`).  The message
shows what stands for the name, so if that cannot be written the error is that of its
writing (`Eval.unwritable_name_refused`).
-/

import Lisplet.Proofs.Grounded
import Lisplet.Proofs.Outcome
import Lisplet.Proofs.Scope

namespace Lisplet

/-! ### Frames in sight -/

/-- If a test newly holds of one item and is the same for all others, then the first
hit is that item, unless there was a hit in front of it. -/
theorem find?_of_eq_off {α : Type} [DecidableEq α] {p q : α → Bool} {a : α}
    (hother : ∀ b, b ≠ a → q b = p b) {l : List α} (hitem : a ∈ l → q a = true) :
    l.find? q = if a ∈ l ∧ ∀ b ∈ l.takeWhile (· ≠ a), p b = false then some a
      else l.find? p := by
  induction l with
  | nil => simp
  | cons b l ih =>
    by_cases hb : b = a
    · subst hb
      simp [hitem (List.mem_cons_self ..)]
    · have hq := hother b hb
      cases hp : p b with
      | true =>
        rw [hp] at hq
        simp [hb, hp, hq]
      | false =>
        rw [hp] at hq
        have hrest := ih fun hmem => hitem (List.mem_cons_of_mem b hmem)
        rw [List.find?_cons_of_neg (by simp [hq]), List.find?_cons_of_neg (by simp [hp]), hrest]
        simp [hb, hp, Ne.symm hb]

namespace Store

variable {s : Store} {f g : FrameId} {x y : Symbol} {v : Value}

/-- For a symbol, the frame `f` is in sight of the frame `g`: it is on the chain of `g`,
and no nearer frame binds the symbol. -/
def InSight (s : Store) (x : Symbol) (g f : FrameId) : Prop :=
  f ∈ s.chain g ∧ ∀ h ∈ (s.chain g).takeWhile (· ≠ f), (s.bindings h).binds x = false

instance (s : Store) (x : Symbol) (g f : FrameId) : Decidable (s.InSight x g f) :=
  inferInstanceAs (Decidable (_ ∧ _))

/-- The frames of a chain exist. -/
theorem lt_next_of_mem_chainFrom {n : Nat} (h : g ∈ s.chainFrom n f) : g < s.next := by
  induction n generalizing f with
  | zero => cases h
  | succ n ih =>
    obtain ⟨frame, hf, rfl | ⟨o, -, hg⟩⟩ := mem_chainFrom_succ.1 h
    · exact frame?_isSome_iff.1 (by rw [hf]; rfl)
    · exact ih hg

/-- Where the frames around a frame are earlier ones, a frame in sight is the frame itself
or one in sight of the frame around it, if the frame itself does not bind the symbol. -/
theorem inSight_iff (hs : ∀ {f o}, s.outer? f = some o → o < f) :
    s.InSight x g f ↔ g < s.next ∧ (f = g ∨
      (s.bindings g).binds x = false ∧ ∃ o, s.outer? g = some o ∧ s.InSight x o f) := by
  by_cases hg : g < s.next
  · rw [InSight, chain_eq hs hg, and_iff_right hg]
    by_cases hf : f = g
    · simp [hf]
    · have hne : g ≠ f := Ne.symm hf
      cases s.outer? g with
      | none => simp [hf]
      | some o =>
        simp [hf, hne, InSight]
        tauto
  · refine iff_of_false (fun h => hg ?_) fun h => hg h.1
    obtain ⟨frame, hframe, -⟩ := mem_chainFrom_succ.1 h.1
    exact frame?_isSome_iff.1 (by rw [hframe]; rfl)

/-- The frame that a symbol is found in is in sight. -/
theorem inSight_of_find? (h : s.find? g x = some f) : s.InSight x g f := by
  obtain ⟨hbinds, nearer, farther, hchain, hnearer⟩ := List.find?_eq_some_iff_append.1 h
  have hne : ∀ o ∈ nearer, decide (o ≠ f) = true := by
    intro o hmem
    refine decide_eq_true ?_
    rintro rfl
    exact absurd hbinds (by simpa using hnearer o hmem)
  refine ⟨by simp [hchain], fun o hmem => ?_⟩
  rw [hchain, List.takeWhile_append_of_pos hne] at hmem
  simpa using hnearer o (by simpa using hmem)

/-- What a frame binds a symbol to after a definition. -/
theorem get?_bindings_define (s : Store) (f g : FrameId) (x y : Symbol) (v : Value) :
    ((s.define f x v).bindings g).get? y =
      if g = f ∧ f < s.next ∧ y = x then some v else (s.bindings g).get? y := by
  rw [bindings_define]
  by_cases hg : g = f ∧ f < s.next
  · obtain ⟨rfl, hlt⟩ := hg
    simp [hlt, Bindings.get?_insert]
  · rw [if_neg hg, if_neg fun h => hg ⟨h.1, h.2.1⟩]

/-- **Where a symbol is found after a definition:** in the frame of the definition, if it
is the symbol defined and that frame is in sight for it, and otherwise where it was found
before. -/
theorem find?_define (s : Store) (f g : FrameId) (x y : Symbol) (v : Value) :
    (s.define f x v).find? g y =
      if y = x ∧ s.InSight x g f then some f else s.find? g y := by
  rw [find?, chain_define]
  by_cases hy : y = x
  · subst hy
    rw [find?_of_eq_off (p := fun h => (s.bindings h).binds y) (a := f)]
    · simp [InSight, find?]
    · intro h hne
      rw [Bindings.binds, get?_bindings_define, if_neg fun h => hne h.1, Bindings.binds]
    · intro hmem
      rw [Bindings.binds, get?_bindings_define, if_pos ⟨rfl, lt_next_of_mem_chainFrom hmem, rfl⟩]
      rfl
  · have hbinds : ∀ h, ((s.define f x v).bindings h).binds y = (s.bindings h).binds y := by
      intro h
      rw [Bindings.binds, get?_bindings_define, if_neg fun h => hy h.2.2, Bindings.binds]
    rw [if_neg fun h => hy h.1]
    simp only [hbinds, find?]

/-- **The value of a symbol after a definition:** the one defined, if it is the symbol
defined and the frame of the definition is in sight for it, and otherwise the one it had
before. -/
theorem lookup?_define (s : Store) (f g : FrameId) (x y : Symbol) (v : Value) :
    (s.define f x v).lookup? g y =
      if y = x ∧ s.InSight x g f then some v else s.lookup? g y := by
  rw [lookup?, find?_define]
  by_cases h : y = x ∧ s.InSight x g f
  · have hlt : f < s.next := lt_next_of_mem_chainFrom h.2.1
    rw [if_pos h, if_pos h, Option.bind_some, get?_bindings_define, if_pos ⟨rfl, hlt, h.1⟩]
  · rw [if_neg h, if_neg h, lookup?]
    cases hfind : s.find? g y with
    | none => rfl
    | some o =>
      -- were the symbol found in the frame of the definition, that would be in sight
      have hne : ¬ (o = f ∧ f < s.next ∧ y = x) := by
        rintro ⟨rfl, -, rfl⟩
        exact h ⟨rfl, inSight_of_find? hfind⟩
      rw [Option.bind_some, Option.bind_some, get?_bindings_define, if_neg hne]

/-- A store with symbols bound in a frame, one after another. -/
def defineAll (s : Store) (f : FrameId) (pairs : List (Symbol × Value)) : Store :=
  pairs.foldl (fun s pair => s.define f pair.1 pair.2) s

end Store

/-! ### Bindings one after another -/

namespace Eval

variable {m : Machine} {f : FrameId}

theorem outcome_define_symbol (f : FrameId) (x : Symbol) (v : Value) (m : Machine) :
    outcome (define f (.symbol x) v) m =
      (.ok (), { m with store := m.store.define f x v }) := rfl

/-- Something else than a symbol is refused. -/
theorem outcome_define_of_symbol?_eq_none {name : Value} (h : name.symbol? = none) (f : FrameId)
    (v : Value) (m : Machine) :
    outcome (define f name v) m = (.error (.invalidName name), m) := by
  rw [define, h, outcome_throw]

/-- The class of the error for a name that is no symbol. -/
theorem kind_invalidName (name : Value) : (Error.invalidName name).kind =
    if name.isWritable = true then .invalidName else .writing := by
  rw [Error.kind_of_shown_eq rfl]
  rfl

/-- Binding the pairs of a mapping is binding each of them in order. -/
theorem update_eq_forM (f : FrameId) (pairs : List (Value × Value)) :
    update f pairs = pairs.forM fun pair => define f pair.1 pair.2 := by
  induction pairs with
  | nil => rfl
  | cons pair pairs ih =>
    rw [update, ih]
    rfl

/-- Pairs of symbols in front of others are bound first. -/
theorem outcome_update_append (f : FrameId) (pairs : List (Symbol × Value))
    (rest : List (Value × Value)) (m : Machine) :
    outcome (update f (pairs.map (fun pair => (.symbol pair.1, pair.2)) ++ rest)) m =
      outcome (update f rest) { m with store := m.store.defineAll f pairs } := by
  induction pairs generalizing m with
  | nil => rfl
  | cons pair pairs ih =>
    rw [List.map_cons, List.cons_append, update, outcome_bind, outcome_define_symbol]
    exact ih _

/-- **What a binding changes.**  After a symbol is bound in a frame, the symbol is found
there, with the new value, from all frames that the frame is in sight of; for all other
frames and all other symbols, a symbol is found where it was, with the value or the error
that it had, and it is visible if it was.

A name that is no symbol is refused, and nothing changes: the error is that of such a name
if what stands for it can be written, and that of writing it if not.  A mapping is bound
pair by pair; where it holds a name that is no symbol, that is refused in the same way, and
the pairs before it are bound and no others.

A frame is in sight of itself, and of the frames inside it that it can be seen from
through frames which do not bind the symbol. -/
theorem define_changes (m : Machine) (f : FrameId) :
    (∀ x v, ∃ m', outcome (define f (.symbol x) v) m = (.ok (), m') ∧
      m'.tracing = m.tracing ∧ m'.trace = m.trace ∧ ∀ g y,
        (y = x ∧ m.store.InSight x g f →
          m'.store.find? g y = some f ∧ outcome (lookup g y) m' = (.ok v, m')) ∧
        (¬ (y = x ∧ m.store.InSight x g f) →
          m'.store.find? g y = m.store.find? g y ∧
          outcome (lookup g y) m' = ((outcome (lookup g y) m).1, m') ∧
          m'.store.contains g (.symbol y) = m.store.contains g (.symbol y))) ∧
    (∀ name v, name.symbol? = none →
      outcome (define f name v) m = (.error (.invalidName name), m) ∧
      (Error.invalidName name).kind =
        if name.isWritable = true then .invalidName else .writing) ∧
    (∀ pairs, update f pairs = pairs.forM fun pair => define f pair.1 pair.2) ∧
    (∀ pairs : List (Symbol × Value),
      outcome (update f (pairs.map fun pair => (.symbol pair.1, pair.2))) m =
        (.ok (), { m with store := m.store.defineAll f pairs })) ∧
    (∀ (pairs : List (Symbol × Value)) (name v : Value) (rest : List (Value × Value)),
      name.symbol? = none →
      outcome (update f (pairs.map (fun pair => (.symbol pair.1, pair.2)) ++ (name, v) :: rest))
          m =
        (.error (.invalidName name), { m with store := m.store.defineAll f pairs }) ∧
      (Error.invalidName name).kind =
        if name.isWritable = true then .invalidName else .writing) ∧
    ((∀ g o, m.store.outer? g = some o → o < g) → ∀ x g,
      (m.store.InSight x g f ↔ g < m.store.next ∧ (f = g ∨
        (m.store.bindings g).binds x = false ∧
          ∃ o, m.store.outer? g = some o ∧ m.store.InSight x o f))) := by
  refine ⟨fun x v => ⟨_, outcome_define_symbol f x v m, rfl, rfl, fun g y => ⟨fun h => ?_,
    fun h => ?_⟩⟩,
    fun name v h => ⟨outcome_define_of_symbol?_eq_none h f v m, kind_invalidName name⟩,
    update_eq_forM f, fun pairs => ?_, fun pairs name v rest h => ⟨?_, kind_invalidName name⟩,
    fun hs x g => Store.inSight_iff (hs _ _)⟩
  · rw [outcome_lookup, Store.find?_define, Store.lookup?_define, if_pos h, if_pos h]
    exact ⟨rfl, rfl⟩
  · have hfind := Store.find?_define m.store f g x y v
    rw [if_neg h] at hfind
    rw [outcome_lookup, outcome_lookup, Store.lookup?_define, if_neg h]
    exact ⟨hfind, rfl, congrArg Option.isSome hfind⟩
  · have happend := outcome_update_append f pairs [] m
    rwa [List.append_nil, update, outcome_pure] at happend
  · rw [outcome_update_append, update, outcome_bind, outcome_define_of_symbol?_eq_none h]

/-- Of two frames inside the first one, one binds the symbol too: a binding in the first
frame is seen from the other one and not from it, nor from the frame inside it. -/
theorem define_changes_shadowed :
    let x : Symbol := ⟨"x"⟩
    let b : Bindings := .insert .empty x .unit
    let m : Machine := ⟨⟨#[⟨b, none⟩, ⟨b, some 0⟩, ⟨.empty, some 1⟩, ⟨.empty, some 0⟩]⟩, .off, #[]⟩
    let m' := (outcome (define 0 (.symbol x) .null) m).2
    m.store.InSight x 3 0 ∧ ¬ m.store.InSight x 2 0 ∧
      m'.store.find? 3 x = some 0 ∧ (outcome (lookup 3 x) m').1 = .ok .null ∧
      m'.store.find? 2 x = some 1 ∧ (outcome (lookup 2 x) m').1 = .ok .unit := by
  intro x b m m'
  have hseen : m.store.InSight x 3 0 := by decide
  have hhidden : ¬ m.store.InSight x 2 0 := by decide
  obtain ⟨m₁, hm₁, -, -, hlookups⟩ := (define_changes m 0).1 x .null
  obtain rfl : m₁ = m' := congrArg Prod.snd hm₁.symm
  obtain ⟨hfind, hvalue⟩ := (hlookups 3 x).1 ⟨rfl, hseen⟩
  obtain ⟨hfind', hvalue', -⟩ := (hlookups 2 x).2 fun h => hhidden h.2
  exact ⟨hseen, hhidden, hfind, by rw [hvalue], hfind'.trans rfl, by rw [hvalue']; rfl⟩

/-- A number of too many digits is no symbol, but to bind it is not refused for that: the
message cannot be written. -/
theorem unwritable_name_refused :
    ¬ ∀ (m : Machine) (f : FrameId) (name v : Value), name.symbol? = none →
      ∃ e, outcome (define f name v) m = (.error e, m) ∧ e.kind = .invalidName := by
  intro h
  obtain ⟨e, he, hkind⟩ := h ⟨.empty, .off, #[]⟩ 0 (.int Numeral.bound) (.int 1) rfl
  obtain rfl : Error.invalidName (.int Numeral.bound) = e :=
    Except.error.inj (Prod.mk.inj he).1
  have hw : (Value.int Numeral.bound).isWritable = false := Numeral.not_isWritable_bound
  rw [kind_invalidName, hw] at hkind
  cases hkind

end Eval
end Lisplet
