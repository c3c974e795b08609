/-
# Kinds of values that evaluation does not leave

A pair of properties, one of expressions and one of values, is closed under
evaluation (`Closed`) if expressions with the property are made of such, the
values that stand in expressions and the bodies of lambdas fit, and operators
lead from values with the property to such values.  Then every evaluation of
such an expression in a store of such values ends in such a value or in an error,
and leaves a store of such values (`Evaluates.keeps`).
-/

import Mathlib.Data.List.Basic
import Lisplet.Proofs.Operator
import Lisplet.Proofs.Semantics

namespace Lisplet

/-- Every value that a frame binds has a property. -/
def Store.All (V : Value → Prop) (s : Store) : Prop :=
  ∀ f x v, (s.bindings f).get? x = some v → V v

/-- A property `E` of expressions and a property `V` of values that evaluation does
not leave. -/
structure Closed (E V : Value → Prop) : Prop where
  /-- The values that stand in expressions are such values. -/
  constant : ∀ e, E e → e.isConstant = true → V e
  /-- The items of expressions are such expressions. -/
  items : ∀ es, E (.list es) → ∀ e ∈ es, E e
  /-- Another sequence is such an expression only if the list of its items is. -/
  hostList : ∀ kind es, E (.hostList kind es) → E (.list es)
  /-- Unit is such a value. -/
  unit : V .unit
  /-- A lambda with such an expression as its body is such a value. -/
  lambda : ∀ formals e f, E e → V (.lambda formals e f)
  /-- The body of a lambda that is such a value is such an expression. -/
  body : ∀ formals e f, V (.lambda formals e f) → E e
  /-- Operators lead from such values to such values. -/
  operator : ∀ op : Operator, ∀ args v, (∀ a ∈ args, V a) → op.apply args = .ok v → V v
  /-- Host functions are not such values. -/
  host : ∀ fn, ¬ V (.function (.host fn))

variable {E V : Value → Prop}

theorem Closed.head (hc : Closed E V) {e : Value} {es : List Value} (h : E (.list (e :: es))) :
    E e := hc.items _ h e (List.mem_cons_self ..)

theorem Closed.tail (hc : Closed E V) {e : Value} {es : List Value} (h : E (.list (e :: es))) :
    ∀ e ∈ es, E e := fun _ hmem => hc.items _ h _ (List.mem_cons_of_mem _ hmem)

/-! ### Stores of such values -/

section

variable {s : Store}

theorem Store.All.lookup (h : s.All V) {f : FrameId} {x : Symbol} {v : Value}
    (hv : s.lookup? f x = some v) : V v := by
  obtain ⟨g, -, hg⟩ := Option.bind_eq_some_iff.1 hv
  exact h g x v hg

theorem Store.All.define (h : s.All V) {v : Value} (hv : V v) (f : FrameId) (x : Symbol) :
    (s.define f x v).All V := by
  intro g y w hw
  rw [bindings_define] at hw
  split at hw
  · rw [Bindings.get?_insert] at hw
    split at hw
    · obtain rfl := Option.some.inj hw
      exact hv
    · exact h f y w hw
  · exact h g y w hw

/-- Bindings made of pairs bind to nothing but the values of the pairs. -/
theorem Bindings.get?_insertAll_mem {pairs : List (Symbol × Value)} :
    ∀ {b : Bindings} {x : Symbol} {v : Value}, (b.insertAll pairs).get? x = some v →
      b.get? x = some v ∨ v ∈ pairs.map Prod.snd := by
  induction pairs with
  | nil => exact fun h => .inl h
  | cons pair pairs ih =>
    intro b x v h
    rcases ih h with h | h
    · rw [get?_insert] at h
      split at h
      · obtain rfl := Option.some.inj h
        exact .inr (List.mem_cons_self ..)
      · exact .inl h
    · exact .inr (List.mem_cons_of_mem _ h)

/-- What names are paired with are the arguments. -/
theorem forall_mem_snd_zip {formals : List Symbol} {args : List Value} (ha : ∀ a ∈ args, V a) :
    ∀ v ∈ (formals.zip args).map Prod.snd, V v := by
  intro v hv
  obtain ⟨pair, hpair, rfl⟩ := List.mem_map.1 hv
  exact ha _ (List.of_mem_zip hpair).2

theorem Store.All.push (h : s.All V) {formals : List Symbol} {args : List Value}
    (ha : ∀ a ∈ args, V a) (outer : Option FrameId) :
    (s.push ⟨Bindings.empty.insertAll (formals.zip args), outer⟩).All V := by
  intro g x v hv
  rw [bindings_push] at hv
  split at hv
  · rcases Bindings.get?_insertAll_mem hv with hv | hv
    · cases hv
    · exact forall_mem_snd_zip ha v hv
  · exact h g x v hv

end

/-! ### Evaluation -/

variable {returns : HostReturns} {stop : Error → Prop}

mutual

/-- **Evaluation does not leave a closed kind of values.** -/
theorem Evaluates.keeps (hc : Closed E V) : Evaluates returns stop s f e r s' → E e → s.All V →
    (∀ v, r = .ok v → V v) ∧ s'.All V
  | .bound h, _, hs => ⟨fun v hv => by cases hv; exact hs.lookup h, hs⟩
  | .unbound _, _, hs | .empty, _, hs | .definitionTarget _, _, hs => ⟨nofun, hs⟩
  | .definitionParts _, _, hs | .abstractionList _, _, hs => ⟨nofun, hs⟩
  | .abstractionSymbol _, _, hs | .abstractionParts _, _, hs => ⟨nofun, hs⟩
  | .conditionalParts _, _, hs | .stopped _, _, hs => ⟨nofun, hs⟩
  | .constant h, he, hs => ⟨fun v hv => by cases hv; exact hc.constant e he h, hs⟩
  | .hostList list, he, hs => list.keeps hc (hc.hostList _ _ he) hs
  | .sequence parts, he, hs => by
    obtain ⟨hvs, hs'⟩ := parts.keeps hc (hc.tail he) hs
    refine ⟨fun v hv => ?_, hs'⟩
    cases hv
    exact List.forall_mem_cons.2 ⟨hc.unit, hvs _ rfl⟩ _ List.getLastD_mem_cons
  | .sequenceError parts, he, hs =>
    ⟨nofun, (parts.keeps hc (hc.tail he) hs).2⟩
  | .definition value, he, hs => by
    obtain ⟨hv, hs'⟩ := value.keeps hc (hc.items _ he _ (by simp)) hs
    exact ⟨fun v h => by cases h; exact hc.unit, hs'.define (hv _ rfl) _ _⟩
  | .definitionError value, he, hs => ⟨nofun, (value.keeps hc (hc.items _ he _ (by simp)) hs).2⟩
  | .abstraction, he, hs =>
    ⟨fun v h => by cases h; exact hc.lambda _ _ _ (hc.items _ he _ (by simp)), hs⟩
  | .conditionalTrue test _ branch, he, hs =>
    branch.keeps hc (hc.items _ he _ (by simp)) (test.keeps hc (hc.items _ he _ (by simp)) hs).2
  | .conditionalFalse test _ branch, he, hs =>
    branch.keeps hc (hc.items _ he _ (by simp)) (test.keeps hc (hc.items _ he _ (by simp)) hs).2
  | .conditionalError test, he, hs => ⟨nofun, (test.keeps hc (hc.items _ he _ (by simp)) hs).2⟩
  | .combination _ fn operands call, he, hs => by
    obtain ⟨hv, hs₁⟩ := fn.keeps hc (hc.head he) hs
    obtain ⟨ha, hs₂⟩ := operands.keeps hc (hc.tail he) hs₁
    exact call.keeps hc (hv _ rfl) (ha _ rfl) hs₂
  | .headError _ fn, he, hs =>
    ⟨nofun, (fn.keeps hc (hc.head he) hs).2⟩
  | .operandError _ fn operands, he, hs => by
    obtain ⟨-, hs₁⟩ := fn.keeps hc (hc.head he) hs
    exact ⟨nofun, (operands.keeps hc (hc.tail he) hs₁).2⟩

theorem EvaluatesAll.keeps (hc : Closed E V) : EvaluatesAll returns stop s f es r s' →
    (∀ e ∈ es, E e) → s.All V → (∀ vs, r = .ok vs → ∀ v ∈ vs, V v) ∧ s'.All V
  | .nil, _, hs => ⟨fun vs hvs => by cases hvs; nofun, hs⟩
  | .cons first others, he, hs => by
    obtain ⟨hv, hs₁⟩ := first.keeps hc (he _ (List.mem_cons_self ..)) hs
    obtain ⟨hvs, hs₂⟩ := others.keeps hc (fun e h => he e (List.mem_cons_of_mem _ h)) hs₁
    refine ⟨fun vs h => ?_, hs₂⟩
    cases h
    exact List.forall_mem_cons.2 ⟨hv _ rfl, hvs _ rfl⟩
  | .firstError first, he, hs => ⟨nofun, (first.keeps hc (he _ (List.mem_cons_self ..)) hs).2⟩
  | .othersError first others, he, hs => by
    obtain ⟨-, hs₁⟩ := first.keeps hc (he _ (List.mem_cons_self ..)) hs
    exact ⟨nofun, (others.keeps hc (fun e h => he e (List.mem_cons_of_mem _ h)) hs₁).2⟩

theorem Applies.keeps (hc : Closed E V) : Applies returns stop s f v args r s' → V v →
    (∀ a ∈ args, V a) → s.All V → (∀ w, r = .ok w → V w) ∧ s'.All V
  | .lambda _ body, hv, ha, hs => body.keeps hc (hc.body _ _ _ hv) (hs.push ha _)
  | .lambdaCount _, _, _, hs | .notFunction _ _, _, _, hs => ⟨nofun, hs⟩
  | .operator, _, ha, hs => ⟨fun _ hw => hc.operator _ _ _ ha hw, hs⟩
  | .host _, hv, _, _ => absurd hv (hc.host _)

end

end Lisplet
