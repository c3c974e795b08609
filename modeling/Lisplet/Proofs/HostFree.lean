/-
# Where there are no host functions

A value holds no host function if it is none, and none stands in its items or in the body
of a lambda (`Value.HostFree`).  Where an expression and the store hold none, evaluation
makes none (`closed_hostFree`), and so it calls none: it is the same with every host
(`evaluate_of_hostFree`).  What is true of such evaluations with one host, for example
with the one that has no functions, is true of them with any other.
-/

import Lisplet.Proofs.Closed
import Lisplet.Proofs.Soundness

namespace Lisplet

namespace Value

mutual

/-- Whether a value holds no host function, neither itself nor in its items or in
the body of a lambda. -/
def isHostFree : Value → Bool
  | .function (.host _) => false
  | .list items => areHostFree items
  | .hostList _ items => areHostFree items
  | .lambda _ body _ => isHostFree body
  | _ => true

/-- Whether all values of a row hold no host function. -/
def areHostFree : List Value → Bool
  | [] => true
  | v :: rest => isHostFree v && areHostFree rest

end

/-- Whether a value holds no host function, as a property. -/
def HostFree (v : Value) : Prop := v.isHostFree = true

theorem areHostFree_iff {items : List Value} :
    areHostFree items = true ↔ ∀ v ∈ items, v.HostFree := by
  induction items with
  | nil => simp [areHostFree]
  | cons v rest ih => simp [areHostFree, ih, HostFree]

mutual

/-- What the reader builds holds no function. -/
theorem hostFree_of_isTree : ∀ {e : Value}, e.isTree = true → e.HostFree
  | .number _, _ | .symbol _, _ => rfl
  | .list _, h => areHostFree_of_areTrees h

theorem areHostFree_of_areTrees : ∀ {es : List Value}, areTrees es = true → areHostFree es = true
  | [], _ => rfl
  | e :: es, h => by
    obtain ⟨he, hes⟩ := List.forall_mem_cons.1 (areTrees_iff.1 h)
    rw [areHostFree, hostFree_of_isTree he, areHostFree_of_areTrees (areTrees_iff.2 hes)]
    rfl

end

end Value

/-- **Where there are no host functions, evaluation makes none.** -/
theorem closed_hostFree : Closed Value.HostFree Value.HostFree where
  constant _ he _ := he
  items _ he := Value.areHostFree_iff.1 he
  hostList _ _ he := he
  unit := rfl
  lambda _ _ _ he := he
  body _ _ _ hv := hv
  operator _ _ _ _ h := by
    rcases Operator.apply_eq_ok h with ⟨n, rfl⟩ | ⟨b, rfl⟩ <;> rfl
  host _ := nofun

/-! ### Computations that keep to a store without host functions -/

namespace Eval

variable {α β : Type} {P : α → Prop} {Q : β → Prop} {x y : Eval α} {m : Machine}

/-- Two computations are the same on machines whose stores hold no host function; they leave
such a machine, and their value, if they have one, is as `P` says. -/
def SameFree (P : α → Prop) (x y : Eval α) : Prop :=
  ∀ m, m.store.All Value.HostFree → outcome x m = outcome y m ∧
    (outcome x m).2.store.All Value.HostFree ∧ ∀ a, (outcome x m).1 = .ok a → P a

theorem sameFree_pure {a : α} (ha : P a) : SameFree P (pure a) (pure a) :=
  fun _ hm => ⟨rfl, hm, by rintro _ ⟨⟩; exact ha⟩

theorem sameFree_throw (err : Error) : SameFree P (throw err) (throw err) :=
  fun _ hm => ⟨rfl, hm, nofun⟩

theorem sameFree_ofExcept {r : Except Error α} (hr : ∀ a, r = .ok a → P a) :
    SameFree P (ofExcept r) (ofExcept r) := by
  intro m hm
  rw [outcome_ofExcept]
  exact ⟨rfl, hm, hr⟩

theorem SameFree.bind {k l : α → Eval β} (hx : SameFree P x y)
    (hk : ∀ a, P a → SameFree Q (k a) (l a)) : SameFree Q (x >>= k) (y >>= l) := by
  intro m hm
  obtain ⟨hsame, hfree, hvalue⟩ := hx m hm
  rw [outcome_bind, outcome_bind, ← hsame]
  generalize outcome x m = p at hfree hvalue ⊢
  obtain ⟨err | a, m'⟩ := p
  · exact ⟨rfl, hfree, nofun⟩
  · exact hk a (hvalue a rfl) m' hfree

theorem sameFree_get_bind {k l : Machine → Eval β} (h : ∀ m, SameFree Q (k m) (l m)) :
    SameFree Q (get >>= k) (get >>= l) := by
  intro m hm
  rw [outcome_get_bind, outcome_get_bind]
  exact h m m hm

theorem sameFree_lookup (f : FrameId) (x : Symbol) :
    SameFree Value.HostFree (lookup f x) (lookup f x) := by
  intro m hm
  rw [outcome_lookup]
  refine ⟨rfl, hm, fun v hv => ?_⟩
  cases hx : m.store.lookup? f x with
  | none => simp [hx] at hv
  | some w =>
    simp only [hx, Except.ok.injEq] at hv
    exact hv ▸ hm.lookup hx

theorem sameFree_record (event : Event) :
    SameFree (fun _ => True) (record event) (record event) := by
  intro m hm
  obtain ⟨trace, h | ⟨-, -, h⟩⟩ := outcome_record event m
  all_goals exact ⟨rfl, by rw [h]; exact hm, fun _ _ => trivial⟩

theorem sameFree_assign (f : FrameId) (x : Symbol) {v : Value} (hv : v.HostFree) :
    SameFree (fun _ => True) (assign f x v) (assign f x v) :=
  fun _ hm => ⟨rfl, hm.define hv f x, fun _ _ => trivial⟩

theorem sameFree_extend (formals : List Symbol) (body : Value) (captured : FrameId)
    {args : List Value} (ha : ∀ a ∈ args, a.HostFree) :
    SameFree (fun _ => True) (extend formals body captured args)
      (extend formals body captured args) := by
  intro m hm
  refine ⟨rfl, ?_, fun _ _ => trivial⟩
  by_cases hl : args.length = formals.length
  · rw [outcome_extend hl]
    exact hm.push ha _
  · rw [outcome_extend_of_ne hl]
    exact hm

end Eval

/-! ### Evaluators that are the same without host functions -/

namespace Evaluate

open Eval Value

/-- Two evaluators are the same for expressions and stores without host functions. -/
def SameFree (eval eval' : Evaluator) : Prop :=
  ∀ e f, e.HostFree → Eval.SameFree HostFree (eval e f) (eval' e f)

variable {eval eval' : Evaluator} (h : SameFree eval eval') (f : FrameId)
include h

theorem SameFree.operands {es : List Value} (hes : ∀ e ∈ es, e.HostFree) :
    Eval.SameFree (fun vs => ∀ v ∈ vs, v.HostFree) (operands eval f es) (operands eval' f es) := by
  induction es with
  | nil => exact sameFree_pure (List.forall_mem_nil _)
  | cons e es ih =>
    obtain ⟨he, hes⟩ := List.forall_mem_cons.1 hes
    exact (h e f he).bind fun v hv => (ih hes).bind fun vs hvs =>
      sameFree_pure (List.forall_mem_cons.2 ⟨hv, hvs⟩)

theorem SameFree.sequence {es : List Value} (hes : ∀ e ∈ es, e.HostFree) : ∀ {last : Value},
    last.HostFree →
    Eval.SameFree HostFree (sequence eval f last es) (sequence eval' f last es) := by
  induction es with
  | nil => exact fun hlast => sameFree_pure hlast
  | cons e es ih =>
    obtain ⟨he, hes⟩ := List.forall_mem_cons.1 hes
    exact fun _ => (h e f he).bind fun v hv => ih hes hv

theorem SameFree.definition {parts : List Value} (hparts : ∀ e ∈ parts, e.HostFree) :
    Eval.SameFree HostFree (definition eval f parts) (definition eval' f parts) := by
  unfold Evaluate.definition
  split
  · rename_i e
    split
    · exact sameFree_throw _
    · refine (h e f (hparts e (by simp))).bind fun v hv => ?_
      refine (sameFree_assign f _ hv).bind fun _ _ => sameFree_get_bind fun m => ?_
      split
      · exact (sameFree_record _).bind fun _ _ => sameFree_pure rfl
      · exact sameFree_pure rfl
  · exact sameFree_throw _

theorem SameFree.conditional {parts : List Value} (hparts : ∀ e ∈ parts, e.HostFree) :
    Eval.SameFree HostFree (conditional eval f parts) (conditional eval' f parts) := by
  unfold Evaluate.conditional
  split
  · rename_i test consequent alternate
    refine (h test f (hparts test (by simp))).bind fun v _ => ?_
    split
    · exact h consequent f (hparts consequent (by simp))
    · exact h alternate f (hparts alternate (by simp))
  · exact sameFree_throw _

theorem SameFree.form (which : Form) {parts : List Value} (hparts : ∀ e ∈ parts, e.HostFree) :
    Eval.SameFree HostFree (form eval f which parts) (form eval' f which parts) := by
  cases which with
  | sequence => exact h.sequence f hparts rfl
  | definition => exact h.definition f hparts
  | abstraction =>
    simp only [Evaluate.form, abstraction]
    split
    · rename_i params body
      exact (sameFree_ofExcept (P := fun _ => True) fun _ _ => trivial).bind fun formals _ =>
        sameFree_pure (show body.HostFree from hparts body (by simp))
    · exact sameFree_throw _
  | conditional => exact h.conditional f hparts

variable {host host' : Host}

theorem SameFree.apply {fn : Value} {args : List Value} (hfn : fn.HostFree)
    (hargs : ∀ a ∈ args, a.HostFree) :
    Eval.SameFree HostFree (apply host eval f fn args) (apply host' eval' f fn args) := by
  unfold Evaluate.apply
  split
  · rename_i formals body captured
    exact (sameFree_extend formals body captured hargs).bind fun inner _ =>
      (sameFree_record _).bind fun _ _ => h body inner hfn
  · exact sameFree_ofExcept fun v hv => closed_hostFree.operator _ args v hargs hv
  · exact absurd hfn (closed_hostFree.host _)
  · exact sameFree_throw _

theorem SameFree.list {items : List Value} (hitems : ∀ e ∈ items, e.HostFree) :
    Eval.SameFree HostFree (list host eval f items) (list host' eval' f items) := by
  unfold Evaluate.list
  split
  · exact sameFree_throw _
  · rename_i head tail
    obtain ⟨hhead, htail⟩ := List.forall_mem_cons.1 hitems
    split
    · exact h.form f _ htail
    · exact (h head f hhead).bind fun fn hfn => (h.operands f htail).bind fun args hargs =>
        h.apply f hfn hargs

omit f in
/-- Hosts make no difference to one level of evaluation. -/
theorem SameFree.step : SameFree (step host eval) (step host' eval') := by
  intro e f he
  unfold Evaluate.step
  split
  · exact sameFree_lookup f _
  · exact h.list f (areHostFree_iff.1 he)
  · exact h.list f (areHostFree_iff.1 he)
  · exact sameFree_pure he

end Evaluate

theorem Evaluate.sameFree (host host' : Host) (depth : Nat) :
    SameFree (evaluate host depth) (evaluate host' depth) := by
  induction depth with
  | zero => exact fun _ _ _ => Eval.sameFree_throw _
  | succ depth ih => exact ih.step

/-- **Where there are no host functions, all hosts are the same.** -/
theorem evaluate_of_hostFree (host host' : Host) {e : Value} {m : Machine} (he : e.HostFree)
    (hs : m.store.All Value.HostFree) (depth : Nat) (f : FrameId) :
    Eval.outcome (evaluate host depth e f) m = Eval.outcome (evaluate host' depth e f) m :=
  (Evaluate.sameFree host host' depth e f he m hs).1

/-- Where there are no host functions, a bounded evaluation follows the rules or breaks off
whatever the host. -/
theorem evaluate_follows_of_hostFree (host : Host) {e : Value} {m : Machine} (he : e.HostFree)
    (hs : m.store.All Value.HostFree) (depth : Nat) (f : FrameId) :
    let final := Eval.outcome (evaluate host depth e f) m
    Evaluates (Host.none.Does m.tracing) (BreaksOff m.tracing) m.store f e final.1 final.2.store ∧
      final.2.tracing = m.tracing := by
  rw [evaluate_of_hostFree host .none he hs]
  exact evaluate_follows Host.keepsTracing_none m.tracing depth e f m _ _ rfl rfl

end Lisplet
