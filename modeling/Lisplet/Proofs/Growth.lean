/-
# Evaluation lets a store evolve

A computation grows on a machine if it lets the store evolve and, where it has a value,
the lambdas in the value were created in frames that exist then (`Eval.Grows`).  An
evaluator grows if it does so wherever the store is grounded, the frame exists and the
lambdas in the expression were created in frames that exist (`Store.Ready`).

What is asked of the functions of a host is that their calls grow if the evaluator that
they are given does (`Host.Grows`): they may evaluate, define and make frames, but they
name no frame that is not there.  Then one level of evaluation grows if what is nested
inside does (`Evaluator.Grows.step`), and so does evaluation to any depth
(`Host.Grows.evaluate`), however it ends.
-/

import Lisplet.Proofs.Grounded
import Lisplet.Proofs.Outcome

namespace Lisplet

open Eval

/-! ### Computations that let a store evolve -/

namespace Eval

/-- On a machine a computation lets the store evolve, and its value, if it has one, is as
`V` says for the number of frames that there are then. -/
structure Grows (x : Eval α) (m : Machine) (V : Nat → α → Prop) : Prop where
  /-- The store evolves. -/
  evolves : m.store.Evolves (outcome x m).2.store
  /-- The value is such a value. -/
  value : ∀ a, (outcome x m).1 = .ok a → V (outcome x m).2.store.next a

/-- No condition on a value. -/
def anything (_ : Nat) (_ : α) : Prop := True

namespace Grows

variable {x : Eval α} {k : α → Eval β} {m : Machine} {V : Nat → α → Prop} {W : Nat → β → Prop}

theorem pure {a : α} (ha : V m.store.next a) : Grows (pure a) m V where
  evolves := .refl _
  value b hb := by
    obtain rfl := Except.ok.inj hb
    exact ha

theorem throw (e : Error) : Grows (throw e : Eval α) m V where
  evolves := .refl _
  value := nofun

/-- What comes after a value starts from the store that was left with it. -/
theorem bind (hx : Grows x m V) (hk : ∀ a m₁, m.store.Evolves m₁.store → V m₁.store.next a →
    Grows (k a) m₁ W) : Grows (x >>= k) m W := by
  rcases ho : outcome x m with ⟨e | a, m₁⟩
  · have hbind : outcome (x >>= k) m = (.error e, m₁) := by rw [outcome_bind, ho]
    refine ⟨?_, by rw [hbind]; nofun⟩
    rw [hbind]
    simpa [ho] using hx.evolves
  · have hbind : outcome (x >>= k) m = outcome (k a) m₁ := by rw [outcome_bind, ho]
    have hm₁ : m.store.Evolves m₁.store := by simpa [ho] using hx.evolves
    have ha : V m₁.store.next a := by simpa [ho] using hx.value a (by rw [ho])
    obtain ⟨hevolves, hvalue⟩ := hk a m₁ hm₁ ha
    rw [← hbind] at hevolves hvalue
    exact ⟨hm₁.trans hevolves, hvalue⟩

theorem ofExcept {r : Except Error α} (hr : ∀ a, r = .ok a → V m.store.next a) :
    Grows (ofExcept r) m V := by
  cases r with
  | ok a => exact pure (hr a rfl)
  | error err => exact throw err

theorem get_bind {k : Machine → Eval β} (h : Grows (k m) m W) : Grows (get >>= k) m W :=
  ⟨h.evolves, h.value⟩

theorem lookup (hs : m.store.Grounded) (f : FrameId) (x : Symbol) :
    Grows (lookup f x) m Value.Within := by
  unfold Eval.lookup
  refine get_bind ?_
  split
  · rename_i v hv
    exact pure (hs.within.lookup hv)
  · exact throw _

theorem record (event : Event) : Grows (record event) m anything := by
  obtain ⟨trace, h | ⟨-, -, h⟩⟩ := outcome_record event m
  all_goals exact ⟨by rw [h]; exact .refl _, fun _ _ => trivial⟩

theorem assign (f : FrameId) (x : Symbol) {v : Value} (hv : v.Within m.store.next) :
    Grows (assign f x v) m anything where
  evolves := (Store.Evolves.refl _).write (.bind f x hv)
  value _ _ := trivial

theorem define (f : FrameId) (name : Value) {v : Value} (hv : v.Within m.store.next) :
    Grows (define f name v) m anything := by
  unfold Eval.define
  split
  · exact assign f _ hv
  · exact throw _

theorem update (f : FrameId) {pairs : List (Value × Value)} : ∀ {m : Machine},
    (∀ v ∈ pairs.map Prod.snd, v.Within m.store.next) → Grows (update f pairs) m anything := by
  induction pairs with
  | nil => exact fun _ => pure trivial
  | cons pair pairs ih =>
    intro m hpairs
    obtain ⟨hpair, hrest⟩ := List.forall_mem_cons.1 hpairs
    exact (define f pair.1 hpair).bind fun _ m₁ hm₁ _ =>
      ih fun v hv => (hrest v hv).mono hm₁.next_le

theorem newFrame {pairs : List (Symbol × Value)} {outer : Option FrameId}
    (ho : ∀ o, outer = some o → o < m.store.next)
    (hp : ∀ v ∈ pairs.map Prod.snd, v.Within m.store.next) :
    Grows (newFrame (Bindings.empty.insertAll pairs) outer) m fun n f => f < n where
  evolves := (Store.Evolves.refl _).write (.frame ho hp)
  value f hf := by
    obtain rfl := Except.ok.inj hf
    simp

theorem empty {outer : Option FrameId} (ho : ∀ o, outer = some o → o < m.store.next) :
    Grows (Eval.newFrame .empty outer) m fun n f => f < n :=
  @newFrame m [] outer ho (List.forall_mem_nil _)

theorem extend {formals : List Symbol} {body : Value} {captured : FrameId} {args : List Value}
    (hc : captured < m.store.next) (ha : ∀ a ∈ args, a.Within m.store.next) :
    Grows (extend formals body captured args) m fun n f => f < n := by
  unfold Eval.extend
  split
  · exact newFrame (by rintro _ ⟨⟩; exact hc) (forall_mem_snd_zip ha)
  · exact throw _

end Grows
end Eval

/-! ### Evaluators -/

/-- A row of values may be evaluated in a frame: the store is grounded, the frame exists,
and the lambdas in the values were created in frames that exist. -/
structure Store.Ready (s : Store) (f : FrameId) (es : List Value) : Prop where
  grounded : s.Grounded
  lt_next : f < s.next
  within : ∀ e ∈ es, e.Within s.next

namespace Store.Ready

variable {s s' : Store} {f : FrameId} {e : Value} {es es' : List Value}

/-- So may be a row of some of them. -/
theorem subset (h : s.Ready f es) (hes : es' ⊆ es) : s.Ready f es' :=
  ⟨h.grounded, h.lt_next, fun e he => h.within e (hes he)⟩

theorem of_mem (h : s.Ready f es) (he : e ∈ es) : s.Ready f [e] :=
  h.subset (by simpa using he)

theorem head (h : s.Ready f (e :: es)) : s.Ready f [e] := h.of_mem (List.mem_cons_self ..)

theorem tail (h : s.Ready f (e :: es)) : s.Ready f es := h.subset (List.subset_cons_self e es)

/-- So may be the items of a list. -/
theorem items (h : s.Ready f [.list es]) : s.Ready f es :=
  ⟨h.grounded, h.lt_next, Value.within_list.1 (h.within _ (List.mem_singleton_self _))⟩

/-- So may be the items of another sequence. -/
theorem hostItems {kind : HostListKind} (h : s.Ready f [.hostList kind es]) : s.Ready f es :=
  ⟨h.grounded, h.lt_next, Value.within_hostList.1 (h.within _ (List.mem_singleton_self _))⟩

/-- And it still may be after the store has evolved. -/
theorem evolves (h : s.Ready f es) (hs : s.Evolves s') : s'.Ready f es :=
  ⟨hs.grounded h.grounded, Nat.lt_of_lt_of_le h.lt_next hs.next_le,
    fun e he => (h.within e he).mono hs.next_le⟩

end Store.Ready

/-- An evaluator lets the store evolve, and the lambdas in its values were created in
frames that exist. -/
def Evaluator.Grows (eval : Evaluator) : Prop :=
  ∀ e f m, m.store.Ready f [e] → Eval.Grows (eval e f) m Value.Within

/-- A call lets the store evolve, and the lambdas in its value were created in frames that
exist, if that is so of what it evaluates. -/
def HostCall.Grows (call : HostCall) : Prop :=
  ∀ eval, Evaluator.Grows eval → ∀ f args m, m.store.Ready f args →
    Eval.Grows (call eval f args) m Value.Within

/-- All calls of host functions do so. -/
def Host.Grows (host : Host) : Prop := ∀ fn, (host.call fn).Grows

/-- A new lambda was created in a frame that exists. -/
theorem Evaluate.grows_abstraction {f : FrameId} {m : Machine} {parts : List Value}
    (hm : m.store.Ready f parts) : Eval.Grows (abstraction f parts) m Value.Within := by
  unfold abstraction
  split
  · rename_i params body
    refine (Grows.ofExcept (V := anything) fun _ _ => trivial).bind fun formals m₁ hm₁ _ => ?_
    obtain ⟨-, hf, hparts⟩ := hm.evolves hm₁
    exact .pure (Value.within_lambda.2 ⟨hf, hparts body (by simp)⟩)
  · exact .throw _

namespace Evaluator.Grows

open Evaluate

variable {eval : Evaluator} (h : Evaluator.Grows eval) {f : FrameId}
include h

theorem operands {es : List Value} : ∀ {m : Machine}, m.store.Ready f es →
    Eval.Grows (operands eval f es) m fun n vs => ∀ v ∈ vs, v.Within n := by
  induction es with
  | nil => exact fun _ => .pure (List.forall_mem_nil _)
  | cons e es ih =>
    intro m hm
    refine (h e f m hm.head).bind fun v m₁ hm₁ hv => ?_
    refine (ih (hm.evolves hm₁).tail).bind fun vs m₂ hm₂ hvs => ?_
    exact .pure (List.forall_mem_cons.2 ⟨hv.mono hm₂.next_le, hvs⟩)

theorem sequence {es : List Value} : ∀ {m : Machine} {last : Value}, m.store.Ready f es →
    last.Within m.store.next → Eval.Grows (sequence eval f last es) m Value.Within := by
  induction es with
  | nil => exact fun _ hlast => .pure hlast
  | cons e es ih =>
    exact fun hm _ => (h e f _ hm.head).bind fun v m₁ hm₁ hv => ih (hm.evolves hm₁).tail hv

variable {m : Machine} {parts : List Value}

theorem definition (hm : m.store.Ready f parts) :
    Eval.Grows (definition eval f parts) m Value.Within := by
  unfold Evaluate.definition
  split
  · rename_i target e
    split
    · exact .throw _
    · refine (h e f m (hm.of_mem (by simp))).bind fun v m₁ _ hv => ?_
      refine (Grows.assign f _ hv).bind fun _ m₂ _ _ => .get_bind ?_
      split
      · exact (Grows.record _).bind fun _ _ _ _ => .pure (Value.within_of_closures_eq_nil rfl)
      · exact .pure (Value.within_of_closures_eq_nil rfl)
  · exact .throw _

theorem conditional (hm : m.store.Ready f parts) :
    Eval.Grows (conditional eval f parts) m Value.Within := by
  unfold Evaluate.conditional
  split
  · rename_i test consequent alternate
    refine (h test f m hm.head).bind fun v m₁ hm₁ _ => ?_
    have hrest := (hm.evolves hm₁).tail
    split
    · exact h consequent f m₁ hrest.head
    · exact h alternate f m₁ hrest.tail.head
  · exact .throw _

theorem form (which : Form) (hm : m.store.Ready f parts) :
    Eval.Grows (form eval f which parts) m Value.Within := by
  cases which with
  | sequence => exact h.sequence hm (Value.within_of_closures_eq_nil rfl)
  | definition => exact h.definition hm
  | abstraction => exact grows_abstraction hm
  | conditional => exact h.conditional hm

variable {host : Host} (hhost : host.Grows)
include hhost

theorem apply {fn : Value} {args : List Value} (hm : m.store.Ready f args)
    (hfn : fn.Within m.store.next) :
    Eval.Grows (apply host eval f fn args) m Value.Within := by
  unfold Evaluate.apply
  split
  · rename_i formals body captured
    obtain ⟨hcaptured, hbody⟩ := Value.within_lambda.1 hfn
    refine (Grows.extend hcaptured hm.within).bind fun inner m₁ hm₁ hinner => ?_
    refine (Grows.record _).bind fun _ m₂ hm₂ _ => h body inner m₂ ?_
    refine ⟨(hm₁.trans hm₂).grounded hm.grounded, Nat.lt_of_lt_of_le hinner hm₂.next_le, ?_⟩
    exact List.forall_mem_singleton.2 (hbody.mono (hm₁.trans hm₂).next_le)
  · refine .ofExcept fun v hv => ?_
    rcases Operator.apply_eq_ok hv with ⟨n, rfl⟩ | ⟨b, rfl⟩ <;>
      exact Value.within_of_closures_eq_nil rfl
  · exact hhost _ eval h f args m hm
  · exact .throw _

theorem list {items : List Value} (hm : m.store.Ready f items) :
    Eval.Grows (list host eval f items) m Value.Within := by
  unfold Evaluate.list
  split
  · exact .throw _
  · rename_i head tail
    split
    · exact h.form _ hm.tail
    · refine (h head f m hm.head).bind fun fn m₁ hm₁ hfn => ?_
      have hm' := hm.tail.evolves hm₁
      refine (h.operands hm').bind fun args m₂ hm₂ hargs => ?_
      obtain ⟨hgrounded, hf, -⟩ := hm'.evolves hm₂
      exact h.apply hhost ⟨hgrounded, hf, hargs⟩ (hfn.mono hm₂.next_le)

/-- One level of evaluation grows if what is nested inside of it does, and the calls of
host functions. -/
theorem step : Evaluator.Grows (step host eval) := by
  intro e f m hm
  unfold Evaluate.step
  split
  · exact .lookup hm.grounded f _
  · exact h.list hhost hm.items
  · exact h.list hhost hm.hostItems
  · exact .pure (hm.within _ (List.mem_singleton_self _))

end Evaluator.Grows

/-- **Evaluation to any depth lets a store evolve**, and the lambdas of its value were
created in frames that exist. -/
theorem Host.Grows.evaluate {host : Host} (hhost : host.Grows) (depth : Nat) :
    Evaluator.Grows (evaluate host depth) := by
  induction depth with
  | zero => exact fun _ _ _ _ => .throw _
  | succ depth ih => exact ih.step hhost

/-! ### Hosts -/

theorem HostCall.grows_missing (fn : HostFunction) : (missing fn).Grows :=
  fun _ _ _ _ _ _ => .throw _

/-- A call that needs an argument grows if it does so with one. -/
theorem HostCall.grows_withFirst {fn : HostFunction} {call : FrameId → Value → Eval Value}
    (h : ∀ f v m, v.Within m.store.next → Eval.Grows (call f v) m Value.Within) :
    (withFirst fn call).Grows := by
  intro eval _ f args m hm
  cases args with
  | nil => exact .throw _
  | cons v rest => exact h f v m (hm.within v (List.mem_cons_self ..))

/-- What is twice a value holds the lambdas that the value holds. -/
theorem Value.Within.twice {n : Nat} {v w : Value} (hv : v.Within n) (h : v.twice? = some w) :
    w.Within n := by
  unfold Value.twice? at h
  split at h <;> cases h
  case h_5 =>
    have hitems := within_list.1 hv
    exact within_list.2 (List.forall_mem_append.2 ⟨hitems, hitems⟩)
  case h_6 =>
    have hitems := within_hostList.1 hv
    exact within_hostList.2 (List.forall_mem_append.2 ⟨hitems, hitems⟩)
  all_goals exact within_of_closures_eq_nil rfl

theorem Host.grows_none : Host.none.Grows := HostCall.grows_missing

/-- The standard host makes no lambdas. -/
theorem Host.grows_standard : Host.standard.Grows := by
  have htwice : HostCall.twice.Grows := HostCall.grows_withFirst fun f v m hv => by
    split
    · rename_i w hw
      exact .pure (hv.twice hw)
    · exact .throw _
  have hdepth : HostCall.depth.Grows := fun _ _ _ _ _ _ =>
    .get_bind (.pure (Value.within_of_closures_eq_nil rfl))
  have hhere : HostCall.here.Grows := HostCall.grows_withFirst fun f v m hv =>
    (Grows.assign f _ hv).bind fun _ _ _ _ => .pure (Value.within_of_closures_eq_nil rfl)
  exact Host.call_standard (fun _ _ _ _ _ _ => .pure (Value.within_of_closures_eq_nil rfl)) htwice
    (fun _ _ _ _ _ hm => .pure (Value.within_list.2 hm.within)) hdepth hhere HostCall.grows_missing

end Lisplet
