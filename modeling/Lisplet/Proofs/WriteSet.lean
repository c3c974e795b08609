/-
# What an evaluation may write

A definition binds in the frame in which it is evaluated, and a lambda evaluates
its body in a frame of its own.  So an evaluation changes no frame that existed
before but the one it works in, whatever lambdas it applies, and there it binds
only the symbols that are targets of definitions outside of lambda forms
(`Value.targets`).  This holds however the evaluation ends, also when it gives up
midway.  Host functions are left out, since they may bind what they like in the
frame of the call.

`Writes f xs s s'` is the invariant: it composes along a sequence, and the
application of a lambda satisfies it with no symbol at all, because the frame in
which the body writes is not among the earlier ones (`Writes.of_push`).
`evaluate_writes` reads it off an evaluation of any depth.
-/

import Lisplet.Proofs.HostFree

namespace Lisplet

namespace Value

mutual

/-- The targets of the definitions in an expression, those inside of lambda forms
left out. -/
def targets : Value → List Symbol
  | .list items => listTargets items
  | .hostList _ items => listTargets items
  | _ => []

/-- The targets of the definitions in a list. -/
def listTargets : List Value → List Symbol
  | [] => []
  | head :: tail =>
    match head.form? with
    | some .definition => (tail.head?.bind symbol?).toList ++ rowTargets tail
    | some .abstraction => []
    | _ => targets head ++ rowTargets tail

/-- The targets of the definitions in a row of expressions. -/
def rowTargets : List Value → List Symbol
  | [] => []
  | e :: rest => targets e ++ rowTargets rest

end

/-- A form other than a definition or a lambda form has the targets of its parts. -/
theorem targets_sequence (parts : List Value) :
    targets (.list (.symbol Form.sequence.keyword :: parts)) = rowTargets parts := by
  simp [targets, listTargets]

theorem targets_conditional (parts : List Value) :
    targets (.list (.symbol Form.conditional.keyword :: parts)) = rowTargets parts := by
  simp [targets, listTargets]

theorem targets_definition (x : Symbol) (e : Value) :
    targets (.list [.symbol Form.definition.keyword, .symbol x, e]) = x :: targets e := by
  simp [targets, listTargets, rowTargets, symbol?]

theorem targets_subset_rowTargets {e : Value} {es : List Value} (h : e ∈ es) :
    targets e ⊆ rowTargets es := by
  induction es with
  | nil => cases h
  | cons e' es ih =>
    rcases List.mem_cons.1 h with rfl | h
    · exact List.subset_append_left _ _
    · exact List.subset_append_of_subset_right _ (ih h)

theorem targets_combination {head : Value} (hf : head.form? = none) (es : List Value) :
    targets (.list (head :: es)) = targets head ++ rowTargets es := by
  simp [targets, listTargets, hf]

end Value

/-- From `s` to `s'` no frame was changed but `f`, and in it only symbols among `xs`
were bound. -/
structure Writes (f : FrameId) (xs : List Symbol) (s s' : Store) : Prop where
  /-- No frame is lost. -/
  next_le : s.next ≤ s'.next
  /-- The other frames are what they were. -/
  other : ∀ g, g < s.next → g ≠ f → s'.frame? g = s.frame? g
  /-- The frame `f` got bindings of symbols among `xs`, one after another. -/
  own : f < s.next → ∃ pairs : List (Symbol × Value), (∀ pair ∈ pairs, pair.1 ∈ xs) ∧
    s'.frame? f = (s.frame? f).map fun frame =>
      { frame with bindings := frame.bindings.insertAll pairs }

namespace Writes

variable {f : FrameId} {xs ys : List Symbol} {s s₁ s₂ : Store}

theorem refl (f : FrameId) (xs : List Symbol) (s : Store) : Writes f xs s s where
  next_le := Nat.le_refl _
  other _ _ _ := rfl
  own _ := ⟨[], by simp, by simp [Bindings.insertAll]⟩

theorem mono (h : Writes f xs s s₁) (hxs : xs ⊆ ys) : Writes f ys s s₁ where
  next_le := h.next_le
  other := h.other
  own hf := by
    obtain ⟨pairs, hpairs, hframe⟩ := h.own hf
    exact ⟨pairs, fun pair hp => hxs (hpairs pair hp), hframe⟩

theorem trans (h₁ : Writes f xs s s₁) (h₂ : Writes f xs s₁ s₂) : Writes f xs s s₂ where
  next_le := Nat.le_trans h₁.next_le h₂.next_le
  other g hg hne := (h₂.other g (Nat.lt_of_lt_of_le hg h₁.next_le) hne).trans (h₁.other g hg hne)
  own hf := by
    obtain ⟨pairs₁, hpairs₁, hframe₁⟩ := h₁.own hf
    obtain ⟨pairs₂, hpairs₂, hframe₂⟩ := h₂.own (Nat.lt_of_lt_of_le hf h₁.next_le)
    refine ⟨pairs₁ ++ pairs₂, fun pair hp => ?_, ?_⟩
    · exact (List.mem_append.1 hp).elim (hpairs₁ pair) (hpairs₂ pair)
    · rw [hframe₂, hframe₁, Option.map_map]
      congr 1
      funext frame
      simp [Bindings.insertAll]

/-- A definition writes its target in its frame. -/
theorem define (f : FrameId) (x : Symbol) (v : Value) (s : Store) :
    Writes f [x] s (s.define f x v) where
  next_le := by simp [Store.next, Store.define]
  other g _ hne := by simp [Store.frame?, Store.define, Array.getElem?_modify, hne.symm]
  own _ := by
    refine ⟨[(x, v)], by simp, ?_⟩
    simp [Store.frame?, Store.define, Array.getElem?_modify, Bindings.insertAll]

/-- What is written in a new frame is not written in an earlier one. -/
theorem of_push {frame : Frame} (h : Writes s.next xs (s.push frame) s₁) (f : FrameId) :
    Writes f [] s s₁ := by
  have hnext : s.next ≤ (s.push frame).next := by simp [Store.next, Store.push]
  have hkept : ∀ g, g < s.next → s₁.frame? g = s.frame? g := fun g hg =>
    (h.other g (Nat.lt_of_lt_of_le hg hnext) (Nat.ne_of_lt hg)).trans (Store.frame?_push_of_lt hg)
  refine ⟨Nat.le_trans hnext h.next_le, fun g hg _ => hkept g hg, fun hf => ⟨[], by simp, ?_⟩⟩
  rw [hkept f hf]
  simp [Bindings.insertAll]

/-- Where nothing is to be written, every frame is what it was. -/
theorem frame?_of_nil (h : Writes f [] s s₁) {g : FrameId} (hg : g < s.next) :
    s₁.frame? g = s.frame? g := by
  by_cases hne : g = f
  · subst hne
    obtain ⟨pairs, hpairs, hframe⟩ := h.own hg
    obtain rfl : pairs = [] := List.eq_nil_iff_forall_not_mem.2 fun pair hp =>
      absurd (hpairs pair hp) List.not_mem_nil
    rw [hframe]
    simp [Bindings.insertAll]
  · exact h.other g hg hne

theorem outer? (h : Writes f xs s s₁) (hf : f < s.next) : s₁.outer? f = s.outer? f := by
  obtain ⟨pairs, -, hframe⟩ := h.own hf
  rw [Store.outer?, Store.outer?, hframe]
  cases s.frame? f <;> rfl

theorem get?_insertAll_of_notMem {x : Symbol} {pairs : List (Symbol × Value)}
    (hx : ∀ pair ∈ pairs, pair.1 ≠ x) : ∀ b : Bindings, (b.insertAll pairs).get? x = b.get? x := by
  induction pairs with
  | nil => exact fun _ => rfl
  | cons pair pairs ih =>
    intro b
    obtain ⟨hpair, hpairs⟩ := List.forall_mem_cons.1 hx
    exact (ih hpairs _).trans (by rw [Bindings.get?_insert, if_neg hpair.symm])

/-- The other symbols are bound in the frame to what they were. -/
theorem get?_of_notMem (h : Writes f xs s s₁) (hf : f < s.next) {x : Symbol} (hx : x ∉ xs) :
    (s₁.bindings f).get? x = (s.bindings f).get? x := by
  obtain ⟨pairs, hpairs, hframe⟩ := h.own hf
  rw [Store.bindings, Store.bindings, hframe]
  cases s.frame? f with
  | none => rfl
  | some frame =>
    refine get?_insertAll_of_notMem (fun pair hp heq => hx ?_) frame.bindings
    exact heq ▸ hpairs pair hp

end Writes

/-! ### Evaluation -/

variable {returns : HostReturns} {stop : Error → Prop}

mutual

/-- **What an evaluation may write.**  In its frame it binds targets of definitions
outside of lambda forms, in the earlier frames nothing. -/
theorem Evaluates.writes : Evaluates returns stop s f e r s' → e.HostFree → s.All Value.HostFree →
    Writes f e.targets s s'
  | .bound _, _, _ | .unbound _, _, _ | .constant _, _, _ | .empty, _, _ => .refl _ _ _
  | .definitionTarget _, _, _ | .definitionParts _, _, _ | .abstraction, _, _ => .refl _ _ _
  | .abstractionList _, _, _ | .abstractionSymbol _, _, _ => .refl _ _ _
  | .abstractionParts _, _, _ | .conditionalParts _, _, _ | .stopped _, _, _ => .refl _ _ _
  | .hostList list, he, hs => list.writes he hs
  | .sequence parts, he, hs | .sequenceError parts, he, hs => by
    rw [Value.targets_sequence]
    exact parts.writes (closed_hostFree.tail he) hs
  | .definition value, he, hs => by
    rw [Value.targets_definition]
    have hvalue := value.writes (closed_hostFree.tail he _ (by simp)) hs
    exact (hvalue.mono (List.subset_cons_self _ _)).trans ((Writes.define ..).mono (by simp))
  | .definitionError value, he, hs => by
    rw [Value.targets_definition]
    have hvalue := value.writes (closed_hostFree.tail he _ (by simp)) hs
    exact hvalue.mono (List.subset_cons_self _ _)
  | .conditionalTrue test _ branch, he, hs | .conditionalFalse test _ branch, he, hs => by
    rw [Value.targets_conditional]
    have he := closed_hostFree.tail he
    obtain ⟨-, hs₁⟩ := test.keeps closed_hostFree (he _ (by simp)) hs
    have htest := test.writes (he _ (by simp)) hs
    have hbranch := branch.writes (he _ (by simp)) hs₁
    exact (htest.mono (Value.targets_subset_rowTargets (by simp))).trans
      (hbranch.mono (Value.targets_subset_rowTargets (by simp)))
  | .conditionalError test, he, hs => by
    rw [Value.targets_conditional]
    have htest := test.writes (closed_hostFree.tail he _ (by simp)) hs
    exact htest.mono (Value.targets_subset_rowTargets (by simp))
  | .combination hf fn operands call, he, hs => by
    rw [Value.targets_combination hf]
    obtain ⟨hv, hs₁⟩ := fn.keeps closed_hostFree (closed_hostFree.head he) hs
    obtain ⟨ha, hs₂⟩ := operands.keeps closed_hostFree (closed_hostFree.tail he) hs₁
    have hfn := fn.writes (closed_hostFree.head he) hs
    have hoperands := operands.writes (closed_hostFree.tail he) hs₁
    have hcall := call.writes (hv _ rfl) (ha _ rfl) hs₂
    exact ((hfn.mono (List.subset_append_left _ _)).trans
      (hoperands.mono (List.subset_append_right _ _))).trans (hcall.mono (List.nil_subset _))
  | .headError hf fn, he, hs => by
    rw [Value.targets_combination hf]
    have hfn := fn.writes (closed_hostFree.head he) hs
    exact hfn.mono (List.subset_append_left _ _)
  | .operandError hf fn operands, he, hs => by
    rw [Value.targets_combination hf]
    obtain ⟨-, hs₁⟩ := fn.keeps closed_hostFree (closed_hostFree.head he) hs
    have hfn := fn.writes (closed_hostFree.head he) hs
    have hoperands := operands.writes (closed_hostFree.tail he) hs₁
    exact (hfn.mono (List.subset_append_left _ _)).trans
      (hoperands.mono (List.subset_append_right _ _))

theorem EvaluatesAll.writes : EvaluatesAll returns stop s f es r s' → (∀ e ∈ es, e.HostFree) →
    s.All Value.HostFree → Writes f (Value.rowTargets es) s s'
  | .nil, _, _ => .refl _ _ _
  | .cons first others, he, hs | .othersError first others, he, hs => by
    obtain ⟨hfirst, hothers⟩ := List.forall_mem_cons.1 he
    obtain ⟨-, hs₁⟩ := first.keeps closed_hostFree hfirst hs
    have hwrites := first.writes hfirst hs
    have hwrites' := others.writes hothers hs₁
    exact (hwrites.mono (List.subset_append_left _ _)).trans
      (hwrites'.mono (List.subset_append_right _ _))
  | .firstError first, he, hs => by
    have hwrites := first.writes (List.forall_mem_cons.1 he).1 hs
    exact hwrites.mono (List.subset_append_left _ _)

theorem Applies.writes : Applies returns stop s f v args r s' → v.HostFree →
    (∀ a ∈ args, a.HostFree) → s.All Value.HostFree → Writes f [] s s'
  | .lambda _ body, hv, ha, hs => by
    -- the body writes in the new frame alone
    have hbody := body.writes (closed_hostFree.body _ _ _ hv) (hs.push ha _)
    exact hbody.of_push f
  | .lambdaCount _, _, _, _ | .notFunction _ _, _, _, _ | .operator, _, _, _ => .refl _ _ _
  | .host _, hv, _, _ => absurd hv (closed_hostFree.host _)

end

/-- **An evaluation leaves the earlier frames alone.**  However it ends, every earlier
frame but its own is what it was; its own binds every symbol that is no target of a
definition outside of lambda forms to what it was bound to before, and is what it
was if there is no such definition. -/
theorem evaluate_writes {host : Host} {e : Value} {m : Machine} (he : e.HostFree)
    (hs : m.store.All Value.HostFree) (depth : Nat) (f : FrameId) :
    let s' := (Eval.outcome (evaluate host depth e f) m).2.store
    m.store.next ≤ s'.next ∧
    (∀ g, g < m.store.next → g ≠ f → s'.frame? g = m.store.frame? g) ∧
    (f < m.store.next → s'.outer? f = m.store.outer? f ∧
      ∀ x, x ∉ e.targets → (s'.bindings f).get? x = (m.store.bindings f).get? x) ∧
    (e.targets = [] → ∀ g, g < m.store.next → s'.frame? g = m.store.frame? g) := by
  intro s'
  -- an evaluation that is broken off is covered, since the rules are taken with `BreaksOff`
  obtain ⟨h, -⟩ := evaluate_follows_of_hostFree host he hs depth f
  have hwrites : Writes f e.targets m.store s' := h.writes he hs
  refine ⟨hwrites.next_le, hwrites.other, fun hf => ?_, fun hnil g hg => ?_⟩
  · exact ⟨hwrites.outer? hf, fun x hx => hwrites.get?_of_notMem hf hx⟩
  · rw [hnil] at hwrites
    exact hwrites.frame?_of_nil hg

/-- `(begin (define y 2) (f))` in a frame inside the one where `f` is a lambda that
defines `x`: the outer frame is what it was, and `x` is not bound in the inner one. -/
theorem evaluate_writes_call :
    let fn : Value := .lambda [] (.list [.symbol ⟨"define"⟩, .symbol ⟨"x"⟩, .int 5]) 0
    let e : Value := .list [.symbol ⟨"begin"⟩,
      .list [.symbol ⟨"define"⟩, .symbol ⟨"y"⟩, .int 2], .list [.symbol ⟨"f"⟩]]
    let s : Store := ⟨#[⟨⟨[(⟨"f"⟩, fn)]⟩, none⟩, ⟨.empty, some 0⟩]⟩
    let s' := (Eval.outcome (evaluate Host.standard 4 e 1) ⟨s, .off, #[]⟩).2.store
    e.targets = [⟨"y"⟩] ∧ s'.frame? 0 = s.frame? 0 ∧
      (s'.bindings 1).get? ⟨"x"⟩ = none ∧ (s'.bindings 1).get? ⟨"y"⟩ = some (.int 2) := by
  intro fn e s s'
  have hs : s.All Value.HostFree := by
    have hempty : Store.empty.All Value.HostFree := fun _ _ _ h => nomatch h
    have hfn : ∀ a ∈ [fn], a.HostFree := List.forall_mem_singleton.2 rfl
    have houter := @Store.All.push _ _ hempty [⟨"f"⟩] [fn] hfn none
    exact @Store.All.push _ _ houter [] [] (List.forall_mem_nil _) (some 0)
  obtain ⟨-, hother, hown, -⟩ := evaluate_writes (m := ⟨s, .off, #[]⟩) (e := e) rfl hs 4 1
  refine ⟨rfl, hother 0 (by decide) (by decide), ?_, rfl⟩
  exact (hown (by decide)).2 ⟨"x"⟩ (by decide)

end Lisplet
