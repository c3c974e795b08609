/-
# What operators end in

An operator looks at all its arguments before it computes, so it fails in one of
three ways: for the number of its arguments, for one that is not a number, or for
a whole number that is too large for a double.  Otherwise arithmetic gives a
number and a comparison gives a truth value (`Arithmetic.apply_cases`,
`Comparison.apply_cases`).
-/

import Lisplet.Builtin

namespace Lisplet

/-- A row fails because one of its items does. -/
theorem mapM_eq_error {g : α → Except Error β} {items : List α} {err : Error}
    (h : items.mapM g = .error err) : ∃ item ∈ items, g item = .error err := by
  induction items with
  | nil => cases h
  | cons item items ih =>
    rw [List.mapM_cons] at h
    rcases hitem : g item with e | b
    · rw [hitem] at h
      cases h
      exact ⟨item, List.mem_cons_self .., hitem⟩
    · rw [hitem] at h
      rcases hitems : items.mapM g with e | bs
      · rw [hitems] at h
        cases h
        obtain ⟨x, hx, hgx⟩ := ih hitems
        exact ⟨x, List.mem_cons_of_mem _ hx, hgx⟩
      · rw [hitems] at h
        cases h

namespace Operator

/-- An argument is refused for not being a number. -/
theorem numberOf_eq_error {op : Operator} {v : Value} {err : Error}
    (h : op.numberOf v = .error err) : v.number? = none ∧ err = .notNumber op v := by
  rw [numberOf] at h
  split at h
  · cases h
  · rename_i hv
    cases h
    exact ⟨hv, rfl⟩

end Operator

/-! ### The argument at fault -/

/-- The leftmost argument that is no number is the one at fault. -/
theorem Operator.mapM_numberOf_of_find? {op : Operator} {args : List Value} {v : Value}
    (h : args.find? (fun a => a.number?.isNone) = some v) :
    args.mapM op.numberOf = .error (.notNumber op v) := by
  induction args with
  | nil => cases h
  | cons a args ih =>
    rw [List.mapM_cons]
    cases ha : a.number? with
    | none =>
      obtain rfl : a = v := by simpa [ha] using h
      simp [numberOf, ha, bind, Except.bind]
    | some n =>
      have hrest : args.find? (fun a => a.number?.isNone) = some v := by simpa [ha] using h
      simp [numberOf, ha, bind, Except.bind, ih hrest]

/-- Arithmetic refuses the leftmost argument that is no number. -/
theorem Arithmetic.apply_of_find? {op : Arithmetic} {args : List Value} {v : Value}
    (h : args.find? (fun a => a.number?.isNone) = some v) :
    op.apply args = .error (.notNumber (.arithmetic op) v) := by
  cases args with
  | nil => cases h
  | cons a rest =>
    rw [apply, Operator.numberOf]
    cases ha : a.number? with
    | none =>
      obtain rfl : a = v := by simpa [ha] using h
      rfl
    | some n =>
      have hrest : rest.find? (fun a => a.number?.isNone) = some v := by simpa [ha] using h
      simp only [Operator.mapM_numberOf_of_find? hrest, bind, Except.bind]

/-- A comparison of two values refuses the leftmost one that is no number. -/
theorem Comparison.apply_of_find? {op : Comparison} {args : List Value} {v : Value}
    (hl : args.length = 2) (h : args.find? (fun a => a.number?.isNone) = some v) :
    op.apply args = .error (.notNumber (.comparison op) v) := by
  match args, hl with
  | [a, b], _ =>
    rw [apply, Operator.numberOf, Operator.numberOf]
    cases ha : a.number? with
    | none =>
      obtain rfl : a = v := by simpa [ha] using h
      rfl
    | some n =>
      obtain ⟨hb, rfl⟩ : b.number? = none ∧ b = v := by simpa [ha] using h
      simp only [hb, bind, Except.bind]

/-- A comparison counts its arguments first. -/
theorem Comparison.apply_of_length_ne {op : Comparison} {args : List Value}
    (h : args.length ≠ 2) : op.apply args = .error (.notTwoArguments op args.length) := by
  match args with
  | [] | [_] | _ :: _ :: _ :: _ => rfl
  | [_, _] => exact absurd rfl h

/-! ### Numbers -/

/-- Numbers are taken as they are. -/
theorem Operator.mapM_numberOf_numbers (op : Operator) (ns : List Number) :
    (ns.map Value.number).mapM op.numberOf = .ok ns := by
  induction ns with
  | nil => rfl
  | cons n ns ih =>
    rw [List.map_cons, List.mapM_cons, ih]
    rfl

/-- All operations but the negation of a single number are folds. -/
theorem Arithmetic.result_eq_fold {op : Arithmetic} {x : Number} {ys : List Number}
    (h : ¬ (op = .sub ∧ ys = [])) : op.result x ys = op.fold x ys := by
  rw [result]
  rintro rfl hys
  exact h ⟨rfl, hys⟩

/-- Of numbers arithmetic gives its result. -/
theorem Arithmetic.apply_numbers_eq (op : Arithmetic) (x : Number) (ys : List Number) :
    op.apply ((x :: ys).map .number) =
      match op.result x ys with
      | some n => .ok (.number n)
      | none => .error .overflow := by
  rw [List.map_cons, apply, Operator.mapM_numberOf_numbers]
  rfl

/-! ### Doubles -/

namespace Arithmetic

theorem combine_floats (op : Arithmetic) (x y : Double) :
    ∃ z, op.combine (.float x) (.float y) = some (.float z) := by
  cases op <;> exact ⟨_, rfl⟩

theorem fold_floats (op : Arithmetic) (xs : List Double) :
    ∀ x, ∃ z, op.fold (.float x) (xs.map .float) = some (.float z) := by
  induction xs with
  | nil => exact fun x => ⟨x, rfl⟩
  | cons y xs ih =>
    intro x
    obtain ⟨z, hz⟩ := op.combine_floats x y
    rw [List.map_cons, fold, hz]
    exact ih z

theorem result_floats (op : Arithmetic) (x : Double) (xs : List Double) :
    ∃ z, op.result (.float x) (xs.map .float) = some (.float z) := by
  by_cases h : op = .sub ∧ xs = []
  · obtain ⟨rfl, rfl⟩ := h
    exact ⟨_, rfl⟩
  · rw [result_eq_fold fun hsub => h ⟨hsub.1, List.map_eq_nil_iff.1 hsub.2⟩]
    exact op.fold_floats xs x

/-- Arithmetic on doubles gives a double. -/
theorem apply_floats (op : Arithmetic) (x : Double) (xs : List Double) :
    ∃ z, op.apply ((x :: xs).map Value.float) = .ok (.float z) := by
  obtain ⟨z, hz⟩ := op.result_floats x xs
  have hnumbers : (x :: xs).map Value.float = (.float x :: xs.map Number.float).map .number := by
    rw [List.map_cons, List.map_cons, List.map_map]
    rfl
  refine ⟨z, ?_⟩
  rw [hnumbers, apply_numbers_eq, hz]
  rfl

end Arithmetic

/-! ### All ways to end -/

/-- Arithmetic ends in one of four ways. -/
theorem Arithmetic.apply_cases (op : Arithmetic) (args : List Value) :
    (args = [] ∧ op.apply args = .error (.noArgument op)) ∨
      (∃ v ∈ args, v.number? = none ∧ op.apply args = .error (.notNumber (.arithmetic op) v)) ∨
      op.apply args = .error .overflow ∨ ∃ n, op.apply args = .ok (.number n) := by
  cases args with
  | nil => exact .inl ⟨rfl, rfl⟩
  | cons v rest =>
    rw [apply]
    rcases hv : Operator.numberOf (.arithmetic op) v with err | x
    · obtain ⟨hnumber, rfl⟩ := Operator.numberOf_eq_error hv
      exact .inr (.inl ⟨v, List.mem_cons_self .., hnumber, rfl⟩)
    · rcases hrest : rest.mapM (Operator.numberOf (.arithmetic op)) with err | ys
      · obtain ⟨w, hw, herr⟩ := mapM_eq_error hrest
        obtain ⟨hnumber, rfl⟩ := Operator.numberOf_eq_error herr
        exact .inr (.inl ⟨w, List.mem_cons_of_mem _ hw, hnumber, rfl⟩)
      · rcases hres : op.result x ys with _ | n
        · exact .inr (.inr (.inl (by simp only [bind, Except.bind, hres])))
        · exact .inr (.inr (.inr ⟨n, by simp only [bind, Except.bind, hres]⟩))

/-- A comparison ends in one of three ways. -/
theorem Comparison.apply_cases (op : Comparison) (args : List Value) :
    (args.length ≠ 2 ∧ op.apply args = .error (.notTwoArguments op args.length)) ∨
      (∃ v ∈ args, v.number? = none ∧ op.apply args = .error (.notNumber (.comparison op) v)) ∨
      ∃ b, op.apply args = .ok (.bool b) := by
  match args with
  | [] | [_] => exact .inl ⟨nofun, rfl⟩
  | _ :: _ :: _ :: _ => exact .inl ⟨by simp, rfl⟩
  | [v, w] =>
    rw [apply]
    rcases hv : Operator.numberOf (.comparison op) v with err | x
    · obtain ⟨hnumber, rfl⟩ := Operator.numberOf_eq_error hv
      exact .inr (.inl ⟨v, by simp, hnumber, rfl⟩)
    · rcases hw : Operator.numberOf (.comparison op) w with err | y
      · obtain ⟨hnumber, rfl⟩ := Operator.numberOf_eq_error hw
        exact .inr (.inl ⟨w, by simp, hnumber, rfl⟩)
      · exact .inr (.inr ⟨_, rfl⟩)

namespace Operator

/-- An operator fails for the number or the kind of its arguments, or for a number
that is too large. -/
theorem causeKind_of_apply {op : Operator} {args : List Value} {err : Error}
    (h : op.apply args = .error err) :
    err.causeKind = .arity ∨ err.causeKind = .type ∨ err.causeKind = .overflow := by
  cases op with
  | arithmetic op =>
    rcases op.apply_cases args with ⟨-, ho⟩ | ⟨v, -, -, ho⟩ | ho | ⟨n, ho⟩
    · exact .inl (Except.error.inj (h.symm.trans ho) ▸ rfl)
    · exact .inr (.inl (Except.error.inj (h.symm.trans ho) ▸ rfl))
    · exact .inr (.inr (Except.error.inj (h.symm.trans ho) ▸ rfl))
    · cases h.symm.trans ho
  | comparison op =>
    rcases op.apply_cases args with ⟨-, ho⟩ | ⟨v, -, -, ho⟩ | ⟨b, ho⟩
    · exact .inl (Except.error.inj (h.symm.trans ho) ▸ rfl)
    · exact .inr (.inl (Except.error.inj (h.symm.trans ho) ▸ rfl))
    · cases h.symm.trans ho

/-- An operator that succeeds gives a number or a truth value. -/
theorem apply_eq_ok {op : Operator} {args : List Value} {v : Value}
    (h : op.apply args = .ok v) : (∃ n, v = .number n) ∨ ∃ b, v = .bool b := by
  cases op with
  | arithmetic op =>
    rcases op.apply_cases args with ⟨-, ho⟩ | ⟨w, -, -, ho⟩ | ho | ⟨n, ho⟩
    · cases h.symm.trans ho
    · cases h.symm.trans ho
    · cases h.symm.trans ho
    · exact .inl ⟨n, Except.ok.inj (h.symm.trans ho)⟩
  | comparison op =>
    rcases op.apply_cases args with ⟨-, ho⟩ | ⟨w, -, -, ho⟩ | ⟨b, ho⟩
    · cases h.symm.trans ho
    · cases h.symm.trans ho
    · exact .inr ⟨b, Except.ok.inj (h.symm.trans ho)⟩

end Operator
end Lisplet
