/-
# Whole numbers in arithmetic

As long as all numbers are whole, sums, differences and products are whole and exact: a fold
of the operator is the fold of the operation on whole numbers (`Arithmetic.fold_ints`), so
that the terms of a sum and the factors of a product may be taken in any order.

A double is never left again.  Where one takes part, the result of a step is a double, and
so is everything that is computed from it (`Arithmetic.isInt_fold_iff`).  Division makes a
double even of two whole numbers, so it gives a whole number only when there is nothing to
divide by (`Arithmetic.isInt_fold_div`).
-/

import Mathlib.Algebra.BigOperators.Group.List.Basic
import Mathlib.Algebra.Ring.Int.Defs
import Lisplet.Proofs.Operator

namespace Lisplet

/-- Whether a number is of the kind of whole numbers.  A double is not, even if its value is
whole. -/
def Number.isInt : Number → Bool
  | .int _ => true
  | .float _ => false

namespace Number

theorem isInt_iff {x : Number} : x.isInt = true ↔ ∃ n, x = .int n := by
  cases x with
  | int n => exact iff_of_true rfl ⟨n, rfl⟩
  | float a => exact iff_of_false nofun nofun

/-- An operation on rounded numbers gives a double. -/
theorem isInt_of_rounded {f : Double → Double → Double} {x y z : Number}
    (h : rounded f x y = some z) : z.isInt = false := by
  obtain ⟨a, -, h⟩ := Option.bind_eq_some_iff.1 h
  obtain ⟨b, -, rfl⟩ := Option.map_eq_some_iff.1 h
  rfl

end Number

namespace Arithmetic

open Number

variable {op : Arithmetic} {x y z : Number} {ys : List Number}

/-! ### Kinds -/

/-- The operation on doubles. -/
def onDoubles : Arithmetic → Double → Double → Double
  | .add => Double.add
  | .sub => Double.sub
  | .mul => Double.mul
  | .div => Double.div

/-- Where a double takes part, the operation is that on doubles. -/
theorem combine_eq_rounded (h : (x.isInt && y.isInt) = false) :
    op.combine x y = rounded op.onDoubles x y := by
  cases x with
  | float a => cases op <;> rfl
  | int m =>
    cases y with
    | float b => cases op <;> rfl
    | int n => cases h

/-- Of an operation other than division the result is whole just if both numbers are. -/
theorem isInt_combine (hop : op ≠ .div) (h : op.combine x y = some z) :
    z.isInt = (x.isInt && y.isInt) := by
  cases hkinds : x.isInt && y.isInt with
  | false => exact isInt_of_rounded (combine_eq_rounded hkinds ▸ h)
  | true =>
    rw [Bool.and_eq_true, isInt_iff, isInt_iff] at hkinds
    obtain ⟨⟨m, rfl⟩, n, rfl⟩ := hkinds
    cases op with
    | add | sub | mul =>
      cases h
      rfl
    | div => exact absurd rfl hop

/-- A quotient is a double. -/
theorem isInt_combine_div (h : Arithmetic.div.combine x y = some z) : z.isInt = false := by
  cases hkinds : x.isInt && y.isInt with
  | false => exact isInt_of_rounded (combine_eq_rounded hkinds ▸ h)
  | true =>
    rw [Bool.and_eq_true, isInt_iff, isInt_iff] at hkinds
    obtain ⟨⟨m, rfl⟩, n, rfl⟩ := hkinds
    rw [combine, Number.div] at h
    split at h
    · exact isInt_of_rounded h
    · obtain ⟨a, -, rfl⟩ := Option.map_eq_some_iff.1 h
      rfl

/-- **Once a double, always a double.** -/
theorem isInt_fold_iff (hop : op ≠ .div) (h : op.fold x ys = some z) :
    z.isInt = true ↔ ∀ y ∈ x :: ys, y.isInt = true := by
  induction ys generalizing x with
  | nil =>
    obtain rfl := Option.some.inj h
    rw [List.forall_mem_singleton]
  | cons y ys ih =>
    obtain ⟨w, hw, h⟩ := Option.bind_eq_some_iff.1 h
    rw [ih h, List.forall_mem_cons, isInt_combine hop hw, Bool.and_eq_true, List.forall_mem_cons,
      List.forall_mem_cons, and_assoc]

/-- What was divided is not whole. -/
theorem isInt_fold_div (hys : ys ≠ []) (h : Arithmetic.div.fold x ys = some z) :
    z.isInt = false := by
  induction ys generalizing x with
  | nil => exact absurd rfl hys
  | cons y ys ih =>
    obtain ⟨w, hw, h⟩ := Option.bind_eq_some_iff.1 h
    by_cases hnil : ys = []
    · subst hnil
      obtain rfl := Option.some.inj h
      exact isInt_combine_div hw
    · exact ih hnil h

/-- The result of an operation other than division is whole just if all numbers are; that of
a single number and `-` too. -/
theorem isInt_result_iff (hop : op ≠ .div) (h : op.result x ys = some z) :
    z.isInt = true ↔ ∀ y ∈ x :: ys, y.isInt = true := by
  by_cases hsub : op = .sub ∧ ys = []
  · obtain ⟨rfl, rfl⟩ := hsub
    obtain rfl : x.neg = z := Option.some.inj h
    rw [List.forall_mem_singleton]
    cases x <;> rfl
  · exact isInt_fold_iff hop (result_eq_fold hsub ▸ h)

/-! ### Exact results -/

/-- An operation that is exact on two whole numbers is exact on a row of them. -/
theorem fold_ints {f : Int → Int → Int}
    (hf : ∀ m n, op.combine (.int m) (.int n) = some (.int (f m n))) (m : Int) (ns : List Int) :
    op.fold (.int m) (ns.map .int) = some (.int (ns.foldl f m)) := by
  induction ns generalizing m with
  | nil => rfl
  | cons n ns ih => rw [List.map_cons, fold, hf, Option.bind_some, ih, List.foldl_cons]

theorem fold_add_ints (m : Int) (ns : List Int) :
    Arithmetic.add.fold (.int m) (ns.map .int) = some (.int (m :: ns).sum) := by
  rw [fold_ints (fun _ _ => rfl), List.sum_eq_foldl, List.foldl_cons, Int.zero_add]

theorem fold_mul_ints (m : Int) (ns : List Int) :
    Arithmetic.mul.fold (.int m) (ns.map .int) = some (.int (m :: ns).prod) := by
  rw [fold_ints (fun _ _ => rfl), List.prod_eq_foldl, List.foldl_cons, Int.one_mul]

/-- Taking numbers away one after another takes away their sum. -/
theorem fold_sub_ints (m : Int) (ns : List Int) :
    Arithmetic.sub.fold (.int m) (ns.map .int) = some (.int (m - ns.sum)) := by
  induction ns generalizing m with
  | nil => rw [List.sum_nil, Int.sub_zero]; rfl
  | cons n ns ih =>
    rw [List.map_cons, fold, List.sum_cons, ← Int.sub_sub]
    exact ih (m - n)

/-- On a row of whole numbers an operator gives what its operation gives. -/
theorem apply_ints (op : Arithmetic) (m : Int) (ns : List Int) {n : Int}
    (h : op.result (.int m) (ns.map .int) = some (.int n)) :
    op.apply ((m :: ns).map .int) = .ok (.int n) := by
  have hnumbers : (m :: ns).map Value.int = (Number.int m :: ns.map .int).map .number := by
    rw [List.map_cons, List.map_cons, List.map_map]
    rfl
  rw [hnumbers, apply_numbers_eq, h]
  rfl

/-- **Arithmetic of whole numbers is exact, and kinds are kept apart.**

* Of whole numbers `+` gives the exact sum and `*` the exact product, in whatever order they
  are given.  `-` takes the sum of all but the first from the first, and negates a single one.
* Of numbers of either kind, if there is a result, that of `+`, `-` and `*` is whole just if
  all of them are.  That of `/` is whole only if it is the one number that is given, and a
  single number is always returned as it is. -/
theorem apply_exact :
    (∀ (m : Int) (ns : List Int),
      Arithmetic.add.apply ((m :: ns).map .int) = .ok (.int (m :: ns).sum) ∧
      Arithmetic.mul.apply ((m :: ns).map .int) = .ok (.int (m :: ns).prod) ∧
      Arithmetic.sub.apply ((m :: ns).map .int) =
        .ok (.int (if ns = [] then -m else m - ns.sum)) ∧
      ∀ ks : List Int, ks.Perm (m :: ns) →
        Arithmetic.add.apply (ks.map .int) = Arithmetic.add.apply ((m :: ns).map .int) ∧
        Arithmetic.mul.apply (ks.map .int) = Arithmetic.mul.apply ((m :: ns).map .int)) ∧
    (∀ (op : Arithmetic) (x : Number) (ys : List Number) (v : Value),
      op.apply ((x :: ys).map .number) = .ok v → ∃ z, v = .number z ∧
        (op ≠ .div → (z.isInt = true ↔ ∀ y ∈ x :: ys, y.isInt = true)) ∧
        (op = .div → z.isInt = true → ys = [] ∧ z = x)) ∧
    ∀ x, Arithmetic.div.apply [.number x] = .ok (.number x) := by
  have hadd (m : Int) (ns : List Int) :
      Arithmetic.add.apply ((m :: ns).map .int) = .ok (.int (m :: ns).sum) :=
    apply_ints .add m ns (fold_add_ints m ns)
  have hmul (m : Int) (ns : List Int) :
      Arithmetic.mul.apply ((m :: ns).map .int) = .ok (.int (m :: ns).prod) :=
    apply_ints .mul m ns (fold_mul_ints m ns)
  refine ⟨fun m ns => ⟨hadd m ns, hmul m ns, ?_, fun ks hks => ?_⟩, ?_, fun _ => rfl⟩
  · refine apply_ints .sub m ns ?_
    by_cases hns : ns = []
    · subst hns
      rfl
    · rw [if_neg hns, result_eq_fold fun h => hns (List.map_eq_nil_iff.1 h.2)]
      exact fold_sub_ints m ns
  · cases ks with
    | nil => exact absurd hks.length_eq nofun
    | cons k ks => rw [hadd, hmul, hadd, hmul, hks.sum_eq, hks.prod_eq]; exact ⟨rfl, rfl⟩
  · intro op x ys v h
    rw [apply_numbers_eq] at h
    cases hresult : op.result x ys with
    | none =>
      rw [hresult] at h
      cases h
    | some z =>
      rw [hresult] at h
      refine ⟨z, (Except.ok.inj h).symm, fun hop => isInt_result_iff hop hresult, ?_⟩
      rintro rfl hint
      have hfold : Arithmetic.div.fold x ys = some z := hresult
      by_cases hys : ys = []
      · subst hys
        exact ⟨rfl, (Option.some.inj hfold).symm⟩
      · cases hint.symm.trans (isInt_fold_div hys hfold)

/-- Two whole numbers beyond the precision of a double in either order, and a double among
whole numbers. -/
theorem apply_exact_large :
    let n : Int := 9007199254740993
    let half : Number := .float (.ofRatio false Double.unit 2)
    [1, n].Perm [n, 1] ∧
      Arithmetic.add.apply ([1, n].map .int) = .ok (.int 9007199254740994) ∧
      Arithmetic.add.apply ([Number.int 1, half, .int 1].map .number) =
        .ok (.float (.ofRatio false (5 * Double.unit) 2)) ∧
      ¬ ∀ y ∈ [Number.int 1, half, .int 1], y.isInt = true := by
  intro n half
  have hperm : [1, n].Perm [n, 1] := .swap ..
  have hresult : Arithmetic.add.apply ([Number.int 1, half, .int 1].map .number) =
      .ok (.float (.ofRatio false (5 * Double.unit) 2)) := by
    rw [List.map_cons, ← List.map_cons, apply_numbers_eq]
    have hsum : Arithmetic.add.result (.int 1) [half, .int 1] =
        some (.float (.ofRatio false (5 * Double.unit) 2)) := by decide +kernel
    rw [hsum]
    rfl
  obtain ⟨hexact, hkinds, -⟩ := apply_exact
  obtain ⟨hsum, -, -, horder⟩ := hexact n [1]
  obtain ⟨z, hz, hint, -⟩ := hkinds .add _ _ _ hresult
  obtain rfl : Number.float (.ofRatio false (5 * Double.unit) 2) = z := Value.number.inj hz
  refine ⟨hperm, ?_, hresult, fun hall => Bool.false_ne_true ((hint nofun).2 hall)⟩
  rw [(horder _ hperm).1, hsum]
  rfl

end Arithmetic
end Lisplet
