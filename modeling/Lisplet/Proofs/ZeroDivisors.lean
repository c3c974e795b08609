/-
# Division by zero

The doubles are closed under arithmetic.  What can go wrong is that a whole number has
to be rounded to a double, or divided by another one, and is too large for it
(`Number.TooLarge`): from halfway between the largest double and 2¹⁰²⁴ on.  So arithmetic
fails only at a whole number of that size, which is one of its arguments or was computed
exactly from the arguments in front (`Arithmetic.exists_tooLarge_of_fold`).

Division by zero is no failure.  The divisor is asked for zero before it divides; then
zero and nan give a nan, and all other dividends the infinity of the product of the
signs (`Number.div_of_isZero`).  So the division underneath may refuse zero divisors: it
never gets one (`Number.guardedDiv_eq`).
-/

import Mathlib.Data.Set.List
import Lisplet.Proofs.Nearest
import Lisplet.Proofs.Operator

namespace Lisplet

/-! ### Signs and zeros of doubles -/

namespace Double

/-- Whether the sign of a double is minus.  Zeros and infinities have one, a nan has
none. -/
def isNegative : Double → Bool
  | .nan => false
  | .infinite s => s
  | .finite s _ _ => s

theorem eq_zero_of_isZero {x : Double} (h : x.isZero = true) : x = zero x.isNegative := by
  rcases x with _ | _ | ⟨s, q, hq⟩
  · cases h
  · cases h
  · obtain rfl : q = 0 := beq_iff_eq.1 h
    rfl

/-- **Division by a zero.** -/
theorem div_zero (x : Double) (negative : Bool) :
    x.div (zero negative) =
      if x.isZero = true ∨ x = .nan then .nan else .infinite (x.isNegative != negative) := by
  rcases x with _ | s | ⟨s, q, h⟩
  · rfl
  · rfl
  · by_cases hq : q = 0
    · simp [div, zero, isZero, hq]
    · simp [div, zero, isZero, isNegative, hq]

/-! ### Rounding a magnitude that may be too large -/

variable {negative : Bool} {v : ℚ} {x y : Double}

theorem unlessInfinite_eq_some (h : unlessInfinite x = some y) : x = y := by
  cases x with
  | infinite s => cases h
  | nan | finite => exact Option.some.inj h

theorem IsRounded.unlessInfinite_eq_none (h : IsRounded negative v x) :
    unlessInfinite x = none ↔ (2 : ℚ) ^ 1024 - 2 ^ 970 ≤ v := by
  rw [← h.infinite_iff]
  cases x with
  | nan => exact h.elim
  | infinite s =>
    obtain ⟨rfl, -⟩ := h
    exact iff_of_true rfl rfl
  | finite s q hq => exact iff_of_false nofun nofun

theorem IsRounded.ne_nan (h : IsRounded negative v x) : x ≠ .nan := by
  rintro rfl
  exact h

theorem IsRounded.isNegative (h : IsRounded negative v x) : x.isNegative = negative := by
  cases x with
  | nan => exact h.elim
  | infinite s | finite s q hq => exact h.1

theorem IsRounded.isZero_iff (h : IsRounded negative v x) :
    x.isZero = true ↔ v ≤ 1 / 2 ^ 1075 := by
  rw [← h.zero_iff]
  refine ⟨fun hzero => h.isNegative ▸ eq_zero_of_isZero hzero, ?_⟩
  rintro rfl
  rfl

end Double

/-! ### Whole numbers as doubles -/

namespace Number

/-- A whole number is too large for a double. -/
def TooLarge (n : Int) : Prop := (2 : ℚ) ^ 1024 - 2 ^ 970 ≤ |(n : ℚ)|

/-- Whether a number has a minus sign.  A whole zero has none. -/
def isNegative : Number → Bool
  | .int n => decide (n < 0)
  | .float x => x.isNegative

end Number

namespace Double

open Number

theorem isRounded_ofInt (n : Int) :
    IsRounded (decide (n < 0)) |(n : ℚ)| (ofRatio (decide (n < 0)) (n.natAbs * unit) 1) := by
  refine isRounded_ofRatio _ _ Nat.one_pos ?_
  rw [Nat.cast_mul, Nat.cast_natAbs, Int.cast_abs, Nat.cast_one, div_one]

theorem isRounded_ofQuotient (m : Int) {n : Int} (hn : n ≠ 0) (negative : Bool) :
    IsRounded negative (|(m : ℚ)| / |(n : ℚ)|) (ofRatio negative (m.natAbs * unit) n.natAbs) := by
  refine isRounded_ofRatio _ _ (Int.natAbs_pos.2 hn) ?_
  rw [Nat.cast_mul, Nat.cast_natAbs, Nat.cast_natAbs, Int.cast_abs, Int.cast_abs,
    div_mul_eq_mul_div]

/-- A whole number has no double just if it is too large. -/
theorem ofInt?_eq_none_iff {n : Int} : ofInt? n = none ↔ TooLarge n := by
  rw [ofInt?, TooLarge, (isRounded_ofInt n).unlessInfinite_eq_none]

/-- A quotient is too large only if the dividend is. -/
theorem tooLarge_of_ofQuotient? {m n : Int} (hn : n ≠ 0) (h : ofQuotient? m n = none) :
    TooLarge m := by
  have hone : (1 : ℚ) ≤ |(n : ℚ)| := by exact_mod_cast Int.one_le_abs hn
  rw [ofQuotient?, (isRounded_ofQuotient m hn _).unlessInfinite_eq_none] at h
  exact h.trans (div_le_self (abs_nonneg _) hone)

/-- No whole number but zero rounds to zero. -/
theorem abs_le_iff_eq_zero (n : Int) : |(n : ℚ)| ≤ 1 / 2 ^ 1075 ↔ n = 0 := by
  have hsmall : (1 : ℚ) / 2 ^ 1075 < 1 := by
    rw [one_div]
    exact inv_lt_one_of_one_lt₀ (one_lt_pow₀ one_lt_two (by decide))
  constructor
  · intro h
    have habs : |n| < 1 := by exact_mod_cast h.trans_lt hsmall
    exact Int.abs_lt_one_iff.1 habs
  · rintro rfl
    rw [Int.cast_zero, abs_zero]
    positivity

/-- The double of a whole number has its sign, and is zero just if the number is. -/
theorem ofInt?_eq_some {n : Int} {x : Double} (h : ofInt? n = some x) :
    x ≠ .nan ∧ x.isNegative = decide (n < 0) ∧ (x.isZero = true ↔ n = 0) := by
  obtain rfl := unlessInfinite_eq_some h
  have hrounded := isRounded_ofInt n
  exact ⟨hrounded.ne_nan, hrounded.isNegative, hrounded.isZero_iff.trans (abs_le_iff_eq_zero n)⟩

end Double

/-! ### Numbers divided by a zero -/

namespace Number

variable {x y : Number} {a : Double}

theorem toDouble?_eq_none_iff : x.toDouble? = none ↔ ∃ n, x = .int n ∧ TooLarge n := by
  cases x with
  | int n => simp [toDouble?, Double.ofInt?_eq_none_iff]
  | float a => simp [toDouble?]

/-- Rounding keeps the sign, and whether a number is zero or a nan. -/
theorem toDouble?_eq_some (h : x.toDouble? = some a) :
    (a.isZero = true ↔ x.isZero = true) ∧ (a = .nan ↔ x = .float .nan) ∧
      a.isNegative = x.isNegative := by
  cases x with
  | float b =>
    obtain rfl : b = a := Option.some.inj h
    simp [isZero, isNegative]
  | int n =>
    obtain ⟨hnan, hsign, hzero⟩ := Double.ofInt?_eq_some h
    simp [isZero, isNegative, hnan, hsign, hzero]

/-- An operation on doubles fails only at a whole number that is too large. -/
theorem rounded_eq_none {f : Double → Double → Double} (h : rounded f x y = none) :
    ∃ n, TooLarge n ∧ (x = .int n ∨ y = .int n) := by
  rw [rounded, Option.bind_eq_none_iff] at h
  cases hx : x.toDouble? with
  | none =>
    obtain ⟨n, hn, hlarge⟩ := toDouble?_eq_none_iff.1 hx
    exact ⟨n, hlarge, .inl hn⟩
  | some a =>
    obtain ⟨n, hn, hlarge⟩ := toDouble?_eq_none_iff.1 (Option.map_eq_none_iff.1 (h a hx))
    exact ⟨n, hlarge, .inr hn⟩

theorem toDouble?_of_isZero (h : y.isZero = true) : y.toDouble? = some (.zero y.isNegative) := by
  cases y with
  | int n =>
    obtain rfl : n = 0 := beq_iff_eq.1 h
    decide +kernel
  | float a => exact congrArg some (Double.eq_zero_of_isZero h)

theorem div_eq_rounded_of_isZero (h : y.isZero = true) (x : Number) :
    x.div y = rounded Double.div x y := by
  cases x with
  | float a => rfl
  | int m =>
    cases y with
    | float b => rfl
    | int n =>
      obtain rfl : n = 0 := beq_iff_eq.1 h
      rw [div, if_pos rfl]

/-- **Division of any number by a zero.** -/
theorem div_of_isZero (h : y.isZero = true) (x : Number) :
    x.div y = x.toDouble?.map fun _ => .float
      (if x.isZero = true ∨ x = .float .nan then .nan
        else .infinite (x.isNegative != y.isNegative)) := by
  rw [div_eq_rounded_of_isZero h, rounded, toDouble?_of_isZero h]
  cases ha : x.toDouble? with
  | none => rfl
  | some a =>
    obtain ⟨hzero, hnan, hsign⟩ := toDouble?_eq_some ha
    simp only [Option.bind_some, Option.map_some, Double.div_zero, hzero, hnan, hsign]

/-! ### A division that refuses zero divisors -/

/-- What can stop a step of arithmetic. -/
inductive Fault where
  /-- The divisor is zero. -/
  | zeroDivisor
  /-- A whole number, or the quotient of two, is too large for a double. -/
  | overflow
  deriving DecidableEq

/-- A result that is missing because it is too large. -/
def orOverflow : Option Number → Except Fault Number
  | some z => .ok z
  | none => .error .overflow

/-- The division underneath, which refuses zero divisors. -/
def strictDiv (x y : Number) : Except Fault Number :=
  if y.isZero then .error .zeroDivisor else orOverflow (x.div y)

/-- Division that asks for a zero divisor first.  To see whether the dividend is a nan
and what its sign is takes the double nearest to it. -/
def guardedDiv (x y : Number) : Except Fault Number :=
  if y.isZero then
    if x.isZero then .ok (.float .nan)
    else match x.toDouble? with
      | none => .error .overflow
      | some a =>
        .ok (.float (if a = .nan then .nan else .infinite (a.isNegative != y.isNegative)))
  else x.strictDiv y

/-- **The guard leaves no zero divisor.** -/
theorem guardedDiv_eq (x y : Number) : x.guardedDiv y = orOverflow (x.div y) := by
  rw [guardedDiv]
  by_cases hy : y.isZero = true
  · rw [if_pos hy, div_of_isZero hy]
    by_cases hx : x.isZero = true
    · rw [if_pos hx, toDouble?_of_isZero hx, Option.map_some, if_pos (.inl hx)]
      rfl
    · rw [if_neg hx]
      cases ha : x.toDouble? with
      | none => rfl
      | some a =>
        obtain ⟨-, hnan, hsign⟩ := toDouble?_eq_some ha
        simp only [Option.map_some, orOverflow, hx, Bool.false_eq_true, false_or, hnan, hsign]
  · rw [if_neg hy, strictDiv, if_neg hy]

end Number

/-! ### Folds -/

namespace Arithmetic

open Number

variable {op : Arithmetic} {x y z : Number}

/-- One step of arithmetic fails only at a whole number that is too large. -/
theorem combine_eq_none (h : op.combine x y = none) :
    ∃ n, TooLarge n ∧ (x = .int n ∨ y = .int n) := by
  cases x with
  | float a => cases op <;> exact rounded_eq_none h
  | int m =>
    cases y with
    | float b => cases op <;> exact rounded_eq_none h
    | int n =>
      cases op with
      | add | sub | mul => cases h
      | div =>
        by_cases hn : n = 0
        · subst hn
          exact rounded_eq_none ((div_eq_rounded_of_isZero (y := .int 0) rfl (.int m)).symm.trans h)
        · have hquotient : (Double.ofQuotient? m n).map Number.float = none := by
            rwa [combine, Number.div, if_neg hn] at h
          have hlarge := Double.tooLarge_of_ofQuotient? hn (Option.map_eq_none_iff.1 hquotient)
          exact ⟨m, hlarge, .inl rfl⟩

/-- **A fold fails only at a whole number that is too large**: one of its arguments, or one
that the arguments in front of some place give. -/
theorem exists_tooLarge_of_fold {ys : List Number} (h : op.fold x ys = none) :
    ∃ n, TooLarge n ∧ (.int n ∈ ys ∨ ∃ front, front <+: ys ∧ op.fold x front = some (.int n)) := by
  induction ys generalizing x with
  | nil => cases h
  | cons y ys ih =>
    rw [fold] at h
    cases hz : op.combine x y with
    | none =>
      obtain ⟨n, hlarge, rfl | rfl⟩ := combine_eq_none hz
      · exact ⟨n, hlarge, .inr ⟨[], List.nil_prefix, rfl⟩⟩
      · exact ⟨n, hlarge, .inl (List.mem_cons_self ..)⟩
    | some z =>
      rw [hz, Option.bind_some] at h
      obtain ⟨n, hlarge, hmem | ⟨front, hfront, hfold⟩⟩ := ih h
      · exact ⟨n, hlarge, .inl (List.mem_cons_of_mem _ hmem)⟩
      · refine ⟨n, hlarge, .inr ⟨y :: front, (List.prefix_cons_inj y).2 hfront, ?_⟩⟩
        rw [fold, hz, Option.bind_some, hfold]

theorem fold_append (op : Arithmetic) (x : Number) (front back : List Number) :
    op.fold x (front ++ back) = (op.fold x front).bind fun z => op.fold z back := by
  induction front generalizing x with
  | nil => rfl
  | cons y front ih =>
    rw [List.cons_append, fold, fold, Option.bind_assoc]
    exact congrArg _ (funext ih)

/-- One step of arithmetic with a division underneath that refuses zero divisors. -/
def guarded : Arithmetic → Number → Number → Except Fault Number
  | .div, x, y => x.guardedDiv y
  | op, x, y => orOverflow (op.combine x y)

theorem guarded_eq (op : Arithmetic) (x y : Number) :
    op.guarded x y = orOverflow (op.combine x y) := by
  cases op with
  | div => exact guardedDiv_eq x y
  | add | sub | mul => rfl

/-- A division that refuses zero divisors gives all that a fold gives. -/
theorem foldlM_guarded (op : Arithmetic) (x : Number) (ys : List Number) :
    ys.foldlM op.guarded x = orOverflow (op.fold x ys) := by
  induction ys generalizing x with
  | nil => rfl
  | cons y ys ih =>
    rw [List.foldlM_cons, guarded_eq, fold]
    cases op.combine x y with
    | none => rfl
    | some z => exact ih z

/-- The result of an operation with a division underneath that refuses zero divisors. -/
def guardedResult : Arithmetic → Number → List Number → Except Fault Number
  | .sub, x, [] => .ok x.neg
  | op, x, ys => ys.foldlM op.guarded x

theorem guardedResult_eq (op : Arithmetic) (x : Number) (ys : List Number) :
    op.guardedResult x ys = orOverflow (op.result x ys) := by
  by_cases h : op = .sub ∧ ys = []
  · obtain ⟨rfl, rfl⟩ := h
    rfl
  · rw [result_eq_fold h, guardedResult, foldlM_guarded]
    rintro rfl hys
    exact h ⟨rfl, hys⟩

/-- Only a fold fails: the number of the opposite sign is always there. -/
theorem fold_of_result_eq_none {ys : List Number} (h : op.result x ys = none) :
    op.fold x ys = none := by
  by_cases hsub : op = .sub ∧ ys = []
  · obtain ⟨rfl, rfl⟩ := hsub
    cases h
  · rwa [result_eq_fold hsub] at h

/-- **Arithmetic never divides by zero, and it is total on doubles.**

* With a division underneath that refuses zero divisors, arithmetic on numbers gives what
  it gives, and that is a number or fails because one is too large.  It fails only if a
  whole number is too large for a double that is one of the arguments, or that the
  operation has computed exactly from those in front.
* On doubles it gives a double.
* A step of `/` whose divisor is zero fails only for a whole dividend that is too large.
  Otherwise it gives a nan just if the dividend is zero or a nan, and if not, the infinity
  of the product of the signs. -/
theorem apply_numbers (op : Arithmetic) (x : Number) (ys : List Number) :
    ((∃ n, op.guardedResult x ys = .ok n ∧ op.apply ((x :: ys).map .number) = .ok (.number n)) ∨
      op.guardedResult x ys = .error .overflow ∧
        op.apply ((x :: ys).map .number) = .error .overflow ∧
        ∃ n, TooLarge n ∧
          (.int n ∈ x :: ys ∨ ∃ front, front <+: ys ∧ op.fold x front = some (.int n))) ∧
    ((∀ y ∈ x :: ys, ∃ a, y = .float a) →
      ∃ a, op.apply ((x :: ys).map .number) = .ok (.float a)) ∧
    ∀ front y back z, ys = front ++ y :: back → y.isZero = true →
      Arithmetic.div.fold x front = some z →
      Arithmetic.div.fold x ys = (z.div y).bind (fun w => Arithmetic.div.fold w back) ∧
      (z.div y = none ∧ (∃ n, z = .int n ∧ TooLarge n) ∨
        ∃ a, z.div y = some (.float a) ∧
          (a = .nan ↔ z.isZero = true ∨ z = .float .nan) ∧
          (a ≠ .nan → a = .infinite (z.isNegative != y.isNegative))) := by
  refine ⟨?_, ?_, ?_⟩
  · rw [apply_numbers_eq, guardedResult_eq]
    cases hresult : op.result x ys with
    | some n => exact .inl ⟨n, rfl, rfl⟩
    | none =>
      obtain ⟨n, hlarge, hn⟩ := exists_tooLarge_of_fold (fold_of_result_eq_none hresult)
      exact .inr ⟨rfl, rfl, n, hlarge, hn.imp_left (List.mem_cons_of_mem _)⟩
  · intro hfloats
    obtain ⟨xs, hxs⟩ : x :: ys ∈ Set.range (List.map Number.float) := by
      rw [Set.range_list_map]
      exact fun y hy => (hfloats y hy).imp fun _ => Eq.symm
    cases xs with
    | nil => cases hxs
    | cons a as =>
      rw [← hxs, List.map_map]
      exact op.apply_floats a as
  · rintro front y back z rfl hy hz
    refine ⟨by rw [fold_append, hz]; rfl, ?_⟩
    rw [div_of_isZero hy]
    cases ha : z.toDouble? with
    | none => exact .inl ⟨rfl, toDouble?_eq_none_iff.1 ha⟩
    | some a =>
      refine .inr ⟨_, rfl, ?_⟩
      by_cases hnan : z.isZero = true ∨ z = .float .nan
      · simp [hnan]
      · simp [hnan]

/-- One divided by both zeros, the negative one first. -/
theorem apply_numbers_zeros :
    (∀ y ∈ [Number.float (.ofRatio false Double.unit 1), .float (.zero true), .float (.zero false)],
        ∃ a, y = .float a) ∧
      Arithmetic.div.fold (.float (.ofRatio false Double.unit 1)) [.float (.zero true)] =
        some (.float (.infinite true)) ∧
      (Number.float (.zero false)).isZero = true ∧
      (∃ a, Arithmetic.div.apply ([Number.float (.ofRatio false Double.unit 1),
        .float (.zero true), .float (.zero false)].map .number) = .ok (.float a)) ∧
      (Number.float (.infinite true)).div (.float (.zero false)) =
        some (.float (.infinite true)) := by
  have hfloats : ∀ y ∈ [Number.float (.ofRatio false Double.unit 1), .float (.zero true),
      .float (.zero false)], ∃ a, y = .float a := by
    simp
  have hfold : Arithmetic.div.fold (.float (.ofRatio false Double.unit 1)) [.float (.zero true)] =
      some (.float (.infinite true)) := by
    decide +kernel
  obtain ⟨-, htotal, hzero⟩ := apply_numbers .div (.float (.ofRatio false Double.unit 1))
    [.float (.zero true), .float (.zero false)]
  refine ⟨hfloats, hfold, rfl, htotal hfloats, ?_⟩
  obtain ⟨-, ⟨-, ⟨n, hn, -⟩⟩ | ⟨a, ha, hnan, hinfinite⟩⟩ :=
    hzero [.float (.zero true)] (.float (.zero false)) [] _ rfl rfl hfold
  · cases hn
  · have hne : a ≠ .nan := fun h => by simpa [isZero, Double.isZero] using hnan.1 h
    rw [ha, hinfinite hne]
    rfl

end Arithmetic
end Lisplet
