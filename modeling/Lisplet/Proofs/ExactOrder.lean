/-
# Comparison is the order of exact values

Every number but a nan has an exact value on the extended real line (`Number.value?`): a
whole number is itself, a finite double its quanta over 2¹⁰⁷⁴, and the infinities are the two
ends.  Places are these values measured in quanta (`Number.value?_eq`), so one number lies
before another just if its value is the smaller one (`Place.lt_iff`).

No whole number is rounded for that, however large it is.  So comparison is a strict order
over numbers of both kinds together, and each of the four comparisons can be had from another
by exchanging the numbers or, away from nans, by negation (`Comparison.compares_values`).
-/

import Mathlib.Data.EReal.Basic
import Lisplet.Proofs.Operator
import Lisplet.Proofs.Rounding

namespace Lisplet

/-- The exact value of a double.  A nan has none. -/
noncomputable def Double.value? : Double → Option EReal
  | .nan => none
  | .infinite negative => some (if negative then ⊥ else ⊤)
  | .finite negative q _ => some (((if negative then -(q : ℝ) else q) / 2 ^ 1074 : ℝ) : EReal)

/-- The exact value of a number.  A nan has none. -/
noncomputable def Number.value? : Number → Option EReal
  | .int n => some ((n : ℝ) : EReal)
  | .float x => x.value?

/-- The value that lies at a place. -/
noncomputable def Place.value : Place → EReal
  | .bottom => ⊥
  | .quanta n => ((n / 2 ^ 1074 : ℝ) : EReal)
  | .top => ⊤

/-- Places lie on the line in the order of the values. -/
theorem Place.lt_iff {p q : Place} : p.lt q = true ↔ p.value < q.value := by
  have hpos : (0 : ℝ) < 2 ^ 1074 := by positivity
  cases p with
  | bottom => cases q <;> simp [lt, value, EReal.bot_lt_coe]
  | top => cases q <;> simp [lt, value]
  | quanta m =>
    cases q with
    | bottom => simp [lt, value]
    | top => simp [lt, value, EReal.coe_lt_top]
    | quanta n =>
      rw [lt, value, value, EReal.coe_lt_coe_iff, div_lt_div_iff_of_pos_right hpos, Int.cast_lt,
        decide_eq_true_iff]

theorem Place.le_iff {p q : Place} : p.le q = true ↔ p.value ≤ q.value := by
  rw [le_eq_not_lt, Bool.not_eq_true', ← Bool.not_eq_true, lt_iff, not_lt]

namespace Number

variable {x : Number}

/-- **The value of a number is that of its place.** -/
theorem value?_eq (x : Number) : x.value? = x.place?.map Place.value := by
  cases x with
  | int n =>
    have hunit : ((n * Double.unit : Int) : ℝ) = n * 2 ^ 1074 := by
      rw [Double.unit, Double.one_shiftLeft_eq, Int.cast_mul, Int.cast_natCast, Nat.cast_pow,
        Nat.cast_ofNat]
    have hne : (2 : ℝ) ^ 1074 ≠ 0 := by positivity
    rw [value?, place?, Option.map_some, Place.value, hunit, mul_div_cancel_right₀ _ hne]
  | float x =>
    rcases x with _ | negative | ⟨negative, q, hq⟩
    · rfl
    · cases negative <;> rfl
    · cases negative <;> simp [value?, place?, Double.value?, Double.place?, Double.signed,
        Place.value]

/-- All numbers but the nans have a place. -/
theorem exists_place? (h : x ≠ .float .nan) : ∃ p, x.place? = some p := by
  rcases x with n | _ | negative | ⟨negative, q, hq⟩
  · exact ⟨_, rfl⟩
  · exact absurd rfl h
  · exact ⟨_, rfl⟩
  · exact ⟨_, rfl⟩

theorem exists_value? (h : x ≠ .float .nan) : ∃ a, x.value? = some a := by
  obtain ⟨p, hp⟩ := exists_place? h
  exact ⟨p.value, by rw [value?_eq, hp, Option.map_some]⟩

end Number

namespace Comparison

/-- The relation between values that a comparison tests. -/
def Relates : Comparison → EReal → EReal → Prop
  | .less, a, b => a < b
  | .atMost, a, b => a ≤ b
  | .greater, a, b => b < a
  | .atLeast, a, b => b ≤ a

variable {op : Comparison} {x y z : Number} {a b : EReal}

/-- Of two numbers a comparison gives whether it holds. -/
theorem apply_numbers_eq (op : Comparison) (x y : Number) :
    op.apply [.number x, .number y] = .ok (.bool (Number.compare op.relation x y)) := rfl

theorem relation_iff (op : Comparison) (p q : Place) :
    op.relation p q = true ↔ op.Relates p.value q.value := by
  cases op with
  | less | greater => exact Place.lt_iff
  | atMost | atLeast => exact Place.le_iff

/-- **A comparison of two numbers is that of their values.** -/
theorem compare_iff (op : Comparison) (hx : x.value? = some a) (hy : y.value? = some b) :
    Number.compare op.relation x y = true ↔ op.Relates a b := by
  rw [Number.value?_eq, Option.map_eq_some_iff] at hx hy
  obtain ⟨p, hp, rfl⟩ := hx
  obtain ⟨q, hq, rfl⟩ := hy
  rw [Number.compare, hp, hq]
  exact op.relation_iff p q

/-- A comparison that holds is of two numbers that have values. -/
theorem exists_value?_of_compare (h : Number.compare op.relation x y = true) :
    ∃ a b, x.value? = some a ∧ y.value? = some b ∧ op.Relates a b := by
  rw [Number.compare] at h
  split at h
  · rename_i p q hp hq
    rw [Number.value?_eq, Number.value?_eq, hp, hq]
    exact ⟨_, _, rfl, rfl, (op.relation_iff p q).1 h⟩
  · cases h

theorem compare_nan (relation : Place → Place → Bool) (h : x = .float .nan ∨ y = .float .nan) :
    Number.compare relation x y = false := by
  rcases h with rfl | rfl
  · rfl
  · rw [Number.compare]
    cases x.place? <;> rfl

theorem compare_exchange (relation : Place → Place → Bool) (x y : Number) :
    Number.compare (fun p q => relation q p) x y = Number.compare relation y x := by
  rw [Number.compare, Number.compare]
  cases x.place? <;> cases y.place? <;> rfl

/-- Away from nans `<=` is the opposite of `>`. -/
theorem compare_atMost (hx : x ≠ .float .nan) (hy : y ≠ .float .nan) :
    Number.compare Comparison.atMost.relation x y =
      !Number.compare Comparison.greater.relation x y := by
  obtain ⟨p, hp⟩ := Number.exists_place? hx
  obtain ⟨q, hq⟩ := Number.exists_place? hy
  rw [Number.compare, Number.compare, hp, hq]
  exact Place.le_eq_not_lt p q

/-- **Comparison is one exact order.**

* Numbers other than nans have exact values on the extended real line, and a comparison of
  two of them never fails: it gives whether their values are so related.
* `<` is transitive over whole numbers and doubles together.
* `(> x y)` is `(< y x)` and `(>= x y)` is `(<= y x)`, for all numbers.  Away from nans
  `(<= x y)` is the opposite of `(> x y)`.
* With a nan no comparison holds. -/
theorem compares_values :
    (∀ (op : Comparison) (x y : Number), x ≠ .float .nan → y ≠ .float .nan →
      ∃ a b, x.value? = some a ∧ y.value? = some b ∧
        ∃ r, op.apply [.number x, .number y] = .ok (.bool r) ∧ (r = true ↔ op.Relates a b)) ∧
    (∀ x y z : Number, Comparison.less.apply [.number x, .number y] = .ok (.bool true) →
      Comparison.less.apply [.number y, .number z] = .ok (.bool true) →
      Comparison.less.apply [.number x, .number z] = .ok (.bool true)) ∧
    (∀ x y : Number,
      Comparison.greater.apply [.number x, .number y] =
        Comparison.less.apply [.number y, .number x] ∧
      Comparison.atLeast.apply [.number x, .number y] =
        Comparison.atMost.apply [.number y, .number x]) ∧
    (∀ x y : Number, x ≠ .float .nan → y ≠ .float .nan →
      ∃ r, Comparison.greater.apply [.number x, .number y] = .ok (.bool r) ∧
        Comparison.atMost.apply [.number x, .number y] = .ok (.bool !r)) ∧
    ∀ (op : Comparison) (x y : Number), x = .float .nan ∨ y = .float .nan →
      op.apply [.number x, .number y] = .ok (.bool false) := by
  have hholds {x y : Number} (h : Comparison.less.apply [.number x, .number y] = .ok (.bool true)) :
      Number.compare Comparison.less.relation x y = true := Value.bool.inj (Except.ok.inj h)
  refine ⟨fun op x y hx hy => ?_, fun x y z hxy hyz => ?_, fun x y => ⟨?_, ?_⟩,
    fun x y hx hy => ?_, fun op x y h => ?_⟩
  · obtain ⟨a, ha⟩ := Number.exists_value? hx
    obtain ⟨b, hb⟩ := Number.exists_value? hy
    exact ⟨a, b, ha, hb, _, op.apply_numbers_eq x y, op.compare_iff ha hb⟩
  · obtain ⟨a, b, ha, hb, hab⟩ := exists_value?_of_compare (hholds hxy)
    obtain ⟨b', c, hb', hc, hbc⟩ := exists_value?_of_compare (hholds hyz)
    obtain rfl : b = b' := Option.some.inj (hb.symm.trans hb')
    have hac : Comparison.less.Relates a c := lt_trans hab hbc
    rw [apply_numbers_eq, (less.compare_iff ha hc).2 hac]
  · rw [apply_numbers_eq, apply_numbers_eq]
    exact congrArg _ (congrArg _ (compare_exchange Place.lt x y))
  · rw [apply_numbers_eq, apply_numbers_eq]
    exact congrArg _ (congrArg _ (compare_exchange Place.le x y))
  · exact ⟨_, apply_numbers_eq .greater x y, by rw [apply_numbers_eq, compare_atMost hx hy]⟩
  · rw [apply_numbers_eq, compare_nan _ h]

/-- Around 2⁵³, where every other whole number is no double: the double 2⁵³ has a smaller value
than the whole number after it, which lies before infinity; and beyond the doubles. -/
theorem compares_values_large :
    let power : Number := .float (.ofRatio false (9007199254740992 * Double.unit) 1)
    let next : Number := .int 9007199254740993
    let infinite : Number := .float (.infinite false)
    power ≠ .float .nan ∧ next ≠ .float .nan ∧
      (∃ a b, power.value? = some a ∧ next.value? = some b ∧ a < b) ∧
      Comparison.less.apply [.number power, .number infinite] = .ok (.bool true) ∧
      Comparison.atMost.apply [.number next, .number power] = .ok (.bool false) ∧
      Comparison.atMost.apply [.int Double.limit, .float .nan] = .ok (.bool false) := by
  intro power next infinite
  have hpower : power ≠ .float .nan := by decide +kernel
  have hnext : next ≠ .float .nan := nofun
  have hcompare : Number.compare Comparison.less.relation power next = true ∧
      Number.compare Comparison.less.relation next infinite = true := by decide +kernel
  have hless : Comparison.less.apply [.number power, .number next] = .ok (.bool true) := by
    rw [apply_numbers_eq, hcompare.1]
  have hless' : Comparison.less.apply [.number next, .number infinite] = .ok (.bool true) := by
    rw [apply_numbers_eq, hcompare.2]
  obtain ⟨hvalues, htrans, hexchange, hopposite, hnan⟩ := compares_values
  refine ⟨hpower, hnext, ?_, htrans power next infinite hless hless', ?_, hnan _ _ _ (.inr rfl)⟩
  · obtain ⟨a, b, ha, hb, r, hr, hrelates⟩ := hvalues .less power next hpower hnext
    obtain rfl : true = r := Value.bool.inj (Except.ok.inj (hless.symm.trans hr))
    exact ⟨a, b, ha, hb, hrelates.1 rfl⟩
  · obtain ⟨r, hgreater, hatMost⟩ := hopposite next power hnext hpower
    rw [(hexchange next power).1, hless] at hgreater
    obtain rfl : true = r := Value.bool.inj (Except.ok.inj hgreater)
    exact hatMost

end Comparison
end Lisplet
