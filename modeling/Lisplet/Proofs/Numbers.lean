/-
# Numbers that are written and read back

A number is read back from its source equal to itself just if its place is that of
a finite double (`equal_atom_source_iff`).  What does not read back so are the
infinities, whose texts are symbols, and the whole numbers between the doubles or
beyond them, which are read as doubles near them.

A finite double that is written as a whole number reads back with the same number
of quanta; only the sign of zero may be lost.  Any other is read from its shortest
digits.  In both cases the double that is read has the same source again
(`source_atom_source`).
-/

import Lisplet.Proofs.Literals
import Lisplet.Reader.Tree
import Lisplet.Value.Text

namespace Lisplet

open Double Literal

namespace Double

variable {negative negative' : Bool} {q : Nat}

theorem natAbs_signed (negative : Bool) (q : Nat) : (signed negative q).natAbs = q := by
  cases negative <;> simp [signed]

/-- A whole number is its magnitude with its sign. -/
theorem signed_natAbs (n : Int) : signed (decide (n < 0)) n.natAbs = n := by
  by_cases hn : n < 0
  · rw [decide_eq_true hn, signed, if_pos rfl]
    omega
  · rw [decide_eq_false hn, signed, if_neg (by decide)]
    omega

theorem signed_mul (negative : Bool) (q k : Nat) :
    signed negative (q * k) = signed negative q * (k : Int) := by
  cases negative <;> simp [signed]

/-- The shortest digits of a double, with its sign, are a literal of the double. -/
theorem read?_text (h : Representable q) (hne : q ≠ 0) :
    ∃ d, read? (finite negative q h).text.toList = some d ∧
      ofDecimal d = .finite negative q h := by
  obtain ⟨d, hread, hsign, hsame⟩ :=
    denotes_write negative Layout.standard (shortest q).1 (shortest q).2
  have hback := readsBack_iff.1 (readsBack_shortest h hne)
  refine ⟨d, ?_, ?_⟩
  · rw [text, String.toList_ofList]
    exact hread
  · rw [ofDecimal_congr hsign hsame]
    exact ofDecimal_of_nearest h hback

theorem numerator_whole (negative : Bool) (m : Nat) :
    Decimal.numerator ⟨negative, m, 0⟩ = m * unit := by
  rw [Decimal.numerator]
  generalize unit = u
  exact congrArg (· * u) (Nat.mul_one m)

/-- A whole number that is a double is read as that double. -/
theorem ofDecimal_whole (negative : Bool) {m : Nat} (h : Representable (m * unit)) :
    ofDecimal ⟨negative, m, 0⟩ = .finite negative (m * unit) h := by
  refine ofDecimal_of_nearest h ?_
  rw [numerator_whole]
  exact nearest_one h

end Double

namespace Number

/-- The place of the number is that of a finite double. -/
def IsDouble (n : Number) : Prop := ∃ x : Double, x.isFinite = true ∧ x.place? = n.place?

/-- Two numbers are equal just if they have a place and it is the same. -/
theorem equal_iff {m n : Number} :
    m.equal n = true ↔ ∃ p, m.place? = some p ∧ n.place? = some p := by
  rw [equal, compare]
  cases m.place? <;> cases n.place? <;> simp [eq_comm]

/-- A double is finite just if it has a place among the quanta. -/
theorem isFinite_iff {x : Double} :
    x.isFinite = true ↔ ∃ count, x.place? = some (.quanta count) := by
  rcases x with _ | s | ⟨s, q, h⟩
  · simp [Double.isFinite, Double.place?]
  · cases s <;> simp [Double.isFinite, Double.place?]
  · simp [Double.isFinite, Double.place?]

theorem not_isDouble_infinite (negative : Bool) : ¬ IsDouble (.float (.infinite negative)) := by
  rintro ⟨x, hx, hplace⟩
  obtain ⟨count, hcount⟩ := isFinite_iff.1 hx
  rw [hcount] at hplace
  cases negative <;> cases hplace

/-- A whole number is at the place of a double just if it is representable. -/
theorem isDouble_int_iff (n : Int) : IsDouble (.int n) ↔ Representable (n.natAbs * unit) := by
  constructor
  · rintro ⟨x, hx, hplace⟩
    rcases x with _ | s | ⟨s, q, h⟩
    · cases hx
    · cases hx
    · have hsigned : signed s q = n * unit := by simpa [Double.place?, Number.place?] using hplace
      have hq : q = n.natAbs * unit := by
        rw [← natAbs_signed s q, hsigned, Int.natAbs_mul, Int.natAbs_natCast]
      exact hq ▸ h
  · intro h
    refine ⟨.finite (decide (n < 0)) _ h, rfl, ?_⟩
    rw [Double.place?, Number.place?, signed_mul, signed_natAbs]

/-- The source of a finite double tells its sign only if the double is not zero. -/
theorem source_finite_congr {negative negative' : Bool} {q : Nat} {h : Representable q}
    (hsigned : signed negative' q = signed negative q) :
    (Number.float (.finite negative' q h)).source =
      (Number.float (.finite negative q h)).source := by
  rcases Bool.eq_or_eq_not negative' negative with rfl | hne
  · rfl
  · obtain rfl : q = 0 := by
      subst hne
      cases negative <;> simp [signed] at hsigned <;> omega
    cases negative <;> cases negative' <;> rfl

end Number

namespace Reader

/-! ### What is read from a number that is written -/

theorem atom_source_int (n : Int) : atom (Number.int n).source =
    .float (ofDecimal ⟨decide (n < 0), n.natAbs, 0⟩) := by
  rw [atom, Number.source, read?_toString]

/-- A finite double is read back with the same number of quanta, and with its sign if
it is not zero. -/
theorem atom_source_finite (negative : Bool) {q : Nat} (h : Representable q) :
    ∃ negative', signed negative' q = signed negative q ∧
      atom (Number.float (.finite negative q h)).source = .float (.finite negative' q h) := by
  by_cases hq : q % Double.unit = 0
  · have hquanta : q / Double.unit * Double.unit = q :=
      Nat.div_mul_cancel (Nat.dvd_of_mod_eq_zero hq)
    have hinteger : (finite negative q h).integer? = some (signed negative (q / Double.unit)) :=
      if_pos hq
    generalize q / Double.unit = m at hquanta hinteger
    subst hquanta
    refine ⟨decide (signed negative m < 0), ?_, ?_⟩
    · have hsigned := signed_natAbs (signed negative m)
      rw [natAbs_signed] at hsigned
      rw [signed_mul, signed_mul, hsigned]
    · have hatom := atom_source_int (signed negative m)
      rw [natAbs_signed, ofDecimal_whole _ h] at hatom
      rw [Number.source, hinteger]
      exact hatom
  · have hne : q ≠ 0 := by
      rintro rfl
      exact hq (Nat.zero_mod _)
    obtain ⟨d, hread, hd⟩ := @read?_text negative q h hne
    have hinteger : (finite negative q h).integer? = none := if_neg hq
    refine ⟨negative, rfl, ?_⟩
    rw [atom, Number.source, hinteger, hread]
    exact congrArg Value.float hd

/-- The infinities are read back as symbols. -/
theorem atom_source_infinite (negative : Bool) :
    atom (Number.float (.infinite negative)).source =
      .symbol ⟨(Number.float (.infinite negative)).source⟩ := by
  cases negative <;> rfl

theorem equal_atom_source_int_iff (n : Int) :
    (atom (Number.int n).source).equal (.int n) = true ↔ (Number.int n).IsDouble := by
  have hequal : (atom (Number.int n).source).equal (.int n) =
      (Number.float (ofDecimal ⟨decide (n < 0), n.natAbs, 0⟩)).equal (.int n) := by
    rw [atom_source_int]
    rfl
  rw [hequal, Number.equal_iff]
  constructor
  · rintro ⟨p, hp, hn⟩
    obtain rfl := Option.some.inj hn
    exact ⟨_, Number.isFinite_iff.2 ⟨_, hp⟩, hp⟩
  · intro hdouble
    have h := (Number.isDouble_int_iff n).1 hdouble
    refine ⟨.quanta (n * Double.unit), ?_, rfl⟩
    rw [ofDecimal_whole _ h, Number.place?, Double.place?, signed_mul, signed_natAbs]

theorem equal_atom_source_infinite (negative : Bool) :
    (atom (Number.float (.infinite negative)).source).equal (.float (.infinite negative)) =
      false := by
  rw [atom_source_infinite]
  rfl

theorem equal_atom_source_finite (negative : Bool) {q : Nat} (h : Representable q) :
    (atom (Number.float (.finite negative q h)).source).equal (.float (.finite negative q h)) =
      true := by
  obtain ⟨negative', hsigned, hatom⟩ := atom_source_finite negative h
  have hplace : (Number.float (.finite negative' q h)).place? =
      some (.quanta (signed negative q)) := by
    rw [Number.place?, Double.place?, hsigned]
  rw [hatom]
  exact Number.equal_iff.2 ⟨_, hplace, rfl⟩

/-- **A number reads back equal to itself just if it is a finite double.** -/
theorem equal_atom_source_iff {n : Number} (hn : n ≠ .float .nan) :
    (atom n.source).equal (.number n) = true ↔ n.IsDouble := by
  rcases n with n | _ | s | ⟨s, q, h⟩
  · exact equal_atom_source_int_iff n
  · exact absurd rfl hn
  · have hequal := equal_atom_source_infinite s
    exact iff_of_false (Bool.eq_false_iff.1 hequal) (Number.not_isDouble_infinite s)
  · exact iff_of_true (equal_atom_source_finite s h) ⟨.finite s q h, rfl, rfl⟩

/-- **What is read from a double that is written is written the same again.** -/
theorem source_atom_source {x : Double} (hx : x ≠ .nan) :
    (atom (Number.float x).source).source = (Number.float x).source := by
  rcases x with _ | s | ⟨s, q, h⟩
  · exact absurd rfl hx
  · rw [atom_source_infinite]
    rfl
  · obtain ⟨s', hsigned, hatom⟩ := atom_source_finite s h
    rw [hatom]
    exact Number.source_finite_congr hsigned

/-- The source of a number is a word. -/
theorem isWord_source (n : Number) : IsWord n.source.toList := by
  rcases n with n | _ | s | ⟨s, q, h⟩
  · exact isWord_of_read? (read?_toString n)
  · decide
  · cases s <;> decide
  · rw [Number.source]
    split
    · next n _ => exact isWord_of_read? (read?_toString n)
    · next hinteger =>
      have hne : q ≠ 0 := by
        rintro rfl
        cases hinteger
      obtain ⟨d, hread, -⟩ := @read?_text s q h hne
      exact isWord_of_read? hread

end Reader
end Lisplet
