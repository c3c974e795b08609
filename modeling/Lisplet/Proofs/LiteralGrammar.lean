/-
# The grammar of number literals

The texts that are number literals are described here by what they are made of, each with
the sign that is written and the magnitude that is denoted (`IsLiteral`).  A digit is a
decimal digit of any script and counts as its value (`IsDigits`).

The scanner takes these texts and no others, and finds the sign and the magnitude
(`isLiteral_iff`): a part that is optional is taken if it is there, since none of the
parts that may follow begins in the same way.  So a text denotes one number at most
(`IsLiteral.unique`), and what the reader makes of a token is settled by the grammar and
by correct rounding (`Reader.atom_classifies`).
-/

import Mathlib.Data.Nat.Digits.Defs
import Lisplet.Proofs.Literals
import Lisplet.Proofs.Nearest
import Lisplet.Reader.Tree

namespace Lisplet

namespace Text

variable {digits digits' : List Nat}

theorem ofDigits_eq (digits : List Nat) : ofDigits digits = Nat.ofDigits 10 digits.reverse := by
  rw [ofDigits, Nat.ofDigits_eq_foldr, List.foldr_reverse]
  simp only [Nat.add_comm, Nat.cast_id]

theorem ofDigits_append (digits digits' : List Nat) :
    ofDigits (digits ++ digits') = ofDigits digits * 10 ^ digits'.length + ofDigits digits' := by
  rw [ofDigits_eq, ofDigits_eq, ofDigits_eq, List.reverse_append, Nat.ofDigits_append,
    List.length_reverse]
  ring

/-- What is taken as digits is digits. -/
theorem isDigits_of_spanDigits {cs rest : List Char} {digits : List Nat}
    (h : spanDigits cs = (digits, rest)) :
    ∃ front, cs = front ++ rest ∧ IsDigits front digits := by
  induction cs generalizing digits with
  | nil =>
    obtain ⟨rfl, rfl⟩ := Prod.mk.inj h
    exact ⟨[], rfl, .nil⟩
  | cons c cs ih =>
    rw [spanDigits] at h
    split at h
    · next d hd =>
      obtain ⟨rfl, hrest⟩ := Prod.mk.inj h
      obtain ⟨front, hfront, hdigits⟩ := ih (Prod.ext rfl hrest)
      exact ⟨c :: front, congrArg (c :: ·) hfront, .cons hd hdigits⟩
    · obtain ⟨rfl, rfl⟩ := Prod.mk.inj h
      exact ⟨[], rfl, .nil⟩

end Text

namespace Literal

open Text

/-- An optional sign; whether it is a minus sign. -/
inductive IsSign : List Char → Bool → Prop
  | none : IsSign [] false
  | plus : IsSign ['+'] false
  | minus : IsSign ['-'] true

/-- Digits with an optional point; the values of the digits before it and behind it. -/
inductive IsMantissa : List Char → List Nat → List Nat → Prop
  | whole (hwhole : IsDigits cs whole) (hne : whole ≠ []) : IsMantissa cs whole []
  | point (hwhole : IsDigits cs whole) (hne : whole ≠ []) (hfraction : IsDigits ds fraction) :
    IsMantissa (cs ++ '.' :: ds) whole fraction
  | fraction (hfraction : IsDigits ds fraction) (hne : fraction ≠ []) :
    IsMantissa ('.' :: ds) [] fraction

/-- An optional power of ten; its exponent. -/
inductive IsPower : List Char → Int → Prop
  | none : IsPower [] 0
  | power (hletter : c = 'e' ∨ c = 'E') (hsign : IsSign sign negative)
    (hdigits : IsDigits cs digits) (hne : digits ≠ []) :
    IsPower (c :: (sign ++ cs)) (Double.signed negative (Nat.ofDigits 10 digits.reverse))

/-- A number literal; whether a minus sign is written, and the magnitude. -/
inductive IsLiteral : List Char → Bool → ℚ → Prop
  | mk (hsign : IsSign sign negative) (hmantissa : IsMantissa cs whole fraction)
    (hpower : IsPower power exponent) :
    IsLiteral (sign ++ cs ++ power) negative
      ((Nat.ofDigits 10 whole.reverse + Nat.ofDigits 10 fraction.reverse / 10 ^ fraction.length) *
        10 ^ exponent)

variable {cs rest tail sign power : List Char} {whole fraction digits : List Nat} {exponent : Int}
  {negative : Bool} {v : ℚ} {d : Decimal}

/-! ### The scanner takes literals -/

theorem IsSign.spanSign_append (h : IsSign sign negative)
    (hrest : spanSign rest = (false, rest)) : spanSign (sign ++ rest) = (negative, rest) := by
  cases h with
  | none => exact hrest
  | plus => rfl
  | minus => rfl

/-- No digit is a sign. -/
theorem spanSign_digit {c : Char} {n : Nat} (hc : digitValue? c = some n) (cs : List Char) :
    spanSign (c :: cs) = (false, c :: cs) := by
  have hsign : digitValue? '-' = none ∧ digitValue? '+' = none := by decide
  rw [spanSign] <;> rintro rest heq <;> obtain ⟨rfl, -⟩ := List.cons.inj heq
  · cases hsign.1.symm.trans hc
  · cases hsign.2.symm.trans hc

theorem spanSign_digits (h : IsDigits cs digits) (hne : digits ≠ []) (rest : List Char) :
    spanSign (cs ++ rest) = (false, cs ++ rest) := by
  cases h with
  | nil => exact absurd rfl hne
  | cons hc _ => exact spanSign_digit hc _

theorem IsMantissa.spanSign_append (h : IsMantissa cs whole fraction) (rest : List Char) :
    spanSign (cs ++ rest) = (false, cs ++ rest) := by
  cases h with
  | whole hwhole hne => exact spanSign_digits hwhole hne rest
  | point hwhole hne _ =>
    rw [List.append_assoc]
    exact spanSign_digits hwhole hne _
  | fraction _ _ => rfl

theorem IsMantissa.append_ne_nil (h : IsMantissa cs whole fraction) : whole ++ fraction ≠ [] := by
  cases h with
  | whole _ hne => exact List.append_ne_nil_of_left_ne_nil hne _
  | point _ hne _ => exact List.append_ne_nil_of_left_ne_nil hne _
  | fraction _ hne => exact hne

theorem IsPower.spanDigits_eq (h : IsPower cs exponent) : spanDigits cs = ([], cs) := by
  cases h with
  | none => rfl
  | power hletter _ _ _ => rcases hletter with rfl | rfl <;> rfl

theorem IsPower.spanFraction_eq (h : IsPower cs exponent) : spanFraction cs = ([], cs) := by
  cases h with
  | none => rfl
  | power hletter _ _ _ => rcases hletter with rfl | rfl <;> rfl

/-- A mantissa ends where the power begins. -/
theorem IsMantissa.span_append (h : IsMantissa cs whole fraction)
    (hpower : IsPower power exponent) :
    ∃ rest, spanDigits (cs ++ power) = (whole, rest) ∧ spanFraction rest = (fraction, power) := by
  cases h with
  | whole hwhole _ =>
    rw [hwhole.spanDigits_append, hpower.spanDigits_eq, List.append_nil]
    exact ⟨power, rfl, hpower.spanFraction_eq⟩
  | point hwhole _ hfraction =>
    rw [List.append_assoc, hwhole.spanDigits_append, List.cons_append, spanDigits_point,
      List.append_nil]
    refine ⟨_, rfl, ?_⟩
    rw [spanFraction, hfraction.spanDigits_append, hpower.spanDigits_eq, List.append_nil]
  | fraction hfraction _ =>
    refine ⟨_, spanDigits_point _, ?_⟩
    have hspan := hfraction.spanDigits_append power
    rwa [hpower.spanDigits_eq, List.append_nil] at hspan

theorem IsPower.exponent?_eq (h : IsPower cs exponent) : exponent? cs = some exponent := by
  cases h with
  | none => rfl
  | @power c sign negative cs digits hletter hsign hdigits hne =>
    have hsign := hsign.spanSign_append (List.append_nil cs ▸ spanSign_digits hdigits hne [])
    have hspan := hdigits.spanDigits_append []
    rw [List.append_nil] at hspan
    obtain ⟨d, digits, rfl⟩ := List.exists_cons_of_ne_nil hne
    simp only [exponent?, if_pos hletter, hsign, hspan, ofDigits_eq, spanDigits,
      List.append_nil]
    rfl

/-- The digits behind the point lower the power of ten. -/
theorem magnitude_eq (negative : Bool) (whole fraction : List Nat) (exponent : Int) :
    (⟨negative, ofDigits (whole ++ fraction), exponent - fraction.length⟩ : Decimal).magnitude =
      (Nat.ofDigits 10 whole.reverse + Nat.ofDigits 10 fraction.reverse / 10 ^ fraction.length) *
        10 ^ exponent := by
  have hten : (10 : ℚ) ≠ 0 := by norm_num
  rw [Decimal.magnitude, ofDigits_append, ofDigits_eq, ofDigits_eq, zpow_sub₀ hten, zpow_natCast]
  push_cast [Nat.coe_ofDigits]
  field_simp

/-- **The scanner takes every literal.** -/
theorem IsLiteral.exists_read? (h : IsLiteral cs negative v) :
    ∃ d, read? cs = some d ∧ d.negative = negative ∧ d.magnitude = v := by
  cases h with
  | @mk sign negative cs whole fraction power exponent hsign hmantissa hpower =>
    refine ⟨_, ?_, rfl, magnitude_eq negative whole fraction exponent⟩
    obtain ⟨rest, hwhole, hfraction⟩ := hmantissa.span_append hpower
    have hspan := hsign.spanSign_append (hmantissa.spanSign_append power)
    simp only [read?, List.append_assoc, hspan, hwhole, hfraction, if_neg hmantissa.append_ne_nil,
      hpower.exponent?_eq, Option.map_some]

/-! ### It takes nothing else -/

theorem isSign_of_spanSign (h : spanSign cs = (negative, rest)) :
    ∃ front, cs = front ++ rest ∧ IsSign front negative := by
  rw [spanSign.eq_def] at h
  split at h <;> obtain ⟨rfl, rfl⟩ := Prod.mk.inj h
  · exact ⟨_, rfl, .minus⟩
  · exact ⟨_, rfl, .plus⟩
  · exact ⟨_, rfl, .none⟩

/-- What is taken as digits, a point and digits is a mantissa if there are any digits. -/
theorem isMantissa_of_span (hwhole : spanDigits cs = (whole, rest))
    (hfraction : spanFraction rest = (fraction, tail)) (hne : whole ++ fraction ≠ []) :
    ∃ front, cs = front ++ tail ∧ IsMantissa front whole fraction := by
  obtain ⟨front, rfl, hdigits⟩ := isDigits_of_spanDigits hwhole
  rw [spanFraction.eq_def] at hfraction
  split at hfraction
  · next ds =>
    obtain ⟨behind, rfl, hdigits'⟩ := isDigits_of_spanDigits hfraction
    obtain rfl | hwhole := eq_or_ne whole []
    · cases hdigits
      exact ⟨'.' :: behind, rfl, .fraction hdigits' hne⟩
    · refine ⟨front ++ '.' :: behind, ?_, .point hdigits hwhole hdigits'⟩
      rw [List.append_assoc, List.cons_append]
  · obtain ⟨rfl, rfl⟩ := Prod.mk.inj hfraction
    rw [List.append_nil] at hne
    exact ⟨front, rfl, .whole hdigits hne⟩

theorem isPower_of_exponent? (h : exponent? cs = some exponent) : IsPower cs exponent := by
  cases cs with
  | nil =>
    obtain rfl := Option.some.inj h
    exact .none
  | cons c cs =>
    rcases hfront : spanSign cs with ⟨negative, rest⟩
    simp only [exponent?, hfront] at h
    split at h
    · next hletter =>
      split at h
      · next n digits hspan =>
        obtain ⟨sign, rfl, hsign⟩ := isSign_of_spanSign hfront
        obtain ⟨front, rfl, hdigits⟩ := isDigits_of_spanDigits hspan
        obtain rfl := Option.some.inj h
        rw [List.append_nil, ofDigits_eq]
        exact .power hletter hsign hdigits (List.cons_ne_nil _ _)
      · cases h
    · cases h

/-- **The scanner takes literals alone.** -/
theorem isLiteral_of_read? (h : read? cs = some d) : IsLiteral cs d.negative d.magnitude := by
  rcases hfront : spanSign cs with ⟨negative, behind⟩
  rcases hwhole : spanDigits behind with ⟨whole, rest⟩
  rcases hfraction : spanFraction rest with ⟨fraction, power⟩
  simp only [read?, hfront, hwhole, hfraction] at h
  split at h
  · cases h
  · next hne =>
    obtain ⟨exponent, hexponent, rfl⟩ := Option.map_eq_some_iff.1 h
    obtain ⟨sign, rfl, hsign⟩ := isSign_of_spanSign hfront
    obtain ⟨mantissa, rfl, hmantissa⟩ := isMantissa_of_span hwhole hfraction hne
    rw [← List.append_assoc, magnitude_eq]
    exact .mk hsign hmantissa (isPower_of_exponent? hexponent)

/-- **The scanner decides the grammar.** -/
theorem isLiteral_iff :
    IsLiteral cs negative v ↔ ∃ d, read? cs = some d ∧ d.negative = negative ∧ d.magnitude = v := by
  refine ⟨IsLiteral.exists_read?, ?_⟩
  rintro ⟨d, hd, rfl, rfl⟩
  exact isLiteral_of_read? hd

/-- **A text denotes one number at most.** -/
theorem IsLiteral.unique {negative' : Bool} {v' : ℚ} (h : IsLiteral cs negative v)
    (h' : IsLiteral cs negative' v') : negative = negative' ∧ v = v' := by
  obtain ⟨d, hd, rfl, rfl⟩ := h.exists_read?
  obtain ⟨d', hd', rfl, rfl⟩ := h'.exists_read?
  obtain rfl := Option.some.inj (hd.symm.trans hd')
  exact ⟨rfl, rfl⟩

theorem isSome_read?_iff : (read? cs).isSome = true ↔ ∃ negative v, IsLiteral cs negative v := by
  rw [Option.isSome_iff_exists]
  constructor
  · rintro ⟨d, hd⟩
    exact ⟨_, _, isLiteral_of_read? hd⟩
  · rintro ⟨negative, v, h⟩
    obtain ⟨d, hd, -⟩ := h.exists_read?
    exact ⟨d, hd⟩

instance (cs : List Char) : Decidable (∃ negative v, IsLiteral cs negative v) :=
  decidable_of_iff _ isSome_read?_iff

-- digits of several scripts, a point with digits on one side alone, a power in capitals
example : ∀ cs ∈ [['1', '\u0662', '\uff13'], ['-', '1', '.'], ['.', '5', 'E', '+', '0', '7']],
    ∃ negative v, IsLiteral cs negative v := by
  decide +kernel

-- nothing, a lone sign or point, no digits in the power, a separator, a superscript, a line end
example : ∀ cs ∈ [[], ['+'], ['.'], ['1', 'e', '-'], ['1', '_', '0'], ['2', '\u00b2'], ['1', '\n']],
    ¬∃ negative v, IsLiteral cs negative v := by
  decide +kernel

end Literal

namespace Reader

open Literal Double

variable {token : String} {negative : Bool} {v : ℚ}

/-- A literal is the double nearest to it. -/
theorem atom_of_isLiteral (h : IsLiteral token.toList negative v) :
    ∃ x, atom token = .float x ∧ IsRounded negative v x := by
  obtain ⟨d, hd, rfl, rfl⟩ := h.exists_read?
  rw [atom, hd]
  exact ⟨_, rfl, isRounded_ofDecimal d⟩

/-- Everything else is a symbol. -/
theorem atom_of_not_isLiteral (h : ¬∃ negative v, IsLiteral token.toList negative v) :
    atom token = .symbol ⟨token⟩ := by
  rw [← isSome_read?_iff, Bool.not_eq_true, Option.isSome_eq_false_iff, Option.isNone_iff_eq_none]
    at h
  rw [atom, h]

/-- **What the reader makes of a token.**  It is a number if the token is a literal, and
otherwise the symbol of that name.  The number is the double nearest to what the literal
denotes: infinite or zero, with the sign of the literal, if that is too large or too
small, and the same for all literals that denote the same. -/
theorem atom_classifies (token : String) :
    ((∃ n, atom token = .number n) ↔ ∃ negative v, IsLiteral token.toList negative v) ∧
    (atom token = .symbol ⟨token⟩ ↔ ¬∃ negative v, IsLiteral token.toList negative v) ∧
    ∀ negative v, IsLiteral token.toList negative v →
      ∃ x, atom token = .float x ∧ IsRounded negative v x ∧
        (x = .infinite negative ↔ 2 ^ 1024 - 2 ^ 970 ≤ v) ∧
        (x = zero negative ↔ v ≤ 1 / 2 ^ 1075) ∧
        ∀ token', IsLiteral token'.toList negative v → atom token' = .float x := by
  refine ⟨⟨?_, ?_⟩, ⟨?_, atom_of_not_isLiteral⟩, ?_⟩
  · rintro ⟨n, hn⟩
    by_contra h
    rw [atom_of_not_isLiteral h] at hn
    cases hn
  · rintro ⟨negative, v, h⟩
    obtain ⟨x, hx, -⟩ := atom_of_isLiteral h
    exact ⟨_, hx⟩
  · rintro hsymbol ⟨negative, v, h⟩
    obtain ⟨x, hx, -⟩ := atom_of_isLiteral h
    rw [hx] at hsymbol
    cases hsymbol
  · intro negative v h
    obtain ⟨x, hx, hrounded⟩ := atom_of_isLiteral h
    refine ⟨x, hx, hrounded, hrounded.infinite_iff, hrounded.zero_iff, fun token' h' => ?_⟩
    obtain ⟨x', hx', hrounded'⟩ := atom_of_isLiteral h'
    rw [hx', hrounded'.unique hrounded]

/-- Digits of two scripts with a power of ten, and the same number in digits of one. -/
theorem atom_classifies_scripts :
    IsLiteral "-\u0663.5e2".toList true 350 ∧ IsLiteral "-350".toList true 350 ∧
      atom "-\u0663.5e2" = atom "-350" := by
  have hmixed : IsLiteral "-\u0663.5e2".toList true 350 :=
    isLiteral_iff.2 ⟨⟨true, 35, 1⟩, by decide +kernel, rfl, by norm_num [Decimal.magnitude]⟩
  have hplain : IsLiteral "-350".toList true 350 :=
    isLiteral_iff.2 ⟨⟨true, 350, 0⟩, by decide +kernel, rfl, by norm_num [Decimal.magnitude]⟩
  obtain ⟨x, hx, -, -, -, hsame⟩ := (atom_classifies "-350").2.2 true 350 hplain
  exact ⟨hmixed, hplain, (hsame _ hmixed).trans hx.symm⟩

end Reader
end Lisplet
