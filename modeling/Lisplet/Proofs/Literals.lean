/-
# Number literals

All literals are words, whatever digits they are made of (`isWord_of_read?`): they
hold digits, signs, points and the letter of the power of ten, and none of these is
a blank or a parenthesis.

Every decimal that a layout writes, with a minus sign or without, is a literal of
a decimal of the same sign and magnitude (`denotes_write`), and so is every whole
number that is written by its digits (`read?_toString`).
-/

import Mathlib.Data.List.Forall2
import Lisplet.Double.Text
import Lisplet.Number.Literal
import Lisplet.Proofs.Rounding
import Lisplet.Proofs.Tokens

namespace Lisplet

namespace Text

/-- The values of digits of the first script. -/
def values (cs : List Char) : List Nat := cs.map fun c => c.toNat - 48

theorem digitValue?_of_isDigit {c : Char} (h : c.isDigit = true) :
    digitValue? c = some (c.toNat - 48) := by
  have hrange : 48 ≤ c.toNat ∧ c.toNat ≤ 57 := Char.isDigit_iff_toNat.1 h
  have hfind : (48 :: digitZeros.tail).find? (fun start =>
      decide (start ≤ c.toNat) && decide (c.toNat < start + 10)) = some 48 := by
    refine List.find?_cons_of_pos ?_
    simp only [Bool.and_eq_true, decide_eq_true_eq]
    omega
  have hzeros : digitZeros = 48 :: digitZeros.tail := rfl
  rw [digitValue?, hzeros, hfind]
  rfl

/-- The characters are decimal digits, of whatever scripts, and have these values. -/
def IsDigits : List Char → List Nat → Prop := List.Forall₂ fun c d => digitValue? c = some d

theorem isDigits_values {cs : List Char} (h : ∀ c ∈ cs, c.isDigit = true) :
    IsDigits cs (values cs) := by
  rw [values]
  exact List.forall₂_map_right_iff.2
    (List.forall₂_same.2 fun c hc => digitValue?_of_isDigit (h c hc))

/-- Digits at the front of a text are taken, whatever follows. -/
theorem IsDigits.spanDigits_append {cs : List Char} {digits : List Nat} (h : IsDigits cs digits)
    (rest : List Char) :
    spanDigits (cs ++ rest) = (digits ++ (spanDigits rest).1, (spanDigits rest).2) := by
  induction h with
  | nil => rfl
  | cons hc _ ih =>
    rw [List.cons_append, spanDigits, hc, ih]
    rfl

theorem spanDigits_append {cs : List Char} (h : ∀ c ∈ cs, c.isDigit = true) (rest : List Char) :
    spanDigits (cs ++ rest) = (values cs ++ (spanDigits rest).1, (spanDigits rest).2) :=
  (isDigits_values h).spanDigits_append rest

theorem spanDigits_of_isDigit {cs : List Char} (h : ∀ c ∈ cs, c.isDigit = true) :
    spanDigits cs = (values cs, []) := by
  have hspan := spanDigits_append h []
  simpa [spanDigits] using hspan

theorem ofDigits_values (cs : List Char) : ofDigits (values cs) = Nat.ofDigitChars 10 cs 0 := by
  rw [ofDigits, values, List.foldl_map]
  rfl

end Text

namespace Literal

open Text

/-- A text with a minus sign in front of it, or without. -/
def withSign (negative : Bool) (cs : List Char) : List Char :=
  if negative then '-' :: cs else cs

theorem spanSign_withSign (negative : Bool) {cs : List Char} (hne : cs ≠ [])
    (h : ∀ c ∈ cs, c.isDigit = true) (rest : List Char) :
    spanSign (withSign negative (cs ++ rest)) = (negative, cs ++ rest) := by
  cases negative with
  | true => rfl
  | false =>
    obtain ⟨c, cs, rfl⟩ := List.exists_cons_of_ne_nil hne
    have hc : c.isDigit = true := h c (by simp)
    rw [withSign, if_neg (by decide), List.cons_append, spanSign]
    · intro rest' heq
      obtain ⟨rfl, -⟩ := List.cons.inj heq
      exact absurd hc (by decide)
    · intro rest' heq
      obtain ⟨rfl, -⟩ := List.cons.inj heq
      exact absurd hc (by decide)

/-- A literal is read part by part. -/
theorem read?_append (negative : Bool) {whole fraction rest tail : List Char} {power : Int}
    (hne : whole ≠ []) (hwhole : ∀ c ∈ whole, c.isDigit = true)
    (hrest : spanDigits rest = ([], rest)) (hfraction : spanFraction rest = (values fraction, tail))
    (hpower : exponent? tail = some power) :
    read? (withSign negative (whole ++ rest)) =
      some ⟨negative, Nat.ofDigitChars 10 (whole ++ fraction) 0, power - fraction.length⟩ := by
  have hvalues : values whole ++ values fraction ≠ [] :=
    List.append_ne_nil_of_left_ne_nil (mt List.map_eq_nil_iff.1 hne) _
  have happend : values whole ++ values fraction = values (whole ++ fraction) :=
    (List.map_append ..).symm
  have hlength : (values fraction).length = fraction.length := List.length_map ..
  simp only [read?, spanSign_withSign negative hne hwhole, spanDigits_append hwhole, hrest,
    List.append_nil, hfraction, if_neg hvalues, hpower, Option.map_some, hlength]
  rw [happend, ofDigits_values]

theorem spanDigits_point (cs : List Char) : spanDigits ('.' :: cs) = ([], '.' :: cs) := rfl

theorem spanDigits_letter (cs : List Char) : spanDigits ('e' :: cs) = ([], 'e' :: cs) := rfl

/-- Digits alone. -/
theorem read?_whole (negative : Bool) {whole : List Char} (hne : whole ≠ [])
    (hwhole : ∀ c ∈ whole, c.isDigit = true) :
    read? (withSign negative whole) = some ⟨negative, Nat.ofDigitChars 10 whole 0, 0⟩ := by
  have h := @read?_append negative whole [] [] [] 0 hne hwhole rfl rfl rfl
  rwa [List.append_nil] at h

/-- Digits with a point among them. -/
theorem read?_point (negative : Bool) {whole fraction : List Char} (hne : whole ≠ [])
    (hwhole : ∀ c ∈ whole, c.isDigit = true) (hfraction : ∀ c ∈ fraction, c.isDigit = true) :
    read? (withSign negative (whole ++ '.' :: fraction)) =
      some ⟨negative, Nat.ofDigitChars 10 (whole ++ fraction) 0, -fraction.length⟩ := by
  have hspan : spanFraction ('.' :: fraction) = (values fraction, []) :=
    spanDigits_of_isDigit hfraction
  rw [read?_append negative hne hwhole (spanDigits_point fraction) hspan rfl, Int.zero_sub]

/-- A power of ten with its sign. -/
theorem exponent?_digits {power : Int} {digits : List Char} (hne : digits ≠ [])
    (hdigits : ∀ c ∈ digits, c.isDigit = true)
    (hvalue : Nat.ofDigitChars 10 digits 0 = power.natAbs) :
    exponent? ('e' :: (if power < 0 then '-' else '+') :: digits) = some power := by
  obtain ⟨c, cs, rfl⟩ := List.exists_cons_of_ne_nil hne
  have hspan : spanDigits (c :: cs) = ((c.toNat - 48) :: values cs, []) :=
    spanDigits_of_isDigit hdigits
  have hpower : ofDigits ((c.toNat - 48) :: values cs) = power.natAbs :=
    (ofDigits_values (c :: cs)).trans hvalue
  by_cases hneg : power < 0
  · simp only [exponent?, if_pos hneg, spanSign, hspan, hpower, true_or, if_true]
    congr 1
    omega
  · simp only [exponent?, if_neg hneg, spanSign, hspan, hpower, true_or, if_true]
    simp
    omega

/-- Digits, perhaps with a point behind the first, and a power of ten. -/
theorem read?_power (negative : Bool) {digits power : List Char} {leading : Int}
    (hne : digits ≠ []) (hdigits : ∀ c ∈ digits, c.isDigit = true)
    (hpower : exponent? ('e' :: power) = some leading) :
    read? (withSign negative (digits.take 1 ++
        ((if digits.length ≤ 1 then [] else '.' :: digits.drop 1) ++ 'e' :: power))) =
      some ⟨negative, Nat.ofDigitChars 10 digits 0, leading - (digits.length - 1 : Nat)⟩ := by
  have htake : digits.take 1 ≠ [] := by
    rw [ne_eq, List.take_eq_nil_iff, not_or]
    exact ⟨by decide, hne⟩
  have hwhole : ∀ c ∈ digits.take 1, c.isDigit = true :=
    fun c hc => hdigits c (List.mem_of_mem_take hc)
  have hfraction : ∀ c ∈ digits.drop 1, c.isDigit = true :=
    fun c hc => hdigits c (List.mem_of_mem_drop hc)
  have hread : ∀ rest, spanDigits rest = ([], rest) →
      spanFraction rest = (values (digits.drop 1), 'e' :: power) →
      read? (withSign negative (digits.take 1 ++ rest)) =
        some ⟨negative, Nat.ofDigitChars 10 digits 0, leading - (digits.length - 1 : Nat)⟩ := by
    intro rest hrest hspan
    rw [read?_append negative htake hwhole hrest hspan hpower, List.take_append_drop,
      List.length_drop]
  split
  · next hlength =>
    have hdrop : digits.drop 1 = [] := List.drop_eq_nil_iff.2 hlength
    refine hread _ (spanDigits_letter power) ?_
    rw [hdrop]
    rfl
  · refine hread _ (spanDigits_point _) ?_
    have hspan := spanDigits_append hfraction ('e' :: power)
    rwa [spanDigits_letter, List.append_nil] at hspan

/-- A whole number is a literal of itself. -/
theorem read?_toString (n : Int) :
    read? (toString n).toList = some ⟨decide (n < 0), n.natAbs, 0⟩ := by
  have hdigits : ∀ c ∈ Nat.toDigits 10 n.natAbs, c.isDigit = true := fun c hc =>
    Nat.isDigit_of_mem_toDigits (by decide) (by decide) hc
  have htext : (toString n).toList = withSign (decide (n < 0)) (Nat.toDigits 10 n.natAbs) := by
    rw [Int.toString_eq_repr, Int.repr_eq_if]
    by_cases hn : 0 ≤ n
    · have habs : n.toNat = n.natAbs := by omega
      rw [if_pos hn, habs, Nat.toList_repr, decide_eq_false (Int.not_lt.2 hn)]
      rfl
    · have habs : (-n).toNat = n.natAbs := by omega
      rw [if_neg hn, habs, String.toList_append, Nat.toList_repr,
        decide_eq_true (Int.not_le.1 hn)]
      rfl
  have hread := read?_whole (decide (n < 0)) Nat.toDigits_ne_nil hdigits
  rw [htext, hread, Nat.ofDigitChars_ten_toDigits]

/-! ### Literals are words -/

/-- A digit of any script may stand in a word. -/
theorem isPlain_of_digitValue? {c : Char} {d : Nat} (h : digitValue? c = some d) :
    Reader.IsPlain c := by
  obtain ⟨start, hstart, -⟩ := Option.map_eq_some_iff.1 h
  have hmem := List.mem_of_find?_eq_some hstart
  have hrange := List.find?_some hstart
  simp only [Bool.and_eq_true, decide_eq_true_eq] at hrange
  have hblank : ∀ start ∈ digitZeros, ∀ range ∈ blankRanges,
      start + 10 ≤ range.1 ∨ range.2 < start := by decide
  have hparenthesis : ∀ start ∈ digitZeros, 41 < start := by decide
  constructor
  · rw [isBlank, List.any_eq_false]
    intro range hr
    have hapart := hblank start hmem range hr
    simp only [Bool.and_eq_true, decide_eq_true_eq]
    omega
  · have hlt := hparenthesis start hmem
    have hopening : c ≠ '(' := by rintro rfl; exact absurd hrange (by simp; omega)
    have hclosing : c ≠ ')' := by rintro rfl; exact absurd hrange (by simp; omega)
    simp [Reader.isParenthesis, hopening, hclosing]

/-- The characters of a text may stand in a word, if those do that are left once some
are taken off the front. -/
def TakesPlain (cs rest : List Char) : Prop :=
  (∀ c ∈ rest, Reader.IsPlain c) → ∀ c ∈ cs, Reader.IsPlain c

theorem takesPlain_cons {c : Char} {cs rest : List Char} (hc : Reader.IsPlain c)
    (h : TakesPlain cs rest) : TakesPlain (c :: cs) rest :=
  fun hrest => List.forall_mem_cons.2 ⟨hc, h hrest⟩

theorem takesPlain_spanDigits (cs : List Char) : TakesPlain cs (spanDigits cs).2 := by
  induction cs with
  | nil => exact id
  | cons c cs ih =>
    rw [spanDigits]
    split
    · next d hd => exact takesPlain_cons (isPlain_of_digitValue? hd) ih
    · exact id

theorem takesPlain_spanSign (cs : List Char) : TakesPlain cs (spanSign cs).2 := by
  rw [spanSign.eq_def]
  split
  · exact takesPlain_cons (by decide) id
  · exact takesPlain_cons (by decide) id
  · exact id

theorem takesPlain_spanFraction (cs : List Char) : TakesPlain cs (spanFraction cs).2 := by
  rw [spanFraction.eq_def]
  split
  · exact takesPlain_cons (by decide) (takesPlain_spanDigits _)
  · exact id

/-- A power of ten has nothing else in it. -/
theorem isPlain_of_exponent? {cs : List Char} {power : Int} (h : exponent? cs = some power) :
    ∀ c ∈ cs, Reader.IsPlain c := by
  cases cs with
  | nil => exact List.forall_mem_nil _
  | cons c cs =>
    rw [exponent?] at h
    split at h
    · next hletter =>
      have hplain : Reader.IsPlain c := by rcases hletter with rfl | rfl <;> decide
      have hend : (spanDigits (spanSign cs).2).2 = [] := by
        dsimp only at h
        split at h
        · next hspan => rw [hspan]
        · cases h
      have hdigits := takesPlain_spanDigits (spanSign cs).2
      rw [hend] at hdigits
      exact takesPlain_cons hplain (takesPlain_spanSign cs) (hdigits (List.forall_mem_nil _))
    · cases h

/-- **Number literals are words.** -/
theorem isWord_of_read? {cs : List Char} {d : Decimal} (h : read? cs = some d) :
    Reader.IsWord cs := by
  constructor
  · rintro rfl
    cases h
  · dsimp only [read?] at h
    split at h
    · cases h
    · obtain ⟨power, hpower, -⟩ := Option.map_eq_some_iff.1 h
      have hpower := isPlain_of_exponent? hpower
      exact takesPlain_spanSign cs
        (takesPlain_spanDigits _ (takesPlain_spanFraction _ hpower))

end Literal

/-! ### What a layout writes -/

namespace Double

open Literal

theorem isDigit_toDigits {n : Nat} : ∀ c ∈ Nat.toDigits 10 n, c.isDigit = true :=
  fun _ hc => Nat.isDigit_of_mem_toDigits (by decide) (by decide) hc

theorem isDigit_replicate (n : Nat) : ∀ c ∈ List.replicate n '0', c.isDigit = true := by
  intro c hc
  rw [List.eq_of_mem_replicate hc]
  decide

/-- The text, with its sign, is a literal of a decimal of that sign and of the magnitude
`c · 10 ^ e`. -/
def Denotes (negative : Bool) (c : Nat) (e : Int) (cs : List Char) : Prop :=
  ∃ d, read? (withSign negative cs) = some d ∧ d.negative = negative ∧
    Decimal.SameMagnitude d ⟨negative, c, e⟩

theorem denotes_of_read? {negative : Bool} {c : Nat} {e : Int} {cs : List Char}
    (h : read? (withSign negative cs) = some ⟨negative, c, e⟩) : Denotes negative c e cs :=
  ⟨_, h, rfl, rfl⟩

section

variable (negative : Bool) {digits : List Char} {e : Int}
  (hne : digits ≠ []) (hdigits : ∀ c ∈ digits, c.isDigit = true)

include hdigits

/-- The point stands before the digits, with zeros in between. -/
theorem denotes_zeros_append {n : Nat} (he : e = -((n : Int) + digits.length)) :
    Denotes negative (Nat.ofDigitChars 10 digits 0) e
      ('0' :: '.' :: List.replicate n '0' ++ digits) := by
  have hread := read?_point negative (List.cons_ne_nil '0' [])
    (List.forall_mem_singleton.2 (by decide))
    (List.forall_mem_append.2 ⟨isDigit_replicate n, hdigits⟩)
  refine denotes_of_read? (hread.trans ?_)
  have hvalue : Nat.ofDigitChars 10 (['0'] ++ (List.replicate n '0' ++ digits)) 0 =
      Nat.ofDigitChars 10 digits 0 := by
    rw [List.singleton_append, Nat.ofDigitChars_cons, Nat.ofDigitChars_append,
      Nat.ofDigitChars_replicate_zero]
    simp
  have hlength : -((List.replicate n '0' ++ digits).length : Int) = e := by
    rw [List.length_append, List.length_replicate]
    omega
  rw [hvalue, hlength]

include hne

/-- The point stands behind the digits, with zeros in between. -/
theorem denotes_append_zeros {n : Nat} (he : e = n) :
    Denotes negative (Nat.ofDigitChars 10 digits 0) e
      (digits ++ List.replicate n '0' ++ ['.', '0']) := by
  subst he
  have hread := read?_point negative (List.append_ne_nil_of_left_ne_nil hne _)
    (List.forall_mem_append.2 ⟨hdigits, isDigit_replicate n⟩)
    (List.forall_mem_singleton.2 (by decide : '0'.isDigit = true))
  have hvalue : Nat.ofDigitChars 10 (digits ++ List.replicate n '0' ++ ['0']) 0 =
      Nat.ofDigitChars 10 digits 0 * 10 ^ (n + 1) := by
    rw [Nat.ofDigitChars_append, Nat.ofDigitChars_append, Nat.ofDigitChars_replicate_zero,
      Nat.ofDigitChars_cons, Nat.ofDigitChars_nil, pow_succ]
    simp
    ring
  rw [hvalue] at hread
  exact ⟨_, hread, rfl, Decimal.sameMagnitude_appendZeros negative _ n 1⟩

/-- The point stands among the digits. -/
theorem denotes_take_drop {n : Nat} (hn : 0 < n) (he : e = -(digits.length - n : Nat)) :
    Denotes negative (Nat.ofDigitChars 10 digits 0) e (digits.take n ++ '.' :: digits.drop n) := by
  have htake : digits.take n ≠ [] := by
    rw [ne_eq, List.take_eq_nil_iff, not_or]
    exact ⟨by omega, hne⟩
  have hread := @read?_point negative (digits.take n) (digits.drop n) htake
    (fun c hc => hdigits c (List.mem_of_mem_take hc))
    (fun c hc => hdigits c (List.mem_of_mem_drop hc))
  rw [List.take_append_drop, List.length_drop, ← he] at hread
  exact denotes_of_read? hread

/-- Positional form denotes the number of which it has the digits. -/
theorem denotes_positional :
    Denotes negative (Nat.ofDigitChars 10 digits 0) e (positional digits (digits.length + e)) := by
  have hpos : 0 < digits.length := List.length_pos_iff.2 hne
  rw [positional]
  split
  · exact denotes_zeros_append negative hdigits (by omega)
  split
  · exact denotes_append_zeros negative hne hdigits (by omega)
  · exact denotes_take_drop negative hne hdigits (by omega) (by omega)

/-- Scientific form denotes the number of which it has the digits. -/
theorem denotes_scientific (layout : Layout) :
    Denotes negative (Nat.ofDigitChars 10 digits 0) e
      (scientific layout digits (digits.length + e - 1)) := by
  have hpos : 0 < digits.length := List.length_pos_iff.2 hne
  generalize hleading : (digits.length : Int) + e - 1 = leading
  rw [scientific]
  generalize hn : layout.exponentWidth - (Nat.toDigits 10 leading.natAbs).length = n
  have hvalue : Nat.ofDigitChars 10
      (List.replicate n '0' ++ Nat.toDigits 10 leading.natAbs) 0 = leading.natAbs := by
    rw [Nat.ofDigitChars_append, Nat.ofDigitChars_replicate_zero, Nat.mul_zero,
      Nat.ofDigitChars_ten_toDigits]
  have hpower := exponent?_digits (List.append_ne_nil_of_right_ne_nil _ Nat.toDigits_ne_nil)
    (List.forall_mem_append.2 ⟨isDigit_replicate n, isDigit_toDigits⟩) hvalue
  have hread := read?_power negative hne hdigits hpower
  have hexponent : leading - (digits.length - 1 : Nat) = e := by omega
  rw [hexponent] at hread
  refine denotes_of_read? ?_
  simpa only [List.append_assoc, List.cons_append] using hread

end

/-- **What a layout writes denotes what it is given**, with a minus sign and without. -/
theorem denotes_write (negative : Bool) (layout : Layout) (c : Nat) (e : Int) :
    Denotes negative c e (layout.write c e) := by
  have hvalue : Nat.ofDigitChars 10 (Nat.toDigits 10 c) 0 = c := Nat.ofDigitChars_ten_toDigits
  have hpositional := @denotes_positional negative _ e Nat.toDigits_ne_nil (@isDigit_toDigits c)
  have hscientific :=
    @denotes_scientific negative _ e Nat.toDigits_ne_nil (@isDigit_toDigits c) layout
  rw [hvalue] at hpositional hscientific
  dsimp only [Layout.write]
  split
  · rwa [Int.sub_add_cancel]
  · exact hscientific

end Double
end Lisplet
