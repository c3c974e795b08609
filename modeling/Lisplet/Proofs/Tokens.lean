/-
# Tokens of texts that are put together

A blank ends the word in front of it, whatever follows (`words_append_blank`), so
the tokens of texts with blanks between them are those of the texts in a row
(`tokenize_append_blanks`, `tokenize_intercalate`), and a text in parentheses has its
own tokens between two more (`tokenize_parentheses`).  A text without blanks and
parentheses in it is one token (`tokenize_word`).
-/

import Lisplet.Reader.Token

namespace Lisplet

namespace Text

theorem pieces_ne_nil (cs : List Char) : pieces cs ≠ [] := by
  cases cs with
  | nil => simp [pieces]
  | cons c cs =>
    rw [pieces]
    split
    · simp
    · split <;> simp

/-- A blank separates the pieces in front of it from those behind it. -/
theorem pieces_append_blank {b : Char} (hb : isBlank b = true) (cs ds : List Char) :
    pieces (cs ++ b :: ds) = pieces cs ++ pieces ds := by
  induction cs with
  | nil => simp [pieces, hb]
  | cons c cs ih =>
    rw [List.cons_append, pieces, pieces, ih]
    by_cases hc : isBlank c = true
    · simp [hc]
    · obtain ⟨piece, rest, hpieces⟩ := List.exists_cons_of_ne_nil (pieces_ne_nil cs)
      simp [hc, hpieces]

/-- A text without blanks is one piece. -/
theorem pieces_of_not_isBlank {cs : List Char} (h : ∀ c ∈ cs, isBlank c = false) :
    pieces cs = [cs] := by
  induction cs with
  | nil => rfl
  | cons c cs ih =>
    obtain ⟨hc, hcs⟩ := List.forall_mem_cons.1 h
    rw [pieces, ih hcs, hc]
    rfl

/-- A blank separates words. -/
theorem words_append_blank {b : Char} (hb : isBlank b = true) (cs ds : List Char) :
    words (cs ++ b :: ds) = words cs ++ words ds := by
  rw [words, pieces_append_blank hb, List.filter_append]
  rfl

theorem words_cons_blank {b : Char} (hb : isBlank b = true) (cs : List Char) :
    words (b :: cs) = words cs :=
  words_append_blank hb [] cs

/-- Blanks in front of a text are no part of its words. -/
theorem words_blanks_append {bs : List Char} (hb : ∀ b ∈ bs, isBlank b = true) (cs : List Char) :
    words (bs ++ cs) = words cs := by
  induction bs with
  | nil => rfl
  | cons b bs ih =>
    obtain ⟨hb, hbs⟩ := List.forall_mem_cons.1 hb
    rw [List.cons_append, words_cons_blank hb, ih hbs]

/-- Any number of blanks separates words, if there is one at least. -/
theorem words_append_blanks {bs : List Char} (hne : bs ≠ []) (hb : ∀ b ∈ bs, isBlank b = true)
    (cs ds : List Char) : words (cs ++ (bs ++ ds)) = words cs ++ words ds := by
  obtain ⟨b, bs, rfl⟩ := List.exists_cons_of_ne_nil hne
  obtain ⟨hb, hbs⟩ := List.forall_mem_cons.1 hb
  rw [List.cons_append, words_append_blank hb, words_blanks_append hbs]

/-- A text without blanks is one word, if it is not empty. -/
theorem words_of_not_isBlank {cs : List Char} (hne : cs ≠ []) (h : ∀ c ∈ cs, isBlank c = false) :
    words cs = [cs] := by
  rw [words, pieces_of_not_isBlank h]
  simp [hne]

end Text

namespace Reader

open Text

theorem isBlank_space : isBlank ' ' = true := by decide

/-- No parenthesis is blank. -/
theorem isParenthesis_of_isBlank {c : Char} (h : isBlank c = true) : isParenthesis c = false := by
  rw [← Bool.not_eq_true]
  intro hp
  simp only [isParenthesis, Bool.or_eq_true, beq_iff_eq] at hp
  rcases hp with rfl | rfl <;> exact absurd h (by decide)

/-- A character may stand in a word: it is neither blank nor a parenthesis. -/
def IsPlain (c : Char) : Prop := isBlank c = false ∧ isParenthesis c = false

instance (c : Char) : Decidable (IsPlain c) := inferInstanceAs (Decidable (_ ∧ _))

/-- A text is a word if it is not empty and all its characters may stand in one. -/
def IsWord (cs : List Char) : Prop := cs ≠ [] ∧ ∀ c ∈ cs, IsPlain c

instance (cs : List Char) : Decidable (IsWord cs) :=
  have : Decidable (∀ c ∈ cs, IsPlain c) := List.decidableBAll IsPlain cs
  inferInstanceAs (Decidable (_ ∧ _))

theorem spaced_append (cs ds : List Char) : spaced (cs ++ ds) = spaced cs ++ spaced ds := by
  simp only [spaced_eq_flatMap, List.flatMap_append]

/-- Nothing but parentheses is set apart. -/
theorem spaced_of_not_isParenthesis {cs : List Char} (h : ∀ c ∈ cs, isParenthesis c = false) :
    spaced cs = cs := by
  induction cs with
  | nil => rfl
  | cons c cs ih =>
    obtain ⟨hc, hcs⟩ := List.forall_mem_cons.1 h
    have hcons : spaced (c :: cs) = spaced [c] ++ spaced cs := spaced_append [c] cs
    rw [hcons, ih hcs]
    simp [spaced_eq_flatMap, hc]

/-- A word is one token. -/
theorem tokenize_word {s : String} (h : IsWord s.toList) : tokenize s = [s] := by
  obtain ⟨hne, hword⟩ := h
  rw [tokenize, spaced_of_not_isParenthesis fun c hc => (hword c hc).2,
    words_of_not_isBlank hne fun c hc => (hword c hc).1]
  simp

/-- A word is neither of the parentheses. -/
theorem ne_parenthesis_of_isWord {s : String} (h : IsWord s.toList) :
    s ≠ opening ∧ s ≠ closing := by
  constructor
  · rintro rfl
    exact absurd (h.2 '(' (by decide)).2 (by decide)
  · rintro rfl
    exact absurd (h.2 ')' (by decide)).2 (by decide)

/-- Texts with blanks between them have their tokens one after another. -/
theorem tokenize_append_blanks {w : String} (hne : w ≠ "")
    (hw : ∀ c ∈ w.toList, isBlank c = true) (s t : String) :
    tokenize (s ++ w ++ t) = tokenize s ++ tokenize t := by
  have hplain : ∀ c ∈ w.toList, isParenthesis c = false :=
    fun c hc => isParenthesis_of_isBlank (hw c hc)
  have hspaced : spaced (s ++ w ++ t).toList =
      spaced s.toList ++ (w.toList ++ spaced t.toList) := by
    rw [String.toList_append, String.toList_append, spaced_append, spaced_append,
      spaced_of_not_isParenthesis hplain, List.append_assoc]
  rw [tokenize, hspaced, words_append_blanks (by simpa using hne) hw, List.map_append]
  rfl

theorem tokenize_append_space (s t : String) :
    tokenize (s ++ " " ++ t) = tokenize s ++ tokenize t :=
  tokenize_append_blanks (by simp) (by simp [isBlank_space]) s t

/-- A text in parentheses has a token more at either end. -/
theorem tokenize_parentheses (s : String) :
    tokenize ("(" ++ s ++ ")") = opening :: tokenize s ++ [closing] := by
  have hspaced : spaced ("(" ++ s ++ ")").toList =
      ' ' :: '(' :: ' ' :: (spaced s.toList ++ ' ' :: ')' :: ' ' :: []) := by
    rw [String.toList_append, String.toList_append, spaced_append, spaced_append]
    simp [spaced_eq_flatMap, isParenthesis]
  have hopen : words ('(' :: ' ' :: (spaced s.toList ++ ' ' :: ')' :: ' ' :: [])) =
      ['('] :: words (spaced s.toList ++ ' ' :: ')' :: ' ' :: []) :=
    words_append_blank isBlank_space ['('] _
  have hclose : words (')' :: ' ' :: []) = [[')']] := words_append_blank isBlank_space [')'] []
  rw [tokenize, hspaced, words_cons_blank isBlank_space, hopen,
    words_append_blank isBlank_space, hclose]
  simp [tokenize, opening, closing]

/-- Texts with spaces between them have their tokens one after another. -/
theorem tokenize_intercalate (ts : List String) :
    tokenize (String.intercalate " " ts) = ts.flatMap tokenize := by
  induction ts with
  | nil => rfl
  | cons s ts ih =>
    cases ts with
    | nil => simp
    | cons t ts =>
      rw [String.intercalate_cons_cons, tokenize_append_space, ih]
      rfl

end Reader
end Lisplet
