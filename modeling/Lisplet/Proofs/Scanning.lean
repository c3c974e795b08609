/-
# Tokens by one scan

Tokens are found by setting every parenthesis apart with spaces and cutting the text at
its blanks.  The same tokens come from one scan of the text from left to right
(`scan`): it drops blanks, emits every parenthesis, and of all other characters it emits
the longest runs (`words_spaced`).

From the scan it is read off what tokens are made of (`mem_scan`), that they hold all of
the text but its blanks (`flatten_scan`), and where a text may be cut: the tokens of two
texts in a row are those of the two, unless a word goes on across the seam
(`scan_append`), and then there is one token less (`length_scan_append`).
`tokenize_scans` says all this of a source text.
-/

import Mathlib.Data.List.Basic
import Lisplet.Proofs.Tokens

namespace Lisplet
namespace Reader

open Text

/-- The tokens of a text, by one scan from left to right: blanks are dropped, every
parenthesis is a token, and so is every longest run of other characters. -/
def scan : List Char → List (List Char)
  | [] => []
  | c :: cs =>
    if isBlank c then scan cs
    else if isParenthesis c then [c] :: scan cs
    else (c :: cs.takeWhile (IsPlain ·)) :: scan (cs.dropWhile (IsPlain ·))
termination_by cs => cs.length
decreasing_by
  · simp
  · simp
  · exact Nat.lt_succ_of_le (List.dropWhile_sublist _).length_le

/-- A text starts with a character that may stand in a word. -/
def StartsPlain (cs : List Char) : Prop := ∃ c, cs.head? = some c ∧ IsPlain c

/-- A text ends with a character that may stand in a word. -/
def EndsPlain (cs : List Char) : Prop := ∃ c, cs.getLast? = some c ∧ IsPlain c

variable {c : Char} {cs ds w : List Char}

theorem startsPlain_cons : StartsPlain (c :: cs) ↔ IsPlain c := by
  simp [StartsPlain]

theorem not_startsPlain_nil : ¬ StartsPlain [] := by
  simp [StartsPlain]

/-- The end of a text is the end of what it ends with. -/
theorem EndsPlain.append (h : EndsPlain cs) (front : List Char) : EndsPlain (front ++ cs) := by
  obtain ⟨c, hc, hplain⟩ := h
  exact ⟨c, by rw [List.getLast?_append, hc, Option.some_or], hplain⟩

theorem endsPlain_of_isWord (h : IsWord w) : EndsPlain w :=
  ⟨w.getLast h.1, List.getLast?_eq_getLast_of_ne_nil h.1, h.2 _ (List.getLast_mem h.1)⟩

theorem not_startsPlain_dropWhile (cs : List Char) :
    ¬ StartsPlain (cs.dropWhile (IsPlain ·)) := by
  rintro ⟨c, hc, hplain⟩
  have hnot := List.head?_dropWhile_not (IsPlain ·) cs
  rw [hc] at hnot
  exact absurd hplain (by simpa using hnot)

theorem isWord_cons_takeWhile (hc : IsPlain c) (cs : List Char) :
    IsWord (c :: cs.takeWhile (IsPlain ·)) := by
  refine ⟨List.cons_ne_nil _ _, List.forall_mem_cons.2 ⟨hc, fun d hd => ?_⟩⟩
  have htake := List.all_eq_true.1 List.all_takeWhile d hd
  exact of_decide_eq_true htake

theorem isBlank_of_isParenthesis (h : isParenthesis c = true) : isBlank c = false := by
  rw [← Bool.not_eq_true]
  intro hb
  rw [isParenthesis_of_isBlank hb] at h
  cases h

/-! ### One token -/

theorem scan_of_isBlank (h : isBlank c = true) (cs : List Char) : scan (c :: cs) = scan cs := by
  rw [scan, if_pos h]

theorem scan_of_isParenthesis (h : isParenthesis c = true) (cs : List Char) :
    scan (c :: cs) = [c] :: scan cs := by
  rw [scan, if_neg (by simp [isBlank_of_isParenthesis h]), if_pos h]

/-- A word is a token if it cannot be continued. -/
theorem scan_append_word (hw : IsWord w) (hds : ¬ StartsPlain ds) :
    scan (w ++ ds) = w :: scan ds := by
  obtain ⟨hne, hplain⟩ := hw
  obtain ⟨c, cs, rfl⟩ := List.exists_cons_of_ne_nil hne
  obtain ⟨hc, hcs⟩ := List.forall_mem_cons.1 hplain
  have hrest : ds.takeWhile (IsPlain ·) = [] ∧ ds.dropWhile (IsPlain ·) = ds := by
    cases ds with
    | nil => exact ⟨rfl, rfl⟩
    | cons d ds =>
      have hd : ¬ IsPlain d := mt startsPlain_cons.2 hds
      exact ⟨List.takeWhile_cons_of_neg (by simpa using hd),
        List.dropWhile_cons_of_neg (by simpa using hd)⟩
  have hall : ∀ d ∈ cs, decide (IsPlain d) = true := fun d hd => decide_eq_true (hcs d hd)
  rw [List.cons_append, scan, if_neg (by simp [hc.1]), if_neg (by simp [hc.2]),
    List.takeWhile_append_of_pos hall, List.dropWhile_append_of_pos hall, hrest.1, hrest.2,
    List.append_nil]

/-- Every token takes something off the front of the text; what is left is scanned next. -/
theorem scan_induction {P : List Char → Prop} (nil : P [])
    (blank : ∀ b cs, isBlank b = true → P cs → P (b :: cs))
    (parenthesis : ∀ p cs, isParenthesis p = true → P cs → P (p :: cs))
    (word : ∀ w cs, IsWord w → ¬ StartsPlain cs → P cs → P (w ++ cs)) (cs : List Char) : P cs := by
  fun_induction scan cs with
  | case1 => exact nil
  | case2 c cs hb ih => exact blank c cs hb ih
  | case3 c cs _ hp ih => exact parenthesis c cs hp ih
  | case4 c cs hb hp ih =>
    have hc : IsPlain c := ⟨Bool.eq_false_iff.2 hb, Bool.eq_false_iff.2 hp⟩
    have hword := word _ _ (isWord_cons_takeWhile hc cs) (not_startsPlain_dropWhile cs) ih
    rwa [List.cons_append, List.takeWhile_append_dropWhile] at hword

/-! ### The scan finds the tokens -/

theorem spaced_of_isParenthesis (h : isParenthesis c = true) (cs : List Char) :
    spaced (c :: cs) = ' ' :: c :: ' ' :: spaced cs := by
  simp [spaced_eq_flatMap, h]

theorem spaced_of_isBlank (h : isBlank c = true) (cs : List Char) :
    spaced (c :: cs) = c :: spaced cs := by
  simp [spaced_eq_flatMap, isParenthesis_of_isBlank h]

/-- A text that no word goes on with is empty, or with its parentheses set apart it
starts with a blank. -/
theorem spaced_of_not_startsPlain (h : ¬ StartsPlain cs) :
    cs = [] ∨ ∃ b rest, isBlank b = true ∧ spaced cs = b :: rest := by
  cases cs with
  | nil => exact .inl rfl
  | cons c cs =>
    have hc : ¬ IsPlain c := mt startsPlain_cons.2 h
    by_cases hp : isParenthesis c = true
    · exact .inr ⟨' ', _, isBlank_space, spaced_of_isParenthesis hp cs⟩
    · have hb : isBlank c = true := by
        by_contra hb
        exact hc ⟨Bool.eq_false_iff.2 hb, Bool.eq_false_iff.2 hp⟩
      exact .inr ⟨c, _, hb, spaced_of_isBlank hb cs⟩

theorem words_append_spaced (hw : IsWord w) (hds : ¬ StartsPlain ds) :
    words (w ++ spaced ds) = w :: words (spaced ds) := by
  have hword : words w = [w] := words_of_not_isBlank hw.1 fun c hc => (hw.2 c hc).1
  rcases spaced_of_not_startsPlain hds with rfl | ⟨b, rest, hb, hspaced⟩
  · have hnil : spaced [] = [] := rfl
    rw [hnil, List.append_nil, hword]
    rfl
  · rw [hspaced, words_append_blank hb, words_cons_blank hb, hword]
    rfl

/-- **The words of a text whose parentheses are set apart are found by one scan.** -/
theorem words_spaced (cs : List Char) : words (spaced cs) = scan cs := by
  induction cs using scan_induction with
  | nil => rw [scan]; rfl
  | blank b cs hb ih => rw [spaced_of_isBlank hb, words_cons_blank hb, ih, scan_of_isBlank hb]
  | parenthesis p cs hp ih =>
    have hword : words [p] = [[p]] := words_of_not_isBlank (List.cons_ne_nil _ _)
      (List.forall_mem_singleton.2 (isBlank_of_isParenthesis hp))
    have hsplit := words_append_blank isBlank_space [p] (spaced cs)
    rw [spaced_of_isParenthesis hp, words_cons_blank isBlank_space, scan_of_isParenthesis hp, ← ih]
    rwa [hword] at hsplit
  | word w cs hw hcs ih =>
    have hspaced : spaced w = w := spaced_of_not_isParenthesis fun c hc => (hw.2 c hc).2
    rw [spaced_append, hspaced, words_append_spaced hw hcs, ih, scan_append_word hw hcs]

theorem tokenize_eq_scan (source : String) :
    tokenize source = (scan source.toList).map String.ofList := by
  rw [tokenize, words_spaced]

/-! ### What tokens are made of -/

/-- A token is a parenthesis or a word. -/
theorem mem_scan (h : w ∈ scan cs) : w = ['('] ∨ w = [')'] ∨ IsWord w := by
  induction cs using scan_induction with
  | nil => rw [scan] at h; cases h
  | blank b cs hb ih => exact ih (by rwa [scan_of_isBlank hb] at h)
  | parenthesis p cs hp ih =>
    rw [scan_of_isParenthesis hp] at h
    rcases List.mem_cons.1 h with rfl | h
    · simp only [isParenthesis, Bool.or_eq_true, beq_iff_eq] at hp
      rcases hp with rfl | rfl
      · exact .inl rfl
      · exact .inr (.inl rfl)
    · exact ih h
  | word u cs hu hcs ih =>
    rw [scan_append_word hu hcs] at h
    rcases List.mem_cons.1 h with rfl | h
    · exact .inr (.inr hu)
    · exact ih h

/-- The tokens hold all of the text but its blanks. -/
theorem flatten_scan (cs : List Char) : (scan cs).flatten = cs.filter fun c => !isBlank c := by
  induction cs using scan_induction with
  | nil => rw [scan]; rfl
  | blank b cs hb ih => rw [scan_of_isBlank hb, ih, List.filter_cons_of_neg (by simp [hb])]
  | parenthesis p cs hp ih =>
    have hkeep := isBlank_of_isParenthesis hp
    rw [scan_of_isParenthesis hp, List.flatten_cons, ih, List.filter_cons_of_pos (by simp [hkeep])]
    rfl
  | word w cs hw hcs ih =>
    have hkeep : (w.filter fun c => !isBlank c) = w :=
      List.filter_eq_self.2 fun c hc => by simp [(hw.2 c hc).1]
    rw [scan_append_word hw hcs, List.flatten_cons, ih, List.filter_append, hkeep]

/-! ### Texts in a row -/

/-- The tokens of two texts in a row are those of the two, if no word goes on from the
first into the second. -/
theorem scan_append (h : ¬ (EndsPlain cs ∧ StartsPlain ds)) :
    scan (cs ++ ds) = scan cs ++ scan ds := by
  induction cs using scan_induction with
  | nil => rw [scan]; rfl
  | blank b cs hb ih =>
    have hcs := mt (And.imp_left fun hends => EndsPlain.append hends [b]) h
    rw [List.cons_append, scan_of_isBlank hb, scan_of_isBlank hb, ih hcs]
  | parenthesis p cs hp ih =>
    have hcs := mt (And.imp_left fun hends => EndsPlain.append hends [p]) h
    rw [List.cons_append, scan_of_isParenthesis hp, scan_of_isParenthesis hp, ih hcs,
      List.cons_append]
  | word w cs hw hcs ih =>
    have hrest := mt (And.imp_left fun hends => EndsPlain.append hends w) h
    -- behind the word comes the rest of the first text, or else the second one
    have hstop : ¬ StartsPlain (cs ++ ds) := by
      cases cs with
      | nil =>
        rw [List.append_nil] at h
        exact fun hds => h ⟨endsPlain_of_isWord hw, hds⟩
      | cons c cs => exact mt startsPlain_cons.1 (mt startsPlain_cons.2 hcs)
    rw [List.append_assoc, scan_append_word hw hstop, scan_append_word hw hcs, ih hrest,
      List.cons_append]

/-- A text that a word could go on with starts with a whole word. -/
theorem StartsPlain.exists_word (h : StartsPlain cs) :
    ∃ w rest, cs = w ++ rest ∧ IsWord w ∧ ¬ StartsPlain rest := by
  cases cs with
  | nil => exact absurd h not_startsPlain_nil
  | cons c cs =>
    refine ⟨_, _, ?_, isWord_cons_takeWhile (startsPlain_cons.1 h) cs, not_startsPlain_dropWhile cs⟩
    rw [List.cons_append, List.takeWhile_append_dropWhile]

theorem endsPlain_iff : EndsPlain cs ↔ StartsPlain cs.reverse := by
  rw [EndsPlain, StartsPlain, List.head?_reverse]

/-- A text that a word could go on from ends with a whole word. -/
theorem EndsPlain.exists_word (h : EndsPlain cs) :
    ∃ front w, cs = front ++ w ∧ IsWord w ∧ ¬ EndsPlain front := by
  obtain ⟨w, rest, hcs, hw, hrest⟩ := (endsPlain_iff.1 h).exists_word
  refine ⟨rest.reverse, w.reverse, ?_, ⟨by simpa using hw.1, by simpa using hw.2⟩, ?_⟩
  · rw [← List.reverse_append, ← hcs, List.reverse_reverse]
  · rwa [endsPlain_iff, List.reverse_reverse]

/-- If a word goes on from the first text into the second, there is one token less. -/
theorem length_scan_append (hcs : EndsPlain cs) (hds : StartsPlain ds) :
    (scan (cs ++ ds)).length + 1 = (scan cs).length + (scan ds).length := by
  obtain ⟨front, u, rfl, hu, hfront⟩ := hcs.exists_word
  obtain ⟨v, back, rfl, hv, hback⟩ := hds.exists_word
  have huv : IsWord (u ++ v) :=
    ⟨List.append_ne_nil_of_left_ne_nil hu.1 v, List.forall_mem_append.2 ⟨hu.2, hv.2⟩⟩
  have hwhole : scan (front ++ u ++ (v ++ back)) = scan front ++ (u ++ v) :: scan back := by
    rw [List.append_assoc, ← List.append_assoc u, scan_append fun h => hfront h.1,
      scan_append_word huv hback]
  have hfirst : scan (front ++ u) = scan front ++ [u] := by
    have hword := scan_append_word hu not_startsPlain_nil
    rw [List.append_nil, scan] at hword
    rw [scan_append fun h => hfront h.1, hword]
  rw [hwhole, hfirst, scan_append_word hv hback]
  simp only [List.length_append, List.length_cons, List.length_nil]
  omega

/-- A token has itself as its only token. -/
theorem tokenize_of_mem_tokenize {source token : String} (h : token ∈ tokenize source) :
    tokenize token = [token] := by
  rw [tokenize_eq_scan, List.mem_map] at h
  obtain ⟨w, hw, rfl⟩ := h
  rcases mem_scan hw with rfl | rfl | hw
  · rfl
  · rfl
  · exact tokenize_word (by rwa [String.toList_ofList])

/-! ### Tokens of a source text -/

/-- No token is empty or has a blank in it. -/
theorem isBlank_of_mem_tokenize {source token : String} (h : token ∈ tokenize source) :
    token ≠ "" ∧ ∀ c ∈ token.toList, isBlank c = false := by
  rw [tokenize_eq_scan, List.mem_map] at h
  obtain ⟨w, hw, rfl⟩ := h
  have hword : w ≠ [] ∧ ∀ c ∈ w, isBlank c = false := by
    rcases mem_scan hw with rfl | rfl | hw
    · exact ⟨List.cons_ne_nil _ _, List.forall_mem_singleton.2 rfl⟩
    · exact ⟨List.cons_ne_nil _ _, List.forall_mem_singleton.2 rfl⟩
    · exact ⟨hw.1, fun c hc => (hw.2 c hc).1⟩
  simpa using hword

/-- The tokens together are the text without its blanks. -/
theorem join_tokenize (source : String) :
    String.join (tokenize source) = String.ofList (source.toList.filter fun c => !isBlank c) := by
  rw [← String.toList_inj, String.toList_join, tokenize_eq_scan, List.flatMap_map,
    String.toList_ofList, ← flatten_scan]
  simp [List.flatMap]

/-- The tokens with spaces between them have the same tokens. -/
theorem tokenize_intercalate_tokenize (source : String) :
    tokenize (String.intercalate " " (tokenize source)) = tokenize source := by
  have hself := List.flatMap_congr fun token (h : token ∈ tokenize source) =>
    tokenize_of_mem_tokenize h
  rw [tokenize_intercalate, hself, List.flatMap_singleton']

/-- Two texts in a row have the tokens of the two just if no word goes on across the
seam. -/
theorem tokenize_append_iff (source other : String) :
    tokenize (source ++ other) = tokenize source ++ tokenize other ↔
      ¬ (EndsPlain source.toList ∧ StartsPlain other.toList) := by
  rw [tokenize_eq_scan, tokenize_eq_scan, tokenize_eq_scan, String.toList_append,
    ← List.map_append]
  constructor
  · rintro h ⟨hends, hstarts⟩
    have hlength := congrArg List.length h
    have hless := length_scan_append hends hstarts
    rw [List.length_map, List.length_map, List.length_append] at hlength
    omega
  · intro h
    rw [scan_append h]

/-- **Tokens are what one scan finds, as long as they can be.**  So none is empty or has a
blank in it, together they are the text without its blanks, putting spaces between them
gives a text with the same tokens, and a text may be cut anywhere but in a word: just
there the two parts have other tokens than the whole. -/
theorem tokenize_scans (source : String) :
    tokenize source = (scan source.toList).map String.ofList ∧
    (∀ token ∈ tokenize source, token ≠ "" ∧ ∀ c ∈ token.toList, isBlank c = false) ∧
    String.join (tokenize source) = String.ofList (source.toList.filter fun c => !isBlank c) ∧
    tokenize (String.intercalate " " (tokenize source)) = tokenize source ∧
    ∀ other, tokenize (source ++ other) = tokenize source ++ tokenize other ↔
      ¬ (EndsPlain source.toList ∧ StartsPlain other.toList) :=
  ⟨tokenize_eq_scan source, fun _ => isBlank_of_mem_tokenize, join_tokenize source,
    tokenize_intercalate_tokenize source, tokenize_append_iff source⟩

/-- A word between a parenthesis and a blank of another kind, cut in two. -/
theorem tokenize_scans_cut :
    "ab" ∈ tokenize "(ab\u2003" ∧ (∀ c ∈ "ab".toList, isBlank c = false) ∧
      tokenize ("(a" ++ "b\u2003") ≠ tokenize "(a" ++ tokenize "b\u2003" := by
  have hmem : "ab" ∈ tokenize "(ab\u2003" := by decide +kernel
  refine ⟨hmem, ((tokenize_scans "(ab\u2003").2.1 "ab" hmem).2, ?_⟩
  rw [ne_eq, (tokenize_scans "(a").2.2.2.2 "b\u2003", not_not]
  exact ⟨⟨'a', by decide, by decide⟩, ⟨'b', by decide, by decide⟩⟩

end Reader
end Lisplet
