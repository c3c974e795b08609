/-
# Settings over many starts

The settings outlive the sessions that set them.  Each start is given two texts, and either
of them may be missing (`Surroundings`).  It sets the level that its text names; then it
raises the limit, or is refused and leaves the limit alone.  `started_cases` says all that a
start can do.

So the two settings take different courses.  The level follows the texts that name one, even
if the start is refused for its limit (`level_started`); the limit follows the starts that are
not refused, and never falls (`limit_le_started`).  What one start does is put together for a
row of them in `startAll_settings`.
-/

import Mathlib.Algebra.Group.Int.Defs
import Mathlib.Data.List.TakeWhile
import Lisplet.Settings

namespace Lisplet
namespace Settings

/-- The texts that the surroundings provide for a start.  Either may be missing. -/
structure Surroundings where
  /-- The text that names a level. -/
  levelText : Option String
  /-- The text that gives a limit. -/
  limitText : Option String

/-- A text asks for nothing: it is missing, or all its characters are blank. -/
def IsBlank (text : Option String) : Prop :=
  ∀ t, text = some t → ∀ c ∈ t.toList, Text.isBlank c = true

/-- The level that a text names between the blanks around the name. -/
def namedLevel? (text : Option String) : Option Nat := (content? text).bind level?

/-- The whole number that a text gives between the blanks around the numeral. -/
def givenLimit? (text : Option String) : Option Int := (content? text).bind Numeral.read?

/-- What a start makes of the settings, and why it is refused, if it is. -/
def started (s : Settings) (t : Surroundings) : Settings × Option Refusal :=
  start t.levelText t.limitText s

/-- The settings with the limit that a text gives, if it is accepted. -/
def withLimitText (s : Settings) (text : Option String) : Except Refusal Settings :=
  (readLimit text).bind s.withLimit

/-- The settings after a row of starts, some of which may be refused. -/
def startAll (s : Settings) (starts : List Surroundings) : Settings :=
  starts.foldl (fun s t => (s.started t).1) s

/-! ### Texts -/

theorem trimBlank_eq_empty_iff {t : String} :
    Text.trimBlank t = "" ↔ ∀ c ∈ t.toList, Text.isBlank c = true := by
  rw [Text.trimBlank, String.ofList_eq_empty_iff, List.reverse_eq_nil_iff,
    List.dropWhile_eq_nil_iff]
  simp only [List.mem_reverse]
  constructor
  · intro h c hc
    rw [← List.takeWhile_append_dropWhile (p := Text.isBlank) (l := t.toList)] at hc
    exact (List.mem_append.1 hc).elim List.mem_takeWhile_imp (h c)
  · exact fun h c hc => h c ((List.dropWhile_sublist _).subset hc)

variable {text : Option String}

/-- A text has no content just if it asks for nothing. -/
theorem content?_eq_none_iff : content? text = none ↔ IsBlank text := by
  have htrim : content? text = none ↔ Text.trimBlank (text.getD "") = "" := by
    rw [content?]
    split
    · rename_i heq
      exact iff_of_true rfl heq
    · rename_i hne
      exact iff_of_false nofun hne
  rw [htrim, trimBlank_eq_empty_iff]
  cases text with
  | none => simp [IsBlank]
  | some t => simp [IsBlank]

/-- A text of a level is refused if it is neither blank nor the name of one. -/
theorem readLevel_cases (text : Option String) :
    (¬ (IsBlank text ∨ namedLevel? text ≠ none) ∧ ∃ r, readLevel text = .error r) ∨
      (IsBlank text ∨ namedLevel? text ≠ none) ∧ readLevel text = .ok (namedLevel? text) := by
  rw [← content?_eq_none_iff, namedLevel?, readLevel]
  cases content? text with
  | none => exact .inr ⟨.inl rfl, rfl⟩
  | some t =>
    cases hlevel : level? t with
    | none => exact .inl ⟨by simp [hlevel], _, by simp only [hlevel]; rfl⟩
    | some level => exact .inr ⟨by simp [hlevel], by simp [hlevel]⟩

/-! ### Raising the limit -/

variable {s s' : Settings}

theorem withLimitText_of_isBlank (h : IsBlank text) (s : Settings) :
    s.withLimitText text = .ok s := by
  rw [withLimitText, readLimit, content?_eq_none_iff.2 h]
  rfl

/-- A limit that fits into 31 bits is accepted, and counts if it is above the present one. -/
theorem withLimitText_of_givenLimit? {n : Int} (h : givenLimit? text = some n) (hpos : 0 < n)
    (hlt : n < 2 ^ 31) (s : Settings) :
    s.withLimitText text = .ok { s with limit := max s.limit n.toNat } := by
  obtain ⟨t, ht, hn⟩ := Option.bind_eq_some_iff.1 h
  simp only [withLimitText, readLimit, ht, hn, if_neg (Int.not_le.2 hpos), Except.bind, withLimit]
  split
  · rename_i hle
    rw [Nat.max_eq_left hle]
  · rename_i hnot
    have hbits : n.toNat < 1 <<< 31 := by omega
    rw [if_pos hbits, Nat.max_eq_right (by omega)]

/-- The limit is the only setting that a text of a limit changes, and it is not lowered. -/
theorem withLimitText_raises (h : s.withLimitText text = .ok s') :
    s'.level = s.level ∧ s.limit ≤ s'.limit := by
  rw [withLimitText] at h
  cases hread : readLimit text with
  | error r =>
    rw [hread] at h
    cases h
  | ok limit =>
    rw [hread] at h
    cases limit with
    | none =>
      cases h
      exact ⟨rfl, Nat.le_refl _⟩
    | some limit =>
      simp only [Except.bind, withLimit] at h
      split at h
      · cases h
        exact ⟨rfl, Nat.le_refl _⟩
      · split at h
        · cases h
          exact ⟨rfl, Nat.le_of_not_le ‹_›⟩
        · cases h

/-! ### Starts -/

variable {t : Surroundings}

/-- **All that a start can do.**  A text of a level that is neither blank nor the name of one
refuses it at once.  Otherwise the level is set, and the text of the limit decides. -/
theorem started_cases (s : Settings) (t : Surroundings) :
    (¬ (IsBlank t.levelText ∨ namedLevel? t.levelText ≠ none) ∧ ∃ r, s.started t = (s, some r)) ∨
      (IsBlank t.levelText ∨ namedLevel? t.levelText ≠ none) ∧
        s.started t =
          match (s.withLevel (namedLevel? t.levelText)).withLimitText t.limitText with
          | .error r => (s.withLevel (namedLevel? t.levelText), some r)
          | .ok s' => (s', none) := by
  rcases readLevel_cases t.levelText with ⟨hnot, r, hlevel⟩ | ⟨hlevelText, hlevel⟩
  · exact .inl ⟨hnot, r, by rw [started, start, hlevel]⟩
  · exact .inr ⟨hlevelText, by rw [started, start, hlevel]; rfl⟩

@[simp] theorem level_withLevel (s : Settings) (level : Option Nat) :
    (s.withLevel level).level = level.getD s.level := by
  cases level <;> rfl

@[simp] theorem limit_withLevel (s : Settings) (level : Option Nat) :
    (s.withLevel level).limit = s.limit := by
  cases level <;> rfl

/-- **The level is the one that is named**, if one is, whether the start is refused or not. -/
theorem level_started (s : Settings) (t : Surroundings) :
    (s.started t).1.level = (namedLevel? t.levelText).getD s.level := by
  rcases s.started_cases t with ⟨hnot, r, h⟩ | ⟨-, h⟩
  · rw [h, Decidable.not_not.1 fun hne => hnot (.inr hne)]
    rfl
  · rw [h, ← level_withLevel]
    split
    · rfl
    · rename_i s' hlimit
      exact (withLimitText_raises hlimit).1

/-- **The limit is never lowered.** -/
theorem limit_le_started (s : Settings) (t : Surroundings) : s.limit ≤ (s.started t).1.limit := by
  rcases s.started_cases t with ⟨-, r, h⟩ | ⟨-, h⟩
  · rw [h]
  · rw [h, ← limit_withLevel s (namedLevel? t.levelText)]
    split
    · exact Nat.le_refl _
    · rename_i s' hlimit
      exact (withLimitText_raises hlimit).2

/-- A start that is refused leaves the limit alone. -/
theorem limit_started_of_refused (h : (s.started t).2 ≠ none) :
    (s.started t).1.limit = s.limit := by
  rcases s.started_cases t with ⟨-, r, ho⟩ | ⟨-, ho⟩
  · rw [ho]
  · rw [ho] at h ⊢
    split at h
    · exact limit_withLevel ..
    · exact absurd rfl h

/-- A start with a text of a level that is blank or names one goes by the text of the limit. -/
theorem started_of_withLimitText
    (hlevel : IsBlank t.levelText ∨ namedLevel? t.levelText ≠ none)
    (hlimit : (s.withLevel (namedLevel? t.levelText)).withLimitText t.limitText = .ok s') :
    s.started t = (s', none) := by
  rcases s.started_cases t with ⟨hnot, -⟩ | ⟨-, h⟩
  · exact absurd hlevel hnot
  · rw [h, hlimit]

/-! ### Rows of starts -/

theorem startAll_append (s : Settings) (front back : List Surroundings) :
    s.startAll (front ++ back) = (s.startAll front).startAll back := List.foldl_append

theorem limit_le_startAll (s : Settings) (starts : List Surroundings) :
    s.limit ≤ (s.startAll starts).limit := by
  induction starts generalizing s with
  | nil => exact Nat.le_refl _
  | cons t starts ih => exact Nat.le_trans (s.limit_le_started t) (ih _)

/-- The level is the last one that is named. -/
theorem level_startAll (s : Settings) (starts : List Surroundings) :
    (s.startAll starts).level =
      (starts.filterMap fun t => namedLevel? t.levelText).getLastD s.level := by
  induction starts generalizing s with
  | nil => rfl
  | cons t starts ih =>
    rw [startAll, List.foldl_cons]
    refine (ih _).trans ?_
    rw [level_started, List.filterMap_cons]
    cases namedLevel? t.levelText with
    | none => rfl
    | some level => rw [List.getLastD_cons]; rfl

/-- **Settings over a row of starts.**

* The limit never falls.
* A start that is refused leaves the limit as it was.  One whose text of a level is blank or
  names one, and whose text of a limit is blank or gives a positive number below 2³¹, is not
  refused: the limit is then what it was, or the larger of what it was and that number.
* The level is the last one that was named, also if that start was refused for its limit, or
  the first level if none was named. -/
theorem startAll_settings (s : Settings) (starts : List Surroundings) :
    (∀ front back, starts = front ++ back →
      (s.startAll front).limit ≤ (s.startAll starts).limit) ∧
    (∀ front t back, starts = front ++ t :: back →
      let before := s.startAll front
      let after := s.startAll (front ++ [t])
      ∃ refusal, before.started t = (after, refusal) ∧
        (refusal ≠ none → after.limit = before.limit) ∧
        (IsBlank t.levelText ∨ namedLevel? t.levelText ≠ none →
          (IsBlank t.limitText → refusal = none ∧ after.limit = before.limit) ∧
          ∀ n, givenLimit? t.limitText = some n → 0 < n → n < 2 ^ 31 →
            refusal = none ∧ after.limit = max before.limit n.toNat)) ∧
    (s.startAll starts).level =
      (starts.filterMap fun t => namedLevel? t.levelText).getLastD s.level := by
  refine ⟨?_, ?_, s.level_startAll starts⟩
  · rintro front back rfl
    rw [startAll_append]
    exact limit_le_startAll _ back
  · rintro front t back - before after
    have hafter : after = (before.started t).1 := startAll_append s front [t]
    refine ⟨(before.started t).2, by rw [hafter], ?_, fun hlevel => ⟨fun hblank => ?_, ?_⟩⟩
    · rw [hafter]
      exact limit_started_of_refused
    · rw [hafter, started_of_withLimitText hlevel (withLimitText_of_isBlank hblank _)]
      exact ⟨rfl, limit_withLevel ..⟩
    · intro n hn hpos hlt
      rw [hafter, started_of_withLimitText hlevel (withLimitText_of_givenLimit? hn hpos hlt _)]
      exact ⟨rfl, by rw [limit_withLevel]⟩

/-- A start that names a level and is refused for its limit, one that raises the limit, and one
that names no level: the level of the first stays, and the limit of the second. -/
theorem startAll_settings_refused :
    let s : Settings := ⟨30, 1000⟩
    let first : Surroundings := ⟨some " debug\n", some "-1"⟩
    let second : Surroundings := ⟨some " ", some "+5_000"⟩
    let third : Surroundings := ⟨some "chatty", some "9000"⟩
    (s.started first).2 ≠ none ∧ givenLimit? second.limitText = some 5000 ∧
      ((s.startAll [first]).started third).2 ≠ none ∧
      (s.startAll [first]).limit = 1000 ∧ (s.startAll [first, second]).limit = 5000 ∧
      1000 ≤ (s.startAll [first, second, third]).limit ∧
      (s.startAll [first, second, third]).level = 10 := by
  intro s first second third
  have hfirst : (s.started first).2 ≠ none := by decide +kernel
  have hthird : ((s.startAll [first]).started third).2 ≠ none := by decide +kernel
  have hsecond : givenLimit? second.limitText = some 5000 := by decide +kernel
  have hblank : IsBlank second.levelText := content?_eq_none_iff.1 (by decide +kernel)
  have hlevels : [first, second, third].filterMap (fun t => namedLevel? t.levelText) = [10] := by
    decide +kernel
  obtain ⟨hnever, heach, hlevel⟩ := startAll_settings s [first, second, third]
  obtain ⟨refusal, hstart, hrefused, -⟩ := heach [] first [second, third] rfl
  obtain ⟨refusal', -, -, haccepted⟩ := heach [first] second [third] rfl
  have hrefusal : (s.started first).2 = refusal := congrArg Prod.snd hstart
  have hlimit : (s.startAll [first]).limit = 1000 := hrefused (hrefusal ▸ hfirst)
  obtain ⟨-, hraised⟩ := (haccepted (.inl hblank)).2 5000 hsecond (by decide) (by decide)
  refine ⟨hfirst, hsecond, hthird, hlimit, ?_, hnever [] _ rfl, ?_⟩
  · exact hraised.trans (by rw [hlimit]; rfl)
  · rw [hlevel, hlevels]
    rfl

end Settings
end Lisplet
