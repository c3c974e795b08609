/-
# The grammar of the reader

An expression is an atom or a row of expressions in parentheses (`Reads`,
`ReadsAll`).  The reader takes the tokens in one pass with the lists that are open
on a stack, and this is shown to come to the same: what the grammar derives is
read (`ReadsAll.readAllIn`), and a pass that succeeds has taken what remained to be
derived (`Completes`, `completes_of_readAllIn`).

Whether a pass succeeds is a matter of counting parentheses.  The tokens are nested
in `k` lists (`Nested`) if no prefix of them closes more lists than it opens and
those `k`.  Then the pass gets to the end, where it succeeds just if no list is
open; otherwise it stops behind the closing parenthesis that exceeds first.
`expressions_accept` says all this of a cursor.
-/

import Mathlib.Data.List.Infix
import Lisplet.Reader.Cursor

namespace Lisplet
namespace Reader

mutual

/-- The tokens of an expression, and its tree. -/
inductive Reads : List String → Value → Prop where
  /-- A token that is not a parenthesis is an atom. -/
  | atom : token ≠ opening → token ≠ closing → Reads [token] (atom token)
  /-- A row of expressions in parentheses is a list. -/
  | list : ReadsAll tokens trees → Reads (opening :: tokens ++ [closing]) (.list trees)

/-- The tokens of a row of expressions, and its trees. -/
inductive ReadsAll : List String → List Value → Prop where
  /-- The empty row has no tokens. -/
  | nil : ReadsAll [] []
  /-- The first expression is followed by the others. -/
  | cons : Reads first tree → ReadsAll others trees →
    ReadsAll (first ++ others) (tree :: trees)

end

theorem opening_ne_closing : opening ≠ closing := by decide

theorem token_cases (token : String) :
    token = opening ∨ token = closing ∨ token ≠ opening ∧ token ≠ closing := by
  by_cases ho : token = opening
  · exact .inl ho
  · exact .inr ((em (token = closing)).imp_right fun hc => ⟨ho, hc⟩)

/-! ### One token -/

theorem readAllIn_opening (items : List Value) (outer : List (List Value)) (tokens : List String) :
    readAllIn items outer (opening :: tokens) = readAllIn [] (items :: outer) tokens := by
  cases outer <;> rw [readAllIn, if_pos rfl]

theorem readAllIn_closing (items up : List Value) (outer : List (List Value))
    (tokens : List String) : readAllIn items (up :: outer) (closing :: tokens) =
      readAllIn (.list items.reverse :: up) outer tokens := by
  rw [readAllIn, if_neg opening_ne_closing.symm, if_pos rfl]

theorem readAllIn_closing_nil (items : List Value) (tokens : List String) :
    readAllIn items [] (closing :: tokens) = (.error .unexpectedClose, tokens) := by
  rw [readAllIn, if_neg opening_ne_closing.symm, if_pos rfl]

theorem readAllIn_atom {token : String} (ho : token ≠ opening) (hc : token ≠ closing)
    (items : List Value) (outer : List (List Value)) (tokens : List String) :
    readAllIn items outer (token :: tokens) = readAllIn (atom token :: items) outer tokens := by
  cases outer <;> rw [readAllIn, if_neg ho, if_neg hc]

/-! ### What the grammar derives is read -/

mutual

/-- The reader takes the tokens of an expression and has one more item. -/
theorem Reads.readAllIn : Reads first tree → ∀ items outer rest,
    readAllIn items outer (first ++ rest) = readAllIn (tree :: items) outer rest
  | .atom ho hc, items, outer, rest => readAllIn_atom ho hc items outer rest
  | @Reads.list tokens trees h, items, outer, rest => by
    have hinner := h.readAllIn [] (items :: outer) (closing :: rest)
    calc Reader.readAllIn items outer (opening :: tokens ++ [closing] ++ rest)
      _ = Reader.readAllIn items outer (opening :: (tokens ++ closing :: rest)) := by simp
      _ = Reader.readAllIn trees.reverse (items :: outer) (closing :: rest) := by
        rw [readAllIn_opening, hinner, List.append_nil]
      _ = Reader.readAllIn (.list trees :: items) outer rest := by
        rw [readAllIn_closing, List.reverse_reverse]

/-- The reader takes the tokens of a row of expressions and has that many more items. -/
theorem ReadsAll.readAllIn : ReadsAll tokens trees → ∀ items outer rest,
    readAllIn items outer (tokens ++ rest) = readAllIn (trees.reverse ++ items) outer rest
  | .nil, _, _, _ => rfl
  | @ReadsAll.cons first tree others trees h hs, items, outer, rest => by
    rw [List.append_assoc, h.readAllIn, hs.readAllIn, List.reverse_cons, List.append_assoc]
    rfl

end

theorem isTree_atom (token : String) : (atom token).isTree = true := by
  unfold atom
  split <;> rfl

mutual

theorem Reads.isTree : Reads first tree → tree.isTree = true
  | .atom _ _ => isTree_atom _
  | .list h => h.areTrees

/-- What the grammar derives are trees. -/
theorem ReadsAll.areTrees : ReadsAll tokens trees → Value.areTrees trees = true
  | .nil => rfl
  | .cons h hs => by rw [Value.areTrees, h.isTree, hs.areTrees]; rfl

end

variable {items trees : List Value} {outer : List (List Value)} {tokens : List String} {k : Nat}

/-- **The reader is complete.** -/
theorem ReadsAll.readAll (h : ReadsAll tokens trees) : readAll tokens = (.ok trees, []) := by
  have hread := h.readAllIn [] [] []
  rw [List.append_nil, List.append_nil] at hread
  rw [Reader.readAll, hread, Reader.readAllIn, List.reverse_reverse]

/-- Tokens are those of one row of trees at most. -/
theorem ReadsAll.unique (h : ReadsAll tokens trees) (h' : ReadsAll tokens trees') :
    trees = trees' :=
  Except.ok.inj (congrArg Prod.fst (h.readAll.symm.trans h'.readAll))

/-! ### What is read the grammar derives -/

/-- The tokens complete the open lists to a row of trees: they hold what is missing of
the innermost list, close it, and complete the lists around it. -/
def Completes (items : List Value) (tokens : List String) (trees : List Value) :
    List (List Value) → Prop
  | [] => ∃ others, ReadsAll tokens others ∧ trees = items.reverse ++ others
  | up :: outer => ∃ inner others rest, tokens = inner ++ closing :: rest ∧
    ReadsAll inner others ∧ Completes (.list (items.reverse ++ others) :: up) rest trees outer

/-- An expression may stand before what completes the lists with its tree as an item. -/
theorem Completes.reads (h : Reads first tree) :
    Completes (tree :: items) tokens trees outer →
      Completes items (first ++ tokens) trees outer := by
  cases outer with
  | nil =>
    rintro ⟨others, hothers, rfl⟩
    exact ⟨tree :: others, .cons h hothers, by simp⟩
  | cons up outer =>
    rintro ⟨inner, others, rest, rfl, hothers, hrest⟩
    refine ⟨first ++ inner, tree :: others, rest, by simp, .cons h hothers, ?_⟩
    rwa [List.reverse_cons, List.append_assoc] at hrest

/-- A pass that succeeds has taken all tokens, and they complete the open lists. -/
theorem completes_of_readAllIn (h : readAllIn items outer tokens = (.ok trees, rest)) :
    Completes items tokens trees outer ∧ rest = [] := by
  fun_induction readAllIn items outer tokens with
  | case1 items =>
    obtain ⟨rfl, rfl⟩ := by simpa using h
    exact ⟨⟨[], .nil, by simp⟩, rfl⟩
  | case2 => simp at h
  | case3 items outer tokens ih =>
    -- the list that opens here is an expression once it is complete
    obtain ⟨⟨inner, others, rest', rfl, hothers, hrest⟩, hend⟩ := ih h
    have hlist := Completes.reads (.list hothers) hrest
    exact ⟨by simpa using hlist, hend⟩
  | case4 => simp at h
  | case5 items tokens _ up outer ih =>
    obtain ⟨hrest, hend⟩ := ih h
    exact ⟨⟨[], [], tokens, rfl, .nil, by simpa using hrest⟩, hend⟩
  | case6 items outer token tokens ho hc ih =>
    obtain ⟨hrest, hend⟩ := ih h
    exact ⟨Completes.reads (.atom ho hc) hrest, hend⟩

/-- **The reader is sound.** -/
theorem readsAll_of_readAll (h : readAll tokens = (.ok trees, rest)) : ReadsAll tokens trees := by
  obtain ⟨⟨others, hothers, rfl⟩, -⟩ := completes_of_readAllIn h
  exact hothers

/-- What the reader takes for a row of trees is what the grammar takes for it. -/
theorem readAll_eq_ok_iff : (readAll tokens).1 = .ok trees ↔ ReadsAll tokens trees :=
  ⟨fun h => readsAll_of_readAll (Prod.ext h rfl), fun h => by rw [h.readAll]⟩

/-- The reader fails with errors of reading alone. -/
theorem kind_of_readAllIn {err : Error} (h : (readAllIn items outer tokens).1 = .error err) :
    err.kind = .reading := by
  fun_induction readAllIn items outer tokens with
  | case1 => cases h
  | case2 | case4 => cases h; rfl
  | case3 _ _ _ ih | case5 _ _ _ _ _ ih | case6 _ _ _ _ _ _ ih => exact ih h

theorem kind_of_readExprIn {lists : List (List Value)} {err : Error}
    (h : (readExprIn lists tokens).1 = .error err) : err.kind = .reading := by
  fun_induction readExprIn lists tokens with
  | case1 | case3 => cases h; rfl
  | case4 | case6 => cases h
  | case2 _ _ ih | case5 _ _ _ _ _ ih | case7 _ _ _ _ _ _ ih => exact ih h

/-- An expression that is read from within lists of trees is a tree. -/
theorem isTree_of_readExprIn {lists : List (List Value)} {tree : Value}
    (hlists : ∀ items ∈ lists, ∀ v ∈ items, v.isTree = true)
    (h : (readExprIn lists tokens).1 = .ok tree) : tree.isTree = true := by
  fun_induction readExprIn lists tokens with
  | case1 | case3 => cases h
  | case2 lists tokens ih => exact ih (List.forall_mem_cons.2 ⟨nofun, hlists⟩) h
  | case4 _ items _ =>
    cases h
    exact Value.areTrees_iff.2 fun v hv => hlists items (by simp) v (List.mem_reverse.1 hv)
  | case5 _ items outer lists _ ih =>
    obtain ⟨hitems, hrest⟩ := List.forall_mem_cons.1 hlists
    obtain ⟨houter, hrest⟩ := List.forall_mem_cons.1 hrest
    have hlist : (Value.list items.reverse).isTree = true :=
      Value.areTrees_iff.2 fun v hv => hitems v (List.mem_reverse.1 hv)
    exact ih (List.forall_mem_cons.2 ⟨List.forall_mem_cons.2 ⟨hlist, houter⟩, hrest⟩) h
  | case6 =>
    cases h
    exact isTree_atom _
  | case7 token tokens _ _ items lists ih =>
    obtain ⟨hitems, hrest⟩ := List.forall_mem_cons.1 hlists
    have hatom : ∀ v ∈ atom token :: items, v.isTree = true :=
      List.forall_mem_cons.2 ⟨isTree_atom token, hitems⟩
    exact ih (List.forall_mem_cons.2 ⟨hatom, hrest⟩) h

theorem isTree_of_readExpr {tree : Value} (h : (readExpr tokens).1 = .ok tree) :
    tree.isTree = true := isTree_of_readExprIn (List.forall_mem_nil _) h

/-- Rows of expressions may stand one after another. -/
theorem ReadsAll.append : ReadsAll front us → ReadsAll back vs →
    ReadsAll (front ++ back) (us ++ vs)
  | .nil, hback => hback
  | .cons first others, hback => by
    rw [List.append_assoc]
    exact .cons first (others.append hback)

/-! ### Counting parentheses -/

/-- No prefix of the tokens closes more lists than it opens and `k` besides. -/
def Nested (k : Nat) (tokens : List String) : Prop :=
  ∀ front, front <+: tokens → front.count closing ≤ k + front.count opening

theorem nested_nil (k : Nat) : Nested k [] := by
  intro front hfront
  obtain rfl := List.prefix_nil.1 hfront
  exact Nat.zero_le _

theorem nested_cons {token : String} : Nested k (token :: tokens) ↔ ∀ front, front <+: tokens →
    (token :: front).count closing ≤ k + (token :: front).count opening := by
  constructor
  · intro h front hfront
    exact h (token :: front) ((List.prefix_cons_inj token).2 hfront)
  · intro h front hfront
    rcases List.prefix_cons_iff.1 hfront with rfl | ⟨back, rfl, hback⟩
    · exact Nat.zero_le _
    · exact h back hback

@[simp] theorem count_closing_opening (tokens : List String) :
    (opening :: tokens).count closing = tokens.count closing :=
  List.count_cons_of_ne opening_ne_closing

@[simp] theorem count_opening_closing (tokens : List String) :
    (closing :: tokens).count opening = tokens.count opening :=
  List.count_cons_of_ne opening_ne_closing.symm

theorem nested_opening : Nested k (opening :: tokens) ↔ Nested (k + 1) tokens := by
  rw [nested_cons]
  refine forall₂_congr fun front _ => ?_
  rw [List.count_cons_self, count_closing_opening]
  omega

theorem nested_closing : Nested (k + 1) (closing :: tokens) ↔ Nested k tokens := by
  rw [nested_cons]
  refine forall₂_congr fun front _ => ?_
  rw [List.count_cons_self, count_opening_closing]
  omega

theorem not_nested_closing : ¬ Nested 0 (closing :: tokens) := by
  rw [nested_cons]
  intro h
  exact absurd (h [] List.nil_prefix) (by decide)

theorem nested_atom {token : String} (ho : token ≠ opening) (hc : token ≠ closing) :
    Nested k (token :: tokens) ↔ Nested k tokens := by
  rw [nested_cons]
  refine forall₂_congr fun front _ => ?_
  rw [List.count_cons_of_ne ho, List.count_cons_of_ne hc]

/-- Tokens that are not nested have a first closing parenthesis that exceeds. -/
theorem exists_excess (h : ¬ Nested k tokens) : ∃ before after,
    tokens = before ++ closing :: after ∧ Nested k before ∧
      before.count closing = k + before.count opening := by
  induction tokens generalizing k with
  | nil => exact absurd (nested_nil k) h
  | cons token tokens ih =>
    rcases token_cases token with rfl | rfl | ⟨ho, hc⟩
    · obtain ⟨before, after, rfl, hnested, hcount⟩ := ih (mt nested_opening.2 h)
      refine ⟨opening :: before, after, rfl, nested_opening.2 hnested, ?_⟩
      rw [List.count_cons_self, count_closing_opening]
      omega
    · cases k with
      | zero => exact ⟨[], tokens, rfl, nested_nil 0, rfl⟩
      | succ k =>
        obtain ⟨before, after, rfl, hnested, hcount⟩ := ih (mt nested_closing.2 h)
        refine ⟨closing :: before, after, rfl, nested_closing.2 hnested, ?_⟩
        rw [List.count_cons_self, count_opening_closing]
        omega
    · obtain ⟨before, after, rfl, hnested, hcount⟩ := ih (mt (nested_atom ho hc).2 h)
      refine ⟨token :: before, after, rfl, (nested_atom ho hc).2 hnested, ?_⟩
      rwa [List.count_cons_of_ne ho, List.count_cons_of_ne hc]

/-- A pass over nested tokens gets to the end, where it fails just if a list is open. -/
theorem readAllIn_of_nested (h : Nested outer.length tokens) :
    (tokens.count closing = outer.length + tokens.count opening →
      ∃ trees, readAllIn items outer tokens = (.ok trees, [])) ∧
    (tokens.count closing ≠ outer.length + tokens.count opening →
      readAllIn items outer tokens = (.error .unexpectedEnd, [])) := by
  fun_induction readAllIn items outer tokens with
  | case1 items => exact ⟨fun _ => ⟨_, rfl⟩, fun hne => absurd rfl hne⟩
  | case2 _ up outer => exact ⟨fun heq => by simp at heq, fun _ => rfl⟩
  | case3 items outer tokens ih =>
    have ih := ih (nested_opening.1 h)
    rw [List.count_cons_self, count_closing_opening]
    rw [List.length_cons] at ih
    exact ⟨fun heq => ih.1 (by omega), fun hne => ih.2 (by omega)⟩
  | case4 items tokens => exact absurd h not_nested_closing
  | case5 items tokens _ up outer ih =>
    have ih := ih (nested_closing.1 h)
    rw [List.count_cons_self, count_opening_closing, List.length_cons]
    exact ⟨fun heq => ih.1 (by omega), fun hne => ih.2 (by omega)⟩
  | case6 items outer token tokens ho hc ih =>
    rw [List.count_cons_of_ne ho, List.count_cons_of_ne hc]
    exact ih ((nested_atom ho hc).1 h)

/-- A pass stops behind the first closing parenthesis that exceeds. -/
theorem readAllIn_of_excess {before after : List String} (h : Nested outer.length before)
    (hcount : before.count closing = outer.length + before.count opening) :
    readAllIn items outer (before ++ closing :: after) = (.error .unexpectedClose, after) := by
  induction before generalizing items outer with
  | nil =>
    obtain rfl : outer = [] := List.length_eq_zero_iff.1 hcount.symm
    exact readAllIn_closing_nil items after
  | cons token before ih =>
    rw [List.cons_append]
    rcases token_cases token with rfl | rfl | ⟨ho, hc⟩
    · rw [List.count_cons_self, count_closing_opening] at hcount
      rw [readAllIn_opening]
      exact ih (nested_opening.1 h) (by rw [List.length_cons]; omega)
    · cases outer with
      | nil => exact absurd h not_nested_closing
      | cons up outer =>
        rw [List.count_cons_self, count_opening_closing, List.length_cons] at hcount
        rw [readAllIn_closing]
        exact ih (nested_closing.1 h) (by omega)
    · rw [List.count_cons_of_ne ho, List.count_cons_of_ne hc] at hcount
      rw [readAllIn_atom ho hc]
      exact ih ((nested_atom ho hc).1 h) hcount

/-- **Tokens are those of a row of expressions just if parentheses balance.** -/
theorem exists_readsAll_iff : (∃ trees, ReadsAll tokens trees) ↔
    Nested 0 tokens ∧ tokens.count closing = tokens.count opening := by
  constructor
  · rintro ⟨trees, h⟩
    have hread := h.readAll
    by_cases hnested : Nested 0 tokens
    · refine ⟨hnested, by_contra fun hne => ?_⟩
      have hend := (@readAllIn_of_nested [] [] tokens hnested).2 (by simpa using hne)
      cases hread.symm.trans hend
    · obtain ⟨before, after, rfl, hbefore, hcount⟩ := exists_excess hnested
      have hclose := @readAllIn_of_excess [] [] before after hbefore hcount
      cases hread.symm.trans hclose
  · rintro ⟨hnested, heq⟩
    obtain ⟨trees, h⟩ := (@readAllIn_of_nested [] [] tokens hnested).1 (by simpa using heq)
    exact ⟨trees, readsAll_of_readAll h⟩

/-! ### Cursors -/

/-- What a cursor reads, and where it is then, from what a pass reads and leaves. -/
theorem Cursor.expressions_start (tokens : List String) :
    (Cursor.start tokens).expressions =
      ((readAll tokens).1, ⟨tokens, tokens.length - (readAll tokens).2.length⟩) := by
  simp [Cursor.expressions, Cursor.start, Cursor.remaining, Cursor.leaving]

/-- **The reader accepts the grammar and nothing else.**  It reads the one row of trees
whose tokens it is given, if there is such a row, that is, if the parentheses balance.
If a prefix closes more lists than it opens, it fails behind the first such prefix;
otherwise it gets to the end, and fails there if a list is open. -/
theorem expressions_accept (tokens : List String) :
    (∀ trees, (Cursor.start tokens).expressions.1 = .ok trees ↔ ReadsAll tokens trees) ∧
    ((∃ trees, (Cursor.start tokens).expressions.1 = .ok trees) ↔
      Nested 0 tokens ∧ tokens.count closing = tokens.count opening) ∧
    (∀ trees, ReadsAll tokens trees →
      (Cursor.start tokens).expressions = (.ok trees, ⟨tokens, tokens.length⟩)) ∧
    (∀ trees trees', ReadsAll tokens trees → ReadsAll tokens trees' → trees = trees') ∧
    (¬ Nested 0 tokens → ∃ before after err, tokens = before ++ closing :: after ∧
      Nested 0 before ∧ before.count closing = before.count opening ∧
      (Cursor.start tokens).expressions = (.error err, ⟨tokens, before.length + 1⟩) ∧
      err.kind = .reading ∧ err.message = "Unexpected ')'") ∧
    (Nested 0 tokens → tokens.count closing ≠ tokens.count opening →
      ∃ err, (Cursor.start tokens).expressions = (.error err, ⟨tokens, tokens.length⟩) ∧
        err.kind = .reading ∧ err.message = "Unexpected end of input") := by
  have hread := Cursor.expressions_start tokens
  have hderived : ∀ trees, ReadsAll tokens trees →
      (Cursor.start tokens).expressions = (.ok trees, ⟨tokens, tokens.length⟩) := by
    intro trees h
    rw [hread, h.readAll]
    rfl
  have hok : ∀ trees, (Cursor.start tokens).expressions.1 = .ok trees ↔ ReadsAll tokens trees := by
    refine fun trees => ⟨fun h => ?_, fun h => by rw [hderived trees h]⟩
    rw [hread] at h
    exact readsAll_of_readAll (Prod.ext h rfl)
  refine ⟨hok, ?_, hderived, fun _ _ => ReadsAll.unique, fun hnested => ?_, fun hnested hne => ?_⟩
  · exact (exists_congr hok).trans exists_readsAll_iff
  · obtain ⟨before, after, rfl, hbefore, hcount⟩ := exists_excess hnested
    have hcount' : before.count closing = before.count opening := by simpa using hcount
    have hclose := @readAllIn_of_excess [] [] before after hbefore hcount
    have hposition : (before ++ closing :: after).length - after.length = before.length + 1 := by
      rw [List.length_append, List.length_cons]
      omega
    refine ⟨before, after, .unexpectedClose, rfl, hbefore, hcount', ?_, rfl, rfl⟩
    rw [hread, readAll, hclose, hposition]
  · have hend := (@readAllIn_of_nested [] [] tokens hnested).2 (by simpa using hne)
    refine ⟨.unexpectedEnd, ?_, rfl, rfl⟩
    rw [hread, readAll, hend]
    rfl

end Reader
end Lisplet
