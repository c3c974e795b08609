/-
# Reading one expression at a time

Tokens may be read expression by expression, each call taking its tokens off the front
and leaving the others to the next call (`readEach`).  A call that succeeds takes just
the tokens of its expression (`readExpr_eq_ok_iff`).  One that fails takes the closing
parenthesis at fault, or all there is if a list is not closed, or nothing where there is
nothing (`readExpr_eq_error`).

This comes to reading all expressions in one go: the same trees in the same order, and
then the same error if there is one, with the same tokens left
(`Cursor.DescendsAll.readEach`).  The first of these trees is what a source text is read
for when a single expression is wanted, and what stands behind it has no part in that:
`readings_agree`.
-/

import Lisplet.Session
import Lisplet.Proofs.Descent
import Lisplet.Proofs.Outcome

namespace Lisplet
namespace Reader

/-! ### The first expression -/

mutual

/-- The pass takes the tokens of an expression, and goes on in the lists around it. -/
theorem Reads.readExprIn : Reads first tree → ∀ lists rest,
    Reader.readExprIn lists (first ++ rest) = resume lists (.ok tree) rest
  | .atom ho hc, lists, rest => readExprIn_atom ho hc lists rest
  | @Reads.list tokens trees h, lists, rest => by
    have hinner := h.readExprIn [] lists (closing :: rest)
    calc Reader.readExprIn lists (opening :: tokens ++ [closing] ++ rest)
      _ = Reader.readExprIn lists (opening :: (tokens ++ closing :: rest)) := by simp
      _ = Reader.readExprIn (trees.reverse :: lists) (closing :: rest) := by
        rw [readExprIn_opening, hinner, List.append_nil]
      _ = resume lists (.ok (.list trees)) rest := by
        rw [readExprIn_closing, List.reverse_reverse]

/-- The pass takes the tokens of a row of expressions and has that many more items. -/
theorem ReadsAll.readExprIn : ReadsAll tokens trees → ∀ items lists rest,
    Reader.readExprIn (items :: lists) (tokens ++ rest) =
      Reader.readExprIn ((trees.reverse ++ items) :: lists) rest
  | .nil, _, _, _ => rfl
  | @ReadsAll.cons first tree others trees h hs, items, lists, rest => by
    rw [List.append_assoc, h.readExprIn, resume_cons_ok, hs.readExprIn, List.reverse_cons,
      List.append_assoc]
    rfl

end

theorem exists_of_map_eq_ok {f : α → β} {x : Except ε α} {b : β} (h : x.map f = .ok b) :
    ∃ a, x = .ok a ∧ f a = b := by
  cases x with
  | error e => cases h
  | ok a => exact ⟨a, rfl, Except.ok.inj h⟩

mutual

/-- A run that reads an expression takes its tokens. -/
theorem Cursor.Descends.reads : Cursor.Descends c outcome c' → ∀ tree, outcome = .ok tree →
    ∃ first, c.remaining = first ++ c'.remaining ∧ Reads first tree
  | .atEnd _, _, hok => nomatch hok
  | .unopened _, _, hok => nomatch hok
  | .atom h ho hc, tree, hok => by
    obtain rfl := Except.ok.inj hok
    exact ⟨_, (Cursor.of_advance_some h).2.1, .atom ho hc⟩
  | @Cursor.Descends.list _ items _ _ h hitems, tree, hok => by
    obtain ⟨trees, rfl, rfl⟩ := exists_of_map_eq_ok hok
    obtain ⟨tokens, hrest, htrees⟩ := hitems.readsAll trees rfl
    refine ⟨opening :: tokens ++ [closing], ?_, .list htrees⟩
    rw [(Cursor.of_advance_some h).2.1, hrest]
    simp

/-- A run that reads the items of a list takes their tokens and a closing parenthesis. -/
theorem Cursor.DescendsItems.readsAll : Cursor.DescendsItems c items c' → ∀ trees,
    items = .ok trees → ∃ tokens, c.remaining = tokens ++ closing :: c'.remaining ∧
      ReadsAll tokens trees
  | .closed h, trees, hok => by
    obtain rfl := Except.ok.inj hok
    exact ⟨[], (Cursor.of_advance_some h).2.1, .nil⟩
  | @Cursor.DescendsItems.item _ tree _ items _ _ h hitems, trees, hok => by
    obtain ⟨trees, rfl, rfl⟩ := exists_of_map_eq_ok hok
    obtain ⟨first, hfirst, htree⟩ := h.reads tree rfl
    obtain ⟨others, hothers, htrees⟩ := hitems.readsAll trees rfl
    refine ⟨first ++ others, ?_, .cons htree htrees⟩
    rw [hfirst, hothers, List.append_assoc]
  | .failing _ _, _, hok => nomatch hok

end

/-- Reading an expression is a run from the first token. -/
theorem exists_descends_of_readExpr (h : readExpr tokens = (outcome, rest)) :
    ∃ c, Cursor.Descends (.start tokens) outcome c ∧ c.remaining = rest := by
  obtain ⟨outcome', c, hrun⟩ := Cursor.exists_descends (.start tokens)
  obtain ⟨rfl, rfl⟩ := Prod.mk.inj (hrun.readExpr.symm.trans h)
  exact ⟨c, hrun, rfl⟩

/-- **The first expression is read just if its tokens stand in front**, and these are
what reading it takes. -/
theorem readExpr_eq_ok_iff {tree : Value} : readExpr tokens = (.ok tree, rest) ↔
    ∃ first, tokens = first ++ rest ∧ Reads first tree := by
  constructor
  · intro h
    obtain ⟨c, hrun, rfl⟩ := exists_descends_of_readExpr h
    exact hrun.reads tree rfl
  · rintro ⟨first, rfl, htree⟩
    have hread := htree.readExprIn [] rest
    rwa [resume_nil] at hread

/-- The tokens of an expression are read as it, and none is left. -/
theorem Reads.readExpr {tree : Value} (h : Reads tokens tree) : readExpr tokens = (.ok tree, []) :=
  readExpr_eq_ok_iff.2 ⟨tokens, (List.append_nil _).symm, h⟩

/-- Tokens are those of one tree at most. -/
theorem Reads.unique {tree tree' : Value} (h : Reads tokens tree) (h' : Reads tokens tree') :
    tree = tree' :=
  Except.ok.inj (congrArg Prod.fst (h.readExpr.symm.trans h'.readExpr))

/-- Inside of a list, reading fails at the end of the tokens alone. -/
theorem readExprIn_eq_error {items : List Value} {lists : List (List Value)} {err : Error}
    (h : readExprIn (items :: lists) tokens = (.error err, rest)) :
    err = .unexpectedEnd ∧ rest = [] := by
  induction tokens generalizing items lists with
  | nil =>
    rw [readExprIn_nil] at h
    cases h
    exact ⟨rfl, rfl⟩
  | cons token tokens ih =>
    rcases token_cases token with rfl | rfl | ⟨ho, hc⟩
    · rw [readExprIn_opening] at h
      exact ih h
    · rw [readExprIn_closing] at h
      cases lists with
      | nil => cases h
      | cons up lists => exact ih h
    · rw [readExprIn_atom ho hc] at h
      exact ih h

/-- **How reading the first expression fails**: there is no token, or the first one closes
a list, and only that one is taken; or the tokens end in a list that is open. -/
theorem readExpr_eq_error {err : Error} (h : readExpr tokens = (.error err, rest)) :
    (tokens = [] ∧ rest = [] ∧ err = .unexpectedEnd) ∨
      (tokens = closing :: rest ∧ err = .unexpectedClose) ∨
      ∃ inner, tokens = opening :: inner ∧ rest = [] ∧ err = .unexpectedEnd := by
  rw [readExpr] at h
  cases tokens with
  | nil =>
    rw [readExprIn_nil] at h
    cases h
    exact .inl ⟨rfl, rfl, rfl⟩
  | cons token tokens =>
    rcases token_cases token with rfl | rfl | ⟨ho, hc⟩
    · rw [readExprIn_opening] at h
      obtain ⟨rfl, rfl⟩ := readExprIn_eq_error h
      exact .inr (.inr ⟨tokens, rfl, rfl, rfl⟩)
    · rw [readExprIn_closing_nil] at h
      cases h
      exact .inr (.inl ⟨rfl, rfl⟩)
    · rw [readExprIn_atom ho hc, resume_nil] at h
      cases h

/-! ### One after another -/

/-- Reading takes a token, if there is one. -/
theorem length_of_readExpr {token : String} (h : readExpr (token :: tokens) = (outcome, rest)) :
    rest.length < tokens.length + 1 := by
  obtain ⟨c, hrun, rfl⟩ := exists_descends_of_readExpr h
  have hlt := hrun.lt (by simp [Cursor.peek, Cursor.start])
  have hleft := hrun.passes.left_eq
  rw [Cursor.length_remaining]
  simp only [Cursor.left, Cursor.start, List.length_cons] at hleft hlt ⊢
  omega

/-- Expressions are read one at a time from the front of the tokens, until none is left or
one cannot be read: the trees, the error that stopped it, if there was one, and the
tokens that are left. -/
def readEach : List String → List Value × Option Error × List String
  | [] => ([], none, [])
  | token :: tokens =>
    match _ : readExpr (token :: tokens) with
    | (.error err, rest) => ([], some err, rest)
    | (.ok tree, rest) =>
      let (trees, stop, left) := readEach rest
      (tree :: trees, stop, left)
termination_by tokens => tokens.length
decreasing_by exact length_of_readExpr (by assumption)

theorem readEach_nil : readEach [] = ([], none, []) := by rw [readEach]

theorem readEach_ok {tree : Value} (hne : tokens ≠ []) (h : readExpr tokens = (.ok tree, rest)) :
    readEach tokens = (tree :: (readEach rest).1, (readEach rest).2) := by
  obtain ⟨token, tokens, rfl⟩ := List.exists_cons_of_ne_nil hne
  rw [readEach]
  split
  · next hread => cases h.symm.trans hread
  · next hread =>
    cases h.symm.trans hread
    rfl

theorem readEach_error {err : Error} (hne : tokens ≠ [])
    (h : readExpr tokens = (.error err, rest)) :
    readEach tokens = ([], some err, rest) := by
  obtain ⟨token, tokens, rfl⟩ := List.exists_cons_of_ne_nil hne
  rw [readEach]
  split
  · next hread =>
    cases h.symm.trans hread
    rfl
  · next hread => cases h.symm.trans hread

/-- **Reading one expression at a time is a run for all of them.** -/
theorem Cursor.DescendsAll.readEach {c c' : Cursor} {trees : List Value} {stop : Option Error}
    (h : Cursor.DescendsAll c trees stop c') :
    Reader.readEach c.remaining = (trees, stop, c'.remaining) := by
  induction h with
  | atEnd hend => rw [Cursor.atEnd_iff.1 hend, readEach_nil]
  | cons hend h _ ih =>
    rw [readEach_ok (Cursor.remaining_ne_nil hend) h.readExpr, ih]
  | failing hend h => rw [readEach_error (Cursor.remaining_ne_nil hend) h.readExpr]

/-- What reading the first expression comes to, told from reading each: the first tree, or
else the error that stopped it, and the end where there was nothing to read. -/
def firstOf : List Value × Option Error × List String → Except Error Value
  | (tree :: _, _, _) => .ok tree
  | ([], stop, _) => .error (stop.getD .unexpectedEnd)

theorem firstOf_readEach (tokens : List String) :
    firstOf (readEach tokens) = (readExpr tokens).1 := by
  cases tokens with
  | nil => rw [readEach_nil]; rfl
  | cons token tokens =>
    rcases hread : readExpr (token :: tokens) with ⟨err | tree, rest⟩
    · rw [readEach_error (List.cons_ne_nil _ _) hread]
      rfl
    · rw [readEach_ok (List.cons_ne_nil _ _) hread]
      rfl

/-! ### Source texts -/

/-- Reading a source text for one expression is reading its tokens for one; what may stand
behind it is recorded. -/
theorem outcome_readOne (source : String) (m : Machine) : ∃ trace,
    Eval.outcome (Session.readOne source) m =
      ((readExpr (tokenize source)).1, { m with trace }) := by
  unfold Session.readOne
  rcases readExpr (tokenize source) with ⟨err | tree, rest⟩
  · exact ⟨m.trace, rfl⟩
  cases rest with
  | nil => exact ⟨m.trace, rfl⟩
  | cons token rest =>
    -- an event that shows no value can always be recorded
    obtain ⟨trace, hrecord | ⟨-, hunwritable, -⟩⟩ :=
      Eval.outcome_record (.ignored (token :: rest)) m
    · refine ⟨trace, ?_⟩
      have hbind := Eval.outcome_bind (Eval.record (.ignored (token :: rest)))
        (fun _ => (pure tree : Eval Value)) m
      rw [hrecord] at hbind
      exact hbind
    · cases hunwritable

/-- A source text that is one expression is read as it, and nothing is recorded. -/
theorem readOne_of_reads {source : String} {tree : Value} (h : Reads (tokenize source) tree) :
    Session.readOne source = pure tree := by
  rw [Session.readOne, h.readExpr]
  rfl

/-- **Reading one at a time, all at once or only the first: the same.**  Reading the first
expression succeeds just if the tokens start with those of one, and takes these; where
it fails, it takes the parenthesis at fault alone, or all tokens, or none of none.  It
leaves the tokens that remain before the cursor.  Repeating it gives the trees of the run
that reads all expressions, in their order, and its error if it was stopped, with the
same tokens left.  A source text is read for the first of these trees, and the tokens of
that one are all that matters. -/
theorem readings_agree (tokens : List String) :
    (∀ tree rest, readExpr tokens = (.ok tree, rest) ↔
      ∃ first, tokens = first ++ rest ∧ Reads first tree) ∧
    (∀ err rest, readExpr tokens = (.error err, rest) →
      (tokens = [] ∧ rest = [] ∧ err = .unexpectedEnd) ∨
        (tokens = closing :: rest ∧ err = .unexpectedClose) ∨
        ∃ inner, tokens = opening :: inner ∧ rest = [] ∧ err = .unexpectedEnd) ∧
    (∃ c, (Cursor.start tokens).expression = ((readExpr tokens).1, c) ∧
      c.remaining = (readExpr tokens).2) ∧
    (∃ trees stop c, Cursor.DescendsAll (.start tokens) trees stop c) ∧
    (∀ trees stop c, Cursor.DescendsAll (.start tokens) trees stop c →
      readEach tokens = (trees, stop, c.remaining) ∧
        (Cursor.start tokens).expressions = (stop.elim (.ok trees) .error, c)) ∧
    (∀ source m, tokenize source = tokens →
      (∃ trace, Eval.outcome (Session.readOne source) m =
        (firstOf (readEach tokens), { m with trace })) ∧
      ∀ tree, (Eval.outcome (Session.readOne source) m).1 = .ok tree →
        ∃ first, first <+: tokens ∧ Reads first tree ∧ ∀ other m', first <+: tokenize other →
          (Eval.outcome (Session.readOne other) m').1 = .ok tree) := by
  refine ⟨fun _ _ => readExpr_eq_ok_iff, fun _ _ => readExpr_eq_error, ?_,
    Cursor.exists_descendsAll (.start tokens), fun _ _ _ hrun => ⟨hrun.readEach, hrun.expressions⟩,
    ?_⟩
  · obtain ⟨c, hrun, hrest⟩ := exists_descends_of_readExpr (Prod.eta (readExpr tokens)).symm
    exact ⟨c, hrun.expression, hrest⟩
  · rintro source m rfl
    obtain ⟨trace, hone⟩ := outcome_readOne source m
    refine ⟨⟨trace, by rw [hone, firstOf_readEach]⟩, fun tree htree => ?_⟩
    rw [hone] at htree
    obtain ⟨first, hsource, hfirst⟩ := readExpr_eq_ok_iff.1 (Prod.ext htree rfl)
    refine ⟨first, ⟨_, hsource.symm⟩, hfirst, ?_⟩
    rintro other m' ⟨rest, hother⟩
    obtain ⟨trace', hone'⟩ := outcome_readOne other m'
    rw [hone', readExpr_eq_ok_iff.2 ⟨first, hother.symm, hfirst⟩]

/-- A list with a parenthesis too many behind it: the list is read, and the parenthesis is
taken alone. -/
theorem readings_agree_stray :
    (∃ first, [opening, "a", closing, closing, "b"] = first ++ [closing, "b"] ∧
      Reads first (.list [atom "a"])) ∧
    readExpr [closing, "b"] = (.error .unexpectedClose, ["b"]) ∧
    readEach [opening, "a", closing, closing, "b"] =
      ([.list [atom "a"]], some .unexpectedClose, ["b"]) := by
  have hlist : readExpr [opening, "a", closing, closing, "b"] =
      (.ok (.list [atom "a"]), [closing, "b"]) := rfl
  have hstray : readExpr [closing, "b"] = (.error .unexpectedClose, ["b"]) := rfl
  obtain ⟨hok, -⟩ := readings_agree [opening, "a", closing, closing, "b"]
  refine ⟨(hok _ _).1 hlist, hstray, ?_⟩
  rw [readEach_ok (List.cons_ne_nil _ _) hlist, readEach_error (List.cons_ne_nil _ _) hstray]

end Reader
end Lisplet
