/-
# Lambdas that are written and read back

The source of a lambda is that of the form that makes it (`source_lambda`).  If the form comes
from a source text (`Value.IsRead`), it is legible, so its source can be read, and evaluating
what is read makes a lambda again: with the same parameters and an equal body, in whatever
frame it is evaluated (`lambda_reads_back`).

The two bodies are equal, but they need not be the same: a negative zero is written without its
sign, and though the two zeros are equal, dividing by them tells them apart.  A tree of finite
doubles without a negative zero is read back as it is (`Legible.reads_self`), and then the
lambda that is made in the frame of the first one is that one.
-/

import Lisplet.Proofs.ClosedWorld
import Lisplet.Proofs.Nearest
import Lisplet.Proofs.Piecewise
import Lisplet.Proofs.Renaming
import Lisplet.Proofs.RoundTrip
import Lisplet.Proofs.Scanning

namespace Lisplet

open Eval Reader

/-! ### What is read is legible -/

namespace Value

/-- An expression that stands in what is read from a source text. -/
def IsRead (e : Value) : Prop :=
  ∃ source tree rest, readExpr (tokenize source) = (.ok tree, rest) ∧ e.StandsIn tree

end Value

/-- No literal denotes a nan. -/
theorem Double.ofDecimal_ne_nan (d : Decimal) : ofDecimal d ≠ .nan := by
  intro hnan
  have hrounded := isRounded_ofDecimal d
  rw [hnan] at hrounded
  exact hrounded

namespace Reader

/-- A word is read as a legible atom. -/
theorem legible_atom {token : String} (h : IsWord token.toList) : (atom token).Legible := by
  unfold atom
  split
  · rename_i d _
    exact .number fun hnan => Double.ofDecimal_ne_nan d (Number.float.inj hnan)
  · exact .symbol h ‹_›

mutual

/-- Trees of words are legible. -/
theorem Reads.legible : Reads first tree →
    (∀ token ∈ first, token ≠ opening → token ≠ closing → IsWord token.toList) → tree.Legible
  | .atom ho hc, h => legible_atom (h _ (List.mem_singleton_self _) ho hc)
  | .list hs, h => .list (hs.legible fun token htoken => h token (by simp [htoken]))

theorem ReadsAll.legible : ReadsAll tokens trees →
    (∀ token ∈ tokens, token ≠ opening → token ≠ closing → IsWord token.toList) →
    ∀ tree ∈ trees, tree.Legible
  | .nil, _ => List.forall_mem_nil _
  | .cons hfirst hothers, h => by
    rw [List.forall_mem_append] at h
    exact List.forall_mem_cons.2 ⟨hfirst.legible h.1, hothers.legible h.2⟩

end

/-- The tokens of a text are parentheses and words. -/
theorem isWord_of_mem_tokenize {source token : String} (h : token ∈ tokenize source)
    (ho : token ≠ opening) (hc : token ≠ closing) : IsWord token.toList := by
  rw [tokenize_eq_scan, List.mem_map] at h
  obtain ⟨w, hw, rfl⟩ := h
  rcases mem_scan hw with rfl | rfl | hw
  · exact absurd rfl ho
  · exact absurd rfl hc
  · rwa [String.toList_ofList]

end Reader

namespace Value

variable {e tree v : Value} {items : List Value}

theorem legible_list_iff : (list items).Legible ↔ ∀ v ∈ items, v.Legible := by
  constructor
  · rintro ⟨⟩
    assumption
  · exact .list

/-- What stands in a tree has the properties that lists pass on to their items. -/
theorem StandsIn.of_tree {P : Value → Prop} (hP : ∀ items, P (.list items) → ∀ v ∈ items, P v)
    (h : e.StandsIn tree) (htree : P tree) : P e := by
  induction h with
  | self => exact htree
  | item hmem _ ih => exact ih (hP _ htree _ hmem)

theorem IsRead.legible (h : e.IsRead) : e.Legible := by
  obtain ⟨source, tree, rest, hread, he⟩ := h
  obtain ⟨first, htokens, hreads⟩ := readExpr_eq_ok_iff.1 hread
  refine he.of_tree (fun _ => legible_list_iff.1) (hreads.legible fun token htoken => ?_)
  exact isWord_of_mem_tokenize (htokens ▸ List.mem_append_left rest htoken)

theorem IsRead.isTree (h : e.IsRead) : e.isTree = true := by
  obtain ⟨source, tree, rest, hread, he⟩ := h
  exact he.of_tree (P := (Value.isTree · = true)) (fun _ => areTrees_iff.1)
    (isTree_of_readExpr (congrArg Prod.fst hread))

mutual

/-- The numbers in a tree are doubles. -/
theorem exists_float_of_isTree : ∀ {e : Value}, e.isTree = true →
    ∀ n ∈ e.numbers, ∃ x, n = .float x
  | .number (.float x), _ => List.forall_mem_singleton.2 ⟨x, rfl⟩
  | .symbol _, _ => List.forall_mem_nil _
  | .list _, h => exists_float_of_areTrees h

theorem exists_float_of_areTrees : ∀ {es : List Value}, areTrees es = true →
    ∀ n ∈ rowNumbers es, ∃ x, n = .float x
  | [], _ => List.forall_mem_nil _
  | e :: es, h => by
    obtain ⟨he, hes⟩ := List.forall_mem_cons.1 (areTrees_iff.1 h)
    rw [rowNumbers]
    exact List.forall_mem_append.2
      ⟨exists_float_of_isTree he, exists_float_of_areTrees (areTrees_iff.2 hes)⟩

end

end Value

/-! ### Trees that are read back as they are -/

namespace Reader

/-- A finite double that is not the negative zero is read back as it is. -/
theorem atom_source_of_ne_zero {x : Double} (hfinite : x.isFinite = true)
    (hzero : x ≠ .zero true) : atom (Number.float x).source = .float x := by
  rcases x with _ | s | ⟨s, q, h⟩
  · cases hfinite
  · cases hfinite
  · rcases Nat.eq_zero_or_pos q with rfl | hq
    · cases s with
      | true => exact absurd rfl hzero
      | false =>
        calc atom (Number.float (.finite false 0 h)).source
          _ = .float (Double.ofDecimal ⟨false, 0, 0⟩) := atom_source_int 0
          _ = .float (.zero false) := congrArg Value.float (by decide +kernel)
    · obtain ⟨s', hsigned, hatom⟩ := atom_source_finite s h
      obtain rfl : s' = s := by
        cases s <;> cases s' <;> simp [Double.signed] at hsigned ⊢ <;> omega
      exact hatom

end Reader

namespace Value

variable {v : Value}

/-- Trees that are read back one by one are read back in a row. -/
theorem readsAll_flatMap {vs : List Value} (h : ∀ v ∈ vs, Reads (tokenize v.source) v) :
    ReadsAll (vs.flatMap fun v => tokenize v.source) vs := by
  induction vs with
  | nil => exact .nil
  | cons v vs ih =>
    obtain ⟨hv, hvs⟩ := List.forall_mem_cons.1 h
    exact .cons hv (ih hvs)

/-- A legible tree of finite doubles without a negative zero is read back as it is. -/
theorem Legible.reads_self (h : v.Legible)
    (hfinite : ∀ n ∈ v.numbers, ∃ x : Double, x.isFinite = true ∧ n = .float x)
    (hzero : ∀ n ∈ v.numbers, n ≠ .float (.zero true)) : Reads (tokenize v.source) v := by
  induction h with
  | @number n hnan =>
    obtain ⟨x, hx, rfl⟩ := hfinite n (List.mem_singleton_self n)
    have hread := (ReadsBack.number hnan).reads
    have hne : x ≠ .zero true := fun h =>
      hzero _ (List.mem_singleton_self _) (congrArg Number.float h)
    rwa [atom_source_of_ne_zero hx hne] at hread
  | symbol hword hread => exact (ReadsBack.symbol hword hread).reads
  | @list items _ ih =>
    have hitems : ∀ v ∈ items, Reads (tokenize v.source) v := fun v hv =>
      ih v hv (forall_mem_rowNumbers.1 hfinite v hv)
        (forall_mem_rowNumbers.1 hzero v hv)
    rw [source_list, tokenize_parentheses, tokenize_intercalate, List.flatMap_map]
    exact .list (readsAll_flatMap hitems)

end Value

/-! ### Lambda forms -/

open Value

variable {host : Host} {formals : List Symbol} {body : Value}

/-- A lambda has the source of the form that makes it. -/
theorem source_lambda (formals : List Symbol) (body : Value) (captured : FrameId) :
    (Value.lambda formals body captured).source = (lambdaForm formals body).source := by
  have hsymbols : (formals.map Value.symbol).map Value.source = formals.map Symbol.name := by
    rw [List.map_map]
    rfl
  have hsource : (Value.lambda formals body captured).source =
      "(lambda (" ++ String.intercalate " " (formals.map Symbol.name) ++ ") " ++ body.source ++
        ")" := rfl
  rw [hsource, lambdaForm, source_list, List.map_cons, List.map_cons, List.map_singleton,
    source_list, hsymbols]
  apply String.toList_inj.1
  simp [Form.keyword, Value.source, Value.render]

/-- Evaluating a lambda form makes a lambda in the frame, and does nothing else. -/
theorem evaluate_lambdaForm (depth : Nat) (formals : List Symbol) (body : Value) (f : FrameId) :
    evaluate host (depth + 1) (lambdaForm formals body) f = pure (.lambda formals body f) := by
  rw [lambdaForm, evaluate_keyword, Evaluate.form, Evaluate.abstraction,
    Evaluate.parameters_symbols]
  rfl

/-- A list that the lambda keyword heads and that has a lambda as its value is the form of that
lambda. -/
theorem lambdaForm_of_evaluate {depth : Nat} {parts : List Value} {f captured : FrameId}
    {m m' : Machine}
    (h : outcome (evaluate host depth (.list (.symbol Form.abstraction.keyword :: parts)) f) m =
      (.ok (.lambda formals body captured), m')) :
    Value.list (.symbol Form.abstraction.keyword :: parts) = lambdaForm formals body := by
  cases depth with
  | zero => cases h
  | succ depth =>
    rw [evaluate_keyword, Evaluate.form] at h
    by_cases hl : parts.length = 2
    · obtain ⟨params, e, rfl⟩ := List.length_eq_two.1 hl
      rw [Evaluate.abstraction, outcome_bind, outcome_ofExcept] at h
      rcases hparams : Evaluate.parameters params with err | symbols
      · rw [hparams] at h
        cases h
      · rw [hparams] at h
        obtain rfl := Evaluate.parameters_eq_ok_iff.1 hparams
        cases h
        rfl
    · rw [Evaluate.abstraction_of_length_ne hl] at h
      cases h

/-- Parameters are read back as they are. -/
theorem readsBackAll_symbols (h : ∀ x ∈ formals, (Value.symbol x).Legible) :
    ReadsBackAll (formals.map .symbol) (formals.map .symbol) := by
  induction formals with
  | nil => exact .nil
  | cons x formals ih =>
    obtain ⟨hx, hformals⟩ := List.forall_mem_cons.1 h
    cases hx with
    | symbol hword hread => exact .cons (.symbol hword hread) (ih hformals)

/-- A legible lambda form is read back as one with the same parameters. -/
theorem exists_readsBack_lambdaForm (h : (lambdaForm formals body).Legible) :
    ∃ body', ReadsBack body body' ∧
      Reads (tokenize (lambdaForm formals body).source) (lambdaForm formals body') := by
  obtain ⟨hkeyword, hparts⟩ := List.forall_mem_cons.1 (legible_list_iff.1 h)
  obtain ⟨hparams, hbody⟩ := List.forall_mem_cons.1 hparts
  obtain ⟨body', hback⟩ := (List.forall_mem_singleton.1 hbody).exists_readsBack
  rw [legible_list_iff, List.forall_mem_map] at hparams
  have hformals := (readsBackAll_symbols hparams).list
  cases hkeyword with
  | symbol hword hread =>
    exact ⟨body', hback, (ReadsBackAll.cons (.symbol hword hread)
      (.cons hformals (.cons hback .nil))).list.reads⟩

/-- **The source of a lambda recreates it.**  Let a lambda form that stands in what is read from
a source text have a lambda as its value, with no number in its body but finite ones.  Then the
source of the lambda is read as one expression, and evaluating that in any frame makes a lambda
in this frame, and does nothing else: it has the same parameters, in the same order, and an
equal body.  If no number in the body is the negative zero, then, the frame being that of the
first lambda, applying the one is applying the other: to any arguments, from any frame and on
any machine the outcome is the same, and so is the machine that is left. -/
theorem lambda_reads_back {parts : List Value} {depth : Nat} {f captured : FrameId}
    {m m' : Machine} (hread : (Value.list (.symbol Form.abstraction.keyword :: parts)).IsRead)
    (ho : outcome (evaluate host depth (.list (.symbol Form.abstraction.keyword :: parts)) f) m =
      (.ok (.lambda formals body captured), m'))
    (hfinite : ∀ x, .float x ∈ body.numbers → x.isFinite = true) :
    ∃ body', body'.equal body = true ∧
      (∀ depth g n, outcome (Session.readOne (Value.lambda formals body captured).source >>=
        fun e => evaluate host (depth + 1) e g) n = (.ok (.lambda formals body' g), n)) ∧
      (.float (.zero true) ∉ body.numbers → ∀ depth g args n,
        let apply (body : Value) : Eval Value :=
          Evaluate.apply host (evaluate host depth) g (.lambda formals body captured) args
        outcome (apply body') n = outcome (apply body) n) := by
  have hform := lambdaForm_of_evaluate ho
  rw [hform] at hread
  obtain ⟨body', hback, hreads⟩ := exists_readsBack_lambdaForm hread.legible
  have htree : body.isTree = true := areTrees_iff.1 hread.isTree body (by simp)
  have hdoubles : ∀ n ∈ body.numbers, ∃ x : Double, x.isFinite = true ∧ n = .float x := by
    intro n hn
    obtain ⟨x, rfl⟩ := exists_float_of_isTree htree n hn
    exact ⟨x, hfinite x hn, rfl⟩
  refine ⟨body', hback.equal_iff.2 fun n hn => ?_, fun depth g n => ?_, fun hzero => ?_⟩
  · obtain ⟨x, hx, rfl⟩ := hdoubles n hn
    exact ⟨x, hx, rfl⟩
  · rw [source_lambda, readOne_of_reads hreads, pure_bind, evaluate_lambdaForm]
    rfl
  · have hbody : body.Legible := legible_list_iff.1 hread.legible body (by simp)
    have hself := hbody.reads_self hdoubles fun n hn h => hzero (h ▸ hn)
    obtain rfl := hback.reads.unique hself
    exact fun _ _ _ _ => rfl

/-- The lambda that halves its argument, made by a form of a text: its source makes it again in
another frame, and in its own frame it does the same. -/
theorem lambda_reads_back_half :
    let two : Double := .ofDecimal ⟨false, 2, 0⟩
    let body : Value := .list [.symbol ⟨"/"⟩, .symbol ⟨"x"⟩, .float two]
    let fn (body : Value) (captured : FrameId) : Value := .lambda [⟨"x"⟩] body captured
    let m := Session.fresh .kept
    readExpr (tokenize "(lambda (x) (/ x 2))") = (.ok (lambdaForm [⟨"x"⟩] body), []) ∧
      outcome (evaluate Host.standard 1 (lambdaForm [⟨"x"⟩] body) 0) m = (.ok (fn body 0), m) ∧
      ∃ body', body'.equal body = true ∧
        outcome (Session.readOne (fn body 0).source >>= fun e => evaluate Host.standard 1 e 7) m =
          (.ok (fn body' 7), m) ∧
        outcome (Evaluate.apply .standard (evaluate .standard 2) 0 (fn body' 0) [.int 5]) m =
          outcome (Evaluate.apply .standard (evaluate .standard 2) 0 (fn body 0) [.int 5]) m := by
  intro two body fn m
  have hread : readExpr (tokenize "(lambda (x) (/ x 2))") =
      (.ok (lambdaForm [⟨"x"⟩] body), []) := rfl
  have hform : outcome (evaluate .standard 1 (lambdaForm [⟨"x"⟩] body) 0) m =
      (.ok (fn body 0), m) := by
    rw [evaluate_lambdaForm]
    rfl
  have hnumbers : body.numbers = [.float two] := rfl
  have hfinite : ∀ x, .float x ∈ body.numbers → x.isFinite = true := by
    intro x hx
    rw [hnumbers, List.mem_singleton] at hx
    rw [Number.float.inj hx]
    decide +kernel
  have hzero : .float (.zero true) ∉ body.numbers := by
    rw [hnumbers, List.mem_singleton]
    decide +kernel
  obtain ⟨body', hequal, hmakes, happlies⟩ :=
    lambda_reads_back ⟨_, _, _, hread, .self⟩ hform hfinite
  exact ⟨hread, hform, body', hequal, hmakes 0 7 m, happlies hzero 2 0 [.int 5] m⟩

/-- The sign of a zero is not written, but dividing by it shows the sign. -/
example :
    let one := Double.ofDecimal ⟨false, 1, 0⟩
    (Number.float (.zero true)).source = (Number.float (.zero false)).source ∧
      one.div (.zero true) = .infinite true ∧ one.div (.zero false) = .infinite false := by
  decide +kernel

end Lisplet
