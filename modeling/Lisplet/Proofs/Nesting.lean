/-
# Only lambdas make evaluation run on

How deep evaluation is nested is bounded by how deep the expression is, as long as nothing but
operators can be applied.  A tree without lambda forms, evaluated in a frame from which neither
a lambda nor a host function can be named (`Store.Inert`), is never nested too deeply at a depth
above that of its lists (`Value.nesting`), and whatever it ends in and wherever it is broken
off, the frame stays such a frame (`evaluate_nesting`).

Both come from one walk over the evaluator: `Eval.Settles f low V x y` says that from such a
frame `x` is nested too deeply only if `low` holds, that its value has the property `V`, and that
it leaves such a frame.  It also says that `y` does the same: no host function is called, so all
hosts are the same, and a deeper limit can be compared on the host that has no functions.  A
lambda outside of the chain of the frame, or inside a list that is bound there, does no harm: it
has no name, and no operator returns it.
-/

import Lisplet.Proofs.Approximation
import Lisplet.Proofs.Simulation
import Lisplet.Proofs.Soundness

namespace Lisplet

open Eval

/-! ### Trees -/

namespace Value

mutual

/-- How deep the lists of a tree are nested. -/
def nesting : Value → Nat
  | .list items => rowNesting items + 1
  | _ => 0

/-- How deep the lists of a row of trees are nested at most. -/
def rowNesting : List Value → Nat
  | [] => 0
  | e :: rest => max (nesting e) (rowNesting rest)

end

mutual

/-- Whether a form stands anywhere in a tree: a list that its keyword heads. -/
def holds (which : Form) : Value → Bool
  | .list items => decide (items.head?.bind form? = some which) || rowHolds which items
  | _ => false

/-- Whether a form stands anywhere in a row of trees. -/
def rowHolds (which : Form) : List Value → Bool
  | [] => false
  | e :: rest => holds which e || rowHolds which rest

end

variable {e : Value} {items : List Value} {which : Form}

theorem nesting_le_rowNesting (he : e ∈ items) : e.nesting ≤ rowNesting items := by
  induction items with
  | nil => cases he
  | cons e' items ih =>
    rw [rowNesting]
    rcases List.mem_cons.1 he with rfl | he
    · exact Nat.le_max_left ..
    · exact Nat.le_trans (ih he) (Nat.le_max_right ..)

theorem rowHolds_eq_false_iff :
    rowHolds which items = false ↔ ∀ e ∈ items, e.holds which = false := by
  induction items with
  | nil => simp [rowHolds]
  | cons e items ih => simp [rowHolds, ih]

/-- A list that holds no form of a kind is not headed by its keyword, and none of its items
holds one. -/
theorem holds_list_eq_false_iff : (list items).holds which = false ↔
    items.head?.bind form? ≠ some which ∧ ∀ e ∈ items, e.holds which = false := by
  rw [holds, Bool.or_eq_false_iff, decide_eq_false_iff_not, rowHolds_eq_false_iff]

end Value

/-! ### Frames from which only operators can be applied -/

namespace Store

/-- No frame of the chain binds a lambda or a host function. -/
def Inert (s : Store) (f : FrameId) : Prop :=
  ∀ g ∈ s.chain f, ∀ x v, (s.bindings g).get? x = some v → v.isInert = true

variable {s : Store} {f g : FrameId} {x : Symbol} {v : Value}

/-- It is enough to look at the values that the frames of the chain hold. -/
theorem inert_of_values (h : ∀ g ∈ s.chain f, ∀ v ∈ (s.bindings g).values, v.isInert = true) :
    s.Inert f := by
  intro g hg x v hv
  obtain ⟨entry, hentry, rfl⟩ := Option.map_eq_some_iff.1 hv
  exact h g hg _ (List.mem_map_of_mem (List.mem_of_find?_eq_some hentry))

theorem Inert.lookup (hs : s.Inert f) (hv : s.lookup? f x = some v) : v.isInert = true := by
  obtain ⟨g, hfind, hg⟩ := Option.bind_eq_some_iff.1 hv
  exact hs g (List.mem_of_find?_eq_some hfind) x v hg

theorem Inert.define (hs : s.Inert f) (hv : v.isInert = true) : (s.define g x v).Inert f := by
  intro h hmem y w hw
  rw [chain_define] at hmem
  rw [bindings_define] at hw
  split at hw
  · rename_i heq
    obtain ⟨rfl, -⟩ := heq
    rw [Bindings.get?_insert] at hw
    split at hw
    · rw [← Option.some.inj hw]
      exact hv
    · exact hs h hmem y w hw
  · exact hs h hmem y w hw

end Store

/-! ### Computations from such a frame -/

namespace Eval

variable {α β : Type} {f : FrameId} {low low' : Prop} {V : α → Prop} {W : β → Prop}

/-- From a frame of which no lambda and no host function can be named, a computation does what
another one does.  It is nested too deeply only if `low` holds, its value has the property `V`,
and however it ends the frame has the same chain as before and still names neither. -/
def Settles (f : FrameId) (low : Prop) (V : α → Prop) (x y : Eval α) : Prop :=
  ∀ m, m.store.Inert f → outcome x m = outcome y m ∧
    ((outcome x m).1 = .error .tooDeep → low) ∧ (∀ a, (outcome x m).1 = .ok a → V a) ∧
    (outcome x m).2.store.chain f = m.store.chain f ∧ (outcome x m).2.store.Inert f

theorem Settles.mono {x y : Eval α} (h : Settles f low V x y) (hlow : low → low') :
    Settles f low' V x y := by
  intro m hm
  obtain ⟨hsame, hdeep, hrest⟩ := h m hm
  exact ⟨hsame, fun ho => hlow (hdeep ho), hrest⟩

theorem settles_pure {a : α} (ha : V a) : Settles f low V (pure a) (pure a) :=
  fun _ hm => ⟨rfl, nofun, fun _ h => Except.ok.inj h ▸ ha, rfl, hm⟩

theorem settles_throw {err : Error} (h : err = .tooDeep → low) :
    Settles f low V (throw err) (throw err) :=
  fun _ hm => ⟨rfl, fun ho => h (Except.error.inj ho), nofun, rfl, hm⟩

theorem Settles.bind {x y : Eval α} {k l : α → Eval β} (hx : Settles f low V x y)
    (hk : ∀ a, V a → Settles f low W (k a) (l a)) : Settles f low W (x >>= k) (y >>= l) := by
  intro m hm
  obtain ⟨hsame, hdeep, hV, hchain, hinert⟩ := hx m hm
  rw [outcome_bind, outcome_bind, ← hsame]
  generalize outcome x m = p at hdeep hV hchain hinert
  obtain ⟨err | a, m'⟩ := p
  · exact ⟨rfl, fun ho => hdeep (congrArg _ (Except.error.inj ho)), nofun, hchain, hinert⟩
  · obtain ⟨hsame', hdeep', hW, hchain', hinert'⟩ := hk a (hV a rfl) m' hinert
    exact ⟨hsame', hdeep', hW, hchain'.trans hchain, hinert'⟩

theorem settles_lookup (x : Symbol) :
    Settles f low (Value.isInert · = true) (lookup f x) (lookup f x) := by
  intro m hm
  rw [outcome_lookup]
  cases hv : m.store.lookup? f x with
  | none => exact ⟨rfl, by simp, by simp, rfl, hm⟩
  | some v => exact ⟨rfl, by simp, fun _ h => Except.ok.inj h ▸ hm.lookup hv, rfl, hm⟩

end Eval

/-! ### Evaluation -/

namespace Evaluate

variable {host host' : Host} {eval eval' : Evaluator} {f : FrameId} {low : Prop}

theorem settles_operands {es : List Value}
    (h : ∀ e ∈ es, Settles f low (Value.isInert · = true) (eval e f) (eval' e f)) :
    Settles f low (fun vs => ∀ v ∈ vs, v.isInert = true) (operands eval f es)
      (operands eval' f es) := by
  induction es with
  | nil => exact settles_pure (fun _ => nofun)
  | cons e es ih =>
    obtain ⟨he, hes⟩ := List.forall_mem_cons.1 h
    exact he.bind fun v hv => (ih hes).bind fun vs hvs =>
      settles_pure (List.forall_mem_cons.2 ⟨hv, hvs⟩)

theorem settles_sequence {es : List Value}
    (h : ∀ e ∈ es, Settles f low (Value.isInert · = true) (eval e f) (eval' e f)) {last : Value}
    (hlast : last.isInert = true) :
    Settles f low (Value.isInert · = true) (sequence eval f last es)
      (sequence eval' f last es) := by
  induction es generalizing last with
  | nil => exact settles_pure hlast
  | cons e es ih =>
    obtain ⟨he, hes⟩ := List.forall_mem_cons.1 h
    exact he.bind fun v hv => ih hes hv

theorem settles_definition {parts : List Value}
    (h : ∀ e ∈ parts, Settles f low (Value.isInert · = true) (eval e f) (eval' e f)) :
    Settles f low (Value.isInert · = true) (definition eval f parts)
      (definition eval' f parts) := by
  unfold definition
  split
  · rename_i target e
    split
    · exact settles_throw (by simp)
    · rename_i x hx
      refine (h e (by simp)).bind fun v hv m hm => ?_
      obtain ⟨trace, ho⟩ := outcome_definition_assign f x v m
      rw [ho]
      exact ⟨rfl, by simp, fun _ h => Except.ok.inj h ▸ rfl, Store.chain_define .., hm.define hv⟩
  · exact settles_throw (by simp)

theorem settles_conditional {parts : List Value}
    (h : ∀ e ∈ parts, Settles f low (Value.isInert · = true) (eval e f) (eval' e f)) :
    Settles f low (Value.isInert · = true) (conditional eval f parts)
      (conditional eval' f parts) := by
  unfold conditional
  split
  · rename_i test consequent alternate
    refine (h test (by simp)).bind fun v hv => ?_
    split
    · exact h consequent (by simp)
    · exact h alternate (by simp)
  · exact settles_throw (by simp)

/-- What is neither a lambda nor a host function is an operator, or it cannot be applied. -/
theorem settles_apply {fn : Value} (hfn : fn.isInert = true) (args : List Value) :
    Settles f low (Value.isInert · = true) (apply host eval f fn args)
      (apply host' eval' f fn args) := by
  unfold apply
  split
  · cases hfn
  · rename_i op
    rcases ho : op.apply args with err | v
    · refine settles_throw fun herr => ?_
      subst herr
      rcases Operator.causeKind_of_apply ho with h | h | h <;> cases h
    · rcases Operator.apply_eq_ok ho with ⟨n, rfl⟩ | ⟨b, rfl⟩
      · exact settles_pure rfl
      · exact settles_pure rfl
  · cases hfn
  · exact settles_throw (by simp)

/-- A list that no lambda keyword heads settles if its items do. -/
theorem settles_list {items : List Value}
    (hhead : items.head?.bind Value.form? ≠ some .abstraction)
    (h : ∀ e ∈ items, Settles f low (Value.isInert · = true) (eval e f) (eval' e f)) :
    Settles f low (Value.isInert · = true) (list host eval f items)
      (list host' eval' f items) := by
  unfold list
  split
  · exact settles_throw (by simp)
  · rename_i head tail
    obtain ⟨hfirst, htail⟩ := List.forall_mem_cons.1 h
    split
    · rename_i which hwhich
      cases which with
      | sequence => exact settles_sequence htail rfl
      | definition => exact settles_definition htail
      | abstraction => exact absurd hwhich hhead
      | conditional => exact settles_conditional htail
    · exact hfirst.bind fun fn hfn => (settles_operands htail).bind fun args _ =>
        settles_apply hfn args

end Evaluate

open Evaluate Value

/-- A tree without lambda forms is nested too deeply only at depths up to that of its lists, and
it calls no function of the host. -/
theorem evaluate_settles (host host' : Host) {f : FrameId} (depth : Nat) {e : Value}
    (htree : e.isTree = true) (hforms : e.holds .abstraction = false) :
    Settles f (depth ≤ e.nesting) (Value.isInert · = true) (evaluate host depth e f)
      (evaluate host' depth e f) := by
  induction depth generalizing e with
  | zero => exact settles_throw fun _ => Nat.zero_le _
  | succ depth ih =>
    match e with
    | .number n => exact settles_pure rfl
    | .symbol x => exact settles_lookup x
    | .list items =>
      obtain ⟨hhead, hitems⟩ := holds_list_eq_false_iff.1 hforms
      refine settles_list hhead fun e he => ?_
      refine (ih (areTrees_iff.1 htree e he) (hitems e he)).mono fun hdepth => ?_
      have := nesting_le_rowNesting he
      show depth + 1 ≤ rowNesting items + 1
      omega

/-- **Only the application of a lambda makes evaluation run on.**  Let a tree hold no lambda
form, and let no frame of the chain bind a lambda or a host function.  At every depth above that
of its lists, the tree ends in a value or in an error of another class than that of being nested
too deeply, always the same, and it leaves the same machine.  At every depth, and whatever it
ends in, the chain has the same frames afterwards, and they bind no lambda and no host function
either; nor is the value one. -/
theorem evaluate_nesting (host : Host) {e : Value} (htree : e.isTree = true)
    (hforms : e.holds .abstraction = false) {f : FrameId} {m : Machine} (hs : m.store.Inert f) :
    (∀ depth, e.nesting + 1 ≤ depth →
      (∀ err, (outcome (evaluate host depth e f) m).1 = .error err → err.kind ≠ .depth) ∧
      outcome (evaluate host depth e f) m = outcome (evaluate host (e.nesting + 1) e f) m) ∧
    ∀ depth, (∀ v, (outcome (evaluate host depth e f) m).1 = .ok v → v.isInert = true) ∧
      (outcome (evaluate host depth e f) m).2.store.chain f = m.store.chain f ∧
      (outcome (evaluate host depth e f) m).2.store.Inert f := by
  have hsettles (depth : Nat) := evaluate_settles host .none (f := f) depth htree hforms m hs
  have hfinished (depth : Nat) (hdepth : e.nesting + 1 ≤ depth) :
      (outcome (evaluate host depth e f) m).1 ≠ .error .tooDeep := by
    intro ho
    have := (hsettles depth).2.1 ho
    omega
  refine ⟨fun depth hdepth => ⟨?_, ?_⟩, fun depth => (hsettles depth).2.2⟩
  · rintro err herr hkind
    obtain rfl := Error.kind_eq_depth_iff.1 hkind
    exact hfinished depth hdepth herr
  · have hfinished' := hfinished _ (Nat.le_refl _)
    rw [(hsettles _).1] at hfinished'
    rw [(hsettles depth).1, (hsettles _).1]
    have heq := Machine.indistinct_eq (· = .tooDeep)
    exact (approximates_of_le heq rfl Host.ignoresLimit_none hdepth e f).outcome_eq rfl hfinished'

/-- The tree has three levels of lists, so four levels of evaluation are enough; three are not.
The lambda in the frame that is not in the chain, and the one in the list that is bound in the
chain, do not matter. -/
theorem evaluate_nesting_conditional :
    let body : Value := .list [.symbol ⟨"f"⟩]
    let e : Value := .list [.symbol ⟨"begin"⟩,
      .list [.symbol ⟨"define"⟩, .symbol ⟨"x"⟩,
        .list [.symbol ⟨"if"⟩, .symbol ⟨"fs"⟩, .symbol ⟨"y"⟩, .symbol ⟨"z"⟩]],
      .list [.symbol ⟨"+"⟩, .symbol ⟨"x"⟩, .symbol ⟨"y"⟩]]
    let s := ((Store.empty.push ⟨⟨[(⟨"+"⟩, .operator (.arithmetic .add)),
      (⟨"fs"⟩, .list [.lambda [] body 0])]⟩, none⟩).push ⟨⟨[(⟨"y"⟩, .int 5)]⟩, some 0⟩).push
        ⟨⟨[(⟨"f"⟩, .lambda [] body 2)]⟩, none⟩
    let m : Machine := ⟨s, .kept, #[]⟩
    e.nesting = 3 ∧
      outcome (evaluate .standard Session.standardDepth e 1) m =
        outcome (evaluate .standard 4 e 1) m ∧
      (outcome (evaluate Host.standard 4 e 1) m).1 = .ok (.int 10) ∧
      (outcome (evaluate Host.standard 4 e 1) m).2.store.Inert 1 ∧
      (outcome (evaluate Host.standard 3 e 1) m).1 = .error .tooDeep := by
  intro body e s m
  have hs : m.store.Inert 1 := Store.inert_of_values (by decide)
  obtain ⟨hdepth, hkept⟩ := evaluate_nesting .standard (e := e) rfl rfl hs
  exact ⟨rfl, (hdepth Session.standardDepth (by decide)).2, rfl, (hkept 4).2.2, rfl⟩

end Lisplet
