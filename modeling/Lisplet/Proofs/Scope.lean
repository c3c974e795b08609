/-
# Scope

Which symbols an expression looks up in the frame it is evaluated in can be read off
the expression (`Value.freeUses`): all that stand in it but the keywords that head
forms, the targets of definitions, parameters, and what a lambda form binds in its
body.  If all of them are visible in the frame, and those of every lambda of the store
are among its parameters or visible in the frame it was created in, no symbol without a
binding is met, whatever values turn up and whatever branches are taken
(`evaluate_scoped`).

Frames are only added and bindings only made, so what is visible stays visible
(`Store.Visible.define`, `Store.Visible.push`), also when an evaluation fails.  That
carries the condition on lambdas through an evaluation: a new lambda gets it from its
lambda form, an old one keeps it.
-/

import Lisplet.Proofs.HostFree

namespace Lisplet

/-! ### Free uses -/

namespace Value

/-- The symbols of a parameter list. -/
def parameterSymbols : Value → List Symbol
  | .list items => items.filterMap symbol?
  | _ => []

mutual

/-- The symbols that an expression uses without binding them. -/
def freeUses : Value → List Symbol
  | .symbol x => [x]
  | .list items => listUses items
  | _ => []

/-- The free uses in a list; the keyword of a form is none. -/
def listUses : List Value → List Symbol
  | [] => []
  | head :: tail =>
    match head.form? with
    | some .definition => definitionUses tail
    | some .abstraction => abstractionUses tail
    | some _ => rowUses tail
    | none => freeUses head ++ rowUses tail

/-- The free uses in the parts of a definition; its target is none. -/
def definitionUses : List Value → List Symbol
  | [] => []
  | .symbol _ :: rest => rowUses rest
  | e :: rest => freeUses e ++ rowUses rest

/-- The free uses in the parts of a lambda form: those of the body that are no
parameters. -/
def abstractionUses : List Value → List Symbol
  | [] => []
  | params :: body => (rowUses body).filter fun x => decide (x ∉ params.parameterSymbols)

/-- The free uses in a row of expressions. -/
def rowUses : List Value → List Symbol
  | [] => []
  | e :: rest => freeUses e ++ rowUses rest

end

theorem mem_rowUses {x : Symbol} {es : List Value} : x ∈ rowUses es ↔ ∃ e ∈ es, x ∈ e.freeUses := by
  induction es with
  | nil => simp [rowUses]
  | cons e es ih => simp [rowUses, ih]

theorem freeUses_sequence (parts : List Value) :
    freeUses (.list (.symbol Form.sequence.keyword :: parts)) = rowUses parts := by
  simp [freeUses, listUses]

theorem freeUses_conditional (parts : List Value) :
    freeUses (.list (.symbol Form.conditional.keyword :: parts)) = rowUses parts := by
  simp [freeUses, listUses]

theorem freeUses_definition (x : Symbol) (e : Value) :
    freeUses (.list [.symbol Form.definition.keyword, .symbol x, e]) = freeUses e := by
  simp [freeUses, listUses, definitionUses, rowUses]

theorem parameterSymbols_symbols (formals : List Symbol) :
    parameterSymbols (.list (formals.map .symbol)) = formals := by
  simp [parameterSymbols, List.filterMap_map, Function.comp_def, symbol?]

/-- The free uses of a lambda form are those of its body that are no parameters. -/
theorem mem_freeUses_abstraction {x : Symbol} {formals : List Symbol} {body : Value} :
    x ∈ freeUses (.list [.symbol Form.abstraction.keyword, .list (formals.map .symbol), body]) ↔
      x ∈ body.freeUses ∧ x ∉ formals := by
  simp [freeUses, listUses, abstractionUses, rowUses, parameterSymbols_symbols]

theorem freeUses_combination {head : Value} (hf : head.form? = none) (es : List Value) :
    freeUses (.list (head :: es)) = rowUses (head :: es) := by
  simp [freeUses, listUses, rowUses, hf]

example : freeUses (.list [.symbol ⟨"lambda"⟩, .list [.symbol ⟨"x"⟩],
    .list [.symbol ⟨"define"⟩, .symbol ⟨"y"⟩,
      .list [.symbol ⟨"+"⟩, .symbol ⟨"x"⟩, .symbol ⟨"z"⟩]]]) = [⟨"+"⟩, ⟨"z"⟩] := by decide

end Value

/-! ### Visible symbols -/

namespace Store

variable {s : Store} {f g h : FrameId} {x y : Symbol} {v : Value}

/-- A symbol is visible in a frame if a frame of its chain binds it. -/
def Visible (s : Store) (f : FrameId) (x : Symbol) : Prop := s.contains f (.symbol x) = true

instance (s : Store) (f : FrameId) (x : Symbol) : Decidable (s.Visible f x) :=
  inferInstanceAs (Decidable (_ = true))

theorem visible_iff : s.Visible f x ↔ ∃ g ∈ s.chain f, (s.bindings g).binds x = true :=
  List.find?_isSome

/-- What is visible has a value. -/
theorem Visible.lookup?_ne_none (hx : s.Visible f x) : s.lookup? f x ≠ none := by
  obtain ⟨g, hg⟩ := Option.isSome_iff_exists.1 (show (s.find? f x).isSome = true from hx)
  have hbinds : (s.bindings g).binds x = true :=
    List.find?_some (p := fun g => (s.bindings g).binds x) hg
  rw [Store.lookup?, hg]
  exact Option.isSome_iff_ne_none.1 hbinds

/-- A frame that binds something exists. -/
theorem lt_next_of_binds (hx : (s.bindings f).binds x = true) : f < s.next := by
  rw [← frame?_isSome_iff]
  cases hf : s.frame? f with
  | some frame => rfl
  | none =>
    rw [bindings, hf] at hx
    cases hx

theorem mem_chainFrom_succ {n : Nat} : g ∈ s.chainFrom (n + 1) f ↔
    ∃ frame, s.frame? f = some frame ∧
      (g = f ∨ ∃ o, frame.outer = some o ∧ g ∈ s.chainFrom n o) := by
  rw [chainFrom]
  cases hf : s.frame? f with
  | none => simp
  | some frame => cases ho : frame.outer <;> simp [ho]

/-- Following a chain further loses no frame of it. -/
theorem mem_chainFrom_mono {n k : Nat} (hnk : n ≤ k) (hg : g ∈ s.chainFrom n f) :
    g ∈ s.chainFrom k f := by
  induction n generalizing k f with
  | zero => cases hg
  | succ n ih =>
    obtain ⟨k, rfl⟩ := Nat.exists_eq_add_of_le' (Nat.le_trans (Nat.le_add_left 1 n) hnk)
    obtain ⟨frame, hf, hg⟩ := mem_chainFrom_succ.1 hg
    refine mem_chainFrom_succ.2 ⟨frame, hf, hg.imp_right ?_⟩
    rintro ⟨o, ho, hg⟩
    exact ⟨o, ho, ih (Nat.le_of_succ_le_succ hnk) hg⟩

/-- A new frame changes no earlier chain. -/
theorem mem_chainFrom_push {n : Nat} (frame : Frame) (hg : g ∈ s.chainFrom n f) :
    g ∈ (s.push frame).chainFrom n f := by
  induction n generalizing f with
  | zero => cases hg
  | succ n ih =>
    obtain ⟨old, hf, hg⟩ := mem_chainFrom_succ.1 hg
    have hlt : f < s.next := frame?_isSome_iff.1 (by rw [hf]; rfl)
    refine mem_chainFrom_succ.2 ⟨old, by rw [frame?_push_of_lt hlt, hf], hg.imp_right ?_⟩
    rintro ⟨o, ho, hg⟩
    exact ⟨o, ho, ih hg⟩

/-- A definition hides nothing. -/
theorem Visible.define (hx : s.Visible f x) (g : FrameId) (y : Symbol) (v : Value) :
    (s.define g y v).Visible f x := by
  obtain ⟨h, hmem, hbinds⟩ := visible_iff.1 hx
  refine visible_iff.2 ⟨h, by rwa [chain_define], ?_⟩
  rw [bindings_define]
  split
  · rename_i heq
    rw [heq.1] at hbinds
    rw [Bindings.binds, Bindings.get?_insert]
    split
    · rfl
    · exact hbinds
  · exact hbinds

/-- A new frame hides nothing. -/
theorem Visible.push (hx : s.Visible f x) (frame : Frame) : (s.push frame).Visible f x := by
  obtain ⟨h, hmem, hbinds⟩ := visible_iff.1 hx
  refine visible_iff.2 ⟨h, mem_chainFrom_push frame hmem, ?_⟩
  rwa [bindings_push, if_neg (Nat.ne_of_lt (lt_next_of_binds hbinds))]

/-- In a new frame its own symbols are visible. -/
theorem visible_push_own {frame : Frame} (hx : frame.bindings.binds x = true) :
    (s.push frame).Visible s.next x := by
  refine visible_iff.2 ⟨s.next, ?_, by rwa [bindings_push, if_pos rfl]⟩
  exact mem_chainFrom_succ.2 ⟨frame, frame?_push_next s frame, .inl rfl⟩

/-- In a new frame the symbols of the frame around it are visible. -/
theorem visible_push_outer {b : Bindings} {o : FrameId} (hx : s.Visible o x) :
    (s.push ⟨b, some o⟩).Visible s.next x := by
  obtain ⟨h, hmem, hbinds⟩ := visible_iff.1 (hx.push ⟨b, some o⟩)
  -- the frame around the new one exists, since its chain is not empty
  obtain ⟨g, hg, -⟩ := visible_iff.1 hx
  obtain ⟨frame, ho, -⟩ := mem_chainFrom_succ.1 hg
  have hlt : o < s.next := frame?_isSome_iff.1 (by rw [ho]; rfl)
  refine visible_iff.2 ⟨h, ?_, hbinds⟩
  exact mem_chainFrom_succ.2 ⟨_, frame?_push_next s _, .inr ⟨o, rfl, mem_chainFrom_mono hlt hmem⟩⟩

end Store

/-- Adding bindings unbinds nothing. -/
theorem Bindings.binds_insertAll {x : Symbol} {pairs : List (Symbol × Value)} :
    ∀ {b : Bindings}, b.binds x = true ∨ x ∈ pairs.map Prod.fst →
      (b.insertAll pairs).binds x = true := by
  induction pairs with
  | nil => exact fun h => h.resolve_right List.not_mem_nil
  | cons pair pairs ih =>
    intro b h
    refine ih (b := b.insert pair.1 pair.2) ?_
    rw [binds, get?_insert]
    by_cases hx : x = pair.1
    · rw [if_pos hx]
      exact .inl rfl
    · rw [if_neg hx]
      exact h.imp_right fun hmem => (List.mem_cons.1 hmem).resolve_left hx

/-! ### Stores whose lambdas are well scoped -/

namespace Value

mutual

/-- The lambdas in a value: it itself, or those in its items. -/
def lambdas : Value → List Value
  | .lambda formals body f => [.lambda formals body f]
  | .list items => rowLambdas items
  | .hostList _ items => rowLambdas items
  | _ => []

/-- The lambdas in a row of values. -/
def rowLambdas : List Value → List Value
  | [] => []
  | v :: rest => lambdas v ++ rowLambdas rest

end

/-- An expression may be evaluated in a frame: it is a tree, and its free uses are
visible there. -/
def InScope (s : Store) (f : FrameId) (e : Value) : Prop :=
  e.isTree = true ∧ ∀ x ∈ e.freeUses, s.Visible f x

/-- A value holds no host function, and its lambdas are well scoped: the body of each is
a tree whose free uses are among the parameters or visible in the frame that the lambda
was created in. -/
structure WellScoped (s : Store) (v : Value) : Prop where
  /-- There are no functions but lambdas and operators. -/
  hostFree : v.HostFree
  /-- The bodies of lambdas are trees. -/
  isTree : ∀ formals body f, .lambda formals body f ∈ v.lambdas → body.isTree = true
  /-- Their free uses are bound. -/
  visible : ∀ formals body f, .lambda formals body f ∈ v.lambdas →
    ∀ x ∈ body.freeUses, x ∈ formals ∨ s.Visible f x

end Value

/-- Every value that a frame binds is well scoped. -/
def Store.WellScoped (s : Store) : Prop := s.All (Value.WellScoped s)

/-- Whatever is visible in the first store is visible in the second. -/
def Store.Shows (s s' : Store) : Prop := ∀ f x, s.Visible f x → s'.Visible f x

theorem Store.Shows.trans {s s₁ s₂ : Store} (h : s.Shows s₁) (h' : s₁.Shows s₂) : s.Shows s₂ :=
  fun f x hx => h' f x (h f x hx)

namespace Value

variable {s s' : Store} {f : FrameId} {e v : Value}

theorem InScope.mono (h : InScope s f e) (hs : s.Shows s') : InScope s' f e :=
  ⟨h.1, fun x hx => hs f x (h.2 x hx)⟩

theorem WellScoped.mono (h : WellScoped s v) (hs : s.Shows s') : WellScoped s' v where
  hostFree := h.hostFree
  isTree := h.isTree
  visible formals body f hmem x hx := (h.visible formals body f hmem x hx).imp_right (hs f x)

/-- A value without lambdas and host functions is well scoped. -/
theorem wellScoped_of_lambdas_eq_nil (hf : v.HostFree) (hv : v.lambdas = []) : WellScoped s v where
  hostFree := hf
  isTree formals body f hmem := by simp [hv] at hmem
  visible formals body f hmem := by simp [hv] at hmem

/-- A constant that is a tree is a double. -/
theorem wellScoped_of_isConstant (he : e.isTree = true) (hc : e.isConstant = true) :
    WellScoped s e := by
  cases e with
  | number => exact wellScoped_of_lambdas_eq_nil rfl rfl
  | symbol | list => cases hc
  | _ => cases he

/-- What holds of a tree's items if their uses are among those of the tree. -/
theorem InScope.of_mem {es : List Value} (h : InScope s f (.list es)) (he : e ∈ es)
    (huses : e.freeUses ⊆ freeUses (.list es)) : InScope s f e :=
  ⟨areTrees_iff.1 h.1 e he, fun x hx => h.2 x (huses hx)⟩

theorem InScope.sequence {parts : List Value}
    (h : InScope s f (.list (.symbol Form.sequence.keyword :: parts))) :
    ∀ e ∈ parts, InScope s f e := fun _ he =>
  h.of_mem (List.mem_cons_of_mem _ he) fun _ hx => by
    rw [freeUses_sequence]
    exact mem_rowUses.2 ⟨_, he, hx⟩

theorem InScope.conditional {parts : List Value}
    (h : InScope s f (.list (.symbol Form.conditional.keyword :: parts))) :
    ∀ e ∈ parts, InScope s f e := fun _ he =>
  h.of_mem (List.mem_cons_of_mem _ he) fun _ hx => by
    rw [freeUses_conditional]
    exact mem_rowUses.2 ⟨_, he, hx⟩

theorem InScope.definition {x : Symbol}
    (h : InScope s f (.list [.symbol Form.definition.keyword, .symbol x, e])) : InScope s f e :=
  h.of_mem (by simp) fun _ hx => by rwa [freeUses_definition]

theorem InScope.combination {head : Value} {es : List Value} (hf : head.form? = none)
    (h : InScope s f (.list (head :: es))) : ∀ e ∈ head :: es, InScope s f e := fun _ he =>
  h.of_mem he fun _ hx => by
    rw [freeUses_combination hf]
    exact mem_rowUses.2 ⟨_, he, hx⟩

/-- A lambda form in scope makes a well scoped lambda. -/
theorem InScope.abstraction {formals : List Symbol} {body : Value}
    (h : InScope s f
      (.list [.symbol Form.abstraction.keyword, .list (formals.map .symbol), body])) :
    WellScoped s (.lambda formals body f) := by
  have hbody : body.isTree = true := areTrees_iff.1 h.1 body (by simp)
  have hvisible : ∀ x ∈ body.freeUses, x ∈ formals ∨ s.Visible f x := by
    intro x hx
    by_cases hmem : x ∈ formals
    · exact .inl hmem
    · exact .inr (h.2 x (mem_freeUses_abstraction.2 ⟨hx, hmem⟩))
  refine ⟨closed_hostFree.lambda _ _ _ (hostFree_of_isTree hbody), ?_, ?_⟩
  · rintro _ _ _ hmem
    obtain ⟨rfl, rfl, rfl⟩ : _ ∧ _ ∧ _ := by simpa [lambdas] using hmem
    exact hbody
  · rintro _ _ _ hmem
    obtain ⟨rfl, rfl, rfl⟩ : _ ∧ _ ∧ _ := by simpa [lambdas] using hmem
    exact hvisible

end Value

/-! ### Evaluation -/

/-- How an evaluation from one store to another ends, values being such as `V`: nothing
is hidden, lambdas are still well scoped, and the error, if there is one, is not that of
a symbol without a binding. -/
structure EndsInScope (s s' : Store) (r : Except Error α) (V : α → Prop) : Prop where
  /-- What was visible is visible. -/
  shows : s.Shows s'
  /-- Lambdas are well scoped. -/
  wellScoped : s'.WellScoped
  /-- No symbol without a binding was met. -/
  bound : ∀ x, r ≠ .error (.unbound x)
  /-- The value is such a value. -/
  value : ∀ a, r = .ok a → V a

namespace EndsInScope

variable {s s₁ s₂ : Store}

/-- An evaluation may go on from where another one ended. -/
theorem trans {r : Except Error α} {V : α → Prop} (h : s.Shows s₁)
    (h' : EndsInScope s₁ s₂ r V) : EndsInScope s s₂ r V :=
  ⟨h.trans h'.shows, h'.wellScoped, h'.bound, h'.value⟩

/-- An evaluation that changes nothing may end in any value of the kind. -/
theorem ok {a : α} {V : α → Prop} (hs : s.WellScoped) (ha : V a) : EndsInScope s s (.ok a) V where
  shows _ _ hx := hx
  wellScoped := hs
  bound := nofun
  value _ h := Except.ok.inj h ▸ ha

/-- An evaluation that changes nothing may end in any other error. -/
theorem error {err : Error} {V : α → Prop} (hs : s.WellScoped) (h : ∀ x, err ≠ .unbound x) :
    EndsInScope s s (.error err) V where
  shows _ _ hx := hx
  wellScoped := hs
  bound x := fun hx => h x (Except.error.inj hx)
  value := nofun

/-- The error of a part is the error of the whole. -/
theorem of_error {err : Error} {V : α → Prop} {W : β → Prop}
    (h : EndsInScope s s₁ (.error err : Except Error α) V) :
    EndsInScope s s₁ (.error err : Except Error β) W :=
  ⟨h.shows, h.wellScoped, fun x hx => h.bound x (by cases hx; rfl), nofun⟩

end EndsInScope

theorem Store.WellScoped.mono {s s' : Store} (h : s.All (Value.WellScoped s)) (hs : s.Shows s') :
    s.All (Value.WellScoped s') := fun f x v hv => (h f x v hv).mono hs

/-- A definition of a well scoped value keeps a store well scoped. -/
theorem Store.WellScoped.define {s : Store} (h : s.WellScoped) {v : Value} (hv : v.WellScoped s)
    (f : FrameId) (x : Symbol) : (s.define f x v).WellScoped :=
  have hshows : s.Shows (s.define f x v) := fun _ _ hx => hx.define f x v
  (Store.WellScoped.mono h hshows).define (hv.mono hshows) f x

/-- So does a new frame with well scoped values. -/
theorem Store.WellScoped.push {s : Store} (h : s.WellScoped) {formals : List Symbol}
    {args : List Value} (ha : ∀ a ∈ args, a.WellScoped s) (outer : Option FrameId) :
    (s.push ⟨Bindings.empty.insertAll (formals.zip args), outer⟩).WellScoped :=
  have hshows : s.Shows (s.push ⟨Bindings.empty.insertAll (formals.zip args), outer⟩) :=
    fun _ _ hx => hx.push _
  (Store.WellScoped.mono h hshows).push (fun a hmem => (ha a hmem).mono hshows) outer

/-- The body of a well scoped lambda is in scope in the frame made for it. -/
theorem Value.WellScoped.inScope_body {s : Store} {formals : List Symbol} {body : Value}
    {captured : FrameId} (h : (Value.lambda formals body captured).WellScoped s)
    {args : List Value} (hl : args.length = formals.length) :
    InScope (s.push ⟨Bindings.empty.insertAll (formals.zip args), some captured⟩) s.next body := by
  have hmem : lambda formals body captured ∈ (lambda formals body captured).lambdas := by
    simp [lambdas]
  refine ⟨h.isTree _ _ _ hmem, fun x hx => ?_⟩
  rcases h.visible _ _ _ hmem x hx with hformal | hvisible
  · refine Store.visible_push_own (Bindings.binds_insertAll (.inr ?_))
    rwa [List.map_fst_zip (Nat.le_of_eq hl.symm)]
  · exact Store.visible_push_outer hvisible

/-- An operator does not look up anything. -/
theorem endsInScope_operator {s : Store} (hs : s.WellScoped) {op : Operator} {args : List Value} :
    EndsInScope s s (op.apply args) (Value.WellScoped s) := by
  rcases ho : op.apply args with err | v
  · refine .error hs fun x hx => ?_
    subst hx
    rcases Operator.causeKind_of_apply ho with h | h | h <;> cases h
  · refine .ok hs ?_
    rcases Operator.apply_eq_ok ho with ⟨n, rfl⟩ | ⟨b, rfl⟩ <;>
      exact Value.wellScoped_of_lambdas_eq_nil rfl rfl

variable {returns : HostReturns} {stop : Error → Prop}

mutual

/-- **An expression in scope never meets a symbol without a binding.** -/
theorem Evaluates.endsInScope (hstop : ∀ x, ¬ stop (.unbound x)) :
    Evaluates returns stop s f e r s' → e.InScope s f → s.WellScoped →
    EndsInScope s s' r (Value.WellScoped s')
  | .bound h, _, hs => .ok hs (hs.lookup h)
  | .unbound h, he, _ => absurd h (he.2 _ (List.mem_singleton_self _)).lookup?_ne_none
  | .constant h, he, hs => .ok hs (Value.wellScoped_of_isConstant he.1 h)
  | .hostList _, he, _ => absurd he.1 Bool.false_ne_true
  | .empty, _, hs | .definitionTarget _, _, hs | .definitionParts _, _, hs => .error hs nofun
  | .abstractionList _, _, hs | .abstractionSymbol _, _, hs => .error hs nofun
  | .abstractionParts _, _, hs | .conditionalParts _, _, hs => .error hs nofun
  | .stopped h, _, hs => .error hs fun x hx => hstop x (hx ▸ h)
  | .abstraction, he, hs => .ok hs he.abstraction
  | .sequence parts, he, hs => by
    have hparts := parts.endsInScope hstop he.sequence hs
    refine ⟨hparts.shows, hparts.wellScoped, nofun, fun v hv => ?_⟩
    obtain rfl := Except.ok.inj hv
    have hunit : Value.WellScoped s' .unit := Value.wellScoped_of_lambdas_eq_nil rfl rfl
    exact List.forall_mem_cons.2 ⟨hunit, hparts.value _ rfl⟩ _ List.getLastD_mem_cons
  | .sequenceError parts, he, hs => (parts.endsInScope hstop he.sequence hs).of_error
  | .definition value, he, hs => by
    have hvalue := value.endsInScope hstop he.definition hs
    refine ⟨fun g x hx => (hvalue.shows g x hx).define _ _ _, ?_, nofun, fun v hv => ?_⟩
    · exact hvalue.wellScoped.define (hvalue.value _ rfl) _ _
    · obtain rfl := Except.ok.inj hv
      exact Value.wellScoped_of_lambdas_eq_nil rfl rfl
  | .definitionError value, he, hs => value.endsInScope hstop he.definition hs
  | .conditionalTrue test _ branch, he, hs | .conditionalFalse test _ branch, he, hs => by
    have htest := test.endsInScope hstop (he.conditional _ (by simp)) hs
    have hbranch := branch.endsInScope hstop ((he.conditional _ (by simp)).mono htest.shows)
      htest.wellScoped
    exact hbranch.trans htest.shows
  | .conditionalError test, he, hs => test.endsInScope hstop (he.conditional _ (by simp)) hs
  | .combination hf fn operands call, he, hs => by
    obtain ⟨hhead, htail⟩ := List.forall_mem_cons.1 (he.combination hf)
    have hfn := fn.endsInScope hstop hhead hs
    have hoperands := operands.endsInScope hstop (fun e h => (htail e h).mono hfn.shows)
      hfn.wellScoped
    have hcall := call.endsInScope hstop ((hfn.value _ rfl).mono hoperands.shows)
      (hoperands.value _ rfl) hoperands.wellScoped
    exact (hcall.trans hoperands.shows).trans hfn.shows
  | .headError hf fn, he, hs => fn.endsInScope hstop (he.combination hf _ (by simp)) hs
  | .operandError hf fn operands, he, hs => by
    obtain ⟨hhead, htail⟩ := List.forall_mem_cons.1 (he.combination hf)
    have hfn := fn.endsInScope hstop hhead hs
    have hoperands := operands.endsInScope hstop (fun e h => (htail e h).mono hfn.shows)
      hfn.wellScoped
    exact (hoperands.trans hfn.shows).of_error

theorem EvaluatesAll.endsInScope (hstop : ∀ x, ¬ stop (.unbound x)) :
    EvaluatesAll returns stop s f es r s' → (∀ e ∈ es, e.InScope s f) → s.WellScoped →
    EndsInScope s s' r fun vs => ∀ v ∈ vs, v.WellScoped s'
  | .nil, _, hs => .ok hs nofun
  | .cons first others, he, hs => by
    obtain ⟨hhead, htail⟩ := List.forall_mem_cons.1 he
    have hfirst := first.endsInScope hstop hhead hs
    have hothers := others.endsInScope hstop (fun e h => (htail e h).mono hfirst.shows)
      hfirst.wellScoped
    refine ⟨hfirst.shows.trans hothers.shows, hothers.wellScoped, nofun, fun vs hvs => ?_⟩
    obtain rfl := Except.ok.inj hvs
    exact List.forall_mem_cons.2 ⟨(hfirst.value _ rfl).mono hothers.shows, hothers.value _ rfl⟩
  | .firstError first, he, hs => (first.endsInScope hstop (he _ (by simp)) hs).of_error
  | .othersError first others, he, hs => by
    obtain ⟨hhead, htail⟩ := List.forall_mem_cons.1 he
    have hfirst := first.endsInScope hstop hhead hs
    have hothers := others.endsInScope hstop (fun e h => (htail e h).mono hfirst.shows)
      hfirst.wellScoped
    exact (hothers.trans hfirst.shows).of_error

theorem Applies.endsInScope (hstop : ∀ x, ¬ stop (.unbound x)) :
    Applies returns stop s f v args r s' → v.WellScoped s → (∀ a ∈ args, a.WellScoped s) →
    s.WellScoped → EndsInScope s s' r (Value.WellScoped s')
  | .lambda hl body, hv, ha, hs => by
    have hbody := body.endsInScope hstop (hv.inScope_body hl) (hs.push ha _)
    exact hbody.trans fun g x hx => hx.push _
  | .lambdaCount _, _, _, hs | .notFunction _ _, _, _, hs => .error hs nofun
  | .operator, _, _, hs => endsInScope_operator hs
  | .host _, hv, _, _ => absurd hv.hostFree (closed_hostFree.host _)

end

/-- **Scope is sound.**  Where the lambdas of a store are well scoped, a tree whose free
uses are visible in a frame never meets a symbol without a binding there; and however
its evaluation ends, the lambdas of the store that it leaves are well scoped, what was
visible still is, and so is the value, if there is one. -/
theorem evaluate_inScope (host : Host) {e : Value} {f : FrameId} {m : Machine}
    (he : e.isTree = true) (huses : ∀ x ∈ e.freeUses, m.store.Visible f x)
    (hs : m.store.WellScoped) (depth : Nat) :
    let (r, m') := Eval.outcome (evaluate host depth e f) m
    (∀ err, r = .error err → err.kind ≠ .unbound) ∧ m'.store.WellScoped ∧
      (∀ g x, m.store.Visible g x → m'.store.Visible g x) ∧
      ∀ v, r = .ok v → v.WellScoped m'.store := by
  obtain ⟨h, -⟩ := evaluate_follows_of_hostFree host (Value.hostFree_of_isTree he)
    (fun g x v hv => (hs g x v hv).hostFree) depth f
  have hstop : ∀ x, ¬ BreaksOff m.tracing (.unbound x) := by
    rintro x (h | ⟨-, h⟩) <;> cases h
  have hends := h.endsInScope hstop ⟨he, huses⟩ hs
  refine ⟨fun err herr hkind => ?_, hends.wellScoped, hends.shows, hends.value⟩
  obtain ⟨x, rfl⟩ := Error.exists_of_kind_eq_unbound hkind
  exact hends.bound x herr

/-- `(begin (define y z) (f z))` in a frame inside the one that binds `z` and the lambda
`f`, whose body uses `z` too: `z` and `f` are visible, so no symbol lacks a binding. -/
theorem evaluate_inScope_call :
    let fn : Value := .lambda [⟨"x"⟩]
      (.list [.symbol ⟨"if"⟩, .symbol ⟨"x"⟩, .symbol ⟨"z"⟩, .symbol ⟨"x"⟩]) 0
    let e : Value := .list [.symbol ⟨"begin"⟩,
      .list [.symbol ⟨"define"⟩, .symbol ⟨"y"⟩, .symbol ⟨"z"⟩],
      .list [.symbol ⟨"f"⟩, .symbol ⟨"z"⟩]]
    let s := ((Store.empty.push ⟨⟨[(⟨"z"⟩, .int 5)]⟩, none⟩).define 0 ⟨"f"⟩ fn).push
      ⟨.empty, some 0⟩
    let (r, m') := Eval.outcome (evaluate Host.standard 4 e 1) ⟨s, .off, #[]⟩
    e.freeUses = [⟨"z"⟩, ⟨"f"⟩, ⟨"z"⟩] ∧ r = .ok (.int 5) ∧ m'.store.WellScoped ∧
      m'.store.Visible 1 ⟨"z"⟩ := by
  intro fn e s
  have hempty : Store.empty.WellScoped := fun _ _ _ h => nomatch h
  have hz : (Store.empty.push ⟨⟨[(⟨"z"⟩, .int 5)]⟩, none⟩).WellScoped :=
    @Store.WellScoped.push _ hempty [⟨"z"⟩] [.int 5]
      (List.forall_mem_singleton.2 (Value.wellScoped_of_lambdas_eq_nil rfl rfl)) none
  have hfn : fn.WellScoped (Store.empty.push ⟨⟨[(⟨"z"⟩, .int 5)]⟩, none⟩) :=
    Value.InScope.abstraction ⟨rfl, by decide⟩
  have hs : s.WellScoped :=
    @Store.WellScoped.push _ (hz.define hfn 0 ⟨"f"⟩) [] [] (List.forall_mem_nil _) (some 0)
  have huses : ∀ x ∈ e.freeUses, s.Visible 1 x := by decide
  obtain ⟨-, hscoped, hvisible, -⟩ :=
    evaluate_inScope .standard (e := e) (f := 1) (m := ⟨s, .off, #[]⟩) rfl huses hs 4
  exact ⟨by decide, rfl, hscoped, hvisible 1 ⟨"z"⟩ (by decide)⟩

end Lisplet
