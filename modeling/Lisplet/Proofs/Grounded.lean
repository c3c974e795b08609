/-
# Grounded stores

A store changes in two ways alone: a value is bound in a frame, or a frame is made
(`Store.Write`).  If a new frame lies inside one that exists, and the lambdas in what
is bound were created in frames that exist, then a store stays *grounded*
(`Store.Grounded`): the frame around a frame is an earlier one, every lambda that is
bound was created in a frame that exists, and no frame binds a name twice.  Frames bind
lambdas that hold frames, so the links of a store go round in circles, but those from a
frame to the one around it do not: in a grounded store the chain of a frame is found by
following them to their end (`Store.Grounded.chain_eq`).

Along any row of such changes (`Store.Evolves`) frames keep their place and names
theirs.
-/

import Mathlib.Data.List.Infix
import Mathlib.Logic.Relation
import Lisplet.Proofs.Closed

namespace Lisplet

/-! ### Lambdas in values -/

namespace Value

mutual

/-- The lambdas that occur in a value, those in the bodies of others too. -/
def closures : Value → List Value
  | .lambda formals body f => .lambda formals body f :: closures body
  | .list items => rowClosures items
  | .hostList _ items => rowClosures items
  | _ => []

/-- The lambdas that occur in a row of values. -/
def rowClosures : List Value → List Value
  | [] => []
  | v :: rest => closures v ++ rowClosures rest

end

theorem mem_rowClosures {v : Value} {items : List Value} :
    v ∈ rowClosures items ↔ ∃ item ∈ items, v ∈ item.closures := by
  induction items with
  | nil => simp [rowClosures]
  | cons item items ih => simp [rowClosures, ih]

/-- The lambdas that occur in a value were created in frames with numbers below `n`. -/
def Within (n : Nat) (v : Value) : Prop :=
  ∀ formals body f, .lambda formals body f ∈ v.closures → f < n

variable {n k : Nat} {v : Value}

theorem Within.mono (h : v.Within n) (hnk : n ≤ k) : v.Within k :=
  fun formals body f hmem => Nat.lt_of_lt_of_le (h formals body f hmem) hnk

/-- A value without lambdas is within any number. -/
theorem within_of_closures_eq_nil (h : v.closures = []) : v.Within n := by
  intro formals body f hmem
  rw [h] at hmem
  cases hmem

theorem within_list {items : List Value} : (list items).Within n ↔ ∀ v ∈ items, v.Within n := by
  simp only [Within, closures, mem_rowClosures]
  exact ⟨fun h v hv formals body f hmem => h formals body f ⟨v, hv, hmem⟩,
    fun h formals body f ⟨v, hv, hmem⟩ => h v hv formals body f hmem⟩

theorem within_hostList {kind : HostListKind} {items : List Value} :
    (hostList kind items).Within n ↔ ∀ v ∈ items, v.Within n := within_list

theorem within_lambda {formals : List Symbol} {body : Value} {f : FrameId} :
    (lambda formals body f).Within n ↔ f < n ∧ body.Within n := by
  constructor
  · intro h
    exact ⟨h formals body f (List.mem_cons_self ..), fun formals' body' g hmem =>
      h formals' body' g (List.mem_cons_of_mem _ hmem)⟩
  · rintro ⟨hf, hbody⟩ formals' body' g hmem
    rcases List.mem_cons.1 hmem with heq | hmem
    · cases heq
      exact hf
    · exact hbody formals' body' g hmem

mutual

/-- What the reader builds holds no lambda. -/
theorem closures_of_isTree : ∀ {e : Value}, e.isTree = true → e.closures = []
  | .number _, _ | .symbol _, _ => rfl
  | .list _, h => rowClosures_of_areTrees h

theorem rowClosures_of_areTrees : ∀ {es : List Value}, areTrees es = true → rowClosures es = []
  | [], _ => rfl
  | e :: es, h => by
    obtain ⟨he, hes⟩ := List.forall_mem_cons.1 (areTrees_iff.1 h)
    rw [rowClosures, closures_of_isTree he, rowClosures_of_areTrees (areTrees_iff.2 hes)]
    rfl

end

theorem within_of_isTree {e : Value} (h : e.isTree = true) : e.Within n :=
  within_of_closures_eq_nil (closures_of_isTree h)

end Value

/-! ### Names of bindings -/

namespace Bindings

/-- A binding keeps the names in front. -/
theorem names_prefix_insert (b : Bindings) (x : Symbol) (v : Value) :
    b.names <+: (b.insert x v).names := by
  rw [names_insert]
  split
  · exact List.prefix_rfl
  · exact List.prefix_append ..

/-- A binding repeats no name. -/
theorem nodup_names_insert {b : Bindings} (h : b.names.Nodup) (x : Symbol) (v : Value) :
    (b.insert x v).names.Nodup := by
  rw [names_insert]
  split
  · exact h
  · rename_i hx
    exact List.nodup_append.2 ⟨h, by simp, fun y hy z hz hyz =>
      hx (List.mem_singleton.1 hz ▸ hyz ▸ hy)⟩

theorem nodup_names_insertAll {pairs : List (Symbol × Value)} :
    ∀ {b : Bindings}, b.names.Nodup → (b.insertAll pairs).names.Nodup := by
  induction pairs with
  | nil => exact id
  | cons pair pairs ih => exact fun h => ih (nodup_names_insert h pair.1 pair.2)

end Bindings

/-! ### Grounded stores -/

namespace Store

/-- In a grounded store a frame lies inside an earlier one, lambdas that are bound were
created in frames that exist, and no frame binds a name twice. -/
structure Grounded (s : Store) : Prop where
  /-- The frame around a frame is an earlier one. -/
  outer_lt : ∀ {f o}, s.outer? f = some o → o < f
  /-- Lambdas were created in frames that exist. -/
  within : s.All (Value.Within s.next)
  /-- A frame binds a name once. -/
  nodup : ∀ f, (s.bindings f).names.Nodup

/-- One change of a store: a value is bound, or a frame is made. -/
inductive Write : Store → Store → Prop
  /-- The lambdas in the value were created in frames that exist. -/
  | bind (f : FrameId) (x : Symbol) (hv : v.Within s.next) : Write s (s.define f x v)
  /-- The frame lies inside one that exists, if it lies inside any, and the same is true
  of the lambdas in what it binds from the start. -/
  | frame {pairs : List (Symbol × Value)} (ho : ∀ o, outer = some o → o < s.next)
    (hp : ∀ v ∈ pairs.map Prod.snd, v.Within s.next) :
    Write s (s.push ⟨Bindings.empty.insertAll pairs, outer⟩)

/-- A row of changes. -/
def Evolves : Store → Store → Prop := Relation.ReflTransGen Write

variable {s s' s'' : Store} {f o : FrameId} {x : Symbol}

theorem bindings_of_le (h : s.next ≤ f) : s.bindings f = .empty := by
  rw [bindings, frame?_eq_none h]

/-- With a new frame inside one that exists, the frames around a frame are still earlier
ones. -/
theorem outer_lt_push {frame : Frame} (hs : ∀ {f o}, s.outer? f = some o → o < f)
    (houter : ∀ o, frame.outer = some o → o < s.next) (h : (s.push frame).outer? f = some o) :
    o < f := by
  rw [outer?_push] at h
  split at h
  · rename_i hf
    exact hf ▸ houter o h
  · exact hs h

namespace Write

/-- The frame of a call is made inside the frame that the lambda was created in. -/
theorem call {formals : List Symbol} {args : List Value} (ho : o < s.next)
    (ha : ∀ a ∈ args, a.Within s.next) :
    Write s (s.push ⟨Bindings.empty.insertAll (formals.zip args), some o⟩) :=
  .frame (by rintro _ ⟨⟩; exact ho) (forall_mem_snd_zip ha)

theorem next_le (h : Write s s') : s.next ≤ s'.next := by
  cases h with
  | bind => exact Nat.le_of_eq (next_define ..).symm
  | frame => exact next_push .. ▸ Nat.le_succ _

/-- No frame is moved. -/
theorem outer?_eq (h : Write s s') (hf : f < s.next) : s'.outer? f = s.outer? f := by
  cases h with
  | bind => exact outer?_define ..
  | frame => rw [outer?_push, if_neg (Nat.ne_of_lt hf)]

/-- No name loses its place. -/
theorem names_prefix (h : Write s s') (f : FrameId) :
    (s.bindings f).names <+: (s'.bindings f).names := by
  cases h with
  | bind g x =>
    rw [bindings_define]
    split
    · rename_i hfg
      rw [hfg.1]
      exact Bindings.names_prefix_insert ..
    · exact List.prefix_rfl
  | frame =>
    rw [bindings_push]
    split
    · rename_i hf
      rw [hf, bindings_of_le (Nat.le_refl _)]
      exact List.nil_prefix
    · exact List.prefix_rfl

/-- A change keeps a store grounded. -/
theorem grounded (h : Write s s') (hs : s.Grounded) : s'.Grounded := by
  have hnext := h.next_le
  have hmono : s.All (Value.Within s'.next) := fun f x v hv => (hs.within f x v hv).mono hnext
  cases h with
  | bind f x hv =>
    refine ⟨fun ho => ?_, hmono.define (hv.mono hnext) f x, fun g => ?_⟩
    · rw [outer?_define] at ho
      exact hs.outer_lt ho
    · rw [bindings_define]
      split
      · exact Bindings.nodup_names_insert (hs.nodup f) x _
      · exact hs.nodup g
  | frame ho hp =>
    refine ⟨outer_lt_push hs.outer_lt ho, fun g x v hv => ?_, fun g => ?_⟩
    · rw [bindings_push] at hv
      split at hv
      · rcases Bindings.get?_insertAll_mem hv with hv | hv
        · cases hv
        · exact (hp v hv).mono hnext
      · exact hmono g x v hv
    · rw [bindings_push]
      split
      · exact Bindings.nodup_names_insertAll List.nodup_nil
      · exact hs.nodup g

end Write

namespace Evolves

theorem refl (s : Store) : s.Evolves s := Relation.ReflTransGen.refl

theorem trans (h : s.Evolves s') (h' : s'.Evolves s'') : s.Evolves s'' :=
  Relation.ReflTransGen.trans h h'

theorem write (h : s.Evolves s') (hw : Write s' s'') : s.Evolves s'' :=
  Relation.ReflTransGen.tail h hw

/-- No frame is lost. -/
theorem next_le (h : s.Evolves s') : s.next ≤ s'.next := by
  induction h with
  | refl => exact Nat.le_refl _
  | tail _ hw ih => exact Nat.le_trans ih hw.next_le

/-- No frame is moved. -/
theorem outer?_eq (h : s.Evolves s') (hf : f < s.next) : s'.outer? f = s.outer? f := by
  induction h with
  | refl => rfl
  | tail h hw ih => exact (hw.outer?_eq (Nat.lt_of_lt_of_le hf (next_le h))).trans ih

/-- No name loses its place. -/
theorem names_prefix (h : s.Evolves s') (f : FrameId) :
    (s.bindings f).names <+: (s'.bindings f).names := by
  induction h with
  | refl => exact List.prefix_rfl
  | tail _ hw ih => exact ih.trans (hw.names_prefix f)

theorem grounded (h : s.Evolves s') (hs : s.Grounded) : s'.Grounded := by
  induction h with
  | refl => exact hs
  | tail _ hw ih => exact hw.grounded ih

end Evolves

theorem grounded_empty : empty.Grounded where
  outer_lt h := nomatch h
  within _ _ _ h := nomatch h
  nodup _ := List.nodup_nil

/-! ### Chains -/

/-- Where the frames around a frame are earlier ones, following them may go on for
longer than there are frames. -/
theorem chainFrom_eq (hs : ∀ {f o}, s.outer? f = some o → o < f) :
    ∀ {n k f}, f < n → f < k → s.chainFrom n f = s.chainFrom k f
  | n + 1, k + 1, f, hn, hk => by
    rw [chainFrom, chainFrom]
    cases hf : s.frame? f with
    | none => rfl
    | some frame =>
      cases ho : frame.outer with
      | none => simp only [ho]
      | some o =>
        have hlt : o < f := hs (by rw [outer?, hf]; exact ho)
        simp only [ho]
        rw [chainFrom_eq hs (Nat.lt_of_lt_of_le hlt (Nat.le_of_lt_succ hn))
          (Nat.lt_of_lt_of_le hlt (Nat.le_of_lt_succ hk))]

variable (hs : ∀ {f o}, s.outer? f = some o → o < f)

include hs

/-- The chain of a frame is the frame and the chain of the one around it. -/
theorem chain_eq (hf : f < s.next) :
    s.chain f = f :: ((s.outer? f).map s.chain).getD [] := by
  obtain ⟨frame, hframe⟩ := Option.isSome_iff_exists.1 (frame?_isSome_iff.2 hf)
  have houter : s.outer? f = frame.outer := by rw [outer?, hframe]; rfl
  rw [chain, chainFrom, hframe, houter]
  cases ho : frame.outer with
  | none => simp only [ho]; rfl
  | some o =>
    simp only [ho]
    exact congrArg (f :: ·) (chainFrom_eq hs (hs (houter.trans ho)) (Nat.lt_succ_self o))

/-- A symbol is looked for in the frame and then around it. -/
theorem find?_eq (f : FrameId) (x : Symbol) : s.find? f x =
    if (s.bindings f).binds x = true then some f
    else (s.outer? f).bind fun o => s.find? o x := by
  by_cases hf : f < s.next
  · rw [find?, chain_eq hs hf, List.find?_cons]
    cases (s.bindings f).binds x with
    | true => rfl
    | false => cases s.outer? f <;> rfl
  · have hnone : s.frame? f = none := frame?_eq_none (Nat.le_of_not_lt hf)
    rw [find?, chain, chainFrom, bindings_of_le (Nat.le_of_not_lt hf), outer?, hnone]
    rfl

/-- A symbol has the value that the frame binds it to, or else the one that it has
around the frame. -/
theorem lookup?_eq (f : FrameId) (x : Symbol) : s.lookup? f x =
    ((s.bindings f).get? x).or ((s.outer? f).bind fun o => s.lookup? o x) := by
  rw [lookup?, find?_eq hs f x, Bindings.binds]
  cases hx : (s.bindings f).get? x with
  | some v => exact hx
  | none => cases s.outer? f <;> rfl

end Store

end Lisplet
