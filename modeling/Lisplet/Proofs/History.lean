/-
# What holds of a machine at all times

A host makes frames, binds in them, applies lambdas to arguments without evaluating
their bodies, and has expressions and texts evaluated, in any order and whether they
fail or not (`Request`).  It names frames that exist, and the lambdas that it hands in
are not of its own making: each is one that it was given before or that some frame binds
(`History.Allows`).  The functions of the host that an evaluation calls keep to that too
(`Host.Grows`).

So the store of the machine only evolves (`Request.grows`), and stays grounded from the
first frame on; the lambdas that the host holds were created in frames that exist
(`History.Sound`).  `History.store_invariant` spells out what this comes to.
-/

import Lisplet.Proofs.Grammar
import Lisplet.Proofs.Growth
import Lisplet.Proofs.Soundness
import Lisplet.Session

namespace Lisplet

open Eval

/-! ### Sessions -/

/-- The values of a fresh environment are no lambdas. -/
theorem within_of_mem_builtins {n : Nat} : ∀ v ∈ builtins.map Prod.snd, v.Within n := by
  intro v hv
  obtain ⟨pair, hpair, rfl⟩ := List.mem_map.1 hv
  rcases List.mem_append.1 hpair with hop | hpi
  · obtain ⟨op, -, rfl⟩ := List.mem_map.1 hop
    exact Value.within_of_closures_eq_nil rfl
  · obtain rfl := List.mem_singleton.1 hpi
    exact Value.within_of_closures_eq_nil rfl

namespace Session

variable {m : Machine} {f : FrameId}

theorem grows_newRoot : Grows newRoot m fun n f => f < n :=
  Grows.newFrame (by rintro _ ⟨⟩) within_of_mem_builtins

theorem grows_register (f : FrameId) : Grows (register f) m anything := by
  unfold register
  have hpairs : ∀ v ∈ builtins.map Prod.snd, v.Within m.store.next := within_of_mem_builtins
  generalize builtins = pairs at hpairs
  induction pairs generalizing m with
  | nil => exact .pure trivial
  | cons pair pairs ih =>
    obtain ⟨hpair, hrest⟩ := List.forall_mem_cons.1 hpairs
    exact (Grows.assign f pair.1 hpair).bind fun _ m₁ hm₁ _ =>
      ih fun v hv => (hrest v hv).mono hm₁.next_le

variable {host : Host} (hhost : host.Grows)
include hhost

theorem grows_runForms (depth : Nat) {forms : List Value} : ∀ {m : Machine} {last : Value},
    m.store.Ready f forms → last.Within m.store.next →
    Grows (runForms host depth f last forms) m Value.Within := by
  induction forms with
  | nil => exact fun _ hlast => .pure hlast
  | cons form forms ih =>
    intro m last hm hlast
    refine (Grows.record _).bind fun _ m₁ hm₁ _ => ?_
    have hready := hm.evolves hm₁
    exact (hhost.evaluate depth form f m₁ hready.head).bind fun v m₂ hm₂ hv =>
      ih (hready.evolves hm₂).tail hv

theorem grows_run (depth : Nat) (hs : m.store.Grounded) (hf : f < m.store.next)
    (source : String) : Grows (run host depth f source) m Value.Within := by
  rcases hread : (Reader.readAll (Reader.tokenize source)).1 with err | forms
  · rw [run, hread]
    exact .throw err
  · rw [run, hread]
    have htrees := Value.areTrees_iff.1 (Reader.readAll_eq_ok_iff.1 hread).areTrees
    refine grows_runForms hhost depth ⟨hs, hf, fun form hform => ?_⟩
      (Value.within_of_closures_eq_nil rfl)
    exact Value.within_of_isTree (htrees form hform)

end Session

/-! ### Histories -/

/-- What a host may ask for. -/
inductive Request where
  /-- A frame with the builtins. -/
  | root
  /-- A frame with nothing in it and nothing around it. -/
  | initial
  /-- A frame inside another one. -/
  | child (f : FrameId)
  /-- A binding; the name need not be one. -/
  | define (f : FrameId) (name v : Value)
  /-- Bindings one after another. -/
  | update (f : FrameId) (pairs : List (Value × Value))
  /-- The builtins in a frame. -/
  | register (f : FrameId)
  /-- A frame for the body of a lambda with arguments. -/
  | extend (formals : List Symbol) (body : Value) (captured : FrameId) (args : List Value)
  /-- The value of an expression. -/
  | evaluate (depth : Nat) (e : Value) (f : FrameId)
  /-- The value of the last form of a text. -/
  | run (depth : Nat) (f : FrameId) (source : String)

namespace Request

/-- Does what is asked for; the result is the value that is given back, if there is one. -/
def perform (host : Host) : Request → Eval (Option Value)
  | root => do let _ ← Session.newRoot; pure none
  | initial => do let _ ← Eval.newFrame .empty none; pure none
  | child f => do let _ ← Eval.newFrame .empty (some f); pure none
  | define f name v => do Eval.define f name v; pure none
  | update f pairs => do Eval.update f pairs; pure none
  | register f => do Session.register f; pure none
  | extend formals body captured args => do
    let _ ← Eval.extend formals body captured args; pure none
  | evaluate depth e f => do let v ← Lisplet.evaluate host depth e f; pure (some v)
  | run depth f source => do let v ← Session.run host depth f source; pure (some v)

/-- The frames that are named. -/
def frames : Request → List FrameId
  | root | initial | extend .. => []
  | child f | define f .. | update f _ | register f | evaluate _ _ f | run _ f _ => [f]

/-- The values that are handed in, those aside that are names. -/
def values : Request → List Value
  | define _ _ v => [v]
  | update _ pairs => pairs.map Prod.snd
  | extend formals body captured args => .lambda formals body captured :: args
  | evaluate _ e _ => [e]
  | _ => []

/-- The lambdas in what is given back were created in frames with numbers below `n`. -/
def GivesWithin (n : Nat) (given : Option Value) : Prop := ∀ v, given = some v → v.Within n

/-- **Whatever is asked for, the store evolves**, and the lambdas in what is given back
were created in frames that exist. -/
theorem grows {host : Host} (hhost : host.Grows) (req : Request) {m : Machine}
    (hs : m.store.Grounded) (hf : ∀ f ∈ req.frames, f < m.store.next)
    (hv : ∀ v ∈ req.values, v.Within m.store.next) :
    Grows (req.perform host) m GivesWithin := by
  have hnone : ∀ {α : Type} {x : Eval α} {V : Nat → α → Prop}, Grows x m V →
      Grows (x >>= fun _ => pure none) m GivesWithin :=
    fun h => h.bind fun _ _ _ _ => .pure nofun
  have hsome : ∀ {x : Eval Value}, Grows x m Value.Within →
      Grows (x >>= fun v => pure (some v)) m GivesWithin :=
    fun h => h.bind fun _ _ _ hw => .pure (by rintro _ ⟨⟩; exact hw)
  cases req with
  | root => exact hnone Session.grows_newRoot
  | initial => exact hnone (.empty (by rintro _ ⟨⟩))
  | child f => exact hnone (.empty (by rintro _ ⟨⟩; exact hf f (List.mem_singleton_self f)))
  | define f name v => exact hnone (.define f name (hv v (List.mem_singleton_self v)))
  | update f pairs => exact hnone (.update f hv)
  | register f => exact hnone (Session.grows_register f)
  | extend formals body captured args =>
    obtain ⟨hlambda, hargs⟩ := List.forall_mem_cons.1 hv
    exact hnone (.extend (Value.within_lambda.1 hlambda).1 hargs)
  | evaluate depth e f =>
    exact hsome (hhost.evaluate depth e f m ⟨hs, hf f (List.mem_singleton_self f), hv⟩)
  | run depth f source =>
    exact hsome (Session.grows_run hhost depth hs (hf f (List.mem_singleton_self f)) source)

end Request

/-- A machine and the values that it gave its host so far. -/
structure History where
  machine : Machine
  results : List Value

namespace History

/-- A machine with one frame, which gave nothing yet. -/
def start (tracing : Tracing) : History := ⟨Session.fresh tracing, []⟩

/-- A lambda occurs in what the machine gave or in what a frame binds. -/
def Holds (h : History) (l : Value) : Prop :=
  (∃ v ∈ h.results, l ∈ v.closures) ∨
    ∃ f x v, (h.machine.store.bindings f).get? x = some v ∧ l ∈ v.closures

/-- A request names frames that exist, and the lambdas in it are held already. -/
def Allows (h : History) (req : Request) : Prop :=
  (∀ f ∈ req.frames, f < h.machine.store.next) ∧ ∀ v ∈ req.values, ∀ l ∈ v.closures, h.Holds l

/-- What a request gives back. -/
def given : Except Error (Option Value) → List Value
  | .ok (some v) => [v]
  | _ => []

/-- What comes after a request, whether it succeeds or fails. -/
def after (host : Host) (h : History) (req : Request) : History :=
  ⟨(outcome (req.perform host) h.machine).2,
    h.results ++ given (outcome (req.perform host) h.machine).1⟩

/-- One history leads to another by requests. -/
def Leads (host : Host) : History → History → Prop :=
  Relation.ReflTransGen fun h h' => ∃ req, h.Allows req ∧ h' = h.after host req

/-- The store is grounded, and what the machine gave was created in frames that exist. -/
structure Sound (h : History) : Prop where
  grounded : h.machine.store.Grounded
  results : ∀ v ∈ h.results, v.Within h.machine.store.next

variable {host : Host} {h h' : History} {tracing : Tracing}

/-- Lambdas that are held were created in frames that exist. -/
theorem Sound.lt_next (hh : h.Sound) {formals : List Symbol} {body : Value} {f : FrameId}
    (hl : h.Holds (.lambda formals body f)) : f < h.machine.store.next := by
  rcases hl with ⟨v, hv, hmem⟩ | ⟨g, x, v, hv, hmem⟩
  · exact hh.results v hv formals body f hmem
  · exact hh.grounded.within g x v hv formals body f hmem

theorem sound_start (tracing : Tracing) : (start tracing).Sound where
  grounded := by
    have hframe : Store.Write Store.empty (start tracing).machine.store :=
      .frame (by rintro _ ⟨⟩) within_of_mem_builtins
    exact hframe.grounded Store.grounded_empty
  results := List.forall_mem_nil _

/-- After a request the store has evolved and all is still sound. -/
theorem Sound.after (hhost : host.Grows) (hh : h.Sound) {req : Request} (hreq : h.Allows req) :
    h.machine.store.Evolves (h.after host req).machine.store ∧ (h.after host req).Sound := by
  have hvalues : ∀ v ∈ req.values, v.Within h.machine.store.next :=
    fun v hv formals body f hmem => hh.lt_next (hreq.2 v hv _ hmem)
  obtain ⟨hevolves, hvalue⟩ := req.grows hhost hh.grounded hreq.1 hvalues
  refine ⟨hevolves, hevolves.grounded hh.grounded, fun v hv => ?_⟩
  rcases List.mem_append.1 hv with hv | hv
  · exact (hh.results v hv).mono hevolves.next_le
  · unfold given at hv
    split at hv
    · rename_i w ho
      obtain rfl := List.mem_singleton.1 hv
      exact hvalue _ ho v rfl
    · cases hv

theorem Sound.leads (hhost : host.Grows) (hh : h.Sound) (hl : h.Leads host h') :
    h.machine.store.Evolves h'.machine.store ∧ h'.Sound := by
  induction hl with
  | refl => exact ⟨.refl _, hh⟩
  | tail _ hstep ih =>
    obtain ⟨req, hreq, rfl⟩ := hstep
    obtain ⟨hevolves, hsound⟩ := ih.2.after hhost hreq
    exact ⟨ih.1.trans hevolves, hsound⟩

/-- **What holds at all times.**  From a machine with one frame, by any requests, failing
ones among them:

* the frame around a frame is an earlier one, so the chain of a frame ends, and finding a
  symbol and looking it up go through the frame and then through those around it;
* the lambdas in what the machine gave and in what frames bind were created in frames that
  exist; their parameters are symbols, since a lambda form is refused for any others;
* a frame binds a name once;
* and from any store on the way frames keep their place, and the names in a frame stay
  and keep their order, new ones coming after them. -/
theorem store_invariant (hhost : host.Grows) (h₀ : (start tracing).Leads host h)
    (hl : h.Leads host h') :
    let s := h'.machine.store
    (∀ f o, s.outer? f = some o → o < f) ∧
    (∀ f, f < s.next → s.chain f = f :: ((s.outer? f).map s.chain).getD []) ∧
    (∀ f x, s.find? f x = if (s.bindings f).binds x = true then some f
      else (s.outer? f).bind fun o => s.find? o x) ∧
    (∀ f x, s.lookup? f x = ((s.bindings f).get? x).or
      ((s.outer? f).bind fun o => s.lookup? o x)) ∧
    (∀ formals body f, h'.Holds (.lambda formals body f) → f < s.next) ∧
    (∀ params formals, Evaluate.parameters params = .ok formals ↔
      params = .list (formals.map .symbol)) ∧
    (∀ f, (s.bindings f).names.Nodup) ∧
    h.machine.store.Evolves s ∧
    ∀ t, h.machine.store.Evolves t → t.Evolves s →
      (∀ f, f < t.next → s.outer? f = t.outer? f) ∧
      ∀ f, (t.bindings f).names <+: (s.bindings f).names := by
  intro s
  obtain ⟨hevolves, hsound⟩ := ((sound_start tracing).leads hhost h₀).2.leads hhost hl
  have hlt : ∀ {f o}, s.outer? f = some o → o < f := hsound.grounded.outer_lt
  refine ⟨fun _ _ => hlt, fun f => Store.chain_eq hlt, Store.find?_eq hlt, Store.lookup?_eq hlt,
    fun _ _ _ => hsound.lt_next, fun _ _ => Evaluate.parameters_eq_ok_iff,
    hsound.grounded.nodup, hevolves, fun t _ ht => ⟨fun f => ht.outer?_eq, ht.names_prefix⟩⟩

/-- A lambda is made, a frame inside the first one, and the lambda is bound there by an
update that fails at a name that is none: the chain of the frame goes through both, its
binding stays, and the lambda was created in a frame that exists. -/
theorem store_invariant_update :
    let fn : Value := .lambda [⟨"x"⟩] (.symbol ⟨"x"⟩) 0
    let made := (start .off).after .standard
      (.evaluate 2 (.list [.symbol ⟨"lambda"⟩, .list [.symbol ⟨"x"⟩], .symbol ⟨"x"⟩]) 0)
    let h := (made.after .standard (.child 0)).after .standard
      (.update 1 [(.symbol ⟨"f"⟩, fn), (.int 5, .unit), (.symbol ⟨"g"⟩, .unit)])
    let s := h.machine.store
    s.chain 1 = [1, 0] ∧ (s.bindings 1).names = [⟨"f"⟩] ∧ (s.bindings 0).names.Nodup ∧
      h.Holds fn ∧ 0 < s.next := by
  intro fn made h s
  have hmade : (start .off).Leads .standard made := by
    refine .single ⟨.evaluate 2 _ 0, ⟨?_, ?_⟩, rfl⟩
    · exact List.forall_mem_singleton.2 (by decide)
    · exact List.forall_mem_singleton.2 (List.forall_mem_nil _)
  have hchild : made.Leads .standard (made.after .standard (.child 0)) :=
    .single ⟨.child 0, ⟨List.forall_mem_singleton.2 (by decide), List.forall_mem_nil _⟩, rfl⟩
  have hheld : (made.after .standard (.child 0)).Holds fn :=
    .inl ⟨fn, List.mem_singleton_self fn, List.mem_singleton_self fn⟩
  have hupdate : (made.after .standard (.child 0)).Leads .standard h := by
    refine .single ⟨.update 1 _, ⟨List.forall_mem_singleton.2 (by decide), ?_⟩, rfl⟩
    rintro v hv l hl
    obtain rfl | rfl | rfl : v = fn ∨ v = .unit ∨ v = .unit := by simpa [Request.values] using hv
    · obtain rfl := List.mem_singleton.1 hl
      exact hheld
    all_goals cases hl
  obtain ⟨-, hchain, -, -, hlambda, -, hnodup, -⟩ :=
    store_invariant Host.grows_standard hmade (hchild.trans hupdate)
  have hholds : h.Holds fn := .inl ⟨fn, List.mem_singleton_self fn, List.mem_singleton_self fn⟩
  exact ⟨hchain 1 (by decide), rfl, hnodup 0, hholds, hlambda _ _ _ hholds⟩

end History
end Lisplet
