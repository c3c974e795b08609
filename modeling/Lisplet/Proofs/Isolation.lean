/-
# Sessions do not see each other

Any number of sessions may be open on one machine, each with a root frame of its own, and
single expressions are evaluated in the global frame besides.  However their calls are
interleaved, each party gets the answers that it would get if it alone had called, and in
the end its root frame binds the same (`Workspace.run_isolated`).

The two runs create their frames in different orders, so for each party there is a
likeness between the machine that all use and the one that it uses alone
(`Workspace.Apart`).  The frames that stand for a party's own lie apart from those of
all others.  Therefore a call by one party leaves the frames of the others as they are,
and their likenesses only have to be told which frames come next (`Likeness.Rebased`).
-/

import Mathlib.Logic.Function.Basic
import Lisplet.Proofs.ClosedWorld

namespace Lisplet

open Eval Reader

/-- Who calls: one of the sessions, or anyone for the global frame. -/
inductive Party where
  | global
  | session (name : Nat)
  deriving DecidableEq

/-- What may be called. -/
inductive Call where
  /-- Opens a session; an earlier one of that name is not called any more. -/
  | start (name : Nat)
  /-- Evaluates a source text in a session. -/
  | run (name : Nat) (source : String)
  /-- Evaluates the first expression of a source text in the global frame. -/
  | evaluate (source : String)

/-- Who makes a call. -/
def Call.party : Call → Party
  | .start name | .run name _ => .session name
  | .evaluate _ => .global

/-- What is seen of an outcome: the source text of a value, the class and the message of
an error. -/
def seen : Except Error Value → Except (ErrorKind × String) String
  | .ok v => .ok v.source
  | .error err => .error (err.kind, err.message)

/-- A machine and the root frames of the sessions that are open on it. -/
structure Workspace where
  machine : Machine
  roots : Nat → Option FrameId

namespace Workspace

/-- No session is open. -/
def fresh (tracing : Tracing) : Workspace := ⟨Session.fresh tracing, fun _ => none⟩

/-- The frame in which a party evaluates. -/
def root (w : Workspace) : Party → Option FrameId
  | .global => some Session.globalFrame
  | .session name => w.roots name

/-- What a call ends in, if it evaluates something, and what it leaves.  In a session that
is not open nothing is done. -/
def call (host : Host) (depth : Nat) (w : Workspace) :
    Call → Option (Except Error Value) × Workspace
  | .start name =>
    let (root, m) := outcome Session.newRoot w.machine
    (none, ⟨m, Function.update w.roots name root.toOption⟩)
  | .run name source =>
    match w.roots name with
    | none => (none, w)
    | some f =>
      let (r, m) := outcome (Session.run host depth f source) w.machine
      (some r, { w with machine := m })
  | .evaluate source =>
    let (r, m) := outcome (Session.readOne source >>= fun e =>
      Lisplet.evaluate host depth e Session.globalFrame) w.machine
    (some r, { w with machine := m })

/-- What is seen of calls made one after another, each answer with the party that gets
it, and what they leave. -/
def run (host : Host) (depth : Nat) :
    Workspace → List Call → List (Party × Except (ErrorKind × String) String) × Workspace
  | w, [] => ([], w)
  | w, c :: cs =>
    let (r, w₁) := w.call host depth c
    let (rs, w₂) := run host depth w₁ cs
    ((r.map seen).toList.map (c.party, ·) ++ rs, w₂)

variable {host : Host}

theorem run_cons (depth : Nat) (w : Workspace) (c : Call) (calls : List Call) :
    w.run host depth (c :: calls) =
      (((w.call host depth c).1.map seen).toList.map (c.party, ·) ++
        ((w.call host depth c).2.run host depth calls).1,
        ((w.call host depth c).2.run host depth calls).2) := rfl

/-- What the root frame of a party binds: names in order with the source texts of their
values. -/
def rootText (w : Workspace) (p : Party) : Option (List (String × String)) :=
  (w.root p).map fun f =>
    (w.machine.store.bindings f).entries.map fun entry => (entry.1.name, entry.2.source)

/-- A session that is opened gets the next frame as its root. -/
theorem root_start (depth : Nat) (w : Workspace) (name : Nat) (p : Party) :
    (w.call host depth (.start name)).2.root p =
      if p = .session name then some w.machine.store.next else w.root p := by
  cases p with
  | global => rfl
  | session other =>
    by_cases h : other = name
    · subst h
      rw [if_pos rfl]
      exact Function.update_self ..
    · rw [if_neg (mt Party.session.inj h)]
      exact Function.update_of_ne h ..

/-! ### Parties that lie apart -/

/-- The likeness of trees under which given frames stand for each other. -/
abbrev trees (frame : FrameId → FrameId → Prop) : Likeness := .ofTrees (fun _ => True) frame

/-- Each party sees the machine that all use as the one that it uses alone, and no frame
that exists belongs to two parties. -/
structure Apart (frame : Party → FrameId → FrameId → Prop) (w : Workspace)
    (alone : Party → Workspace) : Prop where
  /-- For each party, a frame stands for one frame. -/
  unique : ∀ p {f f' g g'}, frame p f g → frame p f' g' → (f = f' ↔ g = g')
  /-- The machines are alike. -/
  machines : ∀ p, (trees (frame p)).Machines w.machine (alone p).machine
  /-- The root frames stand for each other. -/
  root : ∀ p, Option.Rel (fun f g => frame p f g ∧ f < w.machine.store.next) (w.root p)
    ((alone p).root p)
  /-- The parties share no frame. -/
  disjoint : ∀ {p q f g g'}, frame p f g → frame q f g' → f < w.machine.store.next → p = q

variable {frame : Party → FrameId → FrameId → Prop} {w w' v : Workspace}
  {alone : Party → Workspace} {p : Party}

theorem Apart.lawful (h : Apart frame w alone) (p : Party) : (trees (frame p)).Lawful :=
  Likeness.lawful_ofTrees (fun _ _ _ => trivial) (h.unique p)

/-- The frames that stand for each other once one party has called. -/
def rebased (frame : Party → FrameId → FrameId → Prop) (w w' : Workspace)
    (alone : Party → Workspace) (p q : Party) : FrameId → FrameId → Prop :=
  if q = p then frame p
  else (trees (frame q)).Rebased w.machine.store w'.machine.store (alone q).machine.store

theorem rebased_self : rebased frame w w' alone p p = frame p := if_pos rfl

theorem rebased_of_ne {q : Party} (hq : q ≠ p) : rebased frame w w' alone p q =
    (trees (frame q)).Rebased w.machine.store w'.machine.store (alone q).machine.store :=
  if_neg hq

/-- The frames of a party stand for the same ones as before the call, and those of a party
that did not call existed by then. -/
theorem of_rebased {q : Party} {f g : FrameId} (h : rebased frame w w' alone p q f g)
    (hf : f < w'.machine.store.next) :
    frame q f g ∧ (q ≠ p → f < w.machine.store.next) := by
  by_cases hq : q = p
  · rw [hq, rebased_self] at h
    exact ⟨hq ▸ h, absurd hq⟩
  · rw [rebased_of_ne hq] at h
    obtain ⟨hfg, hlt⟩ := h.of_lt hf
    exact ⟨hfg, fun _ => hlt⟩

/-- After a party called, all lie apart if the machines and the roots of that party are
alike and neither frames nor roots of the others were changed. -/
theorem Apart.update (h : Apart frame w alone)
    (hmachines : (trees (frame p)).Machines w'.machine v.machine)
    (hkept : (trees (frame p)).Kept w.machine w'.machine)
    (hroot : Option.Rel (fun f g => frame p f g ∧ f < w'.machine.store.next) (w'.root p) (v.root p))
    (hroots : ∀ q, q ≠ p → w'.root q = w.root q) :
    Apart (rebased frame w w' alone p) w' (Function.update alone p v) where
  unique q := by
    by_cases hq : q = p
    · rw [hq, rebased_self]
      exact h.unique p
    · rw [rebased_of_ne hq]
      exact Likeness.Rebased.unique (h.lawful q) (h.machines q).stores hkept.next_le
  machines q := by
    by_cases hq : q = p
    · rwa [hq, rebased_self, Function.update_self]
    · rw [rebased_of_ne hq, Function.update_of_ne hq]
      -- what belongs to `q` does not belong to `p`, which called
      have hsame : ∀ {f g}, frame q f g → f < w.machine.store.next →
          w'.machine.store.frame? f = w.machine.store.frame? f := fun hfg hf =>
        hkept.frame? _ hf fun g' hfg' => hq (h.disjoint hfg hfg' hf)
      exact ⟨(h.machines q).stores.rebase hkept.next_le hsame,
        hkept.tracing.trans (h.machines q).tracing⟩
  root q := by
    by_cases hq : q = p
    · rwa [hq, rebased_self, Function.update_self]
    · rw [rebased_of_ne hq, Function.update_of_ne hq, hroots q hq]
      exact (h.root q).imp fun _ _ hfg =>
        ⟨.old hfg.1 hfg.2, Nat.lt_of_lt_of_le hfg.2 hkept.next_le⟩
  disjoint {q q' f g g'} hfg hfg' hf := by
    obtain ⟨hfg, hold⟩ := of_rebased hfg hf
    obtain ⟨hfg', hold'⟩ := of_rebased hfg' hf
    by_cases hq : q = p
    · by_cases hq' : q' = p
      · rw [hq, hq']
      · exact h.disjoint hfg hfg' (hold' hq')
    · exact h.disjoint hfg hfg' (hold hq)

/-- Root frames that stand for each other are seen to bind the same. -/
theorem Apart.rootText_eq (h : Apart frame w alone) (p : Party) :
    w.rootText p = (alone p).rootText p := by
  have hroot := h.root p
  have hstores := (h.machines p).stores
  rw [rootText, rootText]
  generalize w.root p = f at hroot ⊢
  generalize (alone p).root p = g at hroot ⊢
  cases hroot with
  | none => rfl
  | @some f g hfg =>
    have hentries : List.Forall₂
        (fun a b => a.1 = b.1 ∧ (trees (frame p)).Values w.machine.store.next a.2 b.2)
        (w.machine.store.bindings f).entries ((alone p).machine.store.bindings g).entries := by
      simpa [Likeness.Entries, Likeness.ofTrees] using hstores.entries hfg.1
    refine congrArg some ?_
    rw [← List.forall₂_eq_eq_eq, List.forall₂_map_left_iff, List.forall₂_map_right_iff]
    exact hentries.imp fun a b hab =>
      Prod.ext (congrArg Symbol.name hab.1) (hab.2.render_eq .source)

/-! ### Calls -/

/-- What is seen of results that are alike is the same. -/
theorem seen_eq {L : Likeness} {n : Nat} {r r' : Except Error Value}
    (h : L.Results n (L.Values n) r r') : seen r = seen r' := by
  cases h with
  | ok h => exact congrArg Except.ok (h.render_eq .source)
  | error h => rw [seen, seen, h.kind_eq, h.message_eq]

/-- Evaluations that agree leave the parties apart, and the same is seen of them. -/
theorem Apart.eval (h : Apart frame w alone) {x y : Eval Value}
    (hxy : (trees (frame p)).Agree w.machine.store.next (trees (frame p)).Values x y) :
    (∃ frame', Apart frame' { w with machine := (outcome x w.machine).2 }
      (Function.update alone p
        { alone p with machine := (outcome y (alone p).machine).2 })) ∧
    seen (outcome x w.machine).1 = seen (outcome y (alone p).machine).1 := by
  have hend := hxy _ _ (Nat.le_refl _) (h.machines p)
  refine ⟨⟨_, h.update hend.machines hend.kept ?_ fun _ _ => rfl⟩, seen_eq hend.results⟩
  exact (h.root p).imp fun _ _ hfg => ⟨hfg.1, Nat.lt_of_lt_of_le hfg.2 hend.kept.next_le⟩

/-- A call leaves the parties apart, and the one that calls sees what it would see alone. -/
theorem Apart.call (h : Apart frame w alone) (depth : Nat) {c : Call} (hc : c.party = p) :
    (∃ frame', Apart frame' (w.call host depth c).2
      (Function.update alone p ((alone p).call host depth c).2)) ∧
    (w.call host depth c).1.map seen = ((alone p).call host depth c).1.map seen := by
  have hL := h.lawful p
  have hroot := h.root p
  cases c with
  | start name =>
    obtain rfl : .session name = p := hc
    have hend := Likeness.Agree.newRoot hL _ _ (Nat.le_refl _) (h.machines (.session name))
    refine ⟨⟨_, h.update hend.machines hend.kept ?_ fun q hq => ?_⟩, rfl⟩
    · rw [root_start, root_start, if_pos rfl, if_pos rfl]
      cases hend.results with
      | ok hfg => exact .some hfg
    · rw [root_start, if_neg hq]
  | run name source =>
    obtain rfl : .session name = p := hc
    change Option.Rel _ (w.roots name) ((alone (.session name)).roots name) at hroot
    rw [Workspace.call, Workspace.call]
    generalize w.roots name = f at hroot ⊢
    generalize (alone (.session name)).roots name = g at hroot ⊢
    cases hroot with
    | none =>
      rw [Function.update_eq_self]
      exact ⟨⟨frame, h⟩, rfl⟩
    | some hfg =>
      have hforms : ∀ forms, (readAll (tokenize source)).1 = .ok forms →
          ∀ e ∈ forms, e.isTree = true ∧ True := fun forms hread e he =>
        ⟨Value.areTrees_iff.1 (readAll_eq_ok_iff.1 hread).areTrees e he, trivial⟩
      obtain ⟨happart, hseen⟩ := h.eval (hL.run host depth hforms hfg.1 hfg.2)
      exact ⟨happart, congrArg some hseen⟩
  | evaluate source =>
    obtain rfl : .global = p := hc
    obtain ⟨hframe, hlt⟩ : frame .global 0 0 ∧ 0 < w.machine.store.next := by
      cases hroot with
      | some h => exact h
    rw [Workspace.call, Workspace.call]
    have hform : ∀ e, (readExpr (tokenize source)).1 = .ok e → e.isTree = true ∧ True :=
      fun e hread => ⟨isTree_of_readExpr hread, trivial⟩
    obtain ⟨happart, hseen⟩ := h.eval (hL.readEvaluate host depth hform hframe hlt)
    exact ⟨happart, congrArg some hseen⟩

/-- Answers that one party gets are its own or none of another one. -/
theorem filter_tagged (q p : Party) (answers : List α) :
    (answers.map (q, ·)).filter (fun answer => answer.1 = p) =
      if q = p then answers.map (q, ·) else [] := by
  split
  · exact List.filter_eq_self.2 (by simp [*])
  · exact List.filter_eq_nil_iff.2 (by simp [*])

/-- What is seen of the calls of one party is what it sees if it calls alone. -/
theorem Apart.run (depth : Nat) (calls : List Call) :
    ∀ {frame w alone}, Apart frame w alone → (∃ frame', Apart frame' (w.run host depth calls).2
      fun p => ((alone p).run host depth (calls.filter fun c => c.party = p)).2) ∧
    ∀ p, ((w.run host depth calls).1.filter fun answer => answer.1 = p) =
      ((alone p).run host depth (calls.filter fun c => c.party = p)).1 := by
  induction calls with
  | nil => exact fun h => ⟨⟨_, h⟩, fun _ => rfl⟩
  | cons c calls ih =>
    intro frame w alone h
    obtain ⟨⟨frame₁, h₁⟩, hseen⟩ := h.call depth (c := c) rfl
    obtain ⟨⟨frame₂, h₂⟩, hothers⟩ := ih h₁
    have halone (p : Party) : (alone p).run host depth ((c :: calls).filter fun c => c.party = p) =
        let others := (Function.update alone c.party ((alone c.party).call host depth c).2 p).run
          host depth (calls.filter fun c => c.party = p)
        ((((w.call host depth c).1.map seen).toList.map (c.party, ·)).filter
          (fun answer => answer.1 = p) ++ others.1, others.2) := by
      by_cases hp : c.party = p
      · subst hp
        rw [List.filter_cons_of_pos (by simp), run_cons, Function.update_self, filter_tagged,
          if_pos rfl, hseen]
      · rw [List.filter_cons_of_neg (by simpa using hp), Function.update_of_ne (Ne.symm hp),
          filter_tagged, if_neg hp]
        rfl
    refine ⟨⟨frame₂, ?_⟩, fun p => ?_⟩
    · simpa only [run_cons, halone] using h₂
    · rw [run_cons, List.filter_append, hothers p, halone]

/-- At the beginning all parties see the same machine, and the global frame belongs to
none of the sessions. -/
theorem apart_fresh (tracing : Tracing) :
    ∃ frame, Apart frame (fresh tracing) fun _ => fresh tracing := by
  -- all frames that do not exist yet stand for themselves for every party
  set own : Party → FrameId → FrameId → Prop := fun p f g => f = g ∧ (p = .global ∨ 1 ≤ f)
  have hunique (p : Party) {f f' g g'} (h : own p f g) (h' : own p f' g') : f = f' ↔ g = g' := by
    rw [h.1, h'.1]
  have hlt : 0 < (fresh tracing).machine.store.next := Nat.lt_succ_self 0
  refine ⟨own, hunique, fun p => ⟨?_, rfl⟩, fun p => ?_, ?_⟩
  · cases p with
    | global =>
      have hL := Likeness.lawful_ofTrees (E := fun _ => True) (fun _ _ _ => trivial)
        (hunique .global)
      have hempty : (trees (own .global)).Stores .empty .empty :=
        .of_le (fun i => ⟨rfl, .inl rfl⟩) fun _ => ⟨Nat.zero_le _, Nat.zero_le _⟩
      exact hempty.push hL (.of_plain Likeness.isPlain_of_mem_initial) .none
    | session name =>
      refine .of_le (fun i => ⟨rfl, .inr (Nat.le_add_right 1 i)⟩) ?_
      rintro f _ ⟨rfl, hf⟩
      have hf : 1 ≤ f := hf.resolve_left nofun
      exact ⟨hf, hf⟩
  · cases p with
    | global => exact .some ⟨⟨rfl, .inl rfl⟩, hlt⟩
    | session name => exact .none
  · rintro p q f _ _ ⟨rfl, hp⟩ ⟨-, hq⟩ (hf : f < 1)
    rw [hp.resolve_right (Nat.not_le.2 hf), hq.resolve_right (Nat.not_le.2 hf)]

/-- **Sessions do not see each other.**  However calls of sessions and evaluations in the
global frame are interleaved, each party gets the answers that it gets if it calls alone,
and its root frame comes to bind the same names, in the same order, to values with the
same source texts. -/
theorem run_isolated (host : Host) (tracing : Tracing) (depth : Nat) (calls : List Call)
    (p : Party) :
    let together := (fresh tracing).run host depth calls
    let alone := (fresh tracing).run host depth (calls.filter fun c => c.party = p)
    (together.1.filter fun answer => answer.1 = p) = alone.1 ∧
      together.2.rootText p = alone.2.rootText p := by
  obtain ⟨frame, h⟩ := apart_fresh tracing
  obtain ⟨⟨frame', h'⟩, hseen⟩ := h.run depth calls
  exact ⟨hseen p, h'.rootText_eq p⟩

example : ((fresh .off).run .standard 2 [.start 0, .start 1, .run 0 "(define here +)",
    .run 1 "here", .run 0 "here", .evaluate "here"]).1 =
    [(.session 0, .ok "#<unit>"), (.session 1, .error (.unbound, "Unbound symbol: here")),
      (.session 0, .ok "#<builtin add>"), (.global, .error (.unbound, "Unbound symbol: here"))] :=
  by decide +kernel

end Workspace
end Lisplet
