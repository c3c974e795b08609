/-
# Expressions without definitions commute

An expression without definitions outside of lambda forms changes no frame that is there
(`evaluate_keeps`).  So it does not matter to an expression whether such another one was
evaluated before it: it has the same outcome, up to the numbers of the frames that it
makes, and the frames that it makes are the same (`evaluate_later`).  Therefore two such
expressions may be evaluated in either order, and one of them any number of times
(`evaluate_commute`).
-/

import Lisplet.Proofs.Growth
import Lisplet.Proofs.SameCode
import Lisplet.Proofs.WriteSet

namespace Lisplet

open Eval Value

/-! ### Stores that keep their frames -/

/-- The second store has the frames of the first one as they are, and others besides. -/
structure Store.Keeps (s t : Store) : Prop where
  next_le : s.next ≤ t.next
  frame? : ∀ f, f < s.next → t.frame? f = s.frame? f

namespace Store.Keeps

variable {s t : Store} {f : FrameId}

theorem bindings (h : s.Keeps t) (hf : f < s.next) : t.bindings f = s.bindings f := by
  rw [Store.bindings, Store.bindings, h.frame? f hf]

theorem outer? (h : s.Keeps t) (hf : f < s.next) : t.outer? f = s.outer? f := by
  rw [Store.outer?, Store.outer?, h.frame? f hf]

end Store.Keeps

namespace Store.FrameSameUpTo

variable {φ : FrameId → FrameId → Prop} {s s' t t' : Store} {f g : FrameId}

/-- Frames that are kept are the same as what they were the same as before. -/
theorem keeps_left (h : s.FrameSameUpTo φ f t g) (hs : s.Keeps s') (hf : f < s.next) :
    s'.FrameSameUpTo φ f t g := by
  obtain ⟨hget, houter⟩ := h
  rw [← hs.bindings hf] at hget
  rw [← hs.outer? hf] at houter
  exact ⟨hget, houter⟩

theorem keeps_right (h : s.FrameSameUpTo φ f t g) (ht : t.Keeps t') (hg : g < t.next) :
    s.FrameSameUpTo φ f t' g := by
  obtain ⟨hget, houter⟩ := h
  rw [← ht.bindings hg] at hget
  rw [← ht.outer? hg] at houter
  exact ⟨hget, houter⟩

end Store.FrameSameUpTo

theorem Shifted.lt_left {n q k f g : Nat} (h : Shifted n n q k f g) : f < n + k := by
  rcases h with ⟨-, hf⟩ | ⟨i, hi, rfl, -⟩ <;> omega

section

variable {host : Host} {m n : Machine} {e : Value} {f : FrameId}

/-- What an evaluation without definitions leaves: the frames are kept, and all is in
order. -/
theorem evaluate_keeps (hs : m.store.Grounded) (hfree : m.store.All HostFree) (he : e.HostFree)
    (hwithin : e.Within m.store.next) (htargets : e.targets = []) (hf : f < m.store.next)
    (depth : Nat) :
    m.store.Keeps (outcome (evaluate host depth e f) m).2.store ∧
      (outcome (evaluate host depth e f) m).2.store.Grounded ∧
      (outcome (evaluate host depth e f) m).2.store.All HostFree ∧
      (outcome (evaluate host depth e f) m).2.tracing = m.tracing := by
  -- no function of the host is called, so the one without functions does as well
  rw [evaluate_of_hostFree host .none he hfree]
  obtain ⟨h, htracing⟩ := evaluate_follows_of_hostFree .none he hfree depth f
  have hwrites := h.writes he hfree
  rw [htargets] at hwrites
  have hready : m.store.Ready f [e] := ⟨hs, hf, List.forall_mem_singleton.2 hwithin⟩
  exact ⟨⟨hwrites.next_le, fun g hg => hwrites.frame?_of_nil hg⟩,
    (Host.grows_none.evaluate depth e f m hready).evolves.grounded hs,
    (h.keeps closed_hostFree he hfree).2, htracing⟩

/-- What is evaluated of expressions without host functions has none. -/
theorem admits_hostFree (base : Nat) :
    Simulation.Admits (fun e => e.HostFree ∧ e.Within base) (fun _ => True) base := by
  have hitems : ∀ {es : List Value}, (list es).HostFree ∧ (list es).Within base →
      ∀ e ∈ es, e.HostFree ∧ e.Within base := fun h e he =>
    ⟨areHostFree_iff.1 h.1 e he, within_list.1 h.2 e he⟩
  exact {
    symbol := fun _ => trivial
    constant := by
      rintro e ⟨he, hwithin⟩ hconst
      match e, he, hconst with
      | .lambda formals body f, he, _ =>
        obtain ⟨hf, hbody⟩ := within_lambda.1 hwithin
        exact .inr ⟨formals, body, f, rfl, hf, fun _ _ => trivial, he, hbody⟩
      | .number _, _, _ | .bool _, _, _ | .text _, _, _ | .null, _, _ => exact .inl rfl
      | .unit, _, _ | .function (.operator _), _, _ => exact .inl rfl
    hostList := id
    sequence := fun h e he => hitems h e (List.mem_cons_of_mem _ he)
    conditional := fun h e he => hitems h e (List.mem_cons_of_mem _ he)
    definition := fun h => ⟨trivial, hitems h _ (by simp)⟩
    abstraction := fun h => ⟨fun _ _ => trivial, hitems h _ (by simp)⟩
    combination := fun _ h => hitems h }

/-- The runs of one expression in a store and in a later one. -/
abbrev Simulation.later (base right : Nat) : Simulation Unit :=
  sameCode (fun e => e.HostFree ∧ e.Within base) (fun _ => True) base base right

/-- A value without host functions goes with itself. -/
theorem Simulation.Values.of_hostFree {base right : Nat} {v : Value} (hv : v.HostFree)
    (hwithin : v.Within base) : (later base right).Values [] v v := by
  refine .self (k := ()) (by rintro _ rfl; cases hv) ?_
  rintro formals body f rfl
  obtain ⟨hf, hbody⟩ := within_lambda.1 hwithin
  exact ⟨frames_nil.2 ⟨rfl, rfl, hf⟩,
    sameCode_abstracts.2 ⟨rfl, rfl, fun _ _ => trivial, hv, hbody⟩⟩

/-- A store goes with a later one that keeps its frames. -/
theorem Simulation.Stores.of_keeps {s t : Store} (hs : s.Grounded) (hfree : s.All HostFree)
    (ht : t.Grounded) (h : s.Keeps t) : (later s.next t.next).Stores [] s t := by
  refine .start rfl rfl hs.outer_lt ht.outer_lt (fun f hf => ?_) fun f hf => h.outer? hf
  rintro y _ ⟨rfl, -⟩
  rw [h.bindings hf]
  cases hget : (s.bindings f).get? y with
  | none => exact .none
  | some v => exact .some (.of_hostFree (hfree f y v hget) (hs.within f y v hget))

/-- **What was evaluated before makes no difference.**  An expression has the same outcome
in a store and in a later one that keeps its frames, and makes the same frames, the first
of them being the next one of each store. -/
theorem evaluate_later (hs : m.store.Grounded) (hfree : m.store.All HostFree) (he : e.HostFree)
    (hwithin : e.Within m.store.next) (hf : f < m.store.next) (hn : n.store.Grounded)
    (hkeeps : m.store.Keeps n.store) (htracing : m.tracing = n.tracing) (depth : Nat) :
    ∃ k, (outcome (evaluate host depth e f) m).2.store.next = m.store.next + k ∧
      (outcome (evaluate host depth e f) n).2.store.next = n.store.next + k ∧
      Outcome.SameUpTo (Shifted m.store.next m.store.next n.store.next k)
        (outcome (evaluate host depth e f) m).1 (outcome (evaluate host depth e f) n).1 ∧
      (outcome (evaluate host depth e f) m).2.store.SameUpTo
        (Shifted m.store.next m.store.next n.store.next k)
        (outcome (evaluate host depth e f) n).2.store := by
  have hlawful := (admits_hostFree m.store.next).lawful (Nat.le_refl _) hkeeps.next_le
  have hmachines : (Simulation.later m.store.next n.store.next).Machines [] m n :=
    ⟨.of_keeps hs hfree hn hkeeps, htracing⟩
  obtain ⟨made, -, hresults, hmachines'⟩ := hlawful.evaluate depth
    (Simulation.sameCode_frames.2 (.inl ⟨rfl, hf⟩)) ⟨rfl, he, hwithin⟩ m n hmachines
  exact ⟨made.length, hmachines'.stores.next_left, hmachines'.stores.next_right,
    Simulation.sameCode_results hresults, Simulation.sameCode_stores hmachines'.stores⟩

end

/-! ### Two orders -/

/-- If one expression makes `j` frames and another one `k`, then the frames of the first
one have the numbers from `n` on if it comes first, and else those behind the frames of the
other one; and the same the other way round. -/
def Swapped (n j k f g : Nat) : Prop :=
  Shifted n n (n + k) j f g ∨ Shifted n n (n + j) k g f

namespace Swapped

variable {n j k f f' g g' : Nat}

/-- A frame stands for one frame. -/
theorem unique (h : Swapped n j k f g) (h' : Swapped n j k f' g') : f = f' ↔ g = g' := by
  rcases h with (⟨rfl, h⟩ | ⟨i, hi, rfl, rfl⟩) | (⟨rfl, h⟩ | ⟨i, hi, rfl, rfl⟩) <;>
    rcases h' with (⟨rfl, h'⟩ | ⟨i', hi', rfl, rfl⟩) | (⟨rfl, h'⟩ | ⟨i', hi', rfl, rfl⟩) <;> omega

/-- Every frame stands for one. -/
theorem exists_of_lt (hf : f < n + j + k) : ∃ g, g < n + k + j ∧ Swapped n j k f g := by
  rcases Nat.lt_or_ge f n with h | h
  · exact ⟨f, by omega, .inl (.inl ⟨rfl, h⟩)⟩
  · obtain ⟨i, rfl⟩ := Nat.exists_eq_add_of_le h
    rcases Nat.lt_or_ge i j with hi | hi
    · exact ⟨n + k + i, by omega, .inl (.inr ⟨i, hi, rfl, rfl⟩)⟩
    · obtain ⟨l, rfl⟩ := Nat.exists_eq_add_of_le hi
      exact ⟨n + l, by omega, .inr (.inr ⟨l, by omega, rfl, by omega⟩)⟩

end Swapped

/-- **Expressions without definitions commute and repeat.**  Let two expressions hold no
definition outside of lambda forms.  Whether the one is evaluated before the other or
behind it, each of them has the same outcome: the same value, a lambda with the same
parameters and body in a corresponding frame, or an error of the same class with the same
message.  The stores in the end have the same frames but for their numbers: those that were
there are their own counterparts, those that were made stand for each other one by one, with
bindings and outer frames that correspond.  Evaluated once more, an expression has the
outcome of the first time and makes the same frames again. -/
theorem evaluate_commute {host : Host} {m : Machine} {a b : Value} {f g : FrameId}
    (hs : m.store.Grounded) (hfree : m.store.All HostFree) (ha : a.HostFree) (hb : b.HostFree)
    (hawithin : a.Within m.store.next) (hbwithin : b.Within m.store.next)
    (hatargets : a.targets = []) (hbtargets : b.targets = []) (hf : f < m.store.next)
    (hg : g < m.store.next) (depth depth' : Nat) :
    let a₁ := outcome (evaluate host depth a f) m
    let b₁ := outcome (evaluate host depth' b g) m
    let b₂ := outcome (evaluate host depth' b g) a₁.2
    let a₂ := outcome (evaluate host depth a f) b₁.2
    let a₃ := outcome (evaluate host depth a f) a₁.2
    ∃ n j k, n = m.store.next ∧ b₂.2.store.next = n + j + k ∧ a₂.2.store.next = n + k + j ∧
      (∀ h, h < n + j + k → ∃ h', h' < n + k + j ∧ Swapped n j k h h') ∧
      (∀ h h' i i', Swapped n j k h i → Swapped n j k h' i' → (h = h' ↔ i = i')) ∧
      Outcome.SameUpTo (Swapped n j k) a₁.1 a₂.1 ∧ Outcome.SameUpTo (Swapped n j k) b₂.1 b₁.1 ∧
      b₂.2.store.SameUpTo (Swapped n j k) a₂.2.store ∧
      Outcome.SameUpTo (Shifted n n (n + j) j) a₁.1 a₃.1 ∧
      a₁.2.store.SameUpTo (Shifted n n (n + j) j) a₃.2.store := by
  intro a₁ b₁ b₂ a₂ a₃
  obtain ⟨hkeepsa, hma, hfreea, hta⟩ := evaluate_keeps hs hfree ha hawithin hatargets hf depth
  obtain ⟨hkeepsb, hmb, hfreeb, htb⟩ := evaluate_keeps hs hfree hb hbwithin hbtargets hg depth'
  obtain ⟨j, hj, hj', hra, hsa⟩ :=
    evaluate_later hs hfree ha hawithin hf hmb hkeepsb htb.symm depth
  obtain ⟨k, hk, hk', hrb, hsb⟩ :=
    evaluate_later hs hfree hb hbwithin hg hma hkeepsa hta.symm depth'
  obtain ⟨j', hj'', -, hraa, hsaa⟩ :=
    evaluate_later hs hfree ha hawithin hf hma hkeepsa hta.symm depth
  obtain rfl : j = j' := Nat.add_left_cancel (hj.symm.trans hj'')
  -- each expression keeps the frames that the other one made before it
  obtain ⟨hkeepsab, -⟩ := evaluate_keeps hma hfreea hb (hbwithin.mono hkeepsa.next_le) hbtargets
    (Nat.lt_of_lt_of_le hg hkeepsa.next_le) depth'
  obtain ⟨hkeepsba, -⟩ := evaluate_keeps hmb hfreeb ha (hawithin.mono hkeepsb.next_le) hatargets
    (Nat.lt_of_lt_of_le hf hkeepsb.next_le) depth
  rw [hj] at hk' hraa hsaa hrb hsb
  rw [hk] at hj' hra hsa
  have hmade : ∀ h h', Shifted m.store.next m.store.next (m.store.next + k) j h h' →
      Swapped m.store.next j k h h' := fun _ _ => .inl
  have hmade' : ∀ h h', Shifted m.store.next m.store.next (m.store.next + j) k h' h →
      Swapped m.store.next j k h h' := fun _ _ => .inr
  refine ⟨_, j, k, rfl, hk', hj', fun h => Swapped.exists_of_lt, fun _ _ _ _ => Swapped.unique,
    hra.imp hmade, hrb.symm.imp hmade', ?_, hraa, hsaa⟩
  rintro h h' (hh | hh)
  · exact ((hsa h h' hh).imp hmade).keeps_left hkeepsab (hj ▸ hh.lt_left)
  · exact ((hsb h' h hh).symm.imp hmade').keeps_right hkeepsba (hk ▸ hh.lt_left)

/-- `(f 5)`, where `f` makes a lambda, and the call of a lambda whose body is
`(begin (define y x) y)`: the lambda of the first one is made in the frame 1 if it comes
first and in the frame 2 if not, and these stand for each other. -/
theorem evaluate_commute_lambda :
    let fn : Value := .lambda [⟨"x"⟩]
      (.list [.symbol ⟨"lambda"⟩, .list [.symbol ⟨"y"⟩], .symbol ⟨"x"⟩]) 0
    let a : Value := .list [.symbol ⟨"f"⟩, .int 5]
    let b : Value := .list [.list [.symbol ⟨"lambda"⟩, .list [.symbol ⟨"x"⟩],
      .list [.symbol ⟨"begin"⟩, .list [.symbol ⟨"define"⟩, .symbol ⟨"y"⟩, .symbol ⟨"x"⟩],
        .symbol ⟨"y"⟩]], .int 7]
    let m : Machine := ⟨(Store.empty.push ⟨.empty, none⟩).define 0 ⟨"f"⟩ fn, .off, #[]⟩
    let a₁ := outcome (evaluate Host.standard 5 a 0) m
    let b₁ := outcome (evaluate Host.standard 5 b 0) m
    let a₂ := outcome (evaluate Host.standard 5 a 0) b₁.2
    a₁.1 = .ok (.lambda [⟨"y"⟩] (.symbol ⟨"x"⟩) 1) ∧ b₁.1 = .ok (.int 7) ∧
      a₂.1 = .ok (.lambda [⟨"y"⟩] (.symbol ⟨"x"⟩) 2) ∧
      ∃ n j k, n = 1 ∧ Outcome.SameUpTo (Swapped n j k) a₁.1 a₂.1 := by
  intro fn a b m a₁ b₁ a₂
  have hframe : Store.Write Store.empty (Store.empty.push ⟨Bindings.empty.insertAll [], none⟩) :=
    .frame (by rintro _ ⟨⟩) (List.forall_mem_nil _)
  have hfn : fn.Within (Store.empty.push ⟨.empty, none⟩).next :=
    within_lambda.2 ⟨by decide, within_of_isTree rfl⟩
  have hs : m.store.Grounded :=
    (Store.Write.bind 0 ⟨"f"⟩ hfn).grounded (hframe.grounded Store.grounded_empty)
  have hempty : Store.empty.All HostFree := fun _ _ _ h => nomatch h
  have hfree : m.store.All HostFree := by
    have hpush := @Store.All.push _ _ hempty [] [] (List.forall_mem_nil _) none
    exact hpush.define (show fn.HostFree from rfl) 0 ⟨"f"⟩
  obtain ⟨n, j, k, rfl, -, -, -, -, hsame, -⟩ := evaluate_commute (f := 0) (g := 0) hs hfree
    (a := a) (b := b) rfl rfl (within_of_closures_eq_nil rfl) (within_of_closures_eq_nil rfl)
    rfl rfl (by decide) (by decide) 5 5
  exact ⟨rfl, rfl, rfl, _, j, k, rfl, hsame⟩

end Lisplet
