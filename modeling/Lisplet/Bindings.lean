/-
# Bindings

The bindings of one frame: symbols with their values, in the order in which the
symbols were first bound.  Binding a symbol again keeps its place.
-/

import Lisplet.Value

namespace Lisplet

/-- Symbols with their values, in the order of first binding. -/
structure Bindings where
  /-- The bindings, the earliest first. -/
  entries : List (Symbol × Value)

namespace Bindings

/-- No bindings. -/
def empty : Bindings := ⟨[]⟩

/-- The value that a symbol is bound to. -/
def get? (b : Bindings) (x : Symbol) : Option Value :=
  (b.entries.find? fun entry => decide (entry.1 = x)).map Prod.snd

/-- Whether a symbol is bound. -/
def binds (b : Bindings) (x : Symbol) : Bool := (b.get? x).isSome

/-- The bound symbols, in the order of first binding. -/
def names (b : Bindings) : List Symbol := b.entries.map Prod.fst

/-- The values of the bound symbols, in the order of first binding. -/
def values (b : Bindings) : List Value := b.entries.map Prod.snd

/-- Entries with a symbol bound to a value: in its place if the symbol is bound
there already, at the end if not. -/
def insertEntry (x : Symbol) (v : Value) : List (Symbol × Value) → List (Symbol × Value)
  | [] => [(x, v)]
  | entry :: rest => if entry.1 = x then (x, v) :: rest else entry :: insertEntry x v rest

/-- The bindings with a symbol bound to a value. -/
def insert (b : Bindings) (x : Symbol) (v : Value) : Bindings := ⟨insertEntry x v b.entries⟩

/-- The bindings with those of a row of pairs added one after another. -/
def insertAll (b : Bindings) (pairs : List (Symbol × Value)) : Bindings :=
  pairs.foldl (fun b pair => b.insert pair.1 pair.2) b

@[simp] theorem get?_empty (x : Symbol) : empty.get? x = none := rfl

/-- After a binding its symbol has the new value and all others what they had. -/
theorem get?_insert (b : Bindings) (x y : Symbol) (v : Value) :
    (b.insert x v).get? y = if y = x then some v else b.get? y := by
  obtain ⟨entries⟩ := b
  simp only [get?, insert]
  induction entries with
  | nil => by_cases h : x = y <;> simp [insertEntry, h, eq_comm]
  | cons entry rest ih =>
    simp only [insertEntry]
    by_cases hx : entry.1 = x
    · subst hx
      by_cases h : entry.1 = y
      · simp [h]
      · simp [h, Ne.symm h]
    · rw [if_neg hx]
      by_cases hy : entry.1 = y
      · subst hy
        simp [hx]
      · simpa [hy] using ih

/-- A binding adds its symbol at the end, unless it is bound already. -/
theorem names_insert (b : Bindings) (x : Symbol) (v : Value) :
    (b.insert x v).names = if x ∈ b.names then b.names else b.names ++ [x] := by
  obtain ⟨entries⟩ := b
  simp only [names, insert]
  induction entries with
  | nil => simp [insertEntry]
  | cons entry rest ih =>
    by_cases hx : entry.1 = x
    · simp [insertEntry, hx]
    · rw [insertEntry, if_neg hx, List.map_cons, ih]
      by_cases hmem : x ∈ rest.map Prod.fst
      · simp [hmem]
      · simp [hmem, Ne.symm hx]

end Bindings
end Lisplet
