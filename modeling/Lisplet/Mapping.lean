/-
# Mappings

A mapping is a row of pairs in which every key stands once.  Pairs are put into it
one by one: a key that is equal to an earlier one keeps the place of the earlier
one and gives it its value.  Lists cannot be keys, nor can tuples that hold them and
sequences of some other classes, and the first pair with such a key ends the building.
-/

import Lisplet.Error

namespace Lisplet

mutual

/-- Whether a value can be the key of a mapping. -/
def Value.isKey : Value → Bool
  | .list _ => false
  | .hostList .tuple items => Value.areKeys items
  | .hostList (.other _ hashable _) _ => hashable
  | _ => true

/-- Whether all values of a row can be keys. -/
def Value.areKeys : List Value → Bool
  | [] => true
  | v :: rest => v.isKey && Value.areKeys rest

end

namespace Mapping

/-- A mapping with a value put under a key. -/
def put (key v : Value) : List (Value × Value) → List (Value × Value)
  | [] => [(key, v)]
  | entry :: rest => if entry.1.equal key then (entry.1, v) :: rest else entry :: put key v rest

/-- A mapping with a value put under a key, if the key can be one. -/
def insert (mapping : List (Value × Value)) (key v : Value) :
    Except Error (List (Value × Value)) :=
  if key.isKey then .ok (put key v mapping) else .error (.unsuitableKey key)

end Mapping
end Lisplet
