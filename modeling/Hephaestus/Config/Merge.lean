import Mathlib.Logic.Function.Basic
import Hephaestus.Lib.Dict

/-!
# Merging configurations

`merge_configs` of `config/utils.py`. Its result is a new dictionary, but the values it
puts there are the objects of the configurations, and where a later configuration has
a dictionary under the same key it is merged into that object. So dictionaries are
objects of a store here, which a call may read and assign to; everything else is an
atom. The loop over a dictionary reads it again at every turn, since the turn before
may have changed it.
-/

namespace Hephaestus.Config

open Hephaestus.Lib

/-- A key: a text, or another hashable value. -/
inductive Key (K : Type)
  | text (t : String)
  | other (k : K)
  deriving DecidableEq

/-- `isinstance(key, str) and key`. -/
def Key.isName {K : Type} : Key K → Bool
  | .text t => t ≠ ""
  | .other _ => false

/-- What a dictionary holds: another dictionary, by reference, or a value that is none. -/
inductive Value (A : Type)
  | atom (a : A)
  | dict (r : Nat)
  deriving DecidableEq

/-- A dictionary: it holds a key once. -/
@[ext]
structure Object (K A : Type) where
  items : Dict (Key K) (Value A)
  nodup : (items.map Prod.fst).Nodup

/-- The dictionaries there are. -/
abbrev Store (K A : Type) := Nat → Object K A

/-- The store, and the dictionaries the call has changed. -/
structure Heap (K A : Type) where
  dicts : Store K A
  changed : List Nat := []

/-- What a call raises: the stack is used up, or a dictionary has another size than
when the loop over it began. -/
inductive MergeError
  | recursion
  | changedSize
  deriving DecidableEq, Repr

variable {K A : Type} [DecidableEq K]

namespace Object

def empty : Object K A := ⟨[], List.nodup_nil⟩

/-- `key in base` and `base[key]`. -/
def get? (d : Object K A) (key : Key K) : Option (Value A) := d.items.get? key

def set (d : Object K A) (key : Key K) (value : Value A) : Object K A :=
  ⟨d.items.set key value, Dict.nodup_set d.nodup key value⟩

end Object

variable [DecidableEq A]

/-- `base[key] = value`. -/
def Heap.assign (h : Heap K A) (base : Nat) (key : Key K) (value : Value A) : Heap K A where
  dicts := Function.update h.dicts base ((h.dicts base).set key value)
  changed := if (h.dicts base).get? key = some value then h.changed else base :: h.changed

/-- One turn of the loop of `_deep_merge`, where `merge` is the call it makes of
itself and `size` how many items `override` had at first. -/
def mergeItem (merge : Heap K A → Nat → Nat → Except MergeError (Heap K A))
    (size base override : Nat) (h : Heap K A) (i : Nat) : Except MergeError (Heap K A) :=
  let items := (h.dicts override).items
  if items.length ≠ size then .error .changedSize
  else
    match items[i]? with
    | none => .ok h
    | some (key, value) =>
        if key.isName = false then .ok h
        else
          match (h.dicts base).get? key, value with
          | some (.dict inner), .dict r => merge h inner r
          | _, _ => .ok (h.assign base key value)

/-- `_deep_merge`, with so many calls to go on the stack. -/
def deepMerge : Nat → Heap K A → Nat → Nat → Except MergeError (Heap K A)
  | 0, _, _, _ => .error .recursion
  | room + 1, h, base, override => do
      let size := (h.dicts override).items.length
      let h ← (List.range size).foldlM (mergeItem (deepMerge room) size base override) h
      if (h.dicts override).items.length ≠ size then .error .changedSize else .ok h

/-- A turn of the loop of `merge_configs`: `if config: _deep_merge(result, config)`. -/
def mergeConfig (room result : Nat) (config : Option Nat) (h : Heap K A) :
    Except MergeError (Heap K A) :=
  match config with
  | none => .ok h
  | some c => if (h.dicts c).items.isEmpty then .ok h else deepMerge room h result c

/-- The loop of `merge_configs`. -/
def mergeAll (room result : Nat) : List (Option Nat) → Heap K A → Except MergeError (Heap K A)
  | [], h => .ok h
  | config :: configs, h => mergeConfig room result config h >>= mergeAll room result configs

/-- `merge_configs`; `result` is the object it makes. -/
def mergeConfigs (room result : Nat) (configs : List (Option Nat)) (dicts : Store K A) :
    Except MergeError (Heap K A) :=
  mergeAll room result configs { dicts := Function.update dicts result .empty }

/-! ## Values -/

/-- What a reader sees at the end of a path. -/
inductive Leaf (A : Type)
  | atom (a : A)
  | dict

/-- What there is to see of a value along the paths of keys. -/
abbrev View (K A : Type) := List (Key K) → Option (Leaf A)

def Value.leaf : Value A → Leaf A
  | .atom a => .atom a
  | .dict _ => .dict

/-- The view of a value in a store. -/
def view (dicts : Store K A) : Value A → View K A
  | value, [] => some value.leaf
  | .dict r, key :: path => ((dicts r).get? key).bind fun value => view dicts value path
  | .atom _, _ :: _ => none

/-- A later value replaces an earlier one, but two dictionaries at a name are merged. -/
def View.merge (x y : View K A) : View K A
  | [] => some .dict
  | key :: path =>
      if key.isName = false ∨ y [key] = none then x (key :: path)
      else
        match x [key], y [key] with
        | some .dict, some .dict => View.merge (fun p => x (key :: p)) (fun p => y (key :: p)) path
        | _, _ => y (key :: path)

/-- The empty dictionary. -/
def View.empty : View K A
  | [] => some .dict
  | _ :: _ => none

/-- The left fold of the configurations. -/
def foldedView (dicts : Store K A) (configs : List (Option Nat)) : View K A :=
  (configs.reduceOption.map fun c => view dicts (.dict c)).foldl View.merge View.empty

end Hephaestus.Config
