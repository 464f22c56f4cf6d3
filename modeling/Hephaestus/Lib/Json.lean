import Mathlib.Data.Rat.Defs
import Hephaestus.Lib.Dict

/-!
# JSON values as Python sees them

What `json.loads` returns: objects are dictionaries in the order of the
text, numbers are `int` or `float`, and a float need not be finite. A
boolean is an `int` to `isinstance`, so code that wants a number rules
booleans out by hand; `asInt?` is that check.
-/

namespace Hephaestus.Lib

/-- A `float`. -/
inductive PyFloat
  | finite (q : ℚ)
  | infinity (negative : Bool)
  | nan
  deriving DecidableEq

/-- `x < q`; a NaN is below nothing. -/
def PyFloat.lt : PyFloat → ℚ → Bool
  | .finite p, q => p < q
  | .infinity negative, _ => negative
  | .nan, _ => false

/-- `x <= q`. -/
def PyFloat.le : PyFloat → ℚ → Bool
  | .finite p, q => p ≤ q
  | .infinity negative, _ => negative
  | .nan, _ => false

/-- A parsed JSON value. -/
inductive Json
  | null
  | bool (b : Bool)
  | int (n : Int)
  | float (x : PyFloat)
  | str (text : String)
  | arr (items : List Json)
  | obj (fields : List (String × Json))

namespace Json

/-- `value.get(key)` of a dictionary; nothing for another value. -/
def get? : Json → String → Option Json
  | .obj fields, key => Dict.get? fields key
  | _, _ => none

/-- `bool(value)`. -/
def truthy : Json → Bool
  | .null => false
  | .bool b => b
  | .int n => n ≠ 0
  | .float (.finite q) => q ≠ 0
  | .float _ => true
  | .str text => text ≠ ""
  | .arr items => !items.isEmpty
  | .obj fields => !fields.isEmpty

/-- `isinstance(value, int) and not isinstance(value, bool)`. -/
def asInt? : Json → Option Int
  | .int n => some n
  | _ => none

/-- `isinstance(value, str)`. -/
def asStr? : Json → Option String
  | .str text => some text
  | _ => none

/-- `isinstance(value, dict)`. -/
def asObj? : Json → Option (Dict String Json)
  | .obj fields => some fields
  | _ => none

/-- `isinstance(value, list)`. -/
def asArr? : Json → Option (List Json)
  | .arr items => some items
  | _ => none

/-- `value is None`. -/
def isNull : Json → Bool
  | .null => true
  | _ => false

/-- `isinstance(value, bool)`. -/
def isBool : Json → Bool
  | .bool _ => true
  | _ => false

/-- `value.get(key, default)` of a dictionary. -/
def getD (value : Json) (key : String) (default : Json) : Json :=
  (value.get? key).getD default

/-- `value.get(key)`. -/
def field (value : Json) (key : String) : Json := value.getD key .null

/-- The number behind a value that is one; booleans are. -/
def number? : Json → Option PyFloat
  | .bool b => some (.finite (if b then 1 else 0))
  | .int n => some (.finite n)
  | .float x => some x
  | _ => none

mutual

/-- `a == b`. Numbers compare by value, dictionaries without regard to order;
a NaN equals nothing. -/
def eq : Json → Json → Bool
  | .null, .null => true
  | .str a, .str b => a = b
  | .arr a, .arr b => eqItems a b
  | .obj a, .obj b => a.length = b.length && eqFields a b
  | a, b =>
      match a.number?, b.number? with
      | some .nan, _ => false
      | some x, some y => x = y
      | _, _ => false

def eqItems : List Json → List Json → Bool
  | [], [] => true
  | a :: as, b :: bs => eq a b && eqItems as bs
  | _, _ => false

def eqFields : List (String × Json) → Dict String Json → Bool
  | [], _ => true
  | (key, a) :: as, b => (match Dict.get? b key with
      | some b' => eq a b'
      | none => false) && eqFields as b

end

theorem eq_str_iff {value : Json} {text : String} :
    value.eq (.str text) = true ↔ value = .str text := by
  cases value with
  | float x => cases x <;> simp [eq, number?]
  | _ => simp [eq, number?]

theorem str_eq_iff {value : Json} {text : String} :
    eq (.str text) value = true ↔ value = .str text := by
  cases value with
  | str other => simp [eq, eq_comm]
  | _ => simp [eq, number?]

end Json

end Hephaestus.Lib
