import Mathlib.Algebra.Group.Int.Defs
import Mathlib.Data.Rat.Defs

/-! # Json values

The values, objects and documents that Qt programs read, with the defaults their accessors
return for a missing member or one of another type (`none` is an undefined value).
-/
namespace CppChat.Foundation

/-- `QJsonValue`. -/
inductive QJson
  | null
  | bool (b : Bool)
  | num (q : ℚ)
  | str (s : String)
  | array (l : List QJson)
  | object (l : List (String × QJson))

/-- `QJsonObject`. -/
abbrev QJsonObject := List (String × QJson)

namespace QJsonObject

def value (o : QJsonObject) (field : String) : Option QJson := o.lookup field

def contains (o : QJsonObject) (field : String) : Bool := (o.value field).isSome

def insert (o : QJsonObject) (field : String) (v : QJson) : QJsonObject :=
  (field, v) :: o.filter fun p => p.1 ≠ field

end QJsonObject

namespace QJson

/-- `toInt(fallback)`: the integral numbers that fit an `int`. -/
def toInt (fallback : Int) : Option QJson → Int
  | some (num q) => if q.den = 1 ∧ -2 ^ 31 ≤ q.num ∧ q.num < 2 ^ 31 then q.num else fallback
  | _ => fallback

def toDouble : Option QJson → ℚ
  | some (num q) => q
  | _ => 0

def toString : Option QJson → String
  | some (str s) => s
  | _ => ""

def toBool : Option QJson → Bool
  | some (bool b) => b
  | _ => false

def isDouble : Option QJson → Bool
  | some (num _) => true
  | _ => false

def isBool : Option QJson → Bool
  | some (bool _) => true
  | _ => false

def isString : Option QJson → Bool
  | some (str _) => true
  | _ => false

end QJson

/-- The outcome of `QJsonDocument::fromJson`. -/
inductive Document
  | malformed
  | notObject
  | object (o : QJsonObject)

def Document.toObject : Document → QJsonObject
  | .object o => o
  | _ => []

def Document.isObject : Document → Bool
  | .object _ => true
  | _ => false

theorem QJsonObject.value_insert (o : QJsonObject) (field : String) (v : QJson) :
    (o.insert field v).value field = some v := by
  unfold QJsonObject.insert QJsonObject.value
  rw [List.lookup_cons_self]

end CppChat.Foundation
