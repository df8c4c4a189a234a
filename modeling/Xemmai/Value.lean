import Mathlib.Data.BitVec

/-!
# Run-time values

The tagged words of `t_value`: null, the two booleans, immediate integers,
immediate floats and pointers to objects. A double is a parameter with the
operations the interpreter applies to it, and an object is a parameter of
which only the value of an instance derived from `Integer` or `Float` is read.
-/

namespace Xemmai

set_option autoImplicit false

/-- An `intptr_t`; the same bits read as `uintptr_t` where the code casts. -/
abbrev Word := BitVec 64

/-- The `double` operations of the emitter and of the interpreter. -/
class Double (F : Type) where
  ofInteger : Word → F
  multiply : F → F → F
  divide : F → F → F
  add : F → F → F
  subtract : F → F → F
  minus : F → F
  less : F → F → Bool
  lessEqual : F → F → Bool
  greater : F → F → Bool
  greaterEqual : F → F → Bool
  equals : F → F → Bool

/-- `f_type()->f_derives<intptr_t>()` with `f_as<intptr_t>()`, and the same
for `double`. -/
class Boxed (O F : Type) where
  asInteger : O → Option Word
  asFloat : O → Option F

inductive Value (F O : Type) where
  | null
  | boolean (value : Bool)
  | integer (value : Word)
  | float (value : F)
  | object (value : O)
  deriving DecidableEq, Repr

instance exactDouble : Double Int where
  ofInteger := BitVec.toInt
  multiply := (· * ·)
  divide := (· / ·)
  add := (· + ·)
  subtract := (· - ·)
  minus := (- ·)
  less x y := decide (x < y)
  lessEqual x y := decide (x ≤ y)
  greater x y := decide (y < x)
  greaterEqual x y := decide (y ≤ x)
  equals x y := decide (x = y)

instance plainObject : Boxed Unit Int where
  asInteger _ := none
  asFloat _ := none

namespace Value

variable {F O : Type}

/-- `t_value::f_boolean`: only null and `false` lie below `c_tag__TRUE`. -/
def asBoolean : Value F O → Bool
  | null => false
  | boolean value => value
  | _ => true

/-- `f_tag() >= c_tag__OBJECT` -/
def isObject : Value F O → Bool
  | object _ => true
  | _ => false

def isBoolean : Value F O → Bool
  | .boolean _ => true
  | _ => false

def isNumber : Value F O → Bool
  | .integer _ | .float _ => true
  | _ => false

/-- Equality of the `v_p` words: all integers share one tag, and so do floats. -/
def samePointer [DecidableEq O] : Value F O → Value F O → Bool
  | null, null => true
  | boolean left, boolean right => left == right
  | integer _, integer _ => true
  | float _, float _ => true
  | object left, object right => left == right
  | _, _ => false

def equal [DecidableEq O] [Double F] : Value F O → Value F O → Bool
  | null, null => true
  | boolean left, boolean right => left == right
  | integer left, integer right => left == right
  | float left, float right => Double.equals left right
  | object left, object right => left == right
  | _, _ => false

end Value

end Xemmai
