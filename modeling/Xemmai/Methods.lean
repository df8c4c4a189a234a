import Xemmai.OperandForms

/-!
# Operators outside of the instructions

The methods of `Integer` and `Float`, which an instance of a class derived from one
of them inherits, and the operators of `t_value`, which native code applies. Both do
again what the instructions do, with their own checks of the right operand.
-/

namespace Xemmai

set_option autoImplicit false

variable {F O : Type} [DecidableEq O] [Double F] [Boxed O F]

/-- What an operator gives or throws, or the method of another class that it calls. -/
inductive Answer (F O : Type) where
  | value (value : Option (Value F O))
  | throwNotSupported
  | throwTypeError
  | called (method : Method) (receiver : O) (argument : Option (Value F O))
  deriving DecidableEq, Repr

namespace Value

/-- `f_is<intptr_t>` with `f_as<intptr_t>` -/
def toInteger : Value F O → Option Word
  | .integer value => some value
  | .object receiver => Boxed.asInteger (F := F) receiver
  | _ => none

/-- `f_is<double>` with `f_as<double>` -/
def toFloat : Value F O → Option F
  | .integer value => some (Double.ofInteger value)
  | .float value => some value
  | .object receiver => Boxed.asFloat receiver
  | _ => none

end Value

/-- `f_check<intptr_t>(a_value, L"argument0")` before a function of two integers. -/
def checkInteger (f : Word → Option Word) (argument : Value F O) : Answer F O :=
  match argument.toInteger with
  | some value => .value ((f value).map .integer)
  | none => .throwTypeError

/-- `f_check<double>(a_value, L"argument0")` before a function of two floats. -/
def checkFloat (f : F → Value F O) (argument : Value F O) : Answer F O :=
  match argument.toFloat with
  | some value => .value (some (f value))
  | none => .throwTypeError

-- `t_type_of<intptr_t>`
namespace IntegerType

def plus (self : Word) : Answer F O := .value (some (.integer self))
def minus (self : Word) : Answer F O := .value (some (.integer (-self)))
def complement (self : Word) : Answer F O := .value (some (.integer (~~~self)))

/-- The switch on the tag of the argument in `f__multiply` .. `f__greater_equal`. -/
def switch (f : Arithmetic F O) (self : Word) : Value F O → Answer F O
  | .integer value => .value (f.integers self value)
  | .float value => .value (some (f.floats (Double.ofInteger self) value))
  | .object object =>
      match Boxed.asInteger (F := F) object with
      | some value => .value (f.integers self value)
      | none => .throwNotSupported
  | _ => .throwNotSupported

def multiply : Word → Value F O → Answer F O := switch (arithmetic .multiply)
def divide : Word → Value F O → Answer F O := switch (arithmetic .divide)
def add : Word → Value F O → Answer F O := switch (arithmetic .add)
def subtract : Word → Value F O → Answer F O := switch (arithmetic .subtract)
def less : Word → Value F O → Answer F O := switch (arithmetic .less)
def lessEqual : Word → Value F O → Answer F O := switch (arithmetic .lessEqual)
def greater : Word → Value F O → Answer F O := switch (arithmetic .greater)
def greaterEqual : Word → Value F O → Answer F O := switch (arithmetic .greaterEqual)

def modulus (self : Word) : Value F O → Answer F O := checkInteger (modulusSigned self)

def leftShift (self : Word) : Value F O → Answer F O := checkInteger (shift (· <<< ·) self)

/-- `size_t a_self` -/
def rightShift (self : Word) : Value F O → Answer F O := checkInteger (shift (· >>> ·) self)

def and (self : Word) : Value F O → Answer F O := checkInteger fun value => some (self &&& value)
def xor (self : Word) : Value F O → Answer F O := checkInteger fun value => some (self ^^^ value)
def or (self : Word) : Value F O → Answer F O := checkInteger fun value => some (self ||| value)

def equals (self : Word) : Value F O → Answer F O
  | .integer value => .value (some (.boolean (self == value)))
  | .float value => .value (some (.boolean (Double.equals (Double.ofInteger self) value)))
  | .object object =>
      match Boxed.asInteger (F := F) object with
      | some value => .value (some (.boolean (self == value)))
      | none => .value (some (.boolean false))
  | _ => .value (some (.boolean false))

def notEquals (self : Word) : Value F O → Answer F O
  | .integer value => .value (some (.boolean (self != value)))
  | .float value => .value (some (.boolean (!Double.equals (Double.ofInteger self) value)))
  | .object object =>
      match Boxed.asInteger (F := F) object with
      | some value => .value (some (.boolean (self != value)))
      | none => .value (some (.boolean true))
  | _ => .value (some (.boolean true))

def unaryMethod : Unary → Word → Answer F O
  | .plus => plus
  | .minus => minus
  | .complement => complement
  | .not => fun _ => .throwNotSupported

/-- The methods by their operators; the identities are none. -/
def binaryMethod : Binary → Word → Value F O → Answer F O
  | .multiply => multiply
  | .divide => divide
  | .modulus => modulus
  | .add => add
  | .subtract => subtract
  | .leftShift => leftShift
  | .rightShift => rightShift
  | .less => less
  | .lessEqual => lessEqual
  | .greater => greater
  | .greaterEqual => greaterEqual
  | .equals => equals
  | .notEquals => notEquals
  | .and => and
  | .xor => xor
  | .or => or
  | .identical | .notIdentical => fun _ _ => .throwNotSupported

end IntegerType

-- `t_type_of<double>`; what it does not define is that of `Object`
namespace FloatType

def plus (self : F) : Answer F O := .value (some (.float self))
def minus (self : F) : Answer F O := .value (some (.float (Double.minus self)))

def multiply (self : F) : Value F O → Answer F O := checkFloat ((arithmetic .multiply).floats self)
def divide (self : F) : Value F O → Answer F O := checkFloat ((arithmetic .divide).floats self)
def add (self : F) : Value F O → Answer F O := checkFloat ((arithmetic .add).floats self)
def subtract (self : F) : Value F O → Answer F O := checkFloat ((arithmetic .subtract).floats self)
def less (self : F) : Value F O → Answer F O := checkFloat ((arithmetic .less).floats self)
def lessEqual (self : F) : Value F O → Answer F O := checkFloat ((arithmetic .lessEqual).floats self)
def greater (self : F) : Value F O → Answer F O := checkFloat ((arithmetic .greater).floats self)
def greaterEqual (self : F) : Value F O → Answer F O :=
  checkFloat ((arithmetic .greaterEqual).floats self)

def equals (self : F) (argument : Value F O) : Answer F O :=
  match argument.toFloat with
  | some value => .value (some (.boolean (Double.equals self value)))
  | none => .value (some (.boolean false))

def notEquals (self : F) (argument : Value F O) : Answer F O :=
  match argument.toFloat with
  | some value => .value (some (.boolean (!Double.equals self value)))
  | none => .value (some (.boolean true))

def unaryMethod : Unary → F → Answer F O
  | .plus => plus
  | .minus => minus
  | _ => fun _ => .throwNotSupported

def binaryMethod : Binary → F → Value F O → Answer F O
  | .multiply => multiply
  | .divide => divide
  | .add => add
  | .subtract => subtract
  | .less => less
  | .lessEqual => lessEqual
  | .greater => greater
  | .greaterEqual => greaterEqual
  | .equals => equals
  | .notEquals => notEquals
  | _ => fun _ _ => .throwNotSupported

end FloatType

/-- `f_bind_class` and the call of the method. A class derived from `Integer` or
`Float` has its methods. -/
def dispatch (op : Binary) (receiver : O) (argument : Value F O) : Answer F O :=
  match Boxed.asInteger (F := F) receiver with
  | some self => IntegerType.binaryMethod op self argument
  | none =>
      match Boxed.asFloat (F := F) receiver with
      | some self => FloatType.binaryMethod op self argument
      | none => .called (.binary op) receiver (some argument)

def dispatchUnary (op : Unary) (receiver : O) : Answer F O :=
  match Boxed.asInteger (F := F) receiver with
  | some self => IntegerType.unaryMethod op self
  | none =>
      match Boxed.asFloat (F := F) receiver with
      | some self => FloatType.unaryMethod op self
      | none => .called (.unary op) receiver none

/-- `XEMMAI__VALUE__BINARY_ARITHMETIC`, `_INTEGRAL`, `_EQUALITY` and `_BITWISE`, and
`operator==` for the identities. -/
def valueBinary (op : Binary) (self argument : Value F O) : Answer F O :=
  match op.kind with
  | .arithmetic =>
      match self with
      | .integer value => IntegerType.switch (arithmetic op) value argument
      | .float value => checkFloat ((arithmetic op).floats value) argument
      | .object object => dispatch op object argument
      | _ => .throwNotSupported
  | .integral =>
      match self with
      | .integer value => checkInteger ((integral op).unsigned value) argument
      | .object object => dispatch op object argument
      | _ => .throwNotSupported
  | .equality negate =>
      match self with
      | .integer value =>
          if negate then IntegerType.notEquals value argument
          else IntegerType.equals value argument
      | .float value =>
          if negate then FloatType.notEquals value argument else FloatType.equals value argument
      | .object object => dispatch op object argument
      | _ => .value (some (.boolean (negate ^^ self.samePointer argument)))
  | .identity negate => .value (some (.boolean (negate ^^ self.equal argument)))
  | .bitwise =>
      match self with
      | .boolean value => .value (some (.boolean (bitwiseBoolean op value argument.asBoolean)))
      | .integer value => checkInteger ((integral op).signed value) argument
      | .object object => dispatch op object argument
      | _ => .throwNotSupported

/-- `XEMMAI__VALUE__UNARY_ARITHMETIC`, `f_not` and `f_complement` -/
def valueUnary (op : Unary) (self : Value F O) : Answer F O :=
  match op, self with
  | .not, value => .value (some (.boolean (!value.asBoolean)))
  | .plus, .integer value => .value (some (.integer value))
  | .plus, .float value => .value (some (.float value))
  | .minus, .integer value => .value (some (.integer (-value)))
  | .minus, .float value => .value (some (.float (Double.minus value)))
  | .complement, .integer value => .value (some (.integer (~~~value)))
  | _, .object object => dispatchUnary op object
  | _, _ => .throwNotSupported

/-- The method of the type of a value, called by its name. `Object` has the identity
for its equality and nothing for the other operators. -/
def method (op : Binary) (self argument : Value F O) : Answer F O :=
  match self with
  | .integer value => IntegerType.binaryMethod op value argument
  | .float value => FloatType.binaryMethod op value argument
  | .object object => dispatch op object argument
  | _ =>
      match op.kind with
      | .equality negate => .value (some (.boolean (negate ^^ self.equal argument)))
      | _ => .throwNotSupported

/-- What comes out of an instruction once the method that it calls has returned. -/
def Outcome.answer : Outcome F O → Answer F O
  | .value result => .value result
  | .throwNotSupported => .throwNotSupported
  | .method (.binary op) receiver argument => dispatch op receiver argument
  | .method other receiver argument => .called other receiver (some argument)
  | .unaryMethod (.unary op) receiver => dispatchUnary op receiver
  | .unaryMethod other receiver => .called other receiver none

/-- The ways to apply an operator to two values. -/
inductive Computes (op : Binary) (x y : Value F O) : Answer F O → Prop
  | instruction {place : Place} {frame : Frame F O} {left right : Operand F O}
      {effect : Effect F O} (presentsLeft : Presents left frame 1 x)
      (presentsRight : Presents right frame 2 y)
      (handled : binary (callsAt place) op left right frame = some effect) :
      Computes op x y effect.outcome.answer
  | operator : Computes op x y (valueBinary op x y)

inductive ComputesUnary (op : Unary) (x : Value F O) : Answer F O → Prop
  | instruction {place : Place} {frame : Frame F O} {operand : Operand F O}
      {effect : Effect F O} (presents : Presents operand frame 1 x)
      (handled : unary (callsAt place) op operand frame = some effect) :
      ComputesUnary op x effect.outcome.answer
  | operator : ComputesUnary op x (valueUnary op x)

end Xemmai
