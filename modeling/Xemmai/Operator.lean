import Xemmai.Value

/-!
# Operator instructions

The handlers that `code_operator.h` generates. Every instruction form fetches
its operands from the instruction words or from the running frame, and the
macro family of the form decides which tags it tests. A handler is written
against `Calls`, the pair of `PRIMITIVE_CALL` and `OBJECT_CALL` under which
the file is included once for the plain and once for the `_TAIL` forms.
-/

namespace Xemmai

set_option autoImplicit false

inductive Unary where
  | plus | minus | not | complement
  deriving DecidableEq, Repr

inductive Binary where
  | multiply | divide | modulus | add | subtract | leftShift | rightShift
  | less | lessEqual | greater | greaterEqual
  | equals | notEquals | identical | notIdentical
  | and | xor | or
  deriving DecidableEq, Repr

/-- The special methods an object operand answers with. -/
inductive Method where
  | unary (operator : Unary)
  | binary (operator : Binary)
  deriving DecidableEq, Repr

/-- `t_operand`: the tags the emitter chooses the instruction form by. -/
inductive Operand (F O : Type) where
  | integer (value : Word)
  | float (value : F)
  | literal (value : Value F O)
  | variable (index : Nat)
  | temporary
  deriving DecidableEq, Repr

/-- The slots above `base`, and the first slot the instruction names. -/
structure Frame (F O : Type) where
  slot : Nat → Value F O
  stack : Nat

namespace Frame

variable {F O : Type}

/-- `XEMMAI__CODE__FETCH` and the fetches of `a0`: a temporary left operand is
`stack[1]`, a temporary right operand `stack[2]`. -/
def fetch (frame : Frame F O) (position : Nat) : Operand F O → Value F O
  | .integer value => .integer value
  | .float value => .float value
  | .literal value => value
  | .variable index => frame.slot index
  | .temporary => frame.slot (frame.stack + position)

/-- `XEMMAI__CODE__PREPARE`: a right operand that is not a temporary is copied
to `stack[2]` before an object is called. -/
def prepare (frame : Frame F O) : Operand F O → Frame F O
  | .temporary => frame
  | operand =>
      { frame with
        slot := Function.update frame.slot (frame.stack + 2) (frame.fetch 2 operand) }

end Frame

/-- `XEMMAI__CODE__PRIMITIVE_CALL`, `XEMMAI__CODE__OBJECT_CALL` and the jump to
`label__THROW_NOT_SUPPORTED`. A primitive result is absent where the C++
operation is undefined. An object call passes the frame, whose slot
`stack + 2` then holds the right operand. -/
structure Calls (F O E : Type) where
  primitive : Option (Value F O) → E
  object : Method → O → Frame F O → E
  throwNotSupported : E

section Functors

variable {F O : Type} [Double F]

/-- A `std::multiplies`-like functor at the operand types it meets. -/
structure Arithmetic (F O : Type) where
  integers : Word → Word → Option (Value F O)
  floats : F → F → Value F O

/-- The signed division of C++, undefined for a zero divisor and on overflow. -/
def divideSigned (left right : Word) : Option Word :=
  if right = 0 ∨ (left = BitVec.intMin 64 ∧ right = -1) then none
  else some (left.sdiv right)

def modulusSigned (left right : Word) : Option Word :=
  if right = 0 ∨ (left = BitVec.intMin 64 ∧ right = -1) then none
  else some (left.srem right)

/-- The remainder of two `uintptr_t`. -/
def modulusUnsigned (left right : Word) : Option Word :=
  if right = 0 then none else some (left.umod right)

/-- A shift by a negative amount or by 64 and more is undefined; a negative
amount is a large one when its bits are read unsigned. -/
def shift (by_ : Word → Nat → Word) (left right : Word) : Option Word :=
  if right.toNat < 64 then some (by_ left right.toNat) else none

def arithmetic : Binary → Arithmetic F O
  | .multiply => ⟨fun x y => some (.integer (x * y)), fun x y => .float (Double.multiply x y)⟩
  | .divide =>
      ⟨fun x y => (divideSigned x y).map .integer, fun x y => .float (Double.divide x y)⟩
  | .add => ⟨fun x y => some (.integer (x + y)), fun x y => .float (Double.add x y)⟩
  | .subtract => ⟨fun x y => some (.integer (x - y)), fun x y => .float (Double.subtract x y)⟩
  | .less => ⟨fun x y => some (.boolean (x.slt y)), fun x y => .boolean (Double.less x y)⟩
  | .lessEqual => ⟨fun x y => some (.boolean (x.sle y)), fun x y => .boolean (Double.lessEqual x y)⟩
  | .greater => ⟨fun x y => some (.boolean (y.slt x)), fun x y => .boolean (Double.greater x y)⟩
  | .greaterEqual =>
      ⟨fun x y => some (.boolean (y.sle x)), fun x y => .boolean (Double.greaterEqual x y)⟩
  | _ => ⟨fun _ _ => none, fun x _ => .float x⟩

/-- A functor of integers, by the type of the left operand: `uintptr_t` where
the code casts it or passes it to `f_binary_integral`, `intptr_t` elsewhere. -/
structure Integral where
  unsigned : Word → Word → Option Word
  signed : Word → Word → Option Word

def integral : Binary → Integral
  | .modulus => ⟨modulusUnsigned, modulusUnsigned⟩
  | .leftShift => ⟨shift (· <<< ·), shift (· <<< ·)⟩
  | .rightShift => ⟨shift (· >>> ·), shift BitVec.sshiftRight⟩
  | .and => ⟨fun x y => some (x &&& y), fun x y => some (x &&& y)⟩
  | .xor => ⟨fun x y => some (x ^^^ y), fun x y => some (x ^^^ y)⟩
  | .or => ⟨fun x y => some (x ||| y), fun x y => some (x ||| y)⟩
  | _ => ⟨fun _ _ => none, fun _ _ => none⟩

/-- The bitwise functors at `bool`, whose result the macros cast to `bool`. -/
def bitwiseBoolean : Binary → Bool → Bool → Bool
  | .and, x, y => x && y
  | .xor, x, y => x != y
  | _, x, y => x || y

end Functors

section Handlers

variable {F O E : Type} [DecidableEq O] [Double F] [Boxed O F] (calls : Calls F O E)

/-- `XEMMAI__CODE__OBJECT_OR_THROW` -/
def objectOrThrow (method : Method) (a0 : Value F O) (frame : Frame F O) : E :=
  match a0 with
  | .object object => calls.object method object frame
  | _ => calls.throwNotSupported

/-- `XEMMAI__CODE__OBJECT_OR_FALSE`, with `a_operator` empty or `!`. -/
def objectOrFalse (negate : Bool) (method : Method) (a0 : Value F O) (frame : Frame F O) : E :=
  match a0 with
  | .object object => calls.object method object frame
  | _ => calls.primitive (some (.boolean (negate ^^ false)))

/-- `XEMMAI__CODE__BINARY_DERIVED_OR_THROW` and the last step of
`f_binary_arithmetic` and `f_binary_integral`: the right operand must be an
object derived from the wanted fundamental type. -/
def derivedOrThrow {T : Type} (derived : O → Option T) (result : T → Option (Value F O))
    (a1 : Value F O) : E :=
  match a1 with
  | .object object =>
      match derived object with
      | some value => calls.primitive (result value)
      | none => calls.throwNotSupported
  | _ => calls.throwNotSupported

/-- `XEMMAI__CODE__BINARY_ARITHMETIC_INTEGER` of the `XX` and `IX` families. -/
def arithmeticInteger (f : Arithmetic F O) (a0 : Word) (a1 : Value F O) : E :=
  match a1 with
  | .integer value => calls.primitive (f.integers a0 value)
  | .float value => calls.primitive (some (f.floats (Double.ofInteger a0) value))
  | _ => derivedOrThrow calls (Boxed.asInteger (F := F)) (f.integers a0) a1

def binaryArithmetic (f : Arithmetic F O) (a0 : F) (a1 : Value F O) : E :=
  match a1 with
  | .float value => calls.primitive (some (f.floats a0 value))
  | .integer value => calls.primitive (some (f.floats a0 (Double.ofInteger value)))
  | _ => derivedOrThrow calls (Boxed.asFloat (F := F)) (fun value => some (f.floats a0 value)) a1

def binaryIntegral (f : Integral) (a0 : Word) (a1 : Value F O) : E :=
  match a1 with
  | .integer value => calls.primitive ((f.unsigned a0 value).map .integer)
  | _ => derivedOrThrow calls (Boxed.asInteger (F := F))
      (fun value => (f.unsigned a0 value).map .integer) a1

/-- `t_code::f_binary_equality` at `intptr_t` -/
def binaryEqualityInteger (a0 : Word) : Value F O → Bool
  | .integer value => a0 == value
  | .float value => Double.equals (Double.ofInteger a0) value
  | .object object => Boxed.asInteger (F := F) object == some a0
  | _ => false

/-- `t_code::f_binary_equality` at `double` -/
def binaryEqualityFloat (a0 : F) : Value F O → Bool
  | .float value => Double.equals a0 value
  | .integer value => Double.equals a0 (Double.ofInteger value)
  | .object object =>
      match Boxed.asFloat (F := F) object with
      | some value => Double.equals a0 value
      | none => false
  | _ => false

/-- `XEMMAI__CODE__BINARY_DERIVED_OR_FALSE` at `intptr_t` -/
def derivedOrFalseInteger (a0 : Word) : Value F O → Bool
  | .object object => Boxed.asInteger (F := F) object == some a0
  | _ => false

/-- `XEMMAI__CODE__BINARY_DERIVED_OR_FALSE` at `double` -/
def derivedOrFalseFloat (a0 : F) : Value F O → Bool
  | .object object =>
      match Boxed.asFloat (F := F) object with
      | some value => Double.equals a0 value
      | none => false
  | _ => false

/-- The common tail of `XEMMAI__CODE__BINARY_EQUALITY` in the `LX`, `XL` and
`XX` families, after the tags that the family handles by itself. -/
def equalityDefault (negate : Bool) (method : Method) (a0 a1 : Value F O)
    (frame : Frame F O) : E :=
  match a0 with
  | .object object =>
      if a0.samePointer a1 then calls.primitive (some (.boolean (negate ^^ true)))
      else calls.object method object frame
  | _ => calls.primitive (some (.boolean (negate ^^ a0.samePointer a1)))

/-- The macro families of the binary operators: each is one definition of
`XEMMAI__CODE__BINARY_ARITHMETIC`, `_INTEGRAL`, `_EQUALITY`, `_IDENTITY` and
`_BITWISE`. -/
inductive Kind where
  | arithmetic
  | integral
  | equality (negate : Bool)
  | identity (negate : Bool)
  | bitwise
  deriving DecidableEq, Repr

def Binary.kind : Binary → Kind
  | .multiply | .divide | .add | .subtract => .arithmetic
  | .less | .lessEqual | .greater | .greaterEqual => .arithmetic
  | .modulus | .leftShift | .rightShift => .integral
  | .equals => .equality false
  | .notEquals => .equality true
  | .identical => .identity false
  | .notIdentical => .identity true
  | .and | .xor | .or => .bitwise

/-- `XEMMAI__CODE__BINARY_XX`: `VV`, `TV`, `VT` and `TT` -/
def binaryXX (op : Binary) (a0 a1 : Value F O) (frame : Frame F O) : E :=
  match op.kind with
  | .arithmetic =>
      match a0 with
      | .integer value => arithmeticInteger calls (arithmetic op) value a1
      | .float value => binaryArithmetic calls (arithmetic op) value a1
      | _ => objectOrThrow calls (.binary op) a0 frame
  | .integral =>
      match a0 with
      | .integer value => binaryIntegral calls (integral op) value a1
      | _ => objectOrThrow calls (.binary op) a0 frame
  | .equality negate =>
      match a0 with
      | .integer value => calls.primitive (some (.boolean (negate ^^ binaryEqualityInteger value a1)))
      | .float value => calls.primitive (some (.boolean (negate ^^ binaryEqualityFloat value a1)))
      | _ => equalityDefault calls negate (.binary op) a0 a1 frame
  | .identity negate => calls.primitive (some (.boolean (negate ^^ a0.equal a1)))
  | .bitwise =>
      match a0 with
      | .boolean value => calls.primitive (some (.boolean (bitwiseBoolean op value a1.asBoolean)))
      | .integer value => binaryIntegral calls (integral op) value a1
      | _ => objectOrThrow calls (.binary op) a0 frame

/-- `XEMMAI__CODE__BINARY_XL`: `VL` and `TL` -/
def binaryXL (op : Binary) (a0 a1 : Value F O) (frame : Frame F O) : E :=
  match op.kind with
  | .arithmetic =>
      match a0 with
      | .integer value =>
          derivedOrThrow calls (Boxed.asInteger (F := F)) ((arithmetic op).integers value) a1
      | .float value =>
          derivedOrThrow calls (Boxed.asFloat (F := F))
            (fun right => some ((arithmetic op).floats value right)) a1
      | _ => objectOrThrow calls (.binary op) a0 frame
  | .integral =>
      match a0 with
      | .integer value =>
          derivedOrThrow calls (Boxed.asInteger (F := F))
            (fun right => ((integral op).signed value right).map .integer) a1
      | _ => objectOrThrow calls (.binary op) a0 frame
  | .equality negate =>
      match a0 with
      | .integer value => calls.primitive (some (.boolean (negate ^^ derivedOrFalseInteger value a1)))
      | .float value => calls.primitive (some (.boolean (negate ^^ derivedOrFalseFloat value a1)))
      | _ => equalityDefault calls negate (.binary op) a0 a1 frame
  | .identity negate => calls.primitive (some (.boolean (negate ^^ a0.equal a1)))
  | .bitwise =>
      match a0 with
      | .boolean value => calls.primitive (some (.boolean (bitwiseBoolean op value a1.asBoolean)))
      | .integer value =>
          derivedOrThrow calls (Boxed.asInteger (F := F))
            (fun right => ((integral op).signed value right).map .integer) a1
      | _ => objectOrThrow calls (.binary op) a0 frame

/-- `XEMMAI__CODE__BINARY_LX`: `LL`, `LV` and `LT` -/
def binaryLX (op : Binary) (a0 a1 : Value F O) (frame : Frame F O) : E :=
  match op.kind with
  | .arithmetic | .integral => objectOrThrow calls (.binary op) a0 frame
  | .equality negate => equalityDefault calls negate (.binary op) a0 a1 frame
  | .identity negate => calls.primitive (some (.boolean (negate ^^ a0.equal a1)))
  | .bitwise =>
      match a0 with
      | .boolean value => calls.primitive (some (.boolean (bitwiseBoolean op value a1.asBoolean)))
      | _ => objectOrThrow calls (.binary op) a0 frame

/-- `XEMMAI__CODE__BINARY_LI` and `XEMMAI__CODE__BINARY_LF` -/
def binaryLI (op : Binary) (a0 : Value F O) (frame : Frame F O) : E :=
  match op.kind with
  | .arithmetic | .integral | .bitwise => objectOrThrow calls (.binary op) a0 frame
  | .equality negate => objectOrFalse calls negate (.binary op) a0 frame
  | .identity negate => calls.primitive (some (.boolean (negate ^^ false)))

/-- `XEMMAI__CODE__BINARY_XI`: `VI` and `TI` -/
def binaryXI (op : Binary) (a0 : Value F O) (a1 : Word) (frame : Frame F O) : E :=
  match op.kind with
  | .arithmetic =>
      match a0 with
      | .integer value => calls.primitive ((arithmetic op).integers value a1)
      | .float value => calls.primitive (some ((arithmetic op).floats value (Double.ofInteger a1)))
      | _ => objectOrThrow calls (.binary op) a0 frame
  | .integral =>
      match a0 with
      | .integer value => calls.primitive (((integral op).unsigned value a1).map .integer)
      | _ => objectOrThrow calls (.binary op) a0 frame
  | .equality negate =>
      match a0 with
      | .integer value => calls.primitive (some (.boolean (negate ^^ value == a1)))
      | .float value =>
          calls.primitive (some (.boolean (negate ^^ Double.equals value (Double.ofInteger a1))))
      | _ => objectOrFalse calls negate (.binary op) a0 frame
  | .identity negate => calls.primitive (some (.boolean (negate ^^ a0.equal (.integer a1))))
  | .bitwise =>
      match a0 with
      | .integer value => calls.primitive (((integral op).signed value a1).map .integer)
      | _ => objectOrThrow calls (.binary op) a0 frame

/-- `XEMMAI__CODE__BINARY_XF`: `VF` and `TF` -/
def binaryXF (op : Binary) (a0 : Value F O) (a1 : F) (frame : Frame F O) : E :=
  match op.kind with
  | .arithmetic =>
      match a0 with
      | .float value => calls.primitive (some ((arithmetic op).floats value a1))
      | .integer value => calls.primitive (some ((arithmetic op).floats (Double.ofInteger value) a1))
      | _ => objectOrThrow calls (.binary op) a0 frame
  | .integral | .bitwise => objectOrThrow calls (.binary op) a0 frame
  | .equality negate =>
      match a0 with
      | .float value => calls.primitive (some (.boolean (negate ^^ Double.equals value a1)))
      | .integer value =>
          calls.primitive (some (.boolean (negate ^^ Double.equals (Double.ofInteger value) a1)))
      | _ => objectOrFalse calls negate (.binary op) a0 frame
  | .identity negate => calls.primitive (some (.boolean (negate ^^ a0.equal (.float a1))))

/-- `XEMMAI__CODE__BINARY_IL` -/
def binaryIL (op : Binary) (a0 : Word) (a1 : Value F O) : E :=
  match op.kind with
  | .arithmetic =>
      derivedOrThrow calls (Boxed.asInteger (F := F)) ((arithmetic op).integers a0) a1
  | .integral | .bitwise =>
      derivedOrThrow calls (Boxed.asInteger (F := F))
        (fun right => ((integral op).signed a0 right).map .integer) a1
  | .equality negate => calls.primitive (some (.boolean (negate ^^ derivedOrFalseInteger a0 a1)))
  | .identity negate => calls.primitive (some (.boolean (negate ^^ false)))

/-- `XEMMAI__CODE__BINARY_IX`: `IV` and `IT` -/
def binaryIX (op : Binary) (a0 : Word) (a1 : Value F O) : E :=
  match op.kind with
  | .arithmetic => arithmeticInteger calls (arithmetic op) a0 a1
  | .integral | .bitwise => binaryIntegral calls (integral op) a0 a1
  | .equality negate => calls.primitive (some (.boolean (negate ^^ binaryEqualityInteger a0 a1)))
  | .identity negate =>
      calls.primitive (some (.boolean (negate ^^ (Value.integer a0).equal a1)))

/-- `XEMMAI__CODE__BINARY_FL` -/
def binaryFL (op : Binary) (a0 : F) (a1 : Value F O) : E :=
  match op.kind with
  | .arithmetic =>
      derivedOrThrow calls (Boxed.asFloat (F := F))
        (fun right => some ((arithmetic op).floats a0 right)) a1
  | .integral | .bitwise => calls.throwNotSupported
  | .equality negate => calls.primitive (some (.boolean (negate ^^ derivedOrFalseFloat a0 a1)))
  | .identity negate => calls.primitive (some (.boolean (negate ^^ false)))

/-- `XEMMAI__CODE__BINARY_FX`: `FV` and `FT` -/
def binaryFX (op : Binary) (a0 : F) (a1 : Value F O) : E :=
  match op.kind with
  | .arithmetic => binaryArithmetic calls (arithmetic op) a0 a1
  | .integral | .bitwise => calls.throwNotSupported
  | .equality negate => calls.primitive (some (.boolean (negate ^^ binaryEqualityFloat a0 a1)))
  | .identity negate => calls.primitive (some (.boolean (negate ^^ (Value.float a0).equal a1)))

/-- The handler of the form that the operands select. The `II`, `FI`, `IF` and
`FF` forms have no handler. -/
def binary (op : Binary) (left right : Operand F O) (frame : Frame F O) : Option E :=
  let a0 := frame.fetch 1 left
  let a1 := frame.fetch 2 right
  let prepared := frame.prepare right
  match left, right with
  | .integer _, .integer _ | .integer _, .float _ => none
  | .float _, .integer _ | .float _, .float _ => none
  | .literal _, .integer _ | .literal _, .float _ => some (binaryLI calls op a0 prepared)
  | _, .integer value => some (binaryXI calls op a0 value prepared)
  | _, .float value => some (binaryXF calls op a0 value prepared)
  | .integer value, .literal _ => some (binaryIL calls op value a1)
  | .float value, .literal _ => some (binaryFL calls op value a1)
  | .integer value, _ => some (binaryIX calls op value a1)
  | .float value, _ => some (binaryFX calls op value a1)
  | .literal _, _ => some (binaryLX calls op a0 a1 prepared)
  | _, .literal _ => some (binaryXL calls op a0 a1 prepared)
  | _, _ => some (binaryXX calls op a0 a1 prepared)

/-- `XEMMAI__CODE__UNARY_ARITHMETIC`, `NOT` and `COMPLEMENT` -/
def unaryX (op : Unary) (a0 : Value F O) (frame : Frame F O) : E :=
  match op, a0 with
  | .plus, .integer value => calls.primitive (some (.integer value))
  | .plus, .float value => calls.primitive (some (.float value))
  | .minus, .integer value => calls.primitive (some (.integer (-value)))
  | .minus, .float value => calls.primitive (some (.float (Double.minus value)))
  | .not, value => calls.primitive (some (.boolean (!value.asBoolean)))
  | .complement, .integer value => calls.primitive (some (.integer (~~~value)))
  | _, value => objectOrThrow calls (.unary op) value frame

/-- The `L`, `V` and `T` forms. A literal integer or float has no form. -/
def unary (op : Unary) (operand : Operand F O) (frame : Frame F O) : Option E :=
  match operand with
  | .integer _ | .float _ => none
  | _ => some (unaryX calls op (frame.fetch 1 operand) frame)

end Handlers

section Effects

variable {F O : Type}

/-- Where an instruction leaves its result: `stack[0]`, or `base[-2]` for the
`_TAIL` forms, which leave the frame. -/
inductive Place where
  | stack
  | result
  deriving DecidableEq, Repr

inductive Effect (F O : Type) where
  | deliver (place : Place) (value : Option (Value F O))
  | invoke (place : Place) (method : Method) (receiver : O) (argument : Value F O)
  | throwNotSupported
  deriving DecidableEq, Repr

def callsAt (place : Place) : Calls F O (Effect F O) where
  primitive := .deliver place
  object method receiver frame := .invoke place method receiver (frame.slot (frame.stack + 2))
  throwNotSupported := .throwNotSupported

/-- What an instruction computes, wherever it leaves it. -/
inductive Outcome (F O : Type) where
  | value (value : Option (Value F O))
  | method (method : Method) (receiver : O) (argument : Value F O)
  | unaryMethod (method : Method) (receiver : O)
  | throwNotSupported
  deriving DecidableEq, Repr

def Effect.outcome : Effect F O → Outcome F O
  | .deliver _ value => .value value
  | .invoke _ (.unary op) receiver _ => .unaryMethod (.unary op) receiver
  | .invoke _ (.binary op) receiver argument => .method (.binary op) receiver argument
  | .throwNotSupported => .throwNotSupported

end Effects

end Xemmai
