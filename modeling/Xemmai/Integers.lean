import Mathlib
import Xemmai.Folding
import Xemmai.Methods

/-!
# Immediate and boxed integers

An integer may be immediate or held by an instance of a class derived from
`Integer`. The instructions and the operators of `t_value` treat the one, the methods
of `Integer` the other. The modulus of the former is that of two `uintptr_t`, that of
the latter that of two `intptr_t`; all else is the same.
-/

namespace Xemmai

set_option autoImplicit false
set_option linter.unusedSectionVars false

open Expression (SameRemainder same_remainder_iff)

section

variable {F O : Type} [DecidableEq O] [Double F] [Boxed O F]

/-- The value is the integer, or an object that holds it. -/
inductive Represents (number : Word) : Value F O → Prop
  | immediate : Represents number (.integer number)
  | boxed {object : O} (holds : Boxed.asInteger (F := F) object = some number) :
      Represents number (.object object)

/-- The operators that `Integer` has a method for. -/
def Binary.HasMethod (op : Binary) : Prop := ∀ negate, op.kind ≠ .identity negate

def Binary.Defined : Binary → Word → Word → Prop
  | .divide, left, right | .modulus, left, right =>
      right ≠ 0 ∧ ¬(left = BitVec.intMin 64 ∧ right = -1)
  | .leftShift, _, right | .rightShift, _, right => right.toNat < 64
  | _, _, _ => True

/-- What the instructions compute of two immediate integers. -/
def primitive (op : Binary) (left right : Word) : Option (Value F O) :=
  match op.kind with
  | .arithmetic => (arithmetic op).integers left right
  | .integral | .bitwise => ((integral op).unsigned left right).map .integer
  | .equality negate => some (.boolean (negate ^^ left == right))
  | .identity _ => none

/-- What the methods of `Integer` compute of two integers. -/
def boxed (op : Binary) (left right : Word) : Option (Value F O) :=
  match op with
  | .modulus => (modulusSigned left right).map .integer
  | _ => primitive op left right

variable {left right : Word} {x y : Value F O}

theorem Represents.toInteger {number : Word} {value : Value F O}
    (represents : Represents number value) : value.toInteger = some number := by
  cases represents with
  | immediate => rfl
  | boxed holds => exact holds

theorem Represents.not_boolean {number : Word} {value : Value F O}
    (represents : Represents number value) : value.isBoolean = false := by
  cases represents <;> rfl

/-- The methods check the argument in their own ways, and find the same integer. -/
theorem method_boxed {op : Binary} (has : op.HasMethod) (represents : Represents right y) :
    IntegerType.binaryMethod op left y = .value (boxed op left right) := by
  have integer := represents.toInteger
  cases op with
  | identical => exact absurd rfl (has false)
  | notIdentical => exact absurd rfl (has true)
  | modulus => simp [IntegerType.binaryMethod, IntegerType.modulus, checkInteger, integer, boxed]
  | leftShift | rightShift | and | xor | or =>
      simp [IntegerType.binaryMethod, IntegerType.leftShift, IntegerType.rightShift,
        IntegerType.and, IntegerType.xor, IntegerType.or, checkInteger, integer, boxed,
        primitive, Binary.kind, integral]
  | equals | notEquals =>
      cases represents with
      | immediate =>
          simp [IntegerType.binaryMethod, IntegerType.equals, IntegerType.notEquals, boxed,
            primitive, Binary.kind, bne]
      | boxed holds =>
          simp [IntegerType.binaryMethod, IntegerType.equals, IntegerType.notEquals, holds,
            boxed, primitive, Binary.kind, bne]
  | _ =>
      cases represents with
      | immediate => rfl
      | boxed holds =>
          simp [IntegerType.binaryMethod, IntegerType.multiply, IntegerType.divide,
            IntegerType.add, IntegerType.subtract, IntegerType.less, IntegerType.lessEqual,
            IntegerType.greater, IntegerType.greaterEqual, IntegerType.switch, holds, boxed,
            primitive, Binary.kind]

theorem dispatch_boxed {op : Binary} (has : op.HasMethod) {object : O}
    (holds : Boxed.asInteger (F := F) object = some left) (represents : Represents right y) :
    dispatch op object y = .value (boxed op left right) := by
  rw [dispatch, holds]
  exact method_boxed has represents

/-- An instruction computes what is computed of immediate integers, or calls the method
of a boxed one on the left. -/
theorem instruction_answer {op : Binary} (has : op.HasMethod) (represents : Represents left x)
    (represents' : Represents right y) :
    (meaning op x y).answer = .value (primitive op left right) ∨
      (meaning op x y).answer = .value (boxed op left right) := by
  cases represents with
  | immediate =>
      left
      unfold meaning binaryXX primitive
      cases kind : op.kind with
      | identity negate => exact absurd kind (has negate)
      | arithmetic =>
          cases represents' with
          | immediate => rfl
          | boxed holds =>
              simp [arithmeticInteger, derivedOrThrow, holds, callsAt, Effect.outcome,
                Outcome.answer]
      | integral | bitwise =>
          cases represents' with
          | immediate => rfl
          | boxed holds =>
              simp [binaryIntegral, derivedOrThrow, holds, callsAt, Effect.outcome,
                Outcome.answer]
      | equality negate =>
          cases represents' with
          | immediate => rfl
          | boxed holds =>
              simp [binaryEqualityInteger, holds, callsAt, Effect.outcome, Outcome.answer,
                eq_comm]
  | @boxed object holds =>
      unfold meaning binaryXX
      cases kind : op.kind with
      | identity negate => exact absurd kind (has negate)
      | equality negate =>
          right
          by_cases same : (Value.object object).samePointer y
          · -- the instruction does not ask the object about itself
            have number : left = right := by
              cases represents' with
              | immediate => cases same
              | boxed holds' =>
                  obtain rfl := beq_iff_eq.mp same
                  exact Option.some.inj (holds.symm.trans holds')
            subst number
            have result : boxed (F := F) (O := O) op left left =
                some (.boolean (negate ^^ true)) := by
              cases op <;> simp_all [boxed, primitive, Binary.kind]
            rw [result]
            simp [equalityDefault, same, callsAt, Effect.outcome, Outcome.answer]
          · simp only [equalityDefault, same]
            exact dispatch_boxed has holds represents'
      | _ =>
          right
          exact dispatch_boxed has holds represents'

theorem operator_immediate {op : Binary} (has : op.HasMethod)
    (represents : Represents right y) :
    valueBinary op (.integer left) y = .value (primitive op left right) := by
  have integer := represents.toInteger
  unfold valueBinary primitive
  cases kind : op.kind with
  | identity negate => exact absurd kind (has negate)
  | arithmetic =>
      cases represents with
      | immediate => rfl
      | boxed holds => simp [IntegerType.switch, holds]
  | integral => simp [checkInteger, integer]
  | bitwise => simp [checkInteger, integer, bitwise_signed_eq_unsigned op kind]
  | equality negate =>
      have equal : IntegerType.binaryMethod .equals left y = .value (boxed .equals left right) :=
        method_boxed nofun represents
      have unequal : IntegerType.binaryMethod .notEquals left y =
          .value (boxed .notEquals left right) := method_boxed nofun represents
      cases negate
      · simpa [boxed, primitive, Binary.kind, IntegerType.binaryMethod] using equal
      · simpa [boxed, primitive, Binary.kind, IntegerType.binaryMethod] using unequal

theorem operator_boxed {op : Binary} (has : op.HasMethod) {object : O}
    (holds : Boxed.asInteger (F := F) object = some left) (represents : Represents right y) :
    valueBinary op (.object object) y = .value (boxed op left right) := by
  rw [← dispatch_boxed has holds represents]
  unfold valueBinary
  cases kind : op.kind with
  | identity negate => exact absurd kind (has negate)
  | _ => rfl

/-- However it is computed, the result is that of the instructions or of the methods. -/
theorem computes_answer {op : Binary} (has : op.HasMethod) (represents : Represents left x)
    (represents' : Represents right y) {answer : Answer F O} (computes : Computes op x y answer) :
    answer = .value (primitive op left right) ∨ answer = .value (boxed op left right) := by
  cases computes with
  | operator =>
      cases represents with
      | immediate => exact Or.inl (operator_immediate has represents')
      | boxed holds => exact Or.inr (operator_boxed has holds represents')
  | instruction presentsLeft presentsRight handled =>
      have safe : ¬BooleanWithNumber op x y := by
        rintro ⟨-, boolean, -⟩
        rw [represents.not_boolean] at boolean
        cases boolean
      rw [binary_form_meaning op x y _ _ _ _ _ presentsLeft presentsRight handled safe]
      exact instruction_answer has represents represents'

theorem primitive_eq_boxed_iff {op : Binary} (defined : op.Defined left right) :
    primitive (F := F) (O := O) op left right = boxed op left right ↔
      (op = .modulus → SameRemainder left right) := by
  cases op with
  | modulus =>
      obtain ⟨nonzero, noTrap⟩ := defined
      have signed : modulusSigned left right = some (left.srem right) := by
        rw [modulusSigned, if_neg (not_or.mpr ⟨nonzero, noTrap⟩)]
      have unsigned : (integral .modulus).unsigned left right = some (left.umod right) :=
        if_neg nonzero
      have exact_ := same_remainder_iff left right nonzero
      simp only [primitive, boxed, Binary.kind, signed, unsigned, Option.map_some,
        Option.some.injEq, Value.integer.injEq, true_implies]
      rw [eq_comm, exact_, SameRemainder, or_iff_right nonzero]
  | _ => exact iff_of_true rfl (by simp)

theorem primitive_some {op : Binary} (has : op.HasMethod) (defined : op.Defined left right) :
    ∃ value : Value F O, primitive op left right = some value := by
  cases op with
  | identical => exact absurd rfl (has false)
  | notIdentical => exact absurd rfl (has true)
  | divide =>
      refine ⟨.integer (left.sdiv right), ?_⟩
      simp only [primitive, Binary.kind, arithmetic, divideSigned]
      rw [if_neg (not_or.mpr defined)]
      rfl
  | modulus =>
      refine ⟨.integer (left.umod right), ?_⟩
      simp only [primitive, Binary.kind, integral, modulusUnsigned]
      rw [if_neg defined.1]
      rfl
  | leftShift =>
      exact ⟨.integer (left <<< right.toNat), by
        simp [primitive, Binary.kind, integral, shift, show right.toNat < 64 from defined]⟩
  | rightShift =>
      exact ⟨.integer (left >>> right.toNat), by
        simp [primitive, Binary.kind, integral, shift, show right.toNat < 64 from defined]⟩
  | _ => exact ⟨_, rfl⟩

variable (F O) in
/-- However the integers are held and the operator is applied, there is one result. -/
def Alike (op : Binary) (left right : Word) : Prop :=
  ∃ value : Value F O, ∀ x y : Value F O, Represents left x → Represents right y →
    ∀ answer, Computes op x y answer → answer = .value (some value)

variable (F O) in
def AlikeUnary (op : Unary) (number : Word) : Prop :=
  ∃ value : Value F O, ∀ x : Value F O, Represents number x →
    ∀ answer, ComputesUnary op x answer → answer = .value (some value)

/-- An operator whose operation is defined is alike, the modulus where the remainders
of the signed and of the unsigned words are the same. -/
theorem alike_iff (boxes : ∀ number, ∃ object : O, Boxed.asInteger (F := F) object = some number)
    {op : Binary} (has : op.HasMethod) (defined : op.Defined left right) :
    Alike F O op left right ↔ (op = .modulus → SameRemainder left right) := by
  rw [← primitive_eq_boxed_iff (F := F) (O := O) defined]
  constructor
  · rintro ⟨value, alike⟩
    obtain ⟨object, holds⟩ := boxes left
    have second : Represents right (.integer right : Value F O) := .immediate
    have plain := alike _ _ .immediate second _ .operator
    have held := alike _ _ (.boxed holds) second _ .operator
    rw [operator_immediate has .immediate] at plain
    rw [operator_boxed has holds .immediate] at held
    exact Answer.value.inj (plain.trans held.symm)
  · intro same
    obtain ⟨value, result⟩ := primitive_some (F := F) (O := O) has defined
    refine ⟨value, fun x y represents represents' answer computes => ?_⟩
    rcases computes_answer has represents represents' computes with rfl | rfl
    · rw [result]
    · rw [← same, result]

def primitiveUnary : Unary → Word → Word
  | .minus, number => -number
  | .complement, number => ~~~number
  | _, number => number

theorem unary_answer {op : Unary} (has : op ≠ .not) {number : Word}
    (represents : Represents number x) :
    valueUnary op x = .value (some (.integer (primitiveUnary op number))) ∧
      (unaryX (callsAt .stack) op x ⟨fun _ => x, 0⟩).outcome.answer =
        .value (some (.integer (primitiveUnary op number))) := by
  cases represents with
  | immediate =>
      cases op with
      | not => exact absurd rfl has
      | _ => exact ⟨rfl, rfl⟩
  | boxed holds =>
      cases op with
      | not => exact absurd rfl has
      | _ =>
          simp [valueUnary, unaryX, objectOrThrow, callsAt, Effect.outcome, Outcome.answer,
            dispatchUnary, holds, IntegerType.unaryMethod, IntegerType.plus, IntegerType.minus,
            IntegerType.complement, primitiveUnary]

theorem alike_unary {op : Unary} (has : op ≠ .not) (number : Word) :
    AlikeUnary F O op number := by
  refine ⟨.integer (primitiveUnary op number), fun x represents answer computes => ?_⟩
  obtain ⟨operator, instruction⟩ := unary_answer has represents
  cases computes with
  | operator => exact operator
  | @instruction place frame operand effect presents handled =>
      have computed : effect = unaryX (callsAt place) op x frame := by
        rw [← presents.fetched]
        cases operand <;> simp_all [unary]
      rw [computed, unary_outcome op x place .stack frame ⟨fun _ => x, 0⟩, instruction]

/-- Immediate and boxed integers compute alike, the modulus exactly where the signed and
the unsigned remainder are the same. -/
theorem integers_alike_iff
    (boxes : ∀ number, ∃ object : O, Boxed.asInteger (F := F) object = some number) :
    (∀ (op : Binary) (left right : Word), op.HasMethod → op.Defined left right →
      (Alike F O op left right ↔ (op = .modulus → SameRemainder left right))) ∧
    ∀ (op : Unary) (number : Word), op ≠ .not → AlikeUnary F O op number :=
  ⟨fun _ _ _ has defined => alike_iff boxes has defined, fun _ number has =>
    alike_unary has number⟩

end

/-- Instances of a class derived from `Integer`. -/
structure Held where
  number : Word
  deriving DecidableEq, Repr

instance heldInteger : Boxed Held Int where
  asInteger held := some held.number
  asFloat _ := none

theorem integers_alike_held :
    (∀ number, ∃ object : Held, Boxed.asInteger (F := Int) object = some number) ∧
    Alike Int Held .modulus 7 3 ∧ AlikeUnary Int Held .minus 7 := by
  have boxes : ∀ number, ∃ object : Held, Boxed.asInteger (F := Int) object = some number :=
    fun number => ⟨⟨number⟩, rfl⟩
  obtain ⟨binary_, unary_⟩ := integers_alike_iff boxes
  refine ⟨boxes, ?_, unary_ .minus 7 nofun⟩
  refine (binary_ .modulus 7 3 nofun ⟨by decide, by decide⟩).mpr fun _ => ?_
  exact .inr (.inr (.inl (by decide)))

/-- The remainder of `-7` by `3` is zero unsigned and `-1` signed. -/
theorem modulus_not_alike :
    Binary.modulus.HasMethod ∧ Binary.modulus.Defined (-7) 3 ∧
      ¬Alike Int Held .modulus (-7) 3 := by
  refine ⟨nofun, ⟨by decide, by decide⟩, ?_⟩
  rintro ⟨value, alike⟩
  have plain := alike (.integer (-7)) (.integer 3) .immediate .immediate _ .operator
  have held := alike (.object ⟨-7⟩) (.integer 3) (.boxed rfl) .immediate _ .operator
  exact absurd (plain.trans held.symm) (by decide)

end Xemmai
