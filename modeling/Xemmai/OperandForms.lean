import Xemmai.Operator

/-!
# Agreement of the operand forms

Each macro family is compared with the `XX` family, which tests both tags at
run time. They agree except for a bitwise operator whose left operand is a
boolean and whose right operand is a literal number: the `XI`, `XF`, `LI` and
`LF` families lack the boolean case that `LX`, `XL` and `XX` have.
-/

namespace Xemmai

set_option autoImplicit false
set_option linter.unusedSectionVars false

variable {F O : Type} [DecidableEq O] [Double F] [Boxed O F]

/-- The values that `t_literal<t_object*>` and `t_null` hold: null, the
booleans, strings and symbols. None is an instance of `Integer` or `Float`. -/
def LiteralValue : Value F O → Prop
  | .null | .boolean _ => True
  | .object object => Boxed.asInteger (F := F) object = none ∧ Boxed.asFloat (F := F) object = none
  | .integer _ | .float _ => False

/-- The operand stands for `value` in this frame. -/
structure Presents (operand : Operand F O) (frame : Frame F O) (position : Nat)
    (value : Value F O) : Prop where
  fetched : frame.fetch position operand = value
  literal : ∀ held, operand = .literal held → LiteralValue held

def Binary.isBitwise (op : Binary) : Bool := op.kind = .bitwise

/-- Every two forms that present the same values, plain or `_TAIL`, compute
the same. -/
def BinaryFormsAgree (op : Binary) (a0 a1 : Value F O) : Prop :=
  ∀ (place place' : Place) (frame frame' : Frame F O) (left right left' right' : Operand F O)
    (effect effect' : Effect F O),
    Presents left frame 1 a0 → Presents right frame 2 a1 →
    Presents left' frame' 1 a0 → Presents right' frame' 2 a1 →
    binary (callsAt place) op left right frame = some effect →
    binary (callsAt place') op left' right' frame' = some effect' →
    effect.outcome = effect'.outcome

def UnaryFormsAgree (op : Unary) (a0 : Value F O) : Prop :=
  ∀ (place place' : Place) (frame frame' : Frame F O) (operand operand' : Operand F O)
    (effect effect' : Effect F O),
    Presents operand frame 1 a0 → Presents operand' frame' 1 a0 →
    unary (callsAt place) op operand frame = some effect →
    unary (callsAt place') op operand' frame' = some effect' →
    effect.outcome = effect'.outcome

/-- The case that the families with a literal number on the right leave out. -/
def BooleanWithNumber (op : Binary) (a0 a1 : Value F O) : Prop :=
  op.isBitwise ∧ a0.isBoolean ∧ a1.isNumber

/-- The outcome of the `XX` family, to which the others are compared. -/
def meaning (op : Binary) (a0 a1 : Value F O) : Outcome F O :=
  (binaryXX (callsAt .stack) op a0 a1 ⟨fun _ => a1, 0⟩).outcome

@[simp] theorem prepare_argument (frame : Frame F O) (right : Operand F O) :
    (frame.prepare right).slot ((frame.prepare right).stack + 2) = frame.fetch 2 right := by
  cases right <;> simp [Frame.prepare, Frame.fetch]

section Families

variable (place : Place) (op : Binary) (frame : Frame F O)

theorem object_or_throw_outcome (a0 a1 : Value F O)
    (argument : frame.slot (frame.stack + 2) = a1) :
    (objectOrThrow (callsAt place) (.binary op) a0 frame).outcome =
      (objectOrThrow (callsAt .stack) (.binary op) a0 ⟨fun _ => a1, 0⟩).outcome := by
  cases a0 <;> simp [objectOrThrow, callsAt, Effect.outcome, argument]

theorem derived_or_throw_outcome {T : Type} (derived : O → Option T)
    (result : T → Option (Value F O)) (a1 : Value F O) :
    (derivedOrThrow (callsAt place) derived result a1).outcome =
      (derivedOrThrow (callsAt .stack) derived result a1).outcome := by
  cases a1 with
  | object object => cases h : derived object <;> simp [derivedOrThrow, callsAt, Effect.outcome, h]
  | _ => rfl

theorem equality_default_outcome (negate : Bool) (a0 a1 : Value F O)
    (argument : frame.slot (frame.stack + 2) = a1) :
    (equalityDefault (callsAt place) negate (.binary op) a0 a1 frame).outcome =
      (equalityDefault (callsAt .stack) negate (.binary op) a0 a1 ⟨fun _ => a1, 0⟩).outcome := by
  cases a0 with
  | object object =>
      by_cases same : (Value.object object).samePointer a1 <;>
        simp [equalityDefault, callsAt, Effect.outcome, argument, same]
  | _ => simp [equalityDefault, callsAt, Effect.outcome]

theorem arithmetic_integer_outcome (f : Arithmetic F O) (a0 : Word) (a1 : Value F O) :
    (arithmeticInteger (callsAt place) f a0 a1).outcome =
      (arithmeticInteger (callsAt .stack) f a0 a1).outcome := by
  cases a1 <;> simp only [arithmeticInteger, derived_or_throw_outcome place] <;> rfl

theorem binary_arithmetic_outcome (f : Arithmetic F O) (a0 : F) (a1 : Value F O) :
    (binaryArithmetic (callsAt place) f a0 a1).outcome =
      (binaryArithmetic (callsAt .stack) f a0 a1).outcome := by
  cases a1 <;> simp only [binaryArithmetic, derived_or_throw_outcome place] <;> rfl

theorem binary_integral_outcome (f : Integral) (a0 : Word) (a1 : Value F O) :
    (binaryIntegral (callsAt place) f a0 a1).outcome =
      (binaryIntegral (callsAt .stack) f a0 a1).outcome := by
  unfold binaryIntegral
  split
  · rfl
  · exact derived_or_throw_outcome place _ _ _

/-- The place of the result and the other slots of the frame do not matter. -/
theorem xx_meaning (a0 a1 : Value F O) (argument : frame.slot (frame.stack + 2) = a1) :
    (binaryXX (callsAt place) op a0 a1 frame).outcome = meaning op a0 a1 := by
  have objects := object_or_throw_outcome place op frame a0 a1 argument
  unfold meaning binaryXX
  cases kind : op.kind with
  | arithmetic =>
      cases a0 with
      | integer value => exact arithmetic_integer_outcome place _ value a1
      | float value => exact binary_arithmetic_outcome place _ value a1
      | _ => exact objects
  | integral =>
      cases a0 with
      | integer value => exact binary_integral_outcome place _ value a1
      | _ => exact objects
  | equality negate =>
      cases a0 with
      | integer value | float value => rfl
      | _ => exact equality_default_outcome place op frame negate _ a1 argument
  | identity negate => rfl
  | bitwise =>
      cases a0 with
      | integer value => exact binary_integral_outcome place _ value a1
      | boolean value => rfl
      | _ => exact objects

theorem lx_meaning (a0 a1 : Value F O) (argument : frame.slot (frame.stack + 2) = a1)
    (literal : LiteralValue a0) :
    (binaryLX (callsAt place) op a0 a1 frame).outcome = meaning op a0 a1 := by
  rw [← xx_meaning place op frame a0 a1 argument]
  unfold binaryLX binaryXX
  cases kind : op.kind <;> cases a0 <;> simp [LiteralValue] at literal ⊢

theorem xl_meaning (a0 a1 : Value F O) (argument : frame.slot (frame.stack + 2) = a1)
    (literal : LiteralValue a1) :
    (binaryXL (callsAt place) op a0 a1 frame).outcome = meaning op a0 a1 := by
  rw [← xx_meaning place op frame a0 a1 argument]
  unfold binaryXL binaryXX
  cases kind : op.kind <;> cases a0 <;> cases a1 <;>
    simp_all [LiteralValue, arithmeticInteger, binaryArithmetic, binaryIntegral, derivedOrThrow,
      derivedOrFalseInteger, derivedOrFalseFloat, binaryEqualityInteger, binaryEqualityFloat]

theorem li_meaning (a0 a1 : Value F O) (argument : frame.slot (frame.stack + 2) = a1)
    (literal : LiteralValue a0) (number : a1.isNumber) (safe : ¬ BooleanWithNumber op a0 a1) :
    (binaryLI (callsAt place) op a0 frame).outcome = meaning op a0 a1 := by
  rw [← lx_meaning place op frame a0 a1 argument literal]
  unfold binaryLI binaryLX
  cases kind : op.kind <;> cases a0 <;> cases a1 <;>
    simp_all [LiteralValue, BooleanWithNumber, Binary.isBitwise, Value.isBoolean, Value.isNumber,
      objectOrFalse, equalityDefault, Value.samePointer, Value.equal]

theorem bitwise_signed_eq_unsigned (bitwise : op.kind = .bitwise) :
    (integral op).signed = (integral op).unsigned := by
  cases op <;> first | rfl | simp [Binary.kind] at bitwise

theorem xi_meaning (a0 : Value F O) (a1 : Word)
    (argument : frame.slot (frame.stack + 2) = .integer a1)
    (safe : ¬ BooleanWithNumber op a0 (.integer a1)) :
    (binaryXI (callsAt place) op a0 a1 frame).outcome = meaning op a0 (.integer a1) := by
  rw [← xx_meaning place op frame a0 (.integer a1) argument]
  unfold binaryXI binaryXX
  cases kind : op.kind <;> cases a0 <;>
    simp_all [BooleanWithNumber, Binary.isBitwise, Value.isBoolean, Value.isNumber,
      objectOrFalse, equalityDefault, Value.samePointer, arithmeticInteger, binaryArithmetic,
      binaryIntegral, binaryEqualityInteger, binaryEqualityFloat, bitwise_signed_eq_unsigned]

theorem xf_meaning (a0 : Value F O) (a1 : F)
    (argument : frame.slot (frame.stack + 2) = .float a1)
    (safe : ¬ BooleanWithNumber op a0 (.float a1)) :
    (binaryXF (callsAt place) op a0 a1 frame).outcome = meaning op a0 (.float a1) := by
  rw [← xx_meaning place op frame a0 (.float a1) argument]
  unfold binaryXF binaryXX
  cases kind : op.kind <;> cases a0 <;>
    simp_all [BooleanWithNumber, Binary.isBitwise, Value.isBoolean, Value.isNumber,
      objectOrThrow, objectOrFalse, equalityDefault, Value.samePointer, arithmeticInteger,
      binaryArithmetic, binaryIntegral, binaryEqualityInteger, binaryEqualityFloat, derivedOrThrow]

theorem il_meaning (a0 : Word) (a1 : Value F O) (argument : frame.slot (frame.stack + 2) = a1)
    (literal : LiteralValue a1) :
    (binaryIL (callsAt place) op a0 a1).outcome = meaning op (.integer a0) a1 := by
  rw [← xl_meaning place op frame (.integer a0) a1 argument literal]
  unfold binaryIL binaryXL
  cases kind : op.kind <;> cases a1 <;> simp_all [LiteralValue, Value.equal]

theorem ix_meaning (a0 : Word) (a1 : Value F O) (argument : frame.slot (frame.stack + 2) = a1) :
    (binaryIX (callsAt place) op a0 a1).outcome = meaning op (.integer a0) a1 := by
  rw [← xx_meaning place op frame (.integer a0) a1 argument]
  unfold binaryIX binaryXX
  cases kind : op.kind <;> rfl

theorem fl_meaning (a0 : F) (a1 : Value F O) (argument : frame.slot (frame.stack + 2) = a1)
    (literal : LiteralValue a1) :
    (binaryFL (callsAt place) op a0 a1).outcome = meaning op (.float a0) a1 := by
  rw [← xl_meaning place op frame (.float a0) a1 argument literal]
  unfold binaryFL binaryXL
  cases kind : op.kind <;> cases a1 <;> simp_all [LiteralValue, Value.equal, objectOrThrow]

theorem fx_meaning (a0 : F) (a1 : Value F O) (argument : frame.slot (frame.stack + 2) = a1) :
    (binaryFX (callsAt place) op a0 a1).outcome = meaning op (.float a0) a1 := by
  rw [← xx_meaning place op frame (.float a0) a1 argument]
  unfold binaryFX binaryXX
  cases kind : op.kind <;> rfl

end Families

/-- Every form computes the outcome of the `XX` family, the left-out case apart. -/
theorem binary_form_meaning (op : Binary) (a0 a1 : Value F O) (place : Place) (frame : Frame F O)
    (left right : Operand F O) (effect : Effect F O)
    (presentsLeft : Presents left frame 1 a0) (presentsRight : Presents right frame 2 a1)
    (handled : binary (callsAt place) op left right frame = some effect)
    (safe : ¬ BooleanWithNumber op a0 a1) :
    effect.outcome = meaning op a0 a1 := by
  obtain ⟨fetchedLeft, literalLeft⟩ := presentsLeft
  obtain ⟨fetchedRight, literalRight⟩ := presentsRight
  have argument := prepare_argument frame right
  rw [fetchedRight] at argument
  subst fetchedLeft
  cases right with
  | integer value =>
      subst fetchedRight
      cases left <;> simp only [binary, Option.some.injEq, reduceCtorEq] at handled <;>
        subst handled
      · exact li_meaning place op _ _ _ argument (literalLeft _ rfl) rfl safe
      · exact xi_meaning place op _ _ value argument safe
      · exact xi_meaning place op _ _ value argument safe
  | float value =>
      subst fetchedRight
      cases left <;> simp only [binary, Option.some.injEq, reduceCtorEq] at handled <;>
        subst handled
      · exact li_meaning place op _ _ _ argument (literalLeft _ rfl) rfl safe
      · exact xf_meaning place op _ _ value argument safe
      · exact xf_meaning place op _ _ value argument safe
  | literal held =>
      subst fetchedRight
      have literal := literalRight held rfl
      cases left <;> simp only [binary, Option.some.injEq] at handled <;> subst handled
      · exact il_meaning place op _ _ _ argument literal
      · exact fl_meaning place op _ _ _ argument literal
      · exact lx_meaning place op _ _ _ argument (literalLeft _ rfl)
      · exact xl_meaning place op _ _ _ argument literal
      · exact xl_meaning place op _ _ _ argument literal
  | _ =>
      subst fetchedRight
      cases left <;> simp only [binary, Option.some.injEq] at handled <;> subst handled
      · exact ix_meaning place op _ _ _ argument
      · exact fx_meaning place op _ _ _ argument
      · exact lx_meaning place op _ _ _ argument (literalLeft _ rfl)
      · exact xx_meaning place op _ _ _ argument
      · exact xx_meaning place op _ _ _ argument

theorem binary_forms_agree (op : Binary) (a0 a1 : Value F O)
    (safe : ¬ BooleanWithNumber op a0 a1) : BinaryFormsAgree op a0 a1 := by
  intro place place' frame frame' left right left' right' effect effect'
    presentsLeft presentsRight presentsLeft' presentsRight' handled handled'
  rw [binary_form_meaning op a0 a1 place frame left right effect presentsLeft presentsRight
      handled safe,
    binary_form_meaning op a0 a1 place' frame' left' right' effect' presentsLeft' presentsRight'
      handled' safe]

def temporaries (a0 a1 : Value F O) : Frame F O where
  slot index := if index = 1 then a0 else a1
  stack := 0

/-- In the left-out case the literal form throws and the temporary form
computes a boolean. -/
theorem boolean_with_number_disagrees (op : Binary) (a0 a1 : Value F O)
    (leftOut : BooleanWithNumber op a0 a1) : ¬ BinaryFormsAgree op a0 a1 := by
  intro agree
  obtain ⟨bitwise, isBoolean, isNumber⟩ := leftOut
  have kind : op.kind = .bitwise := by simpa [Binary.isBitwise] using bitwise
  cases a0 <;> simp [Value.isBoolean] at isBoolean
  rename_i held
  cases a1 <;> simp [Value.isNumber] at isNumber
  · rename_i number
    have clash := agree .stack .stack
      (temporaries (.boolean held) (.integer number)) (temporaries (.boolean held) (.integer number))
      .temporary (.integer number) .temporary .temporary _ _
      ⟨rfl, by simp⟩ ⟨rfl, by simp⟩ ⟨rfl, by simp⟩ ⟨rfl, by simp⟩ rfl rfl
    simp [binaryXI, binaryXX, kind, temporaries, Frame.fetch, objectOrThrow, callsAt,
      Effect.outcome] at clash
  · rename_i number
    have clash := agree .stack .stack
      (temporaries (.boolean held) (.float number)) (temporaries (.boolean held) (.float number))
      .temporary (.float number) .temporary .temporary _ _
      ⟨rfl, by simp⟩ ⟨rfl, by simp⟩ ⟨rfl, by simp⟩ ⟨rfl, by simp⟩ rfl rfl
    simp [binaryXF, binaryXX, kind, temporaries, Frame.fetch, objectOrThrow, callsAt,
      Effect.outcome] at clash

theorem unary_outcome (op : Unary) (a0 : Value F O) (place place' : Place)
    (frame frame' : Frame F O) :
    (unaryX (callsAt place) op a0 frame).outcome =
      (unaryX (callsAt place') op a0 frame').outcome := by
  cases op <;> cases a0 <;> rfl

theorem unary_forms_agree (op : Unary) (a0 : Value F O) : UnaryFormsAgree op a0 := by
  intro place place' frame frame' operand operand' effect effect' presents presents'
    handled handled'
  have computed : effect = unaryX (callsAt place) op a0 frame := by
    rw [← presents.fetched]
    cases operand <;> simp_all [unary]
  have computed' : effect' = unaryX (callsAt place') op a0 frame' := by
    rw [← presents'.fetched]
    cases operand' <;> simp_all [unary]
  rw [computed, computed']
  exact unary_outcome op a0 place place' frame frame'

/-- The forms of a binary operator agree on two values exactly when the
operator is not bitwise, or the left value is no boolean, or the right value
no number; the forms of a unary operator always agree. -/
theorem operand_forms_agree_iff :
    (∀ (op : Binary) (a0 a1 : Value F O),
      BinaryFormsAgree op a0 a1 ↔ ¬ BooleanWithNumber op a0 a1) ∧
    ∀ (op : Unary) (a0 : Value F O), UnaryFormsAgree op a0 := by
  refine ⟨fun op a0 a1 => ⟨fun agree leftOut => ?_, binary_forms_agree op a0 a1⟩,
    unary_forms_agree⟩
  exact boolean_with_number_disagrees op a0 a1 leftOut agree

/-- `x & 1` throws for `x = true`, while `x & y` is `true` for `y = 1`. -/
theorem boolean_and_literal_integer :
    ¬ ∀ (op : Binary) (a0 a1 : Value Int Unit), BinaryFormsAgree op a0 a1 := by
  intro agree
  have clash := agree .and (.boolean true) (.integer 1) .stack .stack
    ⟨fun index => if index = 0 then .boolean true else .integer 1, 2⟩
    ⟨fun index => if index = 0 then .boolean true else .integer 1, 2⟩
    (.variable 0) (.integer 1) (.variable 0) (.variable 1) _ _
    ⟨rfl, by simp⟩ ⟨rfl, by simp⟩ ⟨rfl, by simp⟩ ⟨rfl, by simp⟩ rfl rfl
  simp [binaryXI, binaryXX, Binary.kind, Frame.fetch, objectOrThrow, callsAt,
    Effect.outcome] at clash

end Xemmai
