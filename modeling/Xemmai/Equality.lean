import Xemmai.Methods

/-!
# Symmetry of the equality

A number on the left looks at the tag of the right operand, and of an object takes
its own kind only: an integer does not find a float in an instance of a class derived
from `Float`, which finds the integer, and the other way around.
-/

namespace Xemmai

set_option autoImplicit false
set_option linter.unusedSectionVars false

section

variable {F O : Type} [DecidableEq O] [Double F] [Boxed O F]

/-- Null, a boolean, a number or an instance of a class derived from one of `Integer`
and `Float`. -/
def Comparable : Value F O → Prop
  | .object object =>
      (∃ number, Boxed.asInteger (F := F) object = some number ∧
        Boxed.asFloat (F := F) object = none) ∨
      (Boxed.asInteger (F := F) object = none ∧
        ∃ number, Boxed.asFloat (F := F) object = some number)
  | _ => True

inductive Route
  | instruction
  | operator
  | method
  deriving DecidableEq, Repr

def Evaluates (op : Binary) (x y : Value F O) (answer : Answer F O) : Route → Prop
  | .instruction => ∃ (place : Place) (frame : Frame F O) (left right : Operand F O)
      (effect : Effect F O), Presents left frame 1 x ∧ Presents right frame 2 y ∧
      binary (callsAt place) op left right frame = some effect ∧ answer = effect.outcome.answer
  | .operator => answer = valueBinary op x y
  | .method => answer = method op x y

/-- On some paths `x == y` and `y == x` give one boolean, and `!=` its negation. -/
def Symmetric (paths : Route → Prop) (x y : Value F O) : Prop :=
  ∃ same : Bool, ∀ path, paths path →
    (∀ answer, Evaluates .equals x y answer path → answer = .value (some (.boolean same))) ∧
    (∀ answer, Evaluates .equals y x answer path → answer = .value (some (.boolean same))) ∧
    (∀ answer, Evaluates .notEquals x y answer path → answer = .value (some (.boolean !same))) ∧
    (∀ answer, Evaluates .notEquals y x answer path → answer = .value (some (.boolean !same)))

/-- The equality of the methods. -/
def equality (x y : Value F O) : Bool :=
  match x with
  | .integer number => binaryEqualityInteger number y
  | .float number => binaryEqualityFloat number y
  | .object object =>
      match Boxed.asInteger (F := F) object with
      | some number => binaryEqualityInteger number y
      | none =>
          match Boxed.asFloat (F := F) object with
          | some number => binaryEqualityFloat number y
          | none => false
  | _ => x.samePointer y

/-- A number of the one kind facing an object that holds an equal one of the other. -/
def Crosses : Value F O → Value F O → Prop
  | .integer left, .object object => ∃ right, Boxed.asFloat object = some right ∧
      Double.equals (Double.ofInteger left : F) right = true
  | .float left, .object object => ∃ right, Boxed.asInteger (F := F) object = some right ∧
      Double.equals left (Double.ofInteger right) = true
  | _, _ => False

/-- One object, of a float that is not equal to itself. -/
def SelfUnequal (x y : Value F O) : Prop :=
  ∃ (object : O) (number : F), x = .object object ∧ y = .object object ∧
    Boxed.asFloat object = some number ∧ Double.equals number number = false

variable {x y : Value F O}

theorem integer_equals (number : Word) (y : Value F O) :
    IntegerType.equals number y = .value (some (.boolean (binaryEqualityInteger number y))) ∧
      IntegerType.notEquals number y =
        .value (some (.boolean !binaryEqualityInteger number y)) := by
  cases y with
  | object object =>
      simp only [IntegerType.equals, IntegerType.notEquals, binaryEqualityInteger]
      cases Boxed.asInteger (F := F) object <;> simp [bne, eq_comm]
  | _ => simp [IntegerType.equals, IntegerType.notEquals, binaryEqualityInteger, bne]

theorem float_equals (number : F) (y : Value F O) :
    FloatType.equals number y = .value (some (.boolean (binaryEqualityFloat number y))) ∧
      FloatType.notEquals number y =
        .value (some (.boolean !binaryEqualityFloat number y)) := by
  cases y with
  | object object =>
      simp only [FloatType.equals, FloatType.notEquals, binaryEqualityFloat, Value.toFloat]
      cases Boxed.asFloat (F := F) object <;> simp
  | _ => simp [FloatType.equals, FloatType.notEquals, binaryEqualityFloat, Value.toFloat]

theorem dispatch_equality {object : O} (comparable : Comparable (.object object : Value F O))
    (y : Value F O) :
    dispatch .equals object y = .value (some (.boolean (equality (.object object) y))) ∧
      dispatch .notEquals object y =
        .value (some (.boolean !equality (.object object) y)) := by
  rcases comparable with ⟨number, holds, -⟩ | ⟨none_, number, holds⟩
  · simp only [dispatch, equality, holds]
    exact integer_equals number y
  · simp only [dispatch, equality, holds, none_]
    exact float_equals number y

theorem operator_equality (comparable : Comparable x) (y : Value F O) :
    valueBinary .equals x y = .value (some (.boolean (equality x y))) ∧
      valueBinary .notEquals x y = .value (some (.boolean !equality x y)) := by
  cases x with
  | integer number => exact integer_equals number y
  | float number => exact float_equals number y
  | object object => exact dispatch_equality comparable y
  | _ => simp [valueBinary, Binary.kind, equality]

theorem method_equality (comparable : Comparable x) (y : Value F O) :
    method .equals x y = .value (some (.boolean (equality x y))) ∧
      method .notEquals x y = .value (some (.boolean !equality x y)) := by
  cases x with
  | integer number => exact integer_equals number y
  | float number => exact float_equals number y
  | object object => exact dispatch_equality comparable y
  | _ => cases y <;> simp [method, Binary.kind, equality, Value.equal, Value.samePointer]

theorem instruction_equality (comparable : Comparable x) (y : Value F O) :
    (meaning .equals x y).answer =
        .value (some (.boolean (x.isObject && x.samePointer y || equality x y))) ∧
      (meaning .notEquals x y).answer =
        .value (some (.boolean !(x.isObject && x.samePointer y || equality x y))) := by
  cases x with
  | object object =>
      have dispatched := dispatch_equality comparable y
      by_cases same : (Value.object object : Value F O).samePointer y
      · simp [meaning, binaryXX, Binary.kind, equalityDefault, same, Value.isObject, callsAt,
          Effect.outcome, Outcome.answer]
      · simp [meaning, binaryXX, Binary.kind, equalityDefault, same, Value.isObject, callsAt,
          Effect.outcome, Outcome.answer, dispatched]
  | _ =>
      simp [meaning, binaryXX, Binary.kind, equalityDefault, Value.isObject, callsAt,
        Effect.outcome, Outcome.answer, equality]

theorem crosses_objects (crosses : Crosses x y) : x.isObject = false ∧ y.isObject = true := by
  cases x <;> cases y <;> first | exact ⟨rfl, rfl⟩ | cases crosses

section

variable (symmetric : ∀ left right : F, Double.equals left right = Double.equals right left)
include symmetric

/-- An immediate number and an instance see each other alike unless they cross. -/
theorem equality_object_iff {object : O} (comparable : Comparable x) (immediate : x.isObject = false)
    (comparable' : Comparable (.object object : Value F O)) :
    equality x (.object object) = equality (.object object) x ↔ ¬Crosses x (.object object) := by
  rcases comparable' with ⟨number, holds, none_⟩ | ⟨none_, number, holds⟩
  · cases x with
    | object other => cases immediate
    | float left =>
        have forth : equality (.float left) (.object object : Value F O) = false := by
          simp [equality, binaryEqualityFloat, none_]
        have back : equality (.object object : Value F O) (.float left) =
            Double.equals left (Double.ofInteger number) := by
          simp [equality, holds, binaryEqualityInteger, symmetric left]
        have crosses : Crosses (.float left) (.object object : Value F O) ↔
            Double.equals left (Double.ofInteger number) = true := by
          simp [Crosses, holds]
        rw [forth, back, crosses]
        cases Double.equals left (Double.ofInteger number) <;> decide
    | integer left =>
        refine iff_of_true ?_ (by simp [Crosses, none_])
        simp only [equality, holds, binaryEqualityInteger]
        rw [Bool.eq_iff_iff, beq_iff_eq, beq_iff_eq, Option.some.injEq]
    | _ => simp [equality, holds, binaryEqualityInteger, Crosses, Value.samePointer]
  · cases x with
    | object other => cases immediate
    | integer left =>
        have forth : equality (.integer left) (.object object : Value F O) = false := by
          simp [equality, binaryEqualityInteger, none_]
        have back : equality (.object object : Value F O) (.integer left) =
            Double.equals (Double.ofInteger left) number := by
          simp [equality, none_, holds, binaryEqualityFloat, symmetric number]
        have crosses : Crosses (.integer left) (.object object : Value F O) ↔
            Double.equals (Double.ofInteger left) number = true := by
          simp [Crosses, holds]
        rw [forth, back, crosses]
        cases Double.equals (Double.ofInteger left) number <;> decide
    | float left =>
        refine iff_of_true ?_ (by simp [Crosses, none_])
        simp [equality, none_, holds, binaryEqualityFloat, symmetric left]
    | _ => simp [equality, none_, holds, binaryEqualityFloat, Crosses, Value.samePointer]

theorem equality_objects {left right : O} (comparable : Comparable (.object left : Value F O))
    (comparable' : Comparable (.object right : Value F O)) :
    equality (.object left : Value F O) (.object right) =
      equality (.object right : Value F O) (.object left) := by
  rcases comparable with ⟨number, holds, none_⟩ | ⟨none_, number, holds⟩ <;>
    rcases comparable' with ⟨number', holds', none'⟩ | ⟨none', number', holds'⟩
  · simp only [equality, holds, holds', binaryEqualityInteger]
    rw [Bool.eq_iff_iff, beq_iff_eq, beq_iff_eq, Option.some.injEq, Option.some.injEq, eq_comm]
  · simp [equality, holds, holds', none_, none', binaryEqualityInteger, binaryEqualityFloat]
  · simp [equality, holds, holds', none_, none', binaryEqualityInteger, binaryEqualityFloat]
  · simp [equality, holds, holds', none_, none', binaryEqualityFloat, symmetric number]

theorem equality_immediates (immediate : x.isObject = false) (immediate' : y.isObject = false) :
    equality x y = equality y x := by
  cases x with
  | object left => cases immediate
  | null =>
      cases y with
      | object right => cases immediate'
      | _ => rfl
  | boolean left =>
      cases y with
      | object right => cases immediate'
      | boolean right => exact BEq.comm
      | _ => rfl
  | integer left =>
      cases y with
      | object right => cases immediate'
      | integer right => exact BEq.comm
      | float right => exact symmetric _ _
      | _ => rfl
  | float left =>
      cases y with
      | object right => cases immediate'
      | integer right | float right => exact symmetric _ _
      | _ => rfl

theorem equality_symm_iff (comparable : Comparable x) (comparable' : Comparable y) :
    equality x y = equality y x ↔ ¬Crosses x y ∧ ¬Crosses y x := by
  cases left : x.isObject with
  | false =>
      have stays : ¬Crosses y x := by
        intro crosses
        rw [(crosses_objects crosses).2] at left
        cases left
      cases right : y.isObject with
      | false =>
          refine iff_of_true (equality_immediates symmetric left right) ⟨?_, stays⟩
          intro crosses
          rw [(crosses_objects crosses).2] at right
          cases right
      | true =>
          cases y with
          | object object =>
              rw [equality_object_iff symmetric comparable left comparable']
              exact (and_iff_left stays).symm
          | _ => cases right
  | true =>
      have stays : ¬Crosses x y := by
        intro crosses
        rw [(crosses_objects crosses).1] at left
        cases left
      cases x with
      | object object =>
          cases right : y.isObject with
          | false =>
              rw [eq_comm, equality_object_iff symmetric comparable' right comparable]
              exact (and_iff_right stays).symm
          | true =>
              cases y with
              | object other =>
                  refine iff_of_true (equality_objects symmetric comparable comparable') ?_
                  exact ⟨stays, fun crosses => nomatch (crosses_objects crosses).1⟩
              | _ => cases right
      | _ => cases left

end

/-- What `x == y` is on a path. -/
def result (x y : Value F O) : Route → Bool
  | .instruction => x.isObject && x.samePointer y || equality x y
  | .operator | .method => equality x y

theorem evaluates_meaning {op : Binary} (plain : op.isBitwise = false) (x y : Value F O)
    (answer : Answer F O) :
    Evaluates op x y answer .instruction ↔ answer = (meaning op x y).answer := by
  have safe : ¬BooleanWithNumber op x y := by
    rintro ⟨bitwise, -⟩
    rw [plain] at bitwise
    cases bitwise
  constructor
  · rintro ⟨place, frame, left, right, effect, presentsLeft, presentsRight, handled, rfl⟩
    rw [binary_form_meaning op x y place frame left right effect presentsLeft presentsRight
      handled safe]
  · rintro rfl
    have presentsLeft : Presents .temporary (temporaries x y) 1 x := ⟨rfl, nofun⟩
    have presentsRight : Presents .temporary (temporaries x y) 2 y := ⟨rfl, nofun⟩
    have handled : ∃ effect, binary (callsAt .stack) op .temporary .temporary (temporaries x y) =
        some effect := ⟨_, rfl⟩
    obtain ⟨effect, handled⟩ := handled
    refine ⟨_, _, _, _, effect, presentsLeft, presentsRight, handled, ?_⟩
    rw [binary_form_meaning op x y _ _ _ _ effect presentsLeft presentsRight handled safe]

theorem evaluates_equals (comparable : Comparable x) (y : Value F O) (answer : Answer F O)
    (path : Route) :
    (Evaluates .equals x y answer path ↔
        answer = .value (some (.boolean (result x y path)))) ∧
      (Evaluates .notEquals x y answer path ↔
        answer = .value (some (.boolean !result x y path))) := by
  cases path with
  | instruction =>
      obtain ⟨equal, unequal⟩ := instruction_equality comparable y
      rw [evaluates_meaning rfl, evaluates_meaning rfl, equal, unequal]
      exact ⟨Iff.rfl, Iff.rfl⟩
  | operator =>
      obtain ⟨equal, unequal⟩ := operator_equality comparable y
      simp only [Evaluates, equal, unequal]
      exact ⟨Iff.rfl, Iff.rfl⟩
  | method =>
      obtain ⟨equal, unequal⟩ := method_equality comparable y
      simp only [Evaluates, equal, unequal]
      exact ⟨Iff.rfl, Iff.rfl⟩

theorem symmetric_iff_result (comparable : Comparable x) (comparable' : Comparable y)
    (paths : Route → Prop) :
    Symmetric paths x y ↔
      ∃ same, ∀ path, paths path → result x y path = same ∧ result y x path = same := by
  refine exists_congr fun same => forall_congr' fun path => imp_congr_right fun _ => ?_
  simp only [(evaluates_equals comparable y _ path).1, (evaluates_equals comparable' x _ path).1,
    (evaluates_equals comparable y _ path).2, (evaluates_equals comparable' x _ path).2,
    forall_eq, Answer.value.injEq, Option.some.injEq, Value.boolean.injEq, Bool.not_inj_iff]
  tauto

theorem same_object_comm (x y : Value F O) :
    (x.isObject && x.samePointer y) = (y.isObject && y.samePointer x) := by
  cases x with
  | object left =>
      cases y with
      | object right => exact BEq.comm
      | _ => rfl
  | _ => cases y <;> rfl

theorem equality_self (comparable : Comparable x)
    (same : (x.isObject && x.samePointer y) = true) (ordinary : ¬SelfUnequal x y) :
    equality x y = true := by
  cases x with
  | object left =>
      cases y with
      | object right =>
          obtain rfl : left = right := beq_iff_eq.mp same
          rcases comparable with ⟨number, holds, -⟩ | ⟨none_, number, holds⟩
          · simp [equality, holds, binaryEqualityInteger]
          · have reflexive : Double.equals number number = true := by
              by_contra unequal
              exact ordinary ⟨left, number, rfl, rfl, holds, Bool.eq_false_of_not_eq_true unequal⟩
            simp [equality, none_, holds, binaryEqualityFloat, reflexive]
      | _ => cases same
  | _ => cases same

/-- On each path the equality is symmetric if and only if the values do not cross, and
the paths agree besides if and only if the values are not one object that holds a float
unequal to itself. -/
theorem equality_symmetric_iff
    (symmetric : ∀ left right : F, Double.equals left right = Double.equals right left)
    (comparable : Comparable x) (comparable' : Comparable y) :
    ((∀ path, Symmetric (· = path) x y) ↔ ¬Crosses x y ∧ ¬Crosses y x) ∧
      (Symmetric (fun _ => True) x y ↔
        (¬Crosses x y ∧ ¬Crosses y x) ∧ ¬SelfUnequal x y) := by
  simp only [symmetric_iff_result comparable comparable', ←
    equality_symm_iff symmetric comparable comparable']
  constructor
  · constructor
    · intro each
      obtain ⟨same, agree⟩ := each .operator
      obtain ⟨left, right⟩ := agree _ rfl
      exact left.trans right.symm
    · intro even path
      refine ⟨result x y path, fun other same => ?_⟩
      subst same
      refine ⟨rfl, ?_⟩
      cases other with
      | instruction => simp only [result, same_object_comm y x, even]
      | operator | method => exact even.symm
  · constructor
    · rintro ⟨same, agree⟩
      obtain ⟨left, right⟩ := agree .operator trivial
      refine ⟨left.trans right.symm, ?_⟩
      rintro ⟨object, number, rfl, rfl, holds, unequal⟩
      have taken := (agree .instruction trivial).1
      have asked : equality (.object object : Value F O) (.object object) = false := by
        rcases comparable with ⟨_, -, none_⟩ | ⟨none_, -⟩
        · rw [holds] at none_
          cases none_
        · simp [equality, none_, holds, binaryEqualityFloat, unequal]
      rw [show same = false from left.symm.trans asked] at taken
      simp [result, Value.isObject, Value.samePointer] at taken
    · rintro ⟨even, ordinary⟩
      refine ⟨equality x y, ?_⟩
      rintro path -
      cases path with
      | operator | method => exact ⟨rfl, even.symm⟩
      | instruction =>
          simp only [result, same_object_comm y x, ← even, and_self]
          cases same : x.isObject && x.samePointer y with
          | false => rfl
          | true =>
              rw [equality_self comparable same ordinary]
              rfl

end

/-- Instances of two classes, one derived from `Integer` and one from `Float`. -/
inductive Instance
  | ofInteger (number : Word)
  | ofFloat (number : Int)
  deriving DecidableEq, Repr

instance eitherInstance : Boxed Instance Int where
  asInteger
    | .ofInteger number => some number
    | .ofFloat _ => none
  asFloat
    | .ofInteger _ => none
    | .ofFloat number => some number

theorem equality_symmetric_instance :
    (∀ left right : Int, Double.equals left right = Double.equals right left) ∧
      Comparable (.integer 1 : Value Int Instance) ∧
      Comparable (.object (.ofInteger 1) : Value Int Instance) ∧
      Symmetric (fun _ => True) (.integer 1 : Value Int Instance) (.object (.ofInteger 1)) := by
  have symmetric : ∀ left right : Int,
      Double.equals left right = Double.equals right left := by
    intro left right
    exact Bool.decide_congr eq_comm
  have comparable : Comparable (.object (.ofInteger 1) : Value Int Instance) :=
    .inl ⟨1, rfl, rfl⟩
  have immediate : Comparable (.integer 1 : Value Int Instance) := trivial
  refine ⟨symmetric, immediate, comparable, ?_⟩
  refine (equality_symmetric_iff symmetric immediate comparable).2.mpr ⟨⟨?_, nofun⟩, ?_⟩
  · rintro ⟨number, holds, -⟩
    cases holds
  · rintro ⟨object, number, same, -⟩
    cases same

/-- An integer does not find the float of an instance that finds the integer. -/
theorem equality_crosses :
    Comparable (.integer 1 : Value Int Instance) ∧
      Comparable (.object (.ofFloat 1) : Value Int Instance) ∧
      ∀ path, ¬Symmetric (· = path) (.integer 1 : Value Int Instance) (.object (.ofFloat 1)) := by
  have comparable : Comparable (.object (.ofFloat 1) : Value Int Instance) :=
    .inr ⟨rfl, 1, rfl⟩
  have immediate : Comparable (.integer 1 : Value Int Instance) := trivial
  refine ⟨immediate, comparable, fun path even => ?_⟩
  obtain ⟨same, agree⟩ := (symmetric_iff_result immediate comparable _).mp even
  obtain ⟨left, right⟩ := agree path rfl
  have differ : result (.integer 1 : Value Int Instance) (.object (.ofFloat 1)) path ≠
      result (.object (.ofFloat 1) : Value Int Instance) (.integer 1) path := by
    cases path <;> decide
  exact differ (left.trans right.symm)

end Xemmai
