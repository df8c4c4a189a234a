import Xemmai.Operator
import Mathlib.Data.Int.Basic
import Mathlib.Tactic.NormNum

/-!
# Constant folding

`t_unary::f_emit` and `t_binary::f_emit` compute an operator themselves when
its operands are literal numbers. They do so with the C++ operators at
`intptr_t` and `double`, while the instructions of the interpreter compute
modulus and shifts at `uintptr_t`. For trees of integer literals the two agree
exactly as long as every modulus has operands with the same remainder at both
types.
-/

namespace Xemmai

set_option autoImplicit false
set_option linter.unusedSectionVars false

/-- What an emission with `a_operand` set leaves: a literal operand without any
code, or an instruction whose result is a temporary. The emitter throws where
an operator has no meaning for a float, and traps on an undefined operation. -/
inductive Fold (F O : Type) where
  | operand (operand : Operand F O)
  | instruction
  | throwNotSupported
  | undefined
  deriving DecidableEq, Repr

namespace Fold

variable {F O : Type}

/-- `t_literal<intptr_t>`, `t_literal<double>` and `t_literal<bool>` return
their value as the operand. -/
def integer (value : Word) : Fold F O := .operand (.integer value)
def float (value : F) : Fold F O := .operand (.float value)
def boolean (value : Bool) : Fold F O := .operand (.literal (.boolean value))

def checked : Option Word → Fold F O
  | some value => integer value
  | none => .undefined

/-- The literal that holds `value`. -/
def ofValue : Value F O → Fold F O
  | .integer value => integer value
  | .float value => float value
  | value => .operand (.literal value)

theorem checked_some {result : Option Word} {value : Value F O}
    (defined : result.map Value.integer = some value) : checked result = ofValue value := by
  cases result with
  | none => cases defined
  | some word =>
      obtain rfl := Option.some.inj defined
      rfl

end Fold

section Emitter

variable {F O : Type} [Double F]

/-- The switches of `t_unary::f_emit` -/
def foldUnary (op : Unary) : Operand F O → Fold F O
  | .integer value =>
      match op with
      | .plus => .integer value
      | .minus => .integer (-value)
      | .not => .boolean false
      | .complement => .integer (~~~value)
  | .float value =>
      match op with
      | .plus => .float value
      | .minus => .float (Double.minus value)
      | .not => .boolean false
      | .complement => .throwNotSupported
  | _ => .instruction

/-- The switch of `t_binary::f_emit` for two integers: the operators of
`intptr_t`, except that the right shift casts its left operand. -/
def foldIntegers (op : Binary) (left right : Word) : Fold F O :=
  match op with
  | .multiply => .integer (left * right)
  | .divide => .checked (divideSigned left right)
  | .modulus => .checked (modulusSigned left right)
  | .add => .integer (left + right)
  | .subtract => .integer (left - right)
  | .leftShift => .checked (shift (· <<< ·) left right)
  | .rightShift => .checked (shift (· >>> ·) left right)
  | .less => .boolean (left.slt right)
  | .lessEqual => .boolean (left.sle right)
  | .greater => .boolean (right.slt left)
  | .greaterEqual => .boolean (right.sle left)
  | .equals | .identical => .boolean (left == right)
  | .notEquals | .notIdentical => .boolean (left != right)
  | .and => .integer (left &&& right)
  | .xor => .integer (left ^^^ right)
  | .or => .integer (left ||| right)

/-- The switches for a float on either side; `mixed` when the other operand is
an integer, which is never identical to it. -/
def foldFloats (op : Binary) (mixed : Bool) (left right : F) : Fold F O :=
  match op with
  | .multiply => .float (Double.multiply left right)
  | .divide => .float (Double.divide left right)
  | .add => .float (Double.add left right)
  | .subtract => .float (Double.subtract left right)
  | .less => .boolean (Double.less left right)
  | .lessEqual => .boolean (Double.lessEqual left right)
  | .greater => .boolean (Double.greater left right)
  | .greaterEqual => .boolean (Double.greaterEqual left right)
  | .equals => .boolean (Double.equals left right)
  | .notEquals => .boolean (!Double.equals left right)
  | .identical => .boolean (!mixed && Double.equals left right)
  | .notIdentical => .boolean (mixed || !Double.equals left right)
  | _ => .throwNotSupported

def foldBinary (op : Binary) : Operand F O → Operand F O → Fold F O
  | .integer left, .integer right => foldIntegers op left right
  | .integer left, .float right => foldFloats op true (Double.ofInteger left) right
  | .float left, .integer right => foldFloats op true left (Double.ofInteger right)
  | .float left, .float right => foldFloats op false left right
  | _, _ => .instruction

end Emitter

/-- Trees of integer literals under the operators that are folded. -/
inductive Expression where
  | integer (value : Word)
  | unary (op : Unary) (operand : Expression)
  | binary (op : Binary) (left right : Expression)
  deriving DecidableEq, Repr

namespace Expression

inductive Within : Expression → Expression → Prop where
  | self (tree : Expression) : Within tree tree
  | operand {part operand : Expression} (op : Unary) :
      Within part operand → Within part (.unary op operand)
  | left {part left : Expression} (op : Binary) (right : Expression) :
      Within part left → Within part (.binary op left right)
  | right {part right : Expression} (op : Binary) (left : Expression) :
      Within part right → Within part (.binary op left right)

section Meaning

variable (F O : Type) [DecidableEq O] [Double F] [Boxed O F]

/-- Operands are emitted from left to right; an instruction has a temporary
operand where the subtree was not folded. -/
def emit : Expression → Fold F O
  | .integer value => .integer value
  | .unary op operand =>
      match operand.emit with
      | .operand folded => foldUnary op folded
      | other => other
  | .binary op left right =>
      match left.emit with
      | .operand foldedLeft =>
          match right.emit with
          | .operand foldedRight => foldBinary op foldedLeft foldedRight
          | other => other
      | .instruction =>
          match right.emit with
          | .operand _ => .instruction
          | other => other
      | other => other

/-- Only a primitive result counts: no object occurs in these trees, and an
operator that throws leaves the tree without a value. -/
def primitiveCalls : Calls F O (Option (Value F O)) where
  primitive value := value
  object _ _ _ := none
  throwNotSupported := none

/-- A frame whose first temporary is `left` and whose second is `right`. -/
def operands (left right : Value F O) : Frame F O where
  slot index := if index = 1 then left else right
  stack := 0

/-- The instructions run with the leaves held in variables. -/
def run : Expression → Option (Value F O)
  | .integer value => some (.integer value)
  | .unary op operand => do
      let value ← operand.run
      unaryX (primitiveCalls F O) op value (operands F O value value)
  | .binary op left right => do
      let leftValue ← left.run
      let rightValue ← right.run
      binaryXX (primitiveCalls F O) op leftValue rightValue (operands F O leftValue rightValue)

/-- Where the run has a result, the emitter leaves it as a literal unless it
leaves an instruction. -/
def FoldAgrees (tree : Expression) : Prop :=
  ∀ value, tree.run F O = some value →
    tree.emit F O = .instruction ∨ tree.emit F O = .ofValue value

/-- The signed and the unsigned remainder of the two words are the same, or
the remainder is undefined. -/
def SameRemainder (left right : Word) : Prop :=
  right = 0 ∨ left = right ∨
    (0 ≤ left.toInt ∧ 0 < right.toInt) ∨
    (0 ≤ left.toInt ∧ right.toInt < 0 ∧ left.toInt < -right.toInt) ∨
    (left.toInt < 0 ∧ 0 < right.toInt ∧ right.toInt ∣ left.toInt ∧ right.toInt ∣ 2 ^ 64)

/-- Every modulus of the tree has operands with the same remainder at both types. -/
def ModulusSafe (tree : Expression) : Prop :=
  ∀ left right leftValue rightValue, Within (.binary .modulus left right) tree →
    left.run F O = some (.integer leftValue) → right.run F O = some (.integer rightValue) →
    SameRemainder leftValue rightValue

end Meaning

theorem word_toInt (word : Word) :
    (word.toNat < 2 ^ 63 ∧ word.toInt = word.toNat) ∨
      (2 ^ 63 ≤ word.toNat ∧ word.toInt = -((2 ^ 64 - word.toNat : Nat) : Int)) := by
  have cond := BitVec.toInt_eq_toNat_cond word
  have bound := word.isLt
  split at cond <;> omega

theorem negative_by_negative (left right : Nat) (leftLow : 2 ^ 63 ≤ left) (leftHigh : left < 2 ^ 64)
    (rightLow : 2 ^ 63 ≤ right) (rightHigh : right < 2 ^ 64) :
    (left < right ∧ left % right = left ∧
      (2 ^ 64 - left) % (2 ^ 64 - right) < 2 ^ 64 - left) ∨
    (right ≤ left ∧ left % right = left - right) := by
  rcases Nat.lt_or_ge left right with lower | higher
  · left
    have := Nat.mod_lt (2 ^ 64 - left) (show 0 < 2 ^ 64 - right by omega)
    exact ⟨lower, Nat.mod_eq_of_lt lower, by omega⟩
  · right
    refine ⟨higher, ?_⟩
    rw [Nat.mod_eq_sub_mod higher, Nat.mod_eq_of_lt (by omega)]

/-- `SameRemainder` is the exact condition: the four sign cases are compared
one by one, with `a` and `b` the bits of the words. -/
theorem same_remainder_iff (left right : Word) (nonzero : right ≠ 0) :
    left.srem right = left.umod right ↔
      left = right ∨
      (0 ≤ left.toInt ∧ 0 < right.toInt) ∨
      (0 ≤ left.toInt ∧ right.toInt < 0 ∧ left.toInt < -right.toInt) ∨
      (left.toInt < 0 ∧ 0 < right.toInt ∧ right.toInt ∣ left.toInt ∧ right.toInt ∣ 2 ^ 64) := by
  have rightPos : 0 < right.toNat := by
    rcases Nat.eq_zero_or_pos right.toNat with zero | positive
    · exact absurd (BitVec.eq_of_toNat_eq (by simpa using zero)) nonzero
    · exact positive
  have unsigned : (left.umod right).toNat = left.toNat % right.toNat := BitVec.toNat_umod ..
  have remainderLt := Nat.mod_lt left.toNat rightPos
  have leftBound := left.isLt
  have rightBound := right.isLt
  have wordU := word_toInt (left.umod right)
  rw [unsigned] at wordU
  rw [← BitVec.toInt_inj, BitVec.toInt_srem, ← BitVec.toNat_inj]
  generalize left.umod right = remainder at *
  rcases word_toInt left with ⟨leftSign, leftInt⟩ | ⟨leftSign, leftInt⟩ <;>
    rcases word_toInt right with ⟨rightSign, rightInt⟩ | ⟨rightSign, rightInt⟩ <;>
    rw [leftInt, rightInt] <;> generalize left.toNat = a at * <;> generalize right.toNat = b at *
  · rw [← Int.ofNat_tmod]
    omega
  · rw [Int.tmod_neg, ← Int.ofNat_tmod]
    rw [Nat.mod_eq_of_lt (show a < b by omega)] at wordU
    rcases Nat.lt_or_ge a (2 ^ 64 - b) with lower | higher
    · rw [Nat.mod_eq_of_lt lower]
      omega
    · have := Nat.mod_lt a (show 0 < 2 ^ 64 - b by omega)
      omega
  · rw [Int.neg_tmod, ← Int.ofNat_tmod]
    have complement : a % b = 0 ∧ (2 ^ 64 - a) % b = 0 ↔
        (b : Int) ∣ -((2 ^ 64 - a : Nat) : Int) ∧ (b : Int) ∣ 2 ^ 64 := by
      rw [Int.dvd_neg, Int.natCast_dvd_natCast, show (2 ^ 64 : Int) = ((2 ^ 64 : Nat) : Int) by norm_num,
        Int.natCast_dvd_natCast, ← Nat.dvd_iff_mod_eq_zero, ← Nat.dvd_iff_mod_eq_zero]
      constructor
      · rintro ⟨divides, divides'⟩
        refine ⟨divides', ?_⟩
        have := Nat.dvd_add divides divides'
        rwa [show a + (2 ^ 64 - a) = 2 ^ 64 by omega] at this
      · rintro ⟨divides', divides⟩
        refine ⟨?_, divides'⟩
        have := Nat.dvd_sub divides divides'
        rwa [show 2 ^ 64 - (2 ^ 64 - a) = a by omega] at this
    omega
  · rw [Int.neg_tmod, Int.tmod_neg, ← Int.ofNat_tmod]
    rcases negative_by_negative a b leftSign leftBound rightSign rightBound with
      ⟨lower, mod, small⟩ | ⟨higher, mod⟩
    · rw [mod] at wordU
      omega
    · rw [mod] at wordU
      rcases Nat.eq_or_lt_of_le higher with same | greater
      · subst same
        refine iff_of_true ?_ (Or.inl rfl)
        rw [Nat.mod_self]
        omega
      · omega

section Agreement

variable {F O : Type} [DecidableEq O] [Double F] [Boxed O F]

theorem within_trans {inner middle outer : Expression} (first : Within inner middle)
    (second : Within middle outer) : Within inner outer := by
  induction second with
  | self => exact first
  | operand op _ ih => exact .operand op ih
  | left op right _ ih => exact .left op right ih
  | right op left _ ih => exact .right op left ih

theorem modulus_safe_within {part tree : Expression} (within : Within part tree)
    (safe : ModulusSafe F O tree) : ModulusSafe F O part := by
  intro left right leftValue rightValue inner
  exact safe left right leftValue rightValue (within_trans inner within)

/-- The only values that occur are integers and the booleans of comparisons. -/
def IntegerOrBoolean : Value F O → Prop
  | .integer _ | .boolean _ => True
  | _ => False

theorem boolean_operand_result (op : Binary) (a0 a1 value : Value F O) (frame : Frame F O)
    (kind0 : IntegerOrBoolean a0) (kind1 : IntegerOrBoolean a1)
    (boolean : a0.isBoolean ∨ a1.isBoolean)
    (result : binaryXX (primitiveCalls F O) op a0 a1 frame = some value) :
    value.isBoolean := by
  unfold binaryXX at result
  cases kind : op.kind <;> cases a0 <;> cases a1 <;>
    simp [IntegerOrBoolean, Value.isBoolean, arithmeticInteger, binaryIntegral, derivedOrThrow,
      objectOrThrow, equalityDefault, primitiveCalls, kind] at kind0 kind1 boolean result <;>
    subst result <;> rfl

theorem modulus_agrees (left right : Word) (nonzero : right ≠ 0)
    (same : SameRemainder left right) :
    modulusSigned left right = modulusUnsigned left right := by
  have noTrap : ¬ (left = BitVec.intMin 64 ∧ right = -1) := by
    rintro ⟨rfl, rfl⟩
    unfold SameRemainder at same
    revert same
    decide
  have equal := (same_remainder_iff left right nonzero).mpr (same.resolve_left nonzero)
  rw [modulusSigned, if_neg (not_or.mpr ⟨nonzero, noTrap⟩), modulusUnsigned, if_neg nonzero,
    equal]

/-- What an operator instruction computes for two integers, in the terms of
the emitter's switch: the same, the modulus apart. -/
theorem fold_integers_run (op : Binary) (left right : Word) (value : Value F O) (frame : Frame F O)
    (same : op = .modulus → SameRemainder left right)
    (result : binaryXX (primitiveCalls F O) op (.integer left) (.integer right) frame =
      some value) :
    foldIntegers op left right = Fold.ofValue value := by
  cases op <;>
    simp only [binaryXX, Binary.kind, arithmeticInteger, binaryIntegral, arithmetic, integral,
      primitiveCalls, binaryEqualityInteger, Value.equal, foldIntegers] at result ⊢
  case divide | leftShift | rightShift => exact Fold.checked_some result
  case modulus =>
    rw [← Fold.checked_some result]
    have nonzero : right ≠ 0 := by
      rintro rfl
      simp [modulusUnsigned] at result
    rw [modulus_agrees left right nonzero (same rfl)]
  all_goals
    obtain rfl := Option.some.inj result
    simp [Fold.ofValue, Fold.boolean, bne]

theorem integers_kind (op : Binary) (left right : Word) (value : Value F O) (frame : Frame F O)
    (result : binaryXX (primitiveCalls F O) op (.integer left) (.integer right) frame =
      some value) : IntegerOrBoolean value := by
  cases op <;>
    simp only [binaryXX, Binary.kind, arithmeticInteger, binaryIntegral, arithmetic, integral,
      primitiveCalls] at result
  case divide | leftShift | rightShift | modulus =>
    obtain ⟨word, _, rfl⟩ := Option.map_eq_some_iff.mp result
    trivial
  all_goals
    obtain rfl := Option.some.inj result
    trivial

theorem fold_unary_run (op : Unary) (number : Word) (value : Value F O) (frame : Frame F O)
    (result : unaryX (primitiveCalls F O) op (.integer number) frame = some value) :
    foldUnary op (.integer number) = Fold.ofValue value := by
  cases op <;>
    · obtain rfl := Option.some.inj result
      rfl

theorem run_kind (tree : Expression) (value : Value F O) (result : tree.run F O = some value) :
    IntegerOrBoolean value := by
  induction tree generalizing value with
  | integer number =>
      obtain rfl := Option.some.inj result
      trivial
  | unary op operand ih =>
      obtain ⟨inner, ran, applied⟩ := Option.bind_eq_some_iff.mp result
      have kind := ih inner ran
      cases op <;> cases inner <;>
        simp [IntegerOrBoolean, unaryX, primitiveCalls, objectOrThrow] at kind applied <;>
        subst applied <;> trivial
  | binary op left right ihLeft ihRight =>
      obtain ⟨leftValue, ranLeft, rest⟩ := Option.bind_eq_some_iff.mp result
      obtain ⟨rightValue, ranRight, applied⟩ := Option.bind_eq_some_iff.mp rest
      have kindLeft := ihLeft leftValue ranLeft
      have kindRight := ihRight rightValue ranRight
      by_cases boolean : leftValue.isBoolean ∨ rightValue.isBoolean
      · have := boolean_operand_result op _ _ value _ kindLeft kindRight boolean applied
        cases value <;> simp [Value.isBoolean, IntegerOrBoolean] at this ⊢
      · cases leftValue <;> cases rightValue <;>
          simp [IntegerOrBoolean, Value.isBoolean] at kindLeft kindRight boolean
        exact integers_kind op _ _ value _ applied

/-- An integer comes from integers, under an operator that folds to one. -/
theorem integer_result (op : Binary) (left right : Value F O) (number : Word) (frame : Frame F O)
    (kindLeft : IntegerOrBoolean left) (kindRight : IntegerOrBoolean right)
    (result : binaryXX (primitiveCalls F O) op left right frame = some (.integer number)) :
    (∃ word word', left = .integer word ∧ right = .integer word') ∧
    ∀ word word', (∃ folded, foldIntegers (F := F) (O := O) op word word' = .integer folded) ∨
      foldIntegers (F := F) (O := O) op word word' = .undefined := by
  have integers : ¬ (left.isBoolean ∨ right.isBoolean) := by
    intro boolean
    simpa [Value.isBoolean] using
      boolean_operand_result op left right _ frame kindLeft kindRight boolean result
  cases left <;> cases right <;>
    simp [IntegerOrBoolean, Value.isBoolean] at kindLeft kindRight integers
  refine ⟨⟨_, _, rfl, rfl⟩, fun word word' => ?_⟩
  have checked : ∀ value : Option Word, (∃ folded, Fold.checked (F := F) (O := O) value =
      .integer folded) ∨ Fold.checked (F := F) (O := O) value = .undefined := by
    intro value
    cases value with
    | none => exact .inr rfl
    | some folded => exact .inl ⟨folded, rfl⟩
  cases op <;>
    simp [binaryXX, Binary.kind, arithmeticInteger, arithmetic, primitiveCalls] at result
  case divide | modulus | leftShift | rightShift => exact checked _
  all_goals exact .inl ⟨_, rfl⟩

/-- A tree that runs to an integer is folded, although maybe to another one. -/
theorem integer_run_folds (tree : Expression) (number : Word)
    (result : tree.run F O = some (.integer number)) :
    (∃ folded, tree.emit F O = .integer folded) ∨ tree.emit F O = .undefined := by
  induction tree generalizing number with
  | integer held => exact .inl ⟨held, rfl⟩
  | unary op operand ih =>
      obtain ⟨inner, ran, applied⟩ := Option.bind_eq_some_iff.mp result
      have kind := run_kind operand inner ran
      cases inner <;> simp [IntegerOrBoolean] at kind
      · cases op <;> simp [unaryX, objectOrThrow, primitiveCalls] at applied
      · rcases ih _ ran with ⟨folded, emitted⟩ | emitted
        · left
          cases op <;> simp [unaryX, primitiveCalls] at applied
          all_goals exact ⟨_, by rw [emit, emitted]; rfl⟩
        · right
          rw [emit, emitted]
  | binary op left right ihLeft ihRight =>
      obtain ⟨leftValue, ranLeft, rest⟩ := Option.bind_eq_some_iff.mp result
      obtain ⟨rightValue, ranRight, applied⟩ := Option.bind_eq_some_iff.mp rest
      obtain ⟨⟨word, word', rfl, rfl⟩, folds⟩ := integer_result op _ _ number _
        (run_kind left _ ranLeft) (run_kind right _ ranRight) applied
      rcases ihLeft word ranLeft with ⟨foldedLeft, emittedLeft⟩ | emittedLeft
      · rcases ihRight word' ranRight with ⟨foldedRight, emittedRight⟩ | emittedRight
        · have emitted : (binary op left right).emit F O =
              foldIntegers op foldedLeft foldedRight := by
            rw [emit, emittedLeft, emittedRight]
            rfl
          rw [emitted]
          exact folds foldedLeft foldedRight
        · right
          rw [emit, emittedLeft, emittedRight]
          rfl
      · right
        rw [emit, emittedLeft]

theorem fold_agrees_of_safe (tree : Expression) (safe : ModulusSafe F O tree) :
    FoldAgrees F O tree := by
  induction tree with
  | integer number =>
      intro value result
      obtain rfl := Option.some.inj result
      exact .inr rfl
  | unary op operand ih =>
      intro value result
      obtain ⟨inner, ran, applied⟩ := Option.bind_eq_some_iff.mp result
      have kind := run_kind operand inner ran
      have agrees := ih (modulus_safe_within (.operand op (.self operand)) safe) inner ran
      rcases agrees with emitted | emitted
      · exact .inl (by rw [emit, emitted])
      · cases inner <;> simp [IntegerOrBoolean] at kind
        · exact .inl (by rw [emit, emitted]; rfl)
        · right
          rw [emit, emitted]
          exact fold_unary_run op _ value _ applied
  | binary op left right ihLeft ihRight =>
      intro value result
      obtain ⟨leftValue, ranLeft, rest⟩ := Option.bind_eq_some_iff.mp result
      obtain ⟨rightValue, ranRight, applied⟩ := Option.bind_eq_some_iff.mp rest
      have kindLeft := run_kind left leftValue ranLeft
      have kindRight := run_kind right rightValue ranRight
      have agreesLeft := ihLeft (modulus_safe_within (.left op right (.self left)) safe)
        leftValue ranLeft
      have agreesRight := ihRight (modulus_safe_within (.right op left (.self right)) safe)
        rightValue ranRight
      rcases agreesLeft with emittedLeft | emittedLeft
      · rcases agreesRight with emittedRight | emittedRight
        · exact .inl (by rw [emit, emittedLeft, emittedRight])
        · left
          cases rightValue <;> simp [IntegerOrBoolean] at kindRight <;>
            rw [emit, emittedLeft, emittedRight] <;> rfl
      · cases leftValue <;> simp [IntegerOrBoolean] at kindLeft
        · left
          rcases agreesRight with emittedRight | emittedRight
          · rw [emit, emittedLeft, emittedRight]
            rfl
          · cases rightValue <;> simp [IntegerOrBoolean] at kindRight <;>
              rw [emit, emittedLeft, emittedRight] <;> rfl
        · rcases agreesRight with emittedRight | emittedRight
          · left
            rw [emit, emittedLeft, emittedRight]
            rfl
          · cases rightValue <;> simp [IntegerOrBoolean] at kindRight
            · left
              rw [emit, emittedLeft, emittedRight]
              rfl
            · right
              rename_i leftNumber rightNumber
              rw [emit, emittedLeft, emittedRight]
              refine fold_integers_run op leftNumber rightNumber value _ ?_ applied
              rintro rfl
              exact safe left right _ _ (.self _) ranLeft ranRight

/-- A modulus that folds as it runs has operands with the same remainder. -/
theorem same_remainder_of_agrees (left right : Expression) (leftValue rightValue : Word)
    (agrees : FoldAgrees F O (.binary .modulus left right))
    (agreesLeft : FoldAgrees F O left) (agreesRight : FoldAgrees F O right)
    (ranLeft : left.run F O = some (.integer leftValue))
    (ranRight : right.run F O = some (.integer rightValue)) :
    SameRemainder leftValue rightValue := by
  have foldedLeft : left.emit F O = .integer leftValue := by
    rcases agreesLeft _ ranLeft with emitted | emitted
    · rcases integer_run_folds left leftValue ranLeft with ⟨_, other⟩ | other <;>
        simp [emitted, Fold.integer] at other
    · exact emitted
  have foldedRight : right.emit F O = .integer rightValue := by
    rcases agreesRight _ ranRight with emitted | emitted
    · rcases integer_run_folds right rightValue ranRight with ⟨_, other⟩ | other <;>
        simp [emitted, Fold.integer] at other
    · exact emitted
  by_cases zero : rightValue = 0
  · exact .inl zero
  have ran : (binary .modulus left right).run F O =
      some (.integer (leftValue.umod rightValue)) := by
    simp [run, ranLeft, ranRight, binaryXX, Binary.kind, binaryIntegral, integral,
      primitiveCalls, modulusUnsigned]
    exact zero
  have folded : (binary .modulus left right).emit F O =
      .checked (modulusSigned leftValue rightValue) := by
    rw [emit, foldedLeft, foldedRight]
    rfl
  refine .inr ((same_remainder_iff leftValue rightValue zero).mp ?_)
  rcases agrees _ ran with emitted | emitted <;> rw [folded] at emitted <;>
    unfold modulusSigned at emitted <;> split at emitted <;>
    simp [Fold.checked, Fold.integer, Fold.ofValue] at emitted
  exact emitted

/-- A tree is folded, with all its subtrees, to what it runs to exactly when
every modulus in it has operands with the same signed and unsigned remainder. -/
theorem folding_agrees_iff (tree : Expression) :
    (∀ part, Within part tree → FoldAgrees F O part) ↔ ModulusSafe F O tree := by
  constructor
  · intro agrees left right leftValue rightValue within ranLeft ranRight
    exact same_remainder_of_agrees left right leftValue rightValue (agrees _ within)
      (agrees left (within_trans (.left .modulus right (.self left)) within))
      (agrees right (within_trans (.right .modulus left (.self right)) within))
      ranLeft ranRight
  · intro safe part within
    exact fold_agrees_of_safe part (modulus_safe_within within safe)

end Agreement

/-- `-7 % 3` is folded to -1, while `x % y` is 0 for `x = -7` and `y = 3`. -/
theorem negative_modulus_differs : ¬ ∀ tree, FoldAgrees Int Unit tree := by
  intro agrees
  have ran : (binary .modulus (integer (-7)) (integer 3)).run Int Unit =
      some (.integer 0) := by decide
  have folded : (binary .modulus (integer (-7)) (integer 3)).emit Int Unit =
      .integer (-1) := by decide
  rcases agrees _ _ ran with emitted | emitted <;> rw [folded] at emitted <;>
    simp [Fold.integer, Fold.ofValue] at emitted

end Expression

end Xemmai
