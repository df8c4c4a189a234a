import Xemmai.Integers
import Xemmai.Jumps

/-!
# Folding over a script

What the emission of a whole tree folds, the bodies of its lambdas included, and what it
stops at. The emitter computes with whatever constants the script has, also where the
script never comes to them.
-/

namespace Xemmai

set_option autoImplicit false
set_option linter.unusedSectionVars false

namespace Compile

/-- What folding stops at: what it throws for, and what C++ leaves undefined. -/
inductive Stop
  | notSupported
  | undefined
  deriving DecidableEq, Repr

/-- A literal that is an object stands for it. -/
abbrev Operand (F : Type) := Xemmai.Operand F Tree.Literal

section

variable {F : Type} [Double F] (double : Decimal → F)

/-- The operand of a literal that is emitted with `a_operand`. -/
def literal : Tree.Literal → Operand F
  | .null => .literal .null
  | .boolean value => .literal (.boolean value)
  | .integer value => .integer value
  | .float value => .float (double value)
  | value => .literal (.object value)

/-- What the switches of `t_unary::f_emit` and `t_binary::f_emit` make of operands. -/
def fold : Tree.Operation → List (Operand F) → Fold F Tree.Literal
  | .unary op, [operand] => foldUnary op operand
  | .binary op, [left, right] => foldBinary op left right
  | _, _ => .instruction

def settle : Fold F Tree.Literal → Except Stop (Operand F)
  | .operand operand => .ok operand
  | .instruction => .ok .temporary
  | .throwNotSupported => .error .notSupported
  | .undefined => .error .undefined

mutual

/-- `f_emit` with `a_operand`, as far as it folds. The operand of a variable is folded no
more than that of a temporary. -/
def emit : Tree → Except Stop (Operand F)
  | .literal value => .ok (literal double value)
  | .self _ => .ok .temporary
  | .preserve => .ok .temporary
  | .symbolGet _ _ _ => .ok .temporary
  | .scopePut _ _ value => do
    let _ ← emit value
    .ok .temporary
  | .operate operation operands => do
    let found ← emit.all operands
    settle (fold operation found)
  | .if_ condition true_ false_ => do
    emit.option condition
    let _ ← emit true_
    let _ ← emit false_
    .ok .temporary
  | .while_ condition body => do
    emit.option condition
    let _ ← emit body
    .ok .temporary
  | .for_ initialization condition next body => do
    emit.option initialization
    emit.option condition
    let _ ← emit body
    emit.option next
    .ok .temporary
  | .break_ expression => do
    let _ ← emit expression
    .ok .temporary
  | .continue_ => .ok .temporary
  | .return_ expression => do
    let _ ← emit expression
    .ok .temporary
  | .try_ body catches finally_ => do
    let _ ← emit body
    emit.clauses catches
    emit.option finally_
    .ok .temporary
  | .lambda _ _ _ defaults body => do
    let _ ← emit body
    let _ ← emit.all defaults
    .ok .temporary

def emit.all : List Tree → Except Stop (List (Operand F))
  | [] => .ok []
  | node :: nodes => do
    let found ← emit node
    let rest ← emit.all nodes
    .ok (found :: rest)

def emit.option : Option Tree → Except Stop Unit
  | none => .ok ()
  | some node => do
    let _ ← emit node
    .ok ()

def emit.clauses : List (Tree × String × Tree) → Except Stop Unit
  | [] => .ok ()
  | (expression, _, body) :: clauses => do
    let _ ← emit expression
    let _ ← emit body
    emit.clauses clauses

end

/-! ### The constants of a script -/

mutual

def constant : Tree → Operand F
  | .literal value => literal double value
  | .operate operation operands =>
    match fold operation (constant.all operands) with
    | .operand operand => operand
    | _ => .temporary
  | _ => .temporary

def constant.all : List Tree → List (Operand F)
  | [] => []
  | node :: nodes => constant node :: constant.all nodes

end

/-- An operator of two integers that C++ does not define. -/
def Traps (node : Tree) : Prop :=
  ∃ op left right a b, node = .operate (.binary op) [left, right] ∧
    constant double left = .integer a ∧ constant double right = .integer b ∧ ¬op.Defined a b

def OfFloats : Binary → Prop
  | .modulus | .leftShift | .rightShift | .and | .xor | .or => False
  | _ => True

def IsFloat (operand : Operand F) : Prop := ∃ x, operand = .float x

def IsNumber (operand : Operand F) : Prop := (∃ n, operand = .integer n) ∨ IsFloat operand

def Unsupported (node : Tree) : Prop :=
  (∃ part, node = .operate (.unary .complement) [part] ∧ IsFloat (constant double part)) ∨
    ∃ op left right, node = .operate (.binary op) [left, right] ∧
      IsNumber (constant double left) ∧ IsNumber (constant double right) ∧
      (IsFloat (constant double left) ∨ IsFloat (constant double right)) ∧ ¬OfFloats op

end

mutual

/-- The operators of a tree in the order in which their emissions end. -/
def order : Tree → List Tree
  | .literal _ => []
  | .self _ => []
  | .preserve => []
  | .symbolGet _ _ _ => []
  | .scopePut _ _ value => order value
  | .operate operation operands => order.all operands ++ [.operate operation operands]
  | .if_ condition true_ false_ => order.option condition ++ (order true_ ++ order false_)
  | .while_ condition body => order.option condition ++ order body
  | .for_ initialization condition next body =>
    order.option initialization ++ (order.option condition ++ (order body ++ order.option next))
  | .break_ expression => order expression
  | .continue_ => []
  | .return_ expression => order expression
  | .try_ body catches finally_ => order body ++ (order.clauses catches ++ order.option finally_)
  | .lambda _ _ _ defaults body => order body ++ order.all defaults

def order.all : List Tree → List Tree
  | [] => []
  | node :: nodes => order node ++ order.all nodes

def order.option : Option Tree → List Tree
  | none => []
  | some node => order node

def order.clauses : List (Tree × String × Tree) → List Tree
  | [] => []
  | (expression, _, body) :: clauses => order expression ++ (order body ++ order.clauses clauses)

end

/-! ### What emission comes to -/

section

variable {F : Type} [Double F] {double : Decimal → F}

variable (double) in
/-- What stops the emission at a node whose parts have been emitted. -/
def stop : Tree → Option Stop
  | .operate operation operands =>
    match settle (fold operation (constant.all double operands)) with
    | .ok _ => none
    | .error stop => some stop
  | _ => none

variable (double) in
def ends {α : Type} (nodes : List Tree) (result : α) : Except Stop α :=
  match nodes.findSome? (stop double) with
  | some stop => .error stop
  | none => .ok result

theorem ends_bind {α β : Type} {nodes more : List Tree} {result : α}
    {next : α → Except Stop β} {last : β} (goes : next result = ends double more last) :
    (ends double nodes result >>= next) = ends double (nodes ++ more) last := by
  unfold ends
  rw [List.findSome?_append]
  cases nodes.findSome? (stop double) with
  | some stop => rfl
  | none => exact goes

theorem ends_ok {α β : Type} {nodes : List Tree} {result : α} {f : α → β} :
    (ends double nodes result >>= fun a => .ok (f a)) = ends double nodes (f result) := by
  unfold ends
  cases nodes.findSome? (stop double) with
  | some stop => rfl
  | none => rfl

mutual

/-- The emission of a tree goes over its operators up to the first that stops it. -/
theorem emit_eq : ∀ tree : Tree,
    emit double tree = ends double (order tree) (constant double tree)
  | .literal _ => rfl
  | .self _ => rfl
  | .preserve => rfl
  | .symbolGet _ _ _ => rfl
  | .scopePut _ _ value => by
    rw [emit, emit_eq value, ends_ok]
    rfl
  | .operate operation operands => by
    rw [emit, emit_all operands, order, constant]
    apply ends_bind
    cases found : fold operation (constant.all double operands) <;>
      simp [ends, stop, settle, found]
  | .if_ condition true_ false_ => by
    rw [emit, emit_option condition, emit_eq true_, emit_eq false_, ends_ok]
    exact ends_bind (ends_bind rfl)
  | .while_ condition body => by
    rw [emit, emit_option condition, emit_eq body, ends_ok]
    exact ends_bind rfl
  | .for_ initialization condition next body => by
    rw [emit, emit_option initialization, emit_option condition, emit_eq body, emit_option next,
      ends_ok]
    exact ends_bind (ends_bind (ends_bind rfl))
  | .break_ expression => by
    rw [emit, emit_eq expression, ends_ok]
    rfl
  | .continue_ => rfl
  | .return_ expression => by
    rw [emit, emit_eq expression, ends_ok]
    rfl
  | .try_ body catches finally_ => by
    rw [emit, emit_eq body, emit_clauses catches, emit_option finally_, ends_ok]
    exact ends_bind (ends_bind rfl)
  | .lambda _ _ _ defaults body => by
    rw [emit, emit_eq body, emit_all defaults, ends_ok]
    exact ends_bind rfl

theorem emit_all : ∀ nodes : List Tree,
    emit.all double nodes = ends double (order.all nodes) (constant.all double nodes)
  | [] => rfl
  | node :: nodes => by
    rw [emit.all, emit_eq node, emit_all nodes]
    exact ends_bind ends_ok

theorem emit_option : ∀ node : Option Tree,
    emit.option double node = ends double (order.option node) ()
  | none => rfl
  | some node => by
    rw [emit.option, emit_eq node, ends_ok]
    rfl

theorem emit_clauses : ∀ clauses : List (Tree × String × Tree),
    emit.clauses double clauses = ends double (order.clauses clauses) ()
  | [] => rfl
  | (expression, _, body) :: clauses => by
    rw [emit.clauses, emit_eq expression, emit_eq body, emit_clauses clauses]
    exact ends_bind (ends_bind rfl)

end

theorem checked_eq_undefined {result : Option Word} :
    (Fold.checked result : Fold F Tree.Literal) = .undefined ↔ result = none := by
  cases result <;> simp [Fold.checked, Fold.integer]

theorem foldIntegers_undefined {op : Binary} {left right : Word} :
    (foldIntegers op left right : Fold F Tree.Literal) = .undefined ↔ ¬op.Defined left right := by
  cases op
  case divide =>
    rw [foldIntegers, checked_eq_undefined, divideSigned, Binary.Defined]
    split <;> grind
  case modulus =>
    rw [foldIntegers, checked_eq_undefined, modulusSigned, Binary.Defined]
    split <;> grind
  case leftShift =>
    rw [foldIntegers, checked_eq_undefined, shift, Binary.Defined]
    split <;> grind
  case rightShift =>
    rw [foldIntegers, checked_eq_undefined, shift, Binary.Defined]
    split <;> grind
  all_goals simp [foldIntegers, Binary.Defined, Fold.integer, Fold.boolean]

theorem foldIntegers_supported {op : Binary} {left right : Word} :
    (foldIntegers op left right : Fold F Tree.Literal) ≠ .throwNotSupported := by
  have checked (result : Option Word) :
      (Fold.checked result : Fold F Tree.Literal) ≠ .throwNotSupported := by
    cases result <;> simp [Fold.checked, Fold.integer]
  cases op <;> first | exact checked _ | simp [foldIntegers, Fold.integer, Fold.boolean]

theorem foldFloats_defined {op : Binary} {mixed : Bool} {left right : F} :
    (foldFloats op mixed left right : Fold F Tree.Literal) ≠ .undefined := by
  cases op <;> simp [foldFloats, Fold.float, Fold.boolean]

theorem foldFloats_notSupported {op : Binary} {mixed : Bool} {left right : F} :
    (foldFloats op mixed left right : Fold F Tree.Literal) = .throwNotSupported ↔
      ¬OfFloats op := by
  cases op <;> simp [foldFloats, OfFloats, Fold.float, Fold.boolean]

theorem foldUnary_defined {op : Unary} {operand : Operand F} :
    foldUnary op operand ≠ .undefined := by
  cases operand <;> cases op <;> simp [foldUnary, Fold.integer, Fold.float, Fold.boolean]

theorem foldUnary_notSupported {op : Unary} {operand : Operand F} :
    foldUnary op operand = .throwNotSupported ↔ op = .complement ∧ IsFloat operand := by
  cases operand <;> cases op <;>
    simp [foldUnary, IsFloat, Fold.integer, Fold.float, Fold.boolean]

theorem foldBinary_undefined {op : Binary} {left right : Operand F} :
    foldBinary op left right = .undefined ↔
      ∃ a b, left = .integer a ∧ right = .integer b ∧ ¬op.Defined a b := by
  cases left <;> cases right <;>
    simp [foldBinary, foldIntegers_undefined, foldFloats_defined]

theorem foldBinary_notSupported {op : Binary} {left right : Operand F} :
    foldBinary op left right = .throwNotSupported ↔
      IsNumber left ∧ IsNumber right ∧ (IsFloat left ∨ IsFloat right) ∧ ¬OfFloats op := by
  cases left <;> cases right <;>
    simp [foldBinary, foldIntegers_supported, foldFloats_notSupported, IsNumber, IsFloat]

theorem stop_eq {node : Tree} {found : Stop} :
    stop double node = some found ↔ ∃ operation operands, node = .operate operation operands ∧
      settle (fold operation (constant.all double operands)) = .error found := by
  constructor
  · intro stops
    unfold stop at stops
    split at stops
    · rename_i operation operands
      refine ⟨operation, operands, rfl, ?_⟩
      split at stops
      · cases stops
      · rename_i result
        cases stops
        exact result
    · cases stops
  · intro ⟨operation, operands, same, settled⟩
    rw [same, stop, settled]

theorem settle_undefined {found : Fold F Tree.Literal} :
    settle found = .error .undefined ↔ found = .undefined := by
  cases found <;> simp [settle]

theorem settle_notSupported {found : Fold F Tree.Literal} :
    settle found = .error .notSupported ↔ found = .throwNotSupported := by
  cases found <;> simp [settle]

theorem constant_all {nodes : List Tree} :
    constant.all double nodes = nodes.map (constant double) := by
  induction nodes with
  | nil => rfl
  | cons node nodes induction => rw [constant.all, induction, List.map_cons]

theorem constant_one {nodes : List Tree} {operand : Operand F} :
    constant.all double nodes = [operand] ↔ ∃ node, nodes = [node] ∧
      constant double node = operand := by
  rw [constant_all, List.map_eq_singleton_iff]

theorem constant_two {nodes : List Tree} {one two : Operand F} :
    constant.all double nodes = [one, two] ↔ ∃ left right, nodes = [left, right] ∧
      constant double left = one ∧ constant double right = two := by
  rw [constant_all, List.map_eq_cons_iff]
  constructor
  · intro ⟨left, rest, same, first, others⟩
    obtain ⟨right, only, second⟩ := List.map_eq_singleton_iff.mp others
    exact ⟨left, right, by rw [same, only], first, second⟩
  · intro ⟨left, right, same, first, second⟩
    exact ⟨left, [right], same, first, List.map_eq_singleton_iff.mpr ⟨right, rfl, second⟩⟩

variable (double) in
theorem fold_cases (operation : Tree.Operation) (operands : List Tree) :
    fold operation (constant.all double operands) = .instruction ∨
      (∃ op part, operation = .unary op ∧ operands = [part] ∧
        fold operation (constant.all double operands) = foldUnary op (constant double part)) ∨
      ∃ op left right, operation = .binary op ∧ operands = [left, right] ∧
        fold operation (constant.all double operands) =
          foldBinary op (constant double left) (constant double right) := by
  unfold fold
  split
  · rename_i op operand one
    obtain ⟨part, rfl, same⟩ := constant_one.mp one
    exact .inr (.inl ⟨op, part, rfl, rfl, by rw [same]⟩)
  · rename_i op first second two
    obtain ⟨left, right, rfl, same, same'⟩ := constant_two.mp two
    exact .inr (.inr ⟨op, left, right, rfl, rfl, by rw [same, same']⟩)
  · exact .inl rfl

theorem stop_undefined {node : Tree} :
    stop double node = some .undefined ↔ Traps double node := by
  rw [stop_eq]
  constructor
  · intro ⟨operation, operands, same, settled⟩
    rw [settle_undefined] at settled
    rcases fold_cases double operation operands with
      other | ⟨op, part, -, -, folds⟩ | ⟨op, left, right, rfl, rfl, folds⟩
    · rw [other] at settled
      cases settled
    · rw [folds] at settled
      exact absurd settled foldUnary_defined
    · rw [folds, foldBinary_undefined] at settled
      obtain ⟨a, b, first, second, undefined⟩ := settled
      exact ⟨op, left, right, a, b, same, first, second, undefined⟩
  · intro ⟨op, left, right, a, b, same, first, second, undefined⟩
    refine ⟨_, _, same, settle_undefined.mpr ?_⟩
    change foldBinary op (constant double left) (constant double right) = _
    exact foldBinary_undefined.mpr ⟨a, b, first, second, undefined⟩

theorem stop_notSupported {node : Tree} :
    stop double node = some .notSupported ↔ Unsupported double node := by
  rw [stop_eq]
  constructor
  · intro ⟨operation, operands, same, settled⟩
    rw [settle_notSupported] at settled
    rcases fold_cases double operation operands with
      other | ⟨op, part, rfl, rfl, folds⟩ | ⟨op, left, right, rfl, rfl, folds⟩
    · rw [other] at settled
      cases settled
    · rw [folds, foldUnary_notSupported] at settled
      obtain ⟨rfl, float⟩ := settled
      exact .inl ⟨part, same, float⟩
    · rw [folds, foldBinary_notSupported] at settled
      exact .inr ⟨op, left, right, same, settled⟩
  · intro unsupported
    cases unsupported with
    | inl unary =>
        obtain ⟨part, same, float⟩ := unary
        refine ⟨_, _, same, settle_notSupported.mpr ?_⟩
        change foldUnary .complement (constant double part) = _
        exact foldUnary_notSupported.mpr ⟨rfl, float⟩
    | inr binary =>
        obtain ⟨op, left, right, same, numbers⟩ := binary
        refine ⟨_, _, same, settle_notSupported.mpr ?_⟩
        change foldBinary op (constant double left) (constant double right) = _
        exact foldBinary_notSupported.mpr numbers

variable (double) in
/-- A script is compiled without an undefined operation unless it has one on constants, and
no operator that floats do not have stands before it. -/
theorem defined_iff (tree : Tree) :
    emit double tree ≠ .error .undefined ↔ ∀ before node after,
      order tree = before ++ node :: after → (∀ other ∈ before, ¬Unsupported double other) →
      ¬Traps double node := by
  have ended : emit double tree = .error .undefined ↔
      (order tree).findSome? (stop double) = some .undefined := by
    rw [emit_eq, ends]
    cases (order tree).findSome? (stop double) <;> simp
  rw [Ne, ended]
  constructor
  · intro defined before node after split supported traps
    apply defined
    rw [split, List.findSome?_append, List.findSome?_cons, stop_undefined.mpr traps]
    cases earlier : before.findSome? (stop double) with
    | none => rfl
    | some found =>
        obtain ⟨other, among, stops⟩ := List.exists_of_findSome?_eq_some earlier
        cases found with
        | notSupported => exact absurd (stop_notSupported.mp stops) (supported other among)
        | undefined => rfl
  · intro safe stops
    obtain ⟨before, node, after, split, undefined, earlier⟩ := List.findSome?_eq_some_iff.mp stops
    apply safe before node after split _ (stop_undefined.mp undefined)
    intro other among unsupported
    have passes := earlier other among
    rw [stop_notSupported.mpr unsupported] at passes
    cases passes

end

/-- `1 / 0` -/
theorem division_by_zero : ∃ tree scope state,
    Parser.program 4 (Parser.start ⟨.integer 1, false, 0⟩
      (Parser.line [.slash, .integer 0])) = .ok ((tree, scope), state) ∧
    emit (F := Int) (fun _ => 0) tree = .error .undefined := by
  obtain ⟨tree, scope, state, parsed, passed⟩ := Parser.of_passes
    (show Parser.passes (fun tree _ => decide (emit (F := Int) (fun _ => 0) tree =
        .error .undefined))
      (Parser.program 4 (Parser.start ⟨.integer 1, false, 0⟩
        (Parser.line [.slash, .integer 0]))) = true by decide +kernel)
  exact ⟨tree, scope, state, parsed, of_decide_eq_true passed⟩

end Compile

end Xemmai
