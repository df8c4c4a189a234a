import Xemmai.Operator

/-!
# Syntax trees

The nodes that the parser builds for the body of a lambda or of a module. A
nested lambda is the code object that its own emission yields. Variables are
numbered and a `Layout` gives what the parser has classified them as; symbols,
keys and code objects are numbered as well.
-/

namespace Xemmai

set_option autoImplicit false

/-- `t_code::t_variable` -/
structure Variable where
  isShared : Bool
  varies : Bool
  index : Nat
  deriving DecidableEq, Repr

/-- `v_arguments`, `v_privates.v_size` and the variables of a scope. The parser
gives a variable that is not shared a slot among the privates. -/
structure Layout where
  arguments : Nat
  privates : Nat
  variableOf : Nat → Variable
  bounded : ∀ i, (variableOf i).isShared = false → (variableOf i).index < privates

/-- The nodes whose operands are all left on the stack for one instruction. -/
inductive Action where
  | objectGet (key : Nat)
  | objectGetIndirect
  | objectPut (key : Nat)
  | objectPutIndirect
  | objectHas (key : Nat)
  | objectHasIndirect
  | globalGet (symbol : Nat)
  | lambda (code : Nat)
  | advancedLambda (code : Nat)
  | class_
  | super
  | getAt
  | setAt
  deriving DecidableEq, Repr

/-- `GET_AT` and `SET_AT` have `_TAIL` forms and keep `stack[0]` free. -/
def Action.isIndexing : Action → Bool
  | .getAt | .setAt => true
  | _ => false

inductive Literal (F O : Type) where
  | null
  | integer (value : Word)
  | float (value : F)
  | object (value : Value F O)
  deriving DecidableEq, Repr

namespace Literal

variable {F O : Type}

def value : Literal F O → Value F O
  | null => .null
  | integer value => .integer value
  | float value => .float value
  | object value => value

/-- The constructors of `t_operand` -/
def operand : Literal F O → Operand F O
  | null => .literal .null
  | integer value => .integer value
  | float value => .float value
  | object value => .literal value

end Literal

mutual

inductive Node (F O : Type) where
  | nodes (items : Nodes F O)
  | operate (action : Action) (operands : Nodes F O)
  | if_ (condition : Optional F O) (true_ false_ : Node F O)
  | while_ (condition : Optional F O) (body : Node F O)
  | for_ (initialization condition next : Optional F O) (body : Node F O)
  | break_ (expression : Node F O)
  | continue_
  | return_ (expression : Node F O)
  | try_ (body : Node F O) (catches : Catches F O) (finally_ : Optional F O)
  | throw_ (expression : Node F O)
  | symbolGet (resolved : Nat) (variable_ : Option Nat) (symbol : Nat)
  | scopePut (outer : Nat) (variable_ : Nat) (value : Node F O)
  | self (outer : Nat)
  | literal (literal : Literal F O)
  | unary (op : Unary) (expression : Node F O)
  | binary (op : Binary) (left right : Node F O)
  | preserve
  | call (target : Node F O) (arguments : Nodes F O) (expands : List Nat)

inductive Nodes (F O : Type) where
  | nil
  | cons (head : Node F O) (tail : Nodes F O)

/-- `t_try::t_catch` -/
inductive Catches (F O : Type) where
  | nil
  | cons (expression : Node F O) (variable_ : Nat) (body : Node F O) (tail : Catches F O)

inductive Optional (F O : Type) where
  | none
  | some (node : Node F O)

end

section Classes

variable {F O : Type}

def Nodes.length : Nodes F O → Nat
  | .nil => 0
  | .cons _ tail => tail.length + 1

def Optional.isSome : Optional F O → Bool
  | .none => false
  | .some _ => true

namespace Node

def objectGet (target : Node F O) (key : Nat) : Node F O :=
  operate (.objectGet key) (.cons target .nil)

def objectGetIndirect (target key : Node F O) : Node F O :=
  operate .objectGetIndirect (.cons target (.cons key .nil))

def objectPut (target : Node F O) (key : Nat) (value : Node F O) : Node F O :=
  operate (.objectPut key) (.cons target (.cons value .nil))

def objectPutIndirect (target key value : Node F O) : Node F O :=
  operate .objectPutIndirect (.cons target (.cons key (.cons value .nil)))

def objectHas (target : Node F O) (key : Nat) : Node F O :=
  operate (.objectHas key) (.cons target .nil)

def objectHasIndirect (target key : Node F O) : Node F O :=
  operate .objectHasIndirect (.cons target (.cons key .nil))

def class_ (target : Node F O) : Node F O := operate .class_ (.cons target .nil)

def super (target : Node F O) : Node F O := operate .super (.cons target .nil)

def getAt (target index : Node F O) : Node F O :=
  operate .getAt (.cons target (.cons index .nil))

def setAt (target index value : Node F O) : Node F O :=
  operate .setAt (.cons target (.cons index (.cons value .nil)))

/-- A lambda with default values, or a variadic one, takes an
`ADVANCED_LAMBDA`. -/
def lambda (code : Nat) (variadic : Bool) (defaults : Nodes F O) : Node F O :=
  if variadic || decide (0 < defaults.length) then operate (.advancedLambda code) defaults
  else operate (.lambda code) defaults

end Node

end Classes

section Forms

variable {F O : Type}

/-- How many children the class of an action has. A lambda has its default values. -/
def Action.arity : Action → Option Nat
  | .objectGet _ | .objectHas _ | .class_ | .super => some 1
  | .objectGetIndirect | .objectPut _ | .objectHasIndirect | .getAt => some 2
  | .objectPutIndirect | .setAt => some 3
  | .globalGet _ => some 0
  | .lambda _ | .advancedLambda _ => none

mutual

/-- Whether every action of a tree has the children of its class. -/
def Node.isFormed : Node F O → Bool
  | .nodes items => items.isFormed
  | .operate action operands => action.arity.all (· == operands.length) && operands.isFormed
  | .if_ condition true_ false_ => condition.isFormed && true_.isFormed && false_.isFormed
  | .while_ condition body => condition.isFormed && body.isFormed
  | .for_ initialization condition next body =>
      initialization.isFormed && condition.isFormed && next.isFormed && body.isFormed
  | .break_ expression => expression.isFormed
  | .continue_ => true
  | .return_ expression => expression.isFormed
  | .try_ body catches finally_ => body.isFormed && catches.isFormed && finally_.isFormed
  | .throw_ expression => expression.isFormed
  | .symbolGet _ _ _ => true
  | .scopePut _ _ value => value.isFormed
  | .self _ => true
  | .literal _ => true
  | .unary _ expression => expression.isFormed
  | .binary _ left right => left.isFormed && right.isFormed
  | .preserve => true
  | .call target arguments _ => target.isFormed && arguments.isFormed

def Nodes.isFormed : Nodes F O → Bool
  | .nil => true
  | .cons head tail => head.isFormed && tail.isFormed

def Catches.isFormed : Catches F O → Bool
  | .nil => true
  | .cons expression _ body tail => expression.isFormed && body.isFormed && tail.isFormed

def Optional.isFormed : Optional F O → Bool
  | .none => true
  | .some node => node.isFormed

end

attribute [grind =] Node.isFormed Nodes.isFormed Catches.isFormed Optional.isFormed

end Forms

section Blocks

variable {F O : Type}

mutual

/-- How many blocks a tree owns. They are numbered in the order in which
`f_flow` enters them. -/
def Node.blocks : Node F O → Nat
  | .nodes items => items.blocks
  | .operate _ operands => operands.blocks
  | .if_ condition true_ false_ => 4 + condition.blocks + true_.blocks + false_.blocks
  | .while_ condition body => 5 + condition.blocks + body.blocks
  | .for_ initialization condition next body =>
      7 + initialization.blocks + condition.blocks + body.blocks + next.blocks
  | .break_ expression => expression.blocks
  | .continue_ => 0
  | .return_ expression => expression.blocks
  | .try_ body catches finally_ => 5 + body.blocks + catches.blocks + finally_.blocks
  | .throw_ expression => expression.blocks
  | .symbolGet _ _ _ => 0
  | .scopePut _ _ value => value.blocks
  | .self _ => 0
  | .literal _ => 0
  | .unary _ expression => expression.blocks
  | .binary _ left right => left.blocks + right.blocks
  | .preserve => 0
  | .call target arguments _ => target.blocks + arguments.blocks

def Nodes.blocks : Nodes F O → Nat
  | .nil => 0
  | .cons head tail => head.blocks + tail.blocks

def Catches.blocks : Catches F O → Nat
  | .nil => 0
  | .cons expression _ body tail => 2 + expression.blocks + body.blocks + tail.blocks

def Optional.blocks : Optional F O → Nat
  | .none => 0
  | .some node => node.blocks

end

attribute [grind =] Node.blocks Nodes.blocks Catches.blocks Optional.blocks

end Blocks

end Xemmai
