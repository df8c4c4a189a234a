import Xemmai.Scope
import Xemmai.Token

/-!
# Parse trees

The nodes that the parser builds, positions aside. The nodes that only evaluate
their operands are one constructor. A lambda keeps its scope as it has been
classified, and its parameters as they are written.
-/

namespace Xemmai

set_option autoImplicit false

namespace Tree

/-- `t_literal` and `t_null`; the last three are the types that literals call. -/
inductive Literal
  | null
  | boolean (value : Bool)
  | integer (value : Word)
  | float (value : Decimal)
  | string (value : String)
  | symbol (value : String)
  | tuple
  | list
  | map
  deriving DecidableEq, Repr

/-- What is done with operands; `expands` are `v_index` of `v_expands`. -/
inductive Operation
  | nodes
  | call (expands : List Nat)
  | throw_
  | objectGet (key : String)
  | objectGetIndirect
  | objectPut (key : String)
  | objectPutIndirect
  | objectHas (key : String)
  | objectHasIndirect
  | class_
  | super
  | getAt
  | setAt
  | unary (instruction : Unary)
  | binary (instruction : Binary)
  deriving DecidableEq, Repr

end Tree

/-- `t_symbol_get` has a scope unless the colons lead out of the module. -/
inductive Tree
  | literal (value : Tree.Literal)
  | self (outer : Nat)
  | preserve
  | symbolGet (outer : Nat) (inside : Bool) (symbol : String)
  | scopePut (outer : Nat) (symbol : String) (value : Tree)
  | operate (operation : Tree.Operation) (operands : List Tree)
  | if_ (condition : Option Tree) (true_ false_ : Tree)
  | while_ (condition : Option Tree) (body : Tree)
  | for_ (initialization condition next : Option Tree) (body : Tree)
  | break_ (expression : Tree)
  | continue_
  | return_ (expression : Tree)
  | try_ (body : Tree) (catches : List (Tree × String × Tree)) (finally_ : Option Tree)
  | lambda (scope : Parser.Scope) (parameters : List String) (variadic : Bool)
      (defaults : List Tree) (body : Tree)

end Xemmai
