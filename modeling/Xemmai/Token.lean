import Xemmai.Operator

/-!
# Tokens

What the lexer hands to the parser: a token with its value, whether it is the
first of its line, and the indent of that line. Positions are left out.
-/

namespace Xemmai

set_option autoImplicit false

structure Decimal where
  negative : Bool
  text : String
  deriving DecidableEq, Repr

/-- `t_lexer::t_token` with `v_value`, `v_string`, `v_integer` and `v_float`. -/
inductive Token
  | eof
  | exclamation
  | percent
  | ampersand
  | apostrophe
  | leftParenthesis
  | rightParenthesis
  | asterisk
  | plus
  | comma
  | hyphen
  | dot
  | slash
  | colon (count : Nat)
  | semicolon
  | less
  | equal
  | greater
  | question
  | atmark
  | leftBracket
  | rightBracket
  | hat
  | leftBrace
  | bar
  | rightBrace
  | tilde
  | leftShift
  | rightShift
  | equals
  | notEquals
  | identical
  | notIdentical
  | lessEqual
  | greaterEqual
  | andAlso
  | orElse
  | null
  | true_
  | false_
  | symbol (value : String)
  | self (value : List Char)
  | integer (value : Word)
  | float (value : Decimal)
  | string (value : String)
  | break_
  | continue_
  | return_
  | throw_
  | if_
  | else_
  | while_
  | for_
  | try_
  | catch_
  | finally_
  deriving DecidableEq, Repr

structure Lexeme where
  token : Token
  newline : Bool
  indent : Nat
  deriving DecidableEq, Repr

end Xemmai
