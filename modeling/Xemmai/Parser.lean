import Xemmai.Tree

/-!
# The parser

`t_parser` member by member. The functions that are entered again inside what they
parse are passed to the others as `Nested`, and the loops are bounded by the same
`fuel`, so that `Parser.nested` ties the knot.
-/

namespace Xemmai

set_option autoImplicit false

namespace Parser

/-- A scope when its text has been parsed, and when it has been classified. -/
structure Closing where
  parameters : List String
  defaults : Nat
  variadic : Bool
  arguments : Nat
  before : Scope
  after : Scope

/-- The token the lexer is at and those that it would give, up to the end of the
file or to what it throws for; `v_scope` and its outer scopes; the flags; and the
history of the scopes that have ended, the last first. -/
structure State where
  current : Lexeme
  rest : List Lexeme
  scopes : List Scope
  canJump : Bool
  canReturn : Bool
  closed : List Closing

/-- What the parser throws, what the lexer throws, a loop over variables that does
not come to its end, and the end of the fuel. -/
inductive Failure
  | thrown (message : String)
  | lexical
  | unbounded
  | exhausted
  deriving DecidableEq, Repr

end Parser

abbrev Parser := StateT Parser.State (Except Parser.Failure)

namespace Parser

open Tree

structure Nested where
  expression : Parser Tree
  unary : Parser Tree
  conditional : Parser Tree

def fail {α : Type} (message : String) : Parser α :=
  throw (.thrown message)

/-- `v_lexer.f_next()` -/
def advance : Parser Unit := do
  let state ← get
  match state.rest with
  | [] => throw .lexical
  | lexeme :: rest => set { state with current := lexeme, rest := rest }

def current : Parser Lexeme := do
  return (← get).current

def ensure (met : Bool) (message : String) : Parser Unit :=
  if met then pure () else fail message

def optional {α : Type} (met : Bool) (parser : Parser α) (absent : α) : Parser α :=
  if met then parser else pure absent

def advanceIf (met : Bool) : Parser Unit :=
  if met then advance else pure ()

/-- A loop goes on with the left of what a turn gives and ends with the right. -/
def loop {σ α : Type} (turn : σ → Parser (σ ⊕ α)) : Nat → σ → Parser α
  | 0, _ => throw .exhausted
  | fuel + 1, state => do
    match ← turn state with
    | .inl state => loop turn fuel state
    | .inr result => return result

def modifyScope (outer : Nat) (change : Scope → Scope) : Parser Unit :=
  modify fun state => { state with scopes := state.scopes.modify outer change }

def jumping (canJump canReturn : Bool) : Parser Unit :=
  modify fun state => { state with canJump := canJump, canReturn := canReturn }

def any (indent : Nat) (right : Token) : Parser Bool := do
  let lexeme ← current
  return (!lexeme.newline || decide (indent < lexeme.indent)) && lexeme.token != right

def close (indent : Nat) (right : Token) : Parser Unit := do
  let lexeme ← current
  advanceIf ((!lexeme.newline || decide (indent ≤ lexeme.indent)) && lexeme.token == right)

/-- The tokens with which `f_has_expression` finds that there is one. -/
def starts : Token → Bool
  | .exclamation | .apostrophe | .leftParenthesis | .plus | .hyphen | .colon _ | .atmark
  | .leftBracket | .leftBrace | .tilde | .null | .true_ | .false_ | .symbol _ | .self _
  | .integer _ | .float _ | .string _ | .if_ | .while_ | .for_ | .try_ => true
  | _ => false

def hasExpression : Parser Bool := do
  let lexeme ← current
  return !lexeme.newline && starts lexeme.token

/-- `= expression`, where it may stand. -/
def assigned (nested : Nested) (assignable : Bool) : Parser (Option Tree) := do
  if (← current).token ≠ .equal then return none
  ensure assignable "can not assign to expression."
  advance
  return some (← nested.expression)

section

variable (nested : Nested) (fuel : Nat)

/-- `f_argument`: the expression, and whether another one follows. -/
def argument (indent : Nat) : Parser (Tree × Bool) := do
  let node ← nested.expression
  let lexeme ← current
  if lexeme.token ≠ .comma then
    return (node, lexeme.newline && decide (indent < lexeme.indent))
  if lexeme.newline && decide (lexeme.indent < indent) then return (node, false)
  advance
  return (node, true)

/-- `f_arguments`: the arguments and `v_expands`. -/
def arguments (indent : Nat) : Parser (List Tree × List Nat) :=
  loop (fun (nodes, expands) => do
    let expanded := (← current).token == .asterisk
    advanceIf expanded
    let expands := if expanded then expands ++ [nodes.length] else expands
    let (node, more) ← argument nested indent
    let nodes := nodes ++ [node]
    return if more then .inl (nodes, expands) else .inr (nodes, expands)) fuel ([], [])

/-- `f_expressions`, behind what there is. -/
def expressions (nodes : List Tree) : Parser (List Tree) :=
  loop (fun nodes => do
    let node ← nested.expression
    let nodes := nodes ++ [node]
    let lexeme ← current
    if lexeme.newline || lexeme.token != .comma then return .inr nodes
    advance
    return .inl nodes) fuel nodes

def options : Parser (Option Tree) := do
  let lexeme ← current
  if lexeme.newline then return none
  if lexeme.token = .semicolon then
    advance
    return none
  let nodes ← expressions nested fuel []
  let lexeme ← current
  ensure (lexeme.newline || lexeme.token == .semicolon) "expecting ';'."
  advanceIf !lexeme.newline
  return some (.operate .nodes nodes)

/-- The lines of `f_body` at an indent. -/
def lines (indent : Nat) : Parser (List Tree) :=
  loop (fun nodes => do
    let nodes ← expressions nested fuel nodes
    let lexeme ← current
    return if lexeme.newline && lexeme.indent == indent then .inl nodes else .inr nodes)
    fuel []

def body (indent : Nat) : Parser Tree := do
  let lexeme ← current
  if !lexeme.newline then return ← nested.expression
  if lexeme.indent ≤ indent then return .operate .nodes []
  let nodes ← lines nested fuel lexeme.indent
  ensure ((← current).indent ≤ lexeme.indent) "unexpected indent."
  return .operate .nodes nodes

/-- A call of the target with the arguments up to `right`, behind the opening
delimiter. -/
def call (target : Tree) (indent : Nat) (right : Token) : Parser Tree := do
  let some_ ← any indent right
  let (nodes, expands) ← optional some_ (arguments nested fuel indent) ([], [])
  close indent right
  return .operate (.call expands) (target :: nodes)

/-- `f_target` at a symbol. -/
def symbol (assignable : Bool) (outer : Nat) (name : String) : Parser Tree := do
  advance
  let inside := decide (outer < (← get).scopes.length)
  if (← current).token = .equal then
    ensure assignable "can not assign to expression."
    ensure inside "no more outer scope."
    advance
    modifyScope outer fun scope =>
      if 0 < outer then (scope.variable_ name).share name else scope.variable_ name
    return .scopePut outer name (← nested.expression)
  modifyScope outer fun scope =>
    if 0 < outer then scope.unresolve name else scope.reference name
  return .symbolGet outer inside name

/-- `f_target` at a self. -/
def self (assignable : Bool) (outer : Nat) (marks : List Char) : Parser Tree := do
  ensure (outer < (← get).scopes.length) "no more outer scope."
  modifyScope outer fun scope => { scope with selfShared := scope.selfShared || decide (0 < outer) }
  let target := marks.foldl (fun target mark =>
    .operate (if mark = '@' then .class_ else .super) [target]) (.self outer)
  advance
  let lexeme ← current
  match lexeme.newline, lexeme.token with
  | false, .symbol key =>
    advance
    match ← assigned nested assignable with
    | some value => return .operate (.objectPut key) [target, value]
    | none => return .operate (.objectGet key) [target]
  | _, _ => return target

/-- `f_target` at a symbol or a self, behind the colons. -/
def name (assignable : Bool) (outer : Nat) : Parser Tree := do
  match (← current).token with
  | .symbol name => symbol nested assignable outer name
  | .self marks => self nested assignable outer marks
  | _ => fail "expecting symbol or self."

def default (defaults : List Tree) : Parser (List Tree) := do
  if (← current).token = .equal then
    advance
    return defaults ++ [← nested.expression]
  ensure defaults.isEmpty "expecting '='."
  return defaults

/-- The parameters of a lambda, with its scope and its defaults. -/
def parameters : Parser (Scope × List String × List Tree × Bool) :=
  loop (fun (scope, names, defaults) => do
    match (← current).token with
    | .symbol name =>
      let scope := scope.parameter name
      let names := names ++ [name]
      advance
      let defaults ← default nested defaults
      let lexeme ← current
      if lexeme.newline && lexeme.token != .rightParenthesis then
        return .inl (scope, names, defaults)
      if lexeme.token = .comma then
        advance
        return .inl (scope, names, defaults)
      return .inr (scope, names, defaults, false)
    | .asterisk =>
      advance
      match (← current).token with
      | .symbol name =>
        advance
        return .inr (scope.parameter name, names ++ [name], defaults, true)
      | _ => fail "expecting symbol."
    | _ => fail "expecting symbol or '*'.") fuel (.empty, [], [])

def header : Parser (Scope × List String × List Tree × Bool) := do
  let lexeme ← current
  if lexeme.newline || lexeme.token != .leftParenthesis then return (.empty, [], [], false)
  advance
  let some_ := (← current).token != .rightParenthesis
  let header ← optional some_ (parameters nested fuel) (.empty, [], [], false)
  ensure ((← current).token == .rightParenthesis) "expecting ')'."
  advance
  return header

/-- The end of a scope, which leaves what it has not resolved to the outer one. -/
def leave (parameters : List String) (defaults : Nat) (variadic : Bool) (arguments : Nat) :
    Parser Scope := do
  let state ← get
  match state.scopes with
  | [] => fail "no more outer scope."
  | scope :: outers =>
    let resolved := scope.resolve
    match resolved.close arguments with
    | none => throw .unbounded
    | some closed =>
      set { state with
        scopes := outers.modifyHead fun outer => scope.escaping.foldl Scope.unresolve outer
        closed := ⟨parameters, defaults, variadic, arguments, resolved, closed⟩ :: state.closed }
      return closed

/-- `f_target` at an `@`. -/
def lambda : Parser Tree := do
  let indent := (← current).indent
  advance
  let (scope, parameters, defaults, variadic) ← header nested fuel
  let arguments := scope.names.length
  modifyScope 0 fun scope => { scope with isShared := true }
  let state ← get
  set { state with scopes := scope :: state.scopes, canReturn := true }
  let body ← body nested fuel indent
  let scope ← leave parameters defaults.length variadic arguments
  jumping state.canJump state.canReturn
  return .lambda scope parameters variadic defaults body

/-- The arguments of `f_target` at a `(`. -/
def parenthesized (indent : Nat) : Parser (List Tree) :=
  loop (fun nodes => do
    let (node, more) ← argument nested indent
    let nodes := nodes ++ [node]
    return if more then .inl nodes else .inr nodes) fuel []

/-- The keys and the values of a map. -/
def pairs (indent : Nat) : Parser (List Tree) :=
  loop (fun nodes => do
    let key ← nested.expression
    ensure ((← current).token == .colon 1) "expecting ':'."
    advance
    let value ← nested.expression
    let nodes := nodes ++ [key, value]
    let lexeme ← current
    if lexeme.token = .comma then
      if lexeme.newline && decide (lexeme.indent < indent) then return .inr nodes
      advance
      return .inl nodes
    return if lexeme.newline && decide (indent < lexeme.indent) then .inl nodes else .inr nodes)
    fuel []

/-- `f_target` at an `'`. -/
def quoted : Parser Tree := do
  advance
  let lexeme ← current
  match lexeme.token with
  | .symbol name =>
    advance
    return .literal (.symbol name)
  | .leftParenthesis =>
    advance
    call nested fuel (.literal .tuple) lexeme.indent .rightParenthesis
  | _ => fail "expecting symbol or '('."

/-- The operand of a `break` or a `return`. -/
def operand : Parser Tree := do
  let some_ ← hasExpression
  optional some_ nested.expression (.literal .null)

def literal (value : Tree.Literal) : Parser Tree := do
  advance
  return .literal value

def target (assignable : Bool) : Parser Tree := do
  let lexeme ← current
  match lexeme.token with
  | .colon outer =>
    ensure (outer ≤ (← get).scopes.length) "no more outer scope."
    advance
    name nested assignable outer
  | .symbol _ | .self _ => name nested assignable 0
  | .apostrophe => quoted nested fuel
  | .leftParenthesis =>
    advance
    let some_ ← any lexeme.indent .rightParenthesis
    let nodes ← optional some_ (parenthesized nested fuel lexeme.indent) []
    close lexeme.indent .rightParenthesis
    return .operate .nodes nodes
  | .atmark => lambda nested fuel
  | .leftBracket =>
    advance
    call nested fuel (.literal .list) lexeme.indent .rightBracket
  | .leftBrace =>
    advance
    let some_ ← any lexeme.indent .rightBrace
    let nodes ← optional some_ (pairs nested fuel lexeme.indent) []
    close lexeme.indent .rightBrace
    return .operate (.call []) (.literal .map :: nodes)
  | .null => literal .null
  | .true_ => literal (.boolean true)
  | .false_ => literal (.boolean false)
  | .integer value => literal (.integer value)
  | .float value => literal (.float value)
  | .string value => literal (.string value)
  | .break_ =>
    ensure (← get).canJump "expecting inside loop."
    advance
    return .break_ (← operand nested)
  | .continue_ =>
    ensure (← get).canJump "expecting inside loop."
    advance
    return .continue_
  | .return_ =>
    ensure (← get).canReturn "expecting within lambda."
    advance
    return .return_ (← operand nested)
  | .throw_ =>
    advance
    return .operate .throw_ [← nested.expression]
  | _ => fail "unexpected token."

/-- What stands behind a `.`, and whether it ends the chain. -/
def member (assignable : Bool) (target : Tree) : Parser (Tree ⊕ Tree) := do
  let lexeme ← current
  match lexeme.token with
  | .leftParenthesis =>
    advance
    let key ← nested.expression
    close lexeme.indent .rightParenthesis
    match ← assigned nested assignable with
    | some value => return .inr (.operate .objectPutIndirect [target, key, value])
    | none => return .inl (.operate .objectGetIndirect [target, key])
  | .symbol key =>
    advance
    match ← assigned nested assignable with
    | some value => return .inr (.operate (.objectPut key) [target, value])
    | none => return .inl (.operate (.objectGet key) [target])
  | .atmark =>
    advance
    return .inl (.operate .class_ [target])
  | .hat =>
    advance
    return .inl (.operate .super [target])
  | .question =>
    advance
    let lexeme ← current
    match lexeme.token with
    | .leftParenthesis =>
      advance
      let key ← nested.expression
      close lexeme.indent .rightParenthesis
      return .inl (.operate .objectHasIndirect [target, key])
    | .symbol key =>
      advance
      return .inl (.operate (.objectHas key) [target])
    | _ => fail "expecting '(' or symbol."
  | _ => fail "expecting '(' or '?' or '@' or '^' or symbol."

def action (indent : Nat) (assignable : Bool) : Tree → Parser Tree :=
  loop (fun target => do
    let lexeme ← current
    if lexeme.newline && !(decide (indent < lexeme.indent) && lexeme.token == .dot) then
      return .inr target
    match lexeme.token with
    | .leftParenthesis =>
      advance
      return .inl (← call nested fuel target lexeme.indent .rightParenthesis)
    | .dot =>
      advance
      member nested assignable target
    | .leftBracket =>
      advance
      let index ← nested.expression
      close lexeme.indent .rightBracket
      match ← assigned nested assignable with
      | some value => return .inr (.operate .setAt [target, index, value])
      | none => return .inl (.operate .getAt [target, index])
    | _ => return .inr target) fuel

def unaryOf : Token → Option Unary
  | .plus => some .plus
  | .hyphen => some .minus
  | .exclamation => some .not
  | .tilde => some .complement
  | _ => none

def signed : Unary → Token → Option Tree.Literal
  | .plus, .integer value => some (.integer value)
  | .minus, .integer value => some (.integer (-value))
  | .plus, .float value => some (.float value)
  | .minus, .float value => some (.float { value with negative := !value.negative })
  | .complement, .integer value => some (.integer (~~~value))
  | _, _ => none

def unary (assignable : Bool) : Parser Tree := do
  let lexeme ← current
  match unaryOf lexeme.token with
  | none => action nested fuel lexeme.indent assignable (← target nested fuel assignable)
  | some instruction =>
    advance
    match signed instruction (← current).token with
    | some value =>
      advance
      action nested fuel lexeme.indent assignable (.literal value)
    | none => return .operate (.unary instruction) [← nested.unary]

/-- A level of operators, which associate to the left. -/
def level (operator : Token → Option (Tree → Tree → Tree)) (operand : Bool → Parser Tree)
    (assignable : Bool) : Parser Tree := do
  loop (fun node => do
    let lexeme ← current
    if lexeme.newline then return .inr node
    match operator lexeme.token with
    | none => return .inr node
    | some build =>
      advance
      return .inl (build node (← operand false))) fuel (← operand assignable)

def binary (instruction : Token → Option Binary) : (Bool → Parser Tree) → Bool → Parser Tree :=
  level fuel fun token => (instruction token).map fun instruction left right =>
    .operate (.binary instruction) [left, right]

def multiplicative : Bool → Parser Tree :=
  binary fuel (fun
    | .asterisk => some .multiply
    | .slash => some .divide
    | .percent => some .modulus
    | _ => none) (unary nested fuel)

def additive : Bool → Parser Tree :=
  binary fuel (fun
    | .plus => some .add
    | .hyphen => some .subtract
    | _ => none) (multiplicative nested fuel)

def shift : Bool → Parser Tree :=
  binary fuel (fun
    | .leftShift => some .leftShift
    | .rightShift => some .rightShift
    | _ => none) (additive nested fuel)

def relational : Bool → Parser Tree :=
  binary fuel (fun
    | .less => some .less
    | .lessEqual => some .lessEqual
    | .greater => some .greater
    | .greaterEqual => some .greaterEqual
    | _ => none) (shift nested fuel)

def equality : Bool → Parser Tree :=
  binary fuel (fun
    | .equals => some .equals
    | .notEquals => some .notEquals
    | .identical => some .identical
    | .notIdentical => some .notIdentical
    | _ => none) (relational nested fuel)

def and : Bool → Parser Tree :=
  binary fuel (fun
    | .ampersand => some .and
    | _ => none) (equality nested fuel)

def xor : Bool → Parser Tree :=
  binary fuel (fun
    | .hat => some .xor
    | _ => none) (and nested fuel)

def or : Bool → Parser Tree :=
  binary fuel (fun
    | .bar => some .or
    | _ => none) (xor nested fuel)

def andAlso : Bool → Parser Tree :=
  level fuel (fun
    | .andAlso => some fun left right => .if_ (some left) right .preserve
    | _ => none) (or nested fuel)

def orElse : Bool → Parser Tree :=
  level fuel (fun
    | .orElse => some fun left right => .if_ (some left) .preserve right
    | _ => none) (andAlso nested fuel)

def conditional (assignable : Bool) : Parser Tree := do
  let node ← orElse nested fuel assignable
  let lexeme ← current
  if lexeme.newline || lexeme.token != .question then return node
  advance
  let true_ ← nested.conditional
  ensure ((← current).token == .colon 1) "expecting ':'."
  advance
  return .if_ (some node) true_ (← nested.conditional)

/-- `f_expression` at an `if`. -/
def ifThen : Parser Tree := do
  let indent := (← current).indent
  advance
  let condition ← options nested fuel
  let true_ ← body nested fuel indent
  let lexeme ← current
  if (!lexeme.newline || lexeme.indent == indent) && lexeme.token == .else_ then
    advance
    return .if_ condition true_ (← body nested fuel indent)
  return .if_ condition true_ (.literal .null)

/-- `v_privates.v_tail` of `v_scope` -/
def tail : Parser (Option String) := do
  return (← get).scopes.head?.bind Scope.tail

/-- `v_scope->f_vary(tail)` -/
def vary (tail : Option String) : Parser Unit := do
  let state ← get
  match state.scopes with
  | [] => fail "no more outer scope."
  | scope :: outers =>
    match scope.vary tail with
    | none => throw .unbounded
    | some scope => set { state with scopes := scope :: outers }

def looped (indent : Nat) : Parser Tree := do
  let state ← get
  jumping true state.canReturn
  let body ← body nested fuel indent
  jumping state.canJump state.canReturn
  return body

/-- `f_expression` at a `while`. -/
def while_ : Parser Tree := do
  let indent := (← current).indent
  advance
  let tail ← tail
  let condition ← options nested fuel
  let body ← looped nested fuel indent
  vary tail
  return .while_ condition body

/-- `f_expression` at a `for`. -/
def for_ : Parser Tree := do
  let indent := (← current).indent
  advance
  let initialization ← options nested fuel
  let tail ← tail
  let condition ← options nested fuel
  let next ← options nested fuel
  let body ← looped nested fuel indent
  vary tail
  return .for_ initialization condition next body

/-- The catch clauses of a `try`. -/
def catches (indent : Nat) : Parser (List (Tree × String × Tree)) :=
  loop (fun clauses => do
    let lexeme ← current
    if lexeme.indent ≠ indent ∨ lexeme.token ≠ .catch_ then return .inr clauses
    advance
    let expression ← nested.expression
    match (← current).token with
    | .symbol name =>
      advance
      modifyScope 0 fun scope => scope.variable_ name
      let body ← body nested fuel indent
      return .inl (clauses ++ [(expression, name, body)])
    | _ => fail "expecting symbol.") fuel []

/-- `f_expression` at a `try`. -/
def try_ : Parser Tree := do
  let indent := (← current).indent
  advance
  let tried ← body nested fuel indent
  let catches ← catches nested fuel indent
  let lexeme ← current
  if lexeme.indent = indent ∧ lexeme.token = .finally_ then
    advance
    let state ← get
    jumping false false
    let finally_ ← body nested fuel indent
    jumping state.canJump state.canReturn
    return .try_ tried catches (some finally_)
  ensure (!catches.isEmpty) "expecting 'finally'."
  return .try_ tried catches none

def expression : Parser Tree := do
  match (← current).token with
  | .if_ => ifThen nested fuel
  | .while_ => while_ nested fuel
  | .for_ => for_ nested fuel
  | .try_ => try_ nested fuel
  | _ => conditional nested fuel true

end

/-- The functions as deep as `fuel` goes. -/
def nested : Nat → Nested
  | 0 => ⟨throw .exhausted, throw .exhausted, throw .exhausted⟩
  | fuel + 1 =>
    { expression := expression (nested fuel) fuel
      unary := unary (nested fuel) fuel false
      conditional := conditional (nested fuel) fuel false }

/-- The expressions of a module. -/
def module_ (fuel : Nat) : Parser (List Tree) := do
  let first ← current
  if first.token = .eof then return []
  loop (fun nodes => do
    let nodes ← expressions (nested fuel) fuel nodes
    let lexeme ← current
    if lexeme.token = .eof then return .inr nodes
    ensure lexeme.newline "expecting newline."
    ensure (lexeme.indent = first.indent) "unexpected indent."
    return .inl nodes) fuel []

/-- `t_parser::operator()`, with the scope of the module. -/
def program (fuel : Nat) : Parser (Tree × Scope) := do
  let nodes ← module_ fuel
  let scope ← leave [] 0 false 0
  return (.operate .nodes nodes, scope)

def start (first : Lexeme) (rest : List Lexeme) : State where
  current := first
  rest := rest
  scopes := [.empty]
  canJump := false
  canReturn := false
  closed := []

def passes (test : Tree → State → Bool) : Except Failure ((Tree × Scope) × State) → Bool
  | .ok ((tree, _), state) => test tree state
  | .error _ => false

theorem of_passes {test : Tree → State → Bool} {result : Except Failure ((Tree × Scope) × State)}
    (passed : passes test result = true) :
    ∃ tree scope state, result = .ok ((tree, scope), state) ∧ test tree state = true := by
  match result, passed with
  | .ok ((tree, scope), state), passed => exact ⟨tree, scope, state, rfl, passed⟩

/-- The tokens behind the first on its line, and the end of the file on the next. -/
def line (tokens : List Token) : List Lexeme :=
  tokens.map (⟨·, false, 0⟩) ++ [⟨.eof, true, 0⟩]

end Parser

end Xemmai
