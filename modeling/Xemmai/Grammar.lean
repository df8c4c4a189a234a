import Xemmai.Parser

/-!
# The grammar of terms

Which tokens on a line are a term, and which tree they stand for: the rules of the
term expressions and of the primary expressions, closed or not, over what is left
open here. A construct without an end of its own goes as far as it can.
-/

namespace Xemmai.Parser

set_option autoImplicit false

open Tree

/-- What an operator makes of its operands. -/
def joinOf : Token → Option (Tree → Tree → Tree)
  | .asterisk => some fun left right => .operate (.binary .multiply) [left, right]
  | .slash => some fun left right => .operate (.binary .divide) [left, right]
  | .percent => some fun left right => .operate (.binary .modulus) [left, right]
  | .plus => some fun left right => .operate (.binary .add) [left, right]
  | .hyphen => some fun left right => .operate (.binary .subtract) [left, right]
  | .leftShift => some fun left right => .operate (.binary .leftShift) [left, right]
  | .rightShift => some fun left right => .operate (.binary .rightShift) [left, right]
  | .less => some fun left right => .operate (.binary .less) [left, right]
  | .greater => some fun left right => .operate (.binary .greater) [left, right]
  | .lessEqual => some fun left right => .operate (.binary .lessEqual) [left, right]
  | .greaterEqual => some fun left right => .operate (.binary .greaterEqual) [left, right]
  | .equals => some fun left right => .operate (.binary .equals) [left, right]
  | .notEquals => some fun left right => .operate (.binary .notEquals) [left, right]
  | .identical => some fun left right => .operate (.binary .identical) [left, right]
  | .notIdentical => some fun left right => .operate (.binary .notIdentical) [left, right]
  | .ampersand => some fun left right => .operate (.binary .and) [left, right]
  | .hat => some fun left right => .operate (.binary .xor) [left, right]
  | .bar => some fun left right => .operate (.binary .or) [left, right]
  | .andAlso => some fun left right => .if_ (some left) right .preserve
  | .orElse => some fun left right => .if_ (some left) .preserve right
  | _ => none

/-- The levels of the operators, the loosest first. -/
structure Grammar where
  levelOf : Token → Nat
  /-- Whether a sign and a number next to each other are a literal. -/
  signs : Bool
  /-- Whether colons lead to a scope, which only a symbol's may leave. -/
  within : Bool

/-- The sections of the term expressions in their order, from the last. -/
def Grammar.documented : Grammar where
  levelOf
    | .orElse => 0
    | .andAlso => 1
    | .bar => 2
    | .hat => 3
    | .ampersand => 4
    | .identical | .notIdentical => 5
    | .equals | .notEquals => 6
    | .less | .greater | .lessEqual | .greaterEqual => 7
    | .leftShift | .rightShift => 8
    | .plus | .hyphen => 9
    | _ => 10
  signs := false
  within := false

def Grammar.confined : Grammar :=
  { Grammar.documented with within := true }

/-- Identity is on the level of equality, and a sign belongs to a number. -/
def Grammar.implemented : Grammar where
  levelOf
    | .identical | .notIdentical => 6
    | token => Grammar.documented.levelOf token
  signs := true
  within := true

/-- Where an expression stands: how many scopes there are, and the flags. -/
structure Place where
  depth : Nat
  canJump : Bool
  canReturn : Bool

/-- The lambdas and the jumps among the primary expressions; the assignments and the
compound expressions among the expressions. They are given by what follows on the
line, their tokens and their tree. -/
structure Others where
  primary : Option Token → List Token → Tree → Prop
  expression : Option Token → List Token → Tree → Prop

/-- What tokens are derived from. `chain`, `steps`, `step` and the lists are behind
what has been built so far. -/
inductive Phrase
  | expression (tree : Tree)
  | conditional (tree : Tree)
  | level (n : Nat) (tree : Tree)
  | chain (n : Nat) (left tree : Tree)
  | unary (tree : Tree)
  | primary (tree : Tree)
  | steps (target tree : Tree)
  | step (target tree : Tree)
  | call (right : Token) (nodes : List Tree) (expands : List Nat)
  | arguments (before after : List Tree × List Nat)
  | group (before after : List Tree)
  | pairs (before after : List Tree)

def ends : Token → Bool
  | .question | .leftParenthesis | .leftBracket | .dot | .equal | .symbol _ => false
  | token => (joinOf token).isNone

/-- What closes a construct before `next`: its delimiter, or nothing where what
follows can not belong to it. -/
inductive Closes (right : Token) (next : Option Token) : List Token → Prop
  | closed : Closes right next [right]
  | opened (ends : ∀ token ∈ next, ends token = true ∧ token ≠ .comma ∧ token ≠ right) :
      Closes right next []

def colons (outer : Nat) : List Token :=
  if outer = 0 then [] else [.colon outer]

def stars (expanded : Bool) : List Token :=
  if expanded then [.asterisk] else []

def literalOf : Token → Option Tree.Literal
  | .null => some .null
  | .true_ => some (.boolean true)
  | .false_ => some (.boolean false)
  | .integer value => some (.integer value)
  | .float value => some (.float value)
  | .string value => some (.string value)
  | _ => none

def marked (outer : Nat) (marks : List Char) : Tree :=
  marks.foldl (fun target mark => .operate (if mark = '@' then .class_ else .super) [target])
    (.self outer)

def following (tokens : List Token) (next : Option Token) : Option Token :=
  tokens.head?.or next

/-- The arguments and `v_expands` with one more. -/
def argued (expanded : Bool) (before : List Tree × List Nat) (node : Tree) :
    List Tree × List Nat :=
  (before.1 ++ [node], if expanded then before.2 ++ [before.1.length] else before.2)

section

variable (grammar : Grammar) (others : Others) (depth : Nat)

/-- The phrase has the tokens, with `next` behind them on the line. -/
inductive Derives : Phrase → Option Token → List Token → Prop
  | term {tree next tokens} (term : Derives (.conditional tree) next tokens) :
      Derives (.expression tree) next tokens
  | other {tree next tokens} (other : others.expression next tokens tree) :
      Derives (.expression tree) next tokens
  | orElse {tree next tokens} (term : Derives (.level 0 tree) next tokens) :
      Derives (.conditional tree) next tokens
  | conditional {condition true_ false_ next conditions trues falses}
      (condition_ :
        Derives (.level 0 condition) (some .question) conditions)
      (true__ : Derives (.conditional true_) (some (.colon 1)) trues)
      (false__ : Derives (.conditional false_) next falses) :
      Derives (.conditional (.if_ (some condition) true_ false_)) next
        (conditions ++ .question :: (trues ++ .colon 1 :: falses))
  | level {n left tree next first behind} (low : n ≤ 10)
      (left_ : Derives (.level (n + 1) left) (following behind next) first)
      (chain : Derives (.chain n left tree) next behind) :
      Derives (.level n tree) next (first ++ behind)
  | chainEnd {n tree next} : Derives (.chain n tree tree) next []
  | chain {n left right tree next token operand behind build}
      (operator : joinOf token = some build) (on : grammar.levelOf token = n)
      (right_ : Derives (.level (n + 1) right) (following behind next) operand)
      (chain : Derives (.chain n (build left right) tree) next behind) :
      Derives (.chain n left tree) next (token :: (operand ++ behind))
  | operand {tree next tokens} (unary : Derives (.unary tree) next tokens) :
      Derives (.level 11 tree) next tokens
  | sign {token instruction tree next tokens} (operator : unaryOf token = some instruction)
      (apart : grammar.signs = true → ∀ number ∈ tokens.head?, signed instruction number = none)
      (unary : Derives (.unary tree) next tokens) :
      Derives (.unary (.operate (.unary instruction) [tree])) next
        (token :: tokens)
  | number {token number instruction value tree next tokens} (signs : grammar.signs = true)
      (operator : unaryOf token = some instruction) (is : signed instruction number = some value)
      (steps : Derives (.steps (.literal value) tree) next tokens) :
      Derives (.unary tree) next (token :: number :: tokens)
  | chained {target tree next first behind}
      (primary : Derives (.primary target) (following behind next) first)
      (steps : Derives (.steps target tree) next behind) :
      Derives (.unary tree) next (first ++ behind)
  | literal {token value next} (is : literalOf token = some value) :
      Derives (.primary (.literal value)) next [token]
  | quoted {name next} :
      Derives (.primary (.literal (.symbol name))) next
        [.apostrophe, .symbol name]
  | symbol {outer name next} (within : grammar.within = true → outer ≤ depth) :
      Derives (.primary (.symbolGet outer (decide (outer < depth)) name)) next
        (colons outer ++ [.symbol name])
  | self {outer marks next} (within : grammar.within = true → outer < depth) :
      Derives (.primary (marked outer marks)) next
        (colons outer ++ [.self marks])
  | selfKey {outer marks key next} (within : grammar.within = true → outer < depth) :
      Derives
        (.primary (.operate (.objectGet key) [marked outer marks])) next
        (colons outer ++ [.self marks, .symbol key])
  | tuple {nodes expands next tokens}
      (call : Derives (.call .rightParenthesis nodes expands) next tokens) :
      Derives
        (.primary (.operate (.call expands) (.literal .tuple :: nodes))) next
        (.apostrophe :: .leftParenthesis :: tokens)
  | list {nodes expands next tokens}
      (call : Derives (.call .rightBracket nodes expands) next tokens) :
      Derives
        (.primary (.operate (.call expands) (.literal .list :: nodes))) next
        (.leftBracket :: tokens)
  | empty {next closing} (closes : Closes .rightParenthesis next closing)
      (last : closing = [] → next = none) :
      Derives (.primary (.operate .nodes [])) next
        (.leftParenthesis :: closing)
  | parenthesized {nodes next tokens closing} (closes : Closes .rightParenthesis next closing)
      (group : Derives (.group [] nodes) (following closing next) tokens) :
      Derives (.primary (.operate .nodes nodes)) next
        (.leftParenthesis :: (tokens ++ closing))
  | emptyMap {next closing} (closes : Closes .rightBrace next closing)
      (last : closing = [] → next = none) :
      Derives (.primary (.operate (.call []) [.literal .map])) next
        (.leftBrace :: closing)
  | map {nodes next tokens closing} (closes : Closes .rightBrace next closing)
      (pairs : Derives (.pairs [] nodes) (following closing next) tokens) :
      Derives
        (.primary (.operate (.call []) (.literal .map :: nodes))) next
        (.leftBrace :: (tokens ++ closing))
  | otherPrimary {tree next tokens} (other : others.primary next tokens tree) :
      Derives (.primary tree) next tokens
  | stepsEnd {tree next} : Derives (.steps tree tree) next []
  | steps {target middle tree next first behind}
      (step : Derives (.step target middle) (following behind next) first)
      (steps : Derives (.steps middle tree) next behind) :
      Derives (.steps target tree) next (first ++ behind)
  | called {target nodes expands next tokens}
      (call : Derives (.call .rightParenthesis nodes expands) next tokens) :
      Derives (.step target (.operate (.call expands) (target :: nodes))) next
        (.leftParenthesis :: tokens)
  | subscription {target index next tokens closing} (closes : Closes .rightBracket next closing)
      (expression :
        Derives (.expression index) (following closing next) tokens) :
      Derives (.step target (.operate .getAt [target, index])) next
        (.leftBracket :: (tokens ++ closing))
  | getter {target key next} :
      Derives (.step target (.operate (.objectGet key) [target])) next
        [.dot, .symbol key]
  | getterIndirect {target key next tokens closing}
      (closes : Closes .rightParenthesis next closing)
      (expression :
        Derives (.expression key) (following closing next) tokens) :
      Derives (.step target (.operate .objectGetIndirect [target, key])) next
        (.dot :: .leftParenthesis :: (tokens ++ closing))
  | class_ {target next} :
      Derives (.step target (.operate .class_ [target])) next [.dot, .atmark]
  | super {target next} :
      Derives (.step target (.operate .super [target])) next [.dot, .hat]
  | tester {target key next} :
      Derives (.step target (.operate (.objectHas key) [target])) next
        [.dot, .question, .symbol key]
  | testerIndirect {target key next tokens closing}
      (closes : Closes .rightParenthesis next closing)
      (expression :
        Derives (.expression key) (following closing next) tokens) :
      Derives (.step target (.operate .objectHasIndirect [target, key])) next
        (.dot :: .question :: .leftParenthesis :: (tokens ++ closing))
  | noArguments {right next closing} (closes : Closes right next closing)
      (last : closing = [] → next = none) :
      Derives (.call right [] []) next closing
  | call {right nodes expands next tokens closing} (closes : Closes right next closing)
      (arguments : Derives (.arguments ([], []) (nodes, expands))
        (following closing next) tokens) :
      Derives (.call right nodes expands) next (tokens ++ closing)
  | lastArgument {expanded before node next tokens}
      (expression : Derives (.expression node) next tokens) :
      Derives (.arguments before (argued expanded before node)) next
        (stars expanded ++ tokens)
  | argument {expanded before node after next tokens behind}
      (expression : Derives (.expression node) (some .comma) tokens)
      (arguments :
        Derives (.arguments (argued expanded before node) after) next behind) :
      Derives (.arguments before after) next
        (stars expanded ++ (tokens ++ .comma :: behind))
  | lastOfGroup {before node next tokens}
      (expression : Derives (.expression node) next tokens) :
      Derives (.group before (before ++ [node])) next tokens
  | group {before node after next tokens behind}
      (expression : Derives (.expression node) (some .comma) tokens)
      (group : Derives (.group (before ++ [node]) after) next behind) :
      Derives (.group before after) next (tokens ++ .comma :: behind)
  | lastPair {before key value next tokens values}
      (key_ : Derives (.expression key) (some (.colon 1)) tokens)
      (value_ : Derives (.expression value) next values) :
      Derives (.pairs before (before ++ [key, value])) next
        (tokens ++ .colon 1 :: values)
  | pair {before key value after next tokens values behind}
      (key_ : Derives (.expression key) (some (.colon 1)) tokens)
      (value_ : Derives (.expression value) (some .comma) values)
      (pairs : Derives (.pairs (before ++ [key, value]) after) next behind) :
      Derives (.pairs before after) next
        (tokens ++ .colon 1 :: (values ++ .comma :: behind))

end

end Xemmai.Parser
