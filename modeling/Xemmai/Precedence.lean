import Xemmai.Reading

/-!
# The parser and the grammar

The parser reads what the grammar derives and builds its tree. Each rule has the
function that follows it; a phrase is read before any token that can not continue it.
-/

namespace Xemmai.Parser

set_option autoImplicit false

open Xemmai.Tree Filter

/-- What an expression of some kind begins with: any, a term or a primary one. -/
def beginning : Token → Nat
  | .if_ | .while_ | .for_ | .try_ => 1
  | .exclamation | .plus | .hyphen | .tilde => 2
  | .apostrophe | .leftParenthesis | .colon _ | .atmark | .leftBracket | .leftBrace | .null
  | .true_ | .false_ | .symbol _ | .self _ | .integer _ | .float _ | .string _ | .break_
  | .continue_ | .return_ | .throw_ => 3
  | _ => 0

def Begins (kind : Nat) (tokens : List Token) : Prop :=
  ∃ token behind, tokens = token :: behind ∧ kind ≤ beginning token

/-- The expressions that are read as they are by the functions of the parser. -/
def others (place : Place) (indent : Nat) (last : Lexeme) : Others where
  primary next tokens tree :=
    (∃ token ∈ tokens.head?, token ∈ [.atmark, .break_, .continue_, .return_, .throw_]) ∧
    ∀ᶠ fuel in atTop, ∀ flag assignable,
      Reads place indent last flag (target (nested fuel) fuel assignable) tokens tree next
  expression next tokens tree :=
    Begins 1 tokens ∧
    ∀ᶠ fuel in atTop, ∀ flag,
      Reads place indent last flag (nested fuel).expression tokens tree next

/-- How far a token reaches to what is before it: not at all, to a whole term, to the
operands of its level, to a unary expression, or to a symbol and the like. -/
def strength : Token → Nat
  | .question => 1
  | .leftParenthesis | .leftBracket | .dot => 13
  | .equal | .symbol _ => 14
  | token => if (joinOf token).isSome then Grammar.implemented.levelOf token + 2 else 0

def Stops (n : Nat) (next : Option Token) : Prop :=
  ∀ token ∈ next, strength token < n

theorem Stops.mono {n m : Nat} {next : Option Token} (stops : Stops n next) (less : n ≤ m) :
    Stops m next :=
  fun token is => (stops token is).trans_le less

theorem strength_ends {token : Token} (does : ends token = true) : strength token = 0 := by
  cases token <;> simp_all [ends, strength, joinOf]

def operatorAt (n : Nat) (token : Token) : Option (Tree → Tree → Tree) :=
  if Grammar.implemented.levelOf token = n then joinOf token else none

theorem strength_operator {token : Token} {build : Tree → Tree → Tree}
    (operator : joinOf token = some build) :
    strength token = Grammar.implemented.levelOf token + 2 := by
  cases token <;> first | rfl | simp [joinOf] at operator

theorem operatorAt_none {n : Nat} {token : Token} (below : strength token < n + 2) :
    operatorAt n token = none := by
  unfold operatorAt
  split
  case isFalse => rfl
  case isTrue on =>
    cases operator : joinOf token with
    | none => rfl
    | some build =>
      rw [strength_operator operator, on] at below
      omega

section

variable (nested : Nested) (fuel : Nat)

/-- The function of a level. -/
def atLevel : Nat → Bool → Parser Tree
  | 0 => orElse nested fuel
  | 1 => andAlso nested fuel
  | 2 => or nested fuel
  | 3 => xor nested fuel
  | 4 => and nested fuel
  | 5 | 6 => equality nested fuel
  | 7 => relational nested fuel
  | 8 => shift nested fuel
  | 9 => additive nested fuel
  | 10 => multiplicative nested fuel
  | _ => unary nested fuel

theorem level_eq {operator : Token → Option (Tree → Tree → Tree)} {n : Nat}
    {operand : Bool → Parser Tree} (same : ∀ token, operator token = operatorAt n token) :
    level fuel operator operand = level fuel (operatorAt n) operand := by
  rw [funext same]

theorem binary_eq {instruction : Token → Option Binary} {n : Nat} {operand : Bool → Parser Tree}
    (same : ∀ token, ((instruction token).map fun instruction left right =>
      .operate (.binary instruction) [left, right]) = operatorAt n token) :
    binary fuel instruction operand = level fuel (operatorAt n) operand :=
  level_eq fuel same

theorem atLevel_eq {n : Nat} (low : n ≤ 10) (apart : n ≠ 5) :
    atLevel nested fuel n = level fuel (operatorAt n) (atLevel nested fuel (n + 1)) := by
  match n, low, apart with
  | 0, _, _ =>
    change orElse nested fuel = _
    exact level_eq fuel fun token => by cases token <;> rfl
  | 1, _, _ =>
    change andAlso nested fuel = _
    exact level_eq fuel fun token => by cases token <;> rfl
  | 2, _, _ =>
    change or nested fuel = _
    exact binary_eq fuel fun token => by cases token <;> rfl
  | 3, _, _ =>
    change xor nested fuel = _
    exact binary_eq fuel fun token => by cases token <;> rfl
  | 4, _, _ =>
    change and nested fuel = _
    exact binary_eq fuel fun token => by cases token <;> rfl
  | 6, _, _ =>
    change equality nested fuel = _
    exact binary_eq fuel fun token => by cases token <;> rfl
  | 7, _, _ =>
    change relational nested fuel = _
    exact binary_eq fuel fun token => by cases token <;> rfl
  | 8, _, _ =>
    change shift nested fuel = _
    exact binary_eq fuel fun token => by cases token <;> rfl
  | 9, _, _ =>
    change additive nested fuel = _
    exact binary_eq fuel fun token => by cases token <;> rfl
  | 10, _, _ =>
    change multiplicative nested fuel = _
    exact binary_eq fuel fun token => by cases token <;> rfl

def levelTurn (operator : Token → Option (Tree → Tree → Tree)) (operand : Bool → Parser Tree)
    (node : Tree) : Parser (Tree ⊕ Tree) := do
  let lexeme ← current
  if lexeme.newline then return .inr node
  match operator lexeme.token with
  | none => return .inr node
  | some build =>
    advance
    return .inl (build node (← operand false))

/-- A turn of `f_action`. -/
def actionTurn (indent : Nat) (assignable : Bool) (target : Tree) : Parser (Tree ⊕ Tree) := do
  let lexeme ← current
  if lexeme.newline && !(decide (indent < lexeme.indent) && lexeme.token == .dot) then
    return .inr target
  match lexeme.token with
  | .leftParenthesis =>
    advance
    return .inl (← call nested fuel target lexeme.indent .rightParenthesis)
  | .dot =>
    advance
    member nested assignable target
  | .leftBracket =>
    advance
    let index ← nested.expression
    close lexeme.indent .rightBracket
    match ← assigned nested assignable with
    | some value => return .inr (.operate .setAt [target, index, value])
    | none => return .inl (.operate .getAt [target, index])
  | _ => return .inr target

/-- A turn of `f_arguments`. -/
def argumentTurn (indent : Nat) :
    List Tree × List Nat → Parser ((List Tree × List Nat) ⊕ (List Tree × List Nat)) :=
  fun (nodes, expands) => do
    let expanded := (← current).token == .asterisk
    advanceIf expanded
    let expands := if expanded then expands ++ [nodes.length] else expands
    let (node, more) ← argument nested indent
    let nodes := nodes ++ [node]
    return if more then .inl (nodes, expands) else .inr (nodes, expands)

def groupTurn (indent : Nat) (nodes : List Tree) : Parser (List Tree ⊕ List Tree) := do
  let (node, more) ← argument nested indent
  let nodes := nodes ++ [node]
  return if more then .inl nodes else .inr nodes

/-- A turn inside braces. -/
def pairTurn (indent : Nat) (nodes : List Tree) : Parser (List Tree ⊕ List Tree) := do
  let key ← nested.expression
  ensure ((← current).token == .colon 1) "expecting ':'."
  advance
  let value ← nested.expression
  let nodes := nodes ++ [key, value]
  let lexeme ← current
  if lexeme.token = .comma then
    if lexeme.newline && decide (lexeme.indent < indent) then return .inr nodes
    advance
    return .inl nodes
  return if lexeme.newline && decide (indent < lexeme.indent) then .inl nodes else .inr nodes

end

section

variable (place : Place) (indent : Nat) (last : Lexeme)

/-- The line ends with what no expression on it takes in. -/
structure Ending : Prop where
  newline : last.newline = true
  indent : last.indent ≤ indent
  apart : last.token ∉ [.equal, .comma, .rightParenthesis, .rightBracket, .rightBrace]

/-- What a list of expressions stands before. -/
def Listed (next : Option Token) : Prop :=
  Stops 1 next ∧ next ≠ some .comma

def Closer (right : Token) : Prop :=
  right ∈ [.rightParenthesis, .rightBracket, .rightBrace]

/-- The parser reads the phrase before `next`. -/
def Meets : Phrase → Option Token → List Token → Prop
  | .expression tree, next, tokens => Stops 1 next → ∀ᶠ fuel in atTop, ∀ flag,
      Reads place indent last flag (nested fuel).expression tokens tree next
  | .conditional tree, next, tokens => Stops 1 next → ∀ᶠ fuel in atTop, ∀ flag assignable,
      Reads place indent last flag (conditional (nested fuel) fuel assignable) tokens tree next
  | .level n tree, next, tokens => Stops (n + 2) next → ∀ᶠ fuel in atTop, ∀ flag assignable,
      Reads place indent last flag (atLevel (nested fuel) fuel n assignable) tokens tree next
  | .chain n left tree, next, tokens => Stops (n + 2) next → ∃ turns, ∀ᶠ fuel in atTop,
      ∀ more, turns < more → Reads place indent last false
        (loop (levelTurn (operatorAt n) (atLevel (nested fuel) fuel (n + 1))) more left)
        tokens tree next
  | .unary tree, next, tokens => Stops 13 next → ∀ᶠ fuel in atTop, ∀ flag assignable,
      Reads place indent last flag (unary (nested fuel) fuel assignable) tokens tree next
  | .primary tree, next, tokens => Stops 14 next → ∀ᶠ fuel in atTop, ∀ flag assignable,
      Reads place indent last flag (target (nested fuel) fuel assignable) tokens tree next
  | .steps target tree, next, tokens => Stops 13 next → ∃ turns, ∀ᶠ fuel in atTop,
      ∀ assignable more, turns < more → Reads place indent last false
        (loop (actionTurn (nested fuel) fuel indent assignable) more target) tokens tree next
  | .step target tree, next, tokens => Stops 14 next → ∀ᶠ fuel in atTop, ∀ assignable,
      Reads place indent last false (actionTurn (nested fuel) fuel indent assignable target)
        tokens (.inl tree) next
  | .call right nodes expands, next, tokens => Closer right → ∀ᶠ fuel in atTop, ∀ target,
      Reads place indent last false (call (nested fuel) fuel target indent right) tokens
        (.operate (.call expands) (target :: nodes)) next
  | .arguments before after, next, tokens => Listed next → ∃ turns, ∀ᶠ fuel in atTop,
      ∀ more, turns < more → Reads place indent last false
        (loop (argumentTurn (nested fuel) indent) more before) tokens after next
  | .group before after, next, tokens => Listed next → ∃ turns, ∀ᶠ fuel in atTop,
      ∀ more, turns < more → Reads place indent last false
        (loop (groupTurn (nested fuel) indent) more before) tokens after next
  | .pairs before after, next, tokens => Listed next → ∃ turns, ∀ᶠ fuel in atTop,
      ∀ more, turns < more → Reads place indent last false
        (loop (pairTurn (nested fuel) indent) more before) tokens after next

end

section

variable {place : Place} {indent : Nat} {last : Lexeme} {ending : Ending indent last}
variable {flag : Bool} {tokens first behind : List Token} {next : Option Token}
variable {token : Token} {nested : Nested} {fuel : Nat}

theorem reads_levelEnd {operator : Token → Option (Tree → Tree → Tree)}
    {operand : Bool → Parser Tree} {left : Tree} (newline : last.newline = true)
    (stops : ∀ token ∈ next, operator token = none) :
    Reads place indent last false (levelTurn operator operand left) [] (.inr left) next := by
  refine Reads.current ?_
  cases next with
  | none =>
    simp only [heading, lexemeOf, newline, if_true]
    exact Reads.returns
  | some token =>
    simp only [heading, lexemeOf, Bool.false_eq_true, if_false, stops token rfl]
    exact Reads.returns

theorem reads_levelTurn {operator : Token → Option (Tree → Tree → Tree)}
    {operand : Bool → Parser Tree} {left right : Tree} {build : Tree → Tree → Tree}
    (is : operator token = some build)
    (reads : Reads place indent last false (operand false) tokens right next) :
    Reads place indent last false (levelTurn operator operand left) (token :: tokens)
      (.inl (build left right)) next := by
  refine Reads.current ?_
  simp only [heading, Bool.false_eq_true, if_false, is]
  exact reads.maps.advance

theorem reads_literal {value : Tree.Literal} (is : literalOf token = some value) (assignable : Bool) :
    Reads place indent last flag (target nested fuel assignable) [token] (.literal value) next := by
  unfold target
  refine Reads.current ?_
  cases token <;> simp only [literalOf, reduceCtorEq, Option.some.injEq] at is
  all_goals
    subst is
    refine Reads.advance ?_
    exact Reads.returns

theorem reads_quoted {name : String} (assignable : Bool) :
    Reads place indent last flag (target nested fuel assignable) [.apostrophe, .symbol name]
      (.literal (.symbol name)) next := by
  unfold target
  refine Reads.current ?_
  refine Reads.advance (Reads.current ?_)
  refine Reads.advance ?_
  exact Reads.returns

theorem heading_ne_equal (ending : Ending indent last) (stops : Stops 14 next) :
    (heading indent last false [] next).token ≠ .equal := by
  cases next with
  | none =>
    intro equal
    exact ending.apart (by simp [show last.token = .equal from equal])
  | some token =>
    rintro rfl
    exact absurd (stops _ rfl) (by decide)

theorem reads_assigned (ending : Ending indent last) (stops : Stops 14 next) (assignable : Bool) :
    Reads place indent last false (assigned nested assignable) [] none next := by
  refine Reads.current ?_
  rw [if_pos (heading_ne_equal ending stops)]
  exact Reads.returns

theorem reads_symbol (ending : Ending indent last) (stops : Stops 14 next) {outer : Nat}
    {name : String} (assignable : Bool) :
    Reads place indent last flag (Parser.name nested assignable outer) [.symbol name]
      (.symbolGet outer (decide (outer < place.depth)) name) next := by
  unfold Parser.name
  refine Reads.current ?_
  dsimp only [heading]
  refine Reads.advance (Reads.get fun state depth _ _ => Reads.current ?_)
  rw [if_neg (heading_ne_equal ending stops), depth]
  exact Reads.modifyScope Reads.returns

theorem reads_self (ending : Ending indent last) (stops : Stops 14 next) {outer : Nat}
    {marks : List Char} (within : outer < place.depth) (assignable : Bool) :
    Reads place indent last flag (Parser.name nested assignable outer) [.self marks]
      (marked outer marks) next := by
  unfold Parser.name
  refine Reads.current ?_
  dsimp only [heading]
  refine Reads.get fun state depth _ _ => Reads.ensure (by simpa [depth] using within) ?_
  refine Reads.modifyScope (Reads.advance (Reads.current ?_))
  have apart : ∀ name, (heading indent last false [] next).newline = false →
      (heading indent last false [] next).token ≠ .symbol name := by
    intro name
    cases next with
    | none => exact fun same => absurd (same.symm.trans ending.newline) (by decide)
    | some token =>
      rintro - rfl
      exact absurd (stops _ rfl) (by simp [strength])
  split
  · rename_i name newline is
    exact absurd is (apart name newline)
  · exact Reads.returns

theorem reads_selfKey (ending : Ending indent last) (stops : Stops 14 next) {outer : Nat}
    {marks : List Char} {key : String} (within : outer < place.depth) (assignable : Bool) :
    Reads place indent last flag (Parser.name nested assignable outer)
      [.self marks, .symbol key] (.operate (.objectGet key) [marked outer marks]) next := by
  unfold Parser.name
  refine Reads.current ?_
  dsimp only [heading]
  refine Reads.get fun state depth _ _ => Reads.ensure (by simpa [depth] using within) ?_
  refine Reads.modifyScope (Reads.advance (Reads.current ?_))
  refine Reads.advance (Reads.skip (reads_assigned ending stops assignable) ?_)
  exact Reads.returns

theorem reads_colons {outer : Nat} {tree : Tree} {assignable : Bool} (within : outer ≤ place.depth)
    (named : (∃ name, token = .symbol name) ∨ ∃ marks, token = .self marks)
    (reads : ∀ flag, Reads place indent last flag (Parser.name nested assignable outer)
      (token :: tokens) tree next) :
    Reads place indent last flag (target nested fuel assignable)
      (colons outer ++ token :: tokens) tree next := by
  unfold target
  rcases Nat.eq_zero_or_pos outer with rfl | positive
  · refine Reads.current ?_
    obtain ⟨name, rfl⟩ | ⟨marks, rfl⟩ := named
    · exact reads flag
    · exact reads flag
  · rw [show colons outer = [.colon outer] from if_neg (by omega)]
    refine Reads.current ?_
    dsimp only [List.cons_append, heading]
    refine Reads.get fun state depth _ _ => Reads.ensure (by simpa [depth] using within) ?_
    exact Reads.advance (reads false)

theorem reads_any (ending : Ending indent last) {right : Token} {some_ : Bool}
    (is : ∀ token ∈ next, some_ = (token != right)) (atEnd : next = none → some_ = false) :
    Reads place indent last false (any indent right) [] some_ next := by
  refine Reads.current ?_
  cases next with
  | none =>
    have bound : ¬indent < last.indent := by have := ending.indent; omega
    simp only [heading, lexemeOf, ending.newline, bound, atEnd rfl, Bool.not_true,
      decide_false, Bool.or_false, Bool.false_and]
    exact Reads.returns
  | some token =>
    simp only [heading, lexemeOf, is token rfl, Bool.not_false, Bool.true_or, Bool.true_and]
    exact Reads.returns

theorem reads_close (ending : Ending indent last) {right : Token} {closing : List Token}
    (closer : Closer right) (closes : Closes right next closing) :
    Reads place indent last false (close indent right) closing () next := by
  refine Reads.current ?_
  cases closes with
  | closed =>
    simp only [heading, Bool.not_false, Bool.true_or, beq_self_eq_true, Bool.and_self]
    exact Reads.advances
  | opened ends =>
    have apart : (heading indent last false [] next).token ≠ right := by
      cases next with
      | none =>
        rintro rfl
        exact ending.apart (List.mem_cons_of_mem _ (List.mem_cons_of_mem _ closer))
      | some token => exact (ends token rfl).2.2
    rw [beq_eq_false_iff_ne.mpr apart, Bool.and_false]
    exact Reads.returns

theorem reads_any_empty (ending : Ending indent last) {right : Token} {closing : List Token}
    (closes : Closes right next closing) (atEnd : closing = [] → next = none) :
    Reads place indent last false (any indent right) [] false (following closing next) := by
  cases closes with
  | closed =>
    refine reads_any ending ?_ fun none => absurd none (by simp [following])
    rintro token is
    obtain rfl : right = token := by simpa [following] using is
    simp
  | opened ends =>
    rw [atEnd rfl]
    exact reads_any ending (fun token is => absurd is (by simp [following])) fun _ => rfl

theorem reads_any_some (ending : Ending indent last) {right : Token}
    (apart : token ≠ right) :
    Reads place indent last false (any indent right) [] true
      (following (token :: tokens) next) := by
  refine reads_any ending ?_ fun none => absurd none (by simp [following])
  rintro other is
  obtain rfl : token = other := by simpa [following] using is
  simpa using apart

theorem reads_argument_last (ending : Ending indent last) {node : Tree}
    (reads : Reads place indent last false nested.expression tokens node next)
    (apart : next ≠ some .comma) :
    Reads place indent last false (argument nested indent) tokens (node, false) next := by
  rw [← List.append_nil tokens]
  refine reads.bind (Reads.current ?_) fun _ => rfl
  cases next with
  | none =>
    have bound : ¬indent < last.indent := by have := ending.indent; omega
    have other : last.token ≠ .comma := fun same => ending.apart (by simp [same])
    simp only [heading, lexemeOf, bound, decide_false, Bool.and_false, if_pos other]
    exact Reads.returns
  | some token =>
    have other : token ≠ .comma := fun same => apart (by rw [same])
    simp only [heading, lexemeOf, Bool.false_and, if_pos other]
    exact Reads.returns

theorem reads_argument_more {node : Tree}
    (reads : Reads place indent last false nested.expression tokens node (some .comma)) :
    Reads place indent last false (argument nested indent) (tokens ++ [.comma]) (node, true)
      next := by
  refine reads.bind (Reads.current ?_) fun _ => rfl
  simp only [heading, ne_eq, not_true_eq_false, if_false, Bool.false_and, Bool.false_eq_true]
  exact Reads.advance Reads.returns

theorem reads_groupTurn {node : Tree} {more : Bool} {before : List Tree}
    (reads : Reads place indent last false (argument nested indent) tokens (node, more) next) :
    Reads place indent last false (groupTurn nested indent before) tokens
      (if more then .inl (before ++ [node]) else .inr (before ++ [node])) next :=
  reads.maps

theorem reads_argumentTurn {node : Tree} {more expanded : Bool} {before : List Tree × List Nat}
    (begins : Begins 1 tokens)
    (reads : Reads place indent last false (argument nested indent) tokens (node, more) next) :
    Reads place indent last false (argumentTurn nested indent before) (stars expanded ++ tokens)
      (if more then .inl (argued expanded before node) else .inr (argued expanded before node))
      next := by
  refine Reads.current ?_
  cases expanded with
  | true => exact Reads.advance reads.maps
  | false =>
    obtain ⟨token, behind, rfl, kind⟩ := begins
    have apart : (token == .asterisk) = false := by
      refine beq_eq_false_iff_ne.mpr ?_
      rintro rfl
      exact absurd kind (by decide)
    simp only [stars, Bool.false_eq_true, if_false, List.nil_append, heading, apart]
    exact Reads.skip (a := ()) Reads.returns reads.maps

theorem reads_pair_last (ending : Ending indent last) {key value : Tree} {values : List Token}
    {before : List Tree}
    (keys : Reads place indent last false nested.expression tokens key (some (.colon 1)))
    (reads : Reads place indent last false nested.expression values value next)
    (apart : next ≠ some .comma) :
    Reads place indent last false (pairTurn nested indent before) (tokens ++ .colon 1 :: values)
      (.inr (before ++ [key, value])) next := by
  refine keys.bind (Reads.current (Reads.ensure ?_ (Reads.advance ?_))) fun _ => rfl
  · exact beq_self_eq_true _
  rw [← List.append_nil values]
  refine reads.bind (Reads.current ?_) fun _ => rfl
  cases next with
  | none =>
    have bound : ¬indent < last.indent := by have := ending.indent; omega
    have other : last.token ≠ .comma := fun same => ending.apart (by simp [same])
    simp only [heading, lexemeOf, bound, decide_false, Bool.and_false, if_neg other]
    exact Reads.returns
  | some token =>
    have other : token ≠ .comma := fun same => apart (by rw [same])
    simp only [heading, lexemeOf, Bool.false_and, if_neg other]
    exact Reads.returns

theorem reads_pair_more {key value : Tree} {values : List Token} {before : List Tree}
    (keys : Reads place indent last false nested.expression tokens key (some (.colon 1)))
    (reads : Reads place indent last false nested.expression values value (some .comma)) :
    Reads place indent last false (pairTurn nested indent before)
      (tokens ++ .colon 1 :: (values ++ [.comma])) (.inl (before ++ [key, value])) next := by
  refine keys.bind (Reads.current (Reads.ensure ?_ (Reads.advance ?_))) fun _ => rfl
  · exact beq_self_eq_true _
  refine reads.bind (Reads.current ?_) fun _ => rfl
  simp only [heading, if_true, Bool.false_and, Bool.false_eq_true, if_false]
  exact Reads.advance Reads.returns

theorem reads_call_empty (ending : Ending indent last) {right : Token} {closing : List Token}
    (closer : Closer right) (closes : Closes right next closing)
    (atEnd : closing = [] → next = none) (target : Tree) :
    Reads place indent last false (call nested fuel target indent right) closing
      (.operate (.call []) [target]) next := by
  refine Reads.skip (reads_any_empty ending closes atEnd) ?_
  exact Reads.skip (a := ([], [])) Reads.returns (reads_close ending closer closes).maps

theorem reads_call (ending : Ending indent last) {right : Token} {closing : List Token}
    {nodes : List Tree} {expands : List Nat} (closer : Closer right)
    (closes : Closes right next closing) (apart : token ≠ right)
    (reads : Reads place indent last false (arguments nested fuel indent) (token :: tokens)
      (nodes, expands) (following closing next)) (target : Tree) :
    Reads place indent last false (call nested fuel target indent right)
      (token :: tokens ++ closing) (.operate (.call expands) (target :: nodes)) next := by
  refine Reads.skip (reads_any_some ending apart) ?_
  exact reads.bind (reads_close ending closer closes).maps fun _ => rfl

theorem reads_group_empty (ending : Ending indent last) {closing : List Token}
    (closes : Closes .rightParenthesis next closing) (atEnd : closing = [] → next = none)
    (assignable : Bool) :
    Reads place indent last flag (target nested fuel assignable) (.leftParenthesis :: closing)
      (.operate .nodes []) next := by
  unfold target
  refine Reads.current (Reads.advance (Reads.skip (reads_any_empty ending closes atEnd) ?_))
  exact Reads.skip (a := []) Reads.returns (reads_close ending (by simp [Closer]) closes).maps

theorem reads_group (ending : Ending indent last) {closing : List Token} {nodes : List Tree}
    (closes : Closes .rightParenthesis next closing) (apart : token ≠ .rightParenthesis)
    (reads : Reads place indent last false (parenthesized nested fuel indent) (token :: tokens)
      nodes (following closing next)) (assignable : Bool) :
    Reads place indent last flag (target nested fuel assignable)
      (.leftParenthesis :: (token :: tokens ++ closing)) (.operate .nodes nodes) next := by
  unfold target
  refine Reads.current (Reads.advance (Reads.skip (reads_any_some ending apart) ?_))
  exact reads.bind (reads_close ending (by simp [Closer]) closes).maps fun _ => rfl

theorem reads_map_empty (ending : Ending indent last) {closing : List Token}
    (closes : Closes .rightBrace next closing) (atEnd : closing = [] → next = none)
    (assignable : Bool) :
    Reads place indent last flag (target nested fuel assignable) (.leftBrace :: closing)
      (.operate (.call []) [.literal .map]) next := by
  unfold target
  refine Reads.current (Reads.advance (Reads.skip (reads_any_empty ending closes atEnd) ?_))
  exact Reads.skip (a := []) Reads.returns (reads_close ending (by simp [Closer]) closes).maps

theorem reads_map (ending : Ending indent last) {closing : List Token} {nodes : List Tree}
    (closes : Closes .rightBrace next closing) (apart : token ≠ .rightBrace)
    (reads : Reads place indent last false (pairs nested fuel indent) (token :: tokens)
      nodes (following closing next)) (assignable : Bool) :
    Reads place indent last flag (target nested fuel assignable)
      (.leftBrace :: (token :: tokens ++ closing))
      (.operate (.call []) (.literal .map :: nodes)) next := by
  unfold target
  refine Reads.current (Reads.advance (Reads.skip (reads_any_some ending apart) ?_))
  exact reads.bind (reads_close ending (by simp [Closer]) closes).maps fun _ => rfl

theorem reads_list {nodes : List Tree} {expands : List Nat}
    (reads : Reads place indent last false
      (call nested fuel (.literal .list) indent .rightBracket) tokens
      (.operate (.call expands) (.literal .list :: nodes)) next) (assignable : Bool) :
    Reads place indent last flag (target nested fuel assignable) (.leftBracket :: tokens)
      (.operate (.call expands) (.literal .list :: nodes)) next := by
  unfold target
  exact Reads.current (Reads.advance reads)

theorem reads_tuple {nodes : List Tree} {expands : List Nat}
    (reads : Reads place indent last false
      (call nested fuel (.literal .tuple) indent .rightParenthesis) tokens
      (.operate (.call expands) (.literal .tuple :: nodes)) next) (assignable : Bool) :
    Reads place indent last flag (target nested fuel assignable)
      (.apostrophe :: .leftParenthesis :: tokens)
      (.operate (.call expands) (.literal .tuple :: nodes)) next := by
  unfold target
  refine Reads.current ?_
  exact Reads.advance (Reads.current (Reads.advance reads))

theorem reads_stepsEnd (ending : Ending indent last) (stops : Stops 13 next) (assignable : Bool)
    (tree : Tree) :
    Reads place indent last false (actionTurn nested fuel indent assignable tree) []
      (.inr tree) next := by
  refine Reads.current ?_
  cases next with
  | none =>
    have bound : ¬indent < last.indent := by have := ending.indent; omega
    simp only [heading, lexemeOf, ending.newline, bound, decide_false, Bool.false_and,
      Bool.not_false, Bool.and_self, if_true]
    exact Reads.returns
  | some token =>
    have weak := stops token rfl
    simp only [heading, lexemeOf, Bool.false_and, Bool.false_eq_true, if_false]
    split
    · exact absurd weak (by decide)
    · exact absurd weak (by decide)
    · exact absurd weak (by decide)
    · exact Reads.returns

theorem reads_called {assignable : Bool} {tree result : Tree}
    (reads : Reads place indent last false
      (call nested fuel tree indent .rightParenthesis) tokens result next) :
    Reads place indent last false (actionTurn nested fuel indent assignable tree)
      (.leftParenthesis :: tokens) (.inl result) next := by
  refine Reads.current ?_
  exact Reads.advance reads.maps

theorem reads_subscription (ending : Ending indent last) (stops : Stops 14 next)
    {assignable : Bool} {tree index : Tree} {closing : List Token}
    (closes : Closes .rightBracket next closing)
    (reads : Reads place indent last false nested.expression tokens index
      (following closing next)) :
    Reads place indent last false (actionTurn nested fuel indent assignable tree)
      (.leftBracket :: (tokens ++ closing)) (.inl (.operate .getAt [tree, index])) next := by
  refine Reads.current (Reads.advance (reads.bind ?_ fun _ => rfl))
  rw [← List.append_nil closing]
  refine (reads_close ending (by simp [Closer]) closes).bind ?_ fun _ => rfl
  refine Reads.skip (reads_assigned ending stops assignable) ?_
  exact Reads.returns

theorem reads_member {assignable : Bool} {tree : Tree} {result : Tree ⊕ Tree}
    (reads : Reads place indent last false (member nested assignable tree) tokens result next) :
    Reads place indent last false (actionTurn nested fuel indent assignable tree)
      (.dot :: tokens) result next := by
  refine Reads.current ?_
  exact Reads.advance reads

theorem reads_getter (ending : Ending indent last) (stops : Stops 14 next)
    {assignable : Bool} {tree : Tree} {key : String} :
    Reads place indent last false (member nested assignable tree) [.symbol key]
      (.inl (.operate (.objectGet key) [tree])) next := by
  refine Reads.current (Reads.advance ?_)
  refine Reads.skip (reads_assigned ending stops assignable) ?_
  exact Reads.returns

theorem reads_getterIndirect (ending : Ending indent last) (stops : Stops 14 next)
    {assignable : Bool} {tree key : Tree} {closing : List Token}
    (closes : Closes .rightParenthesis next closing)
    (reads : Reads place indent last false nested.expression tokens key
      (following closing next)) :
    Reads place indent last false (member nested assignable tree)
      (.leftParenthesis :: (tokens ++ closing))
      (.inl (.operate .objectGetIndirect [tree, key])) next := by
  refine Reads.current (Reads.advance (reads.bind ?_ fun _ => rfl))
  rw [← List.append_nil closing]
  refine (reads_close ending (by simp [Closer]) closes).bind ?_ fun _ => rfl
  refine Reads.skip (reads_assigned ending stops assignable) ?_
  exact Reads.returns

theorem reads_tester {assignable : Bool} {tree : Tree} {key : String} :
    Reads place indent last false (member nested assignable tree) [.question, .symbol key]
      (.inl (.operate (.objectHas key) [tree])) next := by
  refine Reads.current (Reads.advance (Reads.current ?_))
  exact Reads.advance Reads.returns

theorem reads_testerIndirect (ending : Ending indent last) {assignable : Bool}
    {tree key : Tree} {closing : List Token} (closes : Closes .rightParenthesis next closing)
    (reads : Reads place indent last false nested.expression tokens key
      (following closing next)) :
    Reads place indent last false (member nested assignable tree)
      (.question :: .leftParenthesis :: (tokens ++ closing))
      (.inl (.operate .objectHasIndirect [tree, key])) next := by
  refine Reads.current (Reads.advance (Reads.current (Reads.advance ?_)))
  exact reads.bind (reads_close ending (by simp [Closer]) closes).maps fun _ => rfl

theorem reads_sign {instruction : Unary} {tree : Tree} {assignable : Bool}
    (operator : unaryOf token = some instruction) (begins : Begins 2 tokens)
    (apart : ∀ number ∈ tokens.head?, signed instruction number = none)
    (reads : Reads place indent last false nested.unary tokens tree next) :
    Reads place indent last flag (unary nested fuel assignable) (token :: tokens)
      (.operate (.unary instruction) [tree]) next := by
  obtain ⟨number, behind, rfl, -⟩ := begins
  refine Reads.current ?_
  simp only [heading, operator]
  refine Reads.advance (Reads.current ?_)
  simp only [heading, apart number rfl]
  exact reads.maps

theorem reads_number {number : Token} {instruction : Unary} {value : Tree.Literal} {tree : Tree}
    {assignable : Bool} (operator : unaryOf token = some instruction)
    (is : signed instruction number = some value)
    (reads : Reads place indent last false
      (action nested fuel indent assignable (.literal value)) tokens tree next) :
    Reads place indent last flag (unary nested fuel assignable) (token :: number :: tokens)
      tree next := by
  refine Reads.current ?_
  simp only [heading, operator]
  refine Reads.advance (Reads.current ?_)
  simp only [heading, is]
  exact Reads.advance reads

theorem unaryOf_primary (kind : 3 ≤ beginning token) : unaryOf token = none := by
  cases token <;> first | rfl | exact absurd kind (by decide)

theorem reads_chained {tree result : Tree} {assignable : Bool} (begins : Begins 3 first)
    (reads : Reads place indent last flag (target nested fuel assignable) first tree
      (following behind next))
    (steps : Reads place indent last false (action nested fuel indent assignable tree) behind
      result next) :
    Reads place indent last flag (unary nested fuel assignable) (first ++ behind) result next := by
  obtain ⟨token, others, rfl, kind⟩ := begins
  refine Reads.current ?_
  simp only [heading, List.cons_append, unaryOf_primary kind]
  exact reads.bind steps (by simp)

theorem reads_orElse (ending : Ending indent last) (stops : Stops 1 next) {tree : Tree}
    {assignable : Bool}
    (reads : Reads place indent last flag (orElse nested fuel assignable) tokens tree next)
    (begins : Begins 2 tokens) :
    Reads place indent last flag (conditional nested fuel assignable) tokens tree next := by
  obtain ⟨token, others, rfl, -⟩ := begins
  rw [← List.append_nil (token :: others)]
  refine reads.bind (Reads.current ?_) (by simp)
  cases next with
  | none =>
    simp only [heading, lexemeOf, ending.newline, Bool.true_or, if_true]
    exact Reads.returns
  | some token =>
    have apart : token ≠ .question := by
      rintro rfl
      exact absurd (stops _ rfl) (by decide)
    simp only [heading, lexemeOf, bne_iff_ne.mpr apart, Bool.or_true, if_true]
    exact Reads.returns

theorem reads_conditional {condition true_ false_ : Tree} {conditions trues falses : List Token}
    {assignable : Bool} (begins : Begins 2 conditions)
    (reads : Reads place indent last flag (orElse nested fuel assignable) conditions condition
      (some .question))
    (truly : Reads place indent last false nested.conditional trues true_ (some (.colon 1)))
    (falsely : Reads place indent last false nested.conditional falses false_ next) :
    Reads place indent last flag (conditional nested fuel assignable)
      (conditions ++ .question :: (trues ++ .colon 1 :: falses))
      (.if_ (some condition) true_ false_) next := by
  obtain ⟨token, others, rfl, -⟩ := begins
  refine reads.bind (Reads.current ?_) (by simp)
  simp only [heading, bne_self_eq_false, Bool.or_self, Bool.false_eq_true, if_false]
  refine Reads.advance (truly.bind (Reads.current (Reads.ensure ?_ (Reads.advance ?_)))
    fun _ => rfl)
  · exact beq_self_eq_true _
  · exact falsely.maps

theorem reads_term {tree : Tree} (begins : Begins 2 tokens)
    (reads : Reads place indent last flag (conditional nested fuel true) tokens tree next) :
    Reads place indent last flag (expression nested fuel) tokens tree next := by
  obtain ⟨token, others, rfl, kind⟩ := begins
  refine Reads.current ?_
  dsimp only [heading]
  split
  · exact absurd kind (by decide)
  · exact absurd kind (by decide)
  · exact absurd kind (by decide)
  · exact absurd kind (by decide)
  · exact reads

theorem reads_level {n : Nat} {left tree : Tree} (low : n ≤ 10) (apart : n ≠ 5)
    {assignable : Bool} (begins : Begins 2 first)
    (reads : Reads place indent last flag (atLevel nested fuel (n + 1) assignable) first left
      (following behind next))
    (chain : Reads place indent last false
      (loop (levelTurn (operatorAt n) (atLevel nested fuel (n + 1))) fuel left) behind tree next) :
    Reads place indent last flag (atLevel nested fuel n assignable) (first ++ behind) tree
      next := by
  obtain ⟨token, others, rfl, -⟩ := begins
  rw [atLevel_eq nested fuel low apart]
  exact reads.bind chain (by simp)

end

theorem eventually_nested {motive : Nested → Prop}
    (holds : ∀ᶠ fuel in atTop, motive
      { expression := expression (nested fuel) fuel
        unary := unary (nested fuel) fuel false
        conditional := conditional (nested fuel) fuel false }) :
    ∀ᶠ fuel in atTop, motive (nested fuel) := by
  obtain ⟨bound, holds⟩ := eventually_atTop.mp holds
  refine eventually_atTop.mpr ⟨bound + 1, fun fuel above => ?_⟩
  obtain ⟨fuel, rfl⟩ : ∃ less, fuel = less + 1 := ⟨fuel - 1, by omega⟩
  exact holds fuel (by omega)

def Heads : Phrase → List Token → Prop
  | .expression _, tokens => Begins 1 tokens
  | .conditional _, tokens => Begins 2 tokens
  | .level _ _, tokens => Begins 2 tokens
  | .unary _, tokens => Begins 2 tokens
  | .primary _, tokens => Begins 3 tokens
  | .step _ _, tokens => tokens ≠ []
  | .arguments _ _, tokens => Begins 1 tokens ∨ ∃ behind, tokens = .asterisk :: behind
  | .group _ _, tokens => Begins 1 tokens
  | .pairs _ _, tokens => Begins 1 tokens
  | _, _ => True

theorem Begins.mono {kind less : Nat} {tokens : List Token} (begins : Begins kind tokens)
    (le : less ≤ kind) : Begins less tokens := by
  obtain ⟨token, behind, is, above⟩ := begins
  exact ⟨token, behind, is, le.trans above⟩

theorem Begins.append {kind : Nat} {tokens : List Token} (begins : Begins kind tokens)
    (others : List Token) : Begins kind (tokens ++ others) := by
  obtain ⟨token, behind, rfl, above⟩ := begins
  exact ⟨token, behind ++ others, rfl, above⟩

section

variable {place : Place} {indent : Nat} {last : Lexeme}

theorem begins_colons {outer : Nat} {token : Token} {tokens : List Token}
    (kind : 3 ≤ beginning token) : Begins 3 (colons outer ++ token :: tokens) := by
  unfold colons
  split
  · exact ⟨token, tokens, rfl, kind⟩
  · exact ⟨.colon outer, token :: tokens, rfl, Nat.le_refl 3⟩

theorem Derives.heads {grammar : Grammar} {phrase : Phrase} {next : Option Token}
    {tokens : List Token}
    (derives : Derives grammar (others place indent last) place.depth phrase next tokens) :
    Heads phrase tokens := by
  induction derives with
  | term _ heads => exact Begins.mono heads (by decide)
  | other other => exact other.1
  | orElse _ heads => exact heads
  | conditional _ _ _ heads => exact heads.append _
  | level _ _ _ heads => exact heads.append _
  | operand _ heads => exact heads
  | @sign token _ _ _ tokens operator =>
    refine ⟨token, tokens, rfl, ?_⟩
    cases token <;> first | decide | simp [unaryOf] at operator
  | @number token number _ _ _ _ tokens _ operator =>
    refine ⟨token, number :: tokens, rfl, ?_⟩
    cases token <;> first | decide | simp [unaryOf] at operator
  | chained _ _ heads => exact (Begins.mono heads (by decide)).append _
  | @literal token _ _ is =>
    refine ⟨token, [], rfl, ?_⟩
    cases token <;> first | exact Nat.le_refl 3 | simp [literalOf] at is
  | quoted => exact ⟨.apostrophe, _, rfl, by decide⟩
  | symbol => exact begins_colons (Nat.le_refl 3)
  | self => exact begins_colons (Nat.le_refl 3)
  | selfKey => exact begins_colons (Nat.le_refl 3)
  | tuple => exact ⟨.apostrophe, _, rfl, by decide⟩
  | list => exact ⟨.leftBracket, _, rfl, by decide⟩
  | empty => exact ⟨.leftParenthesis, _, rfl, by decide⟩
  | parenthesized => exact ⟨.leftParenthesis, _, rfl, by decide⟩
  | emptyMap => exact ⟨.leftBrace, _, rfl, by decide⟩
  | map => exact ⟨.leftBrace, _, rfl, by decide⟩
  | otherPrimary other =>
    obtain ⟨token, is, kind⟩ := other.1
    obtain ⟨behind, rfl⟩ : ∃ behind, _ = token :: behind := List.head?_eq_some_iff.mp is
    refine ⟨token, behind, rfl, ?_⟩
    simp only [List.mem_cons, List.not_mem_nil, or_false] at kind
    rcases kind with rfl | rfl | rfl | rfl | rfl <;> decide
  | steps _ _ heads => trivial
  | called => exact List.cons_ne_nil _ _
  | subscription => exact List.cons_ne_nil _ _
  | getter => exact List.cons_ne_nil _ _
  | getterIndirect => exact List.cons_ne_nil _ _
  | class_ => exact List.cons_ne_nil _ _
  | super => exact List.cons_ne_nil _ _
  | tester => exact List.cons_ne_nil _ _
  | testerIndirect => exact List.cons_ne_nil _ _
  | @lastArgument expanded _ _ _ _ _ heads =>
    cases expanded with
    | true => exact Or.inr ⟨_, rfl⟩
    | false => exact Or.inl heads
  | @argument expanded _ _ _ _ _ _ _ _ heads =>
    cases expanded with
    | true => exact Or.inr ⟨_, rfl⟩
    | false => exact Or.inl (heads.append _)
  | lastOfGroup _ heads => exact heads
  | group _ _ heads => exact heads.append _
  | lastPair _ _ heads => exact heads.append _
  | pair _ _ _ heads => exact heads.append _
  | _ => trivial

variable {phrase : Phrase} {next : Option Token} {tokens : List Token}

theorem stops_chain {names : Others} {depth n : Nat} {left tree : Tree}
    (derives : Derives .implemented names depth (.chain n left tree) next tokens)
    (stops : Stops (n + 2) next) : Stops (n + 1 + 2) (following tokens next) := by
  cases derives with
  | chainEnd => exact stops.mono (by omega)
  | chain operator on _ _ =>
    rintro token is
    obtain rfl := Option.some.inj is
    rw [strength_operator operator, on]
    omega

theorem chain_five {names : Others} {depth : Nat} {left tree : Tree}
    (derives : Derives .implemented names depth (.chain 5 left tree) next tokens) :
    tokens = [] ∧ tree = left := by
  generalize is : Phrase.chain 5 left tree = phrase at derives
  cases derives with
  | chainEnd =>
    cases is
    exact ⟨rfl, rfl⟩
  | @chain _ _ _ _ _ token _ _ _ operator on _ _ =>
    cases is
    cases token <;>
      simp [joinOf, Grammar.implemented, Grammar.documented] at operator on
  | _ => cases is

theorem stops_steps {grammar : Grammar} {names : Others} {depth : Nat} {target tree : Tree}
    (derives : Derives grammar names depth (.steps target tree) next tokens)
    (stops : Stops 13 next) : Stops 14 (following tokens next) := by
  cases derives with
  | stepsEnd => exact stops.mono (by omega)
  | steps step _ =>
    cases step <;>
      · rintro token is
        obtain rfl := Option.some.inj is
        decide

theorem listed_closing {right : Token} {closing : List Token} (closer : Closer right)
    (closes : Closes right next closing) : Listed (following closing next) := by
  cases closes with
  | closed =>
    simp only [Closer, List.mem_cons, List.not_mem_nil, or_false] at closer
    constructor
    · rintro token is
      obtain rfl := Option.some.inj is
      rcases closer with rfl | rfl | rfl <;> decide
    · intro is
      obtain rfl := Option.some.inj is
      revert closer
      decide
  | opened ends =>
    constructor
    · intro token is
      rw [strength_ends (ends token is).1]
      exact Nat.one_pos
    · rintro rfl
      exact (ends .comma rfl).2.1 rfl

theorem closer_apart {right : Token} (closer : Closer right)
    (begins : Begins 1 tokens ∨ ∃ behind, tokens = .asterisk :: behind) :
    ∃ token behind, tokens = token :: behind ∧ token ≠ right := by
  simp only [Closer, List.mem_cons, List.not_mem_nil, or_false] at closer
  rcases begins with ⟨token, behind, rfl, kind⟩ | ⟨behind, rfl⟩
  · refine ⟨token, behind, rfl, ?_⟩
    rintro rfl
    rcases closer with rfl | rfl | rfl <;> exact absurd kind (by decide)
  · refine ⟨.asterisk, behind, rfl, ?_⟩
    rcases closer with rfl | rfl | rfl <;> decide

theorem stops_question : Stops 2 (some .question) := by
  rintro _ ⟨⟩
  decide

theorem stops_colon : Stops 1 (some (.colon 1)) := by
  rintro _ ⟨⟩
  decide

theorem stops_comma : Stops 1 (some .comma) := by
  rintro _ ⟨⟩
  decide

theorem eventually_last {p : Nat → Nat → Prop}
    (stops : ∀ᶠ fuel in atTop, ∀ more, p fuel (more + 1)) :
    ∃ turns, ∀ᶠ fuel in atTop, ∀ more, turns < more → p fuel more := by
  refine ⟨0, stops.mono fun fuel stops more above => ?_⟩
  obtain ⟨more, rfl⟩ : ∃ less, more = less + 1 := ⟨more - 1, by omega⟩
  exact stops more

theorem eventually_turn {p q : Nat → Nat → Prop}
    (continues : ∃ turns, ∀ᶠ fuel in atTop, ∀ more, turns < more → q fuel more)
    (turn : ∀ᶠ fuel in atTop, ∀ more, q fuel more → p fuel (more + 1)) :
    ∃ turns, ∀ᶠ fuel in atTop, ∀ more, turns < more → p fuel more := by
  obtain ⟨count, continues⟩ := continues
  refine ⟨count + 1, ?_⟩
  filter_upwards [continues, turn] with fuel continues turn more above
  obtain ⟨more, rfl⟩ : ∃ less, more = less + 1 := ⟨more - 1, by omega⟩
  exact turn more (continues more (by omega))

/-! ### The productions -/

theorem Meets.term {tree next tokens}
    (term : Derives .implemented (others place indent last) place.depth
      (.conditional tree) next tokens)
    (reads : Meets place indent last (.conditional tree) next tokens) :
    Meets place indent last (.expression tree) next tokens := by
  intro stops
  refine eventually_nested (motive := fun nested =>
    ∀ flag, Reads place indent last flag nested.expression _ _ _) ?_
  filter_upwards [reads stops] with fuel reads flag
  exact reads_term term.heads (reads flag true)

theorem Meets.other {tree next tokens}
    (other : (others place indent last).expression next tokens tree) :
    Meets place indent last (.expression tree) next tokens :=
  fun _ => other.2

theorem Meets.orElse {tree next tokens} (ending : Ending indent last)
    (term : Derives .implemented (others place indent last) place.depth (.level 0 tree) next tokens)
    (reads : Meets place indent last (.level 0 tree) next tokens) :
    Meets place indent last (.conditional tree) next tokens := by
  intro stops
  filter_upwards [reads (stops.mono (by omega))] with fuel reads flag assignable
  exact reads_orElse ending stops (reads flag assignable) term.heads

theorem Meets.conditional {condition true_ false_ next conditions trues falses}
    (condition_ : Derives .implemented (others place indent last) place.depth
      (.level 0 condition) (some .question) conditions)
    (reads : Meets place indent last (.level 0 condition) (some .question) conditions)
    (truly : Meets place indent last (.conditional true_) (some (.colon 1)) trues)
    (falsely : Meets place indent last (.conditional false_) next falses) :
    Meets place indent last (.conditional (.if_ (some condition) true_ false_)) next
      (conditions ++ .question :: (trues ++ .colon 1 :: falses)) := by
  intro stops
  have nestedTrue := eventually_nested (motive := fun nested =>
      Reads place indent last false nested.conditional trues true_ (some (.colon 1)))
    ((truly stops_colon).mono fun fuel reads => reads false false)
  have nestedFalse := eventually_nested (motive := fun nested =>
      Reads place indent last false nested.conditional falses false_ _)
    ((falsely stops).mono fun fuel reads => reads false false)
  filter_upwards [reads stops_question, nestedTrue, nestedFalse]
    with fuel reads truly falsely flag assignable
  exact reads_conditional condition_.heads (reads flag assignable) truly falsely

theorem Meets.level {n left tree next first behind} (low : n ≤ 10)
    (left_ : Derives .implemented (others place indent last) place.depth
      (.level (n + 1) left) (following behind next) first)
    (chain : Derives .implemented (others place indent last) place.depth
      (.chain n left tree) next behind)
    (reads : Meets place indent last (.level (n + 1) left) (following behind next) first)
    (turns : Meets place indent last (.chain n left tree) next behind) :
    Meets place indent last (.level n tree) next (first ++ behind) := by
  intro stops
  by_cases five : n = 5
  · subst five
    obtain ⟨rfl, rfl⟩ := chain_five chain
    rw [List.append_nil]
    exact reads (stops.mono (by omega))
  · obtain ⟨count, turns⟩ := turns stops
    filter_upwards [reads (stops_chain chain stops), turns, eventually_gt_atTop count]
      with fuel reads turns above flag assignable
    exact reads_level low five left_.heads (reads flag assignable) (turns fuel above)

theorem Meets.chainEnd {n tree next} (ending : Ending indent last) :
    Meets place indent last (.chain n tree tree) next [] := by
  intro stops
  refine eventually_last (Eventually.of_forall fun _ _ => ?_)
  exact Reads.stops (reads_levelEnd ending.newline fun token is =>
    operatorAt_none (stops token is))

theorem Meets.chain {n left right tree next token operand behind build}
    (operator : joinOf token = some build) (on : Grammar.implemented.levelOf token = n)
    (chain : Derives .implemented (others place indent last) place.depth
      (.chain n (build left right) tree) next behind)
    (reads : Meets place indent last (.level (n + 1) right) (following behind next) operand)
    (turns : Meets place indent last (.chain n (build left right) tree) next behind) :
    Meets place indent last (.chain n left tree) next (token :: (operand ++ behind)) := by
  intro stops
  refine eventually_turn (turns stops) ?_
  filter_upwards [reads (stops_chain chain stops)] with fuel reads more continues
  rw [← List.cons_append]
  refine Reads.turns ?_ continues fun _ => rfl
  exact reads_levelTurn ((if_pos on).trans operator) (reads false false)

theorem Meets.operand {tree next tokens}
    (reads : Meets place indent last (.unary tree) next tokens) :
    Meets place indent last (.level 11 tree) next tokens :=
  reads

theorem Meets.sign {token instruction tree next tokens}
    (operator : unaryOf token = some instruction)
    (apart : Grammar.implemented.signs = true →
      ∀ number ∈ tokens.head?, signed instruction number = none)
    (unary : Derives .implemented (others place indent last) place.depth (.unary tree) next tokens)
    (reads : Meets place indent last (.unary tree) next tokens) :
    Meets place indent last (.unary (.operate (.unary instruction) [tree])) next
      (token :: tokens) := by
  intro stops
  have nested := eventually_nested (motive := fun nested =>
      Reads place indent last false nested.unary tokens tree next)
    ((reads stops).mono fun fuel reads => reads false false)
  filter_upwards [nested] with fuel reads flag assignable
  exact reads_sign operator unary.heads (apart rfl) reads

theorem Meets.number {token number instruction value tree next tokens}
    (operator : unaryOf token = some instruction) (is : signed instruction number = some value)
    (turns : Meets place indent last (.steps (.literal value) tree) next tokens) :
    Meets place indent last (.unary tree) next (token :: number :: tokens) := by
  intro stops
  obtain ⟨count, turns⟩ := turns stops
  filter_upwards [turns, eventually_gt_atTop count] with fuel turns above flag assignable
  exact reads_number operator is (turns assignable fuel above)

theorem Meets.chained {target tree next first behind}
    (primary : Derives .implemented (others place indent last) place.depth
      (.primary target) (following behind next) first)
    (steps : Derives .implemented (others place indent last) place.depth
      (.steps target tree) next behind)
    (reads : Meets place indent last (.primary target) (following behind next) first)
    (turns : Meets place indent last (.steps target tree) next behind) :
    Meets place indent last (.unary tree) next (first ++ behind) := by
  intro stops
  obtain ⟨count, turns⟩ := turns stops
  filter_upwards [reads (stops_steps steps stops), turns, eventually_gt_atTop count]
    with fuel reads turns above flag assignable
  exact reads_chained primary.heads (reads flag assignable) (turns assignable fuel above)

theorem Meets.literal {token value next} (is : literalOf token = some value) :
    Meets place indent last (.primary (.literal value)) next [token] :=
  fun _ => Eventually.of_forall fun _ _ assignable => reads_literal is assignable

theorem Meets.quoted {name next} :
    Meets place indent last (.primary (.literal (.symbol name))) next
      [.apostrophe, .symbol name] :=
  fun _ => Eventually.of_forall fun _ _ assignable => reads_quoted assignable

theorem Meets.symbol {outer name next} (ending : Ending indent last)
    (within : Grammar.implemented.within = true → outer ≤ place.depth) :
    Meets place indent last (.primary (.symbolGet outer (decide (outer < place.depth)) name))
      next (colons outer ++ [.symbol name]) := by
  refine fun stops => Eventually.of_forall fun _ _ assignable => ?_
  exact reads_colons (within rfl) (Or.inl ⟨_, rfl⟩) fun flag =>
    reads_symbol ending stops assignable

theorem Meets.self {outer marks next} (ending : Ending indent last)
    (within : Grammar.implemented.within = true → outer < place.depth) :
    Meets place indent last (.primary (marked outer marks)) next
      (colons outer ++ [.self marks]) := by
  refine fun stops => Eventually.of_forall fun _ _ assignable => ?_
  exact reads_colons (within rfl).le (Or.inr ⟨_, rfl⟩) fun flag =>
    reads_self ending stops (within rfl) assignable

theorem Meets.selfKey {outer marks key next} (ending : Ending indent last)
    (within : Grammar.implemented.within = true → outer < place.depth) :
    Meets place indent last (.primary (.operate (.objectGet key) [marked outer marks])) next
      (colons outer ++ [.self marks, .symbol key]) := by
  refine fun stops => Eventually.of_forall fun _ _ assignable => ?_
  exact reads_colons (within rfl).le (Or.inr ⟨_, rfl⟩) fun flag =>
    reads_selfKey ending stops (within rfl) assignable

theorem Meets.tuple {nodes expands next tokens}
    (reads : Meets place indent last (.call .rightParenthesis nodes expands) next tokens) :
    Meets place indent last (.primary (.operate (.call expands) (.literal .tuple :: nodes))) next
      (.apostrophe :: .leftParenthesis :: tokens) := by
  intro _
  filter_upwards [reads (by simp [Closer])] with fuel reads flag assignable
  exact reads_tuple (reads _) assignable

theorem Meets.list {nodes expands next tokens}
    (reads : Meets place indent last (.call .rightBracket nodes expands) next tokens) :
    Meets place indent last (.primary (.operate (.call expands) (.literal .list :: nodes))) next
      (.leftBracket :: tokens) := by
  intro _
  filter_upwards [reads (by simp [Closer])] with fuel reads flag assignable
  exact reads_list (reads _) assignable

theorem Meets.empty {next closing} (ending : Ending indent last)
    (closes : Closes .rightParenthesis next closing) (atEnd : closing = [] → next = none) :
    Meets place indent last (.primary (.operate .nodes [])) next (.leftParenthesis :: closing) :=
  fun _ => Eventually.of_forall fun _ _ assignable =>
    reads_group_empty ending closes atEnd assignable

theorem Meets.parenthesized {nodes next tokens closing} (ending : Ending indent last)
    (closes : Closes .rightParenthesis next closing)
    (group : Derives .implemented (others place indent last) place.depth
      (.group [] nodes) (following closing next) tokens)
    (turns : Meets place indent last (.group [] nodes) (following closing next) tokens) :
    Meets place indent last (.primary (.operate .nodes nodes)) next
      (.leftParenthesis :: (tokens ++ closing)) := by
  intro _
  have closer : Closer .rightParenthesis := by simp [Closer]
  obtain ⟨count, turns⟩ := turns (listed_closing closer closes)
  obtain ⟨token, others, rfl, apart⟩ := closer_apart closer (Or.inl group.heads)
  filter_upwards [turns, eventually_gt_atTop count] with fuel turns above flag assignable
  exact reads_group ending closes apart (turns fuel above) assignable

theorem Meets.emptyMap {next closing} (ending : Ending indent last)
    (closes : Closes .rightBrace next closing) (atEnd : closing = [] → next = none) :
    Meets place indent last (.primary (.operate (.call []) [.literal .map])) next
      (.leftBrace :: closing) :=
  fun _ => Eventually.of_forall fun _ _ assignable =>
    reads_map_empty ending closes atEnd assignable

theorem Meets.map {nodes next tokens closing} (ending : Ending indent last)
    (closes : Closes .rightBrace next closing)
    (pairs : Derives .implemented (others place indent last) place.depth
      (.pairs [] nodes) (following closing next) tokens)
    (turns : Meets place indent last (.pairs [] nodes) (following closing next) tokens) :
    Meets place indent last (.primary (.operate (.call []) (.literal .map :: nodes))) next
      (.leftBrace :: (tokens ++ closing)) := by
  intro _
  have closer : Closer .rightBrace := by simp [Closer]
  obtain ⟨count, turns⟩ := turns (listed_closing closer closes)
  obtain ⟨token, others, rfl, apart⟩ := closer_apart closer (Or.inl pairs.heads)
  filter_upwards [turns, eventually_gt_atTop count] with fuel turns above flag assignable
  exact reads_map ending closes apart (turns fuel above) assignable

theorem Meets.otherPrimary {tree next tokens}
    (other : (others place indent last).primary next tokens tree) :
    Meets place indent last (.primary tree) next tokens :=
  fun _ => other.2

theorem Meets.stepsEnd {tree next} (ending : Ending indent last) :
    Meets place indent last (.steps tree tree) next [] := by
  intro stops
  refine ⟨0, Eventually.of_forall fun _ assignable more above => ?_⟩
  obtain ⟨more, rfl⟩ : ∃ less, more = less + 1 := ⟨more - 1, by omega⟩
  exact Reads.stops (reads_stepsEnd ending stops assignable _)

theorem Meets.steps {target middle tree next first behind}
    (steps : Derives .implemented (others place indent last) place.depth
      (.steps middle tree) next behind)
    (reads : Meets place indent last (.step target middle) (following behind next) first)
    (turns : Meets place indent last (.steps middle tree) next behind) :
    Meets place indent last (.steps target tree) next (first ++ behind) := by
  intro stops
  obtain ⟨count, turns⟩ := turns stops
  refine ⟨count + 1, ?_⟩
  filter_upwards [reads (stops_steps steps stops), turns]
    with fuel reads turns assignable more above
  obtain ⟨more, rfl⟩ : ∃ less, more = less + 1 := ⟨more - 1, by omega⟩
  exact Reads.turns (reads assignable) (turns assignable more (by omega)) fun _ => rfl

theorem Meets.called {target nodes expands next tokens}
    (reads : Meets place indent last (.call .rightParenthesis nodes expands) next tokens) :
    Meets place indent last (.step target (.operate (.call expands) (target :: nodes))) next
      (.leftParenthesis :: tokens) := by
  intro _
  filter_upwards [reads (by simp [Closer])] with fuel reads assignable
  exact reads_called (reads _)

theorem Meets.subscription {target index next tokens closing} (ending : Ending indent last)
    (closes : Closes .rightBracket next closing)
    (reads : Meets place indent last (.expression index) (following closing next) tokens) :
    Meets place indent last (.step target (.operate .getAt [target, index])) next
      (.leftBracket :: (tokens ++ closing)) := by
  intro stops
  filter_upwards [reads (listed_closing (by simp [Closer]) closes).1] with fuel reads assignable
  exact reads_subscription ending stops closes (reads false)

theorem Meets.getter {target key next} (ending : Ending indent last) :
    Meets place indent last (.step target (.operate (.objectGet key) [target])) next
      [.dot, .symbol key] :=
  fun stops => Eventually.of_forall fun _ _ => reads_member (reads_getter ending stops)

theorem Meets.getterIndirect {target key next tokens closing} (ending : Ending indent last)
    (closes : Closes .rightParenthesis next closing)
    (reads : Meets place indent last (.expression key) (following closing next) tokens) :
    Meets place indent last (.step target (.operate .objectGetIndirect [target, key])) next
      (.dot :: .leftParenthesis :: (tokens ++ closing)) := by
  intro stops
  filter_upwards [reads (listed_closing (by simp [Closer]) closes).1] with fuel reads assignable
  exact reads_member (reads_getterIndirect ending stops closes (reads false))

theorem Meets.class_ {target next} :
    Meets place indent last (.step target (.operate .class_ [target])) next [.dot, .atmark] := by
  refine fun _ => Eventually.of_forall fun _ _ => reads_member ?_
  refine Reads.current (Reads.advance ?_)
  exact Reads.returns

theorem Meets.super {target next} :
    Meets place indent last (.step target (.operate .super [target])) next [.dot, .hat] := by
  refine fun _ => Eventually.of_forall fun _ _ => reads_member ?_
  refine Reads.current (Reads.advance ?_)
  exact Reads.returns

theorem Meets.tester {target key next} :
    Meets place indent last (.step target (.operate (.objectHas key) [target])) next
      [.dot, .question, .symbol key] :=
  fun _ => Eventually.of_forall fun _ _ => reads_member reads_tester

theorem Meets.testerIndirect {target key next tokens closing} (ending : Ending indent last)
    (closes : Closes .rightParenthesis next closing)
    (reads : Meets place indent last (.expression key) (following closing next) tokens) :
    Meets place indent last (.step target (.operate .objectHasIndirect [target, key])) next
      (.dot :: .question :: .leftParenthesis :: (tokens ++ closing)) := by
  intro _
  filter_upwards [reads (listed_closing (by simp [Closer]) closes).1] with fuel reads assignable
  exact reads_member (reads_testerIndirect ending closes (reads false))

theorem Meets.noArguments {right next closing} (ending : Ending indent last)
    (closes : Closes right next closing) (atEnd : closing = [] → next = none) :
    Meets place indent last (.call right [] []) next closing :=
  fun closer => Eventually.of_forall fun _ target =>
    reads_call_empty ending closer closes atEnd target

theorem Meets.call {right nodes expands next tokens closing} (ending : Ending indent last)
    (closes : Closes right next closing)
    (arguments : Derives .implemented (others place indent last) place.depth
      (.arguments ([], []) (nodes, expands)) (following closing next) tokens)
    (turns : Meets place indent last (.arguments ([], []) (nodes, expands))
      (following closing next) tokens) :
    Meets place indent last (.call right nodes expands) next (tokens ++ closing) := by
  intro closer
  obtain ⟨count, turns⟩ := turns (listed_closing closer closes)
  obtain ⟨token, others, rfl, apart⟩ := closer_apart closer arguments.heads
  filter_upwards [turns, eventually_gt_atTop count] with fuel turns above target
  exact reads_call ending closer closes apart (turns fuel above) target

theorem Meets.lastArgument {expanded before node next tokens} (ending : Ending indent last)
    (expression : Derives .implemented (others place indent last) place.depth
      (.expression node) next tokens)
    (reads : Meets place indent last (.expression node) next tokens) :
    Meets place indent last (.arguments before (argued expanded before node)) next
      (stars expanded ++ tokens) := by
  intro listed
  refine eventually_last ?_
  filter_upwards [reads listed.1] with fuel reads more
  exact Reads.stops (reads_argumentTurn expression.heads
    (reads_argument_last ending (reads false) listed.2))

theorem Meets.argument {expanded before node after next tokens behind}
    (expression : Derives .implemented (others place indent last) place.depth
      (.expression node) (some .comma) tokens)
    (reads : Meets place indent last (.expression node) (some .comma) tokens)
    (turns : Meets place indent last (.arguments (argued expanded before node) after) next behind) :
    Meets place indent last (.arguments before after) next
      (stars expanded ++ (tokens ++ .comma :: behind)) := by
  intro listed
  refine eventually_turn (turns listed) ?_
  filter_upwards [reads stops_comma] with fuel reads more continues
  have split : stars expanded ++ (tokens ++ .comma :: behind) =
      (stars expanded ++ (tokens ++ [.comma])) ++ behind := by simp
  rw [split]
  exact Reads.turns (reads_argumentTurn (expression.heads.append _)
    (reads_argument_more (reads false))) continues fun _ => rfl

theorem Meets.lastOfGroup {before node next tokens} (ending : Ending indent last)
    (reads : Meets place indent last (.expression node) next tokens) :
    Meets place indent last (.group before (before ++ [node])) next tokens := by
  intro listed
  refine eventually_last ?_
  filter_upwards [reads listed.1] with fuel reads more
  exact Reads.stops (reads_groupTurn (reads_argument_last ending (reads false) listed.2))

theorem Meets.group {before node after next tokens behind}
    (reads : Meets place indent last (.expression node) (some .comma) tokens)
    (turns : Meets place indent last (.group (before ++ [node]) after) next behind) :
    Meets place indent last (.group before after) next (tokens ++ .comma :: behind) := by
  intro listed
  refine eventually_turn (turns listed) ?_
  filter_upwards [reads stops_comma] with fuel reads more continues
  have split : tokens ++ .comma :: behind = (tokens ++ [.comma]) ++ behind := by simp
  rw [split]
  exact Reads.turns (reads_groupTurn (reads_argument_more (reads false)))
    continues fun _ => rfl

theorem Meets.lastPair {before key value next tokens values} (ending : Ending indent last)
    (keys : Meets place indent last (.expression key) (some (.colon 1)) tokens)
    (reads : Meets place indent last (.expression value) next values) :
    Meets place indent last (.pairs before (before ++ [key, value])) next
      (tokens ++ .colon 1 :: values) := by
  intro listed
  refine eventually_last ?_
  filter_upwards [keys stops_colon, reads listed.1] with fuel keys reads more
  exact Reads.stops (reads_pair_last ending (keys false) (reads false) listed.2)

theorem Meets.pair {before key value after next tokens values behind}
    (keys : Meets place indent last (.expression key) (some (.colon 1)) tokens)
    (reads : Meets place indent last (.expression value) (some .comma) values)
    (turns : Meets place indent last (.pairs (before ++ [key, value]) after) next behind) :
    Meets place indent last (.pairs before after) next
      (tokens ++ .colon 1 :: (values ++ .comma :: behind)) := by
  intro listed
  refine eventually_turn (turns listed) ?_
  filter_upwards [keys stops_colon, reads stops_comma] with fuel keys reads more continues
  have split : tokens ++ .colon 1 :: (values ++ .comma :: behind) =
      (tokens ++ .colon 1 :: (values ++ [.comma])) ++ behind := by simp
  rw [split]
  exact Reads.turns (reads_pair_more (keys false) (reads false))
    continues fun _ => rfl

theorem Derives.meets (ending : Ending indent last)
    (derives : Derives .implemented (others place indent last) place.depth phrase next tokens) :
    Meets place indent last phrase next tokens := by
  induction derives with
  | term term reads => exact Meets.term term reads
  | other other => exact Meets.other other
  | orElse term reads => exact Meets.orElse ending term reads
  | conditional condition_ _ _ reads truly falsely =>
      exact Meets.conditional condition_ reads truly falsely
  | level low left_ chain reads turns => exact Meets.level low left_ chain reads turns
  | chainEnd => exact Meets.chainEnd ending
  | chain operator on _ chain reads turns => exact Meets.chain operator on chain reads turns
  | operand _ reads => exact Meets.operand reads
  | sign operator apart unary reads => exact Meets.sign operator apart unary reads
  | number _ operator is _ turns => exact Meets.number operator is turns
  | chained primary steps reads turns => exact Meets.chained primary steps reads turns
  | literal is => exact Meets.literal is
  | quoted => exact Meets.quoted
  | symbol within => exact Meets.symbol ending within
  | self within => exact Meets.self ending within
  | selfKey within => exact Meets.selfKey ending within
  | tuple _ reads => exact Meets.tuple reads
  | list _ reads => exact Meets.list reads
  | empty closes atEnd => exact Meets.empty ending closes atEnd
  | parenthesized closes group turns => exact Meets.parenthesized ending closes group turns
  | emptyMap closes atEnd => exact Meets.emptyMap ending closes atEnd
  | map closes pairs turns => exact Meets.map ending closes pairs turns
  | otherPrimary other => exact Meets.otherPrimary other
  | stepsEnd => exact Meets.stepsEnd ending
  | steps _ steps reads turns => exact Meets.steps steps reads turns
  | called _ reads => exact Meets.called reads
  | subscription closes _ reads => exact Meets.subscription ending closes reads
  | getter => exact Meets.getter ending
  | getterIndirect closes _ reads => exact Meets.getterIndirect ending closes reads
  | class_ => exact Meets.class_
  | super => exact Meets.super
  | tester => exact Meets.tester
  | testerIndirect closes _ reads => exact Meets.testerIndirect ending closes reads
  | noArguments closes atEnd => exact Meets.noArguments ending closes atEnd
  | call closes arguments turns => exact Meets.call ending closes arguments turns
  | lastArgument expression reads => exact Meets.lastArgument ending expression reads
  | argument expression _ reads turns => exact Meets.argument expression reads turns
  | lastOfGroup _ reads => exact Meets.lastOfGroup ending reads
  | group _ _ reads turns => exact Meets.group reads turns
  | lastPair _ _ keys reads => exact Meets.lastPair ending keys reads
  | pair _ _ _ keys reads turns => exact Meets.pair keys reads turns

end

end Xemmai.Parser
