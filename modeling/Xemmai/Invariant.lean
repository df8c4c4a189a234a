import Xemmai.Yields
import Xemmai.Parser

/-!
# Invariants of the parser

What is to be shown of an invariant of the parser's state, and of the trees that it
builds, so that it holds in every run. An invariant is relative to a context: where
a lambda, a loop or a `finally` is entered, that of the body is another one.
-/

namespace Xemmai.Parser

set_option autoImplicit false

/-- What becomes of a scope at a name or a self in the text. -/
inductive Touched : Scope → Scope → Prop
  | reference (scope : Scope) (name : String) : Touched scope (scope.reference name)
  | unresolve (scope : Scope) (name : String) : Touched scope (scope.unresolve name)
  | selfShared (scope : Scope) (shared : Bool) : Touched scope { scope with selfShared := shared }
  | isShared (scope : Scope) : Touched scope { scope with isShared := true }
  | variable_ (scope : Scope) (name : String) : Touched scope (scope.variable_ name)
  | share (scope : Scope) (name : String) : Touched scope ((scope.variable_ name).share name)

def parameterized (parameters : List String) : Scope :=
  parameters.foldl Scope.parameter .empty

theorem vary_eq (tail : Option String) (state : State) :
    vary tail state = match state.scopes with
      | [] => .error (.thrown "no more outer scope.")
      | scope :: outers =>
        match scope.vary tail with
        | none => .error .unbounded
        | some scope => .ok ((), { state with scopes := scope :: outers }) := by
  obtain ⟨current, rest, scopes, canJump, canReturn, closed⟩ := state
  cases scopes with
  | nil => rfl
  | cons scope outers =>
    change (match scope.vary tail with
      | none => throw .unbounded
      | some scope => set _ : Parser Unit) _ = _
    dsimp only
    cases scope.vary tail <;> rfl

theorem leave_eq (parameters : List String) (defaults : Nat) (variadic : Bool)
    (arguments : Nat) (state : State) :
    leave parameters defaults variadic arguments state = match state.scopes with
      | [] => .error (.thrown "no more outer scope.")
      | scope :: outers =>
        match scope.resolve.close arguments with
        | none => .error .unbounded
        | some closed => .ok (closed, { state with
            scopes := outers.modifyHead fun outer => scope.escaping.foldl Scope.unresolve outer
            closed := ⟨parameters, defaults, variadic, arguments, scope.resolve, closed⟩ ::
              state.closed }) := by
  obtain ⟨current, rest, scopes, canJump, canReturn, history⟩ := state
  cases scopes with
  | nil => rfl
  | cons scope outers =>
    change (match scope.resolve.close arguments with
      | none => throw .unbounded
      | some closed => do
        set _
        return closed : Parser Scope) _ = _
    dsimp only
    cases scope.resolve.close arguments <;> rfl

structure Invariant where
  Context : Type
  fails : Failure → Prop
  holds : Context → State → Prop
  tree : Context → Tree → Prop
  inLambda : Context → List String → Context
  inLoop : Context → Context
  inFinally : Context → Context
  /-- The context from a state on at which `v_privates.v_tail` has been read. -/
  marked : Context → State → Context
  thrown : ∀ message, fails (.thrown message)
  lexical : fails .lexical
  exhausted : fails .exhausted
  lexemes : ∀ {context state} (current : Lexeme) (rest : List Lexeme), holds context state →
    holds context { state with current := current, rest := rest }
  touches : ∀ {context state} (outer : Nat) (change : Scope → Scope),
    (∀ scope, Touched scope (change scope)) → holds context state →
    holds context { state with scopes := state.scopes.modify outer change }
  literal : ∀ context value, tree context (.literal value)
  self : ∀ context outer, tree context (.self outer)
  preserve : ∀ context, tree context .preserve
  symbolGet : ∀ context outer inside symbol, tree context (.symbolGet outer inside symbol)
  scopePut : ∀ {context value} outer symbol, tree context value →
    tree context (.scopePut outer symbol value)
  operate : ∀ {context operands} operation, (∀ operand ∈ operands, tree context operand) →
    tree context (.operate operation operands)
  if_ : ∀ {context condition true_ false_}, (∀ node ∈ condition, tree context node) →
    tree context true_ → tree context false_ → tree context (.if_ condition true_ false_)
  break_ : ∀ {context state expression}, holds context state → state.canJump = true →
    tree context expression → tree context (.break_ expression)
  continue_ : ∀ {context state}, holds context state → state.canJump = true →
    tree context .continue_
  return_ : ∀ {context state expression}, holds context state → state.canReturn = true →
    tree context expression → tree context (.return_ expression)
  enterLoop : ∀ {context state}, holds context state →
    holds (inLoop context) { state with canJump := true }
  leaveLoop : ∀ {context state after}, holds context state → holds (inLoop context) after →
    holds context { after with canJump := state.canJump, canReturn := state.canReturn }
  mark : ∀ {context state}, holds context state → holds (marked context state) state
  varies : ∀ {context state after}, holds context state → holds (marked context state) after →
    Yields fails (fun _ final => holds context final)
      (vary (state.scopes.head?.bind Scope.tail) after)
  while_ : ∀ {context condition body} state,
    (∀ node ∈ condition, tree (marked context state) node) →
    tree (inLoop (marked context state)) body → tree context (.while_ condition body)
  for_ : ∀ {context initialization condition next body} state,
    (∀ node ∈ initialization, tree context node) →
    (∀ node ∈ condition, tree (marked context state) node) →
    (∀ node ∈ next, tree (marked context state) node) →
    tree (inLoop (marked context state)) body →
    tree context (.for_ initialization condition next body)
  enterFinally : ∀ {context state}, holds context state →
    holds (inFinally context) { state with canJump := false, canReturn := false }
  leaveFinally : ∀ {context state after}, holds context state →
    holds (inFinally context) after →
    holds context { after with canJump := state.canJump, canReturn := state.canReturn }
  try_ : ∀ {context body catches finally_}, tree context body →
    (∀ clause ∈ catches, tree context clause.1 ∧ tree context clause.2.2) →
    (∀ node ∈ finally_, tree (inFinally context) node) →
    tree context (.try_ body catches finally_)
  enterLambda : ∀ {context state} (parameters : List String), holds context state →
    holds (inLambda context parameters)
      { state with scopes := parameterized parameters :: state.scopes, canReturn := true }
  leaveLambda : ∀ {context state after} (parameters : List String) (defaults : Nat)
    (variadic : Bool), holds context state → holds (inLambda context parameters) after →
    defaults + variadic.toNat ≤ parameters.length →
    Yields fails (fun _ final => holds context
        { final with canJump := state.canJump, canReturn := state.canReturn })
      (leave parameters defaults variadic (parameterized parameters).names.length after)
  lambda : ∀ {context defaults body} (scope : Scope) (parameters : List String)
    (variadic : Bool), (∀ node ∈ defaults, tree context node) →
    tree (inLambda context parameters) body →
    tree context (.lambda scope parameters variadic defaults body)

namespace Invariant

/-- A function of the parser keeps the invariant. -/
def Kept (invariant : Invariant) (context : invariant.Context) {α : Type} (parser : Parser α)
    (post : α → Prop) : Prop :=
  Keeps invariant.fails (invariant.holds context) parser post

/-- The functions that are entered again do, in each context. -/
structure Hub (invariant : Invariant) (nested : Nested) : Prop where
  expression : ∀ context,
    invariant.Kept context nested.expression (invariant.tree context)
  unary : ∀ context, invariant.Kept context nested.unary (invariant.tree context)
  conditional : ∀ context, invariant.Kept context nested.conditional (invariant.tree context)

section

variable {invariant : Invariant} {context : invariant.Context}

theorem kept_fail {α : Type} {message : String} {post : α → Prop} :
    invariant.Kept context (fail message) post :=
  Keeps.throws (invariant.thrown message)

theorem kept_current : invariant.Kept context current fun _ => True :=
  fun _ holds => ⟨holds, trivial⟩

theorem kept_advance : invariant.Kept context advance fun _ => True := by
  intro state holds
  unfold advance
  refine Keeps.reads (fun state holds => ?_) state holds
  cases state.rest with
  | nil => exact invariant.lexical
  | cons lexeme rest => exact ⟨invariant.lexemes lexeme rest holds, trivial⟩

theorem kept_ensure {met : Bool} {message : String} :
    invariant.Kept context (ensure met message) fun _ => met = true := by
  unfold ensure
  split
  · rename_i met
    exact Keeps.returns met
  · exact kept_fail

theorem kept_advanceIf {met : Bool} :
    invariant.Kept context (advanceIf met) fun _ => True := by
  unfold advanceIf
  split
  · exact kept_advance
  · exact Keeps.returns trivial

theorem kept_optional {α : Type} {met : Bool} {parser : Parser α} {absent : α}
    {post : α → Prop} (some_ : invariant.Kept context parser post) (none : post absent) :
    invariant.Kept context (optional met parser absent) post := by
  unfold optional
  split
  · exact some_
  · exact Keeps.returns none

theorem kept_loop {σ α : Type} {turn : σ → Parser (σ ⊕ α)} (going : σ → Prop)
    {post : α → Prop} (turns : ∀ state, going state →
      invariant.Kept context (turn state) (Sum.elim going post)) (fuel : Nat) {state : σ}
    (init : going state) : invariant.Kept context (loop turn fuel state) post := by
  induction fuel generalizing state with
  | zero => exact Keeps.throws invariant.exhausted
  | succ fuel ih =>
    refine (turns state init).bind fun result met => ?_
    cases result with
    | inl state => exact ih met
    | inr result => exact Keeps.returns met

theorem kept_touch {outer : Nat} {change : Scope → Scope}
    (touched : ∀ scope, Touched scope (change scope)) :
    invariant.Kept context (modifyScope outer change) fun _ => True :=
  Keeps.modifies fun _ holds => invariant.touches outer change touched holds

theorem kept_any {indent : Nat} {right : Token} :
    invariant.Kept context (any indent right) fun _ => True :=
  kept_current.bind fun _ _ => Keeps.returns trivial

theorem kept_close {indent : Nat} {right : Token} :
    invariant.Kept context (close indent right) fun _ => True :=
  kept_current.bind fun _ _ => kept_advanceIf

end

theorem all_append {property : Tree → Prop} {nodes : List Tree} {node : Tree}
    (all : ∀ node ∈ nodes, property node) (last : property node) :
    ∀ other ∈ nodes ++ [node], property other := by
  intro other member
  rcases List.mem_append.mp member with earlier | single
  · exact all other earlier
  · exact List.mem_singleton.mp single ▸ last

section

variable {invariant : Invariant} {nested : Nested} (hub : invariant.Hub nested)
  (context : invariant.Context) (fuel : Nat)

include hub

theorem kept_assigned (assignable : Bool) :
    invariant.Kept context (assigned nested assignable)
      fun value => ∀ node ∈ value, invariant.tree context node := by
  unfold assigned
  refine kept_current.bind fun lexeme _ => ?_
  split
  · exact Keeps.returns (by simp)
  · refine kept_ensure.bind fun _ _ => ?_
    refine kept_advance.bind fun _ _ => ?_
    refine (hub.expression context).bind fun node built => ?_
    exact Keeps.returns (by simpa using built)

theorem kept_argument (indent : Nat) :
    invariant.Kept context (argument nested indent)
      fun result => invariant.tree context result.1 := by
  unfold argument
  refine (hub.expression context).bind fun node built => ?_
  refine kept_current.bind fun lexeme _ => ?_
  split
  · exact Keeps.returns built
  · split
    · exact Keeps.returns built
    · exact kept_advance.bind fun _ _ => Keeps.returns built

theorem kept_arguments (indent : Nat) :
    invariant.Kept context (arguments nested fuel indent)
      fun result => ∀ node ∈ result.1, invariant.tree context node := by
  unfold arguments
  refine kept_loop (fun state => ∀ node ∈ state.1, invariant.tree context node)
    ?_ fuel (by simp)
  rintro ⟨nodes, expands⟩ all
  refine kept_current.bind fun lexeme _ => ?_
  refine kept_advanceIf.bind fun _ _ => ?_
  refine (kept_argument hub context indent).bind fun result built => ?_
  obtain ⟨node, more⟩ := result
  have grown := all_append all built
  refine Keeps.returns ?_
  split <;> exact grown

theorem kept_expressions {nodes : List Tree} (all : ∀ node ∈ nodes, invariant.tree context node) :
    invariant.Kept context (expressions nested fuel nodes)
      fun nodes => ∀ node ∈ nodes, invariant.tree context node := by
  unfold expressions
  refine kept_loop (fun nodes => ∀ node ∈ nodes, invariant.tree context node)
    ?_ fuel all
  intro nodes all
  refine (hub.expression context).bind fun node built => ?_
  have grown := all_append all built
  refine kept_current.bind fun lexeme _ => ?_
  split
  · exact Keeps.returns grown
  · exact kept_advance.bind fun _ _ => Keeps.returns grown

theorem kept_options :
    invariant.Kept context (options nested fuel)
      fun condition => ∀ node ∈ condition, invariant.tree context node := by
  unfold options
  refine kept_current.bind fun lexeme _ => ?_
  split
  · exact Keeps.returns (by simp)
  · split
    · exact kept_advance.bind fun _ _ => Keeps.returns (by simp)
    · refine (kept_expressions hub context fuel (by simp)).bind fun nodes built => ?_
      refine kept_current.bind fun lexeme _ => ?_
      refine kept_ensure.bind fun _ _ => ?_
      refine kept_advanceIf.bind fun _ _ => ?_
      refine Keeps.returns ?_
      rintro _ ⟨⟩
      exact invariant.operate _ built

theorem kept_lines (indent : Nat) :
    invariant.Kept context (lines nested fuel indent)
      fun nodes => ∀ node ∈ nodes, invariant.tree context node := by
  unfold lines
  refine kept_loop (fun nodes => ∀ node ∈ nodes, invariant.tree context node)
    ?_ fuel (by simp)
  intro nodes all
  refine (kept_expressions hub context fuel all).bind fun nodes built => ?_
  refine kept_current.bind fun _ _ => Keeps.returns ?_
  split <;> exact built

theorem kept_body (indent : Nat) :
    invariant.Kept context (body nested fuel indent) (invariant.tree context) := by
  unfold body
  refine kept_current.bind fun lexeme _ => ?_
  split
  · exact hub.expression context
  · split
    · exact Keeps.returns (invariant.operate _ (by simp))
    · refine (kept_lines hub context fuel lexeme.indent).bind fun nodes built => ?_
      refine kept_current.bind fun _ _ => ?_
      exact kept_ensure.bind fun _ _ => Keeps.returns (invariant.operate _ built)

theorem kept_call {target : Tree} (built : invariant.tree context target) (indent : Nat)
    (right : Token) :
    invariant.Kept context (call nested fuel target indent right)
      (invariant.tree context) := by
  unfold call
  refine kept_any.bind fun some_ _ => ?_
  refine (kept_optional (kept_arguments hub context fuel indent) (by simp)).bind
    fun result all => ?_
  obtain ⟨nodes, expands⟩ := result
  refine kept_close.bind fun _ _ => Keeps.returns ?_
  exact invariant.operate _ (List.forall_mem_cons.mpr ⟨built, all⟩)

theorem kept_symbol (assignable : Bool) (outer : Nat) (name : String) :
    invariant.Kept context (symbol nested assignable outer name) (invariant.tree context) := by
  unfold symbol
  refine kept_advance.bind fun _ _ => ?_
  refine Keeps.reads fun state holds => ?_
  refine (?_ : invariant.Kept context _ _) state holds
  refine kept_current.bind fun lexeme _ => ?_
  split
  · refine kept_ensure.bind fun _ _ => ?_
    refine kept_ensure.bind fun _ _ => ?_
    refine kept_advance.bind fun _ _ => ?_
    refine (kept_touch fun scope => ?_).bind fun _ _ => ?_
    · split
      · exact .share scope name
      · exact .variable_ scope name
    · refine (hub.expression context).bind fun node built => ?_
      exact Keeps.returns (invariant.scopePut outer name built)
  · refine (kept_touch fun scope => ?_).bind fun _ _ => ?_
    · split
      · exact .unresolve scope name
      · exact .reference scope name
    · exact Keeps.returns (invariant.symbolGet ..)

theorem kept_self (assignable : Bool) (outer : Nat) (marks : List Char) :
    invariant.Kept context (Parser.self nested assignable outer marks) (invariant.tree context) := by
  have marked : ∀ (marks : List Char) (target : Tree), invariant.tree context target →
      invariant.tree context (marks.foldl (fun target mark =>
        .operate (if mark = '@' then .class_ else .super) [target]) target) := by
    intro marks
    induction marks with
    | nil => exact fun _ built => built
    | cons mark marks ih =>
      exact fun target built => ih _ (invariant.operate _ (by simpa using built))
  have target := marked marks _ (invariant.self context outer)
  unfold Parser.self
  refine Keeps.reads fun state holds => ?_
  refine (?_ : invariant.Kept context _ _) state holds
  refine kept_ensure.bind fun _ _ => ?_
  refine (kept_touch fun scope => .selfShared scope _).bind fun _ _ => ?_
  refine kept_advance.bind fun _ _ => ?_
  refine kept_current.bind fun lexeme _ => ?_
  split
  · refine kept_advance.bind fun _ _ => ?_
    refine (kept_assigned hub context assignable).bind fun value built => ?_
    split
    · exact Keeps.returns (invariant.operate _ (by simpa [target] using built))
    · exact Keeps.returns (invariant.operate _ (by simpa using target))
  · exact Keeps.returns target

theorem kept_name (assignable : Bool) (outer : Nat) :
    invariant.Kept context (name nested assignable outer) (invariant.tree context) := by
  unfold name
  refine kept_current.bind fun lexeme _ => ?_
  split
  · exact kept_symbol hub context assignable outer _
  · exact kept_self hub context assignable outer _
  · exact kept_fail

def Headed (invariant : Invariant) (context : invariant.Context)
    (header : Scope × List String × List Tree × Bool) : Prop :=
  header.1 = parameterized header.2.1 ∧
    header.2.2.1.length + header.2.2.2.toNat ≤ header.2.1.length ∧
    ∀ node ∈ header.2.2.1, invariant.tree context node

theorem kept_default {defaults : List Tree}
    (all : ∀ node ∈ defaults, invariant.tree context node) :
    invariant.Kept context (default nested defaults) fun after =>
      after.length ≤ defaults.length + 1 ∧ ∀ node ∈ after, invariant.tree context node := by
  unfold Parser.default
  refine kept_current.bind fun lexeme _ => ?_
  split
  · refine kept_advance.bind fun _ _ => ?_
    refine (hub.expression context).bind fun node built => ?_
    exact Keeps.returns ⟨by simp, all_append all built⟩
  · exact kept_ensure.bind fun _ _ => Keeps.returns ⟨by omega, all⟩

theorem kept_parameters :
    invariant.Kept context (parameters nested fuel) (Headed invariant context) := by
  unfold parameters
  refine kept_loop (fun state => Headed invariant context (state.1, state.2.1, state.2.2, false))
    ?_ fuel ⟨rfl, by simp, by simp⟩
  rintro ⟨scope, names, defaults⟩ ⟨shape, fewer, all⟩
  simp only [Bool.toNat_false, Nat.add_zero] at shape fewer all
  have next : ∀ name, scope.parameter name = parameterized (names ++ [name]) := by
    intro name
    rw [shape, parameterized, parameterized, List.foldl_append, List.foldl_cons, List.foldl_nil]
  refine kept_current.bind fun lexeme _ => ?_
  split
  · rename_i name _
    refine kept_advance.bind fun _ _ => ?_
    refine (kept_default hub context all).bind fun defaults ⟨longer, all⟩ => ?_
    have headed : Headed invariant context
        (scope.parameter name, names ++ [name], defaults, false) := by
      refine ⟨next name, ?_, all⟩
      simp only [Bool.toNat_false, List.length_append, List.length_singleton]
      omega
    refine kept_current.bind fun lexeme _ => ?_
    split
    · exact Keeps.returns headed
    · split
      · exact kept_advance.bind fun _ _ => Keeps.returns headed
      · exact Keeps.returns headed
  · refine kept_advance.bind fun _ _ => ?_
    refine kept_current.bind fun lexeme _ => ?_
    split
    · rename_i name _
      refine kept_advance.bind fun _ _ => Keeps.returns ?_
      refine ⟨next name, ?_, all⟩
      simp only [Bool.toNat_true, List.length_append, List.length_singleton]
      omega
    · exact kept_fail
  · exact kept_fail

theorem kept_header :
    invariant.Kept context (header nested fuel) (Headed invariant context) := by
  have none : Headed invariant context (.empty, [], [], false) := ⟨rfl, by simp, by simp⟩
  unfold header
  refine kept_current.bind fun lexeme _ => ?_
  split
  · exact Keeps.returns none
  · refine kept_advance.bind fun _ _ => ?_
    refine kept_current.bind fun lexeme _ => ?_
    refine (kept_optional (kept_parameters hub context fuel) none).bind fun header headed => ?_
    refine kept_current.bind fun _ _ => ?_
    refine kept_ensure.bind fun _ _ => ?_
    exact kept_advance.bind fun _ _ => Keeps.returns headed

theorem kept_lambda :
    invariant.Kept context (Parser.lambda nested fuel) (invariant.tree context) := by
  unfold Parser.lambda
  refine kept_current.bind fun lexeme _ => ?_
  refine kept_advance.bind fun _ _ => ?_
  refine (kept_header hub context fuel).bind fun header headed => ?_
  obtain ⟨scope, parameters, defaults, variadic⟩ := header
  obtain ⟨shape, fewer, all⟩ := headed
  simp only at shape fewer all
  subst shape
  refine (kept_touch fun scope => .isShared scope).bind fun _ _ => ?_
  refine Keeps.reads fun state holds => ?_
  refine Yields.sets ?_
  refine (kept_body hub _ fuel lexeme.indent _ (invariant.enterLambda parameters holds)).bind ?_
  rintro body after ⟨held, built⟩
  refine (invariant.leaveLambda parameters _ variadic holds held fewer).bind ?_
  intro scope final left
  exact ⟨left, invariant.lambda scope parameters variadic all built⟩

theorem kept_parenthesized (indent : Nat) :
    invariant.Kept context (parenthesized nested fuel indent)
      fun nodes => ∀ node ∈ nodes, invariant.tree context node := by
  unfold parenthesized
  refine kept_loop (fun nodes => ∀ node ∈ nodes, invariant.tree context node)
    ?_ fuel (by simp)
  intro nodes all
  refine (kept_argument hub context indent).bind fun result built => ?_
  obtain ⟨node, more⟩ := result
  have grown := all_append all built
  refine Keeps.returns ?_
  split <;> exact grown

theorem kept_pairs (indent : Nat) :
    invariant.Kept context (pairs nested fuel indent)
      fun nodes => ∀ node ∈ nodes, invariant.tree context node := by
  unfold pairs
  refine kept_loop (fun nodes => ∀ node ∈ nodes, invariant.tree context node)
    ?_ fuel (by simp)
  intro nodes all
  refine (hub.expression context).bind fun key first => ?_
  refine kept_current.bind fun _ _ => ?_
  refine kept_ensure.bind fun _ _ => ?_
  refine kept_advance.bind fun _ _ => ?_
  refine (hub.expression context).bind fun value second => ?_
  have grown : ∀ node ∈ nodes ++ [key, value], invariant.tree context node := by
    rw [List.append_cons]
    exact all_append (all_append all first) second
  refine kept_current.bind fun lexeme _ => ?_
  split
  · split
    · exact Keeps.returns grown
    · exact kept_advance.bind fun _ _ => Keeps.returns grown
  · refine Keeps.returns ?_
    split <;> exact grown

theorem kept_quoted :
    invariant.Kept context (quoted nested fuel) (invariant.tree context) := by
  unfold quoted
  refine kept_advance.bind fun _ _ => ?_
  refine kept_current.bind fun lexeme _ => ?_
  split
  · exact kept_advance.bind fun _ _ => Keeps.returns (invariant.literal ..)
  · exact kept_advance.bind fun _ _ => kept_call hub context fuel (invariant.literal ..) _ _
  · exact kept_fail

omit hub in
theorem kept_hasExpression : invariant.Kept context hasExpression fun _ => True :=
  kept_current.bind fun _ _ => Keeps.returns trivial

theorem kept_operand :
    invariant.Kept context (operand nested) (invariant.tree context) := by
  unfold operand
  refine (kept_hasExpression context).bind fun some_ _ => ?_
  exact kept_optional (hub.expression context) (invariant.literal ..)

omit hub in
theorem kept_literal (value : Tree.Literal) :
    invariant.Kept context (Parser.literal value) (invariant.tree context) :=
  kept_advance.bind fun _ _ => Keeps.returns (invariant.literal context value)

theorem kept_target (assignable : Bool) :
    invariant.Kept context (target nested fuel assignable) (invariant.tree context) := by
  unfold target
  refine kept_current.bind fun lexeme _ => ?_
  generalize lexeme.token = token
  cases token with
  | colon outer =>
    refine Keeps.reads fun state holds => ?_
    refine (?_ : invariant.Kept context _ _) state holds
    refine kept_ensure.bind fun _ _ => ?_
    exact kept_advance.bind fun _ _ => kept_name hub context assignable outer
  | symbol value => exact kept_name hub context assignable 0
  | self value => exact kept_name hub context assignable 0
  | apostrophe => exact kept_quoted hub context fuel
  | leftParenthesis =>
    refine kept_advance.bind fun _ _ => ?_
    refine kept_any.bind fun some_ _ => ?_
    refine (kept_optional (kept_parenthesized hub context fuel lexeme.indent) (by simp)).bind
      fun nodes built => ?_
    exact kept_close.bind fun _ _ => Keeps.returns (invariant.operate _ built)
  | atmark => exact kept_lambda hub context fuel
  | leftBracket =>
    exact kept_advance.bind fun _ _ => kept_call hub context fuel (invariant.literal ..) _ _
  | leftBrace =>
    refine kept_advance.bind fun _ _ => ?_
    refine kept_any.bind fun some_ _ => ?_
    refine (kept_optional (kept_pairs hub context fuel lexeme.indent) (by simp)).bind
      fun nodes built => ?_
    refine kept_close.bind fun _ _ => Keeps.returns (invariant.operate _ ?_)
    exact List.forall_mem_cons.mpr ⟨invariant.literal .., built⟩
  | null => exact kept_literal context _
  | true_ => exact kept_literal context _
  | false_ => exact kept_literal context _
  | integer value => exact kept_literal context _
  | float value => exact kept_literal context _
  | string value => exact kept_literal context _
  | break_ =>
    refine Keeps.reads fun state holds => ?_
    refine (kept_ensure state holds).bind fun _ after ⟨held, met⟩ => ?_
    refine (?_ : invariant.Kept context _ _) after held
    refine kept_advance.bind fun _ _ => ?_
    refine (kept_operand hub context).bind fun node built => ?_
    exact Keeps.returns (invariant.break_ holds met built)
  | continue_ =>
    refine Keeps.reads fun state holds => ?_
    refine (kept_ensure state holds).bind fun _ after ⟨held, met⟩ => ?_
    refine (?_ : invariant.Kept context _ _) after held
    exact kept_advance.bind fun _ _ => Keeps.returns (invariant.continue_ holds met)
  | return_ =>
    refine Keeps.reads fun state holds => ?_
    refine (kept_ensure state holds).bind fun _ after ⟨held, met⟩ => ?_
    refine (?_ : invariant.Kept context _ _) after held
    refine kept_advance.bind fun _ _ => ?_
    refine (kept_operand hub context).bind fun node built => ?_
    exact Keeps.returns (invariant.return_ holds met built)
  | throw_ =>
    refine kept_advance.bind fun _ _ => ?_
    refine (hub.expression context).bind fun node built => ?_
    exact Keeps.returns (invariant.operate _ (by simpa using built))
  | _ => exact kept_fail

omit hub in
theorem tree_operate {target : Tree} {operands : List Tree} {operation : Tree.Operation}
    (built : invariant.tree context target)
    (others : ∀ node ∈ operands, invariant.tree context node) :
    invariant.tree context (.operate operation (target :: operands)) :=
  invariant.operate operation (List.forall_mem_cons.mpr ⟨built, others⟩)

theorem kept_member (assignable : Bool) {target : Tree} (built : invariant.tree context target) :
    invariant.Kept context (member nested assignable target)
      (Sum.elim (invariant.tree context) (invariant.tree context)) := by
  unfold member
  refine kept_current.bind fun lexeme _ => ?_
  generalize lexeme.token = token
  cases token with
  | leftParenthesis =>
    refine kept_advance.bind fun _ _ => ?_
    refine (hub.expression context).bind fun key first => ?_
    refine kept_close.bind fun _ _ => ?_
    refine (kept_assigned hub context assignable).bind fun value second => ?_
    split
    · exact Keeps.returns (tree_operate context built (by simpa [first] using second))
    · exact Keeps.returns (tree_operate context built (by simpa using first))
  | symbol key =>
    refine kept_advance.bind fun _ _ => ?_
    refine (kept_assigned hub context assignable).bind fun value second => ?_
    split
    · exact Keeps.returns (tree_operate context built (by simpa using second))
    · exact Keeps.returns (tree_operate context built (by simp))
  | atmark =>
    exact kept_advance.bind fun _ _ => Keeps.returns (tree_operate context built (by simp))
  | hat =>
    exact kept_advance.bind fun _ _ => Keeps.returns (tree_operate context built (by simp))
  | question =>
    refine kept_advance.bind fun _ _ => ?_
    refine kept_current.bind fun lexeme _ => ?_
    generalize lexeme.token = token
    cases token with
    | leftParenthesis =>
      refine kept_advance.bind fun _ _ => ?_
      refine (hub.expression context).bind fun key first => ?_
      refine kept_close.bind fun _ _ => ?_
      exact Keeps.returns (tree_operate context built (by simpa using first))
    | symbol key =>
      exact kept_advance.bind fun _ _ => Keeps.returns (tree_operate context built (by simp))
    | _ => exact kept_fail
  | _ => exact kept_fail

theorem kept_action (indent : Nat) (assignable : Bool) {target : Tree}
    (built : invariant.tree context target) :
    invariant.Kept context (action nested fuel indent assignable target)
      (invariant.tree context) := by
  unfold action
  refine kept_loop (invariant.tree context) ?_ fuel built
  intro target built
  refine kept_current.bind fun lexeme _ => ?_
  split
  · exact Keeps.returns built
  · generalize lexeme.token = token
    cases token with
    | leftParenthesis =>
      refine kept_advance.bind fun _ _ => ?_
      exact (kept_call hub context fuel built _ _).bind fun _ built => Keeps.returns built
    | dot => exact kept_advance.bind fun _ _ => kept_member hub context assignable built
    | leftBracket =>
      refine kept_advance.bind fun _ _ => ?_
      refine (hub.expression context).bind fun index first => ?_
      refine kept_close.bind fun _ _ => ?_
      refine (kept_assigned hub context assignable).bind fun value second => ?_
      split
      · exact Keeps.returns (tree_operate context built (by simpa [first] using second))
      · exact Keeps.returns (tree_operate context built (by simpa using first))
    | _ => exact Keeps.returns built

theorem kept_unary (assignable : Bool) :
    invariant.Kept context (unary nested fuel assignable) (invariant.tree context) := by
  unfold unary
  refine kept_current.bind fun lexeme _ => ?_
  cases unaryOf lexeme.token with
  | none =>
    refine (kept_target hub context fuel assignable).bind fun target built => ?_
    exact kept_action hub context fuel _ assignable built
  | some instruction =>
    refine kept_advance.bind fun _ _ => ?_
    refine kept_current.bind fun lexeme _ => ?_
    cases signed instruction lexeme.token with
    | some value =>
      refine kept_advance.bind fun _ _ => ?_
      exact kept_action hub context fuel _ assignable (invariant.literal ..)
    | none =>
      refine (hub.unary context).bind fun node built => ?_
      exact Keeps.returns (invariant.operate _ (by simpa using built))

omit hub in
theorem kept_level {operator : Token → Option (Tree → Tree → Tree)}
    {operand : Bool → Parser Tree} (assignable : Bool)
    (builds : ∀ token build, operator token = some build → ∀ left right,
      invariant.tree context left → invariant.tree context right →
      invariant.tree context (build left right))
    (operands : ∀ assignable,
      invariant.Kept context (operand assignable) (invariant.tree context)) :
    invariant.Kept context (level fuel operator operand assignable)
      (invariant.tree context) := by
  unfold level
  refine (operands assignable).bind fun node built => ?_
  refine kept_loop (invariant.tree context) ?_ fuel built
  intro node built
  refine kept_current.bind fun lexeme _ => ?_
  split
  · exact Keeps.returns built
  · cases found : operator lexeme.token with
    | none => exact Keeps.returns built
    | some build =>
      refine kept_advance.bind fun _ _ => ?_
      refine (operands false).bind fun right second => ?_
      exact Keeps.returns (builds _ build found _ _ built second)

omit hub in
theorem kept_binary {instruction : Token → Option Binary} {operand : Bool → Parser Tree}
    (operands : ∀ assignable,
      invariant.Kept context (operand assignable) (invariant.tree context))
    (assignable : Bool) :
    invariant.Kept context (binary fuel instruction operand assignable)
      (invariant.tree context) := by
  refine kept_level context fuel assignable ?_ operands
  intro token build found left right first second
  obtain ⟨instruction, _, rfl⟩ := Option.map_eq_some_iff.mp found
  exact tree_operate context first (by simpa using second)

theorem kept_or (assignable : Bool) :
    invariant.Kept context (or nested fuel assignable) (invariant.tree context) := by
  iterate 8 refine kept_binary context fuel (fun assignable => ?_) assignable
  exact kept_unary hub context fuel assignable

theorem kept_orElse (assignable : Bool) :
    invariant.Kept context (orElse nested fuel assignable) (invariant.tree context) := by
  refine kept_level context fuel assignable ?_ fun assignable =>
    kept_level context fuel assignable ?_ (kept_or hub context fuel)
  · intro token build found left right first second
    split at found
    · obtain rfl := Option.some.inj found
      exact invariant.if_ (by simpa using first) (invariant.preserve context) second
    · exact absurd found (by simp)
  · intro token build found left right first second
    split at found
    · obtain rfl := Option.some.inj found
      exact invariant.if_ (by simpa using first) second (invariant.preserve context)
    · exact absurd found (by simp)

theorem kept_conditional (assignable : Bool) :
    invariant.Kept context (conditional nested fuel assignable) (invariant.tree context) := by
  unfold conditional
  refine (kept_orElse hub context fuel assignable).bind fun node built => ?_
  refine kept_current.bind fun lexeme _ => ?_
  split
  · exact Keeps.returns built
  · refine kept_advance.bind fun _ _ => ?_
    refine (hub.conditional context).bind fun true_ first => ?_
    refine kept_current.bind fun _ _ => ?_
    refine kept_ensure.bind fun _ _ => ?_
    refine kept_advance.bind fun _ _ => ?_
    refine (hub.conditional context).bind fun false_ second => ?_
    exact Keeps.returns (invariant.if_ (by simpa using built) first second)

theorem kept_ifThen :
    invariant.Kept context (ifThen nested fuel) (invariant.tree context) := by
  unfold ifThen
  refine kept_current.bind fun lexeme _ => ?_
  refine kept_advance.bind fun _ _ => ?_
  refine (kept_options hub context fuel).bind fun condition built => ?_
  refine (kept_body hub context fuel lexeme.indent).bind fun true_ first => ?_
  refine kept_current.bind fun after _ => ?_
  split
  · refine kept_advance.bind fun _ _ => ?_
    refine (kept_body hub context fuel lexeme.indent).bind fun false_ second => ?_
    exact Keeps.returns (invariant.if_ built first second)
  · exact Keeps.returns (invariant.if_ built first (invariant.literal ..))

theorem kept_looped (indent : Nat) :
    invariant.Kept context (looped nested fuel indent)
      (invariant.tree (invariant.inLoop context)) := by
  unfold looped
  refine Keeps.reads fun state holds => ?_
  refine Yields.modifies ?_
  refine (kept_body hub _ fuel indent _ (invariant.enterLoop holds)).bind ?_
  rintro body after ⟨held, built⟩
  exact ⟨invariant.leaveLoop holds held, built⟩

theorem kept_while :
    invariant.Kept context (Parser.while_ nested fuel) (invariant.tree context) := by
  unfold Parser.while_
  refine kept_current.bind fun lexeme _ => ?_
  refine kept_advance.bind fun _ _ => ?_
  refine Keeps.reads fun state holds => ?_
  refine (kept_options hub _ fuel _ (invariant.mark holds)).bind ?_
  rintro condition middle ⟨marked, first⟩
  refine (kept_looped hub _ fuel lexeme.indent _ marked).bind ?_
  rintro body after ⟨held, second⟩
  refine (invariant.varies holds held).bind fun _ final left => ?_
  exact ⟨left, invariant.while_ state first second⟩

theorem kept_for :
    invariant.Kept context (Parser.for_ nested fuel) (invariant.tree context) := by
  unfold Parser.for_
  refine kept_current.bind fun lexeme _ => ?_
  refine kept_advance.bind fun _ _ => ?_
  refine (kept_options hub context fuel).bind fun initialization before => ?_
  refine Keeps.reads fun state holds => ?_
  refine (kept_options hub _ fuel _ (invariant.mark holds)).bind ?_
  rintro condition middle ⟨marked, first⟩
  refine (kept_options hub _ fuel _ marked).bind ?_
  rintro next middle ⟨marked, second⟩
  refine (kept_looped hub _ fuel lexeme.indent _ marked).bind ?_
  rintro body after ⟨held, third⟩
  refine (invariant.varies holds held).bind fun _ final left => ?_
  exact ⟨left, invariant.for_ state before first second third⟩

theorem kept_catches (indent : Nat) :
    invariant.Kept context (catches nested fuel indent) fun clauses =>
      ∀ clause ∈ clauses, invariant.tree context clause.1 ∧ invariant.tree context clause.2.2 := by
  unfold catches
  refine kept_loop (fun clauses => ∀ clause ∈ clauses,
    invariant.tree context clause.1 ∧ invariant.tree context clause.2.2) ?_ fuel (by simp)
  intro clauses all
  refine kept_current.bind fun lexeme _ => ?_
  split
  · exact Keeps.returns all
  · refine kept_advance.bind fun _ _ => ?_
    refine (hub.expression context).bind fun expression first => ?_
    refine kept_current.bind fun lexeme _ => ?_
    split
    · rename_i name _
      refine kept_advance.bind fun _ _ => ?_
      refine (kept_touch fun scope => .variable_ scope name).bind fun _ _ => ?_
      refine (kept_body hub context fuel indent).bind fun body second => ?_
      refine Keeps.returns fun clause member => ?_
      rcases List.mem_append.mp member with earlier | single
      · exact all clause earlier
      · obtain rfl := List.mem_singleton.mp single
        exact ⟨first, second⟩
    · exact kept_fail

theorem kept_try :
    invariant.Kept context (Parser.try_ nested fuel) (invariant.tree context) := by
  unfold Parser.try_
  refine kept_current.bind fun lexeme _ => ?_
  refine kept_advance.bind fun _ _ => ?_
  refine (kept_body hub context fuel lexeme.indent).bind fun tried first => ?_
  refine (kept_catches hub context fuel lexeme.indent).bind fun clauses second => ?_
  refine kept_current.bind fun after _ => ?_
  split
  · refine kept_advance.bind fun _ _ => ?_
    refine Keeps.reads fun state holds => ?_
    refine Yields.modifies ?_
    refine (kept_body hub _ fuel lexeme.indent _ (invariant.enterFinally holds)).bind ?_
    rintro finally_ after ⟨held, third⟩
    exact ⟨invariant.leaveFinally holds held,
      invariant.try_ first second (by simpa using third)⟩
  · refine kept_ensure.bind fun _ _ => ?_
    exact Keeps.returns (invariant.try_ first second (by simp))

theorem kept_expression :
    invariant.Kept context (expression nested fuel) (invariant.tree context) := by
  unfold expression
  refine kept_current.bind fun lexeme _ => ?_
  split
  · exact kept_ifThen hub context fuel
  · exact kept_while hub context fuel
  · exact kept_for hub context fuel
  · exact kept_try hub context fuel
  · exact kept_conditional hub context fuel true

end

theorem hub (invariant : Invariant) (fuel : Nat) : invariant.Hub (nested fuel) := by
  induction fuel with
  | zero =>
    exact ⟨fun _ => Keeps.throws invariant.exhausted, fun _ => Keeps.throws invariant.exhausted,
      fun _ => Keeps.throws invariant.exhausted⟩
  | succ fuel ih =>
    exact ⟨fun context => kept_expression ih context fuel,
      fun context => kept_unary ih context fuel false,
      fun context => kept_conditional ih context fuel false⟩

theorem kept_module (invariant : Invariant) (context : invariant.Context) (fuel : Nat) :
    invariant.Kept context (module_ fuel)
      fun nodes => ∀ node ∈ nodes, invariant.tree context node := by
  unfold module_
  refine kept_current.bind fun first _ => ?_
  split
  · exact Keeps.returns (by simp)
  · refine kept_loop (fun nodes => ∀ node ∈ nodes, invariant.tree context node)
      ?_ fuel (by simp)
    intro nodes all
    refine (kept_expressions (invariant.hub fuel) context fuel all).bind fun nodes built => ?_
    refine kept_current.bind fun lexeme _ => ?_
    split
    · exact Keeps.returns built
    · refine kept_ensure.bind fun _ _ => ?_
      exact kept_ensure.bind fun _ _ => Keeps.returns built

end Invariant

end Xemmai.Parser
