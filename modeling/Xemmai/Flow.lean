import Xemmai.Ast
import Xemmai.Worklist

/-!
# Flow analysis

`f_flow` draws the graph of basic blocks of a scope, each with the first access
to every private variable in it. `t_scope::f_analyze` then carries forward which
variables may have been mentioned, and backward which may still be read before
they are assigned. A private variable is named by its slot; an argument is
initialised by the call and is left out, as it is in the source.
-/

namespace Xemmai

set_option autoImplicit false

/-- `t_block`, with one `t_private` for each slot. -/
structure Block where
  forward : Bool
  backward : Bool
  in_ : Nat → Bool
  out : Nat → Bool
  define : Nat → Bool
  use : Nat → Bool

namespace Block

def empty : Block where
  forward := false
  backward := false
  in_ _ := false
  out _ := false
  define _ := false
  use _ := false

/-- `t_block::f_use`: only the first access counts. -/
def access (slot : Nat) (put : Bool) (block : Block) : Block :=
  if block.out slot then block
  else
    { block with
      out := Function.update block.out slot true
      define := Function.update block.define slot put
      use := Function.update block.use slot !put }

/-- `t_block::f_forward` of `block` with the privates of `source`. -/
def propagateForward (locals : List Nat) : Worklist.Transfer Block := fun source block =>
  let arrives slot := locals.contains slot && source.out slot && !block.in_ slot
  (!block.forward || locals.any arrives,
    { block with
      forward := true
      in_ := fun slot => block.in_ slot || arrives slot
      out := fun slot => block.out slot || arrives slot })

/-- `t_block::f_backward` of `block` with the privates of `source`. -/
def propagateBackward (locals : List Nat) : Worklist.Transfer Block := fun source block =>
  let arrives slot :=
    locals.contains slot && source.use slot && !block.define slot && !block.use slot
  (!block.backward || locals.any arrives,
    { block with
      backward := true
      use := fun slot => block.use slot || arrives slot })

end Block

/-- The blocks drawn so far with their `f_next` edges, and `v_current`. -/
structure Flow where
  blocks : Nat → Block
  edges : List (Nat × Nat)
  current : Nat

/-- `t_flow::t_targets` -/
structure Targets where
  break_ : Option Nat
  continue_ : Option Nat
  return_ : Option Nat

namespace Flow

def access (slot : Nat) (put : Bool) (flow : Flow) : Flow :=
  { flow with
    blocks := Function.update flow.blocks flow.current
      ((flow.blocks flow.current).access slot put) }

/-- `t_block::f_next` -/
def link (source target : Nat) (flow : Flow) : Flow :=
  { flow with edges := flow.edges ++ [(source, target)] }

def next (target : Nat) (flow : Flow) : Flow := flow.link flow.current target

def enter (block : Nat) (flow : Flow) : Flow := { flow with current := block }

def jump (target : Option Nat) (flow : Flow) : Flow :=
  match target with
  | some block => flow.next block
  | none => flow

end Flow

namespace Layout

variable (layout : Layout)

def locals : List Nat := List.range' layout.arguments (layout.privates - layout.arguments)

def slot (variable_ : Nat) : Option Nat :=
  let found := layout.variableOf variable_
  if !found.isShared && decide (layout.arguments ≤ found.index) then some found.index else none

end Layout

theorem Layout.slot_eq_some {layout : Layout} {variable_ slot : Nat}
    (named : layout.slot variable_ = some slot) :
    (layout.variableOf variable_).isShared = false ∧
      (layout.variableOf variable_).index = slot ∧ layout.arguments ≤ slot := by
  unfold Layout.slot at named
  dsimp only at named
  split at named
  · next follows =>
      simp only [Bool.and_eq_true, Bool.not_eq_true', decide_eq_true_eq] at follows
      obtain rfl := Option.some.inj named
      exact ⟨follows.1, rfl, follows.2⟩
  · exact absurd named (by simp)

theorem Layout.slot_local {layout : Layout} {variable_ slot : Nat}
    (named : layout.slot variable_ = some slot) :
    slot ∈ layout.locals := by
  obtain ⟨isPrivate, rfl, above⟩ := Layout.slot_eq_some named
  have below := layout.bounded variable_ isPrivate
  simp only [Layout.locals, List.mem_range'_1]
  omega


section

variable {F O : Type} (layout : Layout)

/-- The access of a `t_symbol_get`, a `t_scope_put` or a catch clause. -/
def Flow.mention (variable_ : Nat) (put : Bool) (flow : Flow) : Flow :=
  match layout.slot variable_ with
  | some slot => flow.access slot put
  | none => flow

mutual

/-- `f_flow`; `base` is the number of the first block the node owns. -/
def Node.flow (targets : Targets) (base : Nat) : Node F O → Flow → Flow
  | .nodes items, flow => items.flow targets base flow
  | .operate _ operands, flow => operands.flow targets base flow
  | .if_ condition true_ false_, flow =>
      let blockTrue := base + condition.blocks
      let blockFalse := blockTrue + 1 + true_.blocks
      let junction := blockFalse + 1 + false_.blocks
      let blockExit := junction + 1
      let flow := condition.flow targets base flow
      let flow := (flow.next blockTrue).next blockFalse
      let flow := true_.flow targets (blockTrue + 1) (flow.enter blockTrue)
      let flow := flow.next junction
      let flow := false_.flow targets (blockFalse + 1) (flow.enter blockFalse)
      let flow := flow.next junction
      (flow.link junction blockExit).enter blockExit
  | .while_ condition body, flow =>
      let junctionCondition := base
      let blockCondition := junctionCondition + 1
      let blockBody := blockCondition + 1 + condition.blocks
      let junctionExit := blockBody + 1 + body.blocks
      let blockExit := junctionExit + 1
      let flow := (flow.next junctionCondition).link junctionCondition blockCondition
      let flow := condition.flow targets (blockCondition + 1) (flow.enter blockCondition)
      let flow := (flow.next blockBody).next junctionExit
      let targets1 := ⟨some junctionExit, some junctionCondition, targets.return_⟩
      let flow := body.flow targets1 (blockBody + 1) (flow.enter blockBody)
      let flow := flow.next junctionCondition
      (flow.link junctionExit blockExit).enter blockExit
  | .for_ initialization condition next body, flow =>
      let junctionCondition := base + initialization.blocks
      let blockCondition := junctionCondition + 1
      let blockBody := blockCondition + 1 + condition.blocks
      let junctionNext := blockBody + 1 + body.blocks
      let blockNext := junctionNext + 1
      let junctionExit := blockNext + 1 + next.blocks
      let blockExit := junctionExit + 1
      let flow := initialization.flow targets base flow
      let flow := (flow.next junctionCondition).link junctionCondition blockCondition
      let flow := condition.flow targets (blockCondition + 1) (flow.enter blockCondition)
      let flow := (flow.next blockBody).next junctionExit
      let targets1 := ⟨some junctionExit, some junctionNext, targets.return_⟩
      let flow := body.flow targets1 (blockBody + 1) (flow.enter blockBody)
      let flow := (flow.next junctionNext).link junctionNext blockNext
      let flow := next.flow targets (blockNext + 1) (flow.enter blockNext)
      let flow := flow.next junctionCondition
      (flow.link junctionExit blockExit).enter blockExit
  | .break_ expression, flow => (expression.flow targets base flow).jump targets.break_
  | .continue_, flow => flow.jump targets.continue_
  | .return_ expression, flow => (expression.flow targets base flow).jump targets.return_
  | .try_ body catches finally_, flow =>
      let junctionTry := base
      let blockTry := junctionTry + 1
      let junctionFinally := blockTry + 1 + body.blocks + catches.blocks
      let blockFinally := junctionFinally + 1
      let blockExit := blockFinally + 1 + finally_.blocks
      let flow := (flow.next junctionTry).link junctionTry junctionFinally
      let flow := flow.link junctionTry blockTry
      let targets1 := ⟨some junctionFinally, some junctionFinally, some junctionFinally⟩
      let flow := body.flow targets1 (blockTry + 1) (flow.enter blockTry)
      let flow := flow.next junctionFinally
      let flow := catches.flow targets1 junctionFinally (blockTry + 1 + body.blocks) flow
      let flow := (flow.link junctionFinally junctionTry).link junctionFinally blockFinally
      let flow := finally_.flow ⟨none, none, none⟩ (blockFinally + 1) (flow.enter blockFinally)
      let flow := (flow.next blockExit).jump targets.break_
      let flow := (flow.jump targets.continue_).jump targets.return_
      flow.enter blockExit
  | .throw_ expression, flow => expression.flow targets base flow
  | .symbolGet _ none _, flow => flow
  | .symbolGet _ (some variable_) _, flow => flow.mention layout variable_ false
  | .scopePut _ variable_ value, flow =>
      (value.flow targets base flow).mention layout variable_ true
  | .self _, flow => flow
  | .literal _, flow => flow
  | .unary _ expression, flow => expression.flow targets base flow
  | .binary _ left right, flow =>
      right.flow targets (base + left.blocks) (left.flow targets base flow)
  | .preserve, flow => flow
  | .call target arguments _, flow =>
      arguments.flow targets (base + target.blocks) (target.flow targets base flow)

def Nodes.flow (targets : Targets) (base : Nat) : Nodes F O → Flow → Flow
  | .nil, flow => flow
  | .cons head tail, flow =>
      tail.flow targets (base + head.blocks) (head.flow targets base flow)

/-- The catch clauses of `t_try::f_flow`: what follows the expression of a
clause is its body and the next clause. -/
def Catches.flow (targets : Targets) (junctionFinally base : Nat) : Catches F O → Flow → Flow
  | .nil, flow => flow
  | .cons expression variable_ body tail, flow =>
      let blockExpression := base
      let blockBody := blockExpression + 1 + expression.blocks
      let flow := (flow.next blockExpression).enter blockExpression
      let flow := expression.flow targets (blockExpression + 1) flow
      let block := flow.current
      let flow := ((flow.next blockBody).enter blockBody).mention layout variable_ true
      let flow := body.flow targets (blockBody + 1) flow
      let flow := (flow.next junctionFinally).enter block
      tail.flow targets junctionFinally (blockBody + 1 + body.blocks) flow

def Optional.flow (targets : Targets) (base : Nat) : Optional F O → Flow → Flow
  | .none, flow => flow
  | .some node, flow => node.flow targets base flow

end

attribute [grind =] Node.flow Nodes.flow Catches.flow Optional.flow

/-- The graph that `t_scope::f_analyze` draws: block 0 is `v_block_body` and
block 1 is `v_junction`. -/
def Node.graph (body : Node F O) : Flow :=
  let flow := body.flow layout ⟨none, none, some 1⟩ 2 ⟨fun _ => .empty, [], 0⟩
  flow.next 1

def Flow.visits (flow : Flow) : Nat := flow.edges.length * (layout.locals.length + 1) + 1

def Flow.nexts (flow : Flow) (block : Nat) : List Nat :=
  (flow.edges.filter (·.1 == block)).map (·.2)

def Flow.previouses (flow : Flow) (block : Nat) : List Nat :=
  (flow.edges.filter (·.2 == block)).map (·.1)

/-- `t_scope::f_analyze`: the blocks with the final `v_in`, `v_out` and
`v_use`. -/
def Node.analyze (body : Node F O) : Nat → Block :=
  let flow := body.graph layout
  let visits := flow.visits layout
  let entered :=
    Function.update flow.blocks 0 (Block.propagateForward layout.locals .empty (flow.blocks 0)).2
  let forwarded :=
    Worklist.run (Block.propagateForward layout.locals) flow.nexts visits 0 (entered, [])
  Worklist.run (Block.propagateBackward layout.locals) flow.previouses visits 1 (forwarded, [])

end

end Xemmai
