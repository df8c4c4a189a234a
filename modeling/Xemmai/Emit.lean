import Xemmai.Flow
import Xemmai.Folding

/-!
# Emission

`f_emit` of every node, as a function from one state of `t_emit` to the next.
It has no result where the source ends in an exception or dereferences a null
target. An instruction names labels by number until `f_resolve` replaces them.

Three notes on instructions are for the statements about runs only: a null that
the emitter inserts is told from one that the program assigns, a callee slot
carries whether the emitter takes it as initialised, and a jump into code that
the analysis reaches by another way carries the slots concerned.
-/

namespace Xemmai

set_option autoImplicit false

/-- `t_code::t_try` -/
inductive Leave where
  | catch_
  | step
  | break_
  | continue_
  | return_
  | throw_
  deriving DecidableEq, Repr

/-- `METHOD_GET` and `METHOD_BIND` -/
inductive Binding where
  | methodGet (key : Nat)
  | methodBind
  deriving DecidableEq, Repr

def Binding.operands : Binding → Nat
  | .methodGet _ => 1
  | .methodBind => 2

/-- Where a call finds its callee: `CALL` and `CALL_WITH_EXPANSION`,
`STACK_CALL`, `SCOPE_CALL0` to `SCOPE_CALL2`. -/
inductive Callee where
  | stack
  | slot (index : Nat) (known : Bool)
  | scope (outer index : Nat)
  deriving DecidableEq, Repr

inductive Instr (F O : Type) where
  | jump (label : Nat) (exposed : List Nat)
  | branch (stack label : Nat)
  | try_ (stack catch_ finally_ : Nat) (exposed : List Nat)
  | catch_ (label : Nat) (isShared : Bool) (index : Nat)
  | finally_ (leave : Leave)
  | yrt (break_ continue_ return_ : Option Nat)
  | throw_ (stack : Nat)
  | operate (action : Action) (tail : Bool) (stack count : Nat)
  | bind (binding : Binding) (stack : Nat)
  | stackGet (stack index : Nat)
  | stackPut (stack index : Nat)
  | scopeGet (stack outer index : Nat)
  | scopePut (stack outer index : Nat)
  | self (stack : Nat)
  /-- `NUL`, `INTEGER`, `FLOAT` and `INSTANCE` -/
  | load (index : Nat) (value : Value F O)
  | insertNull (index : Nat)
  /-- `RETURN_NUL`, `RETURN_INTEGER`, `RETURN_FLOAT` and `RETURN_INSTANCE` -/
  | returnLoad (value : Value F O)
  | return_ (index : Nat)
  | unary (op : Unary) (operand : Operand F O) (tail : Bool) (stack : Nat)
  | binary (op : Binary) (left right : Operand F O) (tail : Bool) (stack : Nat)
  | call (callee : Callee) (tail : Bool) (stack count : Nat) (expands : List Nat)
  deriving DecidableEq, Repr

/-- `t_emit::f_resolve` at one instruction. -/
def Instr.resolve {F O : Type} (target : Nat → Nat) : Instr F O → Instr F O
  | .jump label exposed => .jump (target label) exposed
  | .branch stack label => .branch stack (target label)
  | .try_ stack catch0 finally0 exposed => .try_ stack (target catch0) (target finally0) exposed
  | .catch_ label isShared index => .catch_ (target label) isShared index
  | .yrt break0 continue0 return0 =>
      .yrt (break0.map target) (continue0.map target) (return0.map target)
  | instruction => instruction

/-- `t_emit::t_targets` without its labels; `exposed` is for a continue. -/
structure Exits where
  breakJunction : Nat
  breakStack : Nat
  breakIsTail : Bool
  breakMustClear : Bool
  continueJunction : Nat
  returnJunction : Nat
  returnStack : Nat
  returnIsTail : Bool
  exposed : List Nat

/-- `t_emit::t_targets` -/
structure Jumps extends Exits where
  break_ : Option Nat
  continue_ : Option Nat
  return_ : Option Nat

/-- The targets in a finally block. -/
def Exits.none : Exits where
  breakJunction := 0
  breakStack := 0
  breakIsTail := false
  breakMustClear := false
  continueJunction := 0
  returnJunction := 0
  returnStack := 0
  returnIsTail := false
  exposed := []

/-- `t_emit` with its code. `labels` have been made so far, and `targets` are the
calls of `f_target` with the sizes of the code at that time. -/
structure Emit (F O : Type) where
  code : List (Instr F O)
  size : Nat
  stack : Nat
  privates : Nat → Bool
  labels : Nat
  targets : List (Nat × Nat)

namespace Layout

variable (layout : Layout)

/-- The slots that `t_emit::f_join` fills with null. -/
def nulls (privates : Nat → Bool) (junction : Block) : List Nat :=
  layout.locals.filter fun slot => !privates slot && junction.use slot && junction.in_ slot

/-- The slots that `target` may read first although `source`, which every path
to it passes, does not count them as used. -/
def exposures (source target : Block) : List Nat :=
  layout.locals.filter fun slot => target.use slot && !source.use slot

end Layout

namespace Emit

variable {F O : Type}

def emit (instruction : Instr F O) (state : Emit F O) : Emit F O :=
  { state with code := state.code ++ [instruction] }

def push (state : Emit F O) : Emit F O :=
  { state with stack := state.stack + 1, size := max state.size (state.stack + 1) }

def pop (state : Emit F O) : Emit F O := { state with stack := state.stack - 1 }

def pushUnless (clear : Bool) (state : Emit F O) : Emit F O := if clear then state else state.push

def popIf (clear : Bool) (state : Emit F O) : Emit F O := if clear then state.pop else state

def atStack (stack : Nat) (state : Emit F O) : Emit F O := { state with stack := stack }

/-- `f_label`; the new label has the number `state.labels`. -/
def label (state : Emit F O) : Emit F O := { state with labels := state.labels + 1 }

/-- `f_target` -/
def setTarget (label : Nat) (state : Emit F O) : Emit F O :=
  { state with targets := state.targets ++ [(label, state.code.length)] }

/-- `v_target` of a label. -/
def target (state : Emit F O) : Nat → Nat :=
  state.targets.foldl (fun target (label, pc) => Function.update target label pc) fun _ => 0

def emitNull (state : Emit F O) : Emit F O := (state.emit (.load state.stack .null)).push

/-- The end of an `f_emit` whose instruction leaves its result at the top. -/
def finish (instruction : Instr F O) (clear : Bool) (state : Emit F O) : Emit F O :=
  (state.emit instruction).push.popIf clear

def join (layout : Layout) (junction : Block) (state : Emit F O) : Emit F O :=
  { state with code := state.code ++ (layout.nulls state.privates junction).map .insertNull }

def merge (junction : Block) (state : Emit F O) : Emit F O :=
  { state with privates := junction.out }

/-- The null that a `t_symbol_get` inserts. -/
def known (slot : Nat) (state : Emit F O) : Emit F O :=
  if state.privates slot then state
  else
    { state.emit (.insertNull slot) with
      privates := Function.update state.privates slot true }

def assign (slot : Option Nat) (state : Emit F O) : Emit F O :=
  match slot with
  | some slot => { state with privates := Function.update state.privates slot true }
  | none => state

/-- `t_literal::f_emit` and `t_null::f_emit` -/
def literal (literal : Operand F O) (value : Value F O) (tail operand clear : Bool)
    (state : Emit F O) : Operand F O × Emit F O :=
  if operand then (literal, state)
  else if clear then (.temporary, state)
  else if tail then (.temporary, (state.emit (.returnLoad value)).push)
  else (.temporary, (state.emit (.load state.stack value)).push)

/-- The first lambda of the second half of `t_try::f_emit`: the operand of
`YRT` for an outer target, and the label of the code to be put in between. -/
def operand (outer : Option Nat) (needed : Bool) (state : Emit F O) :
    Option Nat × Option Nat × Emit F O :=
  match outer with
  | none => (none, none, state)
  | some label => if needed then (some state.labels, some state.labels, state.label)
      else (some label, none, state)

def rejoin (layout : Layout) (own outer : Option Nat) (junction : Block) (height stack : Nat)
    (state : Emit F O) : Emit F O :=
  match own, outer with
  | some label0, some label1 =>
      let state := state.setTarget label0
      let state := if height < stack then state.emit (.stackGet height stack) else state
      (state.join layout junction).emit (.jump label1 [])
  | _, _ => state

end Emit

section

variable {F O : Type}

/-- The value of an operand that is not in the frame. -/
def Operand.constant : Operand F O → Option (Value F O)
  | .integer value => some (.integer value)
  | .float value => some (.float value)
  | .literal value => some value
  | .variable _ => none
  | .temporary => none

def Operand.isTemporary : Operand F O → Bool
  | .temporary => true
  | _ => false

def Nodes.isNil : Nodes F O → Bool
  | .nil => true
  | .cons _ _ => false

variable (layout : Layout)

/-- The variable that `t_call::f_emit` calls without copying it first. -/
def Node.called (expands : List Nat) : Node F O → Option (Nat × Variable)
  | .symbolGet resolved (some variable_) _ =>
      let found := layout.variableOf variable_
      if expands.isEmpty && (!found.isShared || (decide (resolved < 3) && !found.varies)) then
        some (resolved, found)
      else none
  | _ => none

mutual

/-- Whether every path through a tree reads or assigns a slot. A jump out of
the tree does not go on to what follows it. -/
def Node.settles (slot : Nat) : Node F O → Bool
  | .nodes items => items.settles slot
  | .operate _ operands => operands.settles slot
  | .if_ condition true_ false_ =>
      condition.settles slot || (true_.settles slot && false_.settles slot)
  | .while_ condition _ => condition.settles slot
  | .for_ initialization condition _ _ => initialization.settles slot || condition.settles slot
  | .break_ _ | .continue_ | .return_ _ | .throw_ _ => true
  | .try_ body catches finally_ =>
      (body.settles slot && catches.settles slot) || finally_.settles slot
  | .symbolGet _ none _ => false
  | .symbolGet _ (some variable_) _ => layout.slot variable_ == some slot
  | .scopePut _ variable_ value => layout.slot variable_ == some slot || value.settles slot
  | .self _ | .literal _ | .preserve => false
  | .unary _ expression => expression.settles slot
  | .binary _ left right => left.settles slot || right.settles slot
  | .call target arguments expands =>
      ((target.called layout expands).isNone && target.settles slot) || arguments.settles slot

def Nodes.settles (slot : Nat) : Nodes F O → Bool
  | .nil => false
  | .cons head tail => head.settles slot || tail.settles slot

def Catches.settles (slot : Nat) : Catches F O → Bool
  | .nil => true
  | .cons expression _ body tail =>
      expression.settles slot || (body.settles slot && tail.settles slot)

def Optional.settles (slot : Nat) : Optional F O → Bool
  | .none => false
  | .some node => node.settles slot

end

attribute [grind =] Node.settles Nodes.settles Catches.settles Optional.settles

/-- What a handler may read first although the analysis does not count it as
used at the entry of the `try`. -/
def Catches.exposed (blocks : Nat → Block) (junctionTry blockExpression : Nat) : Catches F O → List Nat
  | .nil => []
  | .cons _ _ _ _ => layout.exposures (blocks junctionTry) (blocks blockExpression)

variable [Double F] (blocks : Nat → Block)

mutual

/-- `f_emit` with its parameters `a_tail`, `a_operand` and `a_clear`. -/
def Node.emit (jumps : Jumps) (base : Nat) (tail operand clear : Bool) :
    Node F O → Emit F O → Option (Operand F O × Emit F O)
  | .nodes items, state => do
      let state ← items.emitSequence jumps base tail clear state
      some (.temporary, state)
  | .operate action operands, state => do
      let stack := state.stack
      let state := state.pushUnless !action.isIndexing
      let state ← operands.emitValues jumps base state
      let state := state.atStack stack
      some (.temporary, state.finish
        (.operate action (tail && action.isIndexing) stack operands.length) clear)
  | .if_ condition true_ false_, state => do
      let blockTrue := base + condition.blocks
      let blockFalse := blockTrue + 1 + true_.blocks
      let junction := blocks (blockFalse + 1 + false_.blocks)
      let label0 := state.labels
      let state := state.label
      let state ← condition.emitCondition jumps base label0 state
      let privates := state.privates
      let stack := state.stack
      let (_, state) ← true_.emit jumps (blockTrue + 1) tail false clear state
      let state := state.join layout junction
      let label1 := state.labels
      let state := (state.label.emit (.jump label1 [])).setTarget label0
      let state := { state.atStack stack with privates := privates }
      let (_, state) ← false_.emit jumps (blockFalse + 1) tail false clear state
      let state := state.join layout junction
      some (.temporary, (state.setTarget label1).merge junction)
  | .while_ condition body, state => do
      let blockCondition := base + 1
      let blockBody := blockCondition + 1 + condition.blocks
      let junctionExit := blockBody + 1 + body.blocks
      let state := state.join layout (blocks base)
      let loop := state.labels
      let state := (state.label.setTarget loop).merge (blocks base)
      let label0 := state.labels
      let state := state.label
      let state ← condition.emitCondition jumps (blockCondition + 1) label0 state
      let break0 := state.labels
      let jumps1 : Jumps :=
        { jumps with
          break_ := some break0
          breakJunction := junctionExit
          breakStack := state.stack
          breakIsTail := tail
          breakMustClear := clear
          continue_ := some loop
          continueJunction := base
          exposed := [] }
      let (_, state) ← body.emit jumps1 (blockBody + 1) false false true state.label
      let state := (state.emit (.jump loop [])).setTarget label0
      let state := state.join layout (blocks junctionExit)
      let state := if clear then state else state.emitNull
      some (.temporary, (state.setTarget break0).merge (blocks junctionExit))
  | .for_ initialization condition next body, state => do
      let junctionCondition := base + initialization.blocks
      let blockCondition := junctionCondition + 1
      let blockBody := blockCondition + 1 + condition.blocks
      let junctionNext := blockBody + 1 + body.blocks
      let blockNext := junctionNext + 1
      let junctionExit := blockNext + 1 + next.blocks
      let state ← initialization.emitCleared jumps base state
      let state := state.join layout (blocks junctionCondition)
      let loop := state.labels
      let state := state.label
      let continue0 := if next.isSome then state.labels else loop
      let state := if next.isSome then state.label else state
      let state := (state.setTarget loop).merge (blocks junctionCondition)
      let label0 := state.labels
      let state := state.label
      let state ← condition.emitCondition jumps (blockCondition + 1) label0 state
      let break0 := state.labels
      let jumps1 : Jumps :=
        { jumps with
          break_ := some break0
          breakJunction := junctionExit
          breakStack := state.stack
          breakIsTail := tail
          breakMustClear := clear
          continue_ := some continue0
          continueJunction := junctionNext
          exposed :=
            if next.isSome then layout.exposures (blocks junctionCondition) (blocks junctionNext)
            else [] }
      let (_, state) ← body.emit jumps1 (blockBody + 1) false false true state.label
      let state := if next.isSome then state.setTarget continue0 else state
      let state ← next.emitCleared jumps (blockNext + 1) state
      let state := (state.emit (.jump loop [])).setTarget label0
      let state := state.join layout (blocks junctionExit)
      let state := if clear then state else state.emitNull
      some (.temporary, (state.setTarget break0).merge (blocks junctionExit))
  | .break_ expression, state => do
      let break0 ← jumps.break_
      let stack := state.stack
      let (_, state) ← expression.emit jumps base jumps.breakIsTail false jumps.breakMustClear
        (state.atStack jumps.breakStack)
      let state := (state.atStack stack).pushUnless clear
      let state := state.join layout (blocks jumps.breakJunction)
      some (.temporary, state.emit (.jump break0 []))
  | .continue_, state => do
      let continue0 ← jumps.continue_
      some (.temporary, (state.pushUnless clear).emit (.jump continue0 jumps.exposed))
  | .return_ expression, state => do
      let return0 ← jumps.return_
      let stack := state.stack
      let (_, state) ← expression.emit jumps base jumps.returnIsTail false false
        (state.atStack jumps.returnStack)
      let state :=
        if jumps.returnIsTail then state.emit (.return_ (state.stack - 1))
        else (state.join layout (blocks jumps.returnJunction)).emit (.jump return0 [])
      some (.temporary, (state.atStack stack).pushUnless clear)
  | .try_ body catches finally_, state => do
      let blockTry := base + 1
      let blockCatches := blockTry + 1 + body.blocks
      let junctionFinally := blockCatches + catches.blocks
      let blockFinally := junctionFinally + 1
      let state := (state.join layout (blocks base)).merge (blocks base)
      let stack := state.stack
      let catch0 := state.labels
      let finally0 := catch0 + 1
      let exposed := catches.exposed layout blocks base blockCatches
      let state := state.label.label.emit (.try_ stack catch0 finally0 exposed)
      let break0 := state.labels
      let continue0 := break0 + 1
      let return0 := continue0 + 1
      let jumps1 : Jumps :=
        { break_ := jumps.break_.map fun _ => break0
          breakJunction := junctionFinally
          breakStack := stack
          breakIsTail := false
          breakMustClear := jumps.breakMustClear
          continue_ := jumps.continue_.map fun _ => continue0
          continueJunction := junctionFinally
          return_ := jumps.return_.map fun _ => return0
          returnJunction := junctionFinally
          returnStack := stack
          returnIsTail := false
          exposed := [] }
      let state := state.label.label.label
      let (_, state) ← body.emit jumps1 (blockTry + 1) false false clear state
      let state := (state.emit (.finally_ .step)).setTarget catch0
      let state ← catches.emit jumps1 blockCatches clear state
      let state := (state.emit (.finally_ .throw_)).setTarget break0
      let state := (state.emit (.finally_ .break_)).setTarget continue0
      let state := (state.emit (.finally_ .continue_)).setTarget return0
      let state := (state.emit (.finally_ .return_)).setTarget finally0
      let jumps2 : Jumps := { Exits.none with break_ := none, continue_ := none, return_ := none }
      let state := if finally_.isSome then state.pushUnless !clear else state
      let state ← finally_.emitCleared jumps2 (blockFinally + 1) state
      let state := if finally_.isSome then state.popIf clear else state
      let breakStack := if jumps.breakMustClear then stack else jumps.breakStack
      let needed junction height := decide (height < stack) ||
        !(layout.nulls state.privates (blocks junction)).isEmpty
      let (break1, break0, state) :=
        state.operand jumps.break_ (needed jumps.breakJunction breakStack)
      let (continue1, continue0, state) :=
        state.operand jumps.continue_ (needed jumps.continueJunction stack)
      let (return1, return0, state) :=
        state.operand jumps.return_ (needed jumps.returnJunction jumps.returnStack)
      let state := state.emit (.yrt break1 continue1 return1)
      let stepped := break0.isSome || continue0.isSome || return0.isSome
      let step := state.labels
      let state := if stepped then state.label.emit (.jump step []) else state
      let state :=
        state.rejoin layout break0 jumps.break_ (blocks jumps.breakJunction) breakStack stack
      let state :=
        state.rejoin layout continue0 jumps.continue_ (blocks jumps.continueJunction) stack stack
      let state := state.rejoin layout return0 jumps.return_ (blocks jumps.returnJunction)
        jumps.returnStack stack
      some (.temporary, if stepped then state.setTarget step else state)
  | .throw_ expression, state => do
      let (_, state) ← expression.emit jumps base false false false state
      let state := state.pop
      some (.temporary, (state.emit (.throw_ state.stack)).pushUnless clear)
  | .symbolGet _ none symbol, state =>
      some (.temporary, state.finish (.operate (.globalGet symbol) false state.stack 0) clear)
  | .symbolGet resolved (some variable_) _, state =>
      let found := layout.variableOf variable_
      if found.isShared then
        some (.temporary, state.finish (.scopeGet state.stack resolved found.index) clear)
      else
        let state :=
          match layout.slot variable_ with
          | some slot => state.known slot
          | none => state
        if operand then some (.variable found.index, state)
        else if tail then some (.temporary, state.finish (.return_ found.index) clear)
        else some (.temporary, state.finish (.stackGet state.stack found.index) clear)
  | .scopePut outer variable_ value, state => do
      let found := layout.variableOf variable_
      if clear && !found.isShared then
        let (operand, state) ← value.emit jumps base false true false state
        let state := state.assign (layout.slot variable_)
        match operand with
        | .variable index => some (.temporary, state.emit (.stackPut index found.index))
        | .temporary =>
            some (.temporary, (state.emit (.stackPut (state.stack - 1) found.index)).pop)
        | .integer value => some (.temporary, state.emit (.load found.index (.integer value)))
        | .float value => some (.temporary, state.emit (.load found.index (.float value)))
        | .literal value => some (.temporary, state.emit (.load found.index value))
      else
        let (_, state) ← value.emit jumps base false false false state
        let state :=
          if found.isShared then state.emit (.scopePut (state.stack - 1) outer found.index)
          else (state.assign (layout.slot variable_)).emit
            (.stackPut (state.stack - 1) found.index)
        some (.temporary, state.popIf clear)
  | .self outer, state =>
      if clear then some (.temporary, state)
      else if 0 < outer then
        some (.temporary, (state.emit (.scopeGet state.stack outer 0)).push)
      else some (.temporary, (state.emit (.self state.stack)).push)
  | .literal literal, state =>
      some (state.literal literal.operand literal.value tail operand clear)
  | .unary op expression, state => do
      let size := state.size
      let (found, state) ← expression.emit jumps base false true false state.push
      match foldUnary op found with
      | .operand folded => do
          let value ← folded.constant
          some ({ state.pop with size := size }.literal folded value tail operand clear)
      | .instruction =>
          let state := (state.pushUnless found.isTemporary).pop.pop
          some (.temporary, state.finish (.unary op found tail state.stack) clear)
      | _ => none
  | .binary op left right, state => do
      let size := state.size
      let (found0, state) ← left.emit jumps base false true false state.push
      let state := state.pushUnless found0.isTemporary
      let (found1, state) ← right.emit jumps (base + left.blocks) false true false state
      match foldBinary op found0 found1 with
      | .operand folded => do
          let value ← folded.constant
          some ({ state.pop.pop with size := size }.literal folded value tail operand clear)
      | .instruction =>
          let state := (state.pushUnless found1.isTemporary).pop.pop.pop
          some (.temporary, state.finish (.binary op found0 found1 tail state.stack) clear)
      | _ => none
  | .preserve, state => some (.temporary, state.pushUnless clear)
  | .call target arguments expands, state => do
      let stack := state.stack
      let get := target.called layout expands
      let callee : Callee :=
        match get with
        | some (resolved, found) =>
            if found.isShared then .scope resolved found.index
            else .slot found.index
              (decide (found.index < layout.arguments) || state.privates found.index ||
                arguments.settles layout found.index)
        | none => .stack
      let state ←
        if get.isSome then some state.push.push
        else
          match target with
          | .operate (.objectGet key) operands => do
              let state ← operands.emitValues jumps base state
              some (state.emit (.bind (.methodGet key) stack)).push
          | .operate .getAt operands => do
              let state ← operands.emitValues jumps base state
              some (state.emit (.bind .methodBind stack))
          | target => do
              let (_, state) ← target.emit jumps base false false false state
              some state.emitNull
      let state ← arguments.emitValues jumps (base + target.blocks) state
      let state := state.atStack stack
      some (.temporary, state.finish (.call callee tail stack arguments.length expands) clear)

/-- `t_nodes::f_emit`; an empty list of nodes has the value null. -/
def Nodes.emitSequence (jumps : Jumps) (base : Nat) (tail clear : Bool) :
    Nodes F O → Emit F O → Option (Emit F O)
  | .nil, state => some (if clear then state else state.emitNull)
  | .cons head rest, state =>
      if rest.isNil then do
        let (_, state) ← head.emit jumps base tail false clear state
        some state
      else do
        let (_, state) ← head.emit jumps base false false true state
        rest.emitSequence jumps (base + head.blocks) tail clear state

def Nodes.emitValues (jumps : Jumps) (base : Nat) : Nodes F O → Emit F O → Option (Emit F O)
  | .nil, state => some state
  | .cons head rest, state => do
      let (_, state) ← head.emit jumps base false false false state
      rest.emitValues jumps (base + head.blocks) state

/-- The clauses of `t_try::f_emit`. `f_flow` has indexed below the privates of
the block if the variable of a clause is an argument. -/
def Catches.emit (jumps : Jumps) (base : Nat) (clear : Bool) :
    Catches F O → Emit F O → Option (Emit F O)
  | .nil, state => some state
  | .cons expression variable_ body tail, state => do
      let found := layout.variableOf variable_
      let blockBody := base + 1 + expression.blocks
      if !found.isShared && decide (found.index < layout.arguments) then none
      else do
        let state := state.popIf !clear
        let (_, state) ← expression.emit jumps (base + 1) false false false state
        let label0 := state.labels
        let state := state.label.pop.emit (.catch_ label0 found.isShared found.index)
        let (_, state) ← body.emit jumps (blockBody + 1) false false clear state
        let state := (state.emit (.finally_ .step)).setTarget label0
        tail.emit jumps (blockBody + 1 + body.blocks) clear state

/-- The condition of a branch, which goes to `label` unless it is true. -/
def Optional.emitCondition (jumps : Jumps) (base label : Nat) :
    Optional F O → Emit F O → Option (Emit F O)
  | .none, state => some state
  | .some node, state => do
      let (_, state) ← node.emit jumps base false false false state
      let state := state.pop
      some (state.emit (.branch state.stack label))

def Optional.emitCleared (jumps : Jumps) (base : Nat) :
    Optional F O → Emit F O → Option (Emit F O)
  | .none, state => some state
  | .some node, state => do
      let (_, state) ← node.emit jumps base false false true state
      some state

end

attribute [grind =] Node.emit Nodes.emitSequence Nodes.emitValues Catches.emit
  Optional.emitCondition Optional.emitCleared

end

end Xemmai
