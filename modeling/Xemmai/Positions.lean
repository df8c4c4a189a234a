import Xemmai.Code

/-!
# Positions

`v_ats` of a code: `f_emit` of a node enters the position of the node behind the
instruction that it has written, and that of an asterisk before the operand of
the asterisk. `t_code::f_at` takes the first entry that is not before an address
of `v_instructions`.

The emission of `Emit` is repeated here with the addresses of the instructions,
the entries and the safe points of a debugged code.
-/

namespace Xemmai

set_option autoImplicit false

/-- `t_at` -/
structure At where
  position : Int
  line : Nat
  column : Nat
  deriving DecidableEq, Repr

/-- `t_code::t_at_address` -/
structure AtAddress extends At where
  address : Nat
  deriving DecidableEq, Repr

/-- `t_code::f_at`: `std::lower_bound` by the address. -/
def findAt (ats : List AtAddress) (address : Nat) : Option AtAddress :=
  ats.find? fun entry => !decide (entry.address < address)

/-- `v_at` of the nodes of a scope, which are numbered in the order of the tree,
and of the asterisks of each call. -/
structure Ats where
  node : Nat → At
  asterisk : Nat → Nat → At

section Widths

variable {F O : Type}

/-- The words of an instruction with its opcode and `stack`; a cached lookup has
a word for the index. -/
def Action.width : Action → Nat
  | .objectGet _ | .objectPut _ | .objectHas _ | .globalGet _ => 4
  | .objectGetIndirect | .objectPutIndirect | .objectHasIndirect => 3
  | .lambda _ | .advancedLambda _ => 3
  | .class_ | .super | .getAt | .setAt => 2

def Binding.width : Binding → Nat
  | .methodGet _ => 4
  | .methodBind => 2

def Operand.width : Operand F O → Nat
  | .temporary => 0
  | _ => 1

def Callee.width : Callee → Nat
  | .stack => 0
  | .slot _ _ | .scope _ _ => 1

def valueWidth : Value F O → Nat
  | .null => 0
  | _ => 1

def Instr.header : Instr F O → Nat
  | .call callee _ _ _ _ => 3 + callee.width
  | _ => 0

def Instr.expansions : Instr F O → Nat
  | .call _ _ _ _ expands => expands.length
  | _ => 0

/-- How many words `f_emit` writes for an instruction. -/
def Instr.width : Instr F O → Nat
  | .jump _ _ => 2
  | .branch _ _ => 3
  | .try_ _ _ _ _ => 4
  | .catch_ _ _ _ => 3
  | .finally_ _ => 2
  | .yrt _ _ _ => 4
  | .throw_ _ => 2
  | .operate action _ _ _ => action.width
  | .bind binding _ => binding.width
  | .stackGet _ _ | .stackPut _ _ => 3
  | .scopeGet _ outer _ => if outer < 3 then 3 else 4
  | .scopePut _ outer _ => if 0 < outer then 4 else 3
  | .self _ => 2
  | .load _ value => 2 + valueWidth value
  | .insertNull _ => 2
  | .returnLoad value => 1 + valueWidth value
  | .return_ _ => 2
  | .unary _ operand _ _ => 2 + operand.width
  | .binary _ left right _ _ => 2 + left.width + right.width
  | .call callee _ _ _ expands =>
      3 + callee.width + if expands.isEmpty then 0 else expands.length + 1

end Widths

/-- Where an instruction throws: in `f_expand` at the operand of an asterisk, in
the type check of `f_try`, or at last, with its operands taken. -/
inductive Stage where
  | expanding (index : Nat)
  | checking
  | last
  deriving DecidableEq, Repr

section Throwing

variable {F O : Type}

/-- Whether an exception can leave `f_loop` at an instruction with its operands
taken. `f_tail` of a tail call only copies the operands, and the call is made
after the frame has been left. -/
def Instr.throws : Instr F O → Bool
  | .throw_ _ | .operate _ _ _ _ | .bind _ _ => true
  | .unary _ _ _ _ | .binary _ _ _ _ _ => true
  | .call _ tail _ _ _ => !tail
  | .catch_ _ _ _ => true
  | _ => false

def Instr.isCatch : Instr F O → Bool
  | .catch_ _ _ _ => true
  | _ => false

/-- The `CASE_NA` of the operators of integers behind a float literal, which throw
before an operand has been taken. -/
def Instr.isUnsupported : Instr F O → Bool
  | .binary op (.float _) _ _ _ => op.kind = .integral || op.kind = .bitwise
  | _ => false

/-- The program counter from the opcode on, with the operands taken. At last it is
behind the instruction. `f_try` checks the type with the counter at the first
operand of the `CATCH`, and behind it only `f_backtrace` may throw. -/
def Instr.counter (instruction : Instr F O) : Stage → Option Nat
  | .expanding index =>
      if index < instruction.expansions then some (instruction.header + index) else none
  | .checking => if instruction.isCatch then some 1 else none
  | .last => if instruction.throws then some instruction.width else none

/-- The program counter that `f_rethrow` is given, from the opcode on. -/
def Instr.recorded (instruction : Instr F O) (stage : Stage) : Option Nat :=
  if instruction.isUnsupported ∧ stage = .last then some 0 else instruction.counter stage

end Throwing

/-- What an instruction has been emitted for: a node with a position, the clause
of a `try` with its expression, or neither. -/
inductive Origin where
  | node (number : Nat)
  | clause (first count : Nat)
  | none
  deriving DecidableEq, Repr

/-- The positions that an error at an instruction belongs to. -/
def Origin.Gives (ats : Ats) (at_ : At) : Origin → Stage → Prop
  | .node number, .expanding index => at_ = ats.asterisk number index
  | .node number, .last => at_ = ats.node number
  | .node _, .checking => False
  | .clause first count, _ => ∃ number, first ≤ number ∧ number < first + count ∧
      (at_ = ats.node number ∨ ∃ index, at_ = ats.asterisk number index)
  | .none, _ => False

/-- An instruction from the address of its opcode on. -/
structure Site (F O : Type) where
  start : Nat
  instruction : Instr F O
  origin : Origin
  deriving DecidableEq, Repr

/-- `t_emit` with the `v_instructions.size()` and the `v_ats` of its code. -/
structure Positioned (F O : Type) where
  emit : Emit F O
  last : Nat
  sites : List (Site F O)
  ats : List AtAddress

namespace Positioned

variable {F O : Type}

def sitesFrom (origin : Origin) : Nat → List (Instr F O) → List (Site F O)
  | _, [] => []
  | start, instruction :: rest =>
      ⟨start, instruction, origin⟩ :: sitesFrom origin (start + instruction.width) rest

/-- A part of an `f_emit`, with what it writes. -/
def write (origin : Origin) (part : Emit F O → Emit F O) (state : Positioned F O) :
    Positioned F O :=
  let emit := part state.emit
  let written := emit.code.drop state.emit.code.length
  { state with
    emit := emit
    last := state.last + (written.map Instr.width).sum
    sites := state.sites ++ sitesFrom origin state.last written }

def change (part : Emit F O → Emit F O) (state : Positioned F O) : Positioned F O :=
  state.write .none part

/-- `t_emit::f_at` -/
def enter (at_ : At) (state : Positioned F O) : Positioned F O :=
  { state with ats := state.ats ++ [⟨at_, state.last⟩] }

variable (ats : Ats) (debugging : Bool)

/-- `t_emit::f_emit_safe_point`, which writes nothing without `v_safe_points`. -/
def safePoint (number : Nat) (state : Positioned F O) : Positioned F O :=
  { state with
    last := if debugging then state.last + 1 else state.last
    ats :=
      if debugging then state.ats ++ [⟨ats.node number, state.last + 1⟩] else state.ats }

def writeAt (number : Nat) (part : Emit F O → Emit F O) (state : Positioned F O) :
    Positioned F O :=
  (state.write (.node number) part).enter (ats.node number)

/-- The entry of each asterisk, which is made before its operand is written. -/
def enterAsterisks (number first count : Nat) (state : Positioned F O) : Positioned F O :=
  { state with
    ats := state.ats ++
      (List.range count).map fun index => ⟨ats.asterisk number index, first + index⟩ }

/-- The end of `t_call::f_emit` -/
def writeCall (number : Nat) (callee : Callee) (expands : List Nat)
    (part : Emit F O → Emit F O) (state : Positioned F O) : Positioned F O :=
  ((state.write (.node number) part).enterAsterisks ats number
    (state.last + 3 + callee.width) expands.length).enter (ats.node number)

/-- `t_literal::f_emit` and `t_null::f_emit` -/
def literal (number : Nat) (literal : Operand F O) (value : Value F O)
    (tail operand clear : Bool) (state : Positioned F O) : Operand F O × Positioned F O :=
  if operand || clear then ((state.emit.literal literal value tail operand clear).1, state)
  else
    let state := state.safePoint ats (debugging && tail) number
    (.temporary, state.writeAt ats number fun emit =>
      (emit.literal literal value tail operand clear).2)

end Positioned

section Numbers

variable {F O : Type}

mutual

/-- How many numbers a tree takes. -/
def Node.count : Node F O → Nat
  | .nodes items => 1 + items.count
  | .operate _ operands => 1 + operands.count
  | .if_ condition true_ false_ => 1 + condition.count + true_.count + false_.count
  | .while_ condition body => 1 + condition.count + body.count
  | .for_ initialization condition next body =>
      1 + initialization.count + condition.count + next.count + body.count
  | .break_ expression => 1 + expression.count
  | .continue_ => 1
  | .return_ expression => 1 + expression.count
  | .try_ body catches finally_ => 1 + body.count + catches.count + finally_.count
  | .throw_ expression => 1 + expression.count
  | .symbolGet _ _ _ => 1
  | .scopePut _ _ value => 1 + value.count
  | .self _ => 1
  | .literal _ => 1
  | .unary _ expression => 1 + expression.count
  | .binary _ left right => 1 + left.count + right.count
  | .preserve => 1
  | .call target arguments _ => 1 + target.count + arguments.count

def Nodes.count : Nodes F O → Nat
  | .nil => 0
  | .cons head tail => head.count + tail.count

def Catches.count : Catches F O → Nat
  | .nil => 0
  | .cons expression _ body tail => expression.count + body.count + tail.count

def Optional.count : Optional F O → Nat
  | .none => 0
  | .some node => node.count

end

end Numbers

/-- Whether the safe point of a node is before its operands, only in a tail
position, or before its instruction. -/
def Action.isLambda : Action → Bool
  | .lambda _ | .advancedLambda _ => true
  | _ => false

def Action.isQuery : Action → Bool
  | .class_ | .super => true
  | _ => false

section

variable {F O : Type} [Double F] (ats : Ats) (debugging : Bool) (layout : Layout)
variable (blocks : Nat → Block)

mutual

/-- `Node.emit` of the node with a number. -/
def Node.emitAt (jumps : Jumps) (base number : Nat) (tail operand clear : Bool) :
    Node F O → Positioned F O → Option (Operand F O × Positioned F O)
  | .nodes items, state => do
      let state ← items.emitSequenceAt jumps base (number + 1) tail clear state
      some (.temporary, state)
  | .operate action operands, state => do
      let stack := state.emit.stack
      let state := state.safePoint ats (debugging && action.isLambda) number
      let state := state.change (·.pushUnless !action.isIndexing)
      let state ← operands.emitValuesAt jumps base (number + 1) state
      let state := state.change (·.atStack stack)
      let part (emit : Emit F O) :=
        emit.finish (.operate action (tail && action.isIndexing) stack operands.length) clear
      -- `t_lambda::f_emit` ends without `f_at`.
      if action.isLambda then some (.temporary, state.write (.node number) part)
      else
        let state := state.safePoint ats (debugging && (!action.isQuery || tail)) number
        some (.temporary, state.writeAt ats number part)
  | .if_ condition true_ false_, state => do
      let blockTrue := base + condition.blocks
      let blockFalse := blockTrue + 1 + true_.blocks
      let junction := blocks (blockFalse + 1 + false_.blocks)
      let numberTrue := number + 1 + condition.count
      let label0 := state.emit.labels
      let state := state.change (·.label)
      let state ← condition.emitConditionAt jumps base (number + 1) label0 state
      let privates := state.emit.privates
      let stack := state.emit.stack
      let (_, state) ←
        true_.emitAt jumps (blockTrue + 1) numberTrue tail false clear state
      let label1 := state.emit.labels
      let state := state.change fun emit =>
        { (((emit.join layout junction).label.emit (.jump label1 [])).setTarget label0).atStack
            stack with privates := privates }
      let (_, state) ← false_.emitAt jumps (blockFalse + 1) (numberTrue + true_.count) tail false
        clear state
      some (.temporary, state.change fun emit =>
        ((emit.join layout junction).setTarget label1).merge junction)
  | .while_ condition body, state => do
      let blockCondition := base + 1
      let blockBody := blockCondition + 1 + condition.blocks
      let junctionExit := blockBody + 1 + body.blocks
      let loop := state.emit.labels
      let state := state.change fun emit =>
        (((emit.join layout (blocks base)).label.setTarget loop).merge (blocks base)).label
      let label0 := loop + 1
      let state ← condition.emitConditionAt jumps (blockCondition + 1) (number + 1) label0 state
      let break0 := state.emit.labels
      let jumps1 : Jumps :=
        { jumps with
          break_ := some break0
          breakJunction := junctionExit
          breakStack := state.emit.stack
          breakIsTail := tail
          breakMustClear := clear
          continue_ := some loop
          continueJunction := base
          exposed := [] }
      let (_, state) ← body.emitAt jumps1 (blockBody + 1) (number + 1 + condition.count) false
        false true (state.change (·.label))
      some (.temporary, state.change fun emit =>
        let emit := ((emit.emit (.jump loop [])).setTarget label0).join layout (blocks junctionExit)
        let emit := if clear then emit else emit.emitNull
        (emit.setTarget break0).merge (blocks junctionExit))
  | .for_ initialization condition next body, state => do
      let junctionCondition := base + initialization.blocks
      let blockCondition := junctionCondition + 1
      let blockBody := blockCondition + 1 + condition.blocks
      let junctionNext := blockBody + 1 + body.blocks
      let blockNext := junctionNext + 1
      let junctionExit := blockNext + 1 + next.blocks
      let numberCondition := number + 1 + initialization.count
      let numberNext := numberCondition + condition.count
      let state ← initialization.emitClearedAt jumps base (number + 1) state
      let loop := state.emit.labels
      let continue0 := if next.isSome then loop + 1 else loop
      let label0 := continue0 + 1
      let state := state.change fun emit =>
        let emit := (emit.join layout (blocks junctionCondition)).label
        let emit := if next.isSome then emit.label else emit
        ((emit.setTarget loop).merge (blocks junctionCondition)).label
      let state ←
        condition.emitConditionAt jumps (blockCondition + 1) numberCondition label0 state
      let break0 := state.emit.labels
      let jumps1 : Jumps :=
        { jumps with
          break_ := some break0
          breakJunction := junctionExit
          breakStack := state.emit.stack
          breakIsTail := tail
          breakMustClear := clear
          continue_ := some continue0
          continueJunction := junctionNext
          exposed :=
            if next.isSome then layout.exposures (blocks junctionCondition) (blocks junctionNext)
            else [] }
      let (_, state) ← body.emitAt jumps1 (blockBody + 1) (numberNext + next.count) false false
        true (state.change (·.label))
      let state := state.change fun emit =>
        if next.isSome then emit.setTarget continue0 else emit
      let state ← next.emitClearedAt jumps (blockNext + 1) numberNext state
      some (.temporary, state.change fun emit =>
        let emit := ((emit.emit (.jump loop [])).setTarget label0).join layout (blocks junctionExit)
        let emit := if clear then emit else emit.emitNull
        (emit.setTarget break0).merge (blocks junctionExit))
  | .break_ expression, state => do
      let break0 ← jumps.break_
      let stack := state.emit.stack
      let (_, state) ← expression.emitAt jumps base (number + 1) jumps.breakIsTail false
        jumps.breakMustClear (state.change (·.atStack jumps.breakStack))
      some (.temporary, state.change fun emit =>
        ((((emit.atStack stack).pushUnless clear).join layout (blocks jumps.breakJunction)).emit
          (.jump break0 [])))
  | .continue_, state => do
      let continue0 ← jumps.continue_
      let state := (state.change (·.pushUnless clear)).safePoint ats debugging number
      some (.temporary, state.change (·.emit (.jump continue0 jumps.exposed)))
  | .return_ expression, state => do
      let return0 ← jumps.return_
      let stack := state.emit.stack
      let (_, state) ← expression.emitAt jumps base (number + 1) jumps.returnIsTail false false
        (state.change (·.atStack jumps.returnStack))
      some (.temporary, state.change fun emit =>
        let emit :=
          if jumps.returnIsTail then emit.emit (.return_ (emit.stack - 1))
          else (emit.join layout (blocks jumps.returnJunction)).emit (.jump return0 [])
        (emit.atStack stack).pushUnless clear)
  | .try_ body catches finally_, state => do
      let blockTry := base + 1
      let blockCatches := blockTry + 1 + body.blocks
      let junctionFinally := blockCatches + catches.blocks
      let blockFinally := junctionFinally + 1
      let numberCatches := number + 1 + body.count
      let stack := state.emit.stack
      let catch0 := state.emit.labels
      let finally0 := catch0 + 1
      let exposed := catches.exposed layout blocks base blockCatches
      let break0 := catch0 + 2
      let continue0 := break0 + 1
      let return0 := continue0 + 1
      let jumps1 : Jumps :=
        { break_ := jumps.break_.map fun _ => break0
          breakJunction := junctionFinally
          breakStack := stack
          breakIsTail := false
          breakMustClear := jumps.breakMustClear
          continue_ := jumps.continue_.map fun _ => continue0
          continueJunction := junctionFinally
          return_ := jumps.return_.map fun _ => return0
          returnJunction := junctionFinally
          returnStack := stack
          returnIsTail := false
          exposed := [] }
      let state := state.change fun emit =>
        (((emit.join layout (blocks base)).merge (blocks base)).label.label.emit
          (.try_ stack catch0 finally0 exposed)).label.label.label
      let (_, state) ←
        body.emitAt jumps1 (blockTry + 1) (number + 1) false false clear state
      let state := state.change fun emit => (emit.emit (.finally_ .step)).setTarget catch0
      let state ← catches.emitAt jumps1 blockCatches numberCatches clear state
      let state := state.change fun emit =>
        let emit := (emit.emit (.finally_ .throw_)).setTarget break0
        let emit := (emit.emit (.finally_ .break_)).setTarget continue0
        let emit := (emit.emit (.finally_ .continue_)).setTarget return0
        let emit := (emit.emit (.finally_ .return_)).setTarget finally0
        if finally_.isSome then emit.pushUnless !clear else emit
      let jumps2 : Jumps := { Exits.none with break_ := none, continue_ := none, return_ := none }
      let state ← finally_.emitClearedAt jumps2 (blockFinally + 1) (numberCatches + catches.count)
        state
      some (.temporary, state.change fun emit =>
        let emit := if finally_.isSome then emit.popIf clear else emit
        let breakStack := if jumps.breakMustClear then stack else jumps.breakStack
        let needed junction height := decide (height < stack) ||
          !(layout.nulls emit.privates (blocks junction)).isEmpty
        let (break1, break0, emit) :=
          emit.operand jumps.break_ (needed jumps.breakJunction breakStack)
        let (continue1, continue0, emit) :=
          emit.operand jumps.continue_ (needed jumps.continueJunction stack)
        let (return1, return0, emit) :=
          emit.operand jumps.return_ (needed jumps.returnJunction jumps.returnStack)
        let emit := emit.emit (.yrt break1 continue1 return1)
        let stepped := break0.isSome || continue0.isSome || return0.isSome
        let step := emit.labels
        let emit := if stepped then emit.label.emit (.jump step []) else emit
        let emit :=
          emit.rejoin layout break0 jumps.break_ (blocks jumps.breakJunction) breakStack stack
        let emit :=
          emit.rejoin layout continue0 jumps.continue_ (blocks jumps.continueJunction) stack stack
        let emit := emit.rejoin layout return0 jumps.return_ (blocks jumps.returnJunction)
          jumps.returnStack stack
        if stepped then emit.setTarget step else emit)
  | .throw_ expression, state => do
      let (_, state) ← expression.emitAt jumps base (number + 1) false false false state
      some (.temporary, state.writeAt ats number fun emit =>
        (emit.pop.emit (.throw_ (emit.stack - 1))).pushUnless clear)
  | .symbolGet _ none symbol, state =>
      let state := state.safePoint ats (debugging && tail) number
      some (.temporary, state.writeAt ats number fun emit =>
        emit.finish (.operate (.globalGet symbol) false emit.stack 0) clear)
  | .symbolGet resolved (some variable_) _, state =>
      let found := layout.variableOf variable_
      if found.isShared then
        let state := state.safePoint ats (debugging && tail) number
        some (.temporary, state.writeAt ats number fun emit =>
          emit.finish (.scopeGet emit.stack resolved found.index) clear)
      else
        let state := state.change fun emit =>
          match layout.slot variable_ with
          | some slot => emit.known slot
          | none => emit
        if operand then some (.variable found.index, state)
        else
          let state := state.safePoint ats (debugging && tail) number
          some (.temporary, state.writeAt ats number fun emit =>
            if tail then emit.finish (.return_ found.index) clear
            else emit.finish (.stackGet emit.stack found.index) clear)
  | .scopePut outer variable_ value, state => do
      let found := layout.variableOf variable_
      if clear && !found.isShared then
        let (operand, state) ← value.emitAt jumps base (number + 1) false true false state
        let state :=
          (state.safePoint ats debugging number).change (·.assign (layout.slot variable_))
        some (.temporary, state.writeAt ats number fun emit =>
          match operand with
          | .variable index => emit.emit (.stackPut index found.index)
          | .temporary => (emit.emit (.stackPut (emit.stack - 1) found.index)).pop
          | .integer value => emit.emit (.load found.index (.integer value))
          | .float value => emit.emit (.load found.index (.float value))
          | .literal value => emit.emit (.load found.index value))
      else
        let (_, state) ← value.emitAt jumps base (number + 1) false false false state
        some (.temporary, (state.safePoint ats debugging number).writeAt ats number fun emit =>
          (if found.isShared then emit.emit (.scopePut (emit.stack - 1) outer found.index)
          else (emit.assign (layout.slot variable_)).emit
            (.stackPut (emit.stack - 1) found.index)).popIf clear)
  | .self outer, state =>
      if clear then some (.temporary, state)
      else
        let state := state.safePoint ats (debugging && tail) number
        some (.temporary, state.writeAt ats number fun emit =>
          (emit.emit (if 0 < outer then .scopeGet emit.stack outer 0 else .self emit.stack)).push)
  | .literal literal, state =>
      some (state.literal ats debugging number literal.operand literal.value tail operand clear)
  | .unary op expression, state => do
      let size := state.emit.size
      let (found, state) ←
        expression.emitAt jumps base (number + 1) false true false (state.change (·.push))
      match foldUnary op found with
      | .operand folded => do
          let value ← folded.constant
          some ((state.change fun emit => { emit.pop with size := size }).literal ats debugging
            number folded value tail operand clear)
      | .instruction =>
          let state := (state.safePoint ats debugging number).change fun emit =>
            (emit.pushUnless found.isTemporary).pop.pop
          some (.temporary, state.writeAt ats number fun emit =>
            emit.finish (.unary op found tail emit.stack) clear)
      | _ => none
  | .binary op left right, state => do
      let size := state.emit.size
      let (found0, state) ←
        left.emitAt jumps base (number + 1) false true false (state.change (·.push))
      let (found1, state) ←
        right.emitAt jumps (base + left.blocks) (number + 1 + left.count) false true false
          (state.change (·.pushUnless found0.isTemporary))
      match foldBinary op found0 found1 with
      | .operand folded => do
          let value ← folded.constant
          some ((state.change fun emit => { emit.pop.pop with size := size }).literal ats debugging
            number folded value tail operand clear)
      | .instruction =>
          let state := (state.safePoint ats debugging number).change fun emit =>
            (emit.pushUnless found1.isTemporary).pop.pop.pop
          some (.temporary, state.writeAt ats number fun emit =>
            emit.finish (.binary op found0 found1 tail emit.stack) clear)
      | _ => none
  | .preserve, state => some (.temporary, state.change (·.pushUnless clear))
  | .call target arguments expands, state => do
      let stack := state.emit.stack
      let get := target.called layout expands
      let callee : Callee :=
        match get with
        | some (resolved, found) =>
            if found.isShared then .scope resolved found.index
            else .slot found.index
              (decide (found.index < layout.arguments) || state.emit.privates found.index ||
                arguments.settles layout found.index)
        | none => .stack
      let state ←
        if get.isSome then some (state.change (·.push.push))
        else
          match target with
          | .operate (.objectGet key) operands => do
              let state ← operands.emitValuesAt jumps base (number + 2) state
              some ((state.safePoint ats debugging (number + 1)).writeAt ats (number + 1)
                fun emit => (emit.emit (.bind (.methodGet key) stack)).push)
          | .operate .getAt operands => do
              let state ← operands.emitValuesAt jumps base (number + 2) state
              some ((state.safePoint ats debugging (number + 1)).writeAt ats (number + 1)
                (·.emit (.bind .methodBind stack)))
          | target => do
              let (_, state) ← target.emitAt jumps base (number + 1) false false false state
              some (state.change (·.emitNull))
      let state ←
        arguments.emitValuesAt jumps (base + target.blocks) (number + 1 + target.count) state
      let state := (state.change (·.atStack stack)).safePoint ats debugging number
      some (.temporary, state.writeCall ats number callee expands fun emit =>
        emit.finish (.call callee tail stack arguments.length expands) clear)

def Nodes.emitSequenceAt (jumps : Jumps) (base number : Nat) (tail clear : Bool) :
    Nodes F O → Positioned F O → Option (Positioned F O)
  | .nil, state => some (state.change fun emit => if clear then emit else emit.emitNull)
  | .cons head rest, state =>
      if rest.isNil then do
        let (_, state) ← head.emitAt jumps base number tail false clear state
        some state
      else do
        let (_, state) ← head.emitAt jumps base number false false true state
        rest.emitSequenceAt jumps (base + head.blocks) (number + head.count) tail clear state

def Nodes.emitValuesAt (jumps : Jumps) (base number : Nat) :
    Nodes F O → Positioned F O → Option (Positioned F O)
  | .nil, state => some state
  | .cons head rest, state => do
      let (_, state) ← head.emitAt jumps base number false false false state
      rest.emitValuesAt jumps (base + head.blocks) (number + head.count) state

/-- No entry is made behind a `CATCH`. -/
def Catches.emitAt (jumps : Jumps) (base number : Nat) (clear : Bool) :
    Catches F O → Positioned F O → Option (Positioned F O)
  | .nil, state => some state
  | .cons expression variable_ body tail, state => do
      let found := layout.variableOf variable_
      let blockBody := base + 1 + expression.blocks
      let numberBody := number + expression.count
      if !found.isShared && decide (found.index < layout.arguments) then none
      else do
        let state := state.change (·.popIf !clear)
        let (_, state) ← expression.emitAt jumps (base + 1) number false false false state
        let label0 := state.emit.labels
        let state := state.write (.clause number expression.count) fun emit =>
          emit.label.pop.emit (.catch_ label0 found.isShared found.index)
        let (_, state) ←
          body.emitAt jumps (blockBody + 1) numberBody false false clear state
        let state := state.change fun emit => (emit.emit (.finally_ .step)).setTarget label0
        tail.emitAt jumps (blockBody + 1 + body.blocks) (numberBody + body.count) clear state

def Optional.emitConditionAt (jumps : Jumps) (base number label : Nat) :
    Optional F O → Positioned F O → Option (Positioned F O)
  | .none, state => some state
  | .some node, state => do
      let (_, state) ← node.emitAt jumps base number false false false state
      some (state.change fun emit => emit.pop.emit (.branch emit.pop.stack label))

def Optional.emitClearedAt (jumps : Jumps) (base number : Nat) :
    Optional F O → Positioned F O → Option (Positioned F O)
  | .none, state => some state
  | .some node, state => do
      let (_, state) ← node.emitAt jumps base number false false true state
      some state

end

end

namespace Scope

variable {F O : Type} [Double F] (ats : Ats) (debugging : Bool) (scope : Scope F O)

def startAt : Positioned F O where
  emit := scope.start
  last := (scope.prologue.map Instr.width).sum
  sites := Positioned.sitesFrom .none 0 scope.prologue
  ats := []

/-- The body of `t_lambda::f_emit` and of `t_emit::operator()`. -/
def emitAt : Option (Positioned F O) := do
  let blocks := scope.body.analyze scope.layout
  let (_, state) ← scope.body.emitAt ats debugging scope.layout blocks scope.jumps 2 0
    scope.isLambda false (!scope.isLambda) scope.startAt
  if scope.isLambda then
    some (state.change fun emit =>
      let emit := emit.pop.setTarget 0
      emit.emit (.return_ emit.stack))
  else some (state.change (·.emit (.returnLoad .null)))

end Scope

namespace Positioned

variable {F O : Type} (ats : Ats) (debugging : Bool)

def bare {α : Type} (result : α × Positioned F O) : α × Emit F O := (result.1, result.2.emit)

theorem bare_literal (number : Nat) (literal : Operand F O) (value : Value F O)
    (tail operand clear : Bool) (state : Positioned F O) :
    bare (state.literal ats debugging number literal value tail operand clear) =
      state.emit.literal literal value tail operand clear := by
  cases operand <;> cases clear <;> cases tail <;> rfl

theorem constant_bare (number : Nat) (folded : Operand F O) (tail operand clear : Bool)
    (state : Positioned F O) :
    (folded.constant.bind fun value =>
        some (state.literal ats debugging number folded value tail operand clear)).map bare =
      folded.constant.bind fun value =>
        some (state.emit.literal folded value tail operand clear) := by
  cases folded.constant with
  | none => rfl
  | some value => exact congrArg some (bare_literal ..)

theorem bind_bare {α β γ δ : Type} {first : Option α} {second : Option β} {forget : α → β}
    {next : α → Option γ} {then_ : β → Option δ} {drop : γ → δ}
    (same : first.map forget = second) (rest : ∀ a, (next a).map drop = then_ (forget a)) :
    (first.bind next).map drop = second.bind then_ := by
  subst same
  cases first with
  | none => rfl
  | some a => exact rest a

end Positioned

section

variable {F O : Type} [Double F] (ats : Ats) (debugging : Bool) (layout : Layout)
variable (blocks : Nat → Block)

open Positioned

mutual

theorem Node.emit_bare (jumps : Jumps) (base number : Nat) (tail operand clear : Bool) :
    ∀ (node : Node F O) (state : Positioned F O),
      (node.emitAt ats debugging layout blocks jumps base number tail operand clear state).map
          bare =
        node.emit layout blocks jumps base tail operand clear state.emit
  | .nodes items, state => by
      rw [Node.emit, Node.emitAt]
      apply bind_bare (Nodes.emitSequence_bare jumps base (number + 1) tail clear items state)
      intro state
      rfl
  | .operate action operands, state => by
      rw [Node.emit, Node.emitAt]
      apply bind_bare (Nodes.emitValues_bare jumps base _ operands _)
      intro state
      cases action.isLambda <;> rfl
  | .if_ condition true_ false_, state => by
      rw [Node.emit, Node.emitAt]
      apply bind_bare (Optional.emitCondition_bare jumps base _ _ condition _)
      intro state
      apply bind_bare (Node.emit_bare jumps _ _ tail false clear true_ _)
      intro result
      apply bind_bare (Node.emit_bare jumps _ _ tail false clear false_ _)
      intro result
      rfl
  | .while_ condition body, state => by
      rw [Node.emit, Node.emitAt]
      apply bind_bare (Optional.emitCondition_bare jumps _ _ _ condition _)
      intro state
      apply bind_bare (Node.emit_bare _ _ _ false false true body _)
      intro result
      cases clear <;> rfl
  | .for_ initialization condition next body, state => by
      rw [Node.emit, Node.emitAt]
      apply bind_bare (Optional.emitCleared_bare jumps base _ initialization _)
      intro state
      cases next with
      | none =>
        apply bind_bare (Optional.emitCondition_bare jumps _ _ _ condition _)
        intro state
        apply bind_bare (Node.emit_bare _ _ _ false false true body _)
        intro result
        apply bind_bare (Optional.emitCleared_bare jumps _ _ .none _)
        intro state
        rfl
      | some node =>
        apply bind_bare (Optional.emitCondition_bare jumps _ _ _ condition _)
        intro state
        apply bind_bare (Node.emit_bare _ _ _ false false true body _)
        intro result
        apply bind_bare (Optional.emitCleared_bare jumps _ _ (.some node) _)
        intro state
        rfl
  | .break_ expression, state => by
      rw [Node.emit, Node.emitAt]
      cases jumps.break_ with
      | none => rfl
      | some label =>
        apply bind_bare (Node.emit_bare jumps base _ jumps.breakIsTail false _ expression _)
        intro result
        rfl
  | .continue_, state => by
      rw [Node.emit, Node.emitAt]
      cases jumps.continue_ with
      | none => rfl
      | some label =>
        rfl
  | .return_ expression, state => by
      rw [Node.emit, Node.emitAt]
      cases jumps.return_ with
      | none => rfl
      | some label =>
        apply bind_bare (Node.emit_bare jumps base _ jumps.returnIsTail false false expression _)
        intro result
        rfl
  | .try_ body catches finally_, state => by
      rw [Node.emit, Node.emitAt]
      apply bind_bare (Node.emit_bare _ _ _ false false clear body _)
      intro result
      apply bind_bare (Catches.emit_bare _ _ _ clear catches _)
      intro state
      apply bind_bare (Optional.emitCleared_bare _ _ _ finally_ _)
      intro state
      rfl
  | .throw_ expression, state => by
      rw [Node.emit, Node.emitAt]
      apply bind_bare (Node.emit_bare jumps base _ false false false expression _)
      intro result
      rfl
  | .symbolGet resolved none symbol, state => by
      rw [Node.emit, Node.emitAt]
      rfl
  | .symbolGet resolved (some variable_) symbol, state => by
      rw [Node.emit, Node.emitAt]
      cases (layout.variableOf variable_).isShared with
      | true => rfl
      | false => cases operand <;> cases tail <;> rfl
  | .scopePut outer variable_ value, state => by
      rw [Node.emit, Node.emitAt]
      cases clear && !(layout.variableOf variable_).isShared with
      | true =>
        apply bind_bare (Node.emit_bare jumps base _ false true false value _)
        intro (operand, state)
        cases operand <;> rfl
      | false =>
        apply bind_bare (Node.emit_bare jumps base _ false false false value _)
        intro result
        rfl
  | .self outer, state => by
      rw [Node.emit, Node.emitAt]
      cases clear with
      | true => rfl
      | false => by_cases inner : 0 < outer <;> simp [inner, bare, writeAt, write, enter, safePoint]
  | .literal literal, state => by
      rw [Node.emit, Node.emitAt, Option.map_some, bare_literal]
  | .unary op expression, state => by
      rw [Node.emit, Node.emitAt]
      apply bind_bare (Node.emit_bare jumps base _ false true false expression _)
      intro (found, state)
      dsimp only [bare]
      cases foldUnary op found with
      | operand folded => exact constant_bare ats debugging number folded tail operand clear _
      | instruction => rfl
      | throwNotSupported => rfl
      | undefined => rfl
  | .binary op left right, state => by
      rw [Node.emit, Node.emitAt]
      apply bind_bare (Node.emit_bare jumps base _ false true false left _)
      intro (found0, state)
      apply bind_bare (Node.emit_bare jumps _ _ false true false right _)
      intro (found1, state)
      dsimp only [bare]
      cases foldBinary op found0 found1 with
      | operand folded => exact constant_bare ats debugging number folded tail operand clear _
      | instruction => rfl
      | throwNotSupported => rfl
      | undefined => rfl
  | .preserve, state => by
      rw [Node.emit, Node.emitAt]
      rfl
  | .call target arguments expands, state => by
      by_cases method : ∃ key operands, target = .operate (.objectGet key) operands
      · obtain ⟨key, operands, rfl⟩ := method
        rw [Node.emit, Node.emitAt]
        apply bind_bare (Nodes.emitValues_bare jumps base _ operands _)
        intro state
        apply bind_bare (Nodes.emitValues_bare jumps _ _ arguments _)
        intro state
        rfl
      by_cases getter : ∃ operands, target = .operate .getAt operands
      · obtain ⟨operands, rfl⟩ := getter
        rw [Node.emit, Node.emitAt]
        apply bind_bare (Nodes.emitValues_bare jumps base _ operands _)
        intro state
        apply bind_bare (Nodes.emitValues_bare jumps _ _ arguments _)
        intro state
        rfl
      rw [Node.emit, Node.emitAt]
      case x_2 => exact fun key operands same => method ⟨key, operands, same⟩
      case x_3 => exact fun operands same => getter ⟨operands, same⟩
      case x_2 => exact fun key operands same => method ⟨key, operands, same⟩
      case x_3 => exact fun operands same => getter ⟨operands, same⟩
      cases called : target.called layout expands with
      | some found =>
        apply bind_bare (Nodes.emitValues_bare jumps _ _ arguments _)
        intro state
        rfl
      | none =>
        apply bind_bare (Node.emit_bare jumps base _ false false false target _)
        intro result
        apply bind_bare (Nodes.emitValues_bare jumps _ _ arguments _)
        intro state
        rfl
  termination_by tree _ => sizeOf tree

theorem Nodes.emitSequence_bare (jumps : Jumps) (base number : Nat) (tail clear : Bool) :
    ∀ (nodes : Nodes F O) (state : Positioned F O),
      (nodes.emitSequenceAt ats debugging layout blocks jumps base number tail clear state).map
          Positioned.emit =
        nodes.emitSequence layout blocks jumps base tail clear state.emit
  | .nil, state => by
      rw [Nodes.emitSequenceAt, Nodes.emitSequence]
      rfl
  | .cons head rest, state => by
      rw [Nodes.emitSequenceAt, Nodes.emitSequence]
      split
      · apply bind_bare (Node.emit_bare jumps base number tail false clear head state)
        intro result
        rfl
      · apply bind_bare (Node.emit_bare jumps base number false false true head state)
        intro result
        exact Nodes.emitSequence_bare jumps _ _ tail clear rest _
  termination_by tree _ => sizeOf tree

theorem Nodes.emitValues_bare (jumps : Jumps) (base number : Nat) :
    ∀ (nodes : Nodes F O) (state : Positioned F O),
      (nodes.emitValuesAt ats debugging layout blocks jumps base number state).map Positioned.emit =
        nodes.emitValues layout blocks jumps base state.emit
  | .nil, state => by
      rw [Nodes.emitValuesAt, Nodes.emitValues]
      rfl
  | .cons head rest, state => by
      rw [Nodes.emitValuesAt, Nodes.emitValues]
      apply bind_bare (Node.emit_bare jumps base number false false false head state)
      intro result
      exact Nodes.emitValues_bare jumps _ _ rest _
  termination_by tree _ => sizeOf tree

theorem Catches.emit_bare (jumps : Jumps) (base number : Nat) (clear : Bool) :
    ∀ (catches : Catches F O) (state : Positioned F O),
      (catches.emitAt ats debugging layout blocks jumps base number clear state).map
          Positioned.emit =
        catches.emit layout blocks jumps base clear state.emit
  | .nil, state => by
      rw [Catches.emitAt, Catches.emit]
      rfl
  | .cons expression variable_ body tail, state => by
      rw [Catches.emitAt, Catches.emit]
      cases !(layout.variableOf variable_).isShared &&
        decide ((layout.variableOf variable_).index < layout.arguments) with
      | true => rfl
      | false =>
        apply bind_bare (Node.emit_bare jumps _ _ false false false expression _)
        intro result
        apply bind_bare (Node.emit_bare jumps _ _ false false clear body _)
        intro result
        exact Catches.emit_bare jumps _ _ clear tail _
  termination_by tree _ => sizeOf tree

theorem Optional.emitCondition_bare (jumps : Jumps) (base number label : Nat) :
    ∀ (optional : Optional F O) (state : Positioned F O),
      (optional.emitConditionAt ats debugging layout blocks jumps base number label state).map
          Positioned.emit =
        optional.emitCondition layout blocks jumps base label state.emit
  | .none, state => by
      rw [Optional.emitConditionAt, Optional.emitCondition]
      rfl
  | .some node, state => by
      rw [Optional.emitConditionAt, Optional.emitCondition]
      apply bind_bare (Node.emit_bare jumps base number false false false node state)
      intro result
      rfl
  termination_by tree _ => sizeOf tree

theorem Optional.emitCleared_bare (jumps : Jumps) (base number : Nat) :
    ∀ (optional : Optional F O) (state : Positioned F O),
      (optional.emitClearedAt ats debugging layout blocks jumps base number state).map
          Positioned.emit =
        optional.emitCleared layout blocks jumps base state.emit
  | .none, state => by
      rw [Optional.emitClearedAt, Optional.emitCleared]
      rfl
  | .some node, state => by
      rw [Optional.emitClearedAt, Optional.emitCleared]
      apply bind_bare (Node.emit_bare jumps base number false false true node state)
      intro result
      rfl
  termination_by tree _ => sizeOf tree

end

end

theorem Scope.emit_bare {F O : Type} [Double F] (ats : Ats) (debugging : Bool)
    (scope : Scope F O) :
    (scope.emitAt ats debugging).map Positioned.emit = scope.emit := by
  rw [Scope.emitAt, Scope.emit]
  apply Positioned.bind_bare (Node.emit_bare ats debugging scope.layout _ scope.jumps 2 0
    scope.isLambda false (!scope.isLambda) scope.body scope.startAt)
  intro result
  cases scope.isLambda <;> rfl

end Xemmai
