import Xemmai.Reach

/-!
# What an emission leaves

The constructs that make labels are emitted in phases, between which their parts
are emitted. Whatever the node, its emission only adds to the code, sets each
label that it makes at most once and no other label, raises the stack by its
value, and leaves the privates that `Node.after` tells.
-/

namespace Xemmai

set_option autoImplicit false

section Phases

variable {F O : Type}

def Exits.loop (exits : Exits) (junctionExit stack : Nat) (tail clear : Bool)
    (continueJunction : Nat) (exposed : List Nat) : Exits :=
  { exits with
    breakJunction := junctionExit
    breakStack := stack
    breakIsTail := tail
    breakMustClear := clear
    continueJunction := continueJunction
    exposed := exposed }

def Jumps.loop (jumps : Jumps) (junctionExit stack : Nat) (tail clear : Bool)
    (continueJunction : Nat) (exposed : List Nat) (break0 continue0 : Nat) : Jumps :=
  { jumps.toExits.loop junctionExit stack tail clear continueJunction exposed with
    break_ := some break0
    continue_ := some continue0
    return_ := jumps.return_ }

/-- The targets in the body and the catch clauses of a try. -/
def Exits.try_ (exits : Exits) (junctionFinally stack : Nat) : Exits where
  breakJunction := junctionFinally
  breakStack := stack
  breakIsTail := false
  breakMustClear := exits.breakMustClear
  continueJunction := junctionFinally
  returnJunction := junctionFinally
  returnStack := stack
  returnIsTail := false
  exposed := []

/-- `catch0` is the first label that the try makes. -/
def Jumps.try_ (jumps : Jumps) (junctionFinally stack catch0 : Nat) : Jumps :=
  { jumps.toExits.try_ junctionFinally stack with
    break_ := jumps.break_.map fun _ => catch0 + 2
    continue_ := jumps.continue_.map fun _ => catch0 + 3
    return_ := jumps.return_.map fun _ => catch0 + 4 }

def Jumps.absent : Jumps :=
  { Exits.none with break_ := Option.none, continue_ := Option.none, return_ := Option.none }

namespace Emit

/-- The exposed slots of a jump to the third part of a `for`. -/
def exposures (layout : Layout) (next : Bool) (source target : Block) : List Nat :=
  if next then layout.exposures source target else []

variable (layout : Layout)

/-- Between the parts of a `t_if`. -/
def elseIf (junction : Block) (label0 : Nat) (condition true_ : Emit F O) : Emit F O :=
  let state := true_.join layout junction
  let state := (state.label.emit (.jump true_.labels [])).setTarget label0
  { state.atStack condition.stack with privates := condition.privates }

def closeIf (junction : Block) (label1 : Nat) (state : Emit F O) : Emit F O :=
  ((state.join layout junction).setTarget label1).merge junction

/-- The begin of a loop up to its condition; `next` is for the label of the third part
of a `for`. The label `label0` is the last one that is made. -/
def openLoop (junction : Block) (next : Bool) (state : Emit F O) : Emit F O :=
  let loop := state.labels
  let state := (state.join layout junction).label
  let state := if next then state.label else state
  ((state.setTarget loop).merge junction).label

/-- The end of a loop behind its body and the third part. -/
def closeLoop (junction : Block) (loop label0 break0 : Nat) (clear : Bool) (state : Emit F O) :
    Emit F O :=
  let state := (state.emit (.jump loop [])).setTarget label0
  let state := state.join layout junction
  let state := if clear then state else state.emitNull
  (state.setTarget break0).merge junction

def setTargetIf (next : Bool) (label : Nat) (state : Emit F O) : Emit F O :=
  if next then state.setTarget label else state

def openTry (junction : Block) (exposed : List Nat) (state : Emit F O) : Emit F O :=
  let state := (state.join layout junction).merge junction
  let state := state.label.label.emit (.try_ state.stack state.labels (state.labels + 1) exposed)
  state.label.label.label

def openCatches (catch0 : Nat) (state : Emit F O) : Emit F O :=
  (state.emit (.finally_ .step)).setTarget catch0

def openClause (isShared : Bool) (index : Nat) (state : Emit F O) : Emit F O :=
  state.label.pop.emit (.catch_ state.labels isShared index)

/-- Between the catch clauses and the finally block. -/
def openFinally (catch0 : Nat) (isSome clear : Bool) (state : Emit F O) : Emit F O :=
  let state := (state.emit (.finally_ .throw_)).setTarget (catch0 + 2)
  let state := (state.emit (.finally_ .break_)).setTarget (catch0 + 3)
  let state := (state.emit (.finally_ .continue_)).setTarget (catch0 + 4)
  let state := (state.emit (.finally_ .return_)).setTarget (catch0 + 1)
  if isSome then state.pushUnless !clear else state

variable (blocks : Nat → Block)

/-- Whether an exit of a try needs code of its own, from a try at `stack` to a target that
expects its value at `height`. -/
def needs (junction height stack : Nat) (state : Emit F O) : Bool :=
  decide (height < stack) || !(layout.nulls state.privates (blocks junction)).isEmpty

/-- The second half of `t_try::f_emit`, behind the finally block. -/
def closeTry (jumps : Jumps) (stack : Nat) (isSome clear : Bool) (state : Emit F O) :
    Emit F O :=
  let state := if isSome then state.popIf clear else state
  let breakStack := if jumps.breakMustClear then stack else jumps.breakStack
  let breaks := state.operand jumps.break_ (state.needs layout blocks jumps.breakJunction
    breakStack stack)
  let continues := breaks.2.2.operand jumps.continue_ (state.needs layout blocks
    jumps.continueJunction stack stack)
  let returns := continues.2.2.operand jumps.return_ (state.needs layout blocks
    jumps.returnJunction jumps.returnStack stack)
  let state := returns.2.2.emit (.yrt breaks.1 continues.1 returns.1)
  let stepped := breaks.2.1.isSome || continues.2.1.isSome || returns.2.1.isSome
  let step := state.labels
  let state := if stepped then state.label.emit (.jump step []) else state
  let state :=
    state.rejoin layout breaks.2.1 jumps.break_ (blocks jumps.breakJunction) breakStack stack
  let state :=
    state.rejoin layout continues.2.1 jumps.continue_ (blocks jumps.continueJunction) stack stack
  let state := state.rejoin layout returns.2.1 jumps.return_ (blocks jumps.returnJunction)
    jumps.returnStack stack
  if stepped then state.setTarget step else state

def mention (variable_ : Nat) (state : Emit F O) : Emit F O :=
  match layout.slot variable_ with
  | some slot => state.known slot
  | none => state

end Emit

variable [Double F] (layout : Layout) (blocks : Nat → Block) (jumps : Jumps) (base : Nat)

def Node.callee (arguments : Nodes F O) (expands : List Nat) (privates : Nat → Bool)
    (target : Node F O) : Callee :=
  match target.called layout expands with
  | some (resolved, found) =>
      if found.isShared then .scope resolved found.index
      else .slot found.index (decide (found.index < layout.arguments) || privates found.index ||
        arguments.settles layout found.index)
  | none => .stack

/-- What `t_call::f_emit` does of its target. -/
def Node.emitTarget (expands : List Nat) (target : Node F O) (state : Emit F O) :
    Option (Emit F O) :=
  if (target.called layout expands).isSome then some state.push.push
  else
    match target with
    | .operate (.objectGet key) operands => do
        let state1 ← operands.emitValues layout blocks jumps base state
        some (state1.emit (.bind (.methodGet key) state.stack)).push
    | .operate .getAt operands => do
        let state1 ← operands.emitValues layout blocks jumps base state
        some (state1.emit (.bind .methodBind state.stack))
    | target => do
        let (_, state1) ← target.emit layout blocks jumps base false false false state
        some state1.emitNull

theorem Node.emit_call (tail operand clear : Bool) (target : Node F O) (arguments : Nodes F O)
    (expands : List Nat) (state : Emit F O) :
    (Node.call target arguments expands).emit layout blocks jumps base tail operand clear state =
        (do
      let state1 ← target.emitTarget layout blocks jumps base expands state
      let state2 ← arguments.emitValues layout blocks jumps (base + target.blocks) state1
      some (.temporary, (state2.atStack state.stack).finish (.call
        (target.callee layout arguments expands state.privates) tail state.stack arguments.length
        expands) clear)) := by
  unfold Node.emit Node.emitTarget
  dsimp only
  split
  · rfl
  · split <;> simp only [Option.bind_eq_bind, Option.bind_assoc] <;> rfl

theorem Node.emit_symbolGet (tail operand clear : Bool) (resolved variable_ symbol : Nat)
    (state : Emit F O) :
    (Node.symbolGet resolved (some variable_) symbol : Node F O).emit layout blocks jumps base tail
        operand clear state = (
      let found := layout.variableOf variable_
      let known := state.mention layout variable_
      if found.isShared then
        some (.temporary, state.finish (.scopeGet state.stack resolved found.index) clear)
      else if operand then some (.variable found.index, known)
      else if tail then some (.temporary, known.finish (.return_ found.index) clear)
      else some (.temporary, known.finish (.stackGet known.stack found.index) clear)) := by
  rfl

theorem Node.emit_if (tail operand clear : Bool) (condition : Optional F O)
    (true_ false_ : Node F O) (state : Emit F O) :
    (Node.if_ condition true_ false_).emit layout blocks jumps base tail operand clear state = (do
      let blockFalse := base + condition.blocks + 1 + true_.blocks
      let junction := blocks (blockFalse + 1 + false_.blocks)
      let state1 ← condition.emitCondition layout blocks jumps base state.labels state.label
      let (_, state2) ← true_.emit layout blocks jumps (base + condition.blocks + 1) tail false clear
        state1
      let (_, state3) ← false_.emit layout blocks jumps (blockFalse + 1) tail false clear
        (state1.elseIf layout junction state.labels state2)
      some (.temporary, state3.closeIf layout junction state2.labels)) := by
  rfl

theorem Node.emit_while (tail operand clear : Bool) (condition : Optional F O) (body : Node F O)
    (state : Emit F O) :
    (Node.while_ condition body).emit layout blocks jumps base tail operand clear state = (do
      let blockBody := base + 1 + 1 + condition.blocks
      let junctionExit := blockBody + 1 + body.blocks
      let state1 ← condition.emitCondition layout blocks jumps (base + 1 + 1) (state.labels + 1)
        (state.openLoop layout (blocks base) false)
      let (_, state2) ← body.emit layout blocks
        (jumps.loop junctionExit state1.stack tail clear base [] state1.labels state.labels)
        (blockBody + 1) false false true state1.label
      some (.temporary, state2.closeLoop layout (blocks junctionExit) state.labels
        (state.labels + 1) state1.labels clear)) := by
  rfl

theorem Node.emit_for (tail operand clear : Bool) (initialization condition next : Optional F O)
    (body : Node F O) (state : Emit F O) :
    (Node.for_ initialization condition next body).emit layout blocks jumps base tail operand clear
        state = (do
      let junctionCondition := base + initialization.blocks
      let blockBody := junctionCondition + 1 + 1 + condition.blocks
      let junctionNext := blockBody + 1 + body.blocks
      let junctionExit := junctionNext + 1 + 1 + next.blocks
      let state0 ← initialization.emitCleared layout blocks jumps base state
      let continue0 := if next.isSome then state0.labels + 1 else state0.labels
      let state1 ← condition.emitCondition layout blocks jumps (junctionCondition + 1 + 1)
        (continue0 + 1) (state0.openLoop layout (blocks junctionCondition) next.isSome)
      let (_, state2) ← body.emit layout blocks
        (jumps.loop junctionExit state1.stack tail clear junctionNext
          (Emit.exposures layout next.isSome (blocks junctionCondition) (blocks junctionNext))
          state1.labels continue0)
        (blockBody + 1) false false true state1.label
      let state3 ← next.emitCleared layout blocks jumps (junctionNext + 1 + 1)
        (state2.setTargetIf next.isSome continue0)
      some (.temporary, state3.closeLoop layout (blocks junctionExit) state0.labels
        (continue0 + 1) state1.labels clear)) := by
  cases next <;> rfl

theorem Node.emit_try (tail operand clear : Bool) (body : Node F O) (catches : Catches F O)
    (finally_ : Optional F O) (state : Emit F O) :
    (Node.try_ body catches finally_).emit layout blocks jumps base tail operand clear state = (do
      let blockCatches := base + 1 + 1 + body.blocks
      let junctionFinally := blockCatches + catches.blocks
      let jumps1 := jumps.try_ junctionFinally state.stack state.labels
      let (_, state1) ← body.emit layout blocks jumps1 (base + 1 + 1) false false clear
        (state.openTry layout (blocks base) (catches.exposed layout blocks base blockCatches))
      let state2 ← catches.emit layout blocks jumps1 blockCatches clear
        (state1.openCatches state.labels)
      let state3 ← finally_.emitCleared layout blocks Jumps.absent (junctionFinally + 1 + 1)
        (state2.openFinally state.labels finally_.isSome clear)
      some (.temporary, state3.closeTry layout blocks jumps state.stack finally_.isSome clear)) := by
  rfl

theorem Catches.emit_cons (clear : Bool) (expression : Node F O) (variable_ : Nat)
    (body : Node F O) (tail : Catches F O) (state : Emit F O) :
    (Catches.cons expression variable_ body tail).emit layout blocks jumps base clear state = (
      let found := layout.variableOf variable_
      let blockBody := base + 1 + expression.blocks
      if !found.isShared && decide (found.index < layout.arguments) then none
      else do
        let (_, state1) ← expression.emit layout blocks jumps (base + 1) false false false
          (state.popIf !clear)
        let (_, state2) ← body.emit layout blocks jumps (blockBody + 1) false false clear
          (state1.openClause found.isShared found.index)
        tail.emit layout blocks jumps (blockBody + 1 + body.blocks) clear
          (state2.openCatches state1.labels)) := by
  rfl

end Phases

namespace Emit

variable {F O : Type}

def sets (label : Nat) (state : Emit F O) : Nat := (state.targets.map Prod.fst).count label

/-- Both the code and the targets go on from those of an earlier state. -/
structure Before (first second : Emit F O) : Prop where
  code : first.code <+: second.code
  targets : first.targets <+: second.targets

theorem Before.refl (state : Emit F O) : Before state state :=
  ⟨List.prefix_rfl, List.prefix_rfl⟩

theorem Before.trans {first second third : Emit F O} (left : Before first second)
    (right : Before second third) : Before first third :=
  ⟨left.code.trans right.code, left.targets.trans right.targets⟩

theorem Before.of_eq {first second : Emit F O} (code : second.code = first.code)
    (targets : second.targets = first.targets) : Before first second := by
  constructor
  · rw [code]
  · rw [targets]

/-- The labels that have been made in between are the only ones that may have been set, once
each. -/
structure Extends (first second : Emit F O) : Prop extends Before first second where
  labels : first.labels ≤ second.labels
  marks : ∀ label, second.sets label = first.sets label ∨
    (second.sets label = first.sets label + 1 ∧ first.labels ≤ label ∧ label < second.labels)

@[simp] theorem stack_emit (instruction : Instr F O) (state : Emit F O) :
    (state.emit instruction).stack = state.stack := rfl

@[simp] theorem stack_atStack (stack : Nat) (state : Emit F O) :
    (state.atStack stack).stack = stack := rfl

@[simp] theorem stack_push (state : Emit F O) :
    (state.push).stack = state.stack + 1 := rfl

@[simp] theorem stack_pop (state : Emit F O) :
    (state.pop).stack = state.stack - 1 := rfl

@[simp] theorem stack_label (state : Emit F O) :
    (state.label).stack = state.stack := rfl

@[simp] theorem stack_setTarget (label : Nat) (state : Emit F O) :
    (state.setTarget label).stack = state.stack := rfl

@[simp] theorem stack_join (layout : Layout) (junction : Block) (state : Emit F O) :
    (state.join layout junction).stack = state.stack := rfl

@[simp] theorem stack_emitNull (state : Emit F O) :
    (state.emitNull).stack = state.stack + 1 := rfl

@[simp] theorem stack_merge (junction : Block) (state : Emit F O) :
    (state.merge junction).stack = state.stack := rfl

@[simp] theorem privates_emit (instruction : Instr F O) (state : Emit F O) :
    (state.emit instruction).privates = state.privates := rfl

@[simp] theorem privates_atStack (stack : Nat) (state : Emit F O) :
    (state.atStack stack).privates = state.privates := rfl

@[simp] theorem privates_push (state : Emit F O) :
    (state.push).privates = state.privates := rfl

@[simp] theorem privates_pop (state : Emit F O) :
    (state.pop).privates = state.privates := rfl

@[simp] theorem privates_label (state : Emit F O) :
    (state.label).privates = state.privates := rfl

@[simp] theorem privates_setTarget (label : Nat) (state : Emit F O) :
    (state.setTarget label).privates = state.privates := rfl

@[simp] theorem privates_join (layout : Layout) (junction : Block) (state : Emit F O) :
    (state.join layout junction).privates = state.privates := rfl

@[simp] theorem privates_emitNull (state : Emit F O) :
    (state.emitNull).privates = state.privates := rfl

@[simp] theorem privates_merge (junction : Block) (state : Emit F O) :
    (state.merge junction).privates = junction.out := rfl

@[simp] theorem labels_label (state : Emit F O) : state.label.labels = state.labels + 1 := rfl

@[simp] theorem sets_label (label : Nat) (state : Emit F O) :
    state.label.sets label = state.sets label := rfl

@[simp] theorem stack_pushUnless (clear : Bool) (state : Emit F O) :
    (state.pushUnless clear).stack = state.stack + if clear then 0 else 1 := by
  cases clear <;> rfl

@[simp] theorem privates_pushUnless (clear : Bool) (state : Emit F O) :
    (state.pushUnless clear).privates = state.privates := by
  cases clear <;> rfl

@[simp] theorem stack_popIf (clear : Bool) (state : Emit F O) :
    (state.popIf clear).stack = state.stack - if clear then 1 else 0 := by
  cases clear <;> rfl

@[simp] theorem privates_popIf (clear : Bool) (state : Emit F O) :
    (state.popIf clear).privates = state.privates := by
  cases clear <;> rfl

@[simp] theorem stack_finish (instruction : Instr F O) (clear : Bool) (state : Emit F O) :
    (state.finish instruction clear).stack = state.stack + if clear then 0 else 1 := by
  cases clear <;> rfl

@[simp] theorem privates_finish (instruction : Instr F O) (clear : Bool) (state : Emit F O) :
    (state.finish instruction clear).privates = state.privates := by
  cases clear <;> rfl

@[simp] theorem stack_known (slot : Nat) (state : Emit F O) :
    (state.known slot).stack = state.stack := by
  unfold known
  split <;> rfl

theorem privates_known (slot : Nat) (state : Emit F O) :
    (state.known slot).privates = Function.update state.privates slot true := by
  unfold known
  split
  · next present => rw [← present, Function.update_eq_self]
  · rfl

@[simp] theorem stack_assign (slot : Option Nat) (state : Emit F O) :
    (state.assign slot).stack = state.stack := by
  cases slot <;> rfl

theorem privates_assign (layout : Layout) (variable_ : Nat) (state : Emit F O) :
    (state.assign (layout.slot variable_)).privates = layout.knows state.privates variable_ := by
  unfold Layout.knows
  cases layout.slot variable_ <;> rfl

@[simp] theorem stack_mention (layout : Layout) (variable_ : Nat) (state : Emit F O) :
    (state.mention layout variable_).stack = state.stack := by
  unfold mention
  split <;> simp

theorem privates_mention (layout : Layout) (variable_ : Nat) (state : Emit F O) :
    (state.mention layout variable_).privates = layout.knows state.privates variable_ := by
  unfold mention Layout.knows
  cases layout.slot variable_ with
  | none => rfl
  | some slot => exact privates_known slot state

namespace Extends

variable {first second third : Emit F O}

theorem refl (state : Emit F O) : Extends state state :=
  ⟨.refl state, le_refl _, fun _ => Or.inl rfl⟩

theorem trans (left : Extends first second) (right : Extends second third) :
    Extends first third where
  toBefore := left.toBefore.trans right.toBefore
  labels := left.labels.trans right.labels
  marks label := by
    have := left.labels
    have := right.labels
    have := left.marks label
    have := right.marks label
    omega

theorem of_code {added : List (Instr F O)} (code : second.code = first.code ++ added)
    (targets : second.targets = first.targets) (labels : second.labels = first.labels) :
    Extends first second where
  code := ⟨added, code.symm⟩
  targets := by rw [targets]
  labels := labels.ge
  marks label := Or.inl (by rw [sets, targets]; rfl)

theorem emit (instruction : Instr F O) (state : Emit F O) :
    Extends state (state.emit instruction) := of_code rfl rfl rfl

theorem push (state : Emit F O) : Extends state state.push :=
  of_code (List.append_nil _).symm rfl rfl

theorem pop (state : Emit F O) : Extends state state.pop :=
  of_code (List.append_nil _).symm rfl rfl

theorem atStack (stack : Nat) (state : Emit F O) : Extends state (state.atStack stack) :=
  of_code (List.append_nil _).symm rfl rfl

theorem pushUnless (clear : Bool) (state : Emit F O) :
    Extends state (state.pushUnless clear) := by
  cases clear with
  | true => exact refl state
  | false => exact push state

theorem popIf (clear : Bool) (state : Emit F O) : Extends state (state.popIf clear) := by
  cases clear with
  | true => exact pop state
  | false => exact refl state

theorem join (layout : Layout) (junction : Block) (state : Emit F O) :
    Extends state (state.join layout junction) := of_code rfl rfl rfl

theorem merge (junction : Block) (state : Emit F O) : Extends state (state.merge junction) :=
  of_code (List.append_nil _).symm rfl rfl

theorem emitNull (state : Emit F O) : Extends state state.emitNull := of_code rfl rfl rfl

theorem finish (instruction : Instr F O) (clear : Bool) (state : Emit F O) :
    Extends state (state.finish instruction clear) :=
  ((emit instruction state).trans (push _)).trans (popIf clear _)

theorem known (slot : Nat) (state : Emit F O) : Extends state (state.known slot) := by
  unfold Emit.known
  split
  · exact refl state
  · exact of_code rfl rfl rfl

theorem mention (layout : Layout) (variable_ : Nat) (state : Emit F O) :
    Extends state (state.mention layout variable_) := by
  unfold Emit.mention
  split
  · exact known _ state
  · exact refl state

theorem assign (slot : Option Nat) (state : Emit F O) : Extends state (state.assign slot) := by
  cases slot with
  | none => exact refl state
  | some slot => exact of_code (List.append_nil _).symm rfl rfl

theorem literal (operand : Operand F O) (value : Value F O) (tail isOperand clear : Bool)
    (state : Emit F O) :
    Extends state (state.literal operand value tail isOperand clear).2 := by
  unfold Emit.literal
  split
  · exact refl state
  · split
    · exact refl state
    · split <;> exact of_code rfl rfl rfl

theorem label (state : Emit F O) : Extends state state.label :=
  ⟨⟨⟨[], List.append_nil _⟩, List.prefix_rfl⟩, Nat.le_succ _, fun _ => Or.inl rfl⟩

end Extends

theorem before_setTarget (label : Nat) (state : Emit F O) :
    state.Before (state.setTarget label) := ⟨List.prefix_rfl, ⟨_, rfl⟩⟩

@[simp] theorem sets_setTarget (label other : Nat) (state : Emit F O) :
    (state.setTarget label).sets other = state.sets other + if label = other then 1 else 0 := by
  simp [sets, setTarget, List.count_singleton]

section Phases

variable (layout : Layout) (junction : Block)

theorem before_elseIf (label0 : Nat) (condition true_ : Emit F O) :
    true_.Before (elseIf layout junction label0 condition true_) := by
  have jumped := ((Extends.join layout junction true_).trans (Extends.label _)).trans
    (Extends.emit (.jump true_.labels []) _)
  have marked := jumped.toBefore.trans (before_setTarget label0 _)
  exact ⟨marked.code, marked.targets⟩

theorem sets_elseIf (label0 : Nat) (condition true_ : Emit F O) (label : Nat) :
    (elseIf layout junction label0 condition true_).sets label =
      true_.sets label + if label0 = label then 1 else 0 :=
  sets_setTarget label0 label (((true_.join layout junction).label).emit (.jump true_.labels []))

theorem labels_elseIf (label0 : Nat) (condition true_ : Emit F O) :
    (elseIf layout junction label0 condition true_).labels = true_.labels + 1 := rfl

theorem labels_closeIf (label1 : Nat) (state : Emit F O) :
    (state.closeIf layout junction label1).labels = state.labels := rfl

theorem sets_closeIf (label1 : Nat) (state : Emit F O) (label : Nat) :
    (state.closeIf layout junction label1).sets label =
      state.sets label + if label1 = label then 1 else 0 :=
  sets_setTarget label1 label (state.join layout junction)

theorem before_closeIf (label1 : Nat) (state : Emit F O) :
    state.Before (state.closeIf layout junction label1) :=
  ((Extends.join layout junction state).toBefore.trans (before_setTarget label1 _)).trans
    (Extends.merge junction _).toBefore

theorem before_openLoop (next : Bool) (state : Emit F O) :
    state.Before (state.openLoop layout junction next) := by
  have joined := ((Extends.join layout junction state).trans (Extends.label _)).toBefore
  cases next with
  | false =>
      exact (joined.trans (before_setTarget _ _)).trans
        ((Extends.merge junction _).trans (Extends.label _)).toBefore
  | true =>
      exact ((joined.trans (Extends.label _).toBefore).trans (before_setTarget _ _)).trans
        ((Extends.merge junction _).trans (Extends.label _)).toBefore

theorem closeLoop_before (loop label0 break0 : Nat) (clear : Bool) (state : Emit F O) :
    ((state.emit (.jump loop [])).setTarget label0).Before
      (state.closeLoop layout junction loop label0 break0 clear) := by
  have joined := fun state : Emit F O => (Extends.join layout junction state).toBefore
  have marked := fun state : Emit F O =>
    (before_setTarget break0 state).trans (Extends.merge junction _).toBefore
  cases clear with
  | false => exact ((joined _).trans (Extends.emitNull _).toBefore).trans (marked _)
  | true => exact (joined _).trans (marked _)

theorem before_closeLoop (loop label0 break0 : Nat) (clear : Bool) (state : Emit F O) :
    state.Before (state.closeLoop layout junction loop label0 break0 clear) :=
  ((Extends.emit (.jump loop []) state).toBefore.trans (before_setTarget label0 _)).trans
    (closeLoop_before layout junction loop label0 break0 clear state)

theorem before_setTargetIf (next : Bool) (label : Nat) (state : Emit F O) :
    state.Before (state.setTargetIf next label) := by
  cases next with
  | false => exact Before.refl state
  | true => exact before_setTarget label state

theorem before_openTry (exposed : List Nat) (state : Emit F O) :
    state.Before (state.openTry layout junction exposed) :=
  (((((((Extends.join layout junction state).trans (Extends.merge junction _)).trans
    (Extends.label _)).trans (Extends.label _)).trans (Extends.emit _ _)).trans
    (Extends.label _)).trans ((Extends.label _).trans (Extends.label _))).toBefore

theorem before_openCatches (catch0 : Nat) (state : Emit F O) :
    state.Before (state.openCatches catch0) :=
  (Extends.emit _ state).toBefore.trans (before_setTarget catch0 _)

theorem code_openFinally (catch0 : Nat) (isSome clear : Bool) (state : Emit F O) :
    (state.openFinally catch0 isSome clear).code = state.code ++
      [.finally_ .throw_, .finally_ .break_, .finally_ .continue_, .finally_ .return_] := by
  cases isSome <;> cases clear <;> simp [openFinally, emit, setTarget, pushUnless, push]

theorem targets_openFinally (catch0 : Nat) (isSome clear : Bool) (state : Emit F O) :
    (state.openFinally catch0 isSome clear).targets = state.targets ++
      [(catch0 + 2, state.code.length + 1), (catch0 + 3, state.code.length + 2),
        (catch0 + 4, state.code.length + 3), (catch0 + 1, state.code.length + 4)] := by
  cases isSome <;> cases clear <;> simp [openFinally, emit, setTarget, pushUnless, push]

theorem openFinally_before (catch0 : Nat) (isSome clear : Bool) (state : Emit F O) :
    (state.emit (.finally_ .throw_)).Before (state.openFinally catch0 isSome clear) where
  code := by
    rw [code_openFinally]
    exact (List.prefix_append_right_inj _).mpr ⟨_, rfl⟩
  targets := by
    rw [targets_openFinally]
    exact ⟨_, rfl⟩

theorem before_openFinally (catch0 : Nat) (isSome clear : Bool) (state : Emit F O) :
    state.Before (state.openFinally catch0 isSome clear) :=
  (Extends.emit (.finally_ .throw_) state).toBefore.trans
    (openFinally_before catch0 isSome clear state)

theorem sets_openLoop (next : Bool) (label : Nat) (state : Emit F O) :
    (state.openLoop layout junction next).sets label =
      state.sets label + if state.labels = label then 1 else 0 := by
  cases next <;> exact sets_setTarget _ _ _

theorem labels_openTry (exposed : List Nat) (state : Emit F O) :
    (state.openTry layout junction exposed).labels = state.labels + 5 := rfl

theorem sets_openTry (exposed : List Nat) (state : Emit F O) (label : Nat) :
    (state.openTry layout junction exposed).sets label = state.sets label := rfl

theorem labels_openClause (isShared : Bool) (index : Nat) (state : Emit F O) :
    (state.openClause isShared index).labels = state.labels + 1 := rfl

theorem sets_openClause (isShared : Bool) (index label : Nat) (state : Emit F O) :
    (state.openClause isShared index).sets label = state.sets label := rfl

theorem labels_openCatches (catch0 : Nat) (state : Emit F O) :
    (state.openCatches catch0).labels = state.labels := rfl

theorem sets_openCatches (catch0 label : Nat) (state : Emit F O) :
    (state.openCatches catch0).sets label =
      state.sets label + if catch0 = label then 1 else 0 :=
  sets_setTarget catch0 label (state.emit (.finally_ .step))

theorem labels_openLoop (next : Bool) (state : Emit F O) :
    (state.openLoop layout junction next).labels = state.labels + if next then 3 else 2 := by
  cases next <;> rfl

theorem stack_openLoop (next : Bool) (state : Emit F O) :
    (state.openLoop layout junction next).stack = state.stack ∧
      (state.openLoop layout junction next).privates = junction.out := by
  cases next <;> exact ⟨rfl, rfl⟩

theorem stack_closeLoop (loop label0 break0 : Nat) (clear : Bool) (state : Emit F O) :
    (state.closeLoop layout junction loop label0 break0 clear).stack =
        state.stack + (if clear then 0 else 1) ∧
      (state.closeLoop layout junction loop label0 break0 clear).privates = junction.out := by
  cases clear <;> exact ⟨rfl, rfl⟩

theorem stack_setTargetIf (next : Bool) (label : Nat) (state : Emit F O) :
    (state.setTargetIf next label).stack = state.stack ∧
      (state.setTargetIf next label).privates = state.privates := by
  cases next <;> exact ⟨rfl, rfl⟩

theorem code_setTargetIf (next : Bool) (label : Nat) (state : Emit F O) :
    (state.setTargetIf next label).code = state.code := by
  cases next <;> rfl

theorem stack_openFinally (catch0 : Nat) (isSome clear : Bool) (state : Emit F O) :
    (state.openFinally catch0 isSome clear).stack =
        state.stack + (if isSome && clear then 1 else 0) ∧
      (state.openFinally catch0 isSome clear).privates = state.privates := by
  cases isSome <;> cases clear <;> exact ⟨rfl, rfl⟩

theorem sets_closeLoop (loop label0 break0 : Nat) (clear : Bool) (label : Nat)
    (state : Emit F O) :
    (state.closeLoop layout junction loop label0 break0 clear).sets label = state.sets label +
      (if label0 = label then 1 else 0) + if break0 = label then 1 else 0 := by
  cases clear <;>
    exact (sets_setTarget break0 label _).trans
      (congrArg (· + _) (sets_setTarget label0 label _))

theorem labels_closeLoop (loop label0 break0 : Nat) (clear : Bool) (state : Emit F O) :
    (state.closeLoop layout junction loop label0 break0 clear).labels = state.labels := by
  cases clear <;> rfl

theorem sets_setTargetIf (next : Bool) (label other : Nat) (state : Emit F O) :
    (state.setTargetIf next label).sets other =
      state.sets other + if next = true ∧ label = other then 1 else 0 := by
  cases next with
  | false => simp [setTargetIf]
  | true => simp [setTargetIf]

theorem labels_setTargetIf (next : Bool) (label : Nat) (state : Emit F O) :
    (state.setTargetIf next label).labels = state.labels := by
  cases next <;> rfl

/-- Setting the four labels from `catch0 + 1` on. -/
theorem sets_openFinally (catch0 : Nat) (isSome clear : Bool) (label : Nat) (state : Emit F O) :
    (state.openFinally catch0 isSome clear).sets label =
      state.sets label + if catch0 < label ∧ label < catch0 + 5 then 1 else 0 := by
  have marked : ∀ (leave : Leave) (own : Nat) (state : Emit F O),
      ((state.emit (.finally_ leave)).setTarget own).sets label =
        state.sets label + if own = label then 1 else 0 :=
    fun leave own state => sets_setTarget own label _
  have all : (state.openFinally catch0 isSome clear).sets label =
      state.sets label + (if catch0 + 2 = label then 1 else 0) +
        (if catch0 + 3 = label then 1 else 0) + (if catch0 + 4 = label then 1 else 0) +
        if catch0 + 1 = label then 1 else 0 := by
    rw [← marked .throw_, ← marked .break_, ← marked .continue_, ← marked .return_]
    cases isSome <;> cases clear <;> rfl
  rw [all]
  split_ifs <;> omega

theorem labels_openFinally (catch0 : Nat) (isSome clear : Bool) (state : Emit F O) :
    (state.openFinally catch0 isSome clear).labels = state.labels := by
  cases isSome <;> cases clear <;> rfl

theorem operand_code (outer : Option Nat) (needed : Bool) (state : Emit F O) :
    (state.operand outer needed).2.2.code = state.code ∧
      (state.operand outer needed).2.2.targets = state.targets ∧
      (state.operand outer needed).2.2.stack = state.stack ∧
      (state.operand outer needed).2.2.privates = state.privates := by
  cases outer <;> cases needed <;> exact ⟨rfl, rfl, rfl, rfl⟩

theorem operand_own (outer : Option Nat) (needed : Bool) (state : Emit F O) :
    ((state.operand outer needed).2.1 = none ∧
      (state.operand outer needed).2.2.labels = state.labels) ∨
    ∃ label, outer = some label ∧ (state.operand outer needed).2.1 = some state.labels ∧
      (state.operand outer needed).2.2.labels = state.labels + 1 := by
  cases outer with
  | none => exact Or.inl ⟨rfl, rfl⟩
  | some label =>
      cases needed with
      | false => exact Or.inl ⟨rfl, rfl⟩
      | true => exact Or.inr ⟨label, rfl, rfl, rfl⟩

theorem rejoin_before (label0 label1 height stack : Nat) (state : Emit F O) :
    (state.setTarget label0).Before
      (state.rejoin layout (some label0) (some label1) junction height stack) := by
  have tail := fun state : Emit F O => ((Extends.join layout junction state).trans
    (Extends.emit (.jump label1 []) _)).toBefore
  unfold rejoin
  dsimp only
  split
  · exact (Extends.emit _ _).toBefore.trans (tail _)
  · exact tail _

theorem before_rejoin (own outer : Option Nat) (height stack : Nat) (state : Emit F O) :
    state.Before (state.rejoin layout own outer junction height stack) := by
  cases own with
  | none => exact Before.refl state
  | some label0 =>
      cases outer with
      | none => exact Before.refl state
      | some label1 =>
          exact (before_setTarget label0 state).trans
            (rejoin_before layout junction label0 label1 height stack state)

theorem labels_rejoin (own outer : Option Nat) (height stack : Nat) (state : Emit F O) :
    (state.rejoin layout own outer junction height stack).labels = state.labels := by
  cases own <;> cases outer <;> try rfl
  simp only [rejoin]
  split <;> rfl

theorem sets_rejoin (own outer : Option Nat) (height stack label : Nat) (state : Emit F O)
    (known : own.isSome = true → outer.isSome = true) :
    (state.rejoin layout own outer junction height stack).sets label =
      state.sets label + if own = some label then 1 else 0 := by
  cases own with
  | none => rfl
  | some label0 =>
      cases outer with
      | none => exact absurd (known rfl) (by simp)
      | some label1 =>
          simp only [Option.some.injEq]
          rw [← sets_setTarget]
          simp only [rejoin]
          split <;> rfl

theorem stack_rejoin (own outer : Option Nat) (height stack : Nat) (state : Emit F O) :
    (state.rejoin layout own outer junction height stack).stack = state.stack ∧
      (state.rejoin layout own outer junction height stack).privates = state.privates := by
  cases own <;> cases outer <;> try exact ⟨rfl, rfl⟩
  simp only [rejoin]
  split <;> exact ⟨rfl, rfl⟩

/-- Behind `YRT`: the exits of a try that have code of their own, and the label behind it. -/
def exitTry (jumps : Jumps) (blocks : Nat → Block) (breakStack stack : Nat)
    (own0 own1 own2 : Option Nat) (state : Emit F O) : Emit F O :=
  let stepped := own0.isSome || own1.isSome || own2.isSome
  let step := state.labels
  let state := if stepped then state.label.emit (.jump step []) else state
  let state := state.rejoin layout own0 jumps.break_ (blocks jumps.breakJunction) breakStack stack
  let state :=
    state.rejoin layout own1 jumps.continue_ (blocks jumps.continueJunction) stack stack
  let state := state.rejoin layout own2 jumps.return_ (blocks jumps.returnJunction)
    jumps.returnStack stack
  if stepped then state.setTarget step else state

theorem before_rejoins (jumps : Jumps) (blocks : Nat → Block) (breakStack stack : Nat)
    (own0 own1 own2 : Option Nat) (state : Emit F O) :
    state.Before (((state.rejoin layout own0 jumps.break_ (blocks jumps.breakJunction) breakStack
      stack).rejoin layout own1 jumps.continue_ (blocks jumps.continueJunction) stack stack).rejoin
        layout own2 jumps.return_ (blocks jumps.returnJunction) jumps.returnStack stack) :=
  ((before_rejoin ..).trans (before_rejoin ..)).trans (before_rejoin ..)

theorem exitTry_plain (jumps : Jumps) (blocks : Nat → Block) (breakStack stack : Nat)
    (state : Emit F O) :
    state.exitTry layout jumps blocks breakStack stack none none none = state := rfl

theorem exitTry_stepped (jumps : Jumps) (blocks : Nat → Block) (breakStack stack : Nat)
    {own0 own1 own2 : Option Nat} (stepped : (own0.isSome || own1.isSome || own2.isSome) = true)
    (state : Emit F O) :
    (state.label.emit (.jump state.labels [])).Before
        (state.exitTry layout jumps blocks breakStack stack own0 own1 own2) ∧
      (state.labels,
        (state.exitTry layout jumps blocks breakStack stack own0 own1 own2).code.length) ∈
        (state.exitTry layout jumps blocks breakStack stack own0 own1 own2).targets := by
  unfold exitTry
  simp only [stepped, if_true]
  exact ⟨(before_rejoins ..).trans (before_setTarget _ _),
    List.mem_append_right _ (List.mem_singleton_self _)⟩

theorem exitTry_rejoins (jumps : Jumps) (blocks : Nat → Block) (breakStack stack : Nat)
    (own0 own1 own2 : Option Nat) (state : Emit F O) :
    ∃ middle : Emit F O, middle.privates = state.privates ∧
      (((middle.rejoin layout own0 jumps.break_ (blocks jumps.breakJunction) breakStack
        stack).rejoin layout own1 jumps.continue_ (blocks jumps.continueJunction) stack
          stack).rejoin layout own2 jumps.return_ (blocks jumps.returnJunction) jumps.returnStack
            stack).Before (state.exitTry layout jumps blocks breakStack stack own0 own1 own2) := by
  unfold exitTry
  dsimp only
  split
  · exact ⟨state.label.emit (.jump state.labels []), rfl, before_setTarget _ _⟩
  · exact ⟨state, rfl, Before.refl _⟩

theorem before_exitTry (jumps : Jumps) (blocks : Nat → Block) (breakStack stack : Nat)
    (own0 own1 own2 : Option Nat) (state : Emit F O) :
    state.Before (state.exitTry layout jumps blocks breakStack stack own0 own1 own2) := by
  cases stepped : own0.isSome || own1.isSome || own2.isSome with
  | true =>
      exact ((Extends.label _).trans (Extends.emit _ _)).toBefore.trans
        (exitTry_stepped layout jumps blocks breakStack stack stepped state).1
  | false =>
      simp only [Bool.or_eq_false_iff, Option.isSome_eq_false_iff, Option.isNone_iff_eq_none]
        at stepped
      obtain ⟨⟨rfl, rfl⟩, rfl⟩ := stepped
      exact Before.refl state

theorem labels_exitTry (jumps : Jumps) (blocks : Nat → Block) (breakStack stack : Nat)
    (own0 own1 own2 : Option Nat) (state : Emit F O) :
    (state.exitTry layout jumps blocks breakStack stack own0 own1 own2).labels =
      state.labels + if own0.isSome || own1.isSome || own2.isSome then 1 else 0 := by
  unfold exitTry
  dsimp only
  split <;> simp [labels_rejoin, setTarget, label, emit]

theorem sets_exitTry (jumps : Jumps) (blocks : Nat → Block) (breakStack stack : Nat)
    (own0 own1 own2 : Option Nat) (state : Emit F O)
    (known0 : own0.isSome = true → jumps.break_.isSome = true)
    (known1 : own1.isSome = true → jumps.continue_.isSome = true)
    (known2 : own2.isSome = true → jumps.return_.isSome = true) (label : Nat) :
    (state.exitTry layout jumps blocks breakStack stack own0 own1 own2).sets label =
      state.sets label + (if own0 = some label then 1 else 0) +
        (if own1 = some label then 1 else 0) + (if own2 = some label then 1 else 0) +
        if (own0.isSome || own1.isSome || own2.isSome) = true ∧ state.labels = label then 1
        else 0 := by
  unfold exitTry
  dsimp only
  split
  · next stepped =>
      rw [sets_setTarget, sets_rejoin _ _ _ _ _ _ _ _ known2, sets_rejoin _ _ _ _ _ _ _ _ known1,
        sets_rejoin _ _ _ _ _ _ _ _ known0]
      simp only [stepped, true_and]
      rfl
  · next stepped =>
      rw [sets_rejoin _ _ _ _ _ _ _ _ known2, sets_rejoin _ _ _ _ _ _ _ _ known1,
        sets_rejoin _ _ _ _ _ _ _ _ known0]
      simp [stepped]

theorem stack_exitTry (jumps : Jumps) (blocks : Nat → Block) (breakStack stack : Nat)
    (own0 own1 own2 : Option Nat) (state : Emit F O) :
    (state.exitTry layout jumps blocks breakStack stack own0 own1 own2).stack = state.stack ∧
      (state.exitTry layout jumps blocks breakStack stack own0 own1 own2).privates =
        state.privates := by
  unfold exitTry
  dsimp only
  split <;> simp [stack_rejoin, setTarget, label, emit]

/-- `closeTry` with the outcome of the three calls for the operands of `YRT`. -/
theorem closeTry_eq (blocks : Nat → Block) (jumps : Jumps) (stack : Nat) (isSome clear : Bool)
    (state : Emit F O) :
    let popped := if isSome then state.popIf clear else state
    let breakStack := if jumps.breakMustClear then stack else jumps.breakStack
    let breaks := popped.operand jumps.break_ (popped.needs layout blocks jumps.breakJunction
      breakStack stack)
    let continues := breaks.2.2.operand jumps.continue_ (popped.needs layout blocks
      jumps.continueJunction stack stack)
    let returns := continues.2.2.operand jumps.return_ (popped.needs layout blocks
      jumps.returnJunction jumps.returnStack stack)
    state.closeTry layout blocks jumps stack isSome clear =
      (returns.2.2.emit (.yrt breaks.1 continues.1 returns.1)).exitTry layout jumps blocks
        breakStack stack breaks.2.1 continues.2.1 returns.2.1 := rfl

theorem extends_closeTry (blocks : Nat → Block) (jumps : Jumps) (stack : Nat)
    (isSome clear : Bool) (state : Emit F O) :
    Extends state (state.closeTry layout blocks jumps stack isSome clear) := by
  have popped : Extends state (if isSome then state.popIf clear else state) := by
    cases isSome with
    | false => exact Extends.refl state
    | true => exact Extends.popIf clear state
  refine popped.trans ?_
  rw [closeTry_eq]
  generalize (if isSome then state.popIf clear else state) = state
  generalize (if jumps.breakMustClear then stack else jumps.breakStack) = breakStack
  generalize state.needs layout blocks jumps.breakJunction breakStack stack = need0
  generalize state.needs layout blocks jumps.continueJunction stack stack = need1
  generalize state.needs layout blocks jumps.returnJunction jumps.returnStack stack = need2
  have code0 := operand_code jumps.break_ need0 state
  have own0 := operand_own jumps.break_ need0 state
  generalize state.operand jumps.break_ need0 = breaks at code0 own0 ⊢
  have code1 := operand_code jumps.continue_ need1 breaks.2.2
  have own1 := operand_own jumps.continue_ need1 breaks.2.2
  generalize breaks.2.2.operand jumps.continue_ need1 = continues at code1 own1 ⊢
  have code2 := operand_code jumps.return_ need2 continues.2.2
  have own2 := operand_own jumps.return_ need2 continues.2.2
  generalize continues.2.2.operand jumps.return_ need2 = returns at code2 own2 ⊢
  rcases breaks with ⟨break1, label0, state0⟩
  rcases continues with ⟨continue1, label1, state1⟩
  rcases returns with ⟨return1, label2, state2⟩
  dsimp only at code0 own0 code1 own1 code2 own2 ⊢
  have made := (((Before.of_eq code0.1 code0.2.1).trans (Before.of_eq code1.1 code1.2.1)).trans
    (Before.of_eq code2.1 code2.2.1)).trans
      (Extends.emit (.yrt break1 continue1 return1) state2).toBefore
  refine ⟨made.trans (before_exitTry layout jumps blocks _ _ _ _ _ _), ?_, ?_⟩
  · rw [labels_exitTry]
    simp only [emit]
    omega
  · intro label
    have known0 : label0.isSome = true → jumps.break_.isSome = true := by
      rcases own0 with ⟨rfl, _⟩ | ⟨outer, found, rfl, _⟩ <;> simp [*]
    have known1 : label1.isSome = true → jumps.continue_.isSome = true := by
      rcases own1 with ⟨rfl, _⟩ | ⟨outer, found, rfl, _⟩ <;> simp [*]
    have known2 : label2.isSome = true → jumps.return_.isSome = true := by
      rcases own2 with ⟨rfl, _⟩ | ⟨outer, found, rfl, _⟩ <;> simp [*]
    have same : (state2.emit (.yrt break1 continue1 return1)).sets label = state.sets label := by
      simp only [sets, emit, code2.2.1, code1.2.1, code0.2.1]
    rw [labels_exitTry, sets_exitTry _ _ _ _ _ _ _ _ _ known0 known1 known2, same]
    simp only [emit]
    rcases own0 with ⟨rfl, own0⟩ | ⟨_, _, rfl, own0⟩ <;>
      rcases own1 with ⟨rfl, own1⟩ | ⟨_, _, rfl, own1⟩ <;>
      rcases own2 with ⟨rfl, own2⟩ | ⟨_, _, rfl, own2⟩ <;>
      simp only [Option.isSome_some, Option.isSome_none, Bool.or_true, Bool.or_false,
        if_true, Bool.false_eq_true, if_false, true_and, false_and, Option.some.injEq,
        reduceCtorEq] <;>
      (try split_ifs) <;> omega

theorem stack_closeTry (blocks : Nat → Block) (jumps : Jumps) (stack : Nat)
    (isSome clear : Bool) (state : Emit F O) :
    (state.closeTry layout blocks jumps stack isSome clear).stack =
        (if isSome then state.popIf clear else state).stack ∧
      (state.closeTry layout blocks jumps stack isSome clear).privates = state.privates := by
  rw [closeTry_eq, (stack_exitTry ..).1, (stack_exitTry ..).2]
  simp only [emit]
  rw [(operand_code ..).2.2.1, (operand_code ..).2.2.1, (operand_code ..).2.2.1,
    (operand_code ..).2.2.2, (operand_code ..).2.2.2, (operand_code ..).2.2.2]
  refine ⟨rfl, ?_⟩
  cases isSome <;> cases clear <;> rfl

theorem Extends.if_ {state state1 state2 state3 : Emit F O} (first : Extends state.label state1)
    (second : Extends state1 state2)
    (third : Extends (elseIf layout junction state.labels state1 state2) state3) :
    Extends state (state3.closeIf layout junction state2.labels) where
  toBefore := ((((Extends.label state).toBefore.trans first.toBefore).trans
    second.toBefore).trans (before_elseIf layout _ _ _ _)).trans
      (third.toBefore.trans (before_closeIf layout _ _ _))
  labels := by
    have := first.labels
    have := second.labels
    have := third.labels
    rw [labels_elseIf, labels_closeIf, labels_label] at *
    omega
  marks label := by
    have := first.labels
    have := second.labels
    have := third.labels
    have := first.marks label
    have := second.marks label
    have := third.marks label
    rw [sets_closeIf, labels_closeIf]
    simp only [labels_elseIf, sets_elseIf, labels_label, sets_label] at *
    split_ifs at * <;> omega

/-- A loop with the label `continue0` of its third part, if it has one. -/
theorem Extends.loop {next : Bool} {continue0 : Nat} {exit : Block} {clear : Bool}
    {state state1 state2 state3 : Emit F O}
    (continued : continue0 = if next then state.labels + 1 else state.labels)
    (first : Extends (state.openLoop layout junction next) state1)
    (second : Extends state1.label state2)
    (third : Extends (state2.setTargetIf next continue0) state3) :
    Extends state
      (state3.closeLoop layout exit state.labels (continue0 + 1) state1.labels clear) where
  toBefore := ((((before_openLoop layout junction next state).trans first.toBefore).trans
    ((Extends.label _).toBefore.trans second.toBefore)).trans (before_setTargetIf _ _ _)).trans
      (third.toBefore.trans (before_closeLoop layout exit _ _ _ _ _))
  labels := by
    have := first.labels
    have := second.labels
    have := third.labels
    rw [labels_closeLoop]
    rw [labels_openLoop, labels_label, labels_setTargetIf] at *
    split_ifs at * <;> omega
  marks label := by
    have := first.labels
    have := second.labels
    have := third.labels
    have := first.marks label
    have := second.marks label
    have := third.marks label
    rw [sets_closeLoop, labels_closeLoop]
    simp only [sets_openLoop, labels_openLoop, labels_setTargetIf, sets_setTargetIf, labels_label,
      sets_label] at *
    cases next <;> simp only [Bool.false_eq_true, if_true, if_false, false_and, true_and] at * <;>
      split_ifs at * <;> omega

/-- A catch clause ends as a body does, with the label of the next one for `catch0`. -/
theorem Extends.clause {isShared : Bool} {index : Nat} {state state1 state2 : Emit F O}
    (first : Extends state state1) (second : Extends (state1.openClause isShared index) state2) :
    Extends state (state2.openCatches state1.labels) where
  toBefore := ((first.toBefore.trans (((Extends.label _).trans (Extends.pop _)).trans
    (Extends.emit _ _)).toBefore).trans second.toBefore).trans (before_openCatches _ _)
  labels := by
    have := first.labels
    have := second.labels
    rw [labels_openCatches]
    rw [labels_openClause] at *
    omega
  marks label := by
    have := first.labels
    have := second.labels
    have := first.marks label
    have := second.marks label
    simp only [labels_openClause, sets_openClause, labels_openCatches, sets_openCatches] at *
    split_ifs at * <;> omega

theorem Extends.try_ {exposed : List Nat} {blocks : Nat → Block} {jumps : Jumps} {stack : Nat}
    {isSome clear : Bool} {state state1 state2 state3 : Emit F O}
    (first : Extends (state.openTry layout junction exposed) state1)
    (second : Extends (state1.openCatches state.labels) state2)
    (third : Extends (state2.openFinally state.labels isSome clear) state3) :
    Extends state (state3.closeTry layout blocks jumps stack isSome clear) := by
  refine Extends.trans ?_ (extends_closeTry layout blocks jumps stack isSome clear state3)
  refine ⟨?_, ?_, ?_⟩
  · exact ((((before_openTry layout junction exposed state).trans first.toBefore).trans
      (before_openCatches _ _)).trans second.toBefore).trans
        ((before_openFinally _ _ _ _).trans third.toBefore)
  · have := first.labels
    have := second.labels
    have := third.labels
    rw [labels_openTry, labels_openCatches, labels_openFinally] at *
    omega
  · intro label
    have := first.labels
    have := second.labels
    have := third.labels
    have := first.marks label
    have := second.marks label
    have := third.marks label
    simp only [labels_openTry, sets_openTry, labels_openCatches, sets_openCatches,
      labels_openFinally, sets_openFinally] at *
    split_ifs at * <;> omega

end Phases

end Emit

open Emit (Extends)

/-- What holds of the emission of a part, which leaves `lift` values. -/
structure Emitted {F O : Type} (state after : Emit F O) (lift : Nat) (privates : Nat → Bool) :
    Prop extends Extends state after where
  stack : after.stack = state.stack + lift
  privates : after.privates = privates

section Nodes

variable {F O : Type} [Double F] (layout : Layout) (blocks : Nat → Block)

/-- The values that a part leaves which is asked to clear its own, or which returns an
operand. -/
def lift (clear : Bool) (form : Operand F O) : Nat :=
  if clear || !form.isTemporary then 0 else 1

omit [Double F] in
@[simp] theorem lift_temporary (clear : Bool) :
    lift clear (.temporary : Operand F O) = if clear then 0 else 1 := by
  cases clear <;> rfl

omit [Double F] in
@[simp] theorem lift_true (form : Operand F O) : lift true form = 0 := rfl

omit [Double F] in
theorem Emitted.plain {state after : Emit F O} {clear : Bool} {form other : Operand F O}
    {privates : Nat → Bool}
    (emitted : Emitted state after (lift clear form) privates ∧
      form = if false = true then other else .temporary) :
    Emitted state after (if clear then 0 else 1) privates := by
  obtain ⟨emitted, rfl⟩ := emitted
  simpa using emitted

omit [Double F] in
theorem Emit.literal_emitted {found form : Operand F O} {value : Value F O}
    {tail operand clear : Bool} {state after : Emit F O} (plain : found.isTemporary = false)
    (emitted : state.literal found value tail operand clear = (form, after)) :
    Emitted state after (lift clear form) state.privates ∧
      form = if operand then found else .temporary := by
  have extends_ := Extends.literal found value tail operand clear state
  rw [emitted] at extends_
  refine ⟨⟨extends_, ?_, ?_⟩, ?_⟩ <;>
    simp only [Emit.literal] at emitted <;> split_ifs at emitted <;> cases emitted <;>
    simp_all [lift, Operand.isTemporary]

omit [Double F] in
theorem Operand.not_temporary {form : Operand F O} {value : Value F O}
    (constant : form.constant = some value) : form.isTemporary = false := by
  cases form with
  | temporary => exact absurd constant (by simp [Operand.constant])
  | _ => rfl

omit [Double F] in
theorem Operand.lift_constant {form : Operand F O} (constant : form.constant.isSome = true)
    (clear : Bool) : lift clear form = 0 := by
  obtain ⟨value, found⟩ := Option.isSome_iff_exists.mp constant
  simp [lift, form.not_temporary found]

omit [Double F] in
/-- Folding gives up the temporaries and the size that its operands have taken. -/
theorem Emit.folded_emitted {found form : Operand F O} {value : Value F O} {size : Nat}
    {tail operand clear : Bool} {state state1 after : Emit F O} {privates : Nat → Bool}
    (entered : Extends state state1) (stack : state1.stack = state.stack)
    (same : state1.privates = privates) (constant : found.constant = some value)
    (emitted : { state1 with size := size }.literal found value tail operand clear =
      (form, after)) :
    Emitted state after (lift clear form) privates ∧
      form = if operand then found else .temporary := by
  have resized : Extends state1 { state1 with size := size } :=
    Extends.of_code (List.append_nil _).symm rfl rfl
  obtain ⟨result, shape⟩ := Emit.literal_emitted (found.not_temporary constant) emitted
  refine ⟨⟨(entered.trans resized).trans result.toExtends, ?_, ?_⟩, shape⟩
  · rw [result.stack]
    exact congrArg (· + _) stack
  · rw [result.privates]
    exact same

omit [Double F] in
theorem Literal.not_temporary (literal : Literal F O) : literal.operand.isTemporary = false := by
  cases literal <;> rfl

variable {layout blocks}

theorem Nodes.bound_emitted {jumps : Jumps} {base : Nat} (operands : Nodes F O)
    (inner : ∀ {state after : Emit F O},
      operands.emitValues layout blocks jumps base state = some after →
        Emitted state after operands.length (operands.after layout blocks base state.privates))
    {binding : Binding} {stack : Nat} {push : Emit F O → Emit F O}
    (pushed : ∀ state, Extends state (push state) ∧ (push state).privates = state.privates)
    {state after : Emit F O}
    (emitted : (do
      let state1 ← operands.emitValues layout blocks jumps base state
      some (push (state1.emit (.bind binding stack)))) = some after) :
    Extends state after ∧
      after.privates = operands.after layout blocks base state.privates := by
  simp only [Option.bind_eq_bind, Option.bind_eq_some_iff, Option.some.injEq] at emitted
  obtain ⟨state1, values, rfl⟩ := emitted
  have first := inner values
  exact ⟨first.toExtends.trans ((Extends.emit _ _).trans (pushed _).1),
    (pushed _).2.trans first.privates⟩

theorem Node.pushed_emitted {jumps : Jumps} {base : Nat} (target : Node F O)
    (inner : ∀ {state after : Emit F O} {form : Operand F O},
      target.emit layout blocks jumps base false false false state = some (form, after) →
        Emitted state after (lift false form) (target.after layout blocks base state.privates))
    {state after : Emit F O}
    (emitted : (do
      let (_, state1) ← target.emit layout blocks jumps base false false false state
      some state1.emitNull) = some after) :
    Extends state after ∧ after.privates = target.after layout blocks base state.privates := by
  simp only [Option.bind_eq_bind, Option.bind_eq_some_iff, Option.some.injEq,
    Prod.exists] at emitted
  obtain ⟨_, state1, value, rfl⟩ := emitted
  have first := inner value
  exact ⟨first.toExtends.trans (Extends.emitNull _), first.privates⟩

section Statements

variable (layout blocks)

/-- What is emitted for a node is added behind what is there, with what the node leaves on the
stack and the privates that it takes as initialised. -/
def Node.Emits (node : Node F O) : Prop :=
  ∀ (jumps : Jumps) (base : Nat) (tail operand clear : Bool) {state after : Emit F O}
    {form : Operand F O}
    (_ : node.emit layout blocks jumps base tail operand clear state = some (form, after)),
    Emitted state after (lift clear form) (node.after layout blocks base state.privates) ∧
      form = if operand then node.form layout else .temporary

def Nodes.SequenceEmits (nodes : Nodes F O) : Prop :=
  ∀ (jumps : Jumps) (base : Nat) (tail clear : Bool) {state after : Emit F O}
    (_ : nodes.emitSequence layout blocks jumps base tail clear state = some after),
    Emitted state after (lift clear (.temporary : Operand F O))
      (nodes.after layout blocks base state.privates)

def Nodes.ValuesEmits (nodes : Nodes F O) : Prop :=
  ∀ (jumps : Jumps) (base : Nat) {state after : Emit F O}
    (_ : nodes.emitValues layout blocks jumps base state = some after),
    Emitted state after nodes.length (nodes.after layout blocks base state.privates)

def Catches.Emits (catches : Catches F O) : Prop :=
  ∀ (jumps : Jumps) (base : Nat) (clear : Bool) {state after : Emit F O}
    (_ : catches.emit layout blocks jumps base clear state = some after)
    (_ : clear = true ∨ 0 < state.stack),
    Emitted state after 0 (catches.after layout blocks base state.privates)

def Optional.ConditionEmits (optional : Optional F O) : Prop :=
  ∀ (jumps : Jumps) (base label : Nat) {state after : Emit F O}
    (_ : optional.emitCondition layout blocks jumps base label state = Option.some after),
    Emitted state after 0 (optional.after layout blocks base state.privates)

def Optional.ClearedEmits (optional : Optional F O) : Prop :=
  ∀ (jumps : Jumps) (base : Nat) {state after : Emit F O}
    (_ : optional.emitCleared layout blocks jumps base state = Option.some after),
    Emitted state after 0 (optional.after layout blocks base state.privates)

end Statements

theorem Node.Emits.nodes {items : Nodes F O}
    (sequence : items.SequenceEmits layout blocks) :
    (Node.nodes items).Emits layout blocks := by
  intro jumps base tail operand clear state after form emitted
  simp only [Node.emit, Option.bind_eq_bind, Option.bind_eq_some_iff, Option.some.injEq,
    Prod.mk.injEq] at emitted
  obtain ⟨_, first, rfl, rfl⟩ := emitted
  exact ⟨sequence jumps base tail clear first, by simp [Node.form]⟩

theorem Node.Emits.operate {action : Action} {operands : Nodes F O}
    (each : operands.ValuesEmits layout blocks) :
    (Node.operate action operands).Emits layout blocks := by
  intro jumps base tail operand clear state after form emitted
  simp only [Node.emit, Option.bind_eq_bind, Option.bind_eq_some_iff, Option.some.injEq,
    Prod.mk.injEq] at emitted
  obtain ⟨state1, first, rfl, rfl⟩ := emitted
  have inner := each jumps base first
  refine ⟨⟨(((Extends.pushUnless _ state).trans inner.toExtends).trans
    (Extends.atStack _ _)).trans (Extends.finish _ _ _), ?_, ?_⟩, by simp [Node.form]⟩
  · simp [lift, Operand.isTemporary]
  · simpa [Node.after] using inner.privates

theorem Node.Emits.if_ {condition : Optional F O} {true_ false_ : Node F O}
    (tested : condition.ConditionEmits layout blocks)
    (yes : true_.Emits layout blocks)
    (no : false_.Emits layout blocks) :
    (Node.if_ condition true_ false_).Emits layout blocks := by
  intro jumps base tail operand clear state after form emitted
  simp only [Node.emit_if, Option.bind_eq_bind, Option.bind_eq_some_iff, Prod.exists,
    Option.some.injEq, Prod.mk.injEq] at emitted
  obtain ⟨state1, first, _, state2, second, _, state3, third, rfl, rfl⟩ := emitted
  have first := tested jumps _ _ first
  have second := Emitted.plain (yes jumps _ tail false clear second)
  have third := Emitted.plain (no jumps _ tail false clear third)
  refine ⟨⟨Extends.if_ layout _ first.toExtends second.toExtends third.toExtends, ?_,
    rfl⟩, by simp [Node.form]⟩
  have high := third.stack
  have middle := first.stack
  simp_all [Emit.closeIf, Emit.elseIf]

theorem Node.Emits.while_ {condition : Optional F O} {body : Node F O}
    (tested : condition.ConditionEmits layout blocks)
    (turn : body.Emits layout blocks) :
    (Node.while_ condition body).Emits layout blocks := by
  intro jumps base tail operand clear state after form emitted
  simp only [Node.emit_while, Option.bind_eq_bind, Option.bind_eq_some_iff, Prod.exists,
    Option.some.injEq, Prod.mk.injEq] at emitted
  obtain ⟨state1, first, _, state2, second, rfl, rfl⟩ := emitted
  have first := tested _ _ _ first
  have second := (turn _ _ false false true second).1
  have continued : state.labels = if false = true then state.labels + 1 else state.labels := rfl
  refine ⟨⟨Extends.loop layout (blocks base) continued first.toExtends second.toExtends
    (Extends.refl _), ?_, ?_⟩, by simp [Node.form]⟩
  · rw [(Emit.stack_closeLoop ..).1, second.stack, Emit.stack_label, first.stack,
      (Emit.stack_openLoop ..).1]
    simp
  · rw [(Emit.stack_closeLoop ..).2]
    rfl

theorem Node.Emits.for_ {initialization condition next : Optional F O} {body : Node F O}
    (begun : initialization.ClearedEmits layout blocks)
    (tested : condition.ConditionEmits layout blocks)
    (stepped : next.ClearedEmits layout blocks)
    (turn : body.Emits layout blocks) :
    (Node.for_ initialization condition next body).Emits layout blocks := by
  intro jumps base tail operand clear state after form emitted
  simp only [Node.emit_for, Option.bind_eq_bind, Option.bind_eq_some_iff, Prod.exists,
    Option.some.injEq, Prod.mk.injEq] at emitted
  obtain ⟨state0, zeroth, state1, first, _, state2, second, state3, third, rfl, rfl⟩ := emitted
  have zeroth := begun _ _ zeroth
  have first := tested _ _ _ first
  have second := (turn _ _ false false true second).1
  have third := stepped _ _ third
  refine ⟨⟨zeroth.toExtends.trans (Extends.loop layout (blocks (base + initialization.blocks))
    rfl first.toExtends second.toExtends third.toExtends), ?_, ?_⟩, by simp [Node.form]⟩
  · rw [(Emit.stack_closeLoop ..).1, third.stack, (Emit.stack_setTargetIf ..).1, second.stack,
      Emit.stack_label, first.stack, (Emit.stack_openLoop ..).1, zeroth.stack]
    simp
  · rw [(Emit.stack_closeLoop ..).2]
    rfl

theorem Node.Emits.break_ {expression : Node F O}
    (given : expression.Emits layout blocks) :
    (Node.break_ expression).Emits layout blocks := by
  intro jumps base tail operand clear state after form emitted
  simp only [Node.emit, Option.bind_eq_bind, Option.bind_eq_some_iff, Prod.exists,
    Option.some.injEq, Prod.mk.injEq] at emitted
  obtain ⟨break0, _, _, state1, first, rfl, rfl⟩ := emitted
  have first := (given _ _ _ false _ first).1
  refine ⟨⟨(((Extends.atStack _ state).trans first.toExtends).trans
    (Extends.atStack _ _)).trans (((Extends.pushUnless _ _).trans (Extends.join _ _ _)).trans
      (Extends.emit _ _)), by simp, ?_⟩, by simp [Node.form]⟩
  simpa [Node.after] using first.privates

theorem Node.Emits.continue_ :
    (Node.continue_ : Node F O).Emits layout blocks := by
  intro jumps base tail operand clear state after form emitted
  simp only [Node.emit, Option.bind_eq_bind, Option.bind_eq_some_iff, Option.some.injEq,
    Prod.mk.injEq] at emitted
  obtain ⟨continue0, _, rfl, rfl⟩ := emitted
  exact ⟨⟨(Extends.pushUnless _ state).trans (Extends.emit _ _), by simp,
    by simp [Node.after]⟩, by simp [Node.form]⟩

theorem Node.Emits.return_ {expression : Node F O}
    (given : expression.Emits layout blocks) :
    (Node.return_ expression).Emits layout blocks := by
  intro jumps base tail operand clear state after form emitted
  simp only [Node.emit, Option.bind_eq_bind, Option.bind_eq_some_iff, Prod.exists,
    Option.some.injEq, Prod.mk.injEq] at emitted
  obtain ⟨return0, _, _, state1, first, rfl, rfl⟩ := emitted
  have first := (given _ _ _ false _ first).1
  have entered := (Extends.atStack _ state).trans first.toExtends
  refine ⟨⟨?_, by simp, ?_⟩, by simp [Node.form]⟩
  · split
    · exact (entered.trans (Extends.emit _ _)).trans
        ((Extends.atStack _ _).trans (Extends.pushUnless _ _))
    · exact (entered.trans ((Extends.join _ _ _).trans (Extends.emit _ _))).trans
        ((Extends.atStack _ _).trans (Extends.pushUnless _ _))
  · split <;> simpa [Node.after] using first.privates

theorem Node.Emits.try_ {body : Node F O} {catches : Catches F O} {finally_ : Optional F O}
    (tried : body.Emits layout blocks)
    (handled : catches.Emits layout blocks)
    (ended : finally_.ClearedEmits layout blocks) :
    (Node.try_ body catches finally_).Emits layout blocks := by
  intro jumps base tail operand clear state after form emitted
  simp only [Node.emit_try, Option.bind_eq_bind, Option.bind_eq_some_iff, Prod.exists,
    Option.some.injEq, Prod.mk.injEq] at emitted
  obtain ⟨_, state1, emitted1, state2, emitted2, state3, emitted3, rfl, rfl⟩ := emitted
  have first := Emitted.plain (tried _ _ false false _ emitted1)
  have entered : (state.openTry layout (blocks base) (catches.exposed layout blocks base
    (base + 1 + 1 + body.blocks))).stack = state.stack := rfl
  have caught : (state1.openCatches state.labels).stack = state1.stack ∧
    (state1.openCatches state.labels).privates = state1.privates := ⟨rfl, rfl⟩
  have lifted : clear = true ∨ 0 < (state1.openCatches state.labels).stack := by
    rw [caught.1, first.stack]
    cases clear <;> simp
  have second := handled _ _ _ emitted2 lifted
  have third := ended _ _ emitted3
  refine ⟨⟨Extends.try_ layout (blocks base) first.toExtends second.toExtends
    third.toExtends, ?_, ?_⟩, by simp [Node.form]⟩
  · rw [(Emit.stack_closeTry ..).1]
    cases found : finally_.isSome <;> cases clear <;>
      simp [third.stack, (Emit.stack_openFinally ..).1, second.stack, first.stack, entered,
        caught, found]
  · rw [(Emit.stack_closeTry ..).2, third.privates, (Emit.stack_openFinally ..).2,
      second.privates, caught.2, first.privates]
    rfl

theorem Node.Emits.throw_ {expression : Node F O}
    (given : expression.Emits layout blocks) :
    (Node.throw_ expression).Emits layout blocks := by
  intro jumps base tail operand clear state after form emitted
  simp only [Node.emit, Option.bind_eq_bind, Option.bind_eq_some_iff, Prod.exists,
    Option.some.injEq, Prod.mk.injEq] at emitted
  obtain ⟨_, state1, first, rfl, rfl⟩ := emitted
  have first := Emitted.plain (given _ _ _ false _ first)
  refine ⟨⟨first.toExtends.trans ((Extends.pop _).trans ((Extends.emit _ _).trans
    (Extends.pushUnless _ _))), ?_, ?_⟩, by simp [Node.form]⟩
  · simp [first.stack]
  · simpa [Node.after] using first.privates

theorem Node.Emits.symbolGet (resolved : Nat) (variable_ : Option Nat) (symbol : Nat) :
    (Node.symbolGet resolved variable_ symbol : Node F O).Emits layout blocks := by
  intro jumps base tail operand clear state after form emitted
  cases variable_ with
  | none =>
      simp only [Node.emit, Option.some.injEq, Prod.mk.injEq] at emitted
      obtain ⟨rfl, rfl⟩ := emitted
      exact ⟨⟨Extends.finish _ _ _, by simp, by simp [Node.after]⟩, by simp [Node.form]⟩
  | some variable_ =>
      have mentioned := Extends.mention layout variable_ state
      have privates := Emit.privates_mention layout variable_ state
      rw [Node.emit_symbolGet] at emitted
      dsimp only at emitted
      split_ifs at emitted with isShared isOperand isTail <;> cases emitted
      · have unnamed : layout.slot variable_ = none := by simp [Layout.slot, isShared]
        refine ⟨⟨Extends.finish _ _ _, by simp, ?_⟩, by simp [Node.form, isShared]⟩
        simp [Node.after, Layout.knows, unnamed]
      · exact ⟨⟨mentioned, by simp [lift, Operand.isTemporary], privates⟩,
          by simp [Node.form, isShared, isOperand]⟩
      · exact ⟨⟨mentioned.trans (Extends.finish _ _ _), by simp,
          by simpa [Node.after] using privates⟩, by simp [isOperand]⟩
      · exact ⟨⟨mentioned.trans (Extends.finish _ _ _), by simp,
          by simpa [Node.after] using privates⟩, by simp [isOperand]⟩

theorem Node.Emits.scopePut {outer variable_ : Nat} {value : Node F O}
    (given : value.Emits layout blocks) :
    (Node.scopePut outer variable_ value).Emits layout blocks := by
  intro jumps base tail operand clear state after form emitted
  simp only [Node.emit] at emitted
  split at emitted
  · next kept =>
      simp only [Bool.and_eq_true, Bool.not_eq_true'] at kept
      simp only [Option.bind_eq_bind, Option.bind_eq_some_iff, Prod.exists] at emitted
      obtain ⟨found, state1, emitted1, rest⟩ := emitted
      have first := (given _ _ false true false emitted1).1
      have assigned := Extends.assign (layout.slot variable_) state1
      have privates := Emit.privates_assign layout variable_ state1
      have whole := first.toExtends.trans assigned
      cases found <;> simp only [Option.some.injEq, Prod.mk.injEq] at rest <;>
        obtain ⟨rfl, rfl⟩ := rest <;>
        refine ⟨⟨?_, ?_, ?_⟩, by simp [Node.form]⟩
      all_goals first
        | exact whole.trans (Extends.emit _ _)
        | exact whole.trans ((Extends.emit _ _).trans (Extends.pop _))
        | simpa [Node.after, ← first.privates] using privates
        | simp [first.stack, lift, kept.1, Operand.isTemporary]
  · next general =>
      simp only [Option.bind_eq_bind, Option.bind_eq_some_iff, Prod.exists, Option.some.injEq,
        Prod.mk.injEq] at emitted
      obtain ⟨found, state1, emitted1, rfl, rfl⟩ := emitted
      have first := Emitted.plain (given _ _ false false false emitted1)
      have privates := Emit.privates_assign layout variable_ state1
      refine ⟨⟨first.toExtends.trans (Extends.trans ?_ (Extends.popIf _ _)), ?_, ?_⟩,
        by simp [Node.form]⟩
      · split
        · exact Extends.emit _ _
        · exact (Extends.assign _ _).trans (Extends.emit _ _)
      · split <;> cases clear <;> simp [first.stack]
      · split
        · next isShared =>
            have unnamed : layout.slot variable_ = none := by simp [Layout.slot, isShared]
            simp [Node.after, Layout.knows, unnamed, first.privates]
        · simpa [Node.after, ← first.privates] using privates

theorem Node.Emits.self (outer : Nat) :
    (Node.self outer : Node F O).Emits layout blocks := by
  intro jumps base tail operand clear state after form emitted
  simp only [Node.emit] at emitted
  split_ifs at emitted with cleared distant
  · cases emitted
    exact ⟨⟨Extends.refl _, by simp [cleared], rfl⟩, by simp [Node.form]⟩
  · cases emitted
    exact ⟨⟨(Extends.emit _ _).trans (Extends.push _), by simp [cleared], rfl⟩,
      by simp [Node.form]⟩
  · cases emitted
    exact ⟨⟨(Extends.emit _ _).trans (Extends.push _), by simp [cleared], rfl⟩,
      by simp [Node.form]⟩

theorem Node.Emits.literal (literal : Literal F O) :
    (Node.literal literal : Node F O).Emits layout blocks := by
  intro jumps base tail operand clear state after form emitted
  simp only [Node.emit, Option.some.injEq] at emitted
  have result := Emit.literal_emitted literal.not_temporary emitted
  exact ⟨result.1, result.2⟩

theorem Node.Emits.unary {op : Unary} {expression : Node F O}
    (given : expression.Emits layout blocks) :
    (Node.unary op expression).Emits layout blocks := by
  intro jumps base tail operand clear state after form emitted
  simp only [Node.emit, Option.bind_eq_bind, Option.bind_eq_some_iff, Prod.exists] at emitted
  obtain ⟨found, state1, emitted1, rest⟩ := emitted
  have first := given _ _ false true false emitted1
  have form : found = expression.form layout := by simpa using first.2
  have entered := (Extends.push state).trans first.1.toExtends
  split at rest
  · next folded shape =>
      simp only [Option.bind_eq_some_iff, Option.some.injEq] at rest
      obtain ⟨value, constant, rest⟩ := rest
      have plain := Operand.lift_constant (foldUnary_operand shape) false
      have result := Emit.folded_emitted (entered.trans (Extends.pop _))
        (by simp [first.1.stack, plain]) first.1.privates constant rest
      exact ⟨result.1, by simpa [Node.form, ← form, shape] using result.2⟩
  · next shape =>
      simp only [Option.some.injEq, Prod.mk.injEq] at rest
      obtain ⟨rfl, rfl⟩ := rest
      refine ⟨⟨entered.trans ((Extends.pushUnless _ _).trans ((Extends.pop _).trans
        ((Extends.pop _).trans (Extends.finish _ _ _)))), ?_, ?_⟩, ?_⟩
      · cases found <;> simp [first.1.stack, lift, Operand.isTemporary]
      · simpa [Node.after] using first.1.privates
      · simp [Node.form, ← form, shape]
  · exact absurd rest (by simp)

theorem Node.Emits.binary {op : Binary} {left right : Node F O}
    (former : left.Emits layout blocks)
    (latter : right.Emits layout blocks) :
    (Node.binary op left right).Emits layout blocks := by
  intro jumps base tail operand clear state after form emitted
  simp only [Node.emit, Option.bind_eq_bind, Option.bind_eq_some_iff, Prod.exists] at emitted
  obtain ⟨found0, state1, emitted1, found1, state2, emitted2, rest⟩ := emitted
  have first := former _ _ false true false emitted1
  have second := latter _ _ false true false emitted2
  have form0 : found0 = left.form layout := by simpa using first.2
  have form1 : found1 = right.form layout := by simpa using second.2
  have privates : state2.privates = (Node.binary op left right).after layout blocks base
      state.privates := by
    rw [second.1.privates, Emit.privates_pushUnless, first.1.privates]
    rfl
  have stack1 : (state1.pushUnless found0.isTemporary).stack = state.stack + 2 := by
    cases found0 <;> simp [first.1.stack, lift, Operand.isTemporary]
  have stack2 : state2.stack = state.stack + 2 + lift false found1 := by
    rw [second.1.stack, stack1]
  have entered := (((Extends.push state).trans first.1.toExtends).trans
    (Extends.pushUnless found0.isTemporary _)).trans second.1.toExtends
  split at rest
  · next folded shape =>
      simp only [Option.bind_eq_some_iff, Option.some.injEq] at rest
      obtain ⟨value, constant, rest⟩ := rest
      have plain := Operand.lift_constant (foldBinary_operand shape).2 false
      have result := Emit.folded_emitted ((entered.trans (Extends.pop _)).trans (Extends.pop _))
        (by simp [stack2, plain]) privates constant rest
      exact ⟨result.1, by simpa [Node.form, ← form0, ← form1, shape] using result.2⟩
  · next shape =>
      simp only [Option.some.injEq, Prod.mk.injEq] at rest
      obtain ⟨rfl, rfl⟩ := rest
      refine ⟨⟨entered.trans ((Extends.pushUnless _ _).trans ((Extends.pop _).trans
        ((Extends.pop _).trans ((Extends.pop _).trans (Extends.finish _ _ _))))), ?_, ?_⟩, ?_⟩
      · cases found1 <;> simp [stack2, lift, Operand.isTemporary]
      · simpa using privates
      · simp [Node.form, ← form0, ← form1, shape]
  · exact absurd rest (by simp)

theorem Node.Emits.preserve :
    (Node.preserve : Node F O).Emits layout blocks := by
  intro jumps base tail operand clear state after form emitted
  simp only [Node.emit, Option.some.injEq, Prod.mk.injEq] at emitted
  obtain ⟨rfl, rfl⟩ := emitted
  exact ⟨⟨Extends.pushUnless _ _, by simp, by simp [Node.after]⟩, by simp [Node.form]⟩

theorem Node.Emits.call {target : Node F O} {arguments : Nodes F O} {expands : List Nat}
    (given : target.Emits layout blocks)
    (methods : ∀ action operands, target = .operate action operands →
      operands.ValuesEmits layout blocks)
    (each : arguments.ValuesEmits layout blocks) :
    (Node.call target arguments expands).Emits layout blocks := by
  intro jumps base tail operand clear state after form emitted
  simp only [Node.emit_call, Option.bind_eq_bind, Option.bind_eq_some_iff, Option.some.injEq,
    Prod.mk.injEq] at emitted
  obtain ⟨state1, first, state2, second, rfl, rfl⟩ := emitted
  unfold Node.emitTarget at first
  have inner := each _ _ second
  have outer : Extends state state1 ∧ state1.privates =
      if (target.called layout expands).isSome then state.privates
      else target.after layout blocks base state.privates := by
    split at first
    · next found =>
        cases first
        exact ⟨(Extends.push _).trans (Extends.push _), by simp [found]⟩
    · next missing =>
        rw [if_neg missing]
        cases target with
        | operate action operands =>
            have whole : ∀ {state after : Emit F O} {form : Operand F O},
                (Node.operate action operands).emit layout blocks jumps base false false false
                  state = some (form, after) →
                Emitted state after (lift false form)
                  ((Node.operate action operands).after layout blocks base state.privates) :=
              fun value => (given _ _ false false false value).1
            cases action with
            | objectGet key =>
                exact Nodes.bound_emitted operands (methods _ operands rfl jumps base)
                  (fun state => ⟨Extends.push state, rfl⟩) first
            | getAt =>
                exact Nodes.bound_emitted operands (methods _ operands rfl jumps base)
                  (fun state => ⟨Extends.refl state, rfl⟩) first
            | _ => exact Node.pushed_emitted _ whole first
        | _ =>
            exact Node.pushed_emitted _ (fun value => (given _ _ _ _ _ value).1) first
  refine ⟨⟨((outer.1.trans inner.toExtends).trans (Extends.atStack _ _)).trans
    (Extends.finish _ _ _), by simp, ?_⟩, by simp [Node.form]⟩
  simpa [Node.after, outer.2] using inner.privates

theorem Nodes.SequenceEmits.nil :
    (Nodes.nil : Nodes F O).SequenceEmits layout blocks := by
  intro jumps base tail clear state after emitted
  simp only [Nodes.emitSequence, Option.some.injEq] at emitted
  subst emitted
  cases clear with
  | false => exact ⟨Extends.emitNull _, rfl, rfl⟩
  | true => exact ⟨Extends.refl _, rfl, rfl⟩

theorem Nodes.SequenceEmits.cons {head : Node F O} {rest : Nodes F O}
    (former : head.Emits layout blocks)
    (latter : rest.SequenceEmits layout blocks) :
    (Nodes.cons head rest).SequenceEmits layout blocks := by
  intro jumps base tail clear state after emitted
  simp only [Nodes.emitSequence] at emitted
  split at emitted
  · next last =>
      simp only [Option.bind_eq_bind, Option.bind_eq_some_iff, Prod.exists,
        Option.some.injEq] at emitted
      obtain ⟨_, _, first, rfl⟩ := emitted
      have first := Emitted.plain (former _ _ _ false _ first)
      cases rest with
      | nil => simpa [Nodes.after] using first
      | cons _ _ => exact absurd last (by simp [Nodes.isNil])
  · simp only [Option.bind_eq_bind, Option.bind_eq_some_iff, Prod.exists] at emitted
    obtain ⟨_, state1, first, second⟩ := emitted
    have first := (former _ _ _ false _ first).1
    have second := latter _ _ _ _ second
    rw [first.privates] at second
    exact ⟨first.toExtends.trans second.toExtends, by rw [second.stack, first.stack]; simp,
      second.privates⟩

theorem Nodes.ValuesEmits.nil :
    (Nodes.nil : Nodes F O).ValuesEmits layout blocks := by
  intro jumps base state after emitted
  simp only [Nodes.emitValues, Option.some.injEq] at emitted
  subst emitted
  exact ⟨Extends.refl _, rfl, rfl⟩

theorem Nodes.ValuesEmits.cons {head : Node F O} {rest : Nodes F O}
    (former : head.Emits layout blocks)
    (latter : rest.ValuesEmits layout blocks) :
    (Nodes.cons head rest).ValuesEmits layout blocks := by
  intro jumps base state after emitted
  simp only [Nodes.emitValues, Option.bind_eq_bind, Option.bind_eq_some_iff,
    Prod.exists] at emitted
  obtain ⟨_, state1, first, second⟩ := emitted
  have first := Emitted.plain (former _ _ _ false _ first)
  have second := latter _ _ second
  rw [first.privates] at second
  refine ⟨first.toExtends.trans second.toExtends, ?_, second.privates⟩
  rw [second.stack, first.stack]
  simp only [Nodes.length, Bool.false_eq_true, if_false]
  omega

theorem Catches.Emits.nil :
    (Catches.nil : Catches F O).Emits layout blocks := by
  intro jumps base clear state after emitted lifted
  simp only [Catches.emit, Option.some.injEq] at emitted
  subst emitted
  exact ⟨Extends.refl _, rfl, rfl⟩

theorem Catches.Emits.cons {expression body : Node F O} {variable_ : Nat} {tail : Catches F O}
    (asked : expression.Emits layout blocks)
    (handled : body.Emits layout blocks)
    (others : tail.Emits layout blocks) :
    (Catches.cons expression variable_ body tail).Emits layout blocks := by
  intro jumps base clear state after emitted lifted
  simp only [Catches.emit_cons] at emitted
  split at emitted
  · exact absurd emitted (by simp)
  · simp only [Option.bind_eq_bind, Option.bind_eq_some_iff, Prod.exists] at emitted
    obtain ⟨_, state1, emitted1, _, state2, emitted2, emitted3⟩ := emitted
    have first := Emitted.plain (asked _ _ _ false _ emitted1)
    have second := Emitted.plain (handled _ _ _ false _ emitted2)
    have stack2 : (state2.openCatches state1.labels).stack = state.stack := by
      have last : (state2.openCatches state1.labels).stack = state2.stack := rfl
      have between : (state1.openClause (layout.variableOf variable_).isShared
        (layout.variableOf variable_).index).stack = state1.stack - 1 := rfl
      rw [last, second.stack, between, first.stack, Emit.stack_popIf]
      cases clear
      · simp at lifted ⊢
        omega
      · simp
    have privates2 : (state2.openCatches state1.labels).privates =
        body.after layout blocks (base + 1 + expression.blocks + 1)
          (expression.after layout blocks (base + 1) state.privates) := by
      have between : (state1.openClause (layout.variableOf variable_).isShared
        (layout.variableOf variable_).index).privates = state1.privates := rfl
      rw [between, first.privates, Emit.privates_popIf] at second
      exact second.privates
    have third := others _ _ _ emitted3 (lifted.imp_right fun above => stack2 ▸ above)
    refine ⟨((Extends.popIf _ state).trans (Extends.clause first.toExtends
      second.toExtends)).trans third.toExtends, third.stack.trans stack2, ?_⟩
    rw [third.privates, privates2]
    rfl

theorem Optional.ConditionEmits.none :
    (Optional.none : Optional F O).ConditionEmits layout blocks := by
  intro jumps base label state after emitted
  simp only [Optional.emitCondition, Option.some.injEq] at emitted
  subst emitted
  exact ⟨Extends.refl _, rfl, rfl⟩

theorem Optional.ConditionEmits.some {node : Node F O}
    (given : node.Emits layout blocks) :
    (Optional.some node).ConditionEmits layout blocks := by
  intro jumps base label state after emitted
  simp only [Optional.emitCondition, Option.bind_eq_bind, Option.bind_eq_some_iff, Prod.exists,
    Option.some.injEq] at emitted
  obtain ⟨_, state1, first, rfl⟩ := emitted
  have first := Emitted.plain (given _ _ _ false _ first)
  refine ⟨first.toExtends.trans ((Extends.pop _).trans (Extends.emit _ _)), ?_, ?_⟩
  · simp [first.stack]
  · simpa [Optional.after] using first.privates

theorem Optional.ClearedEmits.none :
    (Optional.none : Optional F O).ClearedEmits layout blocks := by
  intro jumps base state after emitted
  simp only [Optional.emitCleared, Option.some.injEq] at emitted
  subst emitted
  exact ⟨Extends.refl _, rfl, rfl⟩

theorem Optional.ClearedEmits.some {node : Node F O}
    (given : node.Emits layout blocks) :
    (Optional.some node).ClearedEmits layout blocks := by
  intro jumps base state after emitted
  simp only [Optional.emitCleared, Option.bind_eq_bind, Option.bind_eq_some_iff, Prod.exists,
    Option.some.injEq] at emitted
  obtain ⟨_, state1, first, rfl⟩ := emitted
  have first := (given _ _ _ false _ first).1
  exact ⟨first.toExtends, by simpa using first.stack, first.privates⟩

variable (layout blocks)

mutual

theorem Node.emitted : ∀ node : Node F O, node.Emits layout blocks
  | .nodes items => .nodes (Nodes.sequence_emitted items)
  | .operate _ operands => .operate (Nodes.values_emitted operands)
  | .if_ condition true_ false_ =>
      .if_ (Optional.condition_emitted condition) (Node.emitted true_) (Node.emitted false_)
  | .while_ condition body =>
      .while_ (Optional.condition_emitted condition) (Node.emitted body)
  | .for_ initialization condition next body =>
      .for_ (Optional.cleared_emitted initialization) (Optional.condition_emitted condition)
        (Optional.cleared_emitted next) (Node.emitted body)
  | .break_ expression => .break_ (Node.emitted expression)
  | .continue_ => .continue_
  | .return_ expression => .return_ (Node.emitted expression)
  | .try_ body catches finally_ =>
      .try_ (Node.emitted body) (Catches.emitted catches) (Optional.cleared_emitted finally_)
  | .throw_ expression => .throw_ (Node.emitted expression)
  | .symbolGet resolved variable_ symbol => .symbolGet resolved variable_ symbol
  | .scopePut _ _ value => .scopePut (Node.emitted value)
  | .self outer => .self outer
  | .literal literal => .literal literal
  | .unary _ expression => .unary (Node.emitted expression)
  | .binary _ left right => .binary (Node.emitted left) (Node.emitted right)
  | .preserve => .preserve
  | .call target arguments expands => by
      refine .call (Node.emitted target) ?_ (Nodes.values_emitted arguments)
      rintro action operands rfl
      exact Nodes.values_emitted operands
  termination_by tree => sizeOf tree

theorem Nodes.sequence_emitted : ∀ nodes : Nodes F O, nodes.SequenceEmits layout blocks
  | .nil => .nil
  | .cons head rest => .cons (Node.emitted head) (Nodes.sequence_emitted rest)
  termination_by tree => sizeOf tree

theorem Nodes.values_emitted : ∀ nodes : Nodes F O, nodes.ValuesEmits layout blocks
  | .nil => .nil
  | .cons head rest => .cons (Node.emitted head) (Nodes.values_emitted rest)
  termination_by tree => sizeOf tree

theorem Catches.emitted : ∀ catches : Catches F O, catches.Emits layout blocks
  | .nil => .nil
  | .cons expression _ body tail =>
      .cons (Node.emitted expression) (Node.emitted body) (Catches.emitted tail)
  termination_by tree => sizeOf tree

theorem Optional.condition_emitted :
    ∀ optional : Optional F O, optional.ConditionEmits layout blocks
  | .none => .none
  | .some node => .some (Node.emitted node)
  termination_by tree => sizeOf tree

theorem Optional.cleared_emitted : ∀ optional : Optional F O, optional.ClearedEmits layout blocks
  | .none => .none
  | .some node => .some (Node.emitted node)
  termination_by tree => sizeOf tree

end

end Nodes

end Xemmai
