import Xemmai.Code

/-!
# Structured runs

What the code of a tree does to a frame, by recursion on the tree and without
labels and frames of `f_try`. Operands, temporaries and results are in the slots
in which the emitter puts them. A loop that takes more than `fuel` rounds times
out.
-/

namespace Xemmai

set_option autoImplicit false

/-- How a part ends. A value is in the slot that the kind of the end tells;
`returned` is the return of a `_TAIL` form or of `RETURN`. -/
inductive Completion (F O : Type) where
  | normal
  | break_
  | continue_
  | return_
  | returned (value : Value F O)
  | threw (thrown : Value F O)
  | timeout

abbrev Ending (F O W : Type) := Completion F O × State F O W

section Endings

variable {F O W : Type}

def andThen (ending : Ending F O W) (rest : State F O W → Ending F O W) : Ending F O W :=
  match ending with
  | (.normal, state) => rest state
  | ending => ending

/-- The result of native code, as `Config.deliver`. -/
def deliver (privates : Nat) (tail : Bool) (stack : Nat) (state : State F O W)
    (result : Except (Value F O) (Value F O) × W) : Ending F O W :=
  let state := state.setWorld result.2
  match result.1 with
  | .error thrown => (.threw thrown, state)
  | .ok value =>
      if tail then (.returned value, state) else (.normal, state.write privates stack value)

def looping (again : State F O W → Ending F O W) (ending : Ending F O W) : Ending F O W :=
  match ending with
  | (.normal, state) => again state
  | (.continue_, state) => again state
  | (.break_, state) => (.normal, state)
  | ending => ending

/-- A loop from its junction on; `next` is the third part of a `for`. -/
def repeating (condition : State F O W → Ending F O W) (holds : State F O W → Bool)
    (body next : State F O W → Ending F O W) (leave : State F O W → State F O W) :
    Nat → State F O W → Ending F O W
  | 0, state => (.timeout, state)
  | fuel + 1, state =>
      andThen (condition state) fun state =>
        if holds state then
          looping (fun state => andThen (next state) fun state =>
            repeating condition holds body next leave fuel state) (body state)
        else (.normal, leave state)

/-- The end of a try whose finally block has ended normally. -/
def leaving (completion : Completion F O) (state : State F O W)
    (break_ continue_ return_ : State F O W → State F O W) : Ending F O W :=
  match completion with
  | .break_ => (.break_, break_ state)
  | .continue_ => (.continue_, continue_ state)
  | .return_ => (.return_, return_ state)
  | completion => (completion, state)

def catching (catches : Value F O → State F O W → Ending F O W) (ending : Ending F O W) :
    Ending F O W :=
  match ending with
  | (.threw thrown, state) => catches thrown state
  | ending => ending

/-- A body with its catch clauses, and then the finally block once, whatever
the end of the former. -/
def attempting (body : State F O W → Ending F O W)
    (catches : Value F O → State F O W → Ending F O W) (finally_ : State F O W → Ending F O W)
    (break_ continue_ return_ : State F O W → State F O W) (state : State F O W) :
    Ending F O W :=
  match catching catches (body state) with
  | (.timeout, state) => (.timeout, state)
  | (completion, state) =>
      andThen (finally_ state) fun state => leaving completion state break_ continue_ return_

def State.insertNulls (slots : List Nat) (state : State F O W) : State F O W :=
  slots.foldl (fun state slot => state.insertNull slot) state

/-- The null that a `t_symbol_get` inserts. -/
def State.know (layout : Layout) (privates : Nat → Bool) (index : Nat) (state : State F O W) :
    State F O W :=
  if decide (layout.arguments ≤ index) && !privates index then state.insertNull index else state

/-- `STACK_GET` and `STACK_PUT` -/
def State.copy (privates source target : Nat) (state : State F O W) : State F O W :=
  (state.read privates source).write privates target (state.slot source)

/-- `METHOD_GET` and `METHOD_BIND` -/
def bind (runtime : Runtime F O W) (privates : Nat) (binding : Binding) (stack : Nat)
    (state : State F O W) : Ending F O W :=
  match runtime.bind binding (state.operands stack binding.operands) state.world with
  | (.error thrown, world) => (.threw thrown, state.setWorld world)
  | (.ok (function, self), world) =>
      (.normal, ((state.setWorld world).write privates stack function).write privates (stack + 1)
        self)

/-- `t_literal::f_emit` and `t_null::f_emit` -/
def literally (privates : Nat) (value : Value F O) (tail operand clear : Bool) (stack : Nat)
    (state : State F O W) : Ending F O W :=
  if operand || clear then (.normal, state)
  else if tail then (.returned value, state)
  else (.normal, state.write privates stack value)

end Endings

section

variable {F O : Type} [Double F] (layout : Layout)

/-- What `f_emit` with `a_operand` set leaves. -/
def Node.form : Node F O → Operand F O
  | .literal value => value.operand
  | .symbolGet _ (some variable_) _ =>
      let found := layout.variableOf variable_
      if found.isShared then .temporary else .variable found.index
  | .unary op expression =>
      match foldUnary op expression.form with
      | .operand folded => folded
      | _ => .temporary
  | .binary op left right =>
      match foldBinary op left.form right.form with
      | .operand folded => folded
      | _ => .temporary
  | _ => .temporary

def Layout.knows (privates : Nat → Bool) (variable_ : Nat) : Nat → Bool :=
  match layout.slot variable_ with
  | some slot => Function.update privates slot true
  | none => privates

variable (blocks : Nat → Block)

mutual

/-- `v_privates` of `t_emit` after the emission of a tree. -/
def Node.after (base : Nat) (privates : Nat → Bool) : Node F O → Nat → Bool
  | .nodes items => items.after base privates
  | .operate _ operands => operands.after base privates
  | .if_ condition true_ false_ =>
      (blocks (base + condition.blocks + 1 + true_.blocks + 1 + false_.blocks)).out
  | .while_ condition body => (blocks (base + 1 + 1 + condition.blocks + 1 + body.blocks)).out
  | .for_ initialization condition next body =>
      (blocks (base + initialization.blocks + 1 + 1 + condition.blocks + 1 + body.blocks + 1 + 1 +
        next.blocks)).out
  | .break_ expression => expression.after base privates
  | .continue_ => privates
  | .return_ expression => expression.after base privates
  | .try_ body catches finally_ =>
      finally_.after (base + 1 + 1 + body.blocks + catches.blocks + 1 + 1)
        (catches.after (base + 1 + 1 + body.blocks) (body.after (base + 1 + 1) (blocks base).out))
  | .throw_ expression => expression.after base privates
  | .symbolGet _ none _ => privates
  | .symbolGet _ (some variable_) _ => layout.knows privates variable_
  | .scopePut _ variable_ value => layout.knows (value.after base privates) variable_
  | .self _ => privates
  | .literal _ => privates
  | .unary _ expression => expression.after base privates
  | .binary _ left right => right.after (base + left.blocks) (left.after base privates)
  | .preserve => privates
  | .call target arguments expands =>
      arguments.after (base + target.blocks)
        (if (target.called layout expands).isSome then privates else target.after base privates)

def Nodes.after (base : Nat) (privates : Nat → Bool) : Nodes F O → Nat → Bool
  | .nil => privates
  | .cons head tail => tail.after (base + head.blocks) (head.after base privates)

def Catches.after (base : Nat) (privates : Nat → Bool) : Catches F O → Nat → Bool
  | .nil => privates
  | .cons expression _ body tail =>
      tail.after (base + 1 + expression.blocks + 1 + body.blocks)
        (body.after (base + 1 + expression.blocks + 1) (expression.after (base + 1) privates))

def Optional.after (base : Nat) (privates : Nat → Bool) : Optional F O → Nat → Bool
  | .none => privates
  | .some node => node.after base privates

end

attribute [grind =] Node.after Nodes.after Catches.after Optional.after

variable {W : Type} (runtime : Runtime F O W) (fuel : Nat)

def Optional.holds (optional : Optional F O) (stack : Nat) (state : State F O W) : Bool :=
  match optional with
  | .none => true
  | .some _ => (state.slot stack).asBoolean

mutual

/-- What the code of `f_emit` does. -/
def Node.perform (exits : Exits) (base : Nat) (privates : Nat → Bool) (stack : Nat)
    (tail operand clear : Bool) : Node F O → State F O W → Ending F O W
  | .nodes items, state => items.performSequence exits base privates stack tail clear state
  | .operate action operands, state =>
      let first := if action.isIndexing then stack + 1 else stack
      andThen (operands.performValues exits base privates first state) fun state =>
        deliver layout.privates (tail && action.isIndexing) stack state
          (runtime.operate action (state.operands first operands.length) state.world)
  | .if_ condition true_ false_, state =>
      let blockTrue := base + condition.blocks
      let blockFalse := blockTrue + 1 + true_.blocks
      let junction := blocks (blockFalse + 1 + false_.blocks)
      let privates1 := condition.after layout blocks base privates
      andThen (condition.performOptional exits base privates stack false state) fun state =>
        if condition.holds stack state then
          andThen (true_.perform exits (blockTrue + 1) privates1 stack tail false clear state)
            fun state => (.normal, state.insertNulls
              (layout.nulls (true_.after layout blocks (blockTrue + 1) privates1) junction))
        else
          andThen (false_.perform exits (blockFalse + 1) privates1 stack tail false clear state)
            fun state => (.normal, state.insertNulls
              (layout.nulls (false_.after layout blocks (blockFalse + 1) privates1) junction))
  | .while_ condition body, state =>
      let blockCondition := base + 1
      let blockBody := blockCondition + 1 + condition.blocks
      let junctionExit := blockBody + 1 + body.blocks
      let privates1 := condition.after layout blocks (blockCondition + 1) (blocks base).out
      let exits1 : Exits :=
        { exits with
          breakJunction := junctionExit
          breakStack := stack
          breakIsTail := tail
          breakMustClear := clear
          continueJunction := base
          exposed := [] }
      let leave (state : State F O W) :=
        let state := state.insertNulls
          (layout.nulls (body.after layout blocks (blockBody + 1) privates1) (blocks junctionExit))
        if clear then state else state.write layout.privates stack .null
      repeating
        (condition.performOptional exits (blockCondition + 1) (blocks base).out stack false)
        (condition.holds stack)
        (body.perform exits1 (blockBody + 1) privates1 stack false false true)
        (fun state => (.normal, state)) leave fuel
        (state.insertNulls (layout.nulls privates (blocks base)))
  | .for_ initialization condition next body, state =>
      let junctionCondition := base + initialization.blocks
      let blockCondition := junctionCondition + 1
      let blockBody := blockCondition + 1 + condition.blocks
      let junctionNext := blockBody + 1 + body.blocks
      let blockNext := junctionNext + 1
      let junctionExit := blockNext + 1 + next.blocks
      let privates1 :=
        condition.after layout blocks (blockCondition + 1) (blocks junctionCondition).out
      let privates2 := body.after layout blocks (blockBody + 1) privates1
      let exits1 : Exits :=
        { exits with
          breakJunction := junctionExit
          breakStack := stack
          breakIsTail := tail
          breakMustClear := clear
          continueJunction := junctionNext
          exposed :=
            if next.isSome then layout.exposures (blocks junctionCondition) (blocks junctionNext)
            else [] }
      let leave (state : State F O W) :=
        let state := state.insertNulls
          (layout.nulls (next.after layout blocks (blockNext + 1) privates2) (blocks junctionExit))
        if clear then state else state.write layout.privates stack .null
      andThen (initialization.performOptional exits base privates stack true state) fun state =>
        repeating
          (condition.performOptional exits (blockCondition + 1) (blocks junctionCondition).out stack
            false)
          (condition.holds stack)
          (body.perform exits1 (blockBody + 1) privates1 stack false false true)
          (next.performOptional exits (blockNext + 1) privates2 stack true) leave fuel
          (state.insertNulls (layout.nulls
            (initialization.after layout blocks base privates) (blocks junctionCondition)))
  | .break_ expression, state =>
      andThen (expression.perform exits base privates exits.breakStack exits.breakIsTail false
          exits.breakMustClear state) fun state =>
        (.break_, state.insertNulls (layout.nulls (expression.after layout blocks base privates)
          (blocks exits.breakJunction)))
  | .continue_, state => (.continue_, state.expose exits.exposed)
  | .return_ expression, state =>
      andThen (expression.perform exits base privates exits.returnStack exits.returnIsTail false
          false state) fun state =>
        if exits.returnIsTail then
          (.returned (state.slot exits.returnStack), state.read layout.privates exits.returnStack)
        else
          (.return_, state.insertNulls (layout.nulls (expression.after layout blocks base privates)
            (blocks exits.returnJunction)))
  | .try_ body catches finally_, state =>
      let blockTry := base + 1
      let blockCatches := blockTry + 1 + body.blocks
      let junctionFinally := blockCatches + catches.blocks
      let blockFinally := junctionFinally + 1
      let exits1 : Exits :=
        { breakJunction := junctionFinally
          breakStack := stack
          breakIsTail := false
          breakMustClear := exits.breakMustClear
          continueJunction := junctionFinally
          returnJunction := junctionFinally
          returnStack := stack
          returnIsTail := false
          exposed := [] }
      let privates1 := body.after layout blocks (blockTry + 1) (blocks base).out
      let privates2 := catches.after layout blocks blockCatches privates1
      let privates3 := finally_.after layout blocks (blockFinally + 1) privates2
      let rejoin junction height (state : State F O W) :=
        let state := if height < stack then state.copy layout.privates stack height else state
        state.insertNulls (layout.nulls privates3 (blocks junction))
      attempting
        (body.perform exits1 (blockTry + 1) (blocks base).out stack false false clear)
        (fun thrown state => catches.perform exits1 blockCatches privates1 stack clear thrown
          (state.expose (catches.exposed layout blocks base blockCatches)))
        (finally_.performOptional Exits.none (blockFinally + 1) privates2 (stack + 1) true)
        (rejoin exits.breakJunction (if exits.breakMustClear then stack else exits.breakStack))
        (rejoin exits.continueJunction stack)
        (rejoin exits.returnJunction exits.returnStack)
        (state.insertNulls (layout.nulls privates (blocks base)))
  | .throw_ expression, state =>
      andThen (expression.perform exits base privates stack false false false state) fun state =>
        (.threw (state.slot stack), state)
  | .symbolGet _ none symbol, state =>
      deliver layout.privates false stack state (runtime.operate (.globalGet symbol) [] state.world)
  | .symbolGet resolved (some variable_) _, state =>
      let found := layout.variableOf variable_
      if found.isShared then
        (.normal, state.write layout.privates stack
          (runtime.scopeGet resolved found.index state.world))
      else
        let state := state.know layout privates found.index
        if operand then (.normal, state)
        else if tail then (.returned (state.slot found.index), state.read layout.privates found.index)
        else (.normal, state.copy layout.privates found.index stack)
  | .scopePut outer variable_ value, state =>
      let found := layout.variableOf variable_
      if clear && !found.isShared then
        andThen (value.perform exits base privates stack false true false state) fun state =>
          (.normal,
            match value.form layout with
            | .variable index => state.copy layout.privates index found.index
            | .temporary => state.copy layout.privates stack found.index
            | constant =>
                state.write layout.privates found.index (state.fetch constant .null))
      else
        andThen (value.perform exits base privates stack false false false state) fun state =>
          (.normal,
            if found.isShared then
              state.setWorld (runtime.scopePut outer found.index (state.slot stack) state.world)
            else state.copy layout.privates stack found.index)
  | .self outer, state =>
      (.normal,
        if clear then state
        else state.write layout.privates stack
          (if 0 < outer then runtime.scopeGet outer 0 state.world else runtime.self))
  | .literal literal, state =>
      literally layout.privates literal.value tail operand clear stack state
  | .unary op expression, state =>
      let form := expression.form layout
      andThen (expression.perform exits base privates (stack + 1) false true false state)
        fun state =>
          match foldUnary op form with
          | .operand folded =>
              literally layout.privates (state.fetch folded .null) tail operand clear stack state
          | _ =>
              deliver layout.privates tail stack (state.fetched layout.privates form)
                (runtime.unary op form (state.fetch form (state.slot (stack + 1))) state.world)
  | .binary op left right, state =>
      let form0 := left.form layout
      let form1 := right.form layout
      andThen (left.perform exits base privates (stack + 1) false true false state) fun state =>
        andThen (right.perform exits (base + left.blocks) (left.after layout blocks base privates)
            (stack + 2) false true false state) fun state =>
          match foldBinary op form0 form1 with
          | .operand folded =>
              literally layout.privates (state.fetch folded .null) tail operand clear stack state
          | _ =>
              deliver layout.privates tail stack
                ((state.fetched layout.privates form0).fetched layout.privates form1)
                (runtime.binary op form0 form1 (state.fetch form0 (state.slot (stack + 1)))
                  (state.fetch form1 (state.slot (stack + 2))) state.world)
  | .preserve, state => (.normal, state)
  | .call target arguments expands, state =>
      match target.called layout expands with
      | some (resolved, found) =>
          andThen (arguments.performValues exits (base + target.blocks) privates (stack + 2) state)
            fun state =>
              let operands := state.operands (stack + 2) arguments.length
              let cleared := state.write layout.privates (stack + 1) .null
              if found.isShared then
                deliver layout.privates tail stack cleared (runtime.call expands
                  (runtime.scopeGet resolved found.index state.world) .null operands state.world)
              else
                let known := decide (found.index < layout.arguments) || privates found.index ||
                  arguments.settles layout found.index
                deliver layout.privates tail stack
                  (cleared.note (.callee found.index known (cleared.slot found.index)
                    (cleared.assigned found.index)))
                  (runtime.call expands (cleared.slot found.index) .null operands cleared.world)
      | none =>
          let ending :=
            match target with
            | .operate (.objectGet key) operands =>
                andThen (operands.performValues exits base privates stack state)
                  (bind runtime layout.privates (.methodGet key) stack)
            | .operate .getAt operands =>
                andThen (operands.performValues exits base privates stack state)
                  (bind runtime layout.privates .methodBind stack)
            | target =>
                andThen (target.perform exits base privates stack false false false state)
                  fun state => (.normal, state.write layout.privates (stack + 1) .null)
          andThen ending fun state =>
            andThen (arguments.performValues exits (base + target.blocks)
                (target.after layout blocks base privates) (stack + 2) state) fun state =>
              deliver layout.privates tail stack state (runtime.call expands (state.slot stack)
                (state.slot (stack + 1)) (state.operands (stack + 2) arguments.length) state.world)

def Nodes.performSequence (exits : Exits) (base : Nat) (privates : Nat → Bool) (stack : Nat)
    (tail clear : Bool) : Nodes F O → State F O W → Ending F O W
  | .nil, state =>
      (.normal, if clear then state else state.write layout.privates stack .null)
  | .cons head rest, state =>
      if rest.isNil then head.perform exits base privates stack tail false clear state
      else
        andThen (head.perform exits base privates stack false false true state) fun state =>
          rest.performSequence exits (base + head.blocks) (head.after layout blocks base privates)
            stack tail clear state

def Nodes.performValues (exits : Exits) (base : Nat) (privates : Nat → Bool) (stack : Nat) :
    Nodes F O → State F O W → Ending F O W
  | .nil, state => (.normal, state)
  | .cons head rest, state =>
      andThen (head.perform exits base privates stack false false false state) fun state =>
        rest.performValues exits (base + head.blocks) (head.after layout blocks base privates)
          (stack + 1) state

/-- The clauses in order, until one takes what was thrown. -/
def Catches.perform (exits : Exits) (base : Nat) (privates : Nat → Bool) (stack : Nat)
    (clear : Bool) : Catches F O → Value F O → State F O W → Ending F O W
  | .nil, thrown, state => (.threw thrown, state)
  | .cons expression variable_ body tail, thrown, state =>
      let blockBody := base + 1 + expression.blocks
      let privates1 := expression.after layout blocks (base + 1) privates
      let privates2 := body.after layout blocks (blockBody + 1) privates1
      let found := layout.variableOf variable_
      andThen (expression.perform exits (base + 1) privates stack false false false state)
        fun state =>
          match runtime.catches thrown (state.slot stack) state.world with
          | (.error other, world) => (.threw other, state.setWorld world)
          | (.ok false, world) =>
              tail.perform exits (blockBody + 1 + body.blocks) privates2 stack clear thrown
                (state.setWorld world)
          | (.ok true, world) =>
              body.perform exits (blockBody + 1) privates1 stack false false clear
                (if found.isShared then
                  state.setWorld (runtime.scopePut 0 found.index thrown world)
                else (state.setWorld world).write layout.privates found.index thrown)

def Optional.performOptional (exits : Exits) (base : Nat) (privates : Nat → Bool) (stack : Nat)
    (clear : Bool) : Optional F O → State F O W → Ending F O W
  | .none, state => (.normal, state)
  | .some node, state => node.perform exits base privates stack false false clear state

end

attribute [grind =] Node.perform Nodes.performSequence Nodes.performValues Catches.perform
  Optional.performOptional

end

end Xemmai
