import Xemmai.Reads

/-!
# Evaluation of a tree

What a tree means without slots, blocks and instructions: a store of variables
and a world, and a conclusion that is a value or a jump with a value. A variable
that is an operand is read when its operator is applied, and one that is called
when it is called; of constants an operator makes what folding makes of them.
-/

namespace Xemmai

set_option autoImplicit false

/-- How an evaluation goes on: with a result, or with a jump that leaves it. -/
inductive Conclusion (V A : Type) where
  | value (a : A)
  | break_ (value : V)
  | continue_
  | return_ (value : V)
  | threw (thrown : V)
  | timeout

abbrev Evaluated (V S A : Type) := Conclusion V A × S

section Conclusions

variable {V S A B : Type}

namespace Evaluated

def bind (evaluated : Evaluated V S A) (rest : A → S → Evaluated V S B) : Evaluated V S B :=
  match evaluated with
  | (.value a, store) => rest a store
  | (.break_ value, store) => (.break_ value, store)
  | (.continue_, store) => (.continue_, store)
  | (.return_ value, store) => (.return_ value, store)
  | (.threw thrown, store) => (.threw thrown, store)
  | (.timeout, store) => (.timeout, store)

def seq (evaluated : Evaluated V S A) (rest : S → Evaluated V S B) : Evaluated V S B :=
  evaluated.bind fun _ => rest

end Evaluated

def rounding (again : S → Evaluated V S V) (evaluated : Evaluated V S A) : Evaluated V S V :=
  match evaluated with
  | (.value _, store) => again store
  | (.continue_, store) => again store
  | (.break_ value, store) => (.value value, store)
  | (.return_ value, store) => (.return_ value, store)
  | (.threw thrown, store) => (.threw thrown, store)
  | (.timeout, store) => (.timeout, store)

/-- A loop, which gives `null` unless it is broken. -/
def repeated (null : V) (condition : S → Evaluated V S Bool) (body next : S → Evaluated V S A) :
    Nat → S → Evaluated V S V
  | 0, store => (.timeout, store)
  | fuel + 1, store =>
      (condition store).bind fun holds store =>
        if holds then
          rounding (fun store => (next store).seq (repeated null condition body next fuel))
            (body store)
        else (.value null, store)

def caught (catches : V → S → Evaluated V S A) (evaluated : Evaluated V S A) : Evaluated V S A :=
  match evaluated with
  | (.threw thrown, store) => catches thrown store
  | evaluated => evaluated

/-- A body with its catch clauses, and then the finally block once, whatever
the end of the former. -/
def attempted (body : S → Evaluated V S A) (catches : V → S → Evaluated V S A)
    (finally_ : S → Evaluated V S B) (store : S) : Evaluated V S A :=
  match caught catches (body store) with
  | (.timeout, store) => (.timeout, store)
  | (conclusion, store) => (finally_ store).seq fun store => (conclusion, store)

end Conclusions

/-- The variables of a scope that are not shared, by their slots, and the world. -/
structure Store (F O W : Type) where
  locals : Nat → Value F O
  world : W

namespace Store

variable {F O W : Type}

def setWorld (store : Store F O W) (world : W) : Store F O W := { store with world := world }

/-- The value of an operand, a temporary being `temporary`. -/
def fetch (operand : Operand F O) (temporary : Value F O) (store : Store F O W) : Value F O :=
  match operand with
  | .integer value => .integer value
  | .float value => .float value
  | .literal value => value
  | .variable index => store.locals index
  | .temporary => temporary

def deliver (store : Store F O W) (result : Except (Value F O) (Value F O) × W) :
    Evaluated (Value F O) (Store F O W) (Value F O) :=
  match result.1 with
  | .error thrown => (.threw thrown, store.setWorld result.2)
  | .ok value => (.value value, store.setWorld result.2)

/-- `METHOD_GET` and `METHOD_BIND` -/
def bound (store : Store F O W) (result : Except (Value F O) (Value F O × Value F O) × W) :
    Evaluated (Value F O) (Store F O W) (Value F O × Value F O) :=
  match result.1 with
  | .error thrown => (.threw thrown, store.setWorld result.2)
  | .ok pair => (.value pair, store.setWorld result.2)

/-- What a variable is, `outer` scopes out if it is shared. -/
def get (layout : Layout) (runtime : Runtime F O W) (outer variable_ : Nat)
    (store : Store F O W) : Value F O :=
  let found := layout.variableOf variable_
  if found.isShared then runtime.scopeGet outer found.index store.world
  else store.locals found.index

def put (layout : Layout) (runtime : Runtime F O W) (outer variable_ : Nat) (value : Value F O)
    (store : Store F O W) : Store F O W :=
  let found := layout.variableOf variable_
  if found.isShared then store.setWorld (runtime.scopePut outer found.index value store.world)
  else { store with locals := Function.update store.locals found.index value }

def operand (form : Operand F O)
    (evaluate : Store F O W → Evaluated (Value F O) (Store F O W) (Value F O))
    (store : Store F O W) : Evaluated (Value F O) (Store F O W) (Value F O) :=
  if form.isTemporary then evaluate store else (.value .null, store)

end Store

section

variable {F O W : Type} [Double F] (layout : Layout) (runtime : Runtime F O W) (fuel : Nat)

mutual

/-- What a tree means; `top` is the value of the condition that it is a branch of. -/
def Node.evaluate (top : Value F O) :
    Node F O → Store F O W → Evaluated (Value F O) (Store F O W) (Value F O)
  | .nodes items, store => items.evaluateSequence store
  | .operate action operands, store =>
      (operands.evaluateValues store).bind fun values store =>
        store.deliver (runtime.operate action values store.world)
  | .if_ condition true_ false_, store =>
      (condition.evaluateOptional (.boolean true) store).bind fun value store =>
        if value.asBoolean then true_.evaluate value store else false_.evaluate value store
  | .while_ condition body, store =>
      repeated .null
        (fun store => (condition.evaluateOptional (.boolean true) store).bind fun value store =>
          (.value value.asBoolean, store))
        (body.evaluate .null) (fun store => (.value .null, store)) fuel store
  | .for_ initialization condition next body, store =>
      (initialization.evaluateOptional .null store).seq fun store =>
        repeated .null
          (fun store => (condition.evaluateOptional (.boolean true) store).bind fun value store =>
            (.value value.asBoolean, store))
          (body.evaluate .null) (next.evaluateOptional .null) fuel store
  | .break_ expression, store =>
      (expression.evaluate .null store).bind fun value store => (.break_ value, store)
  | .continue_, store => (.continue_, store)
  | .return_ expression, store =>
      (expression.evaluate .null store).bind fun value store => (.return_ value, store)
  | .try_ body catches finally_, store =>
      attempted (body.evaluate .null) catches.evaluate (finally_.evaluateOptional .null) store
  | .throw_ expression, store =>
      (expression.evaluate .null store).bind fun value store => (.threw value, store)
  | .symbolGet _ none symbol, store =>
      store.deliver (runtime.operate (.globalGet symbol) [] store.world)
  | .symbolGet resolved (some variable_) _, store =>
      (.value (store.get layout runtime resolved variable_), store)
  | .scopePut outer variable_ value, store =>
      (value.evaluate .null store).bind fun value store =>
        (.value value, store.put layout runtime outer variable_ value)
  | .self outer, store =>
      (.value (if 0 < outer then runtime.scopeGet outer 0 store.world else runtime.self), store)
  | .literal literal, store => (.value literal.value, store)
  | .unary op expression, store =>
      let form := expression.form layout
      (store.operand form (expression.evaluate .null)).bind fun temporary store =>
        match foldUnary op form with
        | .operand folded => (.value (store.fetch folded .null), store)
        | _ => store.deliver (runtime.unary op form (store.fetch form temporary) store.world)
  | .binary op left right, store =>
      let form0 := left.form layout
      let form1 := right.form layout
      (store.operand form0 (left.evaluate .null)).bind fun temporary0 store =>
        (store.operand form1 (right.evaluate .null)).bind fun temporary1 store =>
          match foldBinary op form0 form1 with
          | .operand folded => (.value (store.fetch folded .null), store)
          | _ =>
              store.deliver (runtime.binary op form0 form1 (store.fetch form0 temporary0)
                (store.fetch form1 temporary1) store.world)
  | .preserve, store => (.value top, store)
  | .call target arguments expands, store =>
      match target.called layout expands with
      | some (resolved, found) =>
          (arguments.evaluateValues store).bind fun values store =>
            store.deliver (runtime.call expands
              (if found.isShared then runtime.scopeGet resolved found.index store.world
              else store.locals found.index) .null values store.world)
      | none =>
          let callee : Evaluated (Value F O) (Store F O W) (Value F O × Value F O) :=
            match target with
            | .operate (.objectGet key) operands =>
                (operands.evaluateValues store).bind fun values store =>
                  store.bound (runtime.bind (.methodGet key) values store.world)
            | .operate .getAt operands =>
                (operands.evaluateValues store).bind fun values store =>
                  store.bound (runtime.bind .methodBind values store.world)
            | target =>
                (target.evaluate .null store).bind fun value store => (.value (value, .null), store)
          callee.bind fun (function, self) store =>
            (arguments.evaluateValues store).bind fun values store =>
              store.deliver (runtime.call expands function self values store.world)

def Nodes.evaluateSequence :
    Nodes F O → Store F O W → Evaluated (Value F O) (Store F O W) (Value F O)
  | .nil, store => (.value .null, store)
  | .cons head rest, store =>
      if rest.isNil then head.evaluate .null store
      else (head.evaluate .null store).seq rest.evaluateSequence

def Nodes.evaluateValues :
    Nodes F O → Store F O W → Evaluated (Value F O) (Store F O W) (List (Value F O))
  | .nil, store => (.value [], store)
  | .cons head rest, store =>
      (head.evaluate .null store).bind fun value store =>
        (rest.evaluateValues store).bind fun values store => (.value (value :: values), store)

/-- The clauses in order, until one takes what was thrown. -/
def Catches.evaluate :
    Catches F O → Value F O → Store F O W → Evaluated (Value F O) (Store F O W) (Value F O)
  | .nil, thrown, store => (.threw thrown, store)
  | .cons expression variable_ body tail, thrown, store =>
      (expression.evaluate .null store).bind fun type store =>
        match runtime.catches thrown type store.world with
        | (.error other, world) => (.threw other, store.setWorld world)
        | (.ok false, world) => tail.evaluate thrown (store.setWorld world)
        | (.ok true, world) =>
            body.evaluate .null ((store.setWorld world).put layout runtime 0 variable_ thrown)

def Optional.evaluateOptional (default : Value F O) :
    Optional F O → Store F O W → Evaluated (Value F O) (Store F O W) (Value F O)
  | .none, store => (.value default, store)
  | .some node, store => node.evaluate .null store

end

attribute [grind =] Node.evaluate Nodes.evaluateSequence Nodes.evaluateValues Catches.evaluate
  Optional.evaluateOptional

section

variable {F O : Type}

mutual

/-- Whether the value of a condition is asked for only where it is still on the
stack, in a branch as such (`branch`), and no `break` or `continue` leaves the
operand of a `return`, which stands where the outer temporaries of the frame do. -/
def Node.isPlain (branch : Bool) : Node F O → Bool
  | .nodes items => items.isPlain
  | .operate _ operands => operands.isPlain
  | .if_ condition true_ false_ =>
      condition.isPlain && true_.isPlain condition.isSome && false_.isPlain condition.isSome
  | .while_ condition body => condition.isPlain && body.isPlain false
  | .for_ initialization condition next body =>
      initialization.isPlain && condition.isPlain && next.isPlain && body.isPlain false
  | .break_ expression => expression.isPlain false
  | .continue_ => true
  | .return_ expression => expression.isPlain false && expression.lands ⟨false, false, true⟩
  | .try_ body catches finally_ => body.isPlain false && catches.isPlain && finally_.isPlain
  | .throw_ expression => expression.isPlain false
  | .symbolGet _ _ _ => true
  | .scopePut _ _ value => value.isPlain false
  | .self _ => true
  | .literal _ => true
  | .unary _ expression => expression.isPlain false
  | .binary _ left right => left.isPlain false && right.isPlain false
  | .preserve => branch
  | .call target arguments _ => target.isPlain false && arguments.isPlain

def Nodes.isPlain : Nodes F O → Bool
  | .nil => true
  | .cons head tail => head.isPlain false && tail.isPlain

def Catches.isPlain : Catches F O → Bool
  | .nil => true
  | .cons expression _ body tail =>
      expression.isPlain false && body.isPlain false && tail.isPlain

def Optional.isPlain : Optional F O → Bool
  | .none => true
  | .some node => node.isPlain false

end

attribute [grind =] Node.isPlain Nodes.isPlain Catches.isPlain Optional.isPlain

end

end

section Scopes

variable {F O W : Type} (scope : Scope F O) (runtime : Runtime F O W)

namespace Scope

def accept (store : Store F O W) (argument : Nat × Nat) : Store F O W :=
  let found := scope.layout.variableOf argument.1
  if found.isShared then
    store.setWorld (runtime.scopePut 0 found.index (store.locals argument.2) store.world)
  else store

def evaluateEntry (store : Store F O W) : Store F O W :=
  scope.parameters.zipIdx.foldl (scope.accept runtime)
    (if scope.isSelfShared then
      store.setWorld (runtime.scopePut 0 0 runtime.self store.world)
    else store)

def conclude : Evaluated (Value F O) (Store F O W) (Value F O) → Option (Result F O × Store F O W)
  | (.value value, store) | (.return_ value, store) =>
      some (.returned (if scope.isLambda then value else .null), store)
  | (.threw thrown, store) => some (.threw thrown, store)
  | (.break_ _, _) | (.continue_, _) | (.timeout, _) => none

def evaluate [Double F] (fuel : Nat) (store : Store F O W) : Option (Result F O × Store F O W) :=
  scope.conclude
    (scope.body.evaluate scope.layout runtime fuel .null (scope.evaluateEntry runtime store))

end Scope

end Scopes

end Xemmai
