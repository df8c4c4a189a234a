import Xemmai.Emit

/-!
# The interpreter

`t_code::f_loop` and `t_code::f_try` over the instructions of one scope. The
recursion of `f_loop` through `f_try` and the C++ exceptions that leave it are a
list of frames, one for each `f_try` in progress. Native code, the scope objects
and everything else outside the frame are a parameter.

Beside the slots, a state keeps what the statements about initialisation speak
of: the value last assigned to each variable, whether its slot has been written,
and a log of the accesses.
-/

namespace Xemmai

set_option autoImplicit false

/-- What instructions ask of the rest of the engine. The handlers of `unary` and
`binary` are given the operand form with the fetched operands. -/
structure Runtime (F O W : Type) where
  operate : Action → List (Value F O) → W → Except (Value F O) (Value F O) × W
  unary : Unary → Operand F O → Value F O → W → Except (Value F O) (Value F O) × W
  binary : Binary → Operand F O → Operand F O → Value F O → Value F O → W →
    Except (Value F O) (Value F O) × W
  bind : Binding → List (Value F O) → W → Except (Value F O) (Value F O × Value F O) × W
  call : List Nat → Value F O → Value F O → List (Value F O) → W →
    Except (Value F O) (Value F O) × W
  /-- Whether a catch clause of a type takes what was thrown. -/
  catches : Value F O → Value F O → W → Except (Value F O) Bool × W
  scopeGet : Nat → Nat → W → Value F O
  scopePut : Nat → Nat → Value F O → W → W
  /-- `base[-1]` -/
  self : Value F O

inductive Access (F O : Type) where
  | read (index : Nat) (found last : Value F O)
  | callee (index : Nat) (known : Bool) (found last : Value F O)
  | inserted (index : Nat) (last : Value F O)
  | exposed (index : Nat) (written : Bool)
  deriving DecidableEq, Repr

structure State (F O W : Type) where
  slot : Nat → Value F O
  assigned : Nat → Value F O
  written : Nat → Bool
  log : List (Access F O)
  world : W

namespace State

variable {F O W : Type}

def note (access : Access F O) (state : State F O W) : State F O W :=
  { state with log := state.log ++ [access] }

/-- Reading a slot; those below `v_privates` are variables. -/
def read (privates index : Nat) (state : State F O W) : State F O W :=
  if index < privates then
    state.note (.read index (state.slot index) (state.assigned index))
  else state

def write (privates index : Nat) (value : Value F O) (state : State F O W) : State F O W :=
  if index < privates then
    { state with
      slot := Function.update state.slot index value
      assigned := Function.update state.assigned index value
      written := Function.update state.written index true }
  else { state with slot := Function.update state.slot index value }

def insertNull (index : Nat) (state : State F O W) : State F O W :=
  { state.note (.inserted index (state.assigned index)) with
    slot := Function.update state.slot index .null
    written := Function.update state.written index true }

def expose (exposed : List Nat) (state : State F O W) : State F O W :=
  { state with log := state.log ++ exposed.map fun index => .exposed index (state.written index) }

def setWorld (world : W) (state : State F O W) : State F O W := { state with world := world }

/-- The operand of a handler, a temporary being `temporary`. -/
def fetch (operand : Operand F O) (temporary : Value F O) (state : State F O W) : Value F O :=
  match operand with
  | .integer value => .integer value
  | .float value => .float value
  | .literal value => value
  | .variable index => state.slot index
  | .temporary => temporary

def fetched (privates : Nat) (operand : Operand F O) (state : State F O W) : State F O W :=
  match operand with
  | .variable index => state.read privates index
  | _ => state

end State

/-- How far an `f_try` has got: in the first `f_loop`, in the `f_loop` of the
catch clauses, or in the one of the finally block, on the way to `try0` or to
`throw`. -/
inductive Phase (F O : Type) where
  | body
  | catching (thrown : Value F O)
  | finishing (leave : Leave)
  | rethrowing (thrown : Value F O)
  deriving DecidableEq, Repr

structure TryFrame (F O : Type) where
  stack : Nat
  catch_ : Nat
  finally_ : Nat
  exposed : List Nat
  phase : Phase F O
  deriving DecidableEq, Repr

/-- What the outermost `f_loop` ends with; `undefined` where the emitter never
leads. -/
inductive Result (F O : Type) where
  | returned (value : Value F O)
  | threw (thrown : Value F O)
  | undefined
  deriving DecidableEq, Repr

inductive Config (F O W : Type) where
  | at (pc : Nat) (frames : List (TryFrame F O)) (state : State F O W)
  | done (result : Result F O) (state : State F O W)

namespace Config

variable {F O W : Type}

def state : Config F O W → State F O W
  | .at _ _ state => state
  | .done _ state => state

/-- A C++ exception out of the innermost `f_loop`. -/
def unwind : List (TryFrame F O) → Value F O → State F O W → Config F O W
  | [], thrown, state => .done (.threw thrown) state
  | frame :: frames, thrown, state =>
      match frame.phase with
      | .body =>
          .at frame.catch_ ({ frame with phase := .catching thrown } :: frames)
            (state.expose frame.exposed)
      | .catching _ =>
          .at frame.finally_ ({ frame with phase := .rethrowing thrown } :: frames) state
      | .finishing _ | .rethrowing _ => unwind frames thrown state

/-- `label__RETURN_RESULT` -/
def returned (frames : List (TryFrame F O)) (value : Value F O) (state : State F O W) :
    Config F O W :=
  match frames with
  | [] => .done (.returned value) state
  | _ :: _ => .done .undefined state

/-- The result of native code: left at `stack`, or returned by a `_TAIL` form. -/
def deliver (privates pc : Nat) (frames : List (TryFrame F O)) (tail : Bool) (stack : Nat)
    (state : State F O W) (result : Except (Value F O) (Value F O) × W) : Config F O W :=
  let state := state.setWorld result.2
  match result.1 with
  | .error thrown => unwind frames thrown state
  | .ok value =>
      if tail then returned frames value state
      else .at (pc + 1) frames (state.write privates stack value)

end Config

section Interpreter

variable {F O W : Type} (runtime : Runtime F O W) (privates : Nat)

def State.operands (first count : Nat) (state : State F O W) : List (Value F O) :=
  (List.range count).map fun i => state.slot (first + i)

/-- One instruction of `f_loop`, or what `f_try` does when `f_loop` returns. -/
def execute (pc : Nat) (frames : List (TryFrame F O)) (state : State F O W) :
    Instr F O → Config F O W
  | .jump target exposed => .at target frames (state.expose exposed)
  | .branch stack target =>
      .at (if (state.slot stack).asBoolean then pc + 1 else target) frames state
  | .try_ stack catch0 finally0 exposed =>
      .at (pc + 1) (⟨stack, catch0, finally0, exposed, .body⟩ :: frames) state
  | .catch_ target isShared index =>
      match frames with
      | ⟨stack, catch0, finally0, exposed, .catching thrown⟩ :: rest =>
          match runtime.catches thrown (state.slot stack) state.world with
          | (.error other, world) =>
              .at finally0 (⟨stack, catch0, finally0, exposed, .rethrowing other⟩ :: rest)
                (state.setWorld world)
          | (.ok false, world) => .at target frames (state.setWorld world)
          | (.ok true, world) =>
              if isShared then
                .at (pc + 1) frames (state.setWorld (runtime.scopePut 0 index thrown world))
              else .at (pc + 1) frames ((state.setWorld world).write privates index thrown)
      | _ => .done .undefined state
  | .finally_ leave =>
      match frames with
      | ⟨stack, catch0, finally0, exposed, .body⟩ :: rest =>
          .at finally0 (⟨stack, catch0, finally0, exposed, .finishing leave⟩ :: rest) state
      | ⟨stack, catch0, finally0, exposed, .catching thrown⟩ :: rest =>
          .at finally0 (⟨stack, catch0, finally0, exposed,
            if leave = .throw_ then .rethrowing thrown else .finishing leave⟩ :: rest) state
      | _ => .done .undefined state
  | .yrt break0 continue0 return0 =>
      let jump target rest : Config F O W :=
        match target with
        | some pc => .at pc rest state
        | none => .done .undefined state
      match frames with
      | ⟨_, _, _, _, .finishing .break_⟩ :: rest => jump break0 rest
      | ⟨_, _, _, _, .finishing .continue_⟩ :: rest => jump continue0 rest
      | ⟨_, _, _, _, .finishing .return_⟩ :: rest => jump return0 rest
      | ⟨_, _, _, _, .finishing _⟩ :: rest => .at (pc + 1) rest state
      | ⟨_, _, _, _, .rethrowing thrown⟩ :: rest => .unwind rest thrown state
      | _ => .done .undefined state
  | .throw_ stack => .unwind frames (state.slot stack) state
  | .operate action tail stack count =>
      let first := if action.isIndexing then stack + 1 else stack
      .deliver privates pc frames tail stack state
        (runtime.operate action (state.operands first count) state.world)
  | .bind binding stack =>
      match runtime.bind binding (state.operands stack binding.operands) state.world with
      | (.error thrown, world) => .unwind frames thrown (state.setWorld world)
      | (.ok (function, self), world) =>
          .at (pc + 1) frames
            (((state.setWorld world).write privates stack function).write privates (stack + 1) self)
  | .stackGet stack index =>
      .at (pc + 1) frames
        ((state.read privates index).write privates stack (state.slot index))
  | .stackPut stack index =>
      .at (pc + 1) frames
        ((state.read privates stack).write privates index (state.slot stack))
  | .scopeGet stack outer index =>
      .at (pc + 1) frames
        (state.write privates stack (runtime.scopeGet outer index state.world))
  | .scopePut stack outer index =>
      .at (pc + 1) frames
        (state.setWorld (runtime.scopePut outer index (state.slot stack) state.world))
  | .self stack => .at (pc + 1) frames (state.write privates stack runtime.self)
  | .load index value => .at (pc + 1) frames (state.write privates index value)
  | .insertNull index => .at (pc + 1) frames (state.insertNull index)
  | .returnLoad value => .returned frames value state
  | .return_ index => .returned frames (state.slot index) (state.read privates index)
  | .unary op operand tail stack =>
      .deliver privates pc frames tail stack (state.fetched privates operand)
        (runtime.unary op operand (state.fetch operand (state.slot (stack + 1))) state.world)
  | .binary op left right tail stack =>
      .deliver privates pc frames tail stack
        ((state.fetched privates left).fetched privates right)
        (runtime.binary op left right (state.fetch left (state.slot (stack + 1)))
          (state.fetch right (state.slot (stack + 2))) state.world)
  | .call callee tail stack count expands =>
      let arguments := state.operands (stack + 2) count
      match callee with
      | .stack =>
          .deliver privates pc frames tail stack state
            (runtime.call expands (state.slot stack) (state.slot (stack + 1)) arguments state.world)
      | .slot index known =>
          let state := state.write privates (stack + 1) .null
          .deliver privates pc frames tail stack
            (state.note (.callee index known (state.slot index) (state.assigned index)))
            (runtime.call expands (state.slot index) .null arguments state.world)
      | .scope outer index =>
          .deliver privates pc frames tail stack (state.write privates (stack + 1) .null)
            (runtime.call expands (runtime.scopeGet outer index state.world) .null arguments
              state.world)

def step (code : List (Instr F O)) : Config F O W → Config F O W
  | .at pc frames state =>
      match code[pc]? with
      | some instruction => execute runtime privates pc frames state instruction
      | none => .done .undefined state
  | .done result state => .done result state

end Interpreter

/-- A lambda or a module. `parameters` are the variables of the arguments. -/
structure Scope (F O : Type) where
  layout : Layout
  isLambda : Bool
  isSelfShared : Bool
  parameters : List Nat
  body : Node F O

namespace Scope

variable {F O : Type} (scope : Scope F O)

/-- The copies of the lambda itself and of its shared arguments to the scope. -/
def prologue : List (Instr F O) :=
  let stack := scope.layout.privates
  (if scope.isSelfShared then [.self stack, .scopePut stack 0 0] else []) ++
    scope.parameters.zipIdx.flatMap fun (parameter, i) =>
      let found := scope.layout.variableOf parameter
      if found.isShared then [.stackGet stack i, .scopePut stack 0 found.index] else []

/-- The targets that `t_lambda::f_emit` starts with: label 0 is `return0`. -/
def lambdaJumps (layout : Layout) : Jumps where
  break_ := none
  breakJunction := 0
  breakStack := layout.privates
  breakIsTail := false
  breakMustClear := false
  continue_ := none
  continueJunction := 0
  return_ := some 0
  returnJunction := 1
  returnStack := layout.privates
  returnIsTail := true
  exposed := []

/-- The targets that `t_emit::operator()` starts with. -/
def moduleJumps (layout : Layout) : Jumps where
  break_ := none
  breakJunction := 0
  breakStack := layout.privates
  breakIsTail := false
  breakMustClear := false
  continue_ := none
  continueJunction := 0
  return_ := none
  returnJunction := 0
  returnStack := layout.privates
  returnIsTail := false
  exposed := []

def jumps : Jumps :=
  if scope.isLambda then lambdaJumps scope.layout else moduleJumps scope.layout

variable [Double F]

def start : Emit F O where
  code := scope.prologue
  size := scope.layout.privates
  stack := scope.layout.privates
  privates _ := false
  labels := 1
  targets := []

/-- The body of `t_lambda::f_emit` and of `t_emit::operator()`. -/
def emit : Option (Emit F O) := do
  let blocks := scope.body.analyze scope.layout
  let (_, state) ← scope.body.emit scope.layout blocks scope.jumps 2 scope.isLambda false
    (!scope.isLambda) scope.start
  if scope.isLambda then
    let state := state.pop.setTarget 0
    some (state.emit (.return_ state.stack))
  else some (state.emit (.returnLoad .null))

/-- `t_emit::f_resolve` -/
def compile : Option (List (Instr F O)) :=
  scope.emit.map fun state => state.code.map (Instr.resolve state.target)

end Scope

section Runs

variable {F O W : Type}

/-- The state in which a frame is entered: the arguments are in place and the
other slots hold anything. -/
structure Entry (layout : Layout) (state : State F O W) : Prop where
  written : ∀ index, state.written index = decide (index < layout.arguments)
  argument : ∀ index, index < layout.arguments → state.assigned index = state.slot index
  unassigned : ∀ index, layout.arguments ≤ index → state.assigned index = .null
  log : state.log = []

/-- `n` instructions of a scope from its entry. -/
def Scope.run (scope : Scope F O) (runtime : Runtime F O W) (code : List (Instr F O)) (n : Nat)
    (state : State F O W) : Config F O W :=
  (step runtime scope.layout.privates code)^[n] (.at 0 [] state)

end Runs

end Xemmai
