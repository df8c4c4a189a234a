import Mathlib
import Xemmai.Machine

/-!
# Fibers

The fibers of one thread: `f_do_call`, `f_run` and `f_main`, with `f_try` over the
code that `t_try::f_emit` emits. What the code of a fiber does is an action, and so
is what the collector does. The mutex is that of the thread, and a pointer into the
stack of a fiber is the number of the slot.
-/

namespace Xemmai.Fibers

set_option autoImplicit false

/-- The main fiber of the thread, the fiber as a value, `v_fiber_exit`, and what
`f_throw`, `f_check<t_type>`, `f_is` and `f_is<t_throwable>` give. -/
structure Setting (ι V : Type) where
  main : ι
  object : ι → V
  exit : V
  error : String → V
  isType : V → Bool
  notType : V
  is : V → V → Bool
  isThrowable : V → Bool

/-- How far an `f_try` has got: in the body, in the expression of one of the catch
clauses left, in the body of a clause, or in the finally block. `nested` tells whether
the finally block is run in the handler within the one of the clauses. -/
inductive Phase (V : Type)
  | body
  | matching (thrown : V) (clauses : Nat)
  | caught (thrown : V)
  | finishing
  | rethrowing (thrown : V) (nested : Bool)
  deriving DecidableEq

/-- The handlers that an `f_try` is in. -/
def Phase.handlers {V : Type} : Phase V → Nat
  | body | finishing => 0
  | matching _ _ | caught _ => 1
  | rethrowing _ nested => if nested then 2 else 1

structure Try (V : Type) where
  number : Nat
  clauses : Nat
  phase : Phase V
  deriving DecidableEq

/-- `v_context`: at the start of `f_run`, behind the `swapcontext` of `f_do_call`, or
behind the one of `f_main`. -/
inductive Point (ι V : Type)
  | entry (x : V)
  | calling (fiber : ι) (slot : Nat)
  | exiting
  deriving DecidableEq

/-- `t_fiber::t_internal`, with the `f_try`s in progress on its stack. `atMain` tells
whether `f_main` is at the bottom of it, and `running` whether `v_thread` is set. -/
structure Internal (ι V : Type) where
  fiber : ι
  atMain : Bool
  running : Bool
  point : Option (Point ι V)
  tries : List (Try V)

/-- `t_fiber`; `v_return` is not initialized. -/
structure Fiber where
  internal : Option Nat
  throw_ : Bool
  return_ : Option Nat
  deriving DecidableEq

/-- What is executed next: code of the active fiber, the unwinding of its stack, the
loop of `f_main`, or nothing any more. -/
inductive Control (V : Type)
  | code
  | raising (thrown : V)
  | exiting
  | over_
  | undefined
  deriving DecidableEq

/-- How far `f_main` has got: in `a_main`, in the report of what that threw, or behind. -/
inductive Stage (V : Type)
  | running
  | naming (thrown : V)
  | dumping
  | ended
  deriving DecidableEq

inductive Outcome (V : Type)
  | returned (x : V)
  | threw (x : V)
  deriving DecidableEq

def Outcome.value {V : Type} : Outcome V → V
  | returned x | threw x => x

def Outcome.thrown {V : Type} : Outcome V → Option V
  | returned _ => none
  | threw x => some x

/-- What is noted of the transfers. A pending call is known by its slot. -/
inductive Entry (ι V : Type)
  | refused (fiber : ι)
  | called (caller callee : ι) (call : Nat) (x : V)
  | started (fiber : ι) (x : V)
  | resumed (fiber : ι) (call : Nat) (outcome : Outcome V)
  | ended (fiber : ι) (outcome : Outcome V)
  | mainEnded
  | over_

/-- What is noted of each `f_try`. -/
inductive Attempt (V : Type)
  | entered (number : Nat)
  | caught (number : Nat) (thrown : V)
  | finally_ (number : Nat)
  | rethrown (number : Nat) (thrown actual : V)
  deriving DecidableEq

/-- A handler that has not been left: of an `f_try`, or the one of `f_main`. -/
structure Handled (V : Type) where
  by_ : Option Nat
  thrown : V
  deriving DecidableEq

/-- `fiber` is the heap, and `internals` the list from `v_fibers` on. `active` is
`v_active`, and `executing` the stack that is in fact executed on. `handlers` is of
the thread, the innermost one first: `swapcontext` and `setcontext` leave it alone. -/
structure State (ι V : Type) where
  fiber : ι → Option Fiber
  internal : Nat → Internal ι V
  internals : List Nat
  created : Nat
  slot : Nat → Option V
  slots : Nat
  active : Nat
  executing : Nat
  locked : Bool
  stage : Stage V
  control : Control V
  tries : Nat
  handlers : List (Handled V)
  log : List (Entry ι V)
  attempts : List (Attempt V)

inductive Action (ι V : Type)
  | call (fiber : ι) (arguments : List V)
  | return_ (x : V)
  | throw_ (thrown : V)
  | try_ (clauses : Nat)
  | leave
  | catch_ (type : V)
  | exhaust
  | yrt
  | unwind
  | exit
  | instantiate (fiber : ι)
  | collect (fiber : ι)
  | epoch

namespace State

variable {ι V : Type} [DecidableEq ι]

def setFiber (fiber : ι) (value : Fiber) (state : State ι V) : State ι V :=
  { state with fiber := Function.update state.fiber fiber (some value) }

def setInternal (number : Nat) (value : Internal ι V) (state : State ι V) : State ι V :=
  { state with internal := Function.update state.internal number value }

def setSlot (slot : Nat) (value : V) (state : State ι V) : State ι V :=
  { state with slot := Function.update state.slot slot (some value) }

def note (entry : Entry ι V) (state : State ι V) : State ι V :=
  { state with log := state.log ++ [entry] }

def attempt (attempt : Attempt V) (state : State ι V) : State ι V :=
  { state with attempts := state.attempts ++ [attempt] }

/-- The `f_try`s on the stack that is executed on. -/
def setTries (tries : List (Try V)) (state : State ι V) : State ι V :=
  state.setInternal state.executing { state.internal state.executing with tries := tries }

/-- `catch`, in an `f_try` or in `f_main` -/
def enterHandler (by_ : Option Nat) (thrown : V) (state : State ι V) : State ι V :=
  { state with handlers := ⟨by_, thrown⟩ :: state.handlers }

/-- The innermost handlers of the thread are left, whichever fiber is in them. -/
def leaveHandlers (count : Nat) (state : State ι V) : State ι V :=
  { state with handlers := state.handlers.drop count }

def lock (state : State ι V) : Option (State ι V) :=
  if state.locked then none else some { state with locked := true }

def unlock (state : State ι V) : Option (State ι V) :=
  if state.locked then some { state with locked := false } else none

/-- The stack that has been switched to goes on from where it was left. -/
def resume (state : State ι V) : Option (State ι V) := do
  match ← (state.internal state.executing).point with
  | .entry x =>
    let state ← state.unlock
    let fiber := (state.internal state.active).fiber
    let _ ← state.fiber fiber
    return { state.note (.started fiber x) with control := .code }
  | .calling fiber slot =>
    let state ← state.unlock
    let value ← state.fiber fiber
    if value.throw_ then
      let thrown ← state.slot (← value.return_)
      return { (state.setFiber fiber { value with throw_ := false }).note
        (.resumed fiber slot (.threw thrown)) with control := .raising thrown }
    else
      let x ← state.slot slot
      return { state.note (.resumed fiber slot (.returned x)) with control := .code }
  | .exiting => return { state with control := .exiting }

/-- The switch from a call, whose slot still refers to the callee. -/
def switch (setting : Setting ι V) (caller callee : ι) (x : V) (state : State ι V) :
    Option (State ι V) := do
  let slot := state.slots
  let value ← state.fiber caller
  let saved ← value.internal
  let target ← (← state.fiber callee).internal
  let state := { state.setSlot slot (setting.object callee) with slots := slot + 1 }
  let state := state.setFiber caller { value with return_ := some slot }
  let state := state.setInternal saved
    { state.internal saved with point := some (.calling caller slot) }
  resume { state.note (.called caller callee slot x) with active := target, executing := target }

/-- `t_type_of<t_fiber>::f_do_call` -/
def call (setting : Setting ι V) (callee : ι) (arguments : List V) (state : State ι V) :
    Option (State ι V) := do
  let [x] := arguments
    | return { state with
        control := .raising (setting.error "must be called with an argument.") }
  let state ← state.lock
  let value ← state.fiber callee
  let caller := (state.internal state.active).fiber
  if callee = caller then
    let state ← state.unlock
    return { state.note (.refused caller) with
      control := .raising (setting.error "already active.") }
  match value.internal with
  | some internal =>
    if (state.internal internal).running then
      (state.setSlot (← value.return_) x).switch setting caller callee x
    else
      let state ← state.unlock
      return { state with control := .raising (setting.error "can not yield to other thread.") }
  | none =>
    let created := state.created
    let state := { state.setInternal created ⟨callee, false, true, some (.entry x), []⟩ with
      internals := created :: state.internals
      created := created + 1 }
    (state.setFiber callee { value with internal := some created }).switch setting caller callee x

/-- `f_run` behind the call of the callable -/
def finish (setting : Setting ι V) (outcome : Outcome V) (state : State ι V) :
    Option (State ι V) := do
  let fiber := (state.internal state.executing).fiber
  let state ← state.lock
  let value ← state.fiber fiber
  let internal ← value.internal
  let state := (state.setInternal internal { state.internal internal with running := false }).setFiber
    fiber { value with internal := none }
  let main ← state.fiber setting.main
  let state := state.setFiber setting.main { main with throw_ := outcome.thrown.isSome }
  let state := state.setSlot (← main.return_) outcome.value
  let target ← main.internal
  resume { state.note (.ended fiber outcome) with active := target, executing := target }

/-- `f_main` behind its handlers -/
def endMain (setting : Setting ι V) (state : State ι V) : Option (State ι V) := do
  let state ← state.lock
  let main ← state.fiber setting.main
  let state := state.setFiber setting.main { main with return_ := some state.slots }
  return { state.note .mainEnded with
    slots := state.slots + 1, stage := .ended, control := .exiting }

/-- What `f_main` does when `a_main` or a part of the report has ended. -/
def reportMain (setting : Setting ι V) (thrown : Option V) (state : State ι V) :
    Option (State ι V) :=
  match state.stage, thrown with
  | .running, some thrown =>
    some { state.enterHandler none thrown with stage := .naming thrown, control := .code }
  | .naming first, _ =>
    if setting.isThrowable first then some { state with stage := .dumping, control := .code }
    else (state.leaveHandlers 1).endMain setting
  | .dumping, _ => (state.leaveHandlers 1).endMain setting
  | _, _ => state.endMain setting

def leaveStack (setting : Setting ι V) (outcome : Outcome V) (state : State ι V) :
    Option (State ι V) :=
  if (state.internal state.executing).atMain then
    state.reportMain setting outcome.thrown
  else state.finish setting outcome

/-- One turn of the loop of `f_main`. -/
def exit (setting : Setting ι V) (state : State ι V) : Option (State ι V) := do
  let main ← (← state.fiber setting.main).internal
  let found ← state.internals.find? fun p => p = main || (state.internal p).running
  if found = main then
    let state ← state.unlock
    return { state.note .over_ with control := .over_ }
  let fiber := (state.internal found).fiber
  let value ← state.fiber fiber
  let state := state.setFiber fiber { value with throw_ := true }
  let state := state.setSlot (← value.return_) setting.exit
  let target ← value.internal
  let state := state.setInternal main { state.internal main with point := some .exiting }
  resume { state with active := target, executing := found }

/-- An exception leaves the innermost part of an `f_try`, or the stack. -/
def unwind (setting : Setting ι V) (thrown : V) (state : State ι V) : Option (State ι V) :=
  match (state.internal state.executing).tries with
  | [] => state.leaveStack setting (.threw thrown)
  | frame :: tries =>
    match frame.phase with
    | .body =>
      let state := state.setTries ({ frame with phase := .matching thrown frame.clauses } :: tries)
      some { state.enterHandler (some frame.number) thrown with control := .code }
    | .matching _ _ | .caught _ =>
      let state := state.setTries ({ frame with phase := .rethrowing thrown true } :: tries)
      some { (state.enterHandler (some frame.number) thrown).attempt (.finally_ frame.number) with
        control := .code }
    | .finishing | .rethrowing _ _ =>
      some ((state.setTries tries).leaveHandlers frame.phase.handlers)

/-- `throw;` behind the finally block: what is thrown is what the innermost handler of
the thread has caught. -/
def rethrow (frame : Try V) (tries : List (Try V)) (thrown : V) (state : State ι V) :
    Option (State ι V) := do
  let handled ← state.handlers.head?
  let state := (state.setTries tries).attempt (.rethrown frame.number thrown handled.thrown)
  return { state.leaveHandlers frame.phase.handlers with control := .raising handled.thrown }

def refers [DecidableEq V] (setting : Setting ι V) (fiber : ι) (state : State ι V) : Bool :=
  state.internals.any fun p => p ≠ state.executing && (state.internal p).running &&
    match (state.internal p).point with
    | some (.calling _ slot) => state.slot slot = some (setting.object fiber)
    | _ => false

def settle (state : State ι V) (after : Option (State ι V)) : Option (State ι V) :=
  some (after.getD { state with control := .undefined })

end State

variable {ι V : Type} [DecidableEq ι] [DecidableEq V] (setting : Setting ι V)

/-- What the code does that a fiber executes. -/
def execute (state : State ι V) : Action ι V → Option (State ι V)
  | .call fiber arguments =>
    if (state.fiber fiber).isSome then state.settle (state.call setting fiber arguments)
    else none
  | .throw_ thrown => some { state with control := .raising thrown }
  | .try_ clauses =>
    let tries := (state.internal state.executing).tries
    some { (state.setTries (⟨state.tries, clauses, .body⟩ :: tries)).attempt
      (.entered state.tries) with tries := state.tries + 1 }
  | .instantiate fiber =>
    if (state.fiber fiber).isSome then none else some (state.setFiber fiber ⟨none, false, none⟩)
  | action =>
    match (state.internal state.executing).tries, action with
    | [], .return_ x => state.settle (state.leaveStack setting (.returned x))
    | frame :: tries, action =>
      let become phase := state.setTries ({ frame with phase := phase } :: tries)
      let finally_ := Attempt.finally_ frame.number
      match frame.phase, action with
      | .body, .leave | .caught _, .leave =>
        some (((become .finishing).leaveHandlers frame.phase.handlers).attempt finally_)
      | .matching thrown 0, .exhaust =>
        some ((become (.rethrowing thrown false)).attempt finally_)
      | .matching thrown (clauses + 1), .catch_ type =>
        if setting.isType type then
          if thrown ≠ setting.exit && setting.is thrown type then
            some ((become (.caught thrown)).attempt (.caught frame.number thrown))
          else some (become (.matching thrown clauses))
        else some { state with control := .raising setting.notType }
      | .finishing, .yrt => some (state.setTries tries)
      | .rethrowing thrown _, .yrt => state.settle (state.rethrow frame tries thrown)
      | _, _ => none
    | _, _ => none

/-- The collector frees no fiber that a pending call refers to, and an epoch waits for
the mutex. -/
def step (state : State ι V) (action : Action ι V) : Option (State ι V) :=
  match action, state.control with
  | .collect fiber, _ =>
    if fiber ≠ setting.main && (state.fiber fiber).isSome && !state.refers setting fiber then
      some { state with fiber := Function.update state.fiber fiber none }
    else none
  | .epoch, _ =>
    if state.locked then none
    else some { state with internals := state.internals.filter fun p => (state.internal p).running }
  | .unwind, .raising thrown => state.settle (state.unwind setting thrown)
  | .exit, .exiting => state.settle (state.exit setting)
  | action, .code => execute setting state action
  | _, _ => none

/-- A thread whose main fiber begins with `a_main`. -/
def start : State ι V where
  fiber := Function.update (fun _ => none) setting.main (some ⟨some 0, false, none⟩)
  internal _ := ⟨setting.main, true, true, none, []⟩
  internals := [0]
  created := 1
  slot _ := none
  slots := 0
  active := 0
  executing := 0
  locked := false
  stage := .running
  control := .code
  tries := 0
  handlers := []
  log := []
  attempts := []

end Xemmai.Fibers
