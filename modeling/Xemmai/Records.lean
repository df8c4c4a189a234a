import Mathlib.Logic.Function.Basic
import Xemmai.Machine

/-!
# The records of fibers

What the threads and the collector do to `t_fiber::v_internal` and to the records that
it refers to. An action is what a thread does while it holds `v_mutex`, its own and no
other's, so that `f_do_call` reads the fiber of another thread in two actions: its
`v_internal`, and the `v_thread` of the record. A call of a fiber that some pointer of
the program is not valid for is not an action.
-/

namespace Xemmai.Records

set_option autoImplicit false

/-- `t_fiber` -/
structure Fiber where
  internal : Option Nat
  deriving DecidableEq

/-- `t_fiber::t_internal` -/
structure Internal where
  thread : Option Nat
  fiber : Nat
  deriving DecidableEq

/-- How far a thread has got. `calling` is in `f_do_call`, behind the read of the
`v_internal` of the fiber; `exiting` is in the loop of `f_main`, `ended` behind it. -/
inductive Phase
  | running
  | calling (fiber : Nat) (internal : Option Nat)
  | exiting
  | ended
  | finalized
  deriving DecidableEq

/-- `t_thread` and `t_thread::t_internal`; `over_` tells that the script has ended. -/
structure Thread where
  fiber : Nat
  fibers : List Nat
  active : Nat
  over_ : Bool
  phase : Phase
  done : Nat
  deriving DecidableEq

/-- `fiber` gives the objects that are alive, and `internal` the records that have not
been deleted. -/
structure State where
  fiber : Nat → Option Fiber
  objects : Nat
  internal : Nat → Option Internal
  created : Nat
  threads : List Thread

inductive Act
  | call (fiber : Nat)
  | switch
  | finish
  | exit
  | next
  | finalize
  | epoch
  deriving DecidableEq

inductive Action
  | instantiate
  | free (fiber : Nat)
  | fork
  | thread (number : Nat) (act : Act)
  deriving DecidableEq

namespace State

def put (number : Nat) (thread : Thread) (state : State) : State :=
  { state with threads := state.threads.set number thread }

def setFiber (fiber : Nat) (value : Option Fiber) (state : State) : State :=
  { state with fiber := Function.update state.fiber fiber value }

def setInternal (number : Nat) (value : Internal) (state : State) : State :=
  { state with internal := Function.update state.internal number (some value) }

/-- A record whose `v_thread` is null. -/
def detached (state : State) (number : Nat) : Bool :=
  (state.internal number).any fun internal => internal.thread.isNone

def instantiate (state : State) : State :=
  { state.setFiber state.objects (some ⟨none⟩) with objects := state.objects + 1 }

/-- `f_fork` up to the end of both functions `f_initialize`. -/
def fork (state : State) : State :=
  let state' := (state.setFiber state.objects (some ⟨some state.created⟩)).setInternal
    state.created ⟨some state.threads.length, state.objects⟩
  { state' with
    objects := state.objects + 1
    created := state.created + 1
    threads := state.threads ++ [⟨state.objects, [state.created], state.created, false, .running, 0⟩] }

/-- A call or the fiber of a thread refers to a fiber. `f_fork` counts a reference to the
`t_thread`, which has the fiber; the thread pushes the decrement in front of
`f_finalize`, and the second epoch behind that flushes it. -/
def refers (state : State) (fiber : Nat) : Bool :=
  state.threads.any fun thread =>
    thread.fiber = fiber && (thread.phase ≠ .finalized || thread.done < 3) ||
      match thread.phase with
      | .calling callee _ => callee = fiber
      | _ => false

/-- The first part of `t_type_of<t_fiber>::f_do_call` -/
def call (number : Nat) (thread : Thread) (callee : Nat) (state : State) : Option State := do
  let active ← state.internal thread.active
  let value ← state.fiber callee
  if callee = active.fiber then some state
  else some (state.put number { thread with phase := .calling callee value.internal })

/-- The second part of `t_type_of<t_fiber>::f_do_call` -/
def switch (number : Nat) (thread : Thread) (callee : Nat) (read : Option Nat)
    (state : State) : Option State :=
  match read with
  | some target => do
    let internal ← state.internal target
    if internal.thread = some number then
      let value ← state.fiber callee
      let active ← value.internal
      some (state.put number { thread with active := active, phase := .running })
    else some (state.put number { thread with phase := .running })
  | none => do
    let _ ← state.fiber callee
    let created := state.created
    let state := (state.setFiber callee (some ⟨some created⟩)).setInternal created
      ⟨some number, callee⟩
    some { state.put number { thread with
      fibers := created :: thread.fibers
      active := created
      phase := .running } with created := created + 1 }

/-- `t_fiber::f_run` behind the call of the callable -/
def finish (number : Nat) (thread : Thread) (state : State) : Option State := do
  let active ← state.internal thread.active
  if active.fiber = thread.fiber then none
  let value ← state.fiber active.fiber
  let ended ← value.internal
  let internal ← state.internal ended
  let main ← state.fiber thread.fiber
  let target ← main.internal
  let state := (state.setInternal ended { internal with thread := none }).setFiber
    active.fiber (some ⟨none⟩)
  some (state.put number { thread with
    active := target
    phase := if thread.over_ then .exiting else .running })

/-- `t_fiber::f_main` behind the call of the script -/
def exit (number : Nat) (thread : Thread) (state : State) : Option State := do
  let active ← state.internal thread.active
  if thread.over_ || active.fiber ≠ thread.fiber then none
  else some (state.put number { thread with over_ := true, phase := .exiting })

/-- A turn of the loop of `t_fiber::f_main` -/
def next (number : Nat) (thread : Thread) (state : State) : Option State := do
  let main ← (← state.fiber thread.fiber).internal
  let found ← thread.fibers.find? fun p => p = main || !state.detached p
  if found = main then some (state.put number { thread with phase := .ended })
  else
    let internal ← state.internal found
    let active ← (← state.fiber internal.fiber).internal
    some (state.put number { thread with active := active, phase := .running })

def finalize (number : Nat) (thread : Thread) (state : State) : Option State := do
  let active ← state.internal thread.active
  some ((state.setInternal thread.active { active with thread := none }).put number
    { thread with phase := .finalized, done := thread.done + 1 })

def epoch (number : Nat) (thread : Thread) (state : State) : State :=
  { state.put number { thread with
      fibers := thread.fibers.filter fun p => !state.detached p
      done := if 0 < thread.done then thread.done + 1 else thread.done } with
    internal := fun p => if p ∈ thread.fibers ∧ state.detached p then none else state.internal p }

def act (number : Nat) (thread : Thread) (state : State) : Act → Phase → Option State
  | .call callee, .running => state.call number thread callee
  | .switch, .calling callee read => state.switch number thread callee read
  | .finish, .running => state.finish number thread
  | .exit, .running => state.exit number thread
  | .next, .exiting => state.next number thread
  | .finalize, .ended => state.finalize number thread
  | .epoch, .running | .epoch, .ended => some (state.epoch number thread)
  -- `f_collector` has deleted the `t_internal` once `v_done` is 3
  | .epoch, .finalized => if thread.done < 3 then some (state.epoch number thread) else none
  | _, _ => none

end State

def step (state : State) : Action → Option State
  | .instantiate => some state.instantiate
  | .free fiber => if state.refers fiber then none else some (state.setFiber fiber none)
  | .fork => some state.fork
  | .thread number act => do
    let thread ← state.threads[number]?
    state.act number thread act thread.phase

def initial : State where
  fiber := Function.update (fun _ => none) 0 (some ⟨some 0⟩)
  objects := 1
  internal := Function.update (fun _ => none) 0 (some ⟨some 0, 0⟩)
  created := 1
  threads := [⟨0, [0], 0, false, .running, 0⟩]

end Xemmai.Records
