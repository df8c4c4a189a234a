import Xemmai.Machine

/-!
# Stopping the threads

The debugger's part of `t_engine`: `f_debug_stop_and_wait`, the safe points, the
safe regions, and the start and the end of a thread in `f_fork` and `f_run`. An
action is what a thread does while it holds `v_thread__mutex`; a wait on
`v_thread__condition` releases it, so that what follows the wait is an action of
its own. `f_run` sets `v_debugger` before there is another thread and clears it when
the main thread is the only one left, so that the other threads find it set.
-/

namespace Xemmai.Debugger

set_option autoImplicit false

/-- What a thread goes on with that waits in `f_debug_wait_and_leave`. -/
inductive Pause
  | start
  | point
  | breakPoint
  | exit
  deriving DecidableEq

/-- How far a thread has got. `stopping` is the loop of `f_debug_stop_and_wait`;
`joining` and `joined` are the end of `f_run`, and `ended` is behind the last safe
point or safe region of a thread. -/
inductive Place
  | forked
  | script
  | paused (pause : Pause)
  | region
  | stopping (n : Nat)
  | joining
  | joined
  | ended
  | finished
  deriving DecidableEq

/-- `t_thread::t_internal` -/
structure Thread where
  done : Int
  place : Place
  deriving DecidableEq

/-- Who calls `f_debug_stop_and_wait`: a thread from `f_debug_break_point`, or the
debugger from `f_debug_stop`. -/
inductive Stopper
  | thread (number : Nat)
  | debugger
  deriving DecidableEq

/-- `threads` is `v_thread__internals` in the order of creation, with the main
thread at the front; a record that the collector has deleted keeps its number.
`request` is the bound that the debugger waits for in `f_debug_stop`, and `stopped`
the last call of `f_stopped` or `f_loaded`, up to `f_debug_continue`. -/
structure Engine where
  threads : List Thread
  debugger : Bool
  stopping : Bool
  safe : Nat
  stepping : Option Nat
  request : Option Nat
  stopped : Option Stopper
  deriving DecidableEq

/-- What a thread does: the start and the end of the lambda in `f_fork`, the
instructions `SAFE_POINT` and `BREAK_POINT` (and `f_debug_script_loaded`), a
`t_safe_region`, what is behind a wait, and the rest of `f_run`. -/
inductive Act
  | fork (created : Bool)
  | start
  | point
  | breakPoint
  | enter
  | leave
  | wake
  | check
  | exit
  | join
  | detach
  | finalize
  | collect
  deriving DecidableEq

inductive Action
  | thread (number : Nat) (act : Act)
  | stop
  | check
  | continue_ (stepping : Option Nat)
  deriving DecidableEq

namespace Engine

def put (number : Nat) (thread : Thread) (engine : Engine) : Engine :=
  { engine with threads := engine.threads.set number thread }

def goes (number : Nat) (place : Place) (engine : Engine) : Engine :=
  { engine with
    threads := engine.threads.modify number fun thread => { thread with place := place } }

/-- `f_debug_enter_and_notify`, for a thread that goes on to a place. -/
def enterAndNotify (number : Nat) (place : Place) (engine : Engine) : Engine :=
  { engine.goes number place with safe := engine.safe + 1 }

/-- The end of `f_debug_wait_and_leave` and of `f_debug_safe_region_leave`. -/
def leave (number : Nat) (place : Place) (engine : Engine) : Engine :=
  { engine.goes number place with safe := engine.safe - 1 }

/-- The number of threads that `f_debug_stop_and_wait` counts. -/
def running (engine : Engine) : Nat :=
  engine.threads.countP fun thread => thread.done = 0

/-- `f_debug_stop_and_wait` has returned: the stopper calls the debugger, and a
thread then waits in `f_debug_wait_and_leave`. -/
def returns (stopper : Stopper) (engine : Engine) : Engine :=
  match stopper with
  | .thread number => { engine.goes number (.paused .point) with stopped := some stopper }
  | .debugger => { engine with request := none, stopped := some stopper }

def waits (stopper : Stopper) (n : Nat) (engine : Engine) : Engine :=
  match stopper with
  | .thread number => engine.goes number (.stopping n)
  | .debugger => { engine with request := some n }

/-- `f_debug_stop_and_wait` -/
def stopAndWait (stopper : Stopper) (engine : Engine) : Engine :=
  let engine := { engine with stopping := true }
  if engine.running ≤ engine.safe then engine.returns stopper
  else engine.waits stopper engine.running

/-- `f_debug_safe_point(lock)`, in front of a place. -/
def safePoint (number : Nat) (pause : Pause) (place : Place) (engine : Engine) : Engine :=
  if engine.stopping then engine.enterAndNotify number (.paused pause)
  else engine.goes number place

/-- `f_debug_break_point(lock, do)` -/
def breakPoint (number : Nat) (engine : Engine) : Engine :=
  if engine.stopping then engine.enterAndNotify number (.paused .breakPoint)
  else { engine with safe := engine.safe + 1 }.stopAndWait (.thread number)

/-- Both functions of the name `f_initialize` -/
def initialize_ (number : Nat) (engine : Engine) : Engine := engine.put number ⟨0, .script⟩

/-- What follows `f_debug_wait_and_leave`. -/
def wake (number : Nat) (pause : Pause) (engine : Engine) : Engine :=
  match pause with
  | .start => { engine with safe := engine.safe - 1 }.initialize_ number
  | .point => engine.leave number .script
  | .breakPoint => { engine with safe := engine.safe - 1 }.breakPoint number
  | .exit => engine.leave number .ended

/-- The end of the script, in the lambda of `f_fork` or in `f_run`. -/
def exit (number : Nat) (engine : Engine) : Engine :=
  let engine := { engine with
    stepping := if engine.stepping = some number then none else engine.stepping }
  if number = 0 then engine.enterAndNotify number .joining
  else engine.safePoint number .exit .ended

/-- The action of a thread, by the place where it is. -/
def act (number : Nat) (done : Int) (engine : Engine) : Act → Place → Option Engine
  | .fork created, .script => some { engine with
      threads := engine.threads ++ [if created then ⟨-1, .forked⟩ else ⟨1, .finished⟩] }
  | .start, .forked =>
    some (if engine.stopping then engine.enterAndNotify number (.paused .start)
      else engine.initialize_ number)
  | .point, .script =>
    some (if engine.stepping = some number then engine.breakPoint number
      else engine.safePoint number .point .script)
  | .breakPoint, .script => some (engine.breakPoint number)
  | .enter, .script => some (engine.enterAndNotify number .region)
  | .leave, .region => if engine.stopping then none else some (engine.leave number .script)
  | .wake, .paused pause => if engine.stopping then none else some (engine.wake number pause)
  | .check, .stopping n =>
    if n ≤ engine.safe then some (engine.returns (.thread number)) else none
  | .exit, .script => some (engine.exit number)
  | .join, .joining =>
    if (engine.threads.eraseIdx number).all fun other => 0 < other.done then
      some (engine.goes number .joined)
    else none
  | .leave, .joined => if engine.stopping then none else some (engine.leave number .ended)
  | .detach, .ended =>
    if number = 0 then some { engine with debugger := false } else none
  | .finalize, .ended =>
    if number = 0 ∧ engine.debugger then none
    else some (engine.put number ⟨done + 1, .finished⟩)
  | .collect, .finished =>
    if done < 3 then some (engine.put number ⟨done + 1, .finished⟩) else none
  | _, _ => none

end Engine

def step (engine : Engine) : Action → Option Engine
  | .thread number act => do
    let thread ← engine.threads[number]?
    engine.act number thread.done act thread.place
  | .stop =>
    if engine.debugger ∧ engine.request = none then
      some (if engine.stopping then engine else engine.stopAndWait .debugger)
    else none
  | .check => do
    let n ← engine.request
    if n ≤ engine.safe then some (engine.returns .debugger) else none
  | .continue_ stepping =>
    if engine.debugger ∧ engine.stopping then
      some { engine with stopping := false, stepping := stepping, stopped := none }
    else none

/-- What `f_run` leaves when it waits for the first `f_debug_continue`. -/
def initial : Engine where
  threads := [⟨0, .paused .point⟩]
  debugger := true
  stopping := true
  safe := 1
  stepping := none
  request := none
  stopped := some (.thread 0)

namespace Place

/-- Whether `v_debug__safe` counts a thread. -/
def counted : Place → Bool
  | .paused _ | .region | .stopping _ | .joining | .joined => true
  | .forked | .script | .ended | .finished => false

def atRest : Place → Bool
  | .paused _ | .region | .joining | .joined => true
  | .forked | .script | .stopping _ | .ended | .finished => false

def isStopping : Place → Bool
  | .stopping _ => true
  | _ => false

end Place

/-- What `v_done` is at each place. -/
def Thread.proper (thread : Thread) : Bool :=
  match thread.place with
  | .forked | .paused .start => thread.done = -1
  | .finished => 0 < thread.done
  | _ => thread.done = 0

/-- The moves of a thread by itself, none of which is in `f_debug_stop_and_wait`. -/
inductive Move : Bool → Thread → Thread → Prop
  | start : Move false ⟨-1, .forked⟩ ⟨0, .script⟩
  | startPause : Move true ⟨-1, .forked⟩ ⟨-1, .paused .start⟩
  | startWake : Move false ⟨-1, .paused .start⟩ ⟨0, .script⟩
  | pass : Move false ⟨0, .script⟩ ⟨0, .script⟩
  | pause {pause : Pause} : pause ≠ .start → Move true ⟨0, .script⟩ ⟨0, .paused pause⟩
  | wake : Move false ⟨0, .paused .point⟩ ⟨0, .script⟩
  | enter (stopping : Bool) : Move stopping ⟨0, .script⟩ ⟨0, .region⟩
  | leave : Move false ⟨0, .region⟩ ⟨0, .script⟩
  | end_ : Move false ⟨0, .script⟩ ⟨0, .ended⟩
  | endWake : Move false ⟨0, .paused .exit⟩ ⟨0, .ended⟩
  | endMain (stopping : Bool) : Move stopping ⟨0, .script⟩ ⟨0, .joining⟩
  | join (stopping : Bool) : Move stopping ⟨0, .joining⟩ ⟨0, .joined⟩
  | leaveMain : Move false ⟨0, .joined⟩ ⟨0, .ended⟩
  | finalize (stopping : Bool) : Move stopping ⟨0, .ended⟩ ⟨1, .finished⟩
  | collect (stopping : Bool) (done : Int) : 0 < done →
      Move stopping ⟨done, .finished⟩ ⟨done + 1, .finished⟩

namespace Engine

/-- A stopper waits in `f_debug_stop_and_wait` for a bound. -/
def Pending (stopper : Stopper) (n : Nat) (engine : Engine) : Prop :=
  match stopper with
  | .thread number => engine.threads[number]? = some ⟨0, .stopping n⟩
  | .debugger => engine.request = some n

/-- The action enters `f_debug_stop_and_wait`. -/
def begins (engine : Engine) : Action → Bool
  | .stop | .thread _ .breakPoint => !engine.stopping
  | .thread number .point => !engine.stopping && engine.stepping = some number
  | .thread number .wake =>
    engine.threads[number]?.any fun thread => thread.place = .paused .breakPoint
  | _ => false

/-- The action compares `v_debug__safe` with the bound of `f_debug_stop_and_wait`. -/
def compares (engine : Engine) : Action → Bool
  | .check | .thread _ .check => true
  | action => engine.begins action

end Engine

theorem compares_of_begins {engine : Engine} {action : Action}
    (begins : engine.begins action = true) : engine.compares action = true := by
  unfold Engine.compares
  split
  · rfl
  · rfl
  · exact begins

/-- What an action does, by its effect on the threads and on the stops. -/
inductive Effect (engine : Engine) (action : Action) : Engine → Prop
  | moved {number : Nat} {thread after : Thread} {safe : Nat} (stepping : Option Nat)
      (found : engine.threads[number]? = some thread) (move : Move engine.stopping thread after)
      (counts : safe + thread.place.counted.toNat = engine.safe + after.place.counted.toNat) :
      Effect engine action { engine with
        threads := engine.threads.set number after, safe := safe, stepping := stepping }
  | forked {thread : Thread} (made : thread = ⟨-1, .forked⟩ ∨ thread = ⟨1, .finished⟩) :
      Effect engine action { engine with threads := engine.threads ++ [thread] }
  | entered {number : Nat} {place : Place} {safe : Nat} (begins : engine.begins action = true)
      (free : engine.stopping = false) (found : engine.threads[number]? = some ⟨0, place⟩)
      (origin : place = .script ∨ place = .paused .breakPoint)
      (counts : safe + place.counted.toNat = engine.safe + 1) :
      Effect engine action ({ engine with safe := safe }.stopAndWait (.thread number))
  | asked (begins : engine.begins action = true) (free : engine.stopping = false)
      (idle : engine.request = none) : Effect engine action (engine.stopAndWait .debugger)
  | passed {stopper : Stopper} {n : Nat} (compares : engine.compares action = true)
      (pending : engine.Pending stopper n) (enough : n ≤ engine.safe) :
      Effect engine action (engine.returns stopper)
  | continued (stepping : Option Nat) (taken : action = .continue_ stepping) :
      Effect engine action { engine with
        stopping := false, stepping := stepping, stopped := none }
  | detached : Effect engine action { engine with debugger := false }
  | unchanged : Effect engine action engine

theorem goes_eq (engine : Engine) {number : Nat} {thread : Thread}
    (found : engine.threads[number]? = some thread) (place : Place) :
    engine.goes number place = engine.put number { thread with place := place } := by
  have same : engine.threads.modify number (fun thread => { thread with place := place }) =
      engine.threads.set number { thread with place := place } := by
    apply List.ext_getElem?
    intro other
    rcases eq_or_ne number other with rfl | apart
    · obtain ⟨short, value⟩ := List.getElem?_eq_some_iff.mp found
      simp [short, value]
    · simp [apart]
  simp only [Engine.goes, Engine.put, same]

/-- A sum over the threads changes as the one thread does that is replaced. -/
theorem countP_set_add (counts : Thread → Bool) {threads : List Thread} {number : Nat}
    {thread : Thread} (found : threads[number]? = some thread) (after : Thread) :
    (threads.set number after).countP counts + (counts thread).toNat =
      threads.countP counts + (counts after).toNat := by
  induction threads generalizing number with
  | nil => simp at found
  | cons first rest ih =>
    cases number with
    | zero =>
      simp only [List.getElem?_cons_zero, Option.some.injEq] at found
      subst found
      simp only [List.set_cons_zero, List.countP_cons, Bool.toNat, cond_eq_ite]
      omega
    | succ number =>
      have tail := ih (by simpa using found)
      simp only [List.set_cons_succ, List.countP_cons]
      omega

/-- What holds of the threads in every reachable state. -/
structure Counted (engine : Engine) : Prop where
  proper : ∀ thread ∈ engine.threads, thread.proper = true
  safe : engine.safe = engine.threads.countP fun thread => thread.place.counted

theorem Counted.done {engine : Engine} (counted : Counted engine) {number : Nat} {done : Int}
    {place : Place} (found : engine.threads[number]? = some ⟨done, place⟩) :
    (⟨done, place⟩ : Thread).proper = true :=
  counted.proper _ (List.mem_of_getElem? found)

theorem Counted.positive {engine : Engine} (counted : Counted engine) {number : Nat}
    {thread : Thread} (found : engine.threads[number]? = some thread)
    (safe : thread.place.counted = true) : 0 < engine.safe := by
  rw [counted.safe, List.countP_pos_iff]
  exact ⟨thread, List.mem_of_getElem? found, safe⟩

theorem goes_effect {engine : Engine} (action : Action) {number : Nat} {place after : Place}
    (found : engine.threads[number]? = some ⟨0, place⟩)
    (move : Move engine.stopping ⟨0, place⟩ ⟨0, after⟩)
    (same : place.counted = after.counted) (stepping : Option Nat) :
    Effect engine action ({ engine with stepping := stepping }.goes number after) := by
  rw [goes_eq { engine with stepping := stepping } found]
  exact .moved stepping found move (by rw [same])

theorem enter_effect {engine : Engine} (action : Action) {number : Nat} {place after : Place}
    {done : Int} (found : engine.threads[number]? = some ⟨done, place⟩)
    (move : Move engine.stopping ⟨done, place⟩ ⟨done, after⟩)
    (outside : place.counted = false) (inside : after.counted = true) (stepping : Option Nat) :
    Effect engine action ({ engine with stepping := stepping }.enterAndNotify number after) := by
  rw [Engine.enterAndNotify, goes_eq { engine with stepping := stepping } found]
  exact .moved stepping found move (by rw [outside, inside]; rfl)

theorem leave_effect {engine : Engine} (action : Action) (counted : Counted engine)
    {number : Nat} {place after : Place}
    (found : engine.threads[number]? = some ⟨0, place⟩)
    (move : Move engine.stopping ⟨0, place⟩ ⟨0, after⟩)
    (inside : place.counted = true) (outside : after.counted = false) :
    Effect engine action (engine.leave number after) := by
  have positive := counted.positive found inside
  rw [Engine.leave, goes_eq engine found]
  exact .moved engine.stepping found move (by
    rw [inside, outside]
    show engine.safe - 1 + 1 = engine.safe + 0
    omega)

theorem breakPoint_effect {engine : Engine} {action : Action} {number : Nat}
    (found : engine.threads[number]? = some ⟨0, .script⟩)
    (begins : engine.stopping = false → engine.begins action = true) :
    Effect engine action (engine.breakPoint number) := by
  rw [Engine.breakPoint]
  cases stops : engine.stopping with
  | true => exact enter_effect action found (stops ▸ .pause (by decide)) rfl rfl engine.stepping
  | false => exact .entered (begins stops) stops found (.inl rfl) rfl

theorem safePoint_effect {engine : Engine} (action : Action) {number : Nat} {pause : Pause}
    {after : Place} (found : engine.threads[number]? = some ⟨0, .script⟩)
    (later : pause ≠ .start) (outside : after.counted = false)
    (move : Move false ⟨0, .script⟩ ⟨0, after⟩) (stepping : Option Nat) :
    Effect engine action
      ({ engine with stepping := stepping }.safePoint number pause after) := by
  rw [Engine.safePoint]
  by_cases stops : engine.stopping = true
  · rw [if_pos stops]
    exact enter_effect action found (stops ▸ .pause later) rfl rfl stepping
  · rw [if_neg stops]
    have free := (Bool.not_eq_true _).mp stops
    exact goes_effect action found (free ▸ move) outside.symm stepping

theorem wake_effect {engine : Engine} (counted : Counted engine) {number : Nat} {done : Int}
    {pause : Pause} (found : engine.threads[number]? = some ⟨done, .paused pause⟩)
    (free : engine.stopping = false) :
    Effect engine (.thread number .wake) (engine.wake number pause) := by
  have positive := counted.positive found rfl
  have proper := counted.done found
  cases pause with
  | start =>
    obtain rfl : done = -1 := by simpa [Thread.proper] using proper
    exact .moved engine.stepping found (free ▸ .startWake) (by
      show engine.safe - 1 + 1 = engine.safe + 0
      omega)
  | point =>
    obtain rfl : done = 0 := by simpa [Thread.proper] using proper
    exact leave_effect _ counted found (free ▸ .wake) rfl rfl
  | breakPoint =>
    obtain rfl : done = 0 := by simpa [Thread.proper] using proper
    have restored : engine.safe - 1 + 1 = engine.safe := by omega
    simp only [Engine.wake, Engine.breakPoint, free, Bool.false_eq_true, if_false, restored]
    exact .entered (by simp [Engine.begins, found]) free found (.inr rfl) rfl
  | exit =>
    obtain rfl : done = 0 := by simpa [Thread.proper] using proper
    exact leave_effect _ counted found (free ▸ .endWake) rfl rfl

/-- The inversion of `step`. -/
theorem step_effect {engine after : Engine} {action : Action} (counted : Counted engine)
    (taken : step engine action = some after) : Effect engine action after := by
  cases action with
  | thread number act =>
    simp only [step, Option.bind_eq_bind, Option.bind_eq_some_iff] at taken
    obtain ⟨⟨done, place⟩, found, taken⟩ := taken
    have proper := counted.done found
    simp only [Engine.act] at taken
    split at taken
    case h_1 created =>
      cases taken
      cases created with
      | true => exact .forked (.inl rfl)
      | false => exact .forked (.inr rfl)
    case h_2 =>
      obtain rfl : done = -1 := by simpa [Thread.proper] using proper
      cases taken
      cases stops : engine.stopping with
      | true => exact enter_effect _ found (stops ▸ .startPause) rfl rfl engine.stepping
      | false => exact .moved engine.stepping found (stops ▸ .start) rfl
    case h_3 =>
      obtain rfl : done = 0 := by simpa [Thread.proper] using proper
      cases taken
      split
      case isTrue own =>
        exact breakPoint_effect found fun free => by simp [Engine.begins, free, own]
      case isFalse =>
        exact safePoint_effect _ found (show Pause.point ≠ .start by decide) rfl .pass engine.stepping
    case h_4 =>
      obtain rfl : done = 0 := by simpa [Thread.proper] using proper
      cases taken
      exact breakPoint_effect found fun free => by simp [Engine.begins, free]
    case h_5 =>
      obtain rfl : done = 0 := by simpa [Thread.proper] using proper
      cases taken
      exact enter_effect _ found (.enter _) rfl rfl engine.stepping
    case h_6 =>
      obtain rfl : done = 0 := by simpa [Thread.proper] using proper
      split at taken
      case isTrue => cases taken
      case isFalse free =>
        cases taken
        exact leave_effect _ counted found ((Bool.not_eq_true _).mp free ▸ .leave) rfl rfl
    case h_7 pause =>
      split at taken
      case isTrue => cases taken
      case isFalse free =>
        cases taken
        exact wake_effect counted found ((Bool.not_eq_true _).mp free)
    case h_8 n =>
      obtain rfl : done = 0 := by simpa [Thread.proper] using proper
      split at taken
      case isTrue enough =>
        cases taken
        have pending : engine.Pending (.thread number) n := found
        exact .passed rfl pending enough
      case isFalse => cases taken
    case h_9 =>
      obtain rfl : done = 0 := by simpa [Thread.proper] using proper
      cases taken
      simp only [Engine.exit]
      split
      case isTrue => exact enter_effect _ found (.endMain _) rfl rfl _
      case isFalse => exact safePoint_effect _ found (show Pause.exit ≠ .start by decide) rfl .end_ _
    case h_10 =>
      obtain rfl : done = 0 := by simpa [Thread.proper] using proper
      split at taken
      case isTrue => cases taken; exact goes_effect _ found (.join _) rfl engine.stepping
      case isFalse => cases taken
    case h_11 =>
      obtain rfl : done = 0 := by simpa [Thread.proper] using proper
      split at taken
      case isTrue => cases taken
      case isFalse free =>
        cases taken
        exact leave_effect _ counted found ((Bool.not_eq_true _).mp free ▸ .leaveMain) rfl rfl
    case h_12 =>
      split at taken
      case isTrue => cases taken; exact .detached
      case isFalse => cases taken
    case h_13 =>
      obtain rfl : done = 0 := by simpa [Thread.proper] using proper
      split at taken
      case isTrue => cases taken
      case isFalse => cases taken; exact .moved engine.stepping found (.finalize _) rfl
    case h_14 =>
      have over_ : 0 < done := by simpa [Thread.proper] using proper
      split at taken
      case isTrue =>
        cases taken
        exact .moved engine.stepping found (.collect _ done over_) rfl
      case isFalse => cases taken
    case h_15 => cases taken
  | stop =>
    simp only [step] at taken
    split at taken
    case isTrue met =>
      cases taken
      split
      case isTrue => exact .unchanged
      case isFalse free =>
        have free := (Bool.not_eq_true _).mp free
        exact .asked (by simp [Engine.begins, free]) free met.2
    case isFalse => cases taken
  | check =>
    simp only [step, Option.bind_eq_bind, Option.bind_eq_some_iff] at taken
    obtain ⟨n, found, taken⟩ := taken
    split at taken
    case isTrue enough =>
      cases taken
      have pending : engine.Pending .debugger n := found
      exact .passed rfl pending enough
    case isFalse => cases taken
  | continue_ stepping =>
    simp only [step] at taken
    split at taken
    case isTrue => cases taken; exact .continued stepping rfl
    case isFalse => cases taken

theorem Move.proper {stopping : Bool} {thread after : Thread}
    (move : Move stopping thread after) : after.proper = true := by
  cases move with
  | pause later => rename_i pause; cases pause <;> simp_all [Thread.proper]
  | collect _ done over_ => simp [Thread.proper]; omega
  | _ => rfl

theorem mem_set {threads : List Thread} {number : Nat} {after : Thread} {kept : Thread → Prop}
    (others : ∀ thread ∈ threads, kept thread) (new : kept after) :
    ∀ thread ∈ threads.set number after, kept thread := by
  intro thread member
  rcases List.mem_or_eq_of_mem_set member with old | rfl
  · exact others thread old
  · exact new

/-- A thread in its critical section changes its place and `v_debug__safe` alike. -/
theorem Counted.put {engine : Engine} (counted : Counted engine) {number safe : Nat}
    {thread after : Thread} (found : engine.threads[number]? = some thread)
    (proper : after.proper = true)
    (counts : safe + thread.place.counted.toNat = engine.safe + after.place.counted.toNat)
    {stopping : Bool} {stepping : Option Nat} {stopped : Option Stopper} :
    Counted { engine with
      threads := engine.threads.set number after, safe := safe, stopping := stopping,
      stepping := stepping, stopped := stopped } := by
  refine ⟨mem_set counted.proper proper, ?_⟩
  have total := countP_set_add (fun thread => thread.place.counted) found after
  have before := counted.safe
  show safe = (engine.threads.set number after).countP fun thread => thread.place.counted
  omega

theorem returns_thread {engine : Engine} {number n : Nat}
    (pending : engine.Pending (.thread number) n) :
    engine.returns (.thread number) = { engine with
      threads := engine.threads.set number ⟨0, .paused .point⟩
      stopped := some (.thread number) } := by
  rw [Engine.returns, goes_eq engine pending]
  rfl

theorem Counted.returns {engine : Engine} (counted : Counted engine) {stopper : Stopper}
    {n : Nat} (pending : engine.Pending stopper n) : Counted (engine.returns stopper) := by
  cases stopper with
  | thread number =>
    rw [returns_thread pending]
    exact counted.put pending (rfl : (⟨0, .paused .point⟩ : Thread).proper = true) rfl
  | debugger => exact ⟨counted.proper, counted.safe⟩

theorem returns_waits (engine : Engine) (stopper : Stopper) (n : Nat) :
    (engine.waits stopper n).returns stopper = engine.returns stopper := by
  cases stopper with
  | thread number => simp [Engine.waits, Engine.returns, Engine.goes, List.modify_modify_eq]; rfl
  | debugger => rfl

def Engine.begun (stopper : Stopper) (engine : Engine) : Engine :=
  { engine with stopping := true }.waits stopper engine.running

@[simp] theorem begun_safe (stopper : Stopper) (engine : Engine) :
    (engine.begun stopper).safe = engine.safe := by
  cases stopper <;> rfl

theorem stopAndWait_cases (engine : Engine) (stopper : Stopper) :
    engine.stopAndWait stopper = engine.begun stopper ∨
      engine.running ≤ engine.safe ∧
        engine.stopAndWait stopper = (engine.begun stopper).returns stopper := by
  have count : ({ engine with stopping := true } : Engine).running = engine.running := rfl
  simp only [Engine.stopAndWait, Engine.begun, returns_waits, count]
  split
  case isTrue enough => exact .inr ⟨enough, rfl⟩
  case isFalse => exact .inl rfl

theorem begun_thread {engine : Engine} {number : Nat} {place : Place}
    (found : engine.threads[number]? = some ⟨0, place⟩) :
    engine.begun (.thread number) = { engine with
      threads := engine.threads.set number ⟨0, .stopping engine.running⟩
      stopping := true } := by
  simp only [Engine.begun, Engine.waits, goes_eq { engine with stopping := true } found]
  rfl

theorem begun_pending {engine : Engine} {number : Nat} {place : Place}
    (found : engine.threads[number]? = some ⟨0, place⟩) :
    (engine.begun (.thread number)).Pending (.thread number) engine.running := by
  obtain ⟨short, value⟩ := List.getElem?_eq_some_iff.mp found
  rw [begun_thread found]
  simp [Engine.Pending, short]

theorem Counted.begun {engine : Engine} (counted : Counted engine) {number safe : Nat}
    {place : Place} (found : engine.threads[number]? = some ⟨0, place⟩)
    (counts : safe + place.counted.toNat = engine.safe + 1) :
    Counted (({ engine with safe := safe } : Engine).begun (.thread number)) := by
  have proper : (⟨0, .stopping engine.running⟩ : Thread).proper = true := rfl
  have begun : ({ engine with safe := safe } : Engine).begun (.thread number) = _ :=
    begun_thread found
  rw [begun]
  exact counted.put found proper counts

/-- `v_debug__safe` is the number of the threads that it is to count, whatever the
order of the actions is. -/
theorem Counted.step {engine after : Engine} {action : Action} (counted : Counted engine)
    (taken : step engine action = some after) : Counted after := by
  cases step_effect counted taken with
  | moved stepping found move counts => exact counted.put found move.proper counts
  | forked made =>
    refine ⟨?_, ?_⟩
    · intro thread member
      rcases List.mem_append.mp member with old | new
      · exact counted.proper thread old
      · rw [List.mem_singleton.mp new]
        rcases made with rfl | rfl <;> rfl
    · rw [List.countP_append, ← counted.safe]
      rcases made with rfl | rfl <;> rfl
  | @entered number place safe _ _ found _ counts =>
    have begun := counted.begun found counts
    rcases stopAndWait_cases { engine with safe := safe } (.thread number) with same | same
    · exact same ▸ begun
    · exact same.2 ▸ begun.returns (begun_pending found)
  | asked =>
    rcases stopAndWait_cases engine .debugger with same | same
    · exact same ▸ ⟨counted.proper, counted.safe⟩
    · exact same.2 ▸ ⟨counted.proper, counted.safe⟩
  | passed _ pending => exact counted.returns pending
  | continued => exact ⟨counted.proper, counted.safe⟩
  | detached => exact ⟨counted.proper, counted.safe⟩
  | unchanged => exact counted

end Xemmai.Debugger
