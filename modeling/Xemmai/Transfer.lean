import Xemmai.Fiber

/-!
# Transfer between fibers

What the fibers of a thread are for: one of them is active, the others are idle or
suspended in a pending call, and control moves by calls and by the ends of the
callables. The code does nothing else as long as no fiber is freed that has not
come to its end.
-/

namespace Xemmai.Fibers

set_option autoImplicit false

/-- `ending` when the main function has ended; the main fiber is then active in the
loop that resumes the others. -/
structure Transfer (ι : Type) where
  active : ι
  pending : ι → Option Nat
  calls : Nat
  ending : Bool

namespace Transfer

variable {ι V : Type} [DecidableEq ι]

/-- The active fiber waits in a new pending call, and another one goes on. -/
def yield (callee : ι) (call : Nat) (transfer : Transfer ι) : Transfer ι :=
  { transfer with
    active := callee
    pending := Function.update (Function.update transfer.pending transfer.active (some call))
      callee none
    calls := call + 1 }

/-- The active fiber has come to its end, or waits in the loop, and another one goes on. -/
def activate (fiber : ι) (transfer : Transfer ι) : Transfer ι :=
  { transfer with active := fiber, pending := Function.update transfer.pending fiber none }

/-- What control may do, and what the callers see of it. -/
inductive Moves (main : ι) (exit : V) : Transfer ι → List (Entry ι V) → Transfer ι → Prop
  | stay (transfer : Transfer ι) : Moves main exit transfer [] transfer
  | refuse {transfer : Transfer ι} (code : transfer.ending = true → transfer.active ≠ main) :
      Moves main exit transfer [.refused transfer.active] transfer
  | transfer {transfer : Transfer ι} {callee : ι} {pending call : Nat} (x : V)
      (code : transfer.ending = true → transfer.active ≠ main)
      (other : callee ≠ transfer.active) (suspended : transfer.pending callee = some pending)
      (fresh : transfer.calls ≤ call) :
      Moves main exit transfer
        [.called transfer.active callee call x, .resumed callee pending (.returned x)]
        (transfer.yield callee call)
  | start {transfer : Transfer ι} {callee : ι} {call : Nat} (x : V)
      (code : transfer.ending = true → transfer.active ≠ main)
      (other : callee ≠ transfer.active) (idle : transfer.pending callee = none)
      (noMain : callee ≠ main) (fresh : transfer.calls ≤ call) :
      Moves main exit transfer [.called transfer.active callee call x, .started callee x]
        (transfer.yield callee call)
  | finish {transfer : Transfer ι} {pending : Nat} (outcome : Outcome V)
      (noMain : transfer.active ≠ main) (suspended : transfer.pending main = some pending)
      (running : transfer.ending = false) :
      Moves main exit transfer
        [.ended transfer.active outcome, .resumed main pending outcome] (transfer.activate main)
  | finishMain {transfer : Transfer ι} {call : Nat} (main_ : transfer.active = main)
      (running : transfer.ending = false) (fresh : transfer.calls ≤ call) :
      Moves main exit transfer [.mainEnded] { transfer with ending := true, calls := call + 1 }
  | exit {transfer : Transfer ι} {fiber : ι} {pending : Nat} (main_ : transfer.active = main)
      (ending : transfer.ending = true) (suspended : transfer.pending fiber = some pending) :
      Moves main exit transfer [.resumed fiber pending (.threw exit)] (transfer.activate fiber)
  | yieldMain {transfer : Transfer ι} {call : Nat} (x : V) (noMain : transfer.active ≠ main)
      (ending : transfer.ending = true) (fresh : transfer.calls ≤ call) :
      Moves main exit transfer [.called transfer.active main call x] (transfer.yield main call)
  | finishLate {transfer : Transfer ι} (outcome : Outcome V) (noMain : transfer.active ≠ main)
      (ending : transfer.ending = true) :
      Moves main exit transfer [.ended transfer.active outcome] (transfer.activate main)
  | over_ {transfer : Transfer ι} (main_ : transfer.active = main)
      (ending : transfer.ending = true) (none_ : ∀ fiber, transfer.pending fiber = none) :
      Moves main exit transfer [.over_] transfer

end Transfer

variable {ι V : Type} [DecidableEq ι]

def Stage.isEnded : Stage V → Bool
  | ended => true
  | _ => false

theorem Stage.isEnded_iff {stage : Stage V} : stage.isEnded = true ↔ stage = .ended := by
  cases stage <;> simp [isEnded]

namespace State

def pending (state : State ι V) (fiber : ι) : Option Nat := do
  let internal ← (← state.fiber fiber).internal
  if internal = state.executing then none
  else
    match (state.internal internal).point with
    | some (.calling _ slot) => some slot
    | _ => none

def transfer (state : State ι V) : Transfer ι where
  active := (state.internal state.active).fiber
  pending := state.pending
  calls := state.slots
  ending := state.stage.isEnded

variable {state : State ι V}

omit [DecidableEq ι] in
theorem pending_of {fiber : ι} {value : Fiber} {c : Nat} (found : state.fiber fiber = some value)
    (internal : value.internal = some c) :
    state.pending fiber = if c = state.executing then none else
      match (state.internal c).point with
      | some (.calling _ slot) => some slot
      | _ => none := by
  simp only [pending, found, internal, Option.bind_eq_bind, Option.bind_some]

omit [DecidableEq ι] in
theorem pending_idle {fiber : ι} (idle : ∀ value, state.fiber fiber = some value →
    value.internal = none) : state.pending fiber = none := by
  unfold pending
  cases found : state.fiber fiber with
  | none => rfl
  | some value =>
    simp only [Option.bind_eq_bind, Option.bind_some, idle value found, Option.bind_none]

omit [DecidableEq ι] in
theorem pending_congr {other : State ι V} {fiber : ι}
    (same : other.fiber fiber = state.fiber fiber)
    (internals : ∀ value c, state.fiber fiber = some value → value.internal = some c →
      (other.internal c).point = (state.internal c).point ∧
        (c = other.executing ↔ c = state.executing)) :
    other.pending fiber = state.pending fiber := by
  unfold pending
  rw [same]
  cases found : state.fiber fiber with
  | none => rfl
  | some value =>
    simp only [Option.bind_eq_bind, Option.bind_some]
    cases internal : value.internal with
    | none => rfl
    | some c =>
      obtain ⟨point, executing⟩ := internals value c found internal
      simp only [Option.bind_some, executing, point]

end State

end Xemmai.Fibers
