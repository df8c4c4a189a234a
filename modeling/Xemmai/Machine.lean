import Mathlib

/-!
# Runs of a partial step function

A machine is a step function `σ → α → Option σ`: an action that is not enabled
in a state gives `none`. A run is the monadic fold of the actions over the step
function. What one step preserves, a run preserves; what one step does to a
history of the actions, a run does to their whole list.
-/

namespace Xemmai.Machine

set_option autoImplicit false

variable {σ α : Type}

def run (step : σ → α → Option σ) (start : σ) (actions : List α) : Option σ :=
  actions.foldlM step start

@[simp] theorem run_nil (step : σ → α → Option σ) (start : σ) :
    run step start [] = some start := rfl

theorem run_cons (step : σ → α → Option σ) (start : σ) (action : α)
    (actions : List α) :
    run step start (action :: actions) =
      (step start action).bind fun state => run step state actions := rfl

theorem run_append (step : σ → α → Option σ) (start : σ) (first second : List α) :
    run step start (first ++ second) =
      (run step start first).bind fun state => run step state second := by
  simp only [run, List.foldlM_append]
  rfl

/-- The states that some run from `start` leads to. -/
def Reachable (step : σ → α → Option σ) (start state : σ) : Prop :=
  ∃ actions, run step start actions = some state

theorem run_history {step : σ → α → Option σ} {start : σ}
    (holds : List α → σ → Prop) (initial : holds [] start)
    (preserved : ∀ actions state action after, holds actions state →
      step state action = some after → holds (actions ++ [action]) after) :
    ∀ actions state, run step start actions = some state → holds actions state := by
  intro actions
  induction actions using List.reverseRecOn with
  | nil =>
    intro state reached
    simp only [run_nil, Option.some.injEq] at reached
    exact reached ▸ initial
  | append_singleton actions action ih =>
    intro state reached
    rw [run_append, Option.bind_eq_some_iff] at reached
    obtain ⟨before, earlier, last⟩ := reached
    rw [run_cons, Option.bind_eq_some_iff] at last
    obtain ⟨after, taken, same⟩ := last
    simp only [run_nil, Option.some.injEq] at same
    exact same ▸ preserved actions before action after (ih before earlier) taken

theorem run_invariant {step : σ → α → Option σ} {start : σ} (holds : σ → Prop)
    (initial : holds start)
    (preserved : ∀ state action after, holds state →
      step state action = some after → holds after)
    {actions : List α} {state : σ} (reached : run step start actions = some state) :
    holds state :=
  run_history (fun _ => holds) initial (fun _ => preserved) actions state reached

/-- Each action of a run meets a condition in the state that it is taken in. -/
def Along (step : σ → α → Option σ) (meets : σ → α → Prop) : σ → List α → Prop
  | _, [] => True
  | state, action :: actions => meets state action ∧
      ∀ after, step state action = some after → Along step meets after actions

instance decidableAlong (step : σ → α → Option σ) (meets : σ → α → Prop)
    [∀ state action, Decidable (meets state action)] :
    ∀ actions state, Decidable (Along step meets state actions)
  | [], _ => isTrue trivial
  | action :: actions, state =>
    match taken : step state action with
    | none => decidable_of_iff (meets state action) (by simp [Along, taken])
    | some after =>
      have := decidableAlong step meets actions after
      decidable_of_iff (meets state action ∧ Along step meets after actions)
        (by simp [Along, taken])

/-- An invariant of the states that the runs under a condition lead to. -/
theorem run_along {step : σ → α → Option σ} {meets : σ → α → Prop} (holds : σ → Prop)
    (preserved : ∀ state action after, holds state → meets state action →
      step state action = some after → holds after) :
    ∀ actions start state, holds start → Along step meets start actions →
      run step start actions = some state → holds state := by
  intro actions
  induction actions with
  | nil =>
    intro start state held _ reached
    simp only [run_nil, Option.some.injEq] at reached
    exact reached ▸ held
  | cons action actions ih =>
    intro start state held along reached
    rw [run_cons, Option.bind_eq_some_iff] at reached
    obtain ⟨after, taken, later⟩ := reached
    exact ih after state (preserved start action after held along.1 taken)
      (along.2 after taken) later

theorem along_of_forall {step : σ → α → Option σ} {meets : α → Prop} :
    ∀ actions start, (∀ action ∈ actions, meets action) →
      Along step (fun _ action => meets action) start actions := by
  intro actions
  induction actions with
  | nil => intro start _; trivial
  | cons action actions ih =>
    intro start met
    refine ⟨met action List.mem_cons_self, fun after _ => ih after ?_⟩
    intro other member
    exact met other (List.mem_cons_of_mem action member)

theorem Along.left {step : σ → α → Option σ} {meets : σ → α → Prop} {second : List α} :
    ∀ {first : List α} {start : σ}, Along step meets start (first ++ second) →
      Along step meets start first := by
  intro first
  induction first with
  | nil => intro start _; trivial
  | cons action first ih =>
    intro start along
    exact ⟨along.1, fun after taken => ih (along.2 after taken)⟩

theorem Along.and {step : σ → α → Option σ} {meets also : σ → α → Prop} :
    ∀ {actions : List α} {start : σ}, Along step meets start actions →
      Along step also start actions →
      Along step (fun state action => meets state action ∧ also state action) start actions := by
  intro actions
  induction actions with
  | nil => intro start _ _; trivial
  | cons action actions ih =>
    intro start first second
    exact ⟨⟨first.1, second.1⟩, fun after taken =>
      ih (first.2 after taken) (second.2 after taken)⟩

def Endless (step : σ → α → Option σ) (states : Nat → σ) (actions : Nat → α) : Prop :=
  ∀ n, step (states n) (actions n) = some (states (n + 1))

/-- What is lowered whenever it is the turn of something, and is left alone otherwise,
comes to an end where the turns do not. -/
theorem ends_of_lowers {β : Type} {lower : β → β → Prop} (founded : WellFounded lower)
    {turn ended : Nat → Prop} {holds : Nat → β → Prop}
    (stays : ∀ n rank, holds n rank → ¬ turn n → holds (n + 1) rank)
    (lowers : ∀ n rank, holds n rank → turn n →
      ended (n + 1) ∨ ∃ less, lower less rank ∧ holds (n + 1) less)
    (often : ∀ n, ∃ m, n ≤ m ∧ turn m) (rank : β) :
    ∀ n, holds n rank → ∃ m, ended m := by
  induction rank using founded.induction with
  | _ rank ih =>
    intro n held
    obtain ⟨m, later, turned⟩ := often n
    obtain ⟨k, rfl⟩ := Nat.exists_eq_add_of_le later
    -- the turns that are waited for come nearer with every other step
    induction k generalizing n with
    | zero =>
      rcases lowers n rank held turned with done | ⟨less, smaller, held⟩
      · exact ⟨n + 1, done⟩
      · exact ih less smaller (n + 1) held
    | succ k nearer =>
      by_cases here : turn n
      · rcases lowers n rank held here with done | ⟨less, smaller, held⟩
        · exact ⟨n + 1, done⟩
        · exact ih less smaller (n + 1) held
      · refine nearer (n + 1) (stays n rank held here) (Nat.le_add_right _ _) ?_
        rwa [Nat.add_right_comm, Nat.add_assoc]

/-- Runs of a relation whose steps each have some events. -/
inductive Trace {ε : Type} (moves : σ → List ε → σ → Prop) (start : σ) : List ε → σ → Prop
  | nil : Trace moves start [] start
  | append {events more : List ε} {state after : σ} (earlier : Trace moves start events state)
      (move : moves state more after) : Trace moves start (events ++ more) after

end Xemmai.Machine
