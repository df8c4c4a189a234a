import Xemmai.Initialization

/-!
# Reads along the runs of a scope

In a run of the code of a scope that enters nothing exposed unwritten, every
read finds what has last been assigned to its variable, and every null that the
emitter has inserted replaces nothing.
-/

namespace Xemmai

set_option autoImplicit false
set_option linter.unusedSectionVars false

open Flow

section Landings

variable {F O : Type} [Double F] (layout : Layout) (blocks : Nat → Block)

def Jumps.lands (jumps : Jumps) : Lands :=
  ⟨jumps.break_.isSome, jumps.continue_.isSome, jumps.return_.isSome⟩

theorem Jumps.lands_try (jumps : Jumps) (junctionFinally stack catch0 : Nat) :
    (jumps.try_ junctionFinally stack catch0).lands = jumps.lands := by
  simp [Jumps.lands, Jumps.try_]

mutual

theorem Node.lands_of_emit (jumps : Jumps) (base : Nat) (tail operand clear : Bool)
    (node : Node F O) {state after : Emit F O} {form : Operand F O}
    (emitted : node.emit layout blocks jumps base tail operand clear state = some (form, after)) :
    node.lands jumps.lands = true := by
  cases node with
  | nodes items =>
      simp only [Node.emit, Option.bind_eq_bind, Option.bind_eq_some_iff] at emitted
      obtain ⟨state1, first, _⟩ := emitted
      exact items.lands_of_sequence jumps base tail clear first
  | operate action operands =>
      simp only [Node.emit, Option.bind_eq_bind, Option.bind_eq_some_iff] at emitted
      obtain ⟨state1, first, _⟩ := emitted
      exact operands.lands_of_values jumps base first
  | if_ condition true_ false_ =>
      simp only [Node.emit_if, Option.bind_eq_bind, Option.bind_eq_some_iff, Prod.exists] at emitted
      obtain ⟨state1, first, _, state2, second, _, state3, third, _⟩ := emitted
      simp only [Node.lands, Bool.and_eq_true]
      exact ⟨⟨condition.lands_of_condition jumps base _ first,
        true_.lands_of_emit jumps _ tail false clear second⟩,
        false_.lands_of_emit jumps _ tail false clear third⟩
  | while_ condition body =>
      simp only [Node.emit_while, Option.bind_eq_bind, Option.bind_eq_some_iff, Prod.exists]
        at emitted
      obtain ⟨state1, first, _, state2, second, _⟩ := emitted
      simp only [Node.lands, Bool.and_eq_true]
      exact ⟨condition.lands_of_condition jumps _ _ first,
        body.lands_of_emit _ _ false false true second⟩
  | for_ initialization condition next body =>
      simp only [Node.emit_for, Option.bind_eq_bind, Option.bind_eq_some_iff, Prod.exists] at emitted
      obtain ⟨state0, zeroth, state1, first, _, state2, second, state3, third, _⟩ := emitted
      simp only [Node.lands, Bool.and_eq_true]
      exact ⟨⟨⟨initialization.lands_of_cleared jumps base zeroth,
        condition.lands_of_condition jumps _ _ first⟩, next.lands_of_cleared jumps _ third⟩,
        body.lands_of_emit _ _ false false true second⟩
  | break_ expression =>
      simp only [Node.emit, Option.bind_eq_bind, Option.bind_eq_some_iff, Prod.exists] at emitted
      obtain ⟨label, target, _, state1, first, _⟩ := emitted
      simp only [Node.lands, Bool.and_eq_true]
      exact ⟨Option.isSome_of_eq_some target, expression.lands_of_emit jumps base _ false _ first⟩
  | continue_ =>
      simp only [Node.emit, Option.bind_eq_bind, Option.bind_eq_some_iff] at emitted
      obtain ⟨label, target, _⟩ := emitted
      exact Option.isSome_of_eq_some target
  | return_ expression =>
      simp only [Node.emit, Option.bind_eq_bind, Option.bind_eq_some_iff, Prod.exists] at emitted
      obtain ⟨label, target, _, state1, first, _⟩ := emitted
      simp only [Node.lands, Bool.and_eq_true]
      exact ⟨Option.isSome_of_eq_some target, expression.lands_of_emit jumps base _ false _ first⟩
  | try_ body catches finally_ =>
      simp only [Node.emit_try, Option.bind_eq_bind, Option.bind_eq_some_iff, Prod.exists] at emitted
      obtain ⟨_, state1, first, state2, second, state3, third, _⟩ := emitted
      have bodies := body.lands_of_emit _ _ false false clear first
      have clauses := catches.lands_of_emit _ _ clear second
      rw [Jumps.lands_try] at bodies clauses
      simp only [Node.lands, Bool.and_eq_true]
      exact ⟨⟨bodies, clauses⟩, finally_.lands_of_cleared Jumps.absent _ third⟩
  | throw_ expression =>
      simp only [Node.emit, Option.bind_eq_bind, Option.bind_eq_some_iff, Prod.exists] at emitted
      obtain ⟨_, state1, first, _⟩ := emitted
      exact expression.lands_of_emit jumps base false false false first
  | symbolGet resolved variable_ symbol => rfl
  | scopePut outer variable_ value =>
      simp only [Node.emit] at emitted
      split at emitted
      · simp only [Option.bind_eq_bind, Option.bind_eq_some_iff, Prod.exists] at emitted
        obtain ⟨_, state1, first, _⟩ := emitted
        exact value.lands_of_emit jumps base false true false first
      · simp only [Option.bind_eq_bind, Option.bind_eq_some_iff, Prod.exists] at emitted
        obtain ⟨_, state1, first, _⟩ := emitted
        exact value.lands_of_emit jumps base false false false first
  | self outer => rfl
  | literal literal => rfl
  | unary op expression =>
      simp only [Node.emit, Option.bind_eq_bind, Option.bind_eq_some_iff, Prod.exists] at emitted
      obtain ⟨_, state1, first, _⟩ := emitted
      exact expression.lands_of_emit jumps base false true false first
  | binary op left right =>
      simp only [Node.emit, Option.bind_eq_bind, Option.bind_eq_some_iff, Prod.exists] at emitted
      obtain ⟨_, state1, first, _, state2, second, _⟩ := emitted
      simp only [Node.lands, Bool.and_eq_true]
      exact ⟨left.lands_of_emit jumps base false true false first,
        right.lands_of_emit jumps _ false true false second⟩
  | preserve => rfl
  | call target arguments expands =>
      simp only [Node.emit_call, Option.bind_eq_bind, Option.bind_eq_some_iff] at emitted
      obtain ⟨state1, first, state2, second, _⟩ := emitted
      simp only [Node.lands, Bool.and_eq_true]
      refine ⟨?_, arguments.lands_of_values jumps _ second⟩
      have pushed : (do
          let (_, state1) ← target.emit layout blocks jumps base false false false state
          some state1.emitNull) = some state1 → target.lands jumps.lands = true := by
        intro first
        simp only [Option.bind_eq_bind, Option.bind_eq_some_iff, Prod.exists] at first
        obtain ⟨_, state0, emitted0, _⟩ := first
        exact target.lands_of_emit jumps base false false false emitted0
      unfold Node.emitTarget at first
      split at first
      · next called =>
          obtain ⟨⟨resolved, found⟩, called⟩ := Option.isSome_iff_exists.mp called
          obtain ⟨variable_, symbol, rfl, _⟩ := Node.called_some called
          rfl
      · cases target with
        | operate action operands =>
            cases action with
            | objectGet key =>
                simp only [Option.bind_eq_bind, Option.bind_eq_some_iff] at first
                obtain ⟨state0, emitted0, _⟩ := first
                exact operands.lands_of_values jumps base emitted0
            | getAt =>
                simp only [Option.bind_eq_bind, Option.bind_eq_some_iff] at first
                obtain ⟨state0, emitted0, _⟩ := first
                exact operands.lands_of_values jumps base emitted0
            | _ => exact pushed first
        | _ => exact pushed first

theorem Nodes.lands_of_sequence (jumps : Jumps) (base : Nat) (tail clear : Bool)
    (nodes : Nodes F O) {state after : Emit F O}
    (emitted : nodes.emitSequence layout blocks jumps base tail clear state = some after) :
    nodes.lands jumps.lands = true := by
  cases nodes with
  | nil => rfl
  | cons head rest =>
      simp only [Nodes.emitSequence] at emitted
      split at emitted
      · simp only [Option.bind_eq_bind, Option.bind_eq_some_iff, Prod.exists] at emitted
        obtain ⟨_, state1, first, _⟩ := emitted
        have heads := head.lands_of_emit jumps base tail false clear first
        cases rest with
        | nil => simpa [Nodes.lands] using heads
        | cons next others => next none => exact absurd none (by simp [Nodes.isNil])
      · simp only [Option.bind_eq_bind, Option.bind_eq_some_iff, Prod.exists] at emitted
        obtain ⟨_, state1, first, second⟩ := emitted
        simp only [Nodes.lands, Bool.and_eq_true]
        exact ⟨head.lands_of_emit jumps base false false true first,
          rest.lands_of_sequence jumps _ tail clear second⟩

theorem Nodes.lands_of_values (jumps : Jumps) (base : Nat) (nodes : Nodes F O)
    {state after : Emit F O}
    (emitted : nodes.emitValues layout blocks jumps base state = some after) :
    nodes.lands jumps.lands = true := by
  cases nodes with
  | nil => rfl
  | cons head rest =>
      simp only [Nodes.emitValues, Option.bind_eq_bind, Option.bind_eq_some_iff, Prod.exists]
        at emitted
      obtain ⟨_, state1, first, second⟩ := emitted
      simp only [Nodes.lands, Bool.and_eq_true]
      exact ⟨head.lands_of_emit jumps base false false false first,
        rest.lands_of_values jumps _ second⟩

theorem Catches.lands_of_emit (jumps : Jumps) (base : Nat) (clear : Bool) (catches : Catches F O)
    {state after : Emit F O}
    (emitted : catches.emit layout blocks jumps base clear state = some after) :
    catches.lands jumps.lands = true := by
  cases catches with
  | nil => rfl
  | cons expression variable_ body tail =>
      simp only [Catches.emit_cons] at emitted
      split at emitted
      · exact absurd emitted (by simp)
      · simp only [Option.bind_eq_bind, Option.bind_eq_some_iff, Prod.exists] at emitted
        obtain ⟨_, state1, first, _, state2, second, third⟩ := emitted
        simp only [Catches.lands, Bool.and_eq_true]
        exact ⟨⟨expression.lands_of_emit jumps _ false false false first,
          body.lands_of_emit jumps _ false false clear second⟩,
          tail.lands_of_emit jumps _ clear third⟩

theorem Optional.lands_of_condition (jumps : Jumps) (base label : Nat) (optional : Optional F O)
    {state after : Emit F O}
    (emitted : optional.emitCondition layout blocks jumps base label state = some after) :
    optional.lands jumps.lands = true := by
  cases optional with
  | none => rfl
  | some node =>
      simp only [Optional.emitCondition, Option.bind_eq_bind, Option.bind_eq_some_iff, Prod.exists]
        at emitted
      obtain ⟨_, state1, first, _⟩ := emitted
      exact node.lands_of_emit jumps base false false false first

theorem Optional.lands_of_cleared (jumps : Jumps) (base : Nat) (optional : Optional F O)
    {state after : Emit F O}
    (emitted : optional.emitCleared layout blocks jumps base state = some after) :
    optional.lands jumps.lands = true := by
  cases optional with
  | none => rfl
  | some node =>
      simp only [Optional.emitCleared, Option.bind_eq_bind, Option.bind_eq_some_iff, Prod.exists]
        at emitted
      obtain ⟨_, state1, first, _⟩ := emitted
      exact node.lands_of_emit jumps base false false true first

end

end Landings

section Entries

variable {F O W : Type} {layout : Layout} {blocks : Nat → Block}

theorem Leads.sound {exits : Exits} {lands : Lands} {flow : Flow} {privates settled : Nat → Bool}
    {completion : Completion F O} {state : State F O W}
    (leads : Leads layout blocks exits lands flow privates settled completion state) :
    state.Sound layout := by
  cases completion with
  | normal => exact leads.1.toSound
  | break_ => exact leads.1.toSound
  | continue_ => exact leads.1.toSound
  | return_ => exact leads.1.toSound
  | returned value => exact Left.toSound leads
  | threw thrown => exact Left.toSound leads
  | timeout => exact Left.toSound leads

/-- A frame as it is entered, and as the prologue leaves it. -/
structure Entered (layout : Layout) (state : State F O W) : Prop extends state.Sound layout where
  unassigned : ∀ slot, layout.arguments ≤ slot → state.assigned slot = .null

theorem Entry.entered {state : State F O W} (entry : Entry layout state) :
    Entered layout state where
  slot index _ written := by
    rw [entry.written] at written
    exact (entry.argument index (of_decide_eq_true written)).symm
  argument index below := by
    rw [entry.written]
    exact decide_eq_true below
  log access member := by
    rw [entry.log] at member
    exact absurd member List.not_mem_nil
  unassigned := entry.unassigned

theorem Entered.temporary {state : State F O W} (entered : Entered layout state) {index : Nat}
    (high : layout.privates ≤ index) (value : Value F O) :
    Entered layout (state.write layout.privates index value) where
  toSound := entered.toSound.write index value
  unassigned := by
    rw [State.assigned_write high]
    exact entered.unassigned

theorem Entered.share {state : State F O W} (entered : Entered layout state)
    (runtime : Runtime F O W) (privates index : Nat) :
    Entered layout (state.share runtime privates index) :=
  ⟨entered.toSound.setWorld _, entered.unassigned⟩

theorem Entered.copy {state : State F O W} (entered : Entered layout state) {source target : Nat}
    (argument : source < layout.arguments) (high : layout.privates ≤ target) :
    Entered layout (state.copy layout.privates source target) := by
  have read : Entered layout (state.read layout.privates source) :=
    ⟨entered.toSound.read (entered.argument source argument), by
      rw [State.assigned_read]
      exact entered.unassigned⟩
  exact read.temporary high _

end Entries

section Scopes

variable {F O W : Type} {scope : Scope F O} {runtime : Runtime F O W}

/-- The copies of the shared arguments read what the caller has passed. -/
theorem Scope.receives_entered :
    ∀ (count : Nat) (parameters : List Nat) (state : State F O W),
      count + parameters.length ≤ scope.layout.arguments → Entered scope.layout state →
      Entered scope.layout ((parameters.zipIdx count).foldl (scope.receive runtime) state) := by
  intro count parameters
  induction parameters generalizing count with
  | nil => exact fun _ _ entered => entered
  | cons parameter parameters induction =>
      intro state inside entered
      simp only [List.length_cons] at inside
      rw [List.zipIdx_cons, List.foldl_cons]
      refine induction (count + 1) _ (by omega) ?_
      unfold Scope.receive
      dsimp only
      split
      · exact (entered.copy (by omega) (le_refl _)).share runtime _ _
      · exact entered

theorem Scope.enter_entered (runtime : Runtime F O W)
    (few : scope.parameters.length ≤ scope.layout.arguments) {state : State F O W}
    (entered : Entered scope.layout state) :
    Entered scope.layout (scope.enter runtime state) := by
  unfold Scope.enter
  refine Scope.receives_entered 0 scope.parameters _ (by omega) ?_
  split
  · exact (entered.temporary (le_refl _) _).share runtime _ _
  · exact entered

variable [Double F]

/-- The structured run of a scope is sound where it enters nothing exposed unwritten. -/
theorem Scope.performBody_sound (runtime : Runtime F O W) {code : List (Instr F O)}
    (compiled : scope.compile = some code)
    (few : scope.parameters.length ≤ scope.layout.arguments) {state : State F O W}
    (entry : Entry scope.layout state) (fuel : Nat)
    (admitted : ∀ access ∈ (scope.performBody runtime fuel state).2.log, access.Admitted) :
    ∀ access ∈ (scope.performBody runtime fuel state).2.log, access.Sound := by
  obtain ⟨final, emitted, rfl⟩ := Option.map_eq_some_iff.mp compiled
  obtain ⟨form, state1, body, _⟩ := Scope.emit_cases emitted
  let targets : Targets := ⟨none, none, some 1⟩
  let start : Flow := ⟨fun _ => .empty, [], 0⟩
  have analyzed := scope.body.analyze_analyzed scope.layout
  have drawn : Drawn 2 start := ⟨by decide, fun _ _ => rfl⟩
  have later : Later (2 + scope.body.blocks) (scope.body.flow scope.layout targets 2 start)
      (scope.body.graph scope.layout) :=
    ⟨fun _ _ _ => rfl, .refl _, fun _ member => List.mem_append_left _ member⟩
  have leaves : Leaves (scope.body.flow scope.layout targets 2 start) 1
      (scope.body.graph scope.layout) :=
    ⟨List.mem_append_right _ (List.mem_singleton_self _), rfl⟩
  have exposed : scope.jumps.toExits.exposed = [] := by
    unfold Scope.jumps
    split <;> rfl
  have high : High scope.layout scope.jumps.toExits scope.jumps.lands := by
    unfold Scope.jumps
    split <;> exact ⟨fun _ => le_refl _, fun _ => le_refl _⟩
  have placed : Placed scope.layout (scope.body.analyze scope.layout) scope.jumps.toExits targets
      start (scope.body.flow scope.layout targets 2 start) fun _ => false :=
    ⟨analyzed.entry, (leaves.live analyzed (Or.inl rfl)).1,
      fun _ _ absent => absurd absent (by decide),
      fun slot member => absurd (exposed ▸ member) List.not_mem_nil⟩
  have entered := Scope.enter_entered runtime few entry.entered
  have reached : Reached scope.layout (scope.body.analyze scope.layout) start (fun _ => false)
      (scope.enter runtime state) := by
    refine ⟨entered.toSound, fun _ _ absent => absurd absent (by decide), ?_⟩
    intro slot member assigned
    exact absurd (entered.unassigned slot (List.mem_range'_1.mp member).1) assigned
  have leads := scope.body.leads runtime fuel analyzed scope.jumps.toExits targets
    scope.jumps.lands high 2 (fun _ => false) scope.layout.privates (le_refl _) scope.isLambda false
    (!scope.isLambda) drawn later placed (scope.body.lands_of_emit _ _ _ _ _ _ _ body) _ reached
  exact (leads admitted).sound.log

end Scopes

section Machines

variable {F O W : Type} (runtime : Runtime F O W) (privates : Nat)

theorem Config.unwind_grown (frames : List (TryFrame F O)) (thrown : Value F O)
    (state : State F O W) : Grown state (Config.unwind frames thrown state).state := by
  induction frames with
  | nil => exact Grown.refl state
  | cons frame frames induction =>
      unfold Config.unwind
      split
      · exact Grown.expose _ state
      · exact Grown.refl state
      · exact induction
      · exact induction

theorem Config.returned_grown (frames : List (TryFrame F O)) (value : Value F O)
    (state : State F O W) : Grown state (Config.returned frames value state).state := by
  cases frames <;> exact Grown.refl state

theorem Config.deliver_grown (pc : Nat) (frames : List (TryFrame F O)) (tail : Bool) (stack : Nat)
    (state : State F O W) (result : Except (Value F O) (Value F O) × W) :
    Grown state (Config.deliver privates pc frames tail stack state result).state := by
  refine (Grown.setWorld result.2 state).trans ?_
  unfold Config.deliver
  dsimp only
  split
  · exact Config.unwind_grown _ _ _
  · split
    · exact Config.returned_grown _ _ _
    · exact Grown.write _ _ _ _

theorem execute_grown (pc : Nat) (frames : List (TryFrame F O)) (state : State F O W)
    (instruction : Instr F O) :
    Grown state (execute runtime privates pc frames state instruction).state := by
  cases instruction with
  | jump target exposed => exact Grown.expose exposed state
  | branch stack target => exact Grown.refl state
  | try_ stack catch0 finally0 exposed => exact Grown.refl state
  | catch_ target isShared index =>
      simp only [execute]
      split
      · split
        · exact Grown.setWorld _ state
        · exact Grown.setWorld _ state
        · split
          · exact Grown.setWorld _ state
          · exact (Grown.setWorld _ state).trans (Grown.write _ _ _ _)
      · exact Grown.refl state
  | finally_ leave =>
      simp only [execute]
      split <;> exact Grown.refl state
  | yrt break0 continue0 return0 =>
      simp only [execute]
      split
      · split <;> exact Grown.refl state
      · split <;> exact Grown.refl state
      · split <;> exact Grown.refl state
      · exact Grown.refl state
      · exact Config.unwind_grown _ _ _
      · exact Grown.refl state
  | throw_ stack => exact Config.unwind_grown _ _ _
  | operate action tail stack count => exact Config.deliver_grown privates _ _ _ _ _ _
  | bind binding stack =>
      simp only [execute]
      split
      · exact (Grown.setWorld _ state).trans (Config.unwind_grown _ _ _)
      · exact ((Grown.setWorld _ state).trans (Grown.write _ _ _ _)).trans (Grown.write _ _ _ _)
  | stackGet stack index => exact (Grown.read _ _ state).trans (Grown.write _ _ _ _)
  | stackPut stack index => exact (Grown.read _ _ state).trans (Grown.write _ _ _ _)
  | scopeGet stack outer index => exact Grown.write _ _ _ state
  | scopePut stack outer index => exact Grown.setWorld _ state
  | self stack => exact Grown.write _ _ _ state
  | load index value => exact Grown.write _ _ _ state
  | insertNull index => exact Grown.insertNull index state
  | returnLoad value => exact Config.returned_grown _ _ state
  | return_ index => exact (Grown.read _ _ state).trans (Config.returned_grown _ _ _)
  | unary op operand tail stack =>
      exact (Grown.fetched _ _ state).trans (Config.deliver_grown privates _ _ _ _ _ _)
  | binary op left right tail stack =>
      exact ((Grown.fetched _ _ state).trans (Grown.fetched _ _ _)).trans
        (Config.deliver_grown privates _ _ _ _ _ _)
  | call callee tail stack count expands =>
      simp only [execute]
      split
      · exact Config.deliver_grown privates _ _ _ _ _ _
      · exact ((Grown.write _ _ _ state).trans (Grown.note _ _)).trans
          (Config.deliver_grown privates _ _ _ _ _ _)
      · exact (Grown.write _ _ _ state).trans (Config.deliver_grown privates _ _ _ _ _ _)

theorem step_grown (code : List (Instr F O)) (config : Config F O W) :
    Grown config.state (step runtime privates code config).state := by
  cases config with
  | done result state => exact Grown.refl state
  | «at» pc frames state =>
      unfold step
      dsimp only
      split
      · exact execute_grown runtime privates pc frames state _
      · exact Grown.refl state

theorem steps_grown (code : List (Instr F O)) (config : Config F O W) :
    ∀ {n m : Nat}, n ≤ m → Grown ((step runtime privates code)^[n] config).state
      ((step runtime privates code)^[m] config).state := by
  intro n m later
  induction later with
  | refl => exact Grown.refl _
  | step later induction =>
      rw [Function.iterate_succ_apply']
      exact induction.trans (step_grown runtime privates code _)

end Machines

section Runs

variable {F O W : Type} [Double F] {scope : Scope F O} {runtime : Runtime F O W}

theorem Scope.result_state {ending : Ending F O W} {result : Result F O} {after : State F O W}
    (ended : scope.result ending = some (result, after)) : after = ending.2 := by
  unfold Scope.result at ended
  split at ended <;> simp_all

theorem Scope.run_log {code : List (Instr F O)} {m : Nat} {state after : State F O W}
    {result : Result F O} (ended : scope.run runtime code m state = .done result after) (n : Nat) :
    ∀ access ∈ (scope.run runtime code n state).state.log, access ∈ after.log := by
  have last : (scope.run runtime code m state).state = after := by
    rw [ended]
    rfl
  rw [← last]
  rcases Nat.le_total n m with early | late
  · exact (steps_grown runtime scope.layout.privates code _ early).log
  · obtain ⟨more, rfl⟩ := Nat.exists_eq_add_of_le' late
    have stays : scope.run runtime code (more + m) state = scope.run runtime code m state := by
      unfold Scope.run at ended ⊢
      rw [Function.iterate_add_apply, ended, Function.iterate_fixed (step_done ..)]
    rw [stays]
    exact fun _ member => member

/-- The accesses up to a point of a run are among those of a structured run, which are among
those up to a later point. -/
theorem Scope.log_covered (runtime : Runtime F O W) {code : List (Instr F O)}
    (formed : scope.body.isFormed = true) (compiled : scope.compile = some code) (n : Nat)
    (state : State F O W) :
    (∀ access ∈ (scope.run runtime code n state).state.log,
      access ∈ (scope.performBody runtime n state).2.log) ∧
    ∃ m, ∀ access ∈ (scope.performBody runtime n state).2.log,
      access ∈ (scope.run runtime code m state).state.log := by
  have simulated := scope.simulates runtime formed compiled n state
  unfold Scope.perform at simulated
  generalize scope.performBody runtime n state = ending at simulated ⊢
  split at simulated
  · next result after ended =>
      obtain ⟨m, _, arrived⟩ := simulated
      have done_ : scope.run runtime code m state = .done result ending.2 := by
        rw [← Scope.result_state ended]
        exact arrived
      refine ⟨Scope.run_log done_ n, m, ?_⟩
      rw [done_]
      exact fun _ member => member
  · next unended =>
      obtain ⟨m, later, pc, frames, arrived⟩ := simulated
      have last : (scope.run runtime code m state).state = ending.2 := by
        unfold Scope.run
        rw [arrived]
        rfl
      refine ⟨?_, m, by rw [last]; exact fun _ member => member⟩
      rw [← last]
      exact (steps_grown runtime scope.layout.privates code _ later).log

/-- At every point of a run that enters nothing exposed unwritten, what has been read is what
had last been assigned and what the emitter has inserted has replaced nothing. -/
theorem Scope.reads_sound {code : List (Instr F O)} (formed : scope.body.isFormed = true)
    (compiled : scope.compile = some code)
    (few : scope.parameters.length ≤ scope.layout.arguments) {state : State F O W}
    (entry : Entry scope.layout state)
    (admitted : ∀ n, ∀ access ∈ (scope.run runtime code n state).state.log, access.Admitted)
    (n : Nat) : ∀ access ∈ (scope.run runtime code n state).state.log, access.Sound := by
  obtain ⟨covered, m, later⟩ := Scope.log_covered runtime formed compiled n state
  have sound := Scope.performBody_sound runtime compiled few entry n
    fun access member => admitted m access (later access member)
  exact fun access member => sound access (covered access member)

end Runs

section Example

theorem called_entry (argument : Value Int Unit) {layout : Layout} (one : layout.arguments = 1) :
    Entry layout (called argument) where
  written index := by
    simp only [called, one, Nat.lt_one_iff]
  argument index below := by
    rw [one, Nat.lt_one_iff] at below
    simp [called, below]
  unassigned index above := by
    have apart : index ≠ 0 := by omega
    simp [called, apart]
  log := rfl

/-- `@(x) for ; x; y; x = null; y = 1; continue`: the third part reads what every round assigns. -/
def skips : Scope Int Unit where
  layout := ⟨1, 2, fun i => ⟨false, true, min i 1⟩, fun i _ => Nat.lt_succ_of_le (Nat.min_le_right i 1)⟩
  isLambda := true
  isSelfShared := false
  parameters := [0]
  body := .for_ .none (.some (.symbolGet 0 (some 0) 0)) (.some (.symbolGet 0 (some 1) 1))
    (.nodes (.cons (.scopePut 0 0 (.literal .null)) (.cons (.scopePut 0 1 (.literal (.integer 1)))
      (.cons .continue_ .nil))))

theorem skips_admitted (n : Nat) : ∀ access ∈
    (skips.run idle (skips.compile.getD []) n (called (.boolean true))).state.log,
    access.Admitted := by
  obtain ⟨after, ended, whole⟩ : ∃ after,
      skips.run idle (skips.compile.getD []) 14 (called (.boolean true)) =
        .done (.returned .null) after ∧
      after.log = [.read 0 (.boolean true) (.boolean true), .exposed 1 true,
        .read 1 (.integer 1) (.integer 1), .read 0 .null .null] := ⟨_, rfl, by decide⟩
  intro access member
  have found := Scope.run_log ended n access member
  rw [whole] at found
  simp only [List.mem_cons, List.not_mem_nil, or_false] at found
  rcases found with rfl | rfl | rfl | rfl <;> trivial

theorem skips_reads :
    (.read 1 (.integer 1) (.integer 1) : Access Int Unit) ∈
      (skips.run idle (skips.compile.getD []) 14 (called (.boolean true))).state.log ∧
    (.read 1 (.integer 1) (.integer 1) : Access Int Unit).Sound := by
  have member : (.read 1 (.integer 1) (.integer 1) : Access Int Unit) ∈
      (skips.run idle (skips.compile.getD []) 14 (called (.boolean true))).state.log := by decide
  exact ⟨member, Scope.reads_sound rfl rfl (by decide) (called_entry _ rfl) skips_admitted 14 _
    member⟩

end Example

section Unexposed

variable {F O W : Type}

def Instr.exposes : Instr F O → List Nat
  | .jump _ exposed => exposed
  | .try_ _ _ _ exposed => exposed
  | _ => []

/-- A kind of access that every read and every inserted null is of. -/
structure Lenient (fair : Access F O → Prop) : Prop where
  read : ∀ index found last, fair (.read index found last)
  inserted : ∀ index last, fair (.inserted index last)

/-- An instruction that exposes nothing and calls only what is of the kind. -/
def Instr.Fair (fair : Access F O → Prop) (instruction : Instr F O) : Prop :=
  instruction.exposes = [] ∧ ∀ index known tail stack count expands,
    instruction = .call (.slot index known) tail stack count expands →
      ∀ found last, fair (.callee index known found last)

def State.Only (fair : Access F O → Prop) (state : State F O W) : Prop :=
  ∀ access ∈ state.log, fair access

namespace State.Only

variable {fair : Access F O → Prop} {state : State F O W}

theorem note (keeps : state.Only fair) {access : Access F O} (last : fair access) :
    (state.note access).Only fair := by
  intro other member
  rcases List.mem_append.mp member with earlier | same
  · exact keeps other earlier
  · rwa [List.mem_singleton.mp same]

theorem read (keeps : state.Only fair) (lenient : Lenient fair) (privates index : Nat) :
    (state.read privates index).Only fair := by
  unfold State.read
  split
  · exact keeps.note (lenient.read _ _ _)
  · exact keeps

theorem fetched (keeps : state.Only fair) (lenient : Lenient fair) (privates : Nat)
    (operand : Operand F O) : (state.fetched privates operand).Only fair := by
  cases operand with
  | «variable» index => exact keeps.read lenient privates index
  | _ => exact keeps

theorem write (keeps : state.Only fair) (privates index : Nat) (value : Value F O) :
    (state.write privates index value).Only fair := by
  unfold State.write
  split <;> exact keeps

theorem expose (keeps : state.Only fair) {exposed : List Nat} (nothing : exposed = []) :
    (state.expose exposed).Only fair := by
  subst nothing
  rwa [State.expose_nil]

end State.Only

variable {fair : Access F O → Prop}

/-- A configuration in which nothing has been exposed. -/
structure Config.Unexposed (fair : Access F O → Prop) (config : Config F O W) : Prop where
  keeps : config.state.Only fair
  frames : ∀ pc frames state, config = .at pc frames state →
    ∀ frame ∈ frames, frame.exposed = []

theorem Config.Unexposed.at {pc : Nat} {frames : List (TryFrame F O)} {state : State F O W}
    (keeps : state.Only fair) (frames_ : ∀ frame ∈ frames, frame.exposed = []) :
    Config.Unexposed fair (.at pc frames state) := by
  refine ⟨keeps, ?_⟩
  rintro _ _ _ ⟨⟩
  exact frames_

theorem Config.Unexposed.done {result : Result F O} {state : State F O W} (keeps : state.Only fair) :
    Config.Unexposed fair (.done result state) :=
  ⟨keeps, by rintro _ _ _ ⟨⟩⟩

theorem Config.Unexposed.unwind (thrown : Value F O) {state : State F O W}
    (keeps : state.Only fair) : ∀ {frames : List (TryFrame F O)},
    (∀ frame ∈ frames, frame.exposed = []) → Config.Unexposed fair (.unwind frames thrown state) := by
  intro frames
  induction frames with
  | nil => exact fun _ => .done keeps
  | cons frame frames induction =>
      intro nothing
      have own := nothing frame List.mem_cons_self
      have others := fun other member => nothing other (List.mem_cons_of_mem frame member)
      have turned : ∀ phase, ∀ other ∈ { frame with phase := phase } :: frames,
          other.exposed = [] := by
        intro phase other member
        rcases List.mem_cons.mp member with rfl | later
        · exact own
        · exact others other later
      unfold Config.unwind
      split
      · exact .at (keeps.expose own) (turned _)
      · exact .at keeps (turned _)
      · exact induction others
      · exact induction others

theorem Config.Unexposed.returned (frames : List (TryFrame F O)) (value : Value F O)
    {state : State F O W} (keeps : state.Only fair) :
    Config.Unexposed fair (.returned frames value state) := by
  cases frames <;> exact .done keeps

theorem Config.Unexposed.deliver (privates pc : Nat) {frames : List (TryFrame F O)} (tail : Bool)
    (stack : Nat) {state : State F O W} (keeps : state.Only fair)
    (nothing : ∀ frame ∈ frames, frame.exposed = [])
    (result : Except (Value F O) (Value F O) × W) :
    Config.Unexposed fair (.deliver privates pc frames tail stack state result) := by
  have moved : (state.setWorld result.2).Only fair := keeps
  unfold Config.deliver
  dsimp only
  split
  · exact .unwind _ moved nothing
  · split
    · exact .returned frames _ moved
    · exact .at (moved.write _ _ _) nothing

theorem TryFrame.unexposed_turn {frame : TryFrame F O} {frames : List (TryFrame F O)}
    (nothing : ∀ other ∈ frame :: frames, other.exposed = []) (phase : Phase F O) :
    ∀ other ∈ { frame with phase := phase } :: frames, other.exposed = [] := by
  intro other member
  rcases List.mem_cons.mp member with rfl | later
  · exact nothing frame List.mem_cons_self
  · exact nothing other (List.mem_cons_of_mem frame later)

/-- An instruction that exposes nothing leaves nothing exposed. -/
theorem execute_unexposed (runtime : Runtime F O W) (privates pc : Nat)
    {frames : List (TryFrame F O)} {state : State F O W} (instruction : Instr F O)
    (lenient : Lenient fair) (own : instruction.Fair fair) (keeps : state.Only fair)
    (nothing : ∀ frame ∈ frames, frame.exposed = []) :
    (execute runtime privates pc frames state instruction).Unexposed fair := by
  have rest : ∀ {frame : TryFrame F O} {others : List (TryFrame F O)}, frames = frame :: others →
      ∀ other ∈ others, other.exposed = [] := by
    rintro frame others rfl other member
    exact nothing other (List.mem_cons_of_mem frame member)
  cases instruction with
  | jump target exposed => exact .at (keeps.expose own.1) nothing
  | branch stack target => exact .at keeps nothing
  | try_ stack catch0 finally0 exposed =>
      refine .at keeps ?_
      intro frame member
      rcases List.mem_cons.mp member with rfl | later
      · exact own.1
      · exact nothing frame later
  | catch_ target isShared index =>
      simp only [execute]
      split
      · split
        · exact .at keeps (TryFrame.unexposed_turn nothing _)
        · exact .at keeps nothing
        · split
          · exact .at keeps nothing
          · have moved : ∀ world, (state.setWorld world).Only fair := fun _ => keeps
            exact .at ((moved _).write _ _ _) nothing
      · exact .done keeps
  | finally_ leave =>
      simp only [execute]
      split
      · exact .at keeps (TryFrame.unexposed_turn nothing _)
      · exact .at keeps (TryFrame.unexposed_turn nothing _)
      · exact .done keeps
  | yrt break0 continue0 return0 =>
      simp only [execute]
      split
      · split
        · exact .at keeps (rest rfl)
        · exact .done keeps
      · split
        · exact .at keeps (rest rfl)
        · exact .done keeps
      · split
        · exact .at keeps (rest rfl)
        · exact .done keeps
      · exact .at keeps (rest rfl)
      · exact .unwind _ keeps (rest rfl)
      · exact .done keeps
  | throw_ stack => exact .unwind _ keeps nothing
  | operate action tail stack count => exact .deliver _ _ _ _ keeps nothing _
  | bind binding stack =>
      have moved : ∀ world, (state.setWorld world).Only fair := fun _ => keeps
      simp only [execute]
      split
      · exact .unwind _ (moved _) nothing
      · exact .at (((moved _).write _ _ _).write _ _ _) nothing
  | stackGet stack index => exact .at ((keeps.read lenient _ _).write _ _ _) nothing
  | stackPut stack index => exact .at ((keeps.read lenient _ _).write _ _ _) nothing
  | scopeGet stack outer index => exact .at (keeps.write _ _ _) nothing
  | scopePut stack outer index => exact .at keeps nothing
  | self stack => exact .at (keeps.write _ _ _) nothing
  | load index value => exact .at (keeps.write _ _ _) nothing
  | insertNull index =>
      refine .at ?_ nothing
      have noted : (state.note (.inserted index (state.assigned index))).Only fair :=
        keeps.note (lenient.inserted _ _)
      exact noted
  | returnLoad value => exact .returned frames _ keeps
  | return_ index => exact .returned frames _ (keeps.read lenient _ _)
  | unary op operand tail stack => exact .deliver _ _ _ _ (keeps.fetched lenient _ _) nothing _
  | binary op left right tail stack =>
      exact .deliver _ _ _ _ ((keeps.fetched lenient _ _).fetched lenient _ _) nothing _
  | call callee tail stack count expands =>
      simp only [execute]
      split
      · exact .deliver _ _ _ _ keeps nothing _
      · refine .deliver _ _ _ _ ?_ nothing _
        exact (keeps.write _ _ _).note (own.2 _ _ _ _ _ _ rfl _ _)
      · exact .deliver _ _ _ _ (keeps.write _ _ _) nothing _

theorem step_unexposed (runtime : Runtime F O W) (privates : Nat) {code : List (Instr F O)}
    (lenient : Lenient fair) (own : ∀ instruction ∈ code, instruction.Fair fair) {config : Config F O W}
    (unexposed : config.Unexposed fair) : (step runtime privates code config).Unexposed fair := by
  cases config with
  | done result state => exact unexposed
  | «at» pc frames state =>
      have nothing := unexposed.frames pc frames state rfl
      unfold step
      dsimp only
      split
      · next instruction found =>
          exact execute_unexposed runtime privates pc instruction lenient
            (own instruction (List.mem_of_getElem? found)) unexposed.keeps nothing
      · exact .done unexposed.keeps

theorem steps_unexposed (runtime : Runtime F O W) (privates : Nat) {code : List (Instr F O)}
    (lenient : Lenient fair) (own : ∀ instruction ∈ code, instruction.Fair fair) {config : Config F O W}
    (unexposed : config.Unexposed fair) (n : Nat) :
    ((step runtime privates code)^[n] config).Unexposed fair := by
  induction n with
  | zero => exact unexposed
  | succ n induction =>
      rw [Function.iterate_succ_apply']
      exact step_unexposed runtime privates lenient own induction

theorem Scope.run_keeps [Double F] {scope : Scope F O} {code : List (Instr F O)}
    (runtime : Runtime F O W) (lenient : Lenient fair)
    (own : ∀ instruction ∈ code, instruction.Fair fair) {state : State F O W}
    (entry : Entry scope.layout state) (n : Nat) :
    ∀ access ∈ (scope.run runtime code n state).state.log, fair access := by
  have start : State.Only fair state := by
    intro access member
    rw [entry.log] at member
    exact absurd member List.not_mem_nil
  have unexposed : ((step runtime scope.layout.privates code)^[n] (.at 0 [] state)).Unexposed fair :=
    steps_unexposed runtime scope.layout.privates lenient own
      (.at start fun _ absent => absurd absent List.not_mem_nil) n
  exact unexposed.keeps

theorem Lenient.admitted : Lenient (Access.Admitted : Access F O → Prop) :=
  ⟨fun _ _ _ => trivial, fun _ _ => trivial⟩

/-- Where the code exposes nothing, every run reads what has been assigned. -/
theorem Scope.reads_initialised [Double F] {scope : Scope F O} {runtime : Runtime F O W}
    {code : List (Instr F O)} (formed : scope.body.isFormed = true)
    (compiled : scope.compile = some code)
    (own : ∀ instruction ∈ code, instruction.exposes = [])
    (few : scope.parameters.length ≤ scope.layout.arguments) {state : State F O W}
    (entry : Entry scope.layout state) (n : Nat) :
    ∀ access ∈ (scope.run runtime code n state).state.log, access.Sound := by
  have fair : ∀ instruction ∈ code, instruction.Fair Access.Admitted :=
    fun instruction member => ⟨own instruction member, fun _ _ _ _ _ _ _ _ _ => trivial⟩
  obtain ⟨covered, m, later⟩ := Scope.log_covered runtime formed compiled n state
  have admitted := Scope.run_keeps runtime .admitted fair entry m
  have sound := Scope.performBody_sound runtime compiled few entry n
    fun access member => admitted access (later access member)
  exact fun access member => sound access (covered access member)

theorem escape_reads :
    (.read 0 .null .null : Access Int Unit) ∈
      (escape.run idle (escape.compile.getD []) 14 (called .null)).state.log ∧
    (.read 0 .null .null : Access Int Unit).Sound := by
  have member : (.read 0 .null .null : Access Int Unit) ∈
      (escape.run idle (escape.compile.getD []) 14 (called .null)).state.log := by decide
  exact ⟨member, Scope.reads_initialised rfl rfl (by decide) (by decide) (called_entry _ rfl) 14 _
    member⟩

end Unexposed

end Xemmai
