import Xemmai.Simulation

/-!
# Emission preserves what the tree does

Each construct from its parts, and then every tree. The code of a part is entered
under any frames of `f_try`; only outside of all of them a part may be in the
place of a tail.
-/

namespace Xemmai

set_option autoImplicit false
set_option linter.unusedSectionVars false

section Plain

variable {F O W : Type} {runtime : Runtime F O W} {layout : Layout} {fuel : Nat}
variable {final : Emit F O} {jumps : Jumps} {frames : List (TryFrame F O)}
variable {first middle last : Emit F O}

@[simp] theorem State.expose_nil (state : State F O W) : state.expose [] = state := by
  simp [State.expose]

theorem andThen_normal (ending : Ending F O W) :
    andThen ending (fun state => (.normal, state)) = ending := by
  rcases ending with ⟨completion, state⟩
  cases completion <;> rfl

theorem Emit.length_emit (instruction : Instr F O) (state : Emit F O) :
    (state.emit instruction).code.length = state.code.length + 1 :=
  List.length_append

theorem Emit.code_finish (instruction : Instr F O) (clear : Bool) (state : Emit F O) :
    (state.finish instruction clear).code = state.code ++ [instruction] := by
  cases clear <;> rfl

theorem Emit.before_finish (instruction : Instr F O) (clear : Bool) (state : Emit F O) :
    (state.emit instruction).Before (state.finish instruction clear) :=
  ((Extends.push _).trans (Extends.popIf clear _)).toBefore

namespace Jumps.Outermost

theorem plain {tail : Bool} (outermost : jumps.Outermost tail frames) :
    jumps.Outermost false frames := by
  intro tails
  refine outermost (Or.inr ?_)
  simpa using tails

theorem tail {tail : Bool} (outermost : jumps.Outermost tail frames) (tails : tail = true) :
    frames = [] := outermost (Or.inl tails)

theorem breaks {tail : Bool} (outermost : jumps.Outermost tail frames) :
    jumps.Outermost jumps.breakIsTail frames := by
  intro tails
  refine outermost (Or.inr ?_)
  tauto

theorem returns {tail : Bool} (outermost : jumps.Outermost tail frames) :
    jumps.Outermost jumps.returnIsTail frames := by
  intro tails
  refine outermost (Or.inr ?_)
  tauto

theorem none (frames : List (TryFrame F O)) : Jumps.absent.Outermost false frames := by
  rintro (tails | tails | tails) <;> exact absurd tails (by decide)

theorem loop {tail clear : Bool} {junctionExit stack continueJunction break0 continue0 : Nat}
    {exposed : List Nat} (outermost : jumps.Outermost tail frames) :
    (jumps.loop junctionExit stack tail clear continueJunction exposed break0
      continue0).Outermost false frames := by
  rintro (tails | tails | tails)
  · exact absurd tails (by decide)
  · exact outermost (Or.inl tails)
  · exact outermost (Or.inr (Or.inr tails))

theorem try_ (junctionFinally stack catch0 : Nat) (frames : List (TryFrame F O)) :
    (jumps.try_ junctionFinally stack catch0).Outermost false frames := by
  rintro (tails | tails | tails) <;> exact absurd tails (by simp [Jumps.try_, Exits.try_])

end Jumps.Outermost

/-- The way from a finally block to the target of an outer jump, which expects the value of the
try at `height`. -/
def State.rejoin (layout : Layout) (privates : Nat → Bool) (stack : Nat) (junction : Block)
    (height : Nat) (state : State F O W) : State F O W :=
  (if height < stack then state.copy layout.privates stack height else state).insertNulls
    (layout.nulls privates junction)

def TryFrame.turn (phase : Phase F O) (frame : TryFrame F O) : TryFrame F O :=
  { frame with phase := phase }

namespace Runs

theorem of_code {other : Emit F O} {perform : State F O W → Ending F O W}
    (runs : Runs runtime layout fuel final jumps frames first middle perform)
    (entered : first.code = other.code) (left : last.code = middle.code) :
    Runs runtime layout fuel final jumps frames other last perform := by
  unfold Runs at runs ⊢
  rwa [← entered, left]

theorem map {perform : State F O W → Ending F O W} {move : State F O W → State F O W}
    (left : Runs runtime layout fuel final jumps frames first middle perform)
    (right : Runs runtime layout fuel final jumps frames middle last
      fun state => (.normal, move state)) :
    Runs runtime layout fuel final jumps frames first last fun state =>
      Xemmai.andThen (perform state) fun state => (.normal, move state) :=
  left.andThen right

theorem append {perform : State F O W → Ending F O W}
    (left : Runs runtime layout fuel final jumps frames first middle perform)
    (right : Runs runtime layout fuel final jumps frames middle last
      fun state => (.normal, state)) :
    Runs runtime layout fuel final jumps frames first last perform := by
  intro state
  have whole := left.andThen right state
  simpa only [andThen_normal] using whole

theorem jump {label : Nat} (before : (first.emit (.jump label [])).Before final)
    (target : final.target label = last.code.length) :
    Runs runtime layout fuel final jumps frames first last fun state => (.normal, state) := by
  refine emit before ?_
  intro state
  refine Simulates.normal ?_
  simp [execute, Instr.resolve, Jumps.exit, target]

theorem finish {instruction : Instr F O} {tail clear : Bool} {stack : Nat}
    {move : State F O W → State F O W}
    {result : State F O W → Except (Value F O) (Value F O) × W}
    (before : (first.finish instruction clear).Before final)
    (outermost : tail = true → frames = [])
    (executes : ∀ state, execute runtime layout.privates first.code.length frames state
      (instruction.resolve final.target) =
        .deliver layout.privates first.code.length frames tail stack (move state) (result state)) :
    Runs runtime layout fuel final jumps frames first (first.finish instruction clear)
      fun state => Xemmai.deliver layout.privates tail stack (move state) (result state) :=
  deliver ((Emit.before_finish instruction clear first).trans before)
    (Emit.code_finish instruction clear first) outermost executes

theorem one {instruction : Instr F O} {move : State F O W → State F O W}
    (before : last.Before final) (code : last.code = first.code ++ [instruction])
    (targets : last.targets = first.targets)
    (executes : ∀ state, execute runtime layout.privates first.code.length frames state
      (instruction.resolve final.target) = .at (first.code.length + 1) frames (move state)) :
    Runs runtime layout fuel final jumps frames first last fun state => (.normal, move state) := by
  refine straight (Emit.Before.trans ?_ before) code executes
  exact Emit.Before.of_eq code targets

/-- `METHOD_GET` and `METHOD_BIND` -/
theorem bind {binding : Binding} {stack : Nat}
    (before : (first.emit (.bind binding stack)).Before final)
    (code : last.code = first.code ++ [.bind binding stack]) :
    Runs runtime layout fuel final jumps frames first last
      (Xemmai.bind runtime layout.privates binding stack) := by
  refine emit before ?_
  intro state
  simp only [Instr.resolve, execute, Xemmai.bind]
  rcases runtime.bind binding (state.operands stack binding.operands) state.world with
    ⟨result, world⟩
  cases result with
  | error thrown => exact Simulates.here (by rintro ⟨⟩) rfl
  | ok found => exact Simulates.normal (by simp [Jumps.exit, code])

theorem follow {instruction : Instr F O} {perform : State F O W → Ending F O W}
    {move : State F O W → State F O W}
    (left : middle.Before final → Runs runtime layout fuel final jumps frames first middle perform)
    (before : last.Before final) (code : last.code = middle.code ++ [instruction])
    (targets : last.targets = middle.targets)
    (executes : ∀ state, execute runtime layout.privates middle.code.length frames state
      (instruction.resolve final.target) = .at (middle.code.length + 1) frames (move state)) :
    Runs runtime layout fuel final jumps frames first last fun state =>
      Xemmai.andThen (perform state) fun state => (.normal, move state) := by
  have earlier : middle.Before final :=
    Emit.Before.trans ⟨⟨_, code.symm⟩, by rw [targets]⟩ before
  exact (left earlier).andThen (one before code targets executes)

theorem leave {instruction : Instr F O} {completion : State F O W → Completion F O}
    {move : State F O W → State F O W} (before : (first.emit instruction).Before final)
    (lasting : ∀ state, completion state ≠ .timeout)
    (executes : ∀ state, jumps.exit final.target frames last.code.length (completion state)
      (move state) (execute runtime layout.privates first.code.length frames state
        (instruction.resolve final.target))) :
    Runs runtime layout fuel final jumps frames first last fun state =>
      (completion state, move state) :=
  emit before fun state => Simulates.here (lasting state) (executes state)

theorem null (before : first.emitNull.Before final) :
    Runs runtime layout fuel final jumps frames first first.emitNull fun state =>
      (.normal, state.write layout.privates first.stack .null) :=
  straight ((Emit.Extends.push _).toBefore.trans before) rfl fun _ => rfl

theorem jumpOut (junction : Block) {label : Nat} {completion : Completion F O}
    (lasting : completion ≠ .timeout)
    (before : ((first.join layout junction).emit (.jump label [])).Before final)
    (leaves : ∀ after : State F O W, jumps.exit final.target frames last.code.length completion
      after (.at (final.target label) frames after)) :
    Runs runtime layout fuel final jumps frames first last fun after =>
      (completion, after.insertNulls (layout.nulls first.privates junction)) := by
  have jumped : Runs runtime layout fuel final jumps frames (first.join layout junction) last
      fun after => (completion, after) := by
    refine leave before (fun _ => lasting) fun after => ?_
    simp only [Instr.resolve, execute, State.expose_nil]
    exact leaves after
  exact (join junction ((Emit.Extends.emit (.jump label []) _).toBefore.trans before)).andThen jumped

theorem rejoin {junction : Block} {own outer height stack : Nat} {completion : Completion F O}
    (lasting : completion ≠ .timeout)
    (leaves : ∀ after : State F O W, jumps.exit final.target frames last.code.length completion
      after (.at (final.target outer) frames after))
    (before : (middle.rejoin layout (some own) (some outer) junction height stack).Before final) :
    Runs runtime layout fuel final jumps frames middle last fun after =>
      (completion, after.rejoin layout middle.privates stack junction height) := by
  unfold Emit.rejoin at before
  unfold State.rejoin
  by_cases lower : height < stack
  · simp only [if_pos lower] at before ⊢
    have copied : ((middle.setTarget own).emit (.stackGet height stack)).Before final :=
      ((Emit.Extends.join layout junction _).trans (Emit.Extends.emit _ _)).toBefore.trans before
    have moved : Runs runtime layout fuel final jumps frames (middle.setTarget own)
        ((middle.setTarget own).emit (.stackGet height stack))
        fun after => (.normal, after.copy layout.privates stack height) :=
      Runs.straight copied rfl fun _ => rfl
    exact (moved.andThen (jumpOut junction lasting before leaves)).of_code rfl rfl
  · simp only [if_neg lower] at before ⊢
    exact (jumpOut junction lasting before leaves).of_code rfl rfl

/-- `FINALLY` at the end of a body or of a catch clause. -/
theorem finally_ {pc : Nat} {leave : Leave} {frame : TryFrame F O} {phase : Phase F O}
    {exit : Exit F O W} {completion : Completion F O} {after : State F O W}
    (found : final.resolved[pc]? = some (.finally_ leave)) (lasting : completion ≠ .timeout)
    (attempting : phase = .body ∨ ∃ thrown, phase = .catching thrown) (leaves : leave ≠ .throw_)
    (met : exit completion after
      (.at frame.finally_ (frame.turn (.finishing leave) :: frames) after)) :
    Simulates runtime layout.privates final.resolved exit fuel 1
      (.at pc (frame.turn phase :: frames) after) (completion, after) := by
  refine (Simulates.next (Simulates.here lasting ?_)).fewer (Nat.le_succ fuel) (le_refl 1)
  rcases attempting with rfl | ⟨thrown, rfl⟩
  · simp only [step, found]
    exact met
  · simp only [step, found, execute, TryFrame.turn, if_neg leaves]
    exact met

end Runs

/-- A branch goes on behind it, or to its label. -/
def Branches (runtime : Runtime F O W) (layout : Layout) (fuel : Nat) (final : Emit F O)
    (jumps : Jumps) (frames : List (TryFrame F O)) (first last : Emit F O) (label : Nat)
    (perform : State F O W → Ending F O W) (holds : State F O W → Bool) : Prop :=
  ∀ (pc fuel1 : Nat), fuel1 ≤ fuel → ∀ rest : State F O W → Ending F O W,
    (∀ state, holds state = true → Simulates runtime layout.privates final.resolved
      (jumps.exit final.target frames pc) fuel1 1 (.at last.code.length frames state)
        (rest state)) →
    (∀ state, holds state = false → Simulates runtime layout.privates final.resolved
      (jumps.exit final.target frames pc) fuel1 1 (.at (final.target label) frames state)
        (rest state)) →
    ∀ state, Simulates runtime layout.privates final.resolved
      (jumps.exit final.target frames pc) fuel1 1 (.at first.code.length frames state)
        (andThen (perform state) rest)

/-- The phase of a try whose body and catch clauses have ended. -/
def Completion.phase : Completion F O → Option (Phase F O)
  | .normal => some (.finishing .step)
  | .break_ => some (.finishing .break_)
  | .continue_ => some (.finishing .continue_)
  | .return_ => some (.finishing .return_)
  | .threw thrown => some (.rethrowing thrown)
  | .returned _ | .timeout => none

def Jumps.allows (jumps : Jumps) : Completion F O → Bool
  | .break_ => jumps.break_.isSome
  | .continue_ => jumps.continue_.isSome
  | .return_ => jumps.return_.isSome
  | _ => true

/-- Where the body and the catch clauses of a try lead, before the finally block and, with the
frame as it is, behind it. -/
def Jumps.settled (jumps : Jumps) (pc : Nat) (frame : TryFrame F O)
    (frames : List (TryFrame F O)) : Exit F O W := fun completion state config =>
  jumps.allows completion = true ∧ ∃ phase, completion.phase = some phase ∧
    config = .at pc (frame.turn phase :: frames) state

/-- Where a catch clause leads: `FINALLY` ends it. -/
def Jumps.clause (jumps : Jumps) (target : Nat → Nat) (frame : TryFrame F O) (thrown : Value F O)
    (frames : List (TryFrame F O)) : Exit F O W
  | .normal, state, config =>
      config = .at frame.finally_ (frame.turn (.finishing .step) :: frames) state
  | completion, state, config =>
      jumps.exit target (frame.turn (.catching thrown) :: frames) 0 completion state config

/-- The operand of `YRT` for a jump out of a try leads to where the jump leads. -/
def Outlet (runtime : Runtime F O W) (layout : Layout) (fuel : Nat) (final : Emit F O)
    (jumps : Jumps) (frames : List (TryFrame F O)) (last : Emit F O) (operand : Option Nat)
    (completion : Completion F O) (move : State F O W → State F O W) : Prop :=
  jumps.allows completion = true → ∃ own, operand = some own ∧
    ∀ after, Simulates runtime layout.privates final.resolved
      (jumps.exit final.target frames last.code.length) fuel 0
      (.at (final.target own) frames after) (completion, move after)

section Constructs

variable (unique : ∀ label, final.sets label ≤ 1)
include unique

/-- `t_if` -/
theorem Runs.if_ {junction : Block} {condition performTrue performFalse : State F O W → Ending F O W}
    {holds : State F O W → Bool} {state state1 state2 state3 : Emit F O}
    (branches : Branches runtime layout fuel final jumps frames state.label state1 state.labels
      condition holds)
    (trues : Runs runtime layout fuel final jumps frames state1 state2 performTrue)
    (falses : Runs runtime layout fuel final jumps frames
      (Emit.elseIf layout junction state.labels state1 state2) state3 performFalse)
    (third : (Emit.elseIf layout junction state.labels state1 state2).Before state3)
    (before : (state3.closeIf layout junction state2.labels).Before final) :
    Runs runtime layout fuel final jumps frames state
      (state3.closeIf layout junction state2.labels) fun state =>
        Xemmai.andThen (condition state) fun state =>
          if holds state then
            Xemmai.andThen (performTrue state) fun state =>
              (.normal, state.insertNulls (layout.nulls state2.privates junction))
          else
            Xemmai.andThen (performFalse state) fun state =>
              (.normal, state.insertNulls (layout.nulls state3.privates junction)) := by
  intro first
  have joined : (state3.join layout junction).Before final :=
    ((Emit.before_setTarget _ _).trans (Emit.Extends.merge junction _).toBefore).trans before
  have entered := third.trans ((Emit.Extends.join layout junction state3).toBefore.trans joined)
  have jumped : ((state2.join layout junction).emit (.jump state2.labels [])).Before final :=
    Emit.Before.trans (Emit.before_setTarget state.labels _) ⟨entered.code, entered.targets⟩
  have away : final.target state.labels =
      (Emit.elseIf layout junction state.labels state1 state2).code.length :=
    Emit.target_eq unique entered (Emit.mem_setTarget _ ((state2.join layout junction).label.emit
      (.jump state2.labels [])))
  have behind : final.target state2.labels =
      (state3.closeIf layout junction state2.labels).code.length :=
    Emit.target_eq unique before (Emit.mem_setTarget _ (state3.join layout junction))
  have positive := (trues.andThen (Runs.join junction
    ((Emit.Extends.emit (.jump state2.labels []) _).toBefore.trans jumped))).append
      (Runs.jump jumped behind)
  have negative := falses.andThen (Runs.join junction joined)
  refine branches _ fuel (le_refl fuel) _ ?_ ?_ first
  · intro state held
    rw [if_pos held]
    exact positive state
  · intro state failed
    rw [if_neg (by simp [failed]), away]
    exact negative state

/-- The rounds of `t_while` and of `t_for`. -/
theorem Runs.loop {junction exit : Block} {next tail clear : Bool}
    {junctionExit continueJunction stack continue0 : Nat} {exposed : List Nat}
    {condition body third : State F O W → Ending F O W} {holds : State F O W → Bool}
    {state state1 state2 state3 : Emit F O}
    (continued : continue0 = if next then state.labels + 1 else state.labels)
    (branches : Branches runtime layout fuel final jumps frames
      (state.openLoop layout junction next) state1 (continue0 + 1) condition holds)
    (bodies : Runs runtime layout fuel final (jumps.loop junctionExit stack tail clear
      continueJunction exposed state1.labels continue0) frames state1.label state2 body)
    (thirds : Runs runtime layout fuel final jumps frames (state2.setTargetIf next continue0)
      state3 third)
    (skipped : next = false → ∀ state, third state = (.normal, state))
    (early : (state.openLoop layout junction next).Before state1) (middling : state1.label.Before state2)
    (late : (state2.setTargetIf next continue0).Before state3) (high : state3.stack = stack)
    (before : (state3.closeLoop layout exit state.labels (continue0 + 1) state1.labels
      clear).Before final) :
    Runs runtime layout fuel final jumps frames state
      (state3.closeLoop layout exit state.labels (continue0 + 1) state1.labels clear) fun first =>
        repeating condition holds body third
          (fun after =>
            let after := after.insertNulls (layout.nulls state3.privates exit)
            if clear then after else after.write layout.privates stack .null)
          fuel (first.insertNulls (layout.nulls state.privates junction)) := by
  have closed := (Emit.before_closeLoop layout exit state.labels (continue0 + 1) state1.labels
    clear state3).trans before
  have set := late.trans closed
  have opened := (early.trans ((Emit.Extends.label _).toBefore.trans middling)).trans
    ((Emit.before_setTargetIf next continue0 state2).trans set)
  have joined : (state.join layout junction).Before final := by
    refine Emit.Before.trans ?_ opened
    cases next <;> exact ⟨List.prefix_rfl, ⟨_, rfl⟩⟩
  have entered : (state.openLoop layout junction next).code = (state.join layout junction).code := by
    cases next <;> rfl
  have head : final.target state.labels =
      (state.openLoop layout junction next).code.length := by
    rw [entered]
    refine Emit.target_eq unique opened ?_
    cases next <;> exact Emit.mem_setTarget _ (state.join layout junction)
  have jumped : ((state3.emit (.jump state.labels [])).setTarget (continue0 + 1)).Before final :=
    (Emit.closeLoop_before layout exit _ _ _ clear state3).trans before
  have again := (Emit.before_setTarget (continue0 + 1) _).trans jumped
  have away : final.target (continue0 + 1) = state3.code.length + 1 := by
    rw [← state3.length_emit]
    exact Emit.target_eq unique jumped (Emit.mem_setTarget _ _)
  have behind : final.target state1.labels = (state3.closeLoop layout exit state.labels
      (continue0 + 1) state1.labels clear).code.length := by
    refine Emit.target_eq unique before ?_
    cases clear <;> exact Emit.mem_setTarget _ _
  have ended : Runs runtime layout fuel final jumps frames (state3.emit (.jump state.labels []))
      (state3.closeLoop layout exit state.labels (continue0 + 1) state1.labels clear)
      fun after => (.normal,
        let after := after.insertNulls (layout.nulls state3.privates exit)
        if clear then after else after.write layout.privates stack .null) := by
    have nulls : (((state3.emit (.jump state.labels [])).setTarget (continue0 + 1)).join layout
        exit).Before final := by
      refine Emit.Before.trans ?_ before
      cases clear
      · exact ⟨⟨_, rfl⟩, ⟨_, rfl⟩⟩
      · exact ⟨List.prefix_rfl, ⟨_, rfl⟩⟩
    cases clear with
    | true => exact (Runs.join exit nulls).of_code rfl rfl
    | false =>
        subst high
        have loaded : ((((state3.emit (.jump state.labels [])).setTarget (continue0 + 1)).join
            layout exit).emit (.load state3.stack .null)).Before final := by
          refine Emit.Before.trans ?_ before
          exact ⟨List.prefix_rfl, ⟨_, rfl⟩⟩
        have stored : Runs runtime layout fuel final jumps frames _ ((((state3.emit
            (.jump state.labels [])).setTarget (continue0 + 1)).join layout exit).emit
              (.load state3.stack .null))
            fun after => (.normal, after.write layout.privates state3.stack .null) :=
          Runs.straight loaded rfl fun _ => rfl
        exact ((Runs.join exit nulls).andThen stored).of_code rfl rfl
  have rounds : Runs runtime layout fuel final jumps frames (state.openLoop layout junction next)
      (state3.closeLoop layout exit state.labels (continue0 + 1) state1.labels clear)
      (repeating condition holds body third
        (fun after =>
          let after := after.insertNulls (layout.nulls state3.privates exit)
          if clear then after else after.write layout.privates stack .null) fuel) := by
    refine Simulates.repeating (.at (state.openLoop layout junction next).code.length frames)
      (.at state1.code.length frames) (.at (final.target (continue0 + 1)) frames)
      (.at (state2.setTargetIf next continue0).code.length frames)
      (.at state3.code.length frames) (fun state => ⟨_, _, rfl⟩) ?_ bodies thirds ?_ ?_
      ?_ ?_ ?_ ?_ (fun _ _ found => found) Jumps.exit_abnormal fuel (le_refl fuel)
    · exact fun fuel1 fewer => branches _ fuel1 fewer
    · intro after
      rw [away, ← state3.length_emit]
      exact ended after
    · intro after
      simp only [step, Emit.resolved_at again, Instr.resolve, execute, State.expose_nil, head]
    · intro after config found
      rw [Emit.code_setTargetIf]
      exact found
    · rintro after _ ⟨label, found, rfl⟩
      obtain rfl := Option.some.inj found
      exact congrArg (Config.at · frames after) behind
    · rintro after _ ⟨label, found, rfl⟩
      obtain rfl := Option.some.inj found
      cases next with
      | true =>
          refine Or.inl (congrArg (Config.at · frames after) ?_)
          exact Emit.target_eq unique (late.trans closed) (Emit.mem_setTarget continue0 state2)
      | false =>
          refine Or.inr ⟨congrArg (Config.at · frames after) ?_, skipped rfl after⟩
          rw [continued]
          exact head
    · intro completion after config normal continue_ break_ left
      cases completion with
      | normal => exact absurd rfl normal
      | continue_ => exact absurd rfl continue_
      | break_ => exact absurd rfl break_
      | _ => exact left
  exact ((Runs.join junction joined).of_code rfl entered).andThen rounds

/-- The operand of `YRT` leads to the outer target, by the code in between if the exit has any. -/
theorem Runs.outlet {blocks : Nat → Block} {junction : Nat} {outer : Option Nat}
    {height stack : Nat} {state middle popped : Emit F O} {completion : Completion F O}
    {made : Option Nat × Option Nat × Emit F O}
    (operand : state.operand outer (popped.needs layout blocks junction height stack) = made)
    (lasting : completion ≠ .timeout) (outward : jumps.allows completion = outer.isSome)
    (leaves : ∀ label, outer = some label → ∀ after : State F O W, jumps.exit final.target frames
      last.code.length completion after (.at (final.target label) frames after))
    (same : middle.privates = popped.privates)
    (before : (middle.rejoin layout made.2.1 outer (blocks junction) height stack).Before final) :
    Outlet runtime layout fuel final jumps frames last made.1 completion
      fun after => after.rejoin layout popped.privates stack (blocks junction) height := by
  intro allowed
  obtain ⟨label, rfl⟩ := Option.isSome_iff_exists.mp (outward ▸ allowed)
  subst operand
  cases direct : popped.needs layout blocks junction height stack with
  | true =>
      rw [direct] at before
      refine ⟨state.labels, rfl, ?_⟩
      have placed : final.target state.labels = middle.code.length :=
        Emit.target_eq unique ((Emit.rejoin_before layout _ _ _ _ _ middle).trans before)
          (Emit.mem_setTarget _ middle)
      intro after
      rw [placed, ← same]
      exact (Runs.rejoin lasting (leaves label rfl) before after).fewer (le_refl fuel)
        (Nat.zero_le 1)
  | false =>
      refine ⟨label, rfl, ?_⟩
      intro after
      simp only [Emit.needs, Bool.or_eq_false_iff, decide_eq_false_iff_not, Bool.not_eq_false',
        List.isEmpty_iff] at direct
      simp only [State.rejoin, if_neg direct.1, direct.2]
      exact Simulates.here lasting (leaves label rfl after)

/-- What `YRT` and the code behind it do, if each of its operands leads to its target. -/
theorem Runs.exitTry {blocks : Nat → Block} {breakStack stack : Nat}
    {own0 own1 own2 operand0 operand1 operand2 : Option Nat} {state : Emit F O}
    {break_ continue_ return_ : State F O W → State F O W}
    (left : (state.emit (.yrt operand0 operand1 operand2)).exitTry layout jumps blocks breakStack
      stack own0 own1 own2 = last)
    (before : last.Before final)
    (breaks : Outlet runtime layout fuel final jumps frames last operand0 .break_ break_)
    (continues : Outlet runtime layout fuel final jumps frames last operand1 .continue_ continue_)
    (returns : Outlet runtime layout fuel final jumps frames last operand2 .return_ return_)
    (frame : TryFrame F O) (completion : Completion F O) (after : State F O W)
    (config : Config F O W)
    (settled : jumps.settled state.code.length frame frames completion after config) :
    Simulates runtime layout.privates final.resolved
      (jumps.exit final.target frames last.code.length) fuel 1 config
      (leaving completion after break_ continue_ return_) := by
  have executed : (state.emit (.yrt operand0 operand1 operand2)).Before final := by
    refine Emit.Before.trans ?_ before
    rw [← left]
    exact Emit.before_exitTry layout jumps blocks breakStack stack own0 own1 own2 _
  have found := Emit.resolved_at executed
  have direct : ∀ {completion : Completion F O} {operand : Option Nat}
      {move : State F O W → State F O W} {leave : Leave} {after : State F O W},
      Outlet runtime layout fuel final jumps frames last operand completion move →
      jumps.allows completion = true →
      (∀ own, operand = some own → step runtime layout.privates final.resolved
          (.at state.code.length (frame.turn (.finishing leave) :: frames) after) =
        .at (final.target own) frames after) →
      Simulates runtime layout.privates final.resolved
        (jumps.exit final.target frames last.code.length) fuel 1
        (.at state.code.length (frame.turn (.finishing leave) :: frames) after)
        (completion, move after) := by
    intro completion operand move leave after outlet allowed moved
    obtain ⟨own, rfl, led⟩ := outlet allowed
    refine (Simulates.next ?_).fewer (Nat.le_succ fuel) (le_refl 1)
    rw [moved own rfl]
    exact led after
  obtain ⟨allowed, phase, shape, rfl⟩ := settled
  cases completion with
  | normal =>
      cases shape
      refine (Simulates.next ?_).fewer (Nat.le_succ fuel) (le_refl 1)
      have stepped : step runtime layout.privates final.resolved
          (.at state.code.length (frame.turn (.finishing .step) :: frames) after) =
            .at (state.emit (.yrt operand0 operand1 operand2)).code.length frames after := by
        simp only [step, found, Emit.length_emit]
        rfl
      rw [stepped]
      cases own : own0.isSome || own1.isSome || own2.isSome with
      | true =>
          have behind := Emit.exitTry_stepped layout jumps blocks breakStack stack own
            (state.emit (.yrt operand0 operand1 operand2))
          rw [left] at behind
          exact (Runs.jump (behind.1.trans before) (Emit.target_eq unique before behind.2)
            after).fewer (le_refl fuel) (Nat.zero_le 1)
      | false =>
          simp only [Bool.or_eq_false_iff, Option.isSome_eq_false_iff,
            Option.isNone_iff_eq_none] at own
          obtain ⟨⟨rfl, rfl⟩, rfl⟩ := own
          rw [Emit.exitTry_plain] at left
          exact Simulates.normal (by rw [left]; rfl)
  | break_ =>
      cases shape
      refine direct breaks allowed ?_
      rintro own rfl
      simp only [step, found]
      rfl
  | continue_ =>
      cases shape
      refine direct continues allowed ?_
      rintro own rfl
      simp only [step, found]
      rfl
  | return_ =>
      cases shape
      refine direct returns allowed ?_
      rintro own rfl
      simp only [step, found]
      rfl
  | threw thrown =>
      cases shape
      refine (Simulates.next (Simulates.here (by rintro ⟨⟩) ?_)).fewer (Nat.le_succ fuel) (le_refl 1)
      simp only [step, found]
      rfl
  | returned value => cases shape
  | timeout => cases shape

/-- From behind the finally block to where a try is left. -/
theorem Runs.closeTry {blocks : Nat → Block} {stack : Nat} {isSome clear : Bool}
    {state : Emit F O} (before : (state.closeTry layout blocks jumps stack isSome clear).Before final)
    (frame : TryFrame F O) (completion : Completion F O) (after : State F O W)
    (config : Config F O W)
    (settled : jumps.settled state.code.length frame frames completion after config) :
    Simulates runtime layout.privates final.resolved (jumps.exit final.target frames
        (state.closeTry layout blocks jumps stack isSome clear).code.length) fuel 1 config
      (leaving completion after
        (fun after => after.rejoin layout state.privates stack (blocks jumps.breakJunction)
          (if jumps.breakMustClear then stack else jumps.breakStack))
        (fun after => after.rejoin layout state.privates stack (blocks jumps.continueJunction) stack)
        (fun after => after.rejoin layout state.privates stack (blocks jumps.returnJunction)
          jumps.returnStack)) := by
  have shape := Emit.closeTry_eq layout blocks jumps stack isSome clear state
  have popped : (if isSome then state.popIf clear else state).code = state.code ∧
      (if isSome then state.popIf clear else state).privates = state.privates := by
    cases isSome <;> cases clear <;> exact ⟨rfl, rfl⟩
  dsimp only at shape
  generalize (if isSome then state.popIf clear else state) = inner at shape popped
  generalize (if jumps.breakMustClear then stack else jumps.breakStack) = breakStack at shape ⊢
  rw [← popped.2]
  rw [← popped.1] at settled
  have kept0 := Emit.operand_code jumps.break_
    (inner.needs layout blocks jumps.breakJunction breakStack stack) inner
  generalize made0 : inner.operand jumps.break_ (inner.needs layout blocks jumps.breakJunction
    breakStack stack) = breaks at shape kept0
  have kept1 := Emit.operand_code jumps.continue_
    (inner.needs layout blocks jumps.continueJunction stack stack) breaks.2.2
  generalize made1 : breaks.2.2.operand jumps.continue_ (inner.needs layout blocks
    jumps.continueJunction stack stack) = continues at shape kept1
  have kept2 := Emit.operand_code jumps.return_
    (inner.needs layout blocks jumps.returnJunction jumps.returnStack stack) continues.2.2
  generalize made2 : continues.2.2.operand jumps.return_ (inner.needs layout blocks
    jumps.returnJunction jumps.returnStack stack) = returns at shape kept2
  obtain ⟨middle, same, rejoined⟩ := Emit.exitTry_rejoins layout jumps blocks breakStack stack
    breaks.2.1 continues.2.1 returns.2.1 (returns.2.2.emit (.yrt breaks.1 continues.1 returns.1))
  rw [← shape] at rejoined
  have ended2 := rejoined.trans before
  have ended1 := (Emit.before_rejoin ..).trans ended2
  have ended0 := (Emit.before_rejoin ..).trans ended1
  have privates0 : middle.privates = inner.privates := by
    rw [same, Emit.privates_emit, kept2.2.2.2, kept1.2.2.2, kept0.2.2.2]
  have privates1 := (Emit.stack_rejoin layout (blocks jumps.breakJunction) breaks.2.1 jumps.break_
    breakStack stack middle).2.trans privates0
  have privates2 := (Emit.stack_rejoin layout (blocks jumps.continueJunction) continues.2.1
    jumps.continue_ stack stack _).2.trans privates1
  refine Runs.exitTry unique shape.symm before
    (Runs.outlet unique made0 (by rintro ⟨⟩) rfl ?_ privates0 ended0)
    (Runs.outlet unique made1 (by rintro ⟨⟩) rfl ?_ privates1 ended1)
    (Runs.outlet unique made2 (by rintro ⟨⟩) rfl ?_ privates2 ended2) frame completion after config ?_
  · exact fun label found after => ⟨label, found, rfl⟩
  · exact fun label found after => ⟨label, found, rfl⟩
  · exact fun label found after => ⟨label, found, rfl⟩
  · rwa [kept2.1, kept1.1, kept0.1]

/-- `t_try` -/
theorem Runs.try_ {blocks : Nat → Block} {base junctionFinally : Nat} {isSome clear : Bool}
    {exposed : List Nat} {frame : TryFrame F O} {body finally_ : State F O W → Ending F O W}
    {catches : Value F O → State F O W → Ending F O W} {state state1 state2 state3 : Emit F O}
    (same : frame = ⟨state.stack, final.target state.labels, final.target (state.labels + 1),
      exposed, .body⟩)
    (bodies : Runs runtime layout fuel final (jumps.try_ junctionFinally state.stack state.labels)
      (frame :: frames) (state.openTry layout (blocks base) exposed) state1 body)
    (clauses : ∀ thrown after, Simulates runtime layout.privates final.resolved
      ((jumps.try_ junctionFinally state.stack state.labels).clause final.target frame thrown
        frames) fuel 1
      (.at (state1.openCatches state.labels).code.length (frame.turn (.catching thrown) :: frames)
        after) (catches thrown after))
    (finals : ∀ completion phase, Completion.phase completion = some phase →
      Runs runtime layout fuel final Jumps.absent (frame.turn phase :: frames)
        (state2.openFinally state.labels isSome clear) state3 finally_)
    (first : (state.openTry layout (blocks base) exposed).Before state1)
    (second : (state1.openCatches state.labels).Before state2)
    (third : (state2.openFinally state.labels isSome clear).Before state3)
    (before : (state3.closeTry layout blocks jumps state.stack isSome clear).Before final) :
    Runs runtime layout fuel final jumps frames state
      (state3.closeTry layout blocks jumps state.stack isSome clear) fun after =>
        attempting body (fun thrown after => catches thrown (after.expose exposed)) finally_
          (fun after => after.rejoin layout state3.privates state.stack (blocks jumps.breakJunction)
            (if jumps.breakMustClear then state.stack else jumps.breakStack))
          (fun after => after.rejoin layout state3.privates state.stack
            (blocks jumps.continueJunction) state.stack)
          (fun after => after.rejoin layout state3.privates state.stack (blocks jumps.returnJunction)
            jumps.returnStack)
          (after.insertNulls (layout.nulls state.privates (blocks base))) := by
  have closed := (Emit.extends_closeTry layout blocks jumps state.stack isSome clear
    state3).toBefore.trans before
  have finalized := third.trans closed
  have caught := second.trans ((Emit.before_openFinally state.labels isSome clear state2).trans
    finalized)
  have opened := first.trans ((Emit.before_openCatches state.labels state1).trans caught)
  have tried : ((state.join layout (blocks base)).emit (.try_ state.stack state.labels
      (state.labels + 1) exposed)).Before final := by
    refine Emit.Before.trans ?_ opened
    exact Emit.Before.of_eq rfl rfl
  have catchPc : final.target state.labels = (state1.openCatches state.labels).code.length :=
    Emit.target_eq unique caught (Emit.mem_setTarget _ (state1.emit (.finally_ .step)))
  have height : (state2.openFinally state.labels isSome clear).code.length =
      state2.code.length + 4 := by
    simp [Emit.code_openFinally]
  have finallyPc : frame.finally_ = (state2.openFinally state.labels isSome clear).code.length := by
    rw [same, height]
    exact Emit.target_eq unique finalized (by simp [Emit.targets_openFinally])
  have bodyFrame : frame.turn .body = frame := by
    rw [same]
    rfl
  have settle : ∀ phase, (phase = .body ∨ ∃ thrown, phase = .catching thrown) →
      ∀ pc completion after config, completion ≠ .normal →
        (∀ thrown, completion ≠ .threw thrown) →
        (jumps.try_ junctionFinally state.stack state.labels).exit final.target
          (frame.turn phase :: frames) pc completion after config →
        Simulates runtime layout.privates final.resolved
          (jumps.settled frame.finally_ frame frames) fuel 1 config (completion, after) := by
    intro phase attempting pc completion after config abnormal unthrown left
    have landed : ∀ (outer : Option Nat) (own offset : Nat) (leave : Leave) {label : Nat},
        outer.map (fun _ => own) = some label →
        (own, state2.code.length + offset) ∈
          (state2.openFinally state.labels isSome clear).targets →
        (state2.openFinally state.labels isSome clear).code[state2.code.length + offset]? =
          some (.finally_ leave) →
        outer.isSome = true ∧ final.resolved[final.target label]? = some (.finally_ leave) := by
      intro outer own offset leave label found set code
      obtain ⟨_, rfl, rfl⟩ := Option.map_eq_some_iff.mp found
      rw [Emit.target_eq unique finalized set]
      exact ⟨rfl, Emit.resolved_get finalized code⟩
    cases completion with
    | normal => exact absurd rfl abnormal
    | threw thrown => exact absurd rfl (unthrown thrown)
    | break_ =>
        obtain ⟨label, found, rfl⟩ := left
        obtain ⟨outward, found⟩ := landed jumps.break_ (state.labels + 2) 1 .break_ found
          (by simp [Emit.targets_openFinally]) (by simp [Emit.code_openFinally])
        exact Runs.finally_ found (by rintro ⟨⟩) attempting (by rintro ⟨⟩)
          ⟨outward, _, rfl, rfl⟩
    | continue_ =>
        obtain ⟨label, found, rfl⟩ := left
        obtain ⟨outward, found⟩ := landed jumps.continue_ (state.labels + 3) 2 .continue_ found
          (by simp [Emit.targets_openFinally]) (by simp [Emit.code_openFinally])
        exact Runs.finally_ found (by rintro ⟨⟩) attempting (by rintro ⟨⟩)
          ⟨outward, _, rfl, rfl⟩
    | return_ =>
        obtain ⟨label, found, rfl⟩ := left
        obtain ⟨outward, found⟩ := landed jumps.return_ (state.labels + 4) 3 .return_ found
          (by simp [Emit.targets_openFinally]) (by simp [Emit.code_openFinally])
        exact Runs.finally_ found (by rintro ⟨⟩) attempting (by rintro ⟨⟩)
          ⟨outward, _, rfl, rfl⟩
    | returned value => exact absurd left.1 (List.cons_ne_nil _ _)
    | timeout => exact left.elim
  have ending : (state1.emit (.finally_ .step)).Before final :=
    (Emit.before_setTarget state.labels _).trans caught
  have stepped := Emit.resolved_at ending
  have attempted : ∀ after, Simulates runtime layout.privates final.resolved
      (jumps.settled frame.finally_ frame frames) fuel 1
      (.at (state.openTry layout (blocks base) exposed).code.length (frame :: frames) after)
      (catching (fun thrown after => catches thrown (after.expose exposed)) (body after)) := by
    intro after
    refine (bodies after).catching ?_ ?_
    · intro completion after config unthrown left
      cases completion with
      | normal =>
          obtain rfl : config = _ := left
          rw [← bodyFrame]
          exact Runs.finally_ stepped (by rintro ⟨⟩) (Or.inl rfl) (by rintro ⟨⟩)
            ⟨rfl, _, rfl, rfl⟩
      | _ => exact settle .body (Or.inl rfl) _ _ after config (by rintro ⟨⟩) unthrown (bodyFrame ▸ left)
    · intro thrown after config left
      obtain rfl : config = _ := left
      have entered : Config.unwind (frame :: frames) thrown after =
          .at (state1.openCatches state.labels).code.length
            (frame.turn (.catching thrown) :: frames) (after.expose exposed) := by
        rw [← catchPc, same]
        rfl
      rw [entered]
      refine (clauses thrown _).onward ?_
      intro completion after config left
      cases completion with
      | normal => exact Simulates.normal ⟨rfl, _, rfl, left⟩
      | threw other =>
          exact Simulates.here (by rintro ⟨⟩) ⟨rfl, _, rfl, left⟩
      | _ =>
          exact Simulates.fewer (settle (.catching thrown) (Or.inr ⟨thrown, rfl⟩) 0 _ after config
            (by rintro ⟨⟩) (by rintro _ ⟨⟩) left) (le_refl fuel) (Nat.zero_le 1)
  have joined := (Emit.Extends.emit (.try_ state.stack state.labels (state.labels + 1) exposed)
    (state.join layout (blocks base))).toBefore.trans tried
  intro entry
  have filled : Runs runtime layout fuel final jumps frames state _ _ :=
    Runs.join (blocks base) joined
  refine Simulates.fewer (Simulates.after (filled entry) ?_) (Nat.zero_add fuel).ge
    (Nat.zero_add 1).ge
  rintro _ rfl
  dsimp only
  generalize entry.insertNulls (layout.nulls state.privates (blocks base)) = after
  refine (Simulates.next ?_).fewer (Nat.le_succ fuel) (le_refl 1)
  have entered : step runtime layout.privates final.resolved
      (.at (state.join layout (blocks base)).code.length frames after) =
        .at (state.openTry layout (blocks base) exposed).code.length (frame :: frames) after := by
    simp only [step, Emit.resolved_at tried, same]
    exact congrArg (Config.at · _ after) (Emit.length_emit _ _).symm
  rw [entered]
  refine (Simulates.attempting (attempted after) ?_).fewer (le_refl fuel) (Nat.zero_le 1)
  rintro completion after config ⟨allowed, phase, shape, rfl⟩
  rw [finallyPc]
  refine (finals completion phase shape after).andThen ?_ ?_
  · intro ended after config abnormal left
    cases ended with
    | normal => exact absurd rfl abnormal
    | threw thrown =>
        obtain rfl : config = _ := left
        cases completion <;> cases shape <;> rfl
    | returned value => exact absurd left.1 (List.cons_ne_nil _ _)
    | timeout => exact left.elim
    | _ =>
        obtain ⟨label, found, _⟩ := left
        exact absurd found (by rintro ⟨⟩)
  · intro after config left
    exact Runs.closeTry unique before frame completion after config ⟨allowed, phase, shape, left⟩

theorem Runs.clause {isShared : Bool} {index stack : Nat} {frame : TryFrame F O}
    {thrown : Value F O} {expression body tail : State F O W → Ending F O W}
    {state state1 state2 : Emit F O} (same : frame.stack = stack)
    (expressions : Runs runtime layout fuel final jumps (frame.turn (.catching thrown) :: frames)
      state state1 expression)
    (bodies : Runs runtime layout fuel final jumps (frame.turn (.catching thrown) :: frames)
      (state1.openClause isShared index) state2 body)
    (tails : ∀ after, Simulates runtime layout.privates final.resolved
      (jumps.clause final.target frame thrown frames) fuel 1
      (.at (state2.openCatches state1.labels).code.length
        (frame.turn (.catching thrown) :: frames) after) (tail after))
    (middle : (state1.openClause isShared index).Before state2)
    (before : (state2.openCatches state1.labels).Before final) (after : State F O W) :
    Simulates runtime layout.privates final.resolved
      (jumps.clause final.target frame thrown frames) fuel 1
      (.at state.code.length (frame.turn (.catching thrown) :: frames) after)
      (Xemmai.andThen (expression after) fun after =>
        match runtime.catches thrown (after.slot stack) after.world with
        | (.error other, world) => (.threw other, after.setWorld world)
        | (.ok false, world) => tail (after.setWorld world)
        | (.ok true, world) =>
            body (if isShared then after.setWorld (runtime.scopePut 0 index thrown world)
              else (after.setWorld world).write layout.privates index thrown)) := by
  have caught := (Emit.before_openCatches state1.labels state2).trans before
  have opened : (state1.emit (.catch_ state1.labels isShared index)).Before final := by
    refine Emit.Before.trans ?_ (middle.trans caught)
    exact Emit.Before.of_eq rfl rfl
  have next : final.target state1.labels = (state2.openCatches state1.labels).code.length :=
    Emit.target_eq unique before (Emit.mem_setTarget _ (state2.emit (.finally_ .step)))
  have ended := Emit.resolved_at ((Emit.before_setTarget state1.labels
    (state2.emit (.finally_ .step))).trans before)
  have abnormal : ∀ pc completion after (config : Config F O W), completion ≠ .normal →
      jumps.exit final.target (frame.turn (.catching thrown) :: frames) pc completion after config →
      jumps.clause final.target frame thrown frames completion after config := by
    intro pc completion after config abnormal left
    cases completion with
    | normal => exact absurd rfl abnormal
    | _ => exact left
  refine (expressions after).andThen (abnormal _) ?_
  rintro after _ rfl
  refine (Simulates.next ?_).fewer (Nat.le_succ fuel) (le_refl 1)
  have moved : step runtime layout.privates final.resolved
      (.at state1.code.length (frame.turn (.catching thrown) :: frames) after) =
        execute runtime layout.privates state1.code.length (frame.turn (.catching thrown) :: frames)
          after (.catch_ (final.target state1.labels) isShared index) := by
    simp only [step, Emit.resolved_at opened]
    rfl
  rw [moved, next]
  subst same
  simp only [execute, TryFrame.turn]
  rcases runtime.catches thrown (after.slot frame.stack) after.world with ⟨result, world⟩
  cases result with
  | error other => exact Simulates.here (by rintro ⟨⟩) rfl
  | ok taken =>
      cases taken with
      | false => exact (tails _).fewer (le_refl fuel) (Nat.zero_le 1)
      | true =>
          have leads : ∀ after, Simulates runtime layout.privates final.resolved
              (jumps.clause final.target frame thrown frames) fuel 0
              (.at (state1.code.length + 1) (frame.turn (.catching thrown) :: frames) after)
              (body after) := by
            intro after
            have entered : (state1.openClause isShared index).code.length =
                state1.code.length + 1 := Emit.length_emit _ state1
            rw [← entered]
            refine ((bodies after).fewer (le_refl fuel) (Nat.zero_le 1)).onward ?_
            intro completion after config left
            cases completion with
            | normal =>
                obtain rfl : config = _ := left
                exact Simulates.fewer (Runs.finally_ ended (by rintro ⟨⟩) (Or.inr ⟨thrown, rfl⟩)
                  (by rintro ⟨⟩) rfl) (le_refl fuel) (Nat.zero_le 1)
            | timeout => exact left.elim
            | _ => exact Simulates.here (by rintro ⟨⟩) left
          cases isShared with
          | true => exact leads _
          | false => exact leads _

end Constructs

/-- `t_literal::f_emit` and `t_null::f_emit` -/
theorem Runs.literal {found form : Operand F O} {value : Value F O} {tail operand clear : Bool}
    (emitted : first.literal found value tail operand clear = (form, last))
    (before : last.Before final) (outermost : tail = true → frames = []) :
    Runs runtime layout fuel final jumps frames first last
      (literally layout.privates value tail operand clear first.stack) := by
  intro entry
  unfold Emit.literal at emitted
  unfold literally
  cases operand with
  | true =>
      cases emitted
      exact Runs.skip rfl entry
  | false =>
      cases clear with
      | true =>
          cases emitted
          exact Runs.skip rfl entry
      | false =>
          cases tail with
          | true =>
              cases emitted
              obtain rfl := outermost rfl
              have left : Runs runtime layout fuel final jumps [] first
                  (first.emit (.returnLoad value)).push fun after => (.returned value, after) :=
                Runs.leave ((Emit.Extends.push _).toBefore.trans before)
                  (fun _ => by rintro ⟨⟩) fun _ => ⟨rfl, rfl⟩
              exact left entry
          | false =>
              cases emitted
              exact Runs.straight ((Emit.Extends.push _).toBefore.trans before) rfl
                (fun _ => rfl) entry

theorem Runs.mention {variable_ : Nat} (unshared : (layout.variableOf variable_).isShared = false)
    (before : (first.mention layout variable_).Before final) :
    Runs runtime layout fuel final jumps frames first (first.mention layout variable_) fun after =>
      (.normal, after.know layout first.privates (layout.variableOf variable_).index) := by
  intro entry
  unfold Emit.mention at before ⊢
  unfold State.know
  dsimp only
  cases named : layout.slot variable_ with
  | none =>
      have argument := Layout.slot_eq_none named unshared
      rw [if_neg (by simp [argument])]
      exact Runs.skip rfl entry
  | some slot =>
      obtain ⟨_, rfl, high⟩ := Layout.slot_eq_some named
      rw [named] at before
      unfold Emit.known at before ⊢
      dsimp only at before ⊢
      cases present : first.privates (layout.variableOf variable_).index with
      | true =>
          rw [if_pos rfl, if_neg (by simp)]
          exact Runs.skip rfl entry
      | false =>
          rw [if_neg (by simp), if_pos (by simpa using high)]
          rw [present, if_neg (by simp)] at before
          exact Runs.straight ⟨before.code, before.targets⟩ rfl (fun _ => rfl) entry

theorem Operand.fetch_constant {form : Operand F O} {value : Value F O}
    (constant : form.constant = some value) (temporary : Value F O) (state : State F O W) :
    state.fetch form temporary = value := by
  cases form <;> simp_all [Operand.constant, State.fetch]

/-- What a call does of its target. -/
def Node.performTarget [Double F] (layout : Layout) (blocks : Nat → Block)
    (runtime : Runtime F O W) (fuel : Nat) (exits : Exits) (base : Nat) (privates : Nat → Bool)
    (stack : Nat) (target : Node F O) (state : State F O W) : Ending F O W :=
  match target with
  | .operate (.objectGet key) operands =>
      andThen (operands.performValues layout blocks runtime fuel exits base privates stack state)
        (bind runtime layout.privates (.methodGet key) stack)
  | .operate .getAt operands =>
      andThen (operands.performValues layout blocks runtime fuel exits base privates stack state)
        (bind runtime layout.privates .methodBind stack)
  | target =>
      andThen (target.perform layout blocks runtime fuel exits base privates stack false false false
        state) fun state => (.normal, state.write layout.privates (stack + 1) .null)

section Trees

variable [Double F] {blocks : Nat → Block}

section Statements

variable (runtime : Runtime F O W) (layout : Layout) (fuel : Nat) (final : Emit F O)
variable (blocks : Nat → Block)

/-- What is emitted for a node does what the node does. -/
def Node.Simulated (node : Node F O) : Prop :=
  ∀ (base : Nat) (tail operand clear : Bool) (jumps : Jumps) (frames : List (TryFrame F O))
    {state after : Emit F O} {form : Operand F O}
    (_ : node.emit layout blocks jumps base tail operand clear state = some (form, after))
    (_ : node.isFormed = true) (_ : after.Before final) (_ : jumps.Outermost tail frames),
    Runs runtime layout fuel final jumps frames state after
      (node.perform layout blocks runtime fuel jumps.toExits base state.privates state.stack tail
        operand clear)

def Nodes.SequenceSimulated (nodes : Nodes F O) : Prop :=
  ∀ (base : Nat) (tail clear : Bool) (jumps : Jumps) (frames : List (TryFrame F O))
    {state after : Emit F O}
    (_ : nodes.emitSequence layout blocks jumps base tail clear state = some after)
    (_ : nodes.isFormed = true) (_ : after.Before final) (_ : jumps.Outermost tail frames),
    Runs runtime layout fuel final jumps frames state after
      (nodes.performSequence layout blocks runtime fuel jumps.toExits base state.privates
        state.stack tail clear)

def Nodes.ValuesSimulated (nodes : Nodes F O) : Prop :=
  ∀ (base : Nat) (jumps : Jumps) (frames : List (TryFrame F O)) {state after : Emit F O}
    (_ : nodes.emitValues layout blocks jumps base state = some after)
    (_ : nodes.isFormed = true) (_ : after.Before final) (_ : jumps.Outermost false frames),
    Runs runtime layout fuel final jumps frames state after
      (nodes.performValues layout blocks runtime fuel jumps.toExits base state.privates
        state.stack)

/-- The clauses begin with what has been thrown, in the frame of their try. -/
def Catches.Simulated (catches : Catches F O) : Prop :=
  ∀ (base : Nat) (clear : Bool) (jumps : Jumps) (frames : List (TryFrame F O))
    (frame : TryFrame F O) {state after : Emit F O}
    (_ : catches.emit layout blocks jumps base clear state = some after)
    (_ : catches.isFormed = true) (_ : (after.emit (.finally_ .throw_)).Before final)
    (_ : ∀ frames : List (TryFrame F O), jumps.Outermost false frames)
    (_ : clear = true ∨ 0 < state.stack) (_ : frame.stack = (state.popIf !clear).stack)
    (thrown : Value F O) (entry : State F O W),
    Simulates runtime layout.privates final.resolved
      (jumps.clause final.target frame thrown frames) fuel 1
      (.at state.code.length (frame.turn (.catching thrown) :: frames) entry)
      (catches.perform layout blocks runtime fuel jumps.toExits base state.privates frame.stack clear
        thrown entry)

def Optional.ConditionSimulated (optional : Optional F O) : Prop :=
  ∀ (base label : Nat) (jumps : Jumps) (frames : List (TryFrame F O)) {state after : Emit F O}
    (_ : optional.emitCondition layout blocks jumps base label state = Option.some after)
    (_ : optional.isFormed = true) (_ : after.Before final) (_ : jumps.Outermost false frames),
    Branches runtime layout fuel final jumps frames state after label
      (optional.performOptional layout blocks runtime fuel jumps.toExits base state.privates
        state.stack false) (optional.holds state.stack)

def Optional.ClearedSimulated (optional : Optional F O) : Prop :=
  ∀ (base : Nat) (jumps : Jumps) (frames : List (TryFrame F O)) {state after : Emit F O}
    (_ : optional.emitCleared layout blocks jumps base state = Option.some after)
    (_ : optional.isFormed = true) (_ : after.Before final) (_ : jumps.Outermost false frames),
    Runs runtime layout fuel final jumps frames state after
      (optional.performOptional layout blocks runtime fuel jumps.toExits base state.privates
        state.stack true)

end Statements

section Simulated

theorem Node.Simulated.nodes {items : Nodes F O}
    (sequence : items.SequenceSimulated runtime layout fuel final blocks) :
    (Node.nodes items).Simulated runtime layout fuel final blocks := by
  intro base tail operand clear jumps frames state after form emitted formed before outermost
  simp only [Node.emit, Option.bind_eq_bind, Option.bind_eq_some_iff, Option.some.injEq,
    Prod.mk.injEq] at emitted
  obtain ⟨_, first, rfl, rfl⟩ := emitted
  intro entry
  rw [Node.perform]
  rw [Node.isFormed] at formed
  exact sequence base tail clear jumps frames first formed before outermost entry

theorem Node.Simulated.operate {action : Action} {operands : Nodes F O}
    (each : operands.ValuesSimulated runtime layout fuel final blocks) :
    (Node.operate action operands).Simulated runtime layout fuel final blocks := by
  intro base tail operand clear jumps frames state after form emitted formed before outermost
  simp only [Node.emit, Option.bind_eq_bind, Option.bind_eq_some_iff, Option.some.injEq,
    Prod.mk.injEq] at emitted
  obtain ⟨state1, first, rfl, rfl⟩ := emitted
  intro entry
  rw [Node.perform]
  simp only [Node.isFormed, Bool.and_eq_true] at formed
  have values := each base jumps frames first formed.2
    (((Emit.Extends.atStack _ _).trans (Emit.Extends.finish _ _ _)).toBefore.trans before)
    outermost.plain
  have delivered : Runs runtime layout fuel final jumps frames (state1.atStack state.stack) _
      fun after => deliver layout.privates (tail && action.isIndexing) state.stack after
        (runtime.operate action (after.operands
          (if action.isIndexing then state.stack + 1 else state.stack) operands.length)
            after.world) :=
    Runs.finish before (fun tails => outermost.tail (by simp_all)) fun _ => rfl
  have entered : (state.pushUnless !action.isIndexing).code = state.code := by
    cases action.isIndexing <;> rfl
  have height : (state.pushUnless !action.isIndexing).stack =
      if action.isIndexing then state.stack + 1 else state.stack := by
    cases action.isIndexing <;> rfl
  rw [Emit.privates_pushUnless, height] at values
  exact ((values.of_code entered rfl).andThen delivered) entry

theorem Node.Simulated.if_ {condition : Optional F O} {true_ false_ : Node F O}
    (unique : ∀ label, final.sets label ≤ 1)
    (tested : condition.ConditionSimulated runtime layout fuel final blocks)
    (yes : true_.Simulated runtime layout fuel final blocks)
    (no : false_.Simulated runtime layout fuel final blocks) :
    (Node.if_ condition true_ false_).Simulated runtime layout fuel final blocks := by
  intro base tail operand clear jumps frames state after form emitted formed before outermost
  simp only [Node.emit_if, Option.bind_eq_bind, Option.bind_eq_some_iff, Prod.exists,
    Option.some.injEq, Prod.mk.injEq] at emitted
  obtain ⟨state1, emitted1, _, state2, emitted2, _, state3, emitted3, rfl, rfl⟩ := emitted
  simp only [Node.isFormed, Bool.and_eq_true] at formed
  have first := condition.condition_emitted layout blocks jumps _ _ emitted1
  have second := Emitted.plain (true_.emitted layout blocks jumps _ tail false clear emitted2)
  have third := Emitted.plain (false_.emitted layout blocks jumps _ tail false clear emitted3)
  have closed := (Emit.before_closeIf layout _ state2.labels state3).trans before
  have middle := third.toBefore.trans closed
  have turned := (Emit.before_elseIf layout _ state.labels state1 state2).trans middle
  have branches := tested base state.labels jumps frames emitted1 formed.1.1
    (second.toBefore.trans turned) outermost.plain
  have trues := yes _ tail false clear jumps frames emitted2 formed.1.2 turned outermost
  have falses := no _ tail false clear jumps frames emitted3 formed.2 closed outermost
  have whole := Runs.if_ unique branches trues falses third.toBefore before
  intro entry
  rw [Node.perform]
  have entered : (Emit.elseIf layout (blocks (base + condition.blocks + 1 + true_.blocks + 1 +
      false_.blocks)) state.labels state1 state2).privates = state1.privates ∧
    (Emit.elseIf layout (blocks (base + condition.blocks + 1 + true_.blocks + 1 +
      false_.blocks)) state.labels state1 state2).stack = state1.stack := ⟨rfl, rfl⟩
  rw [second.privates, third.privates, entered.1, entered.2, first.privates, first.stack]
    at whole
  exact whole entry

theorem Node.Simulated.while_ {condition : Optional F O} {body : Node F O}
    (unique : ∀ label, final.sets label ≤ 1)
    (tested : condition.ConditionSimulated runtime layout fuel final blocks)
    (turn : body.Simulated runtime layout fuel final blocks) :
    (Node.while_ condition body).Simulated runtime layout fuel final blocks := by
  intro base tail operand clear jumps frames state after form emitted formed before outermost
  simp only [Node.emit_while, Option.bind_eq_bind, Option.bind_eq_some_iff, Prod.exists,
    Option.some.injEq, Prod.mk.injEq] at emitted
  obtain ⟨state1, emitted1, _, state2, emitted2, rfl, rfl⟩ := emitted
  simp only [Node.isFormed, Bool.and_eq_true] at formed
  have first := condition.condition_emitted layout blocks _ _ _ emitted1
  have second := (body.emitted layout blocks _ _ false false true emitted2).1
  have entered := Emit.stack_openLoop layout (blocks base) false state
  have closed := (Emit.before_closeLoop layout _ _ _ _ _ state2).trans before
  have middle := second.toBefore.trans closed
  have branches := tested _ _ jumps frames emitted1 formed.1
    ((Emit.Extends.label state1).toBefore.trans middle) outermost.plain
  have bodies := turn _ false false true _ frames emitted2 formed.2 closed outermost.loop
  have nothing : Runs runtime layout fuel final jumps frames (state2.setTargetIf false state.labels)
      state2 fun after => (.normal, after) := Runs.skip rfl
  have height : state2.stack = state1.stack := by simpa using second.stack
  have whole := Runs.loop unique rfl branches bodies nothing (fun _ _ => rfl) first.toBefore
    second.toBefore (Emit.Before.refl _) height before
  intro entry
  rw [Node.perform]
  rw [second.privates, Emit.privates_label, Emit.stack_label, first.privates, first.stack,
    entered.1, entered.2] at whole
  exact whole entry

theorem Node.Simulated.for_ {initialization condition next : Optional F O} {body : Node F O}
    (unique : ∀ label, final.sets label ≤ 1)
    (begun : initialization.ClearedSimulated runtime layout fuel final blocks)
    (tested : condition.ConditionSimulated runtime layout fuel final blocks)
    (stepped : next.ClearedSimulated runtime layout fuel final blocks)
    (turn : body.Simulated runtime layout fuel final blocks) :
    (Node.for_ initialization condition next body).Simulated runtime layout fuel final blocks := by
  intro base tail operand clear jumps frames state after form emitted formed before outermost
  simp only [Node.emit_for, Option.bind_eq_bind, Option.bind_eq_some_iff, Prod.exists,
    Option.some.injEq, Prod.mk.injEq] at emitted
  obtain ⟨state0, emitted0, state1, emitted1, _, state2, emitted2, state3, emitted3, rfl,
    rfl⟩ := emitted
  simp only [Node.isFormed, Bool.and_eq_true] at formed
  have zeroth := initialization.cleared_emitted layout blocks _ _ emitted0
  have first := condition.condition_emitted layout blocks _ _ _ emitted1
  have second := (body.emitted layout blocks _ _ false false true emitted2).1
  have third := next.cleared_emitted layout blocks _ _ emitted3
  have entered := Emit.stack_openLoop layout (blocks (base + initialization.blocks))
    next.isSome state0
  have closed := (Emit.before_closeLoop layout _ _ _ _ _ state3).trans before
  have late := third.toBefore.trans closed
  have middle := second.toBefore.trans ((Emit.before_setTargetIf _ _ state2).trans late)
  have early := first.toBefore.trans ((Emit.Extends.label state1).toBefore.trans middle)
  have initial := begun base jumps frames emitted0 formed.1.1.1
    ((Emit.before_openLoop layout _ _ state0).trans early) outermost.plain
  have branches := tested _ _ jumps frames emitted1 formed.1.1.2
    ((Emit.Extends.label state1).toBefore.trans middle) outermost.plain
  have bodies := turn _ false false true _ frames emitted2 formed.2
    ((Emit.before_setTargetIf _ _ state2).trans late) outermost.loop
  have thirds := stepped _ jumps frames emitted3 formed.1.2 closed outermost.plain
  have turned := Emit.stack_setTargetIf next.isSome
    (if next.isSome then state0.labels + 1 else state0.labels) state2
  have height : state3.stack = state1.stack := by
    rw [third.stack, turned.1, second.stack]
    simp
  have whole := Runs.loop unique rfl branches bodies thirds ?_ first.toBefore second.toBefore
    third.toBefore height before
  · intro entry
    rw [Node.perform]
    rw [third.privates, turned.1, turned.2, second.privates, second.stack, lift_true,
      Nat.add_zero, Emit.privates_label, Emit.stack_label, first.privates, first.stack,
      entered.1, entered.2, zeroth.privates, zeroth.stack] at whole
    exact initial.andThen whole entry
  · intro missing entry
    cases next with
    | none => rfl
    | some node => exact absurd missing (by simp [Optional.isSome])

theorem Node.Simulated.break_ {expression : Node F O}
    (given : expression.Simulated runtime layout fuel final blocks) :
    (Node.break_ expression).Simulated runtime layout fuel final blocks := by
  intro base tail operand clear jumps frames state after form emitted formed before outermost
  simp only [Node.emit, Option.bind_eq_bind, Option.bind_eq_some_iff, Prod.exists,
    Option.some.injEq, Prod.mk.injEq] at emitted
  obtain ⟨break0, outward, _, state1, first, rfl, same⟩ := emitted
  have jumped := before
  rw [← same] at jumped
  intro entry
  rw [Node.perform]
  have shape := (expression.emitted layout blocks _ _ _ false _ first).1
  have entered : ((state1.atStack state.stack).pushUnless clear).code = state1.code := by
    cases clear <;> rfl
  rw [Node.isFormed] at formed
  have value := given base jumps.breakIsTail false jumps.breakMustClear jumps frames
    first formed (((Emit.Extends.atStack _ _).trans ((Emit.Extends.pushUnless _ _).trans
      ((Emit.Extends.join _ _ _).trans (Emit.Extends.emit _ _)))).toBefore.trans jumped)
    outermost.breaks
  have privates : ((state1.atStack state.stack).pushUnless clear).privates =
      expression.after layout blocks base state.privates := by
    simp [shape.privates]
  have left : Runs runtime layout fuel final jumps frames
      ((state1.atStack state.stack).pushUnless clear) after fun entry =>
        (.break_, entry.insertNulls _) :=
    Runs.jumpOut (blocks jumps.breakJunction) (by rintro ⟨⟩) jumped
      fun _ => ⟨break0, outward, rfl⟩
  rw [privates] at left
  exact (value.andThen (left.of_code entered rfl)) entry

theorem Node.Simulated.continue_ :
    (Node.continue_ : Node F O).Simulated runtime layout fuel final blocks := by
  intro base tail operand clear jumps frames state after form emitted formed before outermost
  simp only [Node.emit, Option.bind_eq_bind, Option.bind_eq_some_iff, Option.some.injEq,
    Prod.mk.injEq] at emitted
  obtain ⟨continue0, outward, rfl, same⟩ := emitted
  rw [← same] at before
  intro entry
  rw [Node.perform]
  have entered : (state.pushUnless clear).code = state.code := by
    cases clear <;> rfl
  have left : Runs runtime layout fuel final jumps frames (state.pushUnless clear) after
      fun entry => (.continue_, entry.expose jumps.exposed) :=
    Runs.leave before (fun _ => by rintro ⟨⟩) fun _ => ⟨continue0, outward, rfl⟩
  exact left.of_code entered rfl entry

theorem Node.Simulated.return_ {expression : Node F O}
    (given : expression.Simulated runtime layout fuel final blocks) :
    (Node.return_ expression).Simulated runtime layout fuel final blocks := by
  intro base tail operand clear jumps frames state after form emitted formed before outermost
  simp only [Node.emit, Option.bind_eq_bind, Option.bind_eq_some_iff, Prod.exists,
    Option.some.injEq, Prod.mk.injEq] at emitted
  obtain ⟨return0, outward, _, state1, first, rfl, same⟩ := emitted
  intro entry
  rw [Node.perform]
  rw [Node.isFormed] at formed
  have shape := Emitted.plain (expression.emitted layout blocks _ _ _ false _ first)
  have moved := fun other : Emit F O => ((Emit.Extends.atStack state.stack other).trans
    (Emit.Extends.pushUnless clear _)).toBefore
  split at same
  · next tails =>
      rw [← same] at before
      have returned := (moved _).trans before
      obtain rfl := outermost.returns.tail tails
      have value := given base jumps.returnIsTail false false jumps [] first formed
        ((Emit.Extends.emit _ _).toBefore.trans returned) outermost.returns
      have height : state1.stack - 1 = jumps.returnStack := by simp [shape.stack]
      have left : Runs runtime layout fuel final jumps [] state1 after
          fun entry => (.returned (entry.slot (state1.stack - 1)),
            entry.read layout.privates (state1.stack - 1)) :=
        Runs.leave returned (fun _ => by rintro ⟨⟩) fun _ => ⟨rfl, rfl⟩
      rw [height] at left
      simp only [tails, if_true]
      rw [tails] at value
      exact value.andThen left entry
  · next plain =>
      rw [← same] at before
      have jumped := (moved _).trans before
      have value := given base jumps.returnIsTail false false jumps frames first formed
        (((Emit.Extends.join _ _ _).trans (Emit.Extends.emit _ _)).toBefore.trans jumped)
        outermost.returns
      have left : Runs runtime layout fuel final jumps frames state1 after fun entry =>
          (.return_, entry.insertNulls (layout.nulls state1.privates
            (blocks jumps.returnJunction))) :=
        Runs.jumpOut _ (by rintro ⟨⟩) jumped fun _ => ⟨return0, outward, rfl⟩
      rw [shape.privates] at left
      simp only [if_neg plain]
      exact value.andThen left entry

theorem Node.Simulated.try_ {body : Node F O} {catches : Catches F O} {finally_ : Optional F O}
    (unique : ∀ label, final.sets label ≤ 1)
    (tried : body.Simulated runtime layout fuel final blocks)
    (handled : catches.Simulated runtime layout fuel final blocks)
    (ended : finally_.ClearedSimulated runtime layout fuel final blocks) :
    (Node.try_ body catches finally_).Simulated runtime layout fuel final blocks := by
  intro base tail operand clear jumps frames state after form emitted formed before outermost
  simp only [Node.emit_try, Option.bind_eq_bind, Option.bind_eq_some_iff, Prod.exists,
    Option.some.injEq, Prod.mk.injEq] at emitted
  obtain ⟨_, state1, emitted1, state2, emitted2, state3, emitted3, rfl, rfl⟩ := emitted
  simp only [Node.isFormed, Bool.and_eq_true] at formed
  have first := Emitted.plain (body.emitted layout blocks _ _ false false _ emitted1)
  have entered : (state.openTry layout (blocks base) (catches.exposed layout blocks base
    (base + 1 + 1 + body.blocks))).stack = state.stack := rfl
  have caught : (state1.openCatches state.labels).stack = state1.stack ∧
    (state1.openCatches state.labels).privates = state1.privates := ⟨rfl, rfl⟩
  have lifted : clear = true ∨ 0 < (state1.openCatches state.labels).stack := by
    rw [caught.1, first.stack]
    cases clear <;> simp
  have second := catches.emitted layout blocks _ _ _ emitted2 lifted
  have third := finally_.cleared_emitted layout blocks _ _ emitted3
  have closed := (Emit.extends_closeTry layout blocks jumps state.stack finally_.isSome clear
    state3).toBefore.trans before
  have finalized := third.toBefore.trans closed
  have opened := (Emit.before_openFinally state.labels finally_.isSome clear state2).trans
    finalized
  have thrower : (state2.emit (.finally_ .throw_)).Before final :=
    (Emit.openFinally_before state.labels finally_.isSome clear state2).trans finalized
  have caught2 := second.toBefore.trans opened
  have same2 : state.stack = ((state1.openCatches state.labels).popIf !clear).stack := by
    rw [Emit.stack_popIf, caught.1, first.stack, entered]
    cases clear <;> rfl
  generalize known : (⟨state.stack, final.target state.labels, final.target (state.labels + 1),
    catches.exposed layout blocks base (base + 1 + 1 + body.blocks), .body⟩ : TryFrame F O) =
      frame
  have bottom : frame.stack = state.stack := by
    rw [← known]
  have bodies := tried (base + 1 + 1) false false clear (jumps.try_ (base + 1 + 1 +
      body.blocks + catches.blocks) state.stack state.labels) (frame :: frames) emitted1 formed.1.1
    ((Emit.before_openCatches state.labels state1).trans caught2)
    (Jumps.Outermost.try_ _ _ _ _)
  have clauses := handled (base + 1 + 1 + body.blocks) clear (jumps.try_ (base + 1 + 1 +
      body.blocks + catches.blocks) state.stack state.labels) frames frame emitted2 formed.1.2 thrower
    (Jumps.Outermost.try_ _ _ _) lifted (bottom.trans same2)
  have finals := fun (completion : Completion F O) (phase : Phase F O)
      (_ : completion.phase = some phase) => ended _ Jumps.absent
    (frame.turn phase :: frames) emitted3 formed.2 closed (Jumps.Outermost.none _)
  have whole := Runs.try_ unique known.symm bodies clauses finals first.toBefore
    second.toBefore third.toBefore before
  have privates2 : (state2.openFinally state.labels finally_.isSome clear).privates =
      catches.after layout blocks (base + 1 + 1 + body.blocks)
        (body.after layout blocks (base + 1 + 1) (blocks base).out) := by
    rw [(Emit.stack_openFinally ..).2, second.privates, caught.2, first.privates]
    rfl
  have finalStack : ∀ privates, finally_.performOptional layout blocks runtime fuel Exits.none
      (base + 1 + 1 + body.blocks + catches.blocks + 1 + 1) privates
      (state2.openFinally state.labels finally_.isSome clear).stack true =
    finally_.performOptional layout blocks runtime fuel Exits.none
      (base + 1 + 1 + body.blocks + catches.blocks + 1 + 1) privates (state.stack + 1) true := by
    intro privates
    cases finally_ with
    | none =>
        funext after
        simp only [Optional.performOptional]
    | some node =>
        rw [(Emit.stack_openFinally ..).1, second.stack, caught.1, first.stack, entered]
        cases clear <;> rfl
  intro entry
  rw [Node.perform]
  have toExits : Jumps.absent.toExits = Exits.none := rfl
  rw [third.privates, privates2, bottom, toExits, finalStack, caught.2, first.privates] at whole
  exact whole entry

theorem Node.Simulated.throw_ {expression : Node F O}
    (given : expression.Simulated runtime layout fuel final blocks) :
    (Node.throw_ expression).Simulated runtime layout fuel final blocks := by
  intro base tail operand clear jumps frames state after form emitted formed before outermost
  simp only [Node.emit, Option.bind_eq_bind, Option.bind_eq_some_iff, Prod.exists,
    Option.some.injEq, Prod.mk.injEq] at emitted
  obtain ⟨_, state1, first, rfl, same⟩ := emitted
  rw [← same] at before
  intro entry
  rw [Node.perform]
  have shape := Emitted.plain (expression.emitted layout blocks _ _ _ false _ first)
  have height : state1.pop.stack = state.stack := by simp [shape.stack]
  have thrown := (Emit.Extends.pushUnless clear _).toBefore.trans before
  rw [Node.isFormed] at formed
  have value := given base false false false jumps frames first formed
    (((Emit.Extends.pop _).trans (Emit.Extends.emit _ _)).toBefore.trans thrown) outermost.plain
  have left : Runs runtime layout fuel final jumps frames state1.pop after
      fun after => (.threw (after.slot state1.pop.stack), after) :=
    Runs.leave thrown (fun _ => by rintro ⟨⟩) fun _ => rfl
  rw [height] at left
  exact value.andThen (left.of_code rfl rfl) entry

theorem Node.Simulated.symbolGet (resolved : Nat) (variable_ : Option Nat) (symbol : Nat) :
    (Node.symbolGet resolved variable_ symbol : Node F O).Simulated runtime layout fuel final
      blocks := by
  intro base tail operand clear jumps frames state after form emitted formed before outermost entry
  cases variable_ with
  | none =>
      simp only [Node.emit, Option.some.injEq, Prod.mk.injEq] at emitted
      obtain ⟨rfl, rfl⟩ := emitted
      rw [Node.perform]
      exact Runs.finish before (by rintro ⟨⟩) (fun _ => rfl) entry
  | some variable_ =>
      rw [Node.emit_symbolGet] at emitted
      rw [Node.perform]
      dsimp only at emitted ⊢
      split at emitted
      · next isShared =>
          cases emitted
          rw [if_pos isShared]
          exact Runs.straight ((Emit.before_finish ..).trans before)
            (Emit.code_finish ..) (fun _ => rfl) entry
      · next isPrivate =>
          have unshared : (layout.variableOf variable_).isShared = false := by
            simpa using isPrivate
          rw [if_neg isPrivate]
          have height := Emit.stack_mention layout variable_ state
          cases operand with
          | true =>
              cases emitted
              exact Runs.mention unshared before entry
          | false =>
              cases tail with
              | true =>
                  cases emitted
                  obtain rfl := outermost.tail rfl
                  have returned := (Emit.before_finish ..).trans before
                  have mentioned : Runs runtime layout fuel final jumps [] state _ _ :=
                    Runs.mention unshared ((Emit.Extends.emit _ _).toBefore.trans returned)
                  have left : Runs runtime layout fuel final jumps []
                      (state.mention layout variable_)
                      ((state.mention layout variable_).finish
                        (.return_ (layout.variableOf variable_).index) clear)
                      fun after => (.returned (after.slot (layout.variableOf variable_).index),
                        after.read layout.privates (layout.variableOf variable_).index) :=
                    Runs.leave returned (fun _ => by rintro ⟨⟩) fun _ => ⟨rfl, rfl⟩
                  exact mentioned.andThen left entry
              | false =>
                  cases emitted
                  rw [height] at before ⊢
                  have copied := (Emit.before_finish ..).trans before
                  have mentioned : Runs runtime layout fuel final jumps frames state _ _ :=
                    Runs.mention unshared ((Emit.Extends.emit _ _).toBefore.trans copied)
                  have moved : Runs runtime layout fuel final jumps frames
                      (state.mention layout variable_) ((state.mention layout variable_).finish
                        (.stackGet state.stack (layout.variableOf variable_).index) clear)
                      fun after => (.normal, after.copy layout.privates
                        (layout.variableOf variable_).index state.stack) :=
                    Runs.straight copied (Emit.code_finish ..) fun _ => rfl
                  exact mentioned.andThen moved entry

theorem Node.Simulated.scopePut {outer variable_ : Nat} {value : Node F O}
    (given : value.Simulated runtime layout fuel final blocks) :
    (Node.scopePut outer variable_ value).Simulated runtime layout fuel final blocks := by
  intro base tail operand clear jumps frames state after form emitted formed before outermost
  rw [Node.isFormed] at formed
  simp only [Node.emit] at emitted
  intro entry
  rw [Node.perform]
  split at emitted
  · next kept =>
      rw [if_pos kept]
      simp only [Option.bind_eq_bind, Option.bind_eq_some_iff, Prod.exists] at emitted
      obtain ⟨found, state1, emitted1, rest⟩ := emitted
      obtain ⟨shape, form⟩ := value.emitted layout blocks _ _ false true false emitted1
      have height : (state1.assign (layout.slot variable_)).stack =
          state.stack + lift false found := by
        rw [Emit.stack_assign, shape.stack]
      have same : found = value.form layout := by simpa using form
      rw [← same]
      have assigned : (state1.assign (layout.slot variable_)).code = state1.code ∧
          (state1.assign (layout.slot variable_)).targets = state1.targets := by
        cases layout.slot variable_ <;> exact ⟨rfl, rfl⟩
      have put : (state1.assign (layout.slot variable_)).Before final →
          Runs runtime layout fuel final jumps frames state
            (state1.assign (layout.slot variable_)) _ := fun earlier =>
        (given base false true false jumps frames emitted1 formed
          ((Emit.Extends.assign _ _).toBefore.trans earlier) outermost.plain).of_code rfl
          assigned.1
      cases found with
      | «variable» index =>
          cases rest
          exact Runs.follow put before rfl rfl (fun _ => rfl) entry
      | temporary =>
          cases rest
          have top : (state1.assign (layout.slot variable_)).stack - 1 = state.stack := by
            rw [height]
            rfl
          rw [top] at before ⊢
          exact Runs.follow put before rfl rfl (fun _ => rfl) entry
      | integer value =>
          cases rest
          exact Runs.follow put before rfl rfl (fun _ => rfl) entry
      | float value =>
          cases rest
          exact Runs.follow put before rfl rfl (fun _ => rfl) entry
      | literal value =>
          cases rest
          exact Runs.follow put before rfl rfl (fun _ => rfl) entry
  · next general =>
      rw [if_neg general]
      simp only [Option.bind_eq_bind, Option.bind_eq_some_iff, Prod.exists, Option.some.injEq,
        Prod.mk.injEq] at emitted
      obtain ⟨found, state1, emitted1, rfl, same⟩ := emitted
      have shape := Emitted.plain (value.emitted layout blocks _ _ false false false emitted1)
      have height : state1.stack - 1 = state.stack := by simp [shape.stack]
      have assigned : (state1.assign (layout.slot variable_)).code = state1.code ∧
          (state1.assign (layout.slot variable_)).targets = state1.targets := by
        cases layout.slot variable_ <;> exact ⟨rfl, rfl⟩
      have put : state1.Before final → Runs runtime layout fuel final jumps frames state state1
          _ := fun earlier => given base false false false jumps frames emitted1 formed earlier
            outermost.plain
      have popped : ∀ other : Emit F O, (other.popIf clear).code = other.code ∧
          (other.popIf clear).targets = other.targets := by
        intro other
        cases clear <;> exact ⟨rfl, rfl⟩
      subst same
      cases isShared : (layout.variableOf variable_).isShared with
      | true =>
          rw [isShared] at before
          rw [if_pos rfl, height] at before ⊢
          exact Runs.follow put before (popped _).1 (popped _).2 (fun _ => rfl) entry
      | false =>
          rw [isShared] at before
          rw [if_neg (by decide), height] at before ⊢
          have code : (((state1.assign (layout.slot variable_)).emit (.stackPut state.stack
              (layout.variableOf variable_).index)).popIf clear).code = state1.code ++
                [.stackPut state.stack (layout.variableOf variable_).index] := by
            rw [(popped _).1, ← assigned.1]
            rfl
          exact Runs.follow put before code ((popped _).2.trans assigned.2) (fun _ => rfl) entry

theorem Node.Simulated.self (outer : Nat) :
    (Node.self outer : Node F O).Simulated runtime layout fuel final blocks := by
  intro base tail operand clear jumps frames state after form emitted formed before outermost
  simp only [Node.emit] at emitted
  intro entry
  rw [Node.perform]
  split_ifs at emitted with cleared distant
  · cases emitted
    rw [if_pos cleared]
    exact Runs.skip rfl entry
  · cases emitted
    rw [if_neg cleared, if_pos distant]
    exact Runs.straight ((Emit.Extends.push _).toBefore.trans before) rfl (fun _ => rfl) entry
  · cases emitted
    rw [if_neg cleared, if_neg distant]
    exact Runs.straight ((Emit.Extends.push _).toBefore.trans before) rfl (fun _ => rfl) entry

theorem Node.Simulated.literal (literal : Literal F O) :
    (Node.literal literal : Node F O).Simulated runtime layout fuel final blocks := by
  intro base tail operand clear jumps frames state after form emitted formed before outermost
  simp only [Node.emit, Option.some.injEq] at emitted
  intro entry
  rw [Node.perform]
  exact Runs.literal emitted before outermost.tail entry

theorem Node.Simulated.unary {op : Unary} {expression : Node F O}
    (given : expression.Simulated runtime layout fuel final blocks) :
    (Node.unary op expression).Simulated runtime layout fuel final blocks := by
  intro base tail operand clear jumps frames state after form emitted formed before outermost
  rw [Node.isFormed] at formed
  simp only [Node.emit, Option.bind_eq_bind, Option.bind_eq_some_iff, Prod.exists] at emitted
  obtain ⟨found, state1, emitted1, rest⟩ := emitted
  obtain ⟨shape, form⟩ := expression.emitted layout blocks _ _ false true false emitted1
  have same : found = expression.form layout := by simpa using form
  intro entry
  rw [Node.perform]
  rw [← same]
  have value : state1.Before final → Runs runtime layout fuel final jumps frames state state1 _ :=
    fun earlier => (given base false true false jumps frames emitted1 formed earlier
      outermost.plain).of_code rfl rfl
  split at rest
  · next folded fold =>
      simp only [Option.bind_eq_some_iff, Option.some.injEq] at rest
      obtain ⟨constant, known, rest⟩ := rest
      have plain := Operand.lift_constant (foldUnary_operand fold) false
      have height : state1.pop.stack = state.stack := by simp [shape.stack, plain]
      have extended := Emit.Extends.literal folded constant tail operand clear
        { state1.pop with size := state.size }
      rw [rest] at extended
      have loaded : Runs runtime layout fuel final jumps frames
          { state1.pop with size := state.size } after _ :=
        Runs.literal rest before outermost.tail
      rw [height] at loaded
      simp only [fold, Operand.fetch_constant known]
      exact (value (Emit.Before.trans ⟨extended.code, extended.targets⟩ before)).andThen
        (loaded.of_code rfl rfl) entry
  · next fold =>
      simp only [Option.some.injEq, Prod.mk.injEq] at rest
      obtain ⟨rfl, rfl⟩ := rest
      have height : ((state1.pushUnless found.isTemporary).pop.pop).stack = state.stack := by
        cases found <;> simp [shape.stack, lift, Operand.isTemporary]
      have code : ((state1.pushUnless found.isTemporary).pop.pop).code = state1.code := by
        cases found.isTemporary <;> rfl
      rw [height] at before ⊢
      have earlier : state1.Before final := by
        refine Emit.Before.trans ?_ before
        exact (((Emit.Extends.pushUnless _ _).trans ((Emit.Extends.pop _).trans
          (Emit.Extends.pop _))).trans (Emit.Extends.finish _ _ _)).toBefore
      have delivered : Runs runtime layout fuel final jumps frames
          ((state1.pushUnless found.isTemporary).pop.pop) _ fun after =>
            deliver layout.privates tail state.stack (after.fetched layout.privates found)
              (runtime.unary op found (after.fetch found (after.slot (state.stack + 1)))
                after.world) :=
        Runs.finish before outermost.tail fun _ => rfl
      simp only [fold]
      exact (value earlier).andThen (delivered.of_code code rfl) entry
  · exact absurd rest (by simp)

theorem Node.Simulated.binary {op : Binary} {left right : Node F O}
    (former : left.Simulated runtime layout fuel final blocks)
    (latter : right.Simulated runtime layout fuel final blocks) :
    (Node.binary op left right).Simulated runtime layout fuel final blocks := by
  intro base tail operand clear jumps frames state after form emitted formed before outermost
  simp only [Node.isFormed, Bool.and_eq_true] at formed
  simp only [Node.emit, Option.bind_eq_bind, Option.bind_eq_some_iff, Prod.exists] at emitted
  obtain ⟨found0, state1, emitted1, found1, state2, emitted2, rest⟩ := emitted
  obtain ⟨shape0, form0⟩ := left.emitted layout blocks _ _ false true false emitted1
  obtain ⟨shape1, form1⟩ := right.emitted layout blocks _ _ false true false emitted2
  have same0 : found0 = left.form layout := by simpa using form0
  have same1 : found1 = right.form layout := by simpa using form1
  have height1 : (state1.pushUnless found0.isTemporary).stack = state.stack + 2 := by
    cases found0 <;> simp [shape0.stack, lift, Operand.isTemporary]
  have privates1 : (state1.pushUnless found0.isTemporary).privates =
      left.after layout blocks base state.privates := by
    rw [Emit.privates_pushUnless, shape0.privates]
    rfl
  have code1 : (state1.pushUnless found0.isTemporary).code = state1.code := by
    cases found0.isTemporary <;> rfl
  intro entry
  rw [Node.perform]
  rw [← same0, ← same1]
  have value0 : state1.Before final → Runs runtime layout fuel final jumps frames state state1 _ :=
    fun earlier => (former base false true false jumps frames emitted1 formed.1 earlier
      outermost.plain).of_code rfl rfl
  have value1 : state2.Before final → Runs runtime layout fuel final jumps frames state1 state2 _ :=
    fun earlier => (latter _ false true false jumps frames emitted2 formed.2 earlier
      outermost.plain).of_code code1 rfl
  rw [height1, privates1] at value1
  have earlier : state2.Before final → state1.Before final := fun later =>
    ((Emit.Extends.pushUnless _ _).toBefore.trans shape1.toBefore).trans later
  split at rest
  · next folded fold =>
      simp only [Option.bind_eq_some_iff, Option.some.injEq] at rest
      obtain ⟨constant, known, rest⟩ := rest
      have plain := Operand.lift_constant (foldBinary_operand fold).2 false
      have height : state2.pop.pop.stack = state.stack := by
        rw [Emit.stack_pop, Emit.stack_pop, shape1.stack, height1, plain]
        rfl
      have extended := Emit.Extends.literal folded constant tail operand clear
        { state2.pop.pop with size := state.size }
      rw [rest] at extended
      have loaded : Runs runtime layout fuel final jumps frames
          { state2.pop.pop with size := state.size } after _ :=
        Runs.literal rest before outermost.tail
      rw [height] at loaded
      simp only [fold, Operand.fetch_constant known]
      have later : state2.Before final :=
        Emit.Before.trans ⟨extended.code, extended.targets⟩ before
      exact (value0 (earlier later)).andThen ((value1 later).andThen
        (loaded.of_code rfl rfl)) entry
  · next fold =>
      simp only [Option.some.injEq, Prod.mk.injEq] at rest
      obtain ⟨rfl, rfl⟩ := rest
      have height : ((state2.pushUnless found1.isTemporary).pop.pop.pop).stack =
          state.stack := by
        rw [Emit.stack_pop, Emit.stack_pop, Emit.stack_pop, Emit.stack_pushUnless, shape1.stack,
          height1]
        cases found1 <;> rfl
      have code : ((state2.pushUnless found1.isTemporary).pop.pop.pop).code = state2.code := by
        cases found1.isTemporary <;> rfl
      rw [height] at before ⊢
      have later : state2.Before final := by
        refine Emit.Before.trans ?_ before
        exact (((Emit.Extends.pushUnless _ _).trans ((Emit.Extends.pop _).trans
          ((Emit.Extends.pop _).trans (Emit.Extends.pop _)))).trans
            (Emit.Extends.finish _ _ _)).toBefore
      have delivered : Runs runtime layout fuel final jumps frames
          ((state2.pushUnless found1.isTemporary).pop.pop.pop) _ fun after =>
            deliver layout.privates tail state.stack
              ((after.fetched layout.privates found0).fetched layout.privates found1)
              (runtime.binary op found0 found1 (after.fetch found0 (after.slot (state.stack + 1)))
                (after.fetch found1 (after.slot (state.stack + 2))) after.world) :=
        Runs.finish before outermost.tail fun _ => rfl
      simp only [fold]
      exact (value0 (earlier later)).andThen ((value1 later).andThen
        (delivered.of_code code rfl)) entry
  · exact absurd rest (by simp)

theorem Node.Simulated.preserve :
    (Node.preserve : Node F O).Simulated runtime layout fuel final blocks := by
  intro base tail operand clear jumps frames state after form emitted formed before outermost
  simp only [Node.emit, Option.some.injEq, Prod.mk.injEq] at emitted
  obtain ⟨rfl, rfl⟩ := emitted
  intro entry
  rw [Node.perform]
  exact Runs.skip (by cases clear <;> rfl) entry

/-- A call of a variable that is not put on the stack first. -/
theorem Node.Simulated.callVariable {target : Node F O} {arguments : Nodes F O}
    {expands : List Nat} {found : Nat × Variable}
    (each : arguments.ValuesSimulated runtime layout fuel final blocks)
    (called : target.called layout expands = some found) :
    (Node.call target arguments expands).Simulated runtime layout fuel final blocks := by
  intro base tail operand clear jumps frames state after form emitted formed before outermost
  simp only [Node.emit_call, Option.bind_eq_bind, Option.bind_eq_some_iff, Option.some.injEq,
    Prod.mk.injEq] at emitted
  obtain ⟨state1, first, state2, second, rfl, rfl⟩ := emitted
  simp only [Node.isFormed, Bool.and_eq_true] at formed
  have inner := arguments.values_emitted layout blocks _ _ second
  have later : state2.Before final :=
    ((Emit.Extends.atStack _ _).trans (Emit.Extends.finish _ _ _)).toBefore.trans before
  have values := each (base + target.blocks) jumps frames second formed.2 later
    outermost.plain
  have earlier := inner.toBefore.trans later
  intro entry
  unfold Node.perform
  rw [called]
  unfold Node.emitTarget at first
  rcases found with ⟨resolved, found⟩
  rw [called] at first
  obtain rfl : state.push.push = state1 := by simpa using first
  have callee : target.callee layout arguments expands state.privates =
      if found.isShared then .scope resolved found.index
      else .slot found.index (decide (found.index < layout.arguments) ||
        state.privates found.index || arguments.settles layout found.index) := by
    rw [Node.callee, called]
  rw [callee] at before ⊢
  dsimp only
  cases isShared : found.isShared with
  | true =>
      rw [isShared] at before
      rw [if_pos rfl] at before ⊢
      have delivered : Runs runtime layout fuel final jumps frames
          (state2.atStack state.stack) _ fun after =>
            deliver layout.privates tail state.stack
              (after.write layout.privates (state.stack + 1) .null)
              (runtime.call expands (runtime.scopeGet resolved found.index after.world) .null
                (after.operands (state.stack + 2) arguments.length) after.world) :=
        Runs.finish before outermost.tail fun _ => rfl
      exact (values.of_code rfl rfl).andThen (delivered.of_code rfl rfl) entry
  | false =>
      rw [isShared] at before
      rw [if_neg (by decide)] at before ⊢
      generalize known : (decide (found.index < layout.arguments) ||
        state.privates found.index || arguments.settles layout found.index) = settled
        at before ⊢
      have delivered : Runs runtime layout fuel final jumps frames
          (state2.atStack state.stack) _ fun after =>
            deliver layout.privates tail state.stack
              ((after.write layout.privates (state.stack + 1) .null).note
                (.callee found.index settled
                  ((after.write layout.privates (state.stack + 1) .null).slot found.index)
                  ((after.write layout.privates (state.stack + 1) .null).assigned
                    found.index)))
              (runtime.call expands
                ((after.write layout.privates (state.stack + 1) .null).slot found.index) .null
                (after.operands (state.stack + 2) arguments.length)
                (after.write layout.privates (state.stack + 1) .null).world) :=
        Runs.finish before outermost.tail fun _ => rfl
      exact (values.of_code rfl rfl).andThen (delivered.of_code rfl rfl) entry

/-- What is called, with a null behind it or as a method. -/
theorem Node.Simulated.target {target : Node F O}
    (given : target.Simulated runtime layout fuel final blocks)
    (methods : ∀ action operands, target = .operate action operands →
      operands.ValuesSimulated runtime layout fuel final blocks) {base : Nat}
    {expands : List Nat} {state state1 : Emit F O}
    (first : target.emitTarget layout blocks jumps base expands state = some state1)
    (called : target.called layout expands = none) (formed : target.isFormed = true)
    (earlier : state1.Before final) (outermost : jumps.Outermost false frames) :
    Runs runtime layout fuel final jumps frames state state1
      (target.performTarget layout blocks runtime fuel jumps.toExits base state.privates
        state.stack) ∧ state1.stack = state.stack + 2 ∧
        state1.privates = target.after layout blocks base state.privates := by
  have missing : ¬(target.called layout expands).isSome = true := by
    rw [called]
    decide
  unfold Node.emitTarget at first
  rw [if_neg missing] at first
  have pushed : (target.emit layout blocks jumps base false false false state).bind
      (fun found => some found.2.emitNull) = some state1 →
      Runs runtime layout fuel final jumps frames state state1 (fun entry =>
        andThen (target.perform layout blocks runtime fuel jumps.toExits base
          state.privates state.stack false false false entry) fun entry =>
            (.normal, entry.write layout.privates (state.stack + 1) .null)) ∧
      state1.stack = state.stack + 2 ∧
        state1.privates = target.after layout blocks base state.privates := by
    intro first
    simp only [Option.bind_eq_some_iff, Option.some.injEq, Prod.exists] at first
    obtain ⟨_, state0, emitted0, rfl⟩ := first
    have shape := Emitted.plain (target.emitted layout blocks _ _ _ false _ emitted0)
    have value := given base false false false jumps frames emitted0 formed
      ((Emit.Extends.emitNull _).toBefore.trans earlier) outermost
    have null : Runs runtime layout fuel final jumps frames state0 _ _ :=
      Runs.null earlier
    rw [shape.stack] at null
    exact ⟨value.andThen null, by simp [shape.stack], shape.privates⟩
  cases target with
  | operate action operands =>
      simp only [Node.isFormed, Bool.and_eq_true] at formed
      cases action with
      | objectGet key =>
          simp only [Option.bind_eq_bind, Option.bind_eq_some_iff,
            Option.some.injEq] at first
          obtain ⟨state0, emitted0, rfl⟩ := first
          have shape := operands.values_emitted layout blocks _ _ emitted0
          have bound := (Emit.Extends.push _).toBefore.trans earlier
          have found := methods _ operands rfl base jumps frames emitted0 formed.2
            ((Emit.Extends.emit _ _).toBefore.trans bound) outermost
          have count : operands.length = 1 := (beq_iff_eq.mp formed.1).symm
          refine ⟨found.andThen (Runs.bind bound rfl), ?_, shape.privates⟩
          simp [shape.stack, count]
      | getAt =>
          simp only [Option.bind_eq_bind, Option.bind_eq_some_iff,
            Option.some.injEq] at first
          obtain ⟨state0, emitted0, rfl⟩ := first
          have shape := operands.values_emitted layout blocks _ _ emitted0
          have found := methods _ operands rfl base jumps frames emitted0 formed.2
            ((Emit.Extends.emit _ _).toBefore.trans earlier) outermost
          have count : operands.length = 2 := (beq_iff_eq.mp formed.1).symm
          refine ⟨found.andThen (Runs.bind earlier rfl), ?_, shape.privates⟩
          simp [shape.stack, count]
      | _ => exact pushed first
  | _ => exact pushed first

theorem Node.Simulated.call {target : Node F O} {arguments : Nodes F O} {expands : List Nat}
    (given : target.Simulated runtime layout fuel final blocks)
    (methods : ∀ action operands, target = .operate action operands →
      operands.ValuesSimulated runtime layout fuel final blocks)
    (each : arguments.ValuesSimulated runtime layout fuel final blocks)
    (called : target.called layout expands = none) :
    (Node.call target arguments expands).Simulated runtime layout fuel final blocks := by
  intro base tail operand clear jumps frames state after form emitted formed before outermost
  simp only [Node.emit_call, Option.bind_eq_bind, Option.bind_eq_some_iff, Option.some.injEq,
    Prod.mk.injEq] at emitted
  obtain ⟨state1, first, state2, second, rfl, rfl⟩ := emitted
  simp only [Node.isFormed, Bool.and_eq_true] at formed
  have inner := arguments.values_emitted layout blocks _ _ second
  have later : state2.Before final :=
    ((Emit.Extends.atStack _ _).trans (Emit.Extends.finish _ _ _)).toBefore.trans before
  have values := each (base + target.blocks) jumps frames second formed.2 later
    outermost.plain
  have earlier := inner.toBefore.trans later
  intro entry
  unfold Node.perform
  rw [called]
  have callee : target.callee layout arguments expands state.privates = .stack := by
    rw [Node.callee, called]
  rw [callee] at before ⊢
  have delivered : Runs runtime layout fuel final jumps frames
      (state2.atStack state.stack) _ fun after =>
        deliver layout.privates tail state.stack after (runtime.call expands
          (after.slot state.stack) (after.slot (state.stack + 1))
          (after.operands (state.stack + 2) arguments.length) after.world) :=
    Runs.finish before outermost.tail fun _ => rfl
  have targets := given.target methods first called formed.1 earlier outermost.plain
  rw [targets.2.1, targets.2.2] at values
  exact targets.1.andThen (values.andThen (delivered.of_code rfl rfl)) entry

theorem Nodes.SequenceSimulated.nil :
    (Nodes.nil : Nodes F O).SequenceSimulated runtime layout fuel final blocks := by
  intro base tail clear jumps frames state after emitted formed before outermost entry
  simp only [Nodes.emitSequence, Option.some.injEq] at emitted
  subst emitted
  rw [Nodes.performSequence]
  cases clear with
  | true => exact Runs.skip rfl entry
  | false => exact Runs.null before entry

theorem Nodes.SequenceSimulated.cons {head : Node F O} {rest : Nodes F O}
    (former : head.Simulated runtime layout fuel final blocks)
    (latter : rest.SequenceSimulated runtime layout fuel final blocks) :
    (Nodes.cons head rest).SequenceSimulated runtime layout fuel final blocks := by
  intro base tail clear jumps frames state after emitted formed before outermost entry
  simp only [Nodes.emitSequence] at emitted
  simp only [Nodes.isFormed, Bool.and_eq_true] at formed
  rw [Nodes.performSequence]
  split at emitted
  · next last =>
      simp only [Option.bind_eq_bind, Option.bind_eq_some_iff, Prod.exists,
        Option.some.injEq] at emitted
      obtain ⟨_, _, first, rfl⟩ := emitted
      rw [if_pos last]
      exact former base tail false clear jumps frames first formed.1 before outermost entry
  · next more =>
      simp only [Option.bind_eq_bind, Option.bind_eq_some_iff, Prod.exists] at emitted
      obtain ⟨_, state1, first, second⟩ := emitted
      rw [if_neg more]
      have shape := (head.emitted layout blocks _ _ _ false _ first).1
      have later := rest.sequence_emitted layout blocks _ _ _ _ second
      have left := former base false false true jumps frames first formed.1
        (later.toBefore.trans before) outermost.plain
      have right := latter _ tail clear jumps frames second formed.2 before outermost
      have height : state1.stack = state.stack := by simpa using shape.stack
      rw [shape.privates, height] at right
      exact left.andThen right entry

theorem Nodes.ValuesSimulated.nil :
    (Nodes.nil : Nodes F O).ValuesSimulated runtime layout fuel final blocks := by
  intro base jumps frames state after emitted formed before outermost entry
  simp only [Nodes.emitValues, Option.some.injEq] at emitted
  subst emitted
  rw [Nodes.performValues]
  exact Runs.skip rfl entry

theorem Nodes.ValuesSimulated.cons {head : Node F O} {rest : Nodes F O}
    (former : head.Simulated runtime layout fuel final blocks)
    (latter : rest.ValuesSimulated runtime layout fuel final blocks) :
    (Nodes.cons head rest).ValuesSimulated runtime layout fuel final blocks := by
  intro base jumps frames state after emitted formed before outermost entry
  simp only [Nodes.emitValues, Option.bind_eq_bind, Option.bind_eq_some_iff,
    Prod.exists] at emitted
  obtain ⟨_, state1, first, second⟩ := emitted
  simp only [Nodes.isFormed, Bool.and_eq_true] at formed
  rw [Nodes.performValues]
  have shape := Emitted.plain (head.emitted layout blocks _ _ _ false _ first)
  have later := rest.values_emitted layout blocks _ _ second
  have left := former base false false false jumps frames first formed.1
    (later.toBefore.trans before) outermost
  have right := latter _ jumps frames second formed.2 before outermost
  have height : state1.stack = state.stack + 1 := by simpa using shape.stack
  rw [shape.privates, height] at right
  exact left.andThen right entry

theorem Catches.Simulated.nil :
    (Catches.nil : Catches F O).Simulated runtime layout fuel final blocks := by
  intro base clear jumps frames frame state after emitted formed before outermost lifted same thrown
    entry
  simp only [Catches.emit, Option.some.injEq] at emitted
  subst emitted
  rw [Catches.perform]
  refine (Simulates.next (Simulates.here (by rintro ⟨⟩) ?_)).fewer (Nat.le_succ fuel)
    (le_refl 1)
  simp only [step, Emit.resolved_at before]
  rfl

theorem Catches.Simulated.cons {expression body : Node F O} {variable_ : Nat} {tail : Catches F O}
    (unique : ∀ label, final.sets label ≤ 1)
    (asked : expression.Simulated runtime layout fuel final blocks)
    (handled : body.Simulated runtime layout fuel final blocks)
    (others : tail.Simulated runtime layout fuel final blocks) :
    (Catches.cons expression variable_ body tail).Simulated runtime layout fuel final blocks := by
  intro base clear jumps frames frame state after emitted formed before outermost lifted same thrown
    entry
  simp only [Catches.emit_cons] at emitted
  simp only [Catches.isFormed, Bool.and_eq_true] at formed
  split at emitted
  · exact absurd emitted (by simp)
  · simp only [Option.bind_eq_bind, Option.bind_eq_some_iff, Prod.exists] at emitted
    obtain ⟨_, state1, emitted1, _, state2, emitted2, emitted3⟩ := emitted
    have first := Emitted.plain (expression.emitted layout blocks _ _ _ false _ emitted1)
    have second := Emitted.plain (body.emitted layout blocks _ _ _ false _ emitted2)
    have entered : (state1.openClause (layout.variableOf variable_).isShared
        (layout.variableOf variable_).index).stack = frame.stack := by
      have popped : (state1.openClause (layout.variableOf variable_).isShared
        (layout.variableOf variable_).index).stack = state1.stack - 1 := rfl
      simp [popped, first.stack, same]
    have left : (state2.openCatches state1.labels).stack =
        frame.stack + if clear then 0 else 1 := by
      rw [← entered]
      exact second.stack
    have same2 : frame.stack = ((state2.openCatches state1.labels).popIf !clear).stack := by
      cases clear <;> simp [left]
    have lifted2 : clear = true ∨ 0 < (state2.openCatches state1.labels).stack := by
      cases clear <;> simp [left]
    have third := tail.emitted layout blocks _ _ _ emitted3 lifted2
    have closed := third.toBefore.trans
      ((Emit.Extends.emit (.finally_ .throw_) after).toBefore.trans before)
    have caught := (Emit.before_openCatches state1.labels state2).trans closed
    have opened : state1.Before final := by
      refine Emit.Before.trans ?_ (second.toBefore.trans caught)
      exact ((Emit.Extends.label state1).trans ((Emit.Extends.pop _).trans
        (Emit.Extends.emit _ _))).toBefore
    have expressions := asked (base + 1) false false false jumps
      (frame.turn (.catching thrown) :: frames) emitted1 formed.1.1 opened (outermost _)
    have bodies := handled (base + 1 + expression.blocks + 1) false false clear jumps
      (frame.turn (.catching thrown) :: frames) emitted2 formed.1.2 caught (outermost _)
    have tails := others (base + 1 + expression.blocks + 1 + body.blocks) clear jumps
      frames frame emitted3 formed.2 before outermost lifted2 same2 thrown
    have privates1 : state1.privates =
        expression.after layout blocks (base + 1) state.privates := by
      simpa using first.privates
    have privates2 : (state2.openCatches state1.labels).privates =
        body.after layout blocks (base + 1 + expression.blocks + 1) state1.privates :=
      second.privates
    have code : (state.popIf !clear).code = state.code := by
      cases clear <;> rfl
    have bodyPrivates : (state1.openClause (layout.variableOf variable_).isShared
        (layout.variableOf variable_).index).privates = state1.privates := rfl
    have whole := Runs.clause unique rfl expressions bodies tails second.toBefore closed entry
    rw [Catches.perform]
    rw [code, privates2, entered, bodyPrivates, privates1, ← same, Emit.privates_popIf] at whole
    exact whole

theorem Optional.ConditionSimulated.none :
    (Optional.none : Optional F O).ConditionSimulated runtime layout fuel final blocks := by
  intro base label jumps frames state after emitted formed before outermost pc fuel1 enough rest
    positive negative entry
  simp only [Optional.emitCondition, Option.some.injEq] at emitted
  subst emitted
  rw [Optional.performOptional]
  exact positive entry rfl

theorem Optional.ConditionSimulated.some {node : Node F O}
    (given : node.Simulated runtime layout fuel final blocks) :
    (Optional.some node).ConditionSimulated runtime layout fuel final blocks := by
  intro base label jumps frames state after emitted formed before outermost pc fuel1 enough rest
    positive negative entry
  simp only [Optional.emitCondition, Option.bind_eq_bind, Option.bind_eq_some_iff, Prod.exists,
    Option.some.injEq] at emitted
  obtain ⟨_, state1, first, rfl⟩ := emitted
  rw [Optional.performOptional]
  have shape := Emitted.plain (node.emitted layout blocks _ _ _ false _ first)
  have popped : state1.pop.stack = state.stack := by simp [shape.stack]
  have branched : final.resolved[state1.code.length]? =
      Option.some (.branch state.stack (final.target label)) := by
    rw [← popped]
    exact Emit.resolved_at before
  have earlier := (Emit.Extends.trans (Emit.Extends.pop state1)
    (Emit.Extends.emit (.branch state1.pop.stack label) _)).toBefore.trans before
  rw [Optional.isFormed] at formed
  have left := given base false false false jumps frames first formed earlier outermost
  refine ((left entry).fewer enough (le_refl 1)).andThen Jumps.exit_abnormal ?_
  rintro entry _ rfl
  refine (Simulates.next ?_).fewer (Nat.le_succ fuel1) (le_refl 1)
  have moved : step runtime layout.privates final.resolved (.at state1.code.length frames entry) =
      .at (if (entry.slot state.stack).asBoolean then state1.code.length + 1
        else final.target label) frames entry := by
    simp only [step, branched, execute]
  rw [moved]
  have length : (state1.pop.emit (.branch state1.pop.stack label)).code.length =
      state1.code.length + 1 := Emit.length_emit _ state1.pop
  cases held : (entry.slot state.stack).asBoolean with
  | true =>
      rw [if_pos rfl, ← length]
      exact (positive entry held).fewer (le_refl fuel1) (Nat.zero_le 1)
  | false => exact (negative entry held).fewer (le_refl fuel1) (Nat.zero_le 1)

theorem Optional.ClearedSimulated.none :
    (Optional.none : Optional F O).ClearedSimulated runtime layout fuel final blocks := by
  intro base jumps frames state after emitted formed before outermost entry
  simp only [Optional.emitCleared, Option.some.injEq] at emitted
  subst emitted
  rw [Optional.performOptional]
  exact Runs.skip rfl entry

theorem Optional.ClearedSimulated.some {node : Node F O}
    (given : node.Simulated runtime layout fuel final blocks) :
    (Optional.some node).ClearedSimulated runtime layout fuel final blocks := by
  intro base jumps frames state after emitted formed before outermost entry
  simp only [Optional.emitCleared, Option.bind_eq_bind, Option.bind_eq_some_iff, Prod.exists,
    Option.some.injEq] at emitted
  obtain ⟨_, state1, first, rfl⟩ := emitted
  rw [Optional.performOptional]
  rw [Optional.isFormed] at formed
  exact given base false false true jumps frames first formed before outermost entry

end Simulated

mutual

theorem Node.runs (unique : ∀ label, final.sets label ≤ 1) :
    ∀ node : Node F O, node.Simulated runtime layout fuel final blocks
  | .nodes items => .nodes (Nodes.sequence_runs unique items)
  | .operate _ operands => .operate (Nodes.values_runs unique operands)
  | .if_ condition true_ false_ =>
      .if_ unique (Optional.condition_runs unique condition) (Node.runs unique true_)
        (Node.runs unique false_)
  | .while_ condition body =>
      .while_ unique (Optional.condition_runs unique condition) (Node.runs unique body)
  | .for_ initialization condition next body =>
      .for_ unique (Optional.cleared_runs unique initialization)
        (Optional.condition_runs unique condition) (Optional.cleared_runs unique next)
        (Node.runs unique body)
  | .break_ expression => .break_ (Node.runs unique expression)
  | .continue_ => .continue_
  | .return_ expression => .return_ (Node.runs unique expression)
  | .try_ body catches finally_ =>
      .try_ unique (Node.runs unique body) (Catches.runs unique catches)
        (Optional.cleared_runs unique finally_)
  | .throw_ expression => .throw_ (Node.runs unique expression)
  | .symbolGet resolved variable_ symbol => .symbolGet resolved variable_ symbol
  | .scopePut _ _ value => .scopePut (Node.runs unique value)
  | .self outer => .self outer
  | .literal literal => .literal literal
  | .unary _ expression => .unary (Node.runs unique expression)
  | .binary _ left right => .binary (Node.runs unique left) (Node.runs unique right)
  | .preserve => .preserve
  | .call target arguments expands => by
      have each := Nodes.values_runs unique arguments
      cases called : target.called layout expands with
      | some found => exact .callVariable each called
      | none =>
          refine .call (Node.runs unique target) ?_ each called
          rintro action operands rfl
          exact Nodes.values_runs unique operands
  termination_by tree => sizeOf tree

theorem Nodes.sequence_runs (unique : ∀ label, final.sets label ≤ 1) :
    ∀ nodes : Nodes F O, nodes.SequenceSimulated runtime layout fuel final blocks
  | .nil => .nil
  | .cons head rest => .cons (Node.runs unique head) (Nodes.sequence_runs unique rest)
  termination_by tree => sizeOf tree

theorem Nodes.values_runs (unique : ∀ label, final.sets label ≤ 1) :
    ∀ nodes : Nodes F O, nodes.ValuesSimulated runtime layout fuel final blocks
  | .nil => .nil
  | .cons head rest => .cons (Node.runs unique head) (Nodes.values_runs unique rest)
  termination_by tree => sizeOf tree

theorem Catches.runs (unique : ∀ label, final.sets label ≤ 1) :
    ∀ catches : Catches F O, catches.Simulated runtime layout fuel final blocks
  | .nil => .nil
  | .cons expression _ body tail =>
      .cons unique (Node.runs unique expression) (Node.runs unique body)
        (Catches.runs unique tail)
  termination_by tree => sizeOf tree

theorem Optional.condition_runs (unique : ∀ label, final.sets label ≤ 1) :
    ∀ optional : Optional F O, optional.ConditionSimulated runtime layout fuel final blocks
  | .none => .none
  | .some node => .some (Node.runs unique node)
  termination_by tree => sizeOf tree

theorem Optional.cleared_runs (unique : ∀ label, final.sets label ≤ 1) :
    ∀ optional : Optional F O, optional.ClearedSimulated runtime layout fuel final blocks
  | .none => .none
  | .some node => .some (Node.runs unique node)
  termination_by tree => sizeOf tree

end

end Trees

end Plain

end Xemmai
