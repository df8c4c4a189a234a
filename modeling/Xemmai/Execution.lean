import Xemmai.Preservation

/-!
# Runs of a scope

A lambda or a module as a whole: its code ends with a result when the structured
run of its body does, and with the same one; otherwise both go on for ever.
-/

namespace Xemmai

set_option autoImplicit false
set_option linter.unusedSectionVars false

open Stepping (Comes)

section Structured

variable {F O W : Type}

/-- `SCOPE_PUT0` from the first slot above the variables. -/
def State.share (runtime : Runtime F O W) (privates index : Nat) (state : State F O W) :
    State F O W :=
  state.setWorld (runtime.scopePut 0 index (state.slot privates) state.world)

namespace Scope

variable (scope : Scope F O) (runtime : Runtime F O W)

def receive (state : State F O W) (argument : Nat × Nat) : State F O W :=
  let found := scope.layout.variableOf argument.1
  if found.isShared then
    (state.copy scope.layout.privates argument.2 scope.layout.privates).share runtime
      scope.layout.privates found.index
  else state

def enter (state : State F O W) : State F O W :=
  scope.parameters.zipIdx.foldl (scope.receive runtime)
    (if scope.isSelfShared then
      (state.write scope.layout.privates scope.layout.privates runtime.self).share runtime
        scope.layout.privates 0
    else state)

/-- What a scope returns when its body has ended; nothing where it times out. -/
def result : Ending F O W → Option (Result F O × State F O W)
  | (.normal, state) | (.return_, state) =>
      some (.returned (if scope.isLambda then state.slot scope.layout.privates else .null), state)
  | (.returned value, state) => some (.returned value, state)
  | (.threw thrown, state) => some (.threw thrown, state)
  | (.break_, _) | (.continue_, _) | (.timeout, _) => none

variable [Double F]

def performBody (fuel : Nat) (state : State F O W) : Ending F O W :=
  scope.body.perform scope.layout (scope.body.analyze scope.layout) runtime fuel
    scope.jumps.toExits 2 (fun _ => false) scope.layout.privates scope.isLambda false
    (!scope.isLambda) (scope.enter runtime state)

def perform (fuel : Nat) (state : State F O W) : Option (Result F O × State F O W) :=
  scope.result (scope.performBody runtime fuel state)

end Scope

section Prologue

variable {F O W : Type} {scope : Scope F O} {runtime : Runtime F O W} {fuel : Nat}
variable {final first last : Emit F O} {jumps : Jumps} {frames : List (TryFrame F O)}

theorem Runs.share {instruction : Instr F O} {index : Nat} {move : State F O W → State F O W}
    (before : last.Before final)
    (code : last.code =
      first.code ++ [instruction, .scopePut scope.layout.privates 0 index])
    (targets : last.targets = first.targets)
    (executes : ∀ state, execute runtime scope.layout.privates first.code.length frames state
      (instruction.resolve final.target) = .at (first.code.length + 1) frames (move state)) :
    Runs runtime scope.layout fuel final jumps frames first last fun state =>
      (.normal, (move state).share runtime scope.layout.privates index) := by
  have split : last.code =
      (first.emit instruction).code ++ [.scopePut scope.layout.privates 0 index] := by
    simpa [Emit.emit] using code
  have moved : (first.emit instruction).Before final :=
    Emit.Before.trans ⟨⟨_, split.symm⟩, by rw [targets]; rfl⟩ before
  have left : Runs runtime scope.layout fuel final jumps frames first (first.emit instruction)
      fun state => (.normal, move state) := Runs.straight moved rfl executes
  exact left.andThen (Runs.one before split targets fun _ => rfl)

theorem Runs.receives : ∀ (arguments : List (Nat × Nat)) {first last : Emit F O},
    last.code = first.code ++ (arguments.flatMap fun (parameter, i) =>
      let found := scope.layout.variableOf parameter
      if found.isShared then
        [.stackGet scope.layout.privates i, .scopePut scope.layout.privates 0 found.index]
      else []) →
    last.targets = first.targets → last.Before final →
    Runs runtime scope.layout fuel final jumps frames first last fun state =>
      (.normal, arguments.foldl (scope.receive runtime) state) := by
  intro arguments
  induction arguments with
  | nil => exact fun code _ _ => Runs.skip (by simpa using code)
  | cons argument arguments induction =>
      intro first last code targets before
      rcases argument with ⟨parameter, i⟩
      rw [List.flatMap_cons] at code
      have received : ∀ middle : Emit F O, last.code = middle.code ++ _ →
          middle.targets = first.targets →
          Runs runtime scope.layout fuel final jumps frames middle last _ :=
        fun middle rest same => induction rest (targets.trans same.symm) before
      cases isShared : (scope.layout.variableOf parameter).isShared with
      | false =>
          simp only [isShared, Bool.false_eq_true, if_false, List.nil_append] at code
          have skipped := received first code rfl
          intro entry
          simp only [List.foldl_cons, Scope.receive, isShared, Bool.false_eq_true, if_false]
          exact skipped entry
      | true =>
          simp only [isShared, if_true] at code
          rw [← List.append_assoc] at code
          have copied : Runs runtime scope.layout fuel final jumps frames first
              { first with code := first.code ++ [.stackGet scope.layout.privates i,
                .scopePut scope.layout.privates 0 (scope.layout.variableOf parameter).index] } _ :=
            Runs.share (Emit.Before.trans ⟨⟨_, code.symm⟩, by rw [targets]⟩ before) rfl rfl
              fun _ => rfl
          intro entry
          simp only [List.foldl_cons, Scope.receive, isShared, if_true]
          exact copied.andThen (received _ code rfl) entry

theorem Runs.prologue [Double F] (before : scope.start.Before final) :
    Runs runtime scope.layout fuel final jumps frames { scope.start with code := [] } scope.start
      fun state => (.normal, scope.enter runtime state) := by
  have received : ∀ middle : Emit F O, scope.start.code = middle.code ++ _ →
      middle.targets = scope.start.targets →
      Runs runtime scope.layout fuel final jumps frames middle scope.start _ :=
    fun middle rest same => Runs.receives scope.parameters.zipIdx rest same.symm before
  intro entry
  unfold Scope.enter
  cases shared : scope.isSelfShared with
  | false =>
      have code : scope.start.code = ([] : List (Instr F O)) ++ _ :=
        congrArg (fun isShared : Bool => (if isShared then _ else _) ++ _) shared
      exact received { scope.start with code := [] } code rfl entry
  | true =>
      have code : scope.start.code = [.self scope.layout.privates,
          .scopePut scope.layout.privates 0 0] ++ _ :=
        congrArg (fun isShared : Bool => (if isShared then _ else _) ++ _) shared
      have copied : Runs runtime scope.layout fuel final jumps frames { scope.start with code := [] }
          { scope.start with code := [.self scope.layout.privates,
            .scopePut scope.layout.privates 0 0] } _ :=
        Runs.share (Emit.Before.trans ⟨⟨_, code.symm⟩, List.prefix_rfl⟩ before) rfl rfl fun _ => rfl
      exact copied.andThen (received _ code rfl) entry

end Prologue

end Structured

section Whole

variable {F O W : Type} [Double F] {scope : Scope F O} {runtime : Runtime F O W}

@[simp] theorem State.read_self (privates : Nat) (state : State F O W) :
    state.read privates privates = state := by
  simp [State.read]

/-- What `Scope.emit` is made of. -/
theorem Scope.emit_cases {final : Emit F O} (emitted : scope.emit = some final) :
    ∃ (form : Operand F O) (state : Emit F O),
      scope.body.emit scope.layout (scope.body.analyze scope.layout) scope.jumps 2 scope.isLambda
        false (!scope.isLambda) scope.start = some (form, state) ∧
      final = if scope.isLambda then (state.pop.setTarget 0).emit (.return_ state.pop.stack)
        else state.emit (.returnLoad .null) := by
  simp only [Scope.emit, Option.bind_eq_bind, Option.bind_eq_some_iff, Prod.exists] at emitted
  obtain ⟨form, state, body, rest⟩ := emitted
  refine ⟨form, state, body, ?_⟩
  cases isLambda : scope.isLambda with
  | true => simpa [isLambda, eq_comm] using rest
  | false => simpa [isLambda, eq_comm] using rest

theorem Scope.sets_emit {final : Emit F O} (emitted : scope.emit = some final) (label : Nat) :
    final.sets label ≤ 1 := by
  obtain ⟨form, state, body, rfl⟩ := Scope.emit_cases emitted
  have shape := (scope.body.emitted scope.layout _ _ _ _ _ _ body).1
  have fresh : scope.start.sets label = 0 := rfl
  have first : scope.start.labels = 1 := rfl
  have marks := shape.marks label
  cases scope.isLambda with
  | false =>
      have same : (state.emit (.returnLoad .null)).sets label = state.sets label := rfl
      rw [if_neg (by decide), same]
      omega
  | true =>
      have same : ((state.pop.setTarget 0).emit (.return_ state.pop.stack)).sets label =
          state.sets label + if 0 = label then 1 else 0 := Emit.sets_setTarget 0 label state.pop
      rw [if_pos rfl, same]
      split_ifs <;> omega

def Scope.leaves (scope : Scope F O) : Exit F O W := fun completion state config =>
  ∃ result after, scope.result (completion, state) = some (result, after) ∧
    config = .done result after

/-- The code of a scope does what its structured run does. -/
theorem Scope.simulates (scope : Scope F O) (runtime : Runtime F O W)
    {code : List (Instr F O)} (formed : scope.body.isFormed = true)
    (compiled : scope.compile = some code) (fuel : Nat) (state : State F O W) :
    match scope.perform runtime fuel state with
    | some (result, after) =>
        Comes (step runtime scope.layout.privates code) 0 (· = .done result after) (.at 0 [] state)
    | none =>
        Comes (step runtime scope.layout.privates code) fuel
          (Config.Running (scope.performBody runtime fuel state).2) (.at 0 [] state) := by
  obtain ⟨final, emitted, rfl⟩ := Option.map_eq_some_iff.mp compiled
  have unique := Scope.sets_emit emitted
  obtain ⟨form, state1, body, shape⟩ := Scope.emit_cases emitted
  have extended := (scope.body.emitted scope.layout _ _ _ _ _ _ body).1
  have closed : state1.Before final := by
    rw [shape]
    split
    · exact ((Emit.Extends.pop _).toBefore.trans (Emit.before_setTarget 0 _)).trans
        (Emit.Extends.emit _ _).toBefore
    · exact (Emit.Extends.emit _ _).toBefore
  have bodies : Runs runtime scope.layout fuel final scope.jumps [] scope.start state1 _ :=
    scope.body.runs unique 2 scope.isLambda false (!scope.isLambda) scope.jumps [] body formed closed
      fun _ => rfl
  have whole := (Runs.prologue (extended.toBefore.trans closed)).andThen bodies
  have returned : ∀ after : State F O W,
      step runtime scope.layout.privates final.resolved (.at state1.code.length [] after) =
        .done (.returned (if scope.isLambda then after.slot scope.layout.privates else .null))
          after := by
    intro after
    cases isLambda : scope.isLambda with
    | false =>
        rw [isLambda, if_neg (by decide)] at shape
        have found := Emit.resolved_at (shape ▸ Emit.Before.refl final :
          (state1.emit (.returnLoad .null)).Before final)
        simp only [step, found]
        rfl
    | true =>
        rw [isLambda, if_pos rfl] at shape
        have found := Emit.resolved_at (shape ▸ Emit.Before.refl final :
          ((state1.pop.setTarget 0).emit (.return_ state1.pop.stack)).Before final)
        have height : state1.pop.stack = scope.layout.privates := by
          rw [isLambda] at body
          have plain := Emitted.plain (scope.body.emitted scope.layout _ _ _ _ false false body)
          simp only [Emit.stack_pop, plain.stack]
          rfl
        have entered : (state1.pop.setTarget 0).code.length = state1.code.length := rfl
        rw [entered] at found
        simp only [step, found, Instr.resolve, execute, height, Config.returned, State.read_self,
          if_true]
  have ended : Simulates runtime scope.layout.privates final.resolved scope.leaves fuel 0
      (.at 0 [] state) (scope.performBody runtime fuel state) := by
    refine ((whole state).fewer (le_refl fuel) (Nat.zero_le 1)).onward ?_
    have stepped : ∀ completion after, completion ≠ .timeout →
        scope.result (completion, after) = some (.returned (if scope.isLambda then
          after.slot scope.layout.privates else .null), after) →
        Simulates runtime scope.layout.privates final.resolved scope.leaves fuel 0
          (.at state1.code.length [] after) (completion, after) := by
      intro completion after lasting found
      refine Simulates.mk lasting ((Comes.next (Comes.here ?_)).fewer (Nat.zero_le 1))
      exact ⟨_, _, found, returned after⟩
    intro completion after config left
    cases completion with
    | normal =>
        obtain rfl : config = _ := left
        exact stepped .normal after (by rintro ⟨⟩) rfl
    | return_ =>
        obtain ⟨label, found, rfl⟩ := left
        unfold Scope.jumps at found
        split at found
        · next isLambda =>
            obtain rfl := Option.some.inj found
            rw [if_pos isLambda] at shape
            have target : final.target 0 = state1.code.length :=
              Emit.target_eq unique (Emit.Before.refl final)
                (shape ▸ Emit.mem_setTarget 0 state1.pop)
            rw [target]
            exact stepped .return_ after (by rintro ⟨⟩) rfl
        · exact absurd found (by rintro ⟨⟩)
    | returned value =>
        exact Simulates.here (by rintro ⟨⟩) ⟨_, _, rfl, left.2⟩
    | threw thrown => exact Simulates.here (by rintro ⟨⟩) ⟨_, _, rfl, left⟩
    | break_ =>
        obtain ⟨label, found, _⟩ := left
        exact absurd found (by unfold Scope.jumps; split <;> rintro ⟨⟩)
    | continue_ =>
        obtain ⟨label, found, _⟩ := left
        exact absurd found (by unfold Scope.jumps; split <;> rintro ⟨⟩)
    | timeout => exact left.elim
  unfold Scope.perform
  revert ended
  generalize scope.performBody runtime fuel state = ending
  intro ended
  rcases ending with ⟨completion, after⟩
  cases completion with
  | timeout => exact ended
  | break_ =>
      obtain ⟨n, _, _, _, found, _⟩ := ended
      exact absurd found (by rintro ⟨⟩)
  | continue_ =>
      obtain ⟨n, _, _, _, found, _⟩ := ended
      exact absurd found (by rintro ⟨⟩)
  | _ =>
      refine Comes.imp ended ?_
      rintro config ⟨result, last, found, rfl⟩
      cases found
      rfl

theorem step_done (runtime : Runtime F O W) (privates : Nat) (code : List (Instr F O))
    (result : Result F O) (state : State F O W) :
    step runtime privates code (.done result state) = .done result state := rfl

theorem Scope.performed_of_done {code : List (Instr F O)} (formed : scope.body.isFormed = true)
    (compiled : scope.compile = some code) {n : Nat} {state after : State F O W}
    {result : Result F O} (ended : scope.run runtime code n state = .done result after) :
    scope.perform runtime n state = some (result, after) := by
  have simulated := scope.simulates runtime formed compiled n state
  split at simulated
  · next other last performed =>
      obtain ⟨m, _, arrived⟩ := simulated
      have same := Stepping.halted_unique ended (step_done ..) arrived (step_done ..)
      cases same
      exact performed
  · next performed =>
      obtain ⟨pc, frames, found⟩ := Comes.halted simulated ended (step_done ..) (le_refl n)
      exact absurd found (by rintro ⟨⟩)

theorem Scope.run_of_performed {code : List (Instr F O)} (formed : scope.body.isFormed = true)
    (compiled : scope.compile = some code) {fuel : Nat} {state after : State F O W}
    {result : Result F O} (performed : scope.perform runtime fuel state = some (result, after)) :
    ∃ n, scope.run runtime code n state = .done result after := by
  have simulated := scope.simulates runtime formed compiled fuel state
  rw [performed] at simulated
  obtain ⟨n, _, ended⟩ := simulated
  exact ⟨n, ended⟩

/-- The code of a scope ends if and only if its structured run does, and with the same result
and in the same state. -/
theorem Scope.run_done_iff {code : List (Instr F O)} (formed : scope.body.isFormed = true)
    (compiled : scope.compile = some code) (state : State F O W) (result : Result F O)
    (after : State F O W) :
    (∃ n, scope.run runtime code n state = .done result after) ↔
      ∃ fuel, scope.perform runtime fuel state = some (result, after) := by
  constructor
  · rintro ⟨n, ended⟩
    exact ⟨n, Scope.performed_of_done formed compiled ended⟩
  · rintro ⟨fuel, performed⟩
    exact Scope.run_of_performed formed compiled performed

end Whole

section Example

/-- Native code that does nothing. -/
def idle : Runtime Int Unit Unit where
  operate _ _ world := (.ok .null, world)
  unary _ _ _ world := (.ok .null, world)
  binary _ _ _ _ _ world := (.ok .null, world)
  bind _ _ world := (.ok (.null, .null), world)
  call _ _ _ _ world := (.ok .null, world)
  catches _ _ world := (.ok true, world)
  scopeGet _ _ _ := .null
  scopePut _ _ _ world := world
  self := .null

/-- `@(x) while x; try; break 7; finally; x = null` -/
def escape : Scope Int Unit where
  layout := ⟨1, 1, fun _ => ⟨false, true, 0⟩, fun _ _ => Nat.zero_lt_one⟩
  isLambda := true
  isSelfShared := false
  parameters := [0]
  body := .while_ (.some (.symbolGet 0 (some 0) 0))
    (.try_ (.break_ (.literal (.integer 7))) .nil (.some (.scopePut 0 0 (.literal .null))))

def called (argument : Value Int Unit) : State Int Unit Unit :=
  ⟨fun _ => argument, fun index => if index = 0 then argument else .null, fun index => index = 0,
    [], ()⟩

theorem escape_run : ∃ n after,
    escape.run idle (escape.compile.getD []) n (called (.boolean true)) =
      .done (.returned (.integer 7)) after := by
  have performed : ∃ after, escape.perform idle 1 (called (.boolean true)) =
      some (.returned (.integer 7), after) := ⟨_, rfl⟩
  obtain ⟨after, performed⟩ := performed
  obtain ⟨n, ended⟩ := (Scope.run_done_iff rfl rfl _ _ _).mpr ⟨1, performed⟩
  exact ⟨n, after, ended⟩

end Example

section Whole

variable {F O W : Type} [Double F] {scope : Scope F O} {runtime : Runtime F O W}

/-- The emitter never leads an interpreter to where it does not know how to go on. -/
theorem Scope.run_defined {code : List (Instr F O)} (formed : scope.body.isFormed = true)
    (compiled : scope.compile = some code) (n : Nat) (state after : State F O W) :
    scope.run runtime code n state ≠ .done .undefined after := by
  intro ended
  have performed := Scope.performed_of_done formed compiled ended
  unfold Scope.perform Scope.result at performed
  split at performed <;> simp at performed

theorem escape_defined : escape.run idle (escape.compile.getD []) 14 (called .null) ≠
    .done .undefined (called .null) :=
  Scope.run_defined rfl rfl 14 (called .null) (called .null)

end Whole

end Xemmai
