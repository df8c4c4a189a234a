import Xemmai.Suspension
import Xemmai.Handlers

/-!
# Delivery

Every run in which no fiber is freed before its end, and in which the handlers are left
in the reverse order of entering them, makes the moves of a transfer and no others, runs
the finally block of each `f_try`, behind which it throws what the `f_try` has caught,
and lets no clause catch `v_fiber_exit`.
-/

namespace Xemmai.Fibers

set_option autoImplicit false

def Phase.isOpen {V : Type} : Phase V → Bool
  | body | matching _ _ | caught _ => true
  | finishing | rethrowing _ _ => false

/-- Code of the active fiber is executed, or its stack unwound. -/
def Control.Coding {V : Type} (control : Control V) : Prop :=
  control ≠ .exiting ∧ control ≠ .over_ ∧ control ≠ .undefined

def Outcome.control {V : Type} : Outcome V → Control V
  | returned _ => .code
  | threw x => .raising x

theorem Outcome.control_coding {V : Type} (outcome : Outcome V) : outcome.control.Coding := by
  cases outcome with
  | returned x => exact ⟨by simp [control], by simp [control], by simp [control]⟩
  | threw x => exact ⟨by simp [control], by simp [control], by simp [control]⟩

variable {ι V : Type} [DecidableEq ι]

namespace State

section

variable {setting : Setting ι V} {state : State ι V}

theorem resume_calling {fiber : ι} {value : Fiber} {slot : Nat} {x : V}
    (point : (state.internal state.executing).point = some (.calling fiber slot))
    (locked : state.locked = true) (found : state.fiber fiber = some value)
    (calm : value.throw_ = false) (stored : state.slot slot = some x) :
    state.resume = some { state.note (.resumed fiber slot (.returned x)) with
      locked := false, control := .code } := by
  simp only [resume, point, unlock, locked, if_pos, found, calm, stored, Option.bind_eq_bind,
    Option.bind_some, Bool.false_eq_true, if_false]
  rfl

theorem resume_throwing {fiber : ι} {value : Fiber} {slot pending : Nat} {x : V}
    (point : (state.internal state.executing).point = some (.calling fiber pending))
    (locked : state.locked = true) (found : state.fiber fiber = some value)
    (throws : value.throw_ = true) (return_ : value.return_ = some slot)
    (stored : state.slot slot = some x) :
    state.resume = some { (state.setFiber fiber { value with throw_ := false }).note
      (.resumed fiber pending (.threw x)) with locked := false, control := .raising x } := by
  obtain ⟨internal, _, _⟩ := value
  subst throws return_
  simp only [resume, point, unlock, locked, if_pos, found, stored, Option.bind_eq_bind,
    Option.bind_some]
  rfl

/-- The flag that says what the outcome is has been cleared when the call goes on. -/
theorem resume_delivers {fiber : ι} {value : Fiber} {slot : Nat} (outcome : Outcome V)
    (point : (state.internal state.executing).point = some (.calling fiber slot))
    (locked : state.locked = true) (calm : value.throw_ = false)
    (found : state.fiber fiber = some { value with throw_ := outcome.thrown.isSome })
    (return_ : value.return_ = some slot) (stored : state.slot slot = some outcome.value) :
    state.resume = some { state with
      fiber := Function.update state.fiber fiber (some value)
      log := state.log ++ [.resumed fiber slot outcome]
      locked := false
      control := outcome.control } := by
  obtain ⟨internal, _, _⟩ := value
  cases calm
  cases return_
  cases outcome with
  | returned x =>
    have same : Function.update state.fiber fiber (some ⟨internal, false, some slot⟩) =
        state.fiber := by
      rw [Function.update_eq_self_iff, found]
      rfl
    rw [resume_calling point locked found rfl stored, same]
    rfl
  | threw x => exact resume_throwing point locked found rfl rfl stored

theorem resume_entry {fiber : ι} {x : V} {value : Fiber}
    (point : (state.internal state.executing).point = some (.entry x))
    (locked : state.locked = true) (owner : (state.internal state.active).fiber = fiber)
    (found : state.fiber fiber = some value) :
    state.resume = some { state.note (.started fiber x) with
      locked := false, control := .code } := by
  subst owner
  simp only [resume, point, unlock, locked, if_pos, found, Option.bind_eq_bind, Option.bind_some]
  rfl

theorem resume_exiting (point : (state.internal state.executing).point = some .exiting) :
    state.resume = some { state with control := .exiting } := by
  simp only [resume, point, Option.bind_eq_bind, Option.bind_some]
  rfl

omit [DecidableEq ι] in
/-- A stack whose `f_try`s are of no account for where it waits. -/
theorem Sound.setTries (sound : state.Sound setting) (tries : List (Try V)) :
    (state.setTries tries).Sound setting ∧ (state.setTries tries).transfer = state.transfer := by
  have internals : ∀ c, ((state.setTries tries).internal c).fiber = (state.internal c).fiber ∧
      ((state.setTries tries).internal c).running = (state.internal c).running ∧
      ((state.setTries tries).internal c).atMain = (state.internal c).atMain ∧
      ((state.setTries tries).internal c).point = (state.internal c).point := by
    intro c
    simp only [State.setTries, setInternal, Function.update_apply]
    split
    · rename_i same
      subst same
      exact ⟨rfl, rfl, rfl, rfl⟩
    · exact ⟨rfl, rfl, rfl, rfl⟩
  refine ⟨⟨sound.active, sound.member, (internals _).2.1.trans sound.runs, ?_, ?_, sound.bound,
    sound.bottom, sound.main, ?_, sound.throws, ?_, ?_, sound.returns⟩, ?_⟩
  · intro c member running
    rw [(internals c).1]
    exact sound.running c member ((internals c).2.1 ▸ running)
  · intro fiber value c found internal
    rw [(internals c).1, (internals c).2.1]
    exact sound.owned fiber value c found internal
  · intro c member
    rw [(internals c).2.2.1]
    exact sound.atMain c member
  · intro c member running other main
    unfold Ready
    rw [(internals c).1, (internals c).2.2.2]
    exact sound.ready c member ((internals c).2.1 ▸ running) other main
  · intro ended other
    rw [(internals 0).2.2.2]
    exact sound.waiting ended other
  · have pendings : (state.setTries tries).pending = state.pending := by
      funext fiber
      exact pending_congr rfl fun value c _ _ => ⟨(internals c).2.2.2, Iff.rfl⟩
    simp only [State.transfer, pendings]
    exact congrArg (fun first => (⟨first, _, _, _⟩ : Transfer ι)) (internals _).1

end

/-- An `f_try` whose finally block has not begun is in progress on some stack. -/
def Trying (state : State ι V) (number : Nat) : Prop :=
  ∃ c ∈ state.internals, (state.internal c).running = true ∧
    ∃ frame ∈ (state.internal c).tries, frame.number = number ∧ frame.phase.isOpen = true

/-- What every run keeps in which no fiber is freed before its end. -/
structure Kept (setting : Setting ι V) (state : State ι V) : Prop where
  sound : state.Sound setting
  trace : Machine.Trace (Transfer.Moves setting.main setting.exit) (start setting).transfer
    state.log state.transfer
  defined : state.control ≠ .undefined
  locked : state.locked = true ↔ state.control = .exiting
  looping : state.stage = .ended ∧ state.executing = 0 ↔
    state.control = .exiting ∨ state.control = .over_
  over_ : state.control = .over_ → ∀ c ∈ state.internals, (state.internal c).running = true → c = 0
  begun : ∀ c ∈ state.internals, (state.internal c).running = true → c ≠ state.executing →
    ∀ x, (state.internal c).point ≠ some (.entry x)
  quiet : state.stage = .ended → (state.internal 0).tries = []
  finals : ∀ number, .entered number ∈ state.attempts →
    .finally_ number ∈ state.attempts ∨ state.Trying number
  uncaught : ∀ number thrown, .caught number thrown ∈ state.attempts → thrown ≠ setting.exit

section

variable {setting : Setting ι V} {state : State ι V}

theorem Kept.unlocked (kept : state.Kept setting) (coding : state.control.Coding) :
    state.locked = false := by
  rw [← Bool.not_eq_true, kept.locked]
  exact coding.1

theorem Kept.code (kept : state.Kept setting) (coding : state.control.Coding) :
    state.stage = .ended → state.executing ≠ 0 := by
  intro ended zero
  rcases kept.looping.mp ⟨ended, zero⟩ with exiting | over_
  · exact coding.1 exiting
  · exact coding.2.1 over_

theorem Kept.coded (kept : state.Kept setting) (coding : state.control.Coding) :
    state.transfer.ending = true → state.transfer.active ≠ setting.main := by
  intro ending main
  obtain ⟨value, found, saved⟩ := kept.sound.current
  obtain ⟨other, found', zero⟩ := kept.sound.main
  rw [show (state.internal state.active).fiber = setting.main from main] at found
  obtain rfl := Option.some.inj (found.symm.trans found')
  exact kept.code coding (Stage.isEnded_iff.mp ending)
    (Option.some.inj (saved.symm.trans zero))

/-- What is to be shown of a step whose stacks keep what they have in progress. -/
theorem Kept.moved (kept : state.Kept setting) {after : State ι V} (more : List (Entry ι V))
    (sound : after.Sound setting)
    (log : after.log = state.log ++ more)
    (move : Transfer.Moves setting.main setting.exit state.transfer more after.transfer)
    (defined : after.control ≠ .undefined)
    (locked : after.locked = true ↔ after.control = .exiting)
    (looping : after.stage = .ended ∧ after.executing = 0 ↔
      after.control = .exiting ∨ after.control = .over_)
    (over_ : after.control = .over_ →
      ∀ c ∈ after.internals, (after.internal c).running = true → c = 0)
    (begun : ∀ c ∈ after.internals, (after.internal c).running = true → c ≠ after.executing →
      ∀ x, (after.internal c).point ≠ some (.entry x))
    (quiet : after.stage = .ended → (after.internal 0).tries = [])
    (attempts : after.attempts = state.attempts)
    (frames : ∀ c ∈ state.internals, (state.internal c).running = true →
      (state.internal c).tries ≠ [] → c ∈ after.internals ∧
        (after.internal c).running = true ∧
        (after.internal c).tries = (state.internal c).tries) : after.Kept setting where
  sound := sound
  trace := log ▸ kept.trace.append move
  defined := defined
  locked := locked
  looping := looping
  over_ := over_
  begun := begun
  quiet := quiet
  finals number entered := by
    rw [attempts] at entered ⊢
    refine (kept.finals number entered).imp_right ?_
    rintro ⟨c, member, running, frame, inside, known⟩
    obtain ⟨member, running, same⟩ := frames c member running (List.ne_nil_of_mem inside)
    exact ⟨c, member, running, frame, same ▸ inside, known⟩
  uncaught := by
    rw [attempts]
    exact kept.uncaught

theorem Kept.goes (kept : state.Kept setting) (coding : state.control.Coding)
    {next : Control V} (goes : next.Coding) {stage : Stage V}
    (same : stage = .ended ↔ state.stage = .ended) :
    ({ state with control := next, stage := stage } : State ι V).Kept setting := by
  have stages : stage.isEnded = state.stage.isEnded := by
    rw [Bool.eq_iff_iff, Stage.isEnded_iff, Stage.isEnded_iff, same]
  have sound : ({ state with control := next, stage := stage } : State ι V).Sound setting :=
    { kept.sound with
      throws := fun fiber value found main =>
        kept.sound.throws fiber value found fun isMain ended => main isMain (same.mpr ended)
      ready := fun c member running other main =>
        kept.sound.ready c member running other fun zero ended => main zero (same.mpr ended)
      waiting := fun ended => kept.sound.waiting (same.mp ended)
      returns := fun ended => kept.sound.returns (same.mp ended) }
  have transfer : ({ state with control := next, stage := stage } : State ι V).transfer =
      state.transfer := congrArg (fun ending => (⟨_, _, _, ending⟩ : Transfer ι)) stages
  refine kept.moved [] sound (List.append_nil _).symm ?_ goes.2.2 ?_ ?_ ?_
    kept.begun ?_ rfl fun c member running _ => ⟨member, running, rfl⟩
  · rw [transfer]
    exact .stay _
  · exact ⟨fun locked => absurd locked (by simp [kept.unlocked coding]),
      fun exiting => absurd exiting goes.1⟩
  · constructor
    · rintro ⟨ended, zero⟩
      exact absurd zero (kept.code coding (same.mp ended))
    · rintro (exiting | over_)
      · exact absurd exiting goes.1
      · exact absurd over_ goes.2.1
  · exact fun over_ => absurd over_ goes.2.1
  · exact fun ended => kept.quiet (same.mp ended)

variable (setting state) in
theorem switched_internal (callee : ι) (x : V) (value : Fiber) (target c : Nat) :
    ((state.switched setting callee x value target).internal c).running =
        (state.internal c).running ∧
      ((state.switched setting callee x value target).internal c).tries =
        (state.internal c).tries ∧
      (c ≠ state.executing → ((state.switched setting callee x value target).internal c) =
        state.internal c) ∧
      ∀ y, ((state.switched setting callee x value target).internal c).point = some (.entry y) →
        (state.internal c).point = some (.entry y) ∧ c ≠ state.executing := by
  simp only [switched, Function.update_apply]
  split
  · rename_i same
    subst same
    exact ⟨rfl, rfl, fun other => absurd rfl other, fun y point => by simp at point⟩
  · rename_i other
    exact ⟨rfl, rfl, fun _ => rfl, fun y point => ⟨point, other⟩⟩

theorem Kept.transfers (kept : state.Kept setting) (coding : state.control.Coding)
    {callee : ι} {value : Fiber} {target : Nat} (x : V)
    (found : state.fiber callee = some value) (internal : value.internal = some target)
    (other : callee ≠ (state.internal state.active).fiber) :
    ∃ slot after, value.return_ = some slot ∧
      ((({ state with locked := true } : State ι V).setSlot slot x).switch setting
        (state.internal state.active).fiber callee x) = some after ∧ after.Kept setting := by
  have sound := kept.sound
  have code := kept.code coding
  obtain ⟨caller, callerFound, saved⟩ := sound.current
  obtain ⟨owner, runs, member⟩ := sound.owned callee value target found internal
  have away : target ≠ state.executing := by
    rintro rfl
    exact other (sound.apart found internal callerFound saved)
  have locked : ({ state with locked := true } : State ι V).Sound setting := { sound with }
  have switch := fun slot => (locked.setSlot slot x).switch_eq (x := x) callerFound found internal
  have switched := fun slot => (locked.setSlot slot x).switched (x := x) callerFound found
    internal other code
  have frames := fun slot => switched_internal setting
    (({ state with locked := true } : State ι V).setSlot slot x) callee x caller target
  have active : state.transfer.active = (state.internal state.active).fiber := rfl
  by_cases exiting : target = 0 ∧ state.stage = .ended
  · obtain ⟨rfl, ended⟩ := exiting
    obtain ⟨main, slot, mainFound, return_⟩ := sound.returns ended
    have isMain : callee = setting.main := by
      obtain ⟨main, mainFound, zero⟩ := sound.main
      exact sound.apart found internal mainFound zero
    subst isMain
    obtain rfl := Option.some.inj (found.symm.trans mainFound)
    have point := congrArg Internal.point ((frames slot 0).2.2.1 away)
    refine ⟨slot, _, return_,
      (switch slot).trans (resume_exiting (point.trans (sound.waiting ended (code ended)))), ?_⟩
    refine kept.moved _ { (switched slot).1 with } rfl ?_ (by simp)
      ⟨fun _ => rfl, fun _ => rfl⟩ ⟨fun _ => Or.inl rfl, fun _ => ⟨ended, rfl⟩⟩ (by simp) ?_ ?_
      rfl ?_
    · exact (switched slot).2 ▸ .yieldMain x (active ▸ other.symm)
        (Stage.isEnded_iff.mpr ended) (Nat.le_refl _)
    · intro c inside running apart y entry
      obtain ⟨entry, away⟩ := (frames slot c).2.2.2 y entry
      exact kept.begun c inside ((frames slot c).1 ▸ running) away y entry
    · intro ended
      exact (frames slot 0).2.1.trans (kept.quiet ended)
    · intro c inside running _
      exact ⟨inside, (frames slot c).1.trans running, (frames slot c).2.1⟩
  · obtain ⟨y, entry⟩ | ⟨before, slot, y, known, calling, return_, stored, low⟩ :=
      sound.ready target member runs away fun zero ended => exiting ⟨zero, ended⟩
    · exact absurd entry (kept.begun target member runs away y)
    · rw [owner] at known calling
      obtain rfl := Option.some.inj (found.symm.trans known)
      have point := congrArg Internal.point ((frames slot target).2.2.1 away)
      have calm : value.throw_ = false := by
        refine sound.throws callee value found fun isMain ended => exiting ⟨?_, ended⟩
        obtain ⟨main, mainFound, zero⟩ := sound.main
        rw [← isMain, found] at mainFound
        obtain rfl := Option.some.inj mainFound
        exact Option.some.inj (internal.symm.trans zero)
      refine ⟨slot, _, return_, (switch slot).trans (resume_calling (point.trans calling) rfl
        ((Function.update_of_ne other _ _).trans found) calm (x := x) ?_), ?_⟩
      · exact (Function.update_of_ne (Nat.ne_of_lt low) _ _).trans (Function.update_self ..)
      · refine kept.moved _ { (switched slot).1 with } (List.append_assoc ..) ?_ (by simp)
          (by simp) ?_ (by simp) ?_ ?_ rfl ?_
        · refine (switched slot).2 ▸ .transfer x ?_ (active ▸ other) ?_ (Nat.le_refl _)
          · exact kept.coded coding
          · rw [show state.transfer.pending callee = state.pending callee from rfl,
              pending_of found internal, if_neg away, calling]
        · exact ⟨fun ⟨ended, zero⟩ => absurd ⟨zero, ended⟩ exiting, by simp⟩
        · intro c inside running apart y entry
          obtain ⟨entry, away⟩ := (frames slot c).2.2.2 y entry
          exact kept.begun c inside ((frames slot c).1 ▸ running) away y entry
        · intro ended
          exact (frames slot 0).2.1.trans (kept.quiet ended)
        · intro c inside running _
          exact ⟨inside, (frames slot c).1.trans running, (frames slot c).2.1⟩

theorem Kept.starts (kept : state.Kept setting) (coding : state.control.Coding)
    {callee : ι} {value : Fiber} (x : V) (found : state.fiber callee = some value)
    (idle : value.internal = none) (other : callee ≠ (state.internal state.active).fiber) :
    ∃ after, (({ state with locked := true } : State ι V).enlisted callee value x).switch setting
        (state.internal state.active).fiber callee x = some after ∧ after.Kept setting := by
  have sound := kept.sound
  have code := kept.code coding
  obtain ⟨caller, callerFound, saved⟩ := sound.current
  have locked : ({ state with locked := true } : State ι V).Sound setting := { sound with }
  obtain ⟨enlisted, transfer⟩ := locked.enlisted x found idle
  have old : ∀ c ∈ state.internals,
      (({ state with locked := true } : State ι V).enlisted callee value x).internal c =
        state.internal c :=
    fun c member => Function.update_of_ne (Nat.ne_of_lt (sound.bound c member)) _ _
  have new : (({ state with locked := true } : State ι V).enlisted callee value x).internal
      state.created = ⟨callee, false, true, some (.entry x), []⟩ := Function.update_self ..
  have bottom : 0 ∈ state.internals := by
    obtain ⟨others, shape, _⟩ := sound.bottom
    exact shape ▸ List.mem_append_right _ List.mem_cons_self
  have active := old state.active (sound.active ▸ sound.member)
  have fresh : (({ state with locked := true } : State ι V).enlisted callee value x).fiber callee =
      some { value with internal := some state.created } := Function.update_self ..
  have callerFound' : (({ state with locked := true } : State ι V).enlisted callee value x).fiber
      (state.internal state.active).fiber = some caller :=
    (Function.update_of_ne other.symm _ _).trans callerFound
  have owner : ((({ state with locked := true } : State ι V).enlisted callee value x).internal
      (({ state with locked := true } : State ι V).enlisted callee value x).active).fiber =
        (state.internal state.active).fiber := congrArg Internal.fiber active
  have switch := enlisted.switch_eq (x := x) (owner ▸ callerFound') fresh rfl
  obtain ⟨sound', transfer'⟩ := enlisted.switched (x := x) (owner ▸ callerFound') fresh rfl
    (owner ▸ other) code
  have frames := switched_internal setting
    (({ state with locked := true } : State ι V).enlisted callee value x) callee x caller
    state.created
  rw [owner] at switch
  have away : state.created ≠ state.executing := (Nat.ne_of_lt (sound.bound _ sound.member)).symm
  have entered := ((frames state.created).2.2.1 away).trans new
  have resumed := resume_entry (congrArg Internal.point entered) rfl
    (congrArg Internal.fiber entered)
    ((Function.update_of_ne (owner ▸ other) _ _).trans fresh)
  have bottomless : (0 : Nat) ≠ state.created := Nat.ne_of_lt (sound.bound 0 bottom)
  refine ⟨_, switch.trans resumed, ?_⟩
  refine kept.moved _ { sound' with } (List.append_assoc ..) ?_ (by simp) (by simp) ?_ (by simp) ?_
    ?_ rfl ?_
  · have noMain : callee ≠ setting.main := by
      rintro rfl
      obtain ⟨main, mainFound, zero⟩ := sound.main
      obtain rfl := Option.some.inj (found.symm.trans mainFound)
      rw [idle] at zero
      cases zero
    have pending : state.transfer.pending callee = none := by
      refine pending_idle fun before known => ?_
      rw [← Option.some.inj (found.symm.trans known), idle]
    have move : Transfer.Moves setting.main setting.exit state.transfer
        [.called (state.internal state.active).fiber callee state.slots x, .started callee x]
        (state.transfer.yield callee state.slots) :=
      .start x (kept.coded coding) other pending noMain (Nat.le_refl _)
    rw [← owner] at move
    have same := transfer'.trans (congrArg (Transfer.yield callee state.slots) transfer)
    exact same ▸ move
  · exact ⟨fun ⟨_, zero⟩ => absurd zero.symm bottomless, by simp⟩
  · intro c inside running apart y entry
    obtain ⟨entry, away⟩ := (frames c).2.2.2 y entry
    rcases List.mem_cons.mp inside with rfl | inside
    · exact apart rfl
    · rw [old c inside] at entry
      exact kept.begun c inside (old c inside ▸ (frames c).1 ▸ running) away y entry
  · intro ended
    exact (frames 0).2.1.trans ((congrArg Internal.tries (old 0 bottom)).trans (kept.quiet ended))
  · intro c inside running _
    have same := old c inside
    exact ⟨List.mem_cons_of_mem _ inside, (frames c).1.trans ((congrArg Internal.running same).trans
      running), (frames c).2.1.trans (congrArg Internal.tries same)⟩

theorem raising_coding (thrown : V) : (Control.raising thrown).Coding := ⟨by simp, by simp, by simp⟩

theorem code_coding : (Control.code : Control V).Coding := ⟨by simp, by simp, by simp⟩

theorem Kept.raises (kept : state.Kept setting) (coding : state.control.Coding) (thrown : V) :
    ({ state with control := .raising thrown } : State ι V).Kept setting :=
  kept.goes coding (raising_coding thrown) Iff.rfl

theorem Kept.call (kept : state.Kept setting) (coding : state.control.Coding) {callee : ι}
    {value : Fiber} (found : state.fiber callee = some value) (arguments : List V) :
    ∃ after, state.call setting callee arguments = some after ∧ after.Kept setting := by
  by_cases single : ∃ x, arguments = [x]
  · obtain ⟨x, rfl⟩ := single
    have unlocked := kept.unlocked coding
    have lock : state.lock = some { state with locked := true } := by
      simp only [State.lock, unlocked, Bool.false_eq_true, if_false]
    simp only [State.call, lock, Option.bind_eq_bind, Option.bind_some, found]
    by_cases same : callee = (state.internal state.active).fiber
    · rw [if_pos same]
      refine ⟨_, rfl, kept.moved _ { kept.sound with } rfl (.refuse (kept.coded coding)) (by simp)
        (by simp [State.note]) ?_ (by simp) kept.begun kept.quiet rfl
        fun c member running _ => ⟨member, running, rfl⟩⟩
      exact ⟨fun ⟨ended, zero⟩ => absurd zero (kept.code coding ended), by simp⟩
    · rw [if_neg same]
      cases internal : value.internal with
      | none =>
        obtain ⟨after, started, stays⟩ := kept.starts coding x found internal same
        exact ⟨after, started, stays⟩
      | some target =>
        obtain ⟨slot, after, return_, transferred, stays⟩ :=
          kept.transfers coding x found internal same
        obtain ⟨owner, runs, member⟩ := kept.sound.owned callee value target found internal
        simp only [runs, if_pos, return_, Option.bind_some]
        exact ⟨after, transferred, stays⟩
  · refine ⟨_, ?_, kept.raises coding (setting.error "must be called with an argument.")⟩
    unfold State.call
    split
    · rename_i x
      exact absurd ⟨x, rfl⟩ single
    · rfl

/-- The callable of another fiber than the main one ends. -/
theorem Kept.finish (kept : state.Kept setting) (coding : state.control.Coding)
    (empty : (state.internal state.executing).tries = []) (other : state.executing ≠ 0)
    (outcome : Outcome V) :
    ∃ after, state.finish setting outcome = some after ∧ after.Kept setting := by
  have sound := kept.sound
  obtain ⟨value, found, saved⟩ := sound.running _ sound.member sound.runs
  obtain ⟨ended, transfer, noMain⟩ := sound.ends found other
  obtain ⟨main, mainFound, zero⟩ := sound.main
  obtain ⟨mainOwner, mainRuns, mainInside⟩ := sound.owned _ main 0 mainFound zero
  have lock : state.lock = some { state with locked := true } := by
    simp only [State.lock, kept.unlocked coding, Bool.false_eq_true, if_false]
  have finished : ∀ slot, main.return_ = some slot → state.finish setting outcome =
      State.resume { state with
        fiber := Function.update (Function.update state.fiber
          (state.internal state.executing).fiber (some { value with internal := none }))
          setting.main (some { main with throw_ := outcome.thrown.isSome })
        internal := Function.update state.internal state.executing
          { state.internal state.executing with running := false }
        slot := Function.update state.slot slot (some outcome.value)
        locked := true
        active := 0
        executing := 0
        log := state.log ++ [.ended (state.internal state.executing).fiber outcome] } := by
    intro slot return_
    have stays : Function.update state.fiber (state.internal state.executing).fiber
        (some { value with internal := none }) setting.main = some main := by
      rw [Function.update_of_ne noMain, mainFound]
    simp only [State.finish, lock, Option.bind_eq_bind, Option.bind_some, found, saved, setFiber,
      setInternal, stays, return_, zero]
    rfl
  have internals : ∀ c, c ≠ state.executing → Function.update state.internal state.executing
      { state.internal state.executing with running := false } c = state.internal c :=
    fun c apart => Function.update_of_ne apart _ _
  have runs : ∀ c, (Function.update state.internal state.executing
      { state.internal state.executing with running := false } c).running = true →
      c ≠ state.executing ∧ (state.internal c).running = true := by
    intro c running
    have apart : c ≠ state.executing := by
      rintro rfl
      rw [Function.update_self] at running
      cases running
    exact ⟨apart, internals c apart ▸ running⟩
  have bottom := internals 0 other.symm
  have frames : ∀ c ∈ state.internals, (state.internal c).running = true →
      (state.internal c).tries ≠ [] → c ≠ state.executing := by
    rintro c _ _ some_ rfl
    exact some_ empty
  have begun : ∀ c ∈ state.internals, (Function.update state.internal state.executing
      { state.internal state.executing with running := false } c).running = true → c ≠ 0 →
      ∀ x, (Function.update state.internal state.executing
        { state.internal state.executing with running := false } c).point ≠ some (.entry x) := by
    intro c inside running _ x
    obtain ⟨apart, running⟩ := runs c running
    rw [internals c apart]
    exact kept.begun c inside running apart x
  have quiet : state.stage = .ended → (Function.update state.internal state.executing
      { state.internal state.executing with running := false } 0).tries = [] :=
    fun over_ => (congrArg Internal.tries bottom).trans (kept.quiet over_)
  have steady : ∀ c ∈ state.internals, (state.internal c).running = true →
      (state.internal c).tries ≠ [] → c ∈ state.internals ∧
        (Function.update state.internal state.executing
          { state.internal state.executing with running := false } c).running = true ∧
        (Function.update state.internal state.executing
          { state.internal state.executing with running := false } c).tries =
            (state.internal c).tries := by
    intro c inside running some_
    rw [internals c (frames c inside running some_)]
    exact ⟨inside, running, rfl⟩
  have active : state.transfer.active ≠ setting.main := by
    rw [show state.transfer.active = (state.internal state.active).fiber from rfl, sound.active]
    exact noMain.symm
  have owner : state.transfer.active = (state.internal state.executing).fiber := by
    rw [show state.transfer.active = (state.internal state.active).fiber from rfl, sound.active]
  by_cases over_ : state.stage = .ended
  · obtain ⟨value', slot, known, return_⟩ := sound.returns over_
    obtain rfl := Option.some.inj (mainFound.symm.trans known)
    obtain ⟨thrown, same⟩ := (ended.setSlot slot outcome.value).setThrow over_
      ((Function.update_of_ne noMain _ _).trans mainFound) outcome.thrown.isSome
    refine ⟨_, (finished slot return_).trans (resume_exiting ?_), ?_⟩
    · exact (congrArg Internal.point bottom).trans (sound.waiting over_ other)
    · refine kept.moved _ { thrown with } rfl ?_ (by simp) ⟨fun _ => rfl, fun _ => rfl⟩
        ⟨fun _ => Or.inl rfl, fun _ => ⟨over_, rfl⟩⟩ (by simp) begun quiet rfl steady
      have move : Transfer.Moves setting.main setting.exit state.transfer
          [.ended state.transfer.active outcome] (state.transfer.activate setting.main) :=
        .finishLate outcome active (Stage.isEnded_iff.mpr over_)
      rw [owner] at move
      exact (same.trans transfer) ▸ move
  · obtain ⟨y, entry⟩ | ⟨before, slot, y, known, calling, return_, stored, low⟩ :=
      sound.ready 0 mainInside mainRuns other.symm fun _ => over_
    · exact absurd entry (kept.begun 0 mainInside mainRuns other.symm y)
    · rw [mainOwner] at known calling
      obtain rfl := Option.some.inj (mainFound.symm.trans known)
      have calm := sound.throws _ main mainFound fun _ => over_
      have resumed := (finished slot return_).trans (resume_delivers outcome
        ((congrArg Internal.point bottom).trans calling) rfl calm (Function.update_self ..)
        return_ (Function.update_self ..))
      have same : Function.update state.fiber (state.internal state.executing).fiber
          (some { value with internal := none }) setting.main = some main := by
        rw [Function.update_of_ne noMain, mainFound]
      rw [Function.update_idem, Function.update_eq_self_iff.mpr same.symm] at resumed
      refine ⟨_, resumed, ?_⟩
      refine kept.moved _ { ended.setSlot slot outcome.value with } (List.append_assoc ..) ?_
        outcome.control_coding.2.2 ?_ ?_ ?_ begun quiet rfl steady
      · have pending : state.transfer.pending setting.main = some slot := by
          rw [show state.transfer.pending = state.pending from rfl, pending_of mainFound zero,
            if_neg other.symm, calling]
        have move : Transfer.Moves setting.main setting.exit state.transfer
            [.ended state.transfer.active outcome, .resumed setting.main slot outcome]
            (state.transfer.activate setting.main) :=
          .finish outcome active pending
            (Bool.eq_false_iff.mpr fun ending => over_ (Stage.isEnded_iff.mp ending))
        rw [owner] at move
        exact transfer ▸ move
      · exact ⟨by simp, fun exiting => absurd exiting outcome.control_coding.1⟩
      · refine ⟨fun both => absurd both.1 over_, ?_⟩
        rintro (exiting | over_)
        · exact absurd exiting outcome.control_coding.1
        · exact absurd over_ outcome.control_coding.2.1
      · exact fun over_ => absurd over_ outcome.control_coding.2.1

theorem Kept.endMain (kept : state.Kept setting) (coding : state.control.Coding)
    (empty : (state.internal state.executing).tries = []) (zero : state.executing = 0)
    (running : state.stage ≠ .ended) :
    ∃ after, state.endMain setting = some after ∧ after.Kept setting := by
  have sound := kept.sound
  obtain ⟨main, mainFound, own⟩ := sound.main
  obtain ⟨mainOwner, mainRuns, mainInside⟩ := sound.owned _ main 0 mainFound own
  have lock : state.lock = some { state with locked := true } := by
    simp only [State.lock, kept.unlocked coding, Bool.false_eq_true, if_false]
  simp only [State.endMain, lock, Option.bind_eq_bind, Option.bind_some, mainFound]
  have fresh : Function.update state.fiber setting.main
      (some { main with return_ := some state.slots }) setting.main =
        some { main with return_ := some state.slots } := Function.update_self ..
  have fibers : ∀ fiber, fiber ≠ setting.main → Function.update state.fiber setting.main
      (some { main with return_ := some state.slots }) fiber = state.fiber fiber :=
    fun fiber other => Function.update_of_ne other _ _
  have apart : ∀ fiber value c, state.fiber fiber = some value → value.internal = some c →
      c ≠ 0 → fiber ≠ setting.main := by
    rintro fiber value c known internal other rfl
    obtain rfl := Option.some.inj (known.symm.trans mainFound)
    exact other (Option.some.inj (internal.symm.trans own))
  refine ⟨_, rfl, kept.moved [.mainEnded] ?_ rfl ?_ (by simp)
    ⟨fun _ => rfl, fun _ => rfl⟩ ⟨fun _ => Or.inl rfl, fun _ => ⟨rfl, zero⟩⟩ (by simp) kept.begun
    (fun _ => zero ▸ empty) rfl fun c member running _ => ⟨member, running, rfl⟩⟩
  · refine ⟨sound.active, sound.member, sound.runs, ?_, ?_, sound.bound, sound.bottom, ?_,
      sound.atMain, ?_, ?_, ?_, ?_⟩
    · intro c member running
      obtain ⟨value, known, internal⟩ := sound.running c member running
      by_cases same : (state.internal c).fiber = setting.main
      · rw [same, mainFound] at known
        obtain rfl := Option.some.inj known
        exact ⟨_, (congrArg _ same).trans fresh, internal⟩
      · exact ⟨value, (fibers _ same).trans known, internal⟩
    · intro fiber value c known internal
      by_cases same : fiber = setting.main
      · subst same
        obtain rfl := Option.some.inj (fresh.symm.trans known)
        exact sound.owned _ main c mainFound internal
      · exact sound.owned fiber value c ((fibers fiber same).symm.trans known) internal
    · exact ⟨_, fresh, own⟩
    · intro fiber value known noMain
      by_cases same : fiber = setting.main
      · exact absurd rfl (noMain same)
      · exact sound.throws fiber value ((fibers fiber same).symm.trans known)
          fun isMain => absurd isMain same
    · intro c member runs other _
      have other : c ≠ 0 := zero ▸ other
      obtain ⟨value, known, internal⟩ := sound.running c member runs
      refine (sound.ready c member runs (zero ▸ other) fun same => absurd same other).imp_right ?_
      rintro ⟨value', slot, x, known', calling, return_, stored, low⟩
      exact ⟨value', slot, x, (fibers _ (apart _ value c known internal other)).trans known',
        calling, return_, stored, Nat.lt_succ_of_lt low⟩
    · exact fun _ other => absurd zero other
    · exact fun _ => ⟨_, _, fresh, rfl⟩
  · have pendings : (state.setFiber setting.main
        { main with return_ := some state.slots }).pending = state.pending := by
      funext fiber
      by_cases same : fiber = setting.main
      · subst same
        have known : (state.setFiber setting.main
            { main with return_ := some state.slots }).fiber setting.main = _ := fresh
        rw [pending_of known own, pending_of mainFound own]
        rfl
      · exact pending_congr (fibers fiber same) fun _ _ _ _ => ⟨rfl, Iff.rfl⟩
    have active : state.transfer.active = setting.main := by
      rw [← mainOwner, ← zero, ← sound.active]
      rfl
    have move : Transfer.Moves setting.main setting.exit state.transfer [.mainEnded]
        { state.transfer with ending := true, calls := state.slots + 1 } :=
      .finishMain active
        (Bool.eq_false_iff.mpr fun ending => running (Stage.isEnded_iff.mp ending)) (Nat.le_refl _)
    refine Eq.subst (motive := Transfer.Moves _ _ _ _) ?_ move
    exact congrArg (fun pending => (⟨_, pending, _, true⟩ : Transfer ι)) pendings.symm

theorem Kept.handled (kept : state.Kept setting) (handlers : List (Handled V)) :
    ({ state with handlers := handlers } : State ι V).Kept setting :=
  { kept with sound := { kept.sound with } }

theorem Kept.leaveStack (kept : state.Kept setting) (coding : state.control.Coding)
    (empty : (state.internal state.executing).tries = []) (outcome : Outcome V) :
    ∃ after, state.leaveStack setting outcome = some after ∧ after.Kept setting := by
  unfold State.leaveStack
  rw [kept.sound.atMain _ kept.sound.member]
  by_cases zero : state.executing = 0
  · have running : state.stage ≠ .ended := fun ended => kept.code coding ended zero
    have ends := kept.endMain coding empty zero running
    have left := (kept.handled (state.handlers.drop 1)).endMain coding empty zero running
    rw [if_pos (decide_eq_true zero)]
    unfold State.reportMain
    cases stage : state.stage with
    | running =>
      cases outcome with
      | returned x => exact ends
      | threw thrown =>
        have reports : ({ state with control := .code, stage := .naming thrown } :
            State ι V).Kept setting := kept.goes coding code_coding (by simp [stage])
        exact ⟨_, rfl, reports.handled (⟨none, thrown⟩ :: state.handlers)⟩
    | naming first =>
      simp only
      split
      · exact ⟨_, rfl, kept.goes coding code_coding (by simp [stage])⟩
      · exact left
    | dumping => exact left
    | ended => exact absurd stage running
  · rw [if_neg (by simp [zero])]
    exact kept.finish coding empty zero outcome

/-- One turn of the loop of `f_main`. -/
theorem Kept.exit (kept : state.Kept setting) (exiting : state.control = .exiting) :
    ∃ after, state.exit setting = some after ∧ after.Kept setting := by
  have sound := kept.sound
  obtain ⟨ended, zero⟩ := kept.looping.mpr (Or.inl exiting)
  obtain ⟨main, mainFound, own⟩ := sound.main
  obtain ⟨mainOwner, mainRuns, mainInside⟩ := sound.owned _ main 0 mainFound own
  have active : state.transfer.active = setting.main := by
    rw [← mainOwner, ← zero, ← sound.active]
    rfl
  have ending : state.transfer.ending = true := Stage.isEnded_iff.mpr ended
  simp only [State.exit, mainFound, own, Option.bind_eq_bind, Option.bind_some]
  cases first : state.internals.find? fun p => decide (p = 0) || (state.internal p).running with
  | none =>
    have unmet := List.find?_eq_none.mp first 0 mainInside
    simp at unmet
  | some found =>
    have inside := List.mem_of_find?_eq_some first
    have met := List.find?_some first
    simp only [Option.bind_some]
    by_cases last : found = 0
    · subst last
      have none_ : ∀ c ∈ state.internals, (state.internal c).running = true → c = 0 := by
        intro c member runs
        obtain ⟨others, shape, absent⟩ := sound.bottom
        rw [shape, List.find?_append] at first
        rw [shape] at member
        rcases List.mem_append.mp member with early | late
        · cases before : others.find? fun p => decide (p = 0) || (state.internal p).running with
          | none =>
            have unmet := List.find?_eq_none.mp before c early
            simp [runs] at unmet
          | some other =>
            rw [before, Option.some_or] at first
            obtain rfl := Option.some.inj first
            exact absurd (List.mem_of_find?_eq_some before) absent
        · exact List.mem_singleton.mp late
      have unlock : state.unlock = some { state with locked := false } := by
        simp only [State.unlock, kept.locked.mpr exiting, if_true]
      rw [if_pos rfl, unlock]
      refine ⟨_, rfl, kept.moved [.over_] { sound with } rfl ?_ (by simp)
        (by simp [note]) ⟨fun _ => Or.inr rfl, fun _ => ⟨ended, zero⟩⟩ (fun _ => none_)
        kept.begun kept.quiet rfl fun c member running _ => ⟨member, running, rfl⟩⟩
      refine .over_ active ending fun fiber => ?_
      cases known : state.fiber fiber with
      | none => exact pending_idle (by simp [known])
      | some value =>
        cases internal : value.internal with
        | none => exact pending_idle (by simp [known, internal])
        | some c =>
          obtain ⟨_, runs, member⟩ := sound.owned fiber value c known internal
          refine (pending_of known internal).trans (if_pos ?_)
          rw [none_ c member runs, zero]
    · rw [if_neg last]
      have runs : (state.internal found).running = true := by simpa [last] using met
      obtain ⟨value, known, internal⟩ := sound.running found inside runs
      obtain ⟨y, entry⟩ | ⟨before, slot, y, known', calling, return_, stored, low⟩ :=
        sound.ready found inside runs (zero ▸ last) fun same => absurd same last
      · exact absurd entry (kept.begun found inside runs (zero ▸ last) y)
      · obtain rfl := Option.some.inj (known.symm.trans known')
        have noMain : (state.internal found).fiber ≠ setting.main := by
          intro same
          rw [same, mainFound] at known
          obtain rfl := Option.some.inj known
          exact last (Option.some.inj (internal.symm.trans own))
        have calm := sound.throws _ value known fun isMain => absurd isMain noMain
        obtain ⟨exits, transfer⟩ := (sound.setSlot slot setting.exit).exits known internal zero last
        have internals : ∀ c, c ≠ 0 → Function.update state.internal 0
            { state.internal 0 with point := some .exiting } c = state.internal c :=
          fun c other => Function.update_of_ne other _ _
        have frames : ∀ c, (Function.update state.internal 0
            { state.internal 0 with point := some .exiting } c).running =
              (state.internal c).running ∧
            (Function.update state.internal 0
              { state.internal 0 with point := some .exiting } c).tries =
                (state.internal c).tries := by
          intro c
          by_cases same : c = 0
          · subst same
            rw [Function.update_self]
            exact ⟨rfl, rfl⟩
          · rw [internals c same]
            exact ⟨rfl, rfl⟩
        have begun : ∀ c ∈ state.internals, (Function.update state.internal 0
            { state.internal 0 with point := some .exiting } c).running = true →
            ∀ x, (Function.update state.internal 0
              { state.internal 0 with point := some .exiting } c).point ≠ some (.entry x) := by
          intro c member running x
          by_cases same : c = 0
          · subst same
            rw [Function.update_self]
            simp
          · rw [internals c same] at running ⊢
            exact kept.begun c member running (zero ▸ same) x
        obtain ⟨_, throw_, _⟩ := value
        cases internal
        cases return_
        simp only [known, Option.bind_some]
        have resumed : State.resume { state with
            fiber := Function.update state.fiber (state.internal found).fiber
              (some ⟨some found, true, some slot⟩)
            internal := Function.update state.internal 0
              { state.internal 0 with point := some .exiting }
            slot := Function.update state.slot slot (some setting.exit)
            active := found
            executing := found } = some _ :=
          resume_delivers (.threw setting.exit)
            ((congrArg Internal.point (internals found last)).trans calling)
            (kept.locked.mpr exiting) calm (Function.update_self ..) rfl (Function.update_self ..)
        have same : Function.update state.fiber (state.internal found).fiber
            (some ⟨some found, throw_, some slot⟩) = state.fiber := Function.update_eq_self_iff.mpr known.symm
        rw [Function.update_idem, same] at resumed
        refine ⟨_, resumed, kept.moved _ { exits ended with } rfl ?_ (by simp [Outcome.control])
          (by simp [Outcome.control]) ?_ (by simp [Outcome.control]) ?_ ?_ rfl ?_⟩
        · have pending : state.transfer.pending (state.internal found).fiber = some slot := by
            rw [show state.transfer.pending = state.pending from rfl, pending_of known rfl,
              if_neg (zero ▸ last), calling]
          exact transfer ▸ .exit active ending pending
        · exact ⟨fun both => absurd both.2 last, by simp [Outcome.control]⟩
        · exact fun c member running _ x => begun c member running x
        · exact fun ended => (frames 0).2.trans (kept.quiet ended)
        · exact fun c member running _ => ⟨member, (frames c).1.trans running, (frames c).2⟩

/-- What is to be shown of a step in the `f_try`s of the active fiber. -/
theorem Kept.retry (kept : state.Kept setting) (coding : state.control.Coding)
    (frames : List (Try V)) {attempts : List (Attempt V)} (more : List (Attempt V))
    {next : Control V} (count : Nat) (goes : next.Coding) (same : attempts = state.attempts ++ more)
    (opens : ∀ frame ∈ (state.internal state.executing).tries, frame.phase.isOpen = true →
      .finally_ frame.number ∈ more ∨
        ∃ other ∈ frames, other.number = frame.number ∧ other.phase.isOpen = true)
    (enters : ∀ number, .entered number ∈ more →
      ∃ other ∈ frames, other.number = number ∧ other.phase.isOpen = true)
    (uncaught : ∀ number thrown, .caught number thrown ∈ more → thrown ≠ setting.exit) :
    ({ state.setTries frames with
      attempts := attempts, control := next, tries := count } : State ι V).Kept setting := by
  obtain ⟨sound, transfer⟩ := kept.sound.setTries frames
  have code := kept.code coding
  have own : ((state.setTries frames).internal state.executing).tries = frames := by
    simp only [State.setTries, setInternal, Function.update_self]
  have others : ∀ c, c ≠ state.executing →
      (state.setTries frames).internal c = state.internal c :=
    fun c apart => Function.update_of_ne apart _ _
  have kinds : ∀ c, ((state.setTries frames).internal c).running = (state.internal c).running ∧
      ((state.setTries frames).internal c).point = (state.internal c).point := by
    intro c
    by_cases this : c = state.executing
    · subst this
      simp only [State.setTries, setInternal, Function.update_self, and_self]
    · rw [others c this]
      exact ⟨rfl, rfl⟩
  have trying : ∀ other ∈ frames, other.phase.isOpen = true →
      (state.setTries frames).Trying other.number := fun other member open_ =>
    ⟨state.executing, kept.sound.member, (kinds _).1.trans kept.sound.runs, other,
      own.symm ▸ member, rfl, open_⟩
  refine ⟨{ sound with }, transfer ▸ kept.trace, goes.2.2, ?_, ?_, fun over_ => absurd over_ goes.2.1,
    ?_, ?_, ?_, ?_⟩
  · exact ⟨fun locked => absurd locked (Bool.eq_false_iff.mp (kept.unlocked coding)),
      fun exiting => absurd exiting goes.1⟩
  · refine ⟨fun both => absurd both.2 (code both.1), ?_⟩
    rintro (exiting | over_)
    · exact absurd exiting goes.1
    · exact absurd over_ goes.2.1
  · intro c member running apart x
    have begun := kept.begun c member ((kinds c).1 ▸ running) apart x
    exact (kinds c).2 ▸ begun
  · exact fun ended => (congrArg Internal.tries (others 0 (code ended).symm)).trans (kept.quiet ended)
  · subst same
    intro number entered
    rcases List.mem_append.mp entered with before | now
    · rcases kept.finals number before with done | ⟨c, member, running, frame, inside, rfl, open_⟩
      · exact Or.inl (List.mem_append_left _ done)
      · by_cases this : c = state.executing
        · subst this
          rcases opens frame inside open_ with done | ⟨other, among, same, still⟩
          · exact Or.inl (List.mem_append_right _ done)
          · exact Or.inr (same ▸ trying other among still)
        · refine Or.inr ⟨c, member, (kinds c).1.trans running, frame, ?_, rfl, open_⟩
          exact (congrArg Internal.tries (others c this)).symm ▸ inside
    · obtain ⟨other, among, same, open_⟩ := enters number now
      exact Or.inr (same ▸ trying other among open_)
  · subst same
    intro number thrown caught
    rcases List.mem_append.mp caught with before | now
    · exact kept.uncaught number thrown before
    · exact uncaught number thrown now

/-- The innermost `f_try` changes its phase. -/
theorem Kept.become (kept : state.Kept setting) (coding : state.control.Coding)
    {frame : Try V} {frames : List (Try V)}
    (tries : (state.internal state.executing).tries = frame :: frames)
    (phase : Phase V) {attempts : List (Attempt V)} (more : List (Attempt V)) {next : Control V}
    (goes : next.Coding) (same : attempts = state.attempts ++ more)
    (final : frame.phase.isOpen = true → phase.isOpen = true ∨ .finally_ frame.number ∈ more)
    (enters : ∀ number, .entered number ∉ more)
    (uncaught : ∀ number thrown, .caught number thrown ∈ more → thrown ≠ setting.exit) :
    ({ state.setTries ({ frame with phase := phase } :: frames) with
      attempts := attempts, control := next } : State ι V).Kept setting := by
  refine kept.retry coding _ more state.tries goes same ?_
    (fun number entered => absurd entered (enters number)) uncaught
  rw [tries]
  intro other member open_
  rcases List.mem_cons.mp member with rfl | member
  · rcases final open_ with still | done
    · exact Or.inr ⟨_, List.mem_cons_self, rfl, still⟩
    · exact Or.inl done
  · exact Or.inr ⟨other, List.mem_cons_of_mem _ member, rfl, open_⟩

/-- The innermost `f_try` comes to its end. -/
theorem Kept.pop (kept : state.Kept setting) (coding : state.control.Coding)
    {frame : Try V} {frames : List (Try V)}
    (tries : (state.internal state.executing).tries = frame :: frames)
    (closed : frame.phase.isOpen = false) {attempts : List (Attempt V)} (more : List (Attempt V))
    {next : Control V} (goes : next.Coding) (same : attempts = state.attempts ++ more)
    (enters : ∀ number, .entered number ∉ more)
    (uncaught : ∀ number thrown, .caught number thrown ∉ more) :
    ({ state.setTries frames with
      attempts := attempts, control := next } : State ι V).Kept setting := by
  refine kept.retry coding frames more state.tries goes same ?_
    (fun number entered => absurd entered (enters number))
    (fun number thrown caught => absurd caught (uncaught number thrown))
  rw [tries]
  intro other member open_
  rcases List.mem_cons.mp member with rfl | member
  · rw [closed] at open_
    cases open_
  · exact Or.inr ⟨other, member, rfl, open_⟩

theorem Kept.unwind (kept : state.Kept setting) {thrown : V}
    (raising : state.control = .raising thrown) :
    ∃ after, state.unwind setting thrown = some after ∧ after.Kept setting := by
  have coding : state.control.Coding := raising ▸ raising_coding thrown
  unfold State.unwind
  cases tries : (state.internal state.executing).tries with
  | nil => exact kept.leaveStack coding tries (.threw thrown)
  | cons frame frames =>
    have popped := fun closed => kept.pop coding tries closed [] (raising_coding thrown)
      (List.append_nil _).symm (by simp) (by simp)
    have rethrown := kept.become coding tries (.rethrowing thrown true)
      [.finally_ frame.number] code_coding rfl (fun _ => Or.inr List.mem_cons_self) (by simp)
      (by simp)
    rw [← raising] at popped
    have matching := kept.become coding tries (.matching thrown frame.clauses) []
      code_coding (List.append_nil _).symm (fun _ => Or.inl rfl) (by simp) (by simp)
    simp only
    cases phase : frame.phase with
    | body => exact ⟨_, rfl, matching.handled _⟩
    | matching first clauses => exact ⟨_, rfl, rethrown.handled _⟩
    | caught first => exact ⟨_, rfl, rethrown.handled _⟩
    | finishing => exact ⟨_, rfl, (popped (by rw [phase]; rfl)).handled _⟩
    | rethrowing first nested => exact ⟨_, rfl, (popped (by rw [phase]; rfl)).handled _⟩

theorem Kept.idle (kept : state.Kept setting) (fiber : ι) (new : Option Fiber)
    (old : ∀ value, state.fiber fiber = some value → value.internal = none)
    (fresh : ∀ value, new = some value → value.internal = none ∧ value.throw_ = false) :
    ({ state with fiber := Function.update state.fiber fiber new } : State ι V).Kept setting := by
  obtain ⟨sound, transfer⟩ := kept.sound.idle fiber new old fresh
  exact { kept with sound := sound, trace := transfer ▸ kept.trace }

theorem Kept.epoch (kept : state.Kept setting) :
    ({ state with
      internals := state.internals.filter fun p => (state.internal p).running } : State ι V).Kept setting where
  sound := kept.sound.epoch
  trace := kept.trace
  defined := kept.defined
  locked := kept.locked
  looping := kept.looping
  over_ control c member := kept.over_ control c (List.mem_filter.mp member).1
  begun c member := kept.begun c (List.mem_filter.mp member).1
  quiet := kept.quiet
  finals number entered := by
    refine (kept.finals number entered).imp_right ?_
    rintro ⟨c, member, running, rest⟩
    exact ⟨c, List.mem_filter.mpr ⟨member, running⟩, running, rest⟩
  uncaught := kept.uncaught

theorem Kept.execute [DecidableEq V] (kept : state.Kept setting) (handling : Handling state)
    (coding : state.control = .code) {action : Action ι V} {after : State ι V}
    (nests : Nests setting state action)
    (taken : Fibers.execute setting state action = some after) : after.Kept setting := by
  have goes : state.control.Coding := coding ▸ code_coding
  have settled : ∀ {result : Option (State ι V)},
      (∃ next, result = some next ∧ next.Kept setting) → state.settle result = some after →
        after.Kept setting := by
    rintro result ⟨next, rfl, stays⟩ same
    exact Option.some.inj same ▸ stays
  cases action with
  | call callee arguments =>
    simp only [Fibers.execute] at taken
    split at taken
    · rename_i exists_
      obtain ⟨value, found⟩ := Option.isSome_iff_exists.mp exists_
      exact settled (kept.call goes found arguments) taken
    · cases taken
  | throw_ thrown => exact Option.some.inj taken ▸ kept.raises goes thrown
  | try_ clauses =>
    have entered := kept.retry goes
      (⟨state.tries, clauses, .body⟩ :: (state.internal state.executing).tries)
      [.entered state.tries] (state.tries + 1) goes rfl
      (fun frame member open_ => Or.inr ⟨frame, List.mem_cons_of_mem _ member, rfl, open_⟩)
      (fun number entered => ⟨_, List.mem_cons_self, by simp_all, rfl⟩) (by simp)
    exact Option.some.inj taken ▸ entered
  | instantiate fiber =>
    simp only [Fibers.execute] at taken
    split at taken
    · cases taken
    · rename_i absent
      have none_ : state.fiber fiber = none := by simpa using absent
      exact Option.some.inj taken ▸ kept.idle fiber _ (by simp [none_]) (by simp)
  | return_ x =>
    cases tries : (state.internal state.executing).tries with
    | nil =>
      simp only [Fibers.execute, tries] at taken
      exact settled (kept.leaveStack goes tries (.returned x)) taken
    | cons frame frames => simp [Fibers.execute, tries] at taken
  | leave =>
    cases tries : (state.internal state.executing).tries with
    | nil => simp [Fibers.execute, tries] at taken
    | cons frame frames =>
      have left := kept.become goes tries .finishing [.finally_ frame.number] goes rfl
        (fun _ => Or.inr List.mem_cons_self) (by simp) (by simp)
      cases phase : frame.phase <;> simp only [Fibers.execute, tries, phase] at taken
      case body => exact Option.some.inj taken ▸ left.handled _
      case caught => exact Option.some.inj taken ▸ left.handled _
      all_goals cases taken
  | exhaust =>
    cases tries : (state.internal state.executing).tries with
    | nil => simp [Fibers.execute, tries] at taken
    | cons frame frames =>
      cases phase : frame.phase with
      | matching thrown clauses =>
        have rethrown := kept.become goes tries (.rethrowing thrown false)
          [.finally_ frame.number] goes rfl (fun _ => Or.inr List.mem_cons_self) (by simp) (by simp)
        cases clauses with
        | zero =>
          simp only [Fibers.execute, tries, phase] at taken
          exact Option.some.inj taken ▸ rethrown
        | succ clauses => simp [Fibers.execute, tries, phase] at taken
      | _ => simp [Fibers.execute, tries, phase] at taken
  | catch_ type =>
    cases tries : (state.internal state.executing).tries with
    | nil => simp [Fibers.execute, tries] at taken
    | cons frame frames =>
      cases phase : frame.phase with
      | matching thrown clauses =>
        cases clauses with
        | zero => simp [Fibers.execute, tries, phase] at taken
        | succ clauses =>
          simp only [Fibers.execute, tries, phase] at taken
          split at taken
          · split at taken
            · rename_i matched
              have other : thrown ≠ setting.exit := by
                rintro rfl
                simp at matched
              exact Option.some.inj taken ▸ kept.become goes tries (.caught thrown)
                [.caught frame.number thrown] goes rfl (fun _ => Or.inl rfl) (by simp) (by simp [other])
            · exact Option.some.inj taken ▸ kept.become goes tries (.matching thrown clauses)
                [] goes (List.append_nil _).symm (fun _ => Or.inl rfl) (by simp) (by simp)
          · exact Option.some.inj taken ▸ kept.raises goes setting.notType
      | _ => simp [Fibers.execute, tries, phase] at taken
  | yrt =>
    cases tries : (state.internal state.executing).tries with
    | nil => simp [Fibers.execute, tries] at taken
    | cons frame frames =>
      cases phase : frame.phase with
      | finishing =>
        simp only [Fibers.execute, tries, phase] at taken
        exact Option.some.inj taken ▸ kept.pop goes tries (by rw [phase]; rfl) [] goes
          (List.append_nil _).symm (by simp) (by simp)
      | rethrowing thrown nested =>
        simp only [Fibers.execute, tries, phase] at taken
        simp only [Nests, leaves, tries] at nests
        obtain ⟨handled, head, -⟩ := handling.actual tries phase nests
        have popped := kept.pop goes tries (by rw [phase]; rfl)
          [.rethrown frame.number thrown handled.thrown] (raising_coding handled.thrown) rfl
          (by simp) (by simp)
        refine settled ⟨_, ?_, popped.handled (state.handlers.drop frame.phase.handlers)⟩ taken
        simp only [rethrow, head, Option.bind_eq_bind, Option.bind_some, Option.pure_def]
        rfl
      | _ => simp [Fibers.execute, tries, phase] at taken
  | _ => cases tries : (state.internal state.executing).tries <;>
      simp [Fibers.execute, tries] at taken

end

end State

/-- No fiber is freed that has not come to its end. -/
def Unfreed (state : State ι V) : Action ι V → Prop
  | .collect fiber => ∀ value ∈ state.fiber fiber, value.internal = none
  | _ => True

instance decidableUnfreed (state : State ι V) (action : Action ι V) :
    Decidable (Unfreed state action) :=
  decidable_of_iff ((match action with
    | .collect fiber => (state.fiber fiber).all fun value => value.internal.isNone
    | _ => true) = true) (by cases action <;> simp [Unfreed, Option.all_eq_true])

section

variable [DecidableEq V] {setting : Setting ι V} {state : State ι V}

open State

/-- What is to be said of a state that a run leads to: nothing undefined has been done;
the notes are those of moves of a transfer; one fiber is active; no clause has caught
`v_fiber_exit`, and no `f_try` has thrown on what it has not caught; and when the thread
is over no other fiber is suspended, and each `f_try` has run its finally block. -/
structure Transferred (setting : Setting ι V) (state : State ι V) : Prop where
  defined : state.control ≠ .undefined
  moves : Machine.Trace (Transfer.Moves setting.main setting.exit) (start setting).transfer
    state.log state.transfer
  active : state.executing = state.active ∧ ∃! fiber, ∃ value,
    state.fiber fiber = some value ∧ value.internal = some state.active
  uncaught : ∀ number, .caught number setting.exit ∉ state.attempts
  rethrown : ∀ number thrown actual, .rethrown number thrown actual ∈ state.attempts →
    actual = thrown
  resumed : state.control = .over_ → ∀ fiber value, state.fiber fiber = some value →
    fiber ≠ setting.main → value.internal = none
  finished : state.control = .over_ → ∀ number, .entered number ∈ state.attempts →
    .finally_ number ∈ state.attempts

omit [DecidableEq V] in
theorem State.Kept.transferred (kept : state.Kept setting) (handling : Handling state) :
    Transferred setting state where
  defined := kept.defined
  moves := kept.trace
  active := by
    refine ⟨kept.sound.active.symm, ?_⟩
    rw [kept.sound.active]
    obtain ⟨value, known, internal⟩ := kept.sound.running _ kept.sound.member kept.sound.runs
    refine ⟨_, ⟨value, known, internal⟩, ?_⟩
    rintro other ⟨value', known', internal'⟩
    exact kept.sound.apart known' internal' known internal
  uncaught number caught := kept.uncaught number _ caught rfl
  rethrown := handling.rethrown
  resumed over_ fiber value known other := by
    cases internal : value.internal with
    | none => rfl
    | some c =>
      obtain ⟨_, runs, member⟩ := kept.sound.owned fiber value c known internal
      obtain rfl := kept.over_ over_ c member runs
      obtain ⟨main, mainFound, zero⟩ := kept.sound.main
      exact absurd (kept.sound.apart known internal mainFound zero) other
  finished over_ number entered := by
    refine (kept.finals number entered).elim id ?_
    rintro ⟨c, member, running, frame, inside, _⟩
    obtain ⟨ended, _⟩ := kept.looping.mpr (Or.inr over_)
    rw [kept.over_ over_ c member running, kept.quiet ended] at inside
    exact absurd inside List.not_mem_nil

end

/-- The fibers `false`, which is the main one, and `true`; no value is a type. -/
def twoFibers : Setting Bool Nat :=
  ⟨false, Bool.toNat, 2, fun _ => 3, fun _ => false, 4, fun _ _ => false, fun _ => false⟩

/-- Two fibers call each other in the finally blocks of two exceptions: the one throws on
what the other has caught. -/
theorem crossed_handlers : ∃ state,
    Machine.run (step twoFibers) (start twoFibers) [.instantiate true, .try_ 0, .throw_ 8,
      .unwind, .exhaust, .call true [5], .try_ 0, .throw_ 9, .unwind, .exhaust,
      .call false [6], .yrt] = some state ∧
    state.control = .raising 9 ∧ .rethrown 0 8 9 ∈ state.attempts ∧
    ¬ Transferred twoFibers state := by
  obtain ⟨state, reached, passed⟩ := (Option.any_eq_true _ _).mp
    (show (Machine.run (step twoFibers) (start twoFibers) [.instantiate true, .try_ 0, .throw_ 8,
      .unwind, .exhaust, .call true [5], .try_ 0, .throw_ 9, .unwind, .exhaust,
      .call false [6], .yrt]).any (fun state =>
        state.control = .raising 9 ∧ .rethrown 0 8 9 ∈ state.attempts) = true by decide +kernel)
  obtain ⟨raising, rethrown⟩ := of_decide_eq_true passed
  exact ⟨state, reached, raising, rethrown,
    fun transferred => absurd (transferred.rethrown 0 8 9 rethrown) (by decide)⟩

end Xemmai.Fibers
