import Xemmai.Fiber

/-!
# Handlers

The handlers of exceptions are those of the thread, which `throw;` takes the innermost
one of. As long as the fibers leave them in the reverse order of entering them, each
`f_try` rethrows what it has caught.
-/

namespace Xemmai.Fibers

set_option autoImplicit false

variable {ι V : Type}

/-- What an `f_try` throws on behind its finally block, or may. -/
def Phase.thrown : Phase V → Option V
  | body | finishing => none
  | matching thrown _ | caught thrown | rethrowing thrown _ => some thrown

/-- The handlers of one `f_try`. -/
def owned (number : Nat) (handlers : List (Handled V)) : List (Handled V) :=
  handlers.filter fun handled => handled.by_ = some number

section

variable {number : Nat} {handlers : List (Handled V)}

theorem owned_append (first second : List (Handled V)) :
    owned number (first ++ second) = owned number first ++ owned number second :=
  List.filter_append first second

theorem owned_cons_self (thrown : V) :
    owned number (⟨some number, thrown⟩ :: handlers) =
      ⟨some number, thrown⟩ :: owned number handlers :=
  List.filter_cons_of_pos (decide_eq_true rfl)

theorem owned_cons_other {by_ : Option Nat} (thrown : V) (other : by_ ≠ some number) :
    owned number (⟨by_, thrown⟩ :: handlers) = owned number handlers :=
  List.filter_cons_of_neg (by simpa using other)

theorem owned_drop_other {by_ : Option Nat} {count : Nat}
    (own : ∀ handled ∈ handlers.take count, handled.by_ = by_) (other : by_ ≠ some number) :
    owned number (handlers.drop count) = owned number handlers := by
  have none_ : owned number (handlers.take count) = [] := by
    refine List.filter_eq_nil_iff.mpr fun handled member => ?_
    rw [own handled member]
    simpa using other
  have whole : owned number (handlers.take count ++ handlers.drop count) =
      owned number (handlers.take count) ++ owned number (handlers.drop count) := owned_append _ _
  rw [List.take_append_drop, none_, List.nil_append] at whole
  exact whole.symm

theorem owned_drop_self {count : Nat}
    (own : ∀ handled ∈ handlers.take count, handled.by_ = some number)
    (all : (owned number handlers).length = count) : owned number (handlers.drop count) = [] := by
  have first : owned number (handlers.take count) = handlers.take count :=
    List.filter_eq_self.mpr fun handled member => decide_eq_true (own handled member)
  have whole : owned number (handlers.take count ++ handlers.drop count) =
      owned number (handlers.take count) ++ owned number (handlers.drop count) := owned_append _ _
  rw [List.take_append_drop, first] at whole
  have long : count ≤ handlers.length := all ▸ List.length_filter_le _ handlers
  have lengths := congrArg List.length whole
  rw [List.length_append, List.length_take, all] at lengths
  exact List.eq_nil_of_length_eq_zero (by omega)

theorem head_of_owned {count : Nat} (own : ∀ handled ∈ handlers.take count, handled.by_ = some number)
    (all : (owned number handlers).length = count) (some_ : 0 < count) :
    handlers.head? = (owned number handlers).head? := by
  cases handlers with
  | nil =>
    rw [owned, List.filter_nil, List.length_nil] at all
    omega
  | cons handled handlers =>
    obtain ⟨count, rfl⟩ := Nat.exists_eq_add_of_lt some_
    obtain ⟨by_, thrown⟩ := handled
    obtain rfl : by_ = some number := own ⟨by_, thrown⟩ (by simp)
    rw [owned_cons_self]
    rfl

end

theorem rethrown_of_append {attempts more : List (Attempt V)}
    (none_ : ∀ number thrown actual, .rethrown number thrown actual ∉ more) (number : Nat)
    (thrown actual : V) (member : .rethrown number thrown actual ∈ attempts ++ more) :
    .rethrown number thrown actual ∈ attempts :=
  (List.mem_append.mp member).resolve_right (none_ number thrown actual)

/-! ### The frames and their handlers -/

/-- The `f_try`s on the stacks are told by their numbers, each is in the handlers of its
phase, the innermost one of which has caught what it throws on, and none has thrown on
anything else. -/
structure Handling (state : State ι V) : Prop where
  started : ∀ c, ∀ frame ∈ (state.internal c).tries, frame.number < state.tries
  counted : ∀ c, ∀ frame ∈ (state.internal c).tries,
    (owned frame.number state.handlers).length = frame.phase.handlers
  heads : ∀ c, ∀ frame ∈ (state.internal c).tries,
    (owned frame.number state.handlers).head?.map Handled.thrown = frame.phase.thrown
  nodup : ∀ c, ((state.internal c).tries.map Try.number).Nodup
  apart : ∀ c c' frame frame', c ≠ c' → frame ∈ (state.internal c).tries →
    frame' ∈ (state.internal c').tries → frame.number ≠ frame'.number
  fresh : ∀ handled ∈ state.handlers, ∀ number, handled.by_ = some number → number < state.tries
  rethrown : ∀ number thrown actual, .rethrown number thrown actual ∈ state.attempts →
    actual = thrown

namespace State

/-- No `f_try` and no handler is concerned, besides those of stacks that are gone. -/
structure Aside (state after : State ι V) : Prop where
  tries : after.tries = state.tries
  handlers : after.handlers = state.handlers
  attempts : after.attempts = state.attempts
  frames : ∀ c, (after.internal c).tries = (state.internal c).tries ∨
    (after.internal c).tries = []

theorem Aside.trans {state mid after : State ι V} (first : state.Aside mid)
    (second : mid.Aside after) : state.Aside after where
  tries := second.tries.trans first.tries
  handlers := second.handlers.trans first.handlers
  attempts := second.attempts.trans first.attempts
  frames c := by
    rcases second.frames c with same | none_
    · rw [same]
      exact first.frames c
    · exact .inr none_

theorem aside_of_eq {state after : State ι V} (tries : after.tries = state.tries)
    (handlers : after.handlers = state.handlers) (attempts : after.attempts = state.attempts)
    (internal : after.internal = state.internal) : state.Aside after :=
  ⟨tries, handlers, attempts, fun c => .inl (by rw [internal])⟩

theorem aside_of_update {state after : State ι V} {number : Nat} {value : Internal ι V}
    (internal : after.internal = Function.update state.internal number value)
    (same : value.tries = (state.internal number).tries ∨ value.tries = [])
    (tries : after.tries = state.tries) (handlers : after.handlers = state.handlers)
    (attempts : after.attempts = state.attempts) : state.Aside after := by
  refine ⟨tries, handlers, attempts, fun c => ?_⟩
  rw [internal, Function.update_apply]
  split
  · rename_i equal
    rw [equal]
    exact same
  · exact .inl rfl

theorem unlock_aside {state after : State ι V} (taken : state.unlock = some after) :
    state.Aside after := by
  unfold unlock at taken
  split at taken
  · exact Option.some.inj taken ▸ aside_of_eq rfl rfl rfl rfl
  · cases taken

theorem lock_aside {state after : State ι V} (taken : state.lock = some after) :
    state.Aside after := by
  unfold lock at taken
  split at taken
  · cases taken
  · exact Option.some.inj taken ▸ aside_of_eq rfl rfl rfl rfl

variable [DecidableEq ι] {setting : Setting ι V} {state after : State ι V}

theorem resume_aside (taken : state.resume = some after) : state.Aside after := by
  simp only [resume, Option.bind_eq_bind, Option.bind_eq_some_iff, Option.pure_def] at taken
  obtain ⟨point, _, taken⟩ := taken
  cases point with
  | entry x =>
    simp only [Option.bind_eq_some_iff] at taken
    obtain ⟨mid, unlocked, _, _, taken⟩ := taken
    exact (unlock_aside unlocked).trans (Option.some.inj taken ▸ aside_of_eq rfl rfl rfl rfl)
  | calling fiber slot =>
    simp only [Option.bind_eq_some_iff] at taken
    obtain ⟨mid, unlocked, value, _, taken⟩ := taken
    refine (unlock_aside unlocked).trans ?_
    split at taken
    · simp only [Option.bind_eq_some_iff] at taken
      obtain ⟨_, _, _, _, taken⟩ := taken
      exact Option.some.inj taken ▸ aside_of_eq rfl rfl rfl rfl
    · simp only [Option.bind_eq_some_iff] at taken
      obtain ⟨_, _, taken⟩ := taken
      exact Option.some.inj taken ▸ aside_of_eq rfl rfl rfl rfl
  | exiting => exact Option.some.inj taken ▸ aside_of_eq rfl rfl rfl rfl

theorem switch_aside {caller callee : ι} {x : V}
    (taken : state.switch setting caller callee x = some after) : state.Aside after := by
  simp only [switch, Option.bind_eq_bind, Option.bind_eq_some_iff] at taken
  obtain ⟨value, _, saved, _, _, _, target, _, taken⟩ := taken
  refine Aside.trans ?_ (resume_aside taken)
  exact aside_of_update rfl (.inl rfl) rfl rfl rfl

theorem call_aside {callee : ι} {arguments : List V}
    (taken : state.call setting callee arguments = some after) : state.Aside after := by
  unfold call at taken
  split at taken
  · rename_i x
    simp only [Option.bind_eq_bind, Option.bind_eq_some_iff, Option.pure_def] at taken
    obtain ⟨mid, locked, value, _, taken⟩ := taken
    refine (lock_aside locked).trans ?_
    split at taken
    · simp only [Option.bind_eq_some_iff] at taken
      obtain ⟨last, unlocked, taken⟩ := taken
      exact (unlock_aside unlocked).trans (Option.some.inj taken ▸ aside_of_eq rfl rfl rfl rfl)
    · split at taken
      · split at taken
        · simp only [Option.bind_eq_some_iff] at taken
          obtain ⟨slot, _, taken⟩ := taken
          refine Aside.trans ?_ (switch_aside taken)
          exact aside_of_eq rfl rfl rfl rfl
        · simp only [Option.bind_eq_some_iff] at taken
          obtain ⟨last, unlocked, taken⟩ := taken
          exact (unlock_aside unlocked).trans (Option.some.inj taken ▸ aside_of_eq rfl rfl rfl rfl)
      · refine Aside.trans ?_ (switch_aside taken)
        exact aside_of_update rfl (.inr rfl) rfl rfl rfl
  · exact Option.some.inj taken ▸ aside_of_eq rfl rfl rfl rfl

theorem finish_aside {outcome : Outcome V}
    (taken : state.finish setting outcome = some after) : state.Aside after := by
  simp only [finish, Option.bind_eq_bind, Option.bind_eq_some_iff] at taken
  obtain ⟨mid, locked, value, _, internal, _, main, _, slot, _, target, _, taken⟩ := taken
  refine (lock_aside locked).trans (Aside.trans ?_ (resume_aside taken))
  exact aside_of_update rfl (.inl rfl) rfl rfl rfl

theorem endMain_aside (taken : state.endMain setting = some after) : state.Aside after := by
  simp only [endMain, Option.bind_eq_bind, Option.bind_eq_some_iff, Option.pure_def] at taken
  obtain ⟨mid, locked, main, _, taken⟩ := taken
  exact (lock_aside locked).trans (Option.some.inj taken ▸ aside_of_eq rfl rfl rfl rfl)

theorem exit_aside (taken : state.exit setting = some after) : state.Aside after := by
  simp only [exit, Option.bind_eq_bind, Option.bind_eq_some_iff, Option.pure_def] at taken
  obtain ⟨main, _, number, _, found, _, taken⟩ := taken
  split at taken
  · simp only [Option.bind_eq_some_iff] at taken
    obtain ⟨mid, unlocked, taken⟩ := taken
    exact (unlock_aside unlocked).trans (Option.some.inj taken ▸ aside_of_eq rfl rfl rfl rfl)
  · simp only [Option.bind_eq_some_iff] at taken
    obtain ⟨value, _, slot, _, target, _, taken⟩ := taken
    refine Aside.trans ?_ (resume_aside taken)
    exact aside_of_update rfl (.inl rfl) rfl rfl rfl

end State

theorem State.setTries_self (state : State ι V) (tries : List (Try V)) :
    ((state.setTries tries).internal state.executing).tries = tries := by
  simp only [State.setTries, State.setInternal, Function.update_self]

theorem State.setTries_other (state : State ι V) (tries : List (Try V)) {c : Nat}
    (apart : c ≠ state.executing) : (state.setTries tries).internal c = state.internal c :=
  Function.update_of_ne apart _ _

section

variable {state after : State ι V}

theorem Handling.aside (handling : Handling state) (aside : state.Aside after) :
    Handling after := by
  have old : ∀ c, ∀ frame ∈ (after.internal c).tries, frame ∈ (state.internal c).tries := by
    intro c frame member
    rcases aside.frames c with same | none_
    · exact same ▸ member
    · rw [none_] at member
      cases member
  constructor
  · intro c frame member
    rw [aside.tries]
    exact handling.started c frame (old c frame member)
  · intro c frame member
    rw [aside.handlers]
    exact handling.counted c frame (old c frame member)
  · intro c frame member
    rw [aside.handlers]
    exact handling.heads c frame (old c frame member)
  · intro c
    rcases aside.frames c with same | none_
    · rw [same]
      exact handling.nodup c
    · rw [none_]
      exact List.nodup_nil
  · intro c c' frame frame' other member member'
    exact handling.apart c c' frame frame' other (old c frame member) (old c' frame' member')
  · rw [aside.handlers, aside.tries]
    exact handling.fresh
  · rw [aside.attempts]
    exact handling.rethrown

/-- The handlers of no `f_try` are concerned. -/
theorem Handling.rehandle (handling : Handling state) {handlers : List (Handled V)}
    (same : ∀ number, owned number handlers = owned number state.handlers)
    (fresh : ∀ handled ∈ handlers, handled ∈ state.handlers ∨ handled.by_ = none) :
    Handling { state with handlers := handlers } where
  started := handling.started
  counted c frame member := by
    show (owned frame.number handlers).length = _
    rw [same]
    exact handling.counted c frame member
  heads c frame member := by
    show (owned frame.number handlers).head?.map Handled.thrown = _
    rw [same]
    exact handling.heads c frame member
  nodup := handling.nodup
  apart := handling.apart
  fresh handled member number by_ := by
    rcases fresh handled member with old | none_
    · exact handling.fresh handled old number by_
    · cases none_.symm.trans by_
  rethrown := handling.rethrown

/-- The innermost `f_try` of the fiber that is executed changes its phase, or is left. -/
theorem Handling.retry (handling : Handling state) {frame : Try V} {frames : List (Try V)}
    (tries : (state.internal state.executing).tries = frame :: frames) (top : Option (Try V))
    (own : (after.internal state.executing).tries = top.toList ++ frames)
    (others : ∀ c, c ≠ state.executing → (after.internal c).tries = (state.internal c).tries)
    (count : after.tries = state.tries)
    (number : ∀ changed ∈ top, changed.number = frame.number)
    (counted : ∀ changed ∈ top,
      (owned frame.number after.handlers).length = changed.phase.handlers)
    (heads : ∀ changed ∈ top,
      (owned frame.number after.handlers).head?.map Handled.thrown = changed.phase.thrown)
    (same : ∀ other, other ≠ frame.number →
      owned other after.handlers = owned other state.handlers)
    (fresh : ∀ handled ∈ after.handlers,
      handled ∈ state.handlers ∨ handled.by_ = some frame.number)
    (rethrown : ∀ number thrown actual, .rethrown number thrown actual ∈ after.attempts →
      .rethrown number thrown actual ∈ state.attempts ∨ actual = thrown) : Handling after := by
  have inside : frame ∈ (state.internal state.executing).tries := tries ▸ List.mem_cons_self
  have nodup := handling.nodup state.executing
  rw [tries, List.map_cons, List.nodup_cons] at nodup
  have rest : ∀ other ∈ frames, other.number ≠ frame.number := fun other member equal =>
    nodup.1 (equal ▸ List.mem_map_of_mem member)
  have known : ∀ c, ∀ changed ∈ (after.internal c).tries,
      (changed.number = frame.number ∧ c = state.executing ∧ changed ∈ top) ∨
        (changed.number ≠ frame.number ∧ changed ∈ (state.internal c).tries) := by
    intro c changed member
    by_cases here : c = state.executing
    · subst here
      rw [own] at member
      rcases List.mem_append.mp member with first | behind
      · have top_ := Option.mem_toList.mp first
        exact .inl ⟨number changed top_, rfl, top_⟩
      · exact .inr ⟨rest changed behind, tries ▸ List.mem_cons_of_mem _ behind⟩
    · rw [others c here] at member
      exact .inr ⟨handling.apart c state.executing changed frame here member inside, member⟩
  constructor
  · intro c changed member
    rw [count]
    rcases known c changed member with ⟨equal, -, -⟩ | ⟨-, old⟩
    · rw [equal]
      exact handling.started state.executing frame inside
    · exact handling.started c changed old
  · intro c changed member
    rcases known c changed member with ⟨equal, -, top_⟩ | ⟨other, old⟩
    · rw [equal]
      exact counted changed top_
    · rw [same _ other]
      exact handling.counted c changed old
  · intro c changed member
    rcases known c changed member with ⟨equal, -, top_⟩ | ⟨other, old⟩
    · rw [equal]
      exact heads changed top_
    · rw [same _ other]
      exact handling.heads c changed old
  · intro c
    by_cases here : c = state.executing
    · subst here
      rw [own]
      cases top with
      | none => exact nodup.2
      | some changed =>
        rw [Option.toList_some, List.singleton_append, List.map_cons, number changed rfl]
        exact List.nodup_cons.mpr nodup
    · rw [others c here]
      exact handling.nodup c
  · intro c c' changed changed' other member member'
    rcases known c changed member with ⟨equal, rfl, -⟩ | ⟨different, old⟩
    · rcases known c' changed' member' with ⟨-, rfl, -⟩ | ⟨different, -⟩
      · exact absurd rfl other
      · rw [equal]
        exact different.symm
    · rcases known c' changed' member' with ⟨equal, -, -⟩ | ⟨-, old'⟩
      · rw [equal]
        exact different
      · exact handling.apart c c' changed changed' other old old'
  · intro handled member number by_
    rw [count]
    rcases fresh handled member with old | mine
    · exact handling.fresh handled old number by_
    · obtain rfl := Option.some.inj (mine.symm.trans by_)
      exact handling.started state.executing frame inside
  · intro number thrown actual member
    rcases rethrown number thrown actual member with old | equal
    · exact handling.rethrown number thrown actual old
    · exact equal

/-- An `f_try` is entered. -/
theorem Handling.enter (handling : Handling state) (clauses : Nat) {attempts : List (Attempt V)}
    (old : ∀ number thrown actual, .rethrown number thrown actual ∈ attempts →
      .rethrown number thrown actual ∈ state.attempts) :
    Handling { state.setTries
      (⟨state.tries, clauses, .body⟩ :: (state.internal state.executing).tries) with
        attempts := attempts, tries := state.tries + 1 } := by
  have own := state.setTries_self
    (⟨state.tries, clauses, .body⟩ :: (state.internal state.executing).tries)
  have others := fun c => state.setTries_other (c := c)
    (⟨state.tries, clauses, .body⟩ :: (state.internal state.executing).tries)
  have none_ : owned state.tries state.handlers = [] := by
    refine List.filter_eq_nil_iff.mpr fun handled member by_ => ?_
    exact absurd (handling.fresh handled member _ (of_decide_eq_true by_)) (Nat.lt_irrefl _)
  have known : ∀ c, ∀ frame ∈ ((state.setTries (⟨state.tries, clauses, .body⟩ ::
      (state.internal state.executing).tries)).internal c).tries,
      (frame = ⟨state.tries, clauses, .body⟩ ∧ c = state.executing) ∨
        frame ∈ (state.internal c).tries := by
    intro c frame member
    by_cases here : c = state.executing
    · subst here
      rw [own] at member
      exact (List.mem_cons.mp member).imp_left fun equal => ⟨equal, rfl⟩
    · rw [others c here] at member
      exact .inr member
  constructor
  · intro c frame member
    rcases known c frame member with ⟨rfl, -⟩ | old
    · exact Nat.lt_succ_self _
    · exact Nat.lt_succ_of_lt (handling.started c frame old)
  · intro c frame member
    rcases known c frame member with ⟨rfl, -⟩ | old
    · exact congrArg List.length none_
    · exact handling.counted c frame old
  · intro c frame member
    rcases known c frame member with ⟨rfl, -⟩ | old
    · exact congrArg (fun handlers => handlers.head?.map Handled.thrown) none_
    · exact handling.heads c frame old
  · intro c
    by_cases here : c = state.executing
    · subst here
      show (((state.setTries _).internal state.executing).tries.map Try.number).Nodup
      rw [own, List.map_cons]
      refine List.nodup_cons.mpr ⟨fun member => ?_, handling.nodup state.executing⟩
      obtain ⟨frame, inside, equal⟩ := List.mem_map.mp member
      exact absurd equal (Nat.ne_of_lt (handling.started state.executing frame inside))
    · show (((state.setTries _).internal c).tries.map Try.number).Nodup
      rw [others c here]
      exact handling.nodup c
  · intro c c' frame frame' other member member'
    rcases known c frame member with ⟨rfl, rfl⟩ | old
    · rcases known c' frame' member' with ⟨-, rfl⟩ | old'
      · exact absurd rfl other
      · exact (Nat.ne_of_lt (handling.started c' frame' old')).symm
    · rcases known c' frame' member' with ⟨rfl, -⟩ | old'
      · exact Nat.ne_of_lt (handling.started c frame old)
      · exact handling.apart c c' frame frame' other old old'
  · intro handled member number by_
    exact Nat.lt_succ_of_lt (handling.fresh handled member number by_)
  · intro number thrown actual member
    exact handling.rethrown number thrown actual (old number thrown actual member)

end

/-! ### The steps -/

/-- The handlers that an action leaves, and whose they are. -/
def leaves (setting : Setting ι V) (state : State ι V) (action : Action ι V) :
    Option Nat × Nat :=
  match (state.internal state.executing).tries, action with
  | frame :: _, .leave | frame :: _, .yrt => (some frame.number, frame.phase.handlers)
  | frame :: _, .unwind =>
    match frame.phase with
    | .rethrowing _ _ => (some frame.number, frame.phase.handlers)
    | _ => (some frame.number, 0)
  | [], .return_ _ | [], .unwind =>
    if (state.internal state.executing).atMain then
      match state.stage with
      | .naming first => (none, if setting.isThrowable first then 0 else 1)
      | .dumping => (none, 1)
      | _ => (none, 0)
    else (none, 0)
  | _, _ => (none, 0)

/-- The handlers that are left are the innermost ones of the thread. -/
def Nests (setting : Setting ι V) (state : State ι V) (action : Action ι V) : Prop :=
  ∀ handled ∈ state.handlers.take (leaves setting state action).2,
    handled.by_ = (leaves setting state action).1

instance decidableNests [DecidableEq V] (setting : Setting ι V) (state : State ι V)
    (action : Action ι V) : Decidable (Nests setting state action) :=
  inferInstanceAs (Decidable (∀ handled ∈ state.handlers.take (leaves setting state action).2,
    handled.by_ = (leaves setting state action).1))

namespace Handling

variable {setting : Setting ι V} {state after : State ι V}

/-- What an `f_try` with a new phase is in, when it has entered a handler. -/
theorem entered (handling : Handling state) {frame : Try V} {frames : List (Try V)}
    (tries : (state.internal state.executing).tries = frame :: frames) {phase : Phase V}
    {thrown : V} {attempts : List (Attempt V)} {next : Control V}
    (one : phase.handlers = frame.phase.handlers + 1) (throws : phase.thrown = some thrown)
    (old : ∀ number thrown actual, .rethrown number thrown actual ∈ attempts →
      .rethrown number thrown actual ∈ state.attempts) :
    Handling { (state.setTries ({ frame with phase := phase } :: frames)).enterHandler
      (some frame.number) thrown with attempts := attempts, control := next } := by
  have inside : frame ∈ (state.internal state.executing).tries := tries ▸ List.mem_cons_self
  refine handling.retry tries (some { frame with phase := phase }) ?_ ?_ rfl ?_ ?_ ?_ ?_ ?_ ?_
  · exact state.setTries_self _
  · exact fun c apart => congrArg Internal.tries (state.setTries_other _ apart)
  · rintro changed ⟨⟩
    rfl
  · rintro changed ⟨⟩
    show (owned frame.number (⟨some frame.number, thrown⟩ :: state.handlers)).length = phase.handlers
    rw [owned_cons_self, List.length_cons, handling.counted _ frame inside, one]
  · rintro changed ⟨⟩
    show (owned frame.number (⟨some frame.number, thrown⟩ :: state.handlers)).head?.map
      Handled.thrown = phase.thrown
    rw [owned_cons_self, throws]
    rfl
  · intro other different
    exact owned_cons_other thrown fun same => different (Option.some.inj same).symm
  · intro handled member
    rcases List.mem_cons.mp member with rfl | member
    · exact .inr rfl
    · exact .inl member
  · exact fun number thrown actual member => .inl (old number thrown actual member)

/-- What an `f_try` with a new phase is in, when it has left what it was in or nothing. -/
theorem changed (handling : Handling state) {frame : Try V} {frames : List (Try V)}
    (tries : (state.internal state.executing).tries = frame :: frames) {phase : Phase V}
    {handlers : List (Handled V)} {attempts : List (Attempt V)} {next : Control V}
    (left : (handlers = state.handlers ∧ phase.handlers = frame.phase.handlers ∧
        phase.thrown = frame.phase.thrown) ∨
      handlers = state.handlers.drop frame.phase.handlers ∧
        (∀ handled ∈ state.handlers.take frame.phase.handlers,
          handled.by_ = some frame.number) ∧ phase.handlers = 0 ∧ phase.thrown = none)
    (old : ∀ number thrown actual, .rethrown number thrown actual ∈ attempts →
      .rethrown number thrown actual ∈ state.attempts) :
    Handling { state.setTries ({ frame with phase := phase } :: frames) with
      handlers := handlers, attempts := attempts, control := next } := by
  have inside : frame ∈ (state.internal state.executing).tries := tries ▸ List.mem_cons_self
  have counted := handling.counted _ frame inside
  have heads := handling.heads _ frame inside
  refine handling.retry tries (some { frame with phase := phase }) ?_ ?_ rfl ?_ ?_ ?_ ?_ ?_ ?_
  · exact state.setTries_self _
  · exact fun c apart => congrArg Internal.tries (state.setTries_other _ apart)
  · rintro changed ⟨⟩
    rfl
  · rintro changed ⟨⟩
    show (owned frame.number handlers).length = phase.handlers
    rcases left with ⟨rfl, same, -⟩ | ⟨rfl, own, none_, -⟩
    · rw [counted, same]
    · rw [owned_drop_self own counted, none_]
      rfl
  · rintro changed ⟨⟩
    show (owned frame.number handlers).head?.map Handled.thrown = phase.thrown
    rcases left with ⟨rfl, -, same⟩ | ⟨rfl, own, -, none_⟩
    · rw [heads, same]
    · rw [owned_drop_self own counted, none_]
      rfl
  · intro other different
    rcases left with ⟨rfl, -, -⟩ | ⟨rfl, own, -, -⟩
    · rfl
    · exact owned_drop_other own fun same => different (Option.some.inj same).symm
  · intro handled member
    rcases left with ⟨rfl, -, -⟩ | ⟨rfl, -, -, -⟩
    · exact .inl member
    · exact .inl (List.mem_of_mem_drop member)
  · exact fun number thrown actual member => .inl (old number thrown actual member)

/-- An `f_try` is left, with its handlers. -/
theorem popped (handling : Handling state) {frame : Try V} {frames : List (Try V)}
    (tries : (state.internal state.executing).tries = frame :: frames)
    (own : ∀ handled ∈ state.handlers.take frame.phase.handlers, handled.by_ = some frame.number)
    {attempts : List (Attempt V)} {next : Control V}
    (old : ∀ number thrown actual, .rethrown number thrown actual ∈ attempts →
      .rethrown number thrown actual ∈ state.attempts ∨ actual = thrown) :
    Handling { state.setTries frames with
      handlers := state.handlers.drop frame.phase.handlers
      attempts := attempts, control := next } := by
  refine handling.retry tries none ?_ ?_ rfl nofun nofun nofun ?_ ?_ old
  · exact state.setTries_self _
  · exact fun c apart => congrArg Internal.tries (state.setTries_other _ apart)
  · intro other different
    exact owned_drop_other own fun same => different (Option.some.inj same).symm
  · exact fun handled member => .inl (List.mem_of_mem_drop member)

theorem actual (handling : Handling state) {frame : Try V} {frames : List (Try V)}
    (tries : (state.internal state.executing).tries = frame :: frames) {thrown : V} {nested : Bool}
    (phase : frame.phase = .rethrowing thrown nested)
    (own : ∀ handled ∈ state.handlers.take frame.phase.handlers, handled.by_ = some frame.number) :
    ∃ handled, state.handlers.head? = some handled ∧ handled.thrown = thrown := by
  have inside : frame ∈ (state.internal state.executing).tries := tries ▸ List.mem_cons_self
  have head := handling.heads _ frame inside
  have some_ : 0 < frame.phase.handlers := by
    rw [phase]
    cases nested
    · exact Nat.one_pos
    · exact Nat.two_pos
  rw [← head_of_owned own (handling.counted _ frame inside) some_, phase] at head
  exact Option.map_eq_some_iff.mp head

theorem settled (handling : Handling state) {result : Option (State ι V)}
    (stays : ∀ next, result = some next → Handling next)
    (taken : state.settle result = some after) : Handling after := by
  obtain rfl := Option.some.inj taken
  cases result with
  | none => exact handling.aside (State.aside_of_eq rfl rfl rfl rfl)
  | some next => exact stays next rfl

theorem reportMain [DecidableEq ι] (handling : Handling state) {outcome : Option V}
    (own : ∀ first, state.stage = .naming first → setting.isThrowable first = false →
      ∀ handled ∈ state.handlers.take 1, handled.by_ = none)
    (own' : state.stage = .dumping → ∀ handled ∈ state.handlers.take 1, handled.by_ = none)
    (taken : state.reportMain setting outcome = some after) : Handling after := by
  have left : (∀ handled ∈ state.handlers.take 1, handled.by_ = none) →
      Handling (state.leaveHandlers 1) := fun own =>
    handling.rehandle (fun number => owned_drop_other own nofun)
      fun handled member => .inl (List.mem_of_mem_drop member)
  unfold State.reportMain at taken
  split at taken
  · rename_i thrown _
    have entered : Handling (state.enterHandler none thrown) := by
      refine handling.rehandle (fun number => owned_cons_other thrown nofun) fun handled member => ?_
      rcases List.mem_cons.mp member with rfl | member
      · exact .inr rfl
      · exact .inl member
    exact Option.some.inj taken ▸ entered.aside (State.aside_of_eq rfl rfl rfl rfl)
  · rename_i first stage
    split at taken
    · exact Option.some.inj taken ▸ handling.aside (State.aside_of_eq rfl rfl rfl rfl)
    · rename_i other
      exact (left (own first stage ((Bool.not_eq_true _).mp other))).aside
        (State.endMain_aside taken)
  · rename_i stage
    exact (left (own' stage)).aside (State.endMain_aside taken)
  · exact handling.aside (State.endMain_aside taken)

section

variable [DecidableEq ι] [DecidableEq V]

omit [DecidableEq V] in
theorem leaveStack (handling : Handling state) {action : Action ι V} {outcome : Outcome V}
    (tries : (state.internal state.executing).tries = [])
    (ends : action = .unwind ∨ ∃ x, action = .return_ x) (nests : Nests setting state action)
    (taken : state.leaveStack setting outcome = some after) : Handling after := by
  unfold State.leaveStack at taken
  split at taken
  · rename_i main
    have left : leaves setting state action = match state.stage with
        | .naming first => (none, if setting.isThrowable first then 0 else 1)
        | .dumping => (none, 1)
        | _ => (none, 0) := by
      unfold leaves
      rcases ends with rfl | ⟨x, rfl⟩ <;> simp only [tries, main, if_true]
    unfold Nests at nests
    rw [left] at nests
    refine handling.reportMain (fun first stage other => ?_) (fun stage => ?_) taken
    · simpa only [stage, other, Bool.false_eq_true, if_false] using nests
    · simpa only [stage] using nests
  · exact handling.aside (State.finish_aside taken)

omit [DecidableEq V] in
theorem unwind (handling : Handling state) {thrown : V} (nests : Nests setting state .unwind)
    (taken : state.unwind setting thrown = some after) : Handling after := by
  unfold State.unwind at taken
  split at taken
  · rename_i tries
    exact handling.leaveStack tries (.inl rfl) nests taken
  · rename_i frame frames tries
    simp only [Nests, leaves, tries] at nests
    cases phase : frame.phase with
    | body =>
      simp only [phase] at taken
      obtain rfl := Option.some.inj taken
      exact handling.entered tries (by rw [phase]; rfl) rfl fun _ _ _ member => member
    | matching first clauses =>
      simp only [phase] at taken
      obtain rfl := Option.some.inj taken
      exact handling.entered tries (by rw [phase]; rfl) rfl (rethrown_of_append (by simp))
    | caught first =>
      simp only [phase] at taken
      obtain rfl := Option.some.inj taken
      exact handling.entered tries (by rw [phase]; rfl) rfl (rethrown_of_append (by simp))
    | finishing =>
      simp only [phase] at taken
      have own : ∀ handled ∈ state.handlers.take frame.phase.handlers,
          handled.by_ = some frame.number := by
        rw [phase]
        exact nofun
      obtain rfl := Option.some.inj taken
      rw [← phase]
      exact handling.popped tries own fun _ _ _ member => .inl member
    | rethrowing first nested =>
      simp only [phase] at taken nests
      have own : ∀ handled ∈ state.handlers.take frame.phase.handlers,
          handled.by_ = some frame.number := by
        rw [phase]
        exact nests
      obtain rfl := Option.some.inj taken
      rw [← phase]
      exact handling.popped tries own fun _ _ _ member => .inl member

theorem execute (handling : Handling state) {action : Action ι V}
    (nests : Nests setting state action)
    (taken : Fibers.execute setting state action = some after) : Handling after := by
  have aside : ∀ {next : State ι V}, next.tries = state.tries → next.handlers = state.handlers →
      next.attempts = state.attempts → next.internal = state.internal → Handling next :=
    fun tries handlers attempts internal =>
      handling.aside (State.aside_of_eq tries handlers attempts internal)
  cases action with
  | call callee arguments =>
    simp only [Fibers.execute] at taken
    split at taken
    · exact handling.settled (fun next called => handling.aside (State.call_aside called)) taken
    · cases taken
  | throw_ thrown => exact Option.some.inj taken ▸ aside rfl rfl rfl rfl
  | try_ clauses =>
    obtain rfl := Option.some.inj taken
    exact handling.enter clauses (rethrown_of_append (by simp))
  | instantiate fiber =>
    simp only [Fibers.execute] at taken
    split at taken
    · cases taken
    · exact Option.some.inj taken ▸ aside rfl rfl rfl rfl
  | return_ x =>
    cases tries : (state.internal state.executing).tries with
    | nil =>
      simp only [Fibers.execute, tries] at taken
      exact handling.settled
        (fun next left => handling.leaveStack tries (.inr ⟨x, rfl⟩) nests left) taken
    | cons frame frames => simp [Fibers.execute, tries] at taken
  | leave =>
    cases tries : (state.internal state.executing).tries with
    | nil => simp [Fibers.execute, tries] at taken
    | cons frame frames =>
      simp only [Nests, leaves, tries] at nests
      have left : Handling { state.setTries ({ frame with phase := .finishing } :: frames) with
          handlers := state.handlers.drop frame.phase.handlers
          attempts := state.attempts ++ [.finally_ frame.number] } :=
        handling.changed tries (.inr ⟨rfl, nests, rfl, rfl⟩) (rethrown_of_append (by simp))
      cases phase : frame.phase <;> simp only [Fibers.execute, tries, phase] at taken
      case body =>
        rw [phase] at left
        exact Option.some.inj taken ▸ left
      case caught =>
        rw [phase] at left
        exact Option.some.inj taken ▸ left
      all_goals cases taken
  | exhaust =>
    cases tries : (state.internal state.executing).tries with
    | nil => simp [Fibers.execute, tries] at taken
    | cons frame frames =>
      cases phase : frame.phase with
      | matching thrown clauses =>
        cases clauses with
        | zero =>
          simp only [Fibers.execute, tries, phase] at taken
          obtain rfl := Option.some.inj taken
          exact handling.changed tries (.inl ⟨rfl, by rw [phase]; rfl, by rw [phase]; rfl⟩)
            (rethrown_of_append (by simp))
        | succ clauses => simp [Fibers.execute, tries, phase] at taken
      | _ => simp [Fibers.execute, tries, phase] at taken
  | catch_ type =>
    cases tries : (state.internal state.executing).tries with
    | nil => simp [Fibers.execute, tries] at taken
    | cons frame frames =>
      cases phase : frame.phase with
      | matching thrown clauses =>
        cases clauses with
        | zero => simp [Fibers.execute, tries, phase] at taken
        | succ clauses =>
          simp only [Fibers.execute, tries, phase] at taken
          split at taken
          · split at taken
            · obtain rfl := Option.some.inj taken
              exact handling.changed tries (.inl ⟨rfl, by rw [phase]; rfl, by rw [phase]; rfl⟩)
                (rethrown_of_append (by simp))
            · obtain rfl := Option.some.inj taken
              exact handling.changed tries (.inl ⟨rfl, by rw [phase]; rfl, by rw [phase]; rfl⟩)
                fun _ _ _ member => member
          · exact Option.some.inj taken ▸ aside rfl rfl rfl rfl
      | _ => simp [Fibers.execute, tries, phase] at taken
  | yrt =>
    cases tries : (state.internal state.executing).tries with
    | nil => simp [Fibers.execute, tries] at taken
    | cons frame frames =>
      simp only [Nests, leaves, tries] at nests
      cases phase : frame.phase with
      | finishing =>
        simp only [Fibers.execute, tries, phase] at taken
        have popped : Handling { state.setTries frames with
            handlers := state.handlers.drop frame.phase.handlers } :=
          handling.popped tries nests fun _ _ _ member => .inl member
        rw [phase] at popped
        exact Option.some.inj taken ▸ popped
      | rethrowing thrown nested =>
        simp only [Fibers.execute, tries, phase] at taken
        obtain ⟨handled, head, same⟩ := handling.actual tries phase nests
        refine handling.settled (fun next thrown_ => ?_) taken
        simp only [State.rethrow, head, Option.bind_eq_bind, Option.bind_some, Option.pure_def,
          Option.some.injEq] at thrown_
        subst thrown_
        refine handling.popped tries nests fun number thrown' actual member => ?_
        rcases List.mem_append.mp member with old | now
        · exact .inl old
        · cases List.mem_singleton.mp now
          exact .inr same
      | _ => simp [Fibers.execute, tries, phase] at taken
  | _ => cases tries : (state.internal state.executing).tries <;>
      simp [Fibers.execute, tries] at taken

theorem step (handling : Handling state) {action : Action ι V}
    (nests : Nests setting state action)
    (taken : Fibers.step setting state action = some after) : Handling after := by
  have aside : ∀ {next : State ι V}, next.tries = state.tries → next.handlers = state.handlers →
      next.attempts = state.attempts → next.internal = state.internal → Handling next :=
    fun tries handlers attempts internal =>
      handling.aside (State.aside_of_eq tries handlers attempts internal)
  unfold Fibers.step at taken
  split at taken
  · split at taken
    · exact Option.some.inj taken ▸ aside rfl rfl rfl rfl
    · cases taken
  · split at taken
    · cases taken
    · exact Option.some.inj taken ▸ aside rfl rfl rfl rfl
  · exact handling.settled (fun next unwound => handling.unwind nests unwound) taken
  · exact handling.settled (fun next left => handling.aside (State.exit_aside left)) taken
  · exact handling.execute nests taken
  · cases taken

omit [DecidableEq V] in
theorem start (setting : Setting ι V) : Handling (Fibers.start setting) where
  started _ _ member := absurd member List.not_mem_nil
  counted _ _ member := absurd member List.not_mem_nil
  heads _ _ member := absurd member List.not_mem_nil
  nodup _ := List.nodup_nil
  apart _ _ _ _ _ member := absurd member List.not_mem_nil
  fresh _ member := absurd member List.not_mem_nil
  rethrown _ _ _ member := absurd member List.not_mem_nil

end

end Handling

end Xemmai.Fibers
