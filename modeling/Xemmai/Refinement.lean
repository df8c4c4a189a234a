import Xemmai.Evaluation

/-!
# The structured run refines the evaluation

The slots of a frame tell what the evaluation gives, as long as every read finds
what has last been assigned: a value is on the stack, where the part was entered
or where the jump that it belongs to leaves it, and what is below stays.
-/

namespace Xemmai

set_option autoImplicit false
set_option linter.unusedSectionVars false

section Frames

variable {F O W : Type}

def Access.Faithful : Access F O → Prop
  | .read _ found last => found = last
  | .callee _ _ found last => found = last
  | _ => True

def State.Faithful (state : State F O W) : Prop := ∀ access ∈ state.log, access.Faithful

def State.store (state : State F O W) : Store F O W := ⟨state.assigned, state.world⟩

/-- The slots above the variables and below `low` are as they were. -/
def Framed (privates low : Nat) (before after : State F O W) : Prop :=
  ∀ slot, privates ≤ slot → slot < low → after.slot slot = before.slot slot

variable {privates low : Nat} {first second third : State F O W}

theorem Grown.faithful (grown : Grown first second) (faithful : second.Faithful) :
    first.Faithful :=
  fun access member => faithful access (grown.log access member)

namespace Framed

theorem refl (state : State F O W) : Framed privates low state state := fun _ _ _ => rfl

theorem trans (left : Framed privates low first second) (right : Framed privates low second third) :
    Framed privates low first third :=
  fun slot above below => (right slot above below).trans (left slot above below)

theorem lower {least : Nat} (keeps : Framed privates low first second) (less : least ≤ low) :
    Framed privates least first second :=
  fun slot above below => keeps slot above (Nat.lt_of_lt_of_le below less)

theorem of_slot (same : second.slot = first.slot) : Framed privates low first second := by
  intro slot _ _
  rw [same]

theorem write (index : Nat) (value : Value F O) (state : State F O W)
    (apart : low ≤ index ∨ index < privates) :
    Framed privates low state (state.write privates index value) := by
  intro slot above below
  have other : slot ≠ index := by omega
  rw [State.write]
  split <;> exact Function.update_of_ne other _ _

theorem insertNulls {slots : List Nat} (inside : ∀ slot ∈ slots, slot < privates) :
    ∀ state : State F O W, Framed privates low state (state.insertNulls slots) := by
  induction slots with
  | nil => exact refl
  | cons index slots induction =>
      intro state slot above below
      have other : slot ≠ index :=
        Nat.ne_of_gt (Nat.lt_of_lt_of_le (inside index List.mem_cons_self) above)
      have rest := induction (fun slot member => inside slot (List.mem_cons_of_mem index member))
        (state.insertNull index) slot above below
      exact rest.trans (Function.update_of_ne other _ _)

end Framed

namespace State

theorem slot_read (privates index : Nat) (state : State F O W) :
    (state.read privates index).slot = state.slot := by
  unfold State.read
  split <;> rfl

theorem slot_fetched (privates : Nat) (operand : Operand F O) (state : State F O W) :
    (state.fetched privates operand).slot = state.slot := by
  cases operand with
  | «variable» index => exact slot_read privates index state
  | _ => rfl

theorem slot_write (privates index : Nat) (value : Value F O) (state : State F O W) :
    (state.write privates index value).slot index = value := by
  rw [State.write]
  split <;> exact Function.update_self _ _ _

@[simp] theorem store_note (access : Access F O) (state : State F O W) :
    (state.note access).store = state.store := rfl

@[simp] theorem store_read (privates index : Nat) (state : State F O W) :
    (state.read privates index).store = state.store := by
  unfold State.read
  split <;> rfl

@[simp] theorem store_fetched (privates : Nat) (operand : Operand F O) (state : State F O W) :
    (state.fetched privates operand).store = state.store := by
  cases operand with
  | «variable» index => exact store_read privates index state
  | _ => rfl

@[simp] theorem store_expose (exposed : List Nat) (state : State F O W) :
    (state.expose exposed).store = state.store := rfl

@[simp] theorem store_setWorld (world : W) (state : State F O W) :
    (state.setWorld world).store = state.store.setWorld world := rfl

@[simp] theorem store_insertNulls (slots : List Nat) : ∀ state : State F O W,
    (state.insertNulls slots).store = state.store := by
  induction slots with
  | nil => exact fun _ => rfl
  | cons slot slots induction => exact fun state => induction (state.insertNull slot)

@[simp] theorem store_know (layout : Layout) (privates : Nat → Bool) (index : Nat)
    (state : State F O W) : (state.know layout privates index).store = state.store := by
  unfold State.know
  split <;> rfl

theorem store_write_high {privates index : Nat} (high : privates ≤ index) (value : Value F O)
    (state : State F O W) : (state.write privates index value).store = state.store := by
  rw [State.write, if_neg (Nat.not_lt.mpr high)]
  rfl

theorem store_write_low {privates index : Nat} (below : index < privates) (value : Value F O)
    (state : State F O W) : (state.write privates index value).store =
      { state.store with locals := Function.update state.store.locals index value } := by
  rw [State.write, if_pos below]
  rfl

theorem Faithful.slot {privates index : Nat} {state : State F O W}
    (faithful : (state.read privates index).Faithful) (below : index < privates) :
    state.slot index = state.store.locals index := by
  rw [State.read, if_pos below] at faithful
  exact faithful (.read index (state.slot index) (state.assigned index))
    (List.mem_append_right _ (List.mem_singleton_self _))

theorem operands_succ (first count : Nat) (state : State F O W) :
    state.operands first (count + 1) = state.slot first :: state.operands (first + 1) count := by
  rw [State.operands, List.range_succ_eq_map, List.map_cons, List.map_map]
  refine congrArg₂ List.cons rfl (List.map_congr_left ?_)
  intro i _
  exact congrArg state.slot (by simp only [Nat.succ_eq_add_one]; omega)

end State

end Frames

section Following

variable {F O W : Type} (layout : Layout) (exits : Exits) (lands : Lands) (stack : Nat)

/-- Where a part and the jumps that leave it put their values. -/
structure Fits : Prop where
  above : layout.privates ≤ stack
  high : High layout exits lands
  breaks : lands.break_ = true → exits.breakStack ≤ stack
  continues : lands.continue_ = true → exits.breakStack ≤ stack
  returns : lands.return_ = true → exits.returnStack ≤ stack
  ordered : lands.break_ = true → lands.return_ = true → exits.returnStack ≤ exits.breakStack

/-- Jumps that may leave a part of what others may leave. -/
structure Lands.Within (lands others : Lands) : Prop where
  break_ : lands.break_ = true → others.break_ = true
  continue_ : lands.continue_ = true → others.continue_ = true
  return_ : lands.return_ = true → others.return_ = true

theorem Lands.Within.refl (lands : Lands) : lands.Within lands := ⟨id, id, id⟩

/-- The targets in the body of a loop. -/
structure Round (tail asked : Bool) (inner : Exits) (innerLands : Lands) : Prop where
  below : inner.breakStack = stack
  breakEnds : inner.breakIsTail = tail
  cleared : asked = true → inner.breakMustClear = false
  breaks : innerLands.break_ = true
  returned : inner.returnStack = exits.returnStack
  returnEnds : inner.returnIsTail = exits.returnIsTail
  returns : innerLands.return_ = lands.return_

/-- The targets in the body and the catch clauses of a try. -/
structure Guarded (inner : Exits) : Prop where
  breakStack : inner.breakStack = stack
  breakEnds : inner.breakIsTail = false
  cleared : inner.breakMustClear = exits.breakMustClear
  returnStack : inner.returnStack = stack
  returnEnds : inner.returnIsTail = false

/-- The ways from a finally block to the outer targets, which take the value of
the try to where they expect theirs. -/
structure Ways (break_ continue_ return_ : State F O W → State F O W) : Prop where
  grown : ∀ state, Grown state (break_ state) ∧ Grown state (continue_ state) ∧
    Grown state (return_ state)
  breaks : ∀ state, lands.break_ = true → (break_ state).store = state.store ∧
    Framed layout.privates exits.breakStack state (break_ state) ∧
      (exits.breakMustClear = false → (break_ state).slot exits.breakStack = state.slot stack)
  continues : ∀ state, (continue_ state).store = state.store ∧
    Framed layout.privates stack state (continue_ state)
  returns : ∀ state, lands.return_ = true → (return_ state).store = state.store ∧
    Framed layout.privates exits.returnStack state (return_ state) ∧
      (return_ state).slot exits.returnStack = state.slot stack

def Exits.floor (exits : Exits) (lands : Lands) (stack : Nat) : Nat :=
  if lands.return_ then exits.returnStack else if lands.break_ then exits.breakStack else stack

/-- The end of a part tells how the evaluation goes on. A result is as `holds`
says, or the frame has been left with it as `ends` says. -/
inductive Tells {A : Type} (holds : A → State F O W → Prop) (ends : A → Value F O → Prop)
    (before : State F O W) :
    Completion F O → State F O W → Conclusion (Value F O) A → Prop where
  | normal {a : A} {after : State F O W} (held : holds a after)
      (keeps : Framed layout.privates stack before after) :
      Tells holds ends before .normal after (.value a)
  | ended {a : A} {value : Value F O} {after : State F O W} (ended : ends a value) :
      Tells holds ends before (.returned value) after (.value a)
  | break_ {value : Value F O} {after : State F O W} (landed : lands.break_ = true)
      (held : exits.breakMustClear = false → after.slot exits.breakStack = value)
      (keeps : Framed layout.privates exits.breakStack before after) :
      Tells holds ends before .break_ after (.break_ value)
  | breakEnded {value : Value F O} {after : State F O W} (landed : lands.break_ = true)
      (isTail : exits.breakIsTail = true) :
      Tells holds ends before (.returned value) after (.break_ value)
  | continue_ {after : State F O W} (landed : lands.continue_ = true)
      (keeps : Framed layout.privates exits.breakStack before after) :
      Tells holds ends before .continue_ after .continue_
  | return_ {value : Value F O} {after : State F O W} (landed : lands.return_ = true)
      (held : after.slot exits.returnStack = value)
      (keeps : Framed layout.privates exits.returnStack before after) :
      Tells holds ends before .return_ after (.return_ value)
  | returnEnded {value : Value F O} {after : State F O W} (landed : lands.return_ = true)
      (isTail : exits.returnIsTail = true) :
      Tells holds ends before (.returned value) after (.return_ value)
  | threw {thrown : Value F O} {after : State F O W}
      (keeps : Framed layout.privates (exits.floor lands stack) before after) :
      Tells holds ends before (.threw thrown) after (.threw thrown)
  | timeout {after : State F O W} : Tells holds ends before .timeout after .timeout

/-- If every read has been faithful, the end of a part tells what the evaluation is. -/
def Refines {A : Type} (holds : A → State F O W → Prop) (ends : A → Value F O → Prop)
    (before : State F O W) (ending : Ending F O W)
    (evaluated : Evaluated (Value F O) (Store F O W) A) : Prop :=
  ending.2.Faithful → ending.2.store = evaluated.2 ∧
    Tells layout exits lands stack holds ends before ending.1 ending.2 evaluated.1

def Never {F O A : Type} : A → Value F O → Prop := fun _ _ => False

/-- In the place of a tail, the frame may be left with the result. -/
def Ended {F O : Type} (tail : Bool) : Value F O → Value F O → Prop :=
  fun value last => tail = true ∧ value = last

/-- A value that is asked for is on the stack. -/
def Holds {F O W : Type} (asked : Bool) (stack : Nat) : Value F O → State F O W → Prop :=
  fun value after => asked = true → after.slot stack = value

variable {layout exits lands stack}

theorem Fits.floor_le (fits : Fits layout exits lands stack) :
    exits.floor lands stack ≤ stack := by
  unfold Exits.floor
  split
  · next landed => exact fits.returns landed
  · split
    · next landed => exact fits.breaks landed
    · exact le_refl stack

theorem Guarded.floor_eq {inner : Exits} (guarded : Guarded exits stack inner) :
    inner.floor lands stack = stack := by
  simp only [Exits.floor, guarded.returnStack, guarded.breakStack, ite_self]

theorem Fits.round {inner : Exits} {innerLands : Lands} {tail asked : Bool}
    (fits : Fits layout exits lands stack)
    (round : Round exits lands stack tail asked inner innerLands) :
    Fits layout inner innerLands stack where
  above := fits.above
  high := by
    refine ⟨fun _ => round.below ▸ fits.above, fun landed => ?_⟩
    rw [round.returned]
    exact fits.high.return_ (round.returns ▸ landed)
  breaks _ := le_of_eq round.below
  continues _ := le_of_eq round.below
  returns landed := by
    rw [round.returned]
    exact fits.returns (round.returns ▸ landed)
  ordered _ landed := by
    rw [round.returned, round.below]
    exact fits.returns (round.returns ▸ landed)

theorem Fits.guarded {inner : Exits} (fits : Fits layout exits lands stack)
    (guarded : Guarded exits stack inner) : Fits layout inner lands stack where
  above := fits.above
  high := ⟨fun _ => guarded.breakStack ▸ fits.above, fun _ => guarded.returnStack ▸ fits.above⟩
  breaks _ := le_of_eq guarded.breakStack
  continues _ := le_of_eq guarded.breakStack
  returns _ := le_of_eq guarded.returnStack
  ordered _ _ := le_of_eq (guarded.returnStack.trans guarded.breakStack.symm)

theorem Fits.break_ (fits : Fits layout exits lands stack) (landed : lands.break_ = true) :
    Fits layout exits lands exits.breakStack where
  above := fits.high.break_ landed
  high := fits.high
  breaks _ := le_refl _
  continues _ := le_refl _
  returns := fits.ordered landed
  ordered := fits.ordered

theorem Fits.return_ (fits : Fits layout exits lands stack) (landed : lands.return_ = true) :
    Fits layout exits ⟨false, false, true⟩ exits.returnStack where
  above := fits.high.return_ landed
  high := ⟨nofun, fun _ => fits.high.return_ landed⟩
  breaks := nofun
  continues := nofun
  returns _ := le_refl _
  ordered := nofun

theorem Exits.floor_mono {stack' : Nat} (less : stack ≤ stack') :
    exits.floor lands stack ≤ exits.floor lands stack' := by
  unfold Exits.floor
  split
  · exact le_refl _
  · split
    · exact le_refl _
    · exact less

theorem Fits.lift {stack' : Nat} (fits : Fits layout exits lands stack) (less : stack ≤ stack') :
    Fits layout exits lands stack' where
  above := fits.above.trans less
  high := fits.high
  breaks landed := (fits.breaks landed).trans less
  continues landed := (fits.continues landed).trans less
  returns landed := (fits.returns landed).trans less
  ordered := fits.ordered

section Tellings

variable {A B : Type} {holds holds' : A → State F O W → Prop} {ends : A → Value F O → Prop}
variable {before middle after : State F O W} {completion : Completion F O}
variable {conclusion : Conclusion (Value F O) A}

theorem Tells.earlier (tells : Tells layout exits lands stack holds ends middle completion after
      conclusion) (fits : Fits layout exits lands stack)
    (keeps : Framed layout.privates stack before middle) :
    Tells layout exits lands stack holds ends before completion after conclusion := by
  cases tells with
  | normal held later => exact .normal held (keeps.trans later)
  | ended ended => exact .ended ended
  | break_ landed held later =>
      exact .break_ landed held ((keeps.lower (fits.breaks landed)).trans later)
  | breakEnded landed isTail => exact .breakEnded landed isTail
  | continue_ landed later =>
      exact .continue_ landed ((keeps.lower (fits.continues landed)).trans later)
  | return_ landed held later =>
      exact .return_ landed held ((keeps.lower (fits.returns landed)).trans later)
  | returnEnded landed isTail => exact .returnEnded landed isTail
  | threw later => exact .threw ((keeps.lower fits.floor_le).trans later)
  | timeout => exact .timeout

theorem Tells.lower {stack' : Nat} (tells : Tells layout exits lands stack' holds ends before
      completion after conclusion) (less : stack ≤ stack')
    (weaker : ∀ a, holds a after → holds' a after) :
    Tells layout exits lands stack holds' ends before completion after conclusion := by
  cases tells with
  | normal held keeps => exact .normal (weaker _ held) (keeps.lower less)
  | ended ended => exact .ended ended
  | break_ landed held keeps => exact .break_ landed held keeps
  | breakEnded landed isTail => exact .breakEnded landed isTail
  | continue_ landed keeps => exact .continue_ landed keeps
  | return_ landed held keeps => exact .return_ landed held keeps
  | returnEnded landed isTail => exact .returnEnded landed isTail
  | threw keeps => exact .threw (keeps.lower (Exits.floor_mono less))
  | timeout => exact .timeout

end Tellings

namespace Refines

variable {A B : Type} {holds holds' : A → State F O W → Prop} {ends : A → Value F O → Prop}
variable {before middle : State F O W} {ending : Ending F O W}
variable {evaluated : Evaluated (Value F O) (Store F O W) A}

theorem earlier (refines : Refines layout exits lands stack holds ends middle ending evaluated)
    (fits : Fits layout exits lands stack) (keeps : Framed layout.privates stack before middle) :
    Refines layout exits lands stack holds ends before ending evaluated := by
  intro faithful
  have told := refines faithful
  exact ⟨told.1, told.2.earlier fits keeps⟩

theorem lower {stack' : Nat}
    (refines : Refines layout exits lands stack' holds ends before ending evaluated)
    (less : stack ≤ stack') (weaker : ∀ a after, holds a after → holds' a after) :
    Refines layout exits lands stack holds' ends before ending evaluated := by
  intro faithful
  have told := refines faithful
  exact ⟨told.1, told.2.lower less fun a => weaker a _⟩

theorem normal {a : A} {after : State F O W} (held : holds a after)
    (keeps : Framed layout.privates stack before after) :
    Refines layout exits lands stack holds ends before (.normal, after) (.value a, after.store) :=
  fun _ => ⟨rfl, .normal held keeps⟩

theorem andThen {lands' : Lands} {stack' : Nat} {ends' : A → Value F O → Prop}
    {holdsB : B → State F O W → Prop} {endsB : B → Value F O → Prop}
    {rest : State F O W → Ending F O W}
    {onward : A → Store F O W → Evaluated (Value F O) (Store F O W) B}
    (floor : exits.floor lands stack ≤ exits.floor lands' stack') (wider : lands'.Within lands)
    (first : Refines layout exits lands' stack' holds ends' before ending evaluated)
    (grown : ∀ state, Grown state (rest state).2)
    (ended : ∀ a value, ends' a value → ∀ after,
      Refines layout exits lands stack holdsB endsB before (.returned value, after)
        (onward a after.store))
    (second : ∀ a after, holds a after → Framed layout.privates stack' before after →
      Refines layout exits lands stack holdsB endsB before (rest after) (onward a after.store)) :
    Refines layout exits lands stack holdsB endsB before (Xemmai.andThen ending rest)
      (evaluated.bind onward) := by
  rcases ending with ⟨completion, after⟩
  rcases evaluated with ⟨conclusion, store⟩
  intro faithful
  cases completion with
  | normal =>
      obtain ⟨same, tells⟩ := first ((grown after).faithful faithful)
      obtain rfl : after.store = store := same
      cases tells with
      | normal held keeps => exact second _ after held keeps faithful
  | returned value =>
      obtain ⟨same, tells⟩ := first faithful
      obtain rfl : after.store = store := same
      cases tells with
      | ended leaves => exact ended _ value leaves after faithful
      | breakEnded landed isTail => exact ⟨rfl, .breakEnded (wider.break_ landed) isTail⟩
      | returnEnded landed isTail => exact ⟨rfl, .returnEnded (wider.return_ landed) isTail⟩
  | break_ =>
      obtain ⟨same, tells⟩ := first faithful
      cases tells with
      | break_ landed held keeps => exact ⟨same, .break_ (wider.break_ landed) held keeps⟩
  | continue_ =>
      obtain ⟨same, tells⟩ := first faithful
      cases tells with
      | continue_ landed keeps => exact ⟨same, .continue_ (wider.continue_ landed) keeps⟩
  | return_ =>
      obtain ⟨same, tells⟩ := first faithful
      cases tells with
      | return_ landed held keeps => exact ⟨same, .return_ (wider.return_ landed) held keeps⟩
  | threw thrown =>
      obtain ⟨same, tells⟩ := first faithful
      cases tells with
      | threw keeps => exact ⟨same, .threw (keeps.lower floor)⟩
  | timeout =>
      obtain ⟨same, tells⟩ := first faithful
      cases tells with
      | timeout => exact ⟨same, .timeout⟩

theorem bind {stack' : Nat} {holdsB : B → State F O W → Prop} {endsB : B → Value F O → Prop}
    {rest : State F O W → Ending F O W}
    {onward : A → Store F O W → Evaluated (Value F O) (Store F O W) B}
    (fits : Fits layout exits lands stack) (less : stack ≤ stack')
    (first : Refines layout exits lands stack' holds Never before ending evaluated)
    (grown : ∀ state, Grown state (rest state).2)
    (second : ∀ a after, holds a after → Framed layout.privates stack' before after →
      Refines layout exits lands stack holdsB endsB after (rest after) (onward a after.store)) :
    Refines layout exits lands stack holdsB endsB before (Xemmai.andThen ending rest)
      (evaluated.bind onward) := by
  refine first.andThen (Exits.floor_mono less) (Lands.Within.refl lands) grown ?_ ?_
  · exact fun a value ended => ended.elim
  · intro a after held keeps
    exact (second a after held keeps).earlier fits (keeps.lower less)

theorem assume {seen : State F O W} (grown : Grown seen ending.2)
    (refines : seen.Faithful →
      Refines layout exits lands stack holds ends before ending evaluated) :
    Refines layout exits lands stack holds ends before ending evaluated :=
  fun faithful => refines (grown.faithful faithful) faithful

theorem collect {stack' : Nat} {holdsB : B → State F O W → Prop} {make : A → B}
    (fits : Fits layout exits lands stack) (less : stack ≤ stack')
    (refines : Refines layout exits lands stack' holds Never before ending evaluated)
    (weaker : ∀ a after, holds a after → Framed layout.privates stack' before after →
      holdsB (make a) after) :
    Refines layout exits lands stack holdsB Never before ending
      (evaluated.bind fun a store => (.value (make a), store)) := by
  have same : Xemmai.andThen ending (fun state => (.normal, state)) = ending := by
    rcases ending with ⟨completion, after⟩
    cases completion <;> rfl
  rw [← same]
  refine refines.bind fits less Grown.refl ?_
  exact fun a after held keeps => Refines.normal (weaker a after held keeps) (Framed.refl after)

theorem imp {ends' : A → Value F O → Prop}
    (refines : Refines layout exits lands stack holds ends before ending evaluated)
    (later : ∀ a value, ends a value → ends' a value) :
    Refines layout exits lands stack holds ends' before ending evaluated := by
  rcases ending with ⟨completion, after⟩
  rcases evaluated with ⟨conclusion, store⟩
  intro faithful
  obtain ⟨same, tells⟩ := refines faithful
  refine ⟨same, ?_⟩
  cases tells with
  | ended ended => exact .ended (later _ _ ended)
  | _ => constructor <;> assumption

theorem stays {holds : Value F O → State F O W → Prop} {before : State F O W}
    {ending : Ending F O W} {evaluated : Evaluated (Value F O) (Store F O W) (Value F O)}
    (refines : Refines layout exits lands stack holds (Ended false) before ending evaluated) :
    Refines layout exits lands stack holds Never before ending evaluated :=
  refines.imp fun _ _ ended => absurd ended.1 (by decide)

theorem asks {ends : Value F O → Value F O → Prop} {asked : Bool} {before : State F O W}
    {ending : Ending F O W} {evaluated : Evaluated (Value F O) (Store F O W) (Value F O)}
    (refines : Refines layout exits lands stack (Holds true stack) ends before ending evaluated) :
    Refines layout exits lands stack (Holds asked stack) ends before ending evaluated :=
  refines.lower (le_refl stack) fun _ _ held _ => held rfl

theorem nulls {ends : Value F O → Value F O → Prop} {asked : Bool} {slots : List Nat}
    {before : State F O W} {ending : Ending F O W}
    {evaluated : Evaluated (Value F O) (Store F O W) (Value F O)}
    (fits : Fits layout exits lands stack) (inside : ∀ slot ∈ slots, slot < layout.privates)
    (refines : Refines layout exits lands stack (Holds asked stack) ends before ending evaluated) :
    Refines layout exits lands stack (Holds asked stack) ends before
      (Xemmai.andThen ending fun state => (.normal, state.insertNulls slots)) evaluated := by
  rcases ending with ⟨completion, after⟩
  rcases evaluated with ⟨conclusion, store⟩
  cases completion with
  | normal =>
      intro faithful
      have cleared : Framed layout.privates (stack + 1) after (after.insertNulls slots) :=
        Framed.insertNulls inside after
      obtain ⟨same, tells⟩ := refines ((Grown.insertNulls slots after).faithful faithful)
      refine ⟨(State.store_insertNulls slots after).trans same, ?_⟩
      cases tells with
      | normal held keeps =>
          refine .normal (fun wanted => ?_) (keeps.trans (cleared.lower (Nat.le_succ stack)))
          exact (cleared stack fits.above (Nat.lt_succ_self stack)).trans (held wanted)
  | _ => exact refines

/-- `t_literal::f_emit` and `t_null::f_emit` -/
theorem literally {tail operand clear asked : Bool} (fits : Fits layout exits lands stack)
    (value : Value F O) (asks : asked = true → operand = false ∧ clear = false)
    (state : State F O W) :
    Refines layout exits lands stack (Holds asked stack) (Ended tail) state
      (Xemmai.literally layout.privates value tail operand clear stack state)
      (.value value, state.store) := by
  intro _
  unfold Xemmai.literally
  split
  · next idle =>
      refine ⟨rfl, .normal (fun wanted => ?_) (Framed.refl state)⟩
      obtain ⟨rfl, rfl⟩ := asks wanted
      exact absurd idle (by decide)
  · split
    · next isTail => exact ⟨rfl, .ended ⟨isTail, rfl⟩⟩
    · exact ⟨State.store_write_high fits.above _ _, .normal (fun _ => State.slot_write _ _ _ _)
        (Framed.write stack value _ (Or.inl (le_refl stack)))⟩

theorem deliver {tail : Bool} (fits : Fits layout exits lands stack) (state : State F O W)
    (result : Except (Value F O) (Value F O) × W) :
    Refines layout exits lands stack (Holds true stack) (Ended tail) state
      (Xemmai.deliver layout.privates tail stack state result) (state.store.deliver result) := by
  intro _
  rcases result with ⟨result, world⟩
  cases result with
  | error thrown => exact ⟨rfl, .threw (Framed.refl state)⟩
  | ok value =>
      cases tail with
      | true => exact ⟨rfl, .ended ⟨rfl, rfl⟩⟩
      | false =>
          refine ⟨State.store_write_high fits.above _ _, .normal ?_ ?_⟩
          · exact fun _ => State.slot_write _ _ _ _
          · exact Framed.write stack value _ (Or.inl (le_refl stack))

/-- `METHOD_GET` and `METHOD_BIND` -/
theorem bound {binding : Binding} {values : List (Value F O)} (runtime : Runtime F O W)
    (fits : Fits layout exits lands stack) (state : State F O W)
    (operands : state.operands stack binding.operands = values) :
    Refines layout exits lands stack
      (fun pair after => after.slot stack = pair.1 ∧ after.slot (stack + 1) = pair.2) Never state
      (Xemmai.bind runtime layout.privates binding stack state)
      (state.store.bound (runtime.bind binding values state.store.world)) := by
  intro _
  unfold Xemmai.bind Store.bound
  have world : state.store.world = state.world := rfl
  rw [operands, world]
  generalize runtime.bind binding values state.world = result
  rcases result with ⟨result, world⟩
  cases result with
  | error thrown => exact ⟨rfl, .threw (Framed.refl state)⟩
  | ok pair =>
      rcases pair with ⟨function, self⟩
      dsimp only
      have next : layout.privates ≤ stack + 1 := Nat.le_succ_of_le fits.above
      have moved : Framed layout.privates (stack + 1)
          ((state.setWorld world).write layout.privates stack function) _ :=
        Framed.write (stack + 1) self _ (Or.inl (le_refl _))
      refine ⟨?_, .normal ⟨?_, State.slot_write _ _ _ _⟩ ?_⟩
      · rw [State.store_write_high next, State.store_write_high fits.above]
        rfl
      · exact (moved stack fits.above (Nat.lt_succ_self stack)).trans (State.slot_write _ _ _ _)
      · have below : Framed layout.privates stack state
            ((state.setWorld world).write layout.privates stack function) :=
          Framed.write stack function _ (Or.inl (le_refl stack))
        exact below.trans (moved.lower (Nat.le_succ stack))

/-- A `break` with its operand, which stands where the loop leaves its value. -/
theorem break_ {nulls : List Nat} (landed : lands.break_ = true)
    (inside : ∀ slot ∈ nulls, slot < layout.privates) {holdsB : B → State F O W → Prop}
    {endsB : B → Value F O → Prop} {before : State F O W} {ending : Ending F O W}
    {evaluated : Evaluated (Value F O) (Store F O W) (Value F O)}
    (fits : Fits layout exits lands stack)
    (first : Refines layout exits lands exits.breakStack
      (Holds (!exits.breakMustClear) exits.breakStack) (Ended exits.breakIsTail) before ending
      evaluated) :
    Refines layout exits lands stack holdsB endsB before
      (Xemmai.andThen ending fun state => (.break_, state.insertNulls nulls))
      (evaluated.bind fun value store => (.break_ value, store)) := by
  have floor : exits.floor lands stack ≤ exits.floor lands exits.breakStack := by
    simp only [Exits.floor, landed, if_true, le_refl]
  refine first.andThen floor (Lands.Within.refl lands) (Grown.insertNulls _) ?_ ?_
  · rintro a value ⟨isTail, rfl⟩ after _
    exact ⟨rfl, .breakEnded landed isTail⟩
  · intro a after held keeps _
    have cleared : Framed layout.privates (exits.breakStack + 1) after (after.insertNulls nulls) :=
      Framed.insertNulls inside after
    refine ⟨State.store_insertNulls nulls after, .break_ landed ?_ ?_⟩
    · intro asked
      rw [cleared _ (fits.high.break_ landed) (Nat.lt_succ_self _)]
      exact held (by rw [asked]; rfl)
    · exact keeps.trans (cleared.lower (Nat.le_succ _))

/-- A `return` with its operand, which stands where the frame leaves its value. -/
theorem return_ {nulls : List Nat} (landed : lands.return_ = true)
    (inside : ∀ slot ∈ nulls, slot < layout.privates) {holdsB : B → State F O W → Prop}
    {endsB : B → Value F O → Prop} {before : State F O W} {ending : Ending F O W}
    {evaluated : Evaluated (Value F O) (Store F O W) (Value F O)}
    (fits : Fits layout exits lands stack)
    (first : Refines layout exits ⟨false, false, true⟩ exits.returnStack
      (Holds true exits.returnStack) (Ended exits.returnIsTail) before ending evaluated) :
    Refines layout exits lands stack holdsB endsB before
      (Xemmai.andThen ending fun state =>
        if exits.returnIsTail then
          (.returned (state.slot exits.returnStack), state.read layout.privates exits.returnStack)
        else (.return_, state.insertNulls nulls))
      (evaluated.bind fun value store => (.return_ value, store)) := by
  have floor : exits.floor lands stack ≤ exits.floor ⟨false, false, true⟩ exits.returnStack := by
    simp only [Exits.floor, landed, if_true, le_refl]
  have wider : Lands.Within ⟨false, false, true⟩ lands := ⟨nofun, nofun, fun _ => landed⟩
  have high := fits.high.return_ landed
  refine first.andThen floor wider ?_ ?_ ?_
  · intro state
    split
    · exact Grown.read _ _ state
    · exact Grown.insertNulls _ state
  · rintro a value ⟨isTail, rfl⟩ after _
    exact ⟨rfl, .returnEnded landed isTail⟩
  · intro a after held keeps _
    cases isTail : exits.returnIsTail with
    | true =>
        rw [if_pos rfl, held rfl]
        exact ⟨State.store_read _ _ after, .returnEnded landed isTail⟩
    | false =>
        have cleared : Framed layout.privates (exits.returnStack + 1) after
            (after.insertNulls nulls) := Framed.insertNulls inside after
        refine ⟨State.store_insertNulls nulls after, .return_ landed ?_ ?_⟩
        · exact (cleared _ high (Nat.lt_succ_self _)).trans (held rfl)
        · exact keeps.trans (cleared.lower (Nat.le_succ _))

theorem looping {inner : Exits} {innerLands : Lands} {tail asked : Bool} {C : Type}
    {holdsBody : C → State F O W → Prop} {again : State F O W → Ending F O W}
    {againE : Store F O W → Evaluated (Value F O) (Store F O W) (Value F O)}
    {before : State F O W} {ending : Ending F O W}
    {evaluated : Evaluated (Value F O) (Store F O W) C}
    (fits : Fits layout exits lands stack)
    (round : Round exits lands stack tail asked inner innerLands)
    (body : Refines layout inner innerLands stack holdsBody Never before ending evaluated)
    (onward : ∀ state, Refines layout exits lands stack (Holds asked stack) (Ended tail) state
      (again state) (againE state.store))
    (grown : ∀ state, Grown state (again state).2) :
    Refines layout exits lands stack (Holds asked stack) (Ended tail) before
      (Xemmai.looping again ending) (rounding againE evaluated) := by
  rcases ending with ⟨completion, after⟩
  rcases evaluated with ⟨conclusion, store⟩
  have floor : exits.floor lands stack ≤ inner.floor innerLands stack := by
    have lowest := fits.floor_le
    unfold Exits.floor at lowest ⊢
    rw [round.returns, round.returned, round.breaks, round.below]
    cases landed : lands.return_ with
    | true => exact Nat.le_refl _
    | false => simpa [landed] using lowest
  intro faithful
  cases completion with
  | normal =>
      obtain ⟨same, tells⟩ := body ((grown after).faithful faithful)
      obtain rfl : after.store = store := same
      cases tells with
      | normal held keeps => exact (onward after).earlier fits keeps faithful
  | continue_ =>
      obtain ⟨same, tells⟩ := body ((grown after).faithful faithful)
      obtain rfl : after.store = store := same
      cases tells with
      | continue_ landed keeps => exact (onward after).earlier fits (round.below ▸ keeps) faithful
  | break_ =>
      obtain ⟨same, tells⟩ := body faithful
      cases tells with
      | break_ landed held keeps =>
          rw [round.below] at held keeps
          exact ⟨same, .normal (fun wanted => held (round.cleared wanted)) keeps⟩
  | returned value =>
      obtain ⟨same, tells⟩ := body faithful
      cases tells with
      | ended ended => exact ended.elim
      | breakEnded landed isTail => exact ⟨same, .ended ⟨round.breakEnds ▸ isTail, rfl⟩⟩
      | returnEnded landed isTail =>
          exact ⟨same, .returnEnded (round.returns ▸ landed) (round.returnEnds ▸ isTail)⟩
  | return_ =>
      obtain ⟨same, tells⟩ := body faithful
      cases tells with
      | return_ landed held keeps =>
          rw [round.returned] at held keeps
          exact ⟨same, .return_ (round.returns ▸ landed) held keeps⟩
  | threw thrown =>
      obtain ⟨same, tells⟩ := body faithful
      cases tells with
      | threw keeps => exact ⟨same, .threw (keeps.lower floor)⟩
  | timeout =>
      obtain ⟨same, tells⟩ := body faithful
      cases tells with
      | timeout => exact ⟨same, .timeout⟩

/-- A loop from its junction on, which leaves its value at `stack`. -/
theorem repeating {inner : Exits} {innerLands : Lands} {tail asked : Bool}
    {C : Type} {holdsBody : C → State F O W → Prop} {holdsNext : C → State F O W → Prop}
    {condition body next : State F O W → Ending F O W} {holds : State F O W → Bool}
    {leave : State F O W → State F O W}
    {conditionE : Store F O W → Evaluated (Value F O) (Store F O W) Bool}
    {bodyE nextE : Store F O W → Evaluated (Value F O) (Store F O W) C}
    (fits : Fits layout exits lands stack)
    (round : Round exits lands stack tail asked inner innerLands)
    (conditions : ∀ state, Refines layout exits lands stack
      (fun goes after => holds after = goes) Never state (condition state)
      (conditionE state.store))
    (bodies : ∀ state, Refines layout inner innerLands stack holdsBody Never state (body state)
      (bodyE state.store))
    (nexts : ∀ state, Refines layout exits lands stack holdsNext Never state (next state)
      (nextE state.store))
    (leaves : ∀ state, (leave state).store = state.store ∧
      Framed layout.privates stack state (leave state) ∧ Holds asked stack .null (leave state))
    (grownBody : ∀ state, Grown state (body state).2)
    (grownNext : ∀ state, Grown state (next state).2)
    (grownCondition : ∀ state, Grown state (condition state).2)
    (grownLeave : ∀ state, Grown state (leave state)) :
    ∀ (fuel : Nat) (state : State F O W),
      Refines layout exits lands stack (Holds asked stack) (Ended tail) state
        (Xemmai.repeating condition holds body next leave fuel state)
        (repeated .null conditionE bodyE nextE fuel state.store) := by
  intro fuel
  induction fuel with
  | zero => exact fun state _ => ⟨rfl, .timeout⟩
  | succ fuel induction =>
      intro state
      have again : ∀ state, Refines layout exits lands stack (Holds asked stack) (Ended tail) state
          (Xemmai.andThen (next state)
            (Xemmai.repeating condition holds body next leave fuel))
          ((nextE state.store).seq (repeated .null conditionE bodyE nextE fuel)) := by
        intro state
        refine (nexts state).bind fits (le_refl stack) ?_ fun _ after _ _ => induction after
        exact Grown.repeating grownCondition grownBody grownNext grownLeave fuel
      have grownAgain : ∀ state, Grown state (Xemmai.andThen (next state)
          (Xemmai.repeating condition holds body next leave fuel)).2 := fun state =>
        (grownNext state).andThen
          (Grown.repeating grownCondition grownBody grownNext grownLeave fuel)
      refine (conditions state).bind fits (le_refl stack) ?_ ?_
      · intro state
        split
        · exact Grown.looping (grownBody state) grownAgain
        · exact grownLeave state
      · rintro goes after rfl _
        cases goes : holds after with
        | false =>
            rw [if_neg (by decide), if_neg (by decide)]
            obtain ⟨same, keeps, held⟩ := leaves after
            exact fun _ => ⟨same, .normal held keeps⟩
        | true =>
            rw [if_pos rfl, if_pos rfl]
            exact Refines.looping fits round (bodies after) again grownAgain

theorem closed {other : Exits}
    (refines : Refines layout other ⟨false, false, false⟩ stack holds ends before ending
      evaluated) :
    Refines layout exits ⟨false, false, false⟩ stack holds ends before ending evaluated := by
  rcases ending with ⟨completion, after⟩
  rcases evaluated with ⟨conclusion, store⟩
  intro faithful
  obtain ⟨same, tells⟩ := refines faithful
  refine ⟨same, ?_⟩
  cases tells with
  | normal held keeps => exact .normal held keeps
  | ended ended => exact .ended ended
  | break_ landed | breakEnded landed | continue_ landed | return_ landed | returnEnded landed =>
      exact absurd landed (by decide)
  | threw keeps => exact .threw keeps
  | timeout => exact .timeout

theorem loop {inner : Exits} {innerLands : Lands} {tail clear : Bool} {nulls0 nulls1 : List Nat}
    {C : Type} {holdsBody : C → State F O W → Prop} {holdsNext : C → State F O W → Prop}
    {condition body next : State F O W → Ending F O W} {holds : State F O W → Bool}
    {conditionE : Store F O W → Evaluated (Value F O) (Store F O W) Bool}
    {bodyE nextE : Store F O W → Evaluated (Value F O) (Store F O W) C}
    (fits : Fits layout exits lands stack)
    (round : Round exits lands stack tail (!clear) inner innerLands)
    (inside0 : ∀ slot ∈ nulls0, slot < layout.privates)
    (inside1 : ∀ slot ∈ nulls1, slot < layout.privates)
    (conditions : ∀ state, Refines layout exits lands stack
      (fun goes after => holds after = goes) Never state (condition state)
      (conditionE state.store))
    (bodies : ∀ state, Refines layout inner innerLands stack holdsBody Never state (body state)
      (bodyE state.store))
    (nexts : ∀ state, Refines layout exits lands stack holdsNext Never state (next state)
      (nextE state.store))
    (grownBody : ∀ state, Grown state (body state).2)
    (grownNext : ∀ state, Grown state (next state).2)
    (grownCondition : ∀ state, Grown state (condition state).2) (fuel : Nat)
    (state : State F O W) :
    Refines layout exits lands stack (Holds (!clear) stack) (Ended tail) state
      (Xemmai.repeating condition holds body next (fun state =>
        if clear then state.insertNulls nulls1
        else (state.insertNulls nulls1).write layout.privates stack .null) fuel
        (state.insertNulls nulls0))
      (repeated .null conditionE bodyE nextE fuel state.store) := by
  rw [← State.store_insertNulls nulls0 state]
  refine Refines.earlier ?_ fits (Framed.insertNulls inside0 state)
  refine Refines.repeating fits round conditions bodies nexts ?_ grownBody grownNext grownCondition
    ?_ fuel _
  · intro state
    have cleared : Framed layout.privates stack state (state.insertNulls nulls1) :=
      Framed.insertNulls inside1 state
    cases clear with
    | true => exact ⟨State.store_insertNulls nulls1 state, cleared, nofun⟩
    | false =>
        refine ⟨(State.store_write_high fits.above _ _).trans (State.store_insertNulls nulls1 state),
          cleared.trans (Framed.write stack .null _ (Or.inl (le_refl stack))),
          fun _ => State.slot_write _ _ _ _⟩
  · intro state
    split
    · exact Grown.insertNulls _ state
    · exact (Grown.insertNulls _ state).trans (Grown.write _ _ _ _)

theorem catching {inner : Exits} {asked : Bool} {catches : Value F O → State F O W → Ending F O W}
    {catchesE : Value F O → Store F O W → Evaluated (Value F O) (Store F O W) (Value F O)}
    {before : State F O W} {ending : Ending F O W}
    {evaluated : Evaluated (Value F O) (Store F O W) (Value F O)}
    (fits : Fits layout inner lands stack) (guarded : Guarded exits stack inner)
    (body : Refines layout inner lands stack (Holds asked stack) Never before ending evaluated)
    (clauses : ∀ thrown state, Refines layout inner lands stack (Holds asked stack) Never state
      (catches thrown state) (catchesE thrown state.store))
    (grown : ∀ thrown state, Grown state (catches thrown state).2) :
    Refines layout inner lands stack (Holds asked stack) Never before
      (Xemmai.catching catches ending) (caught catchesE evaluated) := by
  rcases ending with ⟨completion, after⟩
  rcases evaluated with ⟨conclusion, store⟩
  intro faithful
  cases completion with
  | threw thrown =>
      obtain ⟨same, tells⟩ := body ((grown thrown after).faithful faithful)
      obtain rfl : after.store = store := same
      cases tells with
      | threw keeps =>
          rw [guarded.floor_eq] at keeps
          exact (clauses thrown after).earlier fits keeps faithful
  | _ =>
      obtain ⟨same, tells⟩ := body faithful
      cases tells <;> exact ⟨same, by constructor <;> assumption⟩

theorem guarded_keeps {inner : Exits} {asked : Bool} {before after : State F O W}
    {completion : Completion F O} {conclusion : Conclusion (Value F O) (Value F O)}
    (guarded : Guarded exits stack inner) (lasting : completion ≠ .timeout)
    (told : Tells layout inner lands stack (Holds asked stack) Never before completion after
      conclusion) : Framed layout.privates stack before after := by
  cases told with
  | normal held keeps => exact keeps
  | ended ended => exact ended.elim
  | break_ landed held keeps => exact guarded.breakStack ▸ keeps
  | breakEnded landed isTail => exact absurd (guarded.breakEnds.symm.trans isTail) (by decide)
  | continue_ landed keeps => exact guarded.breakStack ▸ keeps
  | return_ landed held keeps => exact guarded.returnStack ▸ keeps
  | returnEnded landed isTail => exact absurd (guarded.returnEnds.symm.trans isTail) (by decide)
  | threw keeps =>
      rw [guarded.floor_eq] at keeps
      exact keeps
  | timeout => exact absurd rfl lasting

/-- The way on from the finally block of a try, which has ended in `last`. -/
theorem leaving {inner : Exits} {asked tail : Bool} {before after last : State F O W}
    {completion : Completion F O} {conclusion : Conclusion (Value F O) (Value F O)}
    {break_ continue_ return_ : State F O W → State F O W}
    (fits : Fits layout exits lands stack) (guarded : Guarded exits stack inner)
    (lasting : completion ≠ .timeout)
    (told : Tells layout inner lands stack (Holds asked stack) Never before completion after
      conclusion)
    (kept : Framed layout.privates (stack + 1) after last)
    (ways : Ways layout exits lands stack break_ continue_ return_) :
    Refines layout exits lands stack (Holds asked stack) (Ended tail) after
      (Xemmai.leaving completion last break_ continue_ return_) (conclusion, last.store) := by
  intro _
  have top : last.slot stack = after.slot stack := kept stack fits.above (Nat.lt_succ_self stack)
  have below : Framed layout.privates stack after last := kept.lower (Nat.le_succ stack)
  cases told with
  | normal held keeps => exact ⟨rfl, .normal (fun wanted => top.trans (held wanted)) below⟩
  | ended ended => exact ended.elim
  | break_ landed held keeps =>
      obtain ⟨same, stays, moved⟩ := ways.breaks last landed
      refine ⟨same, .break_ landed ?_ ((below.lower (fits.breaks landed)).trans stays)⟩
      intro asks
      have found := held (guarded.cleared.trans asks)
      rw [guarded.breakStack] at found
      exact (moved asks).trans (top.trans found)
  | breakEnded landed isTail => exact absurd (guarded.breakEnds.symm.trans isTail) (by decide)
  | continue_ landed keeps =>
      obtain ⟨same, stays⟩ := ways.continues last
      exact ⟨same, .continue_ landed ((below.trans stays).lower (fits.continues landed))⟩
  | return_ landed held keeps =>
      obtain ⟨same, stays, moved⟩ := ways.returns last landed
      refine ⟨same, .return_ landed ?_ ((below.lower (fits.returns landed)).trans stays)⟩
      rw [guarded.returnStack] at held
      exact moved.trans (top.trans held)
  | returnEnded landed isTail => exact absurd (guarded.returnEnds.symm.trans isTail) (by decide)
  | threw keeps => exact ⟨rfl, .threw (below.lower fits.floor_le)⟩
  | timeout => exact absurd rfl lasting

/-- A try, whose jumps go on from its finally block to where the outer targets
expect their values. -/
theorem attempting {inner : Exits} {asked tail : Bool} {C : Type}
    {holdsFinal : C → State F O W → Prop} {body finally_ : State F O W → Ending F O W}
    {catches : Value F O → State F O W → Ending F O W}
    {break_ continue_ return_ : State F O W → State F O W}
    {bodyE : Store F O W → Evaluated (Value F O) (Store F O W) (Value F O)}
    {catchesE : Value F O → Store F O W → Evaluated (Value F O) (Store F O W) (Value F O)}
    {finallyE : Store F O W → Evaluated (Value F O) (Store F O W) C}
    (fits : Fits layout exits lands stack) (inside : Fits layout inner lands stack)
    (guarded : Guarded exits stack inner)
    (bodies : ∀ state, Refines layout inner lands stack (Holds asked stack) Never state
      (body state) (bodyE state.store))
    (clauses : ∀ thrown state, Refines layout inner lands stack (Holds asked stack) Never state
      (catches thrown state) (catchesE thrown state.store))
    (finals : ∀ state, Refines layout Exits.none ⟨false, false, false⟩ (stack + 1) holdsFinal Never
      state (finally_ state) (finallyE state.store))
    (ways : Ways layout exits lands stack break_ continue_ return_)
    (grownCatches : ∀ thrown state, Grown state (catches thrown state).2)
    (grownFinally : ∀ state, Grown state (finally_ state).2) (state : State F O W) :
    Refines layout exits lands stack (Holds asked stack) (Ended tail) state
      (Xemmai.attempting body catches finally_ break_ continue_ return_ state)
      (attempted bodyE catchesE finallyE state.store) := by
  have parts := (bodies state).catching inside guarded clauses grownCatches
  unfold Xemmai.attempting attempted
  revert parts
  generalize Xemmai.catching catches (body state) = ending
  generalize caught catchesE (bodyE state.store) = evaluated
  rcases ending with ⟨completion, after⟩
  rcases evaluated with ⟨conclusion, store⟩
  intro parts
  have floor : exits.floor lands stack ≤ exits.floor ⟨false, false, false⟩ (stack + 1) :=
    Nat.le_succ_of_le fits.floor_le
  have wider : Lands.Within ⟨false, false, false⟩ lands := ⟨nofun, nofun, nofun⟩
  have grownLeaving : ∀ state, Grown state
      (Xemmai.leaving completion state break_ continue_ return_).2 :=
    fun state => Grown.leaving completion state (fun state => (ways.grown state).1)
      (fun state => (ways.grown state).2.1) fun state => (ways.grown state).2.2
  have grown : Grown after (Xemmai.andThen (finally_ after) fun state =>
      Xemmai.leaving completion state break_ continue_ return_).2 :=
    (grownFinally after).andThen grownLeaving
  have finished : ∀ told : Tells layout inner lands stack (Holds asked stack) Never state completion
      after conclusion, completion ≠ .timeout →
      Refines layout exits lands stack (Holds asked stack) (Ended tail) state
        (Xemmai.andThen (finally_ after) fun state =>
          Xemmai.leaving completion state break_ continue_ return_)
        ((finallyE after.store).seq fun store => (conclusion, store)) := by
    intro told lasting
    refine Refines.earlier ?_ fits (guarded_keeps guarded lasting told)
    refine (finals after).closed.andThen floor wider grownLeaving ?_ ?_
    · exact fun a value ended => ended.elim
    · exact fun a last _ kept => leaving fits guarded lasting told kept ways
  intro faithful
  cases completion with
  | timeout =>
      obtain ⟨same, tells⟩ := parts faithful
      cases tells with
      | timeout => exact ⟨same, .timeout⟩
  | _ =>
      obtain ⟨same, tells⟩ := parts (grown.faithful faithful)
      obtain rfl : after.store = store := same
      have told := finished tells (by rintro ⟨⟩) faithful
      cases tells <;> exact told

end Refines

end Following

end Xemmai
