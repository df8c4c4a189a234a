import Xemmai.Growth

/-!
# States along a tree

What a state says of its slots at a point of the graph, at a junction and after
a jump, and how that passes from one point to the next. All of it is on the
condition that nothing exposed is entered unwritten: the third part of a `for`
by a `continue`, or the catch clauses of a try.
-/

namespace Xemmai

set_option autoImplicit false

open Flow

section Accesses

variable {F O W : Type}

/-- An access finds what was last assigned; an inserted null replaces nothing. -/
def Access.Sound : Access F O → Prop
  | .read _ found last => found = last
  | .callee _ known found last => known = true → found = last
  | .inserted _ last => last = .null
  | .exposed _ _ => True

def Access.Admitted : Access F O → Prop
  | .exposed _ written => written = true
  | _ => True

/-- What holds at an end, if nothing exposed has been entered unwritten. -/
def Meets (post : Completion F O → State F O W → Prop) (ending : Ending F O W) : Prop :=
  (∀ access ∈ ending.2.log, access.Admitted) → post ending.1 ending.2

structure State.Sound (layout : Layout) (state : State F O W) : Prop where
  slot : ∀ index, index < layout.privates → state.written index = true →
    state.slot index = state.assigned index
  argument : ∀ index, index < layout.arguments → state.written index = true
  log : ∀ access ∈ state.log, access.Sound

theorem State.written_read (privates index : Nat) (state : State F O W) :
    (state.read privates index).written = state.written := by
  unfold State.read
  split <;> rfl

theorem State.assigned_read (privates index : Nat) (state : State F O W) :
    (state.read privates index).assigned = state.assigned := by
  unfold State.read
  split <;> rfl

theorem State.written_write {privates index : Nat} (high : privates ≤ index) (value : Value F O)
    (state : State F O W) : (state.write privates index value).written = state.written := by
  simp [State.write, Nat.not_lt.mpr high]

theorem State.assigned_write {privates index : Nat} (high : privates ≤ index) (value : Value F O)
    (state : State F O W) : (state.write privates index value).assigned = state.assigned := by
  simp [State.write, Nat.not_lt.mpr high]

theorem State.assigned_insertNulls (slots : List Nat) : ∀ state : State F O W,
    (state.insertNulls slots).assigned = state.assigned := by
  induction slots with
  | nil => exact fun state => rfl
  | cons slot slots induction => exact fun state => induction (state.insertNull slot)

theorem State.written_insertNulls {slots : List Nat} : ∀ {state : State F O W} {slot : Nat},
    slot ∈ slots → (state.insertNulls slots).written slot = true := by
  induction slots with
  | nil => exact fun member => absurd member List.not_mem_nil
  | cons first slots induction =>
      intro state slot member
      rcases List.mem_cons.mp member with rfl | later
      · exact (Grown.insertNulls slots _).written slot (Function.update_self _ _ _)
      · exact induction later

namespace State.Sound

variable {layout : Layout} {state : State F O W}

theorem note (sound : state.Sound layout) {access : Access F O} (fair : access.Sound) :
    (state.note access).Sound layout where
  slot := sound.slot
  argument := sound.argument
  log other member := by
    rcases List.mem_append.mp member with earlier | last
    · exact sound.log other earlier
    · rwa [List.mem_singleton.mp last]

theorem setWorld (sound : state.Sound layout) (world : W) : (state.setWorld world).Sound layout :=
  ⟨sound.slot, sound.argument, sound.log⟩

theorem expose (sound : state.Sound layout) (exposed : List Nat) :
    (state.expose exposed).Sound layout where
  slot := sound.slot
  argument := sound.argument
  log access member := by
    rcases List.mem_append.mp member with earlier | last
    · exact sound.log access earlier
    · obtain ⟨index, _, rfl⟩ := List.mem_map.mp last
      exact trivial

theorem read (sound : state.Sound layout) {index : Nat} (written : state.written index = true) :
    (state.read layout.privates index).Sound layout := by
  unfold State.read
  split
  · next below => exact sound.note (sound.slot index below written)
  · exact sound

theorem write (sound : state.Sound layout) (index : Nat) (value : Value F O) :
    (state.write layout.privates index value).Sound layout := by
  unfold State.write
  split
  · refine ⟨?_, fun other argument => Grown.update_written index (sound.argument other argument),
      sound.log⟩
    intro other inside written
    by_cases same : other = index
    · subst same
      simp
    · simp only [Function.update_of_ne same] at written ⊢
      exact sound.slot other inside written
  · next above =>
      refine ⟨?_, sound.argument, sound.log⟩
      intro other inside written
      have apart : other ≠ index := by omega
      simp only [Function.update_of_ne apart]
      exact sound.slot other inside written

theorem insertNull (sound : state.Sound layout) {index : Nat}
    (unassigned : state.assigned index = .null) : (state.insertNull index).Sound layout where
  slot other inside written := by
    simp only [State.insertNull, State.note] at written ⊢
    by_cases same : other = index
    · subst same
      rw [Function.update_self, unassigned]
    · rw [Function.update_of_ne same] at written ⊢
      exact sound.slot other inside written
  argument other argument := Grown.update_written index (sound.argument other argument)
  log := 
    (sound.note (show (Access.inserted index (state.assigned index)).Sound from unassigned)).log

theorem insertNulls {slots : List Nat} : ∀ {state : State F O W}, state.Sound layout →
    (∀ slot ∈ slots, state.assigned slot = .null) → (state.insertNulls slots).Sound layout := by
  induction slots with
  | nil => exact fun sound _ => sound
  | cons first slots induction =>
      intro state sound unassigned
      exact induction (sound.insertNull (unassigned first List.mem_cons_self))
        fun slot member => unassigned slot (List.mem_cons_of_mem first member)

end State.Sound

end Accesses

section Meetings

variable {F O W : Type}

theorem Meets.andThen {post goal : Completion F O → State F O W → Prop} {ending : Ending F O W}
    {rest : State F O W → Ending F O W} (first : Meets post ending)
    (grown : ∀ state, Grown state (rest state).2)
    (others : ∀ completion state, completion ≠ .normal → post completion state →
      goal completion state)
    (next : ∀ state, ending = (.normal, state) → post .normal state → Meets goal (rest state)) :
    Meets goal (andThen ending rest) := by
  intro admitted
  rcases ending with ⟨completion, state⟩
  have met : (∀ access ∈ state.log, access.Admitted) → post completion state := first
  cases completion with
  | normal =>
      refine next state rfl (met fun access member => ?_) admitted
      exact admitted access ((grown state).log access member)
  | _ => exact others _ state (by rintro ⟨⟩) (met admitted)

theorem Meets.looping {post : Completion F O → State F O W → Prop} {past : State F O W → Prop}
    {again : State F O W → Ending F O W} {ending : Ending F O W}
    (first : Meets (fun completion after =>
      match completion with
      | .normal | .continue_ => past after
      | .break_ => post .normal after
      | completion => post completion after) ending)
    (grown : ∀ state, Grown state (again state).2)
    (rounds : ∀ state, past state → Meets post (again state)) :
    Meets post (looping again ending) := by
  rcases ending with ⟨completion, after⟩
  have earlier : (∀ access ∈ (again after).2.log, access.Admitted) →
      ∀ access ∈ after.log, access.Admitted :=
    fun admitted access member => admitted access ((grown after).log access member)
  cases completion with
  | normal => exact fun admitted => rounds after (first (earlier admitted)) admitted
  | continue_ => exact fun admitted => rounds after (first (earlier admitted)) admitted
  | _ => exact first

/-- One round of a loop takes `head` to itself or ends the loop with `post`. -/
theorem Meets.repeating {post : Completion F O → State F O W → Prop}
    (head ready past : State F O W → Prop)
    {condition body next : State F O W → Ending F O W} {holds : State F O W → Bool}
    {leave : State F O W → State F O W}
    (grownBody : ∀ state, Grown state (body state).2)
    (grownNext : ∀ state, Grown state (next state).2)
    (grownLeave : ∀ state, Grown state (leave state))
    (grown : ∀ fuel state, Grown state (repeating condition holds body next leave fuel state).2)
    (conditions : ∀ state, head state → Meets (fun completion after =>
      match completion with
      | .normal => ready after ∧ post .normal (leave after)
      | completion => post completion after) (condition state))
    (bodies : ∀ state, ready state → Meets (fun completion after =>
      match completion with
      | .normal | .continue_ => past after
      | .break_ => post .normal after
      | completion => post completion after) (body state))
    (nexts : ∀ state, past state → Meets (fun completion after =>
      match completion with
      | .normal => head after
      | completion => post completion after) (next state))
    (timeout : ∀ state, head state → post .timeout state) :
    ∀ (fuel : Nat) (state : State F O W), head state →
      Meets post (repeating condition holds body next leave fuel state) := by
  intro fuel
  induction fuel with
  | zero => exact fun state start _ => timeout state start
  | succ fuel induction =>
      intro state start
      have rounds : ∀ state, Grown state (Xemmai.andThen (next state)
          fun state => Xemmai.repeating condition holds body next leave fuel state).2 :=
        fun state => (grownNext state).andThen (grown fuel)
      refine (conditions state start).andThen ?_ ?_ ?_
      · intro state
        split
        · exact (grownBody state).looping rounds
        · exact grownLeave state
      · intro completion state abnormal met
        cases completion with
        | normal => exact absurd rfl abnormal
        | _ => exact met
      · intro state _ met
        split
        · refine (bodies state met.1).looping rounds ?_
          intro state went
          refine (nexts state went).andThen (grown fuel) ?_ ?_
          · intro completion state abnormal met
            cases completion with
            | normal => exact absurd rfl abnormal
            | _ => exact met
          · exact fun state _ met => induction state met
        · exact fun _ => met.2

/-- A try ends with `post` if every way to the finally block comes with
`before` and every way out of it keeps to `post`. -/
theorem Meets.attempting {post : Completion F O → State F O W → Prop}
    (thrown_ : State F O W → Prop) (before : Completion F O → State F O W → Prop)
    {body finally_ : State F O W → Ending F O W} {catches : Value F O → State F O W → Ending F O W}
    {break_ continue_ return_ : State F O W → State F O W} {state : State F O W}
    (grownCatches : ∀ thrown state, Grown state (catches thrown state).2)
    (grownFinally : ∀ state, Grown state (finally_ state).2)
    (grownBreak : ∀ state, Grown state (break_ state))
    (grownContinue : ∀ state, Grown state (continue_ state))
    (grownReturn : ∀ state, Grown state (return_ state))
    (bodies : Meets (fun completion after =>
      match completion with
      | .threw _ => thrown_ after
      | completion => before completion after) (body state))
    (clauses : ∀ thrown state, thrown_ state → Meets before (catches thrown state))
    (timeout : ∀ state, before .timeout state → post .timeout state)
    (finals : ∀ completion state, before completion state → Meets (fun ended after =>
      match ended with
      | .normal =>
          post (leaving completion after break_ continue_ return_).1
            (leaving completion after break_ continue_ return_).2
      | ended => post ended after) (finally_ state)) :
    Meets post (attempting body catches finally_ break_ continue_ return_ state) := by
  have attempted : Meets before (catching catches (body state)) := by
    generalize body state = ending at bodies ⊢
    rcases ending with ⟨completion, after⟩
    cases completion with
    | threw thrown =>
        intro admitted
        refine clauses thrown after (bodies fun access member => ?_) admitted
        exact admitted access ((grownCatches thrown after).log access member)
    | _ => exact bodies
  unfold Xemmai.attempting
  generalize catching catches (body state) = ending at attempted ⊢
  rcases ending with ⟨completion, after⟩
  have ended : (∀ access ∈ (Xemmai.andThen (finally_ after) fun state =>
      leaving completion state break_ continue_ return_).2.log, access.Admitted) →
      ∀ access ∈ after.log, access.Admitted := fun admitted access member =>
    admitted access (((grownFinally after).andThen fun state =>
      Grown.leaving completion state grownBreak grownContinue grownReturn).log access member)
  have rest : before completion after → Meets post (Xemmai.andThen (finally_ after)
      fun state => leaving completion state break_ continue_ return_) := by
    intro met
    refine (finals completion after met).andThen ?_ ?_ ?_
    · exact fun state => Grown.leaving completion state grownBreak grownContinue grownReturn
    · intro completion state abnormal met
      cases completion with
      | normal => exact absurd rfl abnormal
      | _ => exact met
    · exact fun state _ left _ => left
  cases completion with
  | timeout => exact fun admitted => timeout after (attempted admitted)
  | _ => exact fun admitted => rest (attempted (ended admitted)) admitted

end Meetings

structure Lands where
  break_ : Bool
  continue_ : Bool
  return_ : Bool

section Points

variable {F O W : Type} (layout : Layout) (blocks : Nat → Block)

/-- A state at a point where `privates` are taken as initialised. -/
structure Reached (flow : Flow) (privates : Nat → Bool) (state : State F O W) : Prop
    extends state.Sound layout where
  live : ∀ slot ∈ layout.locals, privates slot = true → Live blocks flow slot →
    state.written slot = true
  assigned : ∀ slot ∈ layout.locals, state.assigned slot ≠ .null → privates slot = true

structure Arrived (junction : Nat) (state : State F O W) : Prop extends state.Sound layout where
  written : ∀ slot ∈ layout.locals, (blocks junction).use slot = true →
    (blocks junction).in_ slot = true → state.written slot = true
  assigned : ∀ slot ∈ layout.locals, state.assigned slot ≠ .null →
    (blocks junction).in_ slot = true

/-- A state in which a part has been left by a jump or an exception. -/
structure Left (flow : Flow) (state : State F O W) : Prop extends state.Sound layout where
  assigned : ∀ slot ∈ layout.locals, state.assigned slot ≠ .null → Known blocks flow slot

/-- What holds at the end of a part: `flow` is the point after it, `settled` are
the slots that it reads or assigns on every path. -/
def Leads (exits : Exits) (lands : Lands) (flow : Flow) (privates settled : Nat → Bool)
    (completion : Completion F O) (state : State F O W) : Prop :=
  match completion with
  | .normal => Reached layout blocks flow privates state ∧
      ∀ slot ∈ layout.locals, settled slot = true → state.written slot = true
  | .break_ => Left layout blocks flow state ∧ lands.break_ = true ∧
      ∀ slot ∈ layout.locals, (blocks exits.breakJunction).use slot = true →
        (blocks exits.breakJunction).in_ slot = true →
          Known blocks flow slot ∨ state.written slot = true
  | .continue_ => Left layout blocks flow state ∧ lands.continue_ = true ∧
      ∀ slot ∈ exits.exposed, (blocks exits.continueJunction).in_ slot = true →
        state.written slot = true
  | .return_ => Left layout blocks flow state ∧ lands.return_ = true
  | _ => Left layout blocks flow state

/-- The slots that a jump leaves a value in are above the privates. -/
structure High (exits : Exits) (lands : Lands) : Prop where
  break_ : lands.break_ = true → layout.privates ≤ exits.breakStack
  return_ : lands.return_ = true → layout.privates ≤ exits.returnStack

/-- A part between two points of the graph. -/
structure Placed (exits : Exits) (targets : Targets) (first second : Flow)
    (privates : Nat → Bool) : Prop where
  visited : (blocks first.current).forward = true
  joined : Joined blocks second.current
  bounded : ∀ slot ∈ layout.locals, privates slot = true → Known blocks first slot
  exposed : ∀ slot ∈ exits.exposed, slot ∈ layout.locals ∧
    targets.continue_ = some exits.continueJunction ∧
    (blocks exits.continueJunction).use slot = true ∧ Joined blocks exits.continueJunction

end Points

section Finals

variable {F O W : Type} (layout : Layout) (blocks : Nat → Block)

/-- What holds on every way to the finally block of a try, which starts from
`junction`. -/
structure Finishes (junction : Nat) (lands : Lands) (settled : Nat → Bool)
    (completion : Completion F O) (state : State F O W) : Prop
    extends state.Sound layout where
  assigned : ∀ slot ∈ layout.locals, state.assigned slot ≠ .null →
    (blocks junction).in_ slot = true
  landed : match completion with
    | .normal => ∀ slot ∈ layout.locals, settled slot = true → state.written slot = true
    | .break_ => lands.break_ = true
    | .continue_ => lands.continue_ = true
    | .return_ => lands.return_ = true
    | _ => True

end Finals

section Moves

variable {F O W : Type} {layout : Layout} {graph : Flow} {blocks : Nat → Block}

namespace Placed

variable {exits : Exits} {targets : Targets} {first second third : Flow} {p q r : Nat → Bool}

theorem left (placed : Placed layout blocks exits targets first third p)
    (passage : Passage layout blocks second third q r) :
    Placed layout blocks exits targets first second p :=
  ⟨placed.visited, passage.joined placed.joined, placed.bounded, placed.exposed⟩

theorem right (placed : Placed layout blocks exits targets first third p)
    (passage : Passage layout blocks first second p q) :
    Placed layout blocks exits targets second third q :=
  ⟨passage.visited placed.visited, placed.joined, passage.bounded placed.visited placed.bounded,
    placed.exposed⟩

end Placed

namespace Reached

variable {flow : Flow} {privates : Nat → Bool} {state : State F O W}

theorem setWorld (reached : Reached layout blocks flow privates state) (world : W) :
    Reached layout blocks flow privates (state.setWorld world) :=
  ⟨reached.toSound.setWorld world, reached.live, reached.assigned⟩

theorem temporary (reached : Reached layout blocks flow privates state) {index : Nat}
    (high : layout.privates ≤ index) (value : Value F O) :
    Reached layout blocks flow privates (state.write layout.privates index value) where
  toSound := reached.toSound.write index value
  live := by
    rw [State.written_write high]
    exact reached.live
  assigned := by
    rw [State.assigned_write high]
    exact reached.assigned

theorem unless_ (reached : Reached layout blocks flow privates state) (clear : Bool) {index : Nat}
    (high : layout.privates ≤ index) (value : Value F O) :
    Reached layout blocks flow privates
      (if clear then state else state.write layout.privates index value) := by
  cases clear with
  | true => exact reached
  | false => exact reached.temporary high value

theorem note (reached : Reached layout blocks flow privates state) {access : Access F O}
    (fair : access.Sound) : Reached layout blocks flow privates (state.note access) :=
  ⟨reached.toSound.note fair, reached.live, reached.assigned⟩

theorem read (reached : Reached layout blocks flow privates state) {index : Nat}
    (written : state.written index = true) :
    Reached layout blocks flow privates (state.read layout.privates index) where
  toSound := reached.toSound.read written
  live := by
    rw [State.written_read]
    exact reached.live
  assigned := by
    rw [State.assigned_read]
    exact reached.assigned

theorem fetched (reached : Reached layout blocks flow privates state) {operand : Operand F O}
    (written : ∀ index, operand = .variable index → state.written index = true) :
    Reached layout blocks flow privates (state.fetched layout.privates operand) := by
  cases operand with
  | «variable» index => exact reached.read (written index rfl)
  | _ => exact reached

theorem left (reached : Reached layout blocks flow privates state)
    (bounded : ∀ slot ∈ layout.locals, privates slot = true → Known blocks flow slot) :
    Left layout blocks flow state :=
  ⟨reached.toSound, fun slot member assigned =>
    bounded slot member (reached.assigned slot member assigned)⟩

theorem nulls (reached : Reached layout blocks flow privates state) (junction : Block) :
    (state.insertNulls (layout.nulls privates junction)).Sound layout := by
  refine reached.toSound.insertNulls ?_
  intro slot member
  simp only [Layout.nulls, List.mem_filter, Bool.and_eq_true, Bool.not_eq_true'] at member
  by_contra assigned
  have present := reached.assigned slot member.1 assigned
  rw [member.2.1.1] at present
  exact absurd present (by decide)

/-- After `f_join`, what the junction may read is written. -/
theorem join (reached : Reached layout blocks flow privates state)
    (analyzed : Analyzed layout graph blocks) {junction : Nat}
    (visited : (blocks flow.current).forward = true)
    (bounded : ∀ slot ∈ layout.locals, privates slot = true → Known blocks flow slot)
    (leaves : Leaves flow junction graph) (joined : Joined blocks junction) :
    Arrived layout blocks junction
      (state.insertNulls (layout.nulls privates (blocks junction))) where
  toSound := reached.nulls _
  written slot member used present := by
    cases known : privates slot with
    | true =>
        have live := (leaves.live analyzed joined).2 slot member used
        exact (Grown.insertNulls _ state).written slot (reached.live slot member known live)
    | false =>
        refine State.written_insertNulls ?_
        simp only [Layout.nulls, List.mem_filter]
        exact ⟨member, by rw [known, used, present]; rfl⟩
  assigned slot member assigned := by
    rw [State.assigned_insertNulls] at assigned
    exact (leaves.known analyzed visited).2 slot member
      (bounded slot member (reached.assigned slot member assigned))

/-- A jump with the nulls of `f_join`. -/
theorem leave (reached : Reached layout blocks flow privates state)
    (bounded : ∀ slot ∈ layout.locals, privates slot = true → Known blocks flow slot)
    (junction : Block) :
    Left layout blocks flow (state.insertNulls (layout.nulls privates junction)) ∧
      ∀ slot ∈ layout.locals, junction.use slot = true → junction.in_ slot = true →
        privates slot = true ∨
          (state.insertNulls (layout.nulls privates junction)).written slot = true := by
  refine ⟨⟨reached.nulls junction, ?_⟩, ?_⟩
  · intro slot member assigned
    rw [State.assigned_insertNulls] at assigned
    exact bounded slot member (reached.assigned slot member assigned)
  · intro slot member used present
    cases known : privates slot with
    | true => exact Or.inl rfl
    | false =>
        refine Or.inr (State.written_insertNulls ?_)
        simp only [Layout.nulls, List.mem_filter]
        exact ⟨member, by rw [known, used, present]; rfl⟩

theorem enter (reached : Reached layout blocks flow privates state)
    (analyzed : Analyzed layout graph blocks) {target : Nat}
    (leaves : Leaves flow target graph) (joined : Joined blocks target) {third : Flow}
    (fresh : third.blocks target = .empty) :
    Reached layout blocks (third.enter target) privates state where
  toSound := reached.toSound
  live slot member present live := by
    refine reached.live slot member present ((leaves.live analyzed joined).2 slot member ?_)
    simpa [Live, Flow.enter, fresh, Block.empty] using live
  assigned := reached.assigned

end Reached

/-- On the way through a junction without `f_join`. -/
theorem Reached.pass {flow : Flow} {privates : Nat → Bool} {state : State F O W}
    (reached : Reached layout blocks flow privates state)
    (analyzed : Analyzed layout graph blocks) {junction target : Nat}
    (leaves : Leaves flow junction graph) (follows : Junction junction target graph)
    (joined : Joined blocks target) {third : Flow} (fresh : third.blocks target = .empty) :
    Reached layout blocks (third.enter target) privates state where
  toSound := reached.toSound
  live slot member present live := by
    have used : (blocks target).use slot = true := by
      simpa [Live, Flow.enter, fresh, Block.empty] using live
    have before := follows.live analyzed joined
    exact reached.live slot member present
      ((leaves.live analyzed before.1).2 slot member (before.2 slot member used))
  assigned := reached.assigned

theorem Arrived.reached {junction target : Nat} {state : State F O W}
    (arrived : Arrived layout blocks junction state) (analyzed : Analyzed layout graph blocks)
    (follows : Junction junction target graph) (joined : Joined blocks target) {third : Flow}
    (fresh : third.blocks target = .empty) :
    Reached layout blocks (third.enter target) (blocks junction).out state where
  toSound := arrived.toSound
  live slot member present live := by
    have used : (blocks target).use slot = true := by
      simpa [Live, Flow.enter, fresh, Block.empty] using live
    exact arrived.written slot member ((follows.live analyzed joined).2 slot member used)
      ((follows.out analyzed slot).mp present)
  assigned slot member assigned :=
    (follows.out analyzed slot).mpr (arrived.assigned slot member assigned)

theorem Left.widen {first second : Flow} {state : State F O W}
    (left : Left layout blocks first state)
    (wider : ∀ slot ∈ layout.locals, Known blocks first slot → Known blocks second slot) :
    Left layout blocks second state :=
  ⟨left.toSound, fun slot member assigned => wider slot member (left.assigned slot member assigned)⟩

theorem Leads.others {exits : Exits} {lands : Lands} {first second : Flow}
    {p q settled other : Nat → Bool}
    (wider : ∀ slot ∈ layout.locals, Known blocks first slot → Known blocks second slot)
    (completion : Completion F O) (state : State F O W) (abnormal : completion ≠ .normal)
    (leads : Leads layout blocks exits lands first p settled completion state) :
    Leads layout blocks exits lands second q other completion state := by
  cases completion with
  | normal => exact absurd rfl abnormal
  | break_ =>
      exact ⟨leads.1.widen wider, leads.2.1, fun slot member used present =>
        (leads.2.2 slot member used present).imp_left (wider slot member)⟩
  | continue_ => exact ⟨leads.1.widen wider, leads.2⟩
  | return_ => exact ⟨leads.1.widen wider, leads.2⟩
  | returned value => exact Left.widen leads wider
  | threw thrown => exact Left.widen leads wider
  | timeout => exact Left.widen leads wider

theorem Leads.finishes {exits : Exits} {lands : Lands} {flow : Flow} {junction : Nat}
    {privates settled : Nat → Bool} {completion : Completion F O} {state : State F O W}
    (leads : Leads layout blocks exits lands flow privates settled completion state)
    (bounded : ∀ slot ∈ layout.locals, privates slot = true → Known blocks flow slot)
    (out : ∀ slot ∈ layout.locals, Known blocks flow slot →
      (blocks junction).in_ slot = true) :
    Finishes layout blocks junction lands settled completion state := by
  have left : Left layout blocks flow state := by
    cases completion with
    | normal => exact leads.1.left bounded
    | returned value => exact leads
    | threw thrown => exact leads
    | timeout => exact leads
    | _ => exact leads.1
  refine ⟨left.toSound, fun slot member assigned =>
    out slot member (left.assigned slot member assigned), ?_⟩
  cases completion with
  | normal => exact leads.2
  | break_ => exact leads.2.1
  | continue_ => exact leads.2.1
  | return_ => exact leads.2
  | _ => exact trivial

theorem Finishes.settle {lands : Lands} {junction : Nat} {settled extra goal : Nat → Bool}
    {start : State F O W} {completion : Completion F O} {state : State F O W}
    (finishes : Finishes layout blocks junction lands settled completion state)
    (grown : Grown start state)
    (written : ∀ slot ∈ layout.locals, extra slot = true → start.written slot = true)
    (either : ∀ slot, goal slot = true → extra slot = true ∨ settled slot = true) :
    Finishes layout blocks junction lands goal completion state := by
  refine ⟨finishes.toSound, finishes.assigned, ?_⟩
  cases completion with
  | normal =>
      intro slot member present
      rcases either slot present with earlier | later
      · exact grown.written slot (written slot member earlier)
      · exact finishes.landed slot member later
  | _ => exact finishes.landed

theorem Finishes.fewer {lands : Lands} {junction : Nat} {settled goal : Nat → Bool}
    {completion : Completion F O} {state : State F O W}
    (finishes : Finishes layout blocks junction lands settled completion state)
    (fewer : ∀ slot, goal slot = true → settled slot = true) :
    Finishes layout blocks junction lands goal completion state := by
  refine ⟨finishes.toSound, finishes.assigned, ?_⟩
  cases completion with
  | normal => exact fun slot member present => finishes.landed slot member (fewer slot present)
  | _ => exact finishes.landed

theorem Leads.andThen {exits : Exits} {lands : Lands} {first second : Flow}
    {p q settled other : Nat → Bool} {ending : Ending F O W} {rest : State F O W → Ending F O W}
    (meets : Meets (Leads layout blocks exits lands first p settled) ending)
    (wider : ∀ slot ∈ layout.locals, Known blocks first slot → Known blocks second slot)
    (grown : ∀ state, Grown state (rest state).2)
    (next : ∀ state, ending = (.normal, state) → Reached layout blocks first p state →
      (∀ slot ∈ layout.locals, settled slot = true → state.written slot = true) →
      Meets (Leads layout blocks exits lands second q other) (rest state)) :
    Meets (Leads layout blocks exits lands second q other) (Xemmai.andThen ending rest) :=
  meets.andThen grown (Leads.others wider)
    fun state shape leads => next state shape leads.1 leads.2

theorem Leads.settle {exits : Exits} {lands : Lands} {flow : Flow}
    {privates settled extra goal : Nat → Bool} {state : State F O W} {ending : Ending F O W}
    (meets : Meets (Leads layout blocks exits lands flow privates settled) ending)
    (grown : Grown state ending.2)
    (written : ∀ slot ∈ layout.locals, extra slot = true → state.written slot = true)
    (either : ∀ slot, goal slot = true → extra slot = true ∨ settled slot = true) :
    Meets (Leads layout blocks exits lands flow privates goal) ending := by
  intro admitted
  have leads := meets admitted
  rcases ending with ⟨completion, after⟩
  cases completion with
  | normal =>
      refine ⟨leads.1, fun slot member present => ?_⟩
      rcases either slot present with earlier | later
      · exact grown.written slot (written slot member earlier)
      · exact leads.2 slot member later
  | _ => exact leads

theorem Reached.leads {exits : Exits} {lands : Lands} {flow : Flow}
    {privates settled : Nat → Bool} {state : State F O W}
    (reached : Reached layout blocks flow privates state)
    (written : ∀ slot ∈ layout.locals, settled slot = true → state.written slot = true) :
    Meets (Leads layout blocks exits lands flow privates settled) (.normal, state) :=
  fun _ => ⟨reached, written⟩

theorem Reached.deliver {exits : Exits} {lands : Lands} {flow : Flow}
    {privates settled : Nat → Bool} {state : State F O W}
    (reached : Reached layout blocks flow privates state)
    (bounded : ∀ slot ∈ layout.locals, privates slot = true → Known blocks flow slot)
    (written : ∀ slot ∈ layout.locals, settled slot = true → state.written slot = true)
    (tail : Bool) {stack : Nat} (high : layout.privates ≤ stack)
    (result : Except (Value F O) (Value F O) × W) :
    Meets (Leads layout blocks exits lands flow privates settled)
      (deliver layout.privates tail stack state result) := by
  rcases result with ⟨result, world⟩
  have left := (reached.setWorld world).left bounded
  cases result with
  | error thrown => exact fun _ => left
  | ok value =>
      cases tail with
      | true => exact fun _ => left
      | false =>
          refine ((reached.setWorld world).temporary high value).leads ?_
          rw [State.written_write high]
          exact written

theorem Reached.bind {exits : Exits} {lands : Lands} {flow : Flow}
    {privates settled : Nat → Bool} {state : State F O W}
    (reached : Reached layout blocks flow privates state)
    (bounded : ∀ slot ∈ layout.locals, privates slot = true → Known blocks flow slot)
    (written : ∀ slot ∈ layout.locals, settled slot = true → state.written slot = true)
    (runtime : Runtime F O W) (binding : Binding) {stack : Nat} (high : layout.privates ≤ stack) :
    Meets (Leads layout blocks exits lands flow privates settled)
      (bind runtime layout.privates binding stack state) := by
  have above := Nat.le_succ_of_le high
  unfold Xemmai.bind
  split
  · exact fun _ => (reached.setWorld _).left bounded
  · refine (((reached.setWorld _).temporary high _).temporary above _).leads ?_
    rw [State.written_write above, State.written_write high]
    exact written

theorem Reached.literally {exits : Exits} {lands : Lands} {flow : Flow}
    {privates settled : Nat → Bool} {state : State F O W}
    (reached : Reached layout blocks flow privates state)
    (bounded : ∀ slot ∈ layout.locals, privates slot = true → Known blocks flow slot)
    (written : ∀ slot ∈ layout.locals, settled slot = true → state.written slot = true)
    (value : Value F O) (tail operand clear : Bool) {stack : Nat}
    (high : layout.privates ≤ stack) :
    Meets (Leads layout blocks exits lands flow privates settled)
      (literally layout.privates value tail operand clear stack state) := by
  unfold Xemmai.literally
  split
  · exact reached.leads written
  · split
    · exact fun _ => reached.left bounded
    · refine (reached.temporary high value).leads ?_
      rw [State.written_write high]
      exact written

/-- A branch and the nulls of its `f_join`. -/
theorem Leads.branch {exits : Exits} {lands : Lands} {flow third : Flow}
    {privates settled : Nat → Bool} {junction target : Nat} {ending : Ending F O W}
    (analyzed : Analyzed layout graph blocks)
    (meets : Meets (Leads layout blocks exits lands flow privates settled) ending)
    (leaves : Leaves flow junction graph) (exit : Junction junction target graph)
    (visited : (blocks flow.current).forward = true)
    (bounded : ∀ slot ∈ layout.locals, privates slot = true → Known blocks flow slot)
    (joined : Joined blocks target) (fresh : third.blocks target = .empty) :
    Meets (Leads layout blocks exits lands (third.enter target) (blocks junction).out settled)
      (Xemmai.andThen ending fun state =>
        (.normal, state.insertNulls (layout.nulls privates (blocks junction)))) := by
  have wider := ((Passage.refl flow privates).merge analyzed leaves exit third).known visited
  have before := (exit.live analyzed joined).1
  refine Leads.andThen meets wider (fun state => Grown.insertNulls _ state) ?_
  intro state _ reached written
  have arrived := reached.join analyzed visited bounded leaves before
  refine (arrived.reached analyzed exit joined fresh).leads ?_
  exact fun slot member settled => (Grown.insertNulls _ state).written slot
    (written slot member settled)

/-- A loop between two junctions: whatever is assigned in a round is known at the
first junction, and so what the second one may read has been written there. -/
theorem Leads.repeating {exits inner : Exits} {lands innerLands : Lands}
    {junction junctionExit : Nat} {flow1 flow2 flow3 flow4 flow5 : Flow}
    {privates privates1 settled ignored : Nat → Bool} (past : State F O W → Prop)
    {condition body next : State F O W → Ending F O W} {holds : State F O W → Bool}
    {leave : State F O W → State F O W}
    (grownCondition : ∀ state, Grown state (condition state).2)
    (grownBody : ∀ state, Grown state (body state).2)
    (grownNext : ∀ state, Grown state (next state).2)
    (grownLeave : ∀ state, Grown state (leave state))
    (starts : ∀ state : State F O W, Arrived layout blocks junction state →
      Reached layout blocks flow1 (blocks junction).out state)
    (enters : ∀ state : State F O W, Reached layout blocks flow2 privates state →
      Reached layout blocks flow3 privates state)
    (ends : ∀ state : State F O W, Arrived layout blocks junctionExit state →
      Reached layout blocks flow5 (blocks junctionExit).out state)
    (leaves : ∀ state : State F O W, Arrived layout blocks junctionExit
      (state.insertNulls (layout.nulls privates (blocks junctionExit))) →
        Reached layout blocks flow5 (blocks junctionExit).out (leave state))
    (live : ∀ slot ∈ layout.locals, (blocks junctionExit).use slot = true →
      Live blocks flow2 slot)
    (inside : ∀ slot ∈ layout.locals, (blocks junction).in_ slot = true → privates slot = true)
    (back : ∀ slot ∈ layout.locals, Known blocks flow4 slot → (blocks junction).in_ slot = true)
    (bounded : ∀ slot ∈ layout.locals, privates slot = true → Known blocks flow2 slot)
    (out : ∀ slot ∈ layout.locals, Known blocks flow2 slot →
      (blocks junctionExit).in_ slot = true)
    (wider : ∀ slot ∈ layout.locals, Known blocks flow2 slot → Known blocks flow5 slot)
    (conditions : ∀ state, Reached layout blocks flow1 (blocks junction).out state →
      Meets (Leads layout blocks exits lands flow2 privates settled) (condition state))
    (bodies : ∀ state, Reached layout blocks flow3 privates state →
      Meets (Leads layout blocks inner innerLands flow4 privates1 ignored) (body state))
    (breaks : inner.breakJunction = junctionExit) (returns : innerLands.return_ = lands.return_)
    (normals : ∀ state, Reached layout blocks flow4 privates1 state →
      (∀ slot ∈ layout.locals, (blocks junction).in_ slot = true →
        (blocks junction).use slot = true → state.written slot = true) → past state)
    (continues : ∀ state, Left layout blocks flow4 state →
      (∀ slot ∈ inner.exposed, (blocks inner.continueJunction).in_ slot = true →
        state.written slot = true) →
      (∀ slot ∈ layout.locals, (blocks junction).in_ slot = true →
        (blocks junction).use slot = true → state.written slot = true) → past state)
    (nexts : ∀ state, past state → Meets (fun completion after =>
      match completion with
      | .normal => Arrived layout blocks junction after
      | completion => Leads layout blocks exits lands flow5 (blocks junctionExit).out settled
          completion after) (next state)) :
    ∀ fuel state, Arrived layout blocks junction state →
      Meets (Leads layout blocks exits lands flow5 (blocks junctionExit).out settled)
        (Xemmai.repeating condition holds body next leave fuel state) := by
  have wide : ∀ slot ∈ layout.locals, Known blocks flow4 slot → Known blocks flow5 slot :=
    fun slot member known =>
      wider slot member (bounded slot member (inside slot member (back slot member known)))
  let kept : State F O W → Prop := fun state => ∀ slot ∈ layout.locals,
    ((blocks junction).in_ slot = true ∧ (blocks junction).use slot = true) ∨
      ((blocks junction).in_ slot = true ∧ (blocks junctionExit).use slot = true) ∨
      settled slot = true → state.written slot = true
  have keeps : ∀ {before after : State F O W}, Grown before after → kept before → kept after :=
    fun grown holds slot member reason => grown.written slot (holds slot member reason)
  let ready : State F O W → Prop := fun state => Reached layout blocks flow3 privates state ∧
    kept state
  have entering : ∀ state, Reached layout blocks flow2 privates state → kept state →
      ready state := fun state reached held => ⟨enters state reached, held⟩
  refine Meets.repeating (Arrived layout blocks junction) ready past grownBody grownNext
    grownLeave (fun fuel state => Grown.repeating grownCondition grownBody grownNext grownLeave
      fuel state) ?_ ?_ nexts ?_
  · intro state head admitted
    have leads := conditions state (starts state head) admitted
    have grown := grownCondition state
    generalize condition state = ending at leads grown ⊢
    rcases ending with ⟨completion, after⟩
    cases completion with
    | normal =>
        have reached : Reached layout blocks flow2 privates after := leads.1
        have held : kept after := by
          intro slot member reason
          rcases reason with used | used | used
          · exact grown.written slot (head.written slot member used.2 used.1)
          · exact reached.live slot member (inside slot member used.1) (live slot member used.2)
          · exact leads.2 slot member used
        refine ⟨entering after reached held, ?_⟩
        have left := reached.leave bounded (blocks junctionExit)
        have arrived : Arrived layout blocks junctionExit
            (after.insertNulls (layout.nulls privates (blocks junctionExit))) :=
          ⟨left.1.toSound, fun slot member used present =>
            (left.2 slot member used present).elim
              (fun known => (Grown.insertNulls _ after).written slot
                (reached.live slot member known (live slot member used))) id,
            fun slot member assigned => out slot member (left.1.assigned slot member assigned)⟩
        exact ⟨leaves after arrived, fun slot member present => (grownLeave after).written slot
          (leads.2 slot member present)⟩
    | _ => exact Leads.others wider _ after (by simp) leads
  · intro state (holds : ready state) admitted
    have leads := bodies state holds.1 admitted
    have held := keeps (grownBody state) holds.2
    generalize body state = ending at leads held ⊢
    rcases ending with ⟨completion, after⟩
    cases completion with
    | normal =>
        exact normals after leads.1 fun slot member present used =>
          held slot member (Or.inl ⟨present, used⟩)
    | continue_ =>
        exact continues after leads.1 leads.2.2 fun slot member present used =>
          held slot member (Or.inl ⟨present, used⟩)
    | break_ =>
        have left : Left layout blocks flow4 after := leads.1
        have arrived : Arrived layout blocks junctionExit after := by
          refine ⟨left.toSound, ?_, ?_⟩
          · intro slot member used present
            rcases leads.2.2 slot member (by rwa [breaks]) (by rwa [breaks]) with known | written
            · exact held slot member (Or.inr (Or.inl ⟨back slot member known, used⟩))
            · exact written
          · intro slot member assigned
            have known := back slot member (left.assigned slot member assigned)
            exact out slot member (bounded slot member (inside slot member known))
        exact ⟨ends after arrived, fun slot member present =>
          held slot member (Or.inr (Or.inr present))⟩
    | return_ => exact ⟨leads.1.widen wide, returns ▸ leads.2⟩
    | returned value => exact Left.widen leads wide
    | threw thrown => exact Left.widen leads wide
    | timeout => exact Left.widen leads wide
  · intro state head
    refine ⟨head.toSound, fun slot member assigned => ?_⟩
    exact wider slot member (bounded slot member (inside slot member
      (head.assigned slot member assigned)))

section Mentions

variable {flow : Flow} {privates : Nat → Bool} {state : State F O W}

theorem Layout.slot_eq_none {variable_ : Nat} (unnamed : layout.slot variable_ = none)
    (isPrivate : (layout.variableOf variable_).isShared = false) :
    (layout.variableOf variable_).index < layout.arguments := by
  unfold Layout.slot at unnamed
  simpa [isPrivate] using unnamed

theorem Flow.Later.live (analyzed : Analyzed layout graph blocks) {bound slot : Nat}
    (later : Later bound (flow.access slot false) graph) : Live blocks flow slot := by
  cases found : (flow.blocks flow.current).out slot with
  | true => exact Or.inl found
  | false =>
      have grows := later.grows
      simp only [Flow.access, Function.update_self, Block.access, found] at grows
      have use := grows.use slot (Function.update_self _ _ _)
      refine Or.inr (analyzed.use _ _ ?_)
      rw [use]
      simp

theorem Live.of_access {slot other : Nat} {put : Bool} (apart : other ≠ slot)
    (live : Live blocks (flow.access slot put) other) : Live blocks flow other := by
  refine live.imp_left fun present => ?_
  simp only [Flow.access, Function.update_self, Block.access] at present
  split at present
  · exact present
  · simpa [Function.update_of_ne apart] using present

/-- The mention of a variable, `written` if it counts as initialised from then
on. -/
theorem Reached.mention (reached : Reached layout blocks flow privates state)
    (variable_ : Nat) (put : Bool) {after : Nat → Bool}
    (same : ∀ slot, layout.slot variable_ ≠ some slot → after slot = privates slot)
    (keeps : ∀ slot, privates slot = true → after slot = true)
    (written : ∀ slot, layout.slot variable_ = some slot → after slot = true →
      state.written slot = true) :
    Reached layout blocks (flow.mention layout variable_ put) after state where
  toSound := reached.toSound
  live slot member present live := by
    unfold Flow.mention at live
    cases named : layout.slot variable_ with
    | none =>
        rw [named] at live
        rw [same slot (by simp [named])] at present
        exact reached.live slot member present live
    | some found =>
        by_cases equal : slot = found
        · subst equal
          exact written slot named present
        · rw [named] at live
          rw [same slot (by simpa [named] using Ne.symm equal)] at present
          exact reached.live slot member present (Live.of_access equal live)
  assigned slot member assigned := keeps slot (reached.assigned slot member assigned)

theorem Layout.knows_of_ne {variable_ slot : Nat} (apart : layout.slot variable_ ≠ some slot) :
    layout.knows privates variable_ slot = privates slot := by
  unfold Layout.knows
  cases named : layout.slot variable_ with
  | none => rfl
  | some found =>
      exact Function.update_of_ne (by rintro rfl; exact apart named) _ _

theorem Layout.knows_slot {variable_ slot : Nat} (named : layout.slot variable_ = some slot) :
    layout.knows privates variable_ slot = true := by
  simp [Layout.knows, named]

theorem Layout.knows_of_known {variable_ slot : Nat} (present : privates slot = true) :
    layout.knows privates variable_ slot = true := by
  by_cases named : layout.slot variable_ = some slot
  · exact Layout.knows_slot named
  · rwa [Layout.knows_of_ne named]

/-- A get of a private variable: a slot that is not taken as initialised is
filled with null. -/
theorem Reached.know (reached : Reached layout blocks flow privates state)
    (analyzed : Analyzed layout graph blocks) {variable_ bound : Nat}
    (isPrivate : (layout.variableOf variable_).isShared = false)
    (later : Later bound (flow.mention layout variable_ false) graph) :
    Reached layout blocks (flow.mention layout variable_ false) (layout.knows privates variable_)
        (state.know layout privates (layout.variableOf variable_).index) ∧
      (state.know layout privates (layout.variableOf variable_).index).written
        (layout.variableOf variable_).index = true := by
  cases named : layout.slot variable_ with
  | none =>
      have below := Layout.slot_eq_none named isPrivate
      have skipped : state.know layout privates (layout.variableOf variable_).index = state := by
        simp only [State.know]
        rw [if_neg]
        simp only [Bool.and_eq_true, decide_eq_true_eq]
        omega
      rw [skipped]
      refine ⟨reached.mention variable_ false (fun slot apart => Layout.knows_of_ne apart)
        (fun slot => Layout.knows_of_known) ?_, reached.argument _ below⟩
      intro slot found
      rw [named] at found
      exact absurd found (by simp)
  | some slot =>
      obtain ⟨_, rfl, above⟩ := Layout.slot_eq_some named
      have member : (layout.variableOf variable_).index ∈ layout.locals := by
        have below := layout.bounded variable_ isPrivate
        simp only [Layout.locals, List.mem_range'_1]
        omega
      have live : Live blocks flow (layout.variableOf variable_).index := by
        unfold Flow.mention at later
        rw [named] at later
        exact later.live analyzed
      have arrived : Reached layout blocks flow privates
          (state.know layout privates (layout.variableOf variable_).index) ∧
          (state.know layout privates (layout.variableOf variable_).index).written
            (layout.variableOf variable_).index = true := by
        unfold State.know
        split
        · next unknown =>
            simp only [Bool.and_eq_true, Bool.not_eq_true'] at unknown
            have unassigned : state.assigned (layout.variableOf variable_).index = .null := by
              by_contra assigned
              have present := reached.assigned _ member assigned
              rw [unknown.2] at present
              exact absurd present (by decide)
            exact ⟨⟨reached.toSound.insertNull unassigned, fun slot member present live =>
              Grown.update_written _ (reached.live slot member present live),
              reached.assigned⟩, Function.update_self _ _ _⟩
        · next known =>
            have present : privates (layout.variableOf variable_).index = true := by
              simpa [above] using known
            exact ⟨reached, reached.live _ member present live⟩
      refine ⟨arrived.1.mention variable_ false (fun slot apart => Layout.knows_of_ne apart)
        (fun slot => Layout.knows_of_known) ?_, arrived.2⟩
      intro other found _
      obtain rfl := Option.some.inj (named.symm.trans found)
      exact arrived.2

theorem Reached.put (reached : Reached layout blocks flow privates state) (variable_ : Nat)
    (isPrivate : (layout.variableOf variable_).isShared = false) (value : Value F O)
    {after : Nat → Bool}
    (same : ∀ slot, layout.slot variable_ ≠ some slot → after slot = privates slot)
    (keeps : ∀ slot, privates slot = true → after slot = true)
    (present : ∀ slot, layout.slot variable_ = some slot → after slot = true) :
    Reached layout blocks (flow.mention layout variable_ true) after
      (state.write layout.privates (layout.variableOf variable_).index value) := by
  have below := layout.bounded variable_ isPrivate
  have grown := Grown.write layout.privates (layout.variableOf variable_).index value state
  have own : ∀ slot, layout.slot variable_ = some slot →
      (state.write layout.privates (layout.variableOf variable_).index value).written slot =
        true := by
    intro slot named
    obtain ⟨_, rfl, _⟩ := Layout.slot_eq_some named
    simp [State.write, below]
  have written : Reached layout blocks flow after
      (state.write layout.privates (layout.variableOf variable_).index value) := by
    refine ⟨reached.toSound.write _ value, ?_, ?_⟩
    · intro slot member known live
      by_cases named : layout.slot variable_ = some slot
      · exact own slot named
      · rw [same slot named] at known
        exact grown.written slot (reached.live slot member known live)
    · intro slot member assigned
      by_cases named : layout.slot variable_ = some slot
      · exact present slot named
      · refine keeps slot (reached.assigned slot member ?_)
        have apart : slot ≠ (layout.variableOf variable_).index := by
          rintro rfl
          have above := (List.mem_range'_1.mp member).1
          exact named (by simp [Layout.slot, isPrivate, above])
        simpa [State.write, below, Function.update_of_ne apart] using assigned
  exact written.mention variable_ true (fun _ _ => rfl) (fun _ => id)
    fun slot named _ => own slot named

end Mentions

end Moves

section Jumps

variable {F O : Type}

mutual

/-- Whether every jump that leaves a tree is one that may. -/
def Node.lands (lands : Lands) : Node F O → Bool
  | .nodes items => items.lands lands
  | .operate _ operands => operands.lands lands
  | .if_ condition true_ false_ =>
      condition.lands lands && true_.lands lands && false_.lands lands
  | .while_ condition body =>
      condition.lands lands && body.lands ⟨true, true, lands.return_⟩
  | .for_ initialization condition next body =>
      initialization.lands lands && condition.lands lands && next.lands lands &&
        body.lands ⟨true, true, lands.return_⟩
  | .break_ expression => lands.break_ && expression.lands lands
  | .continue_ => lands.continue_
  | .return_ expression => lands.return_ && expression.lands lands
  | .try_ body catches finally_ =>
      body.lands lands && catches.lands lands && finally_.lands ⟨false, false, false⟩
  | .throw_ expression => expression.lands lands
  | .symbolGet _ _ _ => true
  | .scopePut _ _ value => value.lands lands
  | .self _ => true
  | .literal _ => true
  | .unary _ expression => expression.lands lands
  | .binary _ left right => left.lands lands && right.lands lands
  | .preserve => true
  | .call target arguments _ => target.lands lands && arguments.lands lands

def Nodes.lands (lands : Lands) : Nodes F O → Bool
  | .nil => true
  | .cons head tail => head.lands lands && tail.lands lands

def Catches.lands (lands : Lands) : Catches F O → Bool
  | .nil => true
  | .cons expression _ body tail =>
      expression.lands lands && body.lands lands && tail.lands lands

def Optional.lands (lands : Lands) : Optional F O → Bool
  | .none => true
  | .some node => node.lands lands

end

attribute [grind =] Node.lands Nodes.lands Catches.lands Optional.lands

end Jumps

section Forms

variable {F O : Type} {layout : Layout}

/-- What folding leaves as an operand is a constant. -/
def Fold.Plain (fold : Fold F O) : Prop :=
  ∀ folded, fold = .operand folded → folded.constant.isSome = true

theorem Fold.plain_checked (result : Option Word) : (Fold.checked result : Fold F O).Plain := by
  cases result with
  | none => exact fun folded found => absurd found (by simp [Fold.checked])
  | some value => exact fun folded found => by cases found; rfl

theorem foldIntegers_plain (op : Binary) (left right : Word) :
    (foldIntegers op left right : Fold F O).Plain := by
  cases op <;>
    first
      | exact Fold.plain_checked _
      | exact fun folded found => by cases found; rfl

variable [Double F]

theorem foldUnary_operand {op : Unary} {form folded : Operand F O}
    (found : foldUnary op form = .operand folded) : form.constant.isSome = true := by
  cases form with
  | integer value => rfl
  | float value => rfl
  | literal value => rfl
  | «variable» index => exact absurd found (by simp [foldUnary])
  | temporary => exact absurd found (by simp [foldUnary])

theorem foldBinary_operand {op : Binary} {left right folded : Operand F O}
    (found : foldBinary op left right = .operand folded) :
    left.constant.isSome = true ∧ right.constant.isSome = true := by
  cases left <;> cases right <;>
    first
      | exact ⟨rfl, rfl⟩
      | exact absurd found (by simp [foldBinary])

theorem foldUnary_plain (op : Unary) (form : Operand F O) : (foldUnary op form).Plain := by
  cases form <;> cases op <;> intro folded found <;> cases found <;> rfl

theorem foldFloats_plain (op : Binary) (mixed : Bool) (left right : F) :
    (foldFloats op mixed left right : Fold F O).Plain := by
  cases op <;> intro folded found <;> cases found <;> rfl

theorem foldBinary_plain (op : Binary) (left right : Operand F O) :
    (foldBinary op left right).Plain := by
  unfold foldBinary
  split
  · exact foldIntegers_plain op _ _
  · exact foldFloats_plain op _ _ _
  · exact foldFloats_plain op _ _ _
  · exact foldFloats_plain op _ _ _
  · exact fun folded found => absurd found (by simp)

theorem Node.form_constant : ∀ {node : Node F O},
    (node.form layout).constant.isSome = true →
      (∀ targets base flow, node.flow layout targets base flow = flow) ∧
      (∀ blocks base privates, node.after layout blocks base privates = privates) ∧
      ∀ slot, node.settles layout slot = false
  | .literal _, _ => ⟨fun _ _ _ => rfl, fun _ _ _ => rfl, fun _ => rfl⟩
  | .unary op expression, constant => by
      unfold Node.form at constant
      split at constant
      · next folded found =>
          have inner := Node.form_constant (foldUnary_operand found)
          exact ⟨inner.1, inner.2.1, inner.2.2⟩
      · exact absurd constant (by simp [Operand.constant])
  | .binary op left right, constant => by
      unfold Node.form at constant
      split at constant
      · next folded found =>
          have constants := foldBinary_operand found
          have first := Node.form_constant constants.1
          have second := Node.form_constant constants.2
          refine ⟨?_, ?_, ?_⟩
          · intro targets base flow
            simp only [Node.flow, first.1, second.1]
          · intro blocks base privates
            simp only [Node.after, first.2.1, second.2.1]
          · intro slot
            simp only [Node.settles, first.2.2, second.2.2, Bool.or_self]
      · exact absurd constant (by simp [Operand.constant])
  | .symbolGet resolved (some variable_) symbol, constant => by
      unfold Node.form at constant
      dsimp only at constant
      split at constant <;> exact absurd constant (by simp [Operand.constant])

end Forms

end Xemmai
