import Xemmai.Passage

/-!
# What evaluation never takes back

Whatever a tree does, a slot that has been written stays written and an access
that has been logged stays in the log.
-/

namespace Xemmai

set_option autoImplicit false

section States

variable {F O W : Type}

structure Grown (before after : State F O W) : Prop where
  written : ∀ slot, before.written slot = true → after.written slot = true
  log : ∀ access ∈ before.log, access ∈ after.log

namespace Grown

theorem refl (state : State F O W) : Grown state state :=
  ⟨fun _ present => present, fun _ member => member⟩

theorem trans {first second third : State F O W} (left : Grown first second)
    (right : Grown second third) : Grown first third :=
  ⟨fun slot present => right.written slot (left.written slot present),
    fun access member => right.log access (left.log access member)⟩

theorem note (access : Access F O) (state : State F O W) : Grown state (state.note access) :=
  ⟨fun _ present => present, fun _ member => List.mem_append_left _ member⟩

theorem read (privates index : Nat) (state : State F O W) :
    Grown state (state.read privates index) := by
  unfold State.read
  split
  · exact note _ state
  · exact refl state

theorem fetched (privates : Nat) (operand : Operand F O) (state : State F O W) :
    Grown state (state.fetched privates operand) := by
  cases operand with
  | «variable» index => exact read privates index state
  | _ => exact refl state

theorem update_written {written : Nat → Bool} (index : Nat) {slot : Nat}
    (present : written slot = true) : Function.update written index true slot = true := by
  by_cases same : slot = index
  · subst same
    exact Function.update_self _ _ _
  · rwa [Function.update_of_ne same]

theorem write (privates index : Nat) (value : Value F O) (state : State F O W) :
    Grown state (state.write privates index value) := by
  unfold State.write
  split
  · exact ⟨fun _ present => update_written index present, fun _ member => member⟩
  · exact ⟨fun _ present => present, fun _ member => member⟩

theorem insertNull (index : Nat) (state : State F O W) : Grown state (state.insertNull index) :=
  ⟨fun _ present => update_written index present, fun _ member => List.mem_append_left _ member⟩

theorem insertNulls (slots : List Nat) : ∀ state : State F O W,
    Grown state (state.insertNulls slots) := by
  induction slots with
  | nil => exact refl
  | cons slot slots induction => exact fun state => (insertNull slot state).trans (induction _)

theorem know (layout : Layout) (privates : Nat → Bool) (index : Nat) (state : State F O W) :
    Grown state (state.know layout privates index) := by
  unfold State.know
  split
  · exact insertNull index state
  · exact refl state

theorem expose (exposed : List Nat) (state : State F O W) : Grown state (state.expose exposed) :=
  ⟨fun _ present => present, fun _ member => List.mem_append_left _ member⟩

theorem unless_ (clear : Bool) {before after : State F O W} (grown : Grown before after) :
    Grown before (if clear then before else after) := by
  cases clear with
  | true => exact refl before
  | false => exact grown

theorem setWorld (world : W) (state : State F O W) : Grown state (state.setWorld world) :=
  ⟨fun _ present => present, fun _ member => member⟩

theorem copy (privates source target : Nat) (state : State F O W) :
    Grown state (state.copy privates source target) :=
  (read privates source state).trans (write privates target _ _)

theorem deliver (privates : Nat) (tail : Bool) (stack : Nat) (state : State F O W)
    (result : Except (Value F O) (Value F O) × W) :
    Grown state (deliver privates tail stack state result).2 := by
  rcases result with ⟨result, world⟩
  cases result with
  | error thrown => exact setWorld world state
  | ok value =>
      cases tail with
      | true => exact setWorld world state
      | false => exact (setWorld world state).trans (write privates stack value _)

theorem bind (runtime : Runtime F O W) (privates : Nat) (binding : Binding) (stack : Nat)
    (state : State F O W) : Grown state (bind runtime privates binding stack state).2 := by
  unfold Xemmai.bind
  split
  · exact setWorld _ state
  · exact ((setWorld _ state).trans (write privates stack _ _)).trans (write _ _ _ _)

theorem literally (privates : Nat) (value : Value F O) (tail operand clear : Bool) (stack : Nat)
    (state : State F O W) :
    Grown state (literally privates value tail operand clear stack state).2 := by
  unfold Xemmai.literally
  split
  · exact refl state
  · split
    · exact refl state
    · exact write privates stack value state

theorem andThen {state : State F O W} {ending : Ending F O W} {rest : State F O W → Ending F O W}
    (first : Grown state ending.2) (second : ∀ state, Grown state (rest state).2) :
    Grown state (andThen ending rest).2 := by
  rcases ending with ⟨completion, after⟩
  cases completion with
  | normal => exact first.trans (second after)
  | _ => exact first

theorem looping {again : State F O W → Ending F O W} {state : State F O W} {ending : Ending F O W}
    (first : Grown state ending.2) (rounds : ∀ state, Grown state (again state).2) :
    Grown state (looping again ending).2 := by
  rcases ending with ⟨completion, after⟩
  cases completion with
  | normal => exact first.trans (rounds after)
  | continue_ => exact first.trans (rounds after)
  | _ => exact first

theorem repeating {condition body next : State F O W → Ending F O W} {holds : State F O W → Bool}
    {leave : State F O W → State F O W}
    (conditions : ∀ state, Grown state (condition state).2)
    (bodies : ∀ state, Grown state (body state).2)
    (nexts : ∀ state, Grown state (next state).2) (leaves : ∀ state, Grown state (leave state)) :
    ∀ (fuel : Nat) (state : State F O W),
      Grown state (repeating condition holds body next leave fuel state).2 := by
  intro fuel
  induction fuel with
  | zero => exact refl
  | succ fuel induction =>
      intro state
      refine andThen (conditions state) ?_
      intro state
      split
      · exact looping (bodies state) fun state => andThen (nexts state) induction
      · exact leaves state

theorem leaving (completion : Completion F O) (state : State F O W)
    {break_ continue_ return_ : State F O W → State F O W}
    (breaks : ∀ state, Grown state (break_ state))
    (continues : ∀ state, Grown state (continue_ state))
    (returns : ∀ state, Grown state (return_ state)) :
    Grown state (leaving completion state break_ continue_ return_).2 := by
  cases completion with
  | break_ => exact breaks state
  | continue_ => exact continues state
  | return_ => exact returns state
  | _ => exact refl state

theorem catching {catches : Value F O → State F O W → Ending F O W} {state : State F O W}
    {ending : Ending F O W} (clauses : ∀ thrown state, Grown state (catches thrown state).2)
    (first : Grown state ending.2) : Grown state (catching catches ending).2 := by
  rcases ending with ⟨completion, after⟩
  cases completion with
  | threw thrown => exact first.trans (clauses thrown after)
  | _ => exact first

theorem attempting {body finally_ : State F O W → Ending F O W}
    {catches : Value F O → State F O W → Ending F O W}
    {break_ continue_ return_ : State F O W → State F O W}
    (bodies : ∀ state, Grown state (body state).2)
    (clauses : ∀ thrown state, Grown state (catches thrown state).2)
    (finals : ∀ state, Grown state (finally_ state).2)
    (breaks : ∀ state, Grown state (break_ state))
    (continues : ∀ state, Grown state (continue_ state))
    (returns : ∀ state, Grown state (return_ state)) (state : State F O W) :
    Grown state (attempting body catches finally_ break_ continue_ return_ state).2 := by
  have attempted := catching clauses (bodies state)
  unfold Xemmai.attempting
  rcases shape : Xemmai.catching catches (body state) with ⟨completion, after⟩
  rw [shape] at attempted
  cases completion with
  | timeout => exact attempted
  | _ =>
      exact attempted.trans (andThen (finals after)
        fun state => leaving _ state breaks continues returns)

end Grown

end States

section Nodes

variable {F O W : Type} [Double F] (layout : Layout) (blocks : Nat → Block)
variable (runtime : Runtime F O W) (fuel : Nat)

mutual

theorem Node.grown (exits : Exits) (base : Nat) (privates : Nat → Bool) (stack : Nat)
    (tail operand clear : Bool) (node : Node F O) (state : State F O W) :
    Grown state (node.perform layout blocks runtime fuel exits base privates stack tail operand
      clear state).2 := by
  cases node with
  | nodes items => exact items.sequence_grown exits base privates stack tail clear state
  | operate action operands =>
      exact (operands.values_grown exits base privates _ state).andThen
        fun state => Grown.deliver _ _ _ state _
  | if_ condition true_ false_ =>
      simp only [Node.perform]
      refine (condition.grown exits base privates stack false state).andThen ?_
      intro state
      split
      · exact (true_.grown exits _ _ stack tail false clear state).andThen
          fun state => Grown.insertNulls _ state
      · exact (false_.grown exits _ _ stack tail false clear state).andThen
          fun state => Grown.insertNulls _ state
  | while_ condition body =>
      simp only [Node.perform]
      refine (Grown.insertNulls _ state).trans (Grown.repeating
        (condition.grown exits _ _ stack false) (body.grown _ _ _ stack false false true)
        Grown.refl ?_ fuel _)
      exact fun state => (Grown.insertNulls _ state).trans (Grown.unless_ clear (Grown.write _ _ _ _))
  | for_ initialization condition next body =>
      simp only [Node.perform]
      refine (initialization.grown exits base privates stack true state).andThen ?_
      intro state
      refine (Grown.insertNulls _ state).trans (Grown.repeating
        (condition.grown exits _ _ stack false) (body.grown _ _ _ stack false false true)
        (next.grown exits _ _ stack true) ?_ fuel _)
      exact fun state => (Grown.insertNulls _ state).trans (Grown.unless_ clear (Grown.write _ _ _ _))
  | break_ expression =>
      exact (expression.grown exits base privates _ _ false _ state).andThen
        fun state => Grown.insertNulls _ state
  | continue_ => exact Grown.expose _ state
  | return_ expression =>
      refine (expression.grown exits base privates _ _ false false state).andThen ?_
      intro state
      split
      · exact Grown.read _ _ state
      · exact Grown.insertNulls _ state
  | try_ body catches finally_ =>
      simp only [Node.perform]
      refine (Grown.insertNulls (layout.nulls privates (blocks base)) state).trans ?_
      have rejoin : ∀ (height : Nat) (nulls : List Nat) (state : State F O W), Grown state
          ((if height < stack then state.copy layout.privates stack height else state).insertNulls
            nulls) := by
        intro height nulls state
        refine Grown.trans ?_ (Grown.insertNulls _ _)
        split
        · exact Grown.copy _ _ _ state
        · exact Grown.refl state
      exact Grown.attempting (body.grown _ _ _ stack false false clear)
        (fun thrown state => (Grown.expose _ state).trans
          (catches.grown _ _ _ stack clear thrown _))
        (finally_.grown _ _ _ _ true) (rejoin _ _) (rejoin _ _) (rejoin _ _) _
  | throw_ expression =>
      exact (expression.grown exits base privates stack false false false state).andThen
        fun state => Grown.refl state
  | symbolGet resolved variable_ symbol =>
      cases variable_ with
      | none => exact Grown.deliver _ _ _ state _
      | some variable_ =>
          simp only [Node.perform]
          split
          · exact Grown.write _ _ _ state
          · refine (Grown.know layout privates (layout.variableOf variable_).index state).trans ?_
            split
            · exact Grown.refl _
            · split
              · exact Grown.read _ _ _
              · exact Grown.copy _ _ _ _
  | scopePut outer variable_ value =>
      simp only [Node.perform]
      split
      · refine (value.grown exits base privates stack false true false state).andThen ?_
        intro state
        cases value.form layout with
        | «variable» index => exact Grown.copy _ _ _ state
        | temporary => exact Grown.copy _ _ _ state
        | _ => exact Grown.write _ _ _ state
      · refine (value.grown exits base privates stack false false false state).andThen ?_
        intro state
        dsimp only
        split
        · exact Grown.setWorld _ state
        · exact Grown.copy _ _ _ state
  | self outer =>
      exact Grown.unless_ clear (Grown.write _ _ _ state)
  | literal literal => exact Grown.literally _ _ _ _ _ _ state
  | unary op expression =>
      simp only [Node.perform]
      refine (expression.grown exits base privates _ false true false state).andThen ?_
      intro state
      split
      · exact Grown.literally _ _ _ _ _ _ state
      · exact (Grown.fetched _ _ state).trans (Grown.deliver _ _ _ _ _)
  | binary op left right =>
      simp only [Node.perform]
      refine (left.grown exits base privates _ false true false state).andThen ?_
      intro state
      refine (right.grown exits _ _ _ false true false state).andThen ?_
      intro state
      split
      · exact Grown.literally _ _ _ _ _ _ state
      · exact ((Grown.fetched _ _ state).trans (Grown.fetched _ _ _)).trans
          (Grown.deliver _ _ _ _ _)
  | preserve => exact Grown.refl state
  | call target arguments expands =>
      have late := fun privates state => arguments.values_grown exits (base + target.blocks)
        privates (stack + 2) state
      unfold Node.perform
      dsimp only
      split
      · refine (late _ state).andThen ?_
        intro state
        split
        · exact (Grown.write _ _ _ state).trans (Grown.deliver _ _ _ _ _)
        · exact ((Grown.write _ _ _ state).trans (Grown.note _ _)).trans (Grown.deliver _ _ _ _ _)
      · refine Grown.andThen ?_ fun state => (late _ state).andThen
          fun state => Grown.deliver _ _ _ state _
        cases target with
        | operate action operands =>
            have bound := fun binding => (operands.values_grown exits base privates stack
              state).andThen (Grown.bind runtime layout.privates binding stack)
            have whole := (Node.operate action operands).grown exits base privates stack false false
              false state
            cases action with
            | objectGet key => exact bound _
            | getAt => exact bound _
            | _ => exact whole.andThen fun state => Grown.write _ _ _ state
        | _ =>
            exact (Node.grown exits base privates stack false false false _ state).andThen
              fun state => Grown.write _ _ _ state

theorem Nodes.sequence_grown (exits : Exits) (base : Nat) (privates : Nat → Bool) (stack : Nat)
    (tail clear : Bool) (nodes : Nodes F O) (state : State F O W) :
    Grown state (nodes.performSequence layout blocks runtime fuel exits base privates stack tail
      clear state).2 := by
  cases nodes with
  | nil => exact Grown.unless_ clear (Grown.write _ _ _ state)
  | cons head rest =>
      simp only [Nodes.performSequence]
      split
      · exact head.grown exits base privates stack tail false clear state
      · exact (head.grown exits base privates stack false false true state).andThen
          fun state => rest.sequence_grown exits _ _ stack tail clear state

theorem Nodes.values_grown (exits : Exits) (base : Nat) (privates : Nat → Bool) (stack : Nat)
    (nodes : Nodes F O) (state : State F O W) :
    Grown state (nodes.performValues layout blocks runtime fuel exits base privates stack
      state).2 := by
  cases nodes with
  | nil => exact Grown.refl state
  | cons head rest =>
      exact (head.grown exits base privates stack false false false state).andThen
        fun state => rest.values_grown exits _ _ _ state

theorem Catches.grown (exits : Exits) (base : Nat) (privates : Nat → Bool) (stack : Nat)
    (clear : Bool) (catches : Catches F O) (thrown : Value F O) (state : State F O W) :
    Grown state (catches.perform layout blocks runtime fuel exits base privates stack clear thrown
      state).2 := by
  cases catches with
  | nil => exact Grown.refl state
  | cons expression variable_ body tail =>
      simp only [Catches.perform]
      refine (expression.grown exits _ privates stack false false false state).andThen ?_
      intro state
      split
      · exact Grown.setWorld _ state
      · exact (Grown.setWorld _ state).trans (tail.grown exits _ _ stack clear thrown _)
      · refine Grown.trans ?_ (body.grown exits _ _ stack false false clear _)
        split
        · exact Grown.setWorld _ state
        · exact (Grown.setWorld _ state).trans (Grown.write _ _ _ _)

theorem Optional.grown (exits : Exits) (base : Nat) (privates : Nat → Bool) (stack : Nat)
    (clear : Bool) (optional : Optional F O) (state : State F O W) :
    Grown state (optional.performOptional layout blocks runtime fuel exits base privates stack
      clear state).2 := by
  cases optional with
  | none => exact Grown.refl state
  | some node => exact node.grown exits base privates stack false false clear state

end

end Nodes

end Xemmai
