import Xemmai.Refinement

/-!
# What the code of a scope means

Each construct from its parts, then every tree, and the code of a scope: it ends
as the evaluation of its body tells, with the variables and the world that the
evaluation leaves.
-/

namespace Xemmai

set_option autoImplicit false
set_option linter.unusedSectionVars false

section Operands

variable {F O W : Type} {layout : Layout} {privates low : Nat}

theorem Operand.isTemporary_of_constant {form : Operand F O}
    (constant : form.constant.isSome = true) : form.isTemporary = false := by
  cases form with
  | temporary => exact absurd constant (by simp [Operand.constant])
  | _ => rfl

theorem State.fetch_store {form : Operand F O} {temporary : Value F O} {slot : Nat}
    {state : State F O W} (held : form.isTemporary = true → state.slot slot = temporary)
    (below : ∀ index, form = .variable index → index < privates)
    (faithful : (state.fetched privates form).Faithful) :
    state.fetch form (state.slot slot) = state.store.fetch form temporary := by
  cases form with
  | «variable» index => exact faithful.slot (below index rfl)
  | temporary => exact held rfl
  | _ => rfl

theorem State.fetch_of_slot {first second : State F O W} (same : second.slot = first.slot)
    (form : Operand F O) (temporary : Value F O) :
    second.fetch form temporary = first.fetch form temporary := by
  cases form with
  | «variable» index => exact congrFun same index
  | _ => rfl

theorem State.fetch_constant {form : Operand F O} (constant : form.constant.isSome = true)
    (temporary : Value F O) (state : State F O W) :
    state.fetch form temporary = state.store.fetch form temporary := by
  cases form with
  | «variable» index => exact absurd constant (by simp [Operand.constant])
  | _ => rfl

theorem Layout.nulls_low {p : Nat → Bool} {junction : Block} :
    ∀ slot ∈ layout.nulls p junction, slot < layout.privates := by
  intro slot member
  have inside := List.mem_of_mem_filter member
  have bounds := List.mem_range'_1.mp inside
  omega

variable [Double F]

theorem Node.form_low {node : Node F O} {index : Nat} (form : node.form layout = .variable index) :
    index < layout.privates := by
  obtain ⟨resolved, variable_, symbol, rfl, isPrivate, rfl⟩ := Node.form_get form
  exact layout.bounded variable_ isPrivate

/-- An operand that is a variable or a constant has no effect, and its value is found. -/
theorem Node.evaluate_form {node : Node F O} (known : (node.form layout).isTemporary = false)
    (runtime : Runtime F O W) (fuel : Nat) (top : Value F O) (store : Store F O W) :
    node.evaluate layout runtime fuel top store =
      (.value (store.fetch (node.form layout) .null), store) := by
  cases node with
  | literal literal => cases literal <;> rfl
  | symbolGet resolved variable_ symbol =>
      cases variable_ with
      | none => exact absurd known (by simp [Node.form, Operand.isTemporary])
      | some variable_ =>
          simp only [Node.form] at known ⊢
          cases shared : (layout.variableOf variable_).isShared with
          | true => simp [shared, Operand.isTemporary] at known
          | false => simp [Node.evaluate, Store.get, Store.fetch, shared]
  | unary op expression =>
      simp only [Node.form] at known ⊢
      split at known
      · next folded found =>
          have constant := Operand.isTemporary_of_constant (foldUnary_operand found)
          simp only [Node.evaluate, Store.operand, constant, Bool.false_eq_true, if_false,
            Evaluated.bind, found]
      · exact absurd known (by simp [Operand.isTemporary])
  | binary op left right =>
      simp only [Node.form] at known ⊢
      split at known
      · next folded found =>
          have constants := foldBinary_operand found
          have first := Operand.isTemporary_of_constant constants.1
          have second := Operand.isTemporary_of_constant constants.2
          simp only [Node.evaluate, Store.operand, first, second, Bool.false_eq_true, if_false,
            Evaluated.bind, found]
      · exact absurd known (by simp [Operand.isTemporary])
  | _ => exact absurd known (by simp [Node.form, Operand.isTemporary])

end Operands

section Asked

variable {F O W : Type} [Double F] (layout : Layout)

def Node.isAsked (node : Node F O) (operand clear : Bool) : Bool :=
  !clear && (!operand || (node.form layout).isTemporary)

variable {layout} {exits : Exits} {lands : Lands} {stack : Nat}

theorem Node.isAsked_of_not_operand (node : Node F O) (clear : Bool) :
    node.isAsked layout false clear = !clear := by
  simp [Node.isAsked]

theorem Node.isAsked_of_known {node : Node F O} (known : (node.form layout).isTemporary = false)
    {operand clear : Bool} (asked : node.isAsked layout operand clear = true) :
    operand = false ∧ clear = false := by
  simp only [Node.isAsked, known, Bool.or_false, Bool.and_eq_true, Bool.not_eq_true'] at asked
  exact asked.symm

theorem Node.isAsked_of_temporary {node : Node F O}
    (temporary : (node.form layout).isTemporary = true) (operand clear : Bool) :
    node.isAsked layout operand clear = !clear := by
  simp [Node.isAsked, temporary]

theorem Node.operand_refines {node : Node F O} {runtime : Runtime F O W} {fuel : Nat}
    {state : State F O W} {ending : Ending F O W}
    (part : Refines layout exits lands stack (Holds (node.isAsked layout true false) stack)
      (Ended false) state ending (node.evaluate layout runtime fuel .null state.store)) :
    Refines layout exits lands stack
      (fun value after => (node.form layout).isTemporary = true → after.slot stack = value) Never
      state ending
      (state.store.operand (node.form layout) (node.evaluate layout runtime fuel .null)) := by
  rcases ending with ⟨completion, after⟩
  unfold Store.operand
  cases temporary : (node.form layout).isTemporary with
  | true =>
      rw [Node.isAsked_of_temporary temporary] at part
      exact part.stays.lower (le_refl stack) fun _ _ held _ => held rfl
  | false =>
      rw [Node.evaluate_form temporary] at part
      intro faithful
      obtain ⟨same, tells⟩ := part.stays faithful
      refine ⟨same, ?_⟩
      cases tells with
      | normal held keeps => exact .normal nofun keeps
      | ended ended => exact ended.elim

theorem Evaluated.bind_assoc {V S A B C : Type} (evaluated : Evaluated V S A)
    (second : A → S → Evaluated V S B) (third : B → S → Evaluated V S C) :
    (evaluated.bind second).bind third = evaluated.bind fun a store =>
      (second a store).bind third := by
  rcases evaluated with ⟨conclusion, store⟩
  cases conclusion <;> rfl

/-- What a part gives is what an operator that it is the operand of takes. -/
theorem Node.evaluate_operand (node : Node F O) (runtime : Runtime F O W) (fuel : Nat)
    (store : Store F O W) :
    node.evaluate layout runtime fuel .null store =
      (store.operand (node.form layout) (node.evaluate layout runtime fuel .null)).bind
        fun temporary store => (.value (store.fetch (node.form layout) temporary), store) := by
  unfold Store.operand
  cases temporary : (node.form layout).isTemporary with
  | false => exact Node.evaluate_form temporary runtime fuel .null store
  | true =>
      have form : node.form layout = .temporary := by
        cases found : node.form layout with
        | temporary => rfl
        | _ => simp [found, Operand.isTemporary] at temporary
      rw [form, if_pos rfl]
      rcases node.evaluate layout runtime fuel .null store with ⟨conclusion, last⟩
      cases conclusion <;> rfl

/-- The value of a part is put into a variable from where the part has left it. -/
def State.assign (privates stack index : Nat) (form : Operand F O) (state : State F O W) :
    State F O W :=
  match form with
  | .variable source => state.copy privates source index
  | .temporary => state.copy privates stack index
  | constant => state.write privates index (state.fetch constant .null)

theorem State.store_assign (form : Operand F O) {temporary : Value F O} {index : Nat}
    {state : State F O W} (target : index < layout.privates)
    (held : form.isTemporary = true → state.slot stack = temporary)
    (below : ∀ source, form = .variable source → source < layout.privates)
    (faithful : (state.assign layout.privates stack index form).Faithful) :
    (state.assign layout.privates stack index form).store =
      { state.store with
        locals := Function.update state.store.locals index
          (state.store.fetch form temporary) } := by
  cases form with
  | «variable» source =>
      have read := (Grown.write _ _ _ _).faithful faithful
      have found := State.Faithful.slot read (below source rfl)
      refine (State.store_write_low target _ _).trans ?_
      rw [State.store_read, found]
      rfl
  | temporary =>
      refine (State.store_write_low target _ _).trans ?_
      rw [State.store_read, held rfl]
      rfl
  | _ => exact State.store_write_low target _ state

theorem Framed.assign {index : Nat} (form : Operand F O) (target : index < layout.privates)
    (low : Nat) (state : State F O W) :
    Framed layout.privates low state (state.assign layout.privates stack index form) := by
  cases form with
  | «variable» source =>
      exact (Framed.of_slot (State.slot_read _ source state)).trans
        (Framed.write index _ _ (Or.inr target))
  | temporary =>
      exact (Framed.of_slot (State.slot_read _ stack state)).trans
        (Framed.write index _ _ (Or.inr target))
  | _ => exact Framed.write index _ state (Or.inr target)

theorem Grown.assign {index : Nat} (form : Operand F O) (state : State F O W) :
    Grown state (state.assign layout.privates stack index form) := by
  cases form with
  | «variable» source => exact Grown.copy _ _ _ state
  | temporary => exact Grown.copy _ _ _ state
  | _ => exact Grown.write _ _ _ state

/-- What a call does of its target. -/
def Node.evaluateTarget (layout : Layout) (runtime : Runtime F O W) (fuel : Nat)
    (target : Node F O) (store : Store F O W) :
    Evaluated (Value F O) (Store F O W) (Value F O × Value F O) :=
  match target with
  | .operate (.objectGet key) operands =>
      (operands.evaluateValues layout runtime fuel store).bind fun values store =>
        store.bound (runtime.bind (.methodGet key) values store.world)
  | .operate .getAt operands =>
      (operands.evaluateValues layout runtime fuel store).bind fun values store =>
        store.bound (runtime.bind .methodBind values store.world)
  | target =>
      (target.evaluate layout runtime fuel .null store).bind fun value store =>
        (.value (value, .null), store)

theorem Node.evaluate_call {runtime : Runtime F O W} {fuel : Nat} {top : Value F O}
    {target : Node F O} {arguments : Nodes F O} {expands : List Nat} {store : Store F O W}
    (called : target.called layout expands = none) :
    (Node.call target arguments expands).evaluate layout runtime fuel top store =
      (target.evaluateTarget layout runtime fuel store).bind fun callee store =>
        (arguments.evaluateValues layout runtime fuel store).bind fun values store =>
          store.deliver (runtime.call expands callee.1 callee.2 values store.world) := by
  unfold Node.evaluate
  simp only [called]
  rfl

/-- What a call finds of its callee and its self. -/
def Called (stack : Nat) (pair : Value F O × Value F O) (after : State F O W) : Prop :=
  after.slot stack = pair.1 ∧ after.slot (stack + 1) = pair.2

theorem Nodes.bound_refines {operands : Nodes F O} {binding : Binding} {runtime : Runtime F O W}
    {state : State F O W} {ending : Ending F O W}
    {evaluated : Evaluated (Value F O) (Store F O W) (List (Value F O))}
    (fits : Fits layout exits lands stack) (arity : binding.operands = operands.length)
    (values : Refines layout exits lands stack
      (fun values after => after.operands stack operands.length = values) Never state ending
      evaluated) :
    Refines layout exits lands stack (Called stack) Never state
      (andThen ending (bind runtime layout.privates binding stack))
      (evaluated.bind fun values store =>
        store.bound (runtime.bind binding values store.world)) := by
  refine values.bind fits (le_refl stack) (Grown.bind runtime layout.privates binding stack) ?_
  intro values after held _
  exact Refines.bound runtime fits after (arity ▸ held)

theorem Framed.delivers {before middle : State F O W} {store : Store F O W} {tail asked : Bool}
    (keeps : Framed layout.privates stack before middle) (fits : Fits layout exits lands stack)
    (same : middle.store = store) (result : Except (Value F O) (Value F O) × W) :
    Refines layout exits lands stack (Holds asked stack) (Ended tail) before
      (deliver layout.privates tail stack middle result) (store.deliver result) := by
  rw [← same]
  exact (Refines.deliver fits middle result).asks.earlier fits keeps

theorem Node.pushed_refines {target : Node F O} {runtime : Runtime F O W} {fuel : Nat}
    {state : State F O W} {ending : Ending F O W} (fits : Fits layout exits lands stack)
    (part : Refines layout exits lands stack (Holds (target.isAsked layout false false) stack)
      (Ended false) state ending (target.evaluate layout runtime fuel .null state.store)) :
    Refines layout exits lands stack (Called stack) Never state
      (andThen ending fun state => (.normal, state.write layout.privates (stack + 1) .null))
      ((target.evaluate layout runtime fuel .null state.store).bind fun value store =>
        (.value (value, .null), store)) := by
  have next := Nat.le_succ_of_le fits.above
  rw [Node.isAsked_of_not_operand] at part
  refine part.stays.bind fits (le_refl stack) (fun state => Grown.write _ _ _ state) ?_
  intro value after held _ _
  have cleared : Framed layout.privates (stack + 1) after
      (after.write layout.privates (stack + 1) .null) :=
    Framed.write (stack + 1) .null after (Or.inl (le_refl _))
  refine ⟨State.store_write_high next _ _, .normal ⟨?_, State.slot_write _ _ _ _⟩
    (cleared.lower (Nat.le_succ stack))⟩
  exact (cleared stack fits.above (Nat.lt_succ_self stack)).trans (held rfl)

/-- A call of a variable, which is read when its arguments are there. -/
theorem State.call_refines {runtime : Runtime F O W} {expands : List Nat} {found : Variable}
    {resolved count : Nat} {known tail asked : Bool} {values : List (Value F O)}
    (fits : Fits layout exits lands stack) (after : State F O W)
    (held : after.operands (stack + 2) count = values) :
    Refines layout exits lands stack (Holds asked stack) (Ended tail) after
      (if found.isShared then
        deliver layout.privates tail stack (after.write layout.privates (stack + 1) .null)
          (runtime.call expands (runtime.scopeGet resolved found.index after.world) .null
            (after.operands (stack + 2) count) after.world)
      else
        deliver layout.privates tail stack ((after.write layout.privates (stack + 1) .null).note
            (.callee found.index known
              ((after.write layout.privates (stack + 1) .null).slot found.index)
              ((after.write layout.privates (stack + 1) .null).assigned found.index)))
          (runtime.call expands
            ((after.write layout.privates (stack + 1) .null).slot found.index) .null
            (after.operands (stack + 2) count)
            (after.write layout.privates (stack + 1) .null).world))
      (after.store.deliver (runtime.call expands
        (if found.isShared then runtime.scopeGet resolved found.index after.store.world
        else after.store.locals found.index) .null values after.store.world)) := by
  have cleared : Framed layout.privates stack after
      (after.write layout.privates (stack + 1) .null) :=
    Framed.write (stack + 1) .null after (Or.inl (Nat.le_succ stack))
  have stays := State.store_write_high (Nat.le_succ_of_le fits.above) .null after
  have world : after.store.world = after.world := rfl
  have other : (after.write layout.privates (stack + 1) .null).world = after.world :=
    congrArg Store.world stays
  rw [held, world]
  cases shared : found.isShared with
  | true =>
      simp only [if_true]
      exact cleared.delivers fits stays _
  | false =>
      simp only [Bool.false_eq_true, if_false]
      refine Refines.assume (Grown.deliver _ _ _ _ _) fun faithful => ?_
      have callee : (after.write layout.privates (stack + 1) .null).slot found.index =
          (after.write layout.privates (stack + 1) .null).store.locals found.index :=
        faithful _ (List.mem_append_right _ (List.mem_singleton_self _))
      have noted : ∀ access, Framed layout.privates stack after
          ((after.write layout.privates (stack + 1) .null).note access) := fun _ => cleared
      rw [callee, stays, other]
      exact (noted _).delivers fits stays _

section Rejoining

variable {privates : Nat → Bool} {junction : Block} {height low : Nat}

theorem Grown.rejoin (state : State F O W) :
    Grown state (state.rejoin layout privates stack junction height) := by
  unfold State.rejoin
  split
  · exact (Grown.copy _ _ _ state).trans (Grown.insertNulls _ _)
  · exact Grown.insertNulls _ _

theorem State.store_rejoin (above : layout.privates ≤ stack) (high : layout.privates ≤ height)
    (state : State F O W) :
    (state.rejoin layout privates stack junction height).store = state.store := by
  unfold State.rejoin
  split
  · rw [State.store_insertNulls, State.copy_of_high above, State.store_write_high high]
  · exact State.store_insertNulls _ _

theorem Framed.rejoin (above : layout.privates ≤ stack) (below : low ≤ height)
    (state : State F O W) :
    Framed layout.privates low state (state.rejoin layout privates stack junction height) := by
  unfold State.rejoin
  refine Framed.trans ?_ (Framed.insertNulls Layout.nulls_low _)
  split
  · rw [State.copy_of_high above]
    exact Framed.write height _ _ (Or.inl below)
  · exact Framed.refl state

theorem State.slot_rejoin (above : layout.privates ≤ stack) (high : layout.privates ≤ height)
    (below : height ≤ stack) (state : State F O W) :
    (state.rejoin layout privates stack junction height).slot height = state.slot stack := by
  unfold State.rejoin
  refine (Framed.insertNulls Layout.nulls_low _ height high (Nat.lt_succ_self height)).trans ?_
  split
  · rw [State.copy_of_high above]
    exact State.slot_write _ _ _ _
  · have same : height = stack := by omega
    rw [same]

end Rejoining

theorem Ways.rejoin {privates : Nat → Bool} {junctionB junctionC junctionR : Block}
    (fits : Fits layout exits lands stack) :
    Ways layout exits lands stack
      (fun state : State F O W => state.rejoin layout privates stack junctionB
        (if exits.breakMustClear then stack else exits.breakStack))
      (fun state => state.rejoin layout privates stack junctionC stack)
      (fun state => state.rejoin layout privates stack junctionR exits.returnStack) where
  grown state := ⟨Grown.rejoin state, Grown.rejoin state, Grown.rejoin state⟩
  breaks state landed := by
    have high := fits.high.break_ landed
    have below := fits.breaks landed
    cases clears : exits.breakMustClear with
    | true =>
        rw [if_pos rfl]
        exact ⟨State.store_rejoin fits.above fits.above state, Framed.rejoin fits.above below state,
          nofun⟩
    | false =>
        rw [if_neg (by decide)]
        exact ⟨State.store_rejoin fits.above high state,
          Framed.rejoin fits.above (le_refl _) state,
          fun _ => State.slot_rejoin fits.above high below state⟩
  continues state :=
    ⟨State.store_rejoin fits.above fits.above state, Framed.rejoin fits.above (le_refl _) state⟩
  returns state landed := by
    have high := fits.high.return_ landed
    exact ⟨State.store_rejoin fits.above high state, Framed.rejoin fits.above (le_refl _) state,
      State.slot_rejoin fits.above high (fits.returns landed) state⟩

theorem Round.intro (exits : Exits) (lands : Lands) (stack : Nat) (tail clear : Bool)
    (breakJunction continueJunction : Nat) (exposed : List Nat) :
    Round exits lands stack tail (!clear)
      { exits with
        breakJunction := breakJunction
        breakStack := stack
        breakIsTail := tail
        breakMustClear := clear
        continueJunction := continueJunction
        exposed := exposed }
      ⟨true, true, lands.return_⟩ where
  below := rfl
  breakEnds := rfl
  cleared asked := by simpa using asked
  breaks := rfl
  returned := rfl
  returnEnds := rfl
  returns := rfl

theorem Fits.none (above : layout.privates ≤ stack) :
    Fits layout Exits.none ⟨false, false, false⟩ stack :=
  ⟨above, ⟨nofun, nofun⟩, nofun, nofun, nofun, nofun⟩

def State.caught (layout : Layout) (runtime : Runtime F O W) (variable_ : Nat) (thrown : Value F O)
    (world : W) (state : State F O W) : State F O W :=
  let found := layout.variableOf variable_
  if found.isShared then state.setWorld (runtime.scopePut 0 found.index thrown world)
  else (state.setWorld world).write layout.privates found.index thrown

theorem State.store_caught (runtime : Runtime F O W) (variable_ : Nat) (thrown : Value F O)
    (world : W) (state : State F O W) :
    (state.caught layout runtime variable_ thrown world).store =
      (state.store.setWorld world).put layout runtime 0 variable_ thrown := by
  unfold State.caught Store.put
  dsimp only
  split
  · rfl
  · next isPrivate =>
      exact State.store_write_low (layout.bounded variable_ (Bool.eq_false_iff.mpr isPrivate)) _ _

theorem Framed.caught (runtime : Runtime F O W) (variable_ : Nat) (thrown : Value F O) (world : W)
    (state : State F O W) :
    Framed layout.privates stack state (state.caught layout runtime variable_ thrown world) := by
  unfold State.caught
  dsimp only
  split
  · exact Framed.refl state
  · next isPrivate =>
      have below := layout.bounded variable_ (Bool.eq_false_iff.mpr isPrivate)
      exact Framed.write _ thrown _ (Or.inr below)

theorem Guarded.intro (exits : Exits) (stack junctionFinally : Nat) :
    Guarded exits stack
      { breakJunction := junctionFinally
        breakStack := stack
        breakIsTail := false
        breakMustClear := exits.breakMustClear
        continueJunction := junctionFinally
        returnJunction := junctionFinally
        returnStack := stack
        returnIsTail := false
        exposed := [] } :=
  ⟨rfl, rfl, rfl, rfl, rfl⟩

theorem Optional.holds_eq {optional : Optional F O} {value : Value F O} {after : State F O W}
    (held : if optional.isSome then Holds true stack value after else value = .boolean true) :
    optional.holds stack after = value.asBoolean := by
  cases optional with
  | none =>
      have same : value = .boolean true := held
      rw [same]
      rfl
  | some node => exact congrArg Value.asBoolean (held rfl)

theorem Optional.holds_top {optional : Optional F O} {value : Value F O} {after : State F O W}
    (held : if optional.isSome then Holds true stack value after else value = .boolean true)
    (given : optional.isSome = true) : after.slot stack = value := by
  rw [if_pos given] at held
  exact held rfl

end Asked

section Trees

variable {F O W : Type} [Double F] {layout : Layout} {blocks : Nat → Block}
variable {runtime : Runtime F O W} {fuel : Nat}

section Statements

variable (layout blocks runtime fuel)

/-- What a node does to a frame refines what it means. -/
def Node.Refined (node : Node F O) : Prop :=
  ∀ (exits : Exits) (base : Nat) (privates : Nat → Bool) (stack : Nat) (tail operand clear : Bool)
    (lands : Lands) (branch : Bool) (top : Value F O) (_ : node.isFormed = true)
    (_ : node.isPlain branch = true) (_ : node.lands lands = true)
    (_ : Fits layout exits lands stack) (state : State F O W)
    (_ : branch = true → state.slot stack = top),
    Refines layout exits lands stack (Holds (node.isAsked layout operand clear) stack) (Ended tail)
      state
      (node.perform layout blocks runtime fuel exits base privates stack tail operand clear state)
      (node.evaluate layout runtime fuel top state.store)

def Nodes.SequenceRefined (nodes : Nodes F O) : Prop :=
  ∀ (exits : Exits) (base : Nat) (privates : Nat → Bool) (stack : Nat) (tail clear : Bool)
    (lands : Lands) (_ : nodes.isFormed = true) (_ : nodes.isPlain = true)
    (_ : nodes.lands lands = true) (_ : Fits layout exits lands stack) (state : State F O W),
    Refines layout exits lands stack (Holds (!clear) stack) (Ended tail) state
      (nodes.performSequence layout blocks runtime fuel exits base privates stack tail clear state)
      (nodes.evaluateSequence layout runtime fuel state.store)

def Nodes.ValuesRefined (nodes : Nodes F O) : Prop :=
  ∀ (exits : Exits) (base : Nat) (privates : Nat → Bool) (stack : Nat) (lands : Lands)
    (_ : nodes.isFormed = true) (_ : nodes.isPlain = true) (_ : nodes.lands lands = true)
    (_ : Fits layout exits lands stack) (state : State F O W),
    Refines layout exits lands stack
      (fun values after => after.operands stack nodes.length = values) Never state
      (nodes.performValues layout blocks runtime fuel exits base privates stack state)
      (nodes.evaluateValues layout runtime fuel state.store)

def Catches.Refined (catches : Catches F O) : Prop :=
  ∀ (exits : Exits) (base : Nat) (privates : Nat → Bool) (stack : Nat) (clear : Bool)
    (lands : Lands) (_ : catches.isFormed = true) (_ : catches.isPlain = true)
    (_ : catches.lands lands = true) (_ : Fits layout exits lands stack) (thrown : Value F O)
    (state : State F O W),
    Refines layout exits lands stack (Holds (!clear) stack) Never state
      (catches.perform layout blocks runtime fuel exits base privates stack clear thrown state)
      (catches.evaluate layout runtime fuel thrown state.store)

/-- A part that is missing means its default. -/
def Optional.Refined (optional : Optional F O) : Prop :=
  ∀ (exits : Exits) (base : Nat) (privates : Nat → Bool) (stack : Nat) (clear : Bool)
    (lands : Lands) (default : Value F O) (_ : optional.isFormed = true)
    (_ : optional.isPlain = true) (_ : optional.lands lands = true)
    (_ : Fits layout exits lands stack) (state : State F O W),
    Refines layout exits lands stack
      (fun value after => if optional.isSome then Holds (!clear) stack value after
        else value = default) Never state
      (optional.performOptional layout blocks runtime fuel exits base privates stack clear state)
      (optional.evaluateOptional layout runtime fuel default state.store)

end Statements

theorem Node.Refined.apart {node : Node F O} (given : node.Refined layout blocks runtime fuel)
    (exits : Exits) (base : Nat) (privates : Nat → Bool) (stack : Nat) (tail operand clear : Bool)
    (lands : Lands) (formed : node.isFormed = true) (plain : node.isPlain false = true)
    (landing : node.lands lands = true) (fits : Fits layout exits lands stack)
    (state : State F O W) :
    Refines layout exits lands stack (Holds (node.isAsked layout operand clear) stack) (Ended tail)
      state
      (node.perform layout blocks runtime fuel exits base privates stack tail operand clear state)
      (node.evaluate layout runtime fuel .null state.store) :=
  given exits base privates stack tail operand clear lands false .null formed plain landing fits
    state (absurd · Bool.false_ne_true)

section Refined

theorem Node.Refined.nodes {items : Nodes F O}
    (sequence : items.SequenceRefined layout blocks runtime fuel) :
    (Node.nodes items).Refined layout blocks runtime fuel := by
  intro exits base privates stack tail operand clear lands branch top formed plain landing fits
    state kept
  rw [Node.isAsked_of_temporary rfl]
  exact sequence exits base privates stack tail clear lands formed plain landing
    fits state

theorem Node.Refined.operate {action : Action} {operands : Nodes F O}
    (each : operands.ValuesRefined layout blocks runtime fuel) :
    (Node.operate action operands).Refined layout blocks runtime fuel := by
  intro exits base privates stack tail operand clear lands branch top formed plain landing fits
    state kept
  have less : stack ≤ if action.isIndexing then stack + 1 else stack := by split <;> omega
  have values := each exits base privates _ lands
    (Bool.and_eq_true_iff.mp formed).2 plain landing (fits.lift less) state
  refine values.bind fits less (fun state => Grown.deliver _ _ _ state _) ?_
  rintro values after rfl _
  refine ((Refines.deliver fits after _).imp ?_).asks
  rintro value last ⟨isTail, same⟩
  exact ⟨(Bool.and_eq_true_iff.mp isTail).1, same⟩

theorem Node.Refined.if_ {condition : Optional F O} {true_ false_ : Node F O}
    (tested : condition.Refined layout blocks runtime fuel)
    (yes : true_.Refined layout blocks runtime fuel)
    (no : false_.Refined layout blocks runtime fuel) :
    (Node.if_ condition true_ false_).Refined layout blocks runtime fuel := by
  intro exits base privates stack tail operand clear lands branch top formed plain landing fits
    state kept
  simp only [Node.isFormed, Node.isPlain, Node.lands, Bool.and_eq_true] at formed plain landing
  obtain ⟨⟨formed, formedTrue⟩, formedFalse⟩ := formed
  obtain ⟨⟨plain, plainTrue⟩, plainFalse⟩ := plain
  obtain ⟨⟨landing, landingTrue⟩, landingFalse⟩ := landing
  rw [Node.isAsked_of_temporary rfl]
  simp only [Node.perform, Node.evaluate]
  have conditions := tested exits base privates stack false lands (.boolean true)
    formed plain landing fits state
  refine conditions.bind fits (le_refl stack) ?_ ?_
  · intro state
    split
    · exact (true_.grown layout blocks runtime fuel exits _ _ stack tail false clear
        state).andThen fun state => Grown.insertNulls _ state
    · exact (false_.grown layout blocks runtime fuel exits _ _ stack tail false clear
        state).andThen fun state => Grown.insertNulls _ state
  · intro value after held _
    rw [Optional.holds_eq held]
    cases value.asBoolean with
    | true =>
        have part := yes exits (base + condition.blocks + 1)
          (condition.after layout blocks base privates) stack tail false clear lands
          condition.isSome value formedTrue plainTrue landingTrue fits after
          (Optional.holds_top held)
        rw [Node.isAsked_of_not_operand] at part
        exact part.nulls fits Layout.nulls_low
    | false =>
        have part := no exits (base + condition.blocks + 1 + true_.blocks + 1)
          (condition.after layout blocks base privates) stack tail false clear lands
          condition.isSome value formedFalse plainFalse landingFalse fits after
          (Optional.holds_top held)
        rw [Node.isAsked_of_not_operand] at part
        exact part.nulls fits Layout.nulls_low

theorem Node.Refined.while_ {condition : Optional F O} {body : Node F O}
    (tested : condition.Refined layout blocks runtime fuel)
    (turn : body.Refined layout blocks runtime fuel) :
    (Node.while_ condition body).Refined layout blocks runtime fuel := by
  intro exits base privates stack tail operand clear lands branch top formed plain landing fits
    state kept
  simp only [Node.isFormed, Node.isPlain, Node.lands, Bool.and_eq_true] at formed plain landing
  rw [Node.isAsked_of_temporary rfl]
  simp only [Node.perform, Node.evaluate]
  have conditions : ∀ state : State F O W, Refines layout exits lands stack
      (fun goes after => condition.holds stack after = goes) Never state
      (condition.performOptional layout blocks runtime fuel exits (base + 1 + 1)
        (blocks base).out stack false state) _ := fun state =>
    (tested exits _ _ stack false lands (.boolean true) formed.1 plain.1 landing.1
      fits state).collect fits (le_refl stack) fun value after held _ => Optional.holds_eq held
  have round := Round.intro exits lands stack tail clear
    (base + 1 + 1 + condition.blocks + 1 + body.blocks) base []
  have bodies := fun state : State F O W => (turn.apart _ (base + 1 + 1 + condition.blocks + 1)
    (condition.after layout blocks (base + 1 + 1) (blocks base).out) stack false false true _
    formed.2 plain.2 landing.2 (fits.round round) state).stays
  have nexts : ∀ state : State F O W, Refines layout exits lands stack (fun _ _ => True) Never
      state (.normal, state) (.value (.null : Value F O), state.store) :=
    fun state => Refines.normal trivial (Framed.refl state)
  exact Refines.loop fits round Layout.nulls_low Layout.nulls_low conditions bodies nexts
    (body.grown layout blocks runtime fuel _ _ _ stack false false true) Grown.refl
    (condition.grown layout blocks runtime fuel exits _ _ stack false) fuel state

theorem Node.Refined.for_ {initialization condition next : Optional F O} {body : Node F O}
    (begun : initialization.Refined layout blocks runtime fuel)
    (tested : condition.Refined layout blocks runtime fuel)
    (stepped : next.Refined layout blocks runtime fuel)
    (turn : body.Refined layout blocks runtime fuel) :
    (Node.for_ initialization condition next body).Refined layout blocks runtime fuel := by
  intro exits base privates stack tail operand clear lands branch top formed plain landing fits
    state kept
  simp only [Node.isFormed, Node.isPlain, Node.lands, Bool.and_eq_true] at formed plain landing
  obtain ⟨⟨⟨formed0, formed1⟩, formed2⟩, formed3⟩ := formed
  obtain ⟨⟨⟨plain0, plain1⟩, plain2⟩, plain3⟩ := plain
  obtain ⟨⟨⟨landing0, landing1⟩, landing2⟩, landing3⟩ := landing
  rw [Node.isAsked_of_temporary rfl]
  simp only [Node.perform, Node.evaluate]
  have conditions : ∀ state : State F O W, Refines layout exits lands stack
      (fun goes after => condition.holds stack after = goes) Never state
      (condition.performOptional layout blocks runtime fuel exits
        (base + initialization.blocks + 1 + 1) (blocks (base + initialization.blocks)).out stack
        false state) _ := fun state =>
    (tested exits _ _ stack false lands (.boolean true) formed1 plain1 landing1
      fits state).collect fits (le_refl stack) fun value after held _ => Optional.holds_eq held
  have round := fun exposed => Round.intro exits lands stack tail clear
    (base + initialization.blocks + 1 + 1 + condition.blocks + 1 + body.blocks + 1 + 1 +
      next.blocks) (base + initialization.blocks + 1 + 1 + condition.blocks + 1 + body.blocks)
    exposed
  have bodies := fun exposed (state : State F O W) => (turn.apart _
    (base + initialization.blocks + 1 + 1 + condition.blocks + 1)
    (condition.after layout blocks (base + initialization.blocks + 1 + 1)
      (blocks (base + initialization.blocks)).out) stack false false true _
    formed3 plain3 landing3 (fits.round (round exposed)) state).stays
  have start := begun exits base privates stack true lands .null formed0 plain0
    landing0 fits state
  refine start.bind fits (le_refl stack) ?_ ?_
  · intro state
    refine (Grown.insertNulls _ state).trans (Grown.repeating
      (condition.grown layout blocks runtime fuel exits _ _ stack false)
      (body.grown layout blocks runtime fuel _ _ _ stack false false true)
      (next.grown layout blocks runtime fuel exits _ _ stack true) ?_ fuel _)
    exact fun state =>
      (Grown.insertNulls _ state).trans (Grown.unless_ clear (Grown.write _ _ _ _))
  · intro _ after _ _
    exact Refines.loop fits (round _) Layout.nulls_low Layout.nulls_low conditions (bodies _)
      (fun state => stepped exits _ _ stack true lands .null formed2 plain2 landing2 fits
        state)
      (body.grown layout blocks runtime fuel _ _ _ stack false false true)
      (next.grown layout blocks runtime fuel exits _ _ stack true)
      (condition.grown layout blocks runtime fuel exits _ _ stack false) fuel after

theorem Node.Refined.break_ {expression : Node F O}
    (given : expression.Refined layout blocks runtime fuel) :
    (Node.break_ expression).Refined layout blocks runtime fuel := by
  intro exits base privates stack tail operand clear lands branch top formed plain landing fits
    state kept
  obtain ⟨landed, landing⟩ := Bool.and_eq_true_iff.mp landing
  have part := given.apart exits base privates exits.breakStack exits.breakIsTail false
    exits.breakMustClear lands formed plain landing (fits.break_ landed) state
  rw [Node.isAsked_of_not_operand] at part
  exact Refines.break_ landed Layout.nulls_low fits part

theorem Node.Refined.continue_ :
    (Node.continue_ : Node F O).Refined layout blocks runtime fuel := by
  intro exits base privates stack tail operand clear lands branch top formed plain landing fits
    state kept
  exact fun _ => ⟨rfl, .continue_ landing (Framed.refl state)⟩

theorem Node.Refined.return_ {expression : Node F O}
    (given : expression.Refined layout blocks runtime fuel) :
    (Node.return_ expression).Refined layout blocks runtime fuel := by
  intro exits base privates stack tail operand clear lands branch top formed plain landing fits
    state kept
  have landed := (Bool.and_eq_true_iff.mp landing).1
  obtain ⟨plain, leaves⟩ := Bool.and_eq_true_iff.mp plain
  have part := given.apart exits base privates exits.returnStack exits.returnIsTail false false
    ⟨false, false, true⟩ formed plain leaves (fits.return_ landed) state
  rw [Node.isAsked_of_not_operand] at part
  exact Refines.return_ landed Layout.nulls_low fits part

theorem Node.Refined.try_ {body : Node F O} {catches : Catches F O} {finally_ : Optional F O}
    (tried : body.Refined layout blocks runtime fuel)
    (handled : catches.Refined layout blocks runtime fuel)
    (ended : finally_.Refined layout blocks runtime fuel) :
    (Node.try_ body catches finally_).Refined layout blocks runtime fuel := by
  intro exits base privates stack tail operand clear lands branch top formed plain landing fits
    state kept
  simp only [Node.isFormed, Node.isPlain, Node.lands, Bool.and_eq_true] at formed plain landing
  obtain ⟨⟨formed1, formed2⟩, formed3⟩ := formed
  obtain ⟨⟨plain1, plain2⟩, plain3⟩ := plain
  obtain ⟨⟨landing1, landing2⟩, landing3⟩ := landing
  rw [Node.isAsked_of_temporary rfl]
  simp only [Node.perform, Node.evaluate]
  have guarded := Guarded.intro exits stack
    (base + 1 + 1 + body.blocks + catches.blocks)
  have inside := fits.guarded guarded
  have bodies := fun state : State F O W => tried.apart _ (base + 1 + 1) (blocks base).out stack
    false false clear lands formed1 plain1 landing1 inside state
  simp only [Node.isAsked_of_not_operand] at bodies
  have clauses := fun thrown (state : State F O W) =>
    (handled _ (base + 1 + 1 + body.blocks)
      (body.after layout blocks (base + 1 + 1) (blocks base).out) stack clear lands formed2
      plain2 landing2 inside thrown
      (state.expose (catches.exposed layout blocks base (base + 1 + 1 + body.blocks)))).earlier
        inside (Framed.refl state)
  have finals := fun state : State F O W => ended Exits.none
    (base + 1 + 1 + body.blocks + catches.blocks + 1 + 1) (catches.after layout blocks
      (base + 1 + 1 + body.blocks) (body.after layout blocks (base + 1 + 1) (blocks base).out))
    (stack + 1) true ⟨false, false, false⟩ .null formed3 plain3 landing3
    (Fits.none (Nat.le_succ_of_le fits.above)) state
  rw [← State.store_insertNulls (layout.nulls privates (blocks base)) state]
  have cleared : Framed layout.privates stack state
      (state.insertNulls (layout.nulls privates (blocks base))) :=
    Framed.insertNulls Layout.nulls_low state
  refine Refines.earlier ?_ fits cleared
  exact Refines.attempting fits inside guarded (fun state => (bodies state).stays) clauses
    finals (Ways.rejoin fits)
    (fun thrown state => (Grown.expose _ state).trans
      (catches.grown layout blocks runtime fuel _ _ _ stack clear thrown _))
    (finally_.grown layout blocks runtime fuel _ _ _ _ true) _

theorem Node.Refined.throw_ {expression : Node F O}
    (given : expression.Refined layout blocks runtime fuel) :
    (Node.throw_ expression).Refined layout blocks runtime fuel := by
  intro exits base privates stack tail operand clear lands branch top formed plain landing fits
    state kept
  have part := given.apart exits base privates stack false false false lands formed plain landing
    fits state
  rw [Node.isAsked_of_not_operand] at part
  refine part.stays.bind fits (le_refl stack)
    Grown.refl ?_
  intro value after held _ _
  rw [← held rfl]
  exact ⟨rfl, .threw (Framed.refl after)⟩

theorem Node.Refined.symbolGet (resolved : Nat) (variable_ : Option Nat) (symbol : Nat) :
    (Node.symbolGet resolved variable_ symbol : Node F O).Refined layout blocks runtime fuel := by
  intro exits base privates stack tail operand clear lands branch top formed plain landing fits
    state kept
  cases variable_ with
  | none => exact ((Refines.deliver fits state _).imp (nofun : ∀ _ _, Ended false _ _ → _)).asks
  | some variable_ =>
      simp only [Node.perform, Node.evaluate, Store.get]
      cases shared : (layout.variableOf variable_).isShared with
      | true =>
          simp only [if_true]
          exact fun _ => ⟨State.store_write_high fits.above _ _,
            .normal (fun _ => State.slot_write _ _ _ _)
              (Framed.write stack _ _ (Or.inl (le_refl stack)))⟩
      | false =>
          have below := layout.bounded variable_ shared
          simp only [Bool.false_eq_true, if_false]
          have found : ∀ {middle : State F O W}, middle.store = state.store →
              (middle.read layout.privates (layout.variableOf variable_).index).Faithful →
              middle.slot (layout.variableOf variable_).index =
                state.store.locals (layout.variableOf variable_).index := by
            intro middle same faithful
            rw [faithful.slot below, same]
          have inside : ∀ slot ∈ [(layout.variableOf variable_).index],
              slot < layout.privates := by simpa using below
          have entered : Framed layout.privates stack state
              (state.know layout privates (layout.variableOf variable_).index) := by
            unfold State.know
            split
            · exact Framed.insertNulls inside state
            · exact Framed.refl state
          cases operand with
          | true =>
              refine fun _ => ⟨State.store_know _ _ _ state, .normal (fun asked => ?_) entered⟩
              have known : ((Node.symbolGet resolved (some variable_) symbol : Node F O).form
                  layout).isTemporary = false := by
                simp [Node.form, shared, Operand.isTemporary]
              exact absurd (Node.isAsked_of_known known asked).1 (by decide)
          | false =>
              cases tail with
              | true =>
                  intro faithful
                  have read := found (State.store_know _ _ _ state) faithful
                  refine ⟨?_, .ended ⟨rfl, read.symm⟩⟩
                  exact (State.store_read _ _ _).trans (State.store_know _ _ _ state)
              | false =>
                  intro faithful
                  have read := found (State.store_know _ _ _ state)
                    ((Grown.write _ _ _ _).faithful faithful)
                  refine ⟨?_, .normal (fun _ => (State.slot_write _ _ _ _).trans read) ?_⟩
                  · exact (State.store_write_high fits.above _ _).trans
                      ((State.store_read _ _ _).trans (State.store_know _ _ _ state))
                  · have passed := entered.trans (Framed.of_slot
                      (State.slot_read layout.privates (layout.variableOf variable_).index _))
                    exact passed.trans (Framed.write stack _ _ (Or.inl (le_refl stack)))

theorem Node.Refined.scopePut {outer variable_ : Nat} {value : Node F O}
    (given : value.Refined layout blocks runtime fuel) :
    (Node.scopePut outer variable_ value).Refined layout blocks runtime fuel := by
  intro exits base privates stack tail operand clear lands branch top formed plain landing fits
    state kept
  rw [Node.isAsked_of_temporary rfl]
  simp only [Node.perform, Node.evaluate, Store.put]
  cases shared : (layout.variableOf variable_).isShared with
  | true =>
      have part := given.apart exits base privates stack false false false lands formed plain
        landing fits state
      rw [Node.isAsked_of_not_operand] at part
      simp only [Bool.not_true, Bool.and_false, Bool.false_eq_true, if_false, if_true]
      refine part.stays.bind fits (le_refl stack) (fun state => Grown.setWorld _ state) ?_
      intro _ after held _ _
      rw [held rfl]
      exact ⟨rfl, .normal (fun _ => held rfl) (Framed.refl after)⟩
  | false =>
      have target := layout.bounded variable_ shared
      cases clear with
      | true =>
          have part := Node.operand_refines (given.apart exits base privates stack false true false
            lands formed plain landing fits state)
          rw [Node.evaluate_operand, Evaluated.bind_assoc]
          refine part.bind fits (le_refl stack)
            (Grown.assign (value.form layout)) ?_
          intro temporary after held _ faithful
          exact ⟨State.store_assign _ target held (fun _ => Node.form_low) faithful,
            .normal (absurd · Bool.false_ne_true) (Framed.assign _ target stack after)⟩
      | false =>
          have part := given.apart exits base privates stack false false false lands formed plain
            landing fits state
          rw [Node.isAsked_of_not_operand] at part
          refine part.stays.bind fits (le_refl stack)
            (Grown.assign .temporary) ?_
          intro temporary after held _ faithful
          have below : ∀ source, (.temporary : Operand F O) = .variable source →
              source < layout.privates := by
            intro _ absent
            cases absent
          refine ⟨State.store_assign .temporary target held below faithful,
            .normal (fun _ => ?_) (Framed.assign .temporary target stack after)⟩
          have kept : Framed layout.privates (stack + 1) after
              (after.assign layout.privates stack _ .temporary) :=
            Framed.assign .temporary target (stack + 1) after
          exact (kept stack fits.above (Nat.lt_succ_self stack)).trans (held rfl)

theorem Node.Refined.self (outer : Nat) :
    (Node.self outer : Node F O).Refined layout blocks runtime fuel := by
  intro exits base privates stack tail operand clear lands branch top formed plain landing fits
    state kept
  rw [Node.isAsked_of_temporary rfl]
  intro _
  cases clear with
  | true => exact ⟨rfl, .normal nofun (Framed.refl state)⟩
  | false =>
      exact ⟨State.store_write_high fits.above _ _, .normal (fun _ => State.slot_write _ _ _ _)
        (Framed.write stack _ _ (Or.inl (le_refl stack)))⟩

theorem Node.Refined.literal (literal : Literal F O) :
    (Node.literal literal : Node F O).Refined layout blocks runtime fuel := by
  intro exits base privates stack tail operand clear lands branch top formed plain landing fits
    state kept
  have known : ((Node.literal literal).form layout).isTemporary = false := by
    cases literal <;> rfl
  exact Refines.literally fits literal.value (Node.isAsked_of_known known) state

theorem Node.Refined.unary {op : Unary} {expression : Node F O}
    (given : expression.Refined layout blocks runtime fuel) :
    (Node.unary op expression).Refined layout blocks runtime fuel := by
  intro exits base privates stack tail operand clear lands branch top formed plain landing fits
    state kept
  have less := Nat.le_succ stack
  have part := Node.operand_refines (given.apart exits base privates (stack + 1) false true false
    lands formed plain landing (fits.lift less) state)
  simp only [Node.perform, Node.evaluate]
  refine part.bind fits less ?_ ?_
  · intro state
    split
    · exact Grown.literally _ _ _ _ _ _ state
    · exact (Grown.fetched _ _ state).trans (Grown.deliver _ _ _ _ _)
  · intro temporary after held _
    cases found : foldUnary op (expression.form layout) with
    | operand folded =>
        have constant := foldUnary_plain op _ folded found
        have known : ((Node.unary op expression).form layout).isTemporary = false := by
          simp only [Node.form, found]
          exact Operand.isTemporary_of_constant constant
        dsimp only
        rw [State.fetch_constant constant]
        exact Refines.literally fits _ (Node.isAsked_of_known known) after
    | _ =>
        dsimp only
        refine Refines.assume (Grown.deliver _ _ _ _ _) fun faithful => ?_
        rw [State.fetch_store held (fun index form => Node.form_low form) faithful]
        exact (Framed.of_slot (State.slot_fetched _ _ after)).delivers fits
          (State.store_fetched _ _ after) _

theorem Node.Refined.binary {op : Binary} {left right : Node F O}
    (former : left.Refined layout blocks runtime fuel)
    (latter : right.Refined layout blocks runtime fuel) :
    (Node.binary op left right).Refined layout blocks runtime fuel := by
  intro exits base privates stack tail operand clear lands branch top formed plain landing fits
    state kept
  simp only [Node.isFormed, Node.isPlain, Node.lands, Bool.and_eq_true] at formed plain landing
  have less : stack ≤ stack + 2 := Nat.le_add_right stack 2
  have part := Node.operand_refines (former.apart exits base privates (stack + 1) false true false
    lands formed.1 plain.1 landing.1 (fits.lift (Nat.le_succ stack)) state)
  simp only [Node.perform, Node.evaluate]
  refine part.bind fits (Nat.le_succ stack) ?_ ?_
  · intro state
    refine (right.grown layout blocks runtime fuel exits _ _ _ false true false state).andThen ?_
    intro state
    split
    · exact Grown.literally _ _ _ _ _ _ state
    · exact ((Grown.fetched _ _ state).trans (Grown.fetched _ _ _)).trans (Grown.deliver _ _ _ _ _)
  · intro temporary0 middle held0 _
    have other := Node.operand_refines (latter.apart exits (base + left.blocks)
      (left.after layout blocks base privates) (stack + 2) false true false lands
      formed.2 plain.2 landing.2 (fits.lift less) middle)
    refine other.bind fits less ?_ ?_
    · intro state
      split
      · exact Grown.literally _ _ _ _ _ _ state
      · exact ((Grown.fetched _ _ state).trans (Grown.fetched _ _ _)).trans
          (Grown.deliver _ _ _ _ _)
    intro temporary1 after held1 keeps
    cases found : foldBinary op (left.form layout) (right.form layout) with
    | operand folded =>
        have constant := foldBinary_plain op _ _ folded found
        have known : ((Node.binary op left right).form layout).isTemporary = false := by
          simp only [Node.form, found]
          exact Operand.isTemporary_of_constant constant
        dsimp only
        rw [State.fetch_constant constant]
        exact Refines.literally fits _ (Node.isAsked_of_known known) after
    | _ =>
        dsimp only
        refine Refines.assume (Grown.deliver _ _ _ _ _) fun faithful => ?_
        have last0 : (left.form layout).isTemporary = true →
            after.slot (stack + 1) = temporary0 := fun temporary =>
          (keeps (stack + 1) (Nat.le_succ_of_le fits.above) (Nat.lt_succ_self _)).trans
            (held0 temporary)
        have faithful0 := (Grown.fetched layout.privates (right.form layout)
          (after.fetched layout.privates (left.form layout))).faithful faithful
        have first := State.fetch_store last0 (fun index form => Node.form_low form) faithful0
        have slots := State.slot_fetched layout.privates (left.form layout) after
        have stores := State.store_fetched layout.privates (left.form layout) after
        have last1 : (right.form layout).isTemporary = true →
            (after.fetched layout.privates (left.form layout)).slot (stack + 2) = temporary1 :=
          fun temporary => (congrFun slots _).trans (held1 temporary)
        have second := State.fetch_store last1 (fun index form => Node.form_low form) faithful
        rw [slots, stores] at second
        have same : (after.fetched layout.privates (left.form layout)).fetch (right.form layout)
            (after.slot (stack + 2)) = after.fetch (right.form layout)
              (after.slot (stack + 2)) := State.fetch_of_slot slots _ _
        rw [first, same.symm.trans second]
        have entered : Framed layout.privates stack after _ :=
          (Framed.of_slot slots).trans (Framed.of_slot (State.slot_fetched layout.privates
            (right.form layout) _))
        have stays := (State.store_fetched layout.privates (right.form layout) _).trans stores
        have world : after.store.world = after.world := rfl
        rw [world]
        exact entered.delivers fits stays _

theorem Node.Refined.preserve :
    (Node.preserve : Node F O).Refined layout blocks runtime fuel := by
  intro exits base privates stack tail operand clear lands branch top formed plain landing fits
    state kept
  exact fun _ => ⟨rfl, .normal (fun _ => kept plain) (Framed.refl state)⟩

theorem Node.Refined.callVariable {target : Node F O} {arguments : Nodes F O}
    {expands : List Nat} {found : Nat × Variable}
    (each : arguments.ValuesRefined layout blocks runtime fuel)
    (called : target.called layout expands = some found) :
    (Node.call target arguments expands).Refined layout blocks runtime fuel := by
  intro exits base privates stack tail operand clear lands branch top formed plain landing fits
    state kept
  simp only [Node.isFormed, Node.isPlain, Node.lands, Bool.and_eq_true] at formed plain landing
  have less : stack ≤ stack + 2 := Nat.le_add_right stack 2
  rw [Node.isAsked_of_temporary rfl]
  obtain ⟨resolved, found⟩ := found
  obtain ⟨variable_, symbol, rfl, rfl⟩ := Node.called_some called
  have values := each exits
    (base + (Node.symbolGet resolved (some variable_) symbol : Node F O).blocks) privates
    (stack + 2) lands formed.2 plain.2 landing.2 (fits.lift less) state
  unfold Node.perform Node.evaluate
  simp only [called]
  refine values.bind fits less ?_ ?_
  · intro state
    split
    · exact (Grown.write _ _ _ state).trans (Grown.deliver _ _ _ _ _)
    · exact ((Grown.write _ _ _ state).trans (Grown.note _ _)).trans
        (Grown.deliver _ _ _ _ _)
  · intro values after held _
    exact State.call_refines fits after held

theorem Node.Refined.target {target : Node F O} (given : target.Refined layout blocks runtime fuel)
    (methods : ∀ action operands, target = .operate action operands →
      operands.ValuesRefined layout blocks runtime fuel) {exits : Exits} (base : Nat)
    (privates : Nat → Bool) {stack : Nat} {lands : Lands} (formed : target.isFormed = true)
    (plain : target.isPlain false = true) (landing : target.lands lands = true)
    (fits : Fits layout exits lands stack) (state : State F O W) :
    Refines layout exits lands stack (Called stack) Never state
      (target.performTarget layout blocks runtime fuel exits base privates stack state)
      (target.evaluateTarget layout runtime fuel state.store) := by
  have pushed := Node.pushed_refines fits (given.apart exits base privates stack false false false
    lands formed plain landing fits state)
  cases target with
  | operate action operands =>
      simp only [Node.isFormed, Node.isPlain, Node.lands, Bool.and_eq_true]
        at formed plain landing
      have values := methods action operands rfl exits base privates stack lands
        formed.2 plain landing fits state
      cases action with
      | objectGet key =>
          have arity : 1 = operands.length := by simpa [Action.arity] using formed.1
          exact Nodes.bound_refines fits arity values
      | getAt =>
          have arity : 2 = operands.length := by simpa [Action.arity] using formed.1
          exact Nodes.bound_refines fits arity values
      | _ => exact pushed
  | _ => exact pushed

theorem Node.Refined.call {target : Node F O} {arguments : Nodes F O} {expands : List Nat}
    (given : target.Refined layout blocks runtime fuel)
    (methods : ∀ action operands, target = .operate action operands →
      operands.ValuesRefined layout blocks runtime fuel)
    (each : arguments.ValuesRefined layout blocks runtime fuel)
    (called : target.called layout expands = none) :
    (Node.call target arguments expands).Refined layout blocks runtime fuel := by
  intro exits base privates stack tail operand clear lands branch top formed plain landing fits
    state kept
  simp only [Node.isFormed, Node.isPlain, Node.lands, Bool.and_eq_true] at formed plain landing
  have less : stack ≤ stack + 2 := Nat.le_add_right stack 2
  rw [Node.isAsked_of_temporary rfl]
  rw [Node.perform_call called, Node.evaluate_call called]
  have targeted := given.target methods base privates formed.1 plain.1 landing.1 fits state
  have arguments_ := fun after : State F O W => each exits
    (base + target.blocks) (target.after layout blocks base privates) (stack + 2) lands
    formed.2 plain.2 landing.2 (fits.lift less) after
  refine targeted.bind fits (le_refl stack) ?_ ?_
  · intro state
    exact (arguments.values_grown layout blocks runtime fuel exits _ _ _ state).andThen
      fun state => Grown.deliver _ _ _ _ _
  · rintro ⟨callee, self⟩ middle ⟨first, second⟩ _
    refine (arguments_ middle).bind fits less (fun state => Grown.deliver _ _ _ _ _) ?_
    rintro values after rfl keeps
    have first : after.slot stack = callee :=
      (keeps stack fits.above (by omega)).trans first
    have second : after.slot (stack + 1) = self :=
      (keeps (stack + 1) (Nat.le_succ_of_le fits.above) (by omega)).trans second
    dsimp only
    rw [← first, ← second]
    exact (Refines.deliver fits after _).asks

theorem Nodes.SequenceRefined.nil :
    (Nodes.nil : Nodes F O).SequenceRefined layout blocks runtime fuel := by
  intro exits base privates stack tail clear lands formed plain landing fits state _
  cases clear with
  | true => exact ⟨rfl, .normal nofun (Framed.refl state)⟩
  | false =>
      exact ⟨State.store_write_high fits.above _ _, .normal (fun _ => State.slot_write _ _ _ _)
        (Framed.write stack _ _ (Or.inl (le_refl stack)))⟩

theorem Nodes.SequenceRefined.cons {head : Node F O} {rest : Nodes F O}
    (former : head.Refined layout blocks runtime fuel)
    (latter : rest.SequenceRefined layout blocks runtime fuel) :
    (Nodes.cons head rest).SequenceRefined layout blocks runtime fuel := by
  intro exits base privates stack tail clear lands formed plain landing fits state
  simp only [Nodes.isFormed, Nodes.isPlain, Nodes.lands, Bool.and_eq_true]
    at formed plain landing
  simp only [Nodes.performSequence, Nodes.evaluateSequence]
  split
  · have part := former.apart exits base privates stack tail false clear lands formed.1 plain.1
      landing.1 fits state
    rw [Node.isAsked_of_not_operand] at part
    exact part
  · have part := former.apart exits base privates stack false false true lands formed.1 plain.1
      landing.1 fits state
    refine part.stays.bind fits (le_refl stack)
      (rest.sequence_grown layout blocks runtime fuel exits _ _ stack tail clear) ?_
    exact fun _ after _ _ => latter exits _ _ stack tail clear lands formed.2
      plain.2 landing.2 fits after

theorem Nodes.ValuesRefined.nil :
    (Nodes.nil : Nodes F O).ValuesRefined layout blocks runtime fuel := by
  intro exits base privates stack lands formed plain landing fits state
  exact Refines.normal rfl (Framed.refl state)

theorem Nodes.ValuesRefined.cons {head : Node F O} {rest : Nodes F O}
    (former : head.Refined layout blocks runtime fuel)
    (latter : rest.ValuesRefined layout blocks runtime fuel) :
    (Nodes.cons head rest).ValuesRefined layout blocks runtime fuel := by
  intro exits base privates stack lands formed plain landing fits state
  simp only [Nodes.isFormed, Nodes.isPlain, Nodes.lands, Bool.and_eq_true]
    at formed plain landing
  have next := fits.lift (Nat.le_succ stack)
  have part := former.apart exits base privates stack false false false lands formed.1 plain.1
    landing.1 fits state
  rw [Node.isAsked_of_not_operand] at part
  refine part.stays.bind fits (le_refl stack)
    (rest.values_grown layout blocks runtime fuel exits _ _ _) ?_
  intro value after held _
  have others := latter exits (base + head.blocks)
    (head.after layout blocks base privates) (stack + 1) lands formed.2 plain.2 landing.2 next
    after
  refine others.collect fits (Nat.le_succ stack) ?_
  rintro values last rfl keeps
  rw [Nodes.length, State.operands_succ, keeps stack fits.above (Nat.lt_succ_self stack),
    held rfl]

theorem Catches.Refined.nil :
    (Catches.nil : Catches F O).Refined layout blocks runtime fuel := by
  intro exits base privates stack clear lands formed plain landing fits thrown state
  exact fun _ => ⟨rfl, .threw (Framed.refl state)⟩

theorem Catches.Refined.cons {expression body : Node F O} {variable_ : Nat} {tail : Catches F O}
    (asked : expression.Refined layout blocks runtime fuel)
    (handled : body.Refined layout blocks runtime fuel)
    (others : tail.Refined layout blocks runtime fuel) :
    (Catches.cons expression variable_ body tail).Refined layout blocks runtime fuel := by
  intro exits base privates stack clear lands formed plain landing fits thrown state
  simp only [Catches.isFormed, Catches.isPlain, Catches.lands, Bool.and_eq_true]
    at formed plain landing
  obtain ⟨⟨formed1, formed2⟩, formed3⟩ := formed
  obtain ⟨⟨plain1, plain2⟩, plain3⟩ := plain
  obtain ⟨⟨landing1, landing2⟩, landing3⟩ := landing
  simp only [Catches.perform, Catches.evaluate]
  have part := asked.apart exits (base + 1) privates stack false false false lands formed1 plain1
    landing1 fits state
  rw [Node.isAsked_of_not_operand] at part
  refine part.stays.bind fits (le_refl stack) ?_ ?_
  · intro state
    split
    · exact Grown.setWorld _ state
    · exact (Grown.setWorld _ state).trans
        (tail.grown layout blocks runtime fuel exits _ _ stack clear thrown _)
    · refine Grown.trans ?_
        (body.grown layout blocks runtime fuel exits _ _ stack false false clear _)
      split
      · exact Grown.setWorld _ state
      · exact (Grown.setWorld _ state).trans (Grown.write _ _ _ _)
  · intro type after held _
    have world : after.store.world = after.world := rfl
    rw [world, held rfl]
    generalize runtime.catches thrown type after.world = result
    rcases result with ⟨result, world⟩
    cases result with
    | error other => exact fun _ => ⟨rfl, .threw (Framed.refl after)⟩
    | ok taken =>
        cases taken with
        | false =>
            have moved : Framed layout.privates stack after (after.setWorld world) :=
              Framed.refl after
            exact (others exits _ _ stack clear lands formed3 plain3 landing3 fits thrown
              (after.setWorld world)).earlier fits moved
        | true =>
            have part := handled.apart exits (base + 1 + expression.blocks + 1)
              (expression.after layout blocks (base + 1) privates) stack false false clear lands
              formed2 plain2 landing2 fits (after.caught layout runtime variable_ thrown world)
            rw [Node.isAsked_of_not_operand, State.store_caught] at part
            exact part.stays.earlier fits (Framed.caught runtime variable_ thrown world after)

theorem Optional.Refined.none :
    (Optional.none : Optional F O).Refined layout blocks runtime fuel := by
  intro exits base privates stack clear lands default formed plain landing fits state
  exact Refines.normal rfl (Framed.refl state)

theorem Optional.Refined.some {node : Node F O}
    (given : node.Refined layout blocks runtime fuel) :
    (Optional.some node).Refined layout blocks runtime fuel := by
  intro exits base privates stack clear lands default formed plain landing fits state
  have part := given.apart exits base privates stack false false clear lands formed plain landing
    fits state
  rw [Node.isAsked_of_not_operand] at part
  exact part.stays

end Refined

variable (runtime fuel)

mutual

theorem Node.refines : ∀ node : Node F O, node.Refined layout blocks runtime fuel
  | .nodes items => .nodes (Nodes.sequence_refines items)
  | .operate _ operands => .operate (Nodes.values_refine operands)
  | .if_ condition true_ false_ =>
      .if_ (Optional.refines condition) (Node.refines true_) (Node.refines false_)
  | .while_ condition body => .while_ (Optional.refines condition) (Node.refines body)
  | .for_ initialization condition next body =>
      .for_ (Optional.refines initialization) (Optional.refines condition)
        (Optional.refines next) (Node.refines body)
  | .break_ expression => .break_ (Node.refines expression)
  | .continue_ => .continue_
  | .return_ expression => .return_ (Node.refines expression)
  | .try_ body catches finally_ =>
      .try_ (Node.refines body) (Catches.refines catches) (Optional.refines finally_)
  | .throw_ expression => .throw_ (Node.refines expression)
  | .symbolGet resolved variable_ symbol => .symbolGet resolved variable_ symbol
  | .scopePut _ _ value => .scopePut (Node.refines value)
  | .self outer => .self outer
  | .literal literal => .literal literal
  | .unary _ expression => .unary (Node.refines expression)
  | .binary _ left right => .binary (Node.refines left) (Node.refines right)
  | .preserve => .preserve
  | .call target arguments expands => by
      have each := Nodes.values_refine arguments
      cases called : target.called layout expands with
      | some found => exact .callVariable each called
      | none =>
          refine .call (Node.refines target) ?_ each called
          rintro action operands rfl
          exact Nodes.values_refine operands
  termination_by tree => sizeOf tree

theorem Nodes.sequence_refines :
    ∀ nodes : Nodes F O, nodes.SequenceRefined layout blocks runtime fuel
  | .nil => .nil
  | .cons head rest => .cons (Node.refines head) (Nodes.sequence_refines rest)
  termination_by tree => sizeOf tree

theorem Nodes.values_refine : ∀ nodes : Nodes F O, nodes.ValuesRefined layout blocks runtime fuel
  | .nil => .nil
  | .cons head rest => .cons (Node.refines head) (Nodes.values_refine rest)
  termination_by tree => sizeOf tree

theorem Catches.refines : ∀ catches : Catches F O, catches.Refined layout blocks runtime fuel
  | .nil => .nil
  | .cons expression _ body tail =>
      .cons (Node.refines expression) (Node.refines body) (Catches.refines tail)
  termination_by tree => sizeOf tree

theorem Optional.refines :
    ∀ optional : Optional F O, optional.Refined layout blocks runtime fuel
  | .none => .none
  | .some node => .some (Node.refines node)
  termination_by tree => sizeOf tree

end

end Trees

section Scopes

variable {F O W : Type} {scope : Scope F O} {runtime : Runtime F O W}

/-- The callee that a read is of was known to be initialised. -/
def Access.Known : Access F O → Prop
  | .callee _ known _ _ => known = true
  | _ => True

def Instr.isKnown : Instr F O → Bool
  | .call (.slot _ known) _ _ _ _ => known
  | _ => true

theorem Instr.fair {instruction : Instr F O} (exposes : instruction.exposes = [])
    (known : instruction.isKnown = true) :
    instruction.Fair fun access => access.Admitted ∧ access.Known := by
  refine ⟨exposes, ?_⟩
  rintro index knows tail stack count expands rfl found last
  exact ⟨trivial, known⟩

theorem Access.faithful {access : Access F O} (sound : access.Sound) (known : access.Known) :
    access.Faithful := by
  cases access with
  | read index found last => exact sound
  | callee index knows found last => exact sound known
  | _ => trivial

theorem State.store_share (privates index : Nat) (state : State F O W) :
    (state.share runtime privates index).store = state.store.setWorld
      (runtime.scopePut 0 index (state.slot privates) state.store.world) := rfl

theorem Scope.receives_store (inside : scope.layout.arguments ≤ scope.layout.privates) :
    ∀ (count : Nat) (parameters : List Nat) (state : State F O W),
      count + parameters.length ≤ scope.layout.arguments → Entered scope.layout state →
      ((parameters.zipIdx count).foldl (scope.receive runtime) state).store =
        (parameters.zipIdx count).foldl (scope.accept runtime) state.store := by
  intro count parameters
  induction parameters generalizing count with
  | nil => exact fun _ _ _ => rfl
  | cons parameter parameters induction =>
      intro state few entered
      simp only [List.length_cons] at few
      have argument : count < scope.layout.arguments := by omega
      have received : Entered scope.layout (scope.receive runtime state (parameter, count)) :=
        Scope.receives_entered count [parameter] state (by simp only [List.length_singleton]; omega)
          entered
      have same : (scope.receive runtime state (parameter, count)).store =
          scope.accept runtime state.store (parameter, count) := by
        unfold Scope.receive Scope.accept
        dsimp only
        split
        · have found := entered.slot count (by omega) (entered.argument count argument)
          have stays : (state.copy scope.layout.privates count scope.layout.privates).store =
              state.store :=
            (State.store_write_high (le_refl _) _ _).trans (State.store_read _ _ state)
          have top : (state.copy scope.layout.privates count scope.layout.privates).slot
              scope.layout.privates = state.slot count := State.slot_write _ _ _ _
          rw [State.store_share, stays, top, found]
          rfl
        · rfl
      rw [List.zipIdx_cons, List.foldl_cons, List.foldl_cons, ← same]
      exact induction (count + 1) _ (by omega) received

theorem Scope.enter_store (inside : scope.layout.arguments ≤ scope.layout.privates)
    (few : scope.parameters.length ≤ scope.layout.arguments) {state : State F O W}
    (entered : Entered scope.layout state) :
    (scope.enter runtime state).store = scope.evaluateEntry runtime state.store := by
  unfold Scope.enter Scope.evaluateEntry
  have less : 0 + scope.parameters.length ≤ scope.layout.arguments := by omega
  split
  · have written := (entered.temporary (le_refl _) runtime.self).share runtime
      scope.layout.privates 0
    have stays := State.store_write_high (le_refl scope.layout.privates) runtime.self state
    have top : (state.write scope.layout.privates scope.layout.privates runtime.self).slot
        scope.layout.privates = runtime.self := State.slot_write _ _ _ _
    rw [Scope.receives_store inside 0 scope.parameters _ less written, State.store_share, stays,
      top]
  · exact Scope.receives_store inside 0 scope.parameters state less entered

variable [Double F]

theorem Scope.fits (scope : Scope F O) :
    Fits scope.layout scope.jumps.toExits scope.jumps.lands scope.layout.privates := by
  unfold Scope.jumps
  split <;> exact ⟨le_refl _, ⟨fun _ => le_refl _, fun _ => le_refl _⟩, fun _ => le_refl _,
    fun _ => le_refl _, fun _ => le_refl _, fun _ _ => le_refl _⟩

/-- Where every read has been faithful, the structured run of a scope is its evaluation. -/
theorem Scope.perform_means {code : List (Instr F O)} (formed : scope.body.isFormed = true)
    (plain : scope.body.isPlain false = true) (compiled : scope.compile = some code)
    (inside : scope.layout.arguments ≤ scope.layout.privates)
    (few : scope.parameters.length ≤ scope.layout.arguments) {state : State F O W}
    (entry : Entry scope.layout state) (fuel : Nat)
    (faithful : (scope.performBody runtime fuel state).2.Faithful) :
    (scope.perform runtime fuel state).map (fun (result, after) => (result, after.store)) =
      scope.evaluate runtime fuel state.store := by
  obtain ⟨final, emitted, rfl⟩ := Option.map_eq_some_iff.mp compiled
  obtain ⟨form, state1, body, _⟩ := Scope.emit_cases emitted
  have landing := scope.body.lands_of_emit _ _ _ _ _ _ _ body
  have bodies : Refines scope.layout scope.jumps.toExits scope.jumps.lands scope.layout.privates
      (Holds scope.isLambda scope.layout.privates) (Ended scope.isLambda)
      (scope.enter runtime state) (scope.performBody runtime fuel state)
      (scope.body.evaluate scope.layout runtime fuel .null
        (scope.evaluateEntry runtime state.store)) := by
    have part : Refines scope.layout scope.jumps.toExits scope.jumps.lands scope.layout.privates
        (Holds (scope.body.isAsked scope.layout false (!scope.isLambda)) scope.layout.privates)
        (Ended scope.isLambda) (scope.enter runtime state) (scope.performBody runtime fuel state)
        _ :=
      scope.body.refines runtime fuel scope.jumps.toExits 2 (fun _ => false) scope.layout.privates
        scope.isLambda false (!scope.isLambda) scope.jumps.lands false .null formed plain landing
        scope.fits (scope.enter runtime state) nofun
    rw [Scope.enter_store inside few entry.entered, Node.isAsked_of_not_operand, Bool.not_not]
      at part
    exact part
  unfold Scope.perform Scope.evaluate
  obtain ⟨same, tells⟩ := bodies faithful
  generalize scope.body.evaluate scope.layout runtime fuel .null _ = evaluated at same tells ⊢
  generalize scope.performBody runtime fuel state = ending at same tells ⊢
  rcases ending with ⟨completion, after⟩
  rcases evaluated with ⟨conclusion, store⟩
  obtain rfl : after.store = store := same
  have lambda_ : scope.jumps.lands.return_ = true → scope.isLambda = true := by
    unfold Scope.jumps
    split
    · exact fun _ => ‹_›
    · exact nofun
  have height : scope.jumps.toExits.returnStack = scope.layout.privates := by
    unfold Scope.jumps
    split <;> rfl
  cases tells with
  | normal held keeps =>
      cases isLambda : scope.isLambda with
      | true => simpa [Scope.result, Scope.conclude, isLambda] using held isLambda
      | false => simp [Scope.result, Scope.conclude, isLambda]
  | ended ended =>
      obtain ⟨isLambda, rfl⟩ := ended
      simp [Scope.result, Scope.conclude, isLambda]
  | break_ landed held keeps => rfl
  | breakEnded landed isTail =>
      unfold Scope.jumps at landed
      split at landed <;> exact absurd landed nofun
  | continue_ landed keeps => rfl
  | return_ landed held keeps =>
      rw [height] at held
      simpa [Scope.result, Scope.conclude, lambda_ landed] using held
  | returnEnded landed isTail => simp [Scope.result, Scope.conclude, lambda_ landed]
  | threw keeps => rfl
  | timeout => rfl

/-- Where the code exposes nothing and calls only what is known to be initialised, the structured
run of a scope is its evaluation. -/
theorem Scope.means (runtime : Runtime F O W) {code : List (Instr F O)}
    (formed : scope.body.isFormed = true)
    (plain : scope.body.isPlain false = true) (compiled : scope.compile = some code)
    (own : ∀ instruction ∈ code, instruction.exposes = [] ∧ instruction.isKnown = true)
    (inside : scope.layout.arguments ≤ scope.layout.privates)
    (few : scope.parameters.length ≤ scope.layout.arguments) {state : State F O W}
    (entry : Entry scope.layout state) (fuel : Nat) :
    (scope.perform runtime fuel state).map (fun (result, after) => (result, after.store)) =
      scope.evaluate runtime fuel state.store := by
  have lenient : Lenient fun access : Access F O => access.Admitted ∧ access.Known :=
    ⟨fun _ _ _ => ⟨trivial, trivial⟩, fun _ _ => ⟨trivial, trivial⟩⟩
  obtain ⟨_, m, later⟩ := Scope.log_covered runtime formed compiled fuel state
  have fair := Scope.run_keeps runtime lenient
    (fun instruction member => Instr.fair (own instruction member).1 (own instruction member).2)
    entry m
  have sound := Scope.performBody_sound runtime compiled few entry fuel
    fun access member => (fair access (later access member)).1
  refine Scope.perform_means formed plain compiled inside few entry fuel ?_
  intro access member
  exact Access.faithful (sound access member) (fair access (later access member)).2

/-- The code of a scope returns or throws if and only if its evaluation does, and with the same
value, the same variables and the same world. -/
theorem Scope.run_means {code : List (Instr F O)} (formed : scope.body.isFormed = true)
    (plain : scope.body.isPlain false = true) (compiled : scope.compile = some code)
    (own : ∀ instruction ∈ code, instruction.exposes = [] ∧ instruction.isKnown = true)
    (inside : scope.layout.arguments ≤ scope.layout.privates)
    (few : scope.parameters.length ≤ scope.layout.arguments) {state : State F O W}
    (entry : Entry scope.layout state) (result : Result F O) (store : Store F O W) :
    (∃ n after, scope.run runtime code n state = .done result after ∧ after.store = store) ↔
      ∃ fuel, scope.evaluate runtime fuel state.store = some (result, store) := by
  have means : ∀ fuel, (scope.perform runtime fuel state).map _ = _ :=
    Scope.means runtime formed plain compiled own inside few entry
  constructor
  · rintro ⟨n, after, ended, rfl⟩
    have performed := Scope.performed_of_done formed compiled ended
    exact ⟨n, by rw [← means n, performed]; rfl⟩
  · rintro ⟨fuel, evaluated⟩
    rw [← means fuel, Option.map_eq_some_iff] at evaluated
    obtain ⟨⟨result, after⟩, performed, same⟩ := evaluated
    cases same
    obtain ⟨n, ended⟩ := Scope.run_of_performed formed compiled performed
    exact ⟨n, after, ended, rfl⟩

theorem escape_means : ∃ n after,
    escape.run idle (escape.compile.getD []) n (called (.boolean true)) =
      .done (.returned (.integer 7)) after ∧
    after.store = ⟨Function.update (called (.boolean true)).assigned 0 .null, ()⟩ := by
  have evaluated : escape.evaluate idle 1 (called (.boolean true)).store =
      some (.returned (.integer 7),
        ⟨Function.update (called (.boolean true)).assigned 0 .null, ()⟩) := rfl
  exact (Scope.run_means rfl rfl rfl (by decide) (by decide) (by decide) (called_entry _ rfl) _
    _).mpr ⟨1, evaluated⟩

theorem Entry.store_eq {layout : Layout} {first second : State F O W} (entry : Entry layout first)
    (other : Entry layout second)
    (arguments : ∀ index, index < layout.arguments → second.slot index = first.slot index)
    (world : second.world = first.world) : second.store = first.store := by
  have assigned : second.assigned = first.assigned := by
    funext index
    rcases Nat.lt_or_ge index layout.arguments with below | above
    · rw [other.argument index below, entry.argument index below, arguments index below]
    · rw [other.unassigned index above, entry.unassigned index above]
  exact congrArg₂ Store.mk assigned world

/-- The slots of a new frame need not be cleared: how a run ends depends only on the arguments and
the world. -/
theorem Scope.run_uncleared {code : List (Instr F O)} (formed : scope.body.isFormed = true)
    (plain : scope.body.isPlain false = true) (compiled : scope.compile = some code)
    (own : ∀ instruction ∈ code, instruction.exposes = [] ∧ instruction.isKnown = true)
    (inside : scope.layout.arguments ≤ scope.layout.privates)
    (few : scope.parameters.length ≤ scope.layout.arguments) {first second : State F O W}
    (entry : Entry scope.layout first) (other : Entry scope.layout second)
    (arguments : ∀ index, index < scope.layout.arguments → second.slot index = first.slot index)
    (world : second.world = first.world) (n : Nat) (result : Result F O) (after : State F O W)
    (ended : scope.run runtime code n first = .done result after) :
    ∃ m last, scope.run runtime code m second = .done result last ∧ last.store = after.store := by
  have performed := Scope.performed_of_done formed compiled ended
  have means := Scope.means runtime formed plain compiled own inside few entry n
  rw [performed, ← entry.store_eq other arguments world,
    ← Scope.means runtime formed plain compiled own inside few other n] at means
  obtain ⟨⟨result, last⟩, again, same⟩ := Option.map_eq_some_iff.mp means.symm
  obtain ⟨rfl, stores⟩ := Prod.mk.inj same
  obtain ⟨m, ended⟩ := Scope.run_of_performed formed compiled again
  exact ⟨m, last, ended, stores⟩

/-- The frame of a call with one argument, the rest of which holds anything. -/
def calledOver (argument rest : Value Int Unit) : State Int Unit Unit :=
  { called argument with slot := Function.update (fun _ => rest) 0 argument }

theorem calledOver_entry (argument rest : Value Int Unit) {layout : Layout}
    (one : layout.arguments = 1) : Entry layout (calledOver argument rest) where
  written := (called_entry argument one).written
  argument index below := by
    rw [one, Nat.lt_one_iff] at below
    subst below
    exact ((called_entry argument one).argument 0 (by omega)).trans rfl
  unassigned := (called_entry argument one).unassigned
  log := rfl

theorem escape_uncleared : ∃ m last,
    escape.run idle (escape.compile.getD []) m (calledOver (.boolean true) (.integer 5)) =
      .done (.returned (.integer 7)) last := by
  obtain ⟨after, ended⟩ : ∃ after, escape.run idle (escape.compile.getD []) 20
      (called (.boolean true)) = .done (.returned (.integer 7)) after := ⟨_, rfl⟩
  obtain ⟨m, last, again, _⟩ := Scope.run_uncleared rfl rfl rfl (by decide) (by decide) (by decide)
    (called_entry _ rfl) (calledOver_entry (.boolean true) (.integer 5) rfl)
    (fun index below => by rw [Nat.lt_one_iff.mp below]; rfl) rfl 20 _ after ended
  exact ⟨m, last, again⟩

end Scopes

end Xemmai
