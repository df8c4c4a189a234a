import Xemmai.Execution

/-!
# Initialisation along a run

A read finds what has last been assigned to its variable, and a null that the
emitter inserts replaces nothing, on every path through a tree: what a part
leads to at its end follows from what its parts lead to.
-/

namespace Xemmai

set_option autoImplicit false
set_option linter.unusedSectionVars false

open Flow

section Guidance

variable {F O W : Type} (layout : Layout) (blocks : Nat → Block)

/-- From a point of the graph, a part leads to another one. -/
def Guides (exits : Exits) (lands : Lands) (first second : Flow) (p q settled : Nat → Bool)
    (perform : State F O W → Ending F O W) : Prop :=
  ∀ state, Reached layout blocks first p state →
    Meets (Leads layout blocks exits lands second q settled) (perform state)

variable {layout blocks}
variable {exits : Exits} {lands : Lands} {first second third : Flow}
variable {p q r settled goal : Nat → Bool}

namespace Guides

theorem andThen {perform rest : State F O W → Ending F O W} (other : Nat → Bool)
    (left : Guides layout blocks exits lands first second p q settled perform)
    (wider : ∀ slot ∈ layout.locals, Known blocks second slot → Known blocks third slot)
    (grown : ∀ state, Grown state (rest state).2)
    (right : ∀ state, Reached layout blocks second q state →
      (∀ slot ∈ layout.locals, settled slot = true → state.written slot = true) →
      Meets (Leads layout blocks exits lands third r other) (rest state))
    (either : ∀ slot, goal slot = true → settled slot = true ∨ other slot = true) :
    Guides layout blocks exits lands first third p r goal fun state =>
      Xemmai.andThen (perform state) rest := by
  intro state reached
  refine Leads.andThen (left state reached) wider grown ?_
  intro after _ arrived written
  exact Leads.settle (right after arrived written) (grown after) written either

theorem then_ {perform rest : State F O W → Ending F O W}
    (left : Guides layout blocks exits lands first second p q settled perform)
    (wider : ∀ slot ∈ layout.locals, Known blocks second slot → Known blocks third slot)
    (grown : ∀ state, Grown state (rest state).2)
    (right : ∀ state, Reached layout blocks second q state →
      (∀ slot ∈ layout.locals, settled slot = true → state.written slot = true) →
      Meets (Leads layout blocks exits lands third r fun _ => false) (rest state)) :
    Guides layout blocks exits lands first third p r settled fun state =>
      Xemmai.andThen (perform state) rest :=
  left.andThen (fun _ => false) wider grown right fun _ => Or.inl

end Guides

theorem Known.jump {flow : Flow} {slot : Nat} (target : Option Nat) :
    Known blocks (flow.jump target) slot ↔ Known blocks flow slot := by
  cases target <;> exact Iff.rfl

theorem Placed.jump {targets : Targets} {target : Option Nat}
    (placed : Placed layout blocks exits targets first (second.jump target) p) :
    Placed layout blocks exits targets first second p := by
  cases target <;> exact ⟨placed.visited, placed.joined, placed.bounded, placed.exposed⟩

theorem Flow.Drawn.jump {bound : Nat} {flow : Flow} (drawn : Drawn bound flow)
    (target : Option Nat) : Drawn bound (flow.jump target) := by
  cases target with
  | none => exact drawn
  | some block => exact drawn.next block

theorem Flow.Junction.start {graph : Flow} {block target : Nat} {flow : Flow}
    (junction : Junction block target graph) (analyzed : Analyzed layout graph blocks)
    (visited : (blocks block).forward = true) :
    ∀ slot ∈ layout.locals, (blocks block).out slot = true →
      Known blocks (flow.enter target) slot := by
  intro slot member present
  exact Or.inr ((junction.known analyzed visited).2 slot member
    ((junction.out analyzed slot).mp present))

theorem Flow.Leaves.start {graph : Flow} {target : Nat} {flow third : Flow}
    {privates : Nat → Bool} (leaves : Leaves flow target graph)
    (analyzed : Analyzed layout graph blocks) (visited : (blocks flow.current).forward = true)
    (bounded : ∀ slot ∈ layout.locals, privates slot = true → Known blocks flow slot) :
    ∀ slot ∈ layout.locals, privates slot = true → Known blocks (third.enter target) slot := by
  intro slot member present
  exact Or.inr ((leaves.known analyzed visited).2 slot member (bounded slot member present))

theorem State.read_of_high {privates index : Nat} (high : privates ≤ index)
    (state : State F O W) : state.read privates index = state := by
  rw [State.read, if_neg (Nat.not_lt.mpr high)]

theorem State.copy_of_high {privates source target : Nat} (high : privates ≤ source)
    (state : State F O W) :
    state.copy privates source target = state.write privates target (state.slot source) := by
  rw [State.copy, State.read_of_high high]

end Guidance

section Constructs

variable {F O W : Type} {layout : Layout} {graph : Flow} {blocks : Nat → Block}
variable {exits : Exits} {lands : Lands}

theorem Layout.nulls_congr {p q : Nat → Bool} (same : ∀ slot ∈ layout.locals, p slot = q slot)
    (junction : Block) : layout.nulls p junction = layout.nulls q junction := by
  unfold Layout.nulls
  refine List.filter_congr ?_
  intro slot member
  rw [same slot member]

/-- What a part takes as initialised is what is taken before it, if nothing else can be known
after it. -/
theorem Passage.same {first second : Flow} {p q : Nat → Bool}
    (passage : Passage layout blocks first second p q)
    (visited : (blocks first.current).forward = true)
    (bounded : ∀ slot ∈ layout.locals, p slot = true → Known blocks first slot)
    (full : ∀ slot ∈ layout.locals, Known blocks second slot → p slot = true) :
    ∀ slot ∈ layout.locals, q slot = p slot := by
  intro slot member
  rw [Bool.eq_iff_iff]
  constructor
  · intro present
    exact full slot member (passage.bounded visited bounded slot member present)
  · exact passage.keeps visited bounded slot member

theorem Leads.fewer {flow : Flow} {privates settled goal : Nat → Bool} {ending : Ending F O W}
    (meets : Meets (Leads layout blocks exits lands flow privates settled) ending)
    (fewer : ∀ slot, goal slot = true → settled slot = true) :
    Meets (Leads layout blocks exits lands flow privates goal) ending := by
  intro admitted
  have leads := meets admitted
  rcases ending with ⟨completion, after⟩
  cases completion with
  | normal =>
      exact ⟨leads.1, fun slot member present => leads.2 slot member (fewer slot present)⟩
  | _ => exact leads

theorem Reached.recast {flow : Flow} {p q : Nat → Bool} {state : State F O W}
    (reached : Reached layout blocks flow p state)
    (same : ∀ slot ∈ layout.locals, q slot = p slot) : Reached layout blocks flow q state where
  toSound := reached.toSound
  live slot member present := reached.live slot member (same slot member ▸ present)
  assigned slot member assigned := by
    rw [same slot member]
    exact reached.assigned slot member assigned

theorem Guides.if_ {blockTrue blockFalse junction : Nat} {flow flow1 flow3 flow5 : Flow}
    {privates p1 p3 p5 settled settled3 settled5 : Nat → Bool}
    {condition true_ false_ : State F O W → Ending F O W} {holds : State F O W → Bool}
    (analyzed : Analyzed layout graph blocks)
    (points : IfGraph graph blockTrue blockFalse junction flow1
      (((flow1.next blockTrue).next blockFalse).enter blockTrue) flow3
      ((flow3.next junction).enter blockFalse) flow5)
    (joined : Joined blocks (junction + 1))
    (visited : (blocks flow1.current).forward = true)
    (bounded : ∀ slot ∈ layout.locals, p1 slot = true → Known blocks flow1 slot)
    (passage3 : Passage layout blocks (((flow1.next blockTrue).next blockFalse).enter blockTrue)
      flow3 p1 p3)
    (passage5 : Passage layout blocks ((flow3.next junction).enter blockFalse) flow5 p1 p5)
    (conditions : Guides layout blocks exits lands flow flow1 privates p1 settled condition)
    (truths : Guides layout blocks exits lands
      (((flow1.next blockTrue).next blockFalse).enter blockTrue) flow3 p1 p3 settled3 true_)
    (falsehoods : Guides layout blocks exits lands ((flow3.next junction).enter blockFalse) flow5
      p1 p5 settled5 false_)
    (grown3 : ∀ state, Grown state (true_ state).2)
    (grown5 : ∀ state, Grown state (false_ state).2) :
    Guides layout blocks exits lands flow
      (((flow5.next junction).link junction (junction + 1)).enter (junction + 1)) privates
      (blocks junction).out (fun slot => settled slot || (settled3 slot && settled5 slot))
      fun state => Xemmai.andThen (condition state) fun state =>
        if holds state then
          Xemmai.andThen (true_ state) fun state =>
            (.normal, state.insertNulls (layout.nulls p3 (blocks junction)))
        else
          Xemmai.andThen (false_ state) fun state =>
            (.normal, state.insertNulls (layout.nulls p5 (blocks junction))) := by
  have before := points.exit.live analyzed joined
  have left := points.leaves3.live analyzed before.1
  have right := points.leaves4.live analyzed before.1
  have truth := points.leaves1.known analyzed visited
  have falsehood := points.leaves2.known analyzed visited
  have start : Passage layout blocks flow1 flow3 p1 p3 :=
    ((Passage.refl flow1 p1).enter analyzed points.leaves1 _).trans passage3
  have wider := (start.merge analyzed points.leaves3 points.exit
    ((flow5.next junction).link junction (junction + 1))).known visited
  refine conditions.andThen (fun slot => settled3 slot && settled5 slot) wider ?_ ?_ ?_
  · intro state
    split
    · exact (grown3 state).andThen fun state => Grown.insertNulls _ state
    · exact (grown5 state).andThen fun state => Grown.insertNulls _ state
  · intro state reached _
    split
    · have entered : Reached layout blocks
          (((flow1.next blockTrue).next blockFalse).enter blockTrue) p1 state :=
        reached.enter analyzed points.leaves1 (passage3.joined left.1)
          (points.condition.fresh blockTrue (le_refl _))
      have bounded3 := passage3.bounded truth.1 fun slot member present =>
        Or.inr (truth.2 slot member (bounded slot member present))
      refine Leads.fewer (Leads.branch analyzed (truths state entered) points.leaves3 points.exit
        (passage3.visited truth.1) bounded3 joined (points.falseEnd.fresh _ (Nat.le_succ _))) ?_
      exact fun slot both => (Bool.and_eq_true_iff.mp both).1
    · have entered : Reached layout blocks ((flow3.next junction).enter blockFalse) p1 state :=
        reached.enter analyzed points.leaves2 (passage5.joined right.1)
          (points.trueEnd.fresh blockFalse (le_refl _))
      have bounded5 := passage5.bounded falsehood.1 fun slot member present =>
        Or.inr (falsehood.2 slot member (bounded slot member present))
      refine Leads.fewer (Leads.branch analyzed (falsehoods state entered) points.leaves4
        points.exit (passage5.visited falsehood.1) bounded5 joined
        (points.falseEnd.fresh _ (Nat.le_succ _))) ?_
      exact fun slot both => (Bool.and_eq_true_iff.mp both).2
  · intro slot present
    exact Bool.or_eq_true_iff.mp present

/-- A loop from its junction on; `past` is where a round comes to its third part. -/
theorem Guides.loop {junction blockBody junctionExit stack : Nat} {clear : Bool}
    {flow0 flow2 flow4 third1 third3 third5 : Flow} {inner : Exits} {innerLands : Lands}
    {p0 p1 p2 p3 settled ignored : Nat → Bool} {condition body next : State F O W → Ending F O W}
    {holds : State F O W → Bool} (past : State F O W → Prop)
    (analyzed : Analyzed layout graph blocks) (leaves1 : Leaves flow0 junction graph)
    (enter : Junction junction (junction + 1) graph) (leaves2 : Leaves flow2 blockBody graph)
    (leaves3 : Leaves flow2 junctionExit graph)
    (exit : Junction junctionExit (junctionExit + 1) graph)
    (fresh1 : third1.blocks (junction + 1) = .empty) (fresh3 : third3.blocks blockBody = .empty)
    (fresh5 : third5.blocks (junctionExit + 1) = .empty)
    (visited : (blocks flow0.current).forward = true)
    (bounded : ∀ slot ∈ layout.locals, p0 slot = true → Known blocks flow0 slot)
    (joined : Joined blocks (junctionExit + 1)) (joinedBody : Joined blocks blockBody)
    (passage : Passage layout blocks (third1.enter (junction + 1)) flow2 (blocks junction).out p1)
    (back : ∀ slot ∈ layout.locals, Known blocks flow4 slot → (blocks junction).in_ slot = true)
    (same : ∀ slot ∈ layout.locals, p3 slot = p1 slot) (high : layout.privates ≤ stack)
    (grownCondition : ∀ state, Grown state (condition state).2)
    (grownBody : ∀ state, Grown state (body state).2)
    (grownNext : ∀ state, Grown state (next state).2)
    (conditions : Guides layout blocks exits lands (third1.enter (junction + 1)) flow2
      (blocks junction).out p1 settled condition)
    (bodies : Guides layout blocks inner innerLands (third3.enter blockBody) flow4 p1 p2 ignored
      body)
    (breaks : inner.breakJunction = junctionExit) (returns : innerLands.return_ = lands.return_)
    (normals : ∀ state, Reached layout blocks flow4 p2 state →
      (∀ slot ∈ layout.locals, (blocks junction).in_ slot = true →
        (blocks junction).use slot = true → state.written slot = true) → past state)
    (continues : ∀ state, Left layout blocks flow4 state →
      (∀ slot ∈ inner.exposed, (blocks inner.continueJunction).in_ slot = true →
        state.written slot = true) →
      (∀ slot ∈ layout.locals, (blocks junction).in_ slot = true →
        (blocks junction).use slot = true → state.written slot = true) → past state)
    (nexts : ∀ state, past state → Meets (fun completion after =>
      match completion with
      | .normal => Arrived layout blocks junction after
      | completion => Leads layout blocks exits lands (third5.enter (junctionExit + 1))
          (blocks junctionExit).out settled completion after) (next state)) (fuel : Nat) :
    Guides layout blocks exits lands flow0 (third5.enter (junctionExit + 1)) p0
      (blocks junctionExit).out settled fun state =>
        repeating condition holds body next (fun state =>
          let state := state.insertNulls (layout.nulls p3 (blocks junctionExit))
          if clear then state else state.write layout.privates stack .null) fuel
          (state.insertNulls (layout.nulls p0 (blocks junction))) := by
  have first := leaves1.known analyzed visited
  have second := enter.known analyzed first.1
  have last := exit.live analyzed joined
  have joined2 := (leaves3.live analyzed last.1).1
  have joined1 := passage.joined joined2
  have before := enter.live analyzed joined1
  have start : ∀ slot ∈ layout.locals, (blocks junction).out slot = true →
      Known blocks (third1.enter (junction + 1)) slot := fun slot member present =>
    Or.inr (second.2 slot member ((enter.out analyzed slot).mp present))
  have visited2 := passage.visited second.1
  have inside : ∀ slot ∈ layout.locals, (blocks junction).in_ slot = true → p1 slot = true :=
    fun slot member present =>
      passage.keeps second.1 start slot member ((enter.out analyzed slot).mpr present)
  have bounded2 := passage.bounded second.1 start
  have out := leaves3.known analyzed visited2
  intro state reached
  have arrived := reached.join analyzed visited bounded leaves1 before.1
  refine Leads.repeating past grownCondition grownBody grownNext ?_ ?_ ?_ ?_ ?_ ?_ inside back
    bounded2 out.2 ?_ conditions bodies breaks returns normals continues nexts fuel _ arrived
  · exact fun state => (Grown.insertNulls _ state).trans (Grown.unless_ clear (Grown.write _ _ _ _))
  · exact fun state arrived => arrived.reached analyzed enter joined1 fresh1
  · exact fun state reached => reached.enter analyzed leaves2 joinedBody fresh3
  · exact fun state arrived => arrived.reached analyzed exit joined fresh5
  · intro state arrived
    rw [← Layout.nulls_congr same] at arrived
    exact (arrived.reached analyzed exit joined fresh5).unless_ clear high .null
  · exact (leaves3.live analyzed last.1).2
  · intro slot member known
    exact Or.inr ((exit.known analyzed out.1).2 slot member (out.2 slot member known))

theorem Arrived.back {junction : Nat} {flow : Flow} {state : State F O W}
    (left : Left layout blocks flow state)
    (back : ∀ slot ∈ layout.locals, Known blocks flow slot → (blocks junction).in_ slot = true)
    (kept : ∀ slot ∈ layout.locals, (blocks junction).in_ slot = true →
      (blocks junction).use slot = true → state.written slot = true) :
    Arrived layout blocks junction state where
  toSound := left.toSound
  written slot member used present := kept slot member present used
  assigned slot member assigned := back slot member (left.assigned slot member assigned)

/-- A `continue` that goes on with the third part of a `for`. -/
theorem Left.pass {junction target : Nat} {flow third : Flow} {privates : Nat → Bool}
    {state : State F O W} (left : Left layout blocks flow state)
    (analyzed : Analyzed layout graph blocks) (leaves : Leaves flow junction graph)
    (follows : Junction junction target graph) (visited : (blocks flow.current).forward = true)
    (joined : Joined blocks target) (fresh : third.blocks target = .empty)
    (same : ∀ slot ∈ layout.locals, privates slot = true ↔ Known blocks flow slot)
    (written : ∀ slot ∈ layout.locals, (blocks junction).use slot = true →
      (blocks junction).in_ slot = true → state.written slot = true) :
    Reached layout blocks (third.enter target) privates state where
  toSound := left.toSound
  live slot member present live := by
    have used : (blocks target).use slot = true := by
      simpa [Live, Flow.enter, fresh, Block.empty] using live
    have known := (leaves.known analyzed visited).2 slot member ((same slot member).mp present)
    exact written slot member ((follows.live analyzed joined).2 slot member used) known
  assigned slot member assigned := (same slot member).mpr (left.assigned slot member assigned)

theorem Reached.rejoin {flow : Flow} {privates : Nat → Bool} {state : State F O W}
    (reached : Reached layout blocks flow privates state) {height stack : Nat}
    (above : layout.privates ≤ height) (high : layout.privates ≤ stack) :
    Reached layout blocks flow privates
      (if height < stack then state.copy layout.privates stack height else state) := by
  split
  · rw [State.copy_of_high high]
    exact reached.temporary above _
  · exact reached

/-- The blocks of a for: whatever is known somewhere in a round is known where it begins. -/
structure ForKnown (layout : Layout) (blocks : Nat → Block)
    (junction blockBody junctionNext junctionExit : Nat) (flow0 flow2 flow4 flow6 : Flow)
    (p1 p2 p3 : Nat → Bool) : Prop where
  visited1 : (blocks (junction + 1)).forward = true
  visited3 : (blocks blockBody).forward = true
  visited4 : (blocks flow4.current).forward = true
  visited5 : (blocks (junctionNext + 1)).forward = true
  joined0 : Joined blocks flow0.current
  joined2 : Joined blocks flow2.current
  joined3 : Joined blocks blockBody
  joined4 : Joined blocks flow4.current
  joinedNext : Joined blocks junctionNext
  joined5 : Joined blocks (junctionNext + 1)
  joined6 : Joined blocks flow6.current
  start : ∀ slot ∈ layout.locals, Known blocks flow0 slot → (blocks junction).in_ slot = true
  inside : ∀ slot ∈ layout.locals, (blocks junction).in_ slot = true → p1 slot = true
  bounded3 : ∀ slot ∈ layout.locals, p1 slot = true → (blocks blockBody).in_ slot = true
  bounded4 : ∀ slot ∈ layout.locals, p2 slot = true → Known blocks flow4 slot
  bounded5 : ∀ slot ∈ layout.locals, p2 slot = true →
    (blocks (junctionNext + 1)).in_ slot = true
  bounded6 : ∀ slot ∈ layout.locals, p3 slot = true → Known blocks flow6 slot
  around : ∀ slot ∈ layout.locals, (blocks junctionNext).in_ slot = true →
    (blocks junction).in_ slot = true
  back : ∀ slot ∈ layout.locals, Known blocks flow4 slot → (blocks junction).in_ slot = true
  round : ∀ slot ∈ layout.locals, Known blocks flow6 slot → (blocks junction).in_ slot = true
  same : ∀ slot ∈ layout.locals, p2 slot = p1 slot
  sameNext : ∀ slot ∈ layout.locals, p3 slot = p1 slot
  wide : ∀ slot ∈ layout.locals, (blocks junction).in_ slot = true →
    (blocks (junctionExit + 1)).in_ slot = true

theorem ForGraph.known {junction blockBody junctionNext junctionExit : Nat}
    {flow0 flow2 flow4 flow6 third1 third3 third5 : Flow} {p1 p2 p3 : Nat → Bool}
    (points : ForGraph graph junction blockBody junctionNext junctionExit flow0
      (third1.enter (junction + 1)) flow2 (third3.enter blockBody) flow4
      (third5.enter (junctionNext + 1)) flow6)
    (analyzed : Analyzed layout graph blocks) (visited : (blocks flow0.current).forward = true)
    (joined : Joined blocks (junctionExit + 1))
    (passage1 : Passage layout blocks (third1.enter (junction + 1)) flow2 (blocks junction).out p1)
    (passage3 : Passage layout blocks (third3.enter blockBody) flow4 p1 p2)
    (passage5 : Passage layout blocks (third5.enter (junctionNext + 1)) flow6 p2 p3) :
    ForKnown layout blocks junction blockBody junctionNext junctionExit flow0 flow2 flow4 flow6
      p1 p2 p3 := by
  have first := points.leaves1.known analyzed visited
  have second := points.loop.known analyzed first.1
  have joined2 := (points.leaves3.live analyzed (points.exit.live analyzed joined).1).1
  have joinedLoop := (points.loop.live analyzed (passage1.joined joined2)).1
  have visited2 := passage1.visited second.1
  have start : ∀ slot ∈ layout.locals, (blocks junction).out slot = true →
      Known blocks (third1.enter (junction + 1)) slot :=
    points.loop.start analyzed first.1
  have bounded2 := passage1.bounded second.1 start
  have inside := fun slot member present => passage1.keeps second.1 start slot member
    ((points.loop.out analyzed slot).mpr present)
  -- The body and the next part begin with what is taken before them.
  have third := points.leaves2.known analyzed visited2
  have bounded3 := fun slot member present => third.2 slot member (bounded2 slot member present)
  have known3 : ∀ slot ∈ layout.locals, p1 slot = true →
      Known blocks (third3.enter blockBody) slot :=
    fun slot member present => Or.inr (bounded3 slot member present)
  have visited4 := passage3.visited third.1
  have bounded4 := passage3.bounded third.1 known3
  have fourth := points.leaves4.known analyzed visited4
  have fifth := points.continue_.known analyzed fourth.1
  have bounded5 := fun slot member present =>
    fifth.2 slot member (fourth.2 slot member (bounded4 slot member present))
  have known5 : ∀ slot ∈ layout.locals, p2 slot = true →
      Known blocks (third5.enter (junctionNext + 1)) slot :=
    fun slot member present => Or.inr (bounded5 slot member present)
  have sixth := points.leaves5.known analyzed (passage5.visited fifth.1)
  have joined6 := (points.leaves5.live analyzed joinedLoop).1
  have joined5 := passage5.joined joined6
  have joinedNext := (points.continue_.live analyzed joined5).1
  have joined4 := (points.leaves4.live analyzed joinedNext).1
  -- What is known at the end of a round is known at its beginning.
  have around := fun slot member present => sixth.2 slot member
    (passage5.known fifth.1 slot member (Or.inr (fifth.2 slot member present)))
  have back := fun slot member known => around slot member (fourth.2 slot member known)
  have same := passage3.same third.1 known3
    fun slot member known => inside slot member (back slot member known)
  have sameNext := passage5.same fifth.1 known5 fun slot member known =>
    (same slot member).trans (inside slot member (sixth.2 slot member known))
  have exit := points.leaves3.known analyzed visited2
  have out := (points.exit.known analyzed exit.1).2
  exact {
    visited1 := second.1
    visited3 := third.1
    visited4 := visited4
    visited5 := fifth.1
    joined0 := (points.leaves1.live analyzed joinedLoop).1
    joined2 := joined2
    joined3 := passage3.joined joined4
    joined4 := joined4
    joinedNext := joinedNext
    joined5 := joined5
    joined6 := joined6
    start := first.2
    inside := inside
    bounded3 := bounded3
    bounded4 := bounded4
    bounded5 := bounded5
    bounded6 := passage5.bounded fifth.1 known5
    around := around
    back := back
    round := sixth.2
    same := same
    sameNext := fun slot member => (sameNext slot member).trans (same slot member)
    wide := fun slot member present =>
      out slot member (exit.2 slot member (bounded2 slot member (inside slot member present))) }

/-- A round ends behind its next part, which may be missing. -/
theorem Arrived.behind_next {junction : Nat} {flow4 flow5 flow6 third : Flow}
    {p2 p3 out settled ignored : Nat → Bool} {next : State F O W → Ending F O W} {given : Bool}
    {state : State F O W} (left : Left layout blocks flow4 state)
    (kept : ∀ slot ∈ layout.locals, (blocks junction).in_ slot = true →
      (blocks junction).use slot = true → state.written slot = true)
    (reached : given = true → Reached layout blocks flow5 p2 state)
    (missing : given = false → next state = (.normal, state))
    (grown : Grown state (next state).2)
    (thirds : Guides layout blocks exits lands flow5 flow6 p2 p3 ignored next)
    (bounded : ∀ slot ∈ layout.locals, p3 slot = true → Known blocks flow6 slot)
    (back : ∀ slot ∈ layout.locals, Known blocks flow4 slot → (blocks junction).in_ slot = true)
    (round : ∀ slot ∈ layout.locals, Known blocks flow6 slot → (blocks junction).in_ slot = true)
    (wider : ∀ slot ∈ layout.locals, Known blocks flow6 slot → Known blocks third slot) :
    Meets (fun completion after =>
      match completion with
      | .normal => Arrived layout blocks junction after
      | completion => Leads layout blocks exits lands third out settled completion after)
      (next state) := by
  cases isSome : given with
  | false =>
      rw [missing isSome]
      exact fun _ => Arrived.back left back kept
  | true =>
      intro admitted
      have leads := thirds state (reached isSome) admitted
      generalize next state = ending at leads grown ⊢
      rcases ending with ⟨completion, after⟩
      cases completion with
      | normal =>
          have arrived : Reached layout blocks flow6 p3 after := leads.1
          refine ⟨arrived.toSound, ?_, ?_⟩
          · intro slot member used present
            exact grown.written slot (kept slot member present used)
          · intro slot member assigned
            exact round slot member (bounded slot member (arrived.assigned slot member assigned))
      | _ => exact Leads.others wider _ after (by rintro ⟨⟩) leads

/-- The blocks of a try: whatever is known somewhere in it is known everywhere in it. -/
structure TryKnown (layout : Layout) (blocks : Nat → Block) (base junctionFinally : Nat)
    (flow2 flow5 final : Flow) (p1 p2 p3 : Nat → Bool) : Prop where
  around : ∀ slot ∈ layout.locals, (blocks junctionFinally).in_ slot = true →
    (blocks base).in_ slot = true
  used : ∀ slot ∈ layout.locals, (blocks (junctionFinally + 1)).use slot = true →
    (blocks base).use slot = true
  body : ∀ slot ∈ layout.locals, p1 slot = true → Known blocks flow2 slot
  caught : ∀ slot ∈ layout.locals, p2 slot = true ↔ (blocks junctionFinally).in_ slot = true
  left : ∀ slot ∈ layout.locals, Known blocks flow2 slot →
    (blocks junctionFinally).in_ slot = true
  past : ∀ slot ∈ layout.locals, (blocks junctionFinally).in_ slot = true →
    Known blocks flow5 slot
  bounded : ∀ slot ∈ layout.locals, p3 slot = true → Known blocks flow5 slot
  wider : ∀ slot ∈ layout.locals, Known blocks flow5 slot → Known blocks final slot

theorem Guides.try_ {base blockCatches junctionFinally blockExit stack : Nat} {targets : Targets}
    {flow flow2 flow3 flow5 third1 third4 third6 : Flow} {inner : Exits}
    {privates p1 p2 p3 settledBody settledCatches settledFinally : Nat → Bool}
    {body finally_ : State F O W → Ending F O W}
    {catches : Value F O → State F O W → Ending F O W}
    (analyzed : Analyzed layout graph blocks)
    (points : TryGraph graph base blockCatches junctionFinally blockExit targets flow
      (third1.enter (base + 1)) flow2 flow3 (third4.enter (junctionFinally + 1)) flow5)
    (fresh1 : third1.blocks (base + 1) = .empty)
    (fresh4 : third4.blocks (junctionFinally + 1) = .empty)
    (fresh6 : third6.blocks blockExit = .empty)
    (placed : Placed layout blocks exits targets flow (third6.enter blockExit) privates)
    (high : High layout exits lands) (above : layout.privates ≤ stack)
    (known : TryKnown layout blocks base junctionFinally flow2 flow5 (third6.enter blockExit)
      p1 p2 p3)
    (joinedBody : Joined blocks (base + 1)) (joinedFinally : Joined blocks (junctionFinally + 1))
    (grownBody : ∀ state, Grown state (body state).2)
    (grownCatches : ∀ thrown state, Grown state (catches thrown state).2)
    (grownFinally : ∀ state, Grown state (finally_ state).2)
    (bodies : Guides layout blocks inner lands (third1.enter (base + 1)) flow2 (blocks base).out
      p1 settledBody body)
    (clauses : ∀ thrown state, Left layout blocks flow2 state →
      (∀ slot ∈ layout.locals, (blocks base).in_ slot = true → (blocks base).use slot = true →
        state.written slot = true) →
      Meets (Finishes layout blocks junctionFinally lands settledCatches) (catches thrown state))
    (finals : Guides layout blocks Exits.none ⟨false, false, false⟩
      (third4.enter (junctionFinally + 1)) flow5 p2 p3 settledFinally finally_) :
    Guides layout blocks exits lands flow (third6.enter blockExit) privates p3
      (fun slot => (settledBody slot && settledCatches slot) || settledFinally slot)
      fun state => attempting body catches finally_
        (fun state =>
          let state :=
            if (if exits.breakMustClear then stack else exits.breakStack) < stack then
              state.copy layout.privates stack
                (if exits.breakMustClear then stack else exits.breakStack)
            else state
          state.insertNulls (layout.nulls p3 (blocks exits.breakJunction)))
        (fun state =>
          let state := if stack < stack then state.copy layout.privates stack stack else state
          state.insertNulls (layout.nulls p3 (blocks exits.continueJunction)))
        (fun state =>
          let state :=
            if exits.returnStack < stack then state.copy layout.privates stack exits.returnStack
            else state
          state.insertNulls (layout.nulls p3 (blocks exits.returnJunction)))
        (state.insertNulls (layout.nulls privates (blocks base))) := by
  have joinedTry := (points.enter.live analyzed joinedBody).1
  have joinedJunction := (points.finish.live analyzed joinedFinally).1
  have wide : ∀ slot ∈ layout.locals, (blocks junctionFinally).in_ slot = true →
      Known blocks (third6.enter blockExit) slot :=
    fun slot member present => known.wider slot member (known.past slot member present)
  intro state reached
  have arrived := reached.join analyzed placed.visited placed.bounded points.leaves1 joinedTry
  have entered : Reached layout blocks (third1.enter (base + 1)) (blocks base).out _ :=
    arrived.reached analyzed points.enter joinedBody fresh1
  let kept : State F O W → Prop := fun state => ∀ slot ∈ layout.locals,
    (blocks base).in_ slot = true → (blocks base).use slot = true → state.written slot = true
  have keeps : ∀ {before after : State F O W}, Grown before after → kept before → kept after :=
    fun grown holds slot member present used => grown.written slot (holds slot member present used)
  have start : kept (state.insertNulls (layout.nulls privates (blocks base))) :=
    fun slot member present used => arrived.written slot member used present
  let before : Completion F O → State F O W → Prop := fun completion state =>
    Finishes layout blocks junctionFinally lands
      (fun slot => settledBody slot && settledCatches slot) completion state ∧ kept state
  have rejoined : ∀ (height : Nat) (nulls : List Nat) (state : State F O W), Grown state
      ((if height < stack then state.copy layout.privates stack height else state).insertNulls
        nulls) := by
    intro height nulls state
    refine Grown.trans ?_ (Grown.insertNulls _ _)
    split
    · exact Grown.copy _ _ _ state
    · exact Grown.refl state
  refine Meets.attempting (fun state => Left layout blocks flow2 state ∧ kept state) before
    grownCatches grownFinally (rejoined _ _) (rejoined _ _) (rejoined _ _) ?_ ?_ ?_ ?_
  · have meets := bodies _ entered
    have held := keeps (grownBody _) start
    generalize body (state.insertNulls (layout.nulls privates (blocks base))) = ending
      at meets held ⊢
    intro admitted
    have leads := meets admitted
    have finishes : Finishes layout blocks junctionFinally lands
        (fun slot => settledBody slot && settledCatches slot) ending.1 ending.2 :=
      (leads.finishes known.body known.left).fewer
        fun slot both => (Bool.and_eq_true_iff.mp both).1
    rcases ending with ⟨completion, after⟩
    cases completion with
    | threw thrown => exact ⟨leads, held⟩
    | _ => exact ⟨finishes, held⟩
  · intro thrown state left admitted
    have finishes := clauses thrown state left.1 left.2 admitted
    exact ⟨finishes.fewer fun slot both => (Bool.and_eq_true_iff.mp both).2,
      keeps (grownCatches thrown state) left.2⟩
  · intro state finished
    exact ⟨finished.1.toSound, fun slot member assigned =>
      wide slot member (finished.1.assigned slot member assigned)⟩
  · intro completion state finished admitted
    have ready : Reached layout blocks (third4.enter (junctionFinally + 1)) p2 state := by
      refine ⟨finished.1.toSound, ?_, ?_⟩
      · intro slot member present live
        have used : (blocks (junctionFinally + 1)).use slot = true := by
          simpa [Live, Flow.enter, fresh4, Block.empty] using live
        have around := known.around slot member ((known.caught slot member).mp present)
        exact finished.2 slot member around (known.used slot member used)
      · intro slot member assigned
        exact (known.caught slot member).mpr (finished.1.assigned slot member assigned)
    have leads := finals state ready admitted
    have grown := grownFinally state
    generalize finally_ state = ending at leads grown ⊢
    rcases ending with ⟨ended, after⟩
    cases ended with
    | normal =>
        have reached : Reached layout blocks flow5 p3 after := leads.1
        have left := (reached.left known.bounded).widen known.wider
        cases completion with
        | normal =>
            refine ⟨reached.enter analyzed points.leaves3 placed.joined fresh6, ?_⟩
            intro slot member present
            rcases Bool.or_eq_true_iff.mp present with earlier | later
            · exact grown.written slot (finished.1.landed slot member earlier)
            · exact leads.2 slot member later
        | break_ =>
            have landed : lands.break_ = true := finished.1.landed
            have outward : layout.privates ≤
                if exits.breakMustClear then stack else exits.breakStack := by
              split
              · exact above
              · exact high.break_ landed
            have went := (reached.rejoin outward above).leave known.bounded
              (blocks exits.breakJunction)
            refine ⟨went.1.widen known.wider, landed, ?_⟩
            intro slot member used present
            refine (went.2 slot member used present).imp_left fun taken => ?_
            exact known.wider slot member (known.bounded slot member taken)
        | continue_ =>
            have went := (reached.rejoin above above).leave known.bounded
              (blocks exits.continueJunction)
            refine ⟨went.1.widen known.wider, finished.1.landed, ?_⟩
            intro slot member present
            obtain ⟨local_, target, used, joined⟩ := placed.exposed slot member
            have live := ((points.continue_ _ target).live analyzed joined).2 slot local_ used
            rcases went.2 slot local_ used present with taken | written
            · exact (rejoined _ _ after).written slot (reached.live slot local_ taken live)
            · exact written
        | return_ =>
            have landed : lands.return_ = true := finished.1.landed
            have went := (reached.rejoin (high.return_ landed) above).leave known.bounded
              (blocks exits.returnJunction)
            exact ⟨went.1.widen known.wider, landed⟩
        | returned value => exact left
        | threw thrown => exact left
        | timeout => exact left
    | break_ => exact absurd leads.2.1 (by decide)
    | continue_ => exact absurd leads.2.1 (by decide)
    | return_ => exact absurd leads.2 (by decide)
    | returned value => exact Left.widen leads known.wider
    | threw thrown => exact Left.widen leads known.wider
    | timeout => exact Left.widen leads known.wider

theorem Layout.slot_shared {variable_ : Nat}
    (isShared : (layout.variableOf variable_).isShared = true) : layout.slot variable_ = none := by
  simp [Layout.slot, isShared]

theorem Reached.shared {flow : Flow} {privates : Nat → Bool} {state : State F O W}
    (reached : Reached layout blocks flow privates state) {variable_ : Nat} (put : Bool)
    (isShared : (layout.variableOf variable_).isShared = true) :
    Reached layout blocks (flow.mention layout variable_ put) privates state := by
  unfold Flow.mention
  rw [Layout.slot_shared isShared]
  exact reached

/-- A catch clause, and the next ones if it does not take what has been thrown. -/
theorem Meets.clause {base blockBody blockTail junctionFinally stack variable_ : Nat}
    {flow flow2 flow4 flow5 third1 third2 : Flow}
    {privates p1 p2 settled settledBody settledTail : Nat → Bool}
    {expression body tail : State F O W → Ending F O W} {runtime : Runtime F O W}
    (analyzed : Analyzed layout graph blocks)
    (points : CatchGraph graph base blockBody blockTail junctionFinally flow (third1.enter base)
      flow2 ((third2.enter blockBody).mention layout variable_ true) flow4 flow5)
    (fresh : third2.blocks blockBody = .empty) (joinedBody : Joined blocks blockBody)
    (bounded1 : ∀ slot ∈ layout.locals, p1 slot = true → Known blocks flow2 slot)
    (bounded2 : ∀ slot ∈ layout.locals, p2 slot = true → Known blocks flow4 slot)
    (out1 : ∀ slot ∈ layout.locals, Known blocks flow2 slot →
      (blocks junctionFinally).in_ slot = true)
    (out2 : ∀ slot ∈ layout.locals, Known blocks flow4 slot →
      (blocks junctionFinally).in_ slot = true)
    (present : ∀ slot, layout.slot variable_ = some slot → p1 slot = true)
    (conditions : Guides layout blocks exits lands (third1.enter base) flow2 privates p1 settled
      expression)
    (bodies : Guides layout blocks exits lands
      ((third2.enter blockBody).mention layout variable_ true) flow4 p1 p2 settledBody body)
    (rest : ∀ state, Reached layout blocks flow2 p1 state →
      Meets (Finishes layout blocks junctionFinally lands settledTail) (tail state))
    (grownBody : ∀ state, Grown state (body state).2)
    (grownTail : ∀ state, Grown state (tail state).2) (thrown : Value F O) (state : State F O W)
    (reached : Reached layout blocks (third1.enter base) privates state) :
    Meets (Finishes layout blocks junctionFinally lands
        fun slot => settled slot || (settledBody slot && settledTail slot))
      (Xemmai.andThen (expression state) fun state =>
        match runtime.catches thrown (state.slot stack) state.world with
        | (.error other, world) => (.threw other, state.setWorld world)
        | (.ok false, world) => tail (state.setWorld world)
        | (.ok true, world) =>
            body
              (if (layout.variableOf variable_).isShared then
                state.setWorld (runtime.scopePut 0 (layout.variableOf variable_).index thrown world)
              else
                (state.setWorld world).write layout.privates (layout.variableOf variable_).index
                  thrown)) := by
  have entering : ∀ (state : State F O W) (world other : W), Reached layout blocks flow2 p1 state →
      Reached layout blocks ((third2.enter blockBody).mention layout variable_ true) p1
        (if (layout.variableOf variable_).isShared then state.setWorld other
        else (state.setWorld world).write layout.privates (layout.variableOf variable_).index
          thrown) := by
    intro state world other reached
    have entered : Reached layout blocks (third2.enter blockBody) p1 state :=
      reached.enter analyzed points.leaves2 joinedBody fresh
    split
    · next isShared => exact (entered.setWorld other).shared true isShared
    · next isPrivate =>
        exact (entered.setWorld world).put variable_ (by simpa using isPrivate) thrown
          (fun _ _ => rfl) (fun _ => id) present
  have caught : ∀ (state : State F O W) (world other : W), Grown state
      (if (layout.variableOf variable_).isShared then state.setWorld other
      else (state.setWorld world).write layout.privates (layout.variableOf variable_).index
        thrown) := by
    intro state world other
    split
    · exact Grown.setWorld _ state
    · exact (Grown.setWorld _ state).trans (Grown.write _ _ _ _)
  refine (conditions state reached).andThen ?_ ?_ ?_
  · intro state
    split
    · exact Grown.setWorld _ state
    · exact (Grown.setWorld _ state).trans (grownTail _)
    · exact (caught state _ _).trans (grownBody _)
  · intro completion state abnormal leads
    have finishes := leads.finishes bounded1 out1
    refine ⟨finishes.toSound, finishes.assigned, ?_⟩
    cases completion with
    | normal => exact absurd rfl abnormal
    | _ => exact finishes.landed
  · intro state _ leads
    have arrived : Reached layout blocks flow2 p1 state := leads.1
    split
    · intro _
      exact ⟨arrived.toSound.setWorld _, fun slot member assigned =>
        out1 slot member (bounded1 slot member (arrived.assigned slot member assigned)), trivial⟩
    · intro admitted
      have finishes := rest _ (arrived.setWorld _) admitted
      refine finishes.settle ((Grown.setWorld _ state).trans (grownTail _)) leads.2 ?_
      intro slot either
      exact (Bool.or_eq_true_iff.mp either).imp_right fun both => (Bool.and_eq_true_iff.mp both).2
    · intro admitted
      have finishes := (bodies _ (entering state _ _ arrived) admitted).finishes bounded2 out2
      refine finishes.settle ((caught state _ _).trans (grownBody _)) leads.2 ?_
      intro slot either
      exact (Bool.or_eq_true_iff.mp either).imp_right fun both => (Bool.and_eq_true_iff.mp both).1

end Constructs

section Operands

variable {F O W : Type} {layout : Layout} {graph : Flow} {blocks : Nat → Block}
variable {flow : Flow} {privates : Nat → Bool} {state : State F O W}

theorem Layout.slot_private {variable_ : Nat}
    (isPrivate : (layout.variableOf variable_).isShared = false)
    (above : layout.arguments ≤ (layout.variableOf variable_).index) :
    layout.slot variable_ = some (layout.variableOf variable_).index := by
  simp [Layout.slot, isPrivate, above]

theorem Node.form_get [Double F] {node : Node F O} {index : Nat}
    (form : node.form layout = .variable index) :
    ∃ resolved variable_ symbol, node = .symbolGet resolved (some variable_) symbol ∧
      (layout.variableOf variable_).isShared = false ∧
      (layout.variableOf variable_).index = index := by
  have folded : ∀ {fold : Fold F O} (operand : Operand F O), fold.Plain → fold = .operand operand →
      operand ≠ .variable index := by
    rintro fold operand plain found rfl
    exact absurd (plain _ found) (by simp [Operand.constant])
  unfold Node.form at form
  split at form
  · next literal => cases literal <;> exact absurd form (by simp [Literal.operand])
  · next resolved variable_ symbol =>
      dsimp only at form
      split at form
      · exact absurd form (by simp)
      · next isPrivate =>
          exact ⟨resolved, variable_, symbol, rfl, Bool.eq_false_iff.mpr isPrivate,
            Operand.variable.inj form⟩
  · split at form
    · next found => exact absurd form (folded _ (foldUnary_plain _ _) found)
    · exact absurd form (by simp)
  · split at form
    · next found => exact absurd form (folded _ (foldBinary_plain _ _ _) found)
    · exact absurd form (by simp)
  · exact absurd form (by simp)

theorem Node.form_variable [Double F] {node : Node F O} {index : Nat}
    (form : node.form layout = .variable index) :
    index < layout.arguments ∨ (index ∈ layout.locals ∧ node.settles layout index = true) := by
  obtain ⟨resolved, variable_, symbol, rfl, isPrivate, rfl⟩ := Node.form_get form
  rcases Nat.lt_or_ge (layout.variableOf variable_).index layout.arguments with below | above
  · exact Or.inl below
  · have named := Layout.slot_private isPrivate above
    exact Or.inr ⟨Layout.slot_local named, by simp [Node.settles, named]⟩

theorem State.Sound.operand [Double F] (sound : state.Sound layout) {node : Node F O}
    (written : ∀ slot ∈ layout.locals, node.settles layout slot = true →
      state.written slot = true) (index : Nat) (form : node.form layout = .variable index) :
    state.written index = true := by
  rcases Node.form_variable form with below | ⟨member, settled⟩
  · exact sound.argument index below
  · exact written index member settled

theorem Reached.overlook (reached : Reached layout blocks flow privates state)
    (analyzed : Analyzed layout graph blocks) {variable_ bound : Nat}
    (later : Later bound (flow.mention layout variable_ false) graph) :
    Reached layout blocks (flow.mention layout variable_ false) privates state := by
  refine reached.mention variable_ false (fun _ _ => rfl) (fun _ => id) ?_
  intro slot named present
  unfold Flow.mention at later
  rw [named] at later
  exact reached.live slot (Layout.slot_local named) present (later.live analyzed)

theorem Reached.callee (reached : Reached layout blocks flow privates state)
    (analyzed : Analyzed layout graph blocks) {variable_ bound : Nat}
    (isPrivate : (layout.variableOf variable_).isShared = false)
    (later : Later bound (flow.mention layout variable_ false) graph)
    (known : privates (layout.variableOf variable_).index = true) :
    state.written (layout.variableOf variable_).index = true := by
  rcases Nat.lt_or_ge (layout.variableOf variable_).index layout.arguments with below | above
  · exact reached.argument _ below
  · have named := Layout.slot_private isPrivate above
    unfold Flow.mention at later
    rw [named] at later
    exact reached.live _ (Layout.slot_local named) known (later.live analyzed)

theorem Node.called_some {target : Node F O} {expands : List Nat} {resolved : Nat}
    {found : Variable} (called : target.called layout expands = some (resolved, found)) :
    ∃ variable_ symbol, target = .symbolGet resolved (some variable_) symbol ∧
      found = layout.variableOf variable_ := by
  unfold Node.called at called
  split at called
  · next variable_ symbol =>
      dsimp only at called
      split at called
      · obtain ⟨rfl, rfl⟩ := Prod.mk.inj (Option.some.inj called)
        exact ⟨variable_, symbol, rfl, rfl⟩
      · exact absurd called (by simp)
  · exact absurd called (by simp)

theorem Node.perform_call [Double F] {runtime : Runtime F O W} {fuel : Nat} {exits : Exits}
    {base stack : Nat} {tail operand clear : Bool} {target : Node F O} {arguments : Nodes F O}
    {expands : List Nat} (called : target.called layout expands = none) :
    (Node.call target arguments expands).perform layout blocks runtime fuel exits base privates stack
      tail operand clear state =
    andThen (target.performTarget layout blocks runtime fuel exits base privates stack state)
      fun state => andThen (arguments.performValues layout blocks runtime fuel exits
        (base + target.blocks) (target.after layout blocks base privates) (stack + 2) state)
        fun state => deliver layout.privates tail stack state (runtime.call expands
          (state.slot stack) (state.slot (stack + 1))
          (state.operands (stack + 2) arguments.length) state.world) := by
  unfold Node.perform
  simp only [called]
  rfl

theorem Optional.perform_none [Double F] {runtime : Runtime F O W} {fuel : Nat} {exits : Exits}
    {base stack : Nat} {clear : Bool} {optional : Optional F O} (absent : optional.isSome = false) :
    optional.performOptional layout blocks runtime fuel exits base privates stack clear state =
      (.normal, state) := by
  cases optional with
  | none => rfl
  | some node => exact absurd absent (by simp [Optional.isSome])

theorem Catches.exposed_some {catches : Catches F O} (given : catches ≠ .nil) (base first : Nat) :
    catches.exposed layout blocks base first = layout.exposures (blocks base) (blocks first) := by
  cases catches with
  | nil => exact absurd rfl given
  | cons expression variable_ body tail => rfl

end Operands

section Nodes

variable {F O W : Type} [Double F] {layout : Layout} {graph : Flow} {blocks : Nat → Block}

/-! ### The statement about each part of a tree -/

section Statements

variable (graph : Flow) (layout : Layout) (blocks : Nat → Block)
variable (runtime : Runtime F O W) (fuel : Nat)

/-- Every path through a node leads from the point before it to the one after it. -/
def Node.Leading (node : Node F O) : Prop :=
  ∀ (exits : Exits) (targets : Targets) (lands : Lands) (_ : High layout exits lands) (base : Nat)
    (privates : Nat → Bool) (stack : Nat) (_ : layout.privates ≤ stack)
    (tail operand clear : Bool) {flow : Flow} (_ : Drawn base flow)
    (_ : Later (base + node.blocks) (node.flow layout targets base flow) graph)
    (_ : Placed layout blocks exits targets flow (node.flow layout targets base flow) privates)
    (_ : node.lands lands = true),
    Guides layout blocks exits lands flow (node.flow layout targets base flow) privates
      (node.after layout blocks base privates) (fun slot => node.settles layout slot)
      (node.perform layout blocks runtime fuel exits base privates stack tail operand clear)

def Nodes.SequenceLeading (nodes : Nodes F O) : Prop :=
  ∀ (exits : Exits) (targets : Targets) (lands : Lands) (_ : High layout exits lands) (base : Nat)
    (privates : Nat → Bool) (stack : Nat) (_ : layout.privates ≤ stack) (tail clear : Bool)
    {flow : Flow} (_ : Drawn base flow)
    (_ : Later (base + nodes.blocks) (nodes.flow layout targets base flow) graph)
    (_ : Placed layout blocks exits targets flow (nodes.flow layout targets base flow) privates)
    (_ : nodes.lands lands = true),
    Guides layout blocks exits lands flow (nodes.flow layout targets base flow) privates
      (nodes.after layout blocks base privates) (fun slot => nodes.settles layout slot)
      (nodes.performSequence layout blocks runtime fuel exits base privates stack tail clear)

def Nodes.ValuesLeading (nodes : Nodes F O) : Prop :=
  ∀ (exits : Exits) (targets : Targets) (lands : Lands) (_ : High layout exits lands) (base : Nat)
    (privates : Nat → Bool) (stack : Nat) (_ : layout.privates ≤ stack)
    {flow : Flow} (_ : Drawn base flow)
    (_ : Later (base + nodes.blocks) (nodes.flow layout targets base flow) graph)
    (_ : Placed layout blocks exits targets flow (nodes.flow layout targets base flow) privates)
    (_ : nodes.lands lands = true),
    Guides layout blocks exits lands flow (nodes.flow layout targets base flow) privates
      (nodes.after layout blocks base privates) (fun slot => nodes.settles layout slot)
      (nodes.performValues layout blocks runtime fuel exits base privates stack)

def Optional.Leading (optional : Optional F O) : Prop :=
  ∀ (exits : Exits) (targets : Targets) (lands : Lands) (_ : High layout exits lands) (base : Nat)
    (privates : Nat → Bool) (stack : Nat) (_ : layout.privates ≤ stack) (clear : Bool)
    {flow : Flow} (_ : Drawn base flow)
    (_ : Later (base + optional.blocks) (optional.flow layout targets base flow) graph)
    (_ : Placed layout blocks exits targets flow (optional.flow layout targets base flow) privates)
    (_ : optional.lands lands = true),
    Guides layout blocks exits lands flow (optional.flow layout targets base flow) privates
      (optional.after layout blocks base privates) (fun slot => optional.settles layout slot)
      (optional.performOptional layout blocks runtime fuel exits base privates stack clear)

/-- The clauses of a `try` begin where its body may have been left, with what is taken on the
way into the finally. -/
def Catches.Leading (catches : Catches F O) : Prop :=
  ∀ (exits : Exits) (targets : Targets) (lands : Lands) (_ : High layout exits lands)
    (_ : exits.exposed = []) (junctionFinally base : Nat) (privates : Nat → Bool) (stack : Nat)
    (_ : layout.privates ≤ stack) (clear : Bool) {flow : Flow} (_ : Drawn base flow)
    (_ : Settled (base + catches.blocks)
      (catches.flow layout targets junctionFinally base flow) graph)
    (_ : (blocks flow.current).forward = true) (_ : Joined blocks junctionFinally)
    (_ : ∀ slot ∈ layout.locals, (blocks junctionFinally).in_ slot = true →
      Known blocks flow slot)
    (_ : ∀ slot ∈ layout.locals, privates slot = true ↔
      (blocks junctionFinally).in_ slot = true)
    (_ : catches.lands lands = true) (thrown : Value F O) (state : State F O W)
    (_ : state.Sound layout)
    (_ : ∀ slot ∈ layout.locals, state.assigned slot ≠ .null →
      (blocks junctionFinally).in_ slot = true)
    (_ : catches ≠ .nil → ∀ slot ∈ layout.locals,
      (blocks junctionFinally).in_ slot = true → (blocks base).use slot = true →
        state.written slot = true),
    Meets (Finishes layout blocks junctionFinally lands fun slot => catches.settles layout slot)
      (catches.perform layout blocks runtime fuel exits base privates stack clear thrown state)

end Statements

section Leading

variable {runtime : Runtime F O W} {fuel : Nat}

theorem settles_nothing {state : State F O W} (slot : Nat) (_ : slot ∈ layout.locals)
    (absent : false = true) : state.written slot = true :=
  absurd absent Bool.false_ne_true

theorem Node.Leading.nodes {items : Nodes F O}
    (sequence : items.SequenceLeading graph layout blocks runtime fuel) :
    (Node.nodes items).Leading graph layout blocks runtime fuel := by
  intro exits targets lands high base privates stack above tail operand clear flow drawn later
    placed landing
  exact sequence exits targets lands high base privates stack above tail
    clear drawn later placed landing

theorem Node.Leading.operate {action : Action} {operands : Nodes F O}
    (analyzed : Analyzed layout graph blocks)
    (values : operands.ValuesLeading graph layout blocks runtime fuel) :
    (Node.operate action operands).Leading graph layout blocks runtime fuel := by
  intro exits targets lands high base privates stack above tail operand clear flow drawn later
    placed landing
  have first := values exits targets lands high base privates
    (if action.isIndexing then stack + 1 else stack) (by split <;> omega) drawn later placed
    landing
  have passage := operands.passage analyzed targets base drawn later privates
  refine first.then_ (fun _ _ => id) (fun state => Grown.deliver _ _ _ state _) ?_
  intro state reached _
  exact reached.deliver (passage.bounded placed.visited placed.bounded) settles_nothing _ above _

theorem Node.Leading.if_ {condition : Optional F O} {true_ false_ : Node F O}
    (analyzed : Analyzed layout graph blocks)
    (tested : condition.Leading graph layout blocks runtime fuel)
    (yes : true_.Leading graph layout blocks runtime fuel)
    (no : false_.Leading graph layout blocks runtime fuel) :
    (Node.if_ condition true_ false_).Leading graph layout blocks runtime fuel := by
  intro exits targets lands high base privates stack above tail operand clear flow drawn later
    placed landing
  simp only [Node.lands, Bool.and_eq_true] at landing
  have points := Node.if_graph drawn later
  have passage1 := condition.passage analyzed targets base drawn points.condition.toLater
    privates
  have passage3 := true_.passage analyzed targets _ points.true_.toDrawn points.trueEnd.toLater
    (condition.after layout blocks base privates)
  have passage5 := false_.passage analyzed targets _ points.false_.toDrawn
    points.falseEnd.toLater (condition.after layout blocks base privates)
  have before := points.exit.live analyzed placed.joined
  have joined3 := (points.leaves3.live analyzed before.1).1
  have joined5 := (points.leaves4.live analyzed before.1).1
  have visited := passage1.visited placed.visited
  have bounded := passage1.bounded placed.visited placed.bounded
  have truth := points.leaves1.known analyzed visited
  have falsehood := points.leaves2.known analyzed visited
  exact Guides.if_ analyzed points placed.joined visited bounded passage3 passage5
    (tested exits targets lands high base privates stack above false drawn
      points.condition.toLater ⟨placed.visited,
        (points.leaves1.live analyzed (passage3.joined joined3)).1, placed.bounded,
        placed.exposed⟩ landing.1.1)
    (yes exits targets lands high _ _ stack above tail false clear
      points.true_.toDrawn points.trueEnd.toLater ⟨truth.1, joined3,
        fun slot member present => Or.inr (truth.2 slot member (bounded slot member present)),
        placed.exposed⟩ landing.1.2)
    (no exits targets lands high _ _ stack above tail false clear
      points.false_.toDrawn points.falseEnd.toLater ⟨falsehood.1, joined5,
        fun slot member present => Or.inr (falsehood.2 slot member (bounded slot member present)),
        placed.exposed⟩ landing.2)
    (true_.grown layout blocks runtime fuel _ _ _ _ _ _ _)
    (false_.grown layout blocks runtime fuel _ _ _ _ _ _ _)

theorem Node.Leading.while_ {condition : Optional F O} {body : Node F O}
    (analyzed : Analyzed layout graph blocks)
    (tested : condition.Leading graph layout blocks runtime fuel)
    (turned : body.Leading graph layout blocks runtime fuel) :
    (Node.while_ condition body).Leading graph layout blocks runtime fuel := by
  intro exits targets lands high base privates stack above tail operand clear flow drawn later
    placed landing
  simp only [Node.lands, Bool.and_eq_true] at landing
  have points := Node.while_graph drawn later
  let blockBody := base + 1 + 1 + condition.blocks
  let junctionExit := blockBody + 1 + body.blocks
  have first := points.leaves1.known analyzed placed.visited
  have second := points.loop.known analyzed first.1
  have last := points.exit.live analyzed placed.joined
  have joined2 := (points.leaves3.live analyzed last.1).1
  have passage1 := condition.passage analyzed targets _ points.condition.toDrawn
    points.conditionEnd.toLater (blocks base).out
  have joined1 := passage1.joined joined2
  have joinedBase := (points.loop.live analyzed joined1).1
  have visited2 := passage1.visited second.1
  have bounded2 := passage1.bounded second.1 (points.loop.start analyzed first.1)
  have third := points.leaves2.known analyzed visited2
  have passage3 := body.passage analyzed ⟨some junctionExit, some base, targets.return_⟩ _
    points.body.toDrawn points.bodyEnd.toLater
    (condition.after layout blocks (base + 1 + 1) (blocks base).out)
  have bounded4 := passage3.bounded third.1 (points.leaves2.start analyzed visited2 bounded2)
  have joined4 := (points.leaves4.live analyzed joinedBase).1
  have back := (points.leaves4.known analyzed (passage3.visited third.1)).2
  have same := passage3.same third.1 (points.leaves2.start analyzed visited2 bounded2)
    fun slot member known =>
      passage1.keeps second.1 (points.loop.start analyzed first.1) slot member
        ((points.loop.out analyzed slot).mpr (back slot member known))
  exact Guides.loop (Arrived layout blocks base) analyzed points.leaves1 points.loop
    points.leaves2 points.leaves3 points.exit
    (((points.start.toDrawn.next base).link base (base + 1)).fresh _ (Nat.le_succ _))
    (((points.conditionEnd.toDrawn.next blockBody).next junctionExit).fresh _ (le_refl _))
    (((points.bodyEnd.toDrawn.next base).link junctionExit (junctionExit + 1)).fresh _
      (Nat.le_succ _))
    placed.visited placed.bounded placed.joined (passage3.joined joined4) passage1 back same
    above (condition.grown layout blocks runtime fuel _ _ _ _ _)
    (body.grown layout blocks runtime fuel _ _ _ _ _ _ _) Grown.refl
    (tested exits targets lands high _ _ stack above false
      points.condition.toDrawn points.conditionEnd.toLater
      ⟨second.1, joined2, points.loop.start analyzed first.1, placed.exposed⟩ landing.1)
    (turned (exits.loop junctionExit stack tail clear base [])
      ⟨some junctionExit, some base, targets.return_⟩ ⟨true, true, lands.return_⟩
      ⟨fun _ => above, high.return_⟩ _ _ stack above false false true points.body.toDrawn
      points.bodyEnd.toLater ⟨third.1, joined4,
        points.leaves2.start analyzed visited2 bounded2, fun slot absent =>
          absurd absent List.not_mem_nil⟩ landing.2)
    rfl rfl
    (fun state reached kept => Arrived.back (reached.left bounded4) back kept)
    (fun state left _ kept => Arrived.back left back kept)
    (fun state arrived _ => arrived) fuel

theorem Node.Leading.for_ {initialization condition next : Optional F O} {body : Node F O}
    (analyzed : Analyzed layout graph blocks)
    (begun : initialization.Leading graph layout blocks runtime fuel)
    (tested : condition.Leading graph layout blocks runtime fuel)
    (stepped : next.Leading graph layout blocks runtime fuel)
    (turned : body.Leading graph layout blocks runtime fuel) :
    (Node.for_ initialization condition next body).Leading graph layout blocks runtime fuel := by
  intro exits targets lands high base privates stack above tail operand clear flow drawn later
    placed landing
  simp only [Node.lands, Bool.and_eq_true] at landing
  have points := Node.for_graph drawn later
  let junction := base + initialization.blocks
  let blockBody := junction + 1 + 1 + condition.blocks
  let junctionNext := blockBody + 1 + body.blocks
  let junctionExit := junctionNext + 1 + 1 + next.blocks
  let targets1 : Targets := ⟨some junctionExit, some junctionNext, targets.return_⟩
  let p1 := condition.after layout blocks (junction + 1 + 1) (blocks junction).out
  let p2 := body.after layout blocks (blockBody + 1) p1
  let exits1 := exits.loop junctionExit stack tail clear junctionNext
    (if next.isSome then layout.exposures (blocks junction) (blocks junctionNext) else [])
  have passage0 := initialization.passage analyzed targets base drawn points.start.toLater
    privates
  have visited0 := passage0.visited placed.visited
  have passage1 := condition.passage analyzed targets _ points.condition.toDrawn
    points.conditionEnd.toLater (blocks junction).out
  have passage3 := body.passage analyzed targets1 _ points.body.toDrawn points.bodyEnd.toLater p1
  have passage5 := next.passage analyzed targets _ points.next.toDrawn points.nextEnd.toLater p2
  have known := points.known analyzed visited0 placed.joined passage1 passage3 passage5
  have initial := begun exits targets lands high base privates stack above true drawn
    points.start.toLater ⟨placed.visited, known.joined0, placed.bounded, placed.exposed⟩
    landing.1.1.1
  have thirds := stepped exits targets lands high _ p2 stack above true
    points.next.toDrawn points.nextEnd.toLater ⟨known.visited5, known.joined6,
      fun slot member present => Or.inr (known.bounded5 slot member present), placed.exposed⟩
    landing.1.2
  let flow0 := initialization.flow layout targets base flow
  let flow2 := condition.flow layout targets (junction + 1 + 1)
    (((flow0.next junction).link junction (junction + 1)).enter (junction + 1))
  let flow4 := body.flow layout targets1 (blockBody + 1)
    (((flow2.next blockBody).next junctionExit).enter blockBody)
  let flow5 := ((flow4.next junctionNext).link junctionNext (junctionNext + 1)).enter
    (junctionNext + 1)
  let kept : State F O W → Prop := fun state => ∀ slot ∈ layout.locals,
    (blocks junction).in_ slot = true → (blocks junction).use slot = true →
      state.written slot = true
  let past : State F O W → Prop := fun state => Left layout blocks flow4 state ∧ kept state ∧
    (next.isSome = true → Reached layout blocks flow5 p2 state)
  refine initial.andThen (fun slot => condition.settles layout slot) ?_ ?_ ?_
    fun slot => Bool.or_eq_true_iff.mp
  · intro slot member taken
    exact Or.inr (known.wide slot member (known.start slot member taken))
  · intro state
    refine (Grown.insertNulls _ state).trans (Grown.repeating
      (condition.grown layout blocks runtime fuel _ _ _ _ _)
      (body.grown layout blocks runtime fuel _ _ _ _ _ _ _)
      (next.grown layout blocks runtime fuel _ _ _ _ _) ?_ fuel _)
    exact fun state => (Grown.insertNulls _ state).trans
      (Grown.unless_ clear (Grown.write _ _ _ _))
  · intro state reached _
    refine Guides.loop past analyzed points.leaves1 points.loop points.leaves2 points.leaves3
      points.exit (((points.start.toDrawn.next junction).link junction (junction + 1)).fresh _
        (Nat.le_succ _))
      (((points.conditionEnd.toDrawn.next blockBody).next junctionExit).fresh _ (le_refl _))
      (((points.nextEnd.toDrawn.next junction).link junctionExit (junctionExit + 1)).fresh _
        (Nat.le_succ _))
      visited0 (passage0.bounded placed.visited placed.bounded) placed.joined known.joined3
      passage1 known.back known.sameNext above
      (condition.grown layout blocks runtime fuel _ _ _ _ _)
      (body.grown layout blocks runtime fuel _ _ _ _ _ _ _)
      (next.grown layout blocks runtime fuel _ _ _ _ _)
      (tested exits targets lands high _ _ stack above false
        points.condition.toDrawn points.conditionEnd.toLater
        ⟨known.visited1, known.joined2,
          points.loop.start analyzed (points.leaves1.known analyzed visited0).1, placed.exposed⟩
        landing.1.1.2)
      (turned exits1 targets1 ⟨true, true, lands.return_⟩
        ⟨fun _ => above, high.return_⟩ _ p1 stack above false false true points.body.toDrawn
        points.bodyEnd.toLater ⟨known.visited3, known.joined4,
          fun slot member present => Or.inr (known.bounded3 slot member present), ?_⟩ landing.2)
      rfl rfl ?_ ?_ ?_ fuel state reached
    · intro slot member
      simp only [exits1, Exits.loop] at member
      split at member
      · simp only [Layout.exposures, List.mem_filter, Bool.and_eq_true] at member
        exact ⟨member.1, rfl, member.2.1, known.joinedNext⟩
      · exact absurd member List.not_mem_nil
    · intro state reached kept
      exact ⟨reached.left known.bounded4, kept, fun _ => reached.pass analyzed points.leaves4
        points.continue_ known.joined5 (((points.bodyEnd.toDrawn.next _).link _ _).fresh _
          (Nat.le_succ _))⟩
    · intro state left exposed kept
      refine ⟨left, kept, fun isSome => left.pass analyzed points.leaves4 points.continue_
        known.visited4 known.joined5 (((points.bodyEnd.toDrawn.next _).link _ _).fresh _
          (Nat.le_succ _)) ?_ ?_⟩
      · intro slot member
        refine ⟨known.bounded4 slot member, fun taken => ?_⟩
        exact (known.same slot member).trans
          (known.inside slot member (known.back slot member taken))
      · intro slot member used present
        cases early : (blocks junction).use slot with
        | true => exact kept slot member (known.around slot member present) early
        | false =>
            refine exposed slot ?_ present
            simp only [exits1, Exits.loop, isSome, if_true, Layout.exposures, List.mem_filter,
              early, Bool.not_false, Bool.and_true]
            exact ⟨member, used⟩
    · intro state went
      exact Arrived.behind_next went.1 went.2.1 went.2.2
        (fun absent => Optional.perform_none absent)
        (next.grown layout blocks runtime fuel _ _ _ _ _ state) thirds known.bounded6 known.back
        known.round fun slot member taken =>
          Or.inr (known.wide slot member (known.round slot member taken))

theorem Node.Leading.break_ {expression : Node F O}
    (analyzed : Analyzed layout graph blocks)
    (value : expression.Leading graph layout blocks runtime fuel) :
    (Node.break_ expression).Leading graph layout blocks runtime fuel := by
  intro exits targets lands high base privates stack above tail operand clear flow drawn later
    placed landing
  simp only [Node.lands, Bool.and_eq_true] at landing
  have inner := later.jump
  have passage := expression.passage analyzed targets base drawn inner privates
  have bounded := passage.bounded placed.visited placed.bounded
  have first := value exits targets lands high base privates
    exits.breakStack (high.break_ landing.1) exits.breakIsTail false exits.breakMustClear drawn
    inner placed.jump landing.2
  refine first.andThen (fun _ => true) (fun slot _ => (Known.jump _).mpr)
    (fun state => Grown.insertNulls _ state) ?_ fun _ _ => Or.inr rfl
  intro state reached _ _
  have left := reached.leave bounded (blocks exits.breakJunction)
  refine ⟨left.1.widen fun slot _ => (Known.jump _).mpr, landing.1, ?_⟩
  intro slot member used present
  refine (left.2 slot member used present).imp_left fun taken => ?_
  exact (Known.jump _).mpr (bounded slot member taken)

theorem Node.Leading.continue_ :
    (Node.continue_ : Node F O).Leading graph layout blocks runtime fuel := by
  intro exits targets lands high base privates stack above tail operand clear flow drawn later
    placed landing state reached admitted
  have left := reached.left placed.bounded
  refine ⟨⟨left.toSound.expose _, fun slot member assigned =>
    (Known.jump _).mpr (left.assigned slot member assigned)⟩, landing, ?_⟩
  intro slot member _
  refine admitted (.exposed slot (state.written slot)) ?_
  exact List.mem_append_right _ (List.mem_map_of_mem member)

theorem Node.Leading.return_ {expression : Node F O}
    (analyzed : Analyzed layout graph blocks)
    (value : expression.Leading graph layout blocks runtime fuel) :
    (Node.return_ expression).Leading graph layout blocks runtime fuel := by
  intro exits targets lands high base privates stack above tail operand clear flow drawn later
    placed landing
  simp only [Node.lands, Bool.and_eq_true] at landing
  have inner := later.jump
  have passage := expression.passage analyzed targets base drawn inner privates
  have bounded := passage.bounded placed.visited placed.bounded
  have returnHigh := high.return_ landing.1
  have first := value exits targets lands high base privates
    exits.returnStack returnHigh exits.returnIsTail false false drawn inner placed.jump landing.2
  refine first.andThen (fun _ => true) (fun slot _ => (Known.jump _).mpr) ?_ ?_
    fun _ _ => Or.inr rfl
  · intro state
    split
    · exact Grown.read _ _ state
    · exact Grown.insertNulls _ state
  · intro state reached _
    split
    · intro _
      rw [State.read_of_high returnHigh]
      exact (reached.left bounded).widen fun slot _ => (Known.jump _).mpr
    · intro _
      have left := reached.leave bounded (blocks exits.returnJunction)
      exact ⟨left.1.widen fun slot _ => (Known.jump _).mpr, landing.1⟩

theorem Node.Leading.try_ {body : Node F O} {catches : Catches F O} {finally_ : Optional F O}
    (analyzed : Analyzed layout graph blocks)
    (tried : body.Leading graph layout blocks runtime fuel)
    (clauses : catches.Leading graph layout blocks runtime fuel)
    (closed : finally_.Leading graph layout blocks runtime fuel) :
    (Node.try_ body catches finally_).Leading graph layout blocks runtime fuel := by
  intro exits targets lands high base privates stack above tail operand clear flow drawn later
    placed landing
  simp only [Node.lands, Bool.and_eq_true] at landing
  have points := Node.try_graph drawn later
  let blockCatches := base + 1 + 1 + body.blocks
  let junction := blockCatches + catches.blocks
  let blockExit := junction + 1 + 1 + finally_.blocks
  let targets1 : Targets := ⟨some junction, some junction, some junction⟩
  let p1 := body.after layout blocks (base + 1 + 1) (blocks base).out
  let p2 := catches.after layout blocks blockCatches p1
  have first := points.leaves1.known analyzed placed.visited
  have second := points.enter.known analyzed first.1
  have joined5 := (points.leaves3.live analyzed placed.joined).1
  have passage5 := finally_.passage analyzed ⟨none, none, none⟩ _ points.finally_.toDrawn
    points.finallyEnd.toLater p2
  have joinedFinally := passage5.joined joined5
  have finish := points.finish.live analyzed joinedFinally
  have joined2 := (points.leaves2.live analyzed finish.1).1
  have passage1 := body.passage analyzed targets1 _ points.body.toDrawn points.bodyEnd.toLater
    (blocks base).out
  have joinedBody := passage1.joined joined2
  have visited2 := passage1.visited second.1
  have bounded2 := passage1.bounded second.1 (points.enter.start analyzed first.1)
  have third := points.leaves2.known analyzed visited2
  have around := (points.back.known analyzed third.1).2
  have fourth := points.finish.known analyzed third.1
  have inside : ∀ slot ∈ layout.locals, (blocks junction).in_ slot = true → p1 slot = true :=
    fun slot member present => passage1.keeps second.1 (points.enter.start analyzed first.1)
      slot member ((points.enter.out analyzed slot).mpr (around slot member present))
  have full := fun slot member present => bounded2 slot member (inside slot member present)
  have caught := catches.passage analyzed targets1 junction blockCatches points.catches
    points.catchesEnd visited2 full p1 fun slot member present =>
      third.2 slot member (bounded2 slot member present)
  let third1 := ((flow.next base).link base junction).link base (base + 1)
  let flow2 := body.flow layout targets1 (base + 1 + 1) (third1.enter (base + 1))
  let third4 := ((catches.flow layout targets1 junction blockCatches
    (flow2.next junction)).link junction base).link junction (junction + 1)
  let flow5 := finally_.flow layout ⟨none, none, none⟩ (junction + 1 + 1)
    (third4.enter (junction + 1))
  let third6 := (((flow5.next blockExit).jump targets.break_).jump targets.continue_).jump
    targets.return_
  have known : TryKnown layout blocks base junction flow2 flow5 (third6.enter blockExit) p1 p2
      (finally_.after layout blocks (junction + 1 + 1) p2) := {
    around := around
    used := fun slot member used => (points.skip.live analyzed finish.1).2 slot member
      (finish.2 slot member used)
    body := bounded2
    caught := fun slot member => ⟨caught.1 slot member, fun present =>
      caught.2 slot member (inside slot member present)⟩
    left := third.2
    past := fun slot member present =>
      passage5.known fourth.1 slot member (Or.inr (fourth.2 slot member present))
    bounded := passage5.bounded fourth.1 fun slot member present =>
      Or.inr (fourth.2 slot member (caught.1 slot member present))
    wider := fun slot member known => Or.inr ((points.leaves3.known analyzed
      (passage5.visited fourth.1)).2 slot member known) }
  refine Guides.try_ analyzed points
    (((points.start.toDrawn.next base).link base junction).fresh _ (Nat.le_succ _))
    ((((points.catches.step (catches.flow_step layout targets1 junction blockCatches _)).link
      junction base).link junction (junction + 1)).fresh _ (Nat.le_succ _))
    (((((points.finallyEnd.toDrawn.next blockExit).jump targets.break_).jump
      targets.continue_).jump targets.return_).fresh _ (le_refl _))
    placed high above known joinedBody joinedFinally
    (body.grown layout blocks runtime fuel _ _ _ _ _ _ _) ?_
    (finally_.grown layout blocks runtime fuel _ _ _ _ _)
    (tried (exits.try_ junction stack) targets1 lands
      ⟨fun _ => above, fun _ => above⟩ _ _ stack above false false clear points.body.toDrawn
      points.bodyEnd.toLater ⟨second.1, joined2, points.enter.start analyzed first.1,
        fun slot absent => absurd absent List.not_mem_nil⟩ landing.1.1) ?_
    (closed Exits.none ⟨none, none, none⟩ ⟨false, false, false⟩
      ⟨fun absent => absurd absent (by decide), fun absent => absurd absent (by decide)⟩ _ p2
      (stack + 1) (by omega) true points.finally_.toDrawn points.finallyEnd.toLater
      ⟨fourth.1, joined5, fun slot member present =>
        Or.inr (fourth.2 slot member (caught.1 slot member present)), fun slot absent =>
          absurd absent List.not_mem_nil⟩ landing.2)
  · exact fun thrown state => (Grown.expose _ state).trans
      (catches.grown layout blocks runtime fuel _ _ _ _ _ _ _)
  · intro thrown state left kept admitted
    have grown := catches.grown layout blocks runtime fuel (exits.try_ junction stack)
      blockCatches p1 stack clear thrown
      (state.expose (catches.exposed layout blocks base blockCatches))
    have sound : (state.expose (catches.exposed layout blocks base blockCatches)).Sound layout :=
      left.toSound.expose _
    refine clauses (exits.try_ junction stack) targets1 lands
      ⟨fun _ => above, fun _ => above⟩ rfl junction blockCatches p1 stack above clear
      points.catches points.catchesEnd visited2 finish.1 full
      (fun slot member => ⟨fun present => third.2 slot member (bounded2 slot member present),
        inside slot member⟩) landing.1.2 thrown _ sound
      (fun slot member assigned => third.2 slot member (left.assigned slot member assigned)) ?_
      admitted
    intro given slot member present used
    cases early : (blocks base).use slot with
    | true => exact kept slot member (around slot member present) early
    | false =>
        refine admitted (.exposed slot (state.written slot)) (grown.log _ ?_)
        refine List.mem_append_right _ (List.mem_map_of_mem ?_)
        rw [Catches.exposed_some given]
        simp only [Layout.exposures, List.mem_filter, early, Bool.not_false, Bool.and_true]
        exact ⟨member, used⟩

theorem Node.Leading.throw_ {expression : Node F O}
    (analyzed : Analyzed layout graph blocks)
    (value : expression.Leading graph layout blocks runtime fuel) :
    (Node.throw_ expression).Leading graph layout blocks runtime fuel := by
  intro exits targets lands high base privates stack above tail operand clear flow drawn later
    placed landing
  have passage := expression.passage analyzed targets base drawn later privates
  have first := value exits targets lands high base privates stack above
    false false false drawn later placed landing
  refine first.andThen (fun _ => true) (fun _ _ => id) (fun state => Grown.refl state) ?_
    fun _ _ => Or.inr rfl
  intro state reached _ _
  exact reached.left (passage.bounded placed.visited placed.bounded)

theorem Node.Leading.symbolGet (analyzed : Analyzed layout graph blocks) (resolved : Nat)
    (variable_ : Option Nat) (symbol : Nat) :
    (Node.symbolGet resolved variable_ symbol : Node F O).Leading graph layout blocks runtime
      fuel := by
  intro exits targets lands high base privates stack above tail operand clear flow drawn later
    placed landing
  cases variable_ with
  | none => exact fun state reached => reached.deliver placed.bounded settles_nothing _ above _
  | some variable_ =>
      intro state reached
      have passage : Passage layout blocks flow (flow.mention layout variable_ false) privates
        (layout.knows privates variable_) := Passage.mention flow privates variable_ false
      have bounded := passage.bounded placed.visited placed.bounded
      simp only [Node.perform, Node.flow, Node.after]
      split
      · next isShared =>
          have same : layout.knows privates variable_ = privates := by
            simp [Layout.knows, Layout.slot_shared isShared]
          rw [same]
          refine ((reached.shared false isShared).temporary above _).leads ?_
          intro slot _ settled
          simp [Node.settles, Layout.slot_shared isShared] at settled
      · next isPrivate =>
          obtain ⟨known, written⟩ := reached.know analyzed (by simpa using isPrivate) later
          have settled : ∀ slot ∈ layout.locals, (Node.symbolGet resolved (some variable_)
              symbol : Node F O).settles layout slot = true →
              (state.know layout privates (layout.variableOf variable_).index).written slot =
                true := by
            intro slot _ settles
            simp only [Node.settles, beq_iff_eq] at settles
            obtain ⟨_, rfl, _⟩ := Layout.slot_eq_some settles
            exact written
          split
          · exact known.leads settled
          · split
            · exact fun _ => (known.read written).left bounded
            · refine ((known.read written).temporary above _).leads ?_
              rw [State.written_write above, State.written_read]
              exact settled

theorem Node.Leading.scopePut {outer variable_ : Nat} {value : Node F O}
    (analyzed : Analyzed layout graph blocks)
    (put : value.Leading graph layout blocks runtime fuel) :
    (Node.scopePut outer variable_ value).Leading graph layout blocks runtime fuel := by
  intro exits targets lands high base privates stack above tail operand clear flow drawn later
    placed landing
  have drawn1 := drawn.step (value.flow_step layout targets base flow)
  have step := (Step.refl layout (base + value.blocks)
    (value.flow layout targets base flow)).mention variable_ true
  have inner := later.step step drawn1
  have passage := value.passage analyzed targets base drawn inner privates
  have mention : Passage layout blocks (value.flow layout targets base flow) _
      (value.after layout blocks base privates) _ := Passage.mention _ _ variable_ true
  have wider := mention.known (passage.visited placed.visited)
  have first := fun operand => put exits targets lands high base privates stack
    above false operand false drawn inner (placed.left mention) landing
  have either : ∀ slot, (Node.scopePut outer variable_ value).settles layout slot = true →
      value.settles layout slot = true ∨ (layout.slot variable_ == some slot) = true := by
    intro slot settled
    exact (Bool.or_eq_true_iff.mp settled).symm
  have assigned : ∀ (isPrivate : (layout.variableOf variable_).isShared = false)
      (state : State F O W) (found : Value F O),
      Reached layout blocks (value.flow layout targets base flow)
        (value.after layout blocks base privates) state →
      Meets (Leads layout blocks exits lands
        ((value.flow layout targets base flow).mention layout variable_ true)
        (layout.knows (value.after layout blocks base privates) variable_)
        fun slot => layout.slot variable_ == some slot)
        (.normal, state.write layout.privates (layout.variableOf variable_).index found) := by
    intro isPrivate state found reached
    refine (reached.put variable_ isPrivate found (fun slot apart => Layout.knows_of_ne apart)
      (fun slot => Layout.knows_of_known) fun slot => Layout.knows_slot).leads ?_
    intro slot _ settled
    obtain ⟨_, rfl, _⟩ := Layout.slot_eq_some (beq_iff_eq.mp settled)
    simp [State.write, layout.bounded variable_ isPrivate]
  intro entry entered
  unfold Node.perform
  dsimp only
  split
  · next direct =>
      have isPrivate : (layout.variableOf variable_).isShared = false := by
        simpa using (Bool.and_eq_true_iff.mp direct).2
      refine (first true).andThen (fun slot => layout.slot variable_ == some slot) wider ?_ ?_
        either entry entered
      · intro state
        split
        · exact Grown.copy _ _ _ state
        · exact Grown.copy _ _ _ state
        · exact Grown.write _ _ _ state
      · intro state reached written
        split
        · next index form =>
            have read := reached.read (reached.toSound.operand written index form)
            exact assigned isPrivate _ _ read
        · rw [State.copy_of_high above]
          exact assigned isPrivate _ _ reached
        · exact assigned isPrivate _ _ reached
  · refine (first false).andThen (fun slot => layout.slot variable_ == some slot) wider ?_ ?_
      either entry entered
    · intro state
      split
      · exact Grown.setWorld _ state
      · exact Grown.copy _ _ _ state
    · intro state reached _
      split
      · next isShared =>
          have same : layout.knows (value.after layout blocks base privates) variable_ =
              value.after layout blocks base privates := by
            simp [Layout.knows, Layout.slot_shared isShared]
          unfold Node.after
          rw [same]
          refine ((reached.setWorld _).shared true isShared).leads ?_
          intro slot _ settled
          simp [Layout.slot_shared isShared] at settled
      · next isPrivate =>
          rw [State.copy_of_high above]
          exact assigned (by simpa using isPrivate) _ _ reached

theorem Node.Leading.self (outer : Nat) :
    (Node.self outer : Node F O).Leading graph layout blocks runtime fuel := by
  intro exits targets lands high base privates stack above tail operand clear flow drawn later
    placed landing state reached
  refine (reached.unless_ clear above _).leads ?_
  exact fun slot _ absent => absurd absent (by simp [Node.settles])

theorem Node.Leading.literal (literal : Literal F O) :
    (Node.literal literal : Node F O).Leading graph layout blocks runtime fuel := by
  intro exits targets lands high base privates stack above tail operand clear flow drawn later
    placed landing
  exact fun state reached => reached.literally placed.bounded settles_nothing _ tail operand clear above

theorem Node.Leading.unary {op : Unary} {expression : Node F O}
    (analyzed : Analyzed layout graph blocks)
    (value : expression.Leading graph layout blocks runtime fuel) :
    (Node.unary op expression).Leading graph layout blocks runtime fuel := by
  intro exits targets lands high base privates stack above tail operand clear flow drawn later
    placed landing
  have passage := expression.passage analyzed targets base drawn later privates
  have bounded := passage.bounded placed.visited placed.bounded
  have first := value exits targets lands high base privates (stack + 1)
    (Nat.le_succ_of_le above) false true false drawn later placed landing
  refine first.then_ (fun _ _ => id) ?_ ?_
  · intro state
    split
    · exact Grown.literally _ _ _ _ _ _ state
    · exact (Grown.fetched _ _ state).trans (Grown.deliver _ _ _ _ _)
  · intro state reached written
    split
    · exact reached.literally bounded settles_nothing _ tail operand clear above
    · exact (reached.fetched (reached.toSound.operand written)).deliver bounded settles_nothing tail
        above _

theorem Node.Leading.binary {op : Binary} {left right : Node F O}
    (analyzed : Analyzed layout graph blocks)
    (former : left.Leading graph layout blocks runtime fuel)
    (latter : right.Leading graph layout blocks runtime fuel) :
    (Node.binary op left right).Leading graph layout blocks runtime fuel := by
  intro exits targets lands high base privates stack above tail operand clear flow drawn later
    placed landing
  simp only [Node.lands, Bool.and_eq_true] at landing
  have drawn1 := drawn.step (left.flow_step layout targets base flow)
  have size : base + (Node.binary op left right).blocks =
      base + left.blocks + right.blocks := by
    simp only [Node.blocks]
    omega
  rw [size] at later
  have step := right.flow_step layout targets (base + left.blocks)
    (left.flow layout targets base flow)
  have passage0 := left.passage analyzed targets base drawn (later.step step drawn1) privates
  have passage1 := right.passage analyzed targets _ drawn1 later
    (left.after layout blocks base privates)
  have placed1 := placed.right passage0
  have bounded := passage1.bounded placed1.visited placed1.bounded
  have first := former exits targets lands high base privates (stack + 1)
    (by omega) false true false drawn (later.step step drawn1) (placed.left passage1) landing.1
  have second := latter exits targets lands high _ _ (stack + 2) (by omega) false
    true false drawn1 later placed1 landing.2
  refine first.andThen (fun slot => (Node.binary op left right).settles layout slot)
    (passage1.known placed1.visited) ?_ ?_ fun _ => Or.inr
  · intro state
    refine (right.grown layout blocks runtime fuel _ _ _ _ _ _ _ state).andThen ?_
    intro state
    split
    · exact Grown.literally _ _ _ _ _ _ state
    · exact ((Grown.fetched _ _ state).trans (Grown.fetched _ _ _)).trans
        (Grown.deliver _ _ _ _ _)
  intro state reached settled
  have both := Leads.settle (second state reached)
    (right.grown layout blocks runtime fuel _ _ _ _ _ _ _ state) settled
    fun slot => Bool.or_eq_true_iff.mp
  refine Leads.andThen both (fun _ _ => id) ?_ ?_
  · intro state
    split
    · exact Grown.literally _ _ _ _ _ _ state
    · exact ((Grown.fetched _ _ state).trans (Grown.fetched _ _ _)).trans
        (Grown.deliver _ _ _ _ _)
  · intro after _ arrived written
    have written0 := fun slot member (settles : left.settles layout slot = true) =>
      written slot member (Bool.or_eq_true_iff.mpr (Or.inl settles))
    have written1 := fun slot member (settles : right.settles layout slot = true) =>
      written slot member (Bool.or_eq_true_iff.mpr (Or.inr settles))
    split
    · exact arrived.literally bounded written _ tail operand clear above
    · have fetched := arrived.fetched (arrived.toSound.operand written0)
      have kept := Grown.fetched layout.privates (left.form layout) after
      have last := fetched.fetched fun index form =>
        kept.written index (arrived.toSound.operand written1 index form)
      refine last.deliver bounded ?_ tail above _
      exact fun slot member settles => (Grown.fetched _ _ _).written slot
        (kept.written slot (written slot member settles))

theorem Node.Leading.preserve :
    (Node.preserve : Node F O).Leading graph layout blocks runtime fuel := by
  intro exits targets lands high base privates stack above tail operand clear flow drawn later
    placed landing
  exact fun state reached => reached.leads settles_nothing

theorem Node.call_later {target : Node F O} {arguments : Nodes F O} {expands : List Nat}
    {targets : Targets} {base : Nat} {flow : Flow} (drawn : Drawn base flow)
    (later : Later (base + (Node.call target arguments expands).blocks)
      ((Node.call target arguments expands).flow layout targets base flow) graph) :
    Drawn (base + target.blocks) (target.flow layout targets base flow) ∧
      Later (base + target.blocks) (target.flow layout targets base flow) graph ∧
      Later (base + target.blocks + arguments.blocks)
        (arguments.flow layout targets (base + target.blocks)
          (target.flow layout targets base flow)) graph := by
  have drawn1 := drawn.step (target.flow_step layout targets base flow)
  have size : base + (Node.call target arguments expands).blocks =
      base + target.blocks + arguments.blocks := by
    simp only [Node.blocks]
    omega
  rw [size] at later
  have step := arguments.flow_step layout targets (base + target.blocks)
    (target.flow layout targets base flow)
  exact ⟨drawn1, later.step step drawn1, later⟩

/-- A call of a variable that is not put on the stack first. -/
theorem Node.Leading.callVariable {target : Node F O} {arguments : Nodes F O}
    {expands : List Nat} {found : Nat × Variable} (analyzed : Analyzed layout graph blocks)
    (values : arguments.ValuesLeading graph layout blocks runtime fuel)
    (called : target.called layout expands = some found) :
    (Node.call target arguments expands).Leading graph layout blocks runtime fuel := by
  intro exits targets lands high base privates stack above tail operand clear flow drawn later
    placed landing
  simp only [Node.lands, Bool.and_eq_true] at landing
  obtain ⟨drawn1, inner, later⟩ := Node.call_later drawn later
  have passage0 := target.passage analyzed targets base drawn inner privates
  have first := fun p placed1 => values exits targets lands high
    (base + target.blocks) p (stack + 2) (by omega) drawn1 later placed1 landing.2
  have grown := fun p state => arguments.values_grown layout blocks runtime fuel exits
    (base + target.blocks) p (stack + 2) state
  rcases found with ⟨resolved, found⟩
  obtain ⟨variable_, symbol, rfl, rfl⟩ := Node.called_some called
  have passage1 := arguments.passage analyzed targets _ drawn1 later privates
  have placed1 := placed.right passage0.overlook
  have bounded := passage1.bounded placed1.visited placed1.bounded
  have after : (Node.call (.symbolGet resolved (some variable_) symbol) arguments
      expands).after layout blocks base privates = arguments.after layout blocks
        (base + (Node.symbolGet resolved (some variable_) symbol : Node F O).blocks)
        privates := by
    simp [Node.after, called]
  have settles : ∀ slot, (Node.call (.symbolGet resolved (some variable_) symbol) arguments
      expands).settles layout slot = arguments.settles layout slot := by
    simp [Node.settles, called]
  intro state reached
  simp only [after, settles]
  unfold Node.perform
  simp only [called]
  refine Leads.andThen (first privates placed1 state (reached.overlook analyzed inner))
    (fun _ _ => id) ?_ ?_
  · intro state
    split
    · exact (Grown.write _ _ _ state).trans (Grown.deliver _ _ _ _ _)
    · exact ((Grown.write _ _ _ state).trans (Grown.note _ _)).trans
        (Grown.deliver _ _ _ _ _)
  · intro last shape arrived written
    have since : Grown state last := by
      have evaluated := grown privates state
      rwa [shape] at evaluated
    have cleared := arrived.temporary (Nat.le_succ_of_le above) Value.null
    have kept : ∀ slot ∈ layout.locals, arguments.settles layout slot = true →
        (last.write layout.privates (stack + 1) .null).written slot = true := by
      rw [State.written_write (Nat.le_succ_of_le above)]
      exact written
    split
    · exact cleared.deliver bounded kept tail above _
    · next isPrivate =>
        have isPrivate : (layout.variableOf variable_).isShared = false := by
          simpa using isPrivate
        have fair : (Access.callee (layout.variableOf variable_).index
            (decide ((layout.variableOf variable_).index < layout.arguments) ||
              privates (layout.variableOf variable_).index ||
              arguments.settles layout (layout.variableOf variable_).index)
            ((last.write layout.privates (stack + 1) .null).slot
              (layout.variableOf variable_).index)
            ((last.write layout.privates (stack + 1) .null).assigned
              (layout.variableOf variable_).index)).Sound := by
          intro known
          have below := layout.bounded variable_ isPrivate
          refine cleared.slot _ below ?_
          rw [State.written_write (Nat.le_succ_of_le above)]
          rcases Nat.lt_or_ge (layout.variableOf variable_).index layout.arguments with
            argument | local_
          · exact arrived.argument _ argument
          · simp only [Nat.not_lt.mpr local_, decide_false, Bool.false_or,
              Bool.or_eq_true] at known
            rcases known with taken | settled
            · exact since.written _ (reached.callee analyzed isPrivate inner taken)
            · refine written _ ?_ settled
              exact Layout.slot_local (Layout.slot_private isPrivate local_)
        exact (cleared.note fair).deliver bounded kept tail above _

/-- What is called, with a null beside it or as a method. -/
theorem Node.Leading.target {target : Node F O} (analyzed : Analyzed layout graph blocks)
    (named : target.Leading graph layout blocks runtime fuel)
    (methods : ∀ action operands, target = .operate action operands →
      operands.ValuesLeading graph layout blocks runtime fuel) {exits : Exits} {targets : Targets}
    {lands : Lands} (high : High layout exits lands) {base : Nat} {privates : Nat → Bool}
    {stack : Nat} (above : layout.privates ≤ stack) {flow : Flow} (drawn : Drawn base flow)
    (inner : Later (base + target.blocks) (target.flow layout targets base flow) graph)
    (placed0 : Placed layout blocks exits targets flow (target.flow layout targets base flow)
      privates) (landing : target.lands lands = true) :
    Guides layout blocks exits lands flow (target.flow layout targets base flow) privates
      (target.after layout blocks base privates) (fun slot => target.settles layout slot)
      (target.performTarget layout blocks runtime fuel exits base privates stack) := by
  have passage0 := target.passage analyzed targets base drawn inner privates
  have bounded0 := passage0.bounded placed0.visited placed0.bounded
  have value := named exits targets lands high base privates stack above
    false false false drawn inner placed0 landing
  have pushed : Guides layout blocks exits lands flow
      (target.flow layout targets base flow) privates
      (target.after layout blocks base privates)
      (fun slot => target.settles layout slot) fun state =>
        andThen (target.perform layout blocks runtime fuel exits base privates stack false
          false false state) fun state =>
            (.normal, state.write layout.privates (stack + 1) .null) := by
    refine value.then_ (fun _ _ => id) (fun state => Grown.write _ _ _ state) ?_
    intro state reached _
    exact (reached.temporary (Nat.le_succ_of_le above) .null).leads settles_nothing
  cases target with
  | operate action operands =>
      have bound : ∀ binding, Guides layout blocks exits lands flow
          (operands.flow layout targets base flow) privates
          (operands.after layout blocks base privates)
          (fun slot => operands.settles layout slot) fun state =>
            andThen (operands.performValues layout blocks runtime fuel exits base privates
              stack state) (bind runtime layout.privates binding stack) := by
        intro binding
        refine ((methods action operands rfl) exits targets lands high base privates stack
          above drawn inner placed0 landing).then_ (fun _ _ => id)
          (fun state => Grown.bind runtime layout.privates binding stack state) ?_
        intro state reached _
        exact reached.bind bounded0 settles_nothing runtime binding above
      cases action with
      | objectGet key => exact bound _
      | getAt => exact bound _
      | _ => exact pushed
  | _ => exact pushed

theorem Node.Leading.call {target : Node F O} {arguments : Nodes F O} {expands : List Nat}
    (analyzed : Analyzed layout graph blocks)
    (named : target.Leading graph layout blocks runtime fuel)
    (methods : ∀ action operands, target = .operate action operands →
      operands.ValuesLeading graph layout blocks runtime fuel)
    (values : arguments.ValuesLeading graph layout blocks runtime fuel)
    (called : target.called layout expands = none) :
    (Node.call target arguments expands).Leading graph layout blocks runtime fuel := by
  intro exits targets lands high base privates stack above tail operand clear flow drawn later
    placed landing
  simp only [Node.lands, Bool.and_eq_true] at landing
  obtain ⟨drawn1, inner, later⟩ := Node.call_later drawn later
  have passage0 := target.passage analyzed targets base drawn inner privates
  have first := fun p placed1 => values exits targets lands high
    (base + target.blocks) p (stack + 2) (by omega) drawn1 later placed1 landing.2
  have grown := fun p state => arguments.values_grown layout blocks runtime fuel exits
    (base + target.blocks) p (stack + 2) state
  have passage1 := arguments.passage analyzed targets _ drawn1 later
    (target.after layout blocks base privates)
  have placed0 := placed.left passage1
  have placed1 := placed.right passage0
  have bounded := passage1.bounded placed1.visited placed1.bounded
  have targeted := Node.Leading.target analyzed named methods high above drawn inner placed0
    landing.1
  have after : (Node.call target arguments expands).after layout blocks base privates =
      arguments.after layout blocks (base + target.blocks)
        (target.after layout blocks base privates) := by
    simp [Node.after, called]
  have settles : ∀ slot, (Node.call target arguments expands).settles layout slot =
      (target.settles layout slot || arguments.settles layout slot) := by
    simp [Node.settles, called]
  intro state reached
  simp only [after, settles]
  rw [Node.perform_call called]
  refine targeted.andThen (fun slot => arguments.settles layout slot)
    (passage1.known placed1.visited) ?_ ?_ (fun slot => Bool.or_eq_true_iff.mp) state reached
  · exact fun state => (grown _ state).andThen fun state => Grown.deliver _ _ _ state _
  · intro state reached _
    refine (first _ placed1).then_ (fun _ _ => id) (fun state => Grown.deliver _ _ _ state _)
      ?_ state reached
    intro state reached _
    exact reached.deliver bounded settles_nothing tail above _

theorem Nodes.SequenceLeading.nil :
    (Nodes.nil : Nodes F O).SequenceLeading graph layout blocks runtime fuel := by
  intro exits targets lands high base privates stack above tail clear flow drawn later placed
    landing state reached
  refine (reached.unless_ clear above .null).leads ?_
  exact fun _ _ absent => absurd absent (by simp [Nodes.settles])

theorem Nodes.SequenceLeading.cons {head : Node F O} {rest : Nodes F O}
    (analyzed : Analyzed layout graph blocks)
    (former : head.Leading graph layout blocks runtime fuel)
    (latter : rest.SequenceLeading graph layout blocks runtime fuel) :
    (Nodes.cons head rest).SequenceLeading graph layout blocks runtime fuel := by
  intro exits targets lands high base privates stack above tail clear flow drawn later placed
    landing
  simp only [Nodes.lands, Bool.and_eq_true] at landing
  have drawn1 := drawn.step (head.flow_step layout targets base flow)
  have size : base + (Nodes.cons head rest).blocks = base + head.blocks + rest.blocks := by
    simp only [Nodes.blocks]
    omega
  rw [size] at later
  have step := rest.flow_step layout targets (base + head.blocks)
    (head.flow layout targets base flow)
  have passage0 := head.passage analyzed targets base drawn (later.step step drawn1) privates
  have passage1 := rest.passage analyzed targets _ drawn1 later
    (head.after layout blocks base privates)
  have placed1 := placed.right passage0
  have first := fun tail clear => former exits targets lands high base privates
    stack above tail false clear drawn (later.step step drawn1) (placed.left passage1) landing.1
  cases rest with
  | nil =>
      intro state reached
      refine Leads.fewer (first tail clear state reached) ?_
      exact fun slot settled => by simpa [Nodes.settles] using settled
  | cons next others =>
      have second := latter exits targets lands high _
        (head.after layout blocks base privates) stack above tail clear drawn1 later placed1
        landing.2
      refine (first false true).andThen _ (passage1.known placed1.visited)
        ((Nodes.cons next others).sequence_grown layout blocks runtime fuel _ _ _ _ _ _) ?_
        fun slot => Bool.or_eq_true_iff.mp
      exact fun state reached _ => second state reached

theorem Nodes.ValuesLeading.nil :
    (Nodes.nil : Nodes F O).ValuesLeading graph layout blocks runtime fuel := by
  intro exits targets lands high base privates stack above flow drawn later placed landing
  exact fun state reached => reached.leads fun _ _ absent => absurd absent (by simp [Nodes.settles])

theorem Nodes.ValuesLeading.cons {head : Node F O} {rest : Nodes F O}
    (analyzed : Analyzed layout graph blocks)
    (former : head.Leading graph layout blocks runtime fuel)
    (latter : rest.ValuesLeading graph layout blocks runtime fuel) :
    (Nodes.cons head rest).ValuesLeading graph layout blocks runtime fuel := by
  intro exits targets lands high base privates stack above flow drawn later placed landing
  simp only [Nodes.lands, Bool.and_eq_true] at landing
  have drawn1 := drawn.step (head.flow_step layout targets base flow)
  have size : base + (Nodes.cons head rest).blocks = base + head.blocks + rest.blocks := by
    simp only [Nodes.blocks]
    omega
  rw [size] at later
  have step := rest.flow_step layout targets (base + head.blocks)
    (head.flow layout targets base flow)
  have passage0 := head.passage analyzed targets base drawn (later.step step drawn1) privates
  have passage1 := rest.passage analyzed targets _ drawn1 later
    (head.after layout blocks base privates)
  have placed1 := placed.right passage0
  have first := former exits targets lands high base privates stack above false
    false false drawn (later.step step drawn1) (placed.left passage1) landing.1
  have second := latter exits targets lands high _
    (head.after layout blocks base privates) (stack + 1) (by omega) drawn1 later placed1
    landing.2
  refine first.andThen _ (passage1.known placed1.visited)
    (rest.values_grown layout blocks runtime fuel _ _ _ _) ?_ fun slot => Bool.or_eq_true_iff.mp
  exact fun state reached _ => second state reached

theorem Catches.Leading.nil :
    (Catches.nil : Catches F O).Leading graph layout blocks runtime fuel := by
  intro exits targets lands high exposed junctionFinally base privates stack above clear flow drawn
    settled visited joined full taken landing thrown state sound assigned ready
  exact fun _ => ⟨sound, assigned, trivial⟩

theorem Catches.Leading.cons {expression body : Node F O} {variable_ : Nat} {tail : Catches F O}
    (analyzed : Analyzed layout graph blocks)
    (asked : expression.Leading graph layout blocks runtime fuel)
    (handled : body.Leading graph layout blocks runtime fuel)
    (others : tail.Leading graph layout blocks runtime fuel) :
    (Catches.cons expression variable_ body tail).Leading graph layout blocks runtime fuel := by
  intro exits targets lands high exposed junctionFinally base privates stack above clear flow drawn
    settled visited joined full taken landing thrown state sound assigned ready
  simp only [Catches.lands, Bool.and_eq_true] at landing
  have rest := Catches.tail_drawn layout targets junctionFinally expression body variable_ drawn
  have size : base + (Catches.cons expression variable_ body tail).blocks =
      base + 1 + expression.blocks + 1 + body.blocks + tail.blocks := by
    simp only [Catches.blocks]
    omega
  rw [size] at settled
  have after := tail.flow_settled rest settled
  have points := Catches.catch_graph drawn after
  let blockBody := base + 1 + expression.blocks
  let flow2 := expression.flow layout targets (base + 1) ((flow.next base).enter base)
  let flow3 := ((flow2.next blockBody).enter blockBody).mention layout variable_ true
  let p1 := expression.after layout blocks (base + 1) privates
  let p2 := body.after layout blocks (blockBody + 1) p1
  have bounded := fun slot member present => full slot member ((taken slot member).mp present)
  have first := points.leaves1.known analyzed visited
  have passage1 := expression.passage analyzed targets _ points.expression.toDrawn
    points.expressionEnd.toLater privates
  have visited2 := passage1.visited first.1
  have bounded1 := passage1.bounded first.1 (points.leaves1.start analyzed visited bounded)
  have second := points.leaves2.known analyzed visited2
  have named : Passage layout blocks ((flow2.next blockBody).enter blockBody) flow3 p1 _ :=
    Passage.mention _ p1 variable_ true
  have visited3 := named.visited second.1
  have bounded3 := named.overlook.bounded second.1
    (points.leaves2.start analyzed visited2 bounded1)
  have passage4 := body.passage analyzed targets _ points.body.toDrawn points.bodyEnd.toLater p1
  have bounded4 := passage4.bounded visited3 bounded3
  have third := points.leaves3.known analyzed (passage4.visited visited3)
  have joined4 := (points.leaves3.live analyzed joined).1
  have joinedBody := named.joined (passage4.joined joined4)
  have joined2 := (points.leaves2.live analyzed joinedBody).1
  have out3 := fun slot member known =>
    third.2 slot member (passage4.known visited3 slot member known)
  have out1 := fun slot member known => out3 slot member (named.known second.1 slot member
    (Or.inr (second.2 slot member known)))
  have keeps1 : ∀ slot ∈ layout.locals, (blocks junctionFinally).in_ slot = true →
      p1 slot = true := fun slot member present =>
    passage1.keeps first.1 (points.leaves1.start analyzed visited bounded) slot member
      ((taken slot member).mpr present)
  have keeps2 := fun slot member present =>
    passage4.keeps visited3 bounded3 slot member (keeps1 slot member present)
  have present : ∀ slot, layout.slot variable_ = some slot → p1 slot = true := by
    intro slot found
    have member := Layout.slot_local found
    exact keeps1 slot member (out3 slot member (named.bounded second.1
      (points.leaves2.start analyzed visited2 bounded1) slot member (Layout.knows_slot found)))
  have same := after.finished.symm.trans points.leaves2.finished
  have reached : Reached layout blocks ((flow.next base).enter base) privates state := by
    refine ⟨sound, ?_, fun slot member other => (taken slot member).mpr
      (assigned slot member other)⟩
    intro slot member known live
    refine ready (by simp) slot member ((taken slot member).mp known) ?_
    simpa [Live, Flow.enter, (drawn.next base).fresh base (le_refl _), Block.empty] using live
  refine Meets.clause analyzed points ((points.expressionEnd.toDrawn.next _).fresh _ (le_refl _))
    joinedBody bounded1 bounded4 out1 third.2 present
    (asked exits targets lands high _ privates stack above false false false
      points.expression.toDrawn points.expressionEnd.toLater ⟨first.1, joined2,
        points.leaves1.start analyzed visited bounded, fun slot member =>
          absurd (exposed ▸ member) List.not_mem_nil⟩ landing.1.1)
    (handled exits targets lands high _ p1 stack above false false clear
      points.body.toDrawn points.bodyEnd.toLater ⟨visited3, joined4, bounded3,
        fun slot member => absurd (exposed ▸ member) List.not_mem_nil⟩ landing.1.2) ?_
    (body.grown layout blocks runtime fuel _ _ _ _ _ _ _)
    (tail.grown layout blocks runtime fuel _ _ _ _ _ _) thrown state reached
  intro state reached
  refine others exits targets lands high exposed junctionFinally _ p2 stack above
    clear rest settled visited2 joined ?_ ?_ landing.2 thrown state reached.toSound ?_ ?_
  · intro slot member inside
    have known := bounded1 slot member (keeps1 slot member inside)
    exact known.imp_left (congrArg (fun block : Block => block.out slot) same).trans
  · exact fun slot member => ⟨fun known => third.2 slot member (bounded4 slot member known),
      keeps2 slot member⟩
  · exact fun slot member assigned =>
      out1 slot member (bounded1 slot member (reached.assigned slot member assigned))
  · intro given slot member inside used
    have entry := tail.entry analyzed targets junctionFinally _ rest settled joined given
    have live := (entry.1.live analyzed entry.2).2 slot member used
    refine reached.live slot member (keeps1 slot member inside) ?_
    exact live.imp_left (congrArg (fun block : Block => block.out slot) same.symm).trans

theorem Optional.Leading.none :
    (Optional.none : Optional F O).Leading graph layout blocks runtime fuel := by
  intro exits targets lands high base privates stack above clear flow drawn later placed landing
  exact fun state reached =>
    reached.leads fun _ _ absent => absurd absent (by simp [Optional.settles])

theorem Optional.Leading.some {node : Node F O}
    (value : node.Leading graph layout blocks runtime fuel) :
    (Optional.some node).Leading graph layout blocks runtime fuel := by
  intro exits targets lands high base privates stack above clear flow drawn later placed landing
  exact value exits targets lands high base privates stack above false false clear
    drawn later placed landing

end Leading

variable (runtime : Runtime F O W) (fuel : Nat)

mutual

theorem Node.leads (analyzed : Analyzed layout graph blocks) :
    ∀ node : Node F O, node.Leading graph layout blocks runtime fuel
  | .nodes items => .nodes (Nodes.sequence_leads analyzed items)
  | .operate _ operands => .operate analyzed (Nodes.values_leads analyzed operands)
  | .if_ condition true_ false_ =>
      .if_ analyzed (Optional.leads analyzed condition) (Node.leads analyzed true_)
        (Node.leads analyzed false_)
  | .while_ condition body =>
      .while_ analyzed (Optional.leads analyzed condition) (Node.leads analyzed body)
  | .for_ initialization condition next body =>
      .for_ analyzed (Optional.leads analyzed initialization)
        (Optional.leads analyzed condition) (Optional.leads analyzed next)
        (Node.leads analyzed body)
  | .break_ expression => .break_ analyzed (Node.leads analyzed expression)
  | .continue_ => .continue_
  | .return_ expression => .return_ analyzed (Node.leads analyzed expression)
  | .try_ body catches finally_ =>
      .try_ analyzed (Node.leads analyzed body) (Catches.leads analyzed catches)
        (Optional.leads analyzed finally_)
  | .throw_ expression => .throw_ analyzed (Node.leads analyzed expression)
  | .symbolGet resolved variable_ symbol => .symbolGet analyzed resolved variable_ symbol
  | .scopePut _ _ value => .scopePut analyzed (Node.leads analyzed value)
  | .self outer => .self outer
  | .literal literal => .literal literal
  | .unary _ expression => .unary analyzed (Node.leads analyzed expression)
  | .binary _ left right => .binary analyzed (Node.leads analyzed left) (Node.leads analyzed right)
  | .preserve => .preserve
  | .call target arguments expands => by
      have values := Nodes.values_leads analyzed arguments
      cases called : target.called layout expands with
      | some found => exact .callVariable analyzed values called
      | none =>
          refine .call analyzed (Node.leads analyzed target) ?_ values called
          rintro action operands rfl
          exact Nodes.values_leads analyzed operands
  termination_by tree => sizeOf tree

theorem Nodes.sequence_leads (analyzed : Analyzed layout graph blocks) :
    ∀ nodes : Nodes F O, nodes.SequenceLeading graph layout blocks runtime fuel
  | .nil => .nil
  | .cons head rest =>
      .cons analyzed (Node.leads analyzed head) (Nodes.sequence_leads analyzed rest)
  termination_by tree => sizeOf tree

theorem Nodes.values_leads (analyzed : Analyzed layout graph blocks) :
    ∀ nodes : Nodes F O, nodes.ValuesLeading graph layout blocks runtime fuel
  | .nil => .nil
  | .cons head rest => .cons analyzed (Node.leads analyzed head) (Nodes.values_leads analyzed rest)
  termination_by tree => sizeOf tree

theorem Catches.leads (analyzed : Analyzed layout graph blocks) :
    ∀ catches : Catches F O, catches.Leading graph layout blocks runtime fuel
  | .nil => .nil
  | .cons expression _ body tail =>
      .cons analyzed (Node.leads analyzed expression) (Node.leads analyzed body)
        (Catches.leads analyzed tail)
  termination_by tree => sizeOf tree

theorem Optional.leads (analyzed : Analyzed layout graph blocks) :
    ∀ optional : Optional F O, optional.Leading graph layout blocks runtime fuel
  | .none => .none
  | .some node => .some (Node.leads analyzed node)
  termination_by tree => sizeOf tree

end

end Nodes

end Xemmai
