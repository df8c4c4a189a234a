import Xemmai.Analysis

/-!
# What is known along a tree

At a point of a graph, a slot is known if it may have been mentioned on the way,
and live if it has been mentioned in the current block or may be read before it
is assigned. Known slots stay known through every node, and the privates that
the emitter takes as initialised are always known ones.
-/

namespace Xemmai

set_option autoImplicit false

open Flow

section

variable (blocks : Nat → Block)

def Known (flow : Flow) (slot : Nat) : Prop :=
  (flow.blocks flow.current).out slot = true ∨ (blocks flow.current).in_ slot = true

def Live (flow : Flow) (slot : Nat) : Prop :=
  (flow.blocks flow.current).out slot = true ∨ (blocks flow.current).use slot = true

/-- The backward pass has been at a block; it starts at block 1. -/
def Joined (block : Nat) : Prop := block = 1 ∨ (blocks block).backward = true

end

section Edges

variable {layout : Layout} {graph : Flow} {blocks : Nat → Block}

theorem Flow.Leaves.known (analyzed : Analyzed layout graph blocks) {flow : Flow} {target : Nat}
    (leaves : Leaves flow target graph) (visited : (blocks flow.current).forward = true) :
    (blocks target).forward = true ∧
      ∀ slot ∈ layout.locals, Known blocks flow slot → (blocks target).in_ slot = true := by
  have closed := analyzed.forward _ _ leaves.edge visited
  refine ⟨closed.1, ?_⟩
  intro slot member known
  refine closed.2 slot member ((analyzed.out _ _).mpr ?_)
  rwa [leaves.finished]

theorem Flow.Leaves.live (analyzed : Analyzed layout graph blocks) {flow : Flow} {target : Nat}
    (leaves : Leaves flow target graph) (joined : Joined blocks target) :
    Joined blocks flow.current ∧
      ∀ slot ∈ layout.locals, (blocks target).use slot = true → Live blocks flow slot := by
  have closed := analyzed.backward _ _ leaves.edge joined
  refine ⟨Or.inr closed.1, ?_⟩
  intro slot member used
  rcases closed.2 slot member used with defined | earlier
  · rw [analyzed.define] at defined
    have accessed := (analyzed.proper _).define slot defined
    rw [leaves.finished] at accessed
    exact Or.inl accessed
  · exact Or.inr earlier

theorem Flow.Junction.known (analyzed : Analyzed layout graph blocks) {block target : Nat}
    (junction : Junction block target graph) (visited : (blocks block).forward = true) :
    (blocks target).forward = true ∧
      ∀ slot ∈ layout.locals, (blocks block).in_ slot = true → (blocks target).in_ slot = true := by
  have closed := analyzed.forward _ _ junction.edge visited
  exact ⟨closed.1, fun slot member present =>
    closed.2 slot member ((analyzed.out _ _).mpr (Or.inr present))⟩

theorem Flow.Junction.live (analyzed : Analyzed layout graph blocks) {block target : Nat}
    (junction : Junction block target graph) (joined : Joined blocks target) :
    Joined blocks block ∧
      ∀ slot ∈ layout.locals, (blocks target).use slot = true →
        (blocks block).use slot = true := by
  have closed := analyzed.backward _ _ junction.edge joined
  refine ⟨Or.inr closed.1, ?_⟩
  intro slot member used
  rcases closed.2 slot member used with defined | earlier
  · rw [analyzed.define, junction.empty] at defined
    exact absurd (show false = true from defined) (by decide)
  · exact earlier

theorem Flow.Junction.out (analyzed : Analyzed layout graph blocks) {block target : Nat}
    (junction : Junction block target graph) (slot : Nat) :
    (blocks block).out slot = true ↔ (blocks block).in_ slot = true := by
  rw [analyzed.out, junction.empty]
  simp [Block.empty]

end Edges

/-- What is known before a part and after it, `privates` and `after` being what
the emitter takes as initialised. -/
structure Passage (layout : Layout) (blocks : Nat → Block) (first second : Flow)
    (privates after : Nat → Bool) : Prop where
  visited : (blocks first.current).forward = true → (blocks second.current).forward = true
  known : (blocks first.current).forward = true →
    ∀ slot ∈ layout.locals, Known blocks first slot → Known blocks second slot
  joined : Joined blocks second.current → Joined blocks first.current
  bounded : (blocks first.current).forward = true →
    (∀ slot ∈ layout.locals, privates slot = true → Known blocks first slot) →
    ∀ slot ∈ layout.locals, after slot = true → Known blocks second slot
  keeps : (blocks first.current).forward = true →
    (∀ slot ∈ layout.locals, privates slot = true → Known blocks first slot) →
    ∀ slot ∈ layout.locals, privates slot = true → after slot = true

namespace Passage

variable {layout : Layout} {blocks : Nat → Block}

theorem refl (flow : Flow) (privates : Nat → Bool) :
    Passage layout blocks flow flow privates privates :=
  ⟨fun visited => visited, fun _ _ _ known => known, fun joined => joined,
    fun _ bounded => bounded, fun _ _ _ _ present => present⟩

theorem trans {first second third : Flow} {p q r : Nat → Bool}
    (left : Passage layout blocks first second p q)
    (right : Passage layout blocks second third q r) : Passage layout blocks first third p r where
  visited visited := right.visited (left.visited visited)
  known visited slot member known :=
    right.known (left.visited visited) slot member (left.known visited slot member known)
  joined joined := left.joined (right.joined joined)
  bounded visited bounded := right.bounded (left.visited visited) (left.bounded visited bounded)
  keeps visited bounded slot member present :=
    right.keeps (left.visited visited) (left.bounded visited bounded) slot member
      (left.keeps visited bounded slot member present)

theorem jump {first second : Flow} {p q : Nat → Bool}
    (passage : Passage layout blocks first second p q) (target : Option Nat) :
    Passage layout blocks first (second.jump target) p q := by
  cases target with
  | none => exact passage
  | some block =>
      exact ⟨passage.visited, passage.known, passage.joined, passage.bounded, passage.keeps⟩

/-- An access makes its slot known, whether the emitter takes it as initialised
or not. -/
theorem mention (flow : Flow) (privates : Nat → Bool) (variable_ : Nat) (put : Bool) :
    Passage layout blocks flow (flow.mention layout variable_ put) privates
      (layout.knows privates variable_) := by
  unfold Flow.mention Layout.knows
  cases layout.slot variable_ with
  | none => exact refl flow privates
  | some slot =>
      dsimp only
      have grows := Block.access_grows slot put (flow.blocks flow.current)
      have own := Block.access_out slot put (flow.blocks flow.current)
      have known : ∀ other, Known blocks flow other → Known blocks (flow.access slot put) other := by
        intro other known
        simp only [Known, Flow.access, Function.update_self] at known ⊢
        exact known.imp_left (grows.out other)
      refine ⟨fun visited => visited, fun _ other _ => known other, fun joined => joined, ?_, ?_⟩
      · intro _ bounded other member present
        by_cases same : other = slot
        · subst same
          exact Or.inl (by simpa [Flow.access] using own)
        · rw [Function.update_of_ne same] at present
          exact known other (bounded other member present)
      · intro _ _ other _ present
        by_cases same : other = slot
        · subst same
          exact Function.update_self _ _ _
        · rwa [Function.update_of_ne same]

theorem overlook {first second : Flow} {p q : Nat → Bool}
    (passage : Passage layout blocks first second p q) : Passage layout blocks first second p p :=
  { passage with
    bounded := fun visited bounded slot member present =>
      passage.known visited slot member (bounded slot member present)
    keeps := fun _ _ _ _ present => present }

/-- A part that ends in a junction, whose `v_out` then are the privates. -/
theorem merge {graph : Flow} (analyzed : Analyzed layout graph blocks) {first second : Flow}
    {p q : Nat → Bool} {junction exit : Nat}
    (passage : Passage layout blocks first second p q) (leaves : Leaves second junction graph)
    (exits : Junction junction exit graph) (third : Flow) :
    Passage layout blocks first (third.enter exit) p (blocks junction).out where
  visited visited := (exits.known analyzed
    (leaves.known analyzed (passage.visited visited)).1).1
  known visited slot member known := by
    have left := leaves.known analyzed (passage.visited visited)
    exact Or.inr ((exits.known analyzed left.1).2 slot member
      (left.2 slot member (passage.known visited slot member known)))
  joined joined :=
    passage.joined (leaves.live analyzed (exits.live analyzed joined).1).1
  bounded visited _ slot member present := by
    have left := leaves.known analyzed (passage.visited visited)
    exact Or.inr ((exits.known analyzed left.1).2 slot member
      ((exits.out analyzed slot).mp present))
  keeps visited bounded slot member present := by
    have left := leaves.known analyzed (passage.visited visited)
    exact (exits.out analyzed slot).mpr (left.2 slot member
      (passage.known visited slot member (bounded slot member present)))

theorem enter {graph : Flow} (analyzed : Analyzed layout graph blocks) {first second : Flow}
    {p q : Nat → Bool} {target : Nat}
    (passage : Passage layout blocks first second p q) (leaves : Leaves second target graph)
    (third : Flow) :
    Passage layout blocks first (third.enter target) p q where
  visited visited := (leaves.known analyzed (passage.visited visited)).1
  known visited slot member known := Or.inr
    ((leaves.known analyzed (passage.visited visited)).2 slot member
      (passage.known visited slot member known))
  joined joined := passage.joined (leaves.live analyzed joined).1
  bounded visited bounded slot member present := Or.inr
    ((leaves.known analyzed (passage.visited visited)).2 slot member
      (passage.bounded visited bounded slot member present))
  keeps := passage.keeps

end Passage

section Nodes

variable {F O : Type} {layout : Layout} {graph : Flow} {blocks : Nat → Block}

mutual

theorem Node.passage (analyzed : Analyzed layout graph blocks) (targets : Targets) (base : Nat)
    (node : Node F O) {flow : Flow} (drawn : Drawn base flow)
    (later : Later (base + node.blocks) (node.flow layout targets base flow) graph)
    (privates : Nat → Bool) :
    Passage layout blocks flow (node.flow layout targets base flow) privates
      (node.after layout blocks base privates) := by
  cases node with
  | nodes items => exact items.passage analyzed targets base drawn later privates
  | operate action operands => exact operands.passage analyzed targets base drawn later privates
  | if_ condition true_ false_ =>
      have points := Node.if_graph drawn later
      have first := condition.passage analyzed targets base drawn points.condition.toLater privates
      have second := (first.enter analyzed points.leaves1 _).trans
        (true_.passage analyzed targets _ points.true_.toDrawn points.trueEnd.toLater _)
      exact second.merge analyzed points.leaves3 points.exit _
  | while_ condition body =>
      have points := Node.while_graph drawn later
      have second := ((Passage.refl flow privates).merge analyzed points.leaves1 points.loop
        _).trans (condition.passage analyzed targets _ points.condition.toDrawn
          points.conditionEnd.toLater _)
      exact second.merge analyzed points.leaves3 points.exit _
  | for_ initialization condition next body =>
      have points := Node.for_graph drawn later
      have zeroth := initialization.passage analyzed targets base drawn points.start.toLater privates
      have second := (zeroth.merge analyzed points.leaves1 points.loop _).trans
        (condition.passage analyzed targets _ points.condition.toDrawn
          points.conditionEnd.toLater _)
      exact second.merge analyzed points.leaves3 points.exit _
  | break_ expression =>
      exact (expression.passage analyzed targets base drawn later.jump privates).jump _
  | continue_ => exact (Passage.refl flow privates).jump _
  | return_ expression =>
      exact (expression.passage analyzed targets base drawn later.jump privates).jump _
  | try_ body catches finally_ =>
      let blockCatches := base + 1 + 1 + body.blocks
      let junctionFinally := blockCatches + catches.blocks
      let targets1 : Targets := ⟨some junctionFinally, some junctionFinally, some junctionFinally⟩
      let entered := ((flow.next base).link base junctionFinally).link base (base + 1)
      let flow2 := body.flow layout targets1 (base + 1 + 1) (entered.enter (base + 1))
      let flow3 := catches.flow layout targets1 junctionFinally blockCatches
        (flow2.next junctionFinally)
      let caught := (flow3.link junctionFinally base).link junctionFinally (junctionFinally + 1)
      have points := Node.try_graph drawn later
      have first := (Passage.refl flow privates).merge analyzed points.leaves1 points.enter entered
      have second : Passage layout blocks flow flow2 _ _ := first.trans (body.passage analyzed _ _
        points.body.toDrawn points.bodyEnd.toLater _)
      have third := second.merge analyzed points.leaves2 points.finish caught
      have fourth := finally_.passage analyzed _ _ points.finally_.toDrawn
        points.finallyEnd.toLater
      have clauses : (blocks flow.current).forward = true →
          (∀ slot ∈ layout.locals, privates slot = true → Known blocks flow slot) →
          (∀ slot ∈ layout.locals, catches.after layout blocks (base + 1 + 1 + body.blocks)
            (body.after layout blocks (base + 1 + 1) (blocks base).out) slot = true →
              Known blocks (caught.enter (junctionFinally + 1)) slot) ∧
          ∀ slot ∈ layout.locals, privates slot = true →
            catches.after layout blocks (base + 1 + 1 + body.blocks)
              (body.after layout blocks (base + 1 + 1) (blocks base).out) slot = true := by
        intro visited bounded
        have arrived := points.leaves2.known analyzed (second.visited visited)
        have back := points.back.known analyzed arrived.1
        have around := points.enter.known analyzed back.1
        have inside := (body.passage analyzed _ _ points.body.toDrawn points.bodyEnd.toLater
          (blocks base).out).known around.1
        have result := catches.passage analyzed _ _ _ points.catches points.catchesEnd
          (second.visited visited)
          (fun slot member present => inside slot member
            (Or.inr (around.2 slot member (back.2 slot member present))))
          _ (fun slot member present => arrived.2 slot member
            (second.bounded visited bounded slot member present))
        refine ⟨fun slot member present => Or.inr
          ((points.finish.known analyzed arrived.1).2 slot member (result.1 slot member present)), ?_⟩
        exact fun slot member present => result.2 slot member
          (second.keeps visited bounded slot member present)
      have whole : Passage layout blocks flow _ privates _ :=
        ({ third with
          bounded := fun visited bounded => (clauses visited bounded).1
          keeps := fun visited bounded => (clauses visited bounded).2 } :
          Passage layout blocks flow _ privates _).trans (fourth _)
      exact whole.enter analyzed points.leaves3 _
  | throw_ expression => exact expression.passage analyzed targets base drawn later privates
  | symbolGet resolved variable_ symbol =>
      cases variable_ with
      | none => exact Passage.refl flow privates
      | some variable_ => exact Passage.mention flow privates variable_ false
  | scopePut outer variable_ value =>
      have step := (Step.refl layout (base + value.blocks)
        (value.flow layout targets base flow)).mention variable_ true
      have drawn1 := drawn.step (value.flow_step layout targets base flow)
      have first := value.passage analyzed targets base drawn (later.step step drawn1) privates
      exact first.trans (Passage.mention _ _ variable_ true)
  | self outer => exact Passage.refl flow privates
  | literal literal => exact Passage.refl flow privates
  | unary op expression => exact expression.passage analyzed targets base drawn later privates
  | binary op left right =>
      have drawn1 := drawn.step (left.flow_step layout targets base flow)
      have size : base + (Node.binary op left right).blocks =
          base + left.blocks + right.blocks := by
        simp only [Node.blocks]
        omega
      rw [size] at later
      have step := right.flow_step layout targets (base + left.blocks)
        (left.flow layout targets base flow)
      have first := left.passage analyzed targets base drawn (later.step step drawn1) privates
      exact first.trans (right.passage analyzed targets _ drawn1 later _)
  | preserve => exact Passage.refl flow privates
  | call target arguments expands =>
      have drawn1 := drawn.step (target.flow_step layout targets base flow)
      have size : base + (Node.call target arguments expands).blocks =
          base + target.blocks + arguments.blocks := by
        simp only [Node.blocks]
        omega
      rw [size] at later
      have step := arguments.flow_step layout targets (base + target.blocks)
        (target.flow layout targets base flow)
      have first := target.passage analyzed targets base drawn (later.step step drawn1) privates
      simp only [Node.flow, Node.after]
      split
      · exact first.overlook.trans (arguments.passage analyzed targets _ drawn1 later _)
      · exact first.trans (arguments.passage analyzed targets _ drawn1 later _)

theorem Nodes.passage (analyzed : Analyzed layout graph blocks) (targets : Targets) (base : Nat)
    (nodes : Nodes F O) {flow : Flow} (drawn : Drawn base flow)
    (later : Later (base + nodes.blocks) (nodes.flow layout targets base flow) graph)
    (privates : Nat → Bool) :
    Passage layout blocks flow (nodes.flow layout targets base flow) privates
      (nodes.after layout blocks base privates) := by
  cases nodes with
  | nil => exact Passage.refl flow privates
  | cons head tail =>
      have drawn1 := drawn.step (head.flow_step layout targets base flow)
      have size : base + (Nodes.cons head tail).blocks = base + head.blocks + tail.blocks := by
        simp only [Nodes.blocks]
        omega
      rw [size] at later
      have step := tail.flow_step layout targets (base + head.blocks)
        (head.flow layout targets base flow)
      have first := head.passage analyzed targets base drawn (later.step step drawn1) privates
      exact first.trans (tail.passage analyzed targets _ drawn1 later _)

/-- In a try, what may be mentioned anywhere is known everywhere: the block after
the clauses leads back to the one before the body. -/
theorem Catches.passage (analyzed : Analyzed layout graph blocks) (targets : Targets)
    (junctionFinally base : Nat) (catches : Catches F O) {flow : Flow} (drawn : Drawn base flow)
    (settled : Settled (base + catches.blocks)
      (catches.flow layout targets junctionFinally base flow) graph)
    (visited : (blocks flow.current).forward = true)
    (full : ∀ slot ∈ layout.locals, (blocks junctionFinally).in_ slot = true →
      Known blocks flow slot)
    (privates : Nat → Bool)
    (bounded : ∀ slot ∈ layout.locals, privates slot = true →
      (blocks junctionFinally).in_ slot = true) :
    (∀ slot ∈ layout.locals, catches.after layout blocks base privates slot = true →
      (blocks junctionFinally).in_ slot = true) ∧
    ∀ slot ∈ layout.locals, privates slot = true →
      catches.after layout blocks base privates slot = true := by
  cases catches with
  | nil => exact ⟨bounded, fun _ _ present => present⟩
  | cons expression variable_ body tail =>
      have rest := Catches.tail_drawn layout targets junctionFinally
        expression body variable_ drawn
      have size : base + (Catches.cons expression variable_ body tail).blocks =
          base + 1 + expression.blocks + 1 + body.blocks + tail.blocks := by
        simp only [Catches.blocks]
        omega
      rw [size] at settled
      have after := tail.flow_settled rest settled
      have points := Catches.catch_graph drawn after
      have first := ((Passage.refl flow privates).enter analyzed points.leaves1
        (flow.next base)).trans (expression.passage analyzed targets _
          points.expression.toDrawn points.expressionEnd.toLater _)
      have second := first.enter analyzed points.leaves2
        ((expression.flow layout targets (base + 1) ((flow.next base).enter base)).next
          (base + 1 + expression.blocks))
      have third := (second.trans (Passage.mention _ _ variable_ true).overlook).trans
        (body.passage analyzed targets _ points.body.toDrawn points.bodyEnd.toLater _)
      have start := fun slot member present => full slot member (bounded slot member present)
      have arrived := points.leaves3.known analyzed (third.visited visited)
      have result := tail.passage analyzed targets junctionFinally _ rest settled
        (first.visited visited)
        (by
          intro slot member present
          have known := first.known visited slot member (full slot member present)
          have same := after.finished.symm.trans points.leaves2.finished
          simp only [Known, Flow.enter] at known same ⊢
          rwa [same])
        _ (fun slot member present => arrived.2 slot member
          (third.bounded visited start slot member present))
      exact ⟨result.1, fun slot member present => result.2 slot member
        (third.keeps visited start slot member present)⟩

theorem Optional.passage (analyzed : Analyzed layout graph blocks) (targets : Targets)
    (base : Nat) (optional : Optional F O) {flow : Flow} (drawn : Drawn base flow)
    (later : Later (base + optional.blocks) (optional.flow layout targets base flow) graph)
    (privates : Nat → Bool) :
    Passage layout blocks flow (optional.flow layout targets base flow) privates
      (optional.after layout blocks base privates) := by
  cases optional with
  | none => exact Passage.refl flow privates
  | some node => exact node.passage analyzed targets base drawn later privates

end

theorem Catches.entry (analyzed : Analyzed layout graph blocks) (targets : Targets)
    (junctionFinally base : Nat) (catches : Catches F O) {flow : Flow} (drawn : Drawn base flow)
    (settled : Settled (base + catches.blocks)
      (catches.flow layout targets junctionFinally base flow) graph)
    (joined : Joined blocks junctionFinally) (given : catches ≠ .nil) :
    Leaves flow base graph ∧ Joined blocks base := by
  cases catches with
  | nil => exact absurd rfl given
  | cons expression variable_ body tail =>
      have rest := Catches.tail_drawn layout targets junctionFinally
        expression body variable_ drawn
      have size : base + (Catches.cons expression variable_ body tail).blocks =
          base + 1 + expression.blocks + 1 + body.blocks + tail.blocks := by
        simp only [Catches.blocks]
        omega
      rw [size] at settled
      have points := Catches.catch_graph drawn (tail.flow_settled rest settled)
      have privates : Nat → Bool := fun _ => false
      have first := expression.passage analyzed targets _ points.expression.toDrawn
        points.expressionEnd.toLater privates
      have second := body.passage analyzed targets _ points.body.toDrawn points.bodyEnd.toLater
        privates
      refine ⟨points.leaves1, first.joined (points.leaves2.live analyzed ?_).1⟩
      exact ((Passage.mention _ privates variable_ true).joined
        (second.joined (points.leaves3.live analyzed joined).1))

end Nodes

end Xemmai
