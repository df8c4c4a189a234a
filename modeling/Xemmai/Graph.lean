import Xemmai.Perform

/-!
# The graph of blocks

What `f_flow` does to a graph, whatever the node: it changes only the block it
starts in and the blocks it enters itself, and an access that has been recorded
stays. From this, a block that has been left is as it will be in the graph of
the whole scope.
-/

namespace Xemmai

set_option autoImplicit false

namespace Block

/-- Accesses that have been recorded stay, and only accesses are recorded. -/
structure Grows (before after : Block) : Prop where
  out : ∀ slot, before.out slot = true → after.out slot = true
  define : ∀ slot, before.out slot = true → after.define slot = before.define slot
  use : ∀ slot, before.out slot = true → after.use slot = before.use slot

theorem Grows.refl (block : Block) : Grows block block :=
  ⟨fun _ present => present, fun _ _ => rfl, fun _ _ => rfl⟩

theorem Grows.trans {first second third : Block} (left : Grows first second)
    (right : Grows second third) : Grows first third where
  out slot present := right.out slot (left.out slot present)
  define slot present :=
    (right.define slot (left.out slot present)).trans (left.define slot present)
  use slot present := (right.use slot (left.out slot present)).trans (left.use slot present)

theorem access_grows (slot : Nat) (put : Bool) (block : Block) :
    Grows block (block.access slot put) := by
  unfold access
  split
  · exact Grows.refl block
  · next absent =>
      have apart : ∀ other, block.out other = true → other ≠ slot := by
        rintro other present rfl
        exact absent present
      constructor <;> intro other present <;> simp [Function.update_of_ne (apart other present)]
      exact present

theorem access_out (slot : Nat) (put : Bool) (block : Block) :
    (block.access slot put).out slot = true := by
  unfold access
  split
  · assumption
  · simp

/-- A block as `f_flow` leaves it: a definition is an access, and nothing has
been propagated. -/
structure Proper (block : Block) : Prop where
  define : ∀ slot, block.define slot = true → block.out slot = true
  in_ : ∀ slot, block.in_ slot = false
  forward : block.forward = false
  backward : block.backward = false

theorem empty_proper : Proper empty :=
  ⟨fun _ absent => absent, fun _ => rfl, rfl, rfl⟩

theorem access_proper (slot : Nat) (put : Bool) {block : Block} (proper : block.Proper) :
    (block.access slot put).Proper := by
  unfold access
  split
  · exact proper
  · refine ⟨?_, proper.in_, proper.forward, proper.backward⟩
    intro other defined
    by_cases same : other = slot
    · subst same
      simp
    · simp only [Function.update_of_ne same] at defined ⊢
      exact proper.define other defined

/-- A block after some accesses to privates that are not arguments. -/
def Recorded (layout : Layout) (block : Block) : Prop :=
  ∃ mentions : List (Nat × Bool), (∀ mention ∈ mentions, mention.1 ∈ layout.locals) ∧
    block = mentions.foldl (fun block mention => block.access mention.1 mention.2) .empty

namespace Recorded

variable {layout : Layout} {block : Block}

theorem empty (layout : Layout) : Recorded layout .empty :=
  ⟨[], fun _ member => absurd member List.not_mem_nil, rfl⟩

theorem access (recorded : block.Recorded layout) {slot : Nat} (local_ : slot ∈ layout.locals)
    (put : Bool) : (block.access slot put).Recorded layout := by
  obtain ⟨mentions, bounded, rfl⟩ := recorded
  refine ⟨mentions ++ [(slot, put)], ?_, by rw [List.foldl_append]; rfl⟩
  intro mention member
  rcases List.mem_append.mp member with before | last
  · exact bounded mention before
  · rw [List.mem_singleton.mp last]
    exact local_

theorem proper (recorded : block.Recorded layout) : block.Proper := by
  obtain ⟨mentions, -, rfl⟩ := recorded
  induction mentions using List.reverseRecOn with
  | nil => exact empty_proper
  | append_singleton mentions mention induction =>
      rw [List.foldl_append]
      exact access_proper mention.1 mention.2 induction

end Recorded

end Block

namespace Flow

/-- What drawing a part may do to a graph: `low` and `high` bound the blocks
that the part enters. -/
structure Step (layout : Layout) (low high : Nat) (before after : Flow) : Prop where
  bounds : low ≤ high
  current : after.current = before.current ∨ (low ≤ after.current ∧ after.current < high)
  outside : ∀ block, block ≠ before.current → (block < low ∨ high ≤ block) →
    after.blocks block = before.blocks block
  grows : ∀ block, (before.blocks block).Grows (after.blocks block)
  recorded : (∀ block, (before.blocks block).Recorded layout) →
    ∀ block, (after.blocks block).Recorded layout
  edges : ∀ edge ∈ before.edges, edge ∈ after.edges

namespace Step

variable {layout : Layout}

theorem refl (layout : Layout) (bound : Nat) (flow : Flow) : Step layout bound bound flow flow :=
  ⟨le_refl _, Or.inl rfl, fun _ _ _ => rfl, fun _ => .refl _, fun recorded => recorded,
    fun _ member => member⟩

theorem trans {low middle high : Nat} {first second third : Flow}
    (left : Step layout low middle first second) (right : Step layout middle high second third) :
    Step layout low high first third where
  bounds := left.bounds.trans right.bounds
  current := by
    have := left.bounds
    have := right.bounds
    rcases right.current with same | inside
    · rcases left.current with first | inside
      · exact Or.inl (same.trans first)
      · exact Or.inr (by omega)
    · exact Or.inr (by omega)
  outside block apart away := by
    have := left.bounds
    have := right.bounds
    have other : block ≠ second.current := by
      rcases left.current with same | inside
      · rwa [same]
      · omega
    rw [right.outside block other (by omega), left.outside block apart (by omega)]
  grows block := (left.grows block).trans (right.grows block)
  recorded start := right.recorded (left.recorded start)
  edges edge member := right.edges edge (left.edges edge member)

theorem recast {low high other : Nat} {before after : Flow} (step : Step layout low high before after)
    (same : high = other) : Step layout low other before after :=
  same ▸ step

theorem link {low high : Nat} {before after : Flow} (step : Step layout low high before after)
    (source target : Nat) : Step layout low high before (after.link source target) :=
  { step with
    edges := fun edge member => List.mem_append_left _ (step.edges edge member) }

theorem next {low high : Nat} {before after : Flow} (step : Step layout low high before after)
    (target : Nat) : Step layout low high before (after.next target) :=
  step.link _ _

theorem jump {low high : Nat} {before after : Flow} (step : Step layout low high before after)
    (target : Option Nat) : Step layout low high before (after.jump target) := by
  cases target with
  | none => exact step
  | some block => exact step.next block

theorem enter {low high : Nat} {before after : Flow} (step : Step layout low high before after)
    {block : Nat} (later : high ≤ block) : Step layout low (block + 1) before (after.enter block) where
  bounds := by have := step.bounds; omega
  current := Or.inr (by have := step.bounds; simp only [Flow.enter]; omega)
  outside other apart away := step.outside other apart (by omega)
  grows := step.grows
  recorded := step.recorded
  edges := step.edges

theorem reenter {low high : Nat} {before after : Flow} (step : Step layout low high before after)
    {block : Nat} (earlier : block = before.current ∨ (low ≤ block ∧ block < high)) :
    Step layout low high before (after.enter block) :=
  { step with current := earlier }

theorem mention {low high : Nat} {before after : Flow} (step : Step layout low high before after)
    (variable_ : Nat) (put : Bool) :
    Step layout low high before (after.mention layout variable_ put) := by
  unfold Flow.mention
  cases found : layout.slot variable_ with
  | none => exact step
  | some slot =>
      have access : Step layout high high after (after.access slot put) := by
        refine ⟨le_refl _, Or.inl rfl, ?_, ?_, ?_, fun _ member => member⟩
        · intro block apart _
          exact Function.update_of_ne apart _ _
        · intro block
          by_cases same : block = after.current
          · subst same
            simpa [Flow.access] using Block.access_grows slot put _
          · simpa [Flow.access, Function.update_of_ne same] using Block.Grows.refl _
        · intro recorded block
          by_cases same : block = after.current
          · subst same
            simpa [Flow.access] using (recorded _).access (Layout.slot_local found) put
          · simpa [Flow.access, Function.update_of_ne same] using recorded block
      exact step.trans access

end Step

end Flow

section Steps

open Flow (Step)

variable {F O : Type} (layout : Layout)

mutual

theorem Node.flow_step (targets : Targets) (base : Nat) (node : Node F O) (flow : Flow) :
    Step layout base (base + node.blocks) flow (node.flow layout targets base flow) := by
  cases node with
  | nodes items => exact items.flow_step targets base flow
  | operate action operands => exact operands.flow_step targets base flow
  | if_ condition true_ false_ =>
      let blockTrue := base + condition.blocks
      let blockFalse := blockTrue + 1 + true_.blocks
      let junction := blockFalse + 1 + false_.blocks
      have step := condition.flow_step targets base flow
      have step := ((step.next blockTrue).next blockFalse).enter (le_refl blockTrue)
      have step := (step.trans (true_.flow_step targets _ _)).next junction
      have step := step.enter (le_refl blockFalse)
      have step := (step.trans (false_.flow_step targets _ _)).next junction
      exact ((step.link junction (junction + 1)).enter (Nat.le_succ _)).recast
        (by simp only [Node.blocks]; omega)
  | while_ condition body =>
      let blockBody := base + 1 + 1 + condition.blocks
      let junctionExit := blockBody + 1 + body.blocks
      have step := ((Step.refl layout base flow).next base).link base (base + 1)
      have step := step.enter (Nat.le_succ _)
      have step := step.trans (condition.flow_step targets _ _)
      have step := ((step.next blockBody).next junctionExit).enter (le_refl blockBody)
      have step := (step.trans (body.flow_step ⟨some junctionExit, some base, targets.return_⟩ _ _)).next base
      exact ((step.link junctionExit (junctionExit + 1)).enter (Nat.le_succ _)).recast
        (by simp only [Node.blocks]; omega)
  | for_ initialization condition next body =>
      let junctionCondition := base + initialization.blocks
      let blockBody := junctionCondition + 1 + 1 + condition.blocks
      let junctionNext := blockBody + 1 + body.blocks
      let junctionExit := junctionNext + 1 + 1 + next.blocks
      have step := initialization.flow_step targets base flow
      have step := (step.next junctionCondition).link junctionCondition (junctionCondition + 1)
      have step := step.enter (Nat.le_succ _)
      have step := step.trans (condition.flow_step targets _ _)
      have step := ((step.next blockBody).next junctionExit).enter (le_refl blockBody)
      have step := step.trans
        (body.flow_step ⟨some junctionExit, some junctionNext, targets.return_⟩ _ _)
      have step := (step.next junctionNext).link junctionNext (junctionNext + 1)
      have step := step.enter (Nat.le_succ _)
      have step := (step.trans (next.flow_step targets _ _)).next junctionCondition
      exact ((step.link junctionExit (junctionExit + 1)).enter (Nat.le_succ _)).recast
        (by simp only [Node.blocks]; omega)
  | break_ expression => exact (expression.flow_step targets base flow).jump _
  | continue_ => exact (Step.refl layout base flow).jump _
  | return_ expression => exact (expression.flow_step targets base flow).jump _
  | try_ body catches finally_ =>
      let junctionFinally := base + 1 + 1 + body.blocks + catches.blocks
      let targets1 : Targets := ⟨some junctionFinally, some junctionFinally, some junctionFinally⟩
      have step := ((Step.refl layout base flow).next base).link base junctionFinally
      have step := (step.link base (base + 1)).enter (Nat.le_succ _)
      have step := (step.trans (body.flow_step targets1 _ _)).next junctionFinally
      have step := step.trans (catches.flow_step targets1 junctionFinally _ _)
      have step := (step.link junctionFinally base).link junctionFinally (junctionFinally + 1)
      have step := step.enter (Nat.le_succ _)
      have step := step.trans (finally_.flow_step ⟨none, none, none⟩ _ _)
      have step := step.next (junctionFinally + 1 + 1 + finally_.blocks)
      have step := ((step.jump targets.break_).jump targets.continue_).jump targets.return_
      exact (step.enter (le_refl _)).recast (by simp only [Node.blocks]; omega)
  | throw_ expression => exact expression.flow_step targets base flow
  | symbolGet resolved variable_ symbol =>
      cases variable_ with
      | none => exact Step.refl layout base flow
      | some variable_ => exact (Step.refl layout base flow).mention variable_ false
  | scopePut outer variable_ value =>
      exact (value.flow_step targets base flow).mention variable_ true
  | self outer => exact Step.refl layout base flow
  | literal literal => exact Step.refl layout base flow
  | unary op expression => exact expression.flow_step targets base flow
  | binary op left right =>
      have step := left.flow_step targets base flow
      exact (step.trans (right.flow_step targets _ _)).recast (by simp only [Node.blocks]; omega)
  | preserve => exact Step.refl layout base flow
  | call target arguments expands =>
      have step := target.flow_step targets base flow
      exact (step.trans (arguments.flow_step targets _ _)).recast (by simp only [Node.blocks]; omega)

theorem Nodes.flow_step (targets : Targets) (base : Nat) (nodes : Nodes F O) (flow : Flow) :
    Step layout base (base + nodes.blocks) flow (nodes.flow layout targets base flow) := by
  cases nodes with
  | nil => exact Step.refl layout base flow
  | cons head tail =>
      have step := head.flow_step targets base flow
      exact (step.trans (tail.flow_step targets _ _)).recast (by simp only [Nodes.blocks]; omega)

theorem Catches.flow_step (targets : Targets) (junctionFinally base : Nat)
    (catches : Catches F O) (flow : Flow) :
    Step layout base (base + catches.blocks) flow
      (catches.flow layout targets junctionFinally base flow) := by
  cases catches with
  | nil => exact Step.refl layout base flow
  | cons expression variable_ body tail =>
      have entered := ((Step.refl layout base flow).next base).enter (le_refl base)
      have expressed := entered.trans (expression.flow_step targets _ _)
      have step := expressed.next (base + 1 + expression.blocks)
      have step := (step.enter (le_refl _)).mention variable_ true
      have step := (step.trans (body.flow_step targets _ _)).next junctionFinally
      have step := step.reenter (expressed.current.imp_right (by omega))
      exact (step.trans (tail.flow_step targets junctionFinally _ _)).recast
        (by simp only [Catches.blocks]; omega)

theorem Optional.flow_step (targets : Targets) (base : Nat) (optional : Optional F O)
    (flow : Flow) :
    Step layout base (base + optional.blocks) flow (optional.flow layout targets base flow) := by
  cases optional with
  | none => exact Step.refl layout base flow
  | some node => exact node.flow_step targets base flow

end

end Steps

namespace Flow

/-- A graph drawn up to `bound`: what is numbered from there on is untouched. -/
structure Drawn (bound : Nat) (flow : Flow) : Prop where
  current : flow.current < bound
  fresh : ∀ block, bound ≤ block → flow.blocks block = .empty

/-- What `flow` says of the graph of the whole scope: a block that has been
entered and left is as it will be, and the current one only grows. -/
structure Later (bound : Nat) (flow graph : Flow) : Prop where
  closed : ∀ block, block < bound → block ≠ flow.current →
    graph.blocks block = flow.blocks block
  grows : (flow.blocks flow.current).Grows (graph.blocks flow.current)
  edges : ∀ edge ∈ flow.edges, edge ∈ graph.edges

structure Point (bound : Nat) (flow graph : Flow) : Prop extends
  Drawn bound flow, Later bound flow graph

/-- The block that `flow` is in is left for `target`. -/
structure Leaves (flow : Flow) (target : Nat) (graph : Flow) : Prop where
  edge : (flow.current, target) ∈ graph.edges
  finished : graph.blocks flow.current = flow.blocks flow.current

/-- A block without accesses that goes on to `target`. -/
structure Junction (block target : Nat) (graph : Flow) : Prop where
  edge : (block, target) ∈ graph.edges
  empty : graph.blocks block = .empty

theorem Drawn.step {layout : Layout} {low high : Nat} {before after : Flow} (drawn : Drawn low before)
    (step : Step layout low high before after) : Drawn high after where
  current := by
    have := drawn.current
    have := step.bounds
    rcases step.current with same | inside <;> omega
  fresh block above := by
    have := drawn.current
    have := step.bounds
    rw [step.outside block (by omega) (Or.inr above)]
    exact drawn.fresh block (by omega)

theorem Drawn.link {bound : Nat} {flow : Flow} (drawn : Drawn bound flow) (source target : Nat) :
    Drawn bound (flow.link source target) :=
  ⟨drawn.current, drawn.fresh⟩

theorem Drawn.next {bound : Nat} {flow : Flow} (drawn : Drawn bound flow) (target : Nat) :
    Drawn bound (flow.next target) :=
  drawn.link _ _

theorem Drawn.enter {bound : Nat} {flow : Flow} (drawn : Drawn bound flow) {block : Nat}
    (later : bound ≤ block) : Drawn (block + 1) (flow.enter block) :=
  ⟨Nat.lt_succ_self block, fun other above => drawn.fresh other (by omega)⟩

namespace Later

theorem step {layout : Layout} {low high : Nat} {before after graph : Flow}
    (later : Later high after graph) (step : Step layout low high before after)
    (drawn : Drawn low before) : Later low before graph where
  closed block below apart := by
    have := step.bounds
    have outside : block ≠ after.current := by
      rcases step.current with same | inside
      · rwa [same]
      · omega
    rw [later.closed block (by omega) outside, step.outside block apart (Or.inl below)]
  grows := by
    have below := drawn.current
    have := step.bounds
    have grown := step.grows before.current
    by_cases same : before.current = after.current
    · have := later.grows
      rw [← same] at this
      exact grown.trans this
    · rw [later.closed before.current (by omega) same]
      exact grown
  edges edge member := later.edges edge (step.edges edge member)

theorem link {bound source target : Nat} {flow graph : Flow}
    (later : Later bound (flow.link source target) graph) : Later bound flow graph :=
  ⟨later.closed, later.grows, fun edge member => later.edges edge (List.mem_append_left _ member)⟩

theorem linked {bound source target : Nat} {flow graph : Flow}
    (later : Later bound (flow.link source target) graph) : (source, target) ∈ graph.edges :=
  later.edges _ (List.mem_append_right _ (List.mem_singleton_self _))

theorem jump {bound : Nat} {target : Option Nat} {flow graph : Flow}
    (later : Later bound (flow.jump target) graph) : Later bound flow graph := by
  cases target with
  | none => exact later
  | some block => exact link later

theorem jumped {bound block : Nat} {target : Option Nat} {flow graph : Flow}
    (later : Later bound (flow.jump target) graph) (present : target = some block) :
    (flow.current, block) ∈ graph.edges := by
  subst present
  exact linked later

theorem enter {bound block : Nat} {flow graph : Flow}
    (later : Later (block + 1) (flow.enter block) graph) (drawn : Drawn bound flow)
    (above : bound ≤ block) : Later bound flow graph where
  closed other below _ := later.closed other (by omega) (by simp only [Flow.enter]; omega)
  grows := by
    have below := drawn.current
    rw [later.closed flow.current (by omega) (by simp only [Flow.enter]; omega)]
    exact .refl _
  edges := later.edges

theorem finished {bound block : Nat} {flow graph : Flow}
    (later : Later (block + 1) (flow.enter block) graph) (drawn : Drawn bound flow)
    (above : bound ≤ block) : graph.blocks flow.current = flow.blocks flow.current := by
  have below := drawn.current
  exact later.closed flow.current (by omega) (by simp only [Flow.enter]; omega)

theorem untouched {bound block other : Nat} {flow graph : Flow}
    (later : Later (block + 1) (flow.enter block) graph) (drawn : Drawn bound flow)
    (lower : bound ≤ other) (upper : other < block) : graph.blocks other = .empty := by
  rw [later.closed other (by omega) (by simp only [Flow.enter]; omega)]
  exact drawn.fresh other lower

end Later

/-- As `Later`, with the current block left for good too. -/
structure Settled (bound : Nat) (flow graph : Flow) : Prop extends Later bound flow graph where
  finished : graph.blocks flow.current = flow.blocks flow.current

theorem Later.settled {bound block : Nat} {flow graph : Flow}
    (later : Later (block + 1) (flow.enter block) graph) (drawn : Drawn bound flow)
    (above : bound ≤ block) : Settled bound flow graph :=
  ⟨later.enter drawn above, later.finished drawn above⟩

theorem Settled.link {bound source target : Nat} {flow graph : Flow}
    (settled : Settled bound (flow.link source target) graph) : Settled bound flow graph :=
  ⟨settled.toLater.link, settled.finished⟩

theorem Settled.closed_all {bound block : Nat} {flow graph : Flow}
    (settled : Settled bound flow graph) (below : block < bound) :
    graph.blocks block = flow.blocks block := by
  by_cases same : block = flow.current
  · rw [same]
    exact settled.finished
  · exact settled.closed block below same

theorem Settled.reenter {bound block : Nat} {flow graph : Flow} (drawn : Drawn bound flow)
    (settled : Settled bound (flow.enter block) graph) : Settled bound flow graph where
  closed other below _ := settled.closed_all below
  grows := by
    rw [settled.closed_all drawn.current]
    exact .refl _
  edges := settled.edges
  finished := settled.closed_all drawn.current

end Flow

section Constructs

open Flow

variable {F O : Type} {layout : Layout} {graph : Flow}

structure IfGraph (graph : Flow) (blockTrue blockFalse junction : Nat)
    (flow1 flow2 flow3 flow4 flow5 : Flow) : Prop where
  condition : Point blockTrue flow1 graph
  leaves1 : Leaves flow1 blockTrue graph
  leaves2 : Leaves flow1 blockFalse graph
  true_ : Point (blockTrue + 1) flow2 graph
  trueEnd : Point blockFalse flow3 graph
  leaves3 : Leaves flow3 junction graph
  false_ : Point (blockFalse + 1) flow4 graph
  falseEnd : Point junction flow5 graph
  leaves4 : Leaves flow5 junction graph
  exit : Junction junction (junction + 1) graph

theorem Node.if_graph {targets : Targets} {base : Nat} {condition : Optional F O}
    {true_ false_ : Node F O} {flow : Flow} (drawn : Drawn base flow)
    (later : Later (base + (Node.if_ condition true_ false_).blocks)
      ((Node.if_ condition true_ false_).flow layout targets base flow) graph) :
    let blockTrue := base + condition.blocks
    let blockFalse := blockTrue + 1 + true_.blocks
    let junction := blockFalse + 1 + false_.blocks
    let flow1 := condition.flow layout targets base flow
    let flow2 := ((flow1.next blockTrue).next blockFalse).enter blockTrue
    let flow3 := true_.flow layout targets (blockTrue + 1) flow2
    let flow4 := (flow3.next junction).enter blockFalse
    let flow5 := false_.flow layout targets (blockFalse + 1) flow4
    IfGraph graph blockTrue blockFalse junction flow1 flow2 flow3 flow4 flow5 := by
  intro blockTrue blockFalse junction flow1 flow2 flow3 flow4 flow5
  have step1 := condition.flow_step layout targets base flow
  have drawn1 : Drawn blockTrue flow1 := drawn.step step1
  have drawn2 : Drawn (blockTrue + 1) flow2 :=
    ((drawn1.next _).next _).enter (le_refl _)
  have step3 := true_.flow_step layout targets (blockTrue + 1) flow2
  have drawn3 : Drawn blockFalse flow3 := drawn2.step step3
  have drawn4 : Drawn (blockFalse + 1) flow4 := (drawn3.next _).enter (le_refl _)
  have step5 := false_.flow_step layout targets (blockFalse + 1) flow4
  have drawn5 : Drawn junction flow5 := drawn4.step step5
  have size : base + (Node.if_ condition true_ false_).blocks = junction + 1 + 1 := by
    simp only [Node.blocks, junction, blockFalse, blockTrue]
    omega
  rw [size] at later
  have exit : Later (junction + 1 + 1)
    (((flow5.next junction).link junction (junction + 1)).enter (junction + 1)) graph := later
  have drawn6 := (drawn5.next junction).link junction (junction + 1)
  have later6 := exit.enter drawn6 (Nat.le_succ _)
  have later5 := later6.link.link
  have later4 := later5.step step5 drawn4
  have later3 := later4.enter (drawn3.next _) (le_refl _)
  have later2 := later3.link.step step3 drawn2
  have later1 := later2.enter ((drawn1.next _).next _) (le_refl _)
  exact {
    condition := ⟨drawn1, later1.link.link⟩
    leaves1 := ⟨later1.link.linked, later2.finished ((drawn1.next _).next _) (le_refl _)⟩
    leaves2 := ⟨later1.linked, later2.finished ((drawn1.next _).next _) (le_refl _)⟩
    true_ := ⟨drawn2, later2⟩
    trueEnd := ⟨drawn3, later3.link⟩
    leaves3 := ⟨later3.linked, later4.finished (drawn3.next _) (le_refl _)⟩
    false_ := ⟨drawn4, later4⟩
    falseEnd := ⟨drawn5, later5⟩
    leaves4 := ⟨later6.link.linked, exit.finished drawn6 (Nat.le_succ _)⟩
    exit := ⟨later6.linked, exit.untouched drawn6 (le_refl _) (Nat.lt_succ_self _)⟩ }

structure WhileGraph (graph : Flow) (base blockBody junctionExit : Nat)
    (flow flow1 flow2 flow3 flow4 : Flow) : Prop where
  start : Point base flow graph
  leaves1 : Leaves flow base graph
  loop : Junction base (base + 1) graph
  condition : Point (base + 1 + 1) flow1 graph
  conditionEnd : Point blockBody flow2 graph
  leaves2 : Leaves flow2 blockBody graph
  leaves3 : Leaves flow2 junctionExit graph
  body : Point (blockBody + 1) flow3 graph
  bodyEnd : Point junctionExit flow4 graph
  leaves4 : Leaves flow4 base graph
  exit : Junction junctionExit (junctionExit + 1) graph

theorem Node.while_graph {targets : Targets} {base : Nat} {condition : Optional F O}
    {body : Node F O} {flow : Flow} (drawn : Drawn base flow)
    (later : Later (base + (Node.while_ condition body).blocks)
      ((Node.while_ condition body).flow layout targets base flow) graph) :
    let blockBody := base + 1 + 1 + condition.blocks
    let junctionExit := blockBody + 1 + body.blocks
    let flow1 := ((flow.next base).link base (base + 1)).enter (base + 1)
    let flow2 := condition.flow layout targets (base + 1 + 1) flow1
    let flow3 := ((flow2.next blockBody).next junctionExit).enter blockBody
    let flow4 := body.flow layout ⟨some junctionExit, some base, targets.return_⟩
      (blockBody + 1) flow3
    WhileGraph graph base blockBody junctionExit flow flow1 flow2 flow3 flow4 := by
  intro blockBody junctionExit flow1 flow2 flow3 flow4
  have drawn0 := (drawn.next base).link base (base + 1)
  have drawn1 : Drawn (base + 1 + 1) flow1 := drawn0.enter (Nat.le_succ _)
  have step2 := condition.flow_step layout targets (base + 1 + 1) flow1
  have drawn2 : Drawn blockBody flow2 := drawn1.step step2
  have drawn3 : Drawn (blockBody + 1) flow3 := ((drawn2.next _).next _).enter (le_refl _)
  have step4 := body.flow_step layout ⟨some junctionExit, some base, targets.return_⟩
    (blockBody + 1) flow3
  have drawn4 : Drawn junctionExit flow4 := drawn3.step step4
  have size : base + (Node.while_ condition body).blocks = junctionExit + 1 + 1 := by
    simp only [Node.blocks, junctionExit, blockBody]
    omega
  rw [size] at later
  have exit : Later (junctionExit + 1 + 1) (((flow4.next base).link junctionExit
    (junctionExit + 1)).enter (junctionExit + 1)) graph := later
  have drawn5 := (drawn4.next base).link junctionExit (junctionExit + 1)
  have later5 := exit.enter drawn5 (Nat.le_succ _)
  have later4 := later5.link.link
  have later3 := later4.step step4 drawn3
  have later2 := later3.enter ((drawn2.next _).next _) (le_refl _)
  have later1 := later2.link.link.step step2 drawn1
  have later0 := later1.enter drawn0 (Nat.le_succ _)
  exact {
    start := ⟨drawn, later0.link.link⟩
    leaves1 := ⟨later0.link.linked, later1.finished drawn0 (Nat.le_succ _)⟩
    loop := ⟨later0.linked, later1.untouched drawn0 (le_refl _) (Nat.lt_succ_self _)⟩
    condition := ⟨drawn1, later1⟩
    conditionEnd := ⟨drawn2, later2.link.link⟩
    leaves2 := ⟨later2.link.linked, later3.finished ((drawn2.next _).next _) (le_refl _)⟩
    leaves3 := ⟨later2.linked, later3.finished ((drawn2.next _).next _) (le_refl _)⟩
    body := ⟨drawn3, later3⟩
    bodyEnd := ⟨drawn4, later4⟩
    leaves4 := ⟨later5.link.linked, exit.finished drawn5 (Nat.le_succ _)⟩
    exit := ⟨later5.linked, exit.untouched drawn5 (le_refl _) (Nat.lt_succ_self _)⟩ }

structure ForGraph (graph : Flow) (junctionCondition blockBody junctionNext junctionExit : Nat)
    (flow0 flow1 flow2 flow3 flow4 flow5 flow6 : Flow) : Prop where
  start : Point junctionCondition flow0 graph
  leaves1 : Leaves flow0 junctionCondition graph
  loop : Junction junctionCondition (junctionCondition + 1) graph
  condition : Point (junctionCondition + 1 + 1) flow1 graph
  conditionEnd : Point blockBody flow2 graph
  leaves2 : Leaves flow2 blockBody graph
  leaves3 : Leaves flow2 junctionExit graph
  body : Point (blockBody + 1) flow3 graph
  bodyEnd : Point junctionNext flow4 graph
  leaves4 : Leaves flow4 junctionNext graph
  continue_ : Junction junctionNext (junctionNext + 1) graph
  next : Point (junctionNext + 1 + 1) flow5 graph
  nextEnd : Point junctionExit flow6 graph
  leaves5 : Leaves flow6 junctionCondition graph
  exit : Junction junctionExit (junctionExit + 1) graph

theorem Node.for_graph {targets : Targets} {base : Nat}
    {initialization condition next : Optional F O} {body : Node F O} {flow : Flow}
    (drawn : Drawn base flow)
    (later : Later (base + (Node.for_ initialization condition next body).blocks)
      ((Node.for_ initialization condition next body).flow layout targets base flow) graph) :
    let junctionCondition := base + initialization.blocks
    let blockBody := junctionCondition + 1 + 1 + condition.blocks
    let junctionNext := blockBody + 1 + body.blocks
    let junctionExit := junctionNext + 1 + 1 + next.blocks
    let flow0 := initialization.flow layout targets base flow
    let flow1 := ((flow0.next junctionCondition).link junctionCondition
      (junctionCondition + 1)).enter (junctionCondition + 1)
    let flow2 := condition.flow layout targets (junctionCondition + 1 + 1) flow1
    let flow3 := ((flow2.next blockBody).next junctionExit).enter blockBody
    let flow4 := body.flow layout ⟨some junctionExit, some junctionNext, targets.return_⟩
      (blockBody + 1) flow3
    let flow5 := ((flow4.next junctionNext).link junctionNext
      (junctionNext + 1)).enter (junctionNext + 1)
    let flow6 := next.flow layout targets (junctionNext + 1 + 1) flow5
    ForGraph graph junctionCondition blockBody junctionNext junctionExit
      flow0 flow1 flow2 flow3 flow4 flow5 flow6 := by
  intro junctionCondition blockBody junctionNext junctionExit
    flow0 flow1 flow2 flow3 flow4 flow5 flow6
  have step0 := initialization.flow_step layout targets base flow
  have drawn0 : Drawn junctionCondition flow0 := drawn.step step0
  have before1 := (drawn0.next junctionCondition).link junctionCondition (junctionCondition + 1)
  have drawn1 : Drawn (junctionCondition + 1 + 1) flow1 := before1.enter (Nat.le_succ _)
  have step2 := condition.flow_step layout targets (junctionCondition + 1 + 1) flow1
  have drawn2 : Drawn blockBody flow2 := drawn1.step step2
  have drawn3 : Drawn (blockBody + 1) flow3 := ((drawn2.next _).next _).enter (le_refl _)
  have step4 := body.flow_step layout ⟨some junctionExit, some junctionNext, targets.return_⟩
    (blockBody + 1) flow3
  have drawn4 : Drawn junctionNext flow4 := drawn3.step step4
  have before5 := (drawn4.next junctionNext).link junctionNext (junctionNext + 1)
  have drawn5 : Drawn (junctionNext + 1 + 1) flow5 := before5.enter (Nat.le_succ _)
  have step6 := next.flow_step layout targets (junctionNext + 1 + 1) flow5
  have drawn6 : Drawn junctionExit flow6 := drawn5.step step6
  have size : base + (Node.for_ initialization condition next body).blocks =
      junctionExit + 1 + 1 := by
    simp only [Node.blocks, junctionExit, junctionNext, blockBody, junctionCondition]
    omega
  rw [size] at later
  have exit : Later (junctionExit + 1 + 1) (((flow6.next junctionCondition).link junctionExit
    (junctionExit + 1)).enter (junctionExit + 1)) graph := later
  have before7 := (drawn6.next junctionCondition).link junctionExit (junctionExit + 1)
  have later7 := exit.enter before7 (Nat.le_succ _)
  have later6 := later7.link.link
  have later5 := later6.step step6 drawn5
  have leave5 := later5.enter before5 (Nat.le_succ _)
  have later4 := leave5.link.link
  have later3 := later4.step step4 drawn3
  have later2 := later3.enter ((drawn2.next _).next _) (le_refl _)
  have later1 := later2.link.link.step step2 drawn1
  have later0 := later1.enter before1 (Nat.le_succ _)
  exact {
    start := ⟨drawn0, later0.link.link⟩
    leaves1 := ⟨later0.link.linked, later1.finished before1 (Nat.le_succ _)⟩
    loop := ⟨later0.linked, later1.untouched before1 (le_refl _) (Nat.lt_succ_self _)⟩
    condition := ⟨drawn1, later1⟩
    conditionEnd := ⟨drawn2, later2.link.link⟩
    leaves2 := ⟨later2.link.linked, later3.finished ((drawn2.next _).next _) (le_refl _)⟩
    leaves3 := ⟨later2.linked, later3.finished ((drawn2.next _).next _) (le_refl _)⟩
    body := ⟨drawn3, later3⟩
    bodyEnd := ⟨drawn4, later4⟩
    leaves4 := ⟨leave5.link.linked, later5.finished before5 (Nat.le_succ _)⟩
    continue_ := ⟨leave5.linked, later5.untouched before5 (le_refl _) (Nat.lt_succ_self _)⟩
    next := ⟨drawn5, later5⟩
    nextEnd := ⟨drawn6, later6⟩
    leaves5 := ⟨later7.link.linked, exit.finished before7 (Nat.le_succ _)⟩
    exit := ⟨later7.linked, exit.untouched before7 (le_refl _) (Nat.lt_succ_self _)⟩ }

structure CatchGraph (graph : Flow) (base blockBody blockTail junctionFinally : Nat)
    (flow flow1 flow2 flow3 flow4 flow5 : Flow) : Prop where
  start : Settled base flow graph
  leaves1 : Leaves flow base graph
  expression : Point (base + 1) flow1 graph
  expressionEnd : Point blockBody flow2 graph
  leaves2 : Leaves flow2 blockBody graph
  body : Point (blockBody + 1) flow3 graph
  bodyEnd : Point blockTail flow4 graph
  leaves3 : Leaves flow4 junctionFinally graph
  tail : Drawn blockTail flow5

theorem Catches.catch_graph {targets : Targets} {junctionFinally base : Nat}
    {expression body : Node F O} {variable_ : Nat} {flow : Flow} (drawn : Drawn base flow)
    (later : Settled (base + 1 + expression.blocks + 1 + body.blocks)
      ((Node.flow layout targets (base + 1 + expression.blocks + 1) body
        ((((Node.flow layout targets (base + 1) expression ((flow.next base).enter base)).next
          (base + 1 + expression.blocks)).enter (base + 1 + expression.blocks)).mention layout
            variable_ true)).next junctionFinally |>.enter
        (Node.flow layout targets (base + 1) expression ((flow.next base).enter base)).current)
      graph) :
    let blockBody := base + 1 + expression.blocks
    let blockTail := blockBody + 1 + body.blocks
    let flow1 := (flow.next base).enter base
    let flow2 := expression.flow layout targets (base + 1) flow1
    let flow3 := ((flow2.next blockBody).enter blockBody).mention layout variable_ true
    let flow4 := body.flow layout targets (blockBody + 1) flow3
    let flow5 := (flow4.next junctionFinally).enter flow2.current
    CatchGraph graph base blockBody blockTail junctionFinally flow flow1 flow2 flow3 flow4 flow5 := by
  intro blockBody blockTail flow1 flow2 flow3 flow4 flow5
  have drawn1 : Drawn (base + 1) flow1 := (drawn.next base).enter (le_refl _)
  have step2 := expression.flow_step layout targets (base + 1) flow1
  have drawn2 : Drawn blockBody flow2 := drawn1.step step2
  have entered : Drawn (blockBody + 1) ((flow2.next blockBody).enter blockBody) :=
    (drawn2.next _).enter (le_refl _)
  have step3 := (Step.refl layout (blockBody + 1)
    ((flow2.next blockBody).enter blockBody)).mention variable_ true
  have drawn3 : Drawn (blockBody + 1) flow3 := entered.step step3
  have step4 := body.flow_step layout targets (blockBody + 1) flow3
  have drawn4 : Drawn blockTail flow4 := drawn3.step step4
  have left : Settled blockTail (flow4.next junctionFinally) graph :=
    Settled.reenter (drawn4.next _) later
  have later3 := left.toLater.link.step step4 drawn3
  have later2 := later3.step step3 entered
  have settled2 := later2.settled (drawn2.next _) (le_refl _)
  have later1 := settled2.toLater.link.step step2 drawn1
  have settled0 := later1.settled (drawn.next base) (le_refl _)
  have below := drawn2.current
  have bound := step4.bounds
  exact {
    start := settled0.link
    leaves1 := ⟨settled0.linked, settled0.finished⟩
    expression := ⟨drawn1, later1⟩
    expressionEnd := ⟨drawn2, settled2.toLater.link⟩
    leaves2 := ⟨settled2.linked, settled2.finished⟩
    body := ⟨drawn3, later3⟩
    bodyEnd := ⟨drawn4, left.toLater.link⟩
    leaves3 := ⟨left.linked, left.finished⟩
    tail := ⟨by simp only [flow5, Flow.enter]; omega, (drawn4.next junctionFinally).fresh⟩ }

theorem Catches.tail_drawn (layout : Layout) (targets : Targets) (junctionFinally : Nat)
    {base : Nat}
    (expression body : Node F O) (variable_ : Nat) {flow : Flow} (drawn : Drawn base flow) :
    let blockBody := base + 1 + expression.blocks
    let flow2 := expression.flow layout targets (base + 1) ((flow.next base).enter base)
    Drawn (blockBody + 1 + body.blocks)
      (((body.flow layout targets (blockBody + 1)
        (((flow2.next blockBody).enter blockBody).mention layout variable_ true)).next
          junctionFinally).enter flow2.current) := by
  intro blockBody flow2
  have drawn2 : Drawn blockBody flow2 :=
    ((drawn.next base).enter (le_refl _)).step (expression.flow_step layout targets (base + 1) _)
  have entered : Drawn (blockBody + 1) ((flow2.next blockBody).enter blockBody) :=
    (drawn2.next _).enter (le_refl _)
  have step4 := ((Step.refl layout (blockBody + 1)
    ((flow2.next blockBody).enter blockBody)).mention variable_ true).trans
      (body.flow_step layout targets (blockBody + 1) _)
  have drawn4 := (entered.step step4).next junctionFinally
  have below := drawn2.current
  have bound := step4.bounds
  exact ⟨by simp only [Flow.enter]; omega, drawn4.fresh⟩

theorem Catches.flow_settled {targets : Targets} {junctionFinally : Nat} :
    ∀ (catches : Catches F O) {base : Nat} {flow : Flow}, Drawn base flow →
      Settled (base + catches.blocks)
        (catches.flow layout targets junctionFinally base flow) graph →
      Settled base flow graph
  | .nil, _, _, _, settled => settled
  | .cons expression variable_ body tail, base, flow, drawn, settled => by
      have rest := tail_drawn layout targets junctionFinally expression body variable_ drawn
      have size : base + (Catches.cons expression variable_ body tail).blocks =
          base + 1 + expression.blocks + 1 + body.blocks + tail.blocks := by
        simp only [Catches.blocks]
        omega
      rw [size] at settled
      exact (catch_graph drawn (flow_settled tail rest settled)).start

structure TryGraph (graph : Flow) (base blockCatches junctionFinally blockExit : Nat)
    (targets : Targets) (flow flow1 flow2 flow3 flow4 flow5 : Flow) : Prop where
  start : Point base flow graph
  leaves1 : Leaves flow base graph
  skip : Junction base junctionFinally graph
  enter : Junction base (base + 1) graph
  body : Point (base + 1 + 1) flow1 graph
  bodyEnd : Point blockCatches flow2 graph
  leaves2 : Leaves flow2 junctionFinally graph
  catches : Drawn blockCatches (flow2.next junctionFinally)
  catchesEnd : Settled junctionFinally flow3 graph
  back : Junction junctionFinally base graph
  finish : Junction junctionFinally (junctionFinally + 1) graph
  finally_ : Point (junctionFinally + 1 + 1) flow4 graph
  finallyEnd : Point blockExit flow5 graph
  leaves3 : Leaves flow5 blockExit graph
  break_ : ∀ block, targets.break_ = some block → Leaves flow5 block graph
  continue_ : ∀ block, targets.continue_ = some block → Leaves flow5 block graph
  return_ : ∀ block, targets.return_ = some block → Leaves flow5 block graph

theorem Node.try_graph {targets : Targets} {base : Nat} {body : Node F O}
    {catches : Catches F O} {finally_ : Optional F O} {flow : Flow} (drawn : Drawn base flow)
    (later : Later (base + (Node.try_ body catches finally_).blocks)
      ((Node.try_ body catches finally_).flow layout targets base flow) graph) :
    let blockCatches := base + 1 + 1 + body.blocks
    let junctionFinally := blockCatches + catches.blocks
    let blockExit := junctionFinally + 1 + 1 + finally_.blocks
    let targets1 : Targets := ⟨some junctionFinally, some junctionFinally, some junctionFinally⟩
    let flow1 := (((flow.next base).link base junctionFinally).link base (base + 1)).enter
      (base + 1)
    let flow2 := body.flow layout targets1 (base + 1 + 1) flow1
    let flow3 := catches.flow layout targets1 junctionFinally blockCatches
      (flow2.next junctionFinally)
    let flow4 := ((flow3.link junctionFinally base).link junctionFinally
      (junctionFinally + 1)).enter (junctionFinally + 1)
    let flow5 := finally_.flow layout ⟨none, none, none⟩ (junctionFinally + 1 + 1) flow4
    TryGraph graph base blockCatches junctionFinally blockExit targets
      flow flow1 flow2 flow3 flow4 flow5 := by
  intro blockCatches junctionFinally blockExit targets1 flow1 flow2 flow3 flow4 flow5
  have before1 := ((drawn.next base).link base junctionFinally).link base (base + 1)
  have drawn1 : Drawn (base + 1 + 1) flow1 := before1.enter (Nat.le_succ _)
  have step2 := body.flow_step layout targets1 (base + 1 + 1) flow1
  have drawn2 : Drawn blockCatches flow2 := drawn1.step step2
  have next2 := drawn2.next junctionFinally
  have drawn3 : Drawn junctionFinally flow3 :=
    next2.step (catches.flow_step layout targets1 junctionFinally blockCatches _)
  have before4 := (drawn3.link junctionFinally base).link junctionFinally (junctionFinally + 1)
  have drawn4 : Drawn (junctionFinally + 1 + 1) flow4 := before4.enter (Nat.le_succ _)
  have step5 := finally_.flow_step layout ⟨none, none, none⟩ (junctionFinally + 1 + 1) flow4
  have drawn5 : Drawn blockExit flow5 := drawn4.step step5
  have size : base + (Node.try_ body catches finally_).blocks = blockExit + 1 := by
    simp only [Node.blocks, blockExit, junctionFinally, blockCatches]
    omega
  rw [size] at later
  have exit : Later (blockExit + 1) (((((flow5.next blockExit).jump targets.break_).jump
    targets.continue_).jump targets.return_).enter blockExit) graph := later
  have jumps : ∀ {before : Flow} (target : Option Nat), Drawn blockExit before →
      Drawn blockExit (before.jump target) := by
    intro before target drawn
    cases target with
    | none => exact drawn
    | some block => exact drawn.next block
  have current : ∀ (before : Flow) (target : Option Nat),
      (before.jump target).current = before.current := by
    intro before target
    cases target <;> rfl
  have blocks : ∀ (before : Flow) (target : Option Nat),
      (before.jump target).blocks = before.blocks := by
    intro before target
    cases target <;> rfl
  have before6 := jumps targets.return_ (jumps targets.continue_ (jumps targets.break_
    (drawn5.next blockExit)))
  have later8 := exit.enter before6 (le_refl _)
  have finished := exit.finished before6 (le_refl _)
  simp only [current, blocks] at finished
  have later7 := later8.jump
  have later6 := later7.jump
  have later5 := later6.jump
  have later4 := later5.link.step step5 drawn4
  have settled3 := later4.settled before4 (Nat.le_succ _)
  have settled2 := catches.flow_settled next2 settled3.link.link
  have later2 := settled2.link.toLater
  have later1 := later2.step step2 drawn1
  have later0 := later1.enter before1 (Nat.le_succ _)
  exact {
    start := ⟨drawn, later0.link.link.link⟩
    leaves1 := ⟨later0.link.link.linked, later1.finished before1 (Nat.le_succ _)⟩
    skip := ⟨later0.link.linked, later1.untouched before1 (le_refl _) (Nat.lt_succ_self _)⟩
    enter := ⟨later0.linked, later1.untouched before1 (le_refl _) (Nat.lt_succ_self _)⟩
    body := ⟨drawn1, later1⟩
    bodyEnd := ⟨drawn2, later2⟩
    leaves2 := ⟨settled2.toLater.linked, settled2.finished⟩
    catches := next2
    catchesEnd := settled3.link.link
    back := ⟨settled3.toLater.link.linked,
      later4.untouched before4 (le_refl _) (Nat.lt_succ_self _)⟩
    finish := ⟨settled3.toLater.linked,
      later4.untouched before4 (le_refl _) (Nat.lt_succ_self _)⟩
    finally_ := ⟨drawn4, later4⟩
    finallyEnd := ⟨drawn5, later5.link⟩
    leaves3 := ⟨later5.linked, finished⟩
    break_ := by
      intro block target
      exact ⟨by simpa only [current, Flow.next, Flow.link] using later6.jumped target, finished⟩
    continue_ := by
      intro block target
      exact ⟨by simpa only [current, Flow.next, Flow.link] using later7.jumped target, finished⟩
    return_ := by
      intro block target
      exact ⟨by simpa only [current, Flow.next, Flow.link] using later8.jumped target, finished⟩ }

end Constructs

end Xemmai
