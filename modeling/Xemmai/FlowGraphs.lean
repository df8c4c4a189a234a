import Xemmai.Fixpoints

/-!
# The graphs that are drawn

`f_flow` goes on in the block it is in, also behind a `break`, a `continue` or a
`return`, and enters only blocks it has led an edge to. So every block that an
edge leaves is reached from the first one, and what is drawn is a flow graph.
-/

namespace Xemmai

set_option autoImplicit false

namespace Flow

open Dataflow (Reaches Path)

theorem reaches_mono {edges more : List (Nat × Nat)} (grows : ∀ edge ∈ edges, edge ∈ more)
    {block last : Nat} (reaches : Reaches edges block last) : Reaches more block last := by
  obtain ⟨passed, path⟩ := reaches
  refine ⟨passed, ?_⟩
  induction path with
  | nil block => exact Path.nil block
  | cons edge _ induction => exact Path.cons (grows _ edge) induction

/-- The current block and every block that an edge leaves are reached from the first. -/
structure Connected (flow : Flow) : Prop where
  current : Reaches flow.edges 0 flow.current
  sources : ∀ edge ∈ flow.edges, Reaches flow.edges 0 edge.1

namespace Connected

variable {flow : Flow} {block : Nat}

theorem link_grows (flow : Flow) (source target : Nat) :
    ∀ edge ∈ flow.edges, edge ∈ (flow.link source target).edges :=
  fun _ member => List.mem_append_left _ member

theorem link (connected : flow.Connected) {source : Nat} (reaches : Reaches flow.edges 0 source)
    (target : Nat) : (flow.link source target).Connected where
  current := reaches_mono (link_grows flow source target) connected.current
  sources edge member := by
    refine reaches_mono (link_grows flow source target) ?_
    rcases List.mem_append.mp member with before | last
    · exact connected.sources edge before
    · rw [List.mem_singleton.mp last]
      exact reaches

theorem link_target {source : Nat} (reaches : Reaches flow.edges 0 source) (target : Nat) :
    Reaches (flow.link source target).edges 0 target :=
  (reaches_mono (link_grows flow source target) reaches).snoc
    (List.mem_append_right _ (List.mem_singleton_self _))

theorem next (connected : flow.Connected) (target : Nat) : (flow.next target).Connected :=
  connected.link connected.current target

theorem next_target (connected : flow.Connected) (target : Nat) :
    Reaches (flow.next target).edges 0 target :=
  link_target connected.current target

theorem next_keeps (reaches : Reaches flow.edges 0 block) (target : Nat) :
    Reaches (flow.next target).edges 0 block :=
  reaches_mono (link_grows flow flow.current target) reaches

theorem enter (connected : flow.Connected) (reaches : Reaches flow.edges 0 block) :
    (flow.enter block).Connected where
  current := reaches
  sources := connected.sources

theorem enter_keeps (reaches : Reaches flow.edges 0 block) (entered : Nat) :
    Reaches (flow.enter entered).edges 0 block :=
  reaches

theorem jump (connected : flow.Connected) (target : Option Nat) :
    (flow.jump target).Connected := by
  cases target with
  | none => exact connected
  | some block => exact connected.next block

theorem jump_keeps (reaches : Reaches flow.edges 0 block) (target : Option Nat) :
    Reaches (flow.jump target).edges 0 block := by
  cases target with
  | none => exact reaches
  | some _ => exact next_keeps reaches _

theorem mention (connected : flow.Connected) (layout : Layout) (variable_ : Nat) (put : Bool) :
    (flow.mention layout variable_ put).Connected := by
  unfold Flow.mention
  cases layout.slot variable_ with
  | none => exact connected
  | some slot => exact ⟨connected.current, connected.sources⟩

theorem mention_keeps (reaches : Reaches flow.edges 0 block) (layout : Layout)
    (variable_ : Nat) (put : Bool) :
    Reaches (flow.mention layout variable_ put).edges 0 block := by
  unfold Flow.mention
  cases layout.slot variable_ with
  | none => exact reaches
  | some slot => exact reaches

end Connected

end Flow

section Connected

open Flow (Connected reaches_mono)

variable {F O : Type} (layout : Layout)

mutual

theorem Node.flow_connected (targets : Targets) (base : Nat) (node : Node F O) {flow : Flow}
    (connected : flow.Connected) : (node.flow layout targets base flow).Connected := by
  cases node with
  | nodes items => exact items.flow_connected targets base connected
  | operate action operands => exact operands.flow_connected targets base connected
  | if_ condition true_ false_ =>
      let blockTrue := base + condition.blocks
      let blockFalse := blockTrue + 1 + true_.blocks
      let junction := blockFalse + 1 + false_.blocks
      have tested := condition.flow_connected targets base connected
      have both := (tested.next blockTrue).next blockFalse
      have toTrue := Connected.next_keeps (tested.next_target blockTrue) blockFalse
      have toFalse := (tested.next blockTrue).next_target blockFalse
      have first := true_.flow_connected targets (blockTrue + 1) (both.enter toTrue)
      have joined := first.next junction
      have later := Connected.next_keeps
        (reaches_mono (true_.flow_step layout targets (blockTrue + 1) _).edges
          (Connected.enter_keeps toFalse blockTrue)) junction
      have second := false_.flow_connected targets (blockFalse + 1) (joined.enter later)
      have reaches := second.next_target junction
      exact ((second.next junction).link reaches (junction + 1)).enter
        (Connected.link_target reaches (junction + 1))
  | while_ condition body =>
      let blockBody := base + 1 + 1 + condition.blocks
      let junctionExit := blockBody + 1 + body.blocks
      have again := connected.next_target base
      have begun := ((connected.next base).link again (base + 1)).enter
        (Connected.link_target again (base + 1))
      have tested := condition.flow_connected targets (base + 1 + 1) begun
      have both := (tested.next blockBody).next junctionExit
      have toBody := Connected.next_keeps (tested.next_target blockBody) junctionExit
      have toExit := (tested.next blockBody).next_target junctionExit
      have done := body.flow_connected ⟨some junctionExit, some base, targets.return_⟩
        (blockBody + 1) (both.enter toBody)
      have later := Connected.next_keeps
        (reaches_mono (body.flow_step layout ⟨some junctionExit, some base, targets.return_⟩
          (blockBody + 1) _).edges (Connected.enter_keeps toExit blockBody)) base
      exact ((done.next base).link later (junctionExit + 1)).enter
        (Connected.link_target later (junctionExit + 1))
  | for_ initialization condition next body =>
      let junctionCondition := base + initialization.blocks
      let blockBody := junctionCondition + 1 + 1 + condition.blocks
      let junctionNext := blockBody + 1 + body.blocks
      let junctionExit := junctionNext + 1 + 1 + next.blocks
      let targets1 : Targets := ⟨some junctionExit, some junctionNext, targets.return_⟩
      have initialized := initialization.flow_connected targets base connected
      have again := initialized.next_target junctionCondition
      have begun := ((initialized.next junctionCondition).link again (junctionCondition + 1)).enter
        (Connected.link_target again (junctionCondition + 1))
      have tested := condition.flow_connected targets (junctionCondition + 1 + 1) begun
      have both := (tested.next blockBody).next junctionExit
      have toBody := Connected.next_keeps (tested.next_target blockBody) junctionExit
      have toExit := (tested.next blockBody).next_target junctionExit
      have done := body.flow_connected targets1 (blockBody + 1) (both.enter toBody)
      have toNext := done.next_target junctionNext
      have stepping := ((done.next junctionNext).link toNext (junctionNext + 1)).enter
        (Connected.link_target toNext (junctionNext + 1))
      have stepped := next.flow_connected targets (junctionNext + 1 + 1) stepping
      have later := reaches_mono
        (body.flow_step layout targets1 (blockBody + 1) _).edges
        (Connected.enter_keeps toExit blockBody)
      have later := reaches_mono (Connected.link_grows _ junctionNext (junctionNext + 1))
        (Connected.next_keeps later junctionNext)
      have later := Connected.next_keeps (reaches_mono
        (next.flow_step layout targets (junctionNext + 1 + 1) _).edges
        (Connected.enter_keeps later (junctionNext + 1))) junctionCondition
      exact ((stepped.next junctionCondition).link later (junctionExit + 1)).enter
        (Connected.link_target later (junctionExit + 1))
  | break_ expression => exact (expression.flow_connected targets base connected).jump _
  | continue_ => exact connected.jump _
  | return_ expression => exact (expression.flow_connected targets base connected).jump _
  | try_ body catches finally_ =>
      let junctionFinally := base + 1 + 1 + body.blocks + catches.blocks
      let blockExit := junctionFinally + 1 + 1 + finally_.blocks
      let targets1 : Targets := ⟨some junctionFinally, some junctionFinally, some junctionFinally⟩
      have toTry := connected.next_target base
      have guarded := (connected.next base).link toTry junctionFinally
      have toTry := reaches_mono (Connected.link_grows _ base junctionFinally) toTry
      have begun := (guarded.link toTry (base + 1)).enter
        (Connected.link_target toTry (base + 1))
      have tried := body.flow_connected targets1 (base + 1 + 1) begun
      have left := tried.next junctionFinally
      have toFinally := tried.next_target junctionFinally
      have caught := catches.flow_connected targets1 junctionFinally
        (base + 1 + 1 + body.blocks) left
      have toFinally := reaches_mono (catches.flow_step layout targets1 junctionFinally
        (base + 1 + 1 + body.blocks) _).edges toFinally
      have linked := caught.link toFinally base
      have toFinally := reaches_mono (Connected.link_grows _ junctionFinally base) toFinally
      have ending := (linked.link toFinally (junctionFinally + 1)).enter
        (Connected.link_target toFinally (junctionFinally + 1))
      have ended := finally_.flow_connected ⟨none, none, none⟩ (junctionFinally + 1 + 1) ending
      have toExit := ended.next_target blockExit
      have leaving := (((ended.next blockExit).jump targets.break_).jump targets.continue_).jump
        targets.return_
      exact leaving.enter (Connected.jump_keeps (Connected.jump_keeps
        (Connected.jump_keeps toExit targets.break_) targets.continue_) targets.return_)
  | throw_ expression => exact expression.flow_connected targets base connected
  | symbolGet resolved variable_ symbol =>
      cases variable_ with
      | none => exact connected
      | some variable_ => exact connected.mention layout variable_ false
  | scopePut outer variable_ value =>
      exact (value.flow_connected targets base connected).mention layout variable_ true
  | self outer => exact connected
  | literal literal => exact connected
  | unary op expression => exact expression.flow_connected targets base connected
  | binary op left right =>
      exact right.flow_connected targets _ (left.flow_connected targets base connected)
  | preserve => exact connected
  | call target arguments expands =>
      exact arguments.flow_connected targets _ (target.flow_connected targets base connected)

theorem Nodes.flow_connected (targets : Targets) (base : Nat) (nodes : Nodes F O) {flow : Flow}
    (connected : flow.Connected) : (nodes.flow layout targets base flow).Connected := by
  cases nodes with
  | nil => exact connected
  | cons head tail =>
      exact tail.flow_connected targets _ (head.flow_connected targets base connected)

theorem Catches.flow_connected (targets : Targets) (junctionFinally base : Nat)
    (catches : Catches F O) {flow : Flow} (connected : flow.Connected) :
    (catches.flow layout targets junctionFinally base flow).Connected := by
  cases catches with
  | nil => exact connected
  | cons expression variable_ body tail =>
      let blockBody := base + 1 + expression.blocks
      have entered := (connected.next base).enter (connected.next_target base)
      have expressed := expression.flow_connected targets (base + 1) entered
      have begun := ((expressed.next blockBody).enter
        (expressed.next_target blockBody)).mention layout variable_ true
      have done := body.flow_connected targets (blockBody + 1) begun
      have back := Connected.enter_keeps
        (Connected.next_keeps expressed.current blockBody) blockBody
      have back := Connected.mention_keeps back layout variable_ true
      have back := reaches_mono (body.flow_step layout targets (blockBody + 1) _).edges back
      exact tail.flow_connected targets junctionFinally _
        ((done.next junctionFinally).enter (Connected.next_keeps back junctionFinally))

theorem Optional.flow_connected (targets : Targets) (base : Nat) (optional : Optional F O)
    {flow : Flow} (connected : flow.Connected) :
    (optional.flow layout targets base flow).Connected := by
  cases optional with
  | none => exact connected
  | some node => exact node.flow_connected targets base connected

end

theorem Node.graph_reached (body : Node F O) (block : Nat)
    (leads : Dataflow.Reaches (body.graph layout).edges block 1) :
    Dataflow.Reaches (body.graph layout).edges 0 block := by
  have empty : (⟨fun _ => .empty, [], 0⟩ : Flow).Connected :=
    ⟨Dataflow.Reaches.refl _ _, fun _ member => absurd member List.not_mem_nil⟩
  have drawn := body.flow_connected layout ⟨none, none, some 1⟩ 2 empty
  obtain ⟨passed, path⟩ := leads
  cases path with
  | nil => exact drawn.next_target 1
  | cons edge _ => exact (drawn.next 1).sources _ edge

/-- The flow graph of a scope. -/
def Node.flowGraph (body : Node F O) (mentions : Nat → List (Nat × Bool))
    (bounded : ∀ block, ∀ mention ∈ mentions block, mention.1 < layout.locals.length) :
    Dataflow.Graph Nat where
  entry := 0
  junction := 1
  size := layout.locals.length
  edges := (body.graph layout).edges
  mentions := mentions
  bounded := bounded
  reached := body.graph_reached layout

/-- The accesses of a block, with the slots counted from the first that is no argument. -/
theorem Block.Recorded.mentions {layout : Layout} {block : Block}
    (recorded : block.Recorded layout) : ∃ mentions : List (Nat × Bool),
      (∀ mention ∈ mentions, mention.1 < layout.locals.length) ∧
        block = mentions.foldl (fun block mention =>
          block.access (layout.arguments + mention.1) mention.2) .empty := by
  obtain ⟨mentions, bounded, rfl⟩ := recorded
  have above : ∀ mention ∈ mentions, layout.arguments ≤ mention.1 ∧
      mention.1 - layout.arguments < layout.locals.length := by
    intro mention member
    have inside := bounded mention member
    simp only [Layout.locals, List.mem_range'_1, List.length_range'] at inside ⊢
    omega
  refine ⟨mentions.map fun mention => (mention.1 - layout.arguments, mention.2), ?_, ?_⟩
  · intro mention mapped
    obtain ⟨first, member, rfl⟩ := List.mem_map.mp mapped
    exact (above first member).2
  · rw [List.foldl_map]
    refine List.foldl_ext _ _ _ fun block mention member => ?_
    rw [Nat.add_sub_of_le (above mention member).1]

/-- The graph that `f_flow` draws is a flow graph, and so `f_analyze` returns with its exact
result. -/
theorem Node.flow_analyzed (body : Node F O) :
    ∃ mentions bounded,
      (∀ block, (body.graph layout).blocks block = (mentions block).foldl (fun block mention =>
        block.access (layout.arguments + mention.1) mention.2) .empty) ∧
      ∃ fuel, ∀ more, fuel ≤ more → ∃ blocks,
        (body.flowGraph layout mentions bounded).fAnalyze more = some blocks ∧
          (body.flowGraph layout mentions bounded).Exact fun block => (blocks block).toFacts := by
  have recorded block := (body.graph_recorded layout block).mentions
  choose mentions bounded drawn using recorded
  exact ⟨mentions, bounded, drawn, (body.flowGraph layout mentions bounded).returns⟩

end Connected

end Xemmai
