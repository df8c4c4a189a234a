import Xemmai.Graph

/-!
# The result of the flow analysis

The worklists of `t_scope::f_analyze` end with an empty queue. What they leave
is closed under the edges of the graph: a variable mentioned before an edge may
have been mentioned after it, and a variable used after an edge is used before
it unless the block before it defines the variable.
-/

namespace Xemmai

set_option autoImplicit false

namespace Block

variable {locals : List Nat}

theorem countP_lt {p q : Nat → Bool} {list : List Nat} (le : ∀ x ∈ list, q x = true → p x = true)
    {x : Nat} (member : x ∈ list) (holds : p x = true) (fails : q x = false) :
    list.countP q < list.countP p := by
  induction list with
  | nil => exact absurd member List.not_mem_nil
  | cons head tail induction =>
      have rest : ∀ x ∈ tail, q x = true → p x = true := fun x inside =>
        le x (List.mem_cons_of_mem _ inside)
      rcases List.mem_cons.mp member with rfl | inside
      · have := List.countP_mono_left rest
        simp only [List.countP_cons, holds, fails]
        simp
        omega
      · have := induction rest inside
        have first := le head List.mem_cons_self
        simp only [List.countP_cons]
        cases tested : q head <;> simp_all
        omega

theorem forward_lawful (locals : List Nat) :
    Worklist.Lawful (propagateForward locals) forward
      (fun block => (if block.forward then 0 else 1) + locals.countP (!block.in_ ·)) where
  unchanged := by
    intro a b same
    simp only [propagateForward, Bool.or_eq_false_iff, Bool.not_eq_false', List.any_eq_false,
      Bool.and_eq_true, Bool.not_eq_true', not_and, Bool.not_eq_false] at same
    rcases same with ⟨visited, nothing⟩
    have arrives : ∀ slot,
        (locals.contains slot && a.out slot && !b.in_ slot) = false := by
      intro slot
      by_cases member : slot ∈ locals
      · have := nothing slot member
        simp_all
      · simp [member]
    rcases b with ⟨forward, backward, in_, out, define, use⟩
    subst visited
    simp only [propagateForward, arrives, Bool.or_false]
  settles := by
    intro a b
    simp only [propagateForward, Bool.not_true, Bool.false_or, List.any_eq_false]
    intro slot _
    cases a.out slot <;> cases b.in_ slot <;> simp
  grows := by
    intro a b settled c
    simp only [propagateForward, Bool.or_eq_false_iff, List.any_eq_false] at settled ⊢
    refine ⟨rfl, ?_⟩
    intro slot member
    have := settled.2 slot member
    simp_all
  lowers := by
    intro a b changed
    simp only [propagateForward] at changed ⊢
    have le : ∀ slot ∈ locals,
        (!(b.in_ slot || (locals.contains slot && a.out slot && !b.in_ slot))) = true →
          (!b.in_ slot) = true := by
      intro slot _
      simp_all
    have most := List.countP_mono_left le
    cases visited : b.forward with
    | false =>
        simp only [Bool.false_eq_true, if_true, if_false]
        omega
    | true =>
        simp only [visited, Bool.not_true, Bool.false_or, List.any_eq_true] at changed
        rcases changed with ⟨slot, member, arrives⟩
        have least := countP_lt le member (by simp_all) (by simp_all)
        simp only [if_true]
        omega
  sees := by
    intro a b settled
    simp only [propagateForward, Bool.or_eq_false_iff, Bool.not_eq_false'] at settled
    exact settled.1

theorem backward_lawful (locals : List Nat) :
    Worklist.Lawful (propagateBackward locals) backward
      (fun block => (if block.backward then 0 else 1) + locals.countP (!block.use ·)) where
  unchanged := by
    intro a b same
    simp only [propagateBackward, Bool.or_eq_false_iff, Bool.not_eq_false', List.any_eq_false]
      at same
    rcases same with ⟨visited, nothing⟩
    have arrives : ∀ slot,
        (locals.contains slot && a.use slot && !b.define slot && !b.use slot) = false := by
      intro slot
      by_cases member : slot ∈ locals
      · exact Bool.eq_false_iff.mpr (nothing slot member)
      · simp [member]
    rcases b with ⟨forward, backward, in_, out, define, use⟩
    subst visited
    simp only [propagateBackward, arrives, Bool.or_false]
  settles := by
    intro a b
    simp only [propagateBackward, Bool.not_true, Bool.false_or, List.any_eq_false]
    intro slot _
    cases a.use slot <;> cases b.use slot <;> cases b.define slot <;> simp
  grows := by
    intro a b settled c
    simp only [propagateBackward, Bool.or_eq_false_iff, List.any_eq_false] at settled ⊢
    refine ⟨rfl, ?_⟩
    intro slot member
    have := settled.2 slot member
    simp_all
  lowers := by
    intro a b changed
    simp only [propagateBackward] at changed ⊢
    have le : ∀ slot ∈ locals,
        (!(b.use slot ||
          (locals.contains slot && a.use slot && !b.define slot && !b.use slot))) = true →
          (!b.use slot) = true := by
      intro slot _
      simp_all
    have most := List.countP_mono_left le
    cases visited : b.backward with
    | false =>
        simp only [Bool.false_eq_true, if_true, if_false]
        omega
    | true =>
        simp only [visited, Bool.not_true, Bool.false_or, List.any_eq_true] at changed
        rcases changed with ⟨slot, member, arrives⟩
        have least := countP_lt le member (by simp_all) (by simp_all)
        simp only [if_true]
        omega
  sees := by
    intro a b settled
    simp only [propagateBackward, Bool.or_eq_false_iff, Bool.not_eq_false'] at settled
    exact settled.1

/-- What the forward pass leaves as it is, and how it moves `v_out`. -/
structure Forwarded (before after : Block) : Prop where
  forward : before.forward = true → after.forward = true
  define : after.define = before.define
  use : after.use = before.use
  backward : after.backward = before.backward
  in_ : ∀ slot, before.in_ slot = true → after.in_ slot = true
  out : ∀ slot, before.out slot = true → after.out slot = true
  arrived : ∀ slot, after.out slot = true → before.out slot = true ∨ after.in_ slot = true
  passes : (∀ slot, before.in_ slot = true → before.out slot = true) →
    ∀ slot, after.in_ slot = true → after.out slot = true

theorem Forwarded.refl (block : Block) : Forwarded block block :=
  ⟨fun visited => visited, rfl, rfl, rfl, fun _ present => present, fun _ present => present,
    fun _ present => Or.inl present, fun passes => passes⟩

theorem Forwarded.trans {first second third : Block} (left : Forwarded first second)
    (right : Forwarded second third) : Forwarded first third where
  forward visited := right.forward (left.forward visited)
  define := right.define.trans left.define
  use := right.use.trans left.use
  backward := right.backward.trans left.backward
  in_ slot present := right.in_ slot (left.in_ slot present)
  out slot present := right.out slot (left.out slot present)
  arrived slot present := by
    rcases right.arrived slot present with earlier | arrived
    · exact (left.arrived slot earlier).imp_right (right.in_ slot)
    · exact Or.inr arrived
  passes start := right.passes (left.passes start)

theorem forward_keeps (source block : Block) :
    Forwarded block (propagateForward locals source block).2 where
  forward _ := rfl
  define := rfl
  use := rfl
  backward := rfl
  in_ slot present := by simp [propagateForward, present]
  out slot present := by simp [propagateForward, present]
  arrived slot present := by
    simp only [propagateForward, Bool.or_eq_true] at present ⊢
    exact present.imp_right Or.inr
  passes start slot present := by
    simp only [propagateForward, Bool.or_eq_true] at present ⊢
    exact present.imp_left (start slot)

/-- What the backward pass leaves as it is. -/
structure Backwarded (before after : Block) : Prop where
  define : after.define = before.define
  forward : after.forward = before.forward
  in_ : after.in_ = before.in_
  out : after.out = before.out
  use : ∀ slot, before.use slot = true → after.use slot = true

theorem Backwarded.refl (block : Block) : Backwarded block block :=
  ⟨rfl, rfl, rfl, rfl, fun _ present => present⟩

theorem Backwarded.trans {first second third : Block} (left : Backwarded first second)
    (right : Backwarded second third) : Backwarded first third where
  define := right.define.trans left.define
  forward := right.forward.trans left.forward
  in_ := right.in_.trans left.in_
  out := right.out.trans left.out
  use slot present := right.use slot (left.use slot present)

theorem backward_keeps (source block : Block) :
    Backwarded block (propagateBackward locals source block).2 where
  define := rfl
  forward := rfl
  in_ := rfl
  out := rfl
  use slot present := by simp [propagateBackward, present]

end Block

/-- What the analysis knows of a graph. -/
structure Analyzed (layout : Layout) (graph : Flow) (blocks : Nat → Block) : Prop where
  proper : ∀ block, (graph.blocks block).Proper
  entry : (blocks 0).forward = true
  forward : ∀ source target, (source, target) ∈ graph.edges → (blocks source).forward = true →
    (blocks target).forward = true ∧
      ∀ slot ∈ layout.locals, (blocks source).out slot = true → (blocks target).in_ slot = true
  backward : ∀ source target, (source, target) ∈ graph.edges →
    (target = 1 ∨ (blocks target).backward = true) →
    (blocks source).backward = true ∧
      ∀ slot ∈ layout.locals, (blocks target).use slot = true →
        (blocks source).define slot = true ∨ (blocks source).use slot = true
  out : ∀ block slot, (blocks block).out slot = true ↔
    (graph.blocks block).out slot = true ∨ (blocks block).in_ slot = true
  define : ∀ block, (blocks block).define = (graph.blocks block).define
  use : ∀ block slot, (graph.blocks block).use slot = true → (blocks block).use slot = true

section Analyze

variable {F O : Type} (layout : Layout)

theorem Node.graph_recorded (body : Node F O) (block : Nat) :
    ((body.graph layout).blocks block).Recorded layout := by
  have step := body.flow_step layout ⟨none, none, some 1⟩ 2 ⟨fun _ => .empty, [], 0⟩
  exact (step.next 1).recorded (fun _ => .empty layout) block

theorem Node.graph_proper (body : Node F O) (block : Nat) :
    ((body.graph layout).blocks block).Proper :=
  (body.graph_recorded layout block).proper

theorem Flow.mem_nexts {flow : Flow} {source target : Nat} :
    target ∈ flow.nexts source ↔ (source, target) ∈ flow.edges := by
  simp [Flow.nexts]

theorem Flow.mem_previouses {flow : Flow} {source target : Nat} :
    source ∈ flow.previouses target ↔ (source, target) ∈ flow.edges := by
  simp [Flow.previouses]

theorem potential_lt {locals : List Nat} (edges : List Nat) (rank : Block → Nat)
    (bound : ∀ block, rank block ≤ locals.length + 1) (data : Nat → Block) :
    Worklist.potential rank edges.toFinset (data, []) < edges.length * (locals.length + 1) + 1 := by
  have sums : ∑ node ∈ edges.toFinset, rank (data node) ≤
      edges.toFinset.card * (locals.length + 1) := by
    simpa using Finset.sum_le_card_nsmul edges.toFinset (fun node => rank (data node))
      (locals.length + 1) (fun node _ => bound (data node))
  have card := Nat.mul_le_mul_right (locals.length + 1) edges.toFinset_card_le
  simp only [Worklist.potential, List.length_nil]
  omega

theorem Node.analyze_analyzed (body : Node F O) :
    Analyzed layout (body.graph layout) (body.analyze layout) := by
  let graph := body.graph layout
  let visits := graph.visits layout
  let entered := Function.update graph.blocks 0
    (Block.propagateForward layout.locals .empty (graph.blocks 0)).2
  let forwarded :=
    Worklist.run (Block.propagateForward layout.locals) graph.nexts visits 0 (entered, [])
  let blocks :=
    Worklist.run (Block.propagateBackward layout.locals) graph.previouses visits 1 (forwarded, [])
  have proper := body.graph_proper layout
  have entering : ∀ block, Block.Forwarded (graph.blocks block) (entered block) := by
    intro block
    by_cases first : block = 0
    · subst first
      simpa [entered] using Block.forward_keeps _ _
    · simpa [entered, Function.update_of_ne first] using Block.Forwarded.refl _
  have forwards : ∀ block, Block.Forwarded (graph.blocks block) (forwarded block) := fun block =>
    (entering block).trans
      (Worklist.run_keeps Block.Forwarded.refl Block.Forwarded.trans Block.forward_keeps
        visits 0 (entered, []) block)
  have backwards : ∀ block, Block.Backwarded (forwarded block) (blocks block) :=
    Worklist.run_keeps Block.Backwarded.refl Block.Backwarded.trans Block.backward_keeps
      visits 1 (forwarded, [])
  have settledForward := Worklist.run_settled 0 graph.nexts
    (graph.edges.map (·.2)).toFinset (Block.forward_lawful layout.locals)
    (by
      intro node target member
      exact List.mem_toFinset.mpr (List.mem_map.mpr ⟨_, Flow.mem_nexts.mp member, rfl⟩))
    visits 0 (entered, [])
    (by
      simpa [visits, Flow.visits] using potential_lt (graph.edges.map (·.2)) _
        (fun block => by
          have := List.countP_le_length (p := (!block.in_ ·)) (l := layout.locals)
          split <;> omega) entered)
    (by
      constructor
      · intro other active _ foreign
        rcases active with first | visited
        · exact absurd first foreign
        · simp only [entered, Function.update_of_ne foreign] at visited
          rw [show (graph.blocks other).forward = false from (proper other).forward] at visited
          exact absurd visited (by decide)
      · intro _ target member
        exact absurd member List.not_mem_nil)
  have settledBackward := Worklist.run_settled 1 graph.previouses
    (graph.edges.map (·.1)).toFinset (Block.backward_lawful layout.locals)
    (by
      intro node target member
      exact List.mem_toFinset.mpr (List.mem_map.mpr ⟨_, Flow.mem_previouses.mp member, rfl⟩))
    visits 1 (forwarded, [])
    (by
      simpa [visits, Flow.visits] using potential_lt (graph.edges.map (·.1)) _
        (fun block => by
          have := List.countP_le_length (p := (!block.use ·)) (l := layout.locals)
          split <;> omega) forwarded)
    (by
      constructor
      · intro other active _ foreign
        rcases active with first | visited
        · exact absurd first foreign
        · rw [(forwards other).backward, (proper other).backward] at visited
          exact absurd visited (by decide)
      · intro _ target member
        exact absurd member List.not_mem_nil)
  refine {
    proper := proper
    entry := ?_
    forward := ?_
    backward := ?_
    out := ?_
    define := fun block => (backwards block).define.trans (forwards block).define
    use := ?_ }
  · have kept : (entered 0).forward = true → (forwarded 0).forward = true :=
      (Worklist.run_keeps Block.Forwarded.refl Block.Forwarded.trans Block.forward_keeps
        visits 0 (entered, []) 0).forward
    exact (backwards 0).forward.trans (kept (by simp [entered, Block.propagateForward]))
  · intro source target edge visited
    rw [show (body.analyze layout source).forward = (forwarded source).forward from
      (backwards source).forward] at visited
    have settled : (Block.propagateForward layout.locals (forwarded source)
        (forwarded target)).1 = false :=
      settledForward source (Or.inr visited) target (Flow.mem_nexts.mpr edge)
    simp only [Block.propagateForward, Bool.or_eq_false_iff,
      Bool.not_eq_false', List.any_eq_false] at settled
    refine ⟨(backwards target).forward.trans settled.1, ?_⟩
    intro slot member present
    rw [show (body.analyze layout source).out = (forwarded source).out from
      (backwards source).out] at present
    have nothing := settled.2 slot member
    rw [show (body.analyze layout target).in_ = (forwarded target).in_ from
      (backwards target).in_]
    simp_all
  · intro source target edge visited
    have settled : (Block.propagateBackward layout.locals (blocks target)
        (blocks source)).1 = false :=
      settledBackward target visited source (Flow.mem_previouses.mpr edge)
    simp only [Block.propagateBackward, Bool.or_eq_false_iff,
      Bool.not_eq_false', List.any_eq_false] at settled
    refine ⟨settled.1, ?_⟩
    intro slot member present
    have nothing := settled.2 slot member
    have used : (blocks target).use slot = true := present
    show (blocks source).define slot = true ∨ (blocks source).use slot = true
    cases defined : (blocks source).define slot <;> simp_all
  · intro block slot
    rw [show (body.analyze layout block).out = (forwarded block).out from (backwards block).out,
      show (body.analyze layout block).in_ = (forwarded block).in_ from (backwards block).in_]
    refine ⟨(forwards block).arrived slot, ?_⟩
    rintro (present | present)
    · exact (forwards block).out slot present
    · refine (forwards block).passes ?_ slot present
      intro other absent
      rw [show (graph.blocks block).in_ other = false from (proper block).in_ other] at absent
      exact absurd absent (by decide)
  · intro block slot present
    refine (backwards block).use slot ?_
    rw [(forwards block).use]
    exact present

end Analyze

end Xemmai
