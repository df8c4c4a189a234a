import Xemmai.Integrity
import Xemmai.Release

/-!
# A collection that nothing disturbs

The passes over the roots and the free phase that follows them release the garbage
of the trial deletion, each object once, and leave exact counts to the others.
-/

namespace Xemmai.Collector

set_option autoImplicit false

variable {ι : Type} [DecidableEq ι]

/-- The collector is about to look at the roots of a heap whose counts are exact. What is
still gray from an earlier collection is behind the roots: there the target of a field
that has been changed while the passes went on became a root. -/
structure Ready (graph : References ι) (heap : Heap ι) (layout : Layout ι) : Prop where
  sound : Sound ⟨heap, [], none, .roots⟩ layout
  counted : Counted graph heap.freed heap
  rooted : Rooted graph heap layout
  awaited : Awaited graph heap fun start => .object start ∈ layout.roots

/-- The tick that finds the fields of a graph, where no object is on the stack twice
and the collector has not come to the roots again. -/
def Undisturbed (fields : ι → List ι) (state : State ι) (action : Action ι) : Prop :=
  action = .tick (state.control.report fields) ∧ state.control.stack.Nodup ∧
    state.control ≠ .roots

theorem exact_advances {graph : References ι} {freed : List ι} {state : State ι}
    {layout : Layout ι} (held : Exact graph freed state layout)
    (passing : state.control.passes = true) : Advances graph freed state layout := by
  obtain ⟨heap, cycles, garbage, control⟩ := state
  cases control with
  | prescan p => exact advances_prescan held
  | mark p q => exact advances_mark held
  | scan p => exact advances_scan held
  | collect => exact advances_collect held
  | traverse pass object stack =>
    cases pass with
    | prescanBlack p => exact advances_prescanBlack held
    | markGray q => exact advances_markGray held
    | scanBlack p => exact advances_scanBlack held
    | scanGray p => exact advances_scanGray held
    | collectWhite cycle => exact advances_collectWhite held
  | round round cycle p =>
    cases round with
    | scanRed => exact advances_scanRed held
    | orange => exact advances_orange held
    | _ => cases passing
  | _ => cases passing

theorem exact_stack {graph : References ι} {freed : List ι} {state : State ι}
    {layout : Layout ι} (held : Exact graph freed state layout)
    (passing : state.control.passes = true) : state.control.stack.Nodup := by
  obtain ⟨heap, cycles, garbage, control⟩ := state
  cases control with
  | traverse pass object stack => exact held.trial.1
  | release object stack back => cases passing
  | _ => exact List.nodup_nil

theorem exact_epoch {graph : References ι} {freed : List ι} {state : State ι}
    {layout : Layout ι} (held : Exact graph freed state layout)
    (outside : state.control.passes = false) : state.control = .epoch := by
  obtain ⟨heap, cycles, garbage, control⟩ := state
  have trial := held.trial
  cases control with
  | epoch => rfl
  | round round cycle p =>
    cases round with
    | scanRed => cases outside
    | orange => cases outside
    | _ => exact absurd trial id
  | prescan p => cases outside
  | mark p q => cases outside
  | scan p => cases outside
  | collect => cases outside
  | traverse pass object stack => cases outside
  | _ => exact absurd trial id

theorem passes_end [Fintype ι] {graph : References ι} {freed : List ι} {state : State ι}
    {layout : Layout ι} (held : Exact graph freed state layout)
    (passing : state.control.passes = true) :
    ∃ after layout', Relation.ReflTransGen (Quiet graph.fields) state after ∧
      Exact graph freed after layout' ∧ after.control = .epoch := by
  induction bound : rank Finset.univ state layout using Nat.strong_induction_on
    generalizing state layout with
  | _ bound ih =>
    obtain ⟨after, layout', taken, turned, kept⟩ := exact_advances held passing
    have step : Quiet graph.fields state after := by
      refine ⟨?_, exact_stack held passing, taken⟩
      intro roots
      rw [roots] at passing
      cases passing
    by_cases more : after.control.passes = true
    · have lower := turned.lowers more Finset.univ Finset.mem_univ
      obtain ⟨final, last, reached, result⟩ := ih _ (bound ▸ lower) kept more rfl
      exact ⟨final, last, .head step reached, result⟩
    · exact ⟨after, layout', .single step, kept, exact_epoch kept (by simpa using more)⟩

theorem quiet_run {fields : ι → List ι} {state after : State ι}
    (reached : Relation.ReflTransGen (Quiet fields) state after) :
    ∃ actions, Machine.run step state actions = some after ∧
      Machine.Along step (Undisturbed fields) state actions := by
  induction reached using Relation.ReflTransGen.head_induction_on with
  | refl => exact ⟨[], rfl, trivial⟩
  | head first _ ih =>
    obtain ⟨actions, run, along⟩ := ih
    obtain ⟨away, nodup, taken⟩ := first
    refine ⟨.tick _ :: actions, ?_, ⟨rfl, nodup, away⟩, ?_⟩
    · rw [Machine.run_cons]
      simp only [step, taken, Option.bind_some]
      exact run
    · intro next same
      rw [step, taken, Option.some.injEq] at same
      exact same ▸ along

theorem exact_releasing {graph : References ι} {freed : List ι} {heap : Heap ι}
    {cycles : List ι} {garbage : Option ι} {layout : Layout ι}
    (held : Exact graph freed ⟨heap, cycles, garbage, .epoch⟩ layout) :
    layout.current = [] ∧ Releasing graph freed heap cycles layout ∅ ∅ ∅ [] fun _ => False := by
  obtain ⟨none, gathered⟩ := held.trial
  have empty : layout.current = [] := List.map_eq_nil_iff.mp held.sound.current
  have clean : layout.garbage = [] := held.sound.clean rfl
  have live : ∀ object ∈ graph.live,
      heap.allocated object = true ∧ heap.typed object = true := by
    intro object member
    have both := (held.counted.live object).mpr member
    rw [Heap.live, Bool.and_eq_true] at both
    exact both
  refine ⟨empty, {
    tended := held.sound.tended rfl
    clean := clean
    rings := held.sound.cycles
    freed := ⟨[], held.counted.freed, List.nodup_nil, by simp⟩
    allocated := fun object member => by simp [live object member]
    typed := fun object member => by simp [live object member]
    calm := held.counted.calm
    survivors := fun object inside kept => Or.inl (gathered.black object inside kept)
    lost := Finset.empty_subset _
    garbage := ?_
    inside := fun object listed => ⟨gathered.garbage object listed, Finset.notMem_empty _⟩
    closed := fun _ _ _ _ _ => Finset.notMem_empty _
    count := ?_
    bound := ?_
    cycles := ?_
    order := gathered.order
    older := gathered.older }⟩
  · intro object lost
    refine Or.inr ?_
    by_contra out
    obtain ⟨root, first, _⟩ := gathered.source object (References.mem_garbage.mp lost).1
      ((gathered.white object lost).mpr out)
    rw [none, empty] at first
    simp at first
  · intro object member _ _
    rw [held.counted.count object member, References.count]
    simp
  · intro object member
    rw [held.counted.count object member]
    exact held.counted.bound object member
  · intro strand member object inside
    obtain ⟨orange, sum⟩ := gathered.cycles strand member object inside
    have lost := gathered.garbage object
      ((mem_lists layout clean).mpr (Or.inr (List.mem_flatMap.mpr ⟨strand, member, inside⟩)))
    rw [held.counted.count object (References.garbage_live lost)]
    exact ⟨orange, sum⟩

theorem ready_prescan {graph : References ι} {heap : Heap ι} {layout : Layout ι}
    (ready : Ready graph heap layout) : ∃ control,
    step ⟨heap, [], none, .roots⟩ (.tick []) = some ⟨heap, [], none, control⟩ ∧
      Exact graph heap.freed ⟨heap, [], none, control⟩ layout := by
  obtain ⟨control, taken, first, sound⟩ := sound_roots [] ready.sound
  have single : layout.cycles = [] := List.map_eq_nil_iff.mp ready.sound.cycles
  have empty : layout.current = [] := List.map_eq_nil_iff.mp ready.sound.current
  have clean : layout.garbage = [] := ready.sound.clean rfl
  refine ⟨control, taken, sound, ready.counted, ?_⟩
  rcases first with ⟨none, rfl⟩ | ⟨p, rest, place, rfl⟩
  · refine ⟨none, gathered_none (fun object inside => ?_) none empty clean single⟩
    obtain ⟨_, root, start, _⟩ := References.mem_subgraph.mp inside
    have member := ((ready.rooted root).mp start).1
    rw [none] at member
    cases member
  · exact ⟨single, ready.rooted, [], rest, place, place ▸ ready.awaited⟩

/-- The collection, and the free phase of the next round. No object that it is to
release may have been revived before. -/
theorem collection_exact [Fintype ι] {graph : References ι} {heap : Heap ι} {layout : Layout ι}
    (ready : Ready graph heap layout) :
    ∃ actions after heap', step ⟨heap, [], none, .roots⟩ (.tick []) = some after ∧
      Machine.run step after actions = some ⟨heap', [], none, .roots⟩ ∧
      Machine.Along step (Undisturbed graph.fields) after actions ∧
      (∃ released, heap'.freed = released ++ heap.freed ∧ released.Nodup ∧
        ∀ object, object ∈ released ↔ object ∈ graph.garbage) ∧
      ∀ object ∈ graph.live, object ∉ graph.garbage → heap'.live object = true ∧
        heap'.count object =
          References.refs graph.fields (graph.live \ graph.garbage) object +
            graph.external object := by
  obtain ⟨control, first, held⟩ := ready_prescan ready
  obtain ⟨middle, layout', passed, held', epoch⟩ : ∃ middle layout',
      Relation.ReflTransGen (Quiet graph.fields) ⟨heap, [], none, control⟩ middle ∧
        Exact graph heap.freed middle layout' ∧ middle.control = .epoch := by
    by_cases passing : control.passes = true
    · exact passes_end held passing
    · exact ⟨_, _, .refl, held, exact_epoch held (by simpa using passing)⟩
  obtain ⟨heap₁, cycles, garbage, _⟩ := middle
  subst epoch
  obtain ⟨empty, releasing⟩ := exact_releasing held'
  obtain ⟨heap', layout'', reached, released⟩ := release_cycles cycles empty releasing
  have turn : Quiet graph.fields ⟨heap₁, cycles, garbage, .epoch⟩
      ⟨heap₁, cycles, none, .cycles⟩ := ⟨nofun, List.nodup_nil, rfl⟩
  obtain ⟨actions, run, along⟩ := quiet_run (passed.trans (.head turn reached))
  refine ⟨actions, _, heap', first, run, along, released.freed, ?_⟩
  intro object live kept
  have count := released.count object live kept id
  rw [List.count_nil, Nat.add_zero] at count
  refine ⟨?_, count⟩
  rw [Heap.live, Bool.and_eq_true]
  exact ⟨(released.allocated object live).mpr kept, (released.typed object live).mpr kept⟩

-- The numerals of `Fin 4` below all stand on this one instance.
local instance neZero_four : NeZero 4 := ⟨by decide⟩

/-- Three objects of a type in a ring, the first of which has become purple; it may have
been revived at some time before, and the others have the colours given. -/
def ring (revived : Bool) (second third : Color) : Heap (Fin 4) where
  next := fun node => match node with
    | .roots => some (.object 0)
    | .object object => if object = 0 then some .roots else none
  previous := fun node => match node with
    | .roots => some (.object 0)
    | .object object => if object = 0 then some .roots else none
  color := fun object => match object with
    | 0 => .purple
    | 1 => second
    | 2 => third
    | 3 => .black
  reviving := fun object => object = 0 && revived
  count := fun object => if object = 3 then 5 else 1
  cyclic := fun _ => 1
  typed := fun _ => true
  allocated := fun _ => true
  freed := []

def ringed : References (Fin 4) where
  fields := fun object => match object with
    | 0 => [1, 3]
    | 1 => [2, 3]
    | 2 => [0, 3]
    | 3 => [3]
  external := fun object => if object = 3 then 1 else 0
  live := Finset.univ
  roots := {0}
  closed := fun _ _ _ _ => Finset.mem_univ _
  inside := Finset.subset_univ _

theorem ringed_garbage (object : Fin 4) : object ∈ ringed.garbage ↔ object ≠ 3 := by
  have subgraph : ∀ object, object ∈ ringed.subgraph := by
    have first : (0 : Fin 4) ∈ ringed.subgraph :=
      References.roots_subgraph (Finset.mem_singleton_self _)
    have second := References.subgraph_closed 0 first 1 (by decide)
    intro object
    match object with
    | 0 => exact first
    | 1 => exact second
    | 2 => exact References.subgraph_closed 1 second 2 (by decide)
    | 3 => exact References.subgraph_closed 0 first 3 (by decide)
  have whole : ringed.subgraph = Finset.univ := Finset.eq_univ_of_forall subgraph
  have held : ∀ object, object ∈ ringed.held ↔ object = 3 := by
    intro object
    rw [References.mem_held, whole]
    revert object
    decide
  have leads : ∀ object, References.Reaches ringed.fields 3 object → object = 3 := by
    intro object way
    induction way with
    | refl => rfl
    | tail _ child ih =>
      rw [ih] at child
      exact List.mem_singleton.mp child
  rw [References.mem_garbage, References.mem_kept, not_and]
  constructor
  · rintro ⟨_, free⟩ rfl
    exact free (subgraph 3) ⟨3, (held 3).mpr rfl, .refl⟩
  · intro other
    refine ⟨subgraph object, fun _ => ?_⟩
    rintro ⟨holder, first, way⟩
    rw [held] at first
    subst first
    exact other (leads object way)

section

variable (revived : Bool) (second third : Color)

theorem sound_ring :
    Sound ⟨ring revived second third, [], none, .roots⟩ ⟨[.object 0], [], [], []⟩ := by
  refine ⟨⟨⟨?_, by decide⟩, ?_, fun _ _ => rfl, nofun, fun _ _ => rfl⟩, rfl, rfl, rfl,
    fun _ => ⟨rfl, rfl⟩, nofun, fun _ => rfl, trivial⟩
  · intro strand member
    rw [List.mem_singleton.mp member]
    exact ⟨rfl, rfl⟩
  · intro object outside _
    have other : object ≠ 0 := by
      rintro rfl
      exact outside (by decide)
    simp [ring, other]

theorem count_ring (object : Fin 4) : (ring revived second third).count object =
    ringed.count object := by
  revert object
  show ∀ object : Fin 4, (if object = 3 then 5 else 1) = ringed.count object
  decide

theorem rooted_ring : Rooted ringed (ring revived second third) ⟨[.object 0], [], [], []⟩ := by
  intro object
  simp only [ringed, Finset.mem_singleton, List.mem_singleton, ListNode.object.injEq, ring]
  constructor
  · rintro rfl
    exact ⟨rfl, rfl⟩
  · exact fun both => both.1

end

theorem ready_ring : Ready ringed (ring false .gray .gray) ⟨[.object 0], [], [], []⟩ := by
  have first : Prescans ringed (ring false .gray .gray) 0 1 := ⟨by decide, by decide⟩
  have second : Prescans ringed (ring false .gray .gray) 1 2 := ⟨by decide, by decide⟩
  refine ⟨sound_ring false .gray .gray, ⟨?_, ?_, by decide, ?_, rfl⟩, rooted_ring false .gray .gray, ?_⟩
  · exact fun object => ⟨fun _ => Finset.mem_univ _, fun _ => rfl⟩
  · exact fun object _ => count_ring false .gray .gray object
  · intro object _
    simp [ring]
  · intro object _ dark
    refine ⟨0, List.mem_singleton_self _, ?_⟩
    match object with
    | 0 => cases dark
    | 1 => exact .single first
    | 2 => exact .tail (.single first) second
    | 3 => cases dark

theorem ring_released : ∃ actions after heap',
    step ⟨ring false .gray .gray, [], none, .roots⟩ (.tick []) = some after ∧
      Machine.run step after actions = some ⟨heap', [], none, .roots⟩ ∧
      heap'.freed.Nodup ∧ ∀ object, object ∈ heap'.freed ↔ object ≠ 3 := by
  obtain ⟨actions, after, heap', first, run, _, ⟨released, log, nodup, members⟩, _⟩ :=
    collection_exact ready_ring
  have same : heap'.freed = released := log.trans (List.append_nil released)
  refine ⟨actions, after, heap', first, run, same ▸ nodup, fun object => ?_⟩
  rw [same, members, ringed_garbage]

/-- Some ticks, each of which finds the fields of a graph. -/
def ticks (fields : ι → List ι) : Nat → State ι → List (Action ι)
  | 0, _ => []
  | times + 1, state =>
    let action := Action.tick (state.control.report fields)
    match step state action with
    | some after => action :: ticks fields times after
    | none => [action]

/-- A collection and the free phase behind it have released nothing, although some object
is garbage and the counts are exact. -/
def Spared (graph : References ι) (heap : Heap ι) (layout : Layout ι) : Prop :=
  Sound ⟨heap, [], none, .roots⟩ layout ∧ (∀ object, heap.count object = graph.count object) ∧
    Rooted graph heap layout ∧ graph.garbage.Nonempty ∧
    ∃ times after, 0 < times ∧ Machine.run step ⟨heap, [], none, .roots⟩
      (ticks graph.fields times ⟨heap, [], none, .roots⟩) = some ⟨after, [], none, .roots⟩ ∧
      after.freed = []

theorem spared_of_run {graph : References ι} {heap : Heap ι} {layout : Layout ι}
    (sound : Sound ⟨heap, [], none, .roots⟩ layout)
    (exact_ : ∀ object, heap.count object = graph.count object) (rooted : Rooted graph heap layout)
    (garbage : graph.garbage.Nonempty) (times : Nat) (some_ : 0 < times)
    (final : (Machine.run step ⟨heap, [], none, .roots⟩
      (ticks graph.fields times ⟨heap, [], none, .roots⟩)).map (fun state =>
        (state.cycles, state.garbage, state.control.ctorIdx, state.heap.freed)) =
      some ([], none, (Control.roots : Control ι).ctorIdx, [])) : Spared graph heap layout := by
  refine ⟨sound, exact_, rooted, garbage, times, ?_⟩
  obtain ⟨⟨after, cycles, garbage, control⟩, reached, same⟩ := Option.map_eq_some_iff.mp final
  simp only [Prod.mk.injEq] at same
  obtain ⟨rfl, rfl, place, none⟩ := same
  cases control with
  | roots => exact ⟨after, some_, reached, none⟩
  | _ => cases place

/-- An object that has been revived before it became garbage is not released in the free
phase that follows, nor is what the marking does not get to behind an object that is gray
from an earlier collection and that the prescan does not come to. -/
theorem ring_spared :
    Spared ringed (ring true .gray .gray) ⟨[.object 0], [], [], []⟩ ∧
      Spared ringed (ring false .black .gray) ⟨[.object 0], [], [], []⟩ := by
  have garbage : ringed.garbage.Nonempty := ⟨0, (ringed_garbage 0).mpr (by decide)⟩
  constructor
  · exact spared_of_run (sound_ring ..) (count_ring _ _ _) (rooted_ring _ _ _) garbage 35
      (by decide) (by decide +kernel)
  · exact spared_of_run (sound_ring ..) (count_ring _ _ _) (rooted_ring _ _ _) garbage 16
      (by decide) (by decide +kernel)

end Xemmai.Collector
