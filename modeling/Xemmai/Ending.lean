import Mathlib.Data.Prod.Lex
import Xemmai.Integrity

/-!
# The end of the free phase

The collector comes from each candidate cycle to the next one: the loops that test, refurbish
and free a cycle take fewer and fewer turns, and none of them is stuck as long as what it lets
go of is counted.
-/

namespace Xemmai.Collector

set_option autoImplicit false

variable {ι : Type} [DecidableEq ι]

/-- A run of the collector, and of the mutators around it, while it works on a cycle. -/
inductive Works : State ι → List (Action ι) → State ι → Prop
  | done {state : State ι} : Works state [] state
  | next {state mid final : State ι} {action : Action ι} {actions : List (Action ι)}
      (busy : state.control ≠ .cycles) (taken : step state action = some mid)
      (rest : Works mid actions final) : Works state (action :: actions) final

/-- What the next turn relies on: an object that lets go of its references still has its type,
and these are counted. -/
def Backed (state : State ι) (report : List ι) : Prop :=
  match state.control with
  | .round .drop _ p => state.heap.typed p = true
  | .dropping _ _ (child :: _) => state.heap.allocated child = true ∧
      (state.heap.color child = .red ∨
        state.heap.typed child = true ∧ 0 < state.heap.count child)
  | .release object stack _ => state.heap.typed object = true ∧
      (Walk.decrementAll ⟨state.heap, stack⟩ report).isSome = true
  | _ => True

namespace Control

def target : Control ι → Option ι
  | round .redden cycle _ => some cycle
  | round .drop cycle _ => some cycle
  | dropping cycle _ _ => some cycle
  | release _ _ (.dropping cycle _ _) => some cycle
  | _ => none

end Control

structure Underway (state : State ι) (layout : Layout ι) : Prop where
  sound : Sound state layout
  locked : state.control.locked = true
  target : ∀ cycle, state.control.target = some cycle →
    .object cycle ∈ Strand.all layout.current

theorem Underway.untargeted {state : State ι} {layout : Layout ι} (sound : Sound state layout)
    (locked : state.control.locked = true) (none_ : state.control.target = none) :
    Underway state layout := by
  refine ⟨sound, locked, fun cycle target => ?_⟩
  rw [none_] at target
  cases target

/-- While the collector holds the mutex, only it goes on, and what allocates. -/
theorem locked_step {state after : State ι} {action : Action ι}
    (locked : state.control.locked = true) (taken : step state action = some after) :
    (∃ object, action = .allocate object) ∨ ∃ report, action = .tick report := by
  obtain ⟨heap, cycles, garbage, control⟩ := state
  cases action with
  | allocate object => exact .inl ⟨object, rfl⟩
  | tick report => exact .inr ⟨report, rfl⟩
  | increment object =>
      cases control with
      | epoch => cases locked
      | _ => cases taken
  | decrement object =>
      cases control with
      | epoch => cases locked
      | _ => cases taken
  | revive object =>
      simp only [step] at taken
      split at taken
      · rename_i allowed
        exact absurd locked allowed.2
      · cases taken
  | skip =>
      cases control with
      | roots => cases locked
      | _ => cases taken

/-! ### What is still to be done -/

section

variable [Fintype ι]

/-- What the objects that are there, besides those that `young` tells, have counted. -/
def pending (young : ι → Bool) (heap : Heap ι) : Nat :=
  ∑ object, if heap.allocated object && !young object then 2 * heap.count object else 0

/-- The loops that are left, the turns of the present one, the references that it has still to
let go, and what a release of objects takes from the counts. -/
def due (young : ι → Bool) (state : State ι) (layout : Layout ι) : Nat × Nat × Nat × Nat :=
  match state.control with
  | .testing cycle _ _ => (3, layout.turns cycle, 0, 0)
  | .refurbish _ _ => (2, layout.size, 0, 0)
  | .round .redden cycle _ => (2, layout.turns cycle, 0, 0)
  | .round .drop cycle _ => (1, 2 * layout.turns cycle + 1, 0, 0)
  | .dropping cycle _ children => (1, 2 * layout.turns cycle, children.length, 0)
  | .release _ stack (.dropping cycle _ children) =>
      (1, 2 * layout.turns cycle, children.length, pending young state.heap + stack.length + 1)
  | .sweep _ _ => (0, layout.size, 0, 0)
  | _ => (0, 0, 0, 0)

end

def Less : Nat × Nat × Nat × Nat → Nat × Nat × Nat × Nat → Prop :=
  Prod.Lex (· < ·) (Prod.Lex (· < ·) (Prod.Lex (· < ·) (· < ·)))

theorem less_founded : WellFounded Less :=
  Nat.lt_wfRel.wf.prod_lex
    (Nat.lt_wfRel.wf.prod_lex (Nat.lt_wfRel.wf.prod_lex Nat.lt_wfRel.wf))

namespace Less

variable {a a' b b' c c' d d' : Nat}

theorem loop (lower : a' < a) : Less (a', b', c', d') (a, b, c, d) := Prod.Lex.left _ _ lower

theorem turn (lower : b' < b) : Less (a, b', c', d') (a, b, c, d) :=
  Prod.Lex.right _ (Prod.Lex.left _ _ lower)

theorem reference (lower : c' < c) : Less (a, b, c', d') (a, b, c, d) :=
  Prod.Lex.right _ (Prod.Lex.right _ (Prod.Lex.left _ _ lower))

theorem release (lower : d' < d) : Less (a, b, c, d') (a, b, c, d) :=
  Prod.Lex.right _ (Prod.Lex.right _ (Prod.Lex.right _ lower))

end Less

/-! ### A release -/

section

variable [Fintype ι] {heap heap' : Heap ι} (young : ι → Bool)

theorem pending_add (object : ι) (less : Nat)
    (others : ∀ other, other ≠ object → heap'.allocated other = heap.allocated other ∧
      heap'.count other = heap.count other)
    (lower : (if heap'.allocated object && !young object then 2 * heap'.count object else 0) +
      less ≤ if heap.allocated object && !young object then 2 * heap.count object else 0) :
    pending young heap' + less ≤ pending young heap := by
  unfold pending
  rw [← Finset.add_sum_erase _ _ (Finset.mem_univ object),
    ← Finset.add_sum_erase _ _ (Finset.mem_univ object)]
  have rest : ∀ other ∈ Finset.univ.erase object,
      (if heap'.allocated other && !young other then 2 * heap'.count other else 0) =
        if heap.allocated other && !young other then 2 * heap.count other else 0 := by
    intro other member
    obtain ⟨allocated, count⟩ := others other (Finset.ne_of_mem_erase member)
    rw [allocated, count]
  rw [Finset.sum_congr rfl rest]
  omega

theorem pending_decrementAll {report : List ι} {walk after : Walk ι}
    (old : ∀ object ∈ report, young object = false)
    (lets : walk.decrementAll report = some after) :
    pending young after.heap + after.stack.length ≤
      pending young walk.heap + walk.stack.length := by
  induction report generalizing walk with
  | nil =>
      obtain rfl := Option.some.inj lets
      exact Nat.le_refl _
  | cons child report ih =>
      rw [Walk.decrementAll] at lets
      split at lets
      case isFalse => cases lets
      case isTrue counted =>
        have later := ih (fun object member => old object (List.mem_cons_of_mem _ member)) lets
        obtain ⟨live, positive⟩ := counted
        simp only [Heap.live, Bool.and_eq_true] at live
        have lowered : pending young (walk.heap.lower child) + 1 ≤ pending young walk.heap := by
          obtain ⟨next, previous, color, same⟩ := walk.heap.lower_links child
          rw [same]
          refine pending_add young child 1 (fun other different => ⟨rfl, ?_⟩) ?_
          · exact Function.update_of_ne different _ _
          · simp only [Heap.setCount, Function.update_self, live.1, old child List.mem_cons_self,
              Bool.not_false, Bool.and_self, if_true, Word.down]
            omega
        have pushed : (walk.decrementPush child).heap = walk.heap.lower child ∧
            (walk.decrementPush child).stack.length ≤ walk.stack.length + 1 := by
          unfold Walk.decrementPush
          simp only
          split
          · exact ⟨rfl, Nat.le_succ _⟩
          · exact ⟨rfl, Nat.le_refl _⟩
        rw [pushed.1] at later
        omega

theorem pending_release {object : ι} :
    pending young (heap.release object) ≤ pending young heap := by
  have others := fun other (different : other ≠ object) => heap.release_others different
  refine pending_add young object 0 others ?_
  have gone : ∀ heap : Heap ι, (heap.free object).allocated object = false :=
    fun heap => Function.update_self _ _ _
  unfold Heap.release
  simp only
  split
  · rw [gone]
    simp
  · split
    · exact Nat.le_refl _
    · rw [gone]
      simp

end

/-! ### The turns -/

section

variable [Fintype ι] {heap : Heap ι} {cycles : List ι} {garbage : Option ι} {layout : Layout ι}
  {after : State ι} {cycle p : ι} {rank : Nat × Nat × Nat × Nat} (young : ι → Bool)

/-- The collector has come to the next cycle, or less is to be done. -/
def Nearer (rank : Nat × Nat × Nat × Nat) (after : State ι) : Prop :=
  after.control = .cycles ∨
    ∃ layout', Underway after layout' ∧ Less (due young after layout') rank

omit [DecidableEq ι] [Fintype ι] in
theorem nodup_ring {nodes unseen seen : List (ListNode ι)} (listed : Listed heap layout)
    (place : layout.current = [⟨.object p, nodes, some (.object p)⟩])
    (around : nodes ++ [.object p] = unseen ++ .object cycle :: seen) :
    (unseen ++ .object cycle :: seen).Nodup := by
  have threaded := listed.threaded.perm layout.current_first
  rw [place, List.singleton_append] at threaded
  rw [← around]
  exact (List.perm_append_singleton _ _).nodup_iff.mpr threaded.first_nodup

omit [Fintype ι] in
theorem turns_around {nodes unseen seen : List (ListNode ι)}
    (place : layout.current = [⟨.object p, nodes, some (.object p)⟩])
    (around : nodes ++ [.object p] = unseen ++ .object cycle :: seen)
    (nodup : (unseen ++ .object cycle :: seen).Nodup) :
    layout.turns cycle = unseen.length + 1 := by
  have away : ListNode.object cycle ∉ unseen := fun member =>
    (List.nodup_append.mp nodup).2.2 _ member _ List.mem_cons_self rfl
  unfold Layout.turns
  rw [place]
  simp only
  rw [around, List.idxOf_append_of_notMem away, List.idxOf_cons_self, Nat.add_zero]

theorem nearer_decide {first : ι} {nodes : List (ListNode ι)} {control : Control ι} {b c d : Nat}
    {failed : Bool} (place : layout.current = [⟨.object first, nodes, some (.object first)⟩])
    (sound : Sound (State.decide ⟨heap, cycles, garbage, control⟩ first failed) layout) :
    Nearer young (3, b, c, d) (State.decide ⟨heap, cycles, garbage, control⟩ first failed) := by
  refine .inr ⟨layout, ⟨sound, ?_, ?_⟩, ?_⟩
  · cases failed <;> rfl
  · intro target same
    cases failed with
    | true => cases same
    | false =>
        cases same
        rw [place]
        exact List.mem_cons_self
  · cases failed with
    | true => exact Less.loop (by decide)
    | false => exact Less.loop (by decide)

theorem nearer_test {failed : Bool}
    (sound : Sound ⟨heap, cycles, garbage, .testing cycle p failed⟩ layout)
    (taken : State.test ⟨heap, cycles, garbage, .testing cycle p failed⟩ cycle p failed =
      some after) :
    Nearer young (due young ⟨heap, cycles, garbage, .testing cycle p failed⟩ layout) after := by
  obtain ⟨nodes, place⟩ := eq_of_ends sound.current
  obtain ⟨unseen, seen, around, typed⟩ := sound.stands nodes place
  have nodup := nodup_ring sound.listed place around
  have turns := turns_around place around nodup
  obtain ⟨layout', kept, tested⟩ := test_layout sound place around typed taken
  cases tested with
  | @pass q unseen seen rest typed around' =>
      refine .inr ⟨_, .untargeted kept rfl rfl, ?_⟩
      have turns' : Layout.turns
          { layout with current := [⟨.object q, rest, some (.object q)⟩] } cycle =
            unseen.length + 1 := turns_around rfl around' (nodup_ring kept.listed rfl around')
      simp only [due, turns, turns', List.length_cons]
      exact Less.turn (Nat.lt_succ_self _)
  | @skip q unseen seen nodes' untyped around' =>
      refine .inr ⟨_, .untargeted kept rfl rfl, ?_⟩
      have turns' : Layout.turns
          { layout with current := [⟨.object p, nodes', some (.object p)⟩] } cycle =
            unseen.length + 1 := turns_around rfl around' (nodup_ring kept.listed rfl around')
      simp only [due, turns, turns', List.length_cons]
      exact Less.turn (Nat.lt_succ_self _)
  | head typed => exact nearer_decide young rfl kept
  | headless untyped around' => exact nearer_decide young rfl kept
  | empty untyped => exact .inl rfl

omit [DecidableEq ι] [Fintype ι] in
theorem size_tails {first : ListNode ι} {nodes : List (ListNode ι)}
    {last : Option (ListNode ι)} (place : layout.current = [⟨first, nodes, last⟩])
    {layout' : Layout ι} (rest : layout'.current = Strand.tails last nodes) :
    layout'.size < layout.size := by
  unfold Layout.size
  rw [place, rest, Strand.all_tails]
  simp only [Strand.all_cons, Strand.all_nil, Strand.members_mk, List.append_nil,
    List.length_cons]
  exact Nat.lt_succ_self _

theorem nearer_refurbish
    (sound : Sound ⟨heap, cycles, garbage, .refurbish cycle p⟩ layout)
    (taken : State.refurbish ⟨heap, cycles, garbage, .refurbish cycle p⟩ cycle p = some after) :
    Nearer young (due young ⟨heap, cycles, garbage, .refurbish cycle p⟩ layout) after := by
  obtain ⟨nodes, layout', place, kept, refurbished⟩ := refurbish_layout sound taken
  have smaller : layout'.size < layout.size := by
    generalize after.heap = heap' at refurbished
    cases refurbished <;> exact size_tails place rfl
  simp only [State.refurbish, Option.bind_eq_bind, Option.bind_eq_some_iff,
    Option.some.injEq] at taken
  obtain ⟨q, _, taken⟩ := taken
  by_cases last : q = cycle
  · rw [if_pos last] at taken
    exact .inl (taken ▸ rfl)
  · rw [if_neg last] at taken
    have control : after.control = .refurbish cycle q := taken ▸ rfl
    refine .inr ⟨layout', .untargeted kept (by rw [control]; rfl) (by rw [control]; rfl), ?_⟩
    simp only [due, control]
    exact Less.turn smaller

theorem nearer_sweep {report : List ι}
    (sound : Sound ⟨heap, cycles, garbage, .sweep cycle p⟩ layout)
    (taken : State.tick ⟨heap, cycles, garbage, .sweep cycle p⟩ report = some after) :
    Nearer young (due young ⟨heap, cycles, garbage, .sweep cycle p⟩ layout) after := by
  obtain ⟨nodes, place, _, kept⟩ := sweep_layout sound taken
  have smaller : Layout.size { layout with
      current := Strand.tails (some (.object cycle)) nodes } < layout.size :=
    size_tails place rfl
  simp only [State.tick, Option.bind_eq_bind, Option.bind_eq_some_iff, Option.some.injEq] at taken
  obtain ⟨q, _, taken⟩ := taken
  by_cases last : q = cycle
  · rw [if_pos last] at taken
    exact .inl (taken ▸ rfl)
  · rw [if_neg last] at taken
    have control : after.control = .sweep cycle q := taken ▸ rfl
    refine .inr ⟨_, .untargeted kept (by rw [control]; rfl) (by rw [control]; rfl), ?_⟩
    simp only [due, control]
    exact Less.turn smaller

omit [Fintype ι] in
theorem Rotated.turns {layout' : Layout ι} {q : ι} (rotated : Rotated layout p q layout')
    (member : .object cycle ∈ Strand.all layout.current) (other : q ≠ cycle) :
    layout'.turns cycle < layout.turns cycle := by
  obtain ⟨nodes, rest, place, around, rfl⟩ := rotated
  exact turns_turn place member around other

theorem nearer_redden (report : List ι)
    (under : Underway ⟨heap, cycles, garbage, .round .redden cycle p⟩ layout)
    (taken : State.around ⟨heap, cycles, garbage, .round .redden cycle p⟩ .redden cycle p report =
      some after) :
    Nearer young (due young ⟨heap, cycles, garbage, .round .redden cycle p⟩ layout) after := by
  have member := under.target cycle rfl
  obtain ⟨q, layout', kept, rotated, control⟩ := redden_layout report under.sound taken
  have member' := rotated.stays _ member
  by_cases last : q = cycle
  · rw [if_pos last] at control
    refine .inr ⟨layout', ⟨kept, by rw [control]; rfl, ?_⟩, ?_⟩
    · rw [control]
      rintro _ ⟨⟩
      exact member'
    · simp only [due, control]
      exact Less.loop (by decide)
  · rw [if_neg last] at control
    refine .inr ⟨layout', ⟨kept, by rw [control]; rfl, ?_⟩, ?_⟩
    · rw [control]
      rintro _ ⟨⟩
      exact member'
    · simp only [due, control]
      exact Less.turn (rotated.turns member last)

theorem nearer_drop {children : List ι}
    (under : Underway ⟨heap, cycles, garbage, .dropping cycle p children⟩ layout)
    (taken : State.drop ⟨heap, cycles, garbage, .dropping cycle p children⟩ cycle p children =
      some after) :
    Nearer young (due young ⟨heap, cycles, garbage, .dropping cycle p children⟩ layout) after := by
  have member := under.target cycle rfl
  cases children with
  | nil =>
      obtain ⟨q, layout', kept, rotated, control⟩ := untype_layout under.sound taken
      by_cases last : q = cycle
      · rw [if_pos last] at control
        refine .inr ⟨layout', .untargeted kept (by rw [control]; rfl) (by rw [control]; rfl), ?_⟩
        simp only [due, control]
        exact Less.loop (by decide)
      · rw [if_neg last] at control
        have fewer := rotated.turns member last
        refine .inr ⟨layout', ⟨kept, by rw [control]; rfl, ?_⟩, ?_⟩
        · rw [control]
          rintro _ ⟨⟩
          exact rotated.stays _ member
        · simp only [due, control]
          exact Less.turn (by omega)
  | cons child children =>
      obtain ⟨layout', kept, same, control⟩ := push_layout under.sound taken
      have turns : layout'.turns cycle = layout.turns cycle := by
        unfold Layout.turns
        rw [same]
      rcases control with control | control
      · refine .inr ⟨layout', ⟨kept, by rw [control]; rfl, ?_⟩, ?_⟩
        · rw [control]
          rintro _ ⟨⟩
          exact same ▸ member
        · simp only [due, control, turns, List.length_cons]
          exact Less.reference (Nat.lt_succ_self _)
      · refine .inr ⟨layout', ⟨kept, by rw [control]; rfl, ?_⟩, ?_⟩
        · rw [control]
          rintro _ ⟨⟩
          exact same ▸ member
        · simp only [due, control, turns, List.length_cons]
          exact Less.reference (Nat.lt_succ_self _)

theorem nearer_release {object : ι} {stack children report : List ι}
    (under : Underway ⟨heap, cycles, garbage, .release object stack (.dropping cycle p children)⟩
      layout) (old : ∀ other ∈ report, young other = false)
    (taken : State.tick ⟨heap, cycles, garbage, .release object stack (.dropping cycle p children)⟩
      report = some after) :
    Nearer young (due young
      ⟨heap, cycles, garbage, .release object stack (.dropping cycle p children)⟩ layout) after := by
  have member := under.target cycle rfl
  obtain ⟨roots, kept⟩ := release_layout under.sound taken
  simp only [State.tick, Option.bind_eq_bind, Option.bind_eq_some_iff] at taken
  obtain ⟨_, _, walk, lets, taken⟩ := taken
  have lowered := pending_decrementAll young old lets
  have released : pending young (walk.heap.release object) ≤ pending young walk.heap :=
    pending_release young
  cases rest : walk.stack with
  | nil =>
      rw [rest] at taken
      obtain rfl := Option.some.inj taken
      refine .inr ⟨_, ⟨kept, rfl, ?_⟩, ?_⟩
      · rintro _ ⟨⟩
        exact member
      · exact Less.release (Nat.succ_pos _)
  | cons next stack' =>
      rw [rest] at taken lowered
      obtain rfl := Option.some.inj taken
      refine .inr ⟨_, ⟨kept, rfl, ?_⟩, ?_⟩
      · rintro _ ⟨⟩
        exact member
      · rw [List.length_cons] at lowered
        simp only at lowered
        refine Less.release ?_
        simp only
        omega

theorem Underway.nearer {state : State ι} (under : Underway state layout) {report : List ι}
    (old : ∀ object ∈ report, young object = false) (taken : state.tick report = some after) :
    Nearer young (due young state layout) after := by
  obtain ⟨heap, cycles, garbage, control⟩ := state
  have locked := under.locked
  cases control with
  | testing cycle p failed => exact nearer_test young under.sound taken
  | refurbish cycle p => exact nearer_refurbish young under.sound taken
  | round round cycle p =>
      cases round with
      | redden => exact nearer_redden young report under taken
      | drop =>
          simp only [State.tick, State.around] at taken
          split at taken
          · obtain rfl := Option.some.inj taken
            have kept : Sound ⟨heap, cycles, garbage, .dropping cycle p report⟩ layout :=
              (under.sound.tended rfl).sound under.sound.current under.sound.garbage
                under.sound.cycles (absurd · Bool.false_ne_true) trivial
            exact .inr ⟨layout, ⟨kept, rfl, under.target⟩, Less.turn (Nat.lt_succ_self _)⟩
          · cases taken
      | scanRed => cases locked
      | orange => cases locked
  | dropping cycle p children => exact nearer_drop young under taken
  | release object stack back =>
      cases back with
      | dropping cycle p children => exact nearer_release young under old taken
      | epoch => cases locked
      | garbage => cases locked
  | sweep cycle p => exact nearer_sweep young under.sound taken
  | _ => cases locked

theorem Underway.allocate {state : State ι} {object : ι} (under : Underway state layout)
    (taken : step state (.allocate object) = some after) :
    Underway after layout ∧
      due (fun other => young other || decide (other = object)) after layout =
        due young state layout := by
  have absent : state.heap.allocated object = false := by
    apply Bool.eq_false_iff.mpr
    intro held
    simp only [step, held, if_true] at taken
    cases taken
  obtain ⟨kept, same⟩ := sound_allocate under.sound taken
  subst same
  have counted : pending (fun other => young other || decide (other = object))
      (state.heap.allocate object) = pending young state.heap := by
    unfold pending
    refine Finset.sum_congr rfl fun other _ => ?_
    by_cases here : other = object
    · subst here
      simp [absent]
    · simp [Heap.allocate, here, Heap.setNext]
  refine ⟨⟨kept, under.locked, under.target⟩, ?_⟩
  simp only [due, counted]

end

/-! ### No turn is stuck -/

section

variable {heap : Heap ι} {cycles : List ι} {garbage : Option ι} {layout : Layout ι}

omit [DecidableEq ι] in
theorem Listed.follows (listed : Listed heap layout) {p cycle : ι} {nodes : List (ListNode ι)}
    (place : layout.current = [⟨.object p, nodes, some (.object cycle)⟩]) :
    ∃ q, heap.follow (.object p) = some q := by
  have threaded := listed.threaded.perm layout.current_first
  rw [place, List.singleton_append] at threaded
  have linked := threaded.first.next_first
  cases nodes with
  | nil => exact ⟨cycle, by simp only [Heap.follow, linked]; rfl⟩
  | cons node nodes =>
      obtain ⟨q, rfl⟩ := listed.object_of_others
        (Layout.mem_others.mpr (.inl (by simp [place] : node ∈ _)))
      exact ⟨q, by simp only [Heap.follow, linked]; rfl⟩

theorem Underway.enabled {state : State ι} (under : Underway state layout) {report : List ι}
    (counted : Backed state report) : ∃ after, state.tick report = some after := by
  obtain ⟨heap, cycles, garbage, control⟩ := state
  have locked := under.locked
  have sound := under.sound
  cases control with
  | testing cycle p failed =>
      obtain ⟨nodes, place⟩ := eq_of_ends sound.current
      obtain ⟨q, step⟩ := sound.listed.follows place
      simp only [State.tick, State.test, step, Option.bind_eq_bind, Option.bind_some]
      split <;> split
      · exact ⟨_, rfl⟩
      · exact ⟨_, rfl⟩
      · split <;> exact ⟨_, rfl⟩
      · exact ⟨_, rfl⟩
  | refurbish cycle p =>
      obtain ⟨nodes, place⟩ := eq_of_ends sound.current
      obtain ⟨q, step⟩ := sound.listed.follows place
      simp only [State.tick, State.refurbish, step, Option.bind_eq_bind, Option.bind_some]
      exact ⟨_, rfl⟩
  | round round cycle p =>
      cases round with
      | redden =>
          obtain ⟨nodes, place⟩ := eq_of_ends sound.current
          obtain ⟨q, step⟩ := sound.listed.follows place
          have painted : (heap.paint p .red).follow (.object p) = some q := step
          simp only [State.tick, State.around, State.turn, painted, Option.map_some]
          exact ⟨_, rfl⟩
      | drop =>
          simp only [State.tick, State.around, if_pos (show heap.typed p = true from counted)]
          exact ⟨_, rfl⟩
      | scanRed => cases locked
      | orange => cases locked
  | dropping cycle p children =>
      cases children with
      | nil =>
          obtain ⟨nodes, place⟩ := eq_of_ends sound.current
          obtain ⟨q, step⟩ := sound.listed.follows place
          have untyped : (heap.untype p).follow (.object p) = some q := step
          simp only [State.tick, State.drop, State.turn, untyped, Option.map_some]
          exact ⟨_, rfl⟩
      | cons child children =>
          obtain ⟨held, red | ⟨typed, positive⟩⟩ := counted
          · simp only at held red
            simp only [State.tick, State.drop, held, red, Bool.true_eq_false, if_true, if_false]
            exact ⟨_, rfl⟩
          · simp only at held typed positive
            simp only [State.tick, State.drop, held, typed, Nat.ne_of_gt positive,
              Bool.true_eq_false, or_self, if_false]
            repeat' split
            all_goals exact ⟨_, rfl⟩
  | release object stack back =>
      obtain ⟨typed, lets⟩ := counted
      obtain ⟨walk, lets⟩ := Option.isSome_iff_exists.mp lets
      simp only at typed lets
      simp only [State.tick, typed, guard_true, lets, Option.bind_eq_bind, Option.bind_some,
        Option.pure_def]
      split <;> exact ⟨_, rfl⟩
  | sweep cycle p =>
      obtain ⟨nodes, place⟩ := eq_of_ends sound.current
      obtain ⟨q, step⟩ := sound.listed.follows place
      simp only [State.tick, step, Option.bind_eq_bind, Option.bind_some]
      exact ⟨_, rfl⟩
  | _ => cases locked

end

/-! ### The runs -/

section

variable {layout : Layout ι}

def Action.makes (object : ι) : Action ι → Bool
  | .allocate other => decide (object = other)
  | _ => false

theorem Action.makes_iff {object : ι} {action : Action ι} :
    action.makes object = true ↔ action = .allocate object := by
  cases action with
  | allocate other =>
      simp only [Action.makes, decide_eq_true_eq, Action.allocate.injEq]
      exact eq_comm
  | _ => simp [Action.makes]

def makes (actions : Nat → Action ι) (n : Nat) (object : ι) : Bool :=
  (List.range n).any fun m => (actions m).makes object

theorem makes_succ (actions : Nat → Action ι) (n : Nat) (object : ι) :
    makes actions (n + 1) object = (makes actions n object || (actions n).makes object) := by
  unfold makes
  rw [List.range_succ, List.any_append, List.any_cons, List.any_nil, Bool.or_false]

variable (states : Nat → State ι) (actions : Nat → Action ι)

/-- What is to be done after the first steps of a run. -/
def Remains [Fintype ι] (n : Nat) (rank : Nat × Nat × Nat × Nat) : Prop :=
  ∃ layout, Underway (states n) layout ∧ due (makes actions n) (states n) layout = rank

variable {states actions}

/-- A run that does not end comes to the next cycle, when the references that are let go are
to objects that have been there before. -/
theorem Underway.ends [Fintype ι] (under : Underway (states 0) layout)
    (endless : Machine.Endless step states actions)
    (often : ∀ n, ∃ m, n ≤ m ∧ ∃ report, actions m = .tick report)
    (old : ∀ n report object, actions n = .tick report → object ∈ report →
      makes actions n object = false) : ∃ n, (states n).control = .cycles := by
  have stays : ∀ n rank, Remains states actions n rank →
      (¬ ∃ report, actions n = .tick report) → Remains states actions (n + 1) rank := by
    rintro n _ ⟨layout, under, rfl⟩ aside
    rcases locked_step under.locked (endless n) with ⟨object, same⟩ | ticks
    · obtain ⟨kept, equal⟩ := under.allocate (makes actions n) (same ▸ endless n)
      refine ⟨layout, kept, equal ▸ ?_⟩
      congr 1
      funext other
      rw [makes_succ, same]
      rfl
    · exact absurd ticks aside
  have lowers : ∀ n rank, Remains states actions n rank →
      (∃ report, actions n = .tick report) → (states (n + 1)).control = .cycles ∨
        ∃ less, Less less rank ∧ Remains states actions (n + 1) less := by
    rintro n _ ⟨layout, under, rfl⟩ ⟨report, same⟩
    have taken : (states n).tick report = some (states (n + 1)) := by
      have enabled := endless n
      rwa [same] at enabled
    have young : makes actions (n + 1) = makes actions n := by
      funext object
      rw [makes_succ, same]
      exact Bool.or_false _
    rcases under.nearer (makes actions n) (fun object => old n report object same) taken with
      done | ⟨layout', kept, less⟩
    · exact .inl done
    · exact .inr ⟨_, less, layout', kept, by rw [young]⟩
  exact Machine.ends_of_lowers less_founded stays lowers often _ 0 ⟨layout, under, rfl⟩

variable (states actions)

theorem works_of_endless (endless : Machine.Endless step states actions) (n : Nat)
    (busy : ∀ m, m < n → (states m).control ≠ .cycles) :
    Works (states 0) ((List.range n).map actions) (states n) := by
  induction n generalizing states actions with
  | zero => exact .done
  | succ n ih =>
      rw [List.range_succ_eq_map, List.map_cons, List.map_map]
      refine .next (busy 0 (Nat.succ_pos n)) (endless 0) ?_
      exact ih (fun m => states (m + 1)) (fun m => actions (m + 1))
        (fun m => endless (m + 1)) fun m less => busy (m + 1) (Nat.succ_lt_succ less)

variable {states actions}

theorem Underway.first [Fintype ι] (under : Underway (states 0) layout)
    (endless : Machine.Endless step states actions)
    (often : ∀ n, ∃ m, n ≤ m ∧ ∃ report, actions m = .tick report)
    (old : ∀ n report object, actions n = .tick report → object ∈ report →
      makes actions n object = false) :
    ∃ n, Works (states 0) ((List.range n).map actions) (states n) ∧
      (states n).control = .cycles := by
  classical
  have ends := under.ends endless often old
  exact ⟨Nat.find ends, works_of_endless states actions endless _
    (fun m earlier => Nat.find_min ends earlier), Nat.find_spec ends⟩

theorem Underway.works [Fintype ι] {state final : State ι} {taken : List (Action ι)}
    (under : Underway state layout) (works : Works state taken final) :
    final.control = .cycles ∨ ∃ layout', Underway final layout' := by
  induction works generalizing layout with
  | done => exact .inr ⟨layout, under⟩
  | @next state mid final action taken busy enabled rest ih =>
      rcases locked_step under.locked enabled with ⟨object, rfl⟩ | ⟨report, rfl⟩
      · exact ih (under.allocate (fun _ => false) enabled).1
      · rcases under.nearer (fun _ => false) (fun _ _ => rfl) enabled with
          ended | ⟨layout', under', _⟩
        · cases rest with
          | done => exact .inl ended
          | next busy => exact absurd ended busy
        · exact ih under'

end

end Xemmai.Collector
