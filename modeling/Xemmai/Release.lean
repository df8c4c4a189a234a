import Xemmai.Gathering

/-!
# The candidates are released

The free phase after a collection that nothing disturbs. Every candidate passes its
test, since the newer ones that referred to it have gone, and what the references
that are let go leave behind has exact counts.
-/

namespace Xemmai.Collector

set_option autoImplicit false

variable {ι : Type} [DecidableEq ι]

namespace Control

/-- `v_scan_stack`, with the object that a pass is on first. -/
def stack : Control ι → List ι
  | traverse _ object stack => object :: stack
  | release object stack _ => object :: stack
  | _ => []

end Control

/-- A turn of the collector before it comes to the roots again. It finds the fields of
a graph, and no object is on its stack twice. -/
def Quiet (fields : ι → List ι) (state after : State ι) : Prop :=
  state.control ≠ .roots ∧ state.control.stack.Nodup ∧
    state.tick (state.control.report fields) = some after

/-- The heap in the free phase. The objects that are `gone` have been freed, those
that are `bare` have no type any more, and the references of the `silent` ones are not
counted, but for the ones that the collector still owes. -/
structure Releasing (graph : References ι) (freed : List ι) (heap : Heap ι) (cycles : List ι)
    (layout : Layout ι) (gone bare silent : Finset ι) (owing : List ι)
    (aside : ι → Prop) : Prop where
  tended : Tended heap layout
  clean : layout.garbage = []
  rings : layout.cycles.map ends = cycles.map loop
  freed : ∃ released, heap.freed = released ++ freed ∧ released.Nodup ∧
    ∀ object, object ∈ released ↔ object ∈ gone
  allocated : ∀ object ∈ graph.live, heap.allocated object = true ↔ object ∉ gone
  typed : ∀ object ∈ graph.live, heap.typed object = true ↔ object ∉ bare
  calm : ∀ object ∈ graph.garbage, heap.reviving object = false
  survivors : ∀ object ∈ graph.subgraph, object ∉ graph.garbage → heap.Known object
  lost : gone ⊆ graph.garbage
  garbage : ∀ object ∈ graph.garbage, object ∈ gone ∨ .object object ∈ Strand.all layout.others
  inside : ∀ object, .object object ∈ Strand.all layout.others →
    object ∈ graph.garbage ∧ object ∉ gone
  closed : ∀ object, .object object ∈ Strand.all layout.others → object ∉ bare →
    ∀ child ∈ graph.fields object, child ∉ gone
  count : ∀ object ∈ graph.live, object ∉ gone → ¬ aside object →
    heap.count object = References.refs graph.fields (graph.live \ silent) object +
      owing.count object + graph.external object
  bound : ∀ object ∈ graph.live, heap.count object < 2 ^ 64
  cycles : ∀ strand ∈ layout.cycles, Candidate graph.fields heap.count heap strand
  order : layout.cycles.Pairwise (Older graph.fields)
  older : ∀ strand ∈ layout.current, ∀ strand' ∈ layout.cycles,
    Older graph.fields strand strand'

/-- Whether an object is on the current ring. -/
def Ringed (layout : Layout ι) (object : ι) : Prop :=
  .object object ∈ Strand.all layout.current

section Loops

variable {graph : References ι} {freed : List ι} {heap : Heap ι} {cycles : List ι}
  {layout : Layout ι} {gone bare silent : Finset ι} {owing : List ι} {aside : ι → Prop}

/-- A turn of a loop around a ring keeps what holds of the part that it has seen. -/
def Turns (fields : ι → List ι) (cycles : List ι) (cycle : ι) (here : ι → Control ι)
    (after : Control ι) (holds : List (ListNode ι) → Heap ι → Layout ι → Prop) : Prop :=
  ∀ p nodes seen heap layout, layout.current = [⟨.object p, nodes, some (.object p)⟩] →
    Around cycle p nodes seen → holds seen heap layout →
    ∃ q rest heap' layout', nodes ++ [.object p] = .object q :: rest ∧
      Relation.ReflTransGen (Quiet fields) ⟨heap, cycles, none, here p⟩
        ⟨heap', cycles, none, if q = cycle then after else here q⟩ ∧
      layout'.current = [⟨.object q, rest, some (.object q)⟩] ∧
      holds (seen ++ [.object p]) heap' layout'

theorem Turns.loop {fields : ι → List ι} {cycle : ι} {here : ι → Control ι}
    {after : Control ι} {holds : List (ListNode ι) → Heap ι → Layout ι → Prop}
    (turn : Turns fields cycles cycle here after holds)
    (threaded : ∀ seen heap layout, holds seen heap layout → Threaded heap.next layout.strands)
    {nodes : List (ListNode ι)}
    (place : layout.current = [⟨.object cycle, nodes, some (.object cycle)⟩])
    (start : holds [] heap layout) :
    ∃ rest heap' layout', Relation.ReflTransGen (Quiet fields) ⟨heap, cycles, none, here cycle⟩
        ⟨heap', cycles, none, after⟩ ∧
      layout'.current = [⟨.object cycle, rest, some (.object cycle)⟩] ∧
      holds (.object cycle :: rest) heap' layout' := by
  have more : ∀ todo p seen heap layout,
      layout.current = [⟨.object p, todo ++ seen, some (.object p)⟩] →
      (seen ++ [ListNode.object p]).head? = some (.object cycle) → holds seen heap layout →
      ∃ rest heap' layout', Relation.ReflTransGen (Quiet fields) ⟨heap, cycles, none, here p⟩
          ⟨heap', cycles, none, after⟩ ∧
        layout'.current = [⟨.object cycle, rest, some (.object cycle)⟩] ∧
        holds (.object cycle :: rest) heap' layout' := by
    intro todo
    induction todo with
    | nil =>
      intro p seen heap layout place first held
      obtain ⟨q, rest, heap', layout', turned, reached, place', held'⟩ :=
        turn p seen seen heap layout place ⟨[], rfl, first⟩ held
      rw [turned, List.head?_cons, Option.some.injEq, ListNode.object.injEq] at first
      subst first
      rw [if_pos rfl] at reached
      rw [turned] at held'
      exact ⟨rest, heap', layout', reached, place', held'⟩
    | cons node todo ih =>
      intro p seen heap layout place first held
      have nodup : (ListNode.object p :: (node :: todo ++ seen)).Nodup := by
        have threaded := (threaded seen heap layout held).perm layout.current_first
        rw [place, List.singleton_append] at threaded
        exact threaded.first_nodup
      obtain ⟨q, rest, heap', layout', turned, reached, place', held'⟩ :=
        turn p _ seen heap layout place ⟨node :: todo, rfl, first⟩ held
      rw [List.cons_append, List.cons_append, List.cons.injEq] at turned
      obtain ⟨rfl, rfl⟩ := turned
      have other : q ≠ cycle := by
        rintro rfl
        have member : .object q ∈ seen ++ [ListNode.object p] := List.mem_of_head? first
        simp only [List.cons_append, List.nodup_cons, List.mem_cons, List.mem_append,
          not_or] at nodup
        rcases List.mem_append.mp member with member | member
        · exact nodup.2.1.2 member
        · exact nodup.1.1 (List.mem_singleton.mp member).symm
      rw [if_neg other] at reached
      rw [List.append_assoc] at place'
      obtain ⟨rest, final, last, further, result⟩ := ih q (seen ++ [.object p]) heap' layout' place'
        (by rw [List.head?_append, first]; rfl) held'
      exact ⟨rest, final, last, reached.trans further, result⟩
  exact more nodes cycle [] heap layout (by rw [List.append_nil]; exact place) rfl start

theorem Releasing.turn {p q : ι} {nodes rest : List (ListNode ι)}
    (releasing : Releasing graph freed heap cycles layout gone bare silent owing aside)
    (place : layout.current = [⟨.object p, nodes, some (.object p)⟩])
    (turned : nodes ++ [.object p] = .object q :: rest)
    (tended : Tended heap { layout with current := [⟨.object q, rest, some (.object q)⟩] }) :
    Releasing graph freed heap cycles
      { layout with current := [⟨.object q, rest, some (.object q)⟩] } gone bare silent owing
      aside := by
  have same : ∀ node, node ∈ Strand.all
      ({ layout with current := [⟨.object q, rest, some (.object q)⟩] } : Layout ι).others ↔
        node ∈ Strand.all layout.others := by
    intro node
    rw [mem_lists layout releasing.clean, mem_lists { layout with current := [_] } releasing.clean,
      place]
    exact or_congr_left (ring_nodes turned node)
  refine { releasing with
    tended := tended
    garbage := ?_
    inside := fun object listed => releasing.inside object ((same _).mp listed)
    closed := fun object listed => releasing.closed object ((same _).mp listed)
    older := ?_ }
  · exact fun object lost => (releasing.garbage object lost).imp_right (same _).mpr
  · intro newer first strand member object inside child field
    have older := releasing.older _ (by rw [place]; exact List.mem_singleton_self _) strand member
      object inside child field
    have nodes := ring_nodes turned (.object child)
    simp only [Strand.all_cons, Strand.all_nil, List.append_nil] at nodes
    rw [List.mem_singleton.mp first, nodes]
    exact older

theorem Releasing.threaded
    (releasing : Releasing graph freed heap cycles layout gone bare silent owing aside) :
    Threaded heap.next layout.strands := releasing.tended.listed.threaded

theorem Releasing.current
    (releasing : Releasing graph freed heap cycles layout gone bare silent owing aside)
    {object : ι} (ringed : Ringed layout object) :
    object ∈ graph.garbage ∧ object ∈ graph.subgraph ∧ object ∈ graph.live ∧ object ∉ gone := by
  obtain ⟨lost, kept⟩ :=
    releasing.inside object ((mem_lists layout releasing.clean).mpr (Or.inl ringed))
  have inside := (References.mem_garbage.mp lost).1
  exact ⟨lost, inside, References.subgraph_live inside, kept⟩

theorem Releasing.paint {p : ι}
    (releasing : Releasing graph freed heap cycles layout gone bare silent owing aside)
    (ringed : Ringed layout p) (color : Color) :
    Releasing graph freed (heap.paint p color) cycles layout gone bare silent owing aside := by
  have still : ∀ other, other ≠ p → (heap.paint p color).color other = heap.color other :=
    fun other different => Function.update_of_ne different _ _
  refine { releasing with
    tended := releasing.tended.congr rfl rfl rfl (fun _ _ => rfl) (fun _ _ => rfl)
    survivors := ?_
    cycles := ?_ }
  · intro object inside kept
    have different : object ≠ p := by
      rintro rfl
      exact kept (releasing.current ringed).1
    unfold Heap.Known
    rw [still object different]
    exact releasing.survivors object inside kept
  · intro strand member object inside
    have different : object ≠ p := by
      rintro rfl
      exact releasing.tended.listed.ring_apart ringed
        (List.mem_flatMap.mpr ⟨strand, member, inside⟩)
    rw [still object different]
    exact releasing.cycles strand member object inside

theorem Releasing.cyclic
    (releasing : Releasing graph freed heap cycles layout gone gone gone [] fun _ => False)
    {strand : Strand (ListNode ι)} (place : layout.current = [strand])
    (candidate : Candidate graph.fields heap.count heap strand) {object : ι}
    (member : .object object ∈ strand.members) : heap.cyclic object = 0 := by
  have ringed : ∀ other, .object other ∈ strand.members → Ringed layout other := by
    intro other member
    simp only [Ringed, place, Strand.all_cons, Strand.all_nil, List.append_nil, member]
  obtain ⟨lost, _, live, kept⟩ := releasing.current (ringed object member)
  have sum := (candidate object member).2
  have count := releasing.count object live kept id
  rw [List.count_nil, References.garbage_external lost, Nat.add_zero] at count
  have within : objects strand.members ⊆ graph.live \ gone := by
    intro other inside
    obtain ⟨_, _, live, kept⟩ := releasing.current (ringed other (mem_objects.mp inside))
    exact Finset.mem_sdiff.mpr ⟨live, kept⟩
  have parts := References.refs_sdiff graph.fields object within
  have outside : References.refs graph.fields
      ((graph.live \ gone) \ objects strand.members) object = 0 := by
    apply References.refs_eq_zero
    intro other place' field
    simp only [Finset.mem_sdiff, mem_objects] at place'
    obtain ⟨⟨live, kept⟩, apart⟩ := place'
    have lost' := References.garbage_referrer lost live field
    have listed := (releasing.garbage other lost').resolve_left kept
    rw [mem_lists layout releasing.clean, place] at listed
    simp only [Strand.all_cons, Strand.all_nil, List.append_nil] at listed
    obtain ⟨strand', member', inside⟩ := List.mem_flatMap.mp (listed.resolve_left apart)
    exact releasing.older strand (by rw [place]; exact List.mem_singleton_self _) strand' member'
      other inside object field member
  omega

/-- The objects are as the passes left them, and the ring is a candidate. -/
def Testing (graph : References ι) (freed : List ι) (cycles : List ι) (gone : Finset ι)
    (_ : List (ListNode ι)) (heap : Heap ι) (layout : Layout ι) : Prop :=
  Releasing graph freed heap cycles layout gone gone gone [] (fun _ => False) ∧
    ∀ strand ∈ layout.current, Candidate graph.fields heap.count heap strand

/-- The test of an object finds nothing that speaks against it. -/
theorem testing_turns (cycle : ι) : Turns graph.fields cycles cycle
    (fun p => .testing cycle p false) (.round .redden cycle cycle)
    (Testing graph freed cycles gone) := by
  intro p nodes seen heap layout place _ held
  obtain ⟨releasing, candidates⟩ := held
  obtain ⟨q, rest, turned, step, tended⟩ := tended_turn releasing.tended place
  have ring : Candidate graph.fields heap.count heap
      ⟨.object p, nodes, some (.object p)⟩ :=
    candidates _ (by rw [place]; exact List.mem_singleton_self _)
  have same : ∀ node, node ∈ (⟨.object q, rest, some (.object q)⟩ :
      Strand (ListNode ι)).members ↔ node ∈ (⟨.object p, nodes, some (.object p)⟩ :
        Strand (ListNode ι)).members := by
    intro node
    simpa using ring_nodes turned node
  have member := (same (.object q)).mp List.mem_cons_self
  have zero := releasing.cyclic place ring member
  have ringed : Ringed layout q := by
    simpa [Ringed, place] using member
  obtain ⟨lost, _, live, kept⟩ := releasing.current ringed
  have orange := (ring q member).1
  have typed := (releasing.typed q live).mpr kept
  have calm := releasing.calm q lost
  have settled : Tended (heap.settle q)
      { layout with current := [⟨.object q, rest, some (.object q)⟩] } :=
    tended.congr rfl rfl rfl (fun _ _ => rfl) (fun _ _ => rfl)
  have turned' := releasing.turn place turned tended
  refine ⟨q, rest, heap.settle q, _, turned, Relation.ReflTransGen.single ⟨nofun, List.nodup_nil, ?_⟩,
    rfl, ⟨{ turned' with tended := settled, calm := ?_ }, ?_⟩⟩
  · simp only [State.tick, State.test, step, Option.bind_eq_bind, Option.bind_some, typed, if_true,
      orange, zero, calm, State.decide]
    split <;> rfl
  · intro object lost
    simp only [Heap.settle, Function.update_apply]
    split
    · rfl
    · exact releasing.calm object lost
  · intro strand first object inside
    rw [List.mem_singleton.mp first] at inside ⊢
    rw [objects_congr same]
    exact ring object ((same _).mp inside)

/-- The objects seen are red, and their counts do not matter any more. -/
def Reddening (graph : References ι) (freed : List ι) (cycles : List ι) (gone : Finset ι)
    (seen : List (ListNode ι)) (heap : Heap ι) (layout : Layout ι) : Prop :=
  Releasing graph freed heap cycles layout gone gone gone [] (Ringed layout) ∧
    ∀ object, .object object ∈ seen → heap.color object = .red

theorem reddening_turns (cycle : ι) : Turns graph.fields cycles cycle
    (.round .redden cycle) (.round .drop cycle cycle) (Reddening graph freed cycles gone) := by
  intro p nodes seen heap layout place _ held
  obtain ⟨releasing, red⟩ := held
  have ringed : Ringed layout p := by simp [Ringed, place]
  have painted := releasing.paint ringed .red
  obtain ⟨q, rest, turned, step, tended⟩ := tended_turn painted.tended place
  have same : ∀ node, node ∈ Strand.all
      [(⟨.object q, rest, some (.object q)⟩ : Strand (ListNode ι))] ↔
        node ∈ Strand.all layout.current := by
    intro node
    rw [place]
    exact ring_nodes turned node
  have ring : Ringed { layout with current := [⟨.object q, rest, some (.object q)⟩] } =
      Ringed layout := by
    funext object
    exact propext (same _)
  refine ⟨q, rest, heap.paint p .red, _, turned, Relation.ReflTransGen.single ⟨nofun, List.nodup_nil, ?_⟩,
    rfl, ⟨ring ▸ painted.turn place turned tended, ?_⟩⟩
  · have step' : (heap.paint p .red).follow (.object p) = some q := step
    simp only [State.tick, State.around, State.turn, step', Option.map_some]
    split <;> rfl
  · intro object member
    simp only [Heap.paint, Function.update_apply]
    split
    · rfl
    · rename_i other
      simp only [List.mem_append, List.mem_singleton, ListNode.object.injEq, other,
        or_false] at member
      exact red object member

theorem drop_red (cycle p : ι) {child : ι} {children : List ι}
    (releasing : Releasing graph freed heap cycles layout gone bare silent (child :: children)
      (Ringed layout))
    (ringed : Ringed layout child) (red : heap.color child = .red) :
    Quiet graph.fields ⟨heap, cycles, none, .dropping cycle p (child :: children)⟩
        ⟨heap, cycles, none, .dropping cycle p children⟩ ∧
      Releasing graph freed heap cycles layout gone bare silent children (Ringed layout) := by
  obtain ⟨_, _, live, kept⟩ := releasing.current ringed
  refine ⟨⟨nofun, List.nodup_nil, ?_⟩, { releasing with count := ?_ }⟩
  · have allocated := (releasing.allocated child live).mpr kept
    simp [State.tick, State.drop, allocated, red]
  · intro object inside present free
    have different : child ≠ object := by
      rintro rfl
      exact free ringed
    rw [← List.count_cons_of_ne different]
    exact releasing.count object inside present free

/-- A reference to an object of another candidate is let go. -/
theorem drop_orange (cycle p : ι) {child : ι} {children : List ι}
    (releasing : Releasing graph freed heap cycles layout gone bare silent (child :: children)
      (Ringed layout))
    (listed : .object child ∈ Strand.all layout.cycles)
    (counted : ∀ object, .object object ∈ Strand.all layout.cycles → object ∉ silent)
    (typed : child ∉ bare) :
    ∃ heap', Quiet graph.fields ⟨heap, cycles, none, .dropping cycle p (child :: children)⟩
        ⟨heap', cycles, none, .dropping cycle p children⟩ ∧ heap'.color = heap.color ∧
      Releasing graph freed heap' cycles layout gone bare silent children (Ringed layout) := by
  obtain ⟨lost, kept⟩ :=
    releasing.inside child ((mem_lists layout releasing.clean).mpr (Or.inr listed))
  have live : child ∈ graph.live := References.garbage_live lost
  have apart : ¬ Ringed layout child := fun ring => releasing.tended.listed.ring_apart ring listed
  obtain ⟨strand, member, inside⟩ := List.mem_flatMap.mp listed
  obtain ⟨orange, sum⟩ := releasing.cycles strand member child inside
  have count := releasing.count child live kept apart
  rw [List.count_cons_self] at count
  have bound := releasing.bound child live
  have within : objects strand.members ⊆ graph.live \ silent := by
    intro object place
    have listed := List.mem_flatMap.mpr ⟨strand, member, mem_objects.mp place⟩
    obtain ⟨lost, _⟩ :=
      releasing.inside object ((mem_lists layout releasing.clean).mpr (Or.inr listed))
    exact Finset.mem_sdiff.mpr ⟨References.garbage_live lost, counted object listed⟩
  have most := References.refs_mono graph.fields child within
  have lower : ∀ other, Function.update heap.count child (Word.down (heap.count child)) other +
      (if other = child then 1 else 0) = heap.count other := by
    intro other
    rw [Function.update_apply]
    split
    · rename_i same
      subst same
      simp only [Word.down]
      omega
    · rfl
  have lowerCyclic : ∀ other, Function.update heap.cyclic child
      (Word.down (heap.cyclic child)) other + (if other = child then 1 else 0) =
        heap.cyclic other := by
    intro other
    rw [Function.update_apply]
    split
    · rename_i same
      subst same
      simp only [Word.down]
      omega
    · rfl
  refine ⟨(heap.setCount child (Word.down (heap.count child))).setCyclic child
    (Word.down (heap.cyclic child)), ⟨(by simp), List.nodup_nil, ?_⟩, rfl, { releasing with
      tended := releasing.tended.congr rfl rfl rfl (fun _ _ => rfl) ?_
      count := ?_
      bound := ?_
      cycles := ?_ }⟩
  · have allocated := (releasing.allocated child live).mpr kept
    have typed' := (releasing.typed child live).mpr typed
    have some' : heap.count child ≠ 0 := by omega
    simp [State.tick, State.drop, allocated, typed', some', orange, Heap.setCount]
  · rw [releasing.clean]
    simp
  · intro object inside present free
    have old := releasing.count object inside present free
    have step := lower object
    rw [List.count_cons] at old
    simp only [Heap.setCyclic, Heap.setCount] at step ⊢
    by_cases same : object = child
    · subst same
      simp only [if_true, beq_self_eq_true] at old step
      omega
    · have other : ¬ (child == object) = true := by simpa using fun equal => same equal.symm
      rw [if_neg same] at step
      rw [if_neg other] at old
      omega
  · intro object inside
    have step := lower object
    have old := releasing.bound object inside
    simp only [Heap.setCyclic, Heap.setCount] at step ⊢
    omega
  · intro strand' member' object place
    obtain ⟨color, old⟩ := releasing.cycles strand' member' object place
    have first := lower object
    have second := lowerCyclic object
    refine ⟨color, ?_⟩
    simp only [Heap.setCyclic, Heap.setCount] at first second ⊢
    omega

theorem drop_survivor (cycle p : ι) {child : ι} {children : List ι}
    (releasing : Releasing graph freed heap cycles layout gone bare silent (child :: children)
      (Ringed layout))
    (inside : child ∈ graph.subgraph) (survives : child ∉ graph.garbage)
    (lost : silent ⊆ graph.garbage) (typed : child ∉ bare) :
    ∃ heap' roots, Quiet graph.fields ⟨heap, cycles, none, .dropping cycle p (child :: children)⟩
        ⟨heap', cycles, none, .dropping cycle p children⟩ ∧
      (∀ object, object ≠ child → heap'.color object = heap.color object) ∧
      Releasing graph freed heap' cycles { layout with roots := roots } gone bare silent children
        (Ringed layout) := by
  have live := References.subgraph_live inside
  have kept : child ∉ gone := fun member => survives (releasing.lost member)
  have apart : ¬ Ringed layout child := fun ring => survives (releasing.current ring).1
  have allocated := (releasing.allocated child live).mpr kept
  have typed' := (releasing.typed child live).mpr typed
  have count := releasing.count child live kept apart
  rw [List.count_cons_self] at count
  have bound := releasing.bound child live
  have holds : 0 < References.refs graph.fields (graph.live \ silent) child +
      graph.external child := by
    have counted : child ∈ graph.kept := by
      by_contra out
      exact survives (References.mem_garbage.mpr ⟨inside, out⟩)
    refine Nat.lt_of_lt_of_le (References.kept_counted counted) (Nat.add_le_add_right ?_ _)
    exact References.refs_mono _ _ (Finset.sdiff_subset_sdiff (Finset.Subset.refl _) lost)
  have left : Word.down (heap.count child) + 1 = heap.count child := by
    simp only [Word.down]
    omega
  have more : 0 < Word.down (heap.count child) := by omega
  have known := releasing.survivors child inside survives
  obtain ⟨next, previous, links⟩ := Heap.enlist_links
    ((heap.setCount child (Word.down (heap.count child))).paint child .purple) child
  have form : heap.lower child = { (heap.setCount child (Word.down (heap.count child))).paint child
      .purple with next := next, previous := previous } := by
    rw [← links]
    simp only [Heap.lower, Heap.setCount, Function.update_self, gt_iff_lt, more, if_true]
  have counts : ∀ object, (heap.lower child).count object +
      (if object = child then 1 else 0) = heap.count object := by
    intro object
    rw [form]
    simp only [Heap.setCount, Heap.paint, Function.update_apply]
    split
    · rename_i same
      rw [same]
      exact left
    · rfl
  have colors : ∀ object, object ≠ child →
      (heap.lower child).color object = heap.color object := by
    intro object different
    rw [form]
    exact Function.update_of_ne different _ _
  have purple : (heap.lower child).color child = .purple := by
    rw [form]
    exact Function.update_self _ _ _
  obtain ⟨roots, tended, _⟩ := releasing.tended.lower
    (by rw [Heap.live, allocated, typed']; rfl) (by omega : heap.count child > 0)
  refine ⟨heap.lower child, roots, ⟨(by simp), List.nodup_nil, ?_⟩, colors, ?_⟩
  · have some' : heap.count child ≠ 0 := by omega
    have red : heap.color child ≠ .red := by
      rcases known with shade | shade <;> simp [shade]
    have orange : heap.color child ≠ .orange := by
      rcases known with shade | shade <;> simp [shade]
    have positive : (heap.lower child).count child > 0 := by
      have step := counts child
      rw [if_pos rfl] at step
      omega
    simp [State.tick, State.drop, allocated, typed', some', red, orange, positive]
  · refine
      { tended := tended
        clean := releasing.clean
        rings := releasing.rings
        freed := by rw [form]; exact releasing.freed
        allocated := by rw [form]; exact releasing.allocated
        typed := by rw [form]; exact releasing.typed
        calm := by rw [form]; exact releasing.calm
        survivors := ?_
        lost := releasing.lost
        garbage := releasing.garbage
        inside := releasing.inside
        closed := releasing.closed
        count := ?_
        bound := ?_
        cycles := ?_
        order := releasing.order
        older := releasing.older }
    · intro object place stays
      by_cases same : object = child
      · rw [same]
        exact Or.inr purple
      · unfold Heap.Known
        rw [colors object same]
        exact releasing.survivors object place stays
    · intro object place present free
      have old := releasing.count object place present free
      have step := counts object
      rw [List.count_cons] at old
      by_cases same : object = child
      · subst same
        simp only [if_true, beq_self_eq_true] at old step
        omega
      · have other : ¬ (child == object) = true := by simpa using fun equal => same equal.symm
        rw [if_neg same] at step
        rw [if_neg other] at old
        omega
    · intro object place
      have step := counts object
      have old := releasing.bound object place
      omega
    · intro strand member object place
      have listed := List.mem_flatMap.mpr ⟨strand, member, place⟩
      have different : object ≠ child := by
        rintro rfl
        exact survives
          (releasing.inside object ((mem_lists layout releasing.clean).mpr (Or.inr listed))).1
      obtain ⟨orange, sum⟩ := releasing.cycles strand member object place
      have step := counts object
      rw [if_neg different] at step
      refine ⟨(colors object different).trans orange, ?_⟩
      rw [form] at step ⊢
      exact sum.trans step.symm

theorem drop_children (cycle p : ι) (children : List ι) : ∀ {heap : Heap ι} {layout : Layout ι},
    Releasing graph freed heap cycles layout gone bare (insert p bare) children (Ringed layout) →
    (∀ object, Ringed layout object → heap.color object = .red) → Ringed layout p →
    (∀ object ∈ bare, object ∈ gone ∨ Ringed layout object) →
    (∀ child ∈ children, child ∈ graph.subgraph ∧ child ∉ gone) →
    ∃ heap' roots, Relation.ReflTransGen (Quiet graph.fields)
        ⟨heap, cycles, none, .dropping cycle p children⟩
        ⟨heap', cycles, none, .dropping cycle p []⟩ ∧
      Releasing graph freed heap' cycles { layout with roots := roots } gone bare
        (insert p bare) [] (Ringed layout) ∧
      ∀ object, Ringed layout object → heap'.color object = .red := by
  induction children with
  | nil =>
    intro heap layout releasing red _ _ _
    exact ⟨heap, layout.roots, .refl, releasing, red⟩
  | cons child children ih =>
    intro heap layout releasing red ringed within fields
    obtain ⟨inside, kept⟩ := fields child List.mem_cons_self
    have rest := fun other member => fields other (List.mem_cons_of_mem child member)
    have counted : ∀ object, .object object ∈ Strand.all layout.cycles →
        object ∉ insert p bare := by
      intro object listed member
      have apart : ¬ Ringed layout object :=
        fun ring => releasing.tended.listed.ring_apart ring listed
      have present :=
        (releasing.inside object ((mem_lists layout releasing.clean).mpr (Or.inr listed))).2
      rcases Finset.mem_insert.mp member with rfl | member
      · exact apart ringed
      · exact (within object member).elim present apart
    by_cases ring : Ringed layout child
    · obtain ⟨step, releasing'⟩ := drop_red cycle p releasing ring (red child ring)
      obtain ⟨heap', roots, reached, result⟩ := ih releasing' red ringed within rest
      exact ⟨heap', roots, .head step reached, result⟩
    · have typed : child ∉ bare := fun member => (within child member).elim kept ring
      by_cases lost : child ∈ graph.garbage
      · have listed := (releasing.garbage child lost).resolve_left kept
        rw [mem_lists layout releasing.clean] at listed
        obtain ⟨heap', step, color, releasing'⟩ := drop_orange cycle p releasing
          (listed.resolve_left ring) counted typed
        obtain ⟨heap'', roots, reached, result⟩ := ih releasing'
          (by rw [color]; exact red) ringed within rest
        exact ⟨heap'', roots, .head step reached, result⟩
      · have silent : insert p bare ⊆ graph.garbage := by
          intro object member
          rcases Finset.mem_insert.mp member with rfl | member
          · exact (releasing.current ringed).1
          · rcases within object member with gone' | ring'
            · exact releasing.lost gone'
            · exact (releasing.current ring').1
        obtain ⟨heap', roots, step, color, releasing'⟩ := drop_survivor cycle p
          releasing inside lost silent typed
        have red' : ∀ object, Ringed layout object → heap'.color object = .red := by
          intro object ring'
          have different : object ≠ child := by
            rintro rfl
            exact ring ring'
          exact (color object different).trans (red object ring')
        obtain ⟨heap'', roots', reached, result⟩ := ih releasing' red' ringed within rest
        exact ⟨heap'', roots', .head step reached, result⟩

/-- The ring is red, and the references of the objects seen have been let go. -/
def Dropping (graph : References ι) (freed : List ι) (cycles : List ι) (gone : Finset ι)
    (seen : List (ListNode ι)) (heap : Heap ι) (layout : Layout ι) : Prop :=
  Releasing graph freed heap cycles layout gone (gone ∪ objects seen) (gone ∪ objects seen) []
      (Ringed layout) ∧
    (∀ node ∈ seen, node ∈ Strand.all layout.current) ∧
    ∀ object, Ringed layout object → heap.color object = .red

theorem dropping_turns (cycle : ι) : Turns graph.fields cycles cycle
    (.round .drop cycle) (.sweep cycle cycle) (Dropping graph freed cycles gone) := by
  intro p nodes seen heap layout place around held
  obtain ⟨releasing, within, red⟩ := held
  have ringed : Ringed layout p := by simp [Ringed, place]
  obtain ⟨lost, inside, live, kept⟩ := releasing.current ringed
  have fresh : p ∉ gone ∪ objects seen := by
    have nodup : (ListNode.object p :: nodes).Nodup := by
      have threaded := releasing.threaded.perm layout.current_first
      rw [place, List.singleton_append] at threaded
      exact threaded.first_nodup
    obtain ⟨todo, rfl, _⟩ := around
    rw [Finset.mem_union, mem_objects, not_or]
    exact ⟨kept, fun member => (List.nodup_cons.mp nodup).1 (List.mem_append_right _ member)⟩
  have typed := (releasing.typed p live).mpr fresh
  have owing : Releasing graph freed heap cycles layout gone (gone ∪ objects seen)
      (insert p (gone ∪ objects seen)) (graph.fields p) (Ringed layout) := by
    refine { releasing with count := ?_ }
    intro object place present free
    have old := releasing.count object place present free
    have member : p ∈ graph.live \ (gone ∪ objects seen) := Finset.mem_sdiff.mpr ⟨live, fresh⟩
    rw [References.refs_erase member] at old
    rw [← Finset.sdiff_insert] at old
    rw [List.count_nil] at old
    omega
  have bare : ∀ object ∈ gone ∪ objects seen, object ∈ gone ∨ Ringed layout object := by
    intro object member
    rcases Finset.mem_union.mp member with member | member
    · exact Or.inl member
    · exact Or.inr (within _ (mem_objects.mp member))
  obtain ⟨heap', roots, reached, releasing', red'⟩ := drop_children cycle p
    (graph.fields p) owing red ringed bare fun child field =>
      ⟨References.subgraph_closed p inside child field, releasing.closed p
        ((mem_lists layout releasing.clean).mpr (Or.inl ringed)) fresh child field⟩
  have untyped : Tended (heap'.untype p) { layout with roots := roots } := by
    refine releasing'.tended.congr rfl rfl rfl ?_ (fun _ _ => rfl)
    intro other member
    refine Function.update_of_ne ?_ _ _
    rintro rfl
    exact releasing'.threaded.apart (List.mem_cons_of_mem _ member)
      (Layout.mem_others.mpr (Or.inl ringed))
  obtain ⟨q, rest, turned, step, tended⟩ := tended_turn untyped place
  have seen' : gone ∪ objects (seen ++ [.object p]) = insert p (gone ∪ objects seen) := by
    rw [objects_seen, Finset.union_insert]
  have ring : Ringed { layout with
      roots := roots
      current := [⟨.object q, rest, some (.object q)⟩] } = Ringed layout := by
    funext object
    refine propext ?_
    simp only [Ringed, place]
    exact ring_nodes turned _
  have bare' : Releasing graph freed (heap'.untype p) cycles { layout with roots := roots } gone
      (gone ∪ objects (seen ++ [.object p])) (gone ∪ objects (seen ++ [.object p])) []
      (Ringed layout) := by
    rw [seen']
    refine { releasing' with
      tended := untyped
      typed := ?_
      closed := fun object listed dressed => releasing'.closed object listed
        fun member => dressed (Finset.mem_insert_of_mem member) }
    intro object place
    rw [Finset.mem_insert, not_or, ← releasing'.typed object place]
    simp only [Heap.untype, Function.update_apply]
    split
    · rename_i same
      simp [same]
    · rename_i other
      simp [other]
  have first : Quiet graph.fields ⟨heap, cycles, none, .round .drop cycle p⟩
      ⟨heap, cycles, none, .dropping cycle p (graph.fields p)⟩ := by
    refine ⟨(by simp), List.nodup_nil, ?_⟩
    simp only [State.tick, State.around, typed, if_true, Control.report]
  have last : Quiet graph.fields ⟨heap', cycles, none, .dropping cycle p []⟩
      ⟨heap'.untype p, cycles, none,
        if q = cycle then .sweep cycle cycle else .round .drop cycle q⟩ := by
    refine ⟨(by simp), List.nodup_nil, ?_⟩
    have step' : (heap'.untype p).follow (.object p) = some q := step
    simp only [State.tick, State.drop, State.turn, step', Option.map_some]
    split <;> rfl
  refine ⟨q, rest, heap'.untype p, { layout with
    roots := roots
    current := [⟨.object q, rest, some (.object q)⟩] }, turned, (reached.head first).tail last,
    rfl, ?_, ?_, ?_⟩
  · exact ring ▸ bare'.turn place turned tended
  · intro node member
    rw [ring_nodes turned, ← place]
    rcases List.mem_append.mp member with member | member
    · exact within node member
    · rw [List.mem_singleton.mp member]
      exact ringed
  · intro object member
    rw [ring] at member
    exact red' object member

theorem Releasing.sweep {cycle p : ι} {nodes : List (ListNode ι)}
    (releasing : Releasing graph freed heap cycles layout gone bare bare [] (Ringed layout))
    (place : layout.current = [⟨.object p, nodes, some (.object cycle)⟩])
    (swept : ∀ object, object ∈ bare ↔ object ∈ gone ∨ Ringed layout object) :
    Releasing graph freed (heap.free p) cycles
        { layout with current := Strand.tails (some (.object cycle)) nodes } (insert p gone) bare
        bare [] (fun object => .object object ∈ nodes) ∧
      ∀ object, object ∈ bare ↔ object ∈ insert p gone ∨ .object object ∈ nodes := by
  have tended := releasing.tended
  have ringed : ∀ object, Ringed layout object ↔ object = p ∨ .object object ∈ nodes := by
    intro object
    simp [Ringed, place]
  have here : Ringed layout p := (ringed p).mpr (Or.inl rfl)
  obtain ⟨lost, _, live, kept⟩ := releasing.current here
  have nodup : (ListNode.object p :: nodes).Nodup := by
    have threaded := releasing.threaded.perm layout.current_first
    rw [place, List.singleton_append] at threaded
    exact threaded.first_nodup
  have others : ∀ node, node ∈ Strand.all
      ({ layout with current := Strand.tails (some (.object cycle)) nodes } : Layout ι).others ↔
        node ∈ nodes ∨ node ∈ Strand.all layout.cycles := by
    intro node
    rw [mem_lists _ (by exact releasing.clean), Strand.all_tails]
  have old : ∀ node, node ∈ nodes ∨ node ∈ Strand.all layout.cycles →
      node ∈ Strand.all layout.others ∧ node ≠ .object p := by
    rintro node (member | member)
    · refine ⟨(mem_lists layout releasing.clean).mpr (Or.inl (by simp [place, member])), ?_⟩
      rintro rfl
      exact (List.nodup_cons.mp nodup).1 member
    · refine ⟨(mem_lists layout releasing.clean).mpr (Or.inr member), ?_⟩
      rintro rfl
      exact tended.listed.ring_apart here member
  obtain ⟨released, log, distinct, members⟩ := releasing.freed
  refine ⟨{
    tended := ⟨tended.listed.shift place (fun _ _ => rfl) (fun held => by simp [Heap.free] at held)
      (fun other different => Function.update_of_ne different _ _) rfl rfl, tended.doubly,
      freed_spent tended here rfl, closed_tails tended⟩
    clean := releasing.clean
    rings := releasing.rings
    freed := ?_
    allocated := ?_
    typed := releasing.typed
    calm := releasing.calm
    survivors := releasing.survivors
    lost := ?_
    garbage := ?_
    inside := ?_
    closed := ?_
    count := ?_
    bound := ?_
    cycles := ?_
    order := releasing.order
    older := ?_ }, ?_⟩
  · refine ⟨p :: released, by simp [Heap.free, log], ?_, ?_⟩
    · exact List.nodup_cons.mpr ⟨fun member => kept ((members p).mp member), distinct⟩
    · intro object
      rw [List.mem_cons, Finset.mem_insert, members]
  · intro object inside
    simp only [Heap.free, Function.update_apply, Finset.mem_insert, not_or]
    split
    · rename_i same
      simp [same]
    · rename_i other
      simp [other, releasing.allocated object inside]
  · intro object member
    rcases Finset.mem_insert.mp member with rfl | member
    · exact lost
    · exact releasing.lost member
  · intro object inside
    rw [others, Finset.mem_insert]
    rcases releasing.garbage object inside with gone' | listed
    · exact Or.inl (Or.inr gone')
    · rcases (mem_lists layout releasing.clean).mp listed with ring | listed
      · rcases (ringed object).mp ring with same | member
        · exact Or.inl (Or.inl same)
        · exact Or.inr (Or.inl member)
      · exact Or.inr (Or.inr listed)
  · intro object listed
    obtain ⟨before, different⟩ := old _ ((others _).mp listed)
    obtain ⟨lost', present⟩ := releasing.inside object before
    refine ⟨lost', ?_⟩
    rw [Finset.mem_insert, not_or]
    exact ⟨fun same => different (by rw [same]), present⟩
  · intro object listed dressed child field
    rw [Finset.mem_insert, not_or]
    obtain ⟨before, _⟩ := old _ ((others _).mp listed)
    refine ⟨?_, releasing.closed object before dressed child field⟩
    rintro rfl
    rcases (others _).mp listed with member | member
    · exact dressed ((swept object).mpr (Or.inr ((ringed object).mpr (Or.inr member))))
    · obtain ⟨strand, first, inside⟩ := List.mem_flatMap.mp member
      exact releasing.older _ (by rw [place]; exact List.mem_singleton_self _) strand first object
        inside child field List.mem_cons_self
  · intro object inside present free
    rw [Finset.mem_insert, not_or] at present
    have apart : ¬ Ringed layout object := by
      rw [ringed, not_or]
      exact ⟨present.1, free⟩
    simp only [Heap.free, Function.update_of_ne present.1]
    exact releasing.count object inside present.2 apart
  · intro object inside
    simp only [Heap.free, Function.update_apply]
    split
    · decide
    · exact releasing.bound object inside
  · intro strand member object inside
    have different : object ≠ p := by
      rintro rfl
      exact tended.listed.ring_apart here (List.mem_flatMap.mpr ⟨strand, member, inside⟩)
    simp only [Heap.free, Function.update_of_ne different]
    exact releasing.cycles strand member object inside
  · intro newer first strand member object inside child field within
    refine releasing.older _ (by rw [place]; exact List.mem_singleton_self _) strand member object
      inside child field (List.mem_cons_of_mem _ ?_)
    have all : .object child ∈ Strand.all (Strand.tails (some (ListNode.object cycle)) nodes) :=
      List.mem_flatMap.mpr ⟨newer, first, within⟩
    rw [Strand.all_tails] at all
    exact all
  · intro object
    rw [swept, ringed, Finset.mem_insert]
    tauto

theorem sweep_ring {cycle : ι} (nodes : List (ListNode ι)) : ∀ {p : ι} {heap : Heap ι}
    {layout : Layout ι} {gone : Finset ι},
    layout.current = [⟨.object p, nodes, some (.object cycle)⟩] → .object cycle ∉ nodes →
    (∀ object, object ∈ bare ↔ object ∈ gone ∨ Ringed layout object) →
    Releasing graph freed heap cycles layout gone bare bare [] (Ringed layout) →
    ∃ heap' layout', Relation.ReflTransGen (Quiet graph.fields)
        ⟨heap, cycles, none, .sweep cycle p⟩ ⟨heap', cycles, none, .cycles⟩ ∧
      layout'.current = [] ∧
      Releasing graph freed heap' cycles layout' bare bare bare [] fun _ => False := by
  induction nodes with
  | nil =>
    intro p heap layout gone place _ swept releasing
    obtain ⟨releasing', swept'⟩ := releasing.sweep place swept
    have step : heap.follow (.object p) = some cycle := by
      have linked := (releasing.threaded.perm layout.current_first)
      rw [place, List.singleton_append] at linked
      have next : heap.next (.object p) = some (.object cycle) := linked.first
      simp only [Heap.follow, next]
    have whole : insert p gone = bare := by
      ext object
      rw [swept']
      simp
    refine ⟨heap.free p, { layout with current := Strand.tails (some (.object cycle)) [] },
      .single ⟨(by simp), List.nodup_nil, ?_⟩, rfl, ?_⟩
    · simp [State.tick, step]
    · rw [whole] at releasing'
      refine { releasing' with count := ?_ }
      intro object inside present _
      exact releasing'.count object inside present List.not_mem_nil
  | cons node nodes ih =>
    intro p heap layout gone place apart swept releasing
    obtain ⟨releasing', swept'⟩ := releasing.sweep place swept
    obtain ⟨q, rfl⟩ := releasing.tended.listed.object_of_others
      (Layout.mem_others.mpr (Or.inl (by simp [place] : node ∈ _)))
    have different : q ≠ cycle := by
      rintro rfl
      exact apart List.mem_cons_self
    have step : heap.follow (.object p) = some q := by
      have linked := (releasing.threaded.perm layout.current_first)
      rw [place, List.singleton_append] at linked
      have next : heap.next (.object p) = some (.object q) := linked.first.1
      simp only [Heap.follow, next]
    have ring : (fun object => ListNode.object object ∈ ListNode.object q :: nodes) =
        Ringed { layout with
          current := Strand.tails (some (.object cycle)) (.object q :: nodes) } := by
      funext object
      simp [Ringed, Strand.tails]
    rw [ring] at releasing'
    obtain ⟨heap', layout', reached, empty, result⟩ := ih rfl
      (fun member => apart (List.mem_cons_of_mem _ member))
      (fun object => by rw [swept', ← ring]) releasing'
    refine ⟨heap', layout', .head ⟨(by simp), List.nodup_nil, ?_⟩ reached, empty, result⟩
    simp [State.tick, step, different]

theorem release_cycle {cycle : ι}
    (releasing : Releasing graph freed heap (cycle :: cycles) layout gone gone gone []
      fun _ => False) (empty : layout.current = []) :
    ∃ heap' layout' gone', Relation.ReflTransGen (Quiet graph.fields)
        ⟨heap, cycle :: cycles, none, .cycles⟩ ⟨heap', cycles, none, .cycles⟩ ∧
      layout'.current = [] ∧
      Releasing graph freed heap' cycles layout' gone' gone' gone' [] fun _ => False := by
  have rings := releasing.rings
  simp only [List.map_cons, List.map_eq_cons_iff] at rings
  obtain ⟨strand, strands, place, same, rest⟩ := rings
  obtain ⟨nodes, single⟩ : ∃ nodes, [strand] = [⟨.object cycle, nodes, some (.object cycle)⟩] :=
    eq_of_ends (by rw [List.map_singleton, same, loop])
  obtain rfl := List.singleton_inj.mp single
  have order := releasing.order
  rw [place, List.pairwise_cons] at order
  have members : ∀ node, node ∈ Strand.all ({ layout with
      current := [⟨.object cycle, nodes, some (.object cycle)⟩], cycles := strands } :
        Layout ι).others ↔ node ∈ Strand.all layout.others := by
    intro node
    rw [mem_lists layout releasing.clean, mem_lists _ (by exact releasing.clean), empty, place]
    simp only [Strand.all_cons, Strand.all_nil, List.append_nil, List.mem_append,
      List.not_mem_nil, false_or]
  have popped : Releasing graph freed heap cycles { layout with
      current := [⟨.object cycle, nodes, some (.object cycle)⟩], cycles := strands } gone gone
      gone [] fun _ => False :=
    { releasing with
      tended := tended_pop releasing.tended empty place
      rings := rest
      garbage := fun object lost => (releasing.garbage object lost).imp_right (members _).mpr
      inside := fun object listed => releasing.inside object ((members _).mp listed)
      closed := fun object listed => releasing.closed object ((members _).mp listed)
      cycles := fun other member =>
        releasing.cycles other (by rw [place]; exact List.mem_cons_of_mem _ member)
      order := order.2
      older := fun newer first => by
        rw [List.mem_singleton.mp first]
        exact order.1 }
  have popped' : Testing graph freed cycles gone [] heap { layout with
      current := [⟨.object cycle, nodes, some (.object cycle)⟩], cycles := strands } := by
    refine ⟨popped, fun other member => ?_⟩
    rw [List.mem_singleton.mp member]
    exact releasing.cycles _ (by rw [place]; exact List.mem_cons_self)
  obtain ⟨nodes₁, heap₁, layout₁, tested, place₁, releasing₁, _⟩ :=
    (testing_turns cycle).loop (fun _ _ _ held => held.1.threaded) rfl popped'
  have tested' : Reddening graph freed cycles gone [] heap₁ layout₁ := by
    refine ⟨{ releasing₁ with count := ?_ }, (by simp)⟩
    exact fun object inside present _ => releasing₁.count object inside present id
  obtain ⟨nodes₂, heap₂, layout₂, reddened, place₂, releasing₂, red⟩ :=
    (reddening_turns cycle).loop (fun _ _ _ held => held.1.threaded) place₁ tested'
  have reddened' : Dropping graph freed cycles gone [] heap₂ layout₂ := by
    have start : gone ∪ objects [] = gone := by
      ext object
      simp
    refine ⟨start.symm ▸ releasing₂, (by simp), fun object ringed => red object ?_⟩
    simpa [Ringed, place₂] using ringed
  obtain ⟨nodes₃, heap₃, layout₃, dropped, place₃, releasing₃, _, _⟩ :=
    (dropping_turns cycle).loop (fun _ _ _ held => held.1.threaded) place₂ reddened'
  have apart : .object cycle ∉ nodes₃ := by
    have threaded := releasing₃.threaded.perm layout₃.current_first
    rw [place₃, List.singleton_append] at threaded
    exact (List.nodup_cons.mp threaded.first_nodup).1
  obtain ⟨heap₄, layout₄, swept, empty', releasing₄⟩ := sweep_ring nodes₃ place₃ apart
    (fun object => by simp [Ringed, place₃]) releasing₃
  refine ⟨heap₄, layout₄, _, ?_, empty', releasing₄⟩
  exact .head ⟨(by simp), List.nodup_nil, rfl⟩ (((tested.trans reddened).trans dropped).trans swept)

theorem release_cycles (cycles : List ι) : ∀ {heap : Heap ι} {layout : Layout ι}
    {gone : Finset ι}, layout.current = [] →
    Releasing graph freed heap cycles layout gone gone gone [] (fun _ => False) →
    ∃ heap' layout', Relation.ReflTransGen (Quiet graph.fields) ⟨heap, cycles, none, .cycles⟩
        ⟨heap', [], none, .roots⟩ ∧
      Releasing graph freed heap' [] layout' graph.garbage graph.garbage graph.garbage []
        fun _ => False := by
  induction cycles with
  | nil =>
    intro heap layout gone empty releasing
    have none : layout.cycles = [] := List.map_eq_nil_iff.mp releasing.rings
    have whole : gone = graph.garbage := by
      refine Finset.Subset.antisymm releasing.lost fun object lost => ?_
      refine (releasing.garbage object lost).resolve_right ?_
      rw [mem_lists layout releasing.clean, empty, none]
      simp
    subst whole
    exact ⟨heap, layout, .head ⟨nofun, List.nodup_nil, rfl⟩
      (.single ⟨nofun, List.nodup_nil, rfl⟩), releasing⟩
  | cons cycle cycles ih =>
    intro heap layout gone empty releasing
    obtain ⟨heap', layout', gone', reached, empty', releasing'⟩ := release_cycle releasing empty
    obtain ⟨final, last, further, result⟩ := ih empty' releasing'
    exact ⟨final, last, reached.trans further, result⟩

end Loops

end Xemmai.Collector
