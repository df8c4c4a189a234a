import Xemmai.Candidates

/-!
# The cycles are gathered

The loop that collects takes each white root and what is white behind it to a
candidate cycle. No white object that it meets is still on a list, since the roots
that are left are not reachable from the ones before them.
-/

namespace Xemmai.Collector

set_option autoImplicit false

variable {ι : Type} [DecidableEq ι] {graph : References ι} {freed : List ι} {heap : Heap ι}
  {cycles : List ι} {garbage : Option ι} {layout : Layout ι}

omit [DecidableEq ι] in
theorem mem_lists (layout : Layout ι) (clean : layout.garbage = []) {node : ListNode ι} :
    node ∈ Strand.all layout.others ↔
      node ∈ Strand.all layout.current ∨ node ∈ Strand.all layout.cycles := by
  rw [Layout.mem_others, clean]
  simp

theorem Gathered.reaches (gathered : Gathered graph heap layout fun _ => False)
    {object target : ι} (inside : object ∈ graph.subgraph) (shade : heap.color object ≠ .white)
    (leads : References.Reaches graph.fields object target) :
    target ∈ graph.subgraph ∧ heap.color target ≠ .white := by
  induction leads with
  | refl => exact ⟨inside, shade⟩
  | @tail other target _ child ih =>
    have place := References.subgraph_closed other ih.1 target child
    refine ⟨place, ?_⟩
    by_cases lost : other ∈ graph.garbage
    · have listed : .object other ∈ Strand.all layout.others := by
        by_contra out
        exact ih.2 ((gathered.white other lost).mpr out)
      exact (gathered.closed other listed).resolve_left id target child
    · have kept : other ∈ graph.kept := by
        by_contra out
        exact lost (References.mem_garbage.mpr ⟨ih.1, out⟩)
      have survives : target ∉ graph.garbage := fun member =>
        (References.mem_garbage.mp member).2 (References.kept_closed other kept target child)
      rw [gathered.black target place survives]
      nofun

theorem Gathered.lost {ahead : ι → Prop} (gathered : Gathered graph heap layout ahead)
    {object : ι} (inside : object ∈ graph.subgraph) (white : heap.color object = .white) :
    object ∈ graph.garbage := by
  by_contra out
  rw [gathered.black object inside out] at white
  cases white

theorem Gathered.take {ahead ahead' : ι → Prop} (gathered : Gathered graph heap layout ahead)
    (clean : layout.garbage = []) (taken : ι → Prop) {heap' : Heap ι}
    {roots : List (ListNode ι)} {strand : Strand (ListNode ι)}
    (white : ∀ object, taken object → object ∈ graph.subgraph ∧ heap.color object = .white)
    (red : ∀ object, taken object → heap'.color object = .red)
    (still : ∀ object, ¬ taken object →
      heap'.color object = heap.color object ∧ heap'.cyclic object = heap.cyclic object)
    (members : ∀ object, .object object ∈ strand.members ↔
      taken object ∨ .object object ∈ Strand.all layout.current)
    (fewer : roots.Sublist layout.roots)
    (gone : ∀ root, .object root ∈ layout.roots → .object root ∈ roots ∨ taken root)
    (pushed : ∀ object, taken object → ahead' object)
    (later : ∀ object, ahead object →
      ahead' object ∨ ∀ child ∈ graph.fields object, heap'.color child ≠ .white)
    (apart : ∀ object, .object object ∈ Strand.all layout.cycles → ¬ ahead object) :
    Gathered graph heap' { layout with roots := roots, current := [strand] } ahead' := by
  have pale : ∀ object, heap'.color object = .white →
      ¬ taken object ∧ heap.color object = .white := by
    intro object shade
    by_cases chosen : taken object
    · rw [red object chosen] at shade
      cases shade
    · exact ⟨chosen, (still object chosen).1.symm.trans shade⟩
  have nodes : ∀ object, .object object ∈
      Strand.all ({ layout with roots := roots, current := [strand] } : Layout ι).others ↔
        taken object ∨ .object object ∈ Strand.all layout.others := by
    intro object
    rw [mem_lists layout clean, mem_lists { layout with roots := roots, current := [strand] } clean]
    simp only [Strand.all_cons, Strand.all_nil, List.append_nil, members, or_assoc]
  have old : ∀ object, .object object ∈ Strand.all layout.others → ¬ taken object := by
    intro object listed chosen
    exact (gathered.white object (gathered.garbage object listed)).mp (white object chosen).2 listed
  refine ⟨?_, gathered.apart.sublist fewer, ?_, ?_, ?_, ?_, ?_, ?_, gathered.order, ?_⟩
  · exact fun root member => gathered.inside root (fewer.subset member)
  · intro object listed
    rcases (nodes object).mp listed with chosen | listed
    · exact gathered.lost (white object chosen).1 (white object chosen).2
    · exact gathered.garbage object listed
  · intro object lost
    rw [nodes, not_or, ← gathered.white object lost]
    constructor
    · exact pale object
    · rintro ⟨chosen, shade⟩
      exact (still object chosen).1.trans shade
  · intro object place survives
    have dark := gathered.black object place survives
    have chosen : ¬ taken object := by
      intro chosen
      rw [(white object chosen).2] at dark
      cases dark
    exact (still object chosen).1.trans dark
  · intro object listed
    rcases (nodes object).mp listed with chosen | listed
    · exact Or.inl (pushed object chosen)
    · rcases gathered.closed object listed with waits | closed
      · exact later object waits
      · exact Or.inr fun child field shade => closed child field (pale child shade).2
  · intro object place shade
    obtain ⟨root, first, leads⟩ := gathered.source object place (pale object shade).2
    refine ⟨root, ?_, leads⟩
    simp only [Strand.all_cons, Strand.all_nil, List.append_nil, members]
    rcases first with first | first
    · exact (gone root first).imp_right Or.inl
    · exact Or.inr (Or.inr first)
  · intro strand' member object inside
    have listed : .object object ∈ Strand.all layout.others :=
      (mem_lists layout clean).mpr (Or.inr (List.mem_flatMap.mpr ⟨strand', member, inside⟩))
    obtain ⟨sameColor, sameCyclic⟩ := still object (old object listed)
    rw [sameColor, sameCyclic]
    exact gathered.cycles strand' member object inside
  · intro newer place strand' member object inside child field
    rw [List.mem_singleton.mp place, members]
    have within : .object object ∈ Strand.all layout.cycles :=
      List.mem_flatMap.mpr ⟨strand', member, inside⟩
    rintro (chosen | current)
    · have closed := (gathered.closed object ((mem_lists layout clean).mpr (Or.inr within))).resolve_left
        (apart object within)
      exact closed child field (white child chosen).2
    · obtain ⟨ring, first, node⟩ := List.mem_flatMap.mp current
      exact gathered.older ring first strand' member object inside child field node

/-- `while (roots->v_next != roots)`. -/
theorem exact_collect {control : Control ι} (listed : Listed heap layout)
    (counted : Counted graph freed heap)
    (gathered : Gathered graph heap layout fun _ => False) :
    Counted graph freed (State.collectMore ⟨heap, cycles, garbage, control⟩).heap ∧
      (State.collectMore ⟨heap, cycles, garbage, control⟩).control.Trial graph
        (State.collectMore ⟨heap, cycles, garbage, control⟩).heap layout := by
  have first := listed.linked.next_first
  unfold State.collectMore
  split
  · rename_i home
    refine ⟨counted.alike ⟨rfl, rfl, rfl, rfl, rfl⟩, ?_, gathered.inside, gathered.apart,
      gathered.garbage, gathered.white, gathered.black, gathered.closed, gathered.source,
      gathered.cycles, gathered.order, gathered.older⟩
    rw [home, Option.some.injEq] at first
    cases roots : layout.roots with
    | nil => rfl
    | cons node rest =>
      obtain ⟨p, rfl⟩ := listed.object_of_roots (by rw [roots]; simp : node ∈ layout.roots)
      rw [roots] at first
      cases first
  · exact ⟨counted, gathered⟩

theorem advances_collect
    (held : Exact graph freed ⟨heap, cycles, garbage, .collect⟩ layout) :
    Advances graph freed ⟨heap, cycles, garbage, .collect⟩ layout := by
  have gathered : Gathered graph heap layout fun _ => False := held.trial
  have clean : layout.garbage = [] := held.sound.clean rfl
  have empty : layout.current = [] := List.map_eq_nil_iff.mp held.sound.current
  obtain ⟨p, rest, place, white, other⟩ := turned_collect held.sound
  have inside : p ∈ graph.subgraph := gathered.inside p (by rw [place]; simp)
  have apart := gathered.apart
  rw [place, List.pairwise_cons] at apart
  by_cases shade : heap.color p = .white
  · obtain ⟨taken, turned⟩ := white shade
    have lost := gathered.lost inside shade
    have color : ∀ other, ((heap.setNext .roots (heap.next (.object p))).collectWhite p).color
        other = if other = p then .red else heap.color other := by
      intro other
      simp only [Heap.collectWhite, Heap.setPrevious, Heap.setNext, Heap.setCyclic, Heap.paint,
        Function.update_apply]
    have cyclic : ∀ other, ((heap.setNext .roots (heap.next (.object p))).collectWhite p).cyclic
        other = if other = p then heap.count p else heap.cyclic other := by
      intro other
      simp only [Heap.collectWhite, Heap.setPrevious, Heap.setNext, Heap.setCyclic, Heap.paint,
        Function.update_apply]
    refine ⟨_, _, taken, turned, turned.sound, held.counted.alike ⟨rfl, rfl, rfl, rfl, rfl⟩,
      List.nodup_singleton p, ?_, ?_, ?_, ?_⟩
    · refine gathered.take clean (· = p) ?_ ?_ ?_ ?_ ?_ ?_ ?_ (by simp) ?_
      · rintro object rfl
        exact ⟨inside, shade⟩
      · intro object same
        rw [color, if_pos same]
      · intro object different
        rw [color, cyclic, if_neg different, if_neg different]
        exact ⟨rfl, rfl⟩
      · intro object
        simp [empty]
      · rw [place]
        exact List.sublist_cons_self _ _
      · intro root member
        rw [place, List.mem_cons] at member
        rcases member with same | member
        · exact Or.inr (by simpa using same)
        · exact Or.inl member
      · intro object same
        exact List.mem_singleton.mpr same
      · exact fun _ _ none => none
    · intro other member
      rw [List.mem_singleton.mp member]
      simp
    · intro other member
      simp only [Strand.all_cons, Strand.all_nil, Strand.members_mk, List.append_nil,
        List.mem_singleton, ListNode.object.injEq] at member
      subst member
      refine ⟨by rw [color, if_pos rfl], ?_, .refl⟩
      rw [cyclic, if_pos rfl]
      exact held.counted.count _ (References.subgraph_live inside)
    · intro root member leads
      exact apart.1 (.object root) member leads
  · obtain ⟨state, taken, rfl, turned⟩ := other shade
    have place' : layout.roots = [] ++ .object p :: rest := place
    have listed := held.sound.listed.unroot place'
    have gathered' : Gathered graph ((heap.setNext .roots (heap.next (.object p))).setNext
        (.object p) none) { layout with roots := rest } fun _ => False := by
      refine ⟨?_, apart.2, gathered.garbage, gathered.white, gathered.black, gathered.closed, ?_,
        gathered.cycles, gathered.order, gathered.older⟩
      · intro root member
        exact gathered.inside root (by rw [place]; exact List.mem_cons_of_mem _ member)
      · intro object member pale
        obtain ⟨root, first, leads⟩ := gathered.source object member pale
        refine ⟨root, ?_, leads⟩
        rw [place, List.mem_cons] at first
        rcases first with (same | first) | first
        · cases same
          exact absurd pale (gathered.reaches inside shade leads).2
        · exact Or.inl first
        · exact Or.inr first
    exact advances_of taken turned
      (exact_collect listed (held.counted.alike ⟨rfl, rfl, rfl, rfl, rfl⟩) gathered')

theorem advances_collectWhite {cycle object : ι} {stack : List ι}
    (held : Exact graph freed
      ⟨heap, cycles, garbage, .traverse (.collectWhite cycle) object stack⟩ layout) :
    Advances graph freed ⟨heap, cycles, garbage, .traverse (.collectWhite cycle) object stack⟩
      layout := by
  obtain ⟨nodup, gathered, pending, ring, away⟩ := held.trial
  have clean : layout.garbage = [] := held.sound.clean rfl
  have current := pending object List.mem_cons_self
  have lost : object ∈ graph.garbage :=
    gathered.garbage object ((mem_lists layout clean).mpr (Or.inl current))
  have inside : object ∈ graph.subgraph := (References.mem_garbage.mp lost).1
  have fields : ∀ child ∈ graph.fields object, child ∈ graph.subgraph :=
    References.subgraph_closed object inside
  have reported := live_fields held.counted (References.subgraph_live inside)
  have reaches : ∀ child ∈ graph.fields object,
      References.Reaches graph.fields cycle child :=
    fun child field => (ring object current).2.2.tail field
  -- A white object that is still linked would be a later root, which the cycle does not reach.
  have meets : ∀ child ∈ graph.fields object, heap.color child = .white →
      heap.next (.object child) = none := by
    intro child field white
    have unlisted := (gathered.white child (gathered.lost (fields child field) white)).mp white
    have live := reported child field
    rw [Heap.live, Bool.and_eq_true] at live
    refine held.sound.listed.unlisted child ?_ live.1
    rw [Layout.mem_strands]
    rintro (same | member | member)
    · cases same
    · exact away child member (reaches child field)
    · exact unlisted member
  obtain ⟨nodes, pushed, state, place, found, taken, turned⟩ :=
    turned_gather held.sound reported meets
  obtain ⟨pushed', next, previous, result, ⟨fresh, members⟩, _⟩ := foldl_collectWhitePush
    (graph.fields object) ⟨heap, stack⟩ held.sound.listed place held.sound.closed clean reported
    meets
  rw [result] at found
  obtain rfl : pushed' = pushed := List.append_cancel_right found
  have guard : heap.typed object = true ∧ (graph.fields object).all heap.live = true :=
    ⟨held.sound.stands.1 object List.mem_cons_self, List.all_eq_true.mpr reported⟩
  have visited := taken
  unfold State.visit at visited
  rw [if_pos guard] at visited
  simp only [Pass.step, result] at visited
  simp only at members
  generalize after : ({ heap with
    next := next
    previous := previous
    color := fun other => if other ∈ graph.fields object ∧ heap.color other = .white then .red
      else heap.color other
    cyclic := fun other => if other ∈ graph.fields object ∧ heap.color other = .white
      then heap.count other else heap.cyclic other } : Heap ι) = heap' at visited
  have chosen : ∀ other ∈ pushed', heap'.color other = .red ∧
      heap'.cyclic other = graph.count other := by
    intro other member
    have both := (members other).mp member
    rw [← after]
    simp only [both, and_self, if_true, true_and]
    exact held.counted.count other (References.subgraph_live (fields other both.1))
  have still : ∀ other, other ∉ pushed' →
      heap'.color other = heap.color other ∧ heap'.cyclic other = heap.cyclic other := by
    intro other out
    rw [members] at out
    rw [← after]
    simp only [if_neg out, and_self]
  have alike : heap.Alike heap' := by
    rw [← after]
    exact ⟨rfl, rfl, rfl, rfl, rfl⟩
  have ring' : ∀ other, .object other ∈ (⟨.object cycle, pushed'.map .object ++ nodes,
      some (.object cycle)⟩ : Strand (ListNode ι)).members ↔
        other ∈ pushed' ∨ .object other ∈ Strand.all layout.current := by
    intro other
    simp only [place, Strand.all_cons, Strand.all_nil, Strand.members_mk, List.append_nil,
      List.mem_cons, List.mem_append, List.mem_map, ListNode.object.injEq, exists_eq_right]
    tauto
  have known : ∀ other, .object other ∈ Strand.all
      [(⟨.object cycle, pushed'.map .object ++ nodes, some (.object cycle)⟩ :
        Strand (ListNode ι))] → heap'.color other = .red ∧
          heap'.cyclic other = graph.count other ∧
          References.Reaches graph.fields cycle other := by
    intro other member
    simp only [Strand.all_cons, Strand.all_nil, List.append_nil, ring'] at member
    by_cases new : other ∈ pushed'
    · exact ⟨(chosen other new).1, (chosen other new).2,
        reaches other ((members other).mp new).1⟩
    · obtain ⟨red, counts, leads⟩ := ring other (member.resolve_left new)
      exact ⟨(still other new).1.trans red, (still other new).2.trans counts, leads⟩
  have take : ∀ ahead : ι → Prop, (∀ other ∈ pushed', ahead other) →
      (∀ other ∈ stack, ahead other) → Gathered graph heap' { layout with current :=
        [⟨.object cycle, pushed'.map .object ++ nodes, some (.object cycle)⟩] } ahead := by
    intro ahead first second
    refine gathered.take clean (· ∈ pushed') ?_ (fun other member =>
      (chosen other member).1) still ring' (List.Sublist.refl _) (fun _ => Or.inl) first ?_ ?_
    · intro other member
      have both := (members other).mp member
      exact ⟨fields other both.1, both.2⟩
    · intro other waits
      rcases List.mem_cons.mp waits with rfl | waits
      · refine Or.inr fun child field white => ?_
        by_cases new : child ∈ pushed'
        · rw [(chosen child new).1] at white
          cases white
        · exact new ((members child).mpr ⟨field, (still child new).1.symm.trans white⟩)
      · exact Or.inl (second other waits)
    · intro other member waits
      have red := (ring other (pending other waits)).1
      obtain ⟨strand, first, node⟩ := List.mem_flatMap.mp member
      rw [(gathered.cycles strand first other node).1] at red
      cases red
  refine advances_of taken turned ?_
  cases rest : pushed' ++ stack with
  | nil =>
    rw [rest] at visited
    obtain ⟨rfl, rfl⟩ := List.append_eq_nil_iff.mp rest
    obtain rfl := Option.some.inj visited
    refine ⟨held.counted.alike alike, take _ (by simp) (by simp), _, [], rfl,
      ⟨_, (List.append_nil _).symm, rfl⟩, ?_⟩
    intro other member
    obtain ⟨red, counts, _⟩ := known other member
    refine ⟨red, ?_⟩
    rw [counts]
    exact Nat.add_zero _
  | cons first left =>
    rw [rest] at visited
    obtain rfl := Option.some.inj visited
    have whole : ∀ other, other ∈ first :: left ↔ other ∈ pushed' ∨ other ∈ stack := by
      intro other
      rw [← rest, List.mem_append]
    refine ⟨held.counted.alike alike, ?_, take _ ?_ ?_, ?_, known, away⟩
    · rw [← rest]
      refine List.nodup_append.mpr ⟨fresh, (List.nodup_cons.mp nodup).2, ?_⟩
      rintro other new _ old rfl
      have red := (ring other (pending other (List.mem_cons_of_mem _ old))).1
      rw [((members other).mp new).2] at red
      cases red
    · exact fun other member => (whole other).mpr (Or.inl member)
    · exact fun other member => (whole other).mpr (Or.inr member)
    · intro other member
      simp only [Strand.all_cons, Strand.all_nil, List.append_nil, ring']
      exact ((whole other).mp member).imp_right
        fun old => pending other (List.mem_cons_of_mem _ old)

/-- The cyclic count of a red object goes down once for each reference to it. -/
theorem foldl_scanRed_cyclic {object : ι} (report : List ι) (heap : Heap ι)
    (bound : heap.cyclic object < 2 ^ 64) :
    (report.foldl Heap.scanRed heap).cyclic object =
      if heap.color object = .red then heap.cyclic object - report.count object
      else heap.cyclic object := by
  induction report generalizing heap with
  | nil => simp
  | cons head report ih =>
    have color : (heap.scanRed head).color = heap.color := by
      unfold Heap.scanRed
      split <;> rfl
    have step : (heap.scanRed head).cyclic object =
        if heap.color object = .red ∧ head = object then heap.cyclic object - 1
        else heap.cyclic object := by
      unfold Heap.scanRed
      by_cases same : head = object
      · subst same
        split
        · rename_i chosen
          simp only [Heap.setCyclic, Function.update_self, chosen.1, and_self, if_true, Word.down]
          omega
        · rename_i still
          split
          · rename_i red
            have zero : heap.cyclic head = 0 := by
              by_contra some'
              exact still ⟨red.1, Nat.pos_of_ne_zero some'⟩
            rw [zero]
          · rfl
      · have other : object ≠ head := fun equal => same equal.symm
        have none : ¬ (heap.color object = .red ∧ head = object) := fun both => same both.2
        rw [if_neg none]
        split
        · exact Function.update_of_ne other _ _
        · rfl
    have less : (heap.scanRed head).cyclic object ≤ heap.cyclic object := by
      rw [step]
      split <;> omega
    rw [List.foldl_cons, ih _ (Nat.lt_of_le_of_lt less bound), color, step, List.count_cons]
    by_cases red : heap.color object = .red
    · by_cases same : head = object
      · simp only [red, same, and_self, if_true, beq_self_eq_true]
        omega
      · simp [red, same]
    · simp [red]

theorem objects_seen (seen : List (ListNode ι)) (p : ι) :
    objects (seen ++ [.object p]) = insert p (objects seen) := by
  ext object
  simp only [mem_objects, List.mem_append, List.mem_singleton, ListNode.object.injEq,
    Finset.mem_insert]
  exact Or.comm

theorem objects_congr {nodes nodes' : List (ListNode ι)}
    (same : ∀ node, node ∈ nodes ↔ node ∈ nodes') : objects nodes = objects nodes' := by
  ext object
  simp only [mem_objects, same]

omit [DecidableEq ι] in
theorem ring_nodes {p q : ι} {nodes rest : List (ListNode ι)}
    (turned : nodes ++ [ListNode.object p] = .object q :: rest) (node : ListNode ι) :
    node ∈ Strand.all [(⟨.object q, rest, some (.object q)⟩ : Strand (ListNode ι))] ↔
      node ∈ Strand.all [(⟨.object p, nodes, some (.object p)⟩ : Strand (ListNode ι))] := by
  simp only [Strand.all_cons, Strand.all_nil, Strand.members_mk, List.append_nil, ← turned]
  exact (List.perm_append_singleton _ _).mem_iff

/-- The ring turns, and nothing becomes white or stops being so. -/
theorem Gathered.turn {heap' : Heap ι} {p q : ι} {nodes rest : List (ListNode ι)}
    (gathered : Gathered graph heap layout fun _ => False) (clean : layout.garbage = [])
    (place : layout.current = [⟨.object p, nodes, some (.object p)⟩])
    (turned : nodes ++ [ListNode.object p] = .object q :: rest)
    (still : ∀ object, .object object ∉ Strand.all layout.current →
      heap'.color object = heap.color object)
    (counts : ∀ object, .object object ∈ Strand.all layout.cycles →
      heap'.cyclic object = heap.cyclic object)
    (dark : ∀ object, .object object ∈ Strand.all layout.current →
      heap'.color object ≠ .white) (listed : Listed heap layout) :
    Gathered graph heap' { layout with current := [⟨.object q, rest, some (.object q)⟩] }
      fun _ => False := by
  have nodes' : ∀ node, node ∈ Strand.all
      ({ layout with current := [⟨.object q, rest, some (.object q)⟩] } : Layout ι).others ↔
        node ∈ Strand.all layout.others := by
    intro node
    rw [mem_lists layout clean, mem_lists { layout with current := [_] } clean, place]
    exact or_congr_left (ring_nodes turned node)
  have pale : ∀ object, heap'.color object = .white → heap.color object = .white := by
    intro object white
    by_cases ring : .object object ∈ Strand.all layout.current
    · exact absurd white (dark object ring)
    · exact (still object ring).symm.trans white
  have apart : ∀ object, .object object ∈ Strand.all layout.cycles →
      .object object ∉ Strand.all layout.current :=
    fun _ cycle ring => listed.ring_apart ring cycle
  refine ⟨gathered.inside, gathered.apart, ?_, ?_, ?_, ?_, ?_, ?_, gathered.order, ?_⟩
  · exact fun object listed => gathered.garbage object ((nodes' _).mp listed)
  · intro object lost
    rw [nodes', ← gathered.white object lost]
    refine ⟨pale object, fun white => ?_⟩
    have out : .object object ∉ Strand.all layout.current := fun ring =>
      (gathered.white object lost).mp white ((mem_lists layout clean).mpr (Or.inl ring))
    exact (still object out).trans white
  · intro object place survives
    have out : .object object ∉ Strand.all layout.current := fun ring =>
      survives (gathered.garbage object ((mem_lists layout clean).mpr (Or.inl ring)))
    exact (still object out).trans (gathered.black object place survives)
  · intro object listed
    have closed := (gathered.closed object ((nodes' _).mp listed)).resolve_left id
    exact Or.inr fun child field white => closed child field (pale child white)
  · intro object inside white
    obtain ⟨root, first, leads⟩ := gathered.source object inside (pale object white)
    refine ⟨root, first.imp_right fun ring => ?_, leads⟩
    rw [place] at ring
    exact (ring_nodes turned _).mpr ring
  · intro strand member object inside
    have listed := List.mem_flatMap.mpr ⟨strand, member, inside⟩
    rw [still object (apart object listed), counts object listed]
    exact gathered.cycles strand member object inside
  · intro newer first strand member object inside child field
    have older := gathered.older _ (by rw [place]; exact List.mem_singleton_self _) strand member
      object inside child field
    rw [List.mem_singleton.mp first]
    have same := ring_nodes turned (.object child)
    simp only [Strand.all_cons, Strand.all_nil, List.append_nil] at same
    rw [same]
    exact older

theorem advances_scanRed {cycle p : ι}
    (held : Exact graph freed ⟨heap, cycles, garbage, .round .scanRed cycle p⟩ layout) :
    Advances graph freed ⟨heap, cycles, garbage, .round .scanRed cycle p⟩ layout := by
  obtain ⟨gathered, nodes, seen, place, around, ring⟩ := held.trial
  have clean : layout.garbage = [] := held.sound.clean rfl
  have current : .object p ∈ Strand.all layout.current := by simp [place]
  have lost : ∀ object, .object object ∈ Strand.all layout.current → object ∈ graph.garbage :=
    fun object member => gathered.garbage object ((mem_lists layout clean).mpr (Or.inl member))
  have live : ∀ object, .object object ∈ Strand.all layout.current → object ∈ graph.live :=
    fun object member => References.garbage_live (lost object member)
  obtain ⟨nodes', q, rest, state, place', turned', taken, same, turned⟩ :=
    turned_scanRed held.sound (live_fields held.counted (live p current))
  rw [place, List.singleton_inj, Strand.mk.injEq] at place'
  obtain ⟨_, rfl, _⟩ := place'
  have nodup : (ListNode.object p :: nodes).Nodup := by
    have threaded := held.sound.listed.threaded.perm layout.current_first
    rw [place, List.singleton_append] at threaded
    exact threaded.first_nodup
  obtain ⟨last, next⟩ := around.turn nodup turned'
  obtain ⟨cyclic, form⟩ := foldl_scanRed (graph.fields p) heap
  have alike : heap.Alike ((graph.fields p).foldl Heap.scanRed heap) := by
    rw [form]
    exact ⟨rfl, rfl, rfl, rfl, rfl⟩
  have color : ((graph.fields p).foldl Heap.scanRed heap).color = heap.color := by rw [form]
  have bound : ∀ object ∈ graph.live, ∀ cyclic rest, cyclic + rest = graph.count object →
      cyclic < 2 ^ 64 := by
    intro object inside cyclic rest sum
    have bound := held.counted.bound object inside
    omega
  have gathered' : Gathered graph ((graph.fields p).foldl Heap.scanRed heap)
      { layout with current := [⟨.object q, rest, some (.object q)⟩] } fun _ => False := by
    refine gathered.turn clean place turned' (fun object _ => by rw [color]) ?_ ?_
      held.sound.listed
    · intro object listed
      obtain ⟨strand, member, inside⟩ := List.mem_flatMap.mp listed
      obtain ⟨orange, sum⟩ := gathered.cycles strand member object inside
      have place := References.garbage_live
        (gathered.garbage object ((mem_lists layout clean).mpr (Or.inr listed)))
      rw [foldl_scanRed_cyclic _ _ (bound object place _ _ sum), orange, if_neg (by simp)]
    · intro object member
      rw [color, (ring object member).1]
      simp
  have fresh : p ∉ objects seen := by
    obtain ⟨todo, rfl, _⟩ := around
    rw [mem_objects]
    exact fun member => (List.nodup_cons.mp nodup).1 (List.mem_append_right _ member)
  have exact' : ∀ object, .object object ∈ Strand.all layout.current →
      ((graph.fields p).foldl Heap.scanRed heap).color object = .red ∧
        ((graph.fields p).foldl Heap.scanRed heap).cyclic object +
          References.refs graph.fields (objects (seen ++ [.object p])) object =
            graph.count object := by
    intro object member
    obtain ⟨red, sum⟩ := ring object member
    have place := live object member
    rw [color, foldl_scanRed_cyclic _ _ (bound object place _ _ sum), if_pos red, objects_seen,
      References.refs_insert fresh]
    have within : insert p (objects seen) ⊆ graph.live := by
      intro other inside
      rcases Finset.mem_insert.mp inside with rfl | inside
      · exact live other current
      · apply live
        obtain ⟨todo, rfl, _⟩ := around
        rw [mem_objects] at inside
        simp [‹layout.current = _›, inside]
    have most := References.refs_mono graph.fields object within
    rw [References.refs_insert fresh] at most
    have total : References.refs graph.fields graph.live object ≤ graph.count object :=
      Nat.le_add_right _ _
    exact ⟨red, by omega⟩
  refine advances_of taken turned ?_
  subst same
  refine ⟨held.counted.alike alike, ?_⟩
  by_cases end' : q = cycle
  · simp only [if_pos end']
    subst end'
    refine ⟨gathered', rest, [], rfl, ⟨rest, (List.append_nil _).symm, rfl⟩, (by simp), ?_⟩
    intro object member
    have whole : objects (Strand.all
        [(⟨.object q, rest, some (.object q)⟩ : Strand (ListNode ι))]) =
          objects (seen ++ [.object p]) := by
      rw [← last rfl]
      simp
    rw [whole]
    rw [ring_nodes turned', ← place] at member
    exact (exact' object member).2
  · simp only [if_neg end']
    refine ⟨gathered', rest, _, rfl, next end', ?_⟩
    intro object member
    rw [ring_nodes turned', ← place] at member
    exact exact' object member

theorem advances_orange {cycle p : ι}
    (held : Exact graph freed ⟨heap, cycles, garbage, .round .orange cycle p⟩ layout) :
    Advances graph freed ⟨heap, cycles, garbage, .round .orange cycle p⟩ layout := by
  obtain ⟨gathered, nodes, seen, place, around, painted, ring⟩ := held.trial
  have clean : layout.garbage = [] := held.sound.clean rfl
  obtain ⟨nodes', q, rest, state, place', turned', taken, more, final⟩ :=
    turned_orange [] held.sound
  rw [place, List.singleton_inj, Strand.mk.injEq] at place'
  obtain ⟨_, rfl, _⟩ := place'
  have nodup : (ListNode.object p :: nodes).Nodup := by
    have threaded := held.sound.listed.threaded.perm layout.current_first
    rw [place, List.singleton_append] at threaded
    exact threaded.first_nodup
  obtain ⟨last, next⟩ := around.turn nodup turned'
  have color : ∀ object, (heap.paint p .orange).color object =
      if object = p then .orange else heap.color object := by
    intro object
    simp only [Heap.paint, Function.update_apply]
  have current : .object p ∈ Strand.all layout.current := by simp [place]
  have gathered' : Gathered graph (heap.paint p .orange)
      { layout with current := [⟨.object q, rest, some (.object q)⟩] } fun _ => False := by
    refine gathered.turn clean place turned' ?_ (fun _ _ => rfl) ?_ held.sound.listed
    · intro object out
      rw [color, if_neg]
      rintro rfl
      exact out current
    · intro object member
      rw [color]
      split
      · simp
      · have listed := (mem_lists layout clean).mpr (Or.inl member)
        exact fun white => (gathered.white object (gathered.garbage object listed)).mp white listed
  have painted' : ∀ object, .object object ∈ seen ++ [ListNode.object p] →
      (heap.paint p .orange).color object = .orange := by
    intro object member
    rw [color]
    split
    · rfl
    · rename_i other
      simp only [List.mem_append, List.mem_singleton, ListNode.object.injEq, other,
        or_false] at member
      exact painted object member
  have whole : ∀ node, node ∈ Strand.all
      [(⟨.object q, rest, some (.object q)⟩ : Strand (ListNode ι))] ↔
        node ∈ Strand.all layout.current := by
    intro node
    rw [ring_nodes turned', place]
  by_cases end' : q = cycle
  · obtain ⟨rfl, listed, turned⟩ := final end'
    refine advances_of taken turned
      (exact_collect listed (held.counted.alike ⟨rfl, rfl, rfl, rfl, rfl⟩) ?_)
    have nodes : ∀ node, node ∈ Strand.all ({ layout with
        current := []
        cycles := ⟨.object q, rest, some (.object q)⟩ :: layout.cycles } : Layout ι).others ↔
          node ∈ Strand.all ({ layout with current :=
            [⟨.object q, rest, some (.object q)⟩] } : Layout ι).others := by
      intro node
      simp only [Layout.mem_others, clean, Strand.all_cons, Strand.all_nil, List.append_nil,
        List.mem_append, List.not_mem_nil]
      tauto
    refine ⟨gathered'.inside, gathered'.apart, ?_, ?_, gathered'.black, ?_, ?_, ?_, ?_, (by simp)⟩
    · exact fun object member => gathered'.garbage object ((nodes _).mp member)
    · intro object lost
      rw [nodes]
      exact gathered'.white object lost
    · exact fun object member => gathered'.closed object ((nodes _).mp member)
    · intro object inside white
      obtain ⟨root, first | first, leads⟩ := gathered'.source object inside white
      · exact ⟨root, Or.inl first, leads⟩
      · have place := Layout.mem_others.mpr (Or.inl first)
        have lost := gathered'.garbage root place
        have dark : (heap.paint p .orange).color root ≠ .white :=
          fun pale => (gathered'.white root lost).mp pale place
        exact absurd white
          (gathered'.reaches (References.mem_garbage.mp lost).1 dark leads).2
    · intro strand member
      rcases List.mem_cons.mp member with rfl | member
      · intro object inside
        simp only [Strand.members_mk] at inside ⊢
        have place : .object object ∈ Strand.all layout.current := by
          rw [← whole]
          simpa using inside
        refine ⟨painted' object (last end' ▸ inside), ?_⟩
        have same : objects (.object q :: rest) = objects (Strand.all layout.current) := by
          apply objects_congr
          intro node
          rw [← whole]
          simp
        rw [same]
        exact ring object place
      · exact gathered'.cycles strand member
    · refine List.pairwise_cons.mpr ⟨?_, gathered'.order⟩
      exact gathered'.older _ (List.mem_singleton_self _)
  · obtain ⟨rfl, turned⟩ := more end'
    refine advances_of taken turned ⟨held.counted.alike ⟨rfl, rfl, rfl, rfl, rfl⟩, gathered', rest,
      _, rfl, next end', painted', ?_⟩
    intro object member
    rw [objects_congr whole]
    exact ring object ((whole _).mp member)

end Xemmai.Collector
