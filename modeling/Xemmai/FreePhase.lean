import Xemmai.Sound

/-!
# The lists in the free phase

Each turn of the loops that test, refurbish and free the candidate cycles, and
of the one that releases the garbage, keeps what holds of the lists.
-/

namespace Xemmai.Collector

set_option autoImplicit false

variable {ι : Type} [DecidableEq ι] {heap : Heap ι} {cycles : List ι} {garbage : Option ι}
  {layout : Layout ι} {after : State ι}

theorem release_layout {object : ι} {stack : List ι} {back : Back ι} {report : List ι}
    (sound : Sound ⟨heap, cycles, garbage, .release object stack back⟩ layout)
    (taken : State.tick ⟨heap, cycles, garbage, .release object stack back⟩ report =
      some after) : ∃ roots, Sound after { layout with roots := roots } := by
  simp only [State.tick, Option.bind_eq_bind, Option.bind_eq_some_iff] at taken
  obtain ⟨_, _, walk, walked, taken⟩ := taken
  obtain ⟨roots, tended, stacked⟩ :=
    decrementAll_tended walked (sound.tended rfl) sound.stands
  obtain ⟨roots, kept, rest⟩ := release_tended tended stacked
  refine ⟨roots, ?_⟩
  have clean := sound.clean
  have current := sound.current
  cases pending : walk.stack with
  | nil =>
    simp only [pending, Option.some.injEq] at taken
    subst taken
    cases back with
    | epoch => exact kept.sound current sound.garbage sound.cycles clean trivial
    | dropping cycle p children =>
      exact kept.sound current sound.garbage sound.cycles clean trivial
    | garbage => exact kept.sound current sound.garbage sound.cycles clean trivial
  | cons object stack =>
    simp only [pending, Option.some.injEq] at taken
    subst taken
    rw [pending] at rest
    cases back with
    | epoch => exact kept.sound current sound.garbage sound.cycles clean rest
    | dropping cycle p children =>
      exact kept.sound current sound.garbage sound.cycles clean rest
    | garbage => exact kept.sound current sound.garbage sound.cycles clean rest

theorem sound_release {object : ι} {stack : List ι} {back : Back ι} {report : List ι}
    (sound : Sound ⟨heap, cycles, garbage, .release object stack back⟩ layout)
    (taken : State.tick ⟨heap, cycles, garbage, .release object stack back⟩ report =
      some after) : ∃ layout', Sound after layout' := by
  obtain ⟨roots, kept⟩ := release_layout sound taken
  exact ⟨_, kept⟩

omit [DecidableEq ι] in
theorem tended_pop (tended : Tended heap layout) (none : layout.current = [])
    {strand : Strand (ListNode ι)} {strands : List (Strand (ListNode ι))}
    (place : layout.cycles = strand :: strands) :
    Tended heap { layout with current := [strand], cycles := strands } := by
  have order : layout.strands.Perm
      { layout with current := [strand], cycles := strands }.strands := by
    simp only [Layout.strands, Layout.others, none, place, List.nil_append]
    exact List.perm_middle.cons _
  refine ⟨tended.listed.reorder (tended.listed.threaded.perm order) rfl ?_, tended.doubly,
    tended.spent, ?_⟩
  · intro node
    simp only [Layout.mem_others, none, place]
    simp only [Strand.all_cons, Strand.all_nil, List.append_nil, List.mem_append,
      List.not_mem_nil]
    tauto
  · intro other member
    apply tended.closed
    rw [none, place]
    exact member

/-- `v_cycles` is popped. -/
theorem sound_cycles {report : List ι}
    (sound : Sound ⟨heap, cycles, garbage, .cycles⟩ layout)
    (taken : State.tick ⟨heap, cycles, garbage, .cycles⟩ report = some after) :
    ∃ layout', Sound after layout' := by
  simp only [State.tick] at taken
  have tended := sound.tended rfl
  have none : layout.current = [] := List.map_eq_nil_iff.mp sound.current
  cases cycles with
  | nil =>
    simp only [Option.some.injEq] at taken
    subst taken
    exact ⟨layout, tended.sound sound.current sound.garbage sound.cycles sound.clean trivial⟩
  | cons cycle cycles =>
    simp only [Option.some.injEq] at taken
    subst taken
    have rings := sound.cycles
    simp only [List.map_cons, List.map_eq_cons_iff] at rings
    obtain ⟨strand, strands, place, same, rest⟩ := rings
    obtain ⟨nodes, single⟩ : ∃ nodes, [strand] = [⟨.object cycle, nodes, some (.object cycle)⟩] :=
      eq_of_ends (by rw [List.map_singleton, same, loop])
    refine ⟨_, (tended_pop tended none place).sound ?_ sound.garbage rest (by rintro ⟨⟩) ?_⟩
    · simp [Control.ends, same]
    · intro nodes' place
      rw [single, List.singleton_inj, Strand.mk.injEq] at place
      obtain ⟨_, rfl, _⟩ := place
      exact ⟨nodes, [], rfl, (by simp)⟩

theorem sound_decide {control : Control ι} {cycle : ι} {nodes : List (ListNode ι)}
    (failed : Bool) (tended : Tended heap layout)
    (place : layout.current = [⟨.object cycle, nodes, some (.object cycle)⟩])
    (typed : ∀ other, .object other ∈ Strand.all layout.current → heap.typed other = true)
    (scraps : layout.garbage.map ends =
      garbage.toList.map fun object => (.object object, none))
    (rings : layout.cycles.map ends = cycles.map loop) :
    Sound (State.decide ⟨heap, cycles, garbage, control⟩ cycle failed) layout := by
  have apart : .object cycle ∉ nodes := by
    have threaded := tended.listed.threaded.perm layout.current_first
    rw [place, List.singleton_append] at threaded
    exact (List.nodup_cons.mp threaded.first_nodup).1
  unfold State.decide
  cases failed with
  | true =>
    have painted : Tended (if heap.color cycle = .orange then heap.paint cycle .purple
        else heap) layout := by
      split
      · exact tended.congr rfl rfl rfl (fun _ _ => rfl) (fun _ _ => rfl)
      · exact tended
    refine painted.sound ?_ scraps rings nofun ⟨?_, ?_⟩
    · rw [place]
      rfl
    · intro strand member
      rw [place, List.mem_singleton] at member
      rw [member]
      exact apart
    · intro other member
      have same : (if heap.color cycle = .orange then heap.paint cycle .purple
          else heap).typed = heap.typed := by
        split <;> rfl
      rw [same]
      exact typed other member
  | false =>
    refine tended.sound ?_ scraps rings nofun trivial
    rw [place]
    rfl

theorem freed_spent {object : ι} (tended : Tended heap layout)
    (member : .object object ∈ Strand.all layout.current) {heap' : Heap ι}
    (same : heap'.count = heap.count) (other : ι)
    (inside : .object other ∈ Strand.all layout.garbage) :
    (heap'.free object).count other = 0 := by
  have different : other ≠ object := by
    rintro rfl
    exact tended.listed.current_apart member inside
  simp only [Heap.free, Function.update_of_ne different, same]
  exact tended.spent other inside

/-- What a turn of the test makes of the state and of the cycle, where `unseen` is before the
head of the cycle and `seen` behind it. -/
inductive Tested (heap : Heap ι) (cycles : List ι) (garbage : Option ι) (cycle p : ι)
    (failed : Bool) (layout : Layout ι) : List (ListNode ι) → List (ListNode ι) → State ι →
      Layout ι → Prop
  | pass {q : ι} {unseen seen rest : List (ListNode ι)} (typed : heap.typed q = true)
      (around : rest ++ [.object q] = unseen ++ .object cycle :: (seen ++ [.object q])) :
      Tested _ _ _ _ _ _ _ (.object q :: unseen) seen
        ⟨heap.settle q, cycles, garbage, .testing cycle q
          (failed || heap.color q ≠ .orange || heap.cyclic q > 0 || heap.reviving q)⟩
        { layout with current := [⟨.object q, rest, some (.object q)⟩] }
  | skip {q : ι} {unseen seen nodes : List (ListNode ι)} (untyped : heap.typed q = false)
      (around : nodes ++ [.object p] = unseen ++ .object cycle :: seen) :
      Tested _ _ _ _ _ _ _ (.object q :: unseen) seen
        ⟨(heap.setNext (.object p) (heap.next (.object q))).free q, cycles, garbage,
          .testing cycle p failed⟩
        { layout with current := [⟨.object p, nodes, some (.object p)⟩] }
  | head {seen : List (ListNode ι)} (typed : heap.typed cycle = true) :
      Tested _ _ _ _ _ _ _ [] seen
        (State.decide ⟨heap.settle cycle, cycles, garbage, .testing cycle p failed⟩ cycle
          (failed || heap.color cycle ≠ .orange || heap.cyclic cycle > 0 || heap.reviving cycle))
        { layout with current := [⟨.object cycle, seen, some (.object cycle)⟩] }
  | headless {seen nodes : List (ListNode ι)} (untyped : heap.typed cycle = false)
      (around : nodes ++ [.object p] = seen) :
      Tested _ _ _ _ _ _ _ [] seen
        (State.decide ⟨(heap.setNext (.object p) (heap.next (.object cycle))).free cycle, cycles,
          garbage, .testing cycle p failed⟩ p failed)
        { layout with current := [⟨.object p, nodes, some (.object p)⟩] }
  | empty (untyped : heap.typed cycle = false) :
      Tested _ _ _ _ _ _ _ [] []
        ⟨(heap.setNext (.object p) (heap.next (.object cycle))).free cycle, cycles, garbage,
          .cycles⟩
        { layout with current := [] }

theorem test_layout {cycle p : ι} {failed : Bool} {nodes unseen seen : List (ListNode ι)}
    (sound : Sound ⟨heap, cycles, garbage, .testing cycle p failed⟩ layout)
    (place : layout.current = [⟨.object p, nodes, some (.object p)⟩])
    (split' : nodes ++ [.object p] = unseen ++ .object cycle :: seen)
    (typed : ∀ other, .object other ∈ seen → heap.typed other = true)
    (taken : State.test ⟨heap, cycles, garbage, .testing cycle p failed⟩ cycle p failed =
      some after) :
    ∃ layout', Sound after layout' ∧
      Tested heap cycles garbage cycle p failed layout unseen seen after layout' := by
  have tended := sound.tended rfl
  obtain ⟨q, rest, around, step, turned⟩ := tended.listed.turn place
  have nodup : (unseen ++ .object cycle :: seen).Nodup := by
    have threaded := tended.listed.threaded.perm layout.current_first
    rw [place, List.singleton_append] at threaded
    rw [← split']
    exact (List.perm_append_singleton _ _).nodup_iff.mpr threaded.first_nodup
  have order := split'
  rw [around] at order
  simp only [State.test, step, Option.bind_eq_bind, Option.bind_some] at taken
  split at taken
  · rename_i live
    have settled : Tended (heap.settle q)
        { layout with current := [⟨.object q, rest, some (.object q)⟩] } := by
      refine ⟨turned.congr rfl rfl rfl (fun _ _ => rfl), tended.doubly, tended.spent, ?_⟩
      intro strand member
      rcases List.mem_cons.mp member with rfl | member
      · exact ⟨_, rfl⟩
      · exact tended.closed strand (List.mem_append_right _ member)
    cases unseen with
    | nil =>
      obtain ⟨rfl, rfl⟩ : q = cycle ∧ rest = seen := by simpa using order
      simp only [if_true, Option.some.injEq] at taken
      subst taken
      refine ⟨_, sound_decide _ settled rfl ?_ sound.garbage sound.cycles, .head live⟩
      intro other member
      simp only [Strand.all_cons, Strand.all_nil, Strand.members_mk, List.append_nil,
        List.mem_cons, ListNode.object.injEq] at member
      rcases member with rfl | member
      · exact live
      · exact typed other member
    | cons node unseen =>
      obtain ⟨rfl, rfl⟩ : .object q = node ∧ rest = unseen ++ .object cycle :: seen := by
        simpa using order
      have different : q ≠ cycle := by
        rintro rfl
        exact (List.nodup_cons.mp nodup).1 (by simp)
      simp only [different, if_false, Option.some.injEq] at taken
      subst taken
      have kept : unseen ++ .object cycle :: seen ++ [.object q] =
          unseen ++ .object cycle :: (seen ++ [.object q]) := by
        simp
      refine ⟨_, settled.sound rfl sound.garbage sound.cycles (by rintro ⟨⟩) ?_, .pass live kept⟩
      intro nodes' place'
      simp only [List.cons.injEq, Strand.mk.injEq, and_true, true_and] at place'
      subst place'
      refine ⟨unseen, seen ++ [.object q], by simp, ?_⟩
      intro other member
      simp only [List.mem_append, List.mem_singleton, ListNode.object.injEq] at member
      rcases member with member | rfl
      · exact typed other member
      · exact live
  · rename_i dead
    cases nodes with
    | nil =>
      obtain ⟨rfl, rfl⟩ : p = q ∧ [] = rest := by simpa using around
      have same : cycle = p := by
        have inside : ListNode.object cycle ∈ [ListNode.object p] := by
          have equal : [ListNode.object p] = unseen ++ .object cycle :: seen := split'
          rw [equal]
          simp
        simpa using inside
      subst same
      obtain ⟨rfl, rfl⟩ : unseen = [] ∧ seen = [] := by
        have short := congrArg List.length split'
        simp only [List.nil_append, List.length_append, List.length_cons, List.length_nil] at short
        exact ⟨List.length_eq_zero_iff.mp (by omega), List.length_eq_zero_iff.mp (by omega)⟩
      simp only [if_true, Option.some.injEq] at taken
      subst taken
      have freed : Tended
          ((heap.setNext (.object cycle) (heap.next (.object cycle))).free cycle)
          { layout with current := [] } := by
        refine ⟨tended.listed.shift place
          (fun node different => Function.update_of_ne different _ _)
          (fun held => by simp [Heap.free] at held)
          (fun other different => Function.update_of_ne different _ _) rfl rfl, tended.doubly,
          freed_spent tended (by simp [place]) rfl, ?_⟩
        intro strand member
        exact tended.closed strand (List.mem_append_right _ member)
      exact ⟨_, freed.sound rfl sound.garbage sound.cycles (by rintro ⟨⟩) trivial,
        .empty (Bool.eq_false_iff.mpr dead)⟩
    | cons node nodes =>
      obtain ⟨rfl, rfl⟩ : node = .object q ∧ nodes ++ [.object p] = rest := by
        simpa using around
      have buried : Tended ((heap.setNext (.object p) (heap.next (.object q))).free q)
          { layout with current := [⟨.object p, nodes, some (.object p)⟩] } := by
        refine ⟨tended.listed.bury place, tended.doubly, freed_spent tended (by simp [place]) rfl,
          ?_⟩
        intro strand member
        rcases List.mem_cons.mp member with rfl | member
        · exact ⟨_, rfl⟩
        · exact tended.closed strand (List.mem_append_right _ member)
      cases unseen with
      | nil =>
        obtain ⟨rfl, rfl⟩ : q = cycle ∧ nodes ++ [.object p] = seen := by simpa using order
        have different : p ≠ q := by
          rintro rfl
          exact (List.nodup_cons.mp nodup).1 (by simp)
        simp only [different, if_true, if_false, Option.some.injEq] at taken
        subst taken
        refine ⟨_, sound_decide _ buried rfl ?_ sound.garbage sound.cycles,
          .headless (Bool.eq_false_iff.mpr dead) rfl⟩
        intro other member
        apply typed other
        simp only [Strand.all_cons, Strand.all_nil, Strand.members_mk, List.append_nil,
          List.mem_cons] at member
        simp only [List.mem_append, List.mem_singleton]
        exact member.symm
      | cons node unseen =>
        obtain ⟨rfl, remaining⟩ : .object q = node ∧
            nodes ++ [.object p] = unseen ++ .object cycle :: seen := by simpa using order
        have different : q ≠ cycle := by
          rintro rfl
          exact (List.nodup_cons.mp nodup).1 (by simp)
        simp only [different, if_false, Option.some.injEq] at taken
        subst taken
        refine ⟨_, buried.sound rfl sound.garbage sound.cycles (by rintro ⟨⟩) ?_,
          .skip (Bool.eq_false_iff.mpr dead) remaining⟩
        intro nodes' place'
        simp only [List.cons.injEq, Strand.mk.injEq, and_true, true_and] at place'
        subst place'
        exact ⟨unseen, seen, remaining, typed⟩

theorem sound_test {cycle p : ι} {failed : Bool}
    (sound : Sound ⟨heap, cycles, garbage, .testing cycle p failed⟩ layout)
    (taken : State.test ⟨heap, cycles, garbage, .testing cycle p failed⟩ cycle p failed =
      some after) : ∃ layout', Sound after layout' := by
  obtain ⟨nodes, place⟩ := eq_of_ends sound.current
  obtain ⟨unseen, seen, around, typed⟩ := sound.stands nodes place
  obtain ⟨layout', kept, _⟩ := test_layout sound place around typed taken
  exact ⟨layout', kept⟩

theorem sound_tails (layout : Layout ι) {cycle q : ι} {nodes : List (ListNode ι)}
    {next : ι → Control ι}
    (shape : ∀ q, (next q).ends = [(.object q, some (.object cycle))])
    (holds : ∀ q, (∀ strand ∈ Strand.tails (some (.object cycle)) nodes,
      .object cycle ∉ strand.nodes) →
        (next q).Holds heap { layout with current := Strand.tails (some (.object cycle)) nodes })
    (busy : ∀ q, (next q).clear = false)
    (tended : Tended heap { layout with current := Strand.tails (some (.object cycle)) nodes })
    (apart : .object cycle ∉ nodes)
    (place : (nodes = [] ∧ q = cycle) ∨ ∃ rest, nodes = .object q :: rest ∧ q ≠ cycle)
    (scraps : layout.garbage.map ends =
      garbage.toList.map fun object => (.object object, none))
    (rings : layout.cycles.map ends = cycles.map loop) :
    Sound ⟨heap, cycles, garbage, if q = cycle then .cycles else next q⟩
      { layout with current := Strand.tails (some (.object cycle)) nodes } := by
  rcases place with ⟨rfl, rfl⟩ | ⟨rest, rfl, different⟩
  · rw [if_pos rfl]
    exact tended.sound rfl scraps rings nofun trivial
  · rw [if_neg different]
    refine tended.sound (shape q).symm scraps rings ?_ ?_
    · intro clear
      rw [busy] at clear
      cases clear
    · apply holds
      intro strand member
      simp only [Strand.tails, List.mem_singleton] at member
      rw [member]
      exact fun inside => apart (List.mem_cons_of_mem _ inside)

theorem sweep_layout {cycle p : ι} {report : List ι}
    (sound : Sound ⟨heap, cycles, garbage, .sweep cycle p⟩ layout)
    (taken : State.tick ⟨heap, cycles, garbage, .sweep cycle p⟩ report = some after) :
    ∃ nodes, layout.current = [⟨.object p, nodes, some (.object cycle)⟩] ∧
      after.heap = heap.free p ∧
      Sound after { layout with current := Strand.tails (some (.object cycle)) nodes } := by
  have tended := sound.tended rfl
  obtain ⟨nodes, place⟩ := eq_of_ends sound.current
  have apart : .object cycle ∉ nodes :=
    sound.stands _ (by rw [place]; exact List.mem_singleton_self _)
  simp only [State.tick, Option.bind_eq_bind, Option.bind_eq_some_iff, Option.some.injEq] at taken
  obtain ⟨q, step, taken⟩ := taken
  subst taken
  have freed : Tended (heap.free p)
      { layout with current := Strand.tails (some (.object cycle)) nodes } := by
    refine ⟨tended.listed.shift place (fun _ _ => rfl)
      (fun held => by simp [Heap.free] at held)
      (fun other different => Function.update_of_ne different _ _) rfl rfl, tended.doubly,
      freed_spent tended (by simp [place]) rfl, closed_tails tended⟩
  exact ⟨nodes, place, rfl, sound_tails layout (fun _ => rfl) (fun _ held => held) (fun _ => rfl)
    freed apart (next_tails tended place apart step) sound.garbage sound.cycles⟩

theorem sound_sweep {cycle p : ι} {report : List ι}
    (sound : Sound ⟨heap, cycles, garbage, .sweep cycle p⟩ layout)
    (taken : State.tick ⟨heap, cycles, garbage, .sweep cycle p⟩ report = some after) :
    ∃ layout', Sound after layout' := by
  obtain ⟨_, _, _, kept⟩ := sweep_layout sound taken
  exact ⟨_, kept⟩

/-- Where an object of a cycle that failed the test goes. -/
inductive Refurbished (heap : Heap ι) (garbage : Option ι) (cycle p : ι) (layout : Layout ι)
    (nodes : List (ListNode ι)) : Heap ι → Layout ι → Prop
  | garbage (none : heap.count p = 0) : Refurbished _ _ _ _ _ _
      (heap.setNext (.object p) (garbage.map .object))
      { layout with
        current := Strand.tails (some (.object cycle)) nodes
        garbage := [⟨.object p, Strand.all layout.garbage, Option.none⟩] }
  | roots (purple : heap.color p = .purple) : Refurbished _ _ _ _ _ _ (heap.append p)
      { layout with
        roots := layout.roots ++ [.object p]
        current := Strand.tails (some (.object cycle)) nodes }
  | loose : Refurbished _ _ _ _ _ _ ((heap.paint p .black).setNext (.object p) none)
      { layout with current := Strand.tails (some (.object cycle)) nodes }

theorem refurbish_layout {cycle p : ι}
    (sound : Sound ⟨heap, cycles, garbage, .refurbish cycle p⟩ layout)
    (taken : State.refurbish ⟨heap, cycles, garbage, .refurbish cycle p⟩ cycle p = some after) :
    ∃ nodes layout', layout.current = [⟨.object p, nodes, some (.object cycle)⟩] ∧
      Sound after layout' ∧
      Refurbished heap garbage cycle p layout nodes after.heap layout' := by
  have tended := sound.tended rfl
  obtain ⟨nodes, place⟩ := eq_of_ends sound.current
  have apart : .object cycle ∉ nodes :=
    sound.stands.1 _ (by rw [place]; exact List.mem_singleton_self _)
  have inside : .object p ∈ Strand.all layout.current := by simp [place]
  have typed := sound.stands.2
  have left : ∀ other, .object other ∈
      Strand.all (Strand.tails (some (.object cycle)) nodes) → heap.typed other = true := by
    intro other member
    rw [Strand.all_tails] at member
    apply typed other
    rw [place]
    simp [member]
  have member : .object p ∈ Strand.all layout.others := Layout.mem_others.mpr (Or.inl inside)
  have held : heap.allocated p = true :=
    tended.listed.owned p (Layout.mem_strands.mpr (Or.inr (Or.inr member)))
  have fresh : .object p ∉ Strand.all
      { layout with current := Strand.tails (some (.object cycle)) nodes }.strands := by
    have order := Layout.current_first
      { layout with current := Strand.tails (some (.object cycle)) nodes }
    have threaded := tended.listed.threaded.perm layout.current_first
    rw [place, List.singleton_append] at threaded
    exact fun inside => threaded.pull_fresh ((Strand.mem_perm order).mp inside)
  have reset : Tended (heap.setNext (.object p) none)
      { layout with current := Strand.tails (some (.object cycle)) nodes } :=
    ⟨tended.listed.shift place (fun node different => Function.update_of_ne different _ _)
      (fun _ => Function.update_self _ _ _) (fun _ _ => rfl) rfl rfl, tended.doubly,
      tended.spent, closed_tails tended⟩
  simp only [State.refurbish, Option.bind_eq_bind, Option.bind_eq_some_iff,
    Option.some.injEq] at taken
  obtain ⟨q, step, taken⟩ := taken
  have next := next_tails tended place apart step
  split at taken
  · rename_i none
    subst taken
    have listed := reset.listed.discard sound.garbage fresh held
      (tended.listed.detached p member)
    have same : (heap.setNext (.object p) Option.none).setNext (.object p)
        (garbage.map .object) = heap.setNext (.object p) (garbage.map .object) := by
      simp only [Heap.setNext, Function.update_idem]
    rw [same] at listed
    have discarded : Tended (heap.setNext (.object p) (garbage.map .object))
        { layout with
          current := Strand.tails (some (.object cycle)) nodes
          garbage := [⟨.object p, Strand.all layout.garbage, Option.none⟩] } := by
      refine ⟨listed, tended.doubly, ?_, closed_tails tended⟩
      intro object member
      simp only [Strand.all_cons, Strand.all_nil, Strand.members_mk, List.append_nil,
        List.mem_cons, ListNode.object.injEq] at member
      rcases member with rfl | member
      · exact none
      · exact tended.spent object member
    exact ⟨nodes, _, place, sound_tails
      { layout with garbage := [⟨.object p, Strand.all layout.garbage, Option.none⟩] }
      (fun _ => rfl) (fun _ held => ⟨held, left⟩) (fun _ => rfl) discarded
      apart next rfl sound.cycles, .garbage none⟩
  · split at taken
    · rename_i purple
      subst taken
      obtain ⟨listed, doubly⟩ := reset.listed.append reset.doubly held (typed p inside) fresh
      rw [heap.append_setNext] at listed doubly
      have appended : Tended (heap.append p)
          { layout with
            roots := layout.roots ++ [.object p]
            current := Strand.tails (some (.object cycle)) nodes } := by
        refine ⟨listed, doubly, ?_, closed_tails tended⟩
        intro object member
        obtain ⟨next, previous, same⟩ := heap.append_links p
        rw [same]
        exact tended.spent object member
      exact ⟨nodes, _, place, sound_tails { layout with roots := layout.roots ++ [.object p] }
        (fun _ => rfl) (fun _ held => ⟨held, by
          obtain ⟨next, previous, same⟩ := heap.append_links p
          rw [same]
          exact left⟩) (fun _ => rfl) appended
        apart next sound.garbage sound.cycles, .roots purple⟩
    · subst taken
      have painted : Tended ((heap.paint p .black).setNext (.object p) none)
          { layout with current := Strand.tails (some (.object cycle)) nodes } :=
        reset.congr rfl rfl rfl (fun _ _ => rfl) (fun _ _ => rfl)
      exact ⟨nodes, _, place, sound_tails layout (fun _ => rfl) (fun _ held => ⟨held, left⟩)
        (fun _ => rfl) painted apart next sound.garbage sound.cycles, .loose⟩

theorem sound_refurbish {cycle p : ι}
    (sound : Sound ⟨heap, cycles, garbage, .refurbish cycle p⟩ layout)
    (taken : State.refurbish ⟨heap, cycles, garbage, .refurbish cycle p⟩ cycle p = some after) :
    ∃ layout', Sound after layout' := by
  obtain ⟨_, layout', _, kept, _⟩ := refurbish_layout sound taken
  exact ⟨layout', kept⟩

/-- The members of the cycle that is worked on stay. -/
def Layout.Stays (layout layout' : Layout ι) : Prop :=
  ∀ node, node ∈ Strand.all layout.current → node ∈ Strand.all layout'.current

omit [DecidableEq ι] in
theorem stays_turn {p q : ι} {nodes rest : List (ListNode ι)}
    (place : layout.current = [⟨.object p, nodes, some (.object p)⟩])
    (around : nodes ++ [.object p] = .object q :: rest) :
    layout.Stays { layout with current := [⟨.object q, rest, some (.object q)⟩] } := by
  intro node member
  have inside : node ∈ nodes ++ [.object p] := by
    rw [place] at member
    simp only [Strand.all_cons, Strand.all_nil, Strand.members_mk, List.append_nil,
      List.mem_cons] at member
    simp only [List.mem_append, List.mem_singleton]
    exact member.symm
  rw [around] at inside
  simp only [Strand.all_cons, Strand.all_nil, Strand.members_mk, List.append_nil]
  exact inside

/-- A loop around the cycle has come to its next object. -/
def Rotated (layout : Layout ι) (p q : ι) (layout' : Layout ι) : Prop :=
  ∃ nodes rest, layout.current = [⟨.object p, nodes, some (.object p)⟩] ∧
    nodes ++ [.object p] = .object q :: rest ∧
    layout' = { layout with current := [⟨.object q, rest, some (.object q)⟩] }

omit [DecidableEq ι] in
theorem Rotated.stays {layout' : Layout ι} {p q : ι} (rotated : Rotated layout p q layout') :
    layout.Stays layout' := by
  obtain ⟨nodes, rest, place, around, rfl⟩ := rotated
  exact stays_turn place around

theorem redden_layout {cycle p : ι}
    (report : List ι) (sound : Sound ⟨heap, cycles, garbage, .round .redden cycle p⟩ layout)
    (taken : State.around ⟨heap, cycles, garbage, .round .redden cycle p⟩ .redden cycle p report =
      some after) : ∃ q layout', Sound after layout' ∧ Rotated layout p q layout' ∧
        after.control = if q = cycle then .round .drop cycle cycle else .round .redden cycle q := by
  have painted : Tended (heap.paint p .red) layout :=
    (sound.tended rfl).congr rfl rfl rfl (fun _ _ => rfl) (fun _ _ => rfl)
  obtain ⟨nodes, place⟩ := eq_of_ends sound.current
  obtain ⟨q, rest, around, step, turned⟩ := tended_turn painted place
  simp only [State.around, State.turn, step, Option.map_some, Option.some.injEq] at taken
  subst taken
  refine ⟨q, _, ?_, ⟨nodes, rest, place, around, rfl⟩, ?_⟩
  · split
    · rename_i last
      subst last
      exact turned.sound rfl sound.garbage sound.cycles nofun trivial
    · exact turned.sound rfl sound.garbage sound.cycles nofun trivial
  · split <;> rfl

theorem sound_redden {cycle p : ι}
    (report : List ι) (sound : Sound ⟨heap, cycles, garbage, .round .redden cycle p⟩ layout)
    (taken : State.around ⟨heap, cycles, garbage, .round .redden cycle p⟩ .redden cycle p report =
      some after) : ∃ layout', Sound after layout' := by
  obtain ⟨_, layout', kept, _⟩ := redden_layout report sound taken
  exact ⟨layout', kept⟩

/-- An object of a cycle loses its type when all it refers to has been let go. -/
theorem untype_layout {cycle p : ι}
    (sound : Sound ⟨heap, cycles, garbage, .dropping cycle p []⟩ layout)
    (taken : State.drop ⟨heap, cycles, garbage, .dropping cycle p []⟩ cycle p [] = some after) :
    ∃ q layout', Sound after layout' ∧ Rotated layout p q layout' ∧
      after.control = if q = cycle then .sweep cycle cycle else .round .drop cycle q := by
  have tended := sound.tended rfl
  obtain ⟨nodes, place⟩ := eq_of_ends sound.current
  have inside : .object p ∈ Strand.all layout.current := by simp [place]
  have untyped : Tended (heap.untype p) layout := by
    refine tended.congr rfl rfl rfl ?_ (fun _ _ => rfl)
    intro other member
    refine Function.update_of_ne ?_ _ _
    rintro rfl
    exact tended.listed.threaded.apart (List.mem_cons_of_mem _ member)
      (Layout.mem_others.mpr (Or.inl inside))
  obtain ⟨q, rest, around, step, turned⟩ := tended_turn untyped place
  simp only [State.drop, State.turn, step, Option.map_some, Option.some.injEq] at taken
  subst taken
  refine ⟨q, _, ?_, ⟨nodes, rest, place, around, rfl⟩, ?_⟩
  · split
    · rename_i last
      subst last
      refine turned.sound rfl sound.garbage sound.cycles (by rintro ⟨⟩) ?_
      intro strand member
      rw [List.mem_singleton.mp member]
      have threaded := turned.listed.threaded.swap
      exact (List.nodup_cons.mp threaded.first_nodup).1
    · exact turned.sound rfl sound.garbage sound.cycles (by rintro ⟨⟩) trivial
  · split <;> rfl

/-- `f_cyclic_decrement_push` on one of the references of an object of a cycle. -/
theorem push_layout {cycle p child : ι} {children : List ι}
    (sound : Sound ⟨heap, cycles, garbage, .dropping cycle p (child :: children)⟩ layout)
    (taken : State.drop ⟨heap, cycles, garbage, .dropping cycle p (child :: children)⟩ cycle p
      (child :: children) = some after) :
    ∃ layout', Sound after layout' ∧ layout'.current = layout.current ∧
      (after.control = .dropping cycle p children ∨
        after.control = .release child [] (.dropping cycle p children)) := by
  have tended := sound.tended rfl
  simp only [State.drop] at taken
  split at taken
  · cases taken
  · rename_i allocated
    rw [Bool.not_eq_false] at allocated
    split at taken
    · simp only [Option.some.injEq] at taken
      subst taken
      exact ⟨_, tended.sound sound.current sound.garbage sound.cycles (by rintro ⟨⟩) trivial,
        rfl, .inl rfl⟩
    · split at taken
      · cases taken
      · rename_i held
        rw [not_or, Bool.not_eq_false] at held
        have live : heap.live child = true := by
          rw [Heap.live, allocated, held.1]
          rfl
        have apart : .object child ∉ Strand.all layout.garbage :=
          fun member => held.2 (tended.spent child member)
        split at taken
        · simp only [Option.some.injEq] at taken
          subst taken
          refine ⟨layout, Tended.sound ?_ sound.current sound.garbage sound.cycles (by rintro ⟨⟩)
            trivial, rfl, .inl rfl⟩
          refine tended.congr rfl rfl rfl (fun _ _ => rfl) ?_
          intro other member
          exact Function.update_of_ne (by rintro rfl; exact apart member) _ _
        · obtain ⟨roots, lowered, _⟩ := tended.lower live (Nat.pos_of_ne_zero held.2)
          split at taken
          · simp only [Option.some.injEq] at taken
            subst taken
            exact ⟨_,
              lowered.sound sound.current sound.garbage sound.cycles (by rintro ⟨⟩) trivial,
              rfl, .inl rfl⟩
          · rename_i none
            simp only [Option.some.injEq] at taken
            subst taken
            refine ⟨_, lowered.sound sound.current sound.garbage sound.cycles (by rintro ⟨⟩)
              ⟨List.nodup_singleton _, ?_⟩, rfl, .inr rfl⟩
            intro other member
            rw [List.mem_singleton.mp member]
            obtain ⟨next, previous, color, same⟩ := heap.lower_links child
            refine ⟨?_, Nat.eq_zero_of_not_pos none, apart⟩
            rw [same]
            exact allocated

theorem drop_layout {cycle p : ι} {children : List ι}
    (sound : Sound ⟨heap, cycles, garbage, .dropping cycle p children⟩ layout)
    (taken : State.drop ⟨heap, cycles, garbage, .dropping cycle p children⟩ cycle p children =
      some after) : ∃ layout', Sound after layout' ∧ layout.Stays layout' := by
  cases children with
  | nil =>
    obtain ⟨_, layout', kept, rotated, _⟩ := untype_layout sound taken
    exact ⟨layout', kept, rotated.stays⟩
  | cons child children =>
    obtain ⟨layout', kept, same, _⟩ := push_layout sound taken
    exact ⟨layout', kept, fun _ member => same ▸ member⟩

theorem sound_drop {cycle p : ι} {children : List ι}
    (sound : Sound ⟨heap, cycles, garbage, .dropping cycle p children⟩ layout)
    (taken : State.drop ⟨heap, cycles, garbage, .dropping cycle p children⟩ cycle p children =
      some after) : ∃ layout', Sound after layout' := by
  obtain ⟨layout', kept, _⟩ := drop_layout sound taken
  exact ⟨layout', kept⟩

theorem sound_garbage {report : List ι}
    (sound : Sound ⟨heap, cycles, garbage, .garbage⟩ layout)
    (taken : State.tick ⟨heap, cycles, garbage, .garbage⟩ report = some after) :
    ∃ layout', Sound after layout' := by
  have tended := sound.tended rfl
  cases garbage with
  | none =>
    simp only [State.tick, Option.some.injEq] at taken
    subst taken
    refine ⟨layout, tended.sound sound.current sound.garbage sound.cycles ?_ trivial⟩
    intro _
    exact List.map_eq_nil_iff.mp sound.garbage
  | some p =>
    simp only [State.tick, Option.some.injEq] at taken
    subst taken
    obtain ⟨nodes, place⟩ := eq_of_ends sound.garbage
    have threaded := tended.listed.threaded.perm layout.garbage_first
    rw [place, List.singleton_append] at threaded
    have inside : .object p ∈ Strand.all layout.garbage := by simp [place]
    have scrapped : Tended (heap.setNext (.object p) none)
        { layout with garbage := Strand.tails none nodes } := by
      refine ⟨tended.listed.scrap place, tended.doubly, ?_, tended.closed⟩
      intro object member
      apply tended.spent object
      rw [Strand.all_tails] at member
      simp [place, member]
    refine ⟨_, scrapped.sound sound.current ?_ sound.cycles nofun ⟨List.nodup_singleton _, ?_⟩⟩
    · have linked := threaded.first
      cases nodes with
      | nil =>
        have unlinked : heap.next (.object p) = none := linked
        simp [Heap.follow, unlinked, Strand.tails]
      | cons node nodes =>
        obtain ⟨q, rfl⟩ := tended.listed.object_of_others
          (Layout.mem_others.mpr (Or.inr (Or.inl (by simp [place] : node ∈ _))))
        have step : heap.next (.object p) = some (.object q) := linked.1
        simp [Heap.follow, step, Strand.tails, ends]
    · intro other member
      rw [List.mem_singleton.mp member]
      refine ⟨?_, tended.spent p inside, ?_⟩
      · exact tended.listed.owned p (Layout.mem_strands.mpr (Or.inr (Or.inr
          (Layout.mem_others.mpr (Or.inr (Or.inl inside))))))
      · rw [Strand.all_tails]
        exact (List.nodup_cons.mp threaded.first_nodup).1

end Xemmai.Collector
