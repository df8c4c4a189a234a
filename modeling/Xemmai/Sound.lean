import Xemmai.Lists

/-!
# The lists where the code stands

What holds of the lists and of the stack at each place in the code of the
collector, and that increments and decrements keep it.
-/

namespace Xemmai.Collector

set_option autoImplicit false

variable {ι : Type}

def ends (strand : Strand (ListNode ι)) : ListNode ι × Option (ListNode ι) :=
  (strand.first, strand.last)

theorem eq_of_ends {strands : List (Strand (ListNode ι))} {first : ListNode ι}
    {last : Option (ListNode ι)} (same : strands.map ends = [(first, last)]) :
    ∃ nodes, strands = [⟨first, nodes, last⟩] := by
  rw [List.map_eq_singleton_iff] at same
  obtain ⟨⟨first', nodes, last'⟩, place, equal⟩ := same
  simp only [ends, Prod.mk.injEq] at equal
  obtain ⟨rfl, rfl⟩ := equal
  exact ⟨nodes, place⟩

def loop (object : ι) : ListNode ι × Option (ListNode ι) :=
  (.object object, some (.object object))

/-- An object on `v_scan_stack` in a decrement. -/
def Pending (heap : Heap ι) (layout : Layout ι) (object : ι) : Prop :=
  heap.allocated object = true ∧ heap.count object = 0 ∧
    .object object ∉ Strand.all layout.garbage

/-- The stack of a decrement, under the object that is let go. -/
def Stacked (heap : Heap ι) (layout : Layout ι) (stack : List ι) : Prop :=
  stack.Nodup ∧ ∀ object ∈ stack, Pending heap layout object

namespace Control

/-- The ring that the code is on, or what is left of it. -/
def ends : Control ι → List (ListNode ι × Option (ListNode ι))
  | testing _ p _ => [loop p]
  | refurbish cycle p => [(.object p, some (.object cycle))]
  | round _ _ p => [loop p]
  | dropping _ p _ => [loop p]
  | sweep cycle p => [(.object p, some (.object cycle))]
  | release _ _ (.dropping _ p _) => [loop p]
  | traverse (.collectWhite cycle) _ _ => [loop cycle]
  | _ => []

/-- Whether the collector is in one of its loops over the roots. -/
def passes : Control ι → Bool
  | round .scanRed _ _ => true
  | round .orange _ _ => true
  | prescan _ => true
  | mark _ _ => true
  | scan _ => true
  | collect => true
  | traverse _ _ _ => true
  | _ => false

def clear : Control ι → Bool
  | epoch => true
  | release _ _ .epoch => true
  | roots => true
  | control => control.passes

/-- What is known of the lists and of the stack where the code stands. -/
def Holds (heap : Heap ι) (layout : Layout ι) : Control ι → Prop
  | release object stack _ => Stacked heap layout (object :: stack)
  | testing cycle p _ => ∀ nodes, layout.current = [⟨.object p, nodes, some (.object p)⟩] →
      ∃ unseen seen, nodes ++ [.object p] = unseen ++ .object cycle :: seen ∧
        ∀ other, .object other ∈ seen → heap.typed other = true
  | refurbish cycle _ => (∀ strand ∈ layout.current, .object cycle ∉ strand.nodes) ∧
      ∀ other, .object other ∈ Strand.all layout.current → heap.typed other = true
  | sweep cycle _ => ∀ strand ∈ layout.current, .object cycle ∉ strand.nodes
  | round .scanRed cycle _ => .object cycle ∈ Strand.all layout.current ∧
      ∀ other, .object other ∈ Strand.all layout.current → heap.typed other = true
  | round .orange cycle _ => .object cycle ∈ Strand.all layout.current ∧
      ∀ other, .object other ∈ Strand.all layout.current → heap.typed other = true
  | prescan p => .object p ∈ layout.roots
  | mark p q => ∃ before after, layout.roots = before ++ .object q :: after ∧
      p = before.getLast?.getD .roots
  | scan p => .object p ∈ layout.roots
  | collect => layout.roots ≠ []
  | traverse pass object stack => (∀ other ∈ object :: stack, heap.typed other = true) ∧
      match pass with
      | .prescanBlack p => .object p ∈ layout.roots
      | .markGray q => .object q ∈ layout.roots
      | .scanBlack p => .object p ∈ layout.roots
      | .scanGray p => .object p ∈ layout.roots
      | .collectWhite _ =>
        ∀ other, .object other ∈ Strand.all layout.current → heap.typed other = true
  | _ => True

end Control

/-- The lists of a state, and what the collector knows of them. -/
structure Sound (state : State ι) (layout : Layout ι) : Prop where
  listed : Listed state.heap layout
  current : layout.current.map ends = state.control.ends
  garbage : layout.garbage.map ends =
    state.garbage.toList.map fun object => (.object object, none)
  cycles : layout.cycles.map ends = state.cycles.map loop
  doubly : state.control.passes = false → Doubly state.heap layout
  spent : ∀ object, .object object ∈ Strand.all layout.garbage → state.heap.count object = 0
  clean : state.control.clear = true → layout.garbage = []
  stands : state.control.Holds state.heap layout

theorem Control.ends_last {control : Control ι} {first : ListNode ι}
    {last : Option (ListNode ι)} (member : (first, last) ∈ control.ends) :
    ∃ object, last = some (.object object) := by
  cases control with
  | release object stack back =>
    cases back with
    | dropping cycle p children =>
      simp only [Control.ends, loop, List.mem_singleton, Prod.mk.injEq] at member
      exact ⟨p, member.2⟩
    | _ => cases member
  | traverse pass object stack =>
    cases pass with
    | collectWhite cycle =>
      simp only [Control.ends, loop, List.mem_singleton, Prod.mk.injEq] at member
      exact ⟨cycle, member.2⟩
    | _ => cases member
  | testing cycle p failed =>
    simp only [Control.ends, loop, List.mem_singleton, Prod.mk.injEq] at member
    exact ⟨p, member.2⟩
  | refurbish cycle p =>
    simp only [Control.ends, List.mem_singleton, Prod.mk.injEq] at member
    exact ⟨cycle, member.2⟩
  | round round cycle p =>
    simp only [Control.ends, loop, List.mem_singleton, Prod.mk.injEq] at member
    exact ⟨p, member.2⟩
  | dropping cycle p children =>
    simp only [Control.ends, loop, List.mem_singleton, Prod.mk.injEq] at member
    exact ⟨p, member.2⟩
  | sweep cycle p =>
    simp only [Control.ends, List.mem_singleton, Prod.mk.injEq] at member
    exact ⟨cycle, member.2⟩
  | _ => cases member

structure Tended (heap : Heap ι) (layout : Layout ι) : Prop where
  listed : Listed heap layout
  doubly : Doubly heap layout
  spent : ∀ object, .object object ∈ Strand.all layout.garbage → heap.count object = 0
  closed : ∀ strand ∈ layout.current ++ layout.cycles, ∃ last, strand.last = some last

theorem Sound.closed {state : State ι} {layout : Layout ι} (sound : Sound state layout) :
    ∀ strand ∈ layout.current ++ layout.cycles, ∃ last, strand.last = some last := by
  intro strand member
  rcases List.mem_append.mp member with member | member
  · have shape : ends strand ∈ layout.current.map ends := List.mem_map_of_mem member
    rw [sound.current] at shape
    obtain ⟨object, same⟩ := Control.ends_last shape
    exact ⟨_, same⟩
  · have shape : ends strand ∈ layout.cycles.map ends := List.mem_map_of_mem member
    rw [sound.cycles] at shape
    obtain ⟨cycle, _, same⟩ := List.mem_map.mp shape
    simp only [ends, loop, Prod.mk.injEq] at same
    exact ⟨_, same.2.symm⟩

theorem Sound.tended {state : State ι} {layout : Layout ι} (sound : Sound state layout)
    (outside : state.control.passes = false) : Tended state.heap layout :=
  ⟨sound.listed, sound.doubly outside, sound.spent, sound.closed⟩

theorem Listed.fresh {heap : Heap ι} {layout : Layout ι} (listed : Listed heap layout)
    (closed : ∀ strand ∈ layout.current ++ layout.cycles, ∃ last, strand.last = some last)
    {object : ι} (unlinked : heap.next (.object object) = none)
    (apart : .object object ∉ Strand.all layout.garbage) :
    .object object ∉ Strand.all layout.strands := by
  intro inside
  obtain ⟨strand, member, node⟩ := List.mem_flatMap.mp inside
  have elsewhere : strand ∉ layout.garbage :=
    fun place => apart (List.mem_flatMap.mpr ⟨strand, place, node⟩)
  obtain ⟨last, same⟩ : ∃ last, strand.last = some last := by
    simp only [Layout.strands, Layout.others, List.mem_cons, List.mem_append] at member
    rcases member with rfl | member | member | member
    · exact ⟨.roots, rfl⟩
    · exact closed strand (List.mem_append_left _ member)
    · exact absurd member elsewhere
    · exact closed strand (List.mem_append_right _ member)
  have chain := listed.threaded.linked strand member
  rw [Strand.Linked, same] at chain
  obtain ⟨target, linked⟩ := chain.linked node
  rw [unlinked] at linked
  cases linked

namespace Tended

variable {heap heap' : Heap ι} {layout : Layout ι}

theorem congr (tended : Tended heap layout) (next : heap'.next = heap.next)
    (previous : heap'.previous = heap.previous) (allocated : heap'.allocated = heap.allocated)
    (typed : ∀ object, .object object ∈ layout.roots → heap'.typed object = heap.typed object)
    (count : ∀ object, .object object ∈ Strand.all layout.garbage →
      heap'.count object = heap.count object) : Tended heap' layout where
  listed := tended.listed.congr next previous allocated typed
  doubly := by
    unfold Doubly
    rw [previous]
    exact tended.doubly
  spent object member := (count object member).trans (tended.spent object member)
  closed := tended.closed

variable [DecidableEq ι]

/-- `if (!v_next) f_append(this);` -/
theorem enlist (tended : Tended heap layout) {object : ι} (live : heap.live object = true)
    (apart : .object object ∉ Strand.all layout.garbage) :
    ∃ roots, Tended (heap.enlist object) { layout with roots := roots } ∧
      layout.roots ⊆ roots := by
  simp only [Heap.live, Bool.and_eq_true] at live
  unfold Heap.enlist
  split
  · rename_i unlinked
    obtain ⟨listed, doubly⟩ := tended.listed.append tended.doubly live.1 live.2
      (tended.listed.fresh tended.closed unlinked apart)
    refine ⟨_, ⟨listed, doubly, ?_, tended.closed⟩, List.subset_append_left _ _⟩
    intro other member
    obtain ⟨next, previous, same⟩ := heap.append_links object
    rw [same]
    exact tended.spent other member
  · exact ⟨layout.roots, tended, List.Subset.refl _⟩

theorem increment (tended : Tended heap layout) {object : ι} (live : heap.live object = true)
    (apart : .object object ∉ Strand.all layout.garbage) :
    ∃ roots, Tended (heap.increment object) { layout with roots := roots } := by
  have counted : Tended ((heap.setCount object (Word.up (heap.count object))).paint object
      .black) layout := by
    refine tended.congr rfl rfl rfl (fun _ _ => rfl) ?_
    intro other member
    exact Function.update_of_ne (by rintro rfl; exact apart member) _ _
  obtain ⟨roots, kept, _⟩ := counted.enlist live apart
  exact ⟨roots, kept⟩

theorem lower (tended : Tended heap layout) {object : ι} (live : heap.live object = true)
    (counted : heap.count object > 0) :
    ∃ roots, Tended (heap.lower object) { layout with roots := roots } ∧
      layout.roots ⊆ roots := by
  have apart : .object object ∉ Strand.all layout.garbage := by
    intro member
    rw [tended.spent object member] at counted
    exact absurd counted (Nat.lt_irrefl 0)
  have lowered : Tended (heap.setCount object (Word.down (heap.count object))) layout := by
    refine tended.congr rfl rfl rfl (fun _ _ => rfl) ?_
    intro other member
    exact Function.update_of_ne (by rintro rfl; exact apart member) _ _
  simp only [Heap.lower]
  split
  · have painted : Tended ((heap.setCount object (Word.down (heap.count object))).paint object
        .purple) layout :=
      lowered.congr rfl rfl rfl (fun _ _ => rfl) (fun _ _ => rfl)
    exact painted.enlist live apart
  · exact ⟨layout.roots, lowered, List.Subset.refl _⟩

end Tended

section Decrement

variable [DecidableEq ι] {layout : Layout ι}

theorem decrementPush_tended {walk : Walk ι} {object child : ι}
    (tended : Tended walk.heap layout) (stacked : Stacked walk.heap layout (object :: walk.stack))
    (live : walk.heap.live child = true) (counted : walk.heap.count child > 0) :
    ∃ roots, Tended (walk.decrementPush child).heap { layout with roots := roots } ∧
      Stacked (walk.decrementPush child).heap layout
        (object :: (walk.decrementPush child).stack) := by
  obtain ⟨roots, kept, _⟩ := tended.lower live counted
  obtain ⟨next, previous, color, same⟩ := walk.heap.lower_links child
  have different : ∀ other ∈ object :: walk.stack, other ≠ child := by
    rintro other member rfl
    rw [(stacked.2 other member).2.1] at counted
    exact absurd counted (Nat.lt_irrefl 0)
  have pending : ∀ other ∈ object :: walk.stack,
      Pending (walk.heap.lower child) layout other := by
    intro other member
    obtain ⟨allocated, count, apart⟩ := stacked.2 other member
    rw [same]
    refine ⟨allocated, ?_, apart⟩
    simp only [Heap.setCount, Function.update_of_ne (different other member)]
    exact count
  simp only [Walk.decrementPush]
  split
  · exact ⟨roots, kept, stacked.1, pending⟩
  · rename_i none
    have pushed : Pending (walk.heap.lower child) layout child := by
      refine ⟨?_, by omega, ?_⟩
      · rw [same]
        simp only [Heap.live, Bool.and_eq_true] at live
        exact live.1
      · intro member
        rw [tended.spent child member] at counted
        exact absurd counted (Nat.lt_irrefl 0)
    have nodup := List.nodup_cons.mp stacked.1
    refine ⟨roots, kept, ?_, ?_⟩
    · simp only [Walk.push, List.nodup_cons, List.mem_cons, not_or]
      exact ⟨⟨different object List.mem_cons_self, nodup.1⟩,
        fun member => different child (List.mem_cons_of_mem _ member) rfl, nodup.2⟩
    · intro other member
      simp only [Walk.push, List.mem_cons] at member
      rcases member with rfl | rfl | member
      · exact pending other List.mem_cons_self
      · exact pushed
      · exact pending other (List.mem_cons_of_mem _ member)

theorem decrementAll_tended {report : List ι} {walk after : Walk ι} {object : ι}
    (taken : walk.decrementAll report = some after) (tended : Tended walk.heap layout)
    (stacked : Stacked walk.heap layout (object :: walk.stack)) :
    ∃ roots, Tended after.heap { layout with roots := roots } ∧
      Stacked after.heap layout (object :: after.stack) := by
  induction report generalizing walk layout with
  | nil =>
    simp only [Walk.decrementAll, Option.some.injEq] at taken
    subst taken
    exact ⟨layout.roots, tended, stacked⟩
  | cons child report ih =>
    simp only [Walk.decrementAll] at taken
    split at taken
    · rename_i held
      obtain ⟨roots, kept, pending⟩ := decrementPush_tended tended stacked held.1 held.2
      have pending' : Stacked _ { layout with roots := roots } _ := pending
      obtain ⟨final, result⟩ := ih taken kept pending'
      exact ⟨final, result⟩
    · cases taken

/-- `f_decrement_step` after the references have been let go. -/
theorem release_tended {heap : Heap ι} {object : ι} {stack : List ι}
    (tended : Tended heap layout) (stacked : Stacked heap layout (object :: stack)) :
    ∃ roots, Tended (heap.release object) { layout with roots := roots } ∧
      Stacked (heap.release object) layout stack := by
  have nodup := List.nodup_cons.mp stacked.1
  obtain ⟨allocated, _, apart⟩ := stacked.2 object List.mem_cons_self
  have rest : Stacked (heap.release object) layout stack := by
    refine ⟨nodup.2, ?_⟩
    intro other member
    have different : other ≠ object := by
      rintro rfl
      exact nodup.1 member
    obtain ⟨allocated, count, apart⟩ := stacked.2 other (List.mem_cons_of_mem _ member)
    obtain ⟨sameAllocated, sameCount⟩ := heap.release_others different
    exact ⟨sameAllocated.trans allocated, sameCount.trans count, apart⟩
  have untyped : .object object ∉ layout.roots → Tended (heap.untype object) layout := by
    intro outside
    refine tended.congr rfl rfl rfl ?_ (fun _ _ => rfl)
    intro other member
    exact Function.update_of_ne (by rintro rfl; exact outside member) _ _
  cases unlinked : heap.next (.object object) with
  | none =>
    have fresh := tended.listed.fresh tended.closed unlinked apart
    have kept := untyped fun member => fresh (Layout.mem_strands.mpr (Or.inr (Or.inl member)))
    have same : heap.release object = (heap.untype object).free object := by
      have unlinked' : (heap.untype object).next (.object object) = none := unlinked
      simp only [Heap.release, unlinked']
    refine ⟨layout.roots, ?_, rest⟩
    rw [same]
    refine ⟨kept.listed.free fresh, kept.doubly, ?_, kept.closed⟩
    intro other member
    have different : other ≠ object := by
      rintro rfl
      exact apart member
    simp only [Heap.free, Function.update_of_ne different]
    exact kept.spent other member
  | some next =>
    have inside : .object object ∈ Strand.all layout.strands := by
      by_contra outside
      rw [tended.listed.unlisted object outside allocated] at unlinked
      cases unlinked
    rw [Layout.mem_strands] at inside
    rcases inside with root | root | elsewhere
    · cases root
    · obtain ⟨before, after, place⟩ := List.append_of_mem root
      obtain ⟨listed, doubly⟩ := tended.listed.uproot tended.doubly place
      refine ⟨before ++ after, ⟨listed, doubly, ?_, tended.closed⟩, rest⟩
      intro other member
      have different : other ≠ object := by
        rintro rfl
        exact apart member
      rw [(heap.release_others different).2]
      exact tended.spent other member
    · have detached := tended.listed.detached object elsewhere
      have kept := untyped fun root => tended.listed.threaded.apart
        (List.mem_cons_of_mem _ root) elsewhere
      have same : heap.release object = heap.untype object := by
        have linked' : (heap.untype object).next (.object object) = some next := unlinked
        have detached' : (heap.untype object).previous (.object object) = none := detached
        simp only [Heap.release, linked', detached']
      exact ⟨layout.roots, same ▸ kept, rest⟩

end Decrement

theorem Tended.sound {heap : Heap ι} {cycles : List ι} {garbage : Option ι}
    {control : Control ι} {layout : Layout ι} (tended : Tended heap layout)
    (current : layout.current.map ends = control.ends)
    (scraps : layout.garbage.map ends =
      garbage.toList.map fun object => (.object object, none))
    (rings : layout.cycles.map ends = cycles.map loop)
    (clean : control.clear = true → layout.garbage = [])
    (stands : control.Holds heap layout) : Sound ⟨heap, cycles, garbage, control⟩ layout :=
  ⟨tended.listed, current, scraps, rings, fun _ => tended.doubly, tended.spent, clean, stands⟩

section Tended

variable {heap : Heap ι} {layout : Layout ι}

theorem next_tails (tended : Tended heap layout) {cycle p q : ι} {nodes : List (ListNode ι)}
    (place : layout.current = [⟨.object p, nodes, some (.object cycle)⟩])
    (apart : .object cycle ∉ nodes) (step : heap.follow (.object p) = some q) :
    (nodes = [] ∧ q = cycle) ∨ ∃ rest, nodes = .object q :: rest ∧ q ≠ cycle := by
  have threaded := tended.listed.threaded.perm layout.current_first
  rw [place, List.singleton_append] at threaded
  have linked := threaded.first.next_first
  simp only [Heap.follow, linked] at step
  cases nodes with
  | nil =>
    simp only [List.head?_nil, Option.getD_none, Option.some.injEq] at step
    exact Or.inl ⟨rfl, step.symm⟩
  | cons node nodes =>
    cases node with
    | roots => cases step
    | object object =>
      simp only [List.head?_cons, Option.getD_some, Option.some.injEq] at step
      subst step
      refine Or.inr ⟨nodes, rfl, ?_⟩
      rintro rfl
      exact apart List.mem_cons_self

theorem closed_tails (tended : Tended heap layout) {cycle : ι} {nodes : List (ListNode ι)} :
    ∀ strand ∈ Strand.tails (some (.object cycle)) nodes ++ layout.cycles,
      ∃ last, strand.last = some last := by
  intro strand member
  rcases List.mem_append.mp member with member | member
  · cases nodes with
    | nil => cases member
    | cons node nodes =>
      rw [List.mem_singleton.mp member]
      exact ⟨_, rfl⟩
  · exact tended.closed strand (List.mem_append_right _ member)

theorem tended_turn (tended : Tended heap layout) {p : ι} {nodes : List (ListNode ι)}
    (place : layout.current = [⟨.object p, nodes, some (.object p)⟩]) :
    ∃ q rest, nodes ++ [.object p] = .object q :: rest ∧ heap.follow (.object p) = some q ∧
      Tended heap { layout with current := [⟨.object q, rest, some (.object q)⟩] } := by
  obtain ⟨q, rest, around, step, turned⟩ := tended.listed.turn place
  refine ⟨q, rest, around, step, turned, tended.doubly, tended.spent, ?_⟩
  intro strand member
  rcases List.mem_cons.mp member with rfl | member
  · exact ⟨_, rfl⟩
  · exact tended.closed strand (List.mem_append_right _ member)

end Tended

end Xemmai.Collector
