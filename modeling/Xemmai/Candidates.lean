import Xemmai.RootPasses
import Xemmai.Trial

/-!
# The candidates that the passes find

What holds of the objects where the code of the loops over the roots stands, when
the fields do not change and the counts are exact. In the end the candidate cycles
hold the garbage, and an older one does not refer to a newer one.
-/

namespace Xemmai.Collector

set_option autoImplicit false

variable {ι : Type} [DecidableEq ι]

def objects (nodes : List (ListNode ι)) : Finset ι :=
  (nodes.filterMap fun node => match node with
    | .roots => none
    | .object object => some object).toFinset

@[simp] theorem mem_objects {nodes : List (ListNode ι)} {object : ι} :
    object ∈ objects nodes ↔ .object object ∈ nodes := by
  simp only [objects, List.mem_toFinset, List.mem_filterMap]
  constructor
  · rintro ⟨node, member, same⟩
    cases node with
    | roots => cases same
    | object other =>
      cases same
      exact member
  · exact fun member => ⟨_, member, rfl⟩

def Leads (fields : ι → List ι) : ListNode ι → ListNode ι → Prop
  | .object object, .object target => References.Reaches fields object target
  | _, _ => False

/-- The purple objects among the roots are those of the trial deletion. -/
def Rooted (graph : References ι) (heap : Heap ι) (layout : Layout ι) : Prop :=
  ∀ object, object ∈ graph.roots ↔ .object object ∈ layout.roots ∧ heap.color object = .purple

/-- The roots that the loop that marks has kept, and the ones it has still to see. -/
structure Kept (graph : References ι) (heap : Heap ι) (before after : List (ListNode ι))
    (done : Finset ι) (pending : List ι) : Prop where
  marked : ∀ root, .object root ∈ before → root ∈ done ∨ root ∈ pending
  apart : before.Pairwise fun root other => ¬ Leads graph.fields root other
  source : ∀ object, object ∈ done ∨ object ∈ pending →
    ∃ root, .object root ∈ before ∧ References.Reaches graph.fields root object
  covers : ∀ root ∈ graph.roots, heap.color root = .gray ∨
    .object root ∈ after ∧ heap.color root = .purple
  purple : ∀ root, .object root ∈ after → heap.color root = .purple → root ∈ graph.roots

/-- The roots that are left when everything has been marked. -/
structure Sources (graph : References ι) (roots : List (ListNode ι)) : Prop where
  inside : ∀ root, .object root ∈ roots → root ∈ graph.subgraph
  apart : roots.Pairwise fun root other => ¬ Leads graph.fields root other
  covers : ∀ object ∈ graph.subgraph,
    ∃ root, .object root ∈ roots ∧ References.Reaches graph.fields root object

/-- A ring of objects that only the references from the outside of it hold. -/
def Candidate (fields : ι → List ι) (count : ι → Nat) (heap : Heap ι)
    (strand : Strand (ListNode ι)) : Prop :=
  ∀ object, .object object ∈ strand.members → heap.color object = .orange ∧
    heap.cyclic object + References.refs fields (objects strand.members) object = count object

/-- The older of two cycles does not refer to the newer one. -/
def Older (fields : ι → List ι) (newer older : Strand (ListNode ι)) : Prop :=
  ∀ object, .object object ∈ older.members → ∀ child ∈ fields object,
    .object child ∉ newer.members

/-- The white objects that have been taken to a cycle and those that have not. -/
structure Gathered (graph : References ι) (heap : Heap ι) (layout : Layout ι)
    (ahead : ι → Prop) : Prop where
  inside : ∀ root, .object root ∈ layout.roots → root ∈ graph.subgraph
  apart : layout.roots.Pairwise fun root other => ¬ Leads graph.fields root other
  garbage : ∀ object, .object object ∈ Strand.all layout.others → object ∈ graph.garbage
  white : ∀ object ∈ graph.garbage,
    heap.color object = .white ↔ .object object ∉ Strand.all layout.others
  black : ∀ object ∈ graph.subgraph, object ∉ graph.garbage → heap.color object = .black
  closed : ∀ object, .object object ∈ Strand.all layout.others → ahead object ∨
    ∀ child ∈ graph.fields object, heap.color child ≠ .white
  source : ∀ object ∈ graph.subgraph, heap.color object = .white → ∃ root,
    (.object root ∈ layout.roots ∨ .object root ∈ Strand.all layout.current) ∧
      References.Reaches graph.fields root object
  cycles : ∀ strand ∈ layout.cycles, Candidate graph.fields graph.count heap strand
  order : layout.cycles.Pairwise (Older graph.fields)
  older : ∀ strand ∈ layout.current, ∀ strand' ∈ layout.cycles,
    Older graph.fields strand strand'

/-- Where a loop around a ring stands: what follows an object, of which the last
part has been seen. -/
def Around (cycle p : ι) (nodes seen : List (ListNode ι)) : Prop :=
  ∃ todo, nodes = todo ++ seen ∧ (seen ++ [ListNode.object p]).head? = some (.object cycle)

omit [DecidableEq ι] in
theorem Around.turn {cycle p q : ι} {nodes seen rest : List (ListNode ι)}
    (around : Around cycle p nodes seen) (nodup : (.object p :: nodes).Nodup)
    (turned : nodes ++ [.object p] = .object q :: rest) :
    (q = cycle → .object q :: rest = seen ++ [.object p]) ∧
      (q ≠ cycle → Around cycle q rest (seen ++ [.object p])) := by
  obtain ⟨todo, rfl, first⟩ := around
  cases todo with
  | nil =>
    rw [List.nil_append] at turned
    rw [turned, List.head?_cons, Option.some.injEq, ListNode.object.injEq] at first
    exact ⟨fun _ => turned.symm, fun other => absurd first other⟩
  | cons node todo =>
    rw [List.cons_append, List.cons_append, List.cons.injEq] at turned
    obtain ⟨rfl, rfl⟩ := turned
    constructor
    · rintro rfl
      have member : .object q ∈ seen ++ [ListNode.object p] := List.mem_of_head? first
      simp only [List.cons_append, List.nodup_cons, List.mem_cons, List.mem_append,
        not_or] at nodup
      rcases List.mem_append.mp member with member | member
      · exact absurd member nodup.2.1.2
      · exact absurd (List.mem_singleton.mp member).symm nodup.1.1
    · intro _
      refine ⟨todo, by rw [List.append_assoc], ?_⟩
      rw [List.head?_append, first]
      rfl

namespace Control

/-- What is known of the objects where the code stands. -/
def Trial (graph : References ι) (heap : Heap ι) (layout : Layout ι) : Control ι → Prop
  | prescan p => layout.cycles = [] ∧ Rooted graph heap layout ∧
      ∃ before after, layout.roots = before ++ .object p :: after ∧
        Awaited graph heap fun start => .object start ∈ .object p :: after
  | mark p q => layout.cycles = [] ∧ ∃ before after done,
      layout.roots = before ++ .object q :: after ∧ p = before.getLast?.getD .roots ∧
      Marked graph heap done [] ∧ Kept graph heap before (.object q :: after) done []
  | scan p => layout.cycles = [] ∧ Sources graph layout.roots ∧ Scanned graph heap [] ∧
      ∃ before after, layout.roots = before ++ .object p :: after ∧
      ∀ root, .object root ∈ before → heap.color root ≠ .gray
  | collect => Gathered graph heap layout fun _ => False
  | round .scanRed cycle p => Gathered graph heap layout (fun _ => False) ∧ ∃ nodes seen,
      layout.current = [⟨.object p, nodes, some (.object p)⟩] ∧ Around cycle p nodes seen ∧
      ∀ object, .object object ∈ Strand.all layout.current → heap.color object = .red ∧
        heap.cyclic object + References.refs graph.fields (objects seen) object =
          graph.count object
  | round .orange cycle p => Gathered graph heap layout (fun _ => False) ∧ ∃ nodes seen,
      layout.current = [⟨.object p, nodes, some (.object p)⟩] ∧ Around cycle p nodes seen ∧
      (∀ object, .object object ∈ seen → heap.color object = .orange) ∧
      ∀ object, .object object ∈ Strand.all layout.current → heap.cyclic object +
        References.refs graph.fields (objects (Strand.all layout.current)) object =
          graph.count object
  | traverse pass object stack => (object :: stack).Nodup ∧ match pass with
    | .prescanBlack p => layout.cycles = [] ∧ Rooted graph heap layout ∧
        (∀ other ∈ object :: stack, other ∈ graph.live ∧ heap.Known other) ∧
        ∃ before after, layout.roots = before ++ .object p :: after ∧
        Awaited graph heap fun start => start ∈ object :: stack ∨ .object start ∈ after
    | .markGray q => layout.cycles = [] ∧ ∃ before after done,
        layout.roots = before ++ .object q :: after ∧
        Marked graph heap done (object :: stack) ∧
        Kept graph heap (before ++ [.object q]) after done (object :: stack)
    | .scanBlack p => layout.cycles = [] ∧ Sources graph layout.roots ∧
        Scanned graph heap (object :: stack) ∧
        (∀ other ∈ object :: stack, other ∈ graph.subgraph ∧ heap.color other = .black) ∧
        ∃ before after, layout.roots = before ++ .object p :: after ∧
        ∀ root, .object root ∈ before ++ [.object p] → heap.color root ≠ .gray
    | .scanGray p => layout.cycles = [] ∧ Sources graph layout.roots ∧
        Scanned graph heap (object :: stack) ∧
        (∀ other ∈ object :: stack, other ∈ graph.subgraph) ∧ Shaded heap stack ∧
        (heap.color object = .black ∨ object ∉ graph.held) ∧
        (object = p ∨ heap.color p ≠ .gray) ∧
        ∃ before after, layout.roots = before ++ .object p :: after ∧
        ∀ root, .object root ∈ before → heap.color root ≠ .gray
    | .collectWhite cycle => Gathered graph heap layout (· ∈ object :: stack) ∧
        (∀ other ∈ object :: stack, .object other ∈ Strand.all layout.current) ∧
        (∀ other, .object other ∈ Strand.all layout.current → heap.color other = .red ∧
          heap.cyclic other = graph.count other ∧
          References.Reaches graph.fields cycle other) ∧
        ∀ root, .object root ∈ layout.roots → ¬ References.Reaches graph.fields cycle root
  | epoch => layout.roots = [] ∧ Gathered graph heap layout fun _ => False
  | _ => False

/-- What the step that is taken next finds in the fields that it looks at. -/
def report (fields : ι → List ι) : Control ι → List ι
  | traverse _ object _ => fields object
  | round .scanRed _ p => fields p
  | round .drop _ p => fields p
  | release object _ _ => fields object
  | _ => []

end Control

/-- The state of a collection that nothing disturbs. -/
structure Exact (graph : References ι) (freed : List ι) (state : State ι)
    (layout : Layout ι) : Prop where
  sound : Sound state layout
  counted : Counted graph freed state.heap
  trial : state.control.Trial graph state.heap layout

/-- A turn that a collection takes when nothing disturbs it. -/
def Advances (graph : References ι) (freed : List ι) (state : State ι)
    (layout : Layout ι) : Prop :=
  ∃ after layout', state.tick (state.control.report graph.fields) = some after ∧
    Turned state layout after layout' ∧ Exact graph freed after layout'

theorem advances_of {graph : References ι} {freed : List ι} {state after : State ι}
    {layout layout' : Layout ι}
    (taken : state.tick (state.control.report graph.fields) = some after)
    (turned : Turned state layout after layout')
    (kept : Counted graph freed after.heap ∧ after.control.Trial graph after.heap layout') :
    Advances graph freed state layout :=
  ⟨after, layout', taken, turned, turned.sound, kept.1, kept.2⟩

section Passes

variable {graph : References ι} {freed : List ι} {heap : Heap ι} {cycles : List ι}
  {garbage : Option ι} {layout : Layout ι}

theorem live_fields (counted : Counted graph freed heap) {object : ι}
    (member : object ∈ graph.live) : ∀ child ∈ graph.fields object, heap.live child = true :=
  fun child field => (counted.live child).mpr (graph.closed object member child field)

theorem live_root (listed : Listed heap layout) (counted : Counted graph freed heap) {root : ι}
    (member : .object root ∈ layout.roots) : root ∈ graph.live := by
  rw [← counted.live, Heap.live, Bool.and_eq_true]
  exact ⟨listed.owned root (Layout.mem_strands.mpr (Or.inr (Or.inl member))),
    listed.typed root member⟩

theorem exact_prescan {control : Control ι} {p : ι} {before after : List (ListNode ι)}
    {state : State ι} (listed : Listed heap layout) (counted : Counted graph freed heap)
    (place : layout.roots = before ++ .object p :: after) (none : layout.cycles = [])
    (rooted : Rooted graph heap layout)
    (awaited : Awaited graph heap fun start => .object start ∈ after)
    (taken : State.leave ⟨heap, cycles, garbage, control⟩ (.prescanBlack p) = some state) :
    Counted graph freed state.heap ∧ state.control.Trial graph state.heap layout := by
  rcases advance_eq cycles garbage control listed place .prescan
    (State.markMore ⟨heap, cycles, garbage, control⟩ .roots) with ⟨rfl, same⟩ | ⟨q, rest, rfl, same⟩
  · have unmarked : ∀ object ∈ graph.subgraph, heap.color object ≠ .gray := by
      intro object member dark
      obtain ⟨_, start, _⟩ := awaited object member dark
      exact List.not_mem_nil start
    have marked : Marked graph heap ∅ [] := by
      refine ⟨by simp, ?_, by simp, by simp, ?_⟩
      · intro object member
        simp [unmarked object member]
      · intro object member dark
        exact absurd dark (unmarked object member)
    obtain ⟨q, rest, first, same'⟩ : ∃ q rest, layout.roots = .object q :: rest ∧
        State.markMore ⟨heap, cycles, garbage, control⟩ .roots =
          some ⟨heap, cycles, garbage, .mark .roots q⟩ := by
      rcases markMore_eq cycles garbage control listed (List.nil_append layout.roots).symm with
        ⟨q, rest, first, same'⟩ | ⟨empty, _⟩ | ⟨empty, _⟩
      · exact ⟨q, rest, first, same'⟩
      · simp [place] at empty
      · simp [place] at empty
    obtain rfl := Option.some.inj ((same.trans same').symm.trans taken)
    refine ⟨counted, none, [], rest, ∅, first, rfl, marked, by simp, List.Pairwise.nil, by simp,
      ?_, ?_⟩
    · intro root start
      rw [← first]
      exact Or.inr ((rooted root).mp start)
    · intro root member purple
      rw [← first] at member
      exact (rooted root).mpr ⟨member, purple⟩
  · obtain rfl := Option.some.inj (same.symm.trans taken)
    exact ⟨counted, none, rooted, before ++ [.object p], rest, by simp [place], awaited⟩

/-- `f_prescan_black` starts. -/
theorem advances_prescan {p : ι}
    (held : Exact graph freed ⟨heap, cycles, garbage, .prescan p⟩ layout) :
    Advances graph freed ⟨heap, cycles, garbage, .prescan p⟩ layout := by
  obtain ⟨none, rooted, before, after, place, awaited⟩ := held.trial
  have live : p ∈ graph.live :=
    live_root held.sound.listed held.counted held.sound.stands
  have color : ∀ other, (heap.prescanBlack p).color other =
      if other = p ∧ heap.color p ≠ .purple then .black else heap.color other := by
    intro other
    unfold Heap.prescanBlack
    split
    · rename_i shade
      simp [Heap.paint, Function.update_apply, shade]
    · rename_i shade
      simp only [shade, and_false, if_false]
  have alike : heap.Alike (heap.prescanBlack p) := by
    unfold Heap.prescanBlack
    split <;> exact ⟨rfl, rfl, rfl, rfl, rfl⟩
  have known : (heap.prescanBlack p).Known p := by
    unfold Heap.Known
    rw [color]
    by_cases shade : heap.color p = .purple <;> simp [shade]
  have still : ∀ other, other ≠ p →
      (heap.prescanBlack p).color other = heap.color other := by
    intro other different
    rw [color, if_neg fun both => different both.1]
  refine ⟨_, _, rfl, turned_prescan held.sound, (turned_prescan held.sound).sound,
    held.counted.alike alike, List.nodup_singleton p, none, ?_, ?_, before, after, place, ?_⟩
  · intro object
    rw [rooted object]
    refine and_congr_right fun _ => ?_
    by_cases same : object = p
    · subst same
      rw [color]
      by_cases shade : heap.color object = .purple <;> simp [shade]
    · rw [still object same]
  · intro other member
    rw [List.mem_singleton.mp member]
    exact ⟨live, known⟩
  · refine awaited.painted (· = p) ?_ ?_ ?_ ?_
    · intro other now
      by_cases same : other = p
      · exact Or.inr same
      · exact Or.inl (by simpa only [Heap.Known, still other same] using now)
    · intro other dark
      rw [color] at dark
      split at dark
      · cases dark
      · exact dark
    · exact fun other same => Or.inl (List.mem_singleton.mpr same)
    · intro start first
      rcases List.mem_cons.mp first with same | later
      · cases same
        exact Or.inl (Or.inl (List.mem_singleton_self _))
      · exact Or.inl (Or.inr later)

/-- A step of a pass, and what follows it when the stack is empty. -/
theorem advances_visit {pass : Pass ι} (other : ∀ cycle, pass ≠ .collectWhite cycle)
    {object : ι} {stack : List ι} {walk : Walk ι}
    (sound : Sound ⟨heap, cycles, garbage, .traverse pass object stack⟩ layout)
    (counted : Counted graph freed heap) (live : object ∈ graph.live)
    (stepped : pass.step object (graph.fields object) ⟨heap, stack⟩ = walk)
    (alike : heap.Alike walk.heap)
    (more : ∀ next rest, walk.stack = next :: rest →
      (Control.traverse pass next rest).Trial graph walk.heap layout)
    (last : walk.stack = [] → ∀ state, Listed walk.heap layout →
      State.leave ⟨walk.heap, cycles, garbage, .traverse pass object stack⟩ pass = some state →
      Counted graph freed state.heap ∧ state.control.Trial graph state.heap layout) :
    Advances graph freed ⟨heap, cycles, garbage, .traverse pass object stack⟩ layout := by
  have reported := live_fields counted live
  obtain ⟨state, taken, turned⟩ := turned_visit other sound reported
  have listed : Listed walk.heap layout := by
    obtain ⟨⟨color, cyclic, same⟩, _⟩ := pass_step other object (graph.fields object) ⟨heap, stack⟩
    rw [← stepped, same]
    exact sound.listed.congr rfl rfl rfl (fun _ _ => rfl)
  refine advances_of taken turned ?_
  have guard : heap.typed object = true ∧ (graph.fields object).all heap.live = true :=
    ⟨sound.stands.1 object List.mem_cons_self, List.all_eq_true.mpr reported⟩
  unfold State.visit at taken
  rw [if_pos guard] at taken
  simp only [stepped] at taken
  cases rest : walk.stack with
  | nil =>
    rw [rest] at taken
    exact last rest state listed taken
  | cons next stack' =>
    rw [rest] at taken
    obtain rfl := Option.some.inj taken
    exact ⟨counted.alike alike, more next stack' rest⟩

theorem advances_prescanBlack {p object : ι} {stack : List ι}
    (held : Exact graph freed ⟨heap, cycles, garbage, .traverse (.prescanBlack p) object stack⟩
      layout) :
    Advances graph freed ⟨heap, cycles, garbage, .traverse (.prescanBlack p) object stack⟩
      layout := by
  obtain ⟨nodup, none, rooted, members, before, after, place, awaited⟩ := held.trial
  have live := (members object List.mem_cons_self).1
  obtain ⟨alike, purple, stacked, nodup', known, awaited'⟩ := prescanned_step rfl awaited
    (fun other member => (members other member).2)
    (List.nodup_cons.mp nodup).2
  have rooted' : Rooted graph
      ((graph.fields object).foldl Walk.prescanBlackPush ⟨heap, stack⟩).heap layout := by
    intro root
    rw [rooted root, purple root]
  refine advances_visit nofun held.sound held.counted live rfl alike ?_ ?_
  · intro next rest same
    simp only [Pass.step] at same ⊢
    rw [same] at nodup' stacked known awaited'
    refine ⟨nodup', none, rooted', ?_, before, after, place, awaited'⟩
    intro other member
    refine ⟨?_, known other member⟩
    rcases stacked other member with field | member
    · exact graph.closed object live other field
    · exact (members other (List.mem_cons_of_mem _ member)).1
  · intro last state listed left
    simp only [Pass.step] at last
    simp only [last, List.not_mem_nil, false_or] at awaited'
    exact exact_prescan listed (held.counted.alike alike) place none rooted' awaited' left

theorem gathered_none (nothing : ∀ object, object ∉ graph.subgraph) (none : layout.roots = [])
    (empty : layout.current = []) (clean : layout.garbage = []) (single : layout.cycles = []) :
    Gathered graph heap layout fun _ => False := by
  have unlisted : Strand.all layout.others = [] := by
    simp [Layout.others, empty, clean, single]
  have bare : ∀ object, object ∉ graph.garbage :=
    fun object member => nothing object (References.mem_garbage.mp member).1
  refine ⟨?_, ?_, ?_, ?_, ?_, ?_, ?_, ?_, ?_, ?_⟩
  · rw [none]
    simp
  · rw [none]
    exact List.Pairwise.nil
  · rw [unlisted]
    simp
  · exact fun object member => absurd member (bare object)
  · exact fun object member => absurd member (nothing object)
  · rw [unlisted]
    simp
  · exact fun object member => absurd member (nothing object)
  · rw [single]
    simp
  · rw [single]
    exact List.Pairwise.nil
  · rw [empty]
    simp

theorem exact_mark {control : Control ι} {before after : List (ListNode ι)} {state : State ι}
    {done : Finset ι} (listed : Listed heap layout) (counted : Counted graph freed heap)
    (place : layout.roots = before ++ after) (none : layout.cycles = [])
    (empty : layout.current = []) (clean : layout.garbage = [])
    (marked : Marked graph heap done []) (kept : Kept graph heap before after done [])
    (taken : State.markMore ⟨heap, cycles, garbage, control⟩ (before.getLast?.getD .roots) =
      some state) :
    Counted graph freed state.heap ∧ state.control.Trial graph state.heap layout := by
  rcases markMore_eq cycles garbage control listed place with
    ⟨q, rest, rfl, same⟩ | ⟨rfl, r, rest, rfl, same⟩ | ⟨rfl, rfl, same⟩
  · obtain rfl := Option.some.inj (same.symm.trans taken)
    exact ⟨counted, none, before, rest, done, place, rfl, marked, kept⟩
  · obtain rfl := Option.some.inj (same.symm.trans taken)
    rw [List.append_nil] at place
    have all : ∀ object ∈ graph.subgraph, object ∈ done := by
      intro object member
      obtain ⟨_, root, start, leads⟩ := References.mem_subgraph.mp member
      have dark := (kept.covers root start).resolve_right (by simp)
      have inside := (marked.gray root (References.roots_subgraph start)).mp dark
      exact marked.reaches (inside.resolve_right List.not_mem_nil) leads
    have whole : done = graph.subgraph := by
      ext object
      exact ⟨fun member => marked.inside object (Or.inl member), all object⟩
    refine ⟨counted, none, ⟨?_, ?_, ?_⟩, scanned_start (whole ▸ marked), [], rest, place, nofun⟩
    · intro root member
      rw [place] at member
      exact marked.inside root (kept.marked root member)
    · rw [place]
      exact kept.apart
    · intro object member
      rw [place]
      exact kept.source object (Or.inl (all object member))
  · obtain rfl := Option.some.inj (same.symm.trans taken)
    have nothing : ∀ object, object ∉ graph.subgraph := by
      intro object member
      obtain ⟨_, root, start, leads⟩ := References.mem_subgraph.mp member
      have dark := (kept.covers root start).resolve_right (by simp)
      have inside := (marked.gray root (References.roots_subgraph start)).mp dark
      obtain ⟨source, first, _⟩ := kept.source root inside
      cases first
    exact ⟨counted.alike ⟨rfl, rfl, rfl, rfl, rfl⟩, place,
      gathered_none nothing place empty clean none⟩

theorem advances_mark {p : ListNode ι} {q : ι}
    (held : Exact graph freed ⟨heap, cycles, garbage, .mark p q⟩ layout) :
    Advances graph freed ⟨heap, cycles, garbage, .mark p q⟩ layout := by
  obtain ⟨single, before, after, done, place, rfl, marked, kept⟩ := held.trial
  have clean : layout.garbage = [] := held.sound.clean rfl
  by_cases purple : heap.color q = .purple
  · have start : q ∈ graph.roots := kept.purple q List.mem_cons_self purple
    have inside := References.roots_subgraph start
    have light : heap.color q ≠ .gray := by
      rw [purple]
      nofun
    obtain ⟨marked', alike⟩ := marked_root marked held.counted inside light
    have fresh : q ∉ done := fun member => light ((marked.gray q inside).mpr (Or.inl member))
    have turned := turned_gray held.sound
    refine ⟨_, _, ?_, turned, turned.sound, held.counted.alike alike, List.nodup_singleton q,
      single, before, after, done, place, marked', ?_, ?_, ?_, ?_, ?_⟩
    · simp only [State.tick, purple, if_true]
    · intro root member
      rcases List.mem_append.mp member with member | member
      · exact Or.inl ((kept.marked root member).resolve_right List.not_mem_nil)
      · exact Or.inr (by simpa using member)
    · refine List.pairwise_append.mpr ⟨kept.apart, List.pairwise_singleton _ _, ?_⟩
      intro node member node' member' leads
      rw [List.mem_singleton.mp member'] at leads
      cases node with
      | roots => exact leads
      | object root =>
        have seen := (kept.marked root member).resolve_right List.not_mem_nil
        exact fresh (marked.reaches seen leads)
    · intro object member
      rcases member with member | member
      · obtain ⟨root, first, leads⟩ := kept.source object (Or.inl member)
        exact ⟨root, List.mem_append_left _ first, leads⟩
      · rw [List.mem_singleton.mp member]
        exact ⟨q, by simp, .refl⟩
    · intro root start
      by_cases same : root = q
      · left
        rw [same]
        simp [Heap.markGray, Heap.setCyclic, Heap.paint]
      · simp only [Heap.markGray, Heap.setCyclic, Heap.paint, Function.update_of_ne same]
        refine (kept.covers root start).imp_right fun waits => ⟨?_, waits.2⟩
        have member := waits.1
        simp only [List.mem_cons, ListNode.object.injEq, same, false_or] at member
        exact member
    · intro root member shade
      by_cases same : root = q
      · rw [same]
        exact start
      · simp only [Heap.markGray, Heap.setCyclic, Heap.paint, Function.update_of_ne same] at shade
        exact kept.purple root (List.mem_cons_of_mem _ member) shade
  · obtain ⟨state, taken, turned⟩ := turned_unmark held.sound place rfl
    have listed := held.sound.listed.unroot place
    have empty : layout.current = [] := List.map_eq_nil_iff.mp held.sound.current
    have marked' : Marked graph ((heap.setNext (before.getLast?.getD .roots)
        (heap.next (.object q))).setNext (.object q) none) done [] :=
      ⟨marked.inside, marked.gray, marked.fresh, marked.spread, marked.cyclic⟩
    have kept' : Kept graph ((heap.setNext (before.getLast?.getD .roots)
        (heap.next (.object q))).setNext (.object q) none) before after done [] := by
      refine ⟨kept.marked, kept.apart, kept.source, ?_, ?_⟩
      · intro root start
        refine (kept.covers root start).imp_right fun waits => ⟨?_, waits.2⟩
        rcases List.mem_cons.mp waits.1 with same | member
        · cases same
          exact absurd waits.2 purple
        · exact member
      · exact fun root member => kept.purple root (List.mem_cons_of_mem _ member)
    refine advances_of ?_ turned (exact_mark listed
      (held.counted.alike ⟨rfl, rfl, rfl, rfl, rfl⟩) rfl single empty clean marked' kept' taken)
    simp only [State.tick, purple, if_false]
    exact taken

theorem advances_markGray {q object : ι} {stack : List ι}
    (held : Exact graph freed ⟨heap, cycles, garbage, .traverse (.markGray q) object stack⟩
      layout) :
    Advances graph freed ⟨heap, cycles, garbage, .traverse (.markGray q) object stack⟩ layout := by
  obtain ⟨nodup, single, before, after, done, place, marked, kept⟩ := held.trial
  have inside := marked.inside object (Or.inr List.mem_cons_self)
  obtain ⟨alike, marked', nodup', _, stacked, dark, purple⟩ :=
    marked_step rfl marked held.counted nodup
  have kept' : Kept graph ((graph.fields object).foldl Walk.markGrayPush ⟨heap, stack⟩).heap
      (before ++ [.object q]) after (insert object done)
      ((graph.fields object).foldl Walk.markGrayPush ⟨heap, stack⟩).stack := by
    refine ⟨?_, kept.apart, ?_, ?_, fun root member shade => kept.purple root member (purple root shade)⟩
    · intro root member
      have place : root ∈ graph.subgraph := marked.inside root (kept.marked root member)
      exact (marked'.gray root place).mp (dark root ((marked.gray root place).mpr
        (kept.marked root member)))
    · have old : ∀ other, other ∈ done ∨ other ∈ object :: stack → ∃ root,
          .object root ∈ before ++ [.object q] ∧ References.Reaches graph.fields root other :=
        kept.source
      intro other member
      rcases member with member | member
      · rcases Finset.mem_insert.mp member with rfl | member
        · exact old other (Or.inr List.mem_cons_self)
        · exact old other (Or.inl member)
      · rcases stacked other member with field | member
        · obtain ⟨root, first, leads⟩ := old object (Or.inr List.mem_cons_self)
          exact ⟨root, first, leads.tail field⟩
        · exact old other (Or.inr (List.mem_cons_of_mem _ member))
    · intro root start
      by_cases shade : ((graph.fields object).foldl Walk.markGrayPush ⟨heap, stack⟩).heap.color
          root = .gray
      · exact Or.inl shade
      · rcases kept.covers root start with old | ⟨member, old⟩
        · exact Or.inl (dark root old)
        · refine Or.inr ⟨member, ?_⟩
          obtain ⟨pushed, result, _⟩ := foldl_markGrayPush (graph.fields object) ⟨heap, stack⟩
          rw [result] at shade ⊢
          simp only at shade ⊢
          split at shade
          · exact absurd rfl shade
          · rename_i out
            rw [if_neg out]
            exact old
  refine advances_visit nofun held.sound held.counted (References.subgraph_live inside) rfl alike
    ?_ ?_
  · intro next rest same
    simp only [Pass.step] at same ⊢
    rw [same] at nodup' marked' kept'
    exact ⟨nodup', single, before, after, _, place, marked', kept'⟩
  · intro empty state listed left
    simp only [Pass.step] at empty
    rw [empty] at marked' kept'
    have place' : layout.roots = (before ++ [.object q]) ++ after := by
      rw [place]
      simp
    have joint : (before ++ [ListNode.object q]).getLast?.getD .roots = .object q := by
      rw [List.getLast?_concat, Option.getD_some]
    have left' : State.markMore ⟨_, cycles, garbage, .traverse (.markGray q) object stack⟩
        (.object q) = some state := left
    rw [← joint] at left'
    exact exact_mark listed (held.counted.alike alike) place' single
      (List.map_eq_nil_iff.mp held.sound.current) (held.sound.clean rfl) marked' kept' left'

theorem exact_scan {control : Control ι} {p : ι}
    {before after : List (ListNode ι)} {state : State ι} (listed : Listed heap layout)
    (counted : Counted graph freed heap) (place : layout.roots = before ++ .object p :: after)
    (single : layout.cycles = []) (empty : layout.current = []) (clean : layout.garbage = [])
    (sources : Sources graph layout.roots) (scanned : Scanned graph heap [])
    (seen : ∀ root, .object root ∈ before ++ [.object p] → heap.color root ≠ .gray)
    (taken : State.advance ⟨heap, cycles, garbage, control⟩ p .scan
      (some ⟨heap, cycles, garbage, .collect⟩) = some state) :
    Counted graph freed state.heap ∧ state.control.Trial graph state.heap layout := by
  rcases advance_eq cycles garbage control listed place .scan
    (some ⟨heap, cycles, garbage, .collect⟩) with ⟨rfl, same⟩ | ⟨q, rest, rfl, same⟩
  · obtain rfl := Option.some.inj (same.symm.trans taken)
    have colors : ∀ object ∈ graph.subgraph,
        (heap.color object = .white ↔ object ∈ graph.garbage) ∧
          (heap.color object = .black ↔ object ∉ graph.garbage) := by
      intro object member
      refine scanned.white_iff ?_ member
      intro root start
      obtain ⟨source, first, leads⟩ := sources.covers root (References.roots_subgraph start)
      rw [place] at first
      exact ⟨source, sources.inside source (by rw [place]; exact first), seen source first, leads⟩
    have unlisted : Strand.all layout.others = [] := by
      simp [Layout.others, empty, clean, single]
    refine ⟨counted, sources.inside, sources.apart, ?_, ?_, ?_, ?_, ?_, ?_, ?_, ?_⟩
    · rw [unlisted]
      simp
    · intro object member
      rw [unlisted]
      simpa using (colors object (References.mem_garbage.mp member).1).1.mpr member
    · exact fun object member => (colors object member).2.mpr
    · rw [unlisted]
      simp
    · intro object member _
      obtain ⟨root, first, leads⟩ := sources.covers object member
      exact ⟨root, Or.inl first, leads⟩
    · rw [single]
      simp
    · rw [single]
      exact List.Pairwise.nil
    · rw [single]
      simp
  · obtain rfl := Option.some.inj (same.symm.trans taken)
    exact ⟨counted, single, sources, scanned, before ++ [.object p], rest, by simp [place], seen⟩

theorem advances_scan {p : ι}
    (held : Exact graph freed ⟨heap, cycles, garbage, .scan p⟩ layout) :
    Advances graph freed ⟨heap, cycles, garbage, .scan p⟩ layout := by
  obtain ⟨single, sources, scanned, before, after, place, seen⟩ := held.trial
  have inside : p ∈ graph.subgraph := sources.inside p (by rw [place]; simp)
  have empty : layout.current = [] := List.map_eq_nil_iff.mp held.sound.current
  have clean : layout.garbage = [] := held.sound.clean rfl
  obtain ⟨state, taken, turned⟩ := turned_scan [] held.sound
  refine advances_of taken turned ?_
  simp only [State.tick] at taken
  split at taken
  · rename_i light
    refine exact_scan held.sound.listed held.counted place single empty
      clean sources scanned ?_ taken
    intro root member
    rcases List.mem_append.mp member with member | member
    · exact seen root member
    · simp only [List.mem_singleton, ListNode.object.injEq] at member
      rw [member]
      exact light
  · rename_i dark
    rw [ne_eq, not_not] at dark
    split at taken
    · rename_i counts
      obtain rfl := Option.some.inj taken
      have scanned' := scanned_root scanned ((scanned.weighed p inside).mp counts)
      have here : (heap.paint p .black).color p = .black := Function.update_self _ _ _
      refine ⟨held.counted.alike ⟨rfl, rfl, rfl, rfl, rfl⟩, List.nodup_singleton p, single,
        sources, scanned', ?_, before, after, place, ?_⟩
      · intro other member
        rw [List.mem_singleton.mp member]
        exact ⟨inside, here⟩
      · intro root member shade
        by_cases same : root = p
        · subst same
          rw [here] at shade
          cases shade
        · simp only [List.mem_append, List.mem_singleton, ListNode.object.injEq, same,
            or_false] at member
          exact seen root member ((Function.update_of_ne same _ _).symm.trans shade)
    · rename_i counts
      obtain rfl := Option.some.inj taken
      have free : p ∉ graph.held := fun member => counts ((scanned.weighed p inside).mpr member)
      refine ⟨held.counted, List.nodup_singleton p, single, sources, scanned.more _, ?_,
        (by rintro _ ⟨⟩), Or.inr free, Or.inl rfl, before, after, place, seen⟩
      intro other member
      rw [List.mem_singleton.mp member]
      exact inside

theorem advances_scanBlack {p object : ι} {stack : List ι}
    (held : Exact graph freed ⟨heap, cycles, garbage, .traverse (.scanBlack p) object stack⟩
      layout) :
    Advances graph freed ⟨heap, cycles, garbage, .traverse (.scanBlack p) object stack⟩
      layout := by
  obtain ⟨nodup, single, sources, scanned, pending, before, after, place, seen⟩ := held.trial
  obtain ⟨inside, black⟩ := pending object List.mem_cons_self
  have still : ∀ other ∈ graph.subgraph, heap.color other ≠ .whiting := by
    intro other place shade
    have dark : heap.color other = .black :=
      (pending other (scanned.whiting other place shade)).2
    rw [shade] at dark
    cases dark
  obtain ⟨alike, scanned', shaded, nodup', stacked, changes⟩ := @scanned_black ι _ graph heap
    object stack (fun _ => true) ((graph.fields object).foldl Walk.scanBlackPush ⟨heap, stack⟩) rfl
    scanned inside black
    (fun other member => Or.inl (pending other (List.mem_cons_of_mem _ member)).2)
    (List.nodup_cons.mp nodup).2 (fun other place => by simp [still other place])
  have seen' : ∀ root, .object root ∈ before ++ [ListNode.object p] →
      ((graph.fields object).foldl Walk.scanBlackPush ⟨heap, stack⟩).heap.color root ≠ .gray := by
    intro root member shade
    rcases changes root with same | same
    · exact seen root member (same.symm.trans shade)
    · have dark := same.symm.trans shade
      cases dark
  refine advances_visit nofun held.sound held.counted (References.subgraph_live inside) rfl alike
    ?_ ?_
  · intro next rest same
    simp only [Pass.step] at same ⊢
    change ((graph.fields object).foldl Walk.scanBlackPush ⟨heap, stack⟩).stack = _ at same
    rw [same] at scanned' shaded nodup' stacked
    refine ⟨nodup', single, sources, scanned', ?_, before, after, place, seen'⟩
    intro other member
    have within : other ∈ graph.subgraph := by
      rcases stacked other member with field | old
      · exact References.subgraph_closed object inside other field
      · exact (pending other (List.mem_cons_of_mem _ old)).1
    refine ⟨within, (shaded other member).resolve_right fun shade => ?_⟩
    rcases changes other with same | same
    · exact still other within (same.symm.trans shade)
    · have dark := same.symm.trans shade
      cases dark
  · intro empty state listed left
    simp only [Pass.step] at empty
    rw [empty] at scanned'
    exact exact_scan listed (held.counted.alike alike) place single
      (List.map_eq_nil_iff.mp held.sound.current) (held.sound.clean rfl) sources scanned' seen' left

theorem advances_scanGray {p object : ι} {stack : List ι}
    (held : Exact graph freed ⟨heap, cycles, garbage, .traverse (.scanGray p) object stack⟩
      layout) :
    Advances graph freed ⟨heap, cycles, garbage, .traverse (.scanGray p) object stack⟩ layout := by
  obtain ⟨nodup, single, sources, scanned, members, shaded, shade, place', before, after, place,
    seen⟩ := held.trial
  have inside := members object List.mem_cons_self
  obtain ⟨walk, stepped⟩ : ∃ walk,
      (Pass.scanGray p).step object (graph.fields object) ⟨heap, stack⟩ = walk := ⟨_, rfl⟩
  have kept : heap.Alike walk.heap ∧ Scanned graph walk.heap walk.stack ∧
      Shaded walk.heap walk.stack ∧ walk.stack.Nodup ∧
      (∀ other ∈ walk.stack, other ∈ graph.fields object ∨ other ∈ stack) ∧
      (∀ other, walk.heap.color other = .gray → heap.color other = .gray) ∧
      walk.heap.color p ≠ .gray := by
    simp only [Pass.step] at stepped
    by_cases black : heap.color object = .black
    · rw [if_pos black] at stepped
      obtain ⟨alike, scanned', shaded', nodup', stacked, changes⟩ := scanned_black stepped scanned
        inside black shaded (List.nodup_cons.mp nodup).2 (fun _ _ => by simp)
      have gray : ∀ other, walk.heap.color other = .gray → heap.color other = .gray := by
        intro other dark
        rcases changes other with same | same
        · exact same.symm.trans dark
        · rw [dark] at same
          cases same
      refine ⟨alike, scanned', shaded', nodup', stacked, gray, fun dark => ?_⟩
      rcases place' with rfl | light
      · have both := (gray object dark).symm.trans black
        cases both
      · exact light (gray p dark)
    · rw [if_neg black] at stepped
      obtain ⟨alike, scanned', shaded', nodup', stacked, white, gray⟩ := scanned_white stepped
        scanned black (shade.resolve_left black) shaded nodup
      refine ⟨alike, scanned', shaded', nodup', stacked, gray, fun dark => ?_⟩
      rcases place' with rfl | light
      · rw [white] at dark
        cases dark
      · exact light (gray p dark)
  obtain ⟨alike, scanned', shaded', nodup', stacked, gray, light⟩ := kept
  refine advances_visit (by simp) held.sound held.counted (References.subgraph_live inside) stepped
    alike ?_ ?_
  · intro next rest same
    rw [same] at scanned' shaded' nodup' stacked
    have within : ∀ other ∈ next :: rest, other ∈ graph.subgraph := by
      intro other member
      rcases stacked other member with field | old
      · exact References.subgraph_closed object inside other field
      · exact members other (List.mem_cons_of_mem _ old)
    refine ⟨nodup', single, sources, scanned', within,
      fun other member => shaded' other (List.mem_cons_of_mem _ member), ?_, Or.inr light, before,
      after, place, fun root member dark => seen root member (gray root dark)⟩
    refine (shaded' next List.mem_cons_self).imp_right fun waits => ?_
    exact scanned'.light next (within next List.mem_cons_self) (Or.inl waits)
  · intro empty state listed left
    rw [empty] at scanned'
    refine exact_scan listed (held.counted.alike alike) place single
      (List.map_eq_nil_iff.mp held.sound.current) (held.sound.clean rfl) sources scanned' ?_ left
    intro root member
    rcases List.mem_append.mp member with member | member
    · exact fun dark => seen root member (gray root dark)
    · simp only [List.mem_singleton, ListNode.object.injEq] at member
      rw [member]
      exact light

end Passes

end Xemmai.Collector
