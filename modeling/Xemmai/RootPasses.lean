import Mathlib.Algebra.BigOperators.Ring.Finset
import Mathlib.Algebra.Group.Action.Defs
import Mathlib.Algebra.Order.BigOperators.Group.Finset
import Xemmai.FreePhase
import Xemmai.Spread

/-!
# The lists in the passes over the roots

Each turn of the loops over the roots, and each step of their passes, keeps what
holds of the lists, as long as the pass that collects meets no white object that
is still on a list.
-/

namespace Xemmai.Collector

set_option autoImplicit false

variable {ι : Type} [DecidableEq ι] {cycles : List ι} {garbage : Option ι}
  {layout : Layout ι} {after : State ι}

/-- What the pass that collects does with a report: the white objects that it
reports come to the cycle. -/
theorem foldl_collectWhitePush {cycle : ι} {nodes : List (ListNode ι)}
    {last : Option (ListNode ι)} (report : List ι) (walk : Walk ι)
    (listed : Listed walk.heap layout)
    (place : layout.current = [⟨.object cycle, nodes, last⟩])
    (closed : ∀ strand ∈ layout.current ++ layout.cycles, ∃ last, strand.last = some last)
    (clean : layout.garbage = [])
    (live : ∀ object ∈ report, walk.heap.live object = true)
    (meets : ∀ object ∈ report, walk.heap.color object = .white →
      walk.heap.next (.object object) = none) :
    ∃ pushed next previous, report.foldl (Walk.collectWhitePush cycle) walk =
        ⟨{ walk.heap with
            next := next
            previous := previous
            color := fun object =>
              if object ∈ report ∧ walk.heap.color object = .white then .red
              else walk.heap.color object
            cyclic := fun object =>
              if object ∈ report ∧ walk.heap.color object = .white then walk.heap.count object
              else walk.heap.cyclic object },
          pushed ++ walk.stack⟩ ∧
      Pushed (fun object => object ∈ report ∧ walk.heap.color object = .white) pushed ∧
      Listed (report.foldl (Walk.collectWhitePush cycle) walk).heap { layout with
        current := [⟨.object cycle, pushed.map .object ++ nodes, last⟩] } := by
  induction report generalizing walk layout nodes with
  | nil =>
    refine ⟨[], walk.heap.next, walk.heap.previous, ?_, ⟨List.nodup_nil, ?_⟩, ?_⟩
    · simp
    · simp
    · have same : layout =
          { layout with current := [⟨.object cycle, nodes, last⟩] } := by rw [← place]
      simpa [← same] using listed
  | cons head report ih =>
    simp only [List.foldl_cons]
    by_cases white : walk.heap.color head = .white
    · have unlinked := meets head List.mem_cons_self white
      have allocated : walk.heap.allocated head = true := by
        have held := live head List.mem_cons_self
        simp only [Heap.live, Bool.and_eq_true] at held
        exact held.1
      have fresh := listed.fresh closed unlinked (by rw [clean]; exact List.not_mem_nil)
      have heap : (walk.collectWhitePush cycle head) =
          ⟨{ walk.heap with
              next := Function.update (Function.update walk.heap.next (.object head)
                (walk.heap.next (.object cycle))) (.object cycle) (some (.object head))
              previous := Function.update walk.heap.previous (.object head) none
              color := Function.update walk.heap.color head .red
              cyclic := Function.update walk.heap.cyclic head (walk.heap.count head) },
            head :: walk.stack⟩ := by
        simp [Walk.collectWhitePush, white, Heap.paint, Heap.setCyclic, Heap.setNext,
          Heap.setPrevious, Walk.push]
      have joined : Listed (walk.collectWhitePush cycle head).heap { layout with
          current := [⟨.object cycle, .object head :: nodes, last⟩] } :=
        listed.join place fresh allocated (by rw [heap]) (by rw [heap]) (by rw [heap])
          (by rw [heap])
      have inside : .object cycle ∈ Strand.all layout.strands := by
        simp [Layout.mem_strands, Layout.mem_others, place]
      have color : ∀ object, (walk.collectWhitePush cycle head).heap.color object =
          if object = head then .red else walk.heap.color object := by
        intro object
        simp only [heap, Function.update_apply]
      obtain ⟨pushed, next, previous, result, ⟨nodup, members⟩, kept⟩ :=
        ih (walk.collectWhitePush cycle head) joined rfl
          (by
            intro strand member
            rcases List.mem_cons.mp member with rfl | member
            · exact closed ⟨.object cycle, nodes, last⟩ (by rw [place]; exact List.mem_cons_self)
            · exact closed strand (List.mem_append_right _ member))
          clean
          (by
            intro object member
            have held := live object (List.mem_cons_of_mem _ member)
            rw [heap]
            exact held)
          (by
            intro object member chosen
            rw [color] at chosen
            split at chosen
            · cases chosen
            · rename_i different
              have unlinked := meets object (List.mem_cons_of_mem _ member) chosen
              have other : object ≠ cycle := by
                rintro rfl
                exact listed.fresh closed unlinked (by rw [clean]; exact List.not_mem_nil) inside
              rw [heap]
              simp only
              rw [Function.update_of_ne (by simp [other]),
                Function.update_of_ne (by simp [different])]
              exact unlinked)
      have later : ∀ object, object ∈ pushed ↔ object ∈ report ∧ object ≠ head ∧
          walk.heap.color object = .white := by
        intro object
        simp only [members, color]
        by_cases equal : object = head
        · subst equal
          simp
        · simp [equal]
      have stack : (walk.collectWhitePush cycle head).stack = head :: walk.stack := by
        rw [heap]
      refine ⟨pushed ++ [head], next, previous, ?_, ⟨?_, ?_⟩, ?_⟩
      · rw [result, stack]
        simp only [color, List.append_assoc, List.singleton_append, Walk.mk.injEq, and_true]
        rw [heap]
        simp only [Heap.mk.injEq, true_and, and_true]
        constructor
        · funext object
          by_cases equal : object = head
          · subst equal
            simp [white]
          · simp [equal]
        · funext object
          by_cases equal : object = head
          · subst equal
            simp [white]
          · simp [equal]
      · have absent : head ∉ pushed := fun member => ((later head).mp member).2.1 rfl
        rw [← List.concat_eq_append]
        exact nodup.concat absent
      · intro object
        simp only [List.mem_append, later, List.mem_cons]
        by_cases equal : object = head
        · subst equal
          simp [white]
        · simp [equal]
      · simpa using kept
    · have unchanged : walk.collectWhitePush cycle head = walk := by
        simp [Walk.collectWhitePush, white]
      rw [unchanged]
      obtain ⟨pushed, next, previous, result, ⟨nodup, members⟩, kept⟩ := ih walk listed place
        closed clean
        (fun object member => live object (List.mem_cons_of_mem _ member))
        (fun object member => meets object (List.mem_cons_of_mem _ member))
      have same : ∀ object, (object ∈ head :: report ∧ walk.heap.color object = .white) ↔
          (object ∈ report ∧ walk.heap.color object = .white) := by
        intro object
        by_cases equal : object = head
        · subst equal
          simp [white]
        · simp [equal]
      refine ⟨pushed, next, previous, ?_, ⟨nodup, ?_⟩, kept⟩
      · simp only [same]
        exact result
      · intro object
        simp only [members, same]

section Rank

def weigh (objects : Finset ι) (weight : Color → Nat) (heap : Heap ι) : Nat :=
  ∑ object ∈ objects, weight (heap.color object)

def prescanWeight (color : Color) : Nat := if color = .black ∨ color = .purple then 0 else 1

def markWeight (color : Color) : Nat := if color = .gray then 0 else 1

def scanWeight (color : Color) : Nat :=
  if color = .black then 0 else if color = .gray then 2 else 1

def collectWeight (color : Color) : Nat := if color = .white then 3 else 0

theorem markWeight_le (color : Color) : markWeight color ≤ 1 := by
  cases color <;> decide

theorem scanWeight_le (color : Color) : scanWeight color ≤ 2 := by
  cases color <;> decide

theorem collectWeight_le (color : Color) : collectWeight color ≤ 3 := by
  cases color <;> decide

namespace Layout

def left (layout : Layout ι) (p : ι) : Nat :=
  layout.roots.length - layout.roots.idxOf (.object p)

def turns (layout : Layout ι) (cycle : ι) : Nat :=
  match layout.current with
  | strand :: _ => (strand.nodes ++ [strand.first]).idxOf (.object cycle) + 1
  | [] => 0

def size (layout : Layout ι) : Nat := (Strand.all layout.current).length

end Layout

def collectRank (objects : Finset ι) (layout : Layout ι) : Nat :=
  3 * objects.card + 4 * layout.roots.length + 1

def scanRank (objects : Finset ι) (layout : Layout ι) : Nat :=
  collectRank objects layout + 2 * objects.card + 2 * layout.roots.length + 1

def markRank (objects : Finset ι) (layout : Layout ι) : Nat :=
  scanRank objects layout + objects.card + 2 * layout.roots.length + 1

namespace Pass

def weight : Pass ι → Color → Nat
  | prescanBlack _ => prescanWeight
  | markGray _ => markWeight
  | scanBlack _ => scanWeight
  | scanGray _ => scanWeight
  | collectWhite _ => collectWeight

def rest (objects : Finset ι) (layout : Layout ι) : Pass ι → Nat
  | prescanBlack p => markRank objects layout + 2 * (layout.left p - 1)
  | markGray q => scanRank objects layout + 2 * (layout.left q - 1)
  | scanBlack p => collectRank objects layout + 2 * (layout.left p - 1)
  | scanGray p => collectRank objects layout + 2 * (layout.left p - 1)
  | collectWhite _ => 2 * layout.size + 4 * layout.roots.length

end Pass

/-- A bound of the turns that the loops over the roots have still to take. -/
def rank (objects : Finset ι) (state : State ι) (layout : Layout ι) : Nat :=
  let heap := state.heap
  match state.control with
  | .prescan p =>
    markRank objects layout + weigh objects prescanWeight heap +
      2 * layout.left p
  | .mark _ q =>
    scanRank objects layout + weigh objects markWeight heap +
      2 * layout.left q
  | .scan p =>
    collectRank objects layout + weigh objects scanWeight heap +
      2 * layout.left p
  | .collect =>
    weigh objects collectWeight heap + 4 * layout.roots.length
  | .traverse pass _ stack =>
    pass.rest objects layout + weigh objects pass.weight heap + (stack.length + 1)
  | .round .scanRed cycle _ =>
    weigh objects collectWeight heap + layout.size +
      layout.turns cycle + 4 * layout.roots.length
  | .round .orange cycle _ =>
    weigh objects collectWeight heap + layout.turns cycle +
      4 * layout.roots.length
  | _ => 0

omit [DecidableEq ι] in
theorem weigh_le (objects : Finset ι) (weight : Color → Nat) (bound : Nat) (heap : Heap ι)
    (bounded : ∀ color, weight color ≤ bound) :
    weigh objects weight heap ≤ bound * objects.card := by
  have total := Finset.sum_le_card_nsmul objects (fun object => weight (heap.color object))
    bound (fun object _ => bounded _)
  rw [smul_eq_mul, Nat.mul_comm] at total
  exact total

theorem weigh_pushed {objects : Finset ι} (complete : ∀ object, object ∈ objects)
    {weight : Color → Nat} {heap heap' : Heap ι} {pushed : List ι} (price : Nat)
    (nodup : pushed.Nodup)
    (paid : ∀ object, weight (heap'.color object) + (if object ∈ pushed then price else 0) ≤
      weight (heap.color object)) :
    weigh objects weight heap' + price * pushed.length ≤ weigh objects weight heap := by
  have total : ∑ object ∈ objects, (if object ∈ pushed then price else 0) =
      price * pushed.length := by
    rw [Finset.sum_ite, Finset.sum_const_zero, Nat.add_zero, Finset.sum_const, smul_eq_mul,
      Nat.mul_comm]
    have same : objects.filter (· ∈ pushed) = pushed.toFinset := by
      ext object
      simp [complete object]
    rw [same, List.toFinset_card_of_nodup nodup]
  unfold weigh
  rw [← total, ← Finset.sum_add_distrib]
  exact Finset.sum_le_sum fun object _ => paid object

end Rank

section Roots

variable {heap : Heap ι}

omit [DecidableEq ι] in
theorem sound_passing {control : Control ι} (listed : Listed heap layout)
    (passing : control.passes = true) (current : layout.current.map ends = control.ends)
    (clean : layout.garbage = [])
    (scraps : layout.garbage.map ends =
      garbage.toList.map fun object => (.object object, none))
    (rings : layout.cycles.map ends = cycles.map loop)
    (stands : control.Holds heap layout) : Sound ⟨heap, cycles, garbage, control⟩ layout := by
  refine ⟨listed, current, scraps, rings, ?_, ?_, fun _ => clean, stands⟩
  · intro outside
    rw [passing] at outside
    cases outside
  · intro object member
    rw [clean] at member
    cases member

omit [DecidableEq ι] in
theorem advance_eq (cycles : List ι) (garbage : Option ι) (control : Control ι)
    (listed : Listed heap layout) {p : ι}
    {before after : List (ListNode ι)} (place : layout.roots = before ++ .object p :: after)
    (here : ι → Control ι) (done : Option (State ι)) :
    (after = [] ∧
      State.advance ⟨heap, cycles, garbage, control⟩ p here done = done) ∨
    ∃ q rest, after = .object q :: rest ∧
      State.advance ⟨heap, cycles, garbage, control⟩ p here done =
        some ⟨heap, cycles, garbage, here q⟩ := by
  have step := listed.forward place
  cases after with
  | nil =>
    refine Or.inl ⟨rfl, ?_⟩
    simp only [State.advance, step, List.head?_nil, Option.getD_none]
  | cons node after =>
    obtain ⟨q, rfl⟩ := listed.object_of_roots (by rw [place]; simp : node ∈ layout.roots)
    refine Or.inr ⟨q, after, rfl, ?_⟩
    simp only [State.advance, step, List.head?_cons, Option.getD_some]

theorem markMore_eq (cycles : List ι) (garbage : Option ι) (control : Control ι)
    (listed : Listed heap layout)
    {before after : List (ListNode ι)} (place : layout.roots = before ++ after) :
    (∃ q rest, after = .object q :: rest ∧
      State.markMore ⟨heap, cycles, garbage, control⟩ (before.getLast?.getD .roots) =
        some ⟨heap, cycles, garbage, .mark (before.getLast?.getD .roots) q⟩) ∨
    (after = [] ∧ ∃ r rest, before = .object r :: rest ∧
      State.markMore ⟨heap, cycles, garbage, control⟩ (before.getLast?.getD .roots) =
        some ⟨heap, cycles, garbage, .scan r⟩) ∨
    (after = [] ∧ before = [] ∧
      State.markMore ⟨heap, cycles, garbage, control⟩ (before.getLast?.getD .roots) =
        some ⟨heap.setPrevious .roots (some .roots), cycles, garbage, .epoch⟩) := by
  have step := listed.joint_next place
  cases after with
  | cons node after =>
    obtain ⟨q, rfl⟩ := listed.object_of_roots (by rw [place]; simp : node ∈ layout.roots)
    refine Or.inl ⟨q, after, rfl, ?_⟩
    simp only [State.markMore, step, List.head?_cons, Option.getD_some]
  | nil =>
    refine Or.inr ?_
    rw [List.append_nil] at place
    have first := listed.linked.next_first
    cases before with
    | nil =>
      refine Or.inr ⟨rfl, rfl, ?_⟩
      rw [place] at first
      simp only [List.head?_nil, Option.getD_none] at first
      simp only [State.markMore, List.getLast?_nil, Option.getD_none, first]
    | cons node before =>
      obtain ⟨r, rfl⟩ := listed.object_of_roots (by rw [place]; simp : node ∈ layout.roots)
      refine Or.inl ⟨rfl, r, before, rfl, ?_⟩
      rw [place] at first
      simp only [List.head?_cons, Option.getD_some] at first
      simp only [State.markMore, step, List.head?_nil, Option.getD_none, first]

/-- What a turn of a loop over the roots makes of a state. -/
structure Turned (before : State ι) (layout : Layout ι) (after : State ι)
    (layout' : Layout ι) : Prop where
  sound : Sound after layout'
  lowers : after.control.passes = true → ∀ objects : Finset ι,
    (∀ object, object ∈ objects) → rank objects after layout' < rank objects before layout

theorem left_eq (listed : Listed heap layout) {p : ι} {before after : List (ListNode ι)}
    (place : layout.roots = before ++ .object p :: after) :
    layout.left p = after.length + 1 := by
  have nodup := (List.nodup_cons.mp listed.threaded.first_nodup).2
  have roots : layout.spine.nodes = before ++ .object p :: after := place
  rw [roots, List.nodup_append] at nodup
  have fresh : .object p ∉ before :=
    fun member => nodup.2.2 _ member _ List.mem_cons_self rfl
  rw [Layout.left, place, List.idxOf_append_of_notMem fresh, List.idxOf_cons_self,
    List.length_append, List.length_cons]
  omega

theorem sound_done (listed : Listed heap layout) (none : layout.roots = [])
    (empty : layout.current = []) (clean : layout.garbage = [])
    (scraps : layout.garbage.map ends =
      garbage.toList.map fun object => (.object object, Option.none))
    (rings : layout.cycles.map ends = cycles.map loop) :
    Sound ⟨heap.setPrevious .roots (some .roots), cycles, garbage, .epoch⟩ layout := by
  obtain ⟨home, doubly⟩ := listed.home none
  refine ⟨home, ?_, scraps, rings, fun _ => doubly, ?_, fun _ => clean, trivial⟩
  · rw [empty]
    rfl
  · intro object member
    rw [clean] at member
    cases member

/-- The loop that marks goes on, after the roots that have been kept so far. -/
theorem mark_more (control : Control ι) (listed : Listed heap layout)
    {before after : List (ListNode ι)} (place : layout.roots = before ++ after)
    (empty : layout.current = []) (clean : layout.garbage = [])
    (scraps : layout.garbage.map ends =
      garbage.toList.map fun object => (.object object, none))
    (rings : layout.cycles.map ends = cycles.map loop) :
    ∃ state, State.markMore ⟨heap, cycles, garbage, control⟩
        (before.getLast?.getD .roots) = some state ∧ Sound state layout ∧
      (state.control.passes = true → ∀ objects : Finset ι,
        rank objects state layout ≤
          scanRank objects layout + weigh objects markWeight heap + 2 * after.length) := by
  rcases markMore_eq cycles garbage control listed place with
    ⟨q, rest, rfl, taken⟩ | ⟨rfl, r, rest, rfl, taken⟩ | ⟨rfl, rfl, taken⟩
  · refine ⟨_, taken, sound_passing listed rfl ?_ clean scraps rings ?_, ?_⟩
    · rw [empty]
      rfl
    · exact ⟨before, rest, place, rfl⟩
    · intro _ objects
      simp only [rank, left_eq listed place, List.length_cons]
      exact Nat.le_refl _
  · rw [List.append_nil] at place
    refine ⟨_, taken, sound_passing listed rfl ?_ clean scraps rings ?_, ?_⟩
    · rw [empty]
      rfl
    · show ListNode.object r ∈ layout.roots
      rw [place]
      exact List.mem_cons_self
    · intro _ objects
      have weight := weigh_le objects scanWeight 2 heap scanWeight_le
      have left := left_eq listed (List.nil_append _ ▸ place :
        layout.roots = [] ++ .object r :: rest)
      have length : layout.roots.length = rest.length + 1 := by rw [place, List.length_cons]
      simp only [rank, left, scanRank, length]
      omega
  · exact ⟨_, taken, sound_done listed place empty clean scraps rings, nofun⟩

theorem prescan_more (control : Control ι) (listed : Listed heap layout) {p : ι}
    (member : .object p ∈ layout.roots) (empty : layout.current = [])
    (clean : layout.garbage = [])
    (scraps : layout.garbage.map ends =
      garbage.toList.map fun object => (.object object, none))
    (rings : layout.cycles.map ends = cycles.map loop) :
    ∃ state, State.advance ⟨heap, cycles, garbage, control⟩ p .prescan
        (State.markMore ⟨heap, cycles, garbage, control⟩ .roots) = some state ∧
      Sound state layout ∧ (state.control.passes = true → ∀ objects : Finset ι,
        rank objects state layout ≤ markRank objects layout +
          weigh objects prescanWeight heap + 2 * (layout.left p - 1)) := by
  obtain ⟨before, after, place⟩ := List.append_of_mem member
  rcases advance_eq cycles garbage control listed place
    .prescan (State.markMore ⟨heap, cycles, garbage, control⟩ .roots) with
    ⟨_, taken⟩ | ⟨q, rest, rfl, taken⟩
  · obtain ⟨state, marked, sound, lower⟩ := mark_more control listed
      (List.nil_append layout.roots).symm empty clean scraps rings
    refine ⟨state, taken.trans marked, sound, ?_⟩
    intro passing objects
    have bound := lower passing objects
    have weight := weigh_le objects markWeight 1 heap markWeight_le
    simp only [markRank]
    omega
  · refine ⟨_, taken, sound_passing listed rfl ?_ clean scraps rings ?_, ?_⟩
    · rw [empty]
      rfl
    · show ListNode.object q ∈ layout.roots
      rw [place]
      simp
    · intro _ objects
      have there : layout.roots = (before ++ [.object p]) ++ .object q :: rest := by
        rw [place]
        simp
      simp only [rank, left_eq listed place, left_eq listed there, List.length_cons]
      omega

theorem scan_more (control : Control ι) (listed : Listed heap layout) {p : ι}
    (member : .object p ∈ layout.roots) (empty : layout.current = [])
    (clean : layout.garbage = [])
    (scraps : layout.garbage.map ends =
      garbage.toList.map fun object => (.object object, none))
    (rings : layout.cycles.map ends = cycles.map loop) :
    ∃ state, State.advance ⟨heap, cycles, garbage, control⟩ p .scan
        (some ⟨heap, cycles, garbage, .collect⟩) = some state ∧
      Sound state layout ∧ (state.control.passes = true → ∀ objects : Finset ι,
        rank objects state layout ≤ collectRank objects layout +
          weigh objects scanWeight heap + 2 * (layout.left p - 1)) := by
  obtain ⟨before, after, place⟩ := List.append_of_mem member
  rcases advance_eq cycles garbage control listed place
    .scan (some ⟨heap, cycles, garbage, .collect⟩) with ⟨_, taken⟩ | ⟨q, rest, rfl, taken⟩
  · refine ⟨_, taken, sound_passing listed rfl ?_ clean scraps rings ?_, ?_⟩
    · rw [empty]
      rfl
    · exact List.ne_nil_of_mem member
    · intro _ objects
      have weight := weigh_le objects collectWeight 3 heap collectWeight_le
      simp only [rank, collectRank]
      omega
  · refine ⟨_, taken, sound_passing listed rfl ?_ clean scraps rings ?_, ?_⟩
    · rw [empty]
      rfl
    · show ListNode.object q ∈ layout.roots
      rw [place]
      simp
    · intro _ objects
      have there : layout.roots = (before ++ [.object p]) ++ .object q :: rest := by
        rw [place]
        simp
      simp only [rank, left_eq listed place, left_eq listed there, List.length_cons]
      omega

theorem left_pos (listed : Listed heap layout) {p : ι} (member : .object p ∈ layout.roots) :
    0 < layout.left p := by
  obtain ⟨before, after, place⟩ := List.append_of_mem member
  rw [left_eq listed place]
  exact Nat.succ_pos _

omit [DecidableEq ι] in
theorem weigh_lighter {objects : Finset ι} {weight : Color → Nat} {heap' : Heap ι}
    (lighter : ∀ object, weight (heap'.color object) ≤ weight (heap.color object)) :
    weigh objects weight heap' ≤ weigh objects weight heap :=
  Finset.sum_le_sum fun object _ => lighter object

theorem weight_paint {weight : Color → Nat} {object : ι} {color : Color}
    (lighter : weight color ≤ weight (heap.color object)) (other : ι) :
    weight ((heap.paint object color).color other) ≤ weight (heap.color other) := by
  simp only [Heap.paint, Function.update_apply]
  split
  · rename_i same
    subst same
    exact lighter
  · exact Nat.le_refl _

theorem turned_prescan {p : ι} (sound : Sound ⟨heap, cycles, garbage, .prescan p⟩ layout) :
    Turned ⟨heap, cycles, garbage, .prescan p⟩ layout
      ⟨heap.prescanBlack p, cycles, garbage, .traverse (.prescanBlack p) p []⟩ layout := by
  have member : .object p ∈ layout.roots := sound.stands
  have listed : Listed (heap.prescanBlack p) layout := by
    unfold Heap.prescanBlack
    split
    · exact sound.listed.congr rfl rfl rfl (fun _ _ => rfl)
    · exact sound.listed
  have typed := listed.typed p member
  constructor
  · refine sound_passing listed rfl sound.current (sound.clean rfl) sound.garbage sound.cycles
      ⟨?_, member⟩
    intro other inside
    rw [List.mem_singleton.mp inside]
    exact typed
  · intro _ objects _
    have left := left_pos sound.listed member
    have weight : weigh objects prescanWeight (heap.prescanBlack p) ≤
        weigh objects prescanWeight heap := by
      apply weigh_lighter
      unfold Heap.prescanBlack
      split
      · exact weight_paint (Nat.zero_le _)
      · exact fun _ => Nat.le_refl _
    simp only [rank, Pass.rest, Pass.weight, List.length_nil]
    omega

theorem turned_scan {p : ι} (report : List ι)
    (sound : Sound ⟨heap, cycles, garbage, .scan p⟩ layout) :
    ∃ state, State.tick ⟨heap, cycles, garbage, .scan p⟩ report = some state ∧
      Turned ⟨heap, cycles, garbage, .scan p⟩ layout state layout := by
  have member : .object p ∈ layout.roots := sound.stands
  have empty : layout.current = [] := List.map_eq_nil_iff.mp sound.current
  have typed := sound.listed.typed p member
  have left := left_pos sound.listed member
  simp only [State.tick]
  split
  · obtain ⟨state, taken, kept, lower⟩ := scan_more (.scan p) sound.listed member empty
      (sound.clean rfl) sound.garbage sound.cycles
    refine ⟨state, taken, kept, ?_⟩
    intro passing objects _
    refine Nat.lt_of_le_of_lt (lower passing objects) ?_
    simp only [rank]
    omega
  · split
    · refine ⟨_, rfl, sound_passing (sound.listed.congr rfl rfl rfl (fun _ _ => rfl)) rfl
        sound.current (sound.clean rfl) sound.garbage sound.cycles ⟨?_, member⟩, ?_⟩
      · intro other inside
        rw [List.mem_singleton.mp inside]
        exact typed
      · intro _ objects _
        have weight : weigh objects scanWeight (heap.paint p .black) ≤
            weigh objects scanWeight heap := weigh_lighter (weight_paint (Nat.zero_le _))
        simp only [rank, Pass.rest, Pass.weight, List.length_nil]
        omega
    · refine ⟨_, rfl, sound_passing sound.listed rfl sound.current (sound.clean rfl)
        sound.garbage sound.cycles ⟨?_, member⟩, ?_⟩
      · intro other inside
        rw [List.mem_singleton.mp inside]
        exact typed
      · intro _ objects _
        simp only [rank, Pass.rest, Pass.weight, List.length_nil]
        omega

theorem sound_roots (report : List ι)
    (sound : Sound ⟨heap, cycles, garbage, .roots⟩ layout) :
    ∃ control, State.tick ⟨heap, cycles, garbage, .roots⟩ report =
        some ⟨heap, cycles, garbage, control⟩ ∧
      ((layout.roots = [] ∧ control = .epoch) ∨
        ∃ p rest, layout.roots = .object p :: rest ∧ control = .prescan p) ∧
      Sound ⟨heap, cycles, garbage, control⟩ layout := by
  have first := sound.listed.linked.next_first
  have clean := sound.clean rfl
  cases place : layout.roots with
  | nil =>
    rw [place] at first
    simp only [List.head?_nil, Option.getD_none] at first
    refine ⟨.epoch, by simp only [State.tick, first], Or.inl ⟨rfl, rfl⟩, ?_⟩
    exact (sound.tended rfl).sound sound.current sound.garbage sound.cycles (fun _ => clean)
      trivial
  | cons node rest =>
    obtain ⟨p, rfl⟩ := sound.listed.object_of_roots (by rw [place]; simp : node ∈ layout.roots)
    rw [place] at first
    simp only [List.head?_cons, Option.getD_some] at first
    refine ⟨.prescan p, by simp only [State.tick, first], Or.inr ⟨p, rest, rfl, rfl⟩, ?_⟩
    refine sound_passing sound.listed rfl sound.current clean sound.garbage sound.cycles ?_
    show ListNode.object p ∈ layout.roots
    rw [place]
    exact List.mem_cons_self

theorem turned_gray {p : ListNode ι} {q : ι}
    (sound : Sound ⟨heap, cycles, garbage, .mark p q⟩ layout) :
    Turned ⟨heap, cycles, garbage, .mark p q⟩ layout
      ⟨heap.markGray q, cycles, garbage, .traverse (.markGray q) q []⟩ layout := by
  obtain ⟨before, after, place, _⟩ := sound.stands
  have member : .object q ∈ layout.roots := by
    rw [place]
    simp
  have listed : Listed (heap.markGray q) layout :=
    sound.listed.congr rfl rfl rfl (fun _ _ => rfl)
  constructor
  · refine sound_passing listed rfl sound.current (sound.clean rfl) sound.garbage sound.cycles
      ⟨?_, member⟩
    intro other inside
    rw [List.mem_singleton.mp inside]
    exact listed.typed q member
  · intro _ objects _
    have left := left_pos sound.listed member
    have weight : weigh objects markWeight (heap.markGray q) ≤
        weigh objects markWeight heap := weigh_lighter (weight_paint (Nat.zero_le _))
    simp only [rank, Pass.rest, Pass.weight, List.length_nil]
    omega

theorem turned_unmark {p : ListNode ι} {q : ι} {before after : List (ListNode ι)}
    (sound : Sound ⟨heap, cycles, garbage, .mark p q⟩ layout)
    (place : layout.roots = before ++ .object q :: after)
    (joint : p = before.getLast?.getD .roots) :
    ∃ state, State.markMore ⟨(heap.setNext p (heap.next (.object q))).setNext (.object q) none,
        cycles, garbage, .mark p q⟩ p = some state ∧
      Turned ⟨heap, cycles, garbage, .mark p q⟩ layout state
        { layout with roots := before ++ after } := by
  subst joint
  have listed := sound.listed.unroot place
  have empty : layout.current = [] := List.map_eq_nil_iff.mp sound.current
  obtain ⟨state, taken, kept, lower⟩ := mark_more
    (.mark (before.getLast?.getD .roots) q) listed rfl empty (sound.clean rfl) sound.garbage
    sound.cycles
  refine ⟨state, taken, kept, ?_⟩
  intro passing objects _
  have bound := lower passing objects
  have same : weigh objects markWeight
      ((heap.setNext (before.getLast?.getD .roots) (heap.next (.object q))).setNext (.object q)
        none) = weigh objects markWeight heap := rfl
  have left := left_eq sound.listed place
  have length : layout.roots.length = (before ++ after).length + 1 := by
    rw [place]
    simp only [List.length_append, List.length_cons]
    omega
  simp only [rank, scanRank, collectRank, left, length] at bound ⊢
  omega

/-- `while (roots->v_next != roots)`. -/
theorem collect_more (control : Control ι) (listed : Listed heap layout)
    (empty : layout.current = []) (clean : layout.garbage = [])
    (scraps : layout.garbage.map ends =
      garbage.toList.map fun object => (.object object, none))
    (rings : layout.cycles.map ends = cycles.map loop) :
    Sound (State.collectMore ⟨heap, cycles, garbage, control⟩) layout ∧
      ((State.collectMore ⟨heap, cycles, garbage, control⟩).control.passes = true →
        ∀ objects : Finset ι,
          rank objects (State.collectMore ⟨heap, cycles, garbage, control⟩) layout ≤
            weigh objects collectWeight heap + 4 * layout.roots.length) := by
  have first := listed.linked.next_first
  unfold State.collectMore
  cases place : layout.roots with
  | nil =>
    rw [place] at first
    simp only [List.head?_nil, Option.getD_none] at first
    simp only [first, if_true]
    exact ⟨sound_done listed place empty clean scraps rings, nofun⟩
  | cons node rest =>
    obtain ⟨p, rfl⟩ := listed.object_of_roots (by rw [place]; simp : node ∈ layout.roots)
    rw [place] at first
    simp only [List.head?_cons, Option.getD_some] at first
    simp only [first, Option.some.injEq, reduceCtorEq, if_false]
    refine ⟨sound_passing listed rfl ?_ clean scraps rings ?_, ?_⟩
    · rw [empty]
      rfl
    · show layout.roots ≠ []
      rw [place]
      simp
    · intro _ objects
      simp only [rank, place]
      exact Nat.le_refl _

theorem turned_collect (sound : Sound ⟨heap, cycles, garbage, .collect⟩ layout) :
    ∃ p rest, layout.roots = .object p :: rest ∧
      (heap.color p = .white →
        State.collect ⟨heap, cycles, garbage, .collect⟩ =
          some ⟨(heap.setNext .roots (heap.next (.object p))).collectWhite p, cycles, garbage,
            .traverse (.collectWhite p) p []⟩ ∧
        Turned ⟨heap, cycles, garbage, .collect⟩ layout
          ⟨(heap.setNext .roots (heap.next (.object p))).collectWhite p, cycles, garbage,
            .traverse (.collectWhite p) p []⟩
          { layout with
            roots := rest
            current := [⟨.object p, [], some (.object p)⟩] }) ∧
      (heap.color p ≠ .white → ∃ state,
        State.collect ⟨heap, cycles, garbage, .collect⟩ = some state ∧
        state = State.collectMore
          ⟨(heap.setNext .roots (heap.next (.object p))).setNext (.object p) none, cycles,
            garbage, .collect⟩ ∧
        Turned ⟨heap, cycles, garbage, .collect⟩ layout state { layout with roots := rest }) := by
  have some' : layout.roots ≠ [] := sound.stands
  have empty : layout.current = [] := List.map_eq_nil_iff.mp sound.current
  obtain ⟨node, rest, place⟩ := List.exists_cons_of_ne_nil some'
  obtain ⟨p, rfl⟩ := sound.listed.object_of_roots (by rw [place]; simp : node ∈ layout.roots)
  have first := sound.listed.linked.next_first
  rw [place] at first
  simp only [List.head?_cons, Option.getD_some] at first
  have step : heap.follow .roots = some p := by simp only [Heap.follow, first]
  have place' : layout.roots = [] ++ .object p :: rest := place
  have listed := sound.listed.unroot place'
  have fresh := sound.listed.unroot_fresh place'
  have length : layout.roots.length = rest.length + 1 := by rw [place, List.length_cons]
  have held : heap.allocated p = true := by
    apply sound.listed.owned
    rw [Layout.mem_strands, place]
    simp
  refine ⟨p, rest, place, ?_, ?_⟩
  · intro white
    refine ⟨?_, ?_, ?_⟩
    · have white' : (heap.setNext .roots (heap.next (.object p))).color p = .white := white
      simp only [State.collect, step, Option.bind_eq_bind, Option.bind_some, white', if_true]
    · have gathered := listed.gather empty fresh held
      have same : ((heap.setNext .roots (heap.next (.object p))).setNext (.object p)
          none).collectWhite p =
          (heap.setNext .roots (heap.next (.object p))).collectWhite p := by
        simp only [Heap.collectWhite, Heap.setPrevious, Heap.setNext, Heap.setCyclic, Heap.paint,
          Function.update_idem]
      simp only [List.getLast?_nil, Option.getD_none, List.nil_append, same] at gathered
      have typed : ((heap.setNext .roots (heap.next (.object p))).collectWhite p).typed p =
          true := sound.listed.typed p (by rw [place]; simp)
      refine sound_passing gathered rfl rfl (sound.clean rfl) sound.garbage sound.cycles
        ⟨?_, ?_⟩
      · intro other member
        rw [List.mem_singleton.mp member]
        exact typed
      · intro other member
        simp only [Strand.all_cons, Strand.all_nil, Strand.members_mk, List.append_nil,
          List.mem_singleton, ListNode.object.injEq] at member
        rw [member]
        exact typed
    · intro _ objects complete
      have weight : weigh objects collectWeight
          ((heap.setNext .roots (heap.next (.object p))).collectWhite p) + 3 * [p].length ≤
          weigh objects collectWeight heap := by
        apply weigh_pushed complete 3 (List.nodup_singleton p)
        intro object
        simp only [Heap.collectWhite, Heap.setPrevious, Heap.setNext, Heap.setCyclic,
          Heap.paint, Function.update_apply, List.mem_singleton]
        split
        · rename_i same
          subst same
          rw [white]
          decide
        · exact Nat.le_refl _
      simp only [rank, Pass.rest, Pass.weight, length, Layout.size, Strand.all_cons,
        Strand.all_nil, Strand.members_mk,
        List.append_nil, List.length_cons, List.length_nil] at weight ⊢
      omega
  · intro other
    have other' : (heap.setNext .roots (heap.next (.object p))).color p ≠ .white := other
    obtain ⟨kept, lower⟩ := collect_more .collect listed empty (sound.clean rfl)
      sound.garbage sound.cycles
    refine ⟨_, ?_, rfl, kept, ?_⟩
    · simp only [State.collect, step, Option.bind_eq_bind, Option.bind_some, other', if_false]
    · intro passing objects _
      have bound := lower passing objects
      have same : weigh objects collectWeight
          ((heap.setNext .roots (heap.next (.object p))).setNext (.object p) none) =
          weigh objects collectWeight heap := rfl
      simp only [rank, length, List.getLast?_nil, Option.getD_none, List.nil_append,
        same] at bound ⊢
      omega

/-- A pass other than the one that collects changes colours and cyclic counts, and
pays for what it pushes. -/
def Repainted (pass : Pass ι) (report : List ι) (walk after : Walk ι) : Prop :=
  (∃ color cyclic, after.heap = { walk.heap with color := color, cyclic := cyclic }) ∧
    ∃ pushed, after.stack = pushed ++ walk.stack ∧ pushed ⊆ report ∧
      ∀ objects : Finset ι, (∀ object, object ∈ objects) →
        weigh objects pass.weight after.heap + pushed.length ≤
          weigh objects pass.weight walk.heap

theorem repainted_spread {pass : Pass ι} {fires pushes : Color → Bool}
    {paint : Heap ι → ι → Color} (settled : ∀ heap object, fires (paint heap object) = false)
    (stable : ∀ heap color, paint { heap with color := color } = paint heap)
    (paid : ∀ heap object color, fires color = true →
      pass.weight (paint heap object) + (if pushes color = true then 1 else 0) ≤
        pass.weight color)
    (report : List ι) (walk : Walk ι) :
    Repainted pass report walk (report.foldl (Walk.paintPush fires pushes paint) walk) := by
  obtain ⟨pushed, result, nodup, members⟩ := foldl_paintPush settled stable report walk
  rw [result]
  refine ⟨⟨_, _, rfl⟩, pushed, rfl, fun object member => ((members object).mp member).1, ?_⟩
  intro objects complete
  rw [← Nat.one_mul pushed.length]
  apply weigh_pushed complete 1 nodup
  intro object
  simp only [members, spread]
  split
  · rename_i fired
    simpa only [fired.1, fired.2, true_and] using paid walk.heap object _ fired.2
  · rename_i still
    have outside : ¬ (object ∈ report ∧ fires (walk.heap.color object) = true ∧
        pushes (walk.heap.color object) = true) :=
      fun chosen => still ⟨chosen.1, chosen.2.1⟩
    rw [if_neg outside]
    exact Nat.le_refl _

theorem pass_step {pass : Pass ι} (other : ∀ cycle, pass ≠ .collectWhite cycle) (object : ι)
    (report : List ι) (walk : Walk ι) :
    Repainted pass report walk (pass.step object report walk) := by
  cases pass with
  | prescanBlack p =>
    apply repainted_spread (fun _ _ => rfl) (fun _ _ => rfl)
    intro _ _ color
    cases color <;> simp [Pass.weight, prescanWeight]
  | markGray q =>
    obtain ⟨pushed, result, nodup, members⟩ := foldl_markGrayPush report walk
    simp only [Pass.step, result]
    refine ⟨⟨_, _, rfl⟩, pushed, rfl, fun object member => ((members object).mp member).1, ?_⟩
    intro objects complete
    rw [← Nat.one_mul pushed.length]
    apply weigh_pushed complete 1 nodup
    intro object
    simp only [members, Pass.weight, markWeight]
    by_cases reported : object ∈ report
    · by_cases gray : walk.heap.color object = .gray <;> simp [reported, gray]
    · simp [reported]
  | scanBlack p =>
    apply repainted_spread (fun _ _ => rfl) (fun _ _ => rfl)
    intro _ _ color
    cases color <;> simp [Pass.weight, scanWeight]
  | scanGray p =>
    simp only [Pass.step]
    split
    · apply repainted_spread (fun _ _ => rfl) (fun _ _ => rfl)
      intro _ _ color
      cases color <;> simp [Pass.weight, scanWeight]
    · rename_i white
      obtain ⟨⟨color, cyclic, same⟩, pushed, stack, reported, paid⟩ :
          Repainted (.scanGray p) report { walk with heap := walk.heap.paint object .white }
            (report.foldl Walk.scanGrayPush
              { walk with heap := walk.heap.paint object .white }) := by
        apply repainted_spread
        · intro heap object
          split <;> rfl
        · exact fun _ _ => rfl
        · intro heap object color
          by_cases cyclic : 0 < heap.cyclic object <;>
            cases color <;> simp [Pass.weight, scanWeight, cyclic]
      refine ⟨⟨color, cyclic, same⟩, pushed, stack, reported, ?_⟩
      intro objects complete
      refine Nat.le_trans (paid objects complete) (weigh_lighter (weight_paint ?_))
      show scanWeight .white ≤ scanWeight (walk.heap.color object)
      cases shade : walk.heap.color object with
      | black => exact absurd shade white
      | _ => decide
  | collectWhite cycle => exact absurd rfl (other cycle)

theorem leave_more {pass : Pass ι} (other : ∀ cycle, pass ≠ .collectWhite cycle)
    (control : Control ι) (listed : Listed heap layout) {object : ι} {stack : List ι}
    (stands : (Control.traverse pass object stack).Holds heap layout)
    (empty : layout.current = []) (clean : layout.garbage = [])
    (scraps : layout.garbage.map ends =
      garbage.toList.map fun object => (.object object, none))
    (rings : layout.cycles.map ends = cycles.map loop) :
    ∃ state, State.leave ⟨heap, cycles, garbage, control⟩ pass = some state ∧
      Sound state layout ∧ (state.control.passes = true → ∀ objects : Finset ι,
        rank objects state layout ≤
          pass.rest objects layout + weigh objects pass.weight heap) := by
  cases pass with
  | prescanBlack p =>
    obtain ⟨state, taken, sound, lower⟩ := prescan_more control listed stands.2
      empty clean scraps rings
    refine ⟨state, taken, sound, fun passing objects => ?_⟩
    have bound := lower passing objects
    simp only [Pass.rest, Pass.weight]
    omega
  | markGray q =>
    obtain ⟨before, after, place⟩ := List.append_of_mem stands.2
    have place' : layout.roots = (before ++ [.object q]) ++ after := by
      rw [place]
      simp
    have joint : (before ++ [ListNode.object q]).getLast?.getD .roots = .object q := by
      rw [List.getLast?_concat, Option.getD_some]
    obtain ⟨state, taken, sound, lower⟩ := mark_more control listed place' empty
      clean scraps rings
    rw [joint] at taken
    refine ⟨state, taken, sound, fun passing objects => ?_⟩
    have bound := lower passing objects
    simp only [Pass.rest, Pass.weight, left_eq listed place]
    omega
  | scanBlack p =>
    obtain ⟨state, taken, sound, lower⟩ := scan_more control listed stands.2
      empty clean scraps rings
    refine ⟨state, taken, sound, fun passing objects => ?_⟩
    have bound := lower passing objects
    simp only [Pass.rest, Pass.weight]
    omega
  | scanGray p =>
    obtain ⟨state, taken, sound, lower⟩ := scan_more control listed stands.2
      empty clean scraps rings
    refine ⟨state, taken, sound, fun passing objects => ?_⟩
    have bound := lower passing objects
    simp only [Pass.rest, Pass.weight]
    omega
  | collectWhite cycle => exact absurd rfl (other cycle)

theorem turned_visit {pass : Pass ι} (other : ∀ cycle, pass ≠ .collectWhite cycle)
    {object : ι} {stack report : List ι}
    (sound : Sound ⟨heap, cycles, garbage, .traverse pass object stack⟩ layout)
    (live : ∀ object ∈ report, heap.live object = true) :
    ∃ state, State.visit ⟨heap, cycles, garbage, .traverse pass object stack⟩ pass object stack
        report = some state ∧
      Turned ⟨heap, cycles, garbage, .traverse pass object stack⟩ layout state layout := by
  have typed := sound.stands.1
  have guard : heap.typed object = true ∧ report.all heap.live = true :=
    ⟨typed object List.mem_cons_self, List.all_eq_true.mpr live⟩
  have empty : layout.current = [] := by
    have none := sound.current
    cases pass with
    | collectWhite cycle => exact absurd rfl (other cycle)
    | _ => exact List.map_eq_nil_iff.mp none
  obtain ⟨⟨color, cyclic, same⟩, pushed, found, reported, paid⟩ :=
    pass_step other object report ⟨heap, stack⟩
  have listed : Listed (pass.step object report ⟨heap, stack⟩).heap layout := by
    rw [same]
    exact sound.listed.congr rfl rfl rfl (fun _ _ => rfl)
  have typed' : (pass.step object report ⟨heap, stack⟩).heap.typed = heap.typed := by
    rw [same]
  have known : ∀ other ∈ pushed ++ stack, heap.typed other = true := by
    intro other member
    rcases List.mem_append.mp member with member | member
    · have held := live other (reported member)
      simp only [Heap.live, Bool.and_eq_true] at held
      exact held.2
    · exact typed other (List.mem_cons_of_mem _ member)
  have root : ∀ stack', (∀ other ∈ stack', heap.typed other = true) → ∀ object',
      heap.typed object' = true → (Control.traverse pass object' stack').Holds
        (pass.step object report ⟨heap, stack⟩).heap layout := by
    intro stack' held object' head
    have next : ∀ other ∈ object' :: stack',
        (pass.step object report ⟨heap, stack⟩).heap.typed other = true := by
      rw [typed']
      exact List.forall_mem_cons.mpr ⟨head, held⟩
    have place := sound.stands.2
    cases pass with
    | collectWhite cycle => exact absurd rfl (other cycle)
    | _ => exact ⟨next, place⟩
  unfold State.visit
  rw [if_pos guard]
  cases rest : (pass.step object report ⟨heap, stack⟩).stack with
  | nil =>
    obtain ⟨state, taken, kept, lower⟩ := leave_more other
      (.traverse pass object stack) listed
      (root [] (by simp) object (typed object List.mem_cons_self)) empty (sound.clean rfl)
      sound.garbage sound.cycles
    refine ⟨state, ?_, kept, ?_⟩
    · simp only [rest]
      exact taken
    · intro passing objects complete
      have price : weigh objects pass.weight (pass.step object report ⟨heap, stack⟩).heap +
          pushed.length ≤ weigh objects pass.weight heap := paid objects complete
      refine Nat.lt_of_le_of_lt (lower passing objects) ?_
      simp only [rank]
      omega
  | cons next left =>
    refine ⟨⟨(pass.step object report ⟨heap, stack⟩).heap, cycles, garbage,
      .traverse pass next left⟩, by simp only [rest], ?_, ?_⟩
    · rw [rest] at found
      have both := List.forall_mem_cons.mp (found ▸ known)
      refine sound_passing listed rfl ?_ (sound.clean rfl) sound.garbage sound.cycles
        (root left both.2 next both.1)
      rw [empty]
      cases pass with
      | collectWhite cycle => exact absurd rfl (other cycle)
      | _ => rfl
    · intro _ objects complete
      have price : weigh objects pass.weight (pass.step object report ⟨heap, stack⟩).heap +
          pushed.length ≤ weigh objects pass.weight heap := paid objects complete
      have length := congrArg List.length (rest.symm.trans found)
      simp only [List.length_cons, List.length_append] at length
      simp only [rank]
      omega

theorem turns_le {cycle p : ι} {nodes : List (ListNode ι)}
    (place : layout.current = [⟨.object p, nodes, some (.object p)⟩])
    (member : .object cycle ∈ Strand.all layout.current) : layout.turns cycle ≤ layout.size := by
  rw [place] at member
  simp only [Strand.all_cons, Strand.all_nil, Strand.members_mk, List.append_nil] at member
  have inside : .object cycle ∈ nodes ++ [ListNode.object p] :=
    (List.perm_append_singleton _ _).mem_iff.mpr member
  have bound := List.idxOf_lt_length_of_mem inside
  simp only [List.length_append, List.length_cons, List.length_nil] at bound
  simp only [Layout.turns, Layout.size, place, Strand.all_cons, Strand.all_nil,
    Strand.members_mk, List.append_nil, List.length_cons]
  omega

/-- A step of the pass that collects, when no white object that it meets is still on
a list. -/
theorem turned_gather {cycle object : ι} {stack report : List ι}
    (sound : Sound ⟨heap, cycles, garbage, .traverse (.collectWhite cycle) object stack⟩ layout)
    (live : ∀ object ∈ report, heap.live object = true)
    (meets : ∀ object ∈ report, heap.color object = .white →
      heap.next (.object object) = none) :
    ∃ nodes pushed state, layout.current = [⟨.object cycle, nodes, some (.object cycle)⟩] ∧
      (report.foldl (Walk.collectWhitePush cycle) ⟨heap, stack⟩).stack = pushed ++ stack ∧
      State.visit ⟨heap, cycles, garbage, .traverse (.collectWhite cycle) object stack⟩
        (.collectWhite cycle) object stack report = some state ∧
      Turned ⟨heap, cycles, garbage, .traverse (.collectWhite cycle) object stack⟩ layout state
        { layout with current :=
          [⟨.object cycle, pushed.map .object ++ nodes, some (.object cycle)⟩] } := by
  obtain ⟨nodes, place⟩ := eq_of_ends sound.current
  have typed := sound.stands.1
  have guard : heap.typed object = true ∧ report.all heap.live = true :=
    ⟨typed object List.mem_cons_self, List.all_eq_true.mpr live⟩
  obtain ⟨pushed, next, previous, result, ⟨nodup, members⟩, listed⟩ :=
    foldl_collectWhitePush report ⟨heap, stack⟩ sound.listed place sound.closed
      (sound.clean rfl) live meets
  have found : (report.foldl (Walk.collectWhitePush cycle) ⟨heap, stack⟩).stack =
      pushed ++ stack := by
    rw [result]
  have typed' : (report.foldl (Walk.collectWhitePush cycle) ⟨heap, stack⟩).heap.typed =
      heap.typed := by
    rw [result]
  have fresh : ∀ other ∈ pushed, heap.typed other = true := by
    intro other member
    have held := live other ((members other).mp member).1
    simp only [Heap.live, Bool.and_eq_true] at held
    exact held.2
  have known : ∀ other ∈ pushed ++ stack, heap.typed other = true := by
    intro other member
    rcases List.mem_append.mp member with member | member
    · exact fresh other member
    · exact typed other (List.mem_cons_of_mem _ member)
  have ring : ∀ other, ListNode.object other ∈ Strand.all
      [⟨.object cycle, pushed.map .object ++ nodes, some (.object cycle)⟩] →
        heap.typed other = true := by
    intro other member
    simp only [Strand.all_cons, Strand.all_nil, Strand.members_mk, List.append_nil,
      List.mem_cons, List.mem_append, List.mem_map, ListNode.object.injEq,
      exists_eq_right] at member
    rcases member with rfl | member | member
    · exact sound.stands.2 other (by simp [place])
    · exact fresh other member
    · exact sound.stands.2 other (by simp [place, member])
  have size : ∀ roots, ({ layout with
      roots := roots
      current := [⟨.object cycle, pushed.map .object ++ nodes, some (.object cycle)⟩] } :
        Layout ι).size = layout.size + pushed.length := by
    intro roots
    simp only [Layout.size, place, Strand.all_cons, Strand.all_nil, Strand.members_mk,
      List.append_nil, List.length_cons, List.length_append, List.length_map]
    omega
  have price : ∀ objects : Finset ι, (∀ object, object ∈ objects) →
      weigh objects collectWeight
        (report.foldl (Walk.collectWhitePush cycle) ⟨heap, stack⟩).heap + 3 * pushed.length ≤
      weigh objects collectWeight heap := by
    intro objects complete
    apply weigh_pushed complete 3 nodup
    intro object
    rw [result]
    simp only [members]
    split
    · rename_i white
      rw [white.2]
      decide
    · exact Nat.le_refl _
  unfold State.visit
  rw [if_pos guard]
  simp only [Pass.step]
  cases rest : (report.foldl (Walk.collectWhitePush cycle) ⟨heap, stack⟩).stack with
  | nil =>
    refine ⟨nodes, pushed, ⟨(report.foldl (Walk.collectWhitePush cycle) ⟨heap, stack⟩).heap,
      cycles, garbage, .round .scanRed cycle cycle⟩, place, rest ▸ found, rfl, ?_, ?_⟩
    · refine sound_passing listed rfl rfl (sound.clean rfl) sound.garbage sound.cycles ⟨?_, ?_⟩
      · simp
      · rw [typed']
        exact ring
    · intro _ objects complete
      have bound := price objects complete
      have none : pushed.length = 0 := by
        have length := congrArg List.length (rest.symm.trans found)
        simp only [List.length_nil, List.length_append] at length
        omega
      have turns : ({ layout with current :=
          [⟨.object cycle, pushed.map .object ++ nodes, some (.object cycle)⟩] } :
            Layout ι).turns cycle ≤ layout.size := by
        refine Nat.le_trans (turns_le rfl (by simp)) ?_
        rw [size]
        omega
      simp only [rank, Pass.rest, Pass.weight, size]
      omega
  | cons next left =>
    have both : ∀ other ∈ next :: left, heap.typed other = true := by
      rw [← rest, found]
      exact known
    refine ⟨nodes, pushed, ⟨(report.foldl (Walk.collectWhitePush cycle) ⟨heap, stack⟩).heap,
      cycles, garbage, .traverse (.collectWhite cycle) next left⟩, place, rest ▸ found, rfl, ?_,
      ?_⟩
    · refine sound_passing listed rfl rfl (sound.clean rfl) sound.garbage sound.cycles ⟨?_, ?_⟩
      · rw [typed']
        exact both
      · rw [typed']
        exact ring
    · intro _ objects complete
      have bound := price objects complete
      have length := congrArg List.length (rest.symm.trans found)
      simp only [List.length_cons, List.length_append] at length
      simp only [rank, Pass.rest, Pass.weight, size]
      omega

theorem turns_turn {cycle p q : ι} {nodes rest : List (ListNode ι)}
    (place : layout.current = [⟨.object p, nodes, some (.object p)⟩])
    (member : .object cycle ∈ Strand.all layout.current)
    (around : nodes ++ [.object p] = .object q :: rest) (other : q ≠ cycle) :
    ({ layout with current := [⟨.object q, rest, some (.object q)⟩] } : Layout ι).turns cycle <
      layout.turns cycle := by
  have away : ListNode.object q ≠ .object cycle := by simp [other]
  have inside : .object cycle ∈ rest := by
    have ring : .object cycle ∈ nodes ++ [ListNode.object p] := by
      rw [place] at member
      simp only [Strand.all_cons, Strand.all_nil, Strand.members_mk, List.append_nil] at member
      exact (List.perm_append_singleton _ _).mem_iff.mpr member
    rw [around] at ring
    exact (List.mem_cons.mp ring).resolve_left (fun same => away same.symm)
  simp only [Layout.turns, place, around, List.idxOf_cons_ne _ away,
    List.idxOf_append_of_mem inside]
  omega

omit [DecidableEq ι] in
theorem size_turn {p q : ι} {nodes rest : List (ListNode ι)}
    (place : layout.current = [⟨.object p, nodes, some (.object p)⟩])
    (around : nodes ++ [.object p] = .object q :: rest) :
    ({ layout with current := [⟨.object q, rest, some (.object q)⟩] } : Layout ι).size =
      layout.size := by
  have length := congrArg List.length around
  simp only [List.length_append, List.length_cons, List.length_nil] at length
  simp only [Layout.size, place, Strand.all_cons, Strand.all_nil, Strand.members_mk,
    List.append_nil, List.length_cons]
  omega

theorem foldl_scanRed (report : List ι) (heap : Heap ι) :
    ∃ cyclic, report.foldl Heap.scanRed heap = { heap with cyclic := cyclic } := by
  induction report generalizing heap with
  | nil => exact ⟨heap.cyclic, rfl⟩
  | cons object report ih =>
    obtain ⟨cyclic, same⟩ := ih (heap.scanRed object)
    simp only [List.foldl_cons, same]
    unfold Heap.scanRed
    split
    · exact ⟨_, rfl⟩
    · exact ⟨_, rfl⟩

theorem ring_turn {cycle p : ι} (listed : Listed heap layout)
    (place : layout.current.map ends = [loop p])
    (member : .object cycle ∈ Strand.all layout.current) :
    ∃ nodes q rest, layout.current = [⟨.object p, nodes, some (.object p)⟩] ∧
      nodes ++ [.object p] = .object q :: rest ∧ heap.follow (.object p) = some q ∧
      Listed heap { layout with current := [⟨.object q, rest, some (.object q)⟩] } ∧
      (∀ node, node ∈ ListNode.object q :: rest ↔ node ∈ Strand.all layout.current) ∧
      ({ layout with current := [⟨.object q, rest, some (.object q)⟩] } : Layout ι).size =
        layout.size ∧
      (q ≠ cycle → ({ layout with current := [⟨.object q, rest, some (.object q)⟩] } :
        Layout ι).turns cycle < layout.turns cycle) := by
  obtain ⟨nodes, place⟩ := eq_of_ends place
  obtain ⟨q, rest, around, step, turned⟩ := listed.turn place
  refine ⟨nodes, q, rest, place, around, step, turned, ?_, size_turn place around,
    turns_turn place member around⟩
  intro node
  rw [← around, (List.perm_append_singleton _ _).mem_iff, place]
  simp

theorem turned_scanRed {cycle p : ι} {report : List ι}
    (sound : Sound ⟨heap, cycles, garbage, .round .scanRed cycle p⟩ layout)
    (live : ∀ object ∈ report, heap.live object = true) :
    ∃ nodes q rest state, layout.current = [⟨.object p, nodes, some (.object p)⟩] ∧
      nodes ++ [.object p] = .object q :: rest ∧
      State.around ⟨heap, cycles, garbage, .round .scanRed cycle p⟩ .scanRed cycle p report =
        some state ∧
      state = ⟨report.foldl Heap.scanRed heap, cycles, garbage,
        if q = cycle then .round .orange cycle cycle else .round .scanRed cycle q⟩ ∧
      Turned ⟨heap, cycles, garbage, .round .scanRed cycle p⟩ layout state
        { layout with current := [⟨.object q, rest, some (.object q)⟩] } := by
  obtain ⟨member, typed⟩ := sound.stands
  obtain ⟨cyclic, same⟩ := foldl_scanRed report heap
  have listed : Listed (report.foldl Heap.scanRed heap) layout := by
    rw [same]
    exact sound.listed.congr rfl rfl rfl (fun _ _ => rfl)
  obtain ⟨nodes, q, rest, place, around, step, turned, members, size, turns⟩ :=
    ring_turn listed sound.current member
  have inside : .object p ∈ Strand.all layout.current := by
    obtain ⟨nodes, place⟩ := eq_of_ends sound.current
    simp [place]
  have guard : heap.typed p = true ∧ report.all heap.live = true :=
    ⟨typed p inside, List.all_eq_true.mpr live⟩
  have ring : ∀ other, ListNode.object other ∈ Strand.all
      [⟨.object q, rest, some (.object q)⟩] →
        (report.foldl Heap.scanRed heap).typed other = true := by
    intro other within
    simp only [Strand.all_cons, Strand.all_nil, Strand.members_mk, List.append_nil] at within
    rw [same]
    exact typed other ((members _).mp within)
  have here : .object cycle ∈ Strand.all
      [(⟨.object q, rest, some (.object q)⟩ : Strand (ListNode ι))] := by
    simp only [Strand.all_cons, Strand.all_nil, Strand.members_mk, List.append_nil]
    exact (members _).mpr member
  have weight : ∀ objects : Finset ι, weigh objects collectWeight
      (report.foldl Heap.scanRed heap) = weigh objects collectWeight heap := by
    intro objects
    rw [same]
    rfl
  refine ⟨nodes, q, rest, _, place, around, ?_, rfl, ?_, ?_⟩
  · simp only [State.around]
    rw [if_pos guard]
    simp only [State.turn, step, Option.map_some]
    split <;> rfl
  · split
    · rename_i last
      subst last
      exact sound_passing turned rfl rfl (sound.clean rfl) sound.garbage sound.cycles ⟨here, ring⟩
    · exact sound_passing turned rfl rfl (sound.clean rfl) sound.garbage sound.cycles ⟨here, ring⟩
  · intro _ objects _
    have some' : 0 < layout.turns cycle := by
      obtain ⟨nodes, place⟩ := eq_of_ends sound.current
      simp only [Layout.turns, place]
      exact Nat.succ_pos _
    have bound : ({ layout with current := [⟨.object q, rest, some (.object q)⟩] } :
        Layout ι).turns cycle ≤ _ := turns_le rfl here
    split
    · simp only [rank, weight, size] at bound ⊢
      omega
    · rename_i other
      have fewer := turns other
      simp only [rank, weight, size]
      omega

theorem turned_orange {cycle p : ι} (report : List ι)
    (sound : Sound ⟨heap, cycles, garbage, .round .orange cycle p⟩ layout) :
    ∃ nodes q rest state, layout.current = [⟨.object p, nodes, some (.object p)⟩] ∧
      nodes ++ [.object p] = .object q :: rest ∧
      State.around ⟨heap, cycles, garbage, .round .orange cycle p⟩ .orange cycle p report =
        some state ∧
      (q ≠ cycle → state = ⟨heap.paint p .orange, cycles, garbage, .round .orange cycle q⟩ ∧
        Turned ⟨heap, cycles, garbage, .round .orange cycle p⟩ layout state
          { layout with current := [⟨.object q, rest, some (.object q)⟩] }) ∧
      (q = cycle → state = State.collectMore ⟨heap.paint p .orange, cycle :: cycles, garbage,
          .round .orange cycle p⟩ ∧
        Listed (heap.paint p .orange) { layout with
          current := []
          cycles := ⟨.object q, rest, some (.object q)⟩ :: layout.cycles } ∧
        Turned ⟨heap, cycles, garbage, .round .orange cycle p⟩ layout state
          { layout with
            current := []
            cycles := ⟨.object q, rest, some (.object q)⟩ :: layout.cycles }) := by
  obtain ⟨member, typed⟩ := sound.stands
  have clean := sound.clean rfl
  have listed : Listed (heap.paint p .orange) layout :=
    sound.listed.congr rfl rfl rfl (fun _ _ => rfl)
  obtain ⟨nodes, q, rest, place, around, step, turned, members, size, turns⟩ :=
    ring_turn listed sound.current member
  have some' : 0 < layout.turns cycle := by
    obtain ⟨nodes, place⟩ := eq_of_ends sound.current
    simp only [Layout.turns, place]
    exact Nat.succ_pos _
  have weight : ∀ objects : Finset ι, weigh objects collectWeight (heap.paint p .orange) ≤
      weigh objects collectWeight heap :=
    fun objects => weigh_lighter (weight_paint (Nat.zero_le _))
  refine ⟨nodes, q, rest,
    if q = cycle then State.collectMore ⟨heap.paint p .orange, cycle :: cycles,
    garbage, .round .orange cycle p⟩ else ⟨heap.paint p .orange, cycles, garbage,
      .round .orange cycle q⟩, place, around, ?_, ?_, ?_⟩
  · simp only [State.around, State.turn, step, Option.map_some]
  · intro other
    rw [if_neg other]
    refine ⟨rfl, ?_, ?_⟩
    · refine sound_passing turned rfl rfl clean sound.garbage sound.cycles ⟨?_, ?_⟩
      · simp only [Strand.all_cons, Strand.all_nil, Strand.members_mk, List.append_nil]
        exact (members _).mpr member
      · intro object within
        simp only [Strand.all_cons, Strand.all_nil, Strand.members_mk, List.append_nil] at within
        exact typed object ((members _).mp within)
    · intro _ objects _
      have fewer := turns other
      have lighter := weight objects
      simp only [rank]
      omega
  · intro same
    subst same
    rw [if_pos rfl]
    have order : ({ layout with current := [⟨.object q, rest, some (.object q)⟩] } :
        Layout ι).strands = ({ layout with
          current := []
          cycles := ⟨.object q, rest, some (.object q)⟩ :: layout.cycles } :
            Layout ι).strands := by
      simp only [Layout.strands, Layout.others, Layout.spine, clean, List.nil_append,
        List.singleton_append]
    have pushed : Listed (heap.paint p .orange) { layout with
        current := []
        cycles := ⟨.object q, rest, some (.object q)⟩ :: layout.cycles } := by
      refine turned.reorder (order ▸ turned.threaded) rfl ?_
      intro node
      simp only [Layout.mem_others, clean]
      simp only [Strand.all_cons, Strand.all_nil, Strand.members_mk, List.append_nil,
        List.mem_append, List.not_mem_nil]
      tauto
    have rings : ((⟨.object q, rest, some (.object q)⟩ :: layout.cycles).map ends) =
        (q :: cycles).map loop := by
      rw [List.map_cons, List.map_cons, sound.cycles]
      rfl
    obtain ⟨kept, lower⟩ := collect_more (.round .orange q p) pushed rfl clean sound.garbage
      rings
    refine ⟨rfl, pushed, kept, ?_⟩
    intro passing objects _
    refine Nat.lt_of_le_of_lt (lower passing objects) ?_
    have lighter := weight objects
    simp only [rank]
    omega

end Roots

end Xemmai.Collector
