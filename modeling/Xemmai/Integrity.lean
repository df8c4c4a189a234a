import Mathlib.Data.Fintype.Basic
import Xemmai.Machine
import Xemmai.RootPasses

/-!
# The lists in a run of the collector

Whatever references the passes are reported, the lists stay well formed and the
loops over the roots end, as long as the pass that collects meets no white object
that is still on a list. It does not look whether it does: a run in which a
mutator stores a reference between two passes breaks the list of the roots.
-/

namespace Xemmai.Collector

set_option autoImplicit false

variable {ι : Type}

/-- The roots, the candidate cycles, the one that is being worked on and the garbage
are linked, and no object is on two of them or has a link without being on one. -/
def Integrity (state : State ι) : Prop :=
  ∃ layout : Layout ι,
    Threaded state.heap.next layout.strands ∧
    layout.current.map ends = state.control.ends ∧
    layout.garbage.map ends = state.garbage.toList.map (fun object => (.object object, none)) ∧
    layout.cycles.map ends = state.cycles.map loop ∧
    ∀ object, .object object ∉ Strand.all layout.strands →
      state.heap.allocated object = true → state.heap.next (.object object) = none

theorem Sound.integrity {state : State ι} {layout : Layout ι} (sound : Sound state layout) :
    Integrity state :=
  ⟨layout, sound.listed.threaded, sound.current, sound.garbage, sound.cycles,
    sound.listed.unlisted⟩

/-- Whether the code is in `f_collect_white`. -/
def Control.collecting : Control ι → Bool
  | .traverse (.collectWhite _) _ _ => true
  | _ => false

/-- No step of `f_collect_white` is reported a white object that is still linked. -/
def Apart (state : State ι) : Action ι → Prop
  | .tick report => state.control.collecting = true → ∀ object ∈ report,
      state.heap.color object = .white → state.heap.next (.object object) = none
  | _ => True

instance [DecidableEq ι] (state : State ι) : ∀ action, Decidable (Apart state action)
  | .tick report => inferInstanceAs (Decidable (state.control.collecting = true →
      ∀ object ∈ report, state.heap.color object = .white →
        state.heap.next (.object object) = none))
  | .increment _ => isTrue trivial
  | .decrement _ => isTrue trivial
  | .allocate _ => isTrue trivial
  | .revive _ => isTrue trivial
  | .skip => isTrue trivial

/-- The collector when it starts: no objects, and the head of the roots linked to
itself. -/
def start : State ι where
  heap := {
    next := fun node => match node with
      | .roots => some .roots
      | .object _ => none
    previous := fun node => match node with
      | .roots => some .roots
      | .object _ => none
    color := fun _ => .black
    reviving := fun _ => false
    count := fun _ => 1
    cyclic := fun _ => 0
    typed := fun _ => false
    allocated := fun _ => false
    freed := [] }
  cycles := []
  garbage := none
  control := .epoch

theorem sound_start : Sound (start : State ι) ⟨[], [], [], []⟩ := by
  refine ⟨⟨⟨?_, ?_⟩, nofun, ?_, nofun, nofun⟩, rfl, rfl, rfl, fun _ => rfl, nofun, fun _ => rfl,
    trivial⟩
  · intro strand member
    rw [List.mem_singleton.mp member]
    rfl
  · exact List.nodup_singleton _
  · intro object member
    cases List.mem_singleton.mp member

variable [DecidableEq ι]

/-- What a turn in the loops over the roots does, with live references reported. -/
theorem turned_pass {state : State ι} {layout : Layout ι} {report : List ι}
    (sound : Sound state layout) (passing : state.control.passes = true)
    (live : ∀ object ∈ report, state.heap.live object = true)
    (apart : Apart state (.tick report)) :
    ∃ after layout', state.tick report = some after ∧ Turned state layout after layout' := by
  obtain ⟨heap, cycles, garbage, control⟩ := state
  cases control with
  | prescan p => exact ⟨_, layout, rfl, turned_prescan sound⟩
  | mark p q =>
    simp only [State.tick]
    split
    · exact ⟨_, layout, rfl, turned_gray sound⟩
    · obtain ⟨before, after, place, joint⟩ := sound.stands
      obtain ⟨state, taken, turned⟩ := turned_unmark sound place joint
      exact ⟨state, _, taken, turned⟩
  | scan p =>
    obtain ⟨state, taken, turned⟩ := turned_scan report sound
    exact ⟨state, _, taken, turned⟩
  | collect =>
    obtain ⟨p, rest, place, white, other⟩ := turned_collect sound
    by_cases shade : heap.color p = .white
    · exact ⟨_, _, white shade⟩
    · obtain ⟨state, taken, _, turned⟩ := other shade
      exact ⟨state, _, taken, turned⟩
  | traverse pass object stack =>
    cases pass with
    | collectWhite cycle =>
      obtain ⟨_, _, state, _, _, taken, turned⟩ := turned_gather sound live (apart rfl)
      exact ⟨state, _, taken, turned⟩
    | _ =>
      obtain ⟨state, taken, turned⟩ := turned_visit (by simp) sound live
      exact ⟨state, _, taken, turned⟩
  | round round cycle p =>
    cases round with
    | scanRed =>
      obtain ⟨_, _, _, state, _, _, taken, _, turned⟩ := turned_scanRed sound live
      exact ⟨state, _, taken, turned⟩
    | orange =>
      obtain ⟨_, q, _, state, _, _, taken, more, last⟩ := turned_orange report sound
      by_cases same : q = cycle
      · exact ⟨state, _, taken, (last same).2.2⟩
      · exact ⟨state, _, taken, (more same).2⟩
    | _ => cases passing
  | _ => cases passing

/-- A turn that is taken was reported live references, or does not look at them. -/
theorem live_of_tick {state after : State ι} {report : List ι}
    (passing : state.control.passes = true) (apart : Apart state (.tick report))
    (taken : state.tick report = some after) :
    ∃ found, (∀ object ∈ found, state.heap.live object = true) ∧
      Apart state (.tick found) ∧ state.tick found = some after := by
  obtain ⟨heap, cycles, garbage, control⟩ := state
  cases control with
  | traverse pass object stack =>
    refine ⟨report, ?_, apart, taken⟩
    simp only [State.tick, State.visit] at taken
    split at taken
    · rename_i guard
      exact List.all_eq_true.mp guard.2
    · cases taken
  | round round cycle p =>
    cases round with
    | scanRed =>
      refine ⟨report, ?_, apart, taken⟩
      simp only [State.tick, State.around] at taken
      split at taken
      · rename_i guard
        exact List.all_eq_true.mp guard.2
      · cases taken
    | orange => exact ⟨[], by simp, by rintro ⟨⟩, taken⟩
    | _ => cases passing
  | prescan p => exact ⟨[], by simp, by rintro ⟨⟩, taken⟩
  | mark p q => exact ⟨[], by simp, by rintro ⟨⟩, taken⟩
  | scan p => exact ⟨[], by simp, by rintro ⟨⟩, taken⟩
  | collect => exact ⟨[], by simp, by rintro ⟨⟩, taken⟩
  | _ => cases passing

/-- Every turn of the collector keeps what holds of the lists. -/
theorem sound_tick {state after : State ι} {layout : Layout ι} {report : List ι}
    (sound : Sound state layout) (apart : Apart state (.tick report))
    (taken : state.tick report = some after) : ∃ layout', Sound after layout' := by
  by_cases passing : state.control.passes = true
  · obtain ⟨found, live, apart', taken'⟩ := live_of_tick passing apart taken
    obtain ⟨after', layout', reached, turned⟩ := turned_pass sound passing live apart'
    rw [reached, Option.some.injEq] at taken'
    exact ⟨layout', taken' ▸ turned.sound⟩
  · obtain ⟨heap, cycles, garbage, control⟩ := state
    cases control with
    | epoch =>
      simp only [State.tick, Option.some.injEq] at taken
      subst taken
      have tended := sound.tended rfl
      have clean := sound.clean rfl
      refine ⟨layout, tended.sound sound.current ?_ sound.cycles (by rintro ⟨⟩) trivial⟩
      rw [clean]
      rfl
    | release object stack back => exact sound_release sound taken
    | cycles => exact sound_cycles sound taken
    | testing cycle p failed => exact sound_test sound taken
    | refurbish cycle p => exact sound_refurbish sound taken
    | round round cycle p =>
      cases round with
      | redden => exact sound_redden report sound taken
      | drop =>
        simp only [State.tick, State.around] at taken
        split at taken
        · simp only [Option.some.injEq] at taken
          subst taken
          exact ⟨layout, (sound.tended rfl).sound sound.current sound.garbage sound.cycles (by rintro ⟨⟩)
            trivial⟩
        · cases taken
      | scanRed => exact absurd rfl passing
      | orange => exact absurd rfl passing
    | dropping cycle p children => exact sound_drop sound taken
    | sweep cycle p => exact sound_sweep sound taken
    | garbage => exact sound_garbage sound taken
    | roots =>
      obtain ⟨control, taken', _, kept⟩ := sound_roots report sound
      rw [taken', Option.some.injEq] at taken
      exact ⟨layout, taken ▸ kept⟩
    | _ => exact absurd rfl passing

omit [DecidableEq ι] in
theorem sound_aside {heap heap' : Heap ι} {cycles : List ι} {garbage : Option ι}
    {control : Control ι} {layout : Layout ι}
    (sound : Sound ⟨heap, cycles, garbage, control⟩ layout) (listed : Listed heap' layout)
    (previous : heap'.previous = heap.previous) (count : heap'.count = heap.count)
    (typed : ∀ object, heap.typed object = true → heap'.typed object = true)
    (allocated : ∀ object, heap.allocated object = true → heap'.allocated object = true) :
    Sound ⟨heap', cycles, garbage, control⟩ layout := by
  refine ⟨listed, sound.current, sound.garbage, sound.cycles, ?_, ?_, sound.clean, ?_⟩
  · intro outside
    have doubly := sound.doubly outside
    unfold Doubly at doubly ⊢
    simpa only [previous] using doubly
  · intro object member
    rw [count]
    exact sound.spent object member
  · have stands := sound.stands
    cases control with
    | release object stack back =>
      refine ⟨stands.1, fun other member => ?_⟩
      obtain ⟨held, none, apart⟩ := stands.2 other member
      exact ⟨allocated other held, count ▸ none, apart⟩
    | testing cycle p failed =>
      intro nodes place
      obtain ⟨unseen, seen, around, known⟩ := stands nodes place
      exact ⟨unseen, seen, around, fun other member => typed other (known other member)⟩
    | refurbish cycle p =>
      exact ⟨stands.1, fun other member => typed other (stands.2 other member)⟩
    | round round cycle p =>
      cases round with
      | scanRed => exact ⟨stands.1, fun other member => typed other (stands.2 other member)⟩
      | orange => exact ⟨stands.1, fun other member => typed other (stands.2 other member)⟩
      | _ => trivial
    | traverse pass object stack =>
      refine ⟨fun other member => typed other (stands.1 other member), ?_⟩
      cases pass with
      | collectWhite cycle => exact fun other member => typed other (stands.2 other member)
      | _ => exact stands.2
    | _ => exact stands

theorem sound_allocate {state after : State ι} {layout : Layout ι} {object : ι}
    (sound : Sound state layout) (taken : step state (.allocate object) = some after) :
    Sound after layout ∧ after = { state with heap := state.heap.allocate object } := by
  simp only [step] at taken
  split at taken
  · cases taken
  · rename_i free
    simp only [Option.some.injEq] at taken
    subst taken
    refine ⟨sound_aside sound (sound.listed.allocate (by simpa using free)) rfl rfl ?_ ?_, rfl⟩
    · intro other held
      simp only [Heap.allocate, Function.update_apply]
      split
      · rfl
      · exact held
    · intro other held
      simp only [Heap.allocate, Function.update_apply]
      split
      · rfl
      · exact held

theorem sound_revive {state after : State ι} {layout : Layout ι} {object : ι}
    (sound : Sound state layout) (taken : step state (.revive object) = some after) :
    Sound after layout ∧ after = { state with heap :=
      { state.heap with reviving := Function.update state.heap.reviving object true } } := by
  simp only [step] at taken
  split at taken
  · simp only [Option.some.injEq] at taken
    subst taken
    exact ⟨sound_aside sound (sound.listed.congr rfl rfl rfl (fun _ _ => rfl)) rfl rfl
      (fun _ held => held) (fun _ held => held), rfl⟩
  · cases taken

/-- One step of the collector or of the mutators around it. -/
theorem sound_step {state after : State ι} {action : Action ι} {layout : Layout ι}
    (sound : Sound state layout) (apart : Apart state action)
    (taken : step state action = some after) : ∃ layout', Sound after layout' := by
  obtain ⟨heap, cycles, garbage, control⟩ := state
  cases action with
  | tick report => exact sound_tick sound apart taken
  | increment object =>
    cases control with
    | epoch =>
      simp only [step] at taken
      split at taken
      · rename_i live
        simp only [Option.some.injEq] at taken
        subst taken
        have clean := sound.clean rfl
        obtain ⟨roots, kept⟩ := (sound.tended rfl).increment live
          (by rw [clean]; exact List.not_mem_nil)
        exact ⟨_, kept.sound sound.current sound.garbage sound.cycles (fun _ => clean) trivial⟩
      · cases taken
    | _ => cases taken
  | decrement object =>
    cases control with
    | epoch =>
      simp only [step] at taken
      split at taken
      · rename_i held
        have clean := sound.clean rfl
        obtain ⟨roots, kept, _⟩ := (sound.tended rfl).lower held.1 held.2
        split at taken
        · simp only [Option.some.injEq] at taken
          subst taken
          exact ⟨_, kept.sound sound.current sound.garbage sound.cycles (fun _ => clean) trivial⟩
        · rename_i none
          simp only [Option.some.injEq] at taken
          subst taken
          refine ⟨_, kept.sound sound.current sound.garbage sound.cycles (fun _ => clean)
            ⟨List.nodup_singleton _, ?_⟩⟩
          intro other member
          rw [List.mem_singleton.mp member]
          obtain ⟨next, previous, color, same⟩ := heap.lower_links object
          refine ⟨?_, Nat.eq_zero_of_not_pos none, ?_⟩
          · rw [same]
            have live := held.1
            simp only [Heap.live, Bool.and_eq_true] at live
            exact live.1
          · show ListNode.object object ∉ Strand.all layout.garbage
            rw [clean]
            exact List.not_mem_nil
      · cases taken
    | _ => cases taken
  | allocate object => exact ⟨layout, (sound_allocate sound taken).1⟩
  | revive object => exact ⟨layout, (sound_revive sound taken).1⟩
  | skip =>
    cases control with
    | roots =>
      simp only [step, Option.some.injEq] at taken
      subst taken
      exact ⟨layout, (sound.tended rfl).sound sound.current sound.garbage sound.cycles
        (fun _ => sound.clean rfl) trivial⟩
    | _ => cases taken

/-- The mutators do not touch what the loops over the roots count down. -/
theorem mutated_pass {state after : State ι} {action : Action ι} {layout : Layout ι}
    (sound : Sound state layout) (passing : state.control.passes = true)
    (mutator : ∀ report, action ≠ .tick report) (taken : step state action = some after) :
    Sound after layout ∧ ∀ objects, rank objects after layout = rank objects state layout := by
  obtain ⟨heap, cycles, garbage, control⟩ := state
  cases action with
  | tick report => exact absurd rfl (mutator report)
  | increment object =>
    cases control with
    | epoch => cases passing
    | roots => cases passing
    | _ => cases taken
  | decrement object =>
    cases control with
    | epoch => cases passing
    | roots => cases passing
    | _ => cases taken
  | skip =>
    cases control with
    | epoch => cases passing
    | roots => cases passing
    | _ => cases taken
  | allocate object =>
    obtain ⟨kept, same⟩ := sound_allocate sound taken
    exact ⟨kept, same ▸ fun _ => rfl⟩
  | revive object =>
    obtain ⟨kept, same⟩ := sound_revive sound taken
    exact ⟨kept, same ▸ fun _ => rfl⟩

def turns (actions : List (Action ι)) : Nat :=
  (actions.filter fun action => match action with
    | .tick _ => true
    | _ => false).length

/-- A run that stays in the loops over the roots takes no more turns than their
rank allows. -/
theorem turns_bounded {objects : Finset ι} (complete : ∀ object, object ∈ objects)
    (actions : List (Action ι)) : ∀ {state final : State ι} {layout : Layout ι},
    Sound state layout → Machine.Along step
      (fun state action => state.control.passes = true ∧ Apart state action) state actions →
    Machine.run step state actions = some final →
    turns actions ≤ rank objects state layout + 1 := by
  induction actions with
  | nil =>
    intro state final layout _ _ _
    exact Nat.zero_le _
  | cons action actions ih =>
    intro state final layout sound along reached
    obtain ⟨⟨passing, apart⟩, later⟩ := along
    rw [Machine.run_cons, Option.bind_eq_some_iff] at reached
    obtain ⟨after, taken, reached⟩ := reached
    have along := later after taken
    by_cases mutator : ∀ report, action ≠ .tick report
    · obtain ⟨kept, same⟩ := mutated_pass sound passing mutator taken
      have bound := ih kept along reached
      have none : turns (action :: actions) = turns actions := by
        cases action with
        | tick report => exact absurd rfl (mutator report)
        | _ => rfl
      rw [none, ← same objects]
      exact bound
    · obtain ⟨report, rfl⟩ : ∃ report, action = .tick report := by
        simpa using mutator
      obtain ⟨found, live, apart, taken'⟩ := live_of_tick passing apart taken
      obtain ⟨after', layout', enabled, turned⟩ := turned_pass sound passing live apart
      rw [taken', Option.some.injEq] at enabled
      subst enabled
      have one : turns (.tick report :: actions) = turns actions + 1 := rfl
      cases actions with
      | nil =>
        rw [one]
        exact Nat.succ_le_succ (Nat.zero_le _)
      | cons next actions =>
        have lower := turned.lowers along.1.1 objects complete
        have bound := ih turned.sound along reached
        omega

/-- In every run in which the pass that collects meets no white object that is still
linked the lists stay well formed, and from every state reached in the loops over the
roots the collector is never stuck and takes a bounded number of turns. -/
theorem integrity_of_apart [Fintype ι] {actions : List (Action ι)} {state : State ι}
    (apart : Machine.Along step Apart start actions)
    (reached : Machine.run step start actions = some state) :
    Integrity state ∧ (state.control.passes = true →
      (∀ report, (∀ object ∈ report, state.heap.live object = true) →
        Apart state (.tick report) → ∃ after, step state (.tick report) = some after) ∧
      ∃ bound, ∀ more final, Machine.Along step
          (fun state action => state.control.passes = true ∧ Apart state action) state more →
        Machine.run step state more = some final → turns more ≤ bound) := by
  obtain ⟨layout, sound⟩ : ∃ layout, Sound state layout :=
    Machine.run_along (fun state => ∃ layout, Sound state layout)
      (fun _ _ _ held apart taken => by
        obtain ⟨layout, sound⟩ := held
        exact sound_step sound apart taken)
      actions start state ⟨_, sound_start⟩ apart reached
  refine ⟨sound.integrity, fun passing => ⟨?_, ?_⟩⟩
  · intro report live apart
    obtain ⟨after, _, taken, _⟩ := turned_pass sound passing live apart
    exact ⟨after, taken⟩
  · exact ⟨_, fun more final along reached =>
      turns_bounded (fun object => Finset.mem_univ object) more sound along reached⟩

/-- Two objects of a type, each with one counted reference from a stack, up to the
first step of `f_collect_white`. A mutator has stored each of them in itself before
the marks, and that step finds what the argument says in the first one. -/
def twoRoots (found : List (Fin 3)) : List (Action (Fin 3)) :=
  [.allocate 2, .allocate 0, .allocate 1,
    .increment 2, .increment 2, .increment 2, .increment 2, .increment 0, .increment 1,
    .decrement 0, .decrement 1,
    .tick [], .tick [], .tick [], .tick [],
    .tick [], .tick [2], .tick [], .tick [2], .tick [], .tick [2],
    .tick [], .tick [], .tick [0, 2], .tick [2], .tick [], .tick [1, 2],
    .tick [], .tick [0, 2], .tick [2], .tick [], .tick [1, 2],
    .tick [], .tick found]

theorem integrity_of_two_roots : ∃ state,
    Machine.run step start (twoRoots [0, 2]) = some state ∧ Integrity state := by
  have apart : Machine.Along step Apart start (twoRoots [0, 2]) := by decide +kernel
  have taken : (Machine.run step start (twoRoots [0, 2])).isSome = true := by decide +kernel
  obtain ⟨state, reached⟩ := Option.isSome_iff_exists.mp taken
  exact ⟨state, reached, (integrity_of_apart apart reached).1⟩

theorem not_integrity {state : State (Fin 3)}
    (first : state.heap.next .roots = some (.object 1))
    (second : state.heap.next (.object 1) = some (.object 0))
    (third : state.heap.next (.object 0) = some (.object 1)) : ¬ Integrity state := by
  rintro ⟨layout, threaded, _⟩
  have linked : Chain state.heap.next .roots layout.roots (some .roots) := threaded.first
  have nodup : (.roots :: layout.roots).Nodup := threaded.first_nodup
  generalize layout.roots = roots at linked nodup
  match roots with
  | [] => simp [Chain, first] at linked
  | [node] =>
    obtain ⟨one, two⟩ := linked
    rw [first, Option.some.injEq] at one
    subst one
    simp [Chain, second] at two
  | [node, node'] =>
    obtain ⟨one, two, three⟩ := linked
    rw [first, Option.some.injEq] at one
    subst one
    rw [second, Option.some.injEq] at two
    subst two
    simp [Chain, third] at three
  | node :: node' :: node'' :: nodes =>
    obtain ⟨one, two, three, _⟩ := linked
    rw [first, Option.some.injEq] at one
    subst one
    rw [second, Option.some.injEq] at two
    subst two
    rw [third, Option.some.injEq] at three
    subst three
    simp at nodup

/-- When the first object has come to refer to the second one since the marks, the
pass that collects takes the second one out of the middle of the roots. -/
theorem integrity_lost : ∃ state,
    Machine.run step start (twoRoots [0, 1, 2]) = some state ∧ ¬ Integrity state := by
  have links : (Machine.run step start (twoRoots [0, 1, 2])).map
      (fun state => [ListNode.roots, .object 1, .object 0].map state.heap.next) =
      some [some (.object 1), some (.object 0), some (.object 1)] := by decide +kernel
  obtain ⟨state, reached, same⟩ := Option.map_eq_some_iff.mp links
  simp only [List.map_cons, List.map_nil, List.cons.injEq, and_true] at same
  exact ⟨state, reached, not_integrity same.1 same.2.1 same.2.2⟩

end Xemmai.Collector
