import Xemmai.Records

/-!
# The pointers to the records of fibers

The `v_internal` of a fiber is null or refers to a record as long as the epochs delete
no record that a fiber still refers to. The end of a fiber sets it to null in the same
action as the `v_thread` of the record; the end of a thread does so with the latter
only.
-/

namespace Xemmai.Records

set_option autoImplicit false

/-- The fiber of a thread that has been finalized, and one of the thread's records. -/
def Left (state : State) (fiber record : Nat) : Prop :=
  ∃ (number : Nat) (thread : Thread), state.threads[number]? = some thread ∧
    thread.phase = .finalized ∧ thread.fiber = fiber ∧ record ∈ thread.fibers

/-- What holds of the pointers between threads, fibers and records. -/
structure Valid (state : State) : Prop where
  record : ∀ {fiber r : Nat} {value : Fiber}, state.fiber fiber = some value →
    value.internal = some r → ∃ internal, state.internal r = some internal ∧
      internal.fiber = fiber ∧ (internal.thread = none → Left state fiber r)
  attached : ∀ {r number : Nat} {internal : Internal}, state.internal r = some internal →
    internal.thread = some number →
    (∃ thread, state.threads[number]? = some thread ∧ r ∈ thread.fibers) ∧
      ∀ value, state.fiber internal.fiber = some value → value.internal = some r
  active : ∀ {number : Nat} {thread : Thread}, state.threads[number]? = some thread →
    thread.phase ≠ .finalized →
      ∃ internal, state.internal thread.active = some internal ∧ internal.thread = some number
  main : ∀ {number : Nat} {thread : Thread}, state.threads[number]? = some thread →
    thread.phase ≠ .ended → thread.phase ≠ .finalized →
      ∃ r internal, state.fiber thread.fiber = some ⟨some r⟩ ∧
        state.internal r = some internal ∧ internal.thread = some number
  settled : ∀ {number : Nat} {thread : Thread}, state.threads[number]? = some thread →
    thread.phase = .exiting ∨ thread.phase = .ended →
      ∃ internal, state.internal thread.active = some internal ∧ internal.fiber = thread.fiber
  called : ∀ {number callee r : Nat} {thread : Thread}, state.threads[number]? = some thread →
    thread.phase = .calling callee (some r) →
      ∃ internal, state.internal r = some internal ∧ internal.fiber = callee
  single : ∀ {number other r : Nat} {thread thread' : Thread},
    state.threads[number]? = some thread → state.threads[other]? = some thread' →
      r ∈ thread.fibers → r ∈ thread'.fibers → number = other
  listed : ∀ {number r : Nat} {thread : Thread}, state.threads[number]? = some thread →
    r ∈ thread.fibers → r < state.created
  created : ∀ {r : Nat} {internal : Internal}, state.internal r = some internal → r < state.created
  objects : ∀ {fiber : Nat} {value : Fiber}, state.fiber fiber = some value →
    fiber < state.objects
  owners : ∀ {r : Nat} {internal : Internal}, state.internal r = some internal →
    internal.fiber < state.objects

theorem getElem?_set_cases {threads : List Thread} {number other : Nat} {after thread : Thread}
    (found : (threads.set number after)[other]? = some thread) :
    other = number ∧ thread = after ∨ other ≠ number ∧ threads[other]? = some thread := by
  rw [List.getElem?_set] at found
  split at found
  case isTrue same =>
    split at found
    case isTrue => exact .inl ⟨same.symm, (Option.some.inj found).symm⟩
    case isFalse => cases found
  case isFalse apart => exact .inr ⟨fun same => apart same.symm, found⟩

theorem getElem?_set_of {threads : List Thread} {number other : Nat} {thread : Thread}
    (after : Thread) (found : threads[other]? = some thread) :
    (threads.set number after)[other]? = some (if other = number then after else thread) := by
  obtain ⟨short, -⟩ := List.getElem?_eq_some_iff.mp found
  rw [List.getElem?_set]
  by_cases same : number = other
  · subst same
    rw [if_pos rfl, if_pos short, if_pos rfl]
  · rw [if_neg same, if_neg fun equal => same equal.symm, found]

/-- A thread that is not finalized goes on to a record of its own. -/
theorem Valid.put {state : State} (valid : Valid state) {number : Nat} {thread after : Thread}
    (found : state.threads[number]? = some thread) (fiber : after.fiber = thread.fiber)
    (fibers : after.fibers = thread.fibers) (open_ : thread.phase ≠ .finalized)
    (going : thread.phase ≠ .ended) (stays : after.phase ≠ .finalized)
    (active : ∃ internal, state.internal after.active = some internal ∧
      internal.thread = some number)
    (settled : after.phase = .exiting ∨ after.phase = .ended →
      ∃ internal, state.internal after.active = some internal ∧ internal.fiber = after.fiber)
    (called : ∀ callee r, after.phase = .calling callee (some r) →
      ∃ internal, state.internal r = some internal ∧ internal.fiber = callee) :
    Valid (state.put number after) := by
  have listed : ∀ {other : Nat} {t : Thread}, (state.threads.set number after)[other]? = some t →
      ∃ t', state.threads[other]? = some t' ∧ t'.fibers = t.fibers := by
    intro other t at_
    rcases getElem?_set_cases at_ with ⟨rfl, rfl⟩ | ⟨-, at_⟩
    · exact ⟨thread, found, fibers.symm⟩
    · exact ⟨t, at_, rfl⟩
  refine ⟨?_, ?_, ?_, ?_, ?_, ?_, ?_, ?_, valid.created, valid.objects, valid.owners⟩
  · intro f r value live points
    obtain ⟨internal, present, owner, left⟩ := valid.record live points
    refine ⟨internal, present, owner, fun detached => ?_⟩
    obtain ⟨other, t, at_, over_, same, member⟩ := left detached
    have apart : other ≠ number := by
      rintro rfl
      obtain rfl := Option.some.inj (at_.symm.trans found)
      exact open_ over_
    refine ⟨other, t, ?_, over_, same, member⟩
    have kept : (state.threads.set number after)[other]? =
      some (if other = number then after else t) := getElem?_set_of after at_
    rwa [if_neg apart] at kept
  · intro r other internal present belongs
    obtain ⟨⟨t, at_, member⟩, points⟩ := valid.attached present belongs
    refine ⟨⟨_, getElem?_set_of after at_, ?_⟩, points⟩
    split
    case isTrue same =>
      subst same
      obtain rfl := Option.some.inj (at_.symm.trans found)
      exact fibers ▸ member
    case isFalse => exact member
  · intro other t at_ live
    rcases getElem?_set_cases at_ with ⟨rfl, rfl⟩ | ⟨-, at_⟩
    · exact active
    · exact valid.active at_ live
  · intro other t at_ unended live
    rcases getElem?_set_cases at_ with ⟨rfl, rfl⟩ | ⟨-, at_⟩
    · obtain ⟨r, internal, points, present, belongs⟩ := valid.main found going open_
      exact ⟨r, internal, fiber ▸ points, present, belongs⟩
    · exact valid.main at_ unended live
  · intro other t at_ over_
    rcases getElem?_set_cases at_ with ⟨rfl, rfl⟩ | ⟨-, at_⟩
    · exact settled over_
    · exact valid.settled at_ over_
  · intro other callee r t at_ calling
    rcases getElem?_set_cases at_ with ⟨rfl, rfl⟩ | ⟨-, at_⟩
    · exact called callee r calling
    · exact valid.called at_ calling
  · intro first second r t t' one two member member'
    obtain ⟨u, at_, same⟩ := listed one
    obtain ⟨u', at_', same'⟩ := listed two
    exact valid.single at_ at_' (same ▸ member) (same' ▸ member')
  · intro other r t at_ member
    obtain ⟨u, at_, same⟩ := listed at_
    exact valid.listed at_ (same ▸ member)

variable {state : State} {number : Nat} {thread : Thread}

theorem Valid.instantiate (valid : Valid state) : Valid state.instantiate := by
  have old : ∀ {f : Nat}, f ≠ state.objects → state.instantiate.fiber f = state.fiber f :=
    fun other => Function.update_of_ne other _ _
  have new : state.instantiate.fiber state.objects = some ⟨none⟩ := Function.update_self ..
  have kept : ∀ {f : Nat} {value : Fiber}, state.fiber f = some value →
      state.instantiate.fiber f = some value := fun live =>
    (old (Nat.ne_of_lt (valid.objects live))).trans live
  refine ⟨?_, ?_, valid.active, ?_, valid.settled, valid.called, valid.single, valid.listed,
    valid.created, ?_, fun present => Nat.lt_succ_of_lt (valid.owners present)⟩
  · intro f r value live points
    rcases eq_or_ne f state.objects with rfl | other
    · cases new.symm.trans live
      cases points
    · exact valid.record ((old other).symm.trans live) points
  · intro r number internal present belongs
    obtain ⟨member, points⟩ := valid.attached present belongs
    refine ⟨member, fun value live => points value ?_⟩
    exact (old (Nat.ne_of_lt (valid.owners present))).symm.trans live
  · intro number thread found unended live
    obtain ⟨r, internal, points, present, belongs⟩ := valid.main found unended live
    exact ⟨r, internal, kept points, present, belongs⟩
  · intro f value live
    show f < state.objects + 1
    rcases eq_or_ne f state.objects with rfl | other
    · omega
    · exact Nat.lt_succ_of_lt (valid.objects ((old other).symm.trans live))

theorem Valid.free (valid : Valid state) {fiber : Nat} (unused : state.refers fiber = false) :
    Valid (state.setFiber fiber none) := by
  have kept : ∀ {f : Nat} {value : Fiber}, (state.setFiber fiber none).fiber f = some value →
      f ≠ fiber ∧ state.fiber f = some value := by
    intro f value live
    rcases eq_or_ne f fiber with rfl | other
    · have none : (state.setFiber f none).fiber f = none := Function.update_self ..
      cases none.symm.trans live
    · exact ⟨other, (Function.update_of_ne other _ _).symm.trans live⟩
  refine ⟨fun live => valid.record (kept live).2, ?_, valid.active, ?_, valid.settled, valid.called,
    valid.single, valid.listed, valid.created, fun live => valid.objects (kept live).2,
    valid.owners⟩
  · intro r number internal present belongs
    obtain ⟨member, points⟩ := valid.attached present belongs
    exact ⟨member, fun value live => points value (kept live).2⟩
  · intro number thread found unended live
    obtain ⟨r, internal, points, present, belongs⟩ := valid.main found unended live
    have other : thread.fiber ≠ fiber := by
      have apart := List.any_eq_false.mp unused thread (List.mem_of_getElem? found)
      intro same
      cases phase : thread.phase <;> simp_all
    exact ⟨r, internal, (Function.update_of_ne other _ _).trans points, present, belongs⟩

theorem getElem?_append_cases {threads : List Thread} {new : Thread}
    (found : (threads ++ [new])[number]? = some thread) :
    number = threads.length ∧ thread = new ∨ threads[number]? = some thread := by
  rcases Nat.lt_or_ge number threads.length with short | long
  · rw [List.getElem?_append_left short] at found
    exact .inr found
  · rw [List.getElem?_append_right long] at found
    have zero : number - threads.length = 0 := by
      by_contra more
      rw [List.getElem?_eq_none (by simp; omega)] at found
      cases found
    rw [zero] at found
    exact .inl ⟨by omega, (Option.some.inj found).symm⟩

theorem Valid.fork (valid : Valid state) : Valid state.fork := by
  have fiberNew : state.fork.fiber state.objects = some ⟨some state.created⟩ :=
    Function.update_self ..
  have internalNew : state.fork.internal state.created =
    some ⟨some state.threads.length, state.objects⟩ := Function.update_self ..
  have fiberOld : ∀ {f : Nat}, f ≠ state.objects → state.fork.fiber f = state.fiber f :=
    fun other => Function.update_of_ne other _ _
  have internalOld : ∀ {r : Nat}, r ≠ state.created → state.fork.internal r = state.internal r :=
    fun other => Function.update_of_ne other _ _
  have fiberKept : ∀ {f : Nat} {value : Fiber}, state.fiber f = some value →
      state.fork.fiber f = some value := fun live =>
    (fiberOld (Nat.ne_of_lt (valid.objects live))).trans live
  have internalKept : ∀ {r : Nat} {internal : Internal}, state.internal r = some internal →
      state.fork.internal r = some internal := fun present =>
    (internalOld (Nat.ne_of_lt (valid.created present))).trans present
  have threadKept : ∀ {n : Nat} {t : Thread}, state.threads[n]? = some t →
      state.fork.threads[n]? = some t := fun {n} {t} found => by
    obtain ⟨short, -⟩ := List.getElem?_eq_some_iff.mp found
    show (state.threads ++ _)[n]? = some t
    rw [List.getElem?_append_left short, found]
  have threadNew : state.fork.threads[state.threads.length]? =
      some ⟨state.objects, [state.created], state.created, false, .running, 0⟩ := by
    show (state.threads ++ _)[state.threads.length]? = _
    simp
  refine ⟨?_, ?_, ?_, ?_, ?_, ?_, ?_, ?_, ?_, ?_, ?_⟩
  · intro f r value live points
    rcases eq_or_ne f state.objects with rfl | other
    · cases fiberNew.symm.trans live
      cases points
      exact ⟨_, internalNew, rfl, nofun⟩
    · obtain ⟨internal, present, owner, left⟩ :=
        valid.record ((fiberOld other).symm.trans live) points
      refine ⟨internal, internalKept present, owner, fun detached => ?_⟩
      obtain ⟨n, t, found, over_, same, member⟩ := left detached
      exact ⟨n, t, threadKept found, over_, same, member⟩
  · intro r n internal present belongs
    rcases eq_or_ne r state.created with rfl | other
    · cases internalNew.symm.trans present
      cases belongs
      refine ⟨⟨_, threadNew, List.mem_singleton.mpr rfl⟩, fun value live => ?_⟩
      cases fiberNew.symm.trans live
      rfl
    · have before := (internalOld other).symm.trans present
      obtain ⟨⟨t, found, member⟩, points⟩ := valid.attached before belongs
      refine ⟨⟨t, threadKept found, member⟩, fun value live => points value ?_⟩
      exact (fiberOld (Nat.ne_of_lt (valid.owners before))).symm.trans live
  · intro n t found live
    rcases getElem?_append_cases found with ⟨rfl, rfl⟩ | found
    · exact ⟨_, internalNew, rfl⟩
    · obtain ⟨internal, present, belongs⟩ := valid.active found live
      exact ⟨internal, internalKept present, belongs⟩
  · intro n t found unended live
    rcases getElem?_append_cases found with ⟨rfl, rfl⟩ | found
    · exact ⟨state.created, _, fiberNew, internalNew, rfl⟩
    · obtain ⟨r, internal, points, present, belongs⟩ := valid.main found unended live
      exact ⟨r, internal, fiberKept points, internalKept present, belongs⟩
  · intro n t found over_
    rcases getElem?_append_cases found with ⟨rfl, rfl⟩ | found
    · simp at over_
    · obtain ⟨internal, present, owner⟩ := valid.settled found over_
      exact ⟨internal, internalKept present, owner⟩
  · intro n callee r t found calling
    rcases getElem?_append_cases found with ⟨rfl, rfl⟩ | found
    · cases calling
    · obtain ⟨internal, present, owner⟩ := valid.called found calling
      exact ⟨internal, internalKept present, owner⟩
  · intro n m r t t' one two member member'
    rcases getElem?_append_cases one with ⟨rfl, rfl⟩ | one
    · rcases getElem?_append_cases two with ⟨rfl, rfl⟩ | two
      · rfl
      · have less := valid.listed two member'
        rw [List.mem_singleton.mp member] at less
        omega
    · rcases getElem?_append_cases two with ⟨rfl, rfl⟩ | two
      · have less := valid.listed one member
        rw [List.mem_singleton.mp member'] at less
        omega
      · exact valid.single one two member member'
  · intro n r t found member
    show r < state.created + 1
    rcases getElem?_append_cases found with ⟨rfl, rfl⟩ | found
    · rw [List.mem_singleton.mp member]
      omega
    · exact Nat.lt_succ_of_lt (valid.listed found member)
  · intro r internal present
    show r < state.created + 1
    rcases eq_or_ne r state.created with rfl | other
    · omega
    · exact Nat.lt_succ_of_lt (valid.created ((internalOld other).symm.trans present))
  · intro f value live
    show f < state.objects + 1
    rcases eq_or_ne f state.objects with rfl | other
    · omega
    · exact Nat.lt_succ_of_lt (valid.objects ((fiberOld other).symm.trans live))
  · intro r internal present
    show internal.fiber < state.objects + 1
    rcases eq_or_ne r state.created with rfl | other
    · cases internalNew.symm.trans present
      exact Nat.lt_succ_self _
    · exact Nat.lt_succ_of_lt (valid.owners ((internalOld other).symm.trans present))

theorem Valid.call (valid : Valid state) {after : State}
    (found : state.threads[number]? = some thread) (running : thread.phase = .running)
    {callee : Nat} (taken : state.call number thread callee = some after) : Valid after := by
  have open_ : thread.phase ≠ .finalized := by rw [running]; nofun
  have going : thread.phase ≠ .ended := by rw [running]; nofun
  have current := valid.active found open_
  simp only [State.call, Option.bind_eq_bind, Option.bind_eq_some_iff] at taken
  obtain ⟨active, -, value, live, taken⟩ := taken
  split at taken
  case isTrue => cases taken; exact valid
  case isFalse =>
    cases taken
    refine valid.put found rfl rfl open_ going nofun current (by simp) ?_
    intro other r calling
    injection calling with same points
    subst same
    obtain ⟨internal, present, owner, -⟩ := valid.record live points
    exact ⟨internal, present, owner⟩

/-- A fiber of the thread's own: the pointer that has been read is still that of the
fiber. -/
theorem Valid.switch_some (valid : Valid state) {after : State}
    (found : state.threads[number]? = some thread) {callee target : Nat}
    (calling : thread.phase = .calling callee (some target))
    (taken : state.switch number thread callee (some target) = some after) : Valid after := by
  have open_ : thread.phase ≠ .finalized := by rw [calling]; nofun
  have going : thread.phase ≠ .ended := by rw [calling]; nofun
  have current := valid.active found open_
  obtain ⟨internal, present, owner⟩ := valid.called found calling
  simp only [State.switch, Option.bind_eq_bind, present, Option.bind_some] at taken
  split at taken
  case isTrue own =>
    obtain ⟨value, live, taken⟩ := Option.bind_eq_some_iff.mp taken
    obtain ⟨active, points, taken⟩ := Option.bind_eq_some_iff.mp taken
    cases taken
    have same := (valid.attached present own).2 value (owner ▸ live)
    obtain rfl : active = target := Option.some.inj (points.symm.trans same)
    exact valid.put found rfl rfl open_ going nofun ⟨internal, present, own⟩ (by simp) nofun
  case isFalse =>
    cases taken
    exact valid.put found rfl rfl open_ going nofun current (by simp) nofun

theorem Valid.switch_none (valid : Valid state) {after : State}
    (found : state.threads[number]? = some thread) {callee : Nat}
    (calling : thread.phase = .calling callee none)
    (idle : ∀ value, state.fiber callee = some value → value.internal = none)
    (taken : state.switch number thread callee none = some after) : Valid after := by
  have open_ : thread.phase ≠ .finalized := by rw [calling]; nofun
  have going : thread.phase ≠ .ended := by rw [calling]; nofun
  simp only [State.switch, Option.bind_eq_bind, Option.bind_eq_some_iff] at taken
  obtain ⟨value, live, taken⟩ := taken
  have unset := idle value live
  have fiberNew : after.fiber callee = some ⟨some state.created⟩ := by
    cases taken
    exact Function.update_self ..
  have internalNew : after.internal state.created = some ⟨some number, callee⟩ := by
    cases taken
    exact Function.update_self ..
  have fiberOld : ∀ {f : Nat}, f ≠ callee → after.fiber f = state.fiber f := by
    cases taken
    exact fun other => Function.update_of_ne other _ _
  have internalOld : ∀ {r : Nat}, r ≠ state.created → after.internal r = state.internal r := by
    cases taken
    exact fun other => Function.update_of_ne other _ _
  have count : after.created = state.created + 1 ∧ after.objects = state.objects := by
    cases taken
    exact ⟨rfl, rfl⟩
  have threads : after.threads = state.threads.set number ⟨thread.fiber,
      state.created :: thread.fibers, state.created, thread.over_, .running, thread.done⟩ := by
    cases taken
    rfl
  have internalKept : ∀ {r : Nat} {internal : Internal}, state.internal r = some internal →
      after.internal r = some internal := fun present =>
    (internalOld (Nat.ne_of_lt (valid.created present))).trans present
  have other : ∀ {f r : Nat}, state.fiber f = some ⟨some r⟩ → f ≠ callee := by
    rintro f r points rfl
    cases idle _ points
  have lists : ∀ {n r : Nat} {t : Thread}, after.threads[n]? = some t → r ∈ t.fibers →
      n = number ∧ r = state.created ∨
        ∃ t', state.threads[n]? = some t' ∧ r ∈ t'.fibers := by
    intro n r t at_ member
    rw [threads] at at_
    rcases getElem?_set_cases at_ with ⟨rfl, rfl⟩ | ⟨-, at_⟩
    · rcases List.mem_cons.mp member with rfl | member
      · exact .inl ⟨rfl, rfl⟩
      · exact .inr ⟨thread, found, member⟩
    · exact .inr ⟨t, at_, member⟩
  refine ⟨?_, ?_, ?_, ?_, ?_, ?_, ?_, ?_, ?_, ?_, ?_⟩
  · intro f r value' live' points
    rcases eq_or_ne f callee with rfl | apart
    · cases fiberNew.symm.trans live'
      cases points
      exact ⟨_, internalNew, rfl, nofun⟩
    · obtain ⟨internal, present, owner, left⟩ :=
        valid.record ((fiberOld apart).symm.trans live') points
      refine ⟨internal, internalKept present, owner, fun detached => ?_⟩
      obtain ⟨n, t, at_, over_, same, member⟩ := left detached
      have away : n ≠ number := by
        rintro rfl
        obtain rfl := Option.some.inj (at_.symm.trans found)
        exact open_ over_
      refine ⟨n, t, ?_, over_, same, member⟩
      rw [threads, getElem?_set_of _ at_, if_neg away]
  · intro r n internal present belongs
    rcases eq_or_ne r state.created with rfl | apart
    · cases internalNew.symm.trans present
      cases belongs
      refine ⟨⟨_, threads ▸ getElem?_set_of _ found, ?_⟩, fun value live => ?_⟩
      · rw [if_pos rfl]
        exact List.mem_cons_self
      · cases fiberNew.symm.trans live
        rfl
    · have before := (internalOld apart).symm.trans present
      obtain ⟨⟨t, at_, member⟩, points⟩ := valid.attached before belongs
      have away : internal.fiber ≠ callee := by
        rintro rfl
        cases unset.symm.trans (points value live)
      refine ⟨⟨_, threads ▸ getElem?_set_of _ at_, ?_⟩, fun value live =>
        points value ((fiberOld away).symm.trans live)⟩
      split
      case isTrue same =>
        subst same
        obtain rfl := Option.some.inj (at_.symm.trans found)
        exact List.mem_cons_of_mem _ member
      case isFalse => exact member
  · intro n t at_ live
    rw [threads] at at_
    rcases getElem?_set_cases at_ with ⟨rfl, rfl⟩ | ⟨-, at_⟩
    · exact ⟨_, internalNew, rfl⟩
    · obtain ⟨internal, present, belongs⟩ := valid.active at_ live
      exact ⟨internal, internalKept present, belongs⟩
  · intro n t at_ unended live
    rw [threads] at at_
    rcases getElem?_set_cases at_ with ⟨rfl, rfl⟩ | ⟨-, at_⟩
    · obtain ⟨r, internal, points, present, belongs⟩ := valid.main found going open_
      exact ⟨r, internal, (fiberOld (other points)).trans points, internalKept present, belongs⟩
    · obtain ⟨r, internal, points, present, belongs⟩ := valid.main at_ unended live
      exact ⟨r, internal, (fiberOld (other points)).trans points, internalKept present, belongs⟩
  · intro n t at_ over_
    rw [threads] at at_
    rcases getElem?_set_cases at_ with ⟨rfl, rfl⟩ | ⟨-, at_⟩
    · simp at over_
    · obtain ⟨internal, present, owner⟩ := valid.settled at_ over_
      exact ⟨internal, internalKept present, owner⟩
  · intro n f r t at_ calling
    rw [threads] at at_
    rcases getElem?_set_cases at_ with ⟨rfl, rfl⟩ | ⟨-, at_⟩
    · cases calling
    · obtain ⟨internal, present, owner⟩ := valid.called at_ calling
      exact ⟨internal, internalKept present, owner⟩
  · intro n m r t t' one two member member'
    rcases lists one member with ⟨rfl, rfl⟩ | ⟨u, at_, member⟩
    · rcases lists two member' with ⟨rfl, -⟩ | ⟨u, at_, member'⟩
      · rfl
      · exact absurd (valid.listed at_ member') (Nat.lt_irrefl _)
    · rcases lists two member' with ⟨rfl, rfl⟩ | ⟨u', at_', member'⟩
      · exact absurd (valid.listed at_ member) (Nat.lt_irrefl _)
      · exact valid.single at_ at_' member member'
  · intro n r t at_ member
    rw [count.1]
    rcases lists at_ member with ⟨-, rfl⟩ | ⟨u, at_, member⟩
    · exact Nat.lt_succ_self _
    · exact Nat.lt_succ_of_lt (valid.listed at_ member)
  · intro r internal present
    rw [count.1]
    rcases eq_or_ne r state.created with rfl | apart
    · exact Nat.lt_succ_self _
    · exact Nat.lt_succ_of_lt (valid.created ((internalOld apart).symm.trans present))
  · intro f value' live'
    rw [count.2]
    rcases eq_or_ne f callee with rfl | apart
    · exact valid.objects live
    · exact valid.objects ((fiberOld apart).symm.trans live')
  · intro r internal present
    rw [count.2]
    rcases eq_or_ne r state.created with rfl | apart
    · cases internalNew.symm.trans present
      exact valid.objects live
    · exact valid.owners ((internalOld apart).symm.trans present)

/-- The `v_thread` of the active record of a thread becomes null: its fiber lets go of
the record, or is that of a thread that has been finalized. -/
theorem Valid.detach (valid : Valid state) {after : State} {next : Thread} {own : Internal}
    (found : state.threads[number]? = some thread) (open_ : thread.phase ≠ .finalized)
    (current : state.internal thread.active = some own) (belongs : own.thread = some number)
    (internals : after.internal =
      Function.update state.internal thread.active (some ⟨none, own.fiber⟩))
    (threads : after.threads = state.threads.set number next)
    (lists : next.fibers = thread.fibers)
    (count : after.created = state.created ∧ after.objects = state.objects)
    (fibers : ∀ f, f ≠ own.fiber → after.fiber f = state.fiber f)
    (gone : ∀ value, after.fiber own.fiber = some value →
      ∃ before, state.fiber own.fiber = some before ∧
        (value.internal = none ∨ value = before ∧ Left after own.fiber thread.active))
    (active : next.phase ≠ .finalized →
      ∃ internal, after.internal next.active = some internal ∧ internal.thread = some number)
    (main : next.phase ≠ .finalized → ∃ r internal, after.fiber next.fiber = some ⟨some r⟩ ∧
      after.internal r = some internal ∧ internal.thread = some number)
    (settled : next.phase = .exiting ∨ next.phase = .ended →
      ∃ internal, after.internal next.active = some internal ∧ internal.fiber = next.fiber)
    (idle : ∀ callee read, next.phase ≠ .calling callee read) :
    Valid after := by
  have internalNew : after.internal thread.active = some ⟨none, own.fiber⟩ := by
    rw [internals, Function.update_self]
  have internalOld : ∀ {p : Nat}, p ≠ thread.active → after.internal p = state.internal p := by
    intro p other
    rw [internals, Function.update_of_ne other]
  have foreign : ∀ {p n : Nat} {other : Internal}, state.internal p = some other →
      other.thread = some n → n ≠ number → p ≠ thread.active := by
    rintro p n other known has away rfl
    obtain rfl := Option.some.inj (known.symm.trans current)
    exact away (Option.some.inj (has.symm.trans belongs))
  have owners : ∀ {p : Nat} {other : Internal}, after.internal p = some other →
      ∃ before, state.internal p = some before ∧ before.fiber = other.fiber := by
    intro p other present
    rcases eq_or_ne p thread.active with rfl | apart
    · cases internalNew.symm.trans present
      exact ⟨own, current, rfl⟩
    · exact ⟨other, (internalOld apart).symm.trans present, rfl⟩
  have listed : ∀ {n : Nat} {t : Thread}, after.threads[n]? = some t →
      ∃ t', state.threads[n]? = some t' ∧ t'.fibers = t.fibers := by
    intro n t at_
    rw [threads] at at_
    rcases getElem?_set_cases at_ with ⟨rfl, rfl⟩ | ⟨-, at_⟩
    · exact ⟨thread, found, lists.symm⟩
    · exact ⟨t, at_, rfl⟩
  refine ⟨?_, ?_, ?_, ?_, ?_, ?_, ?_, ?_, ?_, ?_, ?_⟩
  · intro f p value live points
    rcases eq_or_ne f own.fiber with rfl | apart
    · obtain ⟨before, known, none | ⟨rfl, left⟩⟩ := gone value live
      · cases points.symm.trans none
      · have same := (valid.attached current belongs).2 value known
        obtain rfl : p = thread.active := Option.some.inj (points.symm.trans same)
        exact ⟨_, internalNew, rfl, fun _ => left⟩
    · obtain ⟨internal, present, owner, left⟩ :=
        valid.record ((fibers f apart).symm.trans live) points
      have other : p ≠ thread.active := by
        rintro rfl
        obtain rfl := Option.some.inj (present.symm.trans current)
        exact apart owner.symm
      refine ⟨internal, (internalOld other).trans present, owner, fun detached => ?_⟩
      obtain ⟨n, t, at_, over_, same, member⟩ := left detached
      have away : n ≠ number := by
        rintro rfl
        obtain rfl := Option.some.inj (at_.symm.trans found)
        exact open_ over_
      refine ⟨n, t, ?_, over_, same, member⟩
      rw [threads, getElem?_set_of _ at_, if_neg away]
  · intro p n internal present has
    have other : p ≠ thread.active := by
      rintro rfl
      cases internalNew.symm.trans present
      cases has
    have before := (internalOld other).symm.trans present
    obtain ⟨⟨t, at_, member⟩, points⟩ := valid.attached before has
    refine ⟨⟨_, threads ▸ getElem?_set_of _ at_, ?_⟩, fun value live => ?_⟩
    · split
      case isTrue same =>
        subst same
        obtain rfl := Option.some.inj (at_.symm.trans found)
        exact lists ▸ member
      case isFalse => exact member
    · rcases eq_or_ne internal.fiber own.fiber with same | apart
      · obtain ⟨value', known, -⟩ := gone value (same ▸ live)
        have first := points value' (same ▸ known)
        have second := (valid.attached current belongs).2 value' known
        exact absurd (Option.some.inj (first.symm.trans second)) other
      · exact points value ((fibers _ apart).symm.trans live)
  · intro n t at_ live
    rw [threads] at at_
    rcases getElem?_set_cases at_ with ⟨rfl, rfl⟩ | ⟨away, at_⟩
    · exact active live
    · obtain ⟨internal, present, has⟩ := valid.active at_ live
      exact ⟨internal, (internalOld (foreign present has away)).trans present, has⟩
  · intro n t at_ unended live
    rw [threads] at at_
    rcases getElem?_set_cases at_ with ⟨rfl, rfl⟩ | ⟨away, at_⟩
    · exact main live
    · obtain ⟨p, internal, points, present, has⟩ := valid.main at_ unended live
      have other := foreign present has away
      have apart : t.fiber ≠ own.fiber := by
        intro same
        have second := (valid.attached current belongs).2 _ (same ▸ points)
        exact other (Option.some.inj second)
      exact ⟨p, internal, (fibers _ apart).trans points, (internalOld other).trans present, has⟩
  · intro n t at_ over_
    rw [threads] at at_
    rcases getElem?_set_cases at_ with ⟨rfl, rfl⟩ | ⟨away, at_⟩
    · exact settled over_
    · obtain ⟨internal, present, owner⟩ := valid.settled at_ over_
      obtain ⟨internal', present', has⟩ := valid.active at_ (by
        rcases over_ with over_ | over_ <;> rw [over_] <;> nofun)
      exact ⟨internal, (internalOld (foreign present' has away)).trans present, owner⟩
  · intro n callee p t at_ calling
    rw [threads] at at_
    rcases getElem?_set_cases at_ with ⟨rfl, rfl⟩ | ⟨-, at_⟩
    · exact absurd calling (idle callee _)
    · obtain ⟨internal, present, owner⟩ := valid.called at_ calling
      rcases eq_or_ne p thread.active with rfl | other
      · obtain rfl := Option.some.inj (present.symm.trans current)
        exact ⟨_, internalNew, owner⟩
      · exact ⟨internal, (internalOld other).trans present, owner⟩
  · intro n m p t t' one two member member'
    obtain ⟨u, at_, same⟩ := listed one
    obtain ⟨u', at_', same'⟩ := listed two
    exact valid.single at_ at_' (same ▸ member) (same' ▸ member')
  · intro n p t at_ member
    obtain ⟨u, at_, same⟩ := listed at_
    exact count.1 ▸ valid.listed at_ (same ▸ member)
  · intro p internal present
    obtain ⟨before, known, -⟩ := owners present
    exact count.1 ▸ valid.created known
  · intro f value live
    rw [count.2]
    rcases eq_or_ne f own.fiber with rfl | apart
    · obtain ⟨before, known, -⟩ := gone value live
      exact valid.objects known
    · exact valid.objects ((fibers f apart).symm.trans live)
  · intro p internal present
    obtain ⟨before, known, same⟩ := owners present
    rw [count.2, ← same]
    exact valid.owners known

theorem Valid.finish (valid : Valid state) {after : State}
    (found : state.threads[number]? = some thread) (running : thread.phase = .running)
    (taken : state.finish number thread = some after) : Valid after := by
  have open_ : thread.phase ≠ .finalized := by rw [running]; nofun
  have going : thread.phase ≠ .ended := by rw [running]; nofun
  obtain ⟨own, current, belongs⟩ := valid.active found open_
  obtain ⟨r, record, points, present, attached⟩ := valid.main found going open_
  simp only [State.finish, Option.bind_eq_bind, current, Option.bind_some, points] at taken
  split at taken
  case isTrue => cases taken
  case isFalse apart =>
    simp only [Option.bind_eq_some_iff] at taken
    obtain ⟨value, live, ended, named, internal, known, taken⟩ := taken
    obtain rfl : ended = thread.active :=
      Option.some.inj (named.symm.trans ((valid.attached current belongs).2 value live))
    obtain rfl : internal = own := Option.some.inj (known.symm.trans current)
    obtain ⟨main, known', owner, -⟩ := valid.record points rfl
    obtain rfl : main = record := Option.some.inj (known'.symm.trans present)
    have other : r ≠ thread.active := by
      rintro rfl
      obtain rfl := Option.some.inj (known'.symm.trans current)
      exact apart owner
    have kept : Function.update state.internal thread.active (some ⟨none, internal.fiber⟩) r =
        some main := (Function.update_of_ne other _ _).trans present
    cases taken
    refine valid.detach found open_ current belongs rfl rfl rfl ⟨rfl, rfl⟩
      (fun f apart => Function.update_of_ne apart _ _) ?_ ?_ ?_ ?_ ?_
    · intro value' live'
      cases (Function.update_self ..).symm.trans live'
      exact ⟨value, live, .inl rfl⟩
    · intro _
      exact ⟨main, kept, attached⟩
    · intro _
      exact ⟨r, main, (Function.update_of_ne (fun same => apart same.symm) _ _).trans points,
        kept, attached⟩
    · intro _
      exact ⟨main, kept, owner⟩
    · intro callee read
      show (if thread.over_ then Phase.exiting else .running) ≠ _
      split <;> nofun

theorem Valid.finalize (valid : Valid state) {after : State}
    (found : state.threads[number]? = some thread) (ended : thread.phase = .ended)
    (taken : state.finalize number thread = some after) : Valid after := by
  have open_ : thread.phase ≠ .finalized := by rw [ended]; nofun
  obtain ⟨own, current, belongs⟩ := valid.active found open_
  obtain ⟨own', current', owner⟩ := valid.settled found (.inr ended)
  obtain rfl : own' = own := Option.some.inj (current'.symm.trans current)
  obtain ⟨⟨t, at_, member⟩, -⟩ := valid.attached current belongs
  obtain rfl := Option.some.inj (at_.symm.trans found)
  simp only [State.finalize, Option.bind_eq_bind, current, Option.bind_some] at taken
  cases taken
  refine valid.detach found open_ current belongs rfl rfl rfl ⟨rfl, rfl⟩ (fun f _ => rfl) ?_
    (fun live => absurd rfl live) (fun live => absurd rfl live) (by simp) nofun
  intro value live
  refine ⟨value, live, .inr ⟨rfl, number, _, getElem?_set_of _ found, ?_⟩⟩
  rw [if_pos rfl]
  exact ⟨rfl, owner.symm, member⟩

theorem Valid.exit (valid : Valid state) {after : State}
    (found : state.threads[number]? = some thread) (running : thread.phase = .running)
    (taken : state.exit number thread = some after) : Valid after := by
  have open_ : thread.phase ≠ .finalized := by rw [running]; nofun
  have going : thread.phase ≠ .ended := by rw [running]; nofun
  obtain ⟨own, current, belongs⟩ := valid.active found open_
  simp only [State.exit, Option.bind_eq_bind, current, Option.bind_some] at taken
  split at taken
  case isTrue => cases taken
  case isFalse last =>
    cases taken
    have owner : own.fiber = thread.fiber := by
      simp only [Bool.or_eq_true, decide_eq_true_eq, not_or, not_not] at last
      exact last.2
    exact valid.put found rfl rfl open_ going nofun ⟨own, current, belongs⟩
      (fun _ => ⟨own, current, owner⟩) nofun

theorem Valid.next (valid : Valid state) {after : State}
    (found : state.threads[number]? = some thread) (exiting : thread.phase = .exiting)
    (taken : state.next number thread = some after) : Valid after := by
  have open_ : thread.phase ≠ .finalized := by rw [exiting]; nofun
  have going : thread.phase ≠ .ended := by rw [exiting]; nofun
  have current := valid.active found open_
  have own := valid.settled found (.inl exiting)
  obtain ⟨r, record, points, present, attached⟩ := valid.main found going open_
  simp only [State.next, Option.bind_eq_bind, points, Option.bind_some,
    Option.bind_eq_some_iff] at taken
  obtain ⟨p, first, taken⟩ := taken
  split at taken
  case isTrue =>
    cases taken
    exact valid.put found rfl rfl open_ going nofun current (fun _ => own) nofun
  case isFalse other =>
    simp only [Option.bind_eq_some_iff] at taken
    obtain ⟨internal, known, value, live, active, named, taken⟩ := taken
    cases taken
    have member := List.mem_of_find?_eq_some first
    have left := List.find?_some first
    obtain ⟨n, has⟩ : ∃ n, internal.thread = some n := by
      rw [← Option.isSome_iff_exists]
      simpa [other, State.detached, known] using left
    obtain ⟨⟨t, at_, listed⟩, points'⟩ := valid.attached known has
    obtain rfl : n = number := valid.single at_ found listed member
    obtain rfl : active = p := Option.some.inj (named.symm.trans (points' value live))
    exact valid.put found rfl rfl open_ going nofun ⟨internal, known, has⟩ (by simp) nofun

/-- A thread whose records an epoch runs over has not ended, a fiber of it that another
thread is calling has not ended since that call has read its `v_internal`, and a fiber
is started by one thread. -/
def orderly (state : State) : Action → Bool
  | .thread number .epoch => state.threads[number]?.all fun thread =>
    thread.phase ≠ .finalized && state.threads.all fun other => match other.phase with
      | .calling callee (some r) =>
        r ∉ thread.fibers || (state.fiber callee).any fun value => value.internal = some r
      | _ => true
  | .thread number .switch => state.threads[number]?.all fun thread => match thread.phase with
    | .calling callee none => (state.fiber callee).all fun value => value.internal.isNone
    | _ => true
  | _ => true

theorem State.not_detached {p n : Nat} {internal : Internal}
    (present : state.internal p = some internal) (has : internal.thread = some n) :
    state.detached p = false := by
  simp [State.detached, present, has]

/-- An epoch of a thread that has not ended deletes records that no pointer refers to. -/
theorem Valid.epoch (valid : Valid state) (found : state.threads[number]? = some thread)
    (open_ : thread.phase ≠ .finalized)
    (current : ∀ (other callee r : Nat) (t : Thread), state.threads[other]? = some t →
      t.phase = .calling callee (some r) → r ∈ thread.fibers →
        ∃ value, state.fiber callee = some value ∧ value.internal = some r) :
    Valid (state.epoch number thread) := by
  have same : ∀ p, (state.epoch number thread).internal p =
      if p ∈ thread.fibers ∧ state.detached p then none else state.internal p := fun _ => rfl
  have old : ∀ {p : Nat} {internal : Internal},
      (state.epoch number thread).internal p = some internal →
        state.internal p = some internal := by
    intro p internal present
    rw [same] at present
    split at present
    case isTrue => cases present
    case isFalse => exact present
  have kept : ∀ {p n : Nat} {internal : Internal}, state.internal p = some internal →
      internal.thread = some n → (state.epoch number thread).internal p = some internal := by
    intro p n internal present has
    rw [same, if_neg fun gone => ?_, present]
    rw [State.not_detached present has] at gone
    cases gone.2
  have threads : (state.epoch number thread).threads = state.threads.set number { thread with
      fibers := thread.fibers.filter fun p => !state.detached p
      done := if 0 < thread.done then thread.done + 1 else thread.done } := rfl
  have listed : ∀ {n p : Nat} {t : Thread}, (state.epoch number thread).threads[n]? = some t →
      p ∈ t.fibers → ∃ t', state.threads[n]? = some t' ∧ p ∈ t'.fibers := by
    intro n p t at_ member
    rw [threads] at at_
    rcases getElem?_set_cases at_ with ⟨rfl, rfl⟩ | ⟨-, at_⟩
    · exact ⟨thread, found, (List.mem_filter.mp member).1⟩
    · exact ⟨t, at_, member⟩
  have before : ∀ {n : Nat} {t : Thread}, (state.epoch number thread).threads[n]? = some t →
      ∃ t', state.threads[n]? = some t' ∧ t'.fiber = t.fiber ∧ t'.active = t.active ∧
        t'.phase = t.phase := by
    intro n t at_
    rw [threads] at at_
    rcases getElem?_set_cases at_ with ⟨rfl, rfl⟩ | ⟨-, at_⟩
    · exact ⟨thread, found, rfl, rfl, rfl⟩
    · exact ⟨t, at_, rfl, rfl, rfl⟩
  refine ⟨?_, ?_, ?_, ?_, ?_, ?_, ?_, ?_, fun present => valid.created (old present),
    valid.objects, fun present => valid.owners (old present)⟩
  · intro f r value live points
    obtain ⟨internal, present, owner, left⟩ := valid.record live points
    cases attached : internal.thread with
    | some n => exact ⟨internal, kept present attached, owner, fun none => by
        cases attached.symm.trans none⟩
    | none =>
      obtain ⟨n, t, at_, over_, fiber, member⟩ := left attached
      -- the thread of the epoch is another one, since it has not ended
      have apart : n ≠ number := by
        rintro rfl
        obtain rfl := Option.some.inj (at_.symm.trans found)
        exact open_ over_
      have away : r ∉ thread.fibers := fun own => apart (valid.single at_ found member own)
      refine ⟨internal, ?_, owner, fun _ => ⟨n, t, ?_, over_, fiber, member⟩⟩
      · rw [same, if_neg fun gone => away gone.1, present]
      · rw [threads, getElem?_set_of _ at_, if_neg apart]
  · intro p n internal present has
    obtain ⟨⟨t, at_, member⟩, points⟩ := valid.attached (old present) has
    refine ⟨⟨_, threads ▸ getElem?_set_of _ at_, ?_⟩, points⟩
    split
    case isTrue equal =>
      subst equal
      obtain rfl := Option.some.inj (at_.symm.trans found)
      refine List.mem_filter.mpr ⟨member, ?_⟩
      rw [State.not_detached (old present) has]
      rfl
    case isFalse => exact member
  · intro n t at_ live
    obtain ⟨t', at_, -, active, phase⟩ := before at_
    obtain ⟨internal, present, has⟩ := valid.active at_ (phase ▸ live)
    exact ⟨internal, active ▸ kept present has, has⟩
  · intro n t at_ unended live
    obtain ⟨t', at_, fiber, -, phase⟩ := before at_
    obtain ⟨r, internal, points, present, has⟩ := valid.main at_ (phase ▸ unended) (phase ▸ live)
    exact ⟨r, internal, fiber ▸ points, kept present has, has⟩
  · intro n t at_ over_
    obtain ⟨t', at_, fiber, active, phase⟩ := before at_
    obtain ⟨internal, present, owner⟩ := valid.settled at_ (phase ▸ over_)
    obtain ⟨internal', present', has⟩ := valid.active at_ (by
      rcases over_ with over_ | over_ <;> rw [phase, over_] <;> nofun)
    obtain rfl := Option.some.inj (present'.symm.trans present)
    exact ⟨internal', active ▸ kept present has, fiber ▸ owner⟩
  · intro n callee r t at_ calling
    obtain ⟨t', at_, -, -, phase⟩ := before at_
    obtain ⟨internal, present, owner⟩ := valid.called at_ (phase.trans calling)
    refine ⟨internal, ?_, owner⟩
    rw [same, if_neg fun gone => ?_, present]
    obtain ⟨value, live, points⟩ := current n callee r t' at_ (phase.trans calling) gone.1
    obtain ⟨internal', present', -, left⟩ := valid.record live points
    -- the fiber still has the record, which only the end of its thread detaches
    cases attached : internal'.thread with
    | some owner =>
      rw [State.not_detached present' attached] at gone
      cases gone.2
    | none =>
      obtain ⟨m, u, at_', over_, -, member⟩ := left attached
      obtain rfl := valid.single at_' found member gone.1
      obtain rfl := Option.some.inj (at_'.symm.trans found)
      exact open_ over_
  · intro n m p t t' one two member member'
    obtain ⟨u, at_, member⟩ := listed one member
    obtain ⟨u', at_', member'⟩ := listed two member'
    exact valid.single at_ at_' member member'
  · intro n p t at_ member
    obtain ⟨u, at_, member⟩ := listed at_ member
    exact valid.listed at_ member

theorem Valid.step (valid : Valid state) {action : Action} {after : State}
    (meets : orderly state action = true) (taken : step state action = some after) :
    Valid after := by
  cases action with
  | instantiate => cases taken; exact valid.instantiate
  | free fiber =>
    simp only [Records.step] at taken
    split at taken
    case isTrue => cases taken
    case isFalse unused => cases taken; exact valid.free ((Bool.not_eq_true _).mp unused)
  | fork => cases taken; exact valid.fork
  | thread number act =>
    simp only [Records.step, Option.bind_eq_bind, Option.bind_eq_some_iff] at taken
    obtain ⟨thread, found, taken⟩ := taken
    have epoch : act = .epoch → Valid (state.epoch number thread) := by
      rintro rfl
      simp only [orderly, found, Option.all_some, Bool.and_eq_true, List.all_eq_true] at meets
      refine valid.epoch found (of_decide_eq_true meets.1) ?_
      intro other callee r t at_ calling member
      have kept := meets.2 t (List.mem_of_getElem? at_)
      simpa [calling, member, Option.any_eq_true] using kept
    simp only [State.act] at taken
    split at taken
    case h_1 running => exact valid.call found running taken
    case h_2 callee read calling =>
      cases read with
      | some target => exact valid.switch_some found calling taken
      | none =>
        refine valid.switch_none found calling ?_ taken
        intro value live
        simp only [orderly, found, Option.all_some, calling, live] at meets
        simpa using meets
    case h_3 running => exact valid.finish found running taken
    case h_4 running => exact valid.exit found running taken
    case h_5 exiting => exact valid.next found exiting taken
    case h_6 ended => exact valid.finalize found ended taken
    case h_7 => cases taken; exact epoch rfl
    case h_8 => cases taken; exact epoch rfl
    case h_9 =>
      split at taken
      case isTrue => cases taken; exact epoch rfl
      case isFalse => cases taken
    case h_10 => cases taken

theorem valid_initial : Valid initial := by
  have fiber : ∀ {f : Nat} {value : Fiber}, initial.fiber f = some value →
      f = 0 ∧ value = ⟨some 0⟩ := by
    intro f value live
    simp only [initial, Function.update_apply] at live
    split at live
    case isTrue zero => exact ⟨zero, (Option.some.inj live).symm⟩
    case isFalse => cases live
  have internal : ∀ {r : Nat} {internal : Internal}, initial.internal r = some internal →
      r = 0 ∧ internal = ⟨some 0, 0⟩ := by
    intro r internal present
    simp only [initial, Function.update_apply] at present
    split at present
    case isTrue zero => exact ⟨zero, (Option.some.inj present).symm⟩
    case isFalse => cases present
  have thread : ∀ {n : Nat} {t : Thread}, initial.threads[n]? = some t →
      n = 0 ∧ t = ⟨0, [0], 0, false, .running, 0⟩ := by
    intro n t found
    obtain ⟨short, -⟩ := List.getElem?_eq_some_iff.mp found
    exact ⟨Nat.lt_one_iff.mp short, List.mem_singleton.mp (List.mem_of_getElem? found)⟩
  refine ⟨?_, ?_, ?_, ?_, ?_, ?_, ?_, ?_, ?_, ?_, ?_⟩
  · intro f r value live points
    obtain ⟨rfl, rfl⟩ := fiber live
    cases points
    exact ⟨⟨some 0, 0⟩, rfl, rfl, nofun⟩
  · intro r n own present has
    obtain ⟨rfl, rfl⟩ := internal present
    cases has
    exact ⟨⟨_, rfl, by simp⟩, fun value live => (fiber live).2 ▸ rfl⟩
  · intro n t found _
    obtain ⟨rfl, rfl⟩ := thread found
    exact ⟨_, rfl, rfl⟩
  · intro n t found _ _
    obtain ⟨rfl, rfl⟩ := thread found
    exact ⟨0, _, rfl, rfl, rfl⟩
  · intro n t found over_
    obtain ⟨rfl, rfl⟩ := thread found
    simp at over_
  · intro n callee r t found calling
    obtain ⟨rfl, rfl⟩ := thread found
    cases calling
  · intro n m r t t' one two _ _
    exact (thread one).1.trans (thread two).1.symm
  · intro n r t found member
    obtain ⟨rfl, rfl⟩ := thread found
    rw [List.mem_singleton.mp member]
    exact Nat.one_pos
  · intro r own present
    obtain ⟨rfl, -⟩ := internal present
    exact Nat.one_pos
  · intro f value live
    obtain ⟨rfl, -⟩ := fiber live
    exact Nat.one_pos
  · intro r own present
    obtain ⟨-, rfl⟩ := internal present
    exact Nat.one_pos

/-- The `v_internal` of a fiber that is alive is null or refers to a record that has not
been deleted, and so does the pointer that a call has read. -/
theorem internals_valid {actions : List Action} {state : State}
    (along : Machine.Along step (fun state action => orderly state action = true) initial actions)
    (reached : Machine.run step initial actions = some state) :
    (∀ (fiber r : Nat) (value : Fiber), state.fiber fiber = some value →
      value.internal = some r → (state.internal r).isSome = true) ∧
    ∀ (number callee r : Nat) (thread : Thread), state.threads[number]? = some thread →
      thread.phase = .calling callee (some r) → (state.internal r).isSome = true := by
  have valid : Valid state := Machine.run_along Valid
    (fun _ _ _ valid meets taken => valid.step meets taken)
    actions initial state valid_initial along reached
  constructor
  · intro fiber r value live points
    obtain ⟨internal, present, -⟩ := valid.record live points
    rw [present]
    rfl
  · intro number callee r thread found calling
    obtain ⟨internal, present, -⟩ := valid.called found calling
    rw [present]
    rfl

/-- A fiber of another thread that is running, calls of one that has ended around the
epoch that deletes its record, and the end of the thread. -/
theorem internals_valid_exited : ∃ state,
    Machine.run step initial [.instantiate, .fork, .thread 1 (.call 1), .thread 1 .switch,
      .thread 0 (.call 1), .thread 1 .epoch, .thread 0 .switch, .thread 1 .finish,
      .thread 0 (.call 1), .thread 1 .epoch, .thread 0 .switch, .thread 1 .exit,
      .thread 1 .next, .thread 1 .finalize, .thread 0 .epoch, .thread 0 (.call 2),
      .thread 0 .switch] = some state ∧
    (∀ (fiber r : Nat) (value : Fiber), state.fiber fiber = some value →
      value.internal = some r → (state.internal r).isSome = true) ∧
    ∀ (number callee r : Nat) (thread : Thread), state.threads[number]? = some thread →
      thread.phase = .calling callee (some r) → (state.internal r).isSome = true := by
  have along : Machine.Along step (fun state action => orderly state action = true) initial
      [.instantiate, .fork, .thread 1 (.call 1), .thread 1 .switch, .thread 0 (.call 1),
        .thread 1 .epoch, .thread 0 .switch, .thread 1 .finish, .thread 0 (.call 1),
        .thread 1 .epoch, .thread 0 .switch, .thread 1 .exit, .thread 1 .next,
        .thread 1 .finalize, .thread 0 .epoch, .thread 0 (.call 2), .thread 0 .switch] := by
    decide
  obtain ⟨state, reached⟩ := Option.isSome_iff_exists.mp (by decide : (Machine.run step initial
    [.instantiate, .fork, .thread 1 (.call 1), .thread 1 .switch, .thread 0 (.call 1),
      .thread 1 .epoch, .thread 0 .switch, .thread 1 .finish, .thread 0 (.call 1),
      .thread 1 .epoch, .thread 0 .switch, .thread 1 .exit, .thread 1 .next,
      .thread 1 .finalize, .thread 0 .epoch, .thread 0 (.call 2), .thread 0 .switch]).isSome = true)
  exact ⟨state, reached, internals_valid along reached⟩

/-- The fiber of a thread that has ended keeps a pointer to the record that the next epoch
deletes, and a call of it reads that record. A call of a fiber that ends meanwhile reads
a deleted record, too. -/
theorem internals_dangle :
    (∃ state, Machine.run step initial [.fork, .thread 1 .exit, .thread 1 .next,
        .thread 1 .finalize, .thread 1 .epoch, .thread 0 (.call 1)] = some state ∧
      state.fiber 1 = some ⟨some 1⟩ ∧ state.internal 1 = none ∧
      state.threads[0]? = some ⟨0, [0], 0, false, .calling 1 (some 1), 0⟩) ∧
    ∃ state, Machine.run step initial [.instantiate, .fork, .thread 1 (.call 1),
        .thread 1 .switch, .thread 0 (.call 1), .thread 1 .finish, .thread 1 .epoch] =
        some state ∧
      state.internal 2 = none ∧
      state.threads[0]? = some ⟨0, [0], 0, false, .calling 1 (some 2), 0⟩ := by
  constructor
  · obtain ⟨state, reached, same⟩ := Option.map_eq_some_iff.mp (by decide :
      (Machine.run step initial [.fork, .thread 1 .exit, .thread 1 .next, .thread 1 .finalize,
        .thread 1 .epoch, .thread 0 (.call 1)]).map (fun state =>
          (state.fiber 1, state.internal 1, state.threads[0]?)) =
        some (some ⟨some 1⟩, none, some ⟨0, [0], 0, false, .calling 1 (some 1), 0⟩))
    simp only [Prod.mk.injEq] at same
    exact ⟨state, reached, same⟩
  · obtain ⟨state, reached, same⟩ := Option.map_eq_some_iff.mp (by decide :
      (Machine.run step initial [.instantiate, .fork, .thread 1 (.call 1), .thread 1 .switch,
        .thread 0 (.call 1), .thread 1 .finish, .thread 1 .epoch]).map (fun state =>
          (state.internal 2, state.threads[0]?)) =
        some (none, some ⟨0, [0], 0, false, .calling 1 (some 2), 0⟩))
    simp only [Prod.mk.injEq] at same
    exact ⟨state, reached, same⟩

end Xemmai.Records
