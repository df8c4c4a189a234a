import Xemmai.Transfer

/-!
# Suspended stacks

Each fiber that runs has a stack of its own. All of these but the one that is executed
on wait in a call, or in the loop of `f_main`.
-/

namespace Xemmai.Fibers.State

set_option autoImplicit false

variable {ι V : Type} [DecidableEq ι]

/-- A stack that has been left waits to be entered, or in a call of its fiber whose slot
`v_return` points to. -/
def Ready (state : State ι V) (internal : Nat) : Prop :=
  (∃ x, (state.internal internal).point = some (.entry x)) ∨
  ∃ value slot x, state.fiber (state.internal internal).fiber = some value ∧
    (state.internal internal).point =
      some (.calling (state.internal internal).fiber slot) ∧
    value.return_ = some slot ∧ state.slot slot = some x ∧ slot < state.slots

/-- What holds of the fibers and the stacks, wherever control is. -/
structure Sound (setting : Setting ι V) (state : State ι V) : Prop where
  active : state.active = state.executing
  member : state.executing ∈ state.internals
  runs : (state.internal state.executing).running = true
  running : ∀ c ∈ state.internals, (state.internal c).running = true →
    ∃ value, state.fiber (state.internal c).fiber = some value ∧ value.internal = some c
  owned : ∀ fiber value c, state.fiber fiber = some value → value.internal = some c →
    (state.internal c).fiber = fiber ∧ (state.internal c).running = true ∧ c ∈ state.internals
  bound : ∀ c ∈ state.internals, c < state.created
  bottom : ∃ others, state.internals = others ++ [0] ∧ 0 ∉ others
  main : ∃ value, state.fiber setting.main = some value ∧ value.internal = some 0
  atMain : ∀ c ∈ state.internals, (state.internal c).atMain = decide (c = 0)
  throws : ∀ fiber value, state.fiber fiber = some value →
    (fiber = setting.main → state.stage ≠ .ended) → value.throw_ = false
  ready : ∀ c ∈ state.internals, (state.internal c).running = true → c ≠ state.executing →
    (c = 0 → state.stage ≠ .ended) → state.Ready c
  waiting : state.stage = .ended → state.executing ≠ 0 →
    (state.internal 0).point = some .exiting
  returns : state.stage = .ended → ∃ value slot, state.fiber setting.main = some value ∧
    value.return_ = some slot

section

variable {setting : Setting ι V} {state : State ι V}

omit [DecidableEq ι] in
theorem Sound.apart (sound : state.Sound setting) {first second : ι} {one two : Fiber} {c : Nat}
    (found : state.fiber first = some one) (internal : one.internal = some c)
    (other : state.fiber second = some two) (same : two.internal = some c) : first = second :=
  (sound.owned first one c found internal).1.symm.trans (sound.owned second two c other same).1

omit [DecidableEq ι] in
theorem Sound.current (sound : state.Sound setting) :
    ∃ value, state.fiber (state.internal state.active).fiber = some value ∧
      value.internal = some state.executing := by
  rw [sound.active]
  exact sound.running _ sound.member sound.runs

omit [DecidableEq ι] in
theorem Sound.setSlot (sound : state.Sound setting) (slot : Nat) (x : V) :
    (state.setSlot slot x).Sound setting := by
  refine { sound with ready := ?_ }
  intro c member running other main
  rcases sound.ready c member running other main with entry | waiting
  · exact Or.inl entry
  · obtain ⟨value, r, y, found, point, return_, stored, low⟩ := waiting
    refine Or.inr ⟨value, r, if r = slot then x else y, found, point, return_, ?_, low⟩
    simp only [State.setSlot, Function.update_apply]
    split
    · rfl
    · exact stored

theorem Sound.idle (sound : state.Sound setting) (fiber : ι) (new : Option Fiber)
    (old : ∀ value, state.fiber fiber = some value → value.internal = none)
    (fresh : ∀ value, new = some value → value.internal = none ∧ value.throw_ = false) :
    let after : State ι V := { state with fiber := Function.update state.fiber fiber new }
    after.Sound setting ∧ after.transfer = state.transfer := by
  intro after
  have here : after.fiber fiber = new := Function.update_self ..
  have others : ∀ other, other ≠ fiber → after.fiber other = state.fiber other :=
    fun other apart => Function.update_of_ne apart _ _
  have live : ∀ other value c, state.fiber other = some value → value.internal = some c →
      other ≠ fiber := by
    rintro other value c known internal rfl
    rw [old value known] at internal
    cases internal
  have owners : ∀ c ∈ state.internals, (state.internal c).running = true →
      (state.internal c).fiber ≠ fiber := by
    intro c member running
    obtain ⟨value, known, internal⟩ := sound.running c member running
    exact live _ value c known internal
  obtain ⟨main, mainFound, zero⟩ := sound.main
  have mainOther := live _ main 0 mainFound zero
  refine ⟨⟨sound.active, sound.member, sound.runs, ?_, ?_, sound.bound, sound.bottom,
    ⟨main, (others _ mainOther).trans mainFound, zero⟩, sound.atMain, ?_, ?_, sound.waiting, ?_⟩,
    ?_⟩
  · intro c member running
    rw [others _ (owners c member running)]
    exact sound.running c member running
  · intro other value c known internal
    by_cases same : other = fiber
    · subst same
      rw [(fresh value (here.symm.trans known)).1] at internal
      cases internal
    · exact sound.owned other value c ((others other same).symm.trans known) internal
  · intro other value known noMain
    by_cases same : other = fiber
    · subst same
      exact (fresh value (here.symm.trans known)).2
    · exact sound.throws other value ((others other same).symm.trans known) noMain
  · intro c member running apart noMain
    unfold Ready
    rw [others _ (owners c member running)]
    exact sound.ready c member running apart noMain
  · rw [others _ mainOther]
    exact sound.returns
  · have pendings : after.pending = state.pending := by
      funext other
      by_cases same : other = fiber
      · subst same
        rw [pending_idle old, pending_idle]
        exact fun value known => (fresh value (here.symm.trans known)).1
      · exact pending_congr (others other same) fun _ _ _ _ => ⟨rfl, Iff.rfl⟩
    simp only [State.transfer, pendings]
    rfl

omit [DecidableEq ι] in
theorem Sound.epoch (sound : state.Sound setting) :
    ({ state with
      internals := state.internals.filter fun p => (state.internal p).running } : State ι V).Sound setting := by
  have kept : ∀ c, c ∈ state.internals.filter (fun p => (state.internal p).running) ↔
      c ∈ state.internals ∧ (state.internal c).running = true := fun c => List.mem_filter
  obtain ⟨main, mainFound, zero⟩ := sound.main
  obtain ⟨mainOwner, mainRuns, mainInside⟩ := sound.owned _ main 0 mainFound zero
  refine ⟨sound.active, (kept _).mpr ⟨sound.member, sound.runs⟩, sound.runs, ?_, ?_, ?_, ?_,
    sound.main, ?_, sound.throws, ?_, sound.waiting, sound.returns⟩
  · exact fun c member => sound.running c ((kept c).mp member).1
  · intro fiber value c known internal
    obtain ⟨owner, runs, member⟩ := sound.owned fiber value c known internal
    exact ⟨owner, runs, (kept c).mpr ⟨member, runs⟩⟩
  · exact fun c member => sound.bound c ((kept c).mp member).1
  · obtain ⟨others, shape, absent⟩ := sound.bottom
    refine ⟨others.filter fun p => (state.internal p).running, ?_,
      fun member => absent (List.mem_filter.mp member).1⟩
    simp only [shape, List.filter_append, List.filter_cons, mainRuns, if_pos, List.filter_nil]
  · exact fun c member => sound.atMain c ((kept c).mp member).1
  · exact fun c member => sound.ready c ((kept c).mp member).1

/-- The flag of the main fiber does not matter any more when `a_main` has ended. -/
theorem Sound.setThrow (sound : state.Sound setting) (ended : state.stage = .ended)
    {value : Fiber} (found : state.fiber setting.main = some value) (throw_ : Bool) :
    let after := state.setFiber setting.main { value with throw_ := throw_ }
    after.Sound setting ∧ after.transfer = state.transfer := by
  intro after
  have fresh : after.fiber setting.main = some { value with throw_ := throw_ } :=
    Function.update_self ..
  have values : ∀ fiber other, after.fiber fiber = some other →
      ∃ before, state.fiber fiber = some before ∧ other.internal = before.internal ∧
        other.return_ = before.return_ ∧ (fiber ≠ setting.main → other = before) := by
    intro fiber other known
    by_cases same : fiber = setting.main
    · subst same
      obtain rfl := Option.some.inj (fresh.symm.trans known)
      exact ⟨value, found, rfl, rfl, fun apart => absurd rfl apart⟩
    · exact ⟨other, (Function.update_of_ne same _ _).symm.trans known, rfl, rfl, fun _ => rfl⟩
  have alive : ∀ fiber before, state.fiber fiber = some before →
      ∃ other, after.fiber fiber = some other ∧ other.internal = before.internal ∧
        other.return_ = before.return_ := by
    intro fiber before known
    by_cases same : fiber = setting.main
    · subst same
      obtain rfl := Option.some.inj (found.symm.trans known)
      exact ⟨_, fresh, rfl, rfl⟩
    · exact ⟨before, (Function.update_of_ne same _ _).trans known, rfl, rfl⟩
  refine ⟨⟨sound.active, sound.member, sound.runs, ?_, ?_, sound.bound, sound.bottom, ?_,
    sound.atMain, ?_, ?_, sound.waiting, ?_⟩, ?_⟩
  · intro c member running
    obtain ⟨before, known, own⟩ := sound.running c member running
    obtain ⟨other, now, same, _⟩ := alive _ before known
    exact ⟨other, now, same.trans own⟩
  · intro fiber other c known own
    obtain ⟨before, earlier, same, _⟩ := values fiber other known
    exact sound.owned fiber before c earlier (same ▸ own)
  · obtain ⟨before, known, own⟩ := sound.main
    obtain ⟨other, now, same, _⟩ := alive _ before known
    exact ⟨other, now, same.trans own⟩
  · intro fiber other known main
    obtain ⟨before, earlier, _, _, same⟩ := values fiber other known
    obtain rfl := same fun isMain => main isMain ended
    exact sound.throws fiber other earlier main
  · intro c member running apart main
    refine (sound.ready c member running apart main).imp_right ?_
    rintro ⟨before, slot, x, known, calling, return_, stored⟩
    obtain ⟨other, now, _, same⟩ := alive _ before known
    exact ⟨other, slot, x, now, calling, same.trans return_, stored⟩
  · intro ended
    obtain ⟨before, slot, known, return_⟩ := sound.returns ended
    obtain ⟨other, now, _, same⟩ := alive _ before known
    exact ⟨other, slot, now, same.trans return_⟩
  · have pendings : after.pending = state.pending := by
      funext fiber
      by_cases same : fiber = setting.main
      · subst same
        obtain ⟨main, known, zero⟩ := sound.main
        obtain rfl := Option.some.inj (found.symm.trans known)
        rw [pending_of fresh zero, pending_of found zero]
        rfl
      · exact pending_congr (Function.update_of_ne same _ _) fun _ _ _ _ => ⟨rfl, Iff.rfl⟩
    simp only [State.transfer, pendings]
    rfl

/-- The state between the two halves of a `switch`. -/
def switched (setting : Setting ι V) (callee : ι) (x : V) (value : Fiber) (target : Nat)
    (state : State ι V) : State ι V :=
  let caller := (state.internal state.active).fiber
  { state with
    fiber := Function.update state.fiber caller (some { value with return_ := some state.slots })
    internal := Function.update state.internal state.executing
      { state.internal state.executing with point := some (.calling caller state.slots) }
    slot := Function.update state.slot state.slots (some (setting.object callee))
    slots := state.slots + 1
    active := target
    executing := target
    log := state.log ++ [.called caller callee state.slots x] }

theorem Sound.switch_eq (sound : state.Sound setting) {callee : ι} {x : V} {value other : Fiber}
    {target : Nat} (caller : state.fiber (state.internal state.active).fiber = some value)
    (found : state.fiber callee = some other) (internal : other.internal = some target) :
    state.switch setting (state.internal state.active).fiber callee x =
      (state.switched setting callee x value target).resume := by
  obtain ⟨same, known, saved⟩ := sound.current
  obtain rfl := Option.some.inj (caller.symm.trans known)
  obtain ⟨_, throw_, return_⟩ := value
  subst saved
  simp only [State.switch, caller, found, internal, Option.bind_eq_bind, Option.bind_some]
  rfl

theorem Sound.switched (sound : state.Sound setting) {callee : ι} {x : V} {value other : Fiber}
    {target : Nat} (caller : state.fiber (state.internal state.active).fiber = some value)
    (found : state.fiber callee = some other) (internal : other.internal = some target)
    (apart : callee ≠ (state.internal state.active).fiber)
    (code : state.stage = .ended → state.executing ≠ 0) :
    (state.switched setting callee x value target).Sound setting ∧
      (state.switched setting callee x value target).transfer =
        state.transfer.yield callee state.slots := by
  obtain ⟨same, known, saved⟩ := sound.current
  obtain rfl := Option.some.inj (caller.symm.trans known)
  have active := sound.active
  rw [active] at caller apart
  obtain ⟨owner, runs, member⟩ := sound.owned callee other target found internal
  have away : target ≠ state.executing := by
    rintro rfl
    exact apart owner.symm
  have fibers : ∀ fiber, (state.switched setting callee x value target).fiber fiber =
      if fiber = (state.internal state.executing).fiber then
        some { value with return_ := some state.slots } else state.fiber fiber := by
    intro fiber
    simp only [State.switched, active, Function.update_apply]
  have internals : ∀ c, (state.switched setting callee x value target).internal c =
      if c = state.executing then { state.internal state.executing with
        point := some (.calling (state.internal state.executing).fiber state.slots) }
      else state.internal c := by
    intro c
    simp only [State.switched, active, Function.update_apply]
  have owners : ∀ c, ((state.switched setting callee x value target).internal c).fiber =
        (state.internal c).fiber ∧
      ((state.switched setting callee x value target).internal c).running =
        (state.internal c).running ∧
      ((state.switched setting callee x value target).internal c).atMain =
        (state.internal c).atMain := by
    intro c
    rw [internals]
    split
    · rename_i same
      rw [same]
      exact ⟨rfl, rfl, rfl⟩
    · exact ⟨rfl, rfl, rfl⟩
  have values : ∀ fiber after,
      (state.switched setting callee x value target).fiber fiber = some after →
      ∃ before, state.fiber fiber = some before ∧ after.internal = before.internal ∧
        after.throw_ = before.throw_ := by
    intro fiber after
    rw [fibers]
    split
    · rename_i same
      rintro ⟨⟩
      exact ⟨value, same ▸ caller, rfl, rfl⟩
    · exact fun found => ⟨after, found, rfl, rfl⟩
  have alive : ∀ fiber before, state.fiber fiber = some before →
      ∃ after, (state.switched setting callee x value target).fiber fiber = some after ∧
        after.internal = before.internal ∧
        (fiber ≠ (state.internal state.executing).fiber → after = before) := by
    intro fiber before found
    rw [fibers]
    split
    · rename_i same
      rw [same, caller] at found
      obtain rfl := Option.some.inj found
      exact ⟨_, rfl, rfl, fun other => absurd same other⟩
    · exact ⟨before, found, rfl, fun _ => rfl⟩
  have slots : ∀ slot y, state.slot slot = some y → slot < state.slots →
      (state.switched setting callee x value target).slot slot = some y := by
    intro slot y stored low
    simp only [State.switched, Function.update_of_ne (Nat.ne_of_lt low), stored]
  constructor
  · refine ⟨rfl, member, (owners target).2.1.trans runs, ?_, ?_, sound.bound, sound.bottom, ?_,
      ?_, ?_, ?_, ?_, ?_⟩
    · intro c inside running
      obtain ⟨before, known, own⟩ := sound.running c inside ((owners c).2.1 ▸ running)
      obtain ⟨after, now, same, _⟩ := alive _ before known
      rw [(owners c).1]
      exact ⟨after, now, same.trans own⟩
    · intro fiber after c known own
      obtain ⟨before, earlier, same, _⟩ := values fiber after known
      rw [(owners c).1, (owners c).2.1]
      exact sound.owned fiber before c earlier (same ▸ own)
    · obtain ⟨before, known, own⟩ := sound.main
      obtain ⟨after, now, same, _⟩ := alive _ before known
      exact ⟨after, now, same.trans own⟩
    · intro c inside
      rw [(owners c).2.2]
      exact sound.atMain c inside
    · intro fiber after known main
      obtain ⟨before, earlier, _, same⟩ := values fiber after known
      rw [same]
      exact sound.throws fiber before earlier main
    · intro c inside running other main
      rw [(owners c).2.1] at running
      by_cases old : c = state.executing
      · subst old
        refine Or.inr ⟨{ value with return_ := some state.slots }, state.slots,
          setting.object callee, ?_, ?_, rfl, ?_, Nat.lt_succ_self _⟩
        · rw [(owners _).1, fibers, if_pos rfl]
        · rw [(owners _).1, internals, if_pos rfl]
        · simp only [State.switched, Function.update_self]
      · have point : ((state.switched setting callee x value target).internal c) =
            state.internal c := by rw [internals, if_neg old]
        rcases sound.ready c inside running old main with ⟨y, entry⟩ | waiting
        · exact Or.inl ⟨y, by rw [point, entry]⟩
        · obtain ⟨before, slot, y, known, calling, return_, stored, low⟩ := waiting
          obtain ⟨own, known', internal'⟩ := sound.running c inside running
          obtain rfl := Option.some.inj (known.symm.trans known')
          have distinct : (state.internal c).fiber ≠ (state.internal state.executing).fiber := by
            intro same
            rw [same, caller] at known
            obtain rfl := Option.some.inj known
            exact old (Option.some.inj (internal'.symm.trans saved))
          obtain ⟨after, now, _, same⟩ := alive _ before known
          obtain rfl := same distinct
          refine Or.inr ⟨after, slot, y, ?_, ?_, return_, slots slot y stored low,
            Nat.lt_succ_of_lt low⟩
          · rw [point, now]
          · rw [point, calling]
    · intro ended other
      have away : (0 : Nat) ≠ state.executing := (code ended).symm
      rw [internals, if_neg away]
      exact sound.waiting ended away.symm
    · intro ended
      obtain ⟨before, slot, known, return_⟩ := sound.returns ended
      obtain ⟨main, known', zero⟩ := sound.main
      obtain rfl := Option.some.inj (known.symm.trans known')
      have distinct : setting.main ≠ (state.internal state.executing).fiber := by
        intro same
        rw [same, caller] at known
        obtain rfl := Option.some.inj known
        exact code ended (Option.some.inj (saved.symm.trans zero))
      obtain ⟨after, now, _, same⟩ := alive _ before known
      obtain rfl := same distinct
      exact ⟨after, slot, now, return_⟩
  · have pendings : (state.switched setting callee x value target).pending =
        Function.update (Function.update state.pending (state.internal state.executing).fiber
          (some state.slots)) callee none := by
      funext fiber
      rw [Function.update_apply]
      split
      · rename_i same
        subst same
        obtain ⟨after, now, same, _⟩ := alive fiber other found
        rw [pending_of now (same.trans internal)]
        exact if_pos rfl
      · rename_i notCallee
        rw [Function.update_apply]
        split
        · rename_i same
          subst same
          obtain ⟨after, now, same, _⟩ := alive _ value caller
          rw [pending_of now (same.trans saved), internals, if_pos rfl]
          exact if_neg away.symm
        · rename_i notCaller
          refine pending_congr (by rw [fibers, if_neg notCaller]) ?_
          intro before c known own
          have old : c ≠ state.executing := by
            rintro rfl
            exact notCaller (sound.apart known own caller saved)
          have new : c ≠ target := by
            rintro rfl
            exact notCallee (sound.apart known own found internal)
          rw [internals, if_neg old]
          exact ⟨rfl, fun same => absurd same new, fun same => absurd same old⟩
    have front : ((state.switched setting callee x value target).internal target).fiber =
        callee := (owners target).1.trans owner
    simp only [State.transfer, Transfer.yield, active, pendings]
    exact congrArg₂ (fun first second => (⟨first, _, second, _⟩ : Transfer ι)) front rfl

def enlisted (fiber : ι) (value : Fiber) (x : V) (state : State ι V) : State ι V :=
  ({ state.setInternal state.created ⟨fiber, false, true, some (.entry x), []⟩ with
    internals := state.created :: state.internals
    created := state.created + 1 } : State ι V).setFiber fiber
      { value with internal := some state.created }

theorem Sound.enlisted (sound : state.Sound setting) {fiber : ι} {value : Fiber} (x : V)
    (found : state.fiber fiber = some value) (idle : value.internal = none) :
    let after := state.enlisted fiber value x
    after.Sound setting ∧ after.transfer = state.transfer := by
  intro after
  have new : ∀ c ∈ state.internals, c ≠ state.created :=
    fun c member => Nat.ne_of_lt (sound.bound c member)
  have zero : (0 : Nat) ≠ state.created := by
    obtain ⟨others, shape, _⟩ := sound.bottom
    exact new 0 (shape ▸ List.mem_append_right _ List.mem_cons_self)
  have internals : ∀ c, c ≠ state.created → after.internal c = state.internal c := by
    intro c other
    exact Function.update_of_ne other _ _
  have created : after.internal state.created =
      ⟨fiber, false, true, some (.entry x), []⟩ := Function.update_self ..
  have fibers : ∀ other, other ≠ fiber → after.fiber other = state.fiber other :=
    fun other apart => Function.update_of_ne apart _ _
  have fresh : after.fiber fiber = some { value with internal := some state.created } :=
    Function.update_self ..
  have apart : ∀ other before c, state.fiber other = some before → before.internal = some c →
      other ≠ fiber := by
    rintro other before c known own rfl
    obtain rfl := Option.some.inj (known.symm.trans found)
    rw [idle] at own
    cases own
  have executing := new _ sound.member
  refine ⟨⟨sound.active, List.mem_cons_of_mem _ sound.member, ?_, ?_, ?_, ?_, ?_, ?_, ?_, ?_, ?_,
    ?_, ?_⟩, ?_⟩
  · exact (congrArg Internal.running (internals _ executing)).trans sound.runs
  · intro c inside running
    rcases List.mem_cons.mp inside with rfl | inside
    · rw [created]
      exact ⟨_, fresh, rfl⟩
    · rw [internals c (new c inside)] at running ⊢
      obtain ⟨before, known, own⟩ := sound.running c inside running
      rw [fibers _ (apart _ before c known own)]
      exact ⟨before, known, own⟩
  · intro other before c known own
    by_cases same : other = fiber
    · subst same
      obtain rfl := Option.some.inj (fresh.symm.trans known)
      obtain rfl := Option.some.inj own
      rw [created]
      exact ⟨rfl, rfl, List.mem_cons_self⟩
    · rw [fibers other same] at known
      obtain ⟨owner, runs, inside⟩ := sound.owned other before c known own
      rw [internals c (new c inside)]
      exact ⟨owner, runs, List.mem_cons_of_mem _ inside⟩
  · intro c inside
    rcases List.mem_cons.mp inside with rfl | inside
    · exact Nat.lt_succ_self _
    · exact Nat.lt_succ_of_lt (sound.bound c inside)
  · obtain ⟨others, shape, absent⟩ := sound.bottom
    refine ⟨state.created :: others, congrArg (List.cons _) shape, ?_⟩
    exact fun inside => (List.mem_cons.mp inside).elim zero absent
  · obtain ⟨before, known, own⟩ := sound.main
    exact ⟨before, (fibers _ (apart _ before 0 known own)).trans known, own⟩
  · intro c inside
    rcases List.mem_cons.mp inside with rfl | inside
    · rw [created]
      exact (decide_eq_false zero.symm).symm
    · rw [internals c (new c inside)]
      exact sound.atMain c inside
  · intro other before known main
    by_cases same : other = fiber
    · subst same
      obtain rfl := Option.some.inj (fresh.symm.trans known)
      exact sound.throws other value found main
    · exact sound.throws other before (fibers other same ▸ known) main
  · intro c inside running other main
    rcases List.mem_cons.mp inside with rfl | inside
    · exact Or.inl ⟨x, by rw [created]⟩
    · have same := internals c (new c inside)
      rw [same] at running
      rcases sound.ready c inside running other main with ⟨y, entry⟩ | waiting
      · exact Or.inl ⟨y, by rw [same, entry]⟩
      · obtain ⟨before, slot, y, known, rest⟩ := waiting
        obtain ⟨again, known', own⟩ := sound.running c inside running
        have distinct := apart _ again c known' own
        refine Or.inr ⟨before, slot, y, ?_, ?_⟩
        · rw [same, fibers _ distinct, known]
        · rw [same]
          exact rest
  · intro ended other
    rw [internals 0 zero]
    exact sound.waiting ended other
  · intro ended
    obtain ⟨before, slot, known, return_⟩ := sound.returns ended
    obtain ⟨main, known', own⟩ := sound.main
    exact ⟨before, slot, (fibers _ (apart _ main 0 known' own)).trans known, return_⟩
  · have pendings : after.pending = state.pending := by
      funext other
      by_cases same : other = fiber
      · subst same
        rw [pending_of fresh rfl, created, pending_idle]
        · exact ite_self _
        · intro before known
          obtain rfl := Option.some.inj (found.symm.trans known)
          exact idle
      · refine pending_congr (fibers other same) fun before c known own => ?_
        rw [internals c (new c (sound.owned other before c known own).2.2)]
        exact ⟨rfl, Iff.rfl⟩
    simp only [State.transfer, pendings]
    have front := congrArg Internal.fiber (internals _ (sound.active ▸ executing))
    exact congrArg (fun first => (⟨first, _, _, _⟩ : Transfer ι)) front

/-- The callable of a fiber other than the main one has ended. -/
theorem Sound.ends (sound : state.Sound setting) {value : Fiber}
    (found : state.fiber (state.internal state.executing).fiber = some value)
    (other : state.executing ≠ 0) :
    let after := ({ (state.setInternal state.executing
        { state.internal state.executing with running := false }).setFiber
          (state.internal state.executing).fiber { value with internal := none } with
      active := 0
      executing := 0 } : State ι V)
    after.Sound setting ∧ after.transfer = state.transfer.activate setting.main ∧
      setting.main ≠ (state.internal state.executing).fiber := by
  intro after
  obtain ⟨same, known, saved⟩ := sound.running _ sound.member sound.runs
  obtain rfl := Option.some.inj (found.symm.trans known)
  obtain ⟨main, mainFound, zero⟩ := sound.main
  obtain ⟨mainOwner, mainRuns, mainInside⟩ := sound.owned _ main 0 mainFound zero
  have noMain : setting.main ≠ (state.internal state.executing).fiber := by
    intro same
    rw [same, found] at mainFound
    obtain rfl := Option.some.inj mainFound
    exact other (Option.some.inj (saved.symm.trans zero))
  have internals : ∀ c, c ≠ state.executing → after.internal c = state.internal c :=
    fun c apart => Function.update_of_ne apart _ _
  have last : after.internal state.executing =
      { state.internal state.executing with running := false } := by
    simp only [after, setFiber, setInternal, Function.update_self]
  have fibers : ∀ fiber, fiber ≠ (state.internal state.executing).fiber →
      after.fiber fiber = state.fiber fiber := fun fiber apart => Function.update_of_ne apart _ _
  have idle : after.fiber (state.internal state.executing).fiber =
      some { value with internal := none } := Function.update_self ..
  have apart : ∀ fiber before c, state.fiber fiber = some before → before.internal = some c →
      c ≠ state.executing → fiber ≠ (state.internal state.executing).fiber := by
    rintro fiber before c known own distinct rfl
    obtain rfl := Option.some.inj (known.symm.trans found)
    exact distinct (Option.some.inj (own.symm.trans saved))
  have runs : ∀ c, (after.internal c).running = true →
      c ≠ state.executing ∧ (state.internal c).running = true := by
    intro c running
    have distinct : c ≠ state.executing := by
      rintro rfl
      rw [last] at running
      cases running
    exact ⟨distinct, internals c distinct ▸ running⟩
  refine ⟨⟨rfl, mainInside, ?_, ?_, ?_, sound.bound, sound.bottom, ?_, ?_, ?_, ?_, ?_, ?_⟩, ?_,
    noMain⟩
  · exact (congrArg Internal.running (internals 0 other.symm)).trans mainRuns
  · intro c inside running
    obtain ⟨distinct, running⟩ := runs c running
    obtain ⟨before, known, own⟩ := sound.running c inside running
    rw [internals c distinct, fibers _ (apart _ before c known own distinct)]
    exact ⟨before, known, own⟩
  · intro fiber before c known own
    by_cases same : fiber = (state.internal state.executing).fiber
    · subst same
      obtain rfl := Option.some.inj (idle.symm.trans known)
      cases own
    · rw [fibers fiber same] at known
      have distinct : c ≠ state.executing := by
        rintro rfl
        exact same (sound.apart known own found saved)
      rw [internals c distinct]
      exact sound.owned fiber before c known own
  · exact ⟨main, (fibers _ noMain).trans mainFound, zero⟩
  · intro c inside
    by_cases same : c = state.executing
    · subst same
      rw [last]
      exact sound.atMain _ inside
    · rw [internals c same]
      exact sound.atMain c inside
  · intro fiber before known noEnd
    by_cases same : fiber = (state.internal state.executing).fiber
    · subst same
      obtain rfl := Option.some.inj (idle.symm.trans known)
      exact sound.throws _ value found noEnd
    · exact sound.throws fiber before (fibers fiber same ▸ known) noEnd
  · intro c inside running _ noEnd
    obtain ⟨distinct, running⟩ := runs c running
    have point := internals c distinct
    rcases sound.ready c inside running distinct noEnd with ⟨y, entry⟩ | waiting
    · exact Or.inl ⟨y, by rw [point, entry]⟩
    · obtain ⟨before, slot, y, known, rest⟩ := waiting
      obtain ⟨again, known', own⟩ := sound.running c inside running
      refine Or.inr ⟨before, slot, y, ?_, ?_⟩
      · rw [point, fibers _ (apart _ again c known' own distinct), known]
      · rw [point]
        exact rest
  · exact fun _ apart => absurd rfl apart
  · intro ended
    obtain ⟨before, slot, known, return_⟩ := sound.returns ended
    exact ⟨before, slot, (fibers _ noMain).trans known, return_⟩
  · have pendings : after.pending = Function.update state.pending setting.main none := by
      funext fiber
      rw [Function.update_apply]
      split
      · rename_i same
        subst same
        rw [pending_of ((fibers _ noMain).trans mainFound) zero]
        exact if_pos rfl
      · rename_i notMain
        by_cases same : fiber = (state.internal state.executing).fiber
        · subst same
          rw [pending_of found saved, if_pos rfl, pending_idle]
          intro before known
          obtain rfl := Option.some.inj (idle.symm.trans known)
          rfl
        · refine pending_congr (fibers fiber same) fun before c known own => ?_
          have distinct : c ≠ state.executing := by
            rintro rfl
            exact same (sound.apart known own found saved)
          rw [internals c distinct]
          refine ⟨rfl, fun (same : c = 0) => ?_, fun away => absurd away distinct⟩
          subst same
          exact absurd (sound.apart known own mainFound zero) notMain
    have front : (after.internal 0).fiber = setting.main :=
      (congrArg Internal.fiber (internals 0 other.symm)).trans mainOwner
    simp only [State.transfer, Transfer.activate, pendings]
    exact congrArg (fun first => (⟨first, _, _, _⟩ : Transfer ι)) front

/-- The loop of `f_main` goes on with another stack. -/
theorem Sound.exits (sound : state.Sound setting) {fiber : ι} {value : Fiber} {target : Nat}
    (found : state.fiber fiber = some value) (internal : value.internal = some target)
    (zero : state.executing = 0) (other : target ≠ 0) :
    let after := ({ state.setInternal 0
        { state.internal 0 with point := some .exiting } with
      active := target
      executing := target } : State ι V)
    (state.stage = .ended → after.Sound setting) ∧
      after.transfer = state.transfer.activate fiber := by
  intro after
  obtain ⟨owner, runs, inside⟩ := sound.owned fiber value target found internal
  have internals : ∀ c, c ≠ 0 → after.internal c = state.internal c :=
    fun c apart => Function.update_of_ne apart _ _
  have first : after.internal 0 = { state.internal 0 with point := some .exiting } := by
    simp only [after, setInternal, Function.update_self]
  have owners : ∀ c, (after.internal c).fiber = (state.internal c).fiber ∧
      (after.internal c).running = (state.internal c).running ∧
      (after.internal c).atMain = (state.internal c).atMain := by
    intro c
    by_cases same : c = 0
    · subst same
      rw [first]
      exact ⟨rfl, rfl, rfl⟩
    · rw [internals c same]
      exact ⟨rfl, rfl, rfl⟩
  constructor
  · intro ended
    refine ⟨rfl, inside, (owners target).2.1.trans runs, ?_, ?_, sound.bound, sound.bottom,
      sound.main, ?_, sound.throws, ?_, ?_, sound.returns⟩
    · intro c member running
      rw [(owners c).1]
      exact sound.running c member ((owners c).2.1 ▸ running)
    · intro fiber before c known own
      rw [(owners c).1, (owners c).2.1]
      exact sound.owned fiber before c known own
    · intro c member
      rw [(owners c).2.2]
      exact sound.atMain c member
    · intro c member running _ noEnd
      have apart : c ≠ 0 := fun same => noEnd same ended
      rw [(owners c).2.1] at running
      rcases sound.ready c member running (zero ▸ apart) noEnd with ⟨y, entry⟩ | waiting
      · exact Or.inl ⟨y, by rw [internals c apart, entry]⟩
      · obtain ⟨before, slot, y, known, rest⟩ := waiting
        refine Or.inr ⟨before, slot, y, ?_, ?_⟩
        · rw [internals c apart]
          exact known
        · rw [internals c apart]
          exact rest
    · intro _ _
      rw [first]
  · have pendings : after.pending = Function.update state.pending fiber none := by
      funext other_
      rw [Function.update_apply]
      split
      · rename_i same
        subst same
        have known : after.fiber other_ = some value := found
        rw [pending_of known internal]
        exact if_pos rfl
      · rename_i notFiber
        by_cases main : ∃ before, state.fiber other_ = some before ∧ before.internal = some 0
        · obtain ⟨before, known, own⟩ := main
          have still : after.fiber other_ = some before := known
          rw [pending_of known own, if_pos zero.symm, pending_of still own,
            if_neg (Ne.symm other), first]
        · refine pending_congr rfl fun before c known own => ?_
          have apart : c ≠ 0 := by
            rintro rfl
            exact main ⟨before, known, own⟩
          rw [internals c apart]
          refine ⟨rfl, fun (same : c = target) => ?_, fun same => absurd (same.trans zero) apart⟩
          subst same
          exact absurd (sound.apart known own found internal) notFiber
    have front : (after.internal target).fiber = fiber := (owners target).1.trans owner
    simp only [State.transfer, Transfer.activate, pendings]
    exact congrArg (fun first => (⟨first, _, _, _⟩ : Transfer ι)) front

end

end Xemmai.Fibers.State
