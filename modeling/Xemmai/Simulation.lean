import Xemmai.Emission
import Xemmai.Stepping

/-!
# The code does what the tree does

A run of the emitted code from the place where the code of a node begins comes to
where the structured run of the node ends: behind its code, at the label of a
jump, at the end of the frame, or in the unwinding of what has been thrown. Where
the structured run times out, the run of the code goes on for as many steps.
-/

namespace Xemmai

set_option autoImplicit false

open Stepping (Comes)

section Targets

variable {F O : Type}

theorem Emit.target_of_mem : ∀ (targets : List (Nat × Nat)) (initial : Nat → Nat) {label pc : Nat},
    (targets.map Prod.fst).Nodup → (label, pc) ∈ targets →
    targets.foldl (fun target (label, pc) => Function.update target label pc) initial label = pc := by
  intro targets
  induction targets using List.reverseRecOn with
  | nil => exact fun _ _ _ _ member => absurd member List.not_mem_nil
  | append_singleton targets last induction =>
      intro initial label pc nodup member
      rw [List.map_append, List.nodup_append] at nodup
      rw [List.foldl_append]
      rcases List.mem_append.mp member with earlier | found
      · have apart : label ≠ last.1 := by
          rintro rfl
          exact nodup.2.2 _ (List.mem_map_of_mem earlier) _ (List.mem_singleton_self _) rfl
        simp only [List.foldl_cons, List.foldl_nil, Function.update_of_ne apart]
        exact induction initial nodup.1 earlier
      · obtain rfl := List.mem_singleton.mp found
        simp

def Emit.resolved (state : Emit F O) : List (Instr F O) :=
  state.code.map (Instr.resolve state.target)

variable {final : Emit F O}

theorem Emit.mem_setTarget (label : Nat) (state : Emit F O) :
    (label, state.code.length) ∈ (state.setTarget label).targets :=
  List.mem_append_right _ (List.mem_singleton_self _)

/-- Labels are set once in the whole of an emission, so each is resolved to where it has been
set. -/
theorem Emit.target_eq (unique : ∀ label, final.sets label ≤ 1) {state : Emit F O}
    {label pc : Nat} (before : state.Before final) (set : (label, pc) ∈ state.targets) :
    final.target label = pc :=
  target_of_mem final.targets _ (List.nodup_iff_count_le_one.mpr unique)
    (before.targets.subset set)

theorem Emit.resolved_get {instruction : Instr F O} {state : Emit F O} {pc : Nat}
    (before : state.Before final) (found : state.code[pc]? = some instruction) :
    final.resolved[pc]? = some (instruction.resolve final.target) := by
  obtain ⟨rest, code⟩ := before.code
  obtain ⟨inside, _⟩ := List.getElem?_eq_some_iff.mp found
  rw [resolved, List.getElem?_map, ← code, List.getElem?_append_left inside, found]
  rfl

theorem Emit.resolved_at {instruction : Instr F O} {state : Emit F O}
    (before : (state.emit instruction).Before final) :
    final.resolved[state.code.length]? = some (instruction.resolve final.target) :=
  Emit.resolved_get before (by simp [Emit.emit])

end Targets

section Endings

variable {F O W : Type} (runtime : Runtime F O W) (privates : Nat) (code : List (Instr F O))

/-- Where a part that has ended may have left the machine. -/
abbrev Exit (F O W : Type) := Completion F O → State F O W → Config F O W → Prop

def Config.Running (state : State F O W) (config : Config F O W) : Prop :=
  ∃ pc frames, config = .at pc frames state

/-- What a run does that simulates a part from `first` to its end: an end that is not a normal
one takes `least` steps or more. -/
def Simulates (exit : Exit F O W) (fuel least : Nat) (first : Config F O W)
    (ending : Ending F O W) : Prop :=
  match ending with
  | (.timeout, state) => Comes (step runtime privates code) fuel (Config.Running state) first
  | (.normal, state) => Comes (step runtime privates code) 0 (exit .normal state) first
  | (completion, state) => Comes (step runtime privates code) least (exit completion state) first

variable {runtime privates code}
variable {exit other : Exit F O W} {fuel least : Nat} {first : Config F O W}

namespace Simulates

theorem mk {completion : Completion F O} {state : State F O W} (lasting : completion ≠ .timeout)
    (comes : Comes (step runtime privates code) least (exit completion state) first) :
    Simulates runtime privates code exit fuel least first (completion, state) := by
  cases completion with
  | timeout => exact absurd rfl lasting
  | normal => exact comes.fewer (Nat.zero_le _)
  | _ => exact comes

theorem here {completion : Completion F O} {state : State F O W}
    (lasting : completion ≠ .timeout) (met : exit completion state first) :
    Simulates runtime privates code exit fuel 0 first (completion, state) :=
  mk lasting (Comes.here met)

theorem normal {state : State F O W} (met : exit .normal state first) :
    Simulates runtime privates code exit fuel least first (.normal, state) :=
  Comes.here met

theorem fewer {fuel1 least1 : Nat} {ending : Ending F O W}
    (simulates : Simulates runtime privates code exit fuel least first ending)
    (fuels : fuel1 ≤ fuel) (bound : least1 ≤ least) :
    Simulates runtime privates code exit fuel1 least1 first ending := by
  rcases ending with ⟨completion, state⟩
  cases completion with
  | timeout => exact Comes.fewer simulates fuels
  | normal => exact simulates
  | _ => exact Comes.fewer simulates bound

theorem imp {ending : Ending F O W}
    (simulates : Simulates runtime privates code exit fuel least first ending)
    (weaker : ∀ completion state config, exit completion state config →
      other completion state config) :
    Simulates runtime privates code other fuel least first ending := by
  rcases ending with ⟨completion, state⟩
  cases completion with
  | timeout => exact simulates
  | _ => exact Comes.imp simulates (weaker _ _)

theorem after {prefix_ : Nat} {middle : Config F O W → Prop} {ending : Ending F O W}
    (left : Comes (step runtime privates code) prefix_ middle first)
    (right : ∀ config, middle config →
      Simulates runtime privates code exit fuel least config ending) :
    Simulates runtime privates code exit (prefix_ + fuel) (prefix_ + least) first ending := by
  rcases ending with ⟨completion, state⟩
  cases completion with
  | normal => exact (left.trans right).fewer (Nat.zero_le _)
  | _ => exact left.trans right

theorem next {ending : Ending F O W}
    (later : Simulates runtime privates code exit fuel least
      (step runtime privates code first) ending) :
    Simulates runtime privates code exit (fuel + 1) (least + 1) first ending := by
  have moved : Comes (step runtime privates code) 1
      (fun config => config = step runtime privates code first) first := ⟨1, le_refl 1, rfl⟩
  have whole : Simulates runtime privates code exit (1 + fuel) (1 + least) first ending :=
    after moved (by
      rintro config rfl
      exact later)
  exact whole.fewer (by omega) (by omega)

theorem andThen {ending : Ending F O W} {rest : State F O W → Ending F O W}
    (left : Simulates runtime privates code exit fuel least first ending)
    (abnormal : ∀ completion state config, completion ≠ .normal → exit completion state config →
      other completion state config)
    (right : ∀ state config, exit .normal state config →
      Simulates runtime privates code other fuel least config (rest state)) :
    Simulates runtime privates code other fuel least first (Xemmai.andThen ending rest) := by
  rcases ending with ⟨completion, state⟩
  cases completion with
  | normal => exact (after left (right state)).fewer (by omega) (by omega)
  | timeout => exact left
  | _ => exact Comes.imp left (abnormal _ state · (by rintro ⟨⟩))

theorem onward {ending : Ending F O W}
    (left : Simulates runtime privates code exit fuel least first ending)
    (leads : ∀ completion state config, exit completion state config →
      Simulates runtime privates code other fuel 0 config (completion, state)) :
    Simulates runtime privates code other fuel least first ending := by
  rcases ending with ⟨completion, state⟩
  cases completion with
  | timeout => exact left
  | normal => exact Comes.trans left (leads .normal state)
  | _ => exact (after left (leads _ _)).fewer (by omega) (by omega)

theorem catching {catches : Value F O → State F O W → Ending F O W} {ending : Ending F O W}
    (left : Simulates runtime privates code exit fuel least first ending)
    (others : ∀ completion state config, (∀ thrown, completion ≠ .threw thrown) →
      exit completion state config →
      Simulates runtime privates code other fuel least config (completion, state))
    (clauses : ∀ thrown state config, exit (.threw thrown) state config →
      Simulates runtime privates code other fuel least config (catches thrown state)) :
    Simulates runtime privates code other fuel least first (Xemmai.catching catches ending) := by
  rcases ending with ⟨completion, state⟩
  cases completion with
  | threw thrown => exact (after left (clauses _ _)).fewer (by omega) (by omega)
  | timeout => exact left
  | _ => exact (after left (others _ _ · (by rintro _ ⟨⟩))).fewer (by omega) (by omega)

theorem attempting {body : State F O W → Ending F O W}
    {catches : Value F O → State F O W → Ending F O W} {finally_ : State F O W → Ending F O W}
    {break_ continue_ return_ : State F O W → State F O W} {state : State F O W}
    (attempted : Simulates runtime privates code exit fuel least first
      (Xemmai.catching catches (body state)))
    (finish : ∀ completion state config, exit completion state config →
      Simulates runtime privates code other fuel least config (Xemmai.andThen (finally_ state)
        fun state => leaving completion state break_ continue_ return_)) :
    Simulates runtime privates code other fuel least first
      (Xemmai.attempting body catches finally_ break_ continue_ return_ state) := by
  unfold Xemmai.attempting
  generalize Xemmai.catching catches (body state) = ending at attempted ⊢
  rcases ending with ⟨completion, state⟩
  cases completion with
  | timeout => exact attempted
  | _ => exact (after attempted (finish _ _)).fewer (by omega) (by omega)

theorem looping {again : State F O W → Ending F O W} {ending : Ending F O W}
    (left : Simulates runtime privates code exit (fuel + 1) 1 first ending)
    (others : ∀ completion state config, completion ≠ .normal → completion ≠ .continue_ →
      completion ≠ .break_ → exit completion state config → other completion state config)
    (breaks : ∀ state config, exit .break_ state config → other .normal state config)
    (rounds : ∀ state config, exit .normal state config →
      Simulates runtime privates code other (fuel + 1) 1 config (again state))
    (continues : ∀ state config, exit .continue_ state config →
      Simulates runtime privates code other fuel 0 config (again state)) :
    Simulates runtime privates code other (fuel + 1) 1 first (Xemmai.looping again ending) := by
  rcases ending with ⟨completion, state⟩
  cases completion with
  | normal => exact (after left (rounds state)).fewer (by omega) (by omega)
  | continue_ => exact (after left (continues state)).fewer (by omega) (by omega)
  | break_ => exact (Comes.imp left (breaks state)).fewer (Nat.zero_le _)
  | timeout => exact left
  | _ => exact Comes.imp left (others _ state · (by rintro ⟨⟩) (by rintro ⟨⟩) (by rintro ⟨⟩))

/-- The rounds of a loop, by induction on how many it may take. `head` is where its condition
begins, `ready` where its body does, `past` where its third part does, and `back` the jump to
the head. -/
theorem repeating {condition body next : State F O W → Ending F O W} {holds : State F O W → Bool}
    {leave : State F O W → State F O W} {bodyExit nextExit : Exit F O W}
    (head ready away past back : State F O W → Config F O W) {fuel : Nat}
    (running : ∀ state, (head state).Running state)
    (conditions : ∀ fuel1, fuel1 ≤ fuel → ∀ rest : State F O W → Ending F O W,
      (∀ state, holds state = true →
        Simulates runtime privates code exit fuel1 1 (ready state) (rest state)) →
      (∀ state, holds state = false →
        Simulates runtime privates code exit fuel1 1 (away state) (rest state)) →
      ∀ state, Simulates runtime privates code exit fuel1 1 (head state)
        (Xemmai.andThen (condition state) rest))
    (bodies : ∀ state, Simulates runtime privates code bodyExit fuel 1 (ready state) (body state))
    (nexts : ∀ state, Simulates runtime privates code nextExit fuel 1 (past state) (next state))
    (leaves : ∀ state,
      Simulates runtime privates code exit fuel 1 (away state) (.normal, leave state))
    (jumps : ∀ state, step runtime privates code (back state) = head state)
    (bodyNormal : ∀ state config, bodyExit .normal state config → config = past state)
    (bodyBreak : ∀ state config, bodyExit .break_ state config → exit .normal state config)
    (bodyContinue : ∀ state config, bodyExit .continue_ state config →
      config = past state ∨ (config = head state ∧ next state = (.normal, state)))
    (bodyOther : ∀ completion state config, completion ≠ .normal → completion ≠ .continue_ →
      completion ≠ .break_ → bodyExit completion state config → exit completion state config)
    (nextNormal : ∀ state config, nextExit .normal state config → config = back state)
    (nextOther : ∀ completion state config, completion ≠ .normal →
      nextExit completion state config → exit completion state config) :
    ∀ fuel1, fuel1 ≤ fuel → ∀ state, Simulates runtime privates code exit fuel1 1 (head state)
      (Xemmai.repeating condition holds body next leave fuel1 state) := by
  intro fuel1
  induction fuel1 with
  | zero => exact fun _ state => Comes.here (running state)
  | succ fuel1 induction =>
      intro enough state
      have again := induction (by omega)
      have rounds : ∀ state, Simulates runtime privates code exit (fuel1 + 1) 1 (past state)
          (Xemmai.andThen (next state)
            fun state => Xemmai.repeating condition holds body next leave fuel1 state) := by
        intro state
        refine ((nexts state).fewer enough (le_refl 1)).andThen (nextOther · · ·) ?_
        intro state config found
        obtain rfl := nextNormal state config found
        refine Simulates.next ?_
        rw [jumps]
        exact (again state).fewer (le_refl _) (Nat.zero_le _)
      refine conditions (fuel1 + 1) enough _ ?_ ?_ state
      · intro state held
        rw [if_pos held]
        refine looping ((bodies state).fewer enough (le_refl 1)) bodyOther bodyBreak ?_ ?_
        · intro state config found
          obtain rfl := bodyNormal state config found
          exact rounds state
        · intro state config found
          rcases bodyContinue state config found with rfl | ⟨rfl, skipped⟩
          · exact (rounds state).fewer (by omega) (Nat.zero_le _)
          · rw [skipped]
            exact (again state).fewer (le_refl _) (Nat.zero_le _)
      · intro state failed
        rw [if_neg (by simp [failed])]
        exact (leaves state).fewer enough (le_refl 1)

end Simulates

end Endings

section Parts

variable {F O W : Type}

/-- Where a part leaves the machine whose code ends at `pc`. -/
def Jumps.exit (jumps : Jumps) (target : Nat → Nat) (frames : List (TryFrame F O)) (pc : Nat) :
    Exit F O W
  | .normal, state, config => config = .at pc frames state
  | .break_, state, config =>
      ∃ label, jumps.break_ = some label ∧ config = .at (target label) frames state
  | .continue_, state, config =>
      ∃ label, jumps.continue_ = some label ∧ config = .at (target label) frames state
  | .return_, state, config =>
      ∃ label, jumps.return_ = some label ∧ config = .at (target label) frames state
  | .returned value, state, config => frames = [] ∧ config = .done (.returned value) state
  | .threw thrown, state, config => config = .unwind frames thrown state
  | .timeout, _, _ => False

/-- Frames are left by a `_TAIL` form or by `RETURN` only outside of any try. -/
def Jumps.Outermost (jumps : Jumps) (tail : Bool) (frames : List (TryFrame F O)) : Prop :=
  tail = true ∨ jumps.breakIsTail = true ∨ jumps.returnIsTail = true → frames = []

variable (runtime : Runtime F O W) (layout : Layout) (fuel : Nat) (final : Emit F O)

/-- The code that has been emitted from `first` on up to `last` does what `perform` tells. -/
def Runs (jumps : Jumps) (frames : List (TryFrame F O)) (first last : Emit F O)
    (perform : State F O W → Ending F O W) : Prop :=
  ∀ state, Simulates runtime layout.privates final.resolved
    (jumps.exit final.target frames last.code.length) fuel 1
    (.at first.code.length frames state) (perform state)

variable {runtime layout fuel final}
variable {jumps : Jumps} {frames : List (TryFrame F O)} {first middle last : Emit F O}

theorem Jumps.exit_abnormal {target : Nat → Nat} {pc other : Nat} (completion : Completion F O)
    (state : State F O W) (config : Config F O W) (abnormal : completion ≠ .normal)
    (left : jumps.exit target frames pc completion state config) :
    jumps.exit target frames other completion state config := by
  cases completion with
  | normal => exact absurd rfl abnormal
  | _ => exact left

namespace Runs

theorem skip (same : last.code = first.code) :
    Runs runtime layout fuel final jumps frames first last fun state => (.normal, state) :=
  fun state => Simulates.normal (by rw [same]; rfl)

theorem andThen {perform rest : State F O W → Ending F O W}
    (left : Runs runtime layout fuel final jumps frames first middle perform)
    (right : Runs runtime layout fuel final jumps frames middle last rest) :
    Runs runtime layout fuel final jumps frames first last fun state =>
      Xemmai.andThen (perform state) rest := by
  intro state
  refine (left state).andThen Jumps.exit_abnormal ?_
  rintro state _ rfl
  exact right state

theorem emit {instruction : Instr F O} {perform : State F O W → Ending F O W}
    (before : (first.emit instruction).Before final)
    (executes : ∀ state, Simulates runtime layout.privates final.resolved
      (jumps.exit final.target frames last.code.length) fuel 0
      (execute runtime layout.privates first.code.length frames state
        (instruction.resolve final.target)) (perform state)) :
    Runs runtime layout fuel final jumps frames first last perform := by
  intro state
  refine (Simulates.next ?_).fewer (Nat.le_succ fuel) (le_refl 1)
  simp only [step, Emit.resolved_at before]
  exact executes state

theorem straight {instruction : Instr F O} {move : State F O W → State F O W}
    (before : (first.emit instruction).Before final)
    (same : last.code = first.code ++ [instruction])
    (executes : ∀ state, execute runtime layout.privates first.code.length frames state
      (instruction.resolve final.target) = .at (first.code.length + 1) frames (move state)) :
    Runs runtime layout fuel final jumps frames first last fun state => (.normal, move state) := by
  refine emit before ?_
  intro state
  rw [executes]
  exact Simulates.normal (by simp [Jumps.exit, same])

theorem deliver {instruction : Instr F O} {tail : Bool} {stack : Nat}
    {move : State F O W → State F O W}
    {result : State F O W → Except (Value F O) (Value F O) × W}
    (before : (first.emit instruction).Before final)
    (same : last.code = first.code ++ [instruction]) (outermost : tail = true → frames = [])
    (executes : ∀ state, execute runtime layout.privates first.code.length frames state
      (instruction.resolve final.target) =
        .deliver layout.privates first.code.length frames tail stack (move state) (result state)) :
    Runs runtime layout fuel final jumps frames first last fun state =>
      Xemmai.deliver layout.privates tail stack (move state) (result state) := by
  refine emit before ?_
  intro state
  rw [executes]
  unfold Config.deliver Xemmai.deliver
  rcases result state with ⟨result, world⟩
  cases result with
  | error thrown => exact Simulates.here (by rintro ⟨⟩) rfl
  | ok value =>
      cases tail with
      | true =>
          obtain rfl := outermost rfl
          exact Simulates.here (by rintro ⟨⟩) ⟨rfl, rfl⟩
      | false => exact Simulates.normal (by simp [Jumps.exit, same])

theorem inserts : ∀ {slots : List Nat} {first last : Emit F O},
    last.code = first.code ++ slots.map .insertNull → last.targets = first.targets →
    last.Before final →
    Runs runtime layout fuel final jumps frames first last fun state =>
      (.normal, state.insertNulls slots) := by
  intro slots
  induction slots with
  | nil => exact fun code _ _ => skip (by simpa using code)
  | cons slot slots induction =>
      intro first last code targets before
      have split : last.code = (first.emit (.insertNull slot)).code ++ slots.map .insertNull := by
        simpa [Emit.emit] using code
      have earlier : (first.emit (.insertNull slot)).Before final :=
        Emit.Before.trans ⟨⟨_, split.symm⟩, by rw [targets]; rfl⟩ before
      have one : Runs runtime layout fuel final jumps frames first (first.emit (.insertNull slot))
          fun state => (.normal, state.insertNull slot) :=
        straight earlier rfl fun _ => rfl
      exact one.andThen (induction split targets before)

theorem join (junction : Block) (before : (first.join layout junction).Before final) :
    Runs runtime layout fuel final jumps frames first (first.join layout junction) fun state =>
      (.normal, state.insertNulls (layout.nulls first.privates junction)) :=
  inserts rfl rfl before

end Runs

end Parts

end Xemmai
