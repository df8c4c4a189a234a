import Xemmai.Machine
import Xemmai.SharedMutex
import Mathlib.Data.List.Basic

/-!
# Objects that one thread owns or all threads share

`v_owner` is `t_increments::v_instance` of the thread that owns the object: an address
inside of the record that `f_fork` allocates for a thread and the collector deletes when the
thread has ended. The steps of the object are over any two kinds of names, those of the
threads and those that `v_owner` compares; where both are the same a thread is known
for certain.

Every test or write of `v_owner`, every lock and every unlock is a step of its
own, so the steps of the threads interleave freely. What a thread runs is a stack
of calls on the object: a body may call `f_owned_or_shared` again, and the call
on top is the one that goes on. Whatever the thread does before a body has ended
belongs to that body, other fibers of the thread included, so `f_own` and
`f_share` are called where no body of the thread is open. A lock that is taken
while it is held makes the thread wait.
-/

namespace Xemmai

set_option autoImplicit false

namespace Sharable

inductive Outcome
  | returned
  | threw (message : String)
  deriving DecidableEq, Repr

/-- Where a call stands. -/
inductive Frame
  /-- `if (f_owned()) return a_do();` -/
  | owned (mode : Mode)
  /-- The first `if (!f_shared())`. -/
  | shared (mode : Mode)
  /-- `T_lock lock(v_mutex);` -/
  | locking (mode : Mode)
  /-- The second `if (!f_shared())`. -/
  | again (mode : Mode)
  /-- `a_do` of the owner. -/
  | free
  /-- `a_do` under the lock. -/
  | locked (mode : Mode)
  /-- The lock's destructor. -/
  | unlocking (mode : Mode) (outcome : Outcome)
  /-- `f_own` in front of the lock, in front of its test and of its write. -/
  | own
  | owning
  | taking
  /-- `f_share` in front of its test, of the lock and of its write. -/
  | share
  | sharing
  | giving
  deriving DecidableEq, Repr

namespace Frame

/-- The frames in which `a_do` runs. -/
def body : Frame → Bool
  | free => true
  | locked _ => true
  | _ => false

/-- The frames of `f_own` and `f_share` in front of their write. -/
def switches : Frame → Bool
  | own => true
  | owning => true
  | taking => true
  | share => true
  | sharing => true
  | giving => true
  | _ => false

def holds : Frame → Option Mode
  | again mode => some mode
  | locked mode => some mode
  | unlocking mode _ => some mode
  | owning => some .exclusive
  | taking => some .exclusive
  | giving => some .exclusive
  | _ => none

end Frame

inductive Action
  | call (mode : Mode)
  | own
  | share
  /-- The body on top ends. -/
  | finish (outcome : Outcome)
  | proceed
  deriving DecidableEq, Repr

end Sharable

/-- `v_owner` and `v_mutex`, and for each thread the calls that it is in, the
innermost first, and how those it has left ended, the last first. -/
structure Sharable (ι α : Type) where
  owner : Option α
  mutex : SharedMutex ι
  frames : ι → List Sharable.Frame
  outcomes : ι → List Sharable.Outcome

namespace Sharable

variable {ι α : Type} [DecidableEq ι] [DecidableEq α]

def start (self : α) : Sharable ι α where
  owner := some self
  mutex := .free
  frames := fun _ => []
  outcomes := fun _ => []

def goto (object : Sharable ι α) (thread : ι) (frames : List Frame) : Sharable ι α :=
  { object with frames := Function.update object.frames thread frames }

def leave (object : Sharable ι α) (thread : ι) (rest : List Frame) (outcome : Outcome) :
    Sharable ι α :=
  { object.goto thread rest with
    outcomes := Function.update object.outcomes thread (outcome :: object.outcomes thread) }

def lock (object : Sharable ι α) (thread : ι) (mode : Mode) (frames : List Frame) :
    Option (Sharable ι α) :=
  (object.mutex.acquire mode thread).map fun mutex =>
    { object.goto thread frames with mutex := mutex }

def unlock (object : Sharable ι α) (thread : ι) (mode : Mode) (rest : List Frame)
    (outcome : Outcome) : Option (Sharable ι α) :=
  (object.mutex.release mode thread).map fun mutex =>
    { object.leave thread rest outcome with mutex := mutex }

/-- The next step of the call on top of a thread's stack, where it is not in a
body. `self` is the `t_increments::v_instance` of the thread. -/
def proceed (object : Sharable ι α) (self : α) (thread : ι) : Option (Sharable ι α) :=
  match object.frames thread with
  | [] => none
  | frame :: rest =>
    match frame with
    | .owned mode =>
      if object.owner = some self then some (object.goto thread (.free :: rest))
      else some (object.goto thread (.shared mode :: rest))
    | .shared mode =>
      if object.owner = none then some (object.goto thread (.locking mode :: rest))
      else some (object.leave thread rest (.threw "owned by another thread."))
    | .locking mode => object.lock thread mode (.again mode :: rest)
    | .again mode =>
      if object.owner = none then some (object.goto thread (.locked mode :: rest))
      else
        some (object.goto thread
          (.unlocking mode (.threw "owned by another thread.") :: rest))
    | .free => none
    | .locked _ => none
    | .unlocking mode outcome => object.unlock thread mode rest outcome
    | .own => object.lock thread .exclusive (.owning :: rest)
    | .owning =>
      if object.owner = none then some (object.goto thread (.taking :: rest))
      else some (object.goto thread (.unlocking .exclusive (.threw "already owned.") :: rest))
    | .taking =>
      some { object.goto thread (.unlocking .exclusive .returned :: rest) with
        owner := some self }
    | .share =>
      if object.owner = some self then some (object.goto thread (.sharing :: rest))
      else some (object.leave thread rest (.threw "not owned."))
    | .sharing => object.lock thread .exclusive (.giving :: rest)
    | .giving =>
      some { object.goto thread (.unlocking .exclusive .returned :: rest) with owner := none }

def finish (object : Sharable ι α) (thread : ι) (outcome : Outcome) : Option (Sharable ι α) :=
  match object.frames thread with
  | .free :: rest => some (object.leave thread rest outcome)
  | .locked mode :: rest => some (object.goto thread (.unlocking mode outcome :: rest))
  | _ => none

def ready (object : Sharable ι α) (thread : ι) : Bool :=
  match object.frames thread with
  | [] => true
  | frame :: _ => frame.body

def step (object : Sharable ι α) (self : α) : ι × Action → Option (Sharable ι α)
  | (thread, .call mode) =>
    if object.ready thread then
      some (object.goto thread (.owned mode :: object.frames thread))
    else none
  | (thread, .own) =>
    if object.frames thread = [] then some (object.goto thread [.own]) else none
  | (thread, .share) =>
    if object.frames thread = [] then some (object.goto thread [.share]) else none
  | (thread, .finish outcome) => object.finish thread outcome
  | (thread, .proceed) => object.proceed self thread

/-- A step where `v_owner` is the thread itself. -/
def turn (object : Sharable ι ι) (action : ι × Action) : Option (Sharable ι ι) :=
  object.step action.1 action

def Runs (object : Sharable ι α) (thread : ι) : Prop :=
  ∃ frame ∈ object.frames thread, frame.body = true

def Foreign (object : Sharable ι ι) (thread : ι) : Prop :=
  object.owner ≠ none ∧ object.owner ≠ some thread

namespace Frame

/-- What a call has learnt of the owner and may rely on from there on. -/
def Knows (frame : Frame) (thread : ι) (owner : Option ι) : Prop :=
  match frame with
  | free => owner = some thread
  | sharing => owner = some thread
  | giving => owner = some thread
  | locked _ => owner = none
  | taking => owner = none
  | _ => True

end Frame

def holding (mode : Mode) (frames : List Frame) : Nat :=
  frames.countP (·.holds = some mode)

/-- The mutex is held as the frames say, and what they know of the owner holds. -/
structure Sound (object : Sharable ι ι) : Prop where
  held : ∀ thread mode,
    object.mutex.held thread mode = holding mode (object.frames thread)
  knows : ∀ thread, ∀ frame ∈ object.frames thread, frame.Knows thread object.owner
  alone : ∀ thread, ∀ frame ∈ object.frames thread, frame.switches = true →
    object.frames thread = [frame]

@[simp] theorem holding_nil (mode : Mode) : holding mode [] = 0 := rfl

theorem holding_cons (mode : Mode) (frame : Frame) (rest : List Frame) :
    holding mode (frame :: rest) =
      holding mode rest + if frame.holds = some mode then 1 else 0 := by
  simp [holding, List.countP_cons]

theorem holding_append (mode : Mode) (first second : List Frame) :
    holding mode (first ++ second) = holding mode first + holding mode second :=
  List.countP_append

namespace Sound

variable {object after : Sharable ι ι} {thread : ι} {frame : Frame} {rest : List Frame}

theorem start (creator : ι) : (start creator).Sound where
  held thread mode := SharedMutex.held_free thread mode
  knows _ _ member := absurd member List.not_mem_nil
  alone _ _ member := absurd member List.not_mem_nil

/-- Below the call on top there are only bodies, none of `f_own` or `f_share`. -/
theorem plain (sound : object.Sound) (top : object.frames thread = frame :: rest) :
    ∀ below ∈ rest, below.switches = false := by
  intro below member
  by_contra switches
  have alone := sound.alone thread below (by simp [top, member]) (by simpa using switches)
  rw [top] at alone
  obtain ⟨_, rfl⟩ := List.cons.inj alone
  exact absurd member List.not_mem_nil

/-- A step that replaces the calls on top of one thread's stack. -/
theorem turn (old new : List Frame) (sound : object.Sound)
    (before : object.frames thread = old ++ rest)
    (frames : after.frames = Function.update object.frames thread (new ++ rest))
    (plain : ∀ below ∈ rest, below.switches = false)
    (held : ∀ other mode, after.mutex.held other mode +
        (if other = thread then holding mode old else 0) =
      object.mutex.held other mode + if other = thread then holding mode new else 0)
    (knows : ∀ frame ∈ new, frame.Knows thread after.owner)
    (others : ∀ other, ∀ frame ∈ object.frames other, other ≠ thread ∨ frame ∈ rest →
      frame.Knows other after.owner)
    (alone : ∀ frame ∈ new, frame.switches = true → new ++ rest = [frame]) :
    after.Sound where
  held other mode := by
    have old := sound.held other mode
    have new := held other mode
    rw [frames]
    by_cases same : other = thread
    · subst same
      rw [before, holding_append] at old
      simp only [if_true] at new
      rw [Function.update_self, holding_append]
      omega
    · simp only [same, if_false] at new
      rw [Function.update_of_ne same]
      omega
  knows other frame member := by
    rw [frames] at member
    by_cases same : other = thread
    · subst same
      rw [Function.update_self] at member
      rcases List.mem_append.mp member with fresh | below
      · exact knows frame fresh
      · exact others other frame (by simp [before, below]) (Or.inr below)
    · rw [Function.update_of_ne same] at member
      exact others other frame member (Or.inl same)
  alone other frame member switches := by
    rw [frames] at member ⊢
    by_cases same : other = thread
    · subst same
      rw [Function.update_self] at member ⊢
      rcases List.mem_append.mp member with fresh | below
      · exact alone frame fresh switches
      · exact absurd switches (by simp [plain frame below])
    · rw [Function.update_of_ne same] at member ⊢
      exact sound.alone other frame member switches

/-- A call goes on with the mutex held as before, or is left without it. -/
theorem goes (new : List Frame) (sound : object.Sound)
    (top : object.frames thread = frame :: rest)
    (frames : after.frames = Function.update object.frames thread (new ++ rest))
    (owner : after.owner = object.owner) (mutex : after.mutex = object.mutex)
    (same : ∀ mode, holding mode new = holding mode [frame])
    (knows : ∀ frame ∈ new, frame.Knows thread object.owner)
    (alone : ∀ next ∈ new, next.switches = true → frame.switches = true ∧ new = [next]) :
    after.Sound := by
  refine turn [frame] new sound (top.trans List.singleton_append.symm) frames (sound.plain top) ?_
    (by rw [owner]; exact knows) ?_ ?_
  · intro other mode
    rw [mutex, same]
  · intro other frame member _
    rw [owner]
    exact sound.knows other frame member
  · intro next member switches
    obtain ⟨before, rfl⟩ := alone next member switches
    have empty := sound.alone thread frame (by simp [top]) before
    rw [top] at empty
    rw [(List.cons.inj empty).2]
    rfl

theorem goto (sound : object.Sound) (top : object.frames thread = frame :: rest)
    {next : Frame} (same : next.holds = frame.holds) (knows : next.Knows thread object.owner)
    (alone : next.switches = true → frame.switches = true) :
    (object.goto thread (next :: rest)).Sound := by
  refine goes [next] sound top rfl rfl rfl ?_ ?_ ?_
  · intro mode
    simp [holding_cons, same]
  · intro frame member
    rw [List.mem_singleton] at member
    exact member ▸ knows
  · intro other member switches
    rw [List.mem_singleton] at member
    subst member
    exact ⟨alone switches, rfl⟩

theorem leave (sound : object.Sound) (top : object.frames thread = frame :: rest)
    (open_ : frame.holds = none) (outcome : Outcome) :
    (object.leave thread rest outcome).Sound := by
  refine goes [] sound top rfl rfl rfl ?_ ?_ ?_
  · intro mode
    simp [holding_cons, open_]
  · exact fun _ member => absurd member List.not_mem_nil
  · exact fun _ member => absurd member List.not_mem_nil

theorem lock (sound : object.Sound) (top : object.frames thread = frame :: rest)
    {mode : Mode} {next : Frame} (taken : object.lock thread mode (next :: rest) = some after)
    (open_ : frame.holds = none) (holds : next.holds = some mode)
    (knows : next.Knows thread object.owner)
    (alone : next.switches = true → frame.switches = true) : after.Sound := by
  simp only [Sharable.lock, Option.map_eq_some_iff] at taken
  obtain ⟨mutex, acquired, rfl⟩ := taken
  refine turn [frame] [next] sound (top.trans List.singleton_append.symm) rfl
    (sound.plain top) ?_ ?_ ?_ ?_
  · intro other way
    have change := SharedMutex.held_acquire acquired other way
    by_cases same : other = thread <;>
      simp [holding_cons, open_, holds, same, eq_comm] at change ⊢ <;> omega
  · intro frame member
    rw [List.mem_singleton] at member
    exact member ▸ knows
  · exact fun other frame member _ => sound.knows other frame member
  · intro other member switches
    rw [List.mem_singleton] at member
    subst member
    have empty := sound.alone thread frame (by simp [top]) (alone switches)
    rw [top] at empty
    rw [(List.cons.inj empty).2]
    rfl

theorem unlock (sound : object.Sound) {mode : Mode} {outcome : Outcome}
    (top : object.frames thread = .unlocking mode outcome :: rest)
    (given : object.unlock thread mode rest outcome = some after) : after.Sound := by
  simp only [Sharable.unlock, Option.map_eq_some_iff] at given
  obtain ⟨mutex, released, rfl⟩ := given
  refine turn [.unlocking mode outcome] [] sound (top.trans List.singleton_append.symm) rfl
    (sound.plain top) ?_ ?_ ?_ ?_
  · intro other way
    have change := SharedMutex.held_release released other way
    by_cases same : other = thread <;>
      simp [holding_cons, Frame.holds, same, eq_comm] at change ⊢ <;> omega
  · exact fun _ member => absurd member List.not_mem_nil
  · exact fun other frame member _ => sound.knows other frame member
  · exact fun _ member => absurd member List.not_mem_nil

theorem keeps_out (sound : object.Sound) (top : object.frames thread = frame :: rest)
    (holds : frame.holds = some .exclusive) {other : ι} (different : other ≠ thread)
    {held : Frame} (member : held ∈ object.frames other) : held.holds = none := by
  have mine : 0 < object.mutex.held thread .exclusive := by
    rw [sound.held, top, holding_cons, holds]
    simp
  cases shape : held.holds with
  | none => rfl
  | some mode =>
    have theirs : 0 < object.mutex.held other mode := by
      rw [sound.held]
      exact List.countP_pos_iff.mpr ⟨held, member, by simpa using shape⟩
    exact absurd (object.mutex.exclusive_alone mine theirs).1 different

/-- The call that holds the mutex alone writes the owner: nobody else relies on
what it was. -/
theorem write (sound : object.Sound) (top : object.frames thread = frame :: rest)
    (holds : frame.holds = some .exclusive) (switches : frame.switches = true)
    (mine : ∀ other, other ≠ thread → object.owner ≠ some other) (owner : Option ι) :
    { object.goto thread (.unlocking .exclusive .returned :: rest) with
      owner := owner }.Sound := by
  have empty : rest = [] := by
    have alone := sound.alone thread frame (by simp [top]) switches
    rw [top] at alone
    exact (List.cons.inj alone).2
  refine turn [frame] [.unlocking .exclusive .returned] sound
    (top.trans List.singleton_append.symm) rfl (sound.plain top) ?_ ?_ ?_ ?_
  · intro other mode
    rw [holding_cons, holding_cons, holds]
    rfl
  · intro next member
    rw [List.mem_singleton] at member
    subst member
    trivial
  · intro other held member place
    have different : other ≠ thread := by
      refine place.resolve_right ?_
      simp [empty]
    have open_ := sound.keeps_out top holds different member
    have known := sound.knows other held member
    cases held with
    | free => exact absurd known (mine other different)
    | sharing => exact absurd known (mine other different)
    | giving => exact absurd open_ (by simp [Frame.holds])
    | locked mode => exact absurd open_ (by simp [Frame.holds])
    | taking => exact absurd open_ (by simp [Frame.holds])
    | _ => trivial
  · intro next member switching
    rw [List.mem_singleton] at member
    subst member
    exact absurd switching (by simp [Frame.switches])

theorem own (sound : object.Sound) (top : object.frames thread = .taking :: rest) :
    { object.goto thread (.unlocking .exclusive .returned :: rest) with
      owner := some thread }.Sound := by
  have none : object.owner = none := sound.knows thread .taking (by simp [top])
  exact sound.write top rfl rfl (by simp [none]) _

theorem share (sound : object.Sound) (top : object.frames thread = .giving :: rest) :
    { object.goto thread (.unlocking .exclusive .returned :: rest) with
      owner := none }.Sound := by
  have owned : object.owner = some thread := sound.knows thread .giving (by simp [top])
  refine sound.write top rfl rfl ?_ _
  intro other different same
  exact different (Option.some.inj (same.symm.trans owned))

theorem proceed (sound : object.Sound) (taken : object.proceed thread thread = some after) :
    after.Sound := by
  cases top : object.frames thread with
  | nil => simp [Sharable.proceed, top] at taken
  | cons frame rest =>
    cases frame with
    | owned mode =>
      simp only [Sharable.proceed, top] at taken
      split at taken
      · rename_i owner
        exact Option.some.inj taken ▸ sound.goto top rfl owner nofun
      · exact Option.some.inj taken ▸ sound.goto top rfl trivial nofun
    | shared mode =>
      simp only [Sharable.proceed, top] at taken
      split at taken
      · exact Option.some.inj taken ▸ sound.goto top rfl trivial nofun
      · exact Option.some.inj taken ▸ sound.leave top rfl _
    | locking mode =>
      simp only [Sharable.proceed, top] at taken
      exact sound.lock top taken rfl rfl trivial nofun
    | again mode =>
      simp only [Sharable.proceed, top] at taken
      split at taken
      · rename_i owner
        exact Option.some.inj taken ▸ sound.goto top rfl owner nofun
      · exact Option.some.inj taken ▸ sound.goto top rfl trivial nofun
    | free => simp [Sharable.proceed, top] at taken
    | locked mode => simp [Sharable.proceed, top] at taken
    | unlocking mode outcome =>
      simp only [Sharable.proceed, top] at taken
      exact sound.unlock top taken
    | own =>
      simp only [Sharable.proceed, top] at taken
      exact sound.lock top taken rfl rfl trivial fun _ => rfl
    | owning =>
      simp only [Sharable.proceed, top] at taken
      split at taken
      · rename_i owner
        exact Option.some.inj taken ▸ sound.goto top rfl owner fun _ => rfl
      · exact Option.some.inj taken ▸ sound.goto top rfl trivial nofun
    | taking =>
      simp only [Sharable.proceed, top] at taken
      exact Option.some.inj taken ▸ sound.own top
    | share =>
      simp only [Sharable.proceed, top] at taken
      split at taken
      · rename_i owner
        exact Option.some.inj taken ▸ sound.goto top rfl owner fun _ => rfl
      · exact Option.some.inj taken ▸ sound.leave top rfl _
    | sharing =>
      simp only [Sharable.proceed, top] at taken
      exact sound.lock top taken rfl rfl (sound.knows thread .sharing (by simp [top]))
        fun _ => rfl
    | giving =>
      simp only [Sharable.proceed, top] at taken
      exact Option.some.inj taken ▸ sound.share top

theorem finish {outcome : Outcome} (sound : object.Sound)
    (taken : object.finish thread outcome = some after) : after.Sound := by
  simp only [Sharable.finish] at taken
  split at taken
  · rename_i rest top
    exact Option.some.inj taken ▸ sound.leave top rfl _
  · rename_i mode rest top
    exact Option.some.inj taken ▸ sound.goto top rfl trivial nofun
  · exact absurd taken (by simp)

theorem push (next : Frame) (sound : object.Sound)
    (plain : ∀ below ∈ object.frames thread, below.switches = false) (open_ : next.holds = none)
    (knows : next.Knows thread object.owner)
    (alone : next.switches = true → object.frames thread = []) :
    (object.goto thread (next :: object.frames thread)).Sound := by
  refine turn [] [next] sound rfl rfl plain ?_ ?_ ?_ ?_
  · intro other mode
    simp [Sharable.goto, holding_cons, open_]
  · intro frame member
    rw [List.mem_singleton] at member
    exact member ▸ knows
  · exact fun other frame member _ => sound.knows other frame member
  · intro frame member switches
    rw [List.mem_singleton] at member
    subst member
    exact congrArg ([frame] ++ ·) (alone switches)

theorem step (sound : object.Sound) {action : ι × Action}
    (taken : object.turn action = some after) : after.Sound := by
  obtain ⟨thread, action⟩ := action
  cases action with
  | call mode =>
    simp only [Sharable.turn, Sharable.step, Option.ite_none_right_eq_some, Option.some.injEq] at taken
    obtain ⟨ready, rfl⟩ := taken
    refine push _ sound ?_ rfl trivial nofun
    intro below member
    by_contra switches
    have alone := sound.alone thread below member (by simpa using switches)
    simp only [Sharable.ready, alone] at ready
    cases below <;> simp [Frame.body, Frame.switches] at ready switches
  | own =>
    simp only [Sharable.turn, Sharable.step, Option.ite_none_right_eq_some, Option.some.injEq] at taken
    obtain ⟨idle, rfl⟩ := taken
    have pushed := push .own sound (by simp [idle]) rfl trivial fun _ => idle
    rwa [idle] at pushed
  | share =>
    simp only [Sharable.turn, Sharable.step, Option.ite_none_right_eq_some, Option.some.injEq] at taken
    obtain ⟨idle, rfl⟩ := taken
    have pushed := push .share sound (by simp [idle]) rfl trivial fun _ => idle
    rwa [idle] at pushed
  | finish outcome => exact sound.finish taken
  | proceed => exact sound.proceed taken

variable {other : ι}

theorem exclusive_alone (sound : object.Sound)
    (excludes : .locked .exclusive ∈ object.frames thread) (different : thread ≠ other) :
    ¬ object.Runs other := by
  rintro ⟨frame, member, body⟩
  have shared : object.owner = none := sound.knows thread _ excludes
  have mine : 0 < object.mutex.held thread .exclusive := by
    rw [sound.held]
    exact List.countP_pos_iff.mpr ⟨_, excludes, rfl⟩
  cases frame with
  | free => exact absurd ((sound.knows other _ member).symm.trans shared) (by simp)
  | locked mode =>
    have theirs : 0 < object.mutex.held other mode := by
      rw [sound.held]
      exact List.countP_pos_iff.mpr ⟨_, member, by simp [Frame.holds]⟩
    exact different (object.mutex.exclusive_alone mine theirs).1.symm
  | _ => exact absurd body (by simp [Frame.body])

theorem not_foreign (sound : object.Sound) (runs : object.Runs thread) :
    ¬ object.Foreign thread := by
  obtain ⟨frame, member, body⟩ := runs
  rintro ⟨owned, foreign⟩
  have known := sound.knows thread frame member
  cases frame with
  | free => exact foreign known
  | locked mode => exact owned known
  | _ => exact absurd body (by simp [Frame.body])

theorem owner_alone (sound : object.Sound) (owns : object.owner = some thread)
    (different : thread ≠ other) : ¬ object.Runs other := by
  intro runs
  refine sound.not_foreign runs ⟨by simp [owns], ?_⟩
  rw [owns]
  exact fun same => different (Option.some.inj same)

end Sound

/-- A thread's calls and outcomes are as before. -/
def Untouched (thread : ι) (object after : Sharable ι ι) : Prop :=
  after.frames thread = object.frames thread ∧ after.outcomes thread = object.outcomes thread

namespace Untouched

variable {object after : Sharable ι ι} {thread actor : ι}

theorem goto (different : thread ≠ actor) (frames : List Frame) (owner : Option ι) :
    Untouched thread object { object.goto actor frames with owner := owner } :=
  ⟨Function.update_of_ne different _ _, rfl⟩

theorem leave (different : thread ≠ actor) (rest : List Frame) (outcome : Outcome) :
    Untouched thread object (object.leave actor rest outcome) :=
  ⟨Function.update_of_ne different _ _, Function.update_of_ne different _ _⟩

theorem lock (different : thread ≠ actor) {mode : Mode} {frames : List Frame}
    (taken : object.lock actor mode frames = some after) : Untouched thread object after := by
  simp only [Sharable.lock, Option.map_eq_some_iff] at taken
  obtain ⟨mutex, _, rfl⟩ := taken
  exact goto different frames object.owner

theorem unlock (different : thread ≠ actor) {mode : Mode} {rest : List Frame}
    {outcome : Outcome} (given : object.unlock actor mode rest outcome = some after) :
    Untouched thread object after := by
  simp only [Sharable.unlock, Option.map_eq_some_iff] at given
  obtain ⟨mutex, _, rfl⟩ := given
  exact leave different rest outcome

theorem proceed (different : thread ≠ actor) (taken : object.proceed actor actor = some after) :
    Untouched thread object after := by
  have goes : ∀ frames, Untouched thread object (object.goto actor frames) :=
    fun frames => goto different frames object.owner
  have leaves : ∀ rest outcome, Untouched thread object (object.leave actor rest outcome) :=
    leave different
  cases top : object.frames actor with
  | nil => simp [Sharable.proceed, top] at taken
  | cons frame rest =>
    cases frame with
    | owned mode =>
      simp only [Sharable.proceed, top] at taken
      split at taken <;> exact Option.some.inj taken ▸ goes _
    | shared mode =>
      simp only [Sharable.proceed, top] at taken
      split at taken
      · exact Option.some.inj taken ▸ goes _
      · exact Option.some.inj taken ▸ leaves _ _
    | locking mode =>
      simp only [Sharable.proceed, top] at taken
      exact lock different taken
    | again mode =>
      simp only [Sharable.proceed, top] at taken
      split at taken <;> exact Option.some.inj taken ▸ goes _
    | free => simp [Sharable.proceed, top] at taken
    | locked mode => simp [Sharable.proceed, top] at taken
    | unlocking mode outcome =>
      simp only [Sharable.proceed, top] at taken
      exact unlock different taken
    | own =>
      simp only [Sharable.proceed, top] at taken
      exact lock different taken
    | owning =>
      simp only [Sharable.proceed, top] at taken
      split at taken <;> exact Option.some.inj taken ▸ goes _
    | taking =>
      simp only [Sharable.proceed, top] at taken
      exact Option.some.inj taken ▸ goto different _ _
    | share =>
      simp only [Sharable.proceed, top] at taken
      split at taken
      · exact Option.some.inj taken ▸ goes _
      · exact Option.some.inj taken ▸ leaves _ _
    | sharing =>
      simp only [Sharable.proceed, top] at taken
      exact lock different taken
    | giving =>
      simp only [Sharable.proceed, top] at taken
      exact Option.some.inj taken ▸ goto different _ _

theorem step {action : ι × Action} (taken : object.turn action = some after)
    (different : thread ≠ action.1) : Untouched thread object after := by
  obtain ⟨actor, action⟩ := action
  cases action with
  | call mode =>
    simp only [Sharable.turn, Sharable.step, Option.ite_none_right_eq_some, Option.some.injEq] at taken
    exact taken.2 ▸ goto different _ _
  | own =>
    simp only [Sharable.turn, Sharable.step, Option.ite_none_right_eq_some, Option.some.injEq] at taken
    exact taken.2 ▸ goto different _ _
  | share =>
    simp only [Sharable.turn, Sharable.step, Option.ite_none_right_eq_some, Option.some.injEq] at taken
    exact taken.2 ▸ goto different _ _
  | finish outcome =>
    simp only [Sharable.turn, Sharable.step, Sharable.finish] at taken
    split at taken
    · exact Option.some.inj taken ▸ leave different _ _
    · exact Option.some.inj taken ▸ goto different _ _
    · exact absurd taken (by simp)
  | proceed => exact proceed different taken

end Untouched

/-- How far a call is that was about to test the owner in `before`: it stands at
one of its two tests, neither of which waits, or it has been left by the throw
and no body of it has run. -/
def Refused (thread : ι) (mode : Mode) (rest : List Frame) (before : Sharable ι ι)
    (actions : List (ι × Action)) (after : Sharable ι ι) : Prop :=
  (actions.countP (·.1 = thread) < 2 ∧
    (after.frames thread = .owned mode :: rest ∨ after.frames thread = .shared mode :: rest) ∧
    after.outcomes thread = before.outcomes thread ∧
    (after.turn (thread, .proceed)).isSome) ∨
  ∃ first second refused, actions = first ++ second ∧
    first.countP (·.1 = thread) = 2 ∧ Machine.run turn before first = some refused ∧
    refused.frames thread = rest ∧
    refused.outcomes thread =
      .threw "owned by another thread." :: before.outcomes thread

section

variable {object after : Sharable ι ι} {thread : ι} {mode : Mode} {rest : List Frame}

/-- Up to the first step that the thread takes in a run, its call stands still. -/
theorem first_turn (thread : ι) {meets : Sharable ι ι → ι × Action → Prop} {actions : List (ι × Action)} :
    ∀ {object : Sharable ι ι}, Machine.run turn object actions = some after →
      Machine.Along turn meets object actions →
      actions.countP (·.1 = thread) = 0 ∧ Untouched thread object after ∨
      ∃ idle action later middle next, actions = idle ++ (thread, action) :: later ∧
        idle.countP (·.1 = thread) = 0 ∧ Machine.run turn object idle = some middle ∧
        Untouched thread object middle ∧ middle.turn (thread, action) = some next ∧
        Machine.run turn next later = some after ∧ meets middle (thread, action) ∧
        Machine.Along turn meets next later := by
  induction actions with
  | nil =>
    intro object reached _
    simp only [Machine.run_nil, Option.some.injEq] at reached
    exact Or.inl ⟨rfl, reached ▸ ⟨rfl, rfl⟩⟩
  | cons action actions ih =>
    intro object reached along
    rw [Machine.run_cons, Option.bind_eq_some_iff] at reached
    obtain ⟨next, taken, reached⟩ := reached
    have met := along.1
    replace along := along.2 next taken
    obtain ⟨actor, action⟩ := action
    by_cases mine : actor = thread
    · subst mine
      exact Or.inr ⟨[], action, actions, object, next, rfl, rfl, rfl, ⟨rfl, rfl⟩, taken,
        reached, met, along⟩
    · have still := Untouched.step taken (Ne.symm mine)
      rcases ih reached along with ⟨none, later⟩ |
        ⟨idle, last, later, middle, end_, rfl, none, run, untouched, result⟩
      · refine Or.inl ⟨by simpa [mine] using none, ?_⟩
        exact ⟨later.1.trans still.1, later.2.trans still.2⟩
      · refine Or.inr ⟨(actor, action) :: idle, last, later, middle, end_, rfl, ?_, ?_, ?_,
          result⟩
        · simpa [mine] using none
        · rw [Machine.run_cons, taken]
          exact run
        · exact ⟨untouched.1.trans still.1, untouched.2.trans still.2⟩

theorem test_proceeds {frame : Frame} (top : object.frames thread = frame :: rest)
    (test : frame.body = false) {action : Action}
    (taken : object.turn (thread, action) = some after) :
    object.proceed thread thread = some after := by
  cases action with
  | call mode => simp [turn, step, ready, top, test] at taken
  | own => simp [turn, step, top] at taken
  | share => simp [turn, step, top] at taken
  | finish outcome =>
    cases frame <;> simp [turn, step, finish, top, Frame.body] at taken test
  | proceed => exact taken

/-- A call by a thread that does not own the object, while another thread does. -/
theorem refused {before : Sharable ι ι} {actions : List (ι × Action)}
    (calls : before.frames thread = .owned mode :: rest)
    (reached : Machine.run turn before actions = some after)
    (foreign : Machine.Along turn (fun state _ => state.Foreign thread) before actions) :
    Refused thread mode rest before actions after := by
  have waits : ∀ {state : Sharable ι ι} {frame : Frame},
      state.frames thread = frame :: rest → frame = .owned mode ∨ frame = .shared mode →
      (state.turn (thread, .proceed)).isSome := by
    intro state frame top test
    rcases test with rfl | rfl <;> simp only [turn, step, proceed, top] <;> split <;> rfl
  rcases first_turn thread reached foreign with ⟨none, still⟩ |
    ⟨idle, action, later, middle, tested, rfl, none, run, still, taken, reached, away, along⟩
  · have top := still.1.trans calls
    exact Or.inl ⟨by omega, Or.inl top, still.2, waits top (Or.inl rfl)⟩
  · have top := still.1.trans calls
    have moved := test_proceeds top rfl taken
    simp only [proceed, top, away.2, if_false, Option.some.injEq] at moved
    have stands : tested.frames thread = .shared mode :: rest := by
      rw [← moved]
      exact Function.update_self _ _ _
    have quiet : tested.outcomes thread = before.outcomes thread := by
      rw [← moved]
      exact still.2
    rcases first_turn thread reached along with ⟨none', still'⟩ |
      ⟨idle', action', later', middle', refused, rfl, none', run', still', taken', _, away', _⟩
    · have top' := still'.1.trans stands
      refine Or.inl ⟨?_, Or.inr top', still'.2.trans quiet, waits top' (Or.inr rfl)⟩
      simp only [List.countP_append, List.countP_cons, decide_true, if_true]
      omega
    · have top' := still'.1.trans stands
      have left := test_proceeds top' rfl taken'
      simp only [proceed, top', away'.1, if_false, Option.some.injEq] at left
      refine Or.inr ⟨idle ++ (thread, action) :: idle' ++ [(thread, action')], later', refused,
        by simp, ?_, ?_, ?_, ?_⟩
      · simp only [List.countP_append, List.countP_cons, List.countP_nil, decide_true, if_true]
        omega
      · rw [List.append_assoc, Machine.run_append, run]
        simp only [Option.bind_some, List.cons_append, Machine.run_cons, taken,
          Machine.run_append, run', taken', Machine.run_nil]
      · rw [← left]
        exact Function.update_self _ _ _
      · rw [← left]
        exact (Function.update_self _ _ _).trans
          (congrArg _ (still'.2.trans quiet))

end

/-- The object with other names for what `v_owner` compares. -/
def named {β : Type} (object : Sharable ι α) (owner : Option β) : Sharable ι β :=
  ⟨owner, object.mutex, object.frames, object.outcomes⟩

/-- The thread that has written `v_owner`, where the object is owned. -/
def writer (object after : Sharable ι α) (owner : Option ι) (thread : ι) : Option ι :=
  if after.owner = object.owner then owner else after.owner.map fun _ => thread

section Named

variable {object after : Sharable ι α} {self : α} {thread : ι} {owner : Option ι}

/-- A step leaves the owner, or the thread becomes the owner, or nobody. -/
def Writes (object after : Sharable ι α) (self : α) (thread : ι) (owner owner' : Option ι) : Prop :=
  after.owner = object.owner ∧ owner' = owner ∨
    after.owner = some self ∧ owner' = some thread ∨ after.owner = none ∧ owner' = none

omit [DecidableEq ι] in
theorem Writes.writer {owner' : Option ι} (mine : object.owner = some self ↔ owner = some thread)
    (free : object.owner = none ↔ owner = none)
    (writes : Writes object after self thread owner owner') :
    writer object after owner thread = owner' := by
  unfold Sharable.writer
  rcases writes with ⟨same, rfl⟩ | ⟨taken, rfl⟩ | ⟨given, rfl⟩
  · rw [if_pos same]
  · rw [taken]
    split
    next same => exact mine.mp same.symm
    next => rfl
  · rw [given]
    split
    next same => exact free.mp same.symm
    next => rfl

omit [DecidableEq α] in
theorem lock_named (owner : Option ι) {mode : Mode} {frames : List Frame}
    (taken : object.lock thread mode frames = some after) :
    (object.named owner).lock thread mode frames = some (after.named owner) ∧
      after.owner = object.owner := by
  simp only [lock, Option.map_eq_some_iff] at taken ⊢
  obtain ⟨mutex, acquired, rfl⟩ := taken
  exact ⟨⟨mutex, acquired, rfl⟩, rfl⟩

omit [DecidableEq α] in
theorem unlock_named (owner : Option ι) {mode : Mode} {rest : List Frame} {outcome : Outcome}
    (given : object.unlock thread mode rest outcome = some after) :
    (object.named owner).unlock thread mode rest outcome = some (after.named owner) ∧
      after.owner = object.owner := by
  simp only [unlock, Option.map_eq_some_iff] at given ⊢
  obtain ⟨mutex, released, rfl⟩ := given
  exact ⟨⟨mutex, released, rfl⟩, rfl⟩

theorem proceed_named (mine : object.owner = some self ↔ owner = some thread)
    (free : object.owner = none ↔ owner = none) (taken : object.proceed self thread = some after) :
    ∃ owner', Writes object after self thread owner owner' ∧
      (object.named owner).proceed thread thread = some (after.named owner') := by
  have keeps : ∀ {after : Sharable ι α}, after.owner = object.owner →
      Writes object after self thread owner owner := fun same => Or.inl ⟨same, rfl⟩
  have mine' : (object.named owner).owner = some thread ↔ object.owner = some self := mine.symm
  have free' : (object.named owner).owner = none ↔ object.owner = none := free.symm
  cases top : object.frames thread with
  | nil => simp [proceed, top] at taken
  | cons frame rest =>
    have top' : (object.named owner).frames thread = frame :: rest := top
    cases frame with
    | owned mode =>
      simp only [proceed, top, top', mine'] at taken ⊢
      split at taken
      next owned =>
        cases taken
        exact ⟨owner, keeps rfl, if_pos owned⟩
      next other =>
        cases taken
        exact ⟨owner, keeps rfl, if_neg other⟩
    | shared mode =>
      simp only [proceed, top, top', free'] at taken ⊢
      split at taken
      next shared =>
        cases taken
        exact ⟨owner, keeps rfl, if_pos shared⟩
      next owned =>
        cases taken
        exact ⟨owner, keeps rfl, if_neg owned⟩
    | locking mode =>
      simp only [proceed, top, top'] at taken ⊢
      exact ⟨owner, keeps (lock_named owner taken).2, (lock_named owner taken).1⟩
    | again mode =>
      simp only [proceed, top, top', free'] at taken ⊢
      split at taken
      next shared =>
        cases taken
        exact ⟨owner, keeps rfl, if_pos shared⟩
      next owned =>
        cases taken
        exact ⟨owner, keeps rfl, if_neg owned⟩
    | free => simp [proceed, top] at taken
    | locked mode => simp [proceed, top] at taken
    | unlocking mode outcome =>
      simp only [proceed, top, top'] at taken ⊢
      exact ⟨owner, keeps (unlock_named owner taken).2, (unlock_named owner taken).1⟩
    | own =>
      simp only [proceed, top, top'] at taken ⊢
      exact ⟨owner, keeps (lock_named owner taken).2, (lock_named owner taken).1⟩
    | owning =>
      simp only [proceed, top, top', free'] at taken ⊢
      split at taken
      next shared =>
        cases taken
        exact ⟨owner, keeps rfl, if_pos shared⟩
      next owned =>
        cases taken
        exact ⟨owner, keeps rfl, if_neg owned⟩
    | taking =>
      simp only [proceed, top, top'] at taken ⊢
      cases taken
      exact ⟨some thread, Or.inr (Or.inl ⟨rfl, rfl⟩), rfl⟩
    | share =>
      simp only [proceed, top, top', mine'] at taken ⊢
      split at taken
      next owned =>
        cases taken
        exact ⟨owner, keeps rfl, if_pos owned⟩
      next other =>
        cases taken
        exact ⟨owner, keeps rfl, if_neg other⟩
    | sharing =>
      simp only [proceed, top, top'] at taken ⊢
      exact ⟨owner, keeps (lock_named owner taken).2, (lock_named owner taken).1⟩
    | giving =>
      simp only [proceed, top, top'] at taken ⊢
      cases taken
      exact ⟨none, Or.inr (Or.inr ⟨rfl, rfl⟩), rfl⟩

/-- Where the names of the owner agree, a step of the object is one of it with the other
name. -/
theorem step_named {action : Action} (mine : object.owner = some self ↔ owner = some thread)
    (free : object.owner = none ↔ owner = none)
    (taken : object.step self (thread, action) = some after) :
    ∃ owner', Writes object after self thread owner owner' ∧
      (object.named owner).turn (thread, action) = some (after.named owner') := by
  cases action with
  | call mode =>
    simp only [step, Option.ite_none_right_eq_some, Option.some.injEq] at taken
    obtain ⟨ready, rfl⟩ := taken
    exact ⟨owner, Or.inl ⟨rfl, rfl⟩, if_pos ready⟩
  | own =>
    simp only [step, Option.ite_none_right_eq_some, Option.some.injEq] at taken
    obtain ⟨idle, rfl⟩ := taken
    exact ⟨owner, Or.inl ⟨rfl, rfl⟩, if_pos idle⟩
  | share =>
    simp only [step, Option.ite_none_right_eq_some, Option.some.injEq] at taken
    obtain ⟨idle, rfl⟩ := taken
    exact ⟨owner, Or.inl ⟨rfl, rfl⟩, if_pos idle⟩
  | finish outcome =>
    simp only [step, turn, finish] at taken ⊢
    have frames : (object.named owner).frames = object.frames := rfl
    rw [frames]
    split at taken
    next =>
      cases taken
      exact ⟨owner, Or.inl ⟨rfl, rfl⟩, rfl⟩
    next =>
      cases taken
      exact ⟨owner, Or.inl ⟨rfl, rfl⟩, rfl⟩
    next => cases taken
  | proceed => exact proceed_named mine free taken

end Named

end Sharable

/-- The object among the threads: those that have been made, and the records that are in
`v_thread__internals`. `owner` is the thread that has written `v_owner`. -/
structure Threads (ι α : Type) where
  object : Sharable ι α
  begun : List ι
  records : List (ι × α)
  owner : Option ι

namespace Threads

open Sharable

inductive Event (ι α : Type)
  /-- A thread goes on with the object. -/
  | turn (thread : ι) (action : Action)
  /-- `f_fork`, where the record of the thread has an address. -/
  | begins (thread : ι) (address : α)
  /-- A thread has ended and the collector has deleted its record. -/
  | ends (thread : ι)
  deriving DecidableEq, Repr

variable {ι α : Type} [DecidableEq ι] [DecidableEq α]

def start (creator : ι) (self : α) : Threads ι α where
  object := .start self
  begun := [creator]
  records := [(creator, self)]
  owner := some creator

/-- `t_increments::v_instance` of a thread -/
def self (threads : Threads ι α) (thread : ι) : Option α :=
  threads.records.lookup thread

def step (threads : Threads ι α) : Event ι α → Option (Threads ι α)
  | .turn thread action => do
    let self ← threads.self thread
    let object ← threads.object.step self (thread, action)
    some { threads with
      object := object, owner := writer threads.object object threads.owner thread }
  | .begins thread address =>
    if thread ∈ threads.begun ∨ address ∈ threads.records.map Prod.snd then none
    else
      some { threads with
        begun := thread :: threads.begun, records := (thread, address) :: threads.records }
  | .ends thread =>
    if threads.object.frames thread = [] then
      some { threads with records := threads.records.filter fun record => record.1 ≠ thread }
    else none

/-- No thread is made with the address that `v_owner` of the object has. -/
def Fresh (threads : Threads ι α) : Event ι α → Prop
  | .begins _ address => threads.object.owner ≠ some address
  | _ => True

instance (threads : Threads ι α) : ∀ event, Decidable (threads.Fresh event)
  | .begins _ address => inferInstanceAs (Decidable (threads.object.owner ≠ some address))
  | .turn _ _ => isTrue trivial
  | .ends _ => isTrue trivial

def Foreign (threads : Threads ι α) (thread : ι) : Prop :=
  threads.owner ≠ none ∧ threads.owner ≠ some thread

def view (threads : Threads ι α) : Sharable ι ι := threads.object.named threads.owner

def Event.action : Event ι α → Option (ι × Action)
  | .turn thread action => some (thread, action)
  | _ => none

/-- Threads are known by the addresses of their records, and `v_owner` is that of the owner
where it is that of any. -/
structure Linked (threads : Threads ι α) : Prop where
  apart : ∀ first ∈ threads.records, ∀ second ∈ threads.records,
    first.1 = second.1 ↔ first.2 = second.2
  begun : ∀ record ∈ threads.records, record.1 ∈ threads.begun
  past : ∀ thread, threads.owner = some thread → thread ∈ threads.begun
  mine : ∀ record ∈ threads.records,
    threads.object.owner = some record.2 ↔ threads.owner = some record.1
  free : threads.object.owner = none ↔ threads.owner = none
  idle : ∀ thread, (∀ record ∈ threads.records, record.1 ≠ thread) →
    threads.object.frames thread = []

omit [DecidableEq α] in
theorem mem_of_self {threads : Threads ι α} {thread : ι} {self : α}
    (known : threads.self thread = some self) : (thread, self) ∈ threads.records := by
  obtain ⟨before, after, records, _⟩ := List.lookup_eq_some_iff.mp known
  rw [records]
  exact List.mem_append_right before List.mem_cons_self

omit [DecidableEq ι] [DecidableEq α] in
theorem Linked.start (creator : ι) (self : α) : (start creator self).Linked where
  apart := by simp [Threads.start]
  begun := by simp [Threads.start]
  past := by simp [Threads.start]
  mine := by simp [Threads.start, Sharable.start]
  free := by simp [Threads.start, Sharable.start]
  idle := fun _ _ => rfl

section Step

variable {threads after : Threads ι α} {thread : ι}

theorem Linked.turn {action : Action} (linked : threads.Linked)
    (taken : threads.step (.turn thread action) = some after) :
    after.Linked ∧ threads.view.turn (thread, action) = some after.view := by
  simp only [Threads.step, Option.bind_eq_bind, Option.bind_eq_some_iff, Option.some.injEq] at taken
  obtain ⟨self, known, object, taken, rfl⟩ := taken
  have member := mem_of_self known
  obtain ⟨owner, writes, seen⟩ := step_named (linked.mine _ member) linked.free taken
  have written := writes.writer (linked.mine _ member) linked.free
  simp only [Threads.view] at seen ⊢
  rw [written]
  refine ⟨⟨linked.apart, linked.begun, ?_, ?_, ?_, ?_⟩, seen⟩
  · intro other owns
    rcases writes with ⟨_, rfl⟩ | ⟨_, rfl⟩ | ⟨_, rfl⟩
    · exact linked.past other owns
    · exact Option.some.inj owns ▸ linked.begun _ member
    · cases owns
  · intro record place
    simp only
    rcases writes with ⟨same, rfl⟩ | ⟨same, rfl⟩ | ⟨same, rfl⟩
    · rw [same]
      exact linked.mine record place
    · rw [same, Option.some.injEq, Option.some.injEq]
      exact (linked.apart _ member record place).symm
    · simp [same]
  · simp only
    rcases writes with ⟨same, rfl⟩ | ⟨same, rfl⟩ | ⟨same, rfl⟩
    · rw [same]
      exact linked.free
    · simp [same]
    · simp [same]
  · intro other none_
    have different : other ≠ thread := fun same => none_ _ member same.symm
    have still := (Untouched.step seen different).1
    exact still.trans (linked.idle other none_)

theorem Linked.begins {address : α} (linked : threads.Linked)
    (fresh : threads.Fresh (.begins thread address))
    (taken : threads.step (.begins thread address) = some after) :
    after.Linked ∧ after.view = threads.view := by
  simp only [Threads.step, Option.ite_none_left_eq_some, Option.some.injEq, not_or] at taken
  obtain ⟨⟨new, unused⟩, rfl⟩ := taken
  have apart : ∀ record ∈ threads.records, thread ≠ record.1 ∧ address ≠ record.2 := by
    intro record member
    refine ⟨fun same => new (same ▸ linked.begun record member), fun same => unused ?_⟩
    exact List.mem_map.mpr ⟨record, member, same.symm⟩
  refine ⟨⟨?_, ?_, ?_, ?_, linked.free, ?_⟩, rfl⟩
  · intro first member second member'
    rcases List.mem_cons.mp member with rfl | earlier <;>
      rcases List.mem_cons.mp member' with rfl | earlier'
    · simp
    · simp [apart second earlier']
    · simp [(apart first earlier).1.symm, (apart first earlier).2.symm]
    · exact linked.apart first earlier second earlier'
  · intro record member
    rcases List.mem_cons.mp member with rfl | earlier
    · exact List.mem_cons_self
    · exact List.mem_cons_of_mem _ (linked.begun record earlier)
  · intro other owns
    exact List.mem_cons_of_mem _ (linked.past other owns)
  · intro record member
    rcases List.mem_cons.mp member with rfl | earlier
    · exact iff_of_false fresh fun owns => new (linked.past thread owns)
    · exact linked.mine record earlier
  · intro other none_
    exact linked.idle other fun record member => none_ record (List.mem_cons_of_mem _ member)

theorem Linked.ends (linked : threads.Linked) (taken : threads.step (.ends thread) = some after) :
    after.Linked ∧ after.view = threads.view := by
  simp only [Threads.step, Option.ite_none_right_eq_some, Option.some.injEq] at taken
  obtain ⟨left, rfl⟩ := taken
  have kept : ∀ {record}, record ∈ threads.records.filter (fun record => record.1 ≠ thread) →
      record ∈ threads.records := fun member => (List.mem_filter.mp member).1
  refine ⟨⟨?_, ?_, linked.past, ?_, linked.free, ?_⟩, rfl⟩
  · exact fun first member second member' => linked.apart first (kept member) second (kept member')
  · exact fun record member => linked.begun record (kept member)
  · exact fun record member => linked.mine record (kept member)
  · intro other none_
    by_cases same : other = thread
    · exact same ▸ left
    · refine linked.idle other fun record member there => ?_
      refine none_ record (List.mem_filter.mpr ⟨member, ?_⟩) there
      simpa [there] using same

theorem Linked.step {event : Event ι α} (linked : threads.Linked) (fresh : threads.Fresh event)
    (taken : threads.step event = some after) :
    after.Linked ∧ Machine.run Sharable.turn threads.view event.action.toList = some after.view := by
  cases event with
  | turn thread action =>
    obtain ⟨linked, seen⟩ := linked.turn taken
    exact ⟨linked, by simp [Event.action, Machine.run_cons, seen]⟩
  | begins thread address =>
    obtain ⟨linked, seen⟩ := linked.begins fresh taken
    exact ⟨linked, by simp [Event.action, seen]⟩
  | ends thread =>
    obtain ⟨linked, seen⟩ := linked.ends taken
    exact ⟨linked, by simp [Event.action, seen]⟩

end Step

/-- A run of the threads is one of the object that knows them for certain. -/
theorem Linked.run {events : List (Event ι α)} :
    ∀ {threads after : Threads ι α}, threads.Linked →
      Machine.Along Threads.step Threads.Fresh threads events →
      Machine.run Threads.step threads events = some after → after.Linked ∧
        Machine.run Sharable.turn threads.view (events.filterMap Event.action) =
          some after.view := by
  induction events with
  | nil =>
    intro threads after linked _ reached
    cases reached
    exact ⟨linked, rfl⟩
  | cons event events ih =>
    intro threads after linked along reached
    rw [Machine.run_cons, Option.bind_eq_some_iff] at reached
    obtain ⟨next, taken, reached⟩ := reached
    obtain ⟨linked, seen⟩ := linked.step along.1 taken
    obtain ⟨linked, later⟩ := ih linked (along.2 next taken) reached
    refine ⟨linked, ?_⟩
    have split : (event :: events).filterMap Event.action =
        event.action.toList ++ events.filterMap Event.action := by
      cases taken : event.action <;> simp [taken]
    rw [split, Machine.run_append, seen]
    exact later

def turns (thread : ι) (events : List (Event ι α)) : Nat :=
  (events.filterMap Event.action).countP (·.1 = thread)

/-- How far a call is that was about to test the owner in `before`: it stands at
one of its two tests, neither of which waits, or it has been left by the throw
and no body of it has run. -/
def Refused (thread : ι) (mode : Mode) (rest : List Frame) (before : Threads ι α)
    (events : List (Event ι α)) (after : Threads ι α) : Prop :=
  (turns thread events < 2 ∧
    (after.object.frames thread = .owned mode :: rest ∨
      after.object.frames thread = .shared mode :: rest) ∧
    after.object.outcomes thread = before.object.outcomes thread ∧
    (after.step (.turn thread .proceed)).isSome) ∨
  ∃ first second refused, events = first ++ second ∧ turns thread first = 2 ∧
    Machine.run step before first = some refused ∧
    refused.object.frames thread = rest ∧
    refused.object.outcomes thread =
      .threw "owned by another thread." :: before.object.outcomes thread

section Refused

variable {before after : Threads ι α} {thread : ι} {mode : Mode} {rest : List Frame}
  {events : List (Event ι α)}

theorem Linked.waits (linked : after.Linked) {frame : Frame}
    (top : after.object.frames thread = frame :: rest)
    (test : frame = .owned mode ∨ frame = .shared mode) :
    (after.step (.turn thread .proceed)).isSome := by
  obtain ⟨self, known⟩ : ∃ self, after.self thread = some self := by
    by_contra unknown
    have missing : after.records.lookup thread = none :=
      Option.eq_none_iff_forall_not_mem.mpr fun self there => unknown ⟨self, there⟩
    have idle := linked.idle thread fun record member same => by
      have other := List.lookup_eq_none_iff.mp missing record member
      simp [same] at other
    rw [top] at idle
    cases idle
  have moves : (after.object.step self (thread, .proceed)).isSome := by
    rcases test with rfl | rfl <;> simp only [Sharable.step, proceed, top] <;> split <;> rfl
  obtain ⟨object, taken⟩ := Option.isSome_iff_exists.mp moves
  simp [Threads.step, known, taken]

/-- While another thread owns the object, it does so where threads are known for certain. -/
theorem Linked.foreign {events : List (Event ι α)} :
    ∀ {before : Threads ι α}, before.Linked →
      Machine.run Threads.step before events = some after →
      Machine.Along Threads.step Fresh before events →
      Machine.Along Threads.step (fun state _ => state.Foreign thread) before events →
      Machine.Along Sharable.turn (fun state _ => Sharable.Foreign state thread) before.view
        (events.filterMap Event.action) := by
  induction events with
  | nil => intro before _ _ _ _; trivial
  | cons event events ih =>
    intro before linked reached fresh foreign
    rw [Machine.run_cons, Option.bind_eq_some_iff] at reached
    obtain ⟨next, taken, reached⟩ := reached
    obtain ⟨linked', seen⟩ := linked.step fresh.1 taken
    have later := ih linked' reached (fresh.2 next taken) (foreign.2 next taken)
    cases action : event.action with
    | none =>
      rw [action] at seen
      have same : before.view = next.view := Option.some.inj seen
      rw [List.filterMap_cons_none action, same]
      exact later
    | some turn =>
      rw [List.filterMap_cons_some action]
      refine ⟨foreign.1, ?_⟩
      intro middle moved
      rw [action, Option.toList_some, Machine.run_cons, moved] at seen
      have same : middle = next.view := Option.some.inj seen
      rw [same]
      exact later

/-- A call by a thread that does not own the object, while another thread does. -/
theorem Linked.refused (linked : before.Linked)
    (calls : before.object.frames thread = .owned mode :: rest)
    (reached : Machine.run Threads.step before events = some after)
    (fresh : Machine.Along Threads.step Fresh before events)
    (foreign : Machine.Along Threads.step (fun state _ => state.Foreign thread) before events) :
    Refused thread mode rest before events after := by
  obtain ⟨linked', seen⟩ := linked.run fresh reached
  rcases Sharable.refused calls seen (linked.foreign reached fresh foreign) with
    ⟨few, stands, quiet, _⟩ | ⟨first, second, refused, split, two, run, left, threw⟩
  · refine Or.inl ⟨few, stands, quiet, ?_⟩
    rcases stands with top | top
    · exact linked'.waits top (Or.inl rfl)
    · exact linked'.waits top (Or.inr rfl)
  · obtain ⟨front, back, rfl, rfl, rfl⟩ := List.filterMap_eq_append_iff.mp split
    rw [Machine.run_append, Option.bind_eq_some_iff] at reached
    obtain ⟨middle, early, _⟩ := reached
    have seen := (linked.run fresh.left early).2
    cases seen.symm.trans run
    exact Or.inr ⟨front, back, middle, rfl, two, early, left, threw⟩

end Refused

/-- In every state that any interleaving leads to in which no thread is made with the address
that `v_owner` has: a body under the exclusive lock runs alone, so does a body of the owner,
the bodies that run without the lock are the owner's, no thread runs a body while another
owns the object, and a call is turned away where another thread owns the object. -/
theorem ownership (creator : ι) (self : α) {events : List (Event ι α)} {state : Threads ι α}
    (reached : Machine.run step (start creator self) events = some state)
    (fresh : Machine.Along step Fresh (start creator self) events) :
    (∀ thread other, thread ≠ other → .locked .exclusive ∈ state.object.frames thread →
      ¬ state.object.Runs other) ∧
    (∀ thread other, thread ≠ other → state.owner = some thread → state.object.Runs thread →
      ¬ state.object.Runs other) ∧
    (∀ thread, .free ∈ state.object.frames thread → state.owner = some thread) ∧
    (∀ thread, state.object.Runs thread → ¬ state.Foreign thread) ∧
    ∀ thread mode rest later after, state.object.frames thread = .owned mode :: rest →
      Machine.run step state later = some after → Machine.Along step Fresh state later →
      Machine.Along step (fun state _ => state.Foreign thread) state later →
      Refused thread mode rest state later after := by
  obtain ⟨linked, seen⟩ := (Linked.start creator self).run fresh reached
  have sound : state.view.Sound :=
    Machine.run_invariant Sharable.Sound (.start creator) (fun _ _ _ sound => sound.step) seen
  refine ⟨?_, ?_, ?_, ?_, ?_⟩
  · exact fun _ _ different excludes => sound.exclusive_alone excludes different
  · exact fun _ _ different owns _ => sound.owner_alone owns different
  · exact fun thread member => sound.knows thread .free member
  · exact fun _ runs => sound.not_foreign runs
  · exact fun _ _ _ _ _ calls reached fresh foreign => linked.refused calls reached fresh foreign

/-- Thread 0 shares its object and ends, and thread 2 that is made with the address of its
record runs a body under the shared lock when thread 1 asks for the exclusive one. -/
def handedOver : List (Event Nat Nat) :=
  [.begins 1 101, .turn 0 .share, .turn 0 .proceed, .turn 0 .proceed, .turn 0 .proceed,
    .turn 0 .proceed, .ends 0, .begins 2 100, .turn 2 (.call .shared), .turn 2 .proceed,
    .turn 2 .proceed, .turn 2 .proceed, .turn 2 .proceed, .turn 2 (.finish .returned),
    .turn 1 (.call .exclusive), .turn 1 .proceed, .turn 1 .proceed, .turn 2 .proceed,
    .turn 1 .proceed, .turn 1 .proceed]

theorem handed_over : ∃ state, Machine.run step (start 0 100) handedOver = some state ∧
    .locked .exclusive ∈ state.object.frames 1 ∧ ¬ state.object.Runs 2 := by
  have ran : (Machine.run step (start 0 100) handedOver).map
      (fun state => decide (.locked .exclusive ∈ state.object.frames 1)) = some true := by decide
  obtain ⟨state, reached, excludes⟩ := Option.map_eq_some_iff.mp ran
  have alone := of_decide_eq_true excludes
  exact ⟨state, reached, alone,
    (ownership 0 100 reached (by decide)).1 1 2 (by decide) alone⟩

/-- Thread 1 is made with the address of the record of thread 0, which owns the object and has
ended, and runs a body of a call without the lock. -/
theorem inherited : ∃ state,
    Machine.run step (start 0 100)
      [.ends 0, .begins 1 100, .turn 1 (.call .exclusive), .turn 1 .proceed] = some state ∧
    state.owner = some 0 ∧ state.Foreign 1 ∧ .free ∈ state.object.frames 1 := by
  have ran : (Machine.run step (start 0 100)
      [.ends 0, .begins 1 100, .turn 1 (.call .exclusive), .turn 1 .proceed]).map
        (fun state => (state.owner, decide (.free ∈ state.object.frames 1))) =
          some (some 0, true) := by decide
  obtain ⟨state, reached, found⟩ := Option.map_eq_some_iff.mp ran
  obtain ⟨owner, runs⟩ := Prod.mk.inj found
  refine ⟨state, reached, owner, ?_, of_decide_eq_true runs⟩
  simp [Foreign, owner]

end Threads

end Xemmai
