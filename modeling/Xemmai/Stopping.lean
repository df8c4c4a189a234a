import Xemmai.Debugger

/-!
# Stops of the debugger

A stopper waits until `v_debug__safe` has reached the number of the threads whose
`v_done` is 0. A thread that waits at the safe point of its start is counted by the
former and not by the latter, and a thread behind its last safe point by the latter
and not by the former.
-/

namespace Xemmai.Debugger

set_option autoImplicit false

namespace Engine

/-- A thread waits at the safe point in front of `f_initialize`. -/
def starting (engine : Engine) : Bool :=
  engine.threads.any fun thread => thread.place = .paused .start

/-- A thread whose `v_done` is 0 is behind its last safe point. -/
def ending (engine : Engine) : Bool :=
  engine.threads.any fun thread => thread.place = .ended

/-- A stopper waits in `f_debug_stop_and_wait`. -/
def waiting (engine : Engine) : Bool :=
  engine.request.isSome || engine.threads.any fun thread => thread.place.isStopping

end Engine

def Action.continues : Action → Bool
  | .continue_ _ => true
  | _ => false

/-- The stopper does not count a thread that is about to start, and is not
interrupted. -/
def undisturbed (engine : Engine) (action : Action) : Prop :=
  (engine.compares action = true → engine.starting = false) ∧
    (action.continues = true → engine.waiting = false)

/-- The stopper does not wait for a thread that is about to finish, and is not
interrupted. -/
def punctual (engine : Engine) (action : Action) : Prop :=
  (engine.begins action = true → engine.ending = false) ∧
    (action.continues = true → engine.waiting = false)

instance (engine : Engine) (action : Action) : Decidable (undisturbed engine action) :=
  inferInstanceAs (Decidable (_ ∧ _))

instance (engine : Engine) (action : Action) : Decidable (punctual engine action) :=
  inferInstanceAs (Decidable (_ ∧ _))

theorem waiting_of_pending {engine : Engine} {stopper : Stopper} {n : Nat}
    (pending : engine.Pending stopper n) : engine.waiting = true := by
  cases stopper with
  | thread number =>
    have member := List.mem_of_getElem? pending
    simp only [Engine.waiting, Bool.or_eq_true, List.any_eq_true]
    exact .inr ⟨_, member, rfl⟩
  | debugger =>
    have found : engine.request = some n := pending
    simp [Engine.waiting, found]

/-- A thread whose `v_done` is 0 waits, or is inside a safe region. -/
def Thread.Rests (thread : Thread) : Prop := thread.done = 0 ∧ thread.place.atRest = true

/-- A thread whose `v_done` is 0 is not yet behind its last safe point. -/
def Thread.Remains (thread : Thread) : Prop := thread.done = 0 ∧ thread.place ≠ .ended

theorem Move.rests {thread after : Thread} (move : Move true thread after)
    (rests : thread.Rests) : after.Rests := by
  obtain ⟨current, still⟩ := rests
  cases move <;> first | exact ⟨rfl, rfl⟩ | cases still

theorem Move.remains {thread after : Thread} (move : Move true thread after)
    (remains : thread.Remains) : after.Remains := by
  obtain ⟨current, before⟩ := remains
  cases move with
  | finalize => exact absurd rfl before
  | collect _ done over_ => simp at current; omega
  | startPause => cases current
  | _ => exact ⟨rfl, nofun⟩

theorem getElem?_put {threads : List Thread} {number other : Nat} {thread after : Thread}
    (found : threads[other]? = some thread) (apart : number ≠ other) :
    (threads.set number after)[other]? = some thread := by
  rw [List.getElem?_set_ne apart, found]

theorem getElem?_put_self {threads : List Thread} {number : Nat} {thread after : Thread}
    (found : threads[number]? = some thread) :
    (threads.set number after)[number]? = some after := by
  obtain ⟨short, -⟩ := List.getElem?_eq_some_iff.mp found
  simp [short]

/-- While a stop is in force, a thread keeps what its moves and the end of
`f_debug_stop_and_wait` keep. -/
theorem thread_step {keeps : Thread → Prop}
    (moves : ∀ {thread after}, Move true thread after → keeps thread → keeps after)
    (returns : ∀ {n}, keeps ⟨0, .stopping n⟩ → keeps ⟨0, .paused .point⟩)
    {engine after : Engine} {action : Action} {number : Nat}
    (counted : Counted engine) (stops : engine.stopping = true)
    (kept : ∃ thread, engine.threads[number]? = some thread ∧ keeps thread)
    (held : action.continues = false) (taken : step engine action = some after) :
    after.stopping = true ∧ ∃ thread, after.threads[number]? = some thread ∧ keeps thread := by
  obtain ⟨thread, found, kept⟩ := kept
  cases step_effect counted taken with
  | @moved other thread' after' safe stepping found' move =>
    refine ⟨stops, ?_⟩
    rcases eq_or_ne other number with rfl | apart
    · obtain rfl : thread' = thread := Option.some.inj (found'.symm.trans found)
      exact ⟨after', getElem?_put_self found, moves (stops ▸ move) kept⟩
    · exact ⟨thread, getElem?_put found apart, kept⟩
  | forked =>
    refine ⟨stops, thread, ?_, kept⟩
    obtain ⟨short, -⟩ := List.getElem?_eq_some_iff.mp found
    show (engine.threads ++ _)[number]? = some thread
    rw [List.getElem?_append_left short, found]
  | entered _ free => rw [free] at stops; cases stops
  | asked _ free => rw [free] at stops; cases stops
  | @passed stopper n _ pending =>
    cases stopper with
    | thread other =>
      rw [returns_thread pending]
      refine ⟨stops, ?_⟩
      rcases eq_or_ne other number with rfl | apart
      · obtain rfl := Option.some.inj (found.symm.trans pending)
        exact ⟨_, getElem?_put_self found, returns kept⟩
      · exact ⟨thread, getElem?_put found apart, kept⟩
    | debugger => exact ⟨stops, thread, found, kept⟩
  | continued _ same => subst same; cases held
  | detached => exact ⟨stops, thread, found, kept⟩
  | unchanged => exact ⟨stops, thread, found, kept⟩

/-- Nothing but `f_debug_continue` lets a thread go on while a stop is in force. -/
theorem rests_step {engine after : Engine} {action : Action} {number : Nat}
    (counted : Counted engine) (stops : engine.stopping = true)
    (rests : ∃ thread, engine.threads[number]? = some thread ∧ thread.Rests)
    (held : action.continues = false) (taken : step engine action = some after) :
    after.stopping = true ∧ ∃ thread, after.threads[number]? = some thread ∧ thread.Rests :=
  thread_step Move.rests (fun rests => by cases rests.2) counted stops rests held taken

theorem remains_step {engine after : Engine} {action : Action} {number : Nat}
    (counted : Counted engine) (stops : engine.stopping = true)
    (remains : ∃ thread, engine.threads[number]? = some thread ∧ thread.Remains)
    (held : action.continues = false) (taken : step engine action = some after) :
    after.stopping = true ∧ ∃ thread, after.threads[number]? = some thread ∧ thread.Remains :=
  thread_step Move.remains (fun _ => ⟨rfl, nofun⟩) counted stops remains held taken

/-- Every thread whose `v_done` is 0 waits, or is inside a safe region. -/
def Held (engine : Engine) : Prop :=
  engine.stopping = true ∧ ∀ thread ∈ engine.threads, thread.done = 0 →
    thread.place.atRest = true

/-- At most one stopper waits, and it waits for all the threads that run. -/
structure Sound (engine : Engine) : Prop extends Counted engine where
  unique : ∀ {first second : Stopper} {n m : Nat}, engine.Pending first n →
    engine.Pending second m → first = second
  stops : ∀ {stopper : Stopper} {n : Nat}, engine.Pending stopper n → engine.stopping = true
  bound : ∀ {stopper : Stopper} {n : Nat}, engine.Pending stopper n → engine.running ≤ n
  held : engine.stopped ≠ none → Held engine

theorem Sound.idle {engine : Engine} (sound : Sound engine) (free : engine.stopping = false)
    (stopper : Stopper) (n : Nat) : ¬engine.Pending stopper n := by
  intro pending
  rw [sound.stops pending] at free
  cases free

/-- Where the counted threads all count and are no fewer than these, these are all
counted. -/
theorem countP_full {α : Type} {p q : α → Bool} {xs : List α}
    (sub : ∀ x ∈ xs, p x = true → q x = true) (few : xs.countP q ≤ xs.countP p) :
    ∀ x ∈ xs, q x = true → p x = true := by
  induction xs with
  | nil => intro x member; cases member
  | cons first rest ih =>
    have tail := List.countP_mono_left fun x member => sub x (List.mem_cons_of_mem first member)
    have head := sub first List.mem_cons_self
    simp only [List.countP_cons] at few
    have one : (if p first = true then 1 else 0) ≤ if q first = true then 1 else 0 := by
      split
      case isTrue counts => simp [head counts]
      case isFalse => omega
    have few' : rest.countP q ≤ rest.countP p := by omega
    have same : q first = true → p first = true := by
      intro counts
      by_contra other
      rw [if_pos counts, if_neg other] at few
      omega
    intro x member counts
    rcases List.mem_cons.mp member with rfl | member
    · exact same counts
    · exact ih (fun x member => sub x (List.mem_cons_of_mem first member)) few' x member counts

/-- What makes a stop sound: with no thread in front of its `f_initialize` counted,
the bound is only reached by all the threads that it is about. -/
theorem Counted.all {engine : Engine} (counted : Counted engine)
    (unstarted : engine.starting = false) {n : Nat} (bound : engine.running ≤ n)
    (enough : n ≤ engine.safe) :
    ∀ thread ∈ engine.threads, thread.done = 0 → thread.place.counted = true := by
  have sub : ∀ thread ∈ engine.threads, thread.place.counted = true →
      decide (thread.done = 0) = true := by
    intro thread member counts
    have proper := counted.proper thread member
    have other : thread.place ≠ .paused .start := by
      have none := List.any_eq_false.mp unstarted thread member
      simpa using none
    rcases thread with ⟨done, place⟩
    cases place with
    | paused pause => cases pause <;> simp_all [Thread.proper]
    | _ => simp_all [Thread.proper, Place.counted]
  have few : engine.running ≤ engine.threads.countP fun thread => thread.place.counted :=
    counted.safe ▸ Nat.le_trans bound enough
  intro thread member current
  exact countP_full sub few thread member (by simpa using current)

theorem Place.atRest_of_counted {place : Place} (counts : place.counted = true)
    (other : ∀ n, place ≠ .stopping n) : place.atRest = true := by
  cases place with
  | stopping n => exact absurd rfl (other n)
  | forked | script | ended | finished => cases counts
  | _ => rfl

/-- A thread that is put in a place where it does not wait as a stopper. -/
theorem pending_of_put (engine : Engine) {base : Engine} {number : Nat} (after : Thread)
    {stopper : Stopper} {n : Nat} (pending : base.Pending stopper n)
    (threads : base.threads = engine.threads.set number after)
    (request : base.request = engine.request) (plain : after.place.isStopping = false) :
    engine.Pending stopper n ∧ stopper ≠ .thread number := by
  cases stopper with
  | thread other =>
    have found : base.threads[other]? = some ⟨0, .stopping n⟩ := pending
    rw [threads, List.getElem?_set] at found
    split at found
    case isTrue same =>
      split at found
      case isTrue => cases found; cases plain
      case isFalse => cases found
    case isFalse apart =>
      exact ⟨found, fun same => apart (Stopper.thread.inj same).symm⟩
  | debugger =>
    have found : base.request = some n := pending
    exact ⟨request.symm.trans found, nofun⟩

theorem pending_of_returns {engine : Engine} {other : Stopper} {n m : Nat} {stopper : Stopper}
    (pending : engine.Pending stopper n) (after : (engine.returns stopper).Pending other m) :
    engine.Pending other m ∧ other ≠ stopper := by
  cases stopper with
  | thread number =>
    rw [returns_thread pending] at after
    exact pending_of_put engine ⟨0, .paused .point⟩ after rfl rfl rfl
  | debugger =>
    cases other with
    | thread number => exact ⟨after, nofun⟩
    | debugger => cases after

theorem pending_of_forked {engine : Engine} {thread : Thread} {stopper : Stopper} {n : Nat}
    (other : thread.done ≠ 0)
    (pending : ({ engine with threads := engine.threads ++ [thread] } : Engine).Pending stopper n) :
    engine.Pending stopper n := by
  cases stopper with
  | thread number =>
    have found : (engine.threads ++ [thread])[number]? = some ⟨0, .stopping n⟩ := pending
    rw [List.getElem?_append] at found
    split at found
    case isTrue => exact found
    case isFalse =>
      have same := List.mem_singleton.mp (List.mem_of_getElem? found)
      exact absurd (same ▸ rfl) other
  | debugger => exact pending

theorem pending_of_begun {engine : Engine} {stopper other : Stopper} {m : Nat}
    (found : ∀ number, stopper = .thread number →
      ∃ place, engine.threads[number]? = some ⟨0, place⟩)
    (pending : (engine.begun stopper).Pending other m) :
    other = stopper ∧ m = engine.running ∨ engine.Pending other m := by
  cases stopper with
  | thread number =>
    obtain ⟨place, found⟩ := found number rfl
    rw [begun_thread found] at pending
    cases other with
    | thread other =>
      have after : (engine.threads.set number ⟨0, .stopping engine.running⟩)[other]? =
        some ⟨0, .stopping m⟩ := pending
      rw [List.getElem?_set] at after
      split at after
      case isTrue same =>
        split at after
        case isTrue => cases after; exact .inl ⟨same ▸ rfl, rfl⟩
        case isFalse => cases after
      case isFalse => exact .inr after
    | debugger => exact .inr pending
  | debugger =>
    cases other with
    | thread number => exact .inr pending
    | debugger =>
      have same : some engine.running = some m := pending
      exact .inl ⟨rfl, (Option.some.inj same).symm⟩

/-- `f_debug_stop_and_wait` returns. -/
theorem Sound.returns {engine : Engine} (sound : Sound engine)
    (unstarted : engine.starting = false) {stopper : Stopper} {n : Nat}
    (pending : engine.Pending stopper n) (enough : n ≤ engine.safe) :
    Sound (engine.returns stopper) := by
  have all := sound.all unstarted (sound.bound pending) enough
  have others : ∀ number thread, engine.threads[number]? = some thread → thread.done = 0 →
      stopper ≠ .thread number → thread.place.atRest = true := by
    intro number thread found current apart
    refine Place.atRest_of_counted (all thread (List.mem_of_getElem? found) current) ?_
    intro m same
    have second : engine.Pending (.thread number) m := by
      rcases thread with ⟨done, place⟩
      obtain rfl : done = 0 := current
      obtain rfl : place = .stopping m := same
      exact found
    exact apart (sound.unique pending second)
  have counted := sound.toCounted.returns pending
  have idle : ∀ other m, ¬(engine.returns stopper).Pending other m := by
    intro other m second
    obtain ⟨before, apart⟩ := pending_of_returns pending second
    exact apart (sound.unique before pending)
  cases stopper with
  | thread number =>
    refine ⟨counted, fun first => absurd first (idle _ _), fun first => absurd first (idle _ _),
      fun first => absurd first (idle _ _), fun _ => ⟨?_, ?_⟩⟩
    · rw [returns_thread pending]
      exact sound.stops pending
    · rw [returns_thread pending]
      intro thread member current
      obtain ⟨other, found⟩ := List.getElem?_of_mem member
      rw [List.getElem?_set] at found
      split at found
      case isTrue =>
        split at found
        case isTrue => cases found; rfl
        case isFalse => cases found
      case isFalse apart => exact others other thread found current (by simpa using apart)
  | debugger =>
    refine ⟨counted, fun first => absurd first (idle _ _), fun first => absurd first (idle _ _),
      fun first => absurd first (idle _ _), fun _ => ⟨sound.stops pending, ?_⟩⟩
    intro thread member current
    obtain ⟨other, found⟩ := List.getElem?_of_mem member
    exact others other thread found current nofun

theorem Sound.unstopped {engine : Engine} (sound : Sound engine)
    (free : engine.stopping = false) : engine.stopped = none := by
  by_contra called
  rw [(sound.held called).1] at free
  cases free

/-- A thread enters `f_debug_stop_and_wait`. -/
theorem Sound.begun {engine : Engine} (sound : Sound engine) (free : engine.stopping = false)
    {number safe : Nat} {place : Place} (found : engine.threads[number]? = some ⟨0, place⟩)
    (counts : safe + place.counted.toNat = engine.safe + 1) :
    Sound (({ engine with safe := safe } : Engine).begun (.thread number)) := by
  have counted := sound.toCounted.begun found counts
  have begun : ({ engine with safe := safe } : Engine).begun (.thread number) = { engine with
      threads := engine.threads.set number ⟨0, .stopping engine.running⟩
      safe := safe, stopping := true } := begun_thread found
  have only : ∀ other m, (({ engine with safe := safe } : Engine).begun
      (.thread number)).Pending other m → other = .thread number ∧ m = engine.running := by
    intro other m pending
    rcases pending_of_begun (by rintro _ ⟨⟩; exact ⟨place, found⟩) pending with same | before
    · exact same
    · have before : engine.Pending other m := by cases other <;> exact before
      exact absurd before (sound.idle free other m)
  refine ⟨counted, ?_, ?_, ?_, ?_⟩
  · intro first second n m one two
    rw [(only first n one).1, (only second m two).1]
  · intro stopper n _
    rw [begun]
  · intro stopper n pending
    have total := countP_set_add (fun thread => thread.done = 0) found
      ⟨0, .stopping engine.running⟩
    rw [(only stopper n pending).2, begun]
    show (engine.threads.set number _).countP _ ≤ engine.threads.countP _
    simp only [Nat.add_right_cancel_iff] at total
    exact Nat.le_of_eq total
  · intro called
    rw [begun] at called
    exact absurd (sound.unstopped free) called

/-- The debugger enters `f_debug_stop_and_wait`. -/
theorem Sound.asked {engine : Engine} (sound : Sound engine) (free : engine.stopping = false) :
    Sound (engine.begun .debugger) := by
  have only : ∀ other m, (engine.begun .debugger).Pending other m →
      other = .debugger ∧ m = engine.running := by
    intro other m pending
    rcases pending_of_begun (by rintro _ ⟨⟩) pending with same | before
    · exact same
    · exact absurd before (sound.idle free other m)
  refine ⟨⟨sound.proper, sound.safe⟩, ?_, fun _ => rfl, ?_, ?_⟩
  · intro first second n m one two
    rw [(only first n one).1, (only second m two).1]
  · intro stopper n pending
    rw [(only stopper n pending).2]
    exact Nat.le_refl _
  · intro called
    exact absurd (sound.unstopped free) called

theorem Move.current {thread after : Thread} (move : Move true thread after)
    (current : after.done = 0) : thread.done = 0 := by
  cases move with
  | collect _ done over_ => simp at current; omega
  | startPause | finalize => cases current
  | _ => rfl

theorem Move.plain {stopping : Bool} {thread after : Thread}
    (move : Move stopping thread after) : after.place.isStopping = false := by
  cases move <;> rfl

theorem Sound.moved {engine : Engine} (sound : Sound engine) {number safe : Nat}
    {thread after : Thread} {stepping : Option Nat}
    (found : engine.threads[number]? = some thread) (move : Move engine.stopping thread after)
    (counts : safe + thread.place.counted.toNat = engine.safe + after.place.counted.toNat) :
    Sound { engine with
      threads := engine.threads.set number after, safe := safe, stepping := stepping } := by
  have before : ∀ stopper n, ({ engine with
      threads := engine.threads.set number after
      safe := safe
      stepping := stepping } : Engine).Pending stopper n →
      engine.Pending stopper n := fun stopper n pending =>
    (pending_of_put engine after pending rfl rfl move.plain).1
  refine ⟨sound.toCounted.put found move.proper counts, ?_, ?_, ?_, ?_⟩
  · intro first second n m one two
    exact sound.unique (before _ _ one) (before _ _ two)
  · intro stopper n pending
    exact sound.stops (before _ _ pending)
  · intro stopper n pending
    have bound := sound.bound (before _ _ pending)
    have stops := sound.stops (before _ _ pending)
    have total := countP_set_add (fun thread => thread.done = 0) found after
    have less : (decide (after.done = 0)).toNat ≤ (decide (thread.done = 0)).toNat := by
      by_cases current : after.done = 0
      · have earlier := (stops ▸ move).current current
        simp [current, earlier]
      · simp [current]
    show (engine.threads.set number after).countP _ ≤ n
    unfold Engine.running at bound
    omega
  · intro called
    obtain ⟨stops, rest⟩ := sound.held called
    refine ⟨stops, mem_set rest ?_⟩
    intro current
    have earlier := (stops ▸ move).current current
    exact ((stops ▸ move).rests ⟨earlier, rest thread (List.mem_of_getElem? found) earlier⟩).2

theorem Sound.forked {engine : Engine} (sound : Sound engine) {thread : Thread}
    (made : thread = ⟨-1, .forked⟩ ∨ thread = ⟨1, .finished⟩) (counted : Counted
      { engine with threads := engine.threads ++ [thread] }) :
    Sound { engine with threads := engine.threads ++ [thread] } := by
  have other : thread.done ≠ 0 := by rcases made with rfl | rfl <;> decide
  have before : ∀ stopper n, ({ engine with threads := engine.threads ++ [thread] } :
      Engine).Pending stopper n → engine.Pending stopper n := fun _ _ => pending_of_forked other
  refine ⟨counted, ?_, ?_, ?_, ?_⟩
  · intro first second n m one two
    exact sound.unique (before _ _ one) (before _ _ two)
  · intro stopper n pending
    exact sound.stops (before _ _ pending)
  · intro stopper n pending
    have bound := sound.bound (before _ _ pending)
    have same : (engine.threads ++ [thread]).countP (fun thread => thread.done = 0) =
        engine.running := by
      rw [List.countP_append, List.countP_singleton, if_neg (by simpa using other)]
      rfl
    show (engine.threads ++ [thread]).countP (fun thread => thread.done = 0) ≤ n
    rw [same]
    exact bound
  · intro called
    obtain ⟨stops, rest⟩ := sound.held called
    refine ⟨stops, ?_⟩
    intro thread' member current
    rcases List.mem_append.mp member with old | new
    · exact rest thread' old current
    · exact absurd (List.mem_singleton.mp new ▸ current) other

theorem starting_begun {engine : Engine} {number safe : Nat} {place : Place}
    (found : engine.threads[number]? = some ⟨0, place⟩) (unstarted : engine.starting = false) :
    (({ engine with safe := safe } : Engine).begun (.thread number)).starting = false := by
  have begun : ({ engine with safe := safe } : Engine).begun (.thread number) = { engine with
      threads := engine.threads.set number ⟨0, .stopping engine.running⟩
      safe := safe, stopping := true } := begun_thread found
  rw [begun]
  exact List.any_eq_false.mpr (mem_set (List.any_eq_false.mp unstarted) (by simp))

theorem Sound.continued {engine : Engine} (sound : Sound engine)
    (free : engine.waiting = false) (stepping : Option Nat) : Sound { engine with
      stopping := false, stepping := stepping, stopped := none } := by
  have idle : ∀ stopper n, ¬({ engine with
      stopping := false, stepping := stepping, stopped := none } : Engine).Pending stopper n := by
    intro stopper n pending
    have before : engine.Pending stopper n := by cases stopper <;> exact pending
    rw [waiting_of_pending before] at free
    cases free
  exact ⟨⟨sound.proper, sound.safe⟩, fun first => absurd first (idle _ _),
    fun first => absurd first (idle _ _), fun first => absurd first (idle _ _),
    fun called => absurd rfl called⟩

theorem Sound.step {engine after : Engine} {action : Action} (sound : Sound engine)
    (meets : undisturbed engine action) (taken : step engine action = some after) :
    Sound after := by
  have counted := sound.toCounted.step taken
  cases step_effect sound.toCounted taken with
  | moved stepping found move counts => exact sound.moved found move counts
  | forked made => exact sound.forked made counted
  | @entered number place safe begins free found _ counts =>
    have begun := sound.begun free found counts
    have compares : engine.compares action = true := compares_of_begins begins
    rcases stopAndWait_cases { engine with safe := safe } (.thread number) with same | same
    · exact same ▸ begun
    · rw [same.2]
      exact begun.returns (starting_begun found (meets.1 compares)) (begun_pending found)
        ((begun_safe _ _).symm ▸ same.1)
  | asked begins free =>
    have begun := sound.asked free
    have compares : engine.compares action = true := compares_of_begins begins
    rcases stopAndWait_cases engine .debugger with same | same
    · exact same ▸ begun
    · rw [same.2]
      have pending : (engine.begun .debugger).Pending .debugger engine.running := rfl
      exact begun.returns (meets.1 compares) pending same.1
  | passed compares pending enough => exact sound.returns (meets.1 compares) pending enough
  | continued stepping same =>
    subst same
    exact sound.continued (meets.2 rfl) stepping
  | detached => exact ⟨counted, sound.unique, sound.stops, sound.bound, sound.held⟩
  | unchanged => exact sound

theorem sound_initial : Sound initial := by
  have idle : ∀ stopper n, ¬initial.Pending stopper n := by
    intro stopper n pending
    cases stopper with
    | thread number =>
      have found : [(⟨0, .paused .point⟩ : Thread)][number]? = some ⟨0, .stopping n⟩ := pending
      cases List.mem_singleton.mp (List.mem_of_getElem? found)
    | debugger => cases pending
  refine ⟨⟨by decide, rfl⟩, fun first => absurd first (idle _ _),
    fun first => absurd first (idle _ _), fun first => absurd first (idle _ _), fun _ => ⟨rfl, ?_⟩⟩
  intro thread member _
  rw [List.mem_singleton.mp member]
  rfl

/-- When `f_debug_stop_and_wait` has returned, each thread whose `v_done` is 0 waits at
a safe point or is inside a safe region, and stays there up to `f_debug_continue`, in a
run in which the stopper does not count a thread that is about to start and is not
interrupted. -/
theorem stop_holds {actions more : List Action} {state after : Engine} {stopper : Stopper}
    (along : Machine.Along step undisturbed initial actions)
    (reached : Machine.run step initial actions = some state)
    (returned : state.stopped = some stopper)
    (held : ∀ action ∈ more, action.continues = false)
    (later : Machine.run step state more = some after)
    {number : Nat} {thread : Thread} (found : state.threads[number]? = some thread)
    (current : thread.done = 0) :
    ∃ now, after.threads[number]? = some now ∧ now.Rests := by
  have sound : Sound state := Machine.run_along Sound
    (fun _ _ _ sound meets taken => sound.step meets taken)
    actions initial state sound_initial along reached
  obtain ⟨stops, rest⟩ := sound.held (by rw [returned]; nofun)
  have rests : thread.Rests := ⟨current, rest thread (List.mem_of_getElem? found) current⟩
  have along' : Machine.Along step (fun _ action => action.continues = false) state more :=
    Machine.along_of_forall more state held
  have kept := Machine.run_along
    (fun engine => Counted engine ∧ engine.stopping = true ∧
      ∃ now, engine.threads[number]? = some now ∧ now.Rests)
    (fun engine action between holds meets taken =>
      ⟨holds.1.step taken, rests_step holds.1 holds.2.1 holds.2.2 meets taken⟩)
    more state after ⟨sound.toCounted, stops, thread, found, rests⟩ along' later
  exact kept.2.2

/-- A stop while one thread is inside a safe region and another runs to a safe point. -/
theorem stop_holds_started : ∃ state after,
    Machine.run step initial [.continue_ none, .thread 0 .wake, .thread 0 (.fork true),
      .thread 1 .start, .thread 0 .enter, .stop, .thread 1 .point, .check] = some state ∧
    Machine.run step state [.stop] = some after ∧
    ∃ now, after.threads[0]? = some now ∧ now.Rests := by
  have reached : Machine.run step initial [.continue_ none, .thread 0 .wake,
      .thread 0 (.fork true), .thread 1 .start, .thread 0 .enter, .stop, .thread 1 .point,
      .check] = some ⟨[⟨0, .region⟩, ⟨0, .paused .point⟩], true, true, 2, none, none,
        some .debugger⟩ := by decide
  have along : Machine.Along step undisturbed initial [.continue_ none, .thread 0 .wake,
      .thread 0 (.fork true), .thread 1 .start, .thread 0 .enter, .stop, .thread 1 .point,
      .check] := by decide
  have later : Machine.run step ⟨[⟨0, .region⟩, ⟨0, .paused .point⟩], true, true, 2, none, none,
      some .debugger⟩ [.stop] = some ⟨[⟨0, .region⟩, ⟨0, .paused .point⟩], true, true, 2, none,
        none, some .debugger⟩ := by decide
  exact ⟨_, _, reached, later, stop_holds along reached rfl (by decide) later rfl rfl⟩

/-- A thread at the safe point in front of its `f_initialize` is counted in place of
the main thread, which runs when `f_debug_stop_and_wait` returns. -/
theorem stop_returns_early : ∃ state,
    Machine.run step initial [.continue_ none, .thread 0 .wake, .thread 0 (.fork true), .stop,
      .thread 1 .start, .check] = some state ∧
    state.stopped = some .debugger ∧ state.threads[0]? = some ⟨0, .script⟩ :=
  ⟨⟨[⟨0, .script⟩, ⟨-1, .paused .start⟩], true, true, 1, none, none, some .debugger⟩,
    by decide, rfl, rfl⟩

/-- A stop that has begun to wait, and has not returned in the same action. -/
theorem begun_of_pending {engine : Engine} {stopper other : Stopper} {m : Nat}
    (found : ∀ number, stopper = .thread number →
      ∃ place, engine.threads[number]? = some ⟨0, place⟩)
    (pending : (engine.stopAndWait stopper).Pending other m)
    (fresh : ¬engine.Pending other m) :
    engine.stopAndWait stopper = engine.begun stopper ∧ m = engine.running := by
  have own : (engine.begun stopper).Pending stopper engine.running := by
    cases stopper with
    | thread number =>
      obtain ⟨place, found⟩ := found number rfl
      exact begun_pending found
    | debugger => rfl
  rcases stopAndWait_cases engine stopper with same | ⟨-, same⟩
  · refine ⟨same, ?_⟩
    rcases pending_of_begun found (same ▸ pending) with ⟨-, count⟩ | before
    · exact count
    · exact absurd before fresh
  · obtain ⟨earlier, apart⟩ := pending_of_returns own (same ▸ pending)
    rcases pending_of_begun found earlier with ⟨equal, -⟩ | before
    · exact absurd equal apart
    · exact absurd before fresh

theorem begins_to_wait {before start : Engine} {action : Action} {stopper : Stopper} {n : Nat}
    (counted : Counted before) (meets : punctual before action)
    (entered : step before action = some start) (fresh : ¬before.Pending stopper n)
    (waits : start.Pending stopper n) :
    n = before.running ∧ start.stopping = true ∧
      ∀ (number : Nat) (thread : Thread), before.threads[number]? = some thread →
        thread.done = 0 → ∃ now, start.threads[number]? = some now ∧ now.Remains := by
  have remains : before.begins action = true → ∀ (number : Nat) (thread : Thread),
      before.threads[number]? = some thread → thread.done = 0 → thread.Remains := by
    intro begins number thread found current
    have other := List.any_eq_false.mp (meets.1 begins) thread (List.mem_of_getElem? found)
    exact ⟨current, by simpa using other⟩
  cases step_effect counted entered with
  | moved stepping found move =>
    exact absurd (pending_of_put before _ waits rfl rfl move.plain).1 fresh
  | forked made =>
    have other : ∀ {thread : Thread}, thread = ⟨-1, .forked⟩ ∨ thread = ⟨1, .finished⟩ →
        thread.done ≠ 0 := by
      rintro thread (rfl | rfl) <;> decide
    exact absurd (pending_of_forked (other made) waits) fresh
  | @entered number place safe begins free found =>
    have fresh' : ¬({ before with safe := safe } : Engine).Pending stopper n := by
      cases stopper <;> exact fresh
    obtain ⟨same, count⟩ := begun_of_pending (by rintro _ ⟨⟩; exact ⟨place, found⟩) waits fresh'
    have begun : ({ before with safe := safe } : Engine).begun (.thread number) = { before with
        threads := before.threads.set number ⟨0, .stopping before.running⟩
        safe := safe, stopping := true } := begun_thread found
    rw [same, begun]
    refine ⟨count, rfl, ?_⟩
    intro other thread at_ current
    rcases eq_or_ne number other with rfl | apart
    · exact ⟨_, getElem?_put_self found, rfl, nofun⟩
    · exact ⟨thread, getElem?_put at_ apart, remains begins other thread at_ current⟩
  | asked begins free =>
    obtain ⟨same, count⟩ := begun_of_pending (by rintro _ ⟨⟩) waits fresh
    rw [same]
    exact ⟨count, rfl, fun number thread found current =>
      ⟨thread, found, remains begins number thread found current⟩⟩
  | @passed other m _ pending => exact absurd (pending_of_returns pending waits).1 fresh
  | continued => exact absurd (by cases stopper <;> exact waits) fresh
  | detached => exact absurd (by cases stopper <;> exact waits) fresh
  | unchanged => exact absurd waits fresh

/-- The thread has the safe point or the safe region at the end of its script ahead, at
which `v_debug__safe` comes to count it. -/
def Engine.Ahead (number : Nat) (engine : Engine) : Prop :=
  ∃ after now, step engine (.thread number .exit) = some after ∧
    after.threads[number]? = some now ∧ now.place.counted = true

theorem ahead_of_script {engine : Engine} {number : Nat} (stops : engine.stopping = true)
    (found : engine.threads[number]? = some ⟨0, .script⟩) : engine.Ahead number := by
  have taken : step engine (.thread number .exit) = some (engine.exit number) := by
    simp [step, found, Engine.act]
  have goes : ∀ place, ∀ base : Engine, base.threads = engine.threads →
      (base.enterAndNotify number place).threads[number]? = some ⟨0, place⟩ := by
    intro place base same
    rw [Engine.enterAndNotify, goes_eq base (same ▸ found)]
    exact getElem?_put_self (same ▸ found)
  rcases eq_or_ne number 0 with rfl | other
  · refine ⟨_, ⟨0, .joining⟩, taken, ?_, rfl⟩
    simp only [Engine.exit, if_true]
    exact goes _ _ rfl
  · refine ⟨_, ⟨0, .paused .exit⟩, taken, ?_, rfl⟩
    simp only [Engine.exit, if_neg other, Engine.safePoint, stops, if_true]
    exact goes _ _ rfl

/-- While a stopper waits, every thread that its bound counts is counted by
`v_debug__safe` or still has its last safe point ahead, and none of them finishes, in a
run in which no stop begins while a thread is about to finish and none is interrupted. -/
theorem bound_met {actions more : List Action} {action : Action} {before start state : Engine}
    {stopper : Stopper} {n : Nat}
    (along : Machine.Along step punctual initial actions)
    (reached : Machine.run step initial actions = some before)
    (meets : punctual before action) (entered : step before action = some start)
    (fresh : ¬before.Pending stopper n) (waits : start.Pending stopper n)
    (still : Machine.Along step punctual start more)
    (waiting : Machine.Along step (fun engine _ => engine.Pending stopper n) start more)
    (later : Machine.run step start more = some state) :
    n = before.running ∧
      ∀ (number : Nat) (thread : Thread), before.threads[number]? = some thread →
        thread.done = 0 → ∃ now, state.threads[number]? = some now ∧ now.done = 0 ∧
          (now.place.counted = true ∨ state.Ahead number) := by
  have counted : Counted before := (Machine.run_along Counted
    (fun _ _ _ counted _ taken => counted.step taken)
    actions initial before sound_initial.toCounted along reached)
  obtain ⟨count, stops, remain⟩ := begins_to_wait counted meets entered fresh waits
  refine ⟨count, ?_⟩
  intro number thread found current
  obtain ⟨kept, stops, now, at_, present, place⟩ := Machine.run_along
    (fun engine => Counted engine ∧ engine.stopping = true ∧
      ∃ now, engine.threads[number]? = some now ∧ now.Remains)
    (fun engine action between holds meets taken => by
      have held : action.continues = false := by
        by_contra continues
        have idle := meets.1.2 ((Bool.not_eq_false _).mp continues)
        rw [waiting_of_pending meets.2] at idle
        cases idle
      exact ⟨holds.1.step taken, remains_step holds.1 holds.2.1 holds.2.2 held taken⟩)
    more start state ⟨counted.step entered, stops, remain number thread found current⟩
    (still.and waiting) later
  refine ⟨now, at_, present, ?_⟩
  rcases now with ⟨done, place'⟩
  have proper := kept.proper _ (List.mem_of_getElem? at_)
  obtain rfl : done = 0 := present
  cases place' with
  | script => exact .inr (ahead_of_script stops at_)
  | ended => exact absurd rfl place
  | forked | finished => cases proper
  | _ => exact .inl rfl

/-- The debugger waits for two threads, of which one runs and one waits at the end of
its script. -/
theorem bound_met_ending : ∃ before start state,
    Machine.run step initial [.continue_ none, .thread 0 .wake, .thread 0 (.fork true),
      .thread 1 .start] = some before ∧
    step before .stop = some start ∧
    Machine.run step start [.thread 1 .exit] = some state ∧
    2 = before.running ∧
      ∀ (number : Nat) (thread : Thread), before.threads[number]? = some thread →
        thread.done = 0 → ∃ now, state.threads[number]? = some now ∧ now.done = 0 ∧
          (now.place.counted = true ∨ state.Ahead number) := by
  have along : Machine.Along step punctual initial [.continue_ none, .thread 0 .wake,
      .thread 0 (.fork true), .thread 1 .start] := by decide
  have reached : Machine.run step initial [.continue_ none, .thread 0 .wake,
      .thread 0 (.fork true), .thread 1 .start] =
      some ⟨[⟨0, .script⟩, ⟨0, .script⟩], true, false, 0, none, none, none⟩ := by decide
  have meets : punctual ⟨[⟨0, .script⟩, ⟨0, .script⟩], true, false, 0, none, none, none⟩ .stop := by
    decide
  have entered : step ⟨[⟨0, .script⟩, ⟨0, .script⟩], true, false, 0, none, none, none⟩ .stop =
      some ⟨[⟨0, .script⟩, ⟨0, .script⟩], true, true, 0, none, some 2, none⟩ := by decide
  have fresh : ¬(⟨[⟨0, .script⟩, ⟨0, .script⟩], true, false, 0, none, none, none⟩ :
      Engine).Pending .debugger 2 := nofun
  have still : Machine.Along step punctual
      ⟨[⟨0, .script⟩, ⟨0, .script⟩], true, true, 0, none, some 2, none⟩ [.thread 1 .exit] := by
    decide
  have later : Machine.run step ⟨[⟨0, .script⟩, ⟨0, .script⟩], true, true, 0, none, some 2, none⟩
      [.thread 1 .exit] =
      some ⟨[⟨0, .script⟩, ⟨0, .paused .exit⟩], true, true, 1, none, some 2, none⟩ := by decide
  exact ⟨_, _, _, reached, entered, later,
    bound_met along reached meets entered fresh rfl still ⟨rfl, fun _ _ => trivial⟩ later⟩

/-- A thread behind its last safe point is counted by the bound, and finishes without
having been counted by `v_debug__safe`. -/
theorem bound_goes_stale : ∃ before start state,
    Machine.run step initial [.continue_ none, .thread 0 .wake, .thread 0 (.fork true),
      .thread 1 .start, .thread 1 .exit] = some before ∧
    before.threads[1]? = some ⟨0, .ended⟩ ∧
    step before .stop = some start ∧ start.Pending .debugger 2 ∧
    Machine.run step start [.thread 1 .finalize, .thread 0 .point] = some state ∧
    state.Pending .debugger 2 ∧ state.safe = 1 ∧
    state.threads = [⟨0, .paused .point⟩, ⟨1, .finished⟩] :=
  ⟨⟨[⟨0, .script⟩, ⟨0, .ended⟩], true, false, 0, none, none, none⟩,
    ⟨[⟨0, .script⟩, ⟨0, .ended⟩], true, true, 0, none, some 2, none⟩,
    ⟨[⟨0, .paused .point⟩, ⟨1, .finished⟩], true, true, 1, none, some 2, none⟩,
    by decide, rfl, by decide, rfl, by decide, rfl, rfl, rfl⟩

end Xemmai.Debugger
