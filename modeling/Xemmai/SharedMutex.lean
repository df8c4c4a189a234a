import Mathlib.Data.List.Count

/-!
# A mutex that one thread holds alone or several threads share

The mutex cannot be held in both ways at once, which its type says. What an
acquisition or a release changes is the number of times that one thread holds it
in one mode.
-/

namespace Xemmai

set_option autoImplicit false

inductive Mode
  | exclusive
  | shared
  deriving DecidableEq, Repr

structure SharedMutex (ι : Type) where
  writer : Option ι
  readers : List ι
  apart : writer = none ∨ readers = []

namespace SharedMutex

variable {ι : Type} [DecidableEq ι]

def free : SharedMutex ι := ⟨none, [], Or.inl rfl⟩

/-- There is no result while the thread has to wait. -/
def acquire (mutex : SharedMutex ι) (mode : Mode) (thread : ι) : Option (SharedMutex ι) :=
  if mutex.writer = none then
    match mode with
    | .shared => some ⟨none, thread :: mutex.readers, Or.inl rfl⟩
    | .exclusive => if mutex.readers = [] then some ⟨some thread, [], Or.inr rfl⟩ else none
  else none

/-- There is no result where the thread does not hold the mutex. -/
def release (mutex : SharedMutex ι) (mode : Mode) (thread : ι) : Option (SharedMutex ι) :=
  match mode with
  | .exclusive =>
    if mutex.writer = some thread then some ⟨none, mutex.readers, Or.inl rfl⟩ else none
  | .shared =>
    if thread ∈ mutex.readers then
      some ⟨mutex.writer, mutex.readers.erase thread,
        mutex.apart.imp_right fun none => by simp [none]⟩
    else none

def held (mutex : SharedMutex ι) (thread : ι) : Mode → Nat
  | .exclusive => if mutex.writer = some thread then 1 else 0
  | .shared => mutex.readers.count thread

@[simp] theorem held_free (thread : ι) (mode : Mode) :
    (free : SharedMutex ι).held thread mode = 0 := by
  cases mode <;> simp [held, free]

theorem held_acquire {mutex after : SharedMutex ι} {mode : Mode} {thread : ι}
    (taken : mutex.acquire mode thread = some after) (other : ι) (way : Mode) :
    after.held other way =
      mutex.held other way + if other = thread ∧ way = mode then 1 else 0 := by
  unfold acquire at taken
  split at taken
  · rename_i unwritten
    cases mode with
    | shared =>
      simp only [Option.some.injEq] at taken
      subst taken
      cases way with
      | exclusive => simp [held, unwritten]
      | shared => simp [held, List.count_cons, @eq_comm ι thread other]
    | exclusive =>
      simp only [Option.ite_none_right_eq_some, Option.some.injEq] at taken
      obtain ⟨unread, rfl⟩ := taken
      cases way with
      | exclusive => simp [held, unwritten, eq_comm]
      | shared => simp [held, unread]
  · exact absurd taken (by simp)

theorem held_release {mutex after : SharedMutex ι} {mode : Mode} {thread : ι}
    (given : mutex.release mode thread = some after) (other : ι) (way : Mode) :
    mutex.held other way =
      after.held other way + if other = thread ∧ way = mode then 1 else 0 := by
  cases mode with
  | exclusive =>
    simp only [release, Option.ite_none_right_eq_some, Option.some.injEq] at given
    obtain ⟨written, rfl⟩ := given
    cases way with
    | exclusive => simp [held, written, eq_comm]
    | shared => simp [held]
  | shared =>
    simp only [release, Option.ite_none_right_eq_some, Option.some.injEq] at given
    obtain ⟨reading, rfl⟩ := given
    cases way with
    | exclusive => simp [held]
    | shared =>
      by_cases same : other = thread
      · subst same
        have positive := List.count_pos_iff.mpr reading
        simp only [held, and_self, if_true, List.count_erase_self]
        omega
      · simp [held, same, List.count_erase_of_ne same]

theorem exclusive_alone (mutex : SharedMutex ι) {thread other : ι} {mode : Mode}
    (alone : 0 < mutex.held thread .exclusive) (holds : 0 < mutex.held other mode) :
    other = thread ∧ mode = .exclusive := by
  have written : mutex.writer = some thread := by
    by_contra free
    simp [held, free] at alone
  cases mode with
  | exclusive =>
    have same : mutex.writer = some other := by
      by_contra free
      simp [held, free] at holds
    rw [written] at same
    exact ⟨(Option.some.inj same).symm, rfl⟩
  | shared =>
    have unread := mutex.apart.resolve_left (by simp [written])
    simp [held, unread] at holds

end SharedMutex

end Xemmai
