import Mathlib.Logic.Function.Iterate
import Mathlib.Order.Nat

/-!
# Runs of a machine

A machine that goes from one configuration to the next, and stays where it has halted. What
a run comes to is composed of what its parts come to; two runs from one configuration that
halt halt in the same one.
-/

namespace Xemmai.Stepping

set_option autoImplicit false

variable {C : Type} {step : C → C}

/-- In `least` steps or more, a run comes to where `goal` holds. -/
def Comes (step : C → C) (least : Nat) (goal : C → Prop) (first : C) : Prop :=
  ∃ n, least ≤ n ∧ goal (step^[n] first)

theorem Comes.here {goal : C → Prop} {first : C} (met : goal first) : Comes step 0 goal first :=
  ⟨0, le_refl 0, met⟩

theorem Comes.next {goal : C → Prop} {least : Nat} {first : C}
    (later : Comes step least goal (step first)) : Comes step (least + 1) goal first := by
  obtain ⟨n, enough, met⟩ := later
  refine ⟨n + 1, Nat.succ_le_succ enough, ?_⟩
  rwa [Function.iterate_succ_apply]

theorem Comes.fewer {goal : C → Prop} {least fewer : Nat} {first : C}
    (comes : Comes step least goal first) (bound : fewer ≤ least) : Comes step fewer goal first := by
  obtain ⟨n, enough, met⟩ := comes
  exact ⟨n, Nat.le_trans bound enough, met⟩

theorem Comes.imp {goal other : C → Prop} {least : Nat} {first : C}
    (comes : Comes step least goal first) (weaker : ∀ last, goal last → other last) :
    Comes step least other first := by
  obtain ⟨n, enough, met⟩ := comes
  exact ⟨n, enough, weaker _ met⟩

theorem Comes.trans {middle goal : C → Prop} {least more : Nat} {first : C}
    (left : Comes step least middle first)
    (right : ∀ between, middle between → Comes step more goal between) :
    Comes step (least + more) goal first := by
  obtain ⟨n, enough, met⟩ := left
  obtain ⟨m, later, ended⟩ := right _ met
  refine ⟨m + n, by omega, ?_⟩
  rwa [Function.iterate_add_apply]

theorem Comes.halted {goal : C → Prop} {least n : Nat} {first last : C}
    (comes : Comes step least goal first) (reached : step^[n] first = last)
    (halts : step last = last) (early : n ≤ least) : goal last := by
  obtain ⟨m, enough, met⟩ := comes
  obtain ⟨rest, rfl⟩ := Nat.exists_eq_add_of_le (Nat.le_trans early enough)
  rw [Nat.add_comm, Function.iterate_add_apply, reached, Function.iterate_fixed halts] at met
  exact met

theorem halted_unique {n m : Nat} {first last other : C} (reached : step^[n] first = last)
    (halts : step last = last) (arrived : step^[m] first = other) (ends : step other = other) :
    last = other := by
  have meets : ∀ {n : Nat} {first last : C}, step^[n] first = last →
      Comes step n (fun config => config = last) first := fun reached => ⟨_, le_refl _, reached⟩
  rcases Nat.le_total n m with early | early
  · exact (meets arrived).halted reached halts early
  · exact ((meets reached).halted arrived ends early).symm

end Xemmai.Stepping
