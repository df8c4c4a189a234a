import Mathlib.Order.Basic

/-!
# Loops

A loop turns a state over until a turn says that it was the last one. It is
given a number of turns it may take; a loop whose turns keep an invariant and
lower a rank needs no more turns than the rank it starts with.
-/

namespace Xemmai.Loop

set_option autoImplicit false

variable {σ : Type}

/-- A turn gives whether there is another one, and the state it leaves. It gives
nothing when a loop inside it runs out of turns. -/
def run (turn : σ → Option (Bool × σ)) : Nat → σ → Option σ
  | 0, _ => none
  | turns + 1, state =>
    match turn state with
    | none => none
    | some (true, state) => run turn turns state
    | some (false, state) => some state

theorem run_total (turn : σ → Option (Bool × σ)) (holds done : σ → Prop)
    (rank : σ → Nat)
    (body : ∀ state, holds state → ∃ again after, turn state = some (again, after) ∧
      (again = true → holds after ∧ rank after < rank state) ∧
      (again = false → done after)) :
    ∀ turns state, holds state → rank state < turns →
      ∃ after, run turn turns state = some after ∧ done after := by
  intro turns
  induction turns with
  | zero => intro state _ few; omega
  | succ turns ih =>
    intro state held enough
    obtain ⟨again, after, taken, more, last⟩ := body state held
    simp only [run, taken]
    cases again with
    | true =>
      obtain ⟨kept, lower⟩ := more rfl
      exact ih after kept (by omega)
    | false => exact ⟨after, rfl, last rfl⟩

theorem run_keeps (turn : σ → Option (Bool × σ)) (kept : σ → Prop)
    (body : ∀ state again after, kept state → turn state = some (again, after) → kept after) :
    ∀ turns state after, kept state → run turn turns state = some after → kept after := by
  intro turns
  induction turns with
  | zero => intro state after _ ran; cases ran
  | succ turns ih =>
    intro state after held ran
    simp only [run] at ran
    split at ran
    case h_1 => cases ran
    case h_2 between taken => exact ih between after (body _ _ _ held taken) ran
    case h_3 between taken =>
      cases ran
      exact body _ _ _ held taken

end Xemmai.Loop
