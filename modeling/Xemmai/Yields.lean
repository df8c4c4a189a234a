import Mathlib.Control.Lawful

/-!
# Postconditions of computations that may fail

A computation over a state returns a value or fails. It keeps an invariant of the
state if, started where the invariant holds, it returns where it holds, with a
value that meets a postcondition, or fails in a way that is allowed.
-/

namespace Xemmai

set_option autoImplicit false

variable {σ ε α β : Type}

/-- A computation returns what meets `post`, or fails as `fails` allows. -/
def Yields (fails : ε → Prop) (post : α → σ → Prop) : Except ε (α × σ) → Prop
  | .ok (a, state) => post a state
  | .error failure => fails failure

def Keeps (fails : ε → Prop) (invariant : σ → Prop) (computation : StateT σ (Except ε) α)
    (post : α → Prop) : Prop :=
  ∀ state, invariant state →
    Yields fails (fun a after => invariant after ∧ post a) (computation state)

variable {fails : ε → Prop} {invariant : σ → Prop}

theorem Yields.mono {post weaker : α → σ → Prop} {result : Except ε (α × σ)}
    (yields : Yields fails post result) (implies : ∀ a state, post a state → weaker a state) :
    Yields fails weaker result := by
  cases result with
  | ok result => exact implies _ _ yields
  | error failure => exact yields

theorem Yields.bind {middle : α → σ → Prop} {post : β → σ → Prop}
    {computation : StateT σ (Except ε) α} {rest : α → StateT σ (Except ε) β} {state : σ}
    (first : Yields fails middle (computation state))
    (second : ∀ a after, middle a after → Yields fails post (rest a after)) :
    Yields fails post ((computation >>= rest) state) := by
  change Yields fails post (computation state >>= fun result => rest result.1 result.2)
  cases ran : computation state with
  | ok result =>
    rw [ran] at first
    exact second _ _ first
  | error failure =>
    rw [ran] at first
    exact first

theorem Yields.sets {post : β → σ → Prop} {rest : Unit → StateT σ (Except ε) β}
    {state after : σ} (second : Yields fails post (rest () after)) :
    Yields fails post ((set after >>= rest) state) :=
  second

theorem Yields.modifies {post : β → σ → Prop} {rest : Unit → StateT σ (Except ε) β}
    {change : σ → σ} {state : σ} (second : Yields fails post (rest () (change state))) :
    Yields fails post ((modify change >>= rest) state) :=
  second

theorem Yields.of_ok {post : α → σ → Prop} {result : Except ε (α × σ)} {a : α} {state : σ}
    (yields : Yields fails post result) (returned : result = .ok (a, state)) : post a state := by
  subst returned
  exact yields

theorem Keeps.returns {post : α → Prop} {a : α} (met : post a) :
    Keeps fails invariant (pure a) post :=
  fun _ holds => ⟨holds, met⟩

theorem Keeps.throws {post : α → Prop} {failure : ε} (allowed : fails failure) :
    Keeps fails invariant (throw failure) post :=
  fun _ _ => allowed

theorem Keeps.bind {middle : α → Prop} {post : β → Prop} {computation : StateT σ (Except ε) α}
    {rest : α → StateT σ (Except ε) β} (first : Keeps fails invariant computation middle)
    (second : ∀ a, middle a → Keeps fails invariant (rest a) post) :
    Keeps fails invariant (computation >>= rest) post :=
  fun state holds => (first state holds).bind fun a after met => second a met.2 after met.1

theorem Keeps.mono {post weaker : α → Prop} {computation : StateT σ (Except ε) α}
    (keeps : Keeps fails invariant computation post) (implies : ∀ a, post a → weaker a) :
    Keeps fails invariant computation weaker :=
  fun state holds => (keeps state holds).mono fun a _ met => ⟨met.1, implies a met.2⟩

theorem Keeps.modifies {change : σ → σ}
    (kept : ∀ state, invariant state → invariant (change state)) :
    Keeps fails invariant (modify change : StateT σ (Except ε) Unit) fun _ => True :=
  fun state holds => ⟨kept state holds, trivial⟩

theorem Keeps.reads {post : β → Prop} {rest : σ → StateT σ (Except ε) β}
    (second : ∀ state, invariant state →
      Yields fails (fun b after => invariant after ∧ post b) (rest state state)) :
    Keeps fails invariant (get >>= rest) post :=
  fun state holds => second state holds

end Xemmai
