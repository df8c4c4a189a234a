import Mathlib.Algebra.Order.BigOperators.Group.Finset
import Mathlib.Logic.Relation

/-!
# Worklist iteration

A data-flow analysis over a graph: every node holds a datum, a transfer carries
the datum of a node along an edge into the datum of its successor, and a node
whose datum has changed is queued again. If a change lowers a rank, the queue
runs empty within as many visits as there is rank to lose, and then every edge
that can be reached from the first node is settled.
-/

namespace Xemmai

set_option autoImplicit false

namespace Worklist

variable {ι σ : Type} [DecidableEq ι]

/-- The datum of an edge's source and that of its target give whether the
target changes, and the new datum of the target. -/
abbrev Transfer (σ : Type) := σ → σ → Bool × σ

section Iteration

variable (transfer : Transfer σ) (successors : ι → List ι)

/-- One edge from `node`; a changed target is queued unless it is already. -/
def along (node : ι) (state : (ι → σ) × List ι) (target : ι) : (ι → σ) × List ι :=
  let result := transfer (state.1 node) (state.1 target)
  (Function.update state.1 target result.2,
    if result.1 && !state.2.contains target then state.2 ++ [target] else state.2)

def visit (node : ι) (state : (ι → σ) × List ι) : (ι → σ) × List ι :=
  (successors node).foldl (along transfer node) state

def run : Nat → ι → (ι → σ) × List ι → ι → σ
  | 0, _, state => state.1
  | fuel + 1, node, state =>
      match visit transfer successors node state with
      | (data, []) => data
      | (data, next :: queue) => run fuel next (data, queue)

end Iteration

/-- What the iteration needs of a transfer. -/
structure Lawful (transfer : Transfer σ) (seen : σ → Bool) (rank : σ → Nat) : Prop where
  unchanged : ∀ {a b}, (transfer a b).1 = false → (transfer a b).2 = b
  settles : ∀ a b, (transfer a (transfer a b).2).1 = false
  grows : ∀ {a b}, (transfer a b).1 = false → ∀ c, (transfer a (transfer c b).2).1 = false
  lowers : ∀ {a b}, (transfer a b).1 = true → rank (transfer a b).2 < rank b
  sees : ∀ {a b}, (transfer a b).1 = false → seen b = true

section Correctness

variable {transfer : Transfer σ} {seen : σ → Bool} {rank : σ → Nat}
variable {successors : ι → List ι} {start : ι}

def Settled (transfer : Transfer σ) (data : ι → σ) (node target : ι) : Prop :=
  (transfer (data node) (data target)).1 = false

/-- The nodes that have been queued at some time. -/
def Active (seen : σ → Bool) (start : ι) (data : ι → σ) (node : ι) : Prop :=
  node = start ∨ seen (data node) = true

/-- Between two visits, only what is queued may have unsettled edges; during
the visit of `node`, also the edges of `node` that are not `done`. -/
structure Invariant (transfer : Transfer σ) (seen : σ → Bool) (successors : ι → List ι)
    (start node : ι) (done : List ι) (state : (ι → σ) × List ι) : Prop where
  others : ∀ other, Active seen start state.1 other → other ∉ state.2 → other ≠ node →
    ∀ target ∈ successors other, Settled transfer state.1 other target
  own : node ∉ state.2 → ∀ target ∈ done, Settled transfer state.1 node target

theorem settled_update (lawful : Lawful transfer seen rank) {data : ι → σ}
    {node changed target : ι} (apart : node ≠ changed) (a : σ)
    (settled : Settled transfer data node target) :
    Settled transfer (Function.update data changed (transfer a (data changed)).2) node target := by
  unfold Settled at settled ⊢
  rw [Function.update_of_ne apart]
  by_cases same : target = changed
  · subst same
    rw [Function.update_self]
    exact lawful.grows settled a
  · rw [Function.update_of_ne same]
    exact settled

theorem along_invariant (lawful : Lawful transfer seen rank) {node target : ι} {done : List ι}
    {state : (ι → σ) × List ι}
    (invariant : Invariant transfer seen successors start node done state) :
    Invariant transfer seen successors start node (done ++ [target])
      (along transfer node state target) := by
  rcases state with ⟨data, queue⟩
  cases changes : (transfer (data node) (data target)).1 with
  | false =>
      have same : Function.update data target (transfer (data node) (data target)).2 = data := by
        rw [lawful.unchanged changes, Function.update_eq_self]
      simp only [along, changes, same, Bool.false_and, Bool.false_eq_true, if_false]
      refine ⟨invariant.others, ?_⟩
      intro unqueued other member
      rcases List.mem_append.mp member with earlier | last
      · exact invariant.own unqueued other earlier
      · obtain rfl := List.mem_singleton.mp last
        exact changes
  | true =>
      have queued : ∀ other, other ∉ (along transfer node (data, queue) target).2 →
          other ≠ target ∧ other ∉ queue := by
        intro other absent
        by_cases present : target ∈ queue <;> simp [along, changes, present] at absent
        · exact ⟨fun equal => absent (equal ▸ present), absent⟩
        · exact ⟨absent.2, absent.1⟩
      constructor
      · intro other active unqueued foreign following member
        obtain ⟨apart, absent⟩ := queued other unqueued
        have before : Active seen start data other := by
          rcases active with first | marked
          · exact Or.inl first
          · exact Or.inr (by simpa [along, Function.update_of_ne apart] using marked)
        exact settled_update lawful apart _
          (invariant.others other before absent foreign following member)
      · intro unqueued other member
        obtain ⟨apart, absent⟩ := queued node unqueued
        rcases List.mem_append.mp member with earlier | last
        · exact settled_update lawful apart _ (invariant.own absent other earlier)
        · obtain rfl := List.mem_singleton.mp last
          simp only [Settled, along, Function.update_of_ne apart, Function.update_self]
          exact lawful.settles _ _

theorem foldl_invariant (lawful : Lawful transfer seen rank) {node : ι} (targets : List ι) :
    ∀ {done : List ι} {state : (ι → σ) × List ι},
      Invariant transfer seen successors start node done state →
      Invariant transfer seen successors start node (done ++ targets)
        (targets.foldl (along transfer node) state) := by
  induction targets with
  | nil =>
      intro done state invariant
      simpa using invariant
  | cons target targets induction =>
      intro done state invariant
      have reached : Invariant transfer seen successors start node (done ++ [target])
          (along transfer node state target) := along_invariant lawful invariant
      have step := induction reached
      simpa using step

section Fuel

variable {nodes : Finset ι}

def potential (rank : σ → Nat) (nodes : Finset ι) (state : (ι → σ) × List ι) : Nat :=
  state.2.length + ∑ node ∈ nodes, rank (state.1 node)

theorem along_potential (lawful : Lawful transfer seen rank) (node : ι) {target : ι}
    (inside : target ∈ nodes) (state : (ι → σ) × List ι) :
    potential rank nodes (along transfer node state target) ≤ potential rank nodes state := by
  rcases state with ⟨data, queue⟩
  cases changes : (transfer (data node) (data target)).1 with
  | false =>
      simp [along, changes, lawful.unchanged changes]
  | true =>
      have lower := lawful.lowers changes
      have sums : ∑ other ∈ nodes, rank (Function.update data target
          (transfer (data node) (data target)).2 other) < ∑ other ∈ nodes, rank (data other) := by
        apply Finset.sum_lt_sum
        · intro other _
          by_cases same : other = target
          · subst same
            rw [Function.update_self]
            exact lower.le
          · rw [Function.update_of_ne same]
        · exact ⟨target, inside, by rw [Function.update_self]; exact lower⟩
      simp only [along, potential, changes]
      by_cases present : target ∈ queue <;> simp [present] <;> omega

theorem foldl_potential (lawful : Lawful transfer seen rank) (node : ι) (targets : List ι) :
    ∀ state : (ι → σ) × List ι, (∀ target ∈ targets, target ∈ nodes) →
      potential rank nodes (targets.foldl (along transfer node) state) ≤
        potential rank nodes state := by
  induction targets with
  | nil => exact fun state _ => le_refl _
  | cons target targets induction =>
      intro state inside
      have first := along_potential lawful node (inside target List.mem_cons_self) state
      have rest := induction (along transfer node state target)
        (fun other member => inside other (List.mem_cons_of_mem _ member))
      exact rest.trans first

/-- With enough fuel the queue runs empty, and every edge of an active node is
settled. -/
theorem run_settled (start : ι) (successors : ι → List ι) (nodes : Finset ι)
    (lawful : Lawful transfer seen rank)
    (closed : ∀ node, ∀ target ∈ successors node, target ∈ nodes) :
    ∀ (fuel : Nat) (node : ι) (state : (ι → σ) × List ι),
      potential rank nodes state < fuel →
      Invariant transfer seen successors start node [] state →
      ∀ other, Active seen start (run transfer successors fuel node state) other →
        ∀ target ∈ successors other,
          Settled transfer (run transfer successors fuel node state) other target := by
  intro fuel
  induction fuel with
  | zero =>
      intro node state enough
      exact absurd enough (Nat.not_lt_zero _)
  | succ fuel induction =>
      intro node state enough invariant
      have visited : Invariant transfer seen successors start node (successors node)
          (visit transfer successors node state) := by
        simpa [visit] using foldl_invariant lawful (successors node) invariant
      have bound := foldl_potential lawful node (successors node) state (closed node)
      rw [← visit] at bound
      rcases shape : visit transfer successors node state with ⟨data, queue⟩
      rw [shape] at visited bound
      cases queue with
      | nil =>
          simp only [run, shape]
          intro other active target member
          by_cases same : other = node
          · subst same
            exact visited.own List.not_mem_nil target member
          · exact visited.others other active List.not_mem_nil same target member
      | cons next queue =>
          simp only [run, shape]
          apply induction next (data, queue)
          · simp only [potential, List.length_cons] at bound enough ⊢
            omega
          · constructor
            · intro other active absent foreign target member
              by_cases same : other = node
              · subst same
                exact visited.own (by simp [foreign, absent]) target member
              · exact visited.others other active (by simp [foreign, absent]) same target member
            · intro _ target member
              exact absurd member List.not_mem_nil

end Fuel

theorem along_keeps {keeps : σ → σ → Prop} (refl : ∀ a, keeps a a)
    (step : ∀ a b, keeps b (transfer a b).2) (node target : ι) (state : (ι → σ) × List ι)
    (other : ι) : keeps (state.1 other) ((along transfer node state target).1 other) := by
  by_cases same : other = target
  · subst same
    simpa [along] using step (state.1 node) (state.1 other)
  · simpa [along, Function.update_of_ne same] using refl (state.1 other)

/-- What every transfer keeps of its target, the iteration keeps of every node. -/
theorem run_keeps {keeps : σ → σ → Prop} (refl : ∀ a, keeps a a)
    (trans : ∀ {a b c}, keeps a b → keeps b c → keeps a c)
    (step : ∀ a b, keeps b (transfer a b).2) :
    ∀ (fuel : Nat) (node : ι) (state : (ι → σ) × List ι) (other : ι),
      keeps (state.1 other) (run transfer successors fuel node state other) := by
  have visits : ∀ (node : ι) (targets : List ι) (state : (ι → σ) × List ι) (other : ι),
      keeps (state.1 other) ((targets.foldl (along transfer node) state).1 other) := by
    intro node targets
    induction targets with
    | nil => exact fun state other => refl _
    | cons target targets induction =>
        intro state other
        exact trans (along_keeps refl step node target state other) (induction _ other)
  intro fuel
  induction fuel with
  | zero => exact fun node state other => refl _
  | succ fuel induction =>
      intro node state other
      have first := visits node (successors node) state other
      rcases shape : visit transfer successors node state with ⟨data, queue⟩
      rw [visit] at shape
      rw [shape] at first
      cases queue with
      | nil => simpa [run, visit, shape] using first
      | cons next queue =>
          have rest := induction next (data, queue) other
          simpa [run, visit, shape] using trans first rest

end Correctness

end Worklist

end Xemmai
