import Mathlib.Data.List.Basic
import Mathlib.Logic.Relation
import Mathlib.Logic.Function.Basic

/-!
# Paths of links that come to an end

A path starts at a pointer, which may be null, and follows the links until a
null. It is determined by where it starts, so no node is on it twice, and the
nodes on it are those the links lead to.
-/

namespace Xemmai

set_option autoImplicit false

variable {ν : Type}

/-- From `start` the links lead through the nodes to a null. -/
def Path (next : ν → Option ν) : Option ν → List ν → Prop
  | start, [] => start = none
  | start, node :: nodes => start = some node ∧ Path next (next node) nodes

/-- The links lead from `start` to `node`. -/
def Follows (next : ν → Option ν) (start : Option ν) (node : ν) : Prop :=
  ∃ first, start = some first ∧
    Relation.ReflTransGen (fun before after => next before = some after) first node

namespace Path

variable {next other : ν → Option ν} {start : Option ν} {nodes : List ν}

theorem null (path : Path next none nodes) : nodes = [] := by
  cases nodes with
  | nil => rfl
  | cons node nodes => exact absurd path.1 (by simp)

theorem some_cons {first : ν} (path : Path next (some first) nodes) :
    ∃ rest, nodes = first :: rest ∧ Path next (next first) rest := by
  cases nodes with
  | nil => exact absurd path (by simp [Path])
  | cons node nodes =>
    obtain ⟨same, rest⟩ := path
    obtain rfl := Option.some.inj same
    exact ⟨nodes, rfl, rest⟩

theorem head (path : Path next start nodes) : start = nodes.head? := by
  cases nodes with
  | nil => exact path
  | cons node nodes => exact path.1

theorem congr (path : Path next start nodes) (same : ∀ node ∈ nodes, other node = next node) :
    Path other start nodes := by
  induction nodes generalizing start with
  | nil => exact path
  | cons node nodes ih =>
    refine ⟨path.1, ?_⟩
    rw [same node List.mem_cons_self]
    exact ih path.2 fun node member => same node (List.mem_cons_of_mem _ member)

theorem update [DecidableEq ν] (path : Path next start nodes) {node : ν} (target : Option ν)
    (outside : node ∉ nodes) : Path (Function.update next node target) start nodes := by
  refine path.congr fun other member => Function.update_of_ne ?_ _ _
  rintro rfl
  exact outside member

theorem unique {nodes' : List ν} (path : Path next start nodes)
    (path' : Path next start nodes') : nodes = nodes' := by
  induction nodes generalizing start nodes' with
  | nil =>
    obtain rfl : start = none := path
    exact path'.null.symm
  | cons node nodes ih =>
    obtain ⟨rfl, rest⟩ := path
    obtain ⟨rest', rfl, tail⟩ := path'.some_cons
    rw [ih rest tail]

theorem suffix {before after : List ν} {node : ν}
    (path : Path next start (before ++ node :: after)) : Path next (next node) after := by
  induction before generalizing start with
  | nil => exact path.2
  | cons first before ih => exact ih path.2

theorem nodup (path : Path next start nodes) : nodes.Nodup := by
  induction nodes generalizing start with
  | nil => exact List.nodup_nil
  | cons node nodes ih =>
    refine List.nodup_cons.mpr ⟨?_, ih path.2⟩
    intro member
    obtain ⟨before, after, rfl⟩ := List.append_of_mem member
    have same := path.2.suffix.unique path.2
    have lengths := congrArg List.length same
    simp only [List.length_append, List.length_cons] at lengths
    omega

theorem follows_iff (path : Path next start nodes) {node : ν} :
    Follows next start node ↔ node ∈ nodes := by
  constructor
  · rintro ⟨first, rfl, reached⟩
    induction reached with
    | refl =>
      obtain ⟨rest, rfl, _⟩ := path.some_cons
      exact List.mem_cons_self
    | @tail before after _ link ih =>
      obtain ⟨front, back, rfl⟩ := List.append_of_mem ih
      have rest := path.suffix
      rw [link] at rest
      obtain ⟨back', rfl, _⟩ := rest.some_cons
      exact List.mem_append_right _ (List.mem_cons_of_mem _ List.mem_cons_self)
  · intro member
    induction nodes generalizing start with
    | nil => exact absurd member List.not_mem_nil
    | cons first nodes ih =>
      obtain ⟨rfl, rest⟩ := path
      refine ⟨first, rfl, ?_⟩
      rcases List.mem_cons.mp member with rfl | later
      · exact .refl
      · obtain ⟨second, link, reached⟩ := ih rest later
        exact .head link reached

end Path

def strung [DecidableEq ν] (next : ν → Option ν) : List ν → ν → Option ν
  | [] => next
  | node :: nodes => Function.update (strung next nodes) node nodes.head?

theorem Path.strung [DecidableEq ν] (next : ν → Option ν) {nodes : List ν}
    (nodup : nodes.Nodup) : Path (strung next nodes) nodes.head? nodes := by
  induction nodes with
  | nil => rfl
  | cons node nodes ih =>
    obtain ⟨fresh, nodup⟩ := List.nodup_cons.mp nodup
    refine ⟨rfl, ?_⟩
    rw [Xemmai.strung, Function.update_self]
    exact (ih nodup).update _ fresh

theorem strung_of_not_mem [DecidableEq ν] (next : ν → Option ν) {nodes : List ν} {node : ν}
    (outside : node ∉ nodes) : strung next nodes node = next node := by
  induction nodes with
  | nil => rfl
  | cons first nodes ih =>
    rw [List.mem_cons, not_or] at outside
    rw [strung, Function.update_of_ne outside.1]
    exact ih outside.2

end Xemmai
