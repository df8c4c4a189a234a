import Mathlib.Algebra.BigOperators.Ring.Finset
import Mathlib.Algebra.Order.BigOperators.Group.Finset
import Mathlib.Data.Fintype.Basic
import Mathlib.Data.Finset.SDiff
import Mathlib.Logic.Relation

/-!
# Counted references

Objects with the references that they hold, some of them held from outside. The
count of an object is the number of its references. A trial deletion from some
objects looks at what they lead to: an object there whose count exceeds its
references from inside is held, and what a held object leads to is kept. What is
left is garbage, and is referred to by garbage alone.
-/

namespace Xemmai.References

set_option autoImplicit false

variable {ι : Type}

def Reaches (fields : ι → List ι) : ι → ι → Prop :=
  Relation.ReflTransGen fun object child => child ∈ fields object

def Closed (fields : ι → List ι) (objects : Finset ι) : Prop :=
  ∀ object ∈ objects, ∀ child ∈ fields object, child ∈ objects

theorem Closed.reaches {fields : ι → List ι} {objects : Finset ι}
    (closed : Closed fields objects) {object target : ι} (member : object ∈ objects)
    (leads : Reaches fields object target) : target ∈ objects := by
  induction leads with
  | refl => exact member
  | tail _ child ih => exact closed _ ih _ child

variable [DecidableEq ι]

def refs (fields : ι → List ι) (objects : Finset ι) (target : ι) : Nat :=
  ∑ object ∈ objects, (fields object).count target

section Refs

variable {fields : ι → List ι} {objects others : Finset ι} {target : ι}

theorem refs_eq_zero (none : ∀ object ∈ objects, target ∉ fields object) :
    refs fields objects target = 0 :=
  Finset.sum_eq_zero fun object member => List.count_eq_zero.mpr (none object member)

theorem refs_pos {object : ι} (member : object ∈ objects) (child : target ∈ fields object) :
    0 < refs fields objects target := by
  have bound : (fields object).count target ≤ refs fields objects target :=
    Finset.single_le_sum (f := fun object => (fields object).count target)
      (fun _ _ => Nat.zero_le _) member
  exact Nat.lt_of_lt_of_le (List.count_pos_iff.mpr child) bound

theorem refs_mono (fields : ι → List ι) (target : ι) (subset : objects ⊆ others) :
    refs fields objects target ≤ refs fields others target :=
  Finset.sum_le_sum_of_subset subset

theorem refs_insert {object : ι} (fresh : object ∉ objects) :
    refs fields (insert object objects) target =
      (fields object).count target + refs fields objects target :=
  Finset.sum_insert fresh

theorem refs_sdiff (fields : ι → List ι) (target : ι) (subset : objects ⊆ others) :
    refs fields others target =
      refs fields objects target + refs fields (others \ objects) target := by
  unfold refs
  rw [Nat.add_comm, Finset.sum_sdiff subset]

theorem refs_erase {object : ι} (member : object ∈ objects) :
    refs fields objects target =
      (fields object).count target + refs fields (objects.erase object) target := by
  rw [← refs_insert (Finset.notMem_erase object objects), Finset.insert_erase member]

end Refs

end Xemmai.References

namespace Xemmai

/-- Live objects with their references, and the roots of a trial deletion. -/
structure References (ι : Type) where
  fields : ι → List ι
  external : ι → Nat
  live : Finset ι
  roots : Finset ι
  closed : References.Closed fields live
  inside : roots ⊆ live

namespace References

set_option autoImplicit false

variable {ι : Type} [DecidableEq ι] (graph : References ι)

def count (object : ι) : Nat := refs graph.fields graph.live object + graph.external object

open Classical in
noncomputable def subgraph : Finset ι :=
  graph.live.filter fun object => ∃ root ∈ graph.roots, Reaches graph.fields root object

open Classical in
/-- The objects whose count exceeds their references from inside the subgraph. -/
noncomputable def held : Finset ι :=
  graph.subgraph.filter fun object =>
    refs graph.fields graph.subgraph object < graph.count object

open Classical in
noncomputable def kept : Finset ι :=
  graph.subgraph.filter fun object => ∃ holder ∈ graph.held, Reaches graph.fields holder object

noncomputable def garbage : Finset ι := graph.subgraph \ graph.kept

variable {graph}

omit [DecidableEq ι] in
theorem mem_subgraph {object : ι} : object ∈ graph.subgraph ↔
    object ∈ graph.live ∧ ∃ root ∈ graph.roots, Reaches graph.fields root object := by
  simp only [subgraph, Finset.mem_filter]

theorem mem_held {object : ι} : object ∈ graph.held ↔
    object ∈ graph.subgraph ∧
      refs graph.fields graph.subgraph object < graph.count object := by
  simp only [held, Finset.mem_filter]

theorem mem_kept {object : ι} : object ∈ graph.kept ↔
    object ∈ graph.subgraph ∧
      ∃ holder ∈ graph.held, Reaches graph.fields holder object := by
  simp only [kept, Finset.mem_filter]

theorem mem_garbage {object : ι} :
    object ∈ graph.garbage ↔ object ∈ graph.subgraph ∧ object ∉ graph.kept := by
  rw [garbage, Finset.mem_sdiff]

omit [DecidableEq ι] in
theorem subgraph_live {object : ι} (member : object ∈ graph.subgraph) :
    object ∈ graph.live := (mem_subgraph.mp member).1

omit [DecidableEq ι] in
theorem roots_subgraph {object : ι} (member : object ∈ graph.roots) :
    object ∈ graph.subgraph :=
  mem_subgraph.mpr ⟨graph.inside member, object, member, .refl⟩

omit [DecidableEq ι] in
theorem subgraph_closed : Closed graph.fields graph.subgraph := by
  intro object member child field
  obtain ⟨live, root, start, leads⟩ := mem_subgraph.mp member
  exact mem_subgraph.mpr ⟨graph.closed object live child field, root, start, leads.tail field⟩

theorem kept_closed : Closed graph.fields graph.kept := by
  intro object member child field
  obtain ⟨inside, holder, held, leads⟩ := mem_kept.mp member
  exact mem_kept.mpr ⟨subgraph_closed object inside child field, holder, held,
    leads.tail field⟩

theorem held_kept {object : ι} (member : object ∈ graph.held) : object ∈ graph.kept :=
  mem_kept.mpr ⟨(mem_held.mp member).1, object, member, .refl⟩

theorem count_garbage_le {object : ι} (member : object ∈ graph.garbage) :
    graph.count object ≤ refs graph.fields graph.subgraph object := by
  obtain ⟨inside, lost⟩ := mem_garbage.mp member
  by_contra more
  exact lost (held_kept (mem_held.mpr ⟨inside, Nat.lt_of_not_le more⟩))

theorem garbage_external {object : ι} (member : object ∈ graph.garbage) :
    graph.external object = 0 := by
  have few := count_garbage_le member
  have subset : graph.subgraph ⊆ graph.live := fun _ => subgraph_live
  have most := refs_mono graph.fields object subset
  simp only [count] at few
  omega

theorem garbage_referrer {object referrer : ι} (member : object ∈ graph.garbage)
    (live : referrer ∈ graph.live) (field : object ∈ graph.fields referrer) :
    referrer ∈ graph.garbage := by
  have few := count_garbage_le member
  have subset : graph.subgraph ⊆ graph.live := fun _ => subgraph_live
  have parts := refs_sdiff graph.fields object subset
  have inside : referrer ∈ graph.subgraph := by
    by_contra outside
    have some' := refs_pos (Finset.mem_sdiff.mpr ⟨live, outside⟩) field
    simp only [count] at few
    omega
  refine mem_garbage.mpr ⟨inside, ?_⟩
  intro kept
  exact (mem_garbage.mp member).2 (kept_closed referrer kept object field)

theorem garbage_live {object : ι} (member : object ∈ graph.garbage) : object ∈ graph.live :=
  subgraph_live (mem_garbage.mp member).1

theorem kept_counted {object : ι} (member : object ∈ graph.kept) :
    0 < refs graph.fields (graph.live \ graph.garbage) object + graph.external object := by
  obtain ⟨inside, holder, held, leads⟩ := mem_kept.mp member
  rcases Relation.ReflTransGen.cases_tail leads with rfl | ⟨referrer, before, field⟩
  · obtain ⟨_, more⟩ := mem_held.mp held
    have subset : graph.subgraph ⊆ graph.live := fun _ => subgraph_live
    have parts := refs_sdiff graph.fields object subset
    have fewer : graph.live \ graph.subgraph ⊆ graph.live \ graph.garbage :=
      Finset.sdiff_subset_sdiff (Finset.Subset.refl _) fun _ member => (mem_garbage.mp member).1
    have most := refs_mono graph.fields object fewer
    simp only [count] at more
    omega
  · have kept : referrer ∈ graph.kept := kept_closed.reaches (held_kept held) before
    have outside : referrer ∈ graph.live \ graph.garbage :=
      Finset.mem_sdiff.mpr ⟨subgraph_live (mem_kept.mp kept).1,
        fun lost => (mem_garbage.mp lost).2 kept⟩
    exact Nat.lt_of_lt_of_le (refs_pos outside field) (Nat.le_add_right _ _)

end References

end Xemmai
