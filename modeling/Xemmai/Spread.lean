import Mathlib.Logic.Function.Iterate
import Xemmai.Object

/-!
# What a step of a pass does

A pass that steps on an object is reported a list of references and pushes on
each of them. Each of these loops is told at once: which colours and counts it
leaves, and what it has pushed.
-/

namespace Xemmai.Collector

set_option autoImplicit false

variable {ι : Type} [DecidableEq ι]

/-- A pass has painted the reported objects that its colour test chose. -/
def spread (fires : Color → Bool) (paint : Heap ι → ι → Color) (report : List ι)
    (heap : Heap ι) : Heap ι :=
  { heap with
    color := fun object =>
      if object ∈ report ∧ fires (heap.color object) = true then paint heap object
      else heap.color object }

/-- What a pass has pushed: objects that were not on the stack through it. -/
def Pushed (chosen : ι → Prop) (pushed : List ι) : Prop :=
  pushed.Nodup ∧ ∀ object, object ∈ pushed ↔ chosen object

theorem foldl_paintPush {fires pushes : Color → Bool} {paint : Heap ι → ι → Color}
    (settled : ∀ heap object, fires (paint heap object) = false)
    (stable : ∀ heap color, paint { heap with color := color } = paint heap)
    (report : List ι) (walk : Walk ι) :
    ∃ pushed, report.foldl (Walk.paintPush fires pushes paint) walk =
        ⟨spread fires paint report walk.heap, pushed ++ walk.stack⟩ ∧
      Pushed (fun object => object ∈ report ∧ fires (walk.heap.color object) = true ∧
        pushes (walk.heap.color object) = true) pushed := by
  induction report generalizing walk with
  | nil =>
    refine ⟨[], ?_, List.nodup_nil, ?_⟩
    · simp [spread]
    · simp
  | cons head report ih =>
    simp only [List.foldl_cons]
    obtain ⟨pushed, result, nodup, members⟩ := ih (Walk.paintPush fires pushes paint walk head)
    rw [result]
    by_cases fired : fires (walk.heap.color head) = true
    · have heap : (Walk.paintPush fires pushes paint walk head).heap =
          walk.heap.paint head (paint walk.heap head) := by
        simp only [Walk.paintPush, if_pos fired]
      have color : ∀ object, (walk.heap.paint head (paint walk.heap head)).color object =
          if object = head then paint walk.heap head else walk.heap.color object := by
        intro object
        simp only [Heap.paint, Function.update_apply]
      have same : spread fires paint report (walk.heap.paint head (paint walk.heap head)) =
          spread fires paint (head :: report) walk.heap := by
        have kept : paint (walk.heap.paint head (paint walk.heap head)) = paint walk.heap :=
          stable walk.heap _
        simp only [spread, color, kept, List.mem_cons]
        simp only [Heap.paint, Heap.mk.injEq, true_and, and_true]
        funext object
        by_cases equal : object = head
        · subst equal
          simp [fired, settled]
        · simp [equal]
      have later : ∀ object, object ∈ pushed ↔ object ∈ report ∧ object ≠ head ∧
          fires (walk.heap.color object) = true ∧
          pushes (walk.heap.color object) = true := by
        intro object
        simp only [members, heap, color]
        by_cases equal : object = head
        · subst equal
          simp [settled]
        · simp [equal]
      rw [heap, same]
      by_cases more : pushes (walk.heap.color head) = true
      · have stack : (Walk.paintPush fires pushes paint walk head).stack =
            head :: walk.stack := by
          simp only [Walk.paintPush, if_pos fired, if_pos more, Walk.push]
        refine ⟨pushed ++ [head], by simp [stack], ?_, ?_⟩
        · have fresh : head ∉ pushed := fun member => ((later head).mp member).2.1 rfl
          rw [← List.concat_eq_append]
          exact nodup.concat fresh
        · intro object
          simp only [List.mem_append, later, List.mem_cons]
          by_cases equal : object = head
          · subst equal
            simp [fired, more]
          · simp [equal]
      · have stack : (Walk.paintPush fires pushes paint walk head).stack = walk.stack := by
          simp only [Walk.paintPush, if_pos fired, if_neg more]
        refine ⟨pushed, by rw [stack], nodup, ?_⟩
        intro object
        simp only [later, List.mem_cons]
        by_cases equal : object = head
        · subst equal
          simp [more]
        · simp [equal]
    · have unchanged : Walk.paintPush fires pushes paint walk head = walk := by
        simp only [Walk.paintPush, if_neg fired]
      rw [unchanged] at members ⊢
      refine ⟨pushed, ?_, nodup, ?_⟩
      · simp only [spread, List.mem_cons]
        congr 2
        funext object
        by_cases equal : object = head
        · subst equal
          simp [fired]
        · simp [equal]
      · intro object
        simp only [members, List.mem_cons]
        by_cases equal : object = head
        · subst equal
          simp [fired]
        · simp [equal]

/-- A cyclic count goes down once for each time its object is reported. -/
theorem foldl_markGrayPush (report : List ι) (walk : Walk ι) :
    ∃ pushed, report.foldl Walk.markGrayPush walk =
        ⟨{ walk.heap with
            color := fun object =>
              if object ∈ report then .gray else walk.heap.color object
            cyclic := fun object => Word.down^[report.count object]
              (if object ∈ report ∧ walk.heap.color object ≠ .gray
                then walk.heap.count object else walk.heap.cyclic object) },
          pushed ++ walk.stack⟩ ∧
      Pushed (fun object => object ∈ report ∧ walk.heap.color object ≠ .gray) pushed := by
  induction report generalizing walk with
  | nil =>
    refine ⟨[], ?_, List.nodup_nil, ?_⟩
    · simp
    · simp
  | cons head report ih =>
    simp only [List.foldl_cons]
    obtain ⟨pushed, result, nodup, members⟩ := ih (walk.markGrayPush head)
    have heap : (walk.markGrayPush head).heap =
        { walk.heap with
          color := Function.update walk.heap.color head .gray
          cyclic := Function.update walk.heap.cyclic head (Word.down
            (if walk.heap.color head ≠ .gray then walk.heap.count head
              else walk.heap.cyclic head)) } := by
      by_cases gray : walk.heap.color head = .gray
      · have same : Function.update walk.heap.color head .gray = walk.heap.color := by
          rw [← gray, Function.update_eq_self]
        simp [Walk.markGrayPush, gray, Heap.setCyclic, same]
      · simp [Walk.markGrayPush, gray, Heap.setCyclic, Heap.paint, Walk.push]
    have later : ∀ object, object ∈ pushed ↔ object ∈ report ∧ object ≠ head ∧
        walk.heap.color object ≠ .gray := by
      intro object
      simp only [members, heap]
      by_cases equal : object = head
      · subst equal
        simp
      · simp [equal]
    have stack : (walk.markGrayPush head).stack =
        if walk.heap.color head = .gray then walk.stack else head :: walk.stack := by
      by_cases gray : walk.heap.color head = .gray
      · simp [Walk.markGrayPush, gray]
      · simp [Walk.markGrayPush, gray, Walk.push]
    have same : ({ (walk.markGrayPush head).heap with
          color := fun object => if object ∈ report then .gray
            else (walk.markGrayPush head).heap.color object
          cyclic := fun object => Word.down^[report.count object]
            (if object ∈ report ∧ (walk.markGrayPush head).heap.color object ≠ .gray
              then (walk.markGrayPush head).heap.count object
              else (walk.markGrayPush head).heap.cyclic object) } : Heap ι) =
        { walk.heap with
          color := fun object => if object ∈ head :: report then .gray
            else walk.heap.color object
          cyclic := fun object => Word.down^[(head :: report).count object]
            (if object ∈ head :: report ∧ walk.heap.color object ≠ .gray
              then walk.heap.count object else walk.heap.cyclic object) } := by
      rw [heap]
      simp only [Heap.mk.injEq, true_and, and_true]
      constructor
      · funext object
        by_cases equal : object = head
        · subst equal
          simp
        · simp [equal]
      · funext object
        by_cases equal : object = head
        · subst equal
          rw [List.count_cons_self, Function.iterate_succ_apply]
          simp only [Function.update_self, ne_eq, not_true_eq_false, and_false, if_false,
            List.mem_cons_self, true_and]
        · have other : ¬ head = object := fun same => equal same.symm
          simp [equal, other]
    rw [result, same, stack]
    by_cases gray : walk.heap.color head = .gray
    · refine ⟨pushed, by rw [if_pos gray], nodup, ?_⟩
      intro object
      simp only [later, List.mem_cons]
      by_cases equal : object = head
      · subst equal
        simp [gray]
      · simp [equal]
    · refine ⟨pushed ++ [head], by simp [if_neg gray], ?_, ?_⟩
      · have fresh : head ∉ pushed := fun member => ((later head).mp member).2.1 rfl
        rw [← List.concat_eq_append]
        exact nodup.concat fresh
      · intro object
        simp only [List.mem_append, later, List.mem_cons]
        by_cases equal : object = head
        · subst equal
          simp [gray]
        · simp [equal]

end Xemmai.Collector
