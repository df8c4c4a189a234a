import Mathlib.Data.List.Nodup
import Mathlib.Logic.Function.Basic

/-!
# Rings of links

A ring is held by its last node: the links lead from it to the first node, from
there through the others and back to it. A node is pushed behind the last one.
-/

namespace Xemmai.Ring

set_option autoImplicit false

variable {ν : Type}

/-- The links lead from `start` through the nodes. -/
def Leads (next : ν → ν) : ν → List ν → Prop
  | _, [] => True
  | start, node :: nodes => next start = node ∧ Leads next node nodes

/-- The nodes of the ring that `tail` holds, from the first to the last. -/
structure Holds (next : ν → ν) (tail : Option ν) (nodes : List ν) : Prop where
  last : nodes.getLast? = tail
  nodup : nodes.Nodup
  leads : ∀ last, tail = some last → Leads next last nodes

/-- The node before those that come after `done`. -/
def before (done : List ν) (tail : ν) : ν :=
  done.getLast?.getD tail

section Leads

variable {next other : ν → ν} {start : ν} {nodes : List ν}

theorem Leads.restart (leads : Leads next start nodes) {again : ν}
    (first : other again = next start) (same : ∀ node ∈ nodes.dropLast, other node = next node) :
    Leads other again nodes := by
  induction nodes generalizing start again with
  | nil => trivial
  | cons node nodes ih =>
    refine ⟨first.trans leads.1, ?_⟩
    cases nodes with
    | nil => trivial
    | cons second nodes =>
      rw [List.dropLast_cons_of_ne_nil (List.cons_ne_nil _ _)] at same
      refine ih leads.2 (same node List.mem_cons_self) ?_
      exact fun other member => same other (List.mem_cons_of_mem _ member)

theorem before_cons (node : ν) (done : List ν) (start : ν) :
    before (node :: done) start = before done node := by
  cases done with
  | nil => rfl
  | cons other done => simp [before, List.getLast?_cons]

theorem leads_append {done rest : List ν} :
    Leads next start (done ++ rest) ↔
      Leads next start done ∧ Leads next (before done start) rest := by
  induction done generalizing start with
  | nil => simp [Leads, before]
  | cons node done ih => rw [List.cons_append, Leads, ih, Leads, before_cons, and_assoc]

end Leads

section Holds

variable {next : ν → ν} {tail : Option ν} {nodes done rest : List ν} {node last : ν}

theorem Holds.nil (next : ν → ν) : Holds next none [] where
  last := rfl
  nodup := List.nodup_nil
  leads _ null := absurd null (by simp)

theorem Holds.of_none (holds : Holds next none nodes) : nodes = [] :=
  List.getLast?_eq_none_iff.mp holds.last

theorem Holds.ne_nil (holds : Holds next (some last) nodes) : nodes ≠ [] := by
  rintro rfl
  exact absurd holds.last (by simp)

theorem Holds.front (holds : Holds next (some last) nodes) :
    ∃ front, nodes = front ++ [last] ∧ last ∉ front := by
  obtain ⟨front, rfl⟩ := List.getLast?_eq_some_iff.mp holds.last
  refine ⟨front, rfl, fun member => ?_⟩
  exact (List.nodup_append.mp holds.nodup).2.2 last member last (List.mem_singleton_self _) rfl

theorem Holds.last_mem (holds : Holds next (some last) nodes) : last ∈ nodes :=
  List.mem_of_getLast? holds.last

theorem Holds.congr {other : ν → ν} (holds : Holds next tail nodes)
    (same : ∀ node ∈ nodes, other node = next node) : Holds other tail nodes where
  last := holds.last
  nodup := holds.nodup
  leads last is := by
    subst is
    exact (holds.leads last rfl).restart (same last holds.last_mem) fun node member =>
      same node (List.dropLast_subset _ member)

theorem Holds.leads_before (holds : Holds next (some last) (done ++ rest)) :
    Leads next (before done last) rest :=
  (leads_append.mp (holds.leads last rfl)).2

/-- The node before the rest of a ring is not among the rest but for its end. -/
theorem before_not_mem (holds : Holds next (some last) (done ++ rest)) :
    before done last ∉ rest.dropLast := by
  intro member
  cases back : done.getLast? with
  | none =>
    rw [before, back, Option.getD_none] at member
    rw [List.getLast?_eq_none_iff] at back
    subst back
    obtain ⟨front, shape, fresh⟩ := holds.front
    rw [List.nil_append] at shape
    rw [shape, List.dropLast_concat] at member
    exact fresh member
  | some node =>
    rw [before, back, Option.getD_some] at member
    exact (List.nodup_append.mp holds.nodup).2.2 node (List.mem_of_getLast? back) node
      (List.dropLast_subset _ member) rfl

theorem Holds.behind (holds : Holds next (some last) nodes) (member : node ∈ nodes) :
    ∃ done rest, nodes = done ++ rest ∧ rest ≠ [] ∧ before done last = node := by
  obtain ⟨front, shape, _⟩ := holds.front
  by_cases same : node = last
  · exact ⟨[], nodes, rfl, by simp [shape], same.symm⟩
  · rw [shape] at member
    rcases List.mem_append.mp member with early | single
    · obtain ⟨done, rest, rfl⟩ := List.append_of_mem early
      exact ⟨done ++ [node], rest ++ [last], by simp [shape], by simp, by simp [before]⟩
    · exact absurd (List.mem_singleton.mp single) same

theorem Holds.next_mem (holds : Holds next (some last) nodes) (member : node ∈ nodes) :
    next node ∈ nodes := by
  obtain ⟨done, rest, rfl, some_, rfl⟩ := holds.behind member
  cases rest with
  | nil => exact absurd rfl some_
  | cons first rest =>
    rw [holds.leads_before.1]
    exact List.mem_append_right _ List.mem_cons_self

theorem Leads.comparable {start : ν} {others : List ν} (leads : Leads next start nodes)
    (also : Leads next start others) : nodes <+: others ∨ others <+: nodes := by
  induction nodes generalizing start others with
  | nil => exact Or.inl (List.nil_prefix)
  | cons node nodes ih =>
    cases others with
    | nil => exact Or.inr (List.nil_prefix)
    | cons other others =>
      obtain rfl : node = other := leads.1.symm.trans also.1
      exact (ih leads.2 also.2).imp (List.cons_prefix_cons.mpr ⟨rfl, ·⟩)
        (List.cons_prefix_cons.mpr ⟨rfl, ·⟩)

theorem Holds.unique {others : List ν} (holds : Holds next tail nodes)
    (also : Holds next tail others) : nodes = others := by
  have extends_ : ∀ {nodes others : List ν} {last : ν}, Holds next (some last) nodes →
      Holds next (some last) others → nodes <+: others → nodes = others := by
    rintro nodes others last holds also ⟨more, rfl⟩
    obtain ⟨front, rfl, _⟩ := holds.front
    cases more with
    | nil => exact (List.append_nil _).symm
    | cons node more =>
      have back := also.last
      rw [List.getLast?_append_of_ne_nil _ (List.cons_ne_nil _ _)] at back
      exact absurd rfl ((List.nodup_append.mp also.nodup).2.2 last (by simp) last
        (List.mem_of_getLast? back))
  cases tail with
  | none => rw [holds.of_none, also.of_none]
  | some last =>
    rcases (holds.leads last rfl).comparable (also.leads last rfl) with shorter | longer
    · exact extends_ holds also shorter
    · exact (extends_ also holds longer).symm

variable [DecidableEq ν]

def push (next : ν → ν) (tail : Option ν) (node : ν) : (ν → ν) × Option ν :=
  match tail with
  | some last =>
    let next := Function.update next node (next last)
    (Function.update next last node, some node)
  | none => (Function.update next node node, some node)

theorem Holds.push (holds : Holds next tail nodes) (fresh : node ∉ nodes) :
    Holds (push next tail node).1 (push next tail node).2 (nodes ++ [node]) := by
  have nodup : (nodes ++ [node]).Nodup := by
    refine List.nodup_append.mpr ⟨holds.nodup, List.nodup_singleton _, ?_⟩
    rintro other member _ single rfl
    exact fresh (List.mem_singleton.mp single ▸ member)
  cases tail with
  | none =>
    obtain rfl := holds.of_none
    refine ⟨rfl, nodup, ?_⟩
    rintro _ ⟨⟩
    exact ⟨Function.update_self .., trivial⟩
  | some last =>
    obtain ⟨front, rfl, early⟩ := holds.front
    have other : node ≠ last := by
      rintro rfl
      exact fresh (List.mem_append_right _ (List.mem_singleton_self _))
    refine ⟨by simp [Ring.push], nodup, ?_⟩
    rintro _ ⟨⟩
    refine leads_append.mpr ⟨(holds.leads last rfl).restart ?_ ?_, ?_, trivial⟩
    · simp only [Ring.push]
      rw [Function.update_of_ne other, Function.update_self]
    · intro x member
      rw [List.dropLast_concat] at member
      have first : x ≠ last := fun same => early (same ▸ member)
      have second : x ≠ node := fun same => fresh (List.mem_append_left _ (same ▸ member))
      simp only [Ring.push]
      rw [Function.update_of_ne first, Function.update_of_ne second]
    · simp [before, Ring.push]

/-- Pushing a node that is on the ring cuts off what comes behind it, and if it is
the last, what comes before it. -/
theorem Holds.push_again (holds : Holds next tail nodes) (again : node ∈ nodes) :
    ∃ kept,
      Holds (Ring.push next tail node).1 (Ring.push next tail node).2 kept ∧ kept ⊆ nodes := by
  cases tail with
  | none =>
    obtain rfl := holds.of_none
    exact absurd again List.not_mem_nil
  | some last =>
    by_cases same : node = last
    · subst same
      refine ⟨[node], ⟨rfl, List.nodup_singleton _, ?_⟩, by simpa using again⟩
      rintro _ ⟨⟩
      exact ⟨Function.update_self .., trivial⟩
    · obtain ⟨done, rest, rfl⟩ := List.append_of_mem again
      have parts := List.nodup_append.mp holds.nodup
      have late : last ∈ node :: rest := by
        obtain ⟨front, shape, fresh⟩ := holds.front
        have back := holds.last
        rw [List.getLast?_append_of_ne_nil _ (List.cons_ne_nil _ _)] at back
        exact List.mem_of_getLast? back
      refine ⟨done ++ [node], ⟨by simp [Ring.push], ?_, ?_⟩, ?_⟩
      · refine List.nodup_append.mpr ⟨parts.1, List.nodup_singleton _, ?_⟩
        intro x member y single
        obtain rfl := List.mem_singleton.mp single
        exact parts.2.2 x member y List.mem_cons_self
      · rintro _ ⟨⟩
        have leads := holds.leads last rfl
        rw [List.append_cons] at leads
        refine (leads_append.mp leads).1.restart ?_ ?_
        · simp only [Ring.push]
          rw [Function.update_of_ne same, Function.update_self]
        · intro x member
          rw [List.dropLast_concat] at member
          have first : x ≠ last := parts.2.2 x member last late
          have second : x ≠ node := parts.2.2 x member node List.mem_cons_self
          simp only [Ring.push]
          rw [Function.update_of_ne first, Function.update_of_ne second]
      · intro x member
        rcases List.mem_append.mp member with early | single
        · exact List.mem_append_left _ early
        · obtain rfl := List.mem_singleton.mp single
          exact again

theorem Holds.unlink (holds : Holds next (some last) (done ++ node :: rest)) :
    Holds (Function.update next (before done last) (next node))
      (if rest = [] then done.getLast? else some last) (done ++ rest) := by
  have parts := List.nodup_append.mp holds.nodup
  have leads := leads_append.mp (holds.leads last rfl)
  have outside := before_not_mem holds
  have nodup : (done ++ rest).Nodup := by
    refine List.nodup_append.mpr ⟨parts.1, (List.nodup_cons.mp parts.2.1).2, ?_⟩
    exact fun x early y late => parts.2.2 x early y (List.mem_cons_of_mem _ late)
  split
  · rename_i none
    subst none
    have back : node = last := by simpa using holds.last
    subst back
    rw [List.append_nil] at nodup ⊢
    refine ⟨rfl, nodup, ?_⟩
    intro final ended
    have same : before done node = final := by rw [before, ended, Option.getD_some]
    rw [same]
    refine leads.1.restart (Function.update_self ..) ?_
    intro x member
    refine Function.update_of_ne ?_ _ _
    rintro rfl
    obtain ⟨front, rfl⟩ := List.getLast?_eq_some_iff.mp ended
    rw [List.dropLast_concat] at member
    exact (List.nodup_append.mp parts.1).2.2 x member x (List.mem_singleton_self _) rfl
  · rename_i some_
    have back := holds.last
    rw [List.getLast?_append_of_ne_nil _ (List.cons_ne_nil _ _),
      List.getLast?_cons_of_ne_nil some_] at back
    refine ⟨by rw [List.getLast?_append_of_ne_nil _ some_, back], nodup, ?_⟩
    rintro _ ⟨⟩
    rw [List.dropLast_cons_of_ne_nil some_] at outside
    have late : last ∈ rest := List.mem_of_getLast? back
    refine leads_append.mpr ⟨?_, ?_⟩
    · rcases List.eq_nil_or_concat done with rfl | ⟨front, final, rfl⟩
      · trivial
      · rw [List.concat_eq_append] at parts leads ⊢
        have same : before (front ++ [final]) last = final := by simp [before]
        have fresh := List.nodup_append.mp parts.1
        rw [same]
        refine leads.1.restart (Function.update_of_ne ?_ _ _) ?_
        · exact (parts.2.2 final (by simp) last (List.mem_cons_of_mem _ late)).symm
        · intro x member
          rw [List.dropLast_concat] at member
          exact Function.update_of_ne (fresh.2.2 x member final (by simp)) _ _
    · refine leads.2.2.restart (Function.update_self ..) ?_
      intro x member
      refine Function.update_of_ne ?_ _ _
      rintro rfl
      exact outside (List.mem_cons_of_mem _ member)

end Holds

end Xemmai.Ring
