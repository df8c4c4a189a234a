import Xemmai.Invariant

/-!
# Allocation of slots

The variables of a scope are numbered when its text has ended: the arguments by
their places or, where they are shared, with the other shared ones, and then those
that stay on the stack. The list that they are on is a ring of all of them if no
parameter is repeated.
-/

namespace Xemmai.Parser

set_option autoImplicit false

namespace Scope

/-- The variables that have been numbered: the shared ones from `base` on, the others
below `low`, and these by their places among the parameters or above them. -/
structure Assigned (parameters : List String) (base : Nat) (scope : Scope)
    (done : List String) (low : Nat) : Prop where
  shared : ∀ name ∈ done, scope.shared name = true →
    ∃ i, scope.index name = some i ∧ base ≤ i ∧ i < scope.shareds
  own : ∀ name ∈ done, scope.shared name = false →
    ∃ i, scope.index name = some i ∧ i < low ∧ (name ∉ parameters → parameters.length ≤ i)
  placed : ∀ name ∈ done, scope.shared name = false →
    ∀ i, parameters[i]? = some name → scope.index name = some i
  injective : ∀ first ∈ done, ∀ second ∈ done, scope.shared first = scope.shared second →
    scope.index first = scope.index second → first = second
  bounded : base ≤ scope.shareds

section

variable {parameters done : List String} {base low : Nat} {scope : Scope} {name : String}

theorem Assigned.mono (assigned : scope.Assigned parameters base done low) {high : Nat}
    (higher : low ≤ high) : scope.Assigned parameters base done high where
  shared := assigned.shared
  own name member own := by
    obtain ⟨i, found, bound, above⟩ := assigned.own name member own
    exact ⟨i, found, by omega, above⟩
  placed := assigned.placed
  injective := assigned.injective
  bounded := assigned.bounded

theorem Assigned.nil (parameters : List String) (low : Nat) (bounded : base ≤ scope.shareds) :
    scope.Assigned parameters base [] low where
  shared _ member := absurd member List.not_mem_nil
  own _ member := absurd member List.not_mem_nil
  placed _ member := absurd member List.not_mem_nil
  injective _ member := absurd member List.not_mem_nil
  bounded := bounded

theorem Assigned.congr {other : Scope} (assigned : scope.Assigned parameters base done low)
    (shared : other.shared = scope.shared) (index : other.index = scope.index)
    (shareds : other.shareds = scope.shareds) :
    other.Assigned parameters base done low where
  shared := by
    rw [shared, index, shareds]
    exact assigned.shared
  own := by
    rw [shared, index]
    exact assigned.own
  placed := by
    rw [shared, index]
    exact assigned.placed
  injective := by
    rw [shared, index]
    exact assigned.injective
  bounded := by
    rw [shareds]
    exact assigned.bounded

theorem Assigned.next (assigned : scope.Assigned parameters base done low)
    (fresh : name ∉ done) {i high shareds : Nat}
    (kind : scope.shared name = true ∧ i = scope.shareds ∧ shareds = i + 1 ∧ high = low ∨
      scope.shared name = false ∧ i = low ∧ shareds = scope.shareds ∧ high = low + 1)
    (above : scope.shared name = false → name ∉ parameters → parameters.length ≤ i)
    (place : scope.shared name = false → ∀ k, parameters[k]? = some name → k = i) :
    Assigned parameters base
      { scope with index := Function.update scope.index name (some i), shareds := shareds }
      (done ++ [name]) high := by
  have old : ∀ other ∈ done,
      Function.update scope.index name (some i) other = scope.index other := by
    intro other member
    refine Function.update_of_ne ?_ _ _
    rintro rfl
    exact fresh member
  have new : Function.update scope.index name (some i) name = some i := Function.update_self ..
  have more : scope.shareds ≤ shareds := by
    rcases kind with ⟨_, rfl, rfl, _⟩ | ⟨_, _, rfl, _⟩ <;> omega
  have apart : ∀ other ∈ done, scope.shared other = scope.shared name →
      scope.index other ≠ some i := by
    intro other member same found
    rcases kind with ⟨shared, rfl, _, _⟩ | ⟨own, rfl, _, _⟩
    · obtain ⟨j, number, _, bound⟩ := assigned.shared other member (same.trans shared)
      have := Option.some.inj (number.symm.trans found)
      omega
    · obtain ⟨j, number, bound, _⟩ := assigned.own other member (same.trans own)
      have := Option.some.inj (number.symm.trans found)
      omega
  refine ⟨?_, ?_, ?_, ?_, assigned.bounded.trans more⟩
  · intro other member shared
    rcases List.mem_append.mp member with early | single
    · obtain ⟨j, number, low, bound⟩ := assigned.shared other early shared
      exact ⟨j, (old other early).trans number, low, by simp only; omega⟩
    · obtain rfl := List.mem_singleton.mp single
      have bounded := assigned.bounded
      rcases kind with ⟨_, rfl, rfl, _⟩ | ⟨own, _⟩
      · exact ⟨_, new, bounded, by simp only; omega⟩
      · exact absurd (shared.symm.trans own) (by simp)
  · intro other member own
    rcases List.mem_append.mp member with early | single
    · obtain ⟨j, number, bound, above⟩ := assigned.own other early own
      refine ⟨j, (old other early).trans number, ?_, above⟩
      rcases kind with ⟨_, _, _, rfl⟩ | ⟨_, _, _, rfl⟩ <;> omega
    · obtain rfl := List.mem_singleton.mp single
      rcases kind with ⟨shared, _⟩ | ⟨_, rfl, _, rfl⟩
      · exact absurd (shared.symm.trans own) (by simp)
      · exact ⟨_, new, by omega, above own⟩
  · intro other member own k found
    rcases List.mem_append.mp member with early | single
    · exact (old other early).trans (assigned.placed other early own k found)
    · obtain rfl := List.mem_singleton.mp single
      rw [place own k found]
      exact new
  · intro first one second two same equal
    rcases List.mem_append.mp one with early | single <;>
      rcases List.mem_append.mp two with earlier | last
    · simp only [old first early, old second earlier] at equal
      exact assigned.injective first early second earlier same equal
    · obtain rfl := List.mem_singleton.mp last
      simp only [old first early, new] at equal
      exact absurd equal (apart first early same)
    · obtain rfl := List.mem_singleton.mp single
      simp only [old second earlier, new] at equal
      exact absurd equal.symm (apart second earlier same.symm)
    · rw [List.mem_singleton.mp single, List.mem_singleton.mp last]

theorem number_eq (count i : Nat) (name : String) (scope : Scope) :
    ∃ index shareds, (number count i name scope).2 =
      { scope with index := index, shareds := shareds } := by
  induction count generalizing i name scope with
  | zero => exact ⟨scope.index, scope.shareds, rfl⟩
  | succ count ih =>
    simp only [number]
    split
    · obtain ⟨index, shareds, same⟩ := ih (i + 1) (scope.next name) _
      exact ⟨index, shareds, same⟩
    · obtain ⟨index, shareds, same⟩ := ih (i + 1) (scope.next name) _
      exact ⟨index, shareds, same⟩

theorem number_mem {nodes : List String} {last : String}
    (holds : Ring.Holds scope.next (some last) nodes) (count i : Nat) (member : name ∈ nodes) :
    (number count i name scope).1 ∈ nodes := by
  induction count generalizing i name scope with
  | zero => exact member
  | succ count ih =>
    simp only [number]
    split
    · exact ih (by exact holds) (i + 1) (holds.next_mem member)
    · exact ih (by exact holds) (i + 1) (holds.next_mem member)

theorem number_assigned (nodup : parameters.Nodup) {rest : List String}
    (whole : parameters = done ++ rest)
    (leads : Ring.Leads scope.next name rest)
    (assigned : scope.Assigned parameters base done done.length) :
    (number rest.length done.length name scope).1 = Ring.before rest name ∧
      (number rest.length done.length name scope).2.Assigned parameters base parameters
        parameters.length := by
  induction rest generalizing done name scope with
  | nil =>
    rw [List.append_nil] at whole
    subst whole
    exact ⟨rfl, assigned⟩
  | cons first rest ih =>
    obtain ⟨rfl, leads⟩ := leads
    have fresh : scope.next name ∉ done := by
      intro member
      rw [whole] at nodup
      exact (List.nodup_append.mp nodup).2.2 _ member _ List.mem_cons_self rfl
    have inside : scope.next name ∈ parameters := by
      rw [whole]
      exact List.mem_append_right _ List.mem_cons_self
    have place : ∀ k, parameters[k]? = some (scope.next name) → k = done.length := by
      intro k found
      have here : parameters[done.length]? = some (scope.next name) := by
        rw [whole, List.getElem?_append_right (Nat.le_refl _), Nat.sub_self,
          List.getElem?_cons_zero]
      obtain ⟨bound, _⟩ := List.getElem?_eq_some_iff.mp found
      exact (List.getElem?_inj bound nodup).mp (found.trans here.symm)
    have shape : parameters = (done ++ [scope.next name]) ++ rest := by
      rw [whole, List.append_assoc, List.singleton_append]
    have longer : done.length + 1 = (done ++ [scope.next name]).length := by simp
    rw [Ring.before_cons, List.length_cons, number]
    split
    · rename_i shared
      rw [longer]
      refine ih shape leads ((assigned.next fresh (Or.inl ⟨shared, rfl, rfl, rfl⟩) ?_ ?_).mono
        (by simp))
      · exact fun _ outside => absurd inside outside
      · exact fun own => absurd (shared.symm.trans own) (by simp)
    · rename_i own
      rw [Bool.not_eq_true] at own
      rw [longer]
      have next := assigned.next fresh (Or.inr ⟨own, rfl, rfl, longer.symm⟩)
        (fun _ outside => absurd inside outside) fun _ => place
      exact ih shape leads next

/-- From a variable on the ring, `f_classify` numbers those behind it, and leaves those
that are not shared on the ring. -/
theorem classify_ring (fuel : Nat) {last : String} {kept rest : List String}
    (holds : Ring.Holds scope.next (some last) (kept ++ rest)) (tail : scope.tail = some last)
    (some_ : rest ≠ []) (enough : rest.length ≤ fuel) :
    ∃ after, classify fuel (Ring.before kept last) scope = some after ∧
      after.names = scope.names ∧ after.shared = scope.shared ∧
      after.selfShared = scope.selfShared ∧
      (∃ nodes, Ring.Holds after.next after.tail nodes ∧
        nodes.length + scope.size = kept.length + after.size) ∧
      ∀ parameters base done, scope.Assigned parameters base done scope.size →
        (∀ name ∈ rest, name ∉ done ∧ name ∉ parameters) → parameters.length ≤ scope.size →
        after.Assigned parameters base (done ++ rest) after.size := by
  induction fuel generalizing scope kept rest last with
  | zero => exact absurd (List.length_eq_zero_iff.mp (Nat.le_zero.mp enough)) some_
  | succ fuel ih =>
    cases rest with
    | nil => exact absurd rfl some_
    | cons name rest =>
      have found : scope.next (Ring.before kept last) = name := holds.leads_before.1
      have parts := List.nodup_append.mp holds.nodup
      have single : name ∉ rest := (List.nodup_cons.mp parts.2.1).1
      have back := holds.last
      rw [List.getLast?_append_of_ne_nil _ (List.cons_ne_nil _ _)] at back
      have ends : scope.tail = some name ↔ rest = [] := by
        rw [tail, Option.some.injEq]
        constructor
        · rintro rfl
          by_contra more
          rw [List.getLast?_cons_of_ne_nil more] at back
          exact single (List.mem_of_getLast? back)
        · rintro rfl
          exact (Option.some.inj back).symm
      have fewer : rest.length ≤ fuel := Nat.le_of_succ_le_succ enough
      -- What the others need when this variable has been numbered.
      have others : ∀ {parameters done : List String},
          (∀ other ∈ name :: rest, other ∉ done ∧ other ∉ parameters) →
          ∀ other ∈ rest, other ∉ done ++ [name] ∧ other ∉ parameters := by
        intro parameters done apart other member
        obtain ⟨fresh, outside⟩ := apart other (List.mem_cons_of_mem _ member)
        refine ⟨fun among => ?_, outside⟩
        rcases List.mem_append.mp among with early | same
        · exact fresh early
        · exact single (List.mem_singleton.mp same ▸ member)
      simp only [classify, found]
      split
      · rename_i shared
        have unlinked := holds.unlink
        have assigns : ∀ parameters base done, scope.Assigned parameters base done scope.size →
            (∀ other ∈ name :: rest, other ∉ done ∧ other ∉ parameters) →
            Assigned parameters base { scope with
              index := Function.update scope.index name (some scope.shareds)
              shareds := scope.shareds + 1 } (done ++ [name]) scope.size := by
          intro parameters base done assigned apart
          refine assigned.next (apart name List.mem_cons_self).1
            (Or.inl ⟨shared, rfl, rfl, rfl⟩) ?_ ?_
          · exact fun own => absurd (shared.symm.trans own) (by simp)
          · exact fun own => absurd (shared.symm.trans own) (by simp)
        by_cases over_ : rest = []
        · rw [if_pos (ends.mpr over_)]
          subst over_
          rw [if_pos rfl, List.append_nil] at unlinked
          have tails : (if name = Ring.before kept last then none
              else some (Ring.before kept last)) = kept.getLast? := by
            cases earlier : kept.getLast? with
            | none =>
              have same := tail.symm.trans (ends.mpr rfl)
              rw [Ring.before, earlier, Option.getD_none, if_pos (Option.some.inj same).symm]
            | some node =>
              have apart := parts.2.2 node (List.mem_of_getLast? earlier) name List.mem_cons_self
              rw [Ring.before, earlier, Option.getD_some, if_neg apart.symm]
          refine ⟨_, rfl, rfl, rfl, rfl, ⟨kept, ?_, rfl⟩, ?_⟩
          · simp only [tails]
            exact unlinked
          · intro parameters base done assigned apart _
            exact (assigns parameters base done assigned apart).congr rfl rfl rfl
        · rw [if_neg (fun same => over_ (ends.mp same))]
          rw [if_neg over_] at unlinked
          obtain ⟨after, ran, names, sharing, self, ring, numbers⟩ :=
            @ih { scope with
              index := Function.update scope.index name (some scope.shareds)
              shareds := scope.shareds + 1
              next := Function.update scope.next (Ring.before kept last) (scope.next name) }
              last kept rest unlinked tail over_ fewer
          refine ⟨after, ran, names, sharing, self, ring, ?_⟩
          intro parameters base done assigned apart above
          rw [List.append_cons]
          refine numbers parameters base (done ++ [name]) ?_ (others apart) above
          exact (assigns parameters base done assigned apart).congr rfl rfl rfl
      · rename_i own
        rw [Bool.not_eq_true] at own
        have assigns : ∀ parameters base done, scope.Assigned parameters base done scope.size →
            (∀ other ∈ name :: rest, other ∉ done ∧ other ∉ parameters) →
            parameters.length ≤ scope.size →
            Assigned parameters base { scope with
              index := Function.update scope.index name (some scope.size)
              size := scope.size + 1 } (done ++ [name]) (scope.size + 1) := by
          intro parameters base done assigned apart above
          obtain ⟨fresh, outside⟩ := apart name List.mem_cons_self
          refine (assigned.next fresh (Or.inr ⟨own, rfl, rfl, rfl⟩) (fun _ _ => above) ?_).congr
            rfl rfl rfl
          exact fun _ k found => absurd (List.mem_of_getElem? found) outside
        by_cases over_ : rest = []
        · rw [if_pos (ends.mpr over_)]
          subst over_
          refine ⟨_, rfl, rfl, rfl, rfl, ⟨kept ++ [name], ?_, ?_⟩, ?_⟩
          · rw [tail]
            exact holds
          · simp only [List.length_append, List.length_singleton]
            omega
          · exact assigns
        · rw [if_neg (fun same => over_ (ends.mp same))]
          have moved : Ring.before (kept ++ [name]) last = name := by simp [Ring.before]
          rw [List.append_cons] at holds
          obtain ⟨after, ran, names, sharing, self, ⟨nodes, ring, count⟩, numbers⟩ :=
            @ih { scope with
              index := Function.update scope.index name (some scope.size)
              size := scope.size + 1 } last (kept ++ [name]) rest holds tail over_ fewer
          rw [moved] at ran
          refine ⟨after, ran, names, sharing, self, ⟨nodes, ring, ?_⟩, ?_⟩
          · simp only [List.length_append, List.length_singleton] at count
            omega
          · intro parameters base done assigned apart above
            rw [List.append_cons]
            refine numbers parameters base (done ++ [name]) ?_ (others apart) (by simp only; omega)
            exact assigns parameters base done assigned apart above

end

end Scope

namespace Closing

/-- `v_minimum` of `t_lambda::f_code` -/
def minimum (closing : Closing) : Word :=
  BitVec.ofNat 64 closing.arguments - BitVec.ofNat 64 closing.defaults -
    BitVec.ofNat 64 closing.variadic.toNat

/-- A list with a size is a ring of so many variables. -/
def WellFormed (scope : Scope) : Prop :=
  ∃ nodes, Ring.Holds scope.next scope.tail nodes ∧ nodes.length = scope.size

/-- What is to be said of the slots of a scope: the list is well formed when the loops
over it start and when they have ended, and the numbers are right. -/
structure Allocated (closing : Closing) : Prop where
  before : WellFormed closing.before
  after : WellFormed closing.after
  indexed : ∀ name ∈ closing.after.names, ∃ i, closing.after.index name = some i
  own : ∀ name ∈ closing.after.names, closing.after.shared name = false →
    ∀ i, closing.after.index name = some i → i < closing.after.size
  argument : ∀ i name, closing.parameters[i]? = some name →
    closing.after.shared name = false → closing.after.index name = some i
  local_ : ∀ name ∈ closing.after.names, name ∉ closing.parameters →
    closing.after.shared name = false →
    ∀ i, closing.after.index name = some i → closing.arguments ≤ i
  shared : ∀ name ∈ closing.after.names, closing.after.shared name = true →
    ∀ i, closing.after.index name = some i →
      closing.after.selfShared.toNat ≤ i ∧ i < closing.after.shareds
  injective : ∀ first ∈ closing.after.names, ∀ second ∈ closing.after.names,
    closing.after.shared first = closing.after.shared second →
    closing.after.index first = closing.after.index second → first = second
  minimum : closing.minimum.toNat ≤ closing.arguments

/-- The numbers are right where all the variables have been numbered. -/
theorem allocated_of_assigned {closing : Closing} (base low : Nat)
    (assigned : closing.after.Assigned closing.parameters base closing.after.names low)
    (before : WellFormed closing.before) (after : WellFormed closing.after)
    (within : low ≤ closing.after.size) (self : base = closing.after.selfShared.toNat)
    (named : closing.parameters ⊆ closing.after.names)
    (arguments : closing.arguments = closing.parameters.length)
    (fewer : closing.defaults + closing.variadic.toNat ≤ closing.parameters.length) :
    closing.Allocated where
  before := before
  after := after
  indexed name member := by
    cases kind : closing.after.shared name with
    | true =>
      obtain ⟨i, found, _⟩ := assigned.shared name member kind
      exact ⟨i, found⟩
    | false =>
      obtain ⟨i, found, _⟩ := assigned.own name member kind
      exact ⟨i, found⟩
  own name member kind i found := by
    obtain ⟨j, number, bound, _⟩ := assigned.own name member kind
    obtain rfl := Option.some.inj (found.symm.trans number)
    omega
  argument i name found kind :=
    assigned.placed name (named (List.mem_of_getElem? found)) kind i found
  local_ name member outside kind i found := by
    obtain ⟨j, number, _, above⟩ := assigned.own name member kind
    obtain rfl := Option.some.inj (found.symm.trans number)
    exact arguments ▸ above outside
  shared name member kind i found := by
    obtain ⟨j, number, low, bound⟩ := assigned.shared name member kind
    obtain rfl := Option.some.inj (found.symm.trans number)
    exact ⟨self ▸ low, bound⟩
  injective := assigned.injective
  minimum := by
    have small := closing.minimum.isLt
    rw [arguments]
    by_cases big : closing.parameters.length < 2 ^ 64
    · have same : closing.minimum.toNat =
          closing.parameters.length - closing.defaults - closing.variadic.toNat := by
        simp only [minimum, arguments, BitVec.toNat_sub, BitVec.toNat_ofNat]
        omega
      omega
    · omega

end Closing

namespace Scope

/-- A scope while its text is being parsed; the `marks` are on its list. -/
structure Grown (parameters marks : List String) (scope : Scope) : Prop where
  nodup : scope.names.Nodup
  shareds : scope.shareds = 0
  arguments : (Parser.parameterized parameters).names.length ≤ scope.names.length
  count : scope.size + (Parser.parameterized parameters).names.length =
    parameters.length + scope.names.length
  null : scope.tail = none → scope.names = []
  ring : ∃ nodes, Ring.Holds scope.next scope.tail nodes ∧ nodes ⊆ scope.names ∧
    marks ⊆ nodes ∧ (parameters.Nodup → nodes = scope.names ∧ parameters <+: scope.names)

/-- The scope of a lambda behind its parameters. -/
structure Headed (parameters : List String) (scope : Scope) : Prop where
  nodup : scope.names.Nodup
  named : ∀ name, name ∈ scope.names ↔ name ∈ parameters
  shareds : scope.shareds = 0
  size : scope.size = parameters.length
  null : scope.tail = none → scope.names = []
  ring : ∃ nodes, Ring.Holds scope.next scope.tail nodes ∧ nodes ⊆ scope.names ∧
    (parameters.Nodup → nodes = parameters ∧ scope.names = parameters)

section

variable (scope : Scope) (name : String)

@[simp] theorem names_push : (scope.push name).names = scope.names := rfl

@[simp] theorem shareds_push : (scope.push name).shareds = scope.shareds := rfl

@[simp] theorem size_push : (scope.push name).size = scope.size + 1 := rfl

theorem tail_push : (scope.push name).tail ≠ none := by
  cases found : scope.tail <;> simp [push, Ring.push, found]

@[simp] theorem names_emplace : (scope.emplace name).names =
    if name ∈ scope.names then scope.names else scope.names ++ [name] := by
  unfold emplace
  split <;> rfl

theorem emplace_eq : scope.emplace name = { scope with names := (scope.emplace name).names } := by
  unfold emplace
  split <;> rfl

end

theorem nodup_emplace {scope : Scope} (nodup : scope.names.Nodup) (name : String) :
    (scope.emplace name).names.Nodup := by
  rw [names_emplace]
  split
  · exact nodup
  · rename_i fresh
    refine List.nodup_append.mpr ⟨nodup, List.nodup_singleton _, ?_⟩
    rintro other member _ single rfl
    exact fresh (List.mem_singleton.mp single ▸ member)

theorem mem_emplace {scope : Scope} {name other : String} :
    other ∈ (scope.emplace name).names ↔ other ∈ scope.names ∨ other = name := by
  rw [names_emplace]
  split
  · rename_i member
    exact ⟨Or.inl, Or.rec id fun same => same ▸ member⟩
  · simp

theorem push_ring {scope : Scope} {nodes : List String}
    (holds : Ring.Holds scope.next scope.tail nodes) (name : String) :
    ∃ after, Ring.Holds (scope.push name).next (scope.push name).tail after ∧
      after ⊆ nodes ++ [name] ∧ (name ∉ nodes → after = nodes ++ [name]) := by
  by_cases member : name ∈ nodes
  · obtain ⟨kept, ring, subset⟩ := holds.push_again member
    exact ⟨kept, ring, fun _ among => List.mem_append_left _ (subset among),
      fun fresh => absurd member fresh⟩
  · exact ⟨_, holds.push member, fun _ among => among, fun _ => rfl⟩

theorem Headed.parameter {parameters : List String} {scope : Scope}
    (headed : scope.Headed parameters) (name : String) :
    (scope.parameter name).Headed (parameters ++ [name]) := by
  obtain ⟨nodes, holds, subset, whole⟩ := headed.ring
  obtain ⟨after, ring, fewer, fresh⟩ := push_ring holds name
  have same : scope.parameter name = { scope.push name with names := (scope.emplace name).names } := by
    rw [Scope.parameter, emplace_eq]
    rfl
  have among : ∀ other, other ∈ (scope.emplace name).names ↔ other ∈ parameters ++ [name] := by
    intro other
    rw [mem_emplace, headed.named, List.mem_append, List.mem_singleton]
  rw [same]
  refine ⟨nodup_emplace headed.nodup name, among, headed.shareds, ?_, ?_, ?_⟩
  · simp [headed.size]
  · exact fun null => absurd null (tail_push scope name)
  · refine ⟨after, ring, ?_, ?_⟩
    · intro other member
      refine mem_emplace.mpr ?_
      rcases List.mem_append.mp (fewer member) with early | single
      · exact Or.inl (subset early)
      · exact Or.inr (List.mem_singleton.mp single)
    · intro nodup
      obtain ⟨before, _, apart⟩ := List.nodup_append.mp nodup
      have outside : name ∉ parameters :=
        fun member => apart name member name (List.mem_singleton_self _) rfl
      obtain ⟨rfl, names⟩ := whole before
      refine ⟨fresh outside, ?_⟩
      rw [names_emplace, names, if_neg outside]

theorem headed (parameters : List String) :
    (Parser.parameterized parameters).Headed parameters := by
  induction parameters using List.reverseRecOn with
  | nil =>
    exact ⟨List.nodup_nil, fun _ => Iff.rfl, rfl, rfl, fun _ => rfl, [], Ring.Holds.nil _,
      List.Subset.refl _, fun _ => ⟨rfl, rfl⟩⟩
  | append_singleton parameters name ih =>
    rw [Parser.parameterized, List.foldl_append, List.foldl_cons, List.foldl_nil]
    exact ih.parameter name

theorem Grown.of_headed (parameters : List String) :
    (Parser.parameterized parameters).Grown parameters [] := by
  have headed := headed parameters
  obtain ⟨nodes, holds, subset, whole⟩ := headed.ring
  refine ⟨headed.nodup, headed.shareds, Nat.le_refl _, by rw [headed.size], headed.null,
    nodes, holds, subset, List.nil_subset _, fun nodup => ?_⟩
  obtain ⟨first, names⟩ := whole nodup
  rw [names]
  exact ⟨first, List.prefix_rfl⟩

theorem Grown.variable_ {parameters marks : List String} {scope : Scope}
    (grown : scope.Grown parameters marks) (name : String) :
    (scope.variable_ name).Grown parameters marks := by
  obtain ⟨nodes, holds, subset, old, whole⟩ := grown.ring
  unfold Scope.variable_
  split
  · exact ⟨grown.nodup, grown.shareds, grown.arguments, grown.count, grown.null,
      nodes, holds, subset, old, whole⟩
  · rename_i fresh
    have outside : name ∉ nodes := fun member => fresh (subset member)
    obtain ⟨after, ring, _, grew⟩ := push_ring holds name
    have same : (scope.emplace name).push name =
        { scope.push name with names := scope.names ++ [name] } := by
      rw [emplace, if_neg fresh]
      rfl
    have longer : (scope.names ++ [name]).length = scope.names.length + 1 := by simp
    have count := grown.count
    have arguments := grown.arguments
    obtain rfl := grew outside
    rw [same]
    refine ⟨?_, grown.shareds, by simp only; omega, ?_, ?_, nodes ++ [name], ring, ?_,
      fun _ marked => List.mem_append_left _ (old marked), fun nodup => ?_⟩
    · have nodup := nodup_emplace grown.nodup name
      rwa [names_emplace, if_neg fresh] at nodup
    · simp only [size_push]
      omega
    · exact fun null => absurd null (tail_push scope name)
    · intro other member
      rcases List.mem_append.mp member with early | single
      · exact List.mem_append_left _ (subset early)
      · exact List.mem_append_right _ single
    · obtain ⟨rfl, front⟩ := whole nodup
      exact ⟨rfl, front.trans (List.prefix_append _ _)⟩

theorem Grown.touched {parameters marks : List String} {scope after : Scope}
    (grown : scope.Grown parameters marks) (touched : Parser.Touched scope after) :
    after.Grown parameters marks := by
  cases touched with
  | variable_ name => exact grown.variable_ name
  | share name =>
    have grown := grown.variable_ name
    exact ⟨grown.nodup, grown.shareds, grown.arguments, grown.count, grown.null, grown.ring⟩
  | _ => exact ⟨grown.nodup, grown.shareds, grown.arguments, grown.count, grown.null, grown.ring⟩

theorem Headed.fewer {parameters : List String} {scope : Scope}
    (headed : scope.Headed parameters) (repeated : ¬ parameters.Nodup) :
    scope.names.length < parameters.length := by
  have subset : scope.names ⊆ parameters := fun name => (headed.named name).mp
  have shorter := (headed.nodup.subperm subset).length_le
  refine Nat.lt_of_le_of_ne shorter fun same => repeated ?_
  have perm := (headed.nodup.subperm subset).perm_of_length_le (Nat.le_of_eq same.symm)
  exact perm.nodup_iff.mp headed.nodup

/-- The numbering of a scope comes to its end; where the ring is the parameters and
then the other variables, all of them have been numbered. -/
theorem settles {scope : Scope} {nodes : List String} {last : String} (arguments : Nat)
    (holds : Ring.Holds scope.next (some last) nodes) (tail : scope.tail = some last)
    (subset : nodes ⊆ scope.names) :
    ∃ after, scope.settle arguments last = some after ∧ after.names = scope.names ∧
      after.shared = scope.shared ∧ after.selfShared = scope.selfShared ∧
      ∀ parameters locals base, nodes = parameters ++ locals →
        arguments = parameters.length → scope.size = nodes.length → base ≤ scope.shareds →
        Parser.Closing.WellFormed after ∧
          ∃ low, after.Assigned parameters base nodes low ∧ low ≤ after.size := by
  have shape := number_eq arguments 0 last scope
  have inside := number_mem holds arguments 0 (List.mem_of_getLast? holds.last)
  have numbers : ∀ parameters locals base, nodes = parameters ++ locals →
      arguments = parameters.length → base ≤ scope.shareds →
      (number arguments 0 last scope).1 = Ring.before parameters last ∧
        (number arguments 0 last scope).2.Assigned parameters base parameters
          parameters.length := by
    rintro parameters locals base rfl rfl bounded
    exact number_assigned (List.nodup_append.mp holds.nodup).1 rfl
      (Ring.leads_append.mp (holds.leads last rfl)).1 (Assigned.nil _ _ bounded)
  simp only [settle]
  generalize number arguments 0 last scope = result at shape inside numbers ⊢
  obtain ⟨name, numbered⟩ := result
  obtain ⟨index, shareds, rfl⟩ := shape
  split
  · rename_i ended
    refine ⟨_, rfl, rfl, rfl, rfl, ?_⟩
    rintro parameters locals base rfl rfl size bounded
    obtain ⟨found, assigned⟩ := numbers parameters locals base rfl rfl bounded
    have none : locals = [] := by
      by_contra some_
      have back := holds.last
      rw [List.getLast?_append_of_ne_nil _ some_] at back
      have late := List.mem_of_getLast? back
      cases final : parameters.getLast? with
      | none =>
        rw [List.getLast?_eq_none_iff.mp final] at ended
        exact absurd ended.1 (Nat.lt_irrefl 0)
      | some node =>
        have same : node = last := by
          rw [Ring.before, final, Option.getD_some] at found
          exact found.symm.trans ended.2
        exact (List.nodup_append.mp holds.nodup).2.2 node (List.mem_of_getLast? final) last
          late same
    subst none
    rw [List.append_nil] at holds size ⊢
    exact ⟨⟨parameters, by rw [tail]; exact holds, size.symm⟩, _, assigned, by simp only; omega⟩
  · rename_i more
    obtain ⟨kept, rest, shape, some_, found⟩ := holds.behind inside
    have bound := (holds.nodup.subperm subset).length_le
    have classified := fun kept rest (shape : nodes = kept ++ rest) some_ enough =>
      @classify_ring { scope with index := index, shareds := shareds, size := arguments }
        scope.names.length last kept rest (shape ▸ holds) tail some_ enough
    obtain ⟨after, ran, names, shared, self, _⟩ := classified kept rest shape some_ (by
      rw [shape, List.length_append] at bound
      omega)
    rw [found] at ran
    refine ⟨after, ran, names, shared, self, ?_⟩
    rintro parameters locals base rfl rfl size bounded
    obtain ⟨front, assigned⟩ := numbers parameters locals base rfl rfl bounded
    have some_ : locals ≠ [] := by
      rintro rfl
      rw [List.append_nil] at holds
      refine more ⟨List.length_pos_iff.mpr holds.ne_nil, ?_⟩
      rw [front, Ring.before, holds.last, Option.getD_some]
    rw [List.length_append] at bound
    obtain ⟨also, rerun, _, _, _, ⟨others, ring, count⟩, assigns⟩ :=
      classified parameters locals rfl some_ (by omega)
    rw [← front] at rerun
    obtain rfl := Option.some.inj (ran.symm.trans rerun)
    refine ⟨⟨others, ring, by simp only at count; omega⟩, _,
      assigns parameters base parameters (assigned.congr rfl rfl rfl) ?_ (Nat.le_refl _),
      Nat.le_refl _⟩
    intro name member
    have apart := (List.nodup_append.mp holds.nodup).2.2
    exact ⟨fun early => apart name early name member rfl,
      fun early => apart name early name member rfl⟩

/-- The end of a scope: the loops over its list come to their ends, and its slots are
right if and only if no parameter is repeated. -/
theorem Grown.closes {parameters marks : List String} {scope : Scope} {defaults : Nat}
    {variadic : Bool} (grown : scope.Grown parameters marks)
    (fewer : defaults + variadic.toNat ≤ parameters.length) :
    ∃ closed, scope.close (Parser.parameterized parameters).names.length = some closed ∧
      (Parser.Closing.Allocated ⟨parameters, defaults, variadic,
        (Parser.parameterized parameters).names.length, scope, closed⟩ ↔ parameters.Nodup) := by
  have headed := headed parameters
  obtain ⟨nodes, holds, subset, _, whole⟩ := grown.ring
  have arguments := grown.arguments
  have count := grown.count
  have bound : nodes.length ≤ scope.names.length :=
    (holds.nodup.subperm subset).length_le
  have repeated : ∀ closed, Parser.Closing.Allocated ⟨parameters, defaults, variadic,
      (Parser.parameterized parameters).names.length, scope, closed⟩ → parameters.Nodup := by
    intro closed allocated
    by_contra repeated
    obtain ⟨others, ring, size⟩ := allocated.before
    have size : others.length = scope.size := size
    have fewer := headed.fewer repeated
    rw [holds.unique ring] at bound
    omega
  have shareds : (if scope.selfShared then scope.shareds + 1 else scope.shareds) =
      scope.selfShared.toNat := by
    rw [grown.shareds]
    cases scope.selfShared <;> rfl
  simp only [close, shareds]
  cases tail : scope.tail with
  | none =>
    have names := grown.null tail
    have zero : (Parser.parameterized parameters).names.length = 0 := by
      rw [names, List.length_nil] at arguments
      omega
    have empty : parameters = [] := by
      cases parameters with
      | nil => rfl
      | cons name parameters =>
        have member := (headed.named name).mpr List.mem_cons_self
        rw [List.length_eq_zero_iff.mp zero] at member
        exact absurd member List.not_mem_nil
    subst empty
    refine ⟨_, if_pos zero, repeated _, fun nodup => ?_⟩
    have size : scope.size = 0 := by
      rw [zero, names] at count
      simpa using count
    rw [names, List.length_nil, Nat.le_zero] at bound
    have none : nodes.length = scope.size := by rw [bound, size]
    refine Parser.Closing.allocated_of_assigned scope.selfShared.toNat 0 ?_
      ⟨nodes, holds, none⟩ ⟨nodes, tail ▸ holds, none⟩ (Nat.zero_le _) rfl
      (List.nil_subset _) zero fewer
    simp only [names]
    exact Assigned.nil _ _ (Nat.le_refl _)
  | some last =>
    rw [tail] at holds
    obtain ⟨after, ran, names, shared, self, numbers⟩ := @settles
      { scope with shareds := scope.selfShared.toNat, tail := some last } nodes last
      (Parser.parameterized parameters).names.length holds rfl subset
    refine ⟨after, ran, repeated after, fun nodup => ?_⟩
    obtain ⟨rfl, locals, front⟩ := whole nodup
    obtain ⟨_, _, _, first⟩ := headed.ring
    have fits : (Parser.parameterized parameters).names.length = parameters.length := by
      rw [(first nodup).2]
    have size : scope.size = scope.names.length := by omega
    obtain ⟨formed, low, assigned, within⟩ :=
      numbers parameters locals scope.selfShared.toNat front.symm fits size (Nat.le_refl _)
    refine Parser.Closing.allocated_of_assigned scope.selfShared.toNat low ?_
      ⟨scope.names, by rw [tail]; exact holds, size.symm⟩ formed within ?_ ?_ fits fewer
    · simp only [names]
      exact assigned
    · simp only [self]
    · simp only [names, ← front]
      exact List.subset_append_left _ _

theorem Grown.unmarked {parameters marks fewer : List String} {scope : Scope}
    (grown : scope.Grown parameters marks) (subset : fewer ⊆ marks) :
    scope.Grown parameters fewer := by
  obtain ⟨nodes, holds, named, marked, whole⟩ := grown.ring
  exact ⟨grown.nodup, grown.shareds, grown.arguments, grown.count, grown.null,
    nodes, holds, named, fun _ member => marked (subset member), whole⟩

theorem varies_behind (fuel : Nat) {scope : Scope} {last : String} {done rest : List String}
    (holds : Ring.Holds scope.next (some last) (done ++ rest)) (tail : scope.tail = some last)
    (some_ : rest ≠ []) (enough : rest.length ≤ fuel) :
    ∃ varies, varyBehind fuel (Ring.before done last) scope =
      some { scope with varies := varies } := by
  induction fuel generalizing scope done rest with
  | zero => exact absurd (List.length_eq_zero_iff.mp (Nat.le_zero.mp enough)) some_
  | succ fuel ih =>
    cases rest with
    | nil => exact absurd rfl some_
    | cons name rest =>
      have found : scope.next (Ring.before done last) = name := holds.leads_before.1
      simp only [varyBehind, found]
      split
      · exact ⟨_, rfl⟩
      · rename_i further
        have moved : Ring.before (done ++ [name]) last = name := by simp [Ring.before]
        have more : rest ≠ [] := by
          rintro rfl
          have back : last = name := by simpa using holds.last.symm
          exact further (back ▸ tail)
        rw [List.append_cons] at holds
        have ended := @ih { scope with varies := Function.update scope.varies name true }
          (done ++ [name]) rest holds tail more (Nat.le_of_succ_le_succ enough)
        rw [moved] at ended
        exact ended

/-- `f_vary` comes to its end from a variable that is on the list. -/
theorem Grown.vary {parameters marks : List String} {scope : Scope}
    (grown : scope.Grown parameters marks) (name : Option String)
    (marked : ∀ n ∈ name, n ∈ marks) :
    ∃ after, scope.vary name = some after ∧ after.Grown parameters marks := by
  obtain ⟨nodes, holds, subset, old, _⟩ := grown.ring
  unfold Scope.vary
  split
  · exact ⟨scope, rfl, grown⟩
  · rename_i behind
    cases tail : scope.tail with
    | none =>
      rw [tail] at holds behind
      rw [holds.of_none] at old
      cases name with
      | none => exact absurd rfl behind
      | some n => exact absurd (old (marked n rfl)) List.not_mem_nil
    | some last =>
      rw [tail] at holds
      have member : name.getD last ∈ nodes := by
        cases name with
        | none => exact List.mem_of_getLast? holds.last
        | some n => exact old (marked n rfl)
      have bound := (holds.nodup.subperm subset).length_le
      obtain ⟨done, rest, rfl, some_, found⟩ := holds.behind member
      rw [List.length_append] at bound
      obtain ⟨varies, ended⟩ := varies_behind scope.names.length holds tail some_ (by omega)
      rw [found] at ended
      exact ⟨_, ended, grown.nodup, grown.shareds, grown.arguments, grown.count, grown.null,
        grown.ring⟩

theorem Grown.resolve {parameters marks : List String} {scope : Scope}
    (grown : scope.Grown parameters marks) : scope.resolve.Grown parameters marks :=
  ⟨grown.nodup, grown.shareds, grown.arguments, grown.count, grown.null, grown.ring⟩

theorem Grown.unresolves {parameters marks : List String} {scope : Scope}
    (grown : scope.Grown parameters marks) (names : List String) :
    (names.foldl Scope.unresolve scope).Grown parameters marks := by
  induction names generalizing scope with
  | nil => exact grown
  | cons name names ih => exact ih (grown.touched (.unresolve scope name))

end Scope

namespace Allocation

/-- The scopes around, with their parameters and marks, innermost first. -/
def Around (known : List (List String × List String)) (scopes : List Scope) : Prop :=
  List.Forall₂ (fun known scope => scope.Grown known.1 known.2) known scopes

theorem Around.modify {known : List (List String × List String)} {scopes : List Scope}
    (around : Around known scopes) (outer : Nat) {change : Scope → Scope}
    (keeps : ∀ parameters marks scope, scope.Grown parameters marks →
      (change scope).Grown parameters marks) :
    Around known (scopes.modify outer change) := by
  induction around generalizing outer with
  | nil =>
    rw [List.modify_nil]
    exact .nil
  | cons grown around ih =>
    cases outer with
    | zero => exact .cons (keeps _ _ _ grown) around
    | succ outer => exact .cons grown (ih outer)

/-- The state of the parser: the scopes that are open, and those that have ended. -/
structure Standing (known : List (List String × List String)) (state : Parser.State) :
    Prop where
  around : Around known state.scopes
  closed : ∀ closing ∈ state.closed, closing.Allocated ↔ closing.parameters.Nodup

def mark (tail : Option String) :
    List (List String × List String) → List (List String × List String)
  | [] => []
  | (parameters, marks) :: known => (parameters, tail.toList ++ marks) :: known

theorem Standing.mark {known : List (List String × List String)} {state : Parser.State}
    (standing : Standing known state) :
    Standing (mark (state.scopes.head?.bind Scope.tail) known) state := by
  refine ⟨?_, standing.closed⟩
  have around := standing.around
  generalize state.scopes = scopes at around ⊢
  cases around with
  | nil => exact .nil
  | @cons known scope _ _ grown around =>
    refine .cons ?_ around
    obtain ⟨nodes, holds, named, marked, whole⟩ := grown.ring
    refine ⟨grown.nodup, grown.shareds, grown.arguments, grown.count, grown.null,
      nodes, holds, named, ?_, whole⟩
    intro name member
    rcases List.mem_append.mp member with last | early
    · have last : scope.tail = some name := Option.mem_toList.mp last
      rw [last] at holds
      exact List.mem_of_getLast? holds.last
    · exact marked early

/-- `f_vary` is given what was the tail when the mark was made. -/
theorem Standing.varies {known : List (List String × List String)} {tail : Option String}
    {after : Parser.State} (standing : Standing (Allocation.mark tail known) after) :
    Yields (fun failure => failure ≠ .unbounded) (fun _ final => Standing known final)
      (Parser.vary tail after) := by
  obtain ⟨around, closed⟩ := standing
  rw [Parser.vary_eq]
  cases scopes : after.scopes with
  | nil => exact fun same => by simp at same
  | cons scope outers =>
    rw [scopes] at around
    cases known with
    | nil => cases around
    | cons first known =>
      obtain ⟨parameters, marks⟩ := first
      obtain ⟨grown, others⟩ := List.forall₂_cons.mp around
      obtain ⟨varied, ended, still⟩ := grown.vary tail fun name same =>
        List.mem_append_left _ (Option.mem_toList.mpr same)
      simp only [ended]
      exact ⟨.cons (still.unmarked (List.subset_append_right _ _)) others, closed⟩

theorem Standing.leave {known : List (List String × List String)} {parameters : List String}
    {state : Parser.State} (standing : Standing ((parameters, []) :: known) state)
    {defaults : Nat} {variadic : Bool}
    (fewer : defaults + variadic.toNat ≤ parameters.length) :
    Yields (fun failure => failure ≠ .unbounded) (fun _ final => Standing known final)
      (Parser.leave parameters defaults variadic
        (Parser.parameterized parameters).names.length state) := by
  obtain ⟨around, closed⟩ := standing
  rw [Parser.leave_eq]
  cases scopes : state.scopes with
  | nil => exact fun same => by simp at same
  | cons scope outers =>
    rw [scopes] at around
    obtain ⟨grown, others⟩ := List.forall₂_cons.mp around
    obtain ⟨after, ended, allocated⟩ := grown.resolve.closes fewer
    simp only [ended]
    refine ⟨?_, List.forall_mem_cons.mpr ⟨allocated, closed⟩⟩
    cases others with
    | nil => exact .nil
    | cons outer others => exact .cons (outer.unresolves _) others

def slots : Parser.Invariant where
  Context := List (List String × List String)
  fails failure := failure ≠ .unbounded
  holds := Standing
  tree _ _ := True
  inLambda known parameters := (parameters, []) :: known
  inLoop known := known
  inFinally known := known
  marked known state := mark (state.scopes.head?.bind Scope.tail) known
  thrown _ := by simp
  lexical := by simp
  exhausted := by simp
  lexemes _ _ holds := ⟨holds.around, holds.closed⟩
  touches outer change touched holds :=
    ⟨holds.around.modify outer fun _ _ scope grown => grown.touched (touched scope),
      holds.closed⟩
  literal _ _ := trivial
  self _ _ := trivial
  preserve _ := trivial
  symbolGet _ _ _ _ := trivial
  scopePut _ _ _ := trivial
  operate _ _ := trivial
  if_ _ _ _ := trivial
  break_ _ _ _ := trivial
  continue_ _ _ := trivial
  return_ _ _ _ := trivial
  enterLoop holds := ⟨holds.around, holds.closed⟩
  leaveLoop _ holds := ⟨holds.around, holds.closed⟩
  mark holds := holds.mark
  varies _ holds := holds.varies
  while_ _ _ _ := trivial
  for_ _ _ _ _ _ := trivial
  enterFinally holds := ⟨holds.around, holds.closed⟩
  leaveFinally _ holds := ⟨holds.around, holds.closed⟩
  try_ _ _ _ := trivial
  enterLambda parameters holds :=
    ⟨.cons (.of_headed parameters) holds.around, holds.closed⟩
  leaveLambda _ _ _ _ holds fewer :=
    (holds.leave fewer).mono fun _ _ standing => ⟨standing.around, standing.closed⟩
  lambda _ _ _ _ _ := trivial

/-- In every text that is accepted, the slots of each scope are right if and only if no
parameter of it is repeated; and no loop over variables fails to come to its end. -/
theorem allocated_iff (fuel : Nat) (first : Lexeme) (rest : List Lexeme) :
    Yields (fun failure => failure ≠ .unbounded)
      (fun _ state => ∀ closing ∈ state.closed,
        closing.Allocated ↔ closing.parameters.Nodup)
      (Parser.program fuel (Parser.start first rest)) := by
  have initial : Standing [([], [])] (Parser.start first rest) :=
    ⟨.cons (.of_headed []) .nil, by simp [Parser.start]⟩
  have kept := slots.kept_module [([], [])] fuel (Parser.start first rest) initial
  refine Yields.bind kept ?_
  rintro nodes after ⟨holds, _⟩
  have left := @Standing.leave [] [] after holds 0 false (Nat.le_refl 0)
  exact Yields.bind (left.mono fun _ _ standing => standing.closed) fun _ _ closed => closed

/-- `@(x, y, x) y` is accepted. The second push of `x` links it behind `y` and to
itself, so that `y` has left the list and gets no index. -/
theorem repeated_parameter : ∃ tree scope state,
    Parser.program 4 (Parser.start ⟨.atmark, false, 0⟩
      (Parser.line [.leftParenthesis, .symbol "x", .comma, .symbol "y", .comma, .symbol "x",
        .rightParenthesis, .symbol "y"])) = .ok ((tree, scope), state) ∧
    ∃ closing ∈ state.closed, closing.parameters = ["x", "y", "x"] ∧
      closing.after.index "y" = none ∧ closing.after.size = 3 ∧
      ¬ closing.Allocated := by
  obtain ⟨tree, scope, state, parsed, passed⟩ := Parser.of_passes
    (show Parser.passes (fun _ state => state.closed.any fun closing =>
        closing.parameters = ["x", "y", "x"] ∧ "y" ∈ closing.after.names ∧
          closing.after.index "y" = none ∧ closing.after.size = 3)
      (Parser.program 4 (Parser.start ⟨.atmark, false, 0⟩
        (Parser.line [.leftParenthesis, .symbol "x", .comma, .symbol "y", .comma, .symbol "x",
          .rightParenthesis, .symbol "y"]))) = true by decide +kernel)
  obtain ⟨closing, member, passed⟩ := List.any_eq_true.mp passed
  obtain ⟨parameters, named, index, size⟩ := of_decide_eq_true passed
  refine ⟨tree, scope, state, parsed, closing, member, parameters, index, size, ?_⟩
  intro allocated
  obtain ⟨i, found⟩ := allocated.indexed "y" named
  rw [index] at found
  cases found

end Allocation

end Xemmai.Parser
