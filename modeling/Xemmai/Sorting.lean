import Mathlib.Data.List.Sort
import Xemmai.Insertion

/-!
# Sorting a list

The elements are taken out of the list while they are sorted, so that what the
comparator does to the list is done to an empty one. They come back when the sort
returns; where the comparator throws nothing puts them back.
-/

namespace Xemmai

set_option autoImplicit false

variable {α σ ε : Type}

/-- The comparisons that an algorithm makes, each with what it does for either
answer, and the order it leaves the range in. -/
inductive Sorting (α : Type)
  | done (result : List α)
  | compare (first second : α) (next : Bool → Sorting α)

namespace Sorting

/-- The algorithm with a comparator that has a state and may throw. -/
def run (less : σ → α → α → Except ε Bool × σ) : Sorting α → σ → Except ε (List α) × σ
  | .done result, state => (.ok result, state)
  | .compare first second next, state =>
    match less state first second with
    | (.error error, state) => (.error error, state)
    | (.ok answer, state) => run less (next answer) state

inductive Leaves : Sorting α → List α → Prop
  | done (result : List α) : Leaves (.done result) result
  | compare {first second : α} {next : Bool → Sorting α} (answer : Bool) {result : List α}
      (leaves : Leaves (next answer) result) : Leaves (.compare first second next) result

def answered (order : α → α → Prop) [DecidableRel order] : Sorting α → List α
  | .done result => result
  | .compare first second next => answered order (next (decide (order first second)))

theorem leaves_of_run {less : σ → α → α → Except ε Bool × σ} {sorting : Sorting α}
    {state after : σ} {result : List α} (ran : sorting.run less state = (.ok result, after)) :
    Leaves sorting result := by
  induction sorting generalizing state with
  | done items =>
    obtain ⟨same, -⟩ := Prod.mk.inj ran
    rw [Except.ok.inj same]
    exact .done result
  | compare first second next step =>
    simp only [run] at ran
    split at ran
    · cases ran
    case h_2 answer state _ => exact .compare answer (step answer ran)

/-- A comparator that answers as an order does leaves what the order leaves. -/
theorem answered_of_run {less : σ → α → α → Except ε Bool × σ} {order : α → α → Prop}
    [DecidableRel order]
    (answers : ∀ state first second, (less state first second).1 = .ok (decide (order first second)))
    {sorting : Sorting α} {state after : σ} {result : List α}
    (ran : sorting.run less state = (.ok result, after)) : result = sorting.answered order := by
  induction sorting generalizing state with
  | done items =>
    obtain ⟨same, -⟩ := Prod.mk.inj ran
    exact (Except.ok.inj same).symm
  | compare first second next step =>
    have answer := answers state first second
    simp only [run] at ran
    split at ran
    · cases ran
    case h_2 given state is =>
      rw [is] at answer
      obtain rfl := Except.ok.inj answer
      exact step _ ran

end Sorting

/-- `std::sort` permutes its range, and sorts it for a strict weak order. -/
structure Sorts (algorithm : List α → Sorting α) : Prop where
  permutes : ∀ items result, Sorting.Leaves (algorithm items) result → result.Perm items
  sorts : ∀ items (order : α → α → Prop) [DecidableRel order] [IsStrictWeakOrder α order],
    ((algorithm items).answered order).Pairwise fun first second => ¬order second first

namespace Sorting

def place (first : α) (next : List α → Sorting α) : List α → Sorting α
  | [] => next [first]
  | second :: behind =>
    .compare second first fun answer =>
      if answer then place first (fun items => next (second :: items)) behind
      else next (first :: second :: behind)

def byInsertion (next : List α → Sorting α) : List α → Sorting α
  | [] => next []
  | first :: behind => byInsertion (fun items => place first next items) behind

theorem leaves_place {first : α} {next : List α → Sorting α} {items result : List α}
    (leaves : Leaves (place first next items) result) :
    ∃ placed, placed.Perm (first :: items) ∧ Leaves (next placed) result := by
  induction items generalizing next with
  | nil => exact ⟨[first], .refl _, leaves⟩
  | cons second behind step =>
    cases leaves with
    | compare answer leaves =>
      cases answer with
      | false => exact ⟨first :: second :: behind, .refl _, leaves⟩
      | true =>
        obtain ⟨placed, permuted, left⟩ := step leaves
        exact ⟨second :: placed, (permuted.cons second).trans (.swap first second behind), left⟩

theorem leaves_byInsertion {next : List α → Sorting α} {items result : List α}
    (leaves : Leaves (byInsertion next items) result) :
    ∃ sorted, sorted.Perm items ∧ Leaves (next sorted) result := by
  induction items generalizing next with
  | nil => exact ⟨[], .refl _, leaves⟩
  | cons first behind step =>
    obtain ⟨sorted, permuted, placing⟩ := step leaves
    obtain ⟨placed, again, left⟩ := leaves_place placing
    exact ⟨placed, again.trans (permuted.cons first), left⟩

theorem answered_place (order : α → α → Prop) [DecidableRel order] (first : α)
    (next : List α → Sorting α) (items : List α) :
    (place first next items).answered order =
      (next (items.orderedInsert (fun first second => ¬order second first) first)).answered
        order := by
  induction items generalizing next with
  | nil => rfl
  | cons second behind step =>
    simp only [place, answered, List.orderedInsert_cons, decide_eq_true_eq]
    by_cases less : order second first
    · rw [if_pos less, if_neg (not_not.mpr less), step]
    · rw [if_neg less, if_pos less]

theorem answered_byInsertion (order : α → α → Prop) [DecidableRel order]
    (next : List α → Sorting α) (items : List α) :
    (byInsertion next items).answered order =
      (next (items.insertionSort fun first second => ¬order second first)).answered order := by
  induction items generalizing next with
  | nil => rfl
  | cons first behind step =>
    rw [byInsertion, step, answered_place, List.insertionSort_cons]

theorem pairwise_insertion (order : α → α → Prop) [DecidableRel order]
    [strict : IsStrictWeakOrder α order] (items : List α) :
    (items.insertionSort fun first second => ¬order second first).Pairwise
      fun first second => ¬order second first := by
  have total : Std.Total fun first second : α => ¬order second first :=
    ⟨fun first second => not_and_or.mp fun both =>
      irrefl (r := order) first (IsTrans.trans _ _ _ both.2 both.1)⟩
  have transitive : IsTrans α fun first second => ¬order second first := by
    refine ⟨fun first second third below above reached => ?_⟩
    by_cases less : order first second
    · exact above (IsTrans.trans _ _ _ reached less)
    · by_cases more : order second third
      · exact below (IsTrans.trans _ _ _ more reached)
      · exact (strict.incomp_trans first second third ⟨less, below⟩ ⟨more, above⟩).2 reached
  exact List.pairwise_insertionSort _ items

end Sorting

theorem sorts_byInsertion : Sorts (Sorting.byInsertion (α := α) .done) where
  permutes := by
    intro items result leaves
    obtain ⟨sorted, permuted, left⟩ := Sorting.leaves_byInsertion leaves
    cases left
    exact permuted
  sorts := by
    intro items order _ _
    rw [Sorting.answered_byInsertion]
    exact Sorting.pairwise_insertion order items

namespace TList

def detach (list : TList α) : TList α :=
  { list with tuple := none, head := 0, size := 0, grow := 0, shrink := 0 }

/-- `std::rotate(p, p + head, p + n)` -/
def rotate (entries : Entries α) (head n : Nat) : Entries α :=
  fun slot => if slot < n then entries (wrap n (head + slot)) else entries slot

def straightened (list : TList α) (tuple : Tuple α) : Entries α × Nat :=
  if list.head + list.size > tuple.size then (rotate tuple.entries list.head tuple.size, 0)
  else (tuple.entries, list.head)

/-- The range `[p, p + size)` with what a sort has left in it. -/
def overwrite (entries : Entries α) (p size : Nat) (result : List α) : Entries α :=
  fun slot =>
    if p ≤ slot ∧ slot < p + size then result[slot - p]?.getD (entries slot) else entries slot

/-- `sort`, with a comparator that does not touch the list. -/
def sort (algorithm : List α → Sorting α) (less : σ → α → α → Except ε Bool × σ) (state : σ)
    (list : TList α) : Except ε Unit × σ × TList α :=
  match list.tuple with
  | none => (.ok (), state, list.detach)
  | some tuple =>
    let (entries, p) := list.straightened tuple
    match (algorithm ((List.range list.size).map fun i => entries (p + i))).run less state with
    | (.error error, state) => (.error error, state, list.detach)
    | (.ok result, state) =>
      (.ok (), state, { list with
        tuple := some { tuple with entries := overwrite entries p list.size result }
        head := p })

section

variable {null : α} {list : TList α} {tuple : Tuple α} {items : List α}

theorem straightened_window (window : Window null tuple.entries tuple.size list.head items)
    (size : items.length = list.size) :
    Window null (list.straightened tuple).1 tuple.size (list.straightened tuple).2 items ∧
      (list.straightened tuple).2 + list.size ≤ tuple.size := by
  have start := window.start
  have fits := window.fits
  simp only [straightened]
  split
  case isTrue wraps =>
    refine ⟨⟨by simp only; omega, fits, ?_⟩, by simp only; omega⟩
    intro offset inside
    have same : wrap tuple.size (0 + offset) = offset := by
      rw [wrap, if_pos (by omega), Nat.zero_add]
    simp only [rotate]
    rw [same, if_pos inside]
    exact window.reads offset inside
  case isFalse straight => exact ⟨window, by simp only; omega⟩

theorem map_entries {entries : Entries α} {n p : Nat} (window : Window null entries n p items)
    (fits : p + items.length ≤ n) :
    (List.range items.length).map (fun i => entries (p + i)) = items := by
  apply List.ext_getElem
  · simp
  · intro i inside within
    rw [List.getElem_map, List.getElem_range, ← window.item within, wrap, if_pos (by omega)]

theorem overwrite_window {entries : Entries α} {n p : Nat} {result : List α}
    (window : Window null entries n p items) (fits : p + items.length ≤ n)
    (same : result.length = items.length) :
    Window null (overwrite entries p items.length result) n p result := by
  refine ⟨window.start, by rw [same]; exact window.fits, ?_⟩
  intro offset inside
  have start := window.start
  have old := window.reads offset inside
  simp only [overwrite]
  rcases Nat.lt_or_ge offset items.length with before | after
  · have slot : wrap n (p + offset) = p + offset := by rw [wrap, if_pos (by omega)]
    rw [slot, if_pos (by omega), Nat.add_sub_cancel_left,
      List.getElem?_eq_getElem (by omega)]
    rfl
  · have outside : ¬(p ≤ wrap n (p + offset) ∧ wrap n (p + offset) < p + items.length) := by
      simp only [wrap]
      split <;> omega
    rw [if_neg outside, old, List.getElem?_eq_none after, List.getElem?_eq_none (by omega)]

theorem Holds.detach (null : α) (list : TList α) : Holds null list.detach [] where
  size := rfl
  shrink := .inl rfl
  tuple := ⟨rfl, rfl, rfl⟩

/-- The list with a result of the algorithm in the place of its elements. -/
def settled (list : TList α) (tuple : Tuple α) (result : List α) : TList α :=
  { list with
    tuple := some { tuple with
      entries := overwrite (list.straightened tuple).1 (list.straightened tuple).2 list.size
        result }
    head := (list.straightened tuple).2 }

theorem Holds.settled (holds : Holds null list items) (here : list.tuple = some tuple)
    {result : List α} (same : result.length = items.length) :
    Holds null (list.settled tuple result) result := by
  obtain ⟨grow, window⟩ := holds.window here
  obtain ⟨straight, fits⟩ := straightened_window window holds.size.symm
  refine ⟨holds.size.trans same.symm, holds.shrink, grow, ?_⟩
  have over_ := overwrite_window straight (by rw [← holds.size]; exact fits) same
  rw [← holds.size] at over_
  exact over_

theorem Holds.sort_eq (holds : Holds null list items) (here : list.tuple = some tuple)
    (algorithm : List α → Sorting α) (less : σ → α → α → Except ε Bool × σ) (state : σ) :
    list.sort algorithm less state =
      match (algorithm items).run less state with
      | (.error error, after) => (.error error, after, list.detach)
      | (.ok result, after) => (.ok (), after, list.settled tuple result) := by
  obtain ⟨-, window⟩ := holds.window here
  obtain ⟨straight, fits⟩ := straightened_window window holds.size.symm
  have read := map_entries straight (by rw [← holds.size]; exact fits)
  rw [← holds.size] at read
  simp only [TList.sort, here, read]
  rfl

end

/-- The lists that calls on them lead to. A sort that returns has put the elements
back; while it runs, and where it throws, the list is without them. -/
inductive Reachable (null : α) : TList α → Prop
  | start : Reachable null TList.start
  | call {list : TList α} (reachable : Reachable null list) (memory : Entries α)
      (operation : Operation α) : Reachable null (list.call null memory operation).2
  | insert {list : TList α} (reachable : Reachable null list) (memory : Entries α) (index : Int)
      (value : α) : Reachable null (list.insert null memory index value).2
  | detach {list : TList α} (reachable : Reachable null list) : Reachable null list.detach
  | settled {list : TList α} (reachable : Reachable null list) {tuple : Tuple α}
      (here : list.tuple = some tuple) {result : List α} (size : result.length = list.size) :
      Reachable null (list.settled tuple result)

variable {null : α} {list : TList α} {items : List α}

theorem Reachable.holds (reachable : Reachable null list) :
    ∃ items, Holds null list items := by
  induction reachable with
  | start => exact ⟨[], Holds.start null⟩
  | call _ memory operation before =>
    obtain ⟨items, holds⟩ := before
    exact ⟨_, (holds.call memory operation).2.1⟩
  | insert _ memory index value before =>
    obtain ⟨items, holds⟩ := before
    cases valid : insertion items index with
    | none =>
      rw [holds.insert_outside memory valid]
      exact ⟨items, holds⟩
    | some within => exact ⟨_, (holds.insert_inside memory valid value).2⟩
  | detach => exact ⟨[], Holds.detach null _⟩
  | settled _ here size before =>
    obtain ⟨items, holds⟩ := before
    exact ⟨_, holds.settled here (size.trans holds.size)⟩

theorem Reachable.calls (reachable : Reachable null list)
    (operations : List (Operation α × Entries α)) :
    Reachable null (list.calls null operations).2 := by
  induction operations generalizing list with
  | nil => exact reachable
  | cons operation behind step => exact step (reachable.call operation.2 operation.1)

theorem Invariant.unique {others : List α} (invariant : list.Invariant null items)
    (other : list.Invariant null others) : items = others := by
  obtain ⟨size, -, fields⟩ := invariant
  obtain ⟨size', -, fields'⟩ := other
  cases here : list.tuple with
  | none =>
    rw [here] at fields
    have empty : items = [] := List.eq_nil_of_length_eq_zero (by omega)
    have empty' : others = [] := List.eq_nil_of_length_eq_zero (by omega)
    rw [empty, empty']
  | some tuple =>
    rw [here] at fields fields'
    apply List.ext_getElem (by omega)
    intro index within within'
    exact (fields.2.2.2.1 index within).symm.trans (fields'.2.2.2.1 index within')

theorem Reachable.holds_of_invariant (reachable : Reachable null list)
    (invariant : list.Invariant null items) : Holds null list items := by
  obtain ⟨others, holds⟩ := reachable.holds
  rwa [invariant.unique holds.invariant]

/-- An insertion puts the value at its position, or throws and leaves the list as it is. -/
def Inserts (null : α) (memory : Entries α) (list : TList α) (items : List α) (index : Int)
    (value : α) : Prop :=
  match insertion items index with
  | none => list.insert null memory index value = (.error .outOfRange, list)
  | some within =>
    (list.insert null memory index value).1 = .ok () ∧
      (list.insert null memory index value).2.Invariant null (items.insertIdx within value)

/-- Insertion is right unless the first element is addressed by a negative index while
the window starts at the first slot, or would once the full list is given room; there
it is right for a value that is the first element. -/
theorem inserts_iff (reachable : Reachable null list) (invariant : list.Invariant null items)
    (memory : Entries α) (index : Int) (value : α) :
    Inserts null memory list items index value ↔
      ¬list.Displaced index ∨ items.head? = some value := by
  have holds := reachable.holds_of_invariant invariant
  unfold Inserts
  cases valid : insertion items index with
  | none =>
    refine iff_of_true (holds.insert_outside memory valid value) (Or.inl ?_)
    rintro ⟨negative, reached, -⟩
    have size := holds.size
    simp only [insertion, position] at valid
    split_ifs at valid
    omega
  | some within =>
    obtain ⟨returns, after⟩ := holds.insert_inside memory valid value
    simp only [returns, true_and]
    by_cases displaced : list.Displaced index
    · have front : within = 0 := by
        have size := holds.size
        obtain ⟨negative, reached, -⟩ := displaced
        simp only [insertion, position] at valid
        split_ifs at valid
        all_goals
          cases valid
          omega
      rw [if_pos displaced] at after
      simp only [displaced, not_true_eq_false, false_or, front, List.insertIdx_zero]
      have some_ : 0 < items.length := by
        have size := holds.size
        obtain ⟨negative, reached, -⟩ := displaced
        omega
      obtain ⟨first, behind, rfl⟩ := List.exists_cons_of_length_pos some_
      rw [List.insertIdx_succ_cons, List.insertIdx_zero] at after
      constructor
      · intro right
        have same := right.unique after.invariant
        rw [List.head?_cons, (List.cons.inj same).1]
      · intro same
        obtain rfl := Option.some.inj same
        exact after.invariant
    · rw [if_neg displaced] at after
      exact iff_of_true after.invariant (Or.inl displaced)

def pushed : TList Int :=
  (TList.start.calls 0 [(.push 1, fun _ => 0), (.push 2, fun _ => 0), (.push 3, fun _ => 0)]).2

theorem holds_pushed : Holds (0 : Int) pushed [1, 2, 3] :=
  ((Holds.start 0).calls _).2

theorem reachable_pushed : Reachable (0 : Int) pushed :=
  Reachable.start.calls _

theorem inserts_pushed :
    Reachable (0 : Int) pushed ∧ pushed.Invariant 0 [1, 2, 3] ∧
      Inserts (0 : Int) (fun _ => 0) pushed [1, 2, 3] (-2) 9 := by
  refine ⟨reachable_pushed, holds_pushed.invariant, ?_⟩
  apply (inserts_iff reachable_pushed holds_pushed.invariant (fun _ => 0) (-2) 9).2
  left
  rintro ⟨-, front, -⟩
  have size := holds_pushed.size
  simp only [List.length_cons, List.length_nil] at size
  omega

/-- Inserting before the first of three elements by its negative index. -/
theorem insert_front_displaced :
    Reachable (0 : Int) pushed ∧ pushed.Invariant 0 [1, 2, 3] ∧
      ¬Inserts (0 : Int) (fun _ => 0) pushed [1, 2, 3] (-3) 9 := by
  refine ⟨reachable_pushed, holds_pushed.invariant, ?_⟩
  intro right
  have valid : insertion [(1 : Int), 2, 3] (-3) = some 0 := rfl
  obtain ⟨-, after⟩ := holds_pushed.insert_inside (fun _ => 0) valid 9
  have displaced : pushed.Displaced (-3) := ⟨by decide, rfl, Or.inl rfl⟩
  rw [if_pos displaced] at after
  simp only [Inserts, valid] at right
  have same := right.2.unique after.invariant
  exact absurd same (by decide)

/-- A sort leaves the elements in the list, in order where it returns. -/
def KeepsElements (null : α) (algorithm : List α → Sorting α)
    (less : σ → α → α → Except ε Bool × σ) (state : σ) (list : TList α) (items : List α) :
    Prop :=
  ∃ left, left.Perm items ∧
    (list.sort algorithm less state).2.2.Invariant null left ∧
    ((list.sort algorithm less state).1 = .ok () →
      ∀ (order : α → α → Prop) [DecidableRel order] [IsStrictWeakOrder α order],
        (∀ state first second, (less state first second).1 = .ok (decide (order first second))) →
        left.Pairwise fun first second => ¬order second first)

/-- A sort keeps the elements if and only if there are none or the comparator throws at
none of the comparisons that are made. -/
theorem keeps_elements_iff (reachable : Reachable null list)
    (invariant : list.Invariant null items) {algorithm : List α → Sorting α}
    (sorts : Sorts algorithm) (less : σ → α → α → Except ε Bool × σ) (state : σ) :
    KeepsElements null algorithm less state list items ↔
      items = [] ∨ ∀ error, ((algorithm items).run less state).1 ≠ .error error := by
  have holds := reachable.holds_of_invariant invariant
  cases here : list.tuple with
  | none =>
    have empty : items = [] := by
      have kept := holds.tuple
      rw [here] at kept
      exact List.eq_nil_of_length_eq_zero (by rw [← holds.size]; exact kept.1)
    subst empty
    refine iff_of_true ⟨[], .refl _, ?_, fun _ _ _ _ _ => List.Pairwise.nil⟩ (Or.inl rfl)
    simp only [TList.sort, here]
    exact (Holds.detach null list).invariant
  | some tuple =>
    unfold KeepsElements
    rw [holds.sort_eq here algorithm less state]
    cases ran : (algorithm items).run less state with
    | mk outcome after =>
      cases outcome with
      | ok result =>
        have permuted := sorts.permutes items result (Sorting.leaves_of_run ran)
        refine iff_of_true ⟨result, permuted, ?_, ?_⟩ (Or.inr nofun)
        · exact (holds.settled here permuted.length_eq).invariant
        · intro _ order _ _ answers
          rw [Sorting.answered_of_run answers ran]
          exact sorts.sorts items order
      | error error =>
        have empty := (Holds.detach null list).invariant
        constructor
        · rintro ⟨left, permuted, left_, -⟩
          obtain rfl := left_.unique empty
          exact Or.inl (List.nil_perm.mp permuted)
        · rintro (rfl | never)
          · exact ⟨[], .refl _, empty, nofun⟩
          · exact absurd rfl (never error)

theorem keeps_elements_pushed :
    Reachable (0 : Int) pushed ∧ pushed.Invariant 0 [1, 2, 3] ∧
      Sorts (Sorting.byInsertion (α := Int) .done) ∧
      KeepsElements (ε := Unit) (0 : Int) (Sorting.byInsertion .done)
        (fun (_ : Unit) first second => (.ok (decide (first > second)), ())) () pushed
        [1, 2, 3] := by
  refine ⟨reachable_pushed, holds_pushed.invariant, sorts_byInsertion, ?_⟩
  apply (keeps_elements_iff reachable_pushed holds_pushed.invariant sorts_byInsertion _ ()).2
  right
  intro error
  have ran : ((Sorting.byInsertion .done [(1 : Int), 2, 3]).run (ε := Unit)
      (fun (_ : Unit) first second => (.ok (decide (first > second)), ())) ()).1 =
      .ok [3, 2, 1] := by decide
  rw [ran]
  nofun

/-- A comparator that throws at once leaves the list empty. -/
theorem sort_thrown_empties :
    Reachable (0 : Int) pushed ∧ pushed.Invariant 0 [1, 2, 3] ∧
      Sorts (Sorting.byInsertion (α := Int) .done) ∧
      ¬KeepsElements (0 : Int) (Sorting.byInsertion .done)
        (fun (_ : Unit) _ _ => (.error (), ())) () pushed [1, 2, 3] := by
  refine ⟨reachable_pushed, holds_pushed.invariant, sorts_byInsertion, ?_⟩
  rintro ⟨left, permuted, kept, -⟩
  obtain ⟨tuple, here⟩ := holds_pushed.filled (by decide)
  rw [holds_pushed.sort_eq here] at kept
  have empty : left = [] := kept.unique (Holds.detach 0 pushed).invariant
  rw [empty] at permuted
  exact absurd permuted.length_eq (by decide)

end TList

end Xemmai
