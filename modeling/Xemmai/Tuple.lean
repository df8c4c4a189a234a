import Mathlib.Data.List.Forall2
import Xemmai.Value

/-!
# The tuple object

`f_compare` walks two tuples to the first elements that are not equal; where there
are none the shorter tuple is less. `f_equals` walks them on its own, and both take
a tuple for itself without a look at its elements. The order of the elements gives
a lexicographic order of the tuples.
-/

namespace Xemmai.TTuple

set_option autoImplicit false

variable {ι α : Type}

/-- What stands at `a_stack[2]`. -/
inductive Argument (ι : Type)
  | tuple (other : ι)
  | other
  deriving DecidableEq, Repr

/-- `f_check<t_tuple>(a_stack[2], L"argument0")` -/
inductive Error
  | argumentMustBeTuple
  deriving DecidableEq, Repr

section

variable (equals less : α → α → Bool) (hash : α → Word)

/-- `f_hash` of the elements. -/
def hashOf (items : List α) : Word := items.foldl (fun n x => n ^^^ hash x) 0

/-- The loop of `f_compare` from an index on. -/
def compareFrom (xs ys : List α) (i : Nat) : Int :=
  if within : i < xs.length then
    if beyond : i ≥ ys.length then 1
    else
      have inside : i < ys.length := Nat.lt_of_not_ge beyond
      let x := xs[i]
      let y := ys[i]
      if !equals x y then (if less x y then -1 else 1) else compareFrom xs ys (i + 1)
  else if i < ys.length then -1 else 0
termination_by xs.length - i

/-- The loop of `f_equals` from an index on; the tuples have the same size. -/
def equalsFrom (xs ys : List α) (same : xs.length = ys.length) (i : Nat) : Bool :=
  if within : i < xs.length then
    have inside : i < ys.length := same ▸ within
    if !equals xs[i] ys[i] then false else equalsFrom xs ys same (i + 1)
  else true
termination_by xs.length - i

variable [DecidableEq ι] (entries : ι → List α)

/-- `f_hash` -/
def doHash (this : ι) : Word := hashOf hash (entries this)

def compare (this other : ι) : Int :=
  if this = other then 0 else compareFrom equals less (entries this) (entries other) 0

/-- `f_equals` -/
def doEquals (this : ι) : Argument ι → Bool
  | .other => false
  | .tuple other =>
    if this = other then true
    else if same : (entries this).length = (entries other).length then
      equalsFrom equals (entries this) (entries other) same 0
    else false

def doNotEquals (this : ι) (argument : Argument ι) : Bool :=
  !doEquals equals entries this argument

/-- The comparisons differ in the test of the result of `f_compare`. -/
def doCompare (test : Int → Bool) (this : ι) : Argument ι → Except Error Bool
  | .other => .error .argumentMustBeTuple
  | .tuple other => .ok (test (compare equals less entries this other))

def doLess : ι → Argument ι → Except Error Bool :=
  doCompare equals less entries fun n => n < 0

def doLessEqual : ι → Argument ι → Except Error Bool :=
  doCompare equals less entries fun n => n ≤ 0

def doGreater : ι → Argument ι → Except Error Bool :=
  doCompare equals less entries fun n => n > 0

def doGreaterEqual : ι → Argument ι → Except Error Bool :=
  doCompare equals less entries fun n => n ≥ 0

end

/-- The elements' equality is an equivalence coherent with their hash, and their
order is strict, total and coherent with their equality. -/
structure Elements (equals less : α → α → Bool) (hash : α → Word) : Prop where
  refl : ∀ x, equals x x = true
  symm : ∀ x y, equals x y = true → equals y x = true
  trans : ∀ x y z, equals x y = true → equals y z = true → equals x z = true
  hashes : ∀ x y, equals x y = true → hash x = hash y
  irrefl : ∀ x y, equals x y = true → less x y = false
  lessTrans : ∀ x y z, less x y = true → less y z = true → less x z = true
  total : ∀ x y, less x y = true ∨ equals x y = true ∨ less y x = true

/-- A walk finds a smaller element first, or no more elements. -/
inductive Precedes (equals less : α → α → Bool) : List α → List α → Prop
  | ends (y : α) (ys : List α) : Precedes equals less [] (y :: ys)
  | smaller {x y : α} (less_ : less x y = true) (xs ys : List α) :
      Precedes equals less (x :: xs) (y :: ys)
  | next {x y : α} (same : equals x y = true) {xs ys : List α}
      (precedes : Precedes equals less xs ys) : Precedes equals less (x :: xs) (y :: ys)

def Same (equals : α → α → Bool) : List α → List α → Prop :=
  List.Forall₂ fun x y => equals x y = true

/-- The first two branches of the loop of `f_compare`. -/
def order (equals less : α → α → Bool) (x y : α) : Ordering :=
  if equals x y then .eq else if less x y then .lt else .gt

def sign : Ordering → Int
  | .lt => -1
  | .eq => 0
  | .gt => 1

section

variable {equals less : α → α → Bool} {hash : α → Word}

theorem compare_from_eq (xs ys : List α) (i : Nat) :
    compareFrom equals less xs ys i =
      sign ((xs.drop i).compareLex (order equals less) (ys.drop i)) := by
  fun_induction compareFrom equals less xs ys i with
  | case1 i within beyond =>
    rw [List.drop_eq_getElem_cons within, List.drop_eq_nil_of_le beyond]
    rfl
  | case2 i within beyond inside x y differ smaller =>
    rw [List.drop_eq_getElem_cons within, List.drop_eq_getElem_cons inside,
      List.compareLex_cons_cons]
    simp only [x, y, Bool.not_eq_eq_eq_not, Bool.not_true] at differ smaller
    simp [order, differ, smaller, sign]
  | case3 i within beyond inside x y differ larger =>
    rw [List.drop_eq_getElem_cons within, List.drop_eq_getElem_cons inside,
      List.compareLex_cons_cons]
    simp only [x, y, Bool.not_eq_eq_eq_not, Bool.not_true, Bool.not_eq_true] at differ larger
    simp [order, differ, larger, sign]
  | case4 i within beyond inside x y same step =>
    rw [step, List.drop_eq_getElem_cons within, List.drop_eq_getElem_cons inside,
      List.compareLex_cons_cons]
    simp only [x, y, Bool.not_eq_eq_eq_not, Bool.not_true, Bool.not_eq_false] at same
    simp [order, same]
  | case5 i beyond more =>
    rw [List.drop_eq_nil_of_le (Nat.le_of_not_lt beyond), List.drop_eq_getElem_cons more]
    rfl
  | case6 i beyond none_ =>
    rw [List.drop_eq_nil_of_le (Nat.le_of_not_lt beyond),
      List.drop_eq_nil_of_le (Nat.le_of_not_lt none_)]
    rfl

theorem equals_from_iff (xs ys : List α) (same : xs.length = ys.length) (i : Nat) :
    equalsFrom equals xs ys same i = true ↔ Same equals (xs.drop i) (ys.drop i) := by
  fun_induction equalsFrom equals xs ys same i with
  | case1 i within inside differ =>
    rw [List.drop_eq_getElem_cons within, List.drop_eq_getElem_cons inside, Same,
      List.forall₂_cons]
    simp only [Bool.not_eq_eq_eq_not, Bool.not_true] at differ
    simp [differ]
  | case2 i within inside equal step =>
    rw [step, List.drop_eq_getElem_cons within, List.drop_eq_getElem_cons inside, Same,
      List.forall₂_cons]
    simp only [Bool.not_eq_eq_eq_not, Bool.not_true, Bool.not_eq_false] at equal
    simp [equal]
  | case3 i beyond =>
    rw [List.drop_eq_nil_of_le (Nat.le_of_not_lt beyond),
      List.drop_eq_nil_of_le (same ▸ Nat.le_of_not_lt beyond)]
    simp [Same]

theorem order_eq_iff {x y : α} : order equals less x y = .eq ↔ equals x y = true := by
  unfold order
  cases equals x y <;> cases less x y <;> decide

theorem compare_lex_eq_iff {xs ys : List α} :
    xs.compareLex (order equals less) ys = .eq ↔ Same equals xs ys := by
  induction xs generalizing ys with
  | nil => cases ys <;> simp [List.compareLex_nil_nil, List.compareLex_nil_cons, Same]
  | cons x xs step =>
    cases ys with
    | nil => simp [List.compareLex_cons_nil, Same]
    | cons y ys =>
      rw [List.compareLex_cons_cons, Ordering.then_eq_eq, order_eq_iff, step]
      exact (List.forall₂_cons (R := fun x y => equals x y = true)).symm

namespace Elements

variable {x y : α}

theorem asymm (elements : Elements equals less hash) (smaller : less x y = true) :
    less y x = false := by
  by_contra larger
  rw [Bool.not_eq_false] at larger
  have twice := elements.lessTrans x y x smaller larger
  rw [elements.irrefl x x (elements.refl x)] at twice
  cases twice

theorem order_lt_iff (elements : Elements equals less hash) :
    order equals less x y = .lt ↔ less x y = true := by
  have irrefl := elements.irrefl x y
  unfold order
  cases same : equals x y
  · cases less x y <;> decide
  · simp [irrefl same]

theorem order_gt_iff (elements : Elements equals less hash) :
    order equals less x y = .gt ↔ less y x = true := by
  rcases elements.total x y with smaller | same | larger
  · rw [elements.order_lt_iff.mpr smaller, elements.asymm smaller]
    decide
  · rw [order_eq_iff.mpr same, elements.irrefl y x (elements.symm x y same)]
    decide
  · refine iff_of_true ?_ larger
    have smaller := elements.asymm larger
    have differ : equals x y = false := by
      by_contra same
      have irrefl := elements.irrefl y x (elements.symm x y (Bool.not_eq_false _ ▸ same))
      rw [larger] at irrefl
      cases irrefl
    simp [order, differ, smaller]

theorem transCmp (elements : Elements equals less hash) :
    Std.TransCmp (order equals less) where
  eq_swap := by
    intro x y
    rcases elements.total x y with smaller | same | larger
    · rw [elements.order_lt_iff.mpr smaller, elements.order_gt_iff.mpr smaller]
      rfl
    · rw [order_eq_iff.mpr same, order_eq_iff.mpr (elements.symm x y same)]
      rfl
    · rw [elements.order_gt_iff.mpr larger, elements.order_lt_iff.mpr larger]
      rfl
  isLE_trans := by
    intro x y z first second
    rw [Ordering.isLE_iff_ne_gt, elements.order_gt_iff] at first second ⊢
    intro larger
    -- whichever of `y` and the others is smaller, one of the two steps goes down
    rcases elements.total y z with below | same | above
    · exact first (elements.lessTrans y z x below larger)
    · rcases elements.total x y with below | alike | above
      · have through := elements.lessTrans z x y larger below
        rw [elements.irrefl z y (elements.symm y z same)] at through
        cases through
      · have alike := elements.trans x y z alike same
        rw [elements.irrefl z x (elements.symm x z alike)] at larger
        cases larger
      · exact first above
    · exact second above

theorem compare_lex_lt_iff (elements : Elements equals less hash) {xs ys : List α} :
    xs.compareLex (order equals less) ys = .lt ↔ Precedes equals less xs ys := by
  constructor
  · intro compared
    induction xs generalizing ys with
    | nil =>
      cases ys with
      | nil => cases compared
      | cons y ys => exact .ends y ys
    | cons x xs step =>
      cases ys with
      | nil => cases compared
      | cons y ys =>
        rw [List.compareLex_cons_cons, Ordering.then_eq_lt] at compared
        rcases compared with smaller | ⟨same, compared⟩
        · exact .smaller (elements.order_lt_iff.mp smaller) xs ys
        · exact .next (order_eq_iff.mp same) (step compared)
  · intro precedes
    induction precedes with
    | ends => rfl
    | smaller less_ =>
      rw [List.compareLex_cons_cons, elements.order_lt_iff.mpr less_]
      rfl
    | next same _ step =>
      rw [List.compareLex_cons_cons, order_eq_iff.mpr same]
      exact step

theorem hash_of_eq (elements : Elements equals less hash) {xs ys : List α}
    (same : Same equals xs ys) : hashOf hash xs = hashOf hash ys := by
  unfold hashOf
  generalize (0 : Word) = n
  induction same generalizing n with
  | nil => rfl
  | cons equal _ step =>
    rw [List.foldl_cons, List.foldl_cons, elements.hashes _ _ equal]
    exact step _

end Elements

end

section

variable [DecidableEq ι] {entries : ι → List α} {equals less : α → α → Bool} {hash : α → Word}

theorem compare_eq (elements : Elements equals less hash) (this other : ι) :
    compare equals less entries this other =
      sign ((entries this).compareLex (order equals less) (entries other)) := by
  unfold compare
  split
  case isTrue same =>
    subst same
    have even : Same equals (entries this) (entries this) :=
      List.forall₂_same.mpr fun x _ => elements.refl x
    rw [compare_lex_eq_iff.mpr even]
    rfl
  case isFalse => exact compare_from_eq ..

theorem do_equals_iff (elements : Elements equals less hash) (this other : ι) :
    doEquals equals entries this (.tuple other) = true ↔
      Same equals (entries this) (entries other) := by
  simp only [doEquals]
  split
  case isTrue same =>
    subst same
    exact iff_of_true rfl (List.forall₂_same.mpr fun x _ => elements.refl x)
  case isFalse =>
    split
    case isTrue same => exact equals_from_iff ..
    case isFalse differ => exact iff_of_false (by simp) fun same => differ same.length_eq

/-- An operator returns, and its answer is whether something holds. -/
def Answers (outcome : Except Error Bool) (holds : Prop) : Prop :=
  ∃ answer, outcome = .ok answer ∧ (answer = true ↔ holds)

/-- The operators of tuples are those of one order, which is strict and total up to
their equality, and equal tuples have equal hashes. -/
structure Ordered (equals less : α → α → Bool) (hash : α → Word) (entries : ι → List α) :
    Prop where
  lessThan : ∀ this other, Answers (doLess equals less entries this (.tuple other))
    (Precedes equals less (entries this) (entries other))
  lessOrEqual : ∀ this other, Answers (doLessEqual equals less entries this (.tuple other))
    (Precedes equals less (entries this) (entries other) ∨
      doEquals equals entries this (.tuple other) = true)
  greaterThan : ∀ this other, Answers (doGreater equals less entries this (.tuple other))
    (Precedes equals less (entries other) (entries this))
  greaterOrEqual : ∀ this other, Answers (doGreaterEqual equals less entries this (.tuple other))
    (Precedes equals less (entries other) (entries this) ∨
      doEquals equals entries this (.tuple other) = true)
  equal : ∀ this other, doEquals equals entries this (.tuple other) = true ↔
    Same equals (entries this) (entries other)
  unequal : ∀ this other, doNotEquals equals entries this (.tuple other) =
    !doEquals equals entries this (.tuple other)
  strict : ∀ this other, doEquals equals entries this (.tuple other) = true →
    ¬Precedes equals less (entries this) (entries other)
  trans : ∀ first second third, Precedes equals less (entries first) (entries second) →
    Precedes equals less (entries second) (entries third) →
    Precedes equals less (entries first) (entries third)
  asymm : ∀ this other, Precedes equals less (entries this) (entries other) →
    ¬Precedes equals less (entries other) (entries this)
  total : ∀ this other, Precedes equals less (entries this) (entries other) ∨
    doEquals equals entries this (.tuple other) = true ∨
    Precedes equals less (entries other) (entries this)
  hashes : ∀ this other, doEquals equals entries this (.tuple other) = true →
    doHash hash entries this = doHash hash entries other

theorem tuples_ordered (elements : Elements equals less hash) (entries : ι → List α) :
    Ordered equals less hash entries := by
  have comparison := elements.transCmp
  have equal : ∀ this other, doEquals equals entries this (.tuple other) = true ↔
      Same equals (entries this) (entries other) := do_equals_iff elements
  have precedes : ∀ xs ys, xs.compareLex (order equals less) ys = .lt ↔
      Precedes equals less xs ys := fun _ _ => elements.compare_lex_lt_iff
  have follows : ∀ xs ys, xs.compareLex (order equals less) ys = .gt ↔
      Precedes equals less ys xs := fun xs ys =>
    Std.OrientedCmp.gt_iff_lt.trans (precedes ys xs)
  have even : ∀ xs ys, xs.compareLex (order equals less) ys = .eq ↔ Same equals xs ys :=
    fun _ _ => compare_lex_eq_iff
  refine ⟨?_, ?_, ?_, ?_, equal, fun _ _ => rfl, ?_, ?_, ?_, ?_, ?_⟩
  all_goals simp only [equal, ← precedes, ← even]
  · intro this other
    refine ⟨_, rfl, ?_⟩
    rw [compare_eq elements]
    cases (entries this).compareLex (order equals less) (entries other) <;> decide
  · intro this other
    refine ⟨_, rfl, ?_⟩
    rw [compare_eq elements]
    cases (entries this).compareLex (order equals less) (entries other) <;> decide
  · intro this other
    refine ⟨_, rfl, ?_⟩
    rw [compare_eq elements, precedes, ← follows]
    cases (entries this).compareLex (order equals less) (entries other) <;> decide
  · intro this other
    refine ⟨_, rfl, ?_⟩
    rw [compare_eq elements, precedes, ← follows]
    cases (entries this).compareLex (order equals less) (entries other) <;> decide
  · intro this other same less
    rw [same] at less
    cases less
  · intro first second third
    exact Std.TransCmp.lt_trans
  · intro this other less larger
    rw [Std.OrientedCmp.gt_of_lt less] at larger
    cases larger
  · intro this other
    rw [precedes (entries other), ← follows]
    cases (entries this).compareLex (order equals less) (entries other) <;> decide
  · intro this other same
    exact elements.hash_of_eq ((even _ _).mp same)

theorem elements_integers :
    Elements (fun first second : Int => first == second) (fun first second => first < second)
      (fun number => BitVec.ofInt 64 number) where
  refl := by simp
  symm := by
    intro x y same
    simp only [beq_iff_eq] at same ⊢
    exact same.symm
  trans := by
    intro x y z first second
    simp only [beq_iff_eq] at first second ⊢
    exact first.trans second
  hashes := by
    intro x y same
    rw [beq_iff_eq.mp same]
  irrefl := by
    intro x y same
    rw [beq_iff_eq.mp same]
    simp
  lessTrans := by
    intro x y z first second
    simp only [decide_eq_true_eq] at first second ⊢
    exact lt_trans first second
  total := by
    intro x y
    simp only [decide_eq_true_eq, beq_iff_eq]
    exact lt_trichotomy x y

theorem tuples_ordered_integers :
    Elements (fun first second : Int => first == second) (fun first second => first < second)
      (fun number => BitVec.ofInt 64 number) ∧
    Ordered (fun first second : Int => first == second) (fun first second => first < second)
      (fun number => BitVec.ofInt 64 number) (fun count : Nat => List.replicate count 3) :=
  ⟨elements_integers, tuples_ordered elements_integers _⟩

end

end Xemmai.TTuple
