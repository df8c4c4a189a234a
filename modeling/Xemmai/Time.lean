import Mathlib.Algebra.Order.Floor.Defs
import Mathlib.Data.Rat.Floor
import Xemmai.Gregorian
import Xemmai.Methods

/-!
# `time.compose` and `time.decompose`

`compose` counts the days of the years before with quotients that round toward zero, and
for the years before the first these are those of the calendar only after a leap year.
The doubles are a parameter: all that is known of them is that an operation whose exact
result is a double gives it.
-/

namespace Xemmai.Time

set_option autoImplicit false
set_option linter.unusedSectionVars false

open Gregorian

inductive Failure
  | threw (message : String)
  /-- `f_throw_type_error`, the text of which names the type as the compiler does. -/
  | typeError (name : String)
  /-- What C++ leaves undefined. -/
  | undefined
  deriving DecidableEq, Repr

/-- The values of an `intptr_t`. -/
def Fits (x : Int) : Prop := -2 ^ 63 ≤ x ∧ x < 2 ^ 63

instance (x : Int) : Decidable (Fits x) := inferInstanceAs (Decidable (_ ∧ _))

/-- The values of an `int`. -/
def FitsInt (x : Int) : Prop := -2 ^ 31 ≤ x ∧ x < 2 ^ 31

instance (x : Int) : Decidable (FitsInt x) := inferInstanceAs (Decidable (_ ∧ _))

/-- The result of an operation of `intptr_t`. -/
def checked (x : Int) : Except Failure Int := if Fits x then .ok x else .error .undefined

/-- The result of an operation of `int`. -/
def checkedInt (x : Int) : Except Failure Int := if FitsInt x then .ok x else .error .undefined

/-! ### The days -/

/-- `v_epoch_days` -/
def epochDays : Int := 1969 * 365 + 1969 / 4 - 1969 / 100 + 1969 / 400

/-- `v_month_base_days` -/
def monthBaseDays : List Int := [0, 31, 59, 90, 120, 151, 181, 212, 243, 273, 304, 334]

/-- `compose` up to the month from 0 to 11, and its year. -/
def normalized (year month : Int) : Except Failure (Int × Int) := do
  let month ← checked (month - 1)
  let year ← checked (year + month.tdiv 12)
  let month := month.tmod 12
  if month < 0 then
    let year ← checked (year - 1)
    .ok (year, month + 12)
  else
    .ok (year, month)

/-- `year * 365 + year / 4 - year / 100 + year / 400` -/
def yearDays (year : Int) : Except Failure Int := do
  let days ← checked (year * 365)
  let days ← checked (days + year.tdiv 4)
  let days ← checked (days - year.tdiv 100)
  checked (days + year.tdiv 400)

/-- `compose` up to the days before the first one of the month. -/
def firstDay (year month : Int) : Except Failure Int := do
  let (year, month) ← normalized year month
  let days := monthBaseDays.getD month.toNat 0
  let days := if month > 1 ∧ year.tmod 4 = 0 ∧ (year.tmod 100 ≠ 0 ∨ year.tmod 400 = 0)
    then days + 1 else days
  let year ← checked (year - 1)
  let sum ← yearDays year
  checked (days + sum)

/-- `days + f_item(a_value, 2) - 1 - v_epoch_days` -/
def sinceEpoch (days day : Int) : Except Failure Int := do
  let days ← checked (days + day)
  let days ← checked (days - 1)
  checked (days - epochDays)

theorem checked_eq {x y : Int} : checked x = .ok y ↔ Fits x ∧ x = y := by
  unfold checked
  split <;> simp [*]

theorem checked_bind {α : Type} {x : Int} {f : Int → Except Failure α} {y : α} :
    (checked x >>= f) = .ok y ↔ Fits x ∧ f x = .ok y := by
  unfold checked
  split <;> simp [*, bind, Except.bind]

theorem bind_ok {α β : Type} {x : Except Failure α} {f : α → Except Failure β} {y : β} :
    (x >>= f) = .ok y ↔ ∃ a, x = .ok a ∧ f a = .ok y := by
  cases x with
  | error failure => simp [bind, Except.bind]
  | ok a => simp [bind, Except.bind]

theorem checkedInt_of_fits {x : Int} (fits : FitsInt x) : checkedInt x = .ok x := if_pos fits

/-! A quotient that rounds toward zero is the one that rounds down, or one more. -/

theorem tdiv_of_nonneg {x : Int} (nonneg : 0 ≤ x) (d : Int) : x.tdiv d = x / d :=
  Int.tdiv_eq_ediv_of_nonneg nonneg

theorem tdiv_of_neg {x d : Int} (negative : x < 0) (positive : 0 < d) :
    x.tdiv d = x / d + if x % d = 0 then 0 else 1 := by
  rw [Int.tdiv_eq_ediv, Int.sign_eq_one_of_pos positive]
  by_cases whole : x % d = 0
  · rw [if_pos (.inr (Int.dvd_of_emod_eq_zero whole)), if_pos whole]
  · rw [if_neg, if_neg whole]
    intro either
    cases either with
    | inl nonneg => omega
    | inr divides => exact whole (Int.emod_eq_zero_of_dvd divides)

theorem tmod_eq_zero {x d : Int} : x.tmod d = 0 ↔ x % d = 0 := by
  rw [← Int.dvd_iff_tmod_eq_zero, Int.dvd_iff_emod_eq_zero]

section

variable {year month y m : Int} (low : 1 ≤ m) (high : m ≤ 12)
  (same : y * 12 + m = year * 12 + month)

include low high same

theorem normalized_ok {result : Int × Int} (normal : normalized year month = .ok result) :
    month ≠ -2 ^ 63 ∧ result = (y, m - 1) := by
  unfold normalized at normal
  rw [checked_bind] at normal
  obtain ⟨before, normal⟩ := normal
  rw [checked_bind] at normal
  obtain ⟨-, normal⟩ := normal
  have whole := Int.mul_tdiv_add_tmod (month - 1) 12
  constructor
  · intro least
    unfold Fits at before
    omega
  · dsimp only at normal
    split at normal
    · rename_i negative
      rw [checked_bind] at normal
      obtain ⟨-, normal⟩ := normal
      cases normal
      have bound := Int.lt_tmod_of_pos (month - 1) (b := 12) (by decide)
      ext <;> simp only <;> omega
    · rename_i nonneg
      cases normal
      have bound := Int.tmod_lt_of_pos (month - 1) (b := 12) (by decide)
      ext <;> simp only <;> omega

theorem normalized_of (fits : Fits month) (above : month ≠ -2 ^ 63) (inside : Fits y)
    (inside' : Fits (y + 1)) : normalized year month = .ok (y, m - 1) := by
  unfold normalized
  have whole := Int.mul_tdiv_add_tmod (month - 1) 12
  have bound := Int.lt_tmod_of_pos (month - 1) (b := 12) (by decide)
  have bound' := Int.tmod_lt_of_pos (month - 1) (b := 12) (by decide)
  rw [checked_bind]
  constructor
  · unfold Fits at fits ⊢
    omega
  · rw [checked_bind]
    constructor
    · unfold Fits at inside inside' ⊢
      omega
    · dsimp only
      split
      · have last : year + (month - 1).tdiv 12 - 1 = y := by omega
        rw [checked_bind, last]
        constructor
        · exact inside
        · congr 2
          omega
      · congr 2 <;> omega

end

/-- `year * 365 + year / 4 - year / 100 + year / 400` in the integers. -/
def truncated (year : Int) : Int :=
  year * 365 + year.tdiv 4 - year.tdiv 100 + year.tdiv 400

/-- What the sums before the last must not exceed. -/
def Countable (year : Int) : Prop := Fits (year * 365) ∧ Fits (year * 365 + year.tdiv 4)

instance (year : Int) : Decidable (Countable year) := inferInstanceAs (Decidable (_ ∧ _))

theorem tdiv_between (year : Int) :
    (0 ≤ year ∧ 0 ≤ year.tdiv 400 ∧ year.tdiv 400 ≤ year.tdiv 100 ∧
      year.tdiv 100 ≤ year.tdiv 4 ∧ year.tdiv 4 = year / 4 ∧ year.tdiv 100 = year / 100 ∧
      year.tdiv 400 = year / 400) ∨
    (year < 0 ∧ year.tdiv 4 ≤ year.tdiv 100 ∧ year.tdiv 100 ≤ year.tdiv 400 ∧
      year.tdiv 400 ≤ 0) := by
  by_cases nonneg : 0 ≤ year
  · left
    rw [tdiv_of_nonneg nonneg, tdiv_of_nonneg nonneg, tdiv_of_nonneg nonneg]
    omega
  · right
    rw [tdiv_of_neg (by omega) (by decide), tdiv_of_neg (by omega) (by decide),
      tdiv_of_neg (by omega) (by decide)]
    refine ⟨by omega, ?_⟩
    split <;> split <;> split <;> omega

theorem yearDays_eq {year days : Int} :
    yearDays year = .ok days ↔ Countable year ∧ days = truncated year := by
  unfold yearDays Countable truncated
  rw [checked_bind, checked_bind, checked_bind, checked_eq]
  have between := tdiv_between year
  constructor
  · intro ⟨first, second, _, _, same⟩
    exact ⟨⟨first, second⟩, same.symm⟩
  · intro ⟨⟨first, second⟩, same⟩
    refine ⟨first, second, ?_, ?_, same.symm⟩
    · unfold Fits at *
      omega
    · unfold Fits at *
      omega

theorem monthBaseDays_eq {m : Int} (low : 1 ≤ m) (high : m ≤ 12) :
    monthBaseDays.getD (m - 1).toNat 0 = Date.base m := by
  interval_cases m <;> rfl

theorem leap_iff (year : Int) :
    (year.tmod 4 = 0 ∧ (year.tmod 100 ≠ 0 ∨ year.tmod 400 = 0)) ↔ Leap year := by
  rw [Ne, tmod_eq_zero, tmod_eq_zero, tmod_eq_zero]
  rfl

theorem base_bound (m : Int) : 0 ≤ Date.base m ∧ Date.base m ≤ 334 := by
  unfold Date.base
  split <;> omega

def counted (y m : Int) : Int :=
  Date.base m + (if 2 < m ∧ Leap y then 1 else 0) + truncated (y - 1)

theorem firstDay_of_normal {year month y m days : Int} (low : 1 ≤ m) (high : m ≤ 12)
    (normal : normalized year month = .ok (y, m - 1)) :
    firstDay year month = .ok days ↔
      Fits (y - 1) ∧ Countable (y - 1) ∧ Fits (counted y m) ∧ counted y m = days := by
  have month_days : (if m - 1 > 1 ∧ y.tmod 4 = 0 ∧ (y.tmod 100 ≠ 0 ∨ y.tmod 400 = 0)
      then monthBaseDays.getD (m - 1).toNat 0 + 1 else monthBaseDays.getD (m - 1).toNat 0) =
      Date.base m + (if 2 < m ∧ Leap y then 1 else 0) := by
    have later : m - 1 > 1 ↔ 2 < m := by omega
    simp only [monthBaseDays_eq low high, leap_iff, later]
    split <;> omega
  unfold firstDay
  rw [normal, bind_ok]
  simp only [Except.ok.injEq, exists_eq_left', month_days]
  rw [checked_bind, bind_ok]
  simp only [checked_eq]
  constructor
  · intro ⟨fits, sum, counts, fits', same⟩
    rw [yearDays_eq] at counts
    obtain ⟨countable, rfl⟩ := counts
    exact ⟨fits, countable, fits', same⟩
  · intro ⟨fits, countable, fits', same⟩
    exact ⟨fits, truncated (y - 1), yearDays_eq.mpr ⟨countable, rfl⟩, fits', same⟩

theorem fits_of_countable {y m : Int} (countable : Countable (y - 1)) :
    Fits y ∧ Fits (y + 1) ∧ Fits (y - 1) ∧ Fits (counted y m) := by
  obtain ⟨first, second⟩ := countable
  have between := tdiv_between (y - 1)
  have bound := base_bound m
  unfold counted truncated
  unfold Fits at *
  refine ⟨by omega, by omega, by omega, ?_⟩
  split <;> omega

theorem firstDay_eq {year month y m : Int} (low : 1 ≤ m) (high : m ≤ 12)
    (same : y * 12 + m = year * 12 + month) (fits : Fits month) {days : Int} :
    firstDay year month = .ok days ↔
      month ≠ -2 ^ 63 ∧ Countable (y - 1) ∧ days = counted y m := by
  constructor
  · intro result
    have start := result
    unfold firstDay at start
    obtain ⟨pair, normal, -⟩ := bind_ok.mp start
    obtain ⟨above, rfl⟩ := normalized_ok low high same normal
    obtain ⟨-, countable, -, sum⟩ := (firstDay_of_normal low high normal).mp result
    exact ⟨above, countable, sum.symm⟩
  · intro ⟨above, countable, sum⟩
    obtain ⟨inside, inside', before, total⟩ := fits_of_countable (m := m) countable
    have normal := normalized_of low high same fits above inside inside'
    exact (firstDay_of_normal low high normal).mpr ⟨before, countable, total, sum.symm⟩

/-- The quotients of the code are those of the calendar. -/
def Regular (y : Int) : Prop := 1 ≤ y ∨ Leap (y - 1)

instance (y : Int) : Decidable (Regular y) := inferInstanceAs (Decidable (_ ∨ _))

theorem counted_number (y m : Int) :
    counted y m = Date.number ⟨y, m, 1⟩ + epochDays + if Regular y then 0 else 1 := by
  have quotients : truncated (y - 1) =
      (y - 1) * 365 + (y - 1) / 4 - (y - 1) / 100 + (y - 1) / 400 + if Regular y then 0 else 1 := by
    unfold truncated
    by_cases positive : 1 ≤ y
    · rw [tdiv_of_nonneg (by omega), tdiv_of_nonneg (by omega), tdiv_of_nonneg (by omega),
        if_pos (.inl positive)]
      omega
    · rw [tdiv_of_neg (by omega) (by decide), tdiv_of_neg (by omega) (by decide),
        tdiv_of_neg (by omega) (by decide)]
      by_cases leap : Leap (y - 1)
      · rw [if_pos (show Regular y from .inr leap)]
        unfold Leap at leap
        split <;> split <;> split <;> omega
      · rw [if_neg (show ¬Regular y from fun regular => regular.elim positive leap)]
        unfold Leap at leap
        split <;> split <;> split <;> omega
  unfold counted Date.number Date.before
  rw [quotients]
  simp only [epochDays]
  omega

/-! ### The doubles -/

/-- What else `time.cc` does with doubles, and the values of those that are finite. -/
class Numeric (F : Type) where
  value : F → Option ℚ
  floor : F → F

export Numeric (value)

variable {F O : Type} [Double F] [Boxed O F] [Numeric F]

variable (F) in
def Representable (q : ℚ) : Prop := ∃ x : F, value x = some q

/-- What IEEE 754 says of results that are doubles. -/
class LawfulDouble (F : Type) [Double F] [Numeric F] : Prop where
  small {n : Int} : |n| ≤ 2 ^ 53 → Representable F n
  ofInteger {word : Word} : Representable F word.toInt →
    value (Double.ofInteger (F := F) word) = some (word.toInt : ℚ)
  add {x y : F} {p q : ℚ} : value x = some p → value y = some q → Representable F (p + q) →
    value (Double.add x y) = some (p + q)
  subtract {x y : F} {p q : ℚ} : value x = some p → value y = some q →
    Representable F (p - q) → value (Double.subtract x y) = some (p - q)
  multiply {x y : F} {p q : ℚ} : value x = some p → value y = some q →
    Representable F (p * q) → value (Double.multiply x y) = some (p * q)
  floor {x : F} {q : ℚ} : value x = some q → value (Numeric.floor x) = some (⌊q⌋ : ℚ)

/-! ### The functions -/

def item (a_tuple : List (Value F O)) (a_index : Nat) : Except Failure Word :=
  match a_tuple[a_index]? with
  | none => .error .undefined
  | some a =>
      match a.toInteger with
      | some integer => .ok integer
      | none => .error (.typeError "item")

def itemWithFraction (a_tuple : List (Value F O)) (a_index : Nat) : Except Failure F :=
  match a_tuple[a_index]? with
  | none => .error .undefined
  | some a =>
      match a.toInteger with
      | some integer => .ok (Double.ofInteger integer)
      | none =>
          match a.toFloat with
          | some x => .ok x
          | none => .error (.typeError "item")

/-- `if (n > a_index) t += item`, with the one or the other kind of item. -/
def addItem (item : List (Value F O) → Nat → Except Failure F) (a_value : List (Value F O))
    (a_index : Nat) (t : F) : Except Failure F :=
  if a_index < a_value.length then do
    let x ← item a_value a_index
    .ok (Double.add t x)
  else .ok t

/-- `f_item` where it is converted to `double`. -/
def itemToDouble (a_tuple : List (Value F O)) (a_index : Nat) : Except Failure F := do
  let integer ← item a_tuple a_index
  .ok (Double.ofInteger integer)

/-- `compose` from its `double` on. -/
def clock (a_value : List (Value F O)) (days : Int) : Except Failure F := do
  let t := Double.ofInteger (BitVec.ofInt 64 days)
  let t ← addItem itemToDouble a_value 3 (Double.multiply t (Double.ofInteger 24))
  let t ← addItem itemToDouble a_value 4 (Double.multiply t (Double.ofInteger 60))
  addItem itemWithFraction a_value 5 (Double.multiply t (Double.ofInteger 60))

def compose (a_value : List (Value F O)) : Except Failure F :=
  if a_value.length < 3 then
    .error (.threw "must have at least 3 items.")
  else do
    let year ← item a_value 0
    let month ← item a_value 1
    let days ← firstDay year.toInt month.toInt
    let day ← item a_value 2
    let days ← sinceEpoch days day.toInt
    clock a_value days

/-- `std::tm` -/
structure Tm where
  sec : Int
  min : Int
  hour : Int
  mday : Int
  mon : Int
  year : Int
  wday : Int
  yday : Int
  deriving DecidableEq, Repr

/-- `gmtime` gives a null pointer where the year is not an `int`. -/
def decompose (gmtime : Int → Option Tm) (a_value : F) : Except Failure (List (Value F O)) :=
  match value (Numeric.floor a_value) with
  | none => .error .undefined
  | some floor => do
      let t0 ← checked floor.num
      let fraction := Double.subtract a_value (Double.ofInteger (BitVec.ofInt 64 t0))
      match gmtime t0 with
      | none => .error .undefined
      | some t1 => do
          let year ← checkedInt (t1.year + 1900)
          let month ← checkedInt (t1.mon + 1)
          let yday ← checkedInt (t1.yday + 1)
          let integer (x : Int) : Value F O := .integer (BitVec.ofInt 64 x)
          .ok [integer year, integer month, integer t1.mday, integer t1.hour, integer t1.min,
            .float (Double.add (Double.ofInteger (BitVec.ofInt 64 t1.sec)) fraction),
            integer t1.wday, integer yday]

/-! ### What is composed -/

def IsInteger (item : Value F O) (n : Int) : Prop :=
  ∃ word, item.toInteger = some word ∧ word.toInt = n

/-- The item is an integer, or a double that has its value. -/
def IsIntegral (item : Value F O) (n : Int) : Prop :=
  IsInteger item n ∨ item.toInteger = none ∧ ∃ x, item.toFloat = some x ∧ value x = some (n : ℚ)

def Given (is : Value F O → Int → Prop) : Option (Value F O) → Int → Prop
  | none, n => n = 0
  | some item, n => is item n

/-- The items of a date and a time. -/
structure Items (a_value : List (Value F O)) (year month day hour minute second : Int) :
    Prop where
  year : ∃ item, a_value[0]? = some item ∧ IsInteger item year
  month : ∃ item, a_value[1]? = some item ∧ IsInteger item month
  day : ∃ item, a_value[2]? = some item ∧ IsInteger item day
  hour : Given IsInteger a_value[3]? hour
  minute : Given IsInteger a_value[4]? minute
  second : Given IsIntegral a_value[5]? second

def seconds (days hour minute second : Int) : Int :=
  ((days * 24 + hour) * 60 + minute) * 60 + second

variable (F) in
/-- The integers that the doubles of `compose` go through are doubles. -/
structure Exact (d h m s : Int) : Prop where
  days : Representable F d
  hours : Representable F (d * 24 : Int)
  hour : Representable F h
  withHour : Representable F (d * 24 + h : Int)
  minutes : Representable F ((d * 24 + h) * 60 : Int)
  minute : Representable F m
  withMinute : Representable F ((d * 24 + h) * 60 + m : Int)
  seconds : Representable F (((d * 24 + h) * 60 + m) * 60 : Int)
  second : Representable F s
  total : Representable F (Time.seconds d h m s)

/-- The days of `compose`, where there are any. -/
def dayNumber (year month day : Int) : Except Failure Int := do
  let days ← firstDay year month
  sinceEpoch days day

variable (F) in
/-- The date and the time lie where the double arithmetic of `compose` is exact. -/
def InRange (year month day hour minute second : Int) : Prop :=
  ∀ days, dayNumber year month day = .ok days → Exact F days hour minute second

section

variable [LawfulDouble F] {a_value : List (Value F O)} {a_index : Nat} {n : Int}

omit [LawfulDouble F] in
theorem item_of (is : ∃ a, a_value[a_index]? = some a ∧ IsInteger a n) :
    ∃ word, item a_value a_index = .ok word ∧ word.toInt = n := by
  obtain ⟨a, found, word, integer, same⟩ := is
  refine ⟨word, ?_, same⟩
  unfold item
  rw [found]
  simp only [integer]

theorem multiply_value {t : F} {p : Int} (has : value t = some (p : ℚ)) (word : Word)
    (factor : |word.toInt| ≤ 2 ^ 53) (product : Representable F ((p * word.toInt : Int) : ℚ)) :
    value (Double.multiply t (Double.ofInteger word)) = some ((p * word.toInt : Int) : ℚ) := by
  have exact_ := LawfulDouble.ofInteger (F := F) (LawfulDouble.small factor)
  push_cast at product ⊢
  exact LawfulDouble.multiply has exact_ product

omit [LawfulDouble F] in
theorem given_cases {is : Value F O → Int → Prop} {a : Option (Value F O)} (given : Given is a n) :
    (a = none ∧ n = 0) ∨ ∃ item, a = some item ∧ is item n := by
  cases a with
  | none => exact .inl ⟨rfl, given⟩
  | some item => exact .inr ⟨item, rfl, given⟩

/-- One sum of the double arithmetic: an item that may be missing is added. -/
theorem addItem_value {read : List (Value F O) → Nat → Except Failure F}
    {is : Value F O → Int → Prop} {t : F} {p : Int} (has : value t = some (p : ℚ))
    (reads : ∀ a, a_value[a_index]? = some a → is a n →
      ∃ x, read a_value a_index = .ok x ∧ value x = some (n : ℚ))
    (given : Given is a_value[a_index]? n) (sum : Representable F ((p + n : Int) : ℚ)) :
    ∃ t', addItem read a_value a_index t = .ok t' ∧ value t' = some ((p + n : Int) : ℚ) := by
  unfold addItem
  cases given_cases given with
  | inl missing =>
      obtain ⟨missing, rfl⟩ := missing
      have outside := List.getElem?_eq_none_iff.mp missing
      rw [if_neg (by omega)]
      refine ⟨t, rfl, ?_⟩
      rw [has, Int.add_zero]
  | inr present =>
      obtain ⟨a, found, holds⟩ := present
      obtain ⟨inside, -⟩ := List.getElem?_eq_some_iff.mp found
      obtain ⟨x, result, same⟩ := reads a found holds
      rw [if_pos inside, result]
      refine ⟨_, rfl, ?_⟩
      push_cast at sum ⊢
      exact LawfulDouble.add has same sum

theorem itemToDouble_of (exact_ : Representable F (n : ℚ)) (a : Value F O)
    (found : a_value[a_index]? = some a) (is : IsInteger a n) :
    ∃ x : F, itemToDouble a_value a_index = .ok x ∧ value x = some (n : ℚ) := by
  obtain ⟨word, read, rfl⟩ := item_of ⟨a, found, is⟩
  unfold itemToDouble
  rw [read]
  exact ⟨_, rfl, LawfulDouble.ofInteger exact_⟩

theorem itemWithFraction_of (exact_ : Representable F (n : ℚ)) (a : Value F O)
    (found : a_value[a_index]? = some a) (is : IsIntegral a n) :
    ∃ x : F, itemWithFraction a_value a_index = .ok x ∧ value x = some (n : ℚ) := by
  unfold itemWithFraction
  rw [found]
  simp only
  cases is with
  | inl integral =>
      obtain ⟨word, integer, rfl⟩ := integral
      rw [integer]
      exact ⟨_, rfl, LawfulDouble.ofInteger exact_⟩
  | inr float =>
      obtain ⟨other, x, isFloat, same⟩ := float
      rw [other, isFloat]
      exact ⟨x, rfl, same⟩

variable {year month day hour minute second : Int}

theorem clock_value (items : Items a_value year month day hour minute second) {days : Int}
    (fits : Fits days) (exact_ : Exact F days hour minute second) :
    ∃ t, clock a_value days = .ok t ∧ value t = some (seconds days hour minute second : ℚ) := by
  have start : value (Double.ofInteger (F := F) (BitVec.ofInt 64 days)) = some (days : ℚ) := by
    have back : (BitVec.ofInt 64 days).toInt = days := by
      unfold Fits at fits
      rw [BitVec.toInt_ofInt, Int.bmod_eq_of_le] <;> omega
    have whole := exact_.days
    rw [← back] at whole
    rw [LawfulDouble.ofInteger whole, back]
  have hours := multiply_value start 24 (by decide) exact_.hours
  obtain ⟨t3, read3, value3⟩ :=
    addItem_value hours (itemToDouble_of exact_.hour) items.hour exact_.withHour
  have minutes := multiply_value value3 60 (by decide) exact_.minutes
  obtain ⟨t4, read4, value4⟩ :=
    addItem_value minutes (itemToDouble_of exact_.minute) items.minute exact_.withMinute
  have total := multiply_value value4 60 (by decide) exact_.seconds
  obtain ⟨t5, read5, value5⟩ :=
    addItem_value total (itemWithFraction_of exact_.second) items.second exact_.total
  refine ⟨t5, ?_, value5⟩
  unfold clock
  simp only
  rw [bind_ok]
  refine ⟨t3, read3, ?_⟩
  rw [bind_ok]
  exact ⟨t4, read4, read5⟩

theorem compose_eq (items : Items a_value year month day hour minute second) :
    compose a_value = dayNumber year month day >>= clock a_value := by
  obtain ⟨y, readYear, rfl⟩ := item_of items.year
  obtain ⟨m, readMonth, rfl⟩ := item_of items.month
  obtain ⟨d, readDay, rfl⟩ := item_of items.day
  obtain ⟨a, found, -⟩ := items.day
  obtain ⟨inside, -⟩ := List.getElem?_eq_some_iff.mp found
  unfold compose dayNumber
  rw [if_neg (by omega), readYear, readMonth, readDay]
  rw [bind_assoc]
  rfl

/-- No sum of `intptr_t` overflows. -/
def Safe (month y days : Int) : Prop :=
  month ≠ -2 ^ 63 ∧ Countable (y - 1) ∧ Fits days ∧ Fits (days + 1 + epochDays)

instance (month y days : Int) : Decidable (Safe month y days) :=
  inferInstanceAs (Decidable (_ ∧ _))

theorem dayNumber_eq {y m : Int} (low : 1 ≤ m) (high : m ≤ 12)
    (same : y * 12 + m = year * 12 + month) (fits : Fits month) {days : Int} :
    dayNumber year month day = .ok days ↔
      month ≠ -2 ^ 63 ∧ Countable (y - 1) ∧ days = counted y m + day - 1 - epochDays ∧
      Fits days ∧ Fits (days + 1 + epochDays) := by
  unfold dayNumber sinceEpoch
  rw [bind_ok]
  simp only [firstDay_eq low high same fits, checked_bind, checked_eq]
  constructor
  · intro ⟨first, ⟨above, countable, is⟩, sum, _, last, total⟩
    subst first total
    refine ⟨above, countable, rfl, last, ?_⟩
    have back : counted y m + day - 1 - epochDays + 1 + epochDays = counted y m + day := by omega
    rw [back]
    exact sum
  · intro ⟨above, countable, is, fits, sum⟩
    subst is
    have back : counted y m + day - 1 - epochDays + 1 + epochDays = counted y m + day := by omega
    rw [back] at sum
    refine ⟨_, ⟨above, countable, rfl⟩, sum, ?_, fits, rfl⟩
    unfold epochDays at fits
    unfold Fits at *
    omega

theorem fits_month (items : Items a_value year month day hour minute second) : Fits month := by
  obtain ⟨_, _, word, _, rfl⟩ := items.month
  exact ⟨BitVec.le_toInt word, BitVec.toInt_lt⟩

theorem seconds_inj {d d' h m s : Int} (same : seconds d h m s = seconds d' h m s) : d = d' := by
  unfold seconds at same
  omega

/-- The seconds are those of the calendar where the quotients are. -/
theorem compose_iff (items : Items a_value year month day hour minute second)
    (range : InRange F year month day hour minute second) {y m n : Int} (low : 1 ≤ m)
    (high : m ≤ 12) (same : y * 12 + m = year * 12 + month) (days : Date.Days ⟨y, m, 1⟩ n) :
    (∃ t, compose a_value = .ok t ∧
        value t = some (seconds (n + day - 1) hour minute second : ℚ)) ↔
      Safe month y (n + day - 1) ∧ Regular y := by
  have fits := fits_month items
  have number := counted_number y m
  rw [days.number_eq] at number
  rw [compose_eq items]
  constructor
  · intro ⟨t, result, calendar⟩
    obtain ⟨d, counts, clocks⟩ := bind_ok.mp result
    obtain ⟨above, countable, is, last, sum⟩ := (dayNumber_eq low high same fits).mp counts
    obtain ⟨t', clocks', exact_⟩ := clock_value items last (range d counts)
    rw [clocks] at clocks'
    cases clocks'
    rw [exact_, Option.some.injEq, Int.cast_inj] at calendar
    have whole : d = n + day - 1 := seconds_inj calendar
    rw [← whole]
    refine ⟨⟨above, countable, last, sum⟩, ?_⟩
    by_contra irregular
    rw [if_neg irregular] at number
    omega
  · intro ⟨⟨above, countable, last, sum⟩, regular⟩
    rw [if_pos regular] at number
    have counts : dayNumber year month day = .ok (n + day - 1) := by
      rw [dayNumber_eq low high same fits]
      exact ⟨above, countable, by omega, last, sum⟩
    obtain ⟨t, clocks, exact_⟩ := clock_value items last (range _ counts)
    exact ⟨t, bind_ok.mpr ⟨_, counts, clocks⟩, exact_⟩

end

/-! ### What is decomposed -/

/-- The time is that many seconds after the start of 1970. -/
structure Tm.IsTime (tm : Tm) (t : Int) : Prop where
  days : ∃ n, Date.Days ⟨tm.year + 1900, tm.mon + 1, tm.mday⟩ n ∧
    t = seconds n tm.hour tm.min tm.sec ∧ tm.wday = (n + 4) % 7 ∧
    Date.Days ⟨tm.year + 1900, 1, 1⟩ (n - tm.yday)
  hour : 0 ≤ tm.hour ∧ tm.hour < 24
  min : 0 ≤ tm.min ∧ tm.min < 60
  sec : 0 ≤ tm.sec ∧ tm.sec < 60

/-- A time is that of the calendar, and there is one unless the year is not an `int`. -/
structure IsCalendar (gmtime : Int → Option Tm) (t : Int) : Prop where
  sound {tm : Tm} : gmtime t = some tm → tm.IsTime t ∧ FitsInt tm.year
  complete {tm : Tm} : tm.IsTime t → FitsInt tm.year → gmtime t ≠ none

theorem Tm.IsTime.unique {tm tm' : Tm} {t : Int} (time : tm.IsTime t) (time' : tm'.IsTime t) :
    tm = tm' := by
  obtain ⟨⟨n, days, is, week, year⟩, hour, min, sec⟩ := time
  obtain ⟨⟨n', days', is', week', year'⟩, hour', min', sec'⟩ := time'
  unfold seconds at is is'
  have whole : n = n' := by omega
  subst whole
  have date := Date.number_inj days.valid days'.valid (days.number_eq.trans days'.number_eq.symm)
  obtain ⟨years, months, mdays⟩ := Date.mk.inj date
  rw [years] at year
  have first := year.number_eq.symm.trans year'.number_eq
  obtain ⟨s, mi, h, d, mo, y, w, yd⟩ := tm
  obtain ⟨s', mi', h', d', mo', y', w', yd'⟩ := tm'
  simp only at *
  simp only [Tm.mk.injEq]
  omega

section

variable [LawfulDouble F] {gmtime : Int → Option Tm} {x : F} {t : Int} {tm : Tm}

theorem IsTime.fits (time : tm.IsTime t) (year : FitsInt (tm.year + 1900)) : Fits t := by
  obtain ⟨⟨n, days, is, -, -⟩, hour, min, sec⟩ := time
  obtain ⟨lower, upper⟩ := Date.number_bounds days.valid
  rw [days.number_eq] at lower upper
  unfold seconds at is
  unfold Date.before at lower upper
  unfold FitsInt at year
  unfold Fits
  simp only at lower upper
  omega

theorem toInt_ofInt {n : Int} (fits : Fits n) : (BitVec.ofInt 64 n).toInt = n := by
  unfold Fits at fits
  rw [BitVec.toInt_ofInt, Int.bmod_eq_of_le] <;> omega

theorem IsTime.yday (time : tm.IsTime t) : 0 ≤ tm.yday ∧ tm.yday < 366 := by
  obtain ⟨⟨n, days, -, -, first⟩, -, -, -⟩ := time
  obtain ⟨lower, upper⟩ := Date.number_bounds days.valid
  rw [days.number_eq] at lower upper
  have start := first.number_eq
  rw [Date.number_eq_start] at start
  have none_ : Date.start (tm.year + 1900) 1 = 0 := by simp [Date.start, Date.base]
  rw [Date.before_next] at upper
  simp only at lower upper start
  constructor
  · omega
  · split at upper <;> omega

/-- What is left of a whole number of seconds is zero, and adds nothing. -/
theorem fraction_value (whole : value x = some (t : ℚ)) (fits : Fits t) {sec : Int}
    (few : 0 ≤ sec ∧ sec < 60) :
    value (Double.add (Double.ofInteger (F := F) (BitVec.ofInt 64 sec))
      (Double.subtract x (Double.ofInteger (BitVec.ofInt 64 t)))) = some (sec : ℚ) := by
  have zero : Representable F ((t : ℚ) - t) := by
    rw [sub_self, ← Int.cast_zero]
    exact LawfulDouble.small (by decide)
  have back : value (Double.ofInteger (F := F) (BitVec.ofInt 64 t)) = some (t : ℚ) := by
    have exact_ : Representable F (t : ℚ) := ⟨x, whole⟩
    rw [← toInt_ofInt fits] at exact_
    rw [LawfulDouble.ofInteger exact_, toInt_ofInt fits]
  have fraction := LawfulDouble.subtract whole back zero
  rw [sub_self] at fraction
  have small : Representable F (sec : ℚ) := by
    apply LawfulDouble.small
    rw [abs_le]
    omega
  have second : value (Double.ofInteger (F := F) (BitVec.ofInt 64 sec)) = some (sec : ℚ) := by
    have inside : Fits sec := by
      unfold Fits
      omega
    have exact_ := small
    rw [← toInt_ofInt inside] at exact_
    rw [LawfulDouble.ofInteger exact_, toInt_ofInt inside]
  have sum := LawfulDouble.add second fraction (by rwa [add_zero])
  rwa [add_zero] at sum

theorem isInteger_ofInt {n : Int} (fits : Fits n) :
    IsInteger (.integer (BitVec.ofInt 64 n) : Value F O) n :=
  ⟨_, rfl, toInt_ofInt fits⟩

theorem decompose_items (whole : value x = some (t : ℚ)) (calendar : IsCalendar gmtime t)
    (time : tm.IsTime t) (year : FitsInt tm.year) (year' : FitsInt (tm.year + 1900)) :
    ∃ a_value : List (Value F O), decompose gmtime x = .ok a_value ∧
      Items a_value (tm.year + 1900) (tm.mon + 1) tm.mday tm.hour tm.min tm.sec := by
  have fits := IsTime.fits time year'
  have found : gmtime t = some tm := by
    cases result : gmtime t with
    | none => exact absurd result (calendar.complete time year)
    | some other => rw [(calendar.sound result).1.unique time]
  have floor := LawfulDouble.floor whole
  rw [Int.floor_intCast] at floor
  have yday := IsTime.yday time
  obtain ⟨⟨n, days, -, -, -⟩, hour, min, sec⟩ := time
  obtain ⟨low, high, low', high'⟩ := days.valid
  simp only at low high low' high'
  have length : Gregorian.monthLength (tm.year + 1900) (tm.mon + 1) ≤ 31 := by
    unfold Gregorian.monthLength
    split
    · split <;> omega
    · split <;> omega
  have month : FitsInt (tm.mon + 1) := by
    unfold FitsInt
    omega
  have day : FitsInt (tm.yday + 1) := by
    unfold FitsInt
    omega
  unfold decompose
  rw [floor]
  simp only [Rat.num_intCast]
  rw [checked_eq.mpr ⟨fits, rfl⟩]
  simp only [bind, Except.bind, found, checkedInt_of_fits year', checkedInt_of_fits month,
    checkedInt_of_fits day, Except.ok.injEq, exists_eq_left']
  constructor
  · refine ⟨_, rfl, isInteger_ofInt ?_⟩
    unfold FitsInt at year'
    unfold Fits
    omega
  · refine ⟨_, rfl, isInteger_ofInt ?_⟩
    unfold Fits
    omega
  · refine ⟨_, rfl, isInteger_ofInt ?_⟩
    unfold Fits
    omega
  · apply isInteger_ofInt
    unfold Fits
    omega
  · apply isInteger_ofInt
    unfold Fits
    omega
  · exact .inr ⟨rfl, _, rfl, fraction_value whole fits sec⟩

/-- A time that is taken apart has a year that is an `int`, before and after 1900 is added. -/
theorem decompose_ok {a_value : List (Value F O)} (whole : value x = some (t : ℚ))
    (calendar : IsCalendar gmtime t) (time : tm.IsTime t)
    (result : decompose gmtime x = .ok a_value) :
    FitsInt tm.year ∧ FitsInt (tm.year + 1900) := by
  have floor := LawfulDouble.floor whole
  rw [Int.floor_intCast] at floor
  unfold decompose at result
  rw [floor] at result
  simp only [Rat.num_intCast] at result
  rw [checked_bind] at result
  obtain ⟨-, result⟩ := result
  cases found : gmtime t with
  | none =>
      rw [found] at result
      cases result
  | some other =>
      obtain ⟨time', year⟩ := calendar.sound found
      rw [found, time'.unique time] at result
      rw [time'.unique time] at year
      simp only at result
      obtain ⟨_, checks, -⟩ := bind_ok.mp result
      refine ⟨year, ?_⟩
      by_contra outside
      unfold checkedInt at checks
      rw [if_neg outside] at checks
      cases checks

theorem safe_of_fits (year : FitsInt (tm.year + 1900)) {n : Int}
    (days : Date.Days ⟨tm.year + 1900, tm.mon + 1, tm.mday⟩ n) :
    Safe (tm.mon + 1) (tm.year + 1900) n := by
  obtain ⟨lower, upper⟩ := Date.number_bounds days.valid
  obtain ⟨low, high, -, -⟩ := days.valid
  rw [days.number_eq] at lower upper
  unfold Date.before at lower upper
  unfold FitsInt at year
  simp only at low high lower upper
  have between := tdiv_between (tm.year + 1900 - 1)
  have quotient : -2 ^ 31 ≤ (tm.year + 1900 - 1).tdiv 4 := by
    have whole := Int.mul_tdiv_add_tmod (tm.year + 1900 - 1) 4
    have bound := Int.tmod_lt_of_pos (tm.year + 1900 - 1) (b := 4) (by decide)
    omega
  unfold Safe Countable Fits epochDays
  refine ⟨by omega, ⟨by omega, by omega⟩, by omega, by omega⟩

/-- A time is put together again in the years that `compose` counts right. -/
theorem round_trip_iff (whole : value x = some (t : ℚ)) (calendar : IsCalendar gmtime t)
    (time : tm.IsTime t) (range : InRange F (tm.year + 1900) (tm.mon + 1) tm.mday tm.hour
      tm.min tm.sec) :
    (∃ (a_value : List (Value F O)) (t' : F), decompose gmtime x = .ok a_value ∧
        compose a_value = .ok t' ∧ value t' = some (t : ℚ)) ↔
      FitsInt tm.year ∧ FitsInt (tm.year + 1900) ∧ Regular (tm.year + 1900) := by
  obtain ⟨n, days, is, -, -⟩ := time.days
  obtain ⟨low, high, low', high'⟩ := days.valid
  have first : Date.Days ⟨tm.year + 1900, tm.mon + 1, 1⟩ (n - tm.mday + 1) := by
    have long := Date.monthLength_pos (tm.year + 1900) (tm.mon + 1)
    have valid : Date.Valid ⟨tm.year + 1900, tm.mon + 1, 1⟩ :=
      ⟨low, high, Int.le_refl 1, by simp only; omega⟩
    rw [Date.days_iff valid]
    have number := days.number_eq
    rw [Date.number_eq_start] at number ⊢
    simp only at number ⊢
    omega
  have back : n - tm.mday + 1 + tm.mday - 1 = n := by omega
  have composed {a_value : List (Value F O)} (items : Items a_value (tm.year + 1900)
      (tm.mon + 1) tm.mday tm.hour tm.min tm.sec) :=
    compose_iff items range low high rfl first
  rw [back, ← is] at composed
  constructor
  · intro ⟨a_value, t', taken, result, same⟩
    obtain ⟨year, year'⟩ := decompose_ok whole calendar time taken
    obtain ⟨a_value', taken', items⟩ := decompose_items (O := O) whole calendar time year year'
    rw [taken] at taken'
    cases taken'
    exact ⟨year, year', ((composed items).mp ⟨t', result, same⟩).2⟩
  · intro ⟨year, year', regular⟩
    obtain ⟨a_value, taken, items⟩ := decompose_items (O := O) whole calendar time year year'
    obtain ⟨t', result, same⟩ := (composed items).mpr ⟨safe_of_fits year' days, regular⟩
    exact ⟨a_value, t', taken, result, same⟩

variable (F O) in
/-- Both functions are those of the calendar from the first year on, and before it in the
years that follow a leap year. -/
theorem calendar_iff :
    (∀ (a_value : List (Value F O)) (year month day hour minute second y m n : Int),
      Items a_value year month day hour minute second →
      InRange F year month day hour minute second →
      1 ≤ m → m ≤ 12 → y * 12 + m = year * 12 + month → Date.Days ⟨y, m, 1⟩ n →
      ((∃ t, compose a_value = .ok t ∧
          value t = some (seconds (n + day - 1) hour minute second : ℚ)) ↔
        Safe month y (n + day - 1) ∧ Regular y)) ∧
    (∀ (gmtime : Int → Option Tm) (x : F) (t : Int) (tm : Tm),
      value x = some (t : ℚ) → IsCalendar gmtime t → tm.IsTime t →
      InRange F (tm.year + 1900) (tm.mon + 1) tm.mday tm.hour tm.min tm.sec →
      ((∃ (a_value : List (Value F O)) (t' : F), decompose gmtime x = .ok a_value ∧
          compose a_value = .ok t' ∧ value t' = some (t : ℚ)) ↔
        FitsInt tm.year ∧ FitsInt (tm.year + 1900) ∧ Regular (tm.year + 1900))) := by
  constructor
  · intro a_value year month day hour minute second y m n items range low high same days
    exact compose_iff items range low high same days
  · intro gmtime x t tm whole calendar time range
    exact round_trip_iff whole calendar time range

theorem exact_of_small {d h m s : Int}
    (small : ((|d| * 24 + |h|) * 60 + |m|) * 60 + |s| ≤ 2 ^ 53) : Exact F d h m s := by
  have := abs_nonneg d
  have := abs_nonneg h
  have := abs_nonneg m
  have := abs_nonneg s
  have bounds (x : Int) := And.intro (neg_abs_le x) (le_abs_self x)
  have := bounds d
  have := bounds h
  have := bounds m
  have := bounds s
  have total : seconds d h m s = ((d * 24 + h) * 60 + m) * 60 + s := rfl
  constructor <;> apply LawfulDouble.small <;> rw [abs_le] <;> omega

end

/-! ### An instance -/

instance : Numeric Int where
  value n := some n
  floor n := n

instance : LawfulDouble Int where
  small {n} _ := ⟨n, rfl⟩
  ofInteger _ := rfl
  add left right _ := by
    cases left
    cases right
    exact congrArg some (Int.cast_add _ _)
  subtract left right _ := by
    cases left
    cases right
    exact congrArg some (Int.cast_sub _ _)
  multiply left right _ := by
    cases left
    cases right
    exact congrArg some (Int.cast_mul _ _)
  floor whole := by
    cases whole
    exact congrArg (fun n : Int => some (n : ℚ)) (Int.floor_intCast _).symm

/-- The first day of the year zero is taken for the second. -/
theorem compose_year_zero :
    Date.Days ⟨0, 1, 1⟩ (-719528) ∧
      compose (F := Int) (O := Unit) [.integer 0, .integer 1, .integer 1] =
        .ok (seconds (-719527) 0 0 0) := by
  constructor
  · exact (Date.days_iff ⟨by decide, by decide, by decide, by decide⟩).mpr (by decide)
  · rfl

/-- The start of the day behind the 29th of February 2024. -/
def march : Tm where
  sec := 0
  min := 0
  hour := 0
  mday := 1
  mon := 2
  year := 124
  wday := 5
  yday := 60

def eve : Tm where
  sec := 59
  min := 59
  hour := 23
  mday := 31
  mon := 11
  year := 69
  wday := 3
  yday := 364

theorem days_of_number {y m d n : Int}
    (valid : 1 ≤ m ∧ m ≤ 12 ∧ 1 ≤ d ∧ d ≤ monthLength y m)
    (number : Date.number ⟨y, m, d⟩ = n) : Date.Days ⟨y, m, d⟩ n :=
  (Date.days_iff ⟨valid.1, valid.2.1, valid.2.2.1, valid.2.2.2⟩).mpr number

theorem march_isTime : march.IsTime (seconds 19783 0 0 0) :=
  ⟨⟨19783, days_of_number (by decide) (by decide), rfl, rfl,
    days_of_number (by decide) (by decide)⟩, by decide, by decide, by decide⟩

theorem eve_isTime : eve.IsTime (-1) :=
  ⟨⟨-1, days_of_number (by decide) (by decide), rfl, rfl,
    days_of_number (by decide) (by decide)⟩, by decide, by decide, by decide⟩

theorem isCalendar_of_isTime {tm : Tm} {t : Int} (time : tm.IsTime t) (year : FitsInt tm.year) :
    IsCalendar (fun _ => some tm) t where
  sound same := by
    cases same
    exact ⟨time, year⟩
  complete _ _ same := by cases same

theorem inRange_of_days {F : Type} [Double F] [Numeric F] {y m d h mi s : Int} {days : Int}
    (counts : dayNumber y m d = .ok days) (exact_ : Exact F days h mi s) :
    InRange F y m d h mi s := by
  intro days' counts'
  rw [counts] at counts'
  cases counts'
  exact exact_

/-- A day behind a leap day and a second before 1970. -/
theorem calendar_iff_leap :
    ((∃ t, compose (F := Int) (O := Unit) [.integer 2024, .integer 3, .integer 1] = .ok t ∧
        value t = some (seconds (19783 + 1 - 1) 0 0 0 : ℚ)) ∧
      ∃ t, compose (F := Int) (O := Unit) [.integer 1969, .integer 12, .integer 31, .integer 23,
          .integer 59, .integer 59] = .ok t ∧
        value t = some (seconds (-31 + 31 - 1) 23 59 59 : ℚ)) ∧
      (∃ (a_value : List (Value Int Unit)) (t : Int),
        decompose (fun _ => some march) (seconds 19783 0 0 0) = .ok a_value ∧
          compose a_value = .ok t ∧ value t = some (seconds 19783 0 0 0 : ℚ)) ∧
      ∃ (a_value : List (Value Int Unit)) (t : Int),
        decompose (fun _ => some eve) (-1 : Int) = .ok a_value ∧
          compose a_value = .ok t ∧ value t = some ((-1 : Int) : ℚ) := by
  have later : InRange Int 2024 3 1 0 0 0 :=
    inRange_of_days (show dayNumber 2024 3 1 = .ok 19783 by decide) (exact_of_small (by decide))
  have earlier : InRange Int 1969 12 31 23 59 59 :=
    inRange_of_days (show dayNumber 1969 12 31 = .ok (-1) by decide) (exact_of_small (by decide))
  refine ⟨⟨?_, ?_⟩, ?_, ?_⟩
  · apply ((calendar_iff Int Unit).1 _ 2024 3 1 0 0 0 2024 3 19783 ?_ later (by decide)
      (by decide) rfl (days_of_number (by decide) (by decide))).mpr
    · decide
    · exact ⟨⟨_, rfl, _, rfl, rfl⟩, ⟨_, rfl, _, rfl, rfl⟩, ⟨_, rfl, _, rfl, rfl⟩, rfl, rfl, rfl⟩
  · apply ((calendar_iff Int Unit).1 _ 1969 12 31 23 59 59 1969 12 (-31) ?_ earlier (by decide)
      (by decide) rfl (days_of_number (by decide) (by decide))).mpr
    · decide
    · exact ⟨⟨_, rfl, _, rfl, rfl⟩, ⟨_, rfl, _, rfl, rfl⟩, ⟨_, rfl, _, rfl, rfl⟩,
        ⟨_, rfl, rfl⟩, ⟨_, rfl, rfl⟩, Or.inl ⟨_, rfl, rfl⟩⟩
  · apply ((calendar_iff Int Unit).2 _ _ _ march rfl
      (isCalendar_of_isTime march_isTime (by decide)) march_isTime later).mpr
    decide
  · apply ((calendar_iff Int Unit).2 _ _ _ eve rfl
      (isCalendar_of_isTime eve_isTime (by decide)) eve_isTime earlier).mpr
    decide

end Xemmai.Time
