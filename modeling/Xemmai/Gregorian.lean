import Mathlib.Tactic.IntervalCases
import Mathlib.Data.Int.Basic

/-!
# The proleptic Gregorian calendar

Dates follow one another, the years before the first included, and a day is told by how
many days after 1970-01-01 it is. The number of the first day of a year is a sum of
quotients that round down.
-/

namespace Xemmai.Gregorian

set_option autoImplicit false

structure Date where
  year : Int
  month : Int
  day : Int
  deriving DecidableEq, Repr

/-- Every fourth year, of the centuries only every fourth. -/
def Leap (year : Int) : Prop := year % 4 = 0 ∧ (year % 100 ≠ 0 ∨ year % 400 = 0)

instance (year : Int) : Decidable (Leap year) := inferInstanceAs (Decidable (_ ∧ _))

def monthLength (year month : Int) : Int :=
  if month = 2 then if Leap year then 29 else 28
  else if month = 4 ∨ month = 6 ∨ month = 9 ∨ month = 11 then 30
  else 31

namespace Date

structure Valid (date : Date) : Prop where
  month_low : 1 ≤ date.month
  month_high : date.month ≤ 12
  day_low : 1 ≤ date.day
  day_high : date.day ≤ monthLength date.year date.month

def next (date : Date) : Date :=
  if date.day < monthLength date.year date.month then { date with day := date.day + 1 }
  else if date.month < 12 then ⟨date.year, date.month + 1, 1⟩
  else ⟨date.year + 1, 1, 1⟩

inductive Days : Date → Int → Prop
  | epoch : Days ⟨1970, 1, 1⟩ 0
  | forward {date : Date} {n : Int} (days : Days date n) : Days date.next (n + 1)
  | backward {date : Date} {n : Int} (valid : date.Valid) (days : Days date.next (n + 1)) :
      Days date n

def base (month : Int) : Int :=
  match month with
  | 1 => 0 | 2 => 31 | 3 => 59 | 4 => 90 | 5 => 120 | 6 => 151
  | 7 => 181 | 8 => 212 | 9 => 243 | 10 => 273 | 11 => 304 | _ => 334

def before (year : Int) : Int :=
  (year - 1) * 365 + (year - 1) / 4 - (year - 1) / 100 + (year - 1) / 400 - 719162

def number (date : Date) : Int :=
  before date.year + base date.month + (if 2 < date.month ∧ Leap date.year then 1 else 0) +
    date.day - 1

theorem monthLength_pos (year month : Int) : 28 ≤ monthLength year month := by
  unfold monthLength
  split
  · split <;> omega
  · split <;> omega

theorem before_next (year : Int) :
    before (year + 1) = before year + if Leap year then 366 else 365 := by
  unfold before
  by_cases leap : Leap year
  · rw [if_pos leap]
    unfold Leap at leap
    omega
  · rw [if_neg leap]
    unfold Leap at leap
    omega

def start (year month : Int) : Int :=
  base month + if 2 < month ∧ Leap year then 1 else 0

theorem start_next (year : Int) {month : Int} (low : 1 ≤ month) (more : month < 12) :
    start year (month + 1) = start year month + monthLength year month := by
  unfold start
  by_cases leap : Leap year <;> interval_cases month <;> simp [base, monthLength, leap]

theorem number_next {date : Date} (valid : date.Valid) : date.next.number = date.number + 1 := by
  obtain ⟨year, month, day⟩ := date
  obtain ⟨low, high, low', high'⟩ := valid
  simp only at low high low' high'
  unfold next
  simp only
  split
  · simp only [number]
    omega
  · rename_i last
    have end_ : day = monthLength year month := by omega
    split
    · rename_i more
      have sum := start_next year low more
      unfold start at sum
      simp only [number]
      omega
    · have december : month = 12 := by omega
      subst december
      have whole : (31 : Int) = monthLength year 12 := by simp [monthLength]
      have later := before_next year
      simp only [number, base]
      by_cases leap : Leap year <;> simp [leap] at later ⊢ <;> omega

theorem valid_next {date : Date} (valid : date.Valid) : date.next.Valid := by
  obtain ⟨year, month, day⟩ := date
  obtain ⟨low, high, low', high'⟩ := valid
  simp only at low high low' high'
  unfold next
  simp only
  split
  · constructor <;> simp only <;> omega
  · split
    · have long := monthLength_pos year (month + 1)
      constructor <;> simp only <;> omega
    · have long := monthLength_pos (year + 1) 1
      constructor <;> simp only <;> omega

theorem Days.valid {date : Date} {n : Int} (days : Days date n) : date.Valid := by
  induction days with
  | epoch => exact ⟨by decide, by decide, by decide, by decide⟩
  | forward _ induction => exact valid_next induction
  | backward valid _ _ => exact valid

theorem Days.number_eq {date : Date} {n : Int} (days : Days date n) : date.number = n := by
  induction days with
  | epoch => decide
  | forward days induction =>
      rw [number_next days.valid, induction]
  | backward valid _ induction =>
      rw [number_next valid] at induction
      omega

/-! ### Every date has its days -/

section

variable {year month n : Int}

theorem days_within (low : 1 ≤ month) (high : month ≤ 12) (k : Nat)
    (inside : (k : Int) < monthLength year month) :
    Days ⟨year, month, 1⟩ n ↔ Days ⟨year, month, 1 + k⟩ (n + k) := by
  induction k with
  | zero => simp
  | succ k induction =>
      have earlier : (k : Int) < monthLength year month := by omega
      rw [induction earlier]
      have step : next ⟨year, month, 1 + k⟩ = ⟨year, month, 1 + (k + 1 : Nat)⟩ := by
        unfold next
        rw [if_pos (by simp only; omega)]
        congr 1
      have count : n + (k + 1 : Nat) = n + k + 1 := by
        push_cast
        omega
      rw [count, ← step]
      constructor
      · exact Days.forward
      · exact Days.backward ⟨low, high, by simp only; omega, by simp only; omega⟩

theorem days_month (low : 1 ≤ month) (high : month ≤ 12) :
    Days ⟨year, month, 1⟩ n ↔
      Days (next ⟨year, month, monthLength year month⟩) (n + monthLength year month) := by
  have long := monthLength_pos year month
  obtain ⟨k, same⟩ : ∃ k : Nat, monthLength year month = k + 1 :=
    ⟨(monthLength year month - 1).toNat, by omega⟩
  have last : (⟨year, month, monthLength year month⟩ : Date) = ⟨year, month, 1 + k⟩ := by
    congr 1
    omega
  rw [days_within low high k (by omega), last, same, ← Int.add_assoc]
  constructor
  · exact Days.forward
  · exact Days.backward ⟨low, high, by simp only; omega, by simp only; omega⟩

theorem next_month (more : month < 12) :
    next ⟨year, month, monthLength year month⟩ = ⟨year, month + 1, 1⟩ := by
  unfold next
  rw [if_neg (Int.lt_irrefl _), if_pos more]

theorem days_later (low : 1 ≤ month) (more : month < 12) :
    (∃ n, Days ⟨year, month, 1⟩ n) ↔ ∃ n, Days ⟨year, month + 1, 1⟩ n := by
  constructor
  · intro ⟨n, days⟩
    rw [days_month low (by omega), next_month more] at days
    exact ⟨_, days⟩
  · intro ⟨n, days⟩
    refine ⟨n - monthLength year month, ?_⟩
    rw [days_month low (by omega), next_month more, Int.sub_add_cancel]
    exact days

theorem days_months (k : Nat) (few : k < 12) :
    (∃ n, Days ⟨year, 1, 1⟩ n) ↔ ∃ n, Days ⟨year, 1 + k, 1⟩ n := by
  induction k with
  | zero => simp
  | succ k induction =>
      rw [induction (by omega), days_later (by omega) (by omega)]
      have same : (1 : Int) + (k + 1 : Nat) = 1 + k + 1 := by
        push_cast
        omega
      rw [same]

theorem days_year (year : Int) :
    (∃ n, Days ⟨year, 1, 1⟩ n) ↔ ∃ n, Days ⟨year + 1, 1, 1⟩ n := by
  have turn : next ⟨year, 12, monthLength year 12⟩ = ⟨year + 1, 1, 1⟩ := by
    unfold next
    rw [if_neg (Int.lt_irrefl _), if_neg (Int.lt_irrefl _)]
  rw [days_months 11 (by omega)]
  constructor
  · intro ⟨n, days⟩
    have later := (days_month (by decide) (by decide)).mp days
    rw [show (1 : Int) + (11 : Nat) = 12 from rfl, turn] at later
    exact ⟨_, later⟩
  · intro ⟨n, days⟩
    refine ⟨n - monthLength year 12, ?_⟩
    apply (days_month (by decide) (by decide)).mpr
    rw [show (1 : Int) + (11 : Nat) = 12 from rfl, turn, Int.sub_add_cancel]
    exact days

theorem exists_days_year (year : Int) : ∃ n, Days ⟨year, 1, 1⟩ n := by
  induction year using Int.inductionOn' (b := 1970) with
  | zero => exact ⟨0, .epoch⟩
  | succ year _ induction => exact (days_year year).mp induction
  | pred year _ induction =>
      apply (days_year (year - 1)).mpr
      rw [Int.sub_add_cancel]
      exact induction

theorem exists_days {date : Date} (valid : date.Valid) : ∃ n, Days date n := by
  obtain ⟨year, month, day⟩ := date
  obtain ⟨low, high, low', high'⟩ := valid
  simp only at low high low' high'
  obtain ⟨n, first⟩ := (days_months (month - 1).toNat (by omega)).mp (exists_days_year year)
  have same : 1 + ((month - 1).toNat : Int) = month := by omega
  rw [same] at first
  have inside := (days_within low high (day - 1).toNat (by omega)).mp first
  have same' : 1 + ((day - 1).toNat : Int) = day := by omega
  rw [same'] at inside
  exact ⟨_, inside⟩

theorem days_iff {date : Date} (valid : date.Valid) : Days date n ↔ date.number = n := by
  constructor
  · exact Days.number_eq
  · intro same
    obtain ⟨m, days⟩ := exists_days valid
    rw [← same, days.number_eq]
    exact days

/-! ### The number tells the date -/

theorem start_lt (year : Int) {later : Int} (low : 1 ≤ month) (after : month < later)
    (high : later ≤ 12) :
    start year month + monthLength year month ≤ start year later := by
  induction later, after using Int.leInduction with
  | base => rw [start_next year low (by omega)]
  | succ later between induction =>
      rw [start_next year (by omega) (by omega)]
      have long := monthLength_pos year later
      have := induction (by omega)
      omega

theorem start_last : start year 12 + monthLength year 12 = if Leap year then 366 else 365 := by
  by_cases leap : Leap year <;> simp [start, base, monthLength, leap]

theorem number_eq_start {date : Date} :
    date.number = before date.year + start date.year date.month + date.day - 1 := by
  unfold number start
  omega

theorem number_bounds {date : Date} (valid : date.Valid) :
    before date.year ≤ date.number ∧ date.number < before (date.year + 1) := by
  obtain ⟨low, high, low', high'⟩ := valid
  rw [number_eq_start, before_next, ← start_last]
  have first : start date.year 1 = 0 := by simp [start, base]
  constructor
  · by_cases january : date.month = 1
    · rw [january]
      omega
    · have := start_lt date.year (Int.le_refl 1) (by omega) high
      have long := monthLength_pos date.year 1
      omega
  · by_cases december : date.month = 12
    · rw [december] at high' ⊢
      omega
    · have := start_lt date.year low (by omega) (Int.le_refl 12)
      have long := monthLength_pos date.year 12
      omega

theorem before_le {later : Int} (after : year ≤ later) : before year ≤ before later := by
  unfold before
  omega

theorem number_inj {left right : Date} (valid : left.Valid) (valid' : right.Valid)
    (same : left.number = right.number) : left = right := by
  have bounds := number_bounds valid
  have bounds' := number_bounds valid'
  have years : left.year = right.year := by
    by_contra other
    cases Int.lt_or_gt_of_ne other with
    | inl earlier =>
        have := before_le (show left.year + 1 ≤ right.year by omega)
        omega
    | inr later =>
        have := before_le (show right.year + 1 ≤ left.year by omega)
        omega
  obtain ⟨low, high, low', high'⟩ := valid
  obtain ⟨low2, high2, low2', high2'⟩ := valid'
  rw [number_eq_start, number_eq_start, years] at same
  rw [years] at high'
  have months : left.month = right.month := by
    by_contra other
    cases Int.lt_or_gt_of_ne other with
    | inl earlier =>
        have := start_lt right.year low earlier high2
        omega
    | inr later =>
        have := start_lt right.year low2 later high
        omega
  rw [months] at same
  obtain ⟨y, m, d⟩ := left
  simp only at years months same
  subst years months
  have days : d = right.day := by omega
  rw [days]

end

end Date

end Xemmai.Gregorian
