import Mathlib.Algebra.Order.Ring.Int

/-!
# Positions on a ring

Unbounded positions laid on a ring of `size` slots: position `k` stands in slot
`k % size`. Two positions less than a lap apart are compared slot by slot.
-/

namespace Xemmai.Circular

set_option autoImplicit false

/-- Two positions less than a lap apart stand either on the same lap, or the
later one is a lap further. -/
theorem apart (size first second : Int) (ordered : first ≤ second)
    (close : second < first + size) :
    (first % size ≤ second % size ∧
      second % size = first % size + (second - first)) ∨
    (second % size < first % size ∧
      second % size + size = first % size + (second - first)) := by
  have positive : 0 < size := by omega
  have firstLow := Int.emod_nonneg first (by omega : size ≠ 0)
  have firstHigh := Int.emod_lt_of_pos first positive
  have total : second % size = (first % size + (second - first)) % size := by
    rw [Int.emod_add_emod]
    congr 1
    omega
  rcases lt_or_ge (first % size + (second - first)) size with same | over_
  · left
    rw [Int.emod_eq_of_lt (by omega) same] at total
    omega
  · right
    have reduced : (first % size + (second - first)) % size =
        first % size + (second - first) - size := by
      rw [← Int.sub_emod_right, Int.emod_eq_of_lt (by omega) (by omega)]
    omega

theorem slot_injective {size first second : Int} (ordered : first ≤ second)
    (close : second < first + size) (same : first % size = second % size) :
    first = second := by
  have := apart size first second ordered close
  omega

theorem slot_succ (size : Int) (positive : 0 < size) (position : Int) :
    (position + 1) % size =
      if position % size < size - 1 then position % size + 1 else 0 := by
  have low := Int.emod_nonneg position (by omega : size ≠ 0)
  have high := Int.emod_lt_of_pos position positive
  rcases Int.lt_or_le size 2 with one | more
  · obtain rfl : size = 1 := by omega
    simp
  · have := apart size position (position + 1) (by omega) (by omega)
    have nextLow := Int.emod_nonneg (position + 1) (by omega : size ≠ 0)
    have nextHigh := Int.emod_lt_of_pos (position + 1) positive
    split <;> omega

/-- The slot after `slot` on a ring of `size` slots. -/
def next (size slot : Nat) : Nat :=
  if slot + 1 ≥ size then 0 else slot + 1

def distance (size first second : Nat) : Nat :=
  if first ≤ second then second - first else second + size - first

section Distance

variable {size first second : Nat}

theorem next_lt (inside : first < size) : next size first < size := by
  simp only [next]
  split <;> omega

theorem distance_lt (inside : first < size) (other : second < size) :
    distance size first second < size := by
  simp only [distance]
  split <;> omega

@[simp] theorem distance_self (size slot : Nat) : distance size slot slot = 0 := by
  simp [distance]

theorem distance_next_left (inside : first < size) (other : second < size)
    (apart : first ≠ second) :
    distance size (next size first) second + 1 = distance size first second := by
  simp only [distance, next]
  split_ifs <;> omega

theorem distance_next_right (inside : first < size) (other : second < size)
    (apart : next size second ≠ first) :
    distance size first (next size second) = distance size first second + 1 := by
  simp only [distance, next] at apart ⊢
  split_ifs at apart ⊢ <;> omega

theorem distance_last (other : second < size) (behind : next size second = first) :
    distance size first second + 1 = size := by
  simp only [distance, next] at behind ⊢
  split_ifs at behind ⊢ <;> omega

theorem distance_injective {third : Nat} (inside : first < size) (other : second < size)
    (another : third < size)
    (same : distance size first second = distance size first third) : second = third := by
  simp only [distance] at same
  split_ifs at same <;> omega

theorem distance_add {third : Nat} (inside : first < size) (other : second < size)
    (another : third < size)
    (nearer : distance size first second ≤ distance size first third) :
    distance size first second + distance size second third =
      distance size first third := by
  simp only [distance] at nearer ⊢
  split_ifs at nearer ⊢ <;> omega

theorem distance_add_right {third : Nat} (inside : first < size)
    (other : second < size)
    (nearer : distance size second third ≤ distance size first third) :
    distance size first second + distance size second third =
      distance size first third := by
  simp only [distance] at nearer ⊢
  split_ifs at nearer ⊢ <;> omega

theorem distance_join {third : Nat} (inside : first < size) (other : second < size)
    (within : distance size first second + distance size second third < size) :
    distance size first third =
      distance size first second + distance size second third := by
  simp only [distance] at within ⊢
  split_ifs at within ⊢ <;> omega

theorem distance_left_injective {third : Nat} (inside : first < size)
    (other : second < size)
    (same : distance size first third = distance size second third) : first = second := by
  simp only [distance] at same
  split_ifs at same <;> omega

theorem next_ne (more : 1 < size) (slot : Nat) (inside : slot < size) :
    next size slot ≠ slot := by
  simp only [next]
  split <;> omega

def previous (size slot : Nat) : Nat :=
  if slot = 0 then size - 1 else slot - 1

theorem previous_lt (inside : first < size) : previous size first < size := by
  simp only [previous]
  split <;> omega

theorem next_previous (inside : first < size) :
    next size (previous size first) = first := by
  simp only [next, previous]
  split_ifs <;> omega

end Distance

end Xemmai.Circular
