import Xemmai.List

/-!
# Insertion into a list

`f_insert` opens a gap by moving the elements on the shorter side of the index. A
negative index that reaches the first element is not passed to `f_unshift`, and
where the window then starts at the first slot the value lands behind that element.
-/

namespace Xemmai.TList

set_option autoImplicit false

variable {α : Type}

section

variable (null : α) (memory : Entries α)

/-- The moves of `f_insert`, so the tuple's entries and the new head. Where `i` is
zero `--i` is before the tuple, and nothing is moved. -/
def opened (list : TList α) (tuple : Tuple α) (index : Nat) (value : α) : Entries α × Nat :=
  let i := list.head + index
  let j := list.head + list.size
  let n := tuple.size
  let p := tuple.entries
  if (index : Int) < (list.size : Int) - index then
    if i > n then
      let (p, slot) := p.moveBackward (list.head - 1) (n - 1)
      let p := p.set slot (p 0)
      let (p, slot) := p.moveBackward 0 (i - 1 - n)
      (p.set slot value, list.head - 1)
    else if list.head > 0 then
      let (p, slot) := p.moveBackward (list.head - 1) (i - 1)
      (p.set slot value, list.head - 1)
    else
      let p := p.set (n - 1) (p 0)
      let (p, slot) := p.moveBackward 0 (i - 1)
      (p.set slot value, n - 1)
  else
    let p :=
      if i ≥ n then
        let (p, slot) := p.moveForward (i - n) (j - n)
        p.set slot value
      else if j ≥ n then
        let (p, slot) := p.moveForward 0 (j - n)
        let p := p.set slot (p (n - 1))
        let (p, slot) := p.moveForward i (n - 1)
        p.set slot value
      else
        let (p, slot) := p.moveForward i j
        p.set slot value
    (p, list.head)

def insert (list : TList α) (index : Int) (value : α) : Except Error Unit × TList α :=
  if index = list.size then list.push null memory value
  else if index = 0 then list.unshift null memory value
  else
    match list.validate index with
    | .error error => (.error error, list)
    | .ok index =>
      let list := if list.size ≥ list.grow then list.growing null memory else list
      match list.tuple with
      | none => (.error .noTuple, list)
      | some tuple =>
        let (entries, head) := list.opened tuple index value
        (.ok (), { list with
          tuple := some { tuple with entries := entries }
          head := head
          size := list.size + 1 })

end

section

variable {null : α} {list : TList α} {tuple : Tuple α} {items : List α}

/-- A ring whose slots hold what those of a window do and the value at `index` is
the window with the value. -/
theorem window_insertIdx {entries after : Entries α} {n head next index : Nat} {value : α}
    (window : Window null entries n head items) (within : index ≤ items.length)
    (room : items.length < n) (start : next < n)
    (reads : ∀ offset, offset < n → after (wrap n (next + offset)) =
      if offset < index then entries (wrap n (head + offset))
      else if offset = index then value
      else entries (wrap n (head + (offset - 1)))) :
    Window null after n next (items.insertIdx index value) := by
  have length : (items.insertIdx index value).length = items.length + 1 :=
    List.length_insertIdx_of_le_length within ..
  refine ⟨start, by omega, ?_⟩
  intro offset inside
  rw [reads offset inside, List.getElem?_insertIdx]
  split
  · exact window.reads offset inside
  · split
    case isTrue same =>
      rw [if_pos (by omega)]
      rfl
    · exact window.reads (offset - 1) (by omega)

/-- Opening a gap on either side inserts the value, behind the first element where
the index is that of the first element and of the first slot. -/
theorem opened_window (window : Window null tuple.entries tuple.size list.head items)
    (size : items.length = list.size) {index : Nat} (within : index < list.size)
    (room : list.size < tuple.size) (value : α) :
    Window null (list.opened tuple index value).1 tuple.size
      (list.opened tuple index value).2
      (items.insertIdx (if index = 0 ∧ list.head = 0 then 1 else index) value) := by
  have start := window.start
  simp only [opened]
  split
  case isTrue left =>
    split
    case isTrue beyond =>
      rw [if_neg (by omega)]
      apply window_insertIdx window (by omega) (by omega) (by simp only; omega)
      intro offset inside
      rw [Entries.moveBackward_eq _ (by omega : list.head - 1 ≤ tuple.size - 1),
        Entries.moveBackward_eq _ (Nat.zero_le _)]
      simp only [Entries.set_apply, wrap]
      grind
    case isFalse inner =>
      split
      case isTrue behind =>
        rw [if_neg (by omega)]
        apply window_insertIdx window (by omega) (by omega) (by simp only; omega)
        intro offset inside
        rw [Entries.moveBackward_eq _ (by omega)]
        simp only [Entries.set_apply, wrap]
        grind
      case isFalse front =>
        apply window_insertIdx window (by split <;> omega) (by omega) (by simp only; omega)
        intro offset inside
        rw [Entries.moveBackward_eq _ (Nat.zero_le _)]
        simp only [Entries.set_apply, wrap]
        grind
  case isFalse right =>
    have inner : ¬(index = 0 ∧ list.head = 0) := by omega
    rw [if_neg inner]
    apply window_insertIdx window (by omega) (by omega) start
    intro offset inside
    -- Past the window, both the slot and the one it takes from are null.
    have blank : ∀ slot, slot < tuple.size →
        (list.head + list.size ≤ slot ∨
          slot < list.head ∧ list.head + list.size ≤ slot + tuple.size) →
        tuple.entries slot = null :=
      fun slot inside outside => window_blank window inside (by omega)
    simp only
    split
    case isTrue beyond =>
      rw [Entries.moveForward_eq _ (by omega)]
      simp only [Entries.set_apply, wrap]
      split_ifs
      all_goals first
        | omega
        | rfl
        | (congr 1; omega)
        | rw [blank _ (by omega) (by omega), blank _ (by omega) (by omega)]
    case isFalse =>
      split
      case isTrue wraps =>
        rw [Entries.moveForward_eq _ (Nat.zero_le _),
          Entries.moveForward_eq _ (by omega : list.head + index ≤ tuple.size - 1)]
        simp only [Entries.set_apply, wrap]
        split_ifs
        all_goals first
          | omega
          | rfl
          | (congr 1; omega)
          | rw [blank _ (by omega) (by omega), blank _ (by omega) (by omega)]
      case isFalse =>
        rw [Entries.moveForward_eq _ (by omega)]
        simp only [Entries.set_apply, wrap]
        split_ifs
        all_goals first
          | omega
          | rfl
          | (congr 1; omega)
          | rw [blank _ (by omega) (by omega), blank _ (by omega) (by omega)]

end

/-- Where a value is to be inserted: an index that is negative counts from the size,
which is an index itself. -/
def insertion (items : List α) (index : Int) : Option Nat :=
  if index = items.length then some items.length else position items index

/-- The first element is addressed from the end while the window starts, or is going
to start, at the first slot. -/
def Displaced (list : TList α) (index : Int) : Prop :=
  index < 0 ∧ index + list.size = 0 ∧ (list.head = 0 ∨ list.size ≥ list.grow)

instance (list : TList α) (index : Int) : Decidable (list.Displaced index) :=
  inferInstanceAs (Decidable (_ ∧ _ ∧ _))

namespace Holds

variable {null : α} {list : TList α} {items : List α}

theorem position_zero (some_ : (0 : Int) ≠ items.length) : position items 0 = some 0 := by
  simp only [position]
  rw [if_neg (by omega), if_pos (by omega)]
  rfl

theorem insert_outside (holds : Holds null list items) (memory : Entries α) {index : Int}
    (outside : insertion items index = none) (value : α) :
    list.insert null memory index value = (.error .outOfRange, list) := by
  have size := holds.size
  simp only [insertion] at outside
  split at outside
  · cases outside
  case isFalse apart =>
    have apart' : index ≠ list.size := by rw [size]; exact apart
    have nonzero : index ≠ 0 := by
      rintro rfl
      rw [position_zero apart] at outside
      cases outside
    simp only [TList.insert, if_neg apart', if_neg nonzero, holds.validate, outside]

theorem insert_inside (holds : Holds null list items) (memory : Entries α) {index : Int}
    {within : Nat} (valid : insertion items index = some within) (value : α) :
    (list.insert null memory index value).1 = .ok () ∧
      Holds null (list.insert null memory index value).2
        (items.insertIdx (if list.Displaced index then 1 else within) value) := by
  have size := holds.size
  simp only [insertion] at valid
  simp only [TList.insert, size]
  split at valid
  case isTrue last =>
    cases valid
    have plain : ¬list.Displaced index := by rintro ⟨negative, -, -⟩; omega
    rw [if_pos last, if_neg plain, List.insertIdx_length_self]
    exact holds.push memory value
  case isFalse apart =>
    rw [if_neg apart]
    have inside := position_lt valid
    split
    case isTrue zero =>
      subst zero
      have plain : ¬list.Displaced 0 := by rintro ⟨negative, -, -⟩; omega
      have front : within = 0 := by
        rw [position_zero apart] at valid
        exact (Option.some.inj valid).symm
      rw [if_neg plain, front, List.insertIdx_zero]
      exact holds.unshift memory value
    case isFalse nonzero =>
      rw [holds.validate, valid]
      obtain ⟨grown, room⟩ := holds.roomy memory
      have same : (if list.size ≥ list.grow then list.growing null memory else list).size =
          list.size := by
        rw [grown.size, size]
      have displaced : list.Displaced index ↔ within = 0 ∧
          (if list.size ≥ list.grow then list.growing null memory else list).head = 0 := by
        have reached : index < 0 ∧ index + list.size = 0 ↔ within = 0 := by
          simp only [position] at valid
          split_ifs at valid <;> cases valid <;> omega
        rw [Displaced, ← and_assoc, reached]
        split
        case isTrue full =>
          have moved : (list.growing null memory).head = 0 := by
            simp only [TList.growing, if_neg (by omega : ¬list.size ≤ 0)]
            obtain ⟨tuple, here⟩ := holds.filled (by omega)
            rw [here]
            rfl
          simp [moved, full]
        case isFalse free => simp [free]
      simp only [← size]
      generalize (if list.size ≥ list.grow then list.growing null memory else list) = after
        at grown room same displaced ⊢
      obtain ⟨tuple, here, grow, window, free⟩ := grown.roomy_tuple room
      simp only [here, displaced]
      refine ⟨trivial, ?_, ?_, grow, ?_⟩
      · have position : (if within = 0 ∧ after.head = 0 then 1 else within) ≤ items.length := by
          split <;> omega
        simp only [List.length_insertIdx_of_le_length position, same, size]
      · have := grown.shrink
        simp only
        omega
      · exact opened_window window grown.size.symm (by omega) (by omega) value

end Holds

end Xemmai.TList
