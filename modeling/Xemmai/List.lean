import Mathlib.Data.List.Induction

/-!
# The list object

`t_list` keeps its elements in a tuple used as a ring buffer: `v_size` elements
from the slot `v_head` on, wrapping at the end of the tuple. The tuple grows when
it is full and shrinks when few elements are left; either way the elements are
copied to the front of a fresh tuple, whose memory holds anything at first.
-/

namespace Xemmai

set_option autoImplicit false

variable {α : Type}

abbrev Entries (α : Type) := Nat → α

namespace Entries

def set (entries : Entries α) (slot : Nat) (value : α) : Entries α :=
  fun other => if other = slot then value else entries other

theorem set_apply (entries : Entries α) (slot : Nat) (value : α) (other : Nat) :
    entries.set slot value other = if other = slot then value else entries other := rfl

/-- `f_move_forward`: entries below `q` move one slot up, down to `p`; the slot
they leave is returned. -/
def moveForward (entries : Entries α) (p : Nat) : Nat → Entries α × Nat
  | 0 => (entries, 0)
  | q + 1 =>
    if p < q + 1 then moveForward (entries.set (q + 1) (entries q)) p q
    else (entries, q + 1)

/-- `f_move_backward`: entries above `p` move one slot down, up to `q`. -/
def moveBackward (entries : Entries α) (p q : Nat) : Entries α × Nat :=
  if p < q then moveBackward (entries.set p (entries (p + 1))) (p + 1) q
  else (entries, p)
termination_by q - p

theorem moveForward_eq (entries : Entries α) {p q : Nat} (ordered : p ≤ q) :
    entries.moveForward p q =
      (fun slot => if p < slot ∧ slot ≤ q then entries (slot - 1) else entries slot, p) := by
  induction q generalizing entries with
  | zero =>
    obtain rfl : p = 0 := by omega
    simp only [moveForward, Prod.mk.injEq, and_true]
    funext slot
    rw [if_neg (by omega)]
  | succ q ih =>
    simp only [moveForward]
    split
    case isTrue inside =>
      rw [ih _ (by omega)]
      simp only [Prod.mk.injEq, and_true]
      funext slot
      simp only [set_apply]
      grind
    case isFalse outside =>
      obtain rfl : p = q + 1 := by omega
      simp only [Prod.mk.injEq, and_true]
      funext slot
      rw [if_neg (by omega)]

theorem moveBackward_eq (entries : Entries α) {p q : Nat} (ordered : p ≤ q) :
    entries.moveBackward p q =
      (fun slot => if p ≤ slot ∧ slot < q then entries (slot + 1) else entries slot, q) := by
  fun_induction moveBackward entries p q with
  | case1 entries p inside ih =>
    rw [ih (by omega)]
    simp only [Prod.mk.injEq, and_true]
    funext slot
    simp only [set_apply]
    grind
  | case2 entries p outside =>
    obtain rfl : p = q := by omega
    simp only [Prod.mk.injEq, and_true]
    funext slot
    rw [if_neg (by omega)]

/-- `do new(&tuple1[i++]) t_svalue(tuple0[v_head++]); while (v_head < n);` -/
def copyToEnd (source : Entries α) (n : Nat) (target : Entries α) (i head : Nat) :
    Entries α × Nat :=
  let target := target.set i (source head)
  if head + 1 < n then copyToEnd source n target (i + 1) (head + 1)
  else (target, i + 1)
termination_by n - head

/-- `do new(&tuple1[i++]) t_svalue(tuple0[v_head++]); while (i < v_size);` -/
def copyUpTo (source : Entries α) (size : Nat) (target : Entries α) (i head : Nat) :
    Entries α × Nat :=
  let target := target.set i (source head)
  if i + 1 < size then copyUpTo source size target (i + 1) (head + 1)
  else (target, i + 1)
termination_by size - i

/-- `do new(&tuple1[i++]) t_svalue; while (i < v_grow);` -/
def clearUpTo (target : Entries α) (null : α) (grow : Nat) (i : Nat) : Entries α :=
  let target := target.set i null
  if i + 1 < grow then clearUpTo target null grow (i + 1) else target
termination_by grow - i

theorem copyToEnd_eq (source : Entries α) {n : Nat} (target : Entries α) (i : Nat)
    {head : Nat} (inside : head < n) :
    copyToEnd source n target i head =
      (fun slot => if i ≤ slot ∧ slot < i + (n - head) then source (head + (slot - i))
        else target slot, i + (n - head)) := by
  fun_induction copyToEnd source n target i head with
  | case1 target i head after more ih =>
    rw [ih more]
    refine Prod.ext ?_ (by simp only; omega)
    funext slot
    simp only [after, set_apply]
    grind
  | case2 target i head after last =>
    obtain rfl : n = head + 1 := by omega
    refine Prod.ext ?_ (by simp only; omega)
    funext slot
    simp only [after, set_apply]
    grind

theorem copyUpTo_eq (source : Entries α) {size : Nat} (target : Entries α) {i : Nat}
    (head : Nat) (inside : i < size) :
    copyUpTo source size target i head =
      (fun slot => if i ≤ slot ∧ slot < size then source (head + (slot - i))
        else target slot, size) := by
  fun_induction copyUpTo source size target i head with
  | case1 target i head after more ih =>
    rw [ih more]
    refine Prod.ext ?_ rfl
    funext slot
    simp only [after, set_apply]
    grind
  | case2 target i head after last =>
    obtain rfl : size = i + 1 := by omega
    refine Prod.ext ?_ rfl
    funext slot
    simp only [after, set_apply]
    grind

theorem clearUpTo_eq (null : α) {grow : Nat} (target : Entries α) {i : Nat}
    (inside : i < grow) :
    clearUpTo target null grow i =
      fun slot => if i ≤ slot ∧ slot < grow then null else target slot := by
  fun_induction clearUpTo target null grow i with
  | case1 target i after more ih =>
    rw [ih more]
    funext slot
    simp only [after, set_apply]
    grind
  | case2 target i after last =>
    obtain rfl : grow = i + 1 := by omega
    funext slot
    simp only [after, set_apply]
    grind

end Entries

/-- A slot number run past the end of a ring of `n` slots. -/
def wrap (n slot : Nat) : Nat :=
  if slot < n then slot else slot - n

/-- The items lie in a ring of `n` slots from `head` on, and the other slots are
null. -/
structure Window (null : α) (entries : Entries α) (n head : Nat) (items : List α) :
    Prop where
  start : head < n
  fits : items.length ≤ n
  reads : ∀ offset, offset < n →
    entries (wrap n (head + offset)) = items[offset]?.getD null

namespace Window

variable {null : α} {entries : Entries α} {n head : Nat} {items : List α}

theorem item (window : Window null entries n head items) {offset : Nat}
    (within : offset < items.length) :
    entries (wrap n (head + offset)) = items[offset] := by
  rw [window.reads offset (Nat.lt_of_lt_of_le within window.fits),
    List.getElem?_eq_getElem within, Option.getD_some]

theorem empty (positive : 0 < n) : Window null (fun _ => null) n 0 [] where
  start := positive
  fits := Nat.zero_le n
  reads := fun _ _ => rfl

theorem set (window : Window null entries n head items) {index : Nat}
    (within : index < items.length) (value : α) :
    Window null (entries.set (wrap n (head + index)) value) n head
      (items.set index value) where
  start := window.start
  fits := by simpa using window.fits
  reads := by
    intro offset inside
    have := window.start
    have := window.fits
    have old := window.reads offset inside
    simp only [Entries.set_apply, List.getElem?_set]
    by_cases same : offset = index
    · subst same
      simp [within]
    · rw [if_neg (by simp only [wrap]; split <;> split <;> omega), if_neg (by omega), old]

theorem push (window : Window null entries n head items) (room : items.length < n)
    (value : α) :
    Window null (entries.set (wrap n (head + items.length)) value) n head
      (items ++ [value]) where
  start := window.start
  fits := by
    simp only [List.length_append, List.length_singleton]
    omega
  reads := by
    intro offset inside
    have := window.start
    have old := window.reads offset inside
    simp only [Entries.set_apply]
    by_cases same : offset = items.length
    · subst same
      simp
    · rw [if_neg (by simp only [wrap]; split <;> split <;> omega), old]
      rcases Nat.lt_or_ge offset items.length with before | after
      · rw [List.getElem?_append_left before]
      · rw [List.getElem?_eq_none after, List.getElem?_eq_none (by simp; omega)]

theorem pop {value : α} (window : Window null entries n head (items ++ [value])) :
    Window null (entries.set (wrap n (head + items.length)) null) n head items where
  start := window.start
  fits := by
    have := window.fits
    simp only [List.length_append, List.length_singleton] at this
    omega
  reads := by
    intro offset inside
    have := window.start
    have fits := window.fits
    have old := window.reads offset inside
    simp only [List.length_append, List.length_singleton] at fits
    simp only [Entries.set_apply]
    by_cases same : offset = items.length
    · subst same
      simp
    · rw [if_neg (by simp only [wrap]; split <;> split <;> omega), old]
      rcases Nat.lt_or_ge offset items.length with before | after
      · rw [List.getElem?_append_left before]
      · rw [List.getElem?_eq_none after, List.getElem?_eq_none (by simp; omega)]

theorem unshift (window : Window null entries n head items) (room : items.length < n)
    (value : α) :
    Window null (entries.set ((if head > 0 then head else n) - 1) value) n
      ((if head > 0 then head else n) - 1) (value :: items) where
  start := by
    have := window.start
    split <;> omega
  fits := by
    simp only [List.length_cons]
    omega
  reads := by
    intro offset inside
    have := window.start
    simp only [Entries.set_apply]
    cases offset with
    | zero =>
      rw [if_pos (by simp only [wrap]; split <;> split <;> omega)]
      rfl
    | succ offset =>
      have old := window.reads offset (by omega)
      rw [if_neg (by simp only [wrap]; split <;> split <;> omega),
        List.getElem?_cons_succ, ← old]
      congr 1
      simp only [wrap]
      split <;> split <;> split <;> omega

theorem shift {value : α} (window : Window null entries n head (value :: items)) :
    Window null (entries.set head null) n (if head + 1 ≥ n then 0 else head + 1)
      items where
  start := by
    have := window.start
    split <;> omega
  fits := by
    have := window.fits
    simp only [List.length_cons] at this
    omega
  reads := by
    intro offset inside
    have := window.start
    have fits := window.fits
    simp only [List.length_cons] at fits
    simp only [Entries.set_apply]
    by_cases last : offset + 1 = n
    · rw [if_pos (by simp only [wrap]; split <;> split <;> omega),
        List.getElem?_eq_none (by omega)]
      rfl
    · have old := window.reads (offset + 1) (by omega)
      rw [List.getElem?_cons_succ] at old
      rw [if_neg (by simp only [wrap]; split <;> split <;> omega), ← old]
      congr 1
      simp only [wrap]
      split <;> split <;> split <;> omega

end Window

structure Tuple (α : Type) where
  size : Nat
  entries : Entries α

/-- `t_object::f_fields_offset(sizeof(t_tuple))`, `sizeof(t_object)` and
`sizeof(t_slot)` where a pointer has eight bytes. -/
def tupleOffset : Nat := 80
def objectSize : Nat := 128
def slotSize : Nat := 8

def capacityToSize (capacity : Nat) : Nat :=
  (tupleOffset + capacity * slotSize + objectSize - 1) / objectSize * objectSize

def sizeToCapacity (size : Nat) : Nat :=
  (size - tupleOffset) / slotSize

structure TList (α : Type) where
  tuple : Option (Tuple α)
  head : Nat
  size : Nat
  grow : Nat
  shrink : Nat

namespace TList

inductive Error
  | emptyList
  | outOfRange
  /-- A null `v_tuple` is followed. -/
  | noTuple
  deriving DecidableEq, Repr

def start : TList α where
  tuple := none
  head := 0
  size := 0
  grow := 0
  shrink := 0

section Operations

variable (null : α) (memory : Entries α)

/-- `f_at`: the slot of an element of the window, or of the one after it. -/
def slot (list : TList α) (tuple : Tuple α) (index : Nat) : Nat :=
  let index := index + list.head
  if index < tuple.size then index else index - tuple.size

/-- `f_validate`, with the index it leaves in its argument. -/
def validate (list : TList α) (index : Int) : Except Error Nat :=
  if index < 0 then
    let index := index + list.size
    if index < 0 then .error .outOfRange else .ok index.toNat
  else
    if index ≥ list.size then .error .outOfRange else .ok index.toNat

/-- What `f_resize` constructs in the fresh tuple, which holds `memory` before. -/
def construct (list : TList α) (tuple0 : Tuple α) (grow : Nat) : Entries α :=
  let (tuple1, i, head) :=
    if list.head + list.size > tuple0.size then
      let (tuple1, i) := tuple0.entries.copyToEnd tuple0.size memory 0 list.head
      (tuple1, i, 0)
    else (memory, 0, list.head)
  let (tuple1, i) := tuple0.entries.copyUpTo list.size tuple1 i head
  tuple1.clearUpTo null grow i

def resize (list : TList α) (tuple : Tuple α) : TList α :=
  let size := capacityToSize list.size
  let grow := sizeToCapacity (size * 2)
  let shrink := if size < objectSize * 2 then 0 else sizeToCapacity (size / 2)
  { list with
    tuple := some ⟨grow, list.construct null memory tuple grow⟩
    head := 0
    grow := grow
    shrink := shrink }

/-- `f_grow`; where `v_tuple` is null with elements in the list, the caller
follows it too. -/
def growing (list : TList α) : TList α :=
  if list.size ≤ 0 then
    let grow := sizeToCapacity objectSize
    { list with tuple := some ⟨grow, fun _ => null⟩, grow := grow }
  else
    match list.tuple with
    | none => list
    | some tuple => list.resize null memory tuple

def shrinking (list : TList α) (tuple : Tuple α) : TList α :=
  if list.size ≤ 0 then
    { list with tuple := none, head := 0, grow := 0 }
  else
    list.resize null memory tuple

/-- The list with `tuple` as its tuple, shrunk where few elements are left. -/
def settle (list : TList α) (tuple : Tuple α) : TList α :=
  if list.size ≤ list.shrink then list.shrinking null memory tuple
  else { list with tuple := some tuple }

def clear (list : TList α) : TList α :=
  { list with tuple := none, head := 0, size := 0, grow := 0, shrink := 0 }

def get (list : TList α) (index : Int) : Except Error α × TList α :=
  match list.validate index with
  | .error error => (.error error, list)
  | .ok index =>
    match list.tuple with
    | none => (.error .noTuple, list)
    | some tuple => (.ok (tuple.entries (list.slot tuple index)), list)

def set (list : TList α) (index : Int) (value : α) : Except Error Unit × TList α :=
  match list.validate index with
  | .error error => (.error error, list)
  | .ok index =>
    match list.tuple with
    | none => (.error .noTuple, list)
    | some tuple =>
      let tuple := { tuple with
        entries := tuple.entries.set (list.slot tuple index) value }
      (.ok (), { list with tuple := some tuple })

def push (list : TList α) (value : α) : Except Error Unit × TList α :=
  let list := if list.size ≥ list.grow then list.growing null memory else list
  match list.tuple with
  | none => (.error .noTuple, list)
  | some tuple =>
    let tuple := { tuple with
      entries := tuple.entries.set (list.slot tuple list.size) value }
    (.ok (), { list with tuple := some tuple, size := list.size + 1 })

def pop (list : TList α) : Except Error α × TList α :=
  if list.size ≤ 0 then (.error .emptyList, list)
  else
    match list.tuple with
    | none => (.error .noTuple, list)
    | some tuple =>
      let list := { list with size := list.size - 1 }
      let slot := list.slot tuple list.size
      let value := tuple.entries slot
      let tuple := { tuple with entries := tuple.entries.set slot null }
      (.ok value, list.settle null memory tuple)

def unshift (list : TList α) (value : α) : Except Error Unit × TList α :=
  let list := if list.size ≥ list.grow then list.growing null memory else list
  match list.tuple with
  | none => (.error .noTuple, list)
  | some tuple =>
    let head := (if list.head > 0 then list.head else tuple.size) - 1
    let tuple := { tuple with entries := tuple.entries.set head value }
    (.ok (), { list with tuple := some tuple, head := head, size := list.size + 1 })

def shift (list : TList α) : Except Error α × TList α :=
  if list.size ≤ 0 then (.error .emptyList, list)
  else
    match list.tuple with
    | none => (.error .noTuple, list)
    | some tuple =>
      let value := tuple.entries list.head
      let tuple := { tuple with entries := tuple.entries.set list.head null }
      let list := { list with
        head := if list.head + 1 ≥ tuple.size then 0 else list.head + 1
        size := list.size - 1 }
      (.ok value, list.settle null memory tuple)

/-- The moves of `f_remove`: the shorter side closes the gap, so the tuple's
entries and the new head. -/
def close (list : TList α) (tuple : Tuple α) (index : Nat) : Entries α × Nat :=
  let i := list.head + index
  let j := list.head + list.size
  let n := tuple.size
  let p := tuple.entries
  if (index : Int) < (list.size : Int) - index then
    let p :=
      if i ≥ n then
        let last := p (n - 1)
        let (p, slot) := p.moveForward 0 (i - n)
        let p := p.set slot last
        let (p, slot) := p.moveForward list.head (n - 1)
        p.set slot null
      else
        let (p, slot) := p.moveForward list.head i
        p.set slot null
    (p, if list.head + 1 ≥ n then 0 else list.head + 1)
  else
    let p :=
      if i ≥ n then
        let (p, slot) := p.moveBackward (i - n) (j - 1 - n)
        p.set slot null
      else if j > n then
        let first := p 0
        let (p, slot) := p.moveBackward i (n - 1)
        let p := p.set slot first
        let (p, slot) := p.moveBackward 0 (j - 1 - n)
        p.set slot null
      else
        let (p, slot) := p.moveBackward i (j - 1)
        p.set slot null
    (p, list.head)

def remove (list : TList α) (index : Int) : Except Error α × TList α :=
  match list.validate index with
  | .error error => (.error error, list)
  | .ok index =>
    match list.tuple with
    | none => (.error .noTuple, list)
    | some tuple =>
      let i := list.head + index
      let value := tuple.entries (if i < tuple.size then i else i - tuple.size)
      let (entries, head) := list.close null tuple index
      let list := { list with head := head, size := list.size - 1 }
      (.ok value, list.settle null memory { tuple with entries := entries })

end Operations

section Windows

variable {null : α} {list : TList α} {tuple : Tuple α} {items : List α}

theorem slot_eq (list : TList α) (tuple : Tuple α) (index : Nat) :
    list.slot tuple index = wrap tuple.size (list.head + index) := by
  simp only [slot, wrap, Nat.add_comm index]

theorem grow_large (size : Nat) : size < sizeToCapacity (capacityToSize size * 2) := by
  simp only [sizeToCapacity, capacityToSize, tupleOffset, objectSize, slotSize]
  omega

theorem shrink_small {size : Nat} (large : ¬capacityToSize size < objectSize * 2) :
    sizeToCapacity (capacityToSize size / 2) < size := by
  simp only [sizeToCapacity, capacityToSize, tupleOffset, objectSize, slotSize] at large ⊢
  omega

/-- The copies put the items in front of the fresh tuple and null behind them. -/
theorem construct_window (memory : Entries α)
    (window : Window null tuple.entries tuple.size list.head items)
    (size : items.length = list.size) (filled : 0 < list.size) {grow : Nat}
    (large : list.size < grow) :
    Window null (list.construct null memory tuple grow) grow 0 items := by
  have start := window.start
  have fits := window.fits
  have target : ∀ entries : Entries α,
      (∀ slot, slot < list.size →
        entries slot = tuple.entries (wrap tuple.size (list.head + slot))) →
      (∀ slot, list.size ≤ slot → slot < grow → entries slot = null) →
      Window null entries grow 0 items := by
    intro entries copied cleared
    refine ⟨by omega, by omega, ?_⟩
    intro offset inside
    rw [wrap, if_pos (by omega), Nat.zero_add]
    rcases Nat.lt_or_ge offset list.size with before | after
    · rw [copied offset before, window.reads offset (by omega)]
    · rw [cleared offset after inside, List.getElem?_eq_none (by omega)]
      rfl
  simp only [construct]
  split
  case isTrue wraps =>
    rw [Entries.copyToEnd_eq _ _ _ start, Entries.copyUpTo_eq _ _ _ (by omega),
      Entries.clearUpTo_eq _ _ large]
    apply target
    · intro slot before
      grind [wrap]
    · intro slot after inside
      rw [if_pos ⟨after, inside⟩]
  case isFalse straight =>
    rw [Entries.copyUpTo_eq _ _ _ filled, Entries.clearUpTo_eq _ _ large]
    apply target
    · intro slot before
      grind [wrap]
    · intro slot after inside
      rw [if_pos ⟨after, inside⟩]

/-- A ring whose slots hold what those of a window do, less the item at `index`,
is the window without the item. -/
theorem window_eraseIdx {entries after : Entries α} {n head next index : Nat}
    (window : Window null entries n head items) (within : index < items.length)
    (start : next < n)
    (reads : ∀ offset, offset < n → after (wrap n (next + offset)) =
      if offset + 1 = n then null
      else if offset < index then entries (wrap n (head + offset))
      else entries (wrap n (head + (offset + 1)))) :
    Window null after n next (items.eraseIdx index) := by
  have fits := window.fits
  have length : (items.eraseIdx index).length = items.length - 1 := by
    rw [List.length_eraseIdx, if_pos within]
  refine ⟨start, by omega, ?_⟩
  intro offset inside
  rw [reads offset inside, List.getElem?_eraseIdx]
  by_cases last : offset + 1 = n
  · rw [if_pos last, if_neg (by omega), List.getElem?_eq_none (by omega)]
    rfl
  · rw [if_neg last]
    split
    · exact window.reads offset inside
    · exact window.reads (offset + 1) (by omega)

theorem wrap_next {n head offset : Nat} (start : head < n) (inside : offset < n) :
    wrap n ((if head + 1 ≥ n then 0 else head + 1) + offset) =
      if offset + 1 = n then head else wrap n (head + (offset + 1)) := by
  simp only [wrap]
  split_ifs <;> omega

theorem window_blank {entries : Entries α} {n head : Nat}
    (window : Window null entries n head items) {slot : Nat} (inside : slot < n)
    (outside : head + items.length ≤ slot ∨
      slot < head ∧ head + items.length ≤ slot + n) : entries slot = null := by
  have start := window.start
  have reads := window.reads (if head ≤ slot then slot - head else slot + n - head)
    (by split <;> omega)
  rw [List.getElem?_eq_none (by split <;> omega), Option.getD_none] at reads
  rw [← reads]
  congr 1
  simp only [wrap]
  split_ifs <;> omega

theorem close_window (window : Window null tuple.entries tuple.size list.head items)
    (size : items.length = list.size) {index : Nat} (within : index < list.size) :
    Window null (list.close null tuple index).1 tuple.size (list.close null tuple index).2
      (items.eraseIdx index) := by
  have start := window.start
  have fits := window.fits
  simp only [close]
  split
  case isTrue left =>
    apply window_eraseIdx window (by omega)
    · simp only
      split <;> omega
    · intro offset inside
      simp only [wrap_next start inside]
      by_cases last : offset + 1 = tuple.size
      · simp only [if_pos last]
        split
        case isTrue beyond =>
          rw [Entries.moveForward_eq _ (Nat.zero_le _), Entries.moveForward_eq _ (by omega)]
          simp only [Entries.set_apply, if_true]
        case isFalse inner =>
          rw [Entries.moveForward_eq _ (by omega)]
          simp only [Entries.set_apply, if_true]
      · simp only [if_neg last]
        split
        case isTrue beyond =>
          rw [Entries.moveForward_eq _ (Nat.zero_le _), Entries.moveForward_eq _ (by omega)]
          simp only [Entries.set_apply, wrap]
          split_ifs
          all_goals first | omega | rfl | (congr 1; omega)
        case isFalse inner =>
          rw [Entries.moveForward_eq _ (by omega)]
          simp only [Entries.set_apply, wrap]
          split_ifs
          all_goals first | omega | rfl
  case isFalse right =>
    apply window_eraseIdx window (by omega) start
    intro offset inside
    -- Past the window, both the slot and the one it takes from are null.
    have blank : ∀ slot, slot < tuple.size →
        (list.head + list.size ≤ slot ∨
          slot < list.head ∧ list.head + list.size ≤ slot + tuple.size) →
        tuple.entries slot = null :=
      fun slot inside outside => window_blank window inside (by omega)
    simp only
    split
    case isTrue beyond =>
      rw [Entries.moveBackward_eq _ (by omega)]
      simp only [Entries.set_apply, wrap]
      split_ifs
      all_goals first
        | omega
        | rfl
        | (congr 1; omega)
        | exact (blank _ (by omega) (by omega)).symm
        | rw [blank _ (by omega) (by omega), blank _ (by omega) (by omega)]
        | exact blank _ (by omega) (by omega)
    case isFalse =>
      split
      case isTrue wraps =>
        rw [Entries.moveBackward_eq _ (by omega : list.head + index ≤ tuple.size - 1),
          Entries.moveBackward_eq _ (Nat.zero_le _)]
        simp only [Entries.set_apply, wrap]
        split_ifs
        all_goals first
          | omega
          | rfl
          | (congr 1; omega)
          | exact (blank _ (by omega) (by omega)).symm
          | rw [blank _ (by omega) (by omega), blank _ (by omega) (by omega)]
          | exact blank _ (by omega) (by omega)
      case isFalse =>
        rw [Entries.moveBackward_eq _ (by omega)]
        simp only [Entries.set_apply, wrap]
        split_ifs
        all_goals first
          | omega
          | rfl
          | (congr 1; omega)
          | exact (blank _ (by omega) (by omega)).symm
          | rw [blank _ (by omega) (by omega), blank _ (by omega) (by omega)]
          | exact blank _ (by omega) (by omega)

end Windows

inductive Operation (α : Type)
  | push (value : α)
  | pop
  | unshift (value : α)
  | shift
  | remove (index : Int)
  | get (index : Int)
  | set (index : Int) (value : α)
  | clear
  deriving DecidableEq, Repr

/-- What a call gives or throws, and the list after it. -/
def call (null : α) (memory : Entries α) (list : TList α) :
    Operation α → Except Error (Option α) × TList α
  | .push value => (list.push null memory value).map (·.map fun _ => none) id
  | .pop => (list.pop null memory).map (·.map some) id
  | .unshift value => (list.unshift null memory value).map (·.map fun _ => none) id
  | .shift => (list.shift null memory).map (·.map some) id
  | .remove index => (list.remove null memory index).map (·.map some) id
  | .get index => (list.get index).map (·.map some) id
  | .set index value => (list.set index value).map (·.map fun _ => some value) id
  | .clear => (.ok none, list.clear)

def position (items : List α) (index : Int) : Option Nat :=
  if index < 0 then
    if index + items.length < 0 then none else some (index + items.length).toNat
  else
    if index < items.length then some index.toNat else none

/-- The operations on plain sequences. -/
def specify (items : List α) : Operation α → Except Error (Option α) × List α
  | .push value => (.ok none, items ++ [value])
  | .pop =>
    match items.getLast? with
    | none => (.error .emptyList, items)
    | some value => (.ok (some value), items.dropLast)
  | .unshift value => (.ok none, value :: items)
  | .shift =>
    match items with
    | [] => (.error .emptyList, [])
    | value :: items => (.ok (some value), items)
  | .remove index =>
    match position items index with
    | none => (.error .outOfRange, items)
    | some index => (.ok items[index]?, items.eraseIdx index)
  | .get index =>
    match position items index with
    | none => (.error .outOfRange, items)
    | some index => (.ok items[index]?, items)
  | .set index value =>
    match position items index with
    | none => (.error .outOfRange, items)
    | some index => (.ok (some value), items.set index value)
  | .clear => (.ok none, [])

/-- The list holds the items. -/
structure Holds (null : α) (list : TList α) (items : List α) : Prop where
  size : list.size = items.length
  shrink : list.shrink = 0 ∨ list.shrink < list.size
  tuple : match list.tuple with
    | none => list.size = 0 ∧ list.head = 0 ∧ list.grow = 0
    | some tuple => tuple.size = list.grow ∧
        Window null tuple.entries tuple.size list.head items

namespace Holds

variable {null : α} {list : TList α} {items : List α}

theorem start (null : α) : Holds null TList.start [] where
  size := rfl
  shrink := .inl rfl
  tuple := ⟨rfl, rfl, rfl⟩

theorem window (holds : Holds null list items) {tuple : Tuple α}
    (here : list.tuple = some tuple) :
    tuple.size = list.grow ∧ Window null tuple.entries tuple.size list.head items := by
  have kept := holds.tuple
  rw [here] at kept
  exact kept

theorem filled (holds : Holds null list items) (some_ : 0 < list.size) :
    ∃ tuple, list.tuple = some tuple := by
  have kept := holds.tuple
  cases here : list.tuple with
  | none =>
    rw [here] at kept
    omega
  | some tuple => exact ⟨tuple, rfl⟩

theorem resize (size : list.size = items.length) (filled : 0 < list.size)
    {tuple : Tuple α} (window : Window null tuple.entries tuple.size list.head items)
    (memory : Entries α) : Holds null (list.resize null memory tuple) items where
  size := size
  shrink := by
    simp only [TList.resize]
    split
    case isTrue => exact .inl rfl
    case isFalse large => exact .inr (shrink_small large)
  tuple := ⟨rfl, construct_window memory window size.symm filled (grow_large _)⟩

theorem growing (holds : Holds null list items) (full : list.size ≥ list.grow)
    (memory : Entries α) :
    Holds null (list.growing null memory) items ∧
      (list.growing null memory).size < (list.growing null memory).grow := by
  simp only [TList.growing]
  split
  case isTrue empty =>
    have none_ : items = [] := List.eq_nil_of_length_eq_zero (by rw [← holds.size]; omega)
    subst none_
    refine ⟨⟨holds.size, holds.shrink, rfl, ?_⟩, ?_⟩
    · cases kept : list.tuple with
      | none =>
        have clear := holds.tuple
        rw [kept] at clear
        simp only [clear.2.1]
        exact Window.empty (by decide)
      | some tuple =>
        have := (holds.window kept).2.start
        have := (holds.window kept).1
        omega
    · show list.size < sizeToCapacity objectSize
      have : 0 < sizeToCapacity objectSize := by decide
      omega
  case isFalse some_ =>
    obtain ⟨tuple, here⟩ := holds.filled (by omega)
    rw [here]
    exact ⟨resize holds.size (by omega) (holds.window here).2 memory, grow_large _⟩

theorem settle (size : list.size = items.length)
    (shrink : list.shrink = 0 ∨ list.shrink < list.size + 1) {tuple : Tuple α}
    (grow : tuple.size = list.grow)
    (window : Window null tuple.entries tuple.size list.head items)
    (memory : Entries α) : Holds null (list.settle null memory tuple) items := by
  simp only [TList.settle]
  split
  case isTrue few =>
    simp only [shrinking]
    split
    case isTrue empty =>
      have none_ : items = [] := List.eq_nil_of_length_eq_zero (by omega)
      subst none_
      exact ⟨size, by simp only; omega, by omega, rfl, rfl⟩
    case isFalse some_ => exact resize size (by omega) window memory
  case isFalse many => exact ⟨size, .inr (by simp only; omega), grow, window⟩

theorem validate (holds : Holds null list items) (index : Int) :
    list.validate index =
      match position items index with
      | none => .error .outOfRange
      | some index => .ok index := by
  simp only [TList.validate, position, holds.size]
  split_ifs
  all_goals first | rfl | omega

theorem position_lt {index : Int} {within : Nat}
    (valid : position items index = some within) : within < items.length := by
  simp only [position] at valid
  split_ifs at valid
  all_goals
    cases valid
    omega

theorem get (holds : Holds null list items) {index : Int} {within : Nat}
    (valid : position items index = some within) :
    (list.get index).1.map some = .ok items[within]? ∧ (list.get index).2 = list := by
  have inside := position_lt valid
  obtain ⟨tuple, here⟩ := holds.filled (by rw [holds.size]; omega)
  simp only [TList.get, holds.validate, valid, here, slot_eq,
    (holds.window here).2.item inside, List.getElem?_eq_getElem inside]
  exact ⟨rfl, trivial⟩

theorem set (holds : Holds null list items) {index : Int} {within : Nat}
    (valid : position items index = some within) (value : α) :
    (list.set index value).1 = .ok () ∧
      Holds null (list.set index value).2 (items.set within value) := by
  have inside := position_lt valid
  obtain ⟨tuple, here⟩ := holds.filled (by rw [holds.size]; omega)
  simp only [TList.set, holds.validate, valid, here, slot_eq]
  refine ⟨trivial, ?_, holds.shrink, ?_⟩
  · simp [holds.size]
  · exact ⟨(holds.window here).1, (holds.window here).2.set inside value⟩

theorem roomy (holds : Holds null list items) (memory : Entries α) :
    Holds null (if list.size ≥ list.grow then list.growing null memory else list) items ∧
      (if list.size ≥ list.grow then list.growing null memory else list).size <
        (if list.size ≥ list.grow then list.growing null memory else list).grow := by
  split
  case isTrue full => exact holds.growing full memory
  case isFalse room => exact ⟨holds, by omega⟩

theorem roomy_tuple (holds : Holds null list items) (room : list.size < list.grow) :
    ∃ tuple, list.tuple = some tuple ∧ tuple.size = list.grow ∧
      Window null tuple.entries tuple.size list.head items ∧ items.length < tuple.size := by
  have kept := holds.tuple
  cases here : list.tuple with
  | none =>
    rw [here] at kept
    omega
  | some tuple =>
    rw [here] at kept
    exact ⟨tuple, rfl, kept.1, kept.2, by rw [kept.1, ← holds.size]; exact room⟩

theorem push (holds : Holds null list items) (memory : Entries α) (value : α) :
    (list.push null memory value).1 = .ok () ∧
      Holds null (list.push null memory value).2 (items ++ [value]) := by
  obtain ⟨grown, room⟩ := holds.roomy memory
  simp only [TList.push]
  generalize (if list.size ≥ list.grow then list.growing null memory else list) = list
    at grown room ⊢
  obtain ⟨tuple, here, grow, window, free⟩ := grown.roomy_tuple room
  simp only [here, slot_eq, grown.size]
  refine ⟨trivial, by simp, ?_, grow, window.push free value⟩
  have := grown.shrink
  have := grown.size
  simp only
  omega

theorem unshift (holds : Holds null list items) (memory : Entries α) (value : α) :
    (list.unshift null memory value).1 = .ok () ∧
      Holds null (list.unshift null memory value).2 (value :: items) := by
  obtain ⟨grown, room⟩ := holds.roomy memory
  simp only [TList.unshift]
  generalize (if list.size ≥ list.grow then list.growing null memory else list) = list
    at grown room ⊢
  obtain ⟨tuple, here, grow, window, free⟩ := grown.roomy_tuple room
  simp only [here]
  refine ⟨trivial, by simp [grown.size], ?_, grow, window.unshift free value⟩
  have := grown.shrink
  simp only
  omega

theorem pop {value : α} (holds : Holds null list (items ++ [value])) (memory : Entries α) :
    (list.pop null memory).1 = .ok value ∧ Holds null (list.pop null memory).2 items := by
  have size := holds.size
  simp only [List.length_append, List.length_singleton] at size
  obtain ⟨tuple, here⟩ := holds.filled (by omega)
  obtain ⟨grow, window⟩ := holds.window here
  have last := window.item (show items.length < (items ++ [value]).length by simp)
  simp only [List.getElem_concat_length] at last
  have some_ : ¬items.length + 1 ≤ 0 := by omega
  simp only [TList.pop, here, slot_eq, size, if_neg some_, Nat.add_sub_cancel, last,
    true_and]
  apply settle
  · rfl
  · have := holds.shrink
    simp only
    omega
  · exact grow
  · exact window.pop

theorem shift {value : α} (holds : Holds null list (value :: items)) (memory : Entries α) :
    (list.shift null memory).1 = .ok value ∧ Holds null (list.shift null memory).2 items := by
  have size := holds.size
  simp only [List.length_cons] at size
  obtain ⟨tuple, here⟩ := holds.filled (by omega)
  obtain ⟨grow, window⟩ := holds.window here
  have first := window.item (show 0 < (value :: items).length by simp)
  have start := window.start
  simp only [Nat.add_zero, wrap, if_pos start, List.getElem_cons_zero] at first
  simp only [TList.shift, if_neg (by omega : ¬list.size ≤ 0), here, first, true_and]
  apply settle
  · simp only
    omega
  · have := holds.shrink
    simp only
    omega
  · exact grow
  · exact window.shift

theorem remove (holds : Holds null list items) {index : Int} {within : Nat}
    (valid : position items index = some within) (memory : Entries α) :
    (list.remove null memory index).1.map some = .ok items[within]? ∧
      Holds null (list.remove null memory index).2 (items.eraseIdx within) := by
  have inside := position_lt valid
  have size := holds.size
  obtain ⟨tuple, here⟩ := holds.filled (by omega)
  obtain ⟨grow, window⟩ := holds.window here
  have item := window.item inside
  simp only [wrap] at item
  simp only [TList.remove, holds.validate, valid, here, item,
    List.getElem?_eq_getElem inside]
  refine ⟨rfl, ?_⟩
  apply settle
  · simp only
    rw [List.length_eraseIdx, if_pos inside, size]
  · have := holds.shrink
    simp only
    omega
  · exact grow
  · exact close_window window size.symm (by omega)

theorem clear (null : α) (list : TList α) : Holds null list.clear [] where
  size := rfl
  shrink := .inl rfl
  tuple := ⟨rfl, rfl, rfl⟩

/-- A call does what the specification says, and leaves the list as it was when
it throws. -/
theorem call (holds : Holds null list items) (memory : Entries α)
    (operation : Operation α) :
    (list.call null memory operation).1 = (specify items operation).1 ∧
      Holds null (list.call null memory operation).2 (specify items operation).2 ∧
      ∀ error, (list.call null memory operation).1 = .error error →
        (list.call null memory operation).2 = list := by
  cases operation with
  | push value =>
    obtain ⟨returns, after⟩ := holds.push memory value
    simp only [TList.call, specify, Prod.map_fst, Prod.map_snd, returns, id]
    exact ⟨rfl, after, nofun⟩
  | unshift value =>
    obtain ⟨returns, after⟩ := holds.unshift memory value
    simp only [TList.call, specify, Prod.map_fst, Prod.map_snd, returns, id]
    exact ⟨rfl, after, nofun⟩
  | pop =>
    cases items using List.reverseRecOn with
    | nil =>
      have empty : list.size ≤ 0 := by simp [holds.size]
      simp only [TList.call, specify, TList.pop, if_pos empty]
      exact ⟨rfl, holds, fun _ _ => rfl⟩
    | append_singleton items value =>
      obtain ⟨returns, after⟩ := holds.pop memory
      simp only [TList.call, specify, Prod.map_fst, Prod.map_snd, returns, id,
        List.getLast?_concat, List.dropLast_concat]
      exact ⟨rfl, after, nofun⟩
  | shift =>
    cases items with
    | nil =>
      have empty : list.size ≤ 0 := by simp [holds.size]
      simp only [TList.call, specify, TList.shift, if_pos empty]
      exact ⟨rfl, holds, fun _ _ => rfl⟩
    | cons value items =>
      obtain ⟨returns, after⟩ := holds.shift memory
      simp only [TList.call, specify, Prod.map_fst, Prod.map_snd, returns, id]
      exact ⟨rfl, after, nofun⟩
  | remove index =>
    cases valid : position items index with
    | none =>
      simp only [TList.call, specify, TList.remove, holds.validate, valid]
      exact ⟨rfl, holds, fun _ _ => rfl⟩
    | some within =>
      obtain ⟨returns, after⟩ := holds.remove valid memory
      simp only [TList.call, specify, Prod.map_fst, Prod.map_snd, returns, id, valid]
      exact ⟨trivial, after, nofun⟩
  | get index =>
    cases valid : position items index with
    | none =>
      simp only [TList.call, specify, TList.get, holds.validate, valid]
      exact ⟨rfl, holds, fun _ _ => rfl⟩
    | some within =>
      obtain ⟨returns, same⟩ := holds.get valid
      simp only [TList.call, specify, Prod.map_fst, Prod.map_snd, returns, same, id, valid]
      exact ⟨trivial, holds, nofun⟩
  | set index value =>
    cases valid : position items index with
    | none =>
      simp only [TList.call, specify, TList.set, holds.validate, valid]
      exact ⟨rfl, holds, fun _ _ => rfl⟩
    | some within =>
      obtain ⟨returns, after⟩ := holds.set valid value
      simp only [TList.call, specify, Prod.map_fst, Prod.map_snd, returns, id, valid]
      exact ⟨rfl, after, nofun⟩
  | clear => exact ⟨rfl, clear null list, nofun⟩

end Holds

/-- The results of a sequence of calls, each with the memory that a fresh tuple
finds, and the list after them. -/
def calls (null : α) (list : TList α) :
    List (Operation α × Entries α) → List (Except Error (Option α)) × TList α
  | [] => ([], list)
  | (operation, memory) :: operations =>
    let (result, list) := list.call null memory operation
    let (results, list) := list.calls null operations
    (result :: results, list)

def specifyAll (items : List α) :
    List (Operation α) → List (Except Error (Option α)) × List α
  | [] => ([], items)
  | operation :: operations =>
    let (result, items) := specify items operation
    let (results, items) := specifyAll items operations
    (result :: results, items)

theorem Holds.calls {null : α} {list : TList α} {items : List α}
    (holds : Holds null list items) (operations : List (Operation α × Entries α)) :
    (list.calls null operations).1 = (specifyAll items (operations.map Prod.fst)).1 ∧
      Holds null (list.calls null operations).2
        (specifyAll items (operations.map Prod.fst)).2 := by
  induction operations generalizing list items with
  | nil => exact ⟨rfl, holds⟩
  | cons operation operations ih =>
    obtain ⟨result, after, -⟩ := holds.call operation.2 operation.1
    obtain ⟨results, final⟩ := ih after
    simp only [TList.calls, specifyAll, List.map_cons, result, results]
    exact ⟨trivial, final⟩

/-- The fields fit together: the tuple has `v_grow` slots, the window of `v_size`
slots from `v_head` on holds the items in order, every other slot is null. -/
def Invariant (null : α) (list : TList α) (items : List α) : Prop :=
  list.size = items.length ∧ (list.shrink = 0 ∨ list.shrink < list.size) ∧
    match list.tuple with
    | none => list.size = 0 ∧ list.head = 0 ∧ list.grow = 0
    | some tuple =>
      tuple.size = list.grow ∧ list.head < list.grow ∧ list.size ≤ list.grow ∧
      (∀ (index : Nat) (within : index < items.length),
        tuple.entries (list.slot tuple index) = items[index]) ∧
      ∀ slot, slot < list.grow → (∀ index, index < list.size →
        list.slot tuple index ≠ slot) → tuple.entries slot = null

theorem Holds.invariant {null : α} {list : TList α} {items : List α}
    (holds : Holds null list items) : list.Invariant null items := by
  refine ⟨holds.size, holds.shrink, ?_⟩
  cases here : list.tuple with
  | none =>
    have kept := holds.tuple
    rw [here] at kept
    exact kept
  | some tuple =>
    obtain ⟨grow, window⟩ := holds.window here
    have start := window.start
    have fits := window.fits
    have size := holds.size
    refine ⟨grow, by omega, by omega, ?_, ?_⟩
    · intro index within
      rw [slot_eq]
      exact window.item within
    · intro slot inside outside
      apply window_blank window (by omega)
      have missed := outside (if list.head ≤ slot then slot - list.head
        else slot + tuple.size - list.head)
      simp only [slot_eq, wrap] at missed
      split_ifs at missed
      all_goals omega

/-- Every sequence of calls on an empty list gives what the plain sequence gives,
keeps the fields together, and a call that throws leaves the list as it is. -/
theorem refines_sequence (null : α) (operations : List (Operation α × Entries α)) :
    (start.calls null operations).1 = (specifyAll [] (operations.map Prod.fst)).1 ∧
    (start.calls null operations).2.Invariant null
      (specifyAll [] (operations.map Prod.fst)).2 ∧
    ∀ memory operation error,
      ((start.calls null operations).2.call null memory operation).1 = .error error →
      ((start.calls null operations).2.call null memory operation).2 =
        (start.calls null operations).2 := by
  obtain ⟨results, holds⟩ := (Holds.start null).calls operations
  exact ⟨results, holds.invariant, fun memory operation => (holds.call memory operation).2.2⟩

end TList

end Xemmai
