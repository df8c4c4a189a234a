import Mathlib.Logic.Function.Iterate
import Xemmai.Collector

/-!
# Snapshots of the stacks of a fiber

`f_epoch_copy`, `f_epoch_scan` and `f_epoch_decrement` on the one buffer that a fiber keeps
for them: what they increment and decrement, what they leave as the saved snapshot, and
that nothing in the buffer is overwritten before it has been read.
-/

namespace Xemmai.Snapshots

set_option autoImplicit false

/-! ### The buffer -/

/-- `v_estack_buffer`. What has been written is `unread` until it is read; `kept` is whether
nothing unread has been overwritten. -/
structure Buffer where
  word : Nat → Nat
  unread : Nat → Bool
  kept : Bool

namespace Buffer

def read (buffer : Buffer) (i : Nat) : Buffer :=
  { buffer with unread := Function.update buffer.unread i false }

def write (buffer : Buffer) (i x : Nat) : Buffer where
  word := Function.update buffer.word i x
  unread := Function.update buffer.unread i true
  kept := buffer.kept && !buffer.unread i

/-- The loop of `f_epoch_copy`, and its `std::memcpy`. -/
def fill (buffer : Buffer) (i : Nat) : List Nat → Buffer
  | [] => buffer
  | x :: xs => (buffer.write i x).fill (i + 1) xs

end Buffer

def slice (word : Nat → Nat) (i : Nat) : Nat → List Nat
  | 0 => []
  | k + 1 => word i :: slice word (i + 1) k

theorem slice_congr {word word' : Nat → Nat} {i k : Nat}
    (same : ∀ j, i ≤ j → j < i + k → word' j = word j) : slice word' i k = slice word i k := by
  induction k generalizing i with
  | zero => rfl
  | succ k induction =>
      have rest : slice word' (i + 1) k = slice word (i + 1) k := by
        apply induction
        intro j low high
        apply same <;> omega
      rw [slice, slice, rest, same i (Nat.le_refl i) (by omega)]

theorem slice_append (word : Nat → Nat) (i m n : Nat) :
    slice word i (m + n) = slice word i m ++ slice word (i + m) n := by
  induction m generalizing i with
  | zero => rw [Nat.zero_add, Nat.add_zero]; rfl
  | succ m induction =>
      have turn : m + 1 + n = m + n + 1 := by omega
      have shift : i + (m + 1) = i + 1 + m := by omega
      rw [turn, slice, slice, induction, shift]
      rfl

theorem length_slice (word : Nat → Nat) (i k : Nat) : (slice word i k).length = k := by
  induction k generalizing i with
  | zero => rfl
  | succ k induction => rw [slice, List.length_cons, induction]

/-! ### The fiber -/

inductive Call
  | increment (object : Nat)
  | decrement (object : Nat)
  deriving DecidableEq, Repr

/-- What `f_object__find` looks at: `c_UNIT`, `f_find` of the heap, and `v_type`. -/
structure Objects where
  unit : Nat
  found : Nat → Bool
  typed : Nat → Bool

def Objects.fObjectFind (objects : Objects) (p : Nat) : Nat :=
  if p % objects.unit ≠ 0 then 0
  else if objects.found p && objects.typed p then p
  else 0

/-- The positions of a loop over two snapshots, and the calls so far. -/
structure Scan where
  buffer : Buffer
  p0 : Nat
  p1 : Nat
  decrements : Nat
  calls : List Call

namespace Scan

/-- `if (p) p->f_increment();` -/
def up (scan : Scan) (p : Nat) : Scan :=
  if p = 0 then scan else { scan with calls := scan.calls ++ [Call.increment p] }

/-- `if (q) *a_decrements++ = q;` -/
def down (scan : Scan) (q : Nat) : Scan :=
  if q = 0 then scan
  else { scan with
    buffer := scan.buffer.write scan.decrements q
    decrements := scan.decrements + 1 }

/-- `*a_p1 = p;` -/
def save (scan : Scan) (p : Nat) : Scan :=
  { scan with buffer := scan.buffer.write scan.p1 p }

/-- `++a_p1` -/
def next (scan : Scan) : Scan := { scan with p1 := scan.p1 + 1 }

def takeCopy (scan : Scan) : Scan :=
  { scan with buffer := scan.buffer.read scan.p0, p0 := scan.p0 + 1 }

def takeSaved (scan : Scan) : Scan := { scan with buffer := scan.buffer.read scan.p1 }

/-- A turn of `f_epoch_increment`. -/
def compare (objects : Objects) (scan : Scan) : Scan :=
  let p := scan.buffer.word scan.p0
  let q := scan.buffer.word scan.p1
  let scan := scan.takeCopy.takeSaved
  if p = q then scan.next
  else
    let p := objects.fObjectFind p
    if p = q then scan.next else (((scan.up p).down q).save p).next

/-- A turn of the lambda `increment` of `f_epoch_scan`. -/
def grow (objects : Objects) (scan : Scan) : Scan :=
  let p := objects.fObjectFind (scan.buffer.word scan.p0)
  let scan := scan.takeCopy
  ((scan.up p).save p).next

def shrink (scan : Scan) : Scan :=
  let q := scan.buffer.word scan.p1
  (scan.takeSaved.down q).next

/-- `f_epoch_increment` up to `a_q1`. -/
def fEpochIncrement (objects : Objects) (q1 : Nat) (scan : Scan) : Scan :=
  (compare objects)^[q1 - scan.p1] scan

def increment (objects : Objects) (p2 : Nat) (scan : Scan) : Scan :=
  (grow objects)^[p2 - scan.p1] scan

def decrement (p2 : Nat) (scan : Scan) : Scan :=
  shrink^[p2 - scan.p1] scan

/-- `f_epoch_scan` of the value stack. -/
def values (objects : Objects) (used1 used2 : Nat) (scan : Scan) : Scan :=
  let scan := scan.fEpochIncrement objects (min used1 used2)
  if used1 > used2 then scan.increment objects used1 else scan.decrement used2

/-- `f_epoch_scan` of the native stack. -/
def words (objects : Objects) (top1 top2 bottom : Nat) (scan : Scan) : Scan :=
  let scan :=
    if top1 < top2 then { scan with p1 := top1 }.increment objects top2
    else { scan with p1 := top2 }.decrement top1
  scan.fEpochIncrement objects bottom

end Scan

/-- `a_stack`, and the `limit` of the native stack. -/
structure Sizes where
  stack : Nat
  limit : Nat

namespace Sizes

/-- `v_estack_last_head`, as the other positions from the start of the buffer on. -/
def lastHead (sizes : Sizes) : Nat := sizes.stack

/-- `v_stack_last_bottom` -/
def lastBottom (sizes : Sizes) : Nat := sizes.lastHead + sizes.stack + sizes.limit

/-- `v_stack_copy` -/
def stackCopy (sizes : Sizes) : Nat := sizes.lastBottom + sizes.limit

end Sizes

/-- `used` is `v_estack_used` from `v_estack` on, `depth` is `v_stack_bottom` from
`v_stack_top` on. -/
structure Internal where
  buffer : Buffer
  used : Nat
  depth : Nat
  lastUsed : Nat
  lastTop : Nat
  estackDecrements : Nat
  stackDecrements : Nat
  calls : List Call

/-- The stacks when they are copied, `thread` being whether the fiber still has `v_thread`,
and the objects that are found in the scan. -/
structure Epoch (sizes : Sizes) where
  thread : Bool
  estack : List Nat
  native : List Nat
  objects : Objects
  estack_le : estack.length ≤ sizes.stack
  native_le : native.length ≤ sizes.limit

namespace Internal

variable {sizes : Sizes}

/-- `t_internal::t_internal`, with what is in the memory. -/
def create (sizes : Sizes) (memory : Nat → Nat) : Internal where
  buffer := ⟨memory, fun _ => false, true⟩
  used := 0
  depth := 0
  lastUsed := sizes.lastHead
  lastTop := sizes.lastBottom
  estackDecrements := 0
  stackDecrements := sizes.lastBottom
  calls := []

/-- The saved snapshot is to be read, and no call has been made. -/
def enter (sizes : Sizes) (internal : Internal) : Internal :=
  { internal with
    buffer := { internal.buffer with
      unread := fun i => decide (sizes.lastHead ≤ i ∧ i < internal.lastUsed ∨
        internal.lastTop ≤ i ∧ i < sizes.lastBottom) }
    calls := [] }

end Internal

namespace Epoch

variable {sizes : Sizes}

def values (epoch : Epoch sizes) : List Nat := if epoch.thread then epoch.estack else []

def words (epoch : Epoch sizes) : List Nat := if epoch.thread then epoch.native else []

/-- `f_epoch_copy` -/
def fEpochCopy (epoch : Epoch sizes) (internal : Internal) : Internal :=
  let m := epoch.values.length
  let n := epoch.words.length
  { internal with
    buffer := (internal.buffer.fill 0 epoch.values).fill (sizes.stackCopy - n) epoch.words
    used := m
    depth := n }

/-- `f_epoch_scan` -/
def fEpochScan (epoch : Epoch sizes) (internal : Internal) : Internal :=
  let used1 := sizes.lastHead + internal.used
  let used2 := internal.lastUsed
  let top0 := sizes.stackCopy - internal.depth
  let top1 := sizes.lastBottom - internal.depth
  let top2 := internal.lastTop
  let scan := Scan.values epoch.objects used1 used2
    ⟨internal.buffer, 0, sizes.lastHead, 0, internal.calls⟩
  let estackDecrements := scan.decrements
  let scan := Scan.words epoch.objects top1 top2 sizes.lastBottom
    { scan with p0 := top0, decrements := sizes.lastBottom }
  { internal with
    buffer := scan.buffer
    lastUsed := used1
    lastTop := top1
    estackDecrements := estackDecrements
    stackDecrements := scan.decrements
    calls := scan.calls }

end Epoch

namespace Internal

variable {sizes : Sizes}

/-- A loop of `f_epoch_decrement` with its turns. -/
def decrementFrom (internal : Internal) (p : Nat) : Nat → Internal
  | 0 => internal
  | k + 1 =>
      { internal with
        buffer := internal.buffer.read p
        calls := internal.calls ++ [Call.decrement (internal.buffer.word p)] }.decrementFrom (p + 1) k

/-- `f_epoch_decrement` -/
def fEpochDecrement (sizes : Sizes) (internal : Internal) : Internal :=
  let internal := internal.decrementFrom 0 internal.estackDecrements
  internal.decrementFrom sizes.lastBottom (internal.stackDecrements - sizes.lastBottom)

def run (internal : Internal) (epoch : Epoch sizes) : Internal :=
  (epoch.fEpochScan (epoch.fEpochCopy (internal.enter sizes))).fEpochDecrement sizes

def savedValues (sizes : Sizes) (internal : Internal) : List Nat :=
  slice internal.buffer.word sizes.lastHead (internal.lastUsed - sizes.lastHead)

def savedWords (sizes : Sizes) (internal : Internal) : List Nat :=
  slice internal.buffer.word internal.lastTop (sizes.lastBottom - internal.lastTop)

end Internal

end Xemmai.Snapshots
