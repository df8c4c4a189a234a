import Xemmai.Chain

/-!
# What the collector keeps in an object

The links, the colour and the counts of `t_object`, and the operations on them
that the collector thread runs: increments and decrements, the pushes and steps
of the colour passes, and the moves between its lists. All the lists share the
link `v_next`. An operation that looks at the fields of an object is given the
list of references it is reported there, the one to the type included.
-/

namespace Xemmai.Collector

set_option autoImplicit false

inductive Color
  | black
  | purple
  | gray
  | whiting
  | white
  | orange
  | red
  deriving DecidableEq, Repr

/-- What a link points at: the head `v_roots` or an object. -/
inductive ListNode (ι : Type)
  | roots
  | object (object : ι)
  deriving DecidableEq, Repr

namespace Word

/-- `++` and `--` of a `size_t`. -/
def up (count : Nat) : Nat := (count + 1) % 2 ^ 64

def down (count : Nat) : Nat := (count + (2 ^ 64 - 1)) % 2 ^ 64

end Word

/-- The objects; `typed` is whether `v_type` is set, `allocated` whether the
memory has not been given back, `freed` what has been, the last one first. -/
structure Heap (ι : Type) where
  next : ListNode ι → Option (ListNode ι)
  previous : ListNode ι → Option (ListNode ι)
  color : ι → Color
  reviving : ι → Bool
  count : ι → Nat
  cyclic : ι → Nat
  typed : ι → Bool
  allocated : ι → Bool
  freed : List ι

namespace Heap

variable {ι : Type} [DecidableEq ι]

def setNext (heap : Heap ι) (node : ListNode ι) (target : Option (ListNode ι)) : Heap ι :=
  { heap with next := Function.update heap.next node target }

def setPrevious (heap : Heap ι) (node : ListNode ι) (target : Option (ListNode ι)) : Heap ι :=
  { heap with previous := Function.update heap.previous node target }

def paint (heap : Heap ι) (object : ι) (color : Color) : Heap ι :=
  { heap with color := Function.update heap.color object color }

def setCount (heap : Heap ι) (object : ι) (count : Nat) : Heap ι :=
  { heap with count := Function.update heap.count object count }

def setCyclic (heap : Heap ι) (object : ι) (cyclic : Nat) : Heap ι :=
  { heap with cyclic := Function.update heap.cyclic object cyclic }

def settle (heap : Heap ι) (object : ι) : Heap ι :=
  { heap with reviving := Function.update heap.reviving object false }

/-- `v_type = nullptr`. -/
def untype (heap : Heap ι) (object : ι) : Heap ι :=
  { heap with typed := Function.update heap.typed object false }

def free (heap : Heap ι) (object : ι) : Heap ι :=
  { heap with
    count := Function.update heap.count object 1
    allocated := Function.update heap.allocated object false
    freed := object :: heap.freed }

/-- `f_append`: the object becomes the last of the roots. -/
def append (heap : Heap ι) (object : ι) : Heap ι :=
  let last := heap.previous .roots
  let heap := heap.setNext (.object object) (some .roots)
  let heap := heap.setPrevious (.object object) last
  let heap := heap.setPrevious .roots (some (.object object))
  match last with
  | none => heap
  | some last => heap.setNext last (some (.object object))

/-- `if (!v_next) f_append(this);` -/
def enlist (heap : Heap ι) (object : ι) : Heap ι :=
  if heap.next (.object object) = none then heap.append object else heap

theorem append_links (heap : Heap ι) (object : ι) : ∃ next previous,
    heap.append object = { heap with next := next, previous := previous } := by
  simp only [append]
  split <;> exact ⟨_, _, rfl⟩

theorem append_setNext (heap : Heap ι) (object : ι) (target : Option (ListNode ι)) :
    (heap.setNext (.object object) target).append object = heap.append object := by
  simp only [append, setNext, setPrevious, Function.update_idem]

theorem enlist_links (heap : Heap ι) (object : ι) : ∃ next previous,
    heap.enlist object = { heap with next := next, previous := previous } := by
  unfold enlist
  split
  · exact heap.append_links object
  · exact ⟨_, _, rfl⟩

def increment (heap : Heap ι) (object : ι) : Heap ι :=
  ((heap.setCount object (Word.up (heap.count object))).paint object .black).enlist object

/-- The count after a decrement; an object that still has references becomes a
candidate root. -/
def lower (heap : Heap ι) (object : ι) : Heap ι :=
  let heap := heap.setCount object (Word.down (heap.count object))
  if heap.count object > 0 then (heap.paint object .purple).enlist object else heap

theorem lower_links (heap : Heap ι) (object : ι) : ∃ next previous color,
    heap.lower object = { heap.setCount object (Word.down (heap.count object)) with
      next := next, previous := previous, color := color } := by
  simp only [lower]
  split
  · obtain ⟨next, previous, same⟩ := Heap.enlist_links
      ((heap.setCount object (Word.down (heap.count object))).paint object .purple) object
    rw [same]
    exact ⟨_, _, _, rfl⟩
  · exact ⟨_, _, _, rfl⟩

/-- What `f_decrement_step` does after the references have been let go. -/
def release (heap : Heap ι) (object : ι) : Heap ι :=
  let heap := heap.untype object
  match heap.next (.object object) with
  | none => heap.free object
  | some next =>
    match heap.previous (.object object) with
    | none => heap
    | some previous =>
      ((heap.setPrevious next (some previous)).setNext previous (some next)).free object

theorem release_others (heap : Heap ι) {object other : ι} (different : other ≠ object) :
    (heap.release object).allocated other = heap.allocated other ∧
      (heap.release object).count other = heap.count other := by
  have freed : ∀ heap : Heap ι, (heap.free object).allocated other = heap.allocated other ∧
      (heap.free object).count other = heap.count other := fun heap =>
    ⟨Function.update_of_ne different _ _, Function.update_of_ne different _ _⟩
  simp only [release]
  split
  · exact freed _
  · split
    · exact ⟨rfl, rfl⟩
    · exact freed _

end Heap

/-- A pass under way: the objects and `v_scan_stack`. -/
structure Walk (ι : Type) where
  heap : Heap ι
  stack : List ι

namespace Walk

variable {ι : Type} [DecidableEq ι]

def push (walk : Walk ι) (object : ι) : Walk ι :=
  { walk with stack := object :: walk.stack }

def decrementPush (walk : Walk ι) (object : ι) : Walk ι :=
  let walk := { walk with heap := walk.heap.lower object }
  if walk.heap.count object > 0 then walk else walk.push object

/-- What the pushes of the passes have in common: an object whose colour calls for
it is painted, and pushed unless its colour says that it is on the stack. -/
def paintPush (fires pushes : Color → Bool) (paint : Heap ι → ι → Color) (walk : Walk ι)
    (object : ι) : Walk ι :=
  if fires (walk.heap.color object) then
    let pushed := if pushes (walk.heap.color object) then walk.push object else walk
    { pushed with heap := walk.heap.paint object (paint walk.heap object) }
  else walk

def prescanBlackPush : Walk ι → ι → Walk ι :=
  paintPush (fun color => ¬ (color = .black ∨ color = .purple)) (fun _ => true)
    (fun _ _ => .black)

def markGrayPush (walk : Walk ι) (object : ι) : Walk ι :=
  let walk :=
    if walk.heap.color object ≠ .gray then
      let heap := walk.heap.paint object .gray
      ({ walk with heap := heap.setCyclic object (heap.count object) }).push object
    else walk
  { walk with heap := walk.heap.setCyclic object (Word.down (walk.heap.cyclic object)) }

def scanBlackPush : Walk ι → ι → Walk ι :=
  paintPush (· ≠ .black) (fun _ => true) (fun _ _ => .black)

def scanGrayScanBlackPush : Walk ι → ι → Walk ι :=
  paintPush (· ≠ .black) (· ≠ .whiting) (fun _ _ => .black)

def scanGrayPush : Walk ι → ι → Walk ι :=
  paintPush (· = .gray) (fun _ => true)
    (fun heap object => if heap.cyclic object > 0 then .black else .whiting)

/-- `f_collect_white_push`, where `cycle` is `v_cycle`. -/
def collectWhitePush (cycle : ι) (walk : Walk ι) (object : ι) : Walk ι :=
  if walk.heap.color object ≠ .white then walk
  else
    let heap := walk.heap.paint object .red
    let heap := heap.setCyclic object (heap.count object)
    let heap := heap.setNext (.object object) (heap.next (.object cycle))
    let heap := heap.setNext (.object cycle) (some (.object object))
    let heap := heap.setPrevious (.object object) none
    ({ walk with heap := heap }).push object

end Walk

/-- A pass that walks from object to object, and the object it was started on,
which is `v_cycle` in the last. -/
inductive Pass (ι : Type)
  | prescanBlack (root : ι)
  | markGray (root : ι)
  | scanBlack (root : ι)
  | scanGray (root : ι)
  | collectWhite (root : ι)

namespace Pass

variable {ι : Type} [DecidableEq ι]

/-- The step of a pass on an object, with the references it is reported. -/
def step (pass : Pass ι) (object : ι) (report : List ι) (walk : Walk ι) : Walk ι :=
  match pass with
  | prescanBlack _ => report.foldl Walk.prescanBlackPush walk
  | markGray _ => report.foldl Walk.markGrayPush walk
  | scanBlack _ => report.foldl Walk.scanBlackPush walk
  | scanGray _ =>
    if walk.heap.color object = .black then
      report.foldl Walk.scanGrayScanBlackPush walk
    else
      report.foldl Walk.scanGrayPush { walk with heap := walk.heap.paint object .white }
  | collectWhite root => report.foldl (Walk.collectWhitePush root) walk

end Pass

namespace Heap

variable {ι : Type} [DecidableEq ι]

/-- `f_prescan_black` up to its loop; so for the other passes. -/
def prescanBlack (heap : Heap ι) (object : ι) : Heap ι :=
  if heap.color object ≠ .purple then heap.paint object .black else heap

def markGray (heap : Heap ι) (object : ι) : Heap ι :=
  (heap.paint object .gray).setCyclic object (heap.count object)

def collectWhite (heap : Heap ι) (object : ι) : Heap ι :=
  let heap := heap.paint object .red
  let heap := heap.setCyclic object (heap.count object)
  let heap := heap.setNext (.object object) (some (.object object))
  heap.setPrevious (.object object) none

def scanRed (heap : Heap ι) (object : ι) : Heap ι :=
  if heap.color object = .red ∧ heap.cyclic object > 0 then
    heap.setCyclic object (Word.down (heap.cyclic object))
  else heap

end Heap

end Xemmai.Collector
