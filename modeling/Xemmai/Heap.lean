import Xemmai.Machine
import Xemmai.Path
import Mathlib.Data.Finset.Card
import Mathlib.Data.Fin.VecNotation
import Mathlib.Algebra.BigOperators.Fin
import Mathlib.Data.Set.Card

/-!
# The heap of cells

`t_heap` keeps, for each of five size classes, a lock-free stack of chunks of
free cells, and every thread a list of free cells of its own. A load, a store
that other threads may see and a compare-exchange are steps of their own; writes
to what belongs to one thread only go with the step in front of them. The links
of a live cell are its user's, who may write anything there.
-/

namespace Xemmai.Allocator

set_option autoImplicit false

abbrev Rank := Fin 5

/-- `A_size` of `v_of0` to `v_of4`. -/
def sizes : Rank → Nat := ![1024 * 16, 1024 * 4, 1024, 1024 / 4, 1024 / 16]

/-- The size class that `f_allocate` and `f_allocate_medium` choose, if any. -/
def rankOf (unit size : Nat) : Option Rank :=
  if size ≤ unit then some 0
  else if size ≤ unit <<< 1 then some 1
  else if size ≤ unit <<< 2 then some 2
  else if size ≤ unit <<< 3 then some 3
  else if size ≤ unit <<< 4 then some 4
  else none

/-- Where a thread stands, with its local variables. -/
inductive Stand (κ : Type)
  /-- Between two `t_of::f_return()` or `f_flush()` of `f_return()` or `f_flush()`,
  with the size classes that are left; with none left the thread is idle. -/
  | sweeping (rest : List Rank)
  /-- `t_of::f_allocate` in front of its load, of the test of `p` and the read of
  `p->v_previous`, and of the compare-exchange. -/
  | loading (rank : Rank)
  | testing (rank : Rank) (p : Option κ)
  | swapping (rank : Rank) (p : κ) (previous : Option κ)
  /-- `f_grow` in front of `f_map`, and in front of the count. -/
  | growing (rank : Rank)
  | extending (rank : Rank) (p : κ)
  /-- In front of `v_allocated.fetch_add(p->v_cyclic)`. -/
  | taking (rank : Rank) (p : κ)
  /-- The loop of `t_of::f_return()`. -/
  | measuring (rank : Rank) (p : Option κ) (n : Nat) (rest : List Rank)
  /-- `t_of::f_return(n)` in front of its load, of the store to `p->v_previous`,
  of the compare-exchange and of `v_returned.fetch_add(n)`. -/
  | linking (rank : Rank) (n : Nat) (rest : List Rank)
  | storing (rank : Rank) (p : κ) (n : Nat) (previous : Option κ) (rest : List Rank)
  | pushing (rank : Rank) (p : κ) (n : Nat) (rest : List Rank)
  | crediting (rank : Rank) (n : Nat) (rest : List Rank)
  deriving DecidableEq, Repr

inductive Action (κ : Type)
  /-- `f_allocate(size)`; `p` is what `f_map` gives for a large cell. -/
  | allocate (size : Nat) (p : κ)
  /-- `f_map` in `f_grow` gives a block. -/
  | map (block : List κ)
  /-- `f_return()` of a thread that exits. -/
  | leave
  /-- `f_free(p)` and `f_flush()` of the collector. -/
  | free (p : κ)
  | flush
  /-- The thread goes on; `weak` is a compare-exchange that fails spuriously. -/
  | proceed (weak : Bool)
  /-- The user of a live cell writes its links. -/
  | write (p : κ) (next previous : Option κ) (cyclic : Nat)
  deriving DecidableEq, Repr

/-- The members of all cells, of `t_heap` and of its `t_of`, and `v_head` of each
thread. `cells` is what `f_grow` has mapped and `live` what has been handed out
and not been freed since. -/
structure Heap (ι κ : Type) where
  next : κ → Option κ
  previous : κ → Option κ
  cyclic : κ → Nat
  /-- `v_rank`, where `none` is `c_RANKX`. -/
  rank : κ → Option Rank
  chunks : Rank → Option κ
  grown : Rank → Nat
  allocated : Rank → Nat
  returned : Rank → Nat
  freed : Rank → Nat
  blocks : κ → Option Nat
  largeAllocated : Nat
  largeFreed : Nat
  heads : ι → Rank → Option κ
  stands : ι → Stand κ
  cells : Rank → Finset κ
  live : Finset κ

namespace Heap

variable {ι κ : Type} [DecidableEq ι] [DecidableEq κ]

def start : Heap ι κ where
  next := fun _ => none
  previous := fun _ => none
  cyclic := fun _ => 0
  rank := fun _ => none
  chunks := fun _ => none
  grown := fun _ => 0
  allocated := fun _ => 0
  returned := fun _ => 0
  freed := fun _ => 0
  blocks := fun _ => none
  largeAllocated := 0
  largeFreed := 0
  heads := fun _ _ => none
  stands := fun _ => .sweeping []
  cells := fun _ => ∅
  live := ∅

def goto (heap : Heap ι κ) (thread : ι) (stand : Stand κ) : Heap ι κ :=
  { heap with stands := Function.update heap.stands thread stand }

/-- `v_head<rank> = p` -/
def setHead (heap : Heap ι κ) (thread : ι) (rank : Rank) (p : Option κ) :
    ι → Rank → Option κ :=
  Function.update heap.heads thread (Function.update (heap.heads thread) rank p)

def take (heap : Heap ι κ) (thread : ι) (rank : Rank) (p : κ) : Heap ι κ :=
  { heap.goto thread (.sweeping []) with
    heads := heap.setHead thread rank (heap.next p)
    live := insert p heap.live }

/-- What is mapped: the cells of the size classes and the large cells. -/
def Mapped (heap : Heap ι κ) (cell : κ) : Prop :=
  (∃ rank, cell ∈ heap.cells rank) ∨ cell ∈ heap.live

instance (heap : Heap ι κ) (cell : κ) : Decidable (heap.Mapped cell) :=
  inferInstanceAs (Decidable (_ ∨ _))

def allocateLarge (heap : Heap ι κ) (size : Nat) (p : κ) : Option (Heap ι κ) :=
  if heap.Mapped p then none
  else some { heap with
    rank := Function.update heap.rank p none
    blocks := Function.update heap.blocks p (some size)
    largeAllocated := heap.largeAllocated + 1
    live := insert p heap.live }

/-- `f_allocate` of a thread that is idle. -/
def allocate (unit : Nat) (heap : Heap ι κ) (thread : ι) (size : Nat) (p : κ) :
    Option (Heap ι κ) :=
  match rankOf unit size with
  | none => heap.allocateLarge size p
  | some rank =>
    match heap.heads thread rank with
    | none => some (heap.goto thread (.loading rank))
    | some p => some (heap.take thread rank p)

/-- `f_grow` up to its count. -/
def grow (unit : Nat) (heap : Heap ι κ) (thread : ι) (rank : Rank) (block : List κ) :
    Option (Heap ι κ) :=
  match block with
  | [] => none
  | p :: rest =>
    if block.length = sizes rank ∧ block.Nodup ∧ ∀ cell ∈ block, ¬ heap.Mapped cell then
      some { heap.goto thread (.extending rank p) with
        next := strung heap.next (p :: rest)
        cyclic := Function.update heap.cyclic p (sizes rank)
        rank := fun cell => if cell ∈ p :: rest then some rank else heap.rank cell
        blocks := Function.update heap.blocks p (some ((unit <<< rank.val) * sizes rank))
        cells := Function.update heap.cells rank (heap.cells rank ∪ (p :: rest).toFinset) }
    else none

def free (heap : Heap ι κ) (collector : ι) (p : κ) : Option (Heap ι κ) :=
  match heap.rank p with
  | some rank =>
    let freed := heap.freed rank + 1
    some { heap.goto collector
        (if freed ≥ sizes rank then .linking rank freed [] else .sweeping []) with
      next := Function.update heap.next p (heap.heads collector rank)
      heads := heap.setHead collector rank (some p)
      freed := Function.update heap.freed rank freed
      live := heap.live.erase p }
  | none =>
    (heap.blocks p).map fun _ =>
      { heap with
        blocks := Function.update heap.blocks p none
        largeFreed := heap.largeFreed + 1
        live := heap.live.erase p }

def proceed (collector : ι) (heap : Heap ι κ) (thread : ι) (weak : Bool) :
    Option (Heap ι κ) :=
  match heap.stands thread with
  | .sweeping [] => none
  | .sweeping (rank :: rest) =>
    if thread = collector then
      if heap.freed rank > 0 then
        some (heap.goto thread (.linking rank (heap.freed rank) rest))
      else some (heap.goto thread (.sweeping rest))
    else some (heap.goto thread (.measuring rank (heap.heads thread rank) 0 rest))
  | .loading rank => some (heap.goto thread (.testing rank (heap.chunks rank)))
  | .testing rank none => some (heap.goto thread (.growing rank))
  | .testing rank (some p) =>
    some (heap.goto thread (.swapping rank p (heap.previous p)))
  | .swapping rank p previous =>
    if heap.chunks rank = some p ∧ weak = false then
      some { heap.goto thread (.taking rank p) with
        chunks := Function.update heap.chunks rank previous }
    else some (heap.goto thread (.testing rank (heap.chunks rank)))
  | .growing _ => none
  | .extending rank p =>
    some { heap.goto thread (.taking rank p) with
      grown := Function.update heap.grown rank (heap.grown rank + sizes rank) }
  | .taking rank p =>
    some { heap.take thread rank p with
      allocated := Function.update heap.allocated rank
        (heap.allocated rank + heap.cyclic p) }
  | .measuring rank none n rest =>
    if n > 0 then some (heap.goto thread (.linking rank n rest))
    else some (heap.goto thread (.sweeping rest))
  | .measuring rank (some p) n rest =>
    some (heap.goto thread (.measuring rank (heap.next p) (n + 1) rest))
  | .linking rank n rest =>
    (heap.heads thread rank).map fun p =>
      { heap.goto thread (.storing rank p n (heap.chunks rank) rest) with
        cyclic := Function.update heap.cyclic p n }
  | .storing rank p n previous rest =>
    some { heap.goto thread (.pushing rank p n rest) with
      previous := Function.update heap.previous p previous }
  | .pushing rank p n rest =>
    if heap.chunks rank = heap.previous p ∧ weak = false then
      some { heap.goto thread (.crediting rank n rest) with
        chunks := Function.update heap.chunks rank (some p) }
    else some (heap.goto thread (.storing rank p n (heap.chunks rank) rest))
  | .crediting rank n rest =>
    some { heap.goto thread (.sweeping rest) with
      heads := heap.setHead thread rank none
      returned := Function.update heap.returned rank (heap.returned rank + n)
      freed := if thread = collector then Function.update heap.freed rank 0
        else heap.freed }

/-- One step of one thread. Mutators allocate and exit, the collector frees and
flushes. -/
def step (unit : Nat) (collector : ι) (heap : Heap ι κ) : ι × Action κ → Option (Heap ι κ)
  | (thread, .allocate size p) =>
    if thread ≠ collector ∧ heap.stands thread = .sweeping [] then
      heap.allocate unit thread size p
    else none
  | (thread, .map block) =>
    match heap.stands thread with
    | .growing rank => heap.grow unit thread rank block
    | _ => none
  | (thread, .leave) =>
    if thread ≠ collector ∧ heap.stands thread = .sweeping [] then
      some (heap.goto thread (.sweeping [0, 1, 2, 3, 4]))
    else none
  | (thread, .free p) =>
    if thread = collector ∧ heap.stands thread = .sweeping [] ∧ p ∈ heap.live then
      heap.free collector p
    else none
  | (thread, .flush) =>
    if thread = collector ∧ heap.stands thread = .sweeping [] then
      some (heap.goto thread (.sweeping [0, 1, 2, 3, 4]))
    else none
  | (thread, .proceed weak) => heap.proceed collector thread weak
  | (_, .write p next previous cyclic) =>
    if p ∈ heap.live then
      some { heap with
        next := Function.update heap.next p next
        previous := Function.update heap.previous p previous
        cyclic := Function.update heap.cyclic p cyclic }
    else none

/-- `t_heap::f_live` -/
def fLive (heap : Heap ι κ) : Int :=
  ∑ rank, ((heap.allocated rank : Int) - heap.returned rank - heap.freed rank) +
    heap.largeAllocated - heap.largeFreed

end Heap

end Xemmai.Allocator
