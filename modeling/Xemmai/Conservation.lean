import Xemmai.Heap
import Mathlib.Algebra.BigOperators.Group.Finset.Basic

/-!
# Cells are neither lost nor handed out twice

Every cell of a size class is on the stack of chunks, in the hands of one thread
or live. The invariant names, for each thread and class, the list that the thread
holds, and gives each cell its one place; a step moves cells from one place to
another. It holds as long as no compare-exchange of `f_allocate` succeeds on a
chunk that has been taken and put back with another link since its link was read.
-/

namespace Xemmai.Allocator

set_option autoImplicit false

section Totals

variable {ι : Type}

/-- The amounts of all threads, of which all but finitely many are zero, and
their sums. -/
def Totals (due : ι → Rank → Int) (total : Rank → Int) : Prop :=
  ∃ active : Finset ι, (∀ thread ∉ active, ∀ rank, due thread rank = 0) ∧
    ∀ rank, ∑ thread ∈ active, due thread rank = total rank

theorem Totals.change {due due' : ι → Rank → Int} {total total' : Rank → Int}
    (totals : Totals due total) (thread : ι)
    (others : ∀ other, other ≠ thread → due' other = due other)
    (same : ∀ rank, total' rank = total rank + due' thread rank - due thread rank) :
    Totals due' total' := by
  classical
  obtain ⟨active, quiet, sums⟩ := totals
  refine ⟨insert thread active, ?_, ?_⟩
  · intro other outside rank
    rw [Finset.mem_insert, not_or] at outside
    rw [others other outside.1]
    exact quiet other outside.2 rank
  · intro rank
    have before : ∑ other ∈ insert thread active, due other rank = total rank := by
      rw [← sums rank]
      refine Finset.sum_subset (Finset.subset_insert _ _) ?_ |>.symm
      exact fun other _ outside => quiet other outside rank
    rw [← Finset.add_sum_erase _ _ (Finset.mem_insert_self thread active)] at before ⊢
    have rest : ∑ other ∈ (insert thread active).erase thread, due' other rank =
        ∑ other ∈ (insert thread active).erase thread, due other rank := by
      refine Finset.sum_congr rfl fun other member => ?_
      rw [others other (Finset.ne_of_mem_erase member)]
    rw [rest, same rank]
    omega

theorem Totals.none {due : ι → Rank → Int} {total : Rank → Int} (totals : Totals due total)
    (quiet : ∀ thread rank, due thread rank = 0) (rank : Rank) : total rank = 0 := by
  obtain ⟨active, _, sums⟩ := totals
  rw [← sums rank]
  exact Finset.sum_eq_zero fun thread _ => quiet thread rank

end Totals

inductive Place (ι : Type)
  | stack
  | held (thread : ι)
  | live

variable {ι κ : Type}

namespace Heap

/-- Where the list starts that a thread holds: what `f_allocate` is to return is
the thread's, what `f_return` has pushed no longer is. -/
def mine (heap : Heap ι κ) (thread : ι) (rank : Rank) : Option κ :=
  match heap.stands thread with
  | .extending class_ p => if rank = class_ then some p else heap.heads thread rank
  | .taking class_ p => if rank = class_ then some p else heap.heads thread rank
  | .crediting class_ _ _ => if rank = class_ then none else heap.heads thread rank
  | _ => heap.heads thread rank

/-- A cell is at a place: on a chain that a chunk of the stack heads, on the list
of a thread, or handed out. -/
def Lies (heap : Heap ι κ) (cell : κ) : Place ι → Prop
  | .stack => ∃ rank head, Follows heap.previous (heap.chunks rank) head ∧
      Follows heap.next (some head) cell
  | .held thread => ∃ rank, Follows heap.next (heap.mine thread rank) cell
  | .live => cell ∈ heap.live

def Quiet (heap : Heap ι κ) : Prop :=
  ∀ thread, heap.stands thread = .sweeping []

/-- Each cell of a size class is in exactly one place, each chunk on the stack is
as long as its head says, and when no thread is within an operation `f_live` is
the number of the cells that are live or in a list of a mutator. -/
structure Conserved (heap : Heap ι κ) (collector : ι) : Prop where
  placed : ∀ rank, ∀ cell ∈ heap.cells rank, ∃! place, heap.Lies cell place
  headed : ∀ rank head, Follows heap.previous (heap.chunks rank) head →
    ∃ cells, Path heap.next (some head) cells ∧ cells.length = heap.cyclic head
  counted : heap.Quiet → heap.fLive =
    Set.ncard {cell | cell ∈ heap.live ∨
      ∃ thread, thread ≠ collector ∧ heap.Lies cell (.held thread)}

/-- A compare-exchange of `f_allocate` that succeeds finds the link of the head as
it was read. -/
def Fresh [DecidableEq κ] (heap : Heap ι κ) : ι × Action κ → Prop
  | (thread, .proceed false) =>
    match heap.stands thread with
    | .swapping rank p previous =>
      heap.chunks rank = some p → heap.previous p = previous
    | _ => True
  | _ => True

end Heap

instance [DecidableEq κ] (heap : Heap ι κ) (action : ι × Action κ) :
    Decidable (heap.Fresh action) := by
  unfold Heap.Fresh
  split
  · split <;> infer_instance
  · infer_instance

/-- The chunks on the stacks, each with its head first, the list of each thread,
and the place of each cell. -/
structure Layout (ι κ : Type) where
  stack : Rank → List (κ × List κ)
  own : ι → Rank → List κ
  place : κ → Place ι

def cellsOf (chunks : List (κ × List κ)) : List κ :=
  chunks.flatMap fun chunk => chunk.1 :: chunk.2

theorem cellsOf_cons (chunk : κ × List κ) (chunks : List (κ × List κ)) :
    cellsOf (chunk :: chunks) = (chunk.1 :: chunk.2) ++ cellsOf chunks := rfl

theorem mem_cellsOf {chunks : List (κ × List κ)} {cell : κ} :
    cell ∈ cellsOf chunks ↔ ∃ chunk ∈ chunks, cell ∈ chunk.1 :: chunk.2 :=
  List.mem_flatMap

namespace Layout

def stacked (layout : Layout ι κ) (rank : Rank) : List κ :=
  cellsOf (layout.stack rank)

def pile (layout : Layout ι κ) (rank : Rank) (chunks : List (κ × List κ)) : Layout ι κ :=
  { layout with stack := Function.update layout.stack rank chunks }

variable {layout : Layout ι κ} {rank : Rank} {chunks : List (κ × List κ)}

@[simp] theorem pile_own : (layout.pile rank chunks).own = layout.own := rfl

@[simp] theorem pile_place : (layout.pile rank chunks).place = layout.place := rfl

@[simp] theorem pile_stacked : (layout.pile rank chunks).stacked rank = cellsOf chunks := by
  simp [pile, stacked]

theorem pile_stacked_of_ne {other : Rank} (different : other ≠ rank) :
    (layout.pile rank chunks).stacked other = layout.stacked other := by
  simp [pile, stacked, different]

end Layout

/-- Each cell of a class has its place, and no other cell has one. -/
structure Placed (heap : Heap ι κ) (layout : Layout ι κ) : Prop where
  ranked : ∀ {rank cell}, cell ∈ heap.cells rank → heap.rank cell = some rank
  stacked : ∀ {rank cell},
    cell ∈ layout.stacked rank ↔ cell ∈ heap.cells rank ∧ layout.place cell = .stack
  owned : ∀ {thread rank cell},
    cell ∈ layout.own thread rank ↔
      cell ∈ heap.cells rank ∧ layout.place cell = .held thread
  living : ∀ {rank cell}, cell ∈ heap.cells rank →
    (cell ∈ heap.live ↔ layout.place cell = .live)
  classed : ∀ {rank cell}, cell ∈ heap.live → heap.rank cell = some rank →
    cell ∈ heap.cells rank
  nodup : ∀ rank, (layout.stacked rank).Nodup

/-- The links lead through the stacks. -/
structure Stacked (heap : Heap ι κ) (layout : Layout ι κ) : Prop where
  chunks : ∀ rank,
    Path heap.previous (heap.chunks rank) ((layout.stack rank).map Prod.fst)
  chunk : ∀ {rank chunk}, chunk ∈ layout.stack rank →
    Path heap.next (heap.next chunk.1) chunk.2 ∧
      heap.cyclic chunk.1 = chunk.2.length + 1

/-- What a thread relies on where it stands. -/
def Role (heap : Heap ι κ) (layout : Layout ι κ) (collector thread : ι) : Prop :=
  match heap.stands thread with
  | .sweeping _ => True
  | .loading rank => thread ≠ collector ∧ heap.heads thread rank = none
  | .testing rank _ => thread ≠ collector ∧ heap.heads thread rank = none
  | .swapping rank _ _ => thread ≠ collector ∧ heap.heads thread rank = none
  | .growing rank => thread ≠ collector ∧ heap.heads thread rank = none
  | .extending rank p => thread ≠ collector ∧ heap.heads thread rank = none ∧
      heap.cyclic p = (layout.own thread rank).length
  | .taking rank p => thread ≠ collector ∧ heap.heads thread rank = none ∧
      heap.cyclic p = (layout.own thread rank).length
  | .measuring rank p n _ => thread ≠ collector ∧ ∃ front back,
      layout.own thread rank = front ++ back ∧ front.length = n ∧ Path heap.next p back
  | .linking rank n _ => n = (layout.own thread rank).length
  | .storing rank p n _ _ => heap.heads thread rank = some p ∧
      n = (layout.own thread rank).length ∧ heap.cyclic p = n
  | .pushing rank p n _ => heap.heads thread rank = some p ∧
      n = (layout.own thread rank).length ∧ heap.cyclic p = n
  | .crediting _ _ _ => True

def uncredited (heap : Heap ι κ) (thread : ι) (rank : Rank) : Nat :=
  match heap.stands thread with
  | .crediting class_ n _ => if rank = class_ then n else 0
  | _ => 0

def uncounted (heap : Heap ι κ) (layout : Layout ι κ) (thread : ι) (rank : Rank) : Nat :=
  match heap.stands thread with
  | .extending class_ _ => if rank = class_ then (layout.own thread rank).length else 0
  | .taking class_ _ => if rank = class_ then (layout.own thread rank).length else 0
  | _ => 0

/-- What a thread holds, relies on and has not yet counted. -/
structure Kept (heap : Heap ι κ) (layout : Layout ι κ) (collector thread : ι) : Prop where
  own : ∀ rank, Path heap.next (heap.mine thread rank) (layout.own thread rank)
  role : Role heap layout collector thread

def due (heap : Heap ι κ) (layout : Layout ι κ) (thread : ι) (rank : Rank) : Int :=
  uncounted heap layout thread rank - uncredited heap thread rank

/-- The cells of a class that are off the stack, less those that the counters say
are. -/
def total (heap : Heap ι κ) (layout : Layout ι κ) (rank : Rank) : Int :=
  (heap.cells rank).card - (layout.stacked rank).length -
    (heap.allocated rank - heap.returned rank)

structure Sound (heap : Heap ι κ) (layout : Layout ι κ) (collector : ι) : Prop where
  placed : Placed heap layout
  stacked : Stacked heap layout
  kept : ∀ thread, Kept heap layout collector thread
  freed : ∀ rank, heap.freed rank =
    (layout.own collector rank).length + uncredited heap collector rank
  totals : Totals (due heap layout) (total heap layout)
  large : heap.largeAllocated =
    heap.largeFreed + (heap.live.filter fun cell => heap.rank cell = none).card

namespace Sound

variable {heap : Heap ι κ} {layout : Layout ι κ} {collector : ι}

theorem lies_stack (sound : Sound heap layout collector) {cell : κ} :
    heap.Lies cell .stack ↔ ∃ rank, cell ∈ layout.stacked rank := by
  constructor
  · rintro ⟨rank, head, onto, inside⟩
    rw [(sound.stacked.chunks rank).follows_iff, List.mem_map] at onto
    obtain ⟨chunk, member, rfl⟩ := onto
    have path : Path heap.next (some chunk.1) (chunk.1 :: chunk.2) :=
      ⟨rfl, (sound.stacked.chunk member).1⟩
    exact ⟨rank, mem_cellsOf.mpr ⟨chunk, member, path.follows_iff.mp inside⟩⟩
  · rintro ⟨rank, member⟩
    obtain ⟨chunk, member, inside⟩ := mem_cellsOf.mp member
    have path : Path heap.next (some chunk.1) (chunk.1 :: chunk.2) :=
      ⟨rfl, (sound.stacked.chunk member).1⟩
    refine ⟨rank, chunk.1, ?_, path.follows_iff.mpr inside⟩
    rw [(sound.stacked.chunks rank).follows_iff]
    exact List.mem_map_of_mem member

theorem lies_held (sound : Sound heap layout collector) {cell : κ} {thread : ι} :
    heap.Lies cell (.held thread) ↔ ∃ rank, cell ∈ layout.own thread rank :=
  exists_congr fun rank => ((sound.kept thread).own rank).follows_iff

theorem lies_iff (sound : Sound heap layout collector) {cell : κ} {rank : Rank}
    (member : cell ∈ heap.cells rank) (place : Place ι) :
    heap.Lies cell place ↔ place = layout.place cell := by
  cases place with
  | stack =>
    rw [sound.lies_stack]
    constructor
    · rintro ⟨_, inside⟩
      exact (sound.placed.stacked.mp inside).2.symm
    · exact fun same => ⟨rank, sound.placed.stacked.mpr ⟨member, same.symm⟩⟩
  | held thread =>
    rw [sound.lies_held]
    constructor
    · rintro ⟨_, inside⟩
      exact (sound.placed.owned.mp inside).2.symm
    · exact fun same => ⟨rank, sound.placed.owned.mpr ⟨member, same.symm⟩⟩
  | live => exact (sound.placed.living member).trans eq_comm

theorem headed (sound : Sound heap layout collector) {rank : Rank} {head : κ}
    (onto : Follows heap.previous (heap.chunks rank) head) :
    ∃ cells, Path heap.next (some head) cells ∧ cells.length = heap.cyclic head := by
  rw [(sound.stacked.chunks rank).follows_iff, List.mem_map] at onto
  obtain ⟨chunk, member, rfl⟩ := onto
  obtain ⟨path, length⟩ := sound.stacked.chunk member
  exact ⟨chunk.1 :: chunk.2, ⟨rfl, path⟩, length.symm⟩

section

variable [DecidableEq κ]

def outside (heap : Heap ι κ) (layout : Layout ι κ) (collector : ι) (rank : Rank) :
    Finset κ :=
  heap.cells rank \ ((layout.stacked rank).toFinset ∪ (layout.own collector rank).toFinset)

theorem card_outside (sound : Sound heap layout collector) (rank : Rank) :
    (outside heap layout collector rank).card + (layout.stacked rank).length +
      (layout.own collector rank).length = (heap.cells rank).card := by
  have apart : Disjoint (layout.stacked rank).toFinset (layout.own collector rank).toFinset := by
    rw [Finset.disjoint_left]
    intro cell stacked owned
    rw [List.mem_toFinset] at stacked owned
    have here := (sound.placed.stacked.mp stacked).2
    rw [(sound.placed.owned.mp owned).2] at here
    exact absurd here (by simp)
  have inside : (layout.stacked rank).toFinset ∪ (layout.own collector rank).toFinset ⊆
      heap.cells rank := by
    intro cell member
    rcases Finset.mem_union.mp member with stacked | owned
    · exact (sound.placed.stacked.mp (List.mem_toFinset.mp stacked)).1
    · exact (sound.placed.owned.mp (List.mem_toFinset.mp owned)).1
  have sizes := Finset.card_sdiff_add_card_eq_card inside
  rw [Finset.card_union_of_disjoint apart,
    List.toFinset_card_of_nodup (sound.placed.nodup rank),
    List.toFinset_card_of_nodup ((sound.kept collector).own rank).nodup] at sizes
  rw [outside]
  omega

theorem mem_outside (sound : Sound heap layout collector) {rank : Rank} {cell : κ}
    (member : cell ∈ heap.cells rank) :
    cell ∈ outside heap layout collector rank ↔
      cell ∈ heap.live ∨ ∃ thread, thread ≠ collector ∧ heap.Lies cell (.held thread) := by
  have stacked : cell ∈ layout.stacked rank ↔ layout.place cell = .stack :=
    sound.placed.stacked.trans (and_iff_right member)
  have owned : cell ∈ layout.own collector rank ↔ layout.place cell = .held collector :=
    sound.placed.owned.trans (and_iff_right member)
  simp only [outside, Finset.mem_sdiff, Finset.mem_union, List.mem_toFinset, member,
    true_and, not_or, stacked, owned, sound.placed.living member, sound.lies_iff member]
  cases layout.place cell with
  | stack => simp
  | held thread => simp
  | live => simp

/-- The cells that are live or in a list of a mutator are those of each class that
are elsewhere than on the stack or with the collector, and the large cells. -/
theorem counted (sound : Sound heap layout collector) (quiet : heap.Quiet) :
    heap.fLive = Set.ncard {cell | cell ∈ heap.live ∨
      ∃ thread, thread ≠ collector ∧ heap.Lies cell (.held thread)} := by
  have same : {cell | cell ∈ heap.live ∨
      ∃ thread, thread ≠ collector ∧ heap.Lies cell (.held thread)} =
      ↑(Finset.univ.biUnion (outside heap layout collector) ∪
        heap.live.filter fun cell => heap.rank cell = none) := by
    ext cell
    simp only [Set.mem_ofPred_eq, Finset.coe_union, Set.mem_union, Finset.mem_coe,
      Finset.mem_biUnion, Finset.mem_univ, true_and, Finset.mem_filter]
    constructor
    · intro holds
      cases rank : heap.rank cell with
      | none =>
        refine Or.inr ⟨holds.resolve_right ?_, rfl⟩
        rintro ⟨thread, _, held⟩
        obtain ⟨class_, held⟩ := sound.lies_held.mp held
        have ranked := sound.placed.ranked (sound.placed.owned.mp held).1
        exact absurd (rank.symm.trans ranked) (by simp)
      | some class_ =>
        have member : cell ∈ heap.cells class_ := by
          rcases holds with live | ⟨thread, _, held⟩
          · exact sound.placed.classed live rank
          · obtain ⟨other, held⟩ := sound.lies_held.mp held
            have member := (sound.placed.owned.mp held).1
            have ranked := rank.symm.trans (sound.placed.ranked member)
            exact Option.some.inj ranked ▸ member
        exact Or.inl ⟨class_, (sound.mem_outside member).mpr holds⟩
    · rintro (⟨rank, inside⟩ | large)
      · exact (sound.mem_outside (Finset.mem_sdiff.mp inside).1).mp inside
      · exact Or.inl large.1
  have apart : Disjoint (Finset.univ.biUnion (outside heap layout collector))
      (heap.live.filter fun cell => heap.rank cell = none) := by
    rw [Finset.disjoint_left]
    intro cell member large
    obtain ⟨rank, _, member⟩ := Finset.mem_biUnion.mp member
    have ranked := sound.placed.ranked (Finset.mem_sdiff.mp member).1
    exact absurd (ranked.symm.trans (Finset.mem_filter.mp large).2) (by simp)
  have classes : ((Finset.univ : Finset Rank) : Set Rank).PairwiseDisjoint
      (outside heap layout collector) := by
    intro first _ second _ different
    refine Finset.disjoint_left.mpr fun cell here there => different ?_
    have ranked := sound.placed.ranked (Finset.mem_sdiff.mp here).1
    have ranked' := sound.placed.ranked (Finset.mem_sdiff.mp there).1
    exact Option.some.inj (ranked.symm.trans ranked')
  have settled : ∀ rank, (heap.allocated rank : Int) - heap.returned rank - heap.freed rank =
      (outside heap layout collector rank).card := by
    intro rank
    have none := sound.totals.none (fun thread _ => by
      simp [due, uncounted, uncredited, quiet thread]) rank
    have freed := sound.freed rank
    have card := sound.card_outside rank
    simp only [uncredited, quiet collector] at freed
    simp only [total] at none
    omega
  have large := sound.large
  rw [same, Set.ncard_coe_finset, Finset.card_union_of_disjoint apart,
    Finset.card_biUnion classes, Heap.fLive, Finset.sum_congr rfl fun rank' _ => settled rank']
  push_cast
  omega

end

theorem conserved [DecidableEq κ] (sound : Sound heap layout collector) :
    heap.Conserved collector where
  placed _ cell member :=
    ⟨layout.place cell, (sound.lies_iff member _).mpr rfl,
      fun _ lies => (sound.lies_iff member _).mp lies⟩
  headed _ _ onto := sound.headed onto
  counted := sound.counted

end Sound

variable {heap after : Heap ι κ} {layout layout' : Layout ι κ} {collector thread : ι}

theorem Stacked.congr (stacked : Stacked heap layout) (stack : layout'.stack = layout.stack)
    (chunks : after.chunks = heap.chunks)
    (previous : ∀ rank, ∀ cell ∈ layout.stacked rank, after.previous cell = heap.previous cell)
    (links : ∀ rank, ∀ cell ∈ layout.stacked rank,
      after.next cell = heap.next cell ∧ after.cyclic cell = heap.cyclic cell) :
    Stacked after layout' where
  chunks rank := by
    rw [stack, chunks]
    refine (stacked.chunks rank).congr fun cell member => ?_
    obtain ⟨chunk, inside, rfl⟩ := List.mem_map.mp member
    exact previous rank _ (mem_cellsOf.mpr ⟨chunk, inside, List.mem_cons_self⟩)
  chunk := by
    intro rank chunk member
    rw [stack] at member
    have inside : ∀ cell ∈ chunk.1 :: chunk.2, cell ∈ layout.stacked rank :=
      fun cell inside => mem_cellsOf.mpr ⟨chunk, member, inside⟩
    obtain ⟨next, cyclic⟩ := links rank chunk.1 (inside _ List.mem_cons_self)
    obtain ⟨path, length⟩ := stacked.chunk member
    rw [next, cyclic]
    exact ⟨path.congr fun cell rest =>
      (links rank cell (inside cell (List.mem_cons_of_mem _ rest))).1, length⟩

namespace Kept

theorem mine_mem (kept : Kept heap layout collector thread) {rank : Rank} {p : κ}
    (mine : heap.mine thread rank = some p) :
    ∃ rest, layout.own thread rank = p :: rest ∧ Path heap.next (heap.next p) rest := by
  have path := kept.own rank
  rw [mine] at path
  exact path.some_cons

theorem congr (kept : Kept heap layout collector thread)
    (stands : after.stands thread = heap.stands thread)
    (heads : after.heads thread = heap.heads thread)
    (own : layout'.own thread = layout.own thread)
    (links : ∀ rank, ∀ cell ∈ layout.own thread rank,
      after.next cell = heap.next cell ∧ after.cyclic cell = heap.cyclic cell) :
    Kept after layout' collector thread where
  own rank := by
    rw [own, Heap.mine, stands, heads]
    exact (kept.own rank).congr fun cell member => (links rank cell member).1
  role := by
    have role := kept.role
    have cyclic : ∀ (rank : Rank) {p}, heap.mine thread rank = some p →
        after.cyclic p = heap.cyclic p := by
      intro rank p mine
      obtain ⟨rest, owned, _⟩ := kept.mine_mem mine
      exact (links rank p (by simp [owned])).2
    unfold Role at role ⊢
    rw [stands, heads, own]
    cases stand : heap.stands thread with
    | sweeping rest => trivial
    | loading rank => simpa only [stand] using role
    | testing rank p => simpa only [stand] using role
    | swapping rank p previous => simpa only [stand] using role
    | growing rank => simpa only [stand] using role
    | extending rank p =>
      simp only [stand] at role ⊢
      rw [cyclic rank (by simp [Heap.mine, stand])]
      exact role
    | taking rank p =>
      simp only [stand] at role ⊢
      rw [cyclic rank (by simp [Heap.mine, stand])]
      exact role
    | measuring rank p n rest =>
      simp only [stand] at role ⊢
      obtain ⟨mutator, front, back, owned, length, path⟩ := role
      refine ⟨mutator, front, back, owned, length, path.congr fun cell member => ?_⟩
      exact (links rank cell (by simp [owned, member])).1
    | linking rank n rest => simpa only [stand] using role
    | storing rank p n previous rest =>
      simp only [stand] at role ⊢
      rw [cyclic rank (by simp [Heap.mine, stand, role.1])]
      exact role
    | pushing rank p n rest =>
      simp only [stand] at role ⊢
      rw [cyclic rank (by simp [Heap.mine, stand, role.1])]
      exact role
    | crediting rank n rest => trivial

end Kept

namespace Placed

theorem rank_unique (placed : Placed heap layout) {rank other : Rank} {cell : κ}
    (member : cell ∈ heap.cells rank) : cell ∈ heap.cells other ↔ other = rank := by
  constructor
  · intro member'
    exact Option.some.inj ((placed.ranked member').symm.trans (placed.ranked member))
  · rintro rfl
    exact member

/-- Some cells of one class come to one place, the others stay where they are. -/
theorem moves (placed : Placed heap layout) (rank : Rank) (moved : κ → Prop)
    (here : ∀ cell, moved cell → after.rank cell = some rank ∧
      (∀ other, cell ∈ after.cells other ↔ other = rank) ∧
      (cell ∈ after.live ↔ layout'.place cell = .live) ∧
      (∀ other, cell ∈ layout'.stacked other ↔
        other = rank ∧ layout'.place cell = .stack) ∧
      ∀ thread other, cell ∈ layout'.own thread other ↔
        other = rank ∧ layout'.place cell = .held thread)
    (away : ∀ cell, ¬ moved cell → after.rank cell = heap.rank cell ∧
      (∀ other, cell ∈ after.cells other ↔ cell ∈ heap.cells other) ∧
      (cell ∈ after.live ↔ cell ∈ heap.live) ∧
      (∀ other, cell ∈ layout'.stacked other ↔ cell ∈ layout.stacked other) ∧
      (∀ thread other, cell ∈ layout'.own thread other ↔ cell ∈ layout.own thread other) ∧
      layout'.place cell = layout.place cell)
    (nodup : ∀ rank, (layout'.stacked rank).Nodup) : Placed after layout' where
  ranked := by
    intro other cell member
    by_cases within : moved cell
    · obtain ⟨ranked, cells, _⟩ := here cell within
      rw [(cells other).mp member]
      exact ranked
    · obtain ⟨ranked, cells, _⟩ := away cell within
      rw [ranked]
      exact placed.ranked ((cells other).mp member)
  stacked := by
    intro other cell
    by_cases within : moved cell
    · obtain ⟨_, cells, _, stacked, _⟩ := here cell within
      rw [stacked, cells]
    · obtain ⟨_, cells, _, stacked, _, place⟩ := away cell within
      rw [stacked, cells, place]
      exact placed.stacked
  owned := by
    intro thread other cell
    by_cases within : moved cell
    · obtain ⟨_, cells, _, _, owned⟩ := here cell within
      rw [owned, cells]
    · obtain ⟨_, cells, _, _, owned, place⟩ := away cell within
      rw [owned, cells, place]
      exact placed.owned
  living := by
    intro other cell member
    by_cases within : moved cell
    · exact (here cell within).2.2.1
    · obtain ⟨_, cells, live, _, _, place⟩ := away cell within
      rw [live, place]
      exact placed.living ((cells other).mp member)
  classed := by
    intro other cell live ranked
    by_cases within : moved cell
    · obtain ⟨ranked', cells, _⟩ := here cell within
      exact (cells other).mpr (Option.some.inj (ranked.symm.trans ranked'))
    · obtain ⟨ranked', cells, live', _⟩ := away cell within
      exact (cells other).mpr (placed.classed (live'.mp live) (ranked'.symm.trans ranked))
  nodup := nodup

end Placed

/-- A step of one thread leaves the other threads and what they hold alone. -/
theorem Sound.turn (sound : Sound heap layout collector) (thread : ι)
    (placed : Placed after layout') (stacked : Stacked after layout')
    (kept : Kept after layout' collector thread)
    (others : ∀ other, other ≠ thread → after.stands other = heap.stands other ∧
      after.heads other = heap.heads other ∧ layout'.own other = layout.own other)
    (links : ∀ other, other ≠ thread → ∀ rank, ∀ cell ∈ layout.own other rank,
      after.next cell = heap.next cell ∧ after.cyclic cell = heap.cyclic cell)
    (freed : ∀ rank, after.freed rank =
      (layout'.own collector rank).length + uncredited after collector rank)
    (totals : ∀ rank, total after layout' rank =
      total heap layout rank + due after layout' thread rank - due heap layout thread rank)
    (large : after.largeAllocated =
      after.largeFreed + (after.live.filter fun cell => after.rank cell = none).card) :
    Sound after layout' collector where
  placed := placed
  stacked := stacked
  kept other := by
    by_cases same : other = thread
    · exact same ▸ kept
    · obtain ⟨stands, heads, own⟩ := others other same
      exact (sound.kept other).congr stands heads own (links other same)
  freed := freed
  totals := by
    refine sound.totals.change thread ?_ totals
    intro other different
    obtain ⟨stands, _, own⟩ := others other different
    funext rank
    simp only [due, uncounted, uncredited, stands, own]
  large := large

def Stand.plain : Stand κ → Bool
  | .extending _ _ => false
  | .taking _ _ => false
  | .crediting _ _ _ => false
  | _ => true

theorem mine_plain (plain : (heap.stands thread).plain = true) :
    heap.mine thread = heap.heads thread := by
  funext rank
  unfold Heap.mine
  cases stand : heap.stands thread with
  | extending class_ p => simp [stand, Stand.plain] at plain
  | taking class_ p => simp [stand, Stand.plain] at plain
  | crediting class_ n rest => simp [stand, Stand.plain] at plain
  | _ => rfl

theorem uncredited_plain (plain : (heap.stands thread).plain = true) (rank : Rank) :
    uncredited heap thread rank = 0 := by
  unfold uncredited
  cases stand : heap.stands thread with
  | crediting class_ n rest => simp [stand, Stand.plain] at plain
  | _ => rfl

theorem uncounted_plain (plain : (heap.stands thread).plain = true) (rank : Rank) :
    uncounted heap layout thread rank = 0 := by
  unfold uncounted
  cases stand : heap.stands thread with
  | extending class_ p => simp [stand, Stand.plain] at plain
  | taking class_ p => simp [stand, Stand.plain] at plain
  | _ => rfl

section

variable [DecidableEq ι]

/-- A step that takes a thread elsewhere and at most writes to cells it holds. -/
theorem Sound.marks (sound : Sound heap layout collector) {stand : Stand κ}
    {grown : Rank → Nat} {cyclic : κ → Nat} {previous : κ → Option κ}
    (shape : after = { heap.goto thread stand with
      grown := grown, cyclic := cyclic, previous := previous })
    (aside : ∀ cell, (∀ rank, cell ∉ layout.own thread rank) →
      cyclic cell = heap.cyclic cell ∧ previous cell = heap.previous cell)
    (mine : ∀ rank, after.mine thread rank = heap.mine thread rank)
    (role : Role after layout collector thread)
    (credited : ∀ rank, uncredited after thread rank = uncredited heap thread rank)
    (counted : ∀ rank, uncounted after layout thread rank = uncounted heap layout thread rank) :
    Sound after layout collector := by
  subst shape
  have apart : ∀ {cell place}, (∃ rank, cell ∈ heap.cells rank ∧ layout.place cell = place) →
      place ≠ .held thread → cyclic cell = heap.cyclic cell ∧
        previous cell = heap.previous cell := by
    rintro cell place ⟨rank, _, placed⟩ different
    refine aside cell fun other member => different ?_
    exact placed.symm.trans (sound.placed.owned.mp member).2
  refine sound.turn thread { sound.placed with } ?_ ⟨?_, role⟩ ?_ ?_ ?_ ?_ sound.large
  · refine sound.stacked.congr rfl rfl ?_ ?_
    · intro rank cell member
      exact (apart ⟨rank, sound.placed.stacked.mp member⟩ (by simp)).2
    · intro rank cell member
      exact ⟨rfl, (apart ⟨rank, sound.placed.stacked.mp member⟩ (by simp)).1⟩
  · intro rank
    rw [mine]
    exact (sound.kept thread).own rank
  · exact fun other different => ⟨Function.update_of_ne different _ _, rfl, rfl⟩
  · intro other different rank cell member
    exact ⟨rfl, (apart ⟨rank, sound.placed.owned.mp member⟩ (by simpa using different)).1⟩
  · intro rank
    have before := sound.freed rank
    by_cases same : collector = thread
    · subst same
      rw [credited]
      exact before
    · simpa only [uncredited, Heap.goto, Function.update_of_ne same] using before
  · intro rank
    have unmoved : total { heap.goto thread stand with
        grown := grown, cyclic := cyclic, previous := previous } layout rank =
        total heap layout rank := rfl
    rw [unmoved, due, due, credited, counted]
    omega

/-- A step between two stands at which the thread holds what its head leads to. -/
theorem Sound.marks_plain (sound : Sound heap layout collector) {stand : Stand κ}
    {cyclic : κ → Nat} {previous : κ → Option κ}
    (shape : after = { heap.goto thread stand with cyclic := cyclic, previous := previous })
    (aside : ∀ cell, (∀ rank, cell ∉ layout.own thread rank) →
      cyclic cell = heap.cyclic cell ∧ previous cell = heap.previous cell)
    (plain : (heap.stands thread).plain = true) (plain' : stand.plain = true)
    (role : Role after layout collector thread) : Sound after layout collector := by
  have here : after.stands thread = stand := by
    rw [shape]
    exact Function.update_self _ _ _
  have arrived : (after.stands thread).plain = true := here ▸ plain'
  have shape' : after = { heap.goto thread stand with
      grown := heap.grown, cyclic := cyclic, previous := previous } := shape
  refine sound.marks shape' aside ?_ role ?_ ?_
  · intro rank
    rw [mine_plain arrived, mine_plain plain, shape]
    rfl
  · intro rank
    rw [uncredited_plain arrived, uncredited_plain plain]
  · intro rank
    rw [uncounted_plain arrived, uncounted_plain plain]

theorem Sound.moves (sound : Sound heap layout collector) {stand : Stand κ}
    (plain : (heap.stands thread).plain = true) (plain' : stand.plain = true)
    (role : Role (heap.goto thread stand) layout collector thread) :
    Sound (heap.goto thread stand) layout collector :=
  sound.marks_plain rfl (fun _ _ => ⟨rfl, rfl⟩) plain plain' role

namespace Layout

def give (layout : Layout ι κ) (thread : ι) (rank : Rank) (list : List κ)
    (place : κ → Place ι) : Layout ι κ :=
  { layout with
    own := Function.update layout.own thread (Function.update (layout.own thread) rank list)
    place := place }

variable {list : List κ} {rank : Rank} {place : κ → Place ι}

@[simp] theorem give_stacked : (layout.give thread rank list place).stacked = layout.stacked :=
  rfl

@[simp] theorem give_place : (layout.give thread rank list place).place = place := rfl

@[simp] theorem give_own : (layout.give thread rank list place).own thread rank = list := by
  simp [give]

theorem give_own_of_ne {other : Rank} (different : other ≠ rank) :
    (layout.give thread rank list place).own thread other = layout.own thread other := by
  simp [give, different]

theorem give_other {other : ι} (different : other ≠ thread) :
    (layout.give thread rank list place).own other = layout.own other := by
  simp [give, different]

theorem mem_give {other : ι} {class_ : Rank} {cell : κ} :
    cell ∈ (layout.give thread rank list place).own other class_ ↔
      if other = thread ∧ class_ = rank then cell ∈ list
      else cell ∈ layout.own other class_ := by
  by_cases same : other = thread
  · subst same
    by_cases same' : class_ = rank
    · subst same'
      simp
    · simp [give_own_of_ne same', same']
  · simp [give_other same, same]

end Layout

variable [DecidableEq κ]

theorem Sound.takes (sound : Sound heap layout collector) (mutator : thread ≠ collector)
    {rank : Rank} {p : κ} (mine : heap.mine thread rank = some p)
    (plain : ∀ other, other ≠ rank → heap.mine thread other = heap.heads thread other)
    (credited : ∀ other, uncredited heap thread other = 0) (allocated : Rank → Nat)
    (counted : ∀ other,
      allocated other = heap.allocated other + uncounted heap layout thread other) :
    ∃ layout', Sound { heap.take thread rank p with allocated := allocated } layout'
      collector := by
  obtain ⟨rest, owned, path⟩ := (sound.kept thread).mine_mem mine
  have nodup := ((sound.kept thread).own rank).nodup
  rw [owned, List.nodup_cons] at nodup
  have place := sound.placed.owned.mp (show p ∈ layout.own thread rank by simp [owned])
  refine ⟨layout.give thread rank rest (Function.update layout.place p .live),
    sound.turn thread ?_ ?_ ⟨?_, ?_⟩ ?_ ?_ ?_ ?_ ?_⟩
  · refine sound.placed.moves rank (· = p) ?_ ?_ sound.placed.nodup
    · rintro cell rfl
      refine ⟨sound.placed.ranked place.1, fun _ => sound.placed.rank_unique place.1, ?_, ?_, ?_⟩
      · simp [Heap.take]
      · intro other
        have apart : cell ∉ layout.stacked other := fun member =>
          absurd (place.2.symm.trans (sound.placed.stacked.mp member).2) (by simp)
        simp [apart]
      · intro other class_
        have apart : cell ∉ (layout.give thread rank rest
            (Function.update layout.place cell .live)).own other class_ := by
          rw [Layout.mem_give]
          split
          · exact nodup.1
          · rename_i elsewhere
            intro member
            obtain ⟨inside, held⟩ := sound.placed.owned.mp member
            rw [place.2, Place.held.injEq] at held
            exact elsewhere ⟨held.symm, (sound.placed.rank_unique place.1).mp inside⟩
        simp [apart]
    · intro cell different
      refine ⟨rfl, fun _ => Iff.rfl, ?_, fun _ => Iff.rfl, ?_, Function.update_of_ne different _ _⟩
      · simp [Heap.take, different]
      · intro other class_
        rw [Layout.mem_give]
        split
        · rename_i same
          rw [same.1, same.2, owned, List.mem_cons]
          simp [different]
        · exact Iff.rfl
  · exact sound.stacked.congr rfl rfl (fun _ _ _ => rfl) fun _ _ _ => ⟨rfl, rfl⟩
  · intro other
    by_cases same : other = rank
    · subst same
      simpa [Heap.mine, Heap.take, Heap.goto, Heap.setHead] using path
    · rw [Layout.give_own_of_ne same]
      have held := (sound.kept thread).own other
      rw [plain other same] at held
      simpa [Heap.mine, Heap.take, Heap.goto, Heap.setHead, same] using held
  · simp [Role, Heap.take, Heap.goto]
  · intro other different
    exact ⟨Function.update_of_ne different _ _, Function.update_of_ne different _ _,
      Layout.give_other different⟩
  · exact fun _ _ _ _ _ => ⟨rfl, rfl⟩
  · intro other
    have before := sound.freed other
    rw [Layout.give_other (Ne.symm mutator)]
    simpa [uncredited, Heap.take, Heap.goto, Ne.symm mutator] using before
  · intro other
    have settled := counted other
    have uncredited' := credited other
    simp only [total, due, uncounted, uncredited, Heap.take, Heap.goto, Layout.give_stacked,
      Function.update_self] at settled uncredited' ⊢
    omega
  · have ranked := sound.placed.ranked place.1
    have unmoved : (insert p heap.live).filter (fun cell => heap.rank cell = none) =
        heap.live.filter fun cell => heap.rank cell = none := by
      rw [Finset.filter_insert, if_neg (by simp [ranked])]
    have large := sound.large
    rw [← unmoved] at large
    exact large

/-- A thread takes the chunk on top of the stack, whose link is as it was read. -/
theorem Sound.pops (sound : Sound heap layout collector) {rank : Rank} {p : κ}
    {previous : Option κ} (stand : heap.stands thread = .swapping rank p previous)
    (top : heap.chunks rank = some p) (fresh : heap.previous p = previous) :
    ∃ layout', Sound { heap.goto thread (.taking rank p) with
      chunks := Function.update heap.chunks rank previous } layout' collector := by
  have role : thread ≠ collector ∧ heap.heads thread rank = none := by
    simpa only [Role, stand] using (sound.kept thread).role
  obtain ⟨mutator, empty⟩ := role
  have mine : heap.mine thread = heap.heads thread := by
    funext other
    simp only [Heap.mine, stand]
  have bare : layout.own thread rank = [] := by
    have path := (sound.kept thread).own rank
    rw [mine, empty] at path
    exact path.null
  obtain ⟨chunk, below, piled⟩ : ∃ chunk below, layout.stack rank = chunk :: below := by
    have path := sound.stacked.chunks rank
    rw [top] at path
    obtain ⟨heads, shape, _⟩ := path.some_cons
    exact List.exists_cons_of_ne_nil fun none => by simp [none] at shape
  have heads := sound.stacked.chunks rank
  rw [top, piled, List.map_cons] at heads
  obtain ⟨same, heads⟩ := heads
  obtain rfl := Option.some.inj same
  obtain ⟨path, length⟩ := sound.stacked.chunk (show chunk ∈ layout.stack rank by simp [piled])
  have stacked : layout.stacked rank = (chunk.1 :: chunk.2) ++ cellsOf below := by
    rw [Layout.stacked, piled, cellsOf_cons]
  have nodup := sound.placed.nodup rank
  rw [stacked, List.nodup_append'] at nodup
  obtain ⟨_, nodup, apart⟩ := nodup
  let place : κ → Place ι := fun cell =>
    if cell ∈ chunk.1 :: chunk.2 then .held thread else layout.place cell
  refine ⟨(layout.pile rank below).give thread rank (chunk.1 :: chunk.2) place,
    sound.turn thread ?_ ⟨?_, ?_⟩ ⟨?_, ?_⟩ ?_ ?_ ?_ ?_ sound.large⟩
  · refine sound.placed.moves rank (· ∈ chunk.1 :: chunk.2) ?_ ?_ ?_
    · intro cell member
      have on : cell ∈ layout.stacked rank := stacked ▸ List.mem_append_left _ member
      obtain ⟨inside, placed⟩ := sound.placed.stacked.mp on
      have placed' : place cell = .held thread := if_pos member
      refine ⟨sound.placed.ranked inside, fun _ => sound.placed.rank_unique inside, ?_, ?_, ?_⟩
      · exact (sound.placed.living inside).trans (by simp [placed, placed'])
      · intro other
        refine iff_of_false ?_ (by simp [placed'])
        by_cases same : other = rank
        · subst same
          simpa using apart member
        · rw [Layout.give_stacked, Layout.pile_stacked_of_ne same]
          exact fun on' => same ((sound.placed.rank_unique inside).mp
            (sound.placed.stacked.mp on').1)
      · intro other class_
        rw [Layout.mem_give, Layout.give_place, placed']
        split
        · rename_i same
          exact iff_of_true member ⟨same.2, congrArg _ same.1.symm⟩
        · rename_i elsewhere
          refine iff_of_false ?_ fun same => elsewhere ⟨(Place.held.inj same.2).symm, same.1⟩
          exact fun owned => absurd (placed.symm.trans (sound.placed.owned.mp owned).2) (by simp)
    · intro cell outside
      refine ⟨rfl, fun _ => Iff.rfl, Iff.rfl, ?_, ?_, if_neg outside⟩
      · intro other
        by_cases same : other = rank
        · subst same
          rw [Layout.give_stacked, Layout.pile_stacked, stacked, List.mem_append]
          exact (or_iff_right outside).symm
        · rw [Layout.give_stacked, Layout.pile_stacked_of_ne same]
      · intro other class_
        rw [Layout.mem_give]
        split
        · rename_i same
          rw [same.1, same.2, bare]
          exact iff_of_false outside List.not_mem_nil
        · exact Iff.rfl
    · intro other
      by_cases same : other = rank
      · subst same
        simpa using nodup
      · rw [Layout.give_stacked, Layout.pile_stacked_of_ne same]
        exact sound.placed.nodup other
  · intro other
    by_cases same : other = rank
    · subst same
      simpa [Layout.give, Layout.pile, Heap.goto, ← fresh] using heads
    · simpa [Layout.give, Layout.pile, Heap.goto, same] using sound.stacked.chunks other
  · intro other chunk' member
    have before : chunk' ∈ layout.stack other := by
      by_cases same : other = rank
      · subst same
        rw [piled]
        exact List.mem_cons_of_mem _ (by simpa [Layout.give, Layout.pile] using member)
      · simpa [Layout.give, Layout.pile, same] using member
    exact sound.stacked.chunk before
  · intro other
    by_cases same : other = rank
    · subst same
      have path' : Path heap.next (some chunk.1) (chunk.1 :: chunk.2) := ⟨rfl, path⟩
      simpa [Heap.mine, Heap.goto] using path'
    · rw [Layout.give_own_of_ne same]
      have held := (sound.kept thread).own other
      rw [mine] at held
      simpa [Heap.mine, Heap.goto, same] using held
  · simp [Role, Heap.goto, mutator, empty, length]
  · intro other different
    exact ⟨Function.update_of_ne different _ _, rfl, Layout.give_other different⟩
  · exact fun _ _ _ _ _ => ⟨rfl, rfl⟩
  · intro other
    have before := sound.freed other
    rw [Layout.give_other (Ne.symm mutator)]
    simpa [uncredited, Heap.goto, Ne.symm mutator] using before
  · intro other
    by_cases same : other = rank
    · subst same
      simp [total, due, uncounted, uncredited, Heap.goto, stand, stacked]
      omega
    · simp [total, due, uncounted, uncredited, Heap.goto, stand, same,
        Layout.pile_stacked_of_ne same]

/-- A thread's list becomes the chunk on top of the stack. -/
theorem Sound.pushes (sound : Sound heap layout collector) {rank : Rank} {p : κ} {n : Nat}
    {rest : List Rank} (stand : heap.stands thread = .pushing rank p n rest)
    (link : heap.chunks rank = heap.previous p) :
    ∃ layout', Sound { heap.goto thread (.crediting rank n rest) with
      chunks := Function.update heap.chunks rank (some p) } layout' collector := by
  have role : heap.heads thread rank = some p ∧ n = (layout.own thread rank).length ∧
      heap.cyclic p = n := by
    simpa only [Role, stand] using (sound.kept thread).role
  obtain ⟨head, measured, length⟩ := role
  have mine : heap.mine thread = heap.heads thread := by
    funext other
    simp only [Heap.mine, stand]
  obtain ⟨tail, owned, path⟩ := (sound.kept thread).mine_mem ((congrFun mine rank).trans head)
  have nodup := ((sound.kept thread).own rank).nodup
  rw [owned] at measured nodup
  have held : ∀ cell ∈ p :: tail,
      cell ∈ heap.cells rank ∧ layout.place cell = .held thread := fun cell member =>
    sound.placed.owned.mp (owned ▸ member)
  let place : κ → Place ι := fun cell =>
    if cell ∈ p :: tail then .stack else layout.place cell
  refine ⟨(layout.pile rank ((p, tail) :: layout.stack rank)).give thread rank [] place,
    sound.turn thread ?_ ⟨?_, ?_⟩ ⟨?_, ?_⟩ ?_ ?_ ?_ ?_ sound.large⟩
  · refine sound.placed.moves rank (· ∈ p :: tail) ?_ ?_ ?_
    · intro cell member
      obtain ⟨inside, placed⟩ := held cell member
      have placed' : place cell = .stack := if_pos member
      refine ⟨sound.placed.ranked inside, fun _ => sound.placed.rank_unique inside, ?_, ?_, ?_⟩
      · exact (sound.placed.living inside).trans (by simp [placed, placed'])
      · intro other
        rw [Layout.give_place, placed']
        by_cases same : other = rank
        · subst same
          refine iff_of_true ?_ ⟨rfl, rfl⟩
          rw [Layout.give_stacked, Layout.pile_stacked, cellsOf_cons]
          exact List.mem_append_left _ member
        · refine iff_of_false ?_ fun both => same both.1
          rw [Layout.give_stacked, Layout.pile_stacked_of_ne same]
          exact fun on => same ((sound.placed.rank_unique inside).mp
            (sound.placed.stacked.mp on).1)
      · intro other class_
        rw [Layout.mem_give, Layout.give_place, placed']
        refine iff_of_false ?_ (by simp)
        split
        · exact List.not_mem_nil
        · rename_i elsewhere
          intro owned'
          obtain ⟨inside', placed''⟩ := sound.placed.owned.mp owned'
          exact elsewhere ⟨Place.held.inj (placed''.symm.trans placed),
            (sound.placed.rank_unique inside).mp inside'⟩
    · intro cell outside
      refine ⟨rfl, fun _ => Iff.rfl, Iff.rfl, ?_, ?_, if_neg outside⟩
      · intro other
        by_cases same : other = rank
        · subst same
          rw [Layout.give_stacked, Layout.pile_stacked, cellsOf_cons, List.mem_append]
          exact or_iff_right outside
        · rw [Layout.give_stacked, Layout.pile_stacked_of_ne same]
      · intro other class_
        rw [Layout.mem_give]
        split
        · rename_i same
          rw [same.1, same.2, owned]
          exact iff_of_false List.not_mem_nil outside
        · exact Iff.rfl
    · intro other
      by_cases same : other = rank
      · subst same
        rw [Layout.give_stacked, Layout.pile_stacked, cellsOf_cons, List.nodup_append']
        refine ⟨nodup, sound.placed.nodup other, ?_⟩
        intro cell member on
        have placed := (sound.placed.stacked.mp on).2
        exact absurd ((held cell member).2.symm.trans placed) (by simp)
      · rw [Layout.give_stacked, Layout.pile_stacked_of_ne same]
        exact sound.placed.nodup other
  · intro other
    by_cases same : other = rank
    · subst same
      have heads := sound.stacked.chunks other
      rw [link] at heads
      have heads' : Path heap.previous (some p) (p :: (layout.stack other).map Prod.fst) :=
        ⟨rfl, heads⟩
      simpa [Layout.give, Layout.pile, Heap.goto] using heads'
    · simpa [Layout.give, Layout.pile, Heap.goto, same] using sound.stacked.chunks other
  · intro other chunk member
    by_cases same : other = rank
    · subst same
      have member' : chunk = (p, tail) ∨ chunk ∈ layout.stack other := by
        simpa [Layout.give, Layout.pile] using member
      rcases member' with rfl | before
      · exact ⟨path, length.trans measured⟩
      · exact sound.stacked.chunk before
    · have before : chunk ∈ layout.stack other := by
        simpa [Layout.give, Layout.pile, same] using member
      exact sound.stacked.chunk before
  · intro other
    by_cases same : other = rank
    · subst same
      simp [Heap.mine, Heap.goto, Path]
    · rw [Layout.give_own_of_ne same]
      have held := (sound.kept thread).own other
      rw [mine] at held
      simpa [Heap.mine, Heap.goto, same] using held
  · simp [Role, Heap.goto]
  · intro other different
    exact ⟨Function.update_of_ne different _ _, rfl, Layout.give_other different⟩
  · exact fun _ _ _ _ _ => ⟨rfl, rfl⟩
  · intro other
    have before := sound.freed other
    by_cases same : collector = thread
    · subst same
      by_cases same' : other = rank
      · subst same'
        simp only [uncredited, stand, owned] at before
        simpa [uncredited, Heap.goto, measured] using before
      · rw [Layout.give_own_of_ne same']
        simpa [uncredited, Heap.goto, stand, same'] using before
    · rw [Layout.give_other same]
      simpa [uncredited, Heap.goto, same] using before
  · intro other
    by_cases same : other = rank
    · subst same
      have below : cellsOf (layout.stack other) = layout.stacked other := rfl
      simp [total, due, uncounted, uncredited, Heap.goto, stand, cellsOf_cons, below, measured]
      omega
    · simp [total, due, uncounted, uncredited, Heap.goto, stand, same,
        Layout.pile_stacked_of_ne same]

omit [DecidableEq κ] in
/-- The chunk that a thread has pushed is counted as returned. -/
theorem Sound.credits (sound : Sound heap layout collector) {rank : Rank} {n : Nat}
    {rest : List Rank} (stand : heap.stands thread = .crediting rank n rest) :
    Sound { heap.goto thread (.sweeping rest) with
      heads := heap.setHead thread rank none
      returned := Function.update heap.returned rank (heap.returned rank + n)
      freed := if thread = collector then Function.update heap.freed rank 0
        else heap.freed } layout collector := by
  have kept := sound.kept thread
  have bare : layout.own thread rank = [] := by
    have path := kept.own rank
    simp only [Heap.mine, stand, if_true] at path
    exact path.null
  refine sound.turn thread { sound.placed with } { sound.stacked with } ⟨?_, ?_⟩ ?_ ?_ ?_ ?_
    sound.large
  · intro other
    have path := kept.own other
    by_cases same : other = rank
    · subst same
      rw [bare]
      simp [Heap.mine, Heap.goto, Heap.setHead, Path]
    · simp only [Heap.mine, stand, same, if_false] at path
      simpa [Heap.mine, Heap.goto, Heap.setHead, same] using path
  · simp [Role, Heap.goto]
  · intro other different
    exact ⟨Function.update_of_ne different _ _, Function.update_of_ne different _ _, rfl⟩
  · exact fun _ _ _ _ _ => ⟨rfl, rfl⟩
  · intro other
    have before := sound.freed other
    by_cases same : collector = thread
    · subst same
      by_cases same' : other = rank
      · subst same'
        simp [uncredited, Heap.goto, bare]
      · simp only [uncredited, stand, same', if_false] at before
        simpa [uncredited, Heap.goto, same'] using before
    · simpa [uncredited, Heap.goto, same, Ne.symm same] using before
  · intro other
    by_cases same : other = rank
    · subst same
      simp [total, due, uncounted, uncredited, Heap.goto, stand]
      omega
    · simp [total, due, uncounted, uncredited, Heap.goto, stand, same]

theorem Sound.grows (sound : Sound heap layout collector) {unit : Nat} {rank : Rank}
    {block : List κ} (stand : heap.stands thread = .growing rank)
    (grown : heap.grow unit thread rank block = some after) :
    ∃ layout', Sound after layout' collector := by
  cases block with
  | nil => simp [Heap.grow] at grown
  | cons p rest =>
    simp only [Heap.grow, Option.ite_none_right_eq_some, Option.some.injEq] at grown
    obtain ⟨⟨length, nodup, fresh⟩, rfl⟩ := grown
    have role : thread ≠ collector ∧ heap.heads thread rank = none := by
      simpa only [Role, stand] using (sound.kept thread).role
    obtain ⟨mutator, empty⟩ := role
    have mine : heap.mine thread = heap.heads thread := by
      funext other
      simp only [Heap.mine, stand]
    have bare : layout.own thread rank = [] := by
      have path := (sound.kept thread).own rank
      rw [mine, empty] at path
      exact path.null
    have unmapped : ∀ {cell}, cell ∈ p :: rest → ∀ other, cell ∉ heap.cells other :=
      fun member other inside => fresh _ member (Or.inl ⟨other, inside⟩)
    have kept : ∀ {cell other}, cell ∈ heap.cells other → cell ∉ p :: rest :=
      fun inside member => unmapped member _ inside
    have links : ∀ {cell other}, cell ∈ heap.cells other →
        strung heap.next (p :: rest) cell = heap.next cell ∧
          Function.update heap.cyclic p (sizes rank) cell = heap.cyclic cell := by
      intro cell other inside
      refine ⟨strung_of_not_mem _ (kept inside), Function.update_of_ne ?_ _ _⟩
      rintro rfl
      exact kept inside List.mem_cons_self
    let place : κ → Place ι := fun cell =>
      if cell ∈ p :: rest then .held thread else layout.place cell
    refine ⟨layout.give thread rank (p :: rest) place,
      sound.turn thread ?_ ?_ ⟨?_, ?_⟩ ?_ ?_ ?_ ?_ ?_⟩
    · refine sound.placed.moves rank (· ∈ p :: rest) ?_ ?_ sound.placed.nodup
      · intro cell member
        have placed : place cell = .held thread := if_pos member
        refine ⟨if_pos member, ?_, ?_, ?_, ?_⟩
        · intro other
          by_cases same : other = rank
          · subst same
            simp only [Function.update_self, Finset.mem_union, List.mem_toFinset, member,
              or_true]
          · simp only [Function.update_of_ne same, same, unmapped member other]
        · rw [Layout.give_place, placed]
          exact iff_of_false (fun live => fresh cell member (Or.inr live)) (by simp)
        · intro other
          rw [Layout.give_place, placed]
          refine iff_of_false ?_ (by simp)
          exact fun on => unmapped member other (sound.placed.stacked.mp on).1
        · intro other class_
          rw [Layout.mem_give, Layout.give_place, placed]
          split
          · rename_i same
            exact iff_of_true member ⟨same.2, congrArg _ same.1.symm⟩
          · rename_i elsewhere
            refine iff_of_false ?_ fun same => elsewhere ⟨(Place.held.inj same.2).symm, same.1⟩
            exact fun owned => unmapped member class_ (sound.placed.owned.mp owned).1
      · intro cell outside
        refine ⟨if_neg outside, ?_, Iff.rfl, fun _ => Iff.rfl, ?_, if_neg outside⟩
        · intro other
          by_cases same : other = rank
          · subst same
            simp only [Function.update_self, Finset.mem_union, List.mem_toFinset, outside,
              or_false]
          · simp only [Function.update_of_ne same]
        · intro other class_
          rw [Layout.mem_give]
          split
          · rename_i same
            rw [same.1, same.2, bare]
            exact iff_of_false outside List.not_mem_nil
          · exact Iff.rfl
    · refine sound.stacked.congr rfl rfl (fun _ _ _ => rfl) ?_
      exact fun _ _ member => links (sound.placed.stacked.mp member).1
    · intro other
      by_cases same : other = rank
      · subst same
        simpa [Heap.mine, Heap.goto] using Path.strung heap.next nodup
      · rw [Layout.give_own_of_ne same]
        have held := (sound.kept thread).own other
        rw [mine] at held
        have held' := held.congr fun cell member =>
          (links (sound.placed.owned.mp member).1).1
        simpa [Heap.mine, Heap.goto, same] using held'
    · simp only [Role, Heap.goto, Function.update_self, Layout.give_own]
      exact ⟨mutator, empty, length.symm⟩
    · intro other different
      exact ⟨Function.update_of_ne different _ _, rfl, Layout.give_other different⟩
    · exact fun _ _ _ _ member => links (sound.placed.owned.mp member).1
    · intro other
      have before := sound.freed other
      rw [Layout.give_other (Ne.symm mutator)]
      simpa [uncredited, Heap.goto, Ne.symm mutator] using before
    · intro other
      by_cases same : other = rank
      · subst same
        have apart : Disjoint (heap.cells other) (p :: rest).toFinset :=
          Finset.disjoint_left.mpr fun cell inside member =>
            kept inside (List.mem_toFinset.mp member)
        have card := Finset.card_union_of_disjoint apart
        rw [List.toFinset_card_of_nodup nodup] at card
        simp only [total, due, uncounted, uncredited, Heap.goto, stand, Layout.give_stacked,
          Layout.give_own, Function.update_self, if_true, card]
        omega
      · simp [total, due, uncounted, uncredited, Heap.goto, stand, same]
    · have unmoved : heap.live.filter
          (fun cell => (if cell ∈ p :: rest then some rank else heap.rank cell) = none) =
          heap.live.filter fun cell => heap.rank cell = none := by
        refine Finset.filter_congr fun cell live => ?_
        rw [if_neg fun member => fresh cell member (Or.inr live)]
      have large := sound.large
      rw [← unmoved] at large
      exact large

/-- The collector puts a cell of a class in front of its list. -/
theorem Sound.frees (sound : Sound heap layout collector)
    (idle : heap.stands collector = .sweeping []) {p : κ} {rank : Rank} (live : p ∈ heap.live)
    (ranked : heap.rank p = some rank) (freed : heap.free collector p = some after) :
    ∃ layout', Sound after layout' collector := by
  simp only [Heap.free, ranked, Option.some.injEq] at freed
  subst freed
  have inside := sound.placed.classed live ranked
  have placed := (sound.placed.living inside).mp live
  have elsewhere : ∀ {cell other spot}, cell ∈ heap.cells other ∧ layout.place cell = spot →
      spot ≠ .live → cell ≠ p := by
    rintro cell other spot ⟨_, there⟩ different rfl
    exact different (there.symm.trans placed)
  have mine : heap.mine collector = heap.heads collector := by
    funext other
    simp only [Heap.mine, idle]
  have path := (sound.kept collector).own rank
  rw [mine] at path
  have fresh : p ∉ layout.own collector rank := fun member =>
    elsewhere (sound.placed.owned.mp member) (by simp) rfl
  refine ⟨layout.give collector rank (p :: layout.own collector rank)
      (Function.update layout.place p (.held collector)),
    sound.turn collector ?_ ?_ ⟨?_, ?_⟩ ?_ ?_ ?_ ?_ ?_⟩
  · refine sound.placed.moves rank (· = p) ?_ ?_ sound.placed.nodup
    · rintro cell rfl
      refine ⟨ranked, fun _ => sound.placed.rank_unique inside, ?_, ?_, ?_⟩
      · simp
      · intro other
        have apart : cell ∉ layout.stacked other := fun on =>
          elsewhere (sound.placed.stacked.mp on) (by simp) rfl
        simp [apart]
      · intro other class_
        rw [Layout.mem_give, Layout.give_place, Function.update_self]
        split
        · rename_i same
          exact iff_of_true List.mem_cons_self ⟨same.2, congrArg _ same.1.symm⟩
        · rename_i away
          refine iff_of_false ?_ fun same => away ⟨(Place.held.inj same.2).symm, same.1⟩
          exact fun owned => elsewhere (sound.placed.owned.mp owned) (by simp) rfl
    · intro cell different
      refine ⟨rfl, fun _ => Iff.rfl, ?_, fun _ => Iff.rfl, ?_, Function.update_of_ne different _ _⟩
      · simp [different]
      · intro other class_
        rw [Layout.mem_give]
        split
        · rename_i same
          rw [same.1, same.2, List.mem_cons]
          exact or_iff_right different
        · exact Iff.rfl
  · refine sound.stacked.congr rfl rfl (fun _ _ _ => rfl) fun _ cell on => ⟨?_, rfl⟩
    exact Function.update_of_ne (elsewhere (sound.placed.stacked.mp on) (by simp)) _ _
  · intro other
    have held := (sound.kept collector).own other
    rw [mine] at held
    have held' : Path (Function.update heap.next p (heap.heads collector rank))
        (heap.heads collector other) (layout.own collector other) :=
      held.congr fun cell member =>
        Function.update_of_ne (elsewhere (sound.placed.owned.mp member) (by simp)) _ _
    by_cases same : other = rank
    · subst same
      have extended : Path (Function.update heap.next p (heap.heads collector other)) (some p)
          (p :: layout.own collector other) := ⟨rfl, by simpa using held'⟩
      split <;> simpa [Heap.mine, Heap.goto, Heap.setHead] using extended
    · rw [Layout.give_own_of_ne same]
      split <;> simpa [Heap.mine, Heap.goto, Heap.setHead, same] using held'
  · have size := sound.freed rank
    simp only [uncredited, idle] at size
    split <;> simp [Role, Heap.goto, size]
  · intro other different
    exact ⟨Function.update_of_ne different _ _, Function.update_of_ne different _ _,
      Layout.give_other different⟩
  · intro other different _ cell member
    exact ⟨Function.update_of_ne (elsewhere (sound.placed.owned.mp member) (by simp)) _ _, rfl⟩
  · intro other
    have before := sound.freed other
    simp only [uncredited, idle] at before
    by_cases same : other = rank
    · subst same
      split <;> simp [uncredited, Heap.goto, before]
    · rw [Layout.give_own_of_ne same]
      split <;> simpa [uncredited, Heap.goto, same] using before
  · intro other
    split <;> simp [total, due, uncounted, uncredited, Heap.goto, idle]
  · have unmoved : (heap.live.erase p).filter (fun cell => heap.rank cell = none) =
        heap.live.filter fun cell => heap.rank cell = none := by
      ext cell
      simp only [Finset.mem_filter, Finset.mem_erase]
      refine ⟨fun both => ⟨both.1.2, both.2⟩, fun both => ⟨⟨?_, both.1⟩, both.2⟩⟩
      rintro rfl
      exact absurd (ranked.symm.trans both.2) (by simp)
    have large := sound.large
    rw [← unmoved] at large
    exact large

omit [DecidableEq ι] in
theorem Sound.frees_large (sound : Sound heap layout collector) {p : κ}
    (live : p ∈ heap.live) (ranked : heap.rank p = none) (blocks : κ → Option Nat) :
    Sound { heap with
      blocks := blocks, largeFreed := heap.largeFreed + 1, live := heap.live.erase p }
      layout collector where
  placed := { sound.placed with
    living := by
      intro rank cell inside
      have different : cell ≠ p := by
        rintro rfl
        exact absurd ((sound.placed.ranked inside).symm.trans ranked) (by simp)
      rw [← sound.placed.living inside]
      simp [different]
    classed := fun member ranked => sound.placed.classed (Finset.mem_of_mem_erase member) ranked }
  stacked := { sound.stacked with }
  kept thread := ⟨(sound.kept thread).own, (sound.kept thread).role⟩
  freed := sound.freed
  totals := sound.totals
  large := by
    have member : p ∈ heap.live.filter fun cell => heap.rank cell = none :=
      Finset.mem_filter.mpr ⟨live, ranked⟩
    have card := Finset.card_erase_add_one member
    rw [← Finset.filter_erase] at card
    have large := sound.large
    simp only at large ⊢
    omega

omit [DecidableEq ι] in
theorem Sound.takes_large (sound : Sound heap layout collector) {p : κ} {size : Nat}
    (taken : heap.allocateLarge size p = some after) : Sound after layout collector := by
  simp only [Heap.allocateLarge, Option.ite_none_left_eq_some, Option.some.injEq] at taken
  obtain ⟨fresh, rfl⟩ := taken
  have different : ∀ {rank cell}, cell ∈ heap.cells rank → cell ≠ p := by
    rintro rank cell inside rfl
    exact fresh (Or.inl ⟨rank, inside⟩)
  exact {
    placed := {
      ranked := fun inside =>
        (Function.update_of_ne (different inside) _ _).trans (sound.placed.ranked inside)
      stacked := sound.placed.stacked
      owned := sound.placed.owned
      living := fun inside => by
        rw [← sound.placed.living inside]
        simp [different inside]
      classed := by
        intro rank cell member ranked
        by_cases same : cell = p
        · subst same
          exact absurd ranked (by simp)
        · refine sound.placed.classed (Finset.mem_of_mem_insert_of_ne member same) ?_
          exact (Function.update_of_ne same _ _).symm.trans ranked
      nodup := sound.placed.nodup }
    stacked := { sound.stacked with }
    kept := fun thread => ⟨(sound.kept thread).own, (sound.kept thread).role⟩
    freed := sound.freed
    totals := sound.totals
    large := by
      have unmoved : (insert p heap.live).filter
          (fun cell => Function.update heap.rank p none cell = none) =
          insert p (heap.live.filter fun cell => heap.rank cell = none) := by
        rw [Finset.filter_insert, if_pos (by simp)]
        congr 1
        refine Finset.filter_congr fun cell live => ?_
        rw [Function.update_of_ne]
        rintro rfl
        exact fresh (Or.inr live)
      have outside : p ∉ heap.live.filter fun cell => heap.rank cell = none :=
        fun member => fresh (Or.inr (Finset.mem_filter.mp member).1)
      have large := sound.large
      rw [unmoved, Finset.card_insert_of_notMem outside]
      simp only at large ⊢
      omega }

omit [DecidableEq ι] in
theorem Sound.writes (sound : Sound heap layout collector) {p : κ} (live : p ∈ heap.live)
    (next previous : Option κ) (cyclic : Nat) :
    Sound { heap with
      next := Function.update heap.next p next
      previous := Function.update heap.previous p previous
      cyclic := Function.update heap.cyclic p cyclic } layout collector := by
  have elsewhere : ∀ {cell rank spot}, cell ∈ heap.cells rank ∧ layout.place cell = spot →
      spot ≠ .live → cell ≠ p := by
    rintro cell rank spot ⟨inside, there⟩ different rfl
    exact different (there.symm.trans ((sound.placed.living inside).mp live))
  have links : ∀ {cell rank spot}, cell ∈ heap.cells rank ∧ layout.place cell = spot →
      spot ≠ .live → Function.update heap.next p next cell = heap.next cell ∧
        Function.update heap.cyclic p cyclic cell = heap.cyclic cell := by
    intro cell rank spot there different
    exact ⟨Function.update_of_ne (elsewhere there different) _ _,
      Function.update_of_ne (elsewhere there different) _ _⟩
  exact {
    placed := { sound.placed with }
    stacked := sound.stacked.congr rfl rfl
      (fun _ _ on => Function.update_of_ne
        (elsewhere (sound.placed.stacked.mp on) (by simp)) _ _)
      fun _ _ on => links (sound.placed.stacked.mp on) (by simp)
    kept := fun thread => (sound.kept thread).congr rfl rfl rfl
      fun _ _ member => links (sound.placed.owned.mp member) (by simp)
    freed := sound.freed
    totals := sound.totals
    large := sound.large }

theorem Sound.proceeds (sound : Sound heap layout collector) {weak : Bool}
    (fresh : heap.Fresh (thread, .proceed weak))
    (taken : heap.proceed collector thread weak = some after) :
    ∃ layout', Sound after layout' collector := by
  have role := (sound.kept thread).role
  unfold Role at role
  unfold Heap.proceed at taken
  have moves : ∀ {stand : Stand κ}, (heap.stands thread).plain = true → stand.plain = true →
      Role (heap.goto thread stand) layout collector thread →
      ∃ layout', Sound (heap.goto thread stand) layout' collector :=
    fun plain plain' role => ⟨layout, sound.moves plain plain' role⟩
  cases stand : heap.stands thread with
  | sweeping ranks =>
    rw [stand] at moves
    cases ranks with
    | nil => simp [stand] at taken
    | cons rank rest =>
      simp only [stand] at taken
      split at taken
      · rename_i same
        subst same
        split at taken
        · obtain rfl := Option.some.inj taken
          refine moves rfl rfl ?_
          have size := sound.freed rank
          rw [uncredited_plain (by rw [stand]; rfl)] at size
          simpa [Role, Heap.goto] using size
        · obtain rfl := Option.some.inj taken
          exact moves rfl rfl (by simp [Role, Heap.goto])
      · rename_i mutator
        obtain rfl := Option.some.inj taken
        refine moves rfl rfl ?_
        have path := (sound.kept thread).own rank
        rw [mine_plain (by rw [stand]; rfl)] at path
        simp only [Role, Heap.goto, Function.update_self]
        exact ⟨mutator, [], _, rfl, rfl, path⟩
  | loading rank =>
    rw [stand] at moves
    simp only [stand, Option.some.injEq] at taken role
    subst taken
    exact moves rfl rfl (by simpa [Role, Heap.goto] using role)
  | testing rank p =>
    rw [stand] at moves
    simp only [stand] at role
    cases p with
    | none =>
      simp only [stand, Option.some.injEq] at taken
      subst taken
      exact moves rfl rfl (by simpa [Role, Heap.goto] using role)
    | some p =>
      simp only [stand, Option.some.injEq] at taken
      subst taken
      exact moves rfl rfl (by simpa [Role, Heap.goto] using role)
  | swapping rank p previous =>
    rw [stand] at moves
    simp only [stand] at taken role
    split at taken
    · rename_i swaps
      obtain rfl := Option.some.inj taken
      obtain ⟨top, rfl⟩ := swaps
      simp only [Heap.Fresh, stand] at fresh
      exact sound.pops stand top (fresh top)
    · obtain rfl := Option.some.inj taken
      exact moves rfl rfl (by simpa [Role, Heap.goto] using role)
  | growing rank => simp [stand] at taken
  | extending rank p =>
    simp only [stand, Option.some.injEq] at taken role
    subst taken
    refine ⟨layout, sound.marks rfl (fun _ _ => ⟨rfl, rfl⟩) ?_ ?_ ?_ ?_⟩
    · simp [Heap.mine, Heap.goto, stand]
    · simpa [Role, Heap.goto] using role
    · simp [uncredited, Heap.goto, stand]
    · simp [uncounted, Heap.goto, stand]
  | taking rank p =>
    simp only [stand, Option.some.injEq] at taken role
    subst taken
    obtain ⟨mutator, empty, length⟩ := role
    refine sound.takes mutator ?_ ?_ ?_ _ ?_
    · simp [Heap.mine, stand]
    · intro other different
      simp [Heap.mine, stand, different]
    · simp [uncredited, stand]
    · intro other
      by_cases same : other = rank
      · subst same
        simp [uncounted, stand, length]
      · simp [uncounted, stand, same]
  | measuring rank p n rest =>
    rw [stand] at moves
    simp only [stand] at role
    obtain ⟨mutator, front, back, owned, length, path⟩ := role
    cases p with
    | none =>
      simp only [stand] at taken
      split at taken
      · obtain rfl := Option.some.inj taken
        refine moves rfl rfl ?_
        simp [Role, Heap.goto, owned, path.null, length]
      · obtain rfl := Option.some.inj taken
        exact moves rfl rfl (by simp [Role, Heap.goto])
    | some p =>
      simp only [stand, Option.some.injEq] at taken
      subst taken
      obtain ⟨later, rfl, onwards⟩ := path.some_cons
      refine moves rfl rfl ?_
      simp only [Role, Heap.goto, Function.update_self]
      exact ⟨mutator, front ++ [p], later, by simp [owned], by simp [length], onwards⟩
  | linking rank n rest =>
    simp only [stand, Option.map_eq_some_iff] at taken role
    obtain ⟨p, head, rfl⟩ := taken
    have plain : (heap.stands thread).plain = true := by
      rw [stand]
      rfl
    obtain ⟨tail, owned, _⟩ :=
      (sound.kept thread).mine_mem ((congrFun (mine_plain plain) rank).trans head)
    refine ⟨layout, sound.marks_plain rfl ?_ plain rfl ?_⟩
    · intro cell outside
      refine ⟨Function.update_of_ne ?_ _ _, rfl⟩
      rintro rfl
      exact outside rank (by simp [owned])
    · simp [Role, Heap.goto, head, role]
  | storing rank p n previous rest =>
    simp only [stand, Option.some.injEq] at taken role
    subst taken
    have plain : (heap.stands thread).plain = true := by
      rw [stand]
      rfl
    obtain ⟨tail, owned, _⟩ :=
      (sound.kept thread).mine_mem ((congrFun (mine_plain plain) rank).trans role.1)
    refine ⟨layout, sound.marks_plain rfl ?_ plain rfl ?_⟩
    · intro cell outside
      refine ⟨rfl, Function.update_of_ne ?_ _ _⟩
      rintro rfl
      exact outside rank (by simp [owned])
    · simpa [Role, Heap.goto] using role
  | pushing rank p n rest =>
    rw [stand] at moves
    simp only [stand] at taken role
    split at taken
    · rename_i swaps
      obtain rfl := Option.some.inj taken
      exact sound.pushes stand swaps.1
    · obtain rfl := Option.some.inj taken
      exact moves rfl rfl (by simpa [Role, Heap.goto] using role)
  | crediting rank n rest =>
    simp only [stand, Option.some.injEq] at taken
    subst taken
    exact ⟨layout, sound.credits stand⟩

theorem Sound.steps (sound : Sound heap layout collector) {unit : Nat}
    {action : ι × Action κ} (fresh : heap.Fresh action)
    (taken : heap.step unit collector action = some after) :
    ∃ layout', Sound after layout' collector := by
  obtain ⟨thread, action⟩ := action
  have moves : ∀ {stand : Stand κ}, heap.stands thread = .sweeping [] →
      stand.plain = true → Role (heap.goto thread stand) layout collector thread →
      ∃ layout', Sound (heap.goto thread stand) layout' collector :=
    fun idle plain role => ⟨layout, sound.moves (by rw [idle]; rfl) plain role⟩
  cases action with
  | allocate size p =>
    simp only [Heap.step, Option.ite_none_right_eq_some, Heap.allocate] at taken
    obtain ⟨⟨mutator, idle⟩, taken⟩ := taken
    have plain : (heap.stands thread).plain = true := by
      rw [idle]
      rfl
    split at taken
    · exact ⟨layout, sound.takes_large taken⟩
    · rename_i rank _
      split at taken
      · rename_i empty
        obtain rfl := Option.some.inj taken
        exact moves idle rfl (by simpa [Role, Heap.goto] using ⟨mutator, empty⟩)
      · rename_i p head
        obtain rfl := Option.some.inj taken
        refine sound.takes mutator ((congrFun (mine_plain plain) rank).trans head) ?_
          (uncredited_plain plain) heap.allocated ?_
        · exact fun other _ => congrFun (mine_plain plain) other
        · intro other
          rw [uncounted_plain plain]
          rfl
  | map block =>
    simp only [Heap.step] at taken
    split at taken
    · rename_i rank stand
      exact sound.grows stand taken
    · exact absurd taken (by simp)
  | leave =>
    simp only [Heap.step, Option.ite_none_right_eq_some, Option.some.injEq] at taken
    obtain ⟨⟨_, idle⟩, rfl⟩ := taken
    exact moves idle rfl (by simp [Role, Heap.goto])
  | free p =>
    simp only [Heap.step, Option.ite_none_right_eq_some] at taken
    obtain ⟨⟨rfl, idle, live⟩, taken⟩ := taken
    cases ranked : heap.rank p with
    | some rank => exact sound.frees idle live ranked taken
    | none =>
      simp only [Heap.free, ranked, Option.map_eq_some_iff] at taken
      obtain ⟨_, _, rfl⟩ := taken
      exact ⟨layout, sound.frees_large live ranked _⟩
  | flush =>
    simp only [Heap.step, Option.ite_none_right_eq_some, Option.some.injEq] at taken
    obtain ⟨⟨_, idle⟩, rfl⟩ := taken
    exact moves idle rfl (by simp [Role, Heap.goto])
  | proceed weak => exact sound.proceeds fresh taken
  | write p next previous cyclic =>
    simp only [Heap.step, Option.ite_none_right_eq_some, Option.some.injEq] at taken
    obtain ⟨live, rfl⟩ := taken
    exact ⟨layout, sound.writes live next previous cyclic⟩

omit [DecidableEq ι] [DecidableEq κ] in
theorem Sound.start (collector : ι) :
    Sound (Heap.start : Heap ι κ) ⟨fun _ => [], fun _ _ => [], fun _ => .live⟩ collector where
  placed := {
    ranked := fun inside => absurd inside (Finset.notMem_empty _)
    stacked := by simp [Layout.stacked, cellsOf, Heap.start]
    owned := by simp [Heap.start]
    living := fun inside => absurd inside (Finset.notMem_empty _)
    classed := fun live => absurd live (Finset.notMem_empty _)
    nodup := fun _ => List.nodup_nil }
  stacked := ⟨fun _ => rfl, fun member => absurd member List.not_mem_nil⟩
  kept _ := ⟨fun _ => rfl, trivial⟩
  freed _ := rfl
  totals := ⟨∅, fun _ _ _ => rfl, fun _ => rfl⟩
  large := rfl

/-- Whatever the interleaving, as long as no compare-exchange of `f_allocate`
succeeds with a link that is no longer the head's, cells are conserved. -/
theorem cells_conserved (unit : Nat) (collector : ι) {actions : List (ι × Action κ)}
    (reached : Machine.run (Heap.step unit collector) Heap.start actions = some heap)
    (fresh : Machine.Along (Heap.step unit collector) Heap.Fresh Heap.start actions) :
    heap.Conserved collector := by
  obtain ⟨layout, sound⟩ : ∃ layout, Sound heap layout collector :=
    Machine.run_along (fun heap => ∃ layout, Sound heap layout collector)
      (fun _ _ _ ⟨_, sound⟩ fresh taken => sound.steps fresh taken)
      actions _ _ ⟨_, .start collector⟩ fresh reached
  exact sound.conserved

end

section

/-- `f_allocate` of a thread whose list is empty while the stack is not. -/
def allocates (thread : Nat) : List (Nat × Action Nat) :=
  (thread, .allocate 2048 0) :: List.replicate 4 (thread, .proceed false)

def frees (p : Nat) : List (Nat × Action Nat) :=
  (0, .free p) :: (0, .flush) :: List.replicate 9 (0, .proceed false)

/-- Thread 1 grows the class of the largest cells and allocates two of them. -/
def grows : List (Nat × Action Nat) :=
  [(1, .allocate 2048 0), (1, .proceed false), (1, .proceed false), (1, .map (List.range 64)),
    (1, .proceed false), (1, .proceed false), (1, .allocate 2048 0)]

/-- Both cells are freed, and thread 3 takes them while thread 2 does not move. -/
theorem grown_conserved : ∃ heap, Machine.run (Heap.step 128 0) Heap.start
    (grows ++ frees 0 ++ frees 1 ++ allocates 3) = some heap ∧ heap.Conserved 0 := by
  have ran : (Machine.run (Heap.step 128 0) Heap.start
      (grows ++ frees 0 ++ frees 1 ++ allocates 3)).isSome = true := by decide +kernel
  have fresh : Machine.Along (Heap.step 128 0) Heap.Fresh Heap.start
      (grows ++ frees 0 ++ frees 1 ++ allocates 3) := by decide +kernel
  obtain ⟨heap, reached⟩ := Option.isSome_iff_exists.mp ran
  exact ⟨heap, reached, cells_conserved 128 0 reached fresh⟩

/-- Thread 2 reads that cell 0 follows cell 1, thread 3 takes both, cell 1 is
freed once more, and the compare-exchange of thread 2 puts cell 0 on the stack,
while it is live. -/
def stale : List (Nat × Action Nat) :=
  grows ++ frees 0 ++ frees 1 ++
    [(2, .allocate 2048 0), (2, .proceed false), (2, .proceed false)] ++
    allocates 3 ++ allocates 3 ++ frees 1 ++ [(2, .proceed false)]

theorem cell_in_two_places : ∃ heap, Machine.run (Heap.step 128 0) Heap.start stale = some heap ∧
    heap.Lies 0 .stack ∧ heap.Lies 0 .live ∧ ¬ heap.Conserved 0 := by
  have ran : (Machine.run (Heap.step 128 0) Heap.start stale).map
      (fun heap => (heap.chunks 4, decide (0 ∈ heap.live), decide (0 ∈ heap.cells 4))) =
      some (some 0, true, true) := by decide +kernel
  obtain ⟨heap, reached, shape⟩ := Option.map_eq_some_iff.mp ran
  simp only [Prod.mk.injEq, decide_eq_true_eq] at shape
  obtain ⟨top, live, inside⟩ := shape
  have stacked : heap.Lies 0 .stack := ⟨4, 0, ⟨0, top, .refl⟩, 0, rfl, .refl⟩
  refine ⟨heap, reached, stacked, live, fun conserved => ?_⟩
  have handed : heap.Lies 0 .live := live
  exact absurd ((conserved.placed 4 0 inside).unique stacked handed) (by simp)

end

end Xemmai.Allocator
