import Mathlib
import Xemmai.Heap
import Xemmai.Tables
import Xemmai.Value

/-!
# The conservative lookup of a pointer

`t_heap::v_blocks` has the first address and the length of every block that has been
mapped, and `f_find` tells from them whether an address is that of a cell. Lengths and
offsets are words, and the masks are computed with the shifts that the code does, which
for the rank of a large cell leave no bit of `c_UNIT`.
-/

namespace Xemmai.Lookup

set_option autoImplicit false

open Allocator (sizes)

/-- `v_blocks`, in the order of the addresses, and `v_rank` of the cell at an address.
`c_UNIT` is 2 to the power of `unit`. -/
structure Registry where
  unit : Nat
  blocks : List (Nat × Word)
  rank : Nat → Nat

namespace Registry

/-- `c_UNIT` -/
def cUnit (registry : Registry) : Word := 1#64 <<< registry.unit

/-- `c_RANKX`: `std::countl_zero(c_UNIT - 1)` -/
def cRankX (registry : Registry) : Nat := 64 - registry.unit

/-- The iterator of `f_find` behind its first statement, unless it has returned. -/
def place (registry : Registry) (p : Nat) : Option Nat :=
  let i := Keyed.lowerBound p registry.blocks
  if (registry.blocks[i]?.map Prod.fst) = some p then some i
  else if i = 0 then none
  else some (i - 1)

/-- `f_find` -/
def fFind (registry : Registry) (p : Word) : Option Word := do
  let i ← registry.place p.toNat
  let (first, length) ← registry.blocks[i]?
  let j := p - BitVec.ofNat 64 first
  if j < length ∧ j &&& ((registry.cUnit <<< registry.rank first) - 1) = 0 then some p else none

/-- `f_object__find`, with which of the cells have a type. -/
def fObjectFind (registry : Registry) (typed : Word → Bool) (p : Word) : Option Word :=
  if p &&& (registry.cUnit - 1) ≠ 0 then none
  else (registry.fFind p).filter typed

def size (registry : Registry) (rank : Allocator.Rank) : Nat := 2 ^ (registry.unit + rank.val)

/-- What a block is: `f_grow` has divided it into the cells of a size class, or it is one
large cell. -/
inductive Shape (registry : Registry) (block : Nat × Word) : Prop
  | cells (rank : Allocator.Rank) (ranked : registry.rank block.1 = rank.val)
      (length : block.2.toNat = registry.size rank * sizes rank)
  | large (ranked : registry.rank block.1 = registry.cRankX) (length : 0 < block.2.toNat)

inductive Cell (registry : Registry) (block : Nat × Word) (p : Nat) : Prop
  | inside (rank : Allocator.Rank) (ranked : registry.rank block.1 = rank.val) (i : Nat)
      (less : i < sizes rank) (place : p = block.1 + i * registry.size rank)
  | large (ranked : registry.rank block.1 = registry.cRankX) (place : p = block.1)

def Holds (block : Nat × Word) (p : Nat) : Prop :=
  block.1 ≤ p ∧ p < block.1 + block.2.toNat

/-- Disjoint blocks in the address space, each of a size class or large. -/
structure Sound (registry : Registry) : Prop where
  positive : 0 < registry.unit
  narrow : registry.unit + 14 < 64
  ordered : Keyed.Ordered registry.blocks
  within : ∀ block ∈ registry.blocks, block.1 + block.2.toNat ≤ 2 ^ 64
  apart : ∀ block ∈ registry.blocks, ∀ other ∈ registry.blocks, ∀ p,
    Holds block p → Holds other p → block = other
  shape : ∀ block ∈ registry.blocks, registry.Shape block

theorem sizes_pos : ∀ rank : Allocator.Rank, 0 < sizes rank := by decide

theorem sizes_le : ∀ rank : Allocator.Rank, 2 ^ rank.val * sizes rank ≤ 2 ^ 14 := by decide

/-- What `f_map` gives lies in the address space and in no block. -/
structure Mapped (registry : Registry) (block : Nat × Word) : Prop where
  within : block.1 + block.2.toNat ≤ 2 ^ 64
  free : ∀ other ∈ registry.blocks, ∀ p, Holds other p → ¬Holds block p

/-- `f_grow`, with what `f_map` gives for it: every cell of the block gets the rank. -/
def fGrow (registry : Registry) (rank : Allocator.Rank) (first : Nat) : Registry :=
  let length : Word := (registry.cUnit <<< rank.val) * BitVec.ofNat 64 (sizes rank)
  { registry with
    blocks := Keyed.emplace first length registry.blocks
    rank := fun p =>
      if first ≤ p ∧ p < first + length.toNat ∧ (p - first) % registry.size rank = 0 then rank.val
      else registry.rank p }

/-- `f_allocate_large` -/
def fAllocateLarge (registry : Registry) (first : Nat) (size : Word) : Registry :=
  { registry with
    blocks := Keyed.emplace first size registry.blocks
    rank := Function.update registry.rank first registry.cRankX }

/-- `f_free` of a large cell. -/
def fFreeLarge (registry : Registry) (first : Nat) : Registry :=
  { registry with blocks := Keyed.erase first registry.blocks }

/-- The registries that a heap has, from none on. -/
inductive Reached (unit : Nat) : Registry → Prop
  | start (rank : Nat → Nat) : Reached unit ⟨unit, [], rank⟩
  | grow {registry : Registry} (rank : Allocator.Rank) {first : Nat} (reached : Reached unit registry)
      (mapped : registry.Mapped
        (first, (registry.cUnit <<< rank.val) * BitVec.ofNat 64 (sizes rank))) :
      Reached unit (registry.fGrow rank first)
  | allocateLarge {registry : Registry} {first : Nat} {size : Word}
      (reached : Reached unit registry) (positive : 0 < size.toNat)
      (mapped : registry.Mapped (first, size)) :
      Reached unit (registry.fAllocateLarge first size)
  | freeLarge {registry : Registry} (first : Nat) (reached : Reached unit registry) :
      Reached unit (registry.fFreeLarge first)

variable {registry : Registry} {block : Nat × Word} {p : Nat}

/-! ### The masks -/

theorem mask_shift (n : Nat) (j : Word) (short : n < 64) :
    j &&& ((1#64 <<< n) - 1) = 0 ↔ j.toNat % 2 ^ n = 0 := by
  have less : 2 ^ n < 2 ^ 64 := Nat.pow_lt_pow_right (by decide) short
  have positive : 0 < 2 ^ n := Nat.two_pow_pos n
  have shifted : (1#64 <<< n).toNat = 2 ^ n := by
    rw [BitVec.toNat_shiftLeft, BitVec.toNat_one (by decide), Nat.one_shiftLeft,
      Nat.mod_eq_of_lt less]
  have mask : ((1#64 <<< n) - 1).toNat = 2 ^ n - 1 := by
    rw [BitVec.toNat_sub, shifted]
    change (2 ^ 64 - 1 + 2 ^ n) % 2 ^ 64 = 2 ^ n - 1
    omega
  rw [← BitVec.toNat_inj, BitVec.toNat_and, mask, Nat.and_two_pow_sub_one_eq_mod]
  rfl

theorem mask_cells (rank : Allocator.Rank) (j : Word) (narrow : registry.unit + 14 < 64) :
    j &&& ((registry.cUnit <<< rank.val) - 1) = 0 ↔ j.toNat % registry.size rank = 0 := by
  have short : registry.unit + rank.val < 64 := by omega
  rw [cUnit, ← BitVec.shiftLeft_add]
  exact mask_shift _ j short

/-- Shifted by `c_RANKX` the only bit of `c_UNIT` is lost, and the mask has all bits. -/
theorem mask_large (j : Word) (narrow : registry.unit + 14 < 64) :
    j &&& ((registry.cUnit <<< registry.cRankX) - 1) = 0 ↔ j = 0 := by
  have whole : registry.unit + registry.cRankX = 64 := by
    unfold cRankX
    omega
  have all : (1#64 <<< 64) - 1 = BitVec.allOnes 64 := by decide
  rw [cUnit, ← BitVec.shiftLeft_add, whole, all, BitVec.and_allOnes]

/-! ### The block below an address -/

theorem Sound.positive_length (sound : Sound registry) (member : block ∈ registry.blocks) :
    0 < block.2.toNat := by
  cases sound.shape block member with
  | large ranked length => exact length
  | cells rank ranked length =>
      rw [length]
      exact Nat.mul_pos (Nat.two_pow_pos _) (sizes_pos rank)

/-- `f_find` looks at the greatest block that is not above the address. -/
theorem place_greatest (ordered : Keyed.Ordered registry.blocks) {i : Nat}
    (place : registry.place p = some i) :
    ∃ block, registry.blocks[i]? = some block ∧ block.1 ≤ p ∧
      ∀ other ∈ registry.blocks, other.1 ≤ p → other.1 ≤ block.1 := by
  unfold Registry.place at place
  simp only at place
  split at place
  · rename_i found
    obtain rfl := Option.some.inj place
    obtain ⟨block, at_, same⟩ := Option.map_eq_some_iff.mp found
    refine ⟨block, at_, Nat.le_of_eq same, ?_⟩
    intro other _ below
    rw [same]
    exact below
  · rename_i missing
    split at place
    · cases place
    · rename_i some_
      obtain rfl := Option.some.inj place
      have short : Keyed.lowerBound p registry.blocks ≤ registry.blocks.length :=
        List.findIdx_le_length
      obtain ⟨block, at_⟩ :
          ∃ block, registry.blocks[Keyed.lowerBound p registry.blocks - 1]? = some block :=
        ⟨_, List.getElem?_eq_getElem (by omega)⟩
      have less : block.1 < p := Keyed.lt_of_before (by omega) at_
      refine ⟨block, at_, less.le, ?_⟩
      intro other member below
      obtain ⟨k, at'⟩ := List.mem_iff_getElem?.mp member
      have apart : other.1 ≠ p := by
        intro same
        apply missing
        rcases Nat.lt_trichotomy k (Keyed.lowerBound p registry.blocks) with less' | rfl | more
        · have lower := Keyed.lt_of_before less' at'
          omega
        · rw [at', Option.map_some, same]
        · obtain ⟨short', _⟩ := List.getElem?_eq_some_iff.mp at'
          obtain ⟨first, at''⟩ :
              ∃ first, registry.blocks[Keyed.lowerBound p registry.blocks]? = some first :=
            ⟨_, List.getElem?_eq_getElem (by omega)⟩
          have above := Keyed.le_of_lowerBound at''
          have further := ordered.lt at'' at' more
          omega
      have before := (Keyed.before_iff ordered at').mpr (by omega : other.1 < p)
      rcases Nat.lt_or_ge k (Keyed.lowerBound p registry.blocks - 1) with earlier | last
      · exact (ordered.lt at' at_ earlier).le
      · obtain rfl : k = Keyed.lowerBound p registry.blocks - 1 := by omega
        rw [at_] at at'
        cases at'
        exact Nat.le_refl _

/-- `f_find` gives up where every block is above the address. -/
theorem place_none (ordered : Keyed.Ordered registry.blocks) (place : registry.place p = none) :
    ∀ other ∈ registry.blocks, p < other.1 := by
  unfold Registry.place at place
  simp only at place
  split at place
  · cases place
  · rename_i missing
    split at place
    · rename_i none_
      intro other member
      obtain ⟨k, at'⟩ := List.mem_iff_getElem?.mp member
      obtain ⟨short, _⟩ := List.getElem?_eq_some_iff.mp at'
      obtain ⟨first, at_⟩ :
          ∃ first, registry.blocks[Keyed.lowerBound p registry.blocks]? = some first :=
        ⟨_, List.getElem?_eq_getElem (by omega)⟩
      have above := Keyed.le_of_lowerBound at_
      have apart : first.1 ≠ p := by
        intro same
        apply missing
        rw [at_, Option.map_some, same]
      rcases Nat.eq_zero_or_pos k with rfl | more
      · rw [none_, at'] at at_
        cases at_
        omega
      · have further := ordered.lt at_ at' (by omega)
        omega
    · cases place

theorem Sound.holds_cell (sound : Sound registry) (member : block ∈ registry.blocks)
    (cell : registry.Cell block p) : Holds block p := by
  have positive := sound.positive_length member
  cases cell with
  | large ranked place =>
      rw [place]
      exact ⟨Nat.le_refl _, by omega⟩
  | inside rank ranked i less place =>
      have large : registry.cRankX ≠ rank.val := by
        have narrow := sound.narrow
        unfold cRankX
        omega
      cases sound.shape block member with
      | large ranked' length => exact absurd (ranked'.symm.trans ranked) large
      | cells rank' ranked' length =>
          obtain rfl : rank' = rank := Fin.ext (ranked'.symm.trans ranked)
          have cells : i * registry.size rank' < sizes rank' * registry.size rank' :=
            Nat.mul_lt_mul_of_pos_right less (Nat.two_pow_pos _)
          rw [Nat.mul_comm (sizes rank')] at cells
          rw [place]
          exact ⟨Nat.le_add_right _ _, by omega⟩

/-- What `f_find` tests of the block tells whether the address is that of a cell. -/
theorem Sound.tests_iff (sound : Sound registry) (member : block ∈ registry.blocks) {p : Word}
    (below : block.1 ≤ p.toNat) :
    (p - BitVec.ofNat 64 block.1 < block.2 ∧ (p - BitVec.ofNat 64 block.1) &&&
      ((registry.cUnit <<< registry.rank block.1) - 1) = 0) ↔ registry.Cell block p.toNat := by
  have bound := p.isLt
  have offset : (p - BitVec.ofNat 64 block.1).toNat = p.toNat - block.1 := by
    rw [BitVec.toNat_sub, BitVec.toNat_ofNat]
    omega
  have large : ∀ rank : Allocator.Rank, registry.cRankX ≠ rank.val := by
    intro rank
    have narrow := sound.narrow
    unfold cRankX
    omega
  cases sound.shape block member with
  | large ranked length =>
      rw [ranked, mask_large _ sound.narrow, BitVec.lt_def, offset]
      constructor
      · intro ⟨_, zero⟩
        rw [← BitVec.toNat_inj, offset] at zero
        refine .large ranked ?_
        change p.toNat - block.1 = 0 at zero
        omega
      · intro cell
        cases cell with
        | inside rank ranked' i less place => exact absurd (ranked.symm.trans ranked') (large rank)
        | large _ place =>
            refine ⟨by omega, ?_⟩
            rw [← BitVec.toNat_inj, offset, place]
            exact Nat.sub_self _
  | cells rank ranked length =>
      have positive : 0 < registry.size rank := Nat.two_pow_pos _
      rw [ranked, mask_cells rank _ sound.narrow, BitVec.lt_def, offset, length]
      constructor
      · intro ⟨less, divides⟩
        have quotient := Nat.div_add_mod (p.toNat - block.1) (registry.size rank)
        rw [divides, Nat.add_zero, Nat.mul_comm] at quotient
        refine .inside rank ranked ((p.toNat - block.1) / registry.size rank) ?_ (by omega)
        exact Nat.div_lt_of_lt_mul less
      · intro cell
        have holds := sound.holds_cell member cell
        cases cell with
        | large ranked' place => exact absurd (ranked'.symm.trans ranked) (large rank)
        | inside rank' ranked' i less place =>
            obtain rfl : rank' = rank := Fin.ext (ranked'.symm.trans ranked)
            have inside := holds.2
            rw [length] at inside
            refine ⟨by omega, ?_⟩
            rw [place, Nat.add_sub_cancel_left]
            exact Nat.mul_mod_left i _

/-- `f_find` answers with the address of a cell and with nothing else. -/
theorem find_exact (sound : Sound registry) (p : Word) :
    registry.fFind p = some p ∧ (∃ block ∈ registry.blocks, registry.Cell block p.toNat) ∨
      registry.fFind p = none ∧ ¬ ∃ block ∈ registry.blocks, registry.Cell block p.toNat := by
  unfold fFind
  cases place : registry.place p.toNat with
  | none =>
      refine .inr ⟨rfl, ?_⟩
      intro ⟨block, member, cell⟩
      have above := place_none sound.ordered place block member
      have holds := sound.holds_cell member cell
      exact absurd holds.1 (Nat.not_le_of_lt above)
  | some i =>
      obtain ⟨⟨first, length⟩, at_, below, greatest⟩ := place_greatest sound.ordered place
      have member := List.mem_of_getElem? at_
      have tests := sound.tests_iff member below
      simp only [Option.bind_eq_bind, Option.bind_some, at_]
      by_cases cell : registry.Cell (first, length) p.toNat
      · rw [if_pos (tests.mpr cell)]
        exact .inl ⟨rfl, _, member, cell⟩
      · rw [if_neg (fun passed => cell (tests.mp passed))]
        refine .inr ⟨rfl, ?_⟩
        intro ⟨other, member', cell'⟩
        -- The block of such a cell starts at or below the one looked at, which would be in it.
        have holds := sound.holds_cell member' cell'
        have lower := greatest other member' holds.1
        have positive := sound.positive_length member
        have inside : Holds other first := ⟨lower, Nat.lt_of_le_of_lt below holds.2⟩
        have same : other = (first, length) :=
          sound.apart other member' _ member first inside ⟨Nat.le_refl _, by omega⟩
        rw [same] at cell'
        exact cell cell'

/-! ### The blocks of a heap -/

/-- A block is registered, and only what it holds is given another rank. -/
theorem Sound.registers (sound : Sound registry) (mapped : registry.Mapped block)
    {rank : Nat → Nat} (same : ∀ p, ¬Holds block p → rank p = registry.rank p)
    (shape : Shape ⟨registry.unit, Keyed.emplace block.1 block.2 registry.blocks, rank⟩ block) :
    Sound ⟨registry.unit, Keyed.emplace block.1 block.2 registry.blocks, rank⟩ where
  positive := sound.positive
  narrow := sound.narrow
  ordered := Keyed.ordered_emplace sound.ordered
  within other member := by
    rcases Keyed.mem_emplace member with rfl | earlier
    · exact mapped.within
    · exact sound.within other earlier
  apart first member second member' p holds holds' := by
    rcases Keyed.mem_emplace member with rfl | earlier
    · rcases Keyed.mem_emplace member' with rfl | earlier'
      · rfl
      · exact absurd holds (mapped.free second earlier' p holds')
    · rcases Keyed.mem_emplace member' with rfl | earlier'
      · exact absurd holds' (mapped.free first earlier p holds)
      · exact sound.apart first earlier second earlier' p holds holds'
  shape other member := by
    rcases Keyed.mem_emplace member with rfl | earlier
    · exact shape
    · have positive := sound.positive_length earlier
      have start : Holds other other.1 := ⟨Nat.le_refl _, by omega⟩
      have kept := same other.1 (mapped.free other earlier other.1 start)
      cases sound.shape other earlier with
      | cells class_ ranked length => exact .cells class_ (kept.trans ranked) length
      | large ranked length => exact .large (kept.trans ranked) length

/-- The length of a block that `f_grow` maps, which does not wrap. -/
theorem grown_length (rank : Allocator.Rank) (narrow : registry.unit + 14 < 64) :
    ((registry.cUnit <<< rank.val) * BitVec.ofNat 64 (sizes rank)).toNat =
      registry.size rank * sizes rank := by
  have few := sizes_le rank
  have many := sizes_pos rank
  have bits : 2 ^ (registry.unit + 14) ≤ 2 ^ 63 := Nat.pow_le_pow_right (by decide) (by omega)
  have whole : registry.size rank * sizes rank ≤ 2 ^ 63 := by
    calc registry.size rank * sizes rank = 2 ^ registry.unit * (2 ^ rank.val * sizes rank) := by
          rw [size, Nat.pow_add, Nat.mul_assoc]
      _ ≤ 2 ^ registry.unit * 2 ^ 14 := Nat.mul_le_mul_left _ few
      _ = 2 ^ (registry.unit + 14) := (Nat.pow_add ..).symm
      _ ≤ 2 ^ 63 := bits
  have part : registry.size rank ≤ registry.size rank * sizes rank :=
    Nat.le_mul_of_pos_right _ many
  have shifted : (registry.cUnit <<< rank.val).toNat = registry.size rank := by
    rw [cUnit, ← BitVec.shiftLeft_add, BitVec.toNat_shiftLeft, BitVec.toNat_one (by decide),
      Nat.one_shiftLeft]
    exact Nat.mod_eq_of_lt (Nat.lt_of_le_of_lt (part.trans whole) (by decide))
  have count : sizes rank < 2 ^ 64 := by
    have one := Nat.le_mul_of_pos_left (sizes rank) (Nat.two_pow_pos rank.val)
    omega
  rw [BitVec.toNat_mul, shifted, BitVec.toNat_ofNat, Nat.mod_eq_of_lt count]
  exact Nat.mod_eq_of_lt (by omega)

theorem Sound.grow (sound : Sound registry) (rank : Allocator.Rank) {first : Nat}
    (mapped : registry.Mapped
      (first, (registry.cUnit <<< rank.val) * BitVec.ofNat 64 (sizes rank))) :
    Sound (registry.fGrow rank first) := by
  have positive : 0 < registry.size rank * sizes rank :=
    Nat.mul_pos (Nat.two_pow_pos _) (sizes_pos rank)
  have length := grown_length rank sound.narrow
  apply sound.registers mapped
  · intro p outside
    apply if_neg
    intro ⟨low, high, _⟩
    exact outside ⟨low, high⟩
  · refine .cells rank ?_ length
    apply if_pos
    refine ⟨Nat.le_refl _, by omega, ?_⟩
    rw [Nat.sub_self, Nat.zero_mod]

theorem Sound.allocateLarge (sound : Sound registry) {first : Nat} {size : Word}
    (positive : 0 < size.toNat) (mapped : registry.Mapped (first, size)) :
    Sound (registry.fAllocateLarge first size) := by
  apply sound.registers mapped
  · intro p outside
    apply Function.update_of_ne
    rintro rfl
    exact outside ⟨Nat.le_refl _, Nat.lt_add_of_pos_right positive⟩
  · exact .large (Function.update_self ..) positive

theorem Sound.freeLarge (sound : Sound registry) (first : Nat) :
    Sound (registry.fFreeLarge first) where
  positive := sound.positive
  narrow := sound.narrow
  ordered := Keyed.ordered_erase sound.ordered
  within other member := sound.within other (Keyed.mem_erase.mp member).1
  apart one member other member' :=
    sound.apart one (Keyed.mem_erase.mp member).1 other (Keyed.mem_erase.mp member').1
  shape other member := by
    cases sound.shape other (Keyed.mem_erase.mp member).1 with
    | cells rank ranked length => exact .cells rank ranked length
    | large ranked length => exact .large ranked length

theorem sound_of_reached {unit : Nat} (positive : 0 < unit) (narrow : unit + 14 < 64)
    (reached : Reached unit registry) : Sound registry := by
  induction reached with
  | start rank =>
      exact ⟨positive, narrow, .nil, nofun, nofun, nofun⟩
  | grow rank _ mapped induction => exact induction.grow rank mapped
  | allocateLarge _ positive mapped induction => exact induction.allocateLarge positive mapped
  | freeLarge first _ induction => exact induction.freeLarge first

/-- `f_object__find` finds the cells that have a type, where the blocks are aligned. -/
theorem object_find_iff (sound : Sound registry)
    (aligned : ∀ block ∈ registry.blocks, block.1 % 2 ^ registry.unit = 0) (typed : Word → Bool)
    (p : Word) : registry.fObjectFind typed p = some p ↔
      (∃ block ∈ registry.blocks, registry.Cell block p.toNat) ∧ typed p = true := by
  have narrow := sound.narrow
  have mask : p &&& (registry.cUnit - 1) = 0 ↔ p.toNat % 2 ^ registry.unit = 0 :=
    mask_shift registry.unit p (by omega)
  unfold fObjectFind
  rcases find_exact sound p with ⟨found, cell⟩ | ⟨missed, none_⟩
  · have multiple : p.toNat % 2 ^ registry.unit = 0 := by
      obtain ⟨block, member, cell⟩ := cell
      cases cell with
      | large _ place =>
          rw [place]
          exact aligned block member
      | inside rank _ i _ place =>
          rw [place, Nat.add_mod, aligned block member, size, Nat.pow_add, Nat.mul_comm,
            Nat.mul_assoc, Nat.mul_mod_right, Nat.add_zero, Nat.zero_mod]
    rw [if_neg (not_not.mpr (mask.mpr multiple)), found]
    cases kind : typed p with
    | true => simp [Option.filter, cell, kind]
    | false => simp [Option.filter, kind]
  · rw [missed]
    constructor
    · intro found
      split at found <;> cases found
    · intro ⟨cell, _⟩
      exact absurd cell none_

def twoBlocks : Registry := (fGrow ⟨6, [], fun _ => 0⟩ (Fin.last 4) 4096).fAllocateLarge 131072 5000

theorem find_exact_two : (∃ block ∈ twoBlocks.blocks, twoBlocks.Cell block 5120) ∧
    ¬ ∃ block ∈ twoBlocks.blocks, twoBlocks.Cell block 131136 := by
  have reached : Reached 6 twoBlocks := by
    apply Reached.allocateLarge
    · apply Reached.grow 4 (.start _)
      exact ⟨by decide, nofun⟩
    · decide
    · refine ⟨by decide, ?_⟩
      intro other member p holds holds'
      cases List.mem_singleton.mp member
      have end_ : 4096 + (((1#64 <<< 6) <<< 4) * BitVec.ofNat 64 (sizes 4)).toNat ≤ 131072 := by
        decide
      exact absurd (Nat.lt_of_lt_of_le holds.2 end_) (Nat.not_lt_of_le holds'.1)
  have sound := sound_of_reached (by decide) (by decide) reached
  constructor
  · rcases find_exact sound 5120 with ⟨_, cell⟩ | ⟨missed, _⟩
    · exact cell
    · exact absurd missed (by decide)
  · rcases find_exact sound 131136 with ⟨found, _⟩ | ⟨_, none_⟩
    · exact absurd found (by decide)
    · exact none_

end Registry

end Xemmai.Lookup
