import Xemmai.Value

/-!
# Ranges of bytes

The checks that `t_bytes::f_copy`, `t_file::f_read` and `t_file::f_write` make of the
ranges they are given. A function either throws or goes on to the bytes from an offset
on; the sums of the checks are those of `size_t`, the ranges those of the integers.
-/

namespace Xemmai

set_option autoImplicit false

namespace TBytes

def outOfRange : String := "out of range."

/-- `f_throw_out_of_range` unless the range is taken for one of the bytes. -/
def check (offset size length : Word) : Except String Unit :=
  if offset + size > length then .error outOfRange else .ok ()

/-- The first part of `f_validate`: an index that is not negative. -/
def fromEnd (index length : Word) : Except String Word :=
  if index.slt 0 then
    if (index + length).slt 0 then .error outOfRange else .ok (index + length)
  else .ok index

/-- `f_validate` with an index and a size: the index that it leaves. -/
def validate (index size length : Word) : Except String Word := do
  let index ← fromEnd index length
  check index size length
  .ok index

/-- `f_copy` up to `std::copy`: the offsets in both objects. -/
def copy (index0 size length0 index1 length1 : Word) : Except String (Word × Word) := do
  let index0 ← validate index0 size length0
  let index1 ← validate index1 size length1
  .ok (index0, index1)

def position (index length : Word) : Int :=
  if index.toInt < 0 then index.toInt + length.toNat else index.toInt

/-- The bytes from `start` on are bytes of the object. -/
def Within (start : Int) (size length : Word) : Prop :=
  0 ≤ start ∧ start + size.toNat ≤ length.toNat

/-- The end of the range is past that of the addresses by no more than the length. -/
def Wraps (start : Int) (size length : Word) : Prop :=
  0 ≤ start ∧ 2 ^ 64 ≤ start + size.toNat ∧ start + size.toNat ≤ 2 ^ 64 + length.toNat

end TBytes

namespace TFile

/-- `f_read` and `f_write` up to the first `read` or `write`: what it is given of the
bytes. -/
def transfer (fd : Int) (offset size length : Word) : Except String (Word × Word) := do
  if fd < 0 then .error "already closed."
  TBytes.check offset size length
  .ok (offset, size)

end TFile

namespace TBytes

variable {index size length : Word}

/-- What the second part of `validate` and the checks of a file accept. -/
theorem check_iff (offset size length : Word) :
    check offset size length = .ok () ↔
      Within offset.toNat size length ∨ Wraps offset.toNat size length := by
  have offsetBound := offset.isLt
  have sizeBound := size.isLt
  have lengthBound := length.isLt
  have sum : (offset + size).toNat = (offset.toNat + size.toNat) % 2 ^ 64 :=
    BitVec.toNat_add offset size
  unfold check Within Wraps
  split
  · rename_i beyond
    rw [gt_iff_lt, BitVec.lt_def] at beyond
    constructor
    · intro impossible
      cases impossible
    · omega
  · rename_i inside
    rw [gt_iff_lt, BitVec.lt_def] at inside
    refine ⟨fun _ => ?_, fun _ => rfl⟩
    omega

theorem toInt_cases (word : Word) :
    word.slt 0 = true ∧ word.toInt = word.toNat - 2 ^ 64 ∧ 2 ^ 63 ≤ word.toNat ∨
      word.slt 0 = false ∧ word.toInt = word.toNat ∧ word.toNat < 2 ^ 63 := by
  have bound := word.isLt
  have value := BitVec.toInt_eq_toNat_cond word
  have zero : (0 : Word).toInt = 0 := rfl
  rw [BitVec.slt, zero]
  split at value
  · right
    refine ⟨?_, value, by omega⟩
    rw [decide_eq_false_iff_not]
    omega
  · left
    refine ⟨?_, by omega, by omega⟩
    rw [decide_eq_true_iff]
    omega

/-- The index that the first part leaves is the position that is meant. -/
theorem from_end_iff (index length offset : Word) :
    fromEnd index length = .ok offset ↔
      (offset.toNat : Int) = position index length ∧ position index length < 2 ^ 63 := by
  have offsetBound := offset.isLt
  have lengthBound := length.isLt
  have indexBound := index.isLt
  unfold fromEnd position
  rcases toInt_cases index with ⟨negative, value, high⟩ | ⟨positive, value, low⟩
  · have sum : (index + length).toNat = (index.toNat + length.toNat) % 2 ^ 64 :=
      BitVec.toNat_add index length
    have below : index.toInt < 0 := by omega
    rw [if_pos negative, if_pos below]
    rcases toInt_cases (index + length) with ⟨beyond, -, high'⟩ | ⟨inside, -, low'⟩
    · rw [if_pos beyond]
      constructor
      · intro impossible
        cases impossible
      · omega
    · rw [inside, if_neg Bool.false_ne_true, Except.ok.injEq, ← BitVec.toNat_inj]
      omega
  · have above : ¬ index.toInt < 0 := by omega
    rw [positive, if_neg Bool.false_ne_true, if_neg above, Except.ok.injEq, ← BitVec.toNat_inj]
    omega

/-- The arguments that `validate` accepts. -/
def Accepted (index size length : Word) : Prop :=
  position index length < 2 ^ 63 ∧
    (Within (position index length) size length ∨ Wraps (position index length) size length)

/-- `validate` leaves the index that the range starts at. -/
theorem validate_iff (index size length offset : Word) :
    validate index size length = .ok offset ↔
      Accepted index size length ∧ (offset.toNat : Int) = position index length := by
  have start := from_end_iff index length
  unfold validate Accepted
  cases moved : fromEnd index length with
  | error message =>
      rw [moved] at start
      constructor
      · intro impossible
        cases impossible
      · rintro ⟨⟨low, -⟩, same⟩
        cases (start offset).mpr ⟨same, low⟩
  | ok index' =>
      rw [moved] at start
      obtain ⟨value, low⟩ := (start index').mp rfl
      have accepted := check_iff index' size length
      rw [value] at accepted
      change (do check index' size length; .ok index') = Except.ok offset ↔ _
      cases checked : check index' size length with
      | error message =>
          rw [checked] at accepted
          constructor
          · intro impossible
            cases impossible
          · rintro ⟨⟨-, ranges⟩, -⟩
            cases accepted.mpr ranges
      | ok _ =>
          have ranges := accepted.mp checked
          constructor
          · intro same
            cases same
            exact ⟨⟨low, ranges⟩, value⟩
          · rintro ⟨-, same⟩
            exact (start offset).mpr ⟨same, low⟩

theorem accepted_iff (index size length : Word) :
    (∃ offset, validate index size length = .ok offset) ↔ Accepted index size length := by
  constructor
  · rintro ⟨offset, validated⟩
    exact ((validate_iff index size length offset).mp validated).1
  · intro accepted
    refine ⟨BitVec.ofInt 64 (position index length),
      (validate_iff index size length _).mpr ⟨accepted, ?_⟩⟩
    have low := accepted.1
    have positive : 0 ≤ position index length := accepted.2.elim (·.1) (·.1)
    rw [BitVec.toNat_ofInt]
    omega

theorem copy_iff (index0 size length0 index1 length1 : Word) :
    (∃ offsets, copy index0 size length0 index1 length1 = .ok offsets) ↔
      Accepted index0 size length0 ∧ Accepted index1 size length1 := by
  rw [← accepted_iff, ← accepted_iff]
  unfold copy
  cases validate index0 size length0 with
  | error message => simp [bind, Except.bind]
  | ok offset0 =>
      cases validate index1 size length1 with
      | error message => simp [bind, Except.bind]
      | ok offset1 => simp [bind, Except.bind]

theorem transfer_iff (fd : Int) (offset size length : Word) :
    (∃ given, TFile.transfer fd offset size length = .ok given) ↔
      0 ≤ fd ∧ (Within offset.toNat size length ∨ Wraps offset.toNat size length) := by
  rw [← check_iff]
  unfold TFile.transfer
  by_cases closed : fd < 0
  · simp [closed, bind, Except.bind]
  · rw [if_neg closed]
    cases check offset size length with
    | error message => simp [bind, Except.bind]
    | ok _ => simpa [bind, Except.bind] using closed

theorem wraps_outside {start : Int} (wraps : Wraps start size length) :
    ¬ Within start size length := by
  have bound := length.isLt
  unfold Wraps at wraps
  unfold Within
  omega

private theorem guarded {open_ within wraps : Prop} (apart : wraps → ¬ within) :
    (open_ ∧ (within ∨ wraps) → within) ↔ ¬ (open_ ∧ wraps) := by
  constructor
  · rintro inside ⟨opened, wrapped⟩
    exact apart wrapped (inside ⟨opened, .inr wrapped⟩)
  · rintro never ⟨opened, here | wrapped⟩
    · exact here
    · exact absurd ⟨opened, wrapped⟩ never

/-- Of the arguments of `f_copy` and of the transfers of a file, those that go on to the
bytes give ranges of the bytes, unless the end of a range wraps. -/
theorem ranges_checked_iff (index size length index' length' offset : Word) (fd : Int) :
    (((∃ start, validate index size length = .ok start) →
        Within (position index length) size length) ↔
      ¬ (position index length < 2 ^ 63 ∧ Wraps (position index length) size length)) ∧
    (((∃ starts, copy index size length index' length' = .ok starts) →
        Within (position index length) size length ∧
          Within (position index' length') size length') ↔
      ¬ (Accepted index size length ∧ Accepted index' size length' ∧
        (Wraps (position index length) size length ∨
          Wraps (position index' length') size length'))) ∧
    (((∃ given, TFile.transfer fd offset size length = .ok given) →
        Within offset.toNat size length) ↔
      ¬ (0 ≤ fd ∧ Wraps offset.toNat size length)) := by
  refine ⟨?_, ?_, ?_⟩
  · rw [accepted_iff]
    exact guarded wraps_outside
  · rw [copy_iff]
    constructor
    · rintro inside ⟨accepted, accepted', wrapped | wrapped⟩
      · exact wraps_outside wrapped (inside ⟨accepted, accepted'⟩).1
      · exact wraps_outside wrapped (inside ⟨accepted, accepted'⟩).2
    · rintro never ⟨accepted, accepted'⟩
      have unwrapped := fun wrapped => never ⟨accepted, accepted', wrapped⟩
      exact ⟨accepted.2.resolve_right fun wrapped => unwrapped (.inl wrapped),
        accepted'.2.resolve_right fun wrapped => unwrapped (.inr wrapped)⟩
  · rw [transfer_iff]
    exact guarded wraps_outside

/-- `f_copy` from index 1 with a size of -1, and a transfer of one byte at -1, of eight
bytes. -/
theorem wrapped_ranges :
    copy 1 (-1) 8 1 8 = .ok (1, 1) ∧ ¬ Within (position 1 8) (-1) 8 ∧
      TFile.transfer 3 (-1) 1 8 = .ok (-1, 1) ∧ ¬ Within ((-1 : Word).toNat) 1 8 := by
  have ends : Wraps (position 1 8) (-1) 8 := by unfold Wraps; decide
  have ends' : Wraps ((-1 : Word).toNat) 1 8 := by unfold Wraps; decide
  exact ⟨rfl, wraps_outside ends, rfl, wraps_outside ends'⟩

end TBytes

end Xemmai
